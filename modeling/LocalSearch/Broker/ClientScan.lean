import LocalSearch.Broker.Handles
import LocalSearch.Broker.ScanPaging

/-!
# A whole scan through the broker

The client starts a scan, asks for page after page and gives the events to a sink.
A request may be lost, or be served with its answer lost, and between two requests
the broker serves other clients and its workers. The sink takes what the provider of
the service would have given it, from the start and in order; a scan that ends well
has given everything and left nothing behind in the service.
-/
namespace LocalSearch.Broker

set_option autoImplicit false

open Core Lib

/-- What the broker does beside this client: a turn of one worker, or a request of
another client. -/
inductive Elsewhere where
  | worker (scanId : Nat)
  | request (around : Surroundings) (request : BrokerRequest)

def Elsewhere.run (service : BrokerService) : Elsewhere → BrokerService
  | .worker scanId => produceFor service scanId
  | .request around asked => (dispatch service around asked).1

/-- How far a request gets. -/
inductive Travel where
  | lost (error : BrokerTransportError)
  | unanswered (around : Surroundings) (error : BrokerTransportError)
  | answered (around : Surroundings)

def Travel.invoke (travel : Travel) (service : BrokerService) (request : BrokerRequest) :
    BrokerService × Except BrokerTransportError BrokerResponse :=
  match travel with
  | .lost error => (service, .error error)
  | .unanswered around error => ((dispatch service around request).1, .error error)
  | .answered around => ((dispatch service around request).1, .ok (dispatch service around request).2)

/-- One request of the client: what the broker does before it, and how far it gets. -/
structure Sending where
  meanwhile : List Elsewhere
  travel : Travel

/-- `invoke` of the provider. -/
def invokeOver (service : BrokerService) (provider : BrokerFilesystemProvider) (sending : Sending)
    (operation : BrokerOperation) :
    BrokerService × BrokerFilesystemProvider × PlatformResult BrokerPayload :=
  let request := clientRequest provider.nextRequestId operation
  let (service, answer) :=
    sending.travel.invoke (sending.meanwhile.foldl Elsewhere.run service) request
  (service, { provider with nextRequestId := (provider.nextRequestId + 1) % 2 ^ 64 },
    match answer with
    | .error error => .error (transportError error)
    | .ok response => responseResult request response)

def startPagedScan (service : BrokerService) (provider : BrokerFilesystemProvider) (sending : Sending)
    (volumeId : VolumeId) (mode : ScanMode) :
    BrokerService × BrokerFilesystemProvider × PlatformResult Nat :=
  let (service, provider, result) := invokeOver service provider sending (.startScan volumeId mode)
  (service, provider, match result with
    | .error error => .error error
    | .ok (.scanStarted scanId) => .ok scanId
    | .ok _ => .error (incompatible "scan start response mismatch"))

def readPagedScan (service : BrokerService) (provider : BrokerFilesystemProvider) (sending : Sending)
    (scanId maximumEvents : Nat) :
    BrokerService × BrokerFilesystemProvider × PlatformResult ScanPage :=
  let maximumEvents := min maximumEvents maxBrokerPageEvents
  if maximumEvents = 0 then
    (service, provider, .error ⟨.resourceExhausted, "broker_scan", "event count must be positive"⟩)
  else
    let (service, provider, result) :=
      invokeOver service provider sending (.readScanPage scanId maximumEvents)
    (service, provider, match result with
      | .error error => .error error
      | .ok (.scanPage page) => .ok page
      | .ok _ => .error (incompatible "scan page response mismatch"))

def cancelPagedScan (service : BrokerService) (provider : BrokerFilesystemProvider)
    (sending : Sending) (scanId : Nat) :
    BrokerService × BrokerFilesystemProvider × PlatformResult Unit :=
  let (service, provider, result) := invokeOver service provider sending (.cancelScan scanId)
  (service, provider, match result with
    | .error error => .error error
    | .ok (.scanCancelled cancelled) =>
        if cancelled = scanId then .ok ()
        else .error (incompatible "scan cancellation response mismatch")
    | .ok _ => .error (incompatible "scan cancellation response mismatch"))

section Sink

variable {σ : Type}

/-- What a sink becomes when it is given an event, and whether it takes it. -/
structure FilesystemEventSink (σ : Type) where
  emit : FilesystemEvent → σ → σ × PlatformResult Unit

/-- One event after another, until the sink refuses one. -/
def FilesystemEventSink.emitAll (sink : FilesystemEventSink σ) :
    List FilesystemEvent → σ → σ × PlatformResult Unit
  | [], state => (state, .ok ())
  | event :: rest, state =>
      match sink.emit event state with
      | (state, .error error) => (state, .error error)
      | (state, .ok ()) => sink.emitAll rest state

structure ScanSession (σ : Type) where
  service : BrokerService
  provider : BrokerFilesystemProvider
  sink : σ
  emittedEvents : Nat

/-- What one turn of the loop meets: the clock, the page request, and the
cancellation if there is one. -/
structure ScanTurn where
  expired : Bool
  page : Sending
  cancel : Sending

def lifecycleDeadline : PlatformError :=
  ⟨.resourceExhausted, "broker_scan", "broker scan exceeded client lifecycle deadline"⟩

def eventCountOverflow : PlatformError :=
  ⟨.resourceExhausted, "broker_scan", "event count overflow"⟩

/-- Give the scan up; what comes of the cancellation is not looked at. -/
def giveUp (session : ScanSession σ) (sending : Sending) (scanId : Nat) (error : PlatformError) :
    ScanSession σ × Option (PlatformResult ScanSummary) :=
  let (service, provider, _) := cancelPagedScan session.service session.provider sending scanId
  ({ session with service := service, provider := provider }, some (.error error))

/-- One turn of the loop; no result means another turn. -/
def scanTurn (sink : FilesystemEventSink σ) (scanId : Nat) (session : ScanSession σ)
    (turn : ScanTurn) : ScanSession σ × Option (PlatformResult ScanSummary) :=
  if turn.expired then giveUp session turn.cancel scanId lifecycleDeadline
  else
    let (service, provider, page) :=
      readPagedScan session.service session.provider turn.page scanId maxBrokerPageEvents
    let session := { session with service := service, provider := provider }
    match page with
    | .error error => (session, some (.error error))
    | .ok page =>
        if 2 ^ 64 ≤ session.emittedEvents + page.events.length then
          (session, some (.error eventCountOverflow))
        else
          let emittedEvents := session.emittedEvents + page.events.length
          match sink.emitAll page.events session.sink with
          | (state, .error error) =>
              giveUp { session with sink := state, emittedEvents := emittedEvents } turn.cancel scanId
                error
          | (state, .ok ()) =>
              let session := { session with sink := state, emittedEvents := emittedEvents }
              if page.complete then
                (session, some (match page.checkpoint with
                  | none => .error (incompatible "completed scan omitted checkpoint")
                  | some checkpoint => .ok ⟨checkpoint, emittedEvents⟩))
              else (session, none)

def scanLoop (sink : FilesystemEventSink σ) (scanId : Nat) :
    List ScanTurn → ScanSession σ → ScanSession σ × Option (PlatformResult ScanSummary)
  | [], session => (session, none)
  | turn :: turns, session =>
      match scanTurn sink scanId session turn with
      | (session, some result) => (session, some result)
      | (session, none) => scanLoop sink scanId turns session

/-- `initial_scan` and `reconcile` of the provider, by their mode. -/
def scan (sink : FilesystemEventSink σ) (volumeId : VolumeId) (mode : ScanMode) (start : Sending)
    (turns : List ScanTurn) (service : BrokerService) (provider : BrokerFilesystemProvider)
    (state : σ) : ScanSession σ × Option (PlatformResult ScanSummary) :=
  match startPagedScan service provider start volumeId mode with
  | (service, provider, .error error) => (⟨service, provider, state, 0⟩, some (.error error))
  | (service, provider, .ok scanId) => scanLoop sink scanId turns ⟨service, provider, state, 0⟩

theorem emitAll_append (sink : FilesystemEventSink σ) {first : List FilesystemEvent} {state next : σ}
    (h : sink.emitAll first state = (next, .ok ())) (second : List FilesystemEvent) :
    sink.emitAll (first ++ second) state = sink.emitAll second next := by
  induction first generalizing state with
  | nil =>
    obtain ⟨rfl, -⟩ := Prod.mk.inj h
    rfl
  | cons event rest ih =>
    rw [FilesystemEventSink.emitAll] at h
    split at h
    · next error _ => cases (Prod.mk.inj h).2
    · next state' hemit =>
      simp only [List.cons_append, FilesystemEventSink.emitAll, hemit]
      exact ih h

end Sink

/-- The request neither reads the scan nor cancels it. -/
def Elsewhere.Spares (scanId : Nat) : Elsewhere → Prop
  | .worker _ => True
  | .request _ asked =>
      (∀ maximumEvents, asked.operation ≠ .readScanPage scanId maximumEvents) ∧
        asked.operation ≠ .cancelScan scanId

theorem readScanPage_spares (service : BrokerService) (turns : Nat → Nat) {scanId other : Nat}
    (hother : scanId ≠ other) (maximumEvents : Nat) :
    (readScanPage service turns other maximumEvents).1.scans.get scanId =
      service.scans.get scanId := by
  have herase : (service.scans.erase other).get scanId = service.scans.get scanId := by
    rw [Table.get_erase, if_neg hother]
  unfold readScanPage
  split
  · rfl
  · split
    next events terminal scan' _ =>
    split
    · exact Table.get_insert_ne _ _ hother
    · split
      · exact Table.get_insert_ne _ _ hother
      · exact herase

theorem dispatchOperation_spares {service : BrokerService} {scanId : Nat} (around : Surroundings)
    {operation : BrokerOperation} (hnext : scanId < service.nextScanId)
    (hread : ∀ maximumEvents, operation ≠ .readScanPage scanId maximumEvents)
    (hcancel : operation ≠ .cancelScan scanId) :
    (dispatchOperation service around operation).1.scans.get scanId = service.scans.get scanId := by
  unfold dispatchOperation
  split
  · rfl
  · cases operation with
    | brokerGetCapabilities => rfl
    | discoverVolumes =>
      dsimp only
      split <;> rfl
    | startScan volumeId mode =>
      dsimp only [startScan]
      split
      · rfl
      · split
        · rfl
        · split
          · rfl
          · split
            · rfl
            · exact Table.get_insert_ne _ _ (by omega)
    | readScanPage other maximumEvents =>
      have hother : scanId ≠ other := by
        intro hsame
        exact hread maximumEvents (by rw [hsame])
      exact readScanPage_spares service around.turns hother maximumEvents
    | cancelScan other =>
      have hother : scanId ≠ other := by
        intro hsame
        exact hcancel (by rw [hsame])
      dsimp only [cancelScan]
      split
      · rfl
      · show (service.scans.erase other).get scanId = _
        rw [Table.get_erase, if_neg hother]
    | readChanges checkpoint maximumEvents =>
      dsimp only [readChanges]
      split <;> rfl

/-- A dispatch answers without a payload and leaves the scans alone, or carries out
the operation. -/
theorem dispatch_effect (service : BrokerService) (around : Surroundings) (request : BrokerRequest) :
    ((dispatch service around request).1.scans = service.scans ∧
      (dispatch service around request).1.nextScanId = service.nextScanId ∧
      (dispatch service around request).2.result = none) ∨
    ∃ window,
      (dispatch service around request).1 =
        (dispatchOperation { service with replay := window } around request.operation).1 ∧
      (dispatch service around request).2.result =
        (dispatchOperation { service with replay := window } around request.operation).2.toOption := by
  unfold dispatch
  dsimp only
  split
  · exact Or.inl ⟨rfl, rfl, rfl⟩
  · split
    · exact Or.inl ⟨rfl, rfl, rfl⟩
    · next window _ =>
      split
      · exact Or.inl ⟨rfl, rfl, rfl⟩
      · refine Or.inr ⟨window, ?_⟩
        split
        · next payload hresult => exact ⟨rfl, by rw [hresult]; rfl⟩
        · next error hresult => exact ⟨rfl, by rw [hresult]; rfl⟩

theorem responseResult_ok {request : BrokerRequest} {response : BrokerResponse}
    {payload : BrokerPayload} (h : responseResult request response = .ok payload) :
    response.result = some payload := by
  unfold responseResult at h
  split at h
  · cases h
  · split at h
    · next hresult _ =>
      rw [hresult, Except.ok.inj h]
    · cases h
    · cases h

/-- A payload comes from the operation, carried out after what the broker did before. -/
theorem invokeOver_ok {service after : BrokerService} {provider provider' : BrokerFilesystemProvider}
    {sending : Sending} {operation : BrokerOperation} {payload : BrokerPayload}
    (h : invokeOver service provider sending operation = (after, provider', .ok payload)) :
    ∃ around window, sending.travel = .answered around ∧
      dispatchOperation { sending.meanwhile.foldl Elsewhere.run service with replay := window } around
        operation = (after, .ok payload) := by
  unfold invokeOver at h
  cases htravel : sending.travel with
  | lost error => simp [htravel, Travel.invoke] at h
  | unanswered around error => simp [htravel, Travel.invoke] at h
  | answered around =>
    simp only [htravel, Travel.invoke, Prod.mk.injEq] at h
    obtain ⟨hafter, -, hresult⟩ := h
    have hpayload := responseResult_ok hresult
    rcases dispatch_effect (sending.meanwhile.foldl Elsewhere.run service) around
      (clientRequest provider.nextRequestId operation) with ⟨-, -, hnone⟩ | ⟨window, hsame, hanswer⟩
    · rw [hnone] at hpayload
      cases hpayload
    · refine ⟨around, window, rfl, Prod.ext ?_ ?_⟩
      · exact hsame.symm.trans hafter
      · rw [hanswer] at hpayload
        change (dispatchOperation { sending.meanwhile.foldl Elsewhere.run service with
          replay := window } around operation).2.toOption = some payload at hpayload
        cases hvalue : (dispatchOperation { sending.meanwhile.foldl Elsewhere.run service with
            replay := window } around operation).2 with
        | error error =>
          rw [hvalue] at hpayload
          cases hpayload
        | ok value =>
          rw [hvalue] at hpayload
          exact congrArg Except.ok (Option.some.inj hpayload)

theorem dispatchOperation_ok {service after : BrokerService} {around : Surroundings}
    {operation : BrokerOperation} {payload : BrokerPayload}
    (h : dispatchOperation service around operation = (after, .ok payload)) :
    checkRequest around.atEntry = .ok () := by
  unfold dispatchOperation at h
  split at h
  · cases (Prod.mk.inj h).2
  · assumption

section Scan

variable {events : List FilesystemEvent} {result : PlatformResult ScanSummary} {scanId room : Nat}
  {pages : List (List FilesystemEvent)} {scan : ScanState} {service : BrokerService}

/-- The scan is open, and its handle does not come up again among `room` requests. -/
structure Streaming (events : List FilesystemEvent) (result : PlatformResult ScanSummary)
    (scanId room : Nat) (pages : List (List FilesystemEvent)) (scan : ScanState)
    (service : BrokerService) : Prop where
  opened : Open events result service scanId pages scan service
  handle : scanId < service.nextScanId
  room : service.nextScanId + room < 2 ^ 64

/-- What others do leaves the scan as far as it is, or farther. -/
theorem Streaming.elsewhere (h : Streaming events result scanId (room + 1) pages scan service)
    {other : Elsewhere} (hspares : other.Spares scanId) :
    ∃ scan', Streaming events result scanId room pages scan' (other.run service) ∧
      remaining scan' ≤ remaining scan ∧
      (Readable scan ∨ other = .worker scanId → Readable scan') := by
  have hroom : service.nextScanId + (room + 1) < 2 ^ 64 := h.room
  have hbelow := h.handle
  cases other with
  | worker id =>
    by_cases hid : id = scanId
    · obtain ⟨hopen, hreadable⟩ := h.opened.produceFor
      rw [hid]
      exact ⟨scan.produce, ⟨⟨hopen.active, rfl, hopen.state⟩, hbelow, Nat.lt_of_succ_lt hroom⟩,
        remaining_produce scan, fun _ => hreadable⟩
    · have hsame : (produceFor service id).scans.get scanId = some scan := by
        show (service.scans.modify id ScanState.produce).get scanId = some scan
        rw [Table.get_modify, if_neg (Ne.symm hid)]
        exact h.opened.active
      refine ⟨scan, ⟨⟨hsame, rfl, h.opened.state⟩, hbelow, Nat.lt_of_succ_lt hroom⟩, le_rfl, ?_⟩
      intro hreadable
      rcases hreadable with hreadable | hworker
      · exact hreadable
      · exact absurd (Elsewhere.worker.inj hworker) hid
  | request around asked =>
    have hkept : ∀ after : BrokerService, after.scans.get scanId = service.scans.get scanId →
        service.nextScanId ≤ after.nextScanId → after.nextScanId ≤ service.nextScanId + 1 →
        Streaming events result scanId room pages scan after := by
      intro after hsame hle hlt
      refine ⟨⟨hsame.trans h.opened.active, rfl, h.opened.state⟩, by omega, by omega⟩
    refine ⟨scan, ?_, le_rfl, fun hreadable => hreadable.resolve_right (by simp)⟩
    rcases dispatch_effect service around asked with ⟨hscans, hnext, -⟩ | ⟨window, hafter, -⟩
    · exact hkept _ (by show (dispatch service around asked).1.scans.get scanId = _; rw [hscans])
        (Nat.le_of_eq hnext.symm) (by show (dispatch service around asked).1.nextScanId ≤ _; omega)
    · have hget := dispatchOperation_spares around
        (show scanId < ({ service with replay := window } : BrokerService).nextScanId from hbelow)
        hspares.1 hspares.2
      have hnext : (dispatchOperation { service with replay := window } around
            asked.operation).1.nextScanId = service.nextScanId + 1 ∨
          (dispatchOperation { service with replay := window } around
            asked.operation).1.nextScanId = service.nextScanId := by
        rcases dispatchOperation_scans { service with replay := window } around asked.operation with
          hstarts | hkeeps
        · refine Or.inl (hstarts.next.trans (Nat.mod_eq_of_lt ?_))
          show service.nextScanId + 1 < 2 ^ 64
          omega
        · exact Or.inr hkeeps.next
      show Streaming events result scanId room pages scan (dispatch service around asked).1
      rw [hafter]
      exact hkept _ hget (by omega) (by omega)

theorem Streaming.meanwhile {others : List Elsewhere}
    (h : Streaming events result scanId (room + others.length) pages scan service)
    (hspares : ∀ other ∈ others, other.Spares scanId) :
    ∃ scan', Streaming events result scanId room pages scan' (others.foldl Elsewhere.run service) ∧
      remaining scan' ≤ remaining scan ∧
      (Readable scan ∨ .worker scanId ∈ others → Readable scan') := by
  induction others generalizing service scan with
  | nil => exact ⟨scan, h, le_rfl, fun hreadable => hreadable.resolve_right (by simp)⟩
  | cons other rest ih =>
    have hfirst : Streaming events result scanId (room + rest.length + 1) pages scan service := h
    obtain ⟨scan₁, hscan₁, hle₁, hreadable₁⟩ := hfirst.elsewhere (hspares other List.mem_cons_self)
    obtain ⟨scan₂, hscan₂, hle₂, hreadable₂⟩ :=
      ih hscan₁ fun later hmem => hspares later (List.mem_cons_of_mem _ hmem)
    refine ⟨scan₂, hscan₂, hle₂.trans hle₁, fun hreadable => hreadable₂ ?_⟩
    rcases hreadable with hreadable | hworker
    · exact Or.inl (hreadable₁ (Or.inl hreadable))
    · rcases List.mem_cons.mp hworker with hsame | hlater
      · exact Or.inl (hreadable₁ (Or.inr hsame.symm))
      · exact Or.inr hlater

/-- A page the client gets: more events of the scan, or its checkpoint once every
event has been given out. -/
theorem Streaming.page {sending : Sending} {provider provider' : BrokerFilesystemProvider}
    {after : BrokerService} {page : ScanPage}
    (h : Streaming events result scanId (room + sending.meanwhile.length) pages scan service)
    (hspares : ∀ other ∈ sending.meanwhile, other.Spares scanId)
    (hrun : readPagedScan service provider sending scanId maxBrokerPageEvents =
      (after, provider', .ok page)) :
    (∃ given scan', page = .more given ∧
      Streaming events result scanId room (pages ++ [given]) scan' after ∧
      (.worker scanId ∈ sending.meanwhile → remaining scan' < remaining scan)) ∨
    (∃ summary, page = ⟨[], some summary.checkpoint, true, false⟩ ∧ result = .ok summary ∧
      pages.flatten = events ∧ after.scans.get scanId = none) := by
  obtain ⟨scan₁, hscan₁, hle₁, hreadable₁⟩ := h.meanwhile hspares
  unfold readPagedScan at hrun
  rw [if_neg (by decide : ¬min maxBrokerPageEvents maxBrokerPageEvents = 0)] at hrun
  rcases hinvoke : invokeOver service provider sending
    (.readScanPage scanId (min maxBrokerPageEvents maxBrokerPageEvents)) with ⟨served, next, answer⟩
  rw [hinvoke] at hrun
  simp only [Prod.mk.injEq] at hrun
  obtain ⟨rfl, -, hpage⟩ := hrun
  cases answer with
  | error error => cases hpage
  | ok payload =>
    obtain ⟨around, window, -, hcarried⟩ := invokeOver_ok hinvoke
    have hentry := dispatchOperation_ok hcarried
    simp only [dispatchOperation, hentry] at hcarried
    have hopen : Open events result { sending.meanwhile.foldl Elsewhere.run service with
        replay := window } scanId pages scan₁ { sending.meanwhile.foldl Elsewhere.run service with
        replay := window } := ⟨hscan₁.opened.active, rfl, hscan₁.opened.state⟩
    have hscans := readScanPage_scans { sending.meanwhile.foldl Elsewhere.run service with
        replay := window } around.turns scanId (min maxBrokerPageEvents maxBrokerPageEvents)
    rw [hcarried] at hscans
    rcases hopen.read hcarried with ⟨given, scan₂, hmore, hopen₂, hle₂, hlt₂⟩ |
      ⟨hterminal, hall, hclosed⟩
    · obtain rfl := Except.ok.inj hmore
      refine Or.inl ⟨given, scan₂, (Except.ok.inj hpage).symm, ⟨⟨hopen₂.active, rfl, hopen₂.state⟩,
        ?_, ?_⟩, ?_⟩
      · rw [hscans.next]
        exact hscan₁.handle
      · rw [hscans.next]
        exact hscan₁.room
      · intro hworker
        have := hlt₂ (by decide) (hreadable₁ (Or.inr hworker))
        omega
    · cases result with
      | error error => cases hterminal
      | ok summary =>
        obtain rfl := Except.ok.inj hterminal
        exact Or.inr ⟨summary, (Except.ok.inj hpage).symm, rfl, hall, hclosed.get⟩

end Scan

section Loop

variable {σ : Type} {sink : FilesystemEventSink σ} {events : List FilesystemEvent}
  {result : PlatformResult ScanSummary} {scanId room : Nat} {state : σ}
  {session session' : ScanSession σ}

/-- The sink has the pages that were read, and the scan goes on behind them. -/
structure Carried (sink : FilesystemEventSink σ) (events : List FilesystemEvent)
    (result : PlatformResult ScanSummary) (scanId room : Nat) (state : σ)
    (pages : List (List FilesystemEvent)) (scan : ScanState) (session : ScanSession σ) : Prop where
  streaming : Streaming events result scanId room pages scan session.service
  given : sink.emitAll pages.flatten state = (session.sink, .ok ())
  counted : session.emittedEvents = pages.flatten.length

/-- How the scan may have ended: the sink was offered the beginning of the events, and
all of them where the scan ended well. -/
structure Ended (sink : FilesystemEventSink σ) (events : List FilesystemEvent)
    (result : PlatformResult ScanSummary) (scanId : Nat) (state : σ) (session : ScanSession σ)
    (outcome : PlatformResult ScanSummary) : Prop where
  offered : ∃ offered, offered <+: events ∧ session.sink = (sink.emitAll offered state).1
  whole : ∀ summary, outcome = .ok summary → ∃ provided, result = .ok provided ∧
    summary = ⟨provided.checkpoint, events.length⟩ ∧
    sink.emitAll events state = (session.sink, .ok ()) ∧ session.service.scans.get scanId = none

/-- An error ends the scan with the sink as far as it was. -/
theorem ended_error {outcome : PlatformResult ScanSummary} {error : PlatformError}
    {offered : List FilesystemEvent} (houtcome : outcome = .error error)
    (hoffered : offered <+: events) (hsink : session.sink = (sink.emitAll offered state).1) :
    Ended sink events result scanId state session outcome := by
  refine ⟨⟨offered, hoffered, hsink⟩, fun summary hok => ?_⟩
  rw [houtcome] at hok
  cases hok

/-- One turn goes on with a page more, or ends the scan. -/
theorem scanTurn_carried {pages : List (List FilesystemEvent)} {scan : ScanState} {turn : ScanTurn}
    {outcome : Option (PlatformResult ScanSummary)}
    (h : Carried sink events result scanId (room + turn.page.meanwhile.length) state pages scan session)
    (hspares : ∀ other ∈ turn.page.meanwhile, other.Spares scanId)
    (hrun : scanTurn sink scanId session turn = (session', outcome)) :
    (∃ pages' scan', outcome = none ∧
      Carried sink events result scanId room state pages' scan' session' ∧
      (.worker scanId ∈ turn.page.meanwhile → remaining scan' < remaining scan)) ∨
    ∃ ended, outcome = some ended ∧ Ended sink events result scanId state session' ended := by
  have hgiven : session.sink = (sink.emitAll pages.flatten state).1 := by rw [h.given]
  have hwithin := h.streaming.opened.delivered_within
  unfold scanTurn at hrun
  split at hrun
  · obtain ⟨rfl, rfl⟩ := Prod.mk.inj hrun
    exact Or.inr ⟨_, rfl, ended_error rfl hwithin hgiven⟩
  · rcases hread : readPagedScan session.service session.provider turn.page scanId
      maxBrokerPageEvents with ⟨service, provider, answer⟩
    rw [hread] at hrun
    dsimp only at hrun
    cases answer with
    | error error =>
      obtain ⟨rfl, rfl⟩ := Prod.mk.inj hrun
      exact Or.inr ⟨_, rfl, ended_error rfl hwithin hgiven⟩
    | ok page =>
      dsimp only at hrun
      split at hrun
      · obtain ⟨rfl, rfl⟩ := Prod.mk.inj hrun
        exact Or.inr ⟨_, rfl, ended_error rfl hwithin hgiven⟩
      · rcases h.streaming.page hspares hread with ⟨given, scan', rfl, hscan', hless⟩ |
          ⟨summary, rfl, hsummary, hall, hclosed⟩
        · have hflat : (pages ++ [given]).flatten = pages.flatten ++ given := by simp
          have hmore : sink.emitAll (pages ++ [given]).flatten state =
              sink.emitAll given session.sink := by
            rw [hflat]
            exact emitAll_append sink h.given given
          split at hrun
          · next next error hemit =>
            obtain ⟨rfl, rfl⟩ := Prod.mk.inj hrun
            refine Or.inr ⟨_, rfl, ended_error rfl hscan'.opened.delivered_within ?_⟩
            show next = _
            rw [hmore, show sink.emitAll given session.sink = (next, .error error) from hemit]
          · next next hemit =>
            obtain ⟨rfl, rfl⟩ := Prod.mk.inj hrun
            refine Or.inl ⟨pages ++ [given], scan', rfl, ⟨hscan', hmore.trans hemit, ?_⟩, hless⟩
            show session.emittedEvents + given.length = _
            rw [hflat, List.length_append, h.counted]
        · -- every event is out, and the page has the checkpoint alone
          obtain ⟨rfl, rfl⟩ := Prod.mk.inj hrun
          refine Or.inr ⟨_, rfl, ⟨⟨events, List.prefix_rfl, by rw [← hall]; exact hgiven⟩, ?_⟩⟩
          intro outcome hok
          obtain rfl := Except.ok.inj hok
          refine ⟨summary, hsummary, ?_, by rw [← hall]; exact h.given, hclosed⟩
          show (⟨summary.checkpoint, session.emittedEvents + 0⟩ : ScanSummary) = _
          rw [h.counted, hall, Nat.add_zero]

/-- What the broker does beside the page requests. -/
def elsewhere (turns : List ScanTurn) : List Elsewhere := turns.flatMap fun turn => turn.page.meanwhile

theorem scanLoop_carried {turns : List ScanTurn} {pages : List (List FilesystemEvent)}
    {scan : ScanState} {outcome : Option (PlatformResult ScanSummary)}
    (h : Carried sink events result scanId (elsewhere turns).length state pages scan session)
    (hspares : ∀ other ∈ elsewhere turns, other.Spares scanId)
    (hrun : scanLoop sink scanId turns session = (session', outcome)) :
    (∃ offered, offered <+: events ∧ session'.sink = (sink.emitAll offered state).1) ∧
    (∀ ended, outcome = some ended → Ended sink events result scanId state session' ended) ∧
    ((∀ turn ∈ turns, .worker scanId ∈ turn.page.meanwhile) → remaining scan ≤ turns.length →
      outcome.isSome) := by
  induction turns generalizing session pages scan with
  | nil =>
    obtain ⟨rfl, rfl⟩ := Prod.mk.inj hrun
    refine ⟨⟨pages.flatten, h.streaming.opened.delivered_within, by rw [h.given]⟩,
      fun ended hended => (by cases hended), fun _ hleft => ?_⟩
    have := h.streaming.opened.remaining_pos
    rw [List.length_nil] at hleft
    omega
  | cons turn rest ih =>
    have hroom : (elsewhere (turn :: rest)).length =
        (elsewhere rest).length + turn.page.meanwhile.length := by
      rw [elsewhere, List.flatMap_cons, List.length_append, Nat.add_comm]
      rfl
    have hlater : ∀ other ∈ elsewhere rest, other.Spares scanId := by
      intro other hmem
      exact hspares other (by rw [elsewhere, List.flatMap_cons]; exact List.mem_append_right _ hmem)
    have hnow : ∀ other ∈ turn.page.meanwhile, other.Spares scanId := by
      intro other hmem
      exact hspares other (by rw [elsewhere, List.flatMap_cons]; exact List.mem_append_left _ hmem)
    rw [hroom] at h
    rcases hturn : scanTurn sink scanId session turn with ⟨session₁, ended⟩
    rw [scanLoop, hturn] at hrun
    rcases scanTurn_carried h hnow hturn with ⟨pages₁, scan₁, rfl, hcarried, hless⟩ |
      ⟨ended, rfl, hended⟩
    · obtain ⟨hoffered, hends, htotal⟩ := ih hcarried hlater hrun
      refine ⟨hoffered, hends, fun hworkers hleft => htotal ?_ ?_⟩
      · intro later hmem
        exact hworkers later (List.mem_cons_of_mem _ hmem)
      · have := hless (hworkers turn List.mem_cons_self)
        rw [List.length_cons] at hleft
        omega
    · obtain ⟨rfl, rfl⟩ := Prod.mk.inj hrun
      refine ⟨hended.offered, fun other hother => ?_, fun _ _ => rfl⟩
      rw [← Option.some.inj hother]
      exact hended

end Loop

/-- The handle the next scan gets. -/
def nextHandle (service : BrokerService) (start : Sending) : Nat :=
  (start.meanwhile.foldl Elsewhere.run service).nextScanId

theorem startPagedScan_ok {service after : BrokerService}
    {provider provider' : BrokerFilesystemProvider} {start : Sending} {volumeId : VolumeId}
    {mode : ScanMode} {scanId : Nat}
    (h : startPagedScan service provider start volumeId mode = (after, provider', .ok scanId)) :
    ∃ around, start.travel = .answered around ∧ scanId = nextHandle service start ∧
      after.nextScanId = (nextHandle service start + 1) % 2 ^ 64 ∧
      Open around.scan.1 around.scan.2 after scanId [] (.started around.scan.1 around.scan.2)
        after := by
  unfold startPagedScan at h
  rcases hinvoke : invokeOver service provider start (.startScan volumeId mode) with
    ⟨served, next, answer⟩
  rw [hinvoke] at h
  simp only [Prod.mk.injEq] at h
  obtain ⟨rfl, -, hstarted⟩ := h
  split at hstarted
  · cases hstarted
  · next started =>
    obtain rfl := Except.ok.inj hstarted
    obtain ⟨around, window, htravel, hcarried⟩ := invokeOver_ok hinvoke
    have hscans := dispatchOperation_scans { start.meanwhile.foldl Elsewhere.run service with
      replay := window } around (.startScan volumeId mode)
    rw [hcarried] at hscans
    have hentry := dispatchOperation_ok hcarried
    simp only [dispatchOperation, hentry] at hcarried
    have hopen := open_started hcarried
    rcases hscans with hstarts | hkeeps
    · exact ⟨around, htravel, Option.some.inj hstarts.handle, hstarts.next,
        ⟨hopen.active, rfl, hopen.state⟩⟩
    · cases hkeeps.handle
  · cases hstarted

/-- Whatever is lost on the way and whoever else is served: the sink is offered the
beginning of what the provider emits, in order; a scan that ends well has given every
event, reports the provider's checkpoint and their number, and is gone from the service.
It ends after as many pages as the worker keeps a turn ahead of. -/
theorem remote_scan_exact {σ : Type} {sink : FilesystemEventSink σ} {volumeId : VolumeId}
    {mode : ScanMode} {start : Sending} {turns : List ScanTurn} {service : BrokerService}
    {provider : BrokerFilesystemProvider} {state : σ} {session : ScanSession σ}
    {outcome : Option (PlatformResult ScanSummary)}
    (hspares : ∀ other ∈ elsewhere turns, other.Spares (nextHandle service start))
    (hroom : nextHandle service start + (elsewhere turns).length + 1 < 2 ^ 64)
    (hrun : scan sink volumeId mode start turns service provider state = (session, outcome)) :
    (∃ error, outcome = some (.error error) ∧ session.sink = state) ∨
    ∃ around, start.travel = .answered around ∧
      (∃ offered, offered <+: around.scan.1 ∧ session.sink = (sink.emitAll offered state).1) ∧
      (∀ summary, outcome = some (.ok summary) → ∃ provided, around.scan.2 = .ok provided ∧
        summary = ⟨provided.checkpoint, around.scan.1.length⟩ ∧
        sink.emitAll around.scan.1 state = (session.sink, .ok ()) ∧
        session.service.scans.get (nextHandle service start) = none) ∧
      ((∀ turn ∈ turns, .worker (nextHandle service start) ∈ turn.page.meanwhile) →
        2 * around.scan.1.length + 2 ≤ turns.length → outcome.isSome) := by
  unfold scan at hrun
  rcases hstart : startPagedScan service provider start volumeId mode with ⟨after, next, started⟩
  rw [hstart] at hrun
  cases started with
  | error error =>
    obtain ⟨rfl, rfl⟩ := Prod.mk.inj hrun
    exact Or.inl ⟨error, rfl, rfl⟩
  | ok scanId =>
    obtain ⟨around, htravel, rfl, hnext, hopen⟩ := startPagedScan_ok hstart
    have hbelow : after.nextScanId = nextHandle service start + 1 := by
      rw [hnext]
      exact Nat.mod_eq_of_lt (by omega)
    have hcarried : Carried sink around.scan.1 around.scan.2 (nextHandle service start)
        (elsewhere turns).length state [] (.started around.scan.1 around.scan.2)
        ⟨after, next, state, 0⟩ :=
      ⟨⟨hopen, by show _ < after.nextScanId; omega, by show after.nextScanId + _ < _; omega⟩, rfl, rfl⟩
    obtain ⟨hoffered, hends, htotal⟩ := scanLoop_carried hcarried hspares hrun
    refine Or.inr ⟨around, htravel, hoffered, fun summary hok => (hends _ hok).whole summary rfl,
      fun hworkers hturns => htotal hworkers ?_⟩
    simp only [remaining, ScanState.started, List.length_append, List.length_map, List.length_cons,
      List.length_nil, Option.isSome_none, Bool.false_eq_true, if_false]
    omega

/-- A sink that keeps what it is given. -/
def recorder : FilesystemEventSink (List FilesystemEvent) := ⟨fun event state => (state ++ [event], .ok ())⟩

theorem recorder_emitAll (events state : List FilesystemEvent) :
    recorder.emitAll events state = (state ++ events, .ok ()) := by
  induction events generalizing state with
  | nil => rw [List.append_nil]; rfl
  | cons event rest ih =>
    show recorder.emitAll rest (state ++ [event]) = _
    rw [ih, List.append_assoc]
    rfl

/-- One turn of the worker before the page, and a scan that another client starts. -/
def sharedTurn (travel : Travel) : ScanTurn where
  expired := false
  page := ⟨[.worker 1, .request twoEventScan (clientRequest 7 (.startScan scannedVolume .initial))], travel⟩
  cancel := ⟨[], .answered twoEventScan⟩

def sharedTurns : List ScanTurn := List.replicate 6 (sharedTurn (.answered twoEventScan))

/-- The answer to the second page is lost. -/
def lossyTurns : List ScanTurn :=
  [sharedTurn (.answered twoEventScan), sharedTurn (.unanswered twoEventScan .deadlineExceeded)]

theorem sharedTurn_spares {travel : Travel} {other : Elsewhere}
    (h : other ∈ (sharedTurn travel).page.meanwhile) : other.Spares 1 := by
  simp only [sharedTurn, List.mem_cons, List.not_mem_nil, or_false] at h
  rcases h with rfl | rfl
  · trivial
  · exact ⟨fun _ => by simp [clientRequest], by simp [clientRequest]⟩

theorem remote_scan_exact_recorder :
    (∃ session outcome, scan recorder scannedVolume .initial ⟨[], .answered twoEventScan⟩ sharedTurns
        .new ⟨unavailableCapabilities, 1⟩ [] = (session, outcome) ∧
      outcome = some (.ok ⟨scanCheckpoint, 2⟩) ∧ outcome.isSome ∧
      ∀ summary, outcome = some (.ok summary) → session.sink = twoEventScan.scan.1) ∧
    ∃ session error, scan recorder scannedVolume .initial ⟨[], .answered twoEventScan⟩ lossyTurns .new
        ⟨unavailableCapabilities, 1⟩ [] = (session, some (.error error)) ∧
      session.sink.length = 1 ∧ session.sink <+: twoEventScan.scan.1 := by
  have hhandle : nextHandle .new ⟨[], .answered twoEventScan⟩ = 1 := rfl
  constructor
  · refine ⟨_, _, rfl, rfl, ?_⟩
    have hspares : ∀ other ∈ elsewhere sharedTurns,
        other.Spares (nextHandle .new ⟨[], .answered twoEventScan⟩) := by
      intro other hmem
      obtain ⟨turn, hturn, hother⟩ := List.mem_flatMap.mp hmem
      obtain rfl := List.eq_of_mem_replicate hturn
      exact sharedTurn_spares hother
    rcases @remote_scan_exact _ recorder scannedVolume .initial ⟨[], .answered twoEventScan⟩ sharedTurns
      .new ⟨unavailableCapabilities, 1⟩ [] _ _ hspares (by decide) rfl with
      ⟨error, hfailed, -⟩ | ⟨around, hanswered, -, hwhole, htotal⟩
    · rw [hfailed]
      exact ⟨rfl, fun summary hok => by cases hok⟩
    · obtain rfl := Travel.answered.inj hanswered
      refine ⟨htotal (fun turn hmem => ?_) (by decide), fun summary hok => ?_⟩
      · rw [List.eq_of_mem_replicate hmem]
        exact List.mem_cons_self
      · obtain ⟨-, -, -, hall, -⟩ := hwhole summary hok
        rw [recorder_emitAll] at hall
        exact (Prod.mk.inj hall).1.symm
  · refine ⟨_, _, rfl, by decide, ?_⟩
    have hspares : ∀ other ∈ elsewhere lossyTurns,
        other.Spares (nextHandle .new ⟨[], .answered twoEventScan⟩) := by
      intro other hmem
      obtain ⟨turn, hturn, hother⟩ := List.mem_flatMap.mp hmem
      simp only [lossyTurns, List.mem_cons, List.not_mem_nil, or_false] at hturn
      rcases hturn with rfl | rfl <;> exact sharedTurn_spares hother
    rcases @remote_scan_exact _ recorder scannedVolume .initial ⟨[], .answered twoEventScan⟩ lossyTurns
      .new ⟨unavailableCapabilities, 1⟩ [] _ _ hspares (by decide) rfl with
      ⟨error, -, hsink⟩ | ⟨around, hanswered, ⟨offered, hoffered, hsink⟩, -, -⟩
    · rw [hsink]
      exact List.nil_prefix
    · obtain rfl := Travel.answered.inj hanswered
      rw [hsink, recorder_emitAll]
      exact hoffered

end LocalSearch.Broker
