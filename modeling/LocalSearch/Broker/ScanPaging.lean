import LocalSearch.Broker.Service

/-!
# Paging through a scan

Whatever the worker has not handed over yet is either in the queue or still to
be sent, in order, with its result at the end. A page takes a prefix of that,
and the result is given out alone, after the last event, together with the
slot of the scan.
-/
namespace LocalSearch.Broker

set_option autoImplicit false

open Core Lib

/-- A turn of the worker, or one page request; during the request the worker
gets `turns`. -/
inductive ScanAction where
  | produce
  | read (maximumEvents : Nat) (turns : Nat → Nat)

def produceFor (service : BrokerService) (scanId : Nat) : BrokerService :=
  { service with scans := service.scans.modify scanId ScanState.produce }

/-- An interleaving of one worker with the requests for its pages, and the
answers to them. -/
def scanRun (scanId : Nat) : BrokerService → List ScanAction →
    BrokerService × List (Except ServiceError BrokerPayload)
  | service, [] => (service, [])
  | service, .produce :: rest => scanRun scanId (produceFor service scanId) rest
  | service, .read maximumEvents turns :: rest =>
      let (service, answer) := readScanPage service turns scanId maximumEvents
      let (service, answers) := scanRun scanId service rest
      (service, answer :: answers)

def ScanAction.PageSized : ScanAction → Prop
  | .produce => True
  | .read maximumEvents _ => 1 ≤ maximumEvents ∧ maximumEvents ≤ maxBrokerPageEvents

/-- Worker and reader get `k` turns each, one after the other, among any
others. -/
def Rounds : Nat → List ScanAction → Prop
  | 0, _ => True
  | k + 1, actions => ∃ before between maximumEvents turns after,
      actions = before ++ .produce :: between ++ .read maximumEvents turns :: after ∧ Rounds k after

/-- The answers that leave the scan open, by their events. -/
def openAnswers (pages : List (List FilesystemEvent)) : List (Except ServiceError BrokerPayload) :=
  pages.map fun events => .ok (.scanPage (.more events))

/-- The last answer: the provider's checkpoint or its error. -/
def terminalAnswer : PlatformResult ScanSummary → Except ServiceError BrokerPayload
  | .ok summary => .ok (.scanPage ⟨[], some summary.checkpoint, true, false⟩)
  | .error error => .error (platformError error)

def scanNotActive : Except ServiceError BrokerPayload := .error ⟨.notFound, "scan is not active"⟩

section Scan

variable {events delivered : List FilesystemEvent} {result : PlatformResult ScanSummary}
  {scan : ScanState}

/-- The messages of a scan. -/
def messages (events : List FilesystemEvent) (result : PlatformResult ScanSummary) :
    List ScanMessage :=
  events.map .event ++ [.terminal result]

/-- Delivered events, queue and worker make up the messages of the scan. -/
structure InFlight (events : List FilesystemEvent) (result : PlatformResult ScanSummary)
    (delivered : List FilesystemEvent) (scan : ScanState) : Prop where
  stream : delivered.map .event ++ (scan.queue ++ scan.unsent) = messages events result
  ended : scan.running = false → scan.unsent = []
  pending : scan.pendingTerminal = none

/-- Every event is delivered and the result waits for the next request. -/
structure Parked (events : List FilesystemEvent) (result : PlatformResult ScanSummary)
    (delivered : List FilesystemEvent) (scan : ScanState) : Prop where
  delivered : delivered = events
  pending : scan.pendingTerminal = some result
  queue : scan.queue = []
  unsent : scan.unsent = []

/-- What is left to do for the worker and the reader. -/
def remaining (scan : ScanState) : Nat :=
  2 * scan.unsent.length + scan.queue.length + if scan.pendingTerminal.isSome then 1 else 0

theorem inFlight_started : InFlight events result [] (.started events result) :=
  ⟨rfl, fun h => (nomatch h), rfl⟩

/-- The worker ends, sends its next message, or finds the queue full. -/
theorem produce_cases (scan : ScanState) :
    (scan.unsent = [] ∧ scan.produce = { scan with running := false }) ∨
    ∃ message rest, scan.unsent = message :: rest ∧
      ((scan.produce = { scan with queue := scan.queue ++ [message], unsent := rest }) ∨
        (scanQueueEvents ≤ scan.queue.length ∧ scan.produce = scan)) := by
  cases hunsent : scan.unsent with
  | nil => exact Or.inl ⟨rfl, by simp [ScanState.produce, hunsent]⟩
  | cons message rest =>
    refine Or.inr ⟨message, rest, rfl, ?_⟩
    by_cases hroom : scan.queue.length < scanQueueEvents
    · exact Or.inl (by simp [ScanState.produce, hunsent, hroom])
    · exact Or.inr ⟨not_lt.mp hroom, by simp [ScanState.produce, hunsent, hroom]⟩

theorem InFlight.produce (h : InFlight events result delivered scan) :
    InFlight events result delivered scan.produce := by
  rcases produce_cases scan with ⟨hunsent, he⟩ | ⟨message, rest, hunsent, he | ⟨-, he⟩⟩ <;> rw [he]
  · exact ⟨h.stream, fun _ => hunsent, h.pending⟩
  · refine ⟨?_, fun hended => ?_, h.pending⟩
    · rw [← h.stream, hunsent]
      simp
    · rw [h.ended hended] at hunsent
      cases hunsent
  · exact h

theorem InFlight.produceMany (h : InFlight events result delivered scan) (n : Nat) :
    InFlight events result delivered (ScanState.produce^[n] scan) := by
  induction n generalizing scan with
  | zero => exact h
  | succ n ih => exact ih h.produce

theorem remaining_produce (scan : ScanState) : remaining scan.produce ≤ remaining scan := by
  rcases produce_cases scan with ⟨hunsent, he⟩ | ⟨message, rest, hunsent, he | ⟨-, he⟩⟩ <;> rw [he]
  · exact le_rfl
  · simp only [remaining, hunsent, List.length_append, List.length_cons, List.length_nil]
    omega

theorem remaining_produceMany (scan : ScanState) (n : Nat) :
    remaining (ScanState.produce^[n] scan) ≤ remaining scan := by
  induction n generalizing scan with
  | zero => exact le_rfl
  | succ n ih => exact (ih scan.produce).trans (remaining_produce scan)

theorem produceMany_pending (scan : ScanState) (n : Nat) :
    (ScanState.produce^[n] scan).pendingTerminal = scan.pendingTerminal := by
  induction n generalizing scan with
  | zero => rfl
  | succ n ih =>
    rw [Function.iterate_succ_apply, ih]
    rcases produce_cases scan with ⟨-, he⟩ | ⟨_, _, -, he | ⟨-, he⟩⟩ <;> rw [he]

/-- Something is there to be read. -/
def Readable (scan : ScanState) : Prop := scan.queue ≠ [] ∨ scan.pendingTerminal.isSome

theorem Readable.produce (h : Readable scan) : Readable scan.produce := by
  rcases produce_cases scan with ⟨hunsent, he⟩ | ⟨message, rest, hunsent, he | ⟨-, he⟩⟩ <;> rw [he]
  · exact h
  · exact Or.inl (by simp)
  · exact h

theorem Readable.produceMany (h : Readable scan) (n : Nat) :
    Readable (ScanState.produce^[n] scan) := by
  induction n generalizing scan with
  | zero => exact h
  | succ n ih => exact ih h.produce

/-- The result is still to come. -/
theorem InFlight.left (h : InFlight events result delivered scan) :
    scan.queue ++ scan.unsent ≠ [] := by
  intro hempty
  have hstream := h.stream
  rw [hempty, List.append_nil, messages] at hstream
  have hmem : ScanMessage.terminal result ∈ delivered.map ScanMessage.event := by
    rw [hstream]
    simp
  simp at hmem

/-- After a turn of the worker there is something to read. -/
theorem InFlight.readable (h : InFlight events result delivered scan) : Readable scan.produce := by
  rcases produce_cases scan with ⟨hunsent, he⟩ | ⟨message, rest, hunsent, he | ⟨hfull, he⟩⟩ <;> rw [he]
  · refine Or.inl fun hqueue => h.left ?_
    rw [hunsent, List.append_nil]
    exact hqueue
  · exact Or.inl (by simp)
  · refine Or.inl fun hqueue => ?_
    rw [hqueue] at hfull
    exact absurd hfull (by decide)

/-- The next message is an event exactly when an event is left. -/
theorem InFlight.queue_cases (h : InFlight events result delivered scan) :
    (∃ queue, scan.queue = .terminal result :: queue ∧ queue = [] ∧ scan.unsent = [] ∧
      delivered = events) ∨
    (∃ event queue, scan.queue = .event event :: queue ∧
      InFlight events result (delivered ++ [event]) { scan with queue := queue }) ∨
    (scan.queue = [] ∧ scan.running = true) := by
  have hstream := h.stream
  cases hqueue : scan.queue with
  | nil =>
    refine Or.inr (Or.inr ⟨rfl, ?_⟩)
    cases hrunning : scan.running with
    | true => rfl
    | false =>
      refine absurd ?_ h.left
      rw [hqueue, h.ended hrunning]
      rfl
  | cons message queue =>
    rw [hqueue, List.cons_append] at hstream
    cases message with
    | event event =>
      refine Or.inr (Or.inl ⟨event, queue, rfl, ?_, h.ended, h.pending⟩)
      rw [← hstream]
      simp
    | terminal result' =>
      refine Or.inl ⟨queue, ?_⟩
      -- a result can only be the last message
      have hlast : queue ++ scan.unsent = [] := by
        by_contra hne
        obtain ⟨front, last, hsplit⟩ := List.eq_nil_or_concat'
          (queue ++ scan.unsent) |>.resolve_left hne
        rw [hsplit, messages, ← List.cons_append, ← List.append_assoc] at hstream
        have hfront := (List.append_inj' hstream rfl).1
        have hmem : ScanMessage.terminal result' ∈ events.map ScanMessage.event := by
          rw [← hfront]
          simp
        simp at hmem
      rw [hlast, messages] at hstream
      obtain ⟨hevents, hterminal⟩ := List.append_inj' hstream rfl
      obtain ⟨hempty, hunsent⟩ := List.append_eq_nil_iff.mp hlast
      refine ⟨?_, hempty, hunsent, ?_⟩
      · rw [List.cons.injEq] at hterminal
        rw [hterminal.1]
      · exact List.map_injective_iff.mpr (fun a b hab => ScanMessage.event.inj hab) hevents

/-- What a page takes from a scan in flight. -/
theorem InFlight.receive (h : InFlight events result delivered scan) {turns : Nat → Nat} {n : Nat}
    {page : List FilesystemEvent} {terminal : Option (PlatformResult ScanSummary)}
    {scan' : ScanState} (hrun : scan.receive turns n = (page, terminal, scan')) :
    (terminal = none ∧ InFlight events result (delivered ++ page) scan') ∨
    (terminal = some result ∧ delivered ++ page = events ∧ scan'.queue = [] ∧ scan'.unsent = []) := by
  induction n generalizing scan delivered page with
  | zero =>
    obtain ⟨rfl, hrest⟩ := Prod.mk.inj hrun
    obtain ⟨rfl, rfl⟩ := Prod.mk.inj hrest
    exact Or.inl ⟨rfl, by rwa [List.append_nil]⟩
  | succ n ih =>
    have hmany := h.produceMany (turns n)
    simp only [ScanState.receive] at hrun
    rcases hmany.queue_cases with ⟨queue, hqueue, rfl, hunsent, hall⟩ | ⟨event, queue, hqueue, hnext⟩ |
      ⟨hqueue, hrunning⟩
    · simp only [hqueue] at hrun
      obtain ⟨rfl, hrest⟩ := Prod.mk.inj hrun
      obtain ⟨rfl, rfl⟩ := Prod.mk.inj hrest
      exact Or.inr ⟨rfl, by rwa [List.append_nil], rfl, hunsent⟩
    · simp only [hqueue] at hrun
      rcases htail : ScanState.receive turns n { ScanState.produce^[turns n] scan with queue := queue }
        with ⟨page', terminal', scan''⟩
      rw [htail] at hrun
      obtain ⟨rfl, hrest⟩ := Prod.mk.inj hrun
      obtain ⟨rfl, rfl⟩ := Prod.mk.inj hrest
      have := ih hnext htail
      simpa [List.append_assoc] using this
    · simp only [hqueue, hrunning, if_true] at hrun
      obtain ⟨rfl, hrest⟩ := Prod.mk.inj hrun
      obtain ⟨rfl, rfl⟩ := Prod.mk.inj hrest
      exact Or.inl ⟨rfl, by rwa [List.append_nil]⟩

theorem remaining_take {message : ScanMessage} {queue : List ScanMessage}
    (h : scan.queue = message :: queue) :
    remaining { scan with queue := queue } + 1 = remaining scan := by
  simp only [remaining, h, List.length_cons]
  omega

/-- Every delivered event is one thing less to do. -/
theorem remaining_receive {turns : Nat → Nat} {n : Nat} {page : List FilesystemEvent}
    {terminal : Option (PlatformResult ScanSummary)} {scan' : ScanState}
    (hrun : scan.receive turns n = (page, terminal, scan')) :
    remaining scan' + page.length ≤ remaining scan := by
  induction n generalizing scan page with
  | zero =>
    obtain ⟨rfl, hrest⟩ := Prod.mk.inj hrun
    obtain ⟨rfl, rfl⟩ := Prod.mk.inj hrest
    exact le_rfl
  | succ n ih =>
    have hmany := remaining_produceMany scan (turns n)
    simp only [ScanState.receive] at hrun
    generalize ScanState.produce^[turns n] scan = scan₁ at hrun hmany
    cases hqueue : scan₁.queue with
    | nil =>
      simp only [hqueue] at hrun
      obtain ⟨rfl, hrest⟩ := Prod.mk.inj hrun
      obtain ⟨-, rfl⟩ := Prod.mk.inj hrest
      exact hmany
    | cons message queue =>
      have htaken := remaining_take hqueue
      cases message with
      | terminal result =>
        simp only [hqueue] at hrun
        obtain ⟨rfl, hrest⟩ := Prod.mk.inj hrun
        obtain ⟨-, rfl⟩ := Prod.mk.inj hrest
        rw [List.length_nil]
        omega
      | event event =>
        simp only [hqueue] at hrun
        rcases htail : ScanState.receive turns n { scan₁ with queue := queue }
          with ⟨page', terminal', scan''⟩
        rw [htail] at hrun
        obtain ⟨rfl, hrest⟩ := Prod.mk.inj hrun
        obtain ⟨rfl, rfl⟩ := Prod.mk.inj hrest
        have hrest : remaining scan'' + page'.length ≤ remaining { scan₁ with queue := queue } :=
          ih htail
        show remaining scan'' + (page'.length + 1) ≤ remaining scan
        omega

/-- A page with room takes something when there is something to take. -/
theorem Readable.receive (h : Readable scan) (hpending : scan.pendingTerminal = none)
    {turns : Nat → Nat} {n : Nat} {page : List FilesystemEvent}
    {terminal : Option (PlatformResult ScanSummary)} {scan' : ScanState}
    (hrun : scan.receive turns (n + 1) = (page, terminal, scan')) : page ≠ [] ∨ terminal.isSome := by
  have hqueue : (ScanState.produce^[turns n] scan).queue ≠ [] := by
    rcases h.produceMany (turns n) with hqueue | hsome
    · exact hqueue
    · rw [produceMany_pending, hpending] at hsome
      cases hsome
  simp only [ScanState.receive] at hrun
  generalize ScanState.produce^[turns n] scan = scan₁ at hrun hqueue
  obtain ⟨message, queue, hcons⟩ := List.exists_cons_of_ne_nil hqueue
  cases message with
  | terminal result =>
    simp only [hcons] at hrun
    obtain ⟨-, hrest⟩ := Prod.mk.inj hrun
    obtain ⟨rfl, -⟩ := Prod.mk.inj hrest
    exact Or.inr rfl
  | event event =>
    simp only [hcons] at hrun
    obtain ⟨rfl, -⟩ := Prod.mk.inj hrun
    exact Or.inl (List.cons_ne_nil _ _)

/-- The whole stream is left to do, each message at least once. -/
theorem InFlight.remaining_ge (h : InFlight events result delivered scan) :
    events.length + 1 ≤ remaining scan + delivered.length := by
  have hlen := congrArg List.length h.stream
  simp only [messages, List.length_append, List.length_map, List.length_cons, List.length_nil] at hlen
  rw [remaining]
  omega

end Scan

section Run

variable {events : List FilesystemEvent} {result : PlatformResult ScanSummary}
  {before service service' : BrokerService} {scanId : Nat}

/-- The scan is open, `pages` have been given out, and nothing else has changed
since `before`. -/
structure Open (events : List FilesystemEvent) (result : PlatformResult ScanSummary)
    (before : BrokerService) (scanId : Nat) (pages : List (List FilesystemEvent)) (scan : ScanState)
    (service : BrokerService) : Prop where
  active : service.scans.get scanId = some scan
  others : service.scans.erase scanId = before.scans.erase scanId
  state : InFlight events result pages.flatten scan ∨ Parked events result pages.flatten scan

/-- The result is out and the scan is forgotten. -/
structure Closed (before : BrokerService) (scanId : Nat) (service : BrokerService) : Prop where
  forgotten : service.scans = before.scans.erase scanId

theorem Closed.get (h : Closed before scanId service) : service.scans.get scanId = none := by
  rw [h.forgotten, Table.get_erase, if_pos rfl]

theorem Open.delivered_within {pages : List (List FilesystemEvent)} {scan : ScanState}
    (h : Open events result before scanId pages scan service) : pages.flatten <+: events := by
  rcases h.state with hflight | hparked
  · have hmap : (pages.flatten.map ScanMessage.event) <+: events.map ScanMessage.event := by
      have hwhole : pages.flatten.map ScanMessage.event <+: messages events result :=
        ⟨_, hflight.stream⟩
      rcases List.prefix_concat_iff.mp hwhole with heq | hshort
      · have hmem : ScanMessage.terminal result ∈ pages.flatten.map ScanMessage.event := by
          rw [heq]
          simp
        simp at hmem
      · exact hshort
    have htake := List.prefix_iff_eq_take.mp hmap
    rw [List.length_map, ← List.map_take] at htake
    have hinj : Function.Injective ScanMessage.event := fun a b => ScanMessage.event.inj
    rw [List.map_injective_iff.mpr hinj htake]
    exact List.take_prefix _ _
  · rw [hparked.delivered]

theorem erase_insert (t : Table Nat ScanState) (k : Nat) (s : ScanState) :
    (t.insert k s).erase k = t.erase k := by
  refine Table.ext_get fun j => ?_
  by_cases h : j = k <;> simp [h]

/-- A turn of the worker leaves the scan open and no farther from its end; it
makes the scan readable. -/
theorem Open.produceFor {pages : List (List FilesystemEvent)} {scan : ScanState}
    (h : Open events result before scanId pages scan service) :
    Open events result before scanId pages scan.produce (produceFor service scanId) ∧
      Readable scan.produce := by
  have hmodify : (Broker.produceFor service scanId).scans = service.scans.insert scanId scan.produce :=
    Table.modify_eq_insert h.active _
  refine ⟨⟨?_, ?_, ?_⟩, ?_⟩
  · rw [hmodify, Table.get_insert_self]
  · rw [hmodify, erase_insert, h.others]
  · rcases h.state with hflight | hparked
    · exact Or.inl hflight.produce
    · refine Or.inr ⟨hparked.delivered, ?_, ?_, ?_⟩ <;>
        simp [ScanState.produce, hparked.unsent, hparked.pending, hparked.queue]
  · rcases h.state with hflight | hparked
    · exact hflight.readable
    · exact Or.inr (by simp [ScanState.produce, hparked.unsent, hparked.pending])

/-- One page of an open scan: more events, or the result alone once every event
is out. -/
theorem Open.read {pages : List (List FilesystemEvent)} {scan : ScanState}
    (h : Open events result before scanId pages scan service) {turns : Nat → Nat} {n : Nat}
    {answer : Except ServiceError BrokerPayload}
    (hrun : readScanPage service turns scanId n = (service', answer)) :
    (∃ page scan', answer = .ok (.scanPage (.more page)) ∧
      Open events result before scanId (pages ++ [page]) scan' service' ∧
      remaining scan' ≤ remaining scan ∧ (0 < n → Readable scan → remaining scan' < remaining scan)) ∨
    (answer = terminalAnswer result ∧ pages.flatten = events ∧ Closed before scanId service') := by
  simp only [readScanPage, h.active] at hrun
  rcases h.state with hflight | hparked
  · simp only [hflight.pending] at hrun
    rcases hreceive : scan.receive turns n with ⟨page, terminal, scan'⟩
    rw [hreceive] at hrun
    have hsize := remaining_receive hreceive
    have hflat : (pages ++ [page]).flatten = pages.flatten ++ page := by simp
    rcases hflight.receive hreceive with ⟨rfl, hnext⟩ | ⟨rfl, hall, hqueue, hunsent⟩
    · obtain ⟨rfl, rfl⟩ := Prod.mk.inj hrun
      refine Or.inl ⟨page, scan', rfl, ⟨Table.get_insert_self _ _ _, ?_, ?_⟩, by omega,
        fun hn hreadable => ?_⟩
      · exact (erase_insert _ _ _).trans h.others
      · rw [hflat]
        exact Or.inl hnext
      · obtain ⟨m, rfl⟩ := Nat.exists_eq_succ_of_ne_zero hn.ne'
        have hpage := (hreadable.receive hflight.pending hreceive).resolve_right (by simp)
        have := List.length_pos_iff.mpr hpage
        omega
    · by_cases hpage : page = []
      · subst hpage
        simp only [ne_eq, not_true_eq_false, if_false] at hrun
        obtain ⟨rfl, rfl⟩ := Prod.mk.inj hrun
        refine Or.inr ⟨?_, by rwa [List.append_nil] at hall, ⟨h.others⟩⟩
        cases result <;> rfl
      · simp only [ne_eq, hpage, not_false_eq_true, if_true] at hrun
        obtain ⟨rfl, rfl⟩ := Prod.mk.inj hrun
        have hlen := hflight.remaining_ge
        rw [← hall, List.length_append] at hlen
        have := List.length_pos_iff.mpr hpage
        have hone : remaining { scan' with pendingTerminal := some result } = 1 := by
          simp [remaining, hqueue, hunsent]
        refine Or.inl ⟨page, _, rfl, ⟨Table.get_insert_self _ _ _, ?_, ?_⟩, by omega,
          fun _ _ => by omega⟩
        · exact (erase_insert _ _ _).trans h.others
        · rw [hflat]
          exact Or.inr ⟨hall, rfl, hqueue, hunsent⟩
  · simp only [hparked.pending, ne_eq, not_true_eq_false, if_false] at hrun
    obtain ⟨rfl, rfl⟩ := Prod.mk.inj hrun
    refine Or.inr ⟨?_, hparked.delivered, ⟨h.others⟩⟩
    cases result <;> rfl

theorem Closed.produceFor (h : Closed before scanId service) :
    Closed before scanId (produceFor service scanId) := by
  have hsame : (Broker.produceFor service scanId).scans = service.scans := by
    refine Table.ext_get fun j => ?_
    rw [Broker.produceFor, Table.get_modify]
    split_ifs with hj
    · rw [hj, h.get]
      rfl
    · rfl
  exact ⟨hsame.trans h.forgotten⟩

theorem Closed.read (h : Closed before scanId service) (turns : Nat → Nat) (n : Nat) :
    readScanPage service turns scanId n = (service, scanNotActive) := by
  rw [readScanPage, h.get]
  rfl

theorem Closed.run (h : Closed before scanId service) (actions : List ScanAction) :
    Closed before scanId (scanRun scanId service actions).1 ∧
      ∃ k, (scanRun scanId service actions).2 = List.replicate k scanNotActive := by
  induction actions generalizing service with
  | nil => exact ⟨h, 0, rfl⟩
  | cons action rest ih =>
    cases action with
    | produce => exact ih h.produceFor
    | read n turns =>
      obtain ⟨hclosed, k, hk⟩ := ih h
      simp only [scanRun, h.read turns n]
      exact ⟨hclosed, k + 1, by rw [hk, List.replicate_succ]⟩

/-- The answers of a run that starts with the scan open: pages, and perhaps the
result followed by refusals. -/
theorem Open.run {pages : List (List FilesystemEvent)} {scan : ScanState}
    (h : Open events result before scanId pages scan service) (actions : List ScanAction) :
    (∃ more scan', (scanRun scanId service actions).2 = openAnswers more ∧
      Open events result before scanId (pages ++ more) scan' (scanRun scanId service actions).1 ∧
      remaining scan' ≤ remaining scan) ∨
    (∃ more k, (scanRun scanId service actions).2 =
        openAnswers more ++ terminalAnswer result :: List.replicate k scanNotActive ∧
      (pages ++ more).flatten = events ∧ Closed before scanId (scanRun scanId service actions).1) := by
  induction actions generalizing service pages scan with
  | nil => exact Or.inl ⟨[], scan, rfl, by rwa [List.append_nil], le_rfl⟩
  | cons action rest ih =>
    cases action with
    | produce =>
      have hproduce := h.produceFor.1
      rcases ih hproduce with ⟨more, scan', hanswers, hopen, hle⟩ | hclosed
      · exact Or.inl ⟨more, scan', hanswers, hopen, hle.trans (remaining_produce scan)⟩
      · exact Or.inr hclosed
    | read n turns =>
      rcases hread : readScanPage service turns scanId n with ⟨service₁, answer⟩
      simp only [scanRun, hread]
      rcases h.read hread with ⟨page, scan₁, rfl, hopen₁, hle₁, -⟩ | ⟨rfl, hall, hclosed⟩
      · rcases ih hopen₁ with ⟨more, scan', hanswers, hopen, hle⟩ | ⟨more, k, hanswers, hall, hclosed⟩
        · refine Or.inl ⟨page :: more, scan', ?_, ?_, hle.trans hle₁⟩
          · rw [hanswers]
            rfl
          · rw [← List.singleton_append, ← List.append_assoc]
            exact hopen
        · refine Or.inr ⟨page :: more, k, ?_, ?_, hclosed⟩
          · rw [hanswers]
            rfl
          · rw [← List.singleton_append, ← List.append_assoc]
            exact hall
      · obtain ⟨hclosed', k, hk⟩ := hclosed.run rest
        exact Or.inr ⟨[], k, by rw [hk]; rfl, by rwa [List.append_nil], hclosed'⟩

theorem scanRun_append (service : BrokerService) (first second : List ScanAction) :
    (scanRun scanId service (first ++ second)).1 =
      (scanRun scanId (scanRun scanId service first).1 second).1 := by
  induction first generalizing service with
  | nil => rfl
  | cons action rest ih =>
    cases action with
    | produce => exact ih _
    | read n turns => simp only [List.cons_append, scanRun, ih]

theorem Closed.run_closed (h : Closed before scanId service) (actions : List ScanAction) :
    Closed before scanId (scanRun scanId service actions).1 :=
  (h.run actions).1

/-- The scan stays open no farther from its end, or it is closed. -/
theorem Open.run_le {pages : List (List FilesystemEvent)} {scan : ScanState}
    (h : Open events result before scanId pages scan service) (actions : List ScanAction) :
    (∃ pages' scan', Open events result before scanId pages' scan' (scanRun scanId service actions).1 ∧
      remaining scan' ≤ remaining scan) ∨ Closed before scanId (scanRun scanId service actions).1 := by
  rcases h.run actions with ⟨more, scan', -, hopen, hle⟩ | ⟨_, _, -, -, hclosed⟩
  · exact Or.inl ⟨_, scan', hopen, hle⟩
  · exact Or.inr hclosed

/-- The scan is closed, or open with less than `bound` left to do. -/
def Nearer (events : List FilesystemEvent) (result : PlatformResult ScanSummary)
    (before : BrokerService) (scanId bound : Nat) (service : BrokerService) : Prop :=
  (∃ pages scan, Open events result before scanId pages scan service ∧ remaining scan < bound) ∨
    Closed before scanId service

/-- A page of a readable scan makes progress, which lasts. -/
theorem Open.read_progress {pages : List (List FilesystemEvent)} {scan : ScanState}
    (h : Open events result before scanId pages scan service) (hreadable : Readable scan) {n : Nat}
    (hn : 0 < n) (turns : Nat → Nat) (after : List ScanAction) :
    Nearer events result before scanId (remaining scan)
      (scanRun scanId service (.read n turns :: after)).1 := by
  rcases hpage : readScanPage service turns scanId n with ⟨service₁, answer⟩
  simp only [scanRun, hpage]
  rcases h.read hpage with ⟨page, scan₁, -, hopen₁, -, hlt⟩ | ⟨-, -, hclosed⟩
  · rcases hopen₁.run_le after with ⟨pages', scan', hopen, hle⟩ | hclosed
    · exact Or.inl ⟨pages', scan', hopen, lt_of_le_of_lt hle (hlt hn hreadable)⟩
    · exact Or.inr hclosed
  · exact Or.inr (hclosed.run_closed after)

/-- A readable scan stays readable until the next page. -/
theorem Open.read_after {pages : List (List FilesystemEvent)} {scan : ScanState}
    (h : Open events result before scanId pages scan service) (hreadable : Readable scan)
    {between : List ScanAction} (hsizes : ∀ action ∈ between, action.PageSized) {n : Nat}
    (hn : 0 < n) (turns : Nat → Nat) (after : List ScanAction) :
    Nearer events result before scanId (remaining scan)
      (scanRun scanId service (between ++ .read n turns :: after)).1 := by
  induction between generalizing service scan with
  | nil => exact h.read_progress hreadable hn turns after
  | cons action rest ih =>
    cases action with
    | read m turns' => exact h.read_progress hreadable (hsizes _ List.mem_cons_self).1 turns' _
    | produce =>
      obtain ⟨hopen, hreadable'⟩ := h.produceFor
      rcases ih hopen hreadable' (fun action hmem => hsizes action (List.mem_cons_of_mem _ hmem)) with
        ⟨pages', scan', hopen', hlt⟩ | hclosed
      · exact Or.inl ⟨pages', scan', hopen', lt_of_lt_of_le hlt (remaining_produce scan)⟩
      · exact Or.inr hclosed

theorem InFlight.remaining_pos {delivered : List FilesystemEvent} {scan : ScanState}
    (h : InFlight events result delivered scan) : 0 < remaining scan := by
  have hpos := List.length_pos_iff.mpr h.left
  rw [List.length_append] at hpos
  rw [remaining]
  omega

theorem Open.remaining_pos {pages : List (List FilesystemEvent)} {scan : ScanState}
    (h : Open events result before scanId pages scan service) : 0 < remaining scan := by
  rcases h.state with hflight | hparked
  · exact hflight.remaining_pos
  · simp [remaining, hparked.pending]

/-- As many rounds as there are things left to do close the scan. -/
theorem Open.closed_of_rounds {pages : List (List FilesystemEvent)} {scan : ScanState} {k : Nat}
    (h : Open events result before scanId pages scan service) (hk : remaining scan ≤ k)
    {actions : List ScanAction} (hrounds : Rounds k actions)
    (hsizes : ∀ action ∈ actions, action.PageSized) :
    Closed before scanId (scanRun scanId service actions).1 := by
  induction k generalizing service pages scan actions with
  | zero => exact absurd h.remaining_pos (by omega)
  | succ k ih =>
    obtain ⟨early, between, n, turns, after, rfl, hafter⟩ := hrounds
    simp only [List.mem_append, List.mem_cons] at hsizes
    have hn : 0 < n := (hsizes (.read n turns) (Or.inr (Or.inl rfl))).1
    have hlater : ∀ action ∈ after, action.PageSized := fun action hmem =>
      hsizes action (Or.inr (Or.inr hmem))
    have hsplit : early ++ .produce :: between ++ .read n turns :: after =
        early ++ (.produce :: (between ++ [.read n turns]) ++ after) := by simp
    rw [hsplit, scanRun_append, scanRun_append]
    rcases h.run_le early with ⟨pages₁, scan₁, hopen₁, hle₁⟩ | hclosed
    · obtain ⟨hopen₂, hreadable⟩ := hopen₁.produceFor
      have hnear := hopen₂.read_after hreadable
        (fun action hmem => hsizes action (Or.inl (Or.inr (Or.inr hmem)))) hn turns []
      rcases hnear with ⟨pages₃, scan₃, hopen₃, hlt⟩ | hclosed
      · have hle₂ := remaining_produce scan₁
        exact ih hopen₃ (by omega) hafter hlater
      · exact hclosed.run_closed after
    · exact (hclosed.run_closed _).run_closed after

end Run

theorem startScan_ok {service service' : BrokerService} {around : Surroundings} {volumeId : VolumeId}
    {scanId : Nat} (h : startScan service around volumeId = (service', .ok (.scanStarted scanId))) :
    service.scans.rows.length < maxActiveScans ∧ service'.scans =
      service.scans.insert scanId (.started around.scan.1 around.scan.2) := by
  unfold startScan at h
  repeat' split at h
  all_goals first
    | (cases (Prod.mk.inj h).2; done)
    | skip
  rename_i hfull
  obtain ⟨rfl, hid⟩ := Prod.mk.inj h
  obtain rfl := BrokerPayload.scanStarted.inj (Except.ok.inj hid)
  exact ⟨not_le.mp hfull, rfl⟩

theorem open_started {service service' : BrokerService} {around : Surroundings}
    {volumeId : VolumeId} {scanId : Nat}
    (h : startScan service around volumeId = (service', .ok (.scanStarted scanId))) :
    Open around.scan.1 around.scan.2 service scanId [] (.started around.scan.1 around.scan.2)
      service' := by
  obtain ⟨-, hscans⟩ := startScan_ok h
  refine ⟨?_, ?_, Or.inl inFlight_started⟩
  · rw [hscans, Table.get_insert_self]
  · rw [hscans, erase_insert]

/-- For every interleaving of the worker with page requests: the answers are
pages whose events, in order, are a prefix of what the provider emitted; the
result comes alone, once, after every event, and closes the scan and frees its
slot. It does come when worker and reader keep getting turns. -/
theorem scan_pages_exact {service service' : BrokerService} {around : Surroundings}
    {volumeId : VolumeId} {scanId : Nat}
    (hstart : startScan service around volumeId = (service', .ok (.scanStarted scanId)))
    (actions : List ScanAction) (hsizes : ∀ action ∈ actions, action.PageSized) :
    ((∃ pages, (scanRun scanId service' actions).2 = openAnswers pages ∧
        pages.flatten <+: around.scan.1 ∧
        ((scanRun scanId service' actions).1.scans.get scanId).isSome ∧
        ∀ other ≠ scanId, (scanRun scanId service' actions).1.scans.get other =
          service.scans.get other) ∨
      (∃ pages k, (scanRun scanId service' actions).2 =
          openAnswers pages ++ terminalAnswer around.scan.2 :: List.replicate k scanNotActive ∧
        pages.flatten = around.scan.1 ∧
        (scanRun scanId service' actions).1.scans = service.scans.erase scanId ∧
        (scanRun scanId service' actions).1.scans.rows.length < maxActiveScans)) ∧
    (Rounds (2 * around.scan.1.length + 2) actions →
      (scanRun scanId service' actions).1.scans.get scanId = none) := by
  have hopen := open_started hstart
  refine ⟨?_, fun hrounds => ?_⟩
  · rcases hopen.run actions with ⟨pages, scan, hanswers, hopen', -⟩ | ⟨pages, k, hanswers, hall, hclosed⟩
    · refine Or.inl ⟨pages, hanswers, hopen'.delivered_within, ?_, fun other hother => ?_⟩
      · rw [hopen'.active]
        rfl
      · have hothers := congrArg (·.get other) hopen'.others
        simpa [hother] using hothers
    · refine Or.inr ⟨pages, k, hanswers, hall, hclosed.forgotten, ?_⟩
      rw [hclosed.forgotten]
      exact lt_of_le_of_lt (List.length_filter_le _ _) (startScan_ok hstart).1
  · refine (hopen.closed_of_rounds ?_ hrounds hsizes).get
    simp [remaining, ScanState.started]
    omega

section Example

def scannedVolume : VolumeId := .fromU128 1

def scanCheckpoint : ProviderCheckpoint := ⟨"localsearch.windows-fs", 3, scannedVolume, []⟩

/-- A provider that emits two events and completes. -/
def twoEventScan : Surroundings where
  cancelled := false
  atEntry := none
  beforeScan := none
  capabilities := ⟨.windows, .filesystemCrawl, .persistentObjectJournal, .optionalBroker, true, true, true⟩
  volumes := .ok [⟨scannedVolume, none, [], none, false, true⟩]
  scan := ([.reconciliationRequired scannedVolume .eventOverflow,
    .reconciliationRequired scannedVolume .providerRequested], .ok ⟨scanCheckpoint, 2⟩)
  turns := fun _ => 0
  changes := .error scanWorkerStopped

/-- Worker and reader in turn, with pages of one event. -/
def alternating : Nat → List ScanAction
  | 0 => []
  | k + 1 => .produce :: .read 1 (fun _ => 0) :: alternating k

theorem alternating_rounds (k : Nat) : Rounds k (alternating k) := by
  induction k with
  | zero => trivial
  | succ k ih => exact ⟨[], [], 1, fun _ => 0, alternating k, rfl, ih⟩

theorem alternating_pageSized {k : Nat} {action : ScanAction} (h : action ∈ alternating k) :
    action.PageSized := by
  induction k with
  | zero => cases h
  | succ k ih =>
    rcases List.mem_cons.mp h with rfl | h
    · trivial
    · rcases List.mem_cons.mp h with rfl | h
      · exact ⟨by decide, by decide⟩
      · exact ih h

/-- The worker is done before the first page is asked for, so that page meets the end of the
scan behind the events. -/
def parking : List ScanAction := [.produce, .produce, .produce, .read 5 fun _ => 0]

/-- The service that has started the scan. -/
def scanning : BrokerService := (startScan .new twoEventScan scannedVolume).1

/-- The result is parked behind both events, and the next page closes the scan. -/
theorem twoEventScan_closes :
    (startScan .new twoEventScan scannedVolume).2 = .ok (.scanStarted 1) ∧
    ((scanRun 1 scanning parking).1.scans.get 1).map (·.pendingTerminal) =
      some (some (.ok ⟨scanCheckpoint, 2⟩)) ∧
    ((∃ pages, (scanRun 1 scanning (parking ++ alternating 5)).2 = openAnswers pages ∧
        pages.flatten <+: twoEventScan.scan.1 ∧
        ((scanRun 1 scanning (parking ++ alternating 5)).1.scans.get 1).isSome ∧
        ∀ other ≠ 1, (scanRun 1 scanning (parking ++ alternating 5)).1.scans.get other =
          BrokerService.new.scans.get other) ∨
      (∃ pages k, (scanRun 1 scanning (parking ++ alternating 5)).2 =
          openAnswers pages ++ terminalAnswer twoEventScan.scan.2 :: List.replicate k scanNotActive ∧
        pages.flatten = twoEventScan.scan.1 ∧
        (scanRun 1 scanning (parking ++ alternating 5)).1.scans = BrokerService.new.scans.erase 1 ∧
        (scanRun 1 scanning (parking ++ alternating 5)).1.scans.rows.length < maxActiveScans)) ∧
    (scanRun 1 scanning (parking ++ alternating 5)).1.scans.get 1 = none := by
  have hstart : startScan .new twoEventScan scannedVolume = (scanning, .ok (.scanStarted 1)) := rfl
  have hsizes : ∀ action ∈ parking ++ alternating 5, action.PageSized := by
    intro action hmem
    rcases List.mem_append.mp hmem with hmem | hmem
    · simp only [parking, List.mem_cons, List.not_mem_nil, or_false] at hmem
      rcases hmem with rfl | rfl | rfl | rfl
      · trivial
      · trivial
      · trivial
      · exact ⟨by decide, by decide⟩
    · exact alternating_pageSized hmem
  have hrounds : Rounds 6 (parking ++ alternating 5) :=
    ⟨[], [.produce, .produce], 5, fun _ => 0, alternating 5, rfl, alternating_rounds 5⟩
  obtain ⟨hexact, hcloses⟩ := scan_pages_exact hstart (parking ++ alternating 5) hsizes
  exact ⟨rfl, by decide, hexact, hcloses hrounds⟩

end Example

end LocalSearch.Broker
