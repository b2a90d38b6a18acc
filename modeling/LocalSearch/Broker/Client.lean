import LocalSearch.Broker.Service
import LocalSearch.Lib.Bytes

/-!
# Clients of a running broker

A client numbers its requests from one, and the service remembers the numbers
of all clients together. Which requests are taken for replays therefore depends
on how many requests lie between two uses of one number.
-/
namespace LocalSearch.Broker

set_option autoImplicit false

open Core Lib

def brokerDeadlineMs : Nat := 5000

/-- The client side of the portable provider. -/
structure BrokerFilesystemProvider where
  capabilities : PlatformCapabilities
  nextRequestId : Nat
  deriving DecidableEq, Repr

def unavailableCapabilities : PlatformCapabilities :=
  ⟨.windows, .filesystemCrawl, .snapshotOnly, .optionalBroker, false, false, false⟩

def wireError (code : BrokerErrorCode) : PlatformError :=
  let kind := match code with
    | .permissionDenied => PlatformErrorKind.permissionDenied
    | .unsupported => .unsupported
    | .unavailable | .notFound => .unavailable
    | .sourceHistoryGap => .sourceHistoryGap
    | .resourceExhausted | .deadlineExceeded | .replayRejected => .resourceExhausted
    | .cancelled => .cancelled
    | .invalidRequest | .unsupportedProtocolVersion | .unsupportedCodecVersion | .internal => .internal
  ⟨kind, "broker_response", "broker rejected metadata operation"⟩

def incompatible (detail : String) : PlatformError := ⟨.internal, "broker_contract", detail⟩

def clientRequestId (sequence : Nat) : String := "broker-client-" ++ sequence.repr

def clientRequest (sequence : Nat) (operation : BrokerOperation) : BrokerRequest where
  protocolVersion := brokerProtocolVersion
  codecVersion := brokerCodecVersion
  requestId := clientRequestId sequence
  deadlineMs := brokerDeadlineMs
  operation := operation

/-- The client's view of a response to its request. -/
def responseResult (request : BrokerRequest) (response : BrokerResponse) :
    PlatformResult BrokerPayload :=
  if response.protocolVersion ≠ brokerProtocolVersion ∨ response.requestId ≠ request.requestId then
    .error (incompatible "broker response correlation mismatch")
  else
    match response.result, response.error with
    | some payload, none => .ok payload
    | none, some error => .error (wireError error.code)
    | _, _ => .error (incompatible "broker response union mismatch")

/-- Send one request and take the next number. -/
def invoke (service : BrokerService) (around : Surroundings) (provider : BrokerFilesystemProvider)
    (operation : BrokerOperation) :
    BrokerService × BrokerFilesystemProvider × BrokerResponse × PlatformResult BrokerPayload :=
  let request := clientRequest provider.nextRequestId operation
  let (service, response) := dispatch service around request
  (service, { provider with nextRequestId := (provider.nextRequestId + 1) % 2 ^ 64 }, response,
    responseResult request response)

/-- Read one page of the journal through the broker. -/
def readChangesThroughBroker (service : BrokerService) (around : Surroundings)
    (provider : BrokerFilesystemProvider) (checkpoint : ProviderCheckpoint) (maximumEvents : Nat) :
    BrokerService × BrokerFilesystemProvider × PlatformResult (List FilesystemEvent × ChangeBatch) :=
  let maximumEvents := min maximumEvents maxBrokerPageEvents
  if maximumEvents = 0 then
    (service, provider,
      .error ⟨.resourceExhausted, "broker_changes", "event count must be positive"⟩)
  else
    let (service, provider, _, result) :=
      invoke service around provider (.readChanges checkpoint maximumEvents)
    (service, provider, match result with
      | .error error => .error error
      | .ok (.changes events batch) =>
          if events.length ≠ batch.emittedEvents ∨ maximumEvents < events.length then
            .error (incompatible "change response count mismatch")
          else .ok (events, batch)
      | .ok _ => .error (incompatible "change response mismatch"))

def negotiate (provider : BrokerFilesystemProvider) :
    BrokerPayload → PlatformResult BrokerFilesystemProvider
  | .capabilities capabilities =>
      if brokerProtocolVersion ∉ capabilities.protocolVersions ∨
          brokerCodecVersion ∉ capabilities.codecVersions then
        .error (incompatible "broker version negotiation failed")
      else .ok { provider with capabilities := capabilities.provider }
  | _ => .error (incompatible "capability response type mismatch")

def connect (service : BrokerService) (around : Surroundings) :
    BrokerService × BrokerResponse × PlatformResult BrokerFilesystemProvider :=
  let (service, provider, response, result) :=
    invoke service around ⟨unavailableCapabilities, 1⟩ .brokerGetCapabilities
  (service, response, result >>= negotiate provider)

/-- A client that connects and then issues its operations. -/
structure Lifetime where
  connecting : Surroundings
  operations : List (BrokerOperation × Surroundings)

def operate : BrokerService → BrokerFilesystemProvider → List (BrokerOperation × Surroundings) →
    BrokerService × List BrokerResponse
  | service, _, [] => (service, [])
  | service, provider, (operation, around) :: rest =>
      let (service, provider, response, _) := invoke service around provider operation
      let (service, responses) := operate service provider rest
      (service, response :: responses)

/-- A client that cannot connect issues no operation. -/
def serveLifetime (service : BrokerService) (lifetime : Lifetime) :
    BrokerService × List BrokerResponse :=
  let (service, response, provider) := connect service lifetime.connecting
  match provider with
  | .error _ => (service, [response])
  | .ok provider =>
      let (service, responses) := operate service provider lifetime.operations
      (service, response :: responses)

/-- One client after another against the same service. -/
def serveLifetimes : BrokerService → List Lifetime → BrokerService × List BrokerResponse
  | service, [] => (service, [])
  | service, lifetime :: rest =>
      let (service, responses) := serveLifetime service lifetime
      let (service, more) := serveLifetimes service rest
      (service, responses ++ more)

def BrokerResponse.ReplayRejected (response : BrokerResponse) : Prop :=
  ∃ error ∈ response.error, error.code = .replayRejected

/-- Nothing but the replay window keeps the client from connecting. -/
def Lifetime.Connects (lifetime : Lifetime) : Prop :=
  lifetime.connecting.cancelled = false ∧ lifetime.connecting.atEntry = none

instance (lifetime : Lifetime) : Decidable lifetime.Connects :=
  inferInstanceAs (Decidable (_ ∧ _))

/-- The requests of a lifetime, in order. -/
def Lifetime.requests (lifetime : Lifetime) : List BrokerOperation :=
  .brokerGetCapabilities ::
    if lifetime.Connects then lifetime.operations.map (·.1) else []

/-- The numbers, from `next` on, of the operations that pass validation; the
counter has 64 bits. -/
def validNumbers : Nat → List BrokerOperation → List Nat
  | _, [] => []
  | next, operation :: rest =>
      let later := validNumbers ((next + 1) % 2 ^ 64) rest
      if operation.validate = .ok () then next :: later else later

/-- The request numbers the service gets to admit, over all clients. -/
def requestNumbers (lifetimes : List Lifetime) : List Nat :=
  lifetimes.flatMap fun lifetime => validNumbers 1 lifetime.requests

theorem clientRequestId_injective : Function.Injective clientRequestId := by
  intro a b hab
  have hlists : (clientRequestId a).toList = (clientRequestId b).toList := by rw [hab]
  simp only [clientRequestId, String.toList_append, List.append_cancel_left_eq] at hlists
  exact repr_injective (String.toList_inj.mp hlists)

theorem clientRequestId_size {sequence : Nat} (h : sequence < 2 ^ 64) :
    (clientRequestId sequence).utf8ByteSize ≤ maxBrokerRequestIdBytes := by
  have hdigits : sequence.repr.utf8ByteSize ≤ 20 :=
    utf8ByteSize_repr_le (by decide) (lt_of_lt_of_le h (by decide))
  rw [clientRequestId, String.utf8ByteSize_append, maxBrokerRequestIdBytes]
  have hname : "broker-client-".utf8ByteSize = 14 := by decide
  omega

theorem clientRequestId_ne_empty (sequence : Nat) : clientRequestId sequence ≠ "" := by
  intro h
  have hsize : (clientRequestId sequence).utf8ByteSize = 0 := by rw [h]; rfl
  rw [clientRequestId, String.utf8ByteSize_append] at hsize
  have hname : "broker-client-".utf8ByteSize = 14 := by decide
  omega

theorem clientRequest_validate {sequence : Nat} (h : sequence < 2 ^ 64)
    (operation : BrokerOperation) :
    (clientRequest sequence operation).validate = operation.validate := by
  have hsize := clientRequestId_size h
  simp [BrokerRequest.validate, clientRequest, clientRequestId_ne_empty, hsize, brokerDeadlineMs,
    maxBrokerDeadlineMs]

theorem dispatchOperation_replay (service : BrokerService) (around : Surroundings)
    (operation : BrokerOperation) :
    (dispatchOperation service around operation).1.replay = service.replay := by
  unfold dispatchOperation
  split
  · rfl
  · cases operation with
    | brokerGetCapabilities => rfl
    | discoverVolumes => dsimp only; split <;> rfl
    | startScan volumeId mode =>
      dsimp only [startScan]
      repeat' split
      all_goals rfl
    | readScanPage scanId maximumEvents =>
      dsimp only [readScanPage]
      repeat' split
      all_goals rfl
    | cancelScan scanId => dsimp only [cancelScan]; split <;> rfl
    | readChanges checkpoint maximumEvents => dsimp only [readChanges]; split <;> rfl

/-- No operation reports a replay of its own. -/
theorem dispatchOperation_error {service : BrokerService} {around : Surroundings}
    {operation : BrokerOperation} {error : ServiceError}
    (h : (dispatchOperation service around operation).2 = .error error) :
    error.code ≠ .replayRejected := by
  have hplatform : ∀ e, (platformError e).code ≠ .replayRejected := by
    intro e
    cases hk : e.kind <;> simp [platformError, hk]
  have hinterruption : ∀ (check : Option Interruption) e, checkRequest check = .error e →
      e.code ≠ .replayRejected := by
    intro check e he
    cases check with
    | none => cases he
    | some interruption =>
      obtain rfl := Except.error.inj he
      cases interruption <;> simp [Interruption.error]
  unfold dispatchOperation at h
  split at h
  · rename_i e he
    obtain rfl := Except.error.inj h
    exact hinterruption _ e he
  · cases operation with
    | brokerGetCapabilities => cases h
    | discoverVolumes =>
      dsimp only at h
      split at h
      · obtain rfl := Except.error.inj h
        exact hplatform _
      · cases h
    | startScan volumeId mode =>
      dsimp only [startScan] at h
      repeat' split at h
      · obtain rfl := Except.error.inj h
        exact hplatform _
      · obtain rfl := Except.error.inj h
        simp
      · rename_i e he
        obtain rfl := Except.error.inj h
        exact hinterruption _ e he
      · obtain rfl := Except.error.inj h
        simp
      · cases h
    | readScanPage scanId maximumEvents =>
      dsimp only [readScanPage] at h
      repeat' split at h
      all_goals first
        | (cases h; done)
        | (obtain rfl := Except.error.inj h; first | exact hplatform _ | simp)
    | cancelScan scanId =>
      dsimp only [cancelScan] at h
      split at h
      · obtain rfl := Except.error.inj h
        simp
      · cases h
    | readChanges checkpoint maximumEvents =>
      dsimp only [readChanges] at h
      split at h
      · obtain rfl := Except.error.inj h
        exact hplatform _
      · cases h

/-- A valid request is rejected when its number is in the window and admitted
otherwise; an invalid one leaves no trace. -/
theorem dispatch_client {service : BrokerService} {around : Surroundings} {sequence : Nat}
    {operation : BrokerOperation} (h : sequence < 2 ^ 64) {service' : BrokerService}
    {response : BrokerResponse}
    (hrun : dispatch service around (clientRequest sequence operation) = (service', response)) :
    (operation.validate ≠ .ok () ∧ service' = service ∧ ¬ response.ReplayRejected) ∨
    operation.validate = .ok () ∧
      (( service.replay.admit (clientRequestId sequence) = none ∧ response.ReplayRejected) ∨
        ( service.replay.admit (clientRequestId sequence) = some service'.replay ∧
          ¬ response.ReplayRejected)) := by
  have hid : (clientRequest sequence operation).requestId = clientRequestId sequence := rfl
  simp only [dispatch, clientRequest_validate h, hid, if_pos (clientRequestId_size h)] at hrun
  cases hvalid : operation.validate with
  | error error =>
    rw [hvalid] at hrun
    obtain ⟨rfl, rfl⟩ := Prod.mk.inj hrun
    refine Or.inl ⟨by simp, rfl, ?_⟩
    rintro ⟨e, he, hcode⟩
    simp only [contractFailure, BrokerResponse.failure, Option.mem_some_iff] at he
    subst he
    cases error <;> simp at hcode
  | ok =>
    refine Or.inr ⟨rfl, ?_⟩
    simp only [hvalid] at hrun
    cases hgranted : service.replay.admit (clientRequestId sequence) with
    | none =>
      simp only [hgranted] at hrun
      obtain ⟨-, rfl⟩ := Prod.mk.inj hrun
      exact Or.inl ⟨rfl, _, rfl, rfl⟩
    | some window =>
      refine Or.inr ?_
      simp only [hgranted] at hrun
      split_ifs at hrun with hcancelled
      · obtain ⟨rfl, rfl⟩ := Prod.mk.inj hrun
        refine ⟨rfl, ?_⟩
        rintro ⟨e, he, hcode⟩
        simp only [BrokerResponse.failure, Option.mem_some_iff] at he
        subst he
        cases hcode
      · have hreplay := dispatchOperation_replay { service with replay := window } around
          (clientRequest sequence operation).operation
        cases hresult : (dispatchOperation { service with replay := window } around
            (clientRequest sequence operation).operation).2 with
        | ok payload =>
          simp only [hresult] at hrun
          obtain ⟨rfl, rfl⟩ := Prod.mk.inj hrun
          refine ⟨by rw [hreplay], ?_⟩
          rintro ⟨e, he, -⟩
          cases he
        | error error =>
          simp only [hresult] at hrun
          obtain ⟨rfl, rfl⟩ := Prod.mk.inj hrun
          refine ⟨by rw [hreplay], ?_⟩
          rintro ⟨e, he, hcode⟩
          simp only [BrokerResponse.failure, Option.mem_some_iff] at he
          subst he
          exact dispatchOperation_error hresult hcode

/-- The service has admitted exactly the numbers, and none of them too soon. -/
structure Remembers (service : BrokerService) (numbers : List Nat) : Prop where
  capacity : service.replay.capacity = replayWindowRequests
  holds : service.replay.Holds (numbers.map clientRequestId)
  spaced : Spaced replayWindowRequests numbers

/-- Either some response reports a replay and some number came too soon, or
neither. -/
def Accounted (service : BrokerService) (responses : List BrokerResponse) (numbers : List Nat) :
    Prop :=
  ((∃ response ∈ responses, response.ReplayRejected) ∧ ¬ Spaced replayWindowRequests numbers) ∨
    ((∀ response ∈ responses, ¬ response.ReplayRejected) ∧ Remembers service numbers)

theorem remembers_new : Remembers .new [] :=
  ⟨rfl, ReplayWindow.holds_new _, spaced_nil _⟩

theorem Accounted.iff {service : BrokerService} {responses : List BrokerResponse}
    {numbers : List Nat} (h : Accounted service responses numbers) :
    (∀ response ∈ responses, ¬ response.ReplayRejected) ↔ Spaced replayWindowRequests numbers := by
  rcases h with ⟨⟨response, hmem, hrejected⟩, hnear⟩ | ⟨hnone, hremembers⟩
  · exact ⟨fun hnone => absurd hrejected (hnone response hmem), fun hspaced => absurd hspaced hnear⟩
  · exact ⟨fun _ => hremembers.spaced, fun _ => hnone⟩

theorem Accounted.append {service service' : BrokerService} {responses more : List BrokerResponse}
    {numbers later : List Nat} (h : Accounted service responses numbers)
    (hnext : Remembers service numbers → Accounted service' more (numbers ++ later)) :
    Accounted service' (responses ++ more) (numbers ++ later) := by
  rcases h with ⟨⟨response, hmem, hrejected⟩, hnear⟩ | ⟨hnone, hremembers⟩
  · exact Or.inl ⟨⟨response, List.mem_append_left _ hmem, hrejected⟩,
      fun hspaced => hnear hspaced.left⟩
  · rcases hnext hremembers with ⟨⟨response, hmem, hrejected⟩, hnear⟩ | ⟨hmore, hlater⟩
    · exact Or.inl ⟨⟨response, List.mem_append_right _ hmem, hrejected⟩, hnear⟩
    · refine Or.inr ⟨fun response hmem => ?_, hlater⟩
      rcases List.mem_append.mp hmem with hmem | hmem
      · exact hnone response hmem
      · exact hmore response hmem

theorem dispatch_accounted {service service' : BrokerService} {around : Surroundings}
    {sequence : Nat} {operation : BrokerOperation} {response : BrokerResponse} {numbers : List Nat}
    (hremembers : Remembers service numbers) (h : sequence < 2 ^ 64)
    (hrun : dispatch service around (clientRequest sequence operation) = (service', response)) :
    Accounted service' [response] (numbers ++ validNumbers sequence [operation]) := by
  rcases dispatch_client h hrun with ⟨hinvalid, rfl, hfree⟩ | ⟨hvalid, hcase⟩
  · have hnumbers : validNumbers sequence [operation] = [] := by simp [validNumbers, hinvalid]
    rw [hnumbers, List.append_nil]
    exact Or.inr ⟨by simpa using hfree, hremembers⟩
  · have hnumbers : validNumbers sequence [operation] = [sequence] := by simp [validNumbers, hvalid]
    rw [hnumbers]
    have hwindow : service.replay.admit (clientRequestId sequence) = none ↔ _ :=
      ReplayWindow.admit_eq_none hremembers.holds
    rw [hremembers.capacity] at hwindow
    have hmem : clientRequestId sequence ∈ (numbers.map clientRequestId).rtake replayWindowRequests ↔
        sequence ∈ numbers.rtake replayWindowRequests := by
      rw [List.rtake, List.length_map, ← List.map_drop, ← List.rtake,
        List.mem_map_of_injective clientRequestId_injective]
    rw [hmem] at hwindow
    rcases hcase with ⟨hnone, hrejected⟩ | ⟨hsome, hfree⟩
    · refine Or.inl ⟨⟨response, List.mem_singleton_self _, hrejected⟩, fun hspaced => ?_⟩
      exact (spaced_concat.mp hspaced).2 (hwindow.mp hnone)
    · have hnot : sequence ∉ numbers.rtake replayWindowRequests := by
        intro hin
        rw [hwindow.mpr hin] at hsome
        cases hsome
      obtain ⟨hholds, hcapacity⟩ := ReplayWindow.holds_admit hremembers.holds
        (by rw [hremembers.capacity]; decide) hsome
      refine Or.inr ⟨by simpa using hfree, hcapacity.trans hremembers.capacity, ?_,
        spaced_concat.mpr ⟨hremembers.spaced, hnot⟩⟩
      rw [List.map_append]
      exact hholds

theorem validNumbers_cons (next : Nat) (operation : BrokerOperation) (rest : List BrokerOperation) :
    validNumbers next (operation :: rest) =
      validNumbers next [operation] ++ validNumbers ((next + 1) % 2 ^ 64) rest := by
  by_cases h : operation.validate = .ok () <;> simp [validNumbers, h]

theorem operate_accounted {service : BrokerService} {provider : BrokerFilesystemProvider}
    {numbers : List Nat} (hremembers : Remembers service numbers)
    (h : provider.nextRequestId < 2 ^ 64) (operations : List (BrokerOperation × Surroundings)) :
    Accounted (operate service provider operations).1 (operate service provider operations).2
      (numbers ++ validNumbers provider.nextRequestId (operations.map (·.1))) := by
  induction operations generalizing service provider numbers with
  | nil => exact Or.inr ⟨by simp [operate], by simpa [operate, validNumbers] using hremembers⟩
  | cons request rest ih =>
    obtain ⟨operation, around⟩ := request
    rcases hrun : dispatch service around (clientRequest provider.nextRequestId operation) with
      ⟨service₁, response⟩
    have hfirst := dispatch_accounted hremembers h hrun
    rw [List.map_cons, validNumbers_cons, ← List.append_assoc]
    simp only [operate, invoke, hrun]
    refine hfirst.append fun hremembers₁ => ?_
    exact ih hremembers₁ (Nat.mod_lt _ (by decide))

/-- A client whose first request is not taken for a replay connects unless it is
cancelled or late. -/
theorem connect_cases {service service' : BrokerService} {around : Surroundings}
    {response : BrokerResponse} {provider : PlatformResult BrokerFilesystemProvider}
    (h : connect service around = (service', response, provider)) :
    dispatch service around (clientRequest 1 .brokerGetCapabilities) = (service', response) ∧
      (response.ReplayRejected ∨
        (¬ (around.cancelled = false ∧ around.atEntry = none) ∧ ∃ error, provider = .error error) ∨
        (around.cancelled = false ∧ around.atEntry = none) ∧
          ∃ client, provider = .ok client ∧ client.nextRequestId = 2) := by
  obtain ⟨rfl, hrest⟩ := Prod.mk.inj h
  obtain ⟨rfl, rfl⟩ := Prod.mk.inj hrest
  refine ⟨rfl, ?_⟩
  have hid : (clientRequest 1 .brokerGetCapabilities).requestId = clientRequestId 1 := rfl
  have hsize := @clientRequestId_size 1 (by decide)
  have hvalid := @clientRequest_validate 1 (by decide) .brokerGetCapabilities
  simp only [hvalid, BrokerOperation.validate, hid, if_pos hsize]
  cases hgranted : service.replay.admit (clientRequestId 1) with
  | none => exact Or.inl ⟨_, rfl, rfl⟩
  | some window =>
    refine Or.inr ?_
    cases hcancelled : around.cancelled with
    | true =>
      refine Or.inl ⟨by simp, ?_⟩
      exact ⟨wireError .cancelled, rfl⟩
    | false =>
      cases hentry : around.atEntry with
      | some interruption =>
        refine Or.inl ⟨by simp, ?_⟩
        simp only [dispatchOperation, hentry, checkRequest, Bool.false_eq_true, if_false]
        exact ⟨wireError interruption.error.code, rfl⟩
      | none =>
        refine Or.inr ⟨⟨rfl, rfl⟩, ?_⟩
        simp only [dispatchOperation, hentry, checkRequest, clientRequest, Bool.false_eq_true,
          if_false]
        exact ⟨_, rfl, rfl⟩

theorem serveLifetime_accounted {service : BrokerService} {numbers : List Nat}
    (hremembers : Remembers service numbers) (lifetime : Lifetime) :
    Accounted (serveLifetime service lifetime).1 (serveLifetime service lifetime).2
      (numbers ++ validNumbers 1 lifetime.requests) := by
  rcases hconnect : connect service lifetime.connecting with ⟨service₁, response, provider⟩
  obtain ⟨hrun, hcases⟩ := connect_cases hconnect
  have hfirst := dispatch_accounted hremembers (by decide) hrun
  rw [Lifetime.requests, validNumbers_cons, ← List.append_assoc]
  simp only [serveLifetime, hconnect]
  rcases hcases with hrejected | ⟨hstuck, error, rfl⟩ | ⟨hfree, client, rfl, hnext⟩
  · -- the rejected first request already breaks the spacing
    rcases hfirst with ⟨-, hnear⟩ | ⟨hnone, -⟩
    · cases provider with
      | error error =>
        exact Or.inl ⟨⟨response, List.mem_singleton_self _, hrejected⟩,
          fun hspaced => hnear hspaced.left⟩
      | ok client =>
        exact Or.inl ⟨⟨response, List.mem_cons_self, hrejected⟩, fun hspaced => hnear hspaced.left⟩
    · exact absurd hrejected (hnone response (List.mem_singleton_self _))
  · have hnot : ¬ lifetime.Connects := hstuck
    rw [if_neg hnot]
    simpa [validNumbers] using hfirst
  · have hyes : lifetime.Connects := hfree
    rw [if_pos hyes]
    refine hfirst.append fun hremembers₁ => ?_
    have hrest := operate_accounted hremembers₁
      (by rw [hnext]; decide : client.nextRequestId < 2 ^ 64) lifetime.operations
    rw [hnext] at hrest
    exact hrest

theorem serveLifetimes_accounted {service : BrokerService} {lifetimes : List Lifetime}
    {numbers : List Nat} (hremembers : Remembers service numbers) :
    Accounted (serveLifetimes service lifetimes).1 (serveLifetimes service lifetimes).2
      (numbers ++ requestNumbers lifetimes) := by
  induction lifetimes generalizing service numbers with
  | nil => exact Or.inr ⟨by simp [serveLifetimes], by simpa [serveLifetimes, requestNumbers]⟩
  | cons lifetime rest ih =>
    have hfirst := serveLifetime_accounted hremembers lifetime
    rw [requestNumbers, List.flatMap_cons, ← List.append_assoc]
    simp only [serveLifetimes]
    exact hfirst.append fun hremembers₁ => ih hremembers₁

/-- Requests that all pass validation use the numbers one after another. -/
theorem validNumbers_eq_range {operations : List BrokerOperation} {next : Nat}
    (hvalid : ∀ operation ∈ operations, operation.validate = .ok ())
    (hshort : next + operations.length ≤ 2 ^ 64) :
    validNumbers next operations = List.range' next operations.length := by
  induction operations generalizing next with
  | nil => rfl
  | cons operation rest ih =>
    rw [List.length_cons] at hshort
    have hhead := hvalid operation List.mem_cons_self
    have htail : ∀ operation ∈ rest, operation.validate = .ok () := fun operation hmem =>
      hvalid operation (List.mem_cons_of_mem _ hmem)
    cases rest with
    | nil => simp [validNumbers, hhead]
    | cons second rest =>
      rw [List.length_cons] at hshort
      have hmod : (next + 1) % 2 ^ 64 = next + 1 := Nat.mod_eq_of_lt (by omega)
      simp only [validNumbers, hhead, if_true, hmod] at ih ⊢
      rw [List.length_cons, List.range'_succ]
      exact congrArg (next :: ·) (ih htail (by rw [List.length_cons]; omega))

theorem replayed_iff_near (lifetimes : List Lifetime) :
    (∀ response ∈ (serveLifetimes .new lifetimes).2, ¬ response.ReplayRejected) ↔
      Spaced replayWindowRequests (requestNumbers lifetimes) :=
  (serveLifetimes_accounted remembers_new).iff

/-- No request of a sequence of clients is taken for a replay exactly when no
valid request reuses a number of the last 4096 valid ones. When all requests are
valid, this says that every client but the last sends more than 4096. -/
theorem clients_never_replayed (lifetimes : List Lifetime) :
    ((∀ response ∈ (serveLifetimes .new lifetimes).2, ¬ response.ReplayRejected) ↔
      Spaced replayWindowRequests (requestNumbers lifetimes)) ∧
    ((∀ lifetime ∈ lifetimes, lifetime.requests.length < 2 ^ 64 ∧
        ∀ operation ∈ lifetime.requests, operation.validate = .ok ()) →
      ((∀ response ∈ (serveLifetimes .new lifetimes).2, ¬ response.ReplayRejected) ↔
        ∀ lifetime ∈ lifetimes.dropLast, replayWindowRequests < lifetime.requests.length)) := by
  refine ⟨replayed_iff_near lifetimes, fun hall => (replayed_iff_near lifetimes).trans ?_⟩
  have hnumbers : requestNumbers lifetimes = countings (lifetimes.map (·.requests.length)) := by
    rw [requestNumbers, countings, List.flatMap_map]
    refine List.flatMap_congr fun lifetime hmem => ?_
    obtain ⟨hshort, hvalid⟩ := hall lifetime hmem
    exact validNumbers_eq_range hvalid (by omega)
  have hpos : ∀ k ∈ lifetimes.map (·.requests.length), 0 < k := by
    intro k hk
    obtain ⟨lifetime, -, rfl⟩ := List.mem_map.mp hk
    exact Nat.succ_pos _
  rw [hnumbers, spaced_countings hpos, ← List.map_dropLast, List.forall_mem_map]

section Example

/-- Nothing interferes with a request. -/
def quiet : Surroundings where
  cancelled := false
  atEntry := none
  beforeScan := none
  capabilities := unavailableCapabilities
  volumes := .ok []
  scan := ([], .error scanWorkerStopped)
  turns := fun _ => 0
  changes := .error scanWorkerStopped

/-- Two clients that only connect: the second one is turned away. -/
theorem secondClient_rejected : ¬ ∀ lifetimes : List Lifetime,
    ∀ response ∈ (serveLifetimes .new lifetimes).2, ¬ response.ReplayRejected := by
  intro hclaim
  have hspaced := (replayed_iff_near [⟨quiet, []⟩, ⟨quiet, []⟩]).mp
    (hclaim [⟨quiet, []⟩, ⟨quiet, []⟩])
  exact hspaced 0 1 1 (by decide) (by decide) rfl rfl

/-- A client that discovers volumes `n` times. -/
def discovering (n : Nat) : Lifetime := ⟨quiet, List.replicate n (.discoverVolumes, quiet)⟩

theorem discovering_requests (n : Nat) :
    (discovering n).requests = .brokerGetCapabilities :: List.replicate n .discoverVolumes := by
  have hconnects : (discovering n).Connects := ⟨rfl, rfl⟩
  rw [Lifetime.requests, if_pos hconnects, discovering, List.map_replicate]

theorem discovering_valid (n : Nat) {operation : BrokerOperation}
    (h : operation ∈ (discovering n).requests) : operation.validate = .ok () := by
  rw [discovering_requests] at h
  rcases List.mem_cons.mp h with rfl | h
  · rfl
  · rw [List.eq_of_mem_replicate h]
    rfl

/-- A client may follow one that has sent 4097 requests. -/
theorem secondClient_admitted :
    ∀ response ∈ (serveLifetimes .new [discovering 4096, discovering 0]).2,
      ¬ response.ReplayRejected := by
  refine ((clients_never_replayed [discovering 4096, discovering 0]).2 fun lifetime hmem => ?_).mpr
    fun lifetime hmem => ?_
  · obtain ⟨n, hn, rfl⟩ : ∃ n ≤ 4096, lifetime = discovering n := by
      rcases List.mem_cons.mp hmem with rfl | hmem
      · exact ⟨4096, le_rfl, rfl⟩
      · exact ⟨0, by omega, List.mem_singleton.mp hmem⟩
    refine ⟨?_, fun operation => discovering_valid n⟩
    rw [discovering_requests, List.length_cons, List.length_replicate]
    omega
  · rw [List.mem_singleton.mp hmem, discovering_requests, List.length_cons, List.length_replicate]
    decide

end Example

end LocalSearch.Broker
