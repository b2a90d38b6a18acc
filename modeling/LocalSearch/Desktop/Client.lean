import LocalSearch.Agent.Search

/-!
# The desktop client

A search takes the one slot of the coordinator, asks the Agent, reads its own
cancellation flag, checks that it still holds the slot, gives it up and only
then interprets the answer. Searches run on threads of their own: each of these
is a step of its own, and steps of any number of searches and cancellations
interleave.
-/
namespace LocalSearch.Desktop

set_option autoImplicit false

open Core Agent

inductive DesktopErrorCode where
  | invalidRequest
  | staleResponse
  | cancelled
  | unavailable
  | deadlineExceeded
  | notFound
  | itemUnavailable
  | protocol
  | internal
  deriving DecidableEq, Repr

structure DesktopClientError where
  code : DesktopErrorCode
  message : String
  deriving DecidableEq, Repr

def agentApiVersion : Nat := 2
def agentCodecVersion : Nat := 1
def maxRequestIdBytes : Nat := 64
def maxQueryBytes : Nat := 1024
def maxDeadlineMs : Nat := 10000
def desktopTopK : Nat := 50
def agentDeadlineMs : Nat := 2000

structure ContentSearchRequest where
  query : String
  topK : Nat
  deriving DecidableEq, Repr

/-- The operations a search sends. -/
inductive RequestOperation where
  | catalogSearch (request : SearchRequest)
  | contentSearch (request : ContentSearchRequest)
  deriving DecidableEq, Repr

structure AgentRequest where
  protocolVersion : Nat
  codecVersion : Nat
  requestId : String
  deadlineMs : Nat
  operation : RequestOperation
  deriving DecidableEq, Repr

inductive WireContractError where
  | unsupportedProtocolVersion
  | unsupportedCodecVersion
  | invalidRequest (detail : String)
  | invalidResponse
  deriving DecidableEq, Repr

def RequestOperation.validate : RequestOperation → Except WireContractError Unit
  | .catalogSearch request =>
      if request.query.isEmpty ∨ maxQueryBytes < request.query.utf8ByteSize then
        .error (.invalidRequest "query must be non-empty and bounded")
      else if request.topK = 0 ∨ maxTopK < request.topK then
        .error (.invalidRequest "top_k must be within the v0.1 policy bound")
      else if 32 < request.filters.extensions.length then
        .error (.invalidRequest "too many extension filters")
      else .ok ()
  | .contentSearch request =>
      if request.query.isEmpty ∨ maxQueryBytes < request.query.utf8ByteSize then
        .error (.invalidRequest "content query must be non-empty and bounded")
      else if request.topK = 0 ∨ maxTopK < request.topK then
        .error (.invalidRequest "content top_k must be within the policy bound")
      else .ok ()

def AgentRequest.validate (request : AgentRequest) : Except WireContractError Unit :=
  if request.protocolVersion ≠ agentApiVersion then .error .unsupportedProtocolVersion
  else if request.codecVersion ≠ agentCodecVersion then .error .unsupportedCodecVersion
  else if request.requestId.isEmpty ∨ maxRequestIdBytes < request.requestId.utf8ByteSize then
    .error (.invalidRequest "request_id must be non-empty and bounded")
  else if maxDeadlineMs < request.deadlineMs then
    .error (.invalidRequest "deadline exceeds the v0.1 policy maximum")
  else request.operation.validate

inductive AgentErrorCode where
  | invalidRequest
  | unsupportedProtocolVersion
  | unsupportedCodecVersion
  | unsupportedCapability
  | unauthorized
  | forbidden
  | queryPolicyRejected
  | deadlineExceeded
  | cancelled
  | notFound
  | unavailable
  | indexNotReady
  | resourceExhausted
  | internal
  deriving DecidableEq, Repr

structure AgentWireError where
  code : AgentErrorCode
  message : String
  deriving DecidableEq, Repr

structure SearchResponse where
  indexGeneration : Nat
  tookMicros : Nat
  hits : List SearchHit
  deriving DecidableEq, Repr

structure CatalogItem where
  documentId : DocumentId
  objectKey : FileKey
  fileLinkId : FileLinkId
  documentVersion : Nat
  name : String
  resolvedPath : String
  extension : Option String
  kind : FileKind
  size : Nat
  modifiedAtUnixMs : Option Int
  availability : Availability
  deriving DecidableEq, Repr

structure ContentSearchHit where
  item : CatalogItem
  rank : Nat
  deriving DecidableEq, Repr

structure ContentSearchResponse where
  contentSchema : String
  tookMicros : Nat
  hits : List ContentSearchHit
  deriving DecidableEq, Repr

/-- What a response may carry; a search expects one of the first two. -/
inductive ResponsePayload where
  | search (response : SearchResponse)
  | contentSearch (response : ContentSearchResponse)
  | catalogItem (item : CatalogItem)
  | catalogItems (items : List CatalogItem)
  | indexStatus
  | capabilities
  | health
  deriving DecidableEq, Repr

structure AgentResponse where
  protocolVersion : Nat
  requestId : String
  result : Option ResponsePayload
  error : Option AgentWireError
  deriving DecidableEq, Repr

def AgentResponse.validate (response : AgentResponse) : Except WireContractError Unit :=
  match response.result, response.error with
  | some _, none | none, some _ => .ok ()
  | _, _ => .error .invalidResponse

def validateResponseIdentity (response : AgentResponse) (requestId : String) :
    Except DesktopClientError Unit :=
  if response.protocolVersion ≠ agentApiVersion ∨ response.requestId ≠ requestId then
    .error ⟨.protocol, "Search service response identity is invalid"⟩
  else response.validate.mapError fun _ => ⟨.protocol, "Search service response is invalid"⟩

def mapAgentError : AgentErrorCode → DesktopClientError
  | .invalidRequest | .queryPolicyRejected => ⟨.invalidRequest, "Search request was rejected"⟩
  | .deadlineExceeded => ⟨.deadlineExceeded, "Search service did not respond in time"⟩
  | .cancelled => ⟨.cancelled, "Search request was cancelled"⟩
  | .notFound => ⟨.notFound, "The selected item no longer exists"⟩
  | .unavailable | .indexNotReady | .resourceExhausted =>
      ⟨.unavailable, "Search service is temporarily unavailable"⟩
  | .unsupportedProtocolVersion | .unsupportedCodecVersion | .unsupportedCapability
  | .unauthorized | .forbidden | .internal =>
      ⟨.protocol, "Search service could not complete the request"⟩

/-- `search` or `search_content`. -/
inductive SearchKind where
  | catalog
  | content
  deriving DecidableEq, Repr

structure Call where
  kind : SearchKind
  requestId : String
  query : String
  deriving DecidableEq, Repr

/-- The characters that `str::trim` removes. -/
def isWhitespace (c : Char) : Bool :=
  (9 ≤ c.toNat && c.toNat ≤ 13) || (0x2000 ≤ c.toNat && c.toNat ≤ 0x200A) ||
    c.toNat ∈ [0x20, 0x85, 0xA0, 0x1680, 0x2028, 0x2029, 0x202F, 0x205F, 0x3000]

def Call.blank (call : Call) : Bool := call.query.toList.all isWhitespace

def Call.blankError (call : Call) : DesktopClientError :=
  match call.kind with
  | .catalog => ⟨.invalidRequest, "Search query must not be empty"⟩
  | .content => ⟨.invalidRequest, "Content query must not be empty"⟩

def Call.request (call : Call) : AgentRequest where
  protocolVersion := agentApiVersion
  codecVersion := agentCodecVersion
  requestId := call.requestId
  deadlineMs := agentDeadlineMs
  operation := match call.kind with
    | .catalog => .catalogSearch ⟨call.query, .all, ⟨[], none, none, none⟩, desktopTopK⟩
    | .content => .contentSearch ⟨call.query, desktopTopK⟩

def Call.invalidError (call : Call) : DesktopClientError :=
  match call.kind with
  | .catalog => ⟨.invalidRequest, "Search request violates the public Agent contract"⟩
  | .content => ⟨.invalidRequest, "Content query violates the public Agent contract"⟩

/-- The transport answers with anything. -/
abbrev Answer := Except DesktopClientError AgentResponse

structure DesktopResult (α : Type) where
  requestId : String
  response : α
  deriving DecidableEq, Repr

abbrev DesktopSearchResult := DesktopResult SearchResponse
abbrev DesktopContentSearchResult := DesktopResult ContentSearchResponse

/-- The end of a call whose answer is current. -/
def Call.interpret (call : Call) (answer : Answer) :
    Except DesktopClientError (DesktopSearchResult ⊕ DesktopContentSearchResult) := do
  let response ← answer
  validateResponseIdentity response call.requestId
  match response.error with
  | some error => .error (mapAgentError error.code)
  | none =>
      match call.kind, response.result with
      | .catalog, some (.search response) => .ok (.inl ⟨call.requestId, response⟩)
      | .content, some (.contentSearch response) => .ok (.inr ⟨call.requestId, response⟩)
      | .catalog, _ => .error ⟨.protocol, "Search service returned an unexpected response"⟩
      | .content, _ => .error ⟨.protocol, "Search service returned an unexpected content response"⟩

/-- How a call ended. -/
inductive Outcome where
  | refused (error : DesktopClientError)
  | stale
  | finished (result : Except DesktopClientError (DesktopSearchResult ⊕ DesktopContentSearchResult))

/-- Where a call stands between its steps. -/
inductive Phase where
  | idle
  | installed
  | answered (answer : Answer)
  | uncancelled (answer : Answer)
  | current (answer : Answer)
  | cleared (answer : Answer)
  | returned (outcome : Outcome)

section System

variable {ι : Type} [DecidableEq ι] (calls : ι → Call)

/-- `cancelled` is the call whose flag the entry shares. -/
structure ActiveSearch (ι : Type) where
  requestId : String
  cancelled : ι

structure Coordinator (ι : Type) where
  active : Option (ActiveSearch ι)
  cancelled : ι → Bool
  phase : ι → Phase

def Coordinator.initial : Coordinator ι := ⟨none, fun _ => false, fun _ => .idle⟩

inductive Event (ι : Type) where
  | refuse (call : ι)
  | install (call : ι)
  | exchange (call : ι) (answer : Answer)
  | readFlag (call : ι)
  | checkCurrent (call : ι)
  | clear (call : ι)
  | finish (call : ι)
  | cancel (requestId : String) (accepted : Bool)

namespace Coordinator

def goto (s : Coordinator ι) (i : ι) (phase : Phase) : Coordinator ι :=
  { s with phase := Function.update s.phase i phase }

/-- The slot is held for this request. -/
def holds (s : Coordinator ι) (requestId : String) : Bool :=
  s.active.any fun active => active.requestId = requestId

/-- The lock section that takes the slot over and cancels who held it. -/
def install (s : Coordinator ι) (i : ι) : Coordinator ι where
  active := some ⟨(calls i).requestId, i⟩
  cancelled := match s.active with
    | some previous => Function.update s.cancelled previous.cancelled true
    | none => s.cancelled
  phase := Function.update s.phase i .installed

/-- The lock section of `cancel`. -/
def cancel (s : Coordinator ι) (requestId : String) : Coordinator ι × Bool :=
  match s.active with
  | some active =>
      if active.requestId = requestId then
        ({ s with cancelled := Function.update s.cancelled active.cancelled true }, true)
      else (s, false)
  | none => (s, false)

def clearIfCurrent (s : Coordinator ι) (requestId : String) : Coordinator ι :=
  if s.holds requestId then { s with active := none } else s

/-- One step of one party, if it is that party's turn. -/
def step (s : Coordinator ι) : Event ι → Option (Coordinator ι)
  | .refuse i =>
      match s.phase i with
      | .idle =>
          if (calls i).blank then some (s.goto i (.returned (.refused (calls i).blankError))) else none
      | .installed =>
          if (calls i).request.validate.isOk then none
          else some (s.goto i (.returned (.refused (calls i).invalidError)))
      | _ => none
  | .install i =>
      match s.phase i with
      | .idle => if (calls i).blank then none else some (s.install calls i)
      | _ => none
  | .exchange i answer =>
      match s.phase i with
      | .installed =>
          if (calls i).request.validate.isOk then some (s.goto i (.answered answer)) else none
      | _ => none
  | .readFlag i =>
      match s.phase i with
      | .answered answer =>
          some (s.goto i (if s.cancelled i then .returned .stale else .uncancelled answer))
      | _ => none
  | .checkCurrent i =>
      match s.phase i with
      | .uncancelled answer =>
          some (s.goto i (if s.holds (calls i).requestId then .current answer else .returned .stale))
      | _ => none
  | .clear i =>
      match s.phase i with
      | .current answer => some ((s.clearIfCurrent (calls i).requestId).goto i (.cleared answer))
      | _ => none
  | .finish i =>
      match s.phase i with
      | .cleared answer => some (s.goto i (.returned (.finished ((calls i).interpret answer))))
      | _ => none
  | .cancel requestId accepted =>
      if (s.cancel requestId).2 = accepted then some (s.cancel requestId).1 else none

/-- The state after these steps, in this order. -/
def run (events : List (Event ι)) : Option (Coordinator ι) := events.foldlM (step calls) initial

end Coordinator

/-- A cancellation of the call was accepted. -/
def Cancelled (events : List (Event ι)) (i : ι) : Prop :=
  .cancel (calls i).requestId true ∈ events

/-- A call took the slot after this one had. -/
def Superseded (events : List (Event ι)) (i : ι) : Prop :=
  ∃ before after, events = before ++ .install i :: after ∧ ∃ j, .install j ∈ after

/-- The call read its flag when no cancellation of it had been accepted. -/
def ReadsUncancelled (events : List (Event ι)) (i : ι) : Prop :=
  ∃ before after, events = before ++ .readFlag i :: after ∧ ¬ Cancelled calls before i

/-- It did so, and then took the lock of its check when no later call had taken the slot. -/
def ChecksCurrent (events : List (Event ι)) (i : ι) : Prop :=
  ∃ before between after, events = before ++ .readFlag i :: between ++ .checkCurrent i :: after ∧
    ¬ Cancelled calls before i ∧ ¬ Superseded (before ++ .readFlag i :: between) i

variable {calls} {events : List (Event ι)} {e : Event ι} {i j : ι} {s s' : Coordinator ι}

@[simp] theorem Coordinator.goto_phase_self (s : Coordinator ι) (i : ι) (phase : Phase) :
    (s.goto i phase).phase i = phase :=
  Function.update_self _ _ _

theorem Coordinator.goto_phase_ne (s : Coordinator ι) (phase : Phase) (h : j ≠ i) :
    (s.goto i phase).phase j = s.phase j :=
  Function.update_of_ne h _ _

@[simp] theorem Coordinator.install_phase_self (s : Coordinator ι) (i : ι) :
    (s.install calls i).phase i = .installed :=
  Function.update_self _ _ _

theorem Coordinator.install_phase_ne (s : Coordinator ι) (h : j ≠ i) :
    (s.install calls i).phase j = s.phase j :=
  Function.update_of_ne h _ _

/-- Taking the slot cancels the call that held it. -/
theorem Coordinator.install_cancelled : (s.install calls i).cancelled j = true ↔
    s.cancelled j = true ∨ ∃ entry, s.active = some entry ∧ entry.cancelled = j := by
  unfold Coordinator.install
  cases hactive : s.active with
  | none => simp
  | some previous =>
    dsimp only
    rw [Function.update_apply]
    by_cases hj : j = previous.cancelled
    · simp [hj]
    · simp [hj, Ne.symm hj]

/-- The step neither takes the slot nor cancels. -/
def Event.Quiet : Event ι → Prop
  | .install _ => False
  | .cancel _ accepted => accepted = false
  | _ => True

omit [DecidableEq ι] in
theorem Cancelled.snoc (h : Cancelled calls events i) (e : Event ι) :
    Cancelled calls (events ++ [e]) i :=
  List.mem_append_left _ h

omit [DecidableEq ι] in
theorem cancelled_quiet (he : e.Quiet) : Cancelled calls (events ++ [e]) i ↔ Cancelled calls events i := by
  unfold Cancelled
  rw [List.mem_append, List.mem_singleton]
  constructor
  · rintro (h | rfl)
    · exact h
    · cases he
  · exact .inl

omit [DecidableEq ι] in
theorem Superseded.snoc (h : Superseded events i) (e : Event ι) : Superseded (events ++ [e]) i := by
  obtain ⟨before, after, rfl, j, hj⟩ := h
  refine ⟨before, after ++ [e], ?_, j, List.mem_append_left _ hj⟩
  rw [List.append_assoc, List.cons_append]

omit [DecidableEq ι] in
/-- Only a call that takes the slot supersedes one that had taken it. -/
theorem superseded_snoc (h : Superseded (events ++ [e]) i) :
    Superseded events i ∨ (.install i ∈ events ∧ ∃ j, e = .install j) := by
  obtain ⟨before, after, heq, j, hj⟩ := h
  rcases List.eq_nil_or_concat after with rfl | ⟨after', last, rfl⟩
  · cases hj
  · rw [List.concat_eq_append, ← List.cons_append, ← List.append_assoc] at heq
    obtain ⟨rfl, hlast⟩ := List.append_inj' heq rfl
    obtain rfl := List.singleton_inj.mp hlast
    rw [List.concat_eq_append, List.mem_append, List.mem_singleton] at hj
    rcases hj with hj | rfl
    · exact .inl ⟨before, after', rfl, j, hj⟩
    · exact .inr ⟨List.mem_append_right _ List.mem_cons_self, j, rfl⟩

omit [DecidableEq ι] in
theorem superseded_quiet (he : e.Quiet) : Superseded (events ++ [e]) i ↔ Superseded events i := by
  constructor
  · intro h
    rcases superseded_snoc h with h | ⟨-, j, rfl⟩
    · exact h
    · exact he.elim
  · exact fun h => h.snoc e

omit [DecidableEq ι] in
theorem superseded_install (h : .install i ∈ events) : Superseded (events ++ [.install j]) i := by
  obtain ⟨before, after, rfl⟩ := List.append_of_mem h
  refine ⟨before, after ++ [.install j], ?_, j, List.mem_append_right _ List.mem_cons_self⟩
  rw [List.append_assoc, List.cons_append]

omit [DecidableEq ι] in
theorem not_superseded_first (h : .install i ∉ events) : ¬ Superseded (events ++ [.install i]) i := by
  intro hsuperseded
  rcases superseded_snoc hsuperseded with ⟨before, after, rfl, -⟩ | ⟨hmem, -⟩
  · exact h (List.mem_append_right _ List.mem_cons_self)
  · exact h hmem

omit [DecidableEq ι] in
theorem ReadsUncancelled.snoc (h : ReadsUncancelled calls events i) (e : Event ι) :
    ReadsUncancelled calls (events ++ [e]) i := by
  obtain ⟨before, after, rfl, hfree⟩ := h
  refine ⟨before, after ++ [e], ?_, hfree⟩
  rw [List.append_assoc, List.cons_append]

omit [DecidableEq ι] in
theorem ChecksCurrent.snoc (h : ChecksCurrent calls events i) (e : Event ι) :
    ChecksCurrent calls (events ++ [e]) i := by
  obtain ⟨before, between, after, rfl, hfree, hlatest⟩ := h
  refine ⟨before, between, after ++ [e], ?_, hfree, hlatest⟩
  rw [List.append_assoc, List.cons_append]

/-- The call is between taking the slot and giving it up. -/
def Phase.Waiting : Phase → Prop
  | .installed | .answered _ | .uncancelled _ | .current _ => True
  | .idle | .cleared _ | .returned _ => False

/-- What the phase of a call says about the steps so far. -/
def Phase.Tells (calls : ι → Call) (events : List (Event ι)) (i : ι) : Phase → Prop
  | .idle => .install i ∉ events
  | .installed | .answered _ | .returned (.refused _) => True
  | .uncancelled _ => ReadsUncancelled calls events i
  | .current _ | .cleared _ | .returned (.finished _) => ChecksCurrent calls events i
  | .returned .stale => Cancelled calls events i ∨ Superseded events i

structure Tracks (calls : ι → Call) (events : List (Event ι)) (s : Coordinator ι) : Prop where
  cancelled : ∀ i, Cancelled calls events i → s.cancelled i = true
  cause : ∀ i, s.cancelled i = true → Cancelled calls events i ∨ Superseded events i
  slot : ∀ entry, s.active = some entry → entry.requestId = (calls entry.cancelled).requestId ∧
    .install entry.cancelled ∈ events ∧ ¬ Superseded events entry.cancelled
  waiting : ∀ i, (s.phase i).Waiting → .install i ∈ events ∧
    (Superseded events i ∨ s.active = some ⟨(calls i).requestId, i⟩)
  story : ∀ i, (s.phase i).Tells calls events i

omit [DecidableEq ι] in
theorem tracks_initial : Tracks calls [] .initial where
  cancelled := nofun
  cause := nofun
  slot := nofun
  waiting := nofun
  story := fun _ => List.not_mem_nil

omit [DecidableEq ι] in
theorem Phase.Tells.snoc {phase : Phase} (h : phase.Tells calls events i) (he : e ≠ .install i) :
    phase.Tells calls (events ++ [e]) i := by
  match phase, h with
  | .idle, h =>
    intro hmem
    rcases List.mem_append.mp hmem with hmem | hmem
    · exact h hmem
    · exact he (List.mem_singleton.mp hmem).symm
  | .installed, _ | .answered _, _ | .returned (.refused _), _ => trivial
  | .uncancelled _, h => exact ReadsUncancelled.snoc h e
  | .current _, h | .cleared _, h | .returned (.finished _), h => exact ChecksCurrent.snoc h e
  | .returned .stale, h => exact h.imp (fun h => h.snoc e) fun h => h.snoc e

/-- A step of one call that leaves the slot and the flags alone. -/
theorem Tracks.goto (h : Tracks calls events s) {phase : Phase} (he : e.Quiet)
    (hwaits : phase.Waiting → (s.phase i).Waiting) (htells : phase.Tells calls (events ++ [e]) i) :
    Tracks calls (events ++ [e]) (s.goto i phase) where
  cancelled := fun j hj => h.cancelled j ((cancelled_quiet he).mp hj)
  cause := fun j hj => (h.cause j hj).imp (fun hc => hc.snoc e) fun hs => hs.snoc e
  slot := fun entry hentry => by
    obtain ⟨hid, hmem, hlatest⟩ := h.slot entry hentry
    exact ⟨hid, List.mem_append_left _ hmem, fun hs => hlatest ((superseded_quiet he).mp hs)⟩
  waiting := fun j hj => by
    have hbefore : (s.phase j).Waiting := by
      by_cases hji : j = i
      · subst hji
        rw [Coordinator.goto_phase_self] at hj
        exact hwaits hj
      · rwa [Coordinator.goto_phase_ne s phase hji] at hj
    obtain ⟨hmem, hslot⟩ := h.waiting j hbefore
    exact ⟨List.mem_append_left _ hmem, hslot.imp_left fun hs => hs.snoc e⟩
  story := fun j => by
    by_cases hji : j = i
    · subst hji
      rw [Coordinator.goto_phase_self]
      exact htells
    · rw [Coordinator.goto_phase_ne s phase hji]
      refine (h.story j).snoc ?_
      rintro rfl
      exact he

theorem Tracks.install (h : Tracks calls events s) (hidle : s.phase i = .idle) :
    Tracks calls (events ++ [.install i]) (s.install calls i) where
  cancelled := fun j hj => by
    rcases List.mem_append.mp hj with hj | hj
    · exact Coordinator.install_cancelled.mpr (.inl (h.cancelled j hj))
    · cases List.mem_singleton.mp hj
  cause := fun j hj => by
    rcases Coordinator.install_cancelled.mp hj with hj | ⟨entry, hentry, rfl⟩
    · exact (h.cause j hj).imp (fun hc => hc.snoc _) fun hs => hs.snoc _
    · exact .inr (superseded_install (h.slot entry hentry).2.1)
  slot := fun entry hentry => by
    obtain rfl := Option.some.inj hentry
    have hfirst : .install i ∉ events := by
      have htells := h.story i
      rw [hidle] at htells
      exact htells
    exact ⟨rfl, List.mem_append_right _ List.mem_cons_self, not_superseded_first hfirst⟩
  waiting := fun j hj => by
    by_cases hji : j = i
    · subst hji
      exact ⟨List.mem_append_right _ List.mem_cons_self, .inr rfl⟩
    · rw [Coordinator.install_phase_ne s hji] at hj
      obtain ⟨hmem, -⟩ := h.waiting j hj
      exact ⟨List.mem_append_left _ hmem, .inl (superseded_install hmem)⟩
  story := fun j => by
    by_cases hji : j = i
    · subst hji
      rw [Coordinator.install_phase_self]
      trivial
    · rw [Coordinator.install_phase_ne s hji]
      exact (h.story j).snoc fun heq => hji (Event.install.inj heq).symm

omit [DecidableEq ι] in
theorem Tracks.quiet (h : Tracks calls events s) (he : e.Quiet) : Tracks calls (events ++ [e]) s where
  cancelled := fun j hj => h.cancelled j ((cancelled_quiet he).mp hj)
  cause := fun j hj => (h.cause j hj).imp (fun hc => hc.snoc e) fun hs => hs.snoc e
  slot := fun entry hentry => by
    obtain ⟨hid, hmem, hlatest⟩ := h.slot entry hentry
    exact ⟨hid, List.mem_append_left _ hmem, fun hs => hlatest ((superseded_quiet he).mp hs)⟩
  waiting := fun j hj => by
    obtain ⟨hmem, hslot⟩ := h.waiting j hj
    exact ⟨List.mem_append_left _ hmem, hslot.imp_left fun hs => hs.snoc e⟩
  story := fun j => (h.story j).snoc fun heq => by
    subst heq
    exact he

/-- An accepted cancellation marks the call that holds the slot. -/
theorem Tracks.cancel (hids : Function.Injective fun i => (calls i).requestId)
    (h : Tracks calls events s) (requestId : String) :
    Tracks calls (events ++ [.cancel requestId (s.cancel requestId).2]) (s.cancel requestId).1 := by
  unfold Coordinator.cancel
  cases hactive : s.active with
  | none => exact h.quiet rfl
  | some entry =>
    dsimp only
    split_ifs with hmatch
    · obtain ⟨hid, hmem, hlatest⟩ := h.slot entry hactive
      have hsame : ∀ j, Cancelled calls (events ++ [.cancel requestId true]) j ↔
          Cancelled calls events j ∨ j = entry.cancelled := by
        intro j
        unfold Cancelled
        rw [List.mem_append, List.mem_singleton]
        refine or_congr_right ⟨fun heq => hids ?_, ?_⟩
        · exact ((Event.cancel.inj heq).1.trans hmatch.symm).trans hid
        · rintro rfl
          rw [← hid, hmatch]
      have hkept : ∀ j, Superseded (events ++ [.cancel requestId true]) j → Superseded events j := by
        intro j hs
        rcases superseded_snoc hs with hs | ⟨-, k, heq⟩
        · exact hs
        · cases heq
      constructor
      · intro j hj
        rcases (hsame j).mp hj with hj | rfl
        · dsimp only
          rw [Function.update_apply]
          split_ifs
          · rfl
          · exact h.cancelled j hj
        · exact Function.update_self _ _ _
      · intro j hj
        by_cases hje : j = entry.cancelled
        · exact .inl ((hsame j).mpr (.inr hje))
        · dsimp only at hj
          rw [Function.update_of_ne hje] at hj
          exact (h.cause j hj).imp (fun hc => hc.snoc _) fun hs => hs.snoc _
      · intro other hother
        obtain ⟨hid', hmem', hlatest'⟩ := h.slot other (hactive.trans hother)
        exact ⟨hid', List.mem_append_left _ hmem', fun hs => hlatest' (hkept _ hs)⟩
      · intro j hj
        obtain ⟨hmem', hslot⟩ := h.waiting j hj
        exact ⟨List.mem_append_left _ hmem',
          hslot.imp (fun hs => hs.snoc _) fun hown => hactive.symm.trans hown⟩
      · exact fun j => (h.story j).snoc nofun
    · exact h.quiet rfl

omit [DecidableEq ι] in
/-- The slot is held for the request of a call only by the call itself. -/
theorem Tracks.holds (hids : Function.Injective fun i => (calls i).requestId)
    (h : Tracks calls events s) : s.holds (calls i).requestId = true ↔
      s.active = some ⟨(calls i).requestId, i⟩ := by
  unfold Coordinator.holds
  cases hactive : s.active with
  | none => exact iff_of_false Bool.false_ne_true nofun
  | some entry =>
    rw [Option.any_some, decide_eq_true_eq, Option.some.injEq]
    constructor
    · intro hid
      obtain rfl := hids (hid.symm.trans (h.slot entry hactive).1)
      obtain ⟨requestId, cancelled⟩ := entry
      dsimp only at hid
      rw [hid]
    · rintro rfl
      rfl

omit [DecidableEq ι] in
/-- A call that has given its turn up empties the slot, if it holds it. -/
theorem Tracks.clearIfCurrent (hids : Function.Injective fun i => (calls i).requestId)
    (h : Tracks calls events s) (hdone : ¬ (s.phase i).Waiting) :
    Tracks calls events (s.clearIfCurrent (calls i).requestId) := by
  unfold Coordinator.clearIfCurrent
  split_ifs with hheld
  · have hactive := (h.holds hids).mp hheld
    refine ⟨h.cancelled, h.cause, nofun, fun j hj => ?_, h.story⟩
    obtain ⟨hmem, hslot⟩ := h.waiting j hj
    refine ⟨hmem, .inl (hslot.resolve_right fun hown => ?_)⟩
    rw [hactive] at hown
    obtain rfl := (ActiveSearch.mk.inj (Option.some.inj hown)).2
    exact hdone hj
  · exact h

theorem Coordinator.clearIfCurrent_goto (s : Coordinator ι) (requestId : String) (i : ι)
    (phase : Phase) :
    (s.clearIfCurrent requestId).goto i phase = (s.goto i phase).clearIfCurrent requestId := by
  have hholds : (s.goto i phase).holds requestId = s.holds requestId := rfl
  unfold Coordinator.clearIfCurrent
  rw [hholds]
  split_ifs <;> rfl

theorem Tracks.readFlag (h : Tracks calls events s) {answer : Answer}
    (hphase : s.phase i = .answered answer) :
    Tracks calls (events ++ [.readFlag i])
      (s.goto i (if s.cancelled i then .returned .stale else .uncancelled answer)) := by
  split_ifs with hflag
  · exact h.goto trivial nofun ((h.cause i hflag).imp (fun hc => hc.snoc _) fun hs => hs.snoc _)
  · refine h.goto trivial (fun _ => by rw [hphase]; trivial) ⟨events, [], rfl, fun hc => ?_⟩
    exact hflag (h.cancelled i hc)

theorem Tracks.checkCurrent (hids : Function.Injective fun i => (calls i).requestId)
    (h : Tracks calls events s) {answer : Answer} (hphase : s.phase i = .uncancelled answer) :
    Tracks calls (events ++ [.checkCurrent i]) (s.goto i
      (if s.holds (calls i).requestId then .current answer else .returned .stale)) := by
  have hread : ReadsUncancelled calls events i := by
    have hstory := h.story i
    rw [hphase] at hstory
    exact hstory
  have hwaiting : (s.phase i).Waiting := by
    rw [hphase]
    trivial
  split_ifs with hheld
  · obtain ⟨-, -, hlatest⟩ := h.slot _ ((h.holds hids).mp hheld)
    obtain ⟨before, between, rfl, hfree⟩ := hread
    exact h.goto trivial (fun _ => hwaiting) ⟨before, between, [], rfl, hfree, hlatest⟩
  · rcases (h.waiting i hwaiting).2 with hsuperseded | hown
    · exact h.goto trivial nofun (.inr (hsuperseded.snoc _))
    · exact absurd ((h.holds hids).mpr hown) hheld

/-- Each step keeps what the phases say. -/
theorem step_tracks (hids : Function.Injective fun i => (calls i).requestId)
    (h : Tracks calls events s) (hstep : s.step calls e = some s') : Tracks calls (events ++ [e]) s' := by
  cases e with
  | refuse i =>
    dsimp only [Coordinator.step] at hstep
    split at hstep
    · split_ifs at hstep
      obtain rfl := Option.some.inj hstep
      exact h.goto trivial nofun trivial
    · split_ifs at hstep
      obtain rfl := Option.some.inj hstep
      exact h.goto trivial nofun trivial
    · cases hstep
  | install i =>
    dsimp only [Coordinator.step] at hstep
    split at hstep
    next hphase =>
      split_ifs at hstep
      obtain rfl := Option.some.inj hstep
      exact h.install hphase
    next => cases hstep
  | exchange i answer =>
    dsimp only [Coordinator.step] at hstep
    split at hstep
    next hphase =>
      split_ifs at hstep
      obtain rfl := Option.some.inj hstep
      exact h.goto trivial (fun _ => by rw [hphase]; trivial) trivial
    next => cases hstep
  | readFlag i =>
    dsimp only [Coordinator.step] at hstep
    split at hstep
    next answer hphase =>
      obtain rfl := Option.some.inj hstep
      exact h.readFlag hphase
    next => cases hstep
  | checkCurrent i =>
    dsimp only [Coordinator.step] at hstep
    split at hstep
    next answer hphase =>
      obtain rfl := Option.some.inj hstep
      exact h.checkCurrent hids hphase
    next => cases hstep
  | clear i =>
    dsimp only [Coordinator.step] at hstep
    split at hstep
    next answer hphase =>
      obtain rfl := Option.some.inj hstep
      have hstory : ChecksCurrent calls events i := by
        have hstory := h.story i
        rw [hphase] at hstory
        exact hstory
      rw [Coordinator.clearIfCurrent_goto]
      refine Tracks.clearIfCurrent hids (h.goto trivial nofun (hstory.snoc _)) ?_
      rw [Coordinator.goto_phase_self]
      exact not_false
    next => cases hstep
  | finish i =>
    dsimp only [Coordinator.step] at hstep
    split at hstep
    next answer hphase =>
      obtain rfl := Option.some.inj hstep
      have hstory : ChecksCurrent calls events i := by
        have hstory := h.story i
        rw [hphase] at hstory
        exact hstory
      exact h.goto trivial nofun (hstory.snoc _)
    next => cases hstep
  | cancel requestId accepted =>
    dsimp only [Coordinator.step] at hstep
    split_ifs at hstep with haccepted
    obtain rfl := Option.some.inj hstep
    subst haccepted
    exact h.cancel hids requestId

theorem run_tracks (hids : Function.Injective fun i => (calls i).requestId)
    (h : Coordinator.run calls events = some s) : Tracks calls events s := by
  induction events using List.reverseRecOn generalizing s with
  | nil =>
    obtain rfl := Option.some.inj h
    exact tracks_initial
  | append_singleton events e ih =>
    rw [Coordinator.run, List.foldlM_append] at h
    obtain ⟨s₁, h₁, hlast⟩ := Option.bind_eq_some_iff.mp h
    rw [List.foldlM_cons] at hlast
    obtain ⟨s₂, hstep, hlast⟩ := Option.bind_eq_some_iff.mp hlast
    obtain rfl := Option.some.inj hlast
    exact step_tracks hids (ih h₁) hstep

/-- Only the latest search answers, and a search that nothing overtook is not
rejected as stale. -/
theorem latest_search_answers (hids : Function.Injective fun i => (calls i).requestId)
    (h : Coordinator.run calls events = some s) (i : ι) :
    (∀ result, s.phase i = .returned (.finished result) → ChecksCurrent calls events i) ∧
      (s.phase i = .returned .stale → Cancelled calls events i ∨ Superseded events i) := by
  have hstory := (run_tracks hids h).story i
  constructor
  · intro result hphase
    rw [hphase] at hstory
    exact hstory
  · intro hphase
    rw [hphase] at hstory
    exact hstory

end System

section Example

/-- Two searches of one window. -/
def twoCalls : Bool → Call
  | false => ⟨.catalog, "request-a", "architecture"⟩
  | true => ⟨.content, "request-b", "architecture v2"⟩

def unavailable : Answer := .error ⟨.unavailable, "Search service is unavailable"⟩

/-- The second search overtakes the first while both wait for their answers. -/
def overtaken : List (Event Bool) :=
  [.install false, .install true, .exchange false unavailable, .exchange true unavailable,
    .readFlag true, .checkCurrent true, .clear true, .cancel "request-b" false, .finish true,
    .readFlag false]

theorem overtaken_answers :
    ∃ s, Coordinator.run twoCalls overtaken = some s ∧ s.phase false = .returned .stale ∧
      (s.phase true = .returned (.finished (.error ⟨.unavailable, "Search service is unavailable"⟩))) ∧
      (∀ i, (∀ result, s.phase i = .returned (.finished result) → ChecksCurrent twoCalls overtaken i) ∧
        (s.phase i = .returned .stale → Cancelled twoCalls overtaken i ∨ Superseded overtaken i)) := by
  have hids : Function.Injective fun i => (twoCalls i).requestId := by
    intro a b hab
    cases a <;> cases b <;> first | rfl | exact absurd hab (by decide)
  exact ⟨_, rfl, rfl, rfl, latest_search_answers hids rfl⟩

end Example

end LocalSearch.Desktop
