import LocalSearch.Broker.Api
import LocalSearch.Lib.Table
import LocalSearch.Lib.Spacing
import Mathlib.Data.Finset.Insert
import Mathlib.Data.Finset.Erase

/-!
# The broker service

The dispatcher checks the contract, admits each request identifier once per
replay window and answers from the provider. A scan runs in a worker of its own
that hands its events over through a bounded queue; whatever the worker does
between two receives is given by the number of turns it gets.
-/
namespace LocalSearch.Broker

set_option autoImplicit false

open Core Lib

def maxActiveScans : Nat := 4
def scanQueueEvents : Nat := 256
def replayWindowRequests : Nat := 4096

structure ServiceError where
  code : BrokerErrorCode
  message : String
  deriving DecidableEq, Repr

def platformError (error : PlatformError) : ServiceError :=
  let code := match error.kind with
    | .permissionDenied => BrokerErrorCode.permissionDenied
    | .unsupported | .invalidCheckpoint => .unsupported
    | .unavailable | .io => .unavailable
    | .sourceHistoryGap => .sourceHistoryGap
    | .resourceExhausted => .resourceExhausted
    | .cancelled => .cancelled
    | .internal => .internal
  ⟨code, "filesystem metadata operation failed"⟩

def contractFailure (requestId : String) (error : BrokerContractError) : BrokerResponse :=
  let code := match error with
    | .unsupportedProtocolVersion => BrokerErrorCode.unsupportedProtocolVersion
    | .unsupportedCodecVersion => .unsupportedCodecVersion
    | .invalidRequest _ => .invalidRequest
  .failure requestId code "broker request contract rejected"

structure ReplayWindow where
  capacity : Nat
  order : List String
  present : Finset String
  deriving DecidableEq

def ReplayWindow.new (capacity : Nat) : ReplayWindow := ⟨capacity, [], ∅⟩

/-- Admit an identifier that is not present and forget the oldest one beyond
the capacity. -/
def ReplayWindow.admit (window : ReplayWindow) (requestId : String) : Option ReplayWindow :=
  if requestId ∈ window.present then none
  else
    let present := insert requestId window.present
    let order := window.order ++ [requestId]
    if window.capacity < order.length then
      match order with
      | [] => some ⟨window.capacity, order, present⟩
      | expired :: order => some ⟨window.capacity, order, present.erase expired⟩
    else some ⟨window.capacity, order, present⟩

inductive ScanMessage where
  | event (event : FilesystemEvent)
  | terminal (result : PlatformResult ScanSummary)
  deriving DecidableEq

/-- A server-owned scan: the receiving side of the queue, and the worker with
the messages it still has to send. A worker that has ended holds no sender. -/
structure ScanState where
  queue : List ScanMessage
  unsent : List ScanMessage
  running : Bool
  pendingTerminal : Option (PlatformResult ScanSummary)
  deriving DecidableEq

/-- One turn of the worker: try to send the next message, or end. A full queue
makes it try again later. -/
def ScanState.produce (scan : ScanState) : ScanState :=
  match scan.unsent with
  | [] => { scan with running := false }
  | message :: rest =>
      if scan.queue.length < scanQueueEvents then
        { scan with queue := scan.queue ++ [message], unsent := rest }
      else scan

def scanWorkerStopped : PlatformError :=
  ⟨.internal, "scan_worker", "scan producer stopped without terminal state"⟩

/-- The receive loop with room for `n` more events; `turns` says how far the
worker gets before each receive. -/
def ScanState.receive (turns : Nat → Nat) :
    Nat → ScanState → List FilesystemEvent × Option (PlatformResult ScanSummary) × ScanState
  | 0, scan => ([], none, scan)
  | n + 1, scan =>
      let scan := ScanState.produce^[turns n] scan
      match scan.queue with
      | [] => ([], if scan.running then none else some (.error scanWorkerStopped), scan)
      | .terminal result :: queue => ([], some result, { scan with queue := queue })
      | .event event :: queue =>
          let (events, terminal, scan) := receive turns n { scan with queue := queue }
          (event :: events, terminal, scan)

structure BrokerService where
  replay : ReplayWindow
  scans : Table Nat ScanState
  nextScanId : Nat
  deriving DecidableEq

def BrokerService.new : BrokerService := ⟨.new replayWindowRequests, .empty, 1⟩

inductive Interruption where
  | cancelled
  | deadlineExceeded
  deriving DecidableEq, Repr

def Interruption.error : Interruption → ServiceError
  | .cancelled => ⟨.cancelled, "broker request cancelled"⟩
  | .deadlineExceeded => ⟨.deadlineExceeded, "broker request deadline exceeded"⟩

/-- What a request meets while it is dispatched: cancellation and the clock at
each check, the answers of the provider, and the turns of the scan worker. -/
structure Surroundings where
  cancelled : Bool
  atEntry : Option Interruption
  beforeScan : Option Interruption
  capabilities : PlatformCapabilities
  volumes : PlatformResult (List VolumeDescriptor)
  scan : List FilesystemEvent × PlatformResult ScanSummary
  turns : Nat → Nat
  changes : PlatformResult (List FilesystemEvent × ChangeBatch)

def checkRequest : Option Interruption → Except ServiceError Unit
  | none => .ok ()
  | some interruption => .error interruption.error

def capabilities (provider : PlatformCapabilities) : BrokerCapabilities where
  protocolVersions := [brokerProtocolVersion]
  codecVersions := [brokerCodecVersion]
  allowedOperations := [.brokerGetCapabilities, .discoverVolumes, .startScan, .readScanPage,
    .cancelScan, .readChanges]
  maximumFrameBytes := maxBrokerFrameBytes
  maximumPageEvents := maxBrokerPageEvents
  maximumActiveScans := maxActiveScans
  provider := provider

abbrev ServiceAnswer := BrokerService × Except ServiceError BrokerPayload

/-- A scan that has just been started. -/
def ScanState.started (events : List FilesystemEvent) (result : PlatformResult ScanSummary) :
    ScanState :=
  ⟨[], events.map .event ++ [.terminal result], true, none⟩

def startScan (service : BrokerService) (around : Surroundings) (volumeId : VolumeId) :
    ServiceAnswer :=
  match around.volumes with
  | .error error => (service, .error (platformError error))
  | .ok volumes =>
      match volumes.find? (·.volumeId = volumeId) with
      | none => (service, .error ⟨.notFound, "volume is unavailable"⟩)
      | some _ =>
          match checkRequest around.beforeScan with
          | .error error => (service, .error error)
          | .ok () =>
              if maxActiveScans ≤ service.scans.rows.length then
                (service, .error ⟨.resourceExhausted, "active scan limit reached"⟩)
              else
                let scanId := service.nextScanId
                ({ service with
                    scans := service.scans.insert scanId (.started around.scan.1 around.scan.2)
                    nextScanId := (scanId + 1) % 2 ^ 64 },
                  .ok (.scanStarted scanId))

/-- An unfinished page. -/
def ScanPage.more (events : List FilesystemEvent) : ScanPage := ⟨events, none, false, true⟩

def readScanPage (service : BrokerService) (turns : Nat → Nat) (scanId maximumEvents : Nat) :
    ServiceAnswer :=
  match service.scans.get scanId with
  | none => (service, .error ⟨.notFound, "scan is not active"⟩)
  | some scan =>
      let (events, terminal, scan') := match scan.pendingTerminal with
        | some result => ([], some result, { scan with pendingTerminal := none })
        | none => scan.receive turns maximumEvents
      match terminal with
      | none =>
          ({ service with scans := service.scans.insert scanId scan' }, .ok (.scanPage (.more events)))
      | some result =>
          if events ≠ [] then
            ({ service with
                scans := service.scans.insert scanId { scan' with pendingTerminal := some result } },
              .ok (.scanPage (.more events)))
          else
            ({ service with scans := service.scans.erase scanId },
              match result with
              | .ok summary => .ok (.scanPage ⟨events, some summary.checkpoint, true, false⟩)
              | .error error => .error (platformError error))

def cancelScan (service : BrokerService) (scanId : Nat) : ServiceAnswer :=
  match service.scans.get scanId with
  | none => (service, .error ⟨.notFound, "scan is not active"⟩)
  | some _ => ({ service with scans := service.scans.erase scanId }, .ok (.scanCancelled scanId))

def readChanges (service : BrokerService) (around : Surroundings) : ServiceAnswer :=
  match around.changes with
  | .error error => (service, .error (platformError error))
  | .ok (events, batch) => (service, .ok (.changes events batch))

def dispatchOperation (service : BrokerService) (around : Surroundings) (operation : BrokerOperation) :
    ServiceAnswer :=
  match checkRequest around.atEntry with
  | .error error => (service, .error error)
  | .ok () =>
      match operation with
      | .brokerGetCapabilities => (service, .ok (.capabilities (capabilities around.capabilities)))
      | .discoverVolumes =>
          match around.volumes with
          | .error error => (service, .error (platformError error))
          | .ok volumes => (service, .ok (.volumes volumes))
      | .startScan volumeId _ => startScan service around volumeId
      | .readScanPage scanId maximumEvents => readScanPage service around.turns scanId maximumEvents
      | .cancelScan scanId => cancelScan service scanId
      | .readChanges _ _ => readChanges service around

def replayRejectedMessage : String :=
  "request identifier was replayed or replay state is unavailable"

def dispatch (service : BrokerService) (around : Surroundings) (request : BrokerRequest) :
    BrokerService × BrokerResponse :=
  let requestId :=
    if request.requestId.utf8ByteSize ≤ maxBrokerRequestIdBytes then request.requestId else ""
  match request.validate with
  | .error error => (service, contractFailure requestId error)
  | .ok () =>
      match service.replay.admit request.requestId with
      | none => (service, .failure requestId .replayRejected replayRejectedMessage)
      | some replay =>
          let service := { service with replay := replay }
          if around.cancelled then
            (service, .failure requestId .cancelled "broker request cancelled")
          else
            let (service, result) := dispatchOperation service around request.operation
            match result with
            | .ok payload => (service, .success requestId payload)
            | .error error => (service, .failure requestId error.code error.message)

/-- The window holds the last identifiers of what it admitted, each once. -/
structure ReplayWindow.Holds (window : ReplayWindow) (admitted : List String) : Prop where
  order : window.order = admitted.rtake window.capacity
  present : ∀ id, id ∈ window.present ↔ id ∈ window.order
  nodup : window.order.Nodup

theorem ReplayWindow.holds_new (capacity : Nat) : (ReplayWindow.new capacity).Holds [] :=
  ⟨by simp [ReplayWindow.new], by simp [ReplayWindow.new], List.nodup_nil⟩

theorem ReplayWindow.admit_eq_none {window : ReplayWindow} {admitted : List String} {id : String}
    (h : window.Holds admitted) : window.admit id = none ↔ id ∈ admitted.rtake window.capacity := by
  rw [← h.order, ← h.present, ReplayWindow.admit]
  by_cases hmem : id ∈ window.present
  · simp [hmem]
  · cases hq : window.order ++ [id] with
    | nil => simp at hq
    | cons expired rest =>
      simp only [hmem, if_false, iff_false]
      split_ifs <;> simp

/-- An admitted identifier takes the place of the oldest one. -/
theorem ReplayWindow.holds_admit {window window' : ReplayWindow} {admitted : List String}
    {id : String} (h : window.Holds admitted) (hcapacity : 0 < window.capacity)
    (hgranted : window.admit id = some window') :
    window'.Holds (admitted ++ [id]) ∧ window'.capacity = window.capacity := by
  have hlen : window.order.length = min window.capacity admitted.length := by
    rw [h.order, List.rtake, List.length_drop]
    omega
  have hfresh : id ∉ window.order := by
    intro hmem
    have := (admit_eq_none h).mpr (h.order ▸ hmem)
    rw [this] at hgranted
    cases hgranted
  have hnodup : (window.order ++ [id]).Nodup := by
    rw [List.nodup_append]
    refine ⟨h.nodup, List.nodup_singleton _, fun a ha b hb hab => hfresh ?_⟩
    rw [List.mem_singleton] at hb
    rw [← hb, ← hab]
    exact ha
  have hpresent : ∀ x, x ∈ insert id window.present ↔ x ∈ window.order ++ [id] := by
    intro x
    rw [Finset.mem_insert, h.present, List.mem_append, List.mem_singleton, or_comm]
  have hrtake : (admitted ++ [id]).rtake window.capacity =
      admitted.rtake (window.capacity - 1) ++ [id] := by
    obtain ⟨n, hn⟩ := Nat.exists_eq_succ_of_ne_zero hcapacity.ne'
    rw [hn, List.rtake_concat_succ]
    rfl
  rw [ ReplayWindow.admit, if_neg (fun hmem => hfresh ((h.present id).mp hmem))] at hgranted
  dsimp only at hgranted
  split_ifs at hgranted with hfull
  · rw [List.length_append, List.length_singleton] at hfull
    -- the window is full, so the oldest identifier leaves
    cases horder : window.order with
    | nil =>
      rw [horder, List.length_nil] at hfull
      omega
    | cons expired rest =>
      rw [horder, List.cons_append] at hgranted hnodup hpresent
      obtain rfl := Option.some.inj hgranted
      refine ⟨⟨?_, fun x => ?_, (List.nodup_cons.mp hnodup).2⟩, rfl⟩
      · have htail : admitted.rtake (window.capacity - 1) = rest := by
          have hdrop := h.order
          rw [horder, List.rtake] at hdrop
          rw [List.rtake, ← @List.tail_cons _ expired rest, hdrop, List.tail_drop]
          congr 1
          rw [horder, List.length_cons] at hlen
          rw [horder, List.length_cons] at hfull
          omega
        dsimp only
        rw [hrtake, htail]
      · dsimp only
        rw [Finset.mem_erase, hpresent, List.mem_cons]
        constructor
        · rintro ⟨hne, rfl | hx⟩
          · exact absurd rfl hne
          · exact hx
        · intro hx
          refine ⟨fun he => ?_, Or.inr hx⟩
          rw [he] at hx
          exact (List.nodup_cons.mp hnodup).1 hx
  · obtain rfl := Option.some.inj hgranted
    rw [List.length_append, List.length_singleton] at hfull
    refine ⟨⟨?_, hpresent, hnodup⟩, rfl⟩
    dsimp only
    rw [hrtake, h.order, List.rtake, List.rtake]
    congr 2
    omega

/-- One identifier is presented, beside the list of what was admitted. -/
def ReplayWindow.offer (state : ReplayWindow × List String) (requestId : String) :
    ReplayWindow × List String :=
  match ReplayWindow.admit state.1 requestId with
  | none => state
  | some window => (window, state.2 ++ [requestId])

theorem ReplayWindow.holds_offer {state : ReplayWindow × List String} (h : state.1.Holds state.2)
    (hcapacity : 0 < state.1.capacity) (id : String) :
    (offer state id).1.Holds (offer state id).2 ∧
      (offer state id).1.capacity = state.1.capacity := by
  rw [offer]
  cases hgranted : ReplayWindow.admit state.1 id with
  | none => exact ⟨h, rfl⟩
  | some window => exact holds_admit h hcapacity hgranted

theorem ReplayWindow.holds_offers {state : ReplayWindow × List String} (h : state.1.Holds state.2)
    (hcapacity : 0 < state.1.capacity) (ids : List String) :
    (ids.foldl offer state).1.Holds (ids.foldl offer state).2 ∧
      (ids.foldl offer state).1.capacity = state.1.capacity := by
  induction ids generalizing state with
  | nil => exact ⟨h, rfl⟩
  | cons id rest ih =>
    obtain ⟨hnext, hkept⟩ := holds_offer h hcapacity id
    obtain ⟨hholds, hlast⟩ := ih hnext (hkept.symm ▸ hcapacity)
    exact ⟨hholds, hlast.trans hkept⟩

/-- The window admits exactly what is not among the last identifiers it admitted. -/
theorem replay_window_exact {capacity : Nat} (hcapacity : 0 < capacity) (ids : List String) :
    let run := ids.foldl ReplayWindow.offer (.new capacity, [])
    (∀ id, id ∈ run.1.present ↔ id ∈ run.1.order) ∧ run.1.order.Nodup ∧
      run.1.order.length ≤ capacity ∧
      ∀ id, ( ReplayWindow.admit run.1 id).isSome ↔ id ∉ run.2.rtake capacity := by
  intro run
  obtain ⟨hholds, hkept⟩ := @ReplayWindow.holds_offers (.new capacity, [])
    (ReplayWindow.holds_new capacity) hcapacity ids
  have hlength : run.1.order.length ≤ capacity := by
    rw [hholds.order, hkept, List.rtake, List.length_drop]
    show _ - (_ - capacity) ≤ capacity
    omega
  refine ⟨hholds.present, hholds.nodup, hlength, fun id => ?_⟩
  have hnone : ReplayWindow.admit run.1 id = none ↔ id ∈ run.2.rtake run.1.capacity :=
    ReplayWindow.admit_eq_none hholds
  rw [hkept] at hnone
  rw [Option.isSome_iff_ne_none]
  exact not_congr hnone

/-- Rejected identifiers neither refresh an entry nor push one out. -/
theorem window_of_two :
    let run := ["a", "b", "a", "c", "b"].foldl ReplayWindow.offer (.new 2, [])
    run.2 = ["a", "b", "c"] ∧ (( ReplayWindow.admit run.1 "a").isSome ↔ "a" ∉ run.2.rtake 2) :=
  ⟨by decide, (replay_window_exact (by decide) ["a", "b", "a", "c", "b"]).2.2.2 "a"⟩

end LocalSearch.Broker
