import LocalSearch.Content.Generation

/-!
# Resuming a candidate

One call of `resume_initial_generation` on the manager and one graph. Each turn
reads a page behind the cursor of the record, commits it to the index and then
writes the record; a process that dies in between leaves the commit without the
record. The call ends at a limit, after its batches, or at an empty page, where
the documents of the index are counted.
-/
namespace LocalSearch.Content

set_option autoImplicit false

open Core Lib Graph Catalog

/-- What a call reads and measures. Its turns are numbered by the batches left,
the crashes of the test hook by the commit they follow. -/
structure ResumeCall where
  graph : FilesystemGraph
  sources : Sources
  policy : ContentIndexPolicy
  limits : ContentGenerationLimits
  disk : Nat → Disk
  stamp : Nat → Nat
  bytes : Nat → Nat
  now : Nat
  newId : String
  crashAfterCommit : Nat → Bool

/-- How one turn of the loop ends. -/
inductive PageTurn where
  | limited (limit : ContentCapacityLimit)
  | failed (generation : Generation) (error : ContentIndexError)
  | noPage
  | recorded (generation : Generation)

/-- How a call ends. -/
inductive ResumeEnd where
  | paused (limit : Option ContentCapacityLimit)
  | failed (error : ContentIndexError)
  | complete
  deriving DecidableEq

structure ContentGenerationSummary where
  generation : ContentGenerationRecord
  complete : Bool
  capacityLimited : Bool
  deriving DecidableEq

def simulatedCrash : ContentIndexError := .io "simulated crash after content commit"

section Turns

variable [CaseMapping] (contentHash : String → String)

/-- One turn of the loop on a generation as it is on disk. -/
def ResumeCall.turn (call : ResumeCall) (n : Nat) (generation : Generation) : PageTurn :=
  let record := generation.record
  let disk := call.disk n
  match limitBefore call.limits disk record with
  | some limit => .limited limit
  | none =>
      match desiredCatalogPage call.graph record.lastCheckpoint (pageLimit call.limits record) with
      | .error error => .failed generation (.graph error)
      | .ok [] => .noPage
      | .ok page =>
          let declared := declaredBytes call.policy page
          match limitAfter call.limits disk declared page.length with
          | some limit => .limited limit
          | none =>
              match applyDelta call.sources contentHash call.policy generation.index page [] with
              | .error error => .failed generation error
              | .ok (index, outcomes) =>
                  if call.crashAfterCommit (record.commits + 1) then
                    .failed { generation with index := index } simulatedCrash
                  else
                    .recorded ⟨record.advance page declared outcomes (call.stamp n) (call.bytes n)
                      call.now, index⟩

/-- The record written behind the loop. -/
def ResumeCall.pause (call : ResumeCall) (generation : Generation)
    (limit : Option ContentCapacityLimit) : Generation :=
  { generation with record := { generation.record with
      capacityLimit := limit, contentIndexBytes := call.bytes 0, updatedAtUnixMs := call.now } }

/-- The count check of `activate_validated`, and the state it writes. -/
def ResumeCall.activateValidated (call : ResumeCall) (generation : Generation) :
    Generation × ResumeEnd :=
  let record := { generation.record with capacityLimit := none }
  if generation.index.length ≠ record.documentsProjected then
    (ContentGenerationManager.writeState .failed call.now ⟨record, generation.index⟩,
      .failed .missingPayload)
  else
    (call.pause (ContentGenerationManager.writeState .active call.now ⟨record, generation.index⟩) none,
      .complete)

/-- The loop, by the batches left. -/
def ResumeCall.turns (call : ResumeCall) : Nat → Generation → Generation × ResumeEnd
  | 0, generation => (call.pause generation none, .paused none)
  | n + 1, generation =>
      match call.turn contentHash n generation with
      | .limited limit => (call.pause generation (some limit), .paused (some limit))
      | .failed generation error => (generation, .failed error)
      | .noPage => call.activateValidated generation
      | .recorded generation => call.turns n generation

/-- What a call does to the candidate it goes on with. -/
def ResumeCall.resume (call : ResumeCall) (generation : Generation) : Generation × ResumeEnd :=
  match call.limits.validate with
  | .error error => (generation, .failed error)
  | .ok limits => call.turns contentHash limits.maximumBatches generation

end Turns

section Turn

variable [CaseMapping]

/-- The page that a turn reads. -/
def ResumeCall.page (call : ResumeCall) (generation : Generation) : GraphResult (List CatalogDocument) :=
  desiredCatalogPage call.graph generation.record.lastCheckpoint
    (pageLimit call.limits generation.record)

/-- A turn stops at a limit, fails, finds no page, or commits one; the commit is
recorded unless the process dies behind it. -/
inductive TurnSpec (contentHash : String → String) (call : ResumeCall) (n : Nat)
    (generation : Generation) : PageTurn → Prop
  | limited {limit : ContentCapacityLimit}
      (hbefore : limitBefore call.limits (call.disk n) generation.record = some limit) :
      TurnSpec contentHash call n generation (.limited limit)
  | unreadable {error : GraphError}
      (hbefore : limitBefore call.limits (call.disk n) generation.record = none)
      (hpage : call.page generation = .error error) :
      TurnSpec contentHash call n generation (.failed generation (.graph error))
  | noPage (hbefore : limitBefore call.limits (call.disk n) generation.record = none)
      (hpage : call.page generation = .ok []) : TurnSpec contentHash call n generation .noPage
  | full {limit : ContentCapacityLimit} {page : List CatalogDocument}
      (hbefore : limitBefore call.limits (call.disk n) generation.record = none)
      (hpage : call.page generation = .ok page)
      (hafter : limitAfter call.limits (call.disk n) (declaredBytes call.policy page) page.length =
        some limit) : TurnSpec contentHash call n generation (.limited limit)
  | refused {page : List CatalogDocument} {error : ContentIndexError}
      (hbefore : limitBefore call.limits (call.disk n) generation.record = none)
      (hpage : call.page generation = .ok page)
      (hdelta : applyDelta call.sources contentHash call.policy generation.index page [] =
        .error error) : TurnSpec contentHash call n generation (.failed generation error)
  | crashed {page : List CatalogDocument} {index : Entries} {outcomes : List SyncOutcome}
      (hpage : call.page generation = .ok page)
      (hdelta : applyDelta call.sources contentHash call.policy generation.index page [] =
        .ok (index, outcomes))
      (hcrash : call.crashAfterCommit (generation.record.commits + 1) = true) :
      TurnSpec contentHash call n generation (.failed { generation with index := index } simulatedCrash)
  | recorded {page : List CatalogDocument} {index : Entries} {outcomes : List SyncOutcome}
      (hbefore : limitBefore call.limits (call.disk n) generation.record = none)
      (hpage : call.page generation = .ok page) (hnonempty : page ≠ [])
      (hdelta : applyDelta call.sources contentHash call.policy generation.index page [] =
        .ok (index, outcomes)) :
      TurnSpec contentHash call n generation (.recorded ⟨generation.record.advance page
        (declaredBytes call.policy page) outcomes (call.stamp n) (call.bytes n) call.now, index⟩)

theorem turn_spec (contentHash : String → String) (call : ResumeCall) (n : Nat)
    (generation : Generation) :
    TurnSpec contentHash call n generation (call.turn contentHash n generation) := by
  unfold ResumeCall.turn
  dsimp only
  split
  · next limit hbefore => exact .limited hbefore
  next hbefore =>
  split
  · next error hpage => exact .unreadable hbefore hpage
  · next hpage => exact .noPage hbefore hpage
  next page hnonempty hpage =>
  split
  · next limit hafter => exact .full hbefore hpage hafter
  split
  · next error hdelta => exact .refused hbefore hpage hdelta
  next index outcomes hdelta =>
  split_ifs with hcrash
  · exact .crashed hpage hdelta hcrash
  · exact .recorded hbefore hpage hnonempty hdelta

end Turn

namespace ContentGenerationManager

/-- The building generation with the latest update. -/
def newestBuilding (manager : ContentGenerationManager) : Option (String × Generation) :=
  ((manager.generations.select fun _ generation => generation.record.state == .building).insertionSort
    fun a b => b.2.record.updatedAtUnixMs ≤ a.2.record.updatedAtUnixMs).head?

def recoverOrCreateBuilding (call : ResumeCall) (manager : ContentGenerationManager) :
    ContentGenerationManager × String :=
  let create (manager : ContentGenerationManager) : ContentGenerationManager × String :=
    (manager.createBuilding call.newId call.policy.roots (latestOutboxSequence call.graph)
      (call.stamp 0) (call.bytes 0) call.now, call.newId)
  match manager.newestBuilding with
  | some (id, candidate) =>
      if candidate.record.rootIds = call.policy.roots then (manager.failBuilding (some id) call.now, id)
      else create (manager.failBuilding none call.now)
  | none => create manager

section Resume

variable [CaseMapping] (contentHash : String → String)

/-- One call: the limits are checked, a candidate is found or made, the loop runs
on it, and a complete one takes the pointer. -/
def resumeInitialGeneration (call : ResumeCall) (manager : ContentGenerationManager) :
    ContentGenerationManager × Except ContentIndexError ContentGenerationSummary :=
  match call.limits.validate with
  | .error error => (manager, .error error)
  | .ok limits =>
      let (manager, id) := manager.recoverOrCreateBuilding call
      match manager.generations.get id with
      | none => (manager, .error .schemaMismatch)
      | some generation =>
          let (generation, ended) := call.turns contentHash limits.maximumBatches generation
          let manager := { manager with generations := manager.generations.insert id generation }
          match ended with
          | .failed error => (manager, .error error)
          | .paused limit => (manager, .ok ⟨generation.record, false, limit.isSome⟩)
          | .complete =>
              ({ manager with activePointer := some id }.finishActivation id manager.activePointer
                call.now, .ok ⟨generation.record, true, false⟩)

end Resume

end ContentGenerationManager

end LocalSearch.Content
