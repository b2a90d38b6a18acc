import LocalSearch.Lib.Crash
import LocalSearch.Content.DurableState
import LocalSearch.Content.Generation
import Mathlib.Data.List.Monad

/-!
# The files of the generation manager

Directories, state slots and the pointer as the manager writes them, one file
system step after the other. Before and inside every step the process may die;
what it leaves is named by the point where it died. Documents, limits and
timestamps are given from outside.
-/
namespace LocalSearch.Content

set_option autoImplicit false

open Core Lib Catalog

inductive IndexFiles where
  | absent
  | partly
  | whole
  deriving DecidableEq, Repr

/-- A generation directory: the two slots of its state file and its index. -/
structure Directory where
  state : SlotFile ContentGenerationRecord
  index : IndexFiles

structure ActiveGenerationPointer where
  generationId : String
  activatedAtUnixMs : Nat
  deriving DecidableEq, Repr

structure GenerationFiles where
  generations : Table String Directory
  pointer : SlotFile ActiveGenerationPointer

namespace GenerationFiles

def empty : GenerationFiles := ⟨.empty, .blank⟩

def activePointer (d : GenerationFiles) : Option String := d.pointer.read.map (·.generationId)

/-- The record a reader of the state file gets. -/
def record (d : GenerationFiles) (id : String) : Option ContentGenerationRecord :=
  (d.generations.get id).bind (·.state.read)

end GenerationFiles

def validGenerationId (value : String) : Bool :=
  "generation-".toList.isPrefixOf value.toList && value.toList.all fun c => c.isAlphanum || c == '-'

inductive FileStep where
  | createDirectory (id : String)
  | buildIndex (id : String)
  | writeRecord (id : String) (record : ContentGenerationRecord)
  | writePointer (pointer : ActiveGenerationPointer)
  | removeDirectory (id : String)
  deriving DecidableEq, Repr

/-- Where the process died. -/
inductive CrashPoint where
  | before (step : FileStep)
  | building
  /-- A slot of a state file was open; `file` is what was there before. -/
  | tearingRecord (file : SlotFile ContentGenerationRecord)
  | tearingPointer
  /-- Some entries of the directory were removed already. -/
  | removing (left : Directory)

namespace FileStep

def directory (d : GenerationFiles) (id : String) : Directory :=
  (d.generations.get id).getD ⟨.blank, .absent⟩

def setDirectory (d : GenerationFiles) (id : String) (dir : Directory) : GenerationFiles :=
  { d with generations := d.generations.insert id dir }

def run (d : GenerationFiles) : FileStep → GenerationFiles
  | createDirectory id => setDirectory d id (directory d id)
  | buildIndex id => setDirectory d id { directory d id with index := .whole }
  | writeRecord id record =>
      setDirectory d id { directory d id with state := (directory d id).state.write record }
  | writePointer pointer => { d with pointer := d.pointer.write pointer }
  | removeDirectory id => { d with generations := d.generations.erase id }

def indexRemains : IndexFiles → List IndexFiles
  | .whole => [.whole, .partly, .absent]
  | .partly => [.partly, .absent]
  | .absent => [.absent]

/-- What a removal that was cut short may leave; entries go in any order. -/
def remains (dir : Directory) : List Directory := do
  let zero ← [true, false]
  let one ← [true, false]
  let index ← indexRemains dir.index
  pure ⟨dir.state.keep fun i => if i = 0 then zero else one, index⟩

/-- Crash points inside a step, with what they leave. -/
def inside (d : GenerationFiles) : FileStep → List (CrashPoint × GenerationFiles)
  | createDirectory _ => []
  | buildIndex id => [(.building, setDirectory d id { directory d id with index := .partly })]
  | writeRecord id _ =>
      [(.tearingRecord (directory d id).state,
        setDirectory d id { directory d id with state := (directory d id).state.tear })]
  | writePointer _ => [(.tearingPointer, { d with pointer := d.pointer.tear })]
  | removeDirectory id =>
      match d.generations.get id with
      | none => []
      | some dir => (remains dir).map fun left => (.removing left, setDirectory d id left)

end FileStep

abbrev Managing (α : Type) := Cut GenerationFiles CrashPoint ContentIndexError α

def perform (step : FileStep) : Managing Unit :=
  Cut.step (fun d => (.before step, d) :: step.inside d) fun d => step.run d

/-- What a call of the manager is told from outside: the order directories are
listed in, the clock at each write, the identifiers it may use and what it
measures. -/
structure Moment where
  readDir : List String → List String
  readDir_perm : ∀ names, (readDir names).Perm names
  clock : String → ContentGenerationState → Nat
  names : List String
  names_valid : ∀ name ∈ names, validGenerationId name = true
  latestOutboxSequence : Nat
  indexGeneration : Nat
  indexBytes : Nat
  now : Nat

def readRecords (d : GenerationFiles) :
    List String → Except ContentIndexError (List (String × ContentGenerationRecord))
  | [] => .ok []
  | id :: rest =>
      match d.generations.get id with
      | none => readRecords d rest
      | some dir =>
          if validGenerationId id && dir.state.present then
            match dir.state.read with
            | none => .error (.io "not found")
            | some record => do
                let records ← readRecords d rest
                .ok ((id, record) :: records)
          else readRecords d rest

def records (moment : Moment) : Managing (List (String × ContentGenerationRecord)) :=
  Cut.load fun d => readRecords d (moment.readDir (d.generations.rows.map (·.1)))

/-- A record with a new state, stamped now. -/
def Moment.stamp (moment : Moment) (state : ContentGenerationState)
    (x : String × ContentGenerationRecord) : ContentGenerationRecord :=
  { x.2 with state := state, updatedAtUnixMs := moment.clock x.1 state }

def writeState (moment : Moment) (state : ContentGenerationState)
    (x : String × ContentGenerationRecord) : Managing Unit :=
  perform (.writeRecord x.1 (moment.stamp state x))

/-- The state the pointer asks of a record. -/
def desiredState (pointer id : String) (state : ContentGenerationState) :
    Option ContentGenerationState :=
  if id = pointer then some .active else if state = .active then some .retired else none

def repair (moment : Moment) (pointer : String) (x : String × ContentGenerationRecord) :
    Managing Unit :=
  match desiredState pointer x.1 x.2.state with
  | none => Cut.ret ()
  | some desired => if x.2.state = desired then Cut.ret () else writeState moment desired x

def recoverLifecycle (moment : Moment) : Managing Unit := do
  let pointer ← Cut.load fun d => .ok d.activePointer
  match pointer with
  | none => Cut.ret ()
  | some pointer =>
      if validGenerationId pointer then do
        let found ← records moment
        Cut.each (repair moment pointer) found
      else Cut.fail .schemaMismatch

/-- Newest first, in listing order where stamps agree. -/
def newestFirst (found : List (String × ContentGenerationRecord)) :
    List (String × ContentGenerationRecord) :=
  found.insertionSort fun a b => b.2.updatedAtUnixMs ≤ a.2.updatedAtUnixMs

def inState (state : ContentGenerationState) (found : List (String × ContentGenerationRecord)) :
    List (String × ContentGenerationRecord) :=
  found.filter fun x => x.2.state = state

def uniqueGenerationId (moment : Moment) : Managing String :=
  Cut.load fun d =>
    match moment.names.find? fun name => (d.generations.get name).isNone with
    | some id => .ok id
    | none => .error (.io "content generation identifier space is exhausted")

def Moment.buildingRecord (moment : Moment) (roots : List (List String)) : ContentGenerationRecord :=
  ⟨.building, moment.latestOutboxSequence, roots, none, 0, 0, 0, 0, moment.indexGeneration,
    moment.indexBytes, none, moment.now, moment.now⟩

def createBuilding (moment : Moment) (roots : List (List String)) :
    Managing (String × ContentGenerationRecord) := do
  let id ← uniqueGenerationId moment
  perform (.createDirectory id)
  perform (.buildIndex id)
  perform (.writeRecord id (moment.buildingRecord roots))
  Cut.ret (id, moment.buildingRecord roots)

def recoverOrCreateBuilding (moment : Moment) (roots : List (List String)) :
    Managing (String × ContentGenerationRecord) := do
  let found ← records moment
  match newestFirst (inState .building found) with
  | [] => createBuilding moment roots
  | candidate :: stale => do
      Cut.each (writeState moment .failed) stale
      if candidate.2.rootIds = roots then
        Cut.ret (candidate.1, { candidate.2 with capacityLimit := none })
      else do
        writeState moment .failed candidate
        createBuilding moment roots

/-- Failed generations, and retired ones beyond those that are kept. -/
def removable (retainRetired : Nat) (found : List (String × ContentGenerationRecord)) :
    List (String × ContentGenerationRecord) :=
  inState .failed found ++ (newestFirst (inState .retired found)).drop retainRetired

def discard (active : Option String) (x : String × ContentGenerationRecord) : Managing Unit :=
  if active = some x.1 ∨ validGenerationId x.1 = false then Cut.ret ()
  else perform (.removeDirectory x.1)

def collectGarbage (moment : Moment) (retainRetired : Nat) : Managing Unit := do
  let active ← Cut.load fun d => .ok d.activePointer
  let found ← records moment
  Cut.each (discard active) (removable retainRetired found)

def retirePrevious (moment : Moment) (id : String) (previous : Option String) : Managing Unit :=
  match previous with
  | none => Cut.ret ()
  | some previous =>
      if previous ≠ id ∧ validGenerationId previous = true then do
        let found ← Cut.load fun d => .ok (d.record previous)
        match found with
        | none => Cut.ret ()
        | some record => writeState moment .retired (previous, record)
      else Cut.ret ()

/-- Reads of the index directory that the size needs. -/
def measureIndex (id : String) : Managing Unit :=
  Cut.load fun d =>
    if (FileStep.directory d id).index = .absent then .error (.io "index directory") else .ok ()

def openIndex (id : String) : Managing Unit :=
  Cut.load fun d =>
    if (FileStep.directory d id).index = .whole then .ok () else .error (.io "index")

def activateValidated (moment : Moment) (x : String × ContentGenerationRecord) (count : Nat) :
    Managing ContentGenerationRecord := do
  openIndex x.1
  if count = x.2.documentsProjected then do
    writeState moment .ready x
    let previous ← Cut.load fun d => .ok d.activePointer
    perform (.writePointer ⟨x.1, moment.clock x.1 .active⟩)
    writeState moment .active x
    retirePrevious moment x.1 previous
    collectGarbage moment 1
    Cut.ret (moment.stamp .active x)
  else do
    writeState moment .failed x
    Cut.fail .missingPayload

/-- One turn of the loop, by what it finds: a limit, a failure of the disk, the
graph or the index, a page it commits, or no page, with the documents counted. -/
inductive Turn where
  | limited (limit : ContentCapacityLimit)
  | failed (error : ContentIndexError)
  | page (documents : List CatalogDocument) (declared : Nat) (outcomes : List SyncOutcome)
      (stamp bytes now : Nat)
  | noPage (count : Nat)

def takeTurns (moment : Moment) (id : String) :
    ContentGenerationRecord → List Turn → Managing ContentGenerationRecord
  | record, [] => Cut.ret record
  | record, .limited limit :: _ => do
      measureIndex id
      Cut.ret { record with capacityLimit := some limit }
  | _, .failed error :: _ => Cut.fail error
  | record, .page documents declared outcomes stamp bytes now :: rest => do
      measureIndex id
      openIndex id
      let record := record.advance documents declared outcomes stamp bytes now
      perform (.writeRecord id record)
      takeTurns moment id record rest
  | record, .noPage count :: _ => do
      measureIndex id
      activateValidated moment (id, { record with capacityLimit := none }) count

def resumeInitialGeneration (moment : Moment) (roots : List (List String)) (turns : List Turn) :
    Managing ContentGenerationRecord := do
  let (id, record) ← recoverOrCreateBuilding moment roots
  let record ← takeTurns moment id record turns
  measureIndex id
  let record := { record with contentIndexBytes := moment.indexBytes, updatedAtUnixMs := moment.now }
  perform (.writeRecord id record)
  Cut.ret record

inductive ManagerCall where
  | resume (moment : Moment) (roots : List (List String)) (turns : List Turn)
  | collect (moment : Moment) (retainRetired : Nat)

def ManagerCall.run : ManagerCall → Managing Unit
  | .resume moment roots turns => do
      let _ ← resumeInitialGeneration moment roots turns
      Cut.ret ()
  | .collect moment retainRetired => collectGarbage moment retainRetired

/-- The files after processes that open the manager and call it, each of which
may die where `allowed` lets it. The flag says whether a manager is open. -/
inductive Managed (allowed : CrashPoint → Prop) : Bool → GenerationFiles → Prop
  | empty : Managed allowed false .empty
  | opened {live : Bool} {d : GenerationFiles} (h : Managed allowed live d) (moment : Moment) :
      Managed allowed (recoverLifecycle moment d).result.isOk (recoverLifecycle moment d).final
  | diedOpening {live : Bool} {d d' : GenerationFiles} {point : CrashPoint}
      (h : Managed allowed live d) (moment : Moment)
      (hpoint : (point, d') ∈ (recoverLifecycle moment d).crashes) (hallowed : allowed point) :
      Managed allowed false d'
  | called {d : GenerationFiles} (h : Managed allowed true d) (call : ManagerCall) :
      Managed allowed true (call.run d).final
  | died {d d' : GenerationFiles} {point : CrashPoint} (h : Managed allowed true d)
      (call : ManagerCall) (hpoint : (point, d') ∈ (call.run d).crashes) (hallowed : allowed point) :
      Managed allowed false d'
  | closed {d : GenerationFiles} (h : Managed allowed true d) : Managed allowed false d

end LocalSearch.Content
