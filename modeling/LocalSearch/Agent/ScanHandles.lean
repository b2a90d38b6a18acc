import LocalSearch.Agent.CheckpointAuthority
import Mathlib.Data.Finset.Card

/-!
# Broker scans the controller holds

A scan is open from the answer that names it until its last page is read or it
is asked to cancel. The controller can close what it holds and nothing else.
-/
namespace LocalSearch.Agent

set_option autoImplicit false

open Core Graph Broker

/-- What an entry does to the scans that are open at the broker. -/
def Entry.openScans (scans : Finset Nat) : Entry → Finset Nat
  | .startScan _ _ (.ok scanId) => insert scanId scans
  | .readScanPage scanId _ (.ok page) => if page.complete then scans.erase scanId else scans
  | .cancelScan scanId => scans.erase scanId
  | .startScan _ _ (.error _) | .readScanPage _ _ (.error _) | .readChanges _ _ _ _ | .commit _ _ _ =>
      scans

/-- The scans a history started that neither ended nor were asked to cancel. -/
def openScans (history : List Entry) : Finset Nat := history.foldl Entry.openScans ∅

/-- The scan the controller can still read or cancel. -/
def heldScans (active : Option ActiveScan) : Finset Nat :=
  match active with
  | none => ∅
  | some active => {active.scanId}

/-- Exactly the held scan is open. -/
def HoldsOpenScans (s : Observation) : Prop :=
  openScans s.history = heldScans s.controller.activeScan

theorem openScans_append (a b : List Entry) :
    openScans (a ++ b) = b.foldl Entry.openScans (openScans a) :=
  List.foldl_append

section Steps

variable [CaseMapping]

/-- A page that is not the last can be applied by the step that reads it. -/
def KeepsPage (s : Observation) (answers : Answers) : Prop :=
  ∀ active page, s.controller.activeScan = some active → answers.readScanPage = .ok page →
    page.complete = false → answers.fault .openGraph = none ∧ answers.fault .write = none ∧
      ∃ applied, applyObservationScanPage s.graph active.volumeId page.events = .ok applied

/-- A step closes what it stops holding, unless it drops a page in the middle. -/
theorem stepCase_open {g g' : FilesystemGraph} {n : Nat} {active active' : Option ActiveScan}
    {new : List Entry} (h : StepCase g n active g' active' new) :
    new.foldl Entry.openScans (heldScans active) = heldScans active' ∨
      ∃ held page, active = some held ∧ active' = none ∧ page.complete = false ∧
        new = [.readScanPage held.scanId n (.ok page)] := by
  cases h with
  | quiet | prepared | finalized | changesRead | changesCommitted | checkpointKept => exact Or.inl rfl
  | scanRefused => exact Or.inl rfl
  | pageLost held error => exact Or.inl (Finset.erase_singleton _)
  | pageRefused held page =>
    cases hcomplete : page.complete with
    | false => exact Or.inr ⟨held, page, rfl, rfl, hcomplete, rfl⟩
    | true =>
      refine Or.inl ?_
      simp only [List.foldl_cons, List.foldl_nil, Entry.openScans, hcomplete, if_true, heldScans]
      exact Finset.erase_singleton _
  | pageApplied held page happly =>
    refine Or.inl ?_
    simp only [List.foldl_cons, List.foldl_nil, Entry.openScans, heldScans]
    split_ifs
    · exact Finset.erase_singleton _
    · rfl
  | pageStaged held page checkpoint hcomplete =>
    refine Or.inl ?_
    simp only [List.foldl_cons, List.foldl_nil, Entry.openScans, hcomplete, if_true, heldScans]
    exact Finset.erase_singleton _
  | scanAbandoned v mode scanId =>
    refine Or.inl ?_
    simp only [List.foldl_cons, List.foldl_nil, Entry.openScans, heldScans]
    exact Finset.erase_insert (Finset.notMem_empty _)
  | scanStarted descriptor mode scanId hbegin => exact Or.inl rfl

section Page

variable {s : Observation} {answers : Answers} {active : ActiveScan} {page : ScanPage} {n : Nat}

/-- A page in the middle that is applied leaves the scan held. -/
theorem readActiveScan_kept (hpage : answers.readScanPage = .ok page) (hmiddle : page.complete = false)
    (hopen : answers.fault .openGraph = none) (hwrite : answers.fault .write = none)
    (happly : ∃ applied, applyObservationScanPage s.graph active.volumeId page.events = .ok applied) :
    (readActiveScan (s.setActive none) answers active n).final.controller.activeScan = some active := by
  obtain ⟨⟨g', applied⟩, happly⟩ := happly
  have happly' : applyObservationScanPage (s.setActive none).graph active.volumeId page.events =
      .ok (g', applied) := happly
  simp only [readActiveScan, hpage, Observation.load, Observation.commit, hopen, hwrite,
    Observation.note, happly', hmiddle, bind, Except.bind, Bool.false_eq_true, if_false]
  rfl

/-- Otherwise the step ends with the page read and the handle gone. -/
theorem readActiveScan_dropped (hpage : answers.readScanPage = .ok page)
    (hfail : ¬ (answers.fault .openGraph = none ∧ answers.fault .write = none ∧
      ∃ applied, applyObservationScanPage s.graph active.volumeId page.events = .ok applied)) :
    (readActiveScan (s.setActive none) answers active n).final =
      (s.setActive none).note (.readScanPage active.scanId n (.ok page)) := by
  simp only [readActiveScan, hpage]
  cases hopen : answers.fault .openGraph with
  | some error => rfl
  | none =>
    cases hwrite : answers.fault .write with
    | some error => rfl
    | none =>
      cases happly : applyObservationScanPage s.graph active.volumeId page.events with
      | error error =>
        have happly' : applyObservationScanPage (s.setActive none).graph active.volumeId page.events =
            .error error := happly
        simp only [Observation.load, Observation.commit, Observation.note, happly', bind, Except.bind]
        rfl
      | ok applied => exact absurd ⟨hopen, hwrite, applied, happly⟩ hfail

/-- The history goes on with the page of a scan. -/
def Notes (s : Observation) (entry : Entry) (s' : Observation) : Prop :=
  ∃ rest, s'.history = s.history ++ entry :: rest

/-- The first entry of the step is the page it read. -/
theorem readActiveScan_notes (s : Observation) (answers : Answers) (active : ActiveScan) (n : Nat) :
    Notes s (.readScanPage active.scanId n answers.readScanPage)
      (readActiveScan s answers active n).final := by
  unfold readActiveScan
  cases answers.readScanPage with
  | error error => exact ⟨[.cancelScan active.scanId], List.append_assoc _ _ _⟩
  | ok page =>
    refine final_load (P := Notes s _) ⟨[], rfl⟩ (final_commit (P := Notes s _) ⟨[], rfl⟩ fun g' _ _ => ?_)
    dsimp only
    split_ifs
    · cases page.checkpoint with
      | none => exact ⟨_, List.append_assoc _ _ _⟩
      | some checkpoint =>
        refine final_commit (P := Notes s _) ⟨_, List.append_assoc _ _ _⟩ fun g'' _ _ => ?_
        exact ⟨_, (List.append_assoc _ _ _).trans (List.append_assoc _ _ _)⟩
    · exact ⟨_, List.append_assoc _ _ _⟩

end Page

/-- One step keeps exactly the held scan open if and only if it keeps its page. -/
theorem holdsOpenScans_step {s : Observation} (h : HoldsOpenScans s) (answers : Answers)
    (maximumEvents : Nat) :
    HoldsOpenScans (step s answers maximumEvents).final ↔ KeepsPage s answers := by
  obtain ⟨new, hnew, hcase⟩ := step_ends s answers maximumEvents
  have hfold : openScans (step s answers maximumEvents).final.history =
      new.foldl Entry.openScans (heldScans s.controller.activeScan) := by
    rw [hnew, openScans_append, h]
  cases hactive : s.controller.activeScan with
  | none =>
    refine iff_of_true ?_ fun active page hsome => absurd hsome (by rw [hactive]; nofun)
    rw [HoldsOpenScans, hfold]
    rcases stepCase_open hcase with hheld | ⟨held, page, hsome, -⟩
    · exact hheld
    · rw [hactive] at hsome
      cases hsome
  | some active =>
    have hstep : (step s answers maximumEvents).final = (readActiveScan (s.setActive none) answers active
        (max 1 (min maximumEvents maxBrokerPageEvents))).final := by
      rw [step, hactive]
    constructor
    · intro hholds held page hheld hpage hmiddle
      obtain rfl : active = held := Option.some.inj (hactive.symm.trans hheld)
      by_contra hfail
      rw [hstep, readActiveScan_dropped hpage hfail] at hholds
      have hopen : openScans (s.history ++ [.readScanPage active.scanId
          (max 1 (min maximumEvents maxBrokerPageEvents)) (.ok page)]) = ∅ := hholds
      rw [openScans_append, h, hactive] at hopen
      simp only [List.foldl_cons, List.foldl_nil, Entry.openScans, hmiddle, Bool.false_eq_true, if_false,
        heldScans] at hopen
      exact Finset.singleton_ne_empty _ hopen
    · intro hkeeps
      rw [HoldsOpenScans, hfold]
      rcases stepCase_open hcase with hheld | ⟨held, page, hsome, hnone, hmiddle, rfl⟩
      · exact hheld
      · -- the page in the middle was the one the step was answered with
        obtain ⟨rest, hrest⟩ := readActiveScan_notes (s.setActive none) answers active
          (max 1 (min maximumEvents maxBrokerPageEvents))
        rw [hstep] at hnew hnone
        have hentries := List.append_cancel_left (hnew.symm.trans hrest)
        have hpage : answers.readScanPage = .ok page := by
          injection hentries with hfirst
          injection hfirst with _ _ hanswer
          exact hanswer.symm
        obtain ⟨hopen, hwrite, happly⟩ := hkeeps active page hactive hpage hmiddle
        rw [readActiveScan_kept hpage hmiddle hopen hwrite happly] at hnone
        cases hnone

/-- Steps of one controller over a store that others may write in between. -/
inductive HandleRun (C : Observation → Answers → Prop) : Observation → Prop
  | start (g : FilesystemGraph) (discovered : List VolumeDescriptor) (selection : ObservationSelection) :
      HandleRun C ⟨g, .new discovered selection, []⟩
  | step {s : Observation} (hrun : HandleRun C s) (g : FilesystemGraph) (answers : Answers)
      (maximumEvents : Nat) (hC : C { s with graph := g } answers) :
      HandleRun C (step { s with graph := g } answers maximumEvents).final

/-- The open scans of a run are exactly the held one as long as every page in the
middle of a scan is applied; the step that fails to apply one loses its scan. -/
theorem scan_handles :
    (∀ s, HandleRun KeepsPage s → HoldsOpenScans s ∧ (openScans s.history).card ≤ 1) ∧
      ∀ s, HoldsOpenScans s → ∀ answers maximumEvents,
        (HoldsOpenScans (step s answers maximumEvents).final ↔ KeepsPage s answers) := by
  refine ⟨fun s hrun => ?_, fun s h => holdsOpenScans_step h⟩
  have hholds : HoldsOpenScans s := by
    induction hrun with
    | start g discovered selection => rfl
    | @step s hrun g answers maximumEvents hC ih =>
      have hopen : HoldsOpenScans { s with graph := g } := ih
      exact (holdsOpenScans_step hopen _ _).mpr hC
  refine ⟨hholds, ?_⟩
  rw [hholds]
  cases s.controller.activeScan with
  | none => exact Nat.zero_le 1
  | some active => exact (Finset.card_singleton _).le

end Steps

section Example

attribute [local instance] asciiCaseMapping

theorem sampleObservation_handles {C : Observation → Answers → Prop}
    (hC : ∀ n < 2, C (sampleObservation n) sampleAnswers) {n : Nat} (hn : n ≤ 2) :
    HandleRun C (sampleObservation n) := by
  induction n with
  | zero => exact .start _ _ _
  | succ n ih => exact .step (ih (by omega)) (sampleObservation n).graph _ _ (hC n hn)

/-- A page in the middle of the scan whose only event is a link without its object. -/
def orphanAnswers : Answers :=
  { sampleAnswers with readScanPage := .ok ⟨[.linkObserved (sampleLink 9 1 none "C:")], none, false, false⟩ }

/-- The page is refused and the scan stays open with nobody to close it. -/
theorem scan_leaked : ¬ ∀ s, HandleRun (fun _ _ => True) s → HoldsOpenScans s := by
  intro hclaim
  have hrun : HandleRun (fun _ _ => True) (step (sampleObservation 2) orphanAnswers 4).final :=
    .step (sampleObservation_handles (fun _ _ => trivial) le_rfl) (sampleObservation 2).graph _ _ trivial
  have hopen : openScans (step (sampleObservation 2) orphanAnswers 4).final.history = {7} := by
    decide +kernel
  have hheld : heldScans (step (sampleObservation 2) orphanAnswers 4).final.controller.activeScan = ∅ := by
    decide +kernel
  have hholds := hclaim _ hrun
  rw [HoldsOpenScans, hopen, hheld] at hholds
  exact Finset.singleton_ne_empty _ hholds

/-- A page in the middle of the scan with the object and its link. -/
def middleAnswers : Answers :=
  { sampleAnswers with readScanPage := .ok ⟨[.objectObserved (sampleObject 1 .directory),
      .linkObserved (sampleLink 9 1 none "C:")], none, false, false⟩ }

/-- The page is applied and the scan stays held. -/
theorem middlePage_held :
    openScans (step (sampleObservation 2) middleAnswers 4).final.history = {7} ∧
      HoldsOpenScans (step (sampleObservation 2) middleAnswers 4).final := by
  have hactive : (sampleObservation 2).controller.activeScan = some ⟨sampleDescriptor.volumeId, 7⟩ := by
    decide +kernel
  have hidle : ∀ n < 2, (sampleObservation n).controller.activeScan = none := by decide +kernel
  have happly : (applyObservationScanPage (sampleObservation 2).graph sampleDescriptor.volumeId
      [.objectObserved (sampleObject 1 .directory),
        .linkObserved (sampleLink 9 1 none "C:")]).toOption.isSome = true := by decide +kernel
  have hkeeps : KeepsPage (sampleObservation 2) middleAnswers := by
    intro active page hheld hpage _
    obtain rfl := Option.some.inj (hactive.symm.trans hheld)
    obtain rfl := Except.ok.inj hpage
    refine ⟨rfl, rfl, ?_⟩
    cases happlied : applyObservationScanPage (sampleObservation 2).graph sampleDescriptor.volumeId
        [.objectObserved (sampleObject 1 .directory), .linkObserved (sampleLink 9 1 none "C:")] with
    | ok applied => exact ⟨applied, rfl⟩
    | error error =>
      rw [happlied] at happly
      cases happly
  have hstart : HandleRun KeepsPage (sampleObservation 2) :=
    sampleObservation_handles (fun n hn active page hheld => absurd hheld (by rw [hidle n hn]; nofun)) le_rfl
  refine ⟨by decide +kernel, ?_⟩
  exact (scan_handles.1 _ (.step hstart (sampleObservation 2).graph middleAnswers 4 hkeeps)).1

end Example

end LocalSearch.Agent
