import LocalSearch.Content.CrashRecovery

/-!
# Life cycle of generations

With writes that are not torn, a process that dies between two of them leaves
states that opening repairs, except between the validated record and the
pointer: a generation that is ready but not designated stays ready.
-/
namespace LocalSearch.Content

set_option autoImplicit false

open Core Lib Catalog

/-- A crash between two steps, but not right before the pointer is written. -/
def CrashPoint.BetweenWrites : CrashPoint → Prop
  | .before (.writePointer _) => False
  | .before _ => True
  | _ => False

/-- A generation that is a candidate or will be collected. -/
def ContentGenerationState.AtRest (state : ContentGenerationState) : Prop :=
  state = .building ∨ state = .retired ∨ state = .failed

/-- Every directory has a name the manager accepts. -/
def Named (d : GenerationFiles) : Prop :=
  ∀ id dir, d.generations.get id = some dir → validGenerationId id = true

/-- The records and the pointer agree. -/
structure Settled (d : GenerationFiles) : Prop where
  named : Named d
  active : ∀ id, d.activePointer = some id → ∃ r, d.record id = some r ∧ r.state = .active
  other : ∀ id r, d.record id = some r → d.activePointer ≠ some id → r.state.AtRest

/-- They agree once the manager was opened. -/
structure Repairable (d : GenerationFiles) : Prop where
  named : Named d
  present : ∀ id, d.activePointer = some id → (d.record id).isSome
  ready : ∀ id r, d.record id = some r → d.activePointer ≠ some id → r.state ≠ .ready
  unset : d.activePointer = none → ∀ id r, d.record id = some r → r.state ≠ .active

/-- Only these generations are candidates. -/
def Candidates (S : Set String) (d : GenerationFiles) : Prop :=
  ∀ id r, d.record id = some r → r.state = .building → id ∈ S

section Assertions

variable {d : GenerationFiles} {id : String} {r : ContentGenerationRecord}

theorem Settled.repairable (h : Settled d) : Repairable d := by
  refine ⟨h.named, fun id hid => ?_, fun id r hr hid hready => ?_, fun hnone id r hr hactive => ?_⟩
  · obtain ⟨r, hr, -⟩ := h.active id hid
    rw [hr]
    rfl
  · rcases h.other id r hr hid with hs | hs | hs <;> rw [hready] at hs <;> cases hs
  · rcases h.other id r hr (by rw [hnone]; simp) with hs | hs | hs <;> rw [hactive] at hs <;> cases hs

/-- A candidate is not designated. -/
theorem Settled.not_pointer (h : Settled d) (hr : d.record id = some r) (hstate : r.state = .building) :
    d.activePointer ≠ some id := by
  intro hid
  obtain ⟨r', hr', hactive⟩ := h.active id hid
  rw [hr] at hr'
  obtain rfl := Option.some.inj hr'
  rw [hstate] at hactive
  cases hactive

theorem Named.valid (h : Named d) (hr : d.record id = some r) : validGenerationId id = true := by
  obtain ⟨dir, hget, -⟩ := Option.bind_eq_some_iff.1 hr
  exact h id dir hget

theorem Named.setDirectory (h : Named d) {dir : Directory} (hvalid : validGenerationId id = true) :
    Named (FileStep.setDirectory d id dir) := by
  intro id' dir' hget
  by_cases heq : id' = id
  · exact heq ▸ hvalid
  · exact h id' dir' ((Table.get_insert_ne _ _ heq).symm.trans hget)

theorem record_eq (d : GenerationFiles) (id : String) :
    d.record id = (FileStep.directory d id).state.read := by
  unfold GenerationFiles.record FileStep.directory
  cases d.generations.get id <;> rfl

@[simp] theorem record_setDirectory (d : GenerationFiles) (id id' : String) (dir : Directory) :
    (FileStep.setDirectory d id dir).record id' = if id' = id then dir.state.read else d.record id' := by
  rw [record_eq, directory_setDirectory, record_eq]
  split_ifs <;> rfl

@[simp] theorem record_writeRecord (d : GenerationFiles) (id id' : String) (r : ContentGenerationRecord) :
    (FileStep.run d (.writeRecord id r)).record id' = if id' = id then some r else d.record id' := by
  simp [FileStep.run]

@[simp] theorem activePointer_writeRecord (d : GenerationFiles) (id : String)
    (r : ContentGenerationRecord) :
    (FileStep.run d (.writeRecord id r)).activePointer = d.activePointer := rfl

@[simp] theorem record_writePointer (d : GenerationFiles) (p : ActiveGenerationPointer) (id : String) :
    (FileStep.run d (.writePointer p)).record id = d.record id := rfl

@[simp] theorem activePointer_writePointer (d : GenerationFiles) (p : ActiveGenerationPointer) :
    (FileStep.run d (.writePointer p)).activePointer = some p.generationId := by
  simp [GenerationFiles.activePointer, FileStep.run]

@[simp] theorem record_removeDirectory (d : GenerationFiles) (id id' : String) :
    (FileStep.run d (.removeDirectory id)).record id' = if id' = id then none else d.record id' := by
  simp only [GenerationFiles.record, FileStep.run, Table.get_erase]
  split_ifs <;> rfl

/-- A record of a generation that is not designated is written. -/
theorem Settled.writeRecord (h : Settled d) (hvalid : validGenerationId id = true)
    (hid : d.activePointer ≠ some id) (hstate : r.state.AtRest) :
    Settled (FileStep.run d (.writeRecord id r)) := by
  refine ⟨h.named.setDirectory hvalid, fun id' hid' => ?_, fun id' r' hr' hid' => ?_⟩
  · obtain ⟨r', hr', hactive⟩ := h.active id' hid'
    have hne : id' ≠ id := fun heq => hid (heq ▸ hid')
    exact ⟨r', by rw [record_writeRecord, if_neg hne, hr'], hactive⟩
  · rw [record_writeRecord] at hr'
    split_ifs at hr' with heq
    · obtain rfl := Option.some.inj hr'
      exact hstate
    · exact h.other id' r' hr' hid'

/-- A record of the designated generation is written. -/
theorem Settled.writeActive (h : Settled d) (hvalid : validGenerationId id = true)
    (hid : d.activePointer = some id) (hstate : r.state = .active) :
    Settled (FileStep.run d (.writeRecord id r)) := by
  refine ⟨h.named.setDirectory hvalid, fun id' hid' => ?_, fun id' r' hr' hid' => ?_⟩
  · obtain rfl : id = id' := Option.some.inj (hid.symm.trans hid')
    exact ⟨r, by simp, hstate⟩
  · have hne : id' ≠ id := by
      rintro rfl
      exact hid' hid
    rw [record_writeRecord, if_neg hne] at hr'
    exact h.other id' r' hr' hid'

theorem Candidates.writeRecord {S : Set String} (h : Candidates S d)
    (hstate : r.state = .building → id ∈ S) :
    Candidates S (FileStep.run d (.writeRecord id r)) := by
  intro id' r' hr' hbuilding
  rw [record_writeRecord] at hr'
  split_ifs at hr' with heq
  · obtain rfl := Option.some.inj hr'
    rw [heq]
    exact hstate hbuilding
  · exact h id' r' hr' hbuilding

/-- A generation that is not designated is removed. -/
theorem Settled.removeDirectory (h : Settled d) (hid : d.activePointer ≠ some id) :
    Settled (FileStep.run d (.removeDirectory id)) := by
  refine ⟨fun id' dir hget => ?_, fun id' hid' => ?_, fun id' r' hr' hid' => ?_⟩
  · simp only [FileStep.run, Table.get_erase] at hget
    split_ifs at hget
    exact h.named id' dir hget
  · obtain ⟨r', hr', hactive⟩ := h.active id' hid'
    have hne : id' ≠ id := fun heq => hid (heq ▸ hid')
    exact ⟨r', by rw [record_removeDirectory, if_neg hne, hr'], hactive⟩
  · rw [record_removeDirectory] at hr'
    split_ifs at hr'
    exact h.other id' r' hr' hid'

theorem Candidates.removeDirectory {S : Set String} (h : Candidates S d) :
    Candidates S (FileStep.run d (.removeDirectory id)) := by
  intro id' r' hr' hbuilding
  rw [record_removeDirectory] at hr'
  split_ifs at hr'
  exact h id' r' hr' hbuilding

end Assertions

section Rules

variable {P C : GenerationFiles → Prop} {E : ContentIndexError → GenerationFiles → Prop}
  {moment : Moment}

/-- A step without crash points inside. -/
theorem perform_between {Q : Unit → GenerationFiles → Prop} {step : FileStep}
    (hbefore : ∀ d, P d → (CrashPoint.before step).BetweenWrites → C d)
    (hdone : ∀ d, P d → Q () (step.run d)) :
    Triple CrashPoint.BetweenWrites P (perform step) C Q E := by
  refine perform_triple hbefore (fun d _ x hx hallowed => absurd hallowed ?_) hdone
  cases step with
  | createDirectory id => cases hx
  | buildIndex id =>
    obtain rfl := List.mem_singleton.1 hx
    exact fun h => h
  | writeRecord id record =>
    obtain rfl := List.mem_singleton.1 hx
    exact fun h => h
  | writePointer pointer =>
    obtain rfl := List.mem_singleton.1 hx
    exact fun h => h
  | removeDirectory id =>
    simp only [FileStep.inside] at hx
    cases hget : d.generations.get id with
    | none => rw [hget] at hx; cases hx
    | some dir =>
      rw [hget] at hx
      obtain ⟨left, -, rfl⟩ := List.mem_map.1 hx
      exact fun h => h

/-- Listing the records changes nothing. -/
theorem records_between (hnamed : ∀ d, P d → Named d) (hE : ∀ e d, P d → E e d) :
    Triple CrashPoint.BetweenWrites P (records moment) C (fun found d => P d ∧ Listed found d) E :=
  Triple.load (fun d _ hd hfound => ⟨hd, records_listed (hnamed d hd) hfound⟩) fun d e hd _ => hE e d hd

end Rules

section Opening

variable {moment : Moment} {pointer : String}

/-- The records that are still to be looked at are as they were listed; the
others agree with the pointer. -/
structure Repairing (pointer : String) (rest : List (String × ContentGenerationRecord))
    (d : GenerationFiles) : Prop where
  repairable : Repairable d
  designated : d.activePointer = some pointer
  unseen : ∀ x ∈ rest, d.record x.1 = some x.2
  nodup : (rest.map (·.1)).Nodup
  seen : ∀ id r, d.record id = some r → id ∉ rest.map (·.1) →
    if id = pointer then r.state = .active else r.state.AtRest

/-- A record that is passed over agrees already. -/
theorem Repairing.pass {d : GenerationFiles} {x : String × ContentGenerationRecord}
    {rest : List (String × ContentGenerationRecord)} (h : Repairing pointer (x :: rest) d)
    (hx : if x.1 = pointer then x.2.state = .active else x.2.state.AtRest) :
    Repairing pointer rest d := by
  refine ⟨h.repairable, h.designated, fun y hy => h.unseen y (List.mem_cons_of_mem _ hy),
    (List.nodup_cons.1 h.nodup).2, fun id r hr hid => ?_⟩
  by_cases heq : id = x.1
  · subst heq
    rw [h.unseen x List.mem_cons_self] at hr
    obtain rfl := Option.some.inj hr
    exact hx
  · exact h.seen id r hr (by simp [heq, hid])

/-- A record that is rewritten agrees from then on. -/
theorem Repairing.write {d : GenerationFiles} {x : String × ContentGenerationRecord}
    {rest : List (String × ContentGenerationRecord)} {r : ContentGenerationRecord}
    (h : Repairing pointer (x :: rest) d)
    (hr : if x.1 = pointer then r.state = .active else r.state.AtRest) :
    Repairing pointer rest (FileStep.run d (.writeRecord x.1 r)) := by
  have hvalid := h.repairable.named.valid (h.unseen x List.mem_cons_self)
  have hnotin := (List.nodup_cons.1 h.nodup).1
  refine ⟨⟨h.repairable.named.setDirectory hvalid, fun id hid => ?_, fun id r' hr' hid => ?_, ?_⟩,
    h.designated, fun y hy => ?_, (List.nodup_cons.1 h.nodup).2, fun id r' hr' hid => ?_⟩
  · rw [record_writeRecord]
    split_ifs
    · rfl
    · exact h.repairable.present id hid
  · rw [record_writeRecord] at hr'
    split_ifs at hr' with heq
    · obtain rfl := Option.some.inj hr'
      have hne : x.1 ≠ pointer := fun hp => hid (by rw [heq, hp]; exact h.designated)
      rw [if_neg hne] at hr
      intro hready
      rcases hr with hs | hs | hs <;> rw [hready] at hs <;> cases hs
    · exact h.repairable.ready id r' hr' hid
  · intro hnone
    rw [activePointer_writeRecord, h.designated] at hnone
    cases hnone
  · have hne : y.1 ≠ x.1 := fun heq => hnotin (List.mem_map.2 ⟨y, hy, heq⟩)
    rw [record_writeRecord, if_neg hne]
    exact h.unseen y (List.mem_cons_of_mem _ hy)
  · rw [record_writeRecord] at hr'
    split_ifs at hr' with heq
    · obtain rfl := Option.some.inj hr'
      rw [heq]
      exact hr
    · exact h.seen id r' hr' (by simp [heq, hid])

theorem repair_between {x : String × ContentGenerationRecord}
    {rest : List (String × ContentGenerationRecord)} :
    Triple CrashPoint.BetweenWrites (Repairing pointer (x :: rest)) (repair moment pointer x) Repairable
      (fun _ => Repairing pointer rest) (fun _ => Repairable) := by
  unfold repair desiredState
  by_cases hpointer : x.1 = pointer
  · rw [if_pos hpointer]
    dsimp only
    split_ifs with hsame
    · exact Triple.ret fun d hd => hd.pass (by rw [if_pos hpointer]; exact hsame)
    · exact perform_between (fun d hd _ => hd.repairable) fun d hd =>
        hd.write (by rw [if_pos hpointer]; rfl)
  · rw [if_neg hpointer]
    by_cases hactive : x.2.state = .active
    · rw [if_pos hactive]
      dsimp only
      rw [if_neg (by rw [hactive]; decide)]
      exact perform_between (fun d hd _ => hd.repairable) fun d hd =>
        hd.write (by rw [if_neg hpointer]; exact .inr (.inl rfl))
    · rw [if_neg hactive]
      refine Triple.ret fun d hd => hd.pass ?_
      rw [if_neg hpointer]
      have hready := hd.repairable.ready x.1 x.2 (hd.unseen x List.mem_cons_self)
        (by rw [hd.designated]; exact fun h => hpointer (Option.some.inj h).symm)
      cases hstate : x.2.state with
      | building => exact .inl rfl
      | ready => exact absurd hstate hready
      | active => exact absurd hstate hactive
      | retired => exact .inr (.inl rfl)
      | failed => exact .inr (.inr rfl)

/-- Opening settles what can be repaired. -/
theorem recoverLifecycle_settles :
    Triple CrashPoint.BetweenWrites Repairable (recoverLifecycle moment) Repairable
      (fun _ => Settled) (fun _ => Repairable) := by
  refine Triple.peek.bind fun pointer => ?_
  cases pointer with
  | none =>
    refine Triple.ret fun d ⟨hd, hnone⟩ => ⟨hd.named, fun id hid => ?_, fun id r hr hid => ?_⟩
    · rw [hnone] at hid
      cases hid
    · have hready := hd.ready id r hr hid
      have hactive := hd.unset hnone id r hr
      cases hstate : r.state with
      | building => exact .inl rfl
      | ready => exact absurd hstate hready
      | active => exact absurd hstate hactive
      | retired => exact .inr (.inl rfl)
      | failed => exact .inr (.inr rfl)
  | some pointer =>
    dsimp only
    split_ifs with hvalid
    · refine (records_between (fun d hd => hd.1.named) fun _ d hd => hd.1).bind fun found => ?_
      have hloop : Triple CrashPoint.BetweenWrites (Repairing pointer found)
          (Cut.each (repair moment pointer) found) Repairable (fun _ => Repairing pointer [])
          (fun _ => Repairable) := Triple.each_rest fun x rest _ => repair_between
      refine (hloop.post fun _ d hd => ?_).pre fun d ⟨⟨hd, hp⟩, hlisted⟩ => ?_
      rotate_left
      · refine ⟨hd, hp, fun x hx => (hlisted.mem x.1 x.2).1 hx, hlisted.nodup, fun id r hr hid => ?_⟩
        exact absurd (List.mem_map_of_mem (f := (·.1)) ((hlisted.mem id r).2 hr)) hid
      · refine ⟨hd.repairable.named, fun id hid => ?_, fun id r hr hid => ?_⟩
        · obtain rfl : pointer = id := Option.some.inj (hd.designated.symm.trans hid)
          obtain ⟨r, hr⟩ := Option.isSome_iff_exists.1 (hd.repairable.present pointer hid)
          have hseen := hd.seen pointer r hr (by simp)
          rw [if_pos rfl] at hseen
          exact ⟨r, hr, hseen⟩
        · have hseen := hd.seen id r hr (by simp)
          have hne : id ≠ pointer := by
            rintro rfl
            exact hid hd.designated
          rwa [if_neg hne] at hseen
    · exact Triple.fail fun d hd => hd.1

end Opening

/-- The generation is the only candidate. -/
structure OnlyCandidate (id : String) (d : GenerationFiles) : Prop where
  settled : Settled d
  building : ∃ r, d.record id = some r ∧ r.state = .building
  only : Candidates {id} d

section Candidate

variable {moment : Moment} {roots : List (List String)}

theorem OnlyCandidate.not_pointer {d : GenerationFiles} {id : String} (h : OnlyCandidate id d) :
    d.activePointer ≠ some id := by
  obtain ⟨r, hr, hstate⟩ := h.building
  exact h.settled.not_pointer hr hstate

theorem OnlyCandidate.valid {d : GenerationFiles} {id : String} (h : OnlyCandidate id d) :
    validGenerationId id = true := by
  obtain ⟨r, hr, -⟩ := h.building
  exact h.settled.named.valid hr

/-- The candidate's record is rewritten. -/
theorem OnlyCandidate.writeRecord {d : GenerationFiles} {id : String} {r : ContentGenerationRecord}
    (h : OnlyCandidate id d) (hstate : r.state = .building) :
    OnlyCandidate id (FileStep.run d (.writeRecord id r)) :=
  ⟨h.settled.writeRecord h.valid h.not_pointer (.inl hstate), ⟨r, by simp, hstate⟩,
    h.only.writeRecord fun _ => rfl⟩

/-- Of the candidates that were listed, those in `rest` are still to fail. -/
structure Failing (candidate : String × ContentGenerationRecord)
    (rest : List (String × ContentGenerationRecord)) (d : GenerationFiles) : Prop where
  settled : Settled d
  unseen : ∀ x ∈ candidate :: rest, d.record x.1 = some x.2 ∧ x.2.state = .building
  nodup : ((candidate :: rest).map (·.1)).Nodup
  only : Candidates {id | id ∈ (candidate :: rest).map (·.1)} d

theorem Failing.fail {candidate x : String × ContentGenerationRecord}
    {rest : List (String × ContentGenerationRecord)} {d : GenerationFiles}
    (h : Failing candidate (x :: rest) d) :
    Failing candidate rest (FileStep.run d (.writeRecord x.1 (moment.stamp .failed x))) := by
  have hx : x ∈ candidate :: x :: rest := by simp
  obtain ⟨hrecord, hstate⟩ := h.unseen x hx
  have hnodup := h.nodup
  simp only [List.map_cons, List.nodup_cons, List.mem_cons, not_or] at hnodup
  have hother : ∀ y ∈ candidate :: rest, y.1 ≠ x.1 := by
    intro y hy heq
    rcases List.mem_cons.1 hy with rfl | hy
    · exact hnodup.1.1 heq
    · exact hnodup.2.1 (List.mem_map.2 ⟨y, hy, heq⟩)
  refine ⟨h.settled.writeRecord (h.settled.named.valid hrecord) (h.settled.not_pointer hrecord hstate)
    (.inr (.inr rfl)), fun y hy => ?_, ?_, fun id r hr hbuilding => ?_⟩
  · rw [record_writeRecord, if_neg (hother y hy)]
    refine h.unseen y ?_
    rcases List.mem_cons.1 hy with rfl | hy
    · exact List.mem_cons_self
    · exact List.mem_cons_of_mem _ (List.mem_cons_of_mem _ hy)
  · simp only [List.map_cons, List.nodup_cons]
    exact ⟨hnodup.1.2, hnodup.2.2⟩
  · rw [record_writeRecord] at hr
    split_ifs at hr with heq
    · obtain rfl := Option.some.inj hr
      cases hbuilding
    · have hmem := h.only id r hr hbuilding
      simp only [Set.mem_ofPred_eq, List.map_cons, List.mem_cons] at hmem ⊢
      exact hmem.imp_right fun hmem => hmem.resolve_left heq

theorem createBuilding_between :
    Triple CrashPoint.BetweenWrites (fun d => Settled d ∧ Candidates ∅ d) (createBuilding moment roots)
      Settled (fun x d => OnlyCandidate x.1 d ∧ x.2.state = .building) (fun _ => Settled) := by
  have hfind : Triple CrashPoint.BetweenWrites (fun d => Settled d ∧ Candidates ∅ d)
      (uniqueGenerationId moment) Settled
      (fun id d => (Settled d ∧ Candidates ∅ d) ∧ d.record id = none ∧ validGenerationId id = true)
      (fun _ => Settled) := by
    refine Triple.load (fun d id hd hid => ?_) fun d _ hd _ => hd.1
    cases hfound : moment.names.find? fun name => (d.generations.get name).isNone with
    | none => rw [hfound] at hid; cases hid
    | some name =>
      rw [hfound] at hid
      obtain rfl := Except.ok.inj hid
      have hnone := List.find?_some hfound
      refine ⟨hd, ?_, moment.names_valid name (List.mem_of_find?_eq_some hfound)⟩
      rw [GenerationFiles.record, Option.isNone_iff_eq_none.1 hnone]
      rfl
  refine hfind.bind fun id => Triple.of_pre fun d₀ hfound => ?_
  obtain ⟨hd₀, hnone₀, hvalid⟩ := hfound
  -- a directory without a state file has no record
  have hsame : ∀ d dir, (Settled d ∧ Candidates ∅ d) ∧ d.record id = none →
      dir.state = (FileStep.directory d id).state →
      (Settled (FileStep.setDirectory d id dir) ∧ Candidates ∅ (FileStep.setDirectory d id dir)) ∧
        (FileStep.setDirectory d id dir).record id = none := by
    intro d dir hd hdir
    have hrecord : ∀ id', (FileStep.setDirectory d id dir).record id' = d.record id' := by
      intro id'
      rw [record_setDirectory]
      split_ifs with heq
      · rw [hdir, heq, ← record_eq]
      · rfl
    refine ⟨⟨⟨hd.1.1.named.setDirectory hvalid, fun id' hid' => ?_, fun id' r hr hid' => ?_⟩,
      fun id' r hr => ?_⟩, ?_⟩
    · rw [hrecord]
      exact hd.1.1.active id' hid'
    · rw [hrecord] at hr
      exact hd.1.1.other id' r hr hid'
    · rw [hrecord] at hr
      exact hd.1.2 id' r hr
    · rw [hrecord]
      exact hd.2
  have hcreate : Triple CrashPoint.BetweenWrites
      (fun d => (Settled d ∧ Candidates ∅ d) ∧ d.record id = none) (perform (.createDirectory id))
      Settled (fun _ d => (Settled d ∧ Candidates ∅ d) ∧ d.record id = none) (fun _ => Settled) :=
    perform_between (fun d hd _ => hd.1.1) fun d hd => hsame d _ hd rfl
  have hbuild : Triple CrashPoint.BetweenWrites
      (fun d => (Settled d ∧ Candidates ∅ d) ∧ d.record id = none) (perform (.buildIndex id))
      Settled (fun _ d => (Settled d ∧ Candidates ∅ d) ∧ d.record id = none) (fun _ => Settled) :=
    perform_between (fun d hd _ => hd.1.1) fun d hd => hsame d _ hd rfl
  have hwrite : Triple CrashPoint.BetweenWrites
      (fun d => (Settled d ∧ Candidates ∅ d) ∧ d.record id = none)
      (perform (.writeRecord id (moment.buildingRecord roots))) Settled
      (fun _ => OnlyCandidate id) (fun _ => Settled) := by
    refine perform_between (fun d hd _ => hd.1.1) fun d hd => ?_
    obtain ⟨⟨hsettled, hempty⟩, hnone⟩ := hd
    have hpointer : d.activePointer ≠ some id := by
      intro hid
      obtain ⟨r, hr, -⟩ := hsettled.active id hid
      rw [hnone] at hr
      cases hr
    have hall : Candidates {id} d := fun id' r hr hb => absurd (hempty id' r hr hb) (Set.notMem_empty _)
    exact ⟨hsettled.writeRecord hvalid hpointer (.inl rfl), ⟨moment.buildingRecord roots, by simp, rfl⟩,
      hall.writeRecord fun _ => rfl⟩
  refine Triple.pre (hcreate.bind fun _ => hbuild.bind fun _ => hwrite.bind fun _ => ?_)
    fun d hd => hd ▸ ⟨hd₀, hnone₀⟩
  exact Triple.ret fun d hd => ⟨hd, rfl⟩

theorem recoverOrCreateBuilding_between :
    Triple CrashPoint.BetweenWrites Settled (recoverOrCreateBuilding moment roots) Settled
      (fun x d => OnlyCandidate x.1 d ∧ x.2.state = .building) (fun _ => Settled) := by
  refine (records_between (fun d hd => hd.named) fun _ d hd => hd).bind fun found =>
    Triple.of_pre fun d₀ ⟨hd₀, hlisted⟩ => ?_
  have hmem : ∀ x ∈ newestFirst (inState .building found),
      d₀.record x.1 = some x.2 ∧ x.2.state = .building := fun x hx => by
    obtain ⟨hfound, hstate⟩ := mem_newestFirst.1 hx
    exact ⟨(hlisted.mem x.1 x.2).1 hfound, hstate⟩
  have hall : Candidates {id | id ∈ (newestFirst (inState .building found)).map (·.1)} d₀ :=
    fun id r hr hbuilding => List.mem_map.2
      ⟨(id, r), mem_newestFirst.2 ⟨(hlisted.mem id r).2 hr, hbuilding⟩, rfl⟩
  have hnodup : ((newestFirst (inState .building found)).map (·.1)).Nodup := by
    refine (List.Perm.nodup_iff (List.Perm.map _ (List.perm_insertionSort _ _))).2 ?_
    exact hlisted.nodup.sublist (List.filter_sublist.map _)
  cases hbuilding : newestFirst (inState .building found) with
  | nil =>
    rw [hbuilding] at hall
    exact createBuilding_between.pre fun d hd => hd ▸ ⟨hd₀, by simpa using hall⟩
  | cons candidate stale =>
    rw [hbuilding] at hmem hall hnodup
    have hloop : Triple CrashPoint.BetweenWrites (Failing candidate stale)
        (Cut.each (writeState moment .failed) stale) Settled (fun _ => Failing candidate [])
        (fun _ => Settled) :=
      Triple.each_rest fun x rest _ => perform_between (fun d hd _ => hd.settled) fun d hd => hd.fail
    have hcandidate : ∀ d, Failing candidate [] d → OnlyCandidate candidate.1 d := by
      intro d hd
      obtain ⟨hrecord, hstate⟩ := hd.unseen candidate List.mem_cons_self
      exact ⟨hd.settled, ⟨candidate.2, hrecord, hstate⟩, by simpa using hd.only⟩
    refine Triple.pre (hloop.bind fun _ => ?_) fun d hd => hd ▸ ⟨hd₀, hmem, hnodup, hall⟩
    split_ifs with hroots
    · exact Triple.ret fun d hd => ⟨hcandidate d hd, (hd.unseen candidate List.mem_cons_self).2⟩
    · have hfail : Triple CrashPoint.BetweenWrites (Failing candidate [])
          (writeState moment .failed candidate) Settled (fun _ d => Settled d ∧ Candidates ∅ d)
          (fun _ => Settled) := by
        refine perform_between (fun d hd _ => hd.settled) fun d hd => ?_
        have hc := hcandidate d hd
        refine ⟨hc.settled.writeRecord hc.valid hc.not_pointer (.inr (.inr rfl)),
          fun id r hr hb => ?_⟩
        rw [record_writeRecord] at hr
        split_ifs at hr with heq
        · obtain rfl := Option.some.inj hr
          cases hb
        · exact absurd (hc.only id r hr hb) heq
      exact hfail.bind fun _ => createBuilding_between

end Candidate

section Activation

variable {moment : Moment}

/-- The pointer leads to the generation; the one it led to before is still
active, everything else is retired or failed. -/
structure Switched (id : String) (previous : Option String) (d : GenerationFiles) : Prop where
  named : Named d
  designated : d.activePointer = some id
  present : (d.record id).isSome
  old : ∀ p, previous = some p → p ≠ id ∧ (d.record p).isSome
  other : ∀ id' r, d.record id' = some r → id' ≠ id →
    (previous = some id' ∧ r.state = .active) ∨ r.state = .retired ∨ r.state = .failed

theorem Switched.repairable {id : String} {previous : Option String} {d : GenerationFiles}
    (h : Switched id previous d) : Repairable d := by
  refine ⟨h.named, fun id' hid' => ?_, fun id' r hr hid' hready => ?_, fun hnone => ?_⟩
  · obtain rfl : id = id' := Option.some.inj (h.designated.symm.trans hid')
    exact h.present
  · have hne : id' ≠ id := by
      rintro rfl
      exact hid' h.designated
    rcases h.other id' r hr hne with ⟨-, hs⟩ | hs | hs <;> rw [hready] at hs <;> cases hs
  · rw [h.designated] at hnone
    cases hnone

/-- Directories are removed, not the designated one. -/
theorem collectGarbage_between {S : Set String} {a : Option String} {retainRetired : Nat} :
    Triple CrashPoint.BetweenWrites (fun d => (Settled d ∧ Candidates S d) ∧ d.activePointer = a)
      (collectGarbage moment retainRetired) Settled
      (fun _ d => (Settled d ∧ Candidates S d) ∧ d.activePointer = a) (fun _ => Settled) := by
  refine Triple.peek.bind fun active => ?_
  refine (records_between (fun d hd => hd.1.1.1.named) fun _ d hd => hd.1.1.1).bind fun found => ?_
  refine Triple.of_pre fun d₀ ⟨⟨hd₀, hactive⟩, _⟩ => ?_
  refine Triple.pre (P := fun d => (Settled d ∧ Candidates S d) ∧ d.activePointer = a)
    (Triple.each fun x _ => ?_) fun d hd => hd ▸ hd₀
  unfold discard
  split_ifs with hspared
  · exact Triple.ret fun d hd => hd
  · refine perform_between (fun d hd _ => hd.1.1) fun d hd => ?_
    have hne : d.activePointer ≠ some x.1 := by
      rw [hd.2, ← hd₀.2, hactive]
      exact fun h => hspared (.inl h)
    exact ⟨⟨hd.1.1.removeDirectory hne, hd.1.2.removeDirectory⟩, hd.2⟩

/-- Once the old generation is retired, the records agree with the new pointer. -/
theorem retirePrevious_between {id : String} {previous : Option String} :
    Triple CrashPoint.BetweenWrites
      (fun d => Switched id previous d ∧ ∃ r, d.record id = some r ∧ r.state = .active)
      (retirePrevious moment id previous) Repairable
      (fun _ d => (Settled d ∧ Candidates ∅ d) ∧ d.activePointer = some id) (fun _ => Settled) := by
  -- the end state, once no other generation is active
  have hdone : ∀ d, Switched id none d → (∃ r, d.record id = some r ∧ r.state = .active) →
      (Settled d ∧ Candidates ∅ d) ∧ d.activePointer = some id := by
    intro d hd hself
    have hother : ∀ id' r, d.record id' = some r → id' ≠ id → r.state = .retired ∨ r.state = .failed :=
      fun id' r hr hne => (hd.other id' r hr hne).resolve_left fun h => by cases h.1
    refine ⟨⟨⟨hd.named, fun id' hid' => ?_, fun id' r hr hid' => ?_⟩, fun id' r hr hb => ?_⟩,
      hd.designated⟩
    · obtain rfl : id = id' := Option.some.inj (hd.designated.symm.trans hid')
      exact hself
    · refine .inr (hother id' r hr ?_)
      rintro rfl
      exact hid' hd.designated
    · by_cases heq : id' = id
      · subst heq
        obtain ⟨r', hr', hactive⟩ := hself
        rw [hr] at hr'
        obtain rfl := Option.some.inj hr'
        rw [hb] at hactive
        cases hactive
      · rcases hother id' r hr heq with hs | hs <;> rw [hb] at hs <;> cases hs
  unfold retirePrevious
  cases previous with
  | none => exact Triple.ret fun d hd => hdone d hd.1 hd.2
  | some previous =>
    dsimp only
    refine Triple.of_pre fun d₀ ⟨hd₀, hself₀⟩ => ?_
    obtain ⟨hne, hsome⟩ := hd₀.old previous rfl
    obtain ⟨record, hrecord⟩ := Option.isSome_iff_exists.1 hsome
    rw [if_pos ⟨hne, hd₀.named.valid hrecord⟩]
    refine Triple.peek.bind fun found => Triple.of_pre fun d₁ ⟨hd₁, hfound⟩ => ?_
    subst hd₁
    rw [hrecord] at hfound
    subst hfound
    refine perform_between (fun d hd _ => hd ▸ hd₀.repairable) fun d hd => ?_
    subst hd
    refine hdone _ ⟨hd₀.named.setDirectory (hd₀.named.valid hrecord), hd₀.designated, ?_,
      fun p hp => (nomatch hp), fun id' r hr hid' => .inr ?_⟩ ?_
    · rw [record_writeRecord, if_neg hne.symm]
      exact hd₀.present
    · rw [record_writeRecord] at hr
      split_ifs at hr with heq
      · obtain rfl := Option.some.inj hr
        exact .inl rfl
      · refine (hd₀.other id' r hr hid').resolve_left fun h => heq (Option.some.inj h.1).symm
    · obtain ⟨r, hr, hactive⟩ := hself₀
      exact ⟨r, by rw [record_writeRecord, if_neg hne.symm]; exact hr, hactive⟩

/-- From the record that says ready to the records that agree with the new pointer. -/
theorem activateValidated_between {x : String × ContentGenerationRecord} {count : Nat} :
    Triple CrashPoint.BetweenWrites (OnlyCandidate x.1) (activateValidated moment x count) Repairable
      (fun r d => r.state = .active ∧ (Settled d ∧ Candidates ∅ d) ∧ d.activePointer = some x.1)
      (fun _ => Settled) := by
  have hopen : Triple CrashPoint.BetweenWrites (OnlyCandidate x.1) (openIndex x.1) Repairable
      (fun _ => OnlyCandidate x.1) (fun _ => Settled) :=
    Triple.load (fun d _ hd _ => hd) fun d _ hd _ => hd.settled
  refine hopen.bind fun _ => ?_
  split_ifs with hcount
  · refine Triple.of_pre fun d₀ hd₀ => ?_
    have hvalid := hd₀.valid
    -- ready, and the pointer still where it was: no crash is allowed here
    have hready : Triple CrashPoint.BetweenWrites (· = d₀) (writeState moment .ready x) Repairable
        (fun _ d => d = FileStep.run d₀ (.writeRecord x.1 (moment.stamp .ready x)))
        (fun _ => Settled) :=
      perform_between (fun d hd _ => hd ▸ hd₀.settled.repairable) fun d hd => hd ▸ rfl
    refine hready.bind fun _ => Triple.peek.bind fun previous => ?_
    have hpointer : Triple CrashPoint.BetweenWrites
        (fun d => d = FileStep.run d₀ (.writeRecord x.1 (moment.stamp .ready x)) ∧
          d.activePointer = previous)
        (perform (.writePointer ⟨x.1, moment.clock x.1 .active⟩)) Repairable
        (fun _ => Switched x.1 previous) (fun _ => Settled) := by
      refine perform_between (fun _ _ h => h.elim) fun d ⟨hd, hprevious⟩ => ?_
      subst hd
      rw [activePointer_writeRecord] at hprevious
      subst hprevious
      refine ⟨hd₀.settled.named.setDirectory hvalid, by simp, by simp, fun p hp => ?_,
        fun id' r hr hid' => ?_⟩
      · obtain ⟨r, hr, -⟩ := hd₀.settled.active p hp
        have hne : p ≠ x.1 := fun heq => hd₀.not_pointer (heq ▸ hp)
        refine ⟨hne, ?_⟩
        rw [record_writePointer, record_writeRecord, if_neg hne, hr]
        rfl
      · rw [record_writePointer, record_writeRecord, if_neg hid'] at hr
        by_cases hp : d₀.activePointer = some id'
        · obtain ⟨r', hr', hactive⟩ := hd₀.settled.active id' hp
          rw [hr] at hr'
          obtain rfl := Option.some.inj hr'
          exact .inl ⟨hp, hactive⟩
        · rcases hd₀.settled.other id' r hr hp with hb | hs
          · exact absurd (hd₀.only id' r hr hb) hid'
          · exact .inr hs
    have hactive : Triple CrashPoint.BetweenWrites (Switched x.1 previous)
        (writeState moment .active x) Repairable
        (fun _ d => Switched x.1 previous d ∧ ∃ r, d.record x.1 = some r ∧ r.state = .active)
        (fun _ => Settled) := by
      refine perform_between (fun d hd _ => hd.repairable) fun d hd => ?_
      refine ⟨⟨hd.named.setDirectory hvalid, hd.designated, by simp, fun p hp => ?_,
        fun id' r hr hid' => ?_⟩, moment.stamp .active x, by simp, rfl⟩
      · obtain ⟨hne, hsome⟩ := hd.old p hp
        refine ⟨hne, ?_⟩
        rw [record_writeRecord, if_neg hne]
        exact hsome
      · rw [record_writeRecord, if_neg hid'] at hr
        exact hd.other id' r hr hid'
    refine hpointer.bind fun _ => hactive.bind fun _ => retirePrevious_between.bind fun _ => ?_
    refine (collectGarbage_between.left fun _ h => h.repairable).bind fun _ => ?_
    exact Triple.ret fun d hd => ⟨rfl, hd⟩
  · have hfail : Triple CrashPoint.BetweenWrites (OnlyCandidate x.1) (writeState moment .failed x)
        Repairable (fun _ => Settled) (fun _ => Settled) :=
      perform_between (fun d hd _ => hd.settled.repairable) fun d hd =>
        hd.settled.writeRecord hd.valid hd.not_pointer (.inr (.inr rfl))
    exact hfail.bind fun _ => Triple.fail fun d hd => hd

/-- The candidate is still the only one, or it was activated and none is left. -/
def Turned (id : String) (r : ContentGenerationRecord) (d : GenerationFiles) : Prop :=
  (r.state = .building ∧ OnlyCandidate id d) ∨
    (r.state = .active ∧ (Settled d ∧ Candidates ∅ d) ∧ d.activePointer = some id)

theorem Turned.settled {id : String} {r : ContentGenerationRecord} {d : GenerationFiles}
    (h : Turned id r d) : Settled d := by
  rcases h with ⟨-, h⟩ | ⟨-, h, -⟩
  · exact h.settled
  · exact h.1

theorem takeTurns_between {id : String} (record : ContentGenerationRecord) (turns : List Turn)
    (hstate : record.state = .building) :
    Triple CrashPoint.BetweenWrites (OnlyCandidate id) (takeTurns moment id record turns) Repairable
      (Turned id) (fun _ => Settled) := by
  have hmeasure : Triple CrashPoint.BetweenWrites (OnlyCandidate id) (measureIndex id) Repairable
      (fun _ => OnlyCandidate id) (fun _ => Settled) :=
    Triple.load (fun d _ hd _ => hd) fun d _ hd _ => hd.settled
  have hopen : Triple CrashPoint.BetweenWrites (OnlyCandidate id) (openIndex id) Repairable
      (fun _ => OnlyCandidate id) (fun _ => Settled) :=
    Triple.load (fun d _ hd _ => hd) fun d _ hd _ => hd.settled
  induction turns generalizing record with
  | nil => exact Triple.ret fun d hd => .inl ⟨hstate, hd⟩
  | cons turn turns ih =>
    cases turn with
    | limited limit => exact hmeasure.bind fun _ => Triple.ret fun d hd => .inl ⟨hstate, hd⟩
    | failed error => exact Triple.fail fun d hd => hd.settled
    | page documents declared outcomes stamp bytes now =>
      have hwrite : ∀ r : ContentGenerationRecord, r.state = .building →
          Triple CrashPoint.BetweenWrites (OnlyCandidate id) (perform (.writeRecord id r)) Repairable
            (fun _ => OnlyCandidate id) (fun _ => Settled) := fun r hr =>
        perform_between (fun d hd _ => hd.settled.repairable) fun d hd => hd.writeRecord hr
      exact hmeasure.bind fun _ => hopen.bind fun _ =>
        (hwrite (record.advance documents declared outcomes stamp bytes now) hstate).bind fun _ =>
          ih _ hstate
    | noPage count =>
      have hactivate : ∀ candidate, Triple CrashPoint.BetweenWrites (OnlyCandidate id)
          (activateValidated moment (id, candidate) count) Repairable (Turned id)
          (fun _ => Settled) := fun candidate =>
        Triple.post (activateValidated_between (x := (id, candidate))) fun _ _ h => .inr h
      exact hmeasure.bind fun _ => hactivate _

/-- A rebuild that returns leaves one candidate at most. -/
theorem resume_between {roots : List (List String)} {turns : List Turn} :
    Triple CrashPoint.BetweenWrites Settled (resumeInitialGeneration moment roots turns) Repairable
      (fun _ d => Settled d ∧ ∃ id, Candidates {id} d) (fun _ => Settled) := by
  refine (recoverOrCreateBuilding_between.left fun _ h => h.repairable).bind fun x =>
    Triple.of_pre fun d₀ ⟨hd₀, hstate⟩ => ?_
  refine Triple.pre (P := OnlyCandidate x.1) ((takeTurns_between x.2 turns hstate).bind fun record => ?_)
    fun d hd => hd ▸ hd₀
  have hmeasure : Triple CrashPoint.BetweenWrites (Turned x.1 record) (measureIndex x.1) Repairable
      (fun _ => Turned x.1 record) (fun _ => Settled) :=
    Triple.load (fun d _ hd _ => hd) fun d _ hd _ => hd.settled
  have hwrite : ∀ r : ContentGenerationRecord, r.state = record.state →
      Triple CrashPoint.BetweenWrites (Turned x.1 record) (perform (.writeRecord x.1 r)) Repairable
        (fun _ d => Settled d ∧ ∃ id, Candidates {id} d) (fun _ => Settled) := by
    intro r hr
    refine perform_between (fun d hd _ => hd.settled.repairable) fun d hd => ?_
    rcases hd with ⟨hb, hd⟩ | ⟨ha, ⟨hsettled, hnone⟩, hpointer⟩
    · have hd' := hd.writeRecord (hr.trans hb)
      exact ⟨hd'.settled, x.1, hd'.only⟩
    · have hvalid : validGenerationId x.1 = true := by
        obtain ⟨r', hr', -⟩ := hsettled.active x.1 hpointer
        exact hsettled.named.valid hr'
      refine ⟨hsettled.writeActive hvalid hpointer (hr.trans ha), x.1, ?_⟩
      have hall : Candidates {x.1} d := fun id r hr hb =>
        absurd (hnone id r hr hb) (Set.notMem_empty _)
      exact hall.writeRecord fun _ => rfl
  refine hmeasure.bind fun _ => Triple.bind (hwrite { record with
    contentIndexBytes := moment.indexBytes, updatedAtUnixMs := moment.now } rfl) fun _ => ?_
  exact Triple.ret fun d hd => hd

end Activation

theorem ManagerCall.between (call : ManagerCall) :
    Triple CrashPoint.BetweenWrites Settled call.run Repairable (fun _ => Settled)
      (fun _ => Settled) := by
  cases call with
  | resume moment roots turns => exact resume_between.bind fun _ => Triple.ret fun d hd => hd.1
  | collect moment retainRetired =>
    refine Triple.of_pre fun d₀ hd₀ => ?_
    refine (collectGarbage_between (S := Set.univ) (a := d₀.activePointer)).mono (fun d hd => ?_)
      (fun _ h => h.repairable) (fun _ _ h => h.1.1) fun _ _ h => h
    subst hd
    exact ⟨⟨hd₀, fun _ _ _ _ => trivial⟩, rfl⟩

/-- What a run leaves: settled files with a manager open, repairable ones without. -/
theorem Managed.settled {live : Bool} {d : GenerationFiles}
    (h : Managed CrashPoint.BetweenWrites live d) : if live then Settled d else Repairable d := by
  have hrepairable : ∀ {live : Bool} {d : GenerationFiles}, (if live then Settled d else Repairable d) →
      Repairable d := fun {live d} h => by
    cases live with
    | false => exact h
    | true => exact h.repairable
  induction h with
  | empty =>
    exact ⟨fun _ _ h => (nomatch h), fun _ h => (nomatch h), fun _ _ h => (nomatch h),
      fun _ _ _ h => (nomatch h)⟩
  | @opened live d h moment ih =>
    have htriple : Triple CrashPoint.BetweenWrites Repairable (recoverLifecycle moment) Repairable
        (fun _ => Settled) (fun _ => Repairable) := recoverLifecycle_settles
    cases hresult : (recoverLifecycle moment d).result with
    | ok a => exact htriple.ok d a (hrepairable ih) hresult
    | error e => exact htriple.error d e (hrepairable ih) hresult
  | diedOpening h moment hpoint hallowed ih =>
    exact recoverLifecycle_settles.crash _ (hrepairable ih) _ hpoint hallowed
  | called h call ih => exact call.between.final ih (fun _ _ hd => hd) fun _ _ hd => hd
  | died h call hpoint hallowed ih => exact call.between.crash _ ih _ hpoint hallowed
  | closed h ih => exact ih.repairable

theorem Managed.mono {allowed allowed' : CrashPoint → Prop} (hallowed : ∀ p, allowed p → allowed' p)
    {live : Bool} {d : GenerationFiles} (h : Managed allowed live d) : Managed allowed' live d := by
  induction h with
  | empty => exact .empty
  | opened h moment ih => exact .opened ih moment
  | diedOpening h moment hpoint hp ih => exact .diedOpening ih moment hpoint (hallowed _ hp)
  | called h call ih => exact .called ih call
  | died h call hpoint hp ih => exact .died ih call hpoint (hallowed _ hp)
  | closed h ih => exact .closed ih

theorem CrashPoint.BetweenWrites.harmless {point : CrashPoint} (h : point.BetweenWrites) :
    point.Harmless := by
  cases point with
  | before step => trivial
  | building | tearingRecord | tearingPointer | removing => exact h.elim

/-- Exactly the designated generation is active, every other one is a candidate
or will be collected, and there is one candidate at most. -/
structure LifeCycle (d : GenerationFiles) : Prop where
  designated : ∀ id, d.activePointer = some id → (d.record id).isSome
  active : ∀ id r, d.record id = some r → (r.state = .active ↔ d.activePointer = some id)
  other : ∀ id r, d.record id = some r → d.activePointer ≠ some id →
    r.state = .building ∨ r.state = .retired ∨ r.state = .failed
  one : ∀ id id' r r', d.record id = some r → d.record id' = some r' →
    r.state = .building → r'.state = .building → id = id'

theorem Settled.lifeCycle {d : GenerationFiles} {id : String} (h : Settled d) (honly : Candidates {id} d) :
    LifeCycle d := by
  refine ⟨h.repairable.present, fun id r hr => ⟨fun hactive => ?_, fun hid => ?_⟩, h.other,
    fun id₁ id₂ r₁ r₂ hr₁ hr₂ hb₁ hb₂ => (honly id₁ r₁ hr₁ hb₁).trans (honly id₂ r₂ hr₂ hb₂).symm⟩
  · by_contra hid
    rcases h.other id r hr hid with hs | hs | hs <;> rw [hactive] at hs <;> cases hs
  · obtain ⟨r', hr', hactive⟩ := h.active id hid
    rw [hr] at hr'
    obtain rfl := Option.some.inj hr'
    exact hactive

/-- The directories that must not go are as they were. -/
def Spared (d d' : GenerationFiles) : Prop :=
  ∀ id, (d.activePointer = some id ∨ ∃ r, d.record id = some r ∧ r.state = .building) →
    d'.generations.get id = d.generations.get id

/-- Garbage collection spares the designated generation and every candidate,
wherever it is cut. -/
theorem collectGarbage_spares (moment : Moment) (retainRetired : Nat) (d₀ : GenerationFiles) :
    Triple (fun _ => True) (· = d₀) (collectGarbage moment retainRetired) (Spared d₀)
      (fun _ => Spared d₀) (fun _ => Spared d₀) := by
  have hstart : Spared d₀ d₀ := fun _ _ => rfl
  refine Triple.peek.bind fun active => Triple.of_pre fun d ⟨hd, hactive⟩ => ?_
  rw [hd] at hactive ⊢
  have hrecords : Triple (fun _ => True) (· = d₀) (records moment) (Spared d₀)
      (fun found d' => d' = d₀ ∧ ∀ x ∈ found, d₀.record x.1 = some x.2) (fun _ => Spared d₀) := by
    refine Triple.load (fun d' found hd' hfound => ⟨hd', fun x hx => ?_⟩) fun d' _ hd' _ => hd' ▸ hstart
    rw [hd'] at hfound
    exact (((readRecords_mem hfound).1 x.1 x.2).1 hx).2.2
  refine hrecords.bind fun found => Triple.of_pre fun d' ⟨hd', hfound⟩ => ?_
  rw [hd']
  refine Triple.pre (P := Spared d₀) (Triple.each fun x hx => ?_) fun d' hd' => hd' ▸ hstart
  unfold discard
  split_ifs with hspared
  · exact Triple.ret fun d' hd' => hd'
  · -- only the directory of a failed or retired generation is touched
    have hstate : x ∈ found ∧ (x.2.state = .failed ∨ x.2.state = .retired) := by
      rcases List.mem_append.1 hx with hx | hx
      · obtain ⟨hmem, hs⟩ := List.mem_filter.1 hx
        exact ⟨hmem, .inl (of_decide_eq_true hs)⟩
      · obtain ⟨hmem, hs⟩ := mem_newestFirst.1 (List.mem_of_mem_drop hx)
        exact ⟨hmem, .inr hs⟩
    have hother : ∀ id, (d₀.activePointer = some id ∨ ∃ r, d₀.record id = some r ∧ r.state = .building) →
        id ≠ x.1 := by
      rintro id (hid | ⟨r, hr, hb⟩) rfl
      · exact hspared (.inl (hactive.symm.trans hid))
      · rw [hfound x hstate.1] at hr
        obtain rfl := Option.some.inj hr
        rcases hstate.2 with hs | hs <;> rw [hb] at hs <;> cases hs
    refine perform_triple (fun d' hd' _ => hd') (fun d' hd' y hy _ id hid => ?_) fun d' hd' id hid => ?_
    · simp only [FileStep.inside] at hy
      cases hget : d'.generations.get x.1 with
      | none => rw [hget] at hy; cases hy
      | some dir =>
        rw [hget] at hy
        obtain ⟨left, -, rfl⟩ := List.mem_map.1 hy
        exact (Table.get_insert_ne _ _ (hother id hid)).trans (hd' id hid)
    · exact ((Table.get_erase _ _ _).trans (if_neg (hother id hid))).trans (hd' id hid)

/-- In every run without a crash right before the pointer is written, opening the
manager and a rebuild that returns leave the records in agreement with the
pointer; and garbage collection never touches the designated generation or a
candidate. -/
theorem generation_life_cycle {live : Bool} {d : GenerationFiles}
    (h : Managed CrashPoint.BetweenWrites live d) :
    (∀ opening moment roots turns record,
      (resumeInitialGeneration moment roots turns (recoverLifecycle opening d).final).result =
        .ok record →
      LifeCycle
        (resumeInitialGeneration moment roots turns (recoverLifecycle opening d).final).final) ∧
    ∀ (files : GenerationFiles) moment retainRetired,
      Spared files (collectGarbage moment retainRetired files).final ∧
        ∀ x ∈ (collectGarbage moment retainRetired files).crashes, Spared files x.2 := by
  constructor
  · intro opening moment roots turns record hrecord
    have hsound := (h.mono fun _ hp => hp.harmless).sound
    have hsettled : Settled (recoverLifecycle opening d).final := by
      have hopened := Managed.settled (Managed.opened h opening)
      rw [hsound.recovers.opens opening] at hopened
      exact hopened
    obtain ⟨hdone, id, honly⟩ := resume_between.ok _ record hsettled hrecord
    exact hdone.lifeCycle honly
  · intro files moment retainRetired
    have hspares := collectGarbage_spares moment retainRetired files
    exact ⟨hspares.final rfl (fun _ _ hd => hd) fun _ _ hd => hd,
      fun x hx => hspares.crash files rfl x hx trivial⟩

section Example

/-- A rebuild of nothing, which validates at once. -/
def emptyRebuild : ManagerCall := .resume sampleMoment [] [.noPage 0]

/-- A process that dies between the record that says ready and the pointer leaves
a generation that is ready for good. -/
theorem readyGeneration_stays : ¬ ∀ (live : Bool) (d : GenerationFiles),
    Managed (fun point => ∃ step, point = .before step) live d →
    (∀ opening moment roots turns record,
      (resumeInitialGeneration moment roots turns (recoverLifecycle opening d).final).result =
        .ok record →
      LifeCycle
        (resumeInitialGeneration moment roots turns (recoverLifecycle opening d).final).final) ∧
    ∀ (files : GenerationFiles) moment retainRetired,
      Spared files (collectGarbage moment retainRetired files).final ∧
        ∀ x ∈ (collectGarbage moment retainRetired files).crashes, Spared files x.2 := by
  intro hclaim
  have hbefore : ∃ step, (diedAt emptyRebuild 7).1 = .before step := by
    have hlabel : (match (diedAt emptyRebuild 7).1 with
        | .before _ => true
        | _ => false) = true := by decide
    revert hlabel
    cases (diedAt emptyRebuild 7).1 <;> simp
  have hdied := Managed.died (opened_empty fun point => ∃ step, point = .before step) emptyRebuild
    (diedAt_mem (n := 7) (by decide)) hbefore
  have hok : (resumeInitialGeneration sampleMoment [] []
      (recoverLifecycle sampleMoment (diedAt emptyRebuild 7).2).final).result.isOk = true := by
    decide
  obtain ⟨record, hrecord⟩ := ok_of_isOk hok
  have hcycle := (hclaim false _ hdied).1 sampleMoment sampleMoment [] [] record hrecord
  have hready : (((resumeInitialGeneration sampleMoment [] []
      (recoverLifecycle sampleMoment (diedAt emptyRebuild 7).2).final).final.record
      "generation-1").map (·.state)) = some .ready := by decide
  obtain ⟨r, hr, hstate⟩ := Option.map_eq_some_iff.1 hready
  have hpointer : (resumeInitialGeneration sampleMoment [] []
      (recoverLifecycle sampleMoment (diedAt emptyRebuild 7).2).final).final.activePointer ≠
      some "generation-1" := by decide
  rcases hcycle.other _ r hr hpointer with hs | hs | hs <;> rw [hstate] at hs <;> cases hs

/-- A process that dies one step later leaves what opening repairs. -/
theorem designatedGeneration_repaired :
    LifeCycle (resumeInitialGeneration sampleMoment [] []
      (recoverLifecycle sampleMoment (diedAt emptyRebuild 9).2).final).final := by
  have hbetween : (diedAt emptyRebuild 9).1.BetweenWrites := by
    have hlabel : (match (diedAt emptyRebuild 9).1 with
        | .before (.writePointer _) => false
        | .before _ => true
        | _ => false) = true := by decide
    revert hlabel
    rcases (diedAt emptyRebuild 9).1 with step | _ | _ | _ | _ <;>
      first | cases step <;> simp [CrashPoint.BetweenWrites] | simp
  have hok : (resumeInitialGeneration sampleMoment [] []
      (recoverLifecycle sampleMoment (diedAt emptyRebuild 9).2).final).result.isOk = true := by
    decide
  obtain ⟨record, hrecord⟩ := ok_of_isOk hok
  exact (generation_life_cycle (Managed.died (opened_empty _) emptyRebuild
    (diedAt_mem (n := 9) (by decide)) hbetween)).1 sampleMoment sampleMoment [] [] record
    hrecord

end Example

end LocalSearch.Content
