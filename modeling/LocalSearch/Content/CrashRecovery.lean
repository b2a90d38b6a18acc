import LocalSearch.Content.GenerationFiles

/-!
# Recovery of the generation manager

Whatever the crash, the next process finds records it can read, a pointer that
was or was about to be in force, and a candidate with its index, unless the
crash cut the first write of a record or the removal of a directory.
-/
namespace LocalSearch.Content

set_option autoImplicit false

open Core Lib Catalog

/-- A directory the manager can live with: no state file yet, or one it can read,
with the index when a rebuild would go on with it. -/
def Directory.Sound (dir : Directory) : Prop :=
  dir.state.present = false ∨
    ∃ record, dir.state.read = some record ∧ (record.state = .building → dir.index = .whole)

structure Sound (d : GenerationFiles) : Prop where
  named : ∀ id dir, d.generations.get id = some dir → validGenerationId id = true
  directory : ∀ id dir, d.generations.get id = some dir → dir.Sound
  pointer : ∀ id, d.activePointer = some id → validGenerationId id = true

/-- A crash that does no lasting harm: not inside the write of a record that has
no earlier one, and not inside a removal that leaves a state file unreadable or a
candidate without its index. -/
def CrashPoint.Harmless : CrashPoint → Prop
  | .before _ | .building | .tearingPointer => True
  | .tearingRecord file => file.read.isSome
  | .removing left => left.Sound

/-- Sound files, with a fact about the pointer and the indexes of some
generations. -/
structure Kept (A : Option String → Prop) (W : Set String) (d : GenerationFiles) : Prop where
  sound : Sound d
  pointer : A d.activePointer
  whole : ∀ id ∈ W, (FileStep.directory d id).index = .whole

section Steps

variable {A : Option String → Prop} {W : Set String} {d : GenerationFiles} {id : String}

@[simp] theorem directory_setDirectory (d : GenerationFiles) (id id' : String) (dir : Directory) :
    FileStep.directory (FileStep.setDirectory d id dir) id' =
      if id' = id then dir else FileStep.directory d id' := by
  unfold FileStep.directory FileStep.setDirectory
  rw [Table.get_insert]
  split_ifs <;> rfl

theorem Directory.sound_blank (index : IndexFiles) : Directory.Sound ⟨.blank, index⟩ := .inl rfl

theorem Sound.directory_sound (h : Sound d) (id : String) : (FileStep.directory d id).Sound := by
  unfold FileStep.directory
  cases hget : d.generations.get id with
  | none => exact Directory.sound_blank _
  | some dir => exact h.directory id dir hget

theorem Sound.setDirectory (h : Sound d) {dir : Directory} (hvalid : validGenerationId id = true)
    (hdir : dir.Sound) : Sound (FileStep.setDirectory d id dir) := by
  refine ⟨fun id' dir' hget => ?_, fun id' dir' hget => ?_, h.pointer⟩
  · by_cases heq : id' = id
    · exact heq ▸ hvalid
    · exact h.named id' dir' ((Table.get_insert_ne _ _ heq).symm.trans hget)
  · by_cases heq : id' = id
    · subst heq
      obtain rfl := Option.some.inj ((Table.get_insert_self _ _ _).symm.trans hget)
      exact hdir
    · exact h.directory id' dir' ((Table.get_insert_ne _ _ heq).symm.trans hget)

/-- A directory replaced by one with at least its index. -/
theorem Kept.setDirectory (h : Kept A W d) {dir : Directory} (hvalid : validGenerationId id = true)
    (hdir : dir.Sound) (hindex : id ∈ W → dir.index = .whole) :
    Kept A W (FileStep.setDirectory d id dir) := by
  refine ⟨h.sound.setDirectory hvalid hdir, h.pointer, fun id' hid' => ?_⟩
  rw [directory_setDirectory]
  split_ifs with heq
  · exact hindex (heq ▸ hid')
  · exact h.whole id' hid'

theorem Kept.imp_pointer {B : Option String → Prop} (h : Kept A W d) (hB : B d.activePointer) :
    Kept B W d :=
  ⟨h.sound, hB, h.whole⟩

theorem Kept.imp {B : Option String → Prop} (h : Kept A W d) (hB : ∀ p, A p → B p) : Kept B W d :=
  h.imp_pointer (hB _ h.pointer)

theorem Kept.subset {V : Set String} (h : Kept A W d) (hV : V ⊆ W) : Kept A V d :=
  ⟨h.sound, h.pointer, fun id hid => h.whole id (hV hid)⟩

theorem Directory.Sound.tear {dir : Directory} (h : dir.Sound) (hread : dir.state.read.isSome) :
    Directory.Sound { dir with state := dir.state.tear } := by
  obtain ⟨record, hrecord⟩ := Option.isSome_iff_exists.1 hread
  rcases h with habsent | ⟨record', hrecord', hindex⟩
  · rw [SlotFile.present_of_read hrecord] at habsent
    cases habsent
  · exact .inr ⟨record', (SlotFile.read_tear _).trans hrecord', hindex⟩

theorem Directory.sound_write {dir : Directory} {record : ContentGenerationRecord}
    (h : record.state = .building → dir.index = .whole) :
    Directory.Sound { dir with state := dir.state.write record } :=
  .inr ⟨record, SlotFile.read_write _ _, h⟩

/-- The rule for a step: what a crash before it, inside it and its end leave. -/
theorem perform_triple {allowed : CrashPoint → Prop} {P C : GenerationFiles → Prop}
    {Q : Unit → GenerationFiles → Prop} {E : ContentIndexError → GenerationFiles → Prop}
    {step : FileStep} (hbefore : ∀ d, P d → allowed (.before step) → C d)
    (hinside : ∀ d, P d → ∀ x ∈ step.inside d, allowed x.1 → C x.2)
    (hdone : ∀ d, P d → Q () (step.run d)) : Triple allowed P (perform step) C Q E := by
  refine Triple.step (fun d hd x hx hallowed => ?_) hdone
  rcases List.mem_cons.1 hx with rfl | hx
  · exact hbefore d hd hallowed
  · exact hinside d hd x hx hallowed

/-- A record is written, of a generation whose index is there if it is a candidate. -/
theorem writeRecord_kept {record : ContentGenerationRecord} (hvalid : validGenerationId id = true)
    (hindex : record.state = .building → id ∈ W) {E : ContentIndexError → GenerationFiles → Prop} :
    Triple CrashPoint.Harmless (Kept A W) (perform (.writeRecord id record)) (Kept A W)
      (fun _ => Kept A W) E := by
  refine perform_triple (fun d hd _ => hd) (fun d hd x hx hharmless => ?_) fun d hd => ?_
  · obtain rfl := List.mem_singleton.1 hx
    exact hd.setDirectory hvalid ((hd.sound.directory_sound id).tear hharmless) (hd.whole id)
  · exact hd.setDirectory hvalid (Directory.sound_write fun h => hd.whole id (hindex h)) (hd.whole id)

/-- The pointer is written. -/
theorem writePointer_kept {pointer : ActiveGenerationPointer}
    (hvalid : validGenerationId pointer.generationId = true) (hA : A (some pointer.generationId))
    {E : ContentIndexError → GenerationFiles → Prop} :
    Triple CrashPoint.Harmless (Kept A W) (perform (.writePointer pointer)) (Kept A W)
      (fun _ d => Kept A W d ∧ d.activePointer = some pointer.generationId) E := by
  refine perform_triple (fun d hd _ => hd) (fun d hd x hx _ => ?_) fun d hd => ?_
  · obtain rfl := List.mem_singleton.1 hx
    have htorn : GenerationFiles.activePointer { d with pointer := d.pointer.tear } = d.activePointer := by
      unfold GenerationFiles.activePointer
      rw [SlotFile.read_tear]
    exact ⟨⟨hd.sound.named, hd.sound.directory, fun id hid => hd.sound.pointer id (htorn ▸ hid)⟩,
      htorn ▸ hd.pointer, hd.whole⟩
  · have hnow : GenerationFiles.activePointer { d with pointer := d.pointer.write pointer } =
        some pointer.generationId := by
      unfold GenerationFiles.activePointer
      rw [SlotFile.read_write]
      rfl
    refine ⟨⟨⟨hd.sound.named, hd.sound.directory, fun id hid => ?_⟩, hnow ▸ hA, hd.whole⟩, hnow⟩
    rw [show (FileStep.run d (.writePointer pointer)).activePointer = _ from hnow] at hid
    obtain rfl := Option.some.inj hid
    exact hvalid

/-- A directory is removed whose index nobody needs. -/
theorem removeDirectory_kept (hid : id ∉ W) {E : ContentIndexError → GenerationFiles → Prop} :
    Triple CrashPoint.Harmless (Kept A W) (perform (.removeDirectory id)) (Kept A W)
      (fun _ => Kept A W) E := by
  refine perform_triple (fun d hd _ => hd) (fun d hd x hx hharmless => ?_) fun d hd => ?_
  · simp only [FileStep.inside] at hx
    cases hget : d.generations.get id with
    | none => rw [hget] at hx; cases hx
    | some dir =>
      rw [hget] at hx
      obtain ⟨left, -, rfl⟩ := List.mem_map.1 hx
      exact hd.setDirectory (hd.sound.named id dir hget) hharmless fun h => absurd h hid
  · have hget : ∀ id' dir, (d.generations.erase id).get id' = some dir →
        d.generations.get id' = some dir := by
      intro id' dir h
      rw [Table.get_erase] at h
      split_ifs at h
      exact h
    refine ⟨⟨fun id' dir h => hd.sound.named id' dir (hget id' dir h),
      fun id' dir h => hd.sound.directory id' dir (hget id' dir h), hd.sound.pointer⟩, hd.pointer,
      fun id' hid' => ?_⟩
    have hne : id' ≠ id := fun h => hid (h ▸ hid')
    have hsame : FileStep.directory (FileStep.run d (.removeDirectory id)) id' =
        FileStep.directory d id' := by
      simp [FileStep.directory, FileStep.run, hne]
    rw [hsame]
    exact hd.whole id' hid'

end Steps

/-- The records a listing returned. -/
structure Listed (found : List (String × ContentGenerationRecord)) (d : GenerationFiles) : Prop where
  valid : ∀ x ∈ found, validGenerationId x.1 = true
  mem : ∀ id record, (id, record) ∈ found ↔ d.record id = some record
  nodup : (found.map (·.1)).Nodup

section Records

variable {A : Option String → Prop} {W : Set String} {d : GenerationFiles} {id : String}

/-- What a listing that succeeds returns. -/
theorem readRecords_mem {names : List String} {found : List (String × ContentGenerationRecord)}
    (h : readRecords d names = .ok found) :
    (∀ id record, (id, record) ∈ found ↔
      id ∈ names ∧ validGenerationId id = true ∧ d.record id = some record) ∧
      (found.map (·.1)).Sublist names := by
  induction names generalizing found with
  | nil =>
    obtain rfl := Except.ok.inj h
    exact ⟨by simp, .refl _⟩
  | cons name names ih =>
    -- a name without a record is passed over
    have hskip : readRecords d names = .ok found →
        (∀ record, ¬ (validGenerationId name = true ∧ d.record name = some record)) →
        (∀ id record, (id, record) ∈ found ↔
          id ∈ name :: names ∧ validGenerationId id = true ∧ d.record id = some record) ∧
          (found.map (·.1)).Sublist (name :: names) := by
      intro hrest hnone
      obtain ⟨hmem, hsub⟩ := ih hrest
      refine ⟨fun id record => ?_, hsub.cons _⟩
      rw [hmem, List.mem_cons]
      refine ⟨fun hx => ⟨.inr hx.1, hx.2⟩, fun hx => ⟨hx.1.resolve_left ?_, hx.2⟩⟩
      rintro rfl
      exact hnone record hx.2
    simp only [readRecords] at h
    cases hget : d.generations.get name with
    | none =>
      rw [hget] at h
      refine hskip h fun record hx => ?_
      rw [GenerationFiles.record, hget] at hx
      cases hx.2
    | some dir =>
      have hrecord : d.record name = dir.state.read := by
        rw [GenerationFiles.record, hget]
        rfl
      rw [hget] at h
      dsimp only at h
      split_ifs at h with hthere
      · rw [Bool.and_eq_true] at hthere
        cases hread : dir.state.read with
        | none => rw [hread] at h; cases h
        | some record =>
          rw [hread] at h
          obtain ⟨rest, hrest, heq⟩ := bind_ok.1 h
          obtain rfl := Except.ok.inj heq
          obtain ⟨hmem, hsub⟩ := ih hrest
          refine ⟨fun id record' => ?_, hsub.cons_cons _⟩
          rw [List.mem_cons, hmem, List.mem_cons, Prod.mk.injEq]
          constructor
          · rintro (⟨rfl, rfl⟩ | hx)
            · exact ⟨.inl rfl, hthere.1, hrecord.trans hread⟩
            · exact ⟨.inr hx.1, hx.2⟩
          · rintro ⟨rfl | hid, hvalid, hr⟩
            · rw [hrecord, hread] at hr
              exact .inl ⟨rfl, (Option.some.inj hr).symm⟩
            · exact .inr ⟨hid, hvalid, hr⟩
      · refine hskip h fun record hx => hthere ?_
        rw [hx.1, SlotFile.present_of_read (hrecord.symm.trans hx.2)]
        rfl

/-- Every state file of a sound directory tree is read. -/
theorem readRecords_total (h : Sound d) (names : List String) :
    ∃ found, readRecords d names = .ok found := by
  induction names with
  | nil => exact ⟨[], rfl⟩
  | cons name names ih =>
    obtain ⟨found, hread⟩ := ih
    simp only [readRecords]
    cases hget : d.generations.get name with
    | none => exact ⟨found, hread⟩
    | some dir =>
      rcases h.directory name dir hget with habsent | ⟨record, hsome, -⟩
      · simp [habsent, hread]
      · simp [h.named name dir hget, SlotFile.present_of_read hsome, hsome, hread, ok_bind]

/-- A listing of directories with proper names returns every record once. -/
theorem records_listed {moment : Moment} {found : List (String × ContentGenerationRecord)}
    (hnamed : ∀ id dir, d.generations.get id = some dir → validGenerationId id = true)
    (h : readRecords d (moment.readDir (d.generations.rows.map (·.1))) = .ok found) :
    Listed found d := by
  obtain ⟨hmem, hsub⟩ := readRecords_mem h
  have hperm := moment.readDir_perm (d.generations.rows.map (·.1))
  refine ⟨fun x hx => ((hmem x.1 x.2).1 hx).2.1, fun id record => ?_, ?_⟩
  · rw [hmem]
    refine ⟨fun hx => hx.2.2, fun hr => ?_⟩
    obtain ⟨dir, hget, -⟩ := Option.bind_eq_some_iff.1 hr
    exact ⟨hperm.mem_iff.2 (List.mem_map.2 ⟨(id, dir), Table.mem_rows.2 hget, rfl⟩),
      hnamed id dir hget, hr⟩
  · have hkeys : (d.generations.rows.map (·.1)).Nodup := by
      have hselect := Table.select_keys_nodup d.generations fun _ _ => true
      simpa [Table.select] using hselect
    exact (hperm.nodup_iff.2 hkeys).sublist hsub

theorem records_kept (moment : Moment) {E : ContentIndexError → GenerationFiles → Prop} :
    Triple CrashPoint.Harmless (Kept A W) (records moment) (Kept A W)
      (fun found d => Kept A W d ∧ Listed found d) E := by
  refine Triple.load (fun d found hd hfound => ⟨hd, records_listed hd.sound.named hfound⟩)
    fun d e hd he => ?_
  obtain ⟨found, hread⟩ := readRecords_total hd.sound (moment.readDir (d.generations.rows.map (·.1)))
  rw [hread] at he
  cases he

end Records

section Programs

variable {A : Option String → Prop} {W : Set String} {moment : Moment}
  {E : ContentIndexError → GenerationFiles → Prop}

theorem writeState_kept {state : ContentGenerationState} {x : String × ContentGenerationRecord}
    (hvalid : validGenerationId x.1 = true) (hstate : state ≠ .building) :
    Triple CrashPoint.Harmless (Kept A W) (writeState moment state x) (Kept A W)
      (fun _ => Kept A W) E :=
  writeRecord_kept hvalid fun h => absurd h hstate

theorem recoverLifecycle_kept : Triple CrashPoint.Harmless (Kept A W) (recoverLifecycle moment)
    (Kept A W) (fun _ => Kept A W) E := by
  refine Triple.peek.bind fun pointer => ?_
  cases pointer with
  | none => exact Triple.ret fun d hd => hd.1
  | some pointer =>
    dsimp only
    split_ifs with hvalid
    · refine ((records_kept moment).pre fun d hd => hd.1).bind fun found => ?_
      refine Triple.of_pre fun d₀ hd₀ => ?_
      refine (Triple.each (I := Kept A W) fun x hx => ?_).pre fun d hd => hd ▸ hd₀.1
      have hx' := hd₀.2.valid x hx
      unfold repair desiredState
      split
      · exact Triple.ret fun d hd => hd
      · next desired hdesired =>
        split_ifs with hsame
        · exact Triple.ret fun d hd => hd
        · refine writeState_kept hx' ?_
          rintro rfl
          split_ifs at hdesired <;> cases hdesired
    · exact Triple.fail fun d hd => absurd (hd.1.sound.pointer pointer hd.2) hvalid

/-- A fresh candidate has its index. -/
theorem createBuilding_kept {roots : List (List String)}
    (hE : ∀ e d, Kept A W d → (∀ name ∈ moment.names, (d.generations.get name).isSome) →
      e = .io "content generation identifier space is exhausted" → E e d) :
    Triple CrashPoint.Harmless (Kept A W) (createBuilding moment roots) (Kept A W)
      (fun x d => Kept A (insert x.1 W) d ∧ validGenerationId x.1 = true) E := by
  -- the directory has no state file before the first write
  have hfind : Triple CrashPoint.Harmless (Kept A W) (uniqueGenerationId moment) (Kept A W)
      (fun id d => Kept A W d ∧ (FileStep.directory d id).state = .blank ∧ id ∉ W ∧
        validGenerationId id = true) E := by
    refine Triple.load (fun d id hd hid => ?_) fun d e hd he => ?_
    · cases hfound : moment.names.find? fun name => (d.generations.get name).isNone with
      | none => rw [hfound] at hid; cases hid
      | some name =>
        rw [hfound] at hid
        obtain rfl := Except.ok.inj hid
        have hnone := List.find?_some hfound
        have hmissing : FileStep.directory d name = ⟨.blank, .absent⟩ := by
          rw [FileStep.directory, Option.isNone_iff_eq_none.1 hnone]
          rfl
        refine ⟨hd, by rw [hmissing], fun hname => ?_,
          moment.names_valid name (List.mem_of_find?_eq_some hfound)⟩
        have hwhole := hd.whole name hname
        rw [hmissing] at hwhole
        cases hwhole
    · cases hfound : moment.names.find? fun name => (d.generations.get name).isNone with
      | some name => rw [hfound] at he; cases he
      | none =>
        rw [hfound] at he
        refine hE e d hd (fun name hname => ?_) (Except.error.inj he).symm
        have htaken := List.find?_eq_none.1 hfound name hname
        rwa [Bool.not_eq_true, Option.isNone_eq_false_iff] at htaken
  refine hfind.bind fun id => ?_
  refine Triple.of_pre fun d₀ hd₀ => ?_
  obtain ⟨hkept, hblank, hfresh, hvalid⟩ := hd₀
  have hcreate : Triple CrashPoint.Harmless (· = d₀) (perform (.createDirectory id)) (Kept A W)
      (fun _ d => Kept A W d ∧ (FileStep.directory d id).state = .blank) E := by
    refine perform_triple (fun d hd _ => hd ▸ hkept) (fun d _ x hx => (nomatch hx)) fun d hd => ?_
    subst hd
    refine ⟨hkept.setDirectory hvalid (hkept.sound.directory_sound id) (hkept.whole id), ?_⟩
    simp [FileStep.run, hblank]
  have hbuild : Triple CrashPoint.Harmless
      (fun d => Kept A W d ∧ (FileStep.directory d id).state = .blank) (perform (.buildIndex id))
      (Kept A W) (fun _ => Kept A (insert id W)) E := by
    have hsound : ∀ d index, (FileStep.directory d id).state = .blank →
        Directory.Sound { FileStep.directory d id with index := index } := by
      intro d index h
      dsimp only
      rw [h]
      exact Directory.sound_blank index
    refine perform_triple (fun d hd _ => hd.1) (fun d hd x hx _ => ?_) fun d hd => ?_
    · obtain rfl := List.mem_singleton.1 hx
      exact hd.1.setDirectory hvalid (hsound d .partly hd.2) fun h => absurd h hfresh
    · have hkept' := hd.1.setDirectory hvalid (hsound d .whole hd.2) fun _ => rfl
      refine ⟨hkept'.sound, hkept'.pointer, fun id' hid' => ?_⟩
      rcases Set.mem_insert_iff.1 hid' with rfl | hid'
      · simp [FileStep.run]
      · exact hkept'.whole id' hid'
  refine hcreate.bind fun _ => hbuild.bind fun _ => ?_
  refine ((writeRecord_kept hvalid fun _ => Set.mem_insert id W).left
    fun _ h => h.subset (Set.subset_insert id W)).bind fun _ => ?_
  exact Triple.ret fun d hd => ⟨hd, hvalid⟩

theorem mem_newestFirst {found : List (String × ContentGenerationRecord)}
    {state : ContentGenerationState} {x : String × ContentGenerationRecord} :
    x ∈ newestFirst (inState state found) ↔ x ∈ found ∧ x.2.state = state := by
  simp [newestFirst, inState, List.mem_filter]

/-- The candidate of a rebuild has its index. -/
theorem recoverOrCreateBuilding_kept {roots : List (List String)}
    (hE : ∀ e d, Kept A W d → (∀ name ∈ moment.names, (d.generations.get name).isSome) →
      e = .io "content generation identifier space is exhausted" → E e d) :
    Triple CrashPoint.Harmless (Kept A W) (recoverOrCreateBuilding moment roots) (Kept A W)
      (fun x d => Kept A (insert x.1 W) d ∧ validGenerationId x.1 = true) E := by
  refine (records_kept moment).bind fun found => Triple.of_pre fun d₀ ⟨hkept, hlisted⟩ => ?_
  have hfailed : ∀ V, ∀ x ∈ newestFirst (inState .building found), Triple CrashPoint.Harmless
      (Kept A V) (writeState moment .failed x) (Kept A V) (fun _ => Kept A V) E := fun V x hx =>
    writeState_kept (hlisted.valid x (mem_newestFirst.1 hx).1) (by decide)
  cases hbuilding : newestFirst (inState .building found) with
  | nil =>
    exact (createBuilding_kept hE).pre fun d hd => hd ▸ hkept
  | cons candidate stale =>
    have hcandidate : candidate ∈ newestFirst (inState .building found) := by
      rw [hbuilding]
      exact List.mem_cons_self
    obtain ⟨hfound, hstate⟩ := mem_newestFirst.1 hcandidate
    have hvalid := hlisted.valid candidate hfound
    have hrecord := (hlisted.mem candidate.1 candidate.2).1 hfound
    have hwhole : Kept A (insert candidate.1 W) d₀ := by
      refine ⟨hkept.sound, hkept.pointer, fun id hid => ?_⟩
      rcases Set.mem_insert_iff.1 hid with rfl | hid
      · obtain ⟨dir, hget, hread⟩ := Option.bind_eq_some_iff.1 hrecord
        have hdir : FileStep.directory d₀ candidate.1 = dir := by
          rw [FileStep.directory, hget]
          rfl
        rcases hkept.sound.directory _ dir hget with habsent | ⟨record, hsome, hindex⟩
        · rw [SlotFile.present_of_read hread] at habsent
          cases habsent
        · rw [hread] at hsome
          obtain rfl := Option.some.inj hsome
          rw [hdir]
          exact hindex hstate
      · exact hkept.whole id hid
    have hstale : Triple CrashPoint.Harmless (· = d₀) (Cut.each (writeState moment .failed) stale)
        (Kept A W) (fun _ => Kept A (insert candidate.1 W)) E := by
      refine ((Triple.each (I := Kept A (insert candidate.1 W)) (C := Kept A (insert candidate.1 W))
        fun x hx => ?_).left fun _ h => h.subset (Set.subset_insert _ _)).pre fun d hd => hd ▸ hwhole
      refine hfailed _ x ?_
      rw [hbuilding]
      exact List.mem_cons_of_mem _ hx
    refine hstale.bind fun _ => ?_
    split_ifs with hroots
    · exact Triple.ret fun d hd => ⟨hd, hvalid⟩
    · exact ((hfailed W candidate hcandidate).pre fun _ h => h.subset (Set.subset_insert _ _)).bind
        fun _ => createBuilding_kept hE

/-- Garbage collection spares the generations whose index is needed when the
pointer designates them. -/
theorem collectGarbage_kept {retainRetired : Nat}
    (hW : ∀ id ∈ W, ∀ pointer, A pointer → pointer = some id) :
    Triple CrashPoint.Harmless (Kept A W) (collectGarbage moment retainRetired) (Kept A W)
      (fun _ => Kept A W) E := by
  refine Triple.peek.bind fun active => ?_
  -- the pointer does not move while directories are removed
  have hnow : Triple CrashPoint.Harmless (Kept (fun p => A p ∧ p = active) W)
      (records moment >>= fun found => Cut.each (discard active) (removable retainRetired found))
      (Kept (fun p => A p ∧ p = active) W) (fun _ => Kept (fun p => A p ∧ p = active) W) E := by
    refine (records_kept moment).bind fun found => Triple.of_pre fun d₀ ⟨hkept, _⟩ => ?_
    refine (Triple.each (I := Kept (fun p => A p ∧ p = active) W) fun x hx => ?_).pre
      fun d hd => hd ▸ hkept
    unfold discard
    split_ifs with hspared
    · exact Triple.ret fun d hd => hd
    · exact removeDirectory_kept fun hid => hspared (.inl (hW x.1 hid active (hkept.pointer.2 ▸ hkept.pointer.1)))
  exact (((hnow.left fun _ h => h.imp fun _ hp => hp.1).post fun _ _ h => h.imp fun _ hp => hp.1)).pre
    fun d hd => hd.1.imp_pointer ⟨hd.1.pointer, hd.2⟩

theorem index_kept {id : String} (hid : id ∈ W) :
    Triple CrashPoint.Harmless (Kept A W) (measureIndex id) (Kept A W) (fun _ => Kept A W) E ∧
      Triple CrashPoint.Harmless (Kept A W) (openIndex id) (Kept A W) (fun _ => Kept A W) E := by
  constructor
  · refine Triple.load (fun d _ hd _ => hd) fun d e hd he => ?_
    rw [hd.whole id hid, if_neg (by decide)] at he
    cases he
  · refine Triple.load (fun d _ hd _ => hd) fun d e hd he => ?_
    rw [if_pos (hd.whole id hid)] at he
    cases he

theorem retirePrevious_kept {id : String} {previous : Option String} :
    Triple CrashPoint.Harmless (Kept A W) (retirePrevious moment id previous) (Kept A W)
      (fun _ => Kept A W) E := by
  unfold retirePrevious
  cases previous with
  | none => exact Triple.ret fun d hd => hd
  | some previous =>
    dsimp only
    split_ifs with hother
    · refine Triple.peek.bind fun found => ?_
      cases found with
      | none => exact Triple.ret fun d hd => hd.1
      | some record =>
        have hwrite : Triple CrashPoint.Harmless (Kept A W)
            (writeState moment .retired (previous, record)) (Kept A W) (fun _ => Kept A W) E :=
          writeState_kept hother.2 (by decide)
        exact hwrite.pre fun d hd => hd.1
    · exact Triple.ret fun d hd => hd

/-- The pointer leads where it led, or to the generation that is being activated. -/
def Leads (before : Option String) (id : String) (pointer : Option String) : Prop :=
  pointer = before ∨ pointer = some id

theorem activateValidated_kept {before : Option String} {x : String × ContentGenerationRecord}
    {count : Nat} (hvalid : validGenerationId x.1 = true)
    (hE : ∀ d, Kept (Leads before x.1) {x.1} d → E .missingPayload d) :
    Triple CrashPoint.Harmless (Kept (Leads before x.1) {x.1}) (activateValidated moment x count)
      (Kept (Leads before x.1) {x.1})
      (fun record d => Kept (Leads before x.1) {x.1} d ∧ record.state = .active) E := by
  refine (index_kept (Set.mem_singleton x.1)).2.bind fun _ => ?_
  have hwrite : ∀ (B : Option String → Prop) state, state ≠ .building → Triple CrashPoint.Harmless
      (Kept B {x.1}) (writeState moment state x) (Kept B {x.1}) (fun _ => Kept B {x.1}) E :=
    fun B state hstate => writeState_kept hvalid hstate
  split_ifs with hcount
  · refine (hwrite _ .ready (by decide)).bind fun _ => Triple.peek.bind fun previous => ?_
    -- from the pointer write on it designates the candidate
    have hpointer : Triple CrashPoint.Harmless (Kept (Leads before x.1) {x.1})
        (perform (.writePointer ⟨x.1, moment.clock x.1 .active⟩)) (Kept (Leads before x.1) {x.1})
        (fun _ => Kept (· = some x.1) {x.1}) E :=
      (writePointer_kept hvalid (.inr rfl)).post fun _ d hd => hd.1.imp_pointer hd.2
    have hleads : ∀ d, Kept (· = some x.1) {x.1} d → Kept (Leads before x.1) {x.1} d :=
      fun d hd => hd.imp fun p hp => .inr hp
    refine (hpointer.pre fun d hd => hd.1).bind fun _ => ?_
    refine ((hwrite _ .active (by decide)).left hleads).bind fun _ => ?_
    refine (retirePrevious_kept.left hleads).bind fun _ => ?_
    refine ((collectGarbage_kept fun id hid p hp => ?_).left hleads).bind fun _ => ?_
    · rw [Set.mem_singleton_iff.1 hid]
      exact hp
    · exact Triple.ret fun d hd => ⟨hleads d hd, rfl⟩
  · exact (hwrite _ .failed (by decide)).bind fun _ => Triple.fail hE

/-- Errors of a rebuild that come from outside or from validation. -/
def Outside (turns : List Turn) (e : ContentIndexError) : Prop :=
  e = .missingPayload ∨ Turn.failed e ∈ turns

theorem takeTurns_kept {before : Option String} {id : String} (hvalid : validGenerationId id = true)
    (record : ContentGenerationRecord) (turns : List Turn)
    (hE : ∀ e d, Kept (Leads before id) {id} d → Outside turns e → E e d) :
    Triple CrashPoint.Harmless (Kept (Leads before id) {id}) (takeTurns moment id record turns)
      (Kept (Leads before id) {id}) (fun _ => Kept (Leads before id) {id}) E := by
  have hmeasure : Triple CrashPoint.Harmless (Kept (Leads before id) {id}) (measureIndex id)
      (Kept (Leads before id) {id}) (fun _ => Kept (Leads before id) {id}) E :=
    (index_kept (Set.mem_singleton id)).1
  induction turns generalizing record with
  | nil => exact Triple.ret fun d hd => hd
  | cons turn turns ih =>
    cases turn with
    | limited limit => exact hmeasure.bind fun _ => Triple.ret fun d hd => hd
    | failed error => exact Triple.fail fun d hd => hE error d hd (.inr List.mem_cons_self)
    | page documents declared outcomes stamp bytes now =>
      refine hmeasure.bind fun _ => (index_kept (Set.mem_singleton id)).2.bind fun _ => ?_
      refine (writeRecord_kept hvalid fun _ => Set.mem_singleton id).bind fun _ => ?_
      refine ih _ fun e d hd he => hE e d hd (he.imp_right fun h => List.mem_cons_of_mem _ h)
    | noPage count =>
      have hactivate : ∀ candidate, Triple CrashPoint.Harmless (Kept (Leads before id) {id})
          (activateValidated moment (id, candidate) count) (Kept (Leads before id) {id})
          (fun _ => Kept (Leads before id) {id}) E := fun candidate =>
        Triple.post (activateValidated_kept (x := (id, candidate)) hvalid
          fun d hd => hE _ d hd (.inl rfl)) fun _ _ h => h.1
      exact hmeasure.bind fun _ => hactivate _

/-- The generation a rebuild from `d` works on. -/
def IsCandidate (moment : Moment) (roots : List (List String)) (d : GenerationFiles) (id : String) :
    Prop :=
  ∃ record, (recoverOrCreateBuilding moment roots d).result = .ok (id, record)

/-- What may end a rebuild that is not blocked: failures from outside, a
validation that does not come out, or that every identifier of the moment is
taken. -/
def Unblocked (moment : Moment) (turns : List Turn) (d : GenerationFiles) (e : ContentIndexError) :
    Prop :=
  Outside turns e ∨ e = .io "content generation identifier space is exhausted" ∧
    ∀ name ∈ moment.names, (d.generations.get name).isSome

theorem resume_kept {roots : List (List String)} {turns : List Turn} {d₀ : GenerationFiles}
    (h₀ : Sound d₀) :
    Triple CrashPoint.Harmless (· = d₀) (resumeInitialGeneration moment roots turns)
      (fun d => Sound d ∧ (d.activePointer = d₀.activePointer ∨
        ∃ id, IsCandidate moment roots d₀ id ∧ d.activePointer = some id))
      (fun _ d => Sound d)
      (fun e d => Sound d ∧ Unblocked moment turns d e) := by
  have hcandidate : Triple CrashPoint.Harmless (· = d₀) (recoverOrCreateBuilding moment roots)
      (Kept (· = d₀.activePointer) ∅)
      (fun x d => Kept (· = d₀.activePointer) (insert x.1 ∅) d ∧ validGenerationId x.1 = true)
      (fun e d => Sound d ∧ Unblocked moment turns d e) :=
    (recoverOrCreateBuilding_kept fun e d hd htaken he => ⟨hd.sound, .inr ⟨he, htaken⟩⟩).pre
      fun d hd => by
        subst hd
        exact ⟨h₀, rfl, fun _ h => absurd h (Set.notMem_empty _)⟩
  refine (hcandidate.exactly.left fun d hd => ⟨hd.sound, .inl hd.pointer⟩).bind fun x => ?_
  refine Triple.of_pre fun d₁ ⟨⟨hkept, hvalid⟩, hresult⟩ => ?_
  have hstart : Kept (Leads d₀.activePointer x.1) {x.1} d₁ :=
    (hkept.imp fun p hp => .inl hp).subset (by simp)
  have hcrash : ∀ d, Kept (Leads d₀.activePointer x.1) {x.1} d → Sound d ∧
      (d.activePointer = d₀.activePointer ∨
        ∃ id, IsCandidate moment roots d₀ id ∧ d.activePointer = some id) :=
    fun d hd => ⟨hd.sound, hd.pointer.imp_right fun h => ⟨x.1, ⟨x.2, hresult⟩, h⟩⟩
  refine Triple.pre (P := Kept (Leads d₀.activePointer x.1) {x.1}) ?_ fun d hd => hd ▸ hstart
  refine (Triple.left (takeTurns_kept hvalid x.2 turns fun e d hd he => ⟨hd.sound, .inl he⟩)
    hcrash).bind fun record => ?_
  refine ((index_kept (Set.mem_singleton x.1)).1.left hcrash).bind fun _ => ?_
  refine ((writeRecord_kept hvalid fun _ => Set.mem_singleton x.1).left hcrash).bind fun _ => ?_
  exact Triple.ret fun d hd => hd.sound

end Programs

/-- The generation a call activates, if it gets that far. -/
def ManagerCall.Activates (d : GenerationFiles) (id : String) : ManagerCall → Prop
  | .resume moment roots _ => IsCandidate moment roots d id
  | .collect _ _ => False

theorem ManagerCall.kept (call : ManagerCall) {d₀ : GenerationFiles} (h₀ : Sound d₀) :
    Triple CrashPoint.Harmless (· = d₀) call.run
      (fun d => Sound d ∧ (d.activePointer = d₀.activePointer ∨
        ∃ id, call.Activates d₀ id ∧ d.activePointer = some id))
      (fun _ d => Sound d) (fun _ d => Sound d) := by
  cases call with
  | resume moment roots turns =>
    refine (((resume_kept h₀).mono (fun _ h => h) (fun _ h => h) (fun _ _ h => h)
      fun _ _ h => h.1)).bind fun _ => ?_
    exact Triple.ret fun d hd => hd
  | collect moment retainRetired =>
    have hcollect : Triple CrashPoint.Harmless (Kept (· = d₀.activePointer) ∅)
        (collectGarbage moment retainRetired) (Kept (· = d₀.activePointer) ∅)
        (fun _ => Kept (· = d₀.activePointer) ∅) (fun _ d => Sound d) :=
      collectGarbage_kept fun id hid => absurd hid (Set.notMem_empty id)
    refine hcollect.mono (fun d hd => ?_) (fun d hd => ⟨hd.sound, .inl hd.pointer⟩)
      (fun _ d hd => hd.sound) fun _ _ h => h
    subst hd
    exact ⟨h₀, rfl, fun _ h => absurd h (Set.notMem_empty _)⟩

/-- Opening keeps sound files sound and the pointer in place, and succeeds. -/
theorem recoverLifecycle_sound (moment : Moment) {d₀ : GenerationFiles} (h₀ : Sound d₀) :
    Triple CrashPoint.Harmless (· = d₀) (recoverLifecycle moment)
      (fun d => Sound d) (fun _ d => Sound d ∧ d.activePointer = d₀.activePointer)
      (fun _ _ => False) := by
  have hkept : Triple CrashPoint.Harmless (Kept (· = d₀.activePointer) ∅) (recoverLifecycle moment)
      (Kept (· = d₀.activePointer) ∅) (fun _ => Kept (· = d₀.activePointer) ∅) (fun _ _ => False) :=
    recoverLifecycle_kept
  refine hkept.mono (fun d hd => ?_) (fun d hd => hd.sound) (fun _ d hd => ⟨hd.sound, hd.pointer⟩)
    fun _ _ h => h
  subst hd
  exact ⟨h₀, rfl, fun _ h => absurd h (Set.notMem_empty _)⟩

/-- In every run without a harmful crash the files are sound. -/
theorem Managed.sound {live : Bool} {d : GenerationFiles} (h : Managed CrashPoint.Harmless live d) :
    Sound d := by
  induction h with
  | empty => exact ⟨fun _ _ h => (nomatch h), fun _ _ h => (nomatch h), fun _ h => (nomatch h)⟩
  | opened h moment ih =>
    exact (recoverLifecycle_sound moment ih).final rfl (fun _ _ hd => hd.1) fun _ _ h => h.elim
  | diedOpening h moment hpoint hallowed ih =>
    exact (recoverLifecycle_sound moment ih).crash _ rfl _ hpoint hallowed
  | called h call ih => exact (call.kept ih).final rfl (fun _ _ hd => hd) fun _ _ hd => hd
  | died h call hpoint hallowed ih => exact ((call.kept ih).crash _ rfl _ hpoint hallowed).1
  | closed h ih => exact ih

/-- The next process opens the manager, lists its records and is not kept from
rebuilding. -/
structure Recovers (d : GenerationFiles) : Prop where
  opens : ∀ opening, (recoverLifecycle opening d).result = .ok ()
  pointer : ∀ opening, (recoverLifecycle opening d).final.activePointer = d.activePointer
  records : ∀ opening moment, ∃ found,
    (Content.records moment (recoverLifecycle opening d).final).result = .ok found
  resumes : ∀ opening moment roots turns e,
    (resumeInitialGeneration moment roots turns (recoverLifecycle opening d).final).result = .error e →
      Unblocked moment turns
        (resumeInitialGeneration moment roots turns (recoverLifecycle opening d).final).final e

theorem Sound.recovers {d : GenerationFiles} (h : Sound d) : Recovers d := by
  have hopened : ∀ opening, (recoverLifecycle opening d).result = .ok () ∧
      Sound (recoverLifecycle opening d).final ∧
      (recoverLifecycle opening d).final.activePointer = d.activePointer := by
    intro opening
    have htriple := recoverLifecycle_sound opening h
    cases hresult : (recoverLifecycle opening d).result with
    | ok a => exact ⟨rfl, htriple.ok d a rfl hresult⟩
    | error e => exact (htriple.error d e rfl hresult).elim
  refine ⟨fun opening => (hopened opening).1, fun opening => (hopened opening).2.2,
    fun opening moment => ?_, fun opening moment roots turns e he => ?_⟩
  · exact readRecords_total (hopened opening).2.1 _
  · exact ((resume_kept (hopened opening).2.1).error _ e rfl he).2

/-- After a crash inside a call, in a run without a harmful one, the pointer
leads where it led or to the generation being activated, and the next process
recovers. -/
theorem generations_recover {d d' : GenerationFiles} {point : CrashPoint}
    (h : Managed CrashPoint.Harmless true d) (call : ManagerCall)
    (hpoint : (point, d') ∈ (call.run d).crashes) (hharmless : point.Harmless) :
    (d'.activePointer = d.activePointer ∨ ∃ id, call.Activates d id ∧ d'.activePointer = some id) ∧
      Recovers d' := by
  obtain ⟨hsound, hpointer⟩ := (call.kept h.sound).crash d rfl _ hpoint hharmless
  exact ⟨hpointer, hsound.recovers⟩

section Example

def sampleMoment : Moment where
  readDir := id
  readDir_perm names := .refl names
  clock _ _ := 0
  names := ["generation-1", "generation-2"]
  names_valid := by decide
  latestOutboxSequence := 0
  indexGeneration := 0
  indexBytes := 0
  now := 0

/-- A rebuild that only creates its candidate. -/
def sampleResume : ManagerCall := .resume sampleMoment [] []

/-- What is left when a call on an empty root dies at its `n`th point. -/
def diedAt (call : ManagerCall) (n : Nat) : CrashPoint × GenerationFiles :=
  ((call.run .empty).crashes[n]?).getD (.tearingPointer, .empty)

theorem diedAt_mem {call : ManagerCall} {n : Nat} (h : n < (call.run .empty).crashes.length) :
    diedAt call n ∈ (call.run .empty).crashes := by
  unfold diedAt
  rw [List.getElem?_eq_getElem h]
  exact List.getElem_mem h

theorem opened_empty (allowed : CrashPoint → Prop) : Managed allowed true .empty :=
  Managed.opened .empty sampleMoment

/-- The first record of a generation torn: no record can be listed any more. -/
theorem firstRecord_blocks : ¬ ∀ (d d' : GenerationFiles) (point : CrashPoint) (call : ManagerCall),
    Managed (fun _ => True) true d → (point, d') ∈ (call.run d).crashes →
    (d'.activePointer = d.activePointer ∨ ∃ id, call.Activates d id ∧ d'.activePointer = some id) ∧
      Recovers d' := by
  intro hclaim
  obtain ⟨-, hrecovers⟩ := hclaim .empty (diedAt sampleResume 4).2 (diedAt sampleResume 4).1
    sampleResume (opened_empty _) (diedAt_mem (n := 4) (by decide))
  obtain ⟨found, hfound⟩ := hrecovers.records sampleMoment sampleMoment
  have hfails : (records sampleMoment
      (recoverLifecycle sampleMoment (diedAt sampleResume 4).2).final).result.isOk = false := by
    decide
  rw [hfound] at hfails
  cases hfails

theorem secondRecord_harmless : (diedAt sampleResume 6).1.Harmless := by
  have hread : (match (diedAt sampleResume 6).1 with
      | .tearingRecord file => file.read.isSome
      | _ => false) = true := by decide
  revert hread
  cases (diedAt sampleResume 6).1 <;> simp [CrashPoint.Harmless]

/-- The next write of the record torn does no harm. -/
theorem secondRecord_recovers : Recovers (diedAt sampleResume 6).2 :=
  (generations_recover (opened_empty _) sampleResume (diedAt_mem (n := 6) (by decide))
    secondRecord_harmless).2

end Example

end LocalSearch.Content
