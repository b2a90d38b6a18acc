import LocalSearch.Graph.Writes

/-!
# What a graph accepts

While no scan of a volume is open, whether a sequence of mutations is accepted
is decided by the links that stand and the objects that are known, and by
nothing else of the graph. So a sequence is accepted as one batch exactly when
it is accepted under any split into batches, as long as the volume has a
generation left for each of them.
-/
namespace LocalSearch.Graph

set_option autoImplicit false

open Core Lib

/-- The links that stand and the objects that are known. -/
structure Names where
  links : FileLinkId → Option StoredLink
  known : FileKey → Prop

def Names.of (g : FilesystemGraph) : Names := ⟨loadLink g, fun key => (g.objects.get key).isSome⟩

def Names.apply (s : Names) (m : GraphMutation) : Names :=
  ⟨replay s.links m.linkWrites, fun key => s.known key ∨ m.Observes key⟩

/-- What a mutation needs of the objects, on a volume that is known. -/
def GraphMutation.Needs (known : FileKey → Prop) : GraphMutation → Prop
  | .upsertObject object => object.metadata.size < 2 ^ 63
  | .upsertLink link _ => known link.objectKey
  | .tombstoneObject objectKey => known objectKey
  | .upsertVolume _ | .setVolumeState _ _ | .removeLink _ _ | .requireReconciliation _ _ => True

def Names.Admits (s : Names) (m : GraphMutation) : Prop :=
  m.Needs s.known ∧ ∀ id link, s.links id = some link → m.Admits link

def Names.Accepts (s : Names) : List GraphMutation → Prop
  | [] => True
  | m :: ms => s.Admits m ∧ (s.apply m).Accepts ms

theorem Names.accepts_append (s : Names) (a b : List GraphMutation) :
    s.Accepts (a ++ b) ↔ s.Accepts a ∧ (a.foldl Names.apply s).Accepts b := by
  induction a generalizing s with
  | nil => simp [Accepts]
  | cons m a ih => simp only [List.cons_append, Accepts, ih, List.foldl_cons, and_assoc]

section Loop

variable {v : VolumeId} {gen n : Nat} {g g' : FilesystemGraph} {m : GraphMutation}
  {ms : List GraphMutation}

theorem replay_metadataWrites (known : FileKey → Option FileMetadata) (m : GraphMutation)
    (key : FileKey) :
    (replay known m.metadataWrites key).isSome ↔ (known key).isSome ∨ m.Observes key := by
  cases m with
  | upsertObject object =>
    have hwrite : replay known (GraphMutation.upsertObject object).metadataWrites =
        Function.update known object.objectKey (some object.metadata) := rfl
    rw [hwrite, Function.update_apply]
    by_cases hkey : key = object.objectKey
    · rw [if_pos hkey]
      exact iff_of_true rfl (.inr hkey.symm)
    · rw [if_neg hkey]
      exact ⟨.inl, fun h => h.resolve_right (Ne.symm hkey)⟩
  | _ => exact ⟨.inl, fun h => h.resolve_right not_false⟩

theorem known_applyMutation (hs : g.sessions.get v = none) (hm : m.InVolume v)
    (h : applyMutation g m gen = .ok (g', n)) (key : FileKey) :
    (g'.objects.get key).isSome ↔ (g.objects.get key).isSome ∨ m.Observes key := by
  have hmeta := replay_metadataWrites (metadataOf g) m key
  rw [← metadataOf_applyMutation hs hm h] at hmeta
  simpa only [metadataOf, Option.isSome_map] using hmeta

theorem names_applyMutation (hs : g.sessions.get v = none) (hm : m.InVolume v)
    (h : applyMutation g m gen = .ok (g', n)) : Names.of g' = (Names.of g).apply m := by
  rw [Names.of, Names.apply, loadLink_applyMutation hs hm h]
  congr 1
  funext key
  exact propext (known_applyMutation hs hm h key)

theorem applyMutation_admits (hn : NamespaceWF g) (hs : g.sessions.get v = none)
    (hv : (g.volumes.get v).isSome) (hm : m.InVolume v) :
    (∃ r, applyMutation g m gen = .ok r) ↔ (Names.of g).Admits m := by
  rw [applyMutation_accepts hn hs hm]
  refine and_congr_left fun _ => ?_
  cases m with
  | upsertVolume | removeLink | upsertLink | tombstoneObject => exact Iff.rfl
  | setVolumeState w state =>
    obtain rfl : w = v := hm
    exact iff_of_true hv trivial
  | requireReconciliation w reason =>
    obtain rfl : w = v := hm
    exact iff_of_true hv trivial
  | upsertObject object =>
    obtain rfl : object.objectKey.volumeId = v := hm
    exact and_iff_left hv

theorem Mutates.names (hs : g.sessions.get v = none) (hms : ∀ m ∈ ms, m.InVolume v)
    (h : Mutates gen g ms g') : Names.of g' = ms.foldl Names.apply (Names.of g) := by
  induction ms generalizing g with
  | nil =>
    obtain rfl := mutates_nil.mp h
    rfl
  | cons m ms ih =>
    obtain ⟨g₁, n, h₁, h⟩ := mutates_cons.mp h
    have hs₁ : g₁.sessions.get v = none := by
      rw [applyMutation_frame h₁]
      exact hs
    rw [ih hs₁ (fun x hx => hms x (List.mem_cons_of_mem _ hx)) h,
      names_applyMutation hs (hms m List.mem_cons_self) h₁]
    rfl

/-- The mutation loop accepts what the names accept, at any generation. -/
theorem mutates_iff_accepts [CaseMapping] (hn : NamespaceWF g) (hs : g.sessions.get v = none)
    (hv : (g.volumes.get v).isSome) (hle : currentGeneration g v ≤ gen)
    (hms : ∀ m ∈ ms, m.InVolume v) :
    (∃ g', Mutates gen g ms g') ↔ (Names.of g).Accepts ms := by
  induction ms generalizing g with
  | nil => exact iff_of_true ⟨g, mutates_nil.mpr rfl⟩ trivial
  | cons m ms ih =>
    have hm := hms m List.mem_cons_self
    have hrest : ∀ x ∈ ms, x.InVolume v := fun x hx => hms x (List.mem_cons_of_mem _ hx)
    have hadmits : (∃ r, applyMutation g m gen = .ok r) ↔ _ := applyMutation_admits hn hs hv hm
    rw [Names.Accepts, ← hadmits]
    -- the state after an accepted first mutation
    have hafter : ∀ {g₁ : FilesystemGraph} {n : Nat}, applyMutation g m gen = .ok (g₁, n) →
        ((∃ g', Mutates gen g₁ ms g') ↔ ((Names.of g).apply m).Accepts ms) := by
      intro g₁ n h₁
      have hone : Mutates gen g [m] g₁ := mutates_cons.mpr ⟨g₁, n, h₁, mutates_nil.mpr rfl⟩
      have hvol : ∀ x ∈ [m], x.InVolume v := fun x hx => List.mem_singleton.mp hx ▸ hm
      have hle₁ : currentGeneration g₁ v ≤ gen := by
        have hch : Changes True v gen .durable (g, ∅) _ :=
          applyMutation_changes hm (.inl trivial) hle h₁
        exact Changes.induct (P := fun s => currentGeneration s.1 v ≤ gen)
          (fun _ _ => currentGeneration_le_of_change) hch hle
      rw [← names_applyMutation hs hm h₁]
      exact ih (hone.namespaceWF hn hvol hle) (hone.sessions ▸ hs) (hone.knownVolume hs hvol hv)
        hle₁ hrest
    constructor
    · rintro ⟨g', h⟩
      obtain ⟨g₁, n, h₁, h⟩ := mutates_cons.mp h
      exact ⟨⟨_, h₁⟩, (hafter h₁).mp ⟨g', h⟩⟩
    · rintro ⟨⟨⟨g₁, n⟩, h₁⟩, haccepts⟩
      obtain ⟨g', h⟩ := (hafter h₁).mpr haccepts
      exact ⟨g', mutates_cons.mpr ⟨g₁, n, h₁, h⟩⟩

end Loop

section Batches

variable [CaseMapping] {v : VolumeId} {g g' : FilesystemGraph} {mode : ProjectionOutboxMode}

/-- A batch is accepted if its mutations are, its volume is known behind them and
has a generation left. -/
theorem applyBatch_iff_mutates {batch : GraphMutationBatch} (hwf : WellFormed g)
    (hcheckpoint : batch.checkpoint.volumeId = batch.volumeId)
    (hms : ∀ m ∈ batch.mutations, m.InVolume batch.volumeId)
    (hmode : ¬ (mode = .rebuildable ∧ projectionConsumersExist g)) :
    (∃ r, applyBatchWithOutboxMode g batch mode = .ok r) ↔
      currentGeneration g batch.volumeId + 1 < 2 ^ 63 ∧
      ∃ g', Mutates (currentGeneration g batch.volumeId + 1) g batch.mutations g' ∧
        (g'.volumes.get batch.volumeId).isSome := by
  constructor
  · rintro ⟨⟨g', summary⟩, h⟩
    obtain ⟨-, -, -, hlt, g₁, g₂, affected, jobs, appended, h₁, h₂, ⟨volume, hvol⟩, -⟩ :=
      applyBatchWithOutboxMode_ok h
    refine ⟨hlt, g₁, ⟨_, _, _, h₁⟩, ?_⟩
    rw [syncLinks_frame h₂] at hvol
    exact Option.isSome_iff_exists.mpr ⟨volume, hvol⟩
  · rintro ⟨hlt, g₁, hrun, hvol⟩
    obtain ⟨_, _, jobs, h₁⟩ := id hrun
    obtain ⟨affected, h₁⟩ := applyMutations_gathered h₁ .empty
    -- after the loop the tables are well formed but for the affected links
    have hch : Changes True batch.volumeId (currentGeneration g batch.volumeId + 1) .durable
        (g, ∅) (g₁, affected.members) := batchMutations_changes hms (.inl trivial) h₁
    obtain ⟨g₂, appended, h₂⟩ := syncLinks_total (hch.names hwf.names) (hch.catalog hwf.catalog)
      (currentGeneration g batch.volumeId + 1) mode (affected.rows.map (·.1))
    have hknown : (g₂.volumes.get batch.volumeId).isSome := by
      rw [syncLinks_frame h₂]
      exact hvol
    exact ⟨_, applyBatchWithOutboxMode_of hcheckpoint hms hmode hlt h₁ h₂ hknown⟩

/-- The mutations of a volume as one accepted batch, whatever its checkpoint. -/
theorem applyBatch_accepts {batch : GraphMutationBatch} (hwf : WellFormed g)
    (hs : g.sessions.get batch.volumeId = none) (hv : (g.volumes.get batch.volumeId).isSome)
    (hcheckpoint : batch.checkpoint.volumeId = batch.volumeId)
    (hms : ∀ m ∈ batch.mutations, m.InVolume batch.volumeId) :
    (∃ r, applyBatch g batch = .ok r) ↔
      currentGeneration g batch.volumeId + 1 < 2 ^ 63 ∧ (Names.of g).Accepts batch.mutations := by
  have hloop :
      (∃ g', Mutates (currentGeneration g batch.volumeId + 1) g batch.mutations g') ↔ _ :=
    mutates_iff_accepts hwf.names hs hv (Nat.le_succ _) hms
  have hbatch : (∃ r, applyBatch g batch = .ok r) ↔ _ :=
    @applyBatch_iff_mutates _ g .durable batch hwf hcheckpoint hms (by simp)
  rw [hbatch, ← hloop]
  refine and_congr_right fun _ => exists_congr fun g' => ?_
  exact and_iff_left_of_imp fun hrun => hrun.knownVolume hs hms hv

/-- A batch that upserts its volume first needs nothing of the volume. -/
theorem openedBatch_accepts {batch : GraphMutationBatch} {descriptor : VolumeDescriptor}
    {ms : List GraphMutation} (hwf : WellFormed g) (hs : g.sessions.get batch.volumeId = none)
    (hcheckpoint : batch.checkpoint.volumeId = batch.volumeId)
    (hms : ∀ m ∈ batch.mutations, m.InVolume batch.volumeId)
    (hmode : ¬ (mode = .rebuildable ∧ projectionConsumersExist g))
    (hopen : batch.mutations = .upsertVolume descriptor :: ms) :
    (∃ r, applyBatchWithOutboxMode g batch mode = .ok r) ↔
      currentGeneration g batch.volumeId + 1 < 2 ^ 63 ∧ (Names.of g).Accepts ms := by
  rw [applyBatch_iff_mutates hwf hcheckpoint hms hmode, hopen]
  rw [hopen] at hms
  have hvolume : descriptor.volumeId = batch.volumeId := hms _ List.mem_cons_self
  have hrest : ∀ m ∈ ms, m.InVolume batch.volumeId := fun m hm => hms m (List.mem_cons_of_mem _ hm)
  have hfirst : applyMutation g (.upsertVolume descriptor) (currentGeneration g batch.volumeId + 1) =
      .ok (upsertVolume g descriptor, 0) := rfl
  have hone : Mutates (currentGeneration g batch.volumeId + 1) g [.upsertVolume descriptor]
      (upsertVolume g descriptor) := mutates_cons.mpr ⟨_, _, hfirst, mutates_nil.mpr rfl⟩
  have hone_volume : ∀ m ∈ [GraphMutation.upsertVolume descriptor], m.InVolume batch.volumeId :=
    fun m hm => List.mem_singleton.mp hm ▸ hvolume
  have hknown : ((upsertVolume g descriptor).volumes.get batch.volumeId).isSome := by
    rw [← hvolume, upsertVolume, Table.get_insert_self]
    rfl
  have hkept : currentGeneration (upsertVolume g descriptor) batch.volumeId =
      currentGeneration g batch.volumeId := by
    rw [← hvolume, currentGeneration, upsertVolume, Table.get_insert_self]
    rfl
  have hloop : (∃ g', Mutates (currentGeneration g batch.volumeId + 1) (upsertVolume g descriptor) ms g') ↔
      (Names.of g).Accepts ms :=
    mutates_iff_accepts (hone.namespaceWF hwf.names hone_volume (Nat.le_succ _)) hs hknown
      (hkept.le.trans (Nat.le_succ _)) hrest
  rw [← hloop]
  refine and_congr_right fun _ => exists_congr fun g' => ?_
  constructor
  · rintro ⟨hrun, -⟩
    obtain ⟨g₁, n, h₁, hrun⟩ := mutates_cons.mp hrun
    obtain ⟨rfl, -⟩ := Prod.mk.inj (Except.ok.inj (hfirst.symm.trans h₁))
    exact hrun
  · intro hrun
    have hclosed : (upsertVolume g descriptor).sessions.get batch.volumeId = none := hs
    exact ⟨mutates_cons.mpr ⟨_, _, hfirst, hrun⟩, hrun.knownVolume hclosed hrest hknown⟩

/-- What an accepted batch leaves to the next one. -/
theorem applyBatch_leaves {batch : GraphMutationBatch} {summary : ApplySummary} (hwf : WellFormed g)
    (hs : g.sessions.get batch.volumeId = none)
    (h : applyBatchWithOutboxMode g batch mode = .ok (g', summary)) :
    WellFormed g' ∧ g'.sessions = g.sessions ∧ (g'.volumes.get batch.volumeId).isSome ∧
      currentGeneration g' batch.volumeId = currentGeneration g batch.volumeId + 1 ∧
      Names.of g' = batch.mutations.foldl Names.apply (Names.of g) := by
  have hwf' := wellFormed_of_transacts
    (applyBatchWithOutboxMode_transacts (R := True) (.inl trivial) h) hwf
  obtain ⟨-, hms, -, -, g₁, g₂, affected, jobs, appended, h₁, h₂, ⟨volume, hvol⟩, rfl⟩ :=
    applyBatchWithOutboxMode_ok h
  have hrun : Mutates (currentGeneration g batch.volumeId + 1) g batch.mutations g₁ := ⟨_, _, _, h₁⟩
  refine ⟨hwf', ?_, ?_, currentGeneration_setGeneration hvol, ?_⟩
  · change g₂.sessions = g.sessions
    rw [syncLinks_frame h₂]
    exact hrun.sessions
  · simp [putCheckpoint, setGeneration, Table.get_modify, hvol]
  · rw [← hrun.names hs hms]
    change Names.of g₂ = Names.of g₁
    rw [syncLinks_frame h₂]
    rfl

/-- Batches of a volume, one after the other. -/
def applyBatches (g : FilesystemGraph) : List GraphMutationBatch → GraphResult FilesystemGraph
  | [] => .ok g
  | batch :: rest => do
      let (g, _) ← applyBatch g batch
      applyBatches g rest

/-- A split into batches is accepted when its mutations are and the volume has a
generation for each batch. -/
theorem applyBatches_accepts {batches : List GraphMutationBatch} (hwf : WellFormed g)
    (hs : g.sessions.get v = none) (hv : (g.volumes.get v).isSome)
    (hbatches : ∀ batch ∈ batches, batch.volumeId = v ∧ batch.checkpoint.volumeId = v ∧
      ∀ m ∈ batch.mutations, m.InVolume v) :
    (∃ g', applyBatches g batches = .ok g') ↔
      (batches = [] ∨ currentGeneration g v + batches.length < 2 ^ 63) ∧
        (Names.of g).Accepts (batches.flatMap (·.mutations)) := by
  induction batches generalizing g with
  | nil => exact iff_of_true ⟨g, rfl⟩ ⟨.inl rfl, trivial⟩
  | cons batch rest ih =>
    obtain ⟨rfl, hcheckpoint, hms⟩ := hbatches batch List.mem_cons_self
    have hrest := fun b hb => hbatches b (List.mem_cons_of_mem _ hb)
    rw [List.flatMap_cons, Names.accepts_append]
    have hstep := applyBatch_accepts hwf hs hv hcheckpoint hms
    constructor
    · rintro ⟨g', h⟩
      obtain ⟨⟨g₁, summary⟩, h₁, h⟩ := bind_ok.mp h
      obtain ⟨hwf₁, hs₁, hv₁, hgen, hnames⟩ := applyBatch_leaves hwf hs h₁
      obtain ⟨hroom, haccepts⟩ := hstep.mp ⟨_, h₁⟩
      obtain ⟨hlater, hlast⟩ := (ih hwf₁ (hs₁ ▸ hs) hv₁ hrest).mp ⟨g', h⟩
      rw [hnames] at hlast
      refine ⟨.inr ?_, haccepts, hlast⟩
      rcases hlater with rfl | hlater
      · simpa using hroom
      · rw [hgen] at hlater
        rw [List.length_cons]
        omega
    · rintro ⟨hroom, haccepts, hlast⟩
      have hroom' : currentGeneration g batch.volumeId + (rest.length + 1) < 2 ^ 63 :=
        hroom.resolve_left (List.cons_ne_nil _ _)
      obtain ⟨⟨g₁, summary⟩, h₁⟩ := hstep.mpr ⟨by omega, haccepts⟩
      obtain ⟨hwf₁, hs₁, hv₁, hgen, hnames⟩ := applyBatch_leaves hwf hs h₁
      rw [← hnames] at hlast
      obtain ⟨g', h⟩ := (ih hwf₁ (hs₁ ▸ hs) hv₁ hrest).mpr ⟨.inr (by rw [hgen]; omega), hlast⟩
      exact ⟨g', bind_ok.mpr ⟨_, h₁, h⟩⟩

/-- What accepted batches leave of the names. -/
theorem applyBatches_leaves {batches : List GraphMutationBatch} (hwf : WellFormed g)
    (hs : g.sessions.get v = none) (hbatches : ∀ batch ∈ batches, batch.volumeId = v)
    (h : applyBatches g batches = .ok g') : WellFormed g' ∧
      Names.of g' = (batches.flatMap (·.mutations)).foldl Names.apply (Names.of g) := by
  induction batches generalizing g with
  | nil =>
    obtain rfl := Except.ok.inj h
    exact ⟨hwf, rfl⟩
  | cons batch rest ih =>
    obtain rfl := hbatches batch List.mem_cons_self
    obtain ⟨⟨g₁, summary⟩, h₁, h⟩ := bind_ok.mp h
    obtain ⟨hwf₁, hs₁, -, -, hnames⟩ := applyBatch_leaves hwf hs h₁
    obtain ⟨hwf', hrest⟩ := ih hwf₁ (hs₁ ▸ hs) (fun b hb => hbatches b (List.mem_cons_of_mem _ hb)) h
    rw [List.flatMap_cons, List.foldl_append, ← hnames]
    exact ⟨hwf', hrest⟩

end Batches

end LocalSearch.Graph
