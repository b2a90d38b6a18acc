import LocalSearch.Graph.OutboxTail

/-!
# Acknowledgements, statement by statement

`acknowledge_projection` is three statements without a transaction around them:
the newest sequence is read, then the consumer's row, then the row is written.
Processes that share the database may run between any two of them.
-/
namespace LocalSearch.Graph

set_option autoImplicit false

open Core Lib

structure AckCall where
  consumerId : String
  lastSequence : Nat
  indexGeneration : Nat
  deriving DecidableEq, Repr

/-- Where a process is in its call. -/
inductive AckPhase where
  | idle
  /-- The sequence is not beyond the outbox that was read. -/
  | bounded (call : AckCall)
  /-- It is not below the row that was read either. -/
  | allowed (call : AckCall)
  deriving DecidableEq, Repr

/-- The shared database and the processes. -/
structure AckSystem (P : Type) where
  graph : FilesystemGraph
  phase : P → AckPhase

inductive AckEvent (P : Type) where
  | readLatest (process : P) (call : AckCall)
  | readCheckpoint (process : P)
  | upsert (process : P) (call : AckCall)
  /-- The call ends in an error of the database or of a number, or its process dies. -/
  | abandon (process : P)
  | operation (op : GraphOp)
  deriving Repr

namespace AckEvent

variable {P : Type}

def process : AckEvent P → Option P
  | readLatest p _ | readCheckpoint p | upsert p _ | abandon p => some p
  | operation _ => none

end AckEvent

/-- Writes other than those of consumer rows. -/
def GraphOp.sparesConsumers : GraphOp → Bool
  | .acknowledgeProjection _ _ _ | .resetProjectionConsumer _ => false
  | _ => true

/-- The third statement by itself. -/
def upsertConsumer (g : FilesystemGraph) (call : AckCall) : FilesystemGraph :=
  let row : ConsumerRow := ⟨call.lastSequence, call.indexGeneration⟩
  { g with consumers := g.consumers.insert call.consumerId row }

namespace AckSystem

variable {P : Type} [DecidableEq P] [CaseMapping]

def start (g : FilesystemGraph) : AckSystem P := ⟨g, fun _ => .idle⟩

def setPhase (s : AckSystem P) (p : P) (phase : AckPhase) : AckSystem P :=
  { s with phase := Function.update s.phase p phase }

/-- One statement, or one other write; `none` where it cannot come next. -/
def step (s : AckSystem P) : AckEvent P → Option (AckSystem P)
  | .readLatest p call =>
      if s.phase p ≠ .idle then none
      else if latestOutboxSequence s.graph < call.lastSequence then some s
      else some (s.setPhase p (.bounded call))
  | .readCheckpoint p =>
      match s.phase p with
      | .bounded call =>
          if ∃ current ∈ projectorCheckpoint s.graph call.consumerId,
              call.lastSequence < current.lastSequence then some (s.setPhase p .idle)
          else some (s.setPhase p (.allowed call))
      | _ => none
  | .upsert p call =>
      if s.phase p = .allowed call ∧ call.lastSequence < 2 ^ 63 ∧ call.indexGeneration < 2 ^ 63 then
        some { s.setPhase p .idle with graph := upsertConsumer s.graph call }
      else none
  | .abandon p => some (s.setPhase p .idle)
  | .operation op =>
      if op.sparesConsumers then
        match op.run s.graph with
        | .ok g => some { s with graph := g }
        | .error _ => none
      else none

def run (s : AckSystem P) (events : List (AckEvent P)) : Option (AckSystem P) :=
  events.foldlM step s

/-- The consumer's cursor only ever moves forward. -/
def Advances (s : AckSystem P) (events : List (AckEvent P)) (consumer : String) : Prop :=
  ∀ before between after s₁ s₂, events = before ++ between ++ after →
    s.run before = some s₁ → s₁.run between = some s₂ →
    ∀ row ∈ projectorCheckpoint s₁.graph consumer,
      ∃ row' ∈ projectorCheckpoint s₂.graph consumer, row.lastSequence ≤ row'.lastSequence

/-- It never exceeds the newest sequence. -/
def StaysBelow (s : AckSystem P) (events : List (AckEvent P)) (consumer : String) : Prop :=
  ∀ before after s₁, events = before ++ after → s.run before = some s₁ →
    ∀ row ∈ projectorCheckpoint s₁.graph consumer,
      row.lastSequence ≤ latestOutboxSequence s₁.graph

end AckSystem

/-- Between a call's read of the consumer's row and its own write, another call
wrote a higher sequence for that consumer. -/
def Overtaken {P : Type} (events : List (AckEvent P)) (consumer : String) : Prop :=
  ∃ before between after, ∃ p q : P, ∃ call other : AckCall,
    events = before ++ .readCheckpoint p :: between ++ .upsert p call :: after ∧
    (∀ e ∈ between, e.process ≠ some p) ∧ AckEvent.upsert q other ∈ between ∧
    call.consumerId = consumer ∧ other.consumerId = consumer ∧
    call.lastSequence < other.lastSequence

namespace AckSystem

variable {P : Type} [DecidableEq P] [CaseMapping] {s s' : AckSystem P}

theorem run_append (events later : List (AckEvent P)) :
    s.run (events ++ later) = (s.run events).bind fun t => t.run later := by
  unfold run
  rw [List.foldlM_append]
  rfl

theorem run_singleton (event : AckEvent P) : s.run [event] = s.step event := by
  unfold run
  rw [List.foldlM_cons]
  cases s.step event <;> rfl

omit [CaseMapping] in
theorem setPhase_self (p : P) (phase : AckPhase) : (s.setPhase p phase).phase p = phase := by
  simp only [setPhase, Function.update_self]

omit [CaseMapping] in
theorem setPhase_ne {p q : P} (phase : AckPhase) (h : q ≠ p) :
    (s.setPhase p phase).phase q = s.phase q := by
  simp only [setPhase, Function.update_of_ne h]

/-- What a step can be: a step of one process that leaves the graph, a write of a
row, or another write. -/
theorem step_cases {event : AckEvent P} (h : s.step event = some s') :
    (∃ p call, event = .readLatest p call ∧ s.phase p = .idle ∧ s'.graph = s.graph ∧
      (s' = s ∨ call.lastSequence ≤ latestOutboxSequence s.graph ∧
        s' = s.setPhase p (.bounded call))) ∨
    (∃ p call, event = .readCheckpoint p ∧ s.phase p = .bounded call ∧
      (s' = s.setPhase p .idle ∨
        (∀ current ∈ projectorCheckpoint s.graph call.consumerId,
          current.lastSequence ≤ call.lastSequence) ∧ s' = s.setPhase p (.allowed call))) ∨
    (∃ p call, event = .upsert p call ∧ s.phase p = .allowed call ∧
      s' = { s.setPhase p .idle with graph := upsertConsumer s.graph call }) ∨
    (∃ p, event = .abandon p ∧ s' = s.setPhase p .idle) ∨
    (∃ op g, event = .operation op ∧ op.sparesConsumers = true ∧ op.run s.graph = .ok g ∧
      s' = { s with graph := g }) := by
  cases event with
  | readLatest p call =>
    simp only [step] at h
    split at h
    · cases h
    next hidle =>
    refine .inl ⟨p, call, rfl, of_not_not hidle, ?_⟩
    split at h
    · cases h
      exact ⟨rfl, .inl rfl⟩
    · next hle =>
      cases h
      exact ⟨rfl, .inr ⟨not_lt.1 hle, rfl⟩⟩
  | readCheckpoint p =>
    simp only [step] at h
    split at h
    · next call hphase =>
      refine .inr (.inl ⟨p, call, rfl, hphase, ?_⟩)
      split at h
      · cases h
        exact .inl rfl
      · next hnone =>
        cases h
        refine .inr ⟨fun current hcurrent => ?_, rfl⟩
        exact not_lt.1 fun hlt => hnone ⟨current, hcurrent, hlt⟩
    · cases h
  | upsert p call =>
    simp only [step] at h
    split at h
    · next hallowed =>
      cases h
      exact .inr (.inr (.inl ⟨p, call, rfl, hallowed.1, rfl⟩))
    · cases h
  | abandon p =>
    cases h
    exact .inr (.inr (.inr (.inl ⟨p, rfl, rfl⟩)))
  | operation op =>
    simp only [step] at h
    split at h
    · next hspares =>
      split at h
      · next g hg =>
        cases h
        exact .inr (.inr (.inr (.inr ⟨op, g, rfl, hspares, hg, rfl⟩)))
      · cases h
    · cases h

theorem highWater_of_run {g g' : FilesystemGraph} {op : GraphOp} (hwf : WellFormed g)
    (hout : OutboxWF g) (h : op.run g = .ok g') : highWater g ≤ highWater g' := by
  rcases run_outbox hwf h with
    ⟨mode, ht⟩ | rfl | ⟨p, -, rfl⟩ | ⟨id, sequence, generation, rfl⟩ | ⟨id, rfl⟩
  · exact (outboxGrows_of_transacts ht hout).mono
  · exact le_refl _
  · exact le_refl _
  · obtain ⟨-, -, -, -, rfl⟩ := acknowledgeProjection_ok.mp h
    exact le_refl _
  · obtain rfl := Except.ok.inj h
    exact le_refl _

/-- A process past its second statement: since then, either no row above its
sequence was written for its consumer, or one was, and the events show it. -/
def Watched (events : List (AckEvent P)) (g : FilesystemGraph) (p : P) (call : AckCall) : Prop :=
  ∃ before between, events = before ++ .readCheckpoint p :: between ∧
    (∀ e ∈ between, e.process ≠ some p) ∧
    ((∀ row ∈ projectorCheckpoint g call.consumerId, row.lastSequence ≤ call.lastSequence) ∨
      ∃ q other, AckEvent.upsert q other ∈ between ∧ other.consumerId = call.consumerId ∧
        call.lastSequence < other.lastSequence)

structure AckInvariant (events : List (AckEvent P)) (s : AckSystem P) : Prop where
  wf : WellFormed s.graph
  outbox : OutboxWF s.graph
  bounded : ∀ p call, s.phase p = .bounded call ∨ s.phase p = .allowed call →
    call.lastSequence ≤ highWater s.graph
  watched : ∀ p call, s.phase p = .allowed call → Watched events s.graph p call

omit [DecidableEq P] [CaseMapping] in
/-- An event of no concern to the call's consumer. -/
theorem Watched.pass {events : List (AckEvent P)} {g g' : FilesystemGraph} {p : P} {call : AckCall}
    (h : Watched events g p call) {event : AckEvent P} (hother : event.process ≠ some p)
    (hrow : projectorCheckpoint g' call.consumerId = projectorCheckpoint g call.consumerId) :
    Watched (events ++ [event]) g' p call := by
  obtain ⟨before, between, rfl, hbetween, hcases⟩ := h
  refine ⟨before, between ++ [event], by simp, ?_, ?_⟩
  · intro e he
    rcases List.mem_append.1 he with hold | hnew
    · exact hbetween e hold
    · rw [List.mem_singleton.1 hnew]
      exact hother
  · rw [hrow]
    rcases hcases with hle | ⟨q, other, hmem, hconsumer, hlt⟩
    · exact .inl hle
    · exact .inr ⟨q, other, List.mem_append_left _ hmem, hconsumer, hlt⟩

omit [CaseMapping] in
theorem projectorCheckpoint_upsert (g : FilesystemGraph) (call : AckCall) (consumer : String) :
    projectorCheckpoint (upsertConsumer g call) consumer =
      if consumer = call.consumerId then some ⟨call.lastSequence, call.indexGeneration⟩
      else projectorCheckpoint g consumer :=
  Table.get_insert ..

omit [DecidableEq P] [CaseMapping] in
/-- Another process writes a row. -/
theorem Watched.upsert {events : List (AckEvent P)} {g : FilesystemGraph} {p q : P}
    {call other : AckCall} (h : Watched events g p call) (hne : q ≠ p) :
    Watched (events ++ [.upsert q other]) (upsertConsumer g other) p call := by
  have hprocess : (AckEvent.upsert q other).process ≠ some p := fun heq => hne (Option.some.inj heq)
  by_cases hconsumer : call.consumerId = other.consumerId
  · obtain ⟨before, between, rfl, hbetween, -⟩ := h
    refine ⟨before, between ++ [.upsert q other], by simp, ?_, ?_⟩
    · intro e he
      rcases List.mem_append.1 he with hold | hnew
      · exact hbetween e hold
      · rw [List.mem_singleton.1 hnew]
        exact hprocess
    · by_cases hle : other.lastSequence ≤ call.lastSequence
      · left
        intro row hrow
        rw [projectorCheckpoint_upsert, if_pos hconsumer] at hrow
        cases hrow
        exact hle
      · exact .inr ⟨q, other, List.mem_append_right _ (List.mem_singleton.2 rfl),
          hconsumer.symm, not_le.1 hle⟩
  · refine h.pass hprocess ?_
    rw [projectorCheckpoint_upsert, if_neg hconsumer]

omit [CaseMapping] in
theorem GraphOp.spares {op : GraphOp} (h : op.sparesConsumers = true) (consumer : String) :
    op.SparesConsumer consumer := by
  cases op
  case acknowledgeProjection => cases h
  case resetProjectionConsumer => cases h
  all_goals exact trivial

omit [CaseMapping] in
/-- The graph stays and one process moves on. -/
theorem AckInvariant.move {events : List (AckEvent P)} {event : AckEvent P}
    (h : AckInvariant events s) {p : P} (hevent : event.process = some p) (phase : AckPhase)
    (hbounded : ∀ call, phase = .bounded call ∨ phase = .allowed call →
      call.lastSequence ≤ highWater s.graph)
    (hwatched : ∀ call, phase = .allowed call → Watched (events ++ [event]) s.graph p call) :
    AckInvariant (events ++ [event]) (s.setPhase p phase) := by
  refine ⟨h.wf, h.outbox, ?_, ?_⟩
  · intro q call hq
    by_cases hqp : q = p
    · subst hqp
      rw [setPhase_self] at hq
      exact hbounded call hq
    · rw [setPhase_ne phase hqp] at hq
      exact h.bounded q call hq
  · intro q call hq
    by_cases hqp : q = p
    · subst hqp
      rw [setPhase_self] at hq
      exact hwatched call hq
    · rw [setPhase_ne phase hqp] at hq
      refine (h.watched q call hq).pass ?_ rfl
      rw [hevent]
      exact fun heq => hqp (Option.some.inj heq).symm

theorem ackInvariant_step {events : List (AckEvent P)} {event : AckEvent P}
    (h : AckInvariant events s) (hstep : s.step event = some s') :
    AckInvariant (events ++ [event]) s' := by
  rcases step_cases hstep with ⟨p, call, rfl, hidle, -, rfl | ⟨hle, rfl⟩⟩ |
    ⟨p, call, rfl, hphase, rfl | ⟨hrow, rfl⟩⟩ | ⟨p, call, rfl, hphase, rfl⟩ | ⟨p, rfl, rfl⟩ |
    ⟨op, g, rfl, hspares, hrun, rfl⟩
  · -- refused: the sequence is beyond the outbox
    refine ⟨h.wf, h.outbox, h.bounded, fun q other hq => ?_⟩
    refine (h.watched q other hq).pass (fun heq => ?_) rfl
    obtain rfl := Option.some.inj heq
    rw [hidle] at hq
    cases hq
  · refine h.move rfl _ ?_ fun other hother => by cases hother
    rintro other (hother | hother)
    · cases hother
      rwa [latestOutboxSequence_eq h.outbox] at hle
    · cases hother
  · refine h.move rfl _ ?_ fun other hother => by cases hother
    rintro other (hother | hother) <;> cases hother
  · refine h.move rfl _ ?_ ?_
    · rintro other (hother | hother)
      · cases hother
      · cases hother
        exact h.bounded p call (.inl hphase)
    · intro other hother
      cases hother
      exact ⟨events, [], rfl, fun e he => (nomatch he), .inl hrow⟩
  · have hlast := h.bounded p call (.inr hphase)
    refine ⟨?_, ?_, ?_, ?_⟩
    · exact SameDesired.wellFormed (g := s.graph) rfl h.wf
    · refine ⟨h.outbox.rows, fun c row hc => ?_⟩
      have hget := (projectorCheckpoint_upsert s.graph call c).symm.trans hc
      split_ifs at hget
      · cases hget
        exact hlast
      · exact h.outbox.consumers c row hget
    · intro q other hq
      by_cases hqp : q = p
      · subst hqp
        rcases hq with hq | hq
        all_goals
          rw [show _ = (s.setPhase q .idle).phase q from rfl, setPhase_self] at hq
          cases hq
      · exact h.bounded q other ((setPhase_ne (s := s) .idle hqp).symm ▸ hq)
    · intro q other hq
      by_cases hqp : q = p
      · subst hqp
        rw [show _ = (s.setPhase q .idle).phase q from rfl, setPhase_self] at hq
        cases hq
      · have hphase' : s.phase q = .allowed other := (setPhase_ne (s := s) .idle hqp).symm.trans hq
        exact (h.watched q other hphase').upsert (Ne.symm hqp)
  · refine h.move rfl _ ?_ fun other hother => by cases hother
    rintro other (hother | hother) <;> cases hother
  · have hmono := highWater_of_run h.wf h.outbox hrun
    refine ⟨wellFormed_of_run h.wf hrun, outboxWF_of_run h.wf h.outbox hrun, ?_, ?_⟩
    · exact fun q other hq => (h.bounded q other hq).trans hmono
    · intro q other hq
      refine (h.watched q other hq).pass (fun heq => by cases heq) ?_
      exact checkpoint_of_run h.wf h.outbox (GraphOp.spares hspares _) hrun

/-- What runs keep, from any state that keeps it. -/
theorem ackInvariant_run {before events : List (AckEvent P)} (h : AckInvariant before s)
    (hrun : s.run events = some s') : AckInvariant (before ++ events) s' := by
  induction events generalizing s before with
  | nil =>
    obtain rfl : s = s' := Option.some.inj hrun
    rwa [List.append_nil]
  | cons event events ih =>
    rw [← List.singleton_append, run_append, run_singleton] at hrun
    obtain ⟨t, hstep, hrest⟩ := Option.bind_eq_some_iff.1 hrun
    have hlater := ih (ackInvariant_step h hstep) hrest
    rwa [List.append_assoc, List.singleton_append] at hlater

omit [DecidableEq P] in
theorem ackInvariant_start {g : FilesystemGraph} (h : Reachable g) :
    AckInvariant [] (start g : AckSystem P) := by
  refine ⟨h.wellFormed, h.outboxWF, ?_, ?_⟩
  · rintro p call (hp | hp) <;> cases hp
  · intro p call hp
    cases hp

/-- A write is overtaken, or does not move the cursor back. -/
theorem step_advances {events : List (AckEvent P)} {event : AckEvent P} {consumer : String}
    (h : AckInvariant events s) (hstep : s.step event = some s')
    (hno : ¬ Overtaken (events ++ [event]) consumer) :
    ∀ row ∈ projectorCheckpoint s.graph consumer,
      ∃ row' ∈ projectorCheckpoint s'.graph consumer, row.lastSequence ≤ row'.lastSequence := by
  intro row hrow
  rcases step_cases hstep with ⟨p, call, rfl, -, hgraph, -⟩ |
    ⟨p, call, rfl, hphase, rfl | ⟨-, rfl⟩⟩ | ⟨p, call, rfl, hphase, rfl⟩ | ⟨p, rfl, rfl⟩ |
    ⟨op, g, rfl, hspares, hrun, rfl⟩
  · exact ⟨row, hgraph ▸ hrow, le_refl _⟩
  · exact ⟨row, hrow, le_refl _⟩
  · exact ⟨row, hrow, le_refl _⟩
  · show ∃ row' ∈ projectorCheckpoint (upsertConsumer s.graph call) consumer, _
    rw [projectorCheckpoint_upsert]
    by_cases hconsumer : consumer = call.consumerId
    · rw [if_pos hconsumer]
      refine ⟨_, rfl, ?_⟩
      obtain ⟨before, between, rfl, hbetween, hle | ⟨q, other, hmem, hother, hlt⟩⟩ :=
        h.watched p call hphase
      · exact hle row (hconsumer ▸ hrow)
      · refine absurd ⟨before, between, [], p, q, call, other, rfl, hbetween, hmem,
          hconsumer.symm, hother.trans hconsumer.symm, hlt⟩ hno
    · rw [if_neg hconsumer]
      exact ⟨row, hrow, le_refl _⟩
  · exact ⟨row, hrow, le_refl _⟩
  · refine ⟨row, ?_, le_refl _⟩
    have hsame := checkpoint_of_run h.wf h.outbox (GraphOp.spares hspares consumer) hrun
    exact hsame.symm ▸ hrow

omit [DecidableEq P] [CaseMapping] in
theorem overtaken_append {events : List (AckEvent P)} {consumer : String}
    (h : Overtaken events consumer) (later : List (AckEvent P)) :
    Overtaken (events ++ later) consumer := by
  obtain ⟨before, between, after, p, q, call, other, rfl, h⟩ := h
  exact ⟨before, between, after ++ later, p, q, call, other, by simp, h⟩

theorem run_advances {before events : List (AckEvent P)} {consumer : String}
    (h : AckInvariant before s) (hrun : s.run events = some s')
    (hno : ¬ Overtaken (before ++ events) consumer) :
    ∀ row ∈ projectorCheckpoint s.graph consumer,
      ∃ row' ∈ projectorCheckpoint s'.graph consumer, row.lastSequence ≤ row'.lastSequence := by
  induction events generalizing s before with
  | nil =>
    obtain rfl : s = s' := Option.some.inj hrun
    exact fun row hrow => ⟨row, hrow, le_refl _⟩
  | cons event events ih =>
    intro row hrow
    rw [← List.singleton_append, run_append, run_singleton] at hrun
    obtain ⟨t, hstep, hrest⟩ := Option.bind_eq_some_iff.1 hrun
    rw [← List.singleton_append, ← List.append_assoc] at hno
    have hfirst : ¬ Overtaken (before ++ [event]) consumer := fun hover =>
      hno (overtaken_append hover events)
    obtain ⟨middle, hmiddle, hle⟩ := step_advances h hstep hfirst row hrow
    obtain ⟨last, hlast, hle'⟩ := ih (ackInvariant_step h hstep) hrest hno middle hmiddle
    exact ⟨last, hlast, hle.trans hle'⟩

omit [DecidableEq P] in
/-- A row that was just written. -/
theorem checkpoint_after_upsert {p : P} {call : AckCall} [DecidableEq P]
    (h : s.step (.upsert p call) = some s') :
    projectorCheckpoint s'.graph call.consumerId = some ⟨call.lastSequence, call.indexGeneration⟩ := by
  rcases step_cases h with ⟨_, _, he, -⟩ | ⟨_, _, he, -⟩ | ⟨q, other, he, -, rfl⟩ | ⟨_, he, -⟩ |
    ⟨_, _, he, -⟩
  · cases he
  · cases he
  · cases he
    exact (projectorCheckpoint_upsert s.graph call call.consumerId).trans (if_pos rfl)
  · cases he
  · cases he

/-- The row the overtaking call wrote is above the one written after it. -/
theorem not_overtaken_of_advances {events : List (AckEvent P)} {consumer : String}
    (hrun : s.run events = some s') (h : s.Advances events consumer) :
    ¬ Overtaken events consumer := by
  rintro ⟨before, between, after, p, q, call, other, rfl, -, hmem, rfl, hother, hlt⟩
  obtain ⟨front, back, rfl⟩ := List.append_of_mem hmem
  -- the run up to the overtaking write, and from there to the write of the call
  have hsplit : before ++ AckEvent.readCheckpoint p :: (front ++ AckEvent.upsert q other :: back) ++
      AckEvent.upsert p call :: after =
      (before ++ AckEvent.readCheckpoint p :: front) ++ ([AckEvent.upsert q other] ++
        (back ++ ([AckEvent.upsert p call] ++ after))) := by simp
  rw [hsplit, run_append] at hrun
  obtain ⟨t₁, h₁, hrun⟩ := Option.bind_eq_some_iff.1 hrun
  rw [run_append, run_singleton] at hrun
  obtain ⟨t₂, h₂, hrun⟩ := Option.bind_eq_some_iff.1 hrun
  rw [run_append] at hrun
  obtain ⟨t₃, h₃, hrun⟩ := Option.bind_eq_some_iff.1 hrun
  rw [run_append, run_singleton] at hrun
  obtain ⟨t₄, h₄, -⟩ := Option.bind_eq_some_iff.1 hrun
  have hfirst : s.run (before ++ AckEvent.readCheckpoint p :: front ++ [AckEvent.upsert q other]) =
      some t₂ := by
    rw [run_append, h₁]
    exact (run_singleton _).trans h₂
  have hsecond : t₂.run (back ++ [AckEvent.upsert p call]) = some t₄ := by
    rw [run_append, h₃]
    exact (run_singleton _).trans h₄
  have hwritten := checkpoint_after_upsert h₂
  rw [hother] at hwritten
  obtain ⟨row, hrow, hle⟩ := h _ _ after t₂ t₄ (by simp) hfirst hsecond _ hwritten
  rw [checkpoint_after_upsert h₄] at hrow
  cases hrow
  exact absurd hle (not_le.2 hlt)

/-- In every interleaving of the statements of any processes with any other
writes, the cursor of a consumer stays below the newest sequence, and it never
moves back exactly where no call is overtaken between its read of the row and its
write. -/
theorem cursor_advances_unless_overtaken {g : FilesystemGraph} (hg : Reachable g)
    {events : List (AckEvent P)} (hrun : (start g).run events = some s') (consumer : String) :
    (start g).Advances events consumer ∧ (start g).StaysBelow events consumer ↔
      ¬ Overtaken events consumer := by
  constructor
  · exact fun h => not_overtaken_of_advances hrun h.1
  · intro hno
    refine ⟨?_, ?_⟩
    · intro before between after s₁ s₂ hevents hbefore hbetween
      have hinvariant := ackInvariant_run (ackInvariant_start hg) hbefore
      refine run_advances hinvariant hbetween fun hover => hno ?_
      rw [hevents]
      exact overtaken_append hover after
    · intro before after s₁ hevents hbefore row hrow
      have hinvariant := ackInvariant_run (ackInvariant_start hg) hbefore
      rw [latestOutboxSequence_eq hinvariant.outbox]
      exact hinvariant.outbox.consumers consumer row hrow

end AckSystem

section Example

attribute [local instance] asciiCaseMapping

/-- A graph with two rows in the outbox. -/
def ackSample : FilesystemGraph :=
  (runOps .empty [.applyBatch (sampleBatch [.upsertVolume sampleDescriptor,
    .upsertObject (sampleObject 1 .directory), .upsertLink (sampleLink 9 1 none "c:") false,
    .upsertObject (sampleObject 2 .file), .upsertLink (sampleLink 1 2 (some 1) "a") false])
    ]).toOption.getD .empty

theorem ackSample_reachable : Reachable ackSample := by
  have hrun : runOps .empty [.applyBatch (sampleBatch [.upsertVolume sampleDescriptor,
    .upsertObject (sampleObject 1 .directory), .upsertLink (sampleLink 9 1 none "c:") false,
    .upsertObject (sampleObject 2 .file), .upsertLink (sampleLink 1 2 (some 1) "a") false])
    ] = .ok ackSample := by decide
  exact runOps_steps (fun _ _ _ => trivial) hrun

def slowCall : AckCall := ⟨"content", 1, 7⟩
def fastCall : AckCall := ⟨"content", 2, 8⟩

/-- The second process acknowledges while the first has read the row already. -/
def overtakenEvents : List (AckEvent Bool) :=
  [.readLatest false slowCall, .readCheckpoint false, .readLatest true fastCall,
    .readCheckpoint true, .upsert true fastCall, .upsert false slowCall]

/-- One process that acknowledges twice, with a prune in the middle of a call. -/
def singleEvents : List (AckEvent Unit) :=
  [.readLatest () slowCall, .readCheckpoint (), .upsert () slowCall, .readLatest () fastCall,
    .readCheckpoint (), .operation .pruneConsumedOutbox, .upsert () fastCall]

/-- The cursor goes from 2 back to 1. -/
theorem cursor_moves_back :
    Reachable ackSample ∧ ((AckSystem.start ackSample).run overtakenEvents).isSome ∧
      ¬ ((AckSystem.start ackSample).Advances overtakenEvents "content" ∧
        (AckSystem.start ackSample).StaysBelow overtakenEvents "content") := by
  have hfirst : ((AckSystem.start ackSample).run (overtakenEvents.take 5)).map
      (fun t => projectorCheckpoint t.graph "content") = some (some ⟨2, 8⟩) := by decide
  have hall : ((AckSystem.start ackSample).run overtakenEvents).map
      (fun t => projectorCheckpoint t.graph "content") = some (some ⟨1, 7⟩) := by decide
  obtain ⟨s₁, hs₁, hrow₁⟩ := Option.map_eq_some_iff.1 hfirst
  obtain ⟨s₂, hs₂, hrow₂⟩ := Option.map_eq_some_iff.1 hall
  refine ⟨ackSample_reachable, by rw [hs₂]; rfl, fun h => ?_⟩
  have hlast : s₁.run (overtakenEvents.drop 5) = some s₂ := by
    have hsplit := AckSystem.run_append (s := AckSystem.start ackSample) (overtakenEvents.take 5)
      (overtakenEvents.drop 5)
    rw [List.take_append_drop, hs₁, hs₂] at hsplit
    exact hsplit.symm
  obtain ⟨row, hrow, hle⟩ := h.1 (overtakenEvents.take 5) (overtakenEvents.drop 5) [] s₁ s₂
    (by simp) hs₁ hlast ⟨2, 8⟩ hrow₁
  rw [hrow₂] at hrow
  cases hrow
  exact absurd hle (by decide)

/-- A process never overtakes itself. -/
theorem singleEvents_advance :
    Reachable ackSample ∧ (AckSystem.start ackSample).Advances singleEvents "content" := by
  have hsome : ((AckSystem.start ackSample).run singleEvents).isSome = true := by decide
  obtain ⟨s', hrun⟩ := Option.isSome_iff_exists.1 hsome
  have hno : ¬ Overtaken singleEvents "content" := by
    rintro ⟨before, between, after, p, q, call, other, -, hbetween, hmem, -⟩
    exact hbetween _ hmem rfl
  exact ⟨ackSample_reachable,
    ((AckSystem.cursor_advances_unless_overtaken ackSample_reachable hrun "content").2 hno).1⟩

end Example

end LocalSearch.Graph
