import Mathlib.Order.Lattice
import LocalSearch.Governor.Policy
import LocalSearch.Lib.Log

/-!
# Recovery from a telemetry outage

Background work is to come back behind healthy windows only. The windows since
the outage are followed by a record that reads the calls alone. The governor
counts a window before it looks at what was observed in it, so the promise holds
on the runs in which no unhealthy window is counted during recovery.
-/
namespace LocalSearch.Governor

set_option autoImplicit false

open Lib

namespace ResourceGovernor

section Frames

variable (s : ResourceGovernor) (mode : GovernorMode) (reason : DecisionReason) (countWindow : Bool)

theorem transition_frame : ∃ cooldown sequence, s.transition mode reason =
    { s with
      mode := mode, reason := reason, cooldownRemaining := cooldown
      transitionSequence := sequence } := by
  by_cases h : s.mode = mode
  · refine ⟨s.cooldownRemaining, s.transitionSequence, ?_⟩
    rw [transition, if_neg (not_not.mpr h), ← h]
  · exact ⟨s.config.cooldownWindows, clampU64 (s.transitionSequence.toNat + 1), if_pos h⟩

@[simp] theorem transition_recoveryStreak :
    (s.transition mode reason).recoveryStreak = s.recoveryStreak := by
  obtain ⟨cooldown, sequence, h⟩ := s.transition_frame mode reason
  rw [h]

theorem relax_frame : ∃ mode reason recovery cooldown sequence, s.relax countWindow =
    { s with
      mode := mode, reason := reason, recoveryStreak := recovery, cooldownRemaining := cooldown
      transitionSequence := sequence } := by
  obtain ⟨recovery, cooldown, hcount⟩ := countHealthy_fields s countWindow
  unfold relax
  rw [hcount]
  dsimp only
  split
  · exact ⟨_, _, _, _, _, rfl⟩
  · split
    · obtain ⟨cooldown', sequence, h⟩ := transition_frame
        { s with recoveryStreak := recovery, cooldownRemaining := cooldown }
        (desired { s with recoveryStreak := recovery, cooldownRemaining := cooldown }).1
        (desired { s with recoveryStreak := recovery, cooldownRemaining := cooldown }).2
      rw [h]
      exact ⟨_, _, _, _, _, rfl⟩
    · exact ⟨_, _, _, _, _, rfl⟩

theorem evaluateUse_frame : ∃ mode reason recovery cooldown sequence, s.evaluateUse countWindow =
    { s with
      mode := mode, reason := reason, recoveryStreak := recovery, cooldownRemaining := cooldown
      transitionSequence := sequence } := by
  have htransition : ∀ recovery mode reason, ∃ mode' reason' recovery' cooldown sequence,
      ({ s with recoveryStreak := recovery } : ResourceGovernor).transition mode reason =
        { s with
          mode := mode', reason := reason', recoveryStreak := recovery'
          cooldownRemaining := cooldown, transitionSequence := sequence } := by
    intro recovery mode reason
    obtain ⟨cooldown, sequence, h⟩ := transition_frame { s with recoveryStreak := recovery } mode reason
    rw [h]
    exact ⟨_, _, _, _, _, rfl⟩
  unfold evaluateUse
  split
  · exact htransition 0 _ _
  split
  · exact htransition s.recoveryStreak _ _
  split
  · exact htransition s.recoveryStreak _ _
  split
  · exact ⟨_, _, _, _, _, rfl⟩
  · exact s.relax_frame countWindow

/-- Once telemetry is trusted, `evaluate` writes the mode, its reason and the
counters. -/
theorem evaluatePressure_frame : ∃ mode reason streak recovery cooldown sequence,
    s.evaluatePressure countWindow =
    { s with
      mode := mode, reason := reason, pressureStreak := streak, recoveryStreak := recovery
      cooldownRemaining := cooldown, transitionSequence := sequence } := by
  unfold evaluatePressure
  split
  · obtain ⟨cooldown, sequence, h⟩ := s.transition_frame .pressure .criticalMemory
    rw [h]
    exact ⟨_, _, _, _, _, _, rfl⟩
  split
  · generalize (if countWindow then saturatingSucc s.pressureStreak else s.pressureStreak) = streak
    dsimp only
    split
    · obtain ⟨cooldown, sequence, h⟩ := transition_frame
        { s with pressureStreak := streak, recoveryStreak := 0 } .pressure .systemPressure
      rw [h]
      exact ⟨_, _, _, _, _, _, rfl⟩
    · obtain ⟨mode, reason, recovery, cooldown, sequence, h⟩ := evaluateUse_frame
        { s with pressureStreak := streak, recoveryStreak := 0 } countWindow
      rw [h]
      exact ⟨_, _, _, _, _, _, rfl⟩
  · obtain ⟨mode, reason, recovery, cooldown, sequence, h⟩ := evaluateUse_frame
      { s with pressureStreak := 0 } countWindow
    rw [h]
    exact ⟨_, _, _, _, _, _, rfl⟩

theorem passWindow_frame : ∃ hold, s.passWindow = { s with interactiveRemaining := hold } := by
  unfold passWindow
  split
  · exact ⟨_, rfl⟩
  · exact ⟨s.interactiveRemaining, rfl⟩

/-- An evaluation writes the mode, its reason, the counters and, where it ends an
outage, the flag for it. -/
theorem evaluate_frame : ∃ mode reason required streak recovery cooldown sequence,
    s.evaluate countWindow =
    { s with
      mode := mode, reason := reason, resourceRecoveryRequired := required
      pressureStreak := streak, recoveryStreak := recovery, cooldownRemaining := cooldown
      transitionSequence := sequence } := by
  have hwaits : ∀ t : ResourceGovernor, (∃ recovery cooldown,
      t = { s with recoveryStreak := recovery, cooldownRemaining := cooldown }) →
      ∃ mode reason required streak recovery cooldown sequence,
        t.transition .pressure .resourceTelemetryUnavailable =
        { s with
          mode := mode, reason := reason, resourceRecoveryRequired := required
          pressureStreak := streak, recoveryStreak := recovery, cooldownRemaining := cooldown
          transitionSequence := sequence } := by
    rintro t ⟨recovery, cooldown, rfl⟩
    obtain ⟨cooldown', sequence, h⟩ := transition_frame
      { s with recoveryStreak := recovery, cooldownRemaining := cooldown }
      .pressure .resourceTelemetryUnavailable
    rw [h]
    exact ⟨_, _, _, _, _, _, _, rfl⟩
  obtain ⟨recovery, cooldown, hcount⟩ := countHealthy_fields s countWindow
  unfold evaluate
  split
  · exact hwaits s ⟨_, _, rfl⟩
  split
  · rw [hcount]
    dsimp only
    split
    · exact hwaits _ ⟨_, _, rfl⟩
    · obtain ⟨cooldown', sequence, h⟩ := transition_frame
        { s with
          resourceRecoveryRequired := false, recoveryStreak := 0, cooldownRemaining := cooldown }
        .balanced .balanced
      rw [h]
      obtain ⟨mode, reason, streak, recovery', cooldown'', sequence', h'⟩ := evaluatePressure_frame
        { s with
          mode := .balanced, reason := .balanced, resourceRecoveryRequired := false
          recoveryStreak := 0, cooldownRemaining := cooldown', transitionSequence := sequence }
        countWindow
      rw [h']
      exact ⟨_, _, _, _, _, _, _, rfl⟩
  · obtain ⟨mode, reason, streak, recovery, cooldown, sequence, h⟩ :=
      s.evaluatePressure_frame countWindow
    rw [h]
    exact ⟨_, _, _, _, _, _, _, rfl⟩

/-- No evaluation changes the thresholds. -/
theorem evaluate_config : (s.evaluate countWindow).config = s.config := by
  obtain ⟨mode, reason, required, streak, recovery, cooldown, sequence, h⟩ :=
    s.evaluate_frame countWindow
  rw [h]

end Frames

theorem call_config (s : ResourceGovernor) (report : Report) : (s.call report).config = s.config := by
  cases report with
  | beginInteractiveRequest =>
    show s.beginInteractiveRequest.config = s.config
    unfold beginInteractiveRequest
    dsimp only
    split
    · exact transition_config _ _ _
    · rfl
  | reportSearchLatency latency =>
    show (s.reportSearchLatency latency).config = s.config
    unfold reportSearchLatency
    dsimp only
    split
    · rfl
    · exact transition_config _ _ _
  | reportSystemPressure pressure =>
    obtain ⟨hold, h⟩ := passWindow_frame { s with pressure := pressure, resourceAvailable := true }
    show (evaluate _ true).config = s.config
    rw [evaluate_config, h]
  | reportResourceUnavailable => exact transition_config _ _ _
  | reportWorkload workload =>
    show (s.reportWorkload workload).config = s.config
    unfold reportWorkload
    dsimp only
    split
    · exact transition_config _ _ _
    · rfl
  | reportBacklog backlogMutations =>
    show (s.reportBacklog backlogMutations).config = s.config
    unfold reportBacklog
    dsimp only
    split
    · exact transition_config _ _ _
    · rfl
  | reportUserIdleDuration idle =>
    show (s.reportUserIdleDuration idle).config = s.config
    unfold reportUserIdleDuration
    dsimp only
    split
    · exact transition_config _ _ _
    · exact evaluate_config _ _
  | advanceWindow =>
    obtain ⟨hold, h⟩ := passWindow_frame s
    show (evaluate _ true).config = s.config
    rw [evaluate_config, h]

theorem run_concat (s : ResourceGovernor) (calls : List Report) (report : Report) :
    s.run (calls ++ [report]) = (s.run calls).call report :=
  List.foldl_concat _ _ _ _

theorem run_config (s : ResourceGovernor) (calls : List Report) : (s.run calls).config = s.config := by
  induction calls using List.reverseRecOn with
  | nil => rfl
  | append_singleton calls report ih => rw [run_concat, call_config, ih]

/-- What was seen since the last outage: the current observation, the healthy
windows in a row and the longest such row. -/
structure Watch where
  observation : Option SystemPressure
  streak : Nat
  best : Nat
  deriving DecidableEq, Repr

/-- A window is healthy when an observation is there and shows no pressure. -/
def Watch.window (config : GovernorConfig) (w : Watch) : Watch :=
  if w.observation.any (fun p => !config.pressured p) then
    { w with streak := w.streak + 1, best := max w.best (w.streak + 1) }
  else { w with streak := 0 }

def Watch.step (config : GovernorConfig) (w : Watch) : Report → Watch
  | .reportResourceUnavailable => ⟨none, 0, 0⟩
  | .reportSystemPressure pressure => Watch.window config { w with observation := some pressure }
  | .advanceWindow => w.window config
  | _ => w

/-- The record of the calls after an outage was reported. -/
def watch (config : GovernorConfig) (calls : List Report) : Watch :=
  calls.foldl (Watch.step config) ⟨none, 0, 0⟩

/-- A window that is counted while the governor waits for recovery observes no
pressure. -/
def RecoversHealthy (s : ResourceGovernor) : Report → Prop
  | .reportSystemPressure pressure =>
      s.resourceRecoveryRequired = true → s.config.pressured pressure = false
  | .advanceWindow =>
      s.resourceRecoveryRequired = true → s.resourceAvailable = true →
        s.config.pressured s.pressure = false
  | _ => True

structure Watched (s : ResourceGovernor) (w : Watch) : Prop where
  available : s.resourceAvailable = w.observation.isSome
  pressure : ∀ p ∈ w.observation, s.pressure = p
  bounded : w.streak ≤ w.best
  unseen : w.observation = none → w.streak = 0
  waiting : s.resourceRecoveryRequired = true →
    s.mode = .pressure ∧ s.recoveryStreak.toNat ≤ w.streak
  recovered : s.resourceRecoveryRequired = false → s.config.recoveryWindows.toNat ≤ w.best

theorem saturatingSucc_toNat_le (n : UInt8) : (saturatingSucc n).toNat ≤ n.toNat + 1 := by
  unfold saturatingSucc
  split
  · next h =>
    rw [h]
    decide
  · rw [UInt8.toNat_add]
    exact Nat.mod_le _ _

/-- The two ways an evaluation ends while the governor waits. -/
theorem evaluate_waiting {s : ResourceGovernor} (countWindow : Bool)
    (hwait : s.resourceRecoveryRequired = true) :
    (∃ mode reason recovery cooldown sequence,
      s.evaluate countWindow = { s with
        mode := mode, reason := reason, recoveryStreak := recovery, cooldownRemaining := cooldown
        transitionSequence := sequence } ∧
      mode = .pressure ∧
      (s.resourceAvailable = true → recovery = (s.countHealthy countWindow).recoveryStreak) ∧
      (s.resourceAvailable = false → recovery = s.recoveryStreak)) ∨
    (∃ t : ResourceGovernor, s.evaluate countWindow = t.evaluatePressure countWindow ∧
      t.resourceRecoveryRequired = false ∧ t.config = s.config ∧ t.pressure = s.pressure ∧
      t.resourceAvailable = s.resourceAvailable ∧ s.resourceAvailable = true ∧
      s.config.recoveryWindows ≤ (s.countHealthy countWindow).recoveryStreak) := by
  obtain ⟨recovery, cooldown, hcount⟩ := countHealthy_fields s countWindow
  unfold evaluate
  split
  · next hdown =>
    obtain ⟨cooldown, sequence, h⟩ :=
      s.transition_frame .pressure .resourceTelemetryUnavailable
    rw [h]
    have hdown' : s.resourceAvailable = false := by simpa using hdown
    refine .inl ⟨_, _, _, _, _, rfl, rfl, fun hup => ?_, fun _ => rfl⟩
    rw [hdown'] at hup
    cases hup
  · next hup =>
    have hup' : s.resourceAvailable = true := by simpa using hup
    rw [hcount]
    dsimp only
    split
    · obtain ⟨cooldown', sequence, h⟩ := transition_frame
        { s with recoveryStreak := recovery, cooldownRemaining := cooldown }
        .pressure .resourceTelemetryUnavailable
      rw [h]
      refine .inl ⟨_, _, _, _, _, rfl, rfl, fun _ => rfl, fun hdown => ?_⟩
      rw [hup'] at hdown
      cases hdown
    · next hstreak =>
      refine .inr ⟨_, rfl, ?_⟩
      simp only [transition_resourceRecoveryRequired, transition_config, transition_pressure,
        transition_resourceAvailable, true_and]
      exact ⟨hup', by simpa using hstreak⟩

theorem Watch.window_healthy {config : GovernorConfig} {w : Watch} {p : SystemPressure}
    (hp : w.observation = some p) (hhealthy : config.pressured p = false) :
    w.window config = { w with streak := w.streak + 1, best := max w.best (w.streak + 1) } := by
  rw [Watch.window, if_pos]
  rw [hp]
  simpa using hhealthy

theorem Watch.window_bounded (config : GovernorConfig) (w : Watch) :
    (w.window config).streak ≤ (w.window config).best ∧ w.best ≤ (w.window config).best ∧
      (w.window config).observation = w.observation := by
  unfold Watch.window
  split
  · exact ⟨le_max_right _ _, le_max_left _ _, rfl⟩
  · exact ⟨Nat.zero_le _, le_rfl, rfl⟩

theorem Watch.window_unseen {config : GovernorConfig} {w : Watch} (h : w.observation = none) :
    (w.window config).streak = 0 := by
  rw [Watch.window, if_neg]
  rw [h]
  simp

/-- An evaluation, with the record already brought up to the window it counts. -/
theorem watched_evaluate {s : ResourceGovernor} {w w' : Watch} (countWindow : Bool)
    (havailable : s.resourceAvailable = w'.observation.isSome)
    (hpressure : ∀ p ∈ w'.observation, s.pressure = p) (hbounded : w'.streak ≤ w'.best)
    (hunseen : w'.observation = none → w'.streak = 0) (hbest : w.best ≤ w'.best)
    (hwaiting : s.resourceRecoveryRequired = true →
      (s.resourceAvailable = true →
        (s.countHealthy countWindow).recoveryStreak.toNat ≤ w'.streak) ∧
      (s.resourceAvailable = false → s.recoveryStreak.toNat ≤ w'.streak))
    (hrecovered : s.resourceRecoveryRequired = false → s.config.recoveryWindows.toNat ≤ w.best) :
    (s.evaluate countWindow).Watched w' := by
  obtain ⟨hkept, hkept'⟩ := evaluate_kept s countWindow
  by_cases hwait : s.resourceRecoveryRequired = true
  · obtain ⟨hup, hdown⟩ := hwaiting hwait
    rcases evaluate_waiting countWindow hwait with
      ⟨mode, reason, recovery, cooldown, sequence, h, hmode, hcounted, huncounted⟩ |
      ⟨t, h, htwait, htconfig, -, -, htup, hstreak⟩
    · refine ⟨hkept' ▸ havailable, hkept ▸ hpressure, hbounded, hunseen, fun _ => ?_, fun hnot => ?_⟩
      · rw [h]
        refine ⟨hmode, ?_⟩
        cases ha : s.resourceAvailable with
        | true => exact hcounted ha ▸ hup ha
        | false => exact huncounted ha ▸ hdown ha
      · rw [h] at hnot
        exact absurd hwait (by simpa using hnot)
    · obtain ⟨mode, reason, streak, recovery, cooldown, sequence, hframe⟩ :=
        t.evaluatePressure_frame countWindow
      refine ⟨hkept' ▸ havailable, hkept ▸ hpressure, hbounded, hunseen, fun hnot => ?_, fun _ => ?_⟩
      · rw [h, hframe] at hnot
        rw [htwait] at hnot
        cases hnot
      · rw [h, hframe]
        show t.config.recoveryWindows.toNat ≤ w'.best
        rw [htconfig]
        have hle : s.config.recoveryWindows.toNat ≤ (s.countHealthy countWindow).recoveryStreak.toNat :=
          UInt8.le_iff_toNat_le.mp hstreak
        exact hle.trans ((hup htup).trans hbounded)
  · have hnotwait : s.resourceRecoveryRequired = false := by simpa using hwait
    have hbest' := (hrecovered hnotwait).trans hbest
    have hdone : ∀ t : ResourceGovernor, s.evaluate countWindow = t →
        t.resourceRecoveryRequired = false ∧ t.config = s.config := by
      rintro t rfl
      unfold evaluate
      rw [if_neg hwait]
      split
      · simpa using hnotwait
      · obtain ⟨mode, reason, streak, recovery, cooldown, sequence, hframe⟩ :=
          s.evaluatePressure_frame countWindow
        rw [hframe]
        exact ⟨hnotwait, rfl⟩
    obtain ⟨hflag, hconfig⟩ := hdone _ rfl
    refine ⟨hkept' ▸ havailable, hkept ▸ hpressure, hbounded, hunseen, fun hnot => ?_, fun _ => ?_⟩
    · rw [hflag] at hnot
      cases hnot
    · rw [hconfig]
      exact hbest'

/-- A call that leaves the observation alone, and while the governor waits its
mode and its streak too. -/
theorem Watched.keep {s t : ResourceGovernor} {w : Watch} (h : s.Watched w)
    (hconfig : t.config = s.config) (hpressure : t.pressure = s.pressure)
    (havailable : t.resourceAvailable = s.resourceAvailable)
    (hrequired : t.resourceRecoveryRequired = s.resourceRecoveryRequired)
    (hwaiting : s.resourceRecoveryRequired = true →
      t.mode = s.mode ∧ t.recoveryStreak = s.recoveryStreak) : t.Watched w := by
  refine ⟨havailable ▸ h.available, hpressure ▸ h.pressure, h.bounded, h.unseen, fun hwait => ?_,
    fun hdone => ?_⟩
  · rw [hrequired] at hwait
    obtain ⟨hmode, hstreak⟩ := hwaiting hwait
    rw [hmode, hstreak]
    exact h.waiting hwait
  · rw [hrequired] at hdone
    rw [hconfig]
    exact h.recovered hdone

/-- A counted window, with the observation already in place. -/
theorem Watched.window {s : ResourceGovernor} {w : Watch} (h : s.Watched w)
    (hhealthy : s.resourceRecoveryRequired = true → s.resourceAvailable = true →
      s.config.pressured s.pressure = false) :
    (s.passWindow.evaluate true).Watched (w.window s.config) := by
  obtain ⟨hold, hpass⟩ := passWindow_frame s
  obtain ⟨hbounded, hbest, hsame⟩ := Watch.window_bounded s.config w
  rw [hpass]
  apply watched_evaluate (w := w) true
  · rw [hsame]
    exact h.available
  · rw [hsame]
    exact h.pressure
  · exact hbounded
  · rw [hsame]
    exact Watch.window_unseen
  · exact hbest
  · intro hwait
    obtain ⟨-, hstreak⟩ := h.waiting hwait
    constructor
    · intro hup
      have hsome : w.observation.isSome = true := h.available ▸ hup
      obtain ⟨p, hp⟩ := Option.isSome_iff_exists.mp hsome
      have hquiet : s.config.pressured p = false := h.pressure p hp ▸ hhealthy hwait hup
      rw [Watch.window_healthy hp hquiet]
      show (saturatingSucc s.recoveryStreak).toNat ≤ w.streak + 1
      exact (saturatingSucc_toNat_le _).trans (Nat.succ_le_succ hstreak)
    · intro hdown
      have hnone : w.observation = none := by
        have hsome := h.available
        rw [hdown] at hsome
        simpa using hsome.symm
      rw [Watch.window_unseen hnone, ← h.unseen hnone]
      exact hstreak
  · exact h.recovered

/-- Outside recovery the mode is free to change. -/
theorem Watched.transition {s : ResourceGovernor} {w : Watch} (h : s.Watched w)
    (hrequired : s.resourceRecoveryRequired = false) (mode : GovernorMode)
    (reason : DecisionReason) : (s.transition mode reason).Watched w := by
  refine h.keep (transition_config _ _ _) (transition_pressure _ _ _)
    (transition_resourceAvailable _ _ _) (transition_resourceRecoveryRequired _ _ _) fun hwait => ?_
  rw [hrequired] at hwait
  cases hwait

/-- The governor right after the outage, whatever it was before. -/
theorem watched_unavailable (s : ResourceGovernor) :
    s.reportResourceUnavailable.Watched ⟨none, 0, 0⟩ := by
  refine ⟨?_, fun p hp => ?_, Nat.le_refl 0, fun _ => rfl, fun _ => ?_, fun hdone => ?_⟩
  · simp [reportResourceUnavailable]
  · cases hp
  · simp [reportResourceUnavailable]
  · simp [reportResourceUnavailable] at hdone

/-- One public call. -/
theorem Watched.call {s : ResourceGovernor} {w : Watch} (h : s.Watched w) {report : Report}
    (hstep : s.RecoversHealthy report) : (s.call report).Watched (w.step s.config report) := by
  have hboosted : s.mode = .idleBoost → s.resourceRecoveryRequired = false := by
    intro hmode
    by_contra hwait
    have hpressure := (h.waiting (by simpa using hwait)).1
    rw [hmode] at hpressure
    cases hpressure
  cases report with
  | beginInteractiveRequest =>
    show s.beginInteractiveRequest.Watched w
    unfold beginInteractiveRequest
    dsimp only
    have hheld := h.keep (t := { s with interactiveRemaining := s.config.interactiveHoldWindows })
      rfl rfl rfl rfl fun _ => ⟨rfl, rfl⟩
    split
    · next htrusted => exact hheld.transition (by simpa using htrusted.2) _ _
    · exact hheld
  | reportSearchLatency latency =>
    show (s.reportSearchLatency latency).Watched w
    unfold reportSearchLatency
    dsimp only
    have hheld := h.keep (t := { s with interactiveRemaining := s.config.interactiveHoldWindows })
      rfl rfl rfl rfl fun _ => ⟨rfl, rfl⟩
    split
    · exact hheld
    · next htrusted =>
      have hrequired : s.resourceRecoveryRequired = false := by
        simpa using fun hwait => htrusted (.inr hwait)
      exact hheld.transition hrequired _ _
  | reportSystemPressure pressure =>
    have hset : Watched { s with pressure := pressure, resourceAvailable := true }
        { w with observation := some pressure } := by
      refine ⟨rfl, fun p hp => ?_, h.bounded, fun hnone => ?_, h.waiting, h.recovered⟩
      · exact Option.some.inj hp
      · cases hnone
    exact hset.window fun hwait _ => hstep hwait
  | reportResourceUnavailable => exact s.watched_unavailable
  | reportWorkload workload =>
    show (s.reportWorkload workload).Watched w
    unfold reportWorkload
    dsimp only
    split
    · next htrusted =>
      have hheld := h.keep (t := { s with
          workload := workload, interactiveRemaining := s.config.interactiveHoldWindows })
        rfl rfl rfl rfl fun _ => ⟨rfl, rfl⟩
      exact hheld.transition (by simpa using htrusted.2.2) _ _
    · exact h.keep rfl rfl rfl rfl fun _ => ⟨rfl, rfl⟩
  | reportBacklog backlogMutations =>
    show (s.reportBacklog backlogMutations).Watched w
    unfold reportBacklog
    dsimp only
    split
    · next hboost =>
      have hrequired := hboosted hboost.2
      apply Watched.transition
      · refine h.keep rfl rfl rfl rfl fun hwait => ?_
        rw [hrequired] at hwait
        cases hwait
      · exact hrequired
    · exact h.keep rfl rfl rfl rfl fun _ => ⟨rfl, rfl⟩
  | reportUserIdleDuration idle =>
    show (s.reportUserIdleDuration idle).Watched w
    unfold reportUserIdleDuration
    dsimp only
    split
    · next hboost =>
      have hrequired := hboosted hboost.2
      apply Watched.transition
      · refine h.keep rfl rfl rfl rfl fun hwait => ?_
        rw [hrequired] at hwait
        cases hwait
      · exact hrequired
    · apply watched_evaluate (w := w) false
      · exact h.available
      · exact h.pressure
      · exact h.bounded
      · exact h.unseen
      · exact Nat.le_refl _
      · exact fun hwait => ⟨fun _ => (h.waiting hwait).2, fun _ => (h.waiting hwait).2⟩
      · exact h.recovered
  | advanceWindow => exact h.window hstep

theorem watched_run (s : ResourceGovernor) {calls : List Report}
    (hsteps : EachEntry (fun past => (s.reportResourceUnavailable.run past).RecoversHealthy) calls) :
    (s.reportResourceUnavailable.run calls).Watched (watch s.config calls) := by
  apply hsteps.induct (Q := fun calls =>
    (s.reportResourceUnavailable.run calls).Watched (watch s.config calls))
  · exact s.watched_unavailable
  · intro past report ih hstep
    have hcall := ih.call hstep
    rw [run_config, show s.reportResourceUnavailable.config = s.config from
      s.call_config .reportResourceUnavailable] at hcall
    rw [run_concat, watch, List.foldl_concat]
    exact hcall

/-- After an outage background work comes back behind `recovery_windows` healthy
windows in a row, as long as no unhealthy window is counted during recovery. -/
theorem outage_recovers_behind_healthy_windows (s : ResourceGovernor) {calls : List Report}
    (hsteps : EachEntry (fun past => (s.reportResourceUnavailable.run past).RecoversHealthy) calls)
    (hrun : (s.reportResourceUnavailable.run calls).decision.budget.backgroundPaused = false) :
    s.config.recoveryWindows.toNat ≤ (watch s.config calls).best := by
  have hwatched := s.watched_run hsteps
  have hdone : (s.reportResourceUnavailable.run calls).resourceRecoveryRequired = false := by
    by_contra hwait
    have hmode := (hwatched.waiting (by simpa using hwait)).1
    have hpaused : (budget (s.reportResourceUnavailable.run calls).mode
        (s.reportResourceUnavailable.run calls).pressure.energySaver).backgroundPaused = false := hrun
    rw [hmode] at hpaused
    cases hpaused
  have hbound := hwatched.recovered hdone
  rwa [run_config, show s.reportResourceUnavailable.config = s.config from
    s.call_config .reportResourceUnavailable] at hbound

/-- A machine at rest on external power. -/
def quiet : SystemPressure := ⟨some 5000, some 1000, some 1000, .ac, none, false⟩

/-- The processor alone is busy. -/
def busy : SystemPressure := { quiet with systemCpuLoadBasisPoints := some 9500 }

/-- Five quiet windows bring the work back, and there were five of them. -/
theorem quiet_windows_recover :
    (((new .standard).reportResourceUnavailable.run
      (List.replicate 5 (.reportSystemPressure quiet))).decision.budget.backgroundPaused = false) ∧
    5 ≤ (watch .standard (List.replicate 5 (.reportSystemPressure quiet))).best := by
  have hsteps : EachEntry
      (fun past => ((new .standard).reportResourceUnavailable.run past).RecoversHealthy)
      (List.replicate 5 (.reportSystemPressure quiet)) := by
    refine eachEntry_cons.mpr ⟨fun _ => rfl, eachEntry_cons.mpr ⟨fun _ => rfl, ?_⟩⟩
    refine eachEntry_cons.mpr ⟨fun _ => rfl, eachEntry_cons.mpr ⟨fun _ => rfl, ?_⟩⟩
    exact eachEntry_cons.mpr ⟨fun _ => rfl, eachEntry_nil⟩
  exact ⟨by decide, outage_recovers_behind_healthy_windows (new .standard) hsteps (by decide)⟩

/-- Five windows of a busy processor bring the work back too: recovery counts
them before anything looks at what they observe. -/
theorem busy_windows_recover :
    ∃ (s : ResourceGovernor) (calls : List Report), 1 ≤ s.config.recoveryWindows ∧
      (s.reportResourceUnavailable.run calls).decision.budget.backgroundPaused = false ∧
      (watch s.config calls).best < s.config.recoveryWindows.toNat :=
  ⟨new .standard, List.replicate 5 (.reportSystemPressure busy), by decide, by decide, by decide⟩

end ResourceGovernor

end LocalSearch.Governor
