import LocalSearch.Governor.Recovery

/-!
# Leaving pressure

`Pressure` is to be left behind healthy windows in a row. One streak serves all
modes: pressure and activity clear it, and critical memory does not. Where the
streak is fresh each time critical memory is met, every transition out of
`Pressure` has its windows behind it.
-/
namespace LocalSearch.Governor

set_option autoImplicit false

open Lib

namespace ResourceGovernor

/-- Neither critical nor pressured. -/
def healthy (config : GovernorConfig) (pressure : SystemPressure) : Bool :=
  !config.critical pressure && !config.pressured pressure

/-- The calls that count a policy window. -/
def counts : Report → Bool
  | .reportSystemPressure _ => true
  | .advanceWindow => true
  | _ => false

/-- A governor, the last observation reported to it, and the healthy windows in a
row since it last entered `Pressure`. -/
structure Vigil where
  governor : ResourceGovernor
  observed : SystemPressure
  calm : Nat

def Vigil.step (v : Vigil) (report : Report) : Vigil where
  governor := v.governor.call report
  observed := observe v.observed report
  calm :=
    if v.governor.mode ≠ .pressure ∧ (v.governor.call report).mode = .pressure then 0
    else if counts report then
      if healthy v.governor.config (observe v.observed report) then v.calm + 1 else 0
    else v.calm

def vigil (config : GovernorConfig) (calls : List Report) : Vigil :=
  calls.foldl Vigil.step ⟨new config, .unknown, 0⟩

/-- Critical memory finds no streak of earlier healthy windows. -/
def FreshStreak (s : ResourceGovernor) : Report → Prop
  | .reportSystemPressure pressure =>
      s.config.critical pressure = true → s.recoveryStreak = 0
  | .advanceWindow => s.config.critical s.pressure = true → s.recoveryStreak = 0
  | .reportUserIdleDuration _ =>
      s.config.critical s.pressure = true → s.mode = .pressure ∨ s.recoveryStreak = 0
  | _ => True

/-- The modes in which background work is not held back. -/
def Relaxed (mode : GovernorMode) : Prop := mode = .balanced ∨ mode = .idleBoost

instance : DecidablePred Relaxed := fun mode =>
  inferInstanceAs (Decidable (mode = .balanced ∨ mode = .idleBoost))

theorem countHealthy_recoveryStreak (s : ResourceGovernor) (countWindow : Bool) :
    (s.countHealthy countWindow).recoveryStreak =
      if countWindow then saturatingSucc s.recoveryStreak else s.recoveryStreak := by
  unfold countHealthy
  split <;> rfl

theorem relax_hysteresis (s : ResourceGovernor) (countWindow : Bool) :
    ((s.relax countWindow).mode = s.mode ∧
      (s.relax countWindow).recoveryStreak = (s.countHealthy countWindow).recoveryStreak) ∨
    ((s.relax countWindow).mode = s.desired.1 ∧
      s.config.recoveryWindows ≤ (s.countHealthy countWindow).recoveryStreak) := by
  obtain ⟨recovery, cooldown, hcount⟩ := countHealthy_fields s countWindow
  unfold relax
  rw [hcount]
  dsimp only
  split
  · exact .inl ⟨rfl, rfl⟩
  · split
    · next hready => exact .inr ⟨transition_mode _ _ _, hready.1⟩
    · exact .inl ⟨rfl, rfl⟩

theorem desired_relaxed (s : ResourceGovernor) : Relaxed s.desired.1 := by
  unfold desired
  split
  · exact .inr rfl
  · exact .inl rfl

/-- What an evaluation says about the machine when it ends in a relaxed mode or
in `Pressure`. -/
theorem evaluateUse_hysteresis (s : ResourceGovernor) (countWindow : Bool) :
    (Relaxed (s.evaluateUse countWindow).mode →
      (s.evaluateUse countWindow).mode = s.mode ∨
        (s.config.pressured s.pressure = false ∧
          s.config.recoveryWindows ≤ (s.countHealthy countWindow).recoveryStreak)) ∧
    ((s.evaluateUse countWindow).mode = .pressure → s.mode = .pressure ∧
      (s.evaluateUse countWindow).recoveryStreak =
        if s.config.pressured s.pressure then s.recoveryStreak
        else (s.countHealthy countWindow).recoveryStreak) := by
  have hleft : ∀ (t : ResourceGovernor) (mode : GovernorMode) (reason : DecisionReason) {P Q : Prop},
      mode = .active ∨ mode = .battery →
      (Relaxed (t.transition mode reason).mode → P) ∧
        ((t.transition mode reason).mode = .pressure → Q) := by
    intro t mode reason P Q hmode
    rw [transition_mode]
    rcases hmode with rfl | rfl
    · exact ⟨fun h => absurd h (by decide), fun h => absurd h (by decide)⟩
    · exact ⟨fun h => absurd h (by decide), fun h => absurd h (by decide)⟩
  unfold evaluateUse
  split
  · exact hleft _ _ _ (.inl rfl)
  split
  · exact hleft _ _ _ (.inr rfl)
  split
  · exact hleft _ _ _ (.inr rfl)
  split
  · exact ⟨fun _ => .inl rfl, fun hmode => ⟨hmode, rfl⟩⟩
  · next hpressured =>
    have hquiet : s.config.pressured s.pressure = false := by simpa using hpressured
    rcases s.relax_hysteresis countWindow with ⟨hmode, hstreak⟩ | ⟨hmode, hstreak⟩
    · exact ⟨fun _ => .inl hmode, fun hpressure => ⟨hmode ▸ hpressure, hstreak⟩⟩
    · refine ⟨fun _ => .inr ⟨hquiet, hstreak⟩, fun hpressure => ?_⟩
      rw [hmode] at hpressure
      rcases s.desired_relaxed with h | h
      all_goals
        rw [h] at hpressure
        cases hpressure

/-- What an evaluation of trusted telemetry leaves: critical memory keeps the
streak, pressure clears it, and a healthy machine relaxes behind it. -/
theorem evaluatePressure_hysteresis (s : ResourceGovernor) (countWindow : Bool) :
    (Relaxed (s.evaluatePressure countWindow).mode →
      (s.evaluatePressure countWindow).mode = s.mode ∨
        (healthy s.config s.pressure = true ∧
          s.config.recoveryWindows ≤ (s.countHealthy countWindow).recoveryStreak)) ∧
    ((s.evaluatePressure countWindow).mode = .pressure →
      (s.config.critical s.pressure = true ∧
        (s.evaluatePressure countWindow).recoveryStreak = s.recoveryStreak) ∨
      (s.evaluatePressure countWindow).recoveryStreak = 0 ∨
      (healthy s.config s.pressure = true ∧ s.mode = .pressure ∧
        (s.evaluatePressure countWindow).recoveryStreak =
          (s.countHealthy countWindow).recoveryStreak)) := by
  unfold evaluatePressure
  split
  · next hcritical =>
    refine ⟨fun hrelaxed => ?_, fun _ => .inl ⟨hcritical, transition_recoveryStreak _ _ _⟩⟩
    rw [transition_mode] at hrelaxed
    exact absurd hrelaxed (by decide)
  next hcritical =>
  split
  · next hpressured =>
    generalize (if countWindow then saturatingSucc s.pressureStreak else s.pressureStreak) = streak
    dsimp only
    split
    · refine ⟨fun hrelaxed => ?_, fun _ => .inr (.inl (transition_recoveryStreak _ _ _))⟩
      rw [transition_mode] at hrelaxed
      exact absurd hrelaxed (by decide)
    · obtain ⟨hrelaxed, hpressure⟩ := evaluateUse_hysteresis
        { s with pressureStreak := streak, recoveryStreak := 0 } countWindow
      rw [if_pos hpressured] at hpressure
      refine ⟨fun h => (hrelaxed h).imp_right fun hready => ?_, fun h => .inr (.inl (hpressure h).2)⟩
      rw [hpressured] at hready
      cases hready.1
  · next hpressured =>
    have hhealthy : healthy s.config s.pressure = true := by
      simp [healthy, hcritical, hpressured]
    have hsame : (countHealthy { s with pressureStreak := 0 } countWindow).recoveryStreak =
        (s.countHealthy countWindow).recoveryStreak := by
      rw [countHealthy_recoveryStreak, countHealthy_recoveryStreak]
    obtain ⟨hrelaxed, hpressure⟩ := evaluateUse_hysteresis { s with pressureStreak := 0 } countWindow
    rw [hsame] at hrelaxed hpressure
    rw [if_neg hpressured] at hpressure
    exact ⟨fun h => (hrelaxed h).imp_right fun hready => ⟨hhealthy, hready.2⟩,
      fun h => .inr (.inr ⟨hhealthy, hpressure h⟩)⟩

theorem countHealthy_streak_le {s : ResourceGovernor} {calm : Nat} (countWindow : Bool)
    (h : s.recoveryStreak.toNat ≤ calm) :
    (s.countHealthy countWindow).recoveryStreak.toNat ≤ if countWindow then calm + 1 else calm := by
  rw [countHealthy_recoveryStreak]
  split
  · exact (saturatingSucc_toNat_le _).trans (Nat.succ_le_succ h)
  · exact h

/-- The record after an evaluation, `calm` being the record before it. -/
def calmAfter (s : ResourceGovernor) (countWindow : Bool) (calm : Nat) : Nat :=
  if s.mode ≠ .pressure ∧ (s.evaluatePressure countWindow).mode = .pressure then 0
  else if countWindow then if healthy s.config s.pressure then calm + 1 else 0
  else calm

theorem calmAfter_healthy {s : ResourceGovernor} {countWindow : Bool} {calm : Nat}
    (hmode : s.mode = .pressure) (hhealthy : healthy s.config s.pressure = true) :
    s.calmAfter countWindow calm = if countWindow then calm + 1 else calm := by
  rw [calmAfter, if_neg (fun h => h.1 hmode), if_pos hhealthy]

/-- An evaluation keeps the streak within the record, and what leaves `Pressure`
has the windows behind it. -/
theorem evaluatePressure_calm {s : ResourceGovernor} {countWindow : Bool} {calm : Nat}
    (hcalm : s.mode = .pressure → s.recoveryStreak.toNat ≤ calm)
    (hfresh : s.config.critical s.pressure = true →
      (s.mode = .pressure ∧ countWindow = false) ∨ s.recoveryStreak = 0) :
    ((s.evaluatePressure countWindow).mode = .pressure →
      (s.evaluatePressure countWindow).recoveryStreak.toNat ≤ s.calmAfter countWindow calm) ∧
    (s.mode = .pressure → Relaxed (s.evaluatePressure countWindow).mode →
      s.config.recoveryWindows.toNat ≤ s.calmAfter countWindow calm) := by
  obtain ⟨hrelaxed, hpressure⟩ := s.evaluatePressure_hysteresis countWindow
  constructor
  · intro hmode
    rcases hpressure hmode with ⟨hcritical, hstreak⟩ | hstreak | ⟨hhealthy, hstayed, hstreak⟩
    · rw [hstreak]
      rcases hfresh hcritical with ⟨hstayed, rfl⟩ | hzero
      · rw [calmAfter, if_neg (fun h => h.1 hstayed)]
        exact hcalm hstayed
      · rw [hzero]
        exact Nat.zero_le _
    · rw [hstreak]
      exact Nat.zero_le _
    · rw [hstreak, calmAfter_healthy hstayed hhealthy]
      exact countHealthy_streak_le countWindow (hcalm hstayed)
  · intro hmode hleft
    rcases hrelaxed hleft with hsame | ⟨hhealthy, hready⟩
    · rw [hsame, hmode] at hleft
      exact absurd hleft (by decide)
    · rw [calmAfter_healthy hmode hhealthy]
      exact (UInt8.le_iff_toNat_le.mp hready).trans (countHealthy_streak_le countWindow (hcalm hmode))

/-- The invariant of runs whose telemetry never fails. -/
structure Vigilant (v : Vigil) : Prop where
  available : v.governor.resourceAvailable = true
  recovered : v.governor.resourceRecoveryRequired = false
  observed : v.governor.pressure = v.observed
  calm : v.governor.mode = .pressure → v.governor.recoveryStreak.toNat ≤ v.calm

/-- What one call owes: the invariant, and the windows behind it where it relaxes. -/
structure Vigil.Kept (v : Vigil) (report : Report) : Prop where
  vigilant : Vigilant (v.step report)
  earned : v.governor.mode = .pressure → Relaxed (v.step report).governor.mode →
    v.governor.config.recoveryWindows.toNat ≤ (v.step report).calm

/-- Where telemetry never failed, an evaluation starts at the pressure check. -/
theorem evaluate_trusted {s : ResourceGovernor} (countWindow : Bool)
    (havailable : s.resourceAvailable = true) (hrecovered : s.resourceRecoveryRequired = false) :
    s.evaluate countWindow = s.evaluatePressure countWindow := by
  rw [evaluate, if_neg (by simp [havailable]), if_neg (by simp [hrecovered])]

/-- A call that ends in an evaluation, `s` being what is evaluated. -/
theorem Vigilant.evaluate {v : Vigil} {s : ResourceGovernor} {report : Report}
    (h : Vigilant v) (hcall : v.governor.call report = s.evaluate (counts report))
    (hmode : s.mode = v.governor.mode) (hconfig : s.config = v.governor.config)
    (hpressure : s.pressure = observe v.observed report) (havailable : s.resourceAvailable = true)
    (hrecovered : s.resourceRecoveryRequired = false)
    (hstreak : s.recoveryStreak = v.governor.recoveryStreak)
    (hfresh : s.config.critical s.pressure = true →
      (s.mode = .pressure ∧ counts report = false) ∨ s.recoveryStreak = 0) :
    v.Kept report := by
  rw [evaluate_trusted _ havailable hrecovered] at hcall
  have hafter : (v.step report).calm = s.calmAfter (counts report) v.calm := by
    show (if _ then _ else _) = _
    rw [calmAfter, hcall, hmode, hconfig, hpressure]
  have hgovernor : (v.step report).governor = s.evaluatePressure (counts report) := hcall
  obtain ⟨hkept, hleft⟩ := evaluatePressure_calm
    (fun hp => hstreak ▸ h.calm (hmode ▸ hp)) hfresh
  obtain ⟨mode, reason, streak, recovery, cooldown, sequence, hframe⟩ :=
    s.evaluatePressure_frame (counts report)
  refine ⟨⟨?_, ?_, ?_, ?_⟩, ?_⟩
  · rw [hgovernor, hframe]
    exact havailable
  · rw [hgovernor, hframe]
    exact hrecovered
  · rw [hgovernor, hframe]
    exact hpressure
  · rw [hgovernor, hafter]
    exact hkept
  · rw [hgovernor, hafter, ← hmode, ← hconfig]
    exact hleft

/-- A call that ends elsewhere than in `Pressure` and does not come from there. -/
theorem Vigilant.elsewhere {v : Vigil} {report : Report} (h : Vigilant v)
    (hobserve : observe v.observed report = v.observed)
    (hpressure : (v.governor.call report).pressure = v.governor.pressure)
    (havailable : (v.governor.call report).resourceAvailable = v.governor.resourceAvailable)
    (hrecovered :
      (v.governor.call report).resourceRecoveryRequired = v.governor.resourceRecoveryRequired)
    (hmode : (v.governor.call report).mode ≠ .pressure)
    (hleft : v.governor.mode = .pressure → ¬ Relaxed (v.governor.call report).mode) :
    v.Kept report := by
  refine ⟨⟨havailable.trans h.available, hrecovered.trans h.recovered, ?_, ?_⟩, ?_⟩
  · exact hpressure.trans (h.observed.trans hobserve.symm)
  · exact fun hp => absurd hp hmode
  · exact fun hp hr => absurd hr (hleft hp)

/-- A call that changes what is reported about the work only. -/
theorem Vigilant.still {v : Vigil} {report : Report} (h : Vigilant v)
    (hobserve : observe v.observed report = v.observed) (hcounts : counts report = false)
    {workload : WorkloadState}
    (hcall : v.governor.call report = { v.governor with workload := workload }) :
    v.Kept report := by
  have hgovernor : (v.step report).governor = { v.governor with workload := workload } := hcall
  have hcalm : v.governor.mode = .pressure → (v.step report).calm = v.calm := by
    intro hmode
    show (if _ then _ else _) = _
    rw [if_neg (fun hp => hp.1 hmode), hcounts]
    rfl
  refine ⟨⟨?_, ?_, ?_, ?_⟩, ?_⟩
  · rw [hgovernor]
    exact h.available
  · rw [hgovernor]
    exact h.recovered
  · rw [hgovernor]
    exact h.observed.trans hobserve.symm
  · rw [hgovernor]
    intro hmode
    rw [hcalm hmode]
    exact h.calm hmode
  · rw [hgovernor]
    intro hmode hrelaxed
    have hsame : Relaxed v.governor.mode := hrelaxed
    rw [hmode] at hsame
    exact absurd hsame (by decide)

/-- A call that turns to active mode leaves the telemetry as it was. -/
theorem Vigilant.active {v : Vigil} {report : Report} (h : Vigilant v) (t : ResourceGovernor)
    (reason : DecisionReason) (hcall : v.governor.call report = t.transition .active reason)
    (hobserve : observe v.observed report = v.observed) (hpressure : t.pressure = v.governor.pressure)
    (havailable : t.resourceAvailable = v.governor.resourceAvailable)
    (hrecovered : t.resourceRecoveryRequired = v.governor.resourceRecoveryRequired) :
    v.Kept report := by
  refine h.elsewhere hobserve ?_ ?_ ?_ ?_ fun _ => ?_ <;> rw [hcall]
  · rw [transition_pressure, hpressure]
  · rw [transition_resourceAvailable, havailable]
  · rw [transition_resourceRecoveryRequired, hrecovered]
  · rw [transition_mode]
    decide
  · rw [transition_mode]
    decide

/-- So does one that ends a boost. -/
theorem Vigilant.balanced {v : Vigil} {report : Report} (h : Vigilant v) (t : ResourceGovernor)
    (hcall : v.governor.call report = t.transition .balanced .balanced)
    (hobserve : observe v.observed report = v.observed) (hpressure : t.pressure = v.governor.pressure)
    (havailable : t.resourceAvailable = v.governor.resourceAvailable)
    (hrecovered : t.resourceRecoveryRequired = v.governor.resourceRecoveryRequired)
    (hboost : v.governor.mode = .idleBoost) : v.Kept report := by
  refine h.elsewhere hobserve ?_ ?_ ?_ ?_ fun hmode => ?_
  · rw [hcall, transition_pressure, hpressure]
  · rw [hcall, transition_resourceAvailable, havailable]
  · rw [hcall, transition_resourceRecoveryRequired, hrecovered]
  · rw [hcall, transition_mode]
    decide
  · rw [hboost] at hmode
    cases hmode

/-- One public call, telemetry failures apart. -/
theorem Vigilant.step {v : Vigil} {report : Report} (h : Vigilant v)
    (hreport : report ≠ .reportResourceUnavailable) (hfresh : v.governor.FreshStreak report) :
    v.Kept report := by
  cases report with
  | beginInteractiveRequest =>
    refine h.active { v.governor with interactiveRemaining := v.governor.config.interactiveHoldWindows }
      .userActive ?_ rfl rfl rfl rfl
    show v.governor.beginInteractiveRequest = _
    rw [beginInteractiveRequest, if_pos]
    exact ⟨h.available, by simp [h.recovered]⟩
  | reportSearchLatency latency =>
    refine h.active { v.governor with interactiveRemaining := v.governor.config.interactiveHoldWindows }
      (if durationMillisCeil latency > v.governor.config.searchSlaMillis then .searchSla
        else .userActive) ?_ rfl rfl rfl rfl
    show v.governor.reportSearchLatency latency = _
    rw [reportSearchLatency, if_neg]
    simp [h.available, h.recovered]
  | reportSystemPressure pressure =>
    obtain ⟨hold, hpass⟩ := passWindow_frame
      { v.governor with pressure := pressure, resourceAvailable := true }
    refine h.evaluate (s := { v.governor with
        pressure := pressure, resourceAvailable := true, interactiveRemaining := hold })
      ?_ rfl rfl rfl rfl h.recovered rfl fun hcritical => .inr (hfresh hcritical)
    show (passWindow _).evaluate true = _
    rw [hpass]
    rfl
  | reportResourceUnavailable => exact absurd rfl hreport
  | reportWorkload workload =>
    by_cases hactor : workload.userActive = true
    · refine h.active { v.governor with
          workload := workload
          interactiveRemaining := v.governor.config.interactiveHoldWindows }
        .userActive ?_ rfl rfl rfl rfl
      show v.governor.reportWorkload workload = _
      rw [reportWorkload, if_pos]
      exact ⟨hactor, h.available, by simp [h.recovered]⟩
    · refine h.still rfl rfl (show _ = { v.governor with workload := workload } from ?_)
      show v.governor.reportWorkload workload = _
      rw [reportWorkload, if_neg (fun hp => hactor hp.1)]
  | reportBacklog backlogMutations =>
    by_cases hboost : backlogMutations = 0 ∧ v.governor.mode = .idleBoost
    · refine h.balanced { v.governor with
          workload := { v.governor.workload with backlogMutations := backlogMutations }
          recoveryStreak := 0 } ?_ rfl rfl rfl rfl hboost.2
      show v.governor.reportBacklog backlogMutations = _
      rw [reportBacklog, if_pos hboost]
    · refine h.still rfl rfl (show _ = { v.governor with
        workload := { v.governor.workload with backlogMutations := backlogMutations } } from ?_)
      show v.governor.reportBacklog backlogMutations = _
      rw [reportBacklog, if_neg hboost]
  | reportUserIdleDuration idle =>
    by_cases hboost : (!idle.any (· ≥ v.governor.config.idleBoostAfterMillis)) = true ∧
        v.governor.mode = .idleBoost
    · refine h.balanced { v.governor with
          workload := { v.governor.workload with
            userIdle := idle.any (· ≥ v.governor.config.idleBoostAfterMillis) }
          recoveryStreak := 0 } ?_ rfl rfl rfl rfl hboost.2
      show v.governor.reportUserIdleDuration idle = _
      rw [reportUserIdleDuration, if_pos hboost]
    · refine h.evaluate (s := { v.governor with
          workload := { v.governor.workload with
            userIdle := idle.any (· ≥ v.governor.config.idleBoostAfterMillis) } })
        ?_ rfl rfl h.observed h.available h.recovered rfl fun hcritical => ?_
      · show v.governor.reportUserIdleDuration idle = _
        rw [reportUserIdleDuration, if_neg hboost]
        rfl
      · exact (hfresh hcritical).imp_left fun hmode => ⟨hmode, rfl⟩
  | advanceWindow =>
    obtain ⟨hold, hpass⟩ := passWindow_frame v.governor
    refine h.evaluate (s := { v.governor with interactiveRemaining := hold }) ?_ rfl rfl h.observed
      h.available h.recovered rfl fun hcritical => .inr (hfresh hcritical)
    show v.governor.passWindow.evaluate true = _
    rw [hpass]
    rfl

theorem vigil_concat (config : GovernorConfig) (calls : List Report) (report : Report) :
    vigil config (calls ++ [report]) = (vigil config calls).step report :=
  List.foldl_concat _ _ _ _

theorem vigil_governor (config : GovernorConfig) (calls : List Report) :
    (vigil config calls).governor = (new config).run calls := by
  induction calls using List.reverseRecOn with
  | nil => rfl
  | append_singleton calls report ih =>
    rw [vigil_concat, run_concat, ← ih]
    rfl

/-- The condition along a run: telemetry holds and critical memory is met with a
fresh streak. -/
def RecoversFresh (config : GovernorConfig) (past : List Report) (report : Report) : Prop :=
  report ≠ .reportResourceUnavailable ∧ ((new config).run past).FreshStreak report

theorem vigilant_run (config : GovernorConfig) {calls : List Report}
    (hsteps : EachEntry (RecoversFresh config) calls) : Vigilant (vigil config calls) := by
  apply hsteps.induct (Q := fun calls => Vigilant (vigil config calls))
  · exact ⟨rfl, rfl, rfl, fun hmode => by cases hmode⟩
  · intro past report ih hstep
    rw [vigil_concat]
    exact (ih.step hstep.1 (vigil_governor config past ▸ hstep.2)).vigilant

/-- Every transition from `Pressure` to `Balanced` or `IdleBoost` has
`recovery_windows` healthy windows in a row behind it, all of them since
`Pressure` was entered, as long as critical memory is met with a fresh streak. -/
theorem pressure_left_behind_healthy_windows (config : GovernorConfig) {calls : List Report}
    {report : Report} (hsteps : EachEntry (RecoversFresh config) (calls ++ [report]))
    (hpressure : ((new config).run calls).mode = .pressure)
    (hleft : Relaxed ((new config).run (calls ++ [report])).mode) :
    config.recoveryWindows.toNat ≤ (vigil config (calls ++ [report])).calm := by
  obtain ⟨hpast, hreport, hfresh⟩ := eachEntry_concat.mp hsteps
  rw [← vigil_governor] at hpressure hleft hfresh
  rw [vigil_concat] at hleft ⊢
  have hearned := ((vigilant_run config hpast).step hreport hfresh).earned hpressure hleft
  rwa [vigil_governor, run_config] at hearned

/-- Memory is all but used up. -/
def starved : SystemPressure := { quiet with availableMemoryBasisPoints := some 100 }

theorem recoversFresh_quiet (past : List Report) :
    RecoversFresh .standard past (.reportSystemPressure quiet) := by
  refine ⟨nofun, fun hcritical => ?_⟩
  rw [run_config] at hcritical
  exact absurd hcritical (by decide)

/-- Critical memory at the start, and five quiet windows later the work is back. -/
theorem starved_start_recovers :
    ((new .standard).run
      (.reportSystemPressure starved :: List.replicate 4 (.reportSystemPressure quiet))).mode =
        .pressure ∧
    5 ≤ (vigil .standard ((.reportSystemPressure starved ::
      List.replicate 4 (.reportSystemPressure quiet)) ++ [.reportSystemPressure quiet])).calm := by
  have hsteps : EachEntry (RecoversFresh .standard) ((.reportSystemPressure starved ::
      List.replicate 4 (.reportSystemPressure quiet)) ++ [.reportSystemPressure quiet]) := by
    intro past report rest heq
    cases past with
    | nil =>
      obtain ⟨rfl, -⟩ := List.cons.inj heq
      exact ⟨nofun, fun _ => rfl⟩
    | cons first past =>
      have hmem : report ∈ List.replicate 5 (Report.reportSystemPressure quiet) := by
        rw [show List.replicate 5 (Report.reportSystemPressure quiet) = past ++ report :: rest from
          (List.cons.inj heq).2]
        exact List.mem_append_right _ (List.mem_cons_self ..)
      obtain rfl := List.eq_of_mem_replicate hmem
      exact recoversFresh_quiet _
  exact ⟨by decide, pressure_left_behind_healthy_windows .standard hsteps (by decide) (by decide)⟩

/-- Four quiet windows before memory runs out count for the recovery after it:
three more are enough. -/
theorem starved_later_recovers_early :
    ∃ (config : GovernorConfig) (calls : List Report) (report : Report),
      (∀ call ∈ calls ++ [report], ∃ pressure, call = .reportSystemPressure pressure) ∧
      ((new config).run calls).mode = .pressure ∧
      Relaxed ((new config).run (calls ++ [report])).mode ∧
      (vigil config (calls ++ [report])).calm < config.recoveryWindows.toNat := by
  refine ⟨.standard, List.replicate 4 (.reportSystemPressure quiet) ++
    [.reportSystemPressure starved, .reportSystemPressure quiet, .reportSystemPressure quiet],
    .reportSystemPressure quiet, ?_, by decide, by decide, by decide⟩
  intro call hcall
  have hcases : call = .reportSystemPressure quiet ∨ call = .reportSystemPressure starved ∨
      call = .reportSystemPressure quiet := by
    simpa using hcall
  rcases hcases with rfl | rfl | rfl
  all_goals exact ⟨_, rfl⟩

end ResourceGovernor

end LocalSearch.Governor
