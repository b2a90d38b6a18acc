import LocalSearch.Governor.Recovery

/-!
# The evidence for the boost

`IdleBoost` asks for an idle user, waiting work and external power. The latest
reports are folded into a record of the three. Two calls take one of them away
without ending the boost: a workload report that is not the user's, and a
pressure report without external power while the hysteresis holds the mode.
-/
namespace LocalSearch.Governor

set_option autoImplicit false

open Lib

namespace ResourceGovernor

/-- What the latest reports say about the user, the backlog and the power. -/
structure Evidence where
  userIdle : Bool
  backlogMutations : UInt64
  powerSource : PowerSource
  deriving DecidableEq, Repr

/-- An outage withdraws what was said about the user and the power. -/
def Evidence.step (config : GovernorConfig) (e : Evidence) : Report → Evidence
  | .reportSystemPressure pressure => { e with powerSource := pressure.powerSource }
  | .reportResourceUnavailable => { e with userIdle := false, powerSource := .unknown }
  | .reportWorkload workload =>
      { e with userIdle := workload.userIdle, backlogMutations := workload.backlogMutations }
  | .reportBacklog backlogMutations => { e with backlogMutations := backlogMutations }
  | .reportUserIdleDuration idle =>
      { e with userIdle := idle.any (· ≥ config.idleBoostAfterMillis) }
  | _ => e

def evidence (config : GovernorConfig) (calls : List Report) : Evidence :=
  calls.foldl (Evidence.step config) ⟨false, 0, .unknown⟩

/-- The user is idle, work is waiting and the machine is on external power. -/
def Evidence.Boosts (e : Evidence) : Prop :=
  e.userIdle = true ∧ 0 < e.backlogMutations ∧ e.powerSource = .ac

/-- The evidence as the governor holds it. -/
def held (s : ResourceGovernor) : Evidence :=
  ⟨s.workload.userIdle, s.workload.backlogMutations, s.pressure.powerSource⟩

/-- The pressure report leaves `IdleBoost` at once: memory, sustained pressure,
energy saver, battery, or a recovery that is due. -/
def LeavesBoost (s : ResourceGovernor) (pressure : SystemPressure) : Prop :=
  s.config.critical pressure = true ∨
  (s.config.pressured pressure = true ∧ s.config.pressureWindows ≤ saturatingSucc s.pressureStreak) ∨
  pressure.energySaver = true ∨ pressure.powerSource = .battery ∨
  (s.config.pressured pressure = false ∧
    s.config.recoveryWindows ≤ saturatingSucc s.recoveryStreak ∧
    saturatingPred s.cooldownRemaining = 0)

/-- No call takes the evidence away from a boosted governor without ending the
boost. -/
def KeepsEvidence (s : ResourceGovernor) : Report → Prop
  | .reportSystemPressure pressure =>
      s.mode = .idleBoost → pressure.powerSource = .ac ∨ s.LeavesBoost pressure
  | .reportWorkload workload =>
      s.mode = .idleBoost → workload.userActive = true ∨
        (workload.userIdle = true ∧ 0 < workload.backlogMutations)
  | _ => True

theorem held_transition (s : ResourceGovernor) (mode : GovernorMode) (reason : DecisionReason) :
    (s.transition mode reason).held = s.held := by
  obtain ⟨cooldown, sequence, h⟩ := s.transition_frame mode reason
  rw [h]
  rfl

theorem held_evaluate (s : ResourceGovernor) (countWindow : Bool) :
    (s.evaluate countWindow).held = s.held := by
  obtain ⟨mode, reason, required, streak, recovery, cooldown, sequence, h⟩ :=
    s.evaluate_frame countWindow
  rw [h]
  rfl

/-- The governor holds what the reports say. -/
theorem held_call (s : ResourceGovernor) (report : Report) :
    (s.call report).held = s.held.step s.config report := by
  cases report with
  | beginInteractiveRequest =>
    show s.beginInteractiveRequest.held = s.held
    unfold beginInteractiveRequest
    dsimp only
    split
    · exact held_transition _ _ _
    · rfl
  | reportSearchLatency latency =>
    show (s.reportSearchLatency latency).held = s.held
    unfold reportSearchLatency
    dsimp only
    split
    · rfl
    · exact held_transition _ _ _
  | reportSystemPressure pressure =>
    obtain ⟨hold, h⟩ := passWindow_frame { s with pressure := pressure, resourceAvailable := true }
    show (evaluate _ true).held = _
    rw [held_evaluate, h]
    rfl
  | reportResourceUnavailable => exact held_transition _ _ _
  | reportWorkload workload =>
    show (s.reportWorkload workload).held = _
    unfold reportWorkload
    dsimp only
    split
    · exact held_transition _ _ _
    · rfl
  | reportBacklog backlogMutations =>
    show (s.reportBacklog backlogMutations).held = _
    unfold reportBacklog
    dsimp only
    split
    · exact held_transition _ _ _
    · rfl
  | reportUserIdleDuration idle =>
    show (s.reportUserIdleDuration idle).held = _
    unfold reportUserIdleDuration
    dsimp only
    split
    · exact held_transition _ _ _
    · exact held_evaluate _ _
  | advanceWindow =>
    obtain ⟨hold, h⟩ := passWindow_frame s
    show (evaluate _ true).held = _
    rw [held_evaluate, h]
    rfl

theorem held_run (config : GovernorConfig) (calls : List Report) :
    ((new config).run calls).held = evidence config calls := by
  induction calls using List.reverseRecOn with
  | nil => rfl
  | append_singleton calls report ih =>
    rw [run_concat, held_call, ih, run_config, evidence, evidence, List.foldl_concat]
    rfl

theorem desired_boost {s : ResourceGovernor} (h : s.desired.1 = .idleBoost) : s.held.Boosts := by
  unfold desired at h
  split at h
  · next hboosts => exact hboosts
  · cases h

/-- Only the evidence brings a governor into the boost. -/
theorem evaluatePressure_boost {s : ResourceGovernor} {countWindow : Bool}
    (h : (s.evaluatePressure countWindow).mode = .idleBoost) :
    s.mode = .idleBoost ∨ s.held.Boosts := by
  have huse : ∀ t : ResourceGovernor, (t.evaluateUse countWindow).mode = .idleBoost →
      t.mode = s.mode → t.held = s.held → s.mode = .idleBoost ∨ s.held.Boosts := by
    intro t hboost hmode hheld
    unfold evaluateUse at hboost
    split at hboost
    · rw [transition_mode] at hboost
      cases hboost
    split at hboost
    · rw [transition_mode] at hboost
      cases hboost
    split at hboost
    · rw [transition_mode] at hboost
      cases hboost
    split at hboost
    · exact .inl (hmode ▸ hboost)
    · obtain ⟨recovery, cooldown, hcount⟩ := countHealthy_fields t countWindow
      unfold relax at hboost
      rw [hcount] at hboost
      dsimp only at hboost
      split at hboost
      · exact .inl (hmode ▸ hboost)
      split at hboost
      · rw [transition_mode] at hboost
        exact .inr (hheld ▸ desired_boost hboost)
      · exact .inl (hmode ▸ hboost)
  unfold evaluatePressure at h
  split at h
  · rw [transition_mode] at h
    cases h
  split at h
  · generalize (if countWindow then saturatingSucc s.pressureStreak else s.pressureStreak) = streak at h
    dsimp only at h
    split at h
    · rw [transition_mode] at h
      cases h
    · exact huse _ h rfl rfl
  · exact huse _ h rfl rfl

theorem evaluate_boost {s : ResourceGovernor} {countWindow : Bool}
    (h : (s.evaluate countWindow).mode = .idleBoost) : s.mode = .idleBoost ∨ s.held.Boosts := by
  unfold evaluate at h
  split at h
  · rw [transition_mode] at h
    cases h
  split at h
  · obtain ⟨recovery, cooldown, hcount⟩ := countHealthy_fields s countWindow
    rw [hcount] at h
    dsimp only at h
    split at h
    · rw [transition_mode] at h
      cases h
    · rcases evaluatePressure_boost h with hmode | hboosts
      · rw [transition_mode] at hmode
        cases hmode
      · rw [held_transition] at hboosts
        exact .inr hboosts
  · exact evaluatePressure_boost h

/-- The end of a counted evaluation without external power. -/
theorem evaluateUse_stays {s : ResourceGovernor} (hmode : s.mode = .idleBoost)
    (hinactive : s.workload.userActive = false) (hreleased : s.interactiveRemaining = 0)
    (hpower : s.pressure.powerSource ≠ .ac) :
    (s.evaluateUse true).mode = .idleBoost ↔
      ¬ (s.pressure.energySaver = true ∨ s.pressure.powerSource = .battery ∨
        (s.config.pressured s.pressure = false ∧
          s.config.recoveryWindows ≤ saturatingSucc s.recoveryStreak ∧
          saturatingPred s.cooldownRemaining = 0)) := by
  have huser : ¬ (s.workload.userActive = true ∨ s.interactiveRemaining > 0) := by
    rw [hinactive, hreleased]
    decide
  have hdesired : (s.countHealthy true).desired = (.balanced, .balanced) := by
    rw [desired, if_neg]
    exact fun h => hpower h.2.2
  rw [evaluateUse, if_neg huser]
  split
  · next hsaver => simp [hsaver]
  next hsaver =>
  split
  · next hbattery => simp [hbattery]
  next hbattery =>
  split
  · next hpressured => simp [hsaver, hbattery, hpressured, hmode]
  next hpressured =>
  have hother : ¬ (s.countHealthy true).mode = GovernorMode.balanced := by
    show ¬ s.mode = .balanced
    rw [hmode]
    decide
  rw [relax, hdesired]
  dsimp only
  rw [if_neg hother]
  split
  · next hdue =>
    have hdue' : s.config.recoveryWindows ≤ saturatingSucc s.recoveryStreak ∧
        saturatingPred s.cooldownRemaining = 0 := hdue
    simp [hpressured, hdue']
  · next hdue =>
    have hdue' : ¬ (s.config.recoveryWindows ≤ saturatingSucc s.recoveryStreak ∧
        saturatingPred s.cooldownRemaining = 0) := hdue
    have hsame : (s.countHealthy true).mode = .idleBoost := hmode
    simpa [hsaver, hbattery, hpressured, hsame] using hdue'

/-- A clear governor without external power stays in the boost on a pressure
report exactly where nothing in it ends the boost. -/
theorem reportSystemPressure_stays {s : ResourceGovernor} {pressure observed : SystemPressure}
    (hmode : s.mode = .idleBoost) (hclear : s.Clear observed) (hpower : pressure.powerSource ≠ .ac) :
    (s.reportSystemPressure pressure).mode = .idleBoost ↔ ¬ s.LeavesBoost pressure := by
  have hpass : ({ s with pressure := pressure, resourceAvailable := true } :
      ResourceGovernor).passWindow = { s with pressure := pressure, resourceAvailable := true } := by
    unfold passWindow
    rw [if_neg]
    rw [hclear.released]
    decide
  unfold reportSystemPressure LeavesBoost
  rw [hpass, evaluate, if_neg (by simp), if_neg (by simp [hclear.recovered])]
  unfold evaluatePressure
  dsimp only
  split
  · next hcritical => simp [hcritical]
  next hcritical =>
  split
  · next hpressured =>
    rw [if_pos rfl]
    split
    · next hstreak =>
      have hstreak' : s.config.pressureWindows ≤ saturatingSucc s.pressureStreak := hstreak
      simp [hpressured, hstreak']
    · next hstreak =>
      have hstreak' : ¬ s.config.pressureWindows ≤ saturatingSucc s.pressureStreak := hstreak
      refine (evaluateUse_stays ?_ ?_ ?_ ?_).trans ?_
      · exact hmode
      · exact hclear.inactive
      · exact hclear.released
      · exact hpower
      · simp [hcritical, hpressured, hstreak']
  · next hpressured =>
    refine (evaluateUse_stays ?_ ?_ ?_ ?_).trans ?_
    · exact hmode
    · exact hclear.inactive
    · exact hclear.released
    · exact hpower
    · simp [hcritical, hpressured]

/-- An evaluation reaches the boost from the boost or on the evidence it holds. -/
theorem evaluate_backed {s : ResourceGovernor} {countWindow : Bool}
    (hbacked : s.mode = .idleBoost → s.held.Boosts)
    (h : (s.evaluate countWindow).mode = .idleBoost) : s.held.Boosts :=
  (evaluate_boost h).elim hbacked id

/-- A pressure report either leaves external power in place or ends the boost. -/
theorem reportSystemPressure_backed_iff {s : ResourceGovernor} {pressure : SystemPressure}
    (hclear : s.mode = .idleBoost → ∃ observed, s.Clear observed)
    (hbacked : s.mode = .idleBoost → s.held.Boosts) :
    ((s.reportSystemPressure pressure).mode = .idleBoost →
      (s.held.step s.config (.reportSystemPressure pressure)).Boosts) ↔
    (s.mode = .idleBoost → pressure.powerSource = .ac ∨ s.LeavesBoost pressure) := by
  obtain ⟨hold, hpass⟩ := passWindow_frame { s with pressure := pressure, resourceAvailable := true }
  have hboosts : (s.mode = .idleBoost → pressure.powerSource = .ac) →
      (s.reportSystemPressure pressure).mode = .idleBoost →
      (s.held.step s.config (.reportSystemPressure pressure)).Boosts := by
    intro hpower hboost
    unfold reportSystemPressure at hboost
    rw [hpass] at hboost
    refine evaluate_backed (fun hmode => ?_) hboost
    obtain ⟨hidle, hbacklog, -⟩ := hbacked hmode
    exact ⟨hidle, hbacklog, hpower hmode⟩
  by_cases hmode : s.mode = .idleBoost
  · by_cases hpower : pressure.powerSource = .ac
    · exact iff_of_true (hboosts fun _ => hpower) fun _ => .inl hpower
    · obtain ⟨observed, hclear⟩ := hclear hmode
      have hstays := reportSystemPressure_stays hmode hclear hpower
      constructor
      · intro h _
        by_contra hneither
        have hboost := hstays.mpr fun hleaves => hneither (.inr hleaves)
        exact hpower (h hboost).2.2
      · intro h hboost
        rcases h hmode with hac | hleaves
        · exact absurd hac hpower
        · exact absurd hleaves (hstays.mp hboost)
  · exact iff_of_true (hboosts fun hm => absurd hm hmode) fun hm => absurd hm hmode

/-- One call from a governor that is clear and backed whenever it is boosted: the
boost is backed after it exactly where the call keeps the evidence. -/
theorem backed_call_iff {s : ResourceGovernor} {report : Report}
    (hclear : s.mode = .idleBoost → ∃ observed, s.Clear observed)
    (hbacked : s.mode = .idleBoost → s.held.Boosts) :
    ((s.call report).mode = .idleBoost → (s.call report).held.Boosts) ↔ s.KeepsEvidence report := by
  rw [held_call]
  cases report with
  | beginInteractiveRequest =>
    refine iff_of_true (fun hboost => ?_) trivial
    have hboost' : s.beginInteractiveRequest.mode = .idleBoost := hboost
    unfold beginInteractiveRequest at hboost'
    dsimp only at hboost'
    split at hboost'
    · rw [transition_mode] at hboost'
      cases hboost'
    · exact hbacked hboost'
  | reportSearchLatency latency =>
    refine iff_of_true (fun hboost => ?_) trivial
    have hboost' : (s.reportSearchLatency latency).mode = .idleBoost := hboost
    unfold reportSearchLatency at hboost'
    dsimp only at hboost'
    split at hboost'
    · exact hbacked hboost'
    · rw [transition_mode] at hboost'
      cases hboost'
  | reportSystemPressure pressure => exact reportSystemPressure_backed_iff hclear hbacked
  | reportResourceUnavailable =>
    refine iff_of_true (fun hboost => ?_) trivial
    have hboost' : s.reportResourceUnavailable.mode = .idleBoost := hboost
    unfold reportResourceUnavailable at hboost'
    rw [transition_mode] at hboost'
    cases hboost'
  | reportWorkload workload =>
    show ((s.reportWorkload workload).mode = .idleBoost → _) ↔ (s.mode = .idleBoost → _ ∨ _)
    unfold reportWorkload
    dsimp only
    split
    · next hactive =>
      refine iff_of_true (fun hboost => ?_) fun _ => .inl hactive.1
      rw [transition_mode] at hboost
      cases hboost
    · next hactive =>
      -- the report changes no mode: what it says about the user and the backlog decides
      constructor
      · intro h hmode
        obtain ⟨hidle, hbacklog, -⟩ := h hmode
        exact .inr ⟨hidle, hbacklog⟩
      · intro h hmode
        rcases h hmode with huser | ⟨hidle, hbacklog⟩
        · obtain ⟨observed, hclear⟩ := hclear hmode
          exact absurd ⟨huser, hclear.available, by simp [hclear.recovered]⟩ hactive
        · exact ⟨hidle, hbacklog, (hbacked hmode).2.2⟩
  | reportBacklog backlogMutations =>
    refine iff_of_true (fun hboost => ?_) trivial
    have hboost' : (s.reportBacklog backlogMutations).mode = .idleBoost := hboost
    unfold reportBacklog at hboost'
    dsimp only at hboost'
    split at hboost'
    · rw [transition_mode] at hboost'
      cases hboost'
    · next hkept =>
      have hne : backlogMutations ≠ 0 := fun hzero => hkept ⟨hzero, hboost'⟩
      obtain ⟨hidle, -, hpower⟩ := hbacked hboost'
      exact ⟨hidle, UInt64.pos_iff_ne_zero.mpr hne, hpower⟩
  | reportUserIdleDuration idle =>
    refine iff_of_true (fun hboost => ?_) trivial
    have hboost' : (s.reportUserIdleDuration idle).mode = .idleBoost := hboost
    unfold reportUserIdleDuration at hboost'
    dsimp only at hboost'
    split at hboost'
    · rw [transition_mode] at hboost'
      cases hboost'
    · next hkept =>
      refine evaluate_backed (fun hmode => ?_) hboost'
      obtain ⟨-, hbacklog, hpower⟩ := hbacked hmode
      refine ⟨?_, hbacklog, hpower⟩
      show idle.any (· ≥ s.config.idleBoostAfterMillis) = true
      by_contra hawake
      exact hkept ⟨by simpa using hawake, hmode⟩
  | advanceWindow =>
    refine iff_of_true (fun hboost => ?_) trivial
    obtain ⟨hold, hpass⟩ := passWindow_frame s
    have hboost' : (s.passWindow.evaluate true).mode = .idleBoost := hboost
    rw [hpass] at hboost'
    exact evaluate_backed (s := { s with interactiveRemaining := hold }) hbacked hboost'

/-- The latest reports back the boost. -/
def Backed (config : GovernorConfig) (calls : List Report) : Prop :=
  ((new config).run calls).mode = .idleBoost → (evidence config calls).Boosts

theorem clear_of_boost {config : GovernorConfig} {calls : List Report}
    (h : ((new config).run calls).mode = .idleBoost) :
    ∃ observed, ((new config).run calls).Clear observed := by
  refine ⟨_, background_runs_when_clear config calls ?_⟩
  show (budget _ _).backgroundPaused = false
  rw [h]
  rfl

theorem backed_concat_iff {config : GovernorConfig} {calls : List Report} {report : Report}
    (h : Backed config calls) :
    Backed config (calls ++ [report]) ↔ ((new config).run calls).KeepsEvidence report := by
  have hiff : _ ↔ ((new config).run calls).KeepsEvidence report :=
    backed_call_iff (fun hmode => clear_of_boost hmode) (held_run config calls ▸ h)
  rwa [← run_concat, held_run] at hiff

/-- In every state of a run the boost is backed by the latest reports exactly when
every call of the run keeps the evidence of a boosted governor. -/
theorem boost_backed_iff (config : GovernorConfig) (calls : List Report) :
    (∀ past, past <+: calls → Backed config past) ↔
      EachEntry (fun past => ((new config).run past).KeepsEvidence) calls := by
  have hnew : Backed config [] := fun hmode => by cases hmode
  constructor
  · intro h past report rest heq
    have hpast : Backed config past := h past ⟨report :: rest, heq.symm⟩
    apply (backed_concat_iff hpast).mp
    apply h
    exact ⟨rest, by rw [heq, List.append_assoc, List.singleton_append]⟩
  · intro h past hpast
    obtain ⟨rest, rfl⟩ := hpast
    have hsteps : EachEntry (fun past => ((new config).run past).KeepsEvidence) past := by
      intro earlier report later heq
      apply h earlier report (later ++ rest)
      rw [heq, List.append_assoc, List.cons_append]
    exact hsteps.induct (Q := Backed config) hnew fun earlier report ih hstep =>
      (backed_concat_iff ih).mpr hstep

/-- The backlog is drained by a workload report, and the boost goes on. -/
theorem drained_boost_unbacked :
    ∃ (config : GovernorConfig) (calls : List Report),
      ((new config).run calls).mode = .idleBoost ∧ (evidence config calls).backlogMutations = 0 :=
  ⟨.standard, [.reportSystemPressure ⟨some 5000, some 500, some 500, .ac, none, false⟩,
    .reportWorkload ⟨false, true, 50000⟩, .advanceWindow, .advanceWindow, .advanceWindow,
    .advanceWindow, .reportWorkload ⟨false, true, 0⟩], by decide, by decide⟩

end ResourceGovernor

end LocalSearch.Governor
