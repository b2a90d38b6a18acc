import Mathlib.Logic.Basic
import Mathlib.Tactic.Common
import Mathlib.Algebra.Group.Nat.Defs

/-!
# The resource governor

Eight reports move one small state machine. Four of them end in `evaluate`,
which looks at everything; the others change the mode on what they are told.
Background work runs only in a mode whose budget is not paused.
-/
namespace LocalSearch.Governor

set_option autoImplicit false

inductive PowerSource where
  | ac
  | battery
  | unknown
  deriving DecidableEq, Repr

inductive GovernorMode where
  | active
  | balanced
  | idleBoost
  | pressure
  | battery
  deriving DecidableEq, Repr

inductive MaintenanceIntensity where
  | paused
  | minimal
  | normal
  | elevated
  deriving DecidableEq, Repr

structure IndexingBudget where
  maximumBatchMutations : UInt32
  maximumBatches : UInt32
  maximumRunTimeMillis : UInt64
  writerHeapBytes : Nat
  rebuildPageSize : UInt32
  projectionConcurrency : UInt8
  maintenanceIntensity : MaintenanceIntensity
  backgroundPaused : Bool
  deriving DecidableEq, Repr

/-- One observation of the machine. Shares are in basis points. -/
structure SystemPressure where
  availableMemoryBasisPoints : Option UInt16
  systemCpuLoadBasisPoints : Option UInt16
  diskBusyBasisPoints : Option UInt16
  powerSource : PowerSource
  batteryPercent : Option UInt8
  energySaver : Bool
  deriving DecidableEq, Repr

/-- `SystemPressure::default`. -/
def SystemPressure.unknown : SystemPressure :=
  ⟨none, none, none, .unknown, none, false⟩

structure WorkloadState where
  userActive : Bool
  userIdle : Bool
  backlogMutations : UInt64
  deriving DecidableEq, Repr

structure GovernorConfig where
  searchSlaMillis : UInt64
  lowMemoryBasisPoints : UInt16
  criticalMemoryBasisPoints : UInt16
  highCpuBasisPoints : UInt16
  highDiskBasisPoints : UInt16
  pressureWindows : UInt8
  recoveryWindows : UInt8
  cooldownWindows : UInt8
  interactiveHoldWindows : UInt8
  idleBoostAfterMillis : UInt64
  deriving DecidableEq, Repr

/-- `GovernorConfig::default`. -/
def GovernorConfig.standard : GovernorConfig :=
  ⟨75, 1000, 500, 9000, 9000, 2, 5, 3, 3, 300000⟩

inductive DecisionReason where
  | startup
  | userActive
  | searchSla
  | systemPressure
  | criticalMemory
  | resourceTelemetryUnavailable
  | battery
  | energySaver
  | balanced
  | idleBacklog
  deriving DecidableEq, Repr

structure GovernorDecision where
  mode : GovernorMode
  budget : IndexingBudget
  reason : DecisionReason
  transitionSequence : UInt64
  deriving DecidableEq, Repr

structure ResourceGovernor where
  config : GovernorConfig
  mode : GovernorMode
  reason : DecisionReason
  pressure : SystemPressure
  resourceAvailable : Bool
  resourceRecoveryRequired : Bool
  workload : WorkloadState
  pressureStreak : UInt8
  recoveryStreak : UInt8
  cooldownRemaining : UInt8
  interactiveRemaining : UInt8
  transitionSequence : UInt64
  deriving DecidableEq, Repr

/-- `std::time::Duration`: whole seconds and nanoseconds below one second. -/
structure Duration where
  secs : UInt64
  subsecNanos : Nat
  subsecNanos_lt : subsecNanos < 1000000000

def Duration.asMillis (d : Duration) : Nat :=
  d.secs.toNat * 1000 + d.subsecNanos / 1000000

/-- The number as a `u64`, the largest one where it does not fit. -/
def clampU64 (n : Nat) : UInt64 :=
  UInt64.ofNat (min n (2 ^ 64 - 1))

def durationMillisCeil (duration : Duration) : UInt64 :=
  let whole := clampU64 duration.asMillis
  clampU64 (whole.toNat + if duration.subsecNanos % 1000000 = 0 then 0 else 1)

/-- `u8::saturating_add(1)`. -/
def saturatingSucc (n : UInt8) : UInt8 :=
  if n = 255 then 255 else n + 1

/-- `u8::saturating_sub(1)`. -/
def saturatingPred (n : UInt8) : UInt8 :=
  if n = 0 then 0 else n - 1

def mib : Nat := 1024 * 1024

def budget (mode : GovernorMode) (energySaver : Bool) : IndexingBudget :=
  match mode with
  | .active => ⟨0, 0, 0, 32 * mib, 1000, 0, .paused, true⟩
  | .balanced => ⟨5000, 20, 5000, 64 * mib, 5000, 1, .normal, false⟩
  | .idleBoost => ⟨10000, 100, 30000, 128 * mib, 10000, 1, .elevated, false⟩
  | .pressure => ⟨128, 0, 0, 32 * mib, 500, 0, .paused, true⟩
  | .battery =>
      if energySaver then ⟨0, 0, 0, 32 * mib, 1000, 0, .paused, true⟩
      else ⟨256, 1, 250, 32 * mib, 1000, 1, .minimal, false⟩

namespace GovernorConfig

def critical (config : GovernorConfig) (pressure : SystemPressure) : Bool :=
  pressure.availableMemoryBasisPoints.any (· ≤ config.criticalMemoryBasisPoints)

def pressured (config : GovernorConfig) (pressure : SystemPressure) : Bool :=
  pressure.availableMemoryBasisPoints.any (· ≤ config.lowMemoryBasisPoints) ||
    pressure.systemCpuLoadBasisPoints.any (· ≥ config.highCpuBasisPoints) ||
    pressure.diskBusyBasisPoints.any (· ≥ config.highDiskBasisPoints)

end GovernorConfig

namespace ResourceGovernor

/-- `ResourceGovernor::new`. -/
def new (config : GovernorConfig) : ResourceGovernor where
  config := config
  mode := .balanced
  reason := .startup
  pressure := .unknown
  resourceAvailable := true
  resourceRecoveryRequired := false
  workload := ⟨false, false, 0⟩
  pressureStreak := 0
  recoveryStreak := 0
  cooldownRemaining := 0
  interactiveRemaining := 0
  transitionSequence := 0

def getIndexingBudget (s : ResourceGovernor) : IndexingBudget :=
  budget s.mode s.pressure.energySaver

def decision (s : ResourceGovernor) : GovernorDecision :=
  ⟨s.mode, s.getIndexingBudget, s.reason, s.transitionSequence⟩

def transition (s : ResourceGovernor) (mode : GovernorMode) (reason : DecisionReason) :
    ResourceGovernor :=
  if s.mode ≠ mode then
    { s with
      mode := mode
      transitionSequence := clampU64 (s.transitionSequence.toNat + 1)
      cooldownRemaining := s.config.cooldownWindows
      reason := reason }
  else { s with reason := reason }

/-- A healthy observation counts towards recovery and cools a transition down. -/
def countHealthy (s : ResourceGovernor) (countWindow : Bool) : ResourceGovernor :=
  if countWindow then
    { s with
      recoveryStreak := saturatingSucc s.recoveryStreak
      cooldownRemaining := saturatingPred s.cooldownRemaining }
  else s

def desired (s : ResourceGovernor) : GovernorMode × DecisionReason :=
  if s.workload.userIdle ∧ 0 < s.workload.backlogMutations ∧ s.pressure.powerSource = .ac then
    (.idleBoost, .idleBacklog)
  else (.balanced, .balanced)

/-- The end of `evaluate`: nothing stands against background work, and only the
hysteresis decides between `Balanced` and `IdleBoost`. -/
def relax (s : ResourceGovernor) (countWindow : Bool) : ResourceGovernor :=
  let s := s.countHealthy countWindow
  if s.mode = s.desired.1 then { s with reason := s.desired.2 }
  else if s.recoveryStreak ≥ s.config.recoveryWindows ∧ s.cooldownRemaining = 0 then
    { s.transition s.desired.1 s.desired.2 with recoveryStreak := 0 }
  else s

/-- `evaluate` after the pressure check: the user, the power source, the rest. -/
def evaluateUse (s : ResourceGovernor) (countWindow : Bool) : ResourceGovernor :=
  if s.workload.userActive ∨ s.interactiveRemaining > 0 then
    { s with recoveryStreak := 0 }.transition .active .userActive
  else if s.pressure.energySaver then s.transition .battery .energySaver
  else if s.pressure.powerSource = .battery then s.transition .battery .battery
  else if s.config.pressured s.pressure then s
  else s.relax countWindow

/-- `evaluate` once telemetry is trusted: memory first, then sustained pressure. -/
def evaluatePressure (s : ResourceGovernor) (countWindow : Bool) : ResourceGovernor :=
  if s.config.critical s.pressure then s.transition .pressure .criticalMemory
  else if s.config.pressured s.pressure then
    let s := { s with
      pressureStreak := if countWindow then saturatingSucc s.pressureStreak else s.pressureStreak
      recoveryStreak := 0 }
    if s.pressureStreak ≥ s.config.pressureWindows then s.transition .pressure .systemPressure
    else s.evaluateUse countWindow
  else { s with pressureStreak := 0 }.evaluateUse countWindow

def evaluate (s : ResourceGovernor) (countWindow : Bool) : ResourceGovernor :=
  if !s.resourceAvailable then s.transition .pressure .resourceTelemetryUnavailable
  else if s.resourceRecoveryRequired then
    let s := s.countHealthy countWindow
    if s.recoveryStreak < s.config.recoveryWindows then
      s.transition .pressure .resourceTelemetryUnavailable
    else
      let s := { s with resourceRecoveryRequired := false, recoveryStreak := 0 }
      (s.transition .balanced .balanced).evaluatePressure countWindow
  else s.evaluatePressure countWindow

def beginInteractiveRequest (s : ResourceGovernor) : ResourceGovernor :=
  let s := { s with interactiveRemaining := s.config.interactiveHoldWindows }
  if s.resourceAvailable ∧ !s.resourceRecoveryRequired then s.transition .active .userActive
  else s

def reportSearchLatency (s : ResourceGovernor) (latency : Duration) : ResourceGovernor :=
  let s := { s with interactiveRemaining := s.config.interactiveHoldWindows }
  if !s.resourceAvailable ∨ s.resourceRecoveryRequired then s
  else
    s.transition .active
      (if durationMillisCeil latency > s.config.searchSlaMillis then .searchSla else .userActive)

/-- The hold of an interactive request lasts one window less. -/
def passWindow (s : ResourceGovernor) : ResourceGovernor :=
  if s.interactiveRemaining > 0 then
    { s with interactiveRemaining := s.interactiveRemaining - 1 }
  else s

def reportSystemPressure (s : ResourceGovernor) (pressure : SystemPressure) : ResourceGovernor :=
  ({ s with pressure := pressure, resourceAvailable := true }.passWindow).evaluate true

def reportResourceUnavailable (s : ResourceGovernor) : ResourceGovernor :=
  { s with
    pressure := .unknown
    resourceAvailable := false
    resourceRecoveryRequired := true
    workload := { s.workload with userIdle := false }
    pressureStreak := 0
    recoveryStreak := 0
    interactiveRemaining := 0 }.transition .pressure .resourceTelemetryUnavailable

def reportWorkload (s : ResourceGovernor) (workload : WorkloadState) : ResourceGovernor :=
  let s := { s with workload := workload }
  if workload.userActive ∧ s.resourceAvailable ∧ !s.resourceRecoveryRequired then
    { s with interactiveRemaining := s.config.interactiveHoldWindows }.transition
      .active .userActive
  else s

def reportBacklog (s : ResourceGovernor) (backlogMutations : UInt64) : ResourceGovernor :=
  let s := { s with workload := { s.workload with backlogMutations := backlogMutations } }
  if backlogMutations = 0 ∧ s.mode = .idleBoost then
    { s with recoveryStreak := 0 }.transition .balanced .balanced
  else s

def reportUserIdleDuration (s : ResourceGovernor) (userIdleDurationMillis : Option UInt64) :
    ResourceGovernor :=
  let idle := userIdleDurationMillis.any (· ≥ s.config.idleBoostAfterMillis)
  let s := { s with workload := { s.workload with userIdle := idle } }
  if !s.workload.userIdle ∧ s.mode = .idleBoost then
    { s with recoveryStreak := 0 }.transition .balanced .balanced
  else s.evaluate false

def advanceWindow (s : ResourceGovernor) : ResourceGovernor :=
  s.passWindow.evaluate true

end ResourceGovernor

/-- The public calls. Each returns the decision of the governor it leaves. -/
inductive Report where
  | beginInteractiveRequest
  | reportSearchLatency (latency : Duration)
  | reportSystemPressure (pressure : SystemPressure)
  | reportResourceUnavailable
  | reportWorkload (workload : WorkloadState)
  | reportBacklog (backlogMutations : UInt64)
  | reportUserIdleDuration (userIdleDurationMillis : Option UInt64)
  | advanceWindow

namespace ResourceGovernor

def call (s : ResourceGovernor) : Report → ResourceGovernor
  | .beginInteractiveRequest => s.beginInteractiveRequest
  | .reportSearchLatency latency => s.reportSearchLatency latency
  | .reportSystemPressure pressure => s.reportSystemPressure pressure
  | .reportResourceUnavailable => s.reportResourceUnavailable
  | .reportWorkload workload => s.reportWorkload workload
  | .reportBacklog backlogMutations => s.reportBacklog backlogMutations
  | .reportUserIdleDuration idle => s.reportUserIdleDuration idle
  | .advanceWindow => s.advanceWindow

def run (s : ResourceGovernor) (calls : List Report) : ResourceGovernor :=
  calls.foldl call s

section Fields

variable (s : ResourceGovernor) (mode : GovernorMode) (reason : DecisionReason) (countWindow : Bool)

@[simp] theorem transition_mode : (s.transition mode reason).mode = mode := by
  unfold transition
  split
  · rfl
  · next h => exact of_not_not h

@[simp] theorem transition_config : (s.transition mode reason).config = s.config := by
  unfold transition; split <;> rfl

@[simp] theorem transition_pressure : (s.transition mode reason).pressure = s.pressure := by
  unfold transition; split <;> rfl

@[simp] theorem transition_resourceAvailable :
    (s.transition mode reason).resourceAvailable = s.resourceAvailable := by
  unfold transition; split <;> rfl

@[simp] theorem transition_resourceRecoveryRequired :
    (s.transition mode reason).resourceRecoveryRequired = s.resourceRecoveryRequired := by
  unfold transition; split <;> rfl

@[simp] theorem transition_workload : (s.transition mode reason).workload = s.workload := by
  unfold transition; split <;> rfl

@[simp] theorem transition_pressureStreak :
    (s.transition mode reason).pressureStreak = s.pressureStreak := by
  unfold transition; split <;> rfl

@[simp] theorem transition_interactiveRemaining :
    (s.transition mode reason).interactiveRemaining = s.interactiveRemaining := by
  unfold transition; split <;> rfl

/-- Counting a window touches the two counters of the hysteresis only. -/
theorem countHealthy_fields : ∃ recovery cooldown, s.countHealthy countWindow =
    { s with recoveryStreak := recovery, cooldownRemaining := cooldown } := by
  unfold countHealthy
  split
  · exact ⟨_, _, rfl⟩
  · exact ⟨s.recoveryStreak, s.cooldownRemaining, rfl⟩

end Fields

/-- What must be true of a governor whose budget lets background work run, with
`observed` the last observation it was given. -/
structure Clear (s : ResourceGovernor) (observed : SystemPressure) : Prop where
  available : s.resourceAvailable = true
  recovered : s.resourceRecoveryRequired = false
  released : s.interactiveRemaining = 0
  inactive : s.workload.userActive = false
  memory : s.config.critical observed = false
  saver : observed.energySaver = false
  unpressured : ¬ (s.config.pressured observed = true ∧ s.pressureStreak ≥ s.config.pressureWindows)
  battery : observed.powerSource = .battery → s.mode = .battery

/-- An unpaused budget is given only to a clear governor. -/
def PauseSafe (s : ResourceGovernor) (observed : SystemPressure) : Prop :=
  s.decision.budget.backgroundPaused = false → s.Clear observed

/-- The modes that admit nothing. -/
theorem pauseSafe_of_mode {s : ResourceGovernor} {observed : SystemPressure}
    (h : s.mode = .active ∨ s.mode = .pressure) : s.PauseSafe observed := by
  intro hrun
  have hpaused : s.decision.budget.backgroundPaused = true := by
    rcases h with h | h
    all_goals
      show (budget s.mode _).backgroundPaused = true
      rw [h]
      rfl
  rw [hpaused] at hrun
  cases hrun

/-- On energy saver the battery mode admits nothing either. -/
theorem pauseSafe_of_saver {s : ResourceGovernor} {observed : SystemPressure}
    (hmode : s.mode = .battery) (hsaver : s.pressure.energySaver = true) :
    s.PauseSafe observed := by
  intro hrun
  have hpaused : s.decision.budget.backgroundPaused = true := by
    show (budget s.mode s.pressure.energySaver).backgroundPaused = true
    rw [hmode, hsaver]
    rfl
  rw [hpaused] at hrun
  cases hrun

/-- What `evaluate` has found out before it looks at the user. -/
structure Checked (s : ResourceGovernor) : Prop where
  available : s.resourceAvailable = true
  recovered : s.resourceRecoveryRequired = false
  memory : s.config.critical s.pressure = false
  unpressured :
    ¬ (s.config.pressured s.pressure = true ∧ s.pressureStreak ≥ s.config.pressureWindows)

/-- The hysteresis chooses between modes of a machine on external power. -/
theorem relax_clear {s : ResourceGovernor} (countWindow : Bool) (h : s.Clear s.pressure)
    (hpower : s.pressure.powerSource ≠ .battery) :
    (s.relax countWindow).Clear s.pressure ∧ (s.relax countWindow).pressure = s.pressure := by
  obtain ⟨recovery, cooldown, hcount⟩ := countHealthy_fields s countWindow
  unfold relax
  rw [hcount]
  dsimp only
  split
  · exact ⟨{ h with }, rfl⟩
  · split
    · refine ⟨⟨?_, ?_, ?_, ?_, ?_, h.saver, ?_, fun hb => absurd hb hpower⟩, ?_⟩
      · simpa using h.available
      · simpa using h.recovered
      · simpa using h.released
      · simpa using h.inactive
      · simpa using h.memory
      · simpa using h.unpressured
      · simp
    · exact ⟨{ h with }, rfl⟩

theorem evaluateUse_safe {s : ResourceGovernor} (countWindow : Bool) (h : s.Checked) :
    (s.evaluateUse countWindow).PauseSafe s.pressure := by
  unfold evaluateUse
  split
  · exact pauseSafe_of_mode (.inl (by simp))
  next huser =>
  split
  · next hsaver => exact pauseSafe_of_saver (by simp) (by simpa using hsaver)
  next hsaver =>
  have hreleased : s.interactiveRemaining = 0 := by
    have hle : ¬ s.interactiveRemaining > 0 := fun hpos => huser (.inr hpos)
    simpa using hle
  have hinactive : s.workload.userActive = false := by
    simpa using fun hactive => huser (.inl hactive)
  have hoff : s.pressure.energySaver = false := by simpa using hsaver
  split
  · intro _
    exact ⟨by simpa using h.available, by simpa using h.recovered, by simpa using hreleased,
      by simpa using hinactive, by simpa using h.memory, hoff, by simpa using h.unpressured,
      fun _ => by simp⟩
  next hpower =>
  have hclear : s.Clear s.pressure :=
    ⟨h.available, h.recovered, hreleased, hinactive, h.memory, hoff, h.unpressured,
      fun hb => absurd hb hpower⟩
  split
  · exact fun _ => hclear
  · exact fun _ => (relax_clear countWindow hclear hpower).1

theorem evaluatePressure_safe {s : ResourceGovernor} (countWindow : Bool)
    (havailable : s.resourceAvailable = true) (hrecovered : s.resourceRecoveryRequired = false) :
    (s.evaluatePressure countWindow).PauseSafe s.pressure := by
  unfold evaluatePressure
  split
  · exact pauseSafe_of_mode (.inr (by simp))
  next hmemory =>
  have hmemory' : s.config.critical s.pressure = false := by simpa using hmemory
  split
  · generalize (if countWindow then saturatingSucc s.pressureStreak else s.pressureStreak) = streak
    dsimp only
    split
    · exact pauseSafe_of_mode (.inr (by simp))
    · next hstreak =>
      exact evaluateUse_safe countWindow
        ⟨havailable, hrecovered, hmemory', fun hp => hstreak hp.2⟩
  · next hpressured =>
    exact evaluateUse_safe countWindow
      ⟨havailable, hrecovered, hmemory', fun hp => hpressured hp.1⟩

/-- Whatever state `evaluate` is called in, it leaves a safe one. -/
theorem evaluate_safe (s : ResourceGovernor) (countWindow : Bool) :
    (s.evaluate countWindow).PauseSafe s.pressure := by
  unfold evaluate
  split
  · exact pauseSafe_of_mode (.inr (by simp))
  next havailable =>
  have havailable' : s.resourceAvailable = true := by simpa using havailable
  split
  · obtain ⟨recovery, cooldown, hcount⟩ := countHealthy_fields s countWindow
    rw [hcount]
    dsimp only
    split
    · exact pauseSafe_of_mode (.inr (by simp))
    · -- telemetry is trusted again: the mode is `Balanced` only until the checks below
      have hsafe := evaluatePressure_safe (s := transition
        { s with resourceRecoveryRequired := false, recoveryStreak := 0,
                 cooldownRemaining := cooldown } .balanced .balanced) countWindow
        (by simpa using havailable') (by simp)
      simpa using hsafe
  · next hrecovered => exact evaluatePressure_safe countWindow havailable' (by simpa using hrecovered)

/-- `evaluate` reads the observation and the availability and writes neither. -/
theorem evaluateUse_kept (s : ResourceGovernor) (countWindow : Bool) :
    (s.evaluateUse countWindow).pressure = s.pressure ∧
      (s.evaluateUse countWindow).resourceAvailable = s.resourceAvailable := by
  unfold evaluateUse
  split
  · simp
  split
  · simp
  split
  · simp
  split
  · exact ⟨rfl, rfl⟩
  · obtain ⟨recovery, cooldown, hcount⟩ := countHealthy_fields s countWindow
    unfold relax
    rw [hcount]
    dsimp only
    split
    · exact ⟨rfl, rfl⟩
    · split
      · simp
      · exact ⟨rfl, rfl⟩

theorem evaluatePressure_kept (s : ResourceGovernor) (countWindow : Bool) :
    (s.evaluatePressure countWindow).pressure = s.pressure ∧
      (s.evaluatePressure countWindow).resourceAvailable = s.resourceAvailable := by
  unfold evaluatePressure
  split
  · simp
  split
  · generalize (if countWindow then saturatingSucc s.pressureStreak else s.pressureStreak) = streak
    dsimp only
    split
    · simp
    · exact evaluateUse_kept _ _
  · exact evaluateUse_kept _ _

theorem evaluate_kept (s : ResourceGovernor) (countWindow : Bool) :
    (s.evaluate countWindow).pressure = s.pressure ∧
      (s.evaluate countWindow).resourceAvailable = s.resourceAvailable := by
  unfold evaluate
  split
  · simp
  split
  · obtain ⟨recovery, cooldown, hcount⟩ := countHealthy_fields s countWindow
    rw [hcount]
    dsimp only
    split
    · simp
    · simpa using evaluatePressure_kept (transition
        { s with resourceRecoveryRequired := false, recoveryStreak := 0,
                 cooldownRemaining := cooldown } .balanced .balanced) countWindow
  · exact evaluatePressure_kept _ _

theorem passWindow_kept (s : ResourceGovernor) :
    s.passWindow.pressure = s.pressure ∧
      s.passWindow.resourceAvailable = s.resourceAvailable := by
  unfold passWindow
  split <;> exact ⟨rfl, rfl⟩

/-- The last observation reported, an unavailable one not counted. -/
def observe (observed : SystemPressure) : Report → SystemPressure
  | .reportSystemPressure pressure => pressure
  | _ => observed

def lastObservation (calls : List Report) : SystemPressure :=
  calls.foldl observe .unknown

/-- The invariant of all runs: the governor holds the last observation as long as
telemetry is available, and its pauses are safe for it. -/
structure Governed (s : ResourceGovernor) (observed : SystemPressure) : Prop where
  holds : s.resourceAvailable = true → s.pressure = observed
  safe : s.PauseSafe observed

/-- A report that ends in `evaluate` needs nothing of the state before it. -/
theorem governed_evaluate {s : ResourceGovernor} {observed : SystemPressure} (countWindow : Bool)
    (h : s.resourceAvailable = true → s.pressure = observed) :
    (s.evaluate countWindow).Governed observed := by
  obtain ⟨hpressure, havailable⟩ := evaluate_kept s countWindow
  constructor
  · intro ha
    rw [havailable] at ha
    rw [hpressure]
    exact h ha
  · intro hrun
    have hclear := evaluate_safe s countWindow hrun
    have ha := hclear.available
    rw [havailable] at ha
    rw [← h ha]
    exact hclear

/-- A report that stops background work at once. -/
theorem governed_stop {s : ResourceGovernor} {observed : SystemPressure} {mode : GovernorMode}
    (reason : DecisionReason) (h : s.resourceAvailable = true → s.pressure = observed)
    (hmode : mode = .active ∨ mode = .pressure) : (s.transition mode reason).Governed observed :=
  ⟨by simpa using h, pauseSafe_of_mode (by simpa using hmode)⟩

/-- Leaving `IdleBoost` for `Balanced` gives no work that was not admitted before. -/
theorem governed_leaveBoost {s : ResourceGovernor} {observed : SystemPressure}
    (h : s.Governed observed) (hmode : s.mode = .idleBoost) :
    (transition { s with recoveryStreak := 0 } .balanced .balanced).Governed observed := by
  have hrun : s.decision.budget.backgroundPaused = false := by
    show (budget s.mode _).backgroundPaused = false
    rw [hmode]
    rfl
  have hclear := h.safe hrun
  have hpower : observed.powerSource ≠ .battery := by
    intro hb
    have hbattery := hclear.battery hb
    rw [hmode] at hbattery
    cases hbattery
  constructor
  · simpa using h.holds
  · intro _
    exact ⟨by simpa using hclear.available, by simpa using hclear.recovered,
      by simpa using hclear.released, by simpa using hclear.inactive,
      by simpa using hclear.memory, hclear.saver, by simpa using hclear.unpressured,
      fun hb => absurd hb hpower⟩

/-- A governor that is not trusted, or waits for recovery, is paused already. -/
theorem Governed.paused {s : ResourceGovernor} {observed : SystemPressure} (h : s.Governed observed)
    (hdown : s.resourceAvailable = false ∨ s.resourceRecoveryRequired = true) :
    s.decision.budget.backgroundPaused = true := by
  by_contra hrun
  have hclear := h.safe (by simpa using hrun)
  rcases hdown with hdown | hdown
  · rw [hclear.available] at hdown
    cases hdown
  · rw [hclear.recovered] at hdown
    cases hdown

/-- Such a governor stays paused under a change that leaves mode and observation. -/
theorem Governed.down {s t : ResourceGovernor} {observed : SystemPressure} (h : s.Governed observed)
    (hdown : s.resourceAvailable = false ∨ s.resourceRecoveryRequired = true)
    (hmode : t.mode = s.mode) (hpressure : t.pressure = s.pressure)
    (havailable : t.resourceAvailable = s.resourceAvailable) : t.Governed observed := by
  constructor
  · rw [havailable, hpressure]
    exact h.holds
  · intro hrun
    have hsame : t.decision.budget = s.decision.budget := by
      show budget t.mode t.pressure.energySaver = budget s.mode s.pressure.energySaver
      rw [hmode, hpressure]
    rw [hsame, h.paused hdown] at hrun
    cases hrun

/-- Work that is not the user's changes no mode and leaves the governor clear. -/
theorem Governed.workload {s : ResourceGovernor} {observed : SystemPressure} (h : s.Governed observed)
    (workload : WorkloadState)
    (hactive : s.workload.userActive = false → workload.userActive = false) :
    ({ s with workload := workload } : ResourceGovernor).Governed observed := by
  refine ⟨h.holds, fun hrun => ?_⟩
  have hclear := h.safe hrun
  exact { hclear with inactive := hactive hclear.inactive }

/-- One public call. -/
theorem governed_call {s : ResourceGovernor} {observed : SystemPressure} (h : s.Governed observed)
    (report : Report) : (s.call report).Governed (observe observed report) := by
  cases report with
  | beginInteractiveRequest =>
    show s.beginInteractiveRequest.Governed observed
    unfold beginInteractiveRequest
    dsimp only
    split
    · exact governed_stop _ h.holds (.inl rfl)
    · next htrusted =>
      refine h.down ?_ rfl rfl rfl
      by_contra hup
      push Not at hup
      exact htrusted ⟨by simpa using hup.1, by simpa using hup.2⟩
  | reportSearchLatency latency =>
    show (s.reportSearchLatency latency).Governed observed
    unfold reportSearchLatency
    dsimp only
    split
    · next hdown => exact h.down (by simpa using hdown) rfl rfl rfl
    · exact governed_stop _ h.holds (.inl rfl)
  | reportSystemPressure pressure =>
    refine governed_evaluate true fun _ => ?_
    exact (passWindow_kept _).1
  | reportResourceUnavailable =>
    refine governed_stop _ (fun havailable => ?_) (.inr rfl)
    cases havailable
  | reportWorkload workload =>
    show (s.reportWorkload workload).Governed observed
    unfold reportWorkload
    dsimp only
    split
    · exact governed_stop _ h.holds (.inl rfl)
    · next htrusted =>
      by_cases hactive : workload.userActive = true
      · refine h.down ?_ rfl rfl rfl
        by_contra hup
        push Not at hup
        exact htrusted ⟨hactive, by simpa using hup.1, by simpa using hup.2⟩
      · exact h.workload workload fun _ => by simpa using hactive
  | reportBacklog backlogMutations =>
    show (s.reportBacklog backlogMutations).Governed observed
    have hset := h.workload { s.workload with backlogMutations := backlogMutations } fun hu => hu
    unfold reportBacklog
    dsimp only
    split
    · next hboost => exact governed_leaveBoost hset hboost.2
    · exact hset
  | reportUserIdleDuration idle =>
    show (s.reportUserIdleDuration idle).Governed observed
    have hset := h.workload { s.workload with
      userIdle := idle.any (· ≥ s.config.idleBoostAfterMillis) } fun hu => hu
    unfold reportUserIdleDuration
    dsimp only
    split
    · next hboost => exact governed_leaveBoost hset hboost.2
    · exact governed_evaluate false h.holds
  | advanceWindow =>
    obtain ⟨hpressure, havailable⟩ := passWindow_kept s
    refine governed_evaluate true fun ha => ?_
    rw [hpressure]
    exact h.holds (havailable ▸ ha)

/-- Nothing was observed yet, so nothing stands against the first budget. -/
theorem governed_new (config : GovernorConfig) : (new config).Governed .unknown := by
  refine ⟨fun _ => rfl, fun _ => ⟨rfl, rfl, rfl, rfl, rfl, rfl, ?_, ?_⟩⟩
  · intro hp
    cases hp.1
  · intro hb
    cases hb

theorem governed_run {s : ResourceGovernor} {observed : SystemPressure} (h : s.Governed observed)
    (calls : List Report) : (s.run calls).Governed (calls.foldl observe observed) := by
  induction calls generalizing s observed with
  | nil => exact h
  | cons report calls ih => exact ih (governed_call h report)

/-- After any calls in any order, background work is admitted only where nothing
that was reported stands against it. -/
theorem background_runs_when_clear (config : GovernorConfig) (calls : List Report) :
    ((new config).run calls).PauseSafe (lastObservation calls) :=
  (governed_run (governed_new config) calls).safe

/-- On battery, work does run, in the battery mode. -/
example :
    ((new .standard).run [.beginInteractiveRequest, .advanceWindow, .advanceWindow,
      .reportSystemPressure ⟨some 5000, none, none, .battery, some 24, false⟩]).decision.budget =
        ⟨256, 1, 250, 32 * mib, 1000, 1, .minimal, false⟩ := by
  decide

end ResourceGovernor

end LocalSearch.Governor
