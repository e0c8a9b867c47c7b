import ColonyPico.Foundations.Runs
import ColonyPico.Storm.Config
import ColonyPico.System.ElapsedTime
import Mathlib.Algebra.Order.Field.Basic
import Mathlib.Tactic.Linarith
import Mathlib.Tactic.Positivity

/-!
The PI controller (`Storm::Component::Pi`) over runs in which its configuration changes. Numbers are
exact, and `areFloatsEqual()` is equality.
-/

namespace ColonyPico.Storm.PiController

open Config Foundations.Runs System.ElapsedTime

/-- The members, and the points that the controller writes. -/
structure State where
  dt : ℚ
  prevSumError : ℚ
  prevPvOut : ℚ
  maxSumError : ℚ
  pvOut : ℚ
  sumError : ℚ
  pvInhibited : Bool

/-- What `execute()` reads; none where the point is invalid. -/
structure Inputs where
  pulseResetPi : Option Bool
  idtDeltaError : Option ℚ
  systemConfig : Option SystemConfig
  freezePiRefCnt : Option Nat
  inhibitRefCnt : Option Nat

/-- `start()`. The interval is in milliseconds, in an `unsigned long` of `width` bits. -/
def start (width : Nat) (s : State) (intervalTime : Precision) : State :=
  { s with
    dt := (((intervalTime.thousandths + intervalTime.seconds * 1000) % 2 ^ width : Nat) : ℚ)
    prevSumError := 0
    prevPvOut := 0
    maxSumError := 0 }

/-- The inputs of an execution that is not frozen: the error, the configuration, and whether the
integral term is inhibited. -/
def Inputs.running (ins : Inputs) : Option (ℚ × SystemConfig × Bool) := do
  let _ ← ins.pulseResetPi
  let deltaError ← ins.idtDeltaError
  let sysCfg ← ins.systemConfig
  let freezeRefCnt ← ins.freezePiRefCnt
  let inhibitRefCnt ← ins.inhibitRefCnt
  if freezeRefCnt ≠ 0 then none else some (deltaError, sysCfg, inhibitRefCnt != 0)

/-- The integral term that alone leads to the largest output. -/
def maxIntegral (sysCfg : SystemConfig) (dt : ℚ) : ℚ :=
  sysCfg.maxPvOut * sysCfg.reset / (sysCfg.gain * dt)

/-- The request to reset the controller, if there is one. -/
def trapReset (s : State) (ins : Inputs) : State :=
  if ins.pulseResetPi = some true then
    { s with prevPvOut := 0, prevSumError := 0, maxSumError := 0 }
  else s

/-- The outputs are the remembered values. -/
def publish (s : State) (inhibitState : Bool) : State :=
  { s with pvOut := s.prevPvOut, sumError := s.prevSumError, pvInhibited := inhibitState }

/-- The algorithm of an execution that is not frozen. -/
def control (s : State) (deltaError : ℚ) (sysCfg : SystemConfig) (inhibited : Bool) : State :=
  let newSumError := max (s.prevSumError + deltaError) 0
  -- the limit is calculated once, and kept until the next reset
  let maxSumError := if s.maxSumError = 0 then maxIntegral sysCfg s.dt else s.maxSumError
  let clamped := decide (maxSumError < newSumError)
  let newSumError := if clamped then maxSumError else newSumError
  let pvOut := sysCfg.gain * (deltaError + newSumError * s.dt / sysCfg.reset)
  let noUpdateToSumError := decide (0 ≤ pvOut ∧ sysCfg.maxPvOut < pvOut)
  let pvOut := if pvOut < 0 then 0 else if noUpdateToSumError then sysCfg.maxPvOut else pvOut
  let update := !inhibited && !noUpdateToSumError
  publish
    { s with
      maxSumError := maxSumError
      prevSumError := if update then newSumError else s.prevSumError
      prevPvOut := pvOut }
    (clamped || !update)

def execute (s : State) (ins : Inputs) : State :=
  match ins.running with
  | none => publish (trapReset s ins) true
  | some (deltaError, sysCfg, inhibited) => control (trapReset s ins) deltaError sysCfg inhibited

inductive Action where
  | start (intervalTime : Precision)
  | execute (ins : Inputs)

def step (width : Nat) (s : State) : Action → Option State
  | .start intervalTime => some (start width s intervalTime)
  | .execute ins => some (execute s ins)

section Specification

def Positive (width : Nat) (s : State) : Action → Prop
  | .start intervalTime => 0 < (start width s intervalTime).dt
  | .execute ins => ∀ sysCfg, ins.systemConfig = some sysCfg →
      0 < sysCfg.gain ∧ 0 < sysCfg.reset ∧ 0 < sysCfg.maxPvOut

structure Bounded (s : State) (ins : Inputs) : Prop where
  /-- The outputs are in range for the configuration just read. -/
  running : ∀ deltaError sysCfg inhibited, ins.running = some (deltaError, sysCfg, inhibited) →
    (0 ≤ (execute s ins).pvOut ∧ (execute s ins).pvOut ≤ sysCfg.maxPvOut) ∧
      0 ≤ (execute s ins).sumError ∧ (execute s ins).sumError ≤ maxIntegral sysCfg s.dt
  /-- A frozen execution leaves the values, unless there is a reset. -/
  frozen : ins.running = none → ins.pulseResetPi ≠ some true →
    (execute s ins).prevPvOut = s.prevPvOut ∧ (execute s ins).prevSumError = s.prevSumError
  /-- A reset makes them zero before anything else. -/
  reset : ins.pulseResetPi = some true →
    execute s ins = execute { s with prevPvOut := 0, prevSumError := 0, maxSumError := 0 }
      { ins with pulseResetPi := some false }
  /-- The outputs are the values that the next execution finds. -/
  published : (execute s ins).pvOut = (execute s ins).prevPvOut ∧
    (execute s ins).sumError = (execute s ins).prevSumError

def StaysBounded (s : State) : Action → Prop
  | .start _ => True
  | .execute ins => Bounded s ins

/-- An execution that is not frozen, without a reset, finds no limit of the integral term yet, or
one that is not above that of the configuration it reads. -/
def KeepsIntegralLimit (s : State) : Action → Prop
  | .start _ => True
  | .execute ins => ins.pulseResetPi ≠ some true → s.maxSumError ≠ 0 →
      ∀ deltaError sysCfg inhibited, ins.running = some (deltaError, sysCfg, inhibited) →
        s.maxSumError ≤ maxIntegral sysCfg s.dt

end Specification

section Steps

variable {s : State} {deltaError : ℚ} {sysCfg : SystemConfig} {inhibited : Bool}

/-- The integral term is between zero and its limit, which is zero before it is calculated. -/
structure Inv (s : State) : Prop where
  dt : 0 < s.dt
  sumError : 0 ≤ s.prevSumError ∧ s.prevSumError ≤ s.maxSumError

theorem inv_trapReset (h : Inv s) (ins : Inputs) : Inv (trapReset s ins) := by
  unfold trapReset
  split
  · exact ⟨h.dt, le_rfl, le_rfl⟩
  · exact h

theorem maxIntegral_pos {dt : ℚ} (hdt : 0 < dt)
    (hpos : 0 < sysCfg.gain ∧ 0 < sysCfg.reset ∧ 0 < sysCfg.maxPvOut) :
    0 < maxIntegral sysCfg dt :=
  div_pos (mul_pos hpos.2.2 hpos.2.1) (mul_pos hpos.1 hdt)

def limit (s : State) (sysCfg : SystemConfig) : ℚ :=
  if s.maxSumError = 0 then maxIntegral sysCfg s.dt else s.maxSumError

theorem le_limit (h : Inv s) (hpos : 0 < sysCfg.gain ∧ 0 < sysCfg.reset ∧ 0 < sysCfg.maxPvOut) :
    s.prevSumError ≤ limit s sysCfg := by
  rw [limit]
  split
  case isTrue hzero => exact (h.sumError.2.trans hzero.le).trans (maxIntegral_pos h.dt hpos).le
  case isFalse => exact h.sumError.2

/-- The integral term after an execution: the old one, or one that was clamped. -/
theorem control_sumError (deltaError : ℚ) (inhibited : Bool) (h : Inv s)
    (hpos : 0 < sysCfg.gain ∧ 0 < sysCfg.reset ∧ 0 < sysCfg.maxPvOut) :
    0 ≤ (control s deltaError sysCfg inhibited).prevSumError ∧
      (control s deltaError sysCfg inhibited).prevSumError ≤ limit s sysCfg := by
  have hlimit := le_limit h hpos
  have hclamped : 0 ≤ min (limit s sysCfg) (max (s.prevSumError + deltaError) 0) :=
    le_min (h.sumError.1.trans hlimit) (le_max_right _ _)
  have hmin : (if decide (limit s sysCfg < max (s.prevSumError + deltaError) 0) = true then
      limit s sysCfg else max (s.prevSumError + deltaError) 0) =
        min (limit s sysCfg) (max (s.prevSumError + deltaError) 0) := by
    simp only [decide_eq_true_eq]
    split
    case isTrue hlt => rw [min_eq_left hlt.le]
    case isFalse hle => rw [min_eq_right (not_lt.1 hle)]
  simp only [control, publish, ← limit.eq_1]
  rw [hmin]
  split
  · exact ⟨hclamped, min_le_left _ _⟩
  · exact ⟨h.sumError.1, hlimit⟩

theorem control_pvOut (hpos : 0 < sysCfg.gain ∧ 0 < sysCfg.reset ∧ 0 < sysCfg.maxPvOut) :
    0 ≤ (control s deltaError sysCfg inhibited).pvOut ∧
      (control s deltaError sysCfg inhibited).pvOut ≤ sysCfg.maxPvOut := by
  simp only [control, publish]
  generalize sysCfg.gain * _ = pvOut
  split
  case isTrue => exact ⟨le_rfl, hpos.2.2.le⟩
  case isFalse hnonneg =>
    simp only [decide_eq_true_eq]
    split
    case isTrue => exact ⟨hpos.2.2.le, le_rfl⟩
    case isFalse hle => exact ⟨not_lt.1 hnonneg, not_lt.1 fun hlt => hle ⟨not_lt.1 hnonneg, hlt⟩⟩

theorem inv_control (h : Inv s)
    (hpos : 0 < sysCfg.gain ∧ 0 < sysCfg.reset ∧ 0 < sysCfg.maxPvOut) :
    Inv (control s deltaError sysCfg inhibited) :=
  ⟨h.dt, control_sumError _ _ h hpos⟩

theorem systemConfig_of_running {ins : Inputs}
    (h : ins.running = some (deltaError, sysCfg, inhibited)) : ins.systemConfig = some sysCfg := by
  simp only [Inputs.running, Option.bind_eq_bind, Option.bind_eq_some_iff] at h
  obtain ⟨_, _, _, _, sysCfg', hsysCfg, _, _, _, _, hif⟩ := h
  split at hif
  case isTrue => cases hif
  case isFalse =>
    cases hif
    exact hsysCfg

theorem execute_frozen {ins : Inputs} (h : ins.running = none) :
    execute s ins = publish (trapReset s ins) true := by
  rw [execute, h]

theorem execute_running {ins : Inputs} (h : ins.running = some (deltaError, sysCfg, inhibited)) :
    execute s ins = control (trapReset s ins) deltaError sysCfg inhibited := by
  rw [execute, h]

theorem inv_execute (h : Inv s) {width : Nat} {ins : Inputs}
    (hpos : Positive width s (.execute ins)) : Inv (execute s ins) := by
  have hreset := inv_trapReset h ins
  rcases hrunning : ins.running with _ | ⟨deltaError, sysCfg, inhibited⟩
  · rw [execute_frozen hrunning]
    exact ⟨hreset.dt, hreset.sumError⟩
  · rw [execute_running hrunning]
    exact inv_control hreset (hpos sysCfg (systemConfig_of_running hrunning))

theorem inv_step {width : Nat} (action : Action) (next : State) (h : Inv s)
    (hallowed : Positive width s action ∧ KeepsIntegralLimit s action)
    (hstep : step width s action = some next) : Inv next := by
  cases action with
  | start intervalTime =>
      obtain rfl := Option.some.inj hstep
      exact ⟨hallowed.1, le_rfl, le_rfl⟩
  | execute ins =>
      obtain rfl := Option.some.inj hstep
      exact inv_execute h hallowed.1

theorem limit_le {ins : Inputs} (hkeepsLimit : KeepsIntegralLimit s (.execute ins))
    (hrunning : ins.running = some (deltaError, sysCfg, inhibited)) :
    limit (trapReset s ins) sysCfg ≤ maxIntegral sysCfg s.dt := by
  unfold trapReset
  split
  case isTrue =>
    rw [limit, if_pos rfl]
  case isFalse hreset =>
    unfold limit
    split
    case isTrue => exact le_rfl
    case isFalse hcached => exact hkeepsLimit hreset hcached _ _ _ hrunning

theorem execute_reset {ins : Inputs} (hreset : ins.pulseResetPi = some true) :
    execute s ins = execute { s with prevPvOut := 0, prevSumError := 0, maxSumError := 0 }
      { ins with pulseResetPi := some false } := by
  obtain ⟨pulseResetPi, idtDeltaError, systemConfig, freezePiRefCnt, inhibitRefCnt⟩ := ins
  subst hreset
  rfl

theorem execute_published (s : State) (ins : Inputs) :
    (execute s ins).pvOut = (execute s ins).prevPvOut ∧
      (execute s ins).sumError = (execute s ins).prevSumError := by
  rcases hrunning : ins.running with _ | ⟨deltaError, sysCfg, inhibited⟩
  · rw [execute_frozen hrunning]
    exact ⟨rfl, rfl⟩
  · rw [execute_running hrunning]
    exact ⟨rfl, rfl⟩

theorem bounded_execute (h : Inv s) {width : Nat} {ins : Inputs}
    (hpos : Positive width s (.execute ins)) (hkeepsLimit : KeepsIntegralLimit s (.execute ins)) :
    Bounded s ins := by
  refine ⟨?_, ?_, execute_reset, execute_published s ins⟩
  · intro deltaError sysCfg inhibited hrunning
    have hcfg := hpos sysCfg (systemConfig_of_running hrunning)
    have hsum := control_sumError deltaError inhibited
      (inv_trapReset h ins) hcfg
    rw [execute_running hrunning]
    exact ⟨control_pvOut hcfg, hsum.1, hsum.2.trans (limit_le hkeepsLimit hrunning)⟩
  · intro hfrozen hreset
    rw [execute_frozen hfrozen, trapReset, if_neg hreset]
    exact ⟨rfl, rfl⟩

end Steps

section Runs

/-- As long as no execution finds a limit above that of its configuration, the outputs of all
executions since a start are in range. -/
theorem pi_bounded (width : Nat) (s : State) (intervalTime : Precision)
    (hdt : 0 < (start width s intervalTime).dt) (actions : List Action)
    (hallowed : AllSteps (step width)
      (fun s action => Positive width s action ∧ KeepsIntegralLimit s action)
      (start width s intervalTime) actions) :
    AllSteps (step width) StaysBounded (start width s intervalTime) actions := by
  refine allSteps_of_invariant (fun s action next h hallowed hstep =>
    inv_step action next h hallowed hstep) ?_ ⟨hdt, le_rfl, le_rfl⟩ hallowed
  intro s action h hallowed
  cases action with
  | start intervalTime => trivial
  | execute ins => exact bounded_execute h hallowed.1 hallowed.2

/-- A configuration with a gain of one and a reset time of one second. -/
def testConfig (maxPvOut : ℚ) : SystemConfig :=
  { SystemConfig.off with gain := 1, reset := 1000, maxPvOut := maxPvOut }

def testInputs (deltaError maxPvOut : ℚ) : Inputs :=
  { pulseResetPi := some false
    idtDeltaError := some deltaError
    systemConfig := some (testConfig maxPvOut)
    freezePiRefCnt := some 0
    inhibitRefCnt := some 0 }

def testState : State :=
  start 32 ⟨0, 0, 0, 0, 0, 0, false⟩ (.ofSeconds 1)

theorem dt_testState : testState.dt = 1000 := by
  norm_num [testState, start, Precision.ofSeconds]

theorem positive_testInputs (s : State) (deltaError : ℚ) {maxPvOut : ℚ} (h : 0 < maxPvOut) :
    Positive 32 s (.execute (testInputs deltaError maxPvOut)) := by
  intro sysCfg hcfg
  obtain rfl := Option.some.inj hcfg
  exact ⟨zero_lt_one, by norm_num [testConfig], h⟩

/-- One execution is never kept from its own limit. -/
theorem pi_bounded_one :
    AllSteps (step 32) StaysBounded testState [.execute (testInputs 100 200)] := by
  refine pi_bounded 32 ⟨0, 0, 0, 0, 0, 0, false⟩ (.ofSeconds 1) ?_ _ ⟨⟨?_, ?_⟩, fun _ _ => trivial⟩
  · exact dt_testState.symm ▸ (by norm_num)
  · exact positive_testInputs _ 100 (by norm_num)
  · intro _ hcached
    exact absurd rfl hcached

/-- After the largest output was lowered, the integral term stays above its limit. -/
theorem pi_bounded_counterexample :
    ¬ ∀ (width : Nat) (s : State) (intervalTime : Precision),
      0 < (start width s intervalTime).dt → ∀ actions : List Action,
        AllSteps (step width) (fun s action => Positive width s action)
          (start width s intervalTime) actions →
            AllSteps (step width) StaysBounded (start width s intervalTime) actions := by
  intro h
  have hall := h 32 ⟨0, 0, 0, 0, 0, 0, false⟩ (.ofSeconds 1) (dt_testState.symm ▸ (by norm_num))
    [.execute (testInputs 100 200), .execute (testInputs 0 50)]
    ⟨positive_testInputs _ 100 (by norm_num), fun _ _ =>
      ⟨positive_testInputs _ 0 (by norm_num), fun _ _ => trivial⟩⟩
  have hbounded : Bounded (execute testState (testInputs 100 200)) (testInputs 0 50) :=
    (hall.2 _ rfl).1
  obtain ⟨-, -, hsum⟩ := hbounded.running 0 (testConfig 50) false rfl
  revert hsum
  with_unfolding_all decide

end Runs

end ColonyPico.Storm.PiController
