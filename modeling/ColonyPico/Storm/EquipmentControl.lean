import ColonyPico.Storm.StageFsm

/-!
The control component and its equipment (`Storm::Component::Control` and `Cooling`,
`IndoorHeating` and `Off` of `Storm::Component::Equipment`).
-/

namespace ColonyPico.Storm.EquipmentControl

open ColonyPico.Storm.Config
open ColonyPico.Storm.DutyCycle
open ColonyPico.Storm.StageFsm
open ColonyPico.System.ElapsedTime

/-- `OPTION_STORM_MIN_COMPRESSOR_OFF_TIME_SEC`. -/
def minCompressorOffTimeSec : Nat := 5 * 60

/-- `OPTION_STORM_MIN_INDOOR_HEATER_OFF_TIME_SEC`. -/
def minIndoorHeaterOffTimeSec : Nat := 3 * 60

section Requests

variable {ι : Type} [DecidableEq ι] (conv : ToUInt32)

omit [DecidableEq ι] in
/-- The equipment has met its minimum off time. -/
def metMinOffTime (m : Machine ι) (beginOffTime : Precision) (minOffTimeSec : Nat) : Bool :=
  expiredPrecision beginOffTime (Precision.ofSeconds minOffTimeSec)
      m.args.inputs.currentInterval ||
    m.args.inputs.defeatEquipMinOffTime

/-- Stage `i` is turned off in its off cycle, or once it has met the minimum on time of the
configured stage `systemStage`. -/
def requestOffWhenMet (m : Machine ι) (i : ι) (systemStage : Nat) : Machine ι :=
  let minOnTime := (m.args.inputs.systemConfig.stages.getD systemStage Stage.off).minOnTime
  if (m.stage i).state.isInCycle false ||
      expiredPrecision m.args.cycleInfo.beginOnTime (Precision.ofSeconds minOnTime)
        m.args.inputs.currentInterval then
    requestOff conv m i
  else m

/-- `singleStage()` of `Cooling` and of `IndoorHeating`, for the first stage `i`. -/
def singleStageOf (turnOnThreshold turnOffThreshold : ℚ) (beginOffTime : EquipmentTimes → Precision)
    (minOffTimeSec : Nat) (i : ι) (m : Machine ι) : Machine ι × Bool :=
  if m.args.systemOn = false ∧ m.args.inputs.pvOut > turnOnThreshold then
    if metMinOffTime m (beginOffTime m.args.inputs.equipmentBeginTimes) minOffTimeSec then
      (requestOn conv m i, true)
    else (m, true)
  else if (m.stage i).state.isActive ∧ m.args.inputs.pvOut ≤ turnOffThreshold then
    (requestOffWhenMet conv m i 0, true)
  else (m, false)

end Requests

/-- `Control::Equipment`. -/
structure Equipment (ι : Type) where
  operatingMode : OperatingMode
  executeActive : Machine ι → Machine ι × Bool
  executeOff : Machine ι → Machine ι × Bool
  reset : Machine ι → Machine ι

namespace Cooling

variable (conv : ToUInt32)

def singleStage (m : Machine (Fin 1)) : Machine (Fin 1) × Bool :=
  singleStageOf conv 5 0 EquipmentTimes.outdoorUnitBeginOffTime minCompressorOffTimeSec 0
    m

def executeActive (m : Machine (Fin 1)) : Machine (Fin 1) × Bool :=
  if m.args.inputs.systemConfig.numCompressorStages = 1 then
    (execute conv (singleStage conv m).1 0, true)
  else (m, false)

def executeOff (m : Machine (Fin 1)) : Machine (Fin 1) × Bool :=
  (requestModeToOff conv m 0, true)

def reset (m : Machine (Fin 1)) : Machine (Fin 1) :=
  requestModeToOff conv (reconfigure m 0 0 0) 0

/-- `Cooling`. -/
def equipment : Equipment (Fin 1) :=
  { operatingMode := .cooling
    executeActive := executeActive conv
    executeOff := executeOff conv
    reset := reset conv }

end Cooling

namespace IndoorHeating

variable (conv : ToUInt32)

/-- The turn on and the turn off thresholds of the second and the third stage. -/
def turnOn2ndStageThreshold : ℚ := 115

def turnOff2ndStageThreshold : ℚ := 100

def turnOn3rdStageThreshold : ℚ := 215

def turnOff3rdStageThreshold : ℚ := 200

/-- The indoor heater has met its minimum off time. -/
def metMinHeaterOffTime (m : Machine (Fin 3)) : Bool :=
  metMinOffTime m m.args.inputs.equipmentBeginTimes.indoorUnitBeginOffTime
    minIndoorHeaterOffTimeSec

def singleStage (m : Machine (Fin 3)) : Machine (Fin 3) × Bool :=
  singleStageOf conv 5 0 EquipmentTimes.indoorUnitBeginOffTime minIndoorHeaterOffTimeSec
    0 m

/-- The first stage is turned on and at once supplements the second. -/
def turnOnTwoStages (m : Machine (Fin 3)) : Machine (Fin 3) :=
  if metMinHeaterOffTime m then requestAsSupplement conv (requestOn conv m 0) 0 1 else m

/-- Stage `i` supplements stage `next` when it is on, or when the heater has met its minimum
off time. -/
def supplementWhenMet (m : Machine (Fin 3)) (i next : Fin 3) : Machine (Fin 3) :=
  if (m.stage i).state.isInCycle true ||
      ((m.stage i).state.isInCycle false && metMinHeaterOffTime m) then
    requestAsSupplement conv m i next
  else m

def secondStage (m : Machine (Fin 3)) : Machine (Fin 3) × Bool :=
  if m.args.systemOn = false ∧ m.args.inputs.pvOut > turnOn2ndStageThreshold then
    (turnOnTwoStages conv m, true)
  else if (m.stage 0).state.isActive ∧ m.args.inputs.pvOut > turnOn2ndStageThreshold then
    (supplementWhenMet conv m 0 1, true)
  else if (m.stage 1).state.isActive ∧ m.args.inputs.pvOut ≤ turnOff2ndStageThreshold then
    (requestOffWhenMet conv m 1 1, true)
  else (m, false)

def thirdStage (m : Machine (Fin 3)) : Machine (Fin 3) × Bool :=
  if m.args.systemOn = false ∧ m.args.inputs.pvOut > turnOn3rdStageThreshold then
    (turnOnTwoStages conv m, true)
  else if (m.stage 0).state.isActive ∧ m.args.inputs.pvOut > turnOn3rdStageThreshold then
    (supplementWhenMet conv m 0 1, true)
  else if (m.stage 1).state.isActive ∧ m.args.inputs.pvOut > turnOn3rdStageThreshold then
    (supplementWhenMet conv m 1 2, true)
  else if (m.stage 2).state.isActive ∧ m.args.inputs.pvOut ≤ turnOff3rdStageThreshold then
    (requestOffWhenMet conv m 2 2, true)
  else (m, false)

/-- A stage's logic, and the one below it where the first was not tripped. -/
def orElse (first second : Machine (Fin 3) → Machine (Fin 3) × Bool) (m : Machine (Fin 3)) :
    Machine (Fin 3) × Bool :=
  if (first m).2 then first m else second (first m).1

def executeActive (m : Machine (Fin 3)) : Machine (Fin 3) × Bool :=
  match m.args.inputs.systemConfig.numIndoorStages with
  | 1 => (execute conv (singleStage conv m).1 0, true)
  | 2 =>
      let m := (orElse (secondStage conv) (singleStage conv) m).1
      (execute conv (execute conv m 0) 1, true)
  | 3 =>
      let m := (orElse (thirdStage conv) (orElse (secondStage conv) (singleStage conv)) m).1
      (execute conv (execute conv (execute conv m 0) 1) 2, true)
  | _ => (m, false)

def executeOff (m : Machine (Fin 3)) : Machine (Fin 3) × Bool :=
  (requestModeToOff conv (requestModeToOff conv (requestModeToOff conv m 0) 1) 2, true)

def reset (m : Machine (Fin 3)) : Machine (Fin 3) :=
  let m := reconfigure (reconfigure (reconfigure m 0 0 0) 1 1 1) 2 2 2
  (executeOff conv m).1

/-- `IndoorHeating`. -/
def equipment : Equipment (Fin 3) :=
  { operatingMode := .idHeating
    executeActive := executeActive conv
    executeOff := executeOff conv
    reset := reset conv }

theorem equipment_reset : (equipment conv).reset = reset conv := rfl

end IndoorHeating

namespace Off

def executeActive (m : Machine (Fin 0)) : Machine (Fin 0) × Bool :=
  let args := m.args
  let beginOffTime :=
    if args.systemOn then args.inputs.currentInterval else args.cycleInfo.beginOffTime
  ({ m with
      args := { args with
        vOutputs := args.vOutputs.setCapacityOff
        cycleInfo := { args.cycleInfo with beginOffTime := beginOffTime, mode := .off }
        systemOn := false } }, true)

/-- `Off`. -/
def equipment : Equipment (Fin 0) :=
  { operatingMode := .off
    executeActive := executeActive
    executeOff := fun m => (m, true)
    reset := id }

end Off

/-- `MpVirtualOutputs::setSafeAllOff()`. -/
def setSafeAllOff (v : VirtualOutputs) : VirtualOutputs :=
  { v.setCapacityOff with indoorFanCont := 0 }

/-- What a control component reads. -/
structure ControlInputs where
  /-- All model points are valid. -/
  valid : Bool
  inputs : Inputs
  abortOnOffCycle : Bool
  operatingModeChanged : Bool
  /-- The sequence number of the system configuration. -/
  sysSeqNum : Nat

/-- The model points that a control component reads and writes. -/
structure ControlOutputs where
  vOutputs : VirtualOutputs
  cycleInfo : CycleInfo
  systemOn : Bool

/-- The outputs as `initializeModelPoints()` writes them. -/
def ControlOutputs.zero : ControlOutputs :=
  { vOutputs :=
      { indoorFan := 0
        indoorFanCont := 0
        indoorStages := fun _ => 0
        outdoorFan := 0
        outdoorStages := fun _ => 0
        sovInHeating := false }
    cycleInfo := ⟨⟨0, 0⟩, ⟨0, 0⟩, 0, 0, .off⟩
    systemOn := false }

/-- `Control`. The machine holds the arguments of the last execution. -/
structure Control (ι : Type) where
  machine : Machine ι
  sysCfgSequenceNumber : Nat

/-- The arguments of an execution. -/
def argsOf (ins : ControlInputs) (outs : ControlOutputs) : Args :=
  { inputs := ins.inputs
    abortOnOffCycle := ins.abortOnOffCycle
    vOutputs := outs.vOutputs
    cycleInfo := outs.cycleInfo
    systemOn := outs.systemOn }

/-- The outputs that an execution writes. -/
def outputsOf (args : Args) : ControlOutputs :=
  { vOutputs := args.vOutputs
    cycleInfo := args.cycleInfo
    systemOn := args.systemOn }

namespace Control

variable {ι : Type} (equipment : Equipment ι)

/-- The equipment is reset. -/
def Resets (c : Control ι) (ins : ControlInputs) : Prop :=
  ins.sysSeqNum ≠ c.sysCfgSequenceNumber ∨ ins.operatingModeChanged = true

instance (c : Control ι) (ins : ControlInputs) : Decidable (c.Resets ins) :=
  inferInstanceAs (Decidable (_ ∨ _))

/-- The arguments with the equipment off. -/
def resetArgs (args : Args) : Args :=
  { args with
    systemOn := false
    cycleInfo := { args.cycleInfo with mode := .off }
    vOutputs := args.vOutputs.setCapacityOff }

/-- The equipment before the control logic is executed: it has been reset if the system
configuration or the operating mode has changed. -/
def prepare (c : Control ι) (ins : ControlInputs) (outs : ControlOutputs) : Machine ι :=
  let m := { c.machine with args := argsOf ins outs }
  if c.Resets ins then equipment.reset { m with args := resetArgs m.args } else m

theorem prepare_of_resets (c : Control ι) (ins : ControlInputs) (outs : ControlOutputs)
    (h : c.Resets ins) :
    c.prepare equipment ins outs =
      equipment.reset { c.machine with args := resetArgs (argsOf ins outs) } := by
  simp only [prepare, if_pos h]

theorem prepare_of_not_resets (c : Control ι) (ins : ControlInputs) (outs : ControlOutputs)
    (h : ¬c.Resets ins) :
    c.prepare equipment ins outs = { c.machine with args := argsOf ins outs } := by
  simp only [prepare, if_neg h]

def execute (c : Control ι) (ins : ControlInputs) (outs : ControlOutputs) :
    Control ι × ControlOutputs × Bool :=
  if ins.valid = false then (c, outs, true)
  else if ins.inputs.systemConfig.currentOpMode = equipment.operatingMode then
    let (m, success) := equipment.executeActive (c.prepare equipment ins outs)
    let c :=
      { machine := m
        sysCfgSequenceNumber := if c.Resets ins then ins.sysSeqNum else c.sysCfgSequenceNumber }
    if success then (c, outputsOf m.args, true)
    else (c, { outs with vOutputs := setSafeAllOff outs.vOutputs }, false)
  else
    let (m, success) := equipment.executeOff { c.machine with args := argsOf ins outs }
    ({ c with machine := m }, outs, success)

theorem execute_of_mode (c : Control ι) (ins : ControlInputs) (outs : ControlOutputs)
    (hvalid : ins.valid = true)
    (hmode : ins.inputs.systemConfig.currentOpMode = equipment.operatingMode)
    (hsuccess : (equipment.executeActive (c.prepare equipment ins outs)).2 = true) :
    c.execute equipment ins outs =
      ({ machine := (equipment.executeActive (c.prepare equipment ins outs)).1
         sysCfgSequenceNumber :=
          if c.Resets ins then ins.sysSeqNum else c.sysCfgSequenceNumber },
        outputsOf (equipment.executeActive (c.prepare equipment ins outs)).1.args, true) := by
  simp [execute, hvalid, hmode, hsuccess]

theorem success_of_execute (c : Control ι) (ins : ControlInputs) (outs : ControlOutputs)
    (hvalid : ins.valid = true)
    (hmode : ins.inputs.systemConfig.currentOpMode = equipment.operatingMode)
    (h : (c.execute equipment ins outs).2.2 = true) :
    (equipment.executeActive (c.prepare equipment ins outs)).2 = true := by
  by_contra hsuccess
  simp [execute, hvalid, hmode, hsuccess] at h

theorem execute_of_other_mode (c : Control ι) (ins : ControlInputs) (outs : ControlOutputs)
    (hvalid : ins.valid = true)
    (hmode : ins.inputs.systemConfig.currentOpMode ≠ equipment.operatingMode) :
    c.execute equipment ins outs =
      ({ c with
          machine := (equipment.executeOff { c.machine with args := argsOf ins outs }).1 }, outs,
        (equipment.executeOff { c.machine with args := argsOf ins outs }).2) := by
  simp [execute, hvalid, hmode]

end Control

end ColonyPico.Storm.EquipmentControl
