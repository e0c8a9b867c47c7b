import ColonyPico.Storm.EquipmentControl

/-!
A pass of the thermostat from the control components to the relays
(`Storm::Thermostat::Algorithm` and `Storm::Component::HvacRelayOutputs`). All components
have the same interval, so that they execute in the same passes.
-/

namespace ColonyPico.Storm.ThermostatPass

open ColonyPico.Storm.Config
open ColonyPico.Storm.DutyCycle
open ColonyPico.Storm.EquipmentControl
open ColonyPico.Storm.StageFsm
open ColonyPico.System.ElapsedTime

/-- `HvacRelayOutputs_T`. -/
structure RelayOutputs where
  g : Bool
  bk : Nat
  o : Bool
  w1 : Bool
  w2 : Bool
  w3 : Bool
  y1 : Bool
  y2 : Bool
  deriving DecidableEq, Repr

/-- `MpHvacRelayOutputs::setSafeAllOff()`. -/
def RelayOutputs.zero : RelayOutputs :=
  ⟨false, 0, false, false, false, false, false, false⟩

/-- The members of `HvacRelayOutputs`. -/
structure HvacRelayOutputs where
  systemOn : Bool
  y1 : Bool
  w1 : Bool
  deriving DecidableEq, Repr

def HvacRelayOutputs.init : HvacRelayOutputs :=
  ⟨true, true, true⟩

/-- The begin off time after a possible off edge. -/
def offEdge (was is : Bool) (now beginOffTime : Precision) : Precision :=
  if was = true ∧ is = false then now else beginOffTime

/-- The begin on time after a possible on edge. -/
def onEdge (was is : Bool) (now beginOnTime : Precision) : Precision :=
  if was = false ∧ is = true then now else beginOnTime

/-- The relays for the virtual outputs. -/
def relaysOf (outputs : VirtualOutputs) : RelayOutputs :=
  let finalFanSpeed := max outputs.indoorFan outputs.indoorFanCont
  { g := finalFanSpeed > virtualOutputsOff
    bk := (finalFanSpeed + 5) / 10
    o := !outputs.sovInHeating
    w1 := outputs.indoorStages 0 > virtualOutputsOff
    w2 := outputs.indoorStages 1 > virtualOutputsOff
    w3 := outputs.indoorStages 2 > virtualOutputsOff
    y1 := outputs.outdoorStages 0 > virtualOutputsOff
    y2 := false }

/-- `HvacRelayOutputs::execute()`, for valid model points. -/
def HvacRelayOutputs.execute (c : HvacRelayOutputs) (vOutputs : VirtualOutputs)
    (equipTimes : EquipmentTimes) (systemOn : Bool) (forcedOffRefCnt : Nat)
    (currentInterval : Precision) : HvacRelayOutputs × EquipmentTimes × RelayOutputs :=
  let outputs := if forcedOffRefCnt > 0 then vOutputs.setCapacityOff else vOutputs
  let relaysNew := relaysOf outputs
  ({ systemOn := systemOn, y1 := relaysNew.y1, w1 := relaysNew.w1 },
    { outdoorUnitBeginOnTime :=
        onEdge c.y1 relaysNew.y1 currentInterval equipTimes.outdoorUnitBeginOnTime
      outdoorUnitBeginOffTime :=
        offEdge c.y1 relaysNew.y1 currentInterval equipTimes.outdoorUnitBeginOffTime
      indoorUnitBeginOnTime :=
        onEdge c.w1 relaysNew.w1 currentInterval equipTimes.indoorUnitBeginOnTime
      indoorUnitBeginOffTime :=
        offEdge c.w1 relaysNew.w1 currentInterval equipTimes.indoorUnitBeginOffTime
      systemBeginOnTime := onEdge c.systemOn systemOn currentInterval equipTimes.systemBeginOnTime
      systemBeginOffTime :=
        offEdge c.systemOn systemOn currentInterval equipTimes.systemBeginOffTime },
    relaysNew)

/-- The components, the model points that they share, and what happened last: the mode and
the time of the last pass, and the times at which the relays last switched off. -/
structure System where
  cooling : Control (Fin 1)
  heating : Control (Fin 3)
  off : Control (Fin 0)
  hvacRelayOutputs : HvacRelayOutputs
  outputs : ControlOutputs
  equipmentBeginTimes : EquipmentTimes
  relayOutputs : RelayOutputs
  lastMode : Option OperatingMode
  now : Precision
  y1OffAt : Option Precision
  w1OffAt : Option Precision

/-- What the components before the control components, `FanControl` and the clock give
a pass. -/
structure Pass where
  /-- The model points that the control components read are valid. -/
  valid : Bool
  pvOut : ℚ
  systemConfig : SystemConfig
  sysSeqNum : Nat
  operatingModeChanged : Bool
  forcedOffRefCnt : Nat
  indoorFan : Nat
  indoorFanCont : Nat
  currentInterval : Precision

/-- The inputs of the control components, with all white-box flags false. -/
def controlInputs (s : System) (p : Pass) : ControlInputs :=
  { valid := p.valid
    inputs :=
      { pvOut := p.pvOut
        systemConfig := p.systemConfig
        currentInterval := p.currentInterval
        equipmentBeginTimes := s.equipmentBeginTimes
        defeatEquipMinOffTime := false }
    abortOnOffCycle := false
    operatingModeChanged := p.operatingModeChanged
    sysSeqNum := p.sysSeqNum }

variable (conv : ToUInt32)

/-- The control components of a pass. A component that fails ends the program. -/
def executeControls (s : System) (p : Pass) :
    Option (Control (Fin 1) × Control (Fin 3) × Control (Fin 0) × ControlOutputs) :=
  let (cooling, outputs, success) :=
    s.cooling.execute (Cooling.equipment conv) (controlInputs s p) s.outputs
  if success = false then none
  else
    let (heating, outputs, success) :=
      s.heating.execute (IndoorHeating.equipment conv) (controlInputs s p) outputs
    if success = false then none
    else
      let (off, outputs, success) := s.off.execute Off.equipment (controlInputs s p) outputs
      if success = false then none else some (cooling, heating, off, outputs)

/-- The fan outputs as `FanControl` leaves them. -/
def setFan (p : Pass) (outputs : ControlOutputs) : ControlOutputs :=
  { outputs with
    vOutputs := { outputs.vOutputs with
      indoorFan := p.indoorFan
      indoorFanCont := p.indoorFanCont } }

/-- `Algorithm::expired()`, from the control components on. -/
def step (s : System) (p : Pass) : Option System := do
  let (cooling, heating, off, outputs) ← executeControls conv s p
  let outputs := setFan p outputs
  let (hvacRelayOutputs, equipmentBeginTimes, relayOutputs) :=
    s.hvacRelayOutputs.execute outputs.vOutputs s.equipmentBeginTimes outputs.systemOn
      p.forcedOffRefCnt p.currentInterval
  some
    { cooling := cooling
      heating := heating
      off := off
      hvacRelayOutputs := hvacRelayOutputs
      outputs := outputs
      equipmentBeginTimes := equipmentBeginTimes
      relayOutputs := relayOutputs
      lastMode := if p.valid then some p.systemConfig.currentOpMode else s.lastMode
      now := p.currentInterval
      y1OffAt :=
        if s.relayOutputs.y1 = true ∧ relayOutputs.y1 = false then some p.currentInterval
        else s.y1OffAt
      w1OffAt :=
        if s.relayOutputs.w1 = true ∧ relayOutputs.w1 = false then some p.currentInterval
        else s.w1OffAt }

/-- Stages as constructed. -/
def constructed {n : Nat} (kind : StageKind) (args : Args) : Machine (Fin n) :=
  { stage := fun i => StageFsm.Stage.init kind i i
    args := args
    assertFailed := false
    overflow := false
    stuck := false }

/-- The thermostat once its components have been started. -/
def init (args : Args) : System :=
  { cooling := ⟨Cooling.reset conv (constructed .cooling args), 0⟩
    heating := ⟨IndoorHeating.reset conv (constructed (.indoorHeat false) args), 0⟩
    off := ⟨constructed .cooling args, 0⟩
    hvacRelayOutputs := HvacRelayOutputs.init
    outputs := ControlOutputs.zero
    equipmentBeginTimes := ⟨⟨0, 0⟩, ⟨0, 0⟩, ⟨0, 0⟩, ⟨0, 0⟩, ⟨0, 0⟩, ⟨0, 0⟩⟩
    relayOutputs := RelayOutputs.zero
    lastMode := none
    now := ⟨0, 0⟩
    y1OffAt := none
    w1OffAt := none }

/-- The passes that occur. The configuration is one that `OperatingMode` sets from an accepted
comfort configuration. It announces a change of the operating mode, and forces the mode off
whenever the system is forced off. -/
structure Admits (s : System) (p : Pass) : Prop where
  config : ∃ mode equipmentCfg comfortCfg, validate comfortCfg = comfortCfg ∧
    p.systemConfig = setSystemConfig mode equipmentCfg comfortCfg
  inRange : p.currentInterval.InRange
  nonDecreasing : s.now.asFlatTime ≤ p.currentInterval.asFlatTime
  announced : p.valid = true → s.lastMode ≠ some p.systemConfig.currentOpMode →
    p.operatingModeChanged = true ∨
      (p.sysSeqNum ≠ s.cooling.sysCfgSequenceNumber ∧
        p.sysSeqNum ≠ s.heating.sysCfgSequenceNumber)
  forcedOff : 0 < p.forcedOffRefCnt → p.valid = true ∧ p.systemConfig.currentOpMode = .off

/-- A relay that switches on was off for `sec` seconds since it last switched off. -/
def OffLongEnough (sec : Nat) (offAt : Option Precision) (now : Precision) : Prop :=
  ∀ t, offAt = some t → t.asFlatTime + sec * 1000 ≤ now.asFlatTime

/-- No pass from `s` to `s'` switches a relay on too early. -/
def Protected (s s' : System) : Prop :=
  (s.relayOutputs.y1 = false → s'.relayOutputs.y1 = true →
    OffLongEnough minCompressorOffTimeSec s.y1OffAt s'.now) ∧
  (s.relayOutputs.w1 = false → s'.relayOutputs.w1 = true →
    OffLongEnough minIndoorHeaterOffTimeSec s.w1OffAt s'.now)

end ColonyPico.Storm.ThermostatPass
