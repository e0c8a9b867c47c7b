import ColonyPico.Dm.ModelPoint
import ColonyPico.Storm.Config
import ColonyPico.System.ElapsedTime

/-!
The component that resolves the user's mode into the operating mode and publishes
the system configuration (`Storm::Component::OperatingMode`).
-/

namespace ColonyPico.Storm.OperatingMode

open ColonyPico.Dm.ModelPoint
open ColonyPico.Storm.Config
open ColonyPico.System.ElapsedTime

/-- The component's members and its output model points. -/
structure State where
  prevOperatingMode : OperatingMode
  equipCfgSequenceNumber : Nat
  comfortCfgSequenceNumber : Nat
  inAuto : Bool
  forcedOff : Bool
  operatingModeChanged : Bool
  pulseResetPi : Bool
  noActiveConditioningAlarm : Bool
  userConfigModeAlarm : Bool
  systemForcedOffRefCnt : RefCounter
  systemConfig : Point SystemConfig

/-- The component as constructed, with a forced off count of zero. -/
def State.init : State :=
  { prevOperatingMode := .unknown
    equipCfgSequenceNumber := sequenceNumberUnknown
    comfortCfgSequenceNumber := sequenceNumberUnknown
    inAuto := false
    forcedOff := false
    operatingModeChanged := false
    pulseResetPi := false
    noActiveConditioningAlarm := false
    userConfigModeAlarm := false
    systemForcedOffRefCnt := ⟨0, true⟩
    systemConfig := Point.init SystemConfig.off true }

/-- What the component reads when it executes; nothing where a point is invalid.
`setpoints` are the cooling and the heating one. -/
structure Inputs where
  idt : Option ℚ
  userMode : Option ThermostatMode
  setpoints : Option (ℚ × ℚ)
  systemOn : Option Bool
  systemBeginOffTime : Option Precision
  comfortConfig : Point ComfortConfig
  equipmentConfig : Point EquipmentConfig
  currentInterval : Precision

def start (s : State) : State :=
  { s with prevOperatingMode := .unknown, inAuto := false }

def setNoActiveConditioningAlarm (s : State) (alarmIsActive : Bool) : State :=
  if alarmIsActive then
    if s.forcedOff = false then
      { s with
        noActiveConditioningAlarm := true
        systemForcedOffRefCnt := s.systemForcedOffRefCnt.increment
        forcedOff := true }
    else { s with noActiveConditioningAlarm := true }
  else if s.forcedOff = true then
    { s with
      noActiveConditioningAlarm := false
      systemForcedOffRefCnt := s.systemForcedOffRefCnt.decrement
      forcedOff := false }
  else { s with noActiveConditioningAlarm := false }

/-- What the equipment can do. -/
structure AllowedModes where
  haveCooling : Bool
  haveHeating : Bool
  haveHeatPump : Bool
  deriving DecidableEq, Repr

/-- The modes that `determineAllowedModes()` finds. -/
def allowedModes (equipmentCfg : EquipmentConfig) : AllowedModes :=
  let outdoor : AllowedModes :=
    match equipmentCfg.oduType with
    | .ac => ⟨equipmentCfg.numCompStages > 0, false, false⟩
    | .hp =>
        ⟨equipmentCfg.numCompStages > 0, equipmentCfg.numCompStages > 0,
          equipmentCfg.numCompStages > 0⟩
  if equipmentCfg.numIduHeatingStages > 0 then { outdoor with haveHeating := true } else outdoor

/-- No active conditioning is possible with the equipment. -/
def noActiveConditioning (equipmentCfg : EquipmentConfig) : Bool :=
  !(allowedModes equipmentCfg).haveCooling && !(allowedModes equipmentCfg).haveHeating

def setNewOperatingMode (s : State) (ins : Inputs) (newOpMode : OperatingMode)
    (haveHeatPump : Bool) (equipmentCfg : EquipmentConfig) (comfortCfg : ComfortConfig) :
    State :=
  let newOpMode := if newOpMode = .heating ∧ haveHeatPump = false then .idHeating else newOpMode
  let modeChanged := newOpMode ≠ s.prevOperatingMode
  let s :=
    if modeChanged then
      { s with
        operatingModeChanged := true
        pulseResetPi := true
        prevOperatingMode := newOpMode }
    else s
  if modeChanged ∨ s.comfortCfgSequenceNumber ≠ ins.comfortConfig.seqNum ∨
      s.equipCfgSequenceNumber ≠ ins.equipmentConfig.seqNum then
    { s with
      systemConfig := s.systemConfig.write SystemConfig.isDataEqual
        (setSystemConfig newOpMode equipmentCfg comfortCfg)
      comfortCfgSequenceNumber := ins.comfortConfig.seqNum
      equipCfgSequenceNumber := ins.equipmentConfig.seqNum }
  else s

/-- The user mode corrected for what the system is capable of, and whether that is
an alarm. -/
def correctUserMode (userMode : ThermostatMode) (allowed : AllowedModes) :
    ThermostatMode × Bool :=
  if userMode = .cooling ∧ allowed.haveCooling = false then (.off, true)
  else if (userMode = .heating ∨ userMode = .idHeating) ∧ allowed.haveHeating = false then
    (.off, true)
  else if userMode = .auto ∧ (allowed.haveCooling = false ∨ allowed.haveHeating = false) then
    if allowed.haveCooling then (.cooling, false) else (.heating, false)
  else (userMode, false)

/-- `OPTION_STORM_COMPONENT_OPERATING_MODE_SECONDS_HYSTERESIS`. -/
def timeHysteresis : Precision := Precision.ofSeconds (10 * 60)

/-- `OPTION_STORM_COMPONENT_OPERATING_MODE_COOLING_OFFSET`. -/
def coolingOffset : ℚ := 1

/-- All inputs of the component, when all are valid. -/
structure ValidInputs where
  idt : ℚ
  userMode : ThermostatMode
  coolSetpt : ℚ
  heatSetpt : ℚ
  systemOn : Bool
  systemBeginOffTime : Precision
  comfortConfig : ComfortConfig
  equipmentConfig : EquipmentConfig

def Inputs.valid (ins : Inputs) : Option ValidInputs := do
  let idt ← ins.idt
  let userMode ← ins.userMode
  let setpoints ← ins.setpoints
  let systemOn ← ins.systemOn
  let systemBeginOffTime ← ins.systemBeginOffTime
  let comfortConfig ← ins.comfortConfig.read
  let equipmentConfig ← ins.equipmentConfig.read
  some
    { idt := idt
      userMode := userMode
      coolSetpt := setpoints.1
      heatSetpt := setpoints.2
      systemOn := systemOn
      systemBeginOffTime := systemBeginOffTime
      comfortConfig := comfortConfig
      equipmentConfig := equipmentConfig }

/-- AUTO keeps its mode while the system is on or was on too recently. -/
def holdsAuto (v : ValidInputs) (currentInterval : Precision) : Bool :=
  !(v.systemOn = false ∧
    expiredPrecision v.systemBeginOffTime timeHysteresis currentInterval = true)

/-- The `switch` over the user's mode. -/
def convertUserMode (s : State) (ins : Inputs) (v : ValidInputs) (userMode : ThermostatMode)
    (haveHeatPump : Bool) : State :=
  let set (s : State) (mode : OperatingMode) : State :=
    setNewOperatingMode s ins mode haveHeatPump v.equipmentConfig v.comfortConfig
  match userMode with
  | .cooling => set { s with inAuto := false } .cooling
  | .heating => set { s with inAuto := false } .heating
  | .idHeating => set { s with inAuto := false } .idHeating
  | .auto =>
      if s.inAuto = false then
        if v.idt ≤ v.heatSetpt then set { s with inAuto := true } .heating
        else set { s with inAuto := true } .cooling
      else if holdsAuto v ins.currentInterval then s
      else if v.idt ≥ v.coolSetpt - coolingOffset then set s .cooling
      else set s .heating
  | .off => set { s with inAuto := false } .off

def execute (s : State) (ins : Inputs) : State :=
  let s := { s with operatingModeChanged := false }
  match ins.valid with
  | none =>
      setNoActiveConditioningAlarm
        (setNewOperatingMode s ins .off false
          (ins.equipmentConfig.read.getD EquipmentConfig.zero)
          (ins.comfortConfig.read.getD ComfortConfig.zero))
        true
  | some v =>
      let allowed := allowedModes v.equipmentConfig
      let s := setNoActiveConditioningAlarm s (noActiveConditioning v.equipmentConfig)
      if s.systemForcedOffRefCnt.read.getD 1 > 0 then
        setNewOperatingMode s ins .off allowed.haveHeatPump v.equipmentConfig v.comfortConfig
      else
        let corrected := correctUserMode v.userMode allowed
        convertUserMode { s with userConfigModeAlarm := corrected.2 } ins v corrected.1
          allowed.haveHeatPump

end ColonyPico.Storm.OperatingMode
