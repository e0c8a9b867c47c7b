import Mathlib.Data.Rat.Defs
import Mathlib.Algebra.Order.Ring.Rat
import Mathlib.Tactic.SplitIfs

/-!
The configuration types of the thermostat (`Storm::Type` and the configuration
model points of `Storm::Dm`). Floating point values are taken as exact rationals.
-/

namespace ColonyPico.Storm.Config

inductive OperatingMode where
  | off
  | cooling
  | heating
  | idHeating
  | unknown
  deriving DecidableEq, Repr

inductive ThermostatMode where
  | off
  | cooling
  | heating
  | auto
  | idHeating
  deriving DecidableEq, Repr

inductive FanMode where
  | auto
  | continuous
  deriving DecidableEq, Repr

inductive OduType where
  | ac
  | hp
  deriving DecidableEq, Repr

inductive IduType where
  | airHandler
  | furnace
  deriving DecidableEq, Repr

/-- Cycles per hour. -/
inductive Cph where
  | cph2
  | cph3
  | cph4
  | cph5
  | cph6
  deriving DecidableEq, Repr

/-- `ComfortStageParameters_T`. -/
structure ComfortStage where
  minOnTime : Nat
  minOffTime : Nat
  cph : Cph
  deriving DecidableEq, Repr

structure ComfortConfig where
  compressorCooling : ComfortStage
  compressorHeating : ComfortStage
  indoorHeating : ComfortStage
  deriving DecidableEq, Repr

/-- A default constructed `ComfortConfig_T`: all bytes zero. -/
def ComfortConfig.zero : ComfortConfig :=
  ⟨⟨0, 0, .cph2⟩, ⟨0, 0, .cph2⟩, ⟨0, 0, .cph2⟩⟩

/-- `MpEquipmentConfig::Data`. -/
structure EquipmentConfig where
  iduType : IduType
  oduType : OduType
  numCompStages : Nat
  numIduHeatingStages : Nat
  hasVspBlower : Bool
  deriving DecidableEq, Repr

/-- An `MpEquipmentConfig::Data` initialised with `{ 0, }`. -/
def EquipmentConfig.zero : EquipmentConfig :=
  ⟨.airHandler, .ac, 0, 0, false⟩

structure Stage where
  lowerBound : ℚ
  upperBound : ℚ
  minIndoorFan : Nat
  maxIndoorFan : Nat
  minOnTime : Nat
  minOffTime : Nat
  cph : Cph
  deriving DecidableEq

structure SystemConfig where
  stages : List Stage
  currentOpMode : OperatingMode
  outdoorUnitType : OduType
  indoorUnitType : IduType
  numCompressorStages : Nat
  numIndoorStages : Nat
  totalStages : Nat
  fanContinuousSpeed : Nat
  gain : ℚ
  reset : ℚ
  maxPvOut : ℚ
  deriving DecidableEq

/-- `OPTION_STORM_MAX_TOTAL_STAGES`: one outdoor and three indoor stages. -/
def maxTotalStages : Nat := 4

/-- `STORM_DM_MP_VIRTUAL_OUTPUTS_OFF`. -/
def virtualOutputsOff : Nat := 0

/-- `STORM_DM_MP_VIRTUAL_OUTPUTS_ON`. -/
def virtualOutputsOn : Nat := 1000

/-- A stage as `setToOff()` leaves it. -/
def Stage.off : Stage :=
  { lowerBound := 0
    upperBound := 1
    minIndoorFan := 0
    maxIndoorFan := 0
    minOnTime := 5 * 60
    minOffTime := 5 * 60
    cph := .cph3 }

/-- `MpSystemConfig::setToOff()`. -/
def SystemConfig.off : SystemConfig :=
  { stages := List.replicate maxTotalStages Stage.off
    currentOpMode := .off
    outdoorUnitType := .ac
    indoorUnitType := .furnace
    numCompressorStages := 0
    numIndoorStages := 0
    totalStages := 0
    fanContinuousSpeed := 0
    gain := 1
    reset := 1
    maxPvOut := 1 }

/-- `Cpl::Math::areFloatsEqual()`, with `FLT_EPSILON`. -/
def areFloatsEqual (a b : ℚ) : Bool :=
  let epsilon : ℚ := 1 / 2 ^ 23
  let diff := |a - b|
  if a = b then true
  else if (a = 0 ∨ b = 0) ∧ diff < epsilon then diff < epsilon * epsilon
  else diff / (|a| + |b|) < epsilon

/-- The comparison of one stage in `isDataEqual_()`. -/
def Stage.isDataEqual (a b : Stage) : Bool :=
  areFloatsEqual a.lowerBound b.lowerBound && areFloatsEqual a.upperBound b.upperBound &&
    a.maxIndoorFan == b.maxIndoorFan && a.minIndoorFan == b.minIndoorFan && a.cph == b.cph &&
    a.minOffTime == b.minOffTime && a.minOnTime == b.minOnTime

/-- `MpSystemConfig::isDataEqual_()`. Only the stages in use are compared, and the
total number of stages is not. -/
def SystemConfig.isDataEqual (a b : SystemConfig) : Bool :=
  (List.range a.totalStages).all (fun i =>
    (a.stages.getD i Stage.off).isDataEqual (b.stages.getD i Stage.off)) &&
    a.currentOpMode == b.currentOpMode && a.indoorUnitType == b.indoorUnitType &&
    a.outdoorUnitType == b.outdoorUnitType && a.numCompressorStages == b.numCompressorStages &&
    a.numIndoorStages == b.numIndoorStages && a.fanContinuousSpeed == b.fanContinuousSpeed &&
    areFloatsEqual a.gain b.gain && areFloatsEqual a.reset b.reset &&
    areFloatsEqual a.maxPvOut b.maxPvOut

/-- The loops of `setSystemConfig()`: the first `n` stages are configured, and the
last of them bounds the process value. -/
def SystemConfig.configureStages (cfg : SystemConfig) (n : Nat) (stage : Nat → Stage) :
    SystemConfig :=
  { cfg with
    stages := (List.range maxTotalStages).map fun i =>
      if i < n then stage i else cfg.stages.getD i Stage.off
    maxPvOut := if n = 0 then cfg.maxPvOut else (stage (n - 1)).upperBound }

/-- `OPTION_STORM_COOLING_LV_PER_STAGE` and `OPTION_STORM_HEATING_LV_PER_STAGE`. -/
def lvPerStage : ℚ := 100

/-- A stage of a mode: the comfort parameters, the load it covers and its fan
speed. -/
def Stage.ofComfort (parms : ComfortStage) (fan i : Nat) : Stage :=
  { lowerBound := i * lvPerStage
    upperBound := i * lvPerStage + lvPerStage
    minIndoorFan := fan
    maxIndoorFan := fan
    minOnTime := parms.minOnTime
    minOffTime := parms.minOffTime
    cph := parms.cph }

def setSystemConfig (newOpMode : OperatingMode) (equipmentCfg : EquipmentConfig)
    (comfortCfg : ComfortConfig) : SystemConfig :=
  let base : SystemConfig :=
    { SystemConfig.off with
      currentOpMode := newOpMode
      outdoorUnitType := equipmentCfg.oduType
      indoorUnitType := equipmentCfg.iduType
      fanContinuousSpeed := if equipmentCfg.hasVspBlower then 500 else virtualOutputsOn }
  match newOpMode with
  | .cooling =>
      SystemConfig.configureStages
        { base with
          numCompressorStages := equipmentCfg.numCompStages
          numIndoorStages := 0
          totalStages := equipmentCfg.numCompStages
          gain := 15
          reset := 5 * 60 * 1000 }
        equipmentCfg.numCompStages
        (Stage.ofComfort comfortCfg.compressorCooling
          (if equipmentCfg.hasVspBlower then 850 else virtualOutputsOn))
  | .idHeating =>
      SystemConfig.configureStages
        { base with
          numCompressorStages := 0
          numIndoorStages := equipmentCfg.numIduHeatingStages
          totalStages := equipmentCfg.numIduHeatingStages
          gain := 20
          reset := 5 * 60 * 1000 }
        equipmentCfg.numIduHeatingStages
        (Stage.ofComfort comfortCfg.indoorHeating
          (if equipmentCfg.iduType = .furnace then virtualOutputsOff else virtualOutputsOn))
  | .off | .heating | .unknown => base

theorem currentOpMode_setSystemConfig (mode : OperatingMode) (equip : EquipmentConfig)
    (comfort : ComfortConfig) : (setSystemConfig mode equip comfort).currentOpMode = mode := by
  cases mode <;> rfl

theorem fields_of_isDataEqual {a b : SystemConfig} (h : a.isDataEqual b = true) :
    (∀ i < a.totalStages,
      (a.stages.getD i Stage.off).isDataEqual (b.stages.getD i Stage.off) = true) ∧
      a.currentOpMode = b.currentOpMode ∧ a.indoorUnitType = b.indoorUnitType ∧
      a.outdoorUnitType = b.outdoorUnitType ∧
      a.numCompressorStages = b.numCompressorStages ∧
      a.numIndoorStages = b.numIndoorStages ∧
      a.fanContinuousSpeed = b.fanContinuousSpeed := by
  simp only [SystemConfig.isDataEqual, Bool.and_eq_true, beq_iff_eq, List.all_eq_true,
    List.mem_range] at h
  obtain ⟨⟨⟨⟨⟨⟨⟨⟨⟨hstages, hmode⟩, hidu⟩, hodu⟩, hcomp⟩, hindoor⟩, hfan⟩, -⟩, -⟩, -⟩ := h
  exact ⟨hstages, hmode, hidu, hodu, hcomp, hindoor, hfan⟩

theorem comfort_of_isDataEqual {parms parms' : ComfortStage} {fan fan' i : Nat}
    (h : (Stage.ofComfort parms fan i).isDataEqual (Stage.ofComfort parms' fan' i) = true) :
    parms = parms' := by
  simp only [Stage.isDataEqual, Stage.ofComfort, Bool.and_eq_true, beq_iff_eq] at h
  obtain ⟨⟨⟨-, hcph⟩, hoff⟩, hon⟩ := h
  cases parms
  cases parms'
  simp_all

theorem getD_configureStages (cfg : SystemConfig) (n i : Nat) (stage : Nat → Stage)
    (hi : i < n) (hmax : i < maxTotalStages) :
    (cfg.configureStages n stage).stages.getD i Stage.off = stage i := by
  simp [SystemConfig.configureStages, List.getD, hmax, hi]

theorem configureStages_zero (cfg : SystemConfig) (stage stage' : Nat → Stage) :
    cfg.configureStages 0 stage = cfg.configureStages 0 stage' := by
  simp [SystemConfig.configureStages]

theorem vspBlower_of_fanContinuousSpeed {a b : Bool}
    (h : (if a then 500 else virtualOutputsOn) = if b then 500 else virtualOutputsOn) :
    a = b := by
  cases a <;> cases b <;> simp_all [virtualOutputsOn]

/-- Configurations built by `setSystemConfig()` that compare equal are equal. -/
theorem setSystemConfig_eq_of_isDataEqual (mode mode' : OperatingMode)
    (equip equip' : EquipmentConfig) (comfort comfort' : ComfortConfig)
    (h : (setSystemConfig mode equip comfort).isDataEqual
      (setSystemConfig mode' equip' comfort') = true) :
    setSystemConfig mode equip comfort = setSystemConfig mode' equip' comfort' := by
  obtain ⟨hstages, hmode, hidu, hodu, hcomp, hindoor, hfan⟩ := fields_of_isDataEqual h
  rw [currentOpMode_setSystemConfig, currentOpMode_setSystemConfig] at hmode
  subst mode'
  obtain ⟨idu, odu, comp, indoor, vsp⟩ := equip
  obtain ⟨idu', odu', comp', indoor', vsp'⟩ := equip'
  cases mode with
  | off | heating | unknown =>
      simp only [setSystemConfig] at hidu hodu hfan ⊢
      rw [hidu, hodu, hfan]
  | cooling =>
      simp only [setSystemConfig, SystemConfig.configureStages] at hidu hodu hcomp hfan
      obtain rfl := vspBlower_of_fanContinuousSpeed hfan
      subst idu' odu' comp'
      rcases Nat.eq_zero_or_pos comp with rfl | hpos
      · exact configureStages_zero _ _ _
      · have hfirst := hstages 0 hpos
        simp only [setSystemConfig] at hfirst
        rw [getD_configureStages _ _ _ _ hpos (by decide),
          getD_configureStages _ _ _ _ hpos (by decide)] at hfirst
        simp only [setSystemConfig, comfort_of_isDataEqual hfirst]
  | idHeating =>
      simp only [setSystemConfig, SystemConfig.configureStages] at hidu hodu hindoor hfan
      obtain rfl := vspBlower_of_fanContinuousSpeed hfan
      subst idu' odu' indoor'
      rcases Nat.eq_zero_or_pos indoor with rfl | hpos
      · exact configureStages_zero _ _ _
      · have hfirst := hstages 0 hpos
        simp only [setSystemConfig] at hfirst
        rw [getD_configureStages _ _ _ _ hpos (by decide),
          getD_configureStages _ _ _ _ hpos (by decide)] at hfirst
        simp only [setSystemConfig, comfort_of_isDataEqual hfirst]

/-- No configuration compares equal to the one a model point is constructed with. -/
theorem isDataEqual_off (mode : OperatingMode) (equip : EquipmentConfig)
    (comfort : ComfortConfig) :
    SystemConfig.off.isDataEqual (setSystemConfig mode equip comfort) = false := by
  by_contra h
  obtain ⟨-, -, -, -, -, -, hfan⟩ := fields_of_isDataEqual (by simpa using h)
  obtain ⟨idu, odu, comp, indoor, vsp⟩ := equip
  cases mode <;> cases vsp <;>
    simp [setSystemConfig, SystemConfig.configureStages, SystemConfig.off, virtualOutputsOn]
      at hfan

end ColonyPico.Storm.Config
