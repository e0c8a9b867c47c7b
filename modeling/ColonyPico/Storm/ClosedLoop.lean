import ColonyPico.Storm.AutoChangeover
import ColonyPico.Storm.ForcedOff
import ColonyPico.Storm.Interlock
import ColonyPico.Storm.PiController

/-!
The thermostat as a closed loop (`Storm::Thermostat::Algorithm`): the components in the order in
which they execute, with the points through which each acts on the next ones and, from one pass to
the next, on itself.
-/

namespace ColonyPico.Storm.ClosedLoop

open Dm.ModelPoint Config DutyCycle StageFsm ThermostatPass
open System.ElapsedTime

section Components

def FanControl.execute (fanMode : Option FanMode) (systemConfig : Option SystemConfig)
    (outputs : VirtualOutputs) : VirtualOutputs :=
  match fanMode, systemConfig with
  | some .continuous, some sysCfg => { outputs with indoorFanCont := sysCfg.fanContinuousSpeed }
  | some .auto, some _ => { outputs with indoorFanCont := virtualOutputsOff }
  | none, _ | some _, none => { outputs with indoorFan := virtualOutputsOff }

/-- The member of `PiPreProcess`, and the points that it writes. -/
structure PiPreProcess where
  prevActiveSetpoint : ℚ
  activeSetpoint : ℚ
  deltaIdtError : ℚ
  deltaSetpoint : ℚ
  setpointChanged : Bool

namespace PiPreProcess

/-- `INVALID_SETPOINT_`. -/
def invalidSetpoint : ℚ := 9999

def start (c : PiPreProcess) : PiPreProcess :=
  { c with prevActiveSetpoint := invalidSetpoint }

/-- The setpoint in use and the error, for the cooling and the heating setpoint. -/
def activeSetpointOf (mode : OperatingMode) (idt coolSetpoint heatSetpoint : ℚ) : ℚ × ℚ :=
  match mode with
  | .cooling => (coolSetpoint, idt - coolSetpoint)
  | .heating | .idHeating => (heatSetpoint, heatSetpoint - idt)
  | .off | .unknown => (invalidSetpoint, 0)

/-- Without all of its inputs the mode is off. -/
def execute (c : PiPreProcess) (idt : ℚ) (modeChanged : Bool) (setpoints : Option (ℚ × ℚ))
    (systemConfig : Option SystemConfig) : PiPreProcess :=
  let active :=
    match setpoints, systemConfig with
    | some (coolSetpoint, heatSetpoint), some sysCfg =>
        activeSetpointOf sysCfg.currentOpMode idt coolSetpoint heatSetpoint
    | _, _ => (invalidSetpoint, 0)
  let deltaSetpoint := if modeChanged then 0 else |active.1 - c.prevActiveSetpoint|
  { prevActiveSetpoint := active.1
    activeSetpoint := active.1
    deltaIdtError := active.2
    deltaSetpoint := deltaSetpoint
    setpointChanged := !modeChanged && !areFloatsEqual deltaSetpoint 0 }

end PiPreProcess

end Components

/-- The components with their points. The control components, the relays and what happened to them
last are one part of it. -/
structure Algorithm where
  idtSelection : IdtSelection.State
  operatingMode : OperatingMode.State
  piPreProcess : PiPreProcess
  pi : PiController.State
  plant : ThermostatPass.System

/-- The points that others write, as a pass finds them, and its time. -/
structure Readings where
  idt : IdtSelection.Inputs
  setpoints : Option (ℚ × ℚ)
  userMode : Option ThermostatMode
  equipmentConfig : Point EquipmentConfig
  comfortConfig : Point ComfortConfig
  fanMode : Option FanMode
  freezePiRefCnt : Option Nat
  inhibitRefCnt : Option Nat
  currentInterval : Precision

section Passes

/-- What `OperatingMode` finds. -/
def operatingModeInputs (a : Algorithm) (r : Readings) : OperatingMode.Inputs :=
  { idt := some a.idtSelection.activeIdt
    userMode := r.userMode
    setpoints := r.setpoints
    systemOn := some a.plant.outputs.systemOn
    systemBeginOffTime := some a.plant.equipmentBeginTimes.systemBeginOffTime
    comfortConfig := r.comfortConfig
    equipmentConfig := r.equipmentConfig
    currentInterval := r.currentInterval }

/-- The selection of the temperature, which shares the forced off count. -/
def selectIdt (a : Algorithm) (r : Readings) : Algorithm :=
  let selected := IdtSelection.execute a.idtSelection r.idt a.operatingMode.systemForcedOffRefCnt
  { a with
    idtSelection := selected.1
    operatingMode := { a.operatingMode with systemForcedOffRefCnt := selected.2 } }

/-- The operating mode. The pulse that resets the controller has been taken back. -/
def resolveMode (a : Algorithm) (r : Readings) : Algorithm :=
  { a with
    operatingMode :=
      OperatingMode.execute { a.operatingMode with pulseResetPi := false }
        (operatingModeInputs a r) }

/-- The load. -/
def calculateLoad (a : Algorithm) (r : Readings) : Algorithm :=
  let sysCfg := a.operatingMode.systemConfig.read
  let piPreProcess := a.piPreProcess.execute a.idtSelection.activeIdt
    a.operatingMode.operatingModeChanged r.setpoints sysCfg
  { a with
    piPreProcess := piPreProcess
    pi := PiController.execute a.pi
      { pulseResetPi := some a.operatingMode.pulseResetPi
        idtDeltaError := some piPreProcess.deltaIdtError
        systemConfig := sysCfg
        freezePiRefCnt := r.freezePiRefCnt
        inhibitRefCnt := r.inhibitRefCnt } }

/-- What the control components, which do not look at the fan, and the relays find. -/
def passOf (a : Algorithm) (r : Readings) (indoorFan indoorFanCont : Nat) : Pass :=
  { valid := a.operatingMode.systemConfig.valid
    pvOut := a.pi.pvOut
    systemConfig := a.operatingMode.systemConfig.data
    sysSeqNum := a.operatingMode.systemConfig.seqNum
    operatingModeChanged := a.operatingMode.operatingModeChanged
    forcedOffRefCnt := a.operatingMode.systemForcedOffRefCnt.count
    indoorFan := indoorFan
    indoorFanCont := indoorFanCont
    currentInterval := r.currentInterval }

variable (conv : ToUInt32)

/-- `expired()`. A component that fails ends the program. -/
def expired (a : Algorithm) (r : Readings) : Option Algorithm := do
  let a := calculateLoad (resolveMode (selectIdt a r) r) r
  let (_, _, _, outputs) ← executeControls conv a.plant (passOf a r 0 0)
  let vOutputs := FanControl.execute r.fanMode a.operatingMode.systemConfig.read outputs.vOutputs
  let plant ← step conv a.plant (passOf a r vOutputs.indoorFan vOutputs.indoorFanCont)
  some { a with plant := plant }

/-- The controller as constructed, whose `start()` sets the rest. -/
def pi : PiController.State :=
  { dt := 0
    prevSumError := 0
    prevPvOut := 0
    maxSumError := 0
    pvOut := 0
    sumError := 0
    pvInhibited := false }

/-- `startComponents()`, once the program has initialised the points. -/
def startComponents (args : Args) : Algorithm :=
  { idtSelection := IdtSelection.start IdtSelection.State.init
    operatingMode := OperatingMode.start OperatingMode.State.init
    piPreProcess := PiPreProcess.start ⟨0, 0, 0, 0, false⟩
    pi := PiController.start 32 pi (Precision.ofSeconds 2)
    plant := init conv args }

/-- The algorithms that are reached by passes that satisfy `P`. -/
inductive Reachable (P : Algorithm → Readings → Prop) : Algorithm → Prop where
  | start (args : Args) : Reachable P (startComponents conv args)
  | expired (a a' : Algorithm) (r : Readings) : Reachable P a → P a r →
      expired conv a r = some a' → Reachable P a'

end Passes

section Modes

open PublishedConfig AutoChangeover ForcedOff OperatingMode

variable {P : Config.OperatingMode → ComfortConfig → Prop} {s : OperatingMode.State}

/-- The mode that was resolved last is published, with a comfort configuration that satisfies
`P`. -/
structure Published (P : Config.OperatingMode → ComfortConfig → Prop) (p : Publishing) : Prop where
  built : Built p.systemConfig
  config : p.prevOperatingMode ≠ .unknown → ∃ equip comfort, P p.prevOperatingMode comfort ∧
    p.systemConfig.data = setSystemConfig p.prevOperatingMode equip comfort

/-- A comfort configuration that is read satisfies `P` in every mode, and the one that stands in for
it in the off mode. -/
structure Accepts (P : Config.OperatingMode → ComfortConfig → Prop)
    (comfortConfig : Point ComfortConfig) : Prop where
  zero : P .off ComfortConfig.zero
  read : ∀ comfort, comfortConfig.read = some comfort → ∀ mode, P mode comfort

theorem published_setNewOperatingMode (h : Published P (publishing s)) (ins : OperatingMode.Inputs)
    (mode : Config.OperatingMode) (haveHeatPump : Bool) (equip : EquipmentConfig)
    {comfort : ComfortConfig} (hcomfort : P (resolvedMode mode haveHeatPump) comfort) :
    Published P
      (publishing (setNewOperatingMode s ins mode haveHeatPump equip comfort)) := by
  rcases publishing_setNewOperatingMode s ins mode haveHeatPump equip comfort with
    hnew | ⟨hold, -⟩
  · rw [hnew]
    have hdata := data_write h.built (resolvedMode mode haveHeatPump) equip comfort
    exact ⟨⟨hdata.2, .inr ⟨_, _, _, hdata.1⟩⟩, fun _ => ⟨equip, comfort, hcomfort, hdata.1⟩⟩
  · rw [hold]
    exact h

theorem published_execute (h : Published P (publishing s)) (ins : OperatingMode.Inputs)
    (haccepts : Accepts P ins.comfortConfig) :
    Published P (publishing (OperatingMode.execute s ins)) := by
  cases hkeeps : keepsAuto s ins with
  | true =>
      rw [publishing_execute_of_keepsAuto hkeeps]
      exact h
  | false =>
      cases hvalid : ins.valid with
      | none =>
          have hoff : P .off (ins.comfortConfig.read.getD ComfortConfig.zero) := by
            cases hread : ins.comfortConfig.read with
            | none => exact haccepts.zero
            | some comfort => exact haccepts.read comfort hread .off
          simp only [OperatingMode.execute, hvalid, publishing_setNoActiveConditioningAlarm]
          exact @published_setNewOperatingMode P { s with operatingModeChanged := false } h ins
            .off false _ _ hoff
      | some v =>
          obtain ⟨s', mode, haveHeatPump, hs', -, hexecute⟩ :=
            publishing_execute_of_not_keepsAuto hkeeps
          obtain ⟨-, hcomfort⟩ := read_of_valid hvalid
          rw [← hs'] at h
          rw [hexecute, hcomfort, Option.getD_some]
          exact published_setNewOperatingMode h ins mode haveHeatPump _
            (haccepts.read v.comfortConfig hcomfort _)

theorem prevOperatingMode_setNewOperatingMode (s : OperatingMode.State) (ins : OperatingMode.Inputs)
    (mode : Config.OperatingMode) (haveHeatPump : Bool) (equip : EquipmentConfig)
    (comfort : ComfortConfig) :
    (setNewOperatingMode s ins mode haveHeatPump equip comfort).prevOperatingMode =
      resolvedMode mode haveHeatPump := by
  rcases publishing_setNewOperatingMode s ins mode haveHeatPump equip comfort with
    hnew | ⟨hold, hsame, -⟩
  · exact congrArg Publishing.prevOperatingMode hnew
  · exact (congrArg Publishing.prevOperatingMode hold).trans hsame

/-- A system that is forced off is in the off mode, also in the execution that forces it. -/
theorem off_of_forcedOff (s : OperatingMode.State) (ins : OperatingMode.Inputs)
    (h : 0 < (OperatingMode.execute s ins).systemForcedOffRefCnt.count) :
    (OperatingMode.execute s ins).prevOperatingMode = .off := by
  cases hvalid : ins.valid with
  | none =>
      simp only [OperatingMode.execute, hvalid]
      rw [(raising_setNoActiveConditioningAlarm _ _).2.2, prevOperatingMode_setNewOperatingMode]
      rfl
  | some v =>
      simp only [OperatingMode.execute, hvalid] at h ⊢
      split_ifs at h ⊢ with hcount
      · rw [prevOperatingMode_setNewOperatingMode]
        rfl
      · -- the count is what the component has looked at
        rw [(convertUserMode_forcedOff _ _ _ _ _).2] at h
        simp only at h
        rw [RefCounter.read] at hcount
        split_ifs at hcount
        · exact absurd h hcount
        · exact absurd Nat.one_pos hcount

variable {a : Algorithm}

/-- What holds between the passes. -/
structure Inv (P : Config.OperatingMode → ComfortConfig → Prop) (a : Algorithm) : Prop where
  published : Published P (publishing a.operatingMode)
  known : a.operatingMode.inAuto = true → a.operatingMode.prevOperatingMode ≠ .unknown
  lastMode : a.plant.lastMode =
    if a.operatingMode.prevOperatingMode = .unknown then none
    else some a.operatingMode.prevOperatingMode
  count : a.operatingMode.systemForcedOffRefCnt =
    ⟨a.operatingMode.forcedOff.toNat + a.idtSelection.critical.toNat, true⟩

theorem inv_start (conv : ToUInt32) (args : Args) : Inv P (startComponents conv args) :=
  ⟨⟨⟨rfl, .inl rfl⟩, fun hknown => absurd rfl hknown⟩, nofun, rfl, rfl⟩

/-- The components before the control components. -/
def decided (a : Algorithm) (r : Readings) : Algorithm :=
  calculateLoad (resolveMode (selectIdt a r) r) r

/-- What the components before the control components have decided, for the mode `prev` of the pass
before. -/
structure Decided (P : Config.OperatingMode → ComfortConfig → Prop) (prev : Config.OperatingMode)
    (s : OperatingMode.State) : Prop where
  published : Published P (publishing s)
  known : s.prevOperatingMode ≠ .unknown
  changed : s.operatingModeChanged = decide (s.prevOperatingMode ≠ prev)
  forcedOff : 0 < s.systemForcedOffRefCnt.count → s.prevOperatingMode = .off

theorem decided_operatingMode (h : Inv P a) (r : Readings)
    (haccepts : Accepts P r.comfortConfig) :
    Decided P a.operatingMode.prevOperatingMode (decided a r).operatingMode := by
  let s := { (selectIdt a r).operatingMode with pulseResetPi := false }
  let ins := operatingModeInputs (selectIdt a r) r
  refine ⟨?_, ?_, ?_, ?_⟩
  · exact @published_execute P s h.published ins haccepts
  · exact @known_execute s h.known ins
  · exact (raised_execute s ins).operatingModeChanged
  · exact off_of_forcedOff s ins

theorem count_decided (h : Inv P a) (r : Readings) :
    (decided a r).operatingMode.systemForcedOffRefCnt =
        ⟨(decided a r).operatingMode.forcedOff.toNat +
          (decided a r).idtSelection.critical.toNat, true⟩ ∧
      (decided a r).idtSelection.critical = r.idt.isCritical ∧
      (decided a r).operatingMode.forcedOff = omForces (operatingModeInputs (selectIdt a r) r) := by
  obtain ⟨hcritical, hselected⟩ := idtExecute_critical a.idtSelection r.idt
    a.operatingMode.systemForcedOffRefCnt
  obtain ⟨hforced, hcount⟩ := execute_forcedOff
    { (selectIdt a r).operatingMode with pulseResetPi := false }
    (operatingModeInputs (selectIdt a r) r)
  refine ⟨?_, hcritical, hforced⟩
  change (OperatingMode.execute _ _).systemForcedOffRefCnt =
    ⟨(OperatingMode.execute _ _).forcedOff.toNat +
      (IdtSelection.execute a.idtSelection r.idt _).1.critical.toNat, true⟩
  rw [hcount, hforced, hcritical]
  change countEdge a.operatingMode.forcedOff _ (IdtSelection.execute a.idtSelection r.idt _).2 = _
  rw [hselected, h.count, countEdge_right, countEdge_left]

/-- There is no temperature to be had, a setting is missing, or nothing to heat or to cool with. -/
def Forces (r : Readings) : Prop :=
  r.idt.isCritical = true ∨ r.userMode = none ∨ r.setpoints = none ∨
    r.comfortConfig.valid = false ∨ r.equipmentConfig.valid = false ∨
    noActiveConditioning r.equipmentConfig.data = true

theorem omForces_of_forces (a : Algorithm) {r : Readings} (h : Forces r) :
    r.idt.isCritical = true ∨ omForces (operatingModeInputs a r) = true := by
  cases hvalid : (operatingModeInputs a r).valid with
  | none =>
      right
      rw [omForces, hvalid]
  | some v =>
      obtain ⟨hequip, hcomfort⟩ := read_of_valid hvalid
      have hall := hvalid
      simp only [OperatingMode.Inputs.valid, Option.bind_eq_bind, Option.bind_eq_some_iff] at hall
      obtain ⟨_, -, _, hmode, _, hsetpoints, -⟩ := hall
      rcases h with h | h | h | h | h | h
      · exact .inl h
      · cases hmode.symm.trans h
      · cases hsetpoints.symm.trans h
      · simp [operatingModeInputs, Point.read, h] at hcomfort
      · simp [operatingModeInputs, Point.read, h] at hequip
      · right
        have hdata : r.equipmentConfig.data = v.equipmentConfig := by
          by_cases hequipValid : r.equipmentConfig.valid = true
          · simpa [operatingModeInputs, Point.read, hequipValid] using hequip
          · simp [operatingModeInputs, Point.read, hequipValid] at hequip
        rw [hdata] at h
        rw [omForces, hvalid]
        exact h

/-- A condition that forces the system off does so in the pass that finds it. -/
theorem off_of_forces (h : Inv P a) {r : Readings} (haccepts : Accepts P r.comfortConfig)
    (hforces : Forces r) : (decided a r).operatingMode.prevOperatingMode = .off := by
  apply (decided_operatingMode h r haccepts).forcedOff
  obtain ⟨hcount, hcritical, hforced⟩ := count_decided h r
  rw [hcount, hcritical, hforced]
  rcases omForces_of_forces (selectIdt a r) hforces with htrue | htrue
  · rw [htrue]
    exact Nat.succ_pos _
  · rw [htrue, Nat.add_comm]
    exact Nat.succ_pos _

end Modes

section Plant

variable {P : OperatingMode → ComfortConfig → Prop} {conv : ToUInt32} {a a' : Algorithm}
  {r : Readings}

/-- A pass of the closed loop is one of its control components and relays. -/
theorem expired_step (h : expired conv a r = some a') :
    ∃ indoorFan indoorFanCont plant,
      step conv a.plant (passOf (decided a r) r indoorFan indoorFanCont) = some plant ∧
        a' = { decided a r with plant := plant } := by
  rw [expired, ← decided, Option.bind_eq_bind, Option.bind_eq_some_iff] at h
  obtain ⟨⟨cooling, heating, off, outputs⟩, -, h⟩ := h
  simp only [Option.bind_eq_bind, Option.bind_eq_some_iff, Option.some.injEq] at h
  obtain ⟨plant, hstep, rfl⟩ := h
  exact ⟨_, _, plant, hstep, rfl⟩

theorem currentOpMode_passOf {prev : OperatingMode}
    (h : Decided P prev (decided a r).operatingMode) (indoorFan indoorFanCont : Nat) :
    (passOf (decided a r) r indoorFan indoorFanCont).systemConfig.currentOpMode =
      (decided a r).operatingMode.prevOperatingMode := by
  obtain ⟨equip, comfort, -, hdata⟩ := h.published.config h.known
  exact (congrArg SystemConfig.currentOpMode hdata).trans (currentOpMode_setSystemConfig _ _ _)

/-- The mode of a pass is announced. -/
theorem announced_passOf (hinv : Inv P a)
    (h : Decided P a.operatingMode.prevOperatingMode (decided a r).operatingMode)
    (indoorFan indoorFanCont : Nat) :
    Interlock.Announced a.plant (passOf (decided a r) r indoorFan indoorFanCont) := by
  intro hne
  rw [currentOpMode_passOf h, hinv.lastMode] at hne
  refine h.changed.trans (decide_eq_true fun hsame => hne ?_)
  rw [← hsame, if_neg h.known]

theorem inv_expired (hinv : Inv P a) (haccepts : Accepts P r.comfortConfig)
    (h : expired conv a r = some a') : Inv P a' := by
  have hdecided := decided_operatingMode hinv r haccepts
  obtain ⟨indoorFan, indoorFanCont, plant, hstep, rfl⟩ := expired_step h
  refine ⟨hdecided.published, fun _ => hdecided.known, ?_, (count_decided hinv r).1⟩
  rw [step, Option.bind_eq_bind, Option.bind_eq_some_iff] at hstep
  obtain ⟨_, -, hsome⟩ := hstep
  cases hsome
  have hvalid : (passOf (decided a r) r indoorFan indoorFanCont).valid = true :=
    hdecided.published.built.1
  simp only
  rw [if_pos hvalid, currentOpMode_passOf hdecided, if_neg hdecided.known]

end Plant

section Interlock

open Interlock

variable {conv : ToUInt32} {a a' : Algorithm} {r : Readings}

theorem accepts_any (comfortConfig : Point ComfortConfig) :
    Accepts (fun _ _ => True) comfortConfig :=
  ⟨trivial, fun _ _ _ => trivial⟩

theorem safe_reachable {Q : Algorithm → Readings → Prop} (h : Reachable conv Q a) :
    Inv (fun _ _ => True) a ∧ Safe a.plant := by
  induction h with
  | start args => exact ⟨inv_start conv args, safe_init args⟩
  | expired a a' r _ _ hexpired ih =>
      refine ⟨inv_expired ih.1 (accepts_any _) hexpired, ?_⟩
      have hdecided := decided_operatingMode ih.1 r (accepts_any _)
      obtain ⟨indoorFan, indoorFanCont, plant, hstep, rfl⟩ := expired_step hexpired
      exact (step_safe ih.2 hdecided.published.built.1 (announced_passOf ih.1 hdecided _ _)
        hstep).1

variable (conv)

/-- Whatever the readings, the compressor and the heaters are never on together, the equipment of
the other mode is off, and a condition that forces the system off turns everything off in the pass
that finds it. -/
theorem interlocked (a a' : Algorithm) (r : Readings) (hreach : Reachable conv (fun _ _ => True) a)
    (hexpired : expired conv a r = some a') :
    Interlocked a'.operatingMode.prevOperatingMode a'.plant.relayOutputs ∧
      (Forces r → RelayTimes.CapacityOff a'.plant.relayOutputs) := by
  obtain ⟨hinv, hsafe⟩ := safe_reachable hreach
  have hdecided := decided_operatingMode hinv r (accepts_any _)
  obtain ⟨indoorFan, indoorFanCont, plant, hstep, rfl⟩ := expired_step hexpired
  have hlocked := (step_safe hsafe hdecided.published.built.1
    (announced_passOf hinv hdecided _ _) hstep).2
  rw [currentOpMode_passOf hdecided] at hlocked
  refine ⟨hlocked, fun hforces => ?_⟩
  have hoff := off_of_forces hinv (accepts_any _) hforces
  obtain ⟨hw1, hw2, hw3⟩ := hlocked.heaterOff (.inr hoff)
  obtain ⟨hy1, hy2⟩ := hlocked.compressorOff (.inr hoff)
  exact ⟨hy1, hy2, hw1, hw2, hw3⟩

/-- The loop when it is started. -/
def started : Algorithm :=
  startComponents ToUInt32.truncation (ShortCycle.start.cooling.machine.args)

def next (a : Algorithm) (r : Readings) : Algorithm :=
  (expired ToUInt32.truncation a r).getD a

theorem expired_next (a : Algorithm) (r : Readings)
    (h : (expired ToUInt32.truncation a r).isSome = true) :
    expired ToUInt32.truncation a r = some (next a r) := by
  obtain ⟨a', ha'⟩ := Option.isSome_iff_exists.mp h
  rw [next, ha', Option.getD_some]

/-- The user wants cooling, and the only sensor says `idt`. -/
def readings (idt : Option ℚ) (seconds : Nat) : Readings :=
  { idt := ⟨idt, none, none⟩
    setpoints := some (70, 60)
    userMode := some .cooling
    equipmentConfig := Point.init PublishedConfig.EquipmentConfig.default true
    comfortConfig := Point.init PublishedConfig.ComfortConfig.default true
    fanMode := some .auto
    freezePiRefCnt := some 0
    inhibitRefCnt := some 0
    currentInterval := Precision.ofSeconds seconds }

/-- After ten minutes in a warm room. -/
def cooling : Algorithm :=
  next started (readings (some 80) 600)

/-- The compressor runs, and goes off when the sensor fails. -/
theorem interlocked_sensor_fails :
    cooling.plant.relayOutputs.y1 = true ∧
      RelayTimes.CapacityOff (next cooling (readings none 602)).plant.relayOutputs := by
  have hreach : Reachable ToUInt32.truncation (fun _ _ => True) cooling :=
    .expired _ _ _ (.start _) trivial (expired_next started _ (by decide))
  refine ⟨by with_unfolding_all decide, ?_⟩
  exact (interlocked ToUInt32.truncation cooling _ (readings none 602) hreach
    (expired_next cooling _ (by with_unfolding_all decide))).2 (.inl rfl)

end Interlock

section Protection

open EquipmentControl ShortCycle

variable {conv : ToUInt32} {a a' : Algorithm} {r : Readings}

/-- The comfort configuration of a mode has been validated, and its minimum off time is that of the
equipment. -/
structure MinOffTimes (mode : OperatingMode) (comfort : ComfortConfig) : Prop where
  validated : validate comfort = comfort
  cooling : mode = .cooling → minCompressorOffTimeSec ≤ comfort.compressorCooling.minOffTime
  idHeating : mode = .idHeating → minIndoorHeaterOffTimeSec ≤ comfort.indoorHeating.minOffTime

/-- The time does not run backwards, and the comfort configurations that are read have the minimum
off times of the equipment. -/
structure Timely (a : Algorithm) (r : Readings) : Prop where
  inRange : r.currentInterval.InRange
  nonDecreasing : a.plant.now.asFlatTime ≤ r.currentInterval.asFlatTime
  comfort : ∀ comfort, r.comfortConfig.read = some comfort → ∀ mode, MinOffTimes mode comfort

theorem Timely.accepts (h : Timely a r) : Accepts MinOffTimes r.comfortConfig :=
  ⟨⟨by decide, nofun, nofun⟩, h.comfort⟩

/-- An off cycle takes the minimum off time, as far as the cycles per hour allow. -/
theorem le_calculateOffTime (conv : ToUInt32) {sec : Nat} (hsec : sec ≤ 300) (pvVar : ℚ)
    {minOffTime : Nat} (hmin : sec ≤ minOffTime) (cyclesPerHour : Cph)
    (pvLowerBound pvUpperBound : ℚ) :
    sec ≤ calculateOffTime conv pvVar minOffTime cyclesPerHour pvLowerBound pvUpperBound := by
  have hlimit : 300 ≤ maxMinimumTimeLimits cyclesPerHour := by
    cases cyclesPerHour <;> decide
  exact le_max_of_le_right (le_min hmin (hsec.trans hlimit))

/-- The first stage of a configuration has the comfort parameters of its mode, or those of a stage
that is off. -/
theorem minOffTime_configureStages (cfg : SystemConfig) (n : Nat) (parms : ComfortStage) (fan : Nat)
    (hcfg : cfg.stages.getD 0 Config.Stage.off = Config.Stage.off) {sec : Nat} (hsec : sec ≤ 300)
    (hparms : sec ≤ parms.minOffTime) :
    sec ≤ ((cfg.configureStages n (Config.Stage.ofComfort parms fan)).stages.getD 0
      Config.Stage.off).minOffTime := by
  rcases Nat.eq_zero_or_pos n with rfl | hpos
  · have hfirst : (cfg.configureStages 0 (Config.Stage.ofComfort parms fan)).stages.getD 0
        Config.Stage.off = Config.Stage.off := by
      simpa [SystemConfig.configureStages, List.getD, maxTotalStages] using hcfg
    rw [hfirst]
    exact hsec
  · rw [getD_configureStages _ _ _ _ hpos (by decide)]
    exact hparms

theorem offTimeHolds {p : Pass} {mode : OperatingMode} {equip : EquipmentConfig}
    {comfort : ComfortConfig} (hconfig : p.systemConfig = setSystemConfig mode equip comfort)
    (hcomfort : MinOffTimes mode comfort) (s : ThermostatPass.System) : OffTimeHolds conv s p := by
  have hcurrent : p.systemConfig.currentOpMode = mode := by
    rw [hconfig, currentOpMode_setSystemConfig]
  constructor
  · intro hmode _
    obtain rfl := hcurrent.symm.trans hmode
    rw [offTime, hconfig]
    exact le_calculateOffTime conv (by decide) _
      (minOffTime_configureStages _ _ _ _ rfl (by decide) (hcomfort.cooling rfl)) _ _ _
  · intro hmode _
    obtain rfl := hcurrent.symm.trans hmode
    rw [offTime, hconfig]
    exact le_calculateOffTime conv (by decide) _
      (minOffTime_configureStages _ _ _ _ rfl (by decide) (hcomfort.idHeating rfl)) _ _ _

/-- The closed loop gives the control components only passes that occur. -/
theorem admits_passOf (hinv : Inv MinOffTimes a) (htimely : Timely a r)
    (indoorFan indoorFanCont : Nat) :
    Admits a.plant (passOf (decided a r) r indoorFan indoorFanCont) ∧
      OffTimeHolds conv a.plant (passOf (decided a r) r indoorFan indoorFanCont) := by
  have hdecided := decided_operatingMode hinv r htimely.accepts
  obtain ⟨equip, comfort, hcomfort, hdata⟩ := hdecided.published.config hdecided.known
  refine ⟨⟨⟨_, equip, comfort, hcomfort.validated, hdata⟩, htimely.inRange,
    htimely.nonDecreasing, ?_, ?_⟩, offTimeHolds hdata hcomfort _⟩
  · intro _ hne
    exact .inl (announced_passOf hinv hdecided indoorFan indoorFanCont hne)
  · intro hcount
    refine ⟨hdecided.published.built.1, ?_⟩
    rw [currentOpMode_passOf hdecided]
    exact hdecided.forcedOff hcount

theorem protected_reachable (h : Reachable conv Timely a) :
    Inv MinOffTimes a ∧ ShortCycle.Inv a.plant := by
  induction h with
  | start args => exact ⟨inv_start conv args, inv_init conv args⟩
  | expired a a' r _ htimely hexpired ih =>
      refine ⟨inv_expired ih.1 htimely.accepts hexpired, ?_⟩
      obtain ⟨indoorFan, indoorFanCont, plant, hstep, rfl⟩ := expired_step hexpired
      obtain ⟨hadmits, hholds⟩ := @admits_passOf conv a r ih.1 htimely indoorFan indoorFanCont
      exact (step_passed ih.2 hadmits hholds hstep).1

variable (conv)

/-- Neither the temperatures nor what the user does switch the compressor or the heater on before
its minimum off time. -/
theorem protected_expired (a a' : Algorithm) (r : Readings) (hreach : Reachable conv Timely a)
    (htimely : Timely a r) (hexpired : expired conv a r = some a') :
    Protected a.plant a'.plant := by
  obtain ⟨hinv, hplant⟩ := protected_reachable hreach
  obtain ⟨indoorFan, indoorFanCont, plant, hstep, rfl⟩ := expired_step hexpired
  obtain ⟨hadmits, hholds⟩ := @admits_passOf conv a r hinv htimely indoorFan indoorFanCont
  exact (step_passed hplant hadmits hholds hstep).2

theorem timely_readings (idt : Option ℚ) {seconds : Nat} (hrange : seconds < 2 ^ 32)
    (hle : a.plant.now.asFlatTime ≤ (Precision.ofSeconds seconds).asFlatTime) :
    Timely a (readings idt seconds) := by
  refine ⟨⟨hrange, (by decide : 0 < 1000)⟩, hle, ?_⟩
  intro comfort hread mode
  obtain rfl : PublishedConfig.ComfortConfig.default = comfort := Option.some.inj hread
  exact ⟨by decide, fun _ => by decide, fun _ => by decide⟩

/-- The sensor fails and is back after two seconds: the compressor stays off for now. -/
theorem protected_expired_sensor_back :
    Protected (next cooling (readings none 602)).plant
      (next (next cooling (readings none 602)) (readings (some 80) 604)).plant := by
  have hcooling : Reachable ToUInt32.truncation Timely cooling :=
    .expired _ _ _ (.start _) (timely_readings _ (by decide) (by decide))
      (expired_next started _ (by decide))
  have hfailed : Reachable ToUInt32.truncation Timely (next cooling (readings none 602)) :=
    .expired _ _ _ hcooling (timely_readings _ (by decide) (by decide))
      (expired_next cooling _ (by with_unfolding_all decide))
  exact protected_expired ToUInt32.truncation _ _ _ hfailed
    (timely_readings _ (by decide) (by with_unfolding_all decide))
    (expired_next _ _ (by with_unfolding_all decide))

end Protection

end ColonyPico.Storm.ClosedLoop
