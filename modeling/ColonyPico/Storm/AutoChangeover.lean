import ColonyPico.Storm.PublishedConfig
import ColonyPico.System.PrecisionTime

/-!
The changeover between cooling and heating while the user's mode is AUTO
(`Storm::Component::OperatingMode`), over runs in which other components write the points that they
share with it.
-/

namespace ColonyPico.Storm.AutoChangeover

open Dm.ModelPoint Config OperatingMode PublishedConfig
open System.ElapsedTime

section Runs

/-- The points that other components write between two executions: they take the pulse back,
acknowledge alarms and count themselves into the forced off state. -/
structure SharedPoints where
  operatingModeChanged : Bool
  pulseResetPi : Bool
  noActiveConditioningAlarm : Bool
  userConfigModeAlarm : Bool
  systemForcedOffRefCnt : RefCounter

def SharedPoints.set (p : SharedPoints) (s : State) : State :=
  { s with
    operatingModeChanged := p.operatingModeChanged
    pulseResetPi := p.pulseResetPi
    noActiveConditioningAlarm := p.noActiveConditioningAlarm
    userConfigModeAlarm := p.userConfigModeAlarm
    systemForcedOffRefCnt := p.systemForcedOffRefCnt }

/-- The states of the component. -/
inductive Reached : State → Prop where
  | init : Reached State.init
  | start {s} (h : Reached s) : Reached (OperatingMode.start s)
  | others {s} (h : Reached s) (p : SharedPoints) : Reached (p.set s)
  | execute {s} (h : Reached s) (ins : Inputs) : Reached (execute s ins)

/-- The inputs are valid, the user wants AUTO, there is cooling and heating, and the system is not
forced off when the component looks. -/
def InAuto (s : State) (ins : Inputs) : Prop :=
  ∃ v, ins.valid = some v ∧ v.userMode = .auto ∧
    (allowedModes v.equipmentConfig).haveCooling = true ∧
    (allowedModes v.equipmentConfig).haveHeating = true ∧
    (alarmed s v).systemForcedOffRefCnt.read = some 0

/-- The states behind the first execution of a run in AUTO. -/
inductive AutoRun : State → Prop where
  | first {s ins} (h : Reached s) (hauto : InAuto s ins) : AutoRun (execute s ins)
  | others {s} (h : AutoRun s) (p : SharedPoints) : AutoRun (p.set s)
  | execute {s ins} (h : AutoRun s) (hauto : InAuto s ins) : AutoRun (execute s ins)

end Runs

section Raised

/-- The changed mode and the pulse are raised exactly with a change of the mode. -/
structure Raised (s s' : State) : Prop where
  operatingModeChanged :
    s'.operatingModeChanged = decide (s'.prevOperatingMode ≠ s.prevOperatingMode)
  pulseResetPi :
    s'.pulseResetPi = (s.pulseResetPi || decide (s'.prevOperatingMode ≠ s.prevOperatingMode))

theorem raised_setNewOperatingMode {s : State} (h : s.operatingModeChanged = false) (ins : Inputs)
    (mode : OperatingMode) (haveHeatPump : Bool) (equip : EquipmentConfig)
    (comfort : ComfortConfig) :
    Raised s (setNewOperatingMode s ins mode haveHeatPump equip comfort) := by
  simp only [setNewOperatingMode, ← resolvedMode.eq_1]
  rcases eq_or_ne (resolvedMode mode haveHeatPump) s.prevOperatingMode with hsame | hchanged
  · simp only [hsame, ne_eq, not_true_eq_false, if_false, false_or]
    split
    · exact ⟨by simp [h], by simp⟩
    · exact ⟨by simp [h], by simp⟩
  · simp only [ne_eq, hchanged, not_false_eq_true, if_true, true_or]
    exact ⟨by simp [hchanged], by simp [hchanged]⟩

theorem raised_refl {s : State} (h : s.operatingModeChanged = false) : Raised s s :=
  ⟨by simp [h], by simp⟩

theorem raised_convertUserMode {s : State} (h : s.operatingModeChanged = false) (ins : Inputs)
    (v : ValidInputs) (userMode : ThermostatMode) (haveHeatPump : Bool) :
    Raised s (convertUserMode s ins v userMode haveHeatPump) := by
  -- the latch of AUTO is no part of what is raised
  have hset : ∀ inAuto mode, Raised s (setNewOperatingMode { s with inAuto := inAuto } ins mode
      haveHeatPump v.equipmentConfig v.comfortConfig) := by
    intro inAuto mode
    have hraised := @raised_setNewOperatingMode { s with inAuto := inAuto } h ins mode haveHeatPump
      v.equipmentConfig v.comfortConfig
    exact ⟨hraised.1, hraised.2⟩
  cases userMode with
  | off => exact hset false .off
  | cooling => exact hset false .cooling
  | heating => exact hset false .heating
  | idHeating => exact hset false .idHeating
  | auto =>
      simp only [convertUserMode]
      split_ifs
      · exact hset true .heating
      · exact hset true .cooling
      · exact raised_refl h
      · exact hset s.inAuto .cooling
      · exact hset s.inAuto .heating

/-- The no active conditioning alarm is no part of what is raised. -/
theorem raising_setNoActiveConditioningAlarm (s : State) (alarm : Bool) :
    (setNoActiveConditioningAlarm s alarm).operatingModeChanged = s.operatingModeChanged ∧
      (setNoActiveConditioningAlarm s alarm).pulseResetPi = s.pulseResetPi ∧
      (setNoActiveConditioningAlarm s alarm).prevOperatingMode = s.prevOperatingMode := by
  simp only [setNoActiveConditioningAlarm]
  split_ifs <;> exact ⟨rfl, rfl, rfl⟩

theorem raised_execute (s : State) (ins : Inputs) : Raised s (execute s ins) := by
  rw [execute]
  cases ins.valid with
  | none =>
      have hraised := @raised_setNewOperatingMode { s with operatingModeChanged := false } rfl ins
        .off false (ins.equipmentConfig.read.getD EquipmentConfig.zero)
        (ins.comfortConfig.read.getD ComfortConfig.zero)
      obtain ⟨hchanged, hpulse, hmode⟩ := raising_setNoActiveConditioningAlarm
        (setNewOperatingMode { s with operatingModeChanged := false } ins .off false
          (ins.equipmentConfig.read.getD EquipmentConfig.zero)
          (ins.comfortConfig.read.getD ComfortConfig.zero)) true
      constructor
      · rw [hchanged, hmode]
        exact hraised.1
      · rw [hpulse, hmode]
        exact hraised.2
  | some v =>
      obtain ⟨hchanged, hpulse, hmode⟩ := raising_setNoActiveConditioningAlarm
        { s with operatingModeChanged := false } (noActiveConditioning v.equipmentConfig)
      have hset : ∀ s', Raised (alarmed s v) s' → Raised s s' := by
        intro s' hraised
        rw [alarmed] at hraised
        constructor
        · rw [hraised.1, hmode]
        · rw [hraised.2, hmode, hpulse]
      simp only
      rw [← alarmed]
      split
      · exact hset _ (raised_setNewOperatingMode hchanged ins _ _ _ _)
      · have hraised := @raised_convertUserMode
          { alarmed s v with
            userConfigModeAlarm :=
              (correctUserMode v.userMode (allowedModes v.equipmentConfig)).2 }
          hchanged ins v (correctUserMode v.userMode (allowedModes v.equipmentConfig)).1
          (allowedModes v.equipmentConfig).haveHeatPump
        exact hset _ ⟨hraised.1, hraised.2⟩

end Raised

section Published

/-- Once there is a mode, it is the published one. -/
structure Synced (s : State) : Prop where
  built : Built s.systemConfig
  published : s.prevOperatingMode ≠ .unknown →
    s.systemConfig.data.currentOpMode = s.prevOperatingMode

theorem synced_of_publishing {s s' : State} (h : Synced s) (heq : publishing s' = publishing s) :
    Synced s' := by
  obtain ⟨hmode, -, -, hconfig⟩ := Publishing.mk.inj heq
  exact ⟨hconfig ▸ h.built, by rw [hmode, hconfig]; exact h.published⟩

theorem synced_setNewOperatingMode {s : State} (h : Synced s) (ins : Inputs) (mode : OperatingMode)
    (haveHeatPump : Bool) (equip : EquipmentConfig) (comfort : ComfortConfig) :
    Synced (setNewOperatingMode s ins mode haveHeatPump equip comfort) := by
  rcases publishing_setNewOperatingMode s ins mode haveHeatPump equip comfort with hnew | hold
  · obtain ⟨hmode, -, -, hconfig⟩ := Publishing.mk.inj hnew
    obtain ⟨hdata, hvalid⟩ := data_write h.built (resolvedMode mode haveHeatPump) equip comfort
    constructor
    · rw [hconfig]
      exact ⟨hvalid, Or.inr ⟨_, _, _, hdata⟩⟩
    · intro _
      rw [hconfig, hmode, hdata, currentOpMode_setSystemConfig]
  · exact synced_of_publishing h hold.1

theorem synced_execute {s : State} (h : Synced s) (ins : Inputs) : Synced (execute s ins) := by
  cases hkeeps : keepsAuto s ins with
  | true => exact synced_of_publishing h (publishing_execute_of_keepsAuto hkeeps)
  | false =>
      obtain ⟨s', mode, haveHeatPump, hs', -, hexecute⟩ :=
        publishing_execute_of_not_keepsAuto hkeeps
      exact synced_of_publishing (synced_setNewOperatingMode (synced_of_publishing h hs') _ _ _ _ _)
        hexecute

theorem Reached.synced {s : State} (h : Reached s) : Synced s := by
  induction h with
  | init => exact ⟨⟨rfl, Or.inl rfl⟩, fun hknown => absurd rfl hknown⟩
  | start h ih => exact ⟨ih.built, fun hknown => absurd rfl hknown⟩
  | others h p ih => exact ⟨ih.built, ih.published⟩
  | execute h ins ih => exact synced_execute ih ins

theorem AutoRun.reached {s : State} (h : AutoRun s) : Reached s := by
  induction h with
  | first h hauto => exact h.execute _
  | others h p ih => exact ih.others p
  | execute h hauto ih => exact ih.execute _

theorem inAuto_of_keepsAuto {s : State} {ins : Inputs} (h : keepsAuto s ins = true) :
    s.inAuto = true := by
  rw [keepsAuto] at h
  split at h
  · cases h
  · exact (of_decide_eq_true h).2.2.1

theorem known_execute {s : State} (h : s.inAuto = true → s.prevOperatingMode ≠ .unknown)
    (ins : Inputs) : (execute s ins).prevOperatingMode ≠ .unknown := by
  cases hkeeps : keepsAuto s ins with
  | true =>
      have hmode := congrArg Publishing.prevOperatingMode (publishing_execute_of_keepsAuto hkeeps)
      exact fun hunknown => h (inAuto_of_keepsAuto hkeeps) (hmode.symm.trans hunknown)
  | false =>
      obtain ⟨s', mode, haveHeatPump, -, hmode, hexecute⟩ :=
        publishing_execute_of_not_keepsAuto hkeeps
      have hresolved := resolvedMode_ne_unknown hmode haveHeatPump
      have hprev := congrArg Publishing.prevOperatingMode hexecute
      rcases publishing_setNewOperatingMode s' ins mode haveHeatPump _ _ with
        hnew | ⟨hold, hsame, -⟩
      · have hprev' := hprev.trans (congrArg Publishing.prevOperatingMode hnew)
        exact fun hunknown => hresolved (hprev'.symm.trans hunknown)
      · have hprev' := hprev.trans ((congrArg Publishing.prevOperatingMode hold).trans hsame)
        exact fun hunknown => hresolved (hprev'.symm.trans hunknown)

theorem Reached.known {s : State} (h : Reached s) :
    s.inAuto = true → s.prevOperatingMode ≠ .unknown := by
  induction h with
  | init => exact fun hauto => Bool.noConfusion hauto
  | start h ih => exact fun hauto => Bool.noConfusion hauto
  | others h p ih => exact ih
  | execute h ins ih => exact fun _ => known_execute ih ins

end Published

section Changeover

variable {s : State} {ins : Inputs}

theorem inAuto_setNewOperatingMode (s : State) (ins : Inputs) (mode : OperatingMode)
    (haveHeatPump : Bool) (equip : EquipmentConfig) (comfort : ComfortConfig) :
    (setNewOperatingMode s ins mode haveHeatPump equip comfort).inAuto = s.inAuto := by
  simp only [setNewOperatingMode]
  split_ifs <;> rfl

theorem correctUserMode_auto {allowed : AllowedModes} (hcooling : allowed.haveCooling = true)
    (hheating : allowed.haveHeating = true) : correctUserMode .auto allowed = (.auto, false) := by
  simp [correctUserMode, hcooling, hheating]

theorem inAuto_execute (h : InAuto s ins) : (execute s ins).inAuto = true := by
  obtain ⟨v, hvalid, hmode, hcooling, hheating, hcount⟩ := h
  have hzero : ¬ (alarmed s v).systemForcedOffRefCnt.read.getD 1 > 0 := by
    rw [hcount]
    exact Nat.lt_irrefl 0
  rw [execute, hvalid]
  simp only
  rw [← alarmed, if_neg hzero, hmode, correctUserMode_auto hcooling hheating, convertUserMode]
  simp only
  split_ifs with hfirst
  · exact inAuto_setNewOperatingMode _ _ _ _ _ _
  · exact inAuto_setNewOperatingMode _ _ _ _ _ _
  · simpa using hfirst
  · rw [inAuto_setNewOperatingMode]
    simpa using hfirst
  · rw [inAuto_setNewOperatingMode]
    simpa using hfirst

theorem AutoRun.inAuto (h : AutoRun s) : s.inAuto = true := by
  induction h with
  | first h hauto => exact inAuto_execute hauto
  | others h p ih => exact ih
  | execute h hauto ih => exact inAuto_execute hauto

/-- Behind the first execution, AUTO keeps its mode unless the system has been off for long
enough. -/
theorem keepsAuto_of_holdsAuto (hs : s.inAuto = true) (h : InAuto s ins) {v : ValidInputs}
    (hvalid : ins.valid = some v) (hholds : holdsAuto v ins.currentInterval = true) :
    keepsAuto s ins = true := by
  obtain ⟨v', hvalid', hmode, hcooling, hheating, hcount⟩ := h
  obtain rfl : v = v' := Option.some.inj (hvalid.symm.trans hvalid')
  rw [keepsAuto, hvalid]
  simp only
  rw [decide_eq_true_eq, hcount, hmode, correctUserMode_auto hcooling hheating]
  exact ⟨rfl, rfl, hs, hholds⟩

/-- The system is off, and the time since it went off is at least the hysteresis: in the wrapping
arithmetic of the clock, and in milliseconds. -/
def OffLongEnough (ins : Inputs) : Prop :=
  ∃ v, ins.valid = some v ∧ v.systemOn = false ∧
    expiredPrecision v.systemBeginOffTime timeHysteresis ins.currentInterval = true ∧
    (System.PrecisionTime.InRange 32 v.systemBeginOffTime →
      System.PrecisionTime.InRange 32 ins.currentInterval →
        600 * 1000 ≤
          (ins.currentInterval.asFlatTime + System.PrecisionTime.period 32 -
            v.systemBeginOffTime.asFlatTime) % System.PrecisionTime.period 32)

theorem offLongEnough_of_holdsAuto {v : ValidInputs} (hvalid : ins.valid = some v)
    (h : holdsAuto v ins.currentInterval = false) : OffLongEnough ins := by
  rw [holdsAuto, Bool.not_eq_false', decide_eq_true_eq] at h
  refine ⟨v, hvalid, h.1, h.2, fun hbegin hnow => ?_⟩
  have hexpired := h.2
  rw [← System.PrecisionTime.expiredPrecision_32,
    System.PrecisionTime.expiredPrecision_iff_delta hbegin.2 (by decide) hnow.2,
    System.PrecisionTime.asFlatTime_deltaPrecision hbegin hnow] at hexpired
  exact hexpired

/-- The mode of the component and the published one. -/
def modes (s : State) : OperatingMode × OperatingMode :=
  (s.prevOperatingMode, s.systemConfig.data.currentOpMode)

theorem modes_execute_of_known (hs : Reached s) (h : s.prevOperatingMode ≠ .unknown)
    (ins : Inputs) :
    modes (execute s ins) ≠ modes s ↔
      (execute s ins).prevOperatingMode ≠ s.prevOperatingMode := by
  have hbefore := hs.synced.published h
  have hafter := (hs.execute ins).synced.published (known_execute hs.known ins)
  rw [modes, modes, hbefore, hafter]
  simp

/-- In a run in AUTO the mode changes only when the system has been off for the hysteresis, and the
change and the reset of the PI are raised exactly then; in any execution, the first one included,
they are raised exactly when the component enters another mode. -/
theorem auto_changeover :
    (∀ (s : State) (ins : Inputs), AutoRun s → InAuto s ins →
      (modes (execute s ins) ≠ modes s → OffLongEnough ins) ∧
      (execute s ins).operatingModeChanged = decide (modes (execute s ins) ≠ modes s) ∧
      (execute s ins).pulseResetPi =
        (s.pulseResetPi || decide (modes (execute s ins) ≠ modes s))) ∧
    ∀ (s : State) (ins : Inputs),
      (execute s ins).operatingModeChanged =
        decide ((execute s ins).prevOperatingMode ≠ s.prevOperatingMode) ∧
      (execute s ins).pulseResetPi =
        (s.pulseResetPi || decide ((execute s ins).prevOperatingMode ≠ s.prevOperatingMode)) := by
  constructor
  · intro s ins hs hauto
    have hreached := hs.reached
    have hmodes := modes_execute_of_known hreached (hreached.known hs.inAuto) ins
    have hraised := raised_execute s ins
    refine ⟨fun hchanged => ?_, ?_, ?_⟩
    · obtain ⟨v, hvalid, -⟩ := id hauto
      rcases Bool.eq_false_or_eq_true (holdsAuto v ins.currentInterval) with hholds | hholds
      · have hkeeps := publishing_execute_of_keepsAuto
          (keepsAuto_of_holdsAuto hs.inAuto hauto hvalid hholds)
        exact absurd (congrArg Publishing.prevOperatingMode hkeeps) (hmodes.1 hchanged)
      · exact offLongEnough_of_holdsAuto hvalid hholds
    · rw [hraised.operatingModeChanged]
      exact decide_eq_decide.2 hmodes.symm
    · rw [hraised.pulseResetPi]
      exact congrArg _ (decide_eq_decide.2 hmodes.symm)
  · intro s ins
    exact ⟨(raised_execute s ins).operatingModeChanged, (raised_execute s ins).pulseResetPi⟩

/-- A furnace with an air conditioner, the set-points 75 and 68, and a system that went off at
zero. -/
def readings (idt : ℚ) (seconds : Nat) : Inputs :=
  { idt := some idt
    userMode := some .auto
    setpoints := some (75, 68)
    systemOn := some false
    systemBeginOffTime := some ⟨0, 0⟩
    comfortConfig := Point.init ComfortConfig.default true
    equipmentConfig := Point.init EquipmentConfig.default true
    currentInterval := ⟨seconds, 0⟩ }

theorem inAuto_readings {s : State} (h : (alarmed s
      { idt := 0, userMode := .auto, coolSetpt := 75, heatSetpt := 68, systemOn := false,
        systemBeginOffTime := ⟨0, 0⟩, comfortConfig := ComfortConfig.default,
        equipmentConfig := EquipmentConfig.default }).systemForcedOffRefCnt.read = some 0)
    (idt : ℚ) (seconds : Nat) : InAuto s (readings idt seconds) :=
  ⟨_, rfl, rfl, rfl, rfl, h⟩

theorem auto_changeover_warm : OffLongEnough (readings 80 600) := by
  have hfirst : InAuto State.init (readings 60 0) := inAuto_readings rfl _ _
  refine (auto_changeover.1 (execute State.init (readings 60 0)) (readings 80 600)
    (AutoRun.first Reached.init hfirst) (inAuto_readings ?_ _ _)).1 ?_
  · decide
  · with_unfolding_all decide

end Changeover

end ColonyPico.Storm.AutoChangeover
