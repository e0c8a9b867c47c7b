import ColonyPico.Storm.OperatingMode

/-!
Whether the system configuration that `OperatingMode` publishes follows the
configurations it reads.
-/

namespace ColonyPico.Storm.PublishedConfig

open ColonyPico.Dm.ModelPoint
open ColonyPico.Storm.Config
open ColonyPico.Storm.OperatingMode
open ColonyPico.System.ElapsedTime

/-- What can happen to a configuration point. -/
inductive Change (α : Type) where
  | write (src : α)
  | setInvalid
  | touch

section Change

variable {α : Type} [DecidableEq α] (invalidData : α)

def Change.apply (p : Point α) : Change α → Point α
  | .write src => p.write (· == ·) src
  | .setInvalid => p.setInvalid invalidData
  | .touch => p.touch

/-- The point's sequence number advances. -/
def Change.happens (p : Point α) : Change α → Bool
  | .write src => p.valid = false ∨ p.data ≠ src
  | .setInvalid => p.valid
  | .touch => true

theorem apply_of_not_happens (p : Point α) (c : Change α) (h : c.happens p = false) :
    c.apply invalidData p = p := by
  cases c with
  | write src =>
      simp only [Change.happens, decide_eq_false_iff_not, not_or, not_not] at h
      simp [Change.apply, Point.write, h.1, h.2]
  | setInvalid =>
      simp only [Change.happens] at h
      simp [Change.apply, Point.setInvalid, h]
  | touch => simp [Change.happens] at h

theorem seqNum_apply_of_happens (p : Point α) (c : Change α) (h : c.happens p = true) :
    (c.apply invalidData p).seqNum = advanceSequenceNumber p.seqNum := by
  cases c with
  | write src =>
      simp only [Change.happens, decide_eq_true_eq] at h
      rw [Change.apply, Point.write, if_pos]
      rcases h with hvalid | hdata
      · exact .inl hvalid
      · exact .inr (by simpa using hdata)
  | setInvalid =>
      simp only [Change.happens] at h
      simp [Change.apply, Point.setInvalid, h]
  | touch => rfl

end Change

/-- A configuration point with the number of its changes since `OperatingMode` last
looked at its sequence number. -/
structure Tracked (α : Type) where
  point : Point α
  changes : Nat

def Tracked.apply {α : Type} [DecidableEq α] (invalidData : α) (t : Tracked α) (c : Change α) :
    Tracked α :=
  { point := c.apply invalidData t.point
    changes := if c.happens t.point then t.changes + 1 else t.changes }

/-- The component and the points it takes its configuration from. -/
structure World where
  om : State
  comfort : Tracked ComfortConfig
  equipment : Tracked EquipmentConfig

/-- The other points that an execution reads. -/
structure Readings where
  idt : Option ℚ
  userMode : Option ThermostatMode
  setpoints : Option (ℚ × ℚ)
  systemOn : Option Bool
  systemBeginOffTime : Option Precision
  currentInterval : Precision

def World.inputs (w : World) (r : Readings) : Inputs :=
  { idt := r.idt
    userMode := r.userMode
    setpoints := r.setpoints
    systemOn := r.systemOn
    systemBeginOffTime := r.systemBeginOffTime
    comfortConfig := w.comfort.point
    equipmentConfig := w.equipment.point
    currentInterval := r.currentInterval }

/-- The state in which `execute()` reads the forced off count. -/
def alarmed (s : State) (v : ValidInputs) : State :=
  setNoActiveConditioningAlarm { s with operatingModeChanged := false }
    (noActiveConditioning v.equipmentConfig)

/-- `execute()` takes the branch of AUTO that keeps the mode. -/
def keepsAuto (s : State) (ins : Inputs) : Bool :=
  match ins.valid with
  | none => false
  | some v =>
      (alarmed s v).systemForcedOffRefCnt.read.getD 1 = 0 ∧
        (correctUserMode v.userMode (allowedModes v.equipmentConfig)).1 = .auto ∧
        s.inAuto = true ∧ holdsAuto v ins.currentInterval = true

inductive Step where
  | changeComfort (c : Change ComfortConfig)
  | changeEquipment (c : Change EquipmentConfig)
  | setForcedOff (r : RefCounter)
  | start
  | execute (r : Readings)

/-- `MpComfortConfig::hookSetInvalid()`. -/
def ComfortConfig.default : ComfortConfig :=
  ⟨⟨5 * 60, 5 * 60, .cph3⟩, ⟨5 * 60, 5 * 60, .cph3⟩, ⟨5 * 60, 5 * 60, .cph3⟩⟩

/-- `MpEquipmentConfig::hookSetInvalid()`. -/
def EquipmentConfig.default : EquipmentConfig :=
  ⟨.furnace, .ac, 1, 1, false⟩

/-- The changes are counted from the last execution that looked at the sequence
numbers. -/
def step (w : World) : Step → World
  | .changeComfort c => { w with comfort := w.comfort.apply ComfortConfig.default c }
  | .changeEquipment c => { w with equipment := w.equipment.apply EquipmentConfig.default c }
  | .setForcedOff r => { w with om := { w.om with systemForcedOffRefCnt := r } }
  | .start => { w with om := OperatingMode.start w.om }
  | .execute r =>
      let executed := OperatingMode.execute w.om (w.inputs r)
      if keepsAuto w.om (w.inputs r) then { w with om := executed }
      else
        { om := executed
          comfort := { w.comfort with changes := 0 }
          equipment := { w.equipment with changes := 0 } }

/-- The component and the points as constructed. -/
def World.init : World :=
  { om := State.init
    comfort := ⟨Point.init ComfortConfig.default true, 0⟩
    equipment := ⟨Point.init EquipmentConfig.default true, 0⟩ }

/-- The published point is as constructed or holds a configuration that
`setSystemConfig()` built. -/
def Built (p : Point SystemConfig) : Prop :=
  p.valid = true ∧
    (p.data = SystemConfig.off ∨ ∃ mode equip comfort, p.data = setSystemConfig mode equip comfort)

/-- Writing a configuration publishes it, whatever the comparison says. -/
theorem data_write {p : Point SystemConfig} (h : Built p) (mode : OperatingMode)
    (equip : EquipmentConfig) (comfort : ComfortConfig) :
    (p.write SystemConfig.isDataEqual (setSystemConfig mode equip comfort)).data =
        setSystemConfig mode equip comfort ∧
      (p.write SystemConfig.isDataEqual (setSystemConfig mode equip comfort)).valid = true := by
  rw [Point.write]
  split_ifs with hwrite
  · exact ⟨rfl, rfl⟩
  · rw [not_or, Bool.not_eq_false, Bool.not_eq_false] at hwrite
    refine ⟨?_, h.1⟩
    rcases h.2 with hoff | ⟨mode', equip', comfort', hdata⟩
    · rw [hoff, isDataEqual_off] at hwrite
      exact absurd hwrite.2 (by simp)
    · rw [hdata] at hwrite ⊢
      exact setSystemConfig_eq_of_isDataEqual _ _ _ _ _ _ hwrite.2

/-- The part of the component's state that publishing works with. -/
structure Publishing where
  prevOperatingMode : OperatingMode
  equipCfgSequenceNumber : Nat
  comfortCfgSequenceNumber : Nat
  systemConfig : Point SystemConfig

def publishing (s : State) : Publishing :=
  { prevOperatingMode := s.prevOperatingMode
    equipCfgSequenceNumber := s.equipCfgSequenceNumber
    comfortCfgSequenceNumber := s.comfortCfgSequenceNumber
    systemConfig := s.systemConfig }

/-- The mode that `setNewOperatingMode()` enters. -/
def resolvedMode (newOpMode : OperatingMode) (haveHeatPump : Bool) : OperatingMode :=
  if newOpMode = .heating ∧ haveHeatPump = false then .idHeating else newOpMode

/-- `setNewOperatingMode()` either publishes or finds nothing to do. -/
theorem publishing_setNewOperatingMode (s : State) (ins : Inputs) (mode : OperatingMode)
    (haveHeatPump : Bool) (equip : EquipmentConfig) (comfort : ComfortConfig) :
    (publishing (setNewOperatingMode s ins mode haveHeatPump equip comfort) =
        { prevOperatingMode := resolvedMode mode haveHeatPump
          equipCfgSequenceNumber := ins.equipmentConfig.seqNum
          comfortCfgSequenceNumber := ins.comfortConfig.seqNum
          systemConfig := s.systemConfig.write SystemConfig.isDataEqual
            (setSystemConfig (resolvedMode mode haveHeatPump) equip comfort) }) ∨
      (publishing (setNewOperatingMode s ins mode haveHeatPump equip comfort) = publishing s ∧
        s.prevOperatingMode = resolvedMode mode haveHeatPump ∧
        s.comfortCfgSequenceNumber = ins.comfortConfig.seqNum ∧
        s.equipCfgSequenceNumber = ins.equipmentConfig.seqNum) := by
  simp only [setNewOperatingMode, ← resolvedMode.eq_1]
  by_cases hmode : resolvedMode mode haveHeatPump = s.prevOperatingMode
  · simp only [hmode, ne_eq, not_true_eq_false, if_false, false_or]
    split_ifs with hseq
    · exact .inl rfl
    · rw [not_or, not_not, not_not] at hseq
      exact .inr ⟨rfl, trivial, hseq.1, hseq.2⟩
  · simp only [ne_eq, hmode, not_false_eq_true, if_true, true_or]
    exact .inl rfl

@[simp] theorem publishing_setNoActiveConditioningAlarm (s : State) (alarm : Bool) :
    publishing (setNoActiveConditioningAlarm s alarm) = publishing s := by
  simp only [setNoActiveConditioningAlarm]
  split_ifs <;> rfl

@[simp] theorem inAuto_setNoActiveConditioningAlarm (s : State) (alarm : Bool) :
    (setNoActiveConditioningAlarm s alarm).inAuto = s.inAuto := by
  simp only [setNoActiveConditioningAlarm]
  split_ifs <;> rfl

theorem read_of_valid {ins : Inputs} {v : ValidInputs} (h : ins.valid = some v) :
    ins.equipmentConfig.read = some v.equipmentConfig ∧
      ins.comfortConfig.read = some v.comfortConfig := by
  simp only [Inputs.valid, Option.bind_eq_bind, Option.bind_eq_some_iff] at h
  obtain ⟨_, -, _, -, _, -, _, -, _, -, comfort, hcomfort, equip, hequip, hv⟩ := h
  cases hv
  exact ⟨hequip, hcomfort⟩

/-- In the branch of AUTO that keeps the mode nothing is published. -/
theorem publishing_execute_of_keepsAuto {s : State} {ins : Inputs}
    (h : keepsAuto s ins = true) :
    publishing (execute s ins) = publishing s := by
  simp only [keepsAuto] at h
  cases hvalid : ins.valid with
  | none => simp [hvalid] at h
  | some v =>
      simp only [hvalid, decide_eq_true_eq] at h
      obtain ⟨hcount, hmode, hauto, hholds⟩ := h
      rw [alarmed] at hcount
      have hkeep : (setNoActiveConditioningAlarm { s with operatingModeChanged := false }
          (noActiveConditioning v.equipmentConfig)).inAuto = true := by
        rw [inAuto_setNoActiveConditioningAlarm]
        exact hauto
      simp only [execute, hvalid, convertUserMode]
      rw [if_neg (by omega), hmode]
      simp only
      rw [if_neg (by rw [hkeep]; simp), if_pos hholds]
      exact publishing_setNoActiveConditioningAlarm _ _

theorem publishing_convertUserMode (s : State) (ins : Inputs) (v : ValidInputs)
    (userMode : ThermostatMode) (haveHeatPump : Bool)
    (h : ¬ (userMode = .auto ∧ s.inAuto = true ∧ holdsAuto v ins.currentInterval = true)) :
    ∃ s' mode, publishing s' = publishing s ∧ mode ≠ .unknown ∧
      publishing (convertUserMode s ins v userMode haveHeatPump) =
        publishing (setNewOperatingMode s' ins mode haveHeatPump v.equipmentConfig
          v.comfortConfig) := by
  cases userMode with
  | off => exact ⟨{ s with inAuto := false }, .off, rfl, by simp, rfl⟩
  | cooling => exact ⟨{ s with inAuto := false }, .cooling, rfl, by simp, rfl⟩
  | heating => exact ⟨{ s with inAuto := false }, .heating, rfl, by simp, rfl⟩
  | idHeating => exact ⟨{ s with inAuto := false }, .idHeating, rfl, by simp, rfl⟩
  | auto =>
      simp only [convertUserMode]
      split_ifs with hauto hidt hholds hcool
      · exact ⟨{ s with inAuto := true }, .heating, rfl, by simp, rfl⟩
      · exact ⟨{ s with inAuto := true }, .cooling, rfl, by simp, rfl⟩
      · exact absurd ⟨rfl, by simpa using hauto, hholds⟩ h
      · exact ⟨s, .cooling, rfl, by simp, rfl⟩
      · exact ⟨s, .heating, rfl, by simp, rfl⟩

/-- Otherwise `setNewOperatingMode()` runs with the configurations just read. -/
theorem publishing_execute_of_not_keepsAuto {s : State} {ins : Inputs}
    (h : keepsAuto s ins = false) :
    ∃ s' mode haveHeatPump, publishing s' = publishing s ∧ mode ≠ .unknown ∧
      publishing (execute s ins) =
        publishing (setNewOperatingMode s' ins mode haveHeatPump
          (ins.equipmentConfig.read.getD EquipmentConfig.zero)
          (ins.comfortConfig.read.getD ComfortConfig.zero)) := by
  simp only [keepsAuto] at h
  cases hvalid : ins.valid with
  | none =>
      refine ⟨{ s with operatingModeChanged := false }, .off, false, rfl, by simp, ?_⟩
      simp only [execute, hvalid, publishing_setNoActiveConditioningAlarm]
  | some v =>
      obtain ⟨hequip, hcomfort⟩ := read_of_valid hvalid
      have hpub : publishing (alarmed s v) = publishing s :=
        publishing_setNoActiveConditioningAlarm _ _
      have hauto : (alarmed s v).inAuto = s.inAuto := inAuto_setNoActiveConditioningAlarm _ _
      rw [hequip, hcomfort, Option.getD_some, Option.getD_some]
      simp only [hvalid, decide_eq_false_iff_not] at h
      simp only [execute, hvalid]
      rw [← alarmed]
      split_ifs with hcount
      · exact ⟨alarmed s v, .off, _, hpub, by simp, rfl⟩
      · obtain ⟨s', mode, hs', hmode, hexec⟩ := publishing_convertUserMode
          { alarmed s v with
            userConfigModeAlarm :=
              (correctUserMode v.userMode (allowedModes v.equipmentConfig)).2 }
          ins v (correctUserMode v.userMode (allowedModes v.equipmentConfig)).1
          (allowedModes v.equipmentConfig).haveHeatPump
          fun hkeep => h ⟨by omega, hkeep.1, hauto ▸ hkeep.2.1, hkeep.2.2⟩
        exact ⟨s', mode, _, hs'.trans hpub, hmode, hexec⟩

theorem resolvedMode_ne_unknown {mode : OperatingMode} (h : mode ≠ .unknown)
    (haveHeatPump : Bool) : resolvedMode mode haveHeatPump ≠ .unknown := by
  rw [resolvedMode]
  split_ifs
  · simp
  · exact h

section Follows

variable {α : Type}

/-- The changes of a point are counted from the sequence number `seqNum`, at which it
read as `value`, `default` standing for an invalid point. -/
def Follows (t : Tracked α) (seqNum : Nat) (value default : α) : Prop :=
  IsSequenceNumber seqNum ∧ t.point.seqNum = advanceSequenceNumber^[t.changes] seqNum ∧
    (t.changes = 0 → t.point.read.getD default = value)

theorem follows_apply [DecidableEq α] {t : Tracked α} {seqNum : Nat} {value default : α}
    (h : Follows t seqNum value default) (invalidData : α) (c : Change α) :
    Follows (t.apply invalidData c) seqNum value default := by
  obtain ⟨hseq, hchanges, hvalue⟩ := h
  cases hhappens : c.happens t.point with
  | false =>
      simp only [Tracked.apply, hhappens, apply_of_not_happens invalidData t.point c hhappens]
      exact ⟨hseq, hchanges, hvalue⟩
  | true =>
      simp only [Tracked.apply, hhappens, if_true]
      refine ⟨hseq, ?_, fun hzero => absurd hzero (Nat.succ_ne_zero _)⟩
      rw [seqNum_apply_of_happens invalidData t.point c hhappens, hchanges,
        Function.iterate_succ_apply']

theorem isSequenceNumber_apply [DecidableEq α] {t : Tracked α}
    (h : IsSequenceNumber t.point.seqNum) (invalidData : α) (c : Change α) :
    IsSequenceNumber (t.apply invalidData c).point.seqNum := by
  cases hhappens : c.happens t.point with
  | false =>
      simp only [Tracked.apply, apply_of_not_happens invalidData t.point c hhappens]
      exact h
  | true =>
      simp only [Tracked.apply, seqNum_apply_of_happens invalidData t.point c hhappens]
      exact isSequenceNumber_advance h

theorem follows_reset {t : Tracked α} (h : IsSequenceNumber t.point.seqNum) (default : α) :
    Follows { t with changes := 0 } t.point.seqNum (t.point.read.getD default) default :=
  ⟨h, rfl, fun _ => rfl⟩

theorem dvd_of_follows {t : Tracked α} {seqNum : Nat} {value default : α}
    (h : Follows t seqNum value default) (heq : seqNum = t.point.seqNum) : 65535 ∣ t.changes :=
  dvd_of_iterate_advance_eq h.1 (h.2.1.symm.trans heq.symm)

end Follows

/-- What is published belongs to the mode in force and to the configurations at the
last look. -/
def Entered (w : World) : Prop :=
  ∃ equip comfort,
    w.om.systemConfig.data = setSystemConfig w.om.prevOperatingMode equip comfort ∧
      Follows w.equipment w.om.equipCfgSequenceNumber equip EquipmentConfig.zero ∧
      Follows w.comfort w.om.comfortCfgSequenceNumber comfort ComfortConfig.zero

structure Synced (w : World) : Prop where
  built : Built w.om.systemConfig
  comfortSeq : IsSequenceNumber w.comfort.point.seqNum
  equipmentSeq : IsSequenceNumber w.equipment.point.seqNum
  auto : w.om.inAuto = true → w.om.prevOperatingMode ≠ .unknown
  entered : w.om.prevOperatingMode ≠ .unknown → Entered w

/-- An execution that looks at the sequence numbers is not fooled by whole periods of
them; one that keeps AUTO's mode finds no change since the last look. -/
def Covered (w : World) : Step → Prop
  | .execute r =>
      if keepsAuto w.om (w.inputs r) then w.comfort.changes = 0 ∧ w.equipment.changes = 0
      else
        65535 ∣ w.comfort.changes → 65535 ∣ w.equipment.changes →
          w.comfort.changes = 0 ∧ w.equipment.changes = 0
  | _ => True

instance (w : World) : (st : Step) → Decidable (Covered w st)
  | .changeComfort _ => inferInstanceAs (Decidable True)
  | .changeEquipment _ => inferInstanceAs (Decidable True)
  | .setForcedOff _ => inferInstanceAs (Decidable True)
  | .start => inferInstanceAs (Decidable True)
  | .execute r =>
      inferInstanceAs (Decidable (if keepsAuto w.om (w.inputs r) then _ else _))

/-- The published configuration belongs to the mode in force and to the
configurations just read. -/
def Current (w : World) : Prop :=
  w.om.systemConfig.data = setSystemConfig w.om.prevOperatingMode
    (w.equipment.point.read.getD EquipmentConfig.zero)
    (w.comfort.point.read.getD ComfortConfig.zero)

theorem current_of_entered {w : World} (h : Entered w) (hcomfort : w.comfort.changes = 0)
    (hequipment : w.equipment.changes = 0) : Current w := by
  obtain ⟨equip, comfort, hdata, hequip, hcomf⟩ := h
  rw [Current, hdata, hequip.2.2 hequipment, hcomf.2.2 hcomfort]

/-- What an execution that looks at the sequence numbers leaves behind. -/
theorem publishing_execute {w : World} (h : Synced w) (r : Readings)
    (hkeep : keepsAuto w.om (w.inputs r) = false) (hcovered : Covered w (.execute r)) :
    let s := execute w.om (w.inputs r)
    s.prevOperatingMode ≠ .unknown ∧
      s.comfortCfgSequenceNumber = w.comfort.point.seqNum ∧
      s.equipCfgSequenceNumber = w.equipment.point.seqNum ∧
      s.systemConfig.valid = true ∧
      s.systemConfig.data = setSystemConfig s.prevOperatingMode
        (w.equipment.point.read.getD EquipmentConfig.zero)
        (w.comfort.point.read.getD ComfortConfig.zero) := by
  obtain ⟨s', mode, hp, hpub, hmode, hexec⟩ := publishing_execute_of_not_keepsAuto hkeep
  have hresolved := resolvedMode_ne_unknown hmode hp
  have hconfig : s'.systemConfig = w.om.systemConfig := congrArg Publishing.systemConfig hpub
  rw [Covered, if_neg (by simp [hkeep])] at hcovered
  rcases publishing_setNewOperatingMode s' (w.inputs r) mode hp
      (w.equipment.point.read.getD EquipmentConfig.zero)
      (w.comfort.point.read.getD ComfortConfig.zero) with hwrite | ⟨hsame, hprev, hcomf, hequip⟩
  · have hall := hexec.trans hwrite
    have hmode' : (execute w.om (w.inputs r)).prevOperatingMode = resolvedMode mode hp :=
      congrArg Publishing.prevOperatingMode hall
    obtain ⟨hdata, hvalid⟩ := data_write (hconfig ▸ h.built) (resolvedMode mode hp)
      (w.equipment.point.read.getD EquipmentConfig.zero)
      (w.comfort.point.read.getD ComfortConfig.zero)
    have hpublished := congrArg Publishing.systemConfig hall
    simp only [publishing] at hpublished
    simp only [hmode', hpublished]
    exact ⟨hresolved, congrArg Publishing.comfortCfgSequenceNumber hall,
      congrArg Publishing.equipCfgSequenceNumber hall, hvalid, hdata⟩
  · have hall := (hexec.trans hsame).trans hpub
    have hprev' : w.om.prevOperatingMode = resolvedMode mode hp :=
      (congrArg Publishing.prevOperatingMode hpub).symm.trans hprev
    have hcomf' : w.om.comfortCfgSequenceNumber = w.comfort.point.seqNum :=
      (congrArg Publishing.comfortCfgSequenceNumber hpub).symm.trans hcomf
    have hequip' : w.om.equipCfgSequenceNumber = w.equipment.point.seqNum :=
      (congrArg Publishing.equipCfgSequenceNumber hpub).symm.trans hequip
    have hentered := h.entered (by rw [hprev']; exact hresolved)
    obtain ⟨hczero, hezero⟩ : w.comfort.changes = 0 ∧ w.equipment.changes = 0 := by
      obtain ⟨_, _, -, hfollowsE, hfollowsC⟩ := hentered
      exact hcovered (dvd_of_follows hfollowsC hcomf') (dvd_of_follows hfollowsE hequip')
    have hcurrent := current_of_entered hentered hczero hezero
    have hmode' : (execute w.om (w.inputs r)).prevOperatingMode = w.om.prevOperatingMode :=
      congrArg Publishing.prevOperatingMode hall
    have hpublished : (execute w.om (w.inputs r)).systemConfig = w.om.systemConfig :=
      congrArg Publishing.systemConfig hall
    simp only [hmode', hpublished]
    exact ⟨by rw [hprev']; exact hresolved,
      (congrArg Publishing.comfortCfgSequenceNumber hall).trans hcomf',
      (congrArg Publishing.equipCfgSequenceNumber hall).trans hequip', h.built.1, hcurrent⟩

theorem synced_execute {w : World} (h : Synced w) (r : Readings)
    (hcovered : Covered w (.execute r)) :
    Synced (step w (.execute r)) ∧ Current (step w (.execute r)) := by
  cases hkeep : keepsAuto w.om (w.inputs r) with
  | true =>
      have hpub := publishing_execute_of_keepsAuto hkeep
      have hauto : w.om.inAuto = true := by
        simp only [keepsAuto] at hkeep
        split at hkeep
        · simp at hkeep
        · exact (of_decide_eq_true hkeep).2.2.1
      rw [Covered, if_pos hkeep] at hcovered
      have hprev : (execute w.om (w.inputs r)).prevOperatingMode = w.om.prevOperatingMode :=
        congrArg Publishing.prevOperatingMode hpub
      have hconfig : (execute w.om (w.inputs r)).systemConfig = w.om.systemConfig :=
        congrArg Publishing.systemConfig hpub
      have hcomf : (execute w.om (w.inputs r)).comfortCfgSequenceNumber =
          w.om.comfortCfgSequenceNumber := congrArg Publishing.comfortCfgSequenceNumber hpub
      have hequip : (execute w.om (w.inputs r)).equipCfgSequenceNumber =
          w.om.equipCfgSequenceNumber := congrArg Publishing.equipCfgSequenceNumber hpub
      have hentered := h.entered (h.auto hauto)
      have hentered' : Entered (step w (.execute r)) := by
        simp only [step, hkeep, if_true, Entered, hprev, hconfig, hcomf, hequip]
        exact hentered
      have hsynced : Synced (step w (.execute r)) := by
        refine ⟨?_, ?_, ?_, fun _ => ?_, fun _ => hentered'⟩
        · simp only [step, hkeep, if_true, hconfig]
          exact h.built
        · simp only [step, hkeep, if_true]
          exact h.comfortSeq
        · simp only [step, hkeep, if_true]
          exact h.equipmentSeq
        · simp only [step, hkeep, if_true, hprev]
          exact h.auto hauto
      refine ⟨hsynced, current_of_entered hentered' ?_ ?_⟩
      · simp only [step, hkeep, if_true]
        exact hcovered.1
      · simp only [step, hkeep, if_true]
        exact hcovered.2
  | false =>
      obtain ⟨hmode, hcomf, hequip, hvalid, hdata⟩ := publishing_execute h r hkeep hcovered
      have hcurrent : Current (step w (.execute r)) := by
        simp only [step, hkeep, Current]
        exact hdata
      refine ⟨⟨?_, ?_, ?_, fun _ => ?_, fun _ => ⟨_, _, hcurrent, ?_, ?_⟩⟩, hcurrent⟩
      · simp only [step, hkeep]
        exact ⟨hvalid, .inr ⟨_, _, _, hdata⟩⟩
      · simp only [step, hkeep]
        exact h.comfortSeq
      · simp only [step, hkeep]
        exact h.equipmentSeq
      · simp only [step, hkeep]
        exact hmode
      · simp only [step, hkeep, Bool.false_eq_true, if_false, hequip]
        exact follows_reset h.equipmentSeq _
      · simp only [step, hkeep, Bool.false_eq_true, if_false, hcomf]
        exact follows_reset h.comfortSeq _

theorem synced_step {w : World} (h : Synced w) (st : Step) (hst : Covered w st) :
    Synced (step w st) := by
  cases st with
  | changeComfort c =>
      refine ⟨h.built, isSequenceNumber_apply h.comfortSeq _ c, h.equipmentSeq, h.auto,
        fun hmode => ?_⟩
      obtain ⟨equip, comfort, hdata, hequip, hcomf⟩ := h.entered hmode
      exact ⟨equip, comfort, hdata, hequip, follows_apply hcomf _ c⟩
  | changeEquipment c =>
      refine ⟨h.built, h.comfortSeq, isSequenceNumber_apply h.equipmentSeq _ c, h.auto,
        fun hmode => ?_⟩
      obtain ⟨equip, comfort, hdata, hequip, hcomf⟩ := h.entered hmode
      exact ⟨equip, comfort, hdata, follows_apply hequip _ c, hcomf⟩
  | setForcedOff r => exact ⟨h.built, h.comfortSeq, h.equipmentSeq, h.auto, h.entered⟩
  | start =>
      exact ⟨h.built, h.comfortSeq, h.equipmentSeq,
        fun hauto => absurd hauto (by simp [step, start]),
        fun hmode => absurd rfl hmode⟩
  | execute r => exact (synced_execute h r hst).1

/-- All steps of a run are covered. -/
def AllCovered : World → List Step → Prop
  | _, [] => True
  | w, st :: steps => Covered w st ∧ AllCovered (step w st) steps

instance : (w : World) → (steps : List Step) → Decidable (AllCovered w steps)
  | _, [] => inferInstanceAs (Decidable True)
  | w, st :: steps =>
      have := instDecidableAllCovered (step w st) steps
      inferInstanceAs (Decidable (Covered w st ∧ AllCovered (step w st) steps))

theorem synced_foldl {w : World} (h : Synced w) (steps : List Step) (last : Step)
    (hsteps : AllCovered w (steps ++ [last])) :
    Synced (steps.foldl step w) ∧ Covered (steps.foldl step w) last := by
  induction steps generalizing w with
  | nil => exact ⟨h, hsteps.1⟩
  | cons st steps ih => exact ih (synced_step h st hsteps.1) hsteps.2

/-- The world after a sequence of steps. -/
def run (steps : List Step) : World :=
  steps.foldl step World.init

theorem synced_init : Synced World.init :=
  ⟨⟨rfl, .inl rfl⟩, ⟨by decide, by decide⟩, ⟨by decide, by decide⟩,
    fun hauto => absurd hauto (by decide), fun hmode => absurd rfl hmode⟩

/-- After every execution with valid inputs, what is published is the configuration of
the mode in force for the configurations just read. -/
theorem published_current (steps : List Step) (r : Readings) (v : ValidInputs)
    (h : AllCovered World.init (steps ++ [.execute r]))
    (hvalid : ((run steps).inputs r).valid = some v) :
    (run (steps ++ [.execute r])).om.systemConfig.data =
      setSystemConfig (run (steps ++ [.execute r])).om.prevOperatingMode v.equipmentConfig
        v.comfortConfig := by
  obtain ⟨hsynced, hcovered⟩ := synced_foldl synced_init steps (.execute r) h
  obtain ⟨hequip, hcomfort⟩ := read_of_valid hvalid
  simp only [World.inputs] at hequip hcomfort
  have hcurrent := (synced_execute hsynced r hcovered).2
  have hpoints : (step (run steps) (.execute r)).comfort.point = (run steps).comfort.point ∧
      (step (run steps) (.execute r)).equipment.point = (run steps).equipment.point := by
    rw [step]
    split_ifs <;> exact ⟨rfl, rfl⟩
  rw [run, List.foldl_append, List.foldl_cons, List.foldl_nil, ← run]
  rw [Current, ← run, hpoints.1, hpoints.2, hequip, hcomfort] at hcurrent
  exact hcurrent

/-- The user's mode is AUTO in a room that is too warm. -/
def warmRoom (systemOn : Bool) : Readings :=
  { idt := some 80
    userMode := some .auto
    setpoints := some (75, 70)
    systemOn := some systemOn
    systemBeginOffTime := some ⟨0, 0⟩
    currentInterval := ⟨700, 0⟩ }

/-- A comfort configuration other than the default. -/
def slowComfort : ComfortConfig :=
  ⟨⟨10 * 60, 10 * 60, .cph2⟩, ⟨5 * 60, 5 * 60, .cph3⟩, ⟨5 * 60, 5 * 60, .cph3⟩⟩

/-- A change that AUTO finds with the system off for long enough. -/
theorem published_current_system_off :
    (run [.start, .execute (warmRoom false), .changeComfort (.write slowComfort),
        .execute (warmRoom false)]).om.systemConfig.data =
      setSystemConfig
        (run [.start, .execute (warmRoom false), .changeComfort (.write slowComfort),
          .execute (warmRoom false)]).om.prevOperatingMode
        EquipmentConfig.default slowComfort :=
  published_current [.start, .execute (warmRoom false), .changeComfort (.write slowComfort)]
    (warmRoom false) ⟨80, .auto, 75, 70, false, ⟨0, 0⟩, slowComfort, EquipmentConfig.default⟩
    (by decide) rfl

/-- With the system on AUTO keeps publishing the configuration before the change. -/
theorem published_current_fails_system_on :
    ((run [.start, .execute (warmRoom false), .changeComfort (.write slowComfort)]).inputs
        (warmRoom true)).valid =
      some ⟨80, .auto, 75, 70, true, ⟨0, 0⟩, slowComfort, EquipmentConfig.default⟩ ∧
    (run [.start, .execute (warmRoom false), .changeComfort (.write slowComfort),
        .execute (warmRoom true)]).om.prevOperatingMode = .cooling ∧
    (run [.start, .execute (warmRoom false), .changeComfort (.write slowComfort),
        .execute (warmRoom true)]).om.systemConfig.data ≠
      setSystemConfig .cooling EquipmentConfig.default slowComfort :=
  ⟨rfl, by decide, by with_unfolding_all decide⟩

end ColonyPico.Storm.PublishedConfig
