import ColonyPico.Storm.IdtSelection
import ColonyPico.Storm.OperatingMode

/-!
The forced off count that `OperatingMode` and `IdtSelection` share.
-/

namespace ColonyPico.Storm.ForcedOff

open ColonyPico.Dm.ModelPoint

/-- Both components. `omFound` and `idtFound` record whether the component's most
recent execution found a force off condition. -/
structure System where
  om : OperatingMode.State
  idt : IdtSelection.State
  omStarted : Bool
  idtStarted : Bool
  omFound : Bool
  idtFound : Bool

def System.init : System :=
  { om := OperatingMode.State.init
    idt := IdtSelection.State.init
    omStarted := false
    idtStarted := false
    omFound := false
    idtFound := false }

/-- Bad inputs or no active conditioning. -/
def omForces (ins : OperatingMode.Inputs) : Bool :=
  match ins.valid with
  | none => true
  | some v => OperatingMode.noActiveConditioning v.equipmentConfig

inductive Call where
  | omStart
  | omStop
  | omExecute (ins : OperatingMode.Inputs)
  | idtStart
  | idtStop
  | idtExecute (ins : IdtSelection.Inputs)

/-- A component that is not started does not execute. -/
def step (s : System) : Call → System
  | .omStart => { s with om := OperatingMode.start s.om, omStarted := true }
  | .omStop => { s with omStarted := false }
  | .omExecute ins =>
      if s.omStarted then
        { s with om := OperatingMode.execute s.om ins, omFound := omForces ins }
      else s
  | .idtStart => { s with idt := IdtSelection.start s.idt, idtStarted := true }
  | .idtStop => { s with idtStarted := false }
  | .idtExecute ins =>
      if s.idtStarted then
        let executed := IdtSelection.execute s.idt ins s.om.systemForcedOffRefCnt
        { s with
          idt := executed.1
          om := { s.om with systemForcedOffRefCnt := executed.2 }
          idtFound := ins.isCritical }
      else s

/-- How a component keeps the count: an increment on the rising edge of its
condition, a decrement on the falling one. -/
def countEdge (flag found : Bool) (r : RefCounter) : RefCounter :=
  if found = true ∧ flag = false then r.increment
  else if found = false ∧ flag = true then r.decrement
  else r

theorem setNewOperatingMode_forcedOff (s : OperatingMode.State) (ins : OperatingMode.Inputs)
    (mode : Config.OperatingMode) (haveHeatPump : Bool) (equip : Config.EquipmentConfig)
    (comfort : Config.ComfortConfig) :
    (OperatingMode.setNewOperatingMode s ins mode haveHeatPump equip comfort).forcedOff =
        s.forcedOff ∧
      (OperatingMode.setNewOperatingMode s ins mode haveHeatPump equip
        comfort).systemForcedOffRefCnt = s.systemForcedOffRefCnt := by
  simp only [OperatingMode.setNewOperatingMode]
  split_ifs <;> exact ⟨rfl, rfl⟩

theorem convertUserMode_forcedOff (s : OperatingMode.State) (ins : OperatingMode.Inputs)
    (v : OperatingMode.ValidInputs) (userMode : Config.ThermostatMode) (haveHeatPump : Bool) :
    (OperatingMode.convertUserMode s ins v userMode haveHeatPump).forcedOff = s.forcedOff ∧
      (OperatingMode.convertUserMode s ins v userMode haveHeatPump).systemForcedOffRefCnt =
        s.systemForcedOffRefCnt := by
  cases userMode with
  | auto =>
      simp only [OperatingMode.convertUserMode]
      split_ifs <;> first | exact ⟨rfl, rfl⟩ | exact setNewOperatingMode_forcedOff _ _ _ _ _ _
  | off | cooling | heating | idHeating => exact setNewOperatingMode_forcedOff _ _ _ _ _ _

theorem setNoActiveConditioningAlarm_forcedOff (s : OperatingMode.State) (alarm : Bool) :
    (OperatingMode.setNoActiveConditioningAlarm s alarm).forcedOff = alarm ∧
      (OperatingMode.setNoActiveConditioningAlarm s alarm).systemForcedOffRefCnt =
        countEdge s.forcedOff alarm s.systemForcedOffRefCnt := by
  cases alarm <;> cases hflag : s.forcedOff <;>
    simp [OperatingMode.setNoActiveConditioningAlarm, countEdge, hflag]

/-- Executing `OperatingMode` leaves its flag at what it found, and moves the count on
the edge. -/
theorem execute_forcedOff (s : OperatingMode.State) (ins : OperatingMode.Inputs) :
    (OperatingMode.execute s ins).forcedOff = omForces ins ∧
      (OperatingMode.execute s ins).systemForcedOffRefCnt =
        countEdge s.forcedOff (omForces ins) s.systemForcedOffRefCnt := by
  simp only [OperatingMode.execute, omForces]
  cases ins.valid with
  | none =>
      obtain ⟨hflag, hcount⟩ := setNewOperatingMode_forcedOff
        { s with operatingModeChanged := false } ins .off false
        (ins.equipmentConfig.read.getD Config.EquipmentConfig.zero)
        (ins.comfortConfig.read.getD Config.ComfortConfig.zero)
      refine ⟨(setNoActiveConditioningAlarm_forcedOff _ _).1, ?_⟩
      simp only
      rw [(setNoActiveConditioningAlarm_forcedOff _ _).2, hflag, hcount]
  | some v =>
      obtain ⟨hflag, hcount⟩ := setNoActiveConditioningAlarm_forcedOff
        { s with operatingModeChanged := false }
        (OperatingMode.noActiveConditioning v.equipmentConfig)
      simp only
      split_ifs
      · rw [(setNewOperatingMode_forcedOff _ _ _ _ _ _).1,
          (setNewOperatingMode_forcedOff _ _ _ _ _ _).2]
        exact ⟨hflag, hcount⟩
      · rw [(convertUserMode_forcedOff _ _ _ _ _).1, (convertUserMode_forcedOff _ _ _ _ _).2]
        exact ⟨hflag, hcount⟩

theorem idtExecute_critical (s : IdtSelection.State) (ins : IdtSelection.Inputs)
    (r : RefCounter) :
    (IdtSelection.execute s ins r).1.critical = ins.isCritical ∧
      (IdtSelection.execute s ins r).2 = countEdge s.critical ins.isCritical r := by
  simp only [IdtSelection.execute, countEdge]
  cases hfound : ins.isCritical <;> cases hflag : s.critical <;> simp

/-- The flags are what the last executions found, and the count is their number. -/
structure Balanced (s : System) : Prop where
  om : s.om.forcedOff = s.omFound
  idt : s.idt.critical = s.idtFound
  count : s.om.systemForcedOffRefCnt = ⟨s.omFound.toNat + s.idtFound.toNat, true⟩

theorem countEdge_left (flag found other : Bool) :
    countEdge flag found ⟨flag.toNat + other.toNat, true⟩ =
      ⟨found.toNat + other.toNat, true⟩ := by
  cases flag <;> cases found <;> cases other <;> rfl

theorem countEdge_right (flag found other : Bool) :
    countEdge flag found ⟨other.toNat + flag.toNat, true⟩ =
      ⟨other.toNat + found.toNat, true⟩ := by
  cases flag <;> cases found <;> cases other <;> rfl

/-- A call that does not clear the critical flag of `IdtSelection` behind the count's
back. -/
def Covered (s : System) : Call → Prop
  | .idtStart => s.idt.critical = false
  | _ => True

theorem balanced_step {s : System} (h : Balanced s) (call : Call) (hcall : Covered s call) :
    Balanced (step s call) := by
  obtain ⟨hom, hidt, hcount⟩ := h
  cases call with
  | omStart => exact ⟨hom, hidt, hcount⟩
  | omStop => exact ⟨hom, hidt, hcount⟩
  | idtStop => exact ⟨hom, hidt, hcount⟩
  | idtStart => exact ⟨hom, hcall.symm.trans hidt, hcount⟩
  | omExecute ins =>
      rw [step]
      split_ifs
      · obtain ⟨hflag, hedge⟩ := execute_forcedOff s.om ins
        refine ⟨hflag, hidt, ?_⟩
        rw [hedge, hcount, hom]
        exact countEdge_left _ _ _
      · exact ⟨hom, hidt, hcount⟩
  | idtExecute ins =>
      rw [step]
      split_ifs
      · obtain ⟨hflag, hedge⟩ := idtExecute_critical s.idt ins s.om.systemForcedOffRefCnt
        refine ⟨hom, hflag, ?_⟩
        simp only [hedge]
        rw [hcount, hidt]
        exact countEdge_right _ _ _
      · exact ⟨hom, hidt, hcount⟩

/-- All calls of a run are covered. -/
def AllCovered : System → List Call → Prop
  | _, [] => True
  | s, call :: calls => Covered s call ∧ AllCovered (step s call) calls

theorem balanced_foldl {s : System} (h : Balanced s) (calls : List Call)
    (hcalls : AllCovered s calls) : Balanced (calls.foldl step s) := by
  induction calls generalizing s with
  | nil => exact h
  | cons call calls ih => exact ih (balanced_step h call hcalls.1) hcalls.2

/-- The state after a sequence of calls. -/
def run (calls : List Call) : System :=
  calls.foldl step System.init

/-- The count is the number of components whose last execution found a force off
condition, and so zero once both have cleared. -/
theorem count_conserved (calls : List Call) (h : AllCovered System.init calls) :
    (run calls).om.systemForcedOffRefCnt.count =
        (run calls).omFound.toNat + (run calls).idtFound.toNat ∧
      ((run calls).omFound = false → (run calls).idtFound = false →
        (run calls).om.systemForcedOffRefCnt.read = some 0) := by
  have hbalanced := balanced_foldl (s := System.init) ⟨rfl, rfl, rfl⟩ calls h
  refine ⟨by rw [run, hbalanced.count], fun hom hidt => ?_⟩
  rw [run] at hom hidt ⊢
  rw [hbalanced.count, hom, hidt]
  rfl

/-- No sensor at all. -/
def noSensor : IdtSelection.Inputs := ⟨none, none, none⟩

/-- A primary sensor at 70 degrees. -/
def goodSensor : IdtSelection.Inputs := ⟨some 70, none, none⟩

/-- A critical alarm that clears while the component keeps running. -/
theorem count_conserved_sensor_returns :
    (run [.idtStart, .idtExecute noSensor, .idtExecute goodSensor]).om.systemForcedOffRefCnt.read =
      some 0 :=
  (count_conserved [.idtStart, .idtExecute noSensor, .idtExecute goodSensor]
    ⟨rfl, trivial, trivial, trivial⟩).2 rfl rfl

/-- Restarting `IdtSelection` during a critical alarm loses the decrement. -/
theorem count_conserved_fails_restart :
    (run [.idtStart, .idtExecute noSensor, .idtStart, .idtExecute goodSensor]).omFound = false ∧
      (run [.idtStart, .idtExecute noSensor, .idtStart,
        .idtExecute goodSensor]).idtFound = false ∧
      (run [.idtStart, .idtExecute noSensor, .idtStart,
        .idtExecute goodSensor]).om.systemForcedOffRefCnt.count = 1 :=
  ⟨rfl, rfl, rfl⟩

end ColonyPico.Storm.ForcedOff
