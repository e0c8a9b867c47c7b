import ColonyPico.Storm.RelayTimes
import ColonyPico.Storm.ShortCycle

/-!
Cooling and heating exclude each other: what a stage does to the outputs of the other equipment, and
what a pass of the thermostat leaves of both.
-/

namespace ColonyPico.Storm.Interlock

open Config DutyCycle EquipmentControl StageFsm ThermostatPass
open StageRuns (stage_update_self stage_update_of_ne drain_nil drain_cons processEvent_timed)
open ShortCycle (executeControls_some executeControls_invalid off_pass)

/-- The stage drives the compressor. -/
def StageKind.cools : StageKind → Bool
  | .cooling => true
  | .indoorHeat _ => false

/-- The outputs of the equipment that stages of the one kind have nothing to do with. -/
def otherStages (cools : Bool) (v : VirtualOutputs) : Nat → Nat :=
  if cools then v.indoorStages else v.outdoorStages

/-- All stages are of one equipment. -/
def Uniform {ι : Type} (cools : Bool) (m : Machine ι) : Prop :=
  ∀ j, StageKind.cools (m.stage j).kind = cools

section Frame

variable {ι : Type} {cools : Bool} {m m' m'' : Machine ι}

/-- Stages of one equipment stay so, and leave the outputs of the other one. -/
def Leaves (cools : Bool) (m m' : Machine ι) : Prop :=
  Uniform cools m →
    Uniform cools m' ∧ otherStages cools m'.args.vOutputs = otherStages cools m.args.vOutputs

theorem Leaves.refl (m : Machine ι) : Leaves cools m m :=
  fun h => ⟨h, rfl⟩

theorem Leaves.trans (h : Leaves cools m m') (h' : Leaves cools m' m'') : Leaves cools m m'' := by
  intro huniform
  obtain ⟨huniform', hsame⟩ := h huniform
  obtain ⟨huniform'', hsame'⟩ := h' huniform'
  exact ⟨huniform'', hsame'.trans hsame⟩

theorem leaves_of_stage (hstage : m'.stage = m.stage)
    (hsame : otherStages cools m'.args.vOutputs = otherStages cools m.args.vOutputs) :
    Leaves cools m m' := by
  intro huniform
  refine ⟨fun j => ?_, hsame⟩
  rw [hstage]
  exact huniform j

theorem leaves_assert (m : Machine ι) (b : Bool) : Leaves cools m (m.assert b) :=
  leaves_of_stage rfl rfl

theorem otherStages_setStage (v : VirtualOutputs) {kind : StageKind}
    (hkind : StageKind.cools kind = cools) (systemIndex outIndex : Nat) (on : Bool) :
    otherStages cools (v.setStage kind systemIndex outIndex on) = otherStages cools v := by
  subst hkind
  cases kind with
  | cooling => rfl
  | indoorHeat controlFan => rfl

theorem leaves_setStage (m : Machine ι) (i : ι) (on : Bool) :
    Leaves cools m (setStage m i on) := by
  intro huniform
  exact ⟨huniform, otherStages_setStage _ (huniform i) _ _ _⟩

theorem leaves_shutdownStage (m : Machine ι) (i : ι) : Leaves cools m (shutdownStage m i) := by
  rw [shutdownStage]
  split_ifs
  · exact (leaves_setStage _ i false).trans (leaves_of_stage rfl rfl)
  · exact leaves_setStage _ i false

theorem leaves_initializeActive (m : Machine ι) (i : ι) :
    Leaves cools m (initializeActive m i) := by
  rw [initializeActive]
  refine (leaves_setStage m i false).trans ?_
  cases (m.stage i).kind with
  | cooling =>
      split_ifs
      · exact leaves_of_stage rfl rfl
      · exact leaves_of_stage rfl rfl
  | indoorHeat controlFan =>
      split_ifs
      · exact leaves_of_stage rfl rfl
      · exact Leaves.refl _

variable [DecidableEq ι]

theorem leaves_update (m : Machine ι) (i : ι) {f : StageFsm.Stage ι → StageFsm.Stage ι}
    (hkind : (f (m.stage i)).kind = (m.stage i).kind) : Leaves cools m (m.update i f) := by
  intro huniform
  refine ⟨fun j => ?_, rfl⟩
  rcases eq_or_ne j i with rfl | hne
  · rw [stage_update_self, hkind]
    exact huniform j
  · rw [stage_update_of_ne m hne]
    exact huniform j

theorem leaves_setState (m : Machine ι) (i : ι) (state : State) :
    Leaves cools m (m.setState i state) :=
  leaves_update m i rfl

theorem leaves_initializeStage (m : Machine ι) (i : ι) : Leaves cools m (initializeStage m i) :=
  leaves_update m i rfl

section Events

variable (conv : ToUInt32) {g : Machine ι → ι → Event → Machine ι}
  (hg : ∀ m i msg, Leaves cools m (g m i msg))

include hg

omit [DecidableEq ι] in
theorem leaves_checkTime (m : Machine ι) (i : ι) (on : Bool) :
    Leaves cools m (checkTime conv g m i on) := by
  simp only [checkTime]
  split_ifs
  · refine Leaves.trans ?_ (hg _ i _)
    exact leaves_of_stage rfl rfl
  · exact leaves_of_stage rfl rfl
  · refine Leaves.trans ?_ (hg _ i _)
    exact leaves_of_stage rfl rfl
  · exact leaves_of_stage rfl rfl
  · exact leaves_of_stage rfl rfl

omit [DecidableEq ι] in
theorem leaves_startingStage (m : Machine ι) (i : ι) (on : Bool) :
    Leaves cools m (startingStage conv g m i on) := by
  simp only [startingStage]
  refine Leaves.trans ?_ ((leaves_checkTime conv hg _ i on).trans (hg _ i _))
  split_ifs
  · exact (leaves_setStage m i on).trans (leaves_of_stage rfl rfl)
  · exact (leaves_setStage m i on).trans (leaves_of_stage rfl rfl)

theorem leaves_enterCycle (m : Machine ι) (i : ι) (on : Bool) :
    Leaves cools m (enterCycle conv g m i on) := by
  refine Leaves.trans ?_ ((leaves_startingStage conv hg _ i on).trans (leaves_setState _ i _))
  exact (leaves_assert m _).trans (leaves_update _ i rfl)

theorem leaves_enterSupplementing (m : Machine ι) (i : ι) :
    Leaves cools m (enterSupplementing g m i) := by
  cases hnext : (m.stage i).nextStage with
  | none =>
      simp only [enterSupplementing, hnext]
      refine Leaves.trans ?_ (leaves_setStage _ i true)
      exact leaves_of_stage rfl rfl
  | some next =>
      simp only [enterSupplementing, hnext]
      refine Leaves.trans ?_ (leaves_setStage _ i true)
      refine Leaves.trans ?_ ((leaves_update _ next rfl).trans (hg _ next _))
      exact leaves_of_stage rfl rfl

theorem leaves_notifyLowerStage (m : Machine ι) (i : ι) :
    Leaves cools m (notifyLowerStage g m i) := by
  cases hprev : (m.stage i).prevStage with
  | none =>
      simp only [notifyLowerStage, hprev]
      refine Leaves.trans ?_ (leaves_update _ i rfl)
      exact leaves_of_stage rfl rfl
  | some previous =>
      simp only [notifyLowerStage, hprev]
      refine Leaves.trans ?_ (leaves_update _ i rfl)
      refine Leaves.trans ?_ ((leaves_update _ previous rfl).trans (hg _ previous _))
      exact leaves_of_stage rfl rfl

omit hg in
theorem leaves_activeEvent (m : Machine ι) (i : ι) (msg : Event) :
    Leaves cools m (activeEvent m i msg) := by
  rw [activeEvent]
  split_ifs
  · exact (leaves_initializeStage m i).trans (leaves_setState _ i _)
  · exact Leaves.refl m

theorem leaves_cyclingEvent (m : Machine ι) (i : ι) (msg : Event) :
    Leaves cools m (cyclingEvent g m i msg) := by
  rw [cyclingEvent]
  split_ifs
  · exact (hg m i _).trans (leaves_setState _ i _)
  · exact (leaves_shutdownStage m i).trans (leaves_setState _ i _)
  · exact (leaves_enterSupplementing hg m i).trans (leaves_setState _ i _)
  · exact leaves_activeEvent m i msg

theorem leaves_processEvent (m : Machine ι) (i : ι) (msg : Event) :
    Leaves cools m (processEvent conv g m i msg) := by
  cases hstate : (m.stage i).state with
  | off =>
      simp only [processEvent, hstate]
      split_ifs
      · exact (hg m i _).trans (leaves_setState _ i _)
      · exact (leaves_initializeActive m i).trans (leaves_enterCycle conv hg _ i _)
      · exact Leaves.refl m
  | starting on =>
      simp only [processEvent, hstate]
      split_ifs
      · exact (leaves_setStage m i on).trans (leaves_setState _ i _)
      · exact leaves_enterCycle conv hg m i _
      · exact leaves_cyclingEvent hg m i msg
  | timed on =>
      rw [processEvent_timed conv g m i on msg hstate]
      split_ifs
      · exact (leaves_checkTime conv hg m i on).trans (leaves_enterCycle conv hg _ i _)
      · exact (leaves_checkTime conv hg m i on).trans (leaves_cyclingEvent hg _ i msg)
  | transitioningFromLowerStage =>
      simp only [processEvent, hstate]
      split_ifs
      · exact leaves_enterCycle conv hg m i _
      · exact leaves_activeEvent m i msg
  | transitioningBackToLowerStage =>
      simp only [processEvent, hstate]
      split_ifs
      · exact ((leaves_notifyLowerStage hg m i).trans (leaves_shutdownStage _ i)).trans
          (leaves_setState _ i _)
      · exact leaves_activeEvent m i msg
  | supplementingNextStage =>
      simp only [processEvent, hstate]
      split_ifs
      · exact leaves_enterCycle conv hg m i _
      · exact (leaves_initializeStage m i).trans (leaves_setState _ i _)
      · exact Leaves.refl m

end Events

theorem leaves_generateWith {d : Machine ι → ι → Machine ι} (hd : ∀ m i, Leaves cools m (d m i))
    (m : Machine ι) (i : ι) (msg : Event) : Leaves cools m (generateWith d m i msg) := by
  rw [generateWith]
  split_ifs
  · exact leaves_update m i rfl
  · exact ((leaves_update m i rfl).trans (leaves_update _ i rfl)).trans (hd _ i)
  · exact leaves_of_stage rfl rfl
  · refine Leaves.trans ?_ ((leaves_update _ i rfl).trans (hd _ i))
    exact leaves_of_stage rfl rfl

variable (conv : ToUInt32)

theorem leaves_drain (n : Nat) (m : Machine ι) (i : ι) : Leaves cools m (drain conv n m i) := by
  induction n generalizing m i with
  | zero => exact leaves_of_stage rfl rfl
  | succ n ih =>
      cases hqueue : (m.stage i).queue with
      | nil =>
          rw [drain_nil conv n m i hqueue]
          exact leaves_update m i rfl
      | cons msg rest =>
          rw [drain_cons conv n m i msg rest hqueue]
          exact ((leaves_update m i rfl).trans
            (leaves_processEvent conv (leaves_generateWith ih) _ i msg)).trans (ih _ i)

theorem leaves_generateEvent (m : Machine ι) (i : ι) (msg : Event) :
    Leaves cools m (generateEvent conv m i msg) :=
  leaves_generateWith (leaves_drain conv 16) m i msg

theorem leaves_requestOn (m : Machine ι) (i : ι) : Leaves cools m (requestOn conv m i) :=
  (leaves_update m i rfl).trans (leaves_generateEvent conv _ i _)

theorem leaves_requestAsSupplement (m : Machine ι) (i nextStage : ι) :
    Leaves cools m (requestAsSupplement conv m i nextStage) :=
  (leaves_update m i rfl).trans (leaves_generateEvent conv _ i _)

theorem leaves_requestOff (m : Machine ι) (i : ι) : Leaves cools m (requestOff conv m i) :=
  (leaves_update m i rfl).trans (leaves_generateEvent conv _ i _)

theorem leaves_requestModeToOff (m : Machine ι) (i : ι) :
    Leaves cools m (requestModeToOff conv m i) :=
  leaves_generateEvent conv m i _

theorem leaves_execute (m : Machine ι) (i : ι) :
    Leaves cools m (StageFsm.execute conv m i) :=
  (leaves_update m i rfl).trans (leaves_generateEvent conv _ i _)

theorem leaves_requestOffWhenMet (m : Machine ι) (i : ι) (systemStage : Nat) :
    Leaves cools m (requestOffWhenMet conv m i systemStage) := by
  rw [requestOffWhenMet]
  split_ifs
  · exact leaves_requestOff conv m i
  · exact Leaves.refl m

theorem leaves_singleStageOf (turnOn turnOff : ℚ)
    (beginOffTime : EquipmentTimes → System.ElapsedTime.Precision) (sec : Nat) (i : ι)
    (m : Machine ι) :
    Leaves cools m (singleStageOf conv turnOn turnOff beginOffTime sec i m).1 := by
  rw [singleStageOf]
  split_ifs
  · exact leaves_requestOn conv m i
  · exact Leaves.refl m
  · exact leaves_requestOffWhenMet conv m i 0
  · exact Leaves.refl m

end Frame

section Controls

/-- An equipment leaves the outputs of the other one. -/
structure EquipmentLeaves {ι : Type} (cools : Bool) (equipment : Equipment ι) : Prop where
  active : ∀ m, Leaves cools m (equipment.executeActive m).1
  off : ∀ m, Leaves cools m (equipment.executeOff m).1
  reset : ∀ m, Leaves cools m (equipment.reset m)

variable (conv : ToUInt32)

theorem cooling_leaves : EquipmentLeaves true (Cooling.equipment conv) := by
  constructor
  · intro m
    simp only [Cooling.equipment, Cooling.executeActive]
    split_ifs
    · exact (leaves_singleStageOf conv _ _ _ _ 0 m).trans (leaves_execute conv _ 0)
    · exact Leaves.refl m
  · exact fun m => leaves_requestModeToOff conv m 0
  · exact fun m => (leaves_update m 0 rfl).trans (leaves_requestModeToOff conv _ 0)

theorem leaves_turnOnTwoStages {cools : Bool} (m : Machine (Fin 3)) :
    Leaves cools m (IndoorHeating.turnOnTwoStages conv m) := by
  rw [IndoorHeating.turnOnTwoStages]
  split_ifs
  · exact (leaves_requestOn conv m 0).trans (leaves_requestAsSupplement conv _ 0 1)
  · exact Leaves.refl m

theorem leaves_supplementWhenMet {cools : Bool} (m : Machine (Fin 3)) (i next : Fin 3) :
    Leaves cools m (IndoorHeating.supplementWhenMet conv m i next) := by
  rw [IndoorHeating.supplementWhenMet]
  split_ifs
  · exact leaves_requestAsSupplement conv m i next
  · exact Leaves.refl m

theorem leaves_secondStage {cools : Bool} (m : Machine (Fin 3)) :
    Leaves cools m (IndoorHeating.secondStage conv m).1 := by
  rw [IndoorHeating.secondStage]
  split_ifs
  · exact leaves_turnOnTwoStages conv m
  · exact leaves_supplementWhenMet conv m 0 1
  · exact leaves_requestOffWhenMet conv m 1 1
  · exact Leaves.refl m

theorem leaves_thirdStage {cools : Bool} (m : Machine (Fin 3)) :
    Leaves cools m (IndoorHeating.thirdStage conv m).1 := by
  rw [IndoorHeating.thirdStage]
  split_ifs
  · exact leaves_turnOnTwoStages conv m
  · exact leaves_supplementWhenMet conv m 0 1
  · exact leaves_supplementWhenMet conv m 1 2
  · exact leaves_requestOffWhenMet conv m 2 2
  · exact Leaves.refl m

theorem leaves_orElse {cools : Bool} {first second : Machine (Fin 3) → Machine (Fin 3) × Bool}
    (hfirst : ∀ m, Leaves cools m (first m).1) (hsecond : ∀ m, Leaves cools m (second m).1)
    (m : Machine (Fin 3)) : Leaves cools m (IndoorHeating.orElse first second m).1 := by
  rw [IndoorHeating.orElse]
  split_ifs
  · exact hfirst m
  · exact (hfirst m).trans (hsecond _)

theorem heating_leaves : EquipmentLeaves false (IndoorHeating.equipment conv) := by
  have hsingle : ∀ m, Leaves false m (IndoorHeating.singleStage conv m).1 :=
    fun m => leaves_singleStageOf conv _ _ _ _ 0 m
  have hoff : ∀ m, Leaves false m (IndoorHeating.executeOff conv m).1 := by
    intro m
    exact ((leaves_requestModeToOff conv m 0).trans (leaves_requestModeToOff conv _ 1)).trans
      (leaves_requestModeToOff conv _ 2)
  refine ⟨?_, hoff, ?_⟩
  · intro m
    simp only [IndoorHeating.equipment, IndoorHeating.executeActive]
    split
    · exact (hsingle m).trans (leaves_execute conv _ 0)
    · exact ((leaves_orElse (leaves_secondStage conv) hsingle m).trans
        (leaves_execute conv _ 0)).trans (leaves_execute conv _ 1)
    · have hstages := leaves_orElse (leaves_thirdStage conv)
        (leaves_orElse (leaves_secondStage conv) hsingle) m
      exact ((hstages.trans (leaves_execute conv _ 0)).trans (leaves_execute conv _ 1)).trans
        (leaves_execute conv _ 2)
    · exact Leaves.refl m
  · intro m
    have hindices : Leaves false m (reconfigure (reconfigure (reconfigure m 0 0 0) 1 1 1) 2 2 2) :=
      ((leaves_update m 0 rfl).trans (leaves_update _ 1 rfl)).trans (leaves_update _ 2 rfl)
    exact hindices.trans (hoff _)

variable {ι : Type} {cools : Bool} {equipment : Equipment ι} {c c' : Control ι}
  {ins : ControlInputs} {outs outs' : ControlOutputs}

/-- A reset turns the other equipment off as well; otherwise its outputs stay. -/
theorem uniform_prepare (hleaves : EquipmentLeaves cools equipment)
    (huniform : Uniform cools c.machine) (ins : ControlInputs) (outs : ControlOutputs) :
    Uniform cools (c.prepare equipment ins outs) ∧
      otherStages cools (c.prepare equipment ins outs).args.vOutputs =
        if c.Resets ins then fun _ => 0 else otherStages cools outs.vOutputs := by
  split_ifs with hreset
  · rw [Control.prepare_of_resets _ c ins outs hreset]
    obtain ⟨huniform', hsame⟩ := hleaves.reset
      { c.machine with args := Control.resetArgs (argsOf ins outs) } huniform
    refine ⟨huniform', hsame.trans ?_⟩
    cases cools <;> rfl
  · rw [Control.prepare_of_not_resets _ c ins outs hreset]
    exact ⟨huniform, rfl⟩

theorem control_leaves (hleaves : EquipmentLeaves cools equipment)
    (huniform : Uniform cools c.machine) (hvalid : ins.valid = true)
    (hexecute : c.execute equipment ins outs = (c', outs', true)) :
    Uniform cools c'.machine ∧
      (ins.inputs.systemConfig.currentOpMode = equipment.operatingMode →
        otherStages cools outs'.vOutputs =
          if c.Resets ins then fun _ => 0 else otherStages cools outs.vOutputs) ∧
      (ins.inputs.systemConfig.currentOpMode ≠ equipment.operatingMode → outs' = outs) := by
  by_cases hmode : ins.inputs.systemConfig.currentOpMode = equipment.operatingMode
  · have hsuccess := Control.success_of_execute equipment c ins outs hvalid hmode
      (by rw [hexecute])
    rw [Control.execute_of_mode equipment c ins outs hvalid hmode hsuccess] at hexecute
    cases hexecute
    obtain ⟨hprepared, hothers⟩ := uniform_prepare hleaves huniform ins outs
    obtain ⟨hactive, hsame⟩ := hleaves.active _ hprepared
    exact ⟨hactive, fun _ => hsame.trans hothers, fun hne => absurd hmode hne⟩
  · rw [Control.execute_of_other_mode equipment c ins outs hvalid hmode, Prod.mk.injEq,
      Prod.mk.injEq] at hexecute
    obtain ⟨rfl, rfl, -⟩ := hexecute
    have hoff := (hleaves.off { c.machine with args := argsOf ins outs } huniform).1
    exact ⟨hoff, fun heq => absurd heq hmode, fun _ => rfl⟩

end Controls

section Passes

variable {conv : ToUInt32}

/-- Both control components have stages of their own kind, and never are both equipments on. The
equipment of the other mode is off. -/
structure Safe (s : System) : Prop where
  cooling : Uniform true s.cooling.machine
  heating : Uniform false s.heating.machine
  exclusive : s.outputs.vOutputs.indoorStages = (fun _ => 0) ∨
    s.outputs.vOutputs.outdoorStages = fun _ => 0
  indoorOff : s.lastMode = some .cooling → s.outputs.vOutputs.indoorStages = fun _ => 0
  outdoorOff : s.lastMode = some .idHeating → s.outputs.vOutputs.outdoorStages = fun _ => 0

/-- A change of the mode reaches the control components. -/
def Announced (s : System) (p : Pass) : Prop :=
  s.lastMode ≠ some p.systemConfig.currentOpMode → p.operatingModeChanged = true

theorem safe_init (args : Args) : Safe (init conv args) := by
  have hcool : Uniform true (init conv args).cooling.machine := by
    rw [ShortCycle.machine_init_cooling]
    exact ((cooling_leaves conv).reset (constructed .cooling args) fun _ => rfl).1
  have hheat : Uniform false (init conv args).heating.machine := by
    rw [ShortCycle.machine_init_heating]
    exact ((heating_leaves conv).reset (constructed (.indoorHeat false) args) fun _ => rfl).1
  exact ⟨hcool, hheat, .inl rfl, nofun, nofun⟩

variable {s s' : System} {p : Pass}

/-- What the control components of a pass leave. -/
structure Controlled (mode : OperatingMode) (cooling : Control (Fin 1)) (heating : Control (Fin 3))
    (outputs : ControlOutputs) : Prop where
  cooling : Uniform true cooling.machine
  heating : Uniform false heating.machine
  exclusive : outputs.vOutputs.indoorStages = (fun _ => 0) ∨
    outputs.vOutputs.outdoorStages = fun _ => 0
  indoorOff : mode = .cooling ∨ mode = .off → outputs.vOutputs.indoorStages = fun _ => 0
  outdoorOff : mode = .idHeating ∨ mode = .off → outputs.vOutputs.outdoorStages = fun _ => 0

/-- The equipment of the other mode is off, by the reset or as it was. -/
theorem others_off {ι : Type} (c : Control ι) {other : OperatingMode} {v : Nat → Nat}
    (hannounced : Announced s p) (hmode : p.systemConfig.currentOpMode = other)
    (hbefore : s.lastMode = some other → v = fun _ => 0) :
    (if c.Resets (controlInputs s p) then fun _ => 0 else v) = fun _ => 0 := by
  split_ifs with hreset
  · rfl
  · apply hbefore
    by_contra hlast
    exact hreset (.inr (hannounced (by rwa [hmode])))

theorem executeControls_controlled {cooling : Control (Fin 1)} {heating : Control (Fin 3)}
    {off : Control (Fin 0)} {outputs : ControlOutputs} (hsafe : Safe s) (hvalid : p.valid = true)
    (hannounced : Announced s p)
    (h : executeControls conv s p = some (cooling, heating, off, outputs)) :
    Controlled p.systemConfig.currentOpMode cooling heating outputs := by
  obtain ⟨outputs₁, outputs₂, hcool, hheat, hoff⟩ := executeControls_some h
  obtain ⟨hcooling, hcoolMode, hcoolOther⟩ :=
    control_leaves (cooling_leaves conv) hsafe.cooling hvalid hcool
  obtain ⟨hheating, hheatMode, hheatOther⟩ :=
    control_leaves (heating_leaves conv) hsafe.heating hvalid hheat
  obtain ⟨hoffOther, hoffMode⟩ := off_pass hvalid hoff
  change p.systemConfig.currentOpMode = .cooling → _ at hcoolMode
  change p.systemConfig.currentOpMode ≠ .cooling → _ at hcoolOther
  change p.systemConfig.currentOpMode = .idHeating → _ at hheatMode
  change p.systemConfig.currentOpMode ≠ .idHeating → _ at hheatOther
  change p.systemConfig.currentOpMode ≠ .off → _ at hoffOther
  change p.systemConfig.currentOpMode = .off → _ at hoffMode
  cases hmode : p.systemConfig.currentOpMode with
  | off =>
      have hzero := hoffMode hmode
      refine ⟨hcooling, hheating, .inl ?_, fun _ => ?_, fun _ => ?_⟩
      all_goals rw [hzero]; rfl
  | cooling =>
      obtain rfl := hheatOther (by rw [hmode]; decide)
      obtain rfl := hoffOther (by rw [hmode]; decide)
      have hindoor : outputs.vOutputs.indoorStages = fun _ => 0 :=
        (hcoolMode hmode).trans (others_off s.cooling hannounced hmode hsafe.indoorOff)
      refine ⟨hcooling, hheating, .inl hindoor, fun _ => hindoor, ?_⟩
      rintro (hother | hother) <;> cases hother
  | idHeating =>
      obtain rfl := hcoolOther (by rw [hmode]; decide)
      obtain rfl := hoffOther (by rw [hmode]; decide)
      have houtdoor : outputs.vOutputs.outdoorStages = fun _ => 0 :=
        (hheatMode hmode).trans (others_off s.heating hannounced hmode hsafe.outdoorOff)
      refine ⟨hcooling, hheating, .inr houtdoor, ?_, fun _ => houtdoor⟩
      rintro (hother | hother) <;> cases hother
  | heating | unknown =>
      obtain rfl := hcoolOther (by rw [hmode]; decide)
      obtain rfl := hheatOther (by rw [hmode]; decide)
      obtain rfl := hoffOther (by rw [hmode]; decide)
      refine ⟨hcooling, hheating, hsafe.exclusive, ?_, ?_⟩
      all_goals rintro (hother | hother) <;> cases hother

/-- What the relays of a pass in a mode can be. -/
structure Interlocked (mode : OperatingMode) (relays : RelayOutputs) : Prop where
  exclusive : relays.y1 = true → relays.w1 = false ∧ relays.w2 = false ∧ relays.w3 = false
  heaterOff : mode = .cooling ∨ mode = .off →
    relays.w1 = false ∧ relays.w2 = false ∧ relays.w3 = false
  compressorOff : mode = .idHeating ∨ mode = .off → relays.y1 = false ∧ relays.y2 = false

section Relays

variable (c : HvacRelayOutputs) {vOutputs : VirtualOutputs} (times : EquipmentTimes)
  (systemOn : Bool) (forcedOffRefCnt : Nat) (now : System.ElapsedTime.Precision)

theorem heater_relays_off (h : vOutputs.indoorStages = fun _ => 0) :
    (c.execute vOutputs times systemOn forcedOffRefCnt now).2.2.w1 = false ∧
      (c.execute vOutputs times systemOn forcedOffRefCnt now).2.2.w2 = false ∧
      (c.execute vOutputs times systemOn forcedOffRefCnt now).2.2.w3 = false := by
  simp only [HvacRelayOutputs.execute]
  split_ifs
  · simp [relaysOf, VirtualOutputs.setCapacityOff]
  · simp [relaysOf, h]

theorem compressor_relays_off (h : vOutputs.outdoorStages = fun _ => 0) :
    (c.execute vOutputs times systemOn forcedOffRefCnt now).2.2.y1 = false ∧
      (c.execute vOutputs times systemOn forcedOffRefCnt now).2.2.y2 = false := by
  simp only [HvacRelayOutputs.execute]
  split_ifs
  · simp [relaysOf, VirtualOutputs.setCapacityOff]
  · simp [relaysOf, h]

theorem Controlled.relays {mode : OperatingMode} {cooling : Control (Fin 1)}
    {heating : Control (Fin 3)} {outputs : ControlOutputs}
    (h : Controlled mode cooling heating outputs)
    (hindoor : vOutputs.indoorStages = outputs.vOutputs.indoorStages)
    (houtdoor : vOutputs.outdoorStages = outputs.vOutputs.outdoorStages) :
    Interlocked mode (c.execute vOutputs times systemOn forcedOffRefCnt now).2.2 := by
  constructor
  · intro hy1
    rcases h.exclusive with hzero | hzero
    · exact heater_relays_off c times systemOn forcedOffRefCnt now (hindoor.trans hzero)
    · have hoff := compressor_relays_off c times systemOn forcedOffRefCnt now (houtdoor.trans hzero)
      rw [hoff.1] at hy1
      cases hy1
  · intro hmode
    exact heater_relays_off c times systemOn forcedOffRefCnt now
      (hindoor.trans (h.indoorOff hmode))
  · intro hmode
    exact compressor_relays_off c times systemOn forcedOffRefCnt now
      (houtdoor.trans (h.outdoorOff hmode))

end Relays

/-- What a pass keeps, and what it does to the relays. -/
theorem step_safe (hsafe : Safe s) (hvalid : p.valid = true) (hannounced : Announced s p)
    (h : step conv s p = some s') :
    Safe s' ∧ Interlocked p.systemConfig.currentOpMode s'.relayOutputs := by
  rw [step, Option.bind_eq_bind, Option.bind_eq_some_iff] at h
  obtain ⟨⟨cooling, heating, off, outputs⟩, hcontrols, hsome⟩ := h
  have hcontrolled := executeControls_controlled hsafe hvalid hannounced hcontrols
  cases hsome
  refine ⟨⟨hcontrolled.cooling, hcontrolled.heating, hcontrolled.exclusive, ?_, ?_⟩,
    hcontrolled.relays s.hvacRelayOutputs s.equipmentBeginTimes (setFan p outputs).systemOn
      p.forcedOffRefCnt p.currentInterval rfl rfl⟩
  · intro hmode
    rw [if_pos hvalid, Option.some.injEq] at hmode
    exact hcontrolled.indoorOff (.inl hmode)
  · intro hmode
    rw [if_pos hvalid, Option.some.injEq] at hmode
    exact hcontrolled.outdoorOff (.inl hmode)

end Passes

end ColonyPico.Storm.Interlock
