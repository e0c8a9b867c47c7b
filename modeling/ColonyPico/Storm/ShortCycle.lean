import ColonyPico.Storm.FirstStage
import ColonyPico.Storm.ThermostatPass

/-!
How long the relays of the compressor and of the indoor heater stay off over whole runs.
-/

namespace ColonyPico.Storm.ShortCycle

open ColonyPico.Storm.Config
open ColonyPico.Storm.DutyCycle
open ColonyPico.Storm.EquipmentControl
open ColonyPico.Storm.FirstStage
open ColonyPico.Storm.StageFsm
open ColonyPico.Storm.StageLadder (Bounded Ladder Rests isOn bounded_setSystemConfig)
open ColonyPico.Storm.StageRuns
open ColonyPico.Storm.ThermostatPass
open ColonyPico.System.ElapsedTime

section Relay

variable {ι : Type}

/-- What a pass does to an equipment: its output `v` is turned on only when the equipment has
met its minimum off time, and an off cycle of its first stage that is new begins now. -/
structure PassStep (beginOffTime now : Precision) (sec : Nat) (s s' : StageFsm.Stage ι)
    (v v' : Nat) : Prop where
  guarded : v = 0 → 0 < v' → MinOffMet beginOffTime now sec
  off : s'.state = .timed false → v' = 0
  fresh : s'.state = .timed false →
    s.state = .timed false ∧ s'.startTime = s.startTime ∨ s'.startTime = now

/-- An equipment and its relay between the passes. `member` is what `HvacRelayOutputs` has
kept of the relay, and `offAt` when the relay last switched off. -/
structure RelayInv (beginOffTime now : Precision) (offAt : Option Precision)
    (member relay : Bool) (v : Nat) (s : StageFsm.Stage ι) : Prop where
  relay_eq : relay = decide (0 < v)
  member_of_relay : relay = true → member = true
  inRange : beginOffTime.InRange
  le : beginOffTime.asFlatTime ≤ now.asFlatTime
  offAt_le : ∀ t, offAt = some t → t.asFlatTime ≤ beginOffTime.asFlatTime
  off : s.state = .timed false → member = false ∧ v = 0
  since : OffSince beginOffTime now s

variable {beginOffTime now now' : Precision} {sec : Nat} {offAt : Option Precision}
  {member relay : Bool} {s s' : StageFsm.Stage ι} {v v' : Nat}

theorem RelayInv.later (h : RelayInv beginOffTime now offAt member relay v s)
    (hle : now.asFlatTime ≤ now'.asFlatTime) :
    RelayInv beginOffTime now' offAt member relay v s := by
  refine ⟨h.relay_eq, h.member_of_relay, h.inRange, h.le.trans hle, h.offAt_le, h.off, ?_⟩
  intro hstate
  obtain ⟨hrange, hbegin, hnow⟩ := h.since hstate
  exact ⟨hrange, hbegin, hnow.trans hle⟩

/-- The relay switches on only after it was off for long enough. -/
theorem RelayInv.offLongEnough (h : RelayInv beginOffTime now offAt member relay v s)
    (hstep : PassStep beginOffTime now sec s s' v v') (hoff : relay = false)
    (hon : decide (0 < v') = true) : OffLongEnough sec offAt now := by
  intro t ht
  have hv : v = 0 := by
    have hrelay := h.relay_eq
    rw [hoff] at hrelay
    simpa using hrelay.symm
  have hmet := hstep.guarded hv (by simpa using hon)
  have hle := h.offAt_le t ht
  rw [MinOffMet] at hmet
  omega

theorem RelayInv.step (h : RelayInv beginOffTime now offAt member relay v s)
    (hstep : PassStep beginOffTime now sec s s' v v') (hnow : now.InRange) :
    RelayInv (offEdge member (decide (0 < v')) now beginOffTime) now
      (if relay = true ∧ decide (0 < v') = false then some now else offAt) (decide (0 < v'))
      (decide (0 < v')) v' s' := by
  have hedge : offEdge member (decide (0 < v')) now beginOffTime = now ∨
      offEdge member (decide (0 < v')) now beginOffTime = beginOffTime := by
    rw [offEdge]
    split_ifs
    · exact .inl rfl
    · exact .inr rfl
  have hle : (offEdge member (decide (0 < v')) now beginOffTime).asFlatTime ≤ now.asFlatTime := by
    rcases hedge with hedge | hedge <;> rw [hedge]
    exact h.le
  have hge : beginOffTime.asFlatTime ≤
      (offEdge member (decide (0 < v')) now beginOffTime).asFlatTime := by
    rcases hedge with hedge | hedge <;> rw [hedge]
    exact h.le
  refine ⟨rfl, id, ?_, hle, ?_, ?_, ?_⟩
  · rcases hedge with hedge | hedge <;> rw [hedge]
    · exact hnow
    · exact h.inRange
  · intro t ht
    split_ifs at ht with hswitch
    · cases ht
      rw [offEdge, if_pos ⟨h.member_of_relay hswitch.1, hswitch.2⟩]
    · exact (h.offAt_le t ht).trans hge
  · intro hstate
    have hv := hstep.off hstate
    exact ⟨by simp [hv], hv⟩
  · intro hstate
    rcases hstep.fresh hstate with ⟨hbefore, htime⟩ | htime
    · have hsame : offEdge member (decide (0 < v')) now beginOffTime = beginOffTime := by
        simp [offEdge, (h.off hbefore).1]
      rw [htime, hsame]
      exact h.since hbefore
    · rw [htime]
      exact ⟨hnow, hle, le_rfl⟩

theorem PassStep.of_off (hstate : s'.state = .off) (hv : v' = v ∨ v' = 0) :
    PassStep beginOffTime now sec s s' v v' := by
  refine ⟨?_, ?_, ?_⟩
  · intro hzero hpos
    omega
  · intro h
    rw [hstate] at h
    cases h
  · intro h
    rw [hstate] at h
    cases h

theorem PassStep.of_firstStep {before : StageFsm.Stage ι}
    (hfirst : FirstStep (MayTurnOn beginOffTime now sec before) now before s')
    (hbefore : before.state = .off ∨ before = s ∧ v = if isOn s.state then virtualOutputsOn
      else virtualOutputsOff)
    (hafter : v' = if isOn s'.state then virtualOutputsOn else virtualOutputsOff) :
    PassStep beginOffTime now sec s s' v v' := by
  refine ⟨?_, ?_, ?_⟩
  · intro hzero hpos
    have hoff : isOn before.state = false := by
      rcases hbefore with hoff | ⟨rfl, hv⟩
      · rw [hoff]
        rfl
      · by_contra hon
        rw [if_pos (by simpa using hon), hzero] at hv
        cases hv
    have hon : isOn s'.state = true := by
      by_contra hoff'
      rw [if_neg hoff', virtualOutputsOff] at hafter
      omega
    rcases hfirst.guarded hoff hon with hon' | hmet
    · rw [hoff] at hon'
      cases hon'
    · exact hmet
  · intro hstate
    rw [hafter, hstate]
    rfl
  · intro hstate
    rcases hfirst.fresh hstate with ⟨hoff, htime⟩ | htime
    · rcases hbefore with hoff' | ⟨rfl, -⟩
      · rw [hoff'] at hoff
        cases hoff
      · exact .inl ⟨hoff, htime⟩
    · exact .inr htime

end Relay

section Controls

variable {conv : ToUInt32}

/-- The inputs of a pass that is long enough for an equipment whose first stage is `s`. -/
structure LongInputs (conv : ToUInt32) {ι : Type} (ins : ControlInputs) (s : StageFsm.Stage ι)
    (beginOffTime : Precision) (sec : Nat) : Prop where
  bounded : Bounded ins.inputs.systemConfig
  beginInRange : beginOffTime.InRange
  inRange : ins.inputs.currentInterval.InRange
  le : beginOffTime.asFlatTime ≤ ins.inputs.currentInterval.asFlatTime
  abort : ins.abortOnOffCycle = false
  defeat : ins.inputs.defeatEquipMinOffTime = false
  offTime : s.state = .timed false → ∀ outs, sec ≤ cycleTimeOf conv (argsOf ins outs) 0 false

/-- The equipment before its control logic is executed: its first stage is off, or as the last
pass has left it, with the output `v` that it then follows. The outputs of the other equipment
are off or as they were. -/
structure Prepared {ι : Type} (ins : ControlInputs) (s : StageFsm.Stage ι) (v : Nat)
    (other : Nat → Nat) (m : Machine ι) (i : ι) (otherOutputs : Nat → Nat) : Prop where
  inputs : m.args.inputs = ins.inputs
  abort : m.args.abortOnOffCycle = false
  first : (m.stage i).state = .off ∨
    m.stage i = s ∧ v = if isOn s.state then virtualOutputsOn else virtualOutputsOff
  others : otherOutputs = other ∨ otherOutputs = fun _ => 0

theorem Prepared.long {ι : Type} {ins : ControlInputs} {s : StageFsm.Stage ι} {v : Nat}
    {other otherOutputs : Nat → Nat} {m : Machine ι} {i : ι}
    (h : Prepared ins s v other m i otherOutputs) {beginOffTime : Precision} {sec : Nat}
    (hlong : LongInputs conv ins s beginOffTime sec) (hindex : (m.stage i).systemIndex = 0)
    (hrest : AtRest (m.stage i))
    (hsince : OffSince beginOffTime ins.inputs.currentInterval s) :
    Long conv (MayTurnOn beginOffTime ins.inputs.currentInterval sec (m.stage i)) m i beginOffTime
      sec := by
  refine ⟨hlong.beginInRange, ?_, ?_, h.abort, ?_, ?_, ?_, ?_⟩
  · rw [h.inputs]
    exact hlong.inRange
  · rw [h.inputs]
    exact hlong.le
  · rw [h.inputs]
    exact hlong.defeat
  · rw [h.inputs]
    exact .inr
  · intro hne
    rcases on_or_timed_of_atRest hrest hne with hon | htimed
    · exact .inl (.inl hon)
    · have hsame : m.stage i = s := by
        rcases h.first with hoff | ⟨hsame, -⟩
        · exact absurd hoff hne
        · exact hsame
      have htime := hlong.offTime (hsame ▸ htimed) (outputsOf m.args)
      rw [cycleTimeOf] at htime ⊢
      rw [hindex, h.inputs]
      exact .inr htime
  · rw [h.inputs]
    intro hstate
    rcases h.first with hoff | ⟨hsame, -⟩
    · rw [hoff] at hstate
      cases hstate
    · rw [hsame] at hstate ⊢
      exact hsince hstate

theorem cooling_prepared {c : Control (Fin 1)} {ins : ControlInputs} {outs : ControlOutputs}
    (hrests : CoolRests c.machine)
    (hready : ¬c.Resets ins → CoolReady { c.machine with args := argsOf ins outs })
    (habort : ins.abortOnOffCycle = false) :
    CoolReady (c.prepare (Cooling.equipment conv) ins outs) ∧
      Prepared ins (c.machine.stage 0) (outs.vOutputs.outdoorStages 0) outs.vOutputs.indoorStages
        (c.prepare (Cooling.equipment conv) ins outs) 0
        (c.prepare (Cooling.equipment conv) ins outs).args.vOutputs.indoorStages := by
  by_cases hreset : c.Resets ins
  · rw [Control.prepare_of_resets _ c ins outs hreset]
    have hrests' : CoolRests { c.machine with args := argsOf ins outs } :=
      ⟨hrests.systemIndex, hrests.outIndex, hrests.kind, hrests.idle, hrests.atRest⟩
    obtain ⟨hready', hkeeps, hoff⟩ := @reset_coolReady conv _ hrests'
    exact ⟨hready', hkeeps.inputs, hkeeps.abort habort, .inl hoff, .inr hkeeps.indoorStages⟩
  · rw [Control.prepare_of_not_resets _ c ins outs hreset]
    exact ⟨hready hreset, rfl, habort, .inr ⟨rfl, (hready hreset).follows⟩, .inl rfl⟩

theorem cooling_pass {c : Control (Fin 1)} {ins : ControlInputs} {outs : ControlOutputs}
    (hvalid : ins.valid = true) (hmode : ins.inputs.systemConfig.currentOpMode = .cooling)
    (hrests : CoolRests c.machine)
    (hready : ¬c.Resets ins → CoolReady { c.machine with args := argsOf ins outs })
    (hlong : LongInputs conv ins (c.machine.stage 0)
      ins.inputs.equipmentBeginTimes.outdoorUnitBeginOffTime minCompressorOffTimeSec)
    (hsince : OffSince ins.inputs.equipmentBeginTimes.outdoorUnitBeginOffTime
      ins.inputs.currentInterval (c.machine.stage 0))
    {c' : Control (Fin 1)} {outs' : ControlOutputs}
    (hexecute : c.execute (Cooling.equipment conv) ins outs = (c', outs', true)) :
    CoolReady c'.machine ∧ outs' = outputsOf c'.machine.args ∧
      PassStep ins.inputs.equipmentBeginTimes.outdoorUnitBeginOffTime ins.inputs.currentInterval
        minCompressorOffTimeSec (c.machine.stage 0) (c'.machine.stage 0)
        (outs.vOutputs.outdoorStages 0) (outs'.vOutputs.outdoorStages 0) ∧
      (outs'.vOutputs.indoorStages = outs.vOutputs.indoorStages ∨
        outs'.vOutputs.indoorStages = fun _ => 0) := by
  have hsuccess := Control.success_of_execute (Cooling.equipment conv) c ins outs hvalid hmode
    (by rw [hexecute])
  rw [Control.execute_of_mode (Cooling.equipment conv) c ins outs hvalid hmode hsuccess] at hexecute
  cases hexecute
  obtain ⟨hprepared, hp⟩ := @cooling_prepared conv c ins outs hrests hready hlong.abort
  have hoff : compressorOff (c.prepare (Cooling.equipment conv) ins outs) =
      ins.inputs.equipmentBeginTimes.outdoorUnitBeginOffTime := by
    rw [compressorOff, hp.inputs]
  have hstep := executeActive_coolStep hprepared (by rw [hp.inputs]; exact hlong.bounded)
    (by rw [hoff]; exact hp.long hlong hprepared.systemIndex hprepared.atRest hsince)
  refine ⟨hstep.ready, rfl, ?_, ?_⟩
  · have hfirst := hstep.first
    rw [hp.inputs] at hfirst
    exact .of_firstStep hfirst hp.first hstep.ready.follows
  · have hindoor := hstep.keeps.indoorStages
    rcases hp.others with hsame | hzero
    · exact .inl (hindoor.trans hsame)
    · exact .inr (hindoor.trans hzero)

theorem heating_prepared {c : Control (Fin 3)} {ins : ControlInputs} {outs : ControlOutputs}
    (hrests : Rests c.machine)
    (hladder : ¬c.Resets ins → Ladder { c.machine with args := argsOf ins outs })
    (habort : ins.abortOnOffCycle = false) :
    Ladder (c.prepare (IndoorHeating.equipment conv) ins outs) ∧
      Prepared ins (c.machine.stage 0) (outs.vOutputs.indoorStages 0) outs.vOutputs.outdoorStages
        (c.prepare (IndoorHeating.equipment conv) ins outs) 0
        (c.prepare (IndoorHeating.equipment conv) ins outs).args.vOutputs.outdoorStages := by
  by_cases hreset : c.Resets ins
  · rw [Control.prepare_of_resets _ c ins outs hreset, IndoorHeating.equipment_reset]
    obtain ⟨hladder', hkeeps, hoff⟩ := StageLadder.reset_ladder conv
      { c.machine with args := argsOf ins outs } (hrests.withArgs _)
    exact ⟨hladder', hkeeps.inputs, hkeeps.abort habort, .inl (hoff.off 0),
      .inr hkeeps.outdoorStages⟩
  · rw [Control.prepare_of_not_resets _ c ins outs hreset]
    exact ⟨hladder hreset, rfl, habort, .inr ⟨rfl, (hladder hreset).outputs 0⟩, .inl rfl⟩

theorem heating_pass {c : Control (Fin 3)} {ins : ControlInputs} {outs : ControlOutputs}
    (hvalid : ins.valid = true) (hmode : ins.inputs.systemConfig.currentOpMode = .idHeating)
    (hrests : Rests c.machine)
    (hladder : ¬c.Resets ins → Ladder { c.machine with args := argsOf ins outs })
    (hlong : LongInputs conv ins (c.machine.stage 0)
      ins.inputs.equipmentBeginTimes.indoorUnitBeginOffTime minIndoorHeaterOffTimeSec)
    (hsince : OffSince ins.inputs.equipmentBeginTimes.indoorUnitBeginOffTime
      ins.inputs.currentInterval (c.machine.stage 0))
    {c' : Control (Fin 3)} {outs' : ControlOutputs}
    (hexecute : c.execute (IndoorHeating.equipment conv) ins outs = (c', outs', true)) :
    Ladder c'.machine ∧ outs' = outputsOf c'.machine.args ∧
      PassStep ins.inputs.equipmentBeginTimes.indoorUnitBeginOffTime ins.inputs.currentInterval
        minIndoorHeaterOffTimeSec (c.machine.stage 0) (c'.machine.stage 0)
        (outs.vOutputs.indoorStages 0) (outs'.vOutputs.indoorStages 0) ∧
      (outs'.vOutputs.outdoorStages = outs.vOutputs.outdoorStages ∨
        outs'.vOutputs.outdoorStages = fun _ => 0) := by
  have hsuccess := Control.success_of_execute (IndoorHeating.equipment conv) c ins outs hvalid hmode
    (by rw [hexecute])
  rw [Control.execute_of_mode (IndoorHeating.equipment conv) c ins outs hvalid hmode hsuccess]
    at hexecute
  cases hexecute
  obtain ⟨hprepared, hp⟩ := @heating_prepared conv c ins outs hrests hladder hlong.abort
  have hoff : heaterOff (c.prepare (IndoorHeating.equipment conv) ins outs) =
      ins.inputs.equipmentBeginTimes.indoorUnitBeginOffTime := by
    rw [heaterOff, hp.inputs]
  have hcalls := StageLadder.executeActive_calls conv
    (c.prepare (IndoorHeating.equipment conv) ins outs)
  have hbounded : Bounded
      (c.prepare (IndoorHeating.equipment conv) ins outs).args.inputs.systemConfig := by
    rw [hp.inputs]
    exact hlong.bounded
  obtain ⟨hkeeps, hladder'⟩ := StageLadder.calls_steps conv hcalls hprepared hbounded
  have hfirst := heatingCalls_firstStep hcalls hprepared hbounded
    (by
      rw [hoff]
      exact hp.long hlong (hprepared.wired.index 0).1 (hprepared.rests.atRest 0) hsince)
  rw [hp.inputs] at hfirst
  refine ⟨hladder', rfl, .of_firstStep hfirst hp.first (hladder'.outputs 0), ?_⟩
  rcases hp.others with hsame | hzero
  · exact .inl (hkeeps.outdoorStages.trans hsame)
  · exact .inr (hkeeps.outdoorStages.trans hzero)

theorem cooling_off {c c' : Control (Fin 1)} {ins : ControlInputs} {outs outs' : ControlOutputs}
    (hvalid : ins.valid = true) (hmode : ins.inputs.systemConfig.currentOpMode ≠ .cooling)
    (hrests : CoolRests c.machine)
    (hexecute : c.execute (Cooling.equipment conv) ins outs = (c', outs', true)) :
    CoolRests c'.machine ∧ (c'.machine.stage 0).state = .off ∧ outs' = outs := by
  rw [Control.execute_of_other_mode (Cooling.equipment conv) c ins outs hvalid hmode] at hexecute
  cases hexecute
  have hrests' : CoolRests { c.machine with args := argsOf ins outs } :=
    ⟨hrests.systemIndex, hrests.outIndex, hrests.kind, hrests.idle, hrests.atRest⟩
  obtain ⟨hrests'', hoff, -, -⟩ := @executeOff_coolRests conv _ hrests'
  exact ⟨hrests'', hoff, rfl⟩

theorem heating_off {c c' : Control (Fin 3)} {ins : ControlInputs} {outs outs' : ControlOutputs}
    (hvalid : ins.valid = true) (hmode : ins.inputs.systemConfig.currentOpMode ≠ .idHeating)
    (hrests : Rests c.machine)
    (hexecute : c.execute (IndoorHeating.equipment conv) ins outs = (c', outs', true)) :
    Rests c'.machine ∧ (c'.machine.stage 0).state = .off ∧ outs' = outs := by
  rw [Control.execute_of_other_mode (IndoorHeating.equipment conv) c ins outs hvalid hmode]
    at hexecute
  cases hexecute
  obtain ⟨hrests', -, hoff, -⟩ := StageLadder.executeOff_rests conv
    { c.machine with args := argsOf ins outs } (hrests.withArgs _)
  exact ⟨hrests', hoff 0, rfl⟩

/-- The off mode turns all outputs off, and the other modes leave them to the others. -/
theorem off_pass {c c' : Control (Fin 0)} {ins : ControlInputs} {outs outs' : ControlOutputs}
    (hvalid : ins.valid = true)
    (hexecute : c.execute Off.equipment ins outs = (c', outs', true)) :
    (ins.inputs.systemConfig.currentOpMode ≠ .off → outs' = outs) ∧
      (ins.inputs.systemConfig.currentOpMode = .off →
        outs'.vOutputs = outs.vOutputs.setCapacityOff) := by
  constructor
  · intro hmode
    rw [Control.execute_of_other_mode Off.equipment c ins outs hvalid hmode] at hexecute
    cases hexecute
    rfl
  · intro hmode
    rw [Control.execute_of_mode Off.equipment c ins outs hvalid hmode rfl] at hexecute
    cases hexecute
    by_cases hreset : c.Resets ins
    · rw [Control.prepare_of_resets _ c ins outs hreset]
      rfl
    · rw [Control.prepare_of_not_resets _ c ins outs hreset]
      rfl

theorem executeControls_some {s : System} {p : Pass} {cooling : Control (Fin 1)}
    {heating : Control (Fin 3)} {off : Control (Fin 0)} {outputs : ControlOutputs}
    (h : executeControls conv s p = some (cooling, heating, off, outputs)) :
    ∃ outputs₁ outputs₂,
      s.cooling.execute (Cooling.equipment conv) (controlInputs s p) s.outputs =
        (cooling, outputs₁, true) ∧
      s.heating.execute (IndoorHeating.equipment conv) (controlInputs s p) outputs₁ =
        (heating, outputs₂, true) ∧
      s.off.execute Off.equipment (controlInputs s p) outputs₂ = (off, outputs, true) := by
  rcases hc : s.cooling.execute (Cooling.equipment conv) (controlInputs s p) s.outputs with
    ⟨c₁, o₁, b₁⟩
  rcases hh : s.heating.execute (IndoorHeating.equipment conv) (controlInputs s p) o₁ with
    ⟨c₂, o₂, b₂⟩
  rcases ho : s.off.execute Off.equipment (controlInputs s p) o₂ with ⟨c₃, o₃, b₃⟩
  simp only [executeControls, hc, hh, ho] at h
  split_ifs at h with h₁ h₂ h₃
  cases h
  simp only [Bool.not_eq_false] at h₁ h₂ h₃
  subst h₁ h₂ h₃
  exact ⟨o₁, o₂, rfl, hh, ho⟩

end Controls

/-- The off time of the first stage for the load and the configuration of a pass. -/
def offTime (conv : ToUInt32) (p : Pass) : Nat :=
  let stage := p.systemConfig.stages.getD 0 Config.Stage.off
  calculateOffTime conv p.pvOut stage.minOffTime stage.cph stage.lowerBound stage.upperBound

/-- A pass that finds the first stage of its mode in an off cycle gives it an off time that is not
shorter than the minimum off time of the equipment. -/
structure OffTimeHolds (conv : ToUInt32) (s : System) (p : Pass) : Prop where
  cooling : p.systemConfig.currentOpMode = .cooling →
    (s.cooling.machine.stage 0).state = .timed false → minCompressorOffTimeSec ≤ offTime conv p
  heating : p.systemConfig.currentOpMode = .idHeating →
    (s.heating.machine.stage 0).state = .timed false →
      minIndoorHeaterOffTimeSec ≤ offTime conv p

section Runs

variable (conv : ToUInt32)

/-- The systems that are reached by passes that satisfy `P`. -/
inductive Reachable (P : System → Pass → Prop) : System → Prop where
  | init (args : Args) : Reachable P (init conv args)
  | step (s s' : System) (p : Pass) : Reachable P s → Admits s p → P s p →
      step conv s p = some s' → Reachable P s'

/-- What holds between the passes. -/
structure Inv (s : System) : Prop where
  coolRests : CoolRests s.cooling.machine
  coolReady : s.lastMode = some .cooling →
    ∀ ins, CoolReady { s.cooling.machine with args := argsOf ins s.outputs }
  heatRests : Rests s.heating.machine
  heatLadder : s.lastMode = some .idHeating →
    ∀ ins, Ladder { s.heating.machine with args := argsOf ins s.outputs }
  y1 : RelayInv s.equipmentBeginTimes.outdoorUnitBeginOffTime s.now s.y1OffAt
    s.hvacRelayOutputs.y1 s.relayOutputs.y1 (s.outputs.vOutputs.outdoorStages 0)
    (s.cooling.machine.stage 0)
  w1 : RelayInv s.equipmentBeginTimes.indoorUnitBeginOffTime s.now s.w1OffAt
    s.hvacRelayOutputs.w1 s.relayOutputs.w1 (s.outputs.vOutputs.indoorStages 0)
    (s.heating.machine.stage 0)

theorem machine_init_cooling (args : Args) :
    (init conv args).cooling.machine = Cooling.reset conv (constructed .cooling args) := by
  rw [init]

theorem machine_init_heating (args : Args) : (init conv args).heating.machine =
    IndoorHeating.reset conv (constructed (.indoorHeat false) args) := by
  rw [init]

theorem inv_init (args : Args) : Inv (init conv args) := by
  have hcool : CoolRests (constructed .cooling args) :=
    ⟨rfl, rfl, rfl, ⟨rfl, rfl⟩, .inl rfl⟩
  have hheat : Rests (constructed (.indoorHeat false) args) :=
    ⟨⟨fun _ => ⟨rfl, rfl⟩, fun _ => ⟨false, rfl⟩, fun _ => ⟨rfl, rfl⟩, rfl, rfl, rfl⟩,
      fun _ => .inl rfl⟩
  obtain ⟨hcool', hoff, -, -⟩ := @executeOff_coolRests conv _ hcool
  obtain ⟨hheat', -, hoff', -⟩ := StageLadder.executeOff_rests conv _ hheat
  rw [← reset_coolRests hcool] at hcool' hoff
  rw [← StageLadder.reset_eq conv _ hheat.wired] at hheat' hoff'
  have hrelay {ι : Type} (s : StageFsm.Stage ι) (hoff : s.state = .off) :
      RelayInv ⟨0, 0⟩ ⟨0, 0⟩ none true false 0 s := by
    refine ⟨rfl, nofun, ⟨by decide, by decide⟩, le_rfl, nofun, ?_, ?_⟩
    · intro h
      rw [hoff] at h
      cases h
    · intro h
      rw [hoff] at h
      cases h
  rw [← machine_init_cooling] at hcool' hoff
  rw [← machine_init_heating] at hheat' hoff'
  exact ⟨hcool', nofun, hheat', nofun, hrelay _ hoff, hrelay _ (hoff' 0)⟩

variable {conv}

/-- What the control components leave for the relays. -/
structure Passed (s : System) (p : Pass) (cooling : Control (Fin 1)) (heating : Control (Fin 3))
    (outputs : ControlOutputs) : Prop where
  coolRests : CoolRests cooling.machine
  coolReady : (if p.valid then some p.systemConfig.currentOpMode else s.lastMode) = some .cooling →
    ∀ ins, CoolReady { cooling.machine with args := argsOf ins outputs }
  heatRests : Rests heating.machine
  heatLadder :
    (if p.valid then some p.systemConfig.currentOpMode else s.lastMode) = some .idHeating →
    ∀ ins, Ladder { heating.machine with args := argsOf ins outputs }
  y1 : PassStep s.equipmentBeginTimes.outdoorUnitBeginOffTime p.currentInterval
    minCompressorOffTimeSec (s.cooling.machine.stage 0) (cooling.machine.stage 0)
    (s.outputs.vOutputs.outdoorStages 0) (outputs.vOutputs.outdoorStages 0)
  w1 : PassStep s.equipmentBeginTimes.indoorUnitBeginOffTime p.currentInterval
    minIndoorHeaterOffTimeSec (s.heating.machine.stage 0) (heating.machine.stage 0)
    (s.outputs.vOutputs.indoorStages 0) (outputs.vOutputs.indoorStages 0)
  forcedOff : p.valid = true → p.systemConfig.currentOpMode = .off →
    outputs.vOutputs.outdoorStages 0 = 0 ∧ outputs.vOutputs.indoorStages 0 = 0

theorem RelayInv.passStep {ι : Type} {beginOffTime now : Precision} {offAt : Option Precision}
    {member relay : Bool} {v : Nat} {s : StageFsm.Stage ι}
    (h : RelayInv beginOffTime now offAt member relay v s) (now' : Precision) (sec : Nat) :
    PassStep beginOffTime now' sec s s v v := by
  refine ⟨?_, fun hstate => (h.off hstate).2, fun hstate => .inl ⟨hstate, rfl⟩⟩
  intro hzero hpos
  omega

theorem longInputs {ι : Type} {s : System} {p : Pass} (hadmits : Admits s p)
    {first : StageFsm.Stage ι} {beginOffTime : Precision} {sec : Nat}
    (hrange : beginOffTime.InRange) (hle : beginOffTime.asFlatTime ≤ s.now.asFlatTime)
    (htime : first.state = .timed false → sec ≤ offTime conv p) :
    LongInputs conv (controlInputs s p) first beginOffTime sec := by
  obtain ⟨mode, equipmentCfg, comfortCfg, -, hconfig⟩ := hadmits.config
  refine ⟨?_, hrange, hadmits.inRange, hle.trans hadmits.nonDecreasing, rfl, rfl,
    fun hstate _ => htime hstate⟩
  change Bounded p.systemConfig
  rw [hconfig]
  exact bounded_setSystemConfig mode equipmentCfg comfortCfg

theorem executeControls_invalid {s : System} {p : Pass} (hvalid : p.valid = false) :
    executeControls conv s p = some (s.cooling, s.heating, s.off, s.outputs) := by
  simp [executeControls, Control.execute, controlInputs, hvalid]

/-- A change of the operating mode resets both equipments. -/
theorem resets_of_mode {s : System} {p : Pass} (hadmits : Admits s p) (hvalid : p.valid = true)
    (hmode : s.lastMode ≠ some p.systemConfig.currentOpMode) :
    s.cooling.Resets (controlInputs s p) ∧ s.heating.Resets (controlInputs s p) := by
  rcases hadmits.announced hvalid hmode with hchanged | ⟨hcooling, hheating⟩
  · exact ⟨.inr hchanged, .inr hchanged⟩
  · exact ⟨.inl hcooling, .inl hheating⟩

section Modes

variable {s : System} {p : Pass} {cooling : Control (Fin 1)} {heating : Control (Fin 3)}
  {off : Control (Fin 0)} {outputs : ControlOutputs}

theorem passed_cooling (hinv : Inv s) (hadmits : Admits s p) (hholds : OffTimeHolds conv s p)
    (hvalid : p.valid = true) (hmode : p.systemConfig.currentOpMode = .cooling)
    (h : executeControls conv s p = some (cooling, heating, off, outputs)) :
    Passed s p cooling heating outputs := by
  obtain ⟨outputs₁, outputs₂, hcool, hheat, hoff⟩ := executeControls_some h
  have hready : ¬s.cooling.Resets (controlInputs s p) →
      CoolReady { s.cooling.machine with args := argsOf (controlInputs s p) s.outputs } := by
    intro hreset
    refine hinv.coolReady ?_ _
    by_contra hne
    exact hreset (resets_of_mode hadmits hvalid (by rwa [hmode])).1
  obtain ⟨hready', houtputs, hstep, hindoor⟩ := cooling_pass hvalid hmode hinv.coolRests hready
    (longInputs hadmits hinv.y1.inRange hinv.y1.le (hholds.cooling hmode))
    (hinv.y1.since.later hadmits.nonDecreasing) hcool
  have hnot : ∀ mode, mode ≠ .cooling →
      (controlInputs s p).inputs.systemConfig.currentOpMode ≠ mode := by
    intro mode hne hmode'
    exact hne (hmode'.symm.trans hmode)
  obtain ⟨hrests, hstage, rfl⟩ := heating_off hvalid (hnot _ (by decide)) hinv.heatRests hheat
  obtain rfl := (off_pass hvalid hoff).1 (hnot _ (by decide))
  refine ⟨hready'.toCoolRests, ?_, hrests, ?_, hstep, .of_off hstage ?_, ?_⟩
  · intro _ ins
    exact hready'.congr rfl (by rw [houtputs]; rfl) (by rw [houtputs]; rfl)
  · intro hheating
    rw [if_pos hvalid, hmode] at hheating
    cases hheating
  · rcases hindoor with hsame | hzero
    · exact .inl (congrFun hsame 0)
    · exact .inr (congrFun hzero 0)
  · intro _ hmode'
    rw [hmode] at hmode'
    cases hmode'

theorem passed_heating (hinv : Inv s) (hadmits : Admits s p) (hholds : OffTimeHolds conv s p)
    (hvalid : p.valid = true) (hmode : p.systemConfig.currentOpMode = .idHeating)
    (h : executeControls conv s p = some (cooling, heating, off, outputs)) :
    Passed s p cooling heating outputs := by
  obtain ⟨outputs₁, outputs₂, hcool, hheat, hoff⟩ := executeControls_some h
  have hnot : ∀ mode, mode ≠ .idHeating →
      (controlInputs s p).inputs.systemConfig.currentOpMode ≠ mode := by
    intro mode hne hmode'
    exact hne (hmode'.symm.trans hmode)
  obtain ⟨hrests, hstage, rfl⟩ := cooling_off hvalid (hnot _ (by decide)) hinv.coolRests hcool
  have hladder : ¬s.heating.Resets (controlInputs s p) →
      Ladder { s.heating.machine with args := argsOf (controlInputs s p) s.outputs } := by
    intro hreset
    refine hinv.heatLadder ?_ _
    by_contra hne
    exact hreset (resets_of_mode hadmits hvalid (by rwa [hmode])).2
  obtain ⟨hladder', houtputs, hstep, houtdoor⟩ := heating_pass hvalid hmode hinv.heatRests hladder
    (longInputs hadmits hinv.w1.inRange hinv.w1.le (hholds.heating hmode))
    (hinv.w1.since.later hadmits.nonDecreasing) hheat
  obtain rfl := (off_pass hvalid hoff).1 (hnot _ (by decide))
  refine ⟨hrests, ?_, hladder'.rests, ?_, .of_off hstage ?_, hstep, ?_⟩
  · intro hcooling
    rw [if_pos hvalid, hmode] at hcooling
    cases hcooling
  · intro _ ins
    exact hladder'.withArgs _ (by rw [houtputs]; rfl) (by rw [houtputs]; rfl)
  · rcases houtdoor with hsame | hzero
    · exact .inl (congrFun hsame 0)
    · exact .inr (congrFun hzero 0)
  · intro _ hmode'
    rw [hmode] at hmode'
    cases hmode'

theorem passed_other (hinv : Inv s) (hvalid : p.valid = true)
    (hcooling : p.systemConfig.currentOpMode ≠ .cooling)
    (hheating : p.systemConfig.currentOpMode ≠ .idHeating)
    (h : executeControls conv s p = some (cooling, heating, off, outputs)) :
    Passed s p cooling heating outputs := by
  obtain ⟨outputs₁, outputs₂, hcool, hheat, hoff⟩ := executeControls_some h
  obtain ⟨hrests, hstage, rfl⟩ := cooling_off hvalid hcooling hinv.coolRests hcool
  obtain ⟨hrests', hstage', rfl⟩ := heating_off hvalid hheating hinv.heatRests hheat
  obtain ⟨hsame, hzero⟩ := off_pass hvalid hoff
  have hcases : outputs.vOutputs = s.outputs.vOutputs ∨
      outputs.vOutputs = s.outputs.vOutputs.setCapacityOff := by
    by_cases hmode : p.systemConfig.currentOpMode = .off
    · exact .inr (hzero hmode)
    · rw [hsame hmode]
      exact .inl rfl
  refine ⟨hrests, ?_, hrests', ?_, .of_off hstage ?_, .of_off hstage' ?_, ?_⟩
  · intro hlast
    rw [if_pos hvalid] at hlast
    exact absurd (Option.some.inj hlast) hcooling
  · intro hlast
    rw [if_pos hvalid] at hlast
    exact absurd (Option.some.inj hlast) hheating
  · rcases hcases with hcase | hcase <;> rw [hcase]
    · exact .inl rfl
    · exact .inr rfl
  · rcases hcases with hcase | hcase <;> rw [hcase]
    · exact .inl rfl
    · exact .inr rfl
  · intro _ hmode
    rw [hzero hmode]
    exact ⟨rfl, rfl⟩

theorem executeControls_passed (hinv : Inv s) (hadmits : Admits s p)
    (hholds : OffTimeHolds conv s p)
    (h : executeControls conv s p = some (cooling, heating, off, outputs)) :
    Passed s p cooling heating outputs := by
  by_cases hvalid : p.valid = true
  · by_cases hcooling : p.systemConfig.currentOpMode = .cooling
    · exact passed_cooling hinv hadmits hholds hvalid hcooling h
    · by_cases hheating : p.systemConfig.currentOpMode = .idHeating
      · exact passed_heating hinv hadmits hholds hvalid hheating h
      · exact passed_other hinv hvalid hcooling hheating h
  · rw [executeControls_invalid (by simpa using hvalid)] at h
    cases h
    refine ⟨hinv.coolRests, ?_, hinv.heatRests, ?_, hinv.y1.passStep _ _, hinv.w1.passStep _ _,
      fun hv => absurd hv hvalid⟩
    · rw [if_neg hvalid]
      exact hinv.coolReady
    · rw [if_neg hvalid]
      exact hinv.heatLadder

end Modes

/-- The relays follow the outputs, since a system that is forced off has none. -/
theorem relays_execute (c : HvacRelayOutputs) (vOutputs : VirtualOutputs) (times : EquipmentTimes)
    (systemOn : Bool) (forcedOffRefCnt : Nat) (now : Precision)
    (hforced : 0 < forcedOffRefCnt →
      vOutputs.outdoorStages 0 = 0 ∧ vOutputs.indoorStages 0 = 0) :
    (c.execute vOutputs times systemOn forcedOffRefCnt now).2.2.y1 =
        decide (0 < vOutputs.outdoorStages 0) ∧
      (c.execute vOutputs times systemOn forcedOffRefCnt now).2.2.w1 =
        decide (0 < vOutputs.indoorStages 0) := by
  by_cases hcount : 0 < forcedOffRefCnt
  · obtain ⟨houtdoor, hindoor⟩ := hforced hcount
    simp [HvacRelayOutputs.execute, relaysOf, VirtualOutputs.setCapacityOff, hcount, houtdoor,
      hindoor]
  · simp [HvacRelayOutputs.execute, relaysOf, hcount, virtualOutputsOff]

/-- What a pass keeps, and that it protects the equipment. -/
theorem step_passed {s s' : System} {p : Pass} (hinv : Inv s) (hadmits : Admits s p)
    (hholds : OffTimeHolds conv s p) (h : step conv s p = some s') : Inv s' ∧ Protected s s' := by
  rw [step, Option.bind_eq_bind, Option.bind_eq_some_iff] at h
  obtain ⟨⟨cooling, heating, off, outputs⟩, hcontrols, hsome⟩ := h
  have hpassed := executeControls_passed hinv hadmits hholds hcontrols
  have hforced : 0 < p.forcedOffRefCnt → (setFan p outputs).vOutputs.outdoorStages 0 = 0 ∧
      (setFan p outputs).vOutputs.indoorStages 0 = 0 := by
    intro hcount
    obtain ⟨hvalid, hmode⟩ := hadmits.forcedOff hcount
    exact hpassed.forcedOff hvalid hmode
  obtain ⟨hy1, hw1⟩ := relays_execute s.hvacRelayOutputs (setFan p outputs).vOutputs
    s.equipmentBeginTimes (setFan p outputs).systemOn p.forcedOffRefCnt p.currentInterval hforced
  have hinvY := hinv.y1.later hadmits.nonDecreasing
  have hinvW := hinv.w1.later hadmits.nonDecreasing
  have hstepY := hinvY.step hpassed.y1 hadmits.inRange
  have hstepW := hinvW.step hpassed.w1 hadmits.inRange
  cases hsome
  refine ⟨⟨hpassed.coolRests, ?_, hpassed.heatRests, ?_, ?_, ?_⟩, ?_, ?_⟩
  · intro hmode ins
    exact (hpassed.coolReady hmode ins).congr rfl rfl rfl
  · intro hmode ins
    exact (hpassed.heatLadder hmode ins).withArgs _ rfl rfl
  · change _ = decide (0 < outputs.vOutputs.outdoorStages 0) at hy1
    rw [← hy1] at hstepY
    exact hstepY
  · change _ = decide (0 < outputs.vOutputs.indoorStages 0) at hw1
    rw [← hw1] at hstepW
    exact hstepW
  · intro hoff hon
    exact hinvY.offLongEnough hpassed.y1 hoff (hy1.symm.trans hon)
  · intro hoff hon
    exact hinvW.offLongEnough hpassed.w1 hoff (hw1.symm.trans hon)

theorem inv_reachable {s : System} (h : Reachable conv (OffTimeHolds conv) s) : Inv s := by
  induction h with
  | init args => exact inv_init conv args
  | step s s' p _ hadmits hholds hstep ih => exact (step_passed ih hadmits hholds hstep).1

variable (conv)

/-- The relays are protected in every run whose passes keep the off cycles long enough. -/
theorem protected_of_offTimeHolds (s s' : System) (p : Pass)
    (hreach : Reachable conv (OffTimeHolds conv) s) (hadmits : Admits s p)
    (hholds : OffTimeHolds conv s p) (hstep : step conv s p = some s') : Protected s s' :=
  (step_passed (inv_reachable hreach) hadmits hholds hstep).2

/-- A pass of a thermostat that cools at the load `pvOut`, after `seconds`. -/
def coolingPass (parms : ComfortStage) (pvOut : ℚ) (seconds : Nat) : Pass :=
  { valid := true
    pvOut := pvOut
    systemConfig := setSystemConfig .cooling ⟨.furnace, .ac, 1, 0, false⟩ ⟨parms, parms, parms⟩
    sysSeqNum := 1
    operatingModeChanged := false
    forcedOffRefCnt := 0
    indoorFan := 0
    indoorFanCont := 0
    currentInterval := ⟨seconds, 0⟩ }

/-- The thermostat when it is switched on. -/
def start : System :=
  init ToUInt32.truncation
    { inputs :=
        { pvOut := 0
          systemConfig := SystemConfig.off
          currentInterval := ⟨0, 0⟩
          equipmentBeginTimes := ⟨⟨0, 0⟩, ⟨0, 0⟩, ⟨0, 0⟩, ⟨0, 0⟩, ⟨0, 0⟩, ⟨0, 0⟩⟩
          defeatEquipMinOffTime := false }
      abortOnOffCycle := false
      vOutputs := ControlOutputs.zero.vOutputs
      cycleInfo := ControlOutputs.zero.cycleInfo
      systemOn := false }

/-- The thermostat after a pass that does not fail. -/
def next (s : System) (p : Pass) : System :=
  (step ToUInt32.truncation s p).getD s

theorem step_next (s : System) (p : Pass) (h : (step ToUInt32.truncation s p).isSome = true) :
    step ToUInt32.truncation s p = some (next s p) := by
  obtain ⟨s', hs'⟩ := Option.isSome_iff_exists.mp h
  rw [next, hs', Option.getD_some]

/-- After ten minutes at nine tenths of the load, and after the on cycle of 1500 seconds that
six cycles per hour give for it. -/
def cooled (minOffTime : Nat) : System :=
  next (next start (coolingPass ⟨0, minOffTime, .cph6⟩ 90 600))
    (coolingPass ⟨0, minOffTime, .cph6⟩ 90 2100)

theorem admits_coolingPass (s : System) (minOffTime seconds : Nat) (hmin : minOffTime ≤ 300)
    (hrange : seconds < 2 ^ 32)
    (hle : s.now.asFlatTime ≤ (Precision.ofSeconds seconds).asFlatTime)
    (hmode : s.lastMode = some .cooling ∨
      s.cooling.sysCfgSequenceNumber = 0 ∧ s.heating.sysCfgSequenceNumber = 0) :
    Admits s (coolingPass ⟨0, minOffTime, .cph6⟩ 90 seconds) := by
  refine ⟨⟨.cooling, _, _, ?_, rfl⟩, ⟨hrange, (by decide : 0 < 1000)⟩, hle, ?_, nofun⟩
  · simp [validate, validateStage, maxMinimumTimeLimits, hmin]
  · intro _ hne
    rcases hmode with hlast | ⟨hcooling, hheating⟩
    · exact absurd hlast hne
    · rw [hcooling, hheating]
      exact .inr ⟨one_ne_zero, one_ne_zero⟩

theorem reachable_cooled {P : System → Pass → Prop} (minOffTime : Nat) (hmin : minOffTime ≤ 300)
    (hP : ∀ s seconds, P s (coolingPass ⟨0, minOffTime, .cph6⟩ 90 seconds))
    (hfirst : (step ToUInt32.truncation start
      (coolingPass ⟨0, minOffTime, .cph6⟩ 90 600)).isSome = true)
    (hnow : (next start (coolingPass ⟨0, minOffTime, .cph6⟩ 90 600)).now = ⟨600, 0⟩)
    (hmode : (next start (coolingPass ⟨0, minOffTime, .cph6⟩ 90 600)).lastMode = some .cooling)
    (hsecond : (step ToUInt32.truncation (next start (coolingPass ⟨0, minOffTime, .cph6⟩ 90 600))
      (coolingPass ⟨0, minOffTime, .cph6⟩ 90 2100)).isSome = true) :
    Reachable ToUInt32.truncation P (cooled minOffTime) := by
  have hstart : Reachable ToUInt32.truncation P start := .init _
  refine .step _ _ _ (.step _ _ _ hstart ?_ (hP _ 600) (step_next _ _ hfirst)) ?_ (hP _ 2100)
    (step_next _ _ hsecond)
  · refine admits_coolingPass start minOffTime 600 hmin (by decide) (by decide) (.inr ?_)
    rw [start, init]
    exact ⟨rfl, rfl⟩
  · refine admits_coolingPass _ minOffTime 2100 hmin (by decide) ?_ (.inl hmode)
    rw [hnow]
    decide

/-- The compressor comes on 168 seconds after it went off. -/
theorem protected_fails_high_load :
    ¬∀ (s s' : System) (p : Pass), Reachable ToUInt32.truncation (fun _ _ => True) s →
      Admits s p → step ToUInt32.truncation s p = some s' → Protected s s' := by
  intro h
  have hreach : Reachable ToUInt32.truncation (fun _ _ => True) (cooled 0) :=
    reachable_cooled 0 (by decide) (fun _ _ => trivial) (by decide) (by decide)
      (by decide) (by decide)
  have hadmits : Admits (cooled 0) (coolingPass ⟨0, 0, .cph6⟩ 90 2268) :=
    admits_coolingPass _ 0 2268 (by decide) (by decide) (by decide)
      (.inl (by decide))
  have hstep := step_next (cooled 0) (coolingPass ⟨0, 0, .cph6⟩ 90 2268) (by decide)
  have hprotected := (h _ _ _ hreach hadmits hstep).1 (by with_unfolding_all decide)
    (by with_unfolding_all decide) ⟨2100, 0⟩ (by with_unfolding_all decide)
  revert hprotected
  decide

/-- With the default minimum off time the compressor stays off for 300 seconds. -/
theorem protected_default_minimum :
    Reachable ToUInt32.truncation (OffTimeHolds ToUInt32.truncation) (cooled 300) ∧
      (cooled 300).relayOutputs.y1 = false ∧
      (next (cooled 300) (coolingPass ⟨0, 300, .cph6⟩ 90 2400)).relayOutputs.y1 = true ∧
      Protected (cooled 300) (next (cooled 300) (coolingPass ⟨0, 300, .cph6⟩ 90 2400)) := by
  have hholds : ∀ s seconds,
      OffTimeHolds ToUInt32.truncation s (coolingPass ⟨0, 300, .cph6⟩ 90 seconds) := by
    intro s seconds
    refine ⟨fun _ _ => le_max_right _ _, fun hmode => ?_⟩
    cases hmode
  have hreach : Reachable ToUInt32.truncation (OffTimeHolds ToUInt32.truncation) (cooled 300) :=
    reachable_cooled 300 (by decide) hholds (by decide) (by decide)
      (by decide) (by decide)
  exact ⟨hreach, by with_unfolding_all decide, by with_unfolding_all decide,
    protected_of_offTimeHolds ToUInt32.truncation _ _ _ hreach
      (admits_coolingPass _ 300 2400 (by decide) (by decide) (by decide)
        (.inl (by decide)))
      (hholds _ 2400) (step_next _ _ (by decide))⟩

end Runs

end ColonyPico.Storm.ShortCycle
