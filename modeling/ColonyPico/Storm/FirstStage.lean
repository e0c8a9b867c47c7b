import ColonyPico.Storm.StageLadder

/-!
The first stage of the cooling and of the indoor heating, which is the one that a relay
follows: when it is turned on in a pass, and when its off cycle began.
-/

namespace ColonyPico.Storm.FirstStage

open ColonyPico.Storm.Config
open ColonyPico.Storm.DutyCycle
open ColonyPico.Storm.EquipmentControl
open ColonyPico.Storm.StageFsm
open ColonyPico.Storm.StageLadder
open ColonyPico.Storm.StageRuns
open ColonyPico.System.ElapsedTime

/-- `sec` seconds have passed since `beginOffTime`. -/
def MinOffMet (beginOffTime now : Precision) (sec : Nat) : Prop :=
  beginOffTime.asFlatTime + sec * 1000 ≤ now.asFlatTime

section FirstStage

variable {ι : Type}

/-- The stage is on already, or the equipment has met its minimum off time. -/
def MayTurnOn (beginOffTime now : Precision) (sec : Nat) (s : StageFsm.Stage ι) : Prop :=
  isOn s.state = true ∨ MinOffMet beginOffTime now sec

theorem on_or_timed_of_atRest {s : StageFsm.Stage ι} (h : AtRest s) (hne : s.state ≠ .off) :
    isOn s.state = true ∨ s.state = .timed false := by
  rcases h with hoff | hsupplementing | ⟨on, htimed, -⟩
  · exact absurd hoff hne
  · rw [hsupplementing]
    exact .inl rfl
  · cases on with
    | false => exact .inr htimed
    | true =>
        rw [htimed]
        exact .inl rfl

/-- A first stage in its off cycle has not been on since the equipment went off. -/
def OffSince (beginOffTime now : Precision) (s : StageFsm.Stage ι) : Prop :=
  s.state = .timed false →
    s.startTime.InRange ∧ beginOffTime.asFlatTime ≤ s.startTime.asFlatTime ∧
      s.startTime.asFlatTime ≤ now.asFlatTime

/-- How the first stage changes in a pass: it is turned on, and leaves the off state, only when
`met` holds, and an off cycle that is new begins now. -/
structure FirstStep (met : Prop) (now : Precision) (s s' : StageFsm.Stage ι) : Prop where
  guarded : isOn s.state = false → isOn s'.state = true → met
  left : s.state = .off → s'.state ≠ .off → met
  fresh : s'.state = .timed false →
    s.state = .timed false ∧ s'.startTime = s.startTime ∨ s'.startTime = now

variable {met : Prop} {beginOffTime now : Precision} {sec : Nat} {s s' s'' : StageFsm.Stage ι}

theorem FirstStep.of_eq (hstate : s'.state = s.state) (htime : s'.startTime = s.startTime) :
    FirstStep met now s s' := by
  refine ⟨?_, ?_, ?_⟩
  · intro hoff hon
    rw [hstate, hoff] at hon
    cases hon
  · intro hoff hne
    exact absurd (hstate.trans hoff) hne
  · intro h
    exact .inl ⟨hstate ▸ h, htime⟩

theorem FirstStep.trans (h : FirstStep met now s s') (h' : FirstStep met now s' s'') :
    FirstStep met now s s'' := by
  refine ⟨?_, ?_, ?_⟩
  · intro hoff hon
    by_cases hmid : isOn s'.state = true
    · exact h.guarded hoff hmid
    · exact h'.guarded (by simpa using hmid) hon
  · intro hoff hne
    by_cases hmid : s'.state = .off
    · exact h'.left hmid hne
    · exact h.left hoff hmid
  · intro hstate
    rcases h'.fresh hstate with ⟨hmid, htime⟩ | hnow
    · rcases h.fresh hmid with ⟨hfirst, htime'⟩ | hnow
      · exact .inl ⟨hfirst, htime.trans htime'⟩
      · exact .inr (htime.trans hnow)
    · exact .inr hnow

theorem OffSince.step (h : OffSince beginOffTime now s)
    (hstep : FirstStep met now s s')
    (hnow : now.InRange) (hle : beginOffTime.asFlatTime ≤ now.asFlatTime) :
    OffSince beginOffTime now s' := by
  intro hstate
  rcases hstep.fresh hstate with ⟨hbefore, htime⟩ | htime
  · rw [htime]
    exact h hbefore
  · rw [htime]
    exact ⟨hnow, hle, le_rfl⟩

theorem OffSince.later {now' : Precision} (h : OffSince beginOffTime now s)
    (hle : now.asFlatTime ≤ now'.asFlatTime) : OffSince beginOffTime now' s := by
  intro hstate
  obtain ⟨hrange, hbegin, hnow⟩ := h hstate
  exact ⟨hrange, hbegin, hnow.trans hle⟩

/-- A stage that is turned on or goes into another cycle now. -/
theorem FirstStep.of_now (htime : s'.startTime = now) (hguard : isOn s.state = false → met) :
    FirstStep met now s s' := by
  refine ⟨fun hoff _ => hguard hoff, ?_, fun _ => .inr htime⟩
  intro hoff _
  exact hguard (by rw [hoff]; rfl)

theorem FirstStep.of_off (hstate : s'.state = .off) : FirstStep met now s s' := by
  refine ⟨?_, ?_, ?_⟩
  · intro _ hon
    rw [hstate] at hon
    cases hon
  · intro _ hne
    exact absurd hstate hne
  · intro h
    rw [hstate] at h
    cases h

theorem FirstStep.of_supplementing (hstate : s'.state = .supplementingNextStage)
    (hguard : isOn s.state = false → met) : FirstStep met now s s' := by
  refine ⟨fun hoff _ => hguard hoff, ?_, ?_⟩
  · intro hoff _
    exact hguard (by rw [hoff]; rfl)
  · intro h
    rw [hstate] at h
    cases h

variable (conv : ToUInt32)

/-- What a pass has to meet for its equipment to be protected: `met` follows from the minimum off
time, and unless it holds or the stage is off, the off cycle that the load and the configuration
give is not shorter than that time. -/
structure Long (met : Prop) (m : Machine ι) (i : ι) (beginOffTime : Precision) (sec : Nat) :
    Prop where
  beginInRange : beginOffTime.InRange
  inRange : m.args.inputs.currentInterval.InRange
  le : beginOffTime.asFlatTime ≤ m.args.inputs.currentInterval.asFlatTime
  abort : m.args.abortOnOffCycle = false
  defeat : m.args.inputs.defeatEquipMinOffTime = false
  met_of_minOffMet : MinOffMet beginOffTime m.args.inputs.currentInterval sec → met
  offTime : (m.stage i).state ≠ .off →
    met ∨ sec ≤ cycleTimeOf conv m.args (m.stage i).systemIndex false
  since : OffSince beginOffTime m.args.inputs.currentInterval (m.stage i)

variable {conv} {m : Machine ι} {i : ι}

theorem asFlatTime_ofSeconds (seconds : Nat) :
    (Precision.ofSeconds seconds).asFlatTime = seconds * 1000 := by
  rw [Precision.asFlatTime, Precision.ofSeconds, Nat.add_zero]

theorem Long.met_of_metMinOffTime (h : Long conv met m i beginOffTime sec)
    (hmet : metMinOffTime m beginOffTime sec = true) : met := by
  rw [metMinOffTime, h.defeat, Bool.or_false,
    expiredPrecision_iff _ _ _ h.beginInRange h.inRange (by decide : 0 < 1000) h.le,
    asFlatTime_ofSeconds] at hmet
  exact h.met_of_minOffMet hmet

/-- An off cycle that ends began no sooner than the equipment went off. -/
theorem Long.met_of_fires (h : Long conv met m i beginOffTime sec)
    (hstate : (m.stage i).state = .timed false) (hfires : fires conv m i false) : met := by
  rcases h.offTime (by simp [hstate]) with hmet | hofftime
  · exact hmet
  obtain ⟨hrange, hle, hle'⟩ := h.since hstate
  have hover := hfires.2
  rw [h.abort] at hover
  simp only [Bool.false_eq_true, or_false] at hover
  rw [expiredPrecision_iff _ _ _ hrange h.inRange (by decide : 0 < 1000) hle',
    asFlatTime_ofSeconds] at hover
  have htime := Nat.mul_le_mul_right 1000 hofftime
  apply h.met_of_minOffMet
  rw [MinOffMet]
  omega

/-- A stage that is not off has a long off cycle, or was off before and may be on. -/
theorem Long.met_or_offTime (h : Long conv met m i beginOffTime sec)
    (hstep : FirstStep met now (m.stage i) s') (hne : s'.state ≠ .off) :
    met ∨ sec ≤ cycleTimeOf conv m.args (m.stage i).systemIndex false := by
  by_cases hoff : (m.stage i).state = .off
  · exact .inl (hstep.left hoff hne)
  · exact h.offTime hoff

variable [DecidableEq ι]

/-- The end of an off cycle is the one way to turn on that does not ask the equipment. -/
theorem execute_firstStep (hidle : Idle (m.stage i)) (hrest : AtRest (m.stage i))
    (hcycle : HasCycle conv m i) (h : Long conv met m i beginOffTime sec) :
    FirstStep met m.args.inputs.currentInterval (m.stage i)
      ((execute conv m i).stage i) := by
  have hinactive : (m.stage i).state = .off ∨ (m.stage i).state = .supplementingNextStage →
      FirstStep met m.args.inputs.currentInterval (m.stage i)
        ((execute conv m i).stage i) := by
    intro hstate
    rw [execute_inactive conv m i hidle hstate]
    exact .of_eq (by simp [withArgs]) (by simp [withArgs])
  rcases hrest with hoff | hsupplementing | ⟨on, htimed, -⟩
  · exact hinactive (.inl hoff)
  · exact hinactive (.inr hsupplementing)
  · by_cases hfires : fires conv m i on
    · obtain ⟨on', c, a, -, heq⟩ := execute_of_fires conv m i on hidle htimed hfires hcycle
      refine .of_now (by rw [heq]; simp [settled, cycling, withArgs]) ?_
      intro hoff
      rw [htimed, isOn_timed] at hoff
      subst hoff
      exact h.met_of_fires htimed hfires
    · rw [execute_of_not_fires conv m i on hidle htimed hfires]
      exact .of_eq (by simp [withArgs]) (by simp [withArgs])

theorem requestOn_firstStep (hidle : Idle (m.stage i)) (hoff : (m.stage i).state = .off)
    (hcycle : HasCycle conv m i) (h : Long conv met m i beginOffTime sec)
    (hmet : metMinOffTime m beginOffTime sec = true) :
    FirstStep met m.args.inputs.currentInterval (m.stage i)
      ((requestOn conv m i).stage i) := by
  obtain ⟨on, c, a, -, heq⟩ := requestOn_off conv m i hidle hoff hcycle
  exact .of_now (by rw [heq]; simp [settled, cycling, activated])
    fun _ => h.met_of_metMinOffTime hmet

theorem requestOff_firstStep {on : Bool} (hidle : Idle (m.stage i))
    (htimed : (m.stage i).state = .timed on) (hfirst : (m.stage i).supplemented = false) :
    FirstStep met now (m.stage i) ((requestOff conv m i).stage i) := by
  obtain ⟨c, a, -, heq⟩ := requestOff_first conv m i on hidle htimed hfirst
  rw [shutdownStage_eq _ i (by simp [shutsDown])] at heq
  exact .of_off (by rw [heq]; simp [shutsDown])

end FirstStage

section IndoorHeating

variable {conv : ToUInt32} {met : Prop}

/-- The begin off time of the indoor unit. -/
def heaterOff (m : Machine (Fin 3)) : Precision :=
  m.args.inputs.equipmentBeginTimes.indoorUnitBeginOffTime

theorem heatingCall_firstStep {m m' : Machine (Fin 3)} (hcall : Call conv m m') (hladder : Ladder m)
    (hbounded : Bounded m.args.inputs.systemConfig)
    (h : Long conv met m 0 (heaterOff m) minIndoorHeaterOffTimeSec) :
    FirstStep met m.args.inputs.currentInterval (m.stage 0) (m'.stage 0) := by
  have hcycle := fun j => hasCycle_of_bounded conv m j hbounded
  cases hcall with
  | turnOn hsystem hmet =>
      exact requestOn_firstStep (hladder.wired.idle 0) ((hladder.allOff hsystem).off 0) (hcycle 0)
        h hmet
  | turnOnTwo hsystem hmet =>
      obtain ⟨hkeeps, -, on, hactive⟩ := requestOn_ladder conv m hladder.wired hladder.outputs
        (hladder.allOff hsystem) hbounded
      have hwired := hladder.wired.of_keeps hkeeps
      obtain ⟨on', c, a, -, heq⟩ := requestAsSupplement_timed conv (requestOn conv m 0) 0 1 on
        (by decide) (hwired.idle 0) (hwired.idle 1) hactive.active (hactive.above 1 (by decide))
        (hasCycle_of_bounded conv _ 1 (by rwa [hkeeps.inputs]))
      exact .of_supplementing
        (by rw [heq]; simp [setStage, Machine.assert, settled, cycling, supplements])
        fun _ => h.met_of_metMinOffTime hmet
  | supplement i j hij hi hmet =>
      obtain ⟨on, hactive⟩ := hladder.activeAt hi
      have hne : j ≠ i := by
        rintro rfl
        omega
      obtain ⟨on', c, a, -, heq⟩ := requestAsSupplement_timed conv m i j on hne
        (hladder.wired.idle i) (hladder.wired.idle j) hactive.active
        (hactive.above j (by omega)) (hcycle j)
      rcases eq_or_ne i 0 with rfl | hpos
      · refine .of_supplementing
          (by rw [heq]; simp [setStage, Machine.assert, settled, cycling, supplements]) ?_
        intro hoff
        rcases hmet with hon | hmet
        · simp [isOn, hon] at hoff
        · exact h.met_of_metMinOffTime hmet
      · have hj : j ≠ 0 := by
          rintro rfl
          simp at hij
        have hsame : (requestAsSupplement conv m i j).stage 0 = m.stage 0 := by
          rw [heq]
          simp [setStage, Machine.assert, settled, cycling, hpos.symm, hj.symm]
        rw [hsame]
        exact .of_eq rfl rfl
  | turnOff i hi =>
      obtain ⟨on, hactive⟩ := hladder.activeAt hi
      rcases eq_or_ne i 0 with rfl | hpos
      · exact requestOff_firstStep (hladder.wired.idle 0) hactive.active
          (hactive.supplemented 0 (by omega))
      · obtain ⟨j, hij⟩ : ∃ j : Fin 3, (j : Nat) + 1 = i :=
          ⟨⟨i - 1, by omega⟩, by simp only; omega⟩
        have hne : j ≠ i := by
          rintro rfl
          omega
        have hsupplemented : (m.stage i).supplemented = true := by
          rw [hactive.supplemented i (by omega)]
          simpa using hpos
        obtain ⟨on', c, a, -, heq⟩ := requestOff_supplemented conv m i j on hne
          (hladder.wired.idle i) (hladder.wired.idle j) hactive.active hsupplemented
          (hactive.prevStage j i (by omega) hij) (hactive.below j (by omega)) (hcycle j)
        rw [shutdownStage_eq _ i (by simp [givesWay])] at heq
        rcases eq_or_ne j 0 with rfl | hj
        · refine .of_now (by rw [heq]; simp [settled, cycling, hpos.symm]) ?_
          intro hoff
          rw [hactive.below 0 (by omega)] at hoff
          cases hoff
        · have hsame : (requestOff conv m i).stage 0 = m.stage 0 := by
            rw [heq]
            simp [settled, cycling, hpos.symm, hj.symm]
          rw [hsame]
          exact .of_eq rfl rfl
  | execute i =>
      rcases eq_or_ne i 0 with rfl | hpos
      · exact execute_firstStep (hladder.wired.idle 0) (hladder.rests.atRest 0) (hcycle 0) h
      · rw [stage_execute_of_ne conv m hpos.symm (hladder.wired.idle i) (hladder.rests.atRest i)
          (hcycle i)]
        exact .of_eq rfl rfl

theorem Long.call {m m' : Machine (Fin 3)}
    (h : Long conv met m 0 (heaterOff m) minIndoorHeaterOffTimeSec)
    (hkeeps : Keeps m m')
    (hfirst : FirstStep met m.args.inputs.currentInterval (m.stage 0) (m'.stage 0)) :
    Long conv met m' 0 (heaterOff m') minIndoorHeaterOffTimeSec := by
  have hoff : heaterOff m' = heaterOff m := by rw [heaterOff, hkeeps.inputs, heaterOff]
  rw [hoff]
  refine ⟨h.beginInRange, ?_, ?_, hkeeps.abort h.abort, ?_, ?_, ?_, ?_⟩
  · rw [hkeeps.inputs]
    exact h.inRange
  · rw [hkeeps.inputs]
    exact h.le
  · rw [hkeeps.inputs]
    exact h.defeat
  · rw [hkeeps.inputs]
    exact h.met_of_minOffMet
  · rw [cycleTimeOf, hkeeps.inputs, (hkeeps.stage 0).systemIndex]
    exact h.met_or_offTime hfirst
  · rw [hkeeps.inputs]
    exact h.since.step hfirst h.inRange h.le

theorem heatingCalls_firstStep {m m' : Machine (Fin 3)} (hcalls : Calls conv m m')
    (hladder : Ladder m) (hbounded : Bounded m.args.inputs.systemConfig)
    (h : Long conv met m 0 (heaterOff m) minIndoorHeaterOffTimeSec) :
    FirstStep met m.args.inputs.currentInterval (m.stage 0) (m'.stage 0) := by
  induction hcalls with
  | refl => exact .of_eq rfl rfl
  | tail hbefore hcall ih =>
      obtain ⟨hkeeps, hladder'⟩ := calls_steps conv hbefore hladder hbounded
      have hstep := heatingCall_firstStep hcall hladder' (by rwa [hkeeps.inputs])
        (h.call hkeeps ih)
      rw [hkeeps.inputs] at hstep
      exact ih.trans hstep

end IndoorHeating

section Cooling

variable {conv : ToUInt32} {met : Prop}

/-- The cooling stage between the calls. -/
structure CoolRests (m : Machine (Fin 1)) : Prop where
  systemIndex : (m.stage 0).systemIndex = 0
  outIndex : (m.stage 0).outIndex = 0
  kind : (m.stage 0).kind = .cooling
  idle : Idle (m.stage 0)
  atRest : AtRest (m.stage 0)

/-- The cooling stage between the calls in its operating mode. -/
structure CoolReady (m : Machine (Fin 1)) : Prop extends CoolRests m where
  follows : m.args.vOutputs.outdoorStages 0 =
    if isOn (m.stage 0).state then virtualOutputsOn else virtualOutputsOff
  first : (m.stage 0).state = .off ∨
    ∃ on, (m.stage 0).state = .timed on ∧ (m.stage 0).supplemented = false ∧
      m.args.systemOn = true

theorem CoolReady.congr {m m' : Machine (Fin 1)} (h : CoolReady m) (hstage : m'.stage = m.stage)
    (houtdoor : m'.args.vOutputs.outdoorStages = m.args.vOutputs.outdoorStages)
    (hsystem : m'.args.systemOn = m.args.systemOn) : CoolReady m' := by
  refine ⟨⟨?_, ?_, ?_, ?_, ?_⟩, ?_, ?_⟩
  · rw [hstage]
    exact h.systemIndex
  · rw [hstage]
    exact h.outIndex
  · rw [hstage]
    exact h.kind
  · rw [hstage]
    exact h.idle
  · rw [hstage]
    exact h.atRest
  · rw [hstage, houtdoor]
    exact h.follows
  · rw [hstage, hsystem]
    exact h.first

/-- What the calls of the cooling stage leave as it is. -/
structure CoolKeeps (m m' : Machine (Fin 1)) : Prop where
  inputs : m'.args.inputs = m.args.inputs
  indoorStages : m'.args.vOutputs.indoorStages = m.args.vOutputs.indoorStages
  abort : m.args.abortOnOffCycle = false → m'.args.abortOnOffCycle = false

theorem CoolKeeps.refl (m : Machine (Fin 1)) : CoolKeeps m m :=
  ⟨rfl, rfl, id⟩

theorem CoolKeeps.trans {m m' m'' : Machine (Fin 1)} (h : CoolKeeps m m') (h' : CoolKeeps m' m'') :
    CoolKeeps m m'' :=
  ⟨h'.inputs.trans h.inputs, h'.indoorStages.trans h.indoorStages,
    fun habort => h'.abort (h.abort habort)⟩

/-- The begin off time of the outdoor unit. -/
def compressorOff (m : Machine (Fin 1)) : Precision :=
  m.args.inputs.equipmentBeginTimes.outdoorUnitBeginOffTime

/-- A call of the cooling stage. -/
structure CoolStep (met : Prop) (m m' : Machine (Fin 1)) : Prop where
  ready : CoolReady m'
  keeps : CoolKeeps m m'
  first : FirstStep met m.args.inputs.currentInterval (m.stage 0) (m'.stage 0)

theorem CoolStep.refl {m : Machine (Fin 1)} (h : CoolReady m) : CoolStep met m m :=
  ⟨h, CoolKeeps.refl m, .of_eq rfl rfl⟩

theorem CoolStep.trans {m m' m'' : Machine (Fin 1)} (h : CoolStep met m m')
    (h' : CoolStep met m' m'') : CoolStep met m m'' := by
  refine ⟨h'.ready, h.keeps.trans h'.keeps, h.first.trans ?_⟩
  have hstep := h'.first
  rw [h.keeps.inputs] at hstep
  exact hstep

theorem Long.coolStep {m m' : Machine (Fin 1)}
    (h : Long conv met m 0 (compressorOff m) minCompressorOffTimeSec) (hready : CoolReady m)
    (hstep : CoolStep met m m') :
    Long conv met m' 0 (compressorOff m') minCompressorOffTimeSec := by
  have hoff : compressorOff m' = compressorOff m := by
    rw [compressorOff, hstep.keeps.inputs, compressorOff]
  rw [hoff]
  refine ⟨h.beginInRange, ?_, ?_, hstep.keeps.abort h.abort, ?_, ?_, ?_, ?_⟩
  · rw [hstep.keeps.inputs]
    exact h.inRange
  · rw [hstep.keeps.inputs]
    exact h.le
  · rw [hstep.keeps.inputs]
    exact h.defeat
  · rw [hstep.keeps.inputs]
    exact h.met_of_minOffMet
  · have hindex := hstep.ready.systemIndex.trans hready.systemIndex.symm
    rw [cycleTimeOf, hstep.keeps.inputs, hindex]
    exact h.met_or_offTime hstep.first
  · rw [hstep.keeps.inputs]
    exact h.since.step hstep.first h.inRange h.le

theorem outdoorStages_cooling (v : VirtualOutputs) (systemIndex outIndex : Nat) (on : Bool) :
    (v.setStage .cooling systemIndex outIndex on).outdoorStages =
      Function.update v.outdoorStages outIndex
        (if on then virtualOutputsOn else virtualOutputsOff) :=
  rfl

theorem indoorStages_cooling (v : VirtualOutputs) (systemIndex outIndex : Nat) (on : Bool) :
    (v.setStage .cooling systemIndex outIndex on).indoorStages = v.indoorStages :=
  rfl

theorem requestOn_coolStep {m : Machine (Fin 1)} (hready : CoolReady m)
    (hbounded : Bounded m.args.inputs.systemConfig)
    (h : Long conv met m 0 (compressorOff m) minCompressorOffTimeSec)
    (hsystem : m.args.systemOn = false)
    (hmet : metMinOffTime m (compressorOff m) minCompressorOffTimeSec = true) :
    CoolStep met m (requestOn conv m 0) := by
  have hcycle := hasCycle_of_bounded conv m 0 hbounded
  have hoff : (m.stage 0).state = .off := by
    rcases hready.first with hoff | ⟨on, -, -, hon⟩
    · exact hoff
    · rw [hsystem] at hon
      cases hon
  obtain ⟨on, c, a, ⟨-, habort⟩, heq⟩ := requestOn_off conv m 0 hready.idle hoff hcycle
  have hself : (requestOn conv m 0).stage 0 =
      restsIn m.args.inputs.currentInterval on (turnsOn (m.stage 0)) := by
    rw [heq, stage_settled_self]
    simp [activated]
  refine ⟨⟨⟨?_, ?_, ?_, ?_, ?_⟩, ?_, ?_⟩, ⟨?_, ?_, ?_⟩,
    requestOn_firstStep hready.idle hoff hcycle h hmet⟩
  · rw [hself]
    exact hready.systemIndex
  · rw [hself]
    exact hready.outIndex
  · rw [hself]
    exact hready.kind
  · rw [hself]
    exact ⟨rfl, rfl⟩
  · rw [hself]
    exact .inr (.inr ⟨on, rfl, rfl⟩)
  · rw [hself, state_restsIn, isOn_timed, heq]
    simp [settled, cycling, activated, turnsOn, hready.kind, hready.outIndex,
      outdoorStages_cooling]
  · rw [hself]
    refine .inr ⟨on, rfl, rfl, ?_⟩
    rw [heq]
    simp [settled, cycling, activated, hready.systemIndex]
  · rw [heq]
    rfl
  · rw [heq]
    simp [settled, cycling, activated, turnsOn, hready.kind, indoorStages_cooling]
  · rwa [heq]

theorem requestOff_coolStep {m : Machine (Fin 1)} (hready : CoolReady m)
    (hactive : (m.stage 0).state.isActive = true) : CoolStep met m (requestOff conv m 0) := by
  obtain ⟨on, htimed, hfirst, -⟩ : ∃ on, (m.stage 0).state = .timed on ∧
      (m.stage 0).supplemented = false ∧ m.args.systemOn = true := by
    rcases hready.first with hoff | htimed
    · rw [hoff] at hactive
      cases hactive
    · exact htimed
  obtain ⟨c, a, habort, heq⟩ := requestOff_first conv m 0 on hready.idle htimed hfirst
  rw [shutdownStage_eq _ 0 (by simp [shutsDown])] at heq
  have hself : (requestOff conv m 0).stage 0 = shutsDown (m.stage 0) := by
    rw [heq]
    simp
  refine ⟨⟨⟨?_, ?_, ?_, ?_, ?_⟩, ?_, ?_⟩, ⟨?_, ?_, ?_⟩,
    requestOff_firstStep hready.idle htimed hfirst⟩
  · rw [hself]
    exact hready.systemIndex
  · rw [hself]
    exact hready.outIndex
  · rw [hself]
    exact hready.kind
  · rw [hself]
    exact hready.idle
  · rw [hself]
    exact .inl rfl
  · rw [hself, heq]
    simp [shutsDown, isOn, State.isInCycle, hready.kind, hready.outIndex, outdoorStages_cooling]
  · rw [hself]
    exact .inl rfl
  · rw [heq]
  · rw [heq]
    simp [shutsDown, hready.kind, indoorStages_cooling]
  · rwa [heq]

theorem execute_coolStep {m : Machine (Fin 1)} (hready : CoolReady m)
    (hbounded : Bounded m.args.inputs.systemConfig)
    (h : Long conv met m 0 (compressorOff m) minCompressorOffTimeSec) :
    CoolStep met m (execute conv m 0) := by
  have hcycle := hasCycle_of_bounded conv m 0 hbounded
  have hstep := execute_firstStep hready.idle hready.atRest hcycle h
  have hwith : CoolReady (withArgs m 0) := by
    refine ⟨⟨?_, ?_, ?_, ?_, ?_⟩, ?_, ?_⟩
    · simpa [withArgs] using hready.systemIndex
    · simpa [withArgs] using hready.outIndex
    · simpa [withArgs] using hready.kind
    · simpa [withArgs, Idle] using hready.idle
    · rcases hready.atRest with hoff | hsupplementing | ⟨on, htimed, -⟩
      · exact .inl (by simpa [withArgs] using hoff)
      · exact .inr (.inl (by simpa [withArgs] using hsupplementing))
      · exact .inr (.inr ⟨on, by simpa [withArgs] using htimed, by simp [withArgs]⟩)
    · simpa [withArgs] using hready.follows
    · simpa [withArgs] using hready.first
  rcases hready.first with hoff | ⟨on, htimed, hfirst, hsystem⟩
  · have heq := execute_inactive conv m 0 hready.idle (.inl hoff)
    rw [heq] at hstep ⊢
    exact ⟨hwith, ⟨rfl, rfl, id⟩, hstep⟩
  · by_cases hfires : fires conv m 0 on
    · obtain ⟨on', c, a, ⟨-, habort⟩, heq⟩ := execute_of_fires conv m 0 on hready.idle htimed
        hfires hcycle
      have hself : (execute conv m 0).stage 0 =
          restsIn m.args.inputs.currentInterval on' ((withArgs m 0).stage 0) := by
        rw [heq, stage_settled_self]
        rfl
      refine ⟨⟨⟨?_, ?_, ?_, ?_, ?_⟩, ?_, ?_⟩, ⟨?_, ?_, ?_⟩, hstep⟩
      · rw [hself]
        exact hwith.systemIndex
      · rw [hself]
        exact hwith.outIndex
      · rw [hself]
        exact hwith.kind
      · rw [hself]
        exact ⟨rfl, rfl⟩
      · rw [hself]
        exact .inr (.inr ⟨on', rfl, by simp [restsIn, withArgs]⟩)
      · rw [hself, state_restsIn, isOn_timed, heq]
        simp [settled, cycling, withArgs, hready.kind, hready.outIndex, outdoorStages_cooling]
      · rw [hself]
        refine .inr ⟨on', rfl, by simpa [restsIn, withArgs] using hfirst, ?_⟩
        rw [heq]
        exact hsystem
      · rw [heq]
        rfl
      · rw [heq]
        simp [settled, cycling, withArgs, hready.kind, indoorStages_cooling]
      · rwa [heq]
    · have heq := execute_of_not_fires conv m 0 on hready.idle htimed hfires
      rw [heq] at hstep ⊢
      exact ⟨⟨⟨hwith.systemIndex, hwith.outIndex, hwith.kind, hwith.idle, hwith.atRest⟩,
        hwith.follows, hwith.first⟩, ⟨rfl, rfl, id⟩, hstep⟩

theorem singleStage_coolStep {m : Machine (Fin 1)} (hready : CoolReady m)
    (hbounded : Bounded m.args.inputs.systemConfig)
    (h : Long conv met m 0 (compressorOff m) minCompressorOffTimeSec) :
    CoolStep met m (Cooling.singleStage conv m).1 := by
  rw [Cooling.singleStage, singleStageOf]
  split_ifs with hon hmet hoff
  · exact requestOn_coolStep hready hbounded h hon.1 hmet
  · exact .refl hready
  · simp only [requestOffWhenMet]
    split_ifs
    · exact requestOff_coolStep hready hoff.1
    · exact .refl hready
  · exact .refl hready

theorem executeActive_coolStep {m : Machine (Fin 1)} (hready : CoolReady m)
    (hbounded : Bounded m.args.inputs.systemConfig)
    (h : Long conv met m 0 (compressorOff m) minCompressorOffTimeSec) :
    CoolStep met m (Cooling.executeActive conv m).1 := by
  rw [Cooling.executeActive]
  split_ifs
  · have hsingle := singleStage_coolStep hready hbounded h
    exact hsingle.trans (execute_coolStep hsingle.ready (by rwa [hsingle.keeps.inputs])
      (h.coolStep hready hsingle))
  · exact .refl hready

theorem executeOff_coolRests {m : Machine (Fin 1)} (h : CoolRests m) :
    CoolRests (Cooling.executeOff conv m).1 ∧
      ((Cooling.executeOff conv m).1.stage 0).state = .off ∧
      CoolKeeps m (Cooling.executeOff conv m).1 ∧
      (Cooling.executeOff conv m).1.args.vOutputs = m.args.vOutputs := by
  obtain ⟨s, c, a, ⟨hoff, hidle, hkind, hindex, hout⟩, -, habort, heq⟩ :=
    requestModeToOff_eq conv m 0 h.idle h.atRest
  have hself : ((Cooling.executeOff conv m).1.stage 0) = s := by
    rw [Cooling.executeOff, heq]
    simp
  refine ⟨⟨?_, ?_, ?_, ?_, ?_⟩, ?_, ⟨?_, ?_, ?_⟩, ?_⟩
  · rw [hself, hindex, h.systemIndex]
  · rw [hself, hout, h.outIndex]
  · rw [hself, hkind, h.kind]
  · rwa [hself]
  · rw [hself]
    exact .inl hoff
  · rwa [hself]
  · rw [Cooling.executeOff, heq]
  · rw [Cooling.executeOff, heq]
  · rwa [Cooling.executeOff, heq]
  · rw [Cooling.executeOff, heq]

theorem reset_coolRests {m : Machine (Fin 1)} (h : CoolRests m) :
    Cooling.reset conv m = (Cooling.executeOff conv m).1 := by
  rw [Cooling.reset, reconfigure_self m 0 h.systemIndex h.outIndex, Cooling.executeOff]

theorem reset_coolReady {m : Machine (Fin 1)} (h : CoolRests m) :
    CoolReady (Cooling.reset conv { m with args := Control.resetArgs m.args }) ∧
      CoolKeeps { m with args := Control.resetArgs m.args }
        (Cooling.reset conv { m with args := Control.resetArgs m.args }) ∧
      ((Cooling.reset conv { m with args := Control.resetArgs m.args }).stage 0).state = .off := by
  have hrests : CoolRests { m with args := Control.resetArgs m.args } :=
    ⟨h.systemIndex, h.outIndex, h.kind, h.idle, h.atRest⟩
  obtain ⟨hrests', hoff, hkeeps, houtputs⟩ := executeOff_coolRests hrests
  rw [reset_coolRests hrests]
  refine ⟨⟨hrests', ?_, .inl hoff⟩, hkeeps, hoff⟩
  rw [hoff, houtputs]
  rfl

end Cooling

end ColonyPico.Storm.FirstStage
