import ColonyPico.Storm.EquipmentControl
import ColonyPico.Storm.StageRuns
import Mathlib.Data.List.GetD
import Mathlib.Logic.Relation
import Mathlib.Order.Fin.Basic

/-!
The stages of the indoor heating over whole runs: the active stage stands on stages that
supplement it, and all stages above are off.
-/

namespace ColonyPico.Storm.StageLadder

open ColonyPico.Storm.Config
open ColonyPico.Storm.DutyCycle
open ColonyPico.Storm.EquipmentControl
open ColonyPico.Storm.StageFsm
open ColonyPico.Storm.StageRuns
open ColonyPico.System.ElapsedTime

variable (conv : ToUInt32)

/-- The stage's output is on: it supplements the next stage or is in its on cycle. -/
def isOn (state : State) : Bool :=
  state = .supplementingNextStage ∨ state.isInCycle true

/-- The stages as they are wired and as they are between the calls. -/
structure Wired (m : Machine (Fin 3)) : Prop where
  index : ∀ i, (m.stage i).systemIndex = i ∧ (m.stage i).outIndex = i
  kind : ∀ i, ∃ controlFan, (m.stage i).kind = .indoorHeat controlFan
  idle : ∀ i, Idle (m.stage i)
  assertFailed : m.assertFailed = false
  overflow : m.overflow = false
  stuck : m.stuck = false

/-- The outputs of the stages follow their states. -/
def OutputsFollow (m : Machine (Fin 3)) : Prop :=
  ∀ i : Fin 3, m.args.vOutputs.indoorStages i =
    if isOn (m.stage i).state then virtualOutputsOn else virtualOutputsOff

/-- All stages are off. -/
structure AllOff (m : Machine (Fin 3)) : Prop where
  off : ∀ i, (m.stage i).state = .off
  systemOn : m.args.systemOn = false

/-- Stage `k` is active and at rest in one of its cycles. -/
structure ActiveAt (m : Machine (Fin 3)) (k : Fin 3) (on : Bool) : Prop where
  active : (m.stage k).state = .timed on
  hasArgs : (m.stage k).hasArgs = true
  below : ∀ j < k, (m.stage j).state = .supplementingNextStage
  above : ∀ j, k < j → (m.stage j).state = .off
  supplemented : ∀ j ≤ k, (m.stage j).supplemented = decide (j ≠ 0)
  prevStage : ∀ i j : Fin 3, j ≤ k → (i : Nat) + 1 = j → (m.stage j).prevStage = some i
  systemOn : m.args.systemOn = true

/-- The stages form a ladder. -/
structure Ladder (m : Machine (Fin 3)) : Prop where
  wired : Wired m
  outputs : OutputsFollow m
  shape : AllOff m ∨ ∃ k on, ActiveAt m k on

/-- Each stage of the configuration covers some load. -/
def Bounded (cfg : SystemConfig) : Prop :=
  ∀ i, (cfg.stages.getD i Config.Stage.off).lowerBound <
    (cfg.stages.getD i Config.Stage.off).upperBound

theorem hasCycle_of_bounded {ι : Type} (m : Machine ι) (i : ι)
    (h : Bounded m.args.inputs.systemConfig) : HasCycle conv m i :=
  cycle_not_empty conv m.args.inputs.pvOut _ _ _ (h (m.stage i).systemIndex)

theorem outdoorStages_setStage (v : VirtualOutputs) (controlFan : Bool)
    (systemIndex outIndex : Nat) (on : Bool) :
    (v.setStage (.indoorHeat controlFan) systemIndex outIndex on).outdoorStages =
      v.outdoorStages :=
  rfl

theorem indoorStages_setStage (v : VirtualOutputs) (controlFan : Bool) (systemIndex outIndex : Nat)
    (on : Bool) :
    (v.setStage (.indoorHeat controlFan) systemIndex outIndex on).indoorStages =
      Function.update v.indoorStages outIndex
        (if on then virtualOutputsOn else virtualOutputsOff) :=
  rfl

/-- A stage keeps its place, and comes to rest again. -/
structure SamePlace (s s' : StageFsm.Stage (Fin 3)) : Prop where
  systemIndex : s'.systemIndex = s.systemIndex
  outIndex : s'.outIndex = s.outIndex
  kind : s'.kind = s.kind
  idle : Idle s → Idle s'

theorem SamePlace.refl (s : StageFsm.Stage (Fin 3)) : SamePlace s s :=
  ⟨rfl, rfl, rfl, id⟩

/-- Two stages at most have changed, and those keep their places. -/
theorem samePlace_of_two {m m' : Machine (Fin 3)} (i j : Fin 3)
    (hi : SamePlace (m.stage i) (m'.stage i)) (hj : SamePlace (m.stage j) (m'.stage j))
    (hother : ∀ l, l ≠ i → l ≠ j → m'.stage l = m.stage l) (l : Fin 3) :
    SamePlace (m.stage l) (m'.stage l) := by
  rcases eq_or_ne l i with rfl | hli
  · exact hi
  rcases eq_or_ne l j with rfl | hlj
  · exact hj
  rw [hother l hli hlj]
  exact SamePlace.refl _

theorem samePlace_of_one {m m' : Machine (Fin 3)} (i : Fin 3)
    (hi : SamePlace (m.stage i) (m'.stage i)) (hother : ∀ l, l ≠ i → m'.stage l = m.stage l)
    (l : Fin 3) : SamePlace (m.stage l) (m'.stage l) :=
  samePlace_of_two i i hi hi (fun l hl _ => hother l hl) l

/-- What the calls of the stages leave as it is. -/
structure Keeps (m m' : Machine (Fin 3)) : Prop where
  stage : ∀ i, SamePlace (m.stage i) (m'.stage i)
  inputs : m'.args.inputs = m.args.inputs
  outdoorStages : m'.args.vOutputs.outdoorStages = m.args.vOutputs.outdoorStages
  abort : m.args.abortOnOffCycle = false → m'.args.abortOnOffCycle = false
  assertFailed : m'.assertFailed = m.assertFailed
  overflow : m'.overflow = m.overflow
  stuck : m'.stuck = m.stuck

theorem Keeps.refl (m : Machine (Fin 3)) : Keeps m m :=
  ⟨fun _ => SamePlace.refl _, rfl, rfl, id, rfl, rfl, rfl⟩

theorem Wired.of_keeps {m m' : Machine (Fin 3)} (hwired : Wired m) (h : Keeps m m') :
    Wired m' := by
  constructor
  · intro i
    obtain ⟨hsystem, hout⟩ := hwired.index i
    exact ⟨(h.stage i).systemIndex.trans hsystem, (h.stage i).outIndex.trans hout⟩
  · intro i
    rw [(h.stage i).kind]
    exact hwired.kind i
  · intro i
    exact (h.stage i).idle (hwired.idle i)
  · exact h.assertFailed.trans hwired.assertFailed
  · exact h.overflow.trans hwired.overflow
  · exact h.stuck.trans hwired.stuck

/-- The outputs of two stages at most have changed, and those follow. -/
theorem OutputsFollow.update {m m' : Machine (Fin 3)} (h : OutputsFollow m) (i j : Fin 3)
    (hother : ∀ l, l ≠ i → l ≠ j → (m'.stage l).state = (m.stage l).state)
    (on on' : Bool) (hi : isOn (m'.stage i).state = on)
    (hj : j ≠ i → isOn (m'.stage j).state = on')
    (houtputs : m'.args.vOutputs.indoorStages =
      Function.update
        (Function.update m.args.vOutputs.indoorStages j
          (if on' then virtualOutputsOn else virtualOutputsOff))
        i (if on then virtualOutputsOn else virtualOutputsOff)) :
    OutputsFollow m' := by
  intro l
  rw [houtputs]
  rcases eq_or_ne l i with rfl | hli
  · rw [Function.update_self, hi]
  · rw [Function.update_of_ne (fun hval => hli (Fin.ext hval))]
    rcases eq_or_ne l j with rfl | hlj
    · rw [Function.update_self, hj hli]
    · rw [Function.update_of_ne (fun hval => hlj (Fin.ext hval)), hother l hli hlj, h l]

theorem isOn_timed (on : Bool) : isOn (.timed on) = on := by
  cases on <;> rfl

theorem ActiveAt.up {m m' : Machine (Fin 3)} {i j : Fin 3} {on on' : Bool} (h : ActiveAt m i on)
    (hij : (i : Nat) + 1 = j) (hi : m'.stage i = supplements j (m.stage i))
    (hstate : (m'.stage j).state = .timed on') (hargs : (m'.stage j).hasArgs = true)
    (hsupplemented : (m'.stage j).supplemented = true)
    (hprevStage : (m'.stage j).prevStage = some i)
    (hother : ∀ l, l ≠ i → l ≠ j → m'.stage l = m.stage l)
    (hsystem : m'.args.systemOn = m.args.systemOn) : ActiveAt m' j on' := by
  constructor
  · exact hstate
  · exact hargs
  · intro l hl
    rcases eq_or_ne l i with rfl | hli
    · rw [hi]
      rfl
    · rw [hother l hli (by omega)]
      exact h.below l (by omega)
  · intro l hl
    rw [hother l (by omega) (by omega)]
    exact h.above l (by omega)
  · intro l hl
    rcases eq_or_ne l j with rfl | hlj
    · have hpos : l ≠ 0 := by omega
      simpa [hpos] using hsupplemented
    · rcases eq_or_ne l i with rfl | hli
      · rw [hi]
        exact h.supplemented l (by omega)
      · rw [hother l hli hlj]
        exact h.supplemented l (by omega)
  · intro l l' hl hll
    rcases eq_or_ne l' j with rfl | hlj
    · obtain rfl : l = i := by omega
      exact hprevStage
    · rcases eq_or_ne l' i with rfl | hli
      · rw [hi]
        exact h.prevStage l l' (by omega) hll
      · rw [hother l' hli hlj]
        exact h.prevStage l l' (by omega) hll
  · exact hsystem.trans h.systemOn

theorem ActiveAt.down {m m' : Machine (Fin 3)} {i j : Fin 3} {on on' : Bool}
    (h : ActiveAt m i on) (hij : (j : Nat) + 1 = i) (hi : m'.stage i = givesWay (m.stage i))
    (hstate : (m'.stage j).state = .timed on') (hargs : (m'.stage j).hasArgs = true)
    (hsupplemented : (m'.stage j).supplemented = (m.stage j).supplemented)
    (hprevStage : (m'.stage j).prevStage = (m.stage j).prevStage)
    (hother : ∀ l, l ≠ i → l ≠ j → m'.stage l = m.stage l)
    (hsystem : m'.args.systemOn = m.args.systemOn) : ActiveAt m' j on' := by
  constructor
  · exact hstate
  · exact hargs
  · intro l hl
    rw [hother l (by omega) (by omega)]
    exact h.below l (by omega)
  · intro l hl
    rcases eq_or_ne l i with rfl | hli
    · rw [hi]
      rfl
    · rw [hother l hli (by omega)]
      exact h.above l (by omega)
  · intro l hl
    rcases eq_or_ne l j with rfl | hlj
    · rw [hsupplemented]
      exact h.supplemented l (by omega)
    · rw [hother l (by omega) hlj]
      exact h.supplemented l (by omega)
  · intro l l' hl hll
    rcases eq_or_ne l' j with rfl | hlj
    · rw [hprevStage]
      exact h.prevStage l l' (by omega) hll
    · rw [hother l' (by omega) hlj]
      exact h.prevStage l l' (by omega) hll
  · exact hsystem.trans h.systemOn

/-- The first stage of a system that is off becomes the active one. -/
theorem requestOn_ladder (m : Machine (Fin 3)) (hwired : Wired m) (hfollow : OutputsFollow m)
    (hoff : AllOff m) (hbounded : Bounded m.args.inputs.systemConfig) :
    Keeps m (requestOn conv m 0) ∧ OutputsFollow (requestOn conv m 0) ∧
      ∃ on, ActiveAt (requestOn conv m 0) 0 on := by
  obtain ⟨on, c, a, ⟨-, habort⟩, heq⟩ := requestOn_off conv m 0 (hwired.idle 0) (hoff.off 0)
    (hasCycle_of_bounded conv m 0 hbounded)
  obtain ⟨controlFan, hkind⟩ := hwired.kind 0
  obtain ⟨hindex, hout⟩ := hwired.index 0
  have hself : (requestOn conv m 0).stage 0 =
      restsIn m.args.inputs.currentInterval on (turnsOn (m.stage 0)) := by
    rw [heq, stage_settled_self]
    simp [activated]
  have hother : ∀ j, j ≠ 0 → (requestOn conv m 0).stage j = m.stage j := by
    intro j hj
    rw [heq]
    simp [settled, cycling, hj]
  refine ⟨?_, ?_, on, ?_⟩
  · refine ⟨?_, by rw [heq]; rfl, ?_, by rwa [heq], by rw [heq]; rfl, by rw [heq]; rfl,
      by rw [heq]; rfl⟩
    · refine samePlace_of_one 0 ?_ hother
      rw [hself]
      exact ⟨rfl, rfl, rfl, fun _ => ⟨rfl, rfl⟩⟩
    · rw [heq]
      simp [settled, cycling, activated, turnsOn, hkind, outdoorStages_setStage]
  · refine hfollow.update 0 0 (fun j hj _ => by rw [hother j hj]) on on
      (by rw [hself, state_restsIn, isOn_timed]) (fun h => absurd rfl h) ?_
    rw [heq]
    simp [settled, cycling, activated, turnsOn, hkind, hindex, hout, indoorStages_setStage]
  · constructor
    · rw [hself, state_restsIn]
    · rw [hself]
      rfl
    · intro j hj
      omega
    · intro j hj
      rw [hother j (by omega), hoff.off j]
    · intro j hj
      obtain rfl : j = 0 := by omega
      rw [hself]
      simp [restsIn, turnsOn]
    · intro i j hj hij
      omega
    · rw [heq]
      simp [settled, cycling, activated, hindex]

/-- The stage above the active one becomes the active one. -/
theorem requestAsSupplement_ladder (m : Machine (Fin 3)) (i j : Fin 3) (hij : (i : Nat) + 1 = j)
    (on : Bool) (hwired : Wired m) (hfollow : OutputsFollow m) (hactive : ActiveAt m i on)
    (hbounded : Bounded m.args.inputs.systemConfig) :
    Keeps m (requestAsSupplement conv m i j) ∧
      OutputsFollow (requestAsSupplement conv m i j) ∧
      ∃ on', ActiveAt (requestAsSupplement conv m i j) j on' := by
  have hne : j ≠ i := by
    rintro rfl
    omega
  obtain ⟨on', c, a, ⟨-, habort⟩, heq⟩ := requestAsSupplement_timed conv m i j on hne
    (hwired.idle i)
    (hwired.idle j) hactive.active (hactive.above j (by omega))
    (hasCycle_of_bounded conv m j hbounded)
  obtain ⟨controlFan, hkind⟩ := hwired.kind i
  obtain ⟨controlFan', hkind'⟩ := hwired.kind j
  obtain ⟨-, hout⟩ := hwired.index i
  obtain ⟨-, hout'⟩ := hwired.index j
  have hi : (requestAsSupplement conv m i j).stage i = supplements j (m.stage i) := by
    rw [heq]
    simp [setStage, settled, cycling, Machine.assert, hne.symm]
  have hj : (requestAsSupplement conv m i j).stage j =
      restsIn m.args.inputs.currentInterval on' (takesOver i true (m.stage j)) := by
    rw [heq]
    simp [setStage, Machine.assert, hne]
  have hother : ∀ l, l ≠ i → l ≠ j → (requestAsSupplement conv m i j).stage l = m.stage l := by
    intro l hli hlj
    rw [heq]
    simp [setStage, settled, cycling, Machine.assert, hli, hlj]
  refine ⟨⟨?_, ?_, ?_, ?_, ?_, ?_, ?_⟩, ?_, on', ?_⟩
  · refine samePlace_of_two i j ?_ ?_ hother
    · rw [hi]
      exact ⟨rfl, rfl, rfl, id⟩
    · rw [hj]
      exact ⟨rfl, rfl, rfl, fun _ => ⟨rfl, rfl⟩⟩
  · rw [heq]
    rfl
  · rw [heq]
    simp [setStage, settled, cycling, supplements, takesOver, hne.symm, hkind, hkind',
      outdoorStages_setStage]
  · rwa [heq]
  · rw [heq]
    simp [setStage, Machine.assert, supplements, settled, cycling, Machine.update]
  · rw [heq]
    rfl
  · rw [heq]
    rfl
  · refine hfollow.update i j (fun l hli hlj => by rw [hother l hli hlj]) true on'
      (by rw [hi]; rfl) (fun _ => by rw [hj, state_restsIn, isOn_timed]) ?_
    rw [heq]
    simp [setStage, settled, cycling, supplements, takesOver, hne.symm, hkind, hkind', hout, hout',
      indoorStages_setStage]
  · refine hactive.up hij hi (by rw [hj, state_restsIn]) ?_ ?_ ?_ hother ?_
    · rw [hj]
      rfl
    · rw [hj]
      rfl
    · rw [hj]
      rfl
    · rw [heq]
      rfl

/-- The stage below the active one becomes the active one. -/
theorem requestOff_ladder (m : Machine (Fin 3)) (i j : Fin 3) (hij : (j : Nat) + 1 = i)
    (on : Bool) (hwired : Wired m) (hfollow : OutputsFollow m) (hactive : ActiveAt m i on)
    (hbounded : Bounded m.args.inputs.systemConfig) :
    Keeps m (requestOff conv m i) ∧ OutputsFollow (requestOff conv m i) ∧
      ∃ on', ActiveAt (requestOff conv m i) j on' := by
  have hne : j ≠ i := by
    rintro rfl
    omega
  have hpos : i ≠ 0 := by
    rintro rfl
    simp at hij
  have hsupplemented : (m.stage i).supplemented = true := by
    rw [hactive.supplemented i (by omega)]
    simpa using hpos
  obtain ⟨on', c, a, ⟨-, habort⟩, heq⟩ := requestOff_supplemented conv m i j on hne (hwired.idle i)
    (hwired.idle j) hactive.active hsupplemented (hactive.prevStage j i (by omega) hij)
    (hactive.below j (by omega)) (hasCycle_of_bounded conv m j hbounded)
  rw [shutdownStage_eq _ i (by simp [givesWay])] at heq
  obtain ⟨controlFan, hkind⟩ := hwired.kind i
  obtain ⟨controlFan', hkind'⟩ := hwired.kind j
  obtain ⟨hindex, hout⟩ := hwired.index i
  obtain ⟨-, hout'⟩ := hwired.index j
  have hi : (requestOff conv m i).stage i = givesWay (m.stage i) := by
    rw [heq]
    simp [settled, cycling, hne.symm]
  have hj : (requestOff conv m i).stage j =
      restsIn m.args.inputs.currentInterval on' (takesBack true (m.stage j)) := by
    rw [heq]
    simp [hne]
  have hother : ∀ l, l ≠ i → l ≠ j → (requestOff conv m i).stage l = m.stage l := by
    intro l hli hlj
    rw [heq]
    simp [settled, cycling, hli, hlj]
  have hindex' : (m.stage i).systemIndex ≠ 0 := by omega
  refine ⟨⟨?_, ?_, ?_, ?_, ?_, ?_, ?_⟩, ?_, on', ?_⟩
  · refine samePlace_of_two i j ?_ ?_ hother
    · rw [hi]
      exact ⟨rfl, rfl, rfl, id⟩
    · rw [hj]
      exact ⟨rfl, rfl, rfl, fun _ => ⟨rfl, rfl⟩⟩
  · rw [heq]
    rfl
  · rw [heq]
    simp [settled, cycling, givesWay, takesBack, hne.symm, hkind, hkind', outdoorStages_setStage]
  · rwa [heq]
  · rw [heq]
    rfl
  · rw [heq]
    rfl
  · rw [heq]
    rfl
  · refine hfollow.update i j (fun l hli hlj => by rw [hother l hli hlj]) false on'
      (by rw [hi]; rfl) (fun _ => by rw [hj, state_restsIn, isOn_timed]) ?_
    rw [heq]
    simp [settled, cycling, givesWay, takesBack, hne.symm, hkind, hkind', hout, hout',
      indoorStages_setStage]
  · refine hactive.down hij hi (by rw [hj, state_restsIn]) ?_ ?_ ?_ hother ?_
    · rw [hj]
      rfl
    · rw [hj]
      rfl
    · rw [hj]
      rfl
    · rw [heq]
      simp [settled, cycling, givesWay, hne.symm, hindex']

theorem requestOff_allOff (m : Machine (Fin 3)) (on : Bool) (hwired : Wired m)
    (hfollow : OutputsFollow m) (hactive : ActiveAt m 0 on) :
    Keeps m (requestOff conv m 0) ∧ OutputsFollow (requestOff conv m 0) ∧
      AllOff (requestOff conv m 0) := by
  obtain ⟨c, a, habort, heq⟩ := requestOff_first conv m 0 on (hwired.idle 0) hactive.active
    (hactive.supplemented 0 (by omega))
  rw [shutdownStage_eq _ 0 (by simp [shutsDown])] at heq
  obtain ⟨controlFan, hkind⟩ := hwired.kind 0
  obtain ⟨hindex, hout⟩ := hwired.index 0
  have hself : (requestOff conv m 0).stage 0 = shutsDown (m.stage 0) := by
    rw [heq]
    simp
  have hother : ∀ j, j ≠ 0 → (requestOff conv m 0).stage j = m.stage j := by
    intro j hj
    rw [heq]
    simp [hj]
  refine ⟨⟨?_, ?_, ?_, ?_, ?_, ?_, ?_⟩, ?_, ?_, ?_⟩
  · refine samePlace_of_one 0 ?_ hother
    rw [hself]
    exact ⟨rfl, rfl, rfl, id⟩
  · rw [heq]
  · rw [heq]
    simp [shutsDown, hkind, outdoorStages_setStage]
  · rwa [heq]
  · rw [heq]
    rfl
  · rw [heq]
    rfl
  · rw [heq]
    rfl
  · refine hfollow.update 0 0 (fun j hj _ => by rw [hother j hj]) false false
      (by rw [hself]; rfl) (fun h => absurd rfl h) ?_
    rw [heq]
    simp [shutsDown, hkind, hout, indoorStages_setStage]
  · intro i
    rcases eq_or_ne i 0 with rfl | hi
    · rw [hself]
      rfl
    · rw [hother i hi]
      exact hactive.above i (by omega)
  · rw [heq]
    simp [shutsDown, hindex]

theorem ActiveAt.congr {m m' : Machine (Fin 3)} {k : Fin 3} {on on' : Bool}
    (h : ActiveAt m k on) (hself : (m'.stage k).state = .timed on')
    (hargs : (m'.stage k).hasArgs = true)
    (hother : ∀ j, j ≠ k → (m'.stage j).state = (m.stage j).state)
    (hlinks : ∀ j, (m'.stage j).supplemented = (m.stage j).supplemented ∧
      (m'.stage j).prevStage = (m.stage j).prevStage)
    (hsystem : m'.args.systemOn = m.args.systemOn) : ActiveAt m' k on' := by
  constructor
  · exact hself
  · exact hargs
  · intro j hj
    rw [hother j (by omega), h.below j hj]
  · intro j hj
    rw [hother j (by omega), h.above j hj]
  · intro j hj
    rw [(hlinks j).1, h.supplemented j hj]
  · intro i j hj hij
    rw [(hlinks j).2, h.prevStage i j hj hij]
  · rw [hsystem, h.systemOn]

theorem withArgs_ladder (m : Machine (Fin 3)) (i : Fin 3) (h : Ladder m) :
    Keeps m (withArgs m i) ∧ Ladder (withArgs m i) := by
  have hstage : ∀ j, (withArgs m i).stage j = m.stage j ∨
      (withArgs m i).stage j = { m.stage j with hasArgs := true } := by
    intro j
    rcases eq_or_ne j i with rfl | hne
    · right
      simp [withArgs]
    · left
      simp [withArgs, hne]
  have hstate : ∀ j, ((withArgs m i).stage j).state = (m.stage j).state := by
    intro j
    rcases hstage j with hj | hj <;> rw [hj]
  have hkeeps : Keeps m (withArgs m i) := by
    refine ⟨?_, rfl, rfl, id, rfl, rfl, rfl⟩
    intro j
    rcases hstage j with hj | hj <;> rw [hj]
    · exact SamePlace.refl _
    · exact ⟨rfl, rfl, rfl, id⟩
  refine ⟨hkeeps, h.wired.of_keeps hkeeps, ?_, ?_⟩
  · intro j
    rw [hstate j]
    exact h.outputs j
  · rcases h.shape with hoff | ⟨k, on, hactive⟩
    · left
      exact ⟨fun j => (hstate j).trans (hoff.off j), hoff.systemOn⟩
    · right
      refine ⟨k, on, hactive.congr ((hstate k).trans hactive.active) ?_ (fun j _ => hstate j) ?_
        rfl⟩
      · rcases hstage k with hk | hk <;> rw [hk]
        exact hactive.hasArgs
      · intro j
        rcases hstage j with hj | hj <;> rw [hj] <;> exact ⟨rfl, rfl⟩

theorem execute_ladder (m : Machine (Fin 3)) (i : Fin 3) (h : Ladder m)
    (hbounded : Bounded m.args.inputs.systemConfig) :
    Keeps m (execute conv m i) ∧ Ladder (execute conv m i) := by
  have hrest : (m.stage i).state = .off ∨ (m.stage i).state = .supplementingNextStage →
      Keeps m (execute conv m i) ∧ Ladder (execute conv m i) := by
    intro hstate
    rw [execute_inactive conv m i (h.wired.idle i) hstate]
    exact withArgs_ladder m i h
  rcases h.shape with hoff | ⟨k, on, hactive⟩
  · exact hrest (.inl (hoff.off i))
  rcases lt_trichotomy i k with hlt | rfl | hgt
  · exact hrest (.inr (hactive.below i hlt))
  · obtain ⟨hkeeps, hladder⟩ := withArgs_ladder m i h
    by_cases hfires : fires conv m i on
    · obtain ⟨on', c, a, ⟨-, habort⟩, heq⟩ := execute_of_fires conv m i on (h.wired.idle i)
        hactive.active hfires (hasCycle_of_bounded conv m i hbounded)
      obtain ⟨controlFan, hkind⟩ := h.wired.kind i
      obtain ⟨-, hout⟩ := h.wired.index i
      have hself : (execute conv m i).stage i =
          restsIn m.args.inputs.currentInterval on' ((withArgs m i).stage i) := by
        rw [heq, stage_settled_self]
        rfl
      have hother : ∀ j, j ≠ i → (execute conv m i).stage j = m.stage j := by
        intro j hj
        rw [heq]
        simp [settled, cycling, withArgs, hj]
      have hkeeps' : Keeps m (execute conv m i) := by
        refine ⟨?_, by rw [heq]; rfl, ?_, by rwa [heq], by rw [heq]; rfl, by rw [heq]; rfl,
          by rw [heq]; rfl⟩
        · refine samePlace_of_one i ?_ hother
          rw [hself]
          exact ⟨(hkeeps.stage i).systemIndex, (hkeeps.stage i).outIndex,
            (hkeeps.stage i).kind, fun _ => ⟨rfl, rfl⟩⟩
        · rw [heq]
          simp [settled, cycling, withArgs, hkind, outdoorStages_setStage]
      refine ⟨hkeeps', h.wired.of_keeps hkeeps', ?_, .inr ⟨i, on', ?_⟩⟩
      · refine h.outputs.update i i (fun j hj _ => by rw [hother j hj]) on' on'
          (by rw [hself, state_restsIn, isOn_timed]) (fun hne => absurd rfl hne) ?_
        rw [heq]
        simp [settled, cycling, withArgs, hkind, hout, indoorStages_setStage]
      · refine hactive.congr (by rw [hself, state_restsIn])
          (by rw [hself]; simp [restsIn, withArgs])
          (fun j hj => by rw [hother j hj]) ?_ (by rw [heq]; rfl)
        intro j
        rcases eq_or_ne j i with rfl | hj
        · rw [hself]
          simp [restsIn, withArgs]
        · rw [hother j hj]
          exact ⟨rfl, rfl⟩
    · rw [execute_of_not_fires conv m i on (h.wired.idle i) hactive.active hfires]
      refine ⟨⟨hkeeps.stage, rfl, rfl, id, rfl, rfl, rfl⟩, ?_, hladder.outputs, ?_⟩
      · exact ⟨hladder.wired.index, hladder.wired.kind, hladder.wired.idle,
          hladder.wired.assertFailed, hladder.wired.overflow, hladder.wired.stuck⟩
      · rcases hladder.shape with hoff | ⟨k, on, hactive⟩
        · exact .inl ⟨hoff.off, hoff.systemOn⟩
        · exact .inr ⟨k, on, hactive.congr hactive.active hactive.hasArgs (fun _ _ => rfl)
            (fun _ => ⟨rfl, rfl⟩) rfl⟩
  · exact hrest (.inl (hactive.above i hgt))

theorem Keeps.trans {m m' m'' : Machine (Fin 3)} (h : Keeps m m') (h' : Keeps m' m'') :
    Keeps m m'' := by
  refine ⟨?_, h'.inputs.trans h.inputs, h'.outdoorStages.trans h.outdoorStages,
    fun habort => h'.abort (h.abort habort), h'.assertFailed.trans h.assertFailed,
    h'.overflow.trans h.overflow, h'.stuck.trans h.stuck⟩
  intro i
  exact ⟨(h'.stage i).systemIndex.trans (h.stage i).systemIndex,
    (h'.stage i).outIndex.trans (h.stage i).outIndex,
    (h'.stage i).kind.trans (h.stage i).kind, fun hi => (h'.stage i).idle ((h.stage i).idle hi)⟩

/-- A call takes a ladder to a ladder. -/
def Steps (m m' : Machine (Fin 3)) : Prop :=
  Keeps m m' ∧ Ladder m'

theorem Ladder.of_keeps {m m' : Machine (Fin 3)} (h : Ladder m)
    (hstep : Keeps m m' ∧ OutputsFollow m' ∧ ((∃ k on, ActiveAt m' k on) ∨ AllOff m')) :
    Steps m m' :=
  ⟨hstep.1, h.wired.of_keeps hstep.1, hstep.2.1, hstep.2.2.symm⟩

theorem Ladder.allOff {m : Machine (Fin 3)} (h : Ladder m) (hsystem : m.args.systemOn = false) :
    AllOff m := by
  rcases h.shape with hoff | ⟨k, on, hactive⟩
  · exact hoff
  · rw [hactive.systemOn] at hsystem
    cases hsystem

theorem Ladder.activeAt {m : Machine (Fin 3)} (h : Ladder m) {i : Fin 3}
    (hi : (m.stage i).state.isActive = true) : ∃ on, ActiveAt m i on := by
  rcases h.shape with hoff | ⟨k, on, hactive⟩
  · rw [hoff.off i] at hi
    cases hi
  · rcases lt_trichotomy i k with hlt | rfl | hgt
    · rw [hactive.below i hlt] at hi
      cases hi
    · exact ⟨on, hactive⟩
    · rw [hactive.above i hgt] at hi
      cases hi

/-- A call that the equipment makes to its stages, with what it has checked before. -/
inductive Call : Machine (Fin 3) → Machine (Fin 3) → Prop where
  | turnOn (m : Machine (Fin 3)) : m.args.systemOn = false →
      IndoorHeating.metMinHeaterOffTime m = true → Call m (requestOn conv m 0)
  | turnOnTwo (m : Machine (Fin 3)) : m.args.systemOn = false →
      IndoorHeating.metMinHeaterOffTime m = true →
      Call m (requestAsSupplement conv (requestOn conv m 0) 0 1)
  | supplement (m : Machine (Fin 3)) (i j : Fin 3) : (i : Nat) + 1 = j →
      (m.stage i).state.isActive = true →
      (m.stage i).state.isInCycle true = true ∨ IndoorHeating.metMinHeaterOffTime m = true →
      Call m (requestAsSupplement conv m i j)
  | turnOff (m : Machine (Fin 3)) (i : Fin 3) : (m.stage i).state.isActive = true →
      Call m (requestOff conv m i)
  | execute (m : Machine (Fin 3)) (i : Fin 3) : Call m (execute conv m i)

/-- A sequence of calls. -/
abbrev Calls (m m' : Machine (Fin 3)) : Prop :=
  Relation.ReflTransGen (Call conv) m m'

theorem turnOnTwoStages_calls (m : Machine (Fin 3)) (hsystem : m.args.systemOn = false) :
    Calls conv m (IndoorHeating.turnOnTwoStages conv m) := by
  rw [IndoorHeating.turnOnTwoStages]
  split_ifs with hmet
  · exact .single (.turnOnTwo m hsystem hmet)
  · exact .refl

theorem supplementWhenMet_calls (m : Machine (Fin 3)) (i j : Fin 3) (hij : (i : Nat) + 1 = j)
    (hi : (m.stage i).state.isActive = true) :
    Calls conv m (IndoorHeating.supplementWhenMet conv m i j) := by
  rw [IndoorHeating.supplementWhenMet]
  split_ifs with hmet
  · refine .single (.supplement m i j hij hi ?_)
    rw [Bool.or_eq_true, Bool.and_eq_true] at hmet
    exact hmet.imp_right And.right
  · exact .refl

theorem requestOffWhenMet_calls (m : Machine (Fin 3)) (i : Fin 3) (systemStage : Nat)
    (hi : (m.stage i).state.isActive = true) :
    Calls conv m (requestOffWhenMet conv m i systemStage) := by
  rw [requestOffWhenMet]
  split_ifs
  · exact .single (.turnOff m i hi)
  · exact .refl

theorem singleStage_calls (m : Machine (Fin 3)) :
    Calls conv m (IndoorHeating.singleStage conv m).1 := by
  rw [IndoorHeating.singleStage, singleStageOf]
  split_ifs with hon hmet hoff
  · exact .single (.turnOn m hon.1 hmet)
  · exact .refl
  · exact requestOffWhenMet_calls conv m 0 0 hoff.1
  · exact .refl

theorem secondStage_calls (m : Machine (Fin 3)) :
    Calls conv m (IndoorHeating.secondStage conv m).1 := by
  rw [IndoorHeating.secondStage]
  split_ifs with hon hfirst hsecond
  · exact turnOnTwoStages_calls conv m hon.1
  · exact supplementWhenMet_calls conv m 0 1 rfl hfirst.1
  · exact requestOffWhenMet_calls conv m 1 1 hsecond.1
  · exact .refl

theorem thirdStage_calls (m : Machine (Fin 3)) :
    Calls conv m (IndoorHeating.thirdStage conv m).1 := by
  rw [IndoorHeating.thirdStage]
  split_ifs with hon hfirst hsecond hthird
  · exact turnOnTwoStages_calls conv m hon.1
  · exact supplementWhenMet_calls conv m 0 1 rfl hfirst.1
  · exact supplementWhenMet_calls conv m 1 2 rfl hsecond.1
  · exact requestOffWhenMet_calls conv m 2 2 hthird.1
  · exact .refl

theorem orElse_calls {first second : Machine (Fin 3) → Machine (Fin 3) × Bool}
    (hfirst : ∀ m, Calls conv m (first m).1) (hsecond : ∀ m, Calls conv m (second m).1)
    (m : Machine (Fin 3)) : Calls conv m (IndoorHeating.orElse first second m).1 := by
  rw [IndoorHeating.orElse]
  split_ifs
  · exact hfirst m
  · exact (hfirst m).trans (hsecond _)

theorem executeActive_calls (m : Machine (Fin 3)) :
    Calls conv m (IndoorHeating.executeActive conv m).1 := by
  have hsecond := orElse_calls conv (secondStage_calls conv) (singleStage_calls conv)
  have hthird := orElse_calls conv (thirdStage_calls conv) hsecond
  rw [IndoorHeating.executeActive]
  split <;> dsimp only
  · exact (singleStage_calls conv m).tail (.execute _ 0)
  · exact ((hsecond m).tail (.execute _ 0)).tail (.execute _ 1)
  · exact (((hthird m).tail (.execute _ 0)).tail (.execute _ 1)).tail (.execute _ 2)
  · exact .refl

theorem call_steps {m m' : Machine (Fin 3)} (hcall : Call conv m m') (h : Ladder m)
    (hbounded : Bounded m.args.inputs.systemConfig) : Steps m m' := by
  cases hcall with
  | turnOn hsystem _ =>
      obtain ⟨hkeeps, hfollow, hactive⟩ := requestOn_ladder conv m h.wired h.outputs
        (h.allOff hsystem) hbounded
      exact h.of_keeps ⟨hkeeps, hfollow, .inl ⟨0, hactive⟩⟩
  | turnOnTwo hsystem _ =>
      obtain ⟨hkeeps, hfollow, on, hactive⟩ := requestOn_ladder conv m h.wired h.outputs
        (h.allOff hsystem) hbounded
      obtain ⟨hkeeps', hfollow', hactive'⟩ := requestAsSupplement_ladder conv _ 0 1 rfl on
        (h.wired.of_keeps hkeeps) hfollow hactive (by rwa [hkeeps.inputs])
      exact h.of_keeps ⟨hkeeps.trans hkeeps', hfollow', .inl ⟨1, hactive'⟩⟩
  | supplement i j hij hi _ =>
      obtain ⟨on, hactive⟩ := h.activeAt hi
      obtain ⟨hkeeps, hfollow, hactive'⟩ := requestAsSupplement_ladder conv m i j hij on h.wired
        h.outputs hactive hbounded
      exact h.of_keeps ⟨hkeeps, hfollow, .inl ⟨j, hactive'⟩⟩
  | turnOff i hi =>
      obtain ⟨on, hactive⟩ := h.activeAt hi
      rcases eq_or_ne i 0 with rfl | hne
      · obtain ⟨hkeeps, hfollow, hoff⟩ := requestOff_allOff conv m on h.wired h.outputs hactive
        exact h.of_keeps ⟨hkeeps, hfollow, .inr hoff⟩
      · obtain ⟨j, hij⟩ : ∃ j : Fin 3, (j : Nat) + 1 = i :=
          ⟨⟨i - 1, by omega⟩, by simp only; omega⟩
        obtain ⟨hkeeps, hfollow, hactive'⟩ := requestOff_ladder conv m i j hij on h.wired
          h.outputs hactive hbounded
        exact h.of_keeps ⟨hkeeps, hfollow, .inl ⟨j, hactive'⟩⟩
  | execute i => exact execute_ladder conv m i h hbounded

/-- The ladder holds after every sequence of calls. -/
theorem calls_steps {m m' : Machine (Fin 3)} (hcalls : Calls conv m m') (h : Ladder m)
    (hbounded : Bounded m.args.inputs.systemConfig) : Steps m m' := by
  induction hcalls with
  | refl => exact ⟨Keeps.refl m, h⟩
  | tail _ hcall ih =>
      obtain ⟨hkeeps, hladder⟩ := ih
      obtain ⟨hkeeps', hladder'⟩ := call_steps conv hcall hladder (by rwa [hkeeps.inputs])
      exact ⟨hkeeps.trans hkeeps', hladder'⟩

/-- The stages can be turned off at any time. -/
structure Rests (m : Machine (Fin 3)) : Prop where
  wired : Wired m
  atRest : ∀ i, AtRest (m.stage i)

theorem Ladder.rests {m : Machine (Fin 3)} (h : Ladder m) : Rests m := by
  refine ⟨h.wired, ?_⟩
  intro i
  rcases h.shape with hoff | ⟨k, on, hactive⟩
  · exact .inl (hoff.off i)
  · rcases lt_trichotomy i k with hlt | rfl | hgt
    · exact .inr (.inl (hactive.below i hlt))
    · exact .inr (.inr ⟨on, hactive.active, hactive.hasArgs⟩)
    · exact .inl (hactive.above i hgt)

/-- A stage that is turned off: the other stages and the outputs stay as they are. -/
theorem requestModeToOff_rests (m : Machine (Fin 3)) (i : Fin 3) (h : Rests m) :
    Rests (requestModeToOff conv m i) ∧ Keeps m (requestModeToOff conv m i) ∧
      ((requestModeToOff conv m i).stage i).state = .off ∧
      (∀ j, j ≠ i → (requestModeToOff conv m i).stage j = m.stage j) ∧
      (requestModeToOff conv m i).args.vOutputs = m.args.vOutputs ∧
      (requestModeToOff conv m i).args.systemOn = m.args.systemOn := by
  obtain ⟨s, c, a, ⟨hoff, hidle, hkind, hindex, hout⟩, -, habort, heq⟩ :=
    requestModeToOff_eq conv m i (h.wired.idle i) (h.atRest i)
  have hself : (requestModeToOff conv m i).stage i = s := by
    rw [heq]
    simp
  have hother : ∀ j, j ≠ i → (requestModeToOff conv m i).stage j = m.stage j := by
    intro j hj
    rw [heq]
    simp [hj]
  have hkeeps : Keeps m (requestModeToOff conv m i) := by
    refine ⟨?_, by rw [heq], by rw [heq], by rwa [heq], by rw [heq], by rw [heq], by rw [heq]⟩
    intro j
    rcases eq_or_ne j i with rfl | hj
    · rw [hself]
      exact ⟨hindex, hout, hkind, fun _ => hidle⟩
    · rw [hother j hj]
      exact SamePlace.refl _
  refine ⟨⟨h.wired.of_keeps hkeeps, ?_⟩, hkeeps, by rw [hself, hoff], hother, by rw [heq],
    by rw [heq]⟩
  intro j
  rcases eq_or_ne j i with rfl | hj
  · rw [hself]
    exact .inl hoff
  · rw [hother j hj]
    exact h.atRest j

theorem executeOff_rests (m : Machine (Fin 3)) (h : Rests m) :
    Rests (IndoorHeating.executeOff conv m).1 ∧ Keeps m (IndoorHeating.executeOff conv m).1 ∧
      (∀ i, ((IndoorHeating.executeOff conv m).1.stage i).state = .off) ∧
      (IndoorHeating.executeOff conv m).1.args.vOutputs = m.args.vOutputs ∧
      (IndoorHeating.executeOff conv m).1.args.systemOn = m.args.systemOn := by
  obtain ⟨h0, hk0, hoff0, -, hv0, hs0⟩ := requestModeToOff_rests conv m 0 h
  obtain ⟨h1, hk1, hoff1, hother1, hv1, hs1⟩ := requestModeToOff_rests conv _ 1 h0
  obtain ⟨h2, hk2, hoff2, hother2, hv2, hs2⟩ := requestModeToOff_rests conv _ 2 h1
  simp only [IndoorHeating.executeOff]
  refine ⟨h2, (hk0.trans hk1).trans hk2, ?_, hv2.trans (hv1.trans hv0), hs2.trans (hs1.trans hs0)⟩
  intro i
  rcases eq_or_ne i 2 with rfl | h2'
  · exact hoff2
  · rw [hother2 i h2']
    rcases eq_or_ne i 1 with rfl | h1'
    · exact hoff1
    · obtain rfl : i = 0 := by omega
      rw [hother1 0 h1']
      exact hoff0

theorem reset_eq (m : Machine (Fin 3)) (h : Wired m) :
    IndoorHeating.reset conv m = (IndoorHeating.executeOff conv m).1 := by
  have h0 : reconfigure m 0 0 0 = m := reconfigure_self m 0 (h.index 0).1 (h.index 0).2
  have h1 : reconfigure m 1 1 1 = m := reconfigure_self m 1 (h.index 1).1 (h.index 1).2
  have h2 : reconfigure m 2 2 2 = m := reconfigure_self m 2 (h.index 2).1 (h.index 2).2
  simp only [IndoorHeating.reset, h0, h1, h2]

theorem reset_ladder (m : Machine (Fin 3)) (h : Rests m) :
    Ladder (IndoorHeating.reset conv { m with args := Control.resetArgs m.args }) ∧
      Keeps { m with args := Control.resetArgs m.args }
        (IndoorHeating.reset conv { m with args := Control.resetArgs m.args }) ∧
      AllOff (IndoorHeating.reset conv { m with args := Control.resetArgs m.args }) := by
  have hwired : Wired { m with args := Control.resetArgs m.args } :=
    ⟨h.wired.index, h.wired.kind, h.wired.idle, h.wired.assertFailed, h.wired.overflow,
      h.wired.stuck⟩
  obtain ⟨hrests, hkeeps, hoff, houtputs, hsystem⟩ := executeOff_rests conv
    { m with args := Control.resetArgs m.args } ⟨hwired, h.atRest⟩
  rw [reset_eq conv _ hwired]
  have hall : AllOff (IndoorHeating.executeOff conv
      { m with args := Control.resetArgs m.args }).1 := ⟨hoff, hsystem⟩
  refine ⟨⟨hrests.wired, ?_, .inl hall⟩, hkeeps, hall⟩
  intro i
  rw [hoff i, houtputs]
  rfl

/-- A control component with the stages of the indoor heating, its outputs, and whether its
last execution was in its operating mode. -/
structure System where
  control : Control (Fin 3)
  outputs : ControlOutputs
  heating : Bool

/-- What a pass of the thermostat gives the component. -/
structure Pass where
  inputs : ControlInputs
  /-- The model points as the component finds them. -/
  outputs : ControlOutputs

/-- The system once the component has been started. -/
def init (controlFan : Fin 3 → Bool) (args : Args) (outputs : ControlOutputs) : System :=
  { control :=
      { machine := IndoorHeating.reset conv
          { stage := fun i => StageFsm.Stage.init (.indoorHeat (controlFan i)) i i
            args := args
            assertFailed := false
            overflow := false
            stuck := false }
        sysCfgSequenceNumber := 0 }
    outputs := outputs
    heating := false }

def step (s : System) (p : Pass) : System :=
  let executed := s.control.execute (IndoorHeating.equipment conv) p.inputs p.outputs
  { control := executed.1
    outputs := executed.2.1
    heating :=
      if p.inputs.valid then p.inputs.inputs.systemConfig.currentOpMode = .idHeating
      else s.heating }

/-- The passes that occur. The configuration is one that `OperatingMode` sets. The other
control components write the outputs in other operating modes only, and `FanControl` the fan
outputs only. A change of the operating mode is announced. -/
structure Admits (s : System) (p : Pass) : Prop where
  config : ∃ mode equipmentCfg comfortCfg,
    p.inputs.inputs.systemConfig = setSystemConfig mode equipmentCfg comfortCfg
  numIndoorStages : p.inputs.inputs.systemConfig.currentOpMode = .idHeating →
    p.inputs.inputs.systemConfig.numIndoorStages ∈ [1, 2, 3]
  indoorStages : s.heating = true →
    p.outputs.vOutputs.indoorStages = s.outputs.vOutputs.indoorStages
  cycleInfo : s.heating = true → p.outputs.cycleInfo = s.outputs.cycleInfo
  systemOn : s.heating = true → p.outputs.systemOn = s.outputs.systemOn
  announced : s.heating = false → p.inputs.inputs.systemConfig.currentOpMode = .idHeating →
    s.control.Resets p.inputs

/-- The systems that are reached. -/
inductive Reachable : System → Prop where
  | init (controlFan : Fin 3 → Bool) (args : Args) (outputs : ControlOutputs) :
      Reachable (init conv controlFan args outputs)
  | step (s : System) (p : Pass) : Reachable s → Admits s p → Reachable (step conv s p)

theorem bounded_configureStages (cfg : SystemConfig) (n : Nat) (stage : Nat → Config.Stage)
    (hcfg : Bounded cfg) (hstage : ∀ i, (stage i).lowerBound < (stage i).upperBound) :
    Bounded (cfg.configureStages n stage) := by
  intro i
  by_cases hi : i < maxTotalStages
  · have hget : (cfg.configureStages n stage).stages.getD i Config.Stage.off =
        if i < n then stage i else cfg.stages.getD i Config.Stage.off := by
      simp [SystemConfig.configureStages, List.getD, hi]
    rw [hget]
    split_ifs
    · exact hstage i
    · exact hcfg i
  · have hget : (cfg.configureStages n stage).stages.getD i Config.Stage.off =
        Config.Stage.off := by
      simp [SystemConfig.configureStages, List.getD, hi]
    rw [hget]
    decide

theorem bounded_setSystemConfig (mode : OperatingMode) (equipmentCfg : EquipmentConfig)
    (comfortCfg : ComfortConfig) : Bounded (setSystemConfig mode equipmentCfg comfortCfg) := by
  have hoff : ∀ i, ((List.replicate maxTotalStages Config.Stage.off).getD i
      Config.Stage.off).lowerBound < ((List.replicate maxTotalStages Config.Stage.off).getD i
      Config.Stage.off).upperBound := by
    intro i
    rw [List.getD_eq_getElem?_getD, List.getElem?_getD_replicate_default_eq]
    decide
  have hstage (parms : ComfortStage) (fan i : Nat) :
      (Config.Stage.ofComfort parms fan i).lowerBound <
        (Config.Stage.ofComfort parms fan i).upperBound :=
    lt_add_of_pos_right _ (by decide)
  cases mode with
  | cooling | idHeating => exact bounded_configureStages _ _ _ hoff (hstage _ _)
  | off | heating | unknown => exact hoff

theorem Ladder.withArgs {m : Machine (Fin 3)} (h : Ladder m) (args : Args)
    (hstages : args.vOutputs.indoorStages = m.args.vOutputs.indoorStages)
    (hsystem : args.systemOn = m.args.systemOn) : Ladder { m with args := args } := by
  refine ⟨⟨h.wired.index, h.wired.kind, h.wired.idle, h.wired.assertFailed, h.wired.overflow,
    h.wired.stuck⟩, ?_, ?_⟩
  · intro i
    exact (congrFun hstages i).trans (h.outputs i)
  · rcases h.shape with hoff | ⟨k, on, hactive⟩
    · exact .inl ⟨hoff.off, hsystem.trans hoff.systemOn⟩
    · exact .inr ⟨k, on, hactive.congr hactive.active hactive.hasArgs (fun _ _ => rfl)
        (fun _ => ⟨rfl, rfl⟩) hsystem⟩

theorem Rests.withArgs {m : Machine (Fin 3)} (h : Rests m) (args : Args) :
    Rests { m with args := args } :=
  ⟨⟨h.wired.index, h.wired.kind, h.wired.idle, h.wired.assertFailed, h.wired.overflow,
    h.wired.stuck⟩, h.atRest⟩

/-- What holds between the passes. -/
structure Inv (s : System) : Prop where
  rests : Rests s.control.machine
  ladder : s.heating = true → Ladder s.control.machine
  indoorStages : s.heating = true →
    s.outputs.vOutputs.indoorStages = s.control.machine.args.vOutputs.indoorStages
  systemOn : s.heating = true → s.outputs.systemOn = s.control.machine.args.systemOn

theorem inv_init (controlFan : Fin 3 → Bool) (args : Args) (outputs : ControlOutputs) :
    Inv (init conv controlFan args outputs) := by
  refine ⟨?_, nofun, nofun, nofun⟩
  have hrests : Rests
      { stage := fun i => StageFsm.Stage.init (.indoorHeat (controlFan i)) i i
        args := args
        assertFailed := false
        overflow := false
        stuck := false } :=
    ⟨⟨fun _ => ⟨rfl, rfl⟩, fun i => ⟨controlFan i, rfl⟩, fun _ => ⟨rfl, rfl⟩, rfl, rfl, rfl⟩,
      fun _ => .inl rfl⟩
  simp only [init]
  rw [reset_eq conv _ hrests.wired]
  exact (executeOff_rests conv _ hrests).1

/-- The arguments with which the equipment is executed are those of a ladder. -/
theorem ladder_before (s : System) (p : Pass) (hinv : Inv s) (hadmits : Admits s p)
    (hmode : p.inputs.inputs.systemConfig.currentOpMode = .idHeating) :
    Ladder (s.control.prepare (IndoorHeating.equipment conv) p.inputs p.outputs) ∧
      (s.control.prepare (IndoorHeating.equipment conv) p.inputs p.outputs).args.inputs =
        p.inputs.inputs := by
  rw [Control.prepare]
  split_ifs with hreset
  · obtain ⟨hladder, hkeeps, -⟩ := reset_ladder conv
      { s.control.machine with args := argsOf p.inputs p.outputs } (hinv.rests.withArgs _)
    rw [IndoorHeating.equipment_reset]
    exact ⟨hladder, hkeeps.inputs⟩
  · have hheating : s.heating = true := by
      by_contra hnot
      exact hreset (hadmits.announced (by simpa using hnot) hmode)
    refine ⟨(hinv.ladder hheating).withArgs _ ?_ ?_, rfl⟩
    · exact (hadmits.indoorStages hheating).trans (hinv.indoorStages hheating)
    · exact (hadmits.systemOn hheating).trans (hinv.systemOn hheating)

theorem executeActive_success (m : Machine (Fin 3))
    (h : m.args.inputs.systemConfig.numIndoorStages ∈ [1, 2, 3]) :
    (IndoorHeating.executeActive conv m).2 = true := by
  simp only [List.mem_cons, List.not_mem_nil, or_false] at h
  rcases h with h | h | h <;> simp [IndoorHeating.executeActive, h]

theorem inv_step (s : System) (p : Pass) (hinv : Inv s) (hadmits : Admits s p) :
    Inv (step conv s p) := by
  obtain ⟨mode, equipmentCfg, comfortCfg, hconfig⟩ := hadmits.config
  have hbounded : Bounded p.inputs.inputs.systemConfig := by
    rw [hconfig]
    exact bounded_setSystemConfig mode equipmentCfg comfortCfg
  by_cases hvalid : p.inputs.valid = true
  swap
  · have hsame : step conv s p = ⟨s.control, p.outputs, s.heating⟩ := by
      simp [step, Control.execute, hvalid]
    rw [hsame]
    refine ⟨hinv.rests, hinv.ladder, ?_, ?_⟩
    · exact fun h => (hadmits.indoorStages h).trans (hinv.indoorStages h)
    · exact fun h => (hadmits.systemOn h).trans (hinv.systemOn h)
  by_cases hmode : p.inputs.inputs.systemConfig.currentOpMode = .idHeating
  · obtain ⟨hladder, hinputs⟩ := ladder_before conv s p hinv hadmits hmode
    obtain ⟨-, hladder'⟩ := calls_steps conv (executeActive_calls conv _) hladder
      (by rwa [hinputs])
    have hexecute := Control.execute_of_mode (IndoorHeating.equipment conv) s.control p.inputs
      p.outputs hvalid hmode
      (executeActive_success conv _ (by rw [hinputs]; exact hadmits.numIndoorStages hmode))
    rw [step, hexecute]
    exact ⟨hladder'.rests, fun _ => hladder', fun _ => rfl, fun _ => rfl⟩
  · have hexecute := Control.execute_of_other_mode (IndoorHeating.equipment conv) s.control
      p.inputs p.outputs hvalid hmode
    rw [step, hexecute]
    have hheating : (if p.inputs.valid then
        decide (p.inputs.inputs.systemConfig.currentOpMode = .idHeating) else s.heating) ≠
          true := by
      simp [hvalid, hmode]
    refine ⟨(executeOff_rests conv _ (hinv.rests.withArgs _)).1, ?_, ?_, ?_⟩
    all_goals exact fun h => absurd h hheating

theorem inv_reachable (s : System) (h : Reachable conv s) : Inv s := by
  induction h with
  | init controlFan args outputs => exact inv_init conv controlFan args outputs
  | step s p _ hadmits ih => exact inv_step conv s p ih hadmits

/-- Either all stages are off, or the active stage stands on supplementing stages and all
above it are off. -/
def LadderShape (state : Fin 3 → State) : Prop :=
  (∀ i, state i = .off) ∨
    ∃ k, (state k).isActive = true ∧ (∀ j < k, state j = .supplementingNextStage) ∧
      ∀ j, k < j → state j = .off

/-- The stages are a ladder after every execution in the operating mode, the outputs and
`systemOn` follow it, and nothing goes wrong in any execution. -/
theorem ladder_reachable (s : System) (h : Reachable conv s) :
    s.control.machine.assertFailed = false ∧ s.control.machine.overflow = false ∧
      s.control.machine.stuck = false ∧
      (s.heating = true →
        LadderShape (fun i => (s.control.machine.stage i).state) ∧
        (∀ i : Fin 3, s.outputs.vOutputs.indoorStages i =
          if (s.control.machine.stage i).state = .supplementingNextStage ∨
              ((s.control.machine.stage i).state.isActive = true ∧
                (s.control.machine.stage i).state.isInCycle true = true) then
            virtualOutputsOn
          else virtualOutputsOff) ∧
        (s.outputs.systemOn = true ↔ ∃ i, (s.control.machine.stage i).state ≠ .off)) := by
  obtain ⟨hrests, hladder, hstages, hsystem⟩ := inv_reachable conv s h
  refine ⟨hrests.wired.assertFailed, hrests.wired.overflow, hrests.wired.stuck, ?_⟩
  intro hheating
  specialize hladder hheating
  refine ⟨?_, ?_, ?_⟩
  · rcases hladder.shape with hoff | ⟨k, on, hactive⟩
    · exact .inl hoff.off
    · exact .inr ⟨k, by simp [hactive.active, State.isActive], hactive.below, hactive.above⟩
  · intro i
    rw [hstages hheating, hladder.outputs i]
    have hon : (isOn (s.control.machine.stage i).state = true) ↔
        ((s.control.machine.stage i).state = .supplementingNextStage ∨
          ((s.control.machine.stage i).state.isActive = true ∧
            (s.control.machine.stage i).state.isInCycle true = true)) := by
      cases (s.control.machine.stage i).state <;> simp [isOn, State.isActive, State.isInCycle]
    simp only [hon]
  · rw [hsystem hheating]
    rcases hladder.shape with hoff | ⟨k, on, hactive⟩
    · simp [hoff.systemOn, hoff.off]
    · have hne : (s.control.machine.stage k).state ≠ .off := by
        rw [hactive.active]
        simp
      simp only [hactive.systemOn, true_iff]
      exact ⟨k, hne⟩

/-- A pass of a furnace with three stages, at the load `pvOut` and after `seconds`. -/
def furnacePass (pvOut : ℚ) (seconds : Nat) (outputs : ControlOutputs) : Pass :=
  { inputs :=
      { valid := true
        inputs :=
          { pvOut := pvOut
            systemConfig :=
              setSystemConfig .idHeating ⟨.furnace, .ac, 1, 3, false⟩
                ⟨⟨300, 300, .cph3⟩, ⟨300, 300, .cph3⟩, ⟨300, 300, .cph3⟩⟩
            currentInterval := ⟨seconds, 0⟩
            equipmentBeginTimes := ⟨⟨0, 0⟩, ⟨0, 0⟩, ⟨0, 0⟩, ⟨0, 0⟩, ⟨0, 0⟩, ⟨0, 0⟩⟩
            defeatEquipMinOffTime := false }
        abortOnOffCycle := false
        operatingModeChanged := false
        sysSeqNum := 1 }
    outputs := outputs }

/-- A system that has been off for ten minutes turns on two stages for a high load. -/
def furnaceOn : System :=
  step ToUInt32.truncation
    (init ToUInt32.truncation (fun _ => false)
      (argsOf (furnacePass 0 0 ControlOutputs.zero).inputs ControlOutputs.zero)
      ControlOutputs.zero)
    (furnacePass 250 600 ControlOutputs.zero)

theorem reachable_furnaceOn : Reachable ToUInt32.truncation furnaceOn := by
  refine .step _ _ (.init _ _ _) ⟨⟨.idHeating, _, _, rfl⟩, ?_, nofun, nofun, nofun, ?_⟩
  · intro _
    decide
  · intro _ _
    exact .inl (by decide)

theorem ladder_furnaceOn :
    Reachable ToUInt32.truncation furnaceOn ∧ furnaceOn.heating = true ∧
      (furnaceOn.control.machine.stage 1).state = .timed true ∧
      LadderShape (fun i => (furnaceOn.control.machine.stage i).state) ∧
      furnaceOn.control.machine.assertFailed = false :=
  ⟨reachable_furnaceOn, by decide, by with_unfolding_all decide,
    ((ladder_reachable ToUInt32.truncation furnaceOn reachable_furnaceOn).2.2.2 (by decide)).1,
    (ladder_reachable ToUInt32.truncation furnaceOn reachable_furnaceOn).1⟩

end ColonyPico.Storm.StageLadder
