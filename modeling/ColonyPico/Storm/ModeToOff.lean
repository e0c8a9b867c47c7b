import ColonyPico.Storm.StageRuns

/-!
The request to turn a stage off for its operating mode (`Basic::requestModeToOff()`), and the
argument blocks that the stage has been called with before.
-/

namespace ColonyPico.Storm.ModeToOff

open ColonyPico.Storm.DutyCycle
open ColonyPico.Storm.StageFsm
open ColonyPico.Storm.StageRuns

variable {ι : Type} (conv : ToUInt32)

section Settling

/-- The stages that are not at work have an empty queue. -/
def Quiet (m : Machine ι) : Prop :=
  ∀ j, (m.stage j).processingFsmEvent = false → (m.stage j).queue = []

/-- What comes to an end leaves the same stages at work, and no events to the others. -/
def Settles (m m' : Machine ι) : Prop :=
  m'.stuck = false → m.stuck = false ∧
    (∀ j, (m'.stage j).processingFsmEvent = (m.stage j).processingFsmEvent) ∧
    (Quiet m → Quiet m')

variable {m m' m'' : Machine ι}

theorem Settles.trans (h : Settles m m') (h' : Settles m' m'') : Settles m m'' := by
  intro hstuck
  obtain ⟨hstuck', hproc', hquiet'⟩ := h' hstuck
  obtain ⟨hstuck, hproc, hquiet⟩ := h hstuck'
  exact ⟨hstuck, fun j => (hproc' j).trans (hproc j), fun h => hquiet' (hquiet h)⟩

theorem settles_of_same (hstuck : m'.stuck = m.stuck)
    (hproc : ∀ j, (m'.stage j).processingFsmEvent = (m.stage j).processingFsmEvent)
    (hqueue : ∀ j, (m'.stage j).queue = (m.stage j).queue) : Settles m m' := by
  intro h
  refine ⟨hstuck ▸ h, hproc, fun hquiet j hj => ?_⟩
  rw [hqueue]
  exact hquiet j ((hproc j).symm.trans hj)

theorem settles_of_stage (hstuck : m'.stuck = m.stuck) (hstage : m'.stage = m.stage) :
    Settles m m' :=
  settles_of_same hstuck (fun _ => by rw [hstage]) fun _ => by rw [hstage]

theorem settles_shutdownStage (m : Machine ι) (i : ι) : Settles m (shutdownStage m i) := by
  simp only [shutdownStage]
  split
  · exact settles_of_stage rfl rfl
  · exact settles_of_stage rfl rfl

theorem settles_initializeActive (m : Machine ι) (i : ι) : Settles m (initializeActive m i) := by
  simp only [initializeActive]
  split
  · split
    · exact settles_of_stage rfl rfl
    · exact settles_of_stage rfl rfl
  · split
    · exact settles_of_stage rfl rfl
    · exact settles_of_stage rfl rfl

section Check

variable {g : Machine ι → ι → Event → Machine ι} (hg : ∀ m i msg, Settles m (g m i msg))

include hg

theorem settles_checkTime (m : Machine ι) (i : ι) (on : Bool) :
    Settles m (checkTime conv g m i on) := by
  simp only [checkTime]
  split_ifs
  · exact (settles_of_stage rfl rfl : Settles m _).trans (hg _ _ _)
  · exact settles_of_stage rfl rfl
  · exact (settles_of_stage rfl rfl : Settles m _).trans (hg _ _ _)
  · exact settles_of_stage rfl rfl
  · exact settles_of_stage rfl rfl

theorem settles_startingStage (m : Machine ι) (i : ι) (on : Bool) :
    Settles m (startingStage conv g m i on) := by
  simp only [startingStage]
  refine Settles.trans ?_ ((settles_checkTime conv hg _ i on).trans (hg _ _ _))
  split
  · exact settles_of_stage rfl rfl
  · exact settles_of_stage rfl rfl

end Check

variable [DecidableEq ι]

theorem settles_update (m : Machine ι) (i : ι) {f : Stage ι → Stage ι}
    (hproc : ∀ s, (f s).processingFsmEvent = s.processingFsmEvent)
    (hqueue : ∀ s, (f s).queue = s.queue) : Settles m (m.update i f) := by
  refine settles_of_same rfl (fun j => ?_) fun j => ?_
  · rcases eq_or_ne j i with rfl | hne
    · rw [stage_update_self, hproc]
    · rw [stage_update_of_ne m hne]
  · rcases eq_or_ne j i with rfl | hne
    · rw [stage_update_self, hqueue]
    · rw [stage_update_of_ne m hne]

theorem settles_setState (m : Machine ι) (i : ι) (state : State) :
    Settles m (m.setState i state) :=
  settles_update m i (fun _ => rfl) fun _ => rfl

theorem settles_startTime (m : Machine ι) (i : ι) : Settles m (startTime m i) :=
  settles_update (m.assert _) i (fun _ => rfl) fun _ => rfl

theorem settles_initializeStage (m : Machine ι) (i : ι) : Settles m (initializeStage m i) :=
  settles_update m i (fun _ => rfl) fun _ => rfl

section Events

variable {g : Machine ι → ι → Event → Machine ι} (hg : ∀ m i msg, Settles m (g m i msg))

include hg

theorem settles_enterCycle (m : Machine ι) (i : ι) (on : Bool) :
    Settles m (enterCycle conv g m i on) :=
  ((settles_startTime m i).trans (settles_startingStage conv hg _ i on)).trans
    (settles_setState _ i _)

theorem settles_enterCycling (m : Machine ι) (i : ι) : Settles m (enterCycling conv g m i) :=
  settles_enterCycle conv hg m i _

theorem settles_enterSupplementing (m : Machine ι) (i : ι) :
    Settles m (enterSupplementing g m i) := by
  simp only [enterSupplementing]
  cases (m.stage i).nextStage with
  | none => exact settles_of_stage rfl rfl
  | some next =>
      refine Settles.trans ?_ (settles_of_stage rfl rfl)
      refine Settles.trans ?_ (hg _ next .onRequest)
      exact settles_update ((m.assert _).assert _) next (fun _ => rfl) fun _ => rfl

theorem settles_notifyLowerStage (m : Machine ι) (i : ι) :
    Settles m (notifyLowerStage g m i) := by
  simp only [notifyLowerStage]
  refine Settles.trans ?_ (settles_update _ i (fun _ => rfl) fun _ => rfl)
  cases (m.stage i).prevStage with
  | none => exact settles_of_stage rfl rfl
  | some previous =>
      refine Settles.trans ?_ (hg _ previous .lessCapacityNeeded)
      exact settles_update ((m.assert _).assert _) previous (fun _ => rfl) fun _ => rfl

omit hg in
theorem settles_activeEvent (m : Machine ι) (i : ι) (msg : Event) :
    Settles m (activeEvent m i msg) := by
  rw [activeEvent]
  split
  · exact (settles_initializeStage m i).trans (settles_setState _ i _)
  · exact settles_of_stage rfl rfl

theorem settles_cyclingEvent (m : Machine ι) (i : ι) (msg : Event) :
    Settles m (cyclingEvent g m i msg) := by
  simp only [cyclingEvent]
  split_ifs
  · exact (hg _ _ _).trans (settles_setState _ i _)
  · exact (settles_shutdownStage m i).trans (settles_setState _ i _)
  · exact (settles_enterSupplementing hg m i).trans (settles_setState _ i _)
  · exact settles_activeEvent m i msg

theorem settles_processEvent (m : Machine ι) (i : ι) (msg : Event) :
    Settles m (processEvent conv g m i msg) := by
  cases hstate : (m.stage i).state with
  | off =>
      simp only [processEvent, hstate]
      split_ifs
      · exact (hg _ _ _).trans (settles_setState _ i _)
      · exact (settles_initializeActive m i).trans (settles_enterCycling conv hg _ i)
      · exact settles_of_stage rfl rfl
  | starting on =>
      simp only [processEvent, hstate]
      split_ifs
      · exact (settles_of_stage rfl rfl : Settles m (setStage m i on)).trans
          (settles_setState _ i _)
      · exact settles_enterCycle conv hg m i _
      · exact settles_cyclingEvent hg m i msg
  | timed on =>
      rw [processEvent_timed conv g m i on msg hstate]
      split_ifs
      · exact (settles_checkTime conv hg m i on).trans (settles_enterCycle conv hg _ i _)
      · exact (settles_checkTime conv hg m i on).trans (settles_cyclingEvent hg _ i msg)
  | transitioningFromLowerStage =>
      simp only [processEvent, hstate]
      split_ifs
      · exact settles_enterCycling conv hg m i
      · exact settles_activeEvent m i msg
  | transitioningBackToLowerStage =>
      simp only [processEvent, hstate]
      split_ifs
      · exact ((settles_notifyLowerStage hg m i).trans (settles_shutdownStage _ i)).trans
          (settles_setState _ i _)
      · exact settles_activeEvent m i msg
  | supplementingNextStage =>
      simp only [processEvent, hstate]
      split_ifs
      · exact settles_enterCycling conv hg m i
      · exact (settles_initializeStage m i).trans (settles_setState _ i _)
      · exact settles_of_stage rfl rfl

end Events

/-- Working off the events of a stage ends its work. -/
def Drains (d : Machine ι → ι → Machine ι) : Prop :=
  ∀ m i, (d m i).stuck = false → m.stuck = false ∧
    ((m.stage i).processingFsmEvent = true →
      ((d m i).stage i).processingFsmEvent = false ∧
      (∀ j, j ≠ i → ((d m i).stage j).processingFsmEvent = (m.stage j).processingFsmEvent) ∧
      (Quiet m → Quiet (d m i)))

/-- Whether the queue of `i` is empty does not matter while it is at work. -/
theorem quiet_update {m : Machine ι} {i : ι}
    (hquiet : ∀ j, j ≠ i → (m.stage j).processingFsmEvent = false → (m.stage j).queue = [])
    {f : Stage ι → Stage ι} (hproc : (f (m.stage i)).processingFsmEvent = true) :
    Quiet (m.update i f) := by
  intro j hj
  rcases eq_or_ne j i with rfl | hne
  · rw [stage_update_self, hproc] at hj
    cases hj
  · rw [stage_update_of_ne m hne] at hj ⊢
    exact hquiet j hne hj

/-- The machine after `generateEvent()` has tried to queue an event. -/
theorem generateWith_queued (d : Machine ι → ι → Machine ι) (m : Machine ι) (i : ι)
    (msg : Event) :
    ∃ m' : Machine ι, m'.stuck = m.stuck ∧
      (∀ j, (m'.stage j).processingFsmEvent = (m.stage j).processingFsmEvent) ∧
      (∀ j, j ≠ i → (m'.stage j).queue = (m.stage j).queue) ∧
      generateWith d m i msg = if (m'.stage i).processingFsmEvent then m'
        else d (m'.update i fun s => { s with processingFsmEvent := true }) i := by
  rcases Nat.lt_or_ge (m.stage i).queue.length queueCapacity with hroom | hfull
  · refine ⟨enqueue m i msg, rfl, fun j => ?_, fun j hne => ?_, ?_⟩
    · rcases eq_or_ne j i with rfl | hne
      · rw [enqueue, stage_update_self]
      · rw [enqueue, stage_update_of_ne m hne]
    · rw [enqueue, stage_update_of_ne m hne]
    · simp only [generateWith, if_pos hroom, enqueue]
      rfl
  · refine ⟨{ m with overflow := true }, rfl, fun _ => rfl, fun _ _ => rfl, ?_⟩
    simp only [generateWith, if_neg (Nat.not_lt.2 hfull)]

theorem settles_generateWith {d : Machine ι → ι → Machine ι} (hd : Drains d) (m : Machine ι)
    (i : ι) (msg : Event) : Settles m (generateWith d m i msg) := by
  obtain ⟨m', hstuck, hproc, hqueue, heq⟩ := generateWith_queued d m i msg
  rw [heq]
  have hothers : Quiet m → ∀ j, j ≠ i → (m'.stage j).processingFsmEvent = false →
      (m'.stage j).queue = [] := by
    intro hquiet j hne hj
    rw [hqueue j hne]
    exact hquiet j ((hproc j).symm.trans hj)
  intro h
  split at h
  · rename_i hwork
    rw [if_pos hwork]
    refine ⟨hstuck ▸ h, hproc, fun hquiet j hj => hothers hquiet j ?_ hj⟩
    rintro rfl
    rw [hwork] at hj
    cases hj
  · rename_i hwork
    rw [if_neg hwork]
    obtain ⟨hstuck', hdone⟩ := hd _ i h
    obtain ⟨hself, hother, hquiet'⟩ := hdone (by simp)
    refine ⟨hstuck ▸ hstuck', fun j => ?_, fun hquiet => hquiet' ?_⟩
    · rcases eq_or_ne j i with rfl | hne
      · rw [hself, ← hproc, eq_false_of_ne_true hwork]
      · rw [hother j hne, stage_update_of_ne m' hne, hproc]
    · exact quiet_update (hothers hquiet) rfl

theorem drains_drain (n : Nat) : Drains (drain conv n : Machine ι → ι → Machine ι) := by
  induction n with
  | zero =>
      intro m i h
      cases h
  | succ n ih =>
      intro m i h
      cases hqueue : (m.stage i).queue with
      | nil =>
          rw [drain_nil conv n m i hqueue] at h ⊢
          refine ⟨h, fun _ => ⟨by simp, fun j hne => by rw [stage_update_of_ne m hne],
            fun hquiet j hj => ?_⟩⟩
          rcases eq_or_ne j i with rfl | hne
          · rw [stage_update_self]
            exact hqueue
          · rw [stage_update_of_ne m hne] at hj ⊢
            exact hquiet j hj
      | cons msg rest =>
          rw [drain_cons conv n m i msg rest hqueue] at h ⊢
          obtain ⟨hstuck, hdone⟩ := ih _ i h
          obtain ⟨hstuck', hproc, hquiet⟩ :=
            settles_processEvent conv (settles_generateWith ih) _ i msg hstuck
          refine ⟨hstuck', fun hwork => ?_⟩
          obtain ⟨hself, hother, hquiet'⟩ := hdone ((hproc i).trans (by simpa using hwork))
          refine ⟨hself, fun j hne => ?_, fun hquiet'' => hquiet' (hquiet ?_)⟩
          · rw [hother j hne, hproc, stage_update_of_ne m hne]
          · exact quiet_update (fun j _ => hquiet'' j) hwork

end Settling

section ModeToOff

variable [DecidableEq ι]

theorem update_congr (m : Machine ι) (i : ι) {f f' : Stage ι → Stage ι}
    (h : f (m.stage i) = f' (m.stage i)) : m.update i f = m.update i f' := by
  rw [Machine.update, Machine.update, h]

/-- A stage that is neither on nor off for a time is put back without a look at the arguments. -/
theorem requestModeToOff_of_not_timed (m : Machine ι) (i : ι) (hidle : Idle (m.stage i))
    (hstate : ∀ on, (m.stage i).state ≠ .timed on) :
    requestModeToOff conv m i =
      m.update i fun s => if s.state = .off then s else initialized s := by
  have hprocess : processEvent conv (generateWith (drain conv 15)) (working m i) i
      .offModeRequest =
      (working m i).update i fun s => if s.state = .off then s else initialized s := by
    cases hs : (m.stage i).state with
    | off => simp [processEvent, working, hs, Machine.update]
    | timed on => exact absurd hs (hstate on)
    | starting on =>
        simp [processEvent, cyclingEvent, activeEvent, setState_initializeStage, working, hs,
          Machine.update]
    | transitioningFromLowerStage =>
        simp [processEvent, activeEvent, setState_initializeStage, working, hs, Machine.update]
    | transitioningBackToLowerStage =>
        simp [processEvent, activeEvent, setState_initializeStage, working, hs, Machine.update]
    | supplementingNextStage =>
        simp [processEvent, setState_initializeStage, working, hs, Machine.update]
  rw [requestModeToOff, generateEvent_idle conv m i _ hidle, hprocess, drain_nil conv _ _ i]
  · rw [working, update_update, update_update]
    refine update_congr m i ?_
    simp only [Function.comp_apply]
    split
    · simp [← hidle.2]
    · simp [initialized, ← hidle.2]
  · simp only [working, update_update, stage_update_self, Function.comp_apply]
    split
    · exact hidle.1
    · exact hidle.1

/-- The check of the cycle time, whether or not there are arguments. -/
theorem checkTime_eq (g : Machine ι → ι → Event → Machine ι) (m : Machine ι) (i : ι) (on : Bool)
    (hg : Enqueues g i) (hproc : (m.stage i).processingFsmEvent = true)
    (hqueue : (m.stage i).queue = []) :
    ∃ queue abort, (queue = [] ∨ queue = [.timeExpired on]) ∧
      checkTime conv g m i on =
        checked (m.assert (m.stage i).hasArgs) i queue (recordTime conv m i on) abort := by
  rcases Classical.em (fires conv m i on) with hfires | hnot
  · refine ⟨[.timeExpired on], false, .inr rfl, ?_⟩
    obtain ⟨hmode, hover⟩ := hfires
    have hcheck : checkTime conv g m i on =
        g { m.assert (m.stage i).hasArgs with
            args.cycleInfo := recordTime conv m i on
            args.abortOnOffCycle := false } i (.timeExpired on) := by
      cases on <;> simp [checkTime, Machine.assert, hmode, recordTime, hover]
    rw [hcheck]
    refine (hg _ _ (by exact hproc) (by simp [Machine.assert, hqueue, queueCapacity])).trans ?_
    simp [enqueue, checked, Machine.update, Machine.assert, hqueue]
  · refine ⟨[], m.args.abortOnOffCycle, .inl rfl, ?_⟩
    have hcheck : checkTime conv g m i on =
        { m.assert (m.stage i).hasArgs with args.cycleInfo := recordTime conv m i on } := by
      rcases Classical.em (m.args.cycleInfo.mode = CycleStatus.of on) with hmode | hmode
      · have hover := not_and.mp hnot hmode
        cases on <;> simp [checkTime, Machine.assert, hmode, recordTime, hover]
      · simp [checkTime, Machine.assert, hmode, recordTime]
    rw [hcheck]
    simp only [checked, ← hqueue]
    simp [Machine.assert]

/-- A stage in a cycle writes the cycle time into the arguments of its last call. -/
theorem requestModeToOff_timed (m : Machine ι) (i : ι) (on : Bool) (hidle : Idle (m.stage i))
    (hstate : (m.stage i).state = .timed on) :
    ∃ abort, requestModeToOff conv m i =
      { (m.assert (m.stage i).hasArgs).update i initialized with
        args := { m.args with
          cycleInfo := recordTime conv m i on
          abortOnOffCycle := abort } } := by
  obtain ⟨queue, abort, hqueue, hcheck⟩ := checkTime_eq conv (generateWith (drain conv 15))
    (working m i) i on (enqueues_generateWith _ i) (by simp [working])
    (by simpa [working] using hidle.1)
  refine ⟨abort, ?_⟩
  have hevent : processEvent conv (generateWith (drain conv 15)) (working m i) i .offModeRequest =
      (checked ((working m i).assert (m.stage i).hasArgs) i queue (recordTime conv m i on)
        abort).update i initialized := by
    rw [processEvent_timed conv _ _ i on _ (by simpa [working] using hstate), if_neg (by simp),
      hcheck, ← setState_initializeStage]
    simp [cyclingEvent, activeEvent, working, recordTime]
  rw [requestModeToOff, generateEvent_idle conv m i _ hidle, hevent,
    drain_left conv _ i on (.inl (by simp [initialized]))
      (by simpa [checked, initialized] using hqueue)]
  simp [working, checked, Machine.update, Machine.assert, initialized, hidle.1, hidle.2]

end ModeToOff

section Histories

variable {α : Type} [DecidableEq ι] [DecidableEq α]

/-- The calls of a stage that hand it a block of arguments. -/
inductive Request (ι : Type) where
  | requestOn (startInOnCycle : Bool)
  | requestAsSupplement (nextStage : ι) (startNextStageInOnCycle : Bool)
  | requestOff (startLowerStageInOnCycle : Bool)
  | execute

/-- The members that the call sets. -/
def Request.set : Request ι → Stage ι → Stage ι
  | .requestOn startInOnCycle, s =>
      { s with hasArgs := true, startInOffCycle := !startInOnCycle, supplemented := false }
  | .requestAsSupplement nextStage startNextStageInOnCycle, s =>
      { s with
        hasArgs := true
        requestSupplementStartInOnCycle := startNextStageInOnCycle
        nextStage := some nextStage }
  | .requestOff startLowerStageInOnCycle, s =>
      { s with hasArgs := true, requestOffStartInOnCycle := startLowerStageInOnCycle }
  | .execute, s => { s with hasArgs := true }

def Request.event : Request ι → Event
  | .requestOn _ => .onRequest
  | .requestAsSupplement _ _ => .needMoreCapacity
  | .requestOff _ => .excessCapacity
  | .execute => .noMsg

/-- A call, with a bound on the events that are followed. -/
def call (n : Nat) (m : Machine ι) (i : ι) (r : Request ι) : Machine ι :=
  generateWith (drain conv n) (m.update i r.set) i r.event

theorem call_default (m : Machine ι) (i nextStage : ι) :
    call conv 16 m i (.requestOn true) = requestOn conv m i ∧
      call conv 16 m i (.requestAsSupplement nextStage true) =
        requestAsSupplement conv m i nextStage ∧
      call conv 16 m i (.requestOff true) = requestOff conv m i ∧
      call conv 16 m i .execute = execute conv m i :=
  ⟨rfl, rfl, rfl, rfl⟩

/-- The stages, the blocks of arguments at their addresses, and the address of the block that
each stage has been handed last. -/
structure World (ι α : Type) where
  stage : ι → Stage ι
  block : α → Args
  lastArgs : ι → α

/-- The stages while they work with the block at `a`. -/
def World.machine (w : World ι α) (a : α) : Machine ι :=
  { stage := w.stage
    args := w.block a
    assertFailed := false
    overflow := false
    stuck := false }

/-- The stages have worked with the block at `a`. -/
def World.after (w : World ι α) (a : α) (m : Machine ι) (lastArgs : ι → α) : World ι α :=
  { stage := m.stage
    block := Function.update w.block a m.args
    lastArgs := lastArgs }

/-- `requestModeToOff()`, which has the block of the last call only. -/
def World.requestModeToOff (w : World ι α) (i : ι) : World ι α :=
  w.after (w.lastArgs i) (StageFsm.requestModeToOff conv (w.machine (w.lastArgs i)) i) w.lastArgs

def Completes (m : Machine ι) : Prop :=
  m.assertFailed = false ∧ m.overflow = false ∧ m.stuck = false

/-- The histories of the stages. A call hands its block to the stage, and on to those that the
stage notifies; the blocks may be written in between. -/
inductive Reachable : World ι α → Prop where
  | init {w} (h : ∀ i, ∃ kind systemIndex outIndex,
      w.stage i = Stage.init kind systemIndex outIndex) : Reachable w
  | call {w} (h : Reachable w) (i : ι) (a : α) (r : Request ι) (n : Nat) (lastArgs : ι → α)
      (hdone : Completes (call conv n (w.machine a) i r)) (hself : lastArgs i = a)
      (hothers : ∀ j, lastArgs j = w.lastArgs j ∨ lastArgs j = a) :
      Reachable (w.after a (ModeToOff.call conv n (w.machine a) i r) lastArgs)
  | requestModeToOff {w} (h : Reachable w) (i : ι)
      (hdone : Completes (StageFsm.requestModeToOff conv (w.machine (w.lastArgs i)) i)) :
      Reachable (w.requestModeToOff conv i)
  | reconfigure {w} (h : Reachable w) (i : ι) (systemStageIndex outputStageIndex : Nat) :
      Reachable { w with
        stage := Function.update w.stage i
          { w.stage i with systemIndex := systemStageIndex, outIndex := outputStageIndex } }
  | write {w} (h : Reachable w) (block : α → Args) : Reachable { w with block := block }

variable {conv} {w : World ι α}

omit [DecidableEq ι] [DecidableEq α] in
theorem idle_of_settles {m : Machine ι} (hidle : ∀ i, Idle (w.stage i)) (a : α)
    (hsettles : Settles (w.machine a) m) (hdone : Completes m) (i : ι) : Idle (m.stage i) := by
  obtain ⟨-, hproc, hquiet⟩ := hsettles hdone.2.2
  have hnot : (m.stage i).processingFsmEvent = false := (hproc i).trans (hidle i).2
  exact ⟨hquiet (fun j _ => (hidle j).1) i hnot, hnot⟩

theorem Reachable.idle (h : Reachable conv w) (i : ι) : Idle (w.stage i) := by
  induction h generalizing i with
  | init h =>
      obtain ⟨kind, systemIndex, outIndex, hstage⟩ := h i
      rw [hstage]
      exact ⟨rfl, rfl⟩
  | call h j a r n lastArgs hdone hself hothers ih =>
      refine idle_of_settles ih a ?_ hdone i
      refine Settles.trans ?_ (settles_generateWith (drains_drain conv n) _ j r.event)
      refine settles_update _ j (fun s => ?_) fun s => ?_
      · cases r <;> rfl
      · cases r <;> rfl
  | requestModeToOff h j hdone ih =>
      exact idle_of_settles ih _ (settles_generateWith (drains_drain conv 16) _ j _) hdone i
  | reconfigure h j systemStageIndex outputStageIndex ih =>
      rcases eq_or_ne i j with rfl | hne
      · simp only [Function.update_self]
        exact ih i
      · simp only [Function.update_of_ne hne]
        exact ih i
  | write h block ih => exact ih i

variable (conv w)

/-- The request neither reads nor changes a block. -/
def LeavesArgsAlone (i : ι) : Prop :=
  ∀ block, { w with block := block }.requestModeToOff conv i =
    { w.requestModeToOff conv i with block := block }

variable {conv w}

theorem leavesArgsAlone_of_not_timed (h : Reachable conv w) (i : ι)
    (hstate : ∀ on, (w.stage i).state ≠ .timed on) :
    ((w.requestModeToOff conv i).stage i).state = .off ∧ LeavesArgsAlone conv w i := by
  have heq : ∀ block, { w with block := block }.requestModeToOff conv i =
      { w with
        stage := Function.update w.stage i
          (if (w.stage i).state = .off then w.stage i else initialized (w.stage i))
        block := block } := by
    intro block
    rw [World.requestModeToOff, requestModeToOff_of_not_timed conv _ i (h.idle i) hstate]
    simp only [World.after, World.machine, Machine.update, Function.update_eq_self]
    rfl
  have hself := heq w.block
  constructor
  · rw [hself]
    simp only [Function.update_self]
    split
    · assumption
    · rfl
  · intro block
    rw [heq block, hself]

theorem not_leavesArgsAlone_of_timed (h : Reachable conv w) (i : ι) (on : Bool)
    (hstate : (w.stage i).state = .timed on) :
    ((w.requestModeToOff conv i).stage i).state = .off ∧ ¬LeavesArgsAlone conv w i := by
  constructor
  · obtain ⟨abort, heq⟩ :=
      requestModeToOff_timed conv (w.machine (w.lastArgs i)) i on (h.idle i) hstate
    rw [World.requestModeToOff, heq]
    simp [World.after, Machine.update, initialized]
  · intro halone
    -- a block in the middle of the cycle with another time than the load asks for
    let args := w.block (w.lastArgs i)
    let time := cycleTimeOf conv args (w.stage i).systemIndex on
    let cycleInfo : CycleInfo :=
      { args.cycleInfo with onTime := time + 1, offTime := time + 1, mode := CycleStatus.of on }
    let block : α → Args := fun _ => { args with cycleInfo := cycleInfo }
    obtain ⟨abort, heq⟩ := requestModeToOff_timed conv
      (World.machine { w with block := block } (w.lastArgs i)) i on (h.idle i) hstate
    have hblock := congrArg (fun w' : World ι α => (w'.block (w.lastArgs i)).cycleInfo)
      (halone block)
    rw [World.requestModeToOff, heq] at hblock
    simp only [World.after, Function.update_self] at hblock
    have hrecord : recordTime conv (World.machine { w with block := block } (w.lastArgs i)) i on =
        if on then { cycleInfo with onTime := time } else { cycleInfo with offTime := time } :=
      if_pos rfl
    rw [hrecord] at hblock
    cases on with
    | true => exact absurd (congrArg CycleInfo.onTime hblock) (Nat.succ_ne_self time).symm
    | false => exact absurd (congrArg CycleInfo.offTime hblock) (Nat.succ_ne_self time).symm

/-- The request puts a stage in the off state, and leaves all arguments alone exactly when the
stage is not in an on or off time. -/
theorem requestModeToOff_alone_iff (h : Reachable conv w) (i : ι) :
    ((w.requestModeToOff conv i).stage i).state = .off ∧
      (LeavesArgsAlone conv w i ↔ ∀ on, (w.stage i).state ≠ .timed on) := by
  rcases Classical.em (∃ on, (w.stage i).state = .timed on) with ⟨on, htimed⟩ | hnot
  · obtain ⟨hoff, halone⟩ := not_leavesArgsAlone_of_timed h i on htimed
    exact ⟨hoff, iff_of_false halone fun hall => hall on htimed⟩
  · have hstate : ∀ on, (w.stage i).state ≠ .timed on := fun on htimed => hnot ⟨on, htimed⟩
    obtain ⟨hoff, halone⟩ := leavesArgsAlone_of_not_timed h i hstate
    exact ⟨hoff, iff_of_true halone hstate⟩

def testArgs : Args :=
  { inputs :=
      { pvOut := 1 / 2
        systemConfig := Config.SystemConfig.off
        currentInterval := ⟨600, 0⟩
        equipmentBeginTimes := ⟨⟨0, 0⟩, ⟨0, 0⟩, ⟨0, 0⟩, ⟨0, 0⟩, ⟨0, 0⟩, ⟨0, 0⟩⟩
        defeatEquipMinOffTime := false }
    abortOnOffCycle := false
    vOutputs := ⟨0, 0, fun _ => 0, 0, fun _ => 0, false⟩
    cycleInfo := ⟨⟨0, 0⟩, ⟨0, 0⟩, 0, 0, .off⟩
    systemOn := false }

def testWorld : World Unit Bool :=
  { stage := fun _ => Stage.init .cooling 0 0
    block := fun _ => testArgs
    lastArgs := fun _ => false }

/-- The stage has been turned on with the second block. -/
def testOn : World Unit Bool :=
  testWorld.after true (call ToUInt32.truncation 16 (testWorld.machine true) () (.requestOn true))
    fun _ => true

theorem reachable_testOn : Reachable ToUInt32.truncation testOn :=
  .call (.init fun _ => ⟨.cooling, 0, 0, rfl⟩) () true (.requestOn true) 16 (fun _ => true)
    ⟨by with_unfolding_all decide, by with_unfolding_all decide, by with_unfolding_all decide⟩ rfl
    fun _ => .inr rfl

theorem requestModeToOff_alone_on :
    ((testOn.requestModeToOff ToUInt32.truncation ()).stage ()).state = .off ∧
      (LeavesArgsAlone ToUInt32.truncation testOn () ↔ ∀ on, (testOn.stage ()).state ≠ .timed on) :=
  requestModeToOff_alone_iff reachable_testOn ()

/-- The request writes the block that the stage was turned on with. -/
theorem requestModeToOff_alone_counterexample :
    ¬ ∀ w : World Unit Bool, Reachable ToUInt32.truncation w →
      ∀ i, LeavesArgsAlone ToUInt32.truncation w i :=
  fun hall => (not_leavesArgsAlone_of_timed reachable_testOn () true
    (by with_unfolding_all decide)).2 (hall testOn reachable_testOn ())

end Histories

end ColonyPico.Storm.ModeToOff
