import ColonyPico.Storm.StageFsm
import Mathlib.Tactic.Common

/-!
What the calls of a stage do when its queue is empty before. A stage that works off its queue
only appends to it, and the events that are then left over are of no effect.
-/

namespace ColonyPico.Storm.StageRuns

open ColonyPico.Storm.DutyCycle
open ColonyPico.Storm.StageFsm
open ColonyPico.System.ElapsedTime

variable {ι : Type} [DecidableEq ι] (conv : ToUInt32)

@[simp]
theorem stage_update_self (m : Machine ι) (i : ι) (f : Stage ι → Stage ι) :
    (m.update i f).stage i = f (m.stage i) := by
  simp [Machine.update]

@[simp]
theorem stage_update_of_ne (m : Machine ι) {i j : ι} (h : j ≠ i) (f : Stage ι → Stage ι) :
    (m.update i f).stage j = m.stage j := by
  simp [Machine.update, h]

@[simp]
theorem args_update (m : Machine ι) (i : ι) (f : Stage ι → Stage ι) :
    (m.update i f).args = m.args :=
  rfl

@[simp]
theorem update_update (m : Machine ι) (i : ι) (f g : Stage ι → Stage ι) :
    (m.update i f).update i g = m.update i (g ∘ f) := by
  simp [Machine.update]

/-- The machine after `msg` has been queued. -/
def enqueue (m : Machine ι) (i : ι) (msg : Event) : Machine ι :=
  m.update i fun s => { s with queue := s.queue ++ [msg] }

/-- Events of a stage at work only get queued. -/
def Enqueues (g : Machine ι → ι → Event → Machine ι) (i : ι) : Prop :=
  ∀ m msg, (m.stage i).processingFsmEvent = true → (m.stage i).queue.length < queueCapacity →
    g m i msg = enqueue m i msg

theorem enqueues_generateWith (d : Machine ι → ι → Machine ι) (i : ι) :
    Enqueues (generateWith d) i := by
  intro m msg hproc hroom
  simp [generateWith, Machine.update, enqueue, hroom, hproc]

theorem generateWith_idle (d : Machine ι → ι → Machine ι) (m : Machine ι) (i : ι) (msg : Event)
    (hproc : (m.stage i).processingFsmEvent = false) (hqueue : (m.stage i).queue = []) :
    generateWith d m i msg =
      d (m.update i fun s => { s with queue := [msg], processingFsmEvent := true }) i := by
  have hroom : (m.stage i).queue.length < queueCapacity := by simp [hqueue, queueCapacity]
  simp only [generateWith, if_pos hroom]
  simp [Machine.update, hproc, hqueue]

theorem drain_nil (n : Nat) (m : Machine ι) (i : ι) (hqueue : (m.stage i).queue = []) :
    drain conv (n + 1) m i = m.update i fun s => { s with processingFsmEvent := false } := by
  rw [drain, hqueue]

theorem drain_cons (n : Nat) (m : Machine ι) (i : ι) (msg : Event) (rest : List Event)
    (hqueue : (m.stage i).queue = msg :: rest) :
    drain conv (n + 1) m i =
      drain conv n
        (processEvent conv (generateWith (drain conv n))
          (m.update i fun s => { s with queue := rest }) i msg) i := by
  rw [drain, hqueue]

omit [DecidableEq ι] in
theorem assert_true (m : Machine ι) {b : Bool} (h : b = true) : m.assert b = m := by
  subst h
  simp [Machine.assert]

/-- The check of the cycle time finds that the cycle is over. -/
def fires (m : Machine ι) (i : ι) (on : Bool) : Prop :=
  m.args.cycleInfo.mode = CycleStatus.of on ∧
    (expiredPrecision (m.stage i).startTime
        (Precision.ofSeconds (cycleTimeOf conv m.args (m.stage i).systemIndex on))
        m.args.inputs.currentInterval = true ∨
      m.args.abortOnOffCycle = true)

/-- The cycle information that the check of the cycle time leaves. -/
def recordTime (m : Machine ι) (i : ι) (on : Bool) : CycleInfo :=
  if m.args.cycleInfo.mode = CycleStatus.of on then
    if on then
      { m.args.cycleInfo with onTime := cycleTimeOf conv m.args (m.stage i).systemIndex on }
    else { m.args.cycleInfo with offTime := cycleTimeOf conv m.args (m.stage i).systemIndex on }
  else m.args.cycleInfo

omit [DecidableEq ι] in
theorem mode_recordTime (m : Machine ι) (i : ι) (on : Bool) :
    (recordTime conv m i on).mode = m.args.cycleInfo.mode := by
  rw [recordTime]
  split_ifs <;> rfl

omit [DecidableEq ι] in
theorem checkTime_of_fires (g : Machine ι → ι → Event → Machine ι) (m : Machine ι) (i : ι)
    (on : Bool) (hargs : (m.stage i).hasArgs = true) (h : fires conv m i on) :
    checkTime conv g m i on =
      g { m with
          args.cycleInfo := recordTime conv m i on
          args.abortOnOffCycle := false } i (.timeExpired on) := by
  obtain ⟨hmode, hover⟩ := h
  cases on <;> simp [checkTime, assert_true m hargs, hmode, recordTime, hover]

omit [DecidableEq ι] in
theorem checkTime_of_not_fires (g : Machine ι → ι → Event → Machine ι) (m : Machine ι) (i : ι)
    (on : Bool) (hargs : (m.stage i).hasArgs = true) (h : ¬fires conv m i on) :
    checkTime conv g m i on = { m with args.cycleInfo := recordTime conv m i on } := by
  by_cases hmode : m.args.cycleInfo.mode = CycleStatus.of on
  · have hover := not_and.mp h hmode
    cases on <;> simp [checkTime, assert_true m hargs, hmode, recordTime, hover]
  · simp [checkTime, assert_true m hargs, hmode, recordTime]

/-- Stage `i` at work in a cycle that began now. -/
def cycling (m : Machine ι) (i : ι) (on : Bool) (state : State) (queue : List Event)
    (cycleInfo : CycleInfo) (abort : Bool) : Machine ι :=
  { m with
    stage := Function.update m.stage i
      { m.stage i with
        startTime := m.args.inputs.currentInterval
        state := state
        queue := queue }
    args := { m.args with
      vOutputs := m.args.vOutputs.setStage (m.stage i).kind (m.stage i).systemIndex
        (m.stage i).outIndex on
      cycleInfo := cycleInfo
      abortOnOffCycle := abort } }

/-- A stage that is turned on or off again was last turned that way. -/
theorem setStage_setStage (v : VirtualOutputs) (kind : StageKind) (systemIndex outIndex : Nat)
    (on on' : Bool) :
    (v.setStage kind systemIndex outIndex on).setStage kind systemIndex outIndex on' =
      v.setStage kind systemIndex outIndex on' := by
  cases kind <;> simp only [VirtualOutputs.setStage, Function.update_idem] <;> split_ifs <;> rfl

theorem cycling_cycling (m : Machine ι) (i : ι) (on on' : Bool) (state state' : State)
    (queue queue' : List Event) (cycleInfo cycleInfo' : CycleInfo) (abort abort' : Bool) :
    cycling (cycling m i on state queue cycleInfo abort) i on' state' queue' cycleInfo' abort' =
      cycling m i on' state' queue' cycleInfo' abort' := by
  simp [cycling, setStage_setStage]

/-- A cycle is over when it begins if it has no length or is aborted. -/
theorem expiredPrecision_self (time : Nat) (t : Precision) :
    expiredPrecision t (Precision.ofSeconds time) t = true ↔ time = 0 := by
  have hsub (w a : Nat) : subtract w a a = 0 := by simp [subtract]
  simp only [expiredPrecision, deltaPrecision, hsub, Precision.ofSeconds, decide_eq_true_eq]
  simp
  omega

/-- The cycle information at the start of a cycle. -/
def beginCycle (cycleInfo : CycleInfo) (on : Bool) (now : Precision) : CycleInfo :=
  if on then { cycleInfo with beginOnTime := now, mode := CycleStatus.of on }
  else { cycleInfo with beginOffTime := now, mode := CycleStatus.of on }

theorem mode_beginCycle (cycleInfo : CycleInfo) (on : Bool) (now : Precision) :
    (beginCycle cycleInfo on now).mode = CycleStatus.of on := by
  rw [beginCycle]
  split_ifs <;> rfl

theorem startingStage_startTime (g : Machine ι → ι → Event → Machine ι) (m : Machine ι) (i : ι)
    (on : Bool) (hargs : (m.stage i).hasArgs = true) :
    startingStage conv g (startTime m i) i on =
      g (checkTime conv g
          (cycling m i on (m.stage i).state (m.stage i).queue
            (beginCycle m.args.cycleInfo on m.args.inputs.currentInterval)
            m.args.abortOnOffCycle) i on) i (.startingTimeExpired on) := by
  cases on <;>
    simp [startingStage, startTime, setStage, Machine.update, cycling, beginCycle, hargs,
      assert_true]

theorem fires_cycling (m : Machine ι) (i : ι) (on : Bool) (state : State) (queue : List Event)
    (cycleInfo : CycleInfo) (abort : Bool) (hmode : cycleInfo.mode = CycleStatus.of on) :
    fires conv (cycling m i on state queue cycleInfo abort) i on ↔
      cycleTimeOf conv m.args (m.stage i).systemIndex on = 0 ∨ abort = true := by
  have htime : cycleTimeOf conv (cycling m i on state queue cycleInfo abort).args
      (m.stage i).systemIndex on = cycleTimeOf conv m.args (m.stage i).systemIndex on := rfl
  simp only [fires, cycling, Function.update_self, hmode, true_and] at htime ⊢
  rw [htime, expiredPrecision_self]

/-- The entry into a cycle. Its time is checked at once, so that the event that ends the
cycle can be queued before the one that ends its start. -/
theorem enterCycle_eq (g : Machine ι → ι → Event → Machine ι) (m : Machine ι) (i : ι)
    (on : Bool) (hg : Enqueues g i) (hargs : (m.stage i).hasArgs = true)
    (hproc : (m.stage i).processingFsmEvent = true)
    (hroom : (m.stage i).queue.length + 2 ≤ queueCapacity) :
    ∃ cycleInfo, cycleInfo.mode = CycleStatus.of on ∧
      enterCycle conv g m i on =
        if cycleTimeOf conv m.args (m.stage i).systemIndex on = 0 ∨
            m.args.abortOnOffCycle = true then
          cycling m i on (.starting on)
            ((m.stage i).queue ++ [.timeExpired on, .startingTimeExpired on]) cycleInfo false
        else
          cycling m i on (.starting on) ((m.stage i).queue ++ [.startingTimeExpired on])
            cycleInfo m.args.abortOnOffCycle := by
  have hmode := mode_beginCycle m.args.cycleInfo on m.args.inputs.currentInterval
  have hfires := fires_cycling conv m i on (m.stage i).state (m.stage i).queue _
    m.args.abortOnOffCycle hmode
  refine ⟨recordTime conv (cycling m i on (m.stage i).state (m.stage i).queue
    (beginCycle m.args.cycleInfo on m.args.inputs.currentInterval) m.args.abortOnOffCycle) i on,
    (mode_recordTime conv _ i on).trans hmode, ?_⟩
  rw [enterCycle, startingStage_startTime conv g m i on hargs]
  split_ifs with hover
  · rw [checkTime_of_fires conv g _ i on (by simpa [cycling] using hargs) (hfires.mpr hover),
      hg _ (.timeExpired on) (by simpa [cycling] using hproc) (by simp [cycling]; omega),
      hg _ _ (by simpa [cycling, enqueue, Machine.update] using hproc)
        (by simp [cycling, enqueue, Machine.update]; omega)]
    simp [enqueue, Machine.setState, Machine.update, cycling]
  · rw [checkTime_of_not_fires conv g _ i on (by simpa [cycling] using hargs)
        (mt hfires.mp hover),
      hg _ _ (by simpa [cycling] using hproc) (by simp [cycling]; omega)]
    simp [enqueue, Machine.setState, Machine.update, cycling]

theorem enterCycle_cycling (g : Machine ι → ι → Event → Machine ι) (m : Machine ι) (i : ι)
    (on on' : Bool) (state : State) (queue : List Event) (cycleInfo : CycleInfo) (abort : Bool)
    (hg : Enqueues g i) (hargs : (m.stage i).hasArgs = true)
    (hproc : (m.stage i).processingFsmEvent = true)
    (hroom : queue.length + 2 ≤ queueCapacity) :
    ∃ cycleInfo', cycleInfo'.mode = CycleStatus.of on' ∧
      enterCycle conv g (cycling m i on state queue cycleInfo abort) i on' =
        if cycleTimeOf conv m.args (m.stage i).systemIndex on' = 0 ∨ abort = true then
          cycling m i on' (.starting on')
            (queue ++ [.timeExpired on', .startingTimeExpired on']) cycleInfo' false
        else
          cycling m i on' (.starting on') (queue ++ [.startingTimeExpired on']) cycleInfo'
            abort := by
  obtain ⟨cycleInfo', hmode, henter⟩ := enterCycle_eq conv g
    (cycling m i on state queue cycleInfo abort) i on' hg (by simpa [cycling] using hargs)
    (by simpa [cycling] using hproc) (by simpa [cycling] using hroom)
  refine ⟨cycleInfo', hmode, henter.trans ?_⟩
  have hqueue : ((cycling m i on state queue cycleInfo abort).stage i).queue = queue := by
    simp [cycling]
  have htime : cycleTimeOf conv (cycling m i on state queue cycleInfo abort).args
      ((cycling m i on state queue cycleInfo abort).stage i).systemIndex on' =
      cycleTimeOf conv m.args (m.stage i).systemIndex on' := by
    simp [cycling, cycleTimeOf]
  have habort : (cycling m i on state queue cycleInfo abort).args.abortOnOffCycle = abort := rfl
  rw [hqueue, htime, habort, cycling_cycling, cycling_cycling]

/-- An event that means nothing in the cycle. -/
def Stale (on : Bool) (msg : Event) : Prop :=
  msg = .timeExpired (!on) ∨ msg = .startingTimeExpired (!on)

theorem processEvent_starting_of_stale (g : Machine ι → ι → Event → Machine ι) (m : Machine ι)
    (i : ι) (on : Bool) (msg : Event) (hstate : (m.stage i).state = .starting on)
    (hstale : Stale on msg) : processEvent conv g m i msg = m := by
  rcases hstale with rfl | rfl <;> cases on <;>
    simp [processEvent, hstate, cyclingEvent, activeEvent]

/-- The events that another cycle has left are skipped. -/
theorem drain_stale (m : Machine ι) (i : ι) (on : Bool) (cycleInfo : CycleInfo) (abort : Bool)
    (stale queue : List Event) (hstale : ∀ msg ∈ stale, Stale on msg) (n : Nat) :
    drain conv (stale.length + n)
        (cycling m i on (.starting on) (stale ++ queue) cycleInfo abort) i =
      drain conv n (cycling m i on (.starting on) queue cycleInfo abort) i := by
  induction stale with
  | nil => simp
  | cons msg rest ih =>
      have hsplit : (msg :: rest).length + n = (rest.length + n) + 1 := by
        rw [List.length_cons]
        omega
      rw [hsplit, drain_cons conv _ _ i msg (rest ++ queue) (by simp [cycling]),
        processEvent_starting_of_stale conv _ _ i on msg (by simp [cycling, Machine.update])
          (hstale msg List.mem_cons_self),
        ← ih fun e he => hstale e (List.mem_cons_of_mem _ he)]
      simp [cycling, Machine.update]

/-- Stage `i` after a run that ends in a cycle that began now. -/
def settled (m : Machine ι) (i : ι) (on : Bool) (cycleInfo : CycleInfo) (abort : Bool) :
    Machine ι :=
  (cycling m i on (.timed on) [] cycleInfo abort).update i fun s =>
    { s with processingFsmEvent := false }

/-- A stage that rests in a cycle that began at `now`. -/
def restsIn (now : Precision) (on : Bool) (s : Stage ι) : Stage ι :=
  { s with
    startTime := now
    state := .timed on
    queue := []
    processingFsmEvent := false }

omit [DecidableEq ι] in
@[simp]
theorem state_restsIn (now : Precision) (on : Bool) (s : Stage ι) :
    (restsIn now on s).state = .timed on :=
  rfl

@[simp]
theorem stage_settled_self (m : Machine ι) (i : ι) (on : Bool) (cycleInfo : CycleInfo)
    (abort : Bool) :
    (settled m i on cycleInfo abort).stage i =
      restsIn m.args.inputs.currentInterval on (m.stage i) := by
  simp [settled, cycling, restsIn]

@[simp]
theorem stage_settled_of_ne (m : Machine ι) {i j : ι} (hne : j ≠ i) (on : Bool)
    (cycleInfo : CycleInfo) (abort : Bool) :
    (settled m i on cycleInfo abort).stage j = m.stage j := by
  simp [settled, cycling, hne]

theorem drain_start (m : Machine ι) (i : ι) (on : Bool) (cycleInfo : CycleInfo) (abort : Bool)
    (hargs : (m.stage i).hasArgs = true) (n : Nat) :
    drain conv (n + 2) (cycling m i on (.starting on) [.startingTimeExpired on] cycleInfo abort)
        i =
      settled m i on cycleInfo abort := by
  rw [drain_cons conv _ _ i (.startingTimeExpired on) [] (by simp [cycling]),
    drain_nil conv _ _ i ?_]
  · simp [processEvent, cycling, Machine.update, setStage, Machine.setState, settled,
      setStage_setStage, hargs, assert_true]
  · simp [processEvent, cycling, Machine.update, setStage, Machine.setState, hargs, assert_true]

/-- A cycle that ends at once gives way to the other one. -/
theorem drain_expired (m : Machine ι) (i : ι) (on : Bool) (cycleInfo : CycleInfo)
    (hargs : (m.stage i).hasArgs = true) (hproc : (m.stage i).processingFsmEvent = true)
    (n : Nat) :
    ∃ cycleInfo', cycleInfo'.mode = CycleStatus.of (!on) ∧
      drain conv (n + 2)
          (cycling m i on (.starting on) [.timeExpired on, .startingTimeExpired on] cycleInfo
            false) i =
        if cycleTimeOf conv m.args (m.stage i).systemIndex (!on) = 0 then
          drain conv n
            (cycling m i (!on) (.starting (!on))
              [.timeExpired (!on), .startingTimeExpired (!on)] cycleInfo' false) i
        else
          drain conv n
            (cycling m i (!on) (.starting (!on)) [.startingTimeExpired (!on)] cycleInfo' false)
            i := by
  obtain ⟨cycleInfo', hmode, henter⟩ := enterCycle_cycling conv
    (generateWith (drain conv (n + 1))) m i on (!on) (.starting on) [.startingTimeExpired on]
    cycleInfo false (enqueues_generateWith _ i) hargs hproc (by simp [queueCapacity])
  have hstale : ∀ msg ∈ [Event.startingTimeExpired on], Stale (!on) msg := by
    simp [Stale]
  have hpop : (cycling m i on (.starting on) [.timeExpired on, .startingTimeExpired on] cycleInfo
      false).update i (fun s => { s with queue := [.startingTimeExpired on] }) =
      cycling m i on (.starting on) [.startingTimeExpired on] cycleInfo false := by
    simp [cycling, Machine.update]
  have hprocess : processEvent conv (generateWith (drain conv (n + 1)))
      (cycling m i on (.starting on) [.startingTimeExpired on] cycleInfo false) i
        (.timeExpired on) =
      enterCycle conv (generateWith (drain conv (n + 1)))
        (cycling m i on (.starting on) [.startingTimeExpired on] cycleInfo false) i (!on) := by
    simp [processEvent, cycling]
  refine ⟨cycleInfo', hmode, ?_⟩
  rw [drain_cons conv _ _ i (.timeExpired on) [.startingTimeExpired on] (by simp [cycling]), hpop,
    hprocess, henter, Nat.add_comm n 1]
  simp only [Bool.false_eq_true, or_false]
  split_ifs with hzero
  · exact drain_stale conv m i (!on) cycleInfo' false _ _ hstale n
  · exact drain_stale conv m i (!on) cycleInfo' false _ _ hstale n

/-- The cycle information and the abort flag after stage `i` has entered a cycle. -/
def Entered (m : Machine ι) (on : Bool) (cycleInfo : CycleInfo) (abort : Bool) : Prop :=
  cycleInfo.mode = CycleStatus.of on ∧ (m.args.abortOnOffCycle = false → abort = false)

/-- A stage that has entered a cycle comes to rest in one of the two cycles: they are not
both empty, and the abort flag counts once. -/
theorem drain_enterCycle (g : Machine ι → ι → Event → Machine ι) (m : Machine ι) (i : ι)
    (on : Bool) (hg : Enqueues g i) (hargs : (m.stage i).hasArgs = true)
    (hproc : (m.stage i).processingFsmEvent = true)
    (hroom : (m.stage i).queue.length + 2 ≤ queueCapacity)
    (hstale : ∀ msg ∈ (m.stage i).queue, Stale on msg)
    (htimes : 0 < cycleTimeOf conv m.args (m.stage i).systemIndex true ∨
      0 < cycleTimeOf conv m.args (m.stage i).systemIndex false) (n : Nat) :
    ∃ on' cycleInfo abort, Entered m on' cycleInfo abort ∧
      drain conv ((m.stage i).queue.length + (n + 6)) (enterCycle conv g m i on) i =
        settled m i on' cycleInfo abort := by
  obtain ⟨cycleInfo, hmode, henter⟩ := enterCycle_eq conv g m i on hg hargs hproc hroom
  rw [henter]
  split_ifs with hover
  · rw [drain_stale conv m i on cycleInfo false _ _ hstale]
    obtain ⟨cycleInfo', hmode', hflip⟩ := drain_expired conv m i on cycleInfo hargs hproc (n + 4)
    rw [hflip]
    split_ifs with hzero
    · obtain ⟨cycleInfo'', hmode'', hback⟩ :=
        drain_expired conv m i (!on) cycleInfo' hargs hproc (n + 2)
      have hpos : cycleTimeOf conv m.args (m.stage i).systemIndex (!!on) ≠ 0 := by
        cases on <;> simp_all <;> omega
      rw [hback, if_neg hpos, drain_start conv m i (!!on) cycleInfo'' false hargs n]
      exact ⟨_, _, _, ⟨hmode'', fun _ => rfl⟩, rfl⟩
    · rw [drain_start conv m i (!on) cycleInfo' false hargs (n + 2)]
      exact ⟨_, _, _, ⟨hmode', fun _ => rfl⟩, rfl⟩
  · rw [drain_stale conv m i on cycleInfo _ _ _ hstale,
      drain_start conv m i on cycleInfo _ hargs (n + 4)]
    exact ⟨_, _, _, ⟨hmode, id⟩, rfl⟩

/-- A stage that is not working off events. -/
def Idle (s : Stage ι) : Prop :=
  s.queue = [] ∧ s.processingFsmEvent = false

/-- Stage `i` at work with an empty queue. -/
def working (m : Machine ι) (i : ι) : Machine ι :=
  m.update i fun s => { s with processingFsmEvent := true }

theorem generateWith_drain (m : Machine ι) (i : ι) (msg : Event) (hidle : Idle (m.stage i))
    (n : Nat) :
    generateWith (drain conv (n + 1)) m i msg =
      drain conv n (processEvent conv (generateWith (drain conv n)) (working m i) i msg) i := by
  rw [generateWith_idle _ m i msg hidle.2 hidle.1,
    drain_cons conv n _ i msg [] (by simp [Machine.update])]
  simp [working, Machine.update, hidle.1]

theorem generateEvent_idle (m : Machine ι) (i : ι) (msg : Event) (hidle : Idle (m.stage i)) :
    generateEvent conv m i msg =
      drain conv 15 (processEvent conv (generateWith (drain conv 15)) (working m i) i msg) i :=
  generateWith_drain conv m i msg hidle 15

/-- The machine after `m_args` of stage `i` has been set. -/
def withArgs (m : Machine ι) (i : ι) : Machine ι :=
  m.update i fun s => { s with hasArgs := true }

theorem execute_inactive (m : Machine ι) (i : ι) (hidle : Idle (m.stage i))
    (hstate : (m.stage i).state = .off ∨ (m.stage i).state = .supplementingNextStage) :
    execute conv m i = withArgs m i := by
  rw [execute, generateEvent_idle conv _ i _ (by simpa [Machine.update, Idle] using hidle),
    drain_nil conv _ _ i ?_]
  · rcases hstate with hstate | hstate <;>
      simp [processEvent, working, withArgs, Machine.update, hstate, hidle.2]
  · rcases hstate with hstate | hstate <;>
      simp [processEvent, working, Machine.update, hstate, hidle.1]

theorem processEvent_timed (g : Machine ι → ι → Event → Machine ι) (m : Machine ι) (i : ι)
    (on : Bool) (msg : Event) (hstate : (m.stage i).state = .timed on) :
    processEvent conv g m i msg =
      if msg = .timeExpired on then enterCycle conv g (checkTime conv g m i on) i (!on)
      else cyclingEvent g (checkTime conv g m i on) i msg := by
  simp only [processEvent, hstate]

theorem execute_of_not_fires (m : Machine ι) (i : ι) (on : Bool) (hidle : Idle (m.stage i))
    (hstate : (m.stage i).state = .timed on) (h : ¬fires conv m i on) :
    execute conv m i = { withArgs m i with args.cycleInfo := recordTime conv m i on } := by
  rw [execute, generateEvent_idle conv _ i _ (by simpa [Machine.update, Idle] using hidle),
    processEvent_timed conv _ _ i on _ (by simpa [working, Machine.update] using hstate),
    checkTime_of_not_fires conv _ _ i on (by simp [working, Machine.update])
      (by simpa [fires, working, Machine.update] using h), if_neg (by simp)]
  rw [drain_nil conv _ _ i (by simpa [cyclingEvent, activeEvent, working, Machine.update] using
    hidle.1)]
  simp [cyclingEvent, activeEvent, working, withArgs, Machine.update, hidle.2, recordTime]

/-- Stage `i` after the check of its cycle time. -/
def checked (m : Machine ι) (i : ι) (queue : List Event) (cycleInfo : CycleInfo)
    (abort : Bool) : Machine ι :=
  { m with
    stage := Function.update m.stage i { m.stage i with queue := queue }
    args := { m.args with cycleInfo := cycleInfo, abortOnOffCycle := abort } }

/-- What is left of a check of the cycle time. -/
def Checked (m : Machine ι) (on : Bool) (queue : List Event) (cycleInfo : CycleInfo)
    (abort : Bool) : Prop :=
  cycleInfo.mode = m.args.cycleInfo.mode ∧ (m.args.abortOnOffCycle = false → abort = false) ∧
    (queue = [] ∨ queue = [.timeExpired on])

theorem checkTime_checked (g : Machine ι → ι → Event → Machine ι) (m : Machine ι) (i : ι)
    (on : Bool) (hg : Enqueues g i) (hargs : (m.stage i).hasArgs = true)
    (hproc : (m.stage i).processingFsmEvent = true) (hqueue : (m.stage i).queue = []) :
    ∃ queue cycleInfo abort, Checked m on queue cycleInfo abort ∧
      checkTime conv g m i on = checked m i queue cycleInfo abort := by
  by_cases h : fires conv m i on
  · refine ⟨[.timeExpired on], recordTime conv m i on, false,
      ⟨mode_recordTime conv m i on, fun _ => rfl, .inr rfl⟩, ?_⟩
    rw [checkTime_of_fires conv g m i on hargs h, hg _ _ (by exact hproc)
      (by simp [hqueue, queueCapacity])]
    simp [enqueue, checked, Machine.update, hqueue]
  · refine ⟨[], recordTime conv m i on, m.args.abortOnOffCycle,
      ⟨mode_recordTime conv m i on, id, .inl rfl⟩, ?_⟩
    rw [checkTime_of_not_fires conv g m i on hargs h]
    simp only [checked, ← hqueue]
    simp

theorem settled_checked (m : Machine ι) (i : ι) (queue : List Event)
    (cycleInfo cycleInfo' : CycleInfo)
    (abort abort' on : Bool) :
    settled (checked m i queue cycleInfo abort) i on cycleInfo' abort' =
      settled m i on cycleInfo' abort' := by
  simp [settled, checked, cycling, Machine.update]

theorem settled_working (m : Machine ι) (i : ι) (on : Bool) (cycleInfo : CycleInfo)
    (abort : Bool) :
    settled (working m i) i on cycleInfo abort = settled m i on cycleInfo abort := by
  simp [settled, working, cycling, Machine.update]

/-- The end of a cycle, which is checked once more when its event is taken from the queue. -/
theorem drain_timeExpired (m : Machine ι) (i : ι) (on : Bool) (cycleInfo : CycleInfo)
    (abort : Bool) (hargs : (m.stage i).hasArgs = true)
    (hproc : (m.stage i).processingFsmEvent = true) (hstate : (m.stage i).state = .timed on)
    (htimes : 0 < cycleTimeOf conv m.args (m.stage i).systemIndex true ∨
      0 < cycleTimeOf conv m.args (m.stage i).systemIndex false)
    (habort : m.args.abortOnOffCycle = false → abort = false) (n : Nat) :
    ∃ on' cycleInfo' abort', Entered m on' cycleInfo' abort' ∧
      drain conv (n + 8) (checked m i [.timeExpired on] cycleInfo abort) i =
        settled m i on' cycleInfo' abort' := by
  have hpop : (checked m i [.timeExpired on] cycleInfo abort).update i
      (fun s => { s with queue := [] }) = checked m i [] cycleInfo abort := by
    simp [checked, Machine.update]
  obtain ⟨queue, c, a, ⟨hmode, ha, hqueue⟩, hcheck⟩ := checkTime_checked conv
    (generateWith (drain conv (n + 7))) (checked m i [] cycleInfo abort) i on
    (enqueues_generateWith _ i) (by simpa [checked] using hargs) (by simpa [checked] using hproc)
    (by simp [checked])
  have hlength : queue.length ≤ 1 := by
    rcases hqueue with rfl | rfl <;> simp
  obtain ⟨on', c', a', ⟨hmode', ha'⟩, hdrain⟩ := drain_enterCycle conv
    (generateWith (drain conv (n + 7))) (checked (checked m i [] cycleInfo abort) i queue c a) i
    (!on) (enqueues_generateWith _ i) (by simpa [checked] using hargs)
    (by simpa [checked] using hproc) (by simp [checked, queueCapacity]; omega)
    (by rcases hqueue with rfl | rfl <;> simp [checked, Stale])
    (by simpa [checked, cycleTimeOf] using htimes) (n + 1 - queue.length)
  refine ⟨on', c', a', ⟨hmode', fun h => ha' (ha (habort h))⟩, ?_⟩
  have hfuel : ((checked (checked m i [] cycleInfo abort) i queue c a).stage i).queue.length +
      (n + 1 - queue.length + 6) = n + 7 := by
    simp only [checked, Function.update_self]
    omega
  rw [hfuel, settled_checked, settled_checked] at hdrain
  rw [drain_cons conv _ _ i (.timeExpired on) [] (by simp [checked]), hpop,
    processEvent_timed conv _ _ i on _ (by simpa [checked] using hstate), if_pos rfl, hcheck,
    hdrain]

/-- A stage whose cycle is over comes to rest in one of the two cycles. -/
theorem execute_of_fires (m : Machine ι) (i : ι) (on : Bool) (hidle : Idle (m.stage i))
    (hstate : (m.stage i).state = .timed on) (h : fires conv m i on)
    (htimes : 0 < cycleTimeOf conv m.args (m.stage i).systemIndex true ∨
      0 < cycleTimeOf conv m.args (m.stage i).systemIndex false) :
    ∃ on' cycleInfo abort, Entered m on' cycleInfo abort ∧
      execute conv m i = settled (withArgs m i) i on' cycleInfo abort := by
  obtain ⟨on', c, a, hentered, hdrain⟩ := drain_timeExpired conv (working (withArgs m i) i) i on
    (recordTime conv m i on) false (by simp [working, withArgs, Machine.update])
    (by simp [working, withArgs, Machine.update])
    (by simpa [working, withArgs, Machine.update] using hstate)
    (by simpa [working, withArgs, Machine.update] using htimes) (fun _ => rfl) 7
  refine ⟨on', c, a, hentered, ?_⟩
  rw [← settled_working, ← hdrain, execute,
    generateEvent_idle conv _ i _ (by simpa [Machine.update, Idle] using hidle),
    processEvent_timed conv _ _ i on _ (by simpa [working, Machine.update] using hstate),
    checkTime_of_fires conv _ _ i on (by simp [working, Machine.update])
      (by simpa [fires, working, Machine.update] using h), if_neg (by simp),
    enqueues_generateWith _ i _ _ (by simp [working, Machine.update])
      (by simp [working, Machine.update, hidle.1, queueCapacity])]
  simp [cyclingEvent, activeEvent, enqueue, checked, working, withArgs, recordTime,
    Machine.update, hidle.1]

/-- Its cycles are not both empty. -/
def HasCycle (m : Machine ι) (i : ι) : Prop :=
  0 < cycleTimeOf conv m.args (m.stage i).systemIndex true ∨
    0 < cycleTimeOf conv m.args (m.stage i).systemIndex false

omit [DecidableEq ι] in
theorem HasCycle.congr {conv : ToUInt32} {m m' : Machine ι} {i : ι} (h : HasCycle conv m i)
    (hinputs : m'.args.inputs = m.args.inputs)
    (hindex : (m'.stage i).systemIndex = (m.stage i).systemIndex) : HasCycle conv m' i := by
  rw [HasCycle, cycleTimeOf, cycleTimeOf, hinputs, hindex]
  exact h

theorem drain_enterCycling (g : Machine ι → ι → Event → Machine ι) (m : Machine ι) (i : ι)
    (hg : Enqueues g i) (hargs : (m.stage i).hasArgs = true)
    (hproc : (m.stage i).processingFsmEvent = true) (hqueue : (m.stage i).queue = [])
    (htimes : HasCycle conv m i) (n : Nat) :
    ∃ on cycleInfo abort, Entered m on cycleInfo abort ∧
      drain conv (n + 6) (enterCycling conv g m i) i = settled m i on cycleInfo abort := by
  have h := drain_enterCycle conv g m i (!(m.stage i).startInOffCycle) hg hargs hproc
    (by simp [hqueue, queueCapacity]) (by simp [hqueue]) htimes n
  rw [hqueue, List.length_nil, Nat.zero_add] at h
  exact h

/-- A stage that is to be turned on first. -/
def turnsOn (s : Stage ι) : Stage ι :=
  { s with hasArgs := true, startInOffCycle := false, supplemented := false }

/-- A stage that is to take over from `previousStage`. -/
def takesOver (previousStage : ι) (startInOnCycle : Bool) (s : Stage ι) : Stage ι :=
  { s with
    hasArgs := true
    startInOffCycle := !startInOnCycle
    supplemented := true
    nextStage := none
    prevStage := some previousStage }

/-- A stage that is to take over from the stage above. -/
def takesBack (startInOnCycle : Bool) (s : Stage ι) : Stage ι :=
  { s with hasArgs := true, startInOffCycle := !startInOnCycle, nextStage := none }

omit [DecidableEq ι] in
/-- The arguments after the actions of a stage that becomes active. -/
def activated (s : Stage ι) (args : Args) : Args :=
  let v := args.vOutputs.setStage s.kind s.systemIndex s.outIndex false
  { args with
    vOutputs := if s.kind = .cooling then { v with sovInHeating := false } else v
    systemOn := decide (s.systemIndex = 0) || args.systemOn }

omit [DecidableEq ι] in
theorem initializeActive_eq (m : Machine ι) (i : ι) (hargs : (m.stage i).hasArgs = true) :
    initializeActive m i = { m with args := activated (m.stage i) m.args } := by
  simp only [initializeActive, setStage, assert_true m hargs, activated]
  split_ifs <;> cases hkind : (m.stage i).kind <;> simp_all

theorem requestOn_off (m : Machine ι) (i : ι) (hidle : Idle (m.stage i))
    (hstate : (m.stage i).state = .off) (htimes : HasCycle conv m i) :
    ∃ on cycleInfo abort, Entered m on cycleInfo abort ∧
      requestOn conv m i =
        settled { m.update i turnsOn with args := activated (m.stage i) m.args } i on cycleInfo
          abort := by
  have hinit : initializeActive (working (m.update i turnsOn) i) i =
      working { m.update i turnsOn with args := activated (m.stage i) m.args } i := by
    rw [initializeActive_eq _ i (by simp [working, turnsOn])]
    simp [working, Machine.update, activated, turnsOn]
  obtain ⟨on, c, a, hentered, hdrain⟩ := drain_enterCycling conv
    (generateWith (drain conv 15))
    (working { m.update i turnsOn with args := activated (m.stage i) m.args } i) i
    (enqueues_generateWith _ i) (by simp [working, turnsOn]) (by simp [working])
    (by simp [working, turnsOn, hidle.1])
    (by simpa [HasCycle, working, turnsOn, cycleTimeOf, activated] using htimes) 9
  refine ⟨on, c, a, hentered, ?_⟩
  rw [requestOn, generateEvent_idle conv _ i _ (by simpa [Idle] using hidle), ← settled_working,
    ← hdrain, ← hinit]
  simp [processEvent, working, turnsOn, hstate, Machine.update]

theorem notifyAsActiveStage_off (m : Machine ι) (i previousStage : ι) (startInOnCycle : Bool)
    (hidle : Idle (m.stage i)) (hstate : (m.stage i).state = .off) (htimes : HasCycle conv m i)
    (n : Nat) :
    ∃ on cycleInfo abort, Entered m on cycleInfo abort ∧
      notifyAsActiveStage (generateWith (drain conv (n + 8))) m i previousStage startInOnCycle =
        settled (m.update i (takesOver previousStage startInOnCycle)) i on cycleInfo abort := by
  obtain ⟨on, c, a, hentered, hdrain⟩ := drain_enterCycling conv
    (generateWith (drain conv (n + 6)))
    ((working (m.update i (takesOver previousStage startInOnCycle)) i).setState i
      .transitioningFromLowerStage) i
    (enqueues_generateWith _ i) (by simp [Machine.setState, working, takesOver])
    (by simp [Machine.setState, working])
    (by simp [Machine.setState, working, takesOver, hidle.1])
    (by simpa [HasCycle, Machine.setState, working, takesOver] using htimes) n
  refine ⟨on, c, a, hentered, ?_⟩
  have hfirst : processEvent conv (generateWith (drain conv (n + 7)))
      (working (m.update i (takesOver previousStage startInOnCycle)) i) i .onRequest =
      (enqueue (working (m.update i (takesOver previousStage startInOnCycle)) i) i
        .fromTransitionCompleted).setState i .transitioningFromLowerStage := by
    rw [← enqueues_generateWith (drain conv (n + 7)) i _ _ (by simp [working])
      (by simp [working, takesOver, hidle.1, queueCapacity])]
    simp [processEvent, working, takesOver, hstate]
  rw [notifyAsActiveStage, generateWith_drain conv _ i _ (by simpa [Idle] using hidle)]
  change drain conv (n + 7) (processEvent conv (generateWith (drain conv (n + 7)))
    (working (m.update i (takesOver previousStage startInOnCycle)) i) i .onRequest) i = _
  rw [hfirst, drain_cons conv _ _ i .fromTransitionCompleted []
    (by simp [Machine.setState, enqueue, working, takesOver, hidle.1])]
  have hsettled : settled (m.update i (takesOver previousStage startInOnCycle)) i on c a =
      settled ((working (m.update i (takesOver previousStage startInOnCycle)) i).setState i
        .transitioningFromLowerStage) i on c a := by
    simp [settled, cycling, working, Machine.setState, Machine.update]
  rw [hsettled, ← hdrain]
  simp [processEvent, working, enqueue, Machine.setState, takesOver, hidle.1, Machine.update]

theorem notifyAsExitingSupplmenting_supplementing (m : Machine ι) (i : ι)
    (startInOnCycle : Bool) (hidle : Idle (m.stage i))
    (hstate : (m.stage i).state = .supplementingNextStage) (htimes : HasCycle conv m i)
    (n : Nat) :
    ∃ on cycleInfo abort, Entered m on cycleInfo abort ∧
      notifyAsExitingSupplmenting (generateWith (drain conv (n + 7))) m i startInOnCycle =
        settled (m.update i (takesBack startInOnCycle)) i on cycleInfo abort := by
  obtain ⟨on, c, a, hentered, hdrain⟩ := drain_enterCycling conv
    (generateWith (drain conv (n + 6))) (working (m.update i (takesBack startInOnCycle)) i) i
    (enqueues_generateWith _ i) (by simp [working, takesBack]) (by simp [working])
    (by simp [working, takesBack, hidle.1])
    (by simpa [HasCycle, working, takesBack] using htimes) n
  refine ⟨on, c, a, hentered, ?_⟩
  rw [notifyAsExitingSupplmenting, generateWith_drain conv _ i _ (by simpa [Idle] using hidle),
    ← settled_working, ← hdrain]
  simp [processEvent, working, takesBack, hstate, Machine.update]

/-- What a check of the cycle time has queued means nothing once the cycles are left. -/
theorem drain_left (m : Machine ι) (i : ι) (on : Bool)
    (hstate : (m.stage i).state = .off ∨ (m.stage i).state = .supplementingNextStage)
    (hqueue : (m.stage i).queue = [] ∨ (m.stage i).queue = [.timeExpired on]) (n : Nat) :
    drain conv (n + 2) m i =
      m.update i fun s => { s with queue := [], processingFsmEvent := false } := by
  rcases hqueue with hqueue | hqueue
  · rw [drain_nil conv _ m i hqueue]
    simp [Machine.update, hqueue]
  · have hprocess : processEvent conv (generateWith (drain conv (n + 1)))
        (m.update i fun s => { s with queue := [] }) i (.timeExpired on) =
        m.update i fun s => { s with queue := [] } := by
      rcases hstate with hstate | hstate <;> simp [processEvent, hstate]
    rw [drain_cons conv _ m i _ _ hqueue, hprocess, drain_nil conv _ _ i (by simp)]
    simp [Machine.update]

/-- A stage that has left its cycles in favour of `nextStage`. -/
def supplements (nextStage : ι) (s : Stage ι) : Stage ι :=
  { s with
    hasArgs := true
    requestSupplementStartInOnCycle := true
    nextStage := some nextStage
    state := .supplementingNextStage }

omit [DecidableEq ι] in
theorem stage_ext_two {stage stage' : ι → Stage ι} (i j : ι) (hi : stage i = stage' i)
    (hj : stage j = stage' j) (hother : ∀ k, k ≠ i → k ≠ j → stage k = stage' k) :
    stage = stage' := by
  funext k
  rcases eq_or_ne k i with rfl | hki
  · exact hi
  rcases eq_or_ne k j with rfl | hkj
  · exact hj
  exact hother k hki hkj

/-- The next stage starts in its on cycle, and the stage is left on. -/
theorem requestAsSupplement_timed (m : Machine ι) (i j : ι) (on : Bool) (hne : j ≠ i)
    (hi : Idle (m.stage i)) (hj : Idle (m.stage j)) (hstate : (m.stage i).state = .timed on)
    (hoff : (m.stage j).state = .off) (htimes : HasCycle conv m j) :
    ∃ on' cycleInfo abort, Entered m on' cycleInfo abort ∧
      requestAsSupplement conv m i j =
        setStage
          ((settled (m.update j (takesOver i true)) j on' cycleInfo abort).update i
            (supplements j)) i true := by
  set w := working (m.update i fun s =>
    { s with
      hasArgs := true
      requestSupplementStartInOnCycle := true
      nextStage := some j }) i with hw
  have hwi : w.stage i = { m.stage i with
      hasArgs := true
      requestSupplementStartInOnCycle := true
      nextStage := some j
      processingFsmEvent := true } := by
    simp [hw, working]
  have hwj : w.stage j = m.stage j := by
    simp [hw, working, hne]
  obtain ⟨queue, c, a, ⟨-, ha, hqueue⟩, hcheck⟩ := checkTime_checked conv
    (generateWith (drain conv 15)) w i on (enqueues_generateWith _ i) (by simp [hwi])
    (by simp [hwi]) (by simp [hwi, hi.1])
  obtain ⟨on', c', a', ⟨hmode', ha'⟩, hnotify⟩ := notifyAsActiveStage_off conv
    (checked w i queue c a) j i true (by simpa [checked, hne, hwj] using hj)
    (by simpa [checked, hne, hwj] using hoff)
    (htimes.congr rfl (by simp [checked, hne, hwj])) 7
  refine ⟨on', c', a', ⟨hmode', fun h => ha' (ha h)⟩, ?_⟩
  have henter : enterSupplementing (generateWith (drain conv 15)) (checked w i queue c a) i =
      stageOn (settled ((checked w i queue c a).update j (takesOver i true)) j on' c' a') i := by
    rw [← hnotify]
    simp [enterSupplementing, checked, hwi, assert_true]
  rw [requestAsSupplement, generateEvent_idle conv _ i _ (by simpa [Idle] using hi), ← hw,
    processEvent_timed conv _ _ i on _ (by simpa [hwi] using hstate), if_neg (by simp), hcheck,
    cyclingEvent, if_neg (by simp), if_pos rfl, henter,
    drain_left conv _ i on (.inr (by simp [Machine.setState]))
      (by simpa [Machine.setState, setStage, settled, cycling, Machine.assert, checked, hne.symm,
        Machine.update] using hqueue)]
  ext1
  · refine stage_ext_two i j ?_ ?_ fun k hki hkj => ?_
    · simp [Machine.setState, setStage, settled, cycling, checked, supplements, Machine.assert,
        Machine.update, hne.symm, hwi, hi.2, hi.1]
    · simp [Machine.setState, setStage, settled, cycling, checked, Machine.assert,
        Machine.update, hne, hw, working]
    · simp [Machine.setState, setStage, settled, cycling, checked, Machine.assert,
        Machine.update, hki, hkj, hw, working]
  all_goals
    simp [Machine.setState, setStage, settled, cycling, checked, supplements, Machine.assert,
      Machine.update, hne, hne.symm, hw, working, takesOver]

omit [DecidableEq ι] in
theorem shutdownStage_eq (m : Machine ι) (i : ι) (hargs : (m.stage i).hasArgs = true) :
    shutdownStage m i =
      { m with
        args := { m.args with
          vOutputs := m.args.vOutputs.setStage (m.stage i).kind (m.stage i).systemIndex
            (m.stage i).outIndex false
          systemOn := decide ((m.stage i).systemIndex ≠ 0) && m.args.systemOn
          cycleInfo.mode :=
            if (m.stage i).systemIndex = 0 then .off else m.args.cycleInfo.mode } } := by
  simp only [shutdownStage, setStage, assert_true m hargs]
  split_ifs with h <;> simp [h]

/-- A stage that has given way to the stage below. -/
def givesWay (s : Stage ι) : Stage ι :=
  { s with
    hasArgs := true
    requestOffStartInOnCycle := true
    prevStage := none
    supplemented := false
    state := .off }

theorem drain_backTransitionCompleted (m : Machine ι) (i j : ι) (hne : j ≠ i)
    (hargs : (m.stage i).hasArgs = true)
    (hstate : (m.stage i).state = .transitioningBackToLowerStage)
    (hqueue : (m.stage i).queue = [.backTransitionCompleted])
    (hrequest : (m.stage i).requestOffStartInOnCycle = true)
    (hprev : (m.stage i).prevStage = some j) (hj : Idle (m.stage j))
    (hsupplementing : (m.stage j).state = .supplementingNextStage)
    (htimes : HasCycle conv m j) (n : Nat) :
    ∃ on cycleInfo abort, Entered m on cycleInfo abort ∧
      drain conv (n + 9) m i =
        shutdownStage
          ((settled (m.update j (takesBack true)) j on cycleInfo abort).update i fun s =>
            { givesWay s with queue := [], processingFsmEvent := false }) i := by
  obtain ⟨on, c, a, hentered, hnotify⟩ := notifyAsExitingSupplmenting_supplementing conv
    (m.update i fun s => { s with queue := [] }) j true (by simpa [hne] using hj)
    (by simpa [hne] using hsupplementing) (htimes.congr rfl (by simp [hne])) (n + 1)
  refine ⟨on, c, a, hentered, ?_⟩
  have hprocess : processEvent conv (generateWith (drain conv (n + 8)))
      (m.update i fun s => { s with queue := [] }) i .backTransitionCompleted =
      (shutdownStage
        ((settled ((m.update i fun s => { s with queue := [] }).update j (takesBack true)) j on c
          a).update i fun s => { s with prevStage := none, supplemented := false })
        i).setState i .off := by
    rw [← hnotify]
    simp [processEvent, hstate, notifyLowerStage, hprev, hrequest, hargs, assert_true]
  rw [drain_cons conv _ m i _ _ hqueue, hprocess,
    shutdownStage_eq _ i (by simp [settled, cycling, hne.symm, hargs]),
    shutdownStage_eq _ i (by simp [givesWay]),
    drain_nil conv _ _ i (by simp [Machine.setState, settled, cycling, hne.symm])]
  ext1
  · refine stage_ext_two i j ?_ ?_ fun k hki hkj => ?_
    · simp [Machine.setState, settled, cycling, givesWay, Machine.update, hne.symm, hargs, hrequest]
    · simp [Machine.setState, settled, cycling, Machine.update, hne]
    · simp [Machine.setState, settled, cycling, Machine.update, hki, hkj]
  all_goals
    simp [Machine.setState, settled, cycling, givesWay, Machine.update, hne, hne.symm, takesBack]

/-- The stage below starts in its on cycle, and the stage is turned off. -/
theorem requestOff_supplemented (m : Machine ι) (i j : ι) (on : Bool) (hne : j ≠ i)
    (hi : Idle (m.stage i)) (hj : Idle (m.stage j)) (hstate : (m.stage i).state = .timed on)
    (hsupplemented : (m.stage i).supplemented = true) (hprev : (m.stage i).prevStage = some j)
    (hsupplementing : (m.stage j).state = .supplementingNextStage)
    (htimes : HasCycle conv m j) :
    ∃ on' cycleInfo abort, Entered m on' cycleInfo abort ∧
      requestOff conv m i =
        shutdownStage
          ((settled (m.update j (takesBack true)) j on' cycleInfo abort).update i givesWay)
          i := by
  set w := working (m.update i fun s =>
    { s with hasArgs := true, requestOffStartInOnCycle := true }) i with hw
  have hwi : w.stage i = { m.stage i with
      hasArgs := true, requestOffStartInOnCycle := true, processingFsmEvent := true } := by
    simp [hw, working]
  have hwj : w.stage j = m.stage j := by
    simp [hw, working, hne]
  obtain ⟨queue, c, a, ⟨-, ha, hqueue⟩, hcheck⟩ := checkTime_checked conv
    (generateWith (drain conv 15)) w i on (enqueues_generateWith _ i) (by simp [hwi])
    (by simp [hwi]) (by simp [hwi, hi.1])
  have hback : cyclingEvent (generateWith (drain conv 15)) (checked w i queue c a) i
      .excessCapacity =
      (checked w i (queue ++ [.backTransitionCompleted]) c a).setState i
        .transitioningBackToLowerStage := by
    rw [cyclingEvent, if_pos rfl, if_pos (by simpa [checked, hwi] using hsupplemented),
      enqueues_generateWith _ i _ _ (by simp [checked, hwi])
        (by rcases hqueue with rfl | rfl <;> simp [checked, queueCapacity])]
    simp [enqueue, checked, Machine.update]
  have hskip : drain conv 15 ((checked w i (queue ++ [.backTransitionCompleted]) c a).setState i
      .transitioningBackToLowerStage) i =
      drain conv (5 - queue.length + 1 + 9) ((checked w i [.backTransitionCompleted] c a).setState
        i .transitioningBackToLowerStage) i := by
    rcases hqueue with rfl | rfl
    · rfl
    · rw [drain_cons conv 14 _ i (.timeExpired on) [.backTransitionCompleted]
        (by simp [checked, Machine.setState])]
      simp [processEvent, activeEvent, checked, Machine.setState, Machine.update]
  obtain ⟨on', c', a', ⟨hmode', ha'⟩, hdrain⟩ := drain_backTransitionCompleted conv
    ((checked w i [.backTransitionCompleted] c a).setState i .transitioningBackToLowerStage) i j
    hne (by simp [Machine.setState, checked, hwi]) (by simp [Machine.setState])
    (by simp [Machine.setState, checked]) (by simp [Machine.setState, checked, hwi])
    (by simpa [Machine.setState, checked, hwi] using hprev)
    (by simpa [Machine.setState, checked, hne, hwj] using hj)
    (by simpa [Machine.setState, checked, hne, hwj] using hsupplementing)
    (htimes.congr rfl (by simp [Machine.setState, checked, hne, hwj])) (5 - queue.length + 1)
  refine ⟨on', c', a', ⟨hmode', fun h => ha' (ha h)⟩, ?_⟩
  rw [requestOff, generateEvent_idle conv _ i _ (by simpa [Idle] using hi), ← hw,
    processEvent_timed conv _ _ i on _ (by simpa [hwi] using hstate), if_neg (by simp), hcheck,
    hback, hskip, hdrain, shutdownStage_eq _ i (by simp [givesWay]),
    shutdownStage_eq _ i (by simp [givesWay])]
  ext1
  · refine stage_ext_two i j ?_ ?_ fun k hki hkj => ?_
    · simp [Machine.setState, settled, cycling, givesWay, checked, Machine.update, hne.symm, hwi,
        hi.1, hi.2]
    · simp [Machine.setState, settled, cycling, checked, Machine.update, hne, hw, working]
    · simp [Machine.setState, settled, cycling, checked, Machine.update, hki, hkj, hw, working]
  all_goals
    simp [Machine.setState, settled, cycling, givesWay, checked, Machine.update, hne, hne.symm,
      hw, working, takesBack]

/-- A stage that has been turned off last. -/
def shutsDown (s : Stage ι) : Stage ι :=
  { s with hasArgs := true, requestOffStartInOnCycle := true, state := .off }

theorem requestOff_first (m : Machine ι) (i : ι) (on : Bool) (hi : Idle (m.stage i))
    (hstate : (m.stage i).state = .timed on)
    (hsupplemented : (m.stage i).supplemented = false) :
    ∃ cycleInfo abort, (m.args.abortOnOffCycle = false → abort = false) ∧
      requestOff conv m i =
        shutdownStage
          { m.update i shutsDown with
            args := { m.args with cycleInfo := cycleInfo, abortOnOffCycle := abort } } i := by
  set w := working (m.update i fun s =>
    { s with hasArgs := true, requestOffStartInOnCycle := true }) i with hw
  have hwi : w.stage i = { m.stage i with
      hasArgs := true, requestOffStartInOnCycle := true, processingFsmEvent := true } := by
    simp [hw, working]
  obtain ⟨queue, c, a, ⟨-, ha, hqueue⟩, hcheck⟩ := checkTime_checked conv
    (generateWith (drain conv 15)) w i on (enqueues_generateWith _ i) (by simp [hwi])
    (by simp [hwi]) (by simp [hwi, hi.1])
  refine ⟨c, a, ha, ?_⟩
  rw [requestOff, generateEvent_idle conv _ i _ (by simpa [Idle] using hi), ← hw,
    processEvent_timed conv _ _ i on _ (by simpa [hwi] using hstate), if_neg (by simp), hcheck,
    cyclingEvent, if_pos rfl, if_neg (by simpa [checked, hwi] using hsupplemented),
    shutdownStage_eq _ i (by simp [checked, hwi]), shutdownStage_eq _ i (by simp [shutsDown]),
    drain_left conv _ i on (.inl (by simp [Machine.setState]))
      (by simpa [Machine.setState, checked] using hqueue)]
  simp [Machine.setState, checked, shutsDown, Machine.update, hw, working, hi.1, hi.2]

theorem reconfigure_self (m : Machine ι) (i : ι) {systemIndex outIndex : Nat}
    (hindex : (m.stage i).systemIndex = systemIndex) (hout : (m.stage i).outIndex = outIndex) :
    reconfigure m i systemIndex outIndex = m := by
  subst hindex hout
  simp [reconfigure, Machine.update]

/-- A stage in its initial state. -/
def initialized (s : Stage ι) : Stage ι :=
  { s with
    startInOffCycle := false
    supplemented := false
    nextStage := none
    prevStage := none
    hasArgs := false
    requestOffStartInOnCycle := true
    requestSupplementStartInOnCycle := true
    startTime := ⟨0, 0⟩
    state := .off }

theorem setState_initializeStage (m : Machine ι) (i : ι) :
    (initializeStage m i).setState i .off = m.update i initialized := by
  simp [initializeStage, Machine.setState, Machine.update, initialized]

/-- A stage that has been put back into its initial state. -/
def Reset (s s' : Stage ι) : Prop :=
  s'.state = .off ∧ Idle s' ∧ s'.kind = s.kind ∧ s'.systemIndex = s.systemIndex ∧
    s'.outIndex = s.outIndex

/-- The states that a stage can be in between the calls. -/
def AtRest (s : Stage ι) : Prop :=
  s.state = .off ∨ s.state = .supplementingNextStage ∨
    ∃ on, s.state = .timed on ∧ s.hasArgs = true

/-- An execution of one stage is of no concern to the others. -/
theorem stage_execute_of_ne (m : Machine ι) {i j : ι} (hne : j ≠ i) (hi : Idle (m.stage i))
    (hrest : AtRest (m.stage i)) (hcycle : HasCycle conv m i) :
    (execute conv m i).stage j = m.stage j := by
  rcases hrest with hoff | hsupplementing | ⟨on, htimed, -⟩
  · rw [execute_inactive conv m i hi (.inl hoff)]
    simp [withArgs, hne]
  · rw [execute_inactive conv m i hi (.inr hsupplementing)]
    simp [withArgs, hne]
  · by_cases hfires : fires conv m i on
    · obtain ⟨on', c, a, -, heq⟩ := execute_of_fires conv m i on hi htimed hfires hcycle
      rw [heq]
      simp [settled, cycling, withArgs, hne]
    · rw [execute_of_not_fires conv m i on hi htimed hfires]
      simp [withArgs, hne]

/-- Whatever the stage does, its outputs are left as they are. -/
theorem requestModeToOff_eq (m : Machine ι) (i : ι) (hi : Idle (m.stage i))
    (hrest : AtRest (m.stage i)) :
    ∃ s cycleInfo abort, Reset (m.stage i) s ∧
      (m.args.cycleInfo.mode = .off →
        cycleInfo = m.args.cycleInfo ∧ abort = m.args.abortOnOffCycle) ∧
      (m.args.abortOnOffCycle = false → abort = false) ∧
      requestModeToOff conv m i =
        { m with
          stage := Function.update m.stage i s
          args := { m.args with cycleInfo := cycleInfo, abortOnOffCycle := abort } } := by
  rw [requestModeToOff, generateEvent_idle conv m i _ hi]
  rcases hrest with hoff | hsupplementing | ⟨on, htimed, hargs⟩
  · refine ⟨m.stage i, m.args.cycleInfo, m.args.abortOnOffCycle, ⟨hoff, hi, rfl, rfl, rfl⟩,
      fun _ => ⟨rfl, rfl⟩, id, ?_⟩
    have hprocess : processEvent conv (generateWith (drain conv 15)) (working m i) i
        .offModeRequest = working m i := by
      simp [processEvent, working, hoff]
    rw [hprocess, drain_nil conv _ _ i (by simpa [working] using hi.1)]
    simp [working, Machine.update, ← hi.2]
  · refine ⟨initialized (m.stage i), m.args.cycleInfo, m.args.abortOnOffCycle,
      ⟨rfl, hi, rfl, rfl, rfl⟩, fun _ => ⟨rfl, rfl⟩, id, ?_⟩
    have hprocess : processEvent conv (generateWith (drain conv 15)) (working m i) i
        .offModeRequest = (working m i).update i initialized := by
      rw [← setState_initializeStage]
      simp [processEvent, working, hsupplementing]
    rw [hprocess, drain_nil conv _ _ i (by simpa [working, initialized] using hi.1)]
    simp [working, Machine.update, initialized, hi.2]
  · obtain ⟨queue, c, a, hqueue, habort, hoff, hcheck⟩ : ∃ queue c a,
        (queue = [] ∨ queue = [.timeExpired on]) ∧
        (m.args.abortOnOffCycle = false → a = false) ∧
        (m.args.cycleInfo.mode = .off → c = m.args.cycleInfo ∧ a = m.args.abortOnOffCycle) ∧
        checkTime conv (generateWith (drain conv 15)) (working m i) i on =
          checked (working m i) i queue c a := by
      by_cases hmode : m.args.cycleInfo.mode = .off
      · refine ⟨[], m.args.cycleInfo, m.args.abortOnOffCycle, .inl rfl, id,
          fun _ => ⟨rfl, rfl⟩, ?_⟩
        have hne : m.args.cycleInfo.mode ≠ CycleStatus.of on := by
          rw [hmode]
          cases on <;> simp [CycleStatus.of]
        rw [checkTime_of_not_fires conv _ (working m i) i on (by simpa [working] using hargs)
          (fun h => hne h.1)]
        simp [recordTime, working, hne, checked, Machine.update, hi.1]
      · obtain ⟨queue, c, a, ⟨-, habort, hqueue⟩, hcheck⟩ := checkTime_checked conv
          (generateWith (drain conv 15)) (working m i) i on (enqueues_generateWith _ i)
          (by simpa [working] using hargs) (by simp [working]) (by simpa [working] using hi.1)
        exact ⟨queue, c, a, hqueue, habort, fun h => absurd h hmode, hcheck⟩
    refine ⟨initialized (m.stage i), c, a, ⟨rfl, hi, rfl, rfl, rfl⟩, hoff, habort, ?_⟩
    have hevent : cyclingEvent (generateWith (drain conv 15)) (checked (working m i) i queue c a) i
        .offModeRequest = (checked (working m i) i queue c a).update i initialized := by
      rw [← setState_initializeStage]
      simp [cyclingEvent, activeEvent]
    rw [processEvent_timed conv _ _ i on _ (by simpa [working] using htimed), if_neg (by simp),
      hcheck, hevent, drain_left conv _ i on (.inl (by simp [initialized]))
        (by simpa [checked, initialized] using hqueue)]
    simp [working, checked, Machine.update, initialized, hi.1, hi.2]

end ColonyPico.Storm.StageRuns
