import ColonyPico.System.TimerManager

/-!
When the timers of a thread expire, over whole runs of the thread.
-/

namespace ColonyPico.System.TimerRuns

open ColonyPico.Foundations.DeltaList
open ColonyPico.System.ElapsedTime
open ColonyPico.System.TimerManager

/-- One call of a timer's `expired()`: the deadline it is for and the time of the
`processTimers()` call that made it. -/
structure Expiration (τ : Type) where
  timer : τ
  deadline : Nat
  callTime : Nat
  deriving DecidableEq, Repr

/-- The thread between two operations. The clock does not roll over here. -/
structure World (τ : Type) where
  manager : Manager τ
  clock : Nat
  /-- Inside a callback: the milliseconds that `tick()` has still to consume. -/
  expiring : Option UInt32
  /-- The time of the last `processTimers()` call. -/
  callTime : Nat
  /-- The deadlines of the running timers: each start's time plus its duration. -/
  running : τ → Option Nat
  /-- The callbacks so far, the latest first. -/
  expirations : List (Expiration τ)

inductive Action (τ : Type) where
  | advance (milliseconds : Nat)
  | start (timer : τ) (timerDurationInMilliseconds : UInt32)
  | stop (timer : τ)
  | processTimers
  | callbackReturns

variable {τ : Type}

section Step

variable [DecidableEq τ]

/-- The loops of `tick()` have come to a callback or to their end. -/
def World.proceed (w : World τ) (res : Manager τ × Option (τ × UInt32)) : World τ :=
  match res.2 with
  | none => { w with manager := tickComplete res.1, expiring := none }
  | some (timer, msec) =>
      { w with
        manager := res.1
        expiring := some msec
        running := Function.update w.running timer none
        expirations := ⟨timer, (w.running timer).getD 0, w.callTime⟩ :: w.expirations }

theorem callTime_proceed (w : World τ) (res : Manager τ × Option (τ × UInt32)) :
    (w.proceed res).callTime = w.callTime := by
  rw [World.proceed]
  split <;> rfl

theorem clock_proceed (w : World τ) (res : Manager τ × Option (τ × UInt32)) :
    (w.proceed res).clock = w.clock := by
  rw [World.proceed]
  split <;> rfl

def step (w : World τ) : Action τ → World τ
  | .advance n => { w with clock := w.clock + n }
  | .start timer duration =>
      { w with
        manager := start w.manager (milliseconds w.clock) timer duration
        running := Function.update w.running timer (some (w.clock + duration.toNat)) }
  | .stop timer =>
      { w with
        manager := stop w.manager timer
        running := Function.update w.running timer none }
  | .processTimers =>
      { w with callTime := w.clock }.proceed (processTimers w.manager (milliseconds w.clock))
  | .callbackReturns =>
      match w.expiring with
      | none => w
      | some msec => w.proceed (resume w.manager msec)

/-- A manager started at `started` that has processed its timers once, at `first`. -/
def World.init (started first : Nat) : World τ :=
  step
    { manager := startManager Manager.init (milliseconds started)
      clock := first
      expiring := none
      callTime := started
      running := fun _ => none
      expirations := [] }
    .processTimers

end Step

/-- The thread processes its timers outside of their callbacks and before the clock
rolls over twice, and a start's count is in range. -/
def Admits (w : World τ) : Action τ → Prop
  | .advance _ => True
  | .start _ duration => duration.toNat + (w.clock - w.callTime) < 2 ^ 32
  | .stop _ => True
  | .processTimers => w.expiring = none ∧ w.clock - w.callTime < 2 ^ 32
  | .callbackReturns => w.expiring ≠ none

variable [DecidableEq τ]

/-- The actions of a run are admitted one after the other. -/
def AllAdmitted : World τ → List (Action τ) → Prop
  | _, [] => True
  | w, a :: actions => Admits w a ∧ AllAdmitted (step w a) actions

/-- The time that the first active counter counts from. -/
def World.base (w : World τ) : Nat :=
  w.callTime - (w.expiring.getD 0).toNat

/-- The deadlines in the manager's lists. -/
def World.entries (w : World τ) : List (τ × Nat) :=
  deadlines w.base w.manager.counters ++
    w.manager.pendingAttach.map fun c => (c.timer, w.callTime + c.count.toNat)

structure Inv (w : World τ) : Prop where
  timeNow : w.manager.timeNow = milliseconds w.callTime
  callTime_le : w.callTime ≤ w.clock
  idle : w.expiring = none →
    w.manager.inTickCall = false ∧ w.manager.pendingAttach = [] ∧
      w.manager.timeMark = milliseconds w.callTime
  busy : ∀ msec, w.expiring = some msec → w.manager.inTickCall = true ∧ msec.toNat ≤ w.callTime
  entries : Represents w.entries w.running
  bound : ∀ p ∈ deadlines w.base w.manager.counters, p.2 < w.base + 2 ^ 32
  past : ∀ e ∈ w.expirations, e.deadline ≤ w.base
  ordered : w.expirations.Pairwise fun later earlier => earlier.deadline ≤ later.deadline

theorem detach_fields (m : Manager τ) (timer : τ) :
    (detach m timer).timeNow = m.timeNow ∧ (detach m timer).timeMark = m.timeMark ∧
      (detach m timer).inTickCall = m.inTickCall := by
  rw [detach]
  split_ifs <;> exact ⟨rfl, rfl, rfl⟩

/-- Detaching removes the timer from the active list. -/
theorem deadlines_detach {w : World τ} (h : Inv w) (timer : τ) :
    deadlines w.base (detach w.manager timer).counters =
      (deadlines w.base w.manager.counters).filter (fun p => p.1 ≠ timer) ∧
    (detach w.manager timer).pendingAttach =
      w.manager.pendingAttach.filter (fun c => c.timer ≠ timer) := by
  have hnodup := h.entries.nodup
  rw [World.entries, List.map_append, map_fst_deadlines, List.map_map, List.nodup_append] at hnodup
  rw [detach]
  split_ifs with hpending
  · refine ⟨(List.filter_eq_self.mpr fun p hp => ?_).symm, rfl⟩
    rw [decide_eq_true_eq]
    rintro rfl
    have hmem := List.mem_map_of_mem (f := Prod.fst) hp
    rw [map_fst_deadlines] at hmem
    exact hnodup.2.2 _ hmem _ hpending rfl
  · refine ⟨deadlines_removeFromActiveList _ _ _ hnodup.1 h.bound,
      (List.filter_eq_self.mpr fun c hc => ?_).symm⟩
    rw [decide_eq_true_eq]
    rintro rfl
    exact hpending (List.mem_map_of_mem hc)

theorem inv_advance {w : World τ} (h : Inv w) (n : Nat) : Inv (step w (.advance n)) :=
  { h with callTime_le := h.callTime_le.trans (Nat.le_add_right _ _) }

theorem inv_stop {w : World τ} (h : Inv w) (timer : τ) : Inv (step w (.stop timer)) := by
  obtain ⟨hnow, hmark, htick⟩ := detach_fields w.manager timer
  obtain ⟨hactive, hpending⟩ := deadlines_detach h timer
  refine ⟨hnow.trans h.timeNow, h.callTime_le, fun hidle => ?_, fun msec hbusy => ?_, ?_, ?_,
    h.past, h.ordered⟩
  · obtain ⟨htick', hnil, hmark'⟩ := h.idle hidle
    exact ⟨htick.trans htick', by simp [step, stop, hpending, hnil], hmark.trans hmark'⟩
  · exact ⟨htick.trans (h.busy msec hbusy).1, (h.busy msec hbusy).2⟩
  · have hentries : (step w (.stop timer)).entries = w.entries.filter fun p => p.1 ≠ timer := by
      rw [World.entries, World.entries, List.filter_append, ← hactive, List.filter_map]
      simp only [step, stop, hpending]
      rfl
    rw [hentries]
    exact h.entries.filter timer
  · intro p hp
    exact h.bound p (List.mem_of_mem_filter (hactive ▸ hp))

/-- Attaching a timer that is in no list schedules it. -/
theorem inv_attach {w : World τ} (h : Inv w) {timer : τ} (hnone : w.running timer = none)
    (count : UInt32) :
    Inv { w with
      manager := attach w.manager ⟨timer, count⟩
      running := Function.update w.running timer (some (w.callTime + count.toNat)) } := by
  have hcons := h.entries.cons hnone (w.callTime + count.toNat)
  rcases Option.eq_none_or_eq_some w.expiring with hexp | ⟨msec, hexp⟩
  · obtain ⟨htick, hnil, hmark⟩ := h.idle hexp
    have hbase : w.base = w.callTime := by simp [World.base, hexp]
    have hadd : (deadlines w.base (addToActiveList ⟨timer, count⟩ w.manager.counters)).Perm
        ((timer, w.callTime + count.toNat) :: deadlines w.base w.manager.counters) := by
      rw [← hbase]
      exact deadlines_addToActiveList w.base ⟨timer, count⟩ w.manager.counters
    have hattach : attach w.manager ⟨timer, count⟩ =
        { w.manager with counters := addToActiveList ⟨timer, count⟩ w.manager.counters } := by
      simp [attach, htick]
    rw [hattach]
    refine ⟨h.timeNow, h.callTime_le, fun _ => ⟨htick, hnil, hmark⟩,
      fun msec hbusy => ?_, hcons.perm ?_, ?_, h.past, h.ordered⟩
    · cases hexp.symm.trans hbusy
    · rw [World.entries, World.entries]
      simp only [hnil, List.map_nil, List.append_nil]
      exact hadd
    · intro p hp
      rcases List.mem_cons.mp (hadd.mem_iff.mp hp) with rfl | hmem
      · have hlt : w.callTime + count.toNat < w.base + 2 ^ 32 := by
          rw [hbase]
          exact Nat.add_lt_add_left count.toNat_lt _
        exact hlt
      · exact h.bound p hmem
  · obtain ⟨htick, hmsec⟩ := h.busy msec hexp
    have hattach : attach w.manager ⟨timer, count⟩ =
        { w.manager with pendingAttach := w.manager.pendingAttach ++ [⟨timer, count⟩] } := by
      simp [attach, htick]
    rw [hattach]
    refine ⟨h.timeNow, h.callTime_le, fun hidle => ?_, fun msec' hbusy => ?_, hcons.perm ?_,
      h.bound, h.past, h.ordered⟩
    · cases hexp.symm.trans hidle
    · cases hexp.symm.trans hbusy
      exact ⟨htick, hmsec⟩
    · rw [World.entries, World.entries, List.map_append, ← List.append_assoc]
      exact List.perm_append_comm

theorem inv_start {w : World τ} (h : Inv w) (timer : τ) (duration : UInt32)
    (hadmits : Admits w (.start timer duration)) : Inv (step w (.start timer duration)) := by
  have hstop := inv_stop h timer
  have hnow : (detach w.manager timer).timeNow = milliseconds w.callTime := hstop.timeNow
  have hdelta := toNat_deltaMilliseconds w.callTime w.clock h.callTime_le
    (by rw [Admits] at hadmits; omega)
  have hcount : (msecToCounts (detach w.manager timer) (milliseconds w.clock) duration).toNat =
      duration.toNat + (w.clock - w.callTime) := by
    rw [msecToCounts, hnow, UInt32.toNat_add, hdelta]
    exact Nat.mod_eq_of_lt hadmits
  have hnone : (step w (.stop timer)).running timer = none := by simp [step]
  have hattach := inv_attach hstop hnone
    (msecToCounts (detach w.manager timer) (milliseconds w.clock) duration)
  have hdeadline : w.callTime + (duration.toNat + (w.clock - w.callTime)) =
      w.clock + duration.toNat := by
    have := h.callTime_le
    omega
  simp only [step, stop, Function.update_idem, hcount, hdeadline] at hattach
  exact hattach

/-- `tick()` is to consume `msec` milliseconds, to come to the time of the call. -/
structure Ticking (w : World τ) (m : Manager τ) (msec : UInt32) (base : Nat) : Prop where
  callTime : base + msec.toNat = w.callTime
  timeNow : m.timeNow = milliseconds w.callTime
  callTime_le : w.callTime ≤ w.clock
  inTickCall : m.inTickCall = true
  entries : Represents
    (deadlines base m.counters ++
      m.pendingAttach.map fun c => (c.timer, w.callTime + c.count.toNat)) w.running
  bound : ∀ p ∈ deadlines base m.counters, p.2 < base + 2 ^ 32
  past : ∀ e ∈ w.expirations, e.deadline ≤ base
  ordered : w.expirations.Pairwise fun later earlier => earlier.deadline ≤ later.deadline

omit [DecidableEq τ] in
/-- Outside of a call the running timers are in the active list. -/
theorem represents_counters {w : World τ} (h : Inv w) (hidle : w.expiring = none) :
    Represents (deadlines w.callTime w.manager.counters) w.running := by
  have hentries := h.entries
  have hbase : w.base = w.callTime := by simp [World.base, hidle]
  rw [World.entries, (h.idle hidle).2.1, List.map_nil, List.append_nil, hbase] at hentries
  exact hentries

omit [DecidableEq τ] in
theorem ticking_processTimers {w : World τ} (h : Inv w) (hadmits : Admits w .processTimers) :
    Ticking { w with callTime := w.clock }
      { w.manager with timeNow := milliseconds w.clock, inTickCall := true }
      (deltaMilliseconds w.manager.timeMark (milliseconds w.clock)) w.callTime := by
  obtain ⟨hidle, hlt⟩ := hadmits
  obtain ⟨-, hnil, hmark⟩ := h.idle hidle
  have hbase : w.base = w.callTime := by simp [World.base, hidle]
  have hbound := h.bound
  have hpast := h.past
  rw [hbase] at hbound hpast
  refine ⟨?_, rfl, le_rfl, rfl, ?_, hbound, hpast, h.ordered⟩
  · have hdelta := toNat_deltaMilliseconds w.callTime w.clock h.callTime_le hlt
    rw [hmark, hdelta]
    exact Nat.add_sub_of_le h.callTime_le
  · simp only [hnil, List.map_nil, List.append_nil]
    exact represents_counters h hidle

omit [DecidableEq τ] in
theorem ticking_resume {w : World τ} (h : Inv w) {msec : UInt32}
    (hexp : w.expiring = some msec) : Ticking w w.manager msec w.base := by
  obtain ⟨htick, hmsec⟩ := h.busy msec hexp
  refine ⟨?_, h.timeNow, h.callTime_le, htick, h.entries, h.bound, h.past, h.ordered⟩
  rw [World.base, hexp, Option.getD_some]
  omega

/-- The deadline of the timer that is called back was the first one. -/
theorem running_of_callback {w : World τ} {m : Manager τ} {msec : UInt32} {base : Nat}
    {res : Manager τ × Option (τ × UInt32)} (h : Ticking w m msec base)
    (hticked : Ticked m msec base res) {timer : τ} {rest : UInt32}
    (hres : res.2 = some (timer, rest)) :
    ∃ base', base ≤ base' ∧ base' + rest.toNat = w.callTime ∧
      deadlines base m.counters = (timer, base') :: deadlines base' res.1.counters ∧
      w.running timer = some base' := by
  obtain ⟨base', hle, hrest, hcounters⟩ := hticked.callback timer rest hres
  refine ⟨base', hle, hrest.trans h.callTime, hcounters, ?_⟩
  have hentries := h.entries
  rw [hcounters, List.cons_append] at hentries
  exact hentries.tail.1

theorem inv_proceed {w : World τ} {m : Manager τ} {msec : UInt32} {base : Nat}
    {res : Manager τ × Option (τ × UInt32)} (h : Ticking w m msec base)
    (hticked : Ticked m msec base res) : Inv (w.proceed res) := by
  have hfields := hticked.fields
  have hcall := h.callTime
  cases hres : res.2 with
  | none =>
      have hsame := hticked.finished hres
      rw [hcall] at hsame
      have hadd := deadlines_foldl_addToActiveList w.callTime res.1.pendingAttach res.1.counters
      simp only [World.proceed, hres]
      have hbase : ∀ m', ({ w with manager := m', expiring := none } : World τ).base =
          w.callTime := fun m' => by simp [World.base]
      refine ⟨?_, h.callTime_le, fun _ => ⟨rfl, rfl, ?_⟩, fun msec' hbusy => ?_, ?_, ?_, ?_,
        h.ordered⟩
      · rw [tickComplete, hfields]
        exact h.timeNow
      · rw [tickComplete, hfields]
        exact h.timeNow
      · cases hbusy
      · refine h.entries.perm ?_
        rw [World.entries, hbase]
        simp only [tickComplete, List.map_nil, List.append_nil]
        refine hadd.trans (List.perm_append_comm.trans ?_)
        rw [hsame, hfields]
      · intro p hp
        rw [hbase] at hp ⊢
        rcases List.mem_append.mp (hadd.mem_iff.mp hp) with hpending | hactive
        · obtain ⟨c, -, rfl⟩ := List.mem_map.mp hpending
          exact Nat.add_lt_add_left c.count.toNat_lt _
        · have := h.bound p (hsame ▸ hactive)
          omega
      · intro e he
        rw [hbase]
        have := h.past e he
        omega
  | some callback =>
      obtain ⟨timer, rest⟩ := callback
      obtain ⟨base', hle, hrest, hcounters, hrunning⟩ := running_of_callback h hticked hres
      simp only [World.proceed, hres]
      have hbase : ∀ m' running' expirations',
          ({ w with
            manager := m'
            expiring := some rest
            running := running'
            expirations := expirations' } : World τ).base = base' := by
        intro m' running' expirations'
        simp only [World.base, Option.getD_some]
        omega
      have hentries := h.entries
      rw [hcounters, List.cons_append] at hentries
      refine ⟨?_, h.callTime_le, fun hidle => (by cases hidle), fun msec' hbusy => ?_,
        ?_, ?_, ?_, ?_⟩
      · rw [hfields]
        exact h.timeNow
      · cases hbusy
        refine ⟨?_, (Nat.le_add_left _ _).trans_eq hrest⟩
        rw [hfields]
        exact h.inTickCall
      · rw [World.entries, hbase]
        have hpending : res.1.pendingAttach = m.pendingAttach := by rw [hfields]
        simp only [hpending]
        exact hentries.tail.2
      · intro p hp
        rw [hbase] at hp ⊢
        have := h.bound p (by rw [hcounters]; exact List.mem_cons_of_mem _ hp)
        omega
      · intro e he
        rw [hbase]
        rcases List.mem_cons.mp he with rfl | hmem
        · simp [hrunning]
        · exact (h.past e hmem).trans hle
      · refine List.pairwise_cons.mpr ⟨fun e he => ?_, h.ordered⟩
        simp only [hrunning, Option.getD_some]
        exact (h.past e he).trans hle

theorem inv_step {w : World τ} (h : Inv w) (a : Action τ) (hadmits : Admits w a) :
    Inv (step w a) := by
  cases a with
  | advance n => exact inv_advance h n
  | start timer duration => exact inv_start h timer duration hadmits
  | stop timer => exact inv_stop h timer
  | processTimers =>
      exact inv_proceed (ticking_processTimers h hadmits) (ticked_tickLoop _ _ _).1
  | callbackReturns =>
      simp only [step]
      split
      · exact h
      · rename_i hexp
        exact inv_proceed (ticking_resume h hexp) (ticked_resume _ _ _).1

theorem inv_foldl {w : World τ} (h : Inv w) (actions : List (Action τ))
    (hadmitted : AllAdmitted w actions) : Inv (actions.foldl step w) := by
  induction actions generalizing w with
  | nil => exact h
  | cons a actions ih => exact ih (inv_step h a hadmitted.1) hadmitted.2

omit [DecidableEq τ] in
theorem processTimers_init (started first : UInt32) :
    processTimers (startManager (Manager.init : Manager τ) started) first =
      ({ counters := [], pendingAttach := [], timeMark := started, timeNow := first,
         inTickCall := true }, none) := by
  rw [processTimers, tick, tickLoop]
  split_ifs <;> rfl

theorem inv_init (started first : Nat) : Inv (World.init started first : World τ) := by
  rw [World.init, step, processTimers_init]
  refine ⟨rfl, le_rfl, fun _ => ⟨rfl, rfl, rfl⟩, fun msec hbusy => (by cases hbusy),
    ⟨List.nodup_nil, fun k n => ?_⟩, fun p hp => (by cases hp), fun e he => (by cases he),
    List.Pairwise.nil⟩
  simp only [World.proceed, reduceCtorEq, iff_false]
  rintro ⟨⟩

/-- The callbacks of one timer. -/
def World.expirationsOf (w : World τ) (timer : τ) : List (Expiration τ) :=
  w.expirations.filter fun e => e.timer = timer

/-- The call in progress has still to expire the timer. -/
def World.Due (w : World τ) (timer : τ) (deadline : Nat) : Prop :=
  w.expiring ≠ none ∧ deadline ≤ w.callTime ∧ timer ∈ w.manager.counters.map Counter.timer

/-- What the loops of `tick()` do to one running timer. -/
theorem proceed_cases {w : World τ} {m : Manager τ} {msec : UInt32} {base : Nat}
    {res : Manager τ × Option (τ × UInt32)} (h : Ticking w m msec base)
    (hticked : Ticked m msec base res) {timer : τ} {deadline : Nat}
    (hrunning : w.running timer = some deadline) :
    ((w.proceed res).running timer = none ∧ deadline ≤ w.callTime ∧
        timer ∈ m.counters.map Counter.timer ∧
        (w.proceed res).expirationsOf timer =
          ⟨timer, deadline, w.callTime⟩ :: w.expirationsOf timer) ∨
      ((w.proceed res).running timer = some deadline ∧
        (w.proceed res).expirationsOf timer = w.expirationsOf timer ∧
        ((w.proceed res).Due timer deadline ↔
          res.2 ≠ none ∧ deadline ≤ w.callTime ∧ timer ∈ m.counters.map Counter.timer)) := by
  cases hres : res.2 with
  | none =>
      refine .inr ⟨?_, ?_, ?_⟩
      · simp only [World.proceed, hres]
        exact hrunning
      · simp only [World.expirationsOf, World.proceed, hres]
      · simp [World.Due, World.proceed, hres]
  | some callback =>
      obtain ⟨timer', rest⟩ := callback
      obtain ⟨base', -, hrest, hcounters, hrunning'⟩ := running_of_callback h hticked hres
      have htimers : m.counters.map Counter.timer =
          timer' :: res.1.counters.map Counter.timer := by
        have hmap := congrArg (List.map Prod.fst) hcounters
        rwa [map_fst_deadlines, List.map_cons, map_fst_deadlines] at hmap
      by_cases heq : timer = timer'
      · subst heq
        obtain rfl : deadline = base' := Option.some.inj (hrunning.symm.trans hrunning')
        refine .inl ⟨?_, by omega, ?_, ?_⟩
        · simp [World.proceed, hres]
        · rw [htimers]
          exact List.mem_cons_self
        · simp [World.expirationsOf, World.proceed, hres, hrunning]
      · refine .inr ⟨?_, ?_, ?_⟩
        · simp only [World.proceed, hres, Function.update_of_ne heq]
          exact hrunning
        · simp only [World.expirationsOf, World.proceed, hres]
          rw [List.filter_cons_of_neg (by simpa using Ne.symm heq)]
        · simp [World.Due, World.proceed, hres, htimers, heq]

theorem proceed_of_not_running {w : World τ} {m : Manager τ} {msec : UInt32} {base : Nat}
    {res : Manager τ × Option (τ × UInt32)} (h : Ticking w m msec base)
    (hticked : Ticked m msec base res) {timer : τ} (hnone : w.running timer = none) :
    (w.proceed res).running timer = none ∧
      (w.proceed res).expirationsOf timer = w.expirationsOf timer := by
  cases hres : res.2 with
  | none =>
      simp only [World.expirationsOf, World.proceed, hres]
      exact ⟨hnone, trivial⟩
  | some callback =>
      obtain ⟨timer', rest⟩ := callback
      obtain ⟨base', -, -, -, hrunning⟩ := running_of_callback h hticked hres
      have heq : timer ≠ timer' := by
        rintro rfl
        rw [hnone] at hrunning
        cases hrunning
      simp only [World.expirationsOf, World.proceed, hres, Function.update_of_ne heq]
      exact ⟨hnone, List.filter_cons_of_neg (by simpa using heq.symm)⟩

/-- The action starts the timer. -/
def Action.Starts (timer : τ) : Action τ → Prop
  | .start timer' _ => timer' = timer
  | _ => False

/-- The action stops the timer. -/
def Action.Stops (timer : τ) : Action τ → Prop
  | .stop timer' => timer' = timer
  | _ => False

/-- The action is a `processTimers()` call at or after the deadline that finds the clock
advanced. -/
def Calls (w : World τ) (deadline : Nat) : Action τ → Prop
  | .processTimers => w.callTime < w.clock ∧ deadline ≤ w.clock
  | _ => False

theorem step_of_not_running {w : World τ} (h : Inv w) {a : Action τ} (hadmits : Admits w a)
    {timer : τ} (hstarts : ¬ a.Starts timer) (hnone : w.running timer = none) :
    (step w a).running timer = none ∧
      (step w a).expirationsOf timer = w.expirationsOf timer := by
  cases a with
  | advance n => exact ⟨hnone, rfl⟩
  | start timer' duration =>
      exact ⟨(Function.update_of_ne (fun heq => hstarts heq.symm) _ _).trans hnone, rfl⟩
  | stop timer' =>
      refine ⟨?_, rfl⟩
      by_cases heq : timer = timer'
      · simp [step, heq]
      · exact (Function.update_of_ne heq _ _).trans hnone
  | processTimers =>
      exact proceed_of_not_running (ticking_processTimers h hadmits) (ticked_tickLoop _ _ _).1
        hnone
  | callbackReturns =>
      simp only [step]
      split
      · exact ⟨hnone, rfl⟩
      · rename_i hexp
        exact proceed_of_not_running (ticking_resume h hexp) (ticked_resume _ _ _).1 hnone

theorem mem_counters_detach {w : World τ} (h : Inv w) {timer timer' : τ} (hne : timer ≠ timer') :
    timer ∈ (detach w.manager timer').counters.map Counter.timer ↔
      timer ∈ w.manager.counters.map Counter.timer := by
  have hactive := (deadlines_detach h timer').1
  rw [← map_fst_deadlines w.base, hactive,
    ← map_fst_deadlines w.base]
  simp [hne]

/-- Starting or stopping another timer changes nothing. -/
theorem due_other {w : World τ} (h : Inv w) {a : Action τ} {timer : τ} (deadline : Nat)
    (hother : ∃ timer', timer ≠ timer' ∧ (a = .stop timer' ∨ ∃ d, a = .start timer' d)) :
    (step w a).running timer = w.running timer ∧
      (step w a).expirationsOf timer = w.expirationsOf timer ∧
      (step w a).callTime = w.callTime ∧
      ((step w a).Due timer deadline ↔ w.Due timer deadline) := by
  obtain ⟨timer', hne, rfl | ⟨duration, rfl⟩⟩ := hother
  · refine ⟨Function.update_of_ne hne _ _, rfl, rfl, ?_⟩
    simp only [World.Due, step, stop, mem_counters_detach h hne]
  · refine ⟨Function.update_of_ne hne _ _, rfl, rfl, ?_⟩
    simp only [World.Due, step, start]
    refine and_congr_right fun hbusy => and_congr_right fun _ => ?_
    obtain ⟨msec, hexp⟩ := Option.ne_none_iff_exists'.mp hbusy
    rw [attach, if_pos ((detach_fields _ _).2.2.trans (h.busy msec hexp).1)]
    exact mem_counters_detach h hne

/-- A timer that the call in progress has to expire stays so until it is expired. -/
theorem step_of_due {w : World τ} (h : Inv w) {a : Action τ} (hadmits : Admits w a) {timer : τ}
    {deadline : Nat} (hstarts : ¬ a.Starts timer) (hstops : ¬ a.Stops timer)
    (hrunning : w.running timer = some deadline) (hdue : w.Due timer deadline) :
    ((step w a).running timer = none ∧
        (step w a).expirationsOf timer =
          ⟨timer, deadline, w.callTime⟩ :: w.expirationsOf timer) ∨
      ((step w a).running timer = some deadline ∧
        (step w a).expirationsOf timer = w.expirationsOf timer ∧
        (step w a).callTime = w.callTime ∧ (step w a).Due timer deadline) := by
  have hsame : ∀ timer', timer ≠ timer' → (a = .stop timer' ∨ ∃ d, a = .start timer' d) →
      (step w a).running timer = some deadline ∧
        (step w a).expirationsOf timer = w.expirationsOf timer ∧
        (step w a).callTime = w.callTime ∧ (step w a).Due timer deadline := by
    intro timer' hne hother
    obtain ⟨hrun, hexps, hcall, hiff⟩ := due_other h deadline ⟨timer', hne, hother⟩
    exact ⟨hrun.trans hrunning, hexps, hcall, hiff.mpr hdue⟩
  cases a with
  | advance n => exact .inr ⟨hrunning, rfl, rfl, hdue⟩
  | start timer' duration =>
      exact .inr (hsame timer' (fun heq => hstarts heq.symm) (.inr ⟨duration, rfl⟩))
  | stop timer' => exact .inr (hsame timer' (fun heq => hstops heq.symm) (.inl rfl))
  | processTimers => exact absurd hadmits.1 hdue.1
  | callbackReturns =>
      obtain ⟨hbusy, hle, hmem⟩ := hdue
      obtain ⟨msec, hexp⟩ := Option.ne_none_iff_exists'.mp hbusy
      obtain ⟨hticked, hafter⟩ := ticked_resume w.manager msec w.base
      have hticking := ticking_resume h hexp
      simp only [step, hexp]
      rcases proceed_cases hticking hticked hrunning with ⟨hnone, -, -, hexps⟩ | hstill
      · exact .inl ⟨hnone, hexps⟩
      · refine .inr ⟨hstill.1, hstill.2.1, callTime_proceed w _,
          hstill.2.2.mpr ⟨fun hres => ?_, hle, hmem⟩⟩
        -- at the end of the loops no deadline that has come is left
        rw [← map_fst_deadlines w.base] at hmem
        obtain ⟨⟨timer', deadline'⟩, hp, rfl⟩ := List.mem_map.mp hmem
        have hlt := hafter hres _ hp
        have heq := (h.entries.mem_iff _ _).mp (List.mem_append_left _ hp)
        rw [hrunning] at heq
        have hcall := hticking.callTime
        cases heq
        simp only at hlt
        omega

/-- A call leaves a timer that runs alone, unless it finds that the deadline has come. -/
theorem processTimers_of_running {w : World τ} (h : Inv w) (hadmits : Admits w .processTimers)
    {timer : τ} {deadline : Nat} (hrunning : w.running timer = some deadline) :
    (Calls w deadline .processTimers ∧
        ((step w .processTimers).running timer = none ∧
            (step w .processTimers).expirationsOf timer =
              ⟨timer, deadline, w.clock⟩ :: w.expirationsOf timer ∨
          (step w .processTimers).running timer = some deadline ∧
            (step w .processTimers).expirationsOf timer = w.expirationsOf timer ∧
            (step w .processTimers).callTime = w.clock ∧
            (step w .processTimers).Due timer deadline)) ∨
      (¬ Calls w deadline .processTimers ∧
        (step w .processTimers).running timer = some deadline ∧
        (step w .processTimers).expirationsOf timer = w.expirationsOf timer ∧
        ¬ (step w .processTimers).Due timer deadline) := by
  have hticking := ticking_processTimers h hadmits
  obtain ⟨hticked, hafter⟩ := ticked_tickLoop
    { w.manager with timeNow := milliseconds w.clock, inTickCall := true }
    (deltaMilliseconds w.manager.timeMark (milliseconds w.clock)) w.callTime
  have hcall : w.callTime +
      (deltaMilliseconds w.manager.timeMark (milliseconds w.clock)).toNat = w.clock :=
    hticking.callTime
  have hp := ((represents_counters h hadmits.1).mem_iff timer deadline).mpr hrunning
  have hmem : timer ∈ w.manager.counters.map Counter.timer := by
    rw [← map_fst_deadlines w.callTime]
    exact List.mem_map_of_mem hp
  have hclock : ∀ res, ({ w with callTime := w.clock }.proceed res).callTime = w.clock :=
    callTime_proceed _
  rcases Classical.em (Calls w deadline .processTimers) with hcalls | hcalls
  · refine .inl ⟨hcalls, ?_⟩
    rcases proceed_cases hticking hticked hrunning with
      ⟨hnone, -, -, hexps⟩ | ⟨hrun, hexps, hiff⟩
    · exact .inl ⟨hnone, hexps⟩
    · refine .inr ⟨hrun, hexps, hclock _, hiff.mpr ⟨fun hres => ?_, hcalls.2, hmem⟩⟩
      have hne : deltaMilliseconds w.manager.timeMark (milliseconds w.clock) ≠ 0 := by
        intro hzero
        rw [hzero, UInt32.toNat_zero] at hcall
        have := hcalls.1
        omega
      have hlt := hafter hres hne _ hp
      have := hcalls.2
      simp only at hlt
      omega
  · refine .inr ⟨hcalls, ?_⟩
    -- a call that finds no time passed does not look at the counters
    have hquiet : deadline ≤ w.clock →
        (tickLoop { w.manager with timeNow := milliseconds w.clock, inTickCall := true }
          (deltaMilliseconds w.manager.timeMark (milliseconds w.clock))).2 = none := by
      intro hle
      have hzero : deltaMilliseconds w.manager.timeMark (milliseconds w.clock) = 0 := by
        refine UInt32.toNat_inj.mp ?_
        have hlt : ¬ w.callTime < w.clock := fun hlt => hcalls ⟨hlt, hle⟩
        rw [UInt32.toNat_zero]
        omega
      rw [hzero, tickLoop, if_pos rfl]
    rcases proceed_cases hticking hticked hrunning with
      ⟨hnone, hle, -, -⟩ | ⟨hrun, hexps, hiff⟩
    · simp only [World.proceed, hquiet hle, hrunning] at hnone
      cases hnone
    · exact ⟨hrun, hexps, fun hdue => (hiff.mp hdue).1 (hquiet (hiff.mp hdue).2.1)⟩

/-- A timer that waits is left alone until a call finds that its deadline has come. -/
theorem step_of_waiting {w : World τ} (h : Inv w) {a : Action τ} (hadmits : Admits w a)
    {timer : τ} {deadline : Nat} (hstarts : ¬ a.Starts timer) (hstops : ¬ a.Stops timer)
    (hrunning : w.running timer = some deadline) (hwaits : ¬ w.Due timer deadline) :
    (Calls w deadline a ∧
        ((step w a).running timer = none ∧
            (step w a).expirationsOf timer =
              ⟨timer, deadline, w.clock⟩ :: w.expirationsOf timer ∨
          (step w a).running timer = some deadline ∧
            (step w a).expirationsOf timer = w.expirationsOf timer ∧
            (step w a).callTime = w.clock ∧ (step w a).Due timer deadline)) ∨
      (¬ Calls w deadline a ∧ (step w a).running timer = some deadline ∧
        (step w a).expirationsOf timer = w.expirationsOf timer ∧
        ¬ (step w a).Due timer deadline) := by
  have hsame : ∀ timer', timer ≠ timer' → (a = .stop timer' ∨ ∃ d, a = .start timer' d) →
      (step w a).running timer = some deadline ∧
        (step w a).expirationsOf timer = w.expirationsOf timer ∧
        ¬ (step w a).Due timer deadline := by
    intro timer' hne hother
    obtain ⟨hrun, hexps, -, hiff⟩ := due_other h deadline ⟨timer', hne, hother⟩
    exact ⟨hrun.trans hrunning, hexps, fun hdue => hwaits (hiff.mp hdue)⟩
  cases a with
  | advance n => exact .inr ⟨id, hrunning, rfl, hwaits⟩
  | start timer' duration =>
      exact .inr ⟨id, hsame timer' (fun heq => hstarts heq.symm) (.inr ⟨duration, rfl⟩)⟩
  | stop timer' => exact .inr ⟨id, hsame timer' (fun heq => hstops heq.symm) (.inl rfl)⟩
  | callbackReturns =>
      refine .inr ⟨id, ?_⟩
      obtain ⟨msec, hexp⟩ := Option.ne_none_iff_exists'.mp hadmits
      simp only [step, hexp]
      rcases proceed_cases (ticking_resume h hexp) (ticked_resume _ _ _).1 hrunning with
        ⟨-, hle, hmem, -⟩ | ⟨hrun, hexps, hiff⟩
      · exact absurd ⟨hadmits, hle, hmem⟩ hwaits
      · exact ⟨hrun, hexps, fun hdue => hwaits ⟨hadmits, (hiff.mp hdue).2⟩⟩
  | processTimers => exact processTimers_of_running h hadmits hrunning

/-- The time of the first call that finds the deadline come. -/
def dueCall (deadline : Nat) : World τ → List (Action τ) → Option Nat
  | _, [] => none
  | w, .processTimers :: actions =>
      if w.callTime < w.clock ∧ deadline ≤ w.clock then some w.clock
      else dueCall deadline (step w .processTimers) actions
  | w, a :: actions => dueCall deadline (step w a) actions

theorem dueCall_of_calls {w : World τ} {deadline : Nat} {a : Action τ}
    (h : Calls w deadline a) (actions : List (Action τ)) :
    dueCall deadline w (a :: actions) = some w.clock := by
  cases a with
  | processTimers => exact if_pos h
  | _ => cases h

theorem dueCall_of_not_calls {w : World τ} {deadline : Nat} {a : Action τ}
    (h : ¬ Calls w deadline a) (actions : List (Action τ)) :
    dueCall deadline w (a :: actions) = dueCall deadline (step w a) actions := by
  cases a with
  | processTimers => exact if_neg h
  | _ => rfl

theorem expirationsOf_of_not_running {w : World τ} (h : Inv w) (timer : τ)
    (actions : List (Action τ)) (hadmitted : AllAdmitted w actions)
    (hstarts : ∀ a ∈ actions, ¬ a.Starts timer) (hnone : w.running timer = none) :
    (actions.foldl step w).expirationsOf timer = w.expirationsOf timer := by
  induction actions generalizing w with
  | nil => rfl
  | cons a actions ih =>
      obtain ⟨hrunning, hexps⟩ := step_of_not_running h hadmitted.1
        (hstarts a List.mem_cons_self) hnone
      rw [List.foldl_cons, ih (inv_step h a hadmitted.1) hadmitted.2
        (fun a ha => hstarts a (List.mem_cons_of_mem _ ha)) hrunning, hexps]

theorem expirationsOf_of_due {w : World τ} (h : Inv w) {timer : τ} {deadline : Nat}
    (actions : List (Action τ)) (hadmitted : AllAdmitted w actions)
    (hothers : ∀ a ∈ actions, ¬ a.Starts timer ∧ ¬ a.Stops timer)
    (hrunning : w.running timer = some deadline) (hdue : w.Due timer deadline)
    (hidle : (actions.foldl step w).expiring = none) :
    (actions.foldl step w).expirationsOf timer =
      ⟨timer, deadline, w.callTime⟩ :: w.expirationsOf timer := by
  induction actions generalizing w with
  | nil => exact absurd hidle hdue.1
  | cons a actions ih =>
      have hinv := inv_step h a hadmitted.1
      have htail := fun a ha => hothers a (List.mem_cons_of_mem _ ha)
      obtain ⟨hstarts, hstops⟩ := hothers a List.mem_cons_self
      rw [List.foldl_cons]
      rcases step_of_due h hadmitted.1 hstarts hstops hrunning hdue with
        ⟨hnone, hexps⟩ | ⟨hrun, hexps, hcall, hdue'⟩
      · rw [expirationsOf_of_not_running hinv timer actions hadmitted.2
          (fun a ha => (htail a ha).1) hnone, hexps]
      · rw [ih hinv hadmitted.2 htail hrun hdue' hidle, hexps, hcall]

theorem expirationsOf_of_waiting {w : World τ} (h : Inv w) {timer : τ} {deadline : Nat}
    (actions : List (Action τ)) (hadmitted : AllAdmitted w actions)
    (hothers : ∀ a ∈ actions, ¬ a.Starts timer ∧ ¬ a.Stops timer)
    (hrunning : w.running timer = some deadline) (hwaits : ¬ w.Due timer deadline)
    (hidle : (actions.foldl step w).expiring = none) :
    (actions.foldl step w).expirationsOf timer =
      ((dueCall deadline w actions).map (⟨timer, deadline, ·⟩)).toList ++
        w.expirationsOf timer := by
  induction actions generalizing w with
  | nil => rfl
  | cons a actions ih =>
      have hinv := inv_step h a hadmitted.1
      have htail := fun a ha => hothers a (List.mem_cons_of_mem _ ha)
      obtain ⟨hstarts, hstops⟩ := hothers a List.mem_cons_self
      rw [List.foldl_cons]
      rcases step_of_waiting h hadmitted.1 hstarts hstops hrunning hwaits with
        ⟨hcalls, ⟨hnone, hexps⟩ | ⟨hrun, hexps, hcall, hdue⟩⟩ | ⟨hcalls, hrun, hexps, hwaits'⟩
      · rw [expirationsOf_of_not_running hinv timer actions hadmitted.2
          (fun a ha => (htail a ha).1) hnone, hexps, dueCall_of_calls hcalls]
        rfl
      · rw [expirationsOf_of_due hinv actions hadmitted.2 htail hrun hdue hidle, hexps, hcall,
          dueCall_of_calls hcalls]
        rfl
      · rw [ih hinv hadmitted.2 htail hrun hwaits' hidle, hexps, dueCall_of_not_calls hcalls]

theorem allAdmitted_append {w : World τ} (before after : List (Action τ))
    (h : AllAdmitted w (before ++ after)) :
    AllAdmitted w before ∧ AllAdmitted (before.foldl step w) after := by
  induction before generalizing w with
  | nil => exact ⟨trivial, h⟩
  | cons a before ih => exact ⟨⟨h.1, (ih h.2).1⟩, (ih h.2).2⟩

/-- The sum of the counts up to and including a timer's entry. -/
def remaining (timer : τ) : List (Counter τ) → Option Nat
  | [] => none
  | c :: cs =>
      if c.timer = timer then some c.count.toNat
      else (remaining timer cs).map (c.count.toNat + ·)

theorem remaining_eq_none {timer : τ} {cs : List (Counter τ)}
    (h : timer ∉ cs.map Counter.timer) : remaining timer cs = none := by
  induction cs with
  | nil => rfl
  | cons c cs ih =>
      rw [List.map_cons, List.mem_cons, not_or] at h
      rw [remaining, if_neg (Ne.symm h.1), ih h.2, Option.map_none]

theorem remaining_of_mem {base : Nat} {timer : τ} {deadline : Nat} {cs : List (Counter τ)}
    (hnodup : (cs.map Counter.timer).Nodup) (h : (timer, deadline) ∈ deadlines base cs) :
    remaining timer cs = some (deadline - base) := by
  induction cs generalizing base with
  | nil => cases h
  | cons c cs ih =>
      rw [List.map_cons, List.nodup_cons] at hnodup
      rw [deadlines_cons, List.mem_cons] at h
      rw [remaining]
      split_ifs with htimer
      · rcases h with heq | hmem
        · cases heq
          rw [Nat.add_sub_cancel_left]
        · have hmem' := List.mem_map_of_mem (f := Prod.fst) hmem
          rw [map_fst_deadlines] at hmem'
          exact absurd (htimer ▸ hmem') hnodup.1
      · rcases h with heq | hmem
        · exact absurd (congrArg Prod.fst heq).symm htimer
        · have hle := le_of_mem_schedule hmem
          simp only at hle
          rw [ih hnodup.2 hmem, Option.map_some]
          congr 1
          omega

/-- Outside of a call the counts add up to the time left since the last call. -/
theorem remaining_counters {w : World τ} (h : Inv w) (hidle : w.expiring = none) (timer : τ) :
    remaining timer w.manager.counters = (w.running timer).map (· - w.callTime) ∧
      ∀ deadline, w.running timer = some deadline → w.callTime ≤ deadline := by
  have hentries := represents_counters h hidle
  have hnodup := hentries.nodup
  rw [map_fst_deadlines] at hnodup
  cases hrunning : w.running timer with
  | none =>
      have hnot := hentries.notMem hrunning
      rw [map_fst_deadlines] at hnot
      exact ⟨remaining_eq_none hnot, fun deadline hsome => by cases hsome⟩
  | some deadline =>
      have hmem := (hentries.mem_iff timer deadline).mpr hrunning
      refine ⟨remaining_of_mem hnodup hmem, fun deadline' hsome => ?_⟩
      cases hsome
      exact le_of_mem_schedule hmem

theorem not_due_start {w : World τ} (h : Inv w) (timer : τ) (duration : UInt32)
    (deadline : Nat) : ¬ (step w (.start timer duration)).Due timer deadline := by
  rintro ⟨hbusy, -, hmem⟩
  obtain ⟨msec, hexp⟩ := Option.ne_none_iff_exists'.mp hbusy
  simp only [step, start] at hmem
  rw [attach, if_pos ((detach_fields _ _).2.2.trans (h.busy msec hexp).1),
    ← map_fst_deadlines w.base, (deadlines_detach h timer).1] at hmem
  simp at hmem

/-- The world after the actions of a run. -/
def run (started first : Nat) (actions : List (Action τ)) : World τ :=
  actions.foldl step (World.init started first)

/-- In every run: outside of a call the counts of the active list add up to the running
timers' remaining times; a start leads to one callback, by the first call that finds its
deadline come, unless the timer is started or stopped before; a stop leads to none; and
the callbacks come in the order of their deadlines. -/
theorem expirations_on_time (started first : Nat) (actions : List (Action τ))
    (h : AllAdmitted (World.init started first) actions) :
    ((run started first actions).expiring = none →
      ∀ timer,
        remaining timer (run started first actions).manager.counters =
            ((run started first actions).running timer).map
              (· - (run started first actions).callTime) ∧
          ∀ deadline, (run started first actions).running timer = some deadline →
            (run started first actions).callTime ≤ deadline) ∧
    (∀ before timer duration after, actions = before ++ .start timer duration :: after →
      (∀ a ∈ after, ¬ a.Starts timer ∧ ¬ a.Stops timer) →
      (run started first actions).expiring = none →
      (run started first actions).expirationsOf timer =
        ((dueCall ((run started first before).clock + duration.toNat)
            (step (run started first before) (.start timer duration)) after).map
          (⟨timer, (run started first before).clock + duration.toNat, ·⟩)).toList ++
          (run started first before).expirationsOf timer) ∧
    (∀ before timer after, actions = before ++ .stop timer :: after →
      (∀ a ∈ after, ¬ a.Starts timer) →
      (run started first actions).expirationsOf timer =
        (run started first before).expirationsOf timer) ∧
    (run started first actions).expirations.Pairwise
      fun later earlier => earlier.deadline ≤ later.deadline := by
  have hinv := inv_foldl (inv_init started first) actions h
  refine ⟨fun hidle timer => remaining_counters hinv hidle timer, ?_, ?_, hinv.ordered⟩
  · rintro before timer duration after rfl hothers hidle
    obtain ⟨hbefore, hstart, hafter⟩ := allAdmitted_append before _ h
    have hinv' := inv_foldl (inv_init started first) before hbefore
    rw [run, List.foldl_append, List.foldl_cons] at hidle ⊢
    exact expirationsOf_of_waiting (inv_step hinv' _ hstart) after hafter hothers
      (Function.update_self _ _ _) (not_due_start hinv' timer duration _) hidle
  · rintro before timer after rfl hstarts
    obtain ⟨hbefore, hstop, hafter⟩ := allAdmitted_append before _ h
    have hinv' := inv_foldl (inv_init started first) before hbefore
    rw [run, List.foldl_append, List.foldl_cons]
    exact expirationsOf_of_not_running (inv_step hinv' _ hstop) timer after hafter hstarts
      (Function.update_self _ _ _)

/-- A timer of 10 ms restarts itself from its callback, during which 2 ms pass. -/
theorem expirations_on_time_restart :
    (run 0 100 [.advance 3, .start 7 10, .advance 12, .processTimers, .advance 2, .start 7 10,
      .callbackReturns, .advance 10, .processTimers, .callbackReturns]).expirationsOf 7 =
      [⟨7, 127, 127⟩, ⟨7, 113, 115⟩] :=
  (expirations_on_time 0 100 [.advance 3, .start 7 10, .advance 12, .processTimers, .advance 2,
    .start 7 10, .callbackReturns, .advance 10, .processTimers, .callbackReturns]
    (by simp [AllAdmitted, Admits]; decide)).2.1
    [.advance 3, .start 7 10, .advance 12, .processTimers, .advance 2] 7 10
    [.callbackReturns, .advance 10, .processTimers, .callbackReturns] rfl
    (by simp [Action.Starts, Action.Stops]) rfl

/-- A timer of 0 ms started at the time of the last call is not expired by a next call at
that same time. -/
theorem expirations_on_time_fails_same_time :
    (run 0 100 [.start 7 0, .processTimers]).callTime = 100 ∧
      (run 0 100 [.start 7 0, .processTimers]).expiring = none ∧
      (run 0 100 [.start 7 0, .processTimers]).running 7 = some 100 ∧
      (run 0 100 [.start 7 0, .processTimers]).expirationsOf 7 = [] := by
  decide

/-- The timer whose `expired()` an action calls. -/
def calledBack (w : World τ) : Action τ → Option τ
  | .processTimers => (processTimers w.manager (milliseconds w.clock)).2.map Prod.fst
  | .callbackReturns => w.expiring.bind fun msec => (resume w.manager msec).2.map Prod.fst
  | _ => none

/-- The loops of `tick()` touch only the timer they call back, whose deadline has come. -/
theorem running_proceed {w : World τ} {m : Manager τ} {msec : UInt32} {base : Nat}
    {res : Manager τ × Option (τ × UInt32)} (h : Ticking w m msec base)
    (hticked : Ticked m msec base res) (timer : τ) :
    (res.2.map Prod.fst = some timer → (w.proceed res).running timer = none ∧
      ∃ deadline ≤ w.callTime, w.running timer = some deadline) ∧
    (res.2.map Prod.fst ≠ some timer → (w.proceed res).running timer = w.running timer) := by
  cases hres : res.2 with
  | none => exact ⟨fun hcalled => (by cases hcalled), fun _ => by simp only [World.proceed, hres]⟩
  | some callback =>
      obtain ⟨timer', rest⟩ := callback
      obtain ⟨base', -, hrest, -, hrunning⟩ := running_of_callback h hticked hres
      simp only [World.proceed, hres, Option.map_some]
      constructor
      · rintro ⟨⟩
        exact ⟨Function.update_self _ _ _, base', by omega, hrunning⟩
      · intro hne
        exact Function.update_of_ne (fun heq => hne (congrArg some heq.symm)) _ _

/-- What an action does to a timer that it neither starts nor stops. -/
theorem running_step {w : World τ} (h : Inv w) {a : Action τ} (hadmits : Admits w a) {timer : τ}
    (hstarts : ¬ a.Starts timer) (hstops : ¬ a.Stops timer) :
    (calledBack w a = some timer → (step w a).running timer = none ∧
      ∃ deadline ≤ w.clock, w.running timer = some deadline) ∧
    (calledBack w a ≠ some timer → (step w a).running timer = w.running timer) := by
  cases a with
  | advance n => exact ⟨fun hcalled => (by cases hcalled), fun _ => rfl⟩
  | start timer' duration =>
      exact ⟨fun hcalled => (by cases hcalled),
        fun _ => Function.update_of_ne (fun heq => hstarts heq.symm) _ _⟩
  | stop timer' =>
      exact ⟨fun hcalled => (by cases hcalled),
        fun _ => Function.update_of_ne (fun heq => hstops heq.symm) _ _⟩
  | processTimers =>
      exact running_proceed (ticking_processTimers h hadmits) (ticked_tickLoop _ _ _).1 timer
  | callbackReturns =>
      obtain ⟨msec, hexp⟩ := Option.ne_none_iff_exists'.mp hadmits
      obtain ⟨hcalled, hother⟩ :=
        running_proceed (ticking_resume h hexp) (ticked_resume _ _ _).1 timer
      simp only [calledBack, step, hexp, Option.bind_some]
      refine ⟨fun hcall => ?_, hother⟩
      obtain ⟨hnone, deadline, hle, hrunning⟩ := hcalled hcall
      exact ⟨hnone, deadline, hle.trans h.callTime_le, hrunning⟩

omit [DecidableEq τ] in
theorem timers_tickLoop (m : Manager τ) (msec : UInt32) :
    m.timers = ((tickLoop m msec).2.map Prod.fst).toList ++ (tickLoop m msec).1.timers :=
  (ticked_tickLoop m msec 0).1.timers

omit [DecidableEq τ] in
theorem timers_resume (m : Manager τ) (msec : UInt32) :
    m.timers = ((resume m msec).2.map Prod.fst).toList ++ (resume m msec).1.timers :=
  (ticked_resume m msec 0).1.timers

theorem absent_proceed (w : World τ) {timers : List τ}
    {res : Manager τ × Option (τ × UInt32)}
    (htimers : timers = (res.2.map Prod.fst).toList ++ res.1.timers) {timer : τ}
    (habsent : timer ∉ timers) :
    res.2.map Prod.fst ≠ some timer ∧ timer ∉ (w.proceed res).manager.timers := by
  rw [htimers, List.mem_append, not_or, Option.mem_toList] at habsent
  refine ⟨habsent.1, ?_⟩
  rw [World.proceed]
  split
  · exact fun hmem => habsent.2 ((timers_tickComplete res.1).mem_iff.mp hmem)
  · exact habsent.2

/-- A timer that is in no list is not called back, and stays so until it is started. -/
theorem absent_step {w : World τ} {timer : τ} (habsent : timer ∉ w.manager.timers)
    {a : Action τ} (hstarts : ¬ a.Starts timer) :
    calledBack w a ≠ some timer ∧ timer ∉ (step w a).manager.timers := by
  have hdetach : ∀ timer', timer ∉ (detach w.manager timer').timers := fun timer' hmem =>
    habsent ((timers_detach w.manager timer').subset hmem)
  cases a with
  | advance n => exact ⟨Option.some_ne_none _ ∘ Eq.symm, habsent⟩
  | start timer' duration =>
      refine ⟨Option.some_ne_none _ ∘ Eq.symm, fun hmem => ?_⟩
      rcases List.mem_cons.mp ((timers_attach _ _).mem_iff.mp hmem) with heq | hmem
      · exact hstarts heq.symm
      · exact hdetach timer' hmem
  | stop timer' => exact ⟨Option.some_ne_none _ ∘ Eq.symm, hdetach timer'⟩
  | processTimers => exact absent_proceed _ (timers_tickLoop _ _) habsent
  | callbackReturns =>
      simp only [calledBack, step]
      cases w.expiring with
      | none => exact ⟨Option.some_ne_none _ ∘ Eq.symm, habsent⟩
      | some msec => exact absent_proceed w (timers_resume w.manager msec) habsent

end ColonyPico.System.TimerRuns
