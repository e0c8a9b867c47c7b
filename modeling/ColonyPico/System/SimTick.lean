import Mathlib.Data.List.Nodup
import Mathlib.Logic.Function.Basic
import ColonyPico.Foundations.Runs

/-!
The barrier of simulated time (`Cpl::System::SimTick`): threads that wait for the next tick, and the
tick source that wakes them and counts their acknowledgements on one semaphore.
-/

namespace ColonyPico.System.SimTick

open ColonyPico.Foundations.Runs

/-- `OPTION_CPL_SYSTEM_SIM_TICK_MIN_TICKS_FOR_ADVANCE`, and the number of values of a `size_t`. -/
structure Options where
  minTicks : Nat
  sizeT : Nat
  pos : 0 < minTicks

inductive Place where
  | running
  /-- `testAndQueue()` returned true; next is to clear `m_ackPending`. -/
  | queued
  /-- Next is `tickSource_.signal()` of `topLevelWait()`. -/
  | cleared
  | blocked
  /-- In the wait on a semaphore of the application, behind `applicationWait()`. -/
  | applicationBlocked
  | exited
  deriving DecidableEq

/-- The members of the `SimTick` object of a thread, and the count of its semaphore. -/
structure Thread where
  place : Place
  curTicks : Nat
  ackPending : Bool
  waiter : Nat
  deriving DecidableEq

/-- Where the tick source is in `advance()`, with its `numTicks`. -/
inductive Source where
  | idle
  | draining (numTicks : Nat)
  /-- Next is the critical section. -/
  | updating (numTicks : Nat)
  | collecting (numTicks waiters : Nat)
  deriving DecidableEq

/-- The simulation.  The last three fields record the ticks requested and elapsed so far, and which
threads were woken for the current tick and have not completed it. -/
structure State (τ : Type) where
  milliseconds : Nat
  seconds : Nat
  remainingTicks : Nat
  tickSource : Nat
  waiters : List τ
  thread : τ → Thread
  source : Source
  requested : Nat
  elapsed : Nat
  busy : List τ

/-- Threads that have begun at any time, each with the tick count of that time. -/
def State.start {τ : Type} (curTicks : τ → Nat) : State τ :=
  { milliseconds := 0
    seconds := 0
    remainingTicks := 0
    tickSource := 0
    waiters := []
    thread := fun t => { place := .running, curTicks := curTicks t, ackPending := false, waiter := 0 }
    source := .idle
    requested := 0
    elapsed := 0
    busy := [] }

inductive Action (τ : Type) where
  /-- `topLevelWait()` up to the end of `testAndQueue()`. -/
  | topLevelWait (t : τ)
  | clearAck (t : τ)
  | signal (t : τ)
  | waitInRealTime (t : τ)
  | applicationWait (t : τ)
  /-- The semaphore of the application is signaled. -/
  | resume (t : τ)
  | onThreadExit (t : τ)
  | advance (numTicks : Nat)
  /-- The next section or semaphore operation of `advance()`. -/
  | tick

section Steps

variable {τ : Type} [DecidableEq τ]

def setThread (s : State τ) (t : τ) (x : Thread) : State τ :=
  { s with thread := Function.update s.thread t x }

def testAndQueue (s : State τ) (t : τ) : State τ :=
  if (s.thread t).curTicks = s.milliseconds then
    { setThread s t { s.thread t with place := .queued } with waiters := s.waiters ++ [t] }
  else setThread s t { s.thread t with curTicks := s.milliseconds }

/-- `applicationWait()` and `onThreadExit_()`: the thread acknowledges the tick if that is
pending. -/
def acknowledge (s : State τ) (t : τ) (place : Place) : State τ :=
  { setThread s t { s.thread t with place := place, ackPending := false } with
    tickSource := if (s.thread t).ackPending then s.tickSource + 1 else s.tickSource
    busy := s.busy.erase t }

/-- `tickSource_.signal()` of `topLevelWait()`.  The thread has completed the tick if it is still
waiting for the next one. -/
def signal (s : State τ) (t : τ) : State τ :=
  { setThread s t { s.thread t with place := .blocked } with
    tickSource := s.tickSource + 1
    busy := if t ∈ s.waiters then s.busy.erase t else s.busy }

/-- `wakeUpWaiters()`: the number of waiters, and the threads. -/
def wakeUpWaiters (thread : τ → Thread) : List τ → Nat × (τ → Thread)
  | [] => (0, thread)
  | t :: rest =>
      let woken :=
        Function.update thread t
          { thread t with ackPending := true, waiter := (thread t).waiter + 1 }
      ((wakeUpWaiters woken rest).1 + 1, (wakeUpWaiters woken rest).2)

/-- The condition of the loop of `advance()`, and its end. -/
def next (o : Options) (s : State τ) (numTicks : Nat) : State τ :=
  if o.minTicks ≤ numTicks then { s with source := .draining (numTicks - o.minTicks) }
  else { s with source := .idle, remainingTicks := numTicks }

def advance (o : Options) (s : State τ) (numTicks : Nat) : State τ :=
  next o { s with requested := s.requested + numTicks }
    ((numTicks + s.remainingTicks) % o.sizeT)

/-- The critical section of `advance()`. -/
def update (o : Options) (s : State τ) (numTicks : Nat) : State τ :=
  let milliseconds := (s.milliseconds + o.minTicks) % o.sizeT
  { s with
    milliseconds := milliseconds
    seconds := milliseconds / 1000
    thread := (wakeUpWaiters s.thread s.waiters).2
    waiters := []
    source := .collecting numTicks (wakeUpWaiters s.thread s.waiters).1
    elapsed := s.elapsed + o.minTicks
    busy := s.waiters }

def tick (o : Options) (s : State τ) : Option (State τ) :=
  match s.source with
  | .idle => none
  | .draining numTicks =>
      match s.tickSource with
      | 0 => some { s with source := .updating numTicks }
      | count + 1 => some { s with tickSource := count }
  | .updating numTicks => some (update o s numTicks)
  | .collecting numTicks 0 => some (next o s numTicks)
  | .collecting numTicks (waiters + 1) =>
      match s.tickSource with
      | 0 => none
      | count + 1 =>
          some { s with tickSource := count, source := .collecting numTicks waiters }

/-- What a thread does from a place. -/
def fromPlace (s : State τ) (t : τ) (place : Place) (s' : State τ) : Option (State τ) :=
  if (s.thread t).place = place then some s' else none

def step (o : Options) (s : State τ) : Action τ → Option (State τ)
  | .topLevelWait t => fromPlace s t .running (testAndQueue s t)
  | .clearAck t =>
      fromPlace s t .queued
        (setThread s t { s.thread t with place := .cleared, ackPending := false })
  | .signal t => fromPlace s t .cleared (SimTick.signal s t)
  | .waitInRealTime t =>
      match (s.thread t).waiter with
      | 0 => none
      | count + 1 =>
          fromPlace s t .blocked
            (setThread s t { s.thread t with place := .running, waiter := count })
  | .applicationWait t => fromPlace s t .running (acknowledge s t .applicationBlocked)
  | .resume t =>
      fromPlace s t .applicationBlocked (setThread s t { s.thread t with place := .running })
  | .onThreadExit t => fromPlace s t .running (acknowledge s t .exited)
  | .advance numTicks =>
      match s.source with
      | .idle => some (SimTick.advance o s numTicks)
      | _ => none
  | .tick => SimTick.tick o s

/-- The tick source has drained the semaphore and counts the acknowledgements of a tick. -/
def Source.counting : Source → Bool
  | .updating _ => true
  | .collecting _ _ => true
  | _ => false

/-- While acknowledgements are counted, `topLevelWait()` signals for threads only that still owe
theirs and wait for the next tick; and the ticks of a call fit in a `size_t` with the remaining
ones. -/
def SignalsOwed (o : Options) (s : State τ) : Action τ → Prop
  | .signal t => s.source.counting = true → t ∈ s.busy ∧ t ∈ s.waiters
  | .advance numTicks => numTicks + s.remainingTicks < o.sizeT
  | _ => True

instance (o : Options) (s : State τ) : ∀ action, Decidable (SignalsOwed o s action)
  | .topLevelWait _ => .isTrue trivial
  | .clearAck _ => .isTrue trivial
  | .signal t =>
      inferInstanceAs (Decidable (s.source.counting = true → t ∈ s.busy ∧ t ∈ s.waiters))
  | .waitInRealTime _ => .isTrue trivial
  | .applicationWait _ => .isTrue trivial
  | .resume _ => .isTrue trivial
  | .onThreadExit _ => .isTrue trivial
  | .advance numTicks => inferInstanceAs (Decidable (numTicks + s.remainingTicks < o.sizeT))
  | .tick => .isTrue trivial

/-- Between ticks, every thread woken for the last one has completed it; and between calls of
`advance()`, the time has grown by the largest multiple of the minimum step that was requested. -/
structure Synchronised (o : Options) (s : State τ) : Prop where
  completed : (∀ numTicks waiters, s.source ≠ .collecting numTicks waiters) → s.busy = []
  time : s.source = .idle →
    s.milliseconds = o.minTicks * (s.requested / o.minTicks) % o.sizeT

/-- What holds of a thread in a place, whether it is among the waiters and whether it owes its
acknowledgement. -/
def Placed (listed owing : Prop) (x : Thread) : Prop :=
  match x.place with
  | .running => ¬listed ∧ x.waiter = 0 ∧ (x.ackPending = true ↔ owing)
  -- a thread that is woken before it has signaled is not listed any more
  | .queued => listed ∧ x.waiter = 0 ∨ ¬listed ∧ owing
  | .cleared => listed ∧ x.waiter = 0 ∨ ¬listed ∧ owing
  | .blocked =>
      listed ∧ x.waiter = 0 ∧ ¬owing ∨ ¬listed ∧ x.waiter = 1 ∧ x.ackPending = true ∧ owing
  | .applicationBlocked => ¬listed ∧ x.waiter = 0 ∧ x.ackPending = false ∧ ¬owing
  | .exited => ¬listed ∧ ¬owing

/-- What holds of the signals and of the acknowledgements that are owed. -/
def Counted (tickSource owed : Nat) : Source → Prop
  | .idle => owed = 0
  | .draining _ => owed = 0
  | .updating _ => tickSource = 0 ∧ owed = 0
  | .collecting _ waiters => tickSource + owed = waiters

/-- The ticks of `advance()` that are still to elapse. -/
def Source.ticks (minTicks remainingTicks : Nat) : Source → Nat
  | .idle => remainingTicks
  | .draining numTicks => numTicks + minTicks
  | .updating numTicks => numTicks + minTicks
  | .collecting numTicks _ => numTicks

structure Inv (o : Options) (s : State τ) : Prop where
  waiters : s.waiters.Nodup
  busy : s.busy.Nodup
  placed : ∀ t, Placed (t ∈ s.waiters) (t ∈ s.busy) (s.thread t)
  counted : Counted s.tickSource s.busy.length s.source
  milliseconds : s.milliseconds = s.elapsed % o.sizeT
  elapsed : o.minTicks ∣ s.elapsed
  requested : s.elapsed + s.source.ticks o.minTicks s.remainingTicks = s.requested
  remaining : s.source = .idle → s.remainingTicks < o.minTicks

omit [DecidableEq τ] in
theorem inv_start {o : Options} (curTicks : τ → Nat) : Inv o (State.start curTicks) := by
  refine ⟨.nil, .nil, fun t => ?_, rfl, (Nat.zero_mod _).symm, Nat.dvd_zero _, rfl, fun _ => o.pos⟩
  exact ⟨List.not_mem_nil, rfl, iff_of_false Bool.false_ne_true List.not_mem_nil⟩

variable {o : Options} {s s' : State τ} {t : τ} {action : Action τ}

omit [DecidableEq τ] in
theorem of_fromPlace {place : Place} {next : State τ}
    (hstep : fromPlace s t place next = some s') : (s.thread t).place = place ∧ s' = next := by
  rw [fromPlace] at hstep
  split_ifs at hstep with hplace
  exact ⟨hplace, (Option.some.inj hstep).symm⟩

omit [DecidableEq τ] in
/-- Acknowledgements are owed only while they are collected. -/
theorem Inv.collecting (h : Inv o s) (ht : t ∈ s.busy) :
    ∃ numTicks waiters, s.source = .collecting numTicks waiters := by
  have hcounted := h.counted
  have hpos := List.length_pos_of_mem ht
  cases hsource : s.source with
  | idle =>
      rw [hsource] at hcounted
      exact absurd hcounted (Nat.ne_of_gt hpos)
  | draining numTicks =>
      rw [hsource] at hcounted
      exact absurd hcounted (Nat.ne_of_gt hpos)
  | updating numTicks =>
      rw [hsource] at hcounted
      exact absurd hcounted.2 (Nat.ne_of_gt hpos)
  | collecting numTicks waiters => exact ⟨numTicks, waiters, rfl⟩

theorem Inv.setThread (h : Inv o s) {x : Thread}
    (hplaced : Placed (t ∈ s.waiters) (t ∈ s.busy) x) : Inv o (setThread s t x) := by
  refine ⟨h.waiters, h.busy, fun u => ?_, h.counted, h.milliseconds, h.elapsed, h.requested,
    h.remaining⟩
  show Placed (u ∈ s.waiters) (u ∈ s.busy) (Function.update s.thread t x u)
  rcases eq_or_ne u t with rfl | hne
  · rwa [Function.update_self]
  · rw [Function.update_of_ne hne]
    exact h.placed u

theorem inv_testAndQueue (h : Inv o s) (hplace : (s.thread t).place = .running) :
    Inv o (testAndQueue s t) := by
  have hplaced := h.placed t
  simp only [Placed, hplace] at hplaced
  obtain ⟨hlisted, hwaiter, hack⟩ := hplaced
  rw [testAndQueue]
  split_ifs
  · refine ⟨?_, h.busy, fun u => ?_, h.counted, h.milliseconds, h.elapsed, h.requested,
      h.remaining⟩
    · exact List.nodup_append_comm.mp (List.nodup_cons.mpr ⟨hlisted, h.waiters⟩)
    · show Placed (u ∈ s.waiters ++ [t]) (u ∈ s.busy) (Function.update s.thread t _ u)
      rw [List.mem_append, List.mem_singleton]
      rcases eq_or_ne u t with rfl | hne
      · rw [Function.update_self]
        exact .inl ⟨.inr rfl, hwaiter⟩
      · rw [Function.update_of_ne hne, or_iff_left hne]
        exact h.placed u
  · refine h.setThread ?_
    simp only [Placed, hplace]
    exact ⟨hlisted, hwaiter, hack⟩

theorem inv_acknowledge (h : Inv o s) (hplace : (s.thread t).place = .running) {place : Place}
    (hend : place = .applicationBlocked ∨ place = .exited) : Inv o (acknowledge s t place) := by
  have hplaced := h.placed t
  simp only [Placed, hplace] at hplaced
  obtain ⟨hlisted, hwaiter, hack⟩ := hplaced
  refine ⟨h.waiters, h.busy.erase t, fun u => ?_, ?_, h.milliseconds, h.elapsed, h.requested,
    h.remaining⟩
  · show Placed (u ∈ s.waiters) (u ∈ s.busy.erase t) (Function.update s.thread t _ u)
    rcases eq_or_ne u t with rfl | hne
    · rw [Function.update_self]
      have hdone : u ∉ s.busy.erase u := h.busy.not_mem_erase
      rcases hend with rfl | rfl
      · exact ⟨hlisted, hwaiter, rfl, hdone⟩
      · exact ⟨hlisted, hdone⟩
    · rw [Function.update_of_ne hne, List.mem_erase_of_ne hne]
      exact h.placed u
  · show Counted (if (s.thread t).ackPending then s.tickSource + 1 else s.tickSource)
      (s.busy.erase t).length s.source
    split_ifs with hpending
    · have howing := hack.mp hpending
      obtain ⟨numTicks, waiters, hsource⟩ := h.collecting howing
      have hcounted := h.counted
      have hpos := List.length_pos_of_mem howing
      rw [hsource] at hcounted ⊢
      rw [Counted] at hcounted ⊢
      rw [List.length_erase_of_mem howing]
      omega
    · rw [List.erase_of_not_mem fun howing => hpending (hack.mpr howing)]
      exact h.counted

theorem inv_signal (h : Inv o s) (hplace : (s.thread t).place = .cleared)
    (hallowed : SignalsOwed o s (.signal t)) : Inv o (signal s t) := by
  have hplaced := h.placed t
  simp only [Placed, hplace] at hplaced
  -- a thread that was woken before it signals owes, so acknowledgements are collected
  have hlisted : t ∈ s.waiters ∧ (s.thread t).waiter = 0 := by
    rcases hplaced with hlisted | ⟨hlisted, howing⟩
    · exact hlisted
    · obtain ⟨numTicks, waiters, hsource⟩ := h.collecting howing
      exact absurd (hallowed (by rw [hsource]; rfl)).2 hlisted
  obtain ⟨hmem, hwaiter⟩ := hlisted
  refine ⟨h.waiters, ?_, fun u => ?_, ?_, h.milliseconds, h.elapsed, h.requested, h.remaining⟩
  · show (if t ∈ s.waiters then s.busy.erase t else s.busy).Nodup
    rw [if_pos hmem]
    exact h.busy.erase t
  · show Placed (u ∈ s.waiters) (u ∈ if t ∈ s.waiters then s.busy.erase t else s.busy)
      (Function.update s.thread t _ u)
    rw [if_pos hmem]
    rcases eq_or_ne u t with rfl | hne
    · rw [Function.update_self]
      exact .inl ⟨hmem, hwaiter, h.busy.not_mem_erase⟩
    · rw [Function.update_of_ne hne, List.mem_erase_of_ne hne]
      exact h.placed u
  · show Counted (s.tickSource + 1)
      (if t ∈ s.waiters then s.busy.erase t else s.busy).length s.source
    rw [if_pos hmem]
    have hcounted := h.counted
    cases hsource : s.source with
    | idle =>
        rw [hsource] at hcounted
        rw [List.eq_nil_of_length_eq_zero hcounted]
        rfl
    | draining numTicks =>
        rw [hsource] at hcounted
        rw [List.eq_nil_of_length_eq_zero hcounted]
        rfl
    | updating numTicks =>
        have howing := (hallowed (by rw [hsource]; rfl)).1
        obtain ⟨numTicks', waiters, hcollecting⟩ := h.collecting howing
        cases hsource.symm.trans hcollecting
    | collecting numTicks waiters =>
        have howing := (hallowed (by rw [hsource]; rfl)).1
        have hpos := List.length_pos_of_mem howing
        rw [hsource, Counted] at hcounted
        rw [Counted, List.length_erase_of_mem howing]
        omega

theorem wakeUpWaiters_spec {waiters : List τ} (hnodup : waiters.Nodup) (thread : τ → Thread) :
    (wakeUpWaiters thread waiters).1 = waiters.length ∧
      ∀ u, (wakeUpWaiters thread waiters).2 u =
        if u ∈ waiters then
          { thread u with ackPending := true, waiter := (thread u).waiter + 1 }
        else thread u := by
  induction waiters generalizing thread with
  | nil => exact ⟨rfl, fun _ => rfl⟩
  | cons t rest ih =>
      obtain ⟨hnot, hrest⟩ := List.nodup_cons.mp hnodup
      obtain ⟨hcount, hthread⟩ := ih hrest (Function.update thread t
        { thread t with ackPending := true, waiter := (thread t).waiter + 1 })
      refine ⟨congrArg (· + 1) hcount, fun u => (hthread u).trans ?_⟩
      rcases eq_or_ne u t with rfl | hne
      · rw [if_neg hnot, if_pos List.mem_cons_self, Function.update_self]
      · rw [Function.update_of_ne hne]
        exact if_congr (by rw [List.mem_cons, or_iff_right hne]) rfl rfl

theorem inv_update (h : Inv o s) {numTicks : Nat} (hsource : s.source = .updating numTicks) :
    Inv o (update o s numTicks) := by
  obtain ⟨hcount, hthread⟩ := wakeUpWaiters_spec h.waiters s.thread
  have hcounted := h.counted
  rw [hsource] at hcounted
  obtain ⟨hsignals, hnone⟩ := hcounted
  have hbusy := List.eq_nil_of_length_eq_zero hnone
  refine ⟨.nil, h.waiters, fun u => ?_, ?_, ?_, ?_, ?_, by rintro ⟨⟩⟩
  · show Placed (u ∈ []) (u ∈ s.waiters) ((wakeUpWaiters s.thread s.waiters).2 u)
    have hplaced := h.placed u
    rw [hbusy] at hplaced
    have hnil : ¬u ∈ ([] : List τ) := List.not_mem_nil
    rw [hthread]
    split_ifs with hmem
    · cases hplace : (s.thread u).place with
      | running =>
          simp only [Placed, hplace] at hplaced
          exact absurd hmem hplaced.1
      | queued =>
          simp only [Placed, hplace]
          exact .inr ⟨hnil, hmem⟩
      | cleared =>
          simp only [Placed, hplace]
          exact .inr ⟨hnil, hmem⟩
      | blocked =>
          simp only [Placed, hplace] at hplaced ⊢
          rcases hplaced with ⟨-, hwaiter, -⟩ | ⟨-, -, -, howing⟩
          · exact .inr ⟨hnil, by rw [hwaiter], trivial, hmem⟩
          · exact absurd howing hnil
      | applicationBlocked =>
          simp only [Placed, hplace] at hplaced
          exact absurd hmem hplaced.1
      | exited =>
          simp only [Placed, hplace] at hplaced
          exact absurd hmem hplaced.1
    · simp only [iff_false_intro hmem, iff_false_intro hnil] at hplaced ⊢
      exact hplaced
  · show s.tickSource + s.waiters.length = (wakeUpWaiters s.thread s.waiters).1
    rw [hcount, hsignals, Nat.zero_add]
  · show (s.milliseconds + o.minTicks) % o.sizeT = (s.elapsed + o.minTicks) % o.sizeT
    rw [h.milliseconds, Nat.mod_add_mod]
  · exact Nat.dvd_add h.elapsed (Nat.dvd_refl _)
  · have hrequested := h.requested
    rw [hsource] at hrequested
    show s.elapsed + o.minTicks + numTicks = s.requested
    rw [← hrequested, Source.ticks]
    omega

omit [DecidableEq τ] in
/-- A tick is complete, and `numTicks` of those requested are left. -/
theorem inv_next {numTicks : Nat} (hwaiters : s.waiters.Nodup) (hnone : s.busy = [])
    (hplaced : ∀ t, Placed (t ∈ s.waiters) (t ∈ s.busy) (s.thread t))
    (hmilliseconds : s.milliseconds = s.elapsed % o.sizeT) (helapsed : o.minTicks ∣ s.elapsed)
    (hrequested : s.elapsed + numTicks = s.requested) : Inv o (next o s numTicks) := by
  have hlength : s.busy.length = 0 := by rw [hnone, List.length_nil]
  have hbusy : s.busy.Nodup := hnone ▸ .nil
  rw [next]
  split_ifs with hmore
  · refine ⟨hwaiters, hbusy, hplaced, hlength, hmilliseconds, helapsed, ?_, by rintro ⟨⟩⟩
    show s.elapsed + (numTicks - o.minTicks + o.minTicks) = s.requested
    rw [Nat.sub_add_cancel hmore, hrequested]
  · exact ⟨hwaiters, hbusy, hplaced, hlength, hmilliseconds, helapsed, hrequested,
      fun _ => Nat.lt_of_not_le hmore⟩

omit [DecidableEq τ] in
theorem inv_advance (h : Inv o s) (hsource : s.source = .idle) {numTicks : Nat}
    (hfits : numTicks + s.remainingTicks < o.sizeT) : Inv o (advance o s numTicks) := by
  have hcounted := h.counted
  have hrequested := h.requested
  rw [hsource] at hcounted hrequested
  have hnone := List.eq_nil_of_length_eq_zero hcounted
  rw [advance, Nat.mod_eq_of_lt hfits]
  refine inv_next h.waiters hnone h.placed h.milliseconds h.elapsed ?_
  show s.elapsed + (numTicks + s.remainingTicks) = s.requested + numTicks
  rw [← hrequested, Source.ticks]
  omega

theorem inv_tick (h : Inv o s) (hstep : tick o s = some s') : Inv o s' := by
  have hcounted := h.counted
  have hrequested := h.requested
  rw [tick] at hstep
  cases hsource : s.source with
  | idle =>
      rw [hsource] at hstep
      cases hstep
  | draining numTicks =>
      simp only [hsource] at hstep
      rw [hsource] at hcounted hrequested
      split at hstep
      · rename_i hdrained
        obtain rfl := Option.some.inj hstep
        exact ⟨h.waiters, h.busy, h.placed, ⟨hdrained, hcounted⟩, h.milliseconds, h.elapsed,
          hrequested, by rintro ⟨⟩⟩
      · obtain rfl := Option.some.inj hstep
        exact ⟨h.waiters, h.busy, h.placed, hcounted, h.milliseconds, h.elapsed, hrequested,
          by rintro ⟨⟩⟩
  | updating numTicks =>
      simp only [hsource] at hstep
      obtain rfl := Option.some.inj hstep
      exact inv_update h hsource
  | collecting numTicks waiters =>
      rw [hsource] at hcounted hrequested
      cases waiters with
      | zero =>
          simp only [hsource] at hstep
          obtain rfl := Option.some.inj hstep
          have hnone := List.eq_nil_of_length_eq_zero (Nat.eq_zero_of_add_eq_zero_left hcounted)
          exact inv_next h.waiters hnone h.placed h.milliseconds h.elapsed hrequested
      | succ waiters =>
          simp only [hsource] at hstep
          split at hstep
          · cases hstep
          · rename_i count hcount
            obtain rfl := Option.some.inj hstep
            refine ⟨h.waiters, h.busy, h.placed, ?_, h.milliseconds, h.elapsed, hrequested,
              by rintro ⟨⟩⟩
            rw [Counted, hcount] at hcounted
            show count + s.busy.length = waiters
            omega

theorem inv_waitInRealTime (h : Inv o s)
    (hstep : step o s (.waitInRealTime t) = some s') : Inv o s' := by
  rw [step] at hstep
  split at hstep
  · cases hstep
  · rename_i count hcount
    obtain ⟨hplace, rfl⟩ := of_fromPlace hstep
    have hplaced := h.placed t
    simp only [Placed, hplace] at hplaced
    refine h.setThread ?_
    rcases hplaced with ⟨-, hzero, -⟩ | ⟨hlisted, hone, hack, howing⟩
    · cases hcount.symm.trans hzero
    · exact ⟨hlisted, Nat.succ.inj (hcount.symm.trans hone), iff_of_true hack howing⟩

theorem inv_step (h : Inv o s) (hallowed : SignalsOwed o s action)
    (hstep : step o s action = some s') : Inv o s' := by
  cases action with
  | topLevelWait t =>
      obtain ⟨hplace, rfl⟩ := of_fromPlace hstep
      exact inv_testAndQueue h hplace
  | clearAck t =>
      obtain ⟨hplace, rfl⟩ := of_fromPlace hstep
      have hplaced := h.placed t
      simp only [Placed, hplace] at hplaced
      exact h.setThread hplaced
  | signal t =>
      obtain ⟨hplace, rfl⟩ := of_fromPlace hstep
      exact inv_signal h hplace hallowed
  | waitInRealTime t => exact inv_waitInRealTime h hstep
  | applicationWait t =>
      obtain ⟨hplace, rfl⟩ := of_fromPlace hstep
      exact inv_acknowledge h hplace (.inl rfl)
  | resume t =>
      obtain ⟨hplace, rfl⟩ := of_fromPlace hstep
      have hplaced := h.placed t
      simp only [Placed, hplace] at hplaced
      obtain ⟨hlisted, hwaiter, hack, howing⟩ := hplaced
      refine h.setThread ⟨hlisted, hwaiter, iff_of_false ?_ howing⟩
      exact fun hpending => Bool.false_ne_true (hack.symm.trans hpending)
  | onThreadExit t =>
      obtain ⟨hplace, rfl⟩ := of_fromPlace hstep
      exact inv_acknowledge h hplace (.inr rfl)
  | advance numTicks =>
      rw [step] at hstep
      split at hstep
      · rename_i hsource
        obtain rfl := Option.some.inj hstep
        exact inv_advance h hsource hallowed
      · cases hstep
  | tick => exact inv_tick h hstep

omit [DecidableEq τ] in
theorem Inv.synchronised (h : Inv o s) : Synchronised o s := by
  have hcounted := h.counted
  have hrequested := h.requested
  constructor
  · intro hnot
    cases hsource : s.source with
    | idle =>
        rw [hsource] at hcounted
        exact List.eq_nil_of_length_eq_zero hcounted
    | draining numTicks =>
        rw [hsource] at hcounted
        exact List.eq_nil_of_length_eq_zero hcounted
    | updating numTicks =>
        rw [hsource] at hcounted
        exact List.eq_nil_of_length_eq_zero hcounted.2
    | collecting numTicks waiters => exact absurd hsource (hnot numTicks waiters)
  · intro hsource
    have hremaining := h.remaining hsource
    obtain ⟨ticks, hticks⟩ := h.elapsed
    rw [hsource] at hrequested
    have hdiv : s.requested / o.minTicks = ticks := by
      rw [← hrequested, Source.ticks, hticks, Nat.mul_add_div o.pos, Nat.div_eq_of_lt hremaining,
        Nat.add_zero]
    rw [h.milliseconds, hdiv, hticks]

/-- The barrier holds in every run in which the signals that are counted are owed. -/
theorem synchronised_of_signalsOwed {curTicks : τ → Nat} {actions : List (Action τ)}
    (howed : AllSteps (step o) (SignalsOwed o) (State.start curTicks) actions)
    (hrun : run (step o) (State.start curTicks) actions = some s) : Synchronised o s :=
  (invariant (fun _ _ _ h hallowed hstep => inv_step h hallowed hstep) (inv_start curTicks) howed
    hrun).synchronised

end Steps

/-- The default minimum step, and a `size_t` of 64 bits. -/
def testOptions : Options :=
  { minTicks := 10, sizeT := 18446744073709551616, pos := Nat.succ_pos 9 }

def firstTick : List (Action Bool) :=
  [.topLevelWait true, .clearAck true, .signal true, .topLevelWait false, .clearAck false,
    .signal false, .advance 15, .tick, .tick, .tick, .tick, .waitInRealTime true,
    .waitInRealTime false]

theorem synchronised_firstTick :
    ∃ s, run (step testOptions) (State.start fun _ => 0)
        (firstTick ++ [.applicationWait true, .onThreadExit false, .tick, .tick, .tick]) = some s ∧
      s.source = .idle ∧ s.milliseconds = 10 ∧ Synchronised testOptions s := by
  have howed : AllSteps (step testOptions) (SignalsOwed testOptions) (State.start fun _ => 0)
      (firstTick ++ [.applicationWait true, .onThreadExit false, .tick, .tick, .tick]) := by
    decide
  exact ⟨_, rfl, rfl, rfl, synchronised_of_signalsOwed howed rfl⟩

/-- One of the threads waits on a semaphore of the application and then for the next tick: its two
signals end the tick, which the other thread has not completed. -/
theorem not_synchronised_two_signals : ¬∀ (o : Options) (curTicks : Bool → Nat)
    (actions : List (Action Bool)) (s : State Bool),
    run (step o) (State.start curTicks) actions = some s → Synchronised o s := by
  intro hall
  have hcompleted := (hall testOptions (fun _ => 0) (firstTick ++
    [.applicationWait true, .resume true, .topLevelWait true, .topLevelWait true, .clearAck true,
      .signal true, .tick, .tick, .tick]) _ rfl).completed (by rintro _ _ ⟨⟩)
  exact absurd hcompleted (by decide)

end ColonyPico.System.SimTick
