import ColonyPico.Foundations.DeltaList
import ColonyPico.System.ElapsedTime
import Mathlib.Tactic.SplitIfs

/-!
The software timers of a thread (`Cpl::System::TimerManager` and `Cpl::System::Timer`).
-/

namespace ColonyPico.System.TimerManager

open ColonyPico.Foundations.DeltaList
open ColonyPico.System.ElapsedTime

/-- A timer in one of the manager's lists. -/
structure Counter (τ : Type) where
  timer : τ
  count : UInt32
  deriving DecidableEq, Repr

namespace Counter

variable {τ : Type}

def decrement (c : Counter τ) (milliseconds : UInt32) : Counter τ :=
  { c with count := c.count - milliseconds }

def increment (c : Counter τ) (milliseconds : UInt32) : Counter τ :=
  { c with count := c.count + milliseconds }

@[simp] theorem timer_decrement (c : Counter τ) (milliseconds : UInt32) :
    (c.decrement milliseconds).timer = c.timer := rfl

theorem toNat_decrement (c : Counter τ) {milliseconds : UInt32} (h : milliseconds ≤ c.count) :
    (c.decrement milliseconds).count.toNat + milliseconds.toNat = c.count.toNat := by
  rw [decrement, UInt32.toNat_sub_of_le _ _ h]
  have hle := UInt32.le_iff_toNat_le.mp h
  omega

theorem toNat_increment (c : Counter τ) {milliseconds : UInt32}
    (h : c.count.toNat + milliseconds.toNat < 2 ^ 32) :
    (c.increment milliseconds).count.toNat = c.count.toNat + milliseconds.toNat := by
  rw [increment, UInt32.toNat_add, Nat.mod_eq_of_lt h]

end Counter

/-- The deadlines of a list of counters, when the first one counts from `base`. -/
abbrev deadlines {τ : Type} (base : Nat) (cs : List (Counter τ)) : List (τ × Nat) :=
  schedule Counter.timer (fun c => c.count.toNat) base cs

theorem deadlines_cons {τ : Type} (base : Nat) (c : Counter τ) (cs : List (Counter τ)) :
    deadlines base (c :: cs) =
      (c.timer, base + c.count.toNat) :: deadlines (base + c.count.toNat) cs := rfl

theorem map_fst_deadlines {τ : Type} (base : Nat) (cs : List (Counter τ)) :
    (deadlines base cs).map Prod.fst = cs.map Counter.timer :=
  map_fst_schedule _ _ _ _

/-- The manager's members. -/
structure Manager (τ : Type) where
  counters : List (Counter τ)
  pendingAttach : List (Counter τ)
  timeMark : UInt32
  timeNow : UInt32
  inTickCall : Bool
  deriving DecidableEq, Repr

variable {τ : Type}

/-- `TimerManager()`. -/
def Manager.init : Manager τ :=
  { counters := [], pendingAttach := [], timeMark := 0, timeNow := 0, inTickCall := false }

def startManager (m : Manager τ) (now : UInt32) : Manager τ :=
  { m with timeMark := now }

def addToActiveList (client : Counter τ) : List (Counter τ) → List (Counter τ)
  | [] => [client]
  | c :: cs =>
      if client.count < c.count then client :: c.decrement client.count :: cs
      else
        let client := client.decrement c.count
        if client.count = 0 then c :: client :: cs else c :: addToActiveList client cs

def attach (m : Manager τ) (client : Counter τ) : Manager τ :=
  if m.inTickCall then { m with pendingAttach := m.pendingAttach ++ [client] }
  else { m with counters := addToActiveList client m.counters }

section Detach

variable [DecidableEq τ]

/-- The remaining time of a removed counter goes to the next one. -/
def incrementNext (count : UInt32) : List (Counter τ) → List (Counter τ)
  | [] => []
  | next :: rest => next.increment count :: rest

/-- The active list without a timer. -/
def removeFromActiveList (timer : τ) : List (Counter τ) → List (Counter τ)
  | [] => []
  | c :: cs =>
      if c.timer = timer then incrementNext c.count cs
      else c :: removeFromActiveList timer cs

def detach (m : Manager τ) (timer : τ) : Manager τ :=
  if timer ∈ m.pendingAttach.map Counter.timer then
    { m with pendingAttach := m.pendingAttach.filter fun c => c.timer ≠ timer }
  else { m with counters := removeFromActiveList timer m.counters }

def msecToCounts (m : Manager τ) (now milliseconds : UInt32) : UInt32 :=
  milliseconds + deltaMilliseconds m.timeNow now

def start (m : Manager τ) (now : UInt32) (timer : τ) (timerDurationInMilliseconds : UInt32) :
    Manager τ :=
  let detached := detach m timer
  attach detached ⟨timer, msecToCounts detached now timerDurationInMilliseconds⟩

def stop (m : Manager τ) (timer : τ) : Manager τ :=
  detach m timer

end Detach

/-- `while ( msec )` of `tick()`, up to the next callback or to its end. Nothing where it
ends; otherwise the timer whose `expired()` is called, with the milliseconds left. -/
def tickLoop (m : Manager τ) (msec : UInt32) : Manager τ × Option (τ × UInt32) :=
  if msec = 0 then (m, none)
  else
    match m.counters with
    | [] => (m, none)
    | c :: cs =>
        if msec ≤ c.count then
          if (c.decrement msec).count = 0 then ({ m with counters := cs }, some (c.timer, 0))
          else ({ m with counters := c.decrement msec :: cs }, none)
        else
          -- the counter is decremented by all of its count
          ({ m with counters := cs }, some (c.timer, msec - c.count))

/-- The rest of `tick()` when a callback returns: the inner loop over the counters that
are zero, then the outer one. -/
def resume (m : Manager τ) (msec : UInt32) : Manager τ × Option (τ × UInt32) :=
  match m.counters with
  | [] => tickLoop m msec
  | c :: cs =>
      if c.count = 0 then ({ m with counters := cs }, some (c.timer, msec))
      else tickLoop m msec

/-- `tick()`, up to the first callback. -/
def tick (m : Manager τ) (msec : UInt32) : Manager τ × Option (τ × UInt32) :=
  tickLoop { m with inTickCall := true } msec

/-- `processTimers()`, up to the first callback. -/
def processTimers (m : Manager τ) (now : UInt32) :
    Manager τ × Option (τ × UInt32) :=
  let m := { m with timeNow := now }
  tick m (deltaMilliseconds m.timeMark m.timeNow)

/-- The end of `processTimers()` with `tickComplete()`. -/
def tickComplete (m : Manager τ) : Manager τ :=
  { m with
    timeMark := m.timeNow
    counters := m.pendingAttach.foldl (fun cs client => addToActiveList client cs) m.counters
    pendingAttach := []
    inTickCall := false }

/-- Adding a counter schedules it at its own count and keeps the others' deadlines. -/
theorem deadlines_addToActiveList (base : Nat) (client : Counter τ) (cs : List (Counter τ)) :
    (deadlines base (addToActiveList client cs)).Perm
      ((client.timer, base + client.count.toNat) :: deadlines base cs) := by
  induction cs generalizing base client with
  | nil => exact List.Perm.refl _
  | cons c cs ih =>
      simp only [addToActiveList]
      split_ifs with hlt hzero
      · have hcount := c.toNat_decrement (UInt32.le_of_lt hlt)
        have hshift : deadlines (base + client.count.toNat) (c.decrement client.count :: cs) =
            deadlines base (c :: cs) := schedule_shift cs rfl hcount
        rw [deadlines_cons, hshift]
      · have hcount := client.toNat_decrement (UInt32.not_lt.mp hlt)
        rw [hzero] at hcount
        have heq : client.count.toNat = c.count.toNat := by simpa using hcount.symm
        simp only [deadlines, schedule, hzero, Counter.timer_decrement, heq, UInt32.toNat_zero,
          Nat.add_zero]
        exact List.Perm.swap _ _ _
      · have hcount := client.toNat_decrement (UInt32.not_lt.mp hlt)
        have htail := ih (base + c.count.toNat) (client.decrement c.count)
        rw [Counter.timer_decrement, Nat.add_assoc, Nat.add_comm c.count.toNat, hcount] at htail
        exact (htail.cons _).trans (List.Perm.swap _ _ _)

theorem deadlines_foldl_addToActiveList (base : Nat) (clients cs : List (Counter τ)) :
    (deadlines base (clients.foldl (fun cs client => addToActiveList client cs) cs)).Perm
      (clients.map (fun c => (c.timer, base + c.count.toNat)) ++ deadlines base cs) := by
  induction clients generalizing cs with
  | nil => exact List.Perm.refl _
  | cons client clients ih =>
      refine (ih (addToActiveList client cs)).trans ?_
      rw [List.map_cons, List.cons_append]
      exact ((deadlines_addToActiveList base client cs).append_left _).trans List.perm_middle

/-- Removing a timer keeps the others' deadlines. -/
theorem deadlines_removeFromActiveList [DecidableEq τ] (base : Nat) (timer : τ)
    (cs : List (Counter τ)) (hnodup : (cs.map Counter.timer).Nodup)
    (hlt : ∀ p ∈ deadlines base cs, p.2 < base + 2 ^ 32) :
    deadlines base (removeFromActiveList timer cs) =
      (deadlines base cs).filter fun p => p.1 ≠ timer := by
  induction cs generalizing base with
  | nil => rfl
  | cons c cs ih =>
      rw [List.map_cons, List.nodup_cons] at hnodup
      rw [removeFromActiveList]
      split_ifs with htimer
      · have hothers : ∀ p ∈ deadlines (base + c.count.toNat) cs, p.1 ≠ timer := by
          rintro p hp rfl
          rw [htimer, ← map_fst_deadlines] at hnodup
          exact hnodup.1 (List.mem_map_of_mem hp)
        have hfilter : (deadlines base (c :: cs)).filter (fun p => p.1 ≠ timer) =
            deadlines (base + c.count.toNat) cs := by
          rw [deadlines_cons, List.filter_cons_of_neg (by simpa using htimer)]
          exact List.filter_eq_self.mpr fun p hp => by simpa using hothers p hp
        rw [hfilter]
        cases cs with
        | nil => rfl
        | cons next rest =>
            have hnext := hlt (next.timer, base + c.count.toNat + next.count.toNat)
              (List.mem_cons_of_mem _ List.mem_cons_self)
            exact schedule_absorb rest rfl (next.toNat_increment (by simp only at hnext; omega))
      · have hmem : ∀ p ∈ deadlines (base + c.count.toNat) cs,
            p.2 < base + c.count.toNat + 2 ^ 32 := fun p hp =>
          (hlt p (List.mem_cons_of_mem _ hp)).trans_le (by omega)
        rw [deadlines_cons, ih _ hnodup.2 hmem, deadlines_cons,
          List.filter_cons_of_pos (by simpa using htimer)]

/-- What the loops of `tick()` leave of a list whose first counter counts from `base`
when `msec` milliseconds are to be consumed. -/
structure Ticked (m : Manager τ) (msec : UInt32) (base : Nat)
    (res : Manager τ × Option (τ × UInt32)) : Prop where
  fields : res.1 = { m with counters := res.1.counters }
  /-- A callback is for the first deadline, and time has come to it. -/
  callback : ∀ t rest, res.2 = some (t, rest) →
    ∃ base', base ≤ base' ∧ base' + rest.toNat = base + msec.toNat ∧
      deadlines base m.counters = (t, base') :: deadlines base' res.1.counters
  /-- At the end all the time is consumed. -/
  finished : res.2 = none →
    deadlines (base + msec.toNat) res.1.counters = deadlines base m.counters

theorem ticked_tickLoop (m : Manager τ) (msec : UInt32) (base : Nat) :
    Ticked m msec base (tickLoop m msec) ∧
      ((tickLoop m msec).2 = none → msec ≠ 0 →
        ∀ p ∈ deadlines base m.counters, base + msec.toNat < p.2) := by
  by_cases hzero : msec = 0
  · rw [tickLoop, if_pos hzero]
    refine ⟨⟨rfl, ?_, fun _ => ?_⟩, fun _ hne => absurd hzero hne⟩
    · rintro t rest ⟨⟩
    · rw [hzero, UInt32.toNat_zero, Nat.add_zero]
  rw [tickLoop, if_neg hzero]
  cases hcounters : m.counters with
  | nil =>
      refine ⟨⟨rfl, ?_, fun _ => ?_⟩, fun _ _ p hp => by cases hp⟩
      · rintro t rest ⟨⟩
      · simp only [hcounters]
        rfl
  | cons c cs =>
      simp only
      split_ifs with hle hcount
      · have hdec := c.toNat_decrement hle
        rw [hcount, UInt32.toNat_zero, Nat.zero_add] at hdec
        refine ⟨⟨rfl, ?_, fun hnone => by cases hnone⟩, fun hnone => by cases hnone⟩
        rintro t rest ⟨⟩
        refine ⟨base + msec.toNat, Nat.le_add_right _ _, by simp, ?_⟩
        rw [hcounters, deadlines_cons, hdec]
      · have hdec := c.toNat_decrement hle
        have hshift : deadlines (base + msec.toNat) (c.decrement msec :: cs) =
            deadlines base (c :: cs) := schedule_shift cs rfl hdec
        refine ⟨⟨rfl, ?_, fun _ => ?_⟩, fun _ _ p hp => ?_⟩
        · rintro t rest ⟨⟩
        · rw [hshift, hcounters]
        · rw [← hshift] at hp
          have hpos : (c.decrement msec).count.toNat ≠ 0 := fun h =>
            hcount (UInt32.toNat_inj.mp h)
          have hhead := head_le_of_mem_schedule hp
          omega
      · have hlt := UInt32.not_le.mp hle
        have hsub := UInt32.toNat_sub_of_le _ _ (UInt32.le_of_lt hlt)
        have hltNat := UInt32.lt_iff_toNat_lt.mp hlt
        refine ⟨⟨rfl, ?_, fun hnone => by cases hnone⟩, fun hnone => by cases hnone⟩
        rintro t rest ⟨⟩
        refine ⟨base + c.count.toNat, Nat.le_add_right _ _, by omega, ?_⟩
        rw [hcounters, deadlines_cons]

/-- After a callback no deadline that has come is left over. -/
theorem ticked_resume (m : Manager τ) (msec : UInt32) (base : Nat) :
    Ticked m msec base (resume m msec) ∧
      ((resume m msec).2 = none →
        ∀ p ∈ deadlines base m.counters, base + msec.toNat < p.2) := by
  obtain ⟨hloop, hafter⟩ := ticked_tickLoop m msec base
  rw [resume]
  split
  · rename_i hcounters
    exact ⟨hloop, fun _ p hp => by rw [hcounters] at hp; cases hp⟩
  · rename_i c cs hcounters
    split_ifs with hcount
    · refine ⟨⟨rfl, ?_, fun hnone => by cases hnone⟩, fun hnone => by cases hnone⟩
      rintro t rest ⟨⟩
      refine ⟨base, le_rfl, rfl, ?_⟩
      rw [hcounters, deadlines_cons, hcount, UInt32.toNat_zero, Nat.add_zero]
    · refine ⟨hloop, fun hnone p hp => ?_⟩
      by_cases hzero : msec = 0
      · rw [hcounters] at hp
        have hpos : c.count.toNat ≠ 0 := fun h => hcount (UInt32.toNat_inj.mp h)
        have hhead := head_le_of_mem_schedule hp
        rw [hzero, UInt32.toNat_zero]
        omega
      · exact hafter hnone hzero p hp

/-- The timers in the manager's lists. -/
def Manager.timers (m : Manager τ) : List τ :=
  (m.counters ++ m.pendingAttach).map Counter.timer

theorem map_timer_removeFromActiveList [DecidableEq τ] (timer : τ) (cs : List (Counter τ)) :
    (removeFromActiveList timer cs).map Counter.timer = (cs.map Counter.timer).erase timer := by
  induction cs with
  | nil => rfl
  | cons c cs ih =>
      rw [removeFromActiveList, List.map_cons]
      split_ifs with htimer
      · rw [htimer, List.erase_cons_head]
        cases cs with
        | nil => rfl
        | cons next rest => rfl
      · rw [List.map_cons, ih, List.erase_cons_tail (by simpa using htimer)]

theorem timers_detach [DecidableEq τ] (m : Manager τ) (timer : τ) :
    (detach m timer).timers.Sublist m.timers := by
  rw [detach, Manager.timers, Manager.timers]
  split_ifs with hpending
  · exact (List.filter_sublist.append_left _).map _
  · simp only [List.map_append, map_timer_removeFromActiveList]
    exact List.erase_sublist.append_right _

theorem timers_attach (m : Manager τ) (client : Counter τ) :
    (attach m client).timers.Perm (client.timer :: m.timers) := by
  rw [attach, Manager.timers, Manager.timers]
  split_ifs
  · rw [← List.append_assoc, List.map_append]
    exact List.perm_append_comm
  · have hadd := (deadlines_addToActiveList 0 client m.counters).map Prod.fst
    rw [map_fst_deadlines, List.map_cons, map_fst_deadlines] at hadd
    simp only [List.map_append]
    exact hadd.append_right _

theorem timers_tickComplete (m : Manager τ) : (tickComplete m).timers.Perm m.timers := by
  have hadd := (deadlines_foldl_addToActiveList 0 m.pendingAttach m.counters).map Prod.fst
  rw [map_fst_deadlines, List.map_append, List.map_map, map_fst_deadlines] at hadd
  rw [Manager.timers, Manager.timers, tickComplete, List.append_nil, List.map_append]
  exact hadd.trans List.perm_append_comm

/-- The loops of `tick()` take the timer that they call back out of its list, and no other. -/
theorem Ticked.timers {m : Manager τ} {msec : UInt32} {base : Nat}
    {res : Manager τ × Option (τ × UInt32)} (h : Ticked m msec base res) :
    m.timers = (res.2.map Prod.fst).toList ++ res.1.timers := by
  have hpending : res.1.pendingAttach = m.pendingAttach := by rw [h.fields]
  rw [Manager.timers, Manager.timers, hpending, List.map_append, List.map_append]
  cases hres : res.2 with
  | none =>
      have hsame := congrArg (List.map Prod.fst) (h.finished hres)
      rw [map_fst_deadlines, map_fst_deadlines] at hsame
      rw [hsame]
      rfl
  | some callback =>
      obtain ⟨timer, rest⟩ := callback
      obtain ⟨base', -, -, hcounters⟩ := h.callback timer rest hres
      have hfirst := congrArg (List.map Prod.fst) hcounters
      rw [map_fst_deadlines, List.map_cons, map_fst_deadlines] at hfirst
      rw [hfirst]
      rfl

end ColonyPico.System.TimerManager
