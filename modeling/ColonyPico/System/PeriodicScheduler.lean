import Mathlib.Algebra.Group.Nat.Defs
import Mathlib.Order.Nat
import Mathlib.Tactic.SplitIfs
import ColonyPico.System.ElapsedTime

/-!
The scheduler of periodic intervals (`Cpl::System::PeriodicScheduler`), with an
`unsigned long` of 32 bits.
-/

namespace ColonyPico.System.PeriodicScheduler

open ColonyPico.System.ElapsedTime

/-- `asFlatTime()`: the product is an `unsigned long`. -/
def asFlatTime (t : Precision) : Nat :=
  (t.seconds * 1000 + t.thousandths) % 2 ^ 32

def setFlatTime (flatTimeInMs : Nat) : Precision :=
  { seconds := flatTimeInMs / 1000 % 2 ^ 32, thousandths := flatTimeInMs % 1000 }

/-- `operator +=`. -/
def addTime (t x : Precision) : Precision :=
  let thousandths := (t.thousandths + x.thousandths) % 2 ^ 16
  { seconds := (t.seconds + x.seconds + thousandths / 1000) % 2 ^ 32
    thousandths := thousandths % 1000 }

structure Interval (φ γ : Type) where
  callbackFunc : φ
  context : γ
  duration : Precision
  timeMarker : Precision

/-- The calls that an execution makes. -/
inductive Event (φ γ : Type) where
  | callback (callbackFunc : φ) (currentTick currentInterval : Precision) (context : γ)
  | slippage (intervalThatSlipped : Interval φ γ) (currentTick missedInterval : Precision)

/-- The intervals before the one without a callback function. `reads` is how often the time has
been asked for. -/
structure Scheduler (φ γ : Type) where
  intervals : List (Interval φ γ)
  firstExecution : Bool
  reads : Nat

variable {φ γ : Type}

def setTimeMarker (interval : Interval φ γ) (currentTick : Precision) : Interval φ γ :=
  let duration := asFlatTime interval.duration
  if duration = 0 then { interval with timeMarker := currentTick }
  else { interval with timeMarker := setFlatTime (asFlatTime currentTick / duration * duration) }

/-- The first part of a pass of the loop of `executeScheduler()`. -/
def initializeInterval (firstExecution : Bool) (interval : Interval φ γ)
    (currentTick : Precision) : Interval φ γ :=
  if firstExecution then setTimeMarker interval currentTick else interval

/-- The rest of the pass. `reportSlippage` says that there is a function to report to. -/
def checkInterval (reportSlippage : Bool) (interval : Interval φ γ) (currentTick : Precision) :
    Interval φ γ × List (Event φ γ) :=
  if expiredPrecision interval.timeMarker interval.duration currentTick then
    let interval := { interval with timeMarker := addTime interval.timeMarker interval.duration }
    let callback := Event.callback interval.callbackFunc currentTick interval.timeMarker
      interval.context
    if expiredPrecision interval.timeMarker interval.duration currentTick then
      (setTimeMarker interval currentTick,
        callback ::
          if reportSlippage then [.slippage interval currentTick interval.timeMarker] else [])
    else (interval, [callback])
  else (interval, [])

/-- The loop of `executeScheduler()`, with the calls it makes for each interval. -/
def scan (reportSlippage firstExecution : Bool) (nowFunc : Nat → Precision) :
    Nat → List (Interval φ γ) → List (Interval φ γ × List (Event φ γ))
  | _, [] => []
  | reads, interval :: intervals =>
      let currentTick := nowFunc reads
      checkInterval reportSlippage (initializeInterval firstExecution interval currentTick)
        currentTick :: scan reportSlippage firstExecution nowFunc (reads + 1) intervals

/-- What `executeScheduler()` leaves, the calls for each interval, and what it returns. -/
structure Execution (φ γ : Type) where
  scheduler : Scheduler φ γ
  events : List (List (Event φ γ))
  atLeastOne : Bool

def executeScheduler (reportSlippage : Bool) (nowFunc : Nat → Precision) (s : Scheduler φ γ) :
    Execution φ γ :=
  let passes := scan reportSlippage s.firstExecution nowFunc s.reads s.intervals
  { scheduler :=
      { intervals := passes.map Prod.fst
        firstExecution := false
        reads := s.reads + s.intervals.length }
    events := passes.map Prod.snd
    atLeastOne := passes.any fun p => !p.2.isEmpty }

/-- A scheduler that has not been executed; the intervals may have been used before. -/
def Scheduler.start (intervals : List (Interval φ γ)) : Scheduler φ γ :=
  { intervals := intervals, firstExecution := true, reads := 0 }

/-- The scheduler before the execution `k`. -/
def schedulerAt (reportSlippage : Bool) (nowFunc : Nat → Precision)
    (intervals : List (Interval φ γ)) : Nat → Scheduler φ γ
  | 0 => .start intervals
  | k + 1 => (executeScheduler reportSlippage nowFunc
      (schedulerAt reportSlippage nowFunc intervals k)).scheduler

/-- What an execution at `now` has to leave of an interval and to call, when the one before was
at `previous`. -/
def OnTime (reportSlippage : Bool) (interval : Interval φ γ) (previous : Option Nat)
    (now : Precision) (marker : Precision) (events : List (Event φ γ)) : Prop :=
  let d := interval.duration.asFlatTime
  let boundary := now.asFlatTime / d
  marker.asFlatTime = boundary * d ∧
    match previous with
    | none => events = []
    | some previous =>
        if previous / d < boundary then
          ∃ currentInterval, currentInterval.asFlatTime = previous / d * d + d ∧
            events = .callback interval.callbackFunc now currentInterval interval.context ::
              if reportSlippage ∧ previous / d + 2 ≤ boundary then
                [.slippage { interval with timeMarker := currentInterval } now currentInterval]
              else []
        else events = []

/-- Every execution serves every interval as it has to. -/
def Scheduled (reportSlippage : Bool) (nowFunc : Nat → Precision)
    (intervals : List (Interval φ γ)) : Prop :=
  ∀ k i interval, intervals[i]? = some interval →
    let read (k : Nat) := nowFunc (k * intervals.length + i)
    let execution := executeScheduler reportSlippage nowFunc
      (schedulerAt reportSlippage nowFunc intervals k)
    ∃ after events, execution.scheduler.intervals[i]? = some after ∧
      execution.events[i]? = some events ∧
      OnTime reportSlippage interval (if k = 0 then none else some (read (k - 1)).asFlatTime)
        (read k) after.timeMarker events

/-- The times do not go back, and each is representable in milliseconds. -/
structure Clock (nowFunc : Nat → Precision) : Prop where
  mono : ∀ n m, n ≤ m → (nowFunc n).asFlatTime ≤ (nowFunc m).asFlatTime
  thousandths : ∀ n, (nowFunc n).thousandths < 1000
  representable : ∀ n, (nowFunc n).asFlatTime < 2 ^ 32

/-- The product is right for the duration, or does no harm at the time of the first execution. -/
def RoundsDown (interval : Interval φ γ) (first : Precision) : Prop :=
  interval.duration.asFlatTime < 2 ^ 32 ∨ first.asFlatTime = 0 ∨
    first.asFlatTime < asFlatTime interval.duration

/-- A period that is not zero. -/
def Periodic (interval : Interval φ γ) : Prop :=
  interval.duration.InRange ∧ 0 < interval.duration.asFlatTime

theorem asFlatTime_of_lt {t : Precision} (h : t.asFlatTime < 2 ^ 32) :
    asFlatTime t = t.asFlatTime :=
  Nat.mod_eq_of_lt h

theorem setFlatTime_spec {n : Nat} (h : n < 2 ^ 32) :
    (setFlatTime n).InRange ∧ (setFlatTime n).asFlatTime = n := by
  simp only [setFlatTime, Precision.InRange, Precision.asFlatTime]
  omega

theorem addTime_spec {t x : Precision} (ht : t.InRange) (hx : x.thousandths < 1000)
    (h : t.asFlatTime + x.asFlatTime < 2 ^ 32) :
    (addTime t x).InRange ∧ (addTime t x).asFlatTime = t.asFlatTime + x.asFlatTime := by
  obtain ⟨-, ht⟩ := ht
  simp only [Precision.asFlatTime] at h
  simp only [addTime, Precision.InRange, Precision.asFlatTime]
  omega

theorem Clock.inRange {nowFunc : Nat → Precision} (h : Clock nowFunc) (n : Nat) :
    (nowFunc n).InRange := by
  have hthousandths := h.thousandths n
  have hflat := h.representable n
  simp only [Precision.asFlatTime] at hflat
  exact ⟨by omega, hthousandths⟩

section Pass

variable {interval : Interval φ γ} {now : Precision}

/-- What `setTimeMarker()` leaves is not later than the time, and not a whole period before
it. -/
theorem setTimeMarker_spec (hperiodic : Periodic interval) (hrange : now.InRange)
    (hnow : now.asFlatTime < 2 ^ 32) :
    ∃ marker : Precision, setTimeMarker interval now = { interval with timeMarker := marker } ∧
      marker.InRange ∧ marker.asFlatTime ≤ now.asFlatTime ∧
      now.asFlatTime < marker.asFlatTime + interval.duration.asFlatTime ∧
      (marker.asFlatTime =
        now.asFlatTime / interval.duration.asFlatTime * interval.duration.asFlatTime ↔
          RoundsDown interval now) := by
  obtain ⟨-, hpos⟩ := hperiodic
  rw [setTimeMarker, asFlatTime_of_lt hnow, RoundsDown]
  rcases Nat.lt_or_ge interval.duration.asFlatTime (2 ^ 32) with hlt | hge
  · have hle := Nat.div_mul_le_self now.asFlatTime interval.duration.asFlatTime
    obtain ⟨hin, hflat⟩ := setFlatTime_spec (hle.trans_lt hnow)
    rw [asFlatTime_of_lt hlt, if_neg hpos.ne']
    refine ⟨_, rfl, hin, hflat.le.trans hle, ?_, iff_of_true hflat (.inl hlt)⟩
    rw [hflat]
    exact Nat.lt_div_mul_add hpos
  -- The period is longer than all times, so the boundary is zero.
  · have hboundary : now.asFlatTime / interval.duration.asFlatTime = 0 :=
      Nat.div_eq_of_lt (hnow.trans_le hge)
    rw [hboundary, Nat.zero_mul]
    split_ifs with hzero
    · refine ⟨now, rfl, hrange, le_rfl, by omega, ?_⟩
      rw [hzero]
      omega
    · have hle := Nat.div_mul_le_self now.asFlatTime (asFlatTime interval.duration)
      obtain ⟨hin, hflat⟩ := setFlatTime_spec (hle.trans_lt hnow)
      refine ⟨_, rfl, hin, hflat.le.trans hle, by omega, ?_⟩
      rw [hflat, Nat.mul_eq_zero, or_iff_left hzero, Nat.div_eq_zero_iff]
      omega

theorem checkInterval_of_not_expired (reportSlippage : Bool) (hperiodic : Periodic interval)
    (hmarker : interval.timeMarker.InRange) (hrange : now.InRange)
    (hle : interval.timeMarker.asFlatTime ≤ now.asFlatTime)
    (hlt : now.asFlatTime < interval.timeMarker.asFlatTime + interval.duration.asFlatTime) :
    checkInterval reportSlippage interval now = (interval, []) := by
  rw [checkInterval, if_neg]
  rw [expiredPrecision_iff _ _ _ hmarker hrange hperiodic.1.2 hle]
  exact hlt.not_ge

theorem onTime_of_passed (reportSlippage : Bool) {previous : Nat}
    {marker currentInterval : Precision}
    (hmarker : marker.asFlatTime =
      now.asFlatTime / interval.duration.asFlatTime * interval.duration.asFlatTime)
    (hpassed : previous / interval.duration.asFlatTime <
      now.asFlatTime / interval.duration.asFlatTime)
    (hcurrent : currentInterval.asFlatTime =
      previous / interval.duration.asFlatTime * interval.duration.asFlatTime +
        interval.duration.asFlatTime) :
    OnTime reportSlippage interval (some previous) now marker
      (.callback interval.callbackFunc now currentInterval interval.context ::
        if reportSlippage ∧ previous / interval.duration.asFlatTime + 2 ≤
            now.asFlatTime / interval.duration.asFlatTime then
          [.slippage { interval with timeMarker := currentInterval } now currentInterval]
        else []) := by
  refine ⟨hmarker, ?_⟩
  simp only [if_pos hpassed]
  exact ⟨currentInterval, hcurrent, rfl⟩

/-- A pass after the first execution, with the marker at the last boundary. -/
theorem checkInterval_onTime (reportSlippage : Bool) {previous : Nat}
    (hperiodic : Periodic interval) (hmarker : interval.timeMarker.InRange)
    (hflat : interval.timeMarker.asFlatTime =
      previous / interval.duration.asFlatTime * interval.duration.asFlatTime)
    (hrange : now.InRange) (hle : previous ≤ now.asFlatTime) (hnow : now.asFlatTime < 2 ^ 32) :
    ∃ marker events, checkInterval reportSlippage interval now =
        ({ interval with timeMarker := marker }, events) ∧
      marker.InRange ∧ OnTime reportSlippage interval (some previous) now marker events := by
  have hpos := hperiodic.2
  have hthousandths := hperiodic.1.2
  have hdiv := Nat.div_mul_le_self previous interval.duration.asFlatTime
  have hmono : previous / interval.duration.asFlatTime ≤
      now.asFlatTime / interval.duration.asFlatTime := Nat.div_le_div_right hle
  have hexpired := expiredPrecision_iff interval.timeMarker interval.duration now hmarker hrange
    hthousandths (by omega)
  rw [hflat, ← Nat.succ_mul, ← Nat.le_div_iff_mul_le hpos] at hexpired
  by_cases hone : expiredPrecision interval.timeMarker interval.duration now = true
  · have hpassed := hexpired.mp hone
    have hboundary : (previous / interval.duration.asFlatTime + 1) *
        interval.duration.asFlatTime ≤ now.asFlatTime := (Nat.le_div_iff_mul_le hpos).mp hpassed
    obtain ⟨hin, hadd⟩ := addTime_spec hmarker hthousandths
      (by rw [hflat, ← Nat.succ_mul]; exact hboundary.trans_lt hnow)
    rw [hflat] at hadd
    have hslipped := expiredPrecision_iff (addTime interval.timeMarker interval.duration)
      interval.duration now hin hrange hthousandths (by rw [hadd, ← Nat.succ_mul]; exact hboundary)
    rw [hadd, ← Nat.succ_mul, ← Nat.succ_mul, ← Nat.le_div_iff_mul_le hpos] at hslipped
    simp only [checkInterval, if_pos hone]
    by_cases htwo : expiredPrecision (addTime interval.timeMarker interval.duration)
        interval.duration now = true
    · have hlt : interval.duration.asFlatTime < 2 ^ 32 := by
        rw [Nat.add_mul, Nat.one_mul] at hboundary
        omega
      have hperiodic' : Periodic { interval with
          timeMarker := addTime interval.timeMarker interval.duration } := hperiodic
      obtain ⟨marker, hset, hmarker', -, -, hrounds⟩ := setTimeMarker_spec hperiodic' hrange hnow
      have honTime := onTime_of_passed reportSlippage
        (hrounds.mpr (.inl hlt)) hpassed hadd
      have hslips : previous / interval.duration.asFlatTime + 2 ≤
          now.asFlatTime / interval.duration.asFlatTime := hslipped.mp htwo
      simp only [hslips, and_true] at honTime
      rw [if_pos htwo, hset]
      exact ⟨marker, _, rfl, hmarker', honTime⟩
    · have hlast : previous / interval.duration.asFlatTime + 1 =
          now.asFlatTime / interval.duration.asFlatTime := by
        rw [hslipped] at htwo
        omega
      have hslips : ¬previous / interval.duration.asFlatTime + 2 ≤
          now.asFlatTime / interval.duration.asFlatTime := by omega
      have honTime := onTime_of_passed reportSlippage
        (by rw [hadd, ← hlast, Nat.succ_mul]) hpassed hadd
      simp only [hslips, and_false, if_false] at honTime
      rw [if_neg htwo]
      exact ⟨_, _, rfl, hin, honTime⟩
  · have hlast : previous / interval.duration.asFlatTime =
        now.asFlatTime / interval.duration.asFlatTime := by
      rw [hexpired] at hone
      omega
    rw [checkInterval, if_neg hone]
    refine ⟨interval.timeMarker, [], rfl, hmarker, ?_, ?_⟩
    · rw [hflat, hlast]
    · simp only [hlast, lt_irrefl, if_false]

theorem checkInterval_first (reportSlippage : Bool) (hperiodic : Periodic interval)
    (hrange : now.InRange) (hnow : now.asFlatTime < 2 ^ 32) :
    ∃ marker : Precision, checkInterval reportSlippage (setTimeMarker interval now) now =
        ({ interval with timeMarker := marker }, []) ∧ marker.InRange ∧
      (marker.asFlatTime =
        now.asFlatTime / interval.duration.asFlatTime * interval.duration.asFlatTime ↔
          RoundsDown interval now) := by
  obtain ⟨marker, hset, hmarker, hle, hlt, hrounds⟩ := setTimeMarker_spec hperiodic hrange hnow
  refine ⟨marker, ?_, hmarker, hrounds⟩
  have hperiodic' : Periodic { interval with timeMarker := marker } := hperiodic
  rw [hset]
  exact checkInterval_of_not_expired reportSlippage hperiodic' hmarker hrange hle hlt

end Pass

section Runs

variable (reportSlippage : Bool) (nowFunc : Nat → Precision) (intervals : List (Interval φ γ))

theorem getElem?_scan (firstExecution : Bool) (reads i : Nat) :
    (scan reportSlippage firstExecution nowFunc reads intervals)[i]? =
      intervals[i]?.map fun interval =>
        checkInterval reportSlippage
          (initializeInterval firstExecution interval (nowFunc (reads + i)))
          (nowFunc (reads + i)) := by
  induction intervals generalizing reads i with
  | nil => rfl
  | cons interval intervals ih =>
      cases i with
      | zero => rfl
      | succ i =>
          rw [scan, List.getElem?_cons_succ, List.getElem?_cons_succ, ih,
            Nat.add_assoc, Nat.add_comm 1 i]

theorem length_scan (firstExecution : Bool) (reads : Nat) :
    (scan reportSlippage firstExecution nowFunc reads intervals).length = intervals.length := by
  induction intervals generalizing reads with
  | nil => rfl
  | cons interval intervals ih => rw [scan, List.length_cons, List.length_cons, ih]

theorem schedulerAt_spec (k : Nat) :
    (schedulerAt reportSlippage nowFunc intervals k).intervals.length = intervals.length ∧
      (schedulerAt reportSlippage nowFunc intervals k).reads = k * intervals.length ∧
      (schedulerAt reportSlippage nowFunc intervals k).firstExecution = decide (k = 0) := by
  induction k with
  | zero => simp [schedulerAt, Scheduler.start]
  | succ k ih =>
      obtain ⟨hlength, hreads, -⟩ := ih
      refine ⟨?_, ?_, by simp [schedulerAt, executeScheduler]⟩
      · rw [schedulerAt, executeScheduler, List.length_map, length_scan, hlength]
      · rw [schedulerAt, executeScheduler, hreads, hlength, Nat.succ_mul]

theorem executeScheduler_at {k i : Nat} {interval : Interval φ γ}
    (hi : (schedulerAt reportSlippage nowFunc intervals k).intervals[i]? = some interval) :
    let now := nowFunc (k * intervals.length + i)
    let pass := checkInterval reportSlippage (initializeInterval (k = 0) interval now) now
    let execution := executeScheduler reportSlippage nowFunc
      (schedulerAt reportSlippage nowFunc intervals k)
    execution.scheduler.intervals[i]? = some pass.1 ∧ execution.events[i]? = some pass.2 := by
  obtain ⟨-, hreads, hfirst⟩ := schedulerAt_spec reportSlippage nowFunc intervals k
  simp only [executeScheduler, List.getElem?_map, getElem?_scan, hi, hreads, hfirst,
    Option.map_some, and_self]

variable {nowFunc intervals}

/-- The first execution leaves the marker where `setTimeMarker()` puts it. -/
theorem executeScheduler_first (hclock : Clock nowFunc) {i : Nat} {interval : Interval φ γ}
    (hperiodic : Periodic interval) (hi : intervals[i]? = some interval) :
    let execution := executeScheduler reportSlippage nowFunc
      (schedulerAt reportSlippage nowFunc intervals 0)
    ∃ marker : Precision,
      execution.scheduler.intervals[i]? = some { interval with timeMarker := marker } ∧
      execution.events[i]? = some [] ∧ marker.InRange ∧
      (marker.asFlatTime = (nowFunc i).asFlatTime / interval.duration.asFlatTime *
        interval.duration.asFlatTime ↔ RoundsDown interval (nowFunc i)) := by
  obtain ⟨hafter, hevents⟩ := executeScheduler_at reportSlippage nowFunc intervals (k := 0) hi
  obtain ⟨marker, hpass, hmarker, hrounds⟩ :=
    checkInterval_first reportSlippage hperiodic (hclock.inRange i) (hclock.representable i)
  simp only [initializeInterval, decide_true, if_true, Nat.zero_mul, Nat.zero_add, hpass]
    at hafter hevents
  exact ⟨marker, hafter, hevents, hmarker, hrounds⟩

/-- Every execution, once the first one has set the markers. -/
theorem executeScheduler_onTime (hclock : Clock nowFunc) {i : Nat} {interval : Interval φ γ}
    (hperiodic : Periodic interval) (hi : intervals[i]? = some interval)
    (hrounds : RoundsDown interval (nowFunc i)) (k : Nat) :
    let read (k : Nat) := nowFunc (k * intervals.length + i)
    let execution := executeScheduler reportSlippage nowFunc
      (schedulerAt reportSlippage nowFunc intervals k)
    ∃ marker events,
      execution.scheduler.intervals[i]? = some { interval with timeMarker := marker } ∧
      execution.events[i]? = some events ∧ marker.InRange ∧
      OnTime reportSlippage interval (if k = 0 then none else some (read (k - 1)).asFlatTime)
        (read k) marker events := by
  induction k with
  | zero =>
      obtain ⟨marker, hafter, hevents, hmarker, hiff⟩ :=
        executeScheduler_first reportSlippage hclock hperiodic hi
      refine ⟨marker, [], hafter, hevents, hmarker, ?_⟩
      simp only [Nat.zero_mul, Nat.zero_add, if_true]
      exact ⟨hiff.mpr hrounds, rfl⟩
  | succ k ih =>
      obtain ⟨marker, -, hbefore, -, hmarker, hflat, -⟩ := ih
      obtain ⟨hafter, hevents⟩ :=
        executeScheduler_at reportSlippage nowFunc intervals (k := k + 1) hbefore
      have hperiodic' : Periodic { interval with timeMarker := marker } := hperiodic
      have hle : k * intervals.length + i ≤ (k + 1) * intervals.length + i := by
        rw [Nat.succ_mul]
        omega
      obtain ⟨marker', events, hpass, hmarker', honTime⟩ :=
        checkInterval_onTime reportSlippage hperiodic' hmarker hflat (hclock.inRange _)
          (hclock.mono _ _ hle) (hclock.representable _)
      have hlater : decide (k + 1 = 0) = false := rfl
      simp only [hlater, initializeInterval, Bool.false_eq_true, if_false, hpass]
        at hafter hevents
      exact ⟨marker', events, hafter, hevents, hmarker', honTime⟩

/-- The scheduler serves every interval on time, if and only if its first execution rounds the
time down to a boundary of every interval. -/
theorem scheduled_iff (nowFunc : Nat → Precision) (intervals : List (Interval φ γ))
    (hclock : Clock nowFunc) (hperiodic : ∀ interval ∈ intervals, Periodic interval) :
    Scheduled reportSlippage nowFunc intervals ↔
      ∀ i interval, intervals[i]? = some interval → RoundsDown interval (nowFunc i) := by
  constructor
  · intro hscheduled i interval hi
    obtain ⟨marker, hafter, -, -, hrounds⟩ := executeScheduler_first reportSlippage hclock
      (hperiodic interval (List.mem_of_getElem? hi)) hi
    obtain ⟨after, events, hafter', -, hflat, -⟩ := hscheduled 0 i interval hi
    rw [hafter] at hafter'
    cases hafter'
    simp only [Nat.zero_mul, Nat.zero_add] at hflat
    exact hrounds.mp hflat
  · intro hrounds k i interval hi
    obtain ⟨marker, events, hafter, hevents, -, honTime⟩ :=
      executeScheduler_onTime reportSlippage hclock (hperiodic interval (List.mem_of_getElem? hi))
        hi (hrounds i interval hi) k
    exact ⟨_, events, hafter, hevents, honTime⟩

end Runs

/-- Three milliseconds pass from one reading to the next. -/
def tripleClock (n : Nat) : Precision :=
  setFlatTime (min (3 * n) 1000)

theorem clock_tripleClock : Clock tripleClock := by
  have hflat (n : Nat) : (tripleClock n).asFlatTime = min (3 * n) 1000 :=
    (setFlatTime_spec (by omega)).2
  refine ⟨?_, ?_, ?_⟩
  · intro n m hle
    rw [hflat, hflat]
    omega
  · intro n
    exact (setFlatTime_spec (by omega)).1.2
  · intro n
    rw [hflat]
    omega

/-- Intervals of 7 and of 10 milliseconds. -/
def sampleIntervals : List (Interval Unit Nat) :=
  [⟨(), 0xFEED, ⟨0, 7⟩, ⟨0, 0⟩⟩, ⟨(), 0xCAFE, ⟨0, 10⟩, ⟨5, 3⟩⟩]

theorem scheduled_iff_two_intervals : Scheduled true tripleClock sampleIntervals := by
  refine (scheduled_iff true tripleClock sampleIntervals clock_tripleClock ?_).mpr ?_
  · simp [sampleIntervals, Periodic, Precision.InRange, Precision.asFlatTime]
  · intro i interval hi
    have hmem := List.mem_of_getElem? hi
    simp only [sampleIntervals, List.mem_cons, List.not_mem_nil, or_false] at hmem
    rcases hmem with rfl | rfl <;> exact .inl (by decide)

/-- A period of 4294968 seconds is taken for one of 704 milliseconds. -/
theorem not_scheduled_long_period : ¬∀ (intervals : List (Interval Unit Nat))
    (nowFunc : Nat → Precision), Clock nowFunc → (∀ interval ∈ intervals, Periodic interval) →
      Scheduled true nowFunc intervals := by
  intro hall
  have hclock : Clock fun _ => ⟨1, 0⟩ :=
    ⟨fun _ _ _ => le_rfl, fun _ => by decide, fun _ => by decide⟩
  obtain ⟨after, events, hafter, -, hflat, -⟩ := hall [⟨(), 0, ⟨4294968, 0⟩, ⟨0, 0⟩⟩] _ hclock
    (by simp [Periodic, Precision.InRange, Precision.asFlatTime]) 0 0 _ rfl
  have hmarker : after.timeMarker = ⟨0, 704⟩ := by
    cases hafter
    rfl
  rw [hmarker] at hflat
  exact absurd hflat (by decide)

end ColonyPico.System.PeriodicScheduler
