import ColonyPico.Foundations.Runs
import ColonyPico.System.PrecisionTime
import Mathlib.Algebra.Ring.Divisibility.Basic
import Mathlib.Tactic.Ring

/-!
The interval times of the components (`Storm::Component::Base`): their distance to the tick, and
whether they are multiples of the interval.
-/

namespace ColonyPico.Storm.IntervalBoundaries

open ColonyPico.Foundations.Runs
open ColonyPico.Foundations.TwoDigits
open ColonyPico.System.ElapsedTime
open ColonyPico.System.PrecisionTime

section Component

structure Base where
  interval : Precision
  timeMark : Precision
  slipCounter : Nat
  timeMarkValid : Bool
  started : Bool
  deriving DecidableEq, Repr

def Base.init : Base :=
  { interval := ⟨0, 0⟩
    timeMark := ⟨0, 0⟩
    slipCounter := 0
    timeMarkValid := false
    started := false }

def Base.start (b : Base) (intervalTime : Precision) : Base :=
  { b with
    interval := intervalTime
    timeMarkValid := false
    slipCounter := 0
    started := true }

def Base.stop (b : Base) : Base :=
  { b with started := false }

def setTimeMarker (interval currentTick : Precision) : Precision :=
  { seconds :=
      if interval.seconds = 0 then currentTick.seconds
      else currentTick.seconds / interval.seconds * interval.seconds
    thousandths :=
      if interval.thousandths = 0 then currentTick.thousandths
      else currentTick.thousandths / interval.thousandths * interval.thousandths }

/-- `doWork()`, with the interval time that is handed to `execute()`. -/
def Base.doWork (width : Nat) (b : Base) (enabled : Bool) (currentTick : Precision) :
    Base × Option Precision :=
  if b.timeMarkValid = false ∨ expiredPrecision width b.timeMark b.interval currentTick = true then
    let timeMark :=
      if b.timeMarkValid = false then setTimeMarker b.interval currentTick
      else addTime width b.timeMark b.interval
    let slipped := b.timeMarkValid && expiredPrecision width timeMark b.interval currentTick
    let timeMark := if slipped then setTimeMarker b.interval currentTick else timeMark
    ({ b with
        timeMark := timeMark
        slipCounter := if slipped then (b.slipCounter + 1) % 2 ^ width else b.slipCounter
        timeMarkValid := true },
      if b.started && enabled then some timeMark else none)
  else (b, none)

end Component

section Rounding

/-- Rounding the seconds and the thousandths separately gives a multiple of the interval. -/
def Aligned (interval currentTick : Precision) : Prop :=
  if interval.seconds = 0 then interval.thousandths ∣ currentTick.seconds * 1000
  else if interval.thousandths = 0 then currentTick.thousandths = 0
  else (interval.asFlatTime : ℤ) ∣ interval.thousandths *
    ((currentTick.seconds / interval.seconds : ℕ) -
      (currentTick.thousandths / interval.thousandths : ℕ))

variable {width : Nat} {interval currentTick : Precision}

theorem setTimeMarker_spec (hpos : 0 < interval.asFlatTime) (htick : InRange width currentTick) :
    InRange width (setTimeMarker interval currentTick) ∧
      (setTimeMarker interval currentTick).asFlatTime ≤ currentTick.asFlatTime ∧
      currentTick.asFlatTime <
        (setTimeMarker interval currentTick).asFlatTime + interval.asFlatTime := by
  obtain ⟨hseconds, hthousandths⟩ := htick
  have hsec := Nat.div_mul_le_self currentTick.seconds interval.seconds
  have hth := Nat.div_mul_le_self currentTick.thousandths interval.thousandths
  simp only [InRange, Precision.asFlatTime, setTimeMarker] at *
  rcases Nat.eq_zero_or_pos interval.seconds with hzero | hseconds'
  · have hpositive : 0 < interval.thousandths := by omega
    have hlt := Nat.lt_div_mul_add hpositive (a := currentTick.thousandths)
    rw [if_pos hzero, if_neg (by omega)]
    omega
  · have hlt := Nat.lt_div_mul_add hseconds' (a := currentTick.seconds)
    rw [if_neg (by omega)]
    rcases Nat.eq_zero_or_pos interval.thousandths with hzero | hpositive
    · rw [if_pos hzero]
      omega
    · have hlt' := Nat.lt_div_mul_add hpositive (a := currentTick.thousandths)
      rw [if_neg (by omega)]
      omega

/-- Multiples of the two parts are a multiple of the whole and of the difference. -/
theorem cast_parts (seconds thousandths a b : ℕ) :
    ((a * seconds * 1000 + b * thousandths : ℕ) : ℤ) =
      (seconds * 1000 + thousandths : ℕ) * (a : ℤ) - thousandths * ((a : ℤ) - b) := by
  push_cast
  ring

theorem aligned_iff (hpos : 0 < interval.asFlatTime) (htick : currentTick.thousandths < 1000) :
    interval.asFlatTime ∣ (setTimeMarker interval currentTick).asFlatTime ↔
      Aligned interval currentTick := by
  rcases eq_or_ne interval.seconds 0 with hseconds | hseconds
  · have hthousandths : interval.thousandths ≠ 0 := by
      intro hzero
      rw [Precision.asFlatTime, hseconds, hzero] at hpos
      exact absurd hpos (Nat.lt_irrefl 0)
    simp only [Aligned, setTimeMarker, if_pos hseconds, if_neg hthousandths]
    rw [Precision.asFlatTime, Precision.asFlatTime, hseconds, Nat.zero_mul, Nat.zero_add]
    exact Nat.dvd_add_left (Nat.dvd_mul_left _ _)
  · rcases eq_or_ne interval.thousandths 0 with hthousandths | hthousandths
    · simp only [Aligned, setTimeMarker, if_neg hseconds, if_pos hthousandths]
      rw [Precision.asFlatTime, Precision.asFlatTime, hthousandths, Nat.add_zero,
        Nat.dvd_add_right (Nat.mul_dvd_mul_right (Nat.dvd_mul_left _ _) 1000)]
      constructor
      · intro hdvd
        exact Nat.eq_zero_of_dvd_of_lt hdvd (by omega)
      · intro hzero
        rw [hzero]
        exact Nat.dvd_zero _
    · simp only [Aligned, setTimeMarker, if_neg hseconds, if_neg hthousandths]
      rw [Precision.asFlatTime, Precision.asFlatTime, ← Int.natCast_dvd_natCast, cast_parts]
      exact dvd_sub_right (Dvd.intro _ rfl)

end Rounding

section Passes

variable {width : Nat} {b : Base} {currentTick : Precision}

/-- The time mark is at most one interval behind the last tick. -/
def Marked (width : Nat) (b : Base) (now : Nat) : Prop :=
  b.timeMarkValid = true →
    InRange width b.timeMark ∧ b.timeMark.asFlatTime ≤ now ∧
      now < b.timeMark.asFlatTime + b.interval.asFlatTime

/-- The pass rounds: it is the first one, or the component has slipped. -/
def Rounds (b : Base) (currentTick : Precision) : Prop :=
  b.timeMarkValid = true →
    b.timeMark.asFlatTime + 2 * b.interval.asFlatTime ≤ currentTick.asFlatTime

/-- The time mark of a pass that executes. -/
structure Advances (width : Nat) (b : Base) (currentTick timeMark : Precision) : Prop where
  inRange : InRange width timeMark
  le : timeMark.asFlatTime ≤ currentTick.asFlatTime
  lt : currentTick.asFlatTime < timeMark.asFlatTime + b.interval.asFlatTime
  later : b.timeMarkValid = true → b.timeMark.asFlatTime < timeMark.asFlatTime
  rounded : Rounds b currentTick → timeMark = setTimeMarker b.interval currentTick
  periodic : ¬Rounds b currentTick →
    b.timeMarkValid = true ∧
      timeMark.asFlatTime = b.timeMark.asFlatTime + b.interval.asFlatTime

theorem advances_rounded (hpos : 0 < b.interval.asFlatTime) (htick : InRange width currentTick)
    (hrounds : Rounds b currentTick) :
    Advances width b currentTick (setTimeMarker b.interval currentTick) := by
  obtain ⟨hrange, hle, hlt⟩ := setTimeMarker_spec hpos htick
  refine ⟨hrange, hle, hlt, fun hvalid => ?_, fun _ => rfl, fun h => absurd hrounds h⟩
  have hslipped := hrounds hvalid
  omega

/-- A pass leaves the component alone, or advances its time mark and executes. -/
theorem doWork_cases (hinterval : b.interval.thousandths < 1000)
    (hpos : 0 < b.interval.asFlatTime) (htick : InRange width currentTick) {now : Nat}
    (hmarked : Marked width b now) (hnow : now ≤ currentTick.asFlatTime) (enabled : Bool) :
    (b.timeMarkValid = true ∧
      currentTick.asFlatTime < b.timeMark.asFlatTime + b.interval.asFlatTime ∧
      b.doWork width enabled currentTick = (b, none)) ∨
    ∃ timeMark slipCounter, Advances width b currentTick timeMark ∧
      b.doWork width enabled currentTick =
        ({ b with timeMark := timeMark, slipCounter := slipCounter, timeMarkValid := true },
          if b.started && enabled then some timeMark else none) := by
  rcases Bool.eq_false_or_eq_true b.timeMarkValid with hvalid | hinvalid
  · obtain ⟨hmark, hle, -⟩ := hmarked hvalid
    have hexpired := expiredPrecision_iff_le hmark hinterval htick (hle.trans hnow)
    rcases Nat.lt_or_ge currentTick.asFlatTime
      (b.timeMark.asFlatTime + b.interval.asFlatTime) with hearly | hdue
    · refine .inl ⟨hvalid, hearly, ?_⟩
      rw [Base.doWork, if_neg]
      rintro (hinvalid | hexpired')
      · rw [hvalid] at hinvalid
        cases hinvalid
      · exact absurd (hexpired.1 hexpired') (Nat.not_le.2 hearly)
    · right
      have hadd : (addTime width b.timeMark b.interval).asFlatTime =
          b.timeMark.asFlatTime + b.interval.asFlatTime := by
        rw [asFlatTime_addTime hmark.2 hinterval,
          Nat.mod_eq_of_lt (Nat.lt_of_le_of_lt hdue (asFlatTime_lt htick))]
      have hslips := expiredPrecision_iff_le (inRange_addTime b.timeMark b.interval) hinterval htick
        (hadd.le.trans hdue)
      rw [Base.doWork, if_pos (Or.inr (hexpired.2 hdue)), hvalid]
      simp only [Bool.true_eq_false, if_false, Bool.true_and]
      refine ⟨_, _, ?_, rfl⟩
      rcases Nat.lt_or_ge currentTick.asFlatTime
        (b.timeMark.asFlatTime + 2 * b.interval.asFlatTime) with hontime | hslipped
      · have hkept : ¬expiredPrecision width (addTime width b.timeMark b.interval) b.interval
            currentTick = true := by
          rw [hslips, hadd]
          omega
        have hnot : ¬Rounds b currentTick := fun h => absurd (h hvalid) (Nat.not_le.2 hontime)
        rw [if_neg hkept]
        exact ⟨inRange_addTime _ _, by omega, by omega, fun _ => by omega,
          fun h => absurd h hnot, fun _ => ⟨hvalid, hadd⟩⟩
      · have hexpired' : expiredPrecision width (addTime width b.timeMark b.interval) b.interval
            currentTick = true := by
          rw [hslips, hadd]
          omega
        rw [if_pos hexpired']
        exact advances_rounded hpos htick fun _ => hslipped
  · right
    rw [Base.doWork, if_pos (Or.inl hinvalid), hinvalid]
    refine ⟨setTimeMarker b.interval currentTick, _, ?_, rfl⟩
    exact advances_rounded hpos htick fun hvalid => by
      rw [hinvalid] at hvalid
      cases hvalid

theorem doWork_interval (enabled : Bool) :
    (b.doWork width enabled currentTick).1.interval = b.interval := by
  rw [Base.doWork]
  split
  · rfl
  · rfl

/-- What is handed to `execute()` depends on the interval and the time mark only. -/
theorem doWork_congr {b' : Base} (hinterval : b'.interval = b.interval)
    (hmark : b'.timeMark = b.timeMark) (hvalid : b'.timeMarkValid = b.timeMarkValid)
    (hstarted : b'.started = b.started) (enabled : Bool) :
    (b'.doWork width enabled currentTick).2 = (b.doWork width enabled currentTick).2 := by
  simp only [Base.doWork, hinterval, hmark, hvalid, hstarted]
  split
  · rfl
  · rfl

end Passes

section Runs

variable {ι : Type*} [DecidableEq ι]

/-- Components, the interval times and ticks that each was given since it was started, the latest
first, and the last tick. -/
structure World (ι : Type*) where
  component : ι → Base
  executed : ι → List (Precision × Precision)
  now : Precision

def World.init : World ι :=
  { component := fun _ => Base.init
    executed := fun _ => []
    now := ⟨0, 0⟩ }

inductive Action (ι : Type*) where
  | start (i : ι)
  | stop (i : ι)
  /-- A pass of the main loop. -/
  | pass (enabled : ι → Bool) (currentTick : Precision)

def record (intervalTime : Option Precision) (currentTick : Precision)
    (executed : List (Precision × Precision)) : List (Precision × Precision) :=
  match intervalTime with
  | none => executed
  | some intervalTime => (intervalTime, currentTick) :: executed

variable (width : Nat) (interval : Precision)

/-- All components are started with the same interval. -/
def step (w : World ι) : Action ι → Option (World ι)
  | .start i =>
      some
        { w with
          component := Function.update w.component i ((w.component i).start interval)
          executed := Function.update w.executed i [] }
  | .stop i =>
      some { w with component := Function.update w.component i (w.component i).stop }
  | .pass enabled currentTick =>
      some
        { component := fun i => ((w.component i).doWork width (enabled i) currentTick).1
          executed := fun i =>
            record ((w.component i).doWork width (enabled i) currentTick).2 currentTick
              (w.executed i)
          now := currentTick }

def TicksInOrder (w : World ι) : Action ι → Prop
  | .pass _ currentTick =>
      InRange width currentTick ∧ w.now.asFlatTime ≤ currentTick.asFlatTime
  | _ => True

instance (w : World ι) : ∀ action, Decidable (TicksInOrder width w action)
  | .pass _ currentTick =>
      inferInstanceAs (Decidable (InRange width currentTick ∧
        w.now.asFlatTime ≤ currentTick.asFlatTime))
  | .start _ => .isTrue trivial
  | .stop _ => .isTrue trivial

/-- A pass that rounds the time mark of a component has an aligned tick. -/
def RoundsAligned (w : World ι) : Action ι → Prop
  | .pass _ currentTick => ∀ i, (w.component i).interval = interval →
      Rounds (w.component i) currentTick → Aligned interval currentTick
  | _ => True

/-- The time mark and the interval times are multiples of the interval. -/
def Multiples (b : Base) (executed : List (Precision × Precision)) : Prop :=
  (b.timeMarkValid = true → interval.asFlatTime ∣ b.timeMark.asFlatTime) ∧
    ∀ e ∈ executed, interval.asFlatTime ∣ e.1.asFlatTime

def OnBoundary (w : World ι) : Prop :=
  ∀ i, (w.component i).interval = interval → Multiples interval (w.component i) (w.executed i)

/-- A step keeps the time marks and the interval times on multiples of the interval. -/
def StaysOnBoundary (w : World ι) (action : Action ι) : Prop :=
  ∀ next, step width interval w action = some next → OnBoundary interval next

/-- The interval times of a component are at most the tick, less than an interval behind it, and
increase. -/
structure InStep (executed : List (Precision × Precision)) : Prop where
  behind : ∀ e ∈ executed, e.1.asFlatTime ≤ e.2.asFlatTime ∧
    e.2.asFlatTime < e.1.asFlatTime + interval.asFlatTime
  increasing : executed.Pairwise fun later earlier => earlier.1.asFlatTime < later.1.asFlatTime

/-- A component with the interval. -/
structure Kept (now : Nat) (b : Base) (executed : List (Precision × Precision)) : Prop where
  marked : Marked width b now
  inStep : InStep interval executed
  first : b.timeMarkValid = false → executed = []
  mark : b.timeMarkValid = true → ∀ e ∈ executed, e.1.asFlatTime ≤ b.timeMark.asFlatTime

def AllKept (w : World ι) : Prop :=
  ∀ i, (w.component i).interval = interval →
    Kept width interval w.now.asFlatTime (w.component i) (w.executed i)

variable {width interval} {w next : World ι} {action : Action ι}

theorem kept_pass {b : Base} {executed : List (Precision × Precision)} {now : Nat}
    {currentTick : Precision} (hb : b.interval = interval) (hinterval : interval.thousandths < 1000)
    (hpos : 0 < interval.asFlatTime) (hkept : Kept width interval now b executed)
    (htick : InRange width currentTick) (hnow : now ≤ currentTick.asFlatTime) (enabled : Bool) :
    Kept width interval currentTick.asFlatTime (b.doWork width enabled currentTick).1
      (record (b.doWork width enabled currentTick).2 currentTick executed) := by
  subst hb
  rcases doWork_cases hinterval hpos htick hkept.marked hnow enabled with
    ⟨hvalid, hlt, hdo⟩ | ⟨timeMark, slipCounter, hadvances, hdo⟩
  · rw [hdo]
    obtain ⟨hmark, hle, -⟩ := hkept.marked hvalid
    exact ⟨fun _ => ⟨hmark, hle.trans hnow, hlt⟩, hkept.inStep, hkept.first, hkept.mark⟩
  · have hearlier : ∀ e ∈ executed, e.1.asFlatTime < timeMark.asFlatTime := by
      intro e he
      rcases Bool.eq_false_or_eq_true b.timeMarkValid with hvalid | hinvalid
      · exact Nat.lt_of_le_of_lt (hkept.mark hvalid e he) (hadvances.later hvalid)
      · rw [hkept.first hinvalid] at he
        cases he
    rw [hdo]
    constructor
    case marked => exact fun _ => ⟨hadvances.inRange, hadvances.le, hadvances.lt⟩
    case first =>
      intro hinvalid
      cases hinvalid
    case inStep =>
      split
      · refine ⟨?_, List.pairwise_cons.2 ⟨hearlier, hkept.inStep.increasing⟩⟩
        rintro e (_ | ⟨_, he⟩)
        · exact ⟨hadvances.le, hadvances.lt⟩
        · exact hkept.inStep.behind e he
      · exact hkept.inStep
    case mark =>
      intro _
      split
      · rintro e (_ | ⟨_, he⟩)
        · exact le_rfl
        · exact (hearlier e he).le
      · exact fun e he => (hearlier e he).le

/-- What a start establishes holds of the components that have it and of the one that is
started. -/
theorem forall_start {P : Base → List (Precision × Precision) → Prop}
    (hstart : ∀ b : Base, P (b.start interval) [])
    (hall : ∀ i, (w.component i).interval = interval → P (w.component i) (w.executed i)) (i j : ι)
    (hj : (Function.update w.component i ((w.component i).start interval) j).interval = interval) :
    P (Function.update w.component i ((w.component i).start interval) j)
      (Function.update w.executed i [] j) := by
  rcases eq_or_ne j i with rfl | hne
  · rw [Function.update_self, Function.update_self]
    exact hstart _
  · rw [Function.update_of_ne hne] at hj
    rw [Function.update_of_ne hne, Function.update_of_ne hne]
    exact hall j hj

theorem forall_stop {P : Base → List (Precision × Precision) → Prop}
    (hstop : ∀ b executed, P b executed → P b.stop executed)
    (hall : ∀ i, (w.component i).interval = interval → P (w.component i) (w.executed i)) (i j : ι)
    (hj : (Function.update w.component i (w.component i).stop j).interval = interval) :
    P (Function.update w.component i (w.component i).stop j) (w.executed j) := by
  rcases eq_or_ne j i with rfl | hne
  · rw [Function.update_self] at hj ⊢
    exact hstop _ _ (hall j hj)
  · rw [Function.update_of_ne hne] at hj ⊢
    exact hall j hj

theorem init_interval_ne (hpos : 0 < interval.asFlatTime) : Base.init.interval ≠ interval := by
  rintro rfl
  exact absurd hpos (by decide)

omit [DecidableEq ι] in
theorem allKept_init (hpos : 0 < interval.asFlatTime) :
    AllKept width interval (World.init : World ι) := by
  intro i hi
  exact absurd hi (init_interval_ne hpos)

theorem allKept_step (hinterval : interval.thousandths < 1000) (hpos : 0 < interval.asFlatTime)
    (hkept : AllKept width interval w) (hticks : TicksInOrder width w action)
    (hstep : step width interval w action = some next) : AllKept width interval next := by
  cases action with
  | start i =>
      obtain rfl := Option.some.inj hstep
      refine forall_start (fun b => ⟨fun hvalid => ?_, ⟨?_, List.Pairwise.nil⟩, fun _ => rfl,
        fun hvalid => ?_⟩) hkept i
      · cases hvalid
      · exact fun e he => by cases he
      · cases hvalid
  | stop i =>
      obtain rfl := Option.some.inj hstep
      exact forall_stop (fun b executed h => ⟨h.marked, h.inStep, h.first, h.mark⟩) hkept i
  | pass enabled currentTick =>
      obtain rfl := Option.some.inj hstep
      intro i hi
      exact kept_pass ((doWork_interval (enabled i)).symm.trans hi) hinterval hpos
        (hkept i ((doWork_interval (enabled i)).symm.trans hi)) hticks.1 hticks.2 (enabled i)

omit [DecidableEq ι] in
theorem onBoundary_init (hpos : 0 < interval.asFlatTime) :
    OnBoundary interval (World.init : World ι) := by
  intro i hi
  exact absurd hi (init_interval_ne hpos)

theorem onBoundary_step (hinterval : interval.thousandths < 1000) (hpos : 0 < interval.asFlatTime)
    (hkept : AllKept width interval w) (hticks : TicksInOrder width w action)
    (honBoundary : OnBoundary interval w) (haligned : RoundsAligned interval w action)
    (hstep : step width interval w action = some next) : OnBoundary interval next := by
  cases action with
  | start i =>
      obtain rfl := Option.some.inj hstep
      refine forall_start (P := Multiples interval)
        (fun b => ⟨fun hvalid => ?_, fun e he => ?_⟩) honBoundary i
      · cases hvalid
      · cases he
  | stop i =>
      obtain rfl := Option.some.inj hstep
      exact forall_stop (P := Multiples interval) (fun _ _ h => h) honBoundary i
  | pass enabled currentTick =>
      obtain rfl := Option.some.inj hstep
      intro i hi
      have hb : (w.component i).interval = interval :=
        (doWork_interval (enabled i)).symm.trans hi
      obtain ⟨hmark, hexecuted⟩ := honBoundary i hb
      simp only
      rcases doWork_cases (hb ▸ hinterval) (hb ▸ hpos) hticks.1 (hkept i hb).marked hticks.2
        (enabled i) with ⟨hvalid, hlt, hdo⟩ | ⟨timeMark, slipCounter, hadvances, hdo⟩
      · rw [hdo]
        exact ⟨hmark, hexecuted⟩
      · have hmultiple : interval.asFlatTime ∣ timeMark.asFlatTime := by
          rcases Classical.em (Rounds (w.component i) currentTick) with hrounds | hnot
          · rw [hadvances.rounded hrounds, hb, aligned_iff hpos hticks.1.2]
            exact haligned i hb hrounds
          · obtain ⟨hvalid, hflat⟩ := hadvances.periodic hnot
            rw [hflat, hb]
            exact Nat.dvd_add (hmark hvalid) (Nat.dvd_refl _)
        rw [hdo]
        refine ⟨fun _ => hmultiple, ?_⟩
        simp only
        split
        · rintro e (_ | ⟨_, he⟩)
          · exact hmultiple
          · exact hexecuted e he
        · exact hexecuted

theorem roundsAligned_of_staysOnBoundary (hinterval : interval.thousandths < 1000)
    (hpos : 0 < interval.asFlatTime) (hkept : AllKept width interval w)
    (hticks : TicksInOrder width w action) (hstays : StaysOnBoundary width interval w action) :
    RoundsAligned interval w action := by
  cases action with
  | start i => trivial
  | stop i => trivial
  | pass enabled currentTick =>
      intro i hb hrounds
      rcases doWork_cases (hb ▸ hinterval) (hb ▸ hpos) hticks.1 (hkept i hb).marked hticks.2
        (enabled i) with ⟨hvalid, hlt, -⟩ | ⟨timeMark, slipCounter, hadvances, hdo⟩
      · have hslipped := hrounds hvalid
        omega
      · have hmark := (hstays _ rfl i ((doWork_interval (enabled i)).trans hb)).1
        simp only at hmark
        rw [hdo, hadvances.rounded hrounds, hb, aligned_iff hpos hticks.1.2] at hmark
        exact hmark rfl

/-- Two multiples of `d` that are less than `d` behind `n` are the same. -/
theorem eq_of_dvd_of_behind {d n x y : ℕ} (hx : d ∣ x) (hy : d ∣ y) (hxn : x ≤ n) (hnx : n < x + d)
    (hyn : y ≤ n) (hny : n < y + d) : x = y := by
  obtain ⟨a, rfl⟩ := hx
  obtain ⟨b, rfl⟩ := hy
  rcases Nat.lt_trichotomy a b with hlt | rfl | hlt
  · have hle := Nat.mul_le_mul_left d (Nat.succ_le_of_lt hlt)
    rw [Nat.mul_succ] at hle
    omega
  · rfl
  · have hle := Nat.mul_le_mul_left d (Nat.succ_le_of_lt hlt)
    rw [Nat.mul_succ] at hle
    omega

omit [DecidableEq ι] in
/-- Components that have been past their first pass have the same time mark. -/
theorem timeMark_eq (hkept : AllKept width interval w) (honBoundary : OnBoundary interval w)
    {i j : ι} (hi : (w.component i).interval = interval) (hj : (w.component j).interval = interval)
    (hvalidi : (w.component i).timeMarkValid = true)
    (hvalidj : (w.component j).timeMarkValid = true) :
    (w.component i).timeMark = (w.component j).timeMark := by
  obtain ⟨hrangei, hlei, hlti⟩ := (hkept i hi).marked hvalidi
  obtain ⟨hrangej, hlej, hltj⟩ := (hkept j hj).marked hvalidj
  refine eq_of_asFlatTime hrangei.2 hrangej.2 ?_
  exact eq_of_dvd_of_behind ((honBoundary i hi).1 hvalidi) ((honBoundary j hj).1 hvalidj) hlei
    (hi ▸ hlti) hlej (hj ▸ hltj)

variable {actions : List (Action ι)}

/-- The interval times are at most the tick, less than one interval behind it and increase. They
stay on multiples of the interval exactly when every pass that rounds has an aligned tick, and then
all components that are past their first pass execute in the same passes with the same times. -/
theorem intervalTimes_inStep_iff (hinterval : interval.thousandths < 1000)
    (hpos : 0 < interval.asFlatTime)
    (hticks : AllSteps (step width interval) (TicksInOrder width) World.init actions)
    (hrun : run (step width interval) World.init actions = some w) :
    (∀ i, (w.component i).interval = interval → InStep interval (w.executed i)) ∧
    (AllSteps (step width interval) (StaysOnBoundary width interval) World.init actions ↔
      AllSteps (step width interval) (RoundsAligned interval) World.init actions) ∧
    (AllSteps (step width interval) (RoundsAligned interval) World.init actions →
      OnBoundary interval w ∧
      ∀ i j, (w.component i).interval = interval → (w.component j).interval = interval →
        (w.component i).timeMarkValid = true → (w.component j).timeMarkValid = true →
        (w.component i).started = (w.component j).started →
        ∀ enabled currentTick,
          ((w.component i).doWork width enabled currentTick).2 =
            ((w.component j).doWork width enabled currentTick).2) := by
  have hstep : ∀ s (action : Action ι) next, AllKept width interval s →
      TicksInOrder width s action → step width interval s action = some next →
      AllKept width interval next :=
    fun _ _ _ hkept hticks hstep => allKept_step hinterval hpos hkept hticks hstep
  have hboth : ∀ s (action : Action ι) next, AllKept width interval s ∧ OnBoundary interval s →
      TicksInOrder width s action ∧ RoundsAligned interval s action →
      step width interval s action = some next →
      AllKept width interval next ∧ OnBoundary interval next :=
    fun _ _ _ hkept haligned hstep => ⟨allKept_step hinterval hpos hkept.1 haligned.1 hstep,
      onBoundary_step hinterval hpos hkept.1 haligned.1 hkept.2 haligned.2 hstep⟩
  have hinit : AllKept width interval (World.init : World ι) ∧
      OnBoundary interval (World.init : World ι) := ⟨allKept_init hpos, onBoundary_init hpos⟩
  refine ⟨fun i hi => (invariant hstep hinit.1 hticks hrun i hi).inStep, ⟨fun hstays => ?_,
    fun haligned => ?_⟩, fun haligned => ?_⟩
  · refine allSteps_of_invariant (I := AllKept width interval)
      (P := fun s action => TicksInOrder width s action ∧ StaysOnBoundary width interval s action)
      ?_ ?_ hinit.1 (hticks.and hstays)
    · exact fun s action next hkept hP => hstep s action next hkept hP.1
    · exact fun s action hkept hP =>
        roundsAligned_of_staysOnBoundary hinterval hpos hkept hP.1 hP.2
  · refine allSteps_of_invariant hboth ?_ hinit (hticks.and haligned)
    exact fun s action hkept hP next hnext => (hboth s action next hkept hP hnext).2
  · obtain ⟨hkept, honBoundary⟩ := invariant hboth hinit (hticks.and haligned) hrun
    refine ⟨honBoundary, fun i j hi hj hvalidi hvalidj hstarted enabled currentTick => ?_⟩
    refine doWork_congr (hi.trans hj.symm) ?_ (hvalidi.trans hvalidj.symm) hstarted enabled
    exact timeMark_eq hkept honBoundary hi hj hvalidi hvalidj

/-- A component with an interval of 100 ms that is started later than another one. -/
theorem intervalTimes_inStep_two : ∃ w, run (step 32 ⟨0, 100⟩) (World.init : World (Fin 2))
    [.start 0, .pass (fun _ => true) ⟨13, 212⟩, .start 1, .pass (fun _ => true) ⟨13, 250⟩,
      .pass (fun _ => true) ⟨13, 301⟩] = some w ∧
    InStep ⟨0, 100⟩ (w.executed 1) ∧
    w.executed 1 = [(⟨13, 300⟩, ⟨13, 301⟩), (⟨13, 200⟩, ⟨13, 250⟩)] := by
  refine ⟨_, rfl, ?_, by decide⟩
  refine (@intervalTimes_inStep_iff (Fin 2) _ 32 ⟨0, 100⟩ _ [.start 0,
    .pass (fun _ => true) ⟨13, 212⟩, .start 1, .pass (fun _ => true) ⟨13, 250⟩,
    .pass (fun _ => true) ⟨13, 301⟩] (by decide) (by decide) ?_ rfl).1 1 (by decide)
  decide

/-- An interval of two seconds keeps the thousandths of the tick. -/
theorem intervalTimes_not_inStep : ¬ ∀ (actions : List (Action (Fin 1))) w,
    AllSteps (step 32 ⟨2, 0⟩) (TicksInOrder 32) World.init actions →
    run (step 32 ⟨2, 0⟩) World.init actions = some w →
    ∀ i, ∀ e ∈ w.executed i, Precision.asFlatTime ⟨2, 0⟩ ∣ e.1.asFlatTime := by
  intro hall
  have hticks : AllSteps (step 32 ⟨2, 0⟩) (TicksInOrder 32) (World.init : World (Fin 1))
      [.start 0, .pass (fun _ => true) ⟨13, 212⟩] := by decide
  have hdvd := hall _ _ hticks rfl 0 (⟨12, 212⟩, ⟨13, 212⟩) (by decide)
  revert hdvd
  decide

end Runs

end ColonyPico.Storm.IntervalBoundaries
