import ColonyPico.Foundations.TwoDigits
import ColonyPico.System.PeriodicScheduler

/-!
The arithmetic of elapsed times (`Cpl::System::ElapsedTime::Precision_T`) for an
`unsigned long` of any width, and the conversion to milliseconds and back.
-/

namespace ColonyPico.System.PrecisionTime

open ColonyPico.Foundations.TwoDigits
open ColonyPico.System.ElapsedTime

/-- The fields are in range when the seconds have `width` bits. -/
def InRange (width : Nat) (t : Precision) : Prop :=
  t.seconds < 2 ^ width ∧ t.thousandths < 1000

instance (width : Nat) (t : Precision) : Decidable (InRange width t) :=
  inferInstanceAs (Decidable (_ ∧ _))

/-- The time in milliseconds after which the seconds start again. -/
def period (width : Nat) : Nat :=
  1000 * 2 ^ width

def deltaPrecision (width : Nat) (startTime endTime : Precision) : Precision :=
  let seconds := subtract width endTime.seconds startTime.seconds
  let thousandths := subtract 16 endTime.thousandths startTime.thousandths
  -- `MAX_POSITVE_MSEC_`
  if thousandths > 0x7FFF then
    { seconds := subtract width seconds 1, thousandths := (thousandths + 1000) % 2 ^ 16 }
  else { seconds := seconds, thousandths := thousandths }

/-- `operator +=`. -/
def addTime (width : Nat) (t x : Precision) : Precision :=
  let thousandths := (t.thousandths + x.thousandths) % 2 ^ 16
  { seconds := (t.seconds + x.seconds + thousandths / 1000) % 2 ^ width
    thousandths := thousandths % 1000 }

def expiredPrecision (width : Nat) (timeMarker duration currentTime : Precision) : Bool :=
  let delta := deltaPrecision width timeMarker currentTime
  delta.seconds > duration.seconds ∨
    delta.seconds = duration.seconds ∧ delta.thousandths ≥ duration.thousandths

/-- The functions for 32 bits are these. -/
theorem deltaPrecision_32 : deltaPrecision 32 = ElapsedTime.deltaPrecision :=
  rfl

theorem addTime_32 : addTime 32 = PeriodicScheduler.addTime :=
  rfl

theorem expiredPrecision_32 : expiredPrecision 32 = ElapsedTime.expiredPrecision :=
  rfl

variable {width : Nat}

theorem asFlatTime_eq_value (t : Precision) :
    t.asFlatTime = value 1000 t.seconds t.thousandths :=
  rfl

theorem asFlatTime_lt {t : Precision} (h : InRange width t) : t.asFlatTime < period width := by
  rw [asFlatTime_eq_value, period, Nat.mul_comm]
  exact value_lt h.1 h.2

theorem eq_of_asFlatTime {s t : Precision} (hs : s.thousandths < 1000) (ht : t.thousandths < 1000)
    (h : s.asFlatTime = t.asFlatTime) : s = t := by
  rw [asFlatTime_eq_value, asFlatTime_eq_value, value_inj hs ht] at h
  obtain ⟨hseconds, hthousandths⟩ := h
  cases s
  cases t
  simp_all

/-- The unsigned subtraction of the thousandths goes past `0x7FFF` when it has to borrow. -/
theorem deltaPrecision_eq (startTime endTime : Precision) (hs : startTime.thousandths < 1000)
    (he : endTime.thousandths < 1000) :
    deltaPrecision width startTime endTime =
      if startTime.thousandths ≤ endTime.thousandths then
        { seconds := difference (2 ^ width) endTime.seconds startTime.seconds
          thousandths := endTime.thousandths - startTime.thousandths }
      else
        { seconds :=
            difference (2 ^ width) (difference (2 ^ width) endTime.seconds startTime.seconds) 1
          thousandths := endTime.thousandths + 1000 - startTime.thousandths } := by
  split_ifs with h
  · have hth : subtract 16 endTime.thousandths startTime.thousandths =
        endTime.thousandths - startTime.thousandths := by
      rw [subtract]
      omega
    simp only [deltaPrecision, hth]
    rw [if_neg (by omega)]
    rfl
  · have hth : subtract 16 endTime.thousandths startTime.thousandths =
        endTime.thousandths + 65536 - startTime.thousandths := by
      rw [subtract]
      omega
    simp only [deltaPrecision, hth]
    rw [if_pos (by omega)]
    refine congrArg _ ?_
    omega

theorem inRange_deltaPrecision {startTime endTime : Precision} (hs : startTime.thousandths < 1000)
    (he : endTime.thousandths < 1000) : InRange width (deltaPrecision width startTime endTime) := by
  rw [deltaPrecision_eq startTime endTime hs he]
  split_ifs with h
  · refine ⟨difference_lt (Nat.two_pow_pos width) _ _, ?_⟩
    show endTime.thousandths - startTime.thousandths < 1000
    omega
  · refine ⟨difference_lt (Nat.two_pow_pos width) _ _, ?_⟩
    show endTime.thousandths + 1000 - startTime.thousandths < 1000
    omega

theorem asFlatTime_deltaPrecision {startTime endTime : Precision} (hs : InRange width startTime)
    (he : InRange width endTime) :
    (deltaPrecision width startTime endTime).asFlatTime =
      difference (period width) endTime.asFlatTime startTime.asFlatTime := by
  rw [period, Nat.mul_comm, asFlatTime_eq_value endTime, asFlatTime_eq_value startTime,
    difference_value he.1 hs.1 he.2 hs.2, deltaPrecision_eq startTime endTime hs.2 he.2]
  split_ifs with h
  · rfl
  · rfl

theorem addTime_eq (t x : Precision) (ht : t.thousandths < 1000) (hx : x.thousandths < 1000) :
    addTime width t x =
      { seconds := (t.seconds + x.seconds + (t.thousandths + x.thousandths) / 1000) % 2 ^ width
        thousandths := (t.thousandths + x.thousandths) % 1000 } := by
  rw [addTime, Nat.mod_eq_of_lt (show t.thousandths + x.thousandths < 2 ^ 16 by omega)]

theorem inRange_addTime (t x : Precision) : InRange width (addTime width t x) :=
  ⟨Nat.mod_lt _ (Nat.two_pow_pos width), Nat.mod_lt _ (by omega)⟩

theorem asFlatTime_addTime {t x : Precision} (ht : t.thousandths < 1000)
    (hx : x.thousandths < 1000) :
    (addTime width t x).asFlatTime = (t.asFlatTime + x.asFlatTime) % period width := by
  rw [period, Nat.mul_comm, asFlatTime_eq_value t, asFlatTime_eq_value x,
    value_add_value_mod _ _ _ _ _ (by omega), addTime_eq t x ht hx]
  rfl

theorem addTime_deltaPrecision {startTime endTime : Precision} (hs : InRange width startTime)
    (he : InRange width endTime) :
    addTime width (deltaPrecision width startTime endTime) startTime = endTime := by
  have hdelta : InRange width (deltaPrecision width startTime endTime) :=
    inRange_deltaPrecision hs.2 he.2
  refine eq_of_asFlatTime (inRange_addTime _ _).2 he.2 ?_
  rw [asFlatTime_addTime hdelta.2 hs.2, asFlatTime_deltaPrecision hs he,
    difference_add_mod (asFlatTime_lt he) (Nat.le_of_lt (asFlatTime_lt hs))]

theorem expiredPrecision_iff_delta {timeMarker duration currentTime : Precision}
    (hm : timeMarker.thousandths < 1000) (hd : duration.thousandths < 1000)
    (hc : currentTime.thousandths < 1000) :
    expiredPrecision width timeMarker duration currentTime = true ↔
      duration.asFlatTime ≤ (deltaPrecision width timeMarker currentTime).asFlatTime := by
  have hdelta : InRange width (deltaPrecision width timeMarker currentTime) :=
    inRange_deltaPrecision hm hc
  rw [← Nat.not_lt, asFlatTime_eq_value, asFlatTime_eq_value, value_lt_value_iff hdelta.2 hd,
    expiredPrecision, decide_eq_true_eq]
  omega

/-- A time that is not before its marker has expired when that much has passed. -/
theorem expiredPrecision_iff_le {timeMarker duration currentTime : Precision}
    (hm : InRange width timeMarker) (hd : duration.thousandths < 1000)
    (hc : InRange width currentTime) (hle : timeMarker.asFlatTime ≤ currentTime.asFlatTime) :
    expiredPrecision width timeMarker duration currentTime = true ↔
      timeMarker.asFlatTime + duration.asFlatTime ≤ currentTime.asFlatTime := by
  rw [expiredPrecision_iff_delta hm.2 hd hc.2, asFlatTime_deltaPrecision hm hc,
    difference_of_le hle (asFlatTime_lt hc)]
  omega

/-- The times are exact up to whole periods, whether or not the seconds start again between
them. -/
theorem precision_arithmetic_exact (startTime endTime duration x : Precision)
    (hs : InRange width startTime) (he : InRange width endTime) (hd : InRange width duration)
    (hx : InRange width x) :
    (InRange width (deltaPrecision width startTime endTime) ∧
      (deltaPrecision width startTime endTime).asFlatTime =
        (endTime.asFlatTime + period width - startTime.asFlatTime) % period width ∧
      addTime width (deltaPrecision width startTime endTime) startTime = endTime) ∧
    (InRange width (addTime width startTime x) ∧
      (addTime width startTime x).asFlatTime =
        (startTime.asFlatTime + x.asFlatTime) % period width) ∧
    (expiredPrecision width startTime duration endTime = true ↔
      duration.asFlatTime ≤
        (endTime.asFlatTime + period width - startTime.asFlatTime) % period width) := by
  refine ⟨⟨?_, ?_, ?_⟩, ⟨?_, ?_⟩, ?_⟩
  · exact inRange_deltaPrecision hs.2 he.2
  · exact asFlatTime_deltaPrecision hs he
  · exact addTime_deltaPrecision hs he
  · exact inRange_addTime startTime x
  · exact asFlatTime_addTime hs.2 hx.2
  · rw [expiredPrecision_iff_delta hs.2 hd.2 he.2, asFlatTime_deltaPrecision hs he]
    rfl

/-- The seconds start again between the two times. -/
theorem precision_arithmetic_exact_over_wrap :
    (InRange 32 (deltaPrecision 32 ⟨4294967295, 900⟩ ⟨1, 100⟩) ∧
      (deltaPrecision 32 ⟨4294967295, 900⟩ ⟨1, 100⟩).asFlatTime = 1200 ∧
      addTime 32 (deltaPrecision 32 ⟨4294967295, 900⟩ ⟨1, 100⟩) ⟨4294967295, 900⟩ = ⟨1, 100⟩) ∧
    (InRange 32 (addTime 32 ⟨4294967295, 900⟩ ⟨1, 200⟩) ∧
      (addTime 32 ⟨4294967295, 900⟩ ⟨1, 200⟩).asFlatTime = 1100) ∧
    expiredPrecision 32 ⟨4294967295, 900⟩ ⟨1, 200⟩ ⟨1, 100⟩ = true := by
  have hexact := precision_arithmetic_exact (⟨4294967295, 900⟩ : Precision) ⟨1, 100⟩ ⟨1, 200⟩
    ⟨1, 200⟩ (⟨by decide, by decide⟩ : InRange 32 _) ⟨by decide, by decide⟩
    ⟨by decide, by decide⟩ ⟨by decide, by decide⟩
  obtain ⟨⟨hdelta, hflat, hsum⟩, ⟨hadd, haddFlat⟩, hexpired⟩ := hexact
  refine ⟨⟨hdelta, ?_, hsum⟩, ⟨hadd, ?_⟩, ?_⟩
  · exact hflat.trans (by decide)
  · exact haddFlat.trans (by decide)
  · exact hexpired.2 (by decide)

section FlatTime

open ColonyPico.System.PeriodicScheduler (asFlatTime setFlatTime)

/-- `operator <`. -/
def less (t other : Precision) : Bool :=
  t.seconds < other.seconds ∨ t.seconds = other.seconds ∧ t.thousandths < other.thousandths

theorem less_iff {t other : Precision} (ht : t.thousandths < 1000)
    (ho : other.thousandths < 1000) :
    less t other = true ↔ t.asFlatTime < other.asFlatTime := by
  rw [asFlatTime_eq_value, asFlatTime_eq_value, value_lt_value_iff ht ho, less, decide_eq_true_eq]

/-- `operator >=`. -/
def notLess (t other : Precision) : Bool :=
  t = other ∨ less other t

theorem notLess_iff {t other : Precision} (ht : t.thousandths < 1000)
    (ho : other.thousandths < 1000) :
    notLess t other = true ↔ other.asFlatTime ≤ t.asFlatTime := by
  rw [notLess, decide_eq_true_eq, less_iff ho ht, Nat.le_iff_lt_or_eq, or_comm]
  refine or_congr_right ⟨fun h => h ▸ rfl, fun h => eq_of_asFlatTime ht ho h.symm⟩

/-- Only the low 32 bits of the product come back. -/
theorem setFlatTime_asFlatTime_iff {t : Precision} (ht : t.InRange) :
    setFlatTime (asFlatTime t) = t ↔ t.asFlatTime < 2 ^ 32 := by
  have hlt : asFlatTime t < 2 ^ 32 := Nat.mod_lt _ (by omega)
  obtain ⟨hset, hflat⟩ := PeriodicScheduler.setFlatTime_spec hlt
  constructor
  · intro h
    rw [h] at hflat
    omega
  · intro h
    refine eq_of_asFlatTime hset.2 ht.2 ?_
    rw [hflat, PeriodicScheduler.asFlatTime_of_lt h]

/-- The conversion is right for the times `S` when none of them has more milliseconds than an
`unsigned long`. -/
theorem flatTime_exact_iff (S : Precision → Prop) (hS : ∀ t, S t → t.InRange) :
    ((∀ t, S t → setFlatTime (asFlatTime t) = t) ∧
      ∀ t other, S t → S other → less t other = true → asFlatTime t < asFlatTime other) ↔
    ∀ t, S t → t.asFlatTime < 2 ^ 32 := by
  constructor
  · rintro ⟨hround, -⟩ t ht
    exact (setFlatTime_asFlatTime_iff (hS t ht)).1 (hround t ht)
  · intro hlt
    constructor
    · intro t ht
      exact (setFlatTime_asFlatTime_iff (hS t ht)).2 (hlt t ht)
    · intro t other ht ho hless
      rw [PeriodicScheduler.asFlatTime_of_lt (hlt t ht),
        PeriodicScheduler.asFlatTime_of_lt (hlt other ho)]
      exact (less_iff (hS t ht).2 (hS other ho).2).1 hless

theorem flatTime_exact_first_second :
    (setFlatTime (asFlatTime ⟨0, 999⟩) = ⟨0, 999⟩ ∧ setFlatTime (asFlatTime ⟨1, 0⟩) = ⟨1, 0⟩) ∧
      asFlatTime ⟨0, 999⟩ < asFlatTime ⟨1, 0⟩ := by
  have hexact := (flatTime_exact_iff (fun t => t = ⟨0, 999⟩ ∨ t = ⟨1, 0⟩) (by
    rintro t (rfl | rfl)
    · exact ⟨by decide, by decide⟩
    · exact ⟨by decide, by decide⟩)).2 (by
    rintro t (rfl | rfl)
    · decide
    · decide)
  exact ⟨⟨hexact.1 _ (.inl rfl), hexact.1 _ (.inr rfl)⟩,
    hexact.2 _ _ (.inl rfl) (.inr rfl) (by decide)⟩

/-- After 4294968 seconds 704 milliseconds are left. -/
theorem flatTime_not_exact :
    ¬ ((∀ t : Precision, t.InRange → setFlatTime (asFlatTime t) = t) ∧
      ∀ t other : Precision, t.InRange → other.InRange → less t other = true →
        asFlatTime t < asFlatTime other) := by
  rintro ⟨hround, -⟩
  have h := hround ⟨4294968, 0⟩ ⟨by decide, by decide⟩
  exact absurd h (by decide)

end FlatTime

end ColonyPico.System.PrecisionTime
