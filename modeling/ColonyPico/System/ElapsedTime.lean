import Mathlib.Algebra.Group.Nat.Defs

/-!
Elapsed time in seconds and thousandths (`Cpl::System::ElapsedTime`).
-/

namespace ColonyPico.System.ElapsedTime

/-- `Precision_T`: a 32 bit count of seconds and a fraction in milliseconds. -/
structure Precision where
  seconds : Nat
  thousandths : Nat
  deriving DecidableEq, Repr

namespace Precision

/-- The fields are in range. -/
def InRange (t : Precision) : Prop :=
  t.seconds < 2 ^ 32 ∧ t.thousandths < 1000

/-- `asFlatTime()`: milliseconds as one number. -/
def asFlatTime (t : Precision) : Nat :=
  t.seconds * 1000 + t.thousandths

/-- A whole number of seconds. -/
def ofSeconds (seconds : Nat) : Precision :=
  { seconds := seconds, thousandths := 0 }

end Precision

/-- Subtraction of unsigned numbers of `width` bits. -/
def subtract (width a b : Nat) : Nat :=
  (a + 2 ^ width - b) % 2 ^ width

def deltaPrecision (startTime endTime : Precision) : Precision :=
  let seconds := subtract 32 endTime.seconds startTime.seconds
  let thousandths := subtract 16 endTime.thousandths startTime.thousandths
  -- `MAX_POSITVE_MSEC_`
  if thousandths > 0x7FFF then
    { seconds := subtract 32 seconds 1, thousandths := (thousandths + 1000) % 2 ^ 16 }
  else { seconds := seconds, thousandths := thousandths }

def expiredPrecision (timeMarker duration currentTime : Precision) : Bool :=
  let delta := deltaPrecision timeMarker currentTime
  delta.seconds > duration.seconds ∨
    delta.seconds = duration.seconds ∧ delta.thousandths ≥ duration.thousandths

/-- Between two times in order, the difference is the time that passed. -/
theorem asFlatTime_deltaPrecision (startTime endTime : Precision) (hs : startTime.InRange)
    (he : endTime.InRange) (h : startTime.asFlatTime ≤ endTime.asFlatTime) :
    (deltaPrecision startTime endTime).InRange ∧
      startTime.asFlatTime + (deltaPrecision startTime endTime).asFlatTime =
        endTime.asFlatTime := by
  obtain ⟨hs1, hs2⟩ := hs
  obtain ⟨he1, he2⟩ := he
  simp only [Precision.asFlatTime] at h
  have hseconds : startTime.seconds ≤ endTime.seconds := by omega
  have hsub : subtract 32 endTime.seconds startTime.seconds =
      endTime.seconds - startTime.seconds := by
    rw [subtract]
    omega
  rcases Nat.lt_or_ge endTime.thousandths startTime.thousandths with hborrow | hplain
  · have hth : subtract 16 endTime.thousandths startTime.thousandths =
        endTime.thousandths + 65536 - startTime.thousandths := by
      rw [subtract]
      omega
    have hone : subtract 32 (endTime.seconds - startTime.seconds) 1 =
        endTime.seconds - startTime.seconds - 1 := by
      rw [subtract]
      omega
    simp only [deltaPrecision, hsub, hth, hone]
    rw [if_pos (by omega)]
    simp only [Precision.InRange, Precision.asFlatTime]
    omega
  · have hth : subtract 16 endTime.thousandths startTime.thousandths =
        endTime.thousandths - startTime.thousandths := by
      rw [subtract]
      omega
    simp only [deltaPrecision, hsub, hth]
    rw [if_neg (by omega)]
    simp only [Precision.InRange, Precision.asFlatTime]
    omega

/-- A time has expired when that much has passed. -/
theorem expiredPrecision_iff (timeMarker duration currentTime : Precision)
    (hm : timeMarker.InRange) (hc : currentTime.InRange) (hd : duration.thousandths < 1000)
    (h : timeMarker.asFlatTime ≤ currentTime.asFlatTime) :
    expiredPrecision timeMarker duration currentTime = true ↔
      timeMarker.asFlatTime + duration.asFlatTime ≤ currentTime.asFlatTime := by
  obtain ⟨⟨-, hth⟩, hdelta⟩ := asFlatTime_deltaPrecision timeMarker currentTime hm hc h
  rw [← hdelta, Nat.add_le_add_iff_left]
  simp only [expiredPrecision, Precision.asFlatTime, decide_eq_true_eq]
  omega

/-- `milliseconds()`: the reading of a clock at `clock` milliseconds, which rolls over. -/
def milliseconds (clock : Nat) : UInt32 :=
  UInt32.ofNat clock

def deltaMilliseconds (startTime endTime : UInt32) : UInt32 :=
  endTime - startTime

def expiredMilliseconds (timeMarker duration currentTime : UInt32) : Bool :=
  deltaMilliseconds timeMarker currentTime ≥ duration

/-- One roll over between the two readings does no harm. -/
theorem toNat_deltaMilliseconds (startClock endClock : Nat) (h : startClock ≤ endClock)
    (hlt : endClock - startClock < 2 ^ 32) :
    (deltaMilliseconds (milliseconds startClock) (milliseconds endClock)).toNat =
      endClock - startClock := by
  rw [deltaMilliseconds, milliseconds, milliseconds, UInt32.toNat_sub, UInt32.toNat_ofNat',
    UInt32.toNat_ofNat']
  omega

/-- A time that has expired has passed, however often the clock rolled over. -/
theorem le_of_expiredMilliseconds (markClock clock : Nat) (duration : UInt32)
    (h : markClock ≤ clock)
    (hexpired : expiredMilliseconds (milliseconds markClock) duration (milliseconds clock)) :
    markClock + duration.toNat ≤ clock := by
  rw [expiredMilliseconds, decide_eq_true_eq, ge_iff_le, UInt32.le_iff_toNat_le,
    deltaMilliseconds, milliseconds, milliseconds, UInt32.toNat_sub, UInt32.toNat_ofNat',
    UInt32.toNat_ofNat'] at hexpired
  omega

theorem not_expiredMilliseconds_self (now duration : UInt32) (h : 0 < duration) :
    expiredMilliseconds now duration now = false := by
  rw [expiredMilliseconds, deltaMilliseconds, UInt32.sub_self, decide_eq_false_iff_not,
    ge_iff_le, UInt32.not_le]
  exact h

end ColonyPico.System.ElapsedTime
