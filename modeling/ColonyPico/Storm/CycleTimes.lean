import ColonyPico.Storm.DutyCycle
import Mathlib.Tactic.FieldSimp
import Mathlib.Tactic.Positivity

/-!
The cycle times as functions of the load (`Storm::Utils::DutyCycle`), where the conversion to
`uint32_t` keeps the low 32 bits.
-/

namespace ColonyPico.Storm.CycleTimes

open Config DutyCycle

/-- The conversion to `uint32_t`. -/
def wrapping : ToUInt32 :=
  { convert := fun x => ⌊x⌋₊ % 2 ^ 32
    convert_of_lt := fun _ hnonneg hlt =>
      Nat.mod_eq_of_lt ((Nat.floor_lt hnonneg).2 (by exact_mod_cast hlt)) }

/-- The time of half a cycle at half load, in seconds. -/
def halfCycle : Cph → Nat
  | .cph2 => 900
  | .cph3 => 600
  | .cph4 => 450
  | .cph5 => 360
  | .cph6 => 300

/-- What is converted has 32 bits. -/
def Fits (cyclesPerHour : Cph) (share : ℚ) : Prop :=
  areFloatsEqual share 0 = false → k cyclesPerHour / share < 2 ^ 32

/-- The times of a cycle at two loads, the second of which is not below the first. -/
structure CycleLaws (cyclesPerHour : Cph) (lower upper : ℚ) (minOnTime minOffTime : Nat)
    (load load' : ℚ) : Prop where
  offTime_antitone :
    calculateOffTime wrapping load' minOffTime cyclesPerHour lower upper ≤
      calculateOffTime wrapping load minOffTime cyclesPerHour lower upper
  onTime_monotone :
    calculateOnTime wrapping load minOnTime cyclesPerHour lower upper ≤
      calculateOnTime wrapping load' minOnTime cyclesPerHour lower upper
  minOffTime_le : ∀ x ∈ [load, load'], min minOffTime (maxMinimumTimeLimits cyclesPerHour) ≤
    calculateOffTime wrapping x minOffTime cyclesPerHour lower upper
  minOnTime_le : ∀ x ∈ [load, load'], min minOnTime (maxMinimumTimeLimits cyclesPerHour) ≤
    calculateOnTime wrapping x minOnTime cyclesPerHour lower upper
  fits : ∀ x ∈ [load, load'], Fits cyclesPerHour (normalizePv x lower upper) ∧
    Fits cyclesPerHour (1 - normalizePv x lower upper)
  offTime_midpoint :
    calculateOffTime wrapping ((lower + upper) / 2) minOffTime cyclesPerHour lower upper =
      max (halfCycle cyclesPerHour) (min minOffTime (maxMinimumTimeLimits cyclesPerHour))
  onTime_midpoint :
    calculateOnTime wrapping ((lower + upper) / 2) minOnTime cyclesPerHour lower upper =
      max (halfCycle cyclesPerHour) (min minOnTime (maxMinimumTimeLimits cyclesPerHour))

/-- A distance from a bound that counts as none, or is far enough for the time that it leads to. -/
def Apart (cyclesPerHour : Cph) (span distance : ℚ) : Prop :=
  distance < span / 2 ^ 46 ∨ k cyclesPerHour * span / 2 ^ 32 < distance

/-- A load that is not too close to a bound, unless it is on it. -/
def ApartFromBounds (cyclesPerHour : Cph) (lower upper load : ℚ) : Prop :=
  Apart cyclesPerHour (upper - lower) (load - lower) ∧
    Apart cyclesPerHour (upper - lower) (upper - load)

section Share

variable {cyclesPerHour : Cph} {share share' : ℚ}

theorem areFloatsEqual_zero (hnonneg : 0 ≤ share) :
    areFloatsEqual share 0 = true ↔ share < 1 / 2 ^ 46 := by
  simp only [areFloatsEqual, sub_zero, abs_of_nonneg hnonneg, abs_zero, add_zero, or_true, true_and]
  rcases hnonneg.eq_or_lt with rfl | hpos
  · simp
  · rw [if_neg hpos.ne']
    split_ifs with hsmall
    · rw [decide_eq_true_iff]
      norm_num
    · rw [div_self hpos.ne', decide_eq_true_iff]
      refine iff_of_false (by norm_num) fun hlt => hsmall (hlt.trans ?_)
      norm_num

theorem k_pos (cyclesPerHour : Cph) : 0 < k cyclesPerHour :=
  lt_of_lt_of_le (by norm_num) (k_bounds cyclesPerHour).1

theorem fits_iff (hnonneg : 0 ≤ share) :
    Fits cyclesPerHour share ↔ share < 1 / 2 ^ 46 ∨ k cyclesPerHour / 2 ^ 32 < share := by
  rw [Fits, ← Bool.not_eq_true, areFloatsEqual_zero hnonneg, not_lt]
  constructor
  · intro h
    rcases lt_or_ge share (1 / 2 ^ 46) with hsmall | hlarge
    · exact Or.inl hsmall
    · have hpos : 0 < share := lt_of_lt_of_le (by positivity) hlarge
      have hquot := h hlarge
      rw [div_lt_iff₀ hpos] at hquot
      exact Or.inr (by rw [div_lt_iff₀ (by positivity), mul_comm]; exact hquot)
  · rintro (hsmall | hfar) hlarge
    · exact absurd hsmall (not_lt.2 hlarge)
    · have hpos : 0 < share := lt_of_lt_of_le (by positivity) hlarge
      rw [div_lt_iff₀ (by positivity), mul_comm] at hfar
      rw [div_lt_iff₀ hpos]
      exact hfar

theorem cycleTime_eq (hnonneg : 0 ≤ share) (hfits : Fits cyclesPerHour share) (minTime : Nat) :
    cycleTime wrapping share minTime cyclesPerHour =
      max (if share < 1 / 2 ^ 46 then 2 ^ 32 - 1 else ⌊k cyclesPerHour / share⌋₊)
        (min minTime (maxMinimumTimeLimits cyclesPerHour)) := by
  have hzero := areFloatsEqual_zero hnonneg
  unfold cycleTime
  simp only [hzero]
  split_ifs with hsmall
  · rfl
  · have hquot := hfits (Bool.eq_false_iff.2 fun h => hsmall (hzero.1 h))
    rw [wrapping.convert_of_lt _ (div_nonneg (k_pos _).le hnonneg) hquot]

theorem cycleTime_antitone (hnonneg : 0 ≤ share) (hle : share ≤ share')
    (hfits : Fits cyclesPerHour share) (hfits' : Fits cyclesPerHour share') (minTime : Nat) :
    cycleTime wrapping share' minTime cyclesPerHour ≤
      cycleTime wrapping share minTime cyclesPerHour := by
  have hnonneg' := hnonneg.trans hle
  rw [cycleTime_eq hnonneg hfits, cycleTime_eq hnonneg' hfits']
  refine max_le_max_right _ ?_
  split_ifs with hsmall' hsmall hsmall
  · exact le_rfl
  · exact absurd (lt_of_le_of_lt hle hsmall') hsmall
  · have hquot := hfits' (Bool.eq_false_iff.2 fun h => hsmall' ((areFloatsEqual_zero hnonneg').1 h))
    have hfloor : ⌊k cyclesPerHour / share'⌋₊ < 2 ^ 32 :=
      (Nat.floor_lt (div_nonneg (k_pos _).le hnonneg')).2 (by exact_mod_cast hquot)
    omega
  · have hpos : 0 < share := lt_of_lt_of_le (by positivity) (not_lt.1 hsmall)
    exact Nat.floor_mono (div_le_div_of_nonneg_left (k_pos _).le hpos hle)

theorem min_le_cycleTime (share : ℚ) (minTime : Nat) :
    min minTime (maxMinimumTimeLimits cyclesPerHour) ≤
      cycleTime wrapping share minTime cyclesPerHour :=
  le_max_right _ _

theorem cycleTime_half (minTime : Nat) :
    cycleTime wrapping (1 / 2) minTime cyclesPerHour =
      max (halfCycle cyclesPerHour) (min minTime (maxMinimumTimeLimits cyclesPerHour)) := by
  have hfits : Fits cyclesPerHour (1 / 2) := by
    intro _
    have hk := (k_bounds cyclesPerHour).2
    rw [div_lt_iff₀ (by norm_num)]
    linarith
  have hquot : k cyclesPerHour / (1 / 2) = halfCycle cyclesPerHour := by
    cases cyclesPerHour with
    | _ => norm_num [k, halfCycle]
  rw [cycleTime_eq (by norm_num) hfits, if_neg (by norm_num), hquot, Nat.floor_natCast]

end Share

section Load

variable {cyclesPerHour : Cph} {lower upper load load' : ℚ}

theorem normalizePv_mono (h : lower < upper) (hle : load ≤ load') :
    normalizePv load lower upper ≤ normalizePv load' lower upper := by
  obtain ⟨hnonneg, hone⟩ := normalizePv_mem load' h
  unfold normalizePv at hnonneg hone ⊢
  have hspan : 0 < upper - lower := sub_pos.2 h
  have hquot : (load - lower) / (upper - lower) ≤ (load' - lower) / (upper - lower) :=
    div_le_div_of_nonneg_right (by linarith) hspan.le
  split_ifs at hnonneg hone ⊢ with hlow hlow' hhigh' hhigh hlow' hhigh' hhigh' <;> linarith

theorem normalizePv_midpoint (h : lower < upper) :
    normalizePv ((lower + upper) / 2) lower upper = 1 / 2 := by
  have hspan : upper - lower ≠ 0 := (sub_pos.2 h).ne'
  have hquot : ((lower + upper) / 2 - lower) / (upper - lower) = 1 / 2 := by
    rw [div_eq_iff hspan]
    ring
  unfold normalizePv
  rw [if_neg (by linarith), hquot, if_neg (by norm_num)]

/-- A share of the load is seen as a distance from the bound. -/
theorem apart_iff (h : lower < upper) {distance share : ℚ}
    (hshare : share = distance / (upper - lower)) :
    Apart cyclesPerHour (upper - lower) distance ↔
      share < 1 / 2 ^ 46 ∨ k cyclesPerHour / 2 ^ 32 < share := by
  have hspan : 0 < upper - lower := sub_pos.2 h
  rw [Apart, hshare, div_lt_iff₀ hspan, lt_div_iff₀ hspan, one_div_mul_eq_div, div_mul_eq_mul_div]

/-- A distance below zero counts as none, and one above the span is far enough. -/
theorem apart_of_outside (h : lower < upper) {distance : ℚ}
    (hdistance : distance ≤ 0 ∨ upper - lower ≤ distance) :
    Apart cyclesPerHour (upper - lower) distance := by
  have hspan : 0 < upper - lower := sub_pos.2 h
  rcases hdistance with hneg | hfar
  · exact Or.inl (lt_of_le_of_lt hneg (by positivity))
  · have hk := (k_bounds cyclesPerHour).2
    refine Or.inr (lt_of_lt_of_le ?_ hfar)
    rw [div_lt_iff₀ (by positivity)]
    nlinarith

theorem apartFromBounds_iff (h : lower < upper) (load : ℚ) :
    ApartFromBounds cyclesPerHour lower upper load ↔
      Fits cyclesPerHour (normalizePv load lower upper) ∧
        Fits cyclesPerHour (1 - normalizePv load lower upper) := by
  have hspan : 0 < upper - lower := sub_pos.2 h
  have hfits : ∀ share : ℚ, share = 0 ∨ share = 1 → Fits cyclesPerHour share := by
    have hk := (k_bounds cyclesPerHour).2
    rintro share (rfl | rfl)
    · exact (fits_iff le_rfl).2 (Or.inl (by positivity))
    · exact (fits_iff zero_le_one).2 (Or.inr (by rw [div_lt_iff₀ (by positivity)]; linarith))
  obtain ⟨hnonneg, hone⟩ := normalizePv_mem load h
  unfold normalizePv at hnonneg hone ⊢
  split_ifs at hnonneg hone ⊢ with hlow hhigh
  · refine iff_of_true ⟨apart_of_outside h (Or.inl (by linarith)),
      apart_of_outside h (Or.inr (by linarith))⟩ ⟨hfits _ (Or.inl rfl), hfits _ (Or.inr (by ring))⟩
  · rw [gt_iff_lt, lt_div_iff₀ hspan] at hhigh
    refine iff_of_true ⟨apart_of_outside h (Or.inr (by linarith)),
      apart_of_outside h (Or.inl (by linarith))⟩ ⟨hfits _ (Or.inr rfl), hfits _ (Or.inl (by ring))⟩
  · have hrest : 1 - (load - lower) / (upper - lower) = (upper - load) / (upper - lower) := by
      rw [eq_div_iff hspan.ne', sub_mul, div_mul_cancel₀ _ hspan.ne']
      ring
    rw [ApartFromBounds, apart_iff h rfl, apart_iff h hrest, fits_iff hnonneg,
      fits_iff (sub_nonneg.2 hone)]

/-- The times follow the load exactly at loads that are not too close to a bound. -/
theorem cycleTimes_cycleLaws_iff (h : lower < upper) (minOnTime minOffTime : Nat)
    (hle : load ≤ load') :
    CycleLaws cyclesPerHour lower upper minOnTime minOffTime load load' ↔
      ApartFromBounds cyclesPerHour lower upper load ∧
        ApartFromBounds cyclesPerHour lower upper load' := by
  rw [apartFromBounds_iff h, apartFromBounds_iff h]
  constructor
  · intro hlaws
    exact ⟨hlaws.fits load (by simp), hlaws.fits load' (by simp)⟩
  · rintro ⟨⟨hoff, hon⟩, hoff', hon'⟩
    have hmono := normalizePv_mono h hle
    have hmem := normalizePv_mem load h
    have hmem' := normalizePv_mem load' h
    have hhalf : (1 : ℚ) - 1 / 2 = 1 / 2 := by norm_num
    refine ⟨cycleTime_antitone hmem.1 hmono hoff hoff' minOffTime,
      cycleTime_antitone (sub_nonneg.2 hmem'.2) (by linarith) hon' hon minOnTime,
      fun x _ => min_le_cycleTime _ _, fun x _ => min_le_cycleTime _ _, ?_, ?_, ?_⟩
    · rintro x hx
      rcases List.mem_pair.1 hx with rfl | rfl
      · exact ⟨hoff, hon⟩
      · exact ⟨hoff', hon'⟩
    · rw [calculateOffTime, normalizePv_midpoint h, cycleTime_half]
    · rw [calculateOnTime, normalizePv_midpoint h, hhalf, cycleTime_half]

theorem cycleTimes_cycleLaws_quarter :
    CycleLaws .cph3 0 100 300 300 25 75 := by
  refine (cycleTimes_cycleLaws_iff (by norm_num) 300 300 (by norm_num)).2 ⟨⟨?_, ?_⟩, ?_, ?_⟩
  · exact Or.inr (by norm_num [k])
  · exact Or.inr (by norm_num [k])
  · exact Or.inr (by norm_num [k])
  · exact Or.inr (by norm_num [k])

/-- A load just above the lower bound has a shorter time off than half load. -/
theorem cycleTimes_not_cycleLaws :
    ¬ ∀ (cyclesPerHour : Cph) (lower upper : ℚ) (minOnTime minOffTime : Nat) (load load' : ℚ),
      lower < upper → load ≤ load' →
        CycleLaws cyclesPerHour lower upper minOnTime minOffTime load load' := by
  intro h
  have hlaws := h .cph3 0 1 0 0 (1 / 2 ^ 40) (1 / 2) (by norm_num) (by norm_num)
  obtain ⟨⟨hlow, -⟩, -⟩ := (cycleTimes_cycleLaws_iff (by norm_num) 0 0 (by norm_num)).1 hlaws
  rcases hlow with hsmall | hfar
  · norm_num at hsmall
  · norm_num [k] at hfar

end Load

end ColonyPico.Storm.CycleTimes
