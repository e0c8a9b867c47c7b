import ColonyPico.Storm.Config
import Mathlib.Algebra.Order.Field.Basic
import Mathlib.Data.Rat.Floor
import Mathlib.Tactic.Linarith

/-!
On and off cycle times for a load (`Storm::Utils::DutyCycle`).
-/

namespace ColonyPico.Storm.DutyCycle

open ColonyPico.Storm.Config

/-- A conversion of floating point values to `uint32_t`. Out of range the language leaves
the result open. -/
structure ToUInt32 where
  convert : ℚ → Nat
  convert_of_lt : ∀ x : ℚ, 0 ≤ x → x < 2 ^ 32 → convert x = ⌊x⌋₊

/-- The conversion that truncates whatever the range. -/
def ToUInt32.truncation : ToUInt32 :=
  ⟨fun x => ⌊x⌋₊, fun _ _ _ => rfl⟩

/-- `k_`: the cycle times at half load, in seconds. -/
def k : Cph → ℚ
  | .cph2 => 450
  | .cph3 => 300
  | .cph4 => 225
  | .cph5 => 180
  | .cph6 => 150

def maxMinimumTimeLimits : Cph → Nat
  | .cph2 => 15 * 60
  | .cph3 => 10 * 60
  | .cph4 => 450
  | .cph5 => 6 * 60
  | .cph6 => 5 * 60

def normalizePv (pvVar pvLowerBound pvUpperBound : ℚ) : ℚ :=
  if pvVar < pvLowerBound then 0
  else if (pvVar - pvLowerBound) / (pvUpperBound - pvLowerBound) > 1 then 1
  else (pvVar - pvLowerBound) / (pvUpperBound - pvLowerBound)

/-- A cycle's time for the share of the load that shortens it. -/
def cycleTime (conv : ToUInt32) (share : ℚ) (minTime : Nat) (cyclesPerHour : Cph) : Nat :=
  let time :=
    if areFloatsEqual share 0 then 0xFFFFFFFF else conv.convert (k cyclesPerHour / share)
  max time (min minTime (maxMinimumTimeLimits cyclesPerHour))

def calculateOffTime (conv : ToUInt32) (pvVar : ℚ) (minOffTime : Nat) (cyclesPerHour : Cph)
    (pvLowerBound pvUpperBound : ℚ) : Nat :=
  cycleTime conv (normalizePv pvVar pvLowerBound pvUpperBound) minOffTime cyclesPerHour

def calculateOnTime (conv : ToUInt32) (pvVar : ℚ) (minOnTime : Nat) (cyclesPerHour : Cph)
    (pvLowerBound pvUpperBound : ℚ) : Nat :=
  cycleTime conv (1 - normalizePv pvVar pvLowerBound pvUpperBound) minOnTime cyclesPerHour

/-- `ComfortStageParameters_T::validate()`, for a `cph` in range. -/
def validateStage (parms : ComfortStage) : ComfortStage :=
  { parms with
    minOffTime := min parms.minOffTime (maxMinimumTimeLimits parms.cph)
    minOnTime := min parms.minOnTime (maxMinimumTimeLimits parms.cph) }

/-- `ComfortConfig_T::validate()`. -/
def validate (cfg : ComfortConfig) : ComfortConfig :=
  { compressorCooling := validateStage cfg.compressorCooling
    compressorHeating := validateStage cfg.compressorHeating
    indoorHeating := validateStage cfg.indoorHeating }

theorem normalizePv_mem (pvVar : ℚ) {pvLowerBound pvUpperBound : ℚ}
    (h : pvLowerBound < pvUpperBound) :
    0 ≤ normalizePv pvVar pvLowerBound pvUpperBound ∧
      normalizePv pvVar pvLowerBound pvUpperBound ≤ 1 := by
  rw [normalizePv]
  split_ifs with hlow hhigh
  · exact ⟨le_rfl, zero_le_one⟩
  · exact ⟨zero_le_one, le_rfl⟩
  · exact ⟨div_nonneg (by linarith) (by linarith), not_lt.mp hhigh⟩

theorem k_bounds (cyclesPerHour : Cph) : 150 ≤ k cyclesPerHour ∧ k cyclesPerHour ≤ 450 := by
  cases cyclesPerHour <;> simp only [k] <;> constructor <;> norm_num

/-- At half of the load and more the conversion is in range. -/
theorem le_cycleTime (conv : ToUInt32) {share : ℚ} (hlow : 1 / 2 ≤ share) (hhigh : share ≤ 1)
    (minTime : Nat) (cyclesPerHour : Cph) :
    150 ≤ cycleTime conv share minTime cyclesPerHour := by
  obtain ⟨hk, hk'⟩ := k_bounds cyclesPerHour
  have hpos : 0 < share := by linarith
  have hquot : 150 ≤ k cyclesPerHour / share := by
    rw [le_div_iff₀ hpos]
    nlinarith
  have hlt : k cyclesPerHour / share < 2 ^ 32 := by
    rw [div_lt_iff₀ hpos]
    nlinarith
  refine le_max_of_le_left ?_
  split_ifs
  · norm_num
  · rw [conv.convert_of_lt _ (by linarith) hlt]
    exact Nat.le_floor (by exact_mod_cast hquot)

theorem cycle_not_empty (conv : ToUInt32) (pvVar : ℚ) (minOnTime minOffTime : Nat)
    (cyclesPerHour : Cph) {pvLowerBound pvUpperBound : ℚ} (h : pvLowerBound < pvUpperBound) :
    0 < calculateOnTime conv pvVar minOnTime cyclesPerHour pvLowerBound pvUpperBound ∨
      0 < calculateOffTime conv pvVar minOffTime cyclesPerHour pvLowerBound pvUpperBound := by
  obtain ⟨hzero, hone⟩ := normalizePv_mem pvVar h
  by_cases hhalf : 1 / 2 ≤ normalizePv pvVar pvLowerBound pvUpperBound
  · have hle := le_cycleTime conv hhalf hone minOffTime cyclesPerHour
    exact .inr (lt_of_lt_of_le (by norm_num) hle)
  · have hrest : 1 / 2 ≤ 1 - normalizePv pvVar pvLowerBound pvUpperBound := by linarith
    have hle := le_cycleTime conv hrest (by linarith) minOnTime cyclesPerHour
    exact .inl (lt_of_lt_of_le (by norm_num) hle)

end ColonyPico.Storm.DutyCycle
