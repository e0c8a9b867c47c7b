import Mathlib.Algebra.Field.ZMod
import Mathlib.Algebra.Polynomial.Div
import Mathlib.Tactic.LinearCombination
import ColonyPico.Foundations.ShiftRegister

/-!
Shift registers compute remainders of polynomials over the field of two elements.
-/

namespace ColonyPico.Foundations.PolynomialDivision

open Polynomial
open ColonyPico.Foundations.ShiftRegister

variable {w : Nat}

def bit (b : Bool) : ZMod 2 :=
  if b then 1 else 0

/-- The polynomial whose coefficients a register holds. -/
noncomputable def ofRegister (s : BitVec w) : (ZMod 2)[X] :=
  ∑ i ∈ Finset.range w, C (bit (s.getLsbD i)) * X ^ i

/-- The polynomial of a bit string, highest coefficient first. -/
noncomputable def ofBits (bits : List Bool) : (ZMod 2)[X] :=
  bits.foldl (fun p b => p * X + C (bit b)) 0

/-- The divisor whose lower coefficients are those of the generator. -/
noncomputable def divisor (g : BitVec w) : (ZMod 2)[X] :=
  X ^ w + ofRegister g

theorem bit_xor (b c : Bool) : bit (b ^^ c) = bit b + bit c := by
  cases b <;> cases c <;> decide

theorem coeff_ofRegister (s : BitVec w) (i : Nat) :
    (ofRegister s).coeff i = bit (s.getLsbD i) := by
  rw [ofRegister, finsetSum_coeff]
  simp only [coeff_C_mul, coeff_X_pow, mul_ite, mul_one, mul_zero]
  rw [Finset.sum_ite_eq]
  split_ifs with hi
  · rfl
  · rw [BitVec.getLsbD_of_ge s i (by simpa using hi)]
    rfl

theorem ofRegister_eq_sum (s : BitVec w) :
    ofRegister s = ∑ i ∈ (Finset.range w).filter (s.getLsbD · = true), X ^ i := by
  rw [ofRegister, Finset.sum_filter]
  apply Finset.sum_congr rfl
  intro i _
  cases s.getLsbD i <;> simp [bit]

theorem ofBits_append_singleton (bits : List Bool) (b : Bool) :
    ofBits (bits ++ [b]) = ofBits bits * X + C (bit b) := by
  rw [ofBits, List.foldl_append]
  rfl

theorem degree_ofRegister_lt (s : BitVec w) : (ofRegister s).degree < w := by
  rw [degree_lt_iff_coeff_zero]
  intro i hi
  rw [coeff_ofRegister, BitVec.getLsbD_of_ge s i hi]
  rfl

theorem monic_divisor (g : BitVec w) : (divisor g).Monic :=
  monic_X_pow_add (degree_ofRegister_lt g)

theorem degree_divisor (g : BitVec w) : (divisor g).degree = w := by
  rw [divisor, degree_add_eq_left_of_degree_lt, degree_X_pow]
  rw [degree_X_pow]
  exact degree_ofRegister_lt g

theorem ofRegister_xor (s t : BitVec w) :
    ofRegister (s ^^^ t) = ofRegister s + ofRegister t := by
  ext i
  rw [coeff_add, coeff_ofRegister, coeff_ofRegister, coeff_ofRegister, BitVec.getLsbD_xor, bit_xor]

/-- The bit that a shift drops is the coefficient that multiplying by `X` pushes out. -/
theorem ofRegister_shiftLeft (hw : 0 < w) (s : BitVec w) :
    ofRegister (s <<< 1) + C (bit s.msb) * X ^ w = ofRegister s * X := by
  ext i
  rw [coeff_add, coeff_C_mul, coeff_X_pow, coeff_ofRegister]
  cases i with
  | zero =>
      rw [coeff_mul_X_zero, if_neg (by omega)]
      simp [bit]
  | succ i =>
      rw [coeff_mul_X, coeff_ofRegister, BitVec.getLsbD_shiftLeft]
      rcases Nat.lt_trichotomy (i + 1) w with hi | hi | hi
      · simp [hi, Nat.ne_of_lt hi]
      · have htop : s.msb = s.getLsbD i := by
          rw [BitVec.msb_eq_getLsbD_last]
          congr 1
          omega
        simp [hi, htop, bit]
      · rw [BitVec.getLsbD_of_ge s i (by omega), if_neg (by omega)]
        simp [bit, Nat.not_lt_of_gt hi]

theorem clock_eq (g s : BitVec w) (b : Bool) :
    ofRegister (clock g s b) =
      ofRegister (s <<< 1) + C (bit (s.msb ^^ b)) * ofRegister g := by
  rw [clock]
  cases s.msb ^^ b with
  | false => simp [bit]
  | true =>
      rw [if_pos rfl, ofRegister_xor]
      simp [bit]

theorem ofRegister_clock (hw : 0 < w) (g s : BitVec w) (b : Bool) :
    ofRegister (clock g s b) + C (bit (s.msb ^^ b)) * divisor g =
      ofRegister s * X + C (bit b) * X ^ w := by
  have htwo : (2 : (ZMod 2)[X]) = 0 := CharTwo.two_eq_zero
  have hshift := ofRegister_shiftLeft hw s
  rw [clock_eq, divisor, bit_xor, C_add]
  linear_combination hshift +
    (C (bit s.msb) * ofRegister g + C (bit b) * ofRegister g) * htwo

/-- What is left of a string of bits: some multiple of the divisor away from the bits
moved up by the width of the register. -/
theorem ofRegister_run (hw : 0 < w) (g s : BitVec w) (bits : List Bool) :
    ∃ q, ofRegister (run g s bits) + divisor g * q =
      ofRegister s * X ^ bits.length + ofBits bits * X ^ w := by
  induction bits using List.reverseRecOn with
  | nil => exact ⟨0, by simp [ofBits]⟩
  | append_singleton bits b ih =>
      rcases ih with ⟨q, hq⟩
      have hclock := ofRegister_clock hw g (run g s bits) b
      refine ⟨q * X + C (bit ((run g s bits).msb ^^ b)), ?_⟩
      rw [run_append, run_cons, run_nil, ofBits_append_singleton, List.length_append,
        List.length_singleton, pow_succ]
      linear_combination hclock + X * hq

/-- The register holds the remainder of the initial value and the bits after it,
moved up by the width of the register. -/
theorem ofRegister_run_eq (hw : 0 < w) (g s : BitVec w) (bits : List Bool) :
    ofRegister (run g s bits) =
      (ofRegister s * X ^ bits.length + ofBits bits * X ^ w) %ₘ divisor g := by
  rcases ofRegister_run hw g s bits with ⟨q, hq⟩
  have hdegree : (ofRegister (run g s bits)).degree < (divisor g).degree := by
    rw [degree_divisor]
    exact degree_ofRegister_lt _
  exact ((div_modByMonic_unique q _ (monic_divisor g) ⟨hq, hdegree⟩).2).symm

end ColonyPico.Foundations.PolynomialDivision
