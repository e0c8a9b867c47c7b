import Mathlib.Data.Nat.Digits.Lemmas

/-!
Numerals with the most significant digit in front.
-/

namespace ColonyPico.Foundations.PositionalDigits

variable {base : Nat}

def value (base : Nat) (digits : List Nat) : Nat :=
  Nat.ofDigits base digits.reverse

/-- The digits of a number, with zeros in front up to a width. -/
def padded (base width n : Nat) : List Nat :=
  (Nat.digitsAppend base width n).reverse

theorem value_nil (base : Nat) : value base [] = 0 :=
  rfl

theorem value_append (base : Nat) (xs ys : List Nat) :
    value base (xs ++ ys) = value base xs * base ^ ys.length + value base ys := by
  rw [value, List.reverse_append, Nat.ofDigits_append, List.length_reverse, Nat.add_comm,
    Nat.mul_comm]
  rfl

theorem value_singleton (base d : Nat) : value base [d] = d :=
  Nat.ofDigits_singleton

theorem value_snoc (base : Nat) (xs : List Nat) (d : Nat) :
    value base (xs ++ [d]) = value base xs * base + d := by
  rw [value_append, value_singleton, List.length_singleton, Nat.pow_one]

theorem value_lt (hbase : 1 < base) {digits : List Nat} (h : ∀ d ∈ digits, d < base) :
    value base digits < base ^ digits.length := by
  rw [value, ← List.length_reverse]
  exact Nat.ofDigits_lt_base_pow_length hbase fun d hd => h d (List.mem_reverse.1 hd)

theorem value_padded (base width n : Nat) : value base (padded base width n) = n := by
  rw [value, padded, List.reverse_reverse, Nat.digitsAppend, Nat.ofDigits_append_replicate_zero,
    Nat.ofDigits_digits]

theorem lt_of_mem_padded (hbase : 1 < base) {width n d : Nat} (h : d ∈ padded base width n) :
    d < base :=
  Nat.lt_of_mem_digitsAppend hbase width d (List.mem_reverse.1 h)

theorem le_length_padded (base width n : Nat) : width ≤ (padded base width n).length := by
  rw [padded, List.length_reverse, Nat.digitsAppend, List.length_append, List.length_replicate]
  omega

theorem length_padded (hbase : 1 < base) {width n : Nat} (h : n < base ^ width) :
    (padded base width n).length = width := by
  rw [padded, List.length_reverse, Nat.length_digitsAppend hbase width h]

theorem length_padded_le (hbase : 1 < base) {width k n : Nat} (hwidth : width ≤ k)
    (h : n < base ^ k) : (padded base width n).length ≤ k := by
  have hdigits := (Nat.digits_length_le_iff hbase n).2 h
  rw [padded, List.length_reverse, Nat.digitsAppend, List.length_append, List.length_replicate]
  omega

section Nibbles

theorem toNat_shiftRight (c : UInt8) : (c >>> 4).toNat = c.toNat / 16 := by
  have hshift : (c >>> 4).toNat = c.toNat >>> 4 := rfl
  rw [hshift, Nat.shiftRight_eq_div_pow]

theorem toNat_and (c : UInt8) : (c &&& 0x0f).toNat = c.toNat % 16 := by
  have hand : (c &&& 0x0f).toNat = c.toNat &&& (2 ^ 4 - 1) := rfl
  rw [hand, Nat.and_two_pow_sub_one_eq_mod]

theorem toNat_shiftRight_and (c : UInt8) : ((c >>> 4) &&& 0x0f).toNat = c.toNat / 16 := by
  have hlt := c.toNat_lt
  rw [toNat_and, toNat_shiftRight, Nat.mod_eq_of_lt (by omega)]

end Nibbles

end ColonyPico.Foundations.PositionalDigits
