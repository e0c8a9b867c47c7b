import Mathlib.Algebra.Group.Nat.Defs
import Mathlib.Tactic.SplitIfs

/-!
Numbers of two digits: the lower digit has the radix `r`, the upper one wraps at `n`.
-/

namespace ColonyPico.Foundations.TwoDigits

/-- The difference of two digits that wrap at `n`. -/
def difference (n a b : Nat) : Nat :=
  (a + n - b) % n

def value (r upper lower : Nat) : Nat :=
  upper * r + lower

variable {n r a b u v l m : Nat}

theorem difference_lt (hn : 0 < n) (a b : Nat) : difference n a b < n :=
  Nat.mod_lt _ hn

theorem difference_of_le (h : b ≤ a) (ha : a < n) : difference n a b = a - b := by
  rw [difference, show a + n - b = a - b + n by omega, Nat.add_mod_right,
    Nat.mod_eq_of_lt (by omega)]

theorem difference_of_lt (h : a < b) (hb : b ≤ n) : difference n a b = a + n - b := by
  rw [difference, Nat.mod_eq_of_lt (by omega)]

/-- Adding what was subtracted gives the first digit back. -/
theorem difference_add_mod (ha : a < n) (hb : b ≤ n) : (difference n a b + b) % n = a := by
  rcases Nat.lt_or_ge a b with h | h
  · rw [difference_of_lt h hb, show a + n - b + b = a + n by omega, Nat.add_mod_right,
      Nat.mod_eq_of_lt ha]
  · rw [difference_of_le h ha, Nat.sub_add_cancel h, Nat.mod_eq_of_lt ha]

theorem value_lt (hu : u < n) (hl : l < r) : value r u l < n * r := by
  have hle : (u + 1) * r ≤ n * r := Nat.mul_le_mul_right r hu
  rw [Nat.succ_mul] at hle
  rw [value]
  omega

/-- The upper digits decide, and the lower ones between equal upper digits. -/
theorem value_lt_value_iff (hl : l < r) (hm : m < r) :
    value r u l < value r v m ↔ u < v ∨ u = v ∧ l < m := by
  rw [value, value]
  rcases Nat.lt_trichotomy u v with h | rfl | h
  · have hle : (u + 1) * r ≤ v * r := Nat.mul_le_mul_right r h
    rw [Nat.succ_mul] at hle
    omega
  · omega
  · have hle : (v + 1) * r ≤ u * r := Nat.mul_le_mul_right r h
    rw [Nat.succ_mul] at hle
    omega

theorem value_div (hl : l < r) : value r u l / r = u := by
  rw [value, Nat.mul_comm, Nat.mul_add_div (by omega), Nat.div_eq_of_lt hl, Nat.add_zero]

theorem value_mod (hl : l < r) : value r u l % r = l := by
  rw [value, Nat.mul_comm, Nat.mul_add_mod, Nat.mod_eq_of_lt hl]

theorem value_inj (hl : l < r) (hm : m < r) :
    value r u l = value r v m ↔ u = v ∧ l = m := by
  constructor
  · intro h
    constructor
    · rw [← value_div (u := u) hl, h, value_div hm]
    · rw [← value_mod (u := u) hl, h, value_mod hm]
  · rintro ⟨rfl, rfl⟩
    rfl

/-- The wrap only reduces the upper digit. -/
theorem value_mod_mul (n : Nat) (hl : l < r) : value r u l % (n * r) = value r (u % n) l := by
  rw [Nat.mul_comm n, Nat.mod_mul, value_div hl, value_mod hl, value, Nat.mul_comm, Nat.add_comm]

theorem value_add_value_mod (n u v l m : Nat) (hr : 0 < r) :
    (value r u l + value r v m) % (n * r) =
      value r ((u + v + (l + m) / r) % n) ((l + m) % r) := by
  have hcarry : value r u l + value r v m = value r (u + v + (l + m) / r) ((l + m) % r) := by
    have hsplit := Nat.div_add_mod (l + m) r
    simp only [value, Nat.add_mul]
    rw [Nat.mul_comm r] at hsplit
    omega
  rw [hcarry, value_mod_mul n (Nat.mod_lt _ hr)]

theorem difference_value (hu : u < n) (hv : v < n) (hl : l < r) (hm : m < r) :
    difference (n * r) (value r u l) (value r v m) =
      if m ≤ l then value r (difference n u v) (l - m)
      else value r (difference n (difference n u v) 1) (l + r - m) := by
  have hlt : value r v m < n * r := value_lt hv hm
  have hsum : ∀ d k, k < r → (value r d k + value r v m) % (n * r) = value r u l →
      d < n → difference (n * r) (value r u l) (value r v m) = value r d k := by
    intro d k hk h hd
    have hdlt : value r d k < n * r := value_lt hd hk
    rw [← h]
    rcases Nat.lt_or_ge (value r d k + value r v m) (n * r) with hw | hw
    · rw [Nat.mod_eq_of_lt hw, difference_of_le (by omega) hw, Nat.add_sub_cancel]
    · rw [Nat.mod_eq_sub_mod hw, Nat.mod_eq_of_lt (by omega), difference_of_lt (by omega) (by omega)]
      omega
  have hn : 0 < n := by omega
  split_ifs with h
  · refine hsum _ _ (by omega) ?_ (difference_lt hn _ _)
    rw [value_add_value_mod n _ _ _ _ (by omega), Nat.sub_add_cancel h, Nat.div_eq_of_lt hl,
      Nat.mod_eq_of_lt hl, Nat.add_zero, difference_add_mod hu (Nat.le_of_lt hv)]
  · refine hsum _ _ (by omega) ?_ (difference_lt hn _ _)
    have hlower : l + r - m + m = l + r := by omega
    rw [value_add_value_mod n _ _ _ _ (by omega), hlower, Nat.add_mod_right, Nat.mod_eq_of_lt hl,
      Nat.add_div_right _ (by omega), Nat.div_eq_of_lt hl]
    have hone : (difference n (difference n u v) 1 + v + Nat.succ 0) % n = u := by
      rw [Nat.add_right_comm, ← Nat.mod_add_mod, difference_add_mod (difference_lt hn _ _) hn,
        difference_add_mod hu (Nat.le_of_lt hv)]
    rw [hone]

end ColonyPico.Foundations.TwoDigits
