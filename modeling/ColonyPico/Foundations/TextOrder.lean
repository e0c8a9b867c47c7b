import Mathlib.Algebra.Group.Int.Defs
import Mathlib.Algebra.Group.Nat.Defs
import Mathlib.Data.List.Lex
import Mathlib.Order.Nat

/-!
Comparison of texts by their bytes, as unsigned numbers, with the end of a text below every byte.
-/

namespace ColonyPico.Foundations.TextOrder

/-- `strcmp()` of two texts, given without their terminators. -/
def strcmp : List UInt8 → List UInt8 → Int
  | [], [] => 0
  | [], _ :: _ => -1
  | _ :: _, [] => 1
  | a :: as, b :: bs => if a = b then strcmp as bs else (a.toNat : Int) - b.toNat

/-- The text in the lexicographic order. -/
def codes (text : List UInt8) : List Nat :=
  text.map UInt8.toNat

theorem strcmp_neg_iff (xs ys : List UInt8) : strcmp xs ys < 0 ↔ codes xs < codes ys := by
  induction xs generalizing ys with
  | nil =>
      cases ys with
      | nil => exact iff_of_false (by rw [strcmp]; decide) (lt_irrefl _)
      | cons b bs => exact iff_of_true (by rw [strcmp]; decide) (List.nil_lt_cons _ _)
  | cons a as ih =>
      cases ys with
      | nil => exact iff_of_false (by rw [strcmp]; decide) (List.not_lt_nil _)
      | cons b bs =>
          rw [codes, codes, List.map_cons, List.map_cons, List.cons_lt_cons_iff, strcmp]
          rcases eq_or_ne a b with rfl | hne
          · rw [if_pos rfl, ih]
            simp [codes]
          · have htoNat : a.toNat ≠ b.toNat := fun heq => hne (UInt8.toNat_inj.mp heq)
            rw [if_neg hne]
            omega

theorem strcmp_swap (xs ys : List UInt8) : 0 < strcmp ys xs ↔ strcmp xs ys < 0 := by
  induction xs generalizing ys with
  | nil => cases ys <;> simp [strcmp]
  | cons a as ih =>
      cases ys with
      | nil => simp [strcmp]
      | cons b bs =>
          rw [strcmp, strcmp]
          rcases eq_or_ne a b with rfl | hne
          · rw [if_pos rfl, if_pos rfl, ih]
          · rw [if_neg hne, if_neg hne.symm]
            omega

theorem strcmp_nonpos_iff (xs ys : List UInt8) : strcmp xs ys ≤ 0 ↔ codes xs ≤ codes ys := by
  have hpos := (strcmp_swap ys xs).trans (strcmp_neg_iff ys xs)
  rw [← Int.not_lt, hpos]
  exact not_lt

/-- `strncmp()` of the first bytes of two buffers, which are that long at least. -/
def strncmp : Nat → List UInt8 → List UInt8 → Int
  | n + 1, a :: as, b :: bs =>
      if a = b then if a = 0 then 0 else strncmp n as bs else (a.toNat : Int) - b.toNat
  | _, _, _ => 0

/-- The bytes up to and with the first terminator. -/
def upToNull : List UInt8 → List UInt8
  | [] => []
  | a :: as => if a = 0 then [a] else a :: upToNull as

/-- One text is the other one or the start of it. -/
def Agree (xs ys : List UInt8) : Prop :=
  upToNull xs <+: upToNull ys ∨ upToNull ys <+: upToNull xs

instance (xs ys : List UInt8) : Decidable (Agree xs ys) :=
  inferInstanceAs (Decidable (_ ∨ _))

theorem strncmp_cons (n : Nat) (a b : UInt8) (as bs : List UInt8) :
    strncmp (n + 1) (a :: as) (b :: bs) =
      if a = b then if a = 0 then 0 else strncmp n as bs else (a.toNat : Int) - b.toNat := rfl

theorem strncmp_isInt (n : Nat) (xs ys : List UInt8) :
    -2 ^ 31 ≤ strncmp n xs ys ∧ strncmp n xs ys < 2 ^ 31 := by
  have hzero : -2 ^ 31 ≤ (0 : Int) ∧ (0 : Int) < 2 ^ 31 := by decide
  induction n generalizing xs ys with
  | zero => exact hzero
  | succ n ih =>
      cases xs with
      | nil => exact hzero
      | cons a as =>
          cases ys with
          | nil => exact hzero
          | cons b bs =>
              have ha : a.toNat < 2 ^ 8 := a.toNat_lt
              have hb : b.toNat < 2 ^ 8 := b.toNat_lt
              rw [strncmp_cons]
              split_ifs
              · exact hzero
              · exact ih as bs
              · omega

theorem agree_cons_ne {a b : UInt8} (hne : a ≠ b) (as bs : List UInt8) :
    ¬ Agree (a :: as) (b :: bs) := by
  simp only [Agree, upToNull]
  split_ifs <;> simp [hne, hne.symm]

theorem agree_cons_zero (as bs : List UInt8) : Agree (0 :: as) (0 :: bs) := by
  simp [Agree, upToNull]

theorem agree_cons {a : UInt8} (ha : a ≠ 0) (as bs : List UInt8) :
    Agree (a :: as) (a :: bs) ↔ Agree as bs := by
  simp [Agree, upToNull, ha]

theorem strncmp_eq_zero_iff (xs ys : List UInt8) :
    strncmp (min xs.length ys.length) xs ys = 0 ↔ Agree xs ys := by
  induction xs generalizing ys with
  | nil => simp [strncmp, Agree, upToNull]
  | cons a as ih =>
      cases ys with
      | nil => simp [strncmp, Agree, upToNull]
      | cons b bs =>
          rw [List.length_cons, List.length_cons, Nat.succ_min_succ, strncmp_cons]
          rcases eq_or_ne a b with rfl | hne
          · rw [if_pos rfl]
            rcases eq_or_ne a 0 with rfl | hzero
            · rw [if_pos rfl]
              exact iff_of_true rfl (agree_cons_zero as bs)
            · rw [if_neg hzero, ih, agree_cons hzero]
          · have htoNat : a.toNat ≠ b.toNat := fun heq => hne (UInt8.toNat_inj.mp heq)
            rw [if_neg hne]
            exact iff_of_false (by omega) (agree_cons_ne hne as bs)

theorem upToNull_cons (a : UInt8) (as : List UInt8) : ∃ us, upToNull (a :: as) = a :: us := by
  rw [upToNull]
  split_ifs <;> exact ⟨_, rfl⟩

theorem codes_injective : Function.Injective codes :=
  List.map_injective_iff.mpr fun _ _ => UInt8.toNat_inj.mp

theorem codes_upToNull_cons {a : UInt8} (ha : a ≠ 0) (as bs : List UInt8) :
    codes (upToNull (a :: as)) < codes (upToNull (a :: bs)) ↔
      codes (upToNull as) < codes (upToNull bs) := by
  simp [upToNull, ha, codes]

theorem strncmp_neg_iff {xs ys : List UInt8} (hnot : ¬ Agree xs ys) :
    strncmp (min xs.length ys.length) xs ys < 0 ↔ codes (upToNull xs) < codes (upToNull ys) := by
  induction xs generalizing ys with
  | nil => exact absurd (by simp [Agree, upToNull]) hnot
  | cons a as ih =>
      cases ys with
      | nil => exact absurd (by simp [Agree, upToNull]) hnot
      | cons b bs =>
          rw [List.length_cons, List.length_cons, Nat.succ_min_succ, strncmp_cons]
          rcases eq_or_ne a b with rfl | hne
          · have hzero : a ≠ 0 := by
              rintro rfl
              exact hnot (agree_cons_zero as bs)
            rw [if_pos rfl, if_neg hzero, ih ((agree_cons hzero as bs).not.mp hnot),
              codes_upToNull_cons hzero]
          · have htoNat : a.toNat ≠ b.toNat := fun heq => hne (UInt8.toNat_inj.mp heq)
            obtain ⟨us, hus⟩ := upToNull_cons a as
            obtain ⟨vs, hvs⟩ := upToNull_cons b bs
            rw [if_neg hne, hus, hvs, codes, codes, List.map_cons, List.map_cons,
              List.cons_lt_cons_iff]
            omega

theorem agree_cases {xs ys : List UInt8} (hagree : Agree xs ys) :
    upToNull xs = upToNull ys ∨
      (codes (upToNull xs) < codes (upToNull ys) ∧ xs.length < ys.length) ∨
      (codes (upToNull ys) < codes (upToNull xs) ∧ ys.length < xs.length) := by
  induction xs generalizing ys with
  | nil =>
      cases ys with
      | nil => exact Or.inl rfl
      | cons b bs =>
          obtain ⟨vs, hvs⟩ := upToNull_cons b bs
          rw [hvs]
          exact Or.inr (Or.inl ⟨List.nil_lt_cons _ _, Nat.succ_pos _⟩)
  | cons a as ih =>
      cases ys with
      | nil =>
          obtain ⟨us, hus⟩ := upToNull_cons a as
          rw [hus]
          exact Or.inr (Or.inr ⟨List.nil_lt_cons _ _, Nat.succ_pos _⟩)
      | cons b bs =>
          rcases eq_or_ne a b with rfl | hne
          · rcases eq_or_ne a 0 with rfl | hzero
            · exact Or.inl (by simp [upToNull])
            · rw [codes_upToNull_cons hzero, codes_upToNull_cons hzero, List.length_cons,
                List.length_cons, Nat.succ_lt_succ_iff, Nat.succ_lt_succ_iff]
              refine (ih ((agree_cons hzero as bs).mp hagree)).imp_left fun heq => ?_
              simp [upToNull, heq]
          · exact absurd hagree (agree_cons_ne hne as bs)

end ColonyPico.Foundations.TextOrder
