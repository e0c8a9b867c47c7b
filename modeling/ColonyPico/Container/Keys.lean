import Mathlib.Data.Prod.Lex
import Mathlib.Data.List.Lex
import ColonyPico.Foundations.SignedComparison
import ColonyPico.Foundations.TextOrder

/-!
Keys that are buffers of characters (`Cpl::Container::KeyStringBuffer`).
-/

namespace ColonyPico.Container.Keys

open ColonyPico.Foundations.SignedComparison
open ColonyPico.Foundations.TextOrder

/-- The bytes of the buffer; their number is an `unsigned`. -/
structure KeyStringBuffer where
  m_stringKeyPtr : List UInt8
  len_lt : m_stringKeyPtr.length < 2 ^ 32

/-- A C library. Of the result of `strncmp()` it fixes the sign only. -/
structure CLibrary where
  strncmp : Nat → List UInt8 → List UInt8 → Int
  sign_strncmp : ∀ n xs ys, n ≤ xs.length → n ≤ ys.length →
    (strncmp n xs ys).sign = (Foundations.TextOrder.strncmp n xs ys).sign
  isInt : ∀ n xs ys, -2 ^ 31 ≤ strncmp n xs ys ∧ strncmp n xs ys < 2 ^ 31

/-- A library whose `strncmp()` returns the difference of the first bytes that differ. -/
def CLibrary.differences : CLibrary :=
  { strncmp := Foundations.TextOrder.strncmp
    sign_strncmp := fun _ _ _ _ _ => rfl
    isInt := strncmp_isInt }

/-- An `unsigned` as an `int`. -/
def toInt (n : Int) : Int :=
  n.bmod (2 ^ 32)

namespace KeyStringBuffer

def m_len (key : KeyStringBuffer) : Nat :=
  key.m_stringKeyPtr.length

/-- `compare()`; nothing is a null pointer. -/
def compare (lib : CLibrary) : Option KeyStringBuffer → Option KeyStringBuffer → Int
  | some mine, some other =>
      let myLen := mine.m_len
      let otherLen := other.m_len
      let cmpLen := if myLen > otherLen then otherLen else myLen
      let comparision := lib.strncmp cmpLen mine.m_stringKeyPtr other.m_stringKeyPtr
      if comparision = 0 ∧ myLen ≠ otherLen then toInt (myLen - toInt otherLen)
      else comparision
  | _, _ => -1

theorem toInt_isInt (n : Int) : -2 ^ 31 ≤ toInt n ∧ toInt n < 2 ^ 31 := by
  rw [toInt, Int.bmod]
  split_ifs <;> omega

theorem compare_isInt (lib : CLibrary) (a b : Option KeyStringBuffer) :
    -2 ^ 31 ≤ compare lib a b ∧ compare lib a b < 2 ^ 31 := by
  have hnull : -2 ^ 31 ≤ (-1 : Int) ∧ (-1 : Int) < 2 ^ 31 := by decide
  cases a with
  | none => exact hnull
  | some a =>
      cases b with
      | none => exact hnull
      | some b =>
          simp only [compare]
          rcases Classical.em (lib.strncmp (if a.m_len > b.m_len then b.m_len else a.m_len)
            a.m_stringKeyPtr b.m_stringKeyPtr = 0 ∧ a.m_len ≠ b.m_len) with hlen | hlen
          · rw [if_pos hlen]
            exact toInt_isInt _
          · rw [if_neg hlen]
            exact lib.isInt _ _ _

/-- The bytes of one text begin the other, up to a common terminator. -/
def Agree (a b : KeyStringBuffer) : Prop :=
  Foundations.TextOrder.Agree a.m_stringKeyPtr b.m_stringKeyPtr

/-- A key is ordered by its text up to a terminator, then by its length. -/
def rank (a : KeyStringBuffer) : List Nat ×ₗ Nat :=
  toLex (codes (upToNull a.m_stringKeyPtr), a.m_len)

/-- The difference of the lengths comes out with the other sign. -/
def Far (a b : KeyStringBuffer) : Prop :=
  a.Agree b ∧ a.m_len + 2 ^ 31 < b.m_len

/-- The difference of the lengths is the same both ways. -/
def Half (a b : KeyStringBuffer) : Prop :=
  a.Agree b ∧ a.m_len + 2 ^ 31 = b.m_len

theorem toInt_sub (a b : KeyStringBuffer) :
    toInt (a.m_len - toInt b.m_len) = toInt (a.m_len - b.m_len) := by
  rw [toInt, toInt, toInt, Int.sub_bmod_bmod]

theorem rank_lt_iff (a b : KeyStringBuffer) :
    a.rank < b.rank ↔ codes (upToNull a.m_stringKeyPtr) < codes (upToNull b.m_stringKeyPtr) ∨
      codes (upToNull a.m_stringKeyPtr) = codes (upToNull b.m_stringKeyPtr) ∧ a.m_len < b.m_len :=
  Prod.Lex.toLex_lt_toLex

theorem rank_eq_iff (a b : KeyStringBuffer) :
    a.rank = b.rank ↔ upToNull a.m_stringKeyPtr = upToNull b.m_stringKeyPtr ∧
      a.m_len = b.m_len := by
  rw [rank, rank, toLex_inj, Prod.mk.injEq, codes_injective.eq_iff]

theorem rank_of_agree {a b : KeyStringBuffer} (hagree : a.Agree b) :
    (a.rank < b.rank ↔ a.m_len < b.m_len) ∧ (a.rank = b.rank ↔ a.m_len = b.m_len) := by
  rw [rank_lt_iff, rank_eq_iff]
  have hcases := agree_cases hagree
  rcases hcases with heq | ⟨hlt, hlen⟩ | ⟨hlt, hlen⟩
  · simp [heq]
  · refine ⟨iff_of_true (Or.inl hlt) hlen, iff_of_false ?_ hlen.ne⟩
    exact fun heq => heq.2.not_lt hlen
  · refine ⟨iff_of_false ?_ hlen.not_gt, iff_of_false ?_ hlen.ne'⟩
    · rintro (hlt' | ⟨heq, -⟩)
      · exact hlt.asymm hlt'
      · exact hlt.ne' heq
    · exact fun heq => heq.2.not_gt hlen

/-- What `strncmp()` returns for the bytes that both keys have. -/
def comparision (lib : CLibrary) (a b : KeyStringBuffer) : Int :=
  lib.strncmp (min a.m_len b.m_len) a.m_stringKeyPtr b.m_stringKeyPtr

theorem compare_eq (lib : CLibrary) (a b : KeyStringBuffer) :
    compare lib (some a) (some b) =
      if comparision lib a b = 0 ∧ a.m_len ≠ b.m_len then toInt (a.m_len - b.m_len)
      else comparision lib a b := by
  have hmin : (if a.m_len > b.m_len then b.m_len else a.m_len) = min a.m_len b.m_len := by
    split_ifs <;> omega
  simp only [compare, hmin, toInt_sub]
  rfl

theorem sign_comparision (lib : CLibrary) (a b : KeyStringBuffer) :
    (comparision lib a b = 0 ↔ a.Agree b) ∧
      (¬ a.Agree b → (comparision lib a b < 0 ↔
        codes (upToNull a.m_stringKeyPtr) < codes (upToNull b.m_stringKeyPtr))) := by
  have hsign := lib.sign_strncmp (min a.m_len b.m_len) a.m_stringKeyPtr b.m_stringKeyPtr
    (Nat.min_le_left _ _) (Nat.min_le_right _ _)
  constructor
  · rw [comparision, ← Int.sign_eq_zero_iff_zero, hsign, Int.sign_eq_zero_iff_zero]
    exact strncmp_eq_zero_iff _ _
  · intro hnot
    rw [comparision, ← Int.sign_eq_neg_one_iff_neg, hsign, Int.sign_eq_neg_one_iff_neg]
    exact strncmp_neg_iff hnot

theorem compare_of_agree (lib : CLibrary) {a b : KeyStringBuffer} (hagree : a.Agree b) :
    compare lib (some a) (some b) = toInt (a.m_len - b.m_len) := by
  have hzero := (sign_comparision lib a b).1.mpr hagree
  rw [compare_eq, hzero]
  rcases eq_or_ne a.m_len b.m_len with heq | hne
  · simp [heq, toInt]
  · rw [if_pos ⟨rfl, hne⟩]

theorem compare_of_not_agree (lib : CLibrary) {a b : KeyStringBuffer} (hnot : ¬ a.Agree b) :
    compare lib (some a) (some b) ≠ 0 ∧ a.rank ≠ b.rank ∧
      (compare lib (some a) (some b) < 0 ↔ a.rank < b.rank) := by
  obtain ⟨hzero, hneg⟩ := sign_comparision lib a b
  have hcompare : compare lib (some a) (some b) = comparision lib a b := by
    rw [compare_eq, if_neg fun h => hnot (hzero.mp h.1)]
  have hne : upToNull a.m_stringKeyPtr ≠ upToNull b.m_stringKeyPtr :=
    fun heq => hnot (Or.inl (heq ▸ List.prefix_rfl))
  rw [hcompare]
  refine ⟨fun h => hnot (hzero.mp h), fun h => hne ((rank_eq_iff a b).mp h).1, ?_⟩
  rw [hneg hnot, rank_lt_iff]
  refine ⟨Or.inl, ?_⟩
  rintro (hlt | ⟨heq, -⟩)
  · exact hlt
  · exact absurd (codes_injective heq) hne

theorem toInt_neg_iff {m n : Nat} (hm : m < 2 ^ 32) (hn : n < 2 ^ 32) :
    (toInt ((m : Int) - n) < 0 ↔ (m < n ∧ ¬ m + 2 ^ 31 < n) ∨ n + 2 ^ 31 < m ∨ n + 2 ^ 31 = m) ∧
      (toInt ((m : Int) - n) = 0 ↔ m = n) := by
  rw [toInt, Int.bmod]
  constructor <;> split_ifs <;> omega

theorem agree_symm {a b : KeyStringBuffer} (hagree : a.Agree b) : b.Agree a :=
  Or.symm hagree

theorem follows (lib : CLibrary) :
    Follows (fun a b => compare lib (some a) (some b)) rank Far Half := by
  refine ⟨fun a b => ?_, fun a b => ?_, ?_, ?_, ?_⟩
  · rcases Classical.em (a.Agree b) with hagree | hnot
    · rw [compare_of_agree lib hagree, (rank_of_agree hagree).2]
      exact (toInt_neg_iff a.len_lt b.len_lt).2
    · obtain ⟨hzero, hrank, -⟩ := compare_of_not_agree lib hnot
      exact iff_of_false hzero hrank
  · rcases Classical.em (a.Agree b) with hagree | hnot
    · have hback := agree_symm hagree
      rw [compare_of_agree lib hagree, (rank_of_agree hagree).1]
      simp only [Far, Half, hagree, hback, true_and]
      exact (toInt_neg_iff a.len_lt b.len_lt).1
    · have hback : ¬ b.Agree a := fun h => hnot (agree_symm h)
      rw [(compare_of_not_agree lib hnot).2.2]
      simp [Far, Half, hnot, hback]
  · rintro a b ⟨hagree, hlen⟩
    exact (rank_of_agree hagree).1.mpr (by omega)
  · rintro a b ⟨hagree, hlen⟩
    exact ⟨(rank_of_agree hagree).1.mpr (by omega), fun hfar => absurd hfar.2 (by omega)⟩
  · rintro a b c ⟨-, hab⟩ ⟨-, hbc⟩
    have hc : c.m_len < 2 ^ 32 := c.len_lt
    omega

theorem sign_of_short (lib : CLibrary) {a b : KeyStringBuffer} (ha : a.m_len < 2 ^ 31)
    (hb : b.m_len < 2 ^ 31) :
    (compare lib (some a) (some b) < 0 ↔ a.rank < b.rank) ∧
      (0 < compare lib (some a) (some b) ↔ b.rank < a.rank) := by
  have hab : ¬ a.Far b := fun h => absurd h.2 (by omega)
  have hba : ¬ b.Far a := fun h => absurd h.2 (by omega)
  have hhalf : ¬ b.Half a := fun h => absurd h.2 (by omega)
  have hneg : compare lib (some a) (some b) < 0 ↔ a.rank < b.rank := by
    rw [(follows lib).neg_iff]
    simp [hab, hba, hhalf]
  have hzero := (follows lib).zero_iff a b
  refine ⟨hneg, ?_⟩
  rw [← not_iff_not, not_lt, not_lt, le_iff_lt_or_eq, hneg, hzero, le_iff_lt_or_eq]

/-- The keys that `compare()` takes for the same: one text up to a terminator, and one length. -/
def Same (a b : KeyStringBuffer) : Prop :=
  upToNull a.m_stringKeyPtr = upToNull b.m_stringKeyPtr ∧ a.m_len = b.m_len

/-- `compare()` orders a set of keys where no two of them differ behind a terminator only, where
none is half the range of an `unsigned` longer than another that it agrees with, and where two
that are further apart have no key between them that is near to both. -/
theorem compare_orders_iff (lib : CLibrary) (keys : Set KeyStringBuffer) :
    Orders (fun a b => compare lib (some a) (some b)) keys ↔
      (∀ a ∈ keys, ∀ b ∈ keys, a.Same b → a = b) ∧
      (∀ a ∈ keys, ∀ b ∈ keys, ¬ a.Half b) ∧
      ∀ a ∈ keys, ∀ b ∈ keys, ∀ c ∈ keys, a.Far c → a.rank < b.rank → b.rank < c.rank →
        a.Far b ∨ b.Far c := by
  rw [(follows lib).orders_iff]
  simp only [rank_eq_iff, Same]

/-- Two keys of three bytes that differ in the last one, behind a terminator. -/
def nullB : KeyStringBuffer :=
  ⟨[97, 0, 98], by decide⟩

def nullC : KeyStringBuffer :=
  ⟨[97, 0, 99], by decide⟩

theorem not_orders_behind_null :
    ¬ Orders (fun a b => compare CLibrary.differences (some a) (some b)) {nullB, nullC} := by
  intro horders
  have hzero := (horders.zero_iff nullB (Or.inl rfl) nullC (Or.inr rfl)).mp (by decide)
  exact absurd (congrArg m_stringKeyPtr hzero) (by decide)

end KeyStringBuffer

end ColonyPico.Container.Keys
