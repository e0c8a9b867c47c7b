import Mathlib.Data.Int.Order.Basic
import Mathlib.Data.Set.Basic

/-!
Comparisons by the sign of an integer that follow the order of keys, but for pairs of items that
are too far apart.
-/

namespace ColonyPico.Foundations.SignedComparison

variable {α κ : Type*} [LinearOrder κ]

/-- The comparison orders the items of a set and tells them apart. -/
structure Orders (compare : α → α → Int) (s : Set α) : Prop where
  antisymm : ∀ a ∈ s, ∀ b ∈ s, (compare a b).sign = -(compare b a).sign
  trans : ∀ a ∈ s, ∀ b ∈ s, ∀ c ∈ s, compare a b ≤ 0 → compare b c ≤ 0 → compare a c ≤ 0
  zero_iff : ∀ a ∈ s, ∀ b ∈ s, compare a b = 0 ↔ a = b

/-- The sign follows the keys, but is inverted where the items are `far` apart and negative both
ways where they are `half` the range apart. -/
structure Follows (compare : α → α → Int) (key : α → κ) (far half : α → α → Prop) : Prop where
  zero_iff : ∀ a b, compare a b = 0 ↔ key a = key b
  neg_iff : ∀ a b, compare a b < 0 ↔ (key a < key b ∧ ¬ far a b) ∨ far b a ∨ half b a
  far_lt : ∀ {a b}, far a b → key a < key b
  half_lt : ∀ {a b}, half a b → key a < key b ∧ ¬ far a b
  not_far_far : ∀ {a b c}, far a b → ¬ far b c

namespace Follows

variable {compare : α → α → Int} {key : α → κ} {far half : α → α → Prop}

theorem neg_of_lt (h : Follows compare key far half) {a b : α} (hlt : key a < key b)
    (hfar : ¬ far a b) : compare a b < 0 :=
  (h.neg_iff a b).mpr (Or.inl ⟨hlt, hfar⟩)

theorem pos_of_far (h : Follows compare key far half) {a b : α} (hfar : far a b) :
    0 < compare a b := by
  have hlt := h.far_lt hfar
  have hzero : compare a b ≠ 0 := fun hz => hlt.ne ((h.zero_iff a b).mp hz)
  have hneg : ¬ compare a b < 0 := by
    intro hneg
    rcases (h.neg_iff a b).mp hneg with ⟨-, hnot⟩ | hback | hback
    · exact hnot hfar
    · exact hlt.asymm (h.far_lt hback)
    · exact hlt.asymm (h.half_lt hback).1
  omega

theorem pos_of_lt (h : Follows compare key far half) {a b : α} (hlt : key a < key b)
    (hfar : ¬ far a b) (hhalf : ¬ half a b) : 0 < compare b a := by
  have hzero : compare b a ≠ 0 := fun hz => hlt.ne' ((h.zero_iff b a).mp hz)
  have hneg : ¬ compare b a < 0 := by
    intro hneg
    rcases (h.neg_iff b a).mp hneg with ⟨hback, -⟩ | hback | hback
    · exact hlt.asymm hback
    · exact hfar hback
    · exact hhalf hback
  omega

theorem sign_of_lt (h : Follows compare key far half) {a b : α} (hlt : key a < key b)
    (hhalf : ¬ half a b) : (compare a b).sign = -(compare b a).sign := by
  rcases Classical.em (far a b) with hfar | hfar
  · rw [Int.sign_eq_one_of_pos (h.pos_of_far hfar),
      Int.sign_eq_neg_one_of_neg ((h.neg_iff b a).mpr (Or.inr (Or.inl hfar))), Int.neg_neg]
  · rw [Int.sign_eq_neg_one_of_neg (h.neg_of_lt hlt hfar),
      Int.sign_eq_one_of_pos (h.pos_of_lt hlt hfar hhalf)]

theorem sign_swap (h : Follows compare key far half) {a b : α} (hab : ¬ half a b)
    (hba : ¬ half b a) : (compare a b).sign = -(compare b a).sign := by
  rcases lt_trichotomy (key a) (key b) with hlt | heq | hlt
  · exact h.sign_of_lt hlt hab
  · rw [(h.zero_iff a b).mpr heq, (h.zero_iff b a).mpr heq.symm]
    rfl
  · rw [h.sign_of_lt hlt hba, Int.neg_neg]

theorem pos_cases (h : Follows compare key far half) {a b : α} (hpos : 0 < compare a b) :
    far a b ∨ (key b < key a ∧ ¬ far b a) := by
  rcases lt_trichotomy (key a) (key b) with hlt | heq | hlt
  · left
    by_contra hfar
    have hneg := h.neg_of_lt hlt hfar
    omega
  · have hzero := (h.zero_iff a b).mpr heq
    omega
  · refine Or.inr ⟨hlt, fun hfar => ?_⟩
    have hneg := (h.neg_iff a b).mpr (Or.inr (Or.inl hfar))
    omega

/-- Two pairs in order make a third one, where none is inverted unless one beside it is. -/
theorem not_pos_of_neg (h : Follows compare key far half) {s : Set α}
    (hbetween : ∀ a ∈ s, ∀ b ∈ s, ∀ c ∈ s, far a c → key a < key b → key b < key c →
      far a b ∨ far b c) {a b c : α} (ha : a ∈ s) (hb : b ∈ s) (hc : c ∈ s)
    (hab : (key a < key b ∧ ¬ far a b) ∨ far b a) (hbc : (key b < key c ∧ ¬ far b c) ∨ far c b) :
    ¬ 0 < compare a c := by
  intro hpos
  rcases hab with ⟨hab, hnab⟩ | hba <;> rcases hbc with ⟨hbc, hnbc⟩ | hcb
  · rcases h.pos_cases hpos with hac | ⟨hca, -⟩
    · rcases hbetween a ha b hb c hc hac hab hbc with hfar | hfar
      · exact hnab hfar
      · exact hnbc hfar
    · exact (hab.trans hbc).asymm hca
  · rcases h.pos_cases hpos with hac | ⟨hca, hnca⟩
    · exact h.not_far_far hac hcb
    · rcases hbetween c hc a ha b hb hcb hca hab with hfar | hfar
      · exact hnca hfar
      · exact hnab hfar
  · rcases h.pos_cases hpos with hac | ⟨hca, hnca⟩
    · exact h.not_far_far hba hac
    · rcases hbetween b hb c hc a ha hba hbc hca with hfar | hfar
      · exact hnbc hfar
      · exact hnca hfar
  · exact h.not_far_far hcb hba

theorem orders_iff (h : Follows compare key far half) (s : Set α) :
    Orders compare s ↔
      (∀ a ∈ s, ∀ b ∈ s, key a = key b → a = b) ∧ (∀ a ∈ s, ∀ b ∈ s, ¬ half a b) ∧
        ∀ a ∈ s, ∀ b ∈ s, ∀ c ∈ s, far a c → key a < key b → key b < key c →
          far a b ∨ far b c := by
  constructor
  · intro horders
    refine ⟨fun a ha b hb heq => (horders.zero_iff a ha b hb).mp ((h.zero_iff a b).mpr heq),
      fun a ha b hb hhalf => ?_, fun a ha b hb c hc hac hab hbc => ?_⟩
    · obtain ⟨hlt, hfar⟩ := h.half_lt hhalf
      have hsign := horders.antisymm a ha b hb
      rw [Int.sign_eq_neg_one_of_neg (h.neg_of_lt hlt hfar),
        Int.sign_eq_neg_one_of_neg ((h.neg_iff b a).mpr (Or.inr (Or.inr hhalf)))] at hsign
      exact absurd hsign (by decide)
    · rw [or_iff_not_and_not]
      rintro ⟨hnab, hnbc⟩
      have hle := horders.trans a ha b hb c hc (h.neg_of_lt hab hnab).le (h.neg_of_lt hbc hnbc).le
      exact absurd (h.pos_of_far hac) (by omega)
  · rintro ⟨hkeys, hhalf, hbetween⟩
    have hzero : ∀ a ∈ s, ∀ b ∈ s, compare a b = 0 ↔ a = b := fun a ha b hb =>
      (h.zero_iff a b).trans ⟨hkeys a ha b hb, fun heq => heq ▸ rfl⟩
    refine ⟨fun a ha b hb => h.sign_swap (hhalf a ha b hb) (hhalf b hb a ha), ?_, hzero⟩
    have hcases : ∀ a ∈ s, ∀ b ∈ s, a ≠ b → compare a b ≤ 0 →
        (key a < key b ∧ ¬ far a b) ∨ far b a := by
      intro a ha b hb hne hle
      have hneg : compare a b < 0 := lt_of_le_of_ne hle fun hz => hne ((hzero a ha b hb).mp hz)
      rcases (h.neg_iff a b).mp hneg with hlt | hfar | hback
      · exact Or.inl hlt
      · exact Or.inr hfar
      · exact absurd hback (hhalf b hb a ha)
    intro a ha b hb c hc hab hbc
    rcases eq_or_ne a b with rfl | hne
    · exact hbc
    rcases eq_or_ne b c with rfl | hne'
    · exact hab
    exact not_lt.mp (h.not_pos_of_neg hbetween ha hb hc (hcases a ha b hb hne hab)
      (hcases b hb c hc hne' hbc))

end Follows

end ColonyPico.Foundations.SignedComparison
