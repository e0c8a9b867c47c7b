import Mathlib.Order.Nat

/-!
Tables of binary operators with precedences and associativities, and the order in which neighbouring
operators apply.
-/

namespace ColonyPico.Foundations.OperatorPrecedence

/-- Operators of one precedence associate on the same side. -/
structure Table (Op : Type*) where
  precedence : Op → Nat
  leftAssociative : Op → Bool
  agree : ∀ a b, precedence a = precedence b → leftAssociative a = leftAssociative b

namespace Table

variable {Op : Type*} (table : Table Op)

/-- An operator leaves the operand in front of it to the operator before that operand. -/
def Reduces (op before : Op) : Prop :=
  table.precedence op < table.precedence before ∨
    table.precedence op = table.precedence before ∧ table.leftAssociative op = true

instance (op before : Op) : Decidable (table.Reduces op before) :=
  inferInstanceAs (Decidable (_ ∨ _))

variable {table} {a b c : Op}

theorem Reduces.trans (hab : table.Reduces a b) (hbc : table.Reduces b c) :
    table.Reduces a c := by
  rcases hab with hab | ⟨hab, hleft⟩
  · rcases hbc with hbc | ⟨hbc, -⟩
    · exact .inl (hab.trans hbc)
    · exact .inl (hab.trans_eq hbc)
  · rcases hbc with hbc | ⟨hbc, -⟩
    · exact .inl (hab.trans_lt hbc)
    · exact .inr ⟨hab.trans hbc, hleft⟩

/-- What takes the operand of `b` takes the operand of an operator that `b` did not take. -/
theorem Reduces.of_not (hab : table.Reduces a b) (hcb : ¬table.Reduces c b) :
    table.Reduces a c := by
  have hle : table.precedence b ≤ table.precedence c :=
    Nat.le_of_not_lt fun hlt => hcb (.inl hlt)
  rcases hab with hab | ⟨hab, hleft⟩
  · exact .inl (hab.trans_le hle)
  · rcases hle.eq_or_lt with heq | hlt
    · -- three operators of one precedence associate on the same side
      have hsame : table.leftAssociative c = true :=
        (table.agree c a (heq.symm.trans hab.symm)).trans hleft
      exact absurd (Or.inr ⟨heq.symm, hsame⟩) hcb
    · exact .inl (hab.trans_lt hlt)

end Table

end ColonyPico.Foundations.OperatorPrecedence
