import Mathlib.Data.List.Basic
import Mathlib.Tactic.SplitIfs

/-!
Queues laid out around a ring of cells.
-/

namespace ColonyPico.Foundations.CircularSlots

/-- The cell `i` places after `start` on a ring of `n` cells. -/
def slot (n start i : Nat) : Nat :=
  (start + i) % n

theorem slot_lt {n : Nat} (hn : 0 < n) (start i : Nat) : slot n start i < n :=
  Nat.mod_lt _ hn

theorem slot_eq {n start i : Nat} (hstart : start < n) (hi : i ≤ n) :
    slot n start i = if start + i < n then start + i else start + i - n := by
  rw [slot]
  split_ifs with h
  · exact Nat.mod_eq_of_lt h
  · rw [Nat.mod_eq_sub_mod (by omega), Nat.mod_eq_of_lt (by omega)]

theorem slot_slot (n start i j : Nat) : slot n (slot n start i) j = slot n start (i + j) := by
  rw [slot, slot, slot, Nat.mod_add_mod, Nat.add_assoc]

/-- Within one turn, different places are different cells. -/
theorem slot_inj {n start i j : Nat} (hstart : start < n) (hi : i < n) (hj : j < n)
    (h : slot n start i = slot n start j) : i = j := by
  rw [slot_eq hstart (Nat.le_of_lt hi), slot_eq hstart (Nat.le_of_lt hj)] at h
  split_ifs at h <;> omega

section Queue

variable {α : Type*} {n start : Nat} {cell cell' : Nat → Option α} {q r : List α}

/-- The cells from `start` on hold the items of `q`. -/
def Holds (n : Nat) (cell : Nat → Option α) (start : Nat) (q : List α) : Prop :=
  ∀ i, i < q.length → cell (slot n start i) = q[i]?

theorem holds_nil (n : Nat) (cell : Nat → Option α) (start : Nat) : Holds n cell start [] := by
  intro i hi
  exact absurd hi (Nat.not_lt_zero i)

theorem Holds.congr (h : Holds n cell start q)
    (hcell : ∀ i, i < q.length → cell' (slot n start i) = cell (slot n start i)) :
    Holds n cell' start q := by
  intro i hi
  rw [hcell i hi]
  exact h i hi

theorem Holds.drop (h : Holds n cell start q) (k : Nat) :
    Holds n cell (slot n start k) (q.drop k) := by
  intro i hi
  rw [List.length_drop] at hi
  rw [slot_slot, List.getElem?_drop]
  exact h (k + i) (by omega)

theorem Holds.append (h : Holds n cell start q)
    (hr : Holds n cell (slot n start q.length) r) : Holds n cell start (q ++ r) := by
  intro i hi
  rw [List.length_append] at hi
  rw [List.getElem?_append]
  split_ifs with hq
  · exact h i hq
  · have hback := hr (i - q.length) (by omega)
    rwa [slot_slot, Nat.add_sub_cancel' (by omega)] at hback

end Queue

end ColonyPico.Foundations.CircularSlots
