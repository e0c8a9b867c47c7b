import Mathlib.Data.List.Perm.Basic
import Mathlib.Logic.Function.Basic
import Mathlib.Order.Nat

/-!
Lists whose entries hold their distance from the entry before.
-/

namespace ColonyPico.Foundations.DeltaList

variable {α κ : Type} (key : α → κ) (count : α → Nat)

/-- The entries' keys with their absolute positions, counted from `base`. -/
def schedule (base : Nat) : List α → List (κ × Nat)
  | [] => []
  | c :: cs => (key c, base + count c) :: schedule (base + count c) cs

theorem map_fst_schedule (base : Nat) (cs : List α) :
    (schedule key count base cs).map Prod.fst = cs.map key := by
  induction cs generalizing base with
  | nil => rfl
  | cons c cs ih => rw [schedule, List.map_cons, List.map_cons, ih]

variable {key count}

theorem le_of_mem_schedule {base : Nat} {cs : List α} {p : κ × Nat}
    (h : p ∈ schedule key count base cs) : base ≤ p.2 := by
  induction cs generalizing base with
  | nil => cases h
  | cons c cs ih =>
      rcases List.mem_cons.mp h with rfl | htail
      · exact Nat.le_add_right _ _
      · exact le_trans (Nat.le_add_right _ _) (ih htail)

theorem head_le_of_mem_schedule {base : Nat} {c : α} {cs : List α} {p : κ × Nat}
    (h : p ∈ schedule key count base (c :: cs)) : base + count c ≤ p.2 := by
  rcases List.mem_cons.mp h with rfl | htail
  · exact le_rfl
  · exact le_of_mem_schedule htail

/-- Moving the base forward takes the same from the first entry. -/
theorem schedule_shift {base shift : Nat} {c c' : α} (cs : List α) (hkey : key c' = key c)
    (hcount : count c' + shift = count c) :
    schedule key count (base + shift) (c' :: cs) = schedule key count base (c :: cs) := by
  rw [schedule, schedule, hkey, ← hcount]
  rw [show base + shift + count c' = base + (count c' + shift) by omega]

/-- Counting from further on moves every position on. -/
theorem schedule_add (shift base : Nat) (cs : List α) :
    schedule key count (shift + base) cs =
      (schedule key count base cs).map fun p => (p.1, shift + p.2) := by
  induction cs generalizing base with
  | nil => rfl
  | cons c cs ih => rw [schedule, schedule, List.map_cons, Nat.add_assoc, ih]

/-- An entry is taken out by adding its distance to the next one. -/
theorem schedule_absorb {base : Nat} {c next next' : α} (cs : List α)
    (hkey : key next' = key next) (hcount : count next' = count next + count c) :
    schedule key count base (next' :: cs) = schedule key count (base + count c) (next :: cs) := by
  rw [schedule, schedule, hkey, hcount]
  rw [show base + (count next + count c) = base + count c + count next by omega]

/-- The entries are the graph of a partial function. -/
structure Represents (entries : List (κ × Nat)) (f : κ → Option Nat) : Prop where
  nodup : (entries.map Prod.fst).Nodup
  mem_iff : ∀ k n, (k, n) ∈ entries ↔ f k = some n

namespace Represents

variable {entries : List (κ × Nat)} {f : κ → Option Nat}

theorem perm {entries' : List (κ × Nat)} (h : Represents entries f)
    (hperm : entries'.Perm entries) : Represents entries' f :=
  ⟨(hperm.map Prod.fst).nodup_iff.mpr h.nodup, fun k n => hperm.mem_iff.trans (h.mem_iff k n)⟩

theorem notMem {k : κ} (h : Represents entries f) (hk : f k = none) :
    k ∉ entries.map Prod.fst := by
  rintro hmem
  obtain ⟨⟨k', n⟩, hn, rfl⟩ := List.mem_map.mp hmem
  rw [(h.mem_iff k' n).mp hn] at hk
  cases hk

theorem add (h : Represents entries f) (shift : Nat) :
    Represents (entries.map fun p => (p.1, shift + p.2)) fun k => (f k).map (shift + ·) := by
  refine ⟨?_, fun k n => ?_⟩
  · rw [List.map_map]
    exact h.nodup
  · simp only [List.mem_map, Prod.exists, Prod.mk.injEq, Option.map_eq_some_iff]
    constructor
    · rintro ⟨k', n', hmem, rfl, rfl⟩
      exact ⟨n', (h.mem_iff k' n').mp hmem, rfl⟩
    · rintro ⟨n', hn', rfl⟩
      exact ⟨k, n', (h.mem_iff k n').mpr hn', rfl, rfl⟩

variable [DecidableEq κ]

theorem filter (h : Represents entries f) (k : κ) :
    Represents (entries.filter fun p => p.1 ≠ k) (Function.update f k none) := by
  refine ⟨h.nodup.sublist (List.filter_sublist.map Prod.fst), fun k' n => ?_⟩
  rw [List.mem_filter, h.mem_iff, decide_eq_true_eq]
  by_cases hk : k' = k
  · simp [hk]
  · simp [hk]

theorem cons (h : Represents entries f) {k : κ} (hk : f k = none) (n : Nat) :
    Represents ((k, n) :: entries) (Function.update f k (some n)) := by
  refine ⟨List.nodup_cons.mpr ⟨h.notMem hk, h.nodup⟩, fun k' n' => ?_⟩
  rw [List.mem_cons, h.mem_iff, Prod.mk.injEq]
  by_cases hk' : k' = k
  · subst hk'
    simp [hk, eq_comm]
  · simp [hk']

theorem tail {k : κ} {n : Nat} (h : Represents ((k, n) :: entries) f) :
    f k = some n ∧ Represents entries (Function.update f k none) := by
  have hnodup := List.nodup_cons.mp h.nodup
  refine ⟨(h.mem_iff k n).mp List.mem_cons_self, hnodup.2, fun k' n' => ?_⟩
  by_cases hk : k' = k
  · subst hk
    rw [Function.update_self]
    exact ⟨fun hmem => absurd (List.mem_map_of_mem hmem) hnodup.1, fun hnone => by cases hnone⟩
  · rw [Function.update_of_ne hk, ← h.mem_iff, List.mem_cons, Prod.mk.injEq]
    simp [hk]

end Represents

end ColonyPico.Foundations.DeltaList
