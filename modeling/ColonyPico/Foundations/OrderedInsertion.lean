import Mathlib.Data.List.Sort

/-!
Insertion sort by a strict comparison of keys: an item goes before the first one with a larger
key, so that items with equal keys keep the order in which they came.
-/

namespace ColonyPico.Foundations.OrderedInsertion

variable {α κ : Type*} [LinearOrder κ] (key : α → κ)

/-- `x` goes before the first item with a larger key. -/
def insertByKey (x : α) (xs : List α) : List α :=
  xs.orderedInsert (fun a b => key a < key b) x

/-- The items of the second list go, one by one, to their places in the first. -/
def insertAll (sorted xs : List α) : List α :=
  xs.foldl (fun acc x => insertByKey key x acc) sorted

variable {key}

theorem perm_insertByKey (x : α) (xs : List α) : (insertByKey key x xs).Perm (x :: xs) :=
  List.perm_orderedInsert _ x xs

theorem insertByKey_append {x : α} {us vs : List α} (hus : ∀ u ∈ us, ¬ key x < key u) :
    insertByKey key x (us ++ vs) = us ++ insertByKey key x vs := by
  induction us with
  | nil => rfl
  | cons u us ih =>
      rw [List.cons_append, insertByKey, List.orderedInsert_cons,
        if_neg (hus u List.mem_cons_self), List.cons_append]
      exact congrArg _ (ih fun v hv => hus v (List.mem_cons_of_mem u hv))

theorem pairwise_insertByKey {xs : List α} (hxs : xs.Pairwise (fun a b => key a ≤ key b))
    (x : α) : (insertByKey key x xs).Pairwise (fun a b => key a ≤ key b) := by
  induction xs with
  | nil => exact List.pairwise_singleton _ x
  | cons y ys ih =>
      obtain ⟨hy, hys⟩ := List.pairwise_cons.mp hxs
      rw [insertByKey, List.orderedInsert_cons]
      rcases lt_or_ge (key x) (key y) with hlt | hge
      · rw [if_pos hlt]
        refine List.pairwise_cons.mpr ⟨?_, hxs⟩
        intro z hz
        rcases List.mem_cons.mp hz with rfl | hz
        · exact hlt.le
        · exact hlt.le.trans (hy z hz)
      · rw [if_neg (not_lt.mpr hge)]
        refine List.pairwise_cons.mpr ⟨?_, ih hys⟩
        intro z hz
        rcases List.mem_cons.mp ((perm_insertByKey x ys).mem_iff.mp hz) with rfl | hz
        · exact hge
        · exact hy z hz

theorem perm_insertAll (sorted xs : List α) : (insertAll key sorted xs).Perm (xs ++ sorted) := by
  induction xs generalizing sorted with
  | nil => exact List.Perm.refl sorted
  | cons x xs ih =>
      exact (ih _).trans (((perm_insertByKey x sorted).append_left xs).trans List.perm_middle)

theorem pairwise_insertAll {sorted : List α}
    (hsorted : sorted.Pairwise (fun a b => key a ≤ key b)) (xs : List α) :
    (insertAll key sorted xs).Pairwise (fun a b => key a ≤ key b) := by
  induction xs generalizing sorted with
  | nil => exact hsorted
  | cons x xs ih => exact ih (pairwise_insertByKey hsorted x)

end ColonyPico.Foundations.OrderedInsertion
