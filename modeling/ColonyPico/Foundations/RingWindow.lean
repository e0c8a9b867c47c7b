import ColonyPico.Foundations.RingOrder
import Mathlib.Data.List.ReduceOption
import Mathlib.Data.List.Rotate

/-!
The slots of a ring as a list that ends with the pivot: a window that slides over what is put into
the slot after the pivot.
-/

namespace ColonyPico.Foundations.RingWindow

open RingOrder

variable {α β : Type*} {n pivot : Nat}

/-- What is in the slots, from the one after the pivot on. -/
def window (n pivot : Nat) (f : Nat → α) : List α :=
  (List.range n).map fun k => f ((next n)^[k] (next n pivot))

@[simp] theorem length_window (f : Nat → α) : (window n pivot f).length = n := by
  simp [window]

theorem getElem?_window (f : Nat → α) {k : Nat} (hk : k < n) :
    (window n pivot f)[k]? = some (f ((next n)^[k] (next n pivot))) := by
  simp [window, hk]

theorem map_window (g : α → β) (f : Nat → α) :
    (window n pivot f).map g = window n pivot fun i => g (f i) := by
  simp [window, Function.comp_def]

theorem window_congr {f f' : Nat → α} (hpivot : pivot < n) (h : ∀ i < n, f i = f' i) :
    window n pivot f = window n pivot f' := by
  apply List.map_congr_left
  intro k _
  exact h _ (next_iterate_lt (next_lt hpivot) k)

theorem mem_window {f : Nat → α} (hpivot : pivot < n) {a : α} :
    a ∈ window n pivot f ↔ ∃ i < n, f i = a := by
  simp only [window, List.mem_map, List.mem_range]
  constructor
  · rintro ⟨k, -, hk⟩
    exact ⟨_, next_iterate_lt (next_lt hpivot) k, hk⟩
  · rintro ⟨i, hi, ha⟩
    exact ⟨rank n pivot i, rank_lt hpivot hi, by rw [next_iterate_rank hpivot hi, ha]⟩

theorem window_of_empty {f : Nat → Option α} (hpivot : pivot < n) (h : ∀ i < n, f i = none) :
    window n pivot f = List.replicate n none := by
  rw [window_congr hpivot h]
  simp [window]

theorem next_iterate_ne (hpivot : pivot < n) {k : Nat} (hk : k < n) (hpos : 0 < k) :
    (next n)^[k] (next n pivot) ≠ next n pivot := by
  intro heq
  have hrank := rank_next_iterate hpivot hk
  rw [heq, rank_next hpivot] at hrank
  omega

theorem window_eq_cons (hpivot : pivot < n) (f : Nat → α) :
    window n pivot f =
      f (next n pivot) ::
        (List.range (n - 1)).map fun k => f ((next n)^[k + 1] (next n pivot)) := by
  obtain ⟨m, rfl⟩ : ∃ m, n = m + 1 := ⟨n - 1, by omega⟩
  simp [window, List.range_succ_eq_map, Function.comp_def]

/-- The slot after the pivot is overwritten in place. -/
theorem window_update (hpivot : pivot < n) (f : Nat → α) (a : α) :
    window n pivot (Function.update f (next n pivot) a) = a :: (window n pivot f).tail := by
  rw [window_eq_cons hpivot, window_eq_cons hpivot f, Function.update_self, List.tail_cons]
  congr 1
  apply List.map_congr_left
  intro k hk
  rw [List.mem_range] at hk
  exact Function.update_of_ne (next_iterate_ne hpivot (by omega) (Nat.succ_pos k)) _ _

/-- With the next slot as the pivot the first element becomes the last one. -/
theorem window_next (hpivot : pivot < n) (f : Nat → α) :
    window n (next n pivot) f = (window n pivot f).tail ++ [f (next n pivot)] := by
  obtain ⟨m, rfl⟩ : ∃ m, n = m + 1 := ⟨n - 1, by omega⟩
  have hlast : (next (m + 1))^[m] (next (m + 1) (next (m + 1) pivot)) = next (m + 1) pivot := by
    have hnext := next_lt hpivot
    rw [← Function.iterate_succ_apply, next_iterate hnext _ (by omega), if_neg (by omega)]
    omega
  rw [window_eq_cons hpivot, List.tail_cons, window, List.range_succ, List.map_append,
    List.map_singleton, hlast]
  rfl

/-- What is put into the next slot drives out the first element. -/
theorem window_push (hpivot : pivot < n) (f : Nat → α) (a : α) :
    window n (next n pivot) (Function.update f (next n pivot) a) =
      (window n pivot f).tail ++ [a] := by
  rw [window_next hpivot, window_update hpivot, Function.update_self, List.tail_cons]

theorem window_rotate (hpivot : pivot < n) {q : Nat} (hq : q < n) (f : Nat → α) :
    window n q f = (window n pivot f).rotate (rank n pivot q + 1) := by
  -- one slot at a time, until the pivot is the slot at the rank of `q`
  have hiterate : ∀ k ≤ n, window n ((next n)^[k] pivot) f = (window n pivot f).rotate k := by
    intro k hk
    induction k with
    | zero => simp
    | succ k ih =>
        have hslot : (next n)^[k] pivot < n := next_iterate_lt hpivot k
        rw [Function.iterate_succ_apply', window_next hslot, ← List.rotate_rotate,
          ← ih (by omega), window_eq_cons hslot, List.tail_cons]
        simp
  rw [← hiterate _ (rank_lt hpivot hq), Function.iterate_succ_apply, next_iterate_rank hpivot hq]

theorem pairwise_window {κ : Type*} [LinearOrder κ] {keys : Nat → Option κ} (hpivot : pivot < n)
    (h : Sorted n pivot keys) : (window n pivot keys).reduceOption.Pairwise (· < ·) := by
  rw [List.reduceOption, window, List.filterMap_map, List.pairwise_filterMap]
  refine List.Pairwise.imp_of_mem ?_ List.pairwise_lt_range
  intro j k hj hk hjk a ha b hb
  rw [List.mem_range] at hj hk
  refine h (next_iterate_lt (next_lt hpivot) j) (next_iterate_lt (next_lt hpivot) k) ha hb ?_
  rw [rank_next_iterate hpivot hj, rank_next_iterate hpivot hk]
  exact hjk

/-- The empty slots behind `q` come first when the window is to end with `q`. -/
theorem window_of_empty_behind {f : Nat → Option α} (hpivot : pivot < n) {q : Nat} (hq : q < n)
    (hbehind : ∀ i < n, rank n pivot q < rank n pivot i → f i = none) :
    ∃ front count, window n pivot f = front ++ List.replicate count none ∧
      window n q f = List.replicate count none ++ front ∧ front.getLast? = some (f q) := by
  have hrank := rank_lt hpivot hq
  have hdrop : (window n pivot f).drop (rank n pivot q + 1) =
      List.replicate (n - (rank n pivot q + 1)) none := by
    rw [List.eq_replicate_iff]
    refine ⟨by simp, fun a ha => ?_⟩
    obtain ⟨k, hk, rfl⟩ := List.mem_iff_getElem.mp ha
    have hlt : rank n pivot q + 1 + k < n := by
      simp only [List.length_drop, length_window] at hk
      omega
    rw [List.getElem_drop]
    have hget := @getElem?_window _ n pivot f _ hlt
    rw [List.getElem?_eq_getElem (by simpa using hlt)] at hget
    rw [Option.some.inj hget]
    apply hbehind _ (next_iterate_lt (next_lt hpivot) _)
    rw [rank_next_iterate hpivot hlt]
    omega
  refine ⟨(window n pivot f).take (rank n pivot q + 1), n - (rank n pivot q + 1), ?_, ?_, ?_⟩
  · rw [← hdrop, List.take_append_drop]
  · rw [window_rotate hpivot hq, List.rotate_eq_drop_append_take (by rw [length_window]; exact hrank),
      hdrop]
  · rw [List.getLast?_take, if_neg (Nat.succ_ne_zero _), Nat.add_sub_cancel,
      getElem?_window f hrank, next_iterate_rank hpivot hq]
    rfl

end ColonyPico.Foundations.RingWindow
