import ColonyPico.Foundations.ByteStore

/-!
A store divided into disjoint ranges of cells.
-/

namespace ColonyPico.Foundations.StoreRegions

open ColonyPico.Foundations.ByteStore

variable {α ι : Type*}

/-- A range of cells. -/
structure Region where
  start : Nat
  length : Nat
  deriving DecidableEq, Repr

def Region.stop (r : Region) : Nat :=
  r.start + r.length

/-- The cells of a range. -/
def Region.content (r : Region) (store : List α) : List α :=
  slice store r.start r.length

/-- Ranges inside a store of a size, no two of which share a cell. -/
structure Layout (size : Nat) (regions : ι → Region) : Prop where
  fits : ∀ i, (regions i).stop ≤ size
  disjoint : ∀ i j, i ≠ j →
    (regions i).stop ≤ (regions j).start ∨ (regions j).stop ≤ (regions i).start

variable {r : Region} {store : List α}

theorem length_content (h : r.stop ≤ store.length) : (r.content store).length = r.length :=
  length_slice store r.start r.length h

theorem slice_content {offset n : Nat} (h : offset + n ≤ r.length) :
    slice (r.content store) offset n = slice store (r.start + offset) n := by
  apply List.ext_getElem?
  intro i
  simp only [Region.content, getElem?_slice]
  split_ifs with hi hin
  · congr 1
    omega
  · omega
  · rfl

theorem content_overwrite (hr : r.stop ≤ store.length) {offset : Nat} {src : List α}
    (h : offset + src.length ≤ r.length) :
    r.content (overwrite store (r.start + offset) src) =
      overwrite (r.content store) offset src := by
  have hstop : r.start + r.length ≤ store.length := hr
  have hlen := length_content hr
  apply List.ext_getElem?
  intro i
  rw [getElem?_overwrite _ _ _ _ (by omega), Region.content, getElem?_slice,
    getElem?_overwrite _ _ _ _ (by omega), Region.content, getElem?_slice]
  by_cases hi : i < r.length
  · rw [if_pos hi, if_pos hi]
    by_cases hlow : i < offset
    · rw [if_pos hlow, if_pos (by omega)]
    · rw [if_neg hlow, if_neg (by omega)]
      by_cases hin : i < offset + src.length
      · rw [if_pos hin, if_pos (by omega)]
        congr 1
        omega
      · rw [if_neg hin, if_neg (by omega)]
  · rw [if_neg hi, if_neg hi, if_neg (by omega), if_neg (by omega)]

/-- A write that meets no cell of a range leaves them. -/
theorem content_overwrite_of_disjoint {offset : Nat} {src : List α}
    (hfit : offset + src.length ≤ store.length)
    (h : offset + src.length ≤ r.start ∨ r.stop ≤ offset) :
    r.content (overwrite store offset src) = r.content store := by
  have hstop : r.stop = r.start + r.length := rfl
  apply List.ext_getElem?
  intro i
  rw [Region.content, getElem?_slice, getElem?_overwrite _ _ _ _ (by omega), Region.content,
    getElem?_slice]
  split_ifs with hi hlow hin
  · rfl
  · omega
  · rfl
  · rfl

end ColonyPico.Foundations.StoreRegions
