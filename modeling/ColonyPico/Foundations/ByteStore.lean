import Mathlib.Data.List.Basic
import Mathlib.Tactic.NormNum

/-!
Overwriting and reading back stretches of a store of cells, and fixed width
little-endian numbers.
-/

namespace ColonyPico.Foundations.ByteStore

variable {α : Type*}

/-- The cells `[offset, offset + n)` of a store, fewer at its end. -/
def slice (store : List α) (offset n : Nat) : List α :=
  (store.drop offset).take n

/-- Replace the cells from `offset` on by those of `src`. -/
def overwrite (store : List α) (offset : Nat) (src : List α) : List α :=
  store.take offset ++ (src ++ store.drop (offset + src.length))

theorem length_slice (store : List α) (offset n : Nat) (h : offset + n ≤ store.length) :
    (slice store offset n).length = n := by
  simp only [slice, List.length_take, List.length_drop]
  omega

theorem length_overwrite (store : List α) (offset : Nat) (src : List α)
    (h : offset + src.length ≤ store.length) :
    (overwrite store offset src).length = store.length := by
  simp only [overwrite, List.length_append, List.length_take, List.length_drop]
  omega

@[simp] theorem overwrite_nil (store : List α) (offset : Nat) :
    overwrite store offset [] = store := by
  simp [overwrite]

theorem getElem?_slice (store : List α) (offset n i : Nat) :
    (slice store offset n)[i]? = if i < n then store[offset + i]? else none := by
  simp [slice, List.getElem?_take]

theorem getElem?_overwrite (store : List α) (offset : Nat) (src : List α) (i : Nat)
    (h : offset ≤ store.length) :
    (overwrite store offset src)[i]? =
      if i < offset then store[i]?
      else if i < offset + src.length then src[i - offset]? else store[i]? := by
  simp only [overwrite, List.getElem?_append, List.length_take, List.getElem?_take,
    List.getElem?_drop, Nat.min_eq_left h]
  split_ifs with h1 h2 h3 h4
  · rfl
  · rfl
  · omega
  · omega
  · congr 1
    omega

theorem slice_overwrite (store : List α) (offset : Nat) (src : List α)
    (h : offset ≤ store.length) :
    slice (overwrite store offset src) offset src.length = src := by
  apply List.ext_getElem?
  intro i
  rw [getElem?_slice, getElem?_overwrite _ _ _ _ h]
  split_ifs with h1 h2 h3
  · omega
  · congr 1
    omega
  · omega
  · exact (List.getElem?_eq_none (by omega)).symm

/-- Two adjacent writes are one write of the joined bytes. -/
theorem overwrite_slice (store : List α) (offset n : Nat) (h : offset + n ≤ store.length) :
    overwrite store offset (slice store offset n) = store := by
  rw [overwrite, length_slice store offset n h, slice, ← List.drop_drop, List.take_append_drop,
    List.take_append_drop]

theorem overwrite_overwrite_append (store : List α) (offset : Nat) (xs ys : List α)
    (h : offset + xs.length ≤ store.length) :
    overwrite (overwrite store offset xs) (offset + xs.length) ys =
      overwrite store offset (xs ++ ys) := by
  apply List.ext_getElem?
  intro i
  have hlen := length_overwrite store offset xs h
  rw [getElem?_overwrite _ _ _ _ (by omega), getElem?_overwrite _ _ _ _ (by omega),
    getElem?_overwrite _ _ _ _ (by omega)]
  simp only [List.length_append, List.getElem?_append]
  split_ifs <;> first | rfl | omega | (congr 1; omega)

/-- A write into the first of two joined stores that may run on into the second. -/
theorem overwrite_append_left (xs ys : List α) (offset : Nat) (src : List α)
    (h : offset ≤ xs.length) :
    overwrite (xs ++ ys) offset src =
      overwrite xs offset (src.take (xs.length - offset)) ++
        overwrite ys 0 (src.drop (xs.length - offset)) := by
  simp only [overwrite, List.take_append_of_le_length h, List.drop_append, List.length_take,
    List.length_drop, List.take_zero, List.nil_append, Nat.zero_add]
  rw [List.append_assoc, List.append_assoc]
  congr 1
  by_cases hin : src.length ≤ xs.length - offset
  · rw [List.take_of_length_le hin, List.drop_of_length_le hin, Nat.min_eq_right hin,
      List.nil_append, Nat.sub_eq_zero_of_le (by omega : offset + src.length ≤ xs.length),
      Nat.sub_eq_zero_of_le hin]
  · rw [List.drop_of_length_le (by omega : xs.length ≤ offset + src.length),
      Nat.min_eq_left (by omega), List.drop_of_length_le (by omega : xs.length ≤ _),
      List.nil_append, List.nil_append, ← List.append_assoc, List.take_append_drop]
    congr 2
    omega

theorem overwrite_append_right (xs ys : List α) (offset : Nat) (src : List α)
    (h : xs.length ≤ offset) :
    overwrite (xs ++ ys) offset src = xs ++ overwrite ys (offset - xs.length) src := by
  simp only [overwrite, List.take_append, List.drop_append, List.take_of_length_le h,
    List.drop_of_length_le (by omega : xs.length ≤ offset + src.length), List.append_assoc,
    List.nil_append]
  congr 4
  omega

theorem slice_append_left (xs ys : List α) (offset n : Nat) (h : offset ≤ xs.length) :
    slice (xs ++ ys) offset n =
      slice xs offset (min n (xs.length - offset)) ++ slice ys 0 (n - (xs.length - offset)) := by
  simp only [slice, List.drop_append_of_le_length h, List.take_append, List.length_drop,
    List.drop_zero]
  congr 1
  have hwhole : (xs.drop offset).take (xs.length - offset) = xs.drop offset :=
    List.take_of_length_le (by rw [List.length_drop])
  rw [← List.take_take, hwhole]

theorem slice_append_right (xs ys : List α) (offset n : Nat) (h : xs.length ≤ offset) :
    slice (xs ++ ys) offset n = slice ys (offset - xs.length) n := by
  simp only [slice, List.drop_append, List.drop_of_length_le h, List.nil_append]

theorem slice_append (store : List α) (offset m n : Nat) :
    slice store offset (m + n) = slice store offset m ++ slice store (offset + m) n := by
  simp only [slice, List.take_add, List.drop_drop]

/-- A store holds `src` at `offset`. -/
def Holds (store : List α) (offset : Nat) (src : List α) : Prop :=
  offset + src.length ≤ store.length ∧ slice store offset src.length = src

instance [DecidableEq α] (store : List α) (offset : Nat) (src : List α) :
    Decidable (Holds store offset src) :=
  inferInstanceAs (Decidable (_ ∧ _))

theorem holds_overwrite (store : List α) (offset : Nat) (src : List α)
    (h : offset + src.length ≤ store.length) :
    Holds (overwrite store offset src) offset src :=
  ⟨by rw [length_overwrite store offset src h]; exact h,
    slice_overwrite store offset src (by omega)⟩

theorem Holds.overwrite_after {store : List α} {offset : Nat} {src : List α}
    (h : Holds store offset src) {offset' : Nat} {src' : List α}
    (hafter : offset + src.length ≤ offset') (hfit : offset' + src'.length ≤ store.length) :
    Holds (overwrite store offset' src') offset src := by
  refine ⟨by rw [length_overwrite _ _ _ hfit]; exact h.1, ?_⟩
  have hstart : offset' ≤ store.length := by omega
  calc slice (overwrite store offset' src') offset src.length
      = slice store offset src.length := by
        apply List.ext_getElem?
        intro i
        rw [getElem?_slice, getElem?_slice, getElem?_overwrite _ _ _ _ hstart]
        split_ifs with hi hin hout
        · rfl
        · omega
        · rfl
        · rfl
    _ = src := h.2

theorem Holds.getElem? {store : List α} {offset : Nat} {src : List α}
    (h : Holds store offset src) {i : Nat} (hi : i < src.length) :
    store[offset + i]? = src[i]? := by
  have hslice := congrArg (fun cells => cells[i]?) h.2
  simpa [getElem?_slice, hi] using hslice

theorem holds_append {store : List α} {offset : Nat} {xs ys : List α}
    (h : Holds store offset (xs ++ ys)) :
    Holds store offset xs ∧ Holds store (offset + xs.length) ys := by
  obtain ⟨hfit, hslice⟩ := h
  rw [List.length_append] at hfit hslice
  rw [slice_append] at hslice
  have hlen := length_slice store offset xs.length (by omega)
  obtain ⟨hxs, hys⟩ := List.append_inj hslice hlen
  exact ⟨⟨by omega, hxs⟩, ⟨by omega, hys⟩⟩

/-- The bytes of a number, least significant first, in exactly `width` bytes. -/
def toBytes : Nat → Nat → List UInt8
  | 0, _ => []
  | width + 1, n => UInt8.ofNat n :: toBytes width (n / 256)

/-- The number that bytes denote, least significant first. -/
def ofBytes : List UInt8 → Nat
  | [] => 0
  | b :: bytes => b.toNat + 256 * ofBytes bytes

@[simp] theorem length_toBytes (width n : Nat) : (toBytes width n).length = width := by
  induction width generalizing n with
  | zero => rfl
  | succ width ih => simp [toBytes, ih]

theorem ofBytes_toBytes (width n : Nat) (h : n < 256 ^ width) :
    ofBytes (toBytes width n) = n := by
  induction width generalizing n with
  | zero =>
      have hzero : n = 0 := by simpa using h
      subst n
      rfl
  | succ width ih =>
      have hdiv : n / 256 < 256 ^ width := by
        rw [Nat.div_lt_iff_lt_mul (by norm_num)]
        simpa [pow_succ] using h
      have hmod : (UInt8.ofNat n).toNat = n % 256 := by simp
      simp only [toBytes, ofBytes, ih (n / 256) hdiv, hmod]
      omega

theorem toBytes_ofBytes (bytes : List UInt8) : toBytes bytes.length (ofBytes bytes) = bytes := by
  induction bytes with
  | nil => rfl
  | cons b bytes ih =>
      have hb : b.toNat < 256 := b.toNat_lt
      have hlow : UInt8.ofNat (b.toNat + 256 * ofBytes bytes) = b := by
        apply UInt8.toNat_inj.mp
        have hmod : (UInt8.ofNat (b.toNat + 256 * ofBytes bytes)).toNat =
            (b.toNat + 256 * ofBytes bytes) % 256 := by simp
        omega
      have hhigh : (b.toNat + 256 * ofBytes bytes) / 256 = ofBytes bytes := by omega
      rw [ofBytes, List.length_cons, toBytes, hlow, hhigh, ih]

theorem ofBytes_injective {xs ys : List UInt8} (hlen : xs.length = ys.length)
    (h : ofBytes xs = ofBytes ys) : xs = ys := by
  rw [← toBytes_ofBytes xs, ← toBytes_ofBytes ys, hlen, h]

theorem ofBytes_lt (bytes : List UInt8) : ofBytes bytes < 256 ^ bytes.length := by
  induction bytes with
  | nil => simp [ofBytes]
  | cons b bytes ih =>
      have hb : b.toNat < 256 := b.toNat_lt
      simp only [ofBytes, List.length_cons, pow_succ]
      omega

/-- A number overwritten from its low end by a smaller one stays above that one. -/
theorem le_ofBytes_take_drop (width n m k : Nat) (hle : n ≤ m) (h : m < 256 ^ width) :
    n ≤ ofBytes ((toBytes width n).take k ++ (toBytes width m).drop k) := by
  induction width generalizing n m k with
  | zero =>
      have hzero : m = 0 := by simpa using h
      omega
  | succ width ih =>
      cases k with
      | zero =>
          rw [List.take_zero, List.nil_append, List.drop_zero, ofBytes_toBytes _ _ h]
          exact hle
      | succ k =>
          have hdiv : m / 256 < 256 ^ width := by
            rw [Nat.div_lt_iff_lt_mul (by norm_num)]
            simpa [pow_succ] using h
          have hrest := ih (n / 256) (m / 256) k (Nat.div_le_div_right hle) hdiv
          have hmod : (UInt8.ofNat n).toNat = n % 256 := by simp
          simp only [toBytes, List.take_succ_cons, List.drop_succ_cons, List.cons_append,
            ofBytes, hmod]
          omega

end ColonyPico.Foundations.ByteStore
