import Mathlib.Data.List.Basic

/-!
Byte addressed memory: copying out of it and into it.
-/

namespace ColonyPico.Foundations.ByteMemory

/-- What memory holds from an address on. -/
abbrev Memory : Type := Nat → UInt8

/-- The first `n` bytes. -/
def load (src : Memory) (n : Nat) : List UInt8 :=
  (List.range n).map src

/-- Memory that starts with some bytes. -/
def memoryOf (bytes : List UInt8) (rest : Memory) : Memory :=
  fun i => bytes[i]?.getD (rest (i - bytes.length))

/-- Memory as it looks from an address on. -/
def suffix (m : Memory) (addr : Nat) : Memory :=
  fun i => m (addr + i)

/-- Copy bytes to an address. -/
def store (m : Memory) (addr : Nat) (bytes : List UInt8) : Memory :=
  fun i => if addr ≤ i then bytes[i - addr]?.getD (m i) else m i

@[simp] theorem length_load (src : Memory) (n : Nat) : (load src n).length = n := by
  simp [load]

theorem getElem?_load (src : Memory) {n i : Nat} (hi : i < n) :
    (load src n)[i]? = some (src i) := by
  simp [load, hi]

theorem load_congr {src src' : Memory} {n : Nat} (hsame : ∀ i, i < n → src' i = src i) :
    load src' n = load src n :=
  List.map_congr_left fun i hi => hsame i (List.mem_range.mp hi)

theorem load_add (src : Memory) (m n : Nat) :
    load src (m + n) = load src m ++ load (suffix src m) n := by
  rw [load, load, load, List.range_add, List.map_append, List.map_map]
  rfl

theorem load_succ (src : Memory) (n : Nat) : load src (n + 1) = load src n ++ [src n] := by
  rw [load_add]
  rfl

theorem memoryOf_apply {bytes : List UInt8} {i : Nat} {b : UInt8} (hi : bytes[i]? = some b)
    (rest : Memory) : memoryOf bytes rest i = b := by
  rw [memoryOf, hi]
  rfl

/-- Memory starts with the given bytes. -/
def StartsWith (m : Memory) (bytes : List UInt8) : Prop :=
  load m bytes.length = bytes

theorem startsWith_append {m : Memory} {xs ys : List UInt8} :
    StartsWith m (xs ++ ys) ↔ StartsWith m xs ∧ StartsWith (suffix m xs.length) ys := by
  rw [StartsWith, List.length_append, load_add]
  constructor
  · intro h
    exact List.append_inj h (length_load m xs.length)
  · rintro ⟨hxs, hys⟩
    rw [StartsWith] at hxs hys
    rw [hxs, hys]

theorem StartsWith.head {m : Memory} {b : UInt8} {bytes : List UInt8}
    (h : StartsWith m (b :: bytes)) : m 0 = b := by
  have hfirst := congrArg (fun xs => xs[0]?) h
  rw [getElem?_load m (by simp)] at hfirst
  simpa using hfirst

@[simp] theorem suffix_zero (m : Memory) : suffix m 0 = m := by
  funext i
  rw [suffix, Nat.zero_add]

theorem startsWith_memoryOf (bytes : List UInt8) (rest : Memory) :
    StartsWith (memoryOf bytes rest) bytes := by
  apply List.ext_getElem?
  intro i
  by_cases hi : i < bytes.length
  · rw [getElem?_load _ hi, memoryOf_apply (List.getElem?_eq_getElem hi),
      List.getElem?_eq_getElem hi]
  · rw [List.getElem?_eq_none (by simpa using hi), List.getElem?_eq_none (by omega)]

theorem startsWith_store (m : Memory) (addr : Nat) (bytes : List UInt8) :
    StartsWith (suffix (store m addr bytes) addr) bytes := by
  apply List.ext_getElem?
  intro i
  by_cases hi : i < bytes.length
  · rw [getElem?_load _ hi, suffix, store, if_pos (by omega), Nat.add_sub_cancel_left,
      List.getElem?_eq_getElem hi]
    rfl
  · rw [List.getElem?_eq_none (by simpa using hi), List.getElem?_eq_none (by omega)]

theorem store_outside (m : Memory) (addr : Nat) (bytes : List UInt8) {i : Nat}
    (hi : i < addr ∨ addr + bytes.length ≤ i) : store m addr bytes i = m i := by
  rw [store]
  split_ifs with h
  · rw [List.getElem?_eq_none (by omega)]
    rfl
  · rfl

@[simp] theorem store_nil (m : Memory) (addr : Nat) : store m addr [] = m := by
  funext i
  simp [store]

/-- A copy of a prefix over a copy of a prefix is a copy of the longer one. -/
theorem store_take_store_take (m : Memory) (addr : Nat) (bytes : List UInt8) (j k : Nat) :
    store (store m addr (bytes.take j)) addr (bytes.take k) =
      store m addr (bytes.take (max j k)) := by
  funext i
  have hmax : i - addr < max j k ↔ i - addr < j ∨ i - addr < k := by omega
  simp only [store, List.getElem?_take, hmax]
  by_cases hlow : addr ≤ i
  · by_cases hk : i - addr < k
    · cases bytes[i - addr]? <;> simp [hlow, hk]
    · simp [hlow, hk]
  · simp [hlow]

/-- Two adjacent copies are one copy of the joined bytes. -/
theorem store_store (m : Memory) (addr : Nat) (xs ys : List UInt8) :
    store (store m addr xs) (addr + xs.length) ys = store m addr (xs ++ ys) := by
  funext i
  simp only [store]
  by_cases hlow : addr ≤ i
  · rw [if_pos hlow, List.getElem?_append]
    by_cases hin : i - addr < xs.length
    · rw [if_pos hin, if_neg (by omega), if_pos hlow]
    · rw [if_neg hin, if_pos (by omega), if_pos hlow,
        List.getElem?_eq_none (by omega : xs.length ≤ i - addr)]
      have hsub : i - (addr + xs.length) = i - addr - xs.length := by omega
      rw [hsub]
      rfl
  · rw [if_neg hlow, if_neg (by omega), if_neg hlow]

end ColonyPico.Foundations.ByteMemory
