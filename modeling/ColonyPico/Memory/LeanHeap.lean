import ColonyPico.Foundations.Runs
import Mathlib.Algebra.Group.Nat.Defs
import Mathlib.Data.BitVec

/-!
The allocate-only heap (`Cpl::Memory::LeanHeap`), and the ranges that it hands out.
-/

namespace ColonyPico.Memory.LeanHeap

open ColonyPico.Foundations.Runs

/-- A `size_t` of so many bytes. -/
abbrev SizeT (sizeofSizeT : Nat) : Type :=
  BitVec (8 * sizeofSizeT)

/-- Pointers are addresses; the content of the memory is left out. -/
structure Heap (sizeofSizeT : Nat) where
  ptrBase : Nat
  staringHeapSize : SizeT sizeofSizeT
  ptr : Nat
  wordsRemaining : SizeT sizeofSizeT

variable {sizeofSizeT : Nat}

/-- `BYTES_TO_WORDS`. -/
def bytesToWords (n : SizeT sizeofSizeT) : SizeT sizeofSizeT :=
  (n + (.ofNat _ sizeofSizeT - 1)) / .ofNat _ sizeofSizeT

/-- The constructor; none where its assertion fails. -/
def construct (heapMemory : Nat) (sizeInBytes : SizeT sizeofSizeT) :
    Option (Heap sizeofSizeT) :=
  if bytesToWords sizeInBytes * 4 ≤ sizeInBytes then
    some
      { ptrBase := heapMemory
        staringHeapSize := bytesToWords sizeInBytes
        ptr := heapMemory
        wordsRemaining := bytesToWords sizeInBytes }
  else none

def allocate (h : Heap sizeofSizeT) (numbytes : SizeT sizeofSizeT) :
    Heap sizeofSizeT × Option Nat :=
  let numWords := bytesToWords numbytes
  if numWords > h.wordsRemaining then (h, none)
  else
    ({ h with
        wordsRemaining := h.wordsRemaining - numWords
        ptr := h.ptr + numWords.toNat * sizeofSizeT }, some h.ptr)

def reset (h : Heap sizeofSizeT) : Heap sizeofSizeT :=
  { h with wordsRemaining := h.staringHeapSize, ptr := h.ptrBase }

/-- The start of the memory and the allocated length in bytes. -/
def getMemoryStart (h : Heap sizeofSizeT) : Nat × SizeT sizeofSizeT :=
  (h.ptrBase, (h.staringHeapSize - h.wordsRemaining) * .ofNat _ sizeofSizeT)

/-! Runs -/

/-- Addresses from `start` on, up to `stop`. -/
structure Range where
  start : Nat
  stop : Nat
  deriving DecidableEq

/-- The heap, and the ranges that were handed out since the last reset, the last one first. -/
structure State (sizeofSizeT : Nat) where
  heap : Heap sizeofSizeT
  ranges : List Range

inductive Action (sizeofSizeT : Nat) where
  | allocate (numbytes : SizeT sizeofSizeT)
  | reset

/-- What a call hands out ends where the next call starts. -/
def step (s : State sizeofSizeT) : Action sizeofSizeT → Option (State sizeofSizeT)
  | .allocate numbytes =>
      match allocate s.heap numbytes with
      | (heap, none) => some { s with heap := heap }
      | (heap, some result) => some ⟨heap, ⟨result, heap.ptr⟩ :: s.ranges⟩
  | .reset => some ⟨reset s.heap, []⟩

/-- Where the last range ends. -/
def lastStop (base : Nat) (ranges : List Range) : Nat :=
  ranges.head?.elim base Range.stop

/-- A request in whole words. -/
def roundedUp (n : SizeT sizeofSizeT) : Nat :=
  (n.toNat + (sizeofSizeT - 1)) / sizeofSizeT * sizeofSizeT

/-- A range for a request: aligned, long enough, in the heap, and apart from the ranges before. -/
structure Fits (base size : Nat) (ranges : List Range) (numbytes : SizeT sizeofSizeT) (r : Range) :
    Prop where
  aligned : r.start % sizeofSizeT = 0
  long : r.start + numbytes.toNat ≤ r.stop
  above : base ≤ r.start
  below : r.stop ≤ base + size
  apart : ∀ r' ∈ ranges, r'.stop ≤ r.start ∨ r.stop ≤ r'.start

/-- The memory that a heap reports reaches to the end of its last range. -/
def Reports (base : Nat) (s : State sizeofSizeT) : Prop :=
  (getMemoryStart s.heap).1 = base ∧
    base + (getMemoryStart s.heap).2.toNat = lastStop base s.ranges

/-- What is promised of a call on the heap of `size` bytes at `base`. -/
def AllocatesExactly (base size : Nat) (s : State sizeofSizeT) : Action sizeofSizeT → Prop
  | .allocate numbytes =>
      ((allocate s.heap numbytes).2 = none ↔
          base + size < lastStop base s.ranges + roundedUp numbytes) ∧
        (∀ result, (allocate s.heap numbytes).2 = some result →
          Fits base size s.ranges numbytes ⟨result, (allocate s.heap numbytes).1.ptr⟩) ∧
        ∀ next, step s (.allocate numbytes) = some next → Reports base next
  | .reset => Reports base ⟨reset s.heap, []⟩

/-- Rounding the request up does not exceed `size_t`. -/
def RoundsUpInRange (_ : State sizeofSizeT) : Action sizeofSizeT → Prop
  | .allocate numbytes => numbytes.toNat + (sizeofSizeT - 1) < 2 ^ (8 * sizeofSizeT)
  | .reset => True

/-! Arithmetic -/

section Words

variable (hws : 0 < sizeofSizeT) {n : SizeT sizeofSizeT}
include hws

theorem sizeof_lt : sizeofSizeT < 2 ^ (8 * sizeofSizeT) :=
  Nat.lt_two_pow_self.trans_le (Nat.pow_le_pow_right (by decide) (by omega))

theorem toNat_sizeof : (.ofNat _ sizeofSizeT : SizeT sizeofSizeT).toNat = sizeofSizeT := by
  rw [BitVec.toNat_ofNat, Nat.mod_eq_of_lt (sizeof_lt hws)]

theorem toNat_bytesToWords (n : SizeT sizeofSizeT) :
    (bytesToWords n).toNat =
      (n.toNat + (sizeofSizeT - 1)) % 2 ^ (8 * sizeofSizeT) / sizeofSizeT := by
  have hlt := sizeof_lt hws
  have hone : (1 : SizeT sizeofSizeT).toNat = 1 := by
    show (BitVec.ofNat _ 1).toNat = 1
    rw [BitVec.toNat_ofNat, Nat.mod_eq_of_lt (by omega)]
  have hle : (1 : SizeT sizeofSizeT) ≤ .ofNat _ sizeofSizeT := by
    rw [BitVec.le_def, toNat_sizeof hws, hone]
    exact hws
  rw [bytesToWords, BitVec.toNat_udiv, BitVec.toNat_add, BitVec.toNat_sub_of_le hle,
    toNat_sizeof hws, hone]

theorem bytesToWords_of_inRange (hrange : n.toNat + (sizeofSizeT - 1) < 2 ^ (8 * sizeofSizeT)) :
    (bytesToWords n).toNat * sizeofSizeT = roundedUp n := by
  rw [toNat_bytesToWords hws, Nat.mod_eq_of_lt hrange]
  rfl

/-- A request whose rounding exceeds `size_t` becomes zero words. -/
theorem bytesToWords_wrapped (hwrapped : ¬n.toNat + (sizeofSizeT - 1) < 2 ^ (8 * sizeofSizeT)) :
    (bytesToWords n).toNat = 0 := by
  have hlt := n.isLt
  have hsizeof := sizeof_lt hws
  rw [toNat_bytesToWords hws, Nat.mod_eq_sub_mod (Nat.le_of_not_lt hwrapped),
    Nat.mod_eq_of_lt (by omega)]
  exact Nat.div_eq_of_lt (by omega)

/-- The rounding of a size in whole words does not exceed `size_t`. -/
theorem bytesToWords_multiple (hpower : sizeofSizeT ∣ 2 ^ (8 * sizeofSizeT))
    (hmultiple : n.toNat % sizeofSizeT = 0) :
    (bytesToWords n).toNat * sizeofSizeT = n.toNat := by
  have hle : sizeofSizeT ≤ 2 ^ (8 * sizeofSizeT) - n.toNat :=
    Nat.le_of_dvd (Nat.sub_pos_of_lt n.isLt)
      (Nat.dvd_sub hpower (Nat.dvd_of_mod_eq_zero hmultiple))
  have hlt := n.isLt
  rw [bytesToWords_of_inRange hws (by omega), roundedUp]
  obtain ⟨k, hk⟩ := Nat.dvd_of_mod_eq_zero hmultiple
  rw [hk, Nat.mul_add_div hws, Nat.div_eq_of_lt (by omega), Nat.add_zero, Nat.mul_comm]

end Words

/-! The invariant -/

/-- The ranges follow each other from the start of the heap to the pointer, and the remaining words
lie behind it. -/
structure Inv (base size : Nat) (s : State sizeofSizeT) : Prop where
  ptrBase : s.heap.ptrBase = base
  heapSize : s.heap.staringHeapSize.toNat * sizeofSizeT = size
  remaining : s.heap.wordsRemaining.toNat ≤ s.heap.staringHeapSize.toNat
  ptr : s.heap.ptr =
    base + (s.heap.staringHeapSize.toNat - s.heap.wordsRemaining.toNat) * sizeofSizeT
  last : lastStop base s.ranges = s.heap.ptr
  before : ∀ r ∈ s.ranges, r.stop ≤ s.heap.ptr

variable {base size : Nat} {s : State sizeofSizeT}

theorem inv_reset (h : Inv base size s) : Inv base size ⟨reset s.heap, []⟩ where
  ptrBase := h.ptrBase
  heapSize := h.heapSize
  remaining := Nat.le_refl _
  ptr := by
    show s.heap.ptrBase = _
    rw [h.ptrBase]
    show base = base +
      (s.heap.staringHeapSize.toNat - s.heap.staringHeapSize.toNat) * sizeofSizeT
    rw [Nat.sub_self, Nat.zero_mul, Nat.add_zero]
  last := h.ptrBase.symm
  before := fun r hr => (List.not_mem_nil hr).elim

/-- Where the pointer and the remaining words meet. -/
theorem Inv.ptr_add (h : Inv base size s) :
    s.heap.ptr + s.heap.wordsRemaining.toNat * sizeofSizeT = base + size := by
  rw [h.ptr, Nat.add_assoc, ← Nat.add_mul, Nat.sub_add_cancel h.remaining, h.heapSize]

theorem allocate_none (h : Heap sizeofSizeT) (n : SizeT sizeofSizeT)
    (hbig : bytesToWords n > h.wordsRemaining) : allocate h n = (h, none) :=
  if_pos hbig

/-- The heap behind a range of so many words. -/
def advance (h : Heap sizeofSizeT) (numWords : SizeT sizeofSizeT) : Heap sizeofSizeT :=
  { h with
    wordsRemaining := h.wordsRemaining - numWords
    ptr := h.ptr + numWords.toNat * sizeofSizeT }

theorem allocate_some (h : Heap sizeofSizeT) (n : SizeT sizeofSizeT)
    (hfits : ¬bytesToWords n > h.wordsRemaining) :
    allocate h n = (advance h (bytesToWords n), some h.ptr) :=
  if_neg hfits

theorem inv_advance (h : Inv base size s) {numWords : SizeT sizeofSizeT}
    (hfits : numWords ≤ s.heap.wordsRemaining) :
    Inv base size ⟨advance s.heap numWords,
      ⟨s.heap.ptr, (advance s.heap numWords).ptr⟩ :: s.ranges⟩ := by
  have hle : numWords.toNat ≤ s.heap.wordsRemaining.toNat := BitVec.le_def.mp hfits
  have hremaining : (advance s.heap numWords).wordsRemaining.toNat =
      s.heap.wordsRemaining.toNat - numWords.toNat := BitVec.toNat_sub_of_le hfits
  refine ⟨h.ptrBase, h.heapSize, ?_, ?_, rfl, ?_⟩
  · dsimp only
    rw [hremaining]
    exact (Nat.sub_le _ _).trans h.remaining
  · show s.heap.ptr + numWords.toNat * sizeofSizeT = _
    dsimp only
    rw [hremaining, h.ptr, Nat.add_assoc, ← Nat.add_mul]
    have hadvance : s.heap.staringHeapSize.toNat - s.heap.wordsRemaining.toNat + numWords.toNat =
        s.heap.staringHeapSize.toNat - (s.heap.wordsRemaining.toNat - numWords.toNat) := by
      have hremaining := h.remaining
      omega
    rw [hadvance]
    rfl
  · intro r hr
    have hle : s.heap.ptr ≤ (advance s.heap numWords).ptr := Nat.le_add_right _ _
    rcases List.mem_cons.mp hr with rfl | hr
    · exact Nat.le_refl _
    · exact (h.before r hr).trans hle

theorem inv_step {action : Action sizeofSizeT} {next : State sizeofSizeT} (h : Inv base size s)
    (hstep : step s action = some next) : Inv base size next := by
  cases action with
  | allocate numbytes =>
      rw [step] at hstep
      by_cases hbig : bytesToWords numbytes > s.heap.wordsRemaining
      · rw [allocate_none _ _ hbig] at hstep
        cases hstep
        exact h
      · rw [allocate_some _ _ hbig] at hstep
        cases hstep
        exact inv_advance h (BitVec.not_lt.mp hbig)
  | reset =>
      cases hstep
      exact inv_reset h

theorem Inv.reports (h : Inv base size s) (hws : 0 < sizeofSizeT)
    (hsize : size < 2 ^ (8 * sizeofSizeT)) : Reports base s := by
  have hused : (s.heap.staringHeapSize.toNat - s.heap.wordsRemaining.toNat) * sizeofSizeT ≤ size :=
    (Nat.mul_le_mul_right _ (Nat.sub_le _ _)).trans_eq h.heapSize
  refine ⟨h.ptrBase, ?_⟩
  rw [h.last, h.ptr, getMemoryStart, BitVec.toNat_mul,
    BitVec.toNat_sub_of_le (BitVec.le_def.mpr h.remaining), toNat_sizeof hws,
    Nat.mod_eq_of_lt (hused.trans_lt hsize)]

theorem Inv.aligned (h : Inv base size s) (hbase : base % sizeofSizeT = 0) :
    s.heap.ptr % sizeofSizeT = 0 := by
  rw [h.ptr, Nat.add_mul_mod_self_right, hbase]

/-- A request of so many words fits just when its bytes do. -/
theorem Inv.fits_iff (h : Inv base size s) (hws : 0 < sizeofSizeT) (numWords : SizeT sizeofSizeT) :
    numWords > s.heap.wordsRemaining ↔
      base + size < lastStop base s.ranges + numWords.toNat * sizeofSizeT := by
  rw [h.last, ← h.ptr_add, Nat.add_lt_add_iff_left, Nat.mul_lt_mul_right hws]
  exact BitVec.lt_def

theorem le_roundedUp (hws : 0 < sizeofSizeT) (n : SizeT sizeofSizeT) : n.toNat ≤ roundedUp n := by
  have hdiv := Nat.div_add_mod' (n.toNat + (sizeofSizeT - 1)) sizeofSizeT
  have hmod := Nat.mod_lt (n.toNat + (sizeofSizeT - 1)) hws
  rw [roundedUp]
  omega

theorem allocatesExactly_of_inRange (h : Inv base size s) (hws : 0 < sizeofSizeT)
    (hbase : base % sizeofSizeT = 0) (hsize : size < 2 ^ (8 * sizeofSizeT))
    {n : SizeT sizeofSizeT} (hrange : n.toNat + (sizeofSizeT - 1) < 2 ^ (8 * sizeofSizeT)) :
    AllocatesExactly base size s (.allocate n) := by
  have hrounded := bytesToWords_of_inRange hws hrange
  have hiff := h.fits_iff hws (bytesToWords n)
  rw [hrounded] at hiff
  refine ⟨?_, ?_, fun next hnext => (inv_step h hnext).reports hws hsize⟩
  · rw [← hiff]
    by_cases hbig : bytesToWords n > s.heap.wordsRemaining
    · rw [allocate_none _ _ hbig]
      exact iff_of_true rfl hbig
    · rw [allocate_some _ _ hbig]
      exact iff_of_false (Option.some_ne_none _) hbig
  · intro result hresult
    by_cases hbig : bytesToWords n > s.heap.wordsRemaining
    · rw [allocate_none _ _ hbig] at hresult
      cases hresult
    · rw [allocate_some _ _ hbig] at hresult ⊢
      cases hresult
      have hptr : (advance s.heap (bytesToWords n)).ptr = s.heap.ptr + roundedUp n := by
        rw [← hrounded]
        rfl
      have hend : lastStop base s.ranges + roundedUp n ≤ base + size :=
        Nat.le_of_not_lt (mt hiff.mpr hbig)
      refine ⟨h.aligned hbase, ?_, ?_, ?_, fun r hr => .inl (h.before r hr)⟩
      · show s.heap.ptr + n.toNat ≤ (advance s.heap (bytesToWords n)).ptr
        rw [hptr]
        exact Nat.add_le_add_left (le_roundedUp hws n) _
      · show base ≤ s.heap.ptr
        rw [h.ptr]
        exact Nat.le_add_right _ _
      · show (advance s.heap (bytesToWords n)).ptr ≤ base + size
        rwa [hptr, ← h.last]

/-- A request that wraps gets a pointer to no memory at all. -/
theorem not_allocatesExactly_of_wrapped (hws : 0 < sizeofSizeT) {n : SizeT sizeofSizeT}
    (hwrapped : ¬n.toNat + (sizeofSizeT - 1) < 2 ^ (8 * sizeofSizeT)) :
    ¬AllocatesExactly base size s (.allocate n) := by
  rintro ⟨-, hfits, -⟩
  have hzero := bytesToWords_wrapped hws hwrapped
  have hsizeof := sizeof_lt hws
  have hsmall : ¬bytesToWords n > s.heap.wordsRemaining := by
    show ¬s.heap.wordsRemaining < bytesToWords n
    rw [BitVec.lt_def, hzero]
    exact Nat.not_lt_zero _
  rw [allocate_some _ _ hsmall] at hfits
  have hlong := (hfits s.heap.ptr rfl).long
  have hptr : (advance s.heap (bytesToWords n)).ptr = s.heap.ptr := by
    show s.heap.ptr + (bytesToWords n).toNat * sizeofSizeT = _
    rw [hzero, Nat.zero_mul, Nat.add_zero]
  dsimp only at hlong
  omega

theorem allocatesExactly_iff (h : Inv base size s) (hws : 0 < sizeofSizeT)
    (hbase : base % sizeofSizeT = 0) (hsize : size < 2 ^ (8 * sizeofSizeT))
    (action : Action sizeofSizeT) :
    AllocatesExactly base size s action ↔ RoundsUpInRange s action := by
  cases action with
  | allocate numbytes =>
      constructor
      · intro hexact
        by_contra hwrapped
        exact not_allocatesExactly_of_wrapped hws hwrapped hexact
      · exact allocatesExactly_of_inRange h hws hbase hsize
  | reset => exact iff_of_true ((inv_reset h).reports hws hsize) trivial

theorem inv_construct {sizeInBytes : SizeT sizeofSizeT} {h : Heap sizeofSizeT}
    (hws : 0 < sizeofSizeT) (hpower : sizeofSizeT ∣ 2 ^ (8 * sizeofSizeT))
    (hmultiple : sizeInBytes.toNat % sizeofSizeT = 0)
    (hconstruct : construct base sizeInBytes = some h) :
    Inv base sizeInBytes.toNat ⟨h, []⟩ := by
  unfold construct at hconstruct
  split_ifs at hconstruct
  cases hconstruct
  refine ⟨rfl, bytesToWords_multiple hws hpower hmultiple, Nat.le_refl _, ?_, rfl, ?_⟩
  · dsimp only
    rw [Nat.sub_self, Nat.zero_mul, Nat.add_zero]
  · exact fun r hr => (List.not_mem_nil hr).elim

/-- From a heap whose size is a multiple of the size of a word, which is a power of two, all calls
do what is promised just when no request wraps as it is rounded up. -/
theorem leanHeap_allocatesExactly_iff (k base : Nat) (sizeInBytes : SizeT (2 ^ k))
    (h : Heap (2 ^ k)) (hbase : base % 2 ^ k = 0) (hmultiple : sizeInBytes.toNat % 2 ^ k = 0)
    (hconstruct : construct base sizeInBytes = some h) (actions : List (Action (2 ^ k))) :
    AllSteps step (AllocatesExactly base sizeInBytes.toNat) ⟨h, []⟩ actions ↔
      AllSteps step RoundsUpInRange ⟨h, []⟩ actions := by
  have hws : 0 < 2 ^ k := Nat.two_pow_pos k
  have hpower : 2 ^ k ∣ 2 ^ (8 * 2 ^ k) :=
    Nat.pow_dvd_pow 2 ((Nat.lt_two_pow_self).le.trans (Nat.le_mul_of_pos_left _ (by decide)))
  exact allSteps_iff_of_invariant (I := Inv base sizeInBytes.toNat)
    (fun _ _ _ hinv hstep => inv_step hinv hstep)
    (fun _ action hinv => allocatesExactly_iff hinv hws hbase sizeInBytes.isLt action)
    (inv_construct hws hpower hmultiple hconstruct)

/-- A heap of 400 bytes. -/
def smallHeap : Heap (2 ^ 2) where
  ptrBase := 4096
  staringHeapSize := 100
  ptr := 4096
  wordsRemaining := 100

theorem leanHeap_allocatesExactly_iff_small :
    AllSteps step (AllocatesExactly 4096 400) ⟨smallHeap, []⟩ [.allocate 1, .allocate 500, .reset] ↔
      AllSteps step RoundsUpInRange ⟨smallHeap, []⟩ [.allocate 1, .allocate 500, .reset] :=
  leanHeap_allocatesExactly_iff 2 4096 400 smallHeap (by decide) (by decide) rfl _

/-- The largest request gets a pointer to no bytes. -/
theorem leanHeap_not_allocatesExactly :
    construct 4096 (400 : SizeT (2 ^ 2)) = some smallHeap ∧
      allocate smallHeap 4294967295 = (smallHeap, some 4096) ∧
      ¬AllSteps step (AllocatesExactly 4096 400) ⟨smallHeap, []⟩ [.allocate 4294967295] := by
  refine ⟨rfl, rfl, fun hall => ?_⟩
  have hlong := (hall.1.2.1 4096 rfl).long
  exact absurd hlong (by decide)

end ColonyPico.Memory.LeanHeap
