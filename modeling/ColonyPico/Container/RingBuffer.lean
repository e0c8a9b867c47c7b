import ColonyPico.Foundations.ByteStore
import ColonyPico.Foundations.CircularSlots

/-!
The ring buffer (`Cpl::Container::RingBuffer`) and the queue it stands for.

Pointers into the element memory are offsets from `m_elements`; the `unsigned`
counts have 32 bits.
-/

namespace ColonyPico.Container.RingBuffer

open ColonyPico.Foundations.ByteStore (overwrite getElem?_overwrite length_overwrite)
open ColonyPico.Foundations.CircularSlots

/-- The members of a `RingBuffer`; `m_endOfMemPtr` is `memoryNumElements`. -/
structure Buffer (ITEM : Type*) where
  headPtr : Nat
  tailPtr : Nat
  memoryNumElements : UInt32
  elements : List ITEM

namespace Buffer

variable {ITEM : Type*}

/-- The constructor. -/
def init (maxElements : UInt32) (memoryForElements : List ITEM) : Buffer ITEM :=
  { headPtr := 0
    tailPtr := 0
    memoryNumElements := maxElements
    elements := memoryForElements }

def endOfMemPtr (rb : Buffer ITEM) : Nat :=
  rb.memoryNumElements.toNat

/-- A pointer that has reached the end of the memory goes back to its start. -/
def wrap (rb : Buffer ITEM) (ptr : Nat) : Nat :=
  if rb.endOfMemPtr ≤ ptr then 0 else ptr

def clearTheBuffer (rb : Buffer ITEM) : Buffer ITEM :=
  { rb with headPtr := 0, tailPtr := 0 }

def isEmpty (rb : Buffer ITEM) : Bool :=
  rb.headPtr == rb.tailPtr

def isFull (rb : Buffer ITEM) : Bool :=
  rb.wrap (rb.tailPtr + 1) == rb.headPtr

def getNumItems (rb : Buffer ITEM) : UInt32 :=
  let headIdx := UInt32.ofNat rb.headPtr
  let tailIdx := UInt32.ofNat rb.tailPtr
  (if tailIdx < headIdx then tailIdx + rb.memoryNumElements else tailIdx) - headIdx

def getMaxItems (rb : Buffer ITEM) : UInt32 :=
  rb.memoryNumElements - 1

def add (rb : Buffer ITEM) (item : ITEM) : Bool × Buffer ITEM :=
  if rb.isFull then (false, rb)
  else
    (true,
      { rb with
        elements := rb.elements.set rb.tailPtr item
        tailPtr := rb.wrap (rb.tailPtr + 1) })

/-- `remove()`: the item copied to `dst`, none when it returns false. -/
def remove (rb : Buffer ITEM) : Option ITEM × Buffer ITEM :=
  if rb.isEmpty then (none, rb)
  else (rb.elements[rb.headPtr]?, { rb with headPtr := rb.wrap (rb.headPtr + 1) })

def peekHead (rb : Buffer ITEM) : Option Nat :=
  if rb.isEmpty then none else some rb.headPtr

def peekTail (rb : Buffer ITEM) : Option Nat :=
  if rb.isEmpty then none
  else if rb.tailPtr = 0 then some (rb.endOfMemPtr - 1)
  else some (rb.tailPtr - 1)

/-- `peekNextRemoveItems()`: the pointer, and what the caller's
`dstNumFlatElements` holds afterwards. -/
def peekNextRemoveItems (rb : Buffer ITEM) (dstNumFlatElements : UInt32) :
    Option Nat × UInt32 :=
  -- an empty buffer leaves the caller's variable as it was
  if rb.isEmpty then (none, dstNumFlatElements)
  else
    let totalNumElements := rb.getNumItems
    let flat := UInt32.ofNat (rb.endOfMemPtr - rb.headPtr)
    (some rb.headPtr, if totalNumElements < flat then totalNumElements else flat)

def removeElements (rb : Buffer ITEM) (numElementsToRemove : UInt32) : Buffer ITEM :=
  { rb with headPtr := rb.wrap (rb.headPtr + numElementsToRemove.toNat) }

/-- `peekNextAddItems()`, which overwrites `dstNumFlatElements` in every case. -/
def peekNextAddItems (rb : Buffer ITEM) : Option Nat × UInt32 :=
  if rb.isFull then (none, 0)
  else
    let totalAvailElements := rb.getMaxItems - rb.getNumItems
    let flat := UInt32.ofNat (rb.endOfMemPtr - rb.tailPtr)
    (some rb.tailPtr, if totalAvailElements < flat then totalAvailElements else flat)

def addElements (rb : Buffer ITEM) (numElementsAdded : UInt32) : Buffer ITEM :=
  { rb with tailPtr := rb.wrap (rb.tailPtr + numElementsAdded.toNat) }

end Buffer

variable {ITEM : Type*}

/-- What a user of the buffer does. -/
inductive Call (ITEM : Type*) where
  | add (item : ITEM)
  | remove
  | peekHead
  | peekTail
  | clear
  /-- `peekNextAddItems()`, the items copied to the flat area, `addElements()`. -/
  | addFlat (items : List ITEM)
  /-- `peekNextRemoveItems()` with what the caller's variable held, then
  `removeElements()`. -/
  | removeFlat (dstNumFlatElements count : UInt32)

/-- Copying items to the area a pointer leads to. -/
def store (rb : Buffer ITEM) (ptr : Option Nat) (items : List ITEM) : Buffer ITEM :=
  match ptr with
  | none => rb
  | some p => { rb with elements := overwrite rb.elements p items }

/-- The buffer after a call. -/
def step (rb : Buffer ITEM) : Call ITEM → Buffer ITEM
  | .add item => (rb.add item).2
  | .remove => rb.remove.2
  | .peekHead => rb
  | .peekTail => rb
  | .clear => rb.clearTheBuffer
  | .addFlat items =>
      (store rb rb.peekNextAddItems.1 items).addElements (UInt32.ofNat items.length)
  | .removeFlat _ count => rb.removeElements count

/-- The counts of the flat calls do not exceed the returned flat length. -/
def CountFits (rb : Buffer ITEM) : Call ITEM → Prop
  | .addFlat items => items.length ≤ rb.peekNextAddItems.2.toNat
  | .removeFlat dst count => count ≤ (rb.peekNextRemoveItems dst).2
  | _ => True

/-- Every flat call of a sequence keeps to the length it was given. -/
def CountsFit : Buffer ITEM → List (Call ITEM) → Prop
  | _, [] => True
  | rb, call :: calls => CountFits rb call ∧ CountsFit (step rb call) calls

/-- The queue of capacity `cap` after a call. -/
def fifoStep (cap : Nat) (q : List ITEM) : Call ITEM → List ITEM
  | .add item => if q.length < cap then q ++ [item] else q
  | .remove => q.tail
  | .peekHead => q
  | .peekTail => q
  | .clear => []
  | .addFlat items => q ++ items
  | .removeFlat _ count => q.drop count.toNat

/-- The buffer of `n` slots shows the queue `q`: its contents and what its
observers return. -/
structure Shows (n : Nat) (rb : Buffer ITEM) (q : List ITEM) : Prop where
  contents : Holds n (fun i => rb.elements[i]?) rb.headPtr q
  numItems : rb.getNumItems.toNat = q.length
  empty : rb.isEmpty = decide (q.length = 0)
  full : rb.isFull = decide (q.length = n - 1)

/-- A call on the buffer returns what the queue `q` gives. A flat area lies in
one stretch over the next free, or used, slots in queue order. -/
def Returns (n : Nat) (rb : Buffer ITEM) (q : List ITEM) : Call ITEM → Prop
  | .add item => (rb.add item).1 = decide (q.length < n - 1)
  | .remove => rb.remove.1 = q.head?
  | .peekHead => rb.peekHead.bind (fun p => rb.elements[p]?) = q.head?
  | .peekTail => rb.peekTail.bind (fun p => rb.elements[p]?) = q.getLast?
  | .clear => True
  | .addFlat _ =>
      (∀ i, i < rb.peekNextAddItems.2.toNat → q.length + i < n - 1 ∧
        rb.peekNextAddItems.1.map (· + i) = some (slot n rb.headPtr (q.length + i))) ∧
      (rb.peekNextAddItems.2 = 0 → q.length = n - 1)
  | .removeFlat dst _ =>
      (∀ i, i < (rb.peekNextRemoveItems dst).2.toNat → i < q.length ∧
        (rb.peekNextRemoveItems dst).1.map (· + i) = some (slot n rb.headPtr i)) ∧
      ((rb.peekNextRemoveItems dst).2 = 0 → q.length = 0)

/-- A sequence of calls behaves as the queue does, at every step. -/
def BehavesAs (n : Nat) : Buffer ITEM → List ITEM → List (Call ITEM) → Prop
  | rb, q, [] => Shows n rb q
  | rb, q, call :: calls =>
      Shows n rb q ∧ Returns n rb q call ∧
        BehavesAs n (step rb call) (fifoStep (n - 1) q call) calls

/-- A caller that may find the buffer empty passes a variable that holds zero. -/
def LengthPreset (rb : Buffer ITEM) : Call ITEM → Prop
  | .removeFlat dst _ => rb.isEmpty = true → dst = 0
  | _ => True

def LengthsPreset : Buffer ITEM → List (Call ITEM) → Prop
  | _, [] => True
  | rb, call :: calls => LengthPreset rb call ∧ LengthsPreset (step rb call) calls

/-- How a buffer of `n` slots represents a queue. -/
structure Represents (n : Nat) (rb : Buffer ITEM) (q : List ITEM) : Prop where
  numElements : rb.memoryNumElements.toNat = n
  length : rb.elements.length = n
  headPtr_lt : rb.headPtr < n
  fits : q.length < n
  tailPtr : rb.tailPtr = slot n rb.headPtr q.length
  holds : Holds n (fun i => rb.elements[i]?) rb.headPtr q

theorem toNat_ofNat {k : Nat} (hk : k < 2 ^ 32) : (UInt32.ofNat k).toNat = k := by
  rw [UInt32.toNat_ofNat']
  exact Nat.mod_eq_of_lt hk

section Represents

variable {n : Nat} {rb : Buffer ITEM} {q : List ITEM}

theorem Represents.pos (h : Represents n rb q) : 0 < n :=
  Nat.lt_of_le_of_lt (Nat.zero_le _) h.headPtr_lt

theorem Represents.lt_size (h : Represents n rb q) : n < 2 ^ 32 := by
  rw [← h.numElements]
  exact rb.memoryNumElements.toNat_lt

theorem Represents.tailPtr_lt (h : Represents n rb q) : rb.tailPtr < n := by
  rw [h.tailPtr]
  exact slot_lt h.pos _ _

theorem Represents.tailPtr_eq (h : Represents n rb q) :
    rb.tailPtr = if rb.headPtr + q.length < n then rb.headPtr + q.length
      else rb.headPtr + q.length - n := by
  rw [h.tailPtr, slot_eq h.headPtr_lt (Nat.le_of_lt h.fits)]

/-- Wrapping a pointer that moved by a flat length is going around the ring. -/
theorem Represents.wrap_add (h : Represents n rb q) {ptr k : Nat} (hptr : ptr < n)
    (hk : ptr + k ≤ n) : rb.wrap (ptr + k) = slot n ptr k := by
  rw [Buffer.wrap, Buffer.endOfMemPtr, h.numElements, slot_eq hptr (by omega)]
  split_ifs <;> omega

theorem Represents.getNumItems (h : Represents n rb q) : rb.getNumItems.toNat = q.length := by
  have hsize := h.lt_size
  have hhead := h.headPtr_lt
  have htail := h.tailPtr_lt
  have hfits := h.fits
  have heq := h.tailPtr_eq
  have hheadIdx : (UInt32.ofNat rb.headPtr).toNat = rb.headPtr :=
    toNat_ofNat (by omega)
  have htailIdx : (UInt32.ofNat rb.tailPtr).toNat = rb.tailPtr :=
    toNat_ofNat (by omega)
  simp only [Buffer.getNumItems, UInt32.lt_iff_toNat_lt, hheadIdx, htailIdx]
  by_cases hwrapped : rb.tailPtr < rb.headPtr
  · rw [if_pos hwrapped, UInt32.toNat_sub, UInt32.toNat_add, hheadIdx, htailIdx, h.numElements]
    split_ifs at heq <;> omega
  · rw [if_neg hwrapped, UInt32.toNat_sub, hheadIdx, htailIdx]
    split_ifs at heq <;> omega

theorem Represents.getMaxItems (h : Represents n rb q) : rb.getMaxItems.toNat = n - 1 := by
  have hsize := h.lt_size
  have hpos := h.pos
  rw [Buffer.getMaxItems, UInt32.toNat_sub, h.numElements]
  change (2 ^ 32 - 1 + n) % 2 ^ 32 = n - 1
  omega

theorem Represents.isEmpty (h : Represents n rb q) :
    rb.isEmpty = decide (q.length = 0) := by
  have hhead := h.headPtr_lt
  have hfits := h.fits
  have heq := h.tailPtr_eq
  rw [Buffer.isEmpty, Bool.beq_eq_decide_eq, decide_eq_decide]
  split_ifs at heq <;> omega

theorem Represents.isFull (h : Represents n rb q) :
    rb.isFull = decide (q.length = n - 1) := by
  have hhead := h.headPtr_lt
  have hfits := h.fits
  have heq := h.tailPtr_eq
  have htail := h.tailPtr_lt
  rw [Buffer.isFull, h.wrap_add htail htail, slot_eq htail h.pos, Bool.beq_eq_decide_eq,
    decide_eq_decide]
  split_ifs at heq ⊢ <;> omega

theorem Represents.shows (h : Represents n rb q) : Shows n rb q :=
  { contents := h.holds
    numItems := h.getNumItems
    empty := h.isEmpty
    full := h.isFull }

/-- No free slot behind the tail is one of the used slots. -/
theorem Represents.free_slot_ne (h : Represents n rb q) {i j : Nat} (hflat : rb.tailPtr + i < n)
    (hroom : q.length + i < n) (hj : j < q.length) : slot n rb.headPtr j ≠ rb.tailPtr + i := by
  intro heq
  have hi : rb.tailPtr + i = slot n rb.headPtr (q.length + i) := by
    rw [← slot_slot, ← h.tailPtr, slot_eq h.tailPtr_lt (by omega), if_pos hflat]
  rw [hi] at heq
  have hsame := slot_inj h.headPtr_lt (by omega) hroom heq
  omega

theorem Represents.set_free (h : Represents n rb q) {i : Nat} (hflat : rb.tailPtr + i < n)
    (hroom : q.length + i < n) (item : ITEM) :
    Represents n { rb with elements := rb.elements.set (rb.tailPtr + i) item } q := by
  refine ⟨h.numElements, ?_, h.headPtr_lt, h.fits, h.tailPtr, h.holds.congr ?_⟩
  · rw [List.length_set]
    exact h.length
  · intro j hj
    exact List.getElem?_set_ne (h.free_slot_ne hflat hroom hj).symm

/-- Moving the tail over a flat stretch appends the items that already stand there. -/
theorem Represents.advance (h : Represents n rb q) {items : List ITEM}
    (hflat : rb.tailPtr + items.length ≤ n) (hroom : q.length + items.length < n)
    (hcells : ∀ i, i < items.length → rb.elements[rb.tailPtr + i]? = items[i]?) :
    Represents n { rb with tailPtr := rb.wrap (rb.tailPtr + items.length) } (q ++ items) := by
  have htail := h.tailPtr_lt
  refine ⟨h.numElements, h.length, h.headPtr_lt, ?_, ?_, h.holds.append ?_⟩
  · rw [List.length_append]
    exact hroom
  · show rb.wrap (rb.tailPtr + items.length) = _
    rw [h.wrap_add htail hflat, List.length_append, ← slot_slot, ← h.tailPtr]
  · intro i hi
    rw [← h.tailPtr, slot_eq htail (by omega), if_pos (by omega)]
    exact hcells i hi

theorem Represents.overwrite_free (h : Represents n rb q) (items : List ITEM)
    (hflat : rb.tailPtr + items.length ≤ n) (hroom : q.length + items.length < n) :
    Represents n { rb with elements := overwrite rb.elements rb.tailPtr items } q := by
  have hlen := h.length
  refine ⟨h.numElements, ?_, h.headPtr_lt, h.fits, h.tailPtr, h.holds.congr ?_⟩
  · show (overwrite rb.elements rb.tailPtr items).length = n
    rw [length_overwrite _ _ _ (by omega), h.length]
  · intro j hj
    show (overwrite rb.elements rb.tailPtr items)[slot n rb.headPtr j]? = _
    rw [getElem?_overwrite _ _ _ _ (by omega)]
    split_ifs with hbefore hin
    · rfl
    · have hapart := h.free_slot_ne (i := slot n rb.headPtr j - rb.tailPtr) (by omega) (by omega) hj
      omega
    · rfl

/-- Storing items in the flat stretch after the tail and moving the tail behind
them appends them to the queue. -/
theorem Represents.append (h : Represents n rb q) (items : List ITEM)
    (hflat : rb.tailPtr + items.length ≤ n) (hroom : q.length + items.length < n) :
    Represents n
      { rb with
        elements := overwrite rb.elements rb.tailPtr items
        tailPtr := rb.wrap (rb.tailPtr + items.length) }
      (q ++ items) := by
  have hlen := h.length
  refine (h.overwrite_free items hflat hroom).advance hflat hroom ?_
  intro i hi
  show (overwrite rb.elements rb.tailPtr items)[rb.tailPtr + i]? = _
  rw [getElem?_overwrite _ _ _ _ (by omega), if_neg (by omega), if_pos (by omega),
    Nat.add_sub_cancel_left]

/-- Moving the head on over a flat stretch drops the front of the queue. -/
theorem Represents.drop (h : Represents n rb q) {k : Nat} (hflat : rb.headPtr + k ≤ n)
    (hk : k ≤ q.length) :
    Represents n { rb with headPtr := rb.wrap (rb.headPtr + k) } (q.drop k) := by
  have hwrap := h.wrap_add h.headPtr_lt hflat
  have hfits := h.fits
  refine ⟨h.numElements, h.length, ?_, ?_, ?_, ?_⟩
  · show rb.wrap (rb.headPtr + k) < n
    rw [hwrap]
    exact slot_lt h.pos _ _
  · rw [List.length_drop]
    omega
  · show rb.tailPtr = slot n (rb.wrap (rb.headPtr + k)) (q.drop k).length
    rw [hwrap, slot_slot, List.length_drop, Nat.add_sub_cancel' hk, h.tailPtr]
  · show Holds n (fun i => rb.elements[i]?) (rb.wrap (rb.headPtr + k)) (q.drop k)
    rw [hwrap]
    exact h.holds.drop k

/-- The flat stretch at the head shows the front of the queue. -/
theorem Represents.flat_front (h : Represents n rb q) {k : Nat} (hflat : rb.headPtr + k ≤ n)
    (hk : k ≤ q.length) : (rb.elements.drop rb.headPtr).take k = q.take k := by
  apply List.ext_getElem?
  intro i
  rcases Nat.lt_or_ge i k with hi | hi
  · have hcell := h.holds i (by omega)
    rw [slot_eq h.headPtr_lt (by omega), if_pos (by omega)] at hcell
    rw [List.getElem?_take_of_lt hi, List.getElem?_take_of_lt hi, List.getElem?_drop]
    exact hcell
  · have hlen := h.length
    rw [List.getElem?_eq_none (by rw [List.length_take, List.length_drop]; omega),
      List.getElem?_eq_none (by rw [List.length_take]; omega)]

theorem Represents.peekNextAddItems (h : Represents n rb q) :
    rb.peekNextAddItems.2.toNat = min (n - 1 - q.length) (n - rb.tailPtr) ∧
      rb.peekNextAddItems.1 = if q.length = n - 1 then none else some rb.tailPtr := by
  have hsize := h.lt_size
  have hfits := h.fits
  have hflat : (UInt32.ofNat (rb.endOfMemPtr - rb.tailPtr)).toNat = n - rb.tailPtr := by
    rw [Buffer.endOfMemPtr, h.numElements]
    exact toNat_ofNat (by omega)
  have havail : (rb.getMaxItems - rb.getNumItems).toNat = n - 1 - q.length := by
    rw [UInt32.toNat_sub, h.getMaxItems, h.getNumItems]
    omega
  by_cases hfull : q.length = n - 1
  · rw [Buffer.peekNextAddItems, h.isFull, decide_eq_true hfull, if_pos rfl, if_pos hfull]
    refine ⟨?_, rfl⟩
    show 0 = min (n - 1 - q.length) (n - rb.tailPtr)
    omega
  · rw [Buffer.peekNextAddItems, h.isFull, decide_eq_false hfull, if_neg (by decide),
      if_neg hfull]
    refine ⟨?_, rfl⟩
    simp only [UInt32.lt_iff_toNat_lt, hflat, havail]
    split_ifs <;> omega

theorem Represents.peekNextRemoveItems (h : Represents n rb q) (dst : UInt32) :
    rb.peekNextRemoveItems dst =
      if q.length = 0 then (none, dst)
      else (some rb.headPtr, UInt32.ofNat (min q.length (n - rb.headPtr))) := by
  have hsize := h.lt_size
  have hflat : (UInt32.ofNat (rb.endOfMemPtr - rb.headPtr)).toNat = n - rb.headPtr := by
    rw [Buffer.endOfMemPtr, h.numElements]
    exact toNat_ofNat (by omega)
  rw [Buffer.peekNextRemoveItems, h.isEmpty]
  by_cases hempty : q.length = 0
  · rw [decide_eq_true hempty, if_pos rfl, if_pos hempty]
  · rw [decide_eq_false hempty, if_neg (by decide), if_neg hempty]
    refine Prod.ext rfl (UInt32.toNat_inj.mp ?_)
    simp only [UInt32.lt_iff_toNat_lt, hflat, h.getNumItems]
    rw [toNat_ofNat (by have := h.fits; omega)]
    split_ifs
    · rw [h.getNumItems]
      omega
    · rw [hflat]
      omega

theorem Represents.add (h : Represents n rb q) (item : ITEM) :
    (rb.add item).1 = decide (q.length < n - 1) ∧
      Represents n (rb.add item).2 (if q.length < n - 1 then q ++ [item] else q) := by
  have hfits := h.fits
  have htail := h.tailPtr_lt
  rw [Buffer.add, h.isFull]
  by_cases hfull : q.length = n - 1
  · rw [decide_eq_true hfull, if_pos rfl, if_neg (by omega)]
    exact ⟨(decide_eq_false (by omega)).symm, h⟩
  · rw [decide_eq_false hfull, if_neg (by decide), if_pos (by omega)]
    refine ⟨(decide_eq_true (by omega)).symm, ?_⟩
    have hset : rb.elements.set rb.tailPtr item = overwrite rb.elements rb.tailPtr [item] := by
      rw [List.set_eq_take_append_cons_drop, if_pos (by rw [h.length]; exact htail)]
      rfl
    have happend := h.append [item] (by rw [List.length_singleton]; exact htail)
      (by rw [List.length_singleton]; omega)
    rw [← hset] at happend
    exact happend

theorem Represents.remove (h : Represents n rb q) :
    rb.remove.1 = q.head? ∧ Represents n rb.remove.2 q.tail := by
  rw [Buffer.remove, h.isEmpty]
  by_cases hempty : q.length = 0
  · rw [decide_eq_true hempty, if_pos rfl]
    have hnil : q = [] := List.eq_nil_of_length_eq_zero hempty
    subst hnil
    exact ⟨rfl, h⟩
  · rw [decide_eq_false hempty, if_neg (by decide)]
    have hfirst := h.holds 0 (by omega)
    rw [slot, Nat.add_zero, Nat.mod_eq_of_lt h.headPtr_lt] at hfirst
    have hdrop := h.drop (k := 1) h.headPtr_lt (by omega)
    rw [List.drop_one] at hdrop
    exact ⟨hfirst.trans List.head?_eq_getElem?.symm, hdrop⟩

theorem Represents.clear (h : Represents n rb q) : Represents n rb.clearTheBuffer [] :=
  { numElements := h.numElements
    length := h.length
    headPtr_lt := h.pos
    fits := h.pos
    tailPtr := (Nat.mod_eq_of_lt h.pos).symm
    holds := holds_nil _ _ _ }

theorem Represents.peekHead (h : Represents n rb q) :
    rb.peekHead.bind (fun p => rb.elements[p]?) = q.head? := by
  have hremove := h.remove.1
  rw [Buffer.remove] at hremove
  rw [Buffer.peekHead]
  split_ifs at hremove ⊢
  · exact hremove
  · exact hremove

theorem Represents.peekTail (h : Represents n rb q) :
    rb.peekTail.bind (fun p => rb.elements[p]?) = q.getLast? := by
  rw [Buffer.peekTail, h.isEmpty]
  by_cases hempty : q.length = 0
  · rw [decide_eq_true hempty, if_pos rfl, List.eq_nil_of_length_eq_zero hempty]
    rfl
  · rw [decide_eq_false hempty, if_neg (by decide), Buffer.endOfMemPtr, h.numElements]
    have hhead := h.headPtr_lt
    have hfits := h.fits
    have heq := h.tailPtr_eq
    have hlast := h.holds (q.length - 1) (by omega)
    rw [slot_eq hhead (by omega)] at hlast
    rw [List.getLast?_eq_getElem?, ← hlast]
    by_cases hzero : rb.tailPtr = 0
    · rw [if_pos hzero]
      show rb.elements[n - 1]? = rb.elements[_]?
      congr 1
      split_ifs at heq ⊢ <;> omega
    · rw [if_neg hzero]
      show rb.elements[rb.tailPtr - 1]? = rb.elements[_]?
      congr 1
      split_ifs at heq ⊢ <;> omega

theorem Represents.addFlat (h : Represents n rb q) (items : List ITEM) :
    Returns n rb q (.addFlat items) := by
  obtain ⟨hlength, hptr⟩ := h.peekNextAddItems
  have hfits := h.fits
  have htail := h.tailPtr_lt
  constructor
  · intro i hi
    rw [hlength] at hi
    refine ⟨by omega, ?_⟩
    rw [hptr, if_neg (by omega), ← slot_slot, ← h.tailPtr, slot_eq htail (by omega),
      if_pos (by omega)]
    rfl
  · intro hzero
    rw [hzero] at hlength
    have hmin : min (n - 1 - q.length) (n - rb.tailPtr) = 0 := hlength.symm
    omega

theorem Represents.removeFlat_iff (h : Represents n rb q) (dst count : UInt32) :
    Returns n rb q (.removeFlat dst count) ↔ LengthPreset rb (.removeFlat dst count) := by
  have hsize := h.lt_size
  have hhead := h.headPtr_lt
  have hfits := h.fits
  rw [Returns, LengthPreset, h.peekNextRemoveItems, h.isEmpty, decide_eq_true_eq]
  by_cases hempty : q.length = 0
  · rw [if_pos hempty]
    constructor
    · rintro ⟨hslots, -⟩ -
      by_contra hdst
      have hpos : 0 < dst.toNat := Nat.pos_of_ne_zero fun hz => hdst (UInt32.toNat_inj.mp hz)
      exact absurd (hslots 0 hpos).1 (by omega)
    · intro hdst
      rw [hdst hempty]
      exact ⟨fun i hi => absurd hi (Nat.not_lt_zero i), fun _ => hempty⟩
  · rw [if_neg hempty]
    refine ⟨fun _ hzero => absurd hzero hempty, fun _ => ⟨?_, ?_⟩⟩
    · intro i hi
      rw [toNat_ofNat (by omega)] at hi
      refine ⟨by omega, ?_⟩
      rw [slot_eq hhead (by omega), if_pos (by omega)]
      rfl
    · intro hzero
      have hmin : min q.length (n - rb.headPtr) = 0 := by
        have := congrArg UInt32.toNat hzero
        rwa [toNat_ofNat (by omega)] at this
      omega

/-- A call returns what the queue gives exactly if no flat removal meets an empty
buffer with its length variable set. -/
theorem Represents.returns_iff (h : Represents n rb q) (call : Call ITEM) :
    Returns n rb q call ↔ LengthPreset rb call := by
  cases call with
  | add item => exact iff_of_true (h.add item).1 trivial
  | remove => exact iff_of_true h.remove.1 trivial
  | peekHead => exact iff_of_true h.peekHead trivial
  | peekTail => exact iff_of_true h.peekTail trivial
  | clear => exact iff_of_true trivial trivial
  | addFlat items => exact iff_of_true (h.addFlat items) trivial
  | removeFlat dst count => exact h.removeFlat_iff dst count

theorem Represents.step (h : Represents n rb q) (call : Call ITEM) (hcount : CountFits rb call)
    (hpreset : LengthPreset rb call) :
    Represents n (step rb call) (fifoStep (n - 1) q call) := by
  have hsize := h.lt_size
  have hfits := h.fits
  have htail := h.tailPtr_lt
  cases call with
  | add item => exact (h.add item).2
  | remove => exact h.remove.2
  | peekHead => exact h
  | peekTail => exact h
  | clear => exact h.clear
  | addFlat items =>
      obtain ⟨hlength, hptr⟩ := h.peekNextAddItems
      rw [CountFits, hlength] at hcount
      have happend := h.append items (by omega) (by omega)
      rw [← toNat_ofNat (k := items.length) (by omega)] at happend
      rw [RingBuffer.step, fifoStep, hptr]
      by_cases hfull : q.length = n - 1
      · rw [if_pos hfull]
        have hnil : items = [] := List.eq_nil_of_length_eq_zero (by omega)
        subst hnil
        simpa [store, Buffer.addElements] using happend
      · rw [if_neg hfull]
        exact happend
  | removeFlat dst count =>
      rw [CountFits, h.peekNextRemoveItems, UInt32.le_iff_toNat_le] at hcount
      rw [LengthPreset, h.isEmpty, decide_eq_true_eq] at hpreset
      have hk : count.toNat ≤ min q.length (n - rb.headPtr) := by
        split_ifs at hcount with hempty
        · rw [hpreset hempty] at hcount
          exact Nat.le_trans hcount (Nat.zero_le _)
        · rwa [toNat_ofNat (by omega)] at hcount
      exact h.drop (by have := h.headPtr_lt; omega) (by omega)

end Represents

theorem represents_init {maxElements : UInt32} (hpos : 0 < maxElements) {memory : List ITEM}
    (hlen : memory.length = maxElements.toNat) :
    Represents maxElements.toNat (Buffer.init maxElements memory) [] := by
  have hn : 0 < maxElements.toNat := UInt32.lt_iff_toNat_lt.mp hpos
  exact
    { numElements := rfl
      length := hlen
      headPtr_lt := hn
      fits := hn
      tailPtr := (Nat.mod_eq_of_lt hn).symm
      holds := holds_nil _ _ _ }

theorem behavesAs_iff {n : Nat} (calls : List (Call ITEM)) {rb : Buffer ITEM} {q : List ITEM}
    (h : Represents n rb q) (hcounts : CountsFit rb calls) :
    BehavesAs n rb q calls ↔ LengthsPreset rb calls := by
  induction calls generalizing rb q with
  | nil => exact iff_of_true h.shows trivial
  | cons call calls ih =>
      rw [BehavesAs, LengthsPreset, h.returns_iff]
      constructor
      · rintro ⟨-, hpreset, hrest⟩
        exact ⟨hpreset, (ih (h.step call hcounts.1 hpreset) hcounts.2).mp hrest⟩
      · rintro ⟨hpreset, hrest⟩
        exact ⟨h.shows, hpreset, (ih (h.step call hcounts.1 hpreset) hcounts.2).mpr hrest⟩

/-- From its construction on, a ring buffer is a queue of capacity one less than
its memory, exactly if `peekNextRemoveItems()` is never asked for the length of an
empty buffer with a variable that holds another number than zero. -/
theorem fifo_iff_lengthsPreset (maxElements : UInt32) (hpos : 0 < maxElements)
    (memory : List ITEM) (hlen : memory.length = maxElements.toNat) (calls : List (Call ITEM))
    (hcounts : CountsFit (Buffer.init maxElements memory) calls) :
    BehavesAs maxElements.toNat (Buffer.init maxElements memory) [] calls ↔
      LengthsPreset (Buffer.init maxElements memory) calls :=
  behavesAs_iff calls (represents_init hpos hlen) hcounts

/-- Filling and draining a buffer of four slots over its end. -/
theorem fifo_iff_lengthsPreset_four_slots :
    let calls : List (Call Nat) :=
      [.add 1, .add 2, .remove, .remove, .addFlat [3, 4], .add 5, .removeFlat 9 2, .removeFlat 0 0,
        .remove, .removeFlat 0 0]
    CountsFit (Buffer.init 4 [0, 0, 0, 0]) calls ∧
      BehavesAs 4 (Buffer.init 4 [0, 0, 0, 0]) [] calls := by
  have hcounts : CountsFit (Buffer.init 4 [0, 0, 0, 0])
      [.add 1, .add 2, .remove, .remove, .addFlat [3, 4], .add 5, .removeFlat 9 2, .removeFlat 0 0,
        .remove, .removeFlat 0 0] := by
    simp only [CountsFit, CountFits]
    decide
  refine ⟨hcounts, (fifo_iff_lengthsPreset 4 (by decide) _ rfl _ hcounts).mpr ?_⟩
  simp only [LengthsPreset, LengthPreset]
  decide

/-- An empty buffer of four slots, asked with a variable that holds three: two
items that were never added seem to be in it afterwards. -/
theorem not_fifo_empty_flat_removal :
    ¬ ∀ (maxElements : UInt32) (_ : 0 < maxElements) (memory : List Nat)
      (_ : memory.length = maxElements.toNat) (calls : List (Call Nat)),
      CountsFit (Buffer.init maxElements memory) calls →
        BehavesAs maxElements.toNat (Buffer.init maxElements memory) [] calls := by
  intro h
  have hbehaves := h 4 (by decide) [0, 0, 0, 0] rfl [.removeFlat 3 2]
    ⟨show (2 : UInt32) ≤ 3 by decide, trivial⟩
  have hitems := hbehaves.2.2.numItems
  exact absurd hitems (by decide)

end ColonyPico.Container.RingBuffer
