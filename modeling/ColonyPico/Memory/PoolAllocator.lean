import ColonyPico.Container.ListRefinement
import ColonyPico.Foundations.Runs
import Mathlib.Data.List.Range

/-!
The allocator with blocks of a fixed size (`Cpl::Memory::Pool_`, `Cpl::Memory::SPool`).
-/

namespace ColonyPico.Memory.PoolAllocator

open ColonyPico.Container.LinkedLists
open ColonyPico.Container.ListRefinement
open ColonyPico.Foundations.IntrusiveLists
open ColonyPico.Foundations.Runs

inductive PoolList where
  | freeList
  | allocatedList
  deriving DecidableEq

/-- A block info is its index in the array, and pointers are addresses, 0 for a null pointer. -/
structure Pool where
  lists : Heap PoolList Nat
  blockPtr : Nat → Nat
  blockSize : Nat
  alignedBlockSize : Nat
  fatalErrors : Bool
  /-- Calls of `FatalError::logf()`, which return. -/
  fatal : Nat

/-- The loop of the constructor, with the passes that remain; like every function here, it has no
result where a null pointer is dereferenced or a loop is not done within the fuel. -/
def freeLoop : Nat → Nat → Nat → Pool → Option Pool
  | 0, _, _, p => some p
  | remaining + 1, i, blockPtr, p => do
      let (lists, _) ← DList.put p.lists .freeList i
      freeLoop remaining (i + 1) (blockPtr + p.alignedBlockSize)
        { p with lists := lists, blockPtr := Function.update p.blockPtr i blockPtr }

/-- The constructor. -/
def pool (blockSize alignedBlockSize numBlocks arrayOfBlocks : Nat) (fatalErrors : Bool) :
    Option Pool :=
  freeLoop numBlocks 0 arrayOfBlocks
    { lists := Heap.init
      blockPtr := fun _ => 0
      blockSize := blockSize
      alignedBlockSize := alignedBlockSize
      fatalErrors := fatalErrors
      fatal := if arrayOfBlocks = 0 then 1 else 0 }

def Pool.fail (p : Pool) : Pool :=
  if p.fatalErrors then { p with fatal := p.fatal + 1 } else p

def allocate (p : Pool) (numbytes : Nat) : Option (Pool × Nat) :=
  if numbytes > p.blockSize then some (p.fail, 0)
  else
    match DList.get p.lists .freeList with
    | (lists, some infoPtr) => do
        let (lists, _) ← DList.put lists .allocatedList infoPtr
        pure ({ p with lists := lists }, p.blockPtr infoPtr)
    | (lists, none) => some (Pool.fail { p with lists := lists }, 0)

/-- The loop of `release()`, from an item of the list of the allocated blocks on. -/
def releaseLoop (p : Pool) (ptr : Nat) : Nat → Option Nat → Option Pool
  | 0, _ => none
  | _ + 1, none => some { p with fatal := p.fatal + 1 }
  | fuel + 1, some infoPtr =>
      if p.blockPtr infoPtr = ptr then do
        let (lists, _) ←
          DList.put (DList.remove p.lists .allocatedList infoPtr).1 .freeList infoPtr
        pure { p with lists := lists }
      else releaseLoop p ptr fuel (next p.lists infoPtr)

def release (fuel : Nat) (p : Pool) (ptr : Nat) : Option Pool :=
  if ptr = 0 then some p else releaseLoop p ptr fuel (first p.lists .allocatedList)

/-! Runs -/

inductive Action where
  | allocate (numbytes : Nat)
  | release (ptr : Nat)

/-- The pool, and the blocks that were handed out and not released since. -/
structure State where
  pool : Pool
  outstanding : List Nat

def step (fuel : Nat) (s : State) : Action → Option State
  | .allocate numbytes => do
      let (p, ptr) ← allocate s.pool numbytes
      pure ⟨p, if ptr = 0 then s.outstanding else s.outstanding ++ [ptr]⟩
  | .release ptr => do
      let p ← release fuel s.pool ptr
      pure ⟨p, s.outstanding.erase ptr⟩

/-- The memory that a pool is made for. -/
structure Layout where
  blockSize : Nat
  alignedBlockSize : Nat
  numBlocks : Nat
  arrayOfBlocks : Nat
  nonnull : 0 < arrayOfBlocks
  nonempty : 0 < alignedBlockSize
  fits : blockSize ≤ alignedBlockSize

/-- The size of an `AlignedClass`. -/
def alignedClass (sizeofSizeT sizeofT : Nat) : Nat :=
  (sizeofT + (sizeofSizeT - 1)) / sizeofSizeT * sizeofSizeT

theorem le_alignedClass {sizeofSizeT : Nat} (h : 0 < sizeofSizeT) (sizeofT : Nat) :
    sizeofT ≤ alignedClass sizeofSizeT sizeofT := by
  have hdiv := Nat.div_add_mod' (sizeofT + (sizeofSizeT - 1)) sizeofSizeT
  have hmod := Nat.mod_lt (sizeofT + (sizeofSizeT - 1)) h
  rw [alignedClass]
  omega

/-- The blocks of an `SPool` for a type. -/
def sPool (sizeofSizeT sizeofT n blocks : Nat) (hword : 0 < sizeofSizeT) (htype : 0 < sizeofT)
    (hblocks : 0 < blocks) : Layout where
  blockSize := sizeofT
  alignedBlockSize := alignedClass sizeofSizeT sizeofT
  numBlocks := n
  arrayOfBlocks := blocks
  nonnull := hblocks
  nonempty := htype.trans_le (le_alignedClass hword sizeofT)
  fits := le_alignedClass hword sizeofT

namespace Layout

/-- Where a block starts. -/
def block (a : Layout) (i : Nat) : Nat :=
  a.arrayOfBlocks + i * a.alignedBlockSize

/-- The two lists hold every block once, the outstanding ones on the one list. -/
structure Partitioned (a : Layout) (s : State) (l : Lists PoolList Nat) : Prop where
  refines : Refines (fun _ => True) s.pool.lists l
  noError : l.error = false
  blocks : (l.items .freeList ++ l.items .allocatedList).Perm (List.range a.numBlocks)
  outstanding : s.outstanding = (l.items .allocatedList).map a.block

/-- The outstanding blocks are ranges of the memory that do not meet. -/
structure Apart (a : Layout) (outstanding : List Nat) : Prop where
  disjoint : outstanding.Pairwise fun p q => p + a.blockSize ≤ q ∨ q + a.blockSize ≤ p
  inside : ∀ p ∈ outstanding, a.arrayOfBlocks ≤ p ∧
    p + a.blockSize ≤ a.arrayOfBlocks + a.numBlocks * a.alignedBlockSize

/-- What is promised of a call. -/
def HandsOutBlocks (a : Layout) (fuel : Nat) (s : State) : Action → Prop
  | .allocate numbytes =>
      ∃ p ptr, allocate s.pool numbytes = some (p, ptr) ∧
        (ptr = 0 ↔ a.blockSize < numbytes ∨ s.outstanding.length = a.numBlocks) ∧
        ptr ∉ s.outstanding
  | .release ptr =>
      ∃ p, release fuel s.pool ptr = some p ∧
        (ptr = 0 ∨ ptr ∉ s.outstanding → p.lists = s.pool.lists)

end Layout

/-! The lists -/

section Lists

variable {h : Heap PoolList Nat} {l : Lists PoolList Nat} {p : Pool} {ptr : Nat}
  {vs ws : List Nat} {x : Nat}

theorem relink {i j : PoolList} (hr : Refines (fun _ => True) h l) (x : Nat) :
    ∃ h' ok, DList.put (DList.remove h i x).1 j x = some (h', ok) ∧
      Refines (fun _ => True) h' ((l.remove i x).put j x) := by
  have hremove := (remove_dlist (i := i) trivial hr x).2
  obtain ⟨h', hput, hrefines⟩ := put_dlist (i := j) trivial hremove x
  exact ⟨h', _, hput, hrefines⟩

theorem allocate_empty (hr : Refines (fun _ => True) p.lists l) (hfree : l.items .freeList = [])
    {numbytes : Nat} (hsize : numbytes ≤ p.blockSize) : allocate p numbytes = some (p.fail, 0) := by
  have hget : DList.get p.lists .freeList = (p.lists, none) := by
    rw [DList.get, headPtr_eq hr, hfree]
    rfl
  rw [allocate, if_neg (Nat.not_lt_of_ge hsize), hget]

theorem allocate_first (hr : Refines (fun _ => True) p.lists l)
    (hfree : l.items .freeList = x :: vs) {numbytes : Nat} (hsize : numbytes ≤ p.blockSize) :
    ∃ lists, allocate p numbytes = some ({ p with lists := lists }, p.blockPtr x) ∧
      Refines (fun _ => True) lists ((l.remove .freeList x).put .allocatedList x) := by
  have hget : DList.get p.lists .freeList = ((DList.remove p.lists .freeList x).1, some x) := by
    rw [DList.get, headPtr_eq hr, hfree]
    rfl
  obtain ⟨lists, ok, hput, hrefines⟩ := relink (i := .freeList) (j := .allocatedList) hr x
  refine ⟨lists, ?_, hrefines⟩
  rw [allocate, if_neg (Nat.not_lt_of_ge hsize), hget]
  show (DList.put _ _ _).bind _ = _
  rw [hput]
  rfl

theorem releaseLoop_absent (hr : Refines (fun _ => True) p.lists l) (us : List Nat)
    (hitems : l.items .allocatedList = us ++ vs) (habsent : ∀ y ∈ vs, p.blockPtr y ≠ ptr)
    {fuel : Nat} (hfuel : vs.length < fuel) :
    releaseLoop p ptr fuel vs.head? = some { p with fatal := p.fatal + 1 } := by
  induction vs generalizing us fuel with
  | nil =>
      obtain ⟨fuel, rfl⟩ := Nat.exists_eq_succ_of_ne_zero (Nat.ne_zero_of_lt hfuel)
      rfl
  | cons y vs ih =>
      obtain ⟨fuel, rfl⟩ := Nat.exists_eq_succ_of_ne_zero (Nat.ne_zero_of_lt hfuel)
      have hnext : next p.lists y = vs.head? := nextPtr_eq hr hitems
      rw [List.head?_cons, releaseLoop, if_neg (habsent y List.mem_cons_self), hnext]
      refine ih (us ++ [y]) ?_ (fun z hz => habsent z (List.mem_cons_of_mem y hz))
        (Nat.lt_of_succ_lt_succ hfuel)
      rw [hitems, List.append_assoc, List.singleton_append]

theorem releaseLoop_found (hr : Refines (fun _ => True) p.lists l) (us : List Nat)
    (hitems : l.items .allocatedList = us ++ (ws ++ x :: vs))
    (hbefore : ∀ y ∈ ws, p.blockPtr y ≠ ptr) (hfound : p.blockPtr x = ptr) {fuel : Nat}
    (hfuel : ws.length < fuel) :
    ∃ lists, releaseLoop p ptr fuel (ws ++ x :: vs).head? = some { p with lists := lists } ∧
      Refines (fun _ => True) lists ((l.remove .allocatedList x).put .freeList x) := by
  induction ws generalizing us fuel with
  | nil =>
      obtain ⟨fuel, rfl⟩ := Nat.exists_eq_succ_of_ne_zero (Nat.ne_zero_of_lt hfuel)
      obtain ⟨lists, ok, hput, hrefines⟩ := relink (i := .allocatedList) (j := .freeList) hr x
      refine ⟨lists, ?_, hrefines⟩
      rw [List.nil_append, List.head?_cons, releaseLoop, if_pos hfound]
      show (DList.put _ _ _).bind _ = _
      rw [hput]
      rfl
  | cons y ws ih =>
      obtain ⟨fuel, rfl⟩ := Nat.exists_eq_succ_of_ne_zero (Nat.ne_zero_of_lt hfuel)
      have hnext : next p.lists y = (ws ++ x :: vs).head? := nextPtr_eq hr hitems
      rw [List.cons_append, List.head?_cons, releaseLoop, if_neg (hbefore y List.mem_cons_self),
        hnext]
      refine ih (us ++ [y]) ?_ (fun z hz => hbefore z (List.mem_cons_of_mem y hz))
        (Nat.lt_of_succ_lt_succ hfuel)
      rw [hitems, List.append_assoc, List.singleton_append, List.cons_append]

end Lists

/-! The blocks -/

namespace Layout

variable (a : Layout) {i j : Nat}

theorem block_pos (i : Nat) : 0 < a.block i :=
  a.nonnull.trans_le (Nat.le_add_right _ _)

theorem block_add_le (h : i < j) : a.block i + a.blockSize ≤ a.block j := by
  have hsucc : (i + 1) * a.alignedBlockSize ≤ j * a.alignedBlockSize := Nat.mul_le_mul_right _ h
  have hfits := a.fits
  rw [Nat.succ_mul] at hsucc
  rw [block, block]
  omega

theorem block_injective : Function.Injective a.block := by
  intro i j heq
  exact Nat.eq_of_mul_eq_mul_right a.nonempty (Nat.add_left_cancel heq)

theorem apart_blocks {xs : List Nat} (hnodup : xs.Nodup) (hlt : ∀ i ∈ xs, i < a.numBlocks) :
    a.Apart (xs.map a.block) := by
  refine ⟨List.pairwise_map.mpr (hnodup.imp fun {i j} hne => ?_), fun p hp => ?_⟩
  · rcases Nat.lt_or_gt_of_ne hne with hij | hji
    · exact .inl (a.block_add_le hij)
    · exact .inr (a.block_add_le hji)
  · obtain ⟨i, hi, rfl⟩ := List.mem_map.mp hp
    exact ⟨Nat.le_add_right _ _, a.block_add_le (hlt i hi)⟩

end Layout

/-! The invariant -/

structure Inv (a : Layout) (s : State) (l : Lists PoolList Nat) : Prop extends
    a.Partitioned s l where
  blockPtr : ∀ i < a.numBlocks, s.pool.blockPtr i = a.block i
  blockSize : s.pool.blockSize = a.blockSize

/-- Pools that differ in no block. -/
structure Pool.Same (p q : Pool) : Prop where
  lists : p.lists = q.lists
  blockPtr : p.blockPtr = q.blockPtr
  blockSize : p.blockSize = q.blockSize

theorem Pool.same_fail (p : Pool) : p.fail.Same p := by
  rw [Pool.fail]
  split
  · exact ⟨rfl, rfl, rfl⟩
  · exact ⟨rfl, rfl, rfl⟩

section Invariant

variable {a : Layout} {s : State} {l : Lists PoolList Nat}

theorem Inv.same (h : Inv a s l) {p : Pool} (hsame : p.Same s.pool) :
    Inv a ⟨p, s.outstanding⟩ l where
  refines := hsame.lists ▸ h.refines
  noError := h.noError
  blocks := h.blocks
  outstanding := h.outstanding
  blockPtr := hsame.blockPtr ▸ h.blockPtr
  blockSize := hsame.blockSize.trans h.blockSize

theorem Inv.lt (h : Inv a s l) {i : Nat} (hi : i ∈ l.items .freeList ++ l.items .allocatedList) :
    i < a.numBlocks :=
  List.mem_range.mp (h.blocks.mem_iff.mp hi)

theorem Inv.nodup (h : Inv a s l) :
    (l.items .freeList ++ l.items .allocatedList).Nodup :=
  h.blocks.nodup_iff.mpr List.nodup_range

theorem Inv.apart (h : Inv a s l) : a.Apart s.outstanding := by
  rw [h.outstanding]
  exact a.apart_blocks h.nodup.of_append_right fun i hi => h.lt (List.mem_append_right _ hi)

theorem Inv.free_eq_nil_iff (h : Inv a s l) :
    l.items .freeList = [] ↔ s.outstanding.length = a.numBlocks := by
  have hlength := h.blocks.length_eq
  rw [List.length_append, List.length_range] at hlength
  rw [h.outstanding, List.length_map, ← List.length_eq_zero_iff]
  omega

theorem Inv.free_notMem (h : Inv a s l) {x : Nat} (hx : x ∈ l.items .freeList) :
    a.block x ∉ s.outstanding := by
  rw [h.outstanding, List.mem_map_of_injective a.block_injective]
  exact fun hmem => (List.disjoint_of_nodup_append h.nodup) hx hmem

theorem Inv.zero_notMem (h : Inv a s l) : 0 ∉ s.outstanding := by
  rw [h.outstanding]
  intro hmem
  obtain ⟨i, -, hzero⟩ := List.mem_map.mp hmem
  exact (a.block_pos i).ne' hzero

/-- A block that moves to the list of the allocated blocks. -/
theorem Inv.handOut (h : Inv a s l) {x : Nat} {vs : List Nat}
    (hfree : l.items .freeList = x :: vs) {lists : Heap PoolList Nat}
    (hrefines : Refines (fun _ => True) lists ((l.remove .freeList x).put .allocatedList x)) :
    Inv a ⟨{ s.pool with lists := lists }, s.outstanding ++ [a.block x]⟩
      ((l.remove .freeList x).put .allocatedList x) := by
  obtain ⟨herror, hitems, hallocated⟩ := Lists.items_remove_put h.refines.wellFormed
    (j := .allocatedList) PoolList.noConfusion hfree List.not_mem_nil
  refine ⟨⟨hrefines, herror.trans h.noError, ?_, ?_⟩, h.blockPtr, h.blockSize⟩
  · have hblocks := h.blocks
    rw [hfree] at hblocks
    rw [hitems, hallocated, List.nil_append, ← List.append_assoc]
    exact (List.perm_append_singleton x _).trans hblocks
  · rw [hallocated, h.outstanding, List.map_append, List.map_singleton]

/-- A block that moves back to the free list. -/
theorem Inv.takeBack (h : Inv a s l) {x : Nat} {us vs : List Nat}
    (hsplit : l.items .allocatedList = us ++ x :: vs) (hx : x ∉ us) {lists : Heap PoolList Nat}
    (hrefines : Refines (fun _ => True) lists ((l.remove .allocatedList x).put .freeList x)) :
    Inv a ⟨{ s.pool with lists := lists }, s.outstanding.erase (a.block x)⟩
      ((l.remove .allocatedList x).put .freeList x) := by
  obtain ⟨herror, hitems, hfree⟩ := Lists.items_remove_put h.refines.wellFormed
    (j := .freeList) PoolList.noConfusion hsplit hx
  refine ⟨⟨hrefines, herror.trans h.noError, ?_, ?_⟩, h.blockPtr, h.blockSize⟩
  · have hblocks := h.blocks
    rw [hsplit] at hblocks
    rw [hitems, hfree, List.append_assoc, List.singleton_append]
    exact (List.Perm.append_left _ List.perm_middle.symm).trans hblocks
  · rw [hitems, h.outstanding, hsplit, ← List.map_erase a.block_injective, erase_middle hx]

/-- A request gets no block, or the first free one. -/
theorem Inv.allocate_cases (h : Inv a s l) (numbytes : Nat) :
    (∃ p, allocate s.pool numbytes = some (p, 0) ∧ p.Same s.pool ∧
        (a.blockSize < numbytes ∨ l.items .freeList = [])) ∨
      ∃ x vs lists, l.items .freeList = x :: vs ∧ numbytes ≤ a.blockSize ∧
        allocate s.pool numbytes = some ({ s.pool with lists := lists }, a.block x) ∧
        Refines (fun _ => True) lists ((l.remove .freeList x).put .allocatedList x) := by
  rcases Nat.lt_or_ge a.blockSize numbytes with hbig | hsize
  · exact .inl ⟨s.pool.fail, if_pos (h.blockSize ▸ hbig), s.pool.same_fail, .inl hbig⟩
  · cases hfree : l.items .freeList with
    | nil =>
        exact .inl ⟨s.pool.fail, allocate_empty h.refines hfree (h.blockSize ▸ hsize),
          s.pool.same_fail, .inr rfl⟩
    | cons x vs =>
        obtain ⟨lists, hallocate, hrefines⟩ :=
          allocate_first h.refines hfree (h.blockSize ▸ hsize)
        rw [h.blockPtr x (h.lt (List.mem_append_left _ (hfree ▸ List.mem_cons_self)))] at hallocate
        exact .inr ⟨x, vs, lists, rfl, hsize, hallocate, hrefines⟩

theorem Inv.blockPtr_allocated (h : Inv a s l) {x : Nat} (hx : x ∈ l.items .allocatedList) :
    s.pool.blockPtr x = a.block x :=
  h.blockPtr x (h.lt (List.mem_append_right _ hx))

theorem Inv.length_allocated (h : Inv a s l) : (l.items .allocatedList).length ≤ a.numBlocks := by
  have hlength := h.blocks.length_eq
  rw [List.length_append, List.length_range] at hlength
  omega

/-- A pointer that is released is an outstanding block, or no list changes. -/
theorem Inv.release_cases (h : Inv a s l) {fuel : Nat} (hfuel : a.numBlocks < fuel) (ptr : Nat) :
    (∃ p, release fuel s.pool ptr = some p ∧ p.Same s.pool ∧ ptr ∉ s.outstanding) ∨
      ∃ us x vs lists, l.items .allocatedList = us ++ x :: vs ∧ x ∉ us ∧ ptr = a.block x ∧
        release fuel s.pool ptr = some { s.pool with lists := lists } ∧
        Refines (fun _ => True) lists ((l.remove .allocatedList x).put .freeList x) := by
  have hlength := h.length_allocated
  have hfirst : first s.pool.lists .allocatedList = (l.items .allocatedList).head? :=
    headPtr_eq h.refines _
  rcases Nat.eq_zero_or_pos ptr with rfl | hptr
  · exact .inl ⟨s.pool, if_pos rfl, ⟨rfl, rfl, rfl⟩, h.zero_notMem⟩
  · rw [release, if_neg hptr.ne', hfirst]
    by_cases hmem : ptr ∈ s.outstanding
    · rw [h.outstanding] at hmem
      obtain ⟨x, hx, rfl⟩ := List.mem_map.mp hmem
      obtain ⟨us, vs, hsplit, hnot⟩ := split_of_mem h.refines hx
      have hbefore : ∀ y ∈ us, s.pool.blockPtr y ≠ a.block x := by
        intro y hy heq
        rw [h.blockPtr_allocated (hsplit ▸ List.mem_append_left _ hy)] at heq
        exact hnot (a.block_injective heq ▸ hy)
      have hbound : us.length < fuel := by
        rw [hsplit, List.length_append] at hlength
        omega
      obtain ⟨lists, hrelease, hrefines⟩ := releaseLoop_found h.refines [] hsplit hbefore
        (h.blockPtr_allocated hx) hbound
      rw [← hsplit] at hrelease
      exact .inr ⟨us, x, vs, lists, hsplit, hnot, rfl, hrelease, hrefines⟩
    · have habsent : ∀ y ∈ l.items .allocatedList, s.pool.blockPtr y ≠ ptr := by
        intro y hy heq
        rw [h.blockPtr_allocated hy] at heq
        exact hmem (h.outstanding ▸ List.mem_map.mpr ⟨y, hy, heq⟩)
      exact .inl ⟨_, releaseLoop_absent h.refines [] rfl habsent
        (hlength.trans_lt hfuel), ⟨rfl, rfl, rfl⟩, hmem⟩

theorem Inv.step (h : Inv a s l) {fuel : Nat} (hfuel : a.numBlocks < fuel) (action : Action) :
    ∃ next, step fuel s action = some next ∧ ∃ l', Inv a next l' := by
  cases action with
  | allocate numbytes =>
      rcases h.allocate_cases numbytes with ⟨p, hallocate, hsame, -⟩ |
          ⟨x, vs, lists, hfree, -, hallocate, hrefines⟩
      · refine ⟨⟨p, s.outstanding⟩, ?_, l, h.same hsame⟩
        rw [PoolAllocator.step, hallocate]
        rfl
      · refine ⟨_, ?_, _, h.handOut hfree hrefines⟩
        rw [PoolAllocator.step, hallocate]
        show some (State.mk _ (if a.block x = 0 then _ else _)) = _
        rw [if_neg (a.block_pos x).ne']
  | release ptr =>
      rcases h.release_cases hfuel ptr with ⟨p, hrelease, hsame, hmem⟩ |
          ⟨us, x, vs, lists, hsplit, hx, rfl, hrelease, hrefines⟩
      · refine ⟨⟨p, s.outstanding⟩, ?_, l, h.same hsame⟩
        rw [PoolAllocator.step, hrelease, List.erase_of_not_mem hmem]
        rfl
      · refine ⟨_, ?_, _, h.takeBack hsplit hx hrefines⟩
        rw [PoolAllocator.step, hrelease]
        rfl

theorem Inv.handsOutBlocks (h : Inv a s l) {fuel : Nat} (hfuel : a.numBlocks < fuel)
    (action : Action) : a.HandsOutBlocks fuel s action := by
  cases action with
  | allocate numbytes =>
      rcases h.allocate_cases numbytes with ⟨p, hallocate, -, hnone⟩ |
          ⟨x, vs, lists, hfree, hsize, hallocate, -⟩
      · rw [h.free_eq_nil_iff] at hnone
        exact ⟨p, 0, hallocate, iff_of_true rfl hnone, h.zero_notMem⟩
      · refine ⟨_, a.block x, hallocate, iff_of_false (a.block_pos x).ne' ?_,
          h.free_notMem (hfree ▸ List.mem_cons_self)⟩
        rw [← h.free_eq_nil_iff, hfree]
        rintro (hbig | hnil)
        · exact Nat.not_lt_of_ge hsize hbig
        · cases hnil
  | release ptr =>
      rcases h.release_cases hfuel ptr with ⟨p, hrelease, hsame, -⟩ |
          ⟨us, x, vs, lists, hsplit, -, rfl, hrelease, -⟩
      · exact ⟨p, hrelease, fun _ => hsame.lists⟩
      · refine ⟨_, hrelease, ?_⟩
        rintro (hzero | hnot)
        · exact absurd hzero (a.block_pos x).ne'
        · rw [h.outstanding, hsplit] at hnot
          exact absurd (List.mem_map_of_mem (List.mem_append_right us List.mem_cons_self)) hnot

end Invariant

/-! The constructor -/

/-- The free list grows by the blocks in their order. -/
theorem freeLoop_eq {a : Layout} {n remaining : Nat} {p : Pool} {l : Lists PoolList Nat}
    (hrefines : Refines (fun _ => True) p.lists l) (herror : l.error = false)
    (hfree : l.items .freeList = List.range n) (hallocated : l.items .allocatedList = [])
    (hblockPtr : ∀ i < n, p.blockPtr i = a.block i) (hblockSize : p.blockSize = a.blockSize)
    (haligned : p.alignedBlockSize = a.alignedBlockSize) (hcount : n + remaining = a.numBlocks) :
    ∃ last l', freeLoop remaining n (a.block n) p = some last ∧ Inv a ⟨last, []⟩ l' := by
  induction remaining generalizing n p l with
  | zero =>
      obtain rfl : n = a.numBlocks := hcount
      refine ⟨p, l, rfl, ⟨hrefines, herror, ?_, ?_⟩, hblockPtr, hblockSize⟩
      · rw [hfree, hallocated, List.append_nil]
      · rw [hallocated]
        rfl
  | succ remaining ih =>
      have howner : l.owner n = none := by
        rw [Option.eq_none_iff_forall_ne_some]
        intro list hlist
        have hmem := (hrefines.wellFormed.mem_iff list n).mpr hlist
        cases list with
        | freeList =>
            rw [hfree] at hmem
            exact Nat.lt_irrefl n (List.mem_range.mp hmem)
        | allocatedList =>
            rw [hallocated] at hmem
            exact List.not_mem_nil hmem
      obtain ⟨lists, hput, hrefines'⟩ := put_dlist (i := .freeList) trivial hrefines n
      have hnext : a.block n + p.alignedBlockSize = a.block (n + 1) := by
        rw [haligned, Layout.block, Layout.block, Nat.succ_mul, Nat.add_assoc]
      rw [freeLoop, hput]
      show ∃ last l', freeLoop remaining (n + 1) (a.block n + p.alignedBlockSize) _ = _ ∧ _
      rw [hnext]
      refine ih hrefines' ?_ ?_ ?_ ?_ hblockSize haligned (by omega)
      · simp only [Lists.put, howner, herror]
      · simp only [Lists.put, howner, Function.update_self, hfree, List.range_succ]
      · simp only [Lists.put, howner]
        rw [Function.update_of_ne PoolList.noConfusion, hallocated]
      · intro i hi
        rcases Nat.lt_succ_iff_lt_or_eq.mp hi with hlt | rfl
        · show Function.update p.blockPtr n (a.block n) i = _
          rw [Function.update_of_ne hlt.ne, hblockPtr i hlt]
        · exact Function.update_self ..

theorem pool_eq (a : Layout) (fatalErrors : Bool) :
    ∃ p l, pool a.blockSize a.alignedBlockSize a.numBlocks a.arrayOfBlocks fatalErrors = some p ∧
      Inv a ⟨p, []⟩ l := by
  have hinit : Refines (fun _ => True) (Heap.init : Heap PoolList Nat) Lists.empty :=
    ⟨Lists.wellFormed_empty, rfl, rfl, fun _ => ⟨rfl, rfl, fun _ => rfl⟩⟩
  have hstart : a.block 0 = a.arrayOfBlocks := by rw [Layout.block, Nat.zero_mul, Nat.add_zero]
  rw [pool, ← hstart]
  exact freeLoop_eq hinit rfl rfl rfl (fun i hi => absurd hi (Nat.not_lt_zero i)) rfl rfl
    (Nat.zero_add _)

/-- Over all runs the lists partition the blocks, the outstanding blocks lie apart, and every call
does what is promised. -/
theorem pool_partitioned (a : Layout) (fatalErrors : Bool) (fuel : Nat)
    (hfuel : a.numBlocks < fuel) :
    ∃ p, pool a.blockSize a.alignedBlockSize a.numBlocks a.arrayOfBlocks fatalErrors = some p ∧
      ∀ actions, AllSteps (step fuel) (a.HandsOutBlocks fuel) ⟨p, []⟩ actions ∧
        ∃ s l, run (step fuel) ⟨p, []⟩ actions = some s ∧ a.Partitioned s l ∧
          a.Apart s.outstanding := by
  obtain ⟨p, l, hpool, hinv⟩ := pool_eq a fatalErrors
  refine ⟨p, hpool, fun actions => ⟨?_, ?_⟩⟩
  · refine allSteps_of_invariant (I := fun s => ∃ l, Inv a s l) (P := fun _ _ => True) ?_ ?_
      ⟨l, hinv⟩ (allSteps_of_forall (fun _ _ => trivial) _ _)
    · rintro s action next ⟨l, h⟩ - hnext
      obtain ⟨next', hnext', h'⟩ := h.step hfuel action
      obtain rfl := Option.some.inj (hnext'.symm.trans hnext)
      exact h'
    · rintro s action ⟨l, h⟩ -
      exact h.handsOutBlocks hfuel action
  · obtain ⟨s, hrun, l', h⟩ := total (I := fun s => ∃ l, Inv a s l)
      (fun s action ⟨_, h⟩ => h.step hfuel action) ⟨l, hinv⟩ actions
    exact ⟨s, l', hrun, h.toPartitioned, h.apart⟩

/-- Two blocks of six bytes for an `SPool` where a `size_t` has four. -/
theorem pool_partitioned_two :
    ∃ p, pool 6 8 2 4096 true = some p ∧
      ∀ actions, AllSteps (step 3)
          ((sPool 4 6 2 4096 (by decide) (by decide) (by decide)).HandsOutBlocks 3) ⟨p, []⟩
          actions ∧
        ∃ s l, run (step 3) ⟨p, []⟩ actions = some s ∧
          (sPool 4 6 2 4096 (by decide) (by decide) (by decide)).Partitioned s l ∧
          (sPool 4 6 2 4096 (by decide) (by decide) (by decide)).Apart s.outstanding :=
  pool_partitioned (sPool 4 6 2 4096 (by decide) (by decide) (by decide)) true 3 (by decide)

end ColonyPico.Memory.PoolAllocator
