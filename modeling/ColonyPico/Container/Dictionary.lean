import Mathlib.Data.List.Perm.Subperm
import Mathlib.Order.Nat
import ColonyPico.Container.ListRefinement

/-!
A hash table whose buckets are doubly linked lists (`Cpl::Container::HashTable_` and
`Cpl::Container::Dictionary`).
-/

namespace ColonyPico.Container.Dictionary

open ColonyPico.Foundations.IntrusiveLists
open ColonyPico.Foundations.LinkedSegments
open ColonyPico.Container.LinkedLists
open ColonyPico.Container.ListRefinement

/-- The keys of a dictionary. Keys that compare equal have the same bytes. -/
structure Keys (κ : Type) where
  getRawKey : κ → List UInt8
  compareKey : κ → κ → Int
  getRawKey_eq : ∀ a b, compareKey a b = 0 → getRawKey a = getRawKey b

/-- `HashFunction`: an index from 0 to `maxBuckets-1`. -/
structure HashFunction where
  hashKey : List UInt8 → Nat → Nat
  hashKey_lt : ∀ key maxBuckets, 0 < maxBuckets → hashKey key maxBuckets < maxBuckets

/-- One pass of the loop of `HashTable_::hashKey()`. -/
def hashStep (key : UInt32) (byte : UInt8) : UInt32 :=
  let key := (key <<< 4) + byte.toUInt32
  let g := key &&& 0xF0000000
  if g ≠ 0 then (key ^^^ (g >>> 24)) &&& 0x0FFFFFFF else key

/-- `HashTable_::hashKey()`, the default. -/
def hashKey (key : List UInt8) (maxBuckets : Nat) : Nat :=
  (key.foldl hashStep 0).toNat % maxBuckets

def defaultHash : HashFunction :=
  ⟨hashKey, fun _ _ hpos => Nat.mod_lt _ hpos⟩

/-- What a dictionary is made of; `getKey` is that of the items. -/
structure Config (κ α : Type) where
  keys : Keys κ
  hashFunc : HashFunction
  numBuckets : Nat
  numBuckets_pos : 0 < numBuckets
  getKey : α → κ

/-- What an item's in-list pointer can point to. -/
inductive Owner where
  | bucket (index : Nat)
  | dictionary
  deriving DecidableEq, Repr

structure HashTable (α : Type) where
  heap : Heap Owner α
  /-- `m_hashCode_` of the items. -/
  hashCode : α → Nat
  numItems : Nat

variable {κ α : Type} [DecidableEq α]

/-- The bucket of a key. -/
def Config.index (c : Config κ α) (key : κ) : Nat :=
  c.hashFunc.hashKey (c.keys.getRawKey key) c.numBuckets

def Config.sameKey (c : Config κ α) (key : κ) (item : α) : Bool :=
  c.keys.compareKey (c.getKey item) key = 0

/-- `HashTable_::insert()`. -/
def insert (c : Config κ α) (t : HashTable α) (node : α) : Option (HashTable α) := do
  let index := c.index (c.getKey node)
  let (heap, _) ← DList.put t.heap (.bucket index) node
  pure
    { heap := heap
      hashCode := Function.update t.hashCode node index
      numItems := t.numItems + 1 }

/-- The loop of `HashTable_::find()`. -/
def findLoop (c : Config κ α) (t : HashTable α) (keyToFind : κ) :
    Nat → Option α → Option (Option α)
  | 0, _ => none
  | _ + 1, none => some none
  | fuel + 1, some item =>
      if c.sameKey keyToFind item then some (some item)
      else findLoop c t keyToFind fuel (next t.heap item)

/-- `HashTable_::find()`. -/
def find (c : Config κ α) (fuel : Nat) (t : HashTable α) (keyToFind : κ) :
    Option (Option α) :=
  findLoop c t keyToFind fuel (first t.heap (.bucket (c.index keyToFind)))

/-- `HashTable_::removeItem()`. -/
def removeItem (t : HashTable α) (nodeToDelete : α) : HashTable α × Option α :=
  match DList.remove t.heap (.bucket (t.hashCode nodeToDelete)) nodeToDelete with
  | (heap, true) => ({ t with heap := heap, numItems := t.numItems - 1 }, some nodeToDelete)
  | (heap, false) => ({ t with heap := heap }, none)

/-- The first item of `count` buckets from one on. -/
def firstFrom (heap : Heap Owner α) : Nat → Nat → Option α
  | 0, _ => none
  | count + 1, index =>
      match heap.headPtr (.bucket index) with
      | some item => some item
      | none => firstFrom heap count (index + 1)

/-- `HashTable_::first()`. -/
def firstItem (c : Config κ α) (t : HashTable α) : Option α :=
  if t.numItems ≠ 0 then firstFrom t.heap c.numBuckets 0 else none

/-- `HashTable_::next()`. -/
def nextItem (c : Config κ α) (t : HashTable α) (current : α) : Option α :=
  match next t.heap current with
  | some item => some item
  | none =>
      firstFrom t.heap (c.numBuckets - (t.hashCode current + 1)) (t.hashCode current + 1)

/-- `Dictionary::remove()`. -/
def remove (c : Config κ α) (fuel : Nat) (t : HashTable α) (keyOfObjectToDelete : κ) :
    Option (HashTable α × Option α) := do
  match ← find c fuel t keyOfObjectToDelete with
  | none => pure (t, none)
  | some node => pure (removeItem t node)

/-- `Dictionary::getFirst()`. -/
def getFirst (c : Config κ α) (t : HashTable α) : HashTable α × Option α :=
  match firstItem c t with
  | none => (t, none)
  | some node => removeItem t node

/-- `Dictionary::isInDictionary()`. The items' in-list pointers are set by the buckets. -/
def isInDictionary (t : HashTable α) (node : α) : Bool :=
  isInContainer_ t.heap .dictionary node

inductive Op (κ α : Type) where
  | insert (node : α)
  | remove (key : κ)
  | removeItem (node : α)
  | getFirst
  | find (key : κ)
  deriving DecidableEq, Repr

/-- The table, and the items that were inserted and not removed since. -/
structure State (α : Type) where
  table : HashTable α
  inside : List α

def State.init : State α :=
  { table := { heap := Heap.init, hashCode := fun _ => 0, numItems := 0 }, inside := [] }

/-- Items that an operation returned are out. -/
def State.without (s : State α) : HashTable α × Option α → State α × Option α
  | (t, none) => ({ s with table := t }, none)
  | (t, some node) => (⟨t, s.inside.erase node⟩, some node)

/-- An operation, and the item it returns. -/
def step (c : Config κ α) (fuel : Nat) (s : State α) : Op κ α → Option (State α × Option α)
  | .insert node => (insert c s.table node).map fun t => (⟨t, node :: s.inside⟩, none)
  | .remove key => (remove c fuel s.table key).map s.without
  | .removeItem node => some (s.without (removeItem s.table node))
  | .getFirst => some (s.without (getFirst c s.table))
  | .find key => (find c fuel s.table key).map fun item => (s, item)

/-- An item of the dictionary with the key, or nothing if there is none. -/
def Finds (c : Config κ α) (s : State α) (key : κ) : Option α → Prop
  | none => ∀ item ∈ s.inside, c.sameKey key item = false
  | some item => item ∈ s.inside ∧ c.sameKey key item = true

/-- What an operation has to return. -/
def Answers (c : Config κ α) (s : State α) : Op κ α → Option α → Prop
  | .insert _, returned => returned = none
  | .remove key, returned => Finds c s key returned
  | .removeItem node, returned => returned = if node ∈ s.inside then some node else none
  | .getFirst, none => s.inside = []
  | .getFirst, some item => item ∈ s.inside
  | .find key, returned => Finds c s key returned

/-- The dictionary is the collection of the items inside, but for what
`isInDictionary()` says of them. -/
structure Correct (c : Config κ α) (fuel : Nat) (s : State α) : Prop where
  find : ∀ key, ∃ item, find c fuel s.table key = some item ∧ Finds c s key item
  visits : ∃ xs, Segment (nextItem c s.table) (firstItem c s.table) xs none ∧ xs.Nodup ∧
    ∀ x, x ∈ xs ↔ x ∈ s.inside
  count : s.table.numItems = s.inside.length ∧ s.inside.Nodup
  isInDictionary : ∀ x,
    isInDictionary s.table x = decide (x ∈ s.inside) ↔ x ∉ s.inside

/-- An item is inserted only while it is in no container. -/
def Fresh (s : State α) : Op κ α → Prop
  | .insert node => node ∉ s.inside
  | _ => True

/-- The operations of a run insert only fresh items. -/
def AllFresh (c : Config κ α) (fuel : Nat) : State α → List (Op κ α) → Prop
  | _, [] => True
  | s, op :: ops => Fresh s op ∧ ∀ res ∈ step c fuel s op, AllFresh c fuel res.1 ops

instance (s : State α) (op : Op κ α) : Decidable (Fresh s op) :=
  match op with
  | .insert node => inferInstanceAs (Decidable (node ∉ s.inside))
  | .remove _ | .removeItem _ | .getFirst | .find _ => .isTrue trivial

instance decidableAllFresh (c : Config κ α) (fuel : Nat) :
    (s : State α) → (ops : List (Op κ α)) → Decidable (AllFresh c fuel s ops)
  | _, [] => .isTrue trivial
  | s, op :: ops =>
      have := fun res : State α × Option α => decidableAllFresh c fuel res.1 ops
      inferInstanceAs
        (Decidable (Fresh s op ∧ ∀ res ∈ step c fuel s op, AllFresh c fuel res.1 ops))

/-- In a run every operation ends and returns what it has to, and every state is right. -/
def AllCorrect (c : Config κ α) (fuel : Nat) : State α → List (Op κ α) → Prop
  | s, [] => Correct c fuel s
  | s, op :: ops =>
      Correct c fuel s ∧
        ∃ res, step c fuel s op = some res ∧ Answers c s op res.2 ∧ AllCorrect c fuel res.1 ops

/-- The buckets are doubly linked lists. -/
def Double (_ : Owner) : Prop :=
  True

/-- The items inside are in the buckets of their keys. -/
structure Stores (c : Config κ α) (s : State α) (l : Lists Owner α) : Prop where
  refines : Refines Double s.table.heap l
  mem_iff : ∀ x, x ∈ s.inside ↔ l.owner x ≠ none
  owner : ∀ x o, l.owner x = some o →
    o = .bucket (s.table.hashCode x) ∧ s.table.hashCode x = c.index (c.getKey x)
  count : s.table.numItems = s.inside.length
  nodup : s.inside.Nodup

section Lookup

variable {c : Config κ α} {s : State α} {l : Lists Owner α}

omit [DecidableEq α] in
theorem mem_bucket (h : Stores c s l) {x : α} {i : Nat} (hx : x ∈ l.items (.bucket i)) :
    x ∈ s.inside ∧ s.table.hashCode x = i := by
  have howner := owner_of_mem h.refines hx
  refine ⟨(h.mem_iff x).mpr (by rw [howner]; exact Option.some_ne_none _), ?_⟩
  exact (Owner.bucket.inj (h.owner x _ howner).1).symm

omit [DecidableEq α] in
theorem mem_bucket_of_inside (h : Stores c s l) {x : α} (hx : x ∈ s.inside) :
    x ∈ l.items (.bucket (s.table.hashCode x)) ∧
      s.table.hashCode x = c.index (c.getKey x) := by
  obtain ⟨o, ho⟩ := Option.ne_none_iff_exists'.mp ((h.mem_iff x).mp hx)
  obtain ⟨rfl, hindex⟩ := h.owner x o ho
  exact ⟨(h.refines.wellFormed.mem_iff _ x).mpr ho, hindex⟩

omit [DecidableEq α] in
theorem length_bucket_le (h : Stores c s l) (i : Nat) :
    (l.items (.bucket i)).length ≤ s.inside.length :=
  (List.subperm_of_subset (h.refines.wellFormed.nodup _) fun _ hx => (mem_bucket h hx).1).length_le

omit [DecidableEq α] in
theorem findLoop_eq (c : Config κ α) (t : HashTable α) (key : κ) {p : Option α} {xs : List α}
    (hsegment : Segment t.heap.nextPtr p xs none) (fuel : Nat) (hfuel : xs.length < fuel) :
    findLoop c t key fuel p = some (xs.find? (c.sameKey key)) := by
  induction xs generalizing p fuel with
  | nil =>
      obtain ⟨fuel, rfl⟩ := Nat.exists_eq_add_of_lt hfuel
      rw [segment_nil.mp hsegment]
      simp [findLoop]
  | cons x xs ih =>
      obtain ⟨rfl, htail⟩ := hsegment
      cases fuel with
      | zero => exact absurd hfuel (Nat.not_lt_zero _)
      | succ fuel =>
          rw [List.length_cons] at hfuel
          rw [findLoop, List.find?_cons]
          cases hkey : c.sameKey key x with
          | true => rfl
          | false => exact ih htail fuel (by omega)

omit [DecidableEq α] in
theorem find_spec (h : Stores c s l) (fuel : Nat) (hfuel : s.inside.length < fuel) (key : κ) :
    ∃ item, find c fuel s.table key = some item ∧ Finds c s key item := by
  have hlength := length_bucket_le h (c.index key)
  refine ⟨_, findLoop_eq c s.table key (h.refines.links _).forward fuel (by omega), ?_⟩
  cases hfind : (l.items (.bucket (c.index key))).find? (c.sameKey key) with
  | none =>
      intro item hitem
      rw [List.find?_eq_none] at hfind
      by_contra hkey
      rw [Bool.not_eq_false] at hkey
      obtain ⟨hbucket, hindex⟩ := mem_bucket_of_inside h hitem
      have hraw := c.keys.getRawKey_eq _ _ (of_decide_eq_true hkey)
      rw [hindex, Config.index, hraw] at hbucket
      exact hfind item hbucket hkey
  | some item =>
      exact ⟨(mem_bucket h (List.mem_of_find?_eq_some hfind)).1, List.find?_some hfind⟩

end Lookup

section Traversal

variable {c : Config κ α} {s : State α} {l : Lists Owner α}

omit [DecidableEq α]

/-- The items of `count` buckets from one on. -/
def bucketsFrom (l : Lists Owner α) : Nat → Nat → List α
  | 0, _ => []
  | count + 1, index => l.items (.bucket index) ++ bucketsFrom l count (index + 1)

theorem mem_bucketsFrom {x : α} (count index : Nat) :
    x ∈ bucketsFrom l count index ↔
      ∃ i, index ≤ i ∧ i < index + count ∧ x ∈ l.items (.bucket i) := by
  induction count generalizing index with
  | zero =>
      simp only [bucketsFrom, List.not_mem_nil, false_iff]
      rintro ⟨i, hle, hlt, -⟩
      omega
  | succ count ih =>
      rw [bucketsFrom, List.mem_append, ih]
      constructor
      · rintro (hx | ⟨i, hle, hlt, hx⟩)
        · exact ⟨index, le_rfl, by omega, hx⟩
        · exact ⟨i, by omega, by omega, hx⟩
      · rintro ⟨i, hle, hlt, hx⟩
        rcases Nat.eq_or_lt_of_le hle with rfl | hlt'
        · exact .inl hx
        · exact .inr ⟨i, hlt', by omega, hx⟩

theorem nodup_bucketsFrom (h : Stores c s l) (count index : Nat) :
    (bucketsFrom l count index).Nodup := by
  induction count generalizing index with
  | zero => exact List.nodup_nil
  | succ count ih =>
      refine List.nodup_append.mpr ⟨h.refines.wellFormed.nodup _, ih (index + 1), ?_⟩
      rintro x hx y hy rfl
      obtain ⟨i, hle, -, hi⟩ := (mem_bucketsFrom count (index + 1)).mp hy
      have hindex := (mem_bucket h hx).2
      have hother := (mem_bucket h hi).2
      omega

theorem mem_buckets (h : Stores c s l) (x : α) :
    x ∈ bucketsFrom l c.numBuckets 0 ↔ x ∈ s.inside := by
  rw [mem_bucketsFrom]
  constructor
  · rintro ⟨i, -, -, hx⟩
    exact (mem_bucket h hx).1
  · intro hx
    obtain ⟨hbucket, hindex⟩ := mem_bucket_of_inside h hx
    refine ⟨_, Nat.zero_le _, ?_, hbucket⟩
    rw [hindex, Nat.zero_add]
    exact c.hashFunc.hashKey_lt _ _ c.numBuckets_pos

/-- Going on from the items of a bucket to those of the next ones. -/
theorem segment_bucket (h : Stores c s l) {count index : Nat}
    (hcount : index + 1 + count = c.numBuckets)
    (hrest : Segment (nextItem c s.table) (firstFrom s.table.heap count (index + 1))
      (bucketsFrom l count (index + 1)) none)
    {us vs : List α} (hitems : l.items (.bucket index) = us ++ vs) :
    Segment (nextItem c s.table) (vs.head?.or (firstFrom s.table.heap count (index + 1)))
      (vs ++ bucketsFrom l count (index + 1)) none := by
  induction vs generalizing us with
  | nil => exact hrest
  | cons x vs ih =>
      have hx : x ∈ l.items (.bucket index) :=
        hitems ▸ List.mem_append_right us List.mem_cons_self
      have hnext : nextItem c s.table x =
          vs.head?.or (firstFrom s.table.heap count (index + 1)) := by
        rw [nextItem, next, nextPtr_eq h.refines hitems, (mem_bucket h hx).2,
          show c.numBuckets - (index + 1) = count by omega]
        cases vs.head? <;> rfl
      have hrest' : l.items (.bucket index) = (us ++ [x]) ++ vs := by
        rw [hitems, List.append_assoc, List.singleton_append]
      refine ⟨rfl, ?_⟩
      rw [hnext]
      exact ih hrest'

theorem segment_bucketsFrom (h : Stores c s l) (count index : Nat)
    (hcount : index + count = c.numBuckets) :
    Segment (nextItem c s.table) (firstFrom s.table.heap count index)
      (bucketsFrom l count index) none := by
  induction count generalizing index with
  | zero => rfl
  | succ count ih =>
      have hfirst : firstFrom s.table.heap (count + 1) index =
          (l.items (.bucket index)).head?.or (firstFrom s.table.heap count (index + 1)) := by
        rw [firstFrom, headPtr_eq h.refines]
        cases (l.items (.bucket index)).head? <;> rfl
      have hitems : l.items (.bucket index) = [] ++ l.items (.bucket index) := rfl
      rw [hfirst]
      exact segment_bucket h (by omega) (ih (index + 1) (by omega)) hitems

/-- `first()` and `next()` visit the items inside once each. -/
theorem visits_spec (h : Stores c s l) :
    Segment (nextItem c s.table) (firstItem c s.table) (bucketsFrom l c.numBuckets 0) none := by
  have hsegment := segment_bucketsFrom h c.numBuckets 0 (Nat.zero_add _)
  rw [firstItem]
  split_ifs with hnone
  · exact hsegment
  · rw [not_not, h.count] at hnone
    have hnil : bucketsFrom l c.numBuckets 0 = [] := by
      rw [List.eq_nil_iff_forall_not_mem]
      intro x hx
      rw [mem_buckets h, List.eq_nil_of_length_eq_zero hnone] at hx
      cases hx
    rw [hnil]
    rfl

theorem isInDictionary_eq (h : Stores c s l) (x : α) : isInDictionary s.table x = false := by
  rw [isInDictionary, isInContainer_, h.refines.owner, decide_eq_false_iff_not]
  intro howner
  cases (h.owner x _ howner).1

theorem correct_of_stores [DecidableEq α] (h : Stores c s l) (fuel : Nat)
    (hfuel : s.inside.length < fuel) :
    Correct c fuel s := by
  refine ⟨find_spec h fuel hfuel, ⟨_, visits_spec h, nodup_bucketsFrom h _ _, mem_buckets h⟩,
    ⟨h.count, h.nodup⟩, fun x => ?_⟩
  rw [isInDictionary_eq h, eq_comm, decide_eq_false_iff_not]

end Traversal

section Steps

variable {c : Config κ α} {s : State α} {l : Lists Owner α}

theorem stores_insert (h : Stores c s l) (node : α) (hfresh : node ∉ s.inside) :
    ∃ t l', insert c s.table node = some t ∧ Stores c ⟨t, node :: s.inside⟩ l' := by
  have hfree : l.owner node = none := by
    by_contra howner
    exact hfresh ((h.mem_iff node).mpr howner)
  obtain ⟨heap, hput, hrefines⟩ :=
    put_dlist (i := .bucket (c.index (c.getKey node))) trivial h.refines node
  obtain ⟨-, -, howner⟩ := Lists.put_of_free h.refines.wellFormed hfree
    (.bucket (c.index (c.getKey node)))
  refine ⟨_, _, by simp only [insert, hput]; rfl, hrefines, fun x => ?_, fun x o ho => ?_, ?_, ?_⟩
  · rw [howner, List.mem_cons, h.mem_iff]
    by_cases hx : x = node
    · simp [hx]
    · simp [hx]
  · rw [howner] at ho
    by_cases hx : x = node
    · subst hx
      rw [Function.update_self] at ho
      simp only [Function.update_self]
      exact ⟨(Option.some.inj ho).symm, trivial⟩
    · rw [Function.update_of_ne hx] at ho
      simp only [Function.update_of_ne hx]
      exact h.owner x o ho
  · simp only [h.count, List.length_cons]
  · exact List.nodup_cons.mpr ⟨hfresh, h.nodup⟩

theorem stores_removeItem (h : Stores c s l) (node : α) :
    (removeItem s.table node).2 = (if node ∈ s.inside then some node else none) ∧
      ∃ l', Stores c (s.without (removeItem s.table node)).1 l' := by
  obtain ⟨hok, hrefines⟩ :=
    remove_dlist (i := .bucket (s.table.hashCode node)) trivial h.refines node
  obtain ⟨⟨heap, ok⟩, hremove⟩ :
      ∃ res, DList.remove s.table.heap (.bucket (s.table.hashCode node)) node = res := ⟨_, rfl⟩
  rw [hremove] at hok hrefines
  simp only at hok hrefines
  by_cases hnode : node ∈ s.inside
  · obtain ⟨hbucket, -⟩ := mem_bucket_of_inside h hnode
    obtain ⟨-, -, howner⟩ := Lists.remove_of_owned h.refines.wellFormed
      (owner_of_mem h.refines hbucket)
    rw [decide_eq_true hbucket] at hok
    subst hok
    simp only [removeItem, hremove, State.without, if_pos hnode]
    refine ⟨trivial, _, hrefines, fun x => ?_, fun x o ho => ?_, ?_, h.nodup.erase node⟩
    · rw [howner, h.nodup.mem_erase_iff, h.mem_iff]
      by_cases hx : x = node
      · simp [hx]
      · simp [hx]
    · rw [howner] at ho
      by_cases hx : x = node
      · rw [hx, Function.update_self] at ho
        cases ho
      · rw [Function.update_of_ne hx] at ho
        exact h.owner x o ho
    · simp only [h.count, List.length_erase_of_mem hnode]
  · have hbucket : node ∉ l.items (.bucket (s.table.hashCode node)) := fun hx =>
      hnode (mem_bucket h hx).1
    rw [decide_eq_false hbucket] at hok
    subst hok
    rw [(remove_of_notMem h.refines hbucket).2] at hrefines
    simp only [removeItem, hremove, State.without, if_neg hnode]
    exact ⟨trivial, l, hrefines, h.mem_iff, h.owner, h.count, h.nodup⟩

theorem without_snd (s : State α) (res : HashTable α × Option α) : (s.without res).2 = res.2 := by
  obtain ⟨t, node⟩ := res
  cases node <;> rfl

/-- A fresh operation ends, answers right and keeps the items in their buckets. -/
theorem stores_step (h : Stores c s l) (op : Op κ α) (hfresh : Fresh s op) (fuel : Nat)
    (hfuel : s.inside.length < fuel) :
    ∃ res l', step c fuel s op = some res ∧ Answers c s op res.2 ∧ Stores c res.1 l' ∧
      res.1.inside.length ≤ s.inside.length + 1 := by
  have hshrinks : ∀ res, ((s.without res).1.inside).length ≤ s.inside.length + 1 := by
    rintro ⟨t, _ | node⟩
    · exact Nat.le_succ _
    · exact List.length_erase_le.trans (Nat.le_succ _)
  cases op with
  | insert node =>
      obtain ⟨t, l', hinsert, hstores⟩ := stores_insert h node hfresh
      refine ⟨(⟨t, node :: s.inside⟩, none), l', ?_, rfl, hstores, le_rfl⟩
      simp only [step, hinsert, Option.map_some]
  | remove key =>
      obtain ⟨item, hfind, hfinds⟩ := find_spec h fuel hfuel key
      cases item with
      | none =>
          refine ⟨(s, none), l, ?_, hfinds, h, Nat.le_succ _⟩
          simp only [step, remove, hfind, Option.bind_eq_bind, Option.bind_some]
          rfl
      | some node =>
          obtain ⟨hitem, l', hstores⟩ := stores_removeItem h node
          rw [if_pos hfinds.1] at hitem
          refine ⟨_, l', ?_, ?_, hstores, hshrinks _⟩
          · simp only [step, remove, hfind, Option.bind_eq_bind, Option.bind_some]
            rfl
          · rw [without_snd, hitem]
            exact hfinds
  | removeItem node =>
      obtain ⟨hitem, l', hstores⟩ := stores_removeItem h node
      refine ⟨_, l', rfl, ?_, hstores, hshrinks _⟩
      rw [without_snd]
      exact hitem
  | getFirst =>
      have hhead := (visits_spec h).head
      have hmem := mem_buckets h
      cases hitems : bucketsFrom l c.numBuckets 0 with
      | nil =>
          rw [hitems] at hhead hmem
          refine ⟨_, l, by simp only [step, getFirst, hhead]; rfl, ?_, h, Nat.le_succ _⟩
          exact List.eq_nil_iff_forall_not_mem.mpr fun x hx => by cases (hmem x).mpr hx
      | cons node rest =>
          rw [hitems] at hhead hmem
          have hinside := (hmem node).mp List.mem_cons_self
          obtain ⟨hitem, l', hstores⟩ := stores_removeItem h node
          rw [if_pos hinside] at hitem
          refine ⟨_, l', by simp only [step, getFirst, hhead]; rfl, ?_, hstores, hshrinks _⟩
          rw [without_snd, hitem]
          exact hinside
  | find key =>
      obtain ⟨item, hfind, hfinds⟩ := find_spec h fuel hfuel key
      refine ⟨(s, item), l, ?_, hfinds, h, Nat.le_succ _⟩
      simp only [step, hfind, Option.map_some]

theorem allCorrect_of_stores (h : Stores c s l) (ops : List (Op κ α)) (fuel : Nat)
    (hfuel : s.inside.length + ops.length < fuel) (hfresh : AllFresh c fuel s ops) :
    AllCorrect c fuel s ops := by
  induction ops generalizing s l with
  | nil => exact correct_of_stores h fuel hfuel
  | cons op ops ih =>
      rw [List.length_cons] at hfuel
      obtain ⟨res, l', hstep, hanswers, hstores, hlength⟩ :=
        stores_step h op hfresh.1 fuel (by omega)
      exact ⟨correct_of_stores h fuel (by omega), res, hstep, hanswers,
        ih hstores (by omega) (hfresh.2 res hstep)⟩

omit [DecidableEq α] in
theorem stores_init (c : Config κ α) : Stores c State.init Lists.empty := by
  refine ⟨⟨Lists.wellFormed_empty, rfl, rfl, fun _ => ⟨rfl, rfl, fun _ => rfl⟩⟩, fun x => ?_,
    fun x o ho => ?_, rfl, List.nodup_nil⟩
  · simp [State.init, Lists.empty]
  · cases ho

end Steps

/-- In every run that inserts only items that are in no container, the dictionary is the
collection of its items: all but what `isInDictionary()` says of the items inside. -/
theorem run_correct (c : Config κ α) (ops : List (Op κ α)) (fuel : Nat)
    (hfuel : ops.length < fuel) (hfresh : AllFresh c fuel State.init ops) :
    AllCorrect c fuel State.init ops :=
  allCorrect_of_stores (stores_init c) ops fuel (by simpa [State.init] using hfuel) hfresh

/-- One byte keys. -/
def byteKeys : Keys UInt8 :=
  { getRawKey := fun key => [key]
    compareKey := fun a b => a.toNat - b.toNat
    getRawKey_eq := fun a b h => by
      have heq : a.toNat = b.toNat := by omega
      rw [UInt8.toNat_inj.mp heq] }

/-- Numbers by their last byte, in three buckets. -/
def threeBuckets : Config UInt8 Nat :=
  { keys := byteKeys
    hashFunc := defaultHash
    numBuckets := 3
    numBuckets_pos := by decide
    getKey := fun n => UInt8.ofNat n }

/-- Two items of the same key, one of another in the same bucket, and one elsewhere. -/
theorem run_correct_threeBuckets :
    AllCorrect threeBuckets 9 State.init
      [.insert 1, .insert 257, .insert 4, .insert 2, .find 1, .remove 1, .removeItem 1,
        .removeItem 4] :=
  run_correct threeBuckets _ 9 (by decide) (by decide)

/-- An item that was just inserted is not in the dictionary. -/
theorem isInDictionary_fails_inserted :
    ∃ s, step threeBuckets 2 State.init (.insert 1) = some (s, none) ∧ 1 ∈ s.inside ∧
      isInDictionary s.table 1 = false := by
  obtain ⟨t, l, hinsert, hstores⟩ :=
    stores_insert (stores_init threeBuckets) 1 List.not_mem_nil
  exact ⟨_, by simp only [step, hinsert, Option.map_some], List.mem_cons_self,
    isInDictionary_eq hstores 1⟩

end ColonyPico.Container.Dictionary
