import Mathlib.Logic.Function.Basic

/-!
Singly and doubly linked lists whose links are members of the items
(`Cpl::Container::SList`, `Cpl::Container::DList`, `Cpl::Container::Item` and the C
port of the latter two).

`pop()` and `getFirst()` are `get()`, `push()` is `putFirst()`, `putLast()` is `put()`,
and `top()`, `head()` and `tail()` are `first()` and `last()`.
-/

namespace ColonyPico.Container.LinkedLists

/-- All lists and all items. A list that is statically allocated starts with null
pointers too. -/
structure Heap (ι α : Type) where
  headPtr : ι → Option α
  tailPtr : ι → Option α
  nextPtr : α → Option α
  prevPtr : α → Option α
  inListPtr : α → Option ι
  /-- `FatalError::logf()` was called. -/
  fatalError : Bool

variable {ι α : Type}

/-- Nothing is in a list. -/
def Heap.init : Heap ι α :=
  { headPtr := fun _ => none
    tailPtr := fun _ => none
    nextPtr := fun _ => none
    prevPtr := fun _ => none
    inListPtr := fun _ => none
    fatalError := false }

variable [DecidableEq ι] [DecidableEq α]

namespace Heap

@[simp] def setHead (h : Heap ι α) (list : ι) (p : Option α) : Heap ι α :=
  { h with headPtr := Function.update h.headPtr list p }

@[simp] def setTail (h : Heap ι α) (list : ι) (p : Option α) : Heap ι α :=
  { h with tailPtr := Function.update h.tailPtr list p }

omit [DecidableEq ι]

@[simp] def setNext (h : Heap ι α) (item : α) (p : Option α) : Heap ι α :=
  { h with nextPtr := Function.update h.nextPtr item p }

@[simp] def setPrev (h : Heap ι α) (item : α) (p : Option α) : Heap ι α :=
  { h with prevPtr := Function.update h.prevPtr item p }

@[simp] def setInList (h : Heap ι α) (item : α) (p : Option ι) : Heap ι α :=
  { h with inListPtr := Function.update h.inListPtr item p }

end Heap

/-- `Item::insert_()` (`Cpl_Container_Item_markAsContained_()`, which does not log). -/
def insert_ (h : Heap ι α) (newContainerPtr : ι) (item : α) : Heap ι α × Bool :=
  match h.inListPtr item with
  | some _ => ({ h with fatalError := true }, false)
  | none => (h.setInList item (some newContainerPtr), true)

def isInContainer_ (h : Heap ι α) (containerPtr : ι) (item : α) : Bool :=
  h.inListPtr item = some containerPtr

def remove_ (h : Heap ι α) (item : α) : Heap ι α :=
  h.setInList item none

def first (h : Heap ι α) (list : ι) : Option α :=
  h.headPtr list

def last (h : Heap ι α) (list : ι) : Option α :=
  h.tailPtr list

def next (h : Heap ι α) (cur : α) : Option α :=
  h.nextPtr cur

def previous (h : Heap ι α) (cur : α) : Option α :=
  h.prevPtr cur

/-- The methods in which the two classes differ. Nothing is the result where a null
pointer is dereferenced or where a loop is not done within the fuel; an insertion
returns whether the item could be inserted. -/
structure Methods (ι α : Type) where
  get : Heap ι α → ι → Heap ι α × Option α
  getLast : Nat → Heap ι α → ι → Option (Heap ι α × Option α)
  put : Heap ι α → ι → α → Option (Heap ι α × Bool)
  putFirst : Heap ι α → ι → α → Heap ι α × Bool
  remove : Nat → Heap ι α → ι → α → Option (Heap ι α × Bool)
  insertAfter : Heap ι α → ι → α → α → Heap ι α × Bool
  insertBefore : Nat → Heap ι α → ι → α → α → Option (Heap ι α × Bool)

/-- `while ( get() )` of `clearTheList()`. -/
def clearTheList (m : Methods ι α) (list : ι) : Nat → Heap ι α → Option (Heap ι α)
  | 0, _ => none
  | fuel + 1, h =>
      match m.get h list with
      | (h, none) => some h
      | (h, some _) => clearTheList m list fuel h

/-- `while ( (nextPtr=get()) )` of `move()`. -/
def moveLoop (m : Methods ι α) (list dst : ι) : Nat → Heap ι α → Option (Heap ι α)
  | 0, _ => none
  | fuel + 1, h =>
      match m.get h list with
      | (h, none) => some h
      | (h, some nextPtr) => do
          let (h, _) ← m.put h dst nextPtr
          moveLoop m list dst fuel h

def move (m : Methods ι α) (fuel : Nat) (h : Heap ι α) (list dst : ι) : Option (Heap ι α) := do
  let h ← clearTheList m dst fuel h
  moveLoop m list dst fuel h

namespace DList

def remove (h : Heap ι α) (list : ι) (item : α) : Heap ι α × Bool :=
  if isInContainer_ h list item then
    let nxtPtr := h.nextPtr item
    let h :=
      match h.prevPtr item with
      | some prvPtr =>
          let h := h.setNext prvPtr nxtPtr
          match nxtPtr with
          | none => h.setTail list (some prvPtr)
          | some nxtPtr => h.setPrev nxtPtr (some prvPtr)
      | none =>
          let h := h.setHead list nxtPtr
          match nxtPtr with
          | none => h.setTail list none
          | some nxtPtr => h.setPrev nxtPtr none
    (remove_ h item, true)
  else (h, false)

def get (h : Heap ι α) (list : ι) : Heap ι α × Option α :=
  match h.headPtr list with
  | none => (h, none)
  | some firstPtr => ((remove h list firstPtr).1, some firstPtr)

def getLast (h : Heap ι α) (list : ι) : Heap ι α × Option α :=
  match h.tailPtr list with
  | none => (h, none)
  | some lastPtr => ((remove h list lastPtr).1, some lastPtr)

def putFirst (h : Heap ι α) (list : ι) (item : α) : Heap ι α × Bool :=
  match insert_ h list item with
  | (h, false) => (h, false)
  | (h, true) =>
      let h :=
        match h.headPtr list with
        | some headPtr =>
            ((h.setNext item (some headPtr)).setPrev headPtr (some item)).setHead list (some item)
        | none => ((h.setTail list (some item)).setHead list (some item)).setNext item none
      (h.setPrev item none, true)

def put (h : Heap ι α) (list : ι) (item : α) : Option (Heap ι α × Bool) :=
  match insert_ h list item with
  | (h, false) => some (h, false)
  | (h, true) => do
      let h ←
        match h.headPtr list with
        | some _ => do
            let tailPtr ← h.tailPtr list
            pure ((h.setNext tailPtr (some item)).setPrev item (some tailPtr))
        | none => pure ((h.setHead list (some item)).setPrev item none)
      pure ((h.setNext item none).setTail list (some item), true)

def insertAfter (h : Heap ι α) (list : ι) (after item : α) : Heap ι α × Bool :=
  match insert_ h list item with
  | (h, false) => (h, false)
  | (h, true) =>
      let nxtPtr := h.nextPtr after
      let h := ((h.setNext item nxtPtr).setPrev item (some after)).setNext after (some item)
      match nxtPtr with
      | none => (h.setTail list (some item), true)
      | some nxtPtr => (h.setPrev nxtPtr (some item), true)

def insertBefore (h : Heap ι α) (list : ι) (before item : α) : Heap ι α × Bool :=
  match insert_ h list item with
  | (h, false) => (h, false)
  | (h, true) =>
      let prvPtr := h.prevPtr before
      let h := ((h.setPrev item prvPtr).setNext item (some before)).setPrev before (some item)
      match prvPtr with
      | none => (h.setHead list (some item), true)
      | some prvPtr => (h.setNext prvPtr (some item), true)

def methods : Methods ι α :=
  { get := get
    getLast := fun _ h list => some (getLast h list)
    put := put
    putFirst := putFirst
    remove := fun _ h list item => some (remove h list item)
    insertAfter := insertAfter
    insertBefore := fun _ h list before item => some (insertBefore h list before item) }

end DList

namespace SList

def get (h : Heap ι α) (list : ι) : Heap ι α × Option α :=
  match h.headPtr list with
  | none => (h, none)
  | some nextPtr =>
      let h := h.setHead list (h.nextPtr nextPtr)
      let h := if h.headPtr list = none then h.setTail list none else h
      (remove_ h nextPtr, some nextPtr)

def putFirst (h : Heap ι α) (list : ι) (item : α) : Heap ι α × Bool :=
  match insert_ h list item with
  | (h, false) => (h, false)
  | (h, true) =>
      match h.headPtr list with
      | some headPtr => ((h.setNext item (some headPtr)).setHead list (some item), true)
      | none =>
          (((h.setTail list (some item)).setHead list (some item)).setNext item none, true)

def put (h : Heap ι α) (list : ι) (item : α) : Option (Heap ι α × Bool) :=
  match insert_ h list item with
  | (h, false) => some (h, false)
  | (h, true) => do
      let h ←
        match h.headPtr list with
        | some _ => do
            let tailPtr ← h.tailPtr list
            pure (h.setNext tailPtr (some item))
        | none => pure (h.setHead list (some item))
      pure ((h.setNext item none).setTail list (some item), true)

/-- The loop of `remove()` and `insertBefore()` that looks for an item, from `nxtPtr` with
`prvPtr` before it: the pointer before the item, if it is found. -/
def locate (h : Heap ι α) (item : α) : Nat → Option α → Option α → Option (Option (Option α))
  | 0, _, _ => none
  | _ + 1, none, _ => some none
  | fuel + 1, some nxtPtr, prvPtr =>
      if nxtPtr = item then some (some prvPtr)
      else locate h item fuel (h.nextPtr nxtPtr) (some nxtPtr)

def remove (fuel : Nat) (h : Heap ι α) (list : ι) (item : α) : Option (Heap ι α × Bool) :=
  if isInContainer_ h list item then do
    match ← locate h item fuel (first h list) none with
    | none => pure (h, false)
    | some (some prvPtr) =>
        let h := h.setNext prvPtr (h.nextPtr item)
        let h := if h.nextPtr prvPtr = none then h.setTail list (some prvPtr) else h
        pure (remove_ h item, true)
    | some none =>
        let h := h.setHead list (h.nextPtr item)
        let h := if h.headPtr list = none then h.setTail list none else h
        pure (remove_ h item, true)
  else some (h, false)

def getLast (fuel : Nat) (h : Heap ι α) (list : ι) : Option (Heap ι α × Option α) :=
  match h.tailPtr list with
  | none => some (h, none)
  | some lastPtr => (remove fuel h list lastPtr).map fun res => (res.1, some lastPtr)

def insertAfter (h : Heap ι α) (list : ι) (after item : α) : Heap ι α × Bool :=
  match insert_ h list item with
  | (h, false) => (h, false)
  | (h, true) =>
      let h := h.setNext item (h.nextPtr after)
      let h := if h.nextPtr item = none then h.setTail list (some item) else h
      (h.setNext after (some item), true)

def insertBefore (fuel : Nat) (h : Heap ι α) (list : ι) (before item : α) :
    Option (Heap ι α × Bool) :=
  match insert_ h list item with
  | (h, false) => some (h, false)
  | (h, true) => do
      match ← locate h before fuel (first h list) none with
      | none => pure (h, true)
      | some (some prvPtr) => pure ((h.setNext item (some before)).setNext prvPtr (some item), true)
      | some none => pure ((h.setNext item (some before)).setHead list (some item), true)

def methods : Methods ι α :=
  { get := get
    getLast := getLast
    put := put
    putFirst := putFirst
    remove := remove
    insertAfter := insertAfter
    insertBefore := insertBefore }

end SList

end ColonyPico.Container.LinkedLists
