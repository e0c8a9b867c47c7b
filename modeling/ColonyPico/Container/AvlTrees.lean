import Mathlib.Logic.Function.Basic
import Mathlib.Order.Lattice
import ColonyPico.Foundations.BalancedTrees

/-!
Balanced trees whose links are members of the items (`Cpl::Container::AvlTree_`,
`Cpl::Container::MapItem` and `Cpl::Container::Map`).

Nothing is the result where a null pointer is dereferenced, where an array is written
outside its bounds, where a fatal error ends the program, or where a loop is not done
within the fuel.
-/

namespace ColonyPico.Container.AvlTrees

open ColonyPico.Foundations.BalancedTrees (Side Balance)

/-- `OPTION_CPL_CONTAINER_AVLTREE_MAX_TREE_DEPTH`. -/
def maxTreeDepth : Nat := 32

/-- The root node of the tree, which is no item, and the items. -/
inductive Address (ι : Type) where
  | root
  | item (i : ι)
  deriving DecidableEq, Repr

/-- The links of a `MapItem`. -/
structure MapItem (ι : Type) where
  prevPtr : Option (Address ι)
  nextPtr : Option (Address ι)
  parentPtr : Option (Address ι)
  isNotRoot : Bool
  balance : Balance

variable {ι κ : Type}

namespace MapItem

/-- `initialize()`. -/
def initialized (parent : Option (Address ι)) : MapItem ι :=
  { prevPtr := none
    nextPtr := none
    parentPtr := parent
    isNotRoot := true
    balance := .even }

/-- `getLeft()` and `getRight()`. -/
def getChild (n : MapItem ι) : Side → Option (Address ι)
  | .left => n.prevPtr
  | .right => n.nextPtr

/-- `setLeft()` and `setRight()`. -/
def setChild (n : MapItem ι) (s : Side) (p : Option (Address ι)) : MapItem ι :=
  match s with
  | .left => { n with prevPtr := p }
  | .right => { n with nextPtr := p }

def setParent (n : MapItem ι) (p : Option (Address ι)) : MapItem ι :=
  { n with parentPtr := p }

def setBalance (n : MapItem ι) (b : Balance) : MapItem ι :=
  { n with balance := b }

end MapItem

/-- All nodes. -/
structure Nodes (ι : Type) where
  get : Address ι → MapItem ι

structure AvlTree (ι : Type) where
  nodes : Nodes ι
  /-- The items' in-list pointer points to the tree. -/
  inList : Address ι → Bool

/-- An empty tree; no item is in a container. -/
def AvlTree.init : AvlTree ι :=
  { nodes := ⟨fun n =>
      match n with
      | .root => { MapItem.initialized none with isNotRoot := false }
      | .item _ => MapItem.initialized none⟩
    inList := fun _ => false }

variable [DecidableEq ι]

section Writes

variable (h : Nodes ι) (n : Address ι)

def setNode (r : MapItem ι) : Nodes ι :=
  ⟨Function.update h.get n r⟩

def setChild (s : Side) (p : Option (Address ι)) : Nodes ι :=
  setNode h n ((h.get n).setChild s p)

def setParent (p : Option (Address ι)) : Nodes ι :=
  setNode h n ((h.get n).setParent p)

def setBalance (b : Balance) : Nodes ι :=
  setNode h n ((h.get n).setBalance b)

/-- `if ( p ) p->setParent( n )`. -/
def adopt (p : Option (Address ι)) : Nodes ι :=
  match p with
  | none => h
  | some c => setParent h c (some n)

end Writes

/-- The child at the side `s` takes the place of its parent. -/
def rotate (s : Side) (h : Nodes ι) (nodePtr : Address ι) : Option (Nodes ι × Address ι) := do
  let tempPtr ← (h.get nodePtr).getChild s
  let h := setChild h nodePtr s ((h.get tempPtr).getChild s.other)
  let h := setChild h tempPtr s.other (some nodePtr)
  let parentPtr ← (h.get nodePtr).parentPtr
  let h :=
    if (h.get parentPtr).getChild s.other = some nodePtr then
      setChild h parentPtr s.other (some tempPtr)
    else setChild h parentPtr s (some tempPtr)
  let h := adopt h nodePtr ((h.get nodePtr).getChild s)
  let h := setParent h tempPtr (h.get nodePtr).parentPtr
  let h := setParent h nodePtr (some tempPtr)
  pure (h, tempPtr)

def rotateLeft (h : Nodes ι) (nodePtr : Address ι) : Option (Nodes ι × Address ι) :=
  rotate .right h nodePtr

def rotateRight (h : Nodes ι) (nodePtr : Address ι) : Option (Nodes ι × Address ι) :=
  rotate .left h nodePtr

/-- The balances of a node and of its child at the side `s` after the grandchild between
them, which had the balance `b`, has taken their place. -/
def doubleBalances (s : Side) (b : Balance) : Balance × Balance :=
  match b with
  | .even => (.even, .even)
  | .tilted s' => if s' = s then (.tilted s.other, .even) else (.even, .tilted s)

/-- The subtree at the side `s`, which was the higher one, has grown. -/
def grew (s : Side) (h : Nodes ι) (curPtr : Address ι) : Option (Nodes ι × Bool) := do
  let childPtr ← (h.get curPtr).getChild s
  match (h.get childPtr).balance with
  | .even => pure (h, true)
  | .tilted s' =>
      if s' = s then
        let h := setBalance h curPtr .even
        let h := setBalance h childPtr .even
        let (h, _) ← rotate s h curPtr
        pure (h, false)
      else
        let grandChildPtr ← (h.get childPtr).getChild s.other
        let balances := doubleBalances s (h.get grandChildPtr).balance
        let h := setBalance h curPtr balances.1
        let h := setBalance h childPtr balances.2
        let h := setBalance h grandChildPtr .even
        let (h, newRootPtr) ← rotate s.other h childPtr
        let h := setChild h curPtr s (some newRootPtr)
        let h := setParent h newRootPtr (some curPtr)
        let (h, _) ← rotate s h curPtr
        pure (h, false)

def grewLeft (h : Nodes ι) (curPtr : Address ι) : Option (Nodes ι × Bool) :=
  grew .left h curPtr

def grewRight (h : Nodes ι) (curPtr : Address ι) : Option (Nodes ι × Bool) :=
  grew .right h curPtr

/-- The subtree opposite to the side `s`, which was the lower one, has become shorter. -/
def lost (s : Side) (h : Nodes ι) (parentPtr : Address ι) : Option (Nodes ι × Bool) := do
  let childPtr ← (h.get parentPtr).getChild s
  match (h.get childPtr).balance with
  | .even =>
      let (h, _) ← rotate s h parentPtr
      let h := setBalance h parentPtr (.tilted s)
      let h := setBalance h childPtr (.tilted s.other)
      pure (h, false)
  | .tilted s' =>
      if s' = s then
        let (h, _) ← rotate s h parentPtr
        let h := setBalance h parentPtr .even
        let h := setBalance h childPtr .even
        pure (h, true)
      else
        let grandChildPtr ← (h.get childPtr).getChild s.other
        let balances := doubleBalances s (h.get grandChildPtr).balance
        let h := setBalance h parentPtr balances.1
        let h := setBalance h childPtr balances.2
        let h := setBalance h grandChildPtr .even
        let (h, _) ← rotate s.other h childPtr
        let (h, _) ← rotate s h parentPtr
        pure (h, true)

def leftShorter (h : Nodes ι) (parentPtr : Address ι) : Option (Nodes ι × Bool) :=
  lost .right h parentPtr

def rightShorter (h : Nodes ι) (parentPtr : Address ι) : Option (Nodes ι × Bool) :=
  lost .left h parentPtr

/-- `while ( n->getLeft() ) n = n->getLeft()`, and the same to the right. -/
def lastAlong (s : Side) (h : Nodes ι) : Nat → Address ι → Option (Address ι)
  | 0, _ => none
  | fuel + 1, n =>
      match (h.get n).getChild s with
      | none => some n
      | some c => lastAlong s h fuel c

/-- The writes of `exchangeWithPrev()` to the two nodes themselves. -/
def exchangeLinks (h : Nodes ι) (nodePtr prevPtr leftPtr parentPtr : Address ι)
    (rightPtr : Option (Address ι)) (balance : Balance) (prevIsChild : Bool) : Nodes ι :=
  let h := setChild h nodePtr .left (h.get prevPtr).prevPtr
  let h := setChild h nodePtr .right (h.get prevPtr).nextPtr
  let h := setBalance h nodePtr (h.get prevPtr).balance
  let h := setParent h nodePtr (if prevIsChild then some prevPtr else (h.get prevPtr).parentPtr)
  let h := setChild h prevPtr .left (some (if prevIsChild then nodePtr else leftPtr))
  let h := setChild h prevPtr .right rightPtr
  let h := setParent h prevPtr (some parentPtr)
  setBalance h prevPtr balance

/-- `exchangeWithPrev()`. Both `prev_is_left` and `prev_is_child` say that the loop was not
entered. -/
def exchangeWithPrev (fuel : Nat) (h : Nodes ι) (nodePtr : Address ι) : Option (Nodes ι) := do
  let leftPtr ← (h.get nodePtr).prevPtr
  let rightPtr := (h.get nodePtr).nextPtr
  let parentPtr ← (h.get nodePtr).parentPtr
  let nodeIsLeft := decide ((h.get parentPtr).prevPtr = some nodePtr)
  let balance := (h.get nodePtr).balance
  let prevPtr ← lastAlong .right h fuel leftPtr
  let prevIsChild := (h.get leftPtr).nextPtr.isNone
  let h := exchangeLinks h nodePtr prevPtr leftPtr parentPtr rightPtr balance prevIsChild
  let nodeParentPtr ← (h.get nodePtr).parentPtr
  let h := setChild h nodeParentPtr (if prevIsChild then .left else .right) (some nodePtr)
  let prevParentPtr ← (h.get prevPtr).parentPtr
  let h := setChild h prevParentPtr (if nodeIsLeft then .left else .right) (some prevPtr)
  let prevLeftPtr ← (h.get prevPtr).prevPtr
  let h := setParent h prevLeftPtr (some prevPtr)
  let h := adopt h prevPtr (h.get prevPtr).nextPtr
  let h := adopt h nodePtr (h.get nodePtr).prevPtr
  pure (adopt h nodePtr (h.get nodePtr).nextPtr)

/-- A pass of the loop of `removeItem()`. -/
def checkShorter (h : Nodes ι) (parentPtr : Address ι) (isLeft : Bool) :
    Option (Nodes ι × Bool) :=
  if isLeft then
    match (h.get parentPtr).balance with
    | .tilted .left => some (setBalance h parentPtr .even, true)
    | .even => some (setBalance h parentPtr (.tilted .right), false)
    | .tilted .right => leftShorter h parentPtr
  else
    match (h.get parentPtr).balance with
    | .tilted .left => rightShorter h parentPtr
    | .even => some (setBalance h parentPtr (.tilted .left), false)
    | .tilted .right => some (setBalance h parentPtr .even, true)

/-- `while ( shorter && parentPtr->m_is_NOT_root_ )`. -/
def shorterLoop : Nat → Nodes ι → Address ι → Bool → Option (Nodes ι)
  | 0, _, _, _ => none
  | fuel + 1, h, parentPtr, isLeft =>
      if (h.get parentPtr).isNotRoot then do
        let nxtPtr ← (h.get parentPtr).parentPtr
        let nextIsLeft := decide ((h.get nxtPtr).prevPtr = some parentPtr)
        let (h, shorter) ← checkShorter h parentPtr isLeft
        if shorter then shorterLoop fuel h nxtPtr nextIsLeft else pure h
      else some h

/-- `Item::insert_()`. -/
def insert_ (t : AvlTree ι) (newNode : ι) : Option (AvlTree ι) :=
  if t.inList (.item newNode) then none
  else some { t with inList := Function.update t.inList (.item newNode) true }

/-- A node with two children changes places with the one before it. -/
def leaveOneChild (fuel : Nat) (h : Nodes ι) (node : Address ι) : Option (Nodes ι) :=
  if (h.get node).prevPtr.isSome && (h.get node).nextPtr.isSome then exchangeWithPrev fuel h node
  else some h

/-- `removeItem()`, once the node has a null pointer to a child. -/
def unlink (fuel : Nat) (h : Nodes ι) (node : Address ι) : Option (Nodes ι) := do
  let parentPtr ← (h.get node).parentPtr
  let childPtr := (h.get node).prevPtr.or (h.get node).nextPtr
  let isLeft := decide ((h.get parentPtr).prevPtr = some node)
  let h := setChild h parentPtr (if isLeft then .left else .right) childPtr
  let h := adopt h parentPtr childPtr
  shorterLoop fuel h parentPtr isLeft

def removeItem (fuel : Nat) (t : AvlTree ι) (node : Address ι) :
    Option (AvlTree ι × Option (Address ι)) :=
  if t.inList node then do
    let h ← leaveOneChild fuel t.nodes node
    let h ← unlink fuel h node
    pure
      ({ nodes := setNode h node (MapItem.initialized none)
         inList := Function.update t.inList node false },
        some node)
  else some (t, none)

def first (fuel : Nat) (h : Nodes ι) : Option (Option (Address ι)) :=
  match (h.get .root).prevPtr with
  | none => some none
  | some n => (lastAlong .left h fuel n).map some

def last (fuel : Nat) (h : Nodes ι) : Option (Option (Address ι)) :=
  match (h.get .root).prevPtr with
  | none => some none
  | some n => (lastAlong .right h fuel n).map some

/-- `while ( p->m_is_NOT_root_ && p->getParent()->getRight() == p ) p = p->getParent()`, and
the same to the left. -/
def climb (s : Side) (h : Nodes ι) : Nat → Address ι → Option (Address ι)
  | 0, _ => none
  | fuel + 1, p =>
      if (h.get p).isNotRoot then do
        let parentPtr ← (h.get p).parentPtr
        if (h.get parentPtr).getChild s = some p then climb s h fuel parentPtr else pure p
      else some p

def next (fuel : Nat) (h : Nodes ι) (node : Address ι) : Option (Option (Address ι)) :=
  match (h.get node).nextPtr with
  | some n => (lastAlong .left h fuel n).map some
  | none => do
      let parentPtr ← (h.get node).parentPtr
      if (h.get parentPtr).prevPtr = some node then
        pure (if (h.get parentPtr).isNotRoot then some parentPtr else none)
      else if (h.get parentPtr).nextPtr = some node then
        let parentPtr ← climb .right h fuel parentPtr
        let nxtPtr ← (h.get parentPtr).parentPtr
        pure (if (h.get nxtPtr).isNotRoot then some nxtPtr else none)
      else pure none

def previous (fuel : Nat) (h : Nodes ι) (node : Address ι) : Option (Option (Address ι)) :=
  match (h.get node).prevPtr with
  | some n => (lastAlong .right h fuel n).map some
  | none => do
      let parentPtr ← (h.get node).parentPtr
      if (h.get parentPtr).nextPtr = some node then pure (some parentPtr)
      else if (h.get parentPtr).prevPtr = some node then
        let parentPtr ← climb .left h fuel parentPtr
        if (h.get parentPtr).isNotRoot then
          let prevPtr ← (h.get parentPtr).parentPtr
          pure (if (h.get prevPtr).isNotRoot then some prevPtr else none)
        else pure none
      else pure none

section Keys

variable [LinearOrder κ] (key : ι → κ)

omit [DecidableEq ι] in
/-- `getKey().compareKey()`. -/
def compareKey (n : Address ι) (k : κ) : Int :=
  match n with
  | .root => -1
  | .item i => if key i < k then -1 else if k < key i then 1 else 0

omit [DecidableEq ι] in
/-- The loop of `find()`. -/
def findLoop (h : Nodes ι) (k : κ) : Nat → Option (Address ι) → Option (Option (Address ι))
  | 0, _ => none
  | _ + 1, none => some none
  | fuel + 1, some n =>
      let comparison := compareKey key n k
      if comparison > 0 then findLoop h k fuel (h.get n).prevPtr
      else if comparison = 0 then some (some n)
      else findLoop h k fuel (h.get n).nextPtr

omit [DecidableEq ι] in
def find (fuel : Nat) (h : Nodes ι) (k : κ) : Option (Option (Address ι)) :=
  findLoop key h k fuel (h.get .root).prevPtr

/-- The first loop of `insert()`, with the room that is left in `comparisons`: the tree with
the new node, its parent and the comparisons, or nothing for a duplicate. -/
def findParent (h : Nodes ι) (newNode : ι) :
    Nat → Address ι → List Int → Option (Option (Nodes ι × Address ι × List Int))
  | 0, _, _ => none
  | room + 1, curPtr, comparisons =>
      let comparison := compareKey key curPtr (key newNode)
      let comparisons := comparison :: comparisons
      if comparison > 0 then
        match (h.get curPtr).prevPtr with
        | none => some (some (setChild h curPtr .left (some (.item newNode)), curPtr, comparisons))
        | some n => findParent h newNode room n comparisons
      else if comparison < 0 then
        match (h.get curPtr).nextPtr with
        | none => some (some (setChild h curPtr .right (some (.item newNode)), curPtr, comparisons))
        | some n => findParent h newNode room n comparisons
      else some none

/-- A pass of the second loop of `insert()`. -/
def checkTaller (h : Nodes ι) (curPtr : Address ι) (comparison : Int) (taller : Bool) :
    Option (Nodes ι × Bool) :=
  if comparison > 0 then
    match (h.get curPtr).balance with
    | .tilted .left => grewLeft h curPtr
    | .even => some (setBalance h curPtr (.tilted .left), true)
    | .tilted .right => some (setBalance h curPtr .even, false)
  else if comparison < 0 then
    match (h.get curPtr).balance with
    | .tilted .left => some (setBalance h curPtr .even, false)
    | .even => some (setBalance h curPtr (.tilted .right), true)
    | .tilted .right => grewRight h curPtr
  else some (h, taller)

/-- The second loop of `insert()`: `while ( depth > 0 && taller )`. -/
def tallerLoop : List Int → Nodes ι → Option (Address ι) → Bool → Option (Nodes ι)
  | [], h, _, _ => some h
  | comparison :: comparisons, h, curPtr, taller => do
      let cur ← curPtr
      let nxtPtr := (h.get cur).parentPtr
      let (h, taller) ← checkTaller h cur comparison taller
      if taller then tallerLoop comparisons h nxtPtr taller else pure h

def insert (t : AvlTree ι) (newNode : ι) : Option (AvlTree ι × Bool) :=
  match (t.nodes.get .root).prevPtr with
  | none => do
      let h := setNode t.nodes (.item newNode) (MapItem.initialized (some .root))
      let h := setChild h .root .left (some (.item newNode))
      let t ← insert_ { t with nodes := h } newNode
      pure (t, true)
  | some curPtr => do
      match ← findParent key t.nodes newNode maxTreeDepth curPtr [] with
      | none => pure (t, false)
      | some (h, curPtr, comparisons) =>
          let h := setNode h (.item newNode) (MapItem.initialized (some curPtr))
          let h ← tallerLoop comparisons h (some curPtr) false
          let t ← insert_ { t with nodes := h } newNode
          pure (t, true)

end Keys

namespace Map

variable [LinearOrder κ] (key : ι → κ)

/-- `Map::remove()`. -/
def remove (fuel : Nat) (t : AvlTree ι) (k : κ) : Option (AvlTree ι × Option (Address ι)) := do
  match ← find key fuel t.nodes k with
  | none => pure (t, none)
  | some node => removeItem fuel t node

/-- `Map::getFirst()`. -/
def getFirst (fuel : Nat) (t : AvlTree ι) : Option (AvlTree ι × Option (Address ι)) := do
  match ← first fuel t.nodes with
  | none => pure (t, none)
  | some node => removeItem fuel t node

/-- `Map::getLast()`. -/
def getLast (fuel : Nat) (t : AvlTree ι) : Option (AvlTree ι × Option (Address ι)) := do
  match ← last fuel t.nodes with
  | none => pure (t, none)
  | some node => removeItem fuel t node

end Map

end ColonyPico.Container.AvlTrees
