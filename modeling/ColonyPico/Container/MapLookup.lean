import ColonyPico.Container.Keys
import ColonyPico.Container.MapRuns

/-!
Lookups in a map whose keys compare by the sign of any `int`: `find()` keeps the low byte of the
result only, `insert()` keeps the sign.
-/

namespace ColonyPico.Container.MapLookup

open ColonyPico.Container.AvlTrees
open ColonyPico.Container.AvlBalance
open ColonyPico.Container.AvlLinks
open ColonyPico.Container.AvlUpdates
open ColonyPico.Container.MapRuns
open ColonyPico.Foundations.BalancedTrees
open ColonyPico.Foundations.BalancedTrees.Shape

variable {ι K κ : Type}

/-- Keys whose `compareKey()` has the sign of a total order: that of their ranks. -/
structure Comparator (K κ : Type) [LinearOrder κ] where
  compareKey : K → K → Int
  rank : K → κ
  isInt : ∀ a b, -2 ^ 31 ≤ compareKey a b ∧ compareKey a b < 2 ^ 31
  neg_iff : ∀ a b, compareKey a b < 0 ↔ rank a < rank b
  pos_iff : ∀ a b, 0 < compareKey a b ↔ rank b < rank a

/-- An `int` as an `int8_t`. -/
def toInt8 (result : Int) : Int :=
  result.bmod 256

section Code

variable [DecidableEq ι] [LinearOrder κ] (cmp : Comparator K κ) (key : ι → K)

omit [DecidableEq ι] in
/-- `getKey().compareKey()`. -/
def compareKey (n : Address ι) (k : K) : Int :=
  match n with
  | .root => -1
  | .item i => cmp.compareKey (key i) k

omit [DecidableEq ι] in
/-- The loop of `find()`. -/
def findLoop (h : Nodes ι) (k : K) : Nat → Option (Address ι) → Option (Option (Address ι))
  | 0, _ => none
  | _ + 1, none => some none
  | fuel + 1, some n =>
      let comparison := toInt8 (compareKey cmp key n k)
      if comparison > 0 then findLoop h k fuel (h.get n).prevPtr
      else if comparison = 0 then some (some n)
      else findLoop h k fuel (h.get n).nextPtr

omit [DecidableEq ι] in
def find (fuel : Nat) (h : Nodes ι) (k : K) : Option (Option (Address ι)) :=
  findLoop cmp key h k fuel (h.get .root).prevPtr

/-- The first loop of `insert()`. -/
def findParent (h : Nodes ι) (newNode : ι) :
    Nat → Address ι → List Int → Option (Option (Nodes ι × Address ι × List Int))
  | 0, _, _ => none
  | room + 1, curPtr, comparisons =>
      let result := compareKey cmp key curPtr (key newNode)
      let comparison : Int := if result < 0 then -1 else if result > 0 then 1 else 0
      let comparisons := comparison :: comparisons
      if comparison > 0 then
        match (h.get curPtr).prevPtr with
        | none => some (some (setChild h curPtr .left (some (.item newNode)), curPtr, comparisons))
        | some n => findParent h newNode room n comparisons
      else if comparison < 0 then
        match (h.get curPtr).nextPtr with
        | none => some (some (setChild h curPtr .right (some (.item newNode)), curPtr, comparisons))
        | some n => findParent h newNode room n comparisons
      else some none

def insert (t : AvlTree ι) (newNode : ι) : Option (AvlTree ι × Bool) :=
  match (t.nodes.get .root).prevPtr with
  | none => do
      let h := setNode t.nodes (.item newNode) (MapItem.initialized (some .root))
      let h := setChild h .root .left (some (.item newNode))
      let t ← insert_ { t with nodes := h } newNode
      pure (t, true)
  | some curPtr => do
      match ← findParent cmp key t.nodes newNode maxTreeDepth curPtr [] with
      | none => pure (t, false)
      | some (h, curPtr, comparisons) =>
          let h := setNode h (.item newNode) (MapItem.initialized (some curPtr))
          let h ← tallerLoop comparisons h (some curPtr) false
          let t ← insert_ { t with nodes := h } newNode
          pure (t, true)

/-- `Map::remove()`. -/
def remove (fuel : Nat) (t : AvlTree ι) (k : K) : Option (AvlTree ι × Option (Address ι)) := do
  match ← find cmp key fuel t.nodes k with
  | none => pure (t, none)
  | some nodePtr => removeItem fuel t nodePtr

/-- A call of the map that may change it. -/
def call (fuel : Nat) (t : AvlTree ι) : Op ι K → Option (AvlTree ι × Result ι)
  | .insert x => (insert cmp key t x).map fun r => (r.1, .done r.2)
  | .remove k => (remove cmp key fuel t k).map fun r => (r.1, .item r.2)
  | .removeItem x =>
      (AvlTrees.removeItem fuel t (.item x)).map fun r => (r.1, .done r.2.isSome)
  | .getFirst => (Map.getFirst fuel t).map fun r => (r.1, .item r.2)
  | .getLast => (Map.getLast fuel t).map fun r => (r.1, .item r.2)

end Code

section Specification

variable [DecidableEq ι] [LinearOrder κ] (cmp : Comparator K κ) (key : ι → K)

/-- The call on the ranks of the keys. -/
def ranked : Op ι K → Op ι κ
  | .insert x => .insert x
  | .remove k => .remove (cmp.rank k)
  | .removeItem x => .removeItem x
  | .getFirst => .getFirst
  | .getLast => .getLast

/-- The item of the set whose key compares equal, or nothing when there is none. -/
def IsLookup (s : Finset ι) (k : K) (p : Option (Address ι)) : Prop :=
  (∃ x ∈ s, cmp.compareKey (key x) k = 0 ∧ p = some (.item x)) ∨
    ((∀ x ∈ s, cmp.compareKey (key x) k ≠ 0) ∧ p = none)

/-- Every key is looked up in the set. -/
def LooksUp (fuel : Nat) (t : AvlTree ι) (s : Finset ι) : Prop :=
  ∀ k, ∃ p, find cmp key fuel t.nodes k = some p ∧ IsLookup cmp key s k p

/-- All lookups between the calls find what is stored, and the calls do to the set of the items what
is predicted, as long as the insertions have room for their comparisons. -/
def FindsStored (fuel : Nat) : List (Op ι K) → AvlTree ι → Finset ι → Prop
  | [], t, s => LooksUp cmp key fuel t s
  | op :: ops, t, s => LooksUp cmp key fuel t s ∧
      ((∀ x, op = .insert x → HasRoom (fun x => cmp.rank (key x)) t x) →
        ∃ t' r s', call cmp key fuel t op = some (t', r) ∧
          Predicts (fun x => cmp.rank (key x)) s (ranked cmp op) s' r ∧ FindsStored fuel ops t' s')

/-- The low byte of a comparison is zero where the keys are equal only, and in the search for a key
of an item it has the sign of the comparison. -/
structure KeepsSign : Prop where
  zero : ∀ x k, toInt8 (cmp.compareKey (key x) k) = 0 → cmp.compareKey (key x) k = 0
  sign : ∀ x y k, cmp.compareKey (key y) k = 0 →
    (toInt8 (cmp.compareKey (key x) k)).sign = (cmp.compareKey (key x) k).sign

end Specification

section Sign

variable [LinearOrder κ] {cmp : Comparator K κ} {key : ι → K}

theorem sign_compareKey (n : Address ι) (k : K) :
    (compareKey cmp key n k).sign =
      AvlTrees.compareKey (fun x => cmp.rank (key x)) n (cmp.rank k) := by
  cases n with
  | root => rfl
  | item x =>
      rw [compareKey, AvlTrees.compareKey]
      rcases lt_trichotomy (cmp.rank (key x)) (cmp.rank k) with hlt | heq | hlt
      · rw [if_pos hlt, Int.sign_eq_neg_one_iff_neg]
        exact (cmp.neg_iff _ _).mpr hlt
      · rw [if_neg heq.not_lt, if_neg heq.not_gt, Int.sign_eq_zero_iff_zero]
        have hneg := (cmp.neg_iff (key x) k).not.mpr heq.not_lt
        have hpos := (cmp.pos_iff (key x) k).not.mpr heq.not_gt
        omega
      · rw [if_neg hlt.not_gt, if_pos hlt, Int.sign_eq_one_iff_pos]
        exact (cmp.pos_iff _ _).mpr hlt

theorem compareKey_eq_zero_iff (a b : K) : cmp.compareKey a b = 0 ↔ cmp.rank a = cmp.rank b := by
  have hneg := cmp.neg_iff a b
  have hpos := cmp.pos_iff a b
  rcases lt_trichotomy (cmp.rank a) (cmp.rank b) with hlt | heq | hlt
  · have hlt' := hneg.mpr hlt
    exact iff_of_false (by omega) hlt.ne
  · have hneg' := hneg.not.mpr heq.not_lt
    have hpos' := hpos.not.mpr heq.not_gt
    exact iff_of_true (by omega) heq
  · have hlt' := hpos.mpr hlt
    exact iff_of_false (by omega) hlt.ne'

theorem kept_sign (result : Int) :
    (if result < 0 then (-1 : Int) else if result > 0 then 1 else 0) = result.sign := by
  rcases lt_trichotomy result 0 with hlt | rfl | hlt
  · rw [if_pos hlt, Int.sign_eq_neg_one_of_neg hlt]
  · rfl
  · rw [if_neg (by omega), if_pos hlt, Int.sign_eq_one_of_pos hlt]

theorem findLoop_congr {h : Nodes ι} {k : K}
    (hsign : ∀ n, (toInt8 (compareKey cmp key n k)).sign =
      AvlTrees.compareKey (fun x => cmp.rank (key x)) n (cmp.rank k)) (fuel : Nat)
    (p : Option (Address ι)) :
    findLoop cmp key h k fuel p =
      AvlTrees.findLoop (fun x => cmp.rank (key x)) h (cmp.rank k) fuel p := by
  induction fuel generalizing p with
  | zero => rfl
  | succ fuel ih =>
      cases p with
      | none => rfl
      | some n =>
          simp only [findLoop, AvlTrees.findLoop, ← hsign, gt_iff_lt, Int.sign_pos_iff,
            Int.sign_eq_zero_iff_zero, ih]

variable [DecidableEq ι]

theorem findParent_eq (h : Nodes ι) (x : ι) (room : Nat) (n : Address ι)
    (comparisons : List Int) :
    findParent cmp key h x room n comparisons =
      AvlTrees.findParent (fun x => cmp.rank (key x)) h x room n comparisons := by
  induction room generalizing n comparisons with
  | zero => rfl
  | succ room ih =>
      have hrest : findParent cmp key h x room =
          AvlTrees.findParent (fun x => cmp.rank (key x)) h x room := by
        funext n comparisons
        exact ih n comparisons
      rw [findParent, kept_sign, sign_compareKey, hrest]
      rfl

theorem insert_eq (t : AvlTree ι) (x : ι) :
    insert cmp key t x = AvlTrees.insert (fun x => cmp.rank (key x)) t x := by
  have hfind : findParent cmp key = AvlTrees.findParent (fun x => cmp.rank (key x)) := by
    funext h x room n comparisons
    exact findParent_eq h x room n comparisons
  rw [insert, hfind]
  rfl

end Sign

section Finds

variable [DecidableEq ι] [LinearOrder κ] {cmp : Comparator K κ} {key : ι → K} {t : AvlTree ι}
  {T : Shape ι} {s : Finset ι} {fuel : Nat}

omit [DecidableEq ι] in
theorem findLoop_absent {h : Nodes ι} {k : K} (hnone : ∀ x, toInt8 (cmp.compareKey (key x) k) ≠ 0)
    {parent : Address ι} (hlinked : Linked h parent T) (hfuel : T.items.length < fuel) :
    findLoop cmp key h k fuel (ptr T) = some none := by
  induction T generalizing parent fuel with
  | nil =>
      obtain ⟨fuel, rfl⟩ := Nat.exists_eq_add_one.mpr (Nat.zero_lt_of_lt hfuel)
      rfl
  | node l a b r ihl ihr =>
      obtain ⟨hitem, hl, hr⟩ := hlinked
      obtain ⟨fuel, rfl⟩ := Nat.exists_eq_add_one.mpr (Nat.zero_lt_of_lt hfuel)
      simp only [items, List.length_append, List.length_cons] at hfuel
      have hleft := ihl hl (show l.items.length < fuel by omega)
      have hfinds := ihr hr (show r.items.length < fuel by omega)
      simp only [ptr_node, findLoop, compareKey, hitem, prevPtr_linked, nextPtr_linked, hleft,
        hfinds, if_neg (hnone a), ite_self]

omit [DecidableEq ι] in
theorem find_eq (hkeeps : KeepsSign cmp key) (hrep : Represents (fun x => cmp.rank (key x)) t T)
    (hfuel : T.items.length < fuel) (k : K) :
    find cmp key fuel t.nodes k =
      AvlTrees.find (fun x => cmp.rank (key x)) fuel t.nodes (cmp.rank k) := by
  rcases Classical.em (∃ y, cmp.compareKey (key y) k = 0) with ⟨y, hy⟩ | hnone
  · refine findLoop_congr (fun n => ?_) fuel _
    rw [← sign_compareKey]
    cases n with
    | root => rfl
    | item x => exact hkeeps.sign x y k hy
  · have hnever : ∀ x, toInt8 (cmp.compareKey (key x) k) ≠ 0 :=
      fun x hx => hnone ⟨x, hkeeps.zero x k hx⟩
    obtain ⟨found, hfind, hsome, -⟩ := find_spec hrep hfuel (cmp.rank k)
    cases found with
    | some x =>
        exact absurd ⟨x, (compareKey_eq_zero_iff _ _).mpr (hsome x rfl).2⟩ hnone
    | none =>
        rw [hfind, find, prevPtr_root hrep.view]
        exact findLoop_absent hnever hrep.view.tree hfuel

omit [DecidableEq ι] in
theorem looksUp_of_keepsSign (hkeeps : KeepsSign cmp key)
    (hrep : Represents (fun x => cmp.rank (key x)) t T) (hs : ∀ x, x ∈ s ↔ x ∈ T.items)
    (hfuel : T.items.length < fuel) : LooksUp cmp key fuel t s := by
  intro k
  obtain ⟨found, hfind, hsome, hnone⟩ := find_spec hrep hfuel (cmp.rank k)
  refine ⟨found.map .item, (find_eq hkeeps hrep hfuel k).trans hfind, ?_⟩
  cases found with
  | some x =>
      obtain ⟨hx, hrank⟩ := hsome x rfl
      exact Or.inl ⟨x, (hs x).mpr hx, (compareKey_eq_zero_iff _ _).mpr hrank, rfl⟩
  | none =>
      refine Or.inr ⟨fun x hx hzero => ?_, rfl⟩
      exact hnone rfl x ((hs x).mp hx) ((compareKey_eq_zero_iff _ _).mp hzero)

theorem call_eq (hkeeps : KeepsSign cmp key) (hrep : Represents (fun x => cmp.rank (key x)) t T)
    (hfuel : T.items.length < fuel) (op : Op ι K) :
    call cmp key fuel t op = MapRuns.call (fun x => cmp.rank (key x)) fuel t (ranked cmp op) := by
  cases op with
  | insert x => rw [call, insert_eq, ranked, MapRuns.call]
  | remove k =>
      rw [call, remove, find_eq hkeeps hrep hfuel]
      rfl
  | removeItem x => rfl
  | getFirst => rfl
  | getLast => rfl

theorem findsStored_of_keepsSign (hkeeps : KeepsSign cmp key) {ops : List (Op ι K)}
    (hrep : Represents (fun x => cmp.rank (key x)) t T) (hs : ∀ x, x ∈ s ↔ x ∈ T.items)
    (hfuel : T.items.length + ops.length < fuel) : FindsStored cmp key fuel ops t s := by
  induction ops generalizing t T s with
  | nil => exact looksUp_of_keepsSign hkeeps hrep hs hfuel
  | cons op ops ih =>
      rw [List.length_cons] at hfuel
      have hlt : T.items.length < fuel := by omega
      refine ⟨looksUp_of_keepsSign hkeeps hrep hs hlt, fun hroom => ?_⟩
      have hroom' : ∀ x, ranked cmp op = .insert x →
          HasRoom (fun x => cmp.rank (key x)) t x := by
        intro x hx
        cases op with
        | insert y => exact hroom x (by injection hx with hx; rw [hx])
        | _ => cases hx
      obtain ⟨t', T', r, s', hcall, hpredicts, hrep', hs', hlen⟩ := call_correct hrep hs hlt hroom'
      exact ⟨t', r, s', (call_eq hkeeps hrep hlt op).trans hcall, hpredicts,
        ih hrep' hs' (by omega)⟩

end Finds

section Small

variable [DecidableEq ι] [LinearOrder κ] {cmp : Comparator K κ} {key : ι → K} {fuel : Nat}

variable (cmp key) in
theorem insert_init (x : ι) : ∃ t : AvlTree ι, insert cmp key AvlTree.init x = some (t, true) ∧
    (t.nodes.get .root).prevPtr = some (.item x) ∧
    t.nodes.get (.item x) = MapItem.initialized (some .root) ∧
    ∀ n, t.inList n = true ↔ n = .item x := by
  refine ⟨_, rfl, ?_, ?_, ?_⟩
  · simp [setChild, setNode, MapItem.setChild]
  · simp [setChild, setNode, MapItem.setChild]
  · intro n
    simp [AvlTree.init, Function.update_apply]

theorem findParent_leaf {h : Nodes ι} {x y : ι}
    (hitem : h.get (.item x) = MapItem.initialized (some .root)) {s : Side}
    (hside : (cmp.compareKey (key x) (key y)).sign = sign s) (room : Nat) :
    findParent cmp key h y (room + 1) (.item x) [] =
      some (some (setChild h (.item x) s (some (.item y)), .item x, [sign s])) := by
  have hsign : (compareKey cmp key (.item x) (key y)).sign = sign s := hside
  simp only [findParent, kept_sign, hsign, hitem]
  cases s with
  | left => simp [sign, MapItem.initialized]
  | right => simp [sign, MapItem.initialized]

theorem tallerLoop_leaf {h : Nodes ι} {n : Address ι} (heven : (h.get n).balance = .even)
    (s : Side) :
    tallerLoop [sign s] h (some n) false = some (setBalance h n (.tilted s)) := by
  cases s with
  | left => simp [tallerLoop, checkTaller, sign, heven]
  | right => simp [tallerLoop, checkTaller, sign, heven]

theorem insert_second {t : AvlTree ι} {x y : ι}
    (hroot : (t.nodes.get .root).prevPtr = some (.item x))
    (hitem : t.nodes.get (.item x) = MapItem.initialized (some .root))
    (hfree : t.inList (.item y) = false) (hxy : x ≠ y) (s : Side)
    (hside : (cmp.compareKey (key x) (key y)).sign = sign s) :
    ∃ t', insert cmp key t y = some (t', true) ∧
      (t'.nodes.get .root).prevPtr = some (.item x) ∧
      (t'.nodes.get (.item x)).getChild s = some (.item y) ∧
      (t'.nodes.get (.item x)).getChild s.other = none := by
  obtain ⟨h, hh⟩ : ∃ h, h = setNode (setChild t.nodes (.item x) s (some (.item y))) (.item y)
      (MapItem.initialized (some (.item x))) := ⟨_, rfl⟩
  have hx : h.get (.item x) =
      (MapItem.initialized (some .root)).setChild s (some (.item y)) := by
    simp [hh, setNode, setChild, hitem, hxy]
  have hkept : h.get .root = t.nodes.get .root := by
    simp [hh, setNode, setChild]
  have hloop : tallerLoop [sign s] h (some (.item x)) false =
      some (setBalance h (.item x) (.tilted s)) := by
    refine tallerLoop_leaf ?_ s
    rw [hx]
    cases s <;> rfl
  refine ⟨⟨setBalance h (.item x) (.tilted s), Function.update t.inList (.item y) true⟩,
    ?_, ?_, ?_, ?_⟩
  · rw [insert, hroot]
    simp only [maxTreeDepth, findParent_leaf hitem hside 31, ← hh, hloop, insert_, hfree,
      Option.bind_eq_bind, Option.bind_some]
    rfl
  · simp [setBalance, setNode, hkept, hroot]
  · simp only [setBalance, setNode, Function.update_self, hx]
    cases s <;> rfl
  · simp only [setBalance, setNode, Function.update_self, hx]
    cases s <;> rfl

omit [DecidableEq ι] in
theorem hasRoom_init (x : ι) : HasRoom (fun x => cmp.rank (key x)) AvlTree.init x :=
  Nat.zero_le _

omit [DecidableEq ι] in
theorem hasRoom_leaf {t : AvlTree ι} {x : ι}
    (hroot : (t.nodes.get .root).prevPtr = some (.item x))
    (hitem : t.nodes.get (.item x) = MapItem.initialized (some .root)) (y : ι) :
    HasRoom (fun x => cmp.rank (key x)) t y := by
  simp only [HasRoom, hroot, maxTreeDepth, comparisonsFor, hitem, MapItem.initialized]
  split_ifs <;> decide

/-- After one insertion, a zero in the low byte finds the item. -/
theorem zero_of_findsStored (x : ι) (hfinds : FindsStored cmp key 2 [.insert x] AvlTree.init ∅)
    {k : K} (hzero : toInt8 (cmp.compareKey (key x) k) = 0) : cmp.compareKey (key x) k = 0 := by
  obtain ⟨t, hinsert, hroot, -, -⟩ := insert_init cmp key x
  obtain ⟨t', r, s', hcall, hpredicts, hlooks⟩ := hfinds.2 fun y _ => hasRoom_init y
  rw [call, hinsert] at hcall
  obtain ⟨rfl, rfl⟩ := Prod.mk.inj (Option.some.inj hcall)
  obtain rfl : s' = {x} := by simpa [Predicts, ranked] using hpredicts
  obtain ⟨p, hfind, hlookup⟩ := hlooks k
  have hmatch : find cmp key 2 t.nodes k = some (some (.item x)) := by
    simp [find, hroot, findLoop, compareKey, hzero]
  rw [hmatch] at hfind
  obtain rfl := Option.some.inj hfind
  rcases hlookup with ⟨y, -, hy, hxy⟩ | ⟨-, hnone⟩
  · injection hxy with hxy
    injection hxy with hxy
    rw [hxy]
    exact hy
  · cases hnone

/-- In a tree of two items, a key of the second one is found at its side of the first one only. -/
theorem sign_of_findsStored (x y : ι)
    (hfinds : FindsStored cmp key 3 [.insert x, .insert y] AvlTree.init ∅) {k : K}
    (hy : cmp.compareKey (key y) k = 0) {s : Side}
    (hside : (cmp.compareKey (key x) k).sign = sign s) :
    (toInt8 (cmp.compareKey (key x) k)).sign = sign s := by
  have hrank : cmp.rank (key y) = cmp.rank k := (compareKey_eq_zero_iff _ _).mp hy
  have hside' : (cmp.compareKey (key x) (key y)).sign = sign s := by
    have hsame : (compareKey cmp key (.item x) (key y)).sign = _ := sign_compareKey _ _
    rw [hrank, ← sign_compareKey] at hsame
    exact hsame.trans hside
  have hne : cmp.compareKey (key x) k ≠ 0 := by
    intro hzero
    rw [hzero] at hside
    cases s <;> cases hside
  have hranks : cmp.rank (key x) ≠ cmp.rank (key y) := fun heq =>
    hne ((compareKey_eq_zero_iff _ _).mpr (heq.trans hrank))
  have hxy : x ≠ y := fun heq => hranks (by rw [heq])
  obtain ⟨t, hinsert, hroot, hitem, hin⟩ := insert_init cmp key x
  obtain ⟨t', r, s', hcall, hpredicts, hrest⟩ := hfinds.2 fun y _ => hasRoom_init y
  rw [call, hinsert] at hcall
  obtain ⟨rfl, rfl⟩ := Prod.mk.inj (Option.some.inj hcall)
  obtain rfl : s' = {x} := by simpa [Predicts, ranked] using hpredicts
  have hfree : t.inList (.item y) = false := by
    rw [Bool.eq_false_iff, ne_eq, hin]
    exact fun heq => hxy (Address.item.inj heq).symm
  obtain ⟨t₂, hinsert₂, hroot₂, hchild, hother⟩ := insert_second hroot hitem hfree hxy s hside'
  obtain ⟨t', r, s', hcall, hpredicts, hlooks⟩ := hrest.2 fun y _ => hasRoom_leaf hroot hitem y
  rw [call, hinsert₂] at hcall
  obtain ⟨rfl, rfl⟩ := Prod.mk.inj (Option.some.inj hcall)
  obtain rfl : s' = {y, x} := by simpa [Predicts, ranked, hranks] using hpredicts
  obtain ⟨p, hfind, hlookup⟩ := hlooks k
  obtain rfl : p = some (.item y) := by
    rcases hlookup with ⟨z, hz, hzero, rfl⟩ | ⟨hnone, -⟩
    · rcases Finset.mem_insert.mp hz with rfl | hz
      · rfl
      · rw [Finset.mem_singleton.mp hz] at hzero
        exact absurd hzero hne
    · exact absurd hy (hnone y (Finset.mem_insert_self _ _))
  simp only [find, hroot₂, findLoop] at hfind
  rcases lt_trichotomy (toInt8 (compareKey cmp key (.item x) k)) 0 with hlow | hlow | hlow
  · rw [if_neg (by omega), if_neg (by omega)] at hfind
    cases s with
    | left =>
        have hend : (t₂.nodes.get (.item x)).nextPtr = none := hother
        rw [hend] at hfind
        cases hfind
    | right => exact Int.sign_eq_neg_one_of_neg hlow
  · rw [if_neg (by omega), if_pos hlow] at hfind
    injection hfind with hfind
    injection hfind with hfind
    injection hfind with hfind
    exact absurd hfind hxy
  · rw [if_pos hlow] at hfind
    cases s with
    | left => exact Int.sign_eq_one_of_pos hlow
    | right =>
        have hend : (t₂.nodes.get (.item x)).prevPtr = none := hother
        rw [hend] at hfind
        cases hfind

end Small

section Lookup

variable [DecidableEq ι] [LinearOrder κ]

/-- Over all runs, every lookup finds what is stored exactly where the low byte of the comparisons
keeps their sign. -/
theorem findsStored_iff (cmp : Comparator K κ) (key : ι → K) :
    (∀ (ops : List (Op ι K)) (fuel : Nat), ops.length < fuel →
      FindsStored cmp key fuel ops AvlTree.init ∅) ↔ KeepsSign cmp key := by
  constructor
  · intro hfinds
    refine ⟨fun x k hzero => zero_of_findsStored x (hfinds _ _ (by simp)) hzero,
      fun x y k hy => ?_⟩
    rcases lt_trichotomy (cmp.compareKey (key x) k) 0 with hlt | hzero | hgt
    · have hsign := Int.sign_eq_neg_one_of_neg hlt
      rw [hsign]
      exact sign_of_findsStored (s := .right) x y (hfinds _ _ (by simp)) hy hsign
    · rw [hzero]
      rfl
    · have hsign := Int.sign_eq_one_of_pos hgt
      rw [hsign]
      exact sign_of_findsStored (s := .left) x y (hfinds _ _ (by simp)) hy hsign
  · intro hkeeps ops fuel hfuel
    exact findsStored_of_keepsSign hkeeps represents_init (by simp) (by simpa using hfuel)

end Lookup

section StringKeys

open ColonyPico.Container.Keys

/-- A key of less than half the range of an `unsigned`. -/
structure ShortKey where
  key : KeyStringBuffer
  m_len_lt : key.m_len < 2 ^ 31

/-- String buffers of such lengths have the sign of a total order. -/
def stringKeys (lib : CLibrary) : Comparator ShortKey (List Nat ×ₗ Nat) :=
  { compareKey := fun a b => KeyStringBuffer.compare lib (some a.key) (some b.key)
    rank := fun a => a.key.rank
    isInt := fun _ _ => KeyStringBuffer.compare_isInt lib _ _
    neg_iff := fun a b => (KeyStringBuffer.sign_of_short lib a.m_len_lt b.m_len_lt).1
    pos_iff := fun a b => (KeyStringBuffer.sign_of_short lib a.m_len_lt b.m_len_lt).2 }

theorem compareKey_stringKeys (lib : CLibrary) (a b : ShortKey) :
    (stringKeys lib).compareKey a b = KeyStringBuffer.compare lib (some a.key) (some b.key) := rfl

theorem toInt8_eq_self {n : Int} (hlow : -128 ≤ n) (hhigh : n < 128) : toInt8 n = n := by
  rw [toInt8, Int.bmod]
  split_ifs <;> omega

variable [LinearOrder κ] {cmp : Comparator K κ} {key : ι → K}

/-- Comparisons that fit into a byte keep their sign. -/
theorem keepsSign_of_byte
    (hbyte : ∀ x k, -128 ≤ cmp.compareKey (key x) k ∧ cmp.compareKey (key x) k < 128) :
    KeepsSign cmp key := by
  have hsame : ∀ x k, toInt8 (cmp.compareKey (key x) k) = cmp.compareKey (key x) k :=
    fun x k => toInt8_eq_self (hbyte x k).1 (hbyte x k).2
  exact ⟨fun x k hzero => (hsame x k).symm.trans hzero, fun x y k _ => by rw [hsame]⟩

/-- A key of 256 letters. -/
def letters (_ : Unit) : ShortKey :=
  ⟨⟨List.replicate 256 97, by rw [List.length_replicate]; decide⟩,
    by rw [KeyStringBuffer.m_len, List.length_replicate]; decide⟩

def noLetters : ShortKey :=
  ⟨⟨[], by decide⟩, by decide⟩

/-- The empty key is found in a map of one key of 256 letters. -/
theorem not_findsStored_letters :
    ¬ FindsStored (stringKeys CLibrary.differences) letters 2 [.insert ()] AvlTree.init ∅ := by
  intro hfinds
  have hagree : (letters ()).key.Agree noLetters.key := Or.inr List.nil_prefix
  have hlength : (letters ()).key.m_len = 256 := List.length_replicate
  have hcompare : (stringKeys CLibrary.differences).compareKey (letters ()) noLetters = 256 := by
    rw [compareKey_stringKeys, KeyStringBuffer.compare_of_agree _ hagree, hlength]
    rfl
  have hzero := zero_of_findsStored () hfinds (k := noLetters) (by rw [hcompare]; decide)
  rw [hcompare] at hzero
  exact absurd hzero (by decide)

end StringKeys

end ColonyPico.Container.MapLookup
