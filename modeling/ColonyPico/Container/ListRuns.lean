import Mathlib.Order.Nat
import ColonyPico.Container.ListRefinement

/-!
Whole runs over singly and doubly linked lists that share their items.
-/

namespace ColonyPico.Container.ListRuns

open ColonyPico.Foundations.IntrusiveLists
open ColonyPico.Foundations.LinkedSegments
open ColonyPico.Container.LinkedLists
open ColonyPico.Container.ListRefinement

section Loops

variable {ι α : Type} [DecidableEq ι] [DecidableEq α] {double kind : ι → Prop}
  {m : Methods ι α} {h : Heap ι α} {l : Lists ι α} {i j : ι}

theorem clearTheList_refines (hm : Implements double kind m) (hk : kind i)
    (hr : Refines double h l) (fuel : Nat) (hfuel : (l.items i).length < fuel) :
    ∃ h', clearTheList m i fuel h = some h' ∧ Refines double h' (l.clear i) := by
  induction fuel generalizing h l with
  | zero => exact absurd hfuel (Nat.not_lt_zero _)
  | succ fuel ih =>
      obtain ⟨hitem, hrefines⟩ := hm.get i hk hr
      obtain ⟨⟨h₁, item⟩, hget⟩ : ∃ res, m.get h i = res := ⟨_, rfl⟩
      rw [hget] at hitem hrefines
      simp only [clearTheList, hget]
      cases hitems : l.items i with
      | nil =>
          simp only [Lists.get, hitems] at hitem hrefines
          subst hitem
          rw [Lists.clear_of_nil hr.wellFormed hitems]
          exact ⟨h₁, rfl, hrefines⟩
      | cons x xs =>
          simp only [Lists.get, hitems] at hitem hrefines
          subst hitem
          have hrest : ((l.remove i x).items i).length < fuel := by
            rw [hitems, List.length_cons] at hfuel
            simp only [Lists.remove, if_pos (Lists.owner_of_cons hr.wellFormed hitems),
              Function.update_self, hitems, List.erase_cons_head]
            omega
          rw [Lists.clear_of_cons hr.wellFormed hitems]
          exact ih hrefines hrest

theorem moveLoop_refines (hm : Implements double kind m) (hi : kind i) (hj : kind j)
    (hij : i ≠ j) (hr : Refines double h l) (fuel : Nat) (hfuel : (l.items i).length < fuel) :
    ∃ h', moveLoop m i j fuel h = some h' ∧ Refines double h' (l.transfer i j) := by
  induction fuel generalizing h l with
  | zero => exact absurd hfuel (Nat.not_lt_zero _)
  | succ fuel ih =>
      obtain ⟨hitem, hrefines⟩ := hm.get i hi hr
      obtain ⟨⟨h₁, item⟩, hget⟩ : ∃ res, m.get h i = res := ⟨_, rfl⟩
      rw [hget] at hitem hrefines
      simp only [moveLoop, hget]
      cases hitems : l.items i with
      | nil =>
          simp only [Lists.get, hitems] at hitem hrefines
          subst hitem
          rw [Lists.transfer_of_nil hr.wellFormed hitems]
          exact ⟨h₁, rfl, hrefines⟩
      | cons x xs =>
          simp only [Lists.get, hitems] at hitem hrefines
          subst hitem
          have howner := Lists.owner_of_cons hr.wellFormed hitems
          have hfree : (l.remove i x).owner x = none := by
            rw [(Lists.remove_of_owned hr.wellFormed howner).2.2, Function.update_self]
          obtain ⟨h₂, hput, hrefines⟩ := hm.put j x hj hrefines
          have hrest : (((l.remove i x).put j x).items i).length < fuel := by
            rw [hitems, List.length_cons] at hfuel
            simp only [Lists.put, hfree, Function.update_of_ne hij]
            simp only [Lists.remove, if_pos howner, Function.update_self, hitems,
              List.erase_cons_head]
            omega
          rw [Lists.transfer_of_cons hr.wellFormed hij hitems]
          simp only [hput]
          exact ih hrefines hrest

theorem move_refines (hm : Implements double kind m) (hi : kind i) (hj : kind j)
    (hr : Refines double h l) (fuel : Nat) (hfuel : ∀ k, (l.items k).length < fuel) :
    ∃ h', move m fuel h i j = some h' ∧ Refines double h' (l.move i j) := by
  obtain ⟨h₁, hclear, hcleared⟩ := clearTheList_refines hm hj hr fuel (hfuel j)
  simp only [move, hclear, Lists.move, Option.bind_eq_bind, Option.bind_some]
  have hrest : ((l.clear j).items i).length < fuel := by
    by_cases hij : i = j
    · subst hij
      simp only [Lists.clear, Function.update_self, List.length_nil]
      exact Nat.zero_lt_of_lt (hfuel i)
    · simp only [Lists.clear, Function.update_of_ne hij]
      exact hfuel i
  by_cases hij : i = j
  · subst hij
    have hnil : (l.clear i).items i = [] := by simp [Lists.clear]
    obtain ⟨hitem, hrefines⟩ := hm.get i hi hcleared
    obtain ⟨⟨h₂, item⟩, hget⟩ : ∃ res, m.get h₁ i = res := ⟨_, rfl⟩
    rw [hget, Lists.get, hnil] at hitem hrefines
    cases fuel with
    | zero => exact absurd (hfuel i) (Nat.not_lt_zero _)
    | succ fuel =>
        simp only at hitem hrefines
        subst hitem
        rw [Lists.transfer_of_nil hcleared.wellFormed hnil]
        exact ⟨h₂, by simp only [moveLoop, hget], hrefines⟩
  · exact moveLoop_refines hm hi hj hij hcleared fuel hrest

end Loops

/-- What is called on a list. -/
inductive ListOp (ι α : Type) where
  | get
  | getLast
  | put (item : α)
  | putFirst (item : α)
  | remove (item : α)
  | insertAfter (after item : α)
  | insertBefore (before item : α)
  | move (dst : ι)
  | clearTheList
  | first
  | last
  | next (cur : α)
  | find (item : α)
  deriving DecidableEq, Repr

/-- What a call returns. The insertions of the C port return whether the item could be
inserted. -/
inductive Returned (α : Type) where
  | item (item : Option α)
  | flag (ok : Bool)
  | nothing
  deriving DecidableEq, Repr

namespace ListOp

variable {ι κ α : Type}

/-- The same call where lists have other names. -/
def map (f : ι → κ) : ListOp ι α → ListOp κ α
  | .get => .get
  | .getLast => .getLast
  | .put item => .put item
  | .putFirst item => .putFirst item
  | .remove item => .remove item
  | .insertAfter after item => .insertAfter after item
  | .insertBefore before item => .insertBefore before item
  | .move dst => .move (f dst)
  | .clearTheList => .clearTheList
  | .first => .first
  | .last => .last
  | .next cur => .next cur
  | .find item => .find item

/-- The anchor is in the list. -/
def Anchored (l : Lists ι α) (list : ι) : ListOp ι α → Prop
  | .insertAfter after _ => after ∈ l.items list
  | .insertBefore before _ => before ∈ l.items list
  | .next cur => cur ∈ l.items list
  | _ => True

instance [DecidableEq α] (l : Lists ι α) (list : ι) (op : ListOp ι α) :
    Decidable (op.Anchored l list) :=
  match op with
  | .insertAfter after _ => inferInstanceAs (Decidable (after ∈ l.items list))
  | .insertBefore before _ => inferInstanceAs (Decidable (before ∈ l.items list))
  | .next cur => inferInstanceAs (Decidable (cur ∈ l.items list))
  | .get | .getLast | .put _ | .putFirst _ | .remove _ | .move _ | .clearTheList | .first | .last
  | .find _ => .isTrue trivial

/-- A list is moved to one of the same class. -/
def Typed (kind : ι → Prop) : ListOp ι α → Prop
  | .move dst => kind dst
  | _ => True

variable [DecidableEq ι] [DecidableEq α]

/-- The call on the heap. -/
def call (m : Methods ι α) (fuel : Nat) (h : Heap ι α) (list : ι) :
    ListOp ι α → Option (Heap ι α × Returned α)
  | .get => some ((m.get h list).1, .item (m.get h list).2)
  | .getLast => (m.getLast fuel h list).map fun res => (res.1, .item res.2)
  | .put item => (m.put h list item).map fun res => (res.1, .flag res.2)
  | .putFirst item => some ((m.putFirst h list item).1, .flag (m.putFirst h list item).2)
  | .remove item => (m.remove fuel h list item).map fun res => (res.1, .flag res.2)
  | .insertAfter after item =>
      some ((m.insertAfter h list after item).1, .flag (m.insertAfter h list after item).2)
  | .insertBefore before item =>
      (m.insertBefore fuel h list before item).map fun res => (res.1, .flag res.2)
  | .move dst => (LinkedLists.move m fuel h list dst).map fun h => (h, .nothing)
  | .clearTheList => (LinkedLists.clearTheList m list fuel h).map fun h => (h, .nothing)
  | .first => some (h, .item (LinkedLists.first h list))
  | .last => some (h, .item (LinkedLists.last h list))
  | .next cur => some (h, .item (LinkedLists.next h cur))
  | .find item => some (h, .flag (isInContainer_ h list item))

/-- The call on the sequences. -/
def apply (l : Lists ι α) (list : ι) : ListOp ι α → Lists ι α × Returned α
  | .get => ((l.get list).2, .item (l.items list).head?)
  | .getLast => ((l.getLast list).2, .item (l.items list).getLast?)
  | .put item => (l.put list item, .flag (l.owner item = none))
  | .putFirst item => (l.insertWith list item (item :: ·), .flag (l.owner item = none))
  | .remove item => (l.remove list item, .flag (item ∈ l.items list))
  | .insertAfter after item =>
      (l.insertWith list item (Foundations.IntrusiveLists.insertAfter after item),
        .flag (l.owner item = none))
  | .insertBefore before item =>
      (l.insertWith list item (Foundations.IntrusiveLists.insertBefore before item),
        .flag (l.owner item = none))
  | .move dst => (l.move list dst, .nothing)
  | .clearTheList => (l.clear list, .nothing)
  | .first => (l, .item (l.items list).head?)
  | .last => (l, .item (l.items list).getLast?)
  | .next cur => (l, .item (follower cur (l.items list)))
  | .find item => (l, .flag (item ∈ l.items list))

variable {double kind : ι → Prop} {m : Methods ι α} {h : Heap ι α} {l : Lists ι α} {list : ι}

theorem call_refines (hm : Implements double kind m) (hk : kind list) (op : ListOp ι α)
    (htyped : op.Typed kind) (hanchored : op.Anchored l list) (hr : Refines double h l)
    (fuel : Nat) (hfuel : ∀ k, (l.items k).length < fuel) :
    ∃ h', op.call m fuel h list = some (h', (op.apply l list).2) ∧
      Refines double h' (op.apply l list).1 := by
  cases op with
  | get =>
      obtain ⟨hitem, hrefines⟩ := hm.get list hk hr
      refine ⟨(m.get h list).1, ?_, hrefines⟩
      simp only [call, apply, hitem, Lists.get]
      cases l.items list <;> rfl
  | getLast =>
      obtain ⟨h', hcall, hrefines⟩ := hm.getLast list fuel hk hr (hfuel list)
      refine ⟨h', ?_, hrefines⟩
      simp only [call, apply, hcall, Option.map_some, Lists.getLast]
      cases (l.items list).getLast? <;> rfl
  | put item =>
      obtain ⟨h', hcall, hrefines⟩ := hm.put list item hk hr
      exact ⟨h', by simp only [call, apply, hcall, Option.map_some], hrefines⟩
  | putFirst item =>
      obtain ⟨hok, hrefines⟩ := hm.putFirst list item hk hr
      exact ⟨_, by simp only [call, apply, hok], hrefines⟩
  | remove item =>
      obtain ⟨h', hcall, hrefines⟩ := hm.remove list item fuel hk hr (hfuel list)
      exact ⟨h', by simp only [call, apply, hcall, Option.map_some], hrefines⟩
  | insertAfter after item =>
      obtain ⟨hok, hrefines⟩ := hm.insertAfter list after item hk hr hanchored
      exact ⟨_, by simp only [call, apply, hok], hrefines⟩
  | insertBefore before item =>
      obtain ⟨h', hcall, hrefines⟩ :=
        hm.insertBefore list before item fuel hk hr hanchored (hfuel list)
      exact ⟨h', by simp only [call, apply, hcall, Option.map_some], hrefines⟩
  | move dst =>
      obtain ⟨h', hcall, hrefines⟩ := move_refines hm hk htyped hr fuel hfuel
      exact ⟨h', by simp only [call, apply, hcall, Option.map_some], hrefines⟩
  | clearTheList =>
      obtain ⟨h', hcall, hrefines⟩ := clearTheList_refines hm hk hr fuel (hfuel list)
      exact ⟨h', by simp only [call, apply, hcall, Option.map_some], hrefines⟩
  | first => exact ⟨h, by simp only [call, apply, LinkedLists.first, headPtr_eq hr], hr⟩
  | last => exact ⟨h, by simp only [call, apply, LinkedLists.last, (hr.links list).tail], hr⟩
  | next cur =>
      obtain ⟨us, vs, hitems, hnot⟩ := split_of_mem hr hanchored
      refine ⟨h, ?_, hr⟩
      simp only [call, apply, LinkedLists.next, nextPtr_eq hr hitems, hitems,
        follower_middle hnot]
  | find item =>
      refine ⟨h, ?_, hr⟩
      simp only [call, apply, isInContainer_, hr.owner, hr.wellFormed.mem_iff]

omit [DecidableEq ι] in
theorem length_insertAfter_le (a x : α) (xs : List α) :
    (Foundations.IntrusiveLists.insertAfter a x xs).length ≤ xs.length + 1 := by
  induction xs with
  | nil => exact Nat.zero_le _
  | cons y ys ih =>
      rw [Foundations.IntrusiveLists.insertAfter]
      split_ifs
      · exact le_rfl
      · exact Nat.succ_le_succ ih

omit [DecidableEq ι] in
theorem length_insertBefore_le (b x : α) (xs : List α) :
    (Foundations.IntrusiveLists.insertBefore b x xs).length ≤ xs.length + 1 := by
  induction xs with
  | nil => exact Nat.zero_le _
  | cons y ys ih =>
      rw [Foundations.IntrusiveLists.insertBefore]
      split_ifs
      · exact le_rfl
      · exact Nat.succ_le_succ ih

/-- No list holds more than `n` items. -/
def Bounded (n : Nat) (l : Lists ι α) : Prop :=
  ∀ i, (l.items i).length ≤ n

theorem bounded_insertWith {n : Nat} (hn : Bounded n l) (i : ι) (x : α) (place : List α → List α)
    (hplace : ∀ xs, (place xs).length ≤ xs.length + 1) :
    Bounded (n + 1) (l.insertWith i x place) := by
  intro j
  have hj := hn j
  rw [Lists.insertWith]
  split
  · exact Nat.le_succ_of_le hj
  · by_cases heq : j = i
    · subst heq
      simp only [Function.update_self]
      exact (hplace _).trans (Nat.succ_le_succ hj)
    · simp only [Function.update_of_ne heq]
      exact Nat.le_succ_of_le hj

theorem bounded_remove {n : Nat} (hn : Bounded n l) (i : ι) (x : α) :
    Bounded n (l.remove i x) := by
  intro j
  rw [Lists.remove]
  split_ifs
  · by_cases heq : j = i
    · subst heq
      simp only [Function.update_self]
      exact (List.length_erase_le).trans (hn j)
    · simp only [Function.update_of_ne heq]
      exact hn j
  · exact hn j

omit [DecidableEq α] in
theorem bounded_clear {n : Nat} (hn : Bounded n l) (i : ι) : Bounded n (l.clear i) := by
  intro j
  by_cases heq : j = i
  · subst heq
    simp [Lists.clear]
  · simp only [Lists.clear, Function.update_of_ne heq]
    exact hn j

omit [DecidableEq α] in
theorem bounded_move {n : Nat} (hn : Bounded n l) (i j : ι) : Bounded n (l.move i j) := by
  have hclear := bounded_clear hn j
  intro k
  rw [Lists.move, Lists.transfer]
  by_cases hk : k = j
  · subst hk
    simp only [Function.update_self]
    have hnil : (l.clear k).items k = [] := by simp [Lists.clear]
    rw [hnil, List.nil_append]
    exact hclear i
  · simp only [Function.update_of_ne hk]
    by_cases hk' : k = i
    · subst hk'
      simp
    · simp only [Function.update_of_ne hk']
      exact hclear k

theorem bounded_apply {n : Nat} (hn : Bounded n l) (op : ListOp ι α) :
    Bounded (n + 1) (op.apply l list).1 := by
  have hle : Bounded (n + 1) l := fun i => Nat.le_succ_of_le (hn i)
  cases op with
  | get =>
      simp only [apply, Lists.get]
      split
      · exact hle
      · exact bounded_remove hle list _
  | getLast =>
      simp only [apply, Lists.getLast]
      split
      · exact hle
      · exact bounded_remove hle list _
  | put item =>
      exact bounded_insertWith hn list item (· ++ [item]) fun xs => List.length_append.le
  | putFirst item => exact bounded_insertWith hn list item (item :: ·) fun xs => le_rfl
  | remove item => exact bounded_remove hle list item
  | insertAfter after item =>
      exact bounded_insertWith hn list item _ (length_insertAfter_le after item)
  | insertBefore before item =>
      exact bounded_insertWith hn list item _ (length_insertBefore_le before item)
  | move dst => exact bounded_move hle list dst
  | clearTheList => exact bounded_clear hle list
  | first | last | next _ | find _ => exact hle

end ListOp

/-- What is called in a program with lists of both classes. -/
inductive Op (δ σ α : Type) where
  | dlist (list : δ) (op : ListOp δ α)
  | slist (list : σ) (op : ListOp σ α)
  | previous (list : δ) (cur : α)
  deriving DecidableEq, Repr

section Runs

variable {δ σ α : Type}

/-- The doubly linked lists. -/
def Double (list : δ ⊕ σ) : Prop :=
  list.isLeft = true

/-- The anchor of a call is in its list. -/
def Op.Anchored (l : Lists (δ ⊕ σ) α) : Op δ σ α → Prop
  | .dlist list op => (op.map Sum.inl).Anchored l (.inl list)
  | .slist list op => (op.map Sum.inr).Anchored l (.inr list)
  | .previous list cur => cur ∈ l.items (.inl list)

instance [DecidableEq α] (l : Lists (δ ⊕ σ) α) (op : Op δ σ α) : Decidable (op.Anchored l) :=
  match op with
  | .dlist list op => inferInstanceAs (Decidable ((op.map Sum.inl).Anchored l (.inl list)))
  | .slist list op => inferInstanceAs (Decidable ((op.map Sum.inr).Anchored l (.inr list)))
  | .previous list cur => inferInstanceAs (Decidable (cur ∈ l.items (.inl list)))

variable [DecidableEq δ] [DecidableEq σ] [DecidableEq α]

def Op.call (fuel : Nat) (h : Heap (δ ⊕ σ) α) :
    Op δ σ α → Option (Heap (δ ⊕ σ) α × Returned α)
  | .dlist list op => (op.map Sum.inl).call DList.methods fuel h (.inl list)
  | .slist list op => (op.map Sum.inr).call SList.methods fuel h (.inr list)
  | .previous _ cur => some (h, .item (LinkedLists.previous h cur))

def Op.apply (l : Lists (δ ⊕ σ) α) : Op δ σ α → Lists (δ ⊕ σ) α × Returned α
  | .dlist list op => (op.map Sum.inl).apply l (.inl list)
  | .slist list op => (op.map Sum.inr).apply l (.inr list)
  | .previous list cur => (l, .item (follower cur (l.items (.inl list)).reverse))

/-- The calls of a run on the heap, one after the other, and what they return. -/
def run (fuel : Nat) : Heap (δ ⊕ σ) α → List (Op δ σ α) →
    Option (Heap (δ ⊕ σ) α × List (Returned α))
  | h, [] => some (h, [])
  | h, op :: ops => do
      let (h, returned) ← op.call fuel h
      let (h, rest) ← run fuel h ops
      pure (h, returned :: rest)

/-- The calls of a run on the sequences. -/
def model : Lists (δ ⊕ σ) α → List (Op δ σ α) → Lists (δ ⊕ σ) α × List (Returned α)
  | l, [] => (l, [])
  | l, op :: ops => ((model (op.apply l).1 ops).1, (op.apply l).2 :: (model (op.apply l).1 ops).2)

/-- The anchors of a run are in their lists when they are used. -/
def AllAnchored : Lists (δ ⊕ σ) α → List (Op δ σ α) → Prop
  | _, [] => True
  | l, op :: ops => op.Anchored l ∧ AllAnchored (op.apply l).1 ops

instance decidableAllAnchored :
    (l : Lists (δ ⊕ σ) α) → (ops : List (Op δ σ α)) → Decidable (AllAnchored l ops)
  | _, [] => .isTrue trivial
  | l, op :: ops =>
      have := decidableAllAnchored (op.apply l).1 ops
      inferInstanceAs (Decidable (op.Anchored l ∧ AllAnchored (op.apply l).1 ops))

omit [DecidableEq α] in
theorem typed_map {ι κ : Type} (f : ι → κ) {kind : κ → Prop} (hf : ∀ i, kind (f i))
    (op : ListOp ι α) : (op.map f).Typed kind := by
  cases op with
  | move dst => exact hf dst
  | _ => exact trivial

theorem call_refines {h : Heap (δ ⊕ σ) α} {l : Lists (δ ⊕ σ) α} (op : Op δ σ α)
    (hanchored : op.Anchored l) (hr : Refines Double h l) (fuel : Nat)
    (hfuel : ∀ k, (l.items k).length < fuel) :
    ∃ h', op.call fuel h = some (h', (op.apply l).2) ∧ Refines Double h' (op.apply l).1 := by
  cases op with
  | dlist list op =>
      have hkind : ∀ i, Double (.inl i : δ ⊕ σ) := fun _ => rfl
      exact ListOp.call_refines implements_dlist (hkind list) _ (typed_map _ hkind op) hanchored hr
        fuel hfuel
  | slist list op =>
      have hkind : ∀ i, ¬ Double (.inr i : δ ⊕ σ) := fun _ => Bool.false_ne_true
      exact ListOp.call_refines implements_slist (hkind list) _ (typed_map Sum.inr hkind op)
        hanchored hr fuel hfuel
  | previous list cur =>
      obtain ⟨us, vs, hitems, hnot⟩ := split_of_mem hr hanchored
      have hdouble : Double (.inl list : δ ⊕ σ) := rfl
      have hnodup := hr.wellFormed.nodup (.inl list)
      rw [hitems, List.nodup_middle, List.nodup_cons, List.mem_append, not_or] at hnodup
      have hvs : cur ∉ vs.reverse := fun hmem => hnodup.1.2 (List.mem_reverse.mp hmem)
      refine ⟨h, ?_, hr⟩
      simp only [Op.call, Op.apply, LinkedLists.previous, prevPtr_eq hr hdouble hitems, hitems,
        reverse_middle, follower_middle hvs, List.head?_reverse]

theorem bounded_apply {n : Nat} {l : Lists (δ ⊕ σ) α} (hn : ListOp.Bounded n l)
    (op : Op δ σ α) : ListOp.Bounded (n + 1) (op.apply l).1 := by
  cases op with
  | dlist list op => exact ListOp.bounded_apply hn _
  | slist list op => exact ListOp.bounded_apply hn _
  | previous list cur => exact fun i => Nat.le_succ_of_le (hn i)

theorem run_refines {h : Heap (δ ⊕ σ) α} {l : Lists (δ ⊕ σ) α} (ops : List (Op δ σ α))
    (hanchored : AllAnchored l ops) (hr : Refines Double h l) {n : Nat}
    (hn : ListOp.Bounded n l) (fuel : Nat) (hfuel : n + ops.length < fuel) :
    ∃ h', run fuel h ops = some (h', (model l ops).2) ∧ Refines Double h' (model l ops).1 := by
  induction ops generalizing h l n with
  | nil => exact ⟨h, rfl, hr⟩
  | cons op ops ih =>
      rw [List.length_cons] at hfuel
      obtain ⟨h₁, hcall, hrefines⟩ := call_refines op hanchored.1 hr fuel
        fun k => lt_of_le_of_lt (hn k) (by omega)
      have hbounded := bounded_apply hn op
      obtain ⟨h₂, hrun, hrefines₂⟩ := ih hanchored.2 hrefines hbounded (by omega)
      refine ⟨h₂, ?_, hrefines₂⟩
      simp only [run, hcall, hrun, Option.bind_eq_bind, Option.bind_some]
      rfl

omit [DecidableEq δ] [DecidableEq σ] [DecidableEq α] in
theorem refines_init : Refines Double (Heap.init : Heap (δ ⊕ σ) α) Lists.empty :=
  ⟨Lists.wellFormed_empty, rfl, rfl, fun _ => ⟨rfl, rfl, fun _ => rfl⟩⟩

/-- What the lists of a heap hold. -/
structure Holds (h : Heap (δ ⊕ σ) α) (list : δ ⊕ σ) (xs : List α) : Prop where
  forward : Segment h.nextPtr (h.headPtr list) xs none
  backward : Double list → Segment h.prevPtr (h.tailPtr list) xs.reverse none
  head : h.headPtr list = none ↔ xs = []
  tail : h.tailPtr list = none ↔ xs = []
  marked : ∀ x, x ∈ xs ↔ h.inListPtr x = some list
  nodup : xs.Nodup

omit [DecidableEq δ] [DecidableEq σ] [DecidableEq α] in
theorem holds_of_refines {h : Heap (δ ⊕ σ) α} {l : Lists (δ ⊕ σ) α} (hr : Refines Double h l)
    (list : δ ⊕ σ) : Holds h list (l.items list) := by
  refine ⟨(hr.links list).forward, (hr.links list).backward, ?_, ?_, fun x => ?_,
    hr.wellFormed.nodup list⟩
  · rw [headPtr_eq hr, List.head?_eq_none_iff]
  · rw [(hr.links list).tail, List.getLast?_eq_none_iff]
  · rw [hr.owner]
    exact hr.wellFormed.mem_iff list x

/-- Every run of calls ends, returns what it returns on sequences, and leaves lists that
hold the sequences. -/
theorem lists_hold_sequences (ops : List (Op δ σ α)) (hanchored : AllAnchored Lists.empty ops)
    (fuel : Nat) (hfuel : ops.length < fuel) :
    ∃ h, run fuel Heap.init ops = some (h, (model Lists.empty ops).2) ∧
      ∀ list, Holds h list ((model Lists.empty ops).1.items list) := by
  obtain ⟨h, hrun, hrefines⟩ := run_refines ops hanchored refines_init
    (fun _ => Nat.le_refl 0) fuel (by omega)
  exact ⟨h, hrun, holds_of_refines hrefines⟩

/-- Two doubly linked lists and a singly linked one with three items. The first item is
refused by the singly linked list while it is in another one. -/
theorem lists_hold_sequences_three :
    ∃ h, run 8 Heap.init [.dlist 0 (.put 1), .dlist 0 (.put 3), .dlist 0 (.insertBefore 3 2),
        .dlist 0 (.move 1), .slist 0 (.put 1), .dlist 1 (.remove 2), .slist 0 (.putFirst 2)] =
          some (h, [.flag true, .flag true, .flag true, .nothing, .flag false, .flag true,
            .flag true]) ∧
      Holds h (.inl 1 : Nat ⊕ Nat) [1, 3] ∧ Holds h (.inr 0 : Nat ⊕ Nat) [2] := by
  obtain ⟨h, hrun, hholds⟩ := lists_hold_sequences (δ := Nat) (σ := Nat) (α := Nat)
    [.dlist 0 (.put 1), .dlist 0 (.put 3), .dlist 0 (.insertBefore 3 2), .dlist 0 (.move 1),
      .slist 0 (.put 1), .dlist 1 (.remove 2), .slist 0 (.putFirst 2)]
    (by decide) 8 (by decide)
  exact ⟨h, hrun, hholds (.inl 1), hholds (.inr 0)⟩

end Runs

end ColonyPico.Container.ListRuns
