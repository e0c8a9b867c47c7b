import Mathlib.Data.List.Nodup
import Mathlib.Logic.Function.Basic
import Mathlib.Tactic.SplitIfs

/-!
Lists that share their items, each item knowing the list it is in.
-/

namespace ColonyPico.Foundations.IntrusiveLists

section Sequences

variable {α : Type} [DecidableEq α]

/-- Insert `x` after the first `a`. -/
def insertAfter (a x : α) : List α → List α
  | [] => []
  | y :: ys => if y = a then y :: x :: ys else y :: insertAfter a x ys

/-- Insert `x` before the first `b`. -/
def insertBefore (b x : α) : List α → List α
  | [] => []
  | y :: ys => if y = b then x :: y :: ys else y :: insertBefore b x ys

/-- What follows the first `a`. -/
def follower (a : α) : List α → Option α
  | [] => none
  | y :: ys => if y = a then ys.head? else follower a ys

variable {a x : α} {us : List α}

theorem insertAfter_middle (ha : a ∉ us) (vs : List α) :
    insertAfter a x (us ++ a :: vs) = us ++ a :: x :: vs := by
  induction us with
  | nil => simp [insertAfter]
  | cons u us ih =>
      rw [List.mem_cons, not_or] at ha
      rw [List.cons_append, insertAfter, if_neg (Ne.symm ha.1), ih ha.2, List.cons_append]

theorem insertBefore_middle (ha : a ∉ us) (vs : List α) :
    insertBefore a x (us ++ a :: vs) = us ++ x :: a :: vs := by
  induction us with
  | nil => simp [insertBefore]
  | cons u us ih =>
      rw [List.mem_cons, not_or] at ha
      rw [List.cons_append, insertBefore, if_neg (Ne.symm ha.1), ih ha.2, List.cons_append]

theorem follower_middle (ha : a ∉ us) (vs : List α) :
    follower a (us ++ a :: vs) = vs.head? := by
  induction us with
  | nil => simp [follower]
  | cons u us ih =>
      rw [List.mem_cons, not_or] at ha
      rw [List.cons_append, follower, if_neg (Ne.symm ha.1), ih ha.2]

theorem erase_middle (ha : a ∉ us) (vs : List α) : (us ++ a :: vs).erase a = us ++ vs := by
  rw [List.erase_append_right _ ha, List.erase_cons_head]

end Sequences

/-- A family of lists. An item that is inserted while it is in a list is an error. -/
structure Lists (ι α : Type) where
  items : ι → List α
  owner : α → Option ι
  error : Bool

namespace Lists

variable {ι α : Type} [DecidableEq ι] [DecidableEq α]

def empty : Lists ι α :=
  { items := fun _ => [], owner := fun _ => none, error := false }

/-- An item that is in no list goes to its place in one. -/
def insertWith (l : Lists ι α) (i : ι) (x : α) (place : List α → List α) : Lists ι α :=
  match l.owner x with
  | some _ => { l with error := true }
  | none =>
      { l with
        items := Function.update l.items i (place (l.items i))
        owner := Function.update l.owner x (some i) }

def put (l : Lists ι α) (i : ι) (x : α) : Lists ι α :=
  match l.owner x with
  | some _ => { l with error := true }
  | none =>
      { l with
        items := Function.update l.items i (l.items i ++ [x])
        owner := Function.update l.owner x (some i) }

def remove (l : Lists ι α) (i : ι) (x : α) : Lists ι α :=
  if l.owner x = some i then
    { l with
      items := Function.update l.items i ((l.items i).erase x)
      owner := Function.update l.owner x none }
  else l

def get (l : Lists ι α) (i : ι) : Option α × Lists ι α :=
  match l.items i with
  | [] => (none, l)
  | x :: _ => (some x, l.remove i x)

def getLast (l : Lists ι α) (i : ι) : Option α × Lists ι α :=
  match (l.items i).getLast? with
  | none => (none, l)
  | some x => (some x, l.remove i x)

def clear (l : Lists ι α) (i : ι) : Lists ι α :=
  { l with
    items := Function.update l.items i []
    owner := fun x => if l.owner x = some i then none else l.owner x }

/-- All items of one list go to the end of another. -/
def transfer (l : Lists ι α) (i j : ι) : Lists ι α :=
  { l with
    items := Function.update (Function.update l.items i []) j (l.items j ++ l.items i)
    owner := fun x => if l.owner x = some i then some j else l.owner x }

/-- The content of a list replaces that of another. -/
def move (l : Lists ι α) (i j : ι) : Lists ι α :=
  (l.clear j).transfer i j

omit [DecidableEq ι] [DecidableEq α] in
/-- The items of a list are those that know it, once each. -/
structure WellFormed (l : Lists ι α) : Prop where
  mem_iff : ∀ i x, x ∈ l.items i ↔ l.owner x = some i
  nodup : ∀ i, (l.items i).Nodup

omit [DecidableEq ι] [DecidableEq α] in
theorem wellFormed_empty : (empty : Lists ι α).WellFormed :=
  ⟨fun i x => by simp [empty], fun i => List.nodup_nil⟩

omit [DecidableEq ι] in
theorem count_items {l : Lists ι α} (h : l.WellFormed) (i : ι) (x : α)
    [Decidable (l.owner x = some i)] :
    (l.items i).count x = if l.owner x = some i then 1 else 0 := by
  split_ifs with howner
  · exact List.count_eq_one_of_mem (h.nodup i) ((h.mem_iff i x).mpr howner)
  · exact List.count_eq_zero_of_not_mem fun hmem => howner ((h.mem_iff i x).mp hmem)

theorem insertWith_of_free {l : Lists ι α} (h : l.WellFormed) {x : α} (hfree : l.owner x = none)
    (i : ι) (place : List α → List α) (hplace : (place (l.items i)).Perm (x :: l.items i)) :
    (l.insertWith i x place).WellFormed ∧ (l.insertWith i x place).error = l.error ∧
      (l.insertWith i x place).owner = Function.update l.owner x (some i) := by
  have hnot : x ∉ l.items i := fun hmem => by
    rw [h.mem_iff, hfree] at hmem
    cases hmem
  simp only [insertWith, hfree]
  refine ⟨⟨fun j y => ?_, fun j => ?_⟩, trivial, trivial⟩
  · by_cases hj : j = i
    · subst hj
      by_cases hy : y = x
      · simp [hy, hplace.mem_iff]
      · simp [hy, hplace.mem_iff, h.mem_iff]
    · by_cases hy : y = x
      · subst hy
        simp [hj, Ne.symm hj, h.mem_iff, hfree]
      · simp [hj, hy, h.mem_iff]
  · by_cases hj : j = i
    · subst hj
      simp only [Function.update_self]
      exact hplace.nodup_iff.mpr (List.nodup_cons.mpr ⟨hnot, h.nodup j⟩)
    · simp only [Function.update_of_ne hj]
      exact h.nodup j

theorem put_of_free {l : Lists ι α} (h : l.WellFormed) {x : α} (hfree : l.owner x = none)
    (i : ι) :
    (l.put i x).WellFormed ∧ (l.put i x).error = l.error ∧
      (l.put i x).owner = Function.update l.owner x (some i) :=
  insertWith_of_free h hfree i (· ++ [x]) List.perm_append_comm

theorem remove_of_owned {l : Lists ι α} (h : l.WellFormed) {i : ι} {x : α}
    (howner : l.owner x = some i) :
    (l.remove i x).WellFormed ∧ (l.remove i x).error = l.error ∧
      (l.remove i x).owner = Function.update l.owner x none := by
  rw [remove, if_pos howner]
  refine ⟨⟨fun j y => ?_, fun j => ?_⟩, rfl, rfl⟩
  · by_cases hj : j = i
    · subst hj
      by_cases hy : y = x
      · simp [hy, (h.nodup j).mem_erase_iff]
      · simp [hy, h.mem_iff]
    · by_cases hy : y = x
      · subst hy
        simp [hj, h.mem_iff, howner, Ne.symm hj]
      · simp [hj, hy, h.mem_iff]
  · by_cases hj : j = i
    · subst hj
      simp only [Function.update_self]
      exact (h.nodup j).erase x
    · simp only [Function.update_of_ne hj]
      exact h.nodup j

theorem remove_of_not_owned (l : Lists ι α) {i : ι} {x : α} (howner : l.owner x ≠ some i) :
    l.remove i x = l :=
  if_neg howner

/-- Whatever list an item of no other list is in, removing it leaves it in none. -/
theorem remove_owner {l : Lists ι α} (h : l.WellFormed) {i : ι} {x : α}
    (howner : l.owner x = some i ∨ l.owner x = none) :
    (l.remove i x).WellFormed ∧ (l.remove i x).error = l.error ∧
      (l.remove i x).owner = Function.update l.owner x none := by
  rcases howner with howner | hfree
  · exact remove_of_owned h howner
  · rw [remove_of_not_owned l (by simp [hfree])]
    refine ⟨h, rfl, ?_⟩
    rw [← hfree, Function.update_eq_self]

/-- An item that goes from one list to another. -/
theorem items_remove_put {l : Lists ι α} (h : l.WellFormed) {i j : ι} (hij : i ≠ j) {x : α}
    {us vs : List α} (hitems : l.items i = us ++ x :: vs) (hx : x ∉ us) :
    ((l.remove i x).put j x).error = l.error ∧
      ((l.remove i x).put j x).items i = us ++ vs ∧
      ((l.remove i x).put j x).items j = l.items j ++ [x] := by
  have howner : l.owner x = some i :=
    (h.mem_iff i x).mp (hitems ▸ List.mem_append_right us List.mem_cons_self)
  have hfree : (l.remove i x).owner x = none := by
    rw [(remove_of_owned h howner).2.2, Function.update_self]
  simp only [put, hfree, Function.update_of_ne hij, Function.update_self]
  refine ⟨(remove_of_owned h howner).2.1, ?_, ?_⟩
  · simp only [remove, if_pos howner, Function.update_self, hitems]
    exact erase_middle hx vs
  · simp only [remove, if_pos howner, Function.update_of_ne hij.symm]

omit [DecidableEq α] in
theorem clear_of_nil {l : Lists ι α} (h : l.WellFormed) {i : ι} (hnil : l.items i = []) :
    l.clear i = l := by
  have howner : ∀ x, l.owner x ≠ some i := fun x hx => by
    rw [← h.mem_iff, hnil] at hx
    cases hx
  simp [clear, howner, ← hnil, Function.update_eq_self]

omit [DecidableEq ι] [DecidableEq α] in
theorem owner_of_cons {l : Lists ι α} (h : l.WellFormed) {i : ι} {x : α} {xs : List α}
    (hcons : l.items i = x :: xs) : l.owner x = some i :=
  (h.mem_iff i x).mp (hcons ▸ List.mem_cons_self)

theorem clear_of_cons {l : Lists ι α} (h : l.WellFormed) {i : ι} {x : α} {xs : List α}
    (hcons : l.items i = x :: xs) : l.clear i = (l.remove i x).clear i := by
  have howner := owner_of_cons h hcons
  rw [remove, if_pos howner, clear, clear]
  simp only [Function.update_idem, mk.injEq, true_and, and_true]
  funext y
  by_cases hy : y = x
  · subst hy
    simp [howner]
  · simp [Function.update_of_ne hy]

omit [DecidableEq α] in
theorem transfer_of_nil {l : Lists ι α} (h : l.WellFormed) {i j : ι} (hnil : l.items i = []) :
    l.transfer i j = l := by
  have howner : ∀ x, l.owner x ≠ some i := fun x hx => by
    rw [← h.mem_iff, hnil] at hx
    cases hx
  have hsame : Function.update l.items i [] = l.items := by
    rw [← hnil, Function.update_eq_self]
  simp [transfer, howner, hnil, hsame]

theorem transfer_of_cons {l : Lists ι α} (h : l.WellFormed) {i j : ι} (hij : i ≠ j) {x : α}
    {xs : List α} (hcons : l.items i = x :: xs) :
    l.transfer i j = ((l.remove i x).put j x).transfer i j := by
  have howner := owner_of_cons h hcons
  obtain ⟨-, -, hremoved⟩ := remove_of_owned h howner
  have hfree : (l.remove i x).owner x = none := by
    rw [hremoved, Function.update_self]
  have hput : (l.remove i x).put j x =
      { l with
        items := Function.update (Function.update l.items i xs) j (l.items j ++ [x])
        owner := Function.update l.owner x (some j) } := by
    simp only [put, hfree]
    simp only [remove, if_pos howner, hcons, List.erase_cons_head, Function.update_of_ne hij.symm,
      Function.update_idem]
  rw [hput, transfer, transfer]
  simp only [mk.injEq, and_true]
  constructor
  · funext k
    by_cases hk : k = j
    · subst hk
      simp [hcons, Function.update_of_ne hij]
    · by_cases hk' : k = i
      · subst hk'
        simp [Function.update_of_ne hk]
      · simp [Function.update_of_ne hk, Function.update_of_ne hk']
  · funext y
    by_cases hy : y = x
    · subst hy
      simp [howner, hij.symm]
    · simp [Function.update_of_ne hy]

end Lists

end ColonyPico.Foundations.IntrusiveLists
