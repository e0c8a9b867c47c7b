import ColonyPico.Container.ListRuns
import ColonyPico.Foundations.OrderedInsertion
import ColonyPico.Foundations.TextOrder

/-!
The list of model points of a model database (`Cpl::Dm::ModelDatabase`) and its enumeration by
name.
-/

namespace ColonyPico.Dm.ModelDatabase

open ColonyPico.Foundations.IntrusiveLists
open ColonyPico.Foundations.OrderedInsertion
open ColonyPico.Foundations.TextOrder
open ColonyPico.Container.LinkedLists
open ColonyPico.Container.ListRefinement
open ColonyPico.Container.ListRuns (move_refines)

/-- The list of the database, and the local list of `sortList()`. -/
inductive ListId where
  | m_list
  | sortedList
  deriving DecidableEq

variable {α : Type}

structure Database (α : Type) where
  heap : Heap ListId α
  m_listSorted : Bool

/-- A database as it is constructed. -/
def Database.init : Database α :=
  { heap := Heap.init, m_listSorted := false }

section Code

variable [DecidableEq α] (name : α → List UInt8)

/-- The inner loop of `sortList()`, from `sortedItem` on. -/
def insertSorted (item : α) : Nat → Heap ListId α → Option α → Option α → Option (Heap ListId α)
  | 0, _, _, _ => none
  | _ + 1, h, _, none => (SList.put h .sortedList item).map Prod.fst
  | fuel + 1, h, prevSortedItem, some sortedItem =>
      if strcmp (name item) (name sortedItem) < 0 then
        match prevSortedItem with
        | some prevSortedItem => some (SList.insertAfter h .sortedList prevSortedItem item).1
        | none => some (SList.putFirst h .sortedList item).1
      else insertSorted item fuel h (some sortedItem) (next h sortedItem)

/-- The walk of `sortList()` over the unsorted list. -/
def sortLoop : Nat → Heap ListId α → Option (Heap ListId α)
  | 0, _ => none
  | fuel + 1, h =>
      match SList.get h .m_list with
      | (h, none) => some h
      | (h, some item) => do
          let h ← insertSorted name item (fuel + 1) h none (first h .sortedList)
          sortLoop fuel h

/-- `sortList()`; none when its loops are not done within the fuel. -/
def sortList (fuel : Nat) (h : Heap ListId α) : Option (Heap ListId α) :=
  match SList.get h .m_list with
  | (h, none) => some h
  | (h, some item) => do
      let h := (SList.putFirst h .sortedList item).1
      let h ← sortLoop name fuel h
      move SList.methods fuel h .sortedList .m_list

def insert_ (db : Database α) (mpToAdd : α) : Database α :=
  { db with heap := (SList.putFirst db.heap .m_list mpToAdd).1 }

def getFirstByName (fuel : Nat) (db : Database α) : Option (Database α × Option α) := do
  let db ←
    if db.m_listSorted = false then do
      let h ← sortList name fuel db.heap
      pure { heap := h, m_listSorted := true }
    else pure db
  pure (db, first db.heap .m_list)

omit [DecidableEq α] in
def getNextByName (db : Database α) (currentModelPoint : α) : Option α :=
  next db.heap currentModelPoint

end Code

section Sorting

variable [DecidableEq α] {name : α → List UInt8} {h : Heap ListId α} {l : Lists ListId α}

/-- Both lists are singly linked. -/
def Double : ListId → Prop := fun _ => False

theorem implements : Implements Double (fun i => ¬ Double i) (SList.methods : Methods ListId α) :=
  implements_slist

theorem insertWith_congr {i : ListId} {x : α} {place : List α → List α}
    (place' : List α → List α) (hplace : place (l.items i) = place' (l.items i)) :
    l.insertWith i x place = l.insertWith i x place' := by
  rw [Lists.insertWith, Lists.insertWith, hplace]

theorem insertSorted_some (item sortedItem : α) (fuel : Nat) (h : Heap ListId α)
    (prevSortedItem : Option α) :
    insertSorted name item (fuel + 1) h prevSortedItem (some sortedItem) =
      if strcmp (name item) (name sortedItem) < 0 then
        match prevSortedItem with
        | some prevSortedItem => some (SList.insertAfter h .sortedList prevSortedItem item).1
        | none => some (SList.putFirst h .sortedList item).1
      else insertSorted name item fuel h (some sortedItem) (next h sortedItem) := rfl

variable (name) in
/-- The inner loop inserts before the first larger item, wherever it starts from. -/
theorem insertSorted_refines (hr : Refines Double h l) (item : α) {us vs : List α}
    (hitems : l.items .sortedList = us ++ vs)
    (hus : ∀ u ∈ us, ¬ codes (name item) < codes (name u)) (fuel : Nat) (hfuel : vs.length < fuel) :
    ∃ h', insertSorted name item fuel h us.getLast? vs.head? = some h' ∧
      Refines Double h'
        (l.insertWith .sortedList item (insertByKey (fun x => codes (name x)) item)) := by
  induction vs generalizing us fuel with
  | nil =>
      obtain ⟨fuel, rfl⟩ : ∃ k, fuel = k + 1 := ⟨fuel - 1, by omega⟩
      obtain ⟨h', hput, hrefines⟩ := put_slist (fun hd => hd) hr (i := .sortedList) item
      refine ⟨h', by rw [List.head?_nil, insertSorted, hput, Option.map_some], ?_⟩
      have hplace : insertByKey (fun x => codes (name x)) item (l.items .sortedList) =
          l.items .sortedList ++ [item] := by
        rw [hitems, insertByKey_append hus, List.append_nil]
        rfl
      rw [insertWith_congr (· ++ [item]) hplace]
      exact hrefines
  | cons v vs ih =>
      obtain ⟨fuel, rfl⟩ : ∃ k, fuel = k + 1 := ⟨fuel - 1, by omega⟩
      rw [List.head?_cons, insertSorted_some]
      rcases Classical.em (codes (name item) < codes (name v)) with hlt | hnot
      · have hplace : insertByKey (fun x => codes (name x)) item (l.items .sortedList) =
            us ++ item :: v :: vs := by
          rw [hitems, insertByKey_append hus, insertByKey, List.orderedInsert_cons, if_pos hlt]
        rw [if_pos ((strcmp_neg_iff _ _).mpr hlt)]
        rcases List.eq_nil_or_concat' us with rfl | ⟨us, u, rfl⟩
        · refine ⟨_, rfl, ?_⟩
          rw [insertWith_congr (item :: ·) (hplace.trans (congrArg (item :: ·) hitems.symm))]
          exact (putFirst_slist (fun hd => hd) hr item).2
        · rw [List.getLast?_concat]
          refine ⟨_, rfl, ?_⟩
          have hmem : u ∈ l.items .sortedList := by simp [hitems]
          have hu : u ∉ us := by
            have hnodup := hr.wellFormed.nodup .sortedList
            rw [hitems, List.append_assoc] at hnodup
            exact fun hin => (List.nodup_append.mp hnodup).2.2 u hin u (by simp) rfl
          have hafter : insertAfter u item (l.items .sortedList) =
              us ++ [u] ++ item :: v :: vs := by
            rw [hitems, List.append_assoc, List.singleton_append, insertAfter_middle hu]
            simp
          rw [insertWith_congr (insertAfter u item) (hplace.trans hafter.symm)]
          exact (insertAfter_slist (fun hd => hd) hr hmem item).2
      · rw [if_neg fun hneg => hnot ((strcmp_neg_iff _ _).mp hneg)]
        have hitems' : l.items .sortedList = us ++ [v] ++ vs := by rw [hitems]; simp
        have hus' : ∀ u ∈ us ++ [v], ¬ codes (name item) < codes (name u) := by
          intro u hu
          rcases List.mem_append.mp hu with hu | hu
          · exact hus u hu
          · rw [List.mem_singleton.mp hu]
            exact hnot
        have hstep := ih hitems' hus' fuel (by simpa using hfuel)
        rw [List.getLast?_concat] at hstep
        rw [next, nextPtr_eq hr hitems]
        exact hstep

/-- An item that leaves the unsorted list for its place in the sorted one. -/
theorem insertWith_remove (hw : l.WellFormed) {x : α} {xs : List α}
    (hitems : l.items .m_list = x :: xs) (place : List α → List α) :
    ((l.remove .m_list x).insertWith .sortedList x place).items .m_list = xs ∧
      ((l.remove .m_list x).insertWith .sortedList x place).items .sortedList =
        place (l.items .sortedList) ∧
      ((l.remove .m_list x).insertWith .sortedList x place).error = l.error := by
  have howner := Lists.owner_of_cons hw hitems
  obtain ⟨-, herror, hfree⟩ := Lists.remove_of_owned hw howner
  have hnone : (l.remove .m_list x).owner x = none := by rw [hfree, Function.update_self]
  have hremoved : (l.remove .m_list x).items = Function.update l.items .m_list xs := by
    rw [Lists.remove, if_pos howner, hitems, List.erase_cons_head]
  rw [Lists.insertWith, hnone]
  refine ⟨?_, ?_, herror⟩
  · simp [hremoved]
  · simp [hremoved]

variable (name) in
theorem sortLoop_refines (hr : Refines Double h l) {xs sorted : List α}
    (hxs : l.items .m_list = xs) (hsorted : l.items .sortedList = sorted) (fuel : Nat)
    (hfuel : 2 * xs.length + sorted.length < fuel) :
    ∃ h' l', sortLoop name fuel h = some h' ∧ Refines Double h' l' ∧ l'.items .m_list = [] ∧
      l'.items .sortedList = insertAll (fun x => codes (name x)) sorted xs ∧
      l'.error = l.error := by
  induction xs generalizing h l sorted fuel with
  | nil =>
      obtain ⟨fuel, rfl⟩ : ∃ k, fuel = k + 1 := ⟨fuel - 1, by omega⟩
      obtain ⟨hitem, hrefines⟩ := get_slist (fun hd => hd) hr (i := .m_list)
      obtain ⟨⟨h₁, item⟩, hget⟩ : ∃ res, SList.get h .m_list = res := ⟨_, rfl⟩
      simp only [hget, Lists.get, hxs] at hitem hrefines
      subst hitem
      exact ⟨h₁, l, by simp only [sortLoop, hget], hrefines, hxs, hsorted, rfl⟩
  | cons x xs ih =>
      obtain ⟨fuel, rfl⟩ : ∃ k, fuel = k + 1 := ⟨fuel - 1, by omega⟩
      rw [List.length_cons] at hfuel
      obtain ⟨hitem, hrefines⟩ := get_slist (fun hd => hd) hr (i := .m_list)
      obtain ⟨⟨h₁, item⟩, hget⟩ : ∃ res, SList.get h .m_list = res := ⟨_, rfl⟩
      simp only [hget, Lists.get, hxs] at hitem hrefines
      subst hitem
      obtain ⟨hlist, hplace, herror⟩ := insertWith_remove hr.wellFormed hxs
        (insertByKey (fun x => codes (name x)) x)
      have hrest : (l.remove .m_list x).items .sortedList = [] ++ sorted := by
        rw [Lists.remove, if_pos (Lists.owner_of_cons hr.wellFormed hxs)]
        simp [hsorted]
      obtain ⟨h₂, hinsert, hinserted⟩ :=
        insertSorted_refines name hrefines x hrest (by simp) (fuel + 1) (by omega)
      have hlength : (insertByKey (fun x => codes (name x)) x sorted).length =
          sorted.length + 1 := (perm_insertByKey x sorted).length_eq
      obtain ⟨h', l', hloop, hrefines', hnil, hall, herror'⟩ :=
        ih hinserted hlist (hplace.trans (congrArg _ hsorted)) fuel (by omega)
      refine ⟨h', l', ?_, hrefines', hnil, hall, herror'.trans herror⟩
      have hfirst : first h₁ .sortedList = sorted.head? := by
        rw [first, headPtr_eq hrefines, hrest, List.nil_append]
      rw [List.getLast?_nil, ← hfirst] at hinsert
      simp only [sortLoop, hget, hinsert, Option.bind_eq_bind, Option.bind_some]
      exact hloop

/-- Outside the sort, the database holds its points in a list of no errors. -/
def Listed (h : Heap ListId α) (xs : List α) : Prop :=
  ∃ l : Lists ListId α, Refines Double h l ∧ l.items .m_list = xs ∧
    l.items .sortedList = [] ∧ l.error = false

omit [DecidableEq α] in
theorem owner_eq_none (hw : l.WellFormed) {x : α} (hlist : x ∉ l.items .m_list)
    (hsorted : x ∉ l.items .sortedList) : l.owner x = none := by
  cases howner : l.owner x with
  | none => rfl
  | some i =>
      have hmem := (hw.mem_iff i x).mpr howner
      cases i with
      | m_list => exact absurd hmem hlist
      | sortedList => exact absurd hmem hsorted

theorem insertWith_free {i : ListId} {x : α} (hfree : l.owner x = none)
    (place : List α → List α) :
    (l.insertWith i x place).items = Function.update l.items i (place (l.items i)) ∧
      (l.insertWith i x place).error = l.error := by
  rw [Lists.insertWith, hfree]
  exact ⟨rfl, rfl⟩

theorem listed_putFirst {xs : List α} (hlisted : Listed h xs) {x : α} (hx : x ∉ xs) :
    Listed (SList.putFirst h .m_list x).1 (x :: xs) := by
  obtain ⟨l, hr, hitems, hsorted, herror⟩ := hlisted
  have hfree : l.owner x = none :=
    owner_eq_none hr.wellFormed (hitems ▸ hx) (hsorted ▸ List.not_mem_nil)
  obtain ⟨hput, hkept⟩ := insertWith_free (i := .m_list) hfree (x :: ·)
  refine ⟨_, (putFirst_slist (fun hd => hd) hr x).2, ?_, ?_, hkept.trans herror⟩
  · rw [hput, Function.update_self, hitems]
  · rw [hput, Function.update_of_ne (by decide), hsorted]

variable (name) in
theorem listed_sortList {xs : List α} (hlisted : Listed h xs) {fuel : Nat}
    (hfuel : 2 * xs.length < fuel) :
    ∃ h', sortList name fuel h = some h' ∧
      Listed h' (insertAll (fun x => codes (name x)) [] xs) := by
  obtain ⟨l, hr, hitems, hsorted, herror⟩ := hlisted
  obtain ⟨hitem, hrefines⟩ := get_slist (fun hd => hd) hr (i := .m_list)
  obtain ⟨⟨h₁, item⟩, hget⟩ : ∃ res, SList.get h .m_list = res := ⟨_, rfl⟩
  cases xs with
  | nil =>
      simp only [hget, Lists.get, hitems] at hitem hrefines
      subst hitem
      exact ⟨h₁, by simp only [sortList, hget], l, hrefines, hitems, hsorted, herror⟩
  | cons x xs =>
      simp only [hget, Lists.get, hitems] at hitem hrefines
      subst hitem
      rw [List.length_cons] at hfuel
      obtain ⟨hlist, hplace, hkept⟩ := insertWith_remove hr.wellFormed hitems (x :: ·)
      obtain ⟨-, hput⟩ := putFirst_slist (i := .sortedList) (fun hd => hd) hrefines x
      rw [hsorted] at hplace
      obtain ⟨h₂, l₂, hloop, hrefines₂, hnil, hall, herror₂⟩ :=
        sortLoop_refines name hput hlist hplace fuel (by simp; omega)
      have hlength : (l₂.items .sortedList).length < fuel := by
        rw [hall, (perm_insertAll _ _).length_eq]
        simp
        omega
      have hfuel₂ : ∀ k, (l₂.items k).length < fuel := by
        intro k
        cases k with
        | m_list => simp only [hnil, List.length_nil]; omega
        | sortedList => exact hlength
      obtain ⟨h₃, hmove, hrefines₃⟩ :=
        move_refines implements (i := .sortedList) (j := .m_list) id id hrefines₂ fuel hfuel₂
      refine ⟨h₃, ?_, _, hrefines₃, ?_, ?_, (herror₂.trans hkept).trans herror⟩
      · simp only [sortList, hget, hloop, Option.bind_eq_bind, Option.bind_some]
        exact hmove
      · have hseed : insertAll (fun x => codes (name x)) [] (x :: xs) =
            insertAll (fun x => codes (name x)) [x] xs := rfl
        rw [hseed, ← hall]
        simp [Lists.move, Lists.transfer, Lists.clear]
      · simp [Lists.move, Lists.transfer, Lists.clear]

omit [DecidableEq α] in
theorem first_listed {xs : List α} (hlisted : Listed h xs) : first h .m_list = xs.head? := by
  obtain ⟨l, hr, hitems, -, -⟩ := hlisted
  rw [first, headPtr_eq hr, hitems]

omit [DecidableEq α] in
theorem next_listed {us vs : List α} {x : α} (hlisted : Listed h (us ++ x :: vs)) :
    next h x = vs.head? := by
  obtain ⟨l, hr, hitems, -, -⟩ := hlisted
  rw [next, nextPtr_eq hr hitems]

omit [DecidableEq α] in
theorem listed_init : Listed (Heap.init : Heap ListId α) [] :=
  ⟨Lists.empty, ⟨Lists.wellFormed_empty, rfl, rfl, fun _ => ⟨rfl, rfl, fun _ => rfl⟩⟩, rfl, rfl, rfl⟩

end Sorting

end ColonyPico.Dm.ModelDatabase
