import ColonyPico.Container.MapRuns

/-!
A map (`Cpl::Container::Map`) as its users see it: the items in the order of their keys, and how the
AVL tree keeps to that.
-/

namespace ColonyPico.Container.OrderedItems

open ColonyPico.Container.AvlTrees
open ColonyPico.Container.AvlUpdates
open ColonyPico.Container.AvlRemoval
open ColonyPico.Container.AvlTraversal
open ColonyPico.Container.MapRuns
open ColonyPico.Foundations.BalancedTrees

variable {ι κ : Type} [LinearOrder κ]

/-- The items of a map, each key once, in the order that `first()` and `next()` visit them. -/
structure OrderedMap (key : ι → κ) where
  items : List ι
  sorted : items.Pairwise (key · < key ·)

section Items

variable {key : ι → κ} {items : List ι} {x : ι}

/-- The items with a new one in its place. -/
def place (key : ι → κ) (x : ι) : List ι → List ι
  | [] => [x]
  | y :: rest => if key x < key y then x :: y :: rest else y :: place key x rest

theorem perm_place (key : ι → κ) (x : ι) (items : List ι) :
    (place key x items).Perm (x :: items) := by
  induction items with
  | nil => exact .refl _
  | cons y rest ih =>
      rw [place]
      split_ifs
      · exact .refl _
      · exact (ih.cons y).trans (.swap x y rest)

theorem sorted_place (hsorted : items.Pairwise (key · < key ·))
    (hnew : ∀ y ∈ items, key y ≠ key x) : (place key x items).Pairwise (key · < key ·) := by
  induction items with
  | nil => exact List.pairwise_singleton _ _
  | cons y rest ih =>
      obtain ⟨hfirst, hrest⟩ := List.pairwise_cons.mp hsorted
      rw [place]
      split_ifs with hlt
      · refine List.pairwise_cons.mpr ⟨?_, hsorted⟩
        rintro z hz
        rcases List.mem_cons.mp hz with rfl | hmem
        · exact hlt
        · exact hlt.trans (hfirst z hmem)
      · refine List.pairwise_cons.mpr ⟨?_, ih hrest fun z hz => hnew z (List.mem_cons_of_mem _ hz)⟩
        rintro z hz
        rcases List.mem_cons.mp ((perm_place key x rest).mem_iff.mp hz) with rfl | hmem
        · exact lt_of_le_of_ne (not_lt.mp hlt) (hnew y List.mem_cons_self)
        · exact hfirst z hmem

/-- Items in the order of their keys are determined by which they are. -/
theorem eq_of_perm_of_sorted {items' : List ι} (hperm : items.Perm items')
    (hsorted : items.Pairwise (key · < key ·)) (hsorted' : items'.Pairwise (key · < key ·)) :
    items = items' :=
  hperm.eq_of_pairwise (fun _ _ _ _ hlt hlt' => absurd hlt' hlt.asymm) hsorted hsorted'

end Items

namespace OrderedMap

variable {key : ι → κ}

def empty : OrderedMap key :=
  { items := [], sorted := .nil }

def find (m : OrderedMap key) (k : κ) : Option ι :=
  m.items.find? fun x => decide (key x = k)

/-- `insert()`, which leaves the map as it is when the key is in it. -/
def insert (m : OrderedMap key) (x : ι) : Bool × OrderedMap key :=
  if hkey : ∃ y ∈ m.items, key y = key x then (false, m)
  else
    (true,
      { items := place key x m.items
        sorted := sorted_place m.sorted fun y hy heq => hkey ⟨y, hy, heq⟩ })

def removeItem [DecidableEq ι] (m : OrderedMap key) (x : ι) : Bool × OrderedMap key :=
  (decide (x ∈ m.items),
    { items := m.items.erase x, sorted := m.sorted.sublist (List.erase_sublist) })

/-- `getFirst()`, which removes the item. -/
def getFirst (m : OrderedMap key) : Option ι × OrderedMap key :=
  (m.items.head?, { items := m.items.tail, sorted := m.sorted.tail })

variable {m : OrderedMap key} {x : ι}

theorem nodup (m : OrderedMap key) : m.items.Nodup :=
  m.sorted.imp fun hlt => ne_of_apply_ne key (ne_of_lt hlt)

theorem eq_of_perm {m m' : OrderedMap key} (hperm : m.items.Perm m'.items) : m = m' := by
  rcases m with ⟨items, hsorted⟩
  rcases m' with ⟨items', hsorted'⟩
  obtain rfl : items = items' := eq_of_perm_of_sorted hperm hsorted hsorted'
  rfl

theorem eq_of_key_eq {y : ι} (hx : x ∈ m.items) (hy : y ∈ m.items) (hkey : key x = key y) :
    x = y := by
  have hkeys : (m.items.map key).Nodup := List.pairwise_map.mpr (m.sorted.imp ne_of_lt)
  exact List.inj_on_of_nodup_map hkeys hx hy hkey

theorem of_find {k : κ} (hfind : m.find k = some x) : x ∈ m.items ∧ key x = k :=
  ⟨List.mem_of_find?_eq_some hfind,
    of_decide_eq_true (@List.find?_some _ (fun x => decide (key x = k)) _ _ hfind)⟩

theorem find_eq_some {k : κ} : m.find k = some x ↔ x ∈ m.items ∧ key x = k := by
  constructor
  · exact of_find
  · rintro ⟨hx, hkey⟩
    obtain ⟨y, hfind⟩ : ∃ y, m.find k = some y :=
      Option.isSome_iff_exists.mp (List.find?_isSome.mpr ⟨x, hx, decide_eq_true hkey⟩)
    obtain ⟨hy, hykey⟩ := of_find hfind
    rw [hfind, eq_of_key_eq hx hy (hkey.trans hykey.symm)]

theorem perm_insert (hnew : ∀ y ∈ m.items, key y ≠ key x) :
    (m.insert x).2.items.Perm (x :: m.items) := by
  rw [insert, dif_neg]
  · exact perm_place key x m.items
  · rintro ⟨y, hy, hkey⟩
    exact hnew y hy hkey

theorem perm_removeItem [DecidableEq ι] (hx : x ∈ m.items) :
    m.items.Perm (x :: (m.removeItem x).2.items) :=
  List.perm_cons_erase hx

end OrderedMap

open OrderedMap

section Refinement

variable {key : ι → κ} {fuel : Nat} {t : AvlTree ι} {m : OrderedMap key} {x : ι}

/-- The tree of the map holds the items. -/
def Shows (key : ι → κ) (t : AvlTree ι) (m : OrderedMap key) : Prop :=
  ∃ T : Shape ι, Represents key t T ∧ T.items = m.items

theorem shows_empty : Shows key AvlTree.init (OrderedMap.empty : OrderedMap key) :=
  ⟨_, represents_init, rfl⟩

theorem Shows.find (h : Shows key t m) (hfuel : m.items.length < fuel) (k : κ) :
    AvlTrees.find key fuel t.nodes k = some ((m.find k).map .item) := by
  obtain ⟨T, hrep, hitems⟩ := h
  obtain ⟨found, hfind, hsome, hnone⟩ := find_spec hrep (hitems ▸ hfuel) k
  rw [hitems] at hsome hnone
  rw [hfind]
  cases found with
  | some y => rw [find_eq_some.mpr (hsome y rfl)]
  | none =>
      have hno : m.find k = none := by
        refine List.find?_eq_none.mpr fun y hy => ?_
        rw [decide_eq_true_iff]
        exact hnone rfl y hy
      rw [hno]

variable [DecidableEq ι]

theorem Shows.ascending (h : Shows key t m) (hfuel : m.items.length < fuel) :
    AvlTraversal.ascending fuel t.nodes = some (m.items.map .item) := by
  obtain ⟨T, hrep, hitems⟩ := h
  rw [← hitems] at hfuel ⊢
  exact ascending_eq hrep.view hfuel

theorem Shows.insert (h : Shows key t m) (hroom : HasRoom key t x) :
    ∃ t', call key fuel t (.insert x) = some (t', .done (m.insert x).1) ∧
      Shows key t' (m.insert x).2 := by
  obtain ⟨T, hrep, hitems⟩ := h
  rcases insert_spec hrep hroom with ⟨hdup, hinsert⟩ | ⟨hnew, t', T', hinsert, hrep', hperm⟩
  · rw [hitems] at hdup
    refine ⟨t, ?_, ?_⟩
    · rw [call, hinsert, OrderedMap.insert, dif_pos hdup]
      rfl
    · rw [OrderedMap.insert, dif_pos hdup]
      exact ⟨T, hrep, hitems⟩
  · rw [hitems] at hnew hperm
    refine ⟨t', ?_, T', hrep', ?_⟩
    · rw [call, hinsert, OrderedMap.insert, dif_neg]
      · rfl
      · rintro ⟨y, hy, hkey⟩
        exact hnew y hy hkey
    · exact eq_of_perm_of_sorted (hperm.trans (perm_insert hnew).symm) hrep'.sorted
        (m.insert x).2.sorted

theorem Shows.removeItem (h : Shows key t m) (hfuel : m.items.length < fuel)
    (hx : x ∈ m.items) :
    ∃ t', call key fuel t (.removeItem x) = some (t', .done (m.removeItem x).1) ∧
      Shows key t' (m.removeItem x).2 := by
  obtain ⟨T, hrep, hitems⟩ := h
  rw [← hitems] at hx hfuel
  obtain ⟨t', T', hremove, hrep', hperm⟩ := removeItem_spec hrep hx hfuel
  rw [hitems] at hx hperm
  refine ⟨t', ?_, T', hrep', ?_⟩
  · rw [call, hremove, OrderedMap.removeItem, decide_eq_true hx]
    rfl
  · refine eq_of_perm_of_sorted ?_ hrep'.sorted (m.removeItem x).2.sorted
    exact (hperm.symm.trans (perm_removeItem hx)).cons_inv

theorem Shows.getFirst (h : Shows key t m) (hfuel : m.items.length < fuel) :
    ∃ t', call key fuel t .getFirst = some (t', .item (m.getFirst.1.map .item)) ∧
      Shows key t' m.getFirst.2 := by
  obtain ⟨T, hrep, hitems⟩ := h
  rw [← hitems] at hfuel
  have hfirst := first_eq hrep.view hfuel.le
  rcases m with ⟨_ | ⟨y, rest⟩, hsorted⟩
  · rw [hitems] at hfirst
    refine ⟨t, ?_, T, hrep, hitems⟩
    rw [call, Map.getFirst, hfirst]
    rfl
  · rw [hitems] at hfirst
    obtain ⟨t', T', hremove, hrep', hperm⟩ :=
      removeItem_spec hrep (hitems ▸ List.mem_cons_self : y ∈ T.items) hfuel
    refine ⟨t', ?_, T', hrep', ?_⟩
    · rw [call, Map.getFirst, hfirst]
      exact congrArg (Option.map fun r => (r.1, Result.item r.2)) hremove
    · rw [hitems] at hperm
      exact eq_of_perm_of_sorted hperm.cons_inv.symm hrep'.sorted hsorted.tail

end Refinement

end ColonyPico.Container.OrderedItems
