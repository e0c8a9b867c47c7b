import Mathlib.Logic.Equiv.Basic
import ColonyPico.Container.AvlUpdates

/-!
Removals. A node with two children first changes places with the node before it.
-/

namespace ColonyPico.Container.AvlRemoval

open ColonyPico.Container.AvlTrees
open ColonyPico.Container.AvlLinks
open ColonyPico.Container.AvlBalance
open ColonyPico.Container.AvlUpdates
open ColonyPico.Foundations.BalancedTrees
open ColonyPico.Foundations.BalancedTrees.Shape

variable {ι : Type}

section Renaming

def Address.map (f : ι → ι) : Address ι → Address ι
  | .root => .root
  | .item x => .item (f x)

/-- An item whose links go to other items. -/
def MapItem.map (f : ι → ι) (n : MapItem ι) : MapItem ι :=
  { n with
    prevPtr := n.prevPtr.map (Address.map f)
    nextPtr := n.nextPtr.map (Address.map f)
    parentPtr := n.parentPtr.map (Address.map f) }

variable {f : ι → ι} {h h' : Nodes ι} {c : List (Frame ι)} {t : Shape ι}

theorem map_linked (s : Side) (near far : Option (Address ι)) (parent : Address ι) (b : Balance) :
    MapItem.map f (linked s near far parent b) =
      linked s (near.map (Address.map f)) (far.map (Address.map f)) (Address.map f parent) b := by
  cases s <;> rfl

theorem ptr_map (t : Shape ι) : ptr (t.map f) = (ptr t).map (Address.map f) := by
  cases t <;> rfl

theorem top_map (c : List (Frame ι)) : top (c.map (Frame.map f)) = Address.map f (top c) := by
  cases c <;> rfl

theorem linked_map {parent : Address ι} (hlinked : Linked h parent t)
    (hsame : ∀ x ∈ t.items,
      h'.get (.item (f x)) = MapItem.map f (h.get (.item x))) :
    Linked h' (Address.map f parent) (t.map f) := by
  induction t generalizing parent with
  | nil => trivial
  | node l a b r ihl ihr =>
      obtain ⟨hitem, hl, hr⟩ := hlinked
      refine ⟨?_, ihl hl ?_, ihr hr ?_⟩
      · rw [hsame a (by simp [items]), hitem, map_linked, ptr_map, ptr_map]
      · intro x hx
        exact hsame x (by simp [items, hx])
      · intro x hx
        exact hsame x (by simp [items, hx])

theorem linkedAround_map {p : Option (Address ι)} (hlinked : LinkedAround h c p)
    (hroot : h'.get .root = MapItem.map f (h.get .root))
    (hsame : ∀ x ∈ outer c, h'.get (.item (f x)) = MapItem.map f (h.get (.item x))) :
    LinkedAround h' (c.map (Frame.map f)) (p.map (Address.map f)) := by
  induction c generalizing p with
  | nil =>
      have hroot' : h.get .root = rootNode p := hlinked
      rw [hroot'] at hroot
      exact hroot
  | cons x c ih =>
      obtain ⟨hitem, hsibling, haround⟩ := hlinked
      refine ⟨?_, linked_map hsibling ?_, ih haround ?_⟩
      · rw [Frame.map, hsame _ (mem_outer_cons.mpr (.inl rfl)), hitem, map_linked, ptr_map, top_map]
      · intro y hy
        exact hsame y (mem_outer_cons.mpr (.inr (.inl hy)))
      · intro y hy
        exact hsame y (mem_outer_cons.mpr (.inr (.inr hy)))

theorem view_map (hview : View h c t) (hf : Function.Injective f)
    (hroot : h'.get .root = MapItem.map f (h.get .root))
    (hsame : ∀ x ∈ (plug c t).items,
      h'.get (.item (f x)) = MapItem.map f (h.get (.item x))) :
    View h' (c.map (Frame.map f)) (t.map f) := by
  have hmem : ∀ x, x ∈ (plug c t).items ↔ x ∈ t.items ∨ x ∈ outer c := by
    intro x
    rw [(items_plug_perm c t).mem_iff, List.mem_append]
  refine ⟨?_, ?_, ?_⟩
  · rw [top_map]
    exact linked_map hview.tree fun x hx => hsame x ((hmem x).mpr (.inl hx))
  · rw [ptr_map]
    exact linkedAround_map hview.around hroot fun x hx => hsame x ((hmem x).mpr (.inr hx))
  · rw [plug_map, items_map]
    exact hview.nodup.map hf

end Renaming

theorem lastAlong_spec {h : Nodes ι} {parent : Address ι} {t : Shape ι} (s : Side)
    (hlinked : Linked h parent t) (ht : t ≠ nil) {fuel : Nat} (hfuel : t.height ≤ fuel) :
    ∃ path p b u n, ptr t = some n ∧ t = plug path (join s nil p b u) ∧
      (∀ x ∈ path, x.side = s) ∧ lastAlong s h fuel n = some (.item p) := by
  induction fuel generalizing t parent with
  | zero => exact absurd (eq_nil_of_height (Nat.le_zero.mp hfuel)) ht
  | succ fuel ih =>
      obtain ⟨near, a, b, far, rfl⟩ := exists_join s ht
      obtain ⟨hitem, hnear, -⟩ := linked_join.mp hlinked
      rw [height_join] at hfuel
      simp only [lastAlong, ptr_join]
      by_cases hnil : near = nil
      · subst hnil
        refine ⟨[], a, b, far, _, rfl, rfl, nofun, ?_⟩
        rw [hitem, getChild_linked, ptr_nil]
      · obtain ⟨path, p, b', u, n, hn, rfl, hpath, hlast⟩ := ih hnear hnil (by omega)
        refine ⟨path ++ [⟨s, a, b, far⟩], p, b', u, _, rfl, ?_, ?_, ?_⟩
        · rw [plug_append]
          rfl
        · simpa [or_imp, forall_and] using hpath
        · rw [hitem, getChild_linked, hn]
          exact hlast

section Exchange

variable [DecidableEq ι]

/-- What `exchangeWithPrev()` writes: `q` is the parent of the node before, and `n` is the left
child, where these are not the node and the node before. -/
def exchanged (h : Nodes ι) (c : List (Frame ι)) (isChild : Bool) (q n : Address ι)
    (pl r : Shape ι) (a p : ι) (b pb : Balance) : Nodes ι :=
  let h := setNode h (.item a)
    (linked .left (ptr pl) none (if isChild then .item p else q) pb)
  let h := setNode h (.item p)
    (linked .left (some (if isChild then .item a else n)) (ptr r) (top c) b)
  let h := setChild h (if isChild then .item p else q) (if isChild then .left else .right)
    (some (.item a))
  let h := setChild h (top c) (holeSide c) (some (.item p))
  let h := setParent h (if isChild then .item a else n) (some (.item p))
  adopt (adopt h (.item p) (ptr r)) (.item a) (ptr pl)

variable {h : Nodes ι} {c path : List (Frame ι)} {pl r : Shape ι} {a p : ι} {b pb : Balance}

/-- The node before, below the left child of the node. -/
structure Before (h : Nodes ι) (c path : List (Frame ι)) (pl r : Shape ι) (a p : ι)
    (b pb : Balance) : Prop where
  view : View h (path ++ ⟨.left, a, b, r⟩ :: c) (node pl p pb nil)
  right : ∀ x ∈ path, x.side = .right

section Others

variable {isChild : Bool} {q n m : Address ι} (ha : m ≠ .item a) (hp : m ≠ .item p)

include ha hp

theorem getChild_exchanged (s : Side) :
    ((exchanged h c isChild q n pl r a p b pb).get m).getChild s =
      if m = top c ∧ s = holeSide c then some (.item p)
      else if isChild = false ∧ m = q ∧ s = .right then some (.item a)
      else (h.get m).getChild s := by
  simp only [exchanged, get_adopt, get_setParent, get_setChild, get_setNode, if_neg ha, if_neg hp]
  cases isChild <;> simp only [reduceCtorEq, if_true, if_false, if_neg ha, if_neg hp] <;>
    split_ifs <;> simp_all [getChild_setChild]

theorem parentPtr_exchanged :
    ((exchanged h c isChild q n pl r a p b pb).get m).parentPtr =
      if ptr pl = some m then some (.item a)
      else if ptr r = some m then some (.item p)
      else if isChild = false ∧ m = n then some (.item p)
      else (h.get m).parentPtr := by
  simp only [exchanged, get_adopt, get_setParent, get_setChild, get_setNode, if_neg ha, if_neg hp]
  cases isChild <;> simp only [reduceCtorEq, if_true, if_false, if_neg ha, if_neg hp] <;>
    split_ifs <;> simp_all

theorem isNotRoot_exchanged :
    ((exchanged h c isChild q n pl r a p b pb).get m).isNotRoot = (h.get m).isNotRoot ∧
      ((exchanged h c isChild q n pl r a p b pb).get m).balance = (h.get m).balance := by
  simp only [exchanged, get_adopt, get_setParent, get_setChild, get_setNode, if_neg ha, if_neg hp]
  cases isChild <;> simp only [reduceCtorEq, if_true, if_false, if_neg ha, if_neg hp] <;>
    split_ifs <;> simp

end Others

omit [DecidableEq ι]

theorem Before.node (hb : Before h c path pl r a p b pb) :
    View h c (node (plug path (node pl p pb nil)) a b r) :=
  view_cons.mp (view_append.mp hb.view)

theorem mem_items_plug {c : List (Frame ι)} {t : Shape ι} {x : ι} :
    x ∈ (plug c t).items ↔ x ∈ t.items ∨ x ∈ outer c := by
  rw [(items_plug_perm c t).mem_iff, List.mem_append]

/-- Where the two nodes are not. -/
structure Apart (c path : List (Frame ι)) (pl r : Shape ι) (a p : ι) : Prop where
  ne : a ≠ p
  child : a ∉ pl.items ∧ p ∉ pl.items
  path : a ∉ outer path ∧ p ∉ outer path
  right : a ∉ r.items ∧ p ∉ r.items
  outer : a ∉ outer c ∧ p ∉ outer c

theorem Before.apart (hb : Before h c path pl r a p b pb) : Apart c path pl r a p := by
  have hnode := hb.node
  have hnodup := (nodup_join (s := .left)).mp (List.nodup_append.mp hnode.disjoint).1
  have hsub := (nodup_join (s := .left)).mp (List.nodup_append.mp hb.view.disjoint).1
  obtain ⟨⟨hal, har⟩, -, -, hlr⟩ := hnodup
  have hmem : ∀ x, x ∈ pl.items ∨ x = p → x ∈ (plug path (Shape.node pl p pb nil)).items := by
    rintro x hx
    refine mem_items_plug.mpr (.inl ((mem_items_join (s := .left)).mpr ?_))
    exact hx.imp_right .inl
  have hp := hb.view.notMem (x := p) ((mem_items_join (s := .left)).mpr (.inr (.inl rfl)))
  rw [mem_outer_append, not_or, mem_outer_cons, not_or, not_or] at hp
  refine ⟨?_, ⟨fun h => hal (hmem a (.inl h)), hsub.1.1⟩,
    ⟨fun h => hal (mem_items_plug.mpr (.inr h)), hp.1⟩, ⟨har, hp.2.2.1⟩,
    ⟨hnode.notMem ((mem_items_join (s := .left)).mpr (.inr (.inl rfl))), hp.2.2.2⟩⟩
  rintro rfl
  exact hp.2.1 rfl

section Swap

variable [DecidableEq ι]

theorem map_swap (x : Option (Address ι)) : x.map (Address.map (Equiv.swap a p)) =
    if x = some (.item a) then some (.item p)
    else if x = some (.item p) then some (.item a) else x := by
  rcases x with - | - | x
  · rfl
  · rfl
  · simp only [Option.map_some, Address.map, Option.some.injEq, Address.item.injEq,
      Equiv.swap_apply_def]
    split_ifs <;> rfl

theorem map_swap_of_ne {x : Option (Address ι)} (ha : x ≠ some (.item a))
    (hp : x ≠ some (.item p)) : x.map (Address.map (Equiv.swap a p)) = x := by
  rw [map_swap, if_neg ha, if_neg hp]

end Swap

theorem Before.holeSide_eq (hb : Before h c path pl r a p b pb) (hpath : path ≠ []) :
    holeSide (path ++ ⟨.left, a, b, r⟩ :: c) = .right := by
  cases path with
  | nil => exact absurd rfl hpath
  | cons f path => exact hb.right f List.mem_cons_self

variable [DecidableEq ι]

/-- The other nodes are linked to the two in each other's places. -/
theorem Before.get_exchanged (hb : Before h c path pl r a p b pb) {n m : Address ι}
    (hn : ptr (plug path (Shape.node pl p pb nil)) = some n)
    (hm : IsNode (plug (path ++ ⟨.left, a, b, r⟩ :: c) (Shape.node pl p pb nil)) m)
    (ha : m ≠ .item a) (hp : m ≠ .item p) :
    (exchanged h c path.isEmpty (top (path ++ ⟨.left, a, b, r⟩ :: c)) n pl r a p b pb).get m =
      MapItem.map (Equiv.swap a p) (h.get m) := by
  have hapart := hb.apart
  have hnode := hb.node
  have hm' : IsNode (plug c (Shape.node (plug path (Shape.node pl p pb nil)) a b r)) m := by
    rwa [plug_append] at hm
  have hwhole : View h [] (plug (path ++ ⟨.left, a, b, r⟩ :: c) (Shape.node pl p pb nil)) := by
    rw [← view_append, List.append_nil]
    exact hb.view
  have hgetP := hb.view.getChild_iff hm (ptr_node _ _ _ _)
  have hgetA := hnode.getChild_iff hm' (ptr_node _ _ _ _)
  refine MapItem.ext_of ?_ ?_ (isNotRoot_exchanged ha hp).1 (isNotRoot_exchanged ha hp).2
  · intro s
    have hmap : (MapItem.map (Equiv.swap a p) (h.get m)).getChild s =
        ((h.get m).getChild s).map (Address.map (Equiv.swap a p)) := by
      cases s <;> rfl
    rw [getChild_exchanged ha hp, hmap, map_swap]
    simp only [hgetA, hgetP]
    split_ifs with h₁ h₂ h₃ h₄
    · rfl
    · rfl
    · refine absurd ?_ h₃
      rw [hb.holeSide_eq]
      · exact ⟨h₂.2.1, h₂.2.2⟩
      · rintro rfl
        simp at h₂
    · refine absurd ?_ h₂
      have hpath : path ≠ [] := by
        rintro rfl
        exact ha h₄.1
      rw [hb.holeSide_eq hpath] at h₄
      exact ⟨by simpa using hpath, h₄⟩
    · rfl
  · have hmap : (MapItem.map (Equiv.swap a p) (h.get m)).parentPtr =
        ((h.get m).parentPtr).map (Address.map (Equiv.swap a p)) := rfl
    have hparentP : (h.get m).parentPtr = some (.item p) ↔ ptr pl = some m := by
      refine ⟨fun hparent => ?_, hb.view.tree.2.1.parentPtr_of_ptr⟩
      obtain ⟨s, hs⟩ := hwhole.getChild_of_parentPtr hm hparent
      rw [hb.view.tree.1] at hs
      cases s with
      | left => exact hs
      | right => cases hs
    have hparentA : (h.get m).parentPtr = some (.item a) ↔
        ptr r = some m ∨ path.isEmpty = false ∧ m = n := by
      constructor
      · intro hparent
        obtain ⟨s, hs⟩ := hwhole.getChild_of_parentPtr hm hparent
        rw [hnode.tree.1] at hs
        cases s with
        | left =>
            obtain rfl : n = m := Option.some.inj (hn.symm.trans hs)
            refine .inr ⟨?_, rfl⟩
            cases path with
            | nil => exact absurd (Option.some.inj hn).symm hp
            | cons f path => rfl
        | right => exact .inl hs
      · rintro (hr | ⟨-, rfl⟩)
        · exact hnode.tree.2.2.parentPtr_of_ptr hr
        · exact hnode.tree.2.1.parentPtr_of_ptr hn
    rw [parentPtr_exchanged ha hp, hmap, map_swap]
    by_cases hpl : ptr pl = some m
    · have hX := hparentP.mpr hpl
      rw [if_pos hpl, hX, if_neg, if_pos rfl]
      simpa using hapart.ne.symm
    · rw [if_neg hpl, if_neg (c := (h.get m).parentPtr = some (.item p)) (mt hparentP.mp hpl)]
      simp only [hparentA]
      split_ifs <;> simp_all

omit [DecidableEq ι] in
theorem exists_ptr_plug {f : Frame ι} {path : List (Frame ι)} {t : Shape ι} {n : Address ι}
    (hn : ptr (plug (f :: path) t) = some n) : ∃ y, n = .item y ∧ y ∈ outer (f :: path) := by
  induction path generalizing f t with
  | nil =>
      rw [plug_cons, plug_nil, Frame.fill, ptr_join] at hn
      exact ⟨f.item, (Option.some.inj hn).symm, mem_outer_cons.mpr (.inl rfl)⟩
  | cons g path ih =>
      rw [plug_cons] at hn
      obtain ⟨y, hy, hmem⟩ := ih hn
      exact ⟨y, hy, mem_outer_cons.mpr (.inr (.inr hmem))⟩

omit [DecidableEq ι] in
theorem ptr_ne_item {t : Shape ι} {x : ι} (hx : x ∉ t.items) : ptr t ≠ some (.item x) :=
  fun hptr => hx (mem_of_ptr hptr)

omit [DecidableEq ι] in
theorem top_ne_item {c : List (Frame ι)} {x : ι} (hx : x ∉ outer c) : top c ≠ .item x :=
  fun htop => hx (mem_outer_of_top htop)

theorem Before.get_exchanged_self (hb : Before h c path pl r a p b pb) {n : Address ι}
    (hn : ptr (plug path (Shape.node pl p pb nil)) = some n) :
    (exchanged h c path.isEmpty (top (path ++ ⟨.left, a, b, r⟩ :: c)) n pl r a p b pb).get
        (.item a) = MapItem.map (Equiv.swap a p) (h.get (.item p)) ∧
      (exchanged h c path.isEmpty (top (path ++ ⟨.left, a, b, r⟩ :: c)) n pl r a p b pb).get
        (.item p) = MapItem.map (Equiv.swap a p) (h.get (.item a)) := by
  have hapart := hb.apart
  have hitemP := hb.view.tree.1
  have hitemA := hb.node.tree.1
  have hpl := map_swap_of_ne (ptr_ne_item hapart.child.1) (ptr_ne_item hapart.child.2)
  have hr := map_swap_of_ne (ptr_ne_item hapart.right.1) (ptr_ne_item hapart.right.2)
  have htop : Address.map (Equiv.swap a p) (top c) = top c := by
    have hsome := map_swap_of_ne (x := some (top c)) (a := a) (p := p)
      (by simpa using top_ne_item hapart.outer.1) (by simpa using top_ne_item hapart.outer.2)
    simpa using hsome
  rw [hitemP, hitemA, map_linked, map_linked, hpl, hr, htop, ptr_nil, hn]
  have hne := hapart.ne
  have hne' := hapart.ne.symm
  have htopa := (top_ne_item hapart.outer.1).symm
  have htopp := (top_ne_item hapart.outer.2).symm
  have hra := ptr_ne_item hapart.right.1
  have hrp := ptr_ne_item hapart.right.2
  have hpla := ptr_ne_item hapart.child.1
  have hplp := ptr_ne_item hapart.child.2
  cases path with
  | nil =>
      obtain rfl : .item p = n := Option.some.inj hn
      simp only [exchanged, get_adopt, get_setParent, get_setChild, get_setNode]
      simp [Address.map, hne, hne', htopa, htopp, hra, hrp, hpla, hplp]
  | cons f path =>
      obtain ⟨y, rfl, hy⟩ := exists_ptr_plug hn
      have hpath : ∀ x ∈ outer (f :: path), x ≠ a ∧ x ≠ p := by
        intro x hx
        exact ⟨fun hxa => hapart.path.1 (hxa ▸ hx), fun hxp => hapart.path.2 (hxp ▸ hx)⟩
      obtain ⟨hya, hyp⟩ := hpath y hy
      obtain ⟨hfa, hfp⟩ := hpath f.item (mem_outer_cons.mpr (.inl rfl))
      simp only [exchanged, get_adopt, get_setParent, get_setChild, get_setNode]
      simp [Address.map, hne, htopa, htopp, hra, hrp, hpla, hplp, hya, hyp, hfa, hfp,
        hya.symm, hyp.symm, hfa.symm, hfp.symm, Equiv.swap_apply_of_ne_of_ne]

/-- The node and the node before have changed places. -/
theorem Before.exchanged (hb : Before h c path pl r a p b pb) {n : Address ι}
    (hn : ptr (plug path (Shape.node pl p pb nil)) = some n) :
    View (exchanged h c path.isEmpty (top (path ++ ⟨.left, a, b, r⟩ :: c)) n pl r a p b pb)
      (path ++ ⟨.left, p, b, r⟩ :: c) (Shape.node pl a pb nil) := by
  have hapart := hb.apart
  obtain ⟨hgetA, hgetP⟩ := hb.get_exchanged_self hn
  have hview := view_map hb.view (Equiv.swap a p).injective
    (hb.get_exchanged hn trivial nofun nofun) (by
      intro x hx
      rcases eq_or_ne x a with rfl | hxa
      · rw [Equiv.swap_apply_left]
        exact hgetP
      · rcases eq_or_ne x p with rfl | hxp
        · rw [Equiv.swap_apply_right]
          exact hgetA
        · rw [Equiv.swap_apply_of_ne_of_ne hxa hxp]
          exact hb.get_exchanged hn hx (by simpa using hxa) (by simpa using hxp))
  have hfixed : ∀ {xs : List ι}, a ∉ xs ∧ p ∉ xs → ∀ x ∈ xs, Equiv.swap a p x = x := by
    rintro xs ⟨ha, hp⟩ x hx
    exact Equiv.swap_apply_of_ne_of_ne (fun hxa => ha (hxa ▸ hx)) fun hxp => hp (hxp ▸ hx)
  rw [List.map_append, List.map_cons, map_of_fixed (hfixed hapart.path),
    map_of_fixed (hfixed hapart.outer), Frame.map, Shape.map_of_fixed (hfixed hapart.right),
    Equiv.swap_apply_left, Shape.map, Shape.map_of_fixed (hfixed hapart.child),
    Equiv.swap_apply_right] at hview
  exact hview

omit [DecidableEq ι] in
/-- The loop was not entered if the left child is the node before. -/
theorem Before.isNone_nextPtr (hb : Before h c path pl r a p b pb) {n : Address ι}
    (hn : ptr (plug path (Shape.node pl p pb nil)) = some n) :
    (h.get n).nextPtr.isNone = path.isEmpty := by
  rcases List.eq_nil_or_concat path with rfl | ⟨path, g, rfl⟩
  · obtain rfl : .item p = n := Option.some.inj hn
    rw [hb.view.tree.1]
    rfl
  · have hside : g.side = .right := hb.right g (by simp)
    have hlinked := hb.node.tree.2.1
    rw [List.concat_eq_append, plug_append, plug_cons, plug_nil, Frame.fill, hside] at hn hlinked
    rw [ptr_join] at hn
    obtain rfl : .item g.item = n := Option.some.inj hn
    rw [(linked_join.mp hlinked).1]
    have hne := mt ptr_eq_none.mp (plug_ne_nil path (t := Shape.node pl p pb nil) (by simp))
    change (ptr (plug path _)).isNone = _
    rw [Option.isNone_eq_false_iff.mpr (Option.isSome_iff_ne_none.mpr hne)]
    simp

theorem exchangeLinks_eq {n q : Address ι} {t : Option (Address ι)} (isChild : Bool) (hne : a ≠ p)
    (hitemA : h.get (.item a) = linked .left (some n) t (top c) b)
    (hitemP : h.get (.item p) = linked .left (ptr pl) none q pb) :
    exchangeLinks h (.item a) (.item p) n (top c) t b isChild =
      setNode (setNode h (.item a) (linked .left (ptr pl) none (if isChild then .item p else q) pb))
        (.item p) (linked .left (some (if isChild then .item a else n)) t (top c) b) := by
  have hpa : (.item p : Address ι) ≠ .item a := by simpa using hne.symm
  have hnode : ∀ z : Address ι,
      setParent (setBalance (setChild (setChild h (.item a) .left (ptr pl))
        (.item a) .right none) (.item a) pb) (.item a) (some z) =
        setNode h (.item a) (linked .left (ptr pl) none z pb) := by
    intro z
    simp only [setParent, setBalance, setChild, get_setNode, if_true, setNode_setNode, hitemA]
    rfl
  have hparent : (if isChild then some (.item p) else some q) =
      some (if isChild then .item p else q) := by
    cases isChild <;> rfl
  simp only [exchangeLinks, get_setChild, get_setBalance, if_neg hpa, hitemP, prevPtr_linked,
    nextPtr_linked, balance_linked, parentPtr_linked, hparent, hnode]
  simp only [setParent, setBalance, setChild, get_setNode, if_true, if_neg hpa, setNode_setNode,
    hitemP]
  rfl

omit [DecidableEq ι] in
/-- The parent of the node before, and the left child. -/
theorem Before.ends (hb : Before h c path pl r a p b pb) {n : Address ι}
    (hn : ptr (plug path (Shape.node pl p pb nil)) = some n) :
    path.isEmpty = true ∨ path.isEmpty = false ∧ top (path ++ ⟨.left, a, b, r⟩ :: c) ≠ .item a ∧
      top (path ++ ⟨.left, a, b, r⟩ :: c) ≠ .item p ∧ n ≠ .item p := by
  have hapart := hb.apart
  cases path with
  | nil => exact .inl rfl
  | cons f path =>
      obtain ⟨y, rfl, hy⟩ := exists_ptr_plug hn
      have hf : f.item ∈ outer (f :: path) := mem_outer_cons.mpr (.inl rfl)
      refine .inr ⟨rfl, ?_, ?_, ?_⟩
      · rintro ⟨⟩
        exact hapart.path.1 hf
      · rintro ⟨⟩
        exact hapart.path.2 hf
      · rintro ⟨⟩
        exact hapart.path.2 hy

theorem exchangeWithPrev_eq (hb : Before h c path pl r a p b pb) {n : Address ι} {fuel : Nat}
    (hn : ptr (plug path (Shape.node pl p pb nil)) = some n)
    (hlast : lastAlong .right h fuel n = some (.item p)) :
    exchangeWithPrev fuel h (.item a) = some
      (AvlRemoval.exchanged h c path.isEmpty (top (path ++ ⟨.left, a, b, r⟩ :: c)) n pl r a p
        b pb) := by
  have hapart := hb.apart
  have hitemP := hb.view.tree.1
  have hitemA := hb.node.tree.1
  have hside := hb.node.getChild_top (ptr_node _ _ _ _) .left
  have hchild := hb.isNone_nextPtr hn
  rw [hn] at hitemA
  rw [ptr_nil] at hitemP
  set d := path ++ ⟨.left, a, b, r⟩ :: c with hd
  set Q := if path.isEmpty then .item p else top d with hQ
  set L := if path.isEmpty then .item a else n with hL
  have hside' : (if decide ((h.get (top c)).prevPtr = some (.item a)) then Side.left else .right) =
      holeSide c := by
    have hleft : decide ((h.get (top c)).prevPtr = some (.item a)) = decide (.left = holeSide c) :=
      decide_eq_decide.mpr hside
    rw [hleft]
    cases holeSide c <;> rfl
  have htopa := (top_ne_item hapart.outer.1).symm
  have htopp := (top_ne_item hapart.outer.2).symm
  have hap : (.item a : Address ι) ≠ .item p := by simpa using hapart.ne
  have hends := hb.ends hn
  rw [← hd] at hends
  have hQa : .item a ≠ Q := by
    rcases hends with he | ⟨he, hqa, -, -⟩ <;> rw [hQ, he]
    · exact hap
    · exact hqa.symm
  have hLp : .item p ≠ L := by
    rcases hends with he | ⟨he, -, -, hnp⟩ <;> rw [hL, he]
    · exact hap.symm
    · exact hnp.symm
  set h₁ := setNode (setNode h (.item a) (linked .left (ptr pl) none Q pb)) (.item p)
    (linked .left (some L) (ptr r) (top c) b) with hh₁
  have hgeta : h₁.get (.item a) = linked .left (ptr pl) none Q pb := by
    rw [hh₁, get_setNode, if_neg hap, get_setNode, if_pos rfl]
  have hgetp : h₁.get (.item p) = linked .left (some L) (ptr r) (top c) b := by
    rw [hh₁, get_setNode, if_pos rfl]
  set h₂ := setChild h₁ Q (if path.isEmpty then .left else .right) (some (.item a)) with hh₂
  have hgetp₂ : h₂.get (.item p) = linked .left (some L) (ptr r) (top c) b := by
    rw [hh₂, get_setChild, hgetp]
    rcases hends with he | ⟨he, -, hqp, -⟩ <;> rw [hQ, hL, he]
    · simp
    · exact if_neg hqp.symm
  set h₃ := setChild h₂ (top c) (holeSide c) (some (.item p)) with hh₃
  have hgetp₃ : h₃.get (.item p) = linked .left (some L) (ptr r) (top c) b := by
    rw [hh₃, get_setChild, if_neg htopp, hgetp₂]
  set h₄ := setParent h₃ L (some (.item p)) with hh₄
  have hgetp₄ : h₄.get (.item p) = linked .left (some L) (ptr r) (top c) b := by
    rw [hh₄, get_setParent, if_neg hLp, hgetp₃]
  have hgeta₃ : h₃.get (.item a) = linked .left (ptr pl) none Q pb := by
    rw [hh₃, get_setChild, if_neg htopa, hh₂, get_setChild, if_neg hQa, hgeta]
  have hlinks : ((adopt h₄ (.item p) (ptr r)).get (.item a)).prevPtr = ptr pl := by
    rw [get_adopt, if_neg (ptr_ne_item hapart.right.1), hh₄, get_setParent, hgeta₃]
    split_ifs <;> rfl
  have hlinks' : ((adopt (adopt h₄ (.item p) (ptr r)) (.item a) (ptr pl)).get
      (.item a)).nextPtr = none := by
    rw [get_adopt, if_neg (ptr_ne_item hapart.child.1), get_adopt,
      if_neg (ptr_ne_item hapart.right.1), hh₄, get_setParent, hgeta₃]
    split_ifs <;> rfl
  simp only [exchangeWithPrev, hitemA, prevPtr_linked, nextPtr_linked, parentPtr_linked,
    balance_linked, Option.bind_eq_bind, Option.bind_some, hlast, hchild,
    exchangeLinks_eq path.isEmpty hapart.ne hitemA hitemP, ← hQ, ← hL, ← hh₁, hgeta, ← hh₂,
    hgetp₂, hside', ← hh₃, hgetp₃, ← hh₄, hgetp₄, hlinks, hlinks']
  rfl

theorem exchangeWithPrev_spec {l : Shape ι} {fuel : Nat} (hview : View h c (Shape.node l a b r))
    (hl : l ≠ nil) (hfuel : l.height ≤ fuel) :
    ∃ h' path p pl pb, l = plug path (Shape.node pl p pb nil) ∧ (∀ x ∈ path, x.side = .right) ∧
      exchangeWithPrev fuel h (.item a) = some h' ∧
      View h' (path ++ ⟨.left, p, b, r⟩ :: c) (Shape.node pl a pb nil) := by
  obtain ⟨path, p, pb, pl, n, hn, rfl, hright, hlast⟩ :=
    lastAlong_spec .right hview.tree.2.1 hl hfuel
  have hb : Before h c path pl r a p b pb := ⟨view_append.mpr (view_cons.mpr hview), hright⟩
  exact ⟨_, path, p, pl, pb, rfl, hright, exchangeWithPrev_eq hb hn hlast, hb.exchanged hn⟩

end Exchange

section Unlinking

variable [DecidableEq ι] {h : Nodes ι} {c : List (Frame ι)} {t T : Shape ι} {s : Side} {a : ι}
  {b : Balance}

/-- The only child takes the place of its parent. -/
theorem view_splice (hview : View h c (join s t a b nil)) :
    View (adopt (setChild h (top c) (holeSide c) (ptr t)) (top c) (ptr t)) c t := by
  obtain ⟨-, ht, -⟩ := linked_join.mp hview.tree
  obtain ⟨hnodup, houter, -⟩ := List.nodup_append.mp hview.disjoint
  obtain ⟨-, htnodup, -⟩ := nodup_join.mp hnodup
  have hmem : ∀ x ∈ t.items, x ∈ (join s t a b nil).items :=
    fun x hx => mem_items_join.mpr (.inl hx)
  refine ⟨ht.adopt htnodup ?_, hview.around.refill houter ?_ ?_, ?_⟩
  · intro x hx
    rw [get_adopt, get_adopt, get_setChild, if_neg (hview.top_ne (hmem x hx)).symm]
  · rw [get_adopt, if_neg ptr_ne_root]
  · intro x hx
    rw [get_adopt, if_neg]
    exact ptr_ne_item fun hxt => hview.notMem (hmem x hxt) hx
  · rw [(items_plug_perm c t).nodup_iff]
    refine List.nodup_append.mpr ⟨htnodup, houter, ?_⟩
    rintro x hx y hy rfl
    exact hview.notMem (hmem x hx) hy

theorem unlink_rebalances {fuel : Nat} (hview : View h c (join s t a b nil))
    (hfits : Fits c (t.height + 1)) (ht : t.Balanced) (hfuel : c.length < fuel) :
    ∃ h' t', unlink fuel h (.item a) = some h' ∧ Rebalanced h' [] (plug c t) t' := by
  obtain ⟨hitem, -, -⟩ := linked_join.mp hview.tree
  have hside : decide ((h.get (top c)).prevPtr = some (.item a)) = decide (holeSide c = .left) :=
    decide_eq_decide.mpr ((hview.getChild_top (ptr_join _ _ _ _ _) .left).trans eq_comm)
  have hhole : (if decide (holeSide c = .left) then Side.left else .right) = holeSide c := by
    cases holeSide c <;> rfl
  have hchild : (h.get (.item a)).prevPtr.or (h.get (.item a)).nextPtr = ptr t := by
    rw [hitem]
    cases s <;> simp [linked]
  obtain ⟨h', t', hloop, hrebalanced⟩ := shorterLoop_rebalances (view_splice hview) hfits ht hfuel
  refine ⟨h', t', ?_, hrebalanced⟩
  have hparent : (h.get (.item a)).parentPtr = some (top c) := by rw [hitem, parentPtr_linked]
  simp only [unlink, hchild, hparent, Option.bind_eq_bind, Option.bind_some, hside, hhole, hloop]

theorem view_setNode (hview : View h [] T) (ha : a ∉ T.items) (r : MapItem ι) :
    View (setNode h (.item a) r) [] T := by
  refine ⟨hview.tree.congr ?_, hview.around.congr ?_ nofun, hview.nodup⟩
  · intro x hx
    rw [get_setNode, if_neg]
    rintro ⟨⟩
    exact ha hx
  · rw [get_setNode, if_neg nofun]

/-- A node with a null pointer to a child: `l₁` and `l₂` are the items before and after it. -/
theorem unlink_splits {fuel : Nat} (hview : View h c (join s t a b nil))
    (hbalanced : (plug c (join s t a b nil)).Balanced)
    (hfuel : (plug c (join s t a b nil)).items.length < fuel) :
    ∃ h' T' l₁ l₂, unlink fuel h (.item a) = some h' ∧ View h' [] T' ∧ T'.Balanced ∧
      (plug c (join s t a b nil)).items = l₁ ++ a :: l₂ ∧ T'.items = l₁ ++ l₂ := by
  obtain ⟨hjoin, hfits⟩ := balanced_plug.mp hbalanced
  rw [height_join, height_nil, Nat.max_zero] at hfits
  have hlength := length_le_items c (join s t a b nil)
  have hdepth : c.length < fuel := by omega
  obtain ⟨h', T', hunlink, hrebalanced⟩ := unlink_rebalances hview hfits
    (balanced_join.mp hjoin).2.1 hdepth
  cases s with
  | left =>
      refine ⟨h', T', before c ++ t.items, after c, hunlink, hrebalanced.view,
        hrebalanced.balanced, ?_, ?_⟩
      · simp [items_plug, join, items]
      · rw [hrebalanced.items, items_plug, List.append_assoc]
  | right =>
      refine ⟨h', T', before c, t.items ++ after c, hunlink, hrebalanced.view,
        hrebalanced.balanced, ?_, ?_⟩
      · simp [items_plug, join, items]
      · rw [hrebalanced.items, items_plug]

theorem remove_splits {l r : Shape ι} {fuel : Nat} (hview : View h c (Shape.node l a b r))
    (hbalanced : (plug c (Shape.node l a b r)).Balanced)
    (hfuel : (plug c (Shape.node l a b r)).items.length < fuel) :
    ∃ h₁ h' T' l₁ l₂, leaveOneChild fuel h (.item a) = some h₁ ∧
      unlink fuel h₁ (.item a) = some h' ∧ View h' [] T' ∧ T'.Balanced ∧
      (plug c (Shape.node l a b r)).items = l₁ ++ a :: l₂ ∧ T'.items = l₁ ++ l₂ := by
  have hitem := hview.tree.1
  have hlength := length_le_items c (Shape.node l a b r)
  have hboth : ((h.get (.item a)).prevPtr.isSome && (h.get (.item a)).nextPtr.isSome) = true ↔
      l ≠ nil ∧ r ≠ nil := by
    rw [hitem, Bool.and_eq_true, Option.isSome_iff_ne_none, Option.isSome_iff_ne_none]
    exact and_congr (not_congr ptr_eq_none) (not_congr ptr_eq_none)
  rw [leaveOneChild]
  by_cases htwo : l ≠ nil ∧ r ≠ nil
  · rw [if_pos (hboth.mpr htwo)]
    have hheight : l.height ≤ fuel := by
      have hle := height_le_length l
      simp only [Shape.items, List.length_append, List.length_cons] at hlength
      omega
    obtain ⟨h₁, path, p, pl, pb, rfl, hright, hexchange, hview₁⟩ :=
      exchangeWithPrev_spec hview htwo.1 hheight
    -- The same tree, with the two items in each other's places.
    have hplug : plug c (Shape.node (plug path (Shape.node pl p pb nil)) a b r) =
        plug (path ++ ⟨.left, a, b, r⟩ :: c) (join .left pl p pb nil) := by
      rw [plug_append]
      rfl
    rw [hplug] at hbalanced hfuel ⊢
    have hbalanced₁ : (plug (path ++ ⟨.left, p, b, r⟩ :: c) (join .left pl a pb nil)).Balanced := by
      rw [balanced_plug, balanced_join, height_join] at hbalanced ⊢
      exact ⟨hbalanced.1, fits_setItem.mp hbalanced.2⟩
    have hbefore :
        before (path ++ ⟨.left, a, b, r⟩ :: c) = before (path ++ ⟨.left, p, b, r⟩ :: c) :=
      before_setItem
    have hitems : (plug (path ++ ⟨.left, a, b, r⟩ :: c) (join .left pl p pb nil)).items =
        before (path ++ ⟨.left, a, b, r⟩ :: c) ++ (pl.items ++ p :: a :: (r.items ++ after c)) := by
      rw [items_plug, after_of_right hright]
      simp [join, items, after]
    have hdepth : (path ++ ⟨.left, p, b, r⟩ :: c).length < fuel := by
      have hle := length_le_items (path ++ ⟨.left, a, b, r⟩ :: c) (join .left pl p pb nil)
      simp only [List.length_append, List.length_cons] at hle ⊢
      omega
    obtain ⟨h', T', hunlink, hrebalanced⟩ := unlink_rebalances (s := .left) hview₁
      (by simpa using (balanced_plug.mp hbalanced₁).2)
      (balanced_join.mp (balanced_plug.mp hbalanced₁).1).2.1 hdepth
    refine ⟨h₁, h', T', before (path ++ ⟨.left, a, b, r⟩ :: c) ++ (pl.items ++ [p]),
      r.items ++ after c, hexchange, hunlink, hrebalanced.view, hrebalanced.balanced, ?_, ?_⟩
    · rw [hitems]
      simp
    · rw [hrebalanced.items, items_plug, ← hbefore, after_of_right hright]
      simp [after]
  · rw [if_neg (mt hboth.mp htwo)]
    refine ⟨h, ?_⟩
    by_cases hr : r = nil
    · subst hr
      obtain ⟨h', T', l₁, l₂, hunlink, hview', hbalanced', hitems, hitems'⟩ :=
        unlink_splits (s := .left) hview hbalanced hfuel
      exact ⟨h', T', l₁, l₂, rfl, hunlink, hview', hbalanced', hitems, hitems'⟩
    · obtain rfl : l = nil := by
        by_contra hl
        exact htwo ⟨hl, hr⟩
      obtain ⟨h', T', l₁, l₂, hunlink, hview', hbalanced', hitems, hitems'⟩ :=
        unlink_splits (s := .right) hview hbalanced hfuel
      exact ⟨h', T', l₁, l₂, rfl, hunlink, hview', hbalanced', hitems, hitems'⟩

end Unlinking

section Represents

variable {κ : Type} [LinearOrder κ] [DecidableEq ι] {key : ι → κ} {t : AvlTree ι} {T : Shape ι}

/-- `removeItem()` of an item of the tree. -/
theorem removeItem_spec (hrep : Represents key t T) {x : ι} (hx : x ∈ T.items) {fuel : Nat}
    (hfuel : T.items.length < fuel) :
    ∃ t' T', removeItem fuel t (.item x) = some (t', some (.item x)) ∧ Represents key t' T' ∧
      T.items.Perm (x :: T'.items) := by
  obtain ⟨c, l, b, r, rfl, hview⟩ := hrep.view.focus hx
  obtain ⟨h₁, h', T', l₁, l₂, hexchange, hunlink, hview', hbalanced, hitems, hitems'⟩ :=
    remove_splits hview hrep.balanced hfuel
  have hperm : (plug c (Shape.node l x b r)).items.Perm (x :: T'.items) := by
    rw [hitems, hitems']
    exact List.perm_middle
  have hnodup : (x :: T'.items).Nodup := hperm.nodup_iff.mp hrep.view.nodup
  have hnotMem : x ∉ T'.items := (List.nodup_cons.mp hnodup).1
  refine ⟨{ nodes := setNode h' (.item x) (MapItem.initialized none)
            inList := Function.update t.inList (.item x) false }, T', ?_,
    ⟨view_setNode hview' hnotMem _, hbalanced, ?_, ?_⟩, hperm⟩
  · rw [removeItem, if_pos ((hrep.inList _).mpr ⟨x, hx, rfl⟩)]
    simp only [hexchange, hunlink, Option.bind_eq_bind, Option.bind_some]
    rfl
  · have hsorted := hrep.sorted
    rw [hitems, List.pairwise_append, List.pairwise_cons] at hsorted
    rw [hitems', List.pairwise_append]
    exact ⟨hsorted.1, hsorted.2.1.2,
      fun y hy z hz => hsorted.2.2 y hy z (List.mem_cons_of_mem _ hz)⟩
  · intro n
    simp only [Function.update_apply]
    split_ifs with hn
    · subst hn
      simpa using hnotMem
    · rw [hrep.inList]
      constructor
      · rintro ⟨y, hy, rfl⟩
        rcases List.mem_cons.mp (hperm.mem_iff.mp hy) with rfl | hy
        · exact absurd rfl hn
        · exact ⟨y, hy, rfl⟩
      · rintro ⟨y, hy, rfl⟩
        exact ⟨y, hperm.mem_iff.mpr (List.mem_cons_of_mem _ hy), rfl⟩

theorem removeItem_of_notMem (hrep : Represents key t T) {x : ι} (hx : x ∉ T.items) (fuel : Nat) :
    removeItem fuel t (.item x) = some (t, none) := by
  rw [removeItem, if_neg]
  intro hin
  obtain ⟨y, hy, hxy⟩ := (hrep.inList _).mp hin
  cases hxy
  exact hx hy

end Represents

end ColonyPico.Container.AvlRemoval
