import ColonyPico.Container.AvlTrees

/-!
The tree that the links of the items make, seen from one of its subtrees, and what the
operations on the links do to it.
-/

namespace ColonyPico.Container.AvlLinks

open ColonyPico.Container.AvlTrees
open ColonyPico.Foundations.BalancedTrees
open ColonyPico.Foundations.BalancedTrees.Shape

variable {ι : Type}

/-- An item of the tree, with `near` at its side `s`. -/
def linked (s : Side) (near far : Option (Address ι)) (parent : Address ι) (b : Balance) :
    MapItem ι :=
  match s with
  | .left => ⟨near, far, some parent, true, b⟩
  | .right => ⟨far, near, some parent, true, b⟩

/-- The root node above the tree at `p`. -/
def rootNode (p : Option (Address ι)) : MapItem ι :=
  ⟨p, none, none, false, .even⟩

theorem MapItem.ext_of {m n : MapItem ι} (hchild : ∀ s, m.getChild s = n.getChild s)
    (hparent : m.parentPtr = n.parentPtr) (hroot : m.isNotRoot = n.isNotRoot)
    (hbalance : m.balance = n.balance) : m = n := by
  obtain ⟨x, y, z, u, v⟩ := m
  obtain ⟨x', y', z', u', v'⟩ := n
  obtain rfl : x = x' := hchild .left
  obtain rfl : y = y' := hchild .right
  simp_all

section Fields

variable (n : MapItem ι) (s s' : Side) (p : Option (Address ι))

theorem getChild_setChild :
    (n.setChild s p).getChild s' = if s' = s then p else n.getChild s' := by
  cases s <;> cases s' <;> rfl

@[simp] theorem getChild_setParent : (n.setParent p).getChild s = n.getChild s := by
  cases s <;> rfl

@[simp] theorem parentPtr_setChild : (n.setChild s p).parentPtr = n.parentPtr := by
  cases s <;> rfl

@[simp] theorem parentPtr_setParent : (n.setParent p).parentPtr = p := rfl

@[simp] theorem isNotRoot_setChild : (n.setChild s p).isNotRoot = n.isNotRoot := by
  cases s <;> rfl

@[simp] theorem isNotRoot_setParent : (n.setParent p).isNotRoot = n.isNotRoot := rfl

@[simp] theorem balance_setChild : (n.setChild s p).balance = n.balance := by
  cases s <;> rfl

@[simp] theorem balance_setParent : (n.setParent p).balance = n.balance := rfl

end Fields

section Items

variable (s : Side) (near far p : Option (Address ι)) (parent q : Address ι) (b b' : Balance)

theorem linked_other : linked s.other far near parent b = linked s near far parent b := by
  cases s <;> rfl

@[simp] theorem getChild_linked : (linked s near far parent b).getChild s = near := by
  cases s <;> rfl

@[simp] theorem getChild_linked_other :
    (linked s near far parent b).getChild s.other = far := by
  cases s <;> rfl

@[simp] theorem prevPtr_linked : (linked .left near far parent b).prevPtr = near := rfl

@[simp] theorem nextPtr_linked : (linked .left near far parent b).nextPtr = far := rfl

@[simp] theorem parentPtr_linked : (linked s near far parent b).parentPtr = some parent := by
  cases s <;> rfl

@[simp] theorem isNotRoot_linked : (linked s near far parent b).isNotRoot = true := by
  cases s <;> rfl

@[simp] theorem balance_linked : (linked s near far parent b).balance = b := by
  cases s <;> rfl

@[simp] theorem setChild_linked :
    (linked s near far parent b).setChild s p = linked s p far parent b := by
  cases s <;> rfl

@[simp] theorem setChild_linked_other :
    (linked s near far parent b).setChild s.other p = linked s near p parent b := by
  cases s <;> rfl

@[simp] theorem setParent_linked :
    (linked s near far parent b).setParent (some q) = linked s near far q b := by
  cases s <;> rfl

@[simp] theorem setBalance_linked :
    (linked s near far parent b).setBalance b' = linked s near far parent b' := by
  cases s <;> rfl

end Items

/-- The pointer to a tree. -/
def ptr : Shape ι → Option (Address ι)
  | nil => none
  | node _ a _ _ => some (.item a)

@[simp] theorem ptr_nil : ptr (nil : Shape ι) = none := rfl

@[simp] theorem ptr_node (l : Shape ι) (a : ι) (b : Balance) (r : Shape ι) :
    ptr (node l a b r) = some (.item a) := rfl

@[simp] theorem ptr_join (s : Side) (near : Shape ι) (a : ι) (b : Balance) (far : Shape ι) :
    ptr (join s near a b far) = some (.item a) := by
  cases s <;> rfl

theorem ptr_eq_none {t : Shape ι} : ptr t = none ↔ t = nil := by
  cases t <;> simp

theorem mem_of_ptr {t : Shape ι} {x : ι} (h : ptr t = some (.item x)) : x ∈ t.items := by
  cases t with
  | nil => simp at h
  | node l a b r =>
      injection h with h
      injection h with h
      simp [items, h]

theorem ptr_ne_root {t : Shape ι} : ptr t ≠ some .root := by
  cases t <;> nofun

/-- The items of the tree are linked, below `parent`. -/
def Linked (h : Nodes ι) : Address ι → Shape ι → Prop
  | _, nil => True
  | parent, node l a b r => h.get (.item a) = linked .left (ptr l) (ptr r) parent b ∧
      Linked h (.item a) l ∧ Linked h (.item a) r

@[simp] theorem linked_nil (h : Nodes ι) (parent : Address ι) : Linked h parent nil := trivial

theorem linked_join {h : Nodes ι} {parent : Address ι} {s : Side} {near far : Shape ι} {a : ι}
    {b : Balance} : Linked h parent (join s near a b far) ↔
      h.get (.item a) = linked s (ptr near) (ptr far) parent b ∧
        Linked h (.item a) near ∧ Linked h (.item a) far := by
  cases s with
  | left => rfl
  | right =>
      rw [← linked_other]
      simp only [join, Linked, Side.other, and_comm]

/-- The node above the subtree, and the side at which it has the subtree. -/
def top : List (Frame ι) → Address ι
  | [] => .root
  | f :: _ => .item f.item

@[simp] theorem top_cons (f : Frame ι) (c : List (Frame ι)) : top (f :: c) = .item f.item := rfl

def holeSide : List (Frame ι) → Side
  | [] => .left
  | f :: _ => f.side

@[simp] theorem holeSide_nil : holeSide ([] : List (Frame ι)) = .left := rfl

@[simp] theorem holeSide_cons (f : Frame ι) (c : List (Frame ι)) : holeSide (f :: c) = f.side := rfl

/-- The items around the subtree at `p` are linked. -/
def LinkedAround (h : Nodes ι) : List (Frame ι) → Option (Address ι) → Prop
  | [], p => h.get .root = rootNode p
  | f :: c, p => h.get (.item f.item) = linked f.side p (ptr f.sibling) (top c) f.balance ∧
      Linked h (.item f.item) f.sibling ∧ LinkedAround h c (some (.item f.item))

/-- The links make the tree `plug c t`. -/
structure View (h : Nodes ι) (c : List (Frame ι)) (t : Shape ι) : Prop where
  tree : Linked h (top c) t
  around : LinkedAround h c (ptr t)
  nodup : (plug c t).items.Nodup

theorem view_cons {h : Nodes ι} {f : Frame ι} {c : List (Frame ι)} {t : Shape ι} :
    View h (f :: c) t ↔ View h c (f.fill t) := by
  have hfill : Linked h (top c) (f.fill t) ↔
      h.get (.item f.item) = linked f.side (ptr t) (ptr f.sibling) (top c) f.balance ∧
        Linked h (.item f.item) t ∧ Linked h (.item f.item) f.sibling := linked_join
  constructor
  · rintro ⟨htree, ⟨hitem, hsibling, haround⟩, hnodup⟩
    refine ⟨hfill.mpr ⟨hitem, htree, hsibling⟩, ?_, hnodup⟩
    rwa [Frame.fill, ptr_join]
  · rintro ⟨htree, haround, hnodup⟩
    obtain ⟨hitem, htree, hsibling⟩ := hfill.mp htree
    rw [Frame.fill, ptr_join] at haround
    exact ⟨htree, ⟨hitem, hsibling, haround⟩, hnodup⟩

theorem view_append {h : Nodes ι} {c d : List (Frame ι)} {t : Shape ι} :
    View h (c ++ d) t ↔ View h d (plug c t) := by
  induction c generalizing t with
  | nil => rfl
  | cons f c ih => rw [List.cons_append, view_cons, ih, plug_cons]

theorem View.disjoint {h : Nodes ι} {c : List (Frame ι)} {t : Shape ι} (hview : View h c t) :
    (t.items ++ outer c).Nodup :=
  (items_plug_perm c t).nodup_iff.mp hview.nodup

theorem mem_outer_of_top {c : List (Frame ι)} {x : ι} (h : top c = .item x) : x ∈ outer c := by
  cases c with
  | nil => simp [top] at h
  | cons f c =>
      injection h with h
      exact mem_outer_cons.mpr (.inl h.symm)

theorem Linked.congr {h h' : Nodes ι} {parent : Address ι} {t : Shape ι}
    (hlinked : Linked h parent t)
    (hsame : ∀ x ∈ t.items, h'.get (.item x) = h.get (.item x)) : Linked h' parent t := by
  induction t generalizing parent with
  | nil => trivial
  | node l a b r ihl ihr =>
      obtain ⟨hitem, hl, hr⟩ := hlinked
      refine ⟨(hsame a (by simp [items])).trans hitem, ihl hl ?_, ihr hr ?_⟩
      · intro x hx
        exact hsame x (by simp [items, hx])
      · intro x hx
        exact hsame x (by simp [items, hx])

theorem LinkedAround.congr {h h' : Nodes ι} {c : List (Frame ι)} {p : Option (Address ι)}
    (hlinked : LinkedAround h c p) (hroot : h'.get .root = h.get .root)
    (hsame : ∀ x ∈ outer c, h'.get (.item x) = h.get (.item x)) :
    LinkedAround h' c p := by
  induction c generalizing p with
  | nil => exact hroot.trans hlinked
  | cons f c ih =>
      obtain ⟨hitem, hsibling, haround⟩ := hlinked
      refine ⟨(hsame _ (mem_outer_cons.mpr (.inl rfl))).trans hitem, hsibling.congr ?_,
        ih haround ?_⟩
      · intro x hx
        exact hsame x (mem_outer_cons.mpr (.inr (.inl hx)))
      · intro x hx
        exact hsame x (mem_outer_cons.mpr (.inr (.inr hx)))

variable [DecidableEq ι]

section Writes

variable (h : Nodes ι) (n m : Address ι)

theorem get_setNode (r : MapItem ι) : (setNode h n r).get m = if m = n then r else h.get m :=
  Function.update_apply h.get n r m

theorem get_setChild (s : Side) (p : Option (Address ι)) :
    (setChild h n s p).get m = if m = n then (h.get m).setChild s p else h.get m := by
  rw [setChild, get_setNode]
  split_ifs with hm <;> simp [hm]

theorem get_setParent (p : Option (Address ι)) :
    (setParent h n p).get m = if m = n then (h.get m).setParent p else h.get m := by
  rw [setParent, get_setNode]
  split_ifs with hm <;> simp [hm]

theorem get_setBalance (b : Balance) :
    (setBalance h n b).get m = if m = n then (h.get m).setBalance b else h.get m := by
  rw [setBalance, get_setNode]
  split_ifs with hm <;> simp [hm]

theorem get_adopt (p : Option (Address ι)) : (adopt h n p).get m =
    if p = some m then (h.get m).setParent (some n) else h.get m := by
  cases p with
  | none => rfl
  | some c =>
      rw [adopt, get_setParent]
      simp only [Option.some.injEq, eq_comm]

end Writes

theorem Linked.adopt {h h' : Nodes ι} {parent q : Address ι} {t : Shape ι}
    (hlinked : Linked h parent t) (hnodup : t.items.Nodup)
    (hsame : ∀ x ∈ t.items, h'.get (.item x) = (adopt h q (ptr t)).get (.item x)) :
    Linked h' q t := by
  cases t with
  | nil => trivial
  | node l a b r =>
      obtain ⟨hitem, hl, hr⟩ := hlinked
      simp only [items, List.nodup_append, List.nodup_cons, List.mem_cons] at hnodup
      simp only [ptr, get_adopt, Option.some.injEq, Address.item.injEq] at hsame
      refine ⟨?_, hl.congr ?_, hr.congr ?_⟩
      · rw [hsame a (by simp [items]), if_pos rfl, hitem, setParent_linked]
      · intro x hx
        rw [hsame x (by simp [items, hx]), if_neg]
        rintro rfl
        exact hnodup.2.2 a hx a (.inl rfl) rfl
      · intro x hx
        rw [hsame x (by simp [items, hx]), if_neg]
        rintro rfl
        exact hnodup.2.1.1 hx

theorem LinkedAround.refill {h h' : Nodes ι} {c : List (Frame ι)} {p p' : Option (Address ι)}
    (hlinked : LinkedAround h c p) (hnodup : (outer c).Nodup)
    (hroot : h'.get .root = (setChild h (top c) (holeSide c) p').get .root)
    (hsame : ∀ x ∈ outer c,
      h'.get (.item x) = (setChild h (top c) (holeSide c) p').get (.item x)) :
    LinkedAround h' c p' := by
  simp only [get_setChild] at hroot hsame
  cases c with
  | nil =>
      rw [LinkedAround] at hlinked ⊢
      rw [hroot, hlinked]
      rfl
  | cons f c =>
      obtain ⟨hitem, hsibling, haround⟩ := hlinked
      rw [(outer_cons_perm f c).nodup_iff, List.nodup_cons, List.mem_append, not_or] at hnodup
      simp only [top, holeSide, Address.item.injEq] at hsame
      refine ⟨?_, hsibling.congr ?_, haround.congr hroot ?_⟩
      · rw [hsame _ (mem_outer_cons.mpr (.inl rfl)), if_pos rfl, hitem, setChild_linked]
      · intro x hx
        rw [hsame x (mem_outer_cons.mpr (.inr (.inl hx))), if_neg]
        rintro rfl
        exact hnodup.1.1 hx
      · intro x hx
        rw [hsame x (mem_outer_cons.mpr (.inr (.inr hx))), if_neg]
        rintro rfl
        exact hnodup.1.2 hx

section Views

variable {h : Nodes ι} {c : List (Frame ι)} {t : Shape ι}

omit [DecidableEq ι]

theorem View.notMem (hview : View h c t) {x : ι} (hx : x ∈ t.items) : x ∉ outer c := by
  intro hx'
  exact (List.nodup_append.mp hview.disjoint).2.2 x hx x hx' rfl

theorem View.top_ne (hview : View h c t) {x : ι} (hx : x ∈ t.items) : top c ≠ .item x := by
  intro htop
  exact hview.notMem hx (mem_outer_of_top htop)

theorem View.getChild_top (hview : View h c t) {n : Address ι} (hn : ptr t = some n) (s : Side) :
    (h.get (top c)).getChild s = some n ↔ s = holeSide c := by
  have haround := hview.around
  rw [hn] at haround
  cases c with
  | nil =>
      rw [top, haround]
      cases s <;> simp [MapItem.getChild, rootNode, holeSide]
  | cons f c =>
      rw [top, haround.1, holeSide]
      rcases f.side.eq_or_eq_other s with rfl | rfl
      · simp
      · simp only [getChild_linked_other, Side.other_ne, iff_false]
        intro hsibling
        cases n with
        | root => exact ptr_ne_root hsibling
        | item x =>
            exact hview.notMem (mem_of_ptr hn)
              (mem_outer_cons.mpr (.inr (.inl (mem_of_ptr hsibling))))

end Views

section Consistency

variable {h : Nodes ι} {c : List (Frame ι)} {t T : Shape ι} {a : ι}

omit [DecidableEq ι]

/-- The root node and the items of the tree. -/
def IsNode (T : Shape ι) : Address ι → Prop
  | .root => True
  | .item x => x ∈ T.items

theorem View.focus (hview : View h [] T) (ha : a ∈ T.items) :
    ∃ c l b r, T = plug c (node l a b r) ∧ View h c (node l a b r) := by
  obtain ⟨c, l, b, r, rfl⟩ := exists_focus ha
  refine ⟨c, l, b, r, rfl, ?_⟩
  rwa [← view_append, List.append_nil] at hview

theorem Linked.parentPtr_of_ptr {parent : Address ι} (hlinked : Linked h parent t) {m : Address ι}
    (hm : ptr t = some m) : (h.get m).parentPtr = some parent := by
  cases t with
  | nil => simp at hm
  | node l a b r =>
      injection hm with hm
      rw [← hm, hlinked.1, parentPtr_linked]

theorem View.parentPtr_of_child (hview : View h [] T) {n m : Address ι} (hn : IsNode T n)
    {s : Side} (hm : (h.get n).getChild s = some m) : (h.get m).parentPtr = some n := by
  cases n with
  | root =>
      have hroot : h.get .root = rootNode (ptr T) := hview.around
      rw [hroot] at hm
      cases s with
      | left => exact hview.tree.parentPtr_of_ptr hm
      | right => simp [MapItem.getChild, rootNode] at hm
  | item x =>
      obtain ⟨c, l, b, r, -, hfocus⟩ := hview.focus hn
      obtain ⟨hitem, hl, hr⟩ := hfocus.tree
      rw [hitem] at hm
      cases s with
      | left => exact hl.parentPtr_of_ptr hm
      | right => exact hr.parentPtr_of_ptr hm

theorem View.child_of_parentPtr (hview : View h [] T) {x : ι} (hx : x ∈ T.items) {m : Address ι}
    (hm : (h.get (.item x)).parentPtr = some m) :
    IsNode T m ∧ ∃ s, (h.get m).getChild s = some (.item x) := by
  obtain ⟨c, l, b, r, rfl, hfocus⟩ := hview.focus hx
  rw [hfocus.tree.1, parentPtr_linked] at hm
  injection hm with hm
  subst hm
  refine ⟨?_, holeSide c, (hfocus.getChild_top rfl _).mpr rfl⟩
  cases htop : top c with
  | root => trivial
  | item y =>
      rw [IsNode, (items_plug_perm c _).mem_iff]
      exact List.mem_append_right _ (mem_outer_of_top htop)

theorem View.getChild_of_parentPtr (hview : View h [] T) {n m : Address ι} (hn : IsNode T n)
    (hm : (h.get n).parentPtr = some m) : ∃ s, (h.get m).getChild s = some n := by
  cases n with
  | root =>
      have hroot : h.get .root = rootNode (ptr T) := hview.around
      rw [hroot] at hm
      cases hm
  | item x => exact (hview.child_of_parentPtr hn hm).2

theorem View.getChild_iff (hview : View h c t) {n m : Address ι} (hn : IsNode (plug c t) n)
    (hm : ptr t = some m) (s : Side) :
    (h.get n).getChild s = some m ↔ n = top c ∧ s = holeSide c := by
  have hwhole : View h [] (plug c t) := by rwa [← view_append, List.append_nil]
  constructor
  · intro hchild
    have hparent := hwhole.parentPtr_of_child hn hchild
    rw [hview.tree.parentPtr_of_ptr hm] at hparent
    injection hparent with hparent
    subst hparent
    exact ⟨rfl, (hview.getChild_top hm s).mp hchild⟩
  · rintro ⟨rfl, rfl⟩
    exact (hview.getChild_top hm _).mpr rfl

end Consistency

section Rotation

variable {h : Nodes ι} {c : List (Frame ι)} {s : Side} {x y z : Shape ι} {a l : ι} {b d : Balance}

/-- What a rotation writes. -/
def rotated (s : Side) (h : Nodes ι) (c : List (Frame ι)) (y : Shape ι) (a l : ι) : Nodes ι :=
  let h := setChild h (.item a) s (ptr y)
  let h := setChild h (.item l) s.other (some (.item a))
  let h := setChild h (top c) (holeSide c) (some (.item l))
  let h := adopt h (.item a) (ptr y)
  let h := setParent h (.item l) (some (top c))
  setParent h (.item a) (some (.item l))

omit [DecidableEq ι] in
theorem View.apart (hview : View h c (join s (join s x l d y) a b z)) :
    a ≠ l ∧ top c ≠ .item a ∧ top c ≠ .item l ∧ ∀ w ∈ y.items, w ≠ a ∧ w ≠ l ∧ top c ≠ .item w := by
  have hnodup := (List.nodup_append.mp hview.disjoint).1
  rw [nodup_join, nodup_join] at hnodup
  obtain ⟨⟨ha, -⟩, ⟨⟨-, hl⟩, -⟩, -⟩ := hnodup
  have hmem : ∀ w, w ∈ (join s x l d y).items ∨ w = a → top c ≠ .item w := by
    intro w hw
    exact hview.top_ne (mem_items_join.mpr (hw.imp_right .inl))
  refine ⟨?_, hmem a (.inr rfl), hmem l (.inl (mem_items_join.mpr (.inr (.inl rfl)))), ?_⟩
  · rintro rfl
    exact ha (mem_items_join.mpr (.inr (.inl rfl)))
  · intro w hw
    have hw' : w ∈ (join s x l d y).items := mem_items_join.mpr (.inr (.inr hw))
    refine ⟨?_, ?_, hmem w (.inl hw')⟩
    · rintro rfl
      exact ha hw'
    · rintro rfl
      exact hl hw

theorem rotate_eq (hview : View h c (join s (join s x l d y) a b z)) :
    rotate s h (.item a) = some (rotated s h c y a l, .item l) := by
  obtain ⟨hal, htopa, htopl, hy⟩ := hview.apart
  obtain ⟨hitem, hnear, -⟩ := linked_join.mp hview.tree
  obtain ⟨hitem', -, -⟩ := linked_join.mp hnear
  have hside := hview.getChild_top (ptr_join _ _ _ _ _)
  rw [ptr_join] at hitem
  have hother : (h.get (.item l)).getChild s.other = ptr y := by
    rw [hitem', getChild_linked_other]
  set h₂ := setChild (setChild h (.item a) s (ptr y)) (.item l) s.other (some (.item a)) with hh₂
  have hitem₂ : h₂.get (.item a) = linked s (ptr y) (ptr z) (top c) b := by
    simp [hh₂, get_setChild, hal, hitem]
  have htop₂ : h₂.get (top c) = h.get (top c) := by
    simp [hh₂, get_setChild, htopa, htopl]
  have hreplace :
      (if (h₂.get (top c)).getChild s.other = some (.item a) then
        setChild h₂ (top c) s.other (some (.item l))
      else setChild h₂ (top c) s (some (.item l))) =
        setChild h₂ (top c) (holeSide c) (some (.item l)) := by
    simp only [htop₂, hside]
    split_ifs with hs
    · rw [hs]
    · rcases (holeSide c).eq_or_eq_other s with hs' | hs'
      · rw [hs']
      · exact absurd (by rw [hs', Side.other_other]) hs
  set h₃ := setChild h₂ (top c) (holeSide c) (some (.item l)) with hh₃
  have hitem₃ : h₃.get (.item a) = linked s (ptr y) (ptr z) (top c) b := by
    rw [hh₃, get_setChild, if_neg htopa.symm, hitem₂]
  have hitem₄ : (adopt h₃ (.item a) (ptr y)).get (.item a) =
      linked s (ptr y) (ptr z) (top c) b := by
    rw [get_adopt, if_neg, hitem₃]
    intro hptr
    exact (hy a (mem_of_ptr hptr)).1 rfl
  simp only [rotate, bind, Option.bind, hitem, getChild_linked, hother, ← hh₂, hitem₂,
    parentPtr_linked, hreplace, hitem₃, hitem₄]
  rfl

theorem View.rotated (hview : View h c (join s (join s x l d y) a b z)) :
    View (rotated s h c y a l) c (join s x l d (join s y a b z)) := by
  obtain ⟨hal, htopa, htopl, hapart⟩ := hview.apart
  obtain ⟨hitem, hnear, hz⟩ := linked_join.mp hview.tree
  obtain ⟨hitem', hx, hy⟩ := linked_join.mp hnear
  rw [ptr_join] at hitem
  obtain ⟨hnodup, houter, -⟩ := List.nodup_append.mp hview.disjoint
  rw [nodup_join, nodup_join] at hnodup
  obtain ⟨⟨ha, haz⟩, ⟨⟨hlx, hly⟩, hxnodup, hynodup, hxy⟩, hznodup, hlz⟩ := hnodup
  have hmem : ∀ w, w ∈ x.items ∨ w = l ∨ w ∈ y.items → w ∈ (join s x l d y).items :=
    fun w hw => mem_items_join.mpr hw
  have hptr : ∀ w, w ∉ y.items → ptr y ≠ some (.item w) := fun w hw hptr => hw (mem_of_ptr hptr)
  have hget : ∀ n : Address ι, n ≠ .item a → n ≠ .item l → ptr y ≠ some n →
      (AvlLinks.rotated s h c y a l).get n =
        (setChild h (top c) (holeSide c) (some (.item l))).get n := by
    intro n hna hnl hny
    simp [AvlLinks.rotated, get_setParent, get_adopt, get_setChild, hna, hnl, hny]
  have hkeep : ∀ w, w ≠ a → w ≠ l → w ∉ y.items → top c ≠ .item w →
      (AvlLinks.rotated s h c y a l).get (.item w) = h.get (.item w) := by
    intro w hwa hwl hwy hwtop
    rw [hget _ (by simpa) (by simpa) (hptr w hwy), get_setChild, if_neg hwtop.symm]
  have hitema : (AvlLinks.rotated s h c y a l).get (.item a) =
      linked s (ptr y) (ptr z) (.item l) b := by
    simp [AvlLinks.rotated, get_setParent, get_adopt, get_setChild, hal, htopa.symm, hitem,
      hptr a fun hay => ha (hmem a (.inr (.inr hay)))]
  have hiteml : (AvlLinks.rotated s h c y a l).get (.item l) =
      linked s (ptr x) (some (.item a)) (top c) d := by
    simp [AvlLinks.rotated, get_setParent, get_adopt, get_setChild, hal.symm, htopl.symm, hitem',
      hptr l hly]
  refine ⟨linked_join.mpr ⟨?_, hx.congr ?_, linked_join.mpr ⟨hitema, hy.adopt hynodup ?_,
    hz.congr ?_⟩⟩, ?_, ?_⟩
  · rw [hiteml, ptr_join]
  · intro w hw
    have hw' := hmem w (.inl hw)
    exact hkeep w (fun hwa => ha (hwa ▸ hw')) (fun hwl => hlx (hwl ▸ hw)) (hxy w hw)
      (hview.top_ne (mem_items_join.mpr (.inl hw')))
  · intro w hw
    obtain ⟨hwa, hwl, hwtop⟩ := hapart w hw
    simp [AvlLinks.rotated, get_setParent, get_adopt, get_setChild, hwa, hwl, hwtop.symm]
  · intro w hw
    exact hkeep w (fun hwa => haz (hwa ▸ hw))
      (fun hwl => hlz l (hmem l (.inr (.inl rfl))) (hwl ▸ hw))
      (fun hwy => hlz w (hmem w (.inr (.inr hwy))) hw)
      (hview.top_ne (mem_items_join.mpr (.inr (.inr hw))))
  · rw [ptr_join]
    have haround := hview.around
    refine haround.refill houter (hget _ nofun nofun ptr_ne_root) ?_
    intro w hw
    refine hget _ ?_ ?_ (hptr w fun hwy => ?_)
    · rintro ⟨⟩
      exact hview.notMem (mem_items_join.mpr (.inr (.inl rfl))) hw
    · rintro ⟨⟩
      exact hview.notMem (mem_items_join.mpr (.inl (hmem l (.inr (.inl rfl))))) hw
    · exact hview.notMem (mem_items_join.mpr (.inl (hmem w (.inr (.inr hwy))))) hw
  · rw [items_plug, items_rotate s x y z a l b b d d, ← items_plug]
    exact hview.nodup

theorem View.rotate (hview : View h c (join s (join s x l d y) a b z)) :
    ∃ h', rotate s h (.item a) = some (h', .item l) ∧
      View h' c (join s x l d (join s y a b z)) :=
  ⟨_, rotate_eq hview, hview.rotated⟩

theorem View.setBalance {t u : Shape ι} (hview : View h c (join s t a b u)) (b' : Balance) :
    View (setBalance h (.item a) b') c (join s t a b' u) := by
  obtain ⟨hitem, ht, hu⟩ := linked_join.mp hview.tree
  have hnodup := nodup_join.mp (List.nodup_append.mp hview.disjoint).1
  have hkeep : ∀ n : Address ι, n ≠ .item a →
      (AvlTrees.setBalance h (.item a) b').get n = h.get n := by
    intro n hn
    rw [get_setBalance, if_neg hn]
  refine ⟨linked_join.mpr ⟨?_, ht.congr ?_, hu.congr ?_⟩, ?_, ?_⟩
  · rw [get_setBalance, if_pos rfl, hitem, setBalance_linked]
  · intro w hw
    refine hkeep _ ?_
    rintro ⟨⟩
    exact hnodup.1.1 hw
  · intro w hw
    refine hkeep _ ?_
    rintro ⟨⟩
    exact hnodup.1.2 hw
  · have haround := hview.around
    rw [ptr_join] at haround ⊢
    refine haround.congr (hkeep _ nofun) ?_
    intro w hw
    refine hkeep _ ?_
    rintro ⟨⟩
    exact hview.notMem (mem_items_join.mpr (.inr (.inl rfl))) hw
  · rw [items_plug, items_setBalance s t a b' b u, ← items_plug]
    exact hview.nodup

theorem View.setBalance_child {s' : Side} {t u : Shape ι}
    (hview : View h c (join s (join s' t l d u) a b z)) (d' : Balance) :
    View (AvlTrees.setBalance h (.item l) d') c (join s (join s' t l d' u) a b z) := by
  have hchild : View h (⟨s, a, b, z⟩ :: c) (join s' t l d u) := view_cons.mpr hview
  exact view_cons.mp (hchild.setBalance d')

end Rotation

section Rebalancing

variable {h : Nodes ι} {c : List (Frame ι)} {s : Side} {x y z p q : Shape ι} {a l g : ι}
  {b d e : Balance}

theorem setNode_setNode (h : Nodes ι) (n : Address ι) (r r' : MapItem ι) :
    setNode (setNode h n r) n r' = setNode h n r' := by
  rw [setNode, setNode, setNode, Function.update_idem]

theorem setNode_self (h : Nodes ι) (n : Address ι) : setNode h n (h.get n) = h := by
  rw [setNode, Function.update_eq_self]

/-- The grandchild comes up between the node and its child. -/
theorem View.rotate_child (hview : View h c (join s (join s x l d (join s p g e q)) a b z))
    (b' d' : Balance) :
    ∃ h', AvlTrees.rotate s.other (AvlTrees.setBalance (AvlTrees.setBalance
        (AvlTrees.setBalance h (.item a) b') (.item l) d') (.item g) .even) (.item l) =
          some (h', .item g) ∧
      View h' c (join s (join s (join s x l d' p) g .even q) a b' z) := by
  have h₂ := (hview.setBalance b').setBalance_child d'
  have h₃ : View _ (⟨s, a, b', z⟩ :: c) (join s x l d' (join s p g e q)) := view_cons.mpr h₂
  rw [← join_other s x l d', ← join_other s p g e q] at h₃
  obtain ⟨h', hrotate, hview'⟩ := (h₃.setBalance_child .even).rotate
  rw [join_other, join_other] at hview'
  exact ⟨h', hrotate, view_cons.mp hview'⟩

theorem grew_single (hview : View h c (join s (join s x l (.tilted s) y) a b z)) :
    ∃ h', grew s h (.item a) = some (h', false) ∧
      View h' c (join s x l .even (join s y a .even z)) := by
  obtain ⟨hitem, hnear, -⟩ := linked_join.mp hview.tree
  obtain ⟨hitem', -, -⟩ := linked_join.mp hnear
  obtain ⟨h', hrotate, hview'⟩ := ((hview.setBalance .even).setBalance_child .even).rotate
  refine ⟨h', ?_, hview'⟩
  simp [grew, hitem, hitem', hrotate]

theorem grew_double
    (hview : View h c (join s (join s x l (.tilted s.other) (join s p g e q)) a b z)) :
    ∃ h', grew s h (.item a) = some (h', false) ∧
      View h' c (join s (join s x l (doubleBalances s e).2 p) g .even
        (join s q a (doubleBalances s e).1 z)) := by
  obtain ⟨hitem, hnear, -⟩ := linked_join.mp hview.tree
  obtain ⟨hitem', -, hfar⟩ := linked_join.mp hnear
  obtain ⟨hitem'', -, -⟩ := linked_join.mp hfar
  obtain ⟨h₁, hrotate₁, hview₁⟩ :=
    hview.rotate_child (doubleBalances s e).1 (doubleBalances s e).2
  -- The two writes between the rotations store what is there.
  obtain ⟨hitema, hnearg, -⟩ := linked_join.mp hview₁.tree
  obtain ⟨hitemg, -, -⟩ := linked_join.mp hnearg
  have hchild : AvlTrees.setChild h₁ (.item a) s (some (.item g)) = h₁ := by
    have hsame := setNode_self h₁ (.item a)
    rw [setChild, hitema, ptr_join, setChild_linked]
    rwa [hitema, ptr_join] at hsame
  have hparent : AvlTrees.setParent h₁ (.item g) (some (.item a)) = h₁ := by
    have hsame := setNode_self h₁ (.item g)
    rw [setParent, hitemg, setParent_linked]
    rwa [hitemg] at hsame
  obtain ⟨h₂, hrotate₂, hview₂⟩ := hview₁.rotate
  refine ⟨h₂, ?_, hview₂⟩
  simp [grew, hitem, hitem', hitem'', hrotate₁, hchild, hparent, hrotate₂]

/-- A rotation after which the balances of both nodes are set. -/
theorem View.rotate_setBalance (hview : View h c (join s (join s x l d y) a b z))
    (b' d' : Balance) :
    ∃ h', AvlTrees.rotate s h (.item a) = some (h', .item l) ∧
      View (AvlTrees.setBalance (AvlTrees.setBalance h' (.item a) b') (.item l) d') c
        (join s x l d' (join s y a b' z)) := by
  obtain ⟨h', hrotate, hview'⟩ := hview.rotate
  rw [← join_other] at hview'
  have hview'' := (hview'.setBalance_child b').setBalance d'
  rw [join_other] at hview''
  exact ⟨h', hrotate, hview''⟩

theorem lost_single (hview : View h c (join s (join s x l (.tilted s) y) a b z)) :
    ∃ h', lost s h (.item a) = some (h', true) ∧
      View h' c (join s x l .even (join s y a .even z)) := by
  obtain ⟨hitem, hnear, -⟩ := linked_join.mp hview.tree
  obtain ⟨hitem', -, -⟩ := linked_join.mp hnear
  obtain ⟨h', hrotate, hview'⟩ := hview.rotate_setBalance .even .even
  refine ⟨_, ?_, hview'⟩
  simp [lost, hitem, hitem', hrotate]

theorem lost_even (hview : View h c (join s (join s x l .even y) a b z)) :
    ∃ h', lost s h (.item a) = some (h', false) ∧
      View h' c (join s x l (.tilted s.other) (join s y a (.tilted s) z)) := by
  obtain ⟨hitem, hnear, -⟩ := linked_join.mp hview.tree
  obtain ⟨hitem', -, -⟩ := linked_join.mp hnear
  obtain ⟨h', hrotate, hview'⟩ := hview.rotate_setBalance (.tilted s) (.tilted s.other)
  refine ⟨_, ?_, hview'⟩
  simp [lost, hitem, hitem', hrotate]

theorem lost_double
    (hview : View h c (join s (join s x l (.tilted s.other) (join s p g e q)) a b z)) :
    ∃ h', lost s h (.item a) = some (h', true) ∧
      View h' c (join s (join s x l (doubleBalances s e).2 p) g .even
        (join s q a (doubleBalances s e).1 z)) := by
  obtain ⟨hitem, hnear, -⟩ := linked_join.mp hview.tree
  obtain ⟨hitem', -, hfar⟩ := linked_join.mp hnear
  obtain ⟨hitem'', -, -⟩ := linked_join.mp hfar
  obtain ⟨h₁, hrotate₁, hview₁⟩ :=
    hview.rotate_child (doubleBalances s e).1 (doubleBalances s e).2
  obtain ⟨h₂, hrotate₂, hview₂⟩ := hview₁.rotate
  refine ⟨h₂, ?_, hview₂⟩
  simp [lost, hitem, hitem', hitem'', hrotate₁, hrotate₂]

end Rebalancing

end ColonyPico.Container.AvlLinks
