import ColonyPico.Container.AvlBalance

/-!
Searches, insertions and removals.
-/

namespace ColonyPico.Container.AvlUpdates

open ColonyPico.Container.AvlTrees
open ColonyPico.Container.AvlLinks
open ColonyPico.Container.AvlBalance
open ColonyPico.Foundations.BalancedTrees
open ColonyPico.Foundations.BalancedTrees.Shape

variable {ι κ : Type}

section Search

variable [LinearOrder κ] (key : ι → κ)

/-- How many nodes `insert()` compares a key with. -/
def comparisonsFor (h : Nodes ι) (k : κ) : Nat → Option (Address ι) → Nat
  | 0, _ => 0
  | _ + 1, none => 0
  | fuel + 1, some n =>
      if compareKey key n k > 0 then comparisonsFor h k fuel (h.get n).prevPtr + 1
      else if compareKey key n k < 0 then comparisonsFor h k fuel (h.get n).nextPtr + 1
      else 1

variable {key} {h : Nodes ι} {k : κ} {parent : Address ι} {t : Shape ι}

theorem compareKey_item (a : ι) : compareKey key (.item a) k =
    match wayTo key k a with
    | none => 0
    | some s => sign s := by
  rcases lt_trichotomy k (key a) with hlt | heq | hgt
  · simp [compareKey, wayTo, sign, hlt, hlt.le.not_gt]
  · simp [compareKey, wayTo, heq]
  · simp [compareKey, wayTo, sign, hgt, hgt.le.not_gt]

theorem comparisonsFor_eq (hlinked : Linked h parent t) (fuel : Nat) :
    comparisonsFor key h k fuel (ptr t) = min fuel (steps (wayTo key k) t) := by
  induction t generalizing parent fuel with
  | nil => cases fuel <;> simp [comparisonsFor, steps]
  | node l a b r ihl ihr =>
      obtain ⟨hitem, hl, hr⟩ := hlinked
      cases fuel with
      | zero => simp [comparisonsFor]
      | succ fuel =>
          simp only [ptr_node, comparisonsFor, compareKey_item, hitem, steps]
          rcases wayTo key k a with - | - | - <;> simp [sign, ihl hl, ihr hr]

theorem findLoop_eq (c : List (Frame ι)) (hlinked : Linked h parent t) {fuel : Nat}
    (hfuel : steps (wayTo key k) t < fuel) :
    findLoop key h k fuel (ptr t) = some (ptr (descend (wayTo key k) c t).2) := by
  induction t generalizing parent fuel c with
  | nil =>
      obtain ⟨fuel, rfl⟩ := Nat.exists_eq_add_one.mpr (Nat.zero_lt_of_lt hfuel)
      rfl
  | node l a b r ihl ihr =>
      obtain ⟨hitem, hl, hr⟩ := hlinked
      obtain ⟨fuel, rfl⟩ := Nat.exists_eq_add_one.mpr (Nat.zero_lt_of_lt hfuel)
      simp only [steps] at hfuel
      simp only [ptr_node, findLoop, compareKey_item, hitem, descend]
      rcases hway : wayTo key k a with - | - | - <;> simp only [hway] at hfuel
      · simp
      · simpa [sign] using ihl _ hl (by omega)
      · simpa [sign] using ihr _ hr (by omega)

variable [DecidableEq ι]

variable (key) in
/-- The first loop of `insert()`: it runs out of room, finds the key, or ends where the new
node has its place. -/
theorem findParent_eq (c : List (Frame ι)) (hlinked : Linked h parent t) {n : Address ι}
    (hn : ptr t = some n) (x : ι) (room : Nat) :
    findParent key h x room n (c.map fun f => sign f.side) =
      if steps (wayTo key (key x)) t ≤ room then
        match descend (wayTo key (key x)) c t with
        | (c', nil) => some (some (setChild h (top c') (holeSide c') (some (.item x)), top c',
            c'.map fun f => sign f.side))
        | (_, node _ _ _ _) => some none
      else none := by
  induction t generalizing parent c n room with
  | nil => simp at hn
  | node l a b r ihl ihr =>
      obtain ⟨hitem, hl, hr⟩ := hlinked
      injection hn with hn
      subst hn
      cases room with
      | zero =>
          rw [if_neg, findParent]
          rw [steps]
          split <;> omega
      | succ room =>
          rw [findParent, steps, descend]
          simp only [compareKey_item, hitem, prevPtr_linked, nextPtr_linked]
          rcases hway : wayTo key (key x) a with - | - | -
          · simp
          · cases l with
            | nil => simp [sign, steps, descend, top, holeSide]
            | node l' a' b' r' =>
                have hrest := ihl (⟨.left, a, b, r⟩ :: c) hl rfl room
                simp only [List.map_cons, sign] at hrest
                simp [sign, hrest]
          · cases r with
            | nil => simp [sign, steps, descend, top, holeSide]
            | node l' a' b' r' =>
                have hrest := ihr (⟨.right, a, b, l⟩ :: c) hr rfl room
                simp only [List.map_cons, sign] at hrest
                simp [sign, hrest]

end Search

theorem View.attach [DecidableEq ι] {h : Nodes ι} {c : List (Frame ι)} {x : ι}
    (hview : View h c nil) (hx : x ∉ (plug c nil).items) :
    View (setNode (setChild h (top c) (holeSide c) (some (.item x))) (.item x)
      (MapItem.initialized (some (top c)))) c (node nil x .even nil) := by
  have hperm := items_plug_perm c (nil : Shape ι)
  rw [items_nil, List.nil_append] at hperm
  rw [hperm.mem_iff] at hx
  have houter := hview.disjoint
  rw [items_nil, List.nil_append] at houter
  refine ⟨⟨?_, trivial, trivial⟩, hview.around.refill houter ?_ ?_, ?_⟩
  · rw [get_setNode, if_pos rfl]
    rfl
  · rw [get_setNode, if_neg nofun]
    rfl
  · intro w hw
    rw [get_setNode, if_neg]
    · rfl
    · rintro ⟨⟩
      exact hx hw
  · rw [(items_plug_perm c _).nodup_iff]
    exact List.nodup_cons.mpr ⟨hx, houter⟩

section Represents

variable [LinearOrder κ]

/-- The tree holds the items of `T`, in the order of their keys. -/
structure Represents (key : ι → κ) (t : AvlTree ι) (T : Shape ι) : Prop where
  view : View t.nodes [] T
  balanced : T.Balanced
  sorted : T.items.Pairwise (key · < key ·)
  inList : ∀ n, t.inList n = true ↔ ∃ x ∈ T.items, n = .item x

/-- `insert()` has room for its comparisons. -/
def HasRoom (key : ι → κ) (t : AvlTree ι) (x : ι) : Prop :=
  comparisonsFor key t.nodes (key x) (maxTreeDepth + 1) (t.nodes.get .root).prevPtr ≤ maxTreeDepth

variable {key : ι → κ} {t : AvlTree ι} {T : Shape ι}

omit [LinearOrder κ] in
theorem prevPtr_root (hview : View t.nodes [] T) : (t.nodes.get .root).prevPtr = ptr T := by
  have hroot : t.nodes.get .root = rootNode (ptr T) := hview.around
  rw [hroot]
  rfl

theorem hasRoom_iff (hview : View t.nodes [] T) (x : ι) :
    HasRoom key t x ↔ steps (wayTo key (key x)) T ≤ maxTreeDepth := by
  rw [HasRoom, prevPtr_root hview, comparisonsFor_eq hview.tree]
  omega

theorem represents_init : Represents key AvlTree.init nil :=
  ⟨⟨trivial, rfl, List.nodup_nil⟩, trivial, List.Pairwise.nil, by simp [AvlTree.init]⟩

theorem pairwise_insert {l₁ l₂ : List ι} {x : ι} (h : (l₁ ++ l₂).Pairwise (key · < key ·))
    (hl : ∀ a ∈ l₁, key a < key x) (hr : ∀ a ∈ l₂, key x < key a) :
    (l₁ ++ x :: l₂).Pairwise (key · < key ·) := by
  obtain ⟨h₁, h₂, hlt⟩ := List.pairwise_append.mp h
  refine List.pairwise_append.mpr ⟨h₁, List.pairwise_cons.mpr ⟨hr, h₂⟩, ?_⟩
  intro a ha b hb
  rcases List.mem_cons.mp hb with rfl | hb
  · exact hl a ha
  · exact hlt a ha b hb

variable [DecidableEq ι]

theorem insertMark_eq {h : Nodes ι} {x : ι} (hrep : Represents key t T) (hx : x ∉ T.items) :
    insert_ { t with nodes := h } x =
      some { nodes := h, inList := Function.update t.inList (.item x) true } := by
  rw [insert_, if_neg]
  intro hin
  obtain ⟨y, hy, hxy⟩ := (hrep.inList _).mp hin
  cases hxy
  exact hx hy

theorem represents_inserted {h : Nodes ι} {x : ι} {T' : Shape ι} {l₁ l₂ : List ι}
    (hrep : Represents key t T) (hview : View h [] T') (hbalanced : T'.Balanced)
    (hitems : T.items = l₁ ++ l₂) (hitems' : T'.items = l₁ ++ x :: l₂)
    (hl : ∀ a ∈ l₁, key a < key x) (hr : ∀ a ∈ l₂, key x < key a) :
    Represents key { nodes := h, inList := Function.update t.inList (.item x) true } T' ∧
      T'.items.Perm (x :: T.items) := by
  have hperm : T'.items.Perm (x :: T.items) := by
    rw [hitems, hitems']
    exact List.perm_middle
  refine ⟨⟨hview, hbalanced, ?_, ?_⟩, hperm⟩
  · rw [hitems']
    exact pairwise_insert (hitems ▸ hrep.sorted) hl hr
  · intro n
    simp only [Function.update_apply, hperm.mem_iff, List.mem_cons]
    split_ifs with hn
    · simp [hn]
    · rw [hrep.inList]
      constructor
      · rintro ⟨y, hy, rfl⟩
        exact ⟨y, .inr hy, rfl⟩
      · rintro ⟨y, rfl | hy, rfl⟩
        · exact absurd rfl hn
        · exact ⟨y, hy, rfl⟩

theorem insert_empty (hrep : Represents key t nil) (x : ι) :
    ∃ t' T', insert key t x = some (t', true) ∧ Represents key t' T' ∧
      T'.items.Perm (x :: (nil : Shape ι).items) := by
  have hwrites : setChild (setNode t.nodes (.item x) (MapItem.initialized (some .root))) .root
      .left (some (.item x)) =
        setNode (setChild t.nodes .root .left (some (.item x))) (.item x)
          (MapItem.initialized (some .root)) := by
    simp only [setChild, setNode]
    rw [Function.update_comm (by simp), Function.update_of_ne (by simp)]
  have hview := View.attach (x := x) hrep.view (by simp)
  have hitems : (nil : Shape ι).items = [] ++ [] := rfl
  have hitems' : (node nil x .even nil).items = [] ++ x :: [] := rfl
  refine ⟨_, node nil x .even nil, ?_, represents_inserted hrep hview
    ⟨by simp [Balance.toInt], trivial, trivial⟩ hitems hitems' (by simp) (by simp)⟩
  rw [AvlTrees.insert, prevPtr_root hrep.view]
  simp only [ptr_nil, hwrites, insertMark_eq hrep (by simp : x ∉ (nil : Shape ι).items)]
  rfl

/-- `insert()`. -/
theorem insert_spec (hrep : Represents key t T) {x : ι} (hroom : HasRoom key t x) :
    (∃ y ∈ T.items, key y = key x) ∧ insert key t x = some (t, false) ∨
      (∀ y ∈ T.items, key y ≠ key x) ∧ ∃ t' T', insert key t x = some (t', true) ∧
        Represents key t' T' ∧ T'.items.Perm (x :: T.items) := by
  rw [hasRoom_iff hrep.view] at hroom
  have hplug := plug_descend (wayTo key (key x)) [] T
  obtain ⟨hbetween, hend⟩ := between_descend (c := []) (k := key x) hrep.sorted (between_nil _)
  rcases hdescend : descend (wayTo key (key x)) [] T with ⟨c, t'⟩
  rw [hdescend] at hplug hbetween hend
  simp only [plug_nil] at hplug hbetween hend
  rcases hend with rfl | ⟨l, a, b, r, rfl, hkey⟩
  · have hitems : T.items = before c ++ after c := by
      rw [← hplug, items_plug, items_nil, List.nil_append]
    have hnew : ∀ y ∈ T.items, key y ≠ key x := by
      rw [hitems]
      intro y hy
      rcases List.mem_append.mp hy with hy | hy
      · exact (hbetween.before y hy).ne
      · exact (hbetween.after y hy).ne'
    refine .inr ⟨hnew, ?_⟩
    have hx : x ∉ T.items := fun hx => hnew x hx rfl
    have hroot := prevPtr_root hrep.view
    cases hT : T with
    | nil =>
        subst hT
        exact insert_empty hrep x
    | node l a b r =>
        rw [hT, ptr_node] at hroot
        have hfind := findParent_eq key [] hrep.view.tree (by rw [hT, ptr_node]) x
          maxTreeDepth
        rw [if_pos hroom, hdescend] at hfind
        have hview : View t.nodes c nil := by
          have hview := hrep.view
          rwa [← hplug, ← view_append, List.append_nil] at hview
        have hfits : Fits c 0 := by
          have hbalanced := hrep.balanced
          rw [← hplug, balanced_plug] at hbalanced
          exact hbalanced.2
        obtain ⟨h', T', hloop, hrebalanced⟩ := tallerLoop_rebalances
          (View.attach hview (by rwa [hplug])) hfits
          ⟨by simp [Balance.toInt], trivial, trivial⟩ rfl (.inl rfl) false
        have hitems' : T'.items = before c ++ x :: after c := by
          rw [hrebalanced.items, items_plug]
          rfl
        rw [← hT]
        refine ⟨_, T', ?_, represents_inserted hrep hrebalanced.view hrebalanced.balanced hitems
          hitems' hbetween.before hbetween.after⟩
        simp only [List.map_nil] at hfind
        rw [AvlTrees.insert, hroot]
        simp only [hfind, hloop, insertMark_eq hrep hx, Option.bind_eq_bind, Option.bind_some]
        rfl
  · have ha : a ∈ T.items := by
      rw [← hplug, items_plug]
      simp [items]
    refine .inl ⟨⟨a, ha, hkey⟩, ?_⟩
    have hne : T ≠ nil := by
      rintro rfl
      simp at ha
    obtain ⟨near, a', b', far, hT⟩ := exists_join .left hne
    have hfind := findParent_eq key [] hrep.view.tree (by rw [hT, ptr_join]) x maxTreeDepth
    rw [if_pos hroom, hdescend] at hfind
    have hroot := prevPtr_root hrep.view
    rw [hT, ptr_join] at hroot
    simp only [List.map_nil] at hfind
    rw [AvlTrees.insert, hroot]
    simp only [hfind, Option.bind_eq_bind, Option.bind_some]
    rfl

/-- `insert()` without room for its comparisons. -/
theorem insert_of_not_hasRoom (hview : View t.nodes [] T) {x : ι} (hroom : ¬HasRoom key t x) :
    insert key t x = none := by
  rw [hasRoom_iff hview] at hroom
  have hne : T ≠ nil := by
    rintro rfl
    exact hroom (Nat.zero_le _)
  obtain ⟨near, a', b', far, hT⟩ := exists_join .left hne
  have hfind := findParent_eq key [] hview.tree (by rw [hT, ptr_join]) x maxTreeDepth
  rw [if_neg hroom] at hfind
  have hroot := prevPtr_root hview
  rw [hT, ptr_join] at hroot
  simp only [List.map_nil] at hfind
  rw [AvlTrees.insert, hroot]
  simp only [hfind, Option.bind_eq_bind, Option.bind_none]

end Represents

end ColonyPico.Container.AvlUpdates
