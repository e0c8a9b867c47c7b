import Mathlib.Algebra.Group.Nat.Defs
import Mathlib.Data.List.Nodup
import Mathlib.Data.Nat.Fib.Basic
import Mathlib.Order.Lattice
import Mathlib.Order.Nat
import Mathlib.Tactic.SplitIfs

/-!
Binary trees that store at each node how the heights of its subtrees differ, and the
paths that lead to a subtree. What is mirrored is said once, for a side.
-/

namespace ColonyPico.Foundations.BalancedTrees

inductive Side where
  | left
  | right
  deriving DecidableEq, Repr

def Side.other : Side → Side
  | .left => .right
  | .right => .left

@[simp] theorem Side.other_left : Side.left.other = .right := rfl

@[simp] theorem Side.other_right : Side.right.other = .left := rfl

@[simp] theorem Side.other_other (s : Side) : s.other.other = s := by
  cases s <;> rfl

@[simp] theorem Side.other_ne (s : Side) : s.other ≠ s := by
  cases s <;> nofun

theorem Side.eq_or_eq_other (s s' : Side) : s' = s ∨ s' = s.other := by
  cases s <;> cases s' <;> simp [other]

/-- Which of the subtrees is the higher one. -/
inductive Balance where
  | even
  | tilted (s : Side)
  deriving DecidableEq, Repr

/-- The height of the right subtree less that of the left one. -/
def Balance.toInt : Balance → Int
  | .even => 0
  | .tilted .left => -1
  | .tilted .right => 1

theorem Balance.cases_of (s : Side) (b : Balance) :
    b = .even ∨ b = .tilted s ∨ b = .tilted s.other := by
  cases b with
  | even => exact .inl rfl
  | tilted s' => rcases s.eq_or_eq_other s' with rfl | rfl <;> simp

inductive Shape (α : Type*) where
  | nil
  | node (l : Shape α) (a : α) (b : Balance) (r : Shape α)
  deriving DecidableEq, Repr

variable {α : Type*}

namespace Shape

/-- The tree with `near` at the side `s`. -/
def join (s : Side) (near : Shape α) (a : α) (b : Balance) (far : Shape α) : Shape α :=
  match s with
  | .left => node near a b far
  | .right => node far a b near

theorem join_other (s : Side) (near : Shape α) (a : α) (b : Balance) (far : Shape α) :
    join s.other far a b near = join s near a b far := by
  cases s <;> rfl

@[simp] theorem join_ne_nil {s : Side} {near far : Shape α} {a : α} {b : Balance} :
    join s near a b far ≠ nil := by
  cases s <;> nofun

theorem exists_join (s : Side) {t : Shape α} (h : t ≠ nil) :
    ∃ near a b far, t = join s near a b far := by
  cases t with
  | nil => exact absurd rfl h
  | node l a b r =>
      cases s with
      | left => exact ⟨l, a, b, r, rfl⟩
      | right => exact ⟨r, a, b, l, rfl⟩

/-- The items from left to right. -/
def items : Shape α → List α
  | nil => []
  | node l a _ r => l.items ++ a :: r.items

def height : Shape α → Nat
  | nil => 0
  | node l _ _ r => max l.height r.height + 1

/-- What is stored is right at all nodes. -/
def Balanced : Shape α → Prop
  | nil => True
  | node l _ b r => b.toInt = (r.height : Int) - l.height ∧ l.Balanced ∧ r.Balanced

@[simp] theorem items_nil : (nil : Shape α).items = [] := rfl

@[simp] theorem height_nil : (nil : Shape α).height = 0 := rfl

@[simp] theorem balanced_nil : (nil : Shape α).Balanced := trivial

@[simp] theorem height_join (s : Side) (near : Shape α) (a : α) (b : Balance) (far : Shape α) :
    (join s near a b far).height = max near.height far.height + 1 := by
  cases s with
  | left => rfl
  | right => simp only [join, height, max_comm]

theorem eq_nil_of_height {t : Shape α} (h : t.height = 0) : t = nil := by
  cases t with
  | nil => rfl
  | node l a b r => simp [height] at h

theorem items_rotate (s : Side) (x y z : Shape α) (a c : α) (b b' d d' : Balance) :
    (join s x c d (join s y a b z)).items = (join s (join s x c d' y) a b' z).items := by
  cases s <;> simp [join, items]

theorem items_rotate_twice (s : Side) (x p q z : Shape α) (a l g : α) (b b' d d' e e' : Balance) :
    (join s (join s x l d p) g e (join s q a b z)).items =
      (join s (join s x l d' (join s p g e' q)) a b' z).items := by
  cases s <;> simp [join, items]

theorem items_setBalance (s : Side) (near : Shape α) (a : α) (b b' : Balance) (far : Shape α) :
    (join s near a b far).items = (join s near a b' far).items := by
  cases s <;> rfl

theorem mem_items_join {s : Side} {near far : Shape α} {a x : α} {b : Balance} :
    x ∈ (join s near a b far).items ↔ x ∈ near.items ∨ x = a ∨ x ∈ far.items := by
  cases s
  · simp [join, items]
  · simp only [join, items, List.mem_append, List.mem_cons]
    tauto

theorem items_join_perm (s : Side) (near : Shape α) (a : α) (b : Balance) (far : Shape α) :
    (join s near a b far).items.Perm (a :: (near.items ++ far.items)) := by
  cases s with
  | left => exact List.perm_middle
  | right => exact List.perm_middle.trans (List.perm_append_comm.cons a)

theorem nodup_join {s : Side} {near far : Shape α} {a : α} {b : Balance} :
    (join s near a b far).items.Nodup ↔ (a ∉ near.items ∧ a ∉ far.items) ∧
      near.items.Nodup ∧ far.items.Nodup ∧ ∀ x ∈ near.items, x ∉ far.items := by
  rw [(items_join_perm s near a b far).nodup_iff, List.nodup_cons, List.nodup_append,
    List.mem_append, not_or]
  refine and_congr_right fun _ => and_congr_right fun _ => and_congr_right fun _ => ?_
  constructor
  · intro h x hx hx'
    exact h x hx x hx' rfl
  · rintro h x hx y hy rfl
    exact h x hx hy

theorem length_items_lt (t : Shape α) : t.items.length < 2 ^ t.height := by
  induction t with
  | nil => simp
  | node l a b r ihl ihr =>
      have hl : 2 ^ l.height ≤ 2 ^ max l.height r.height :=
        Nat.pow_le_pow_right (by omega) (le_max_left _ _)
      have hr : 2 ^ r.height ≤ 2 ^ max l.height r.height :=
        Nat.pow_le_pow_right (by omega) (le_max_right _ _)
      simp only [items, height, List.length_append, List.length_cons, Nat.pow_succ]
      omega

/-- How few items a tree of its height can have. -/
theorem fib_height_le {t : Shape α} (h : t.Balanced) :
    Nat.fib (t.height + 2) ≤ t.items.length + 1 := by
  induction t with
  | nil => simp
  | node l a b r ihl ihr =>
      obtain ⟨hb, hl, hr⟩ := h
      have hlow : min l.height r.height + 1 ≥ max l.height r.height := by
        rcases b with - | - | - <;> simp only [Balance.toInt] at hb <;> omega
      have hsum : Nat.fib (max l.height r.height + 3) ≤
          Nat.fib (l.height + 2) + Nat.fib (r.height + 2) := by
        rw [Nat.fib_add_two, Nat.add_comm]
        rcases le_total l.height r.height with hle | hle
        · rw [max_eq_right hle] at hlow ⊢
          rw [min_eq_left hle] at hlow
          rw [Nat.add_comm (Nat.fib _)]
          exact Nat.add_le_add (Nat.fib_mono (by omega)) (Nat.fib_mono (by omega))
        · rw [max_eq_left hle] at hlow ⊢
          rw [min_eq_right hle] at hlow
          exact Nat.add_le_add (Nat.fib_mono (by omega)) (Nat.fib_mono (by omega))
      have hitems := Nat.add_le_add (ihl hl) (ihr hr)
      simp only [items, height, List.length_append, List.length_cons]
      have hsucc : max l.height r.height + 1 + 2 = max l.height r.height + 3 := rfl
      rw [hsucc]
      omega

theorem height_le_length (t : Shape α) : t.height ≤ t.items.length := by
  induction t with
  | nil => simp
  | node l a b r ihl ihr =>
      simp only [items, height, List.length_append, List.length_cons]
      omega

end Shape

open Shape

/-- A subtree of height `n` at the side `s` and one of height `m` at the other. -/
def Leans (s : Side) (b : Balance) (n m : Nat) : Prop :=
  match b with
  | .even => n = m
  | .tilted s' => if s' = s then n = m + 1 else m = n + 1

@[simp] theorem leans_even {s : Side} {n m : Nat} : Leans s .even n m ↔ n = m := Iff.rfl

@[simp] theorem leans_tilted {s : Side} {n m : Nat} : Leans s (.tilted s) n m ↔ n = m + 1 := by
  simp [Leans]

@[simp] theorem leans_tilted_other {s : Side} {n m : Nat} :
    Leans s (.tilted s.other) n m ↔ m = n + 1 := by
  simp [Leans]

theorem Shape.balanced_join {s : Side} {near far : Shape α} {a : α} {b : Balance} :
    (join s near a b far).Balanced ↔
      Leans s b near.height far.height ∧ near.Balanced ∧ far.Balanced := by
  have hleans (l r : Shape α) :
      b.toInt = (r.height : Int) - l.height ↔ Leans .left b l.height r.height := by
    rcases b with - | - | - <;>
      simp only [Balance.toInt, Leans, if_true, reduceCtorEq, if_false] <;> omega
  cases s with
  | left => simp only [join, Balanced, hleans]
  | right =>
      have hmirror : Leans .left b far.height near.height ↔
          Leans .right b near.height far.height := by
        rcases b with - | - | - <;> simp only [Leans, if_true, reduceCtorEq, if_false, eq_comm]
      simp only [join, Balanced, hleans, hmirror, and_comm]

/-- A node above a subtree: the side of the subtree, and what else the node has. -/
structure Frame (α : Type*) where
  side : Side
  item : α
  balance : Balance
  sibling : Shape α
  deriving DecidableEq, Repr

def Frame.fill (f : Frame α) (t : Shape α) : Shape α :=
  join f.side t f.item f.balance f.sibling

/-- The tree around a subtree; the frame next to it comes first. -/
def plug : List (Frame α) → Shape α → Shape α
  | [], t => t
  | f :: c, t => plug c (f.fill t)

@[simp] theorem plug_nil (t : Shape α) : plug [] t = t := rfl

@[simp] theorem plug_cons (f : Frame α) (c : List (Frame α)) (t : Shape α) :
    plug (f :: c) t = plug c (f.fill t) := rfl

theorem plug_append (c d : List (Frame α)) (t : Shape α) : plug (c ++ d) t = plug d (plug c t) := by
  induction c generalizing t with
  | nil => rfl
  | cons f c ih => exact ih (f.fill t)

theorem plug_ne_nil (c : List (Frame α)) {t : Shape α} (h : t ≠ nil) : plug c t ≠ nil := by
  induction c generalizing t with
  | nil => exact h
  | cons f c ih => exact ih join_ne_nil

/-- The items to the left of the subtree. -/
def before : List (Frame α) → List α
  | [] => []
  | ⟨.left, _, _, _⟩ :: c => before c
  | ⟨.right, a, _, t⟩ :: c => before c ++ (t.items ++ [a])

/-- The items to its right. -/
def after : List (Frame α) → List α
  | [] => []
  | ⟨.left, a, _, t⟩ :: c => a :: t.items ++ after c
  | ⟨.right, _, _, _⟩ :: c => after c

theorem items_plug (c : List (Frame α)) (t : Shape α) :
    (plug c t).items = before c ++ (t.items ++ after c) := by
  induction c generalizing t with
  | nil => simp [before, after]
  | cons f c ih =>
      obtain ⟨s, a, b, u⟩ := f
      cases s <;> simp [ih, Frame.fill, join, items, before, after]

/-- The items of the tree around. -/
def outer (c : List (Frame α)) : List α :=
  before c ++ after c

theorem items_plug_perm (c : List (Frame α)) (t : Shape α) :
    (plug c t).items.Perm (t.items ++ outer c) := by
  rw [items_plug, outer, ← List.append_assoc, ← List.append_assoc]
  exact List.perm_append_comm.append_right _

theorem outer_cons_perm (f : Frame α) (c : List (Frame α)) :
    (outer (f :: c)).Perm (f.item :: (f.sibling.items ++ outer c)) := by
  have h := (items_plug_perm (f :: c) nil).symm.trans (items_plug_perm c (f.fill nil))
  refine h.trans ?_
  obtain ⟨s, a, b, u⟩ := f
  cases s with
  | left => simp [Frame.fill, join, items]
  | right =>
      simp only [Frame.fill, join, items, List.append_assoc, List.cons_append, List.nil_append]
      exact List.perm_middle

theorem mem_outer_cons {f : Frame α} {c : List (Frame α)} {x : α} :
    x ∈ outer (f :: c) ↔ x = f.item ∨ x ∈ f.sibling.items ∨ x ∈ outer c := by
  rw [(outer_cons_perm f c).mem_iff, List.mem_cons, List.mem_append]

theorem mem_outer_append {c d : List (Frame α)} {x : α} :
    x ∈ outer (c ++ d) ↔ x ∈ outer c ∨ x ∈ outer d := by
  induction c with
  | nil => simp [outer, before, after]
  | cons f c ih =>
      rw [List.cons_append, mem_outer_cons, mem_outer_cons, ih]
      tauto

/-- The tree around is right when the subtree has the height `n`. -/
def Fits : List (Frame α) → Nat → Prop
  | [], _ => True
  | f :: c, n => Leans f.side f.balance n f.sibling.height ∧ f.sibling.Balanced ∧
      Fits c (max n f.sibling.height + 1)

theorem balanced_plug {c : List (Frame α)} {t : Shape α} :
    (plug c t).Balanced ↔ t.Balanced ∧ Fits c t.height := by
  induction c generalizing t with
  | nil => simp [Fits]
  | cons f c ih =>
      rw [plug_cons, ih, Frame.fill, balanced_join, height_join, Fits]
      tauto

theorem fits_setItem {c d : List (Frame α)} {s : Side} {a a' : α} {b : Balance} {t : Shape α}
    {n : Nat} : Fits (c ++ ⟨s, a, b, t⟩ :: d) n ↔ Fits (c ++ ⟨s, a', b, t⟩ :: d) n := by
  induction c generalizing n with
  | nil => rfl
  | cons f c ih => rw [List.cons_append, List.cons_append, Fits, Fits, ih]

theorem before_setItem {c d : List (Frame α)} {a a' : α} {b : Balance} {t : Shape α} :
    before (c ++ ⟨.left, a, b, t⟩ :: d) = before (c ++ ⟨.left, a', b, t⟩ :: d) := by
  induction c with
  | nil => rfl
  | cons f c ih =>
      obtain ⟨s, x, e, u⟩ := f
      cases s <;> simp only [List.cons_append, before, ih]

theorem after_of_right {c d : List (Frame α)} (h : ∀ f ∈ c, f.side = .right) :
    after (c ++ d) = after d := by
  induction c with
  | nil => rfl
  | cons f c ih =>
      obtain ⟨s, x, e, u⟩ := f
      obtain rfl : s = .right := h _ List.mem_cons_self
      exact ih fun g hg => h g (List.mem_cons_of_mem _ hg)

theorem exists_focus {t : Shape α} {x : α} (h : x ∈ t.items) :
    ∃ c l b r, t = plug c (node l x b r) := by
  induction t with
  | nil => simp at h
  | node l a b r ihl ihr =>
      rcases mem_items_join (s := .left).mp h with h | rfl | h
      · obtain ⟨c, l', b', r', rfl⟩ := ihl h
        exact ⟨c ++ [⟨.left, a, b, r⟩], l', b', r', by rw [plug_append]; rfl⟩
      · exact ⟨[], l, b, r, rfl⟩
      · obtain ⟨c, l', b', r', rfl⟩ := ihr h
        exact ⟨c ++ [⟨.right, a, b, l⟩], l', b', r', by rw [plug_append]; rfl⟩

theorem length_le_items (c : List (Frame α)) (t : Shape α) :
    c.length + t.items.length ≤ (plug c t).items.length := by
  induction c generalizing t with
  | nil => simp
  | cons f c ih =>
      have hlength := (items_join_perm f.side t f.item f.balance f.sibling).length_eq
      have hle := ih (f.fill t)
      rw [List.length_cons, plug_cons]
      simp only [Frame.fill, List.length_cons, List.length_append] at hlength hle ⊢
      omega

section Map

/-- The same tree with other items. -/
def Shape.map (f : α → α) : Shape α → Shape α
  | nil => nil
  | node l a b r => node (l.map f) (f a) b (r.map f)

def Frame.map (f : α → α) (x : Frame α) : Frame α :=
  ⟨x.side, f x.item, x.balance, x.sibling.map f⟩

variable (f : α → α)

theorem Shape.map_join (s : Side) (near : Shape α) (a : α) (b : Balance) (far : Shape α) :
    (join s near a b far).map f = join s (near.map f) (f a) b (far.map f) := by
  cases s <;> rfl

theorem Shape.items_map (t : Shape α) : (t.map f).items = t.items.map f := by
  induction t with
  | nil => rfl
  | node l a b r ihl ihr => simp [Shape.map, items, ihl, ihr]

theorem plug_map (c : List (Frame α)) (t : Shape α) :
    plug (c.map (Frame.map f)) (t.map f) = (plug c t).map f := by
  induction c generalizing t with
  | nil => rfl
  | cons x c ih =>
      rw [List.map_cons, plug_cons, plug_cons, ← ih, Frame.fill, Frame.fill, Shape.map_join]
      rfl

variable {f}

theorem Shape.map_of_fixed {t : Shape α} (h : ∀ x ∈ t.items, f x = x) : t.map f = t := by
  induction t with
  | nil => rfl
  | node l a b r ihl ihr =>
      rw [Shape.map, ihl fun x hx => h x (by simp [items, hx]),
        ihr fun x hx => h x (by simp [items, hx]), h a (by simp [items])]

theorem map_of_fixed {c : List (Frame α)} (h : ∀ x ∈ outer c, f x = x) :
    c.map (Frame.map f) = c := by
  induction c with
  | nil => rfl
  | cons x c ih =>
      rw [List.map_cons, ih fun y hy => h y (mem_outer_cons.mpr (.inr (.inr hy))), Frame.map,
        h x.item (mem_outer_cons.mpr (.inl rfl)),
        Shape.map_of_fixed fun y hy => h y (mem_outer_cons.mpr (.inr (.inl hy)))]

end Map

section Search

variable (toward : α → Option Side)

/-- The path to where a search ends; `toward` says where it goes on from a node. -/
def descend : List (Frame α) → Shape α → List (Frame α) × Shape α
  | c, nil => (c, nil)
  | c, node l a b r =>
      match toward a with
      | none => (c, node l a b r)
      | some .left => descend (⟨.left, a, b, r⟩ :: c) l
      | some .right => descend (⟨.right, a, b, l⟩ :: c) r

/-- How many nodes a search looks at. -/
def steps : Shape α → Nat
  | nil => 0
  | node l a _ r =>
      match toward a with
      | none => 1
      | some .left => steps l + 1
      | some .right => steps r + 1

theorem plug_descend (c : List (Frame α)) (t : Shape α) :
    plug (descend toward c t).1 (descend toward c t).2 = plug c t := by
  induction t generalizing c with
  | nil => rfl
  | node l a b r ihl ihr =>
      rw [descend]
      split
      · rfl
      · exact ihl _
      · exact ihr _

theorem steps_le_height (t : Shape α) : steps toward t ≤ t.height := by
  induction t with
  | nil => exact le_rfl
  | node l a b r ihl ihr =>
      rw [steps, height]
      split <;> omega

end Search

section Order

variable {κ : Type*} [LinearOrder κ] (key : α → κ)

/-- The way to a key from a node. -/
def wayTo (k : κ) (a : α) : Option Side :=
  if k < key a then some .left else if key a < k then some .right else none

/-- The key has its place where the path ends. -/
structure Between (c : List (Frame α)) (k : κ) : Prop where
  before : ∀ a ∈ before c, key a < k
  after : ∀ a ∈ after c, k < key a

variable {key}

theorem between_nil (k : κ) : Between key [] k :=
  ⟨nofun, nofun⟩

theorem between_descend {k : κ} {c : List (Frame α)} {t : Shape α}
    (hsorted : (plug c t).items.Pairwise (key · < key ·)) (hbetween : Between key c k) :
    Between key (descend (wayTo key k) c t).1 k ∧ ((descend (wayTo key k) c t).2 = nil ∨
      ∃ l a b r, (descend (wayTo key k) c t).2 = node l a b r ∧ key a = k) := by
  induction t generalizing c with
  | nil => exact ⟨hbetween, .inl rfl⟩
  | node l a b r ihl ihr =>
      have hitems := hsorted
      rw [items_plug, items, List.pairwise_append, List.pairwise_append, List.pairwise_append]
        at hitems
      obtain ⟨-, ⟨⟨-, hr, hlr⟩, -⟩, -⟩ := hitems
      rw [descend]
      rcases lt_trichotomy k (key a) with hlt | heq | hgt
      · rw [show wayTo key k a = some .left from if_pos hlt]
        refine ihl hsorted ⟨hbetween.before, ?_⟩
        simp only [after, List.mem_append, List.mem_cons]
        rintro x ((rfl | hx) | hx)
        · exact hlt
        · exact hlt.trans ((List.pairwise_cons.mp hr).1 x hx)
        · exact hbetween.after x hx
      · rw [show wayTo key k a = none by simp [wayTo, heq]]
        exact ⟨hbetween, .inr ⟨l, a, b, r, rfl, heq.symm⟩⟩
      · rw [show wayTo key k a = some .right by simp [wayTo, hgt, hgt.le.not_gt]]
        refine ihr hsorted ⟨?_, hbetween.after⟩
        simp only [before, List.mem_append, List.mem_singleton]
        rintro x (hx | hx | rfl)
        · exact hbetween.before x hx
        · exact (hlr x hx a List.mem_cons_self).trans hgt
        · exact hgt

/-- An item at the bottom of the tree. -/
theorem exists_deep {t : Shape α} (hsorted : t.items.Pairwise (key · < key ·)) (ht : t ≠ nil) :
    ∃ x ∈ t.items, t.height ≤ steps (wayTo key (key x)) t := by
  induction t with
  | nil => exact absurd rfl ht
  | node l a b r ihl ihr =>
      rw [items, List.pairwise_append, List.pairwise_cons] at hsorted
      obtain ⟨hl, ⟨har, hr⟩, hlr⟩ := hsorted
      rcases le_total r.height l.height with hle | hle
      · by_cases hnil : l = nil
        · subst hnil
          refine ⟨a, by simp [items], ?_⟩
          have hway : wayTo key (key a) a = none := by simp [wayTo]
          rw [height_nil] at hle
          simp only [height, steps, hway]
          omega
        · obtain ⟨x, hx, hdeep⟩ := ihl hl hnil
          have hway : wayTo key (key x) a = some .left :=
            if_pos (hlr x hx a List.mem_cons_self)
          refine ⟨x, by simp [items, hx], ?_⟩
          simp only [height, steps, hway]
          omega
      · by_cases hnil : r = nil
        · subst hnil
          refine ⟨a, by simp [items], ?_⟩
          have hway : wayTo key (key a) a = none := by simp [wayTo]
          rw [height_nil] at hle
          simp only [height, steps, hway]
          omega
        · obtain ⟨x, hx, hdeep⟩ := ihr hr hnil
          have hlt := har x hx
          have hway : wayTo key (key x) a = some .right := by simp [wayTo, hlt, hlt.le.not_gt]
          refine ⟨x, by simp [items, hx], ?_⟩
          simp only [height, steps, hway]
          omega

end Order

end ColonyPico.Foundations.BalancedTrees
