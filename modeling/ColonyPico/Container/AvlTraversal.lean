import ColonyPico.Container.AvlRemoval

/-!
The items in the order of their keys, as the traversals visit them.
-/

namespace ColonyPico.Container.AvlTraversal

open ColonyPico.Container.AvlTrees
open ColonyPico.Container.AvlLinks
open ColonyPico.Container.AvlUpdates
open ColonyPico.Container.AvlRemoval
open ColonyPico.Foundations.BalancedTrees
open ColonyPico.Foundations.BalancedTrees.Shape

variable {ι : Type} {h : Nodes ι} {c : List (Frame ι)} {t l r : Shape ι} {a : ι} {b : Balance}

theorem head?_items {path : List (Frame ι)} (hpath : ∀ x ∈ path, x.side = .left) (p : ι)
    (b : Balance) (u : Shape ι) : (plug path (join .left nil p b u)).items.head? = some p := by
  have hbefore : before path = [] := by
    induction path with
    | nil => rfl
    | cons f path ih =>
        obtain ⟨s, x, e, v⟩ := f
        obtain rfl : s = .left := hpath _ List.mem_cons_self
        exact ih fun g hg => hpath g (List.mem_cons_of_mem _ hg)
  simp [items_plug, hbefore, join, items]

theorem getLast?_items {path : List (Frame ι)} (hpath : ∀ x ∈ path, x.side = .right) (p : ι)
    (b : Balance) (u : Shape ι) : (plug path (join .right nil p b u)).items.getLast? = some p := by
  have hafter := after_of_right (d := []) hpath
  rw [List.append_nil] at hafter
  simp [items_plug, hafter, after, join, items]

section Ends

variable {parent : Address ι} {fuel : Nat} {n : Address ι}

theorem lastAlong_left (hlinked : Linked h parent t) (hn : ptr t = some n)
    (hfuel : t.items.length ≤ fuel) :
    (lastAlong .left h fuel n).map some = some (t.items.head?.map .item) := by
  have ht : t ≠ nil := by
    rintro rfl
    simp at hn
  obtain ⟨path, p, b, u, m, hm, rfl, hpath, hlast⟩ :=
    lastAlong_spec .left hlinked ht ((height_le_length t).trans hfuel)
  obtain rfl : m = n := Option.some.inj (hm.symm.trans hn)
  rw [hlast, head?_items hpath]
  rfl

theorem lastAlong_right (hlinked : Linked h parent t) (hn : ptr t = some n)
    (hfuel : t.items.length ≤ fuel) :
    (lastAlong .right h fuel n).map some = some (t.items.getLast?.map .item) := by
  have ht : t ≠ nil := by
    rintro rfl
    simp at hn
  obtain ⟨path, p, b, u, m, hm, rfl, hpath, hlast⟩ :=
    lastAlong_spec .right hlinked ht ((height_le_length t).trans hfuel)
  obtain rfl : m = n := Option.some.inj (hm.symm.trans hn)
  rw [hlast, getLast?_items hpath]
  rfl

theorem first_eq (hview : View h [] t) (hfuel : t.items.length ≤ fuel) :
    first fuel h = some (t.items.head?.map .item) := by
  have hroot : h.get .root = rootNode (ptr t) := hview.around
  rw [first, hroot]
  cases t with
  | nil => rfl
  | node l a b r => exact lastAlong_left hview.tree rfl hfuel

theorem last_eq (hview : View h [] t) (hfuel : t.items.length ≤ fuel) :
    last fuel h = some (t.items.getLast?.map .item) := by
  have hroot : h.get .root = rootNode (ptr t) := hview.around
  rw [last, hroot]
  cases t with
  | nil => rfl
  | node l a b r => exact lastAlong_right hview.tree rfl hfuel

end Ends

theorem View.isNotRoot_top (hview : View h c t) :
    (h.get (top c)).isNotRoot = !c.isEmpty := by
  have haround := hview.around
  cases c with
  | nil =>
      have hroot : h.get .root = rootNode (ptr t) := haround
      rw [top, hroot]
      rfl
  | cons f c =>
      rw [top, haround.1, isNotRoot_linked]
      rfl

section Neighbours

variable [DecidableEq ι] {fuel : Nat}

omit [DecidableEq ι] in
theorem isNotRoot_of_ptr {parent : Address ι} (hlinked : Linked h parent t) {n : Address ι}
    (hn : ptr t = some n) : (h.get n).isNotRoot = true := by
  cases t with
  | nil => simp at hn
  | node l a b r =>
      obtain rfl : .item a = n := Option.some.inj hn
      rw [hlinked.1, isNotRoot_linked]

theorem View.climb_succ (hview : View h c t) {n : Address ι} (hn : ptr t = some n) (s : Side) :
    climb s h (fuel + 1) n =
      if s = holeSide c then climb s h fuel (top c) else some n := by
  have hparent := hview.tree.parentPtr_of_ptr hn
  have hnode := isNotRoot_of_ptr hview.tree hn
  simp only [climb, hnode, if_true, hparent, Option.bind_eq_bind, Option.bind_some,
    hview.getChild_top hn]
  rfl

omit [DecidableEq ι] in
theorem View.links_top (hview : View h c t) {n : Address ι} (hn : ptr t = some n) :
    ((h.get (top c)).prevPtr = some n ↔ .left = holeSide c) ∧
      ((h.get (top c)).nextPtr = some n ↔ .right = holeSide c) :=
  ⟨hview.getChild_top hn .left, hview.getChild_top hn .right⟩

theorem climb_right (hview : View h c t) {n : Address ι} (hn : ptr t = some n)
    (hfuel : c.length < fuel) :
    ∃ m p, climb .right h fuel n = some m ∧ (h.get m).parentPtr = some p ∧
      (if (h.get p).isNotRoot then some p else none) = (after c).head?.map .item := by
  induction c generalizing t n fuel with
  | nil =>
      obtain ⟨fuel, rfl⟩ := Nat.exists_eq_add_one.mpr hfuel
      have hroot := View.isNotRoot_top hview
      refine ⟨n, .root, ?_, hview.tree.parentPtr_of_ptr hn, ?_⟩
      · rw [View.climb_succ hview hn, if_neg (by simp [holeSide])]
      · rw [top] at hroot
        rw [hroot]
        rfl
  | cons f c ih =>
      obtain ⟨fuel, rfl⟩ := Nat.exists_eq_add_one.mpr (Nat.zero_lt_of_lt hfuel)
      rw [View.climb_succ hview hn]
      have hup : View h c (f.fill t) := view_cons.mp hview
      have hroot := View.isNotRoot_top hview
      obtain ⟨s, x, e, u⟩ := f
      cases s with
      | left =>
          refine ⟨n, .item x, if_neg (by simp [holeSide]), hview.tree.parentPtr_of_ptr hn, ?_⟩
          rw [top_cons] at hroot
          rw [hroot]
          rfl
      | right =>
          rw [holeSide_cons, if_pos rfl]
          exact ih hup (ptr_join _ _ _ _ _) (Nat.lt_of_succ_lt_succ hfuel)

theorem climb_left (hview : View h c t) {n : Address ι} (hn : ptr t = some n)
    (hfuel : c.length + 1 < fuel) :
    ∃ m, climb .left h fuel n = some m ∧
      (if (h.get m).isNotRoot then
        (h.get m).parentPtr.bind fun p => some (if (h.get p).isNotRoot then some p else none)
      else some none) = some ((before c).getLast?.map .item) := by
  induction c generalizing t n fuel with
  | nil =>
      obtain ⟨fuel, rfl⟩ : ∃ k, fuel = k + 2 := Nat.exists_eq_add_of_le' hfuel
      have hroot := View.isNotRoot_top hview
      rw [top] at hroot
      refine ⟨.root, ?_, ?_⟩
      · rw [View.climb_succ hview hn, holeSide_nil, if_pos rfl, top]
        simp [climb, hroot]
      · rw [hroot]
        rfl
  | cons f c ih =>
      obtain ⟨fuel, rfl⟩ := Nat.exists_eq_add_one.mpr (Nat.zero_lt_of_lt hfuel)
      rw [View.climb_succ hview hn]
      have hup : View h c (f.fill t) := view_cons.mp hview
      have hroot := View.isNotRoot_top hview
      obtain ⟨s, x, e, u⟩ := f
      cases s with
      | left =>
          rw [holeSide_cons, if_pos rfl]
          exact ih hup (ptr_join _ _ _ _ _) (Nat.lt_of_succ_lt_succ hfuel)
      | right =>
          refine ⟨n, if_neg (by simp [holeSide]), ?_⟩
          rw [top_cons] at hroot
          rw [isNotRoot_of_ptr hview.tree hn, if_pos rfl, hview.tree.parentPtr_of_ptr hn, top_cons,
            Option.bind_some, hroot]
          simp [before]

theorem next_eq (hview : View h c (node l a b r))
    (hfuel : (plug c (node l a b r)).items.length < fuel) :
    next fuel h (.item a) = some ((r.items ++ after c).head?.map .item) := by
  have hlength := length_le_items c (node l a b r)
  simp only [items, List.length_append, List.length_cons] at hlength
  obtain ⟨hitem, -, hr⟩ := hview.tree
  rw [next, hitem, nextPtr_linked]
  cases hptr : ptr r with
  | some n =>
      have hne : r.items ≠ [] := by
        cases r <;> simp_all [items]
      rw [List.head?_append_of_ne_nil _ hne]
      exact lastAlong_left hr hptr (by omega)
  | none =>
      obtain rfl := ptr_eq_none.mp hptr
      obtain ⟨hleft, hright⟩ := View.links_top hview (ptr_node _ _ _ _)
      have hroot := View.isNotRoot_top hview
      simp only [parentPtr_linked, Option.bind_eq_bind, Option.bind_some, hleft, hright, items_nil,
        List.nil_append]
      cases c with
      | nil =>
          rw [hroot]
          rfl
      | cons f c =>
          have hup : View h c (f.fill (node l a b nil)) := view_cons.mp hview
          obtain ⟨s, x, e, u⟩ := f
          cases s with
          | left =>
              rw [hroot]
              rfl
          | right =>
              have hdepth : c.length < fuel := by
                rw [List.length_cons] at hlength
                omega
              obtain ⟨m, p, hclimb, hparent, hresult⟩ := climb_right hup (ptr_join _ _ _ _ _) hdepth
              rw [after, ← hresult]
              simp only [holeSide_cons, reduceCtorEq, if_false, if_true, top_cons, hclimb,
                Option.bind_some, hparent]
              rfl

theorem previous_eq (hview : View h c (node l a b r))
    (hfuel : (plug c (node l a b r)).items.length < fuel) :
    previous fuel h (.item a) = some ((before c ++ l.items).getLast?.map .item) := by
  have hlength := length_le_items c (node l a b r)
  simp only [items, List.length_append, List.length_cons] at hlength
  obtain ⟨hitem, hl, -⟩ := hview.tree
  rw [previous, hitem, prevPtr_linked]
  cases hptr : ptr l with
  | some n =>
      have hne : l.items ≠ [] := by
        cases l <;> simp_all [items]
      rw [List.getLast?_append_of_ne_nil _ hne]
      exact lastAlong_right hl hptr (by omega)
  | none =>
      obtain rfl := ptr_eq_none.mp hptr
      obtain ⟨hleft, hright⟩ := View.links_top hview (ptr_node _ _ _ _)
      have hroot := View.isNotRoot_top hview
      simp only [parentPtr_linked, Option.bind_eq_bind, Option.bind_some, hleft, hright, items_nil,
        List.append_nil]
      cases c with
      | nil =>
          obtain ⟨fuel, rfl⟩ := Nat.exists_eq_add_one.mpr (Nat.zero_lt_of_lt hfuel)
          have hroot' : (h.get .root).isNotRoot = false := hroot
          simp [top, climb, hroot', before]
      | cons f c =>
          have hup : View h c (f.fill (node nil a b r)) := view_cons.mp hview
          obtain ⟨s, x, e, u⟩ := f
          cases s with
          | right => simp [before]
          | left =>
              have hdepth : c.length + 1 < fuel := by
                rw [List.length_cons] at hlength
                omega
              obtain ⟨m, hclimb, hresult⟩ := climb_left hup (ptr_join _ _ _ _ _) hdepth
              rw [before, ← hresult]
              simp only [holeSide_cons, reduceCtorEq, if_false, if_true, top_cons, hclimb,
                Option.bind_some]
              rfl

/-- The nodes that a traversal visits from a node on. -/
def visits (step : Address ι → Option (Option (Address ι))) :
    Nat → Option (Address ι) → Option (List (Address ι))
  | 0, _ => none
  | _ + 1, none => some []
  | fuel + 1, some n => do
      let m ← step n
      let rest ← visits step fuel m
      pure (n :: rest)

/-- `for ( n = first(); n; n = next( *n ) )`. -/
def ascending (fuel : Nat) (h : Nodes ι) : Option (List (Address ι)) := do
  let n ← first fuel h
  visits (next fuel h) fuel n

/-- `for ( n = last(); n; n = previous( *n ) )`. -/
def descending (fuel : Nat) (h : Nodes ι) : Option (List (Address ι)) := do
  let n ← last fuel h
  visits (previous fuel h) fuel n

omit [DecidableEq ι] in
theorem visits_eq {step : Address ι → Option (Option (Address ι))} {xs : List ι}
    (hstep : ∀ l₁ a l₂, xs = l₁ ++ a :: l₂ → step (.item a) = some (l₂.head?.map .item))
    (l₁ l₂ : List ι) (hxs : xs = l₁ ++ l₂) (hfuel : l₂.length < fuel) :
    visits step fuel (l₂.head?.map .item) = some (l₂.map .item) := by
  induction l₂ generalizing l₁ fuel with
  | nil =>
      obtain ⟨fuel, rfl⟩ := Nat.exists_eq_add_one.mpr hfuel
      rfl
  | cons a l₂ ih =>
      obtain ⟨fuel, rfl⟩ := Nat.exists_eq_add_one.mpr (Nat.zero_lt_of_lt hfuel)
      have hrest := ih (l₁ ++ [a]) (by simpa using hxs) (Nat.lt_of_succ_lt_succ hfuel)
      simp only [List.head?_cons, Option.map_some, visits, hstep l₁ a l₂ hxs, Option.bind_eq_bind,
        Option.bind_some, hrest]
      rfl

omit [DecidableEq ι] in
theorem split_items {T : Shape ι} (hview : View h [] T) {l₁ l₂ : List ι}
    (hitems : T.items = l₁ ++ a :: l₂) :
    ∃ c l b r, T = plug c (node l a b r) ∧ View h c (node l a b r) ∧ l₁ = before c ++ l.items ∧
      l₂ = r.items ++ after c := by
  obtain ⟨c, l, b, r, rfl, hfocus⟩ := hview.focus (a := a) (by simp [hitems])
  refine ⟨c, l, b, r, rfl, hfocus, ?_⟩
  have hnodup := hview.nodup
  have heq : (before c ++ l.items) ++ a :: (r.items ++ after c) = l₁ ++ a :: l₂ := by
    rw [← hitems, items_plug]
    simp [items]
  rw [plug_nil, hitems] at hnodup
  obtain ⟨-, hcons, hdisjoint⟩ := List.nodup_append.mp hnodup
  rw [eq_comm, List.append_cons_inj_of_notMem] at heq
  · exact ⟨heq.1, heq.2.2⟩
  · exact fun hmem => hdisjoint a hmem a List.mem_cons_self rfl
  · exact (List.nodup_cons.mp hcons).1

theorem ascending_eq {T : Shape ι} (hview : View h [] T) (hfuel : T.items.length < fuel) :
    ascending fuel h = some (T.items.map .item) := by
  rw [ascending, first_eq hview hfuel.le]
  refine visits_eq ?_ [] T.items rfl hfuel
  intro l₁ a l₂ hitems
  obtain ⟨c, l, b, r, rfl, hfocus, -, rfl⟩ := split_items hview hitems
  exact next_eq hfocus hfuel

theorem descending_eq {T : Shape ι} (hview : View h [] T) (hfuel : T.items.length < fuel) :
    descending fuel h = some (T.items.reverse.map .item) := by
  rw [descending, last_eq hview hfuel.le, ← List.head?_reverse]
  refine visits_eq ?_ [] T.items.reverse rfl (by rwa [List.length_reverse])
  intro l₁ a l₂ hitems
  rw [List.nil_append] at hitems
  have hitems' : T.items = l₂.reverse ++ a :: l₁.reverse := by
    rw [← List.reverse_reverse T.items, hitems]
    simp
  obtain ⟨c, l, b, r, rfl, hfocus, hl, -⟩ := split_items hview hitems'
  rw [previous_eq hfocus hfuel, ← hl, List.getLast?_reverse]

end Neighbours

end ColonyPico.Container.AvlTraversal
