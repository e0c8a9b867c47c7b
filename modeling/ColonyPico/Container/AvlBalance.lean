import ColonyPico.Container.AvlLinks

/-!
The loops with which insertion and removal restore the balance of the tree.
-/

namespace ColonyPico.Container.AvlBalance

open ColonyPico.Container.AvlTrees
open ColonyPico.Container.AvlLinks
open ColonyPico.Foundations.BalancedTrees
open ColonyPico.Foundations.BalancedTrees.Shape

variable {ι : Type}

/-- One of the subtrees is the higher one. -/
def Tilted (t : Shape ι) : Prop :=
  ∃ s near a far, t = join s near a (.tilted s) far

/-- The comparison that leads to a side. -/
def sign : Side → Int
  | .left => 1
  | .right => -1

variable [DecidableEq ι] {h : Nodes ι} {c : List (Frame ι)} {f : Frame ι} {t : Shape ι} {n : Nat}

/-- A pass of the loop of `insert()` at a node whose subtree at the side `s` has grown. -/
theorem checkTaller_sign (s : Side) (h : Nodes ι) (curPtr : Address ι) (taller : Bool) :
    checkTaller h curPtr (sign s) taller =
      match (h.get curPtr).balance with
      | .even => some (setBalance h curPtr (.tilted s), true)
      | .tilted s' =>
          if s' = s then grew s h curPtr else some (setBalance h curPtr .even, false) := by
  cases s <;> simp only [checkTaller, sign] <;> rcases (h.get curPtr).balance with - | - | - <;> rfl

/-- A pass of the loop of `removeItem()` at a node whose subtree at the side `s` has become
shorter. -/
theorem checkShorter_side (s : Side) (h : Nodes ι) (parentPtr : Address ι) :
    checkShorter h parentPtr (decide (s = .left)) =
      match (h.get parentPtr).balance with
      | .even => some (setBalance h parentPtr (.tilted s.other), false)
      | .tilted s' =>
          if s' = s then some (setBalance h parentPtr .even, true)
          else lost s.other h parentPtr := by
  cases s <;> simp only [checkShorter] <;> rcases (h.get parentPtr).balance with - | - | - <;> rfl

/-- A tree `t'` with the items of `t` that is balanced. -/
structure Rebalanced (h' : Nodes ι) (c : List (Frame ι)) (t t' : Shape ι) : Prop where
  view : View h' c t'
  balanced : t'.Balanced
  items : t'.items = t.items

omit [DecidableEq ι] in
/-- The grandchild `g` between the node and its child has taken their place. -/
theorem balanced_double {s : Side} {x p q z : Shape ι} {a l g : ι} {e : Balance} {m : Nat}
    (hx : x.Balanced) (hz : z.Balanced) (hgrand : (join s p g e q).Balanced)
    (hxm : x.height = m) (hzm : z.height = m) (hgm : (join s p g e q).height = m + 1) :
    (join s (join s x l (doubleBalances s e).2 p) g .even
      (join s q a (doubleBalances s e).1 z)).Balanced ∧
    (join s (join s x l (doubleBalances s e).2 p) g .even
      (join s q a (doubleBalances s e).1 z)).height = m + 2 := by
  obtain ⟨hleans, hp, hq⟩ := balanced_join.mp hgrand
  simp only [balanced_join, height_join, leans_even] at hgm ⊢
  rcases Balance.cases_of s e with rfl | rfl | rfl
  · simp only [doubleBalances, leans_even] at hleans ⊢
    refine ⟨⟨?_, ⟨?_, hx, hp⟩, ?_, hq, hz⟩, ?_⟩ <;> omega
  · simp only [doubleBalances, if_true, leans_even, leans_tilted, leans_tilted_other] at hleans ⊢
    refine ⟨⟨?_, ⟨?_, hx, hp⟩, ?_, hq, hz⟩, ?_⟩ <;> omega
  · simp only [doubleBalances, Side.other_ne, if_false, leans_even, leans_tilted,
      leans_tilted_other] at hleans ⊢
    refine ⟨⟨?_, ⟨?_, hx, hp⟩, ?_, hq, hz⟩, ?_⟩ <;> omega

theorem grew_rebalances {s : Side} {z : Shape ι} {a : ι} {b : Balance}
    (hview : View h c (join s t a b z)) (ht : t.Balanced) (hz : z.Balanced)
    (hheight : t.height = z.height + 2) (htilted : Tilted t) :
    ∃ h' t', grew s h (.item a) = some (h', false) ∧ Rebalanced h' c (join s t a b z) t' ∧
      t'.height = z.height + 2 := by
  obtain ⟨s', near, l, far, rfl⟩ := htilted
  obtain ⟨hlean, hnear, hfar⟩ := balanced_join.mp ht
  rw [leans_tilted] at hlean
  rw [height_join] at hheight
  rcases s.eq_or_eq_other s' with rfl | rfl
  · obtain ⟨h', hgrew, hview'⟩ := grew_single hview
    refine ⟨h', _, hgrew, ⟨hview', ?_, items_rotate _ _ _ _ _ _ _ _ _ _⟩, ?_⟩
    · simp only [balanced_join, leans_even, height_join]
      refine ⟨?_, hnear, ?_, hfar, hz⟩ <;> omega
    · simp only [height_join]
      omega
  · have hne : near ≠ nil := by
      rintro rfl
      simp at hlean
    obtain ⟨p, g, e, q, rfl⟩ := exists_join s hne
    rw [join_other] at hview ⊢
    obtain ⟨h', hgrew, hview'⟩ := grew_double hview
    obtain ⟨hbalanced, hheight'⟩ := balanced_double hfar hz hnear (by omega) rfl (by omega)
    exact ⟨h', _, hgrew, ⟨hview', hbalanced, items_rotate_twice _ _ _ _ _ _ _ _ _ _ _ _ _ _⟩,
      hheight'⟩

theorem checkTaller_rebalances (hview : View h (f :: c) t) (hfits : Fits (f :: c) n)
    (hbalanced : t.Balanced) (hheight : t.height = n + 1) (htilted : n = 0 ∨ Tilted t)
    (τ : Bool) :
    ∃ h' t' taller, checkTaller h (.item f.item) (sign f.side) τ = some (h', taller) ∧
      Rebalanced h' c (f.fill t) t' ∧
      (taller = true → t'.height = max n f.sibling.height + 2 ∧ Tilted t') ∧
      (taller = false → t'.height = max n f.sibling.height + 1) := by
  have hitem := hview.around.1
  have hview' := view_cons.mp hview
  obtain ⟨hleans, hsibling, -⟩ := hfits
  rw [checkTaller_sign, hitem, balance_linked]
  rcases Balance.cases_of f.side f.balance with hb | hb | hb
  · rw [hb] at hleans ⊢
    rw [leans_even] at hleans
    refine ⟨_, _, true, rfl, ⟨hview'.setBalance _, ?_, items_setBalance _ _ _ _ _ _⟩, ?_, by simp⟩
    · simp only [balanced_join, leans_tilted]
      exact ⟨by omega, hbalanced, hsibling⟩
    · intro _
      refine ⟨?_, f.side, t, f.item, f.sibling, rfl⟩
      rw [height_join]
      omega
  · rw [hb, leans_tilted] at hleans
    obtain ⟨h', t', hgrew, hrebalanced, hheight'⟩ := grew_rebalances hview' hbalanced hsibling
      (by omega) (htilted.resolve_left (by omega))
    rw [hb]
    simp only [if_true]
    exact ⟨h', t', false, hgrew, hrebalanced, by simp, fun _ => by omega⟩
  · rw [hb] at hleans ⊢
    rw [leans_tilted_other] at hleans
    simp only [Side.other_ne, if_false]
    refine ⟨_, _, false, rfl, ⟨hview'.setBalance _, ?_, items_setBalance _ _ _ _ _ _⟩, by simp, ?_⟩
    · simp only [balanced_join, leans_even]
      exact ⟨by omega, hbalanced, hsibling⟩
    · intro _
      rw [height_join]
      omega

/-- The second loop of `insert()`, from a subtree that has grown. -/
theorem tallerLoop_rebalances (hview : View h c t) (hfits : Fits c n) (hbalanced : t.Balanced)
    (hheight : t.height = n + 1) (htilted : n = 0 ∨ Tilted t) (τ : Bool) :
    ∃ h' t', tallerLoop (c.map fun f => sign f.side) h (some (top c)) τ = some h' ∧
      Rebalanced h' [] (plug c t) t' := by
  induction c generalizing h t n τ with
  | nil => exact ⟨h, t, rfl, hview, hbalanced, rfl⟩
  | cons f c ih =>
      obtain ⟨h', t', taller, hstep, hrebalanced, htaller, hlower⟩ :=
        checkTaller_rebalances hview hfits hbalanced hheight htilted τ
      have hitems : (plug c t').items = (plug (f :: c) t).items := by
        rw [plug_cons, items_plug, items_plug, hrebalanced.items]
      have hloop : tallerLoop ((f :: c).map fun f => sign f.side) h (some (top (f :: c))) τ =
          if taller then tallerLoop (c.map fun f => sign f.side) h' (some (top c)) taller
          else some h' := by
        rw [List.map_cons, tallerLoop]
        simp only [top, Option.bind_eq_bind, Option.bind_some, hstep, hview.around.1,
          parentPtr_linked]
        rfl
      rw [hloop]
      cases taller with
      | true =>
          obtain ⟨hheight', htilted'⟩ := htaller rfl
          obtain ⟨h'', t'', hrest, hrebalanced'⟩ := ih hrebalanced.view hfits.2.2
            hrebalanced.balanced hheight' (.inr htilted') true
          exact ⟨h'', t'', hrest, hrebalanced'.view, hrebalanced'.balanced,
            hrebalanced'.items.trans hitems⟩
      | false =>
          refine ⟨h', plug c t', rfl, view_append.mp ?_, ?_, hitems⟩
          · rw [List.append_nil]
            exact hrebalanced.view
          · rw [balanced_plug, hlower rfl]
            exact ⟨hrebalanced.balanced, hfits.2.2⟩

theorem lost_rebalances {s : Side} {z : Shape ι} {a : ι} {b : Balance}
    (hview : View h c (join s t a b z)) (ht : t.Balanced) (hz : z.Balanced)
    (hheight : t.height = z.height + 2) :
    ∃ h' t' shorter, lost s h (.item a) = some (h', shorter) ∧
      Rebalanced h' c (join s t a b z) t' ∧
      t'.height = if shorter then z.height + 2 else z.height + 3 := by
  have hne : t ≠ nil := by
    rintro rfl
    simp at hheight
  obtain ⟨x, l, d, y, rfl⟩ := exists_join s hne
  obtain ⟨hlean, hx, hy⟩ := balanced_join.mp ht
  rw [height_join] at hheight
  rcases Balance.cases_of s d with rfl | rfl | rfl
  · rw [leans_even] at hlean
    obtain ⟨h', hlost, hview'⟩ := lost_even hview
    refine ⟨h', _, false, hlost, ⟨hview', ?_, items_rotate _ _ _ _ _ _ _ _ _ _⟩, ?_⟩
    · simp only [balanced_join, leans_tilted, leans_tilted_other, height_join]
      refine ⟨?_, hx, ?_, hy, hz⟩ <;> omega
    · simp only [height_join, Bool.false_eq_true, if_false]
      omega
  · rw [leans_tilted] at hlean
    obtain ⟨h', hlost, hview'⟩ := lost_single hview
    refine ⟨h', _, true, hlost, ⟨hview', ?_, items_rotate _ _ _ _ _ _ _ _ _ _⟩, ?_⟩
    · simp only [balanced_join, leans_even, height_join]
      refine ⟨?_, hx, ?_, hy, hz⟩ <;> omega
    · simp only [height_join, if_true]
      omega
  · rw [leans_tilted_other] at hlean
    have hne : y ≠ nil := by
      rintro rfl
      simp at hlean
    obtain ⟨p, g, e, q, rfl⟩ := exists_join s hne
    obtain ⟨h', hlost, hview'⟩ := lost_double hview
    obtain ⟨hbalanced, hheight'⟩ := balanced_double hx hz hy (by omega) rfl (by omega)
    exact ⟨h', _, true, hlost,
      ⟨hview', hbalanced, items_rotate_twice _ _ _ _ _ _ _ _ _ _ _ _ _ _⟩, hheight'⟩

/-- One pass at a node whose subtree has become shorter. -/
theorem checkShorter_rebalances (hview : View h (f :: c) t) (hfits : Fits (f :: c) (t.height + 1))
    (hbalanced : t.Balanced) :
    ∃ h' t' shorter, checkShorter h (.item f.item) (decide (f.side = .left)) = some (h', shorter) ∧
      Rebalanced h' c (f.fill t) t' ∧
      (if shorter then t'.height + 1 else t'.height) =
        max (t.height + 1) f.sibling.height + 1 := by
  have hitem := hview.around.1
  have hview' := view_cons.mp hview
  obtain ⟨hleans, hsibling, -⟩ := hfits
  rw [checkShorter_side, hitem, balance_linked]
  rcases Balance.cases_of f.side f.balance with hb | hb | hb
  · rw [hb] at hleans ⊢
    rw [leans_even] at hleans
    refine ⟨_, _, false, rfl, ⟨hview'.setBalance _, ?_, items_setBalance _ _ _ _ _ _⟩, ?_⟩
    · simp only [balanced_join, leans_tilted_other]
      exact ⟨by omega, hbalanced, hsibling⟩
    · simp only [height_join, Bool.false_eq_true, if_false]
      omega
  · rw [hb] at hleans ⊢
    rw [leans_tilted] at hleans
    simp only [if_true]
    refine ⟨_, _, true, rfl, ⟨hview'.setBalance _, ?_, items_setBalance _ _ _ _ _ _⟩, ?_⟩
    · simp only [balanced_join, leans_even]
      exact ⟨by omega, hbalanced, hsibling⟩
    · simp only [height_join, if_true]
      omega
  · rw [hb] at hleans ⊢
    rw [leans_tilted_other] at hleans
    simp only [Side.other_ne, if_false]
    rw [Frame.fill, ← join_other] at hview' ⊢
    obtain ⟨h', t', shorter, hlost, hrebalanced, hheight⟩ :=
      lost_rebalances hview' hsibling hbalanced (by omega)
    refine ⟨h', t', shorter, hlost, hrebalanced, ?_⟩
    rw [hheight]
    split_ifs <;> omega

/-- The loop of `removeItem()`, from a subtree that has become shorter. -/
theorem shorterLoop_rebalances {fuel : Nat} (hview : View h c t) (hfits : Fits c (t.height + 1))
    (hbalanced : t.Balanced) (hfuel : c.length < fuel) :
    ∃ h' t', shorterLoop fuel h (top c) (decide (holeSide c = .left)) = some h' ∧
      Rebalanced h' [] (plug c t) t' := by
  induction c generalizing h t fuel with
  | nil =>
      obtain ⟨fuel, rfl⟩ := Nat.exists_eq_add_one.mpr hfuel
      refine ⟨h, t, ?_, hview, hbalanced, rfl⟩
      have hroot : h.get .root = rootNode (ptr t) := hview.around
      rw [shorterLoop, top, hroot]
      rfl
  | cons f c ih =>
      obtain ⟨fuel, rfl⟩ := Nat.exists_eq_add_one.mpr (Nat.zero_lt_of_lt hfuel)
      obtain ⟨h', t', shorter, hstep, hrebalanced, hheight⟩ :=
        checkShorter_rebalances hview hfits hbalanced
      have hitems : (plug c t').items = (plug (f :: c) t).items := by
        rw [plug_cons, items_plug, items_plug, hrebalanced.items]
      have hside : decide ((h.get (top c)).prevPtr = some (.item f.item)) =
          decide (holeSide c = .left) := by
        have hchild := (view_cons.mp hview).getChild_top (ptr_join _ _ _ _ _) .left
        exact decide_eq_decide.mpr (hchild.trans eq_comm)
      have hloop : shorterLoop (fuel + 1) h (.item f.item) (decide (f.side = .left)) =
          if shorter then shorterLoop fuel h' (top c) (decide (holeSide c = .left))
          else some h' := by
        rw [shorterLoop]
        simp only [hview.around.1, isNotRoot_linked, if_true, parentPtr_linked,
          Option.bind_eq_bind, Option.bind_some, hstep, hside]
        rfl
      change ∃ h' t',
        shorterLoop (fuel + 1) h (.item f.item) (decide (f.side = .left)) = some h' ∧ _
      rw [hloop]
      cases shorter with
      | true =>
          simp only [if_true] at hheight
          obtain ⟨h'', t'', hrest, hrebalanced'⟩ := ih hrebalanced.view
            (by rw [hheight]; exact hfits.2.2) hrebalanced.balanced (Nat.lt_of_succ_lt_succ hfuel)
          exact ⟨h'', t'', hrest, hrebalanced'.view, hrebalanced'.balanced,
            hrebalanced'.items.trans hitems⟩
      | false =>
          simp only [Bool.false_eq_true, if_false] at hheight
          refine ⟨h', plug c t', rfl, view_append.mp ?_, ?_, hitems⟩
          · rw [List.append_nil]
            exact hrebalanced.view
          · rw [balanced_plug, hheight]
            exact ⟨hrebalanced.balanced, hfits.2.2⟩

end ColonyPico.Container.AvlBalance
