import Mathlib.Data.Finset.Basic
import ColonyPico.Container.AvlTraversal

/-!
What a map holds over whole runs, against a finite set of items.
-/

namespace ColonyPico.Container.MapRuns

open ColonyPico.Container.AvlTrees
open ColonyPico.Container.AvlLinks
open ColonyPico.Container.AvlUpdates
open ColonyPico.Container.AvlRemoval
open ColonyPico.Container.AvlTraversal
open ColonyPico.Foundations.BalancedTrees
open ColonyPico.Foundations.BalancedTrees.Shape

variable {ι κ : Type}

inductive Op (ι κ : Type) where
  | insert (node : ι)
  | remove (key : κ)
  | removeItem (node : ι)
  | getFirst
  | getLast

/-- What a call returns: whether it succeeded, or a pointer to an item. -/
inductive Result (ι : Type) where
  | done (success : Bool)
  | item (node : Option (Address ι))

variable [DecidableEq ι] [LinearOrder κ] (key : ι → κ) (fuel : Nat)

/-- A call of the map. -/
def call (t : AvlTree ι) : Op ι κ → Option (AvlTree ι × Result ι)
  | .insert x => (AvlTrees.insert key t x).map fun r => (r.1, .done r.2)
  | .remove k => (Map.remove key fuel t k).map fun r => (r.1, .item r.2)
  | .removeItem x =>
      (AvlTrees.removeItem fuel t (.item x)).map fun r => (r.1, .done r.2.isSome)
  | .getFirst => (Map.getFirst fuel t).map fun r => (r.1, .item r.2)
  | .getLast => (Map.getLast fuel t).map fun r => (r.1, .item r.2)

/-- One item of the set that satisfies `P` is taken out of it, or no item does. -/
def Takes (s : Finset ι) (P : ι → Prop) (s' : Finset ι) (r : Option (Address ι)) : Prop :=
  (∃ x ∈ s, P x ∧ r = some (.item x) ∧ s' = s.erase x) ∨
    ((∀ x ∈ s, ¬P x) ∧ r = none ∧ s' = s)

/-- What a call does to the set of the items. -/
def Predicts (s : Finset ι) : Op ι κ → Finset ι → Result ι → Prop
  | .insert x, s', r =>
      if ∃ y ∈ s, key y = key x then r = .done false ∧ s' = s
      else r = .done true ∧ s' = Insert.insert x s
  | .remove k, s', r => ∃ p, r = .item p ∧ Takes s (fun x => key x = k) s' p
  | .removeItem x, s', r => ∃ p, r = .done p.isSome ∧ Takes s (fun y => y = x) s' p
  | .getFirst, s', r => ∃ p, r = .item p ∧ Takes s (fun x => ∀ y ∈ s, key x ≤ key y) s' p
  | .getLast, s', r => ∃ p, r = .item p ∧ Takes s (fun x => ∀ y ∈ s, key y ≤ key x) s' p

/-- The map holds the set: its links make a tree in the order of the keys, the balances are the
differences of the heights, and the traversals visit the items in order. -/
def Holds (t : AvlTree ι) (s : Finset ι) : Prop :=
  ∃ T : Shape ι, View t.nodes [] T ∧ T.Balanced ∧ T.items.Pairwise (key · < key ·) ∧
    (∀ x, x ∈ s ↔ x ∈ T.items) ∧ ascending fuel t.nodes = some (T.items.map .item) ∧
    descending fuel t.nodes = some (T.items.reverse.map .item)

/-- Every call does what is predicted, and the map holds the set after it. -/
def Correct : List (Op ι κ) → AvlTree ι → Finset ι → Prop
  | [], t, s => Holds key fuel t s
  | op :: ops, t, s => Holds key fuel t s ∧ ∃ t' r s', call key fuel t op = some (t', r) ∧
      Predicts key s op s' r ∧ Correct ops t' s'

/-- No insertion compares its key with more nodes than the array of comparisons has room for. -/
def Shallow : List (Op ι κ) → AvlTree ι → Prop
  | [], _ => True
  | op :: ops, t => (∀ x, op = .insert x → HasRoom key t x) ∧
      ∀ t' r, call key fuel t op = some (t', r) → Shallow ops t'

variable {key fuel} {t : AvlTree ι} {T : Shape ι} {s : Finset ι}

theorem holds_of_represents (hrep : Represents key t T) (hs : ∀ x, x ∈ s ↔ x ∈ T.items)
    (hfuel : T.items.length < fuel) : Holds key fuel t s :=
  ⟨T, hrep.view, hrep.balanced, hrep.sorted, hs, ascending_eq hrep.view hfuel,
    descending_eq hrep.view hfuel⟩

theorem takes_of_found (hrep : Represents key t T) (hs : ∀ x, x ∈ s ↔ x ∈ T.items)
    (hfuel : T.items.length < fuel) {P : ι → Prop} {found : Option ι}
    (hsome : ∀ x, found = some x → x ∈ T.items ∧ P x)
    (hnone : found = none → ∀ x ∈ T.items, ¬P x) :
    ∃ t' T' p s',
      (match found.map Address.item with
        | none => pure (t, none)
        | some n => AvlTrees.removeItem fuel t n) = some (t', p) ∧
      Takes s P s' p ∧ Represents key t' T' ∧ (∀ x, x ∈ s' ↔ x ∈ T'.items) ∧
      T'.items.length ≤ T.items.length := by
  rcases found with - | x
  · refine ⟨t, T, none, s, rfl, .inr ⟨?_, rfl, rfl⟩, hrep, hs, le_rfl⟩
    intro x hx
    exact hnone rfl x ((hs x).mp hx)
  · obtain ⟨hx, hP⟩ := hsome x rfl
    obtain ⟨t', T', hremove, hrep', hperm⟩ := removeItem_spec hrep hx hfuel
    refine ⟨t', T', some (.item x), s.erase x, hremove, .inl ⟨x, (hs x).mpr hx, hP, rfl, rfl⟩,
      hrep', ?_, ?_⟩
    · have hnodup := hperm.nodup_iff.mp hrep.view.nodup
      intro y
      rw [Finset.mem_erase, hs, hperm.mem_iff, List.mem_cons]
      constructor
      · rintro ⟨hne, rfl | hy⟩
        · exact absurd rfl hne
        · exact hy
      · intro hy
        refine ⟨?_, .inr hy⟩
        rintro rfl
        exact (List.nodup_cons.mp hnodup).1 hy
    · rw [hperm.length_eq, List.length_cons]
      omega

omit [DecidableEq ι] in
/-- `find()`. -/
theorem find_spec (hrep : Represents key t T) (hfuel : T.items.length < fuel) (k : κ) :
    ∃ found : Option ι, find key fuel t.nodes k = some (found.map .item) ∧
      (∀ x, found = some x → x ∈ T.items ∧ key x = k) ∧
      (found = none → ∀ x ∈ T.items, key x ≠ k) := by
  have hsteps := (steps_le_height (wayTo key k) T).trans T.height_le_length
  have hfind := findLoop_eq (k := k) [] hrep.view.tree (hsteps.trans_lt hfuel)
  have hplug := plug_descend (wayTo key k) [] T
  obtain ⟨hbetween, hend⟩ := between_descend (c := []) (k := k) hrep.sorted (between_nil _)
  rcases hdescend : descend (wayTo key k) [] T with ⟨c, t'⟩
  rw [hdescend] at hplug hbetween hend hfind
  simp only [plug_nil] at hplug hbetween hend hfind
  rw [← prevPtr_root hrep.view] at hfind
  rcases hend with rfl | ⟨l, a, b, r, rfl, hkey⟩
  · refine ⟨none, hfind, nofun, fun _ x hx => ?_⟩
    rw [← hplug, items_plug, items_nil, List.nil_append] at hx
    rcases List.mem_append.mp hx with hx | hx
    · exact (hbetween.before x hx).ne
    · exact (hbetween.after x hx).ne'
  · refine ⟨some a, hfind, ?_, nofun⟩
    rintro x ⟨⟩
    refine ⟨?_, hkey⟩
    rw [← hplug, items_plug]
    simp [items]

theorem call_correct (hrep : Represents key t T) (hs : ∀ x, x ∈ s ↔ x ∈ T.items)
    (hfuel : T.items.length < fuel) {op : Op ι κ} (hroom : ∀ x, op = .insert x → HasRoom key t x) :
    ∃ t' T' r s', call key fuel t op = some (t', r) ∧ Predicts key s op s' r ∧
      Represents key t' T' ∧ (∀ x, x ∈ s' ↔ x ∈ T'.items) ∧
      T'.items.length ≤ T.items.length + 1 := by
  cases op with
  | insert x =>
      rcases insert_spec hrep (hroom x rfl) with ⟨⟨y, hy, hkey⟩, hinsert⟩ |
        ⟨hnew, t', T', hinsert, hrep', hperm⟩
      · refine ⟨t, T, .done false, s, by simp [call, hinsert], ?_, hrep, hs, Nat.le_succ _⟩
        rw [Predicts, if_pos ⟨y, (hs y).mpr hy, hkey⟩]
        exact ⟨rfl, rfl⟩
      · refine ⟨t', T', .done true, Insert.insert x s, by simp [call, hinsert], ?_, hrep', ?_, ?_⟩
        · rw [Predicts, if_neg]
          · exact ⟨rfl, rfl⟩
          · rintro ⟨y, hy, hkey⟩
            exact hnew y ((hs y).mp hy) hkey
        · intro y
          rw [Finset.mem_insert, hs, hperm.mem_iff, List.mem_cons]
        · rw [hperm.length_eq, List.length_cons]
  | remove k =>
      obtain ⟨found, hfind, hsome, hnone⟩ := find_spec hrep hfuel k
      obtain ⟨t', T', p, s', hremove, htakes, hrep', hs', hlen⟩ :=
        takes_of_found hrep hs hfuel hsome hnone
      refine ⟨t', T', .item p, s', ?_, ⟨p, rfl, htakes⟩, hrep', hs', Nat.le_succ_of_le hlen⟩
      rw [call, Map.remove, hfind, Option.bind_eq_bind, Option.bind_some]
      exact congrArg (Option.map fun r => (r.1, Result.item r.2)) hremove
  | removeItem x =>
      by_cases hx : x ∈ T.items
      · have hsome : ∀ y, some x = some y → y ∈ T.items ∧ y = x := by
          rintro y ⟨⟩
          exact ⟨hx, rfl⟩
        obtain ⟨t', T', p, s', hremove, htakes, hrep', hs', hlen⟩ :=
          takes_of_found (P := (· = x)) hrep hs hfuel hsome nofun
        refine ⟨t', T', .done p.isSome, s', ?_, ⟨p, rfl, htakes⟩, hrep', hs',
          Nat.le_succ_of_le hlen⟩
        exact congrArg (Option.map fun r => (r.1, Result.done r.2.isSome)) hremove
      · refine ⟨t, T, .done false, s, ?_, ⟨none, rfl, .inr ⟨?_, rfl, rfl⟩⟩, hrep, hs,
          Nat.le_succ _⟩
        · rw [call, removeItem_of_notMem hrep hx]
          rfl
        · rintro y hy rfl
          exact hx ((hs y).mp hy)
  | getFirst =>
      have hfirst := first_eq hrep.view hfuel.le
      have hsome : ∀ x, T.items.head? = some x → x ∈ T.items ∧ ∀ y ∈ s, key x ≤ key y := by
        intro x hx
        obtain ⟨xs, hxs⟩ := List.head?_eq_some_iff.mp hx
        refine ⟨List.mem_of_mem_head? hx, fun y hy => ?_⟩
        have hsorted := hrep.sorted
        rw [hs, hxs] at hy
        rw [hxs] at hsorted
        rcases List.mem_cons.mp hy with rfl | hy
        · exact le_rfl
        · exact ((List.pairwise_cons.mp hsorted).1 y hy).le
      have hnone : T.items.head? = none → ∀ x ∈ T.items, ¬∀ y ∈ s, key x ≤ key y := by
        rw [List.head?_eq_none_iff]
        intro hnil x hx
        rw [hnil] at hx
        cases hx
      obtain ⟨t', T', p, s', hremove, htakes, hrep', hs', hlen⟩ :=
        takes_of_found hrep hs hfuel hsome hnone
      refine ⟨t', T', .item p, s', ?_, ⟨p, rfl, htakes⟩, hrep', hs', Nat.le_succ_of_le hlen⟩
      rw [call, Map.getFirst, hfirst, Option.bind_eq_bind, Option.bind_some]
      exact congrArg (Option.map fun r => (r.1, Result.item r.2)) hremove
  | getLast =>
      have hlast := last_eq hrep.view hfuel.le
      have hsome : ∀ x, T.items.getLast? = some x → x ∈ T.items ∧ ∀ y ∈ s, key y ≤ key x := by
        intro x hx
        obtain ⟨xs, hxs⟩ := List.getLast?_eq_some_iff.mp hx
        refine ⟨List.mem_of_mem_getLast? hx, fun y hy => ?_⟩
        have hsorted := hrep.sorted
        rw [hs, hxs] at hy
        rw [hxs] at hsorted
        rcases List.mem_append.mp hy with hy | hy
        · exact ((List.pairwise_append.mp hsorted).2.2 y hy x List.mem_cons_self).le
        · rw [List.mem_singleton.mp hy]
      have hnone : T.items.getLast? = none → ∀ x ∈ T.items, ¬∀ y ∈ s, key y ≤ key x := by
        rw [List.getLast?_eq_none_iff]
        intro hnil x hx
        rw [hnil] at hx
        cases hx
      obtain ⟨t', T', p, s', hremove, htakes, hrep', hs', hlen⟩ :=
        takes_of_found hrep hs hfuel hsome hnone
      refine ⟨t', T', .item p, s', ?_, ⟨p, rfl, htakes⟩, hrep', hs', Nat.le_succ_of_le hlen⟩
      rw [call, Map.getLast, hlast, Option.bind_eq_bind, Option.bind_some]
      exact congrArg (Option.map fun r => (r.1, Result.item r.2)) hremove

theorem correct_of_represents {ops : List (Op ι κ)} (hrep : Represents key t T)
    (hs : ∀ x, x ∈ s ↔ x ∈ T.items) (hfuel : T.items.length + ops.length < fuel)
    (hshallow : Shallow key fuel ops t) : Correct key fuel ops t s := by
  induction ops generalizing t T s with
  | nil => exact holds_of_represents hrep hs hfuel
  | cons op ops ih =>
      rw [List.length_cons] at hfuel
      obtain ⟨hroom, hrest⟩ := hshallow
      have hlt : T.items.length < fuel := by omega
      obtain ⟨t', T', r, s', hcall, hpredicts, hrep', hs', hlen⟩ :=
        call_correct hrep hs hlt hroom
      refine ⟨holds_of_represents hrep hs hlt, t', r, s', hcall, hpredicts, ?_⟩
      exact ih hrep' hs' (by omega) (hrest t' r hcall)

/-- A map that starts empty. -/
theorem map_correct (ops : List (Op ι κ)) (hfuel : ops.length < fuel)
    (hshallow : Shallow key fuel ops AvlTree.init) : Correct key fuel ops AvlTree.init ∅ :=
  correct_of_represents represents_init (by simp) (by simpa using hfuel) hshallow

omit [DecidableEq ι] in
theorem hasRoom_of_few (hrep : Represents key t T) (hfew : T.items.length + 1 < Nat.fib 35)
    (x : ι) :
    HasRoom key t x := by
  rw [hasRoom_iff hrep.view]
  refine (steps_le_height _ T).trans ?_
  by_contra! hdeep
  rw [maxTreeDepth] at hdeep
  have hmono : Nat.fib 35 ≤ Nat.fib (T.height + 2) := Nat.fib_mono (by omega)
  exact absurd (hmono.trans (fib_height_le hrep.balanced)) hfew.not_ge

/-- A run of fewer calls than a tree of 33 levels has items does not need more room. -/
theorem shallow_of_few {ops : List (Op ι κ)} (hrep : Represents key t T)
    (hfuel : T.items.length + ops.length < fuel)
    (hfew : T.items.length + ops.length + 1 < Nat.fib 35) : Shallow key fuel ops t := by
  induction ops generalizing t T with
  | nil => trivial
  | cons op ops ih =>
      rw [List.length_cons] at hfuel hfew
      have hlt : T.items.length < fuel := by omega
      have hroom : ∀ x, op = .insert x → HasRoom key t x := fun x _ =>
        hasRoom_of_few hrep (by omega) x
      refine ⟨hroom, ?_⟩
      intro t' r hcall
      obtain ⟨t'', T', r', s', hcall', -, hrep', -, hlen⟩ :=
        call_correct (s := T.items.toFinset) hrep (by simp) hlt hroom
      rw [hcall] at hcall'
      obtain ⟨rfl, rfl⟩ := Prod.mk.inj (Option.some.inj hcall')
      exact ih hrep' (by omega) (by omega)

theorem map_correct_five : Correct (id : ℕ → ℕ) 6
    [.insert 3, .insert 1, .insert 2, .remove 3, .getFirst] AvlTree.init ∅ :=
  map_correct _ (by decide) (shallow_of_few represents_init (by decide) (by decide))

variable (key fuel) in
theorem exists_inserted (xs : List ι) (t : AvlTree ι) :
    ∃ t', ∀ (ops : List (Op ι κ)) (s : Finset ι),
      Correct key fuel (xs.map .insert ++ ops) t s →
        ∃ s', Correct key fuel ops t' s' ∧ s ⊆ s' ∧ ∀ x ∈ xs, ∃ y ∈ s', key y = key x := by
  induction xs generalizing t with
  | nil => exact ⟨t, fun ops s h => ⟨s, h, subset_rfl, nofun⟩⟩
  | cons x xs ih =>
      rcases hcall : call key fuel t (.insert x) with - | ⟨t₁, r⟩
      · refine ⟨t, ?_⟩
        rintro ops s ⟨-, t', r, s', hcall', -⟩
        rw [hcall] at hcall'
        cases hcall'
      · obtain ⟨t', ht'⟩ := ih t₁
        refine ⟨t', ?_⟩
        rintro ops s ⟨-, t₂, r', s₁, hcall', hpredicts, hcorrect⟩
        rw [hcall] at hcall'
        obtain ⟨rfl, rfl⟩ := Prod.mk.inj (Option.some.inj hcall')
        obtain ⟨s', hcorrect', hsub, hmem⟩ := ht' ops s₁ hcorrect
        have hx : s ⊆ s₁ ∧ ∃ y ∈ s₁, key y = key x := by
          rw [Predicts] at hpredicts
          split_ifs at hpredicts with hdup
          · obtain ⟨-, rfl⟩ := hpredicts
            exact ⟨subset_rfl, hdup⟩
          · obtain ⟨-, rfl⟩ := hpredicts
            exact ⟨Finset.subset_insert _ _, x, Finset.mem_insert_self _ _, rfl⟩
        obtain ⟨hsub₁, y, hy, hkey⟩ := hx
        refine ⟨s', hcorrect', hsub₁.trans hsub, ?_⟩
        rintro z (_ | ⟨_, hz⟩)
        · exact ⟨y, hsub hy, hkey⟩
        · exact hmem z hz

theorem Correct.holds {ops : List (Op ι κ)} (h : Correct key fuel ops t s) :
    Holds key fuel t s := by
  cases ops with
  | nil => exact h
  | cons op ops => exact h.1

/-- In a tree of more than 32 levels, the insertion of a key at its bottom writes outside the
array of comparisons. -/
theorem not_correct_deep : ¬∀ (ops : List (Op ℕ ℕ)) (fuel : ℕ), ops.length < fuel →
    Correct id fuel ops AvlTree.init ∅ := by
  intro hall
  obtain ⟨n, hn⟩ : ∃ n, n = 2 ^ 32 := ⟨_, rfl⟩
  obtain ⟨t', ht'⟩ := exists_inserted id (n + 2) (List.range n) AvlTree.init
  have hcorrect := hall ((List.range n).map .insert ++ []) (n + 2)
    (by rw [List.append_nil, List.length_map, List.length_range]; omega)
  obtain ⟨s, hs, -, hmem⟩ := ht' [] ∅ hcorrect
  obtain ⟨T, hview, -, hsorted, hitems, -⟩ := hs.holds
  have hsub : List.range n ⊆ T.items := by
    intro x hx
    obtain ⟨y, hy, rfl⟩ := hmem x hx
    exact (hitems y).mp hy
  have hlen : n ≤ T.items.length := by
    have hle := (List.nodup_range.subperm hsub).length_le
    rwa [List.length_range] at hle
  have hheight : 32 < T.height :=
    (Nat.pow_lt_pow_iff_right (by decide)).mp ((hn ▸ hlen).trans_lt T.length_items_lt)
  have hne : T ≠ nil := by
    rintro rfl
    simp at hheight
  obtain ⟨x, -, hdeep⟩ := exists_deep hsorted hne
  have hcorrect' := hall ((List.range n).map .insert ++ [.insert x]) (n + 2)
    (by rw [List.length_append, List.length_map, List.length_range, List.length_singleton]; omega)
  obtain ⟨s', ⟨-, t'', r, s'', hcall, -⟩, -⟩ := ht' [.insert x] ∅ hcorrect'
  have hroom : ¬HasRoom id t' x := by
    rw [hasRoom_iff hview, maxTreeDepth]
    omega
  rw [call, insert_of_not_hasRoom hview hroom] at hcall
  cases hcall

end ColonyPico.Container.MapRuns
