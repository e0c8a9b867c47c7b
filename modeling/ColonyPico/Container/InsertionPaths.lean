import ColonyPico.Container.MapRuns
import ColonyPico.Foundations.Runs

/-!
How far an insertion walks down a map that calls have built.
-/

namespace ColonyPico.Container.InsertionPaths

open ColonyPico.Container.AvlTrees
open ColonyPico.Container.AvlUpdates
open ColonyPico.Container.MapRuns
open ColonyPico.Foundations.Runs
open ColonyPico.Foundations.BalancedTrees

variable {ι κ : Type} [DecidableEq ι] [LinearOrder κ] {key : ι → κ} {fuel : Nat}

/-- The map behind a call. -/
def step (key : ι → κ) (fuel : Nat) (t : AvlTree ι) (op : Op ι κ) : Option (AvlTree ι) :=
  (call key fuel t op).map Prod.fst

/-- An insertion compares its key with no more nodes than its array has room for. -/
def StaysWithin (key : ι → κ) (t : AvlTree ι) (x : ι) : Prop :=
  comparisonsFor key t.nodes (key x) (maxTreeDepth + 1) (t.nodes.get .root).prevPtr ≤
      maxTreeDepth ∧
    ∃ result, AvlTrees.insert key t x = some result

/-- A call that keeps the comparisons in their array leaves a balanced tree with at most one node
more. -/
theorem represents_step {t t' : AvlTree ι} {T : Shape ι} {op : Op ι κ} (hrep : Represents key t T)
    (hfuel : T.items.length < fuel) (hstep : step key fuel t op = some t') :
    ∃ T', Represents key t' T' ∧ T'.items.length ≤ T.items.length + 1 := by
  have hroom : ∀ x, op = .insert x → HasRoom key t x := by
    rintro x rfl
    by_contra hno
    rw [step, call, insert_of_not_hasRoom hrep.view hno] at hstep
    cases hstep
  obtain ⟨t'', T', r, -, hcall, -, hrep', -, hlength⟩ :=
    call_correct (s := T.items.toFinset) hrep (fun x => List.mem_toFinset) hfuel hroom
  rw [step, hcall] at hstep
  cases hstep
  exact ⟨T', hrep', hlength⟩

theorem represents_run {ops : List (Op ι κ)} {t t' : AvlTree ι} {T : Shape ι}
    (hrep : Represents key t T) (hfuel : T.items.length + ops.length < fuel)
    (hrun : run (step key fuel) t ops = some t') : ∃ T', Represents key t' T' := by
  induction ops generalizing t T with
  | nil =>
      cases hrun
      exact ⟨T, hrep⟩
  | cons op ops ih =>
      rw [List.length_cons] at hfuel
      obtain ⟨next, hstep, hrest⟩ := run_cons hrun
      obtain ⟨T', hrep', hlength⟩ := represents_step hrep (by omega) hstep
      exact ih hrep' (by omega) hrest

/-- Below the number of nodes that a balanced tree of 33 levels needs, an insertion behind any calls
records its path within the array. -/
theorem insertion_path_bounded (ops : List (Op ι κ)) (hfuel : ops.length < fuel) (t : AvlTree ι)
    (hrun : run (step key fuel) AvlTree.init ops = some t) :
    ∃ T : Shape ι, Represents key t T ∧
      (T.items.length < 9227464 → ∀ x : ι, StaysWithin key t x) := by
  obtain ⟨T, hrep⟩ := represents_run represents_init (by simpa using hfuel) hrun
  refine ⟨T, hrep, fun hfew x => ?_⟩
  have hfib : Nat.fib 35 = 9227465 := by
    decide
  have hroom : HasRoom key t x := hasRoom_of_few hrep (by omega) x
  refine ⟨hroom, ?_⟩
  rcases insert_spec hrep hroom with ⟨-, hinsert⟩ | ⟨-, t', -, hinsert, -⟩
  · exact ⟨_, hinsert⟩
  · exact ⟨_, hinsert⟩

theorem insertion_path_bounded_two :
    ∃ (t : AvlTree ℕ) (T : Shape ℕ),
      run (step id 4) AvlTree.init [.insert 3, .insert 1, .remove 3] = some t ∧
        Represents id t T ∧ (T.items.length < 9227464 → ∀ x, StaysWithin id t x) := by
  obtain ⟨t, hrun⟩ : ∃ t, run (step (id : ℕ → ℕ) 4) AvlTree.init
      [.insert 3, .insert 1, .remove 3] = some t := Option.isSome_iff_exists.mp (by decide)
  obtain ⟨T, hrep, hbounded⟩ := insertion_path_bounded _ (by decide) t hrun
  exact ⟨t, T, hrun, hrep, hbounded⟩

end ColonyPico.Container.InsertionPaths
