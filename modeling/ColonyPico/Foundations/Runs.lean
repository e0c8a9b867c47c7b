import Mathlib.Data.List.Basic
import Mathlib.Data.Option.Basic

/-!
Runs of a partial step function, and conditions on each of their steps.
-/

namespace ColonyPico.Foundations.Runs

variable {σ α : Type*}

/-- The state after a list of actions; none if one of them is not enabled. -/
def run (step : σ → α → Option σ) : σ → List α → Option σ
  | s, [] => some s
  | s, action :: rest => (step s action).bind fun next => run step next rest

/-- Every step of the run starts from a state and an action that `P` allows. -/
def AllSteps (step : σ → α → Option σ) (P : σ → α → Prop) : σ → List α → Prop
  | _, [] => True
  | s, action :: rest => P s action ∧ ∀ next, step s action = some next → AllSteps step P next rest

variable {step : σ → α → Option σ} {P : σ → α → Prop} {I : σ → Prop} {s s' : σ}
  {actions : List α}

theorem run_cons {action : α} (hrun : run step s (action :: actions) = some s') :
    ∃ next, step s action = some next ∧ run step next actions = some s' :=
  Option.bind_eq_some_iff.mp hrun

theorem run_append (before after : List α) :
    run step s (before ++ after) = (run step s before).bind fun mid => run step mid after := by
  induction before generalizing s with
  | nil => rfl
  | cons action rest ih =>
      show (step s action).bind (fun next => run step next (rest ++ after)) = _
      rw [run, Option.bind_assoc]
      exact Option.bind_congr fun next _ => ih

theorem run_snoc (before : List α) (action : α) :
    run step s (before ++ [action]) = (run step s before).bind fun mid => step mid action := by
  rw [run_append]
  refine Option.bind_congr fun mid _ => ?_
  show (step mid action).bind some = step mid action
  exact Option.bind_fun_some _

/-- What the allowed steps preserve holds behind every run of allowed steps. -/
theorem invariant
    (hstep : ∀ s action next, I s → P s action → step s action = some next → I next)
    (hI : I s) (hall : AllSteps step P s actions) (hrun : run step s actions = some s') :
    I s' := by
  induction actions generalizing s with
  | nil =>
      obtain rfl := Option.some.inj hrun
      exact hI
  | cons action rest ih =>
      obtain ⟨next, hnext, hrest⟩ := run_cons hrun
      exact ih (hstep s action next hI hall.1 hnext) (hall.2 next hnext) hrest

/-- What holds of the allowed steps from states of the invariant holds of every step of a run. -/
theorem allSteps_of_invariant {Q : σ → α → Prop}
    (hstep : ∀ s action next, I s → P s action → step s action = some next → I next)
    (hQ : ∀ s action, I s → P s action → Q s action) (hI : I s)
    (hall : AllSteps step P s actions) : AllSteps step Q s actions := by
  induction actions generalizing s with
  | nil => trivial
  | cons action rest ih =>
      refine ⟨hQ s action hI hall.1, fun next hnext => ?_⟩
      exact ih (hstep s action next hI hall.1 hnext) (hall.2 next hnext)

theorem AllSteps.left {before after : List α} (hall : AllSteps step P s (before ++ after)) :
    AllSteps step P s before := by
  induction before generalizing s with
  | nil => trivial
  | cons first rest ih => exact ⟨hall.1, fun next hnext => ih (hall.2 next hnext)⟩

theorem AllSteps.right {before after : List α} {mid : σ}
    (hall : AllSteps step P s (before ++ after)) (hrun : run step s before = some mid) :
    AllSteps step P mid after := by
  induction before generalizing s with
  | nil =>
      obtain rfl := Option.some.inj hrun
      exact hall
  | cons first rest ih =>
      obtain ⟨next, hnext, hrest⟩ := run_cons hrun
      exact ih (hall.2 next hnext) hrest

theorem AllSteps.at {before after : List α} {action : α} {mid : σ}
    (hall : AllSteps step P s (before ++ action :: after)) (hrun : run step s before = some mid) :
    P mid action :=
  (hall.right hrun).1

theorem allSteps_of_forall (hP : ∀ s action, P s action) (s : σ) (actions : List α) :
    AllSteps step P s actions := by
  induction actions generalizing s with
  | nil => trivial
  | cons action rest ih => exact ⟨hP s action, fun next _ => ih next⟩

theorem allSteps_of_forall_mem (hP : ∀ action ∈ actions, ∀ s, P s action) (s : σ) :
    AllSteps step P s actions := by
  induction actions generalizing s with
  | nil => trivial
  | cons action rest ih =>
      rw [List.forall_mem_cons] at hP
      exact ⟨hP.1 s, fun next _ => ih hP.2 next⟩

theorem AllSteps.and {Q : σ → α → Prop} (hP : AllSteps step P s actions)
    (hQ : AllSteps step Q s actions) :
    AllSteps step (fun s action => P s action ∧ Q s action) s actions := by
  induction actions generalizing s with
  | nil => trivial
  | cons action rest ih =>
      exact ⟨⟨hP.1, hQ.1⟩, fun next hnext => ih (hP.2 next hnext) (hQ.2 next hnext)⟩

/-- Conditions that agree in the states of an invariant agree on every run that starts in one, where
the steps that they allow preserve it. -/
theorem allSteps_iff_of_allowed {Q : σ → α → Prop}
    (hstep : ∀ s action next, I s → Q s action → step s action = some next → I next)
    (hPQ : ∀ s action, I s → (P s action ↔ Q s action)) (hI : I s) :
    AllSteps step P s actions ↔ AllSteps step Q s actions := by
  induction actions generalizing s with
  | nil => exact Iff.rfl
  | cons action rest ih =>
      constructor
      · rintro ⟨hP, hall⟩
        have hQ := (hPQ s action hI).mp hP
        exact ⟨hQ, fun next hnext => (ih (hstep s action next hI hQ hnext)).mp (hall next hnext)⟩
      · rintro ⟨hQ, hall⟩
        refine ⟨(hPQ s action hI).mpr hQ, fun next hnext => ?_⟩
        exact (ih (hstep s action next hI hQ hnext)).mpr (hall next hnext)

theorem allSteps_iff_of_invariant {Q : σ → α → Prop}
    (hstep : ∀ s action next, I s → step s action = some next → I next)
    (hPQ : ∀ s action, I s → (P s action ↔ Q s action)) (hI : I s) :
    AllSteps step P s actions ↔ AllSteps step Q s actions :=
  allSteps_iff_of_allowed (fun s action next hs _ => hstep s action next hs) hPQ hI

theorem allSteps_congr {Q : σ → α → Prop} (hPQ : ∀ s action, P s action ↔ Q s action) :
    AllSteps step P s actions ↔ AllSteps step Q s actions :=
  allSteps_iff_of_invariant (I := fun _ => True) (fun _ _ _ _ _ => trivial)
    (fun s action _ => hPQ s action) trivial

/-- What every step preserves holds behind every run. -/
theorem invariant_always (hstep : ∀ s action next, I s → step s action = some next → I next)
    (hI : I s) (hrun : run step s actions = some s') : I s' :=
  invariant (P := fun _ _ => True) (fun s action next hs _ => hstep s action next hs) hI
    (allSteps_of_forall (fun _ _ => trivial) s actions) hrun

/-- What has every step enabled and is preserved by all of them has every run enabled. -/
theorem total (hstep : ∀ s action, I s → ∃ next, step s action = some next ∧ I next) (hI : I s)
    (actions : List α) : ∃ s', run step s actions = some s' ∧ I s' := by
  induction actions generalizing s with
  | nil => exact ⟨s, rfl, hI⟩
  | cons action rest ih =>
      obtain ⟨next, hnext, hI'⟩ := hstep s action hI
      obtain ⟨s', hrun, hlast⟩ := ih hI'
      exact ⟨s', Option.bind_eq_some_iff.mpr ⟨next, hnext, hrun⟩, hlast⟩

/-- Two systems with the same allowed steps have the same runs of them. -/
theorem run_congr {step' : σ → α → Option σ} (hstep : ∀ s action, P s action →
    step' s action = step s action) (hall : AllSteps step P s actions) :
    run step' s actions = run step s actions := by
  induction actions generalizing s with
  | nil => rfl
  | cons action rest ih =>
      rw [run, run, hstep s action hall.1]
      exact Option.bind_congr fun next hnext => ih (hall.2 next hnext)

/-- A run of allowed steps is one of allowed steps behind each of its steps. -/
theorem allSteps_cons {action : α} {next : σ} (hnext : step s action = some next) :
    AllSteps step P s (action :: actions) ↔ P s action ∧ AllSteps step P next actions := by
  constructor
  · rintro ⟨hP, hall⟩
    exact ⟨hP, hall next hnext⟩
  · rintro ⟨hP, hall⟩
    refine ⟨hP, fun next' hnext' => ?_⟩
    rwa [← Option.some.inj (hnext.symm.trans hnext')]

instance decidableAllSteps [∀ s action, Decidable (P s action)] :
    ∀ s actions, Decidable (AllSteps step P s actions)
  | _, [] => .isTrue trivial
  | s, action :: rest =>
      match hnext : step s action with
      | none => decidable_of_iff (P s action) <| by
          simp only [AllSteps, hnext, reduceCtorEq, false_imp_iff, implies_true, and_true]
      | some next =>
          haveI := decidableAllSteps next rest
          decidable_of_iff (P s action ∧ AllSteps step P next rest) (allSteps_cons hnext).symm

/-- A mark that stays, and that a step sets just when it is not allowed, tells whether all steps
were allowed. -/
theorem mark_iff
    (hstep : ∀ s action next, step s action = some next → (I next ↔ I s ∨ ¬P s action))
    (hrun : run step s actions = some s') : I s' ↔ I s ∨ ¬AllSteps step P s actions := by
  induction actions generalizing s with
  | nil =>
      obtain rfl := Option.some.inj hrun
      constructor
      · exact .inl
      · rintro (hI | hnot)
        · exact hI
        · exact absurd trivial hnot
  | cons action rest ih =>
      obtain ⟨next, hnext, hrest⟩ := run_cons hrun
      rw [ih hrest, hstep s action next hnext, allSteps_cons hnext, not_and_or, or_assoc]

end ColonyPico.Foundations.Runs
