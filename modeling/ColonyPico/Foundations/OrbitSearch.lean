import Mathlib.Logic.Function.Iterate
import Mathlib.Order.Lattice

/-!
Searching along an orbit for the first place that is accepted, and what is found
when keys move away from the start in order.
-/

namespace ColonyPico.Foundations.OrbitSearch

variable {σ α κ : Type*}

/-- The first of `fuel` places along `f` that is accepted. -/
def firstAlong (f : σ → σ) (accept : σ → Option α) : Nat → σ → Option α
  | 0, _ => none
  | fuel + 1, s => (accept s).or (firstAlong f accept fuel (f s))

theorem firstAlong_eq_none {f : σ → σ} {accept : σ → Option α} {fuel : Nat} {s : σ} :
    firstAlong f accept fuel s = none ↔ ∀ j < fuel, accept (f^[j] s) = none := by
  induction fuel generalizing s with
  | zero => simp [firstAlong]
  | succ fuel ih =>
      rw [firstAlong, Option.or_eq_none_iff, ih]
      constructor
      · rintro ⟨hhere, hlater⟩ j hj
        cases j with
        | zero => exact hhere
        | succ j => exact hlater j (by omega)
      · intro h
        exact ⟨h 0 (by omega), fun j hj => h (j + 1) (by omega)⟩

theorem firstAlong_eq_some {f : σ → σ} {accept : σ → Option α} {fuel : Nat} {s : σ} {x : α}
    (h : firstAlong f accept fuel s = some x) :
    ∃ j < fuel, accept (f^[j] s) = some x ∧ ∀ i < j, accept (f^[i] s) = none := by
  induction fuel generalizing s with
  | zero => simp [firstAlong] at h
  | succ fuel ih =>
      rw [firstAlong] at h
      cases hhere : accept s with
      | some y =>
          rw [hhere, Option.some_or] at h
          exact ⟨0, by omega, hhere.trans h, fun i hi => absurd hi (Nat.not_lt_zero i)⟩
      | none =>
          rw [hhere, Option.none_or] at h
          obtain ⟨j, hj, hfound, hbefore⟩ := ih h
          refine ⟨j + 1, by omega, hfound, ?_⟩
          intro i hi
          cases i with
          | zero => exact hhere
          | succ i => exact hbefore i (by omega)

theorem firstAlong_congr {τ β : Type*} {f : σ → σ} {f' : τ → τ} {accept : σ → Option α}
    {accept' : τ → Option β} {image : β → α} (place : τ → σ) (P : τ → Prop)
    (hP : ∀ t, P t → P (f' t)) (hf : ∀ t, P t → f (place t) = place (f' t))
    (haccept : ∀ t, P t → accept (place t) = (accept' t).map image) (fuel : Nat) {t : τ}
    (ht : P t) :
    firstAlong f accept fuel (place t) = (firstAlong f' accept' fuel t).map image := by
  induction fuel generalizing t with
  | zero => rfl
  | succ fuel ih =>
      rw [firstAlong, firstAlong, haccept t ht, hf t ht, ih (hP t ht), Option.map_or]

section Nearest

variable [LinearOrder κ] {f : σ → σ} {value : σ → Option α} {key : α → κ} {P : σ → Prop}
  {s : σ} {a : κ} {fuel : Nat}

/-- The place and the value there, if its key is beyond `a`. -/
def beyond (value : σ → Option α) (key : α → κ) (a : κ) (t : σ) : Option (σ × α) :=
  (value t).bind fun v => if a < key v then some (t, v) else none

theorem beyond_eq_some {t : σ} {x : σ × α} :
    beyond value key a t = some x ↔ x.1 = t ∧ value t = some x.2 ∧ a < key x.2 := by
  rw [beyond, Option.bind_eq_some_iff]
  constructor
  · rintro ⟨v, hv, hx⟩
    split_ifs at hx with hlt
    injection hx with hx
    subst hx
    exact ⟨rfl, hv, hlt⟩
  · rintro ⟨rfl, hv, hlt⟩
    exact ⟨x.2, hv, by rw [if_pos hlt]⟩

/-- The keys beyond `a` lie along the orbit, in order. -/
structure Ahead (f : σ → σ) (value : σ → Option α) (key : α → κ) (P : σ → Prop) (s : σ) (a : κ)
    (fuel : Nat) : Prop where
  reached : ∀ t v, P t → value t = some v → a < key v → ∃ k < fuel, f^[k] s = t
  ordered : ∀ j k v w, j < k → k < fuel → value (f^[j] s) = some v → value (f^[k] s) = some w →
    a < key v → a < key w → key v < key w
  inside : ∀ k < fuel, P (f^[k] s)

theorem Ahead.eq_none (h : Ahead f value key P s a fuel)
    (hnone : firstAlong f (beyond value key a) fuel s = none) (t : σ) (v : α) (ht : P t)
    (hv : value t = some v) : key v ≤ a := by
  rw [firstAlong_eq_none] at hnone
  by_contra hlt
  rw [not_le] at hlt
  obtain ⟨k, hk, rfl⟩ := h.reached t v ht hv hlt
  have hfound : beyond value key a (f^[k] s) = some (f^[k] s, v) :=
    beyond_eq_some.mpr ⟨rfl, hv, hlt⟩
  rw [hnone k hk] at hfound
  exact Option.some_ne_none _ hfound.symm

theorem Ahead.eq_some (h : Ahead f value key P s a fuel) {x : σ × α}
    (hx : firstAlong f (beyond value key a) fuel s = some x) :
    P x.1 ∧ value x.1 = some x.2 ∧ a < key x.2 ∧
      ∀ t v, P t → value t = some v → a < key v → key x.2 ≤ key v := by
  obtain ⟨j, hj, hfound, hbefore⟩ := firstAlong_eq_some hx
  obtain ⟨hplace, hvalue, hlt⟩ := beyond_eq_some.mp hfound
  refine ⟨hplace ▸ h.inside j hj, hplace ▸ hvalue, hlt, ?_⟩
  intro t v ht hv hav
  obtain ⟨k, hk, rfl⟩ := h.reached t v ht hv hav
  rcases Nat.lt_trichotomy k j with hkj | hkj | hkj
  · have hskipped := hbefore k hkj
    rw [beyond_eq_some.mpr (⟨rfl, hv, hav⟩ : (f^[k] s, v).1 = _ ∧ _)] at hskipped
    exact absurd hskipped (Option.some_ne_none _)
  · subst hkj
    rw [hvalue] at hv
    rw [Option.some.inj hv]
  · exact le_of_lt (h.ordered j k x.2 v hkj hk hvalue hv hlt hav)

end Nearest

end ColonyPico.Foundations.OrbitSearch
