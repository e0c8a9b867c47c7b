import Mathlib.Order.Lattice
import Mathlib.Logic.Function.Basic
import ColonyPico.Foundations.OrbitSearch

/-!
Keys stored around a ring of `n` slots that grow from the slot after a pivot on,
with gaps.
-/

namespace ColonyPico.Foundations.RingOrder

open ColonyPico.Foundations.OrbitSearch

def next (n i : Nat) : Nat :=
  if i + 1 < n then i + 1 else 0

def prev (n i : Nat) : Nat :=
  if i = 0 then n - 1 else i - 1

/-- How far a slot lies behind the slot after the pivot; the pivot comes last. -/
def rank (n pivot i : Nat) : Nat :=
  if pivot < i then i - pivot - 1 else i + n - pivot - 1

theorem next_lt {n i : Nat} (h : i < n) : next n i < n := by
  rw [next]
  split_ifs <;> omega

theorem prev_lt {n i : Nat} (h : i < n) : prev n i < n := by
  rw [prev]
  split_ifs <;> omega

theorem prev_next {n i : Nat} (h : i < n) : prev n (next n i) = i := by
  rw [next]
  split_ifs with hlt
  · rw [prev, if_neg (Nat.succ_ne_zero i), Nat.add_sub_cancel]
  · rw [prev, if_pos rfl]
    omega

theorem next_prev {n i : Nat} (h : i < n) : next n (prev n i) = i := by
  rw [prev]
  split_ifs with hzero
  · rw [next, if_neg (by omega), hzero]
  · rw [next, if_pos (by omega)]
    omega

theorem next_iterate {n i : Nat} (hi : i < n) (k : Nat) (hk : k ≤ n) :
    (next n)^[k] i = if i + k < n then i + k else i + k - n := by
  induction k with
  | zero => simp [hi]
  | succ k ih =>
      rw [Function.iterate_succ_apply', ih (by omega), next]
      split_ifs <;> omega

theorem prev_iterate {n i : Nat} (hi : i < n) (k : Nat) (hk : k ≤ n) :
    (prev n)^[k] i = if k ≤ i then i - k else i + n - k := by
  induction k with
  | zero => simp
  | succ k ih =>
      rw [Function.iterate_succ_apply', ih (by omega), prev]
      split_ifs <;> omega

theorem rank_inj {n pivot i j : Nat} (hi : i < n) (hj : j < n)
    (h : rank n pivot i = rank n pivot j) (hp : pivot < n) : i = j := by
  simp only [rank] at h
  split_ifs at h <;> omega

theorem rank_next {n i : Nat} (h : i < n) : rank n i (next n i) = 0 := by
  rw [next]
  split_ifs <;> rw [rank] <;> split_ifs <;> omega

theorem rank_pos_of_ne {n pivot i : Nat} (hp : pivot < n) (hi : i < n)
    (hne : i ≠ next n pivot) : 0 < rank n pivot i := by
  rw [next] at hne
  rw [rank]
  split_ifs at hne ⊢ <;> omega

theorem rank_of_lt {n pivot i : Nat} (h : pivot < i) : rank n pivot i = i - pivot - 1 :=
  if_pos h

theorem rank_of_le {n pivot i : Nat} (h : i ≤ pivot) : rank n pivot i = i + n - pivot - 1 :=
  if_neg (Nat.not_lt.mpr h)

theorem rank_lt {n pivot i : Nat} (hp : pivot < n) (hi : i < n) : rank n pivot i < n := by
  rw [rank]
  split_ifs <;> omega

theorem rank_self (n pivot : Nat) : rank n pivot pivot = n - 1 := by
  rw [rank_of_le le_rfl]
  omega

theorem rank_rank {n pivot i j : Nat} (hp : pivot < n) (hi : i < n) (hj : j < n) :
    rank n (rank n pivot i) (rank n pivot j) = rank n i j := by
  rcases Nat.lt_or_ge pivot i with hpi | hpi <;> rcases Nat.lt_or_ge pivot j with hpj | hpj
  · rw [rank_of_lt hpi, rank_of_lt hpj, rank, rank]
    split_ifs <;> omega
  · rw [rank_of_lt hpi, rank_of_le hpj, rank_of_lt (by omega), rank_of_le (by omega)]
    omega
  · rw [rank_of_le hpi, rank_of_lt hpj, rank_of_le (by omega), rank_of_lt (by omega)]
    omega
  · rw [rank_of_le hpi, rank_of_le hpj, rank, rank]
    split_ifs <;> omega

theorem rank_add {n pivot i j : Nat} (hp : pivot < n) (hi : i < n) (hj : j < n)
    (h : rank n pivot i < rank n pivot j) :
    rank n pivot j = rank n pivot i + rank n i j + 1 := by
  rw [← rank_rank hp hi hj, rank_of_lt h]
  omega

theorem next_iterate_rank {n i j : Nat} (hi : i < n) (hj : j < n) :
    (next n)^[rank n i j] (next n i) = j := by
  rw [← Function.iterate_succ_apply, next_iterate hi _ (rank_lt hi hj)]
  rcases Nat.lt_or_ge i j with hij | hij
  · rw [rank_of_lt hij, if_pos (by omega)]
    omega
  · rw [rank_of_le hij, if_neg (by omega)]
    omega

theorem rank_next_iterate {n i k : Nat} (hi : i < n) (hk : k < n) :
    rank n i ((next n)^[k] (next n i)) = k := by
  rw [← Function.iterate_succ_apply, next_iterate hi _ hk]
  split_ifs with hlt
  · rw [rank_of_lt (by omega)]
    omega
  · rw [rank_of_le (by omega)]
    omega

theorem prev_iterate_rank {n i j : Nat} (hi : i < n) (hj : j < n) :
    (prev n)^[rank n i j] (prev n j) = i := by
  rw [← Function.iterate_succ_apply, prev_iterate hj _ (rank_lt hi hj)]
  rcases Nat.lt_or_ge i j with hij | hij
  · rw [rank_of_lt hij, if_pos (by omega)]
    omega
  · rw [rank_of_le hij, if_neg (by omega)]
    omega

theorem rank_prev_iterate {n j k : Nat} (hj : j < n) (hk : k < n) :
    rank n ((prev n)^[k] (prev n j)) j = k := by
  rw [← Function.iterate_succ_apply, prev_iterate hj _ hk]
  split_ifs with hle
  · rw [rank_of_lt (by omega)]
    omega
  · rw [rank_of_le (by omega)]
    omega

theorem next_iterate_lt {n i : Nat} (h : i < n) (k : Nat) : (next n)^[k] i < n := by
  induction k with
  | zero => exact h
  | succ k ih =>
      rw [Function.iterate_succ_apply']
      exact next_lt ih

theorem prev_iterate_lt {n i : Nat} (h : i < n) (k : Nat) : (prev n)^[k] i < n := by
  induction k with
  | zero => exact h
  | succ k ih =>
      rw [Function.iterate_succ_apply']
      exact prev_lt ih

section Sorted

variable {κ : Type*} [LinearOrder κ] {n pivot : Nat} {keys : Nat → Option κ}

/-- Keys grow from the slot after the pivot on. -/
def Sorted (n pivot : Nat) (keys : Nat → Option κ) : Prop :=
  ∀ ⦃i j a b⦄, i < n → j < n → keys i = some a → keys j = some b →
    rank n pivot i < rank n pivot j → a < b

theorem Sorted.mono {keys' : Nat → Option κ} (h : Sorted n pivot keys)
    (hsub : ∀ i a, keys' i = some a → keys i = some a) : Sorted n pivot keys' :=
  fun _ _ _ _ hi hj ha hb hrank => h hi hj (hsub _ _ ha) (hsub _ _ hb) hrank

/-- The slot of the largest key can be taken as the pivot. -/
theorem Sorted.of_max (h : Sorted n pivot keys) (hp : pivot < n) {q : Nat} (hq : q < n)
    {top : κ} (htop : keys q = some top) (hmax : ∀ i a, i < n → keys i = some a → a ≤ top) :
    Sorted n q keys := by
  have hbehind : ∀ i a, i < n → keys i = some a → rank n pivot i ≤ rank n pivot q := by
    intro i a hi ha
    by_contra hlt
    exact absurd (hmax i a hi ha) (not_le_of_gt (h hq hi htop ha (by omega)))
  intro i j a b hi hj ha hb hrank
  apply h hi hj ha hb
  have hbi := hbehind i a hi ha
  have hbj := hbehind j b hj hb
  rw [← rank_rank hp hq hi, ← rank_rank hp hq hj, rank_of_le hbi, rank_of_le hbj] at hrank
  omega

/-- A larger key in the slot after the pivot makes that slot the pivot. -/
theorem Sorted.push (h : Sorted n pivot keys) (hp : pivot < n) {top : κ}
    (hmax : ∀ i a, i < n → keys i = some a → a < top) :
    Sorted n (next n pivot) (Function.update keys (next n pivot) (some top)) := by
  have hnext := next_lt hp
  have hfirst : ∀ i < n, i ≠ next n pivot →
      rank n pivot i = rank n (next n pivot) i + 1 := by
    intro i hi hne
    have hpos := rank_pos_of_ne hp hi hne
    rw [← rank_next hp] at hpos
    rw [rank_add hp hnext hi hpos, rank_next hp, Nat.zero_add]
  intro i j a b hi hj ha hb hrank
  have hij : i ≠ next n pivot := by
    rintro rfl
    rw [rank_self] at hrank
    have hlast := rank_lt hnext hj
    omega
  rw [Function.update_of_ne hij] at ha
  by_cases hj' : j = next n pivot
  · rw [hj', Function.update_self] at hb
    exact Option.some.inj hb ▸ hmax i a hi ha
  · rw [Function.update_of_ne hj'] at hb
    apply h hi hj ha hb
    rw [hfirst i hi hij, hfirst j hj hj']
    omega

theorem Sorted.le_of_next (h : Sorted n pivot keys) (hp : pivot < n) {a : κ}
    (ha : keys (next n pivot) = some a) (i : Nat) (b : κ) (hi : i < n)
    (hb : keys i = some b) : a ≤ b := by
  by_cases hne : i = next n pivot
  · rw [hne, ha] at hb
    exact le_of_eq (Option.some.inj hb)
  · refine le_of_lt (h (next_lt hp) hi ha hb ?_)
    rw [rank_next hp]
    exact rank_pos_of_ne hp hi hne

theorem Sorted.inj (h : Sorted n pivot keys) (hp : pivot < n) {i j : Nat} (hi : i < n)
    (hj : j < n) {a : κ} (ha : keys i = some a) (hb : keys j = some a) : i = j := by
  rcases Nat.lt_trichotomy (rank n pivot i) (rank n pivot j) with hlt | heq | hgt
  · exact absurd (h hi hj ha hb hlt) (lt_irrefl a)
  · exact rank_inj hi hj heq hp
  · exact absurd (h hj hi hb ha hgt) (lt_irrefl a)

theorem Sorted.rank_lt (h : Sorted n pivot keys) (hp : pivot < n) {i j : Nat} (hi : i < n)
    (hj : j < n) {a b : κ} (ha : keys i = some a) (hb : keys j = some b) (hab : a < b) :
    rank n pivot i < rank n pivot j := by
  rcases Nat.lt_trichotomy (rank n pivot i) (rank n pivot j) with hlt | heq | hgt
  · exact hlt
  · rw [rank_inj hi hj heq hp, hb] at ha
    exact absurd hab (Option.some.inj ha ▸ lt_irrefl b)
  · exact absurd (h hj hi hb ha hgt) (lt_asymm hab)

end Sorted

section Traversal

variable {α κ : Type*} [LinearOrder κ] {n pivot : Nat} {value : Nat → Option α} {key : α → κ}

/-- Going up from a slot, the larger keys come in order, and no seam hides one. -/
theorem ahead_next (h : Sorted n pivot fun i => (value i).map key) (hp : pivot < n) {i : Nat}
    (hi : i < n) {u : α} (hu : value i = some u) :
    Ahead (next n) value key (· < n) (next n i) (key u) (n - 1) := by
  have hrank : ∀ {j k v w}, j < n → k < n → value j = some v → value k = some w →
      key v < key w → rank n pivot j < rank n pivot k := fun hj hk hv hw hlt =>
    h.rank_lt hp hj hk (congrArg (Option.map key) hv) (congrArg (Option.map key) hw) hlt
  have hinside : ∀ k, (next n)^[k] (next n i) < n := next_iterate_lt (next_lt hi)
  refine ⟨fun t v ht hv hlt => ?_, fun j k v w hjk hk hv hw hlv hlw => ?_,
    fun k _ => hinside k⟩
  · refine ⟨rank n i t, ?_, next_iterate_rank hi ht⟩
    have hbehind := rank_add hp hi ht (hrank hi ht hu hv hlt)
    have hlast := rank_lt hp ht
    omega
  · refine h (hinside j) (hinside k) (congrArg (Option.map key) hv)
      (congrArg (Option.map key) hw) ?_
    have hj := rank_add hp hi (hinside j) (hrank hi (hinside j) hu hv hlv)
    have hk' := rank_add hp hi (hinside k) (hrank hi (hinside k) hu hw hlw)
    rw [rank_next_iterate hi (by omega)] at hj hk'
    omega

/-- Going down from a slot, the smaller keys come in order. -/
theorem ahead_prev (h : Sorted n pivot fun i => (value i).map key) (hp : pivot < n) {i : Nat}
    (hi : i < n) {u : α} (hu : value i = some u) :
    Ahead (prev n) value (fun v => OrderDual.toDual (key v)) (· < n) (prev n i)
      (OrderDual.toDual (key u)) (n - 1) := by
  have hrank : ∀ {j k v w}, j < n → k < n → value j = some v → value k = some w →
      key v < key w → rank n pivot j < rank n pivot k := fun hj hk hv hw hlt =>
    h.rank_lt hp hj hk (congrArg (Option.map key) hv) (congrArg (Option.map key) hw) hlt
  have hinside : ∀ k, (prev n)^[k] (prev n i) < n := prev_iterate_lt (prev_lt hi)
  refine ⟨fun t v ht hv hlt => ?_, fun j k v w hjk hk hv hw hlv hlw => ?_,
    fun k _ => hinside k⟩
  · refine ⟨rank n t i, ?_, prev_iterate_rank ht hi⟩
    have hbefore := rank_add hp ht hi (hrank ht hi hv hu (OrderDual.toDual_lt_toDual.mp hlt))
    have hlast := rank_lt hp hi
    omega
  · refine OrderDual.toDual_lt_toDual.mpr (h (hinside k) (hinside j)
      (congrArg (Option.map key) hw) (congrArg (Option.map key) hv) ?_)
    have hj := rank_add hp (hinside j) hi
      (hrank (hinside j) hi hv hu (OrderDual.toDual_lt_toDual.mp hlv))
    have hk' := rank_add hp (hinside k) hi
      (hrank (hinside k) hi hw hu (OrderDual.toDual_lt_toDual.mp hlw))
    rw [rank_prev_iterate hi (by omega)] at hj hk'
    omega

end Traversal

end ColonyPico.Foundations.RingOrder
