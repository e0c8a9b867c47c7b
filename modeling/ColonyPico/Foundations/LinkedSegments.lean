import Mathlib.Data.List.Basic
import Mathlib.Data.List.Nodup

/-!
Chains of links: following `link` from one place passes through the items of a list
and comes to another place.
-/

namespace ColonyPico.Foundations.LinkedSegments

variable {α : Type*} {link link' : α → Option α} {p q : Option α} {x a : α} {xs ys : List α}

/-- Following `link` from `p` passes through `xs` and comes to `q`. -/
def Segment (link : α → Option α) : Option α → List α → Option α → Prop
  | p, [], q => p = q
  | p, x :: xs, q => p = some x ∧ Segment link (link x) xs q

theorem segment_nil : Segment link p [] q ↔ p = q := Iff.rfl

theorem segment_cons : Segment link p (x :: xs) q ↔ p = some x ∧ Segment link (link x) xs q :=
  Iff.rfl

theorem segment_middle :
    Segment link p (xs ++ a :: ys) q ↔ Segment link p xs (some a) ∧ Segment link (link a) ys q := by
  induction xs generalizing p with
  | nil => exact Iff.rfl
  | cons x xs ih =>
      rw [List.cons_append, segment_cons, ih, segment_cons, and_assoc]

theorem segment_congr (h : ∀ y ∈ xs, link' y = link y) :
    Segment link' p xs q ↔ Segment link p xs q := by
  induction xs generalizing p with
  | nil => exact Iff.rfl
  | cons x xs ih =>
      rw [segment_cons, segment_cons, h x List.mem_cons_self,
        ih fun y hy => h y (List.mem_cons_of_mem x hy)]

theorem Segment.head (h : Segment link p xs none) : p = xs.head? := by
  cases xs with
  | nil => exact h
  | cons x xs => exact h.1

theorem Segment.link_eq (h : Segment link p (xs ++ a :: ys) none) : link a = ys.head? :=
  (segment_middle.mp h).2.head

theorem head?_append_cons (us : List α) {vs ws : List α} :
    (us ++ a :: vs).head? = (us ++ a :: ws).head? := by
  cases us with
  | nil => rfl
  | cons u us => rfl

section Change

variable {us vs : List α} {p' : Option α}

theorem segment_splice (h : Segment link p (us ++ vs) none) (hnodup : (us ++ vs).Nodup)
    (hx : x ∉ us ++ vs) (hsame : ∀ y, y ≠ x → us.getLast? ≠ some y → link' y = link y)
    (hlast : ∀ a, us.getLast? = some a → link' a = some x) (hlink : link' x = vs.head?)
    (hp : p' = (us ++ [x]).head?) : Segment link' p' (us ++ x :: vs) none := by
  rw [List.mem_append, not_or] at hx
  rcases List.eq_nil_or_concat us with rfl | ⟨us, a, rfl⟩
  · rw [List.nil_append] at h
    refine ⟨hp, ?_⟩
    rw [hlink, ← h.head]
    exact (segment_congr fun y hy => hsame y (ne_of_mem_of_not_mem hy hx.2) (by simp)).mpr h
  · rw [List.concat_eq_append] at *
    rw [List.append_assoc, List.singleton_append] at *
    obtain ⟨hbefore, hafter⟩ := segment_middle.mp h
    rw [List.nodup_middle, List.nodup_cons, List.mem_append, not_or] at hnodup
    have hp' : p' = p := hp.trans ((head?_append_cons us).trans h.head.symm)
    have hkeep : ∀ y, y ≠ x → y ≠ a → link' y = link y := fun y hy hya =>
      hsame y hy (by simpa using Ne.symm hya)
    have hxus : x ∉ us := fun hmem => hx.1 (List.mem_append_left _ hmem)
    rw [hp', segment_middle, segment_cons, hlast a (by simp), hlink, ← hafter.head]
    refine ⟨(segment_congr fun y hy => ?_).mpr hbefore, rfl,
      (segment_congr fun y hy => ?_).mpr hafter⟩
    · exact hkeep y (ne_of_mem_of_not_mem hy hxus) (ne_of_mem_of_not_mem hy hnodup.1.1)
    · exact hkeep y (ne_of_mem_of_not_mem hy hx.2) (ne_of_mem_of_not_mem hy hnodup.1.2)

theorem segment_unsplice (h : Segment link p (us ++ x :: vs) none)
    (hnodup : (us ++ x :: vs).Nodup)
    (hsame : ∀ y, y ≠ x → us.getLast? ≠ some y → link' y = link y)
    (hlast : ∀ a, us.getLast? = some a → link' a = vs.head?) (hp : p' = (us ++ vs).head?) :
    Segment link' p' (us ++ vs) none := by
  rw [List.nodup_middle, List.nodup_cons, List.mem_append, not_or] at hnodup
  obtain ⟨hnot, hnodup⟩ := hnodup
  have hafter := (segment_middle.mp h).2
  rcases List.eq_nil_or_concat us with rfl | ⟨us, a, rfl⟩
  · rw [List.nil_append] at hp ⊢
    rw [hp, ← hafter.head]
    exact (segment_congr fun y hy => hsame y (ne_of_mem_of_not_mem hy hnot.2) (by simp)).mpr hafter
  · rw [List.concat_eq_append] at *
    rw [List.append_assoc, List.singleton_append] at *
    obtain ⟨hbefore, -⟩ := segment_middle.mp h
    rw [List.nodup_middle, List.nodup_cons, List.mem_append, not_or] at hnodup
    have hp' : p' = p := hp.trans ((head?_append_cons us).trans h.head.symm)
    have hkeep : ∀ y, y ≠ x → y ≠ a → link' y = link y := fun y hy hya =>
      hsame y hy (by simpa using Ne.symm hya)
    have hxus : x ∉ us := fun hmem => hnot.1 (List.mem_append_left _ hmem)
    rw [hp', segment_middle, hlast a (by simp), ← hafter.head]
    refine ⟨(segment_congr fun y hy => ?_).mpr hbefore, (segment_congr fun y hy => ?_).mpr hafter⟩
    · exact hkeep y (ne_of_mem_of_not_mem hy hxus) (ne_of_mem_of_not_mem hy hnodup.1.1)
    · exact hkeep y (ne_of_mem_of_not_mem hy hnot.2) (ne_of_mem_of_not_mem hy hnodup.1.2)

end Change

end ColonyPico.Foundations.LinkedSegments
