import Mathlib.Data.Set.Insert
import ColonyPico.Dm.SubscriberLinks
import ColonyPico.Foundations.Runs

/-!
Subscribers that change their model points, also inside of their callbacks.
-/

namespace ColonyPico.Dm.Reattachment

open ColonyPico.Dm.ModelPoint
open ColonyPico.Dm.ChangeNotification
open ColonyPico.Dm.NoLostUpdate
open ColonyPico.Dm.SubscriberSteps
open ColonyPico.Dm.SubscriberLinks
open ColonyPico.Foundations.Runs
open ColonyPico.Foundations.IntrusiveLists

/-- The steps of the threads. A subscriber names the point it is attached to or detached
from. -/
inductive Event (π ℓ σ α : Type) where
  | change (p : π) (op : Write α)
  | attach (s : σ) (p : π) (initialSeqNumber : Nat)
  | detach (s : σ) (p : π)
  | popPending (l : ℓ)
  | beginCallback (l : ℓ)
  | notifyComplete (l : ℓ)

variable {π ℓ σ α : Type} [DecidableEq π] [DecidableEq ℓ] [DecidableEq σ]

section Definitions

variable (wiring : Wiring π ℓ σ α)

def next (w : World π ℓ σ α) : Event π ℓ σ α → World π ℓ σ α
  | .change p op => change wiring w p op
  | .attach s p initialSeqNumber => attachSubscriber wiring w p s initialSeqNumber
  | .detach s p => detachSubscriber wiring w p s
  | .popPending l => popPending w l
  | .beginCallback l => beginCallback wiring w l
  | .notifyComplete l => notifyComplete wiring w l

/-- A subscriber is attached and detached by its own loop, which is then not about to call
back, and it is attached to one point at a time. -/
def Orderly (w : World π ℓ σ α) : Event π ℓ σ α → Prop
  | .attach s p _ | .detach s p =>
      Phase.taken (w.loop (wiring.loopOf s)) = false ∧
        ((w.subscriber s).modelPoint = none ∨ (w.subscriber s).modelPoint = some p)
  | _ => True

instance (w : World π ℓ σ α) : ∀ e, Decidable (Orderly wiring w e)
  | .attach s p _ | .detach s p =>
      inferInstanceAs (Decidable (Phase.taken (w.loop (wiring.loopOf s)) = false ∧
        ((w.subscriber s).modelPoint = none ∨ (w.subscriber s).modelPoint = some p)))
  | .change _ _ | .popPending _ | .beginCallback _ | .notifyComplete _ => .isTrue trivial

def step (w : World π ℓ σ α) (e : Event π ℓ σ α) : Option (World π ℓ σ α) :=
  if Orderly wiring w e then some (next wiring w e) else none

end Definitions

/-- When the callback of a subscriber returns that has been attached to another point
meanwhile, the sequence number it has presented to that point is not that of the first
one. -/
def Distinct (w : World π ℓ σ α) : Event π ℓ σ α → Prop
  | .notifyComplete l =>
      match w.loop l with
      | .notifying s p _ =>
          (w.subscriber s).state = .notifyNotifying → (w.subscriber s).modelPoint ≠ some p →
            (w.point p).seqNum ≠ (w.subscriber s).seqNumber
      | .idle | .popped _ => True
  | _ => True

/-- The wiring when the subscribers are attached, or are to be attached, to some points. -/
abbrev rewired (wiring : Wiring π ℓ σ α) (pointOf : σ → π) : Wiring π ℓ σ α :=
  { wiring with pointOf := pointOf }

/-- The invariant of the world in which the subscribers that have been attached to another
point in their callback are only detached. -/
structure Sound (wiring : Wiring π ℓ σ α) (w : World π ℓ σ α) (pointOf : σ → π)
    (moved : Set σ) (w' : World π ℓ σ α) : Prop where
  agrees : Agrees moved w w'
  inv : Inv (rewired wiring pointOf) w'
  detached : ∀ s ∈ moved, (w'.subscriber s).state = .notifyPendingDetach
  attached : ∀ s ∈ moved, (w.subscriber s).state = .notifyNotifying ∧
    ∃ q ≠ pointOf s, (w.subscriber s).modelPoint = some q

variable {wiring : Wiring π ℓ σ α} {w w' : World π ℓ σ α} {pointOf : σ → π} {moved : Set σ}
  {s : σ} {p : π}

omit [DecidableEq π] [DecidableEq ℓ] [DecidableEq σ] in
theorem Sound.moved_free (h : Sound wiring w pointOf moved w') (hs : s ∈ moved) :
    w.lists.owner s = none ∧
      ∃ since, w.loop (wiring.loopOf s) = .notifying s (pointOf s) since := by
  have hconsistent := h.inv.consistent s
  simp only [Consistent, view, h.detached s hs] at hconsistent
  obtain ⟨howner, since, hphase, -⟩ := hconsistent
  rw [h.agrees.lists] at howner
  rw [h.agrees.loop] at hphase
  exact ⟨howner, since, hphase⟩

/-- The steps that the client of a subscriber takes in a callback, and the callback's end. -/
def Owns (wiring : Wiring π ℓ σ α) (s : σ) : Step π ℓ σ α → Prop
  | .attach s' _ | .detach s' => s' = s
  | .notifyComplete l => wiring.loopOf s = l
  | .change _ _ | .popPending _ | .beginCallback _ => False

omit [DecidableEq π] [DecidableEq ℓ] [DecidableEq σ] in
theorem Sound.not_concerns (h : Sound wiring w pointOf moved w') (st : Step π ℓ σ α)
    (hst : ∀ s ∈ moved, ¬ Owns wiring s st) : ∀ s ∈ moved, ¬ Concerns w s st := by
  intro s hs hconcerns
  obtain ⟨howner, since, hphase⟩ := h.moved_free hs
  have hloops : ∀ l, subject (w.loop l) = some s → wiring.loopOf s = l := by
    intro l hsubject
    rw [← h.agrees.loop] at hsubject
    exact h.inv.loops l s hsubject
  cases st with
  | change p op =>
      rw [Concerns, ← h.agrees.lists, h.inv.lists.mem_iff, h.agrees.lists, howner] at hconcerns
      cases hconcerns
  | attach s' n | detach s' => exact hst s hs hconcerns
  | popPending l => exact hconcerns
  | beginCallback l =>
      rw [Concerns] at hconcerns
      obtain rfl := hloops l (by rw [hconcerns]; rfl)
      rw [hphase] at hconcerns
      cases hconcerns
  | notifyComplete l =>
      obtain ⟨p, since', hphase'⟩ := hconcerns
      exact hst s hs (hloops l (by rw [hphase']; rfl))

theorem Sound.step (h : Sound wiring w pointOf moved w') (st : Step π ℓ σ α)
    (henabled : Enabled (rewired wiring pointOf) w st)
    (hst : ∀ s ∈ moved, ¬ Concerns w s st) :
    ∃ w'', Sound wiring (ChangeNotification.step (rewired wiring pointOf) w st) pointOf moved
      w'' := by
  obtain ⟨w'', hagrees, hinv, hsame⟩ := inv_step_of_agrees h.agrees h.inv st henabled hst
  refine ⟨w'', hagrees, hinv, fun s hs => ?_, fun s hs => ?_⟩
  · rw [hsame s hs]
    exact h.detached s hs
  · rw [subscriber_step _ w st (hst s hs)]
    exact h.attached s hs

omit [DecidableEq π] [DecidableEq ℓ] in
theorem invExcept_rewired (h : InvExcept (rewired wiring pointOf) w s) (p : π) :
    InvExcept (rewired wiring (Function.update pointOf s p)) w s := by
  refine ⟨h.lists, h.noError, h.seqNum, h.loops, fun s' hne => ?_⟩
  have hs' := h.consistent s' hne
  rw [Consistent, view] at hs' ⊢
  simp only [Function.update_of_ne hne]
  exact hs'

omit [DecidableEq π] [DecidableEq ℓ] in
theorem Sound.rewire (h : Sound wiring w pointOf moved w') (hs : s ∉ moved)
    (hstate : (w.subscriber s).state = .unsubscribed) (p : π) :
    Sound wiring w (Function.update pointOf s p) moved w' := by
  refine ⟨h.agrees, (invExcept_rewired (h.inv.except s) p).inv ?_, h.detached, fun s' hs' => ?_⟩
  · have hconsistent := h.inv.consistent s
    rw [← h.agrees.subscriber s hs] at hstate
    simp only [Consistent, view, hstate] at hconsistent ⊢
    exact hconsistent
  · have hne : s' ≠ s := fun heq => hs (heq ▸ hs')
    rw [Function.update_of_ne hne]
    exact h.attached s' hs'

omit [DecidableEq π] [DecidableEq ℓ] [DecidableEq σ] in
theorem Sound.modelPoint (h : Sound wiring w pointOf moved w') (hs : s ∉ moved)
    (hstate : (w.subscriber s).state ≠ .unsubscribed)
    (hstate' : (w.subscriber s).state ≠ .notifyPendingDetach) :
    (w.subscriber s).modelPoint = some (pointOf s) := by
  have hconsistent := h.inv.consistent s
  rw [← h.agrees.subscriber s hs] at hstate hstate' ⊢
  cases hcase : (w'.subscriber s).state with
  | unsubscribed => exact absurd hcase hstate
  | notifyPendingDetach => exact absurd hcase hstate'
  | idle =>
      simp only [Consistent, view, hcase] at hconsistent
      exact hconsistent.2.2.1
  | notifyPending =>
      simp only [Consistent, view, hcase] at hconsistent
      exact hconsistent.1
  | notifyNotifying =>
      simp only [Consistent, view, hcase] at hconsistent
      exact hconsistent.2.1

/-- The lists fit together, whatever points the subscribers have been attached to. -/
def Kept (wiring : Wiring π ℓ σ α) (w : World π ℓ σ α) : Prop :=
  ∃ pointOf moved w', Sound wiring w pointOf moved w'

theorem kept_attach_same (h : Sound wiring w pointOf moved w') (hs : s ∉ moved) (n : Nat)
    (htaken : Phase.taken (w.loop (wiring.loopOf s)) = false) :
    Kept wiring (attachSubscriber wiring w (pointOf s) s n) := by
  obtain ⟨w'', hsound⟩ := h.step (.attach s n) htaken <|
    h.not_concerns _ fun s' hs' heq => hs ((show s = s' from heq) ▸ hs')
  exact ⟨pointOf, moved, w'', hsound⟩

theorem kept_attach_moved (h : Sound wiring w pointOf moved w') (hs : s ∈ moved) (n : Nat)
    (hmodel : (w.subscriber s).modelPoint = some p) :
    Kept wiring (attachSubscriber wiring w p s n) := by
  obtain ⟨hstate, q, hq, hmodel'⟩ := h.attached s hs
  obtain rfl : q = p := Option.some.inj (hmodel'.symm.trans hmodel)
  rw [attach_eq_of_notifying hstate]
  refine ⟨pointOf, moved, w', agrees_masked h.agrees hs _ _, h.inv, h.detached, fun s' hs' => ?_⟩
  by_cases hne : s' = s
  · subst hne
    simp only [Function.update_self]
    exact ⟨hstate, q, hq, rfl⟩
  · simp only [Function.update_of_ne hne]
    exact h.attached s' hs'

/-- Attached to another point in its callback, a detached subscriber is a moved one. -/
theorem kept_attach_other (h : Sound wiring w pointOf moved w') (hs : s ∉ moved) (n : Nat)
    (hstate : (w.subscriber s).state = .notifyPendingDetach) (hp : p ≠ pointOf s) :
    Kept wiring (attachSubscriber wiring w p s n) := by
  have hagrees : Agrees (insert s moved) w w' := h.agrees.mono (Set.subset_insert s moved)
  simp only [attachSubscriber, processSubscriptionEvent, Function.update_self, hstate,
    inNotifyPendingDetach, World.setState, Function.update_idem]
  refine ⟨pointOf, insert s moved, w', agrees_masked hagrees (Set.mem_insert s moved) _ _, h.inv,
    fun s' hs' => ?_, fun s' hs' => ?_⟩
  · rcases Set.mem_insert_iff.mp hs' with rfl | hmem
    · rw [h.agrees.subscriber s' hs]
      exact hstate
    · exact h.detached s' hmem
  · by_cases hne : s' = s
    · subst hne
      simp only [Function.update_self]
      exact ⟨trivial, p, hp, rfl⟩
    · simp only [Function.update_of_ne hne]
      exact h.attached s' ((Set.mem_insert_iff.mp hs').resolve_left hne)

theorem kept_attach (h : Sound wiring w pointOf moved w') (n : Nat)
    (horderly : Orderly wiring w (.attach s p n)) :
    Kept wiring (attachSubscriber wiring w p s n) := by
  obtain ⟨htaken, hmodel⟩ := horderly
  by_cases hs : s ∈ moved
  · obtain ⟨-, q, -, hmodel'⟩ := h.attached s hs
    exact kept_attach_moved h hs n (hmodel.resolve_left (by simp [hmodel']))
  by_cases hp : p = pointOf s
  · exact hp ▸ kept_attach_same h hs n htaken
  cases hstate : (w.subscriber s).state with
  | unsubscribed =>
      have hattach := kept_attach_same (h.rewire hs hstate p) hs n htaken
      rwa [Function.update_self] at hattach
  | notifyPendingDetach => exact kept_attach_other h hs n hstate hp
  | idle | notifyPending | notifyNotifying =>
      rw [h.modelPoint hs (by simp [hstate]) (by simp [hstate])] at hmodel
      exact absurd (Option.some.inj (hmodel.resolve_left (Option.some_ne_none _))).symm hp

theorem kept_detach (h : Sound wiring w pointOf moved w')
    (horderly : Orderly wiring w (.detach s p)) : Kept wiring (detachSubscriber wiring w p s) := by
  obtain ⟨htaken, hmodel⟩ := horderly
  by_cases hs : s ∈ moved
  · -- the subscriber is only detached again
    have hstate := (h.attached s hs).1
    simp only [detachSubscriber, processSubscriptionEvent, hstate, inNotifyNotifying,
      World.setState, Function.update_self, Function.update_idem]
    refine ⟨pointOf, moved \ {s}, _, agrees_unmask (agrees_masked h.agrees hs _ w.basis) s,
      (invExcept_subscriber (h.inv.except s) _).inv ?_, fun s' hs' => ?_, fun s' hs' => ?_⟩
    · have hconsistent := h.inv.consistent s
      simp only [Consistent, view, h.detached s hs, Function.update_self] at hconsistent ⊢
      exact hconsistent
    · simp only [Function.update_of_ne hs'.2]
      exact h.detached s' hs'.1
    · simp only [Function.update_of_ne hs'.2]
      exact h.attached s' hs'.1
  have hsame : Kept wiring (detachSubscriber wiring w (pointOf s) s) := by
    obtain ⟨w'', hsound⟩ := h.step (.detach s) htaken <|
      h.not_concerns _ fun s' hs' heq => hs ((show s = s' from heq) ▸ hs')
    exact ⟨pointOf, moved, w'', hsound⟩
  cases hstate : (w.subscriber s).state with
  | unsubscribed =>
      simp only [detachSubscriber, processSubscriptionEvent, hstate, inUnsubscribed] at hsame ⊢
      exact hsame
  | notifyPendingDetach =>
      simp only [detachSubscriber, processSubscriptionEvent, hstate, inNotifyPendingDetach]
        at hsame ⊢
      exact hsame
  | idle | notifyPending | notifyNotifying =>
      rw [h.modelPoint hs (by simp [hstate]) (by simp [hstate])] at hmodel
      exact Option.some.inj (hmodel.resolve_left (Option.some_ne_none _)) ▸ hsame

/-- The callback of a moved subscriber ends. It is pending for its new point. -/
theorem kept_complete_moved (h : Sound wiring w pointOf moved w') (hs : s ∈ moved)
    (hdistinct : (w.point (pointOf s)).seqNum ≠ (w.subscriber s).seqNumber) :
    Kept wiring (notifyComplete wiring w (wiring.loopOf s)) := by
  obtain ⟨howner, since, hphase⟩ := h.moved_free hs
  obtain ⟨hstate, q, hq, hmodel⟩ := h.attached s hs
  let w₁ : World π ℓ σ α :=
    { w' with subscriber := Function.update w'.subscriber s (w.subscriber s) }
  have hagrees : Agrees (moved \ {s}) w w₁ := agrees_unmask h.agrees s
  have hexcept : InvExcept (rewired wiring (Function.update pointOf s q)) w₁ s :=
    invExcept_rewired (invExcept_subscriber (h.inv.except s) _) q
  have hothers : ∀ s' ∈ moved \ {s}, ¬ Concerns w s' (.notifyComplete (wiring.loopOf s)) := by
    rintro s' hs' ⟨p', since', hphase'⟩
    rw [hphase] at hphase'
    cases hphase'
    exact hs'.2 rfl
  have hcomplete := agrees_step wiring hagrees _ hothers
  have hsubscriber : w₁.subscriber s = w.subscriber s := Function.update_self _ _ _
  have hpoint : w₁.point = w.point := h.agrees.point
  have hphase₁ : w₁.loop (wiring.loopOf s) = .notifying s (pointOf s) since :=
    (congrFun h.agrees.loop _).trans hphase
  refine ⟨Function.update pointOf s q, moved \ {s}, _, hcomplete, ?_, fun s' hs' => ?_,
    fun s' hs' => ?_⟩
  · simp only [ChangeNotification.step, notifyComplete, hphase₁, processSubscriptionEvent,
      hsubscriber, hstate, inNotifyNotifying]
    rcases moved_transitionToSubscribed (rewired wiring (Function.update pointOf s q))
        hexcept.lists (p := pointOf s) (.inr (h.agrees.lists ▸ howner)) with ⟨hseq, -⟩ | hmoved
    · rw [hpoint, hsubscriber] at hseq
      exact absurd hseq hdistinct
    · refine inv_of_completed hexcept (by rw [hphase₁]; rfl) hmoved ?_
      simp only [Consistent, hsubscriber, hmodel, Function.update_self]
      exact ⟨trivial, .inl ⟨trivial, Option.some_ne_none s ∘ Eq.symm⟩⟩
  · rw [subscriber_step wiring w₁ _ fun hconcerns =>
      hothers s' hs' ((concerns_iff hagrees s' _).mp hconcerns)]
    simp only [w₁, Function.update_of_ne hs'.2]
    exact h.detached s' hs'.1
  · rw [Function.update_of_ne hs'.2]
    have hsame := subscriber_step wiring w (.notifyComplete (wiring.loopOf s)) (hothers s' hs')
    rw [ChangeNotification.step] at hsame
    rw [hsame]
    exact h.attached s' hs'.1

theorem notifySubscribers_rewired (wiring : Wiring π ℓ σ α) (pointOf : σ → π) (p : π) (n : Nat)
    (w : World π ℓ σ α) :
    notifySubscribers (rewired wiring pointOf) p n w = notifySubscribers wiring p n w := by
  induction n generalizing w with
  | zero => rfl
  | succ n ih =>
      rw [notifySubscribers, notifySubscribers]
      rcases w.lists.get (.inl p) with ⟨- | s, lists⟩
      · rfl
      · exact ih _

theorem change_rewired (wiring : Wiring π ℓ σ α) (pointOf : σ → π) (w : World π ℓ σ α) (p : π)
    (op : Write α) : change (rewired wiring pointOf) w p op = change wiring w p op := by
  simp only [change, processChangeNotifications, notifySubscribers_rewired]

theorem kept_step (h : Sound wiring w pointOf moved w') (st : Step π ℓ σ α)
    (henabled : Enabled (rewired wiring pointOf) w st)
    (hst : ∀ s ∈ moved, ¬ Owns wiring s st) :
    Kept wiring (ChangeNotification.step (rewired wiring pointOf) w st) := by
  obtain ⟨w'', hsound⟩ := h.step st henabled (h.not_concerns st hst)
  exact ⟨pointOf, moved, w'', hsound⟩

theorem kept_next (h : Kept wiring w) (e : Event π ℓ σ α) (horderly : Orderly wiring w e)
    (hdistinct : Distinct w e) : Kept wiring (next wiring w e) := by
  obtain ⟨pointOf, moved, w', h⟩ := h
  cases e with
  | change p op =>
      have hchange := kept_step h (.change p op) trivial fun _ _ => id
      rwa [ChangeNotification.step, change_rewired] at hchange
  | attach s p n => exact kept_attach h n horderly
  | detach s p => exact kept_detach h horderly
  | popPending l => exact kept_step h (.popPending l) trivial fun _ _ => id
  | beginCallback l =>
      exact kept_step h (.beginCallback l) trivial fun _ _ => id
  | notifyComplete l =>
      by_cases hmoved : ∃ s ∈ moved, wiring.loopOf s = l
      · obtain ⟨s, hs, rfl⟩ := hmoved
        obtain ⟨-, since, hphase⟩ := h.moved_free hs
        obtain ⟨hstate, q, hq, hmodel⟩ := h.attached s hs
        rw [Distinct, hphase] at hdistinct
        refine kept_complete_moved h hs (hdistinct hstate ?_)
        rw [hmodel]
        exact fun heq => hq (Option.some.inj heq)
      · exact kept_step h (.notifyComplete l) trivial fun s hs hloop => hmoved ⟨s, hs, hloop⟩

/-- The subscriber's members say that it is attached to the point. -/
def AttachedTo (q : π) (subscriber : Subscriber π) : Prop :=
  subscriber.modelPoint = some q ∧
    (subscriber.state = .idle ∨ subscriber.state = .notifyPending ∨
      subscriber.state = .notifyNotifying)

omit [DecidableEq π] [DecidableEq ℓ] in
theorem attachedTo_setState {q : π} (hs : AttachedTo q (w.subscriber s))
    {state : SubscriptionState}
    (hstate : state = .idle ∨ state = .notifyPending ∨ state = .notifyNotifying) :
    AttachedTo q ((w.setState s state).subscriber s) := by
  simp only [World.setState, AttachedTo, Function.update_self]
  exact ⟨hs.1, hstate⟩

theorem attachedTo_transitionToSubscribed {q : π} (hs : AttachedTo q (w.subscriber s)) (p : π) :
    AttachedTo q ((transitionToSubscribed wiring w p s).subscriber s) := by
  simp only [transitionToSubscribed]
  split_ifs
  · exact attachedTo_setState (w := { w with lists := w.lists.remove (.inl p) s }) hs (.inl rfl)
  · exact attachedTo_setState (w := { w with lists := _ }) hs (.inr (.inl rfl))

theorem attachedTo_processSubscriptionEvent {q : π} (hs : AttachedTo q (w.subscriber s)) (p : π)
    (s' : σ) {event : ChangeNotification.Event} (hevent : event ≠ .detach) :
    AttachedTo q ((processSubscriptionEvent wiring w p s' event).subscriber s) := by
  by_cases hne : s = s'
  · subst hne
    rw [processSubscriptionEvent]
    rcases hs.2 with hstate | hstate | hstate
    · rw [hstate]
      cases event with
      | attach => exact attachedTo_transitionToSubscribed hs p
      | detach => exact absurd rfl hevent
      | dataChanged =>
          exact attachedTo_setState (w := { w with lists := _ }) hs (.inr (.inl rfl))
      | notifying | notifyComplete => exact hs
    · rw [hstate]
      cases event with
      | attach =>
          exact attachedTo_transitionToSubscribed
            (w := removePendingChangingNotification wiring w s) hs p
      | detach => exact absurd rfl hevent
      | notifying =>
          simp only [inNotifyPending, AttachedTo, Function.update_self]
          exact ⟨hs.1, .inr (.inr trivial)⟩
      | dataChanged | notifyComplete => exact hs
    · rw [hstate]
      cases event with
      | detach => exact absurd rfl hevent
      | notifyComplete => exact attachedTo_transitionToSubscribed hs p
      | attach | dataChanged | notifying => exact hs
  · rw [subscriber_processSubscriptionEvent wiring w p hne]
    exact hs

theorem attachedTo_notifySubscribers {q : π} (p : π) (n : Nat)
    (hs : AttachedTo q (w.subscriber s)) :
    AttachedTo q ((notifySubscribers wiring p n w).subscriber s) := by
  induction n generalizing w with
  | zero => exact hs
  | succ n ih =>
      rw [notifySubscribers]
      rcases w.lists.get (.inl p) with ⟨- | s', lists⟩
      · exact hs
      · exact ih (attachedTo_processSubscriptionEvent (w := { w with lists := lists }) hs p s'
          (by decide))

/-- The event does not attach or detach the subscriber. -/
def Apart (s : σ) : Event π ℓ σ α → Prop
  | .attach s' _ _ | .detach s' _ => s' ≠ s
  | _ => True

theorem attachedTo_next {q : π} (hs : AttachedTo q (w.subscriber s)) {e : Event π ℓ σ α}
    (hapart : Apart s e) : AttachedTo q ((next wiring w e).subscriber s) := by
  cases e with
  | change p op =>
      simp only [next, change, processChangeNotifications]
      split_ifs
      · exact attachedTo_notifySubscribers p _ hs
      · exact hs
  | attach s' p n =>
      rw [next, subscriber_attachSubscriber wiring w p hapart.symm]
      exact hs
  | detach s' p =>
      rw [next, subscriber_detachSubscriber wiring w p hapart.symm]
      exact hs
  | popPending l =>
      simp only [next, popPending]
      split <;> exact hs
  | beginCallback l =>
      simp only [next, beginCallback]
      split
      · split
        · exact hs
        · exact attachedTo_processSubscriptionEvent hs _ _ (by decide)
      · exact hs
  | notifyComplete l =>
      simp only [next, notifyComplete]
      split
      · exact attachedTo_processSubscriptionEvent hs _ _ (by decide)
      · exact hs

omit [DecidableEq π] [DecidableEq ℓ] [DecidableEq σ] in
theorem Kept.loops (h : Kept wiring w) {l : ℓ} (hsubject : subject (w.loop l) = some s) :
    wiring.loopOf s = l := by
  obtain ⟨pointOf, moved, w', h⟩ := h
  rw [← h.agrees.loop] at hsubject
  exact h.inv.loops l s hsubject

omit [DecidableEq π] [DecidableEq ℓ] [DecidableEq σ] in
theorem Kept.seqNum (h : Kept wiring w) (p : π) :
    (w.point p).seqNum = seqNumAfter (w.changes p) := by
  obtain ⟨pointOf, moved, w', h⟩ := h
  rw [← h.agrees.point, ← h.agrees.changes]
  exact h.inv.seqNum p

omit [DecidableEq π] [DecidableEq ℓ] [DecidableEq σ] in
theorem Kept.pending_of_popped (h : Kept wiring w)
    (hphase : w.loop (wiring.loopOf s) = .popped s) :
    (w.subscriber s).state = .notifyPending := by
  obtain ⟨pointOf, moved, w', h⟩ := h
  have hs : s ∉ moved := fun hmem => by
    obtain ⟨-, since, hnotifying⟩ := h.moved_free hmem
    rw [hphase] at hnotifying
    cases hnotifying
  rw [← h.agrees.loop] at hphase
  rw [← h.agrees.subscriber s hs]
  exact (NoLostUpdate.pending_of_popped (h.inv.consistent s) hphase).1

omit [DecidableEq π] [DecidableEq ℓ] [DecidableEq σ] in
theorem Kept.notifying (h : Kept wiring w) {since : Nat}
    (hphase : w.loop (wiring.loopOf s) = .notifying s p since) :
    w.lists.WellFormed ∧ w.lists.owner s = none ∧
      ((w.subscriber s).state = .notifyNotifying ∨
        (w.subscriber s).state = .notifyPendingDetach) := by
  obtain ⟨pointOf, moved, w', h⟩ := h
  have hlists := h.inv.lists
  rw [h.agrees.lists] at hlists
  by_cases hs : s ∈ moved
  · exact ⟨hlists, (h.moved_free hs).1, .inl (h.attached s hs).1⟩
  have hconsistent := h.inv.consistent s
  rw [← h.agrees.loop] at hphase
  refine ⟨hlists, ?_⟩
  rw [← h.agrees.lists, ← h.agrees.subscriber s hs]
  cases hstate : (w'.subscriber s).state with
  | unsubscribed =>
      simp only [Consistent, view, hstate, hphase] at hconsistent
      exact absurd rfl hconsistent.2
  | idle =>
      simp only [Consistent, view, hstate, hphase] at hconsistent
      exact absurd rfl hconsistent.2.1
  | notifyPending =>
      simp only [Consistent, view, hstate, hphase] at hconsistent
      rcases hconsistent.2 with ⟨-, hsubject⟩ | ⟨-, hpopped⟩
      · exact absurd rfl hsubject
      · cases hpopped
  | notifyNotifying =>
      simp only [Consistent, view, hstate] at hconsistent
      exact ⟨hconsistent.1, .inl rfl⟩
  | notifyPendingDetach =>
      simp only [Consistent, view, hstate] at hconsistent
      exact ⟨hconsistent.1, .inr rfl⟩

theorem loop_next (wiring : Wiring π ℓ σ α) (w : World π ℓ σ α) (e : Event π ℓ σ α) (l : ℓ) :
    (next wiring w e).loop l = w.loop l ∨
      (w.loop l = .idle ∧ ∃ s, (next wiring w e).loop l = .popped s) ∨
      (e = .beginCallback l ∧ ∃ s p, w.loop l = .popped s ∧
        (w.subscriber s).modelPoint = some p ∧
        (next wiring w e).loop l = .notifying s p (w.changes p)) ∨
      (e = .notifyComplete l ∧ (next wiring w e).loop l = .idle) := by
  cases e with
  | change p op => exact .inl (congrFun (loop_change wiring w p op) l)
  | attach s p n => exact .inl (congrFun (loop_attachSubscriber wiring w p s n) l)
  | detach s p => exact .inl (congrFun (loop_detachSubscriber wiring w p s) l)
  | popPending l' =>
      simp only [next, popPending]
      split
      · rename_i s lists hidle hget
        by_cases hl : l = l'
        · subst hl
          exact .inr (.inl ⟨hidle, s, Function.update_self _ _ _⟩)
        · exact .inl (Function.update_of_ne hl _ _)
      · exact .inl rfl
  | beginCallback l' =>
      simp only [next, beginCallback]
      split
      · rename_i s hpopped
        split
        · exact .inl rfl
        · rename_i p hmodel
          by_cases hl : l = l'
          · subst hl
            exact .inr (.inr (.inl ⟨rfl, s, p, hpopped, hmodel, Function.update_self _ _ _⟩))
          · exact .inl (Function.update_of_ne hl _ _)
      · exact .inl rfl
  | notifyComplete l' =>
      simp only [next, notifyComplete]
      split
      · by_cases hl : l = l'
        · subst hl
          exact .inr (.inr (.inr ⟨rfl, Function.update_self _ _ _⟩))
        · exact .inl (Function.update_of_ne hl _ _)
      · exact .inl rfl

theorem held_next (h : Kept wiring w) {since : Nat}
    (hphase : w.loop (wiring.loopOf s) = .notifying s p since) {e : Event π ℓ σ α}
    (hapart : Apart s e) (hend : e ≠ .notifyComplete (wiring.loopOf s)) :
    (next wiring w e).subscriber s = w.subscriber s ∧
      (next wiring w e).loop (wiring.loopOf s) = .notifying s p since := by
  obtain ⟨hlists, howner, -⟩ := h.notifying hphase
  constructor
  · cases e with
    | change p op =>
        refine subscriber_step wiring w (.change p op) fun hmem => ?_
        rw [Concerns, hlists.mem_iff, howner] at hmem
        cases hmem
    | attach s' p n => exact subscriber_attachSubscriber wiring w p hapart.symm n
    | detach s' p => exact subscriber_detachSubscriber wiring w p hapart.symm
    | popPending l => exact subscriber_step wiring w (.popPending l) id
    | beginCallback l =>
        refine subscriber_step wiring w (.beginCallback l) fun hpopped => ?_
        obtain rfl := h.loops (l := l) (by rw [show w.loop l = _ from hpopped]; rfl)
        rw [Concerns, hphase] at hpopped
        cases hpopped
    | notifyComplete l =>
        refine subscriber_step wiring w (.notifyComplete l) ?_
        rintro ⟨p', since', hphase'⟩
        obtain rfl := h.loops (l := l) (by rw [hphase']; rfl)
        exact hend rfl
  · rcases loop_next wiring w e (wiring.loopOf s) with
      hsame | ⟨hidle, -⟩ | ⟨-, s', p', hpopped, -⟩ | ⟨rfl, -⟩
    · exact hsame.trans hphase
    · rw [hphase] at hidle
      cases hidle
    · rw [hphase] at hpopped
      cases hpopped
    · exact absurd rfl hend

/-- The subscriber is attached to the point, and its callback is for that point and has seen
the sequence number that the point had at its beginning. -/
structure BelongsTo (wiring : Wiring π ℓ σ α) (w : World π ℓ σ α) (s : σ) (q : π) : Prop where
  attached : AttachedTo q (w.subscriber s)
  callback : ∀ p since, w.loop (wiring.loopOf s) = .notifying s p since →
    p = q ∧ (w.subscriber s).seqNumber = seqNumAfter since

theorem belongsTo_next {q : π} (hkept : Kept wiring w) (h : BelongsTo wiring w s q)
    {e : Event π ℓ σ α} (hapart : Apart s e) : BelongsTo wiring (next wiring w e) s q := by
  refine ⟨attachedTo_next h.attached hapart, fun p since hphase => ?_⟩
  rcases loop_next wiring w e (wiring.loopOf s) with
    hsame | ⟨-, s', hpopped⟩ | ⟨rfl, s', p', hpopped, hmodel, hnotifying⟩ | ⟨-, hidle⟩
  · rw [hsame] at hphase
    have hend : e ≠ .notifyComplete (wiring.loopOf s) := by
      rintro rfl
      simp only [next, notifyComplete, hphase, Function.update_self] at hsame
      cases hsame
    rw [(held_next hkept hphase hapart hend).1]
    exact h.callback p since hphase
  · rw [hpopped] at hphase
    cases hphase
  · rw [hnotifying] at hphase
    cases hphase
    obtain rfl := Option.some.inj (hmodel.symm.trans h.attached.1)
    refine ⟨rfl, ?_⟩
    simp only [next, beginCallback, hpopped, hmodel, processSubscriptionEvent,
      hkept.pending_of_popped hpopped, inNotifyPending, Function.update_self]
    exact hkept.seqNum p
  · rw [hidle] at hphase
    cases hphase

/-- The subscriber is to be called back for the point, or it is in a callback that began
before the last change. -/
def Told (wiring : Wiring π ℓ σ α) (w : World π ℓ σ α) (s : σ) (q : π) : Prop :=
  (w.subscriber s).state = .notifyPending ∧
      (s ∈ w.lists.items (.inr (wiring.loopOf s)) ∨ w.loop (wiring.loopOf s) = .popped s) ∨
    ∃ since < w.changes q, w.loop (wiring.loopOf s) = .notifying s q since

/-- The subscriber is linked to one point only. A change during its callback leads to
another callback, as far as the sequence number tells. -/
structure LinkedOnly (wiring : Wiring π ℓ σ α) (w : World π ℓ σ α) (s : σ) (q : π) : Prop where
  attached : AttachedTo q (w.subscriber s)
  absent : ∀ p ≠ q, s ∉ w.lists.items (.inl p)
  deaf : ∀ p ≠ q, ∀ op, (change wiring w p op).subscriber s = w.subscriber s
  heard : ∀ op : Write α,
    (op.apply (wiring.isDataEqual q) (wiring.invalidData q) (w.point q)).2 = true →
      Told wiring (change wiring w q op) s q
  again : ∀ since, w.loop (wiring.loopOf s) = .notifying s q since → since < w.changes q →
    w.changes q < since + 65535 →
      ((notifyComplete wiring w (wiring.loopOf s)).subscriber s).state = .notifyPending

omit [DecidableEq π] [DecidableEq ℓ] [DecidableEq σ] in
theorem Sound.settled (h : Sound wiring w pointOf moved w') {q : π}
    (hbelongs : BelongsTo wiring w s q) : s ∉ moved ∧ pointOf s = q := by
  have hs : s ∉ moved := by
    intro hmem
    obtain ⟨-, since, hphase⟩ := h.moved_free hmem
    obtain ⟨-, q', hq', hmodel⟩ := h.attached s hmem
    refine hq' ?_
    rw [(hbelongs.callback _ _ hphase).1]
    exact Option.some.inj (hmodel.symm.trans hbelongs.attached.1)
  refine ⟨hs, Option.some.inj ((h.modelPoint hs ?_ ?_).symm.trans hbelongs.attached.1)⟩
  · rcases hbelongs.attached.2 with hstate | hstate | hstate <;> simp [hstate]
  · rcases hbelongs.attached.2 with hstate | hstate | hstate <;> simp [hstate]

/-- Where the subscriber is, in each of its states. -/
structure Placed (wiring : Wiring π ℓ σ α) (w : World π ℓ σ α) (s : σ) (q : π) : Prop where
  lists : w.lists.WellFormed
  idle : (w.subscriber s).state = .idle → w.lists.owner s = some (.inl q)
  pending : (w.subscriber s).state = .notifyPending →
    w.lists.owner s = some (.inr (wiring.loopOf s)) ∨
      w.lists.owner s = none ∧ w.loop (wiring.loopOf s) = .popped s
  notifying : (w.subscriber s).state = .notifyNotifying → w.lists.owner s = none ∧
    ∃ since ≤ w.changes q, w.loop (wiring.loopOf s) = .notifying s q since

omit [DecidableEq π] [DecidableEq ℓ] [DecidableEq σ] in
theorem BelongsTo.placed {q : π} (h : BelongsTo wiring w s q) (hkept : Kept wiring w) :
    Placed wiring w s q := by
  obtain ⟨pointOf, moved, w', hsound⟩ := hkept
  obtain ⟨hs, rfl⟩ := hsound.settled h
  have hconsistent := hsound.inv.consistent s
  have hlists := hsound.inv.lists
  rw [hsound.agrees.lists] at hlists
  simp only [Consistent, view, hsound.agrees.subscriber s hs, hsound.agrees.lists,
    hsound.agrees.loop, hsound.agrees.changes] at hconsistent
  refine ⟨hlists, fun hstate => ?_, fun hstate => ?_, fun hstate => ?_⟩
  · rw [hstate] at hconsistent
    exact hconsistent.1
  · rw [hstate] at hconsistent
    exact hconsistent.2.imp And.left id
  · rw [hstate] at hconsistent
    obtain ⟨howner, -, since, hphase, hle, -⟩ := hconsistent
    exact ⟨howner, since, hle, hphase⟩

theorem not_idle_of_changed {q : π} (hkept : Kept wiring w) (h : BelongsTo wiring w s q)
    {op : Write α}
    (hchanged : (op.apply (wiring.isDataEqual q) (wiring.invalidData q) (w.point q)).2 = true) :
    ((change wiring w q op).subscriber s).state ≠ .idle ∧
      (change wiring w q op).changes q = w.changes q + 1 := by
  obtain ⟨pointOf, moved, w', hsound⟩ := hkept
  obtain ⟨hs, hpoint⟩ := hsound.settled h
  have hfree : ∀ s' ∈ w.lists.items (.inl q), s' ∉ moved := fun s' hs' hmem =>
    hsound.not_concerns (.change q op) (fun _ _ => id) s' hmem hs'
  have hagrees := agrees_change (rewired wiring pointOf) hsound.agrees q op hfree
  rw [← congrFun hsound.agrees.point q] at hchanged
  obtain ⟨lists, heq⟩ := change_eq hsound.inv hchanged
  rw [← change_rewired wiring pointOf, ← hagrees.subscriber s hs, ← hagrees.changes, heq,
    ← congrFun hsound.agrees.changes q]
  refine ⟨?_, Function.update_self _ _ _⟩
  simp only [hpoint, and_true]
  split_ifs with hidle
  · exact (by decide : SubscriptionState.notifyPending ≠ .idle)
  · exact hidle

omit [DecidableEq π] [DecidableEq ℓ] [DecidableEq σ] in
theorem Placed.absent {q : π} (h : Placed wiring w s q) (hattached : AttachedTo q (w.subscriber s))
    (hp : p ≠ q) : s ∉ w.lists.items (.inl p) := by
  intro hmem
  rw [h.lists.mem_iff] at hmem
  rcases hattached.2 with hstate | hstate | hstate
  · rw [h.idle hstate] at hmem
    cases hmem
    exact hp rfl
  · rcases h.pending hstate with howner | ⟨howner, -⟩
    · rw [howner] at hmem
      cases hmem
    · rw [howner] at hmem
      cases hmem
  · rw [(h.notifying hstate).1] at hmem
    cases hmem

theorem told_of_changed {q : π} (hkept : Kept wiring w) (h : BelongsTo wiring w s q)
    {op : Write α}
    (hchanged : (op.apply (wiring.isDataEqual q) (wiring.invalidData q) (w.point q)).2 = true) :
    Told wiring (change wiring w q op) s q := by
  have hkept' := kept_next hkept (.change q op) trivial trivial
  have hbelongs' := belongsTo_next hkept h (e := .change q op) trivial
  have hplaced' := hbelongs'.placed hkept'
  obtain ⟨hidle, hchanges⟩ := not_idle_of_changed hkept h hchanged
  rcases hbelongs'.attached.2 with hstate | hstate | hstate
  · exact absurd hstate hidle
  · refine .inl ⟨hstate, ?_⟩
    exact (hplaced'.pending hstate).imp (hplaced'.lists.mem_iff _ _).mpr And.right
  · -- the callback has begun before the change
    obtain ⟨-, since, -, hphase'⟩ := hplaced'.notifying hstate
    have hphase : w.loop (wiring.loopOf s) = .notifying s q since :=
      (congrFun (loop_change wiring w q op) _).symm.trans hphase'
    rw [(held_next hkept hphase (e := .change q op) trivial (by simp)).1] at hstate
    obtain ⟨-, since', hle, hphase''⟩ := (h.placed hkept).notifying hstate
    rw [hphase] at hphase''
    cases hphase''
    refine .inr ⟨since, ?_, hphase'⟩
    rw [hchanges]
    exact Nat.lt_succ_of_le hle

theorem pending_of_changed {q : π} (hkept : Kept wiring w) (h : BelongsTo wiring w s q)
    {since : Nat} (hphase : w.loop (wiring.loopOf s) = .notifying s q since)
    (hlt : since < w.changes q) (hlt' : w.changes q < since + 65535) :
    ((notifyComplete wiring w (wiring.loopOf s)).subscriber s).state = .notifyPending := by
  have hnotifying : (w.subscriber s).state = .notifyNotifying := by
    rcases (hkept.notifying hphase).2.2 with hstate | hstate
    · exact hstate
    · rcases h.attached.2 with hstate' | hstate' | hstate' <;>
        exact absurd (hstate.symm.trans hstate') (by decide)
  have hseq : (w.point q).seqNum ≠ (w.subscriber s).seqNumber := by
    rw [hkept.seqNum, (h.callback q since hphase).2]
    intro heq
    exact absurd (eq_of_seqNumAfter_eq hlt.le hlt' heq) hlt.ne'
  simp only [notifyComplete, hphase, processSubscriptionEvent, hnotifying, inNotifyNotifying,
    transitionToSubscribed, if_neg hseq, transitionToNotifyPending, World.setState,
    Function.update_self]

theorem linkedOnly_of_kept {q : π} (hkept : Kept wiring w) (h : BelongsTo wiring w s q) :
    LinkedOnly wiring w s q := by
  have habsent := fun p hp => (h.placed hkept).absent (p := p) h.attached hp
  exact ⟨h.attached, habsent,
    fun p hp op => subscriber_step wiring w (.change p op) (habsent p hp),
    fun op hchanged => told_of_changed hkept h hchanged,
    fun since hphase hlt hlt' => pending_of_changed hkept h hphase hlt hlt'⟩

omit [DecidableEq π] [DecidableEq ℓ] [DecidableEq σ] in
theorem kept_init (wiring : Wiring π ℓ σ α) (data : π → α) (valid locked : π → Bool) :
    Kept wiring (World.init data valid locked) :=
  ⟨wiring.pointOf, ∅, _, Agrees.refl ∅ _, inv_init wiring data valid locked,
    fun _ hs => False.elim hs, fun _ hs => False.elim hs⟩

theorem step_eq_some {e : Event π ℓ σ α} (hstep : step wiring w e = some w') :
    Orderly wiring w e ∧ next wiring w e = w' := by
  rw [step] at hstep
  split_ifs at hstep with horderly
  exact ⟨horderly, Option.some.inj hstep⟩

theorem kept_of_step (h : Kept wiring w) {e : Event π ℓ σ α} (hdistinct : Distinct w e)
    (hstep : step wiring w e = some w') : Kept wiring w' := by
  obtain ⟨horderly, rfl⟩ := step_eq_some hstep
  exact kept_next h e horderly hdistinct

theorem held_run (h : Kept wiring w) {since : Nat}
    (hphase : w.loop (wiring.loopOf s) = .notifying s p since) {events : List (Event π ℓ σ α)}
    (hall : AllSteps (step wiring) Distinct w events)
    (hothers : ∀ e ∈ events, Apart s e ∧ e ≠ .notifyComplete (wiring.loopOf s))
    (hrun : run (step wiring) w events = some w') :
    Kept wiring w' ∧ w'.subscriber s = w.subscriber s ∧
      w'.loop (wiring.loopOf s) = .notifying s p since := by
  induction events generalizing w with
  | nil =>
      obtain rfl := Option.some.inj hrun
      exact ⟨h, rfl, hphase⟩
  | cons e events ih =>
      obtain ⟨w₁, hstep, hrest⟩ := run_cons hrun
      obtain ⟨hapart, hend⟩ := hothers e List.mem_cons_self
      have hkept := kept_of_step h hall.1 hstep
      have hrestAll := hall.2 w₁ hstep
      obtain ⟨-, rfl⟩ := step_eq_some hstep
      obtain ⟨hsame, hphase'⟩ := held_next h hphase hapart hend
      obtain ⟨hkept', hsame', hphase''⟩ := ih hkept hphase' hrestAll
        (fun e' he' => hothers e' (List.mem_cons_of_mem e he')) hrest
      exact ⟨hkept', hsame'.trans hsame, hphase''⟩

/-- A run to the end of a callback for `p` in which the subscriber is detached from `p` and
then attached to `q`, with anything else before, between and after. -/
def Reattaches (wiring : Wiring π ℓ σ α) (w₀ : World π ℓ σ α) (s : σ) (p q : π) (n : Nat)
    (w : World π ℓ σ α) : Prop :=
  ∃ before between after since w₁, run (step wiring) w₀ before = some w₁ ∧
    AllSteps (step wiring) Distinct w₀ before ∧
    w₁.loop (wiring.loopOf s) = .notifying s p since ∧
    run (step wiring) w₁ (.detach s p :: (between ++ .attach s q n :: after)) = some w ∧
    AllSteps (step wiring) Distinct w₁ (.detach s p :: (between ++ .attach s q n :: after)) ∧
    ∀ e ∈ between ++ after, Apart s e ∧ e ≠ .notifyComplete (wiring.loopOf s)

/-- The subscriber is linked to one point only until it is attached or detached. -/
def StaysLinked (wiring : Wiring π ℓ σ α) (w : World π ℓ σ α) (s : σ) (q : π) : Prop :=
  ∀ later w', (∀ e ∈ later, Apart s e) → AllSteps (step wiring) Distinct w later →
    run (step wiring) w later = some w' → LinkedOnly wiring w' s q

/-- What a subscriber is when its callback ends in which it has been reattached. -/
theorem Reattaches.members {w₀ : World π ℓ σ α} {q : π} {n : Nat}
    (h : Reattaches wiring w₀ s p q n w) (hkept : Kept wiring w₀) :
    Kept wiring w ∧ w.subscriber s = ⟨.notifyNotifying, some q, n⟩ ∧
      ∃ since, w.loop (wiring.loopOf s) = .notifying s p since := by
  obtain ⟨before, between, after, since, w₁, hbefore, hallBefore, hphase, hrun, hall, hothers⟩ := h
  have hkept₁ : Kept wiring w₁ :=
    invariant (fun _ _ _ hkept hdistinct hstep => kept_of_step hkept hdistinct hstep) hkept
      hallBefore hbefore
  obtain ⟨w₂, hdetach, hrun₂⟩ := run_cons hrun
  have hkept₂ := kept_of_step hkept₁ hall.1 hdetach
  have hall₂ := hall.2 w₂ hdetach
  rw [run_append] at hrun₂
  obtain ⟨w₃, hbetween, hrun₃⟩ := Option.bind_eq_some_iff.mp hrun₂
  obtain ⟨w₄, hattach, hafter⟩ := run_cons hrun₃
  obtain ⟨-, hnext₂⟩ := step_eq_some hdetach
  obtain ⟨-, hnext₄⟩ := step_eq_some hattach
  -- the detach in the callback
  have hstate₂ : (w₂.subscriber s).state = .notifyPendingDetach := by
    rw [← hnext₂]
    rcases (hkept₁.notifying hphase).2.2 with hstate | hstate <;>
      simp only [next, detachSubscriber, processSubscriptionEvent, hstate, inNotifyNotifying,
        inNotifyPendingDetach, World.setState, Function.update_self]
  have hphase₂ : w₂.loop (wiring.loopOf s) = .notifying s p since := by
    rw [← hnext₂, next, loop_detachSubscriber]
    exact hphase
  obtain ⟨hkept₃, hsame₃, hphase₃⟩ := held_run hkept₂ hphase₂ hall₂.left
    (fun e he => hothers e (List.mem_append_left after he)) hbetween
  -- the attach to the other point
  have hall₃ := hall₂.right hbetween
  have hkept₄ := kept_of_step hkept₃ hall₃.1 hattach
  have hmembers₄ : w₄.subscriber s = ⟨.notifyNotifying, some q, n⟩ := by
    rw [← hnext₄]
    simp only [next, attachSubscriber, processSubscriptionEvent, Function.update_self, hsame₃,
      hstate₂, inNotifyPendingDetach, World.setState]
  have hphase₄ : w₄.loop (wiring.loopOf s) = .notifying s p since := by
    rw [← hnext₄, next, loop_attachSubscriber]
    exact hphase₃
  obtain ⟨hkept₅, hsame₅, hphase₅⟩ := held_run hkept₄ hphase₄ (hall₃.2 w₄ hattach)
    (fun e he => hothers e (List.mem_append_right between he)) hafter
  exact ⟨hkept₅, hsame₅.trans hmembers₄, since, hphase₅⟩

theorem staysLinked_of_kept {q : π} (hkept : Kept wiring w) (h : BelongsTo wiring w s q) :
    StaysLinked wiring w s q := by
  intro later
  induction later generalizing w with
  | nil =>
      intro w' _ _ hrun
      obtain rfl := Option.some.inj hrun
      exact linkedOnly_of_kept hkept h
  | cons e later ih =>
      intro w' hapart hall hrun
      obtain ⟨w₁, hstep, hrest⟩ := run_cons hrun
      have hkept₁ := kept_of_step hkept hall.1 hstep
      have hall₁ := hall.2 w₁ hstep
      obtain ⟨-, rfl⟩ := step_eq_some hstep
      have hbelongs := belongsTo_next hkept h (hapart e List.mem_cons_self)
      exact ih hkept₁ hbelongs w' (fun e' he' => hapart e' (List.mem_cons_of_mem e he')) hall₁ hrest

/-- Over every run to the end of a callback in which the subscriber is reattached: behind it
the subscriber is linked to its new point only, just when the first point does not have the
sequence number that was presented to the new one. -/
theorem reattached_iff (wiring : Wiring π ℓ σ α) (data : π → α) (valid locked : π → Bool)
    (s : σ) (p q : π) (hne : p ≠ q) (n : Nat) (w : World π ℓ σ α)
    (h : Reattaches wiring (World.init data valid locked) s p q n w) :
    StaysLinked wiring (notifyComplete wiring w (wiring.loopOf s)) s q ↔
      (w.point p).seqNum ≠ n := by
  obtain ⟨hkept, hmembers, since, hphase⟩ := h.members (kept_init wiring data valid locked)
  have hcomplete : notifyComplete wiring w (wiring.loopOf s) =
      { transitionToSubscribed wiring w p s with
        loop := Function.update w.loop (wiring.loopOf s) .idle } := by
    simp only [notifyComplete, hphase, processSubscriptionEvent, hmembers, inNotifyNotifying]
  constructor
  · intro hlinked heq
    -- the subscriber goes into the list of the first point
    have hlast := hlinked [] _ (fun e he => by cases he) trivial rfl
    refine hlast.absent p hne ?_
    have hfree : (w.lists.remove (.inl p) s).owner s = none := by
      rw [Lists.remove_of_not_owned _ (by simp [(hkept.notifying hphase).2.1])]
      exact (hkept.notifying hphase).2.1
    have hseq : (w.point p).seqNum = (w.subscriber s).seqNumber := by
      rw [hmembers]
      exact heq
    simp only [hcomplete, transitionToSubscribed, if_pos hseq, Lists.put, hfree,
      Function.update_self]
    exact List.mem_append_right _ List.mem_cons_self
  · intro hdistinct
    have hend : Distinct w (.notifyComplete (wiring.loopOf s)) := by
      simp only [Distinct, hphase, hmembers]
      exact fun _ _ => hdistinct
    have hkept' : Kept wiring (notifyComplete wiring w (wiring.loopOf s)) :=
      kept_next hkept (.notifyComplete (wiring.loopOf s)) trivial hend
    refine staysLinked_of_kept hkept' ⟨?_, fun p' since' hphase' => ?_⟩
    · rw [hcomplete]
      refine attachedTo_transitionToSubscribed ?_ p
      rw [hmembers]
      exact ⟨rfl, .inr (.inr rfl)⟩
    · rw [hcomplete] at hphase'
      simp only [Function.update_self] at hphase'
      cases hphase'

/-- Two points, and a subscriber that belongs to the first one. -/
def twoPoints : Wiring Bool Unit Unit Nat :=
  { pointOf := fun _ => false
    loopOf := fun _ => ()
    isDataEqual := fun _ a b => a == b
    invalidData := fun _ => 0 }

def twoPointsInit : World Bool Unit Unit Nat :=
  World.init (fun _ => 0) (fun _ => true) (fun _ => false)

/-- The first callback of the subscriber. -/
def firstCallback : List (Event Bool Unit Unit Nat) :=
  [.attach () false sequenceNumberUnknown, .popPending (), .beginCallback ()]

/-- In its callback the subscriber moves to the second point, which a writer changes
meanwhile. -/
def moves (n : Nat) : List (Event Bool Unit Unit Nat) :=
  [.detach () false, .change true .touch, .attach () true n]

def endOfCallback (n : Nat) : World Bool Unit Unit Nat :=
  (moves n).foldl (next twoPoints) (firstCallback.foldl (next twoPoints) twoPointsInit)

theorem reattaches_moves (n : Nat) :
    Reattaches twoPoints twoPointsInit () false true n (endOfCallback n) :=
  ⟨firstCallback, [.change true .touch], [], 0, _, rfl,
    ⟨trivial, fun _ _ => ⟨trivial, fun _ _ => ⟨trivial, fun _ _ => trivial⟩⟩⟩, rfl, rfl,
    ⟨trivial, fun _ _ => ⟨trivial, fun _ _ => ⟨trivial, fun _ _ => trivial⟩⟩⟩,
    by simp [Apart]⟩

theorem reattached_iff_unknown :
    StaysLinked twoPoints
      (notifyComplete twoPoints (endOfCallback sequenceNumberUnknown) ()) () true :=
  (reattached_iff twoPoints _ _ _ () false true (by decide) sequenceNumberUnknown
    (endOfCallback sequenceNumberUnknown) (reattaches_moves _)).mpr (by decide)

/-- The number presented to the second point is the one that the first point has. The
subscriber ends in the list of the first point. -/
theorem not_staysLinked_same_number :
    Reattaches twoPoints twoPointsInit () false true 1 (endOfCallback 1) ∧
      ¬ StaysLinked twoPoints (notifyComplete twoPoints (endOfCallback 1) ()) () true := by
  refine ⟨reattaches_moves 1, fun h => ?_⟩
  have hlast := h [] _ (fun e he => by cases he) trivial rfl
  exact hlast.absent false (by decide) (by decide)

end ColonyPico.Dm.Reattachment
