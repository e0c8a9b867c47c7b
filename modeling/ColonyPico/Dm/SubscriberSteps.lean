import ColonyPico.Dm.NoLostUpdate

/-!
What the steps of `Cpl::Dm::ModelPointCommon_` and of the event loops do to a subscriber, in the
states that a run reaches.
-/

namespace ColonyPico.Dm.SubscriberSteps

open ColonyPico.Dm.ModelPoint
open ColonyPico.Dm.ChangeNotification
open ColonyPico.Dm.NoLostUpdate
open ColonyPico.Foundations.IntrusiveLists

variable {π ℓ σ α : Type} [DecidableEq π] [DecidableEq ℓ] [DecidableEq σ]
variable {wiring : Wiring π ℓ σ α} {w : World π ℓ σ α}

omit [DecidableEq π] [DecidableEq ℓ] [DecidableEq σ] in
theorem owner_iff (h : Inv wiring w) (p : π) (s : σ) :
    w.lists.owner s = some (.inl p) ↔
      (w.subscriber s).state = .idle ∧ wiring.pointOf s = p := by
  have hs := h.consistent s
  constructor
  · intro howner
    obtain ⟨hstate, hpoint, -⟩ := idle_of_owner hs howner
    exact ⟨hstate, hpoint⟩
  · rintro ⟨hstate, rfl⟩
    simp only [Consistent, view, hstate] at hs
    exact hs.1

/-- A change makes the idle subscribers of the point pending. -/
theorem change_eq (h : Inv wiring w) {p : π} {op : Write α}
    (hchanged : (op.apply (wiring.isDataEqual p) (wiring.invalidData p) (w.point p)).2 = true) :
    ∃ lists, change wiring w p op =
      { w with
        lists := lists
        point := Function.update w.point p
          { (op.apply (wiring.isDataEqual p) (wiring.invalidData p) (w.point p)).1 with
            seqNum := advanceSequenceNumber (w.point p).seqNum }
        changes := Function.update w.changes p (w.changes p + 1)
        subscriber := fun s =>
          if (w.subscriber s).state = .idle ∧ wiring.pointOf s = p then
            { w.subscriber s with state := .notifyPending }
          else w.subscriber s } := by
  have hseq := seqNum_apply (wiring.isDataEqual p) (wiring.invalidData p) (w.point p) op
  simp only [change, hchanged, if_true, processChangeNotifications, Function.update_self,
    Function.update_idem, hseq]
  have hall := allPending_notifySubscribers wiring p (w.lists.items (.inl p)).length
    { w with
      point := Function.update w.point p
        { (op.apply (wiring.isDataEqual p) (wiring.invalidData p) (w.point p)).1 with
          seqNum := advanceSequenceNumber (w.point p).seqNum }
      changes := Function.update w.changes p (w.changes p + 1) }
    h.lists (fun s howner => (idle_of_owner (h.consistent s) howner).1)
    (w.lists.items (.inl p)) (fun s howner => (h.lists.mem_iff _ _).mpr howner) le_rfl
  have hfields := hall.fields
  simp only [owner_iff h] at hfields
  exact ⟨_, hfields⟩

/-- The loop takes a pending subscriber, or there is none. -/
theorem popPending_eq (l : ℓ) (hidle : w.loop l = .idle) :
    popPending w l = w ∨ ∃ s lists,
      popPending w l = { w with lists := lists, loop := Function.update w.loop l (.popped s) } := by
  rw [popPending, hidle]
  rcases w.lists.get (.inr l) with ⟨- | s, lists⟩
  · exact .inl rfl
  · exact .inr ⟨s, lists, rfl⟩

theorem beginCallback_eq (h : Inv wiring w) {l : ℓ} {s : σ} (hphase : w.loop l = .popped s) :
    (w.subscriber s).state = .notifyPending ∧
      beginCallback wiring w l =
        { w with
          subscriber := Function.update w.subscriber s
            { w.subscriber s with
              seqNumber := (w.point (wiring.pointOf s)).seqNum
              state := .notifyNotifying }
          loop := Function.update w.loop l
            (.notifying s (wiring.pointOf s) (w.changes (wiring.pointOf s)))
          basis := Function.update w.basis s (.calledBack (w.changes (wiring.pointOf s))) } := by
  obtain rfl : wiring.loopOf s = l := h.loops l s (by rw [hphase]; rfl)
  obtain ⟨hstate, -, hmodel⟩ := pending_of_popped (h.consistent s) hphase
  simp only [view] at hstate hmodel
  refine ⟨hstate, ?_⟩
  simp only [beginCallback, hphase, hmodel, processSubscriptionEvent, hstate, inNotifyPending]

/-- An attach in a callback only sets the sequence number. -/
theorem attach_eq_of_notifying {s : σ} (hstate : (w.subscriber s).state = .notifyNotifying)
    (p : π) (initialSeqNumber : Nat) :
    attachSubscriber wiring w p s initialSeqNumber =
      { w with
        subscriber := Function.update w.subscriber s
          { w.subscriber s with seqNumber := initialSeqNumber, modelPoint := some p }
        basis := Function.update w.basis s (.presented initialSeqNumber) } := by
  simp only [attachSubscriber, processSubscriptionEvent, Function.update_self, hstate,
    inNotifyNotifying]

/-- A first attach with the unknown sequence number asks for a notification. -/
theorem attach_eq_of_unsubscribed (h : Inv wiring w) {s : σ}
    (hstate : (w.subscriber s).state = .unsubscribed) :
    ∃ lists, attachSubscriber wiring w (wiring.pointOf s) s sequenceNumberUnknown =
      { w with
        lists := lists
        subscriber := Function.update w.subscriber s
          { state := .notifyPending
            modelPoint := some (wiring.pointOf s)
            seqNumber := sequenceNumberUnknown }
        basis := Function.update w.basis s (.presented sequenceNumberUnknown) } := by
  have hs := h.consistent s
  simp only [Consistent, view, hstate] at hs
  have hfirst : IsSequenceNumber (sequenceNumberUnknown + 1) := ⟨by decide, by decide⟩
  have hseq : (w.point (wiring.pointOf s)).seqNum ≠ sequenceNumberUnknown := by
    rw [h.seqNum, seqNumAfter, iterate_advance hfirst, sequenceNumberUnknown]
    exact Nat.succ_ne_zero _
  simp only [attachSubscriber, processSubscriptionEvent, Function.update_self, hstate,
    inUnsubscribed, transitionToSubscribed, if_neg hseq, transitionToNotifyPending,
    World.setState, Function.update_idem]
  exact ⟨_, rfl⟩

/-- At its end, a callback finds the sequence number it has seen, or the subscriber is pending
again. -/
theorem notifyComplete_eq (h : Inv wiring w) {l : ℓ} {s : σ} {since : Nat}
    (hphase : w.loop l = .notifying s (wiring.pointOf s) since)
    (hstate : (w.subscriber s).state = .notifyNotifying) :
    ∃ lists state, notifyComplete wiring w l =
        { w with
          lists := lists
          subscriber := Function.update w.subscriber s { w.subscriber s with state := state }
          loop := Function.update w.loop l .idle } ∧
      (state = .notifyPending ∨ state = .idle ∧
        (w.point (wiring.pointOf s)).seqNum = (w.subscriber s).seqNumber) := by
  have hs := h.consistent s
  simp only [Consistent, view, hstate] at hs
  simp only [notifyComplete, hphase, processSubscriptionEvent, hstate, inNotifyNotifying]
  rcases moved_transitionToSubscribed wiring h.lists (p := wiring.pointOf s) (.inr hs.1) with
    ⟨hseq, hmoved⟩ | hmoved
  · rw [hmoved.fields]
    exact ⟨_, _, rfl, .inr ⟨rfl, hseq⟩⟩
  · rw [hmoved.fields]
    exact ⟨_, _, rfl, .inl rfl⟩

end ColonyPico.Dm.SubscriberSteps
