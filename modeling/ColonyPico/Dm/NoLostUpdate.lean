import ColonyPico.Dm.ChangeNotification
import Mathlib.Order.Nat

/-!
No subscriber misses the last change of its model point, whatever the order of the
writers' and the event loops' steps.
-/

namespace ColonyPico.Dm.NoLostUpdate

open ColonyPico.Dm.ModelPoint
open ColonyPico.Dm.ChangeNotification
open ColonyPico.Foundations.IntrusiveLists

variable {π ℓ σ α : Type}

/-- The subscriber that an event loop works on. -/
def subject : Phase π σ → Option σ
  | .idle => none
  | .popped s => some s
  | .notifying s _ _ => some s

/-- What the invariant says about one subscriber is about this part of the world. -/
structure View (π ℓ σ : Type) where
  subscriber : Subscriber π
  owner : Option (π ⊕ ℓ)
  phase : Phase π σ
  seqNum : Nat
  changes : Nat
  basis : Basis

/-- The sequence number of a point after some changes. -/
def seqNumAfter (changes : Nat) : Nat :=
  advanceSequenceNumber^[changes] (sequenceNumberUnknown + 1)

/-- A subscriber's state, the list it is in and what its loop does fit together. -/
def Consistent (wiring : Wiring π ℓ σ α) (s : σ) (v : View π ℓ σ) : Prop :=
  match v.subscriber.state with
  | .unsubscribed => v.owner = none ∧ subject v.phase ≠ some s
  | .idle =>
      v.owner = some (.inl (wiring.pointOf s)) ∧ subject v.phase ≠ some s ∧
        v.subscriber.modelPoint = some (wiring.pointOf s) ∧ v.subscriber.seqNumber = v.seqNum ∧
        (v.basis = .calledBack v.changes ∨ v.basis = .presented v.seqNum)
  | .notifyPending =>
      v.subscriber.modelPoint = some (wiring.pointOf s) ∧
        (v.owner = some (.inr (wiring.loopOf s)) ∧ subject v.phase ≠ some s ∨
          v.owner = none ∧ v.phase = .popped s)
  | .notifyNotifying =>
      v.owner = none ∧ v.subscriber.modelPoint = some (wiring.pointOf s) ∧
        ∃ since, v.phase = .notifying s (wiring.pointOf s) since ∧ since ≤ v.changes ∧
          (v.basis = .calledBack since ∧ v.subscriber.seqNumber = seqNumAfter since ∨
            v.basis = .presented v.subscriber.seqNumber)
  | .notifyPendingDetach =>
      v.owner = none ∧
        ∃ since, v.phase = .notifying s (wiring.pointOf s) since ∧ since ≤ v.changes

variable {wiring : Wiring π ℓ σ α}

/-- A loop that works on other subscribers may do so in any phase. -/
theorem consistent_of_phase {s : σ} {v : View π ℓ σ} (h : Consistent wiring s v)
    (hsubject : subject v.phase ≠ some s) {phase : Phase π σ} (hsubject' : subject phase ≠ some s) :
    Consistent wiring s { v with phase := phase } := by
  rw [Consistent] at h ⊢
  split at h
  · rename_i hstate
    simp only [hstate]
    exact ⟨h.1, hsubject'⟩
  · rename_i hstate
    simp only [hstate]
    exact ⟨h.1, hsubject', h.2.2⟩
  · rename_i hstate
    simp only [hstate]
    refine ⟨h.1, .inl ?_⟩
    rcases h.2 with hlist | ⟨-, hpopped⟩
    · exact ⟨hlist.1, hsubject'⟩
    · rw [hpopped] at hsubject
      exact absurd rfl hsubject
  · obtain ⟨-, -, since, hphase, -⟩ := h
    rw [hphase] at hsubject
    exact absurd rfl hsubject
  · obtain ⟨-, since, hphase, -⟩ := h
    rw [hphase] at hsubject
    exact absurd rfl hsubject

/-- A change of the point matters to its idle subscribers only. -/
theorem consistent_of_change {s : σ} {v : View π ℓ σ} (h : Consistent wiring s v)
    (hidle : v.subscriber.state ≠ .idle) (seqNum : Nat) {changes : Nat}
    (hle : v.changes ≤ changes) :
    Consistent wiring s { v with seqNum := seqNum, changes := changes } := by
  rw [Consistent] at h ⊢
  split at h
  · rename_i hstate
    simp only [hstate]
    exact h
  · rename_i hstate
    exact absurd hstate hidle
  · rename_i hstate
    simp only [hstate]
    exact h
  · rename_i hstate
    simp only [hstate]
    obtain ⟨howner, hmodel, since, hphase, hsince, hbasis⟩ := h
    exact ⟨howner, hmodel, since, hphase, hsince.trans hle, hbasis⟩
  · rename_i hstate
    simp only [hstate]
    obtain ⟨howner, since, hphase, hsince⟩ := h
    exact ⟨howner, since, hphase, hsince.trans hle⟩

theorem pending_of_popped {s : σ} {v : View π ℓ σ} (h : Consistent wiring s v)
    (hphase : v.phase = .popped s) :
    v.subscriber.state = .notifyPending ∧ v.owner = none ∧
      v.subscriber.modelPoint = some (wiring.pointOf s) := by
  rw [Consistent] at h
  split at h
  · exact absurd (by rw [hphase]; rfl) h.2
  · exact absurd (by rw [hphase]; rfl) h.2.1
  · rename_i hstate
    rcases h.2 with hlist | hpopped
    · exact absurd (by rw [hphase]; rfl) hlist.2
    · exact ⟨hstate, hpopped.1, h.1⟩
  · obtain ⟨-, -, since, hnotifying, -⟩ := h
    rw [hphase] at hnotifying
    cases hnotifying
  · obtain ⟨-, since, hnotifying, -⟩ := h
    rw [hphase] at hnotifying
    cases hnotifying

/-- A subscriber is in the list of a point only when it is idle. -/
theorem idle_of_owner {s : σ} {p : π} {v : View π ℓ σ} (h : Consistent wiring s v)
    (howner : v.owner = some (.inl p)) :
    v.subscriber.state = .idle ∧ wiring.pointOf s = p ∧ subject v.phase ≠ some s ∧
      v.subscriber.modelPoint = some (wiring.pointOf s) := by
  rw [Consistent] at h
  rw [howner] at h
  split at h
  · cases h.1
  · rename_i hstate
    obtain ⟨hpoint, hsubject, hmodel, -⟩ := h
    cases hpoint
    exact ⟨hstate, rfl, hsubject, hmodel⟩
  · rcases h.2 with ⟨hloop, -⟩ | ⟨hnone, -⟩
    · cases hloop
    · cases hnone
  · cases h.1
  · cases h.1

/-- A subscriber is in the list of a loop only when it is pending. -/
theorem pending_of_owner {s : σ} {l : ℓ} {v : View π ℓ σ} (h : Consistent wiring s v)
    (howner : v.owner = some (.inr l)) :
    v.subscriber.state = .notifyPending ∧ wiring.loopOf s = l ∧
      v.subscriber.modelPoint = some (wiring.pointOf s) := by
  rw [Consistent] at h
  rw [howner] at h
  split at h
  · cases h.1
  · cases h.1
  · rename_i hstate
    rcases h.2 with ⟨hloop, -⟩ | ⟨hnone, -⟩
    · cases hloop
      exact ⟨hstate, rfl, h.1⟩
    · cases hnone
  · cases h.1
  · cases h.1

def view (wiring : Wiring π ℓ σ α) (w : World π ℓ σ α) (s : σ) : View π ℓ σ :=
  { subscriber := w.subscriber s
    owner := w.lists.owner s
    phase := w.loop (wiring.loopOf s)
    seqNum := (w.point (wiring.pointOf s)).seqNum
    changes := w.changes (wiring.pointOf s)
    basis := w.basis s }

structure Inv (wiring : Wiring π ℓ σ α) (w : World π ℓ σ α) : Prop where
  lists : w.lists.WellFormed
  noError : w.lists.error = false ∧ w.fatalError = false
  seqNum : ∀ p, (w.point p).seqNum = seqNumAfter (w.changes p)
  loops : ∀ l s, subject (w.loop l) = some s → wiring.loopOf s = l
  consistent : ∀ s, Consistent wiring s (view wiring w s)

section Moved

variable [DecidableEq σ]

/-- One subscriber has changed its state and its list. -/
structure Moved (w w' : World π ℓ σ α) (s : σ) (state : SubscriptionState)
    (owner : Option (π ⊕ ℓ)) : Prop where
  fields : w' =
    { w with
      lists := w'.lists
      subscriber := Function.update w.subscriber s { w.subscriber s with state := state } }
  lists : w'.lists.WellFormed
  error : w'.lists.error = w.lists.error
  owner : w'.lists.owner = Function.update w.lists.owner s owner

theorem moved_setState {w : World π ℓ σ α} (h : w.lists.WellFormed) (s : σ)
    (state : SubscriptionState) : Moved w (w.setState s state) s state (w.lists.owner s) :=
  ⟨rfl, h, rfl, (Function.update_eq_self s _).symm⟩

/-- A list operation comes before the change of the state. -/
theorem moved_of_lists {w w' : World π ℓ σ α} {lists : Lists (π ⊕ ℓ) σ} {s : σ}
    {state : SubscriptionState} {between owner : Option (π ⊕ ℓ)}
    (herror : lists.error = w.lists.error)
    (howner : lists.owner = Function.update w.lists.owner s between)
    (h : Moved { w with lists := lists } w' s state owner) : Moved w w' s state owner :=
  ⟨h.fields, h.lists, h.error.trans herror, by rw [h.owner, howner, Function.update_idem]⟩

/-- The invariant of all subscribers but one. -/
structure InvExcept (wiring : Wiring π ℓ σ α) (w : World π ℓ σ α) (s : σ) : Prop where
  lists : w.lists.WellFormed
  noError : w.lists.error = false ∧ w.fatalError = false
  seqNum : ∀ p, (w.point p).seqNum = seqNumAfter (w.changes p)
  loops : ∀ l s, subject (w.loop l) = some s → wiring.loopOf s = l
  consistent : ∀ s', s' ≠ s → Consistent wiring s' (view wiring w s')

omit [DecidableEq σ] in
theorem Inv.except {w : World π ℓ σ α} (h : Inv wiring w) (s : σ) : InvExcept wiring w s :=
  ⟨h.lists, h.noError, h.seqNum, h.loops, fun s' _ => h.consistent s'⟩

theorem InvExcept.inv {w : World π ℓ σ α} {s : σ} (h : InvExcept wiring w s)
    (hs : Consistent wiring s (view wiring w s)) : Inv wiring w := by
  refine ⟨h.lists, h.noError, h.seqNum, h.loops, fun s' => ?_⟩
  by_cases hne : s' = s
  · exact hne ▸ hs
  · exact h.consistent s' hne

/-- Moving a subscriber keeps the invariant of the others. -/
theorem invExcept_of_moved {w w' : World π ℓ σ α} {s : σ} (h : InvExcept wiring w s)
    {state : SubscriptionState} {owner : Option (π ⊕ ℓ)} (hmoved : Moved w w' s state owner) :
    InvExcept wiring w' s := by
  have hfields := hmoved.fields
  refine ⟨hmoved.lists, ?_, ?_, ?_, fun s' hne => ?_⟩
  · rw [hmoved.error, hfields]
    exact h.noError
  · rw [hfields]
    exact h.seqNum
  · rw [hfields]
    exact h.loops
  · have hs := h.consistent s' hne
    rw [view, hmoved.owner, hfields]
    simp only [Function.update_of_ne hne]
    exact hs

theorem view_of_moved {w w' : World π ℓ σ α} {s : σ} {state : SubscriptionState}
    {owner : Option (π ⊕ ℓ)} (hmoved : Moved w w' s state owner) :
    view wiring w' s =
      { view wiring w s with
        subscriber := { w.subscriber s with state := state }
        owner := owner } := by
  rw [view, hmoved.owner, hmoved.fields]
  simp only [Function.update_self]
  rfl

theorem inv_of_moved {w w' : World π ℓ σ α} {s : σ} (h : InvExcept wiring w s)
    {state : SubscriptionState} {owner : Option (π ⊕ ℓ)} (hmoved : Moved w w' s state owner)
    (hs : Consistent wiring s
      { view wiring w s with
        subscriber := { w.subscriber s with state := state }
        owner := owner }) : Inv wiring w' :=
  (invExcept_of_moved h hmoved).inv (by rw [view_of_moved hmoved]; exact hs)

/-- Taking a subscriber out of its list does not concern the others. -/
theorem invExcept_remove [DecidableEq π] [DecidableEq ℓ] {w : World π ℓ σ α} {s : σ}
    (h : InvExcept wiring w s) {i : π ⊕ ℓ} (howner : w.lists.owner s = some i) :
    InvExcept wiring { w with lists := w.lists.remove i s } s ∧
      (w.lists.remove i s).owner s = none := by
  obtain ⟨hwf, herror, hremoved⟩ := Lists.remove_of_owned h.lists howner
  refine ⟨⟨hwf, ⟨herror.trans h.noError.1, h.noError.2⟩, h.seqNum, h.loops, fun s' hne => ?_⟩, ?_⟩
  · have hs := h.consistent s' hne
    rw [view]
    simp only [hremoved, Function.update_of_ne hne]
    exact hs
  · rw [hremoved, Function.update_self]

theorem invExcept_subscriber {w : World π ℓ σ α} {s : σ} (h : InvExcept wiring w s)
    (subscriber : Subscriber π) :
    InvExcept wiring { w with subscriber := Function.update w.subscriber s subscriber } s := by
  refine ⟨h.lists, h.noError, h.seqNum, h.loops, fun s' hne => ?_⟩
  have hs := h.consistent s' hne
  rw [view]
  simp only [Function.update_of_ne hne]
  exact hs

theorem invExcept_basis {w : World π ℓ σ α} {s : σ} (h : InvExcept wiring w s)
    (basis : Basis) :
    InvExcept wiring { w with basis := Function.update w.basis s basis } s := by
  refine ⟨h.lists, h.noError, h.seqNum, h.loops, fun s' hne => ?_⟩
  have hs := h.consistent s' hne
  rw [view]
  simp only [Function.update_of_ne hne]
  exact hs

omit [DecidableEq σ] in
/-- A loop that works on a subscriber or on none does not concern the others. -/
theorem invExcept_loop [DecidableEq ℓ] {w : World π ℓ σ α} {s : σ} (h : InvExcept wiring w s)
    (phase : Phase π σ)
    (hbefore : ∀ s', subject (w.loop (wiring.loopOf s)) = some s' → s' = s)
    (hafter : ∀ s', subject phase = some s' → s' = s) :
    InvExcept wiring { w with loop := Function.update w.loop (wiring.loopOf s) phase } s := by
  refine ⟨h.lists, h.noError, h.seqNum, fun l s' hsubject => ?_, fun s' hne => ?_⟩
  · simp only at hsubject
    by_cases hl : l = wiring.loopOf s
    · subst hl
      rw [Function.update_self] at hsubject
      rw [hafter s' hsubject]
    · rw [Function.update_of_ne hl] at hsubject
      exact h.loops l s' hsubject
  · have hs := h.consistent s' hne
    by_cases hl : wiring.loopOf s' = wiring.loopOf s
    · have hphase := consistent_of_phase hs
        (fun hsubject => hne (hbefore s' (by rw [← hl]; exact hsubject)))
        (fun hsubject => hne (hafter s' hsubject))
      rw [view]
      simp only [hl, Function.update_self]
      exact hphase
    · rw [view]
      simp only [Function.update_of_ne hl]
      exact hs

end Moved

variable [DecidableEq π] [DecidableEq ℓ] [DecidableEq σ]

theorem moved_transitionToNotifyPending (wiring : Wiring π ℓ σ α) {w : World π ℓ σ α}
    (h : w.lists.WellFormed) {s : σ} (hfree : w.lists.owner s = none) :
    Moved w (transitionToNotifyPending wiring w s) s .notifyPending
      (some (.inr (wiring.loopOf s))) := by
  obtain ⟨hwf, herror, howner⟩ := Lists.put_of_free h hfree (.inr (wiring.loopOf s))
  exact ⟨rfl, hwf, herror, howner⟩

theorem moved_transitionToSubscribed (wiring : Wiring π ℓ σ α) {w : World π ℓ σ α}
    (h : w.lists.WellFormed) {p : π} {s : σ}
    (howner : w.lists.owner s = some (.inl p) ∨ w.lists.owner s = none) :
    ((w.point p).seqNum = (w.subscriber s).seqNumber ∧
        Moved w (transitionToSubscribed wiring w p s) s .idle (some (.inl p))) ∨
      Moved w (transitionToSubscribed wiring w p s) s .notifyPending
        (some (.inr (wiring.loopOf s))) := by
  obtain ⟨hwf, herror, hremoved⟩ := Lists.remove_owner h howner
  have hfree : (w.lists.remove (.inl p) s).owner s = none := by
    rw [hremoved, Function.update_self]
  rw [transitionToSubscribed]
  simp only
  split_ifs with hseq
  · obtain ⟨hwf', herror', howner'⟩ := Lists.put_of_free hwf hfree (.inl p)
    exact .inl ⟨hseq, rfl, hwf', herror'.trans herror, by
      rw [howner', hremoved, Function.update_idem]⟩
  · exact .inr (moved_of_lists herror hremoved (moved_transitionToNotifyPending wiring hwf hfree))

/-- All subscribers in the point's list have become pending. -/
structure AllPending (wiring : Wiring π ℓ σ α) (p : π) (w w' : World π ℓ σ α) : Prop where
  fields : w' =
    { w with
      lists := w'.lists
      subscriber := fun s =>
        if w.lists.owner s = some (.inl p) then { w.subscriber s with state := .notifyPending }
        else w.subscriber s }
  lists : w'.lists.WellFormed
  error : w'.lists.error = w.lists.error
  owner : w'.lists.owner = fun s =>
    if w.lists.owner s = some (.inl p) then some (.inr (wiring.loopOf s)) else w.lists.owner s

omit [DecidableEq σ] in
theorem allPending_self {p : π} {w : World π ℓ σ α} (h : w.lists.WellFormed)
    (hnot : ∀ s, w.lists.owner s ≠ some (.inl p)) : AllPending wiring p w w := by
  refine ⟨?_, h, rfl, ?_⟩
  · simp only [hnot, if_false]
  · simp only [hnot, if_false]

theorem allPending_of_moved {p : π} {w w' w'' : World π ℓ σ α} {s : σ}
    (howner : w.lists.owner s = some (.inl p))
    (hmoved : Moved w w' s .notifyPending (some (.inr (wiring.loopOf s))))
    (h : AllPending wiring p w' w'') : AllPending wiring p w w'' := by
  have hfields := hmoved.fields
  refine ⟨?_, h.lists, h.error.trans hmoved.error, ?_⟩
  · have hall := h.fields
    rw [hmoved.owner] at hall
    rw [hall, hfields]
    simp only [World.mk.injEq, true_and, and_true]
    funext s'
    by_cases hne : s' = s
    · subst hne
      simp [howner]
    · simp [hne]
  · rw [h.owner, hmoved.owner]
    funext s'
    by_cases hne : s' = s
    · subst hne
      simp [howner]
    · simp [hne]

/-- The loop of `processChangeNotifications()` reaches the end of the point's list. -/
theorem allPending_notifySubscribers (wiring : Wiring π ℓ σ α) (p : π) (n : Nat) (w : World π ℓ σ α)
    (hwf : w.lists.WellFormed)
    (hidle : ∀ s, w.lists.owner s = some (.inl p) → (w.subscriber s).state = .idle)
    (todo : List σ) (htodo : ∀ s, w.lists.owner s = some (.inl p) → s ∈ todo)
    (hn : todo.length ≤ n) : AllPending wiring p w (notifySubscribers wiring p n w) := by
  induction n generalizing w todo with
  | zero =>
      have hnil : todo = [] := List.length_eq_zero_iff.mp (Nat.le_zero.mp hn)
      subst hnil
      exact allPending_self hwf fun s howner => by cases htodo s howner
  | succ n ih =>
      rw [notifySubscribers]
      cases hitems : w.lists.items (.inl p) with
      | nil =>
          simp only [Lists.get, hitems]
          refine allPending_self hwf fun s howner => ?_
          have hmem := (hwf.mem_iff _ _).mpr howner
          rw [hitems] at hmem
          cases hmem
      | cons s rest =>
          have howner : w.lists.owner s = some (.inl p) :=
            (hwf.mem_iff _ _).mp (by rw [hitems]; exact List.mem_cons_self)
          obtain ⟨hwf', herror, hremoved⟩ := Lists.remove_of_owned hwf howner
          have hmoved := moved_of_lists herror hremoved
            (moved_transitionToNotifyPending wiring
              (w := { w with lists := w.lists.remove (.inl p) s }) hwf'
              (by simp only [hremoved, Function.update_self]))
          simp only [Lists.get, hitems, processSubscriptionEvent, hidle s howner, inIdle]
          refine allPending_of_moved howner hmoved (ih _ hmoved.lists ?_ (todo.erase s) ?_ ?_)
          · intro s' howner'
            rw [hmoved.owner] at howner'
            by_cases hne : s' = s
            · subst hne
              simp at howner'
            · rw [Function.update_of_ne hne] at howner'
              rw [hmoved.fields]
              simp only [Function.update_of_ne hne]
              exact hidle s' howner'
          · intro s' howner'
            rw [hmoved.owner] at howner'
            by_cases hne : s' = s
            · subst hne
              simp at howner'
            · rw [Function.update_of_ne hne] at howner'
              exact (List.mem_erase_of_ne hne).mpr (htodo s' howner')
          · rw [List.length_erase_of_mem (htodo s howner)]
            omega

theorem inv_processChangeNotifications {w : World π ℓ σ α} (h : Inv wiring w) (p : π) :
    Inv wiring (processChangeNotifications wiring w p) := by
  rw [processChangeNotifications]
  have hall := allPending_notifySubscribers wiring p
    (w.lists.items (.inl p)).length
    { w with
      point := Function.update w.point p
        { w.point p with seqNum := advanceSequenceNumber (w.point p).seqNum }
      changes := Function.update w.changes p (w.changes p + 1) }
    h.lists (fun s howner => (idle_of_owner (h.consistent s) howner).1)
    (w.lists.items (.inl p)) (fun s howner => (h.lists.mem_iff _ _).mpr howner) le_rfl
  have hfields := hall.fields
  refine ⟨hall.lists, ?_, fun p' => ?_, ?_, fun s => ?_⟩
  · rw [hall.error, hfields]
    exact h.noError
  · rw [hfields]
    by_cases hp : p' = p
    · subst hp
      simp only [Function.update_self]
      rw [seqNumAfter, Function.iterate_succ_apply', ← seqNumAfter, h.seqNum]
    · simp only [Function.update_of_ne hp]
      exact h.seqNum p'
  · rw [hfields]
    exact h.loops
  · have hs := h.consistent s
    by_cases howner : w.lists.owner s = some (.inl p)
    · obtain ⟨-, rfl, hsubject, hmodel⟩ := idle_of_owner hs howner
      rw [view, hall.owner, hfields]
      simp only [howner, if_true, Consistent]
      exact ⟨hmodel, .inl ⟨trivial, hsubject⟩⟩
    · rw [view, hall.owner, hfields]
      simp only [howner, if_false]
      by_cases hp : wiring.pointOf s = p
      · refine consistent_of_change hs (fun hidle => ?_) _ ?_
        · simp only [Consistent, hidle] at hs
          exact howner (hp ▸ hs.1)
        · simp [view, hp]
      · simp only [Function.update_of_ne hp]
        exact hs

theorem inv_change {w : World π ℓ σ α} (h : Inv wiring w) (p : π) (op : Write α) :
    Inv wiring (change wiring w p op) := by
  have hseq := seqNum_apply (wiring.isDataEqual p) (wiring.invalidData p) (w.point p) op
  have hwritten : Inv wiring
      { w with
        point := Function.update w.point p
          (op.apply (wiring.isDataEqual p) (wiring.invalidData p) (w.point p)).1 } := by
    have hsame : ∀ p', (Function.update w.point p
        (op.apply (wiring.isDataEqual p) (wiring.invalidData p) (w.point p)).1 p').seqNum =
          (w.point p').seqNum := by
      intro p'
      by_cases hp : p' = p
      · subst hp
        rw [Function.update_self, hseq]
      · rw [Function.update_of_ne hp]
    refine ⟨h.lists, h.noError, fun p' => (hsame p').trans (h.seqNum p'), h.loops, fun s => ?_⟩
    rw [view]
    simp only [hsame]
    exact h.consistent s
  simp only [change]
  split_ifs
  · exact inv_processChangeNotifications hwritten p
  · exact hwritten

/-- Subscribing ends in the point's list with the sequence number of the point, or
pending. -/
theorem inv_transitionToSubscribed {w : World π ℓ σ α} {s : σ} (h : InvExcept wiring w s)
    (howner : w.lists.owner s = some (.inl (wiring.pointOf s)) ∨ w.lists.owner s = none)
    (hsubject : subject (w.loop (wiring.loopOf s)) ≠ some s)
    (hmodel : (w.subscriber s).modelPoint = some (wiring.pointOf s))
    (hbasis : w.basis s = .presented (w.subscriber s).seqNumber) :
    Inv wiring (transitionToSubscribed wiring w (wiring.pointOf s) s) := by
  rcases moved_transitionToSubscribed wiring h.lists howner with
    ⟨hseq, hmoved⟩ | hmoved
  · have hbasis' : w.basis s = .presented (w.point (wiring.pointOf s)).seqNum := by
      rw [hseq, hbasis]
    exact inv_of_moved h hmoved ⟨rfl, hsubject, hmodel, hseq.symm, .inr hbasis'⟩
  · exact inv_of_moved h hmoved ⟨hmodel, .inl ⟨rfl, hsubject⟩⟩

omit [DecidableEq π] [DecidableEq ℓ] [DecidableEq σ] in
/-- A subscriber that is pending and not popped is in its loop's list. -/
theorem owner_of_pending {s : σ} {v : View π ℓ σ} (h : Consistent wiring s v)
    (hstate : v.subscriber.state = .notifyPending) (hphase : v.phase ≠ .popped s) :
    v.owner = some (.inr (wiring.loopOf s)) ∧ subject v.phase ≠ some s := by
  simp only [Consistent, hstate] at h
  rcases h.2 with hlist | hpopped
  · exact hlist
  · exact absurd hpopped.2 hphase

/-- `eATTACH`, when the arguments of the attach are already stored. -/
theorem inv_attachEvent {w : World π ℓ σ α} {s : σ} (h : InvExcept wiring w s)
    (subscriber : Subscriber π) (basis : Basis)
    (hs : Consistent wiring s
      { view wiring w s with subscriber := subscriber, basis := basis })
    (hstate : subscriber.state = (w.subscriber s).state)
    (hphase : w.loop (wiring.loopOf s) ≠ .popped s)
    (hmodel : (w.subscriber s).modelPoint = some (wiring.pointOf s))
    (hbasis : w.basis s = .presented (w.subscriber s).seqNumber) :
    Inv wiring (processSubscriptionEvent wiring w (wiring.pointOf s) s .attach) := by
  rw [processSubscriptionEvent]
  cases hcase : (w.subscriber s).state with
  | unsubscribed =>
      simp only [Consistent, hstate, hcase] at hs
      exact inv_transitionToSubscribed h (.inr hs.1) hs.2 hmodel hbasis
  | idle =>
      simp only [Consistent, hstate, hcase] at hs
      exact inv_transitionToSubscribed h (.inl hs.1) hs.2.1 hmodel hbasis
  | notifyPending =>
      obtain ⟨howner, hsubject⟩ := owner_of_pending hs (hstate.trans hcase) hphase
      obtain ⟨hexcept, hfree⟩ := invExcept_remove h howner
      exact inv_transitionToSubscribed hexcept (.inr hfree) hsubject hmodel hbasis
  | notifyNotifying =>
      simp only [Consistent, hstate, hcase] at hs
      obtain ⟨howner, -, since, hnotifying, hsince, -⟩ := hs
      refine h.inv ?_
      simp only [Consistent, view, hcase]
      exact ⟨howner, hmodel, since, hnotifying, hsince, .inr hbasis⟩
  | notifyPendingDetach =>
      simp only [Consistent, hstate, hcase] at hs
      obtain ⟨howner, since, hnotifying, hsince⟩ := hs
      exact inv_of_moved h (moved_setState h.lists s .notifyNotifying)
        ⟨howner, hmodel, since, hnotifying, hsince, .inr hbasis⟩

theorem inv_attach {w : World π ℓ σ α} (h : Inv wiring w) (s : σ) (initialSeqNumber : Nat)
    (hphase : w.loop (wiring.loopOf s) ≠ .popped s) :
    Inv wiring (attachSubscriber wiring w (wiring.pointOf s) s initialSeqNumber) :=
  inv_attachEvent (invExcept_basis (invExcept_subscriber (h.except s) _) _) (w.subscriber s)
    (w.basis s) (h.consistent s) (by simp) hphase (by simp) (by simp)

omit [DecidableEq π] [DecidableEq ℓ] in
/-- The end of `detachSubscriber()`, which clears the model point. -/
theorem inv_clearModelPoint {w : World π ℓ σ α} {s : σ} (h : InvExcept wiring w s)
    (hs : Consistent wiring s
      { view wiring w s with subscriber := { w.subscriber s with modelPoint := none } }) :
    Inv wiring
      { w with
        subscriber := Function.update w.subscriber s
          { w.subscriber s with modelPoint := none } } := by
  refine (invExcept_subscriber h _).inv ?_
  rw [view]
  simp only [Function.update_self]
  exact hs

theorem inv_detach {w : World π ℓ σ α} (h : Inv wiring w) (s : σ)
    (hphase : w.loop (wiring.loopOf s) ≠ .popped s) :
    Inv wiring (detachSubscriber wiring w (wiring.pointOf s) s) := by
  have hs := h.consistent s
  rw [detachSubscriber, processSubscriptionEvent]
  cases hcase : (w.subscriber s).state with
  | unsubscribed =>
      simp only [Consistent, view, hcase] at hs
      refine inv_clearModelPoint (h.except s) ?_
      simp only [Consistent, view, inUnsubscribed, hcase]
      exact hs
  | idle =>
      simp only [Consistent, view, hcase] at hs
      obtain ⟨hexcept, hfree⟩ := invExcept_remove (h.except s) hs.1
      have hmoved := moved_setState hexcept.lists s .unsubscribed
      refine inv_clearModelPoint (invExcept_of_moved hexcept hmoved) ?_
      simp only [Consistent, view, inIdle, World.setState, Function.update_self]
      exact ⟨hfree, hs.2.1⟩
  | notifyPending =>
      obtain ⟨howner, hsubject⟩ := owner_of_pending hs hcase hphase
      obtain ⟨hexcept, hfree⟩ := invExcept_remove (h.except s) howner
      have hmoved := moved_setState hexcept.lists s .unsubscribed
      refine inv_clearModelPoint (invExcept_of_moved hexcept hmoved) ?_
      simp only [Consistent, view, inNotifyPending, removePendingChangingNotification,
        World.setState, Function.update_self]
      exact ⟨hfree, hsubject⟩
  | notifyNotifying =>
      simp only [Consistent, view, hcase] at hs
      obtain ⟨howner, -, since, hnotifying, hsince, -⟩ := hs
      have hmoved := moved_setState h.lists s .notifyPendingDetach
      refine inv_clearModelPoint (invExcept_of_moved (h.except s) hmoved) ?_
      simp only [Consistent, view, inNotifyNotifying, World.setState, Function.update_self]
      exact ⟨howner, since, hnotifying, hsince⟩
  | notifyPendingDetach =>
      simp only [Consistent, view, hcase] at hs
      refine inv_clearModelPoint (h.except s) ?_
      simp only [Consistent, view, inNotifyPendingDetach, hcase]
      exact hs

theorem inv_popPending {w : World π ℓ σ α} (h : Inv wiring w) (l : ℓ) (hidle : w.loop l = .idle) :
    Inv wiring (popPending w l) := by
  rw [popPending, hidle]
  cases hitems : w.lists.items (.inr l) with
  | nil =>
      simp only [Lists.get, hitems]
      exact h
  | cons s rest =>
      have howner : w.lists.owner s = some (.inr l) :=
        (h.lists.mem_iff _ _).mp (by rw [hitems]; exact List.mem_cons_self)
      obtain ⟨hstate, rfl, hmodel⟩ := pending_of_owner (h.consistent s) howner
      obtain ⟨hexcept, hfree⟩ := invExcept_remove (h.except s) howner
      simp only [Lists.get, hitems]
      refine (invExcept_loop hexcept (.popped s) ?_ ?_).inv ?_
      · intro s' hsubject
        simp only [hidle] at hsubject
        cases hsubject
      · intro s' hsubject
        exact (Option.some.inj hsubject).symm
      · simp only [view, Function.update_self] at hstate hmodel ⊢
        simp only [Consistent, hstate]
        exact ⟨hmodel, .inr ⟨hfree, trivial⟩⟩

theorem inv_beginCallback {w : World π ℓ σ α} (h : Inv wiring w) {l : ℓ} {s : σ}
    (hphase : w.loop l = .popped s) : Inv wiring (beginCallback wiring w l) := by
  obtain rfl : wiring.loopOf s = l := h.loops l s (by rw [hphase]; rfl)
  obtain ⟨hstate, howner, hmodel⟩ := pending_of_popped (h.consistent s) hphase
  simp only [view] at hstate howner hmodel
  simp only [beginCallback, hphase, hmodel, processSubscriptionEvent, hstate, inNotifyPending]
  refine (invExcept_basis (invExcept_loop (invExcept_subscriber (h.except s) _)
    (.notifying s (wiring.pointOf s) (w.changes (wiring.pointOf s))) ?_ ?_) _).inv ?_
  · intro s' hsubject
    simp only [hphase] at hsubject
    exact (Option.some.inj hsubject).symm
  · intro s' hsubject
    exact (Option.some.inj hsubject).symm
  · simp only [Consistent, view, Function.update_self]
    exact ⟨howner, trivial, _, rfl, le_rfl, .inl ⟨rfl, h.seqNum _⟩⟩

omit [DecidableEq π] [DecidableEq ℓ] [DecidableEq σ] in
/-- Fewer than a whole period of changes show in the sequence number. -/
theorem eq_of_seqNumAfter_eq {since changes : Nat} (hle : since ≤ changes)
    (hlt : changes < since + 65535) (heq : seqNumAfter changes = seqNumAfter since) :
    changes = since := by
  have hfirst : IsSequenceNumber (sequenceNumberUnknown + 1) := ⟨by decide, by decide⟩
  rw [seqNumAfter, seqNumAfter, iterate_advance hfirst, iterate_advance hfirst] at heq
  omega

omit [DecidableEq π] in
/-- A loop that has worked on one subscriber goes on when that one is in its place. -/
theorem inv_of_completed {w w' : World π ℓ σ α} {s : σ} (h : InvExcept wiring w s)
    (hsubject : subject (w.loop (wiring.loopOf s)) = some s) {state : SubscriptionState}
    {owner : Option (π ⊕ ℓ)} (hmoved : Moved w w' s state owner)
    (hconsistent : Consistent wiring s
      { view wiring w s with
        subscriber := { w.subscriber s with state := state }
        owner := owner
        phase := .idle }) :
    Inv wiring { w' with loop := Function.update w.loop (wiring.loopOf s) .idle } := by
  have hsame : w'.loop = w.loop := by rw [hmoved.fields]
  have hview : view wiring
      { w' with loop := Function.update w'.loop (wiring.loopOf s) .idle } s =
        { view wiring w' s with phase := .idle } := by simp [view]
  rw [← hsame]
  refine (invExcept_loop (invExcept_of_moved h hmoved) .idle ?_ ?_).inv ?_
  · intro s' hsubject'
    rw [hsame, hsubject] at hsubject'
    exact (Option.some.inj hsubject').symm
  · intro s' hsubject'
    cases hsubject'
  · rw [hview, view_of_moved hmoved]
    exact hconsistent

theorem inv_notifyComplete {w : World π ℓ σ α} (h : Inv wiring w) {l : ℓ} {s : σ} {p : π}
    {since : Nat} (hphase : w.loop l = .notifying s p since)
    (hlt : w.basis s = .calledBack since → w.changes p < since + 65535) :
    Inv wiring (notifyComplete wiring w l) := by
  obtain rfl : wiring.loopOf s = l := h.loops l s (by rw [hphase]; rfl)
  have hs := h.consistent s
  have hsubject : subject (w.loop (wiring.loopOf s)) = some s := by
    rw [hphase]
    rfl
  simp only [notifyComplete, hphase, processSubscriptionEvent]
  have hnotidle : subject (.idle : Phase π σ) ≠ some s := by simp [subject]
  cases hcase : (w.subscriber s).state with
  | unsubscribed =>
      simp only [Consistent, view, hcase, hphase] at hs
      exact absurd rfl hs.2
  | idle =>
      simp only [Consistent, view, hcase, hphase] at hs
      exact absurd rfl hs.2.1
  | notifyPending =>
      simp only [Consistent, view, hcase, hphase] at hs
      rcases hs.2 with ⟨-, hsubject⟩ | ⟨-, hpopped⟩
      · exact absurd rfl hsubject
      · cases hpopped
  | notifyNotifying =>
      simp only [Consistent, view, hcase, hphase] at hs
      obtain ⟨howner, hmodel, since', hnotifying, hle, hbasis⟩ := hs
      cases hnotifying
      rcases moved_transitionToSubscribed wiring h.lists
          (p := wiring.pointOf s) (.inr howner) with ⟨hseq, hmoved⟩ | hmoved
      · refine inv_of_completed (h.except s) hsubject hmoved
          ⟨rfl, hnotidle, hmodel, hseq.symm, ?_⟩
        rcases hbasis with ⟨hcalled, hnumber⟩ | hpresented
        · have heq := eq_of_seqNumAfter_eq hle (hlt hcalled)
            ((h.seqNum (wiring.pointOf s)).symm.trans (hseq.trans hnumber))
          exact .inl (by simp only [view, hcalled, heq])
        · exact .inr (by simp only [view, hpresented, hseq])
      · exact inv_of_completed (h.except s) hsubject hmoved ⟨hmodel, .inl ⟨rfl, hnotidle⟩⟩
  | notifyPendingDetach =>
      simp only [Consistent, view, hcase, hphase] at hs
      exact inv_of_completed (h.except s) hsubject (moved_setState h.lists s .unsubscribed)
        ⟨hs.1, hnotidle⟩

/-- The steps that the threads take: a subscriber is attached and detached by its own
loop, which is then not about to call back, and fewer than 65535 changes of a point
happen during a callback. -/
def Admits (wiring : Wiring π ℓ σ α) (w : World π ℓ σ α) : Step π ℓ σ α → Prop
  | .change _ _ => True
  | .attach s _ => ∀ s', w.loop (wiring.loopOf s) ≠ .popped s'
  | .detach s => ∀ s', w.loop (wiring.loopOf s) ≠ .popped s'
  | .popPending l => w.loop l = .idle
  | .beginCallback l => ∃ s, w.loop l = .popped s
  | .notifyComplete l =>
      ∃ s p since, w.loop l = .notifying s p since ∧ w.changes p < since + 65535

theorem inv_step {w : World π ℓ σ α} (h : Inv wiring w) (st : Step π ℓ σ α)
    (hadmits : Admits wiring w st) : Inv wiring (step wiring w st) := by
  cases st with
  | change p op => exact inv_change h p op
  | attach s initialSeqNumber => exact inv_attach h s initialSeqNumber (hadmits s)
  | detach s => exact inv_detach h s (hadmits s)
  | popPending l => exact inv_popPending h l hadmits
  | beginCallback l =>
      obtain ⟨s, hphase⟩ := hadmits
      exact inv_beginCallback h hphase
  | notifyComplete l =>
      obtain ⟨s, p, since, hphase, hlt⟩ := hadmits
      exact inv_notifyComplete h hphase fun _ => hlt

/-- The steps of a run are admitted one after the other. -/
def AllAdmitted (wiring : Wiring π ℓ σ α) : World π ℓ σ α → List (Step π ℓ σ α) → Prop
  | _, [] => True
  | w, st :: steps => Admits wiring w st ∧ AllAdmitted wiring (step wiring w st) steps

theorem inv_foldl {w : World π ℓ σ α} (h : Inv wiring w) (steps : List (Step π ℓ σ α))
    (hadmitted : AllAdmitted wiring w steps) : Inv wiring (steps.foldl (step wiring) w) := by
  induction steps generalizing w with
  | nil => exact h
  | cons st steps ih => exact ih (inv_step h st hadmitted.1) hadmitted.2

omit [DecidableEq π] [DecidableEq ℓ] [DecidableEq σ] in
theorem inv_init (wiring : Wiring π ℓ σ α) (data : π → α) (valid locked : π → Bool) :
    Inv wiring (World.init data valid locked) :=
  ⟨Lists.wellFormed_empty, ⟨rfl, rfl⟩, fun _ => rfl, fun l s hsubject => (by cases hsubject),
    fun s => ⟨rfl, fun hsubject => (by cases hsubject)⟩⟩

/-- The world after the steps of a run. -/
def run (wiring : Wiring π ℓ σ α) (data : π → α) (valid locked : π → Bool)
    (steps : List (Step π ℓ σ α)) : World π ℓ σ α :=
  steps.foldl (step wiring) (World.init data valid locked)

/-- A subscriber is in the list that its state asks for and in no other, and when it is
neither pending nor called back it was told of the last change of its point. -/
structure Reliable (wiring : Wiring π ℓ σ α) (w : World π ℓ σ α) (s : σ) : Prop where
  noError : w.lists.error = false ∧ w.fatalError = false
  idle : (w.subscriber s).state = .idle →
    (∀ i, (w.lists.items i).count s = if i = .inl (wiring.pointOf s) then 1 else 0) ∧
      (w.subscriber s).seqNumber = (w.point (wiring.pointOf s)).seqNum
  pending : (w.subscriber s).state = .notifyPending →
    (∀ i, (w.lists.items i).count s = if i = .inr (wiring.loopOf s) then 1 else 0) ∨
      (w.loop (wiring.loopOf s) = .popped s ∧ ∀ i, (w.lists.items i).count s = 0)
  others : (w.subscriber s).state ≠ .idle → (w.subscriber s).state ≠ .notifyPending →
    ∀ i, (w.lists.items i).count s = 0
  upToDate : (w.subscriber s).state = .idle →
    w.basis s = .calledBack (w.changes (wiring.pointOf s)) ∨
      w.basis s = .presented (w.point (wiring.pointOf s)).seqNum

theorem count_of_owner {w : World π ℓ σ α} (h : Inv wiring w) {s : σ} {j : π ⊕ ℓ}
    (howner : w.lists.owner s = some j) (i : π ⊕ ℓ) :
    (w.lists.items i).count s = if i = j then 1 else 0 := by
  rw [Lists.count_items h.lists, howner]
  simp only [Option.some.injEq, eq_comm]

theorem count_of_free {w : World π ℓ σ α} (h : Inv wiring w) {s : σ}
    (howner : w.lists.owner s = none) (i : π ⊕ ℓ) : (w.lists.items i).count s = 0 := by
  rw [Lists.count_items h.lists, howner]
  simp

theorem reliable_of_inv {w : World π ℓ σ α} (h : Inv wiring w) (s : σ) : Reliable wiring w s := by
  have hs := h.consistent s
  refine ⟨h.noError, fun hstate => ?_, fun hstate => ?_, fun hidle hpending => ?_,
    fun hstate => ?_⟩
  · simp only [Consistent, view, hstate] at hs
    exact ⟨count_of_owner h hs.1, hs.2.2.2.1⟩
  · simp only [Consistent, view, hstate] at hs
    rcases hs.2 with ⟨howner, -⟩ | ⟨hfree, hpopped⟩
    · exact .inl (count_of_owner h howner)
    · exact .inr ⟨hpopped, count_of_free h hfree⟩
  · cases hstate : (w.subscriber s).state with
    | idle => exact absurd hstate hidle
    | notifyPending => exact absurd hstate hpending
    | unsubscribed | notifyNotifying | notifyPendingDetach =>
        simp only [Consistent, view, hstate] at hs
        exact count_of_free h hs.1
  · simp only [Consistent, view, hstate] at hs
    exact hs.2.2.2.2

/-- In every run and for every subscriber: the lists agree with the states, no fatal error
is reached, and no change is lost. -/
theorem notifications_reliable (wiring : Wiring π ℓ σ α) (data : π → α) (valid locked : π → Bool)
    (steps : List (Step π ℓ σ α))
    (h : AllAdmitted wiring (World.init data valid locked) steps) (s : σ) :
    Reliable wiring (run wiring data valid locked steps) s :=
  reliable_of_inv (inv_foldl (inv_init wiring data valid locked) steps h) s

/-- One point, one loop and two subscribers. -/
def twoSubscribers : Wiring Unit Unit Bool Nat :=
  { pointOf := fun _ => ()
    loopOf := fun _ => ()
    isDataEqual := fun _ a b => a == b
    invalidData := fun _ => 0 }

/-- A write during the first callback leads to a second one. -/
def writeDuringCallback : List (Step Unit Unit Bool Nat) :=
  [.attach true sequenceNumberUnknown, .popPending (), .beginCallback (),
    .change () (.writeData 5 .noRequest), .notifyComplete (), .popPending (),
    .beginCallback (), .notifyComplete ()]

theorem notifications_reliable_two_callbacks :
    (run twoSubscribers (fun _ => 0) (fun _ => true) (fun _ => false)
        writeDuringCallback).basis true = .calledBack 1 ∧
      Reliable twoSubscribers
        (run twoSubscribers (fun _ => 0) (fun _ => true) (fun _ => false) writeDuringCallback)
        true := by
  refine ⟨by decide, notifications_reliable twoSubscribers _ _ _ writeDuringCallback ?_ true⟩
  exact ⟨fun s' => by simp [World.init], rfl, ⟨true, rfl⟩, trivial,
    ⟨true, (), 0, rfl, by decide⟩, rfl, ⟨true, rfl⟩, ⟨true, (), 1, rfl, by decide⟩, trivial⟩

/-- A subscriber that attaches with the point's own sequence number is not called back. -/
theorem notifications_reliable_presented :
    ((run twoSubscribers (fun _ => 0) (fun _ => true) (fun _ => false)
        [.attach true 1]).subscriber true).state = .idle ∧
      (run twoSubscribers (fun _ => 0) (fun _ => true) (fun _ => false)
        [.attach true 1]).loop () = .idle ∧
      ∀ n, (run twoSubscribers (fun _ => 0) (fun _ => true) (fun _ => false)
        [.attach true 1]).basis true ≠ .calledBack n :=
  ⟨by decide, by decide, fun n hn => by cases hn⟩

end ColonyPico.Dm.NoLostUpdate
