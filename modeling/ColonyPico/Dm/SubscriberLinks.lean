import ColonyPico.Dm.SubscriberSteps

/-!
The lists of the model points and of the event loops over runs of any length: worlds are
compared up to their history and up to the members of some subscribers.
-/

namespace ColonyPico.Dm.SubscriberLinks

open ColonyPico.Dm.ModelPoint
open ColonyPico.Dm.ChangeNotification
open ColonyPico.Dm.NoLostUpdate
open ColonyPico.Dm.SubscriberSteps
open ColonyPico.Foundations.IntrusiveLists

variable {π ℓ σ α : Type}

/-- The worlds differ in their history and in the members of the masked subscribers. -/
structure Agrees (masked : Set σ) (w w' : World π ℓ σ α) : Prop where
  point : w'.point = w.point
  subscriber : ∀ s ∉ masked, w'.subscriber s = w.subscriber s
  lists : w'.lists = w.lists
  loop : w'.loop = w.loop
  fatalError : w'.fatalError = w.fatalError
  changes : w'.changes = w.changes

theorem Agrees.refl (masked : Set σ) (w : World π ℓ σ α) : Agrees masked w w :=
  ⟨rfl, fun _ _ => rfl, rfl, rfl, rfl, rfl⟩

theorem Agrees.trans {masked : Set σ} {w w' w'' : World π ℓ σ α} (h : Agrees masked w w')
    (h' : Agrees masked w' w'') : Agrees masked w w'' :=
  ⟨h'.point.trans h.point, fun s hs => (h'.subscriber s hs).trans (h.subscriber s hs),
    h'.lists.trans h.lists, h'.loop.trans h.loop, h'.fatalError.trans h.fatalError,
    h'.changes.trans h.changes⟩

theorem Agrees.mono {masked masked' : Set σ} {w w' : World π ℓ σ α} (h : Agrees masked w w')
    (hsubset : masked ⊆ masked') : Agrees masked' w w' :=
  ⟨h.point, fun s hs => h.subscriber s fun hmem => hs (hsubset hmem), h.lists, h.loop,
    h.fatalError, h.changes⟩

variable [DecidableEq π] [DecidableEq ℓ] [DecidableEq σ]
variable {wiring : Wiring π ℓ σ α} {masked : Set σ} {w w' : World π ℓ σ α} {p : π} {s : σ}

omit [DecidableEq π] [DecidableEq ℓ] in
theorem agrees_subscriber (h : Agrees masked w w') {subscriber subscriber' : Subscriber π}
    (hsame : s ∉ masked → subscriber' = subscriber) :
    Agrees masked { w with subscriber := Function.update w.subscriber s subscriber }
      { w' with subscriber := Function.update w'.subscriber s subscriber' } := by
  refine ⟨h.point, fun s' hs' => ?_, h.lists, h.loop, h.fatalError, h.changes⟩
  by_cases hne : s' = s
  · subst hne
    simp only [Function.update_self]
    exact hsame hs'
  · simp only [Function.update_of_ne hne]
    exact h.subscriber s' hs'

omit [DecidableEq π] [DecidableEq ℓ] in
theorem agrees_masked (h : Agrees masked w w') (hs : s ∈ masked) (subscriber : Subscriber π)
    (basis : σ → Basis) :
    Agrees masked
      { w with subscriber := Function.update w.subscriber s subscriber, basis := basis } w' := by
  refine ⟨h.point, fun s' hs' => ?_, h.lists, h.loop, h.fatalError, h.changes⟩
  have hne : s' ≠ s := fun heq => hs' (heq ▸ hs)
  simp only [Function.update_of_ne hne]
  exact h.subscriber s' hs'

omit [DecidableEq π] [DecidableEq ℓ] in
theorem agrees_unmask (h : Agrees masked w w') (s : σ) :
    Agrees (masked \ {s}) w
      { w' with subscriber := Function.update w'.subscriber s (w.subscriber s) } := by
  refine ⟨h.point, fun s' hs' => ?_, h.lists, h.loop, h.fatalError, h.changes⟩
  by_cases hne : s' = s
  · simp only [hne, Function.update_self]
  · simp only [Function.update_of_ne hne]
    exact h.subscriber s' fun hmem => hs' ⟨hmem, hne⟩

omit [DecidableEq π] [DecidableEq ℓ] [DecidableEq σ] in
theorem agrees_lists (h : Agrees masked w w') (lists : Lists (π ⊕ ℓ) σ) :
    Agrees masked { w with lists := lists } { w' with lists := lists } :=
  ⟨h.point, h.subscriber, rfl, h.loop, h.fatalError, h.changes⟩

omit [DecidableEq π] [DecidableEq ℓ] [DecidableEq σ] in
theorem agrees_fatalError (h : Agrees masked w w') :
    Agrees masked { w with fatalError := true } { w' with fatalError := true } :=
  ⟨h.point, h.subscriber, h.lists, h.loop, rfl, h.changes⟩

omit [DecidableEq π] [DecidableEq ℓ] in
theorem agrees_setState (h : Agrees masked w w') (hs : s ∉ masked) (state : SubscriptionState) :
    Agrees masked (w.setState s state) (w'.setState s state) := by
  rw [World.setState, World.setState, h.subscriber s hs]
  exact agrees_subscriber h fun _ => rfl

theorem agrees_transitionToNotifyPending (h : Agrees masked w w') (hs : s ∉ masked) :
    Agrees masked (transitionToNotifyPending wiring w s)
      (transitionToNotifyPending wiring w' s) := by
  rw [transitionToNotifyPending, transitionToNotifyPending, h.lists]
  exact agrees_setState (agrees_lists h _) hs _

theorem agrees_transitionToSubscribed (h : Agrees masked w w') (p : π) (hs : s ∉ masked) :
    Agrees masked (transitionToSubscribed wiring w p s) (transitionToSubscribed wiring w' p s) := by
  simp only [transitionToSubscribed, congrFun h.point p, h.subscriber s hs, h.lists]
  split_ifs
  · exact agrees_lists (agrees_setState (agrees_lists h _) hs _) _
  · exact agrees_transitionToNotifyPending (agrees_lists h _) hs

theorem agrees_processSubscriptionEvent (wiring : Wiring π ℓ σ α) (h : Agrees masked w w')
    (p : π) (hs : s ∉ masked) (event : Event) :
    Agrees masked (processSubscriptionEvent wiring w p s event)
      (processSubscriptionEvent wiring w' p s event) := by
  rw [processSubscriptionEvent, processSubscriptionEvent, h.subscriber s hs]
  cases (w.subscriber s).state with
  | unsubscribed =>
      cases event with
      | attach => exact agrees_transitionToSubscribed h p hs
      | dataChanged => exact agrees_fatalError h
      | detach | notifying | notifyComplete => exact h
  | idle =>
      cases event with
      | attach => exact agrees_transitionToSubscribed h p hs
      | detach =>
          simp only [inIdle, h.lists]
          exact agrees_setState (agrees_lists h _) hs _
      | dataChanged => exact agrees_transitionToNotifyPending h hs
      | notifying | notifyComplete => exact h
  | notifyPending =>
      cases event with
      | attach =>
          simp only [inNotifyPending, removePendingChangingNotification, h.lists]
          exact agrees_transitionToSubscribed (agrees_lists h _) p hs
      | detach =>
          simp only [inNotifyPending, removePendingChangingNotification, h.lists]
          exact agrees_setState (agrees_lists h _) hs _
      | dataChanged => exact agrees_fatalError h
      | notifying =>
          simp only [inNotifyPending, congrFun h.point p, h.subscriber s hs]
          exact agrees_subscriber h (fun _ => rfl)
      | notifyComplete => exact h
  | notifyNotifying =>
      cases event with
      | attach | notifying => exact h
      | detach => exact agrees_setState h hs _
      | dataChanged => exact agrees_fatalError h
      | notifyComplete => exact agrees_transitionToSubscribed h p hs
  | notifyPendingDetach =>
      cases event with
      | attach | notifyComplete => exact agrees_setState h hs _
      | dataChanged => exact agrees_fatalError h
      | detach | notifying => exact h

theorem items_dataChanged_subset (w : World π ℓ σ α) (p : π) (s : σ) :
    (processSubscriptionEvent wiring w p s .dataChanged).lists.items (.inl p) ⊆
      w.lists.items (.inl p) := by
  rw [processSubscriptionEvent]
  cases (w.subscriber s).state with
  | idle =>
      simp only [inIdle, transitionToNotifyPending, World.setState, Lists.put]
      cases w.lists.owner s with
      | none =>
          simp only [Function.update_of_ne Sum.inl_ne_inr]
          exact List.Subset.refl _
      | some i => exact List.Subset.refl _
  | unsubscribed | notifyPending | notifyNotifying | notifyPendingDetach =>
      exact List.Subset.refl _

/-- What the loop over the subscribers of a point has still to do after one of them. -/
theorem items_after_dataChanged (w : World π ℓ σ α) (p : π) (s : σ) :
    (processSubscriptionEvent wiring { w with lists := w.lists.remove (.inl p) s } p s
      .dataChanged).lists.items (.inl p) ⊆ w.lists.items (.inl p) := by
  refine List.Subset.trans (items_dataChanged_subset _ p s) ?_
  rw [Lists.remove]
  split_ifs
  · simp only [Function.update_self]
    exact List.erase_subset
  · exact List.Subset.refl _

theorem agrees_notifySubscribers (h : Agrees masked w w') (p : π) (n : Nat)
    (hfree : ∀ s ∈ w.lists.items (.inl p), s ∉ masked) :
    Agrees masked (notifySubscribers wiring p n w) (notifySubscribers wiring p n w') := by
  induction n generalizing w w' with
  | zero => exact h
  | succ n ih =>
      rw [notifySubscribers, notifySubscribers, h.lists]
      cases hitems : w.lists.items (.inl p) with
      | nil =>
          simp only [Lists.get, hitems]
          exact h
      | cons s rest =>
          have hs := hfree s (by rw [hitems]; exact List.mem_cons_self)
          simp only [Lists.get, hitems]
          exact ih (agrees_processSubscriptionEvent wiring (agrees_lists h _) p hs _) fun s' hs' =>
            hfree s' (items_after_dataChanged w p s hs')

theorem agrees_change (wiring : Wiring π ℓ σ α) (h : Agrees masked w w') (p : π) (op : Write α)
    (hfree : ∀ s ∈ w.lists.items (.inl p), s ∉ masked) :
    Agrees masked (change wiring w p op) (change wiring w' p op) := by
  simp only [change, h.point]
  split_ifs
  · simp only [processChangeNotifications, h.lists]
    apply agrees_notifySubscribers
    · refine ⟨rfl, h.subscriber, rfl, h.loop, h.fatalError, ?_⟩
      simp only [h.changes]
    · exact hfree
  · exact ⟨rfl, h.subscriber, h.lists, h.loop, h.fatalError, h.changes⟩

theorem agrees_attachSubscriber (h : Agrees masked w w') (p : π) (hs : s ∉ masked)
    (initialSeqNumber : Nat) :
    Agrees masked (attachSubscriber wiring w p s initialSeqNumber)
      (attachSubscriber wiring w' p s initialSeqNumber) := by
  rw [attachSubscriber, attachSubscriber]
  refine agrees_processSubscriptionEvent wiring ?_ p hs _
  rw [h.subscriber s hs]
  let subscriber : Subscriber π := ⟨(w.subscriber s).state, some p, initialSeqNumber⟩
  have hupdate : Agrees masked
      { w with subscriber := Function.update w.subscriber s subscriber }
      { w' with subscriber := Function.update w'.subscriber s subscriber } :=
    agrees_subscriber h fun _ => rfl
  exact ⟨h.point, hupdate.subscriber, h.lists, h.loop, h.fatalError, h.changes⟩

theorem agrees_detachSubscriber (h : Agrees masked w w') (p : π) (hs : s ∉ masked) :
    Agrees masked (detachSubscriber wiring w p s) (detachSubscriber wiring w' p s) := by
  rw [detachSubscriber, detachSubscriber]
  have hevent := agrees_processSubscriptionEvent wiring h p hs .detach
  exact agrees_subscriber hevent fun _ => by rw [hevent.subscriber s hs]

/-- The step is about the subscriber. -/
def Concerns (w : World π ℓ σ α) (s : σ) : Step π ℓ σ α → Prop
  | .change p _ => s ∈ w.lists.items (.inl p)
  | .attach s' _ | .detach s' => s' = s
  | .popPending _ => False
  | .beginCallback l => w.loop l = .popped s
  | .notifyComplete l => ∃ p since, w.loop l = .notifying s p since

omit [DecidableEq π] [DecidableEq ℓ] [DecidableEq σ] in
theorem concerns_iff (h : Agrees masked w w') (s : σ) (st : Step π ℓ σ α) :
    Concerns w' s st ↔ Concerns w s st := by
  cases st with
  | change p op => rw [Concerns, Concerns, h.lists]
  | beginCallback l | notifyComplete l => rw [Concerns, Concerns, h.loop]
  | attach s' n | detach s' | popPending l => exact Iff.rfl

theorem agrees_step (wiring : Wiring π ℓ σ α) (h : Agrees masked w w') (st : Step π ℓ σ α)
    (hfree : ∀ s ∈ masked, ¬ Concerns w s st) :
    Agrees masked (step wiring w st) (step wiring w' st) := by
  cases st with
  | change p op => exact agrees_change wiring h p op fun s hs hmem => hfree s hmem hs
  | attach s n => exact agrees_attachSubscriber h _ (fun hs => hfree s hs rfl) n
  | detach s => exact agrees_detachSubscriber h _ fun hs => hfree s hs rfl
  | popPending l =>
      simp only [step, popPending, h.loop, h.lists]
      split
      · exact ⟨h.point, h.subscriber, rfl, rfl, h.fatalError, h.changes⟩
      · exact h
  | beginCallback l =>
      simp only [step, beginCallback, congrFun h.loop l]
      cases hphase : w.loop l with
      | idle => exact h
      | notifying s p since => exact h
      | popped s =>
          have hs : s ∉ masked := fun hs => hfree s hs hphase
          simp only [h.subscriber s hs]
          cases (w.subscriber s).modelPoint with
          | none => exact agrees_fatalError h
          | some p =>
              have hevent := agrees_processSubscriptionEvent wiring h p hs .notifying
              refine ⟨hevent.point, hevent.subscriber, hevent.lists, ?_, hevent.fatalError,
                hevent.changes⟩
              simp only [h.loop, h.changes]
  | notifyComplete l =>
      simp only [step, notifyComplete, congrFun h.loop l]
      cases hphase : w.loop l with
      | idle => exact h
      | popped s => exact h
      | notifying s p since =>
          have hs : s ∉ masked := fun hs => hfree s hs ⟨p, since, hphase⟩
          have hevent := agrees_processSubscriptionEvent wiring h p hs .notifyComplete
          refine ⟨hevent.point, hevent.subscriber, hevent.lists, ?_, hevent.fatalError,
            hevent.changes⟩
          simp only [h.loop]

/-- The invariant of the subscriptions, up to the history. -/
def Linked (wiring : Wiring π ℓ σ α) (w : World π ℓ σ α) : Prop :=
  ∃ w', Agrees ∅ w w' ∧ Inv wiring w'

/-- The loop has taken a subscriber and has not called it back yet. -/
def Phase.taken : Phase π σ → Bool
  | .popped _ => true
  | .idle | .notifying _ _ _ => false

/-- A subscriber is attached and detached by its own loop, which is then not about to call
back. -/
def Enabled (wiring : Wiring π ℓ σ α) (w : World π ℓ σ α) : Step π ℓ σ α → Prop
  | .attach s _ | .detach s => Phase.taken (w.loop (wiring.loopOf s)) = false
  | _ => True

omit [DecidableEq π] [DecidableEq ℓ] [DecidableEq σ] in
instance (wiring : Wiring π ℓ σ α) (w : World π ℓ σ α) :
    ∀ st, Decidable (Enabled wiring w st)
  | .attach s _ | .detach s =>
      inferInstanceAs (Decidable (Phase.taken (w.loop (wiring.loopOf s)) = false))
  | .change _ _ | .popPending _ | .beginCallback _ | .notifyComplete _ => .isTrue trivial

omit [DecidableEq π] [DecidableEq ℓ] [DecidableEq σ] in
theorem ne_popped_of_taken {phase : Phase π σ} (h : Phase.taken phase = false) (s : σ) :
    phase ≠ .popped s := by
  rintro rfl
  cases h

omit [DecidableEq π] [DecidableEq ℓ] in
/-- As far as the lists tell, a subscriber has presented the sequence number that it has. -/
theorem inv_presented (h : Inv wiring w) (s : σ) :
    Inv wiring
      { w with basis := Function.update w.basis s (.presented (w.subscriber s).seqNumber) } := by
  refine (invExcept_basis (h.except s) _).inv ?_
  have hs := h.consistent s
  cases hstate : (w.subscriber s).state with
  | idle =>
      simp only [Consistent, view, hstate, Function.update_self] at hs ⊢
      exact ⟨hs.1, hs.2.1, hs.2.2.1, hs.2.2.2.1, .inr (by rw [hs.2.2.2.1])⟩
  | notifyNotifying =>
      simp only [Consistent, view, hstate, Function.update_self] at hs ⊢
      obtain ⟨howner, hmodel, since, hphase, hle, -⟩ := hs
      exact ⟨howner, hmodel, since, hphase, hle, .inr trivial⟩
  | unsubscribed | notifyPending | notifyPendingDetach =>
      simp only [Consistent, view, hstate] at hs ⊢
      exact hs

omit [DecidableEq π] [DecidableEq ℓ] in
theorem subscriber_setState (w : World π ℓ σ α) {s s' : σ} (hne : s ≠ s')
    (state : SubscriptionState) : (w.setState s' state).subscriber s = w.subscriber s :=
  Function.update_of_ne hne _ _

theorem subscriber_transitionToSubscribed (wiring : Wiring π ℓ σ α) (w : World π ℓ σ α) (p : π)
    {s s' : σ} (hne : s ≠ s') :
    (transitionToSubscribed wiring w p s').subscriber s = w.subscriber s := by
  simp only [transitionToSubscribed, transitionToNotifyPending]
  split_ifs <;> exact subscriber_setState _ hne _

theorem subscriber_processSubscriptionEvent (wiring : Wiring π ℓ σ α) (w : World π ℓ σ α) (p : π)
    {s s' : σ} (hne : s ≠ s') (event : Event) :
    (processSubscriptionEvent wiring w p s' event).subscriber s = w.subscriber s := by
  rw [processSubscriptionEvent]
  cases (w.subscriber s').state with
  | unsubscribed =>
      cases event with
      | attach => exact subscriber_transitionToSubscribed wiring w p hne
      | detach | dataChanged | notifying | notifyComplete => rfl
  | idle =>
      cases event with
      | attach => exact subscriber_transitionToSubscribed wiring w p hne
      | detach | dataChanged => exact subscriber_setState _ hne _
      | notifying | notifyComplete => rfl
  | notifyPending =>
      cases event with
      | attach => exact subscriber_transitionToSubscribed wiring _ p hne
      | detach => exact subscriber_setState _ hne _
      | notifying => exact Function.update_of_ne hne _ _
      | dataChanged | notifyComplete => rfl
  | notifyNotifying =>
      cases event with
      | detach => exact subscriber_setState _ hne _
      | notifyComplete => exact subscriber_transitionToSubscribed wiring w p hne
      | attach | dataChanged | notifying => rfl
  | notifyPendingDetach =>
      cases event with
      | attach | notifyComplete => exact subscriber_setState _ hne _
      | detach | dataChanged | notifying => rfl

theorem subscriber_attachSubscriber (wiring : Wiring π ℓ σ α) (w : World π ℓ σ α) (p : π)
    {s s' : σ} (hne : s ≠ s') (initialSeqNumber : Nat) :
    (attachSubscriber wiring w p s' initialSeqNumber).subscriber s = w.subscriber s := by
  rw [attachSubscriber, subscriber_processSubscriptionEvent wiring _ p hne]
  exact Function.update_of_ne hne _ _

theorem subscriber_detachSubscriber (wiring : Wiring π ℓ σ α) (w : World π ℓ σ α) (p : π)
    {s s' : σ} (hne : s ≠ s') :
    (detachSubscriber wiring w p s').subscriber s = w.subscriber s :=
  (Function.update_of_ne hne _ _).trans (subscriber_processSubscriptionEvent wiring w p hne _)

theorem subscriber_notifySubscribers (wiring : Wiring π ℓ σ α) (p : π) (n : Nat)
    (w : World π ℓ σ α) (hs : s ∉ w.lists.items (.inl p)) :
    (notifySubscribers wiring p n w).subscriber s = w.subscriber s := by
  induction n generalizing w with
  | zero => rfl
  | succ n ih =>
      rw [notifySubscribers]
      cases hitems : w.lists.items (.inl p) with
      | nil => simp only [Lists.get, hitems]
      | cons s' rest =>
          have hne : s ≠ s' := fun heq => hs (by rw [heq, hitems]; exact List.mem_cons_self)
          simp only [Lists.get, hitems]
          exact (ih _ fun hmem => hs (items_after_dataChanged w p s' hmem)).trans
            (subscriber_processSubscriptionEvent wiring _ p hne _)

theorem subscriber_step (wiring : Wiring π ℓ σ α) (w : World π ℓ σ α) (st : Step π ℓ σ α)
    (hst : ¬ Concerns w s st) : (step wiring w st).subscriber s = w.subscriber s := by
  cases st with
  | change p op =>
      simp only [step, change, processChangeNotifications]
      split_ifs
      · exact subscriber_notifySubscribers wiring p _ _ hst
      · rfl
  | attach s' n => exact subscriber_attachSubscriber wiring w _ (fun heq => hst heq.symm) n
  | detach s' => exact subscriber_detachSubscriber wiring w _ fun heq => hst heq.symm
  | popPending l =>
      simp only [step, popPending]
      split <;> rfl
  | beginCallback l =>
      simp only [step, beginCallback]
      cases hphase : w.loop l with
      | idle | notifying s' p since => rfl
      | popped s' =>
          have hne : s ≠ s' := fun heq => hst (heq ▸ hphase)
          simp only
          cases (w.subscriber s').modelPoint with
          | none => rfl
          | some p => exact subscriber_processSubscriptionEvent wiring w p hne _
  | notifyComplete l =>
      simp only [step, notifyComplete]
      cases hphase : w.loop l with
      | idle | popped s' => rfl
      | notifying s' p since =>
          have hne : s ≠ s' := fun heq => hst (heq ▸ ⟨p, since, hphase⟩)
          exact subscriber_processSubscriptionEvent wiring w p hne _

/-- A step that is not about the masked subscribers keeps the invariant of the unmasked
world, up to the history. -/
theorem inv_step_of_agrees (hagrees : Agrees masked w w') (hinv : Inv wiring w')
    (st : Step π ℓ σ α) (henabled : Enabled wiring w st)
    (hfree : ∀ s ∈ masked, ¬ Concerns w s st) :
    ∃ w'', Agrees masked (step wiring w st) w'' ∧ Inv wiring w'' ∧
      ∀ s ∈ masked, w''.subscriber s = w'.subscriber s := by
  have hstep : ∀ {w₀ : World π ℓ σ α}, Agrees masked w w₀ → w₀.subscriber = w'.subscriber →
      Inv wiring (step wiring w₀ st) →
      ∃ w'', Agrees masked (step wiring w st) w'' ∧ Inv wiring w'' ∧
        ∀ s ∈ masked, w''.subscriber s = w'.subscriber s := by
    intro w₀ hagrees₀ hsame hinv₀
    refine ⟨_, agrees_step wiring hagrees₀ st hfree, hinv₀, fun s hs => ?_⟩
    rw [subscriber_step wiring w₀ st, hsame]
    exact fun hconcerns => hfree s hs ((concerns_iff hagrees₀ s st).mp hconcerns)
  have hloop := congrFun hagrees.loop
  cases st with
  | change p op => exact hstep hagrees rfl (inv_change hinv p op)
  | attach s n =>
      exact hstep hagrees rfl (inv_attach hinv s n (hloop _ ▸ ne_popped_of_taken henabled s))
  | detach s =>
      exact hstep hagrees rfl (inv_detach hinv s (hloop _ ▸ ne_popped_of_taken henabled s))
  | popPending l =>
      refine hstep hagrees rfl ?_
      cases hphase : w'.loop l with
      | idle => exact inv_popPending hinv l hphase
      | popped s | notifying s p since =>
          simp only [step, popPending, hphase]
          exact hinv
  | beginCallback l =>
      refine hstep hagrees rfl ?_
      cases hphase : w'.loop l with
      | popped s => exact inv_beginCallback hinv hphase
      | idle | notifying s p since =>
          simp only [step, beginCallback, hphase]
          exact hinv
  | notifyComplete l =>
      cases hphase : w'.loop l with
      | notifying s p since =>
          have hbase : Agrees masked w' { w' with
              basis := Function.update w'.basis s (.presented (w'.subscriber s).seqNumber) } :=
            ⟨rfl, fun _ _ => rfl, rfl, rfl, rfl, rfl⟩
          refine hstep (hagrees.trans hbase) rfl
            (inv_notifyComplete (inv_presented hinv s) hphase fun hcalled => ?_)
          simp only [Function.update_self] at hcalled
          cases hcalled
      | idle | popped s =>
          refine hstep hagrees rfl ?_
          simp only [step, notifyComplete, hphase]
          exact hinv

theorem linked_step (h : Linked wiring w) (st : Step π ℓ σ α) (henabled : Enabled wiring w st) :
    Linked wiring (step wiring w st) := by
  obtain ⟨w', hagrees, hinv⟩ := h
  obtain ⟨w'', hagrees', hinv', -⟩ :=
    inv_step_of_agrees hagrees hinv st henabled fun _ hs => False.elim hs
  exact ⟨w'', hagrees', hinv'⟩

omit [DecidableEq π] [DecidableEq ℓ] [DecidableEq σ] in
theorem not_taken_of_unsubscribed (h : Linked wiring w)
    (hs : (w.subscriber s).state = .unsubscribed) (l : ℓ) : subject (w.loop l) ≠ some s := by
  obtain ⟨w', hagrees, hinv⟩ := h
  rw [← hagrees.subscriber s id] at hs
  rw [← hagrees.loop]
  have hconsistent := hinv.consistent s
  simp only [Consistent, view, hs] at hconsistent
  exact fun hsubject => hconsistent.2 (hinv.loops l s hsubject ▸ hsubject)

theorem unsubscribed_step (h : Linked wiring w) (hs : (w.subscriber s).state = .unsubscribed)
    (st : Step π ℓ σ α) (hattach : ∀ n, st ≠ .attach s n) :
    ((step wiring w st).subscriber s).state = .unsubscribed := by
  by_cases hst : Concerns w s st
  · have hfree := not_taken_of_unsubscribed h hs
    cases st with
    | change p op =>
        obtain ⟨w', hagrees, hinv⟩ := h
        rw [Concerns, ← hagrees.lists] at hst
        have howner := (hinv.lists.mem_iff _ _).mp hst
        have hidle := ((owner_iff hinv p s).mp howner).1
        rw [hagrees.subscriber s id, hs] at hidle
        cases hidle
    | attach s' n => exact absurd (congrArg (Step.attach · n) hst) (hattach n)
    | detach s' =>
        obtain rfl : s' = s := hst
        simp only [step, detachSubscriber, processSubscriptionEvent, hs, inUnsubscribed,
          Function.update_self]
    | popPending l => cases hst
    | beginCallback l => exact absurd (by rw [show w.loop l = _ from hst]; rfl) (hfree l)
    | notifyComplete l =>
        obtain ⟨p, since, hphase⟩ := hst
        exact absurd (by rw [hphase]; rfl) (hfree l)
  · rw [subscriber_step wiring w st hst]
    exact hs

theorem unsubscribed_detach (h : Linked wiring w)
    (hfree : subject (w.loop (wiring.loopOf s)) ≠ some s) :
    ((step wiring w (.detach s)).subscriber s).state = .unsubscribed := by
  obtain ⟨w', hagrees, hinv⟩ := h
  have hs := hinv.consistent s
  rw [← hagrees.loop] at hfree
  simp only [step, detachSubscriber, processSubscriptionEvent, Function.update_self]
  rw [← hagrees.subscriber s id]
  cases hstate : (w'.subscriber s).state with
  | unsubscribed =>
      simp only [inUnsubscribed]
      rw [← hagrees.subscriber s id, hstate]
  | idle => simp only [inIdle, World.setState, Function.update_self]
  | notifyPending => simp only [inNotifyPending, World.setState, Function.update_self]
  | notifyNotifying =>
      simp only [Consistent, view, hstate] at hs
      obtain ⟨-, -, since, hphase, -⟩ := hs
      exact absurd (by rw [hphase]; rfl) hfree
  | notifyPendingDetach =>
      simp only [Consistent, view, hstate] at hs
      obtain ⟨-, since, hphase, -⟩ := hs
      exact absurd (by rw [hphase]; rfl) hfree

theorem loop_transitionToSubscribed (wiring : Wiring π ℓ σ α) (w : World π ℓ σ α) (p : π)
    (s : σ) : (transitionToSubscribed wiring w p s).loop = w.loop := by
  simp only [transitionToSubscribed, transitionToNotifyPending]
  split_ifs <;> rfl

theorem loop_processSubscriptionEvent (wiring : Wiring π ℓ σ α) (w : World π ℓ σ α) (p : π)
    (s : σ) (event : Event) : (processSubscriptionEvent wiring w p s event).loop = w.loop := by
  rw [processSubscriptionEvent]
  cases (w.subscriber s).state <;> cases event <;>
    first
    | rfl
    | exact loop_transitionToSubscribed wiring _ p s

theorem loop_notifySubscribers (wiring : Wiring π ℓ σ α) (p : π) (n : Nat) (w : World π ℓ σ α) :
    (notifySubscribers wiring p n w).loop = w.loop := by
  induction n generalizing w with
  | zero => rfl
  | succ n ih =>
      rw [notifySubscribers]
      rcases w.lists.get (.inl p) with ⟨- | s, lists⟩
      · rfl
      · exact (ih _).trans (loop_processSubscriptionEvent wiring _ p s _)

theorem loop_change (wiring : Wiring π ℓ σ α) (w : World π ℓ σ α) (p : π) (op : Write α) :
    (change wiring w p op).loop = w.loop := by
  simp only [change, processChangeNotifications]
  split_ifs
  · exact loop_notifySubscribers wiring p _ _
  · rfl

theorem loop_attachSubscriber (wiring : Wiring π ℓ σ α) (w : World π ℓ σ α) (p : π) (s : σ)
    (initialSeqNumber : Nat) :
    (attachSubscriber wiring w p s initialSeqNumber).loop = w.loop :=
  loop_processSubscriptionEvent wiring _ p s _

theorem loop_detachSubscriber (wiring : Wiring π ℓ σ α) (w : World π ℓ σ α) (p : π) (s : σ) :
    (detachSubscriber wiring w p s).loop = w.loop :=
  loop_processSubscriptionEvent wiring w p s _

end ColonyPico.Dm.SubscriberLinks
