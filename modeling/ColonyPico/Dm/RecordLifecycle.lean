import ColonyPico.Dm.SettlingTime
import ColonyPico.Dm.SubscriberLinks
import ColonyPico.Foundations.Runs

/-!
A record while it is started and stopped (`Cpl::Dm::Persistent::Record`): its
subscriptions, its delay timer and the updates of its chunk.
-/

namespace ColonyPico.Dm.RecordLifecycle

open ColonyPico.Dm.ChangeNotification
open ColonyPico.Dm.NoLostUpdate
open ColonyPico.Dm.SubscriberLinks
open ColonyPico.Dm.SettlingTime
open ColonyPico.Foundations.Runs
open ColonyPico.System.TimerManager
open ColonyPico.System.TimerRuns (absent_step calledBack)

/-- `observerPtr`. Nothing resets it when the subscriber is deleted. -/
inductive ObserverPtr where
  | noSubscriber
  | useSubscriber
  | allocated
  deriving DecidableEq, Repr

/-- A record and the event loop of its server. An item of `m_items` is given by its
subscriber. -/
structure Record (π ℓ σ α : Type) where
  wiring : Wiring π ℓ σ α
  myMbox : ℓ
  delays : Delays
  items : List σ
  inThread : ∀ item ∈ items, wiring.loopOf item = myMbox

/-- `stopped` is history: a `stop()` has returned and no `start()` came since. -/
structure State (π ℓ σ α τ : Type) where
  settling : SettlingTime.State τ
  world : World π ℓ σ α
  observerPtr : σ → ObserverPtr
  started : Bool
  stopped : Bool

/-- What `loadData()` returns; when it fails, what `resetData()` does. -/
inductive Load where
  | loaded
  | reset (update : Bool)
  deriving DecidableEq, Repr

inductive Event (π ℓ σ α τ : Type) where
  /-- The writers, the event loops and the other subscribers. -/
  | subscription (st : Step π ℓ σ α)
  /-- The server's thread and its other timers. -/
  | thread (action : System.TimerRuns.Action τ)
  /-- With the writes of `importData()`, of `resetData()` or of the hook, and with the
  sequence numbers that the items' points had. -/
  | start (load : Load) (writes : List (π × Write α)) (seqNumbers : σ → Nat)
  | stop
  | flush
  | erase

variable {π ℓ σ α τ : Type} [DecidableEq π] [DecidableEq ℓ] [DecidableEq σ] [DecidableEq τ]

section Definitions

variable (r : Record π ℓ σ α)

def updateNVRAM (s : State π ℓ σ α τ) : State π ℓ σ α τ :=
  { s with settling := SettlingTime.updateNVRAM s.settling }

def subscribe (seqNumbers : σ → Nat) (s : State π ℓ σ α τ) (item : σ) : State π ℓ σ α τ :=
  if s.observerPtr item = .noSubscriber then s
  else
    { s with
      observerPtr := Function.update s.observerPtr item .allocated
      world := ChangeNotification.step r.wiring s.world (.attach item (seqNumbers item)) }

def start (load : Load) (writes : List (π × Write α)) (seqNumbers : σ → Nat)
    (s : State π ℓ σ α τ) : State π ℓ σ α τ :=
  if s.started then s
  else
    let s := { s with
      started := true
      stopped := false
      world := writes.foldl (fun w write => change r.wiring w write.1 write.2) s.world }
    match load with
    | .loaded => r.items.foldl (subscribe r seqNumbers) s
    | .reset true => r.items.foldl (subscribe r seqNumbers) (updateNVRAM s)
    | .reset false =>
        { s with
          observerPtr := fun item =>
            if item ∈ r.items then .noSubscriber else s.observerPtr item }

def unsubscribe (observerPtr : σ → ObserverPtr) (w : World π ℓ σ α) (item : σ) : World π ℓ σ α :=
  if observerPtr item = .noSubscriber then w
  else ChangeNotification.step r.wiring w (.detach item)

def stop (s : State π ℓ σ α τ) : State π ℓ σ α τ :=
  if s.started then
    { s with
      started := false
      stopped := true
      world := r.items.foldl (unsubscribe r s.observerPtr) s.world }
  else { s with stopped := true }

/-- `request( FlushMsg& )`. -/
def flush (s : State π ℓ σ α τ) : State π ℓ σ α τ :=
  updateNVRAM s

/-- `request( EraseMsg& )`; the chunk is written with none of the changes. -/
def erase (s : State π ℓ σ α τ) : State π ℓ σ α τ :=
  { s with
    settling := { s.settling with
      writes := ⟨s.settling.thread.clock, none⟩ :: s.settling.writes } }

def inCallback (w : World π ℓ σ α) : Bool :=
  match w.loop r.myMbox with
  | .idle => false
  | .popped _ => true
  | .notifying item _ _ => decide (item ∈ r.items)

/-- The step calls the record's `dataChanged()`. -/
def callsDataChanged (w : World π ℓ σ α) : Step π ℓ σ α → Bool
  | .beginCallback l =>
      match w.loop l with
      | .popped item => decide (item ∈ r.items)
      | .idle | .notifying _ _ _ => false
  | _ => false

def ofItems : Step π ℓ σ α → Bool
  | .attach item _ | .detach item => decide (item ∈ r.items)
  | _ => false

/-- An event, where the threads can take it: the messages of the server and its calls of
the record come between the callbacks, and only the record attaches and detaches its
subscribers. -/
def step (s : State π ℓ σ α τ) : Event π ℓ σ α τ → Option (State π ℓ σ α τ)
  | .subscription st =>
      if Enabled r.wiring s.world st ∧ ofItems r st = false then
        let moved := { s with world := ChangeNotification.step r.wiring s.world st }
        if callsDataChanged r s.world st then
          some { moved with settling := dataChanged r.delays s.settling }
        else some moved
      else none
  | .thread action => some { s with settling := advance r.delays s.settling (.thread action) }
  | .start load writes seqNumbers =>
      if inCallback r s.world then none else some (start r load writes seqNumbers s)
  | .stop => if inCallback r s.world then none else some (stop r s)
  | .flush => some (flush s)
  | .erase => some (erase s)

/-- No `stop()` leaves the delay timer running, and no flush or erase comes between the
return of a `stop()` and the next `start()`. -/
def Allowed (s : State π ℓ σ α τ) : Event π ℓ σ α τ → Prop
  | .stop => s.started = true → ¬ TimerRunning s.settling
  | .flush | .erase => s.stopped = false
  | .subscription _ | .thread _ | .start _ _ _ => True

instance (s : State π ℓ σ α τ) : ∀ e : Event π ℓ σ α τ, Decidable (Allowed s e)
  | .stop => inferInstanceAs (Decidable (s.started = true → ¬ TimerRunning s.settling))
  | .flush | .erase => inferInstanceAs (Decidable (s.stopped = false))
  | .subscription _ | .thread _ | .start _ _ _ => .isTrue trivial

end Definitions

def State.init (data : π → α) (valid locked : π → Bool) (subscribes : σ → Bool)
    (started first : Nat) : State π ℓ σ α τ :=
  { settling := SettlingTime.State.init started first
    world := World.init data valid locked
    observerPtr := fun item => if subscribes item then .useSubscriber else .noSubscriber
    started := false
    stopped := false }

/-- The invariant: a stopped record has no subscription and its timer does not run. -/
structure Inv (r : Record π ℓ σ α) (s : State π ℓ σ α τ) : Prop where
  linked : Linked r.wiring s.world
  plain : ∀ item ∈ r.items, s.observerPtr item = .noSubscriber →
    (s.world.subscriber item).state = .unsubscribed
  detached : s.started = false →
    ∀ item ∈ r.items, (s.world.subscriber item).state = .unsubscribed
  quiet : s.started = false → ¬ TimerRunning s.settling
  stopped : s.stopped = true → s.started = false

variable {r : Record π ℓ σ α} {s s' : State π ℓ σ α τ}

omit [DecidableEq π] [DecidableEq ℓ] in
theorem free_of_not_inCallback {w : World π ℓ σ α} (h : inCallback r w = false) :
    Phase.taken (w.loop r.myMbox) = false ∧
      ∀ item ∈ r.items, subject (w.loop r.myMbox) ≠ some item := by
  rw [inCallback] at h
  cases hphase : w.loop r.myMbox with
  | idle => exact ⟨rfl, fun item _ => Option.some_ne_none item ∘ Eq.symm⟩
  | popped item =>
      rw [hphase] at h
      cases h
  | notifying item p since =>
      rw [hphase] at h
      refine ⟨rfl, fun item' hitem hsubject => ?_⟩
      obtain rfl := Option.some.inj hsubject
      exact of_decide_eq_false h hitem

omit [DecidableEq π] [DecidableEq ℓ] in
theorem not_callsDataChanged {w : World π ℓ σ α} (hlinked : Linked r.wiring w)
    (hdetached : ∀ item ∈ r.items, (w.subscriber item).state = .unsubscribed)
    (st : Step π ℓ σ α) : callsDataChanged r w st = false := by
  cases st with
  | beginCallback l =>
      rw [callsDataChanged]
      cases hphase : w.loop l with
      | idle | notifying item p since => rfl
      | popped item =>
          refine decide_eq_false fun hitem => ?_
          refine not_taken_of_unsubscribed hlinked (hdetached item hitem) l ?_
          rw [hphase]
          rfl
  | change p op | attach item n | detach item | popPending l | notifyComplete l => rfl

theorem linked_unsubscribe (observerPtr : σ → ObserverPtr) (items : List σ)
    (hitems : ∀ item ∈ items, item ∈ r.items) {w : World π ℓ σ α} (hlinked : Linked r.wiring w)
    (htaken : Phase.taken (w.loop r.myMbox) = false)
    (hfree : ∀ item ∈ r.items, subject (w.loop r.myMbox) ≠ some item)
    (hplain : ∀ item ∈ r.items, item ∉ items ∨ observerPtr item = .noSubscriber →
      (w.subscriber item).state = .unsubscribed) :
    Linked r.wiring (items.foldl (unsubscribe r observerPtr) w) ∧
      ∀ item ∈ r.items, ((items.foldl (unsubscribe r observerPtr) w).subscriber item).state =
        .unsubscribed := by
  induction items generalizing w with
  | nil => exact ⟨hlinked, fun item hitem => hplain item hitem (.inl List.not_mem_nil)⟩
  | cons item items ih =>
      have hmem := hitems item List.mem_cons_self
      have hrest := fun item' h => hitems item' (List.mem_cons_of_mem item h)
      rw [List.foldl_cons, unsubscribe]
      split_ifs with hno
      · refine ih hrest hlinked htaken hfree fun item' hitem' hcase => hplain item' hitem' ?_
        by_cases heq : item' = item
        · exact .inr (heq ▸ hno)
        · exact hcase.imp_left fun hnot hin => (List.mem_cons.mp hin).elim heq hnot
      · have hloop : (ChangeNotification.step r.wiring w (.detach item)).loop = w.loop :=
          loop_detachSubscriber r.wiring w _ item
        have henabled : Enabled r.wiring w (.detach item) := by
          rw [Enabled, r.inThread item hmem]
          exact htaken
        have hdetached := unsubscribed_detach (s := item) hlinked
          (by rw [r.inThread item hmem]; exact hfree item hmem)
        refine ih hrest (linked_step hlinked _ henabled) (by rw [hloop]; exact htaken)
          (by rw [hloop]; exact hfree) fun item' hitem' hcase => ?_
        by_cases heq : item' = item
        · exact heq ▸ hdetached
        · refine unsubscribed_step hlinked (hplain item' hitem' ?_) _ fun n hn => by cases hn
          exact hcase.imp_left fun hnot hin => (List.mem_cons.mp hin).elim heq hnot

omit [DecidableEq τ] in
theorem linked_subscribe (seqNumbers : σ → Nat) (items : List σ)
    (hitems : ∀ item ∈ items, item ∈ r.items) (hlinked : Linked r.wiring s.world)
    (htaken : Phase.taken (s.world.loop r.myMbox) = false)
    (hplain : ∀ item ∈ r.items, s.observerPtr item = .noSubscriber →
      (s.world.subscriber item).state = .unsubscribed)
    (hs' : items.foldl (subscribe r seqNumbers) s = s') :
    Linked r.wiring s'.world ∧
      (∀ item ∈ r.items, s'.observerPtr item = .noSubscriber →
        (s'.world.subscriber item).state = .unsubscribed) ∧
      s'.started = s.started ∧ s'.stopped = s.stopped := by
  subst hs'
  induction items generalizing s with
  | nil => exact ⟨hlinked, hplain, rfl, rfl⟩
  | cons item items ih =>
      have hmem := hitems item List.mem_cons_self
      have hrest := fun item' h => hitems item' (List.mem_cons_of_mem item h)
      rw [List.foldl_cons, subscribe]
      split_ifs with hno
      · exact ih hrest hlinked htaken hplain
      · have hloop : (ChangeNotification.step r.wiring s.world
            (.attach item (seqNumbers item))).loop = s.world.loop :=
          loop_attachSubscriber r.wiring s.world _ item _
        have henabled : Enabled r.wiring s.world (.attach item (seqNumbers item)) := by
          rw [Enabled, r.inThread item hmem]
          exact htaken
        refine ih hrest (linked_step hlinked _ henabled) (by rw [hloop]; exact htaken)
          fun item' hitem' hptr => ?_
        by_cases heq : item' = item
        · simp only [heq, Function.update_self] at hptr
          cases hptr
        · simp only [Function.update_of_ne heq] at hptr
          refine unsubscribed_step hlinked (hplain item' hitem' hptr) _ fun n hn => ?_
          cases hn
          exact heq rfl

theorem linked_writes (writes : List (π × Write α)) {w : World π ℓ σ α}
    (hlinked : Linked r.wiring w)
    (hdetached : ∀ item ∈ r.items, (w.subscriber item).state = .unsubscribed) :
    let w' := writes.foldl (fun w write => change r.wiring w write.1 write.2) w
    Linked r.wiring w' ∧ w'.loop = w.loop ∧
      ∀ item ∈ r.items, (w'.subscriber item).state = .unsubscribed := by
  induction writes generalizing w with
  | nil => exact ⟨hlinked, rfl, hdetached⟩
  | cons write writes ih =>
      obtain ⟨hlinked', hloop, hdetached'⟩ := ih
        (linked_step hlinked (.change write.1 write.2) trivial)
        fun item hitem => unsubscribed_step hlinked (hdetached item hitem) _ fun n hn => by cases hn
      exact ⟨hlinked', hloop.trans (loop_change r.wiring w write.1 write.2), hdetached'⟩

omit [DecidableEq τ] in
theorem inv_start (h : Inv r s) (hfree : inCallback r s.world = false) (load : Load)
    (writes : List (π × Write α)) (seqNumbers : σ → Nat) :
    Inv r (start r load writes seqNumbers s) := by
  rw [start]
  split_ifs with hstarted
  · exact h
  have hdetached := h.detached (Bool.eq_false_iff.mpr hstarted)
  obtain ⟨hlinked, hloop, hunsubscribed⟩ := linked_writes writes h.linked hdetached
  have htaken : Phase.taken ((writes.foldl (fun w write => change r.wiring w write.1 write.2)
      s.world).loop r.myMbox) = false := by
    rw [hloop]
    exact (free_of_not_inCallback hfree).1
  have hsubscribed : ∀ {s₁ : State π ℓ σ α τ}, Linked r.wiring s₁.world ∧
      (∀ item ∈ r.items, s₁.observerPtr item = .noSubscriber →
        (s₁.world.subscriber item).state = .unsubscribed) ∧
      s₁.started = true ∧ s₁.stopped = false → Inv r s₁ := by
    rintro s₁ ⟨hlinked₁, hplain₁, hstarted₁, hstopped₁⟩
    refine ⟨hlinked₁, hplain₁, fun hnot => ?_, fun hnot => ?_, fun hstopped => ?_⟩
    · exact absurd hstarted₁ (Bool.eq_false_iff.mp hnot)
    · exact absurd hstarted₁ (Bool.eq_false_iff.mp hnot)
    · exact absurd hstopped (Bool.eq_false_iff.mp hstopped₁)
  have hplain := fun item hitem (_ : s.observerPtr item = .noSubscriber) =>
    hunsubscribed item hitem
  cases load with
  | loaded =>
      exact hsubscribed
        (linked_subscribe seqNumbers r.items (fun _ => id) hlinked htaken hplain rfl)
  | reset update =>
      cases update with
      | true =>
          exact hsubscribed
            (linked_subscribe seqNumbers r.items (fun _ => id) hlinked htaken hplain rfl)
      | false => exact hsubscribed ⟨hlinked, fun item hitem _ => hunsubscribed item hitem, rfl, rfl⟩

omit [DecidableEq τ] in
theorem inv_stop (h : Inv r s) (hfree : inCallback r s.world = false)
    (hallowed : Allowed s (.stop : Event π ℓ σ α τ)) : Inv r (stop r s) := by
  rw [stop]
  split_ifs with hstarted
  · obtain ⟨htaken, hsubject⟩ := free_of_not_inCallback hfree
    obtain ⟨hlinked, hunsubscribed⟩ := linked_unsubscribe s.observerPtr r.items (fun _ => id)
      h.linked htaken hsubject fun item hitem hcase =>
        h.plain item hitem (hcase.resolve_left (not_not_intro hitem))
    exact ⟨hlinked, fun item hitem _ => hunsubscribed item hitem, fun _ => hunsubscribed,
      fun _ => hallowed hstarted, fun _ => rfl⟩
  · exact ⟨h.linked, h.plain, h.detached, h.quiet, fun _ => Bool.eq_false_iff.mpr hstarted⟩

omit [DecidableEq τ] in
theorem inv_moved (h : Inv r s) {st : Step π ℓ σ α} (henabled : Enabled r.wiring s.world st)
    (hothers : ofItems r st = false) :
    Inv r { s with world := ChangeNotification.step r.wiring s.world st } := by
  have hattach : ∀ item ∈ r.items, ∀ n, st ≠ .attach item n := by
    rintro item hitem n rfl
    exact of_decide_eq_false hothers hitem
  exact ⟨linked_step h.linked st henabled,
    fun item hitem hptr =>
      unsubscribed_step h.linked (h.plain item hitem hptr) st (hattach item hitem),
    fun hnot item hitem =>
      unsubscribed_step h.linked (h.detached hnot item hitem) st (hattach item hitem),
    h.quiet, h.stopped⟩

omit [DecidableEq π] [DecidableEq ℓ] [DecidableEq σ] in
/-- A stopped timer stays stopped while the thread goes on, and nothing is written. -/
theorem quiet_thread {settling : SettlingTime.State τ} (d : Delays)
    (hquiet : ¬ TimerRunning settling) (action : System.TimerRuns.Action τ) :
    ¬ TimerRunning (advance d settling (.thread action)) ∧
      (advance d settling (.thread action)).writes = settling.writes := by
  obtain ⟨hcalled, habsent⟩ := absent_step hquiet (others_neither action).1
  rw [advance, if_neg hcalled]
  exact ⟨habsent, rfl⟩

theorem inv_step (h : Inv r s) (e : Event π ℓ σ α τ) (hallowed : Allowed s e)
    (hstep : step r s e = some s') : Inv r s' := by
  cases e with
  | subscription st =>
      rw [step] at hstep
      split_ifs at hstep with hguard hcalls
      · obtain rfl := Option.some.inj hstep
        refine { inv_moved h hguard.1 hguard.2 with quiet := fun hnot => ?_ }
        rw [not_callsDataChanged h.linked (h.detached hnot) st] at hcalls
        cases hcalls
      · obtain rfl := Option.some.inj hstep
        exact inv_moved h hguard.1 hguard.2
  | thread action =>
      obtain rfl := Option.some.inj hstep
      exact { h with quiet := fun hnot => (quiet_thread r.delays (h.quiet hnot) action).1 }
  | start load writes seqNumbers =>
      rw [step] at hstep
      split_ifs at hstep with hin
      obtain rfl := Option.some.inj hstep
      exact inv_start h (Bool.eq_false_iff.mpr hin) load writes seqNumbers
  | stop =>
      rw [step] at hstep
      split_ifs at hstep with hin
      obtain rfl := Option.some.inj hstep
      exact inv_stop h (Bool.eq_false_iff.mpr hin) hallowed
  | flush =>
      obtain rfl := Option.some.inj hstep
      exact { h with }
  | erase =>
      obtain rfl := Option.some.inj hstep
      exact { h with }

theorem silent_step (h : Inv r s) (hstopped : s.stopped = true) {e : Event π ℓ σ α τ}
    (hallowed : Allowed s e) (hnot : ∀ load writes seqNumbers, e ≠ .start load writes seqNumbers)
    (hstep : step r s e = some s') :
    s'.stopped = true ∧ s'.settling.writes = s.settling.writes := by
  have hnotStarted := h.stopped hstopped
  cases e with
  | subscription st =>
      rw [step] at hstep
      split_ifs at hstep with hguard hcalls
      · rw [not_callsDataChanged h.linked (h.detached hnotStarted) st] at hcalls
        cases hcalls
      · obtain rfl := Option.some.inj hstep
        exact ⟨hstopped, rfl⟩
  | thread action =>
      obtain rfl := Option.some.inj hstep
      exact ⟨hstopped, (quiet_thread r.delays (h.quiet hnotStarted) action).2⟩
  | start load writes seqNumbers => exact absurd rfl (hnot load writes seqNumbers)
  | stop =>
      rw [step] at hstep
      split_ifs at hstep
      obtain rfl := Option.some.inj hstep
      rw [stop, if_neg (Bool.eq_false_iff.mp hnotStarted)]
      exact ⟨rfl, rfl⟩
  | flush => exact absurd hstopped (Bool.eq_false_iff.mp hallowed)
  | erase => exact absurd hstopped (Bool.eq_false_iff.mp hallowed)

omit [DecidableEq π] [DecidableEq ℓ] [DecidableEq σ] in
theorem inv_init (r : Record π ℓ σ α) (data : π → α) (valid locked : π → Bool)
    (subscribes : σ → Bool) (started first : Nat) :
    Inv r (State.init data valid locked subscribes started first : State π ℓ σ α τ) := by
  refine ⟨⟨_, Agrees.refl ∅ _, NoLostUpdate.inv_init r.wiring data valid locked⟩,
    fun item _ _ => rfl, fun _ item _ => rfl, fun _ => ?_, fun hstopped => by cases hstopped⟩
  have hkept := kept_init (τ := τ) ⟨0, 0⟩ started first
  rw [State.init, timerRunning_iff hkept.thread, hkept.running]
  exact not_not_intro rfl

theorem silent_run (h : Inv r s) (hstopped : s.stopped = true)
    {events : List (Event π ℓ σ α τ)} (hall : AllSteps (step r) Allowed s events)
    (hnot : ∀ load writes seqNumbers, .start load writes seqNumbers ∉ events)
    (hrun : run (step r) s events = some s') : s'.settling.writes = s.settling.writes := by
  induction events generalizing s with
  | nil =>
      obtain rfl := Option.some.inj hrun
      rfl
  | cons e events ih =>
      obtain ⟨next, hnext, hrest⟩ := run_cons hrun
      obtain ⟨hstopped', hsame⟩ := silent_step h hstopped hall.1
        (fun load writes seqNumbers heq =>
          hnot load writes seqNumbers (heq ▸ List.mem_cons_self)) hnext
      have hwrites := ih (inv_step h e hall.1 hnext) hstopped' (hall.2 next hnext)
        (fun load writes seqNumbers hmem =>
          hnot load writes seqNumbers (List.mem_cons_of_mem e hmem)) hrest
      exact hwrites.trans hsame

theorem stopped_of_stop (hstop : step r s .stop = some s') : s'.stopped = true := by
  rw [step] at hstop
  split_ifs at hstop
  obtain rfl := Option.some.inj hstop
  rw [stop]
  split_ifs <;> rfl

/-- No update of the chunk comes between the return of a `stop()` and the next `start()`. -/
def Silent (r : Record π ℓ σ α) (s : State π ℓ σ α τ) (events : List (Event π ℓ σ α τ)) : Prop :=
  ∀ before during after s₁ s₂, events = before ++ .stop :: (during ++ after) →
    (∀ load writes seqNumbers, .start load writes seqNumbers ∉ during) →
    run (step r) s (before ++ [.stop]) = some s₁ → run (step r) s₁ during = some s₂ →
    s₂.settling.writes = s₁.settling.writes

/-- Over every run in which the timer does not run at a `stop()` and nothing is flushed or
erased after it, a stopped record writes nothing. -/
theorem silent_of_allowed (r : Record π ℓ σ α) (data : π → α) (valid locked : π → Bool)
    (subscribes : σ → Bool) (started first : Nat) (events : List (Event π ℓ σ α τ))
    (h : AllSteps (step r) Allowed (State.init data valid locked subscribes started first)
      events) :
    Silent r (State.init data valid locked subscribes started first) events := by
  rintro before during after s₁ s₂ rfl hnot hstop hduring
  rw [← List.singleton_append, ← List.append_assoc] at h
  have hinv := invariant (fun _ e _ => inv_step (e := e))
    (inv_init r data valid locked subscribes started first) h.left hstop
  rw [run_snoc] at hstop
  obtain ⟨mid, hmid, hlast⟩ := Option.bind_eq_some_iff.mp hstop
  refine silent_run hinv (stopped_of_stop hlast) ?_ hnot hduring
  exact (h.right ((run_snoc before .stop).trans hstop)).left

/-- A record of one model point that settles for 50 ms. -/
def settlingRecord : Record Unit Unit Unit Nat :=
  { wiring :=
      { pointOf := fun _ => ()
        loopOf := fun _ => ()
        isDataEqual := fun _ a b => a == b
        invalidData := fun _ => 0 }
    myMbox := ()
    delays := ⟨50, 100⟩
    items := [()]
    inThread := fun _ _ => rfl }

def settlingInit : State Unit Unit Unit Nat Unit :=
  State.init (fun _ => 0) (fun _ => true) (fun _ => false) (fun _ => true) 0 100

/-- A change of the point reaches the record. -/
def changed : List (Event Unit Unit Unit Nat Unit) :=
  [.subscription (.change () (.writeData 5 .noRequest)), .subscription (.popPending ()),
    .subscription (.beginCallback ()), .subscription (.notifyComplete ())]

/-- The record is stopped after its write; later changes do not reach it. -/
theorem silent_of_allowed_settled :
    Silent settlingRecord settlingInit
      (.start .loaded [] (fun _ => 1) :: changed ++
        [.thread (.advance 50), .thread .processTimers, .thread .callbackReturns, .stop,
          .subscription (.change () .touch), .thread (.advance 100), .thread .processTimers]) :=
  silent_of_allowed settlingRecord _ _ _ _ 0 100 _ (by decide)

/-- A change is not yet written when the record is stopped. The timer goes on and writes. -/
theorem not_silent_settling :
    ¬ Silent settlingRecord settlingInit
      (.start .loaded [] (fun _ => 1) :: changed ++
        [.stop, .thread (.advance 50), .thread .processTimers]) := by
  intro h
  have hwrites := h (.start .loaded [] (fun _ => 1) :: changed)
    [.thread (.advance 50), .thread .processTimers] [] _ _ rfl (by simp) rfl rfl
  exact absurd hwrites (by decide)

/-- Nothing holds back a flush of a stopped record either. -/
example : ¬ Silent settlingRecord settlingInit
    [.start .loaded [] (fun _ => 1), .stop, .flush] := by
  intro h
  have hwrites := h [.start .loaded [] (fun _ => 1)] [.flush] [] _ _ rfl (by simp) rfl rfl
  exact absurd hwrites (by decide)

end ColonyPico.Dm.RecordLifecycle
