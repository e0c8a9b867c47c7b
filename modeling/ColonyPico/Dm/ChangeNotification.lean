import ColonyPico.Dm.LockState
import ColonyPico.Foundations.IntrusiveLists

/-!
How changes of model points reach their subscribers: the subscription state machine of
`Cpl::Dm::ModelPointCommon_` and the event loops of `Cpl::Dm::EventLoop`.
-/

namespace ColonyPico.Dm.ChangeNotification

open ColonyPico.Dm.ModelPoint
open ColonyPico.Dm.LockState (LockablePoint)
open ColonyPico.Foundations.IntrusiveLists

/-- `State_T`. -/
inductive SubscriptionState where
  | unsubscribed
  | idle
  | notifyPending
  | notifyNotifying
  | notifyPendingDetach
  deriving DecidableEq, Repr

/-- `Event_T`. -/
inductive Event where
  | attach
  | detach
  | dataChanged
  | notifying
  | notifyComplete
  deriving DecidableEq, Repr

/-- The members of a subscriber. -/
structure Subscriber (π : Type) where
  state : SubscriptionState
  modelPoint : Option π
  seqNumber : Nat
  deriving DecidableEq, Repr

/-- `SubscriberBase()`. -/
def Subscriber.init {π : Type} : Subscriber π :=
  { state := .unsubscribed, modelPoint := none, seqNumber := sequenceNumberUnknown }

/-- The writers' operations. -/
inductive Write (α : Type) where
  | writeData (srcData : α) (lockRequest : LockRequest)
  | setInvalid (lockRequest : LockRequest)
  | touch

/-- A model point after an operation, up to the call of `processChangeNotifications()`,
and whether that is called. -/
def Write.apply {α : Type} (isDataEqual : α → α → Bool) (invalidData : α)
    (p : LockablePoint α) : Write α → LockablePoint α × Bool
  | .writeData srcData lockRequest =>
      let (locked, granted) := testAndUpdateLock p.locked lockRequest
      if granted ∧ (p.valid = false ∨ isDataEqual p.data srcData = false) then
        ({ p with data := srcData, valid := true, locked := locked }, true)
      else ({ p with locked := locked }, false)
  | .setInvalid lockRequest =>
      let (locked, granted) := testAndUpdateLock p.locked lockRequest
      if granted ∧ p.valid = true then
        ({ p with data := invalidData, valid := false, locked := locked }, true)
      else ({ p with locked := locked }, false)
  | .touch => (p, true)

theorem seqNum_apply {α : Type} (isDataEqual : α → α → Bool) (invalidData : α)
    (p : LockablePoint α) (op : Write α) :
    (op.apply isDataEqual invalidData p).1.seqNum = p.seqNum := by
  cases op with
  | writeData srcData lockRequest =>
      simp only [Write.apply]
      split_ifs <;> rfl
  | setInvalid lockRequest =>
      simp only [Write.apply]
      split_ifs <;> rfl
  | touch => rfl

/-- The operation as the locked section of a point without subscribers. -/
def Write.update {α : Type} (isDataEqual : α → α → Bool) (invalidData : α)
    (p : LockablePoint α) : Write α → LockablePoint α
  | .writeData srcData lockRequest =>
      LockState.writeData isDataEqual (fun _ src => src) p (some srcData) lockRequest
  | .setInvalid lockRequest =>
      LockState.lockedUpdate p lockRequest (Point.setInvalid invalidData)
  | .touch => { toPoint := p.touch, locked := p.locked }

theorem Write.update_eq {α : Type} (isDataEqual : α → α → Bool) (invalidData : α)
    (p : LockablePoint α) (op : Write α) :
    op.update isDataEqual invalidData p =
      if (op.apply isDataEqual invalidData p).2 then
        { (op.apply isDataEqual invalidData p).1 with
          seqNum := advanceSequenceNumber p.seqNum }
      else (op.apply isDataEqual invalidData p).1 := by
  cases op with
  | writeData srcData lockRequest =>
      simp only [Write.update, Write.apply, LockState.writeData, LockState.lockedUpdate,
        Point.write]
      split_ifs <;> simp_all
  | setInvalid lockRequest =>
      simp only [Write.update, Write.apply, LockState.lockedUpdate, Point.setInvalid]
      split_ifs <;> simp_all
  | touch => rfl

/-- Where an event loop is in `processChangeNotifications()`. `since` is the number of
changes of the model point when the callback began. -/
inductive Phase (π σ : Type) where
  | idle
  | popped (subscriber : σ)
  | notifying (subscriber : σ) (modelPoint : π) (since : Nat)
  deriving DecidableEq, Repr

/-- Where a subscriber's sequence number comes from: the callback at some number of
changes, or the argument of an attach. -/
inductive Basis where
  | calledBack (changes : Nat)
  | presented (seqNumber : Nat)
  deriving DecidableEq, Repr

/-- What does not change: the point and the loop of each subscriber, and how the points
compare and reset their data. -/
structure Wiring (π ℓ σ α : Type) where
  pointOf : σ → π
  loopOf : σ → ℓ
  isDataEqual : π → α → α → Bool
  invalidData : π → α

/-- The model points, the event loops, the subscribers and the lists that link them.
`changes` and `basis` are history. -/
structure World (π ℓ σ α : Type) where
  point : π → LockablePoint α
  subscriber : σ → Subscriber π
  /-- The subscriber lists of the points and the pending lists of the loops. -/
  lists : Lists (π ⊕ ℓ) σ
  loop : ℓ → Phase π σ
  fatalError : Bool
  changes : π → Nat
  basis : σ → Basis

variable {π ℓ σ α : Type} [DecidableEq π] [DecidableEq ℓ] [DecidableEq σ]
variable (wiring : Wiring π ℓ σ α)

omit [DecidableEq π] [DecidableEq ℓ] in
def World.setState (w : World π ℓ σ α) (s : σ) (newState : SubscriptionState) :
    World π ℓ σ α :=
  { w with
    subscriber := Function.update w.subscriber s { w.subscriber s with state := newState } }

def transitionToNotifyPending (w : World π ℓ σ α) (s : σ) : World π ℓ σ α :=
  { w with lists := w.lists.put (.inr (wiring.loopOf s)) s }.setState s .notifyPending

def transitionToSubscribed (w : World π ℓ σ α) (p : π) (s : σ) : World π ℓ σ α :=
  let w := { w with lists := w.lists.remove (.inl p) s }
  if (w.point p).seqNum = (w.subscriber s).seqNumber then
    { w.setState s .idle with lists := w.lists.put (.inl p) s }
  else transitionToNotifyPending wiring w s

/-- The events in `eSTATE_UNSUBSCRIBED`. -/
def inUnsubscribed (w : World π ℓ σ α) (p : π) (s : σ) : Event → World π ℓ σ α
  | .attach => transitionToSubscribed wiring w p s
  | .dataChanged => { w with fatalError := true }
  | .detach | .notifying | .notifyComplete => w

/-- The events in `eSTATE_IDLE`. -/
def inIdle (w : World π ℓ σ α) (p : π) (s : σ) : Event → World π ℓ σ α
  | .attach => transitionToSubscribed wiring w p s
  | .detach => { w with lists := w.lists.remove (.inl p) s }.setState s .unsubscribed
  | .dataChanged => transitionToNotifyPending wiring w s
  | .notifying | .notifyComplete => w

def removePendingChangingNotification (w : World π ℓ σ α) (s : σ) : World π ℓ σ α :=
  { w with lists := w.lists.remove (.inr (wiring.loopOf s)) s }

/-- The events in `eSTATE_NOTIFY_PENDING`. -/
def inNotifyPending (w : World π ℓ σ α) (p : π) (s : σ) : Event → World π ℓ σ α
  | .attach => transitionToSubscribed wiring (removePendingChangingNotification wiring w s) p s
  | .detach => (removePendingChangingNotification wiring w s).setState s .unsubscribed
  | .notifying =>
      { w with
        subscriber := Function.update w.subscriber s
          { w.subscriber s with
            seqNumber := (w.point p).seqNum
            state := .notifyNotifying } }
  | .dataChanged => { w with fatalError := true }
  | .notifyComplete => w

/-- The events in `eSTATE_NOTIFY_NOTIFYING`. -/
def inNotifyNotifying (w : World π ℓ σ α) (p : π) (s : σ) : Event → World π ℓ σ α
  | .detach => w.setState s .notifyPendingDetach
  | .notifyComplete => transitionToSubscribed wiring w p s
  | .dataChanged => { w with fatalError := true }
  | .attach | .notifying => w

omit [DecidableEq π] [DecidableEq ℓ] in
/-- The events in `eSTATE_NOTIFY_PENDING_DETACH`. -/
def inNotifyPendingDetach (w : World π ℓ σ α) (s : σ) : Event → World π ℓ σ α
  | .attach => w.setState s .notifyNotifying
  | .notifyComplete => w.setState s .unsubscribed
  | .dataChanged => { w with fatalError := true }
  | .detach | .notifying => w

def processSubscriptionEvent (w : World π ℓ σ α) (p : π) (s : σ) (event : Event) :
    World π ℓ σ α :=
  match (w.subscriber s).state with
  | .unsubscribed => inUnsubscribed wiring w p s event
  | .idle => inIdle wiring w p s event
  | .notifyPending => inNotifyPending wiring w p s event
  | .notifyNotifying => inNotifyNotifying wiring w p s event
  | .notifyPendingDetach => inNotifyPendingDetach w s event

/-- The loop of `processChangeNotifications()` over the subscribers of a point. -/
def notifySubscribers (p : π) : Nat → World π ℓ σ α → World π ℓ σ α
  | 0, w => w
  | n + 1, w =>
      match w.lists.get (.inl p) with
      | (none, _) => w
      | (some s, lists) =>
          notifySubscribers p n
            (processSubscriptionEvent wiring { w with lists := lists } p s .dataChanged)

/-- `ModelPointCommon_::processChangeNotifications()`. -/
def processChangeNotifications (w : World π ℓ σ α) (p : π) : World π ℓ σ α :=
  notifySubscribers wiring p (w.lists.items (.inl p)).length
    { w with
      point := Function.update w.point p
        { w.point p with seqNum := advanceSequenceNumber (w.point p).seqNum }
      changes := Function.update w.changes p (w.changes p + 1) }

/-- `writeData()`, `setInvalid()` and `touch()`. -/
def change (w : World π ℓ σ α) (p : π) (op : Write α) : World π ℓ σ α :=
  let (point, changed) := op.apply (wiring.isDataEqual p) (wiring.invalidData p) (w.point p)
  let w := { w with point := Function.update w.point p point }
  if changed then processChangeNotifications wiring w p else w

/-! The model points among the subscribers -/

section Point

theorem point_transitionToSubscribed (w : World π ℓ σ α) (p : π) (s : σ) :
    (transitionToSubscribed wiring w p s).point = w.point := by
  simp only [transitionToSubscribed]
  split_ifs <;> rfl

theorem point_processSubscriptionEvent (w : World π ℓ σ α) (p : π) (s : σ) (event : Event) :
    (processSubscriptionEvent wiring w p s event).point = w.point := by
  rw [processSubscriptionEvent]
  cases (w.subscriber s).state with
  | unsubscribed => cases event <;> simp only [inUnsubscribed, point_transitionToSubscribed]
  | idle =>
      cases event with
      | attach => exact point_transitionToSubscribed wiring w p s
      | _ => rfl
  | notifyPending =>
      cases event with
      | attach => exact point_transitionToSubscribed wiring _ p s
      | _ => rfl
  | notifyNotifying =>
      cases event with
      | notifyComplete => exact point_transitionToSubscribed wiring w p s
      | _ => rfl
  | notifyPendingDetach => cases event <;> rfl

theorem point_notifySubscribers (p : π) (n : Nat) (w : World π ℓ σ α) :
    (notifySubscribers wiring p n w).point = w.point := by
  induction n generalizing w with
  | zero => rfl
  | succ n ih =>
      rw [notifySubscribers]
      split
      · rfl
      · rw [ih, point_processSubscriptionEvent]

/-- What `writeData()`, `setInvalid()` and `touch()` do to a point is what its locked section
does. -/
theorem point_change (w : World π ℓ σ α) (p : π) (op : Write α) :
    (change wiring w p op).point p =
      op.update (wiring.isDataEqual p) (wiring.invalidData p) (w.point p) := by
  have hseqNum := seqNum_apply (wiring.isDataEqual p) (wiring.invalidData p) (w.point p) op
  rw [Write.update_eq, change]
  revert hseqNum
  rcases op.apply (wiring.isDataEqual p) (wiring.invalidData p) (w.point p) with ⟨point, changed⟩
  intro hseqNum
  cases changed with
  | false => exact Function.update_self p point w.point
  | true =>
      simp only [if_true, processChangeNotifications, point_notifySubscribers,
        Function.update_self]
      rw [hseqNum]

end Point

def attachSubscriber (w : World π ℓ σ α) (p : π) (s : σ) (initialSeqNumber : Nat) :
    World π ℓ σ α :=
  processSubscriptionEvent wiring
    { w with
      subscriber := Function.update w.subscriber s
        { w.subscriber s with seqNumber := initialSeqNumber, modelPoint := some p }
      basis := Function.update w.basis s (.presented initialSeqNumber) }
    p s .attach

def detachSubscriber (w : World π ℓ σ α) (p : π) (s : σ) : World π ℓ σ α :=
  let w := processSubscriptionEvent wiring w p s .detach
  { w with
    subscriber := Function.update w.subscriber s { w.subscriber s with modelPoint := none } }

/-- `EventLoop::processChangeNotifications()`, up to taking a pending notification. -/
def popPending (w : World π ℓ σ α) (l : ℓ) : World π ℓ σ α :=
  match w.loop l, w.lists.get (.inr l) with
  | .idle, (some s, lists) =>
      { w with lists := lists, loop := Function.update w.loop l (.popped s) }
  | _, _ => w

/-- `EventLoop::processChangeNotifications()`, up to the callback. -/
def beginCallback (w : World π ℓ σ α) (l : ℓ) : World π ℓ σ α :=
  match w.loop l with
  | .popped s =>
      match (w.subscriber s).modelPoint with
      | none => { w with fatalError := true }
      | some p =>
          { processSubscriptionEvent wiring w p s .notifying with
            loop := Function.update w.loop l (.notifying s p (w.changes p))
            basis := Function.update w.basis s (.calledBack (w.changes p)) }
  | _ => w

/-- `EventLoop::processChangeNotifications()`, after the callback. -/
def notifyComplete (w : World π ℓ σ α) (l : ℓ) : World π ℓ σ α :=
  match w.loop l with
  | .notifying s p _ =>
      { processSubscriptionEvent wiring w p s .notifyComplete with
        loop := Function.update w.loop l .idle }
  | _ => w

/-- The writers' and the event loops' steps. Each holds the lock of the model database. -/
inductive Step (π ℓ σ α : Type) where
  | change (p : π) (op : Write α)
  | attach (s : σ) (initialSeqNumber : Nat)
  | detach (s : σ)
  | popPending (l : ℓ)
  | beginCallback (l : ℓ)
  | notifyComplete (l : ℓ)

def step (w : World π ℓ σ α) : Step π ℓ σ α → World π ℓ σ α
  | .change p op => change wiring w p op
  | .attach s initialSeqNumber => attachSubscriber wiring w (wiring.pointOf s) s initialSeqNumber
  | .detach s => detachSubscriber wiring w (wiring.pointOf s) s
  | .popPending l => popPending w l
  | .beginCallback l => beginCallback wiring w l
  | .notifyComplete l => notifyComplete wiring w l

omit [DecidableEq π] [DecidableEq ℓ] [DecidableEq σ] in
/-- Points with any data, and nothing attached. -/
def World.init (data : π → α) (valid locked : π → Bool) : World π ℓ σ α :=
  { point := fun p => { Point.init (data p) (valid p) with locked := locked p }
    subscriber := fun _ => Subscriber.init
    lists := Lists.empty
    loop := fun _ => .idle
    fatalError := false
    changes := fun _ => 0
    basis := fun _ => .presented sequenceNumberUnknown }

end ColonyPico.Dm.ChangeNotification
