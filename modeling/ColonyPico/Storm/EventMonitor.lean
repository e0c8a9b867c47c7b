import Mathlib.Tactic.Linarith
import Mathlib.Tactic.NormNum
import ColonyPico.Dm.LockState
import ColonyPico.Foundations.Runs
import ColonyPico.Storm.Config

/-!
The shadow copies that the user interface (`PicoDisplay::EventMonitor`) keeps of the user's mode,
fan mode and setpoints, and their write-back when the selection timer expires.
-/

namespace ColonyPico.Storm.EventMonitor

open ColonyPico.Dm.ModelPoint
open ColonyPico.Dm.LockState
open ColonyPico.Foundations.Runs
open ColonyPico.Storm.Config

/-- What `write()` makes of a value before it stores it, and the data of an invalid model point. -/
structure ElementType (α : Type) where
  checked : α → α
  checked_checked : ∀ a, checked (checked a) = checked a
  invalidData : α
  checked_invalidData : checked invalidData = invalidData

/-- The data that a model point of the type can hold. -/
abbrev Data {α : Type} (t : ElementType α) : Type :=
  { a : α // t.checked a = a }

/-- An element of the user interface: the shadow copy and its model point, whether a change
notification is on its way, and whether a button event changed the copy after it was last read from
the point. -/
structure Element {α : Type} (t : ElementType α) where
  shadow : α
  point : LockablePoint (Data t)
  pending : Bool
  edited : Bool

inductive Change (α : Type) where
  | write (value : α) (lockRequest : LockRequest)
  | setInvalid (lockRequest : LockRequest)
  | setLockState (lockRequest : LockRequest)

section Elements

variable {α : Type} [DecidableEq α] {t : ElementType α}

def write (p : LockablePoint (Data t)) (value : α) (lockRequest : LockRequest) :
    LockablePoint (Data t) :=
  lockedUpdate p lockRequest fun q =>
    q.write (fun a b => a == b) ⟨t.checked value, t.checked_checked value⟩

def setInvalid (p : LockablePoint (Data t)) (lockRequest : LockRequest) :
    LockablePoint (Data t) :=
  lockedUpdate p lockRequest fun q => q.setInvalid ⟨t.invalidData, t.checked_invalidData⟩

def Change.apply (p : LockablePoint (Data t)) : Change α → LockablePoint (Data t)
  | .write value lockRequest => EventMonitor.write p value lockRequest
  | .setInvalid lockRequest => EventMonitor.setInvalid p lockRequest
  | .setLockState lockRequest => Dm.LockState.setLockState p lockRequest

/-- The point has a new state; the observer is notified if its sequence number has changed. -/
def Element.update (e : Element t) (p : LockablePoint (Data t)) : Element t :=
  { e with point := p, pending := e.pending || p.seqNum != e.point.seqNum }

/-- `readAndSync()`; the copy takes the value `unread` when the point is invalid. -/
def Element.readAndSync (e : Element t) (unread : α) : Element t :=
  { e with
    shadow := if e.point.valid then e.point.data else unread
    pending := false
    edited := !e.point.valid && e.edited }

def Element.edit (e : Element t) (shadow : α) : Element t :=
  { e with shadow := shadow, edited := e.edited || shadow != e.shadow }

end Elements

structure Setpoints where
  coolSetpt : ℚ
  heatSetpt : ℚ
  deriving DecidableEq

def maxCooling : ℚ := 95
def minCooling : ℚ := 55
def maxHeating : ℚ := 90
def minHeating : ℚ := 50

def enforceRange (low high value : ℚ) : ℚ :=
  if high < value then high else if value < low then low else value

def validateSetpoints (new : Setpoints) : Setpoints :=
  let newCooling := enforceRange minCooling maxCooling new.coolSetpt
  let newHeating := enforceRange minHeating maxHeating new.heatSetpt
  { coolSetpt := newCooling
    heatSetpt := if newCooling ≤ newHeating then newCooling - 1 else newHeating }

theorem enforceRange_mem {low high : ℚ} (hle : low ≤ high) (value : ℚ) :
    low ≤ enforceRange low high value ∧ enforceRange low high value ≤ high := by
  rw [enforceRange]
  split_ifs <;> constructor <;> linarith

theorem enforceRange_eq {low high value : ℚ} (hlow : low ≤ value) (hhigh : value ≤ high) :
    enforceRange low high value = value := by
  rw [enforceRange, if_neg (not_lt.mpr hhigh), if_neg (not_lt.mpr hlow)]

structure Obeys (s : Setpoints) : Prop where
  cooling : minCooling ≤ s.coolSetpt ∧ s.coolSetpt ≤ maxCooling
  heating : minHeating ≤ s.heatSetpt ∧ s.heatSetpt ≤ maxHeating
  apart : s.heatSetpt < s.coolSetpt

theorem obeys_validateSetpoints (new : Setpoints) : Obeys (validateSetpoints new) := by
  have hcooling := @enforceRange_mem minCooling maxCooling (by decide) new.coolSetpt
  have hheating := @enforceRange_mem minHeating maxHeating (by decide) new.heatSetpt
  refine ⟨hcooling, ?_, ?_⟩
  · show _ ≤ ite _ _ _ ∧ ite _ _ _ ≤ _
    split_ifs with hle
    · simp only [minCooling, maxCooling, minHeating, maxHeating] at hcooling hheating hle ⊢
      constructor <;> linarith
    · exact hheating
  · show ite _ _ _ < _
    split_ifs with hle
    · exact sub_one_lt _
    · exact not_le.mp hle

theorem validateSetpoints_eq {s : Setpoints} (h : Obeys s) : validateSetpoints s = s := by
  rcases s with ⟨cool, heat⟩
  simp only [validateSetpoints, enforceRange_eq h.cooling.1 h.cooling.2,
    enforceRange_eq h.heating.1 h.heating.2, if_neg (not_le.mpr h.apart)]

/-- The model points of the user's mode and of the fan mode store what they are given. -/
def plain {α : Type} (invalidData : α) : ElementType α :=
  { checked := id
    checked_checked := fun _ => rfl
    invalidData := invalidData
    checked_invalidData := rfl }

/-- `MpSetpoints`. -/
def setpointsType : ElementType Setpoints :=
  { checked := validateSetpoints
    checked_checked := fun new => validateSetpoints_eq (obeys_validateSetpoints new)
    invalidData := { coolSetpt := maxCooling, heatSetpt := minHeating }
    checked_invalidData := by decide }

/-- Where `expired()` is: what it writes next. -/
inductive Expired where
  | returned
  | writingFan
  | writingSetpoints
  deriving DecidableEq

/-- The event monitor, with its timer. -/
structure Monitor where
  userMode : Element (plain ThermostatMode.off)
  fanMode : Element (plain FanMode.auto)
  setpoints : Element setpointsType
  modeActive : Bool
  fanActive : Bool
  setPointActive : Bool
  coolingSetpointActive : Bool
  timerStarted : Bool
  expired : Expired

/-- `start()`: attaching to the model points brings a first notification of each. -/
def Monitor.start (userMode : Element (plain ThermostatMode.off))
    (fanMode : Element (plain FanMode.auto)) (setpoints : Element setpointsType) : Monitor :=
  { userMode := { userMode with pending := true, edited := false }
    fanMode := { fanMode with pending := true, edited := false }
    setpoints := { setpoints with pending := true, edited := false }
    modeActive := false
    fanActive := false
    setPointActive := false
    coolingSetpointActive := true
    timerStarted := false
    expired := .returned }

def thermostatModeChange (m : Monitor) : Monitor :=
  { m with
    userMode := m.userMode.readAndSync m.userMode.shadow
    modeActive := !m.userMode.point.valid && m.modeActive }

def fanModeChange (m : Monitor) : Monitor :=
  { m with
    fanMode := m.fanMode.readAndSync m.fanMode.shadow
    fanActive := !m.fanMode.point.valid && m.fanActive }

/-- The setpoints of an invalid point are what the stack holds: `readAndSync()` copies its local
`dst` in any case. -/
def setpointsModeChange (m : Monitor) (stack : Setpoints) : Monitor :=
  { m with
    setpoints := m.setpoints.readAndSync stack
    setPointActive := !m.setpoints.point.valid && m.setPointActive }

def nextMode : ThermostatMode → ThermostatMode
  | .off => .cooling
  | .cooling => .heating
  | .heating => .auto
  | .auto => .idHeating
  | .idHeating => .off

def toggleFan : FanMode → FanMode
  | .continuous => .auto
  | .auto => .continuous

def toggleSetpoint (m : Monitor) : Monitor :=
  { m with coolingSetpointActive := !m.coolingSetpointActive }

def changeSetpoint (coolingSetpointActive : Bool) (delta : ℚ) (s : Setpoints) : Setpoints :=
  if coolingSetpointActive then
    let cooling := enforceRange minCooling maxCooling (s.coolSetpt + delta)
    { coolSetpt := cooling
      heatSetpt := if cooling ≤ s.heatSetpt then cooling - 1 else s.heatSetpt }
  else
    let heating := enforceRange minHeating maxHeating (s.heatSetpt + delta)
    { coolSetpt := if s.coolSetpt ≤ heating then heating + 1 else s.coolSetpt
      heatSetpt := heating }

def buttonEventMode (m : Monitor) : Monitor :=
  if m.setPointActive then toggleSetpoint m
  else if !m.modeActive then
    { m with modeActive := true, fanActive := false, timerStarted := true }
  else
    { m with userMode := m.userMode.edit (nextMode m.userMode.shadow), timerStarted := true }

def buttonEventFan (m : Monitor) : Monitor :=
  if m.setPointActive then toggleSetpoint m
  else if !m.fanActive then
    { m with modeActive := false, fanActive := true, timerStarted := true }
  else
    { m with fanMode := m.fanMode.edit (toggleFan m.fanMode.shadow), timerStarted := true }

/-- `buttonEventUp()` and `buttonEventDown()`. -/
def buttonEventSetpoint (delta : ℚ) (m : Monitor) : Monitor :=
  if !m.setPointActive then
    { m with
      setPointActive := true
      coolingSetpointActive := true
      modeActive := false
      fanActive := false
      timerStarted := true }
  else
    { m with
      setpoints := m.setpoints.edit
        (changeSetpoint m.coolingSetpointActive delta m.setpoints.shadow)
      timerStarted := true }

def buttonEventUp : Monitor → Monitor :=
  buttonEventSetpoint 1

def buttonEventDown : Monitor → Monitor :=
  buttonEventSetpoint (-1)

inductive Button where
  | mode
  | fan
  | up
  | down

def buttonEvent : Button → Monitor → Monitor
  | .mode => buttonEventMode
  | .fan => buttonEventFan
  | .up => buttonEventUp
  | .down => buttonEventDown

/-- What happens next: the application changes a model point, a notification of a model point or of
a button arrives, the timer expires, or `expired()` goes on with its next write. -/
inductive Action where
  | changeUserMode (change : Change ThermostatMode)
  | changeFanMode (change : Change FanMode)
  | changeSetpoints (change : Change Setpoints)
  | thermostatModeChange
  | fanModeChange
  | setpointsModeChange (stack : Setpoints)
  | button (button : Button) (pressed : Bool)
  | expired
  | proceed

/-- The callbacks run one after the other in the thread of the event monitor. -/
def whenIdle (m : Monitor) (enabled : Bool) (m' : Monitor) : Option Monitor :=
  if m.expired = .returned ∧ enabled = true then some m' else none

def commit {α : Type} [DecidableEq α] {t : ElementType α} (e : Element t) : Element t :=
  e.update (write e.point e.shadow .noRequest)

def step (m : Monitor) : Action → Option Monitor
  | .changeUserMode change =>
      some { m with userMode := m.userMode.update (change.apply m.userMode.point) }
  | .changeFanMode change =>
      some { m with fanMode := m.fanMode.update (change.apply m.fanMode.point) }
  | .changeSetpoints change =>
      some { m with setpoints := m.setpoints.update (change.apply m.setpoints.point) }
  | .thermostatModeChange =>
      whenIdle m m.userMode.pending (EventMonitor.thermostatModeChange m)
  | .fanModeChange => whenIdle m m.fanMode.pending (EventMonitor.fanModeChange m)
  | .setpointsModeChange stack =>
      whenIdle m m.setpoints.pending (EventMonitor.setpointsModeChange m stack)
  | .button button pressed => whenIdle m true (if pressed then buttonEvent button m else m)
  | .expired =>
      whenIdle m m.timerStarted
        { m with userMode := commit m.userMode, timerStarted := false, expired := .writingFan }
  | .proceed =>
      match m.expired with
      | .returned => none
      | .writingFan => some { m with fanMode := commit m.fanMode, expired := .writingSetpoints }
      | .writingSetpoints =>
          some { m with
            setpoints := commit m.setpoints
            modeActive := false
            fanActive := false
            setPointActive := false
            expired := .returned }

/-- The value and the validity of the model point are the same. -/
def SameState {α : Type} {t : ElementType α} (e e' : Element t) : Prop :=
  e'.point.valid = e.point.valid ∧ e'.point.data = e.point.data

/-- The model points that differ are those of edited elements. -/
def ChangesOnlyEdited (m m' : Monitor) : Prop :=
  (m.userMode.edited = true ∨ SameState m.userMode m'.userMode) ∧
    (m.fanMode.edited = true ∨ SameState m.fanMode m'.fanMode) ∧
    (m.setpoints.edited = true ∨ SameState m.setpoints m'.setpoints)

/-- A write of the expired timer changes the model points of edited elements only. -/
def CommitsOnlyEdited (m : Monitor) : Action → Prop
  | .expired => ∀ m', step m .expired = some m' → ChangesOnlyEdited m m'
  | .proceed => ∀ m', step m .proceed = some m' → ChangesOnlyEdited m m'
  | _ => True

/-- If the user did not edit the element, its point is valid and no change of it is still to be
notified, or the point is locked. -/
def Settled {α : Type} {t : ElementType α} (e : Element t) : Prop :=
  e.edited = true ∨ e.point.locked = true ∨ (e.point.valid = true ∧ e.pending = false)

instance {α : Type} {t : ElementType α} (e : Element t) : Decidable (Settled e) :=
  inferInstanceAs (Decidable (_ ∨ _))

/-- The timer writes settled elements only. -/
def WritesSettled (m : Monitor) : Action → Prop
  | .expired => Settled m.userMode
  | .proceed =>
      (m.expired = .writingFan → Settled m.fanMode) ∧
        (m.expired = .writingSetpoints → Settled m.setpoints)
  | _ => True

instance (m : Monitor) : ∀ action, Decidable (WritesSettled m action)
  | .changeUserMode _ => .isTrue trivial
  | .changeFanMode _ => .isTrue trivial
  | .changeSetpoints _ => .isTrue trivial
  | .thermostatModeChange => .isTrue trivial
  | .fanModeChange => .isTrue trivial
  | .setpointsModeChange _ => .isTrue trivial
  | .button _ _ => .isTrue trivial
  | .expired => inferInstanceAs (Decidable (Settled m.userMode))
  | .proceed => inferInstanceAs (Decidable (_ ∧ _))

section Elements

variable {α : Type} [DecidableEq α] {t : ElementType α} {e : Element t}
  {p p' : LockablePoint (Data t)}

/-- A valid element that nobody changed is the copy of its model point. -/
def Synced (e : Element t) : Prop :=
  e.pending = false → e.point.valid = true → e.edited = false → e.shadow = e.point.data

/-- An operation on a model point that leaves its sequence number leaves its state. -/
def Announces (p p' : LockablePoint (Data t)) : Prop :=
  p'.seqNum = p.seqNum → p'.valid = p.valid ∧ p'.data = p.data

omit [DecidableEq α] in
theorem announces_lockedUpdate {lockRequest : LockRequest} {f : Point (Data t) → Point (Data t)}
    (hf : f p.toPoint = p.toPoint ∨
      (f p.toPoint).seqNum = advanceSequenceNumber p.seqNum) :
    Announces p (lockedUpdate p lockRequest f) := by
  intro hsame
  simp only [lockedUpdate] at hsame ⊢
  split_ifs at hsame ⊢
  · rcases hf with hkept | hadvanced
    · rw [hkept]
      exact ⟨rfl, rfl⟩
    · exact absurd (hadvanced.symm.trans hsame) (advanceSequenceNumber_ne _)
  · exact ⟨rfl, rfl⟩

theorem announces_write (value : α) (lockRequest : LockRequest) :
    Announces p (write p value lockRequest) := by
  refine announces_lockedUpdate ?_
  rw [Point.write]
  split_ifs
  · exact .inr rfl
  · exact .inl rfl

theorem announces_change (change : Change α) : Announces p (change.apply p) := by
  cases change with
  | write value lockRequest => exact announces_write value lockRequest
  | setInvalid lockRequest =>
      refine announces_lockedUpdate ?_
      rw [Point.setInvalid]
      split_ifs
      · exact .inr rfl
      · exact .inl rfl
  | setLockState lockRequest => exact fun _ => ⟨rfl, rfl⟩

omit [DecidableEq α] in
theorem synced_update (h : Synced e) (hannounces : Announces e.point p) : Synced (e.update p) := by
  intro hpending hvalid hedited
  obtain ⟨hnone, hsame⟩ := Bool.or_eq_false_iff.mp hpending
  obtain ⟨hvalid', hdata⟩ := hannounces (not_not.mp fun hne => by simp [hne] at hsame)
  show e.shadow = p.data
  rw [hdata]
  exact h hnone (hvalid'.symm.trans hvalid) hedited

omit [DecidableEq α] in
theorem synced_readAndSync (unread : α) : Synced (e.readAndSync unread) := by
  rintro - hvalid -
  exact if_pos hvalid

theorem synced_edit (h : Synced e) (shadow : α) : Synced (e.edit shadow) := by
  intro hpending hvalid hedited
  obtain ⟨hbefore, hsame⟩ := Bool.or_eq_false_iff.mp hedited
  have hshadow : shadow = e.shadow := by simpa using hsame
  show shadow = e.point.data
  rw [hshadow]
  exact h hpending hvalid hbefore

/-- Writing back a copy that is in step with its model point does nothing. -/
theorem commit_sameState (h : Synced e) (hsettled : Settled e) :
    e.edited = true ∨ SameState e (commit e) := by
  rcases hsettled with hedited | hlocked | ⟨hvalid, hpending⟩
  · exact .inl hedited
  · refine .inr ?_
    have hkept : write e.point e.shadow .noRequest = e.point :=
      lockedUpdate_noRequest hlocked _
    show (write e.point e.shadow .noRequest).valid = e.point.valid ∧
      (write e.point e.shadow .noRequest).data = e.point.data
    rw [hkept]
    exact ⟨rfl, rfl⟩
  · rcases hedited : e.edited with - | -
    · refine .inr ?_
      have hshadow := h hpending hvalid hedited
      have hequal : (⟨t.checked e.shadow, t.checked_checked e.shadow⟩ : Data t) = e.point.data :=
        Subtype.ext ((congrArg t.checked hshadow).trans (hshadow ▸ e.point.data.2))
      have hkept : (write e.point e.shadow .noRequest).toPoint = e.point.toPoint := by
        simp only [write, lockedUpdate, hequal, Point.write, hvalid]
        simp
      show (write e.point e.shadow .noRequest).toPoint.valid = e.point.valid ∧
        (write e.point e.shadow .noRequest).toPoint.data = e.point.data
      rw [hkept]
      exact ⟨rfl, rfl⟩
    · exact .inl rfl

end Elements

section Runs

variable {m m' : Monitor} {action : Action}

structure Inv (m : Monitor) : Prop where
  userMode : Synced m.userMode
  fanMode : Synced m.fanMode
  setpoints : Synced m.setpoints

theorem inv_start (userMode : Element (plain ThermostatMode.off))
    (fanMode : Element (plain FanMode.auto)) (setpoints : Element setpointsType) :
    Inv (Monitor.start userMode fanMode setpoints) :=
  ⟨by rintro ⟨⟩, by rintro ⟨⟩, by rintro ⟨⟩⟩

theorem inv_buttonEvent (h : Inv m) (button : Button) : Inv (buttonEvent button m) := by
  cases button with
  | mode =>
      show Inv (buttonEventMode m)
      rw [buttonEventMode]
      split_ifs
      · exact ⟨h.userMode, h.fanMode, h.setpoints⟩
      · exact ⟨h.userMode, h.fanMode, h.setpoints⟩
      · exact ⟨synced_edit h.userMode _, h.fanMode, h.setpoints⟩
  | fan =>
      show Inv (buttonEventFan m)
      rw [buttonEventFan]
      split_ifs
      · exact ⟨h.userMode, h.fanMode, h.setpoints⟩
      · exact ⟨h.userMode, h.fanMode, h.setpoints⟩
      · exact ⟨h.userMode, synced_edit h.fanMode _, h.setpoints⟩
  | up =>
      show Inv (buttonEventSetpoint 1 m)
      rw [buttonEventSetpoint]
      split_ifs
      · exact ⟨h.userMode, h.fanMode, h.setpoints⟩
      · exact ⟨h.userMode, h.fanMode, synced_edit h.setpoints _⟩
  | down =>
      show Inv (buttonEventSetpoint (-1) m)
      rw [buttonEventSetpoint]
      split_ifs
      · exact ⟨h.userMode, h.fanMode, h.setpoints⟩
      · exact ⟨h.userMode, h.fanMode, synced_edit h.setpoints _⟩

theorem of_whenIdle {enabled : Bool} {next : Monitor}
    (hstep : whenIdle m enabled next = some m') : m' = next := by
  rw [whenIdle] at hstep
  split_ifs at hstep
  exact (Option.some.inj hstep).symm

theorem inv_step (h : Inv m) (hstep : step m action = some m') : Inv m' := by
  cases action with
  | changeUserMode change =>
      obtain rfl := Option.some.inj hstep
      exact ⟨synced_update h.userMode (announces_change change), h.fanMode, h.setpoints⟩
  | changeFanMode change =>
      obtain rfl := Option.some.inj hstep
      exact ⟨h.userMode, synced_update h.fanMode (announces_change change), h.setpoints⟩
  | changeSetpoints change =>
      obtain rfl := Option.some.inj hstep
      exact ⟨h.userMode, h.fanMode, synced_update h.setpoints (announces_change change)⟩
  | thermostatModeChange =>
      obtain rfl := of_whenIdle hstep
      exact ⟨synced_readAndSync _, h.fanMode, h.setpoints⟩
  | fanModeChange =>
      obtain rfl := of_whenIdle hstep
      exact ⟨h.userMode, synced_readAndSync _, h.setpoints⟩
  | setpointsModeChange stack =>
      obtain rfl := of_whenIdle hstep
      exact ⟨h.userMode, h.fanMode, synced_readAndSync _⟩
  | button button pressed =>
      obtain rfl := of_whenIdle hstep
      cases pressed with
      | false => exact h
      | true => exact inv_buttonEvent h button
  | expired =>
      obtain rfl := of_whenIdle hstep
      exact ⟨synced_update h.userMode (announces_write _ _), h.fanMode, h.setpoints⟩
  | proceed =>
      rw [step] at hstep
      split at hstep
      · cases hstep
      · obtain rfl := Option.some.inj hstep
        exact ⟨h.userMode, synced_update h.fanMode (announces_write _ _), h.setpoints⟩
      · obtain rfl := Option.some.inj hstep
        exact ⟨h.userMode, h.fanMode, synced_update h.setpoints (announces_write _ _)⟩

theorem commitsOnlyEdited_of_writesSettled (h : Inv m) (hsettled : WritesSettled m action) :
    CommitsOnlyEdited m action := by
  cases action with
  | expired =>
      intro m' hstep
      obtain rfl := of_whenIdle hstep
      exact ⟨commit_sameState h.userMode hsettled, .inr ⟨rfl, rfl⟩, .inr ⟨rfl, rfl⟩⟩
  | proceed =>
      intro m' hstep
      rw [step] at hstep
      split at hstep
      · cases hstep
      · rename_i hexpired
        obtain rfl := Option.some.inj hstep
        exact ⟨.inr ⟨rfl, rfl⟩, commit_sameState h.fanMode (hsettled.1 hexpired),
          .inr ⟨rfl, rfl⟩⟩
      · rename_i hexpired
        obtain rfl := Option.some.inj hstep
        exact ⟨.inr ⟨rfl, rfl⟩, .inr ⟨rfl, rfl⟩,
          commit_sameState h.setpoints (hsettled.2 hexpired)⟩
  | changeUserMode change => trivial
  | changeFanMode change => trivial
  | changeSetpoints change => trivial
  | thermostatModeChange => trivial
  | fanModeChange => trivial
  | setpointsModeChange stack => trivial
  | button button pressed => trivial

/-- In a run in which the timer writes settled elements only, it changes edited elements only. -/
theorem commitsOnlyEdited_of_settled (userMode : Element (plain ThermostatMode.off))
    (fanMode : Element (plain FanMode.auto)) (setpoints : Element setpointsType)
    {actions : List Action}
    (hsettled : AllSteps step WritesSettled (Monitor.start userMode fanMode setpoints) actions) :
    AllSteps step CommitsOnlyEdited (Monitor.start userMode fanMode setpoints) actions :=
  allSteps_of_invariant (fun _ _ _ h _ hstep => inv_step h hstep)
    (fun _ _ h hsettled => commitsOnlyEdited_of_writesSettled h hsettled)
    (inv_start userMode fanMode setpoints) hsettled

end Runs

def testElement {α : Type} (t : ElementType α) (value : Data t) : Element t :=
  { shadow := value
    point := { data := value, valid := true, seqNum := 1, locked := false }
    pending := false
    edited := false }

def testMonitor : Monitor :=
  Monitor.start (testElement _ ⟨.off, rfl⟩) (testElement _ ⟨.auto, rfl⟩)
    (testElement setpointsType ⟨⟨78, 68⟩, by decide⟩)

/-- The first notifications, then the user selects the fan and switches it. -/
def switchFan : List Action :=
  [.thermostatModeChange, .fanModeChange, .setpointsModeChange ⟨0, 0⟩, .button .fan true,
    .button .fan true]

theorem commitsOnlyEdited_switchFan :
    AllSteps step CommitsOnlyEdited testMonitor (switchFan ++ [.expired, .proceed, .proceed]) :=
  commitsOnlyEdited_of_settled _ _ _ (by decide)

/-- The application switches to heating after the last notification, and the timer switches it off
again. -/
theorem not_commitsOnlyEdited_heating : ¬∀ (userMode : Element (plain ThermostatMode.off))
    (fanMode : Element (plain FanMode.auto)) (setpoints : Element setpointsType)
    (actions : List Action),
    AllSteps step CommitsOnlyEdited (Monitor.start userMode fanMode setpoints) actions := by
  intro hall
  have hcommits := (hall (testElement _ ⟨.off, rfl⟩) (testElement _ ⟨.auto, rfl⟩)
    (testElement setpointsType ⟨⟨78, 68⟩, by decide⟩)
    (switchFan ++ [.changeUserMode (.write .heating .noRequest)] ++ .expired :: [])).at rfl
  rcases (hcommits _ rfl).1 with hedited | ⟨-, hdata⟩
  · cases hedited
  · cases congrArg Subtype.val hdata

end ColonyPico.Storm.EventMonitor
