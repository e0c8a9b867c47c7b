import ColonyPico.Dm.RecordPoints
import ColonyPico.Json.Variant
import ColonyPico.Storm.EventMonitor

/-!
The rules of the setpoints, where the model point (`Storm::Dm::MpSetpoints`) enforces them and where
the user interface (`PicoDisplay::EventMonitor`) does.
-/

namespace ColonyPico.Storm.SetpointRules

open Dm.ModelPoint Dm.LockState Dm.RecordPoints Foundations.Runs Json.Variant
open EventMonitor (Setpoints Obeys validateSetpoints changeSetpoint enforceRange Monitor Button)
open EventMonitor (minCooling maxCooling minHeating maxHeating)

section ModelPoint

abbrev MpSetpoints := LockablePoint Setpoints

namespace MpSetpoints

def hookSetInvalid : Setpoints :=
  { coolSetpt := maxCooling, heatSetpt := minHeating }

def init (coolSetpt heatSetpt : ℚ) : MpSetpoints :=
  { toPoint := Point.init (validateSetpoints ⟨coolSetpt, heatSetpt⟩) true, locked := false }

variable (mp : MpSetpoints)

def write (newCoolingSetpoint newHeatingSetpoint : ℚ) (lockRequest : LockRequest) : MpSetpoints :=
  writeRecord mp (validateSetpoints ⟨newCoolingSetpoint, newHeatingSetpoint⟩) lockRequest

def writeCool (newSetpoint : ℚ) (lockRequest : LockRequest) : MpSetpoints :=
  writeRecord mp (validateSetpoints ⟨newSetpoint, mp.data.heatSetpt⟩) lockRequest

def writeHeat (newSetpoint : ℚ) (lockRequest : LockRequest) : MpSetpoints :=
  writeRecord mp (validateSetpoints ⟨mp.data.coolSetpt, newSetpoint⟩) lockRequest

/-- `fromJSON_()`: the model point, and the error message. -/
def fromJSON (src : JsonVariant ℚ) (lockRequest : LockRequest) : MpSetpoints × Option String :=
  if src.isObject then
    let cool := (src.getMember "cool").asFloat.getD mp.data.coolSetpt
    let heat := (src.getMember "heat").asFloat.getD mp.data.heatSetpt
    (write mp cool heat lockRequest, none)
  else (mp, some "Invalid key/value for 'val'")

end MpSetpoints

/-- A call, but for `copyFrom()`. -/
inductive Operation where
  | write (newCoolingSetpoint newHeatingSetpoint : ℚ) (lockRequest : LockRequest)
  | writeCool (newSetpoint : ℚ) (lockRequest : LockRequest)
  | writeHeat (newSetpoint : ℚ) (lockRequest : LockRequest)
  | fromJSON (src : JsonVariant ℚ) (lockRequest : LockRequest)
  | setInvalid (lockRequest : LockRequest)
  | setLockState (lockRequest : LockRequest)

def Operation.perform (mp : MpSetpoints) : Operation → MpSetpoints
  | write newCoolingSetpoint newHeatingSetpoint lockRequest =>
      mp.write newCoolingSetpoint newHeatingSetpoint lockRequest
  | writeCool newSetpoint lockRequest => mp.writeCool newSetpoint lockRequest
  | writeHeat newSetpoint lockRequest => mp.writeHeat newSetpoint lockRequest
  | fromJSON src lockRequest => (mp.fromJSON src lockRequest).1
  | setInvalid lockRequest =>
      Dm.RecordPoints.setInvalid MpSetpoints.hookSetInvalid mp lockRequest
  | setLockState lockRequest => Dm.LockState.setLockState mp lockRequest

inductive Reached : MpSetpoints → Prop where
  | init (coolSetpt heatSetpt : ℚ) : Reached (MpSetpoints.init coolSetpt heatSetpt)
  | perform {mp} (h : Reached mp) (operation : Operation) : Reached (operation.perform mp)
  | copyFrom {mp src} (h : Reached mp) (hsrc : Reached src) (lockRequest : LockRequest) :
      Reached (copyFrom MpSetpoints.hookSetInvalid mp src lockRequest)

variable {mp : MpSetpoints} {lockRequest : LockRequest}

theorem obeys_hookSetInvalid : Obeys MpSetpoints.hookSetInvalid := by
  constructor
  · simp only [MpSetpoints.hookSetInvalid, minCooling, maxCooling]
    norm_num
  · simp only [MpSetpoints.hookSetInvalid, minHeating, maxHeating]
    norm_num
  · simp only [MpSetpoints.hookSetInvalid, minHeating, maxCooling]
    norm_num

theorem obeys_writeValidated (h : Obeys mp.data) (new : Setpoints) (lockRequest : LockRequest) :
    Obeys (writeRecord mp (validateSetpoints new) lockRequest).data :=
  writeRecord_data h (EventMonitor.obeys_validateSetpoints new) lockRequest

theorem obeys_perform (h : Obeys mp.data) (operation : Operation) :
    Obeys (operation.perform mp).data := by
  cases operation with
  | write newCoolingSetpoint newHeatingSetpoint lockRequest => exact obeys_writeValidated h _ _
  | writeCool newSetpoint lockRequest => exact obeys_writeValidated h _ _
  | writeHeat newSetpoint lockRequest => exact obeys_writeValidated h _ _
  | fromJSON src lockRequest =>
      rw [Operation.perform, MpSetpoints.fromJSON]
      split
      · exact obeys_writeValidated h _ _
      · exact h
  | setInvalid lockRequest => exact setInvalid_data h obeys_hookSetInvalid lockRequest
  | setLockState lockRequest => exact h

theorem Reached.obeys (h : Reached mp) : Obeys mp.data := by
  induction h with
  | init coolSetpt heatSetpt => exact EventMonitor.obeys_validateSetpoints _
  | perform h operation ih => exact obeys_perform ih operation
  | copyFrom h hsrc lockRequest ih ihsrc =>
      exact copyFrom_data ih ihsrc obeys_hookSetInvalid lockRequest

theorem write_obeying {s : Setpoints} (hs : Obeys s) (hgranted : ¬ Refused mp lockRequest) :
    (mp.write s.coolSetpt s.heatSetpt lockRequest).toPoint.read = some s := by
  have hvalidated : validateSetpoints ⟨s.coolSetpt, s.heatSetpt⟩ = s :=
    EventMonitor.validateSetpoints_eq hs
  rw [MpSetpoints.write, hvalidated, writeRecord_eq, lockedUpdate_granted hgranted, stored_eq,
    Point.read]
  split
  case isTrue => rfl
  case isFalse h =>
    rw [not_or, Bool.not_eq_false, not_not] at h
    rw [if_pos h.1, h.2]

end ModelPoint

section Buttons

/-- An edit that obeys the rules of one setpoint moves the other one out of its way within the rules
of that one. -/
theorem obeys_changeSetpoint {s : Setpoints} (h : Obeys s) (coolingSetpointActive : Bool)
    (delta : ℚ) : Obeys (changeSetpoint coolingSetpointActive delta s) := by
  have hcool := @EventMonitor.enforceRange_mem minCooling maxCooling (by decide)
    (s.coolSetpt + delta)
  have hheat := @EventMonitor.enforceRange_mem minHeating maxHeating (by decide)
    (s.heatSetpt + delta)
  obtain ⟨hcooling, hheating, hapart⟩ := h
  cases coolingSetpointActive with
  | true =>
      simp only [changeSetpoint, if_true]
      generalize enforceRange minCooling maxCooling (s.coolSetpt + delta) = cooling at hcool ⊢
      refine ⟨hcool, ?_, ?_⟩
      · split
        case isTrue hle =>
          simp only [minCooling, maxCooling, minHeating, maxHeating] at hcool hheating hle ⊢
          constructor
          · linarith
          · linarith
        case isFalse => exact hheating
      · split
        case isTrue => exact sub_one_lt cooling
        case isFalse hlt => exact not_le.1 hlt
  | false =>
      simp only [changeSetpoint, Bool.false_eq_true, if_false]
      generalize enforceRange minHeating maxHeating (s.heatSetpt + delta) = heating at hheat ⊢
      refine ⟨?_, hheat, ?_⟩
      · split
        case isTrue hle =>
          simp only [minCooling, maxCooling, minHeating, maxHeating] at hheat hcooling hle ⊢
          constructor
          · linarith
          · linarith
        case isFalse => exact hcooling
      · split
        case isTrue => exact lt_add_one heating
        case isFalse hlt => exact not_le.1 hlt

theorem obeys_buttonEventSetpoint {m : Monitor} (h : Obeys m.setpoints.shadow) (delta : ℚ) :
    Obeys (EventMonitor.buttonEventSetpoint delta m).setpoints.shadow := by
  unfold EventMonitor.buttonEventSetpoint
  split
  · exact h
  · exact obeys_changeSetpoint h _ delta

theorem obeys_buttonEvent {m : Monitor} (h : Obeys m.setpoints.shadow) (button : Button) :
    Obeys (EventMonitor.buttonEvent button m).setpoints.shadow := by
  cases button with
  | mode =>
      rw [EventMonitor.buttonEvent, EventMonitor.buttonEventMode]
      split_ifs
      · exact h
      · exact h
      · exact h
  | fan =>
      rw [EventMonitor.buttonEvent, EventMonitor.buttonEventFan]
      split_ifs
      · exact h
      · exact h
      · exact h
  | up => exact obeys_buttonEventSetpoint h 1
  | down => exact obeys_buttonEventSetpoint h (-1)

/-- A button is no part of the timer's write-back. -/
theorem expired_buttonEvent (m : Monitor) (button : Button) :
    (EventMonitor.buttonEvent button m).expired = m.expired := by
  cases button with
  | mode =>
      rw [EventMonitor.buttonEvent, EventMonitor.buttonEventMode]
      split_ifs
      · rfl
      · rfl
      · rfl
  | fan =>
      rw [EventMonitor.buttonEvent, EventMonitor.buttonEventFan]
      split_ifs
      · rfl
      · rfl
      · rfl
  | up =>
      show (EventMonitor.buttonEventSetpoint 1 m).expired = m.expired
      rw [EventMonitor.buttonEventSetpoint]
      split
      · rfl
      · rfl
  | down =>
      show (EventMonitor.buttonEventSetpoint (-1) m).expired = m.expired
      rw [EventMonitor.buttonEventSetpoint]
      split
      · rfl
      · rfl

/-- The events of the buttons, as they arrive at the event monitor. -/
def buttons (events : List (Button × Bool)) : List EventMonitor.Action :=
  events.map fun event => .button event.1 event.2

theorem exists_run_buttons {m : Monitor} (hreturned : m.expired = .returned)
    (h : Obeys m.setpoints.shadow) (events : List (Button × Bool)) :
    ∃ m', run EventMonitor.step m (buttons events) = some m' ∧ Obeys m'.setpoints.shadow := by
  induction events generalizing m with
  | nil => exact ⟨m, rfl, h⟩
  | cons event events ih =>
      obtain ⟨button, pressed⟩ := event
      have hstep : EventMonitor.step m (.button button pressed) =
          some (if pressed then EventMonitor.buttonEvent button m else m) :=
        if_pos ⟨hreturned, rfl⟩
      rw [buttons, List.map_cons, run, hstep, Option.bind_some]
      cases pressed with
      | false => exact ih hreturned h
      | true =>
          have hreturned' := (expired_buttonEvent m button).trans hreturned
          exact ih hreturned' (obeys_buttonEvent h button)

end Buttons

section Agreement

def forgetPoint (q : Point (EventMonitor.Data EventMonitor.setpointsType)) : Point Setpoints :=
  { data := q.data, valid := q.valid, seqNum := q.seqNum }

/-- The model point of the setpoints as the event monitor sees it. -/
def forget (p : LockablePoint (EventMonitor.Data EventMonitor.setpointsType)) : MpSetpoints :=
  { toPoint := forgetPoint p.toPoint, locked := p.locked }

theorem forgetPoint_write (q : Point (EventMonitor.Data EventMonitor.setpointsType))
    (new : EventMonitor.Data EventMonitor.setpointsType) :
    forgetPoint (q.write (fun a b => a == b) new) = stored new.1 (forgetPoint q) := by
  have hdiffers : (q.valid = false ∨ (q.data == new) = false) ↔
      (q.valid = false ∨ decide (q.data.1 = new.1) = false) := by
    rw [beq_eq_false_iff_ne, decide_eq_false_iff_not, Ne, Subtype.ext_iff]
  rw [Point.write, stored, Point.write]
  rcases Classical.em (q.valid = false ∨ (q.data == new) = false) with h | h
  · rw [if_pos h]
    exact (if_pos (hdiffers.1 h)).symm
  · rw [if_neg h]
    exact (if_neg (mt hdiffers.2 h)).symm

theorem forget_lockedUpdate (p : LockablePoint (EventMonitor.Data EventMonitor.setpointsType))
    (lockRequest : LockRequest)
    {f : Point (EventMonitor.Data EventMonitor.setpointsType) →
      Point (EventMonitor.Data EventMonitor.setpointsType)}
    {g : Point Setpoints → Point Setpoints}
    (h : forgetPoint (f p.toPoint) = g (forgetPoint p.toPoint)) :
    forget (lockedUpdate p lockRequest f) = lockedUpdate (forget p) lockRequest g := by
  obtain ⟨q, locked⟩ := p
  have hgranted : ∀ locked : Bool, (⟨forgetPoint (f q), locked⟩ : MpSetpoints) =
      ⟨g (forgetPoint q), locked⟩ := fun locked => congrArg (LockablePoint.mk · locked) h
  cases lockRequest with
  | noRequest =>
      cases locked with
      | false => exact hgranted false
      | true => rfl
  | lock => exact hgranted true
  | unlock => exact hgranted false

theorem forget_write (p : LockablePoint (EventMonitor.Data EventMonitor.setpointsType))
    (s : Setpoints) (lockRequest : LockRequest) :
    forget (EventMonitor.write p s lockRequest) =
      (forget p).write s.coolSetpt s.heatSetpt lockRequest :=
  forget_lockedUpdate p lockRequest (forgetPoint_write _ _)

/-- The model point keeps the rules, stores what obeys them, and is given what obeys them: the pair
that is displayed after any button events obeys them, and is the pair that the timer stores. -/
theorem setpoints_agree :
    (∀ mp : MpSetpoints, Reached mp → Obeys mp.data) ∧
    (∀ (mp : MpSetpoints) (s : Setpoints) (lockRequest : LockRequest), Obeys s →
      ¬ Refused mp lockRequest →
        (mp.write s.coolSetpt s.heatSetpt lockRequest).toPoint.read = some s) ∧
    ∀ (m : Monitor) (events : List (Button × Bool)), m.expired = .returned →
      Obeys m.setpoints.shadow →
        ∃ m', run EventMonitor.step m (buttons events) = some m' ∧
          Obeys m'.setpoints.shadow ∧
          (m'.setpoints.point.locked = false →
            (forget (EventMonitor.commit m'.setpoints).point).toPoint.read =
              some m'.setpoints.shadow) := by
  refine ⟨fun mp => Reached.obeys, fun mp s lockRequest => write_obeying, ?_⟩
  intro m events hreturned h
  obtain ⟨m', hrun, hobeys⟩ := exists_run_buttons hreturned h events
  refine ⟨m', hrun, hobeys, fun hunlocked => ?_⟩
  have hgranted : ¬ Refused (forget m'.setpoints.point) .noRequest := by
    rintro ⟨hlocked, -⟩
    exact absurd (hunlocked.symm.trans hlocked) (by decide)
  show (forget (EventMonitor.write m'.setpoints.point m'.setpoints.shadow .noRequest)).toPoint.read
    = some m'.setpoints.shadow
  rw [forget_write]
  exact write_obeying hobeys hgranted

/-- The first press of a button selects the cooling setpoint, the second one raises it. -/
theorem setpoints_agree_up :
    Obeys (MpSetpoints.init 40 99).data ∧
      ((MpSetpoints.init 40 99).write 55 50 .noRequest).toPoint.read = some ⟨55, 50⟩ ∧
      ∃ m', run EventMonitor.step EventMonitor.testMonitor
          (buttons [(.up, true), (.up, false), (.up, true)]) = some m' ∧
        Obeys m'.setpoints.shadow ∧
        (m'.setpoints.point.locked = false →
          (forget (EventMonitor.commit m'.setpoints).point).toPoint.read =
            some m'.setpoints.shadow) := by
  have hpair : Obeys ⟨55, 50⟩ :=
    ⟨by decide, by decide, by decide⟩
  have hdisplayed : Obeys EventMonitor.testMonitor.setpoints.shadow :=
    ⟨by decide, by decide, by decide⟩
  refine ⟨setpoints_agree.1 _ (.init 40 99), ?_, setpoints_agree.2.2 _ _ rfl hdisplayed⟩
  exact setpoints_agree.2.1 _ ⟨55, 50⟩ .noRequest hpair fun hrefused =>
    absurd hrefused.1 (by decide)

end Agreement

end ColonyPico.Storm.SetpointRules
