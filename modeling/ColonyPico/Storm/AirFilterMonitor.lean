import ColonyPico.Foundations.Runs
import ColonyPico.Storm.StageFsm
import ColonyPico.System.PrecisionTime

/-!
The operation time of the air filter (`Storm::Component::AirFilterMonitor`) against the time that
the blower was on.
-/

namespace ColonyPico.Storm.AirFilterMonitor

open ColonyPico.Foundations.Runs
open ColonyPico.Foundations.TwoDigits
open ColonyPico.Storm.Config
open ColonyPico.Storm.StageFsm
open ColonyPico.System.ElapsedTime
open ColonyPico.System.PrecisionTime

section Component

/-- `MpSimpleAlarm::Data`. -/
structure SimpleAlarm where
  active : Bool
  acked : Bool
  critical : Bool
  deriving DecidableEq, Repr

/-- What the component only reads. -/
structure Inputs where
  /-- All model points are valid. -/
  valid : Bool
  maxAirFilterHours : Nat
  vOutputs : VirtualOutputs
  currentInterval : Precision

/-- `AirFilterMonitor` and the points that it writes. -/
structure Monitor where
  markBlowerOn : Precision
  blowerWasOn : Bool
  airFilterAlert : SimpleAlarm
  airFilterOperationTime : Precision
  deriving DecidableEq

def Inputs.blowerOn (ins : Inputs) : Bool :=
  ins.vOutputs.indoorFan ≠ virtualOutputsOff ∨ ins.vOutputs.indoorFanCont ≠ virtualOutputsOff

/-- The limit, in the 32 bit arithmetic of `maxHours * 60 * 60`. -/
def limit (maxHours : Nat) : Precision :=
  ⟨maxHours * 60 * 60 % 2 ^ 32, 0⟩

/-- The mark from which an execution counts while the blower is on. -/
def Monitor.markFor (m : Monitor) (currentInterval : Precision) : Precision :=
  if m.blowerWasOn = false then currentInterval else m.markBlowerOn

variable (width : Nat)

/-- `execute()`, for valid model points and an alert that is not active. -/
def Monitor.monitor (m : Monitor) (ins : Inputs) : Monitor :=
  if ins.blowerOn then
    let delta := deltaPrecision width (m.markFor ins.currentInterval) ins.currentInterval
    let elapsedTime := addTime width m.airFilterOperationTime delta
    if notLess elapsedTime (limit ins.maxAirFilterHours) then
      { markBlowerOn := ins.currentInterval
        blowerWasOn := false
        airFilterAlert := { active := true, acked := false, critical := false }
        airFilterOperationTime := ⟨0, 0⟩ }
    else
      { markBlowerOn := ins.currentInterval
        blowerWasOn := true
        airFilterAlert := m.airFilterAlert
        airFilterOperationTime := elapsedTime }
  -- the flag stays set
  else m

def Monitor.execute (m : Monitor) (ins : Inputs) : Monitor :=
  if ins.valid = false then m
  else if m.airFilterAlert.active = false then m.monitor width ins else m

/-- `start()`, with no alert and an operation time from before. -/
def Monitor.start (airFilterOperationTime : Precision) : Monitor :=
  { markBlowerOn := ⟨0, 0⟩
    blowerWasOn := false
    airFilterAlert := { active := false, acked := false, critical := false }
    airFilterOperationTime := airFilterOperationTime }

end Component

section Usage

/-- What the component is for. The executions are those since the start or the last alert, the
latest first: whether the blower was on, and the time in milliseconds. -/
structure Usage where
  startTime : Nat
  executions : List (Bool × Nat)
  alerted : Bool

/-- The time between consecutive executions at both of which the blower was on. -/
def blowerTime : List (Bool × Nat) → Nat
  | (true, now) :: (true, before) :: earlier =>
      now - before + blowerTime ((true, before) :: earlier)
  | _ :: earlier => blowerTime earlier
  | [] => 0

def Usage.operationTime (u : Usage) : Nat :=
  u.startTime + blowerTime u.executions

/-- So many hours in milliseconds. -/
def hours (n : Nat) : Nat :=
  n * 60 * 60 * 1000

def Usage.record (u : Usage) (blowerOn : Bool) (now : Nat) : Usage :=
  { u with executions := (blowerOn, now) :: u.executions }

/-- The alert is raised when the operation time reaches so many hours, and then the time starts
again. -/
def Usage.execute (u : Usage) (blowerOn : Bool) (now maxHours : Nat) : Usage :=
  if u.alerted then u
  else
    let u' := u.record blowerOn now
    if hours maxHours ≤ u'.operationTime then
      { startTime := 0, executions := [], alerted := true }
    else u'

/-- The last execution at which the blower was on. -/
def latestOn (executions : List (Bool × Nat)) : Option Nat :=
  (executions.find? Prod.fst).map Prod.snd

def latest (executions : List (Bool × Nat)) : Nat :=
  (executions.head?.map Prod.snd).getD 0

/-- The blower does not come back on: if it has been on, then at the last execution, or no time has
passed since. -/
def StaysOn (executions : List (Bool × Nat)) (now : Nat) : Prop :=
  ∀ t ∈ latestOn executions, executions.head?.map Prod.fst = some true ∨ t = now

instance (executions : List (Bool × Nat)) (now : Nat) : Decidable (StaysOn executions now) :=
  inferInstanceAs (Decidable (∀ t ∈ latestOn executions, _))

variable {executions : List (Bool × Nat)} {now : Nat}

theorem blowerTime_off : blowerTime ((false, now) :: executions) = blowerTime executions := by
  rw [blowerTime]
  intro _ _ _ h
  cases h

/-- Then the time since the blower was last on is the time that counts. -/
theorem blowerTime_on (h : StaysOn executions now) :
    blowerTime ((true, now) :: executions) =
      now - (latestOn executions).getD now + blowerTime executions := by
  rcases executions with _ | ⟨⟨on, before⟩, earlier⟩
  · rw [blowerTime]
    · simp [latestOn]
    · simp
  · cases on with
    | true =>
        rw [blowerTime]
        rfl
    | false =>
        have hlatest : (latestOn ((false, before) :: earlier)).getD now = now := by
          cases hon : latestOn ((false, before) :: earlier) with
          | none => rfl
          | some t => exact (h t hon).resolve_left (by simp)
        rw [hlatest, Nat.sub_self, Nat.zero_add]
        rw [blowerTime]
        simp

theorem blowerTime_cons_le (on : Bool) :
    blowerTime ((on, now) :: executions) ≤ blowerTime executions + (now - latest executions) := by
  cases on with
  | false =>
      rw [blowerTime_off]
      omega
  | true =>
      rcases executions with _ | ⟨⟨_ | _, before⟩, earlier⟩
      · simp [blowerTime]
      · simp [blowerTime]
      · simp only [blowerTime, latest, List.head?_cons, Option.map_some, Option.getD_some]
        omega

end Usage

section Runs

structure World where
  monitor : Monitor
  usage : Usage

inductive Action where
  | execute (ins : Inputs)
  /-- The alert is acknowledged or cleared. -/
  | writeAlert (alert : SimpleAlarm)

def step (width : Nat) (w : World) : Action → Option World
  | .execute ins =>
      some
        { monitor := w.monitor.execute width ins
          usage :=
            if ins.valid then
              w.usage.execute ins.blowerOn ins.currentInterval.asFlatTime ins.maxAirFilterHours
            else w.usage }
  | .writeAlert alert =>
      some
        { monitor := { w.monitor with airFilterAlert := alert }
          usage := { w.usage with alerted := alert.active } }

def World.start (operationTime : Precision) : World :=
  { monitor := Monitor.start operationTime
    usage :=
      { startTime := operationTime.asFlatTime
        executions := []
        alerted := false } }

/-- The executions of a run in order. -/
structure InOrder (width startTime : Nat) (u : Usage) (ins : Inputs) : Prop where
  inRange : InRange width ins.currentInterval
  nonDecreasing : latest u.executions ≤ ins.currentInterval.asFlatTime
  /-- A start at zero never gets out of the range. -/
  fits : startTime + ins.currentInterval.asFlatTime < period width
  uint32 : ins.maxAirFilterHours < 2 ^ 32

/-- The executions in which the operation time stays countable. -/
structure WithinLimits (width startTime : Nat) (u : Usage) (ins : Inputs) : Prop
    extends InOrder width startTime u ins where
  /-- The limit has 32 bits. -/
  hours : ins.maxAirFilterHours * 60 * 60 < 2 ^ 32
  staysOn : ins.blowerOn = true → StaysOn u.executions ins.currentInterval.asFlatTime
  /-- The limit is not reached while the blower is off. -/
  below : ins.blowerOn = false → u.operationTime < AirFilterMonitor.hours ins.maxAirFilterHours

/-- The executions with valid inputs, while there is no alert, are such. -/
def Executes (P : Usage → Inputs → Prop) (w : World) : Action → Prop
  | .execute ins => ins.valid = true → w.usage.alerted = false → P w.usage ins
  | .writeAlert _ => True

instance (width startTime : Nat) (u : Usage) (ins : Inputs) :
    Decidable (InOrder width startTime u ins) :=
  decidable_of_iff
    (InRange width ins.currentInterval ∧
      latest u.executions ≤ ins.currentInterval.asFlatTime ∧
      startTime + ins.currentInterval.asFlatTime < period width ∧
      ins.maxAirFilterHours < 2 ^ 32)
    ⟨fun ⟨h₁, h₂, h₃, h₄⟩ => ⟨h₁, h₂, h₃, h₄⟩, fun ⟨h₁, h₂, h₃, h₄⟩ => ⟨h₁, h₂, h₃, h₄⟩⟩

instance (width startTime : Nat) (u : Usage) (ins : Inputs) :
    Decidable (WithinLimits width startTime u ins) :=
  decidable_of_iff
    (InOrder width startTime u ins ∧ ins.maxAirFilterHours * 60 * 60 < 2 ^ 32 ∧
      (ins.blowerOn = true → StaysOn u.executions ins.currentInterval.asFlatTime) ∧
      (ins.blowerOn = false →
        u.operationTime < AirFilterMonitor.hours ins.maxAirFilterHours))
    ⟨fun ⟨h₁, h₂, h₃, h₄⟩ => ⟨h₁, h₂, h₃, h₄⟩, fun ⟨h₁, h₂, h₃, h₄⟩ => ⟨h₁, h₂, h₃, h₄⟩⟩

instance (P : Usage → Inputs → Prop) [∀ u ins, Decidable (P u ins)] (w : World) :
    ∀ action, Decidable (Executes P w action)
  | .execute ins =>
      inferInstanceAs (Decidable (ins.valid = true → w.usage.alerted = false → P w.usage ins))
  | .writeAlert _ => .isTrue trivial

/-- The component agrees with what it is for. -/
structure Agrees (width startTime : Nat) (w : World) : Prop where
  inRange : InRange width w.monitor.airFilterOperationTime
  operationTime : w.monitor.airFilterOperationTime.asFlatTime = w.usage.operationTime
  active : w.monitor.airFilterAlert.active = w.usage.alerted
  wasOn : w.monitor.blowerWasOn = (latestOn w.usage.executions).isSome
  mark : ∀ t, latestOn w.usage.executions = some t →
    InRange width w.monitor.markBlowerOn ∧ w.monitor.markBlowerOn.asFlatTime = t ∧
      t ≤ latest w.usage.executions
  bound : w.usage.operationTime ≤ startTime + latest w.usage.executions

variable {width startTime : Nat} {w : World} {ins : Inputs}

theorem asFlatTime_limit (h : ins.maxAirFilterHours * 60 * 60 < 2 ^ 32) :
    (limit ins.maxAirFilterHours).asFlatTime = hours ins.maxAirFilterHours := by
  rw [limit, Nat.mod_eq_of_lt h, Precision.asFlatTime, hours, Nat.add_zero]

theorem markFor_latestOn (hagrees : Agrees width startTime w)
    (hwithin : WithinLimits width startTime w.usage ins) :
    InRange width (w.monitor.markFor ins.currentInterval) ∧
      (w.monitor.markFor ins.currentInterval).asFlatTime =
        (latestOn w.usage.executions).getD ins.currentInterval.asFlatTime ∧
      (w.monitor.markFor ins.currentInterval).asFlatTime ≤ ins.currentInterval.asFlatTime := by
  rw [Monitor.markFor, hagrees.wasOn]
  cases hlatest : latestOn w.usage.executions with
  | none => exact ⟨hwithin.inRange, rfl, le_rfl⟩
  | some t =>
      obtain ⟨hmark, hflat, hle⟩ := hagrees.mark t hlatest
      exact ⟨hmark, hflat, hflat ▸ hle.trans hwithin.nonDecreasing⟩

theorem operationTime_record_le (hagrees : Agrees width startTime w)
    (hwithin : WithinLimits width startTime w.usage ins) (blowerOn : Bool) :
    (w.usage.record blowerOn ins.currentInterval.asFlatTime).operationTime ≤
      startTime + ins.currentInterval.asFlatTime := by
  have hadded := @blowerTime_cons_le w.usage.executions ins.currentInterval.asFlatTime blowerOn
  have hbound := hagrees.bound
  have hnonDecreasing := hwithin.nonDecreasing
  simp only [Usage.operationTime, Usage.record] at *
  omega

/-- The operation time of an execution while the blower is on. -/
theorem asFlatTime_elapsed (hagrees : Agrees width startTime w)
    (hwithin : WithinLimits width startTime w.usage ins) (hon : ins.blowerOn = true) :
    (addTime width w.monitor.airFilterOperationTime (deltaPrecision width
        (w.monitor.markFor ins.currentInterval) ins.currentInterval)).asFlatTime =
      (w.usage.record true ins.currentInterval.asFlatTime).operationTime := by
  obtain ⟨hmark, hflat, hle⟩ := markFor_latestOn hagrees hwithin
  have hbound := operationTime_record_le hagrees hwithin true
  have hfits := hwithin.fits
  have htime : w.usage.operationTime + (ins.currentInterval.asFlatTime -
        (latestOn w.usage.executions).getD ins.currentInterval.asFlatTime) =
      (w.usage.record true ins.currentInterval.asFlatTime).operationTime := by
    simp only [Usage.operationTime, Usage.record, blowerTime_on (hwithin.staysOn hon)]
    omega
  rw [asFlatTime_addTime hagrees.inRange.2
      (inRange_deltaPrecision hmark.2 hwithin.inRange.2).2,
    asFlatTime_deltaPrecision hmark hwithin.inRange,
    difference_of_le hle (asFlatTime_lt hwithin.inRange), hflat, hagrees.operationTime, htime,
    Nat.mod_eq_of_lt (by omega)]

theorem agrees_start {operationTime : Precision} (h : InRange width operationTime) :
    Agrees width operationTime.asFlatTime (World.start operationTime) where
  inRange := h
  operationTime := (Nat.add_zero _).symm
  active := rfl
  wasOn := rfl
  mark := fun _ h => by cases h
  bound := Nat.add_le_add_left (Nat.zero_le _) _

theorem agrees_on (hagrees : Agrees width startTime w)
    (hwithin : WithinLimits width startTime w.usage ins) (hnot : w.usage.alerted = false)
    (hon : ins.blowerOn = true) :
    Agrees width startTime
      { monitor := w.monitor.monitor width ins
        usage := w.usage.execute true ins.currentInterval.asFlatTime ins.maxAirFilterHours } := by
  have helapsed := asFlatTime_elapsed hagrees hwithin hon
  have hlimit : notLess (addTime width w.monitor.airFilterOperationTime (deltaPrecision width
        (w.monitor.markFor ins.currentInterval) ins.currentInterval))
        (limit ins.maxAirFilterHours) = true ↔
      hours ins.maxAirFilterHours ≤
        (w.usage.record true ins.currentInterval.asFlatTime).operationTime := by
    rw [notLess_iff (inRange_addTime _ _).2 (by simp [limit]), asFlatTime_limit hwithin.hours,
      helapsed]
  have hexecute : w.usage.execute true ins.currentInterval.asFlatTime ins.maxAirFilterHours =
      if hours ins.maxAirFilterHours ≤
          (w.usage.record true ins.currentInterval.asFlatTime).operationTime then
        { startTime := 0, executions := [], alerted := true }
      else w.usage.record true ins.currentInterval.asFlatTime := by
    rw [Usage.execute, if_neg (by simp [hnot])]
  rw [Monitor.monitor, if_pos hon, hexecute]
  rcases Nat.lt_or_ge (w.usage.record true ins.currentInterval.asFlatTime).operationTime
    (hours ins.maxAirFilterHours) with hbelow | hreached
  · rw [if_neg (Nat.not_le.2 hbelow),
      if_neg (fun h => absurd (hlimit.1 h) (Nat.not_le.2 hbelow))]
    constructor
    case inRange => exact inRange_addTime _ _
    case operationTime => exact helapsed
    case active => exact hagrees.active
    case wasOn => rfl
    case mark =>
      rintro t ⟨⟩
      exact ⟨hwithin.inRange, rfl, le_rfl⟩
    case bound => exact operationTime_record_le hagrees hwithin true
  · rw [if_pos hreached, if_pos (hlimit.2 hreached)]
    constructor
    case inRange => exact ⟨Nat.two_pow_pos width, Nat.zero_lt_succ _⟩
    case operationTime => simp [Precision.asFlatTime, Usage.operationTime, blowerTime]
    case active => rfl
    case wasOn => rfl
    case mark =>
      intro t ht
      cases ht
    case bound => exact Nat.zero_le _

theorem agrees_off (hagrees : Agrees width startTime w)
    (hwithin : WithinLimits width startTime w.usage ins) (hnot : w.usage.alerted = false)
    (hoff : ins.blowerOn = false) :
    Agrees width startTime
      { monitor := w.monitor.monitor width ins
        usage := w.usage.execute false ins.currentInterval.asFlatTime ins.maxAirFilterHours } := by
  have hsame : (w.usage.record false ins.currentInterval.asFlatTime).operationTime =
      w.usage.operationTime := by
    simp only [Usage.operationTime, Usage.record, blowerTime_off]
  have hbelow := hwithin.below hoff
  have hexecute : w.usage.execute false ins.currentInterval.asFlatTime ins.maxAirFilterHours =
      w.usage.record false ins.currentInterval.asFlatTime := by
    rw [Usage.execute, if_neg (by simp [hnot]), if_neg (fun h => by omega)]
  rw [Monitor.monitor, if_neg (by simp [hoff]), hexecute]
  constructor
  case inRange => exact hagrees.inRange
  case operationTime => exact hagrees.operationTime.trans hsame.symm
  case active => exact hagrees.active
  case wasOn => exact hagrees.wasOn
  case mark =>
    intro t ht
    obtain ⟨hmark, hflat, hle⟩ := hagrees.mark t ht
    exact ⟨hmark, hflat, hle.trans hwithin.nonDecreasing⟩
  case bound => exact operationTime_record_le hagrees hwithin false

theorem agrees_step {action : Action} {next : World} (hagrees : Agrees width startTime w)
    (hwithin : Executes (WithinLimits width startTime) w action)
    (hstep : step width w action = some next) : Agrees width startTime next := by
  cases action with
  | execute ins =>
      obtain rfl := Option.some.inj hstep
      rw [Monitor.execute]
      rcases Bool.eq_false_or_eq_true ins.valid with hvalid | hinvalid
      · rw [if_pos hvalid, if_neg (by simp [hvalid]), hagrees.active]
        rcases Bool.eq_false_or_eq_true w.usage.alerted with halerted | hnot
        · rw [if_neg (by simp [halerted]), Usage.execute, if_pos halerted]
          exact hagrees
        · rw [if_pos hnot]
          cases hon : ins.blowerOn with
          | true => exact agrees_on hagrees (hwithin hvalid hnot) hnot hon
          | false => exact agrees_off hagrees (hwithin hvalid hnot) hnot hon
      · rw [if_pos hinvalid, if_neg (by simp [hinvalid])]
        exact hagrees
  | writeAlert alert =>
      obtain rfl := Option.some.inj hstep
      exact ⟨hagrees.inRange, hagrees.operationTime, rfl, hagrees.wasOn, hagrees.mark,
        hagrees.bound⟩

def MatchesUsage (w : World) : Prop :=
  w.monitor.airFilterOperationTime.asFlatTime = w.usage.operationTime ∧
    w.monitor.airFilterAlert.active = w.usage.alerted

instance (w : World) : Decidable (MatchesUsage w) :=
  inferInstanceAs (Decidable (_ ∧ _))

/-- The operation time and the alert are those of the usage in every run of executions within the
limits. -/
theorem operationTime_matchesUsage {operationTime : Precision} {actions : List Action}
    (hrange : InRange width operationTime)
    (hwithin : AllSteps (step width) (Executes (WithinLimits width operationTime.asFlatTime))
      (World.start operationTime) actions)
    (hrun : run (step width) (World.start operationTime) actions = some w) : MatchesUsage w := by
  have hagrees := invariant (I := Agrees width operationTime.asFlatTime)
    (fun _ _ _ hagrees hwithin hstep => agrees_step hagrees hwithin hstep)
    (agrees_start hrange) hwithin hrun
  exact ⟨hagrees.operationTime, hagrees.active⟩

def testInputs (maxAirFilterHours indoorFan seconds : Nat) : Action :=
  .execute
    { valid := true
      maxAirFilterHours := maxAirFilterHours
      vOutputs := ⟨indoorFan, 0, fun _ => 0, 0, fun _ => 0, false⟩
      currentInterval := ⟨seconds, 0⟩ }

theorem operationTime_matchesUsage_hour : ∃ w, run (step 32) (World.start ⟨0, 0⟩)
    [testInputs 1 0 1, testInputs 1 1000 2, testInputs 1 1000 3602,
      .writeAlert ⟨false, false, false⟩, testInputs 1 1000 3603, testInputs 1 1000 3604] =
      some w ∧ MatchesUsage w ∧ w.usage.operationTime = 1000 := by
  refine ⟨_, rfl, ?_, by decide⟩
  refine @operationTime_matchesUsage 32 _ ⟨0, 0⟩ [testInputs 1 0 1, testInputs 1 1000 2,
    testInputs 1 1000 3602, .writeAlert ⟨false, false, false⟩, testInputs 1 1000 3603,
    testInputs 1 1000 3604] (by decide) ?_ rfl
  decide

/-- The time while the blower is off counts when it comes back on, and the limit wraps. -/
theorem operationTime_not_matchesUsage :
    (¬ ∀ actions w,
      AllSteps (step 32) (Executes (InOrder 32 0)) (World.start ⟨0, 0⟩) actions →
      run (step 32) (World.start ⟨0, 0⟩) actions = some w → MatchesUsage w) ∧
    ∃ w, run (step 32) (World.start ⟨0, 0⟩) [testInputs 1193047 1000 1,
        testInputs 1193047 1000 3601] = some w ∧
      w.monitor.airFilterAlert.active = true ∧ w.usage.alerted = false := by
  constructor
  · intro hall
    have hmatches := hall [testInputs 1 1000 1, testInputs 1 0 2, testInputs 1 1000 10] _ ?_ rfl
    · revert hmatches
      decide
    · decide
  · exact ⟨_, rfl, by decide, by decide⟩

end Runs

end ColonyPico.Storm.AirFilterMonitor
