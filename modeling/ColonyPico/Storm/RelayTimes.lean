import ColonyPico.Dm.RecordPoints
import ColonyPico.Foundations.Runs
import ColonyPico.Storm.ThermostatPass

/-!
The begin times that `Storm::Component::HvacRelayOutputs` keeps of the relays and of the system,
over runs in which its inputs may be invalid.
-/

namespace ColonyPico.Storm.RelayTimes

open ColonyPico.Dm.ModelPoint
open ColonyPico.Dm.RecordPoints
open ColonyPico.Foundations.Runs
open ColonyPico.Storm.EquipmentControl
open ColonyPico.Storm.StageFsm
open ColonyPico.Storm.ThermostatPass
open ColonyPico.System.ElapsedTime

section Component

/-- A default constructed `EquipmentTimes_T`: all bytes zero. -/
def EquipmentTimes.zero : EquipmentTimes :=
  ⟨⟨0, 0⟩, ⟨0, 0⟩, ⟨0, 0⟩, ⟨0, 0⟩, ⟨0, 0⟩, ⟨0, 0⟩⟩

/-- What an execution reads besides the begin times. -/
structure Inputs where
  vOutputs : Option VirtualOutputs
  systemForcedOffRefCnt : Option Nat
  systemOn : Option Bool
  currentInterval : Precision

/-- What an execution published, what had been published before it, and whether it found valid
begin times. -/
structure Execution where
  was : HvacRelayOutputs
  is : HvacRelayOutputs
  time : Precision
  timesValid : Bool

/-- The component, the points that it writes, and its executions, the latest first. -/
structure State where
  component : HvacRelayOutputs
  equipmentBeginTimes : Point EquipmentTimes
  relayOutputs : RelayOutputs
  executions : List Execution

def lastPublished (first : HvacRelayOutputs) (executions : List Execution) : HvacRelayOutputs :=
  (executions.head?.map Execution.is).getD first

/-- One or more of the model points are invalid. -/
def failOff (s : State) (ins : Inputs) : Bool :=
  ins.systemForcedOffRefCnt.isNone || ins.vOutputs.isNone || ins.systemOn.isNone ||
    !s.equipmentBeginTimes.valid

variable (first : HvacRelayOutputs)

/-- `HvacRelayOutputs::execute()`. -/
def execute (s : State) (ins : Inputs) : State :=
  let outputs := ins.vOutputs.getD ControlOutputs.zero.vOutputs
  let equipTimes := s.equipmentBeginTimes.read.getD EquipmentTimes.zero
  let forcedOffRefCnt := ins.systemForcedOffRefCnt.getD 0
  let systemOn := ins.systemOn.getD false
  let outputs := if failOff s ins then setSafeAllOff outputs else outputs
  let (component, equipTimes, relaysNew) :=
    s.component.execute outputs equipTimes systemOn forcedOffRefCnt ins.currentInterval
  { component := component
    equipmentBeginTimes := stored equipTimes s.equipmentBeginTimes
    relayOutputs := relaysNew
    executions :=
      { was := lastPublished first s.executions
        is := { systemOn := systemOn, y1 := relaysNew.y1, w1 := relaysNew.w1 }
        time := ins.currentInterval
        timesValid := s.equipmentBeginTimes.valid } :: s.executions }

inductive Action where
  | execute (ins : Inputs)
  /-- Another component invalidates the begin times. -/
  | setInvalid

def step (s : State) : Action → Option State
  | .execute ins => some (RelayTimes.execute first s ins)
  | .setInvalid =>
      some { s with equipmentBeginTimes := s.equipmentBeginTimes.setInvalid EquipmentTimes.zero }

def State.start (equipmentBeginTimes : Point EquipmentTimes) (relayOutputs : RelayOutputs) :
    State :=
  { component := first
    equipmentBeginTimes := equipmentBeginTimes
    relayOutputs := relayOutputs
    executions := [] }

end Component

section Edges

/-- The time of the latest change from `was` to its opposite. -/
def latestEdge (relay : HvacRelayOutputs → Bool) (was : Bool) (executions : List Execution) :
    Option Precision :=
  (executions.find? fun e => relay e.was == was && relay e.is == !was).map Execution.time

/-- The times of the latest edges, or else the times from before. -/
def edgeTimes (before : EquipmentTimes) (executions : List Execution) : EquipmentTimes :=
  { outdoorUnitBeginOnTime :=
      (latestEdge HvacRelayOutputs.y1 false executions).getD before.outdoorUnitBeginOnTime
    outdoorUnitBeginOffTime :=
      (latestEdge HvacRelayOutputs.y1 true executions).getD before.outdoorUnitBeginOffTime
    indoorUnitBeginOnTime :=
      (latestEdge HvacRelayOutputs.w1 false executions).getD before.indoorUnitBeginOnTime
    indoorUnitBeginOffTime :=
      (latestEdge HvacRelayOutputs.w1 true executions).getD before.indoorUnitBeginOffTime
    systemBeginOnTime :=
      (latestEdge HvacRelayOutputs.systemOn false executions).getD before.systemBeginOnTime
    systemBeginOffTime :=
      (latestEdge HvacRelayOutputs.systemOn true executions).getD before.systemBeginOffTime }

/-- The executions since one that found invalid begin times, with that one. -/
def sinceInvalid : List Execution → List Execution
  | [] => []
  | e :: earlier => if e.timesValid then e :: sinceInvalid earlier else [e]

/-- What the begin times have started from: an execution that finds them invalid starts from
zero. -/
def startTimes (before : EquipmentTimes) (executions : List Execution) : EquipmentTimes :=
  if executions.all Execution.timesValid then before else EquipmentTimes.zero

/-- Valid begin times are the times of the latest edges. -/
def TimesOfEdges (before : EquipmentTimes) (s : State) : Prop :=
  s.equipmentBeginTimes.valid = true →
    s.equipmentBeginTimes.data = edgeTimes before s.executions

/-- Valid begin times are the times of the latest edges since they were last found invalid. -/
def TimesOfEdgesSince (before : EquipmentTimes) (s : State) : Prop :=
  s.equipmentBeginTimes.valid = true →
    s.equipmentBeginTimes.data =
      edgeTimes (startTimes before s.executions) (sinceInvalid s.executions)

theorem sinceInvalid_of_all {executions : List Execution}
    (h : executions.all Execution.timesValid = true) : sinceInvalid executions = executions := by
  induction executions with
  | nil => rfl
  | cons e earlier ih =>
      rw [List.all_cons, Bool.and_eq_true] at h
      rw [sinceInvalid, if_pos h.1, ih h.2]

theorem latestEdge_cons (relay : HvacRelayOutputs → Bool) (was : Bool) (e : Execution)
    (earlier : List Execution) (before : Precision) :
    (latestEdge relay was (e :: earlier)).getD before =
      if relay e.was = was ∧ relay e.is = !was then e.time
      else (latestEdge relay was earlier).getD before := by
  rw [latestEdge, List.find?_cons]
  split
  · rename_i h
    rw [if_pos (by simpa using h)]
    rfl
  · rename_i h
    rw [if_neg (by simpa using h)]
    rfl

theorem onEdge_latest (relay : HvacRelayOutputs → Bool) (e : Execution)
    (earlier : List Execution) (before : Precision) :
    onEdge (relay e.was) (relay e.is) e.time ((latestEdge relay false earlier).getD before) =
      (latestEdge relay false (e :: earlier)).getD before :=
  (latestEdge_cons relay false e earlier before).symm

theorem offEdge_latest (relay : HvacRelayOutputs → Bool) (e : Execution)
    (earlier : List Execution) (before : Precision) :
    offEdge (relay e.was) (relay e.is) e.time ((latestEdge relay true earlier).getD before) =
      (latestEdge relay true (e :: earlier)).getD before :=
  (latestEdge_cons relay true e earlier before).symm

end Edges

section Steps

def CapacityOff (relays : RelayOutputs) : Prop :=
  relays.y1 = false ∧ relays.y2 = false ∧ relays.w1 = false ∧ relays.w2 = false ∧
    relays.w3 = false

theorem capacityOff_relaysOf {outputs : VirtualOutputs}
    (hindoor : outputs.indoorStages = fun _ => 0) (houtdoor : outputs.outdoorStages = fun _ => 0) :
    CapacityOff (relaysOf outputs) := by
  refine ⟨?_, rfl, ?_, ?_, ?_⟩ <;> simp [relaysOf, hindoor, houtdoor]

variable (first : HvacRelayOutputs) (s : State) (ins : Inputs)

theorem capacityOff_execute
    (h : failOff s ins = true ∨ 0 < ins.systemForcedOffRefCnt.getD 0) :
    CapacityOff (execute first s ins).relayOutputs := by
  simp only [execute, HvacRelayOutputs.execute]
  rcases Nat.eq_zero_or_pos (ins.systemForcedOffRefCnt.getD 0) with hzero | hforced
  · rw [if_neg (by omega), if_pos (h.resolve_right (by omega))]
    exact capacityOff_relaysOf rfl rfl
  · rw [if_pos hforced]
    exact capacityOff_relaysOf rfl rfl

/-- The component remembers what it published last. -/
def Remembers : Prop :=
  s.component = lastPublished first s.executions

theorem remembers_execute : Remembers first (execute first s ins) :=
  rfl

variable {first s} {before : EquipmentTimes}

theorem execute_times (hremembers : Remembers first s) :
    ∃ e, (execute first s ins).executions = e :: s.executions ∧
      e.timesValid = s.equipmentBeginTimes.valid ∧
      ∀ start executions,
        s.equipmentBeginTimes.read.getD EquipmentTimes.zero = edgeTimes start executions →
        (execute first s ins).equipmentBeginTimes.data = edgeTimes start (e :: executions) := by
  refine ⟨_, rfl, rfl, fun start executions hread => ?_⟩
  simp only [execute, HvacRelayOutputs.execute, stored_data, hread]
  simp only [edgeTimes, ← onEdge_latest, ← offEdge_latest]
  rw [hremembers]

theorem timesOfEdgesSince_execute (hremembers : Remembers first s)
    (hedges : TimesOfEdgesSince before s) : TimesOfEdgesSince before (execute first s ins) := by
  intro _
  obtain ⟨e, hexecutions, htimesValid, htimes⟩ := execute_times ins hremembers
  rw [hexecutions, startTimes, sinceInvalid, List.all_cons, htimesValid]
  cases hvalid : s.equipmentBeginTimes.valid with
  | true =>
      rw [if_pos rfl, Bool.true_and, ← startTimes]
      refine htimes _ _ ?_
      rw [Point.read, hvalid]
      exact hedges hvalid
  | false =>
      refine htimes _ [] ?_
      rw [Point.read, hvalid]
      rfl

end Steps

section Runs

theorem setInvalid_valid (p : Point EquipmentTimes) :
    (p.setInvalid EquipmentTimes.zero).valid = false := by
  rw [Point.setInvalid]
  split
  · rfl
  · rename_i h
    exact eq_false_of_ne_true h

variable {first : HvacRelayOutputs} {point : Point EquipmentTimes} {relays : RelayOutputs}
  {actions : List Action} {s : State}

theorem timesOfEdges_run
    (hrun : run (step first) (State.start first point relays) actions = some s) :
    Remembers first s ∧ TimesOfEdgesSince point.data s := by
  have hstart : Remembers first (State.start first point relays) ∧
      TimesOfEdgesSince point.data (State.start first point relays) := ⟨rfl, fun _ => rfl⟩
  refine invariant_always (I := fun s => Remembers first s ∧ TimesOfEdgesSince point.data s) ?_
    hstart hrun
  rintro s (ins | _) next ⟨hremembers, hedges⟩ hstep
  · obtain rfl := Option.some.inj hstep
    exact ⟨remembers_execute first s ins, timesOfEdgesSince_execute ins hremembers hedges⟩
  · obtain rfl := Option.some.inj hstep
    refine ⟨hremembers, fun hvalid => ?_⟩
    rw [setInvalid_valid] at hvalid
    cases hvalid

/-- The capacity is off whenever an input is invalid or the system is forced off, and valid begin
times are those of the edges since they were last found invalid. -/
theorem relayTimes_ofEdges
    (hrun : run (step first) (State.start first point relays) actions = some s) :
    (∀ ins, failOff s ins = true ∨ 0 < ins.systemForcedOffRefCnt.getD 0 →
      CapacityOff (execute first s ins).relayOutputs) ∧
    TimesOfEdgesSince point.data s ∧
    (s.executions.all Execution.timesValid = true → TimesOfEdges point.data s) := by
  obtain ⟨-, hedges⟩ := timesOfEdges_run hrun
  refine ⟨fun ins => capacityOff_execute first s ins, hedges, fun hall hvalid => ?_⟩
  rw [hedges hvalid, startTimes, if_pos hall, sinceInvalid_of_all hall]

def testInputs (y1 seconds : Nat) : Inputs :=
  { vOutputs := some { ControlOutputs.zero.vOutputs with outdoorStages := fun _ => y1 }
    systemForcedOffRefCnt := some 0
    systemOn := some true
    currentInterval := ⟨seconds, 0⟩ }

def testStart : State :=
  State.start HvacRelayOutputs.init (Point.init EquipmentTimes.zero true) RelayOutputs.zero

theorem relayTimes_ofEdges_compressor : ∃ s, run (step HvacRelayOutputs.init) testStart
    [.execute (testInputs 0 1), .execute (testInputs 1000 2), .execute (testInputs 0 3)] = some s ∧
    TimesOfEdgesSince EquipmentTimes.zero s ∧
    s.equipmentBeginTimes.data = ⟨⟨2, 0⟩, ⟨3, 0⟩, ⟨0, 0⟩, ⟨1, 0⟩, ⟨0, 0⟩, ⟨0, 0⟩⟩ := by
  refine ⟨_, rfl, ?_, rfl⟩
  exact (@relayTimes_ofEdges HvacRelayOutputs.init (Point.init EquipmentTimes.zero true)
    RelayOutputs.zero [.execute (testInputs 0 1), .execute (testInputs 1000 2),
    .execute (testInputs 0 3)] _ rfl).2.1

/-- The off time of the compressor is forgotten with the invalid begin times. -/
theorem relayTimes_not_ofEdges : ¬ ∀ actions s,
    run (step HvacRelayOutputs.init) testStart actions = some s →
    TimesOfEdges EquipmentTimes.zero s := by
  intro hall
  have hdata := hall [.execute (testInputs 0 1), .setInvalid, .execute (testInputs 0 2)] _ rfl rfl
  have htime := congrArg EquipmentTimes.outdoorUnitBeginOffTime hdata
  revert htime
  decide

end Runs

end ColonyPico.Storm.RelayTimes
