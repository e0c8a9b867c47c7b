import ColonyPico.Storm.DutyCycle
import ColonyPico.System.ElapsedTime

/-!
The state machine of an equipment stage (`Storm::Component::Equipment::Stage`: `Fsm`,
`FsmEventQueue_`, `Basic`, `BasicCooling` and `BasicIndoorHeat`). The on cycle and the off
cycle of a stage are one family: `on` says which of them is meant.
-/

namespace ColonyPico.Storm.StageFsm

open ColonyPico.Storm.Config
open ColonyPico.Storm.DutyCycle
open ColonyPico.System.ElapsedTime

/-- `CycleStatus`, as far as the stages use it. -/
inductive CycleStatus where
  | off
  | onCycle
  | offCycle
  deriving DecidableEq, Repr

/-- The status of a cycle. -/
def CycleStatus.of (on : Bool) : CycleStatus :=
  if on then .onCycle else .offCycle

structure VirtualOutputs where
  indoorFan : Nat
  indoorFanCont : Nat
  indoorStages : Nat → Nat
  outdoorFan : Nat
  outdoorStages : Nat → Nat
  sovInHeating : Bool

def VirtualOutputs.setCapacityOff (v : VirtualOutputs) : VirtualOutputs :=
  { indoorFan := 0
    indoorFanCont := v.indoorFanCont
    indoorStages := fun _ => 0
    outdoorFan := 0
    outdoorStages := fun _ => 0
    sovInHeating := v.sovInHeating }

structure CycleInfo where
  beginOnTime : Precision
  beginOffTime : Precision
  onTime : Nat
  offTime : Nat
  mode : CycleStatus
  deriving DecidableEq, Repr

structure EquipmentTimes where
  outdoorUnitBeginOnTime : Precision
  outdoorUnitBeginOffTime : Precision
  indoorUnitBeginOnTime : Precision
  indoorUnitBeginOffTime : Precision
  systemBeginOnTime : Precision
  systemBeginOffTime : Precision
  deriving DecidableEq, Repr

/-- What the equipment only reads of its arguments. -/
structure Inputs where
  pvOut : ℚ
  systemConfig : SystemConfig
  currentInterval : Precision
  equipmentBeginTimes : EquipmentTimes
  /-- `whiteBox.defeatEquipMinOffTime`. -/
  defeatEquipMinOffTime : Bool

/-- `Control::Equipment::Args_T`. -/
structure Args where
  inputs : Inputs
  /-- `whiteBox.abortOnOffCycle`. -/
  abortOnOffCycle : Bool
  vOutputs : VirtualOutputs
  cycleInfo : CycleInfo
  systemOn : Bool

/-- The events of the machine. `timeExpired on` is `evOnTimeExpired` or
`evOffTimeExpired`, and so on. -/
inductive Event where
  | noMsg
  | onRequest
  | offModeRequest
  | needMoreCapacity
  | lessCapacityNeeded
  | excessCapacity
  | fromTransitionCompleted
  | backTransitionCompleted
  | startingTimeExpired (on : Bool)
  | timeExpired (on : Bool)
  deriving DecidableEq, Repr

/-- The innermost state. `starting on` is `StartingOn` or `StartingOff`, `timed on` is
`OnTime` or `OffTime`. -/
inductive State where
  | off
  | starting (on : Bool)
  | timed (on : Bool)
  | transitioningFromLowerStage
  | transitioningBackToLowerStage
  | supplementingNextStage
  deriving DecidableEq, Repr

/-- `isInActive()`. -/
def State.isActive : State → Bool
  | .off => false
  | .starting _ => true
  | .timed _ => true
  | .transitioningFromLowerStage => true
  | .transitioningBackToLowerStage => true
  | .supplementingNextStage => false

/-- `isInOnCycle()` and `isInOffCycle()`. -/
def State.isInCycle (on : Bool) : State → Bool
  | .starting on' => on' == on
  | .timed on' => on' == on
  | _ => false

/-- The concrete class of a stage. -/
inductive StageKind where
  | cooling
  | indoorHeat (controlFan : Bool)
  deriving DecidableEq, Repr

/-- The members of a stage. `hasArgs` says that `m_args` is not null. -/
structure Stage (ι : Type) where
  kind : StageKind
  systemIndex : Nat
  outIndex : Nat
  startTime : Precision
  hasArgs : Bool
  nextStage : Option ι
  prevStage : Option ι
  startInOffCycle : Bool
  supplemented : Bool
  requestSupplementStartInOnCycle : Bool
  requestOffStartInOnCycle : Bool
  state : State
  queue : List Event
  processingFsmEvent : Bool
  deriving DecidableEq, Repr

/-- A stage as constructed. -/
def Stage.init {ι : Type} (kind : StageKind) (systemIndex outIndex : Nat) : Stage ι :=
  { kind := kind
    systemIndex := systemIndex
    outIndex := outIndex
    startTime := ⟨0, 0⟩
    hasArgs := false
    nextStage := none
    prevStage := none
    startInOffCycle := false
    supplemented := false
    requestSupplementStartInOnCycle := true
    requestOffStartInOnCycle := true
    state := .off
    queue := []
    processingFsmEvent := false }

/-- The stages of an equipment and the arguments they share. A stage keeps the address of
the arguments of its last call; those of the present call are at the same place. -/
@[ext]
structure Machine (ι : Type) where
  stage : ι → Stage ι
  args : Args
  /-- A `CPL_SYSTEM_ASSERT` has failed. -/
  assertFailed : Bool
  /-- An event queue has overflowed. -/
  overflow : Bool
  /-- The model has given up on a loop over events. -/
  stuck : Bool

variable {ι : Type} [DecidableEq ι] (conv : ToUInt32)

def Machine.update (m : Machine ι) (i : ι) (f : Stage ι → Stage ι) : Machine ι :=
  { m with stage := Function.update m.stage i (f (m.stage i)) }

def Machine.setState (m : Machine ι) (i : ι) (state : State) : Machine ι :=
  m.update i fun s => { s with state := state }

omit [DecidableEq ι] in
/-- `CPL_SYSTEM_ASSERT()`. -/
def Machine.assert (m : Machine ι) (b : Bool) : Machine ι :=
  { m with assertFailed := m.assertFailed || !b }

/-- The outputs of a stage that is turned on or off. Only the first stage controls the
indoor fan. -/
def VirtualOutputs.setStage (v : VirtualOutputs) (kind : StageKind) (systemIndex outIndex : Nat)
    (on : Bool) : VirtualOutputs :=
  let value (on : Bool) : Nat := if on then virtualOutputsOn else virtualOutputsOff
  match kind with
  | .cooling =>
      { v with
        outdoorStages := Function.update v.outdoorStages outIndex (value on)
        indoorFan := if systemIndex = 0 then value on else v.indoorFan }
  | .indoorHeat controlFan =>
      { v with
        indoorStages := Function.update v.indoorStages outIndex (value on)
        indoorFan := if systemIndex = 0 then value (on && controlFan) else v.indoorFan }

omit [DecidableEq ι] in
/-- `stageOn()` and `stageOff()`. -/
def setStage (m : Machine ι) (i : ι) (on : Bool) : Machine ι :=
  let s := m.stage i
  { m.assert s.hasArgs with
    args.vOutputs := m.args.vOutputs.setStage s.kind s.systemIndex s.outIndex on }

abbrev stageOn (m : Machine ι) (i : ι) : Machine ι := setStage m i true

abbrev stageOff (m : Machine ι) (i : ι) : Machine ι := setStage m i false

/-- `startOnTime()` and `startOffTime()`. -/
def startTime (m : Machine ι) (i : ι) : Machine ι :=
  (m.assert (m.stage i).hasArgs).update i fun s =>
    { s with startTime := m.args.inputs.currentInterval }

def initializeStage (m : Machine ι) (i : ι) : Machine ι :=
  m.update i fun s =>
    { s with
      startInOffCycle := false
      supplemented := false
      nextStage := none
      prevStage := none
      hasArgs := false
      requestOffStartInOnCycle := true
      requestSupplementStartInOnCycle := true
      startTime := ⟨0, 0⟩ }

omit [DecidableEq ι] in
def shutdownStage (m : Machine ι) (i : ι) : Machine ι :=
  let s := m.stage i
  let m := stageOff (m.assert s.hasArgs) i
  if s.systemIndex = 0 then { m with args.systemOn := false, args.cycleInfo.mode := .off } else m

omit [DecidableEq ι] in
def initializeActive (m : Machine ι) (i : ι) : Machine ι :=
  let s := m.stage i
  let m := stageOff m i
  let m := if s.systemIndex = 0 then { m with args.systemOn := true } else m
  match s.kind with
  | .cooling => { m with args.vOutputs.sovInHeating := false }
  | .indoorHeat _ => m

/-- The time of a stage's on or off cycle for the current load. -/
def cycleTimeOf (args : Args) (systemIndex : Nat) (on : Bool) : Nat :=
  let stage := args.inputs.systemConfig.stages.getD systemIndex Config.Stage.off
  if on then
    calculateOnTime conv args.inputs.pvOut stage.minOnTime stage.cph stage.lowerBound
      stage.upperBound
  else
    calculateOffTime conv args.inputs.pvOut stage.minOffTime stage.cph stage.lowerBound
      stage.upperBound

section Actions

variable (generateEvent : Machine ι → ι → Event → Machine ι)

/-- `checkOnTime()` and `checkOffTime()`. -/
def checkTime (m : Machine ι) (i : ι) (on : Bool) : Machine ι :=
  let s := m.stage i
  let m := m.assert s.hasArgs
  if m.args.cycleInfo.mode = CycleStatus.of on then
    let time := cycleTimeOf conv m.args s.systemIndex on
    let m :=
      if on then { m with args.cycleInfo.onTime := time }
      else { m with args.cycleInfo.offTime := time }
    if expiredPrecision s.startTime (Precision.ofSeconds time) m.args.inputs.currentInterval ∨
        m.args.abortOnOffCycle then
      generateEvent { m with args.abortOnOffCycle := false } i (.timeExpired on)
    else m
  else m

/-- `startingStageOn()` and `startingStageOff()`. -/
def startingStage (m : Machine ι) (i : ι) (on : Bool) : Machine ι :=
  let s := m.stage i
  let m := setStage (m.assert s.hasArgs) i on
  let m :=
    if on then { m with args.cycleInfo.beginOnTime := s.startTime }
    else { m with args.cycleInfo.beginOffTime := s.startTime }
  let m := { m with args.cycleInfo.mode := CycleStatus.of on }
  let m := checkTime conv generateEvent m i on
  generateEvent m i (.startingTimeExpired on)

/-- The entry into the on or the off cycle. -/
def enterCycle (m : Machine ι) (i : ι) (on : Bool) : Machine ι :=
  (startingStage conv generateEvent (startTime m i) i on).setState i (.starting on)

/-- The entry into `Cycling`. -/
def enterCycling (m : Machine ι) (i : ι) : Machine ι :=
  enterCycle conv generateEvent m i (!(m.stage i).startInOffCycle)

def notifyAsActiveStage (m : Machine ι) (i previousStage : ι) (startInOnCycle : Bool) :
    Machine ι :=
  generateEvent
    (m.update i fun s =>
      { s with
        hasArgs := true
        startInOffCycle := !startInOnCycle
        supplemented := true
        nextStage := none
        prevStage := some previousStage })
    i .onRequest

def notifyAsExitingSupplmenting (m : Machine ι) (i : ι) (startInOnCycle : Bool) : Machine ι :=
  generateEvent
    (m.update i fun s =>
      { s with hasArgs := true, startInOffCycle := !startInOnCycle, nextStage := none })
    i .lessCapacityNeeded

def enterSupplementing (m : Machine ι) (i : ι) : Machine ι :=
  let s := m.stage i
  let m := (m.assert s.hasArgs).assert s.nextStage.isSome
  match s.nextStage with
  | none => stageOn m i
  | some next =>
      stageOn (notifyAsActiveStage generateEvent m next i s.requestSupplementStartInOnCycle) i

def notifyLowerStage (m : Machine ι) (i : ι) : Machine ι :=
  let s := m.stage i
  let m := (m.assert s.hasArgs).assert s.prevStage.isSome
  let m :=
    match s.prevStage with
    | none => m
    | some previous =>
        notifyAsExitingSupplmenting generateEvent m previous s.requestOffStartInOnCycle
  m.update i fun s => { s with prevStage := none, supplemented := false }

/-- The transitions out of `Active`. -/
def activeEvent (m : Machine ι) (i : ι) (msg : Event) : Machine ι :=
  if msg = .offModeRequest then (initializeStage m i).setState i .off else m

/-- The transitions out of `Cycling`. -/
def cyclingEvent (m : Machine ι) (i : ι) (msg : Event) : Machine ι :=
  if msg = .excessCapacity then
    if (m.stage i).supplemented then
      -- `initializeBackTransition()`
      (generateEvent m i .backTransitionCompleted).setState i .transitioningBackToLowerStage
    else (shutdownStage m i).setState i .off
  else if msg = .needMoreCapacity then
    (enterSupplementing generateEvent m i).setState i .supplementingNextStage
  else activeEvent m i msg

def processEvent (m : Machine ι) (i : ι) (msg : Event) : Machine ι :=
  match (m.stage i).state with
  | .off =>
      if msg = .onRequest then
        if (m.stage i).supplemented then
          -- `initializeFromTransition()`
          (generateEvent m i .fromTransitionCompleted).setState i .transitioningFromLowerStage
        else enterCycling conv generateEvent (initializeActive m i) i
      else m
  | .starting on =>
      if msg = .startingTimeExpired on then (setStage m i on).setState i (.timed on)
      else if msg = .timeExpired on then enterCycle conv generateEvent m i (!on)
      else cyclingEvent generateEvent m i msg
  | .timed on =>
      let m := checkTime conv generateEvent m i on
      if msg = .timeExpired on then enterCycle conv generateEvent m i (!on)
      else cyclingEvent generateEvent m i msg
  | .transitioningFromLowerStage =>
      if msg = .fromTransitionCompleted then enterCycling conv generateEvent m i
      else activeEvent m i msg
  | .transitioningBackToLowerStage =>
      if msg = .backTransitionCompleted then
        (shutdownStage (notifyLowerStage generateEvent m i) i).setState i .off
      else activeEvent m i msg
  | .supplementingNextStage =>
      if msg = .lessCapacityNeeded then enterCycling conv generateEvent m i
      else if msg = .offModeRequest then (initializeStage m i).setState i .off
      else m

end Actions

/-- The event queue holds one element less than its memory. -/
def queueCapacity : Nat := 7

/-- `generateEvent()`, which processes the events unless it is already doing so. -/
def generateWith (drain : Machine ι → ι → Machine ι) (m : Machine ι) (i : ι) (msg : Event) :
    Machine ι :=
  let m :=
    if (m.stage i).queue.length < queueCapacity then
      m.update i fun s => { s with queue := s.queue ++ [msg] }
    else { m with overflow := true }
  if (m.stage i).processingFsmEvent then m
  else drain (m.update i fun s => { s with processingFsmEvent := true }) i

/-- The loop of `generateEvent()` over the queued events. -/
def drain : Nat → Machine ι → ι → Machine ι
  | 0, m, _ => { m with stuck := true }
  | n + 1, m, i =>
      match (m.stage i).queue with
      | [] => m.update i fun s => { s with processingFsmEvent := false }
      | msg :: rest =>
          drain n
            (processEvent conv (generateWith (drain n))
              (m.update i fun s => { s with queue := rest }) i msg) i

def generateEvent (m : Machine ι) (i : ι) (msg : Event) : Machine ι :=
  generateWith (drain conv 16) m i msg

def requestOn (m : Machine ι) (i : ι) : Machine ι :=
  generateEvent conv
    (m.update i fun s =>
      { s with hasArgs := true, startInOffCycle := false, supplemented := false })
    i .onRequest

def requestAsSupplement (m : Machine ι) (i nextStage : ι) : Machine ι :=
  generateEvent conv
    (m.update i fun s =>
      { s with
        hasArgs := true
        requestSupplementStartInOnCycle := true
        nextStage := some nextStage })
    i .needMoreCapacity

def requestModeToOff (m : Machine ι) (i : ι) : Machine ι :=
  generateEvent conv m i .offModeRequest

def requestOff (m : Machine ι) (i : ι) : Machine ι :=
  generateEvent conv
    (m.update i fun s => { s with hasArgs := true, requestOffStartInOnCycle := true })
    i .excessCapacity

def execute (m : Machine ι) (i : ι) : Machine ι :=
  generateEvent conv (m.update i fun s => { s with hasArgs := true }) i .noMsg

def reconfigure (m : Machine ι) (i : ι) (systemStageIndex outputStageIndex : Nat) : Machine ι :=
  m.update i fun s => { s with systemIndex := systemStageIndex, outIndex := outputStageIndex }

end ColonyPico.Storm.StageFsm
