import ColonyPico.Dm.RecordPoints
import ColonyPico.Json.Variant
import ColonyPico.Storm.Config

/-!
The system configuration (`Storm::Dm::MpSystemConfig`), whose number of stages in use is stored next
to an array of a fixed size. A result of `none` is an access outside the array.
-/

namespace ColonyPico.Storm.SystemConfigPoint

open Dm.ModelPoint Dm.LockState Dm.RecordPoints Json.Variant
open Config (maxTotalStages areFloatsEqual)

structure Stage where
  lowerBound : ℚ
  upperBound : ℚ
  minIndoorFan : Nat
  maxIndoorFan : Nat
  minOnTime : Nat
  minOffTime : Nat
  cph : Int
  deriving DecidableEq

structure SystemConfig where
  stages : Vector Stage maxTotalStages
  currentOpMode : Int
  outdoorUnitType : Int
  indoorUnitType : Int
  numCompressorStages : Nat
  numIndoorStages : Nat
  totalStages : Nat
  fanContinuousSpeed : Nat
  gain : ℚ
  reset : ℚ
  maxPvOut : ℚ
  deriving DecidableEq

/-- What `hookSetInvalid()` leaves: all bytes zero. -/
def SystemConfig.zero : SystemConfig :=
  { stages := Vector.replicate maxTotalStages ⟨0, 0, 0, 0, 0, 0, 0⟩
    currentOpMode := 0
    outdoorUnitType := 0
    indoorUnitType := 0
    numCompressorStages := 0
    numIndoorStages := 0
    totalStages := 0
    fanContinuousSpeed := 0
    gain := 0
    reset := 0
    maxPvOut := 0 }

/-- `setToOff()`: a furnace, and stages of three cycles per hour. -/
def SystemConfig.off : SystemConfig :=
  { SystemConfig.zero with
    stages := Vector.replicate maxTotalStages ⟨0, 1, 0, 0, 5 * 60, 5 * 60, 1⟩
    indoorUnitType := 1
    gain := 1
    reset := 1
    maxPvOut := 1 }

section Compare

def Stage.isDataEqual (stage other : Stage) : Bool :=
  areFloatsEqual stage.lowerBound other.lowerBound &&
    areFloatsEqual stage.upperBound other.upperBound &&
    stage.maxIndoorFan == other.maxIndoorFan && stage.minIndoorFan == other.minIndoorFan &&
    stage.cph == other.cph && stage.minOffTime == other.minOffTime &&
    stage.minOnTime == other.minOnTime

/-- The loop over the next stages, from the `i`-th on. -/
def stagesEqual (stages others : Vector Stage maxTotalStages) (i : Nat) : Nat → Option Bool
  | 0 => some true
  | n + 1 => do
      let stage ← stages[i]?
      let other ← others[i]?
      if stage.isDataEqual other then stagesEqual stages others (i + 1) n else some false

/-- The fields outside the array. The total number of stages is not among them. -/
def restEqual (data other : SystemConfig) : Bool :=
  data.currentOpMode == other.currentOpMode && data.indoorUnitType == other.indoorUnitType &&
    data.outdoorUnitType == other.outdoorUnitType &&
    data.numCompressorStages == other.numCompressorStages &&
    data.numIndoorStages == other.numIndoorStages &&
    data.fanContinuousSpeed == other.fanContinuousSpeed && areFloatsEqual data.gain other.gain &&
    areFloatsEqual data.reset other.reset && areFloatsEqual data.maxPvOut other.maxPvOut

def isDataEqual (data other : SystemConfig) : Option Bool := do
  let equal ← stagesEqual data.stages other.stages 0 data.totalStages
  some (equal && restEqual data other)

end Compare

abbrev MpSystemConfig := LockablePoint SystemConfig

section Json

/-- `_from_string_nothrow()` of an enumeration with these names. -/
def fromString (names : List String) (name : String) : Option Int :=
  (names.findIdx? (· == name)).map Int.ofNat

/-- A value without a known name leaves the field. -/
def enumOr (names : List String) (value : JsonVariant ℚ) (field : Int) : Int :=
  (value.asCString.bind (fromString names)).getD field

def operatingModes : List String :=
  ["eOFF", "eCOOLING", "eHEATING", "eID_HEATING", "eUNKNOWN"]

def iduTypes : List String :=
  ["eAIR_HANDLER", "eFURNACE"]

def oduTypes : List String :=
  ["eAC", "eHP"]

def cphs : List String :=
  ["e2CPH", "e3CPH", "e4CPH", "e5CPH", "e6CPH", "eNUM_OPTIONS"]

/-- An `unsigned` that is stored in a `uint16_t`. -/
def uint16Of (value : JsonVariant ℚ) (field : Nat) : Nat :=
  ((value.asUnsigned 32).map (· % 2 ^ 16)).getD field

/-- The fields outside the array. -/
def withFields (src : JsonVariant ℚ) (newVal : SystemConfig) : SystemConfig :=
  { newVal with
    numCompressorStages := uint16Of (src.getMember "numCompStages") newVal.numCompressorStages
    numIndoorStages := uint16Of (src.getMember "numIdStages") newVal.numIndoorStages
    totalStages := uint16Of (src.getMember "totalStages") newVal.totalStages
    fanContinuousSpeed := uint16Of (src.getMember "fanCont") newVal.fanContinuousSpeed
    gain := (src.getMember "gain").asFloat.getD newVal.gain
    reset := (src.getMember "reset").asFloat.getD newVal.reset
    maxPvOut := (src.getMember "maxPv").asFloat.getD newVal.maxPvOut
    currentOpMode := enumOr operatingModes (src.getMember "opMode") newVal.currentOpMode
    indoorUnitType := enumOr iduTypes (src.getMember "iduType") newVal.indoorUnitType
    outdoorUnitType := enumOr oduTypes (src.getMember "oduType") newVal.outdoorUnitType }

def updateStage (element : JsonVariant ℚ) (stage : Stage) : Stage :=
  { lowerBound := (element.getMember "lower").asFloat.getD stage.lowerBound
    upperBound := (element.getMember "upper").asFloat.getD stage.upperBound
    minIndoorFan := ((element.getMember "minBlower").asUnsigned 16).getD stage.minIndoorFan
    maxIndoorFan := ((element.getMember "maxBlower").asUnsigned 16).getD stage.maxIndoorFan
    minOnTime := ((element.getMember "minOn").asUnsigned 32).getD stage.minOnTime
    minOffTime := ((element.getMember "minOff").asUnsigned 32).getD stage.minOffTime
    cph := enumOr cphs (element.getMember "cph") stage.cph }

/-- An element of `stages`. Its number is checked against the number of stages in use. -/
def parseStage (newVal : SystemConfig) (element : JsonVariant ℚ) : Option SystemConfig :=
  match (element.getMember "stage").asUnsigned 32 with
  | none => some newVal
  | some stageNum =>
      if 0 < stageNum ∧ stageNum ≤ newVal.totalStages then
        if h : stageNum - 1 < maxTotalStages then
          some { newVal with
            stages := newVal.stages.set (stageNum - 1)
              (updateStage element newVal.stages[stageNum - 1]) }
        else none
      else some newVal

def stageArray (src : JsonVariant ℚ) : List (JsonVariant ℚ) :=
  (src.getMember "stages").asArray.getD []

end Json

namespace MpSystemConfig

def init : MpSystemConfig :=
  { toPoint := Point.init SystemConfig.off true, locked := false }

variable (mp : MpSystemConfig)

/-- `writeData()`. The data are compared only where the lock lets the write through and the point is
valid. -/
def write (newConfiguration : SystemConfig) (lockRequest : LockRequest) : Option MpSystemConfig :=
  if (testAndUpdateLock mp.locked lockRequest).2 = true ∧ mp.valid = true then do
    let equal ← isDataEqual mp.data newConfiguration
    some (writeData (fun _ _ => equal) (fun _ src => src) mp (some newConfiguration) lockRequest)
  else
    some (writeData (fun _ _ => false) (fun _ src => src) mp (some newConfiguration) lockRequest)

def setToOff (lockRequest : LockRequest) : Option MpSystemConfig :=
  mp.write SystemConfig.off lockRequest

def setInvalid (lockRequest : LockRequest) : MpSystemConfig :=
  Dm.RecordPoints.setInvalid SystemConfig.zero mp lockRequest

def copyFrom (src : MpSystemConfig) (lockRequest : LockRequest) : Option MpSystemConfig :=
  if src.valid = false then some (setInvalid mp .noRequest) else write mp src.data lockRequest

/-- `fromJSON_()`: the model point, and the error message. -/
def fromJSON (src : JsonVariant ℚ) (lockRequest : LockRequest) :
    Option (MpSystemConfig × Option String) :=
  if src.isObject then do
    let newVal ← (stageArray src).foldlM parseStage (withFields src mp.data)
    let mp ← write mp newVal lockRequest
    some (mp, none)
  else some (mp, some "Invalid key/value pair")

end MpSystemConfig

section Compare

variable {data other : SystemConfig}

theorem areFloatsEqual_self (a : ℚ) : areFloatsEqual a a = true := by
  simp [areFloatsEqual]

theorem Stage.isDataEqual_self (stage : Stage) : stage.isDataEqual stage = true := by
  simp [Stage.isDataEqual, areFloatsEqual_self]

theorem restEqual_self (data : SystemConfig) : restEqual data data = true := by
  simp [restEqual, areFloatsEqual_self]

theorem stagesEqual_same {stages others : Vector Stage maxTotalStages} {i n : Nat}
    (hi : i ≤ maxTotalStages)
    (hsame : ∀ j (h : j < maxTotalStages), i ≤ j → j < i + n →
      stages[j].isDataEqual others[j] = true) :
    stagesEqual stages others i n = if i + n ≤ maxTotalStages then some true else none := by
  induction n generalizing i with
  | zero => rw [stagesEqual, Nat.add_zero, if_pos hi]
  | succ n ih =>
      rw [stagesEqual]
      rcases hi.lt_or_eq with hlt | rfl
      · rw [Vector.getElem?_eq_getElem hlt, Vector.getElem?_eq_getElem hlt]
        simp only [Option.bind_eq_bind, Option.bind_some]
        rw [if_pos (hsame i hlt le_rfl (by omega)), ih hlt fun j hj hij hjn =>
          hsame j hj (by omega) (by omega)]
        simp only [Nat.add_right_comm i 1 n, Nat.add_assoc]
      · rw [if_neg (by omega), Vector.getElem?_eq_none le_rfl]
        rfl

theorem stagesEqual_differ {stages others : Vector Stage maxTotalStages} {i n j : Nat}
    (hj : j < maxTotalStages) (hij : i ≤ j) (hjn : j < i + n)
    (hdiffer : stages[j].isDataEqual others[j] = false) :
    stagesEqual stages others i n = some false := by
  induction n generalizing i with
  | zero => omega
  | succ n ih =>
      have hi : i < maxTotalStages := Nat.lt_of_le_of_lt hij hj
      rw [stagesEqual, Vector.getElem?_eq_getElem hi, Vector.getElem?_eq_getElem hi]
      simp only [Option.bind_eq_bind, Option.bind_some]
      split
      case isTrue hsame =>
        have hne : i ≠ j := by
          rintro rfl
          rw [hdiffer] at hsame
          cases hsame
        exact ih (by omega) (by omega)
      case isFalse => rfl

/-- A difference that the comparison comes to see: in a stage in use, or else in a field outside the
array, if the stages in use do not lead out of it. -/
def Visible (data other : SystemConfig) : Prop :=
  (∃ j, ∃ h : j < maxTotalStages, j < data.totalStages ∧
    data.stages[j].isDataEqual other.stages[j] = false) ∨
    (data.totalStages ≤ maxTotalStages ∧ restEqual data other = false)

theorem isDataEqual_visible (h : Visible data other) : isDataEqual data other = some false := by
  rw [isDataEqual]
  rcases Classical.em (∃ j, ∃ h : j < maxTotalStages, j < data.totalStages ∧
      data.stages[j].isDataEqual other.stages[j] = false) with ⟨j, hj, hused, hdiffer⟩ | hstages
  · rw [stagesEqual_differ hj (Nat.zero_le j) (by omega) hdiffer]
    rfl
  · obtain ⟨hfits, hrest⟩ := h.resolve_left hstages
    push Not at hstages
    rw [stagesEqual_same (Nat.zero_le _) fun j hj _ hjn => by
      simpa using hstages j hj (by omega), if_pos (by omega)]
    simp [hrest]

theorem isDataEqual_not_visible (h : ¬ Visible data other) :
    isDataEqual data other = if data.totalStages ≤ maxTotalStages then some true else none := by
  obtain ⟨hstages, hrest⟩ := not_or.1 h
  push Not at hstages
  rw [isDataEqual, stagesEqual_same (Nat.zero_le _) fun j hj _ hjn => by
    simpa using hstages j hj (by omega), Nat.zero_add]
  split
  case isTrue hfits =>
    have hequal : restEqual data other = true := by
      simpa using fun hdiffer => hrest ⟨hfits, hdiffer⟩
    simp [hequal]
  case isFalse => rfl

theorem not_visible_self (data : SystemConfig) : ¬ Visible data data := by
  rintro (⟨j, hj, -, hdiffer⟩ | ⟨-, hdiffer⟩)
  · rw [Stage.isDataEqual_self] at hdiffer
    cases hdiffer
  · rw [restEqual_self] at hdiffer
    cases hdiffer

end Compare

section Write

variable {mp : MpSystemConfig} {newConfiguration : SystemConfig} {lockRequest : LockRequest}

/-- No access leaves the array, the stored number of stages fits it, and what the lock lets through
is read back, with a new sequence number exactly where something differed. -/
def StoresSafely (mp : MpSystemConfig) (newConfiguration : SystemConfig) (lockRequest : LockRequest)
    (result : Option MpSystemConfig) : Prop :=
  ∃ mp', result = some mp' ∧ mp'.data.totalStages ≤ maxTotalStages ∧
    (¬ Refused mp lockRequest →
      mp'.toPoint.read = some newConfiguration ∧
        (mp'.seqNum ≠ mp.seqNum ↔ mp.toPoint.read ≠ some newConfiguration))

/-- The new number of stages fits the array, and the new configuration is the stored one or differs
in something that is compared; or the lock keeps it out. -/
def FitsVisibly (mp : MpSystemConfig) (newConfiguration : SystemConfig)
    (lockRequest : LockRequest) : Prop :=
  (Refused mp lockRequest ∧ mp.data.totalStages ≤ maxTotalStages) ∨
    (¬ Refused mp lockRequest ∧ newConfiguration.totalStages ≤ maxTotalStages ∧
      (mp.valid = true → mp.data = newConfiguration ∨ Visible mp.data newConfiguration))

theorem granted_iff : (testAndUpdateLock mp.locked lockRequest).2 = true ↔
    ¬ Refused mp lockRequest := by
  cases lockRequest with
  | noRequest => simp [testAndUpdateLock, Refused]
  | lock => simp [testAndUpdateLock, Refused]
  | unlock => simp [testAndUpdateLock, Refused]

theorem write_refused (h : Refused mp lockRequest) (newConfiguration : SystemConfig) :
    mp.write newConfiguration lockRequest = some mp := by
  rw [MpSystemConfig.write, if_neg fun hgranted => granted_iff.1 hgranted.1 h]
  exact congrArg some (lockedUpdate_refused h _)

theorem writeData_stores (newConfiguration : SystemConfig) (h : ¬ Refused mp lockRequest)
    {equal : Bool} (hstores : mp.valid = false ∨ equal = false) :
    (writeData (fun _ _ => equal) (fun _ src => src) mp (some newConfiguration)
      lockRequest).toPoint =
        { data := newConfiguration, valid := true, seqNum := advanceSequenceNumber mp.seqNum } := by
  rw [writeData, lockedUpdate_granted h]
  exact if_pos hstores

theorem writeData_keeps (newConfiguration : SystemConfig) (h : ¬ Refused mp lockRequest)
    (hvalid : mp.valid = true) :
    (writeData (fun _ _ => true) (fun _ src => src) mp (some newConfiguration)
      lockRequest).toPoint = mp.toPoint := by
  rw [writeData, lockedUpdate_granted h]
  exact if_neg (by simp [hvalid])

theorem storesSafely_of_stores (h : ¬ Refused mp lockRequest) {equal : Bool}
    (hstores : mp.valid = false ∨ equal = false)
    (hdiffers : mp.toPoint.read ≠ some newConfiguration) :
    StoresSafely mp newConfiguration lockRequest
        (some (writeData (fun _ _ => equal) (fun _ src => src) mp (some newConfiguration)
          lockRequest)) ↔
      newConfiguration.totalStages ≤ maxTotalStages := by
  have hpoint := writeData_stores newConfiguration h hstores
  constructor
  · rintro ⟨mp', hmp', hfits, -⟩
    obtain rfl := Option.some.inj hmp'
    rwa [hpoint] at hfits
  · intro hfits
    refine ⟨_, rfl, ?_, fun _ => ⟨?_, ?_⟩⟩
    · rwa [hpoint]
    · rw [hpoint]
      rfl
    · rw [hpoint]
      exact iff_of_true (advanceSequenceNumber_ne _) hdiffers

theorem write_storesSafely_iff (mp : MpSystemConfig) (newConfiguration : SystemConfig)
    (lockRequest : LockRequest) :
    StoresSafely mp newConfiguration lockRequest (mp.write newConfiguration lockRequest) ↔
      FitsVisibly mp newConfiguration lockRequest := by
  rcases Classical.em (Refused mp lockRequest) with hrefused | hgranted
  · rw [write_refused hrefused, FitsVisibly, and_iff_right hrefused]
    constructor
    · rintro ⟨mp', hmp', hfits, -⟩
      obtain rfl := Option.some.inj hmp'
      exact Or.inl hfits
    · rintro (hfits | ⟨hgranted, -⟩)
      · exact ⟨mp, rfl, hfits, fun hgranted => absurd hrefused hgranted⟩
      · exact absurd hrefused hgranted
  · rw [FitsVisibly, or_iff_right (fun h => hgranted h.1), and_iff_right hgranted,
      MpSystemConfig.write]
    rcases hvalid : mp.valid with _ | _
    · -- an invalid point is written without a comparison
      rw [if_neg (by simp),
        storesSafely_of_stores hgranted (Or.inl hvalid) (by simp [Point.read, hvalid])]
      simp
    · have hread : mp.toPoint.read = some newConfiguration ↔ mp.data = newConfiguration := by
        simp [Point.read, hvalid]
      rw [if_pos ⟨granted_iff.2 hgranted, rfl⟩]
      rcases Classical.em (Visible mp.data newConfiguration) with hvisible | hhidden
      · have hne : mp.toPoint.read ≠ some newConfiguration := by
          rw [Ne, hread]
          rintro rfl
          exact not_visible_self _ hvisible
        rw [isDataEqual_visible hvisible, Option.bind_eq_bind, Option.bind_some,
          storesSafely_of_stores hgranted (Or.inr rfl) hne]
        simp [hvisible]
      · rw [isDataEqual_not_visible hhidden]
        simp only [hhidden, or_false, true_imp_iff]
        split
        case isTrue hfits =>
          rw [Option.bind_eq_bind, Option.bind_some]
          have hpoint := writeData_keeps newConfiguration hgranted hvalid
          constructor
          · rintro ⟨mp', hmp', -, hsafe⟩
            obtain rfl := Option.some.inj hmp'
            have hdata := (hsafe hgranted).1
            rw [hpoint, hread] at hdata
            exact ⟨hdata ▸ hfits, hdata⟩
          · rintro ⟨-, hdata⟩
            refine ⟨_, rfl, ?_, fun _ => ⟨?_, ?_⟩⟩
            · rwa [hpoint]
            · rw [hpoint, hread]
              exact hdata
            · rw [hpoint]
              exact iff_of_false (fun h => h rfl) (fun h => h (hread.2 hdata))
        case isFalse hout =>
          rw [Option.bind_eq_bind, Option.bind_none]
          refine iff_of_false ?_ ?_
          · rintro ⟨mp', hmp', -⟩
            cases hmp'
          · rintro ⟨hfits, hdata⟩
            exact hout (hdata ▸ hfits)

end Write

section Objects

/-- The configuration after an element of `stages` whose number is inside the array. -/
def askedStage (newVal : SystemConfig) (element : JsonVariant ℚ) : SystemConfig :=
  match (element.getMember "stage").asUnsigned 32 with
  | none => newVal
  | some stageNum =>
      if 0 < stageNum ∧ stageNum ≤ newVal.totalStages then
        if h : stageNum - 1 < maxTotalStages then
          { newVal with
            stages := newVal.stages.set (stageNum - 1)
              (updateStage element newVal.stages[stageNum - 1]) }
        else newVal
      else newVal

/-- The configuration that an object asks for: its values, and the old ones where it has none. -/
def asked (src : JsonVariant ℚ) (data : SystemConfig) : SystemConfig :=
  (stageArray src).foldl askedStage (withFields src data)

/-- The elements of an array name no stage in use that the array of stages does not have. -/
def InArray (totalStages : Nat) (elements : List (JsonVariant ℚ)) : Prop :=
  ∀ element ∈ elements, ∀ stageNum, (element.getMember "stage").asUnsigned 32 = some stageNum →
    stageNum ≤ totalStages → stageNum ≤ maxTotalStages

theorem inArray_cons {totalStages : Nat} {element : JsonVariant ℚ}
    {elements : List (JsonVariant ℚ)} :
    InArray totalStages (element :: elements) ↔
      (∀ stageNum, (element.getMember "stage").asUnsigned 32 = some stageNum →
        stageNum ≤ totalStages → stageNum ≤ maxTotalStages) ∧ InArray totalStages elements :=
  List.forall_mem_cons

theorem totalStages_askedStage (newVal : SystemConfig) (element : JsonVariant ℚ) :
    (askedStage newVal element).totalStages = newVal.totalStages := by
  unfold askedStage
  split
  · rfl
  · split_ifs
    · rfl
    · rfl
    · rfl

theorem parseStage_cases (newVal : SystemConfig) (element : JsonVariant ℚ) :
    ((∀ stageNum, (element.getMember "stage").asUnsigned 32 = some stageNum →
        stageNum ≤ newVal.totalStages → stageNum ≤ maxTotalStages) ∧
      parseStage newVal element = some (askedStage newVal element)) ∨
    (∃ stageNum, (element.getMember "stage").asUnsigned 32 = some stageNum ∧
        stageNum ≤ newVal.totalStages ∧ maxTotalStages < stageNum) ∧
      parseStage newVal element = none := by
  unfold parseStage askedStage
  cases hnum : (element.getMember "stage").asUnsigned 32 with
  | none => exact Or.inl ⟨by simp, rfl⟩
  | some stageNum =>
      simp only [Option.some.injEq, forall_eq', exists_eq_left']
      split
      case isTrue hused =>
        rcases Nat.lt_or_ge (stageNum - 1) maxTotalStages with hin | hout
        · refine Or.inl ⟨fun _ => by omega, ?_⟩
          rw [dif_pos hin, dif_pos hin]
        · refine Or.inr ⟨⟨hused.2, by omega⟩, ?_⟩
          rw [dif_neg (Nat.not_lt.2 hout)]
      case isFalse hunused => exact Or.inl ⟨fun hle => by omega, rfl⟩

theorem foldlM_inArray {newVal : SystemConfig} {elements : List (JsonVariant ℚ)}
    (h : InArray newVal.totalStages elements) :
    elements.foldlM parseStage newVal = some (elements.foldl askedStage newVal) := by
  induction elements generalizing newVal with
  | nil => rfl
  | cons element elements ih =>
      obtain ⟨hfirst, hrest⟩ := inArray_cons.1 h
      rcases parseStage_cases newVal element with ⟨-, hok⟩ | ⟨⟨stageNum, hnum, hle, hout⟩, -⟩
      · rw [List.foldlM_cons, hok, Option.bind_eq_bind, Option.bind_some, List.foldl_cons]
        exact ih ((totalStages_askedStage newVal element).symm ▸ hrest)
      · exact absurd (hfirst stageNum hnum hle) (Nat.not_le.2 hout)

theorem foldlM_not_inArray {newVal : SystemConfig} {elements : List (JsonVariant ℚ)}
    (h : ¬ InArray newVal.totalStages elements) : elements.foldlM parseStage newVal = none := by
  induction elements generalizing newVal with
  | nil => exact absurd (fun _ hmem => absurd hmem List.not_mem_nil) h
  | cons element elements ih =>
      rcases parseStage_cases newVal element with ⟨hfirst, hok⟩ | ⟨-, hout⟩
      · have hrest : ¬ InArray newVal.totalStages elements :=
          fun hrest => h (inArray_cons.2 ⟨hfirst, hrest⟩)
        rw [List.foldlM_cons, hok, Option.bind_eq_bind, Option.bind_some]
        exact ih ((totalStages_askedStage newVal element).symm ▸ hrest)
      · rw [List.foldlM_cons, hout]
        rfl

def StoresSafelyJson (mp : MpSystemConfig) (src : JsonVariant ℚ) (lockRequest : LockRequest) :
    Prop :=
  StoresSafely mp (asked src mp.data) lockRequest ((mp.fromJSON src lockRequest).map Prod.fst)

/-- The object names no stage in use outside the array, and asks for a visible write that fits. -/
def FitsVisiblyJson (mp : MpSystemConfig) (src : JsonVariant ℚ) (lockRequest : LockRequest) :
    Prop :=
  InArray (withFields src mp.data).totalStages (stageArray src) ∧
    FitsVisibly mp (asked src mp.data) lockRequest

theorem systemConfig_fromJSON_iff (mp : MpSystemConfig) (members : List (String × JsonVariant ℚ))
    (lockRequest : LockRequest) :
    StoresSafelyJson mp (.object members) lockRequest ↔
      FitsVisiblyJson mp (.object members) lockRequest := by
  have hobject : (JsonVariant.object members).isObject = true := rfl
  rw [StoresSafelyJson, FitsVisiblyJson, MpSystemConfig.fromJSON, if_pos hobject]
  rcases Classical.em (InArray (withFields (.object members) mp.data).totalStages
      (stageArray (.object members))) with hin | hout
  · rw [and_iff_right hin, foldlM_inArray hin, Option.bind_eq_bind, Option.bind_some,
      ← write_storesSafely_iff]
    simp only [asked, Option.bind_eq_bind, Option.map_bind, Function.comp_def, Option.map_some,
      Option.bind_fun_some]
  · rw [foldlM_not_inArray hout]
    refine iff_of_false ?_ fun h => hout h.1
    rintro ⟨mp', hmp', -⟩
    cases hmp'

end Objects

section Runs

/-- A call, but for `copyFrom()`. -/
inductive Operation where
  | write (newConfiguration : SystemConfig) (lockRequest : LockRequest)
  | setToOff (lockRequest : LockRequest)
  | fromJSON (members : List (String × JsonVariant ℚ)) (lockRequest : LockRequest)
  | setInvalid (lockRequest : LockRequest)
  | setLockState (lockRequest : LockRequest)

def Operation.perform (mp : MpSystemConfig) : Operation → Option MpSystemConfig
  | write newConfiguration lockRequest => mp.write newConfiguration lockRequest
  | setToOff lockRequest => mp.setToOff lockRequest
  | fromJSON members lockRequest => (mp.fromJSON (.object members) lockRequest).map Prod.fst
  | setInvalid lockRequest => some (mp.setInvalid lockRequest)
  | setLockState lockRequest => some (Dm.LockState.setLockState mp lockRequest)

def Operation.Allowed (mp : MpSystemConfig) : Operation → Prop
  | write newConfiguration lockRequest => FitsVisibly mp newConfiguration lockRequest
  | fromJSON members lockRequest => FitsVisiblyJson mp (.object members) lockRequest
  | _ => True

/-- The states that such calls lead to. -/
inductive Reached : MpSystemConfig → Prop where
  | init : Reached MpSystemConfig.init
  | perform {mp mp'} (h : Reached mp) (operation : Operation) (hallowed : operation.Allowed mp)
      (hperform : operation.perform mp = some mp') : Reached mp'
  | copyFrom {mp src mp'} (h : Reached mp) (hsrc : Reached src) (lockRequest : LockRequest)
      (hcopy : mp.copyFrom src lockRequest = some mp') : Reached mp'

variable {mp mp' : MpSystemConfig}

theorem write_fits (h : mp.data.totalStages ≤ maxTotalStages) {newConfiguration : SystemConfig}
    (hnew : newConfiguration.totalStages ≤ maxTotalStages) {lockRequest : LockRequest}
    (hwrite : mp.write newConfiguration lockRequest = some mp') :
    mp'.data.totalStages ≤ maxTotalStages := by
  have hdata : ∀ equal : Bool, (writeData (fun _ _ => equal) (fun _ src => src) mp
      (some newConfiguration) lockRequest).data.totalStages ≤ maxTotalStages := by
    intro equal
    refine lockedUpdate_data (q := fun data : SystemConfig => data.totalStages ≤ maxTotalStages)
      h ?_ lockRequest
    dsimp only [Point.write]
    split
    · exact hnew
    · exact h
  unfold MpSystemConfig.write at hwrite
  split at hwrite
  · obtain ⟨equal, -, hmp'⟩ := Option.bind_eq_some_iff.1 hwrite
    obtain rfl := Option.some.inj hmp'
    exact hdata equal
  · obtain rfl := Option.some.inj hwrite
    exact hdata false

theorem setInvalid_fits (h : mp.data.totalStages ≤ maxTotalStages) (lockRequest : LockRequest) :
    (mp.setInvalid lockRequest).data.totalStages ≤ maxTotalStages :=
  setInvalid_data (q := fun data : SystemConfig => data.totalStages ≤ maxTotalStages) h
    (Nat.zero_le _) lockRequest

theorem Reached.fits (h : Reached mp) : mp.data.totalStages ≤ maxTotalStages := by
  induction h with
  | init => exact Nat.zero_le _
  | perform h operation hallowed hperform ih =>
      cases operation with
      | write newConfiguration lockRequest =>
          obtain ⟨mp'', hmp'', hfits, -⟩ := (write_storesSafely_iff _ _ _).2 hallowed
          obtain rfl := Option.some.inj (hmp''.symm.trans hperform)
          exact hfits
      | setToOff lockRequest => exact write_fits ih (Nat.zero_le _) hperform
      | fromJSON members lockRequest =>
          obtain ⟨mp'', hmp'', hfits, -⟩ := (systemConfig_fromJSON_iff _ _ _).2 hallowed
          obtain rfl := Option.some.inj (hmp''.symm.trans hperform)
          exact hfits
      | setInvalid lockRequest =>
          obtain rfl := Option.some.inj hperform
          exact setInvalid_fits ih lockRequest
      | setLockState lockRequest =>
          obtain rfl := Option.some.inj hperform
          exact ih
  | copyFrom h hsrc lockRequest hcopy ih ihsrc =>
      unfold MpSystemConfig.copyFrom at hcopy
      split at hcopy
      · obtain rfl := Option.some.inj hcopy
        exact setInvalid_fits ih .noRequest
      · exact write_fits ih ihsrc hcopy

/-! The configurations that the operating mode builds -/

section Built

/-- The values of the enumerations. -/
def operatingMode : Config.OperatingMode → Int
  | .off => 0
  | .cooling => 1
  | .heating => 2
  | .idHeating => 3
  | .unknown => 4

def iduType : Config.IduType → Int
  | .airHandler => 0
  | .furnace => 1

def oduType : Config.OduType → Int
  | .ac => 0
  | .hp => 1

def cph : Config.Cph → Int
  | .cph2 => 0
  | .cph3 => 1
  | .cph4 => 2
  | .cph5 => 3
  | .cph6 => 4

def Stage.ofConfig (stage : Config.Stage) : Stage :=
  { lowerBound := stage.lowerBound
    upperBound := stage.upperBound
    minIndoorFan := stage.minIndoorFan
    maxIndoorFan := stage.maxIndoorFan
    minOnTime := stage.minOnTime
    minOffTime := stage.minOffTime
    cph := SystemConfigPoint.cph stage.cph }

/-- A configuration of the thermostat in the fields of the point. -/
def SystemConfig.ofConfig (cfg : Config.SystemConfig) : SystemConfig :=
  { stages := Vector.ofFn fun i => Stage.ofConfig (cfg.stages.getD i Config.Stage.off)
    currentOpMode := operatingMode cfg.currentOpMode
    outdoorUnitType := oduType cfg.outdoorUnitType
    indoorUnitType := iduType cfg.indoorUnitType
    numCompressorStages := cfg.numCompressorStages
    numIndoorStages := cfg.numIndoorStages
    totalStages := cfg.totalStages
    fanContinuousSpeed := cfg.fanContinuousSpeed
    gain := cfg.gain
    reset := cfg.reset
    maxPvOut := cfg.maxPvOut }

theorem ofConfig_off : SystemConfig.ofConfig Config.SystemConfig.off = SystemConfig.off := by
  decide

theorem beq_operatingMode (mode mode' : Config.OperatingMode) :
    (operatingMode mode == operatingMode mode') = (mode == mode') := by
  cases mode <;> cases mode' <;> rfl

theorem beq_iduType (idu idu' : Config.IduType) :
    (iduType idu == iduType idu') = (idu == idu') := by
  cases idu <;> cases idu' <;> rfl

theorem beq_oduType (odu odu' : Config.OduType) :
    (oduType odu == oduType odu') = (odu == odu') := by
  cases odu <;> cases odu' <;> rfl

theorem beq_cph (c c' : Config.Cph) : (cph c == cph c') = (c == c') := by
  cases c <;> cases c' <;> rfl

theorem isDataEqual_stage_ofConfig (stage other : Config.Stage) :
    (Stage.ofConfig stage).isDataEqual (Stage.ofConfig other) = stage.isDataEqual other := by
  simp only [Stage.isDataEqual, Stage.ofConfig, Config.Stage.isDataEqual, beq_cph]

theorem restEqual_ofConfig (cfg other : Config.SystemConfig) :
    restEqual (.ofConfig cfg) (.ofConfig other) =
      (cfg.currentOpMode == other.currentOpMode && cfg.indoorUnitType == other.indoorUnitType &&
        cfg.outdoorUnitType == other.outdoorUnitType &&
        cfg.numCompressorStages == other.numCompressorStages &&
        cfg.numIndoorStages == other.numIndoorStages &&
        cfg.fanContinuousSpeed == other.fanContinuousSpeed && areFloatsEqual cfg.gain other.gain &&
        areFloatsEqual cfg.reset other.reset && areFloatsEqual cfg.maxPvOut other.maxPvOut) := by
  simp only [restEqual, SystemConfig.ofConfig, beq_operatingMode, beq_iduType, beq_oduType]

theorem visible_ofConfig {cfg other : Config.SystemConfig}
    (hfits : cfg.totalStages ≤ maxTotalStages)
    (hdiffer : cfg.isDataEqual other = false) : Visible (.ofConfig cfg) (.ofConfig other) := by
  by_contra hhidden
  obtain ⟨hstages, hrest⟩ := not_or.1 hhidden
  push Not at hstages hrest
  have hequal := hrest hfits
  rw [Bool.ne_false_iff, restEqual_ofConfig] at hequal
  have hused : (List.range cfg.totalStages).all (fun i =>
      (cfg.stages.getD i Config.Stage.off).isDataEqual
        (other.stages.getD i Config.Stage.off)) = true := by
    rw [List.all_eq_true]
    intro i hi
    have hlt := List.mem_range.1 hi
    have hsame := hstages i (hlt.trans_le hfits) hlt
    simp only [SystemConfig.ofConfig, Vector.getElem_ofFn, isDataEqual_stage_ofConfig,
      Bool.ne_false_iff] at hsame
    exact hsame
  simp only [Config.SystemConfig.isDataEqual, hused, Bool.true_and, Bool.and_assoc]
    at hdiffer hequal
  rw [hequal] at hdiffer
  cases hdiffer

/-- What the operating mode builds is stored safely, over what it has built before or over the
configuration of the constructor. -/
theorem write_built_storesSafely {mp : MpSystemConfig} (mode : Config.OperatingMode)
    (equip : Config.EquipmentConfig) (comfort : Config.ComfortConfig)
    (hfits : (Config.setSystemConfig mode equip comfort).totalStages ≤ maxTotalStages)
    (hstored : mp.data = SystemConfig.off ∨ ∃ mode' equip' comfort',
      (Config.setSystemConfig mode' equip' comfort').totalStages ≤ maxTotalStages ∧
        mp.data = .ofConfig (Config.setSystemConfig mode' equip' comfort'))
    (lockRequest : LockRequest) :
    StoresSafely mp (.ofConfig (Config.setSystemConfig mode equip comfort)) lockRequest
      (mp.write (.ofConfig (Config.setSystemConfig mode equip comfort)) lockRequest) := by
  rw [write_storesSafely_iff]
  by_cases hrefused : Refused mp lockRequest
  · refine .inl ⟨hrefused, ?_⟩
    rcases hstored with hoff | ⟨mode', equip', comfort', hfits', hdata⟩
    · rw [hoff]
      exact Nat.zero_le _
    · rw [hdata]
      exact hfits'
  · refine .inr ⟨hrefused, hfits, fun _ => ?_⟩
    rcases hstored with hoff | ⟨mode', equip', comfort', hfits', hdata⟩
    · rw [hoff, ← ofConfig_off]
      exact .inr (visible_ofConfig (Nat.zero_le _) (Config.isDataEqual_off mode equip comfort))
    · rw [hdata]
      by_cases hequal : (Config.setSystemConfig mode' equip' comfort').isDataEqual
          (Config.setSystemConfig mode equip comfort) = true
      · exact .inl (congrArg _ (Config.setSystemConfig_eq_of_isDataEqual _ _ _ _ _ _ hequal))
      · exact .inr (visible_ofConfig hfits' (by simpa using hequal))

end Built

/-- A write and an object are stored safely exactly when they fit visibly, and as long as they do,
the stored number of stages fits the array. -/
theorem systemConfig_storesSafely_iff (mp : MpSystemConfig) :
    (∀ (newConfiguration : SystemConfig) (lockRequest : LockRequest),
      StoresSafely mp newConfiguration lockRequest (mp.write newConfiguration lockRequest) ↔
        FitsVisibly mp newConfiguration lockRequest) ∧
    (∀ (members : List (String × JsonVariant ℚ)) (lockRequest : LockRequest),
      StoresSafelyJson mp (.object members) lockRequest ↔
        FitsVisiblyJson mp (.object members) lockRequest) ∧
    (Reached mp → mp.data.totalStages ≤ maxTotalStages) :=
  ⟨write_storesSafely_iff mp, systemConfig_fromJSON_iff mp, Reached.fits⟩

/-- The write of a configuration with two stages. -/
theorem systemConfig_storesSafely_two_stages :
    FitsVisibly MpSystemConfig.init { SystemConfig.off with totalStages := 2, gain := 15 }
        .noRequest ∧
      StoresSafely MpSystemConfig.init { SystemConfig.off with totalStages := 2, gain := 15 }
        .noRequest
        (MpSystemConfig.init.write { SystemConfig.off with totalStages := 2, gain := 15 }
          .noRequest) ∧
      MpSystemConfig.init.data.totalStages ≤ maxTotalStages := by
  have hfitsVisibly : FitsVisibly MpSystemConfig.init
      { SystemConfig.off with totalStages := 2, gain := 15 } .noRequest :=
    Or.inr ⟨by simp [Refused, MpSystemConfig.init], by decide,
      fun _ => Or.inr (Or.inr ⟨by decide, by with_unfolding_all decide⟩)⟩
  exact ⟨hfitsVisibly, ((systemConfig_storesSafely_iff _).1 _ _).2 hfitsVisibly,
    (systemConfig_storesSafely_iff _).2.2 Reached.init⟩

/-- Five stages are stored, two stages in use are not told from none, and an object that sets the
fifth of five stages writes behind the array. -/
theorem systemConfig_not_storesSafely :
    ¬ StoresSafely MpSystemConfig.init { SystemConfig.off with totalStages := 5, gain := 2 }
        .noRequest
        (MpSystemConfig.init.write { SystemConfig.off with totalStages := 5, gain := 2 }
          .noRequest) ∧
      ¬ StoresSafely MpSystemConfig.init { SystemConfig.off with totalStages := 2 } .noRequest
        (MpSystemConfig.init.write { SystemConfig.off with totalStages := 2 } .noRequest) ∧
      MpSystemConfig.init.fromJSON
        (.object [("totalStages", .integer 5),
          ("stages", .array [.object [("stage", .integer 5)]])]) .noRequest = none := by
  refine ⟨?_, ?_, by decide⟩
  · rw [write_storesSafely_iff]
    rintro (⟨hrefused, -⟩ | ⟨-, hfits, -⟩)
    · exact absurd hrefused.1 (by decide)
    · exact absurd hfits (by decide)
  · rw [write_storesSafely_iff]
    rintro (⟨hrefused, -⟩ | ⟨-, -, hvisible⟩)
    · exact absurd hrefused.1 (by decide)
    · rcases hvisible rfl with hsame | ⟨j, hj, hused, -⟩ | ⟨-, hdiffer⟩
      · exact absurd (congrArg SystemConfig.totalStages hsame) (by decide)
      · exact absurd hused (Nat.not_lt_zero j)
      · exact absurd hdiffer (by decide)

end Runs

end ColonyPico.Storm.SystemConfigPoint
