import ColonyPico.Dm.RecordPoints
import ColonyPico.Storm.StageFsm
import ColonyPico.System.PrecisionTime

/-!
Times that come in as seconds of a JSON object (`Storm::Dm::MpEquipmentBeginTimes`,
`Storm::Dm::MpCycleInfo`). The numbers are exact rationals whose whole part an `unsigned long` can
hold, and the arithmetic on them is exact.
-/

namespace ColonyPico.Storm.JsonTimes

open Dm.ModelPoint Dm.LockState Dm.RecordPoints
open StageFsm (EquipmentTimes)
open System.ElapsedTime System.PrecisionTime

section Json

/-- A number of a JSON document. -/
structure JsonNumber where
  value : ℚ
  /-- It was written without a fraction. -/
  integer : Bool
  nonneg : 0 ≤ value
  lt : value < 2 ^ 32
  isNat_of_integer : integer = true → ∃ n : Nat, value = n

inductive JsonValue where
  | number (x : JsonNumber)
  | text (s : String)
  | other

/-- The members of an object. -/
abbrev JsonObject := List (String × JsonValue)

/-- `operator[]`. -/
def JsonObject.get (src : JsonObject) (key : String) : JsonValue :=
  ((src.find? fun member => member.1 == key).map Prod.snd).getD .other

/-- `as<double>()`, where `is<double>()`. -/
def JsonValue.asDouble : JsonValue → Option ℚ
  | number x => some x.value
  | _ => none

/-- `as<uint32_t>()`, where `is<uint32_t>()`. -/
def JsonValue.asUint32 : JsonValue → Option Nat
  | number x => if x.integer then some ⌊x.value⌋₊ else none
  | _ => none

def JsonValue.asCString : JsonValue → Option String
  | text s => some s
  | _ => none

end Json

/-- The seconds are cut off, and the thousandths of what is left are rounded. -/
def parseTime (value : JsonValue) (t : Precision) : Precision :=
  match value.asDouble with
  | some beginTime =>
      { seconds := ⌊beginTime⌋₊
        thousandths := ⌊(beginTime - ⌊beginTime⌋₊) * 1000 + 1 / 2⌋₊ % 2 ^ 16 }
  | none => t

/-- A time in seconds. -/
def jsonTime (t : Precision) (h : InRange 32 t) : JsonValue :=
  .number
    { value := t.seconds + t.thousandths / 1000
      integer := false
      nonneg := by positivity
      lt := by
        have hseconds : (t.seconds : ℚ) + 1 ≤ 2 ^ 32 := by exact_mod_cast h.1
        have hthousandths : (t.thousandths : ℚ) < 1000 := by exact_mod_cast h.2
        linarith
      isNat_of_integer := by rintro ⟨⟩ }

/-- A 32 bit number. -/
def jsonUint32 (n : Nat) (h : n < 2 ^ 32) : JsonValue :=
  .number
    { value := n
      integer := true
      nonneg := by positivity
      lt := by exact_mod_cast h
      isNat_of_integer := fun _ => ⟨n, rfl⟩ }

namespace MpEquipmentBeginTimes

/-- The fields with their keys. -/
def fields : List (String × (EquipmentTimes → Precision)) :=
  [("beginIndoorOnTimeSec", (·.indoorUnitBeginOnTime)),
    ("beginIndoorOffTimeSec", (·.indoorUnitBeginOffTime)),
    ("beginOutdoorOnTimeSec", (·.outdoorUnitBeginOnTime)),
    ("beginOutdoorOffTimeSec", (·.outdoorUnitBeginOffTime)),
    ("beginSystemOnTimeSec", (·.systemBeginOnTime)),
    ("beginSystemOffTimeSec", (·.systemBeginOffTime))]

def updated (src : JsonObject) (data : EquipmentTimes) : EquipmentTimes :=
  { indoorUnitBeginOnTime := parseTime (src.get "beginIndoorOnTimeSec") data.indoorUnitBeginOnTime
    indoorUnitBeginOffTime :=
      parseTime (src.get "beginIndoorOffTimeSec") data.indoorUnitBeginOffTime
    outdoorUnitBeginOnTime :=
      parseTime (src.get "beginOutdoorOnTimeSec") data.outdoorUnitBeginOnTime
    outdoorUnitBeginOffTime :=
      parseTime (src.get "beginOutdoorOffTimeSec") data.outdoorUnitBeginOffTime
    systemBeginOnTime := parseTime (src.get "beginSystemOnTimeSec") data.systemBeginOnTime
    systemBeginOffTime := parseTime (src.get "beginSystemOffTimeSec") data.systemBeginOffTime }

/-- `fromJSON_()`: the model point, and the error message of a rejected object. -/
def fromJSON (mp : LockablePoint EquipmentTimes) (src : JsonObject) (lockRequest : LockRequest) :
    LockablePoint EquipmentTimes × Option String :=
  (writeRecord mp (updated src mp.data) lockRequest, none)

end MpEquipmentBeginTimes

inductive CycleStatus where
  | off
  | onCycle
  | offCycle
  | transitioningUp
  | transitioningDown
  deriving DecidableEq

def CycleStatus.toString : CycleStatus → String
  | off => "eOFF"
  | onCycle => "eON_CYCLE"
  | offCycle => "eOFF_CYCLE"
  | transitioningUp => "eTRANSITIONING_UP"
  | transitioningDown => "eTRANSITIONING_DOWN"

/-- `_from_string_nothrow()`. -/
def CycleStatus.fromString (name : String) : Option CycleStatus :=
  [off, onCycle, offCycle, transitioningUp, transitioningDown].find? fun status =>
    status.toString == name

structure CycleInfo where
  beginOnTime : Precision
  beginOffTime : Precision
  onTime : Nat
  offTime : Nat
  mode : CycleStatus
  deriving DecidableEq

namespace MpCycleInfo

def fields : List (String × (CycleInfo → Precision)) :=
  [("beginOnTimeSec", (·.beginOnTime)), ("beginOffTimeSec", (·.beginOffTime))]

/-- The numeric fields. -/
def updated (src : JsonObject) (data : CycleInfo) : CycleInfo :=
  { data with
    onTime := (src.get "onTimeMsec").asUint32.getD data.onTime
    offTime := (src.get "offTimeMsec").asUint32.getD data.offTime
    beginOnTime := parseTime (src.get "beginOnTimeSec") data.beginOnTime
    beginOffTime := parseTime (src.get "beginOffTimeSec") data.beginOffTime }

def fromJSON (mp : LockablePoint CycleInfo) (src : JsonObject) (lockRequest : LockRequest) :
    LockablePoint CycleInfo × Option String :=
  let updatedData := updated src mp.data
  match (src.get "mode").asCString with
  | none => (writeRecord mp updatedData lockRequest, none)
  | some enumVal =>
      match CycleStatus.fromString enumVal with
      | none => (mp, some ("Invalid enum value (" ++ enumVal ++ ")"))
      | some mode => (writeRecord mp { updatedData with mode := mode } lockRequest, none)

end MpCycleInfo

section Documents

/-- All times of the data are in range. -/
def Normal {δ : Type} (fields : List (String × (δ → Precision))) (data : δ) : Prop :=
  ∀ f ∈ fields, InRange 32 (f.2 data)

/-- The members of the times. -/
def jsonTimes {δ : Type} (fields : List (String × (δ → Precision))) (data : δ)
    (h : Normal fields data) : JsonObject :=
  fields.attach.map fun f => (f.1.1, jsonTime (f.1.2 data) (h f.1 f.2))

def MpEquipmentBeginTimes.setJSONVal (data : EquipmentTimes) (h : Normal fields data) :
    JsonObject :=
  jsonTimes fields data h

def MpCycleInfo.setJSONVal (data : CycleInfo) (h : Normal fields data) (hon : data.onTime < 2 ^ 32)
    (hoff : data.offTime < 2 ^ 32) : JsonObject :=
  [("onTimeMsec", jsonUint32 data.onTime hon), ("offTimeMsec", jsonUint32 data.offTime hoff)] ++
    jsonTimes fields data h ++ [("mode", .text data.mode.toString)]

end Documents

section Times

/-- A stored time after a value for it: in range, and the given seconds to the nearest millisecond,
or the old time without a number. -/
def Sets (value : JsonValue) (old new : Precision) : Prop :=
  new.thousandths < 1000 ∧
    match value.asDouble with
    | some x => |(new.asFlatTime : ℚ) - 1000 * x| ≤ 1 / 2
    | none => new = old

/-- The value does not round up to a whole second. -/
def BelowNextSecond (value : JsonValue) : Prop :=
  ∀ x, value.asDouble = some x → x - ⌊x⌋₊ < 9995 / 10000

theorem asDouble_nonneg {value : JsonValue} {x : ℚ} (h : value.asDouble = some x) : 0 ≤ x := by
  cases value with
  | number n =>
      cases h
      exact n.nonneg
  | text s => cases h
  | other => cases h

theorem parseTime_sets_iff (value : JsonValue) {old : Precision} (hold : old.thousandths < 1000) :
    Sets value old (parseTime value old) ↔ BelowNextSecond value := by
  unfold Sets BelowNextSecond parseTime
  cases hvalue : value.asDouble with
  | none => exact iff_of_true ⟨hold, rfl⟩ (by simp)
  | some x =>
      have hx := asDouble_nonneg hvalue
      have hfloor := Nat.floor_le hx
      have hlt := Nat.lt_floor_add_one x
      simp only [Option.some.injEq, forall_eq']
      generalize ⌊x⌋₊ = seconds at hfloor hlt ⊢
      have hround : 0 ≤ (x - seconds) * 1000 + 1 / 2 := by linarith
      have hlow := Nat.floor_le hround
      have hhigh := Nat.lt_floor_add_one ((x - seconds) * 1000 + 1 / 2)
      have hmsec : ⌊(x - seconds) * 1000 + 1 / 2⌋₊ < 1001 := by
        rw [Nat.floor_lt hround]
        push_cast
        linarith
      have hfine : ⌊(x - seconds) * 1000 + 1 / 2⌋₊ < 1000 ↔ x - seconds < 9995 / 10000 := by
        rw [Nat.floor_lt hround]
        push_cast
        constructor
        · intro h
          linarith
        · intro h
          linarith
      generalize ⌊(x - seconds) * 1000 + 1 / 2⌋₊ = msec at hlow hhigh hmsec hfine ⊢
      have hnearest : |((seconds * 1000 + msec : Nat) : ℚ) - 1000 * x| ≤ 1 / 2 := by
        push_cast
        rw [abs_le]
        constructor
        · linarith
        · linarith
      rw [Nat.mod_eq_of_lt (Nat.lt_trans hmsec (by decide)), hfine]
      exact and_iff_left hnearest

theorem parseTime_jsonTime (t old : Precision) (h : InRange 32 t) :
    parseTime (jsonTime t h) old = t := by
  have hthousandths : (t.thousandths : ℚ) < 1000 := by exact_mod_cast h.2
  have hpos : (0 : ℚ) ≤ t.thousandths := Nat.cast_nonneg _
  have hseconds : ⌊(t.seconds : ℚ) + t.thousandths / 1000⌋₊ = t.seconds := by
    rw [Nat.floor_eq_iff (by positivity)]
    constructor
    · linarith
    · linarith
  have hmsec : ⌊((t.seconds : ℚ) + t.thousandths / 1000 - t.seconds) * 1000 + 1 / 2⌋₊ =
      t.thousandths := by
    rw [Nat.floor_eq_iff (by linarith)]
    constructor
    · linarith
    · linarith
  simp only [parseTime, jsonTime, JsonValue.asDouble, hseconds, hmsec]
  rw [Nat.mod_eq_of_lt (Nat.lt_trans h.2 (by decide))]

end Times

section RoundTrip

theorem get_cons (key : String) (value : JsonValue) (rest : JsonObject) (key' : String) :
    JsonObject.get ((key, value) :: rest) key' = if key = key' then value else rest.get key' := by
  rw [JsonObject.get, List.find?_cons]
  split
  case h_1 h => rw [if_pos (beq_iff_eq.1 h)]; rfl
  case h_2 h => rw [if_neg (beq_eq_false_iff_ne.1 h)]; rfl

namespace MpEquipmentBeginTimes

theorem updated_setJSONVal (data old : EquipmentTimes) (h : Normal fields data) :
    updated (setJSONVal data h) old = data := by
  simp [updated, setJSONVal, jsonTimes, fields, get_cons, parseTime_jsonTime]

end MpEquipmentBeginTimes

theorem asUint32_jsonUint32 (n : Nat) (h : n < 2 ^ 32) : (jsonUint32 n h).asUint32 = some n := by
  simp [jsonUint32, JsonValue.asUint32]

theorem fromString_toString (status : CycleStatus) :
    CycleStatus.fromString status.toString = some status := by
  cases status with
  | _ => decide

namespace MpCycleInfo

variable {data : CycleInfo} (h : Normal fields data) (hon : data.onTime < 2 ^ 32)
  (hoff : data.offTime < 2 ^ 32)

theorem updated_setJSONVal (old : CycleInfo) :
    updated (setJSONVal data h hon hoff) old = { data with mode := old.mode } := by
  simp [updated, setJSONVal, jsonTimes, fields, get_cons, parseTime_jsonTime, asUint32_jsonUint32]

theorem get_mode_setJSONVal :
    (setJSONVal data h hon hoff).get "mode" = .text data.mode.toString := by
  simp [setJSONVal, jsonTimes, fields, get_cons]

end MpCycleInfo

end RoundTrip

section Objects

variable {δ : Type}

/-- The times of an object are stored: normalised, to the nearest millisecond, and as they were
where the object has none. -/
def SetsTimes (fields : List (String × (δ → Precision))) (src : JsonObject) (old new : δ) : Prop :=
  ∀ f ∈ fields, Sets (src.get f.1) (f.2 old) (f.2 new)

def TimesBelowNextSecond (fields : List (String × (δ → Precision))) (src : JsonObject) : Prop :=
  ∀ f ∈ fields, BelowNextSecond (src.get f.1)

theorem setsTimes_iff {fields : List (String × (δ → Precision))} {src : JsonObject} {old new : δ}
    (hnew : ∀ f ∈ fields, f.2 new = parseTime (src.get f.1) (f.2 old))
    (hold : Normal fields old) :
    SetsTimes fields src old new ↔ TimesBelowNextSecond fields src := by
  refine forall₂_congr fun f hf => ?_
  rw [hnew f hf]
  exact parseTime_sets_iff _ (hold f hf).2

/-- Nothing changes where the lock refuses the write; otherwise the times are stored. -/
def MpEquipmentBeginTimes.StoresFields (mp : LockablePoint EquipmentTimes) (src : JsonObject)
    (lockRequest : LockRequest) : Prop :=
  (fromJSON mp src lockRequest).2 = none ∧
    (Refused mp lockRequest → (fromJSON mp src lockRequest).1 = mp) ∧
    (¬ Refused mp lockRequest →
      SetsTimes fields src mp.data (fromJSON mp src lockRequest).1.data)

/-- A field of another type: the given value, or the old one. -/
def SetsOther {β : Type} (given : Option β) (old new : β) : Prop :=
  (∀ value, given = some value → new = value) ∧ (given = none → new = old)

/-- The object names no mode. -/
def MpCycleInfo.Rejected (src : JsonObject) : Prop :=
  ∃ enumVal, (src.get "mode").asCString = some enumVal ∧ CycleStatus.fromString enumVal = none

/-- Nothing changes for a rejected object, or where the lock refuses the write; otherwise the fields
are stored. -/
def MpCycleInfo.StoresFields (mp : LockablePoint CycleInfo) (src : JsonObject)
    (lockRequest : LockRequest) : Prop :=
  (Rejected src → (fromJSON mp src lockRequest).1 = mp ∧ (fromJSON mp src lockRequest).2 ≠ none) ∧
    (¬ Rejected src → (fromJSON mp src lockRequest).2 = none) ∧
    (Refused mp lockRequest → (fromJSON mp src lockRequest).1 = mp) ∧
    (¬ Rejected src → ¬ Refused mp lockRequest →
      SetsTimes fields src mp.data (fromJSON mp src lockRequest).1.data ∧
        SetsOther (src.get "onTimeMsec").asUint32 mp.data.onTime
          (fromJSON mp src lockRequest).1.data.onTime ∧
        SetsOther (src.get "offTimeMsec").asUint32 mp.data.offTime
          (fromJSON mp src lockRequest).1.data.offTime ∧
        SetsOther ((src.get "mode").asCString.bind CycleStatus.fromString) mp.data.mode
          (fromJSON mp src lockRequest).1.data.mode)

theorem MpEquipmentBeginTimes.storesFields_iff {mp : LockablePoint EquipmentTimes}
    (h : Normal fields mp.data) (src : JsonObject) (lockRequest : LockRequest) :
    StoresFields mp src lockRequest ↔ Refused mp lockRequest ∨ TimesBelowNextSecond fields src := by
  have hparse : ∀ f ∈ fields,
      f.2 (updated src mp.data) = parseTime (src.get f.1) (f.2 mp.data) := by
    simp [fields, updated]
  rcases Classical.em (Refused mp lockRequest) with hrefused | hgranted
  · refine iff_of_true ⟨rfl, fun _ => writeRecord_refused hrefused _, ?_⟩ (Or.inl hrefused)
    exact fun hgranted => absurd hrefused hgranted
  · rw [or_iff_right hgranted, ← setsTimes_iff hparse h]
    have hdata : (fromJSON mp src lockRequest).1.data = updated src mp.data :=
      writeRecord_granted hgranted _
    rw [StoresFields, hdata]
    exact ⟨fun hstores => hstores.2.2 hgranted, fun hsets =>
      ⟨rfl, fun hrefused => absurd hrefused hgranted, fun _ => hsets⟩⟩

theorem setsOther_getD {β : Type} (given : Option β) (old : β) :
    SetsOther given old (given.getD old) := by
  cases given with
  | none => exact ⟨by simp, fun _ => rfl⟩
  | some value => exact ⟨fun value' h => Option.some.inj h, by simp⟩

namespace MpCycleInfo

/-- The data that an accepted object asks for. -/
def asked (src : JsonObject) (data : CycleInfo) : CycleInfo :=
  { updated src data with
    mode := ((src.get "mode").asCString.bind CycleStatus.fromString).getD data.mode }

theorem fromJSON_cases (mp : LockablePoint CycleInfo) (src : JsonObject)
    (lockRequest : LockRequest) :
    (Rejected src ∧ ∃ errorMsg, fromJSON mp src lockRequest = (mp, some errorMsg)) ∨
      ¬ Rejected src ∧
        fromJSON mp src lockRequest = (writeRecord mp (asked src mp.data) lockRequest, none) := by
  unfold Rejected fromJSON asked
  cases (src.get "mode").asCString with
  | none => exact Or.inr ⟨by simp, rfl⟩
  | some enumVal =>
      cases hmode : CycleStatus.fromString enumVal with
      | none =>
          refine Or.inl ⟨⟨enumVal, rfl, hmode⟩, "Invalid enum value (" ++ enumVal ++ ")", ?_⟩
          simp only [hmode]
      | some mode =>
          refine Or.inr ⟨by simp [hmode], ?_⟩
          simp only [hmode, Option.bind_some, Option.getD_some]

theorem storesFields_iff {mp : LockablePoint CycleInfo} (h : Normal fields mp.data)
    (src : JsonObject) (lockRequest : LockRequest) :
    StoresFields mp src lockRequest ↔
      Rejected src ∨ Refused mp lockRequest ∨ TimesBelowNextSecond fields src := by
  have hparse : ∀ f ∈ fields, f.2 (asked src mp.data) = parseTime (src.get f.1) (f.2 mp.data) := by
    simp [fields, asked, updated]
  rcases fromJSON_cases mp src lockRequest with ⟨hrejected, errorMsg, hjson⟩ | ⟨haccepted, hjson⟩
  · rw [StoresFields, hjson]
    refine iff_of_true ⟨fun _ => ⟨rfl, by simp⟩, fun haccepted => absurd hrejected haccepted,
      fun _ => rfl, fun haccepted => absurd hrejected haccepted⟩ (Or.inl hrejected)
  · rw [StoresFields, hjson, or_iff_right haccepted]
    rcases Classical.em (Refused mp lockRequest) with hrefused | hgranted
    · refine iff_of_true ⟨fun hrejected => absurd hrejected haccepted, fun _ => rfl,
        fun _ => writeRecord_refused hrefused _, fun _ hgranted => absurd hrefused hgranted⟩
        (Or.inl hrefused)
    · rw [or_iff_right hgranted, ← setsTimes_iff hparse h]
      simp only [writeRecord_granted hgranted]
      constructor
      · exact fun hstores => (hstores.2.2.2 haccepted hgranted).1
      · exact fun hsets => ⟨fun hrejected => absurd hrejected haccepted, fun _ => trivial,
          fun hrefused => absurd hrefused hgranted,
          fun _ _ => ⟨hsets, setsOther_getD _ _, setsOther_getD _ _, setsOther_getD _ _⟩⟩

end MpCycleInfo

/-- Times are stored as given exactly when none of them rounds up to a whole second; what a point
shows of its data is always read back. -/
theorem fromJSON_storesFields_iff (src : JsonObject) (lockRequest : LockRequest) :
    (∀ mp : LockablePoint EquipmentTimes, Normal MpEquipmentBeginTimes.fields mp.data →
      (MpEquipmentBeginTimes.StoresFields mp src lockRequest ↔
        Refused mp lockRequest ∨ TimesBelowNextSecond MpEquipmentBeginTimes.fields src)) ∧
    (∀ mp : LockablePoint CycleInfo, Normal MpCycleInfo.fields mp.data →
      (MpCycleInfo.StoresFields mp src lockRequest ↔
        MpCycleInfo.Rejected src ∨ Refused mp lockRequest ∨
          TimesBelowNextSecond MpCycleInfo.fields src)) ∧
    (∀ (data : EquipmentTimes) (h : Normal MpEquipmentBeginTimes.fields data)
      (mp : LockablePoint EquipmentTimes), ¬ Refused mp lockRequest →
        (MpEquipmentBeginTimes.fromJSON mp (MpEquipmentBeginTimes.setJSONVal data h)
          lockRequest).1.data = data) ∧
    ∀ (data : CycleInfo) (h : Normal MpCycleInfo.fields data) (hon : data.onTime < 2 ^ 32)
      (hoff : data.offTime < 2 ^ 32) (mp : LockablePoint CycleInfo), ¬ Refused mp lockRequest →
        (MpCycleInfo.fromJSON mp (MpCycleInfo.setJSONVal data h hon hoff) lockRequest).1.data =
          data := by
  refine ⟨fun mp h => MpEquipmentBeginTimes.storesFields_iff h src lockRequest,
    fun mp h => MpCycleInfo.storesFields_iff h src lockRequest, ?_, ?_⟩
  · intro data h mp hgranted
    rw [MpEquipmentBeginTimes.fromJSON, writeRecord_granted hgranted,
      MpEquipmentBeginTimes.updated_setJSONVal]
  · intro data h hon hoff mp hgranted
    simp only [MpCycleInfo.fromJSON, MpCycleInfo.get_mode_setJSONVal, JsonValue.asCString,
      fromString_toString, MpCycleInfo.updated_setJSONVal, writeRecord_granted hgranted]

/-- A number of seconds. -/
def seconds (value : ℚ) (h : 0 ≤ value ∧ value < 2 ^ 32) : JsonValue :=
  .number
    { value := value
      integer := false
      nonneg := h.1
      lt := h.2
      isNat_of_integer := by rintro ⟨⟩ }

/-- No time has begun. -/
def equipmentZero : LockablePoint EquipmentTimes :=
  { toPoint := Point.init ⟨⟨0, 0⟩, ⟨0, 0⟩, ⟨0, 0⟩, ⟨0, 0⟩, ⟨0, 0⟩, ⟨0, 0⟩⟩ true, locked := false }

theorem normal_equipmentZero : Normal MpEquipmentBeginTimes.fields equipmentZero.data := by
  simp [Normal, MpEquipmentBeginTimes.fields, equipmentZero, Point.init, InRange]

theorem fromJSON_storesFields_half :
    MpEquipmentBeginTimes.StoresFields equipmentZero
      [("beginSystemOnTimeSec", seconds (3 / 2) (by norm_num))] .noRequest := by
  refine ((fromJSON_storesFields_iff _ _).1 _ normal_equipmentZero).2 (Or.inr ?_)
  have hfloor : ⌊(3 / 2 : ℚ)⌋₊ = 1 := by
    rw [Nat.floor_eq_iff (by norm_num)]
    norm_num
  simp [TimesBelowNextSecond, MpEquipmentBeginTimes.fields, BelowNextSecond, seconds,
    JsonValue.asDouble, JsonObject.get, hfloor]
  norm_num

/-- A time just below a whole second gets a thousand thousandths. -/
theorem fromJSON_not_storesFields :
    ¬ ∀ (mp : LockablePoint EquipmentTimes) (src : JsonObject) (lockRequest : LockRequest),
      Normal MpEquipmentBeginTimes.fields mp.data →
        MpEquipmentBeginTimes.StoresFields mp src lockRequest := by
  intro h
  have hstores := h equipmentZero [("beginSystemOnTimeSec", seconds (9999 / 10000) (by norm_num))]
    .noRequest normal_equipmentZero
  have hbelow :=
    ((MpEquipmentBeginTimes.storesFields_iff normal_equipmentZero _ _).1 hstores).resolve_left
      (by simp [Refused, equipmentZero])
  have hfraction := hbelow ("beginSystemOnTimeSec", (·.systemBeginOnTime))
    (by simp [MpEquipmentBeginTimes.fields]) (9999 / 10000) rfl
  have hfloor : ⌊(9999 / 10000 : ℚ)⌋₊ = 0 := by
    rw [Nat.floor_eq_iff (by norm_num)]
    norm_num
  rw [hfloor] at hfraction
  norm_num at hfraction

end Objects

end ColonyPico.Storm.JsonTimes
