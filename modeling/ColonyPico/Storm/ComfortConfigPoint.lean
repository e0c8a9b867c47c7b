import ColonyPico.Dm.RecordPoints
import ColonyPico.Json.Variant
import ColonyPico.Storm.DutyCycle

/-!
The comfort configuration (`Storm::Dm::MpComfortConfig`), whose cycles per hour are stored as an
`int` and select an entry of the tables of the duty cycle. A result of `none` is the fatal error of
`DutyCycle`, or a read behind its tables.
-/

namespace ColonyPico.Storm.ComfortConfigPoint

open Dm.ModelPoint Dm.LockState Dm.RecordPoints Json.Variant
open Config (Cph)

/-- `ComfortStageParameters_T`. -/
structure StageParameters where
  minOnTime : Nat
  minOffTime : Nat
  cph : Int
  deriving DecidableEq

structure ComfortConfig where
  compressorCooling : StageParameters
  compressorHeating : StageParameters
  indoorHeating : StageParameters
  deriving DecidableEq

section Tables

/-- `Cph::eNUM_OPTIONS`. -/
def numOptions : Int := 5

/-- The entry of a table that a value selects. -/
def entry (cph : Int) : Option Cph :=
  if 0 ≤ cph then [Cph.cph2, .cph3, .cph4, .cph5, .cph6][cph.toNat]? else none

def getMaximumMinOnTime (cyclesPerHour : Int) : Option Nat :=
  if cyclesPerHour = numOptions then none
  else (entry cyclesPerHour).map DutyCycle.maxMinimumTimeLimits

def getMaximumMinOffTime (cyclesPerHour : Int) : Option Nat :=
  if cyclesPerHour = numOptions then none
  else (entry cyclesPerHour).map DutyCycle.maxMinimumTimeLimits

variable (conv : DutyCycle.ToUInt32) (pvVar : ℚ)

def calculateOffTime (minOffTime : Nat) (cyclesPerHour : Int) (pvLowerBound pvUpperBound : ℚ) :
    Option Nat :=
  if cyclesPerHour = numOptions then none
  else (entry cyclesPerHour).map fun cph =>
    DutyCycle.calculateOffTime conv pvVar minOffTime cph pvLowerBound pvUpperBound

def calculateOnTime (minOnTime : Nat) (cyclesPerHour : Int) (pvLowerBound pvUpperBound : ℚ) :
    Option Nat :=
  if cyclesPerHour = numOptions then none
  else (entry cyclesPerHour).map fun cph =>
    DutyCycle.calculateOnTime conv pvVar minOnTime cph pvLowerBound pvUpperBound

end Tables

section Validate

/-- `Cph::e3CPH`. -/
def e3CPH : Int := 1

/-- `ComfortStageParameters_T::validate()`. -/
def validateStage (src : StageParameters) : Option StageParameters := do
  let src := if src.cph ≥ numOptions ∨ src.cph < 0 then { src with cph := e3CPH } else src
  let limit ← getMaximumMinOffTime src.cph
  let src := if src.minOffTime > limit then { src with minOffTime := limit } else src
  let limit ← getMaximumMinOnTime src.cph
  some (if src.minOnTime > limit then { src with minOnTime := limit } else src)

/-- `ComfortConfig_T::validate()`. -/
def validate (src : ComfortConfig) : Option ComfortConfig := do
  let compressorCooling ← validateStage src.compressorCooling
  let compressorHeating ← validateStage src.compressorHeating
  let indoorHeating ← validateStage src.indoorHeating
  some ⟨compressorCooling, compressorHeating, indoorHeating⟩

end Validate

abbrev MpComfortConfig := LockablePoint ComfortConfig

namespace MpComfortConfig

def setDefaults : StageParameters :=
  { cph := e3CPH, minOffTime := 5 * 60, minOnTime := 5 * 60 }

def hookSetInvalid : ComfortConfig :=
  ⟨setDefaults, setDefaults, setDefaults⟩

def init : MpComfortConfig :=
  { toPoint := Point.init hookSetInvalid true, locked := false }

variable (mp : MpComfortConfig)

/-- The configuration is validated, and written as it came. -/
def write (newConfiguration : ComfortConfig) (lockRequest : LockRequest) :
    Option MpComfortConfig := do
  let _newVale ← validate newConfiguration
  some (writeRecord mp newConfiguration lockRequest)

def writeCompressorCooling (newParameters : StageParameters) (lockRequest : LockRequest) :
    Option MpComfortConfig := do
  let newVal ← validateStage newParameters
  write mp { mp.data with compressorCooling := newVal } lockRequest

def writeCompressorHeating (newParameters : StageParameters) (lockRequest : LockRequest) :
    Option MpComfortConfig := do
  let newVal ← validateStage newParameters
  write mp { mp.data with compressorHeating := newVal } lockRequest

def writeIndoorHeating (newParameters : StageParameters) (lockRequest : LockRequest) :
    Option MpComfortConfig := do
  let newVal ← validateStage newParameters
  write mp { mp.data with indoorHeating := newVal } lockRequest

end MpComfortConfig

section Json

/-- `Cph::_from_string_nothrow()`. -/
def cphFromString (name : String) : Option Int :=
  (["e2CPH", "e3CPH", "e4CPH", "e5CPH", "e6CPH", "eNUM_OPTIONS"].findIdx? (· == name)).map
    Int.ofNat

/-- The new parameters, or the error message. -/
def parseEntry (obj : JsonVariant ℚ) (parms : StageParameters) (field : String) :
    Except String StageParameters := do
  let parms ←
    match (obj.getMember "cph").asCString with
    | none => pure parms
    | some enumVal =>
        match cphFromString enumVal with
        | none => throw ("Invalid " ++ field ++ " CPH enum value (" ++ enumVal ++ ")")
        | some cph => pure { parms with cph := cph }
  pure
    { parms with
      minOnTime := (obj.getMember "minOn").uint32Or parms.minOnTime
      minOffTime := (obj.getMember "minOff").uint32Or parms.minOffTime }

/-- The entries of an object. -/
def parseEntries (src : JsonVariant ℚ) (newVal : ComfortConfig) : Except String ComfortConfig := do
  let compressorCooling ←
    parseEntry (src.getMember "cmpCool") newVal.compressorCooling "CmpCooling"
  let compressorHeating ←
    parseEntry (src.getMember "cmpHeat") newVal.compressorHeating "CmpHeating"
  let indoorHeating ← parseEntry (src.getMember "indoorHeat") newVal.indoorHeating "IduHeating"
  pure ⟨compressorCooling, compressorHeating, indoorHeating⟩

/-- `fromJSON_()`: the model point, and the error message of a rejected object. -/
def MpComfortConfig.fromJSON (mp : MpComfortConfig) (src : JsonVariant ℚ)
    (lockRequest : LockRequest) : Option (MpComfortConfig × Option String) :=
  match parseEntries src mp.data with
  | .error errorMsg => some (mp, some errorMsg)
  | .ok newVal => (mp.write newVal lockRequest).map fun mp => (mp, none)

end Json

section InRange

/-- The parameters of a stage are in range. -/
structure StageInRange (s : StageParameters) : Prop where
  cph : 0 ≤ s.cph ∧ s.cph < numOptions
  minOnTime : ∃ limit, getMaximumMinOnTime s.cph = some limit ∧ s.minOnTime ≤ limit
  minOffTime : ∃ limit, getMaximumMinOffTime s.cph = some limit ∧ s.minOffTime ≤ limit

structure InRange (cfg : ComfortConfig) : Prop where
  compressorCooling : StageInRange cfg.compressorCooling
  compressorHeating : StageInRange cfg.compressorHeating
  indoorHeating : StageInRange cfg.indoorHeating

theorem exists_entry {cph : Int} (h : 0 ≤ cph ∧ cph < numOptions) : ∃ c, entry cph = some c := by
  have hlt : cph.toNat < [Cph.cph2, .cph3, .cph4, .cph5, .cph6].length :=
    (Int.toNat_lt h.1).2 h.2
  exact ⟨_, (if_pos h.1).trans (List.getElem?_eq_getElem hlt)⟩

theorem exists_limit {cph : Int} (h : 0 ≤ cph ∧ cph < numOptions) :
    ∃ limit, getMaximumMinOffTime cph = some limit ∧ getMaximumMinOnTime cph = some limit := by
  obtain ⟨c, hc⟩ := exists_entry h
  refine ⟨DutyCycle.maxMinimumTimeLimits c, ?_, ?_⟩
  · rw [getMaximumMinOffTime, if_neg (Int.ne_of_lt h.2), hc]
    rfl
  · rw [getMaximumMinOnTime, if_neg (Int.ne_of_lt h.2), hc]
    rfl

/-- Parameters in range never reach the fatal errors of the duty cycle. -/
theorem exists_times {s : StageParameters} (h : StageInRange s) (conv : DutyCycle.ToUInt32)
    (pvVar pvLowerBound pvUpperBound : ℚ) :
    (∃ time, calculateOnTime conv pvVar s.minOnTime s.cph pvLowerBound pvUpperBound = some time) ∧
      ∃ time,
        calculateOffTime conv pvVar s.minOffTime s.cph pvLowerBound pvUpperBound = some time := by
  obtain ⟨c, hc⟩ := exists_entry h.cph
  rw [calculateOnTime, calculateOffTime, if_neg (Int.ne_of_lt h.cph.2),
    if_neg (Int.ne_of_lt h.cph.2), hc]
  exact ⟨⟨_, rfl⟩, ⟨_, rfl⟩⟩

def corrected (src : StageParameters) : StageParameters :=
  if src.cph ≥ numOptions ∨ src.cph < 0 then { src with cph := e3CPH } else src

theorem corrected_range (src : StageParameters) :
    0 ≤ (corrected src).cph ∧ (corrected src).cph < numOptions := by
  unfold corrected
  split
  case isTrue =>
    have he3 : 0 ≤ e3CPH ∧ e3CPH < numOptions := by decide
    exact he3
  case isFalse h => exact ⟨by omega, by omega⟩

theorem validateStage_eq (src : StageParameters) {limit : Nat}
    (hoff : getMaximumMinOffTime (corrected src).cph = some limit)
    (hon : getMaximumMinOnTime (corrected src).cph = some limit) :
    validateStage src =
      some
        { minOnTime := min (corrected src).minOnTime limit
          minOffTime := min (corrected src).minOffTime limit
          cph := (corrected src).cph } := by
  have hstart : validateStage src = (do
      let limit ← getMaximumMinOffTime (corrected src).cph
      let src := if (corrected src).minOffTime > limit then
        { corrected src with minOffTime := limit } else corrected src
      let limit ← getMaximumMinOnTime src.cph
      some (if src.minOnTime > limit then { src with minOnTime := limit } else src)) := rfl
  have hcap : (if (corrected src).minOffTime > limit then
      { corrected src with minOffTime := limit } else corrected src) =
        { corrected src with minOffTime := min (corrected src).minOffTime limit } := by
    split
    case isTrue h => rw [Nat.min_eq_right (Nat.le_of_lt h)]
    case isFalse h => rw [Nat.min_eq_left (Nat.not_lt.1 h)]
  rw [hstart, hoff, Option.bind_eq_bind, Option.bind_some]
  simp only [hcap, hon, Option.bind_some, Option.some.injEq]
  split
  case isTrue h => rw [Nat.min_eq_right (Nat.le_of_lt h)]
  case isFalse h => rw [Nat.min_eq_left (Nat.not_lt.1 h)]

theorem exists_validateStage (src : StageParameters) :
    ∃ s, validateStage src = some s ∧ StageInRange s := by
  obtain ⟨limit, hoff, hon⟩ := exists_limit (corrected_range src)
  exact ⟨_, validateStage_eq src hoff hon,
    ⟨corrected_range src, ⟨limit, hon, Nat.min_le_right _ _⟩, ⟨limit, hoff, Nat.min_le_right _ _⟩⟩⟩

theorem exists_validate (src : ComfortConfig) : ∃ cfg, validate src = some cfg ∧ InRange cfg := by
  obtain ⟨cooling, hcooling, hcoolingRange⟩ := exists_validateStage src.compressorCooling
  obtain ⟨heating, hheating, hheatingRange⟩ := exists_validateStage src.compressorHeating
  obtain ⟨indoor, hindoor, hindoorRange⟩ := exists_validateStage src.indoorHeating
  refine ⟨⟨cooling, heating, indoor⟩, ?_, ⟨hcoolingRange, hheatingRange, hindoorRange⟩⟩
  rw [validate, hcooling, hheating, hindoor]
  rfl

/-- The validated configuration is not the one that is written. -/
theorem write_eq (mp : MpComfortConfig) (newConfiguration : ComfortConfig)
    (lockRequest : LockRequest) :
    mp.write newConfiguration lockRequest =
      some (writeRecord mp newConfiguration lockRequest) := by
  obtain ⟨cfg, hcfg, -⟩ := exists_validate newConfiguration
  rw [MpComfortConfig.write, hcfg]
  rfl

theorem inRange_hookSetInvalid : InRange MpComfortConfig.hookSetInvalid := by
  have hstage : StageInRange MpComfortConfig.setDefaults :=
    ⟨by decide, ⟨600, by decide, by decide⟩, ⟨600, by decide, by decide⟩⟩
  exact ⟨hstage, hstage, hstage⟩

end InRange

section Entries

/-- The cycles per hour of an entry are no name of an option. -/
def Unknown (obj : JsonVariant ℚ) : Prop :=
  ∃ name, (obj.getMember "cph").asCString = some name ∧ cphFromString name = none

/-- The parameters that an entry asks for: the given ones, and the old ones where none are given. -/
def asked (obj : JsonVariant ℚ) (parms : StageParameters) : StageParameters :=
  { cph := ((obj.getMember "cph").asCString.bind cphFromString).getD parms.cph
    minOnTime := (obj.getMember "minOn").uint32Or parms.minOnTime
    minOffTime := (obj.getMember "minOff").uint32Or parms.minOffTime }

theorem parseEntry_cases (obj : JsonVariant ℚ) (parms : StageParameters) (field : String) :
    (Unknown obj ∧ ∃ errorMsg, parseEntry obj parms field = .error errorMsg) ∨
      ¬ Unknown obj ∧ parseEntry obj parms field = .ok (asked obj parms) := by
  unfold parseEntry Unknown asked
  cases (obj.getMember "cph").asCString with
  | none => exact Or.inr ⟨by simp, rfl⟩
  | some name =>
      cases hname : cphFromString name with
      | none =>
          left
          refine ⟨⟨name, rfl, hname⟩, "Invalid " ++ field ++ " CPH enum value (" ++ name ++ ")", ?_⟩
          simp only [hname]
          rfl
      | some cph =>
          right
          refine ⟨by simp [hname], ?_⟩
          simp only [hname]
          rw [Option.bind_some, hname]
          rfl

/-- The configuration that an object asks for. -/
def askedConfig (src : JsonVariant ℚ) (cfg : ComfortConfig) : ComfortConfig :=
  { compressorCooling := asked (src.getMember "cmpCool") cfg.compressorCooling
    compressorHeating := asked (src.getMember "cmpHeat") cfg.compressorHeating
    indoorHeating := asked (src.getMember "indoorHeat") cfg.indoorHeating }

/-- An object is rejected when one of its entries is. -/
def Rejected (src : JsonVariant ℚ) : Prop :=
  Unknown (src.getMember "cmpCool") ∨ Unknown (src.getMember "cmpHeat") ∨
    Unknown (src.getMember "indoorHeat")

theorem parseEntries_cases (src : JsonVariant ℚ) (cfg : ComfortConfig) :
    (Rejected src ∧ ∃ errorMsg, parseEntries src cfg = .error errorMsg) ∨
      ¬ Rejected src ∧ parseEntries src cfg = .ok (askedConfig src cfg) := by
  unfold parseEntries Rejected
  rcases parseEntry_cases (src.getMember "cmpCool") cfg.compressorCooling "CmpCooling" with
    ⟨hcool, errorMsg, herror⟩ | ⟨hcool, hok⟩
  · exact Or.inl ⟨Or.inl hcool, errorMsg, by rw [herror]; rfl⟩
  · rcases parseEntry_cases (src.getMember "cmpHeat") cfg.compressorHeating "CmpHeating" with
      ⟨hheat, errorMsg, herror⟩ | ⟨hheat, hok'⟩
    · exact Or.inl ⟨Or.inr (Or.inl hheat), errorMsg, by rw [hok, herror]; rfl⟩
    · rcases parseEntry_cases (src.getMember "indoorHeat") cfg.indoorHeating "IduHeating" with
        ⟨hindoor, errorMsg, herror⟩ | ⟨hindoor, hok''⟩
      · exact Or.inl ⟨Or.inr (Or.inr hindoor), errorMsg, by rw [hok, hok', herror]; rfl⟩
      · refine Or.inr ⟨by tauto, ?_⟩
        rw [hok, hok', hok'']
        rfl

end Entries

section Runs

/-- A call, but for `copyFrom()`. -/
inductive Operation where
  | write (newConfiguration : ComfortConfig) (lockRequest : LockRequest)
  | writeCompressorCooling (newParameters : StageParameters) (lockRequest : LockRequest)
  | writeCompressorHeating (newParameters : StageParameters) (lockRequest : LockRequest)
  | writeIndoorHeating (newParameters : StageParameters) (lockRequest : LockRequest)
  | fromJSON (src : JsonVariant ℚ) (lockRequest : LockRequest)
  | setInvalid (lockRequest : LockRequest)

def Operation.perform (mp : MpComfortConfig) : Operation → Option MpComfortConfig
  | write newConfiguration lockRequest => mp.write newConfiguration lockRequest
  | writeCompressorCooling newParameters lockRequest =>
      mp.writeCompressorCooling newParameters lockRequest
  | writeCompressorHeating newParameters lockRequest =>
      mp.writeCompressorHeating newParameters lockRequest
  | writeIndoorHeating newParameters lockRequest => mp.writeIndoorHeating newParameters lockRequest
  | fromJSON src lockRequest => (mp.fromJSON src lockRequest).map Prod.fst
  | setInvalid lockRequest =>
      some (Dm.RecordPoints.setInvalid MpComfortConfig.hookSetInvalid mp lockRequest)

/-- A whole configuration comes in range already, or is not written. -/
def Operation.KeepsRange (mp : MpComfortConfig) : Operation → Prop
  | write newConfiguration lockRequest => Refused mp lockRequest ∨ InRange newConfiguration
  | fromJSON src lockRequest =>
      Rejected src ∨ Refused mp lockRequest ∨ InRange (askedConfig src mp.data)
  | _ => True

/-- The states that calls of an allowed kind lead to. -/
inductive Reached (allowed : MpComfortConfig → Operation → Prop) : MpComfortConfig → Prop where
  | init : Reached allowed MpComfortConfig.init
  | perform {mp mp'} (h : Reached allowed mp) (operation : Operation)
      (hallowed : allowed mp operation) (hperform : operation.perform mp = some mp') :
      Reached allowed mp'
  | copyFrom {mp src} (h : Reached allowed mp) (hsrc : Reached allowed src)
      (lockRequest : LockRequest) :
      Reached allowed (copyFrom MpComfortConfig.hookSetInvalid mp src lockRequest)

variable {mp mp' : MpComfortConfig}

theorem writeRecord_inRange_iff (h : InRange mp.data) (newData : ComfortConfig)
    (lockRequest : LockRequest) :
    InRange (writeRecord mp newData lockRequest).data ↔
      Refused mp lockRequest ∨ InRange newData := by
  rcases Classical.em (Refused mp lockRequest) with hrefused | hgranted
  · rw [writeRecord_refused hrefused]
    exact iff_of_true h (Or.inl hrefused)
  · rw [writeRecord_granted hgranted, or_iff_right hgranted]

/-- A writer that validates its stage keeps the configuration in range. -/
theorem exists_writeStage (h : InRange mp.data) (newParameters : StageParameters)
    (update : StageParameters → ComfortConfig) (hupdate : ∀ s, StageInRange s → InRange (update s))
    (lockRequest : LockRequest) :
    ∃ mp', (validateStage newParameters).bind (fun newVal => mp.write (update newVal) lockRequest) =
      some mp' ∧ InRange mp'.data := by
  obtain ⟨newVal, hnewVal, hrange⟩ := exists_validateStage newParameters
  refine ⟨_, ?_, writeRecord_data h (hupdate newVal hrange) lockRequest⟩
  rw [hnewVal, Option.bind_some, write_eq]

/-- A call succeeds, and leaves the configuration in range exactly when it keeps the range. -/
theorem perform_spec (h : InRange mp.data) (operation : Operation) :
    ∃ mp', operation.perform mp = some mp' ∧ (InRange mp'.data ↔ operation.KeepsRange mp) := by
  cases operation with
  | write newConfiguration lockRequest =>
      exact ⟨_, write_eq mp _ _, writeRecord_inRange_iff h _ _⟩
  | writeCompressorCooling newParameters lockRequest =>
      obtain ⟨mp', hwrite, hrange⟩ := exists_writeStage h newParameters
        (fun newVal => { mp.data with compressorCooling := newVal })
        (fun s hs => ⟨hs, h.compressorHeating, h.indoorHeating⟩) lockRequest
      exact ⟨mp', hwrite, iff_of_true hrange trivial⟩
  | writeCompressorHeating newParameters lockRequest =>
      obtain ⟨mp', hwrite, hrange⟩ := exists_writeStage h newParameters
        (fun newVal => { mp.data with compressorHeating := newVal })
        (fun s hs => ⟨h.compressorCooling, hs, h.indoorHeating⟩) lockRequest
      exact ⟨mp', hwrite, iff_of_true hrange trivial⟩
  | writeIndoorHeating newParameters lockRequest =>
      obtain ⟨mp', hwrite, hrange⟩ := exists_writeStage h newParameters
        (fun newVal => { mp.data with indoorHeating := newVal })
        (fun s hs => ⟨h.compressorCooling, h.compressorHeating, hs⟩) lockRequest
      exact ⟨mp', hwrite, iff_of_true hrange trivial⟩
  | fromJSON src lockRequest =>
      rw [Operation.perform, MpComfortConfig.fromJSON]
      rcases parseEntries_cases src mp.data with ⟨hrejected, errorMsg, herror⟩ | ⟨haccepted, hok⟩
      · rw [herror]
        exact ⟨mp, rfl, iff_of_true h (Or.inl hrejected)⟩
      · rw [hok]
        refine ⟨writeRecord mp (askedConfig src mp.data) lockRequest, ?_, ?_⟩
        · simp only [write_eq, Option.map_some]
        · rw [Operation.KeepsRange, or_iff_right haccepted]
          exact writeRecord_inRange_iff h _ _
  | setInvalid lockRequest =>
      exact ⟨_, rfl, iff_of_true (setInvalid_data h inRange_hookSetInvalid lockRequest) trivial⟩

theorem Reached.inRange (h : Reached (fun mp operation => operation.KeepsRange mp) mp) :
    InRange mp.data := by
  induction h with
  | init => exact inRange_hookSetInvalid
  | @perform mp mp' h operation hproper hperform ih =>
      obtain ⟨mp'', hperform', hiff⟩ := perform_spec ih operation
      obtain rfl : mp' = mp'' := Option.some.inj (hperform.symm.trans hperform')
      exact hiff.2 hproper
  | copyFrom h hsrc lockRequest ih ihsrc =>
      exact copyFrom_data ih ihsrc inRange_hookSetInvalid lockRequest

/-- The stages of a configuration never stop the duty cycle. -/
def Served (cfg : ComfortConfig) : Prop :=
  ∀ s ∈ [cfg.compressorCooling, cfg.compressorHeating, cfg.indoorHeating],
    ∀ (conv : DutyCycle.ToUInt32) (pvVar pvLowerBound pvUpperBound : ℚ),
      (∃ time, calculateOnTime conv pvVar s.minOnTime s.cph pvLowerBound pvUpperBound =
        some time) ∧
      ∃ time, calculateOffTime conv pvVar s.minOffTime s.cph pvLowerBound pvUpperBound = some time

theorem InRange.served {cfg : ComfortConfig} (h : InRange cfg) : Served cfg := by
  intro s hs conv pvVar pvLowerBound pvUpperBound
  have hstage : StageInRange s := by
    simp only [List.mem_cons, List.not_mem_nil, or_false] at hs
    rcases hs with rfl | rfl | rfl
    · exact h.compressorCooling
    · exact h.compressorHeating
    · exact h.indoorHeating
  exact exists_times hstage conv pvVar pvLowerBound pvUpperBound

/-- As long as whole configurations come in range, the stored one is in range, and the next call is
answered. -/
theorem reached_inRange (h : Reached (fun mp operation => operation.KeepsRange mp) mp) :
    InRange mp.data ∧ Served mp.data ∧
      ∀ operation : Operation, ∃ mp', operation.perform mp = some mp' ∧
        (InRange mp'.data ↔ operation.KeepsRange mp) :=
  ⟨h.inRange, h.inRange.served, perform_spec h.inRange⟩

/-- A write of one stage, with a value that is no option and a time that is too long. -/
theorem reached_inRange_corrected :
    ∃ mp, Operation.perform MpComfortConfig.init
        (.writeCompressorCooling ⟨1000, 20, 7⟩ .noRequest) = some mp ∧
      mp.data.compressorCooling = ⟨600, 20, 1⟩ ∧ InRange mp.data := by
  refine ⟨_, rfl, rfl, ?_⟩
  exact (reached_inRange (Reached.perform Reached.init
    (.writeCompressorCooling ⟨1000, 20, 7⟩ .noRequest) trivial rfl)).1

/-- A whole configuration with such a value is stored as it is, and stops the duty cycle. -/
theorem reached_inRange_counterexample :
    ¬ ∀ mp : MpComfortConfig, Reached (fun _ _ => True) mp → InRange mp.data ∧ Served mp.data := by
  intro h
  have hreached : Reached (fun _ _ => True)
      (writeRecord MpComfortConfig.init ⟨⟨0, 0, 5⟩, ⟨0, 0, 0⟩, ⟨0, 0, 0⟩⟩ .noRequest) :=
    Reached.perform Reached.init (.write ⟨⟨0, 0, 5⟩, ⟨0, 0, 0⟩, ⟨0, 0, 0⟩⟩ .noRequest) trivial
      (write_eq _ _ .noRequest)
  have hrange := (h _ hreached).1.compressorCooling.cph.2
  exact absurd hrange (by decide)

end Runs

section Stages

/-- The parameters of a configuration that is known to select an entry. -/
def ofStage (s : Config.ComfortStage) : StageParameters :=
  { minOnTime := s.minOnTime
    minOffTime := s.minOffTime
    cph :=
      match s.cph with
      | .cph2 => 0
      | .cph3 => 1
      | .cph4 => 2
      | .cph5 => 3
      | .cph6 => 4 }

/-- On such parameters the validation is that of the duty cycle. -/
theorem validateStage_ofStage (s : Config.ComfortStage) :
    validateStage (ofStage s) = some (ofStage (DutyCycle.validateStage s)) := by
  obtain ⟨minOnTime, minOffTime, cph⟩ := s
  cases cph with
  | _ => exact validateStage_eq _ rfl rfl

end Stages

end ColonyPico.Storm.ComfortConfigPoint
