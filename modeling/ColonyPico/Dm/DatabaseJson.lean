import ColonyPico.Dm.NumericArrayJson
import ColonyPico.Dm.StringWrites

/-!
Updating a model point from a JSON string (`ModelDatabase::fromJSON()`), with its side effects on
every path: the model points and the lock of the JSON document.
-/

namespace ColonyPico.Dm.DatabaseJson

open ColonyPico.Foundations.ByteMemory
open ColonyPico.Json.Variant
open ColonyPico.Dm.ModelPoint
open ColonyPico.Dm.LockState
open ColonyPico.Dm.NumericArrayJson (FromJson report)

/-- What the class of a model point brings in: its `fromJSON_()`, whose result is a matter of the
value alone. -/
structure PointClass where
  fromJSON : Mp → JsonVariant Float → LockRequest → Nat → Option String → FromJson
  accepts : JsonVariant Float → Bool
  result_fromJSON : ∀ p value lockRequest retSequenceNumber errorMsg,
    (fromJSON p value lockRequest retSequenceNumber errorMsg).result = accepts value

/-- `StringBase_`. -/
def stringClass : PointClass where
  fromJSON p src lockRequest retSequenceNumber errorMsg :=
    match (src.getMember "text").asCString with
    | none =>
        { result := false
          mp := p
          retSequenceNumber := retSequenceNumber
          errorMsg := report errorMsg "Invalid syntax for the 'val' key/value pair" }
    | some newValue =>
        let bytes := newValue.toUTF8.data.toList
        let p' := StringWrites.write p (some (memoryOf bytes fun _ => 0)) bytes.length lockRequest
        { result := true, mp := p', retSequenceNumber := p'.seqNum, errorMsg := errorMsg }
  accepts value := (value.getMember "text").asCString.isSome
  result_fromJSON := by
    intro p value lockRequest retSequenceNumber errorMsg
    cases (value.getMember "text").asCString with
    | none => rfl
    | some newValue => rfl

variable {ι : Type}

/-- The model points of a database in its order, what they hold, and how often the lock of the
JSON document is held. -/
structure Database (ι : Type) where
  list : List ι
  points : ι → Mp
  globalLock : Nat

/-- The caller's variables; none for a null pointer. -/
structure Arguments (ι : Type) where
  errorMsg : Option String
  retMp : Option (Option ι)
  retSequenceNumber : Option Nat

structure Outcome (ι : Type) where
  result : Bool
  database : Database ι
  arguments : Arguments ι

section Code

variable [DecidableEq ι] (name : ι → String) (pointClass : ι → PointClass)
  (deserializeJson : String → Except String (JsonVariant Float))

def globalLock (db : Database ι) : Database ι :=
  { db with globalLock := db.globalLock + 1 }

def globalUnlock (db : Database ι) : Database ι :=
  { db with globalLock := db.globalLock - 1 }

def lookupModelPoint (db : Database ι) (modelPointName : String) : Option ι :=
  db.list.find? fun i => name i == modelPointName

/-- The document and the model point that it names, or the text of the early return. -/
def parseModelPoint (db : Database ι) (src : String) : Except String (JsonVariant Float × ι) :=
  match deserializeJson src with
  | .error err => .error err
  | .ok doc =>
      match (doc.getMember "name").asCString with
      | none => .error "No valid 'name' key in the JSON input."
      | some modelPointName =>
          match lookupModelPoint name db modelPointName with
          | none => .error ("Model Point name (" ++ modelPointName ++ ") NOT found.")
          | some mp => .ok (doc, mp)

/-- From the key/value pairs of interest on: what becomes of the model point that was found. -/
def updateModelPoint (mpClass : PointClass) (p : Mp) (doc : JsonVariant Float)
    (errorMsg : Option String) : FromJson :=
  let validElem := doc.getMember "valid"
  let lockedElem := doc.getMember "locked"
  let valElem := doc.getMember "val"
  let lockAction : LockRequest :=
    if lockedElem.isNull then .noRequest
    else if lockedElem.asBoolean then .lock else .unlock
  let p := if lockedElem.isNull then p else setLockState p lockAction
  let seqnum := if lockedElem.isNull then 0 else p.seqNum
  if validElem.isNull = false ∧ validElem.asBoolean = false then
    let p := setInvalid p lockAction
    { result := true, mp := p, retSequenceNumber := p.seqNum, errorMsg := errorMsg }
  else if valElem.isNull = false then mpClass.fromJSON p valElem lockAction seqnum errorMsg
  else if lockedElem.isNull then
    { result := false
      mp := p
      retSequenceNumber := seqnum
      errorMsg := report errorMsg "JSON syntax is not valid or invalid payload semantics" }
  else { result := true, mp := p, retSequenceNumber := seqnum, errorMsg := errorMsg }

def fromJSON (db : Database ι) (src : String) (arguments : Arguments ι) : Outcome ι :=
  let db := globalLock db
  match parseModelPoint name deserializeJson db src with
  | .error text =>
      { result := false
        database := db
        arguments := { arguments with errorMsg := report arguments.errorMsg text } }
  | .ok (doc, mp) =>
      let r := updateModelPoint (pointClass mp) (db.points mp) doc arguments.errorMsg
      let db := { db with points := Function.update db.points mp r.mp }
      if r.result = false then
        { result := false
          database := db
          arguments := { arguments with errorMsg := r.errorMsg } }
      else
        { result := true
          database := globalUnlock db
          arguments :=
            { errorMsg := r.errorMsg
              retMp := arguments.retMp.map fun _ => some mp
              retSequenceNumber :=
                arguments.retSequenceNumber.map fun _ => r.retSequenceNumber } }

end Code

section Specification

variable [DecidableEq ι] (name : ι → String) (pointClass : ι → PointClass)
  (deserializeJson : String → Except String (JsonVariant Float))

/-- A failed call has left every model point as it was. -/
def AllOrNothing (db : Database ι) (src : String) (arguments : Arguments ι) : Prop :=
  (fromJSON name pointClass deserializeJson db src arguments).result = false →
    (fromJSON name pointClass deserializeJson db src arguments).database.points = db.points

/-- The call has released the lock of the JSON document as often as it has acquired it. -/
def LockBalanced (db : Database ι) (src : String) (arguments : Arguments ι) : Prop :=
  (fromJSON name pointClass deserializeJson db src arguments).database.globalLock =
    db.globalLock

/-- The document asks for something a model point can do. -/
def AcceptsPayload (mpClass : PointClass) (doc : JsonVariant Float) : Prop :=
  if (doc.getMember "valid").isNull = false ∧ (doc.getMember "valid").asBoolean = false then True
  else if (doc.getMember "val").isNull = false then mpClass.accepts (doc.getMember "val") = true
  else (doc.getMember "locked").isNull = false

/-- The input parses, names a model point of the database, and asks for something it can do. -/
def Accepts (db : Database ι) (src : String) : Prop :=
  ∃ doc mp, parseModelPoint name deserializeJson db src = .ok (doc, mp) ∧
    AcceptsPayload (pointClass mp) doc

end Specification

section Paths

theorem result_updateModelPoint (mpClass : PointClass) (p : Mp) (doc : JsonVariant Float)
    (errorMsg : Option String) :
    (updateModelPoint mpClass p doc errorMsg).result = true ↔ AcceptsPayload mpClass doc := by
  rcases Classical.em ((doc.getMember "valid").isNull = false ∧
    (doc.getMember "valid").asBoolean = false) with hinvalid | hvalid
  · simp only [updateModelPoint, AcceptsPayload, if_pos hinvalid]
  · rcases Classical.em ((doc.getMember "val").isNull = false) with hval | hnull
    · simp only [updateModelPoint, AcceptsPayload, if_neg hvalid, if_pos hval,
        mpClass.result_fromJSON]
    · simp only [updateModelPoint, AcceptsPayload, if_neg hvalid, if_neg hnull]
      cases (doc.getMember "locked").isNull with
      | false => simp
      | true => simp

variable [DecidableEq ι] (name : ι → String) (pointClass : ι → PointClass)
  (deserializeJson : String → Except String (JsonVariant Float)) (db : Database ι) (src : String)
  (arguments : Arguments ι)

/-- A call fails with the document still locked, and succeeds, with what is accepted, after its
release. -/
theorem fromJSON_cases :
    (¬ Accepts name pointClass deserializeJson db src ∧
      (fromJSON name pointClass deserializeJson db src arguments).result = false ∧
      (fromJSON name pointClass deserializeJson db src arguments).database.globalLock =
        db.globalLock + 1) ∨
    (Accepts name pointClass deserializeJson db src ∧
      (fromJSON name pointClass deserializeJson db src arguments).result = true ∧
      (fromJSON name pointClass deserializeJson db src arguments).database.globalLock =
        db.globalLock) := by
  have hlocked : parseModelPoint name deserializeJson (globalLock db) src =
      parseModelPoint name deserializeJson db src := rfl
  simp only [fromJSON, Accepts, hlocked]
  cases hparse : parseModelPoint name deserializeJson db src with
  | error text =>
      refine .inl ⟨?_, rfl, rfl⟩
      rintro ⟨doc, mp, hfound, -⟩
      cases hfound
  | ok found =>
      obtain ⟨doc, mp⟩ := found
      have haccepts : (∃ doc' mp', Except.ok (doc, mp) = (.ok (doc', mp') : Except String _) ∧
          AcceptsPayload (pointClass mp') doc') ↔ AcceptsPayload (pointClass mp) doc := by
        constructor
        · rintro ⟨doc', mp', hsame, hpayload⟩
          cases hsame
          exact hpayload
        · exact fun hpayload => ⟨doc, mp, rfl, hpayload⟩
      have hresult := result_updateModelPoint (pointClass mp) (db.points mp) doc
        arguments.errorMsg
      rw [haccepts, ← hresult]
      cases hr : (updateModelPoint (pointClass mp) (db.points mp) doc arguments.errorMsg).result with
      | false =>
          have hlockedResult : (updateModelPoint (pointClass mp) ((globalLock db).points mp) doc
              arguments.errorMsg).result = false := hr
          simp only [hlockedResult, if_true]
          exact .inl ⟨Bool.false_ne_true, trivial, rfl⟩
      | true =>
          have hlockedResult : (updateModelPoint (pointClass mp) ((globalLock db).points mp) doc
              arguments.errorMsg).result = true := hr
          simp only [hlockedResult, Bool.true_eq_false, if_false]
          exact .inr ⟨trivial, trivial, rfl⟩

/-- A call does what it should, just when it succeeds. -/
theorem allOrNothing_and_lockBalanced_iff :
    AllOrNothing name pointClass deserializeJson db src arguments ∧
        LockBalanced name pointClass deserializeJson db src arguments ↔
      Accepts name pointClass deserializeJson db src := by
  rcases fromJSON_cases name pointClass deserializeJson db src arguments with
    ⟨hrejected, -, hlock⟩ | ⟨haccepted, hresult, hlock⟩
  · refine iff_of_false ?_ hrejected
    rintro ⟨-, hbalanced⟩
    rw [LockBalanced, hlock] at hbalanced
    omega
  · refine iff_of_true ⟨?_, hlock⟩ haccepted
    intro hfalse
    rw [hresult] at hfalse
    cases hfalse

end Paths

section Payload

variable [DecidableEq ι] (name : ι → String) (pointClass : ι → PointClass)
  (deserializeJson : String → Except String (JsonVariant Float)) (db : Database ι) (src : String)
  (arguments : Arguments ι)

/-- A class whose `fromJSON_()` leaves the point when it fails. -/
def Atomic (mpClass : PointClass) : Prop :=
  ∀ p value lockRequest retSequenceNumber errorMsg, mpClass.accepts value = false →
    (mpClass.fromJSON p value lockRequest retSequenceNumber errorMsg).mp = p

theorem atomic_stringClass : Atomic stringClass := by
  intro p value lockRequest retSequenceNumber errorMsg hrejected
  have hnone : (value.getMember "text").asCString = none :=
    Option.isNone_iff_eq_none.mp (by
      rw [← Option.not_isSome]
      exact congrArg not hrejected)
  simp only [stringClass, hnone]

/-- A payload that is not accepted leaves the lock state that it asked for, and nothing else. -/
theorem updateModelPoint_of_rejected {mpClass : PointClass} (hatomic : Atomic mpClass) (p : Mp)
    {doc : JsonVariant Float} (hrejected : ¬ AcceptsPayload mpClass doc)
    (errorMsg : Option String) :
    (updateModelPoint mpClass p doc errorMsg).mp =
      if (doc.getMember "locked").isNull then p
      else setLockState p (if (doc.getMember "locked").asBoolean then .lock else .unlock) := by
  rw [AcceptsPayload] at hrejected
  rcases Classical.em ((doc.getMember "valid").isNull = false ∧
    (doc.getMember "valid").asBoolean = false) with hinvalid | hvalid
  · rw [if_pos hinvalid] at hrejected
    exact absurd trivial hrejected
  · rw [if_neg hvalid] at hrejected
    rcases Classical.em ((doc.getMember "val").isNull = false) with hval | hnull
    · rw [if_pos hval, Bool.not_eq_true] at hrejected
      simp only [updateModelPoint, if_neg hvalid, if_pos hval, hatomic _ _ _ _ _ hrejected]
      split_ifs <;> rfl
    · rw [if_neg hnull, Bool.not_eq_false] at hrejected
      simp only [updateModelPoint, if_neg hvalid, if_neg hnull, hrejected, if_true]

theorem points_of_rejected (hatomic : ∀ i, Atomic (pointClass i))
    (hrejected : ¬ Accepts name pointClass deserializeJson db src) :
    (fromJSON name pointClass deserializeJson db src arguments).database.points =
      match parseModelPoint name deserializeJson db src with
      | .error _ => db.points
      | .ok (doc, mp) =>
          if (doc.getMember "locked").isNull then db.points
          else
            Function.update db.points mp (setLockState (db.points mp)
              (if (doc.getMember "locked").asBoolean then .lock else .unlock)) := by
  have hlocked : parseModelPoint name deserializeJson (globalLock db) src =
      parseModelPoint name deserializeJson db src := rfl
  cases hparse : parseModelPoint name deserializeJson db src with
  | error text => simp only [fromJSON, hlocked, hparse]; rfl
  | ok found =>
      obtain ⟨doc, mp⟩ := found
      have hpayload : ¬ AcceptsPayload (pointClass mp) doc :=
        fun hpayload => hrejected ⟨doc, mp, hparse, hpayload⟩
      have hfailed := (result_updateModelPoint (pointClass mp) ((globalLock db).points mp) doc
        arguments.errorMsg).not.mpr hpayload
      rw [Bool.not_eq_true] at hfailed
      simp only [fromJSON, hlocked, hparse, hfailed, if_true,
        updateModelPoint_of_rejected (hatomic mp) _ hpayload]
      split_ifs
      · exact Function.update_eq_self mp _
      · rfl
      · rfl

/-- A database of one string. -/
def oneString : Database Unit where
  list := [()]
  points _ := { Point.init [0, 0] false with locked := false }
  globalLock := 0

/-- A locked state, with a value that is no string value. -/
def wrongValue : JsonVariant Float :=
  .object [("name", .string "mp"), ("locked", .boolean true), ("val", .integer 0)]

/-- The call fails with the point locked, and the document is left locked as well. -/
theorem not_allOrNothing_and_not_lockBalanced :
    ¬ AllOrNothing (fun _ : Unit => "mp") (fun _ => stringClass) (fun _ => .ok wrongValue)
        oneString "\x7b\"name\":\"mp\",\"locked\":true,\"val\":0\x7d" ⟨none, none, none⟩ ∧
      ¬ LockBalanced (fun _ : Unit => "mp") (fun _ => stringClass) (fun _ => .ok wrongValue)
        oneString "\x7b\"name\":\"mp\",\"locked\":true,\"val\":0\x7d" ⟨none, none, none⟩ := by
  constructor
  · intro hpoints
    have hsame := congrFun (hpoints (by decide)) ()
    exact absurd hsame (by decide)
  · intro hbalanced
    rw [LockBalanced] at hbalanced
    exact absurd hbalanced (by decide)

end Payload

end ColonyPico.Dm.DatabaseJson
