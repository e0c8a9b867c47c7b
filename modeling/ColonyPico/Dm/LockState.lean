import ColonyPico.Dm.ModelPoint
import ColonyPico.Foundations.ByteStore
import ColonyPico.Foundations.ByteMemory

/-!
The lock of a model point (`Cpl::Dm::ModelPointCommon_`), and the operations of
the string, numeric and reference counter model points under it.
-/

namespace ColonyPico.Dm.LockState

open ColonyPico.Foundations.ByteStore
open ColonyPico.Foundations.ByteMemory
open ColonyPico.Dm.ModelPoint

deriving instance DecidableEq for Point

/-- A model point with its lock. -/
structure LockablePoint (α : Type*) extends Point α where
  locked : Bool
  deriving DecidableEq

section Update

variable {α : Type*}

/-- What every locked section of an update does: the update goes on if
`testAndUpdateLock()` lets it. -/
def lockedUpdate (p : LockablePoint α) (lockRequest : LockRequest) (f : Point α → Point α) :
    LockablePoint α :=
  { toPoint := if (testAndUpdateLock p.locked lockRequest).2 then f p.toPoint else p.toPoint
    locked := (testAndUpdateLock p.locked lockRequest).1 }

/-- `writeData()`, over the virtual functions that compare and copy the data. -/
def writeData {σ : Type*} (isDataEqual : α → σ → Bool) (copyDataFrom : α → σ → α)
    (p : LockablePoint α) (srcData : Option σ) (lockRequest : LockRequest) : LockablePoint α :=
  match srcData with
  | none => p
  | some src =>
      lockedUpdate p lockRequest fun q =>
        q.write (fun data _ => isDataEqual data src) (copyDataFrom q.data src)

def setLockState (p : LockablePoint α) (lockRequest : LockRequest) : LockablePoint α :=
  { p with locked := (testAndUpdateLock p.locked lockRequest).1 }

/-- How an operation, none where it crashes, has to treat a locked point: without a
request nothing changes; with one, and with something to take effect, it acts as
on an unlocked point and leaves the lock as asked for. -/
def HeedsLock (operation : LockablePoint α → LockRequest → Option (LockablePoint α))
    (effective : Prop) (p : LockablePoint α) : Prop :=
  (operation p .noRequest).map LockablePoint.toPoint = some p.toPoint ∧
    ∀ lockRequest, effective → lockRequest ≠ .noRequest →
      (operation p lockRequest).map LockablePoint.toPoint =
          (operation { p with locked := false } lockRequest).map LockablePoint.toPoint ∧
        ∀ p', operation p lockRequest = some p' → p'.locked = decide (lockRequest = .lock)

theorem lockedUpdate_noRequest {p : LockablePoint α} (hlocked : p.locked = true)
    (f : Point α → Point α) : lockedUpdate p .noRequest f = p := by
  rcases p with ⟨q, locked⟩
  subst hlocked
  rfl

theorem lockedUpdate_request (p : LockablePoint α) {lockRequest : LockRequest}
    (hrequest : lockRequest ≠ .noRequest) (f : Point α → Point α) :
    lockedUpdate p lockRequest f =
      { toPoint := f p.toPoint, locked := decide (lockRequest = .lock) } := by
  cases lockRequest with
  | noRequest => exact absurd rfl hrequest
  | lock => rfl
  | unlock => rfl

/-- For an operation that does not crash, by what it leaves behind. -/
theorem heedsLock_some {operation : LockablePoint α → LockRequest → LockablePoint α}
    {effective : Prop} {p : LockablePoint α}
    (hsame : (operation p .noRequest).toPoint = p.toPoint)
    (hacts : ∀ lockRequest, effective → lockRequest ≠ .noRequest →
      (operation p lockRequest).toPoint =
          (operation { p with locked := false } lockRequest).toPoint ∧
        (operation p lockRequest).locked = decide (lockRequest = .lock)) :
    HeedsLock (fun p lockRequest => some (operation p lockRequest)) effective p := by
  refine ⟨congrArg some hsame, ?_⟩
  intro lockRequest heffective hrequest
  obtain ⟨hpoint, hlock⟩ := hacts lockRequest heffective hrequest
  refine ⟨congrArg some hpoint, ?_⟩
  intro p' hp'
  rw [← Option.some.inj hp']
  exact hlock

/-- An operation that is one locked section heeds the lock. -/
theorem heedsLock_lockedUpdate (f : Point α → Point α) (effective : Prop)
    {p : LockablePoint α} (hlocked : p.locked = true) :
    HeedsLock (fun p lockRequest => some (lockedUpdate p lockRequest f)) effective p := by
  refine heedsLock_some (congrArg _ (lockedUpdate_noRequest hlocked f)) ?_
  intro lockRequest _ hrequest
  simp only [lockedUpdate_request _ hrequest, and_self]

end Update

/-- A model point over the bytes at `m_dataPtr`. -/
abbrev Mp : Type := LockablePoint (List UInt8)

/-- `setInvalid()`, with the `memset()` of `hookSetInvalid()`. -/
def setInvalid (p : Mp) (lockRequest : LockRequest) : Mp :=
  lockedUpdate p lockRequest fun q => q.setInvalid (List.replicate q.data.length 0)

/-- The virtual functions of `ModelPointCommon_`. -/
def isDataEqual (data : List UInt8) (otherData : Memory) : Bool :=
  data == load otherData data.length

def copyDataFrom (data : List UInt8) (srcData : Memory) : List UInt8 :=
  load srcData data.length

/-- The `copyFrom()` family: a valid source is written, an invalid one
invalidates the point. -/
def copyFromWith (write : Mp → Memory → LockRequest → Mp) (p src : Mp) (rest : Memory)
    (lockRequest : LockRequest) : Mp :=
  -- the lock request is not handed on to setInvalid()
  if src.valid = false then setInvalid p .noRequest
  else write p (memoryOf src.data rest) lockRequest

/-- `ModelPointCommon_::copyDataAndStateFrom()`. -/
def copyDataAndStateFrom : Mp → Mp → Memory → LockRequest → Mp :=
  copyFromWith fun p src => writeData isDataEqual copyDataFrom p (some src)

namespace StringBase

/-- `strlen()` of the string storage. -/
def strlen (data : List UInt8) : Nat :=
  data.findIdx (· == 0)

/-- The other string has the characters of this one and ends where it ends. -/
def isDataEqual (data : List UInt8) (otherData : Memory) : Bool :=
  ((List.range (strlen data)).all fun i => data[i]? == some (otherData i)) &&
    otherData (strlen data) == 0

/-- The null terminator in the last byte of the storage. -/
def terminate (p : Mp) : Mp :=
  { p with data := p.data.set (p.data.length - 1) 0 }

/-- `write()`: a null pointer does nothing at all; otherwise the terminator is
written whether or not the point was. -/
def write (p : Mp) (srcData : Option Memory) (lockRequest : LockRequest) : Mp :=
  match srcData with
  | none => p
  | some src => terminate (writeData isDataEqual copyDataFrom p (some src) lockRequest)

def copyFrom : Mp → Mp → Memory → LockRequest → Mp :=
  copyFromWith fun p src => write p (some src)

end StringBase

namespace Numeric

/-- `write()` of a value of the element type, given by its bytes. -/
def write (p : Mp) (newValue : List UInt8) : LockRequest → Mp :=
  writeData isDataEqual copyDataFrom p (some (memoryOf newValue fun _ => 0))

/-- `increment()` and `decrement()`, by the arithmetic of the element type. -/
def increment (plus : List UInt8 → List UInt8 → List UInt8) (p : Mp) (incSize : List UInt8) :
    LockRequest → Mp :=
  write p (plus p.data incSize)

def decrement (minus : List UInt8 → List UInt8 → List UInt8) (p : Mp) (decSize : List UInt8) :
    LockRequest → Mp :=
  write p (minus p.data decSize)

end Numeric

namespace RefCounter

/-- `updateAndCheckForChangeNotification()`: notices only on the way to valid and
between zero and the other counts. -/
def updateAndCheckForChangeNotification (q : Point (List UInt8)) (newValue : Nat) :
    Point (List UInt8) :=
  let count := ofBytes q.data
  if q.valid = false ∨ (count = 0 ∧ newValue ≠ 0) ∨ (newValue = 0 ∧ count ≠ 0) then
    { data := toBytes 4 newValue, valid := true, seqNum := advanceSequenceNumber q.seqNum }
  else { q with data := toBytes 4 newValue }

def reset (p : Mp) (newValue : Nat) (lockRequest : LockRequest) : Mp :=
  lockedUpdate p lockRequest fun q => updateAndCheckForChangeNotification q newValue

def increment (p : Mp) (incrementAmount : Nat) (lockRequest : LockRequest) : Mp :=
  lockedUpdate p lockRequest fun q =>
    let count := ofBytes q.data
    let newValue := (count + incrementAmount) % 2 ^ 32
    updateAndCheckForChangeNotification q (if newValue < count then 2 ^ 32 - 1 else newValue)

def decrement (p : Mp) (decrementAmount : Nat) (lockRequest : LockRequest) : Mp :=
  lockedUpdate p lockRequest fun q =>
    let count := ofBytes q.data
    let newValue := (count + 2 ^ 32 - decrementAmount) % 2 ^ 32
    updateAndCheckForChangeNotification q (if count < newValue then 0 else newValue)

end RefCounter

end ColonyPico.Dm.LockState
