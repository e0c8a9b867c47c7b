import Mathlib.Algebra.Group.Nat.Defs
import Mathlib.Logic.Function.Iterate
import Mathlib.Tactic.SplitIfs

/-!
A model point's data, valid state and sequence number
(`Cpl::Dm::ModelPointCommon_`), and the reference counter built on it.
-/

namespace ColonyPico.Dm.ModelPoint

def sequenceNumberUnknown : Nat := 0

/-- `advanceSequenceNumber()`: a `uint16_t` that skips the unknown value. -/
def advanceSequenceNumber (seqNum : Nat) : Nat :=
  if (seqNum + 1) % 2 ^ 16 = sequenceNumberUnknown then sequenceNumberUnknown + 1
  else (seqNum + 1) % 2 ^ 16

/-- A sequence number of a model point. -/
def IsSequenceNumber (seqNum : Nat) : Prop :=
  sequenceNumberUnknown < seqNum ∧ seqNum < 2 ^ 16

theorem isSequenceNumber_advance {seqNum : Nat} (h : IsSequenceNumber seqNum) :
    IsSequenceNumber (advanceSequenceNumber seqNum) := by
  obtain ⟨hpos, hlt⟩ := h
  rw [IsSequenceNumber, advanceSequenceNumber]
  by_cases hzero : (seqNum + 1) % 2 ^ 16 = sequenceNumberUnknown
  · rw [if_pos hzero, sequenceNumberUnknown]
    omega
  · rw [if_neg hzero]
    rw [sequenceNumberUnknown] at hzero ⊢
    omega

theorem advanceSequenceNumber_ne (seqNum : Nat) : advanceSequenceNumber seqNum ≠ seqNum := by
  rw [advanceSequenceNumber, sequenceNumberUnknown]
  split_ifs <;> omega

/-- Sequence numbers repeat with period 65535. -/
theorem iterate_advance {seqNum : Nat} (h : IsSequenceNumber seqNum) (changes : Nat) :
    advanceSequenceNumber^[changes] seqNum = (seqNum - 1 + changes) % 65535 + 1 := by
  obtain ⟨hpos, hlt⟩ := h
  simp only [sequenceNumberUnknown] at hpos
  induction changes with
  | zero =>
      rw [Function.iterate_zero_apply, Nat.add_zero, Nat.mod_eq_of_lt (by omega)]
      omega
  | succ changes ih =>
      rw [Function.iterate_succ_apply', ih, advanceSequenceNumber, sequenceNumberUnknown]
      split_ifs <;> omega

/-- Only a whole number of periods brings a sequence number back. -/
theorem dvd_of_iterate_advance_eq {seqNum : Nat} (h : IsSequenceNumber seqNum) {changes : Nat}
    (heq : advanceSequenceNumber^[changes] seqNum = seqNum) : 65535 ∣ changes := by
  rw [iterate_advance h] at heq
  obtain ⟨hone, hmax⟩ := h
  simp only [sequenceNumberUnknown] at hone
  omega

/-- A model point. -/
structure Point (α : Type*) where
  data : α
  valid : Bool
  seqNum : Nat

namespace Point

variable {α : Type*}

/-- A model point as it is constructed. -/
def init (data : α) (valid : Bool) : Point α :=
  { data := data, valid := valid, seqNum := sequenceNumberUnknown + 1 }

/-- `read()`: the data, if valid. -/
def read (p : Point α) : Option α :=
  if p.valid then some p.data else none

/-- `writeData()`: nothing happens when the point is valid and the data compare
equal. -/
def write (isDataEqual : α → α → Bool) (p : Point α) (src : α) : Point α :=
  if p.valid = false ∨ isDataEqual p.data src = false then
    { data := src, valid := true, seqNum := advanceSequenceNumber p.seqNum }
  else p

/-- `setInvalid()`, with the data that `hookSetInvalid()` leaves. -/
def setInvalid (invalidData : α) (p : Point α) : Point α :=
  if p.valid then
    { data := invalidData, valid := false, seqNum := advanceSequenceNumber p.seqNum }
  else p

def touch (p : Point α) : Point α :=
  { p with seqNum := advanceSequenceNumber p.seqNum }

end Point

inductive LockRequest where
  | noRequest
  | lock
  | unlock
  deriving DecidableEq, Repr

/-- `testAndUpdateLock()`: the lock state, and whether the operation may go on. -/
def testAndUpdateLock (locked : Bool) : LockRequest → Bool × Bool
  | .unlock => (false, true)
  | .lock => (true, true)
  | .noRequest => (locked, !locked)

/-- The value of a `RefCounter` and whether it is valid. -/
structure RefCounter where
  count : Nat
  valid : Bool
  deriving DecidableEq, Repr

namespace RefCounter

/-- `increment()`, which stops at the largest `uint32_t`. -/
def increment (r : RefCounter) : RefCounter :=
  { count := if (r.count + 1) % 2 ^ 32 < r.count then 2 ^ 32 - 1 else (r.count + 1) % 2 ^ 32
    valid := true }

/-- `decrement()`, which stops at zero. -/
def decrement (r : RefCounter) : RefCounter :=
  { count := if r.count = 0 then 0 else r.count - 1
    valid := true }

def read (r : RefCounter) : Option Nat :=
  if r.valid then some r.count else none

end RefCounter

end ColonyPico.Dm.ModelPoint
