import ColonyPico.Dm.LockState

/-!
Model points whose data are one record: written whole, compared whole, copied from another point.
-/

namespace ColonyPico.Dm.RecordPoints

open ModelPoint LockState

variable {α : Type*} [DecidableEq α]

/-- `writeData()`. -/
def writeRecord (p : LockablePoint α) (newData : α) (lockRequest : LockRequest) : LockablePoint α :=
  writeData (fun data other => decide (data = other)) (fun _ src => src) p (some newData)
    lockRequest

omit [DecidableEq α] in
/-- `setInvalid()`, with the data that `hookSetInvalid()` leaves. -/
def setInvalid (invalidData : α) (p : LockablePoint α) (lockRequest : LockRequest) :
    LockablePoint α :=
  lockedUpdate p lockRequest fun q => q.setInvalid invalidData

/-- `copyDataAndStateFrom()`. -/
def copyFrom (invalidData : α) (p src : LockablePoint α) (lockRequest : LockRequest) :
    LockablePoint α :=
  -- the lock request is not handed on to setInvalid()
  if src.valid = false then setInvalid invalidData p .noRequest
  else writeRecord p src.data lockRequest

/-- The lock keeps the operation out. -/
def Refused (p : LockablePoint α) (lockRequest : LockRequest) : Prop :=
  p.locked = true ∧ lockRequest = .noRequest

/-- What a write stores that the lock lets through. -/
def stored (newData : α) (q : Point α) : Point α :=
  q.write (fun data _ => decide (data = newData)) newData

theorem writeRecord_eq (p : LockablePoint α) (newData : α) (lockRequest : LockRequest) :
    writeRecord p newData lockRequest = lockedUpdate p lockRequest (stored newData) :=
  rfl

theorem stored_eq (newData : α) (q : Point α) :
    stored newData q =
      if q.valid = false ∨ q.data ≠ newData then
        { data := newData, valid := true, seqNum := advanceSequenceNumber q.seqNum }
      else q := by
  simp only [stored, Point.write, decide_eq_false_iff_not, ne_eq]

theorem stored_data (newData : α) (q : Point α) : (stored newData q).data = newData := by
  rw [stored_eq]
  split
  case isTrue => rfl
  case isFalse h => exact not_not.1 fun hdata => h (Or.inr hdata)

theorem stored_eq_self_iff (newData : α) (q : Point α) :
    stored newData q = q ↔ q.valid = true ∧ q.data = newData := by
  rw [stored_eq]
  split
  case isTrue h =>
    refine iff_of_false (fun heq => ?_) ?_
    · exact advanceSequenceNumber_ne q.seqNum (congrArg Point.seqNum heq)
    · rintro ⟨hvalid, hdata⟩
      rcases h with hinvalid | hne
      · rw [hvalid] at hinvalid
        cases hinvalid
      · exact hne hdata
  case isFalse h =>
    rw [not_or, Bool.not_eq_false, not_not] at h
    exact iff_of_true rfl h

section Lock

omit [DecidableEq α]

variable {p : LockablePoint α} {lockRequest : LockRequest}

theorem lockedUpdate_refused (h : Refused p lockRequest) (f : Point α → Point α) :
    lockedUpdate p lockRequest f = p := by
  obtain ⟨hlocked, rfl⟩ := h
  exact lockedUpdate_noRequest hlocked f

theorem lockedUpdate_granted (h : ¬ Refused p lockRequest) (f : Point α → Point α) :
    (lockedUpdate p lockRequest f).toPoint = f p.toPoint := by
  cases lockRequest with
  | noRequest =>
      have hunlocked : p.locked = false := by
        rw [← Bool.not_eq_true]
        exact fun hlocked => h ⟨hlocked, rfl⟩
      simp [lockedUpdate, testAndUpdateLock, hunlocked]
  | lock => rfl
  | unlock => rfl

/-- What an update may leave in a record: what was there, or what it puts there. -/
theorem lockedUpdate_data {q : α → Prop} (hbefore : q p.data) {f : Point α → Point α}
    (hafter : q (f p.toPoint).data) (lockRequest : LockRequest) :
    q (lockedUpdate p lockRequest f).data := by
  unfold lockedUpdate
  split
  · exact hafter
  · exact hbefore

theorem setInvalid_data {q : α → Prop} (hbefore : q p.data) {invalidData : α}
    (hinvalid : q invalidData) (lockRequest : LockRequest) :
    q (setInvalid invalidData p lockRequest).data := by
  refine lockedUpdate_data hbefore ?_ lockRequest
  unfold Point.setInvalid
  split
  · exact hinvalid
  · exact hbefore

end Lock

section Data

variable {p : LockablePoint α} {lockRequest : LockRequest}

theorem writeRecord_data {q : α → Prop} (hbefore : q p.data) {newData : α} (hnew : q newData)
    (lockRequest : LockRequest) : q (writeRecord p newData lockRequest).data :=
  lockedUpdate_data hbefore ((stored_data newData p.toPoint).symm ▸ hnew) lockRequest

theorem copyFrom_data {q : α → Prop} (hbefore : q p.data) {src : LockablePoint α}
    (hsrc : q src.data) {invalidData : α} (hinvalid : q invalidData) (lockRequest : LockRequest) :
    q (copyFrom invalidData p src lockRequest).data := by
  unfold copyFrom
  split
  · exact setInvalid_data hbefore hinvalid .noRequest
  · exact writeRecord_data hbefore hsrc lockRequest

theorem writeRecord_granted (h : ¬ Refused p lockRequest) (newData : α) :
    (writeRecord p newData lockRequest).data = newData := by
  rw [writeRecord_eq, lockedUpdate_granted h, stored_data]

theorem writeRecord_refused (h : Refused p lockRequest) (newData : α) :
    writeRecord p newData lockRequest = p :=
  lockedUpdate_refused h _

/-- Two writes differ in what they leave unless the lock keeps both out. -/
theorem writeRecord_inj_iff (p : LockablePoint α) (newData newData' : α)
    (lockRequest : LockRequest) :
    writeRecord p newData lockRequest = writeRecord p newData' lockRequest ↔
      newData = newData' ∨ Refused p lockRequest := by
  rcases Classical.em (Refused p lockRequest) with hrefused | hgranted
  · rw [writeRecord_refused hrefused, writeRecord_refused hrefused]
    exact iff_of_true rfl (Or.inr hrefused)
  · rw [or_iff_left hgranted]
    constructor
    · intro h
      rw [← writeRecord_granted hgranted newData, h, writeRecord_granted hgranted]
    · exact fun h => h ▸ rfl

end Data

/-- When it makes no difference to a write that its lock request is missing. -/
def NeedsNoRequest (p : LockablePoint α) (newData : α) : LockRequest → Prop
  | .noRequest => True
  | .unlock => p.locked = false
  | .lock => p.locked = true ∧ p.valid = true ∧ p.data = newData

/-- A missing lock request is noticed unless the write is the same without it. -/
theorem writeRecord_noRequest_iff (p : LockablePoint α) (newData : α) (lockRequest : LockRequest) :
    writeRecord p newData .noRequest = writeRecord p newData lockRequest ↔
      NeedsNoRequest p newData lockRequest := by
  rw [writeRecord_eq, writeRecord_eq]
  rcases p with ⟨q, locked⟩
  cases lockRequest with
  | noRequest => exact iff_of_true rfl trivial
  | lock =>
      cases locked with
      | false => simp [lockedUpdate, testAndUpdateLock, NeedsNoRequest]
      | true =>
          rw [lockedUpdate_noRequest rfl, lockedUpdate_request _ (by decide)]
          simp only [NeedsNoRequest, true_and, LockablePoint.mk.injEq, decide_true, and_true]
          rw [eq_comm]
          exact stored_eq_self_iff newData q
  | unlock =>
      cases locked with
      | false => exact iff_of_true rfl rfl
      | true => simp [lockedUpdate, testAndUpdateLock, NeedsNoRequest]

end ColonyPico.Dm.RecordPoints
