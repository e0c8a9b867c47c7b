import ColonyPico.Dm.ArrayElements

/-!
Locked model points and the operations that change a model point: which of them
the lock holds back, over every reachable point.
-/

namespace ColonyPico.Dm.LockRule

open ColonyPico.Foundations.ByteStore
open ColonyPico.Foundations.ByteMemory
open ColonyPico.Dm.ModelPoint
open ColonyPico.Dm.LockState
open ColonyPico.Dm.ArrayElements (writeArrayElements copyArrayFrom)

/-- The model point classes; a numeric one comes with its element arithmetic. -/
inductive Kind where
  | common
  | array (numElements elementSize : Nat)
  | string
  | numeric (plus minus : List UInt8 → List UInt8 → List UInt8)
  | refCounter

/-- The public operations that take a lock request. -/
inductive Operation : Kind → Type where
  | setInvalid {k : Kind} : Operation k
  | writeData (srcData : Option Memory) : Operation .common
  | copyDataAndStateFrom (src : Mp) (rest : Memory) : Operation .common
  | writeArray {n size : Nat} (srcData : Memory) (srcNumElements dstIndex : Nat) :
      Operation (.array n size)
  | copyArrayFrom {n size : Nat} (srcNumElements : Nat) (src : Mp) (rest : Memory) :
      Operation (.array n size)
  | writeString (srcData : Option Memory) : Operation .string
  | copyString (src : Mp) (rest : Memory) : Operation .string
  | writeNumeric {plus minus : List UInt8 → List UInt8 → List UInt8} (newValue : List UInt8) :
      Operation (.numeric plus minus)
  | increment {plus minus : List UInt8 → List UInt8 → List UInt8} (incSize : List UInt8) :
      Operation (.numeric plus minus)
  | decrement {plus minus : List UInt8 → List UInt8 → List UInt8} (decSize : List UInt8) :
      Operation (.numeric plus minus)
  | copyNumeric {plus minus : List UInt8 → List UInt8 → List UInt8} (src : Mp)
      (rest : Memory) : Operation (.numeric plus minus)
  | reset (newValue : Nat) : Operation .refCounter
  | addReferences (incrementAmount : Nat) : Operation .refCounter
  | dropReferences (decrementAmount : Nat) : Operation .refCounter
  | copyCounter (src : Mp) (rest : Memory) : Operation .refCounter

namespace Operation

/-- What the operation leaves, none where it goes beyond the storage of an array. -/
def run (sizeofSizeT : Nat) : {k : Kind} → Operation k → Mp → LockRequest → Option Mp
  | _, .setInvalid, p, lockRequest => some (LockState.setInvalid p lockRequest)
  | _, .writeData srcData, p, lockRequest =>
      some (LockState.writeData isDataEqual copyDataFrom p srcData lockRequest)
  | _, .copyDataAndStateFrom src rest, p, lockRequest =>
      some (LockState.copyDataAndStateFrom p src rest lockRequest)
  | .array n size, .writeArray srcData srcNumElements dstIndex, p, lockRequest =>
      writeArrayElements (8 * sizeofSizeT) n size p srcData srcNumElements dstIndex lockRequest
  | .array n size, .copyArrayFrom srcNumElements src rest, p, lockRequest =>
      ArrayElements.copyArrayFrom (8 * sizeofSizeT) n size srcNumElements p src rest lockRequest
  | _, .writeString srcData, p, lockRequest => some (StringBase.write p srcData lockRequest)
  | _, .copyString src rest, p, lockRequest =>
      some (StringBase.copyFrom p src rest lockRequest)
  | _, .writeNumeric newValue, p, lockRequest => some (Numeric.write p newValue lockRequest)
  | .numeric plus _, .increment incSize, p, lockRequest =>
      some (Numeric.increment plus p incSize lockRequest)
  | .numeric _ minus, .decrement decSize, p, lockRequest =>
      some (Numeric.decrement minus p decSize lockRequest)
  | _, .copyNumeric src rest, p, lockRequest =>
      some (LockState.copyDataAndStateFrom p src rest lockRequest)
  | _, .reset newValue, p, lockRequest => some (RefCounter.reset p newValue lockRequest)
  | _, .addReferences incrementAmount, p, lockRequest =>
      some (RefCounter.increment p incrementAmount lockRequest)
  | _, .dropReferences decrementAmount, p, lockRequest =>
      some (RefCounter.decrement p decrementAmount lockRequest)
  | _, .copyCounter src rest, p, lockRequest =>
      some (LockState.copyDataAndStateFrom p src rest lockRequest)

/-- The model point a `copyFrom()` copies. -/
def source? : {k : Kind} → Operation k → Option Mp
  | _, .copyDataAndStateFrom src _ => some src
  | _, .copyArrayFrom _ src _ => some src
  | _, .copyString src _ => some src
  | _, .copyNumeric src _ => some src
  | _, .copyCounter src _ => some src
  | _, _ => none

/-- A write that was given a null pointer. -/
def IsNullWrite : {k : Kind} → Operation k → Prop
  | _, .writeData srcData => srcData = none
  | _, .writeString srcData => srcData = none
  | _, _ => False

/-- The operation was given something to write, and a copy a valid source. -/
def Effective {k : Kind} (operation : Operation k) : Prop :=
  ¬ operation.IsNullWrite ∧ ∀ src, operation.source? = some src → src.valid = true

end Operation

section Stream

variable (sizeofSizeT : Nat)

/-- `exportMetadata_()`: arrays put their dimensions in front. -/
def exportMetadata : Kind → List UInt8
  | .array n size => toBytes sizeofSizeT n ++ toBytes sizeofSizeT size
  | _ => []

/-- `importMetadata_()`: the bytes consumed; the dimensions of an array have to
match. -/
def importMetadata : Kind → Memory → Option Nat
  | .array n size, stream =>
      let incomingNumElements := ofBytes (load stream sizeofSizeT)
      let incomingElementSize := ofBytes (load (fun i => stream (sizeofSizeT + i)) sizeofSizeT)
      if incomingNumElements ≠ n ∨ incomingElementSize ≠ size then none
      else some (sizeofSizeT + sizeofSizeT)
  | _, _ => some 0

def getExternalSize (k : Kind) (p : Mp) (includeLockedState : Bool) : Nat :=
  (exportMetadata sizeofSizeT k).length + p.data.length + 1 + (if includeLockedState then 1 else 0)

/-- `exportData()` to a stream with enough room. -/
def exportData (k : Kind) (p : Mp) (includeLockedState : Bool) : List UInt8 :=
  exportMetadata sizeofSizeT k ++ (p.data ++ p.valid.toUInt8 ::
    (if includeLockedState then [p.locked.toUInt8] else []))

/-- `importData()`: the bytes consumed, and the point. The lock is not asked. -/
def importData (k : Kind) (p : Mp) (srcDataStream : Memory) (srcLength : Nat)
    (includeLockedState : Bool) : Nat × Mp :=
  if getExternalSize sizeofSizeT k p false ≤ srcLength then
    match importMetadata sizeofSizeT k srcDataStream with
    | none => (0, p)
    | some bytesConsumed =>
        let srcPtr : Memory := fun i => srcDataStream (bytesConsumed + i)
        (getExternalSize sizeofSizeT k p includeLockedState,
          { data := load srcPtr p.data.length
            valid := srcPtr p.data.length != 0
            seqNum := advanceSequenceNumber p.seqNum
            locked :=
              if includeLockedState then srcPtr (p.data.length + 1) != 0 else p.locked })
  else (0, p)

end Stream

/-- The last byte of a string's storage is its terminator. -/
def Terminated (data : List UInt8) : Prop :=
  data[data.length - 1]? = some 0

/-- The data a constructor can leave: every string constructor terminates its
storage, an array has room for its elements. -/
def Constructible : Kind → List UInt8 → Prop
  | .string, data => Terminated data
  | .array n size, data => data.length = n * size
  | _, _ => True

/-- The model points of a kind that any sequence of calls leads to. The streams
that are imported were exported by a point of the same kind and size. -/
inductive Reachable (sizeofSizeT : Nat) (k : Kind) : Mp → Prop where
  | init (data : List UInt8) (valid : Bool) (h : Constructible k data) :
      Reachable sizeofSizeT k { Point.init data valid with locked := false }
  | run {p p' : Mp} (operation : Operation k) (lockRequest : LockRequest) :
      Reachable sizeofSizeT k p → operation.run sizeofSizeT p lockRequest = some p' →
        Reachable sizeofSizeT k p'
  | setLockState {p : Mp} (lockRequest : LockRequest) :
      Reachable sizeofSizeT k p → Reachable sizeofSizeT k (setLockState p lockRequest)
  | touch {p : Mp} :
      Reachable sizeofSizeT k p → Reachable sizeofSizeT k { p with toPoint := p.toPoint.touch }
  | importData {p src : Mp} (rest : Memory) (srcLength : Nat) (includeLockedState : Bool) :
      Reachable sizeofSizeT k p → Reachable sizeofSizeT k src →
        src.data.length = p.data.length →
          Reachable sizeofSizeT k (importData sizeofSizeT k p
            (memoryOf (exportData sizeofSizeT k src includeLockedState) rest) srcLength
            includeLockedState).2

section Terminator

theorem Terminated.ne_nil {data : List UInt8} (h : Terminated data) : 0 < data.length := by
  rw [Terminated] at h
  obtain ⟨hlt, -⟩ := List.getElem?_eq_some_iff.mp h
  omega

theorem terminated_set {data : List UInt8} (hpos : 0 < data.length) :
    Terminated (data.set (data.length - 1) 0) := by
  rw [Terminated, List.length_set, List.getElem?_set_self (by omega)]

theorem Terminated.set_eq {data : List UInt8} (h : Terminated data) :
    data.set (data.length - 1) 0 = data := by
  rw [Terminated] at h
  obtain ⟨hlt, hget⟩ := List.getElem?_eq_some_iff.mp h
  rw [← hget]
  exact List.set_getElem_self hlt

theorem terminated_setInvalid {p : Mp} (h : Terminated p.data) (lockRequest : LockRequest) :
    Terminated (setInvalid p lockRequest).data := by
  have hzeros : Terminated (List.replicate p.data.length 0) := by
    have hpos := h.ne_nil
    rw [Terminated, List.length_replicate, List.getElem?_replicate_of_lt (by omega)]
  rw [setInvalid, lockedUpdate]
  split_ifs
  · show Terminated (Point.setInvalid _ p.toPoint).data
    rw [Point.setInvalid]
    split_ifs
    · exact hzeros
    · exact h
  · exact h

theorem length_writeData {σ : Type*} {isDataEqual : List UInt8 → σ → Bool}
    {copyDataFrom : List UInt8 → σ → List UInt8}
    (hcopy : ∀ data src, (copyDataFrom data src).length = data.length) (p : Mp)
    (srcData : Option σ) (lockRequest : LockRequest) :
    (writeData isDataEqual copyDataFrom p srcData lockRequest).data.length = p.data.length := by
  cases srcData with
  | none => rfl
  | some src =>
      rw [writeData, lockedUpdate]
      split_ifs
      · show (Point.write _ p.toPoint _).data.length = _
        rw [Point.write]
        split_ifs
        · exact hcopy _ _
        · rfl
      · rfl

theorem terminated_write {p : Mp} (h : Terminated p.data) (srcData : Option Memory)
    (lockRequest : LockRequest) : Terminated (StringBase.write p srcData lockRequest).data := by
  cases srcData with
  | none => exact h
  | some src =>
      have hcopy : ∀ data src, (copyDataFrom data src).length = data.length :=
        fun data src => length_load src data.length
      apply terminated_set
      rw [length_writeData hcopy]
      exact h.ne_nil

theorem terminated_run {sizeofSizeT : Nat} {p p' : Mp} (h : Terminated p.data)
    (operation : Operation .string) (lockRequest : LockRequest)
    (hrun : operation.run sizeofSizeT p lockRequest = some p') : Terminated p'.data := by
  cases operation with
  | setInvalid =>
      rw [← Option.some.inj hrun]
      exact terminated_setInvalid h lockRequest
  | writeString srcData =>
      rw [← Option.some.inj hrun]
      exact terminated_write h srcData lockRequest
  | copyString src rest =>
      rw [← Option.some.inj hrun, StringBase.copyFrom, copyFromWith]
      split_ifs
      · exact terminated_setInvalid h _
      · exact terminated_write h _ lockRequest

theorem terminated_importData (sizeofSizeT : Nat) {p src : Mp} (h : Terminated p.data)
    (hsrc : Terminated src.data) (hsize : src.data.length = p.data.length) (rest : Memory)
    (srcLength : Nat) (includeLockedState : Bool) :
    Terminated (importData sizeofSizeT .string p
      (memoryOf (exportData sizeofSizeT .string src includeLockedState) rest) srcLength
      includeLockedState).2.data := by
  rw [importData]
  by_cases hlen : getExternalSize sizeofSizeT .string p false ≤ srcLength
  · rw [if_pos hlen]
    show Terminated (load (fun i => memoryOf (src.data ++ _) rest (0 + i)) p.data.length)
    have hpos := h.ne_nil
    rw [Terminated, length_load, getElem?_load _ (by omega), Nat.zero_add, ← hsize]
    refine congrArg some (memoryOf_apply ?_ rest)
    rw [List.getElem?_append_left (by omega)]
    exact hsrc
  · rw [if_neg hlen]
    exact h

/-- The storage of every string that calls lead to is terminated. -/
theorem Reachable.terminated {sizeofSizeT : Nat} {p : Mp}
    (h : Reachable sizeofSizeT .string p) : Terminated p.data := by
  induction h with
  | init data valid h => exact h
  | run operation lockRequest _ hrun ih => exact terminated_run ih operation lockRequest hrun
  | setLockState lockRequest _ ih => exact ih
  | touch _ ih => exact ih
  | importData rest srcLength includeLockedState _ _ hsize ih ihSrc =>
      exact terminated_importData sizeofSizeT ih ihSrc hsize rest srcLength includeLockedState

end Terminator

section Heeds

variable {p : Mp}

theorem heedsLock_writeData {σ : Type} (isDataEqual : List UInt8 → σ → Bool)
    (copyDataFrom : List UInt8 → σ → List UInt8) (hlocked : p.locked = true)
    (srcData : Option σ) {effective : Prop} (hsource : effective → srcData ≠ none) :
    HeedsLock (fun p lockRequest => some (writeData isDataEqual copyDataFrom p srcData lockRequest))
      effective p := by
  cases srcData with
  | none => exact ⟨rfl, fun _ heffective => absurd rfl (hsource heffective)⟩
  | some src => exact heedsLock_lockedUpdate _ effective hlocked

theorem testAndUpdateLock_request (locked : Bool) {lockRequest : LockRequest}
    (hrequest : lockRequest ≠ .noRequest) :
    testAndUpdateLock locked lockRequest = (decide (lockRequest = .lock), true) := by
  cases lockRequest with
  | noRequest => exact absurd rfl hrequest
  | lock => rfl
  | unlock => rfl

theorem locked_writeArrayElements {w numElements elementSize : Nat} {p p' : Mp}
    {srcData : Memory} {srcNumElements dstIndex : Nat} {lockRequest : LockRequest}
    (hwrite : writeArrayElements w numElements elementSize p srcData srcNumElements dstIndex
      lockRequest = some p') : p'.locked = (testAndUpdateLock p.locked lockRequest).1 := by
  rw [writeArrayElements] at hwrite
  split_ifs at hwrite with hpermit hvalid
  · obtain ⟨data, -, rfl⟩ := Option.map_eq_some_iff.mp hwrite
    rfl
  · split at hwrite
    · cases hwrite
    · cases hwrite
      rfl
    · obtain ⟨data, -, rfl⟩ := Option.map_eq_some_iff.mp hwrite
      rfl
  · cases hwrite
    rfl

/-- A write of elements heeds the lock wherever the elements lie. -/
theorem heedsLock_writeArrayElements (w numElements elementSize : Nat) (srcData : Memory)
    (srcNumElements dstIndex : Nat) (hlocked : p.locked = true) (effective : Prop) :
    HeedsLock (fun p => writeArrayElements w numElements elementSize p srcData srcNumElements
      dstIndex) effective p := by
  constructor
  · simp only [writeArrayElements, hlocked]
    rfl
  · intro lockRequest _ hrequest
    constructor
    · simp only [writeArrayElements, testAndUpdateLock_request _ hrequest]
    · intro p' hwrite
      rw [locked_writeArrayElements hwrite, testAndUpdateLock_request _ hrequest]

/-- A copy heeds the lock as its write does, once its source is valid. -/
theorem heedsLock_copyFromWith {write : Mp → Memory → LockRequest → Mp} {src : Mp}
    {rest : Memory} {effective : Prop} (hlocked : p.locked = true)
    (hsource : effective → src.valid = true)
    (hwrite : HeedsLock (fun p lockRequest => some (write p (memoryOf src.data rest) lockRequest))
      effective p) :
    HeedsLock (fun p lockRequest => some (copyFromWith write p src rest lockRequest)) effective
      p := by
  by_cases hvalid : src.valid = true
  · simp only [HeedsLock, copyFromWith, hvalid, Bool.true_eq_false, if_false]
    exact hwrite
  · have hinvalid : src.valid = false := by simpa using hvalid
    refine ⟨?_, fun _ heffective => absurd (hsource heffective) hvalid⟩
    simp only [copyFromWith, hinvalid, if_true]
    exact congrArg (fun q => some (LockablePoint.toPoint q)) (lockedUpdate_noRequest hlocked _)

theorem heedsLock_copyArrayFrom (w numElements elementSize srcNumElements : Nat) {src : Mp}
    (rest : Memory) {effective : Prop} (hlocked : p.locked = true)
    (hsource : effective → src.valid = true) :
    HeedsLock (fun p => copyArrayFrom w numElements elementSize srcNumElements p src rest) effective
      p := by
  by_cases hvalid : src.valid = true
  · simp only [HeedsLock, copyArrayFrom, hvalid, Bool.true_eq_false, if_false]
    exact heedsLock_writeArrayElements w numElements elementSize _ srcNumElements 0 hlocked _
  · have hinvalid : src.valid = false := by simpa using hvalid
    refine ⟨?_, fun _ heffective => absurd (hsource heffective) hvalid⟩
    simp only [copyArrayFrom, hinvalid, if_true]
    exact congrArg (fun q => some (LockablePoint.toPoint q)) (lockedUpdate_noRequest hlocked _)

theorem heedsLock_writeString (hterminated : Terminated p.data) (hlocked : p.locked = true)
    (srcData : Option Memory) {effective : Prop} (hsource : effective → srcData ≠ none) :
    HeedsLock (fun p lockRequest => some (StringBase.write p srcData lockRequest)) effective
      p := by
  cases srcData with
  | none => exact ⟨rfl, fun _ heffective => absurd rfl (hsource heffective)⟩
  | some src =>
      apply heedsLock_some
      · have hwhole := lockedUpdate_noRequest hlocked fun q =>
          q.write (fun data _ => StringBase.isDataEqual data src) (copyDataFrom q.data src)
        show (StringBase.terminate _).toPoint = p.toPoint
        rw [writeData, hwhole, StringBase.terminate, hterminated.set_eq]
      · intro lockRequest _ hrequest
        simp only [StringBase.write, StringBase.terminate, writeData,
          lockedUpdate_request _ hrequest, and_self]

/-- A numeric write of a value computed from the data. -/
theorem heedsLock_numeric (newValue : List UInt8 → List UInt8) (hlocked : p.locked = true)
    {effective : Prop} :
    HeedsLock (fun p lockRequest => some (Numeric.write p (newValue p.data) lockRequest)) effective
      p :=
  heedsLock_lockedUpdate
    (fun q => q.write
      (fun data _ => isDataEqual data (memoryOf (newValue q.data) fun _ => 0))
      (copyDataFrom q.data (memoryOf (newValue q.data) fun _ => 0))) effective hlocked

theorem heedsLock_run {sizeofSizeT : Nat} {k : Kind} (operation : Operation k)
    (hreach : Reachable sizeofSizeT k p) (hlocked : p.locked = true) :
    HeedsLock (operation.run sizeofSizeT) operation.Effective p := by
  have hcopy : ∀ (effective : Prop) (src : Mp) (rest : Memory),
      (effective → src.valid = true) →
        HeedsLock (fun p lockRequest => some (copyDataAndStateFrom p src rest lockRequest))
          effective p := by
    intro effective src rest hvalid
    exact heedsLock_copyFromWith hlocked hvalid
      (heedsLock_writeData _ _ hlocked (some (memoryOf src.data rest)) (by simp))
  cases operation with
  | setInvalid => exact heedsLock_lockedUpdate _ _ hlocked
  | writeData srcData => exact heedsLock_writeData _ _ hlocked srcData fun h => h.1
  | copyDataAndStateFrom src rest => exact hcopy _ src rest fun h => h.2 src rfl
  | writeArray srcData srcNumElements dstIndex =>
      exact heedsLock_writeArrayElements _ _ _ srcData srcNumElements dstIndex hlocked _
  | copyArrayFrom srcNumElements src rest =>
      exact heedsLock_copyArrayFrom _ _ _ srcNumElements rest hlocked fun h => h.2 src rfl
  | writeString srcData =>
      exact heedsLock_writeString hreach.terminated hlocked srcData fun h => h.1
  | copyString src rest =>
      exact heedsLock_copyFromWith hlocked (fun h => h.2 src rfl)
        (heedsLock_writeString hreach.terminated hlocked (some _) (by simp))
  | writeNumeric newValue => exact heedsLock_numeric (fun _ => newValue) hlocked
  | @increment plus minus incSize => exact heedsLock_numeric (plus · incSize) hlocked
  | @decrement plus minus decSize => exact heedsLock_numeric (minus · decSize) hlocked
  | copyNumeric src rest => exact hcopy _ src rest fun h => h.2 src rfl
  | reset newValue => exact heedsLock_lockedUpdate _ _ hlocked
  | addReferences incrementAmount => exact heedsLock_lockedUpdate _ _ hlocked
  | dropReferences decrementAmount => exact heedsLock_lockedUpdate _ _ hlocked
  | copyCounter src rest => exact hcopy _ src rest fun h => h.2 src rfl

end Heeds

/-- An import acts on a locked point as it does on an unlocked one. -/
theorem importData_unlocked (sizeofSizeT : Nat) (k : Kind) (p : Mp) (stream : Memory)
    (srcLength : Nat) (includeLockedState : Bool) :
    (importData sizeofSizeT k p stream srcLength includeLockedState).1 =
        (importData sizeofSizeT k { p with locked := false } stream srcLength
          includeLockedState).1 ∧
      (importData sizeofSizeT k p stream srcLength includeLockedState).2.toPoint =
        (importData sizeofSizeT k { p with locked := false } stream srcLength
          includeLockedState).2.toPoint := by
  have hsize : getExternalSize sizeofSizeT k { p with locked := false } =
      getExternalSize sizeofSizeT k p := rfl
  rw [importData, importData, hsize]
  by_cases hlen : getExternalSize sizeofSizeT k p false ≤ srcLength
  · rw [if_pos hlen, if_pos hlen]
    cases importMetadata sizeofSizeT k stream with
    | none => exact ⟨rfl, rfl⟩
    | some bytesConsumed => exact ⟨rfl, rfl⟩
  · rw [if_neg hlen, if_neg hlen]
    exact ⟨rfl, rfl⟩

/-- In every reachable locked point, the operations that take a lock request heed
the lock, and an import does not look at it. -/
theorem locked_point_rule {sizeofSizeT : Nat} {k : Kind} {p : Mp}
    (hreach : Reachable sizeofSizeT k p) (hlocked : p.locked = true) :
    (∀ operation : Operation k, HeedsLock (operation.run sizeofSizeT) operation.Effective p) ∧
      ∀ (stream : Memory) (srcLength : Nat) (includeLockedState : Bool),
        (importData sizeofSizeT k p stream srcLength includeLockedState).1 =
            (importData sizeofSizeT k { p with locked := false } stream srcLength
              includeLockedState).1 ∧
          (importData sizeofSizeT k p stream srcLength includeLockedState).2.toPoint =
            (importData sizeofSizeT k { p with locked := false } stream srcLength
              includeLockedState).2.toPoint :=
  ⟨fun operation => heedsLock_run operation hreach hlocked,
    fun stream srcLength includeLockedState =>
      importData_unlocked sizeofSizeT k p stream srcLength includeLockedState⟩

/-- A string model point of four bytes that was locked. -/
def lockedString : Mp :=
  setLockState { Point.init [104, 105, 0, 0] true with locked := false } .lock

theorem reachable_lockedString : Reachable 4 .string lockedString :=
  .setLockState .lock (.init _ true rfl)

theorem locked_point_rule_string :
    lockedString.locked = true ∧
      HeedsLock ((Operation.writeString (some fun _ => 0)).run 4)
        (Operation.writeString (some fun _ => 0)).Effective lockedString :=
  ⟨rfl, (locked_point_rule reachable_lockedString rfl).1 _⟩

/-- An import overwrites a locked point; a copy from an invalid source, and a
write of a null pointer, that ask for the lock to be removed leave it in place. -/
theorem not_locked_point_immutable :
    (¬ ∀ (k : Kind) (p : Mp), Reachable 4 k p → p.locked = true →
      ∀ (stream : Memory) (srcLength : Nat),
        (importData 4 k p stream srcLength false).2.toPoint = p.toPoint) ∧
    (¬ ∀ (k : Kind) (p : Mp), Reachable 4 k p → p.locked = true →
      ∀ operation : Operation k, HeedsLock (operation.run 4) (¬ operation.IsNullWrite) p) ∧
    ¬ ∀ (k : Kind) (p : Mp), Reachable 4 k p → p.locked = true →
      ∀ operation : Operation k,
        HeedsLock (operation.run 4) (∀ src, operation.source? = some src → src.valid = true) p := by
  refine ⟨?_, ?_, ?_⟩
  · intro h
    have himport := h _ _ reachable_lockedString rfl (memoryOf [120, 0, 0, 0, 1] fun _ => 0) 5
    exact absurd himport (by decide)
  · intro h
    have hcopy := (h _ _ reachable_lockedString rfl
      (.copyString { Point.init [0, 0, 0, 0] false with locked := false } fun _ => 0)).2 .unlock
      (by simp [Operation.IsNullWrite]) (by decide)
    exact absurd (hcopy.2 _ rfl) (by decide)
  · intro h
    have hnull := (h _ _ reachable_lockedString rfl (.writeString none)).2 .unlock
      (by simp [Operation.source?]) (by decide)
    exact absurd (hnull.2 _ rfl) (by decide)

end ColonyPico.Dm.LockRule
