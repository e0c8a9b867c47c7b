import ColonyPico.Dm.LockState
import Mathlib.Algebra.Order.Ring.Nat
import Mathlib.Algebra.Ring.Nat
import ColonyPico.Foundations.TwoDigits

/-!
Reading and writing a part of an array model point (`ArrayBase_`), with its
index arithmetic in `size_t` of `w` bits.
-/

namespace ColonyPico.Dm.ArrayElements

open ColonyPico.Foundations.ByteStore
open ColonyPico.Foundations.ByteMemory
open ColonyPico.Foundations.TwoDigits
open ColonyPico.Dm.ModelPoint
open ColonyPico.Dm.LockState

/-- `MetaData_T`. -/
structure MetaData where
  elemPtr : Memory
  numElements : Nat
  elemIndex : Nat

section Code

variable (w numElements elementSize : Nat)

/-- How the copy and compare functions adjust the request of the caller, in place. -/
def truncate (info : MetaData) : MetaData :=
  if numElements < (info.elemIndex + info.numElements) % 2 ^ w then
    { info with numElements := (numElements + 2 ^ w - info.elemIndex) % 2 ^ w }
  else info

/-- `elemIndex * m_elementSize`. -/
def byteOffset (info : MetaData) : Nat :=
  info.elemIndex * elementSize % 2 ^ w

/-- `numElements * m_elementSize`. -/
def byteCount (info : MetaData) : Nat :=
  info.numElements * elementSize % 2 ^ w

/-- The bytes of the storage that are copied or compared; none when they do not all lie in the
storage. -/
def stretch (data : List UInt8) (offset n : Nat) : Option (List UInt8) :=
  if n = 0 ∨ offset + n ≤ data.length then some (slice data offset n) else none

/-- `copyDataTo_()`: what is put at the start of the caller's buffer. -/
def copyDataTo (data : List UInt8) (dstInfo : MetaData) : Option (List UInt8) :=
  let info := truncate w numElements dstInfo
  stretch data (byteOffset w elementSize info) (byteCount w elementSize info)

def isDataEqual (data : List UInt8) (otherInfo : MetaData) : Option Bool :=
  let info := truncate w numElements otherInfo
  let n := byteCount w elementSize info
  (stretch data (byteOffset w elementSize info) n).map fun bytes => bytes == load info.elemPtr n

def copyDataFrom (data : List UInt8) (srcInfo : MetaData) : Option (List UInt8) :=
  let info := truncate w numElements srcInfo
  let offset := byteOffset w elementSize info
  let n := byteCount w elementSize info
  (stretch data offset n).map fun _ => overwrite data offset (load info.elemPtr n)

/-- `readArrayElements()`: the valid state and the caller's buffer. -/
def readArrayElements (p : Mp) (dstData : Memory) (dstNumElements srcIndex : Nat) :
    Option (Bool × Memory) :=
  if p.valid then
    (copyDataTo w numElements elementSize p.data
      { elemPtr := dstData, numElements := dstNumElements, elemIndex := srcIndex }).map
        fun bytes => (true, store dstData 0 bytes)
  else some (false, dstData)

def writeArrayElements (p : Mp) (srcData : Memory) (srcNumElements dstIndex : Nat)
    (lockRequest : LockRequest) : Option Mp :=
  let src : MetaData :=
    { elemPtr := srcData, numElements := srcNumElements, elemIndex := dstIndex }
  let locked := (testAndUpdateLock p.locked lockRequest).1
  let update : Option (List UInt8) → Option Mp := Option.map fun data =>
    { data := data, valid := true, seqNum := advanceSequenceNumber p.seqNum, locked := locked }
  if (testAndUpdateLock p.locked lockRequest).2 then
    if p.valid = false then update (copyDataFrom w numElements elementSize p.data src)
    else
      match isDataEqual w numElements elementSize p.data src with
      | none => none
      | some true => some { p with locked := locked }
      | some false =>
          -- isDataEqual_() has truncated the request already
          update (copyDataFrom w numElements elementSize p.data (truncate w numElements src))
  else some { p with locked := locked }

/-- `copyArrayFrom()`; `rest` is what the memory behind the data of the source holds. -/
def copyArrayFrom (srcNumElements : Nat) (p src : Mp) (rest : Memory) (lockRequest : LockRequest) :
    Option Mp :=
  -- the lock request is not handed on to setInvalid()
  if src.valid = false then some (setInvalid p .noRequest)
  else
    writeArrayElements w numElements elementSize p (memoryOf src.data rest) srcNumElements 0
      lockRequest

end Code

section ExactArithmetic

variable (numElements elementSize : Nat)

/-- The number of elements of a request that lie inside the array. -/
def insideCount (info : MetaData) : Nat :=
  min numElements (info.elemIndex + info.numElements) - info.elemIndex

/-- The elements of the request that lie inside the array are those of the caller. -/
def sameElements (data : List UInt8) (info : MetaData) : Bool :=
  slice data (info.elemIndex * elementSize) (insideCount numElements info * elementSize) ==
    load info.elemPtr (insideCount numElements info * elementSize)

/-- The data with the elements of the caller put in. -/
def putElements (data : List UInt8) (info : MetaData) : List UInt8 :=
  overwrite data (info.elemIndex * elementSize)
    (load info.elemPtr (insideCount numElements info * elementSize))

/-- What a write of elements is for. -/
def writeElements (p : Mp) (info : MetaData) : LockRequest → Mp :=
  writeData (sameElements numElements elementSize) (putElements numElements elementSize) p
    (some info)

end ExactArithmetic

/-- A read puts the elements `[index, min numElements (index + count))` into the caller's buffer,
and nothing else. -/
def ReadsExactly (w numElements elementSize index count : Nat) : Prop :=
  ∀ (p : Mp) (dstData : Memory), p.data.length = numElements * elementSize → p.valid = true →
    readArrayElements w numElements elementSize p dstData count index =
      some (true, store dstData 0 (slice p.data (index * elementSize)
        ((min numElements (index + count) - index) * elementSize)))

/-- A write stays inside the storage; if the lock lets it, the bytes of the elements
`[index, min numElements (index + count))` are the caller's, and all others are as before. -/
def WritesExactly (w numElements elementSize index count : Nat) : Prop :=
  ∀ (p : Mp) (srcData : Memory) (lockRequest : LockRequest),
    p.data.length = numElements * elementSize →
      ∃ p', writeArrayElements w numElements elementSize p srcData count index lockRequest =
          some p' ∧
        ∀ i, p'.data[i]? =
          if (testAndUpdateLock p.locked lockRequest).2 = true ∧ index * elementSize ≤ i ∧
              i < min numElements (index + count) * elementSize
          then some (srcData (i - index * elementSize)) else p.data[i]?

/-- The request starts inside the array or at its end, and its end is a `size_t`; or it starts
behind the array and the byte count left of it after the wrapping is zero. -/
def Transferable (w numElements elementSize index count : Nat) : Prop :=
  (index ≤ numElements ∧ index + count < 2 ^ w) ∨
    (numElements < index ∧
      2 ^ w ∣ if numElements < (index + count) % 2 ^ w then (index - numElements) * elementSize
        else count * elementSize)

instance (w numElements elementSize index count : Nat) :
    Decidable (Transferable w numElements elementSize index count) :=
  inferInstanceAs (Decidable (_ ∨ _))

section Truncate

variable {w numElements elementSize : Nat}

theorem truncate_truncate (hnum : numElements < 2 ^ w) {info : MetaData}
    (hindex : info.elemIndex < 2 ^ w) :
    truncate w numElements (truncate w numElements info) = truncate w numElements info := by
  rcases Nat.lt_or_ge numElements ((info.elemIndex + info.numElements) % 2 ^ w) with hlt | hge
  · have hsum : (info.elemIndex + (numElements + 2 ^ w - info.elemIndex) % 2 ^ w) % 2 ^ w =
        numElements := by
      rw [Nat.add_mod_mod, Nat.add_sub_cancel' (by omega), Nat.add_mod_right,
        Nat.mod_eq_of_lt hnum]
    have htruncate : truncate w numElements info =
        { info with numElements := (numElements + 2 ^ w - info.elemIndex) % 2 ^ w } := if_pos hlt
    rw [htruncate]
    exact if_neg (by simp only [hsum]; omega)
  · have htruncate : truncate w numElements info = info := if_neg (Nat.not_lt.mpr hge)
    rw [htruncate, htruncate]

theorem truncate_of_le {info : MetaData} (hnum : numElements < 2 ^ w)
    (hindex : info.elemIndex ≤ numElements)
    (hend : info.elemIndex + info.numElements < 2 ^ w) :
    truncate w numElements info = { info with numElements := insideCount numElements info } := by
  rw [truncate, insideCount, Nat.mod_eq_of_lt hend]
  split_ifs with hlt
  · have hsub : (numElements + 2 ^ w - info.elemIndex) % 2 ^ w = numElements - info.elemIndex :=
      difference_of_le hindex hnum
    rw [hsub, Nat.min_eq_left (by omega)]
  · rw [Nat.min_eq_right (by omega), Nat.add_sub_cancel_left]

end Truncate

section Transferable

variable {w numElements elementSize : Nat} {info : MetaData}

variable (info) in
theorem byteCount_truncate_eq_zero (hindex : info.elemIndex < 2 ^ w)
    (hbehind : numElements < info.elemIndex) :
    byteCount w elementSize (truncate w numElements info) = 0 ↔
      2 ^ w ∣ if numElements < (info.elemIndex + info.numElements) % 2 ^ w
        then (info.elemIndex - numElements) * elementSize else info.numElements * elementSize := by
  rw [truncate]
  split_ifs with hlt
  · have hdistance : numElements + 2 ^ w - info.elemIndex =
        2 ^ w - (info.elemIndex - numElements) := by omega
    have hsum : (2 ^ w - (info.elemIndex - numElements)) * elementSize +
        (info.elemIndex - numElements) * elementSize = 2 ^ w * elementSize := by
      rw [← Nat.add_mul, Nat.sub_add_cancel (by omega)]
    have hwhole : 2 ^ w ∣ (2 ^ w - (info.elemIndex - numElements)) * elementSize +
        (info.elemIndex - numElements) * elementSize := by
      rw [hsum]
      exact Nat.dvd_mul_right _ _
    rw [byteCount, hdistance, Nat.mod_mul_mod, ← Nat.dvd_iff_mod_eq_zero]
    exact ⟨fun hdvd => (Nat.dvd_add_right hdvd).mp hwhole,
      fun hdvd => (Nat.dvd_add_left hdvd).mp hwhole⟩
  · rw [byteCount, ← Nat.dvd_iff_mod_eq_zero]

variable (info) in
/-- Inside the array, a request whose end wraps is not truncated and reaches beyond the storage. -/
theorem overrun_of_wrap (hsize : 0 < elementSize) (hstorage : numElements * elementSize < 2 ^ w)
    (hindex : info.elemIndex ≤ numElements) (hnum : info.numElements < 2 ^ w)
    (hwrap : 2 ^ w ≤ info.elemIndex + info.numElements) :
    byteCount w elementSize (truncate w numElements info) ≠ 0 ∧
      numElements * elementSize <
        byteOffset w elementSize (truncate w numElements info) +
          byteCount w elementSize (truncate w numElements info) := by
  have hle : numElements ≤ numElements * elementSize := Nat.le_mul_of_pos_right _ hsize
  have hsum : (info.elemIndex + info.numElements) % 2 ^ w =
      info.elemIndex + info.numElements - 2 ^ w := by
    rw [Nat.mod_eq_sub_mod hwrap, Nat.mod_eq_of_lt (by omega)]
  have htruncate : truncate w numElements info = info := if_neg (by rw [hsum]; omega)
  have hstart : info.elemIndex * elementSize ≤ numElements * elementSize :=
    Nat.mul_le_mul_right _ hindex
  have hoffset : byteOffset w elementSize info = info.elemIndex * elementSize :=
    Nat.mod_eq_of_lt (lt_of_le_of_lt hstart hstorage)
  -- the count is `2 ^ w - missing`, with `missing` at most the index
  obtain ⟨missing, hmissing⟩ : ∃ missing, missing + info.numElements = 2 ^ w :=
    ⟨2 ^ w - info.numElements, by omega⟩
  have hpos : 0 < missing * elementSize := Nat.mul_pos (by omega) hsize
  have hbelow : missing * elementSize ≤ info.elemIndex * elementSize :=
    Nat.mul_le_mul_right _ (by omega)
  have hcount : byteCount w elementSize info = 2 ^ w - missing * elementSize := by
    have htotal : missing * elementSize + info.numElements * elementSize =
        2 ^ w + 2 ^ w * (elementSize - 1) := by
      rw [← Nat.add_mul, hmissing, Nat.add_comm, ← Nat.mul_add_one, Nat.sub_add_cancel hsize]
    have hbytes : info.numElements * elementSize =
        2 ^ w - missing * elementSize + 2 ^ w * (elementSize - 1) := by
      omega
    rw [byteCount, hbytes, Nat.add_mul_mod_self_left, Nat.mod_eq_of_lt (by omega)]
  rw [htruncate, hoffset, hcount]
  omega

theorem truncate_of_transferable (hsize : 0 < elementSize)
    (hstorage : numElements * elementSize < 2 ^ w) (hindex : info.elemIndex < 2 ^ w)
    (htransfer : Transferable w numElements elementSize info.elemIndex info.numElements) :
    (truncate w numElements info).elemPtr = info.elemPtr ∧
      byteCount w elementSize (truncate w numElements info) =
        insideCount numElements info * elementSize ∧
      (insideCount numElements info * elementSize = 0 ∨
        byteOffset w elementSize (truncate w numElements info) = info.elemIndex * elementSize ∧
          info.elemIndex * elementSize + insideCount numElements info * elementSize ≤
            numElements * elementSize) := by
  have hptr : (truncate w numElements info).elemPtr = info.elemPtr := by
    rw [truncate]
    split_ifs <;> rfl
  refine ⟨hptr, ?_⟩
  rcases htransfer with ⟨hinside, hend⟩ | ⟨hbehind, hdvd⟩
  · have hnum : numElements < 2 ^ w :=
      lt_of_le_of_lt (Nat.le_mul_of_pos_right _ hsize) hstorage
    have hcover : info.elemIndex * elementSize + insideCount numElements info * elementSize ≤
        numElements * elementSize := by
      rw [← Nat.add_mul]
      exact Nat.mul_le_mul_right _ (by rw [insideCount]; omega)
    have hbytes : insideCount numElements info * elementSize < 2 ^ w := by omega
    have hstart : info.elemIndex * elementSize < 2 ^ w := by omega
    rw [truncate_of_le hnum hinside hend]
    exact ⟨Nat.mod_eq_of_lt hbytes, .inr ⟨Nat.mod_eq_of_lt hstart, hcover⟩⟩
  · have hnone : insideCount numElements info * elementSize = 0 := by
      rw [insideCount, Nat.sub_eq_zero_of_le (by omega), Nat.zero_mul]
    rw [hnone]
    exact ⟨(byteCount_truncate_eq_zero info hindex hbehind).mpr hdvd, .inl rfl⟩

end Transferable

section Exact

variable {w numElements elementSize : Nat} {info : MetaData} {data : List UInt8}

variable (info) in
theorem stretch_of_transferable (hsize : 0 < elementSize)
    (hstorage : numElements * elementSize < 2 ^ w) (hindex : info.elemIndex < 2 ^ w)
    (htransfer : Transferable w numElements elementSize info.elemIndex info.numElements)
    (hdata : data.length = numElements * elementSize) :
    stretch data (byteOffset w elementSize (truncate w numElements info))
        (byteCount w elementSize (truncate w numElements info)) =
      some (slice data (info.elemIndex * elementSize)
        (insideCount numElements info * elementSize)) := by
  obtain ⟨-, hcount, hnone | ⟨hoffset, hcover⟩⟩ :=
    truncate_of_transferable hsize hstorage hindex htransfer
  · rw [hcount, hnone, stretch, if_pos (.inl rfl)]
    simp [slice]
  · rw [hcount, hoffset, stretch, if_pos (.inr (by rw [hdata]; exact hcover))]

theorem isDataEqual_of_transferable (hsize : 0 < elementSize)
    (hstorage : numElements * elementSize < 2 ^ w) (hindex : info.elemIndex < 2 ^ w)
    (htransfer : Transferable w numElements elementSize info.elemIndex info.numElements)
    (hdata : data.length = numElements * elementSize) :
    isDataEqual w numElements elementSize data info =
      some (sameElements numElements elementSize data info) := by
  obtain ⟨hptr, hcount, -⟩ := truncate_of_transferable hsize hstorage hindex htransfer
  simp only [isDataEqual, stretch_of_transferable info hsize hstorage hindex htransfer hdata]
  rw [hptr, hcount]
  rfl

theorem copyDataFrom_of_transferable (hsize : 0 < elementSize)
    (hstorage : numElements * elementSize < 2 ^ w) (hindex : info.elemIndex < 2 ^ w)
    (htransfer : Transferable w numElements elementSize info.elemIndex info.numElements)
    (hdata : data.length = numElements * elementSize) :
    copyDataFrom w numElements elementSize data info =
      some (putElements numElements elementSize data info) := by
  obtain ⟨hptr, hcount, hplace⟩ := truncate_of_transferable hsize hstorage hindex htransfer
  simp only [copyDataFrom, stretch_of_transferable info hsize hstorage hindex htransfer hdata,
    Option.map_some]
  rw [hptr, hcount, putElements]
  rcases hplace with hnone | ⟨hoffset, -⟩
  · rw [hnone]
    simp [load]
  · rw [hoffset]

variable (info) in
theorem writeArrayElements_of_transferable (hsize : 0 < elementSize)
    (hstorage : numElements * elementSize < 2 ^ w) (hindex : info.elemIndex < 2 ^ w)
    (htransfer : Transferable w numElements elementSize info.elemIndex info.numElements) {p : Mp}
    (hdata : p.data.length = numElements * elementSize) (lockRequest : LockRequest) :
    writeArrayElements w numElements elementSize p info.elemPtr info.numElements info.elemIndex
        lockRequest =
      some (writeElements numElements elementSize p info lockRequest) := by
  have hnum : numElements < 2 ^ w :=
    lt_of_le_of_lt (Nat.le_mul_of_pos_right _ hsize) hstorage
  have hequal := isDataEqual_of_transferable hsize hstorage hindex htransfer hdata
  have hcopy := copyDataFrom_of_transferable hsize hstorage hindex htransfer hdata
  have hagain : copyDataFrom w numElements elementSize p.data (truncate w numElements info) =
      copyDataFrom w numElements elementSize p.data info := by
    simp only [copyDataFrom, truncate_truncate hnum hindex]
  simp only [writeArrayElements, hequal, hagain, hcopy, Option.map_some]
  show _ = some (lockedUpdate p lockRequest fun q => q.write
    (fun data _ => sameElements numElements elementSize data info)
    (putElements numElements elementSize q.data info))
  rw [lockedUpdate]
  split_ifs with hpermit hvalid
  · simp [Point.write, hvalid]
  · cases hsame : sameElements numElements elementSize p.data info with
    | true => simp [Point.write, hvalid, hsame]
    | false => simp [Point.write, hvalid, hsame]
  · rfl

/-- The bytes of the elements that exact arithmetic selects, none behind the array. -/
theorem insideCount_cover (elementSize : Nat) (info : MetaData) :
    numElements ≤ info.elemIndex ∧ insideCount numElements info * elementSize = 0 ∨
      info.elemIndex * elementSize + insideCount numElements info * elementSize =
        min numElements (info.elemIndex + info.numElements) * elementSize := by
  rcases Nat.lt_or_ge info.elemIndex numElements with hinside | hbehind
  · refine .inr ?_
    rw [← Nat.add_mul, insideCount]
    congr 1
    omega
  · refine .inl ⟨hbehind, ?_⟩
    rw [insideCount, Nat.sub_eq_zero_of_le (by omega), Nat.zero_mul]

theorem getElem?_putElements (hdata : data.length = numElements * elementSize) (i : Nat) :
    (putElements numElements elementSize data info)[i]? =
      if info.elemIndex * elementSize ≤ i ∧
          i < min numElements (info.elemIndex + info.numElements) * elementSize
      then some (info.elemPtr (i - info.elemIndex * elementSize)) else data[i]? := by
  have hmin : min numElements (info.elemIndex + info.numElements) * elementSize ≤
      numElements * elementSize := Nat.mul_le_mul_right _ (Nat.min_le_left _ _)
  rw [putElements]
  rcases insideCount_cover elementSize info with ⟨hbehind, hnone⟩ | hcover
  · have hstart : numElements * elementSize ≤ info.elemIndex * elementSize :=
      Nat.mul_le_mul_right _ hbehind
    rw [hnone, if_neg (by omega)]
    simp [load]
  · rw [getElem?_overwrite _ _ _ _ (by omega), length_load, hcover]
    split_ifs with hbefore hin hinside hinside
    · omega
    · rfl
    · rw [getElem?_load _ (by omega)]
    · omega
    · omega
    · rfl

theorem putElements_of_sameElements (hdata : data.length = numElements * elementSize)
    (hequal : sameElements numElements elementSize data info = true) :
    putElements numElements elementSize data info = data := by
  have hmin : min numElements (info.elemIndex + info.numElements) * elementSize ≤
      numElements * elementSize := Nat.mul_le_mul_right _ (Nat.min_le_left _ _)
  rw [sameElements, beq_iff_eq] at hequal
  rw [putElements, ← hequal]
  rcases insideCount_cover elementSize info with ⟨-, hnone⟩ | hcover
  · rw [hnone]
    simp [slice]
  · exact overwrite_slice _ _ _ (by omega)

theorem data_writeElements {p : Mp} (hdata : p.data.length = numElements * elementSize)
    (info : MetaData) (lockRequest : LockRequest) :
    (writeElements numElements elementSize p info lockRequest).data =
      if (testAndUpdateLock p.locked lockRequest).2
      then putElements numElements elementSize p.data info else p.data := by
  show (lockedUpdate p lockRequest fun q => q.write
    (fun data _ => sameElements numElements elementSize data info)
    (putElements numElements elementSize q.data info)).data = _
  rw [lockedUpdate]
  split_ifs with hpermit
  · show (Point.write _ p.toPoint _).data = _
    rw [Point.write]
    split_ifs with hwrite
    · rfl
    · rw [not_or, Bool.not_eq_false, Bool.not_eq_false] at hwrite
      exact (putElements_of_sameElements hdata hwrite.2).symm
  · rfl

theorem writesExactly_of_transferable (hsize : 0 < elementSize)
    (hstorage : numElements * elementSize < 2 ^ w) {index count : Nat} (hindex : index < 2 ^ w)
    (htransfer : Transferable w numElements elementSize index count) :
    WritesExactly w numElements elementSize index count := by
  intro p srcData lockRequest hdata
  refine ⟨_, writeArrayElements_of_transferable ⟨srcData, count, index⟩ hsize hstorage hindex
    htransfer hdata lockRequest, ?_⟩
  intro i
  rw [data_writeElements hdata]
  cases (testAndUpdateLock p.locked lockRequest).2 with
  | false => simp
  | true =>
      rw [if_pos rfl, getElem?_putElements hdata]
      simp only [true_and]

theorem readsExactly_of_transferable (hsize : 0 < elementSize)
    (hstorage : numElements * elementSize < 2 ^ w) {index count : Nat} (hindex : index < 2 ^ w)
    (htransfer : Transferable w numElements elementSize index count) :
    ReadsExactly w numElements elementSize index count := by
  intro p dstData hdata hvalid
  have hstretch := stretch_of_transferable ⟨dstData, count, index⟩ hsize hstorage hindex
    htransfer hdata
  rw [readArrayElements, if_pos hvalid]
  simp only [copyDataTo, hstretch, Option.map_some, insideCount]

theorem copyDataFrom_eq_some {data' : List UInt8}
    (hcopy : copyDataFrom w numElements elementSize data info = some data') :
    (byteCount w elementSize (truncate w numElements info) = 0 ∨
        byteOffset w elementSize (truncate w numElements info) +
          byteCount w elementSize (truncate w numElements info) ≤ data.length) ∧
      data' = overwrite data (byteOffset w elementSize (truncate w numElements info))
        (load (truncate w numElements info).elemPtr
          (byteCount w elementSize (truncate w numElements info))) := by
  obtain ⟨bytes, hstretch, hdata'⟩ := Option.map_eq_some_iff.mp hcopy
  exact ⟨(Option.ite_none_right_eq_some.mp hstretch).1, hdata'.symm⟩

/-- A write of ones over an invalid array of zeros tells where it goes. -/
theorem transferable_of_writesExactly (hsize : 0 < elementSize)
    (hstorage : numElements * elementSize < 2 ^ w) {index count : Nat} (hindex : index < 2 ^ w)
    (hcount : count < 2 ^ w) (hwrites : WritesExactly w numElements elementSize index count) :
    Transferable w numElements elementSize index count := by
  have hzeros : (List.replicate (numElements * elementSize) (0 : UInt8)).length =
      numElements * elementSize := List.length_replicate
  let info : MetaData := { elemPtr := fun _ => 1, numElements := count, elemIndex := index }
  obtain ⟨p', hwrite, hbytes⟩ := hwrites
    { Point.init (List.replicate (numElements * elementSize) 0) false with locked := false }
    info.elemPtr .noRequest hzeros
  obtain ⟨data, hcopy, hp'⟩ : ∃ data, copyDataFrom w numElements elementSize
      (List.replicate (numElements * elementSize) 0) info = some data ∧ _ = p' :=
    Option.map_eq_some_iff.mp hwrite
  obtain ⟨hfits, hdata⟩ := copyDataFrom_eq_some hcopy
  rw [hzeros] at hfits
  rcases Nat.lt_or_ge numElements index with hbehind | hinside
  · refine .inr ⟨hbehind, (byteCount_truncate_eq_zero info hindex hbehind).mp ?_⟩
    rcases hfits with hnone | hfits
    · exact hnone
    by_contra hsome
    have hone : data[byteOffset w elementSize (truncate w numElements info)]? = some 1 := by
      rw [hdata, getElem?_overwrite _ _ _ _ (by rw [hzeros]; omega), if_neg (by omega),
        length_load, if_pos (by omega), getElem?_load _ (by omega), truncate]
      split_ifs <;> rfl
    have hbyte := hbytes (byteOffset w elementSize (truncate w numElements info))
    have hstart : numElements * elementSize ≤ index * elementSize :=
      Nat.mul_le_mul_right _ hbehind.le
    have hmin : min numElements (index + count) * elementSize ≤ numElements * elementSize :=
      Nat.mul_le_mul_right _ (Nat.min_le_left _ _)
    rw [if_neg (by omega), ← hp'] at hbyte
    have hzero : data[byteOffset w elementSize (truncate w numElements info)]? = some 0 :=
      hbyte.trans (List.getElem?_replicate_of_lt (by omega))
    rw [hone] at hzero
    exact absurd hzero (by decide)
  · refine .inl ⟨hinside, ?_⟩
    by_contra hwrap
    obtain ⟨hsome, hover⟩ := overrun_of_wrap info hsize hstorage hinside hcount (by
      show 2 ^ w ≤ index + count
      omega)
    omega

/-- Reads and writes of elements are those of exact arithmetic, just when the request is
transferable. -/
theorem readsExactly_and_writesExactly_iff (hsize : 0 < elementSize)
    (hstorage : numElements * elementSize < 2 ^ w) {index count : Nat} (hindex : index < 2 ^ w)
    (hcount : count < 2 ^ w) :
    ReadsExactly w numElements elementSize index count ∧
        WritesExactly w numElements elementSize index count ↔
      Transferable w numElements elementSize index count := by
  constructor
  · rintro ⟨-, hwrites⟩
    exact transferable_of_writesExactly hsize hstorage hindex hcount hwrites
  · intro htransfer
    exact ⟨readsExactly_of_transferable hsize hstorage hindex htransfer,
      writesExactly_of_transferable hsize hstorage hindex htransfer⟩

/-- Four elements of two bytes, ten requested from the second on. -/
theorem readsExactly_and_writesExactly_four :
    0 < 2 ∧ 4 * 2 < 2 ^ 32 ∧ 1 < 2 ^ 32 ∧ 10 < 2 ^ 32 ∧
      ReadsExactly 32 4 2 1 10 ∧ WritesExactly 32 4 2 1 10 :=
  ⟨by decide, by decide, by decide, by decide,
    (readsExactly_and_writesExactly_iff (by decide) (by decide) (by decide) (by decide)).mpr
      (by decide)⟩

/-- One element behind an array of eight bytes: the write leaves the storage. -/
theorem not_writesExactly_behind : ¬ WritesExactly 32 8 1 10 1 := by
  intro hwrites
  obtain ⟨p', hwrite, -⟩ := hwrites
    { Point.init [0, 0, 0, 0, 0, 0, 0, 0] false with locked := false } (fun _ => 1) .noRequest rfl
  have hnone : none = some p' := hwrite
  cases hnone

end Exact

end ColonyPico.Dm.ArrayElements
