import ColonyPico.Persistent.Media

/-!
A record stored twice, so that a copy survives a power failure during a write
(`Cpl::Persistent::MirroredChunk`).
-/

namespace ColonyPico.Persistent.MirroredChunk

open ColonyPico.Checksum.Crc32EthernetFast
open ColonyPico.Foundations.ByteStore
open ColonyPico.Persistent.Media

inductive Side where
  | a
  | b
  deriving DecidableEq, Repr

/-- The chunk's two regions and its members. `currentRegion` is null until a
`loadData()`. -/
structure Chunk where
  regionA : RegionMedia
  regionB : RegionMedia
  transId : Nat
  dataLen : Nat
  currentRegion : Option Side
  deriving DecidableEq, Repr

namespace Chunk

def region (c : Chunk) : Side → RegionMedia
  | .a => c.regionA
  | .b => c.regionB

def setRegion (c : Chunk) (side : Side) (r : RegionMedia) : Chunk :=
  match side with
  | .a => { c with regionA := r }
  | .b => { c with regionB := r }

end Chunk

/-- `sizeof(uint64_t)`, the size of a transaction ID. -/
def transIdSize : Nat := 8

/-- `FRAME_OFFSET_DATA`: the transaction ID and the length field. -/
def frameOffsetData (P : Platform) : Nat :=
  transIdSize + P.sizeofSizeT

def frameOverhead (P : Platform) : Nat :=
  frameOffsetData P + crcSize

/-- `start()`, with its assertion. -/
def start (regionA regionB : RegionMedia) : Option Chunk :=
  if regionA.regionLength = regionB.regionLength then
    some
      { regionA := regionA
        regionB := regionB
        transId := 0
        dataLen := 0
        currentRegion := none }
  else none

/-- What a `getTransactionId()` call leaves behind. `dataLen` is only meaningful
when `transId` is not zero. -/
structure Probe where
  region : RegionMedia
  work : List UInt8
  transId : Nat
  dataLen : Nat
  deriving DecidableEq, Repr

/-- `getTransactionId()`: zero when the region is corrupt. -/
def getTransactionId (P : Platform) (pace : ReadPace) (region : RegionMedia)
    (work : List UInt8) (index : Nat) : Probe :=
  let failed (region : RegionMedia) (work : List UInt8) : Probe :=
    { region := region, work := work, transId := 0, dataLen := 0 }
  let tid := region.read pace index transIdSize
  if tid.1.length = transIdSize then
    let len := tid.2.read pace (index + transIdSize) P.sizeofSizeT
    if len.1.length = P.sizeofSizeT then
      let dataLen := Foundations.ByteStore.ofBytes len.1
      -- `dataLen + CRC_SIZE` rolls over for a length near the top of `size_t`
      let dataRemaining := (dataLen + crcSize) % P.sizeModulus
      if dataRemaining ≤ P.workBufferSize ∧ dataLen < dataRemaining then
        let body := readBody pace dataRemaining
          { region := len.2
            crc := accumulate (accumulate reset tid.1) len.1
            work := work }
          (index + frameOffsetData P) dataRemaining
        if isOkay body.crc then
          { region := body.region
            work := body.work
            transId := Foundations.ByteStore.ofBytes tid.1
            dataLen := dataLen }
        else failed body.region body.work
      else failed len.2 work
    else failed len.2 work
  else failed tid.2 work

/-- What a `loadData()` call leaves behind. `delivered` are the bytes given to the
payload handler, when it is called at all; `asserted` says that the closing
assertion holds. -/
structure Load where
  chunk : Chunk
  work : List UInt8
  delivered : Option (List UInt8)
  result : Bool
  asserted : Bool

/-- `loadData()`. Both regions are read through the one work buffer before either
is selected. -/
def loadData (P : Platform) (pace : ReadPace) (c : Chunk) (work : List UInt8)
    (dstHandler : Payload) (index : Nat) : Load :=
  let probeA := getTransactionId P pace c.regionA work index
  let probeB := getTransactionId P pace c.regionB probeA.work index
  let read : Chunk := { c with regionA := probeA.region, regionB := probeB.region }
  let push (side : Side) (transId dataLen : Nat) : Load :=
    { chunk := { read with transId := transId, dataLen := dataLen, currentRegion := some side }
      work := probeB.work
      delivered := some (probeB.work.take dataLen)
      result := dstHandler.putData (probeB.work.take dataLen)
      asserted := dataLen ≤ (c.region side).regionLength }
  if probeA.transId = 0 ∧ probeB.transId = 0 then
    { chunk :=
        { read with
          transId := 0
          dataLen := c.regionA.regionLength - frameOverhead P
          currentRegion := some .a }
      work := probeB.work
      delivered := none
      result := false
      asserted := c.regionA.regionLength - frameOverhead P ≤ c.regionA.regionLength }
  else if probeA.transId > probeB.transId then push .a probeA.transId probeA.dataLen
  else push .b probeB.transId probeB.dataLen

/-- A `write()` call on one of the two regions. -/
structure MediaWrite where
  side : Side
  offset : Nat
  bytes : List UInt8
  deriving DecidableEq, Repr

/-- Issue the writes in order; the result is the conjunction of theirs. -/
def issue (c : Chunk) : List MediaWrite → Bool × Chunk
  | [] => (true, c)
  | w :: writes =>
      let written := (c.region w.side).write w.offset w.bytes
      let rest := issue (c.setRegion w.side written.2) writes
      (written.1 && rest.1, rest.2)

/-- The writes of fields stored one after the other from `offset` on. -/
def adjacent (side : Side) (offset : Nat) : List (List UInt8) → List MediaWrite
  | [] => []
  | field :: fields => ⟨side, offset, field⟩ :: adjacent side (offset + field.length) fields

/-- The fields of one copy: transaction ID, data length, payload and CRC. -/
def copyFields (P : Platform) (transId : Nat) (data : List UInt8) (invalidate : Bool) :
    List (List UInt8) :=
  let tid := toBytes transIdSize transId
  let len := toBytes P.sizeofSizeT data.length
  [tid, len, data,
    crcBuffer (accumulate (accumulate (accumulate reset tid) len) data) invalidate]

/-- The region selected after `side`; the code compares with region A only. -/
def toggle : Option Side → Side
  | some .a => .b
  | _ => .a

/-- One pass of the loop of `updateData()`, with the writes it issues. -/
def updateCopy (P : Platform) (c : Chunk) (data : List UInt8) (index : Nat)
    (invalidate : Bool) : Bool × Chunk × List MediaWrite :=
  let side := toggle c.currentRegion
  let transId := (c.transId + 1) % 2 ^ 64
  let writes := adjacent side index (copyFields P transId data invalidate)
  let issued := issue { c with currentRegion := some side, transId := transId } writes
  (issued.1, issued.2, writes)

/-- What an `updateData()` call leaves behind, with all the writes it issued. -/
structure Update where
  chunk : Chunk
  work : List UInt8
  result : Bool
  writes : List MediaWrite

/-- `updateData()`; `none` when its assertion fails. The result is that of the
second copy only. -/
def updateData (P : Platform) (c : Chunk) (srcHandler : Payload) (index : Nat)
    (invalidate : Bool) : Option Update :=
  if c.currentRegion = none then none
  else
    let zeroed := List.replicate P.workBufferSize 0
    let data := srcHandler.getData c.dataLen
    let len := data.length
    let pulled := overwrite zeroed 0 data
    if len = 0 then
      some { chunk := c, work := pulled, result := false, writes := [] }
    else
      let work := if invalidate then zeroed else pulled
      let first := updateCopy P { c with dataLen := len } (work.take len) index invalidate
      let second := updateCopy P first.2.1 (work.take len) index invalidate
      some
        { chunk := second.2.1
          work := work
          result := second.1
          writes := first.2.2 ++ second.2.2 }

/-- The regions when power is lost after `cut` bytes of the writes reached the
media. -/
def powerCut (c : Chunk) : List MediaWrite → Nat → Chunk
  | [], _ => c
  | w :: writes, cut =>
      if cut < w.bytes.length then
        c.setRegion w.side ((c.region w.side).write w.offset (w.bytes.take cut)).2
      else
        powerCut (c.setRegion w.side ((c.region w.side).write w.offset w.bytes).2) writes
          (cut - w.bytes.length)

section Regions

variable (c : Chunk) (side : Side) (r : RegionMedia)

@[simp] theorem region_setRegion : (c.setRegion side r).region side = r := by
  cases side <;> rfl

@[simp] theorem setRegion_setRegion (r' : RegionMedia) :
    (c.setRegion side r).setRegion side r' = c.setRegion side r' := by
  cases side <;> rfl

@[simp] theorem setRegion_region : c.setRegion side (c.region side) = c := by
  cases side <;> rfl

end Regions

/-- The region `side` with `src` stored at `offset`. -/
def store (c : Chunk) (side : Side) (offset : Nat) (src : List UInt8) : Chunk :=
  c.setRegion side
    { c.region side with bytes := overwrite (c.region side).bytes offset src }

@[simp] theorem store_nil (c : Chunk) (side : Side) (offset : Nat) :
    store c side offset [] = c := by
  simp only [store, overwrite_nil]
  exact setRegion_region c side

theorem store_store (c : Chunk) (side : Side) (offset : Nat) (xs ys : List UInt8)
    (h : offset + xs.length ≤ (c.region side).bytes.length) :
    store (store c side offset xs) side (offset + xs.length) ys =
      store c side offset (xs ++ ys) := by
  simp only [store, region_setRegion, setRegion_setRegion,
    overwrite_overwrite_append _ _ _ _ h]

theorem length_store (c : Chunk) (side : Side) (offset : Nat) (src : List UInt8)
    (h : offset + src.length ≤ (c.region side).bytes.length) :
    ((store c side offset src).region side).bytes.length = (c.region side).bytes.length := by
  rw [store, region_setRegion]
  exact length_overwrite _ _ _ h

theorem setRegion_write (c : Chunk) (side : Side) (offset : Nat) (src : List UInt8)
    (h : offset + src.length ≤ (c.region side).bytes.length) :
    c.setRegion side ((c.region side).write offset src).2 = store c side offset src := by
  rw [write_of_fits _ _ _ h, store]

/-- Adjacent fields that fit are stored as one stretch of bytes. -/
theorem issue_adjacent (c : Chunk) (side : Side) (offset : Nat) (fields : List (List UInt8))
    (h : offset + fields.flatten.length ≤ (c.region side).bytes.length) :
    issue c (adjacent side offset fields) = (true, store c side offset fields.flatten) := by
  induction fields generalizing c offset with
  | nil => simp [issue, adjacent]
  | cons field fields ih =>
      rw [List.flatten_cons, List.length_append] at h
      have hfield : offset + field.length ≤ (c.region side).bytes.length := by omega
      have hlen := length_store c side offset field hfield
      simp only [adjacent, issue, setRegion_write c side offset field hfield]
      rw [ih _ _ (by omega), store_store c side offset field _ hfield,
        write_of_fits _ _ _ hfield]
      simp

/-- Power lost while adjacent fields are written leaves a prefix of them stored. -/
theorem powerCut_adjacent (c : Chunk) (side : Side) (offset : Nat)
    (fields : List (List UInt8)) (writes : List MediaWrite) (cut : Nat)
    (h : offset + fields.flatten.length ≤ (c.region side).bytes.length) :
    powerCut c (adjacent side offset fields ++ writes) cut =
      if cut < fields.flatten.length then store c side offset (fields.flatten.take cut)
      else powerCut (store c side offset fields.flatten) writes
        (cut - fields.flatten.length) := by
  induction fields generalizing c offset cut with
  | nil => simp [adjacent]
  | cons field fields ih =>
      rw [List.flatten_cons, List.length_append] at h
      have hfield : offset + field.length ≤ (c.region side).bytes.length := by omega
      have hlen := length_store c side offset field hfield
      simp only [adjacent, List.cons_append, powerCut, List.flatten_cons, List.length_append]
      split_ifs with hin hall hall
      · rw [setRegion_write c side offset _ (by simp only [List.length_take]; omega),
          List.take_append_of_le_length (by omega)]
      · omega
      · rw [setRegion_write c side offset field hfield, ih _ _ _ (by omega), if_pos (by omega),
          store_store c side offset field _ hfield, List.take_append,
          List.take_of_length_le (by omega : field.length ≤ cut)]
      · rw [setRegion_write c side offset field hfield, ih _ _ _ (by omega), if_neg (by omega),
          store_store c side offset field _ hfield, Nat.sub_sub]

/-- The bytes of one copy of a payload. -/
def frame (P : Platform) (transId : Nat) (payload : List UInt8) : List UInt8 :=
  (copyFields P transId payload false).flatten

/-- The CRC of a frame's header. -/
def headerCrc (P : Platform) (transId length : Nat) : Crc32 :=
  accumulate (accumulate reset (toBytes transIdSize transId)) (toBytes P.sizeofSizeT length)

theorem frame_def (P : Platform) (transId : Nat) (payload : List UInt8) :
    frame P transId payload = (copyFields P transId payload false).flatten :=
  rfl

theorem frame_eq (P : Platform) (transId : Nat) (payload : List UInt8) :
    frame P transId payload =
      toBytes transIdSize transId ++ (toBytes P.sizeofSizeT payload.length ++
        (payload ++ finalize (accumulate (headerCrc P transId payload.length) payload))) := by
  simp [frame, copyFields, headerCrc, crcBuffer]

theorem length_frame (P : Platform) (transId : Nat) (payload : List UInt8) :
    (frame P transId payload).length = frameOffsetData P + (payload.length + crcSize) := by
  simp only [frame_eq, List.length_append, length_toBytes, finalize_length, frameOffsetData,
    crcSize]
  omega

/-- Both header fields come back complete when the next read is the `reads`-th. -/
def HeaderFull (P : Platform) (pace : ReadPace) (reads : Nat) : Prop :=
  pace.count reads transIdSize = transIdSize ∧
    pace.count (reads + 1) P.sizeofSizeT = P.sizeofSizeT

/-- Where the read loop of `getTransactionId()` starts on a region. -/
def bodyStart (P : Platform) (region : RegionMedia) (work : List UInt8)
    (transId length : Nat) : BodyRead :=
  { region := { region with reads := region.reads + 2 }
    crc := headerCrc P transId length
    work := work }

section Probing

variable (P : Platform) (pace : ReadPace) (region : RegionMedia) (work : List UInt8)
  (index transId : Nat) (payload : List UInt8)
  (hold : Holds region.bytes index (frame P transId payload))
include hold

theorem holds_header :
    slice region.bytes index transIdSize = toBytes transIdSize transId ∧
      slice region.bytes (index + transIdSize) P.sizeofSizeT =
        toBytes P.sizeofSizeT payload.length ∧
      index + frameOffsetData P + (payload.length + crcSize) ≤ region.bytes.length := by
  have hfit := hold.1
  rw [length_frame] at hfit
  rw [frame_eq] at hold
  obtain ⟨htid, hrest⟩ := holds_append hold
  obtain ⟨hlen, -⟩ := holds_append hrest
  simp only [length_toBytes] at hlen hrest
  refine ⟨?_, ?_, by omega⟩
  · simpa only [length_toBytes] using htid.2
  · simpa only [length_toBytes] using hlen.2

theorem holdsBody_of_frame :
    HoldsBody (bodyStart P region work transId payload.length)
      (index + frameOffsetData P) payload := by
  rw [frame_eq] at hold
  obtain ⟨-, hrest⟩ := holds_append hold
  obtain ⟨-, hbody⟩ := holds_append hrest
  simp only [length_toBytes, Nat.add_assoc] at hbody
  exact hbody

theorem getTransactionId_of_short_header (hshort : ¬ HeaderFull P pace region.reads) :
    (getTransactionId P pace region work index).transId = 0 ∧
      (getTransactionId P pace region work index).work = work := by
  obtain ⟨-, -, hfit⟩ := holds_header P region index transId payload hold
  simp only [frameOffsetData] at hfit
  have htid := length_read_of_fits pace region index transIdSize (by omega)
  have hlen := length_read_of_fits pace (region.read pace index transIdSize).2
    (index + transIdSize) P.sizeofSizeT (by simp only [bytes_read]; omega)
  rw [reads_read] at hlen
  simp only [getTransactionId, htid, hlen]
  split_ifs with h1 h2 h3
  · exact absurd ⟨h1, h2⟩ hshort
  · exact absurd ⟨h1, h2⟩ hshort
  · exact absurd ⟨h1, h2⟩ hshort
  · exact ⟨rfl, rfl⟩
  · exact ⟨rfl, rfl⟩

/-- A region with a good frame and a complete header answers with the frame's
transaction ID and length, and the work buffer is as the read loop left it. -/
theorem getTransactionId_of_full_header (htrans : transId < 2 ^ 64)
    (hbuffer : payload.length + crcSize ≤ P.workBufferSize)
    (hfull : HeaderFull P pace region.reads) :
    (getTransactionId P pace region work index).transId = transId ∧
      (getTransactionId P pace region work index).dataLen = payload.length ∧
      (getTransactionId P pace region work index).work =
        (readBody pace (payload.length + crcSize)
          (bodyStart P region work transId payload.length) (index + frameOffsetData P)
          (payload.length + crcSize)).work := by
  obtain ⟨htid, hlen, hfit⟩ := holds_header P region index transId payload hold
  simp only [frameOffsetData] at hfit
  have hreadTid := read_of_fits pace region index transIdSize (by omega)
  rw [hfull.1, htid] at hreadTid
  have hreadLen := read_of_fits pace { region with reads := region.reads + 1 }
    (index + transIdSize) P.sizeofSizeT (by simp only; omega)
  simp only [hfull.2, hlen] at hreadLen
  have hmod := P.addressable
  have hdecodeTid : Foundations.ByteStore.ofBytes (toBytes transIdSize transId) = transId :=
    ofBytes_toBytes _ _ (by simpa [transIdSize] using htrans)
  have hdecodeLen : Foundations.ByteStore.ofBytes (toBytes P.sizeofSizeT payload.length) =
      payload.length := ofBytes_toBytes _ _ (by omega)
  have hremaining : (payload.length + crcSize) % P.sizeModulus = payload.length + crcSize :=
    Nat.mod_eq_of_lt (by simp only [Platform.sizeModulus]; omega)
  have haccept : payload.length + crcSize ≤ P.workBufferSize ∧
      payload.length < payload.length + crcSize := ⟨hbuffer, by simp [crcSize]⟩
  have hokay := readBody_isOkay pace _ _ payload
    (holdsBody_of_frame P region work index transId payload hold)
  simp only [bodyStart, headerCrc] at hokay
  simp only [getTransactionId, hreadTid, hreadLen, length_toBytes, if_true, hdecodeTid,
    hdecodeLen, hremaining, if_pos haccept, hokay, bodyStart, headerCrc, and_self]

end Probing

/-- The other region. -/
def Side.other : Side → Side
  | .a => .b
  | .b => .a

@[simp] theorem toggle_some (side : Side) : toggle (some side) = side.other := by
  cases side <;> rfl

/-- A payload fits when it is not empty, the chunk offers room for it, its frame
lies in both regions, which are of one length, and the work buffer holds it with
its CRC. -/
structure Fits (P : Platform) (c : Chunk) (index length : Nat) : Prop where
  pos : 0 < length
  room : length ≤ c.dataLen
  region : index + (frameOffsetData P + (length + crcSize)) ≤ c.regionA.bytes.length
  buffer : length + crcSize ≤ P.workBufferSize
  mirrored : c.regionA.bytes.length = c.regionB.bytes.length

theorem Fits.side {P : Platform} {c : Chunk} {index length : Nat} (h : Fits P c index length)
    (side : Side) :
    index + (frameOffsetData P + (length + crcSize)) ≤ (c.region side).bytes.length := by
  have hregion := h.region
  have hmirrored := h.mirrored
  cases side <;> simp only [Chunk.region] <;> omega

/-- The transaction ID after one copy; it rolls over. -/
def nextId (transId : Nat) : Nat :=
  (transId + 1) % 2 ^ 64

theorem nextId_lt (transId : Nat) : nextId transId < 2 ^ 64 :=
  Nat.mod_lt _ (by norm_num)

/-- The transaction ID that an update with `side` as the current region leaves in
a region. -/
def writtenId (c : Chunk) (side : Side) (s : Side) : Nat :=
  if s = side then nextId (nextId c.transId) else nextId c.transId

theorem writtenId_lt (c : Chunk) (side s : Side) : writtenId c side s < 2 ^ 64 := by
  rw [writtenId]
  split_ifs <;> exact nextId_lt _

/-- The chunk after both copies were written, the current region last. -/
def updated (P : Platform) (c : Chunk) (side : Side) (index : Nat) (payload : List UInt8) :
    Chunk :=
  store
    (store
      { c with
        transId := nextId (nextId c.transId)
        dataLen := payload.length
        currentRegion := some side }
      side.other index (frame P (nextId c.transId) payload))
    side index (frame P (nextId (nextId c.transId)) payload)

/-- The writes of an update, the current region last. -/
def updateWrites (P : Platform) (c : Chunk) (side : Side) (index : Nat)
    (payload : List UInt8) : List MediaWrite :=
  adjacent side.other index (copyFields P (nextId c.transId) payload false) ++
    adjacent side index (copyFields P (nextId (nextId c.transId)) payload false)

theorem updateCopy_of_fits (P : Platform) (c : Chunk) (side : Side) (index : Nat)
    (payload : List UInt8) (hcurrent : c.currentRegion = some side)
    (hfit : index + (frameOffsetData P + (payload.length + crcSize)) ≤
      (c.region side.other).bytes.length) :
    updateCopy P c payload index false =
      (true,
        store { c with currentRegion := some side.other, transId := nextId c.transId }
          side.other index (frame P (nextId c.transId) payload),
        adjacent side.other index (copyFields P (nextId c.transId) payload false)) := by
  have hlen := length_frame P (nextId c.transId) payload
  simp only [frame, nextId] at hlen
  simp only [updateCopy, hcurrent, toggle_some]
  rw [issue_adjacent _ _ _ _ (by rw [hlen]; cases side <;> exact hfit)]
  rfl

/-- Updating with a payload that fits stores its frame in the other region and then
in the current one. -/
theorem updateData_of_fits (P : Platform) (c : Chunk) (side : Side) (index : Nat)
    (payload : List UInt8) (hcurrent : c.currentRegion = some side)
    (h : Fits P c index payload.length) :
    updateData P c (Payload.ofBytes payload) index false =
      some
        { chunk := updated P c side index payload
          work := overwrite (List.replicate P.workBufferSize 0) 0 payload
          result := true
          writes := updateWrites P c side index payload } := by
  have hget : (Payload.ofBytes payload).getData c.dataLen = payload := by
    simp [Payload.ofBytes, h.room]
  have hpos : payload.length ≠ 0 := Nat.pos_iff_ne_zero.mp h.pos
  have hfirst := updateCopy_of_fits P { c with dataLen := payload.length } side index payload
    hcurrent (by cases side; exacts [h.side .b, h.side .a])
  have hsecond := updateCopy_of_fits P
    (store { c with
        dataLen := payload.length
        currentRegion := some side.other
        transId := nextId c.transId }
      side.other index (frame P (nextId c.transId) payload))
    side.other index payload (by cases side <;> rfl)
    (by cases side; exacts [h.side .a, h.side .b])
  rw [updateData, if_neg (by simp [hcurrent])]
  simp only [hget, if_neg hpos, Bool.false_eq_true, if_false, take_overwrite_zero, hfirst,
    hsecond]
  cases side <;> rfl

/-- What a fresh `start()` and `loadData()` deliver from the regions of `c`. -/
def reload (P : Platform) (pace : ReadPace) (c : Chunk) (work : List UInt8) (dst : Payload)
    (index : Nat) : Option (List UInt8) :=
  (start c.regionA c.regionB).bind fun fresh => (loadData P pace fresh work dst index).delivered

/-- Region A is probed first, region B second through the same work buffer. -/
theorem reload_eq (P : Platform) (pace : ReadPace) (c : Chunk) (work : List UInt8)
    (dst : Payload) (index : Nat) (h : c.regionA.bytes.length = c.regionB.bytes.length) :
    reload P pace c work dst index =
      let probeA := getTransactionId P pace c.regionA work index
      let probeB := getTransactionId P pace c.regionB probeA.work index
      if probeA.transId = 0 ∧ probeB.transId = 0 then none
      else if probeA.transId > probeB.transId then some (probeB.work.take probeA.dataLen)
      else some (probeB.work.take probeB.dataLen) := by
  have hstart : start c.regionA c.regionB =
      some
        { regionA := c.regionA
          regionB := c.regionB
          transId := 0
          dataLen := 0
          currentRegion := none } := if_pos h
  simp only [reload, hstart, Option.bind_some, loadData]
  split_ifs <;> rfl

theorem reads_updated (P : Platform) (c : Chunk) (side : Side) (index : Nat)
    (payload : List UInt8) (s : Side) :
    ((updated P c side index payload).region s).reads = (c.region s).reads := by
  cases side <;> cases s <;> rfl

/-- After an update both regions hold the payload, the current one under the later
transaction ID. -/
theorem holds_updated (P : Platform) (c : Chunk) (side : Side) (index : Nat)
    (payload : List UInt8) (h : Fits P c index payload.length) :
    Holds ((updated P c side index payload).region side).bytes index
        (frame P (nextId (nextId c.transId)) payload) ∧
      Holds ((updated P c side index payload).region side.other).bytes index
        (frame P (nextId c.transId) payload) := by
  have hstored : ∀ s transId, Holds (overwrite (c.region s).bytes index
      (frame P transId payload)) index (frame P transId payload) := by
    intro s transId
    exact holds_overwrite _ _ _ (by rw [length_frame]; exact h.side s)
  cases side
  · exact ⟨hstored .a _, hstored .b _⟩
  · exact ⟨hstored .b _, hstored .a _⟩

theorem length_updated (P : Platform) (c : Chunk) (side : Side) (index : Nat)
    (payload : List UInt8) (h : Fits P c index payload.length) (s : Side) :
    ((updated P c side index payload).region s).bytes.length = (c.region s).bytes.length := by
  have hlen : ∀ transId, (overwrite (c.region s).bytes index
      (frame P transId payload)).length = (c.region s).bytes.length :=
    fun transId => length_overwrite _ _ _ (by rw [length_frame]; exact h.side s)
  cases side <;> cases s <;> exact hlen _

/-- A mirrored chunk on erased regions, ready for an update. -/
def blank : Chunk :=
  { regionA := erased, regionB := erased, transId := 0, dataLen := 16, currentRegion := some .a }

theorem blank_fits (length : Nat) (hpos : 0 < length) (hle : length ≤ 16) :
    Fits Platform.pico blank 0 length :=
  ⟨hpos, hle, by simp [frameOffsetData, transIdSize, Platform.pico, crcSize, blank, erased]; omega,
    by simp [crcSize, Platform.pico]; omega, rfl⟩

end ColonyPico.Persistent.MirroredChunk
