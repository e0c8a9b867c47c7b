import ColonyPico.Persistent.Media

/-!
A record stored once, with its length and a CRC (`Cpl::Persistent::CrcChunk`).
-/

namespace ColonyPico.Persistent.CrcChunk

open ColonyPico.Checksum.Crc32EthernetFast
open ColonyPico.Foundations.ByteStore
open ColonyPico.Persistent.Media

/-- `FRAME_OVERHEAD`: the length field and the CRC. -/
def frameOverhead (P : Platform) : Nat :=
  P.sizeofSizeT + crcSize

/-- The chunk: its region and `m_dataLen`. -/
structure Chunk where
  region : RegionMedia
  dataLen : Nat
  deriving DecidableEq, Repr

def start (P : Platform) (region : RegionMedia) : Chunk :=
  { region := region
    -- the difference of two `size_t`, which wraps for a region below the overhead
    dataLen := (region.regionLength + P.sizeModulus - frameOverhead P) % P.sizeModulus }

/-- What a `loadData()` call leaves behind. `delivered` are the bytes given to the
payload handler, when it is called at all. -/
structure Load where
  chunk : Chunk
  work : List UInt8
  delivered : Option (List UInt8)
  result : Bool

def loadData (P : Platform) (pace : ReadPace) (c : Chunk) (work : List UInt8)
    (dstHandler : Payload) (index : Nat) : Load :=
  let header := c.region.read pace index P.sizeofSizeT
  let failed (region : RegionMedia) (work : List UInt8) : Load :=
    { chunk := { c with region := region }, work := work, delivered := none, result := false }
  if header.1.length = P.sizeofSizeT then
    let datalen := Foundations.ByteStore.ofBytes header.1
    -- `datalen + CRC_SIZE` rolls over for a length near the top of `size_t`
    let dataRemaining := (datalen + crcSize) % P.sizeModulus
    if dataRemaining ≤ P.workBufferSize ∧ datalen < dataRemaining then
      let body := readBody pace dataRemaining
        { region := header.2, crc := accumulate reset header.1, work := work }
        (index + P.sizeofSizeT) dataRemaining
      if isOkay body.crc then
        { chunk := { region := body.region, dataLen := datalen }
          work := body.work
          delivered := some (body.work.take datalen)
          result := dstHandler.putData (body.work.take datalen) }
      else failed body.region body.work
    else failed header.2 work
  else failed header.2 work

/-- What an `updateData()` call leaves behind. -/
structure Update where
  chunk : Chunk
  work : List UInt8
  result : Bool

/-- `updateData()` behind its call of `getData()`; `data` is what this left in the work buffer. -/
def storeData (P : Platform) (c : Chunk) (data : List UInt8) (index : Nat)
    (invalidate : Bool) : Update :=
  let zeroed := List.replicate P.workBufferSize 0
  let len := data.length
  let pulled := overwrite zeroed 0 data
  if len = 0 then
    { chunk := c, work := pulled, result := false }
  else
    let work := if invalidate then zeroed else pulled
    let lenBytes := toBytes P.sizeofSizeT len
    let written := c.region.write index lenBytes
    let crc := accumulate reset lenBytes
    let written' := written.2.write (index + P.sizeofSizeT) (work.take len)
    let crc' := accumulate crc (work.take len)
    let written'' := written'.2.write (index + P.sizeofSizeT + len) (crcBuffer crc' invalidate)
    { chunk := { region := written''.2, dataLen := len }
      work := work
      result := written.1 && written'.1 && written''.1 }

def updateData (P : Platform) (c : Chunk) (srcHandler : Payload) (index : Nat)
    (invalidate : Bool) : Update :=
  storeData P c (srcHandler.getData c.dataLen) index invalidate

/-- The bytes that `updateData()` stores for a payload. -/
def frame (P : Platform) (payload : List UInt8) : List UInt8 :=
  let lenBytes := toBytes P.sizeofSizeT payload.length
  lenBytes ++ payload ++ finalize (accumulate (accumulate reset lenBytes) payload)

theorem length_frame (P : Platform) (payload : List UInt8) :
    (frame P payload).length = P.sizeofSizeT + payload.length + crcSize := by
  simp [frame, crcSize]
  omega

/-- A payload fits when it is not empty, the chunk offers room for it, its frame
lies in the region, and the work buffer holds it with its CRC. -/
structure Fits (P : Platform) (c : Chunk) (index length : Nat) : Prop where
  pos : 0 < length
  room : length ≤ c.dataLen
  region : index + P.sizeofSizeT + length + crcSize ≤ c.region.bytes.length
  buffer : length + crcSize ≤ P.workBufferSize

/-- An update takes a payload that is not empty, that the chunk offers room for, and whose frame
lies in the region. -/
structure Stores (P : Platform) (c : Chunk) (index length : Nat) : Prop where
  pos : 0 < length
  room : length ≤ c.dataLen
  region : index + P.sizeofSizeT + length + crcSize ≤ c.region.bytes.length

/-- Bytes whose frame lies in the region are stored as that frame. -/
theorem storeData_of_fits (P : Platform) (c : Chunk) (data : List UInt8) (index : Nat)
    (hpos : 0 < data.length)
    (hregion : index + P.sizeofSizeT + data.length + crcSize ≤ c.region.bytes.length) :
    (storeData P c data index false).chunk =
        { region := { c.region with bytes := overwrite c.region.bytes index (frame P data) }
          dataLen := data.length } ∧
      (storeData P c data index false).result = true := by
  have hlen := length_toBytes P.sizeofSizeT data.length
  have hfirst := write_of_fits c.region index (toBytes P.sizeofSizeT data.length)
    (by omega)
  have hsecond := write_overwrite c.region index (toBytes P.sizeofSizeT data.length)
    data (by simp only [List.length_append]; omega)
  have hthird := write_overwrite c.region index
    (toBytes P.sizeofSizeT data.length ++ data)
    (finalize (accumulate (accumulate reset (toBytes P.sizeofSizeT data.length)) data))
    (by simp only [List.length_append, finalize_length]; simp only [crcSize] at hregion; omega)
  rw [hlen] at hsecond
  rw [List.length_append, hlen, ← Nat.add_assoc] at hthird
  simp only [storeData, if_neg (Nat.pos_iff_ne_zero.mp hpos), Bool.false_eq_true, if_false,
    take_overwrite_zero, crcBuffer, hfirst, hsecond, hthird, Bool.and_self]
  exact ⟨rfl, trivial⟩

theorem updateData_of_stores (P : Platform) (c : Chunk) (payload : List UInt8) (index : Nat)
    (h : Stores P c index payload.length) :
    (updateData P c (Payload.ofBytes payload) index false).chunk =
        { region := { c.region with bytes := overwrite c.region.bytes index (frame P payload) }
          dataLen := payload.length } ∧
      (updateData P c (Payload.ofBytes payload) index false).result = true := by
  have hget : (Payload.ofBytes payload).getData c.dataLen = payload := by
    simp [Payload.ofBytes, h.room]
  rw [updateData, hget]
  exact storeData_of_fits P c payload index h.pos h.region

/-- Updating with a payload that fits stores its frame. -/
theorem updateData_of_fits (P : Platform) (c : Chunk) (payload : List UInt8) (index : Nat)
    (h : Fits P c index payload.length) :
    (updateData P c (Payload.ofBytes payload) index false).chunk =
        { region := { c.region with bytes := overwrite c.region.bytes index (frame P payload) }
          dataLen := payload.length } ∧
      (updateData P c (Payload.ofBytes payload) index false).result = true :=
  updateData_of_stores P c payload index ⟨h.pos, h.room, h.region⟩

/-- Where the read loop of `loadData()` starts on a region. -/
def bodyStart (P : Platform) (c : Chunk) (work : List UInt8) (length : Nat) : BodyRead :=
  { region := { c.region with reads := c.region.reads + 1 }
    crc := accumulate reset (toBytes P.sizeofSizeT length)
    work := work }

section Loading

variable (P : Platform) (pace : ReadPace) (c : Chunk) (work : List UInt8) (dst : Payload)
  (index : Nat) (payload : List UInt8)
  (hold : Holds c.region.bytes index (frame P payload))
  (hbuffer : payload.length + crcSize ≤ P.workBufferSize)
include hold

theorem holdsBody_of_frame :
    HoldsBody (bodyStart P c work payload.length) (index + P.sizeofSizeT) payload := by
  have hparts := @holds_append _ _ _ (toBytes P.sizeofSizeT payload.length) _
    (by simpa only [frame, List.append_assoc] using hold)
  rw [length_toBytes] at hparts
  exact hparts.2

theorem loadData_of_short_header
    (hshort : pace.count c.region.reads P.sizeofSizeT ≠ P.sizeofSizeT) :
    (loadData P pace c work dst index).delivered = none := by
  have hfit := hold.1
  rw [length_frame] at hfit
  have hlen := length_read_of_fits pace c.region index P.sizeofSizeT (by omega)
  simp only [loadData, hlen, if_neg hshort]

/-- What is read and decoded of a stored frame when its header is complete. -/
theorem read_header (hsize : payload.length < P.sizeModulus)
    (hfull : pace.count c.region.reads P.sizeofSizeT = P.sizeofSizeT) :
    c.region.read pace index P.sizeofSizeT =
        (toBytes P.sizeofSizeT payload.length, { c.region with reads := c.region.reads + 1 }) ∧
      Foundations.ByteStore.ofBytes (toBytes P.sizeofSizeT payload.length) = payload.length := by
  have hfit := hold.1
  rw [length_frame] at hfit
  have hheader : slice c.region.bytes index P.sizeofSizeT =
      toBytes P.sizeofSizeT payload.length := by
    have hparts := @holds_append _ _ _ (toBytes P.sizeofSizeT payload.length) _
      (by simpa only [frame, List.append_assoc] using hold)
    simpa only [length_toBytes] using hparts.1.2
  have hread := read_of_fits pace c.region index P.sizeofSizeT (by omega)
  rw [hfull, hheader] at hread
  exact ⟨hread, ofBytes_toBytes _ _ hsize⟩

/-- A record that the work buffer does not hold with its CRC is not loaded, and the chunk keeps
the length it had. -/
theorem loadData_of_too_long (hsize : payload.length + crcSize < P.sizeModulus)
    (hlong : P.workBufferSize < payload.length + crcSize)
    (hfull : pace.count c.region.reads P.sizeofSizeT = P.sizeofSizeT) :
    (loadData P pace c work dst index).delivered = none ∧
      (loadData P pace c work dst index).chunk.dataLen = c.dataLen ∧
      (loadData P pace c work dst index).chunk.region.bytes = c.region.bytes := by
  obtain ⟨hread, hdecode⟩ := read_header P pace c index payload hold (by omega) hfull
  have hrefuse : ¬ (payload.length + crcSize ≤ P.workBufferSize ∧
      payload.length < payload.length + crcSize) := fun haccept => by omega
  simp only [loadData, hread, length_toBytes, if_true, hdecode, Nat.mod_eq_of_lt hsize,
    if_neg hrefuse, and_self]

include hbuffer

/-- What loading a stored frame leaves behind once its header is complete. -/
theorem loadData_eq_of_full_header
    (hfull : pace.count c.region.reads P.sizeofSizeT = P.sizeofSizeT) :
    let body := readBody pace (payload.length + crcSize) (bodyStart P c work payload.length)
      (index + P.sizeofSizeT) (payload.length + crcSize)
    loadData P pace c work dst index =
      { chunk := { region := body.region, dataLen := payload.length }
        work := body.work
        delivered := some (body.work.take payload.length)
        result := dst.putData (body.work.take payload.length) } := by
  have hfit := hold.1
  rw [length_frame] at hfit
  have hmod := P.addressable
  obtain ⟨hread, hdecode⟩ := read_header P pace c index payload hold
    (by simp only [Platform.sizeModulus]; omega) hfull
  have hremaining : (payload.length + crcSize) % P.sizeModulus = payload.length + crcSize :=
    Nat.mod_eq_of_lt (by simp only [Platform.sizeModulus]; omega)
  have haccept : payload.length + crcSize ≤ P.workBufferSize ∧
      payload.length < payload.length + crcSize := ⟨hbuffer, by simp [crcSize]⟩
  have hokay := readBody_isOkay pace _ _ payload
    (holdsBody_of_frame P c work index payload hold)
  simp only [bodyStart] at hokay
  simp only [loadData, hread, length_toBytes, if_true, hdecode, hremaining, if_pos haccept,
    hokay, bodyStart]

/-- With the header complete, the payload handler gets what the read loop left in
the work buffer. -/
theorem loadData_of_full_header
    (hfull : pace.count c.region.reads P.sizeofSizeT = P.sizeofSizeT) :
    (loadData P pace c work dst index).delivered =
      some ((readBody pace (payload.length + crcSize) (bodyStart P c work payload.length)
        (index + P.sizeofSizeT) (payload.length + crcSize)).work.take payload.length) := by
  rw [loadData_eq_of_full_header P pace c work dst index payload hold hbuffer hfull]

/-- The chunk remembers the stored length, and the medium is as it was. -/
theorem loadData_chunk_of_full_header
    (hfull : pace.count c.region.reads P.sizeofSizeT = P.sizeofSizeT) :
    (loadData P pace c work dst index).chunk.dataLen = payload.length ∧
      (loadData P pace c work dst index).chunk.region.bytes = c.region.bytes := by
  rw [loadData_eq_of_full_header P pace c work dst index payload hold hbuffer hfull]
  have hbody := holdsBody_of_frame P c work index payload hold
  exact ⟨rfl, (readBody_crc pace _ _ _ _ (Nat.le_refl _) (holdsBody_fits _ _ _ hbody)).2⟩

end Loading

/-- A fresh `start()` and `loadData()` on what `updateData()` stored. -/
def reload (P : Platform) (pace : ReadPace) (c : Chunk) (payload work : List UInt8)
    (dst : Payload) (index : Nat) : Load :=
  loadData P pace (start P (updateData P c (Payload.ofBytes payload) index false).chunk.region)
    work dst index

/-- Every payload of a length comes back exactly when the medium delivers the
length field in one read and the data with the CRC in one read. -/
theorem reload_delivers_iff (P : Platform) (pace : ReadPace) (c : Chunk) (index length : Nat)
    (h : Fits P c index length) :
    (∀ payload : List UInt8, payload.length = length → ∀ work dst,
        (reload P pace c payload work dst index).delivered = some payload) ↔
      pace.count c.region.reads P.sizeofSizeT = P.sizeofSizeT ∧
        pace.count (c.region.reads + 1) (length + crcSize) = length + crcSize := by
  have hstored : ∀ payload : List UInt8, payload.length = length →
      ∃ c' : Chunk, c'.region.reads = c.region.reads ∧
        Holds c'.region.bytes index (frame P payload) ∧
        ∀ work dst, reload P pace c payload work dst index =
          loadData P pace c' work dst index := by
    intro payload hpayload
    subst length
    have hregion := h.region
    refine ⟨_, ?_, ?_, fun work dst => rfl⟩
    · rw [(updateData_of_fits P c payload index h).1]
      rfl
    · rw [(updateData_of_fits P c payload index h).1]
      exact holds_overwrite _ _ _ (by rw [length_frame]; omega)
  constructor
  · intro hall
    have hheader : pace.count c.region.reads P.sizeofSizeT = P.sizeofSizeT := by
      by_contra hshort
      obtain ⟨c', hreads, hold, hload⟩ := hstored (List.replicate length 0) (by simp)
      have := hall (List.replicate length 0) (by simp) [] (Payload.ofBytes [])
      rw [hload, loadData_of_short_header P pace c' [] _ index _ hold
        (by rwa [hreads])] at this
      simp at this
    refine ⟨hheader, ?_⟩
    by_contra hsplit
    obtain ⟨payload, hpayload, hne⟩ := exists_readBody_ne pace
      (accumulate reset (toBytes P.sizeofSizeT length)) _ length h.pos hsplit
    obtain ⟨c', hreads, hold, hload⟩ := hstored payload hpayload
    subst length
    refine hne _ _ rfl (by rw [← hreads]; rfl)
      (holdsBody_of_frame P c' [] index payload hold) ?_
    have hgot := hall payload rfl [] (Payload.ofBytes [])
    rw [hload, loadData_of_full_header P pace c' [] _ index payload hold h.buffer
      (by rwa [hreads])] at hgot
    exact Option.some.inj hgot
  · rintro ⟨hheader, hbody⟩ payload hpayload work dst
    obtain ⟨c', hreads, hold, hload⟩ := hstored payload hpayload
    subst length
    rw [hload, loadData_of_full_header P pace c' work dst index payload hold h.buffer
      (by rwa [hreads])]
    rw [readBody_take_of_full pace _ _ payload
      (holdsBody_of_frame P c' work index payload hold)
      (by simpa only [bodyStart, hreads] using hbody)]

end ColonyPico.Persistent.CrcChunk
