import ColonyPico.Persistent.CrcChunk
import ColonyPico.Dm.PersistentRecord

/-!
Starting a record of model points on a medium that holds a record of another
schema (`Cpl::Dm::Persistent::Record::start()` over a `CrcChunk`).
-/

namespace ColonyPico.Persistent.SchemaUpgrade

open ColonyPico.Foundations.ByteStore
open ColonyPico.Foundations.ByteMemory
open ColonyPico.Foundations.TwoDigits
open ColonyPico.Persistent.Media
open ColonyPico.Persistent.CrcChunk
open ColonyPico.Dm.ModelPoint
open ColonyPico.Dm.PersistentRecord

/-- What the final child class of a record supplies. -/
structure Child where
  resetData : Record → Bool × Record
  schemaChange : Record → UInt8 → UInt8 → Memory → Nat → Bool × Record

/-- The bytes that `getData()` puts into the work buffer, none when it fails. -/
def getBytes (P : Platform) (r : Record) (maxDstLen : Nat) : List UInt8 :=
  let result := getData P.sizeofSizeT r (fun _ => 0) 0 maxDstLen
  load result.2 result.1

/-- What `m_chunkHandler.loadData( *this )` leaves behind. -/
structure Loaded where
  chunk : Chunk
  record : Record
  result : Bool

/-- The load that `start()` begins with. `beyond` is what the work buffer holds behind the
loaded bytes. -/
def loadRecord (P : Platform) (pace : ReadPace) (child : Child) (work : List UInt8)
    (beyond : Memory) (r : Record) (region : RegionMedia) : Loaded :=
  -- the record is handed its bytes through `Load.delivered`
  let load := loadData P pace (CrcChunk.start P region) work (Payload.ofBytes []) 0
  match load.delivered with
  | none => { chunk := load.chunk, record := r, result := false }
  | some bytes =>
      let result := putData P.sizeofSizeT child.schemaChange r (memoryOf bytes beyond) bytes.length
      { chunk := load.chunk, record := result.2, result := result.1 }

/-- The record, the medium and whether the record was reset, after `start()`. -/
structure Started where
  record : Record
  region : RegionMedia
  reset : Bool

def start (P : Platform) (pace : ReadPace) (child : Child) (work : List UInt8) (beyond : Memory)
    (r : Record) (region : RegionMedia) : Started :=
  let loaded := loadRecord P pace child work beyond r region
  if loaded.result then
    { record := loaded.record, region := loaded.chunk.region, reset := false }
  else
    match child.resetData loaded.record with
    | (false, r') => { record := r', region := loaded.chunk.region, reset := true }
    | (true, r') =>
        -- updateNVRAM() offers the record the length that the chunk remembers
        let update := storeData P loaded.chunk (getBytes P r' loaded.chunk.dataLen) 0 false
        { record := r', region := update.chunk.region, reset := true }

/-- The same record class: the same schema and model points of the same types. -/
structure SameClass (r other : Record) : Prop where
  major : other.major = r.major
  minor : other.minor = r.minor
  types : List.Forall₂ Item.SameType r.items other.items

/-- The medium holds a valid copy of the record, and a later start of the class on
it loads that copy and restores its model points without another reset. -/
def Repaired (P : Platform) (pace : ReadPace) (child : Child) (r : Record)
    (region : RegionMedia) : Prop :=
  Holds region.bytes 0 (frame P (encode P.sizeofSizeT r)) ∧
    ∀ (work : List UInt8) (beyond : Memory) (fresh : Record), SameClass r fresh →
      (start P pace child work beyond fresh region).reset = false ∧
        List.Forall₂ Item.Agrees r.items
          (start P pace child work beyond fresh region).record.items

theorem getBytes_eq {P : Platform} (r : Record) {maxDstLen : Nat}
    (hlen : maxDstLen < P.sizeModulus) (hsize : encodedSize P.sizeofSizeT r < P.sizeModulus) :
    getBytes P r maxDstLen =
      if maxDstLen < 2 ∨ encodedSize P.sizeofSizeT r ≤ maxDstLen then encode P.sizeofSizeT r
      else [] := by
  have hwhole : load (store (fun _ => 0) 0 (encode P.sizeofSizeT r))
      (encodedSize P.sizeofSizeT r) = encode P.sizeofSizeT r := by
    have hstored := startsWith_store (fun _ => 0) 0 (encode P.sizeofSizeT r)
    rwa [suffix_zero, StartsWith, length_encode] at hstored
  rw [getBytes]
  split_ifs with hroom
  · rcases hroom with hshort | hroom
    · rw [getData_of_lt_two _ _ hshort hsize]
      exact hwhole
    · rw [getData_eq _ _ hlen hroom]
      exact hwhole
  · have hzero := (@getData_short P.sizeofSizeT r (fun _ => 0) 0 maxDstLen (by omega) hlen
      (by omega)).1
    simp only [hzero]
    rfl

section Start

variable {P : Platform} {pace : ReadPace} {child : Child} {r : Record} {region : RegionMedia}

/-- Loading a stored frame on a medium that serves each read in one go. -/
theorem load_of_frame (hwhole : ∀ call n, pace.count call n = n) {bytes : List UInt8}
    (hold : Holds region.bytes 0 (frame P bytes))
    (hbuffer : bytes.length + crcSize ≤ P.workBufferSize) (work : List UInt8) (dst : Payload) :
    (loadData P pace (CrcChunk.start P region) work dst 0).delivered = some bytes ∧
      (loadData P pace (CrcChunk.start P region) work dst 0).chunk.dataLen = bytes.length ∧
      (loadData P pace (CrcChunk.start P region) work dst 0).chunk.region.bytes =
        region.bytes := by
  have hchunk := loadData_chunk_of_full_header P pace (CrcChunk.start P region) work dst 0 bytes
    hold hbuffer (hwhole _ _)
  refine ⟨?_, hchunk⟩
  rw [loadData_of_full_header P pace (CrcChunk.start P region) work dst 0 bytes hold hbuffer
    (hwhole _ _), readBody_take_of_full pace _ _ bytes
      (holdsBody_of_frame P (CrcChunk.start P region) work 0 bytes hold) (hwhole _ _)]

/-- The record is handed the bytes of a stored frame. -/
theorem loadRecord_of_frame (hwhole : ∀ call n, pace.count call n = n) {bytes : List UInt8}
    (hold : Holds region.bytes 0 (frame P bytes))
    (hbuffer : bytes.length + crcSize ≤ P.workBufferSize) (work : List UInt8) (beyond : Memory) :
    ((loadRecord P pace child work beyond r region).result,
        (loadRecord P pace child work beyond r region).record) =
      putData P.sizeofSizeT child.schemaChange r (memoryOf bytes beyond) bytes.length := by
  obtain ⟨hdelivered, -⟩ := load_of_frame hwhole hold hbuffer work (Payload.ofBytes [])
  simp only [loadRecord, hdelivered]

/-- Whether or not the record takes the bytes, the load tells the chunk their length; a record
that is too long for the work buffer leaves the length that fills the region. -/
theorem chunk_loadRecord (hwhole : ∀ call n, pace.count call n = n)
    (hregion : region.bytes.length < P.sizeModulus) {old : List UInt8}
    (hold : Holds region.bytes 0 (frame P old)) (work : List UInt8) (beyond : Memory) :
    (loadRecord P pace child work beyond r region).chunk.dataLen =
        (if old.length + crcSize ≤ P.workBufferSize then old.length
        else region.bytes.length - frameOverhead P) ∧
      (loadRecord P pace child work beyond r region).chunk.region.bytes = region.bytes := by
  have hframe := hold.1
  rw [length_frame, Nat.zero_add] at hframe
  have hchunk : (loadRecord P pace child work beyond r region).chunk =
      (loadData P pace (CrcChunk.start P region) work (Payload.ofBytes []) 0).chunk := by
    rw [loadRecord]
    split <;> rfl
  rw [hchunk]
  split_ifs with hbuffer
  · exact (load_of_frame hwhole hold hbuffer work (Payload.ofBytes [])).2
  · obtain ⟨-, hdataLen, hbytes⟩ := loadData_of_too_long P pace (CrcChunk.start P region) work
      (Payload.ofBytes []) 0 old hold (by omega) (by omega) (hwhole _ _)
    have hoverhead : frameOverhead P ≤ region.bytes.length := by
      rw [frameOverhead]
      omega
    exact ⟨hdataLen.trans (difference_of_le hoverhead hregion), hbytes⟩

theorem start_of_frame (hwhole : ∀ call n, pace.count call n = n)
    (htyped : ∀ item ∈ r.items, item.WellTyped P.sizeofSizeT)
    (hold : Holds region.bytes 0 (frame P (encode P.sizeofSizeT r)))
    (hbuffer : encodedSize P.sizeofSizeT r + crcSize ≤ P.workBufferSize) (work : List UInt8)
    (beyond : Memory) {fresh : Record} (hclass : SameClass r fresh) :
    (start P pace child work beyond fresh region).reset = false ∧
      List.Forall₂ Item.Agrees r.items
        (start P pace child work beyond fresh region).record.items := by
  have haddress := P.addressable
  have hlen := @length_encode P.sizeofSizeT r
  have hload := @loadRecord_of_frame P pace child fresh region hwhole _ hold (by omega) work beyond
  obtain ⟨restored, hput, hagree⟩ := putData_of_encode hclass.major hclass.minor htyped
    hclass.types child.schemaChange (startsWith_memoryOf (encode P.sizeofSizeT r) beyond)
    (by omega)
  rw [hlen, hput, Prod.mk.injEq] at hload
  simp only [start, hload.1, hload.2, if_true]
  exact ⟨trivial, hagree⟩

/-- A copy that the work buffer does not hold with its CRC is of no use to a later start. -/
theorem reset_of_too_long (hwhole : ∀ call n, pace.count call n = n) {bytes : List UInt8}
    (hsize : bytes.length + crcSize < P.sizeModulus)
    (hold : Holds region.bytes 0 (frame P bytes))
    (hlong : P.workBufferSize < bytes.length + crcSize) (work : List UInt8) (beyond : Memory) :
    (start P pace child work beyond r region).reset = true := by
  obtain ⟨hrefused, -⟩ := loadData_of_too_long P pace (CrcChunk.start P region) work
    (Payload.ofBytes []) 0 bytes hold hsize hlong (hwhole _ _)
  simp only [start, loadRecord, hrefused, Bool.false_eq_true, if_false]
  split <;> rfl

/-- The length field tells stored frames of different lengths apart. -/
theorem length_eq_of_holds_frame {store xs ys : List UInt8} (hxs : Holds store 0 (frame P xs))
    (hys : Holds store 0 (frame P ys)) (hx : xs.length < P.sizeModulus)
    (hy : ys.length < P.sizeModulus) : xs.length = ys.length := by
  have hfield : ∀ zs : List UInt8, Holds store 0 (frame P zs) →
      slice store 0 P.sizeofSizeT = toBytes P.sizeofSizeT zs.length := by
    intro zs hzs
    have hparts := @holds_append _ _ _ (toBytes P.sizeofSizeT zs.length) _
      (by simpa only [frame, List.append_assoc] using hzs)
    simpa only [length_toBytes] using hparts.1.2
  have hbytes := (hfield xs hxs).symm.trans (hfield ys hys)
  rw [← ofBytes_toBytes P.sizeofSizeT xs.length hx, ← ofBytes_toBytes P.sizeofSizeT ys.length hy,
    hbytes]

end Start

section Upgrade

variable {P : Platform} {pace : ReadPace} {child : Child} {old : List UInt8}
  {region : RegionMedia} {work : List UInt8} {beyond : Memory} {r reset : Record}
  (hrefused : (loadRecord P pace child work beyond r region).result = false)
  (hreset : child.resetData (loadRecord P pace child work beyond r region).record = (true, reset))
include hrefused hreset

/-- The record is reset and written through the chunk that loaded the old one. -/
theorem start_of_refused :
    start P pace child work beyond r region =
      { record := reset
        region := (storeData P (loadRecord P pace child work beyond r region).chunk
          (getBytes P reset (loadRecord P pace child work beyond r region).chunk.dataLen) 0
          false).chunk.region
        reset := true } := by
  simp only [start, hrefused, hreset, Bool.false_eq_true, if_false]

variable (hwhole : ∀ call n, pace.count call n = n)
  (hregion : region.bytes.length < P.sizeModulus) (hold : Holds region.bytes 0 (frame P old))
  (hfits : encodedSize P.sizeofSizeT reset + frameOverhead P ≤ region.bytes.length)
include hwhole hregion hold hfits

/-- A longer record is not written: the medium still holds the old one. -/
theorem not_holds_of_longer (hbuffer : old.length + crcSize ≤ P.workBufferSize)
    (htwo : 2 ≤ old.length) (hlonger : old.length < encodedSize P.sizeofSizeT reset) :
    ¬ Holds (start P pace child work beyond r region).region.bytes 0
      (frame P (encode P.sizeofSizeT reset)) := by
  intro hcopy
  obtain ⟨hdataLen, hbytes⟩ := @chunk_loadRecord P pace child r region hwhole hregion old hold
    work beyond
  have hoverhead : frameOverhead P = P.sizeofSizeT + crcSize := rfl
  have hlen := @length_encode P.sizeofSizeT reset
  rw [if_pos hbuffer] at hdataLen
  rw [start_of_refused hrefused hreset, hdataLen, getBytes_eq reset (by omega) (by omega),
    if_neg (by omega)] at hcopy
  have hkept : (storeData P (loadRecord P pace child work beyond r region).chunk [] 0
      false).chunk.region.bytes = region.bytes := hbytes
  rw [hkept] at hcopy
  have hsame := length_eq_of_holds_frame hold hcopy (by omega) (by omega)
  omega

theorem holds_of_offered (hoffered : old.length < 2 ∨
      encodedSize P.sizeofSizeT reset ≤ old.length ∨
      P.workBufferSize < old.length + crcSize) :
    Holds (start P pace child work beyond r region).region.bytes 0
      (frame P (encode P.sizeofSizeT reset)) := by
  obtain ⟨hdataLen, hbytes⟩ := @chunk_loadRecord P pace child r region hwhole hregion old hold
    work beyond
  have hframe := hold.1
  rw [length_frame, Nat.zero_add] at hframe
  have hoverhead : frameOverhead P = P.sizeofSizeT + crcSize := rfl
  have hlen := @length_encode P.sizeofSizeT reset
  have htwo := @two_le_encodedSize P.sizeofSizeT reset
  have hdata : getBytes P reset (loadRecord P pace child work beyond r region).chunk.dataLen =
      encode P.sizeofSizeT reset := by
    rw [hdataLen]
    split_ifs with hbuffer
    · rw [getBytes_eq reset (by omega) (by omega), if_pos (by omega)]
    · rw [getBytes_eq reset (by omega) (by omega), if_pos (by omega)]
  rw [start_of_refused hrefused hreset, hdata,
    (storeData_of_fits P _ (encode P.sizeofSizeT reset) 0 (by omega) (by rw [hbytes]; omega)).1]
  exact holds_overwrite _ _ _ (by rw [length_frame, hbytes]; omega)

end Upgrade

/-- A record that was reset because it was not loaded repairs the medium exactly if the chunk
offers it enough room and the work buffer holds it with its CRC. The chunk offers the length of
the payload that was there, unless this is too long to be loaded, and without a limit if it is
shorter than the schema identifiers. -/
theorem repaired_iff (P : Platform) (pace : ReadPace) (hwhole : ∀ call n, pace.count call n = n)
    (child : Child) (old : List UInt8) (region : RegionMedia)
    (hregion : region.bytes.length < P.sizeModulus) (hold : Holds region.bytes 0 (frame P old))
    (work : List UInt8) (beyond : Memory) (r reset : Record)
    (hrefused : (loadRecord P pace child work beyond r region).result = false)
    (hreset : child.resetData (loadRecord P pace child work beyond r region).record =
      (true, reset))
    (htyped : ∀ item ∈ reset.items, item.WellTyped P.sizeofSizeT)
    (hfits : encodedSize P.sizeofSizeT reset + frameOverhead P ≤ region.bytes.length) :
    (start P pace child work beyond r region).record = reset ∧
        Repaired P pace child reset (start P pace child work beyond r region).region ↔
      (old.length < 2 ∨ encodedSize P.sizeofSizeT reset ≤ old.length ∨
          P.workBufferSize < old.length + crcSize) ∧
        encodedSize P.sizeofSizeT reset + crcSize ≤ P.workBufferSize := by
  have hoverhead : frameOverhead P = P.sizeofSizeT + crcSize := rfl
  have hlen := @length_encode P.sizeofSizeT reset
  constructor
  · rintro ⟨-, hcopy, hlater⟩
    constructor
    · by_contra hoffered
      exact not_holds_of_longer hrefused hreset hwhole hregion hold hfits (by omega) (by omega)
        (by omega) hcopy
    · by_contra hlong
      have hclass : SameClass reset reset := ⟨rfl, rfl, List.forall₂_same.mpr fun _ _ => ⟨rfl, rfl⟩⟩
      have hagain := @reset_of_too_long P pace child reset _ hwhole _ (by omega) hcopy (by omega)
        work beyond
      rw [(hlater work beyond reset hclass).1] at hagain
      exact Bool.false_ne_true hagain
  · rintro ⟨hoffered, hbuffer⟩
    have hcopy := holds_of_offered hrefused hreset hwhole hregion hold hfits hoffered
    refine ⟨by rw [start_of_refused hrefused hreset], hcopy, ?_⟩
    intro work' beyond' fresh hclass
    exact start_of_frame hwhole htyped hcopy hbuffer work' beyond' hclass

section Samples

/-- A record class of one number whose reset value is one. -/
def oneNumber : Child where
  resetData r :=
    (true, { r with items := r.items.map fun item =>
      { item with mp := { Point.init [1, 0, 0, 0] true with locked := false } } })
  schemaChange := noSchemaChange

/-- The record of that class in its second schema. -/
def newRecord : Record :=
  { items := [⟨.refCounter, { Point.init [0, 0, 0, 0] false with locked := false }⟩]
    major := 2
    minor := 0 }

def resetRecord : Record :=
  (oneNumber.resetData newRecord).2

/-- A medium of 32 bytes that holds a record of the first schema. -/
def mediumWith (old : List UInt8) : RegionMedia :=
  { erased with bytes := overwrite erased.bytes 0 (frame .pico old) }

theorem holds_mediumWith {old : List UInt8} (hfit : (frame .pico old).length ≤ 32) :
    Holds (mediumWith old).bytes 0 (frame .pico old) := by
  apply holds_overwrite
  rw [Nat.zero_add]
  exact hfit

/-- The new record refuses the schema of the old one. -/
theorem loadRecord_mediumWith {old : List UInt8} (hfit : (frame .pico old).length ≤ 32)
    (hfirst : memoryOf old (fun _ => 0) 0 = 1) :
    (loadRecord .pico .full oneNumber [] (fun _ => 0) newRecord (mediumWith old)).result = false ∧
      (loadRecord .pico .full oneNumber [] (fun _ => 0) newRecord (mediumWith old)).record =
        newRecord := by
  have hbuffer : old.length + crcSize ≤ Platform.pico.workBufferSize := by
    rw [length_frame] at hfit
    show old.length + crcSize ≤ 1024
    omega
  have hload := @loadRecord_of_frame .pico .full oneNumber newRecord (mediumWith old)
    (fun _ _ => rfl) old (holds_mediumWith hfit) hbuffer [] fun _ => 0
  have hother : ¬ (1 : UInt8) = newRecord.major := by decide
  rw [putData, hfirst, if_pos (.inl hother), Prod.mk.injEq] at hload
  exact hload

theorem repaired_iff_ten_bytes :
    (start .pico .full oneNumber [] (fun _ => 0) newRecord
        (mediumWith [1, 0, 1, 2, 3, 4, 5, 6, 7, 8])).record = resetRecord ∧
      Repaired .pico .full oneNumber resetRecord
        (start .pico .full oneNumber [] (fun _ => 0) newRecord
          (mediumWith [1, 0, 1, 2, 3, 4, 5, 6, 7, 8])).region :=
  have hload := @loadRecord_mediumWith [1, 0, 1, 2, 3, 4, 5, 6, 7, 8] (by decide) rfl
  (repaired_iff .pico .full (fun _ _ => rfl) oneNumber [1, 0, 1, 2, 3, 4, 5, 6, 7, 8]
    (mediumWith [1, 0, 1, 2, 3, 4, 5, 6, 7, 8]) (by decide) (holds_mediumWith (by decide)) []
    (fun _ => 0) newRecord resetRecord hload.1 (by rw [hload.2]; rfl)
    (by simp [resetRecord, oneNumber, newRecord, Item.WellTyped]) (by decide)).mpr (by decide)

/-- A record of three bytes is followed by one of seven: the medium keeps the old
one. -/
theorem not_repaired_three_bytes :
    ¬ ∀ (child : Child) (old : List UInt8) (region : RegionMedia) (work : List UInt8)
      (beyond : Memory) (r reset : Record),
      region.bytes.length < Platform.pico.sizeModulus →
      Holds region.bytes 0 (frame .pico old) →
      (loadRecord .pico .full child work beyond r region).result = false →
      child.resetData (loadRecord .pico .full child work beyond r region).record =
        (true, reset) →
      (∀ item ∈ reset.items, item.WellTyped 4) →
      encodedSize 4 reset + frameOverhead .pico ≤ region.bytes.length →
      (start .pico .full child work beyond r region).record = reset ∧
        Repaired .pico .full child reset
          (start .pico .full child work beyond r region).region := by
  intro h
  have hregion : (mediumWith [1, 0, 5]).bytes.length < Platform.pico.sizeModulus := by
    decide
  have hfits : encodedSize 4 resetRecord + frameOverhead .pico ≤
      (mediumWith [1, 0, 5]).bytes.length := by
    decide
  have hold : Holds (mediumWith [1, 0, 5]).bytes 0 (frame .pico [1, 0, 5]) :=
    holds_mediumWith (by decide)
  obtain ⟨hrefused, hrecord⟩ := @loadRecord_mediumWith [1, 0, 5] (by decide) rfl
  have hreset : oneNumber.resetData (loadRecord .pico .full oneNumber [] (fun _ => 0) newRecord
      (mediumWith [1, 0, 5])).record = (true, resetRecord) := by
    rw [hrecord]
    rfl
  obtain ⟨-, hcopy, -⟩ := h oneNumber [1, 0, 5] (mediumWith [1, 0, 5]) [] (fun _ => 0) newRecord
    resetRecord hregion hold hrefused hreset
    (by simp [resetRecord, oneNumber, newRecord, Item.WellTyped]) hfits
  exact not_holds_of_longer hrefused hreset (fun _ _ => rfl) hregion hold hfits (by decide)
    (by decide) (by decide) hcopy

end Samples

end ColonyPico.Persistent.SchemaUpgrade
