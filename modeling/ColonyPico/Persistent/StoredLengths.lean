import ColonyPico.Persistent.CrcChunk

/-!
The three limits on the size of a payload in a chunk: its region, the length the chunk offers, and
the work buffer.
-/

namespace ColonyPico.Persistent.StoredLengths

open ColonyPico.Checksum.Crc32EthernetFast
open ColonyPico.Foundations.ByteStore
open ColonyPico.Persistent.Media
open ColonyPico.Persistent.CrcChunk

inductive Operation
  | loadData (dstHandler : Payload) (index : Nat)
  | updateData (srcHandler : Payload) (index : Nat) (invalidate : Bool)

variable (P : Platform) (pace : ReadPace)

/-- The chunk and the work buffer behind a call. -/
def perform (s : Chunk × List UInt8) : Operation → Chunk × List UInt8
  | .loadData dstHandler index =>
      let load := loadData P pace s.1 s.2 dstHandler index
      (load.chunk, load.work)
  | .updateData srcHandler index invalidate =>
      let update := updateData P s.1 srcHandler index invalidate
      (update.chunk, update.work)

/-- The chunk behind a list of calls that follow its start. -/
def after (region : RegionMedia) (work : List UInt8) (operations : List Operation) : Chunk :=
  (operations.foldl (perform P pace) (start P region, work)).1

/-- The chunk offers no more than the work buffer, and an update with a payload of the length that
returns true leaves a medium from which a fresh start and load deliver the payload. -/
def StoredMeansLoadable (c : Chunk) (index length : Nat) : Prop :=
  c.dataLen ≤ P.workBufferSize ∧
    ∀ src : Payload, (src.getData c.dataLen).length = length →
      (updateData P c src index false).result = true → ∀ work dst,
        let load := loadData P pace (start P (updateData P c src index false).chunk.region)
          work dst index
        load.delivered = some (src.getData c.dataLen) ∧
          load.result = dst.putData (src.getData c.dataLen)

/-- The work buffer holds a payload of the length with its CRC, and the next two reads of the medium
are complete. -/
structure Loadable (c : Chunk) (length : Nat) : Prop where
  buffer : length + crcSize ≤ P.workBufferSize
  header : pace.count c.region.reads P.sizeofSizeT = P.sizeofSizeT
  body : pace.count (c.region.reads + 1) (length + crcSize) = length + crcSize

variable {P pace} {c : Chunk} {index length : Nat}

/-! One update -/

theorem updateData_eq_ofBytes (c : Chunk) (src : Payload) (index : Nat) (invalidate : Bool) :
    updateData P c src index invalidate =
      updateData P c (Payload.ofBytes (src.getData c.dataLen)) index invalidate := by
  have hget : (Payload.ofBytes (src.getData c.dataLen)).getData c.dataLen =
      src.getData c.dataLen := if_pos (src.fits c.dataLen)
  rw [updateData, updateData, hget]

theorem result_write (r : RegionMedia) (offset : Nat) (src : List UInt8) :
    (r.write offset src).1 = true ↔ offset + src.length ≤ r.bytes.length := by
  rw [RegionMedia.write]
  split_ifs with hfit
  · exact iff_of_true rfl hfit
  · exact iff_of_false id hfit

theorem length_bytes_write (r : RegionMedia) (offset : Nat) (src : List UInt8) :
    (r.write offset src).2.bytes.length = r.bytes.length := by
  rw [RegionMedia.write]
  split_ifs with hfit
  · exact length_overwrite _ _ _ hfit
  · rfl

theorem result_updateData_iff (c : Chunk) (src : Payload) (index : Nat) :
    (updateData P c src index false).result = true ↔
      Stores P c index (src.getData c.dataLen).length := by
  constructor
  · intro hresult
    rw [updateData, storeData] at hresult
    dsimp only at hresult
    by_cases hempty : (src.getData c.dataLen).length = 0
    · rw [if_pos hempty] at hresult
      exact absurd hresult Bool.false_ne_true
    · rw [if_neg hempty] at hresult
      obtain ⟨_, hlast⟩ := Bool.and_eq_true_iff.mp hresult
      have hfit := (result_write _ _ _).mp hlast
      rw [length_bytes_write, length_bytes_write, crcBuffer, if_neg Bool.false_ne_true,
        finalize_length] at hfit
      exact ⟨Nat.pos_of_ne_zero hempty, src.fits c.dataLen, hfit⟩
  · intro hstores
    rw [updateData_eq_ofBytes]
    exact (updateData_of_stores P c _ index hstores).2

theorem result_loadData_of_delivered {work payload : List UInt8} {dst : Payload}
    (hdelivered : (loadData P pace c work dst index).delivered = some payload) :
    (loadData P pace c work dst index).result = dst.putData payload := by
  revert hdelivered
  rw [loadData]
  dsimp only
  split_ifs
  · rintro hdelivered
    rw [← Option.some.inj hdelivered]
  · exact False.elim
  · exact False.elim
  · exact False.elim

theorem not_delivered_of_large {work payload : List UInt8} {dst : Payload}
    (hold : Holds c.region.bytes index (frame P payload))
    (hlarge : P.workBufferSize < payload.length + crcSize)
    (hsize : payload.length ≤ P.workBufferSize) :
    (loadData P pace c work dst index).delivered = none := by
  by_cases hfull : pace.count c.region.reads P.sizeofSizeT = P.sizeofSizeT
  · have hfit := hold.1
    rw [length_frame] at hfit
    have haddressable := P.addressable
    obtain ⟨hread, hdecode⟩ := read_header P pace c index payload hold
      (by simp only [Platform.sizeModulus]; omega) hfull
    have hrefuse : ¬((payload.length + crcSize) % P.sizeModulus ≤ P.workBufferSize ∧
        payload.length < (payload.length + crcSize) % P.sizeModulus) := by
      rintro ⟨hle, hlt⟩
      rcases Nat.lt_or_ge (payload.length + crcSize) P.sizeModulus with hsmall | hwraps
      · rw [Nat.mod_eq_of_lt hsmall] at hle
        omega
      · -- the sum wraps to less than the CRC size, and the length is no smaller than that
        rw [Nat.mod_eq_sub_mod hwraps] at hlt
        have hle' := Nat.mod_le (payload.length + crcSize - P.sizeModulus) P.sizeModulus
        have hsizeT : 0 < P.sizeofSizeT := by
          by_contra hzero
          rw [Nat.eq_zero_of_not_pos hzero, pow_zero] at haddressable
          rw [Platform.sizeModulus, Nat.eq_zero_of_not_pos hzero, pow_zero, Nat.mod_one] at hlt
          omega
        have hmodulus : 256 ^ 1 ≤ P.sizeModulus := Nat.pow_le_pow_right (by norm_num) hsizeT
        simp only [crcSize] at hlt hle'
        omega
    rw [loadData]
    simp only [hread, length_toBytes, if_true, hdecode, if_neg hrefuse]
  · exact loadData_of_short_header P pace c work dst index payload hold hfull

/-- What a chunk stores of a length can be loaded just when the chunk offers no more than the work
buffer, and a payload of the length that it can store is one that it can load. -/
theorem storedMeansLoadable_iff (P : Platform) (pace : ReadPace) (c : Chunk) (index length : Nat) :
    StoredMeansLoadable P pace c index length ↔
      c.dataLen ≤ P.workBufferSize ∧ (Stores P c index length → Loadable P pace c length) := by
  constructor
  · rintro ⟨hoffered, hall⟩
    refine ⟨hoffered, fun hstores => ?_⟩
    have hreload : ∀ payload : List UInt8, payload.length = length → ∀ work dst,
        (reload P pace c payload work dst index).delivered = some payload := by
      intro payload hpayload work dst
      subst hpayload
      have hget : (Payload.ofBytes payload).getData c.dataLen = payload := if_pos hstores.room
      have hresult := (updateData_of_stores P c payload index hstores).2
      have hdelivered := (hall (Payload.ofBytes payload) (by rw [hget]) hresult work dst).1
      rwa [hget] at hdelivered
    rcases Nat.lt_or_ge P.workBufferSize (length + crcSize) with hlarge | hbuffer
    · have hzeros : (List.replicate length (0 : UInt8)).length = length := List.length_replicate
      rw [← hzeros] at hstores hlarge
      have hregion := hstores.region
      have hnone : (reload P pace c (List.replicate length 0) [] (Payload.ofBytes [])
          index).delivered = none := by
        refine not_delivered_of_large ?_ hlarge (hstores.room.trans hoffered)
        rw [(updateData_of_stores P c _ index hstores).1]
        exact holds_overwrite _ _ _ (by rw [length_frame]; omega)
      rw [hreload _ hzeros] at hnone
      exact absurd hnone (Option.some_ne_none _)
    · have hfits : Fits P c index length := ⟨hstores.pos, hstores.room, hstores.region, hbuffer⟩
      obtain ⟨hheader, hbody⟩ := (reload_delivers_iff P pace c index length hfits).mp hreload
      exact ⟨hbuffer, hheader, hbody⟩
  · rintro ⟨hoffered, hloadable⟩
    refine ⟨hoffered, ?_⟩
    rintro src rfl hresult work dst
    have hstores := (result_updateData_iff c src index).mp hresult
    obtain ⟨hbuffer, hheader, hbody⟩ := hloadable hstores
    have hfits : Fits P c index (src.getData c.dataLen).length :=
      ⟨hstores.pos, hstores.room, hstores.region, hbuffer⟩
    have hdelivered :=
      (reload_delivers_iff P pace c index _ hfits).mpr ⟨hheader, hbody⟩ _ rfl work dst
    rw [reload, ← updateData_eq_ofBytes] at hdelivered
    exact ⟨hdelivered, result_loadData_of_delivered hdelivered⟩

/-! Every state of a started chunk -/

theorem dataLen_loadData_le (h : c.dataLen ≤ P.workBufferSize) (work : List UInt8) (dst : Payload)
    (index : Nat) : (loadData P pace c work dst index).chunk.dataLen ≤ P.workBufferSize := by
  rw [loadData]
  dsimp only
  split_ifs with _ haccept
  · exact haccept.2.le.trans haccept.1
  · exact h
  · exact h
  · exact h

theorem dataLen_updateData_le (h : c.dataLen ≤ P.workBufferSize) (src : Payload) (index : Nat)
    (invalidate : Bool) :
    (updateData P c src index invalidate).chunk.dataLen ≤ P.workBufferSize := by
  rw [updateData, storeData]
  dsimp only
  by_cases hempty : (src.getData c.dataLen).length = 0
  · rw [if_pos hempty]
    exact h
  · rw [if_neg hempty]
    exact (src.fits c.dataLen).trans h

theorem dataLen_foldl_le (operations : List Operation) (s : Chunk × List UInt8)
    (h : s.1.dataLen ≤ P.workBufferSize) :
    (operations.foldl (perform P pace) s).1.dataLen ≤ P.workBufferSize := by
  induction operations generalizing s with
  | nil => exact h
  | cons operation rest ih =>
      refine ih _ ?_
      cases operation with
      | loadData dst index => exact dataLen_loadData_le h s.2 dst index
      | updateData src index invalidate => exact dataLen_updateData_le h src index invalidate

/-- What a started chunk offers, where no `size_t` overflows but by the subtraction. -/
theorem dataLen_start_le_iff (region : RegionMedia)
    (hregion : region.regionLength < P.sizeModulus)
    (hplatform : P.workBufferSize + frameOverhead P < P.sizeModulus) :
    (start P region).dataLen ≤ P.workBufferSize ↔
      frameOverhead P ≤ region.regionLength ∧
        region.regionLength ≤ P.workBufferSize + frameOverhead P := by
  show (region.regionLength + P.sizeModulus - frameOverhead P) % P.sizeModulus ≤ _ ↔ _
  rcases Nat.lt_or_ge region.regionLength (frameOverhead P) with hsmall | hlarge
  · rw [Nat.mod_eq_of_lt (by omega)]
    constructor
    · intro hle
      omega
    · rintro ⟨hle, _⟩
      omega
  · have hwraps : region.regionLength + P.sizeModulus - frameOverhead P =
        region.regionLength - frameOverhead P + P.sizeModulus := by omega
    rw [hwraps, Nat.add_mod_right, Nat.mod_eq_of_lt (by omega)]
    constructor
    · exact fun hle => ⟨hlarge, by omega⟩
    · rintro ⟨_, hle⟩
      omega

/-- Over every history of a started chunk: what was stored can be loaded just when the region's
length, less the overhead, is at most the work buffer's, and whenever a payload of the length can be
stored, it fits the work buffer with its CRC and the medium answers the two reads in full. -/
theorem storedMeansLoadable_always_iff (pace : ReadPace) (region : RegionMedia) (work : List UInt8)
    (index length : Nat) (hregion : region.regionLength < P.sizeModulus)
    (hplatform : P.workBufferSize + frameOverhead P < P.sizeModulus) :
    (∀ operations, StoredMeansLoadable P pace (after P pace region work operations) index length) ↔
      (frameOverhead P ≤ region.regionLength ∧
        region.regionLength ≤ P.workBufferSize + frameOverhead P) ∧
      ∀ operations, Stores P (after P pace region work operations) index length →
        Loadable P pace (after P pace region work operations) length := by
  rw [← dataLen_start_le_iff region hregion hplatform]
  constructor
  · intro hall
    refine ⟨(hall []).1, fun operations => ?_⟩
    exact ((storedMeansLoadable_iff P pace _ index length).mp (hall operations)).2
  · rintro ⟨hstart, hall⟩ operations
    refine (storedMeansLoadable_iff P pace _ index length).mpr ⟨?_, hall operations⟩
    exact dataLen_foldl_le operations _ hstart

/-- With the default options a region of 64 bytes keeps what it stores. -/
theorem storedMeansLoadable_always_small :
    StoredMeansLoadable Platform.pico ReadPace.full
      (after Platform.pico ReadPace.full ⟨List.replicate 64 0, 0⟩ []
        [.updateData (Payload.ofBytes [1, 2, 3]) 0 false]) 0 3 :=
  (storedMeansLoadable_always_iff ReadPace.full ⟨List.replicate 64 0, 0⟩ [] 0 3 (by decide)
    (by decide)).mpr ⟨by decide, fun _ _ => ⟨by decide, rfl, rfl⟩⟩ _

/-- A region of 1032 bytes stores 1021 bytes that are not loaded, and one of 1033 bytes offers more
than the work buffer. -/
theorem not_storedMeansLoadable_default :
    ¬StoredMeansLoadable Platform.pico ReadPace.full
        (start Platform.pico ⟨List.replicate 1032 0, 0⟩) 0 1021 ∧
      ¬StoredMeansLoadable Platform.pico ReadPace.full
        (start Platform.pico ⟨List.replicate 1033 0, 0⟩) 0 3 := by
  have hoffers : ∀ n, n < Platform.pico.sizeModulus - 8 →
      (start Platform.pico ⟨List.replicate (n + 8) 0, 0⟩).dataLen = n := by
    intro n hn
    show ((List.replicate (n + 8) (0 : UInt8)).length + Platform.pico.sizeModulus - 8) %
      Platform.pico.sizeModulus = n
    have hwraps : n + 8 + Platform.pico.sizeModulus - 8 = n + Platform.pico.sizeModulus := by omega
    rw [List.length_replicate, hwraps, Nat.add_mod_right, Nat.mod_eq_of_lt (by omega)]
  rw [storedMeansLoadable_iff, storedMeansLoadable_iff]
  constructor
  · rintro ⟨_, hloadable⟩
    have hroom := hoffers 1024 (by decide)
    have hbuffer := (hloadable ⟨by decide, by rw [hroom]; decide, ?_⟩).buffer
    · exact absurd hbuffer (by decide)
    · show 0 + 4 + 1021 + 4 ≤ (List.replicate 1032 (0 : UInt8)).length
      rw [List.length_replicate]
      decide
  · rintro ⟨hoffered, _⟩
    rw [hoffers 1025 (by decide)] at hoffered
    exact absurd hoffered (by decide)

end ColonyPico.Persistent.StoredLengths
