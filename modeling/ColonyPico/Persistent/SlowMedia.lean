import ColonyPico.Persistent.CrcChunk
import ColonyPico.Persistent.MirroredChunk

/-!
Loading back what was stored when the medium may deliver a read in pieces.
-/

namespace ColonyPico.Persistent.SlowMedia

open ColonyPico.Checksum.Crc32EthernetFast
open ColonyPico.Foundations.ByteStore
open ColonyPico.Persistent.Media
open ColonyPico.Persistent.MirroredChunk

section Mirrored

variable (P : Platform) (pace : ReadPace) (c : Chunk) (work : List UInt8) (dst : Payload)
  (index transA transB : Nat) (payload : List UInt8)

/-- Both regions hold the payload, each under a transaction ID of its own. -/
structure HoldsBoth : Prop where
  holdsA : Holds c.regionA.bytes index (frame P transA payload)
  holdsB : Holds c.regionB.bytes index (frame P transB payload)
  rangeA : transA < 2 ^ 64
  rangeB : transB < 2 ^ 64
  mirrored : c.regionA.bytes.length = c.regionB.bytes.length
  buffer : payload.length + crcSize ≤ P.workBufferSize

/-- The region answers with a transaction ID that is not taken for corruption. -/
def Answers (reads transId : Nat) : Prop :=
  HeaderFull P pace reads ∧ transId ≠ 0

/-- What the read loop over a region leaves of the payload in the work buffer. -/
def bodyTaken (region : RegionMedia) (transId : Nat) : List UInt8 :=
  (readBody pace (payload.length + crcSize) (bodyStart P region work transId payload.length)
    (index + frameOffsetData P) (payload.length + crcSize)).work.take payload.length

variable (h : HoldsBoth P c index transA transB payload)
include h

/-- With region B's header complete, what the read loop over region B left is
delivered, if a region answers. -/
theorem reload_of_headerB (hB : HeaderFull P pace c.regionB.reads)
    (hanswers : Answers P pace c.regionA.reads transA ∨
      Answers P pace c.regionB.reads transB) :
    ∃ workA, reload P pace c work dst index =
      some (bodyTaken P pace workA index payload c.regionB transB) := by
  refine ⟨(getTransactionId P pace c.regionA work index).work, ?_⟩
  obtain ⟨htransB, hlenB, hworkB⟩ := getTransactionId_of_full_header P pace c.regionB
    (getTransactionId P pace c.regionA work index).work index transB payload h.holdsB h.rangeB
    h.buffer hB
  rw [reload_eq P pace c work dst index h.mirrored]
  simp only [htransB, hlenB, hworkB]
  by_cases hA : HeaderFull P pace c.regionA.reads
  · obtain ⟨htransA, hlenA, -⟩ := getTransactionId_of_full_header P pace c.regionA work index
      transA payload h.holdsA h.rangeA h.buffer hA
    rw [htransA, hlenA, if_neg, ite_self]
    · rfl
    · rintro ⟨hzeroA, hzeroB⟩
      exact hanswers.elim (fun hans => hans.2 hzeroA) (fun hans => hans.2 hzeroB)
  · obtain ⟨htransA, -⟩ := getTransactionId_of_short_header P pace c.regionA work index transA
      payload h.holdsA hA
    rw [htransA, if_neg, if_neg (by omega)]
    · rfl
    · exact fun hzero => hanswers.elim (fun hans => hA hans.1) (fun hans => hans.2 hzero.2)

/-- With only region A's header complete, what the read loop over region A left is
delivered. -/
theorem reload_of_headerA (hB : ¬ HeaderFull P pace c.regionB.reads)
    (hA : Answers P pace c.regionA.reads transA) :
    reload P pace c work dst index =
      some (bodyTaken P pace work index payload c.regionA transA) := by
  obtain ⟨htransA, hlenA, hworkA⟩ := getTransactionId_of_full_header P pace c.regionA work
    index transA payload h.holdsA h.rangeA h.buffer hA.1
  obtain ⟨htransB, hworkB⟩ := getTransactionId_of_short_header P pace c.regionB
    (getTransactionId P pace c.regionA work index).work index transB payload h.holdsB hB
  have hposA : 0 < transA := Nat.pos_of_ne_zero hA.2
  rw [reload_eq P pace c work dst index h.mirrored]
  simp only [htransA, htransB, hlenA, hworkB]
  rw [if_neg (by omega), if_pos hposA, hworkA, bodyTaken]

theorem reload_of_no_answer (hA : ¬ Answers P pace c.regionA.reads transA)
    (hB : ¬ Answers P pace c.regionB.reads transB) :
    reload P pace c work dst index = none := by
  have hzero : ∀ region transId work, Holds region.bytes index (frame P transId payload) →
      transId < 2 ^ 64 → ¬ Answers P pace region.reads transId →
      (getTransactionId P pace region work index).transId = 0 := by
    intro region transId work hold hrange hnot
    by_cases hfull : HeaderFull P pace region.reads
    · rw [(getTransactionId_of_full_header P pace region work index transId payload hold hrange
        h.buffer hfull).1]
      by_contra hne
      exact hnot ⟨hfull, hne⟩
    · exact (getTransactionId_of_short_header P pace region work index transId payload hold
        hfull).1
  rw [reload_eq P pace c work dst index h.mirrored]
  simp only [hzero _ _ _ h.holdsA h.rangeA hA, hzero _ _ _ h.holdsB h.rangeB hB, and_self,
    if_true]

end Mirrored

/-- A fresh `start()` and `loadData()` on what `updateData()` stored. -/
def reloadUpdated (P : Platform) (pace : ReadPace) (c : Chunk) (payload work : List UInt8)
    (dst : Payload) (index : Nat) : Option (List UInt8) :=
  (updateData P c (Payload.ofBytes payload) index false).bind fun update =>
    reload P pace update.chunk work dst index

/-- The data and the CRC come back in one read after the two header reads. -/
def BodyFull (pace : ReadPace) (reads length : Nat) : Prop :=
  pace.count (reads + 2) (length + crcSize) = length + crcSize

section Updated

variable (P : Platform) (pace : ReadPace) (c : Chunk) (side : Side) (index length : Nat)
  (hcurrent : c.currentRegion = some side) (h : Fits P c index length)
include hcurrent h

/-- What is loaded back are two copies of the payload, from regions that have
served as many reads as before the update. -/
theorem exists_holdsBoth_updated (payload : List UInt8) (hpayload : payload.length = length) :
    ∃ c' : Chunk, c'.regionA.reads = c.regionA.reads ∧ c'.regionB.reads = c.regionB.reads ∧
      HoldsBoth P c' index (writtenId c side .a) (writtenId c side .b) payload ∧
      ∀ work dst, reloadUpdated P pace c payload work dst index =
        reload P pace c' work dst index := by
  subst length
  obtain ⟨hnew, hold⟩ := holds_updated P c side index payload h
  have hlen := length_updated P c side index payload h
  have hmirrored : (updated P c side index payload).regionA.bytes.length =
      (updated P c side index payload).regionB.bytes.length :=
    (hlen .a).trans (h.mirrored.trans (hlen .b).symm)
  refine ⟨updated P c side index payload, reads_updated P c side index payload .a,
    reads_updated P c side index payload .b, ?_, fun work dst => ?_⟩
  · cases side
    · exact ⟨hnew, hold, writtenId_lt c _ _, writtenId_lt c _ _, hmirrored, h.buffer⟩
    · exact ⟨hold, hnew, writtenId_lt c _ _, writtenId_lt c _ _, hmirrored, h.buffer⟩
  · rw [reloadUpdated, updateData_of_fits P c side index payload hcurrent h, Option.bind_some]

/-- Every payload of a length comes back exactly when a region answers and the last
region whose header is complete delivers its data whole. -/
theorem reloadUpdated_delivers_iff :
    (∀ payload : List UInt8, payload.length = length → ∀ work dst,
        reloadUpdated P pace c payload work dst index = some payload) ↔
      (Answers P pace c.regionA.reads (writtenId c side .a) ∨
        Answers P pace c.regionB.reads (writtenId c side .b)) ∧
      (HeaderFull P pace c.regionB.reads → BodyFull pace c.regionB.reads length) ∧
      (¬ HeaderFull P pace c.regionB.reads → BodyFull pace c.regionA.reads length) := by
  have hstored := exists_holdsBoth_updated P pace c side index length hcurrent h
  constructor
  · intro hall
    have hanswers : Answers P pace c.regionA.reads (writtenId c side .a) ∨
        Answers P pace c.regionB.reads (writtenId c side .b) := by
      by_contra hnone
      rw [not_or] at hnone
      obtain ⟨c', hreads, hreadsB, hboth, hload⟩ :=
        hstored (List.replicate length 0) (by simp)
      have hgot := hall (List.replicate length 0) (by simp) [] (Payload.ofBytes [])
      rw [hload, reload_of_no_answer P pace c' [] _ index _ _ _ hboth
        (by rw [hreads]; exact hnone.1) (by rw [hreadsB]; exact hnone.2)] at hgot
      simp at hgot
    refine ⟨hanswers, fun hB => ?_, fun hB => ?_⟩
    · by_contra hsplit
      obtain ⟨payload, hpayload, hne⟩ := exists_readBody_ne pace
        (headerCrc P (writtenId c side .b) length) _ length h.pos hsplit
      obtain ⟨c', hreads, hreadsB, hboth, hload⟩ := hstored payload hpayload
      obtain ⟨workA, hgot⟩ := reload_of_headerB P pace c' [] (Payload.ofBytes []) index _ _
        payload hboth (by rwa [hreadsB]) (by rwa [hreads, hreadsB])
      subst length
      refine hne _ _ rfl (by rw [← hreadsB]; rfl)
        (holdsBody_of_frame P c'.regionB workA index _ payload hboth.holdsB)
        (Option.some.inj (hgot.symm.trans ?_))
      rw [← hload]
      exact hall payload rfl _ _
    · by_contra hsplit
      have hA : Answers P pace c.regionA.reads (writtenId c side .a) :=
        hanswers.resolve_right fun hans => hB hans.1
      obtain ⟨payload, hpayload, hne⟩ := exists_readBody_ne pace
        (headerCrc P (writtenId c side .a) length) _ length h.pos hsplit
      obtain ⟨c', hreads, hreadsB, hboth, hload⟩ := hstored payload hpayload
      have hgot := reload_of_headerA P pace c' [] (Payload.ofBytes []) index _ _
        payload hboth (by rwa [hreadsB]) (by rwa [hreads])
      subst length
      refine hne _ _ rfl (by rw [← hreads]; rfl)
        (holdsBody_of_frame P c'.regionA [] index _ payload hboth.holdsA)
        (Option.some.inj (hgot.symm.trans ?_))
      rw [← hload]
      exact hall payload rfl _ _
  · rintro ⟨hanswers, hbodyB, hbodyA⟩ payload hpayload work dst
    obtain ⟨c', hreads, hreadsB, hboth, hload⟩ := hstored payload hpayload
    subst length
    rw [hload]
    by_cases hB : HeaderFull P pace c.regionB.reads
    · obtain ⟨workA, hgot⟩ := reload_of_headerB P pace c' work dst index _ _ payload
        hboth (by rwa [hreadsB]) (by rwa [hreads, hreadsB])
      rw [hgot, bodyTaken, readBody_take_of_full pace _ _ payload
        (holdsBody_of_frame P c'.regionB workA index _ payload hboth.holdsB)
        (by simp only [bodyStart, hreadsB]; exact hbodyB hB)]
    · rw [reload_of_headerA P pace c' work dst index _ _ payload hboth (by rwa [hreadsB])
        (by rw [hreads]; exact hanswers.resolve_right fun hans => hB hans.1),
        bodyTaken, readBody_take_of_full pace _ _ payload
        (holdsBody_of_frame P c'.regionA work index _ payload hboth.holdsA)
        (by simp only [bodyStart, hreads]; exact hbodyA hB)]

end Updated

/-- Both kinds of chunk give back every payload of a length exactly when no header
field and no data that they rely on comes in pieces. -/
theorem chunks_deliver_iff (P : Platform) (pace : ReadPace) (index length : Nat)
    (single : CrcChunk.Chunk) (hsingle : CrcChunk.Fits P single index length)
    (mirrored : Chunk) (side : Side) (hcurrent : mirrored.currentRegion = some side)
    (hmirrored : Fits P mirrored index length) :
    ((∀ payload : List UInt8, payload.length = length → ∀ work dst,
        (CrcChunk.reload P pace single payload work dst index).delivered = some payload) ↔
      pace.count single.region.reads P.sizeofSizeT = P.sizeofSizeT ∧
        pace.count (single.region.reads + 1) (length + crcSize) = length + crcSize) ∧
    ((∀ payload : List UInt8, payload.length = length → ∀ work dst,
        reloadUpdated P pace mirrored payload work dst index = some payload) ↔
      (Answers P pace mirrored.regionA.reads (writtenId mirrored side .a) ∨
        Answers P pace mirrored.regionB.reads (writtenId mirrored side .b)) ∧
      (HeaderFull P pace mirrored.regionB.reads →
        BodyFull pace mirrored.regionB.reads length) ∧
      (¬ HeaderFull P pace mirrored.regionB.reads →
        BodyFull pace mirrored.regionA.reads length)) :=
  ⟨CrcChunk.reload_delivers_iff P pace single index length hsingle,
    reloadUpdated_delivers_iff P pace mirrored side index length hcurrent hmirrored⟩

/-- A medium that delivers at most `most` bytes a read. -/
def paceOfAtMost (most : Nat) (h : 0 < most) : ReadPace where
  count _ n := min n most
  pos _ _ hn := lt_min hn h
  le _ _ := min_le_left _ _

/-- A chunk on an erased region, ready for an update. -/
def erasedSingle : CrcChunk.Chunk := { region := erased, dataLen := 16 }

theorem erasedSingle_fits : CrcChunk.Fits Platform.pico erasedSingle 0 3 :=
  ⟨by decide, by decide, by decide, by decide⟩

/-- On a medium that delivers at most eight bytes at a time both chunks give back all three byte
payloads. -/
theorem chunks_deliver_eight_bytes :
    (∀ payload : List UInt8, payload.length = 3 → ∀ work dst,
      (CrcChunk.reload Platform.pico (paceOfAtMost 8 (by decide)) erasedSingle payload work dst
        0).delivered = some payload) ∧
    ∀ payload : List UInt8, payload.length = 3 → ∀ work dst,
      reloadUpdated Platform.pico (paceOfAtMost 8 (by decide)) blank payload work dst 0 =
        some payload := by
  obtain ⟨hsingle, hmirrored⟩ := chunks_deliver_iff Platform.pico (paceOfAtMost 8 (by decide)) 0 3
    erasedSingle erasedSingle_fits blank .a rfl (blank_fits 3 (by decide) (by decide))
  exact ⟨hsingle.mpr ⟨rfl, rfl⟩,
    hmirrored.mpr ⟨.inl ⟨⟨rfl, rfl⟩, by decide⟩, fun _ => rfl, fun _ => rfl⟩⟩

/-- On a medium that delivers four bytes at a time, `[1, 2, 3]` comes back from a
single copy as the last three CRC bytes, and from mirrored copies not at all. -/
theorem chunks_deliver_fails :
    (CrcChunk.updateData Platform.pico erasedSingle (Payload.ofBytes [1, 2, 3]) 0 false).result =
      true ∧
    (CrcChunk.reload Platform.pico (paceOfAtMost 4 (by decide)) erasedSingle [1, 2, 3] []
      (Payload.ofBytes []) 0).delivered ≠ some [1, 2, 3] ∧
    (updateData Platform.pico blank (Payload.ofBytes [1, 2, 3]) 0 false).map
      Update.result = some true ∧
    reloadUpdated Platform.pico (paceOfAtMost 4 (by decide)) blank [1, 2, 3] []
      (Payload.ofBytes []) 0 ≠ some [1, 2, 3] := by
  set_option maxRecDepth 20000 in decide

end ColonyPico.Persistent.SlowMedia
