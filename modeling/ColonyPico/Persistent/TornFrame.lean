import ColonyPico.Persistent.MirroredChunk

/-!
Mirrored regions whose frames were written in part.

`loadData()` probes region A and then region B through the one work buffer, so a
payload selected from region A is delivered with the bytes that probing region B
left on top of it.
-/

namespace ColonyPico.Persistent.TornFrame

open ColonyPico.Checksum.Crc32EthernetFast
open ColonyPico.Foundations.ByteStore
open ColonyPico.Persistent.Media
open ColonyPico.Persistent.MirroredChunk

/-- The payload `p` after the bytes `s` were stored over its start. -/
def laidOver (p s : List UInt8) : List UInt8 :=
  (s ++ p.drop s.length).take p.length

theorem getElem?_laidOver (p s : List UInt8) (i : Nat) :
    (laidOver p s)[i]? =
      if i < p.length then if i < s.length then s[i]? else p[i]? else none := by
  simp only [laidOver, List.getElem?_take, List.getElem?_append, List.getElem?_drop]
  split_ifs with hp hs
  · rfl
  · congr 1
    omega
  · rfl

theorem length_laidOver (p s : List UInt8) : (laidOver p s).length = p.length := by
  simp only [laidOver, List.length_take, List.length_append, List.length_drop]
  omega

theorem laidOver_append (p q : List UInt8) : laidOver p (p ++ q) = p := by
  rw [laidOver, List.append_assoc, List.take_left]

/-- Only what was on top of the payload's own place counts. -/
theorem take_overwrite_overwrite (work p q s : List UInt8) :
    (overwrite (overwrite work 0 (p ++ q)) 0 s).take p.length = laidOver p s := by
  apply List.ext_getElem?
  intro i
  rw [getElem?_laidOver, List.getElem?_take, getElem?_overwrite _ _ _ _ (Nat.zero_le _),
    getElem?_overwrite _ _ _ _ (Nat.zero_le _)]
  simp only [Nat.not_lt_zero, if_false, Nat.zero_add, Nat.sub_zero, List.length_append]
  split_ifs with hp hs hq
  · rfl
  · rw [List.getElem?_append_left hp]
  · omega
  · rfl

theorem laidOver_eq_self_iff (p s : List UInt8) :
    laidOver p s = p ↔ s.take p.length = p.take s.length := by
  have hpoint : ∀ i : Nat, (s.take p.length)[i]? = (p.take s.length)[i]? ↔
      (laidOver p s)[i]? = p[i]? := by
    intro i
    simp only [getElem?_laidOver, List.getElem?_take]
    split_ifs with hp hs hs
    · rfl
    · simp [List.getElem?_eq_none (Nat.le_of_not_lt hs)]
    · simp [List.getElem?_eq_none (Nat.le_of_not_lt hp)]
    · simp [List.getElem?_eq_none (Nat.le_of_not_lt hp)]
  constructor
  · intro h
    exact List.ext_getElem? fun i => (hpoint i).mpr (by rw [h])
  · intro h
    exact List.ext_getElem? fun i => (hpoint i).mp (by rw [h])

/-- The length field stored in a region. -/
def lengthField (P : Platform) (region : RegionMedia) (index : Nat) : Nat :=
  Foundations.ByteStore.ofBytes (slice region.bytes (index + transIdSize) P.sizeofSizeT)

/-- The data and CRC that the length field announces fit the work buffer and lie
in the region. -/
def Admits (P : Platform) (region : RegionMedia) (index : Nat) : Prop :=
  lengthField P region index + crcSize ≤ P.workBufferSize ∧
    index + frameOffsetData P + (lengthField P region index + crcSize) ≤ region.bytes.length

instance (P : Platform) (region : RegionMedia) (index : Nat) :
    Decidable (Admits P region index) :=
  inferInstanceAs (Decidable (_ ∧ _))

/-- The data and CRC bytes that probing a region stores to the work buffer. -/
def probed (P : Platform) (region : RegionMedia) (index : Nat) : List UInt8 :=
  if Admits P region index then
    slice region.bytes (index + frameOffsetData P) (lengthField P region index + crcSize)
  else []

theorem readBody_full_of_short (s : BodyRead) (offset n : Nat)
    (h : s.region.bytes.length < offset + n) :
    (readBody ReadPace.full n s offset n).work = s.work := by
  cases n with
  | zero => simp
  | succ n =>
      have hread : (s.region.read ReadPace.full offset (n + 1)).1 = [] := by
        rw [RegionMedia.read, RegionMedia.regionLength, if_neg (Nat.not_le_of_lt h)]
      rw [readBody, if_neg (by omega)]
      simp only [hread, List.length_nil, if_true]

/-- Whether or not the CRC is right, probing a region leaves its data in the work
buffer. -/
theorem getTransactionId_work (P : Platform) (region : RegionMedia) (work : List UInt8)
    (index : Nat) (hbuffer : crcSize < P.workBufferSize)
    (hfit : index + frameOffsetData P ≤ region.bytes.length) :
    (getTransactionId P ReadPace.full region work index).work =
      overwrite work 0 (probed P region index) := by
  have hfits := hfit
  simp only [frameOffsetData] at hfits
  have hlenTid := length_slice region.bytes index transIdSize (by omega)
  have hlenLen := length_slice region.bytes (index + transIdSize) P.sizeofSizeT (by omega)
  have hreadTid : region.read ReadPace.full index transIdSize =
      (slice region.bytes index transIdSize, { region with reads := region.reads + 1 }) :=
    read_of_fits ReadPace.full region index transIdSize (by omega)
  have hreadLen : RegionMedia.read ReadPace.full { region with reads := region.reads + 1 }
        (index + transIdSize) P.sizeofSizeT =
      (slice region.bytes (index + transIdSize) P.sizeofSizeT,
        { region with reads := region.reads + 2 }) :=
    read_of_fits ReadPace.full { region with reads := region.reads + 1 }
      (index + transIdSize) P.sizeofSizeT (by simp only; omega)
  have hrange : lengthField P region index < P.sizeModulus := by
    have hlt := ofBytes_lt (slice region.bytes (index + transIdSize) P.sizeofSizeT)
    rwa [hlenLen] at hlt
  have hmod : P.workBufferSize < P.sizeModulus := P.addressable
  have hfield : Foundations.ByteStore.ofBytes
      (slice region.bytes (index + transIdSize) P.sizeofSizeT) = lengthField P region index := rfl
  simp only [getTransactionId, hreadTid, hreadLen, hlenTid, hlenLen, if_true, hfield]
  rcases Nat.lt_or_ge (lengthField P region index + crcSize) P.sizeModulus with hlow | hhigh
  · rw [Nat.mod_eq_of_lt hlow]
    by_cases haccept : lengthField P region index + crcSize ≤ P.workBufferSize
    · rw [if_pos ⟨haccept, by simp [crcSize]⟩, apply_ite Probe.work, ite_self]
      rcases Nat.lt_or_ge region.bytes.length
        (index + frameOffsetData P + (lengthField P region index + crcSize)) with hout | hin
      · rw [readBody_full_of_short _ _ _ hout, probed,
          if_neg fun h => Nat.not_le_of_lt hout h.2, overwrite_nil]
      · rw [readBody_work_of_full _ _ _ _ hin rfl, probed, if_pos ⟨haccept, hin⟩]
    · rw [if_neg fun h => haccept h.1, probed, if_neg fun h => haccept h.1, overwrite_nil]
  · -- the sum rolled over, so the length exceeds it and the buffer
    have hroll : (lengthField P region index + crcSize) % P.sizeModulus =
        lengthField P region index + crcSize - P.sizeModulus := by
      rw [Nat.mod_eq_sub_mod hhigh]
      exact Nat.mod_eq_of_lt (by omega)
    rw [hroll, if_neg (by omega), probed, if_neg (fun h => by have := h.1; omega), overwrite_nil]

/-- A region when power is lost after `cut` bytes of a frame reached it. -/
def torn (P : Platform) (region : RegionMedia) (index transId : Nat) (payload : List UInt8)
    (cut : Nat) : RegionMedia :=
  { region with bytes := overwrite region.bytes index ((frame P transId payload).take cut) }

/-- The data and CRC bytes among the first `cut` bytes of a frame. -/
def dataWritten (P : Platform) (transId : Nat) (payload : List UInt8) (cut : Nat) :
    List UInt8 :=
  ((frame P transId payload).take cut).drop (frameOffsetData P)

theorem length_dataWritten (P : Platform) (transId : Nat) (payload : List UInt8) (cut : Nat) :
    (dataWritten P transId payload cut).length =
      min (cut - frameOffsetData P) (payload.length + crcSize) := by
  simp only [dataWritten, List.length_drop, List.length_take, length_frame]
  omega

theorem getElem?_dataWritten (P : Platform) (transId : Nat) (payload : List UInt8)
    (cut i : Nat) (hi : i < (dataWritten P transId payload cut).length)
    (hpayload : i < payload.length) :
    (dataWritten P transId payload cut)[i]? = payload[i]? := by
  rw [length_dataWritten] at hi
  rw [dataWritten, List.getElem?_drop, List.getElem?_take, if_pos (by omega), frame_eq,
    List.getElem?_append_right (by simp [frameOffsetData]; omega),
    List.getElem?_append_right (by simp [frameOffsetData]; omega),
    List.getElem?_append_left (by simp [frameOffsetData]; omega)]
  congr 1
  simp [frameOffsetData]
  omega

section Torn

variable (P : Platform) (region : RegionMedia) (index oldId newId : Nat)
  (old new : List UInt8) (cut : Nat)
  (hold : Holds region.bytes index (frame P oldId old))
  (hle : new.length ≤ old.length)
include hold hle

theorem length_torn : (torn P region index newId new cut).bytes.length = region.bytes.length := by
  have hfit := hold.1
  rw [length_frame] at hfit
  exact length_overwrite _ _ _ (by simp only [List.length_take, length_frame]; omega)

theorem holds_torn_of_le (hcut : (frame P newId new).length ≤ cut) :
    Holds (torn P region index newId new cut).bytes index (frame P newId new) := by
  have hfit := hold.1
  rw [length_frame] at hfit
  simp only [torn, List.take_of_length_le hcut]
  exact holds_overwrite _ _ _ (by rw [length_frame]; omega)

/-- What follows the header of a torn frame: the new data so far, then the old. -/
theorem getElem?_torn_data (i : Nat) (hi : i < old.length) :
    (torn P region index newId new cut).bytes[index + frameOffsetData P + i]? =
      if i < (dataWritten P newId new cut).length then (dataWritten P newId new cut)[i]?
      else old[i]? := by
  have hfit := hold.1
  rw [length_frame] at hfit
  have hslice := (holdsBody_of_frame P region [] index oldId old hold)
  have hold' : region.bytes[index + frameOffsetData P + i]? = old[i]? := by
    have hget := hslice.getElem? (i := i) (by rw [List.length_append]; omega)
    rwa [List.getElem?_append_left hi] at hget
  simp only [torn, getElem?_overwrite _ _ _ _ (by omega : index ≤ region.bytes.length),
    if_neg (by omega : ¬ index + frameOffsetData P + i < index), List.length_take,
    length_dataWritten, length_frame]
  split_ifs with h1 h2 h2
  · rw [dataWritten, List.getElem?_drop]
    congr 1
    omega
  · omega
  · omega
  · exact hold'

/-- The length field of a torn frame: low bytes of the new length, high bytes of the
old. -/
theorem slice_torn_length :
    slice (torn P region index newId new cut).bytes (index + transIdSize) P.sizeofSizeT =
      (toBytes P.sizeofSizeT new.length).take (cut - transIdSize) ++
        (toBytes P.sizeofSizeT old.length).drop (cut - transIdSize) := by
  obtain ⟨-, hlen, hfit⟩ := holds_header P region index oldId old hold
  simp only [frameOffsetData] at hfit
  apply List.ext_getElem?
  intro i
  have hold' : i < P.sizeofSizeT →
      region.bytes[index + transIdSize + i]? = (toBytes P.sizeofSizeT old.length)[i]? := by
    intro hi
    rw [← hlen, getElem?_slice, if_pos hi]
  have hnew : i < P.sizeofSizeT → (frame P newId new)[transIdSize + i]? =
      (toBytes P.sizeofSizeT new.length)[i]? := by
    intro hi
    rw [frame_eq, List.getElem?_append_right (by simp), List.getElem?_append_left (by simp; omega)]
    congr 1
    simp
  rw [getElem?_slice]
  rcases Nat.lt_or_ge i P.sizeofSizeT with hi | hi
  · rw [if_pos hi, torn, getElem?_overwrite _ _ _ _ (by omega), if_neg (by omega)]
    simp only [List.length_take, length_frame, frameOffsetData]
    by_cases hcut : i < cut - transIdSize
    · rw [if_pos (by omega), List.getElem?_take, if_pos (by omega),
        List.getElem?_append_left (by simp only [List.length_take, length_toBytes]; omega),
        List.getElem?_take, if_pos hcut, ← hnew hi]
      congr 1
      omega
    · rw [if_neg (by omega), hold' hi, List.getElem?_append_right
        (by simp only [List.length_take, length_toBytes]; omega), List.getElem?_drop]
      simp only [List.length_take, length_toBytes]
      congr 1
      omega
  · rw [if_neg (by omega), List.getElem?_eq_none]
    simp only [List.length_append, List.length_take, List.length_drop, length_toBytes]
    omega

theorem lengthField_torn (hbuffer : old.length + crcSize ≤ P.workBufferSize) :
    new.length ≤ lengthField P (torn P region index newId new cut) index ∧
      (frameOffsetData P ≤ cut →
        lengthField P (torn P region index newId new cut) index = new.length) := by
  have hmod := P.addressable
  rw [lengthField, slice_torn_length P region index oldId newId old new cut hold hle]
  refine ⟨le_ofBytes_take_drop _ _ _ _ hle (by omega), fun hcut => ?_⟩
  simp only [frameOffsetData] at hcut
  rw [List.take_of_length_le (by rw [length_toBytes]; omega),
    List.drop_of_length_le (by rw [length_toBytes]; omega), List.append_nil,
    ofBytes_toBytes _ _ (by omega)]

theorem getElem?_probed_torn (i : Nat) (hi : i < old.length)
    (hprobed : i < (probed P (torn P region index newId new cut) index).length) :
    (probed P (torn P region index newId new cut) index)[i]? =
      if i < (dataWritten P newId new cut).length then (dataWritten P newId new cut)[i]?
      else old[i]? := by
  by_cases haccept : Admits P (torn P region index newId new cut) index
  · rw [probed, if_pos haccept, length_slice _ _ _ haccept.2] at hprobed
    rw [probed, if_pos haccept, getElem?_slice, if_pos hprobed]
    exact getElem?_torn_data P region index oldId newId old new cut hold hle i hi
  · rw [probed, if_neg haccept] at hprobed
    exact absurd hprobed (Nat.not_lt_zero _)

/-- Over the old payload, probing the torn region leaves the data written so far. -/
theorem laidOver_old_torn (hbuffer : old.length + crcSize ≤ P.workBufferSize) :
    laidOver old (probed P (torn P region index newId new cut) index) =
      laidOver old (dataWritten P newId new cut) := by
  obtain ⟨-, hfield⟩ := lengthField_torn P region index oldId newId old new cut hold hle hbuffer
  have hlen := length_torn P region index oldId newId old new cut hold hle
  have hfit := hold.1
  rw [length_frame] at hfit
  have hwritten := length_dataWritten P newId new cut
  apply List.ext_getElem?
  intro i
  simp only [getElem?_laidOver]
  split_ifs with hi hprobed hdata hdata
  · rw [getElem?_probed_torn P region index oldId newId old new cut hold hle i hi hprobed,
      if_pos hdata]
  · rw [getElem?_probed_torn P region index oldId newId old new cut hold hle i hi hprobed,
      if_neg hdata]
  · -- data reached the region, so its header is complete and announces it
    exfalso
    have hnew := hfield (by omega)
    have haccept : Admits P (torn P region index newId new cut) index := by
      rw [Admits, hnew, hlen]
      omega
    apply hprobed
    rw [probed, if_pos haccept, length_slice _ _ _ haccept.2, hnew]
    omega
  · rfl
  · rfl

/-- Over the new payload, probing the torn region leaves the old bytes that the new
ones have not replaced yet. -/
theorem laidOver_new_torn (hbuffer : old.length + crcSize ≤ P.workBufferSize) :
    laidOver new (probed P (torn P region index newId new cut) index) =
      if Admits P (torn P region index newId new cut) index then
        laidOver (old.take new.length) (new.take (cut - frameOffsetData P))
      else new := by
  obtain ⟨hfield, -⟩ := lengthField_torn P region index oldId newId old new cut hold hle hbuffer
  have hwritten := length_dataWritten P newId new cut
  apply List.ext_getElem?
  intro i
  split_ifs with haccept
  · have hlen : (probed P (torn P region index newId new cut) index).length =
        lengthField P (torn P region index newId new cut) index + crcSize := by
      rw [probed, if_pos haccept, length_slice _ _ _ haccept.2]
    simp only [getElem?_laidOver, List.length_take, List.getElem?_take,
      Nat.min_eq_left hle]
    rcases Nat.lt_or_ge i new.length with hi | hi
    · rw [if_pos hi, if_pos (by omega), if_pos hi,
        getElem?_probed_torn P region index oldId newId old new cut hold hle i (by omega)
          (by omega)]
      rcases Nat.lt_or_ge i (cut - frameOffsetData P) with hcut | hcut
      · rw [if_pos (by omega), if_pos (by omega), if_pos hcut]
        exact getElem?_dataWritten P newId new cut i (by omega) hi
      · rw [if_neg (by omega), if_neg (by omega), if_pos hi]
    · rw [if_neg (by omega), if_neg (by omega)]
  · rw [probed, if_neg haccept, getElem?_laidOver]
    split_ifs with hi hzero
    · exact absurd hzero (Nat.not_lt_zero _)
    · rfl
    · exact (List.getElem?_eq_none (by omega)).symm

end Torn

/-- With the bytes on top taken from a payload of the same length, what results is
that payload exactly when the rest agrees. -/
theorem laidOver_eq_iff (p s q : List UInt8) (hlen : p.length = q.length)
    (hs : ∀ i, i < s.length → i < q.length → s[i]? = q[i]?) :
    laidOver p s = q ↔ p.drop s.length = q.drop s.length := by
  have hpoint : ∀ i : Nat, (laidOver p s)[i]? = q[i]? ↔ (i < s.length ∨ p[i]? = q[i]?) := by
    intro i
    rw [getElem?_laidOver]
    split_ifs with hp hi
    · exact iff_of_true (hs i hi (by omega)) (.inl hi)
    · simp [hi]
    · simp [List.getElem?_eq_none (by omega : p.length ≤ i),
        List.getElem?_eq_none (by omega : q.length ≤ i)]
  constructor
  · intro h
    apply List.ext_getElem?
    intro i
    rw [List.getElem?_drop, List.getElem?_drop]
    exact ((hpoint (s.length + i)).mp (by rw [h])).resolve_left (by omega)
  · intro h
    apply List.ext_getElem?
    intro i
    rw [hpoint]
    rcases Nat.lt_or_ge i s.length with hi | hi
    · exact .inl hi
    · have hdrop := congrArg (fun bytes => bytes[i - s.length]?) h
      simp only [List.getElem?_drop, Nat.add_sub_cancel' hi] at hdrop
      exact .inr hdrop

theorem headerFull_full (P : Platform) (reads : Nat) : HeaderFull P ReadPace.full reads :=
  ⟨rfl, rfl⟩

/-- A region answers a probe with a transaction ID, whatever the work buffer
holds. -/
def Probes (P : Platform) (region : RegionMedia) (index transId : Nat) : Prop :=
  ∀ work, (getTransactionId P ReadPace.full region work index).transId = transId

theorem probes_iff (P : Platform) (region : RegionMedia) (index transId : Nat) :
    Probes P region index transId ↔
      (getTransactionId P ReadPace.full region [] index).transId = transId := by
  have hwork : ∀ work, (getTransactionId P ReadPace.full region work index).transId =
      (getTransactionId P ReadPace.full region [] index).transId := by
    intro work
    simp only [getTransactionId]
    split_ifs with htid hlen haccept hokay hokay' hokay'
    · rfl
    · exact absurd ((congrArg isOkay (readBody_crc_work _ _ _ _ _ _)).trans hokay) hokay'
    · exact absurd ((congrArg isOkay (readBody_crc_work _ _ _ _ _ _)).trans hokay') hokay
    · rfl
    · rfl
    · rfl
    · rfl
  exact ⟨fun h => h [], fun h work => (hwork work).trans h⟩

instance (P : Platform) (region : RegionMedia) (index transId : Nat) :
    Decidable (Probes P region index transId) :=
  decidable_of_iff _ (probes_iff P region index transId).symm

section Select

variable (P : Platform) (c : Chunk) (work : List UInt8) (dst : Payload) (index : Nat)
  (payload : List UInt8) (transId other : Nat)
  (hmirrored : c.regionA.bytes.length = c.regionB.bytes.length)
  (hbuffer : payload.length + crcSize ≤ P.workBufferSize)
  (hpos : 0 < payload.length) (hrange : transId < 2 ^ 64)

theorem probes_of_holds (region : RegionMedia)
    (hbuffer : payload.length + crcSize ≤ P.workBufferSize) (hrange : transId < 2 ^ 64)
    (hold : Holds region.bytes index (frame P transId payload)) :
    Probes P region index transId := fun work =>
  (getTransactionId_of_full_header P ReadPace.full region work index transId payload hold
    hrange hbuffer (headerFull_full P _)).1

theorem probed_of_holds (region : RegionMedia)
    (hbuffer : payload.length + crcSize ≤ P.workBufferSize)
    (hold : Holds region.bytes index (frame P transId payload)) :
    probed P region index =
      payload ++ finalize (accumulate (headerCrc P transId payload.length) payload) := by
  obtain ⟨-, hlen, hfit⟩ := holds_header P region index transId payload hold
  have hmod := P.addressable
  have hfield : lengthField P region index = payload.length := by
    rw [lengthField, hlen, ofBytes_toBytes _ _ (by omega)]
  rw [probed, if_pos (by rw [Admits, hfield]; omega), hfield]
  exact holdsBody_slice _ _ payload (holdsBody_of_frame P region [] index transId payload hold)

include hmirrored hbuffer hpos hrange

theorem reload_of_selectsB (hold : Holds c.regionB.bytes index (frame P transId payload))
    (hA : Probes P c.regionA index other) (hle : other ≤ transId) (hne : transId ≠ 0) :
    reload P ReadPace.full c work dst index = some payload := by
  obtain ⟨htrans, hlen, -⟩ := getTransactionId_of_full_header P ReadPace.full c.regionB
    (getTransactionId P ReadPace.full c.regionA work index).work index transId payload hold
    hrange hbuffer (headerFull_full P _)
  have hfit := (holds_header P c.regionB index transId payload hold).2.2
  have hwork := getTransactionId_work P c.regionB
    (getTransactionId P ReadPace.full c.regionA work index).work index (by omega) (by omega)
  rw [reload_eq P _ c work dst index hmirrored]
  simp only [htrans, hlen, hwork, hA work]
  rw [if_neg (by omega), if_neg (by omega),
    probed_of_holds P index payload transId c.regionB hbuffer hold, overwrite, List.take_zero,
    List.nil_append, List.append_assoc, List.take_left]

/-- Region A is delivered with what probing region B left on top of it. -/
theorem reload_of_selectsA (hold : Holds c.regionA.bytes index (frame P transId payload))
    (hB : Probes P c.regionB index other) (hlt : other < transId) :
    reload P ReadPace.full c work dst index =
      some (laidOver payload (probed P c.regionB index)) := by
  obtain ⟨htrans, hlen, -⟩ := getTransactionId_of_full_header P ReadPace.full c.regionA work
    index transId payload hold hrange hbuffer (headerFull_full P _)
  have hfit := (holds_header P c.regionA index transId payload hold).2.2
  have hworkA := getTransactionId_work P c.regionA work index (by omega) (by omega)
  have hworkB := getTransactionId_work P c.regionB
    (getTransactionId P ReadPace.full c.regionA work index).work index (by omega) (by omega)
  rw [reload_eq P _ c work dst index hmirrored]
  simp only [htrans, hlen, hworkB, hB _]
  rw [if_neg (by omega), if_pos hlt, hworkA,
    probed_of_holds P index payload transId c.regionA hbuffer hold, take_overwrite_overwrite]

end Select

theorem reload_of_no_answer (P : Platform) (c : Chunk) (work : List UInt8) (dst : Payload)
    (index : Nat) (hmirrored : c.regionA.bytes.length = c.regionB.bytes.length)
    (hA : Probes P c.regionA index 0) (hB : Probes P c.regionB index 0) :
    reload P ReadPace.full c work dst index = none := by
  rw [reload_eq P _ c work dst index hmirrored]
  simp only [hA _, hB _, and_self, if_true]

end ColonyPico.Persistent.TornFrame
