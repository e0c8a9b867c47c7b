import ColonyPico.Checksum.Crc32EthernetFast
import ColonyPico.Foundations.ByteStore

/-!
The media that chunks are stored on (`Cpl::Persistent::RegionMedia`), the
payload handlers that chunks serve (`Cpl::Persistent::Payload`) and the read
loop that `CrcChunk` and `MirroredChunk` share.
-/

namespace ColonyPico.Persistent.Media

open ColonyPico.Checksum
open ColonyPico.Checksum.Crc32EthernetFast
open ColonyPico.Foundations.ByteStore

/-- The build options the chunks depend on: `sizeof(size_t)` and the size of
`g_workBuffer_` (`OPTION_CPL_PERSISTENT_WORK_BUFFER_SIZE`). -/
structure Platform where
  sizeofSizeT : Nat
  workBufferSize : Nat
  addressable : workBufferSize < 256 ^ sizeofSizeT

/-- The RP2040 with the default options. -/
def Platform.pico : Platform := ⟨4, 1024, by norm_num⟩

/-- One more than the largest `size_t`. -/
def Platform.sizeModulus (P : Platform) : Nat :=
  256 ^ P.sizeofSizeT

def crcSize : Nat := 4

/-- A region: its bytes and how many reads it has served. -/
structure RegionMedia where
  bytes : List UInt8
  reads : Nat := 0
  deriving DecidableEq, Repr

/-- An erased region of 32 bytes. -/
def erased : RegionMedia := { bytes := List.replicate 32 0xFF }

/-- How many bytes each read call delivers: at least one, never more than asked
for. -/
structure ReadPace where
  count : Nat → Nat → Nat
  pos : ∀ call n, 0 < n → 0 < count call n
  le : ∀ call n, count call n ≤ n

/-- A medium whose every read is complete. -/
def ReadPace.full : ReadPace where
  count _ n := n
  pos _ _ h := h
  le _ _ := Nat.le_refl _

namespace RegionMedia

/-- `getRegionLength()`. -/
def regionLength (r : RegionMedia) : Nat :=
  r.bytes.length

/-- `write()`: refused when it does not fit the region. -/
def write (r : RegionMedia) (offset : Nat) (src : List UInt8) : Bool × RegionMedia :=
  if offset + src.length ≤ r.regionLength then
    (true, { r with bytes := overwrite r.bytes offset src })
  else (false, r)

/-- `read()`: the bytes delivered, none when the range is not in the region. -/
def read (pace : ReadPace) (r : RegionMedia) (offset bytesToRead : Nat) :
    List UInt8 × RegionMedia :=
  let next := { r with reads := r.reads + 1 }
  if offset + bytesToRead ≤ r.regionLength then
    (slice r.bytes offset (pace.count r.reads bytesToRead), next)
  else ([], next)

end RegionMedia

/-- A record's payload handler. `getData` gives the bytes it copies into a
destination of the given size, none on failure; `putData` consumes bytes. -/
structure Payload where
  getData : Nat → List UInt8
  putData : List UInt8 → Bool
  fits : ∀ maxDstLen, (getData maxDstLen).length ≤ maxDstLen

/-- The payload handler of a record whose data is `bytes`. -/
def Payload.ofBytes (bytes : List UInt8) : Payload where
  getData maxDstLen := if bytes.length ≤ maxDstLen then bytes else []
  putData _ := true
  fits maxDstLen := by split <;> simp_all

/-- The CRC bytes, corrupted when the record is being erased. -/
def crcBuffer (crc : Crc32) (invalidate : Bool) : List UInt8 :=
  if invalidate then (finalize crc).modifyHead (· ^^^ 0xA5) else finalize crc

/-- Where a read of the data and CRC bytes stops. -/
structure BodyRead where
  region : RegionMedia
  crc : Crc32
  work : List UInt8
  deriving DecidableEq, Repr

/-- The loop that reads the data and the CRC bytes. `dstPtr` is never advanced,
so every pass stores to the start of the work buffer. Each pass consumes at
least one byte, so `dataRemaining` passes are enough. -/
def readBody (pace : ReadPace) : Nat → BodyRead → Nat → Nat → BodyRead
  | 0, s, _, _ => s
  | fuel + 1, s, offset, dataRemaining =>
      if dataRemaining = 0 then s
      else
        let got := s.region.read pace offset dataRemaining
        let bytesRead := got.1.length
        if bytesRead = 0 then { s with region := got.2 }
        else
          let work := overwrite s.work 0 got.1
          readBody pace fuel
            { region := got.2
              crc := accumulate s.crc (work.take bytesRead)
              work := work }
            (offset + bytesRead) (dataRemaining - bytesRead)

theorem write_of_fits (r : RegionMedia) (offset : Nat) (src : List UInt8)
    (h : offset + src.length ≤ r.bytes.length) :
    r.write offset src = (true, { r with bytes := overwrite r.bytes offset src }) := by
  simp [RegionMedia.write, RegionMedia.regionLength, h]

/-- Writing on from where the last write stopped extends it. -/
theorem write_overwrite (r : RegionMedia) (offset : Nat) (xs ys : List UInt8)
    (h : offset + (xs ++ ys).length ≤ r.bytes.length) :
    RegionMedia.write { r with bytes := overwrite r.bytes offset xs }
        (offset + xs.length) ys =
      (true, { r with bytes := overwrite r.bytes offset (xs ++ ys) }) := by
  rw [List.length_append] at h
  have hlen := length_overwrite r.bytes offset xs (by omega)
  rw [write_of_fits _ _ _ (by simp only [hlen]; omega),
    overwrite_overwrite_append _ _ _ _ (by omega)]

theorem read_of_fits (pace : ReadPace) (r : RegionMedia) (offset n : Nat)
    (h : offset + n ≤ r.bytes.length) :
    r.read pace offset n =
      (slice r.bytes offset (pace.count r.reads n), { r with reads := r.reads + 1 }) := by
  simp [RegionMedia.read, RegionMedia.regionLength, h]

theorem length_read_of_fits (pace : ReadPace) (r : RegionMedia) (offset n : Nat)
    (h : offset + n ≤ r.bytes.length) :
    (r.read pace offset n).1.length = pace.count r.reads n := by
  have hle := pace.le r.reads n
  rw [read_of_fits pace r offset n h]
  exact length_slice _ _ _ (by omega)

@[simp] theorem bytes_read (pace : ReadPace) (r : RegionMedia) (offset n : Nat) :
    (r.read pace offset n).2.bytes = r.bytes := by
  simp only [RegionMedia.read]
  split <;> rfl

@[simp] theorem reads_read (pace : ReadPace) (r : RegionMedia) (offset n : Nat) :
    (r.read pace offset n).2.reads = r.reads + 1 := by
  simp only [RegionMedia.read]
  split <;> rfl

theorem take_overwrite_zero (work src : List UInt8) :
    (overwrite work 0 src).take src.length = src := by
  simp [overwrite]

@[simp] theorem readBody_zero (pace : ReadPace) (fuel : Nat) (s : BodyRead) (offset : Nat) :
    readBody pace fuel s offset 0 = s := by
  cases fuel <;> simp [readBody]

theorem readBody_succ (pace : ReadPace) (fuel : Nat) (s : BodyRead) (offset n : Nat)
    (hn : 0 < n) (h : offset + n ≤ s.region.bytes.length) :
    readBody pace (fuel + 1) s offset n =
      readBody pace fuel
        { region := { s.region with reads := s.region.reads + 1 }
          crc := accumulate s.crc (slice s.region.bytes offset (pace.count s.region.reads n))
          work := overwrite s.work 0
            (slice s.region.bytes offset (pace.count s.region.reads n)) }
        (offset + pace.count s.region.reads n) (n - pace.count s.region.reads n) := by
  have hpos := pace.pos s.region.reads n hn
  have hle := pace.le s.region.reads n
  have hlen := length_slice s.region.bytes offset (pace.count s.region.reads n) (by omega)
  have htake := take_overwrite_zero s.work
    (slice s.region.bytes offset (pace.count s.region.reads n))
  rw [hlen] at htake
  rw [readBody, if_neg (by omega), read_of_fits pace s.region offset n h]
  simp only [hlen, htake]
  rw [if_neg (by omega)]

/-- Whatever the pace, the loop accumulates the CRC of the bytes in order and
leaves the medium as it was. -/
theorem readBody_crc (pace : ReadPace) (fuel : Nat) (s : BodyRead) (offset n : Nat)
    (hfuel : n ≤ fuel) (h : offset + n ≤ s.region.bytes.length) :
    (readBody pace fuel s offset n).crc = accumulate s.crc (slice s.region.bytes offset n) ∧
      (readBody pace fuel s offset n).region.bytes = s.region.bytes := by
  induction fuel generalizing s offset n with
  | zero =>
      have hn : n = 0 := by omega
      subst n
      simp [slice]
  | succ fuel ih =>
      rcases Nat.eq_zero_or_pos n with rfl | hn
      · simp [slice]
      · have hpos := pace.pos s.region.reads n hn
        have hle := pace.le s.region.reads n
        rw [readBody_succ pace fuel s offset n hn h]
        obtain ⟨hcrc, hbytes⟩ := ih
          { region := { s.region with reads := s.region.reads + 1 }
            crc := accumulate s.crc (slice s.region.bytes offset (pace.count s.region.reads n))
            work := overwrite s.work 0
              (slice s.region.bytes offset (pace.count s.region.reads n)) }
          (offset + pace.count s.region.reads n) (n - pace.count s.region.reads n)
          (by omega) (by simp only; omega)
        refine ⟨?_, hbytes⟩
        rw [hcrc, ← accumulate_append, ← slice_append]
        congr 2
        omega

/-- What the work buffer held does not matter for the CRC. -/
theorem readBody_crc_work (pace : ReadPace) (fuel : Nat) (s : BodyRead) (work : List UInt8)
    (offset n : Nat) :
    (readBody pace fuel { s with work := work } offset n).crc =
      (readBody pace fuel s offset n).crc := by
  induction fuel generalizing s work offset n with
  | zero => rfl
  | succ fuel ih =>
      simp only [readBody, take_overwrite_zero]
      split_ifs with hzero hnone
      · rfl
      · rfl
      · exact ih
          { region := (s.region.read pace offset n).2
            crc := accumulate s.crc (s.region.read pace offset n).1
            work := overwrite s.work 0 (s.region.read pace offset n).1 } _ _ _

/-- A read that is complete at the first call leaves exactly the bytes asked for
at the start of the work buffer. -/
theorem readBody_work_of_full (pace : ReadPace) (s : BodyRead) (offset n : Nat)
    (h : offset + n ≤ s.region.bytes.length) (hfull : pace.count s.region.reads n = n) :
    (readBody pace n s offset n).work = overwrite s.work 0 (slice s.region.bytes offset n) := by
  cases n with
  | zero => simp [slice]
  | succ n =>
      rw [readBody_succ pace n s offset (n + 1) (by omega) h, hfull, Nat.sub_self,
        readBody_zero]

/-- Where, in the `n` bytes being read, the last read call starts. -/
def lastReadStart (pace : ReadPace) : Nat → Nat → Nat → Nat
  | 0, _, _ => 0
  | fuel + 1, reads, n =>
      if n ≤ pace.count reads n then 0
      else pace.count reads n + lastReadStart pace fuel (reads + 1) (n - pace.count reads n)

theorem lastReadStart_lt (pace : ReadPace) (fuel reads n : Nat) (hn : 0 < n) :
    lastReadStart pace fuel reads n < n := by
  induction fuel generalizing reads n with
  | zero => simpa [lastReadStart] using hn
  | succ fuel ih =>
      rw [lastReadStart]
      split_ifs with hfull
      · exact hn
      · have := ih (reads + 1) (n - pace.count reads n) (by omega)
        omega

theorem lastReadStart_pos (pace : ReadPace) (reads n : Nat)
    (hshort : pace.count reads n ≠ n) : 0 < lastReadStart pace n reads n := by
  have hle := pace.le reads n
  cases n with
  | zero => omega
  | succ n =>
      have hpos := pace.pos reads (n + 1) (by omega)
      rw [lastReadStart, if_neg (by omega)]
      omega

/-- The first byte of the work buffer comes from the start of the last read. -/
theorem readBody_work_first (pace : ReadPace) (fuel : Nat) (s : BodyRead) (offset n : Nat)
    (hn : 0 < n) (hfuel : n ≤ fuel) (h : offset + n ≤ s.region.bytes.length) :
    (readBody pace fuel s offset n).work[0]? =
      s.region.bytes[offset + lastReadStart pace fuel s.region.reads n]? := by
  induction fuel generalizing s offset n with
  | zero => omega
  | succ fuel ih =>
      have hpos := pace.pos s.region.reads n hn
      have hle := pace.le s.region.reads n
      rw [readBody_succ pace fuel s offset n hn h, lastReadStart]
      split_ifs with hfull
      · have hcount : pace.count s.region.reads n = n := by omega
        have hlen := length_slice s.region.bytes offset n h
        rw [hcount, Nat.sub_self, readBody_zero, getElem?_overwrite _ _ _ _ (Nat.zero_le _),
          if_neg (by omega), if_pos (by omega), getElem?_slice, if_pos (by omega)]
      · rw [ih _ _ _ (by omega) (by omega) (by simp only; omega)]
        simp only
        congr 1
        omega

section Frame

variable (pace : ReadPace) (s : BodyRead) (offset : Nat) (payload : List UInt8)

/-- The region holds the payload and the CRC that continues the header's. -/
def HoldsBody : Prop :=
  Holds s.region.bytes offset (payload ++ finalize (accumulate s.crc payload))

variable (h : HoldsBody s offset payload)
include h

theorem holdsBody_fits : offset + (payload.length + crcSize) ≤ s.region.bytes.length := by
  have hfit := h.1
  rw [List.length_append] at hfit
  exact hfit

theorem holdsBody_slice :
    slice s.region.bytes offset (payload.length + crcSize) =
      payload ++ finalize (accumulate s.crc payload) := by
  have hslice := h.2
  rw [List.length_append] at hslice
  exact hslice

theorem readBody_isOkay :
    isOkay (readBody pace (payload.length + crcSize) s offset
      (payload.length + crcSize)).crc = true := by
  have hfit := holdsBody_fits s offset payload h
  rw [(readBody_crc pace _ s offset _ (Nat.le_refl _) hfit).1,
    holdsBody_slice s offset payload h, accumulate_append]
  exact isOkay_accumulate_finalize _

theorem readBody_take_of_full
    (hfull : pace.count s.region.reads (payload.length + crcSize) = payload.length + crcSize) :
    (readBody pace (payload.length + crcSize) s offset
      (payload.length + crcSize)).work.take payload.length = payload := by
  have hfit := holdsBody_fits s offset payload h
  rw [readBody_work_of_full pace s offset _ hfit hfull, holdsBody_slice s offset payload h,
    overwrite, List.take_zero, List.nil_append, List.append_assoc, List.take_left]

theorem readBody_first :
    (readBody pace (payload.length + crcSize) s offset
      (payload.length + crcSize)).work[0]? =
      (payload ++ finalize (accumulate s.crc payload))[
        lastReadStart pace (payload.length + crcSize) s.region.reads
          (payload.length + crcSize)]? := by
  have hfit := holdsBody_fits s offset payload h
  have hpos : 0 < payload.length + crcSize := by simp [crcSize]
  rw [readBody_work_first pace _ s offset _ hpos (Nat.le_refl _) hfit,
    ← holdsBody_slice s offset payload h, getElem?_slice,
    if_pos (lastReadStart_lt pace _ s.region.reads _ hpos)]

end Frame

/-- No position of the data and CRC bytes past the first repeats the first
payload byte for all payloads of a length. -/
theorem exists_payload_ne (crc : Crc32) (length start : Nat) (hlength : 0 < length)
    (hstart : 0 < start) (hbound : start < length + crcSize) :
    ∃ payload : List UInt8, payload.length = length ∧
      (payload ++ finalize (accumulate crc payload))[start]? ≠ payload[0]? := by
  rcases Nat.lt_or_ge start length with hin | hout
  · refine ⟨(List.replicate length 0).set start 1, by simp, ?_⟩
    rw [List.getElem?_append_left (by simpa using hin)]
    have hne : start ≠ 0 := by omega
    simp [hin, hlength, hne]
  · obtain ⟨k, rfl⟩ := Nat.exists_eq_add_of_lt hlength
    simp only [crcSize] at hbound
    have hj : start - (k + 1) < 4 := by omega
    obtain ⟨havoid, hrepeat⟩ := exists_last_byte
      (accumulate crc (List.replicate k 0)) (start - (k + 1)) hj 0
    cases k with
    | zero =>
        obtain ⟨x, hx⟩ := hrepeat
        refine ⟨[x], rfl, ?_⟩
        rw [List.getElem?_append_right (by simpa using hout)]
        simpa using hx
    | succ k =>
        obtain ⟨x, hx⟩ := havoid
        refine ⟨List.replicate (k + 1) 0 ++ [x], by simp, ?_⟩
        rw [List.getElem?_append_right (by simpa using hout), accumulate_append]
        simpa [List.replicate_succ] using hx

/-- A read of the data that comes in pieces spoils some payload of the length. -/
theorem exists_readBody_ne (pace : ReadPace) (crc : Crc32) (reads length : Nat)
    (hlength : 0 < length)
    (hsplit : pace.count reads (length + crcSize) ≠ length + crcSize) :
    ∃ payload : List UInt8, payload.length = length ∧
      ∀ (s : BodyRead) (offset : Nat), s.crc = crc → s.region.reads = reads →
        HoldsBody s offset payload →
        (readBody pace (length + crcSize) s offset (length + crcSize)).work.take length ≠
          payload := by
  obtain ⟨payload, hpayload, hne⟩ := exists_payload_ne crc length
    (lastReadStart pace (length + crcSize) reads (length + crcSize))
    hlength (lastReadStart_pos pace _ _ hsplit)
    (lastReadStart_lt pace _ _ _ (by simp [crcSize]))
  refine ⟨payload, hpayload, fun s offset hcrc hreads hbody hgot => hne ?_⟩
  subst length crc reads
  rw [← readBody_first pace s offset payload hbody]
  have hfirst := congrArg (fun bytes => bytes[0]?) hgot
  simpa [List.getElem?_take, hlength] using hfirst

end ColonyPico.Persistent.Media
