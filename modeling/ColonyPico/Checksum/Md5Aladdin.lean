import ColonyPico.Foundations.BlockChaining
import Mathlib.Algebra.Group.Nat.Defs
import Mathlib.Data.Nat.Bitwise
import Mathlib.Tactic.IntervalCases

/-!
The MD5 digest (`Cpl::Checksum::Md5Aladdin` and `md5_aladdin_.c`).
-/

namespace ColonyPico.Checksum.Md5Aladdin

open ColonyPico.Foundations.BlockChaining

/-- The four words of the digest buffer, `pms->abcd`, and the registers of `md5_process()`. -/
structure Words where
  a : UInt32
  b : UInt32
  c : UInt32
  d : UInt32
  deriving DecidableEq

structure State where
  count0 : UInt32
  count1 : UInt32
  abcd : Words
  buf : List UInt8
  deriving DecidableEq

section Process

/-- The arguments `k`, `s` and `Ti` of `SET`. -/
structure Operation where
  k : Nat
  s : UInt32
  t : UInt32

def F (x y z : UInt32) : UInt32 := (x &&& y) ||| (~~~x &&& z)

def G (x y z : UInt32) : UInt32 := (x &&& z) ||| (y &&& ~~~z)

def H (x y z : UInt32) : UInt32 := x ^^^ y ^^^ z

def I (x y z : UInt32) : UInt32 := y ^^^ (x ||| ~~~z)

def ROTATE_LEFT (x n : UInt32) : UInt32 :=
  (x <<< n) ||| (x >>> (32 - n))

/-- `SET( a, b, c, d, k, s, Ti )`; the registers are returned in the order that the next `SET` has
them in. -/
def SET (f : UInt32 → UInt32 → UInt32 → UInt32) (X : List UInt32) (r : Words) (op : Operation) :
    Words :=
  let t := r.a + f r.b r.c r.d + X.getD op.k 0 + op.t
  { a := r.d, b := ROTATE_LEFT t op.s + r.b, c := r.b, d := r.c }

/-- The operations of round 1. -/
def round1 : List Operation :=
  [⟨0, 7, 0xd76aa478⟩, ⟨1, 12, 0xe8c7b756⟩,
    ⟨2, 17, 0x242070db⟩, ⟨3, 22, 0xc1bdceee⟩,
    ⟨4, 7, 0xf57c0faf⟩, ⟨5, 12, 0x4787c62a⟩,
    ⟨6, 17, 0xa8304613⟩, ⟨7, 22, 0xfd469501⟩,
    ⟨8, 7, 0x698098d8⟩, ⟨9, 12, 0x8b44f7af⟩,
    ⟨10, 17, 0xffff5bb1⟩, ⟨11, 22, 0x895cd7be⟩,
    ⟨12, 7, 0x6b901122⟩, ⟨13, 12, 0xfd987193⟩,
    ⟨14, 17, 0xa679438e⟩, ⟨15, 22, 0x49b40821⟩]

/-- The operations of round 2. -/
def round2 : List Operation :=
  [⟨1, 5, 0xf61e2562⟩, ⟨6, 9, 0xc040b340⟩,
    ⟨11, 14, 0x265e5a51⟩, ⟨0, 20, 0xe9b6c7aa⟩,
    ⟨5, 5, 0xd62f105d⟩, ⟨10, 9, 0x02441453⟩,
    ⟨15, 14, 0xd8a1e681⟩, ⟨4, 20, 0xe7d3fbc8⟩,
    ⟨9, 5, 0x21e1cde6⟩, ⟨14, 9, 0xc33707d6⟩,
    ⟨3, 14, 0xf4d50d87⟩, ⟨8, 20, 0x455a14ed⟩,
    ⟨13, 5, 0xa9e3e905⟩, ⟨2, 9, 0xfcefa3f8⟩,
    ⟨7, 14, 0x676f02d9⟩, ⟨12, 20, 0x8d2a4c8a⟩]

/-- The operations of round 3. -/
def round3 : List Operation :=
  [⟨5, 4, 0xfffa3942⟩, ⟨8, 11, 0x8771f681⟩,
    ⟨11, 16, 0x6d9d6122⟩, ⟨14, 23, 0xfde5380c⟩,
    ⟨1, 4, 0xa4beea44⟩, ⟨4, 11, 0x4bdecfa9⟩,
    ⟨7, 16, 0xf6bb4b60⟩, ⟨10, 23, 0xbebfbc70⟩,
    ⟨13, 4, 0x289b7ec6⟩, ⟨0, 11, 0xeaa127fa⟩,
    ⟨3, 16, 0xd4ef3085⟩, ⟨6, 23, 0x04881d05⟩,
    ⟨9, 4, 0xd9d4d039⟩, ⟨12, 11, 0xe6db99e5⟩,
    ⟨15, 16, 0x1fa27cf8⟩, ⟨2, 23, 0xc4ac5665⟩]

/-- The operations of round 4. -/
def round4 : List Operation :=
  [⟨0, 6, 0xf4292244⟩, ⟨7, 10, 0x432aff97⟩,
    ⟨14, 15, 0xab9423a7⟩, ⟨5, 21, 0xfc93a039⟩,
    ⟨12, 6, 0x655b59c3⟩, ⟨3, 10, 0x8f0ccc92⟩,
    ⟨10, 15, 0xffeff47d⟩, ⟨1, 21, 0x85845dd1⟩,
    ⟨8, 6, 0x6fa87e4f⟩, ⟨15, 10, 0xfe2ce6e0⟩,
    ⟨6, 15, 0xa3014314⟩, ⟨13, 21, 0x4e0811a1⟩,
    ⟨4, 6, 0xf7537e82⟩, ⟨11, 10, 0xbd3af235⟩,
    ⟨2, 15, 0x2ad7d2bb⟩, ⟨9, 21, 0xeb86d391⟩]

/-- The word at an offset of the data, in the order of a little-endian machine. -/
def wordAt (data : List UInt8) (offset : Nat) : UInt32 :=
  let xp := fun i => (data.getD (offset + i) 0).toUInt32
  xp 0 + (xp 1 <<< 8) + (xp 2 <<< 16) + (xp 3 <<< 24)

def md5_process (abcd : Words) (data : List UInt8) : Words :=
  let X := (List.range 16).map fun i => wordAt data (4 * i)
  let r := round1.foldl (SET F X) abcd
  let r := round2.foldl (SET G X) r
  let r := round3.foldl (SET H X) r
  let r := round4.foldl (SET I X) r
  { a := abcd.a + r.a, b := abcd.b + r.b, c := abcd.c + r.c, d := abcd.d + r.d }

end Process

section Code

/-- `memcpy()` into the buffer. -/
def memcpy (buf : List UInt8) (offset : Nat) (p : List UInt8) : List UInt8 :=
  buf.take offset ++ p ++ buf.drop (offset + p.length)

def initialWords : Words :=
  { a := 0x67452301, b := 0xefcdab89, c := 0x98badcfe, d := 0x10325476 }

/-- `md5_init()`, which leaves the buffer. -/
def md5_init (buf : List UInt8) : State :=
  { count0 := 0, count1 := 0, abcd := initialWords, buf := buf }

/-- The loop over full blocks, with what it leaves. -/
def processBlocks : Nat → Words → List UInt8 → Words × List UInt8
  | 0, abcd, p => (abcd, p)
  | fuel + 1, abcd, p =>
      if 64 ≤ p.length then processBlocks fuel (md5_process abcd (p.take 64)) (p.drop 64)
      else (abcd, p)

/-- Full blocks, and a final partial block. -/
def processRest (pms : State) (p : List UInt8) : State :=
  let (abcd, p) := processBlocks p.length pms.abcd p
  { pms with abcd := abcd, buf := memcpy pms.buf 0 p }

/-- `md5_append()` of less than 2^28 bytes, whose number of bits is an `int`. -/
def md5_append (pms : State) (data : List UInt8) : State :=
  let nbytes := data.length
  let offset := ((pms.count0 >>> 3) &&& 63).toNat
  let nbits := UInt32.ofNat (nbytes <<< 3)
  if nbytes = 0 then pms
  else
    let count1 := pms.count1 + UInt32.ofNat (nbytes >>> 29)
    let count0 := pms.count0 + nbits
    let count1 := if count0 < nbits then count1 + 1 else count1
    let pms := { pms with count0 := count0, count1 := count1 }
    if offset ≠ 0 then
      let copy := if offset + nbytes > 64 then 64 - offset else nbytes
      let pms := { pms with buf := memcpy pms.buf offset (data.take copy) }
      if offset + copy < 64 then pms
      else processRest { pms with abcd := md5_process pms.abcd pms.buf } (data.drop copy)
    else processRest pms data

def pad : List UInt8 :=
  0x80 :: List.replicate 63 0

/-- The bytes of a word, least significant first. -/
def wordBytes (w : UInt32) : List UInt8 :=
  [w.toUInt8, (w >>> 8).toUInt8, (w >>> 16).toUInt8, (w >>> 24).toUInt8]

def digestBytes (abcd : Words) : List UInt8 :=
  wordBytes abcd.a ++ wordBytes abcd.b ++ wordBytes abcd.c ++ wordBytes abcd.d

/-- `md5_finish()`, with the digest. -/
def md5_finish (pms : State) : State × List UInt8 :=
  let data := wordBytes pms.count0 ++ wordBytes pms.count1
  let nbytes : UInt32 := (((55 : UInt32) - (pms.count0 >>> 3)) &&& 63) + 1
  let pms := md5_append pms (pad.take nbytes.toNat)
  let pms := md5_append pms data
  (pms, digestBytes pms.abcd)

/-- A digest of a message that is accumulated in parts. -/
def digestOf (buf : List UInt8) (parts : List (List UInt8)) : List UInt8 :=
  (md5_finish (parts.foldl md5_append (md5_init buf))).2

end Code

section Digest

/-- The bits of the message, as the last eight bytes have them. -/
def lengthBytes (nbits : Nat) : List UInt8 :=
  (List.range 8).map fun i => UInt8.ofNat (nbits / 2 ^ (8 * i))

/-- The message with its padding: to 56 bytes behind whole blocks, and then its length. -/
def padded (message : List UInt8) : List UInt8 :=
  message ++ (0x80 :: List.replicate ((119 - message.length % 64) % 64) 0) ++
    lengthBytes (8 * message.length)

/-- The digest of a message: the compression function chained over the blocks of the padded
message. -/
def md5 (message : List UInt8) : List UInt8 :=
  digestBytes (chain md5_process 64 ((padded message).length / 64) initialWords (padded message))

/-- The counters behind a message. -/
structure Counts (count0 count1 : UInt32) (message : List UInt8) : Prop where
  count0 : count0.toNat = 8 * message.length % 2 ^ 32
  count1 : count1.toNat = 8 * message.length / 2 ^ 32 % 2 ^ 32

/-- The state behind a message. -/
structure Represents (pms : State) (message : List UInt8) : Prop where
  buffered : Buffered md5_process 64 initialWords message pms.abcd
    (pms.buf.take (message.length % 64))
  size : pms.buf.length = 64
  counts : Counts pms.count0 pms.count1 message

variable {pms : State} {message : List UInt8}

theorem represents_init {buf : List UInt8} (hsize : buf.length = 64) :
    Represents (md5_init buf) [] :=
  ⟨Buffered.nil (by decide), hsize, ⟨rfl, rfl⟩⟩

theorem and_63 (w : UInt32) : (w &&& 63).toNat = w.toNat % 64 :=
  Nat.and_two_pow_sub_one_eq_mod w.toNat 6

/-- Where the buffer has its next byte. -/
theorem Represents.offset (h : Represents pms message) :
    ((pms.count0 >>> 3) &&& 63).toNat = message.length % 64 := by
  have hshift : (pms.count0 >>> 3).toNat = pms.count0.toNat / 8 := by
    rw [UInt32.toNat_shiftRight]
    exact Nat.shiftRight_eq_div_pow _ 3
  rw [and_63, hshift, h.counts.count0]
  omega

theorem length_memcpy {buf p : List UInt8} {offset : Nat} (h : offset + p.length ≤ buf.length) :
    (memcpy buf offset p).length = buf.length := by
  rw [memcpy, List.length_append, List.length_append, List.length_take, List.length_drop]
  omega

theorem take_memcpy {buf p : List UInt8} {offset : Nat} (h : offset + p.length ≤ buf.length) :
    (memcpy buf offset p).take (offset + p.length) = buf.take offset ++ p := by
  have hlength : (buf.take offset ++ p).length = offset + p.length := by
    rw [List.length_append, List.length_take]
    omega
  rw [memcpy, ← hlength, List.take_append_length]

theorem processBlocks_spec {fuel : Nat} {abcd : Words} {p : List UInt8}
    (h : Buffered md5_process 64 initialWords message abcd []) (hfuel : p.length ≤ fuel) :
    Buffered md5_process 64 initialWords (message ++ p) (processBlocks fuel abcd p).1
      (processBlocks fuel abcd p).2 := by
  induction fuel generalizing message abcd p with
  | zero =>
      obtain rfl := List.length_eq_zero_iff.mp (Nat.le_zero.mp hfuel)
      rwa [List.append_nil]
  | succ fuel ih =>
      rw [processBlocks]
      split_ifs with hblock
      · have hfill := h.fill (p.take 64) (by
          rw [List.nil_append, List.length_take, Nat.min_eq_left hblock])
        have hrest := ih hfill (p := p.drop 64) (by rw [List.length_drop]; omega)
        rwa [List.append_assoc, List.take_append_drop] at hrest
      · have hwait := h.wait p (by rw [List.nil_append]; omega)
        rwa [List.nil_append] at hwait

theorem processRest_spec {p : List UInt8} (hcounts : Counts pms.count0 pms.count1 (message ++ p))
    (hsize : pms.buf.length = 64) (h : Buffered md5_process 64 initialWords message pms.abcd []) :
    Represents (processRest pms p) (message ++ p) := by
  have hblocks := processBlocks_spec h (Nat.le_refl p.length)
  have hrest := hblocks.length_rest
  have hroom : 0 + (processBlocks p.length pms.abcd p).2.length ≤ pms.buf.length := by
    have hlt := hblocks.short
    omega
  refine ⟨?_, ?_, hcounts⟩
  · rw [← hrest]
    have htake := take_memcpy hroom
    rw [Nat.zero_add, List.take_zero, List.nil_append] at htake
    simp only [processRest, htake]
    exact hblocks
  · exact (length_memcpy hroom).trans hsize

/-- The counters of a message that is continued. -/
theorem counts_append (h : Represents pms message) {data : List UInt8}
    (hdata : data.length < 2 ^ 28) {count0 count1 : UInt32}
    (hcount0 : count0 = pms.count0 + UInt32.ofNat (data.length <<< 3))
    (hcount1 : count1 = if count0 < UInt32.ofNat (data.length <<< 3)
      then pms.count1 + UInt32.ofNat (data.length >>> 29) + 1
      else pms.count1 + UInt32.ofNat (data.length >>> 29)) :
    Counts count0 count1 (message ++ data) := by
  have hbits : (UInt32.ofNat (data.length <<< 3)).toNat = 8 * data.length := by
    rw [Nat.shiftLeft_eq, UInt32.toNat_ofNat_of_lt' (by show _ < 2 ^ 32; omega)]
    omega
  have hhigh : UInt32.ofNat (data.length >>> 29) = 0 := by
    rw [Nat.shiftRight_eq_div_pow, Nat.div_eq_of_lt (by omega)]
    rfl
  have hold0 := h.counts.count0
  have hold1 := h.counts.count1
  have hnew0 : count0.toNat = (pms.count0.toNat + 8 * data.length) % 2 ^ 32 := by
    rw [hcount0, UInt32.toNat_add, hbits]
  have hcarry : count1.toNat =
      (pms.count1.toNat + if count0.toNat < 8 * data.length then 1 else 0) % 2 ^ 32 := by
    have hlt : count0 < UInt32.ofNat (data.length <<< 3) ↔ count0.toNat < 8 * data.length := by
      rw [UInt32.lt_iff_toNat_lt, hbits]
    have hsmall : pms.count1.toNat < 2 ^ 32 := pms.count1.toNat_lt
    rw [hcount1, hhigh]
    split_ifs with hless hless' hless'
    · rw [UInt32.add_zero, UInt32.toNat_add]
      rfl
    · exact absurd (hlt.mp hless) hless'
    · exact absurd (hlt.mpr hless') hless
    · rw [UInt32.add_zero, Nat.add_zero, Nat.mod_eq_of_lt hsmall]
  constructor
  · rw [hnew0, List.length_append]
    omega
  · rw [hcarry, List.length_append]
    split_ifs <;> omega

/-- `md5_append()`. -/
theorem md5_append_spec (h : Represents pms message) (data : List UInt8)
    (hdata : data.length < 2 ^ 28) : Represents (md5_append pms data) (message ++ data) := by
  have hoffset := h.offset
  have hlt : message.length % 64 < 64 := Nat.mod_lt _ (by decide)
  have hlength : (pms.buf.take (message.length % 64)).length = message.length % 64 :=
    h.buffered.length_rest
  by_cases hnil : data.length = 0
  · obtain rfl := List.length_eq_zero_iff.mp hnil
    rw [List.append_nil]
    exact h
  have hcounts := counts_append h hdata rfl rfl
  rw [md5_append]
  simp only [hoffset, if_neg hnil]
  generalize hcount1 : (if pms.count0 + UInt32.ofNat (data.length <<< 3) <
    UInt32.ofNat (data.length <<< 3) then pms.count1 + UInt32.ofNat (data.length >>> 29) + 1
    else pms.count1 + UInt32.ofNat (data.length >>> 29)) = count1 at hcounts ⊢
  generalize hcount0 : pms.count0 + UInt32.ofNat (data.length <<< 3) = count0 at hcounts ⊢
  by_cases hzero : message.length % 64 = 0
  · -- no partial block
    rw [if_neg (not_not.mpr hzero)]
    refine processRest_spec hcounts h.size ?_
    have hbuffered := h.buffered
    rwa [hzero, List.take_zero] at hbuffered
  rw [if_pos hzero]
  by_cases hover : message.length % 64 + data.length < 64
  · -- the partial block is not filled
    have hnot : ¬message.length % 64 + data.length > 64 := by omega
    have hroom : message.length % 64 + data.length ≤ pms.buf.length := by
      rw [h.size]
      omega
    rw [if_neg hnot, if_pos hover, List.take_length]
    have hwait := h.buffered.wait data (by rw [List.length_append, hlength]; exact hover)
    have hmod : (message ++ data).length % 64 = message.length % 64 + data.length := by
      rw [List.length_append]
      omega
    refine ⟨?_, (length_memcpy hroom).trans h.size, hcounts⟩
    rw [hmod]
    dsimp only
    rw [take_memcpy hroom]
    exact hwait
  · -- the partial block is filled and processed
    obtain ⟨part, rest, rfl, hpart⟩ : ∃ part rest, data = part ++ rest ∧
        part.length = 64 - message.length % 64 := by
      refine ⟨data.take (64 - message.length % 64), data.drop (64 - message.length % 64),
        (List.take_append_drop _ _).symm, ?_⟩
      rw [List.length_take]
      omega
    have hcopy : (if message.length % 64 + (part ++ rest).length > 64 then 64 - message.length % 64
        else (part ++ rest).length) = 64 - message.length % 64 := by
      split_ifs <;> omega
    have hroom : message.length % 64 + part.length ≤ pms.buf.length := by
      rw [hpart, h.size]
      omega
    have hsize : (memcpy pms.buf (message.length % 64) part).length = 64 :=
      (length_memcpy hroom).trans h.size
    have hblock : memcpy pms.buf (message.length % 64) part =
        pms.buf.take (message.length % 64) ++ part := by
      rw [← take_memcpy hroom, List.take_of_length_le (Nat.le_of_eq (by rw [hsize]; omega))]
    have hfill := h.buffered.fill part
      (by rw [List.length_append, hlength, hpart]; omega)
    rw [hcopy, if_neg (by omega), List.take_left' hpart, List.drop_left' hpart]
    rw [← List.append_assoc] at hcounts ⊢
    refine processRest_spec hcounts hsize ?_
    dsimp only
    rw [hblock]
    exact hfill

theorem represents_parts {parts : List (List UInt8)} (h : Represents pms message)
    (hparts : ∀ part ∈ parts, part.length < 2 ^ 28) :
    Represents (parts.foldl md5_append pms) (message ++ parts.flatten) := by
  induction parts generalizing pms message with
  | nil => rwa [List.flatten_nil, List.append_nil]
  | cons part parts ih =>
      rw [List.forall_mem_cons] at hparts
      rw [List.foldl_cons, List.flatten_cons, ← List.append_assoc]
      exact ih (md5_append_spec h part hparts.1) hparts.2

theorem wordBytes_eq (w : UInt32) :
    wordBytes w = (List.range 4).map fun i => UInt8.ofNat (w.toNat / 2 ^ (8 * i)) := by
  have hbyte : ∀ s : UInt32, s.toNat < 32 →
      (w >>> s).toUInt8 = UInt8.ofNat (w.toNat / 2 ^ s.toNat) := by
    intro s hs
    rw [← UInt8.toNat_inj, UInt32.toNat_toUInt8, UInt32.toNat_shiftRight, UInt8.toNat_ofNat',
      Nat.shiftRight_eq_div_pow, Nat.mod_eq_of_lt hs]
  have hfirst : w.toUInt8 = UInt8.ofNat (w.toNat / 2 ^ 0) := by
    rw [pow_zero, Nat.div_one]
    rfl
  rw [wordBytes, hfirst, hbyte 8 (by decide), hbyte 16 (by decide), hbyte 24 (by decide)]
  rfl

/-- The length of the message as `md5_finish()` saves it. -/
theorem Counts.bytes {count0 count1 : UInt32} (h : Counts count0 count1 message) :
    wordBytes count0 ++ wordBytes count1 = lengthBytes (8 * message.length) := by
  have hbyte : ∀ m n, m % 256 = n % 256 → UInt8.ofNat m = UInt8.ofNat n := by
    intro m n hmn
    rw [← UInt8.toNat_inj, UInt8.toNat_ofNat', UInt8.toNat_ofNat']
    exact hmn
  have hrange : List.range 8 = List.range 4 ++ (List.range 4).map (4 + ·) := rfl
  rw [wordBytes_eq, wordBytes_eq, lengthBytes, hrange, List.map_append, List.map_map, h.count0,
    h.count1]
  generalize 8 * message.length = n
  congr 1
  · refine List.map_congr_left fun i hi => hbyte _ _ ?_
    rw [List.mem_range] at hi
    interval_cases i <;> omega
  · refine List.map_congr_left fun i hi => hbyte _ _ ?_
    rw [List.mem_range] at hi
    interval_cases i <;> simp only <;> omega

/-- The padding as `md5_finish()` takes it. -/
theorem Represents.pad (h : Represents pms message) :
    pad.take (((((55 : UInt32) - (pms.count0 >>> 3)) &&& 63) + 1).toNat) =
      0x80 :: List.replicate ((119 - message.length % 64) % 64) 0 := by
  have hoffset := h.offset
  rw [and_63] at hoffset
  have hlt : (pms.count0 >>> 3).toNat < 2 ^ 32 := UInt32.toNat_lt _
  have hnbytes : ((((55 : UInt32) - (pms.count0 >>> 3)) &&& 63) + 1).toNat =
      (119 - message.length % 64) % 64 + 1 := by
    rw [UInt32.toNat_add, and_63, UInt32.toNat_sub]
    show ((2 ^ 32 - (pms.count0 >>> 3).toNat + 55) % 2 ^ 32 % 64 + 1) % 2 ^ 32 = _
    omega
  rw [hnbytes, Md5Aladdin.pad, List.take_succ_cons, List.take_replicate, Nat.min_eq_left]
  omega

/-- The digest of a message does not depend on the parts that it is accumulated in: it is that of
the padded message, whatever is in the buffer at first. -/
theorem digestOf_eq (buf : List UInt8) (hsize : buf.length = 64) (parts : List (List UInt8))
    (hparts : ∀ part ∈ parts, part.length < 2 ^ 28) : digestOf buf parts = md5 parts.flatten := by
  have h := represents_parts (represents_init hsize) hparts
  rw [List.nil_append] at h
  have hpadded := md5_append_spec h
    (0x80 :: List.replicate ((119 - parts.flatten.length % 64) % 64) 0)
    (by rw [List.length_cons, List.length_replicate]; omega)
  have hwhole := md5_append_spec hpadded (lengthBytes (8 * parts.flatten.length))
    (by rw [lengthBytes, List.length_map, List.length_range]; omega)
  have hmod : (padded parts.flatten).length % 64 = 0 := by
    rw [padded, lengthBytes, List.length_append, List.length_append, List.length_cons,
      List.length_replicate, List.length_map, List.length_range]
    omega
  rw [digestOf, md5_finish, h.pad, h.counts.bytes, md5]
  exact congrArg digestBytes (hwhole.buffered.whole hmod).2

/-- The message `abc`, in two parts. -/
theorem digestOf_eq_abc : md5 [97, 98, 99] =
    [0x90, 0x01, 0x50, 0x98, 0x3c, 0xd2, 0x4f, 0xb0, 0xd6, 0x96, 0x3f, 0x7d, 0x28, 0xe1, 0x7f,
      0x72] := by
  have hparts : ∀ part ∈ ([[97], [98, 99]] : List (List UInt8)), part.length < 2 ^ 28 := by
    simp
  refine (digestOf_eq (List.replicate 64 0) List.length_replicate _ hparts).symm.trans ?_
  set_option maxRecDepth 20000 in decide

end Digest

end ColonyPico.Checksum.Md5Aladdin
