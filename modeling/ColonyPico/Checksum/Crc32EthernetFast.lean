import Mathlib.Data.List.Basic

/-!
The table driven 32 bit Ethernet CRC (`Cpl::Checksum::Crc32EthernetFast`).
-/

namespace ColonyPico.Checksum.Crc32EthernetFast

/-- The remainders of the 256 octets, `table_` of the source. -/
def table : Array UInt32 :=
  #[
    0x00000000, 0x04C11DB7, 0x09823B6E, 0x0D4326D9, 0x130476DC, 0x17C56B6B,
    0x1A864DB2, 0x1E475005, 0x2608EDB8, 0x22C9F00F, 0x2F8AD6D6, 0x2B4BCB61,
    0x350C9B64, 0x31CD86D3, 0x3C8EA00A, 0x384FBDBD, 0x4C11DB70, 0x48D0C6C7,
    0x4593E01E, 0x4152FDA9, 0x5F15ADAC, 0x5BD4B01B, 0x569796C2, 0x52568B75,
    0x6A1936C8, 0x6ED82B7F, 0x639B0DA6, 0x675A1011, 0x791D4014, 0x7DDC5DA3,
    0x709F7B7A, 0x745E66CD, 0x9823B6E0, 0x9CE2AB57, 0x91A18D8E, 0x95609039,
    0x8B27C03C, 0x8FE6DD8B, 0x82A5FB52, 0x8664E6E5, 0xBE2B5B58, 0xBAEA46EF,
    0xB7A96036, 0xB3687D81, 0xAD2F2D84, 0xA9EE3033, 0xA4AD16EA, 0xA06C0B5D,
    0xD4326D90, 0xD0F37027, 0xDDB056FE, 0xD9714B49, 0xC7361B4C, 0xC3F706FB,
    0xCEB42022, 0xCA753D95, 0xF23A8028, 0xF6FB9D9F, 0xFBB8BB46, 0xFF79A6F1,
    0xE13EF6F4, 0xE5FFEB43, 0xE8BCCD9A, 0xEC7DD02D, 0x34867077, 0x30476DC0,
    0x3D044B19, 0x39C556AE, 0x278206AB, 0x23431B1C, 0x2E003DC5, 0x2AC12072,
    0x128E9DCF, 0x164F8078, 0x1B0CA6A1, 0x1FCDBB16, 0x018AEB13, 0x054BF6A4,
    0x0808D07D, 0x0CC9CDCA, 0x7897AB07, 0x7C56B6B0, 0x71159069, 0x75D48DDE,
    0x6B93DDDB, 0x6F52C06C, 0x6211E6B5, 0x66D0FB02, 0x5E9F46BF, 0x5A5E5B08,
    0x571D7DD1, 0x53DC6066, 0x4D9B3063, 0x495A2DD4, 0x44190B0D, 0x40D816BA,
    0xACA5C697, 0xA864DB20, 0xA527FDF9, 0xA1E6E04E, 0xBFA1B04B, 0xBB60ADFC,
    0xB6238B25, 0xB2E29692, 0x8AAD2B2F, 0x8E6C3698, 0x832F1041, 0x87EE0DF6,
    0x99A95DF3, 0x9D684044, 0x902B669D, 0x94EA7B2A, 0xE0B41DE7, 0xE4750050,
    0xE9362689, 0xEDF73B3E, 0xF3B06B3B, 0xF771768C, 0xFA325055, 0xFEF34DE2,
    0xC6BCF05F, 0xC27DEDE8, 0xCF3ECB31, 0xCBFFD686, 0xD5B88683, 0xD1799B34,
    0xDC3ABDED, 0xD8FBA05A, 0x690CE0EE, 0x6DCDFD59, 0x608EDB80, 0x644FC637,
    0x7A089632, 0x7EC98B85, 0x738AAD5C, 0x774BB0EB, 0x4F040D56, 0x4BC510E1,
    0x46863638, 0x42472B8F, 0x5C007B8A, 0x58C1663D, 0x558240E4, 0x51435D53,
    0x251D3B9E, 0x21DC2629, 0x2C9F00F0, 0x285E1D47, 0x36194D42, 0x32D850F5,
    0x3F9B762C, 0x3B5A6B9B, 0x0315D626, 0x07D4CB91, 0x0A97ED48, 0x0E56F0FF,
    0x1011A0FA, 0x14D0BD4D, 0x19939B94, 0x1D528623, 0xF12F560E, 0xF5EE4BB9,
    0xF8AD6D60, 0xFC6C70D7, 0xE22B20D2, 0xE6EA3D65, 0xEBA91BBC, 0xEF68060B,
    0xD727BBB6, 0xD3E6A601, 0xDEA580D8, 0xDA649D6F, 0xC423CD6A, 0xC0E2D0DD,
    0xCDA1F604, 0xC960EBB3, 0xBD3E8D7E, 0xB9FF90C9, 0xB4BCB610, 0xB07DABA7,
    0xAE3AFBA2, 0xAAFBE615, 0xA7B8C0CC, 0xA379DD7B, 0x9B3660C6, 0x9FF77D71,
    0x92B45BA8, 0x9675461F, 0x8832161A, 0x8CF30BAD, 0x81B02D74, 0x857130C3,
    0x5D8A9099, 0x594B8D2E, 0x5408ABF7, 0x50C9B640, 0x4E8EE645, 0x4A4FFBF2,
    0x470CDD2B, 0x43CDC09C, 0x7B827D21, 0x7F436096, 0x7200464F, 0x76C15BF8,
    0x68860BFD, 0x6C47164A, 0x61043093, 0x65C52D24, 0x119B4BE9, 0x155A565E,
    0x18197087, 0x1CD86D30, 0x029F3D35, 0x065E2082, 0x0B1D065B, 0x0FDC1BEC,
    0x3793A651, 0x3352BBE6, 0x3E119D3F, 0x3AD08088, 0x2497D08D, 0x2056CD3A,
    0x2D15EBE3, 0x29D4F654, 0xC5A92679, 0xC1683BCE, 0xCC2B1D17, 0xC8EA00A0,
    0xD6AD50A5, 0xD26C4D12, 0xDF2F6BCB, 0xDBEE767C, 0xE3A1CBC1, 0xE760D676,
    0xEA23F0AF, 0xEEE2ED18, 0xF0A5BD1D, 0xF464A0AA, 0xF9278673, 0xFDE69BC4,
    0x89B8FD09, 0x8D79E0BE, 0x803AC667, 0x84FBDBD0, 0x9ABC8BD5, 0x9E7D9662,
    0x933EB0BB, 0x97FFAD0C, 0xAFB010B1, 0xAB710D06, 0xA6322BDF, 0xA2F33668,
    0xBCB4666D, 0xB8757BDA, 0xB5365D03, 0xB1F740B4]

/-- The running remainder, `m_crc`. -/
structure Crc32 where
  crc : UInt32
  deriving DecidableEq, Repr

/-- `reset()`: the remainder starts at all ones. -/
def reset : Crc32 := ⟨0xFFFFFFFF⟩

/-- The table entry of an octet. -/
def tableAt (octet : UInt8) : UInt32 :=
  table.getD octet.toNat 0

/-- One pass of the loop of `accumulate()`. -/
def accumulateByte (c : Crc32) (byte : UInt8) : Crc32 :=
  let temp : UInt8 := byte ^^^ (c.crc >>> 24).toUInt8
  ⟨tableAt temp ^^^ (c.crc <<< 8)⟩

/-- `accumulate()` over a buffer of bytes. -/
def accumulate (c : Crc32) (bytes : List UInt8) : Crc32 :=
  bytes.foldl accumulateByte c

/-- The four bytes that `finalize()` stores, most significant first. -/
def finalize (c : Crc32) : List UInt8 :=
  [(c.crc >>> 24).toUInt8, (c.crc >>> 16).toUInt8, (c.crc >>> 8).toUInt8, c.crc.toUInt8]

/-- `isOkay()`: the remainder of a message followed by its check bytes is zero. -/
def isOkay (c : Crc32) : Bool :=
  c.crc == 0

@[simp] theorem accumulate_nil (c : Crc32) : accumulate c [] = c := rfl

@[simp] theorem accumulate_cons (c : Crc32) (b : UInt8) (bytes : List UInt8) :
    accumulate c (b :: bytes) = accumulate (accumulateByte c b) bytes := rfl

theorem accumulate_append (c : Crc32) (xs ys : List UInt8) :
    accumulate c (xs ++ ys) = accumulate (accumulate c xs) ys := by
  simp [accumulate, List.foldl_append]

@[simp] theorem finalize_length (c : Crc32) : (finalize c).length = 4 := rfl

theorem tableAt_zero : tableAt 0 = 0 := by
  set_option maxRecDepth 20000 in decide

theorem tableAt_one : tableAt 1 = 0x04C11DB7 := by
  set_option maxRecDepth 20000 in decide

/-- A byte equal to the top octet of the remainder only shifts it. -/
theorem accumulateByte_top (c : UInt32) :
    accumulateByte ⟨c⟩ (c >>> 24).toUInt8 = ⟨c <<< 8⟩ := by
  simp [accumulateByte, tableAt_zero]

theorem shift_octet (c : UInt32) : (c >>> 16).toUInt8 = ((c <<< 8) >>> 24).toUInt8 := by
  apply UInt8.toNat.inj
  simp [Nat.shiftRight_eq_div_pow, Nat.shiftLeft_eq]
  omega

theorem shift_octet_two (c : UInt32) : (c >>> 8).toUInt8 = ((c <<< 8) >>> 16).toUInt8 := by
  apply UInt8.toNat.inj
  simp [Nat.shiftRight_eq_div_pow, Nat.shiftLeft_eq]
  omega

theorem shift_octet_three (c : UInt32) : c.toUInt8 = ((c <<< 8) >>> 8).toUInt8 := by
  apply UInt8.toNat.inj
  simp [Nat.shiftRight_eq_div_pow, Nat.shiftLeft_eq]
  omega

theorem shift_out (c : UInt32) : c <<< 8 <<< 8 <<< 8 <<< 8 = 0 := by
  apply UInt32.toNat.inj
  simp [Nat.shiftLeft_eq]
  omega

/-- Accumulating the four bytes of `finalize()` clears the remainder. -/
theorem accumulate_finalize (c : Crc32) : accumulate c (finalize c) = ⟨0⟩ := by
  obtain ⟨c⟩ := c
  simp only [finalize, accumulate_cons, accumulate_nil]
  rw [accumulateByte_top, shift_octet, accumulateByte_top, shift_octet_two,
    shift_octet, accumulateByte_top, shift_octet_three, shift_octet_two, shift_octet,
    accumulateByte_top, shift_out]

/-- A message followed by its check bytes passes the check. -/
theorem isOkay_accumulate_finalize (c : Crc32) :
    isOkay (accumulate c (finalize c)) = true := by
  rw [accumulate_finalize]
  rfl

theorem accumulateByte_flip (c : UInt32) :
    accumulateByte ⟨c⟩ ((c >>> 24).toUInt8 ^^^ (1 : UInt8)) =
      ⟨(0x04C11DB7 : UInt32) ^^^ (c <<< 8)⟩ := by
  have htemp : (c >>> 24).toUInt8 ^^^ (1 : UInt8) ^^^ (c >>> 24).toUInt8 = 1 := by
    rw [UInt8.xor_comm, ← UInt8.xor_assoc, UInt8.xor_self, UInt8.zero_xor]
  simp only [accumulateByte, htemp, tableAt_one]

/-- Flipping the low bit of the last byte flips a known pattern in the check bytes. -/
theorem finalize_flip (c : UInt32) :
    finalize (accumulateByte ⟨c⟩ ((c >>> 24).toUInt8 ^^^ (1 : UInt8))) =
      List.zipWith (· ^^^ ·) [0x04, 0xC1, 0x1D, 0xB7]
        (finalize (accumulateByte ⟨c⟩ (c >>> 24).toUInt8)) := by
  rw [accumulateByte_flip, accumulateByte_top]
  simp only [finalize, UInt32.toUInt8_xor, UInt32.shiftRight_xor, List.zipWith_cons_cons,
    List.zipWith_nil_left]
  rfl

theorem ne_of_flip {x y d : UInt8} (hd : d ≠ 0) (h : x = y) : d ^^^ x ≠ y := by
  intro hxy
  apply hd
  rw [h] at hxy
  have := congrArg (· ^^^ y) hxy
  simpa [UInt8.xor_assoc] using this

/-- The octet at position `j` of the check bytes is not a function of the bytes
before the last one: some last byte avoids any given value, and some last byte
avoids being repeated by it. -/
theorem exists_last_byte (c : Crc32) (j : Nat) (hj : j < 4) (v : UInt8) :
    (∃ x, (finalize (accumulateByte c x))[j]? ≠ some v) ∧
      ∃ x, (finalize (accumulateByte c x))[j]? ≠ some x := by
  obtain ⟨c⟩ := c
  have hflip := finalize_flip c
  generalize hx : (c >>> 24).toUInt8 = x at hflip
  generalize hf : finalize (accumulateByte ⟨c⟩ x) = f at hflip
  have hlen : f.length = 4 := by rw [← hf]; rfl
  have hget : f[j]? = some f[j] := List.getElem?_eq_getElem (by omega)
  have hpat : ∃ d : UInt8, d ≠ 0 ∧ d ≠ 1 ∧
      (finalize (accumulateByte ⟨c⟩ (x ^^^ (1 : UInt8))))[j]? = some (d ^^^ f[j]) := by
    have hcases : j = 0 ∨ j = 1 ∨ j = 2 ∨ j = 3 := by omega
    rcases hcases with rfl | rfl | rfl | rfl
    · exact ⟨0x04, by decide, by decide, by rw [hflip]; simp [List.getElem?_zipWith, hget]⟩
    · exact ⟨0xC1, by decide, by decide, by rw [hflip]; simp [List.getElem?_zipWith, hget]⟩
    · exact ⟨0x1D, by decide, by decide, by rw [hflip]; simp [List.getElem?_zipWith, hget]⟩
    · exact ⟨0xB7, by decide, by decide, by rw [hflip]; simp [List.getElem?_zipWith, hget]⟩
  obtain ⟨d, hd0, hd1, hd⟩ := hpat
  constructor
  · by_cases hv : f[j] = v
    · refine ⟨x ^^^ 1, ?_⟩
      rw [hd]
      simpa using ne_of_flip hd0 hv
    · refine ⟨x, ?_⟩
      rw [hf, hget]
      simpa using hv
  · by_cases hv : f[j] = x
    · refine ⟨x ^^^ 1, ?_⟩
      rw [hd, hv, UInt8.xor_comm]
      intro h
      apply hd1
      have := congrArg (x ^^^ ·) (Option.some.inj h)
      simpa [← UInt8.xor_assoc] using this
    · refine ⟨x, ?_⟩
      rw [hf, hget]
      simpa using hv

end ColonyPico.Checksum.Crc32EthernetFast
