import ColonyPico.Foundations.PositionalDigits
import ColonyPico.Foundations.SequentialOutput
import ColonyPico.Text.StringAppend

/-!
Hexadecimal text (`Cpl::Text`): from bytes to digits and back.
-/

namespace ColonyPico.Text.AsciiHex

open Foundations.TerminatedText Foundations.SequentialOutput Foundations.PositionalDigits
open StringRefinement StringAppend

section Encoder

def lowerCaseTable : List UInt8 :=
  "0123456789abcdef".toList.map fun c => UInt8.ofNat c.toNat

def upperCaseTable : List UInt8 :=
  "0123456789ABCDEF".toList.map fun c => UInt8.ofNat c.toNat

/-- The loop over the bytes. -/
def appendDigits (tableP : List UInt8) (separator : UInt8) :
    List UInt8 → FString → Option FString
  | [], destString => some destString
  | c :: rest, destString => do
      let hi ← tableP[((c >>> 4) &&& 0x0f).toNat]?
      let destString ← appendChar destString hi
      let lo ← tableP[(c &&& 0x0f).toNat]?
      let destString ← appendChar destString lo
      let destString ←
        if separator ≠ 0 ∧ rest ≠ [] then appendChar destString separator else some destString
      appendDigits tableP separator rest destString

/-- The string afterwards, and whether the whole buffer was converted. -/
def bufferToAsciiHex (binaryData : Option (List UInt8)) (len : Int) (destString : FString)
    (upperCase appendToString : Bool) (separator : UInt8) : Option (FString × Bool) :=
  match binaryData with
  | none => some (destString, false)
  | some data =>
      if len = 0 then some (destString, false)
      else do
        let tableP := if upperCase then upperCaseTable else lowerCaseTable
        let destString ← if appendToString then some destString else clear destString
        let bytes ← readCells data len.toNat
        let destString ← appendDigits tableP separator bytes destString
        some (destString, !destString.truncated)

end Encoder

section Decoder

def unhexChar (c : UInt8) : UInt8 :=
  if 0x30 ≤ c ∧ c ≤ 0x39 then c - 0x30
  else if 0x41 ≤ c ∧ c ≤ 0x46 then c - 0x41 + 0x0a
  -- `0x69` is `i`
  else if 0x61 ≤ c ∧ c ≤ 0x69 then c - 0x61 + 0x0a
  else 0xff

def unhexByte (hi lo : UInt8) : UInt8 :=
  unhexChar hi <<< 4 ||| (unhexChar lo &&& 0x0f)

/-- Characters are converted in pairs as long as some are left to scan. -/
def unhex : List UInt8 → Nat → Output UInt8 → Option (Bool × Output UInt8)
  | _, 0, outData => some (true, outData)
  | hi :: lo :: inString, numCharToScan + 1, outData =>
      if 0xff = unhexChar hi ∨ 0xff = unhexChar lo then some (false, outData)
      else do
        let outData ← outData.put (unhexByte hi lo)
        unhex inString (numCharToScan - 1) outData
  | _, _ + 1, _ => none

/-- The destination afterwards, and the returned value. -/
def asciiHexToBuffer (dstBinary srcP : Option (List UInt8)) (dstMaxLen : Nat) :
    Option (Option (List UInt8) × Int) :=
  match dstBinary, srcP with
  | some dst, some src =>
      if dstMaxLen = 0 then some (some dst, -1)
      else if (0 : UInt8) ∈ src then
        let len := strlen src
        if len % 2 = 1 then some (some dst, -1)
        else if len / 2 > dstMaxLen then some (some dst, -1)
        else do
          let (ok, outData) ← unhex src len { cells := dst, pos := 0 }
          some (some outData.cells, if ok then len / 2 else -1)
      else none
  | dst, _ => some (dst, -1)

end Decoder

section Characters

def isHexDigit (c : UInt8) : Bool :=
  (0x30 ≤ c && c ≤ 0x39) || (0x41 ≤ c && c ≤ 0x46) || (0x61 ≤ c && c ≤ 0x66)

/-- The letters from `g` to `i`. -/
def isBehindF (c : UInt8) : Bool :=
  0x67 ≤ c && c ≤ 0x69

def hexValue (c : UInt8) : Nat :=
  if c ≤ 0x39 then c.toNat - 0x30
  else if c ≤ 0x46 then c.toNat - 0x41 + 10
  else c.toNat - 0x61 + 10

/-- The value of each pair of digits. -/
def hexBytes : List UInt8 → List UInt8
  | hi :: lo :: rest => UInt8.ofNat (value 16 [hexValue hi, hexValue lo]) :: hexBytes rest
  | _ => []

theorem unhexChar_table : ∀ n : Fin 256,
    (0xff = unhexChar (UInt8.ofNat n) ↔
      ¬ (isHexDigit (UInt8.ofNat n) || isBehindF (UInt8.ofNat n))) ∧
    (isHexDigit (UInt8.ofNat n) →
      unhexChar (UInt8.ofNat n) = UInt8.ofNat (hexValue (UInt8.ofNat n)) ∧
        hexValue (UInt8.ofNat n) < 16) := by
  set_option maxRecDepth 20000 in decide

theorem nibbles_table (h l : Fin 16) :
    UInt8.ofNat h <<< 4 ||| (UInt8.ofNat l &&& 0x0f) = UInt8.ofNat (value 16 [h.val, l.val]) := by
  have hvalue : value 16 [h.val, l.val] = h.val <<< 4 ||| l.val := by
    rw [← Nat.shiftLeft_add_eq_or_of_lt l.isLt, Nat.shiftLeft_eq, value]
    simp only [List.reverse_cons, List.reverse_nil, List.nil_append, List.cons_append,
      Nat.ofDigits_cons, Nat.ofDigits_nil]
    omega
  have hmask : l.val &&& 15 = l.val := by
    rw [Nat.and_two_pow_sub_one_eq_mod l.val 4]
    exact Nat.mod_eq_of_lt l.isLt
  apply UInt8.toNat.inj
  have hlow : l.val % 256 = l.val := Nat.mod_eq_of_lt (by omega)
  rw [hvalue]
  simp [hlow, hmask]

theorem unhexChar_invalid_iff (c : UInt8) :
    0xff = unhexChar c ↔ ¬ (isHexDigit c || isBehindF c) := by
  have htable := (unhexChar_table ⟨c.toNat, c.toNat_lt⟩).1
  rwa [UInt8.ofNat_toNat] at htable

theorem unhexChar_digit {c : UInt8} (h : isHexDigit c) :
    unhexChar c = UInt8.ofNat (hexValue c) ∧ hexValue c < 16 := by
  have htable := (unhexChar_table ⟨c.toNat, c.toNat_lt⟩).2
  rw [UInt8.ofNat_toNat] at htable
  exact htable h

theorem unhexByte_digits {hi lo : UInt8} (hhi : isHexDigit hi) (hlo : isHexDigit lo) :
    unhexByte hi lo = UInt8.ofNat (value 16 [hexValue hi, hexValue lo]) := by
  obtain ⟨hhi', hlt⟩ := unhexChar_digit hhi
  obtain ⟨hlo', hlt'⟩ := unhexChar_digit hlo
  rw [unhexByte, hhi', hlo']
  exact nibbles_table ⟨_, hlt⟩ ⟨_, hlt'⟩

end Characters

section Conversion

/-- What the loop makes of pairs of characters. -/
def unhexBytes : List UInt8 → List UInt8
  | hi :: lo :: rest => unhexByte hi lo :: unhexBytes rest
  | _ => []

theorem unhexBytes_digits {string : List UInt8} (h : ∀ c ∈ string, isHexDigit c) :
    unhexBytes string = hexBytes string := by
  fun_induction unhexBytes string with
  | case1 hi lo rest ih =>
      rw [List.forall_mem_cons, List.forall_mem_cons] at h
      rw [hexBytes, unhexByte_digits h.1 h.2.1, ih h.2.2]
  | case2 string hshort =>
      rw [hexBytes]
      exact hshort

theorem unhex_zero (inString : List UInt8) (outData : Output UInt8) :
    unhex inString 0 outData = some (true, outData) := by
  rcases inString with _ | ⟨hi, _ | ⟨lo, inString⟩⟩ <;> rfl

/-- Even text is converted just when every character counts as a digit. -/
theorem unhex_spec (string more done : List UInt8) {room : List UInt8}
    (heven : string.length % 2 = 0) (hroom : string.length / 2 ≤ room.length) :
    ∃ ok outData, unhex (string ++ more) string.length (Output.between done room) =
        some (ok, outData) ∧
      (ok = true ↔ ∀ c ∈ string, isHexDigit c || isBehindF c) ∧
      (ok = true → outData =
        Output.between (done ++ unhexBytes string) (room.drop (string.length / 2))) := by
  fun_induction unhexBytes string generalizing done room with
  | case1 hi lo rest ih =>
      cases room with
      | nil =>
          rw [List.length_cons, List.length_cons, List.length_nil] at hroom
          omega
      | cons x room =>
          rw [List.length_cons, List.length_cons] at heven hroom
          rw [List.length_cons] at hroom
          rw [List.forall_mem_cons, List.forall_mem_cons, List.cons_append, List.cons_append,
            List.length_cons, List.length_cons, unhex, Nat.add_sub_cancel]
          split_ifs with hinvalid <;> rw [unhexChar_invalid_iff, unhexChar_invalid_iff] at hinvalid
          · refine ⟨false, _, rfl, ?_, fun htrue => by cases htrue⟩
            simp only [Bool.false_eq_true, false_iff]
            rintro ⟨hhi, hlo, -⟩
            rcases hinvalid with h | h
            · exact h hhi
            · exact h hlo
          · rw [not_or, Classical.not_not, Classical.not_not] at hinvalid
            obtain ⟨ok, outData, hunhex, hok, hout⟩ :=
              ih (done ++ [unhexByte hi lo]) (show rest.length % 2 = 0 by omega)
                (show rest.length / 2 ≤ room.length by omega)
            refine ⟨ok, outData, ?_, ?_, ?_⟩
            · rw [put_between]
              exact hunhex
            · rw [hok]
              exact ⟨fun hrest => ⟨hinvalid.1, hinvalid.2, hrest⟩, fun hall => hall.2.2⟩
            · intro htrue
              rw [hout htrue, List.append_assoc, Nat.add_div_right _ (Nat.succ_pos 1)]
              rfl
  | case2 string hshort =>
      have hnil : string = [] := by
        match string, hshort with
        | [], _ => rfl
        | [c], _ => cases heven
        | hi :: lo :: rest, hshort => exact (hshort hi lo rest rfl).elim
      subst hnil
      refine ⟨true, _, unhex_zero _ _, ?_, fun _ => ?_⟩
      · simp only [true_iff]
        exact fun c hc => absurd hc List.not_mem_nil
      · rw [List.append_nil]
        rfl

end Conversion

section Exactness

variable {string : List UInt8} {dstMaxLen : Nat}

/-- Text that the destination has room for. -/
def Fits (string : List UInt8) (dstMaxLen : Nat) : Prop :=
  0 < dstMaxLen ∧ string.length / 2 ≤ dstMaxLen

/-- The call converts hexadecimal text that fits, and refuses every other. -/
def ConvertsExactly (string dst : List UInt8) (dstMaxLen : Nat)
    (outcome : Option (Option (List UInt8) × Int)) : Prop :=
  ∃ dst' returned, outcome = some (dst', returned) ∧
    (string.length % 2 = 0 ∧ Fits string dstMaxLen ∧ (∀ c ∈ string, isHexDigit c) →
      returned = string.length / 2 ∧
        dst' = some (hexBytes string ++ dst.drop (string.length / 2))) ∧
    (¬ (string.length % 2 = 0 ∧ Fits string dstMaxLen ∧ ∀ c ∈ string, isHexDigit c) →
      returned = -1)

theorem asciiHexToBuffer_refused {junk dst : List UInt8} (hstring : (0 : UInt8) ∉ string)
    (h : ¬ (string.length % 2 = 0 ∧ Fits string dstMaxLen)) :
    asciiHexToBuffer (some dst) (some (string ++ 0 :: junk)) dstMaxLen = some (some dst, -1) := by
  have hholds : Holds (string ++ 0 :: junk) string := holds_append hstring
  rw [asciiHexToBuffer]
  simp only [hholds.strlen_eq, if_pos hholds.mem]
  split_ifs with hzero hodd hlong
  · rfl
  · rfl
  · rfl
  · exact absurd ⟨by omega, Nat.pos_of_ne_zero hzero, Nat.le_of_not_lt hlong⟩ h

theorem asciiHexToBuffer_eq {junk dst : List UInt8} (hstring : (0 : UInt8) ∉ string)
    (heven : string.length % 2 = 0) (hfits : Fits string dstMaxLen) :
    asciiHexToBuffer (some dst) (some (string ++ 0 :: junk)) dstMaxLen =
      (unhex (string ++ 0 :: junk) string.length (Output.between [] dst)).map fun result =>
        (some result.2.cells, if result.1 then (string.length / 2 : Int) else -1) := by
  have hholds : Holds (string ++ 0 :: junk) string := holds_append hstring
  rw [asciiHexToBuffer]
  simp only [hholds.strlen_eq, if_pos hholds.mem]
  rw [if_neg (Nat.pos_iff_ne_zero.1 hfits.1), if_neg (by omega), if_neg (Nat.not_lt.2 hfits.2)]
  exact (Option.map_eq_bind ..).symm

theorem not_isHexDigit_of_isBehindF {c : UInt8} (h : isBehindF c) : ¬ isHexDigit c := by
  simp only [isBehindF, isHexDigit, Bool.and_eq_true, Bool.or_eq_true, decide_eq_true_eq,
    UInt8.le_iff_toNat_le] at h ⊢
  simp only [UInt8.reduceToNat] at h ⊢
  omega

/-- Text that is accepted with a letter behind `f` in it. -/
def AcceptedBehindF (string : List UInt8) (dstMaxLen : Nat) : Prop :=
  string.length % 2 = 0 ∧ Fits string dstMaxLen ∧
    (∀ c ∈ string, isHexDigit c || isBehindF c) ∧ ∃ c ∈ string, isBehindF c

theorem convertsExactly_iff (hstring : (0 : UInt8) ∉ string) (junk : List UInt8) {dst : List UInt8}
    (hdst : dstMaxLen ≤ dst.length) :
    ConvertsExactly string dst dstMaxLen
        (asciiHexToBuffer (some dst) (some (string ++ 0 :: junk)) dstMaxLen) ↔
      ¬ AcceptedBehindF string dstMaxLen := by
  rcases Classical.em (string.length % 2 = 0 ∧ Fits string dstMaxLen) with hfits | hrefused
  · obtain ⟨ok, outData, hunhex, hok, hout⟩ := unhex_spec string (0 :: junk) [] hfits.1
      (Nat.le_trans hfits.2.2 hdst)
    rw [asciiHexToBuffer_eq hstring hfits.1 hfits.2, hunhex, Option.map_some]
    constructor
    · rintro ⟨dst', returned, houtcome, -, hbad⟩ ⟨-, -, haccepted, c, hc, hbehind⟩
      have hreturned := hbad fun h => not_isHexDigit_of_isBehindF hbehind (h.2.2 c hc)
      rw [if_pos (hok.2 haccepted)] at houtcome
      cases houtcome
      omega
    · intro hno
      refine ⟨_, _, rfl, ?_, ?_⟩
      · rintro ⟨-, -, hdigits⟩
        have htrue := hok.2 fun c hc => by rw [hdigits c hc, Bool.true_or]
        rw [if_pos htrue, hout htrue, unhexBytes_digits hdigits]
        exact ⟨rfl, rfl⟩
      · intro hbad
        refine if_neg fun htrue => ?_
        have haccepted := hok.1 htrue
        refine hbad ⟨hfits.1, hfits.2, fun c hc => ?_⟩
        have hdigit := haccepted c hc
        rw [Bool.or_eq_true] at hdigit
        exact hdigit.resolve_right fun hbehind =>
          hno ⟨hfits.1, hfits.2, haccepted, c, hc, hbehind⟩
  · rw [asciiHexToBuffer_refused hstring hrefused]
    exact iff_of_true ⟨_, _, rfl, fun h => absurd ⟨h.1, h.2.1⟩ hrefused, fun _ => rfl⟩
      fun h => hrefused ⟨h.1, h.2.1⟩

end Exactness

section Inverse

def tableOf (upperCase : Bool) : List UInt8 :=
  if upperCase then upperCaseTable else lowerCaseTable

/-- The digits of a byte. -/
def hexPair (upperCase : Bool) (c : UInt8) : List UInt8 :=
  [(tableOf upperCase).getD (c.toNat / 16) 0, (tableOf upperCase).getD (c.toNat % 16) 0]

theorem digit_table : ∀ (upperCase : Bool) (n : Fin 16),
    (tableOf upperCase)[n.val]? = some ((tableOf upperCase).getD n 0) ∧
    isHexDigit ((tableOf upperCase).getD n 0) ∧ (tableOf upperCase).getD n 0 ≠ 0 ∧
    hexValue ((tableOf upperCase).getD n 0) = n := by
  decide

variable (upperCase : Bool)

theorem appendDigits_spec {maxlen : Nat} {t : List UInt8} {s : FString}
    (h : Holding maxlen t s) (bytes : List UInt8) (hroom : t.length + 2 * bytes.length ≤ maxlen) :
    ∃ s', appendDigits (tableOf upperCase) 0 bytes s = some s' ∧
      Holding maxlen (t ++ bytes.flatMap (hexPair upperCase)) s' := by
  induction bytes generalizing t s with
  | nil =>
      rw [List.flatMap_nil, List.append_nil]
      exact ⟨s, rfl, h⟩
  | cons c rest ih =>
      have hlt := c.toNat_lt
      obtain ⟨hupper, -, hupper0, -⟩ := digit_table upperCase ⟨c.toNat / 16, by omega⟩
      obtain ⟨hlower, -, hlower0, -⟩ := digit_table upperCase ⟨c.toNat % 16, by omega⟩
      rw [List.length_cons] at hroom
      obtain ⟨s₁, hfirst, h₁⟩ := appendChar_holding h hupper0 (by omega)
      obtain ⟨s₂, hsecond, h₂⟩ := appendChar_holding h₁ hlower0
        (by rw [List.length_append, List.length_singleton]; omega)
      obtain ⟨s₃, hrest, h₃⟩ := ih h₂ (by
        rw [List.length_append, List.length_append, List.length_singleton, List.length_singleton]
        omega)
      refine ⟨s₃, ?_, ?_⟩
      · rw [appendDigits, toNat_shiftRight_and, toNat_and, hupper, hlower]
        simp only [Option.bind_eq_bind, Option.bind_some, hfirst, hsecond, ne_eq, not_true_eq_false,
          false_and, if_false]
        exact hrest
      · rw [List.append_assoc, List.append_assoc] at h₃
        exact h₃

theorem isHexDigit_of_mem_hexPair {bytes : List UInt8} {c : UInt8}
    (h : c ∈ bytes.flatMap (hexPair upperCase)) : isHexDigit c ∧ c ≠ 0 := by
  obtain ⟨b, -, hc⟩ := List.mem_flatMap.1 h
  have hlt := b.toNat_lt
  obtain ⟨-, hupper, hupper0, -⟩ := digit_table upperCase ⟨b.toNat / 16, by omega⟩
  obtain ⟨-, hlower, hlower0, -⟩ := digit_table upperCase ⟨b.toNat % 16, by omega⟩
  rw [hexPair, List.mem_cons, List.mem_singleton] at hc
  rcases hc with rfl | rfl
  · exact ⟨hupper, hupper0⟩
  · exact ⟨hlower, hlower0⟩

theorem hexBytes_flatMap (bytes : List UInt8) :
    hexBytes (bytes.flatMap (hexPair upperCase)) = bytes := by
  induction bytes with
  | nil => rfl
  | cons c rest ih =>
      have hlt := c.toNat_lt
      obtain ⟨-, -, -, hupper⟩ := digit_table upperCase ⟨c.toNat / 16, by omega⟩
      obtain ⟨-, -, -, hlower⟩ := digit_table upperCase ⟨c.toNat % 16, by omega⟩
      have hvalue : value 16 [c.toNat / 16, c.toNat % 16] = c.toNat := by
        rw [← List.singleton_append, value_snoc, value_singleton]
        exact Nat.div_add_mod' c.toNat 16
      rw [List.flatMap_cons, hexPair, List.cons_append, List.cons_append, List.nil_append, hexBytes,
        ih, hupper, hlower, hvalue, UInt8.ofNat_toNat]

/-- What is encoded, in either case and without a separator, is decoded again. -/
theorem asciiHexToBuffer_bufferToAsciiHex {data : List UInt8} (hdata : data ≠ [])
    {destString : FString} {t : List UInt8} (hvalid : destString.Valid t)
    (hroom : 2 * data.length ≤ destString.internalMaxlen) {dst : List UInt8} {dstMaxLen : Nat}
    (hfits : data.length ≤ dstMaxLen) (hdst : dstMaxLen ≤ dst.length) :
    ∃ destString', bufferToAsciiHex (some data) data.length destString upperCase false 0 =
        some (destString', true) ∧
      asciiHexToBuffer (some dst) (some destString'.strPtr) dstMaxLen =
        some (some (data ++ dst.drop data.length), (data.length : Int)) := by
  have hlength := length_flatMap (f := hexPair upperCase) (k := 2) (fun _ => rfl) data
  have hpos := List.length_pos_of_ne_nil hdata
  obtain ⟨s, hclear, hempty⟩ := clear_holding hvalid
  obtain ⟨s', hdigits, hholding⟩ := appendDigits_spec upperCase hempty data
    (by rw [List.length_nil, Nat.zero_add]; exact hroom)
  rw [List.nil_append] at hholding
  refine ⟨s', ?_, ?_⟩
  · rw [bufferToAsciiHex, if_neg (by omega)]
    simp only [Bool.false_eq_true, if_false, hclear, Int.toNat_natCast, readCells_length,
      Option.bind_eq_bind, Option.bind_some]
    rw [← tableOf, hdigits, Option.bind_some, hholding.whole]
    rfl
  · obtain ⟨junk, hcells⟩ := hholding.valid.holds.split
    obtain ⟨dst', returned, houtcome, hgood, -⟩ :=
      (convertsExactly_iff hholding.valid.holds.nonzero junk hdst).2 (by
        rintro ⟨-, -, -, c, hc, hbehind⟩
        exact not_isHexDigit_of_isBehindF hbehind (isHexDigit_of_mem_hexPair upperCase hc).1)
    obtain ⟨rfl, rfl⟩ := hgood ⟨by omega, ⟨by omega, by omega⟩, fun c hc =>
      (isHexDigit_of_mem_hexPair upperCase hc).1⟩
    have hhalf : ((2 * data.length : Nat) : Int) / 2 = data.length := by omega
    rw [hcells, houtcome, hexBytes_flatMap, hlength, Nat.mul_div_cancel_left _ (by decide), hhalf]

end Inverse

/-- A call converts exactly hexadecimal text that fits unless the text is accepted with a letter
behind `f` in it. Encoded bytes are always decoded again. -/
theorem asciiHexToBuffer_exact_iff (string junk : List UInt8) (hstring : (0 : UInt8) ∉ string)
    (dst : List UInt8) (dstMaxLen : Nat) (hdst : dstMaxLen ≤ dst.length) :
    (ConvertsExactly string dst dstMaxLen
        (asciiHexToBuffer (some dst) (some (string ++ 0 :: junk)) dstMaxLen) ↔
      ¬ AcceptedBehindF string dstMaxLen) ∧
    ∀ (upperCase : Bool) (data : List UInt8) (destString : FString) (t : List UInt8), data ≠ [] →
      destString.Valid t → 2 * data.length ≤ destString.internalMaxlen →
      data.length ≤ dstMaxLen →
        ∃ destString', bufferToAsciiHex (some data) data.length destString upperCase false 0 =
            some (destString', true) ∧
          asciiHexToBuffer (some dst) (some destString'.strPtr) dstMaxLen =
            some (some (data ++ dst.drop data.length), (data.length : Int)) :=
  ⟨convertsExactly_iff hstring junk hdst, fun upperCase _ _ _ hdata hvalid hroom hfits =>
    asciiHexToBuffer_bufferToAsciiHex upperCase hdata hvalid hroom hfits hdst⟩

/-- `1aF0` is converted. -/
theorem asciiHexToBuffer_exact_digits :
    ConvertsExactly [49, 97, 70, 48] [1, 2, 3] 2
      (asciiHexToBuffer (some [1, 2, 3]) (some [49, 97, 70, 48, 0]) 2) :=
  (asciiHexToBuffer_exact_iff [49, 97, 70, 48] [] (by decide) [1, 2, 3] 2 (by decide)).1.2 (by
    rintro ⟨-, -, -, c, hc, hbehind⟩
    simp only [List.mem_cons, List.not_mem_nil, or_false] at hc
    rcases hc with rfl | rfl | rfl | rfl
    all_goals
      revert hbehind
      decide)

/-- `0g` is converted to a zero byte. -/
theorem asciiHexToBuffer_behindF :
    asciiHexToBuffer (some [1, 2]) (some [48, 103, 0]) 2 = some (some [0, 2], 1) ∧
      ¬ ConvertsExactly [48, 103] [1, 2] 2
        (asciiHexToBuffer (some [1, 2]) (some [48, 103, 0]) 2) := by
  have hcall : asciiHexToBuffer (some [1, 2]) (some [48, 103, 0]) 2 = some (some [0, 2], 1) := by
    decide
  refine ⟨hcall, ?_⟩
  rintro ⟨dst', returned, houtcome, -, hbad⟩
  have hreturned := hbad fun h => absurd (h.2.2 103 (by decide)) (by decide)
  rw [hcall] at houtcome
  cases houtcome
  cases hreturned

end ColonyPico.Text.AsciiHex
