import ColonyPico.Foundations.SequentialOutput
import Mathlib.Algebra.Group.Nat.Defs
import Mathlib.Tactic.IntervalCases

/-!
Base64 (`Cpl::Text::Encoding`): the length estimate, the encoder with its line feeds, and the
decoder that skips what is not Base64.
-/

namespace ColonyPico.Text.Base64

open Foundations.TerminatedText Foundations.SequentialOutput

/-- What a call leaves: the destination, and the output length where it returned true. -/
structure Result where
  dst : Option (List UInt8)
  len : Option Nat

def base64Table : List UInt8 :=
  "ABCDEFGHIJKLMNOPQRSTUVWXYZabcdefghijklmnopqrstuvwxyz0123456789+/".toList.map fun c =>
    UInt8.ofNat c.toNat

section Encoder

/-- The encoded length, estimated in `size_t` of `w` bits. -/
def encodedLength (w srcLen : Nat) (insertMIMELineFeeds : Bool) : Nat :=
  let olen := (srcLen * 4 % 2 ^ w / 3 + 4) % 2 ^ w
  let olen := if insertMIMELineFeeds then (olen + olen / 76) % 2 ^ w else olen
  (olen + 1) % 2 ^ w

/-- `*pos++ = base64_table[i]`. -/
def putCode (pos : Output UInt8) (i : UInt8) : Option (Output UInt8) :=
  base64Table[i.toNat]?.bind pos.put

/-- The walk over the source. The length of the line is read only with line feeds, where it stays
below 76. -/
def encodeGroups (insertMIMELineFeeds : Bool) :
    List UInt8 → Nat → Output UInt8 → Option (Nat × Output UInt8)
  | in0 :: in1 :: in2 :: rest, lineLen, pos => do
      let pos ← putCode pos (in0 >>> 2)
      let pos ← putCode pos ((in0 &&& 0x03) <<< 4 ||| in1 >>> 4)
      let pos ← putCode pos ((in1 &&& 0x0f) <<< 2 ||| in2 >>> 6)
      let pos ← putCode pos (in2 &&& 0x3f)
      if insertMIMELineFeeds = true ∧ lineLen + 4 ≥ 76 then
        let pos ← pos.put 10
        encodeGroups insertMIMELineFeeds rest 0 pos
      else encodeGroups insertMIMELineFeeds rest (lineLen + 4) pos
  | [in0, in1], lineLen, pos => do
      let pos ← putCode pos (in0 >>> 2)
      let pos ← putCode pos ((in0 &&& 0x03) <<< 4 ||| in1 >>> 4)
      let pos ← putCode pos ((in1 &&& 0x0f) <<< 2)
      let pos ← pos.put 61
      some (lineLen + 4, pos)
  | [in0], lineLen, pos => do
      let pos ← putCode pos (in0 >>> 2)
      let pos ← putCode pos ((in0 &&& 0x03) <<< 4)
      let pos ← pos.put 61
      let pos ← pos.put 61
      some (lineLen + 4, pos)
  | [], lineLen, pos => some (lineLen, pos)

/-- The line feed behind the last line. -/
def endLine (insertMIMELineFeeds : Bool) (lineLen : Nat) (pos : Output UInt8) :
    Option (Output UInt8) :=
  if insertMIMELineFeeds = true ∧ lineLen ≠ 0 then pos.put 10 else some pos

/-- `*pos = '\0'`, and the length up to there. -/
def terminate (pos : Output UInt8) : Option Result :=
  (poke pos.cells pos.pos 0).map fun cells => { dst := some cells, len := some pos.pos }

def base64Encode (w : Nat) (binarySrc : Option (List UInt8)) (srcLen : Nat)
    (dstEncodedText : Option (List UInt8)) (dstSize : Nat) (insertMIMELineFeeds : Bool) :
    Option Result :=
  let olen := encodedLength w srcLen insertMIMELineFeeds
  if olen < srcLen ∨ olen > dstSize then some { dst := dstEncodedText, len := none }
  else
    match dstEncodedText, binarySrc with
    | some dst, some src => do
        let src ← readCells src srcLen
        let (lineLen, pos) ← encodeGroups insertMIMELineFeeds src 0 { cells := dst, pos := 0 }
        let pos ← endLine insertMIMELineFeeds lineLen pos
        terminate pos
    | dst, _ => some { dst := dst, len := none }

end Encoder

section Decoder

def dtable : List UInt8 :=
  [0x80, 0x80, 0x80, 0x80, 0x80, 0x80, 0x80, 0x80, 0x80, 0x80, 0x80, 0x80, 0x80, 0x80, 0x80, 0x80,
   0x80, 0x80, 0x80, 0x80, 0x80, 0x80, 0x80, 0x80, 0x80, 0x80, 0x80, 0x80, 0x80, 0x80, 0x80, 0x80,
   0x80, 0x80, 0x80, 0x80, 0x80, 0x80, 0x80, 0x80, 0x80, 0x80, 0x80, 0x3e, 0x80, 0x80, 0x80, 0x3f,
   0x34, 0x35, 0x36, 0x37, 0x38, 0x39, 0x3a, 0x3b, 0x3c, 0x3d, 0x80, 0x80, 0x80, 0x00, 0x80, 0x80,
   0x80, 0x00, 0x01, 0x02, 0x03, 0x04, 0x05, 0x06, 0x07, 0x08, 0x09, 0x0a, 0x0b, 0x0c, 0x0d, 0x0e,
   0x0f, 0x10, 0x11, 0x12, 0x13, 0x14, 0x15, 0x16, 0x17, 0x18, 0x19, 0x80, 0x80, 0x80, 0x80, 0x80,
   0x80, 0x1a, 0x1b, 0x1c, 0x1d, 0x1e, 0x1f, 0x20, 0x21, 0x22, 0x23, 0x24, 0x25, 0x26, 0x27, 0x28,
   0x29, 0x2a, 0x2b, 0x2c, 0x2d, 0x2e, 0x2f, 0x30, 0x31, 0x32, 0x33, 0x80, 0x80, 0x80, 0x80, 0x80]
    ++ List.replicate 128 0x80

/-- `dtable[(int)c]`: where `char` is signed the index of a character from 0x80 on is negative. -/
def lookup (signedChar : Bool) (c : UInt8) : Option UInt8 :=
  if signedChar = true ∧ 0x80 ≤ c then none else dtable[c.toNat]?

/-- The count of valid encoding characters, on top of `count`. -/
def countValid (signedChar : Bool) (count : Nat) (src : List UInt8) : Option Nat :=
  src.foldlM (fun count c => (lookup signedChar c).map fun tmp =>
    if tmp ≠ 0x80 then count + 1 else count) count

/-- The walk over the text, with the codes of the block at hand. It tells whether the padding is
good. -/
def decodeBlocks (signedChar : Bool) :
    List UInt8 → List UInt8 → Nat → Output UInt8 → Option (Bool × Output UInt8)
  | [], _, _, pos => some (true, pos)
  | c :: rest, block, pad, pos => do
      let tmp ← lookup signedChar c
      if tmp = 0x80 then decodeBlocks signedChar rest block pad pos
      else
        let pad := if c = 61 then pad + 1 else pad
        match block with
        | [b0, b1, b2] =>
            let pos ← pos.put (b0 <<< 2 ||| b1 >>> 4)
            let pos ← pos.put (b1 <<< 4 ||| b2 >>> 2)
            let pos ← pos.put (b2 <<< 6 ||| tmp)
            if pad = 0 then decodeBlocks signedChar rest [] pad pos
            else if pad = 1 then some (true, { pos with pos := pos.pos - 1 })
            else if pad = 2 then some (true, { pos with pos := pos.pos - 2 })
            else some (false, pos)
        | block => decodeBlocks signedChar rest (block ++ [tmp]) pad pos

def base64Decode (signedChar : Bool) (encodedTextSrc : Option (List UInt8))
    (encodedTextSrcLen : Nat) (dstBinary : Option (List UInt8)) (dstSize : Nat) : Option Result :=
  match encodedTextSrc, dstBinary with
  | some src, some dst => do
      let src ← readCells src encodedTextSrcLen
      let count ← countValid signedChar 0 src
      if count = 0 ∨ count % 4 ≠ 0 ∨ count / 4 * 3 + 1 > dstSize then
        some { dst := some dst, len := none }
      else
        let (ok, pos) ← decodeBlocks signedChar src [] 0 { cells := dst, pos := 0 }
        if ok then terminate pos else some { dst := some pos.cells, len := none }
  | _, dst => some { dst := dst, len := none }

end Decoder

section Codes

theorem toNat_lt_of_shiftRight {i : UInt8} (h : i >>> 6 = 0) : i.toNat < 64 := by
  have hshift : i.toNat >>> 6 = 0 := congrArg UInt8.toNat h
  rw [Nat.shiftRight_eq_div_pow] at hshift
  omega

/-- The character of a code. -/
def charOf (i : UInt8) : UInt8 :=
  base64Table.getD i.toNat 0

theorem putCode_eq {i : UInt8} (h : i >>> 6 = 0) (pos : Output UInt8) :
    putCode pos i = pos.put (charOf i) := by
  have hlt : i.toNat < base64Table.length := toNat_lt_of_shiftRight h
  rw [putCode, charOf, List.getD_eq_getElem?_getD, List.getElem?_eq_getElem hlt]
  rfl

theorem lookup_table : ∀ n : Fin 64,
    dtable[(base64Table.getD n.val 0).toNat]? = some (UInt8.ofNat n.val) ∧
    base64Table.getD n.val 0 < 0x80 ∧ base64Table.getD n.val 0 ≠ 61 := by
  set_option maxRecDepth 20000 in decide

theorem lookup_charOf (signedChar : Bool) {i : UInt8} (h : i >>> 6 = 0) :
    lookup signedChar (charOf i) = some i := by
  obtain ⟨hcode, hascii, -⟩ := lookup_table ⟨i.toNat, toNat_lt_of_shiftRight h⟩
  rw [UInt8.ofNat_toNat] at hcode
  rw [lookup, if_neg fun hneg => absurd hneg.2 (UInt8.not_le.2 hascii)]
  exact hcode

theorem charOf_ne_pad {i : UInt8} (h : i >>> 6 = 0) : charOf i ≠ 61 :=
  (lookup_table ⟨i.toNat, toNat_lt_of_shiftRight h⟩).2.2

theorem ne_invalid {i : UInt8} (h : i >>> 6 = 0) : i ≠ 0x80 := by
  rintro rfl
  cases h

end Codes

section Groups

/-- The four codes of three bytes. -/
def code0 (a : UInt8) : UInt8 :=
  a >>> 2

def code1 (a b : UInt8) : UInt8 :=
  (a &&& 0x03) <<< 4 ||| b >>> 4

def code2 (b c : UInt8) : UInt8 :=
  (b &&& 0x0f) <<< 2 ||| c >>> 6

def code3 (c : UInt8) : UInt8 :=
  c &&& 0x3f

theorem code0_small (a : UInt8) : code0 a >>> 6 = 0 := by
  apply UInt8.eq_of_toBitVec_eq
  ext i hi
  interval_cases i <;> simp [code0]

theorem code1_small (a b : UInt8) : code1 a b >>> 6 = 0 := by
  apply UInt8.eq_of_toBitVec_eq
  ext i hi
  interval_cases i <;> simp [code1]

theorem code2_small (b c : UInt8) : code2 b c >>> 6 = 0 := by
  apply UInt8.eq_of_toBitVec_eq
  ext i hi
  interval_cases i <;> simp [code2]

theorem code3_small (c : UInt8) : code3 c >>> 6 = 0 := by
  apply UInt8.eq_of_toBitVec_eq
  ext i hi
  interval_cases i <;> simp [code3]

theorem code1_zero (a : UInt8) : (a &&& 0x03) <<< 4 = code1 a 0 := by
  simp [code1]

theorem code2_zero (b : UInt8) : (b &&& 0x0f) <<< 2 = code2 b 0 := by
  simp [code2]

theorem putCode_code0 (pos : Output UInt8) (a : UInt8) :
    putCode pos (a >>> 2) = pos.put (charOf (code0 a)) :=
  putCode_eq (code0_small a) pos

theorem putCode_code1 (pos : Output UInt8) (a b : UInt8) :
    putCode pos ((a &&& 0x03) <<< 4 ||| b >>> 4) = pos.put (charOf (code1 a b)) :=
  putCode_eq (code1_small a b) pos

theorem putCode_code2 (pos : Output UInt8) (b c : UInt8) :
    putCode pos ((b &&& 0x0f) <<< 2 ||| c >>> 6) = pos.put (charOf (code2 b c)) :=
  putCode_eq (code2_small b c) pos

theorem putCode_code3 (pos : Output UInt8) (c : UInt8) :
    putCode pos (c &&& 0x3f) = pos.put (charOf (code3 c)) :=
  putCode_eq (code3_small c) pos

theorem putCode_code1_zero (pos : Output UInt8) (a : UInt8) :
    putCode pos ((a &&& 0x03) <<< 4) = pos.put (charOf (code1 a 0)) := by
  rw [code1_zero]
  exact putCode_eq (code1_small a 0) pos

theorem putCode_code2_zero (pos : Output UInt8) (b : UInt8) :
    putCode pos ((b &&& 0x0f) <<< 2) = pos.put (charOf (code2 b 0)) := by
  rw [code2_zero]
  exact putCode_eq (code2_small b 0) pos

theorem byte0 (a b : UInt8) : code0 a <<< 2 ||| code1 a b >>> 4 = a := by
  apply UInt8.eq_of_toBitVec_eq
  ext i hi
  interval_cases i <;> simp [code0, code1]

theorem byte1 (a b c : UInt8) : code1 a b <<< 4 ||| code2 b c >>> 2 = b := by
  apply UInt8.eq_of_toBitVec_eq
  ext i hi
  interval_cases i <;> simp [code1, code2]

theorem byte2 (b c : UInt8) : code2 b c <<< 6 ||| code3 c = c := by
  apply UInt8.eq_of_toBitVec_eq
  ext i hi
  interval_cases i <;> simp [code2, code3]

/-- The characters for three bytes, for two and for one. -/
def triple (a b c : UInt8) : List UInt8 :=
  [charOf (code0 a), charOf (code1 a b), charOf (code2 b c), charOf (code3 c)]

def pair (a b : UInt8) : List UInt8 :=
  [charOf (code0 a), charOf (code1 a b), charOf (code2 b 0), 61]

def single (a : UInt8) : List UInt8 :=
  [charOf (code0 a), charOf (code1 a 0), 61, 61]

/-- The text of a source whose line is `lineLen` characters long already. -/
def textFrom (insertMIMELineFeeds : Bool) : List UInt8 → Nat → List UInt8
  | a :: b :: c :: rest, lineLen =>
      triple a b c ++
        if insertMIMELineFeeds = true ∧ lineLen + 4 ≥ 76 then
          10 :: textFrom insertMIMELineFeeds rest 0
        else textFrom insertMIMELineFeeds rest (lineLen + 4)
  | [a, b], _ => pair a b ++ if insertMIMELineFeeds then [10] else []
  | [a], _ => single a ++ if insertMIMELineFeeds then [10] else []
  | [], lineLen => if insertMIMELineFeeds = true ∧ lineLen ≠ 0 then [10] else []

variable (insertMIMELineFeeds : Bool)

theorem endLine_eq (lineLen : Nat) (pos : Output UInt8) :
    endLine insertMIMELineFeeds lineLen pos =
      pos.puts (if insertMIMELineFeeds = true ∧ lineLen ≠ 0 then [10] else []) := by
  rw [endLine]
  split_ifs with h
  · rw [puts_cons]
    exact (Option.bind_fun_some _).symm
  · rfl

theorem feed_succ (lineLen : Nat) :
    (if insertMIMELineFeeds = true ∧ lineLen + 4 ≠ 0 then [10] else []) =
      if insertMIMELineFeeds then [(10 : UInt8)] else [] := by
  simp

theorem encodeGroups_eq (src : List UInt8) (lineLen : Nat) (pos : Output UInt8) :
    ((encodeGroups insertMIMELineFeeds src lineLen pos).bind fun groups =>
        endLine insertMIMELineFeeds groups.1 groups.2) =
      pos.puts (textFrom insertMIMELineFeeds src lineLen) := by
  fun_induction textFrom insertMIMELineFeeds src lineLen generalizing pos with
  | case1 a b c rest lineLen ihFull ihMore =>
      simp only [encodeGroups, putCode_code0, putCode_code1, putCode_code2, putCode_code3, triple,
        List.cons_append, List.nil_append, puts_cons, Option.bind_eq_bind, Option.bind_assoc]
      rcases Classical.em (insertMIMELineFeeds = true ∧ lineLen + 4 ≥ 76) with h | h
      · simp only [if_pos h, puts_cons, Option.bind_assoc, ihFull]
      · simp only [if_neg h, ihMore]
  | case2 a b lineLen =>
      simp only [encodeGroups, putCode_code0, putCode_code1, putCode_code2_zero, pair,
        List.cons_append, List.nil_append, puts_cons, Option.bind_eq_bind, Option.bind_assoc,
        Option.bind_some, endLine_eq, feed_succ]
  | case3 a lineLen =>
      simp only [encodeGroups, putCode_code0, putCode_code1_zero, single, List.cons_append,
        List.nil_append, puts_cons, Option.bind_eq_bind, Option.bind_assoc, Option.bind_some,
        endLine_eq, feed_succ]
  | case4 lineLen h => simp only [encodeGroups, Option.bind_some, endLine_eq, if_pos h]
  | case5 lineLen h => simp only [encodeGroups, Option.bind_some, endLine_eq, if_neg h]

end Groups

section Length

/-- The characters of a text of `n` bytes, without the line feeds. -/
def groupChars (n : Nat) : Nat :=
  4 * ((n + 2) / 3)

/-- A line feed for every 76 characters, and one for what is left. -/
def lineFeeds (insertMIMELineFeeds : Bool) (chars : Nat) : Nat :=
  if insertMIMELineFeeds then (chars + 75) / 76 else 0

/-- The text behind a full line or the last characters ends with a feed. -/
theorem length_feed {insertMIMELineFeeds : Bool} {lineLen : Nat} (hfour : lineLen % 4 = 0)
    (hline : insertMIMELineFeeds = true → lineLen < 76) :
    (if insertMIMELineFeeds then [(10 : UInt8)] else []).length =
      lineFeeds insertMIMELineFeeds (lineLen + 4) := by
  rw [lineFeeds]
  split_ifs with hmime
  · have hlt := hline hmime
    rw [List.length_singleton]
    omega
  · rfl

theorem length_textFrom (insertMIMELineFeeds : Bool) (src : List UInt8) (lineLen : Nat)
    (hfour : lineLen % 4 = 0) (hline : insertMIMELineFeeds = true → lineLen < 76) :
    (textFrom insertMIMELineFeeds src lineLen).length =
      groupChars src.length + lineFeeds insertMIMELineFeeds (lineLen + groupChars src.length) := by
  simp only [groupChars]
  fun_induction textFrom insertMIMELineFeeds src lineLen with
  | case1 a b c rest lineLen ihFull ihMore =>
      simp only [List.length_append, List.length_cons, triple, List.length_nil]
      rcases Classical.em (insertMIMELineFeeds = true ∧ lineLen + 4 ≥ 76) with h | h
      · have hlt := hline h.1
        rw [if_pos h, List.length_cons, ihFull rfl fun _ => by decide, lineFeeds, lineFeeds,
          if_pos h.1, if_pos h.1]
        omega
      · rw [if_neg h, ihMore (by omega) fun hmime => Nat.lt_of_not_le fun hge => h ⟨hmime, hge⟩,
          lineFeeds, lineFeeds]
        split_ifs <;> omega
  | case2 a b lineLen =>
      rw [List.length_append, length_feed hfour hline, pair]
      simp only [List.length_cons, List.length_nil, Nat.reduceAdd, Nat.reduceDiv, Nat.reduceMul]
  | case3 a lineLen =>
      rw [List.length_append, length_feed hfour hline, single]
      simp only [List.length_cons, List.length_nil, Nat.reduceAdd, Nat.reduceDiv, Nat.reduceMul]
  | case4 lineLen h =>
      have hlt := hline h.1
      rw [lineFeeds, if_pos h.1]
      simp only [List.length_cons, List.length_nil]
      omega
  | case5 lineLen h =>
      rw [lineFeeds]
      simp only [List.length_nil]
      split_ifs with hmime
      · have hzero : lineLen = 0 := Classical.not_not.1 fun hne => h ⟨hmime, hne⟩
        rw [hzero]
      · rfl

end Length

section Decoding

variable (signedChar : Bool)

theorem lookup_pad : lookup signedChar 61 = some 0 := by
  cases signedChar <;> decide

theorem lookup_feed : lookup signedChar 10 = some 0x80 := by
  cases signedChar <;> decide

theorem countValid_cons {c tmp : UInt8} (h : lookup signedChar c = some tmp) (count : Nat)
    (src : List UInt8) :
    countValid signedChar count (c :: src) =
      countValid signedChar (if tmp ≠ 0x80 then count + 1 else count) src := by
  rw [countValid, List.foldlM_cons, h]
  rfl

theorem decodeBlocks_more {c tmp : UInt8} (h : lookup signedChar c = some tmp) (hvalid : tmp ≠ 0x80)
    (rest block : List UInt8) (hblock : block.length < 3) (pad : Nat)
    (pos : Output UInt8) :
    decodeBlocks signedChar (c :: rest) block pad pos =
      decodeBlocks signedChar rest (block ++ [tmp]) (if c = 61 then pad + 1 else pad) pos := by
  rw [decodeBlocks, h]
  simp only [Option.bind_eq_bind, Option.bind_some, if_neg hvalid]
  match block, hblock with
  | [], _ => rfl
  | [b0], _ => rfl
  | [b0, b1], _ => rfl

theorem decodeBlocks_full {c b3 : UInt8} (h : lookup signedChar c = some b3) (hvalid : b3 ≠ 0x80)
    (rest : List UInt8) (b0 b1 b2 : UInt8) (pad : Nat) (pos : Output UInt8) :
    decodeBlocks signedChar (c :: rest) [b0, b1, b2] pad pos =
      (pos.puts [b0 <<< 2 ||| b1 >>> 4, b1 <<< 4 ||| b2 >>> 2, b2 <<< 6 ||| b3]).bind fun pos =>
        let pad := if c = 61 then pad + 1 else pad
        if pad = 0 then decodeBlocks signedChar rest [] pad pos
        else if pad = 1 then some (true, { pos with pos := pos.pos - 1 })
        else if pad = 2 then some (true, { pos with pos := pos.pos - 2 })
        else some (false, pos) := by
  rw [decodeBlocks, h]
  simp only [Option.bind_eq_bind, Option.bind_some, if_neg hvalid, puts_cons, puts_nil,
    Option.bind_assoc]

theorem decodeBlocks_feed (rest : List UInt8) (pos : Output UInt8) :
    decodeBlocks signedChar (10 :: rest) [] 0 pos = decodeBlocks signedChar rest [] 0 pos := by
  rw [decodeBlocks, lookup_feed]
  rfl

theorem lookup_code {i : UInt8} (h : i >>> 6 = 0) :
    lookup signedChar (charOf i) = some i ∧ i ≠ 0x80 ∧ charOf i ≠ 61 :=
  ⟨lookup_charOf signedChar h, ne_invalid h, charOf_ne_pad h⟩

/-- The first two characters of a block, which are never pads. -/
theorem decodeBlocks_start (a b : UInt8) (rest : List UInt8) (pos : Output UInt8) :
    decodeBlocks signedChar (charOf (code0 a) :: charOf (code1 a b) :: rest) [] 0 pos =
      decodeBlocks signedChar rest [code0 a, code1 a b] 0 pos := by
  obtain ⟨hlookup0, hvalid0, hpad0⟩ := lookup_code signedChar (code0_small a)
  obtain ⟨hlookup1, hvalid1, hpad1⟩ := lookup_code signedChar (code1_small a b)
  rw [decodeBlocks_more signedChar hlookup0 hvalid0 _ [] (Nat.succ_pos 2), if_neg hpad0,
    List.nil_append, decodeBlocks_more signedChar hlookup1 hvalid1 _ [code0 a] (Nat.le_succ 2),
    if_neg hpad1]
  rfl

theorem decodeBlocks_triple (a b c : UInt8) (rest : List UInt8) (pos : Output UInt8) :
    decodeBlocks signedChar (triple a b c ++ rest) [] 0 pos =
      (pos.puts [a, b, c]).bind fun pos => decodeBlocks signedChar rest [] 0 pos := by
  obtain ⟨hlookup2, hvalid2, hpad2⟩ := lookup_code signedChar (code2_small b c)
  obtain ⟨hlookup3, hvalid3, hpad3⟩ := lookup_code signedChar (code3_small c)
  rw [triple, List.cons_append, List.cons_append, decodeBlocks_start, List.cons_append,
    decodeBlocks_more signedChar hlookup2 hvalid2 _ [_, _] (Nat.lt_succ_self 2), if_neg hpad2]
  refine (decodeBlocks_full signedChar hlookup3 hvalid3 _ _ _ _ _ _).trans ?_
  rw [if_neg hpad3, byte0, byte1, byte2]
  rfl

theorem decodeBlocks_pair (a b : UInt8) (rest done : List UInt8) {room : List UInt8}
    (hroom : 3 ≤ room.length) :
    decodeBlocks signedChar (pair a b ++ rest) [] 0 (Output.between done room) =
      some (true, Output.between (done ++ [a, b]) (0 :: room.drop 3)) := by
  obtain ⟨hlookup2, hvalid2, hpad2⟩ := lookup_code signedChar (code2_small b 0)
  have hzero : code2 b 0 <<< 6 ||| 0 = 0 := byte2 b 0
  have hputs := puts_between done (show [a, b, 0].length ≤ room.length from hroom)
  have hback := between_back (done ++ [a, b]) [0] (room.drop 3)
  rw [List.append_assoc] at hback
  rw [pair, List.cons_append, List.cons_append, decodeBlocks_start, List.cons_append,
    decodeBlocks_more signedChar hlookup2 hvalid2 _ [_, _] (Nat.lt_succ_self 2), if_neg hpad2]
  refine (decodeBlocks_full signedChar (lookup_pad signedChar) (by decide) _ _ _ _ _ _).trans ?_
  rw [byte0, byte1, hzero, hputs, Option.bind_some]
  exact congrArg (fun pos => some (true, pos)) hback

theorem decodeBlocks_single (a : UInt8) (rest done : List UInt8) {room : List UInt8}
    (hroom : 3 ≤ room.length) :
    decodeBlocks signedChar (single a ++ rest) [] 0 (Output.between done room) =
      some (true, Output.between (done ++ [a]) (0 :: 0 :: room.drop 3)) := by
  have hzero : code1 a 0 <<< 4 ||| (0 : UInt8) >>> 2 = 0 := byte1 a 0 0
  have hputs := puts_between done (show [a, 0, 0].length ≤ room.length from hroom)
  have hback := between_back (done ++ [a]) [0, 0] (room.drop 3)
  rw [List.append_assoc] at hback
  rw [single, List.cons_append, List.cons_append, decodeBlocks_start, List.cons_append,
    decodeBlocks_more signedChar (lookup_pad signedChar) (by decide) _ [_, _] (Nat.lt_succ_self 2)]
  refine (decodeBlocks_full signedChar (lookup_pad signedChar) (by decide) _ _ _ _ _ _).trans ?_
  have hlast : (0 : UInt8) <<< 6 ||| 0 = 0 := by decide
  rw [byte0, hzero, hlast, hputs, Option.bind_some]
  exact congrArg (fun pos => some (true, pos)) hback

theorem countValid_quad {c0 c1 c2 c3 t0 t1 t2 t3 : UInt8} (h0 : lookup signedChar c0 = some t0)
    (h1 : lookup signedChar c1 = some t1) (h2 : lookup signedChar c2 = some t2)
    (h3 : lookup signedChar c3 = some t3) (hv0 : t0 ≠ 0x80) (hv1 : t1 ≠ 0x80) (hv2 : t2 ≠ 0x80)
    (hv3 : t3 ≠ 0x80) (count : Nat) (rest : List UInt8) :
    countValid signedChar count ([c0, c1, c2, c3] ++ rest) =
      countValid signedChar (count + 4) rest := by
  simp only [List.cons_append, List.nil_append]
  rw [countValid_cons signedChar h0, countValid_cons signedChar h1, countValid_cons signedChar h2,
    countValid_cons signedChar h3, if_pos hv0, if_pos hv1, if_pos hv2, if_pos hv3]

theorem countValid_feed (count : Nat) (rest : List UInt8) :
    countValid signedChar count (10 :: rest) = countValid signedChar count rest := by
  rw [countValid_cons signedChar (lookup_feed signedChar)]
  rfl

theorem countValid_textFrom (insertMIMELineFeeds : Bool) (src : List UInt8) (lineLen count : Nat) :
    countValid signedChar count (textFrom insertMIMELineFeeds src lineLen) =
      some (count + groupChars src.length) := by
  have hpad := lookup_pad signedChar
  have hne : (0 : UInt8) ≠ 0x80 := by decide
  have hfeed : ∀ count : Nat, countValid signedChar count
      (if insertMIMELineFeeds then [10] else []) = some count := by
    intro count
    split_ifs
    · exact countValid_feed signedChar count []
    · rfl
  fun_induction textFrom insertMIMELineFeeds src lineLen generalizing count with
  | case1 a b c rest lineLen ihFull ihMore =>
      have hsum : ∀ count, count + 4 + groupChars rest.length =
          count + groupChars (a :: b :: c :: rest).length := by
        intro count
        simp only [groupChars, List.length_cons]
        omega
      obtain ⟨h0, hv0, -⟩ := lookup_code signedChar (code0_small a)
      obtain ⟨h1, hv1, -⟩ := lookup_code signedChar (code1_small a b)
      obtain ⟨h2, hv2, -⟩ := lookup_code signedChar (code2_small b c)
      obtain ⟨h3, hv3, -⟩ := lookup_code signedChar (code3_small c)
      refine (countValid_quad signedChar h0 h1 h2 h3 hv0 hv1 hv2 hv3 _ _).trans ?_
      rw [← hsum]
      split_ifs with h
      · rw [countValid_feed, ihFull]
      · exact ihMore _
  | case2 a b lineLen =>
      obtain ⟨h0, hv0, -⟩ := lookup_code signedChar (code0_small a)
      obtain ⟨h1, hv1, -⟩ := lookup_code signedChar (code1_small a b)
      obtain ⟨h2, hv2, -⟩ := lookup_code signedChar (code2_small b 0)
      refine (countValid_quad signedChar h0 h1 h2 hpad hv0 hv1 hv2 hne _ _).trans ?_
      rw [hfeed, groupChars]
      simp only [List.length_cons, List.length_nil, Nat.reduceAdd, Nat.reduceDiv, Nat.reduceMul]
  | case3 a lineLen =>
      obtain ⟨h0, hv0, -⟩ := lookup_code signedChar (code0_small a)
      obtain ⟨h1, hv1, -⟩ := lookup_code signedChar (code1_small a 0)
      refine (countValid_quad signedChar h0 h1 hpad hpad hv0 hv1 hne hne _ _).trans ?_
      rw [hfeed, groupChars]
      simp only [List.length_cons, List.length_nil, Nat.reduceAdd, Nat.reduceDiv, Nat.reduceMul]
  | case4 lineLen h => exact countValid_feed signedChar count []
  | case5 lineLen h => rfl

theorem decodeBlocks_textFrom (insertMIMELineFeeds : Bool) (src : List UInt8) (lineLen : Nat)
    (done room : List UInt8) (hroom : 3 * ((src.length + 2) / 3) ≤ room.length) :
    ∃ junk, decodeBlocks signedChar (textFrom insertMIMELineFeeds src lineLen) [] 0
        (Output.between done room) = some (true, Output.between (done ++ src) junk) ∧
      src.length + junk.length = room.length := by
  fun_induction textFrom insertMIMELineFeeds src lineLen generalizing done room with
  | case1 a b c rest lineLen ihFull ihMore =>
      have hlength : 3 * ((rest.length + 2) / 3) ≤ (room.drop 3).length ∧ 3 ≤ room.length := by
        rw [List.length_cons, List.length_cons, List.length_cons] at hroom
        rw [List.length_drop]
        omega
      have hputs := puts_between done (show [a, b, c].length ≤ room.length from hlength.2)
      rw [decodeBlocks_triple, hputs, Option.bind_some]
      obtain ⟨junk, hdecode, hjunk⟩ : ∃ junk, decodeBlocks signedChar
          (if insertMIMELineFeeds = true ∧ lineLen + 4 ≥ 76 then
            10 :: textFrom insertMIMELineFeeds rest 0
          else textFrom insertMIMELineFeeds rest (lineLen + 4)) [] 0
          (Output.between (done ++ [a, b, c]) (room.drop 3)) =
            some (true, Output.between (done ++ [a, b, c] ++ rest) junk) ∧
          rest.length + junk.length = (room.drop 3).length := by
        split_ifs
        · rw [decodeBlocks_feed]
          exact ihFull _ _ hlength.1
        · exact ihMore _ _ hlength.1
      refine ⟨junk, ?_, ?_⟩
      · rw [List.append_assoc] at hdecode
        exact hdecode
      · rw [List.length_drop] at hjunk
        simp only [List.length_cons]
        omega
  | case2 a b lineLen =>
      rw [List.length_cons, List.length_singleton] at hroom
      refine ⟨_, decodeBlocks_pair signedChar a b _ done hroom, ?_⟩
      simp only [List.length_cons, List.length_nil, List.length_drop]
      omega
  | case3 a lineLen =>
      rw [List.length_singleton] at hroom
      refine ⟨_, decodeBlocks_single signedChar a _ done hroom, ?_⟩
      simp only [List.length_cons, List.length_nil, List.length_drop]
      omega
  | case4 lineLen h =>
      refine ⟨room, ?_, Nat.zero_add _⟩
      rw [decodeBlocks_feed, List.append_nil]
      rfl
  | case5 lineLen h =>
      refine ⟨room, ?_, Nat.zero_add _⟩
      rw [List.append_nil]
      rfl

end Decoding

section Estimate

variable {w n : Nat} (insertMIMELineFeeds : Bool)

theorem encodedLength_eq (hw : 16 ≤ w) {r : Nat} (hr : n * 4 % 2 ^ w = r) :
    encodedLength w n insertMIMELineFeeds =
      if insertMIMELineFeeds then r / 3 + 4 + (r / 3 + 4) / 76 + 1 else r / 3 + 4 + 1 := by
  have hpow : 2 ^ 16 ≤ 2 ^ w := Nat.pow_le_pow_right (by decide) hw
  have hlt : r < 2 ^ w := hr ▸ Nat.mod_lt _ (Nat.two_pow_pos w)
  rw [encodedLength, hr]
  rw [Nat.mod_eq_of_lt (show r / 3 + 4 < 2 ^ w by omega)]
  split_ifs
  · rw [Nat.mod_eq_of_lt (show r / 3 + 4 + (r / 3 + 4) / 76 < 2 ^ w by omega),
      Nat.mod_eq_of_lt (by omega)]
  · rw [Nat.mod_eq_of_lt (by omega)]

/-- The estimate covers the text and its NUL, and is at most four above. -/
theorem encodedLength_bounds (hw : 16 ≤ w) (hfits : 4 * n < 2 ^ w) :
    groupChars n + lineFeeds insertMIMELineFeeds (groupChars n) + 1 ≤
        encodedLength w n insertMIMELineFeeds ∧
      encodedLength w n insertMIMELineFeeds ≤
        groupChars n + lineFeeds insertMIMELineFeeds (groupChars n) + 5 := by
  rw [encodedLength_eq insertMIMELineFeeds hw (Nat.mod_eq_of_lt (by omega)), lineFeeds, groupChars]
  split_ifs <;> omega

/-- An estimate that overflowed is below the length of the source. -/
theorem encodedLength_lt (hw : 16 ≤ w) (hn : n < 2 ^ w) (hover : 2 ^ w ≤ 4 * n) :
    encodedLength w n insertMIMELineFeeds < n := by
  have hpow : 2 ^ 16 ≤ 2 ^ w := Nat.pow_le_pow_right (by decide) hw
  have hlt : n * 4 % 2 ^ w < 2 ^ w := Nat.mod_lt _ (Nat.two_pow_pos w)
  have hle : n * 4 % 2 ^ w ≤ n * 4 - 2 ^ w := by
    rw [Nat.mod_eq_sub_mod (by omega)]
    exact Nat.mod_le _ _
  rw [encodedLength_eq insertMIMELineFeeds hw rfl]
  split_ifs <;> omega

end Estimate

/-- The text of a source, from the start of a line. -/
def encodedText (insertMIMELineFeeds : Bool) (src : List UInt8) : List UInt8 :=
  textFrom insertMIMELineFeeds src 0

theorem length_encodedText (insertMIMELineFeeds : Bool) (src : List UInt8) :
    (encodedText insertMIMELineFeeds src).length =
      groupChars src.length + lineFeeds insertMIMELineFeeds (groupChars src.length) := by
  rw [encodedText, length_textFrom insertMIMELineFeeds src 0 rfl fun _ => by decide, Nat.zero_add]

theorem terminate_between (done : List UInt8) (x : UInt8) (room : List UInt8) :
    terminate (Output.between done (x :: room)) =
      some { dst := some (done ++ 0 :: room), len := some done.length } := by
  rw [terminate, Output.between, poke_append rfl, Option.map_some]

/-- The whole encoder, where the estimate is let through. -/
theorem base64Encode_eq (w : Nat) (src dst : List UInt8) (dstSize : Nat)
    (insertMIMELineFeeds : Bool)
    (hestimate : ¬ (encodedLength w src.length insertMIMELineFeeds < src.length ∨
      encodedLength w src.length insertMIMELineFeeds > dstSize))
    (hroom : (encodedText insertMIMELineFeeds src).length < dst.length) :
    base64Encode w (some src) src.length (some dst) dstSize insertMIMELineFeeds =
      some { dst := some (encodedText insertMIMELineFeeds src ++
               0 :: dst.drop ((encodedText insertMIMELineFeeds src).length + 1)),
             len := some (encodedText insertMIMELineFeeds src).length } := by
  have hputs := puts_between [] (Nat.le_of_lt hroom)
  have hgroups := encodeGroups_eq insertMIMELineFeeds src 0 (Output.between [] dst)
  rw [encodedText] at hroom hputs
  rw [hputs, List.nil_append] at hgroups
  rw [base64Encode, if_neg hestimate]
  simp only [readCells_length, Option.bind_eq_bind, Option.bind_some]
  rw [← Option.bind_assoc]
  refine (congrArg (fun pos => Option.bind pos terminate) hgroups).trans ?_
  rw [Option.bind_some, List.drop_eq_getElem_cons hroom, terminate_between]
  rfl

theorem base64Decode_eq (signedChar insertMIMELineFeeds : Bool) {src : List UInt8} (hne : src ≠ [])
    (more buffer : List UInt8) (bufferSize : Nat)
    (hsize : 3 * ((src.length + 2) / 3) + 1 ≤ bufferSize) (hbuffer : bufferSize ≤ buffer.length) :
    ∃ junk, base64Decode signedChar (some (encodedText insertMIMELineFeeds src ++ more))
        (encodedText insertMIMELineFeeds src).length (some buffer) bufferSize =
          some { dst := some (src ++ 0 :: junk), len := some src.length } ∧
      src.length + 1 + junk.length = buffer.length := by
  have hlength := List.length_pos_of_ne_nil hne
  obtain ⟨room, hdecode, hroom⟩ := decodeBlocks_textFrom signedChar insertMIMELineFeeds src 0 []
    buffer (by omega)
  cases room with
  | nil => 
      rw [List.length_nil] at hroom
      omega
  | cons x junk =>
      refine ⟨junk, ?_, ?_⟩
      · rw [base64Decode]
        simp only [readCells_append, Option.bind_eq_bind, Option.bind_some]
        rw [encodedText, countValid_textFrom, Option.bind_some, Nat.zero_add, groupChars,
          if_neg (by omega)]
        refine (congrArg (fun decoded => Option.bind decoded _) hdecode).trans ?_
        rw [Option.bind_some, List.nil_append]
        exact terminate_between src x junk
      · rw [List.length_cons] at hroom
        omega

/-- Whatever the encoder accepts it writes inside the destination, and the decoder recovers the
source from it. Room for five more than the characters and line feeds is enough, and a source
whose length overflows the estimate is refused. -/
theorem base64_round_trip (w : Nat) (hw : 16 ≤ w) (src : List UInt8) (hsrc : src.length < 2 ^ w)
    (dst : List UInt8) (dstSize : Nat) (hdst : dstSize ≤ dst.length) (insertMIMELineFeeds : Bool) :
    ∃ result, base64Encode w (some src) src.length (some dst) dstSize insertMIMELineFeeds =
        some result ∧
      (∀ len, result.len = some len →
        len + 1 ≤ dstSize ∧
        (∃ written, written.length = len ∧
          result.dst = some (written ++ 0 :: dst.drop (len + 1))) ∧
        (src ≠ [] → ∀ signedChar buffer bufferSize,
          3 * ((src.length + 2) / 3) + 1 ≤ bufferSize → bufferSize ≤ buffer.length →
            ∃ junk, base64Decode signedChar result.dst len (some buffer) bufferSize =
                some { dst := some (src ++ 0 :: junk), len := some src.length } ∧
              src.length + 1 + junk.length = buffer.length)) ∧
      (4 * src.length < 2 ^ w →
        4 * ((src.length + 2) / 3) +
            lineFeeds insertMIMELineFeeds (4 * ((src.length + 2) / 3)) + 5 ≤ dstSize →
          result.len.isSome) ∧
      (2 ^ w ≤ 4 * src.length → result = { dst := some dst, len := none }) := by
  rcases Classical.em (encodedLength w src.length insertMIMELineFeeds < src.length ∨
    encodedLength w src.length insertMIMELineFeeds > dstSize) with hrefused | hestimate
  · refine ⟨_, if_pos hrefused, ?_, ?_, fun _ => rfl⟩
    · intro len hlen
      cases hlen
    · intro hfits hsize
      have hbounds := encodedLength_bounds insertMIMELineFeeds hw hfits
      rw [groupChars] at hbounds
      omega
  · have hfits : 4 * src.length < 2 ^ w := Nat.lt_of_not_le fun hover =>
      hestimate (.inl (encodedLength_lt insertMIMELineFeeds hw hsrc hover))
    have hbounds := encodedLength_bounds insertMIMELineFeeds hw hfits
    have hlength := length_encodedText insertMIMELineFeeds src
    have hroom : (encodedText insertMIMELineFeeds src).length + 1 ≤ dstSize := by omega
    refine ⟨_, base64Encode_eq w src dst dstSize insertMIMELineFeeds hestimate (by omega), ?_,
      fun _ _ => rfl, fun hover => absurd hfits (Nat.not_lt.2 hover)⟩
    intro len hlen
    obtain rfl := Option.some.inj hlen
    exact ⟨hroom, ⟨_, rfl, rfl⟩, fun hne signedChar buffer bufferSize =>
      base64Decode_eq signedChar insertMIMELineFeeds hne _ buffer bufferSize⟩

theorem base64_round_trip_four :
    ∃ result, base64Encode 32 (some [0, 255, 16, 77]) 4 (some (List.replicate 14 1)) 14 true =
        some result ∧ result.len.isSome := by
  obtain ⟨result, hencode, -, hsize, -⟩ := base64_round_trip 32 (by decide) [0, 255, 16, 77]
    (by decide) (List.replicate 14 1) 14 (by decide) true
  exact ⟨result, hencode, hsize (by decide) (by decide)⟩

end ColonyPico.Text.Base64
