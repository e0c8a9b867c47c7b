import ColonyPico.Foundations.PositionalDigits
import ColonyPico.Foundations.SequentialOutput
import ColonyPico.Text.StringAppend

/-!
Binary text (`Cpl::Text`): from bytes to `0` and `1` and back, with the bytes in either order.
-/

namespace ColonyPico.Text.AsciiBinary

open Foundations.TerminatedText Foundations.SequentialOutput Foundations.PositionalDigits
open StringEdits StringRefinement StringAppend

/-- `*ptr`. -/
def readAt (cells : List UInt8) (ptr : Int) : Option UInt8 :=
  if ptr < 0 then none else cells[ptr.toNat]?

section Encoder

def bitRep : List CString :=
  ["0000", "0001", "0010", "0011", "0100", "0101", "0110", "0111",
   "1000", "1001", "1010", "1011", "1100", "1101", "1110", "1111"].map literal

/-- The loop over `len` bytes. -/
def appendBits (data : List UInt8) (direction : Int) : Nat → Int → FString → Option FString
  | 0, _, destString => some destString
  | len + 1, ptr, destString => do
      let b ← readAt data ptr
      let hi ← bitRep[(b >>> 4).toNat]?
      let destString ← appendString destString hi
      let lo ← bitRep[(b &&& 0x0f).toNat]?
      let destString ← appendString destString lo
      appendBits data direction len (ptr + direction) destString

/-- The string afterwards, and whether the whole buffer was converted. -/
def bufferToAsciiBinary (binaryData : Option (List UInt8)) (len : Int) (destString : FString)
    (appendToString reverse : Bool) : Option (FString × Bool) :=
  match binaryData with
  | none => some (destString, false)
  | some data =>
      if len = 0 then some (destString, false)
      -- a negative length does not count down to zero
      else if len < 0 then none
      else do
        let destString ← if appendToString then some destString else clear destString
        let ptr := if reverse then len - 1 else 0
        let direction := if reverse then -1 else 1
        let destString ← appendBits data direction len.toNat ptr destString
        some (destString, !destString.truncated)

end Encoder

section Decoder

/-- The loop over at most eight characters: the byte, what is left of the string and the count of
bits, or nothing for a character that is no bit. -/
def takeByte : Nat → UInt8 → UInt8 → List UInt8 → Nat → Option (Option (UInt8 × List UInt8 × Nat))
  | 0, _, data, srcP, convertedBits => some (some (data, srcP, convertedBits))
  | _ + 1, _, _, [], _ => none
  | i + 1, mask, data, c :: srcP, convertedBits =>
      if c = 0 then some (some (data, c :: srcP, convertedBits))
      else if c = 49 then takeByte i (mask >>> 1) (data ||| mask) srcP (convertedBits + 1)
      else if c ≠ 48 then some none
      else takeByte i (mask >>> 1) data srcP (convertedBits + 1)

/-- The loop over the bytes of the destination. -/
def convertBits (direction : Int) :
    Nat → List UInt8 → List UInt8 → Int → Nat → Option (List UInt8 × Int)
  | 0, _, dst, _, convertedBits => some (dst, convertedBits)
  | _ + 1, [], _, _, _ => none
  | dstMaxLen + 1, c :: srcP, dst, ptr, convertedBits =>
      if c = 0 then some (dst, convertedBits)
      else do
        match ← takeByte 8 0x80 0 (c :: srcP) convertedBits with
        | none => some (dst, -1)
        | some (data, srcP, convertedBits) =>
            let dst ← store dst ptr data
            convertBits direction dstMaxLen srcP dst (ptr + direction) convertedBits

/-- The destination afterwards, and the returned value. -/
def asciiBinaryToBuffer (dstBinary srcP : Option (List UInt8)) (dstMaxLen : Nat) (reverse : Bool) :
    Option (Option (List UInt8) × Int) :=
  match dstBinary, srcP with
  | some dst, some src =>
      if dstMaxLen = 0 then some (some dst, -1)
      else if (0 : UInt8) ∈ src then
        let inputCharLen := strlen src
        let inputBinLen := (inputCharLen + 7) / 8
        let dstMaxLen := if inputBinLen > dstMaxLen then dstMaxLen else inputBinLen
        let ptr := if reverse then (dstMaxLen : Int) - 1 else 0
        let direction := if reverse then -1 else 1
        (convertBits direction dstMaxLen src dst ptr 0).map fun result => (some result.1, result.2)
      else none
  | dst, _ => some (dst, -1)

end Decoder

section Bytes

/-- The bits that characters stand for. -/
def bitsOf (chars : List UInt8) : List Nat :=
  chars.map fun c => if c = 49 then 1 else 0

/-- The byte of up to eight characters, the most significant bit first and missing bits zero. -/
def byteOf (chars : List UInt8) : UInt8 :=
  UInt8.ofNat (value 2 (bitsOf chars ++ List.replicate (8 - chars.length) 0))

theorem value_bitsOf_append_zeros (chars : List UInt8) (k : Nat) :
    value 2 (bitsOf chars ++ List.replicate k 0) = value 2 (bitsOf chars) * 2 ^ k := by
  have hzero : value 2 (List.replicate k 0) = 0 := by
    rw [value, List.reverse_replicate, Nat.ofDigits_replicate_zero]
  rw [value_append, hzero, List.length_replicate, Nat.add_zero]

theorem value_bitsOf_cons (c : UInt8) (chars : List UInt8) :
    value 2 (bitsOf (c :: chars)) =
      (if c = 49 then 1 else 0) * 2 ^ chars.length + value 2 (bitsOf chars) := by
  rw [bitsOf, List.map_cons, ← List.singleton_append, value_append, value_singleton,
    List.length_map]
  rfl

theorem toNat_or_mask {i : Nat} {mask data : UInt8} (hmask : mask.toNat = 2 ^ i)
    (hdata : data.toNat % 2 ^ (i + 1) = 0) :
    (data ||| mask).toNat = data.toNat + 2 ^ i := by
  have hsplit : 2 ^ (i + 1) * (data.toNat / 2 ^ (i + 1)) = data.toNat := by
    rw [Nat.mul_div_cancel' (Nat.dvd_of_mod_eq_zero hdata)]
  have hor := Nat.two_pow_add_eq_or_of_lt (Nat.pow_lt_pow_right (by decide) (Nat.lt_succ_self i))
    (data.toNat / 2 ^ (i + 1))
  rw [hsplit] at hor
  rw [UInt8.toNat_or, hmask, hor]

/-- The walk over a byte takes the next characters into the bits that are still free. -/
theorem takeByte_spec {s : List UInt8} (hbits : ∀ c ∈ s, c = 48 ∨ c = 49) (junk : List UInt8)
    {i : Nat} {mask data : UInt8} (hmask : i = 0 ∨ mask.toNat = 2 ^ (i - 1))
    (hdata : data.toNat % 2 ^ i = 0) (n : Nat) :
    ∃ data', takeByte i mask data (s ++ 0 :: junk) n =
        some (some (data', s.drop i ++ 0 :: junk, n + min s.length i)) ∧
      data'.toNat = data.toNat + value 2 (bitsOf (s.take i)) * 2 ^ (i - s.length) := by
  have hnil : value 2 (bitsOf []) = 0 := rfl
  induction i generalizing s mask data n with
  | zero =>
      refine ⟨data, ?_, ?_⟩
      · rw [takeByte, Nat.min_zero, List.drop_zero, Nat.add_zero]
      · rw [List.take_zero, hnil, Nat.zero_mul, Nat.add_zero]
  | succ i ih =>
      have hmask' : mask.toNat = 2 ^ i := hmask.resolve_left (Nat.succ_ne_zero i)
      have hhalf : i = 0 ∨ (mask >>> 1).toNat = 2 ^ (i - 1) := by
        rcases i with _ | i
        · exact .inl rfl
        · right
          have hshift : (mask >>> 1).toNat = mask.toNat >>> 1 := rfl
          rw [hshift, hmask', Nat.shiftRight_eq_div_pow, Nat.pow_succ,
            Nat.mul_div_cancel _ (by decide)]
          rfl
      have hmod : data.toNat % 2 ^ i = 0 :=
        Nat.mod_eq_zero_of_dvd (Nat.dvd_trans (Nat.pow_dvd_pow 2 (Nat.le_succ i))
          (Nat.dvd_of_mod_eq_zero hdata))
      cases s with
      | nil =>
          refine ⟨data, rfl, ?_⟩
          rw [List.take_nil, hnil, Nat.zero_mul, Nat.add_zero]
      | cons c s =>
          rw [List.forall_mem_cons] at hbits
          rw [List.cons_append, takeByte, List.length_cons, List.drop_succ_cons,
            List.take_succ_cons, value_bitsOf_cons, List.length_take]
          have hlength : n + min (s.length + 1) (i + 1) = n + 1 + min s.length i := by omega
          have hpow : 2 ^ min i s.length * 2 ^ (i - s.length) = 2 ^ i := by
            rw [← Nat.pow_add]
            congr 1
            omega
          rw [hlength, Nat.add_sub_add_right]
          rcases hbits.1 with rfl | rfl
          · obtain ⟨data', htake, hvalue⟩ := ih hbits.2 hhalf hmod (n + 1)
            refine ⟨data', htake, ?_⟩
            rw [hvalue, if_neg (by decide), Nat.zero_mul, Nat.zero_add]
          · have hor := toNat_or_mask hmask' hdata
            obtain ⟨data', htake, hvalue⟩ := ih hbits.2 hhalf
              (by rw [hor, Nat.add_mod_right, hmod]) (n + 1)
            refine ⟨data', htake, ?_⟩
            rw [hvalue, hor, if_pos rfl, Nat.one_mul, Nat.add_mul, hpow, Nat.add_assoc]

theorem takeByte_eq {s : List UInt8} (hbits : ∀ c ∈ s, c = 48 ∨ c = 49) (junk : List UInt8)
    (n : Nat) :
    takeByte 8 0x80 0 (s ++ 0 :: junk) n =
      some (some (byteOf (s.take 8), s.drop 8 ++ 0 :: junk, n + min s.length 8)) := by
  obtain ⟨data, htake, hdata⟩ := takeByte_spec hbits junk
    (show 8 = 0 ∨ (0x80 : UInt8).toNat = 2 ^ (8 - 1) from .inr rfl)
    (show (0 : UInt8).toNat % 2 ^ 8 = 0 from rfl) n
  have hbyte : byteOf (s.take 8) = data := by
    have hmissing : 8 - min 8 s.length = 8 - s.length := by omega
    rw [UInt8.toNat_zero, Nat.zero_add] at hdata
    rw [byteOf, value_bitsOf_append_zeros, List.length_take, hmissing, ← hdata, UInt8.ofNat_toNat]
  rw [hbyte]
  exact htake

end Bytes

section Walk

variable {direction : Int}

theorem walk_zero (ptr direction : Int) : ptr + direction * (0 : Nat) = ptr := by
  rw [Int.natCast_zero, Int.mul_zero, Int.add_zero]

theorem walk_succ (ptr direction : Int) (j : Nat) :
    ptr + direction * (j + 1 : Nat) = ptr + direction + direction * j := by
  rw [Int.natCast_succ, Int.mul_add, Int.mul_one, Int.add_comm (direction * j), Int.add_assoc]

theorem store_eq {cells : List UInt8} {ptr : Int} (hptr : 0 ≤ ptr) (hlt : ptr < cells.length)
    (c : UInt8) :
    ∃ cells', store cells ptr c = some cells' ∧ cells'.length = cells.length ∧
      readAt cells' ptr = some c ∧ ∀ i, i ≠ ptr → readAt cells' i = readAt cells i := by
  obtain ⟨p, rfl⟩ := Int.eq_ofNat_of_zero_le hptr
  have hp : p < cells.length := Int.ofNat_lt.1 hlt
  refine ⟨cells.set p c, ?_, List.length_set, ?_, ?_⟩
  · rw [store_natCast, poke, if_pos hp]
  · rw [readAt, if_neg (Int.not_lt.2 hptr), Int.toNat_natCast, List.getElem?_set_self hp]
  · intro i hi
    rw [readAt, readAt]
    split_ifs with hneg
    · rfl
    · exact List.getElem?_set_ne (by omega)

/-- The bytes of a string stand where the walk passes, and nothing else is written. -/
theorem convertBits_spec (hdirection : direction = 1 ∨ direction = -1) {n : Nat} {s : List UInt8}
    (hbits : ∀ c ∈ s, c = 48 ∨ c = 49) (junk : List UInt8) (hn : n ≤ (s.length + 7) / 8)
    {dst : List UInt8} {ptr : Int}
    (hrange : ∀ j : Nat, j < n → 0 ≤ ptr + direction * j ∧ ptr + direction * j < dst.length)
    (bits : Nat) :
    ∃ dst', convertBits direction n (s ++ 0 :: junk) dst ptr bits =
        some (dst', ((bits + min s.length (8 * n) : Nat) : Int)) ∧
      dst'.length = dst.length ∧
      (∀ j : Nat, j < n →
        readAt dst' (ptr + direction * j) = some (byteOf ((s.drop (8 * j)).take 8))) ∧
      ∀ i, (∀ j : Nat, j < n → i ≠ ptr + direction * j) → readAt dst' i = readAt dst i := by
  induction n generalizing s dst ptr bits with
  | zero =>
      refine ⟨dst, ?_, rfl, fun j hj => absurd hj (Nat.not_lt_zero j), fun i _ => rfl⟩
      rw [convertBits, Nat.mul_zero, Nat.min_zero, Nat.add_zero]
  | succ n ih =>
      have hstart := hrange 0 (Nat.succ_pos n)
      rw [walk_zero] at hstart
      have hdrop : n ≤ ((s.drop 8).length + 7) / 8 := by
        rw [List.length_drop]
        omega
      obtain ⟨dst₁, hstore, hlength₁, hread₁, hframe₁⟩ :=
        store_eq hstart.1 hstart.2 (byteOf (s.take 8))
      have hrange₁ : ∀ j : Nat, j < n → 0 ≤ ptr + direction + direction * j ∧
          ptr + direction + direction * j < dst₁.length := by
        intro j hj
        rw [← walk_succ, hlength₁]
        exact hrange (j + 1) (Nat.succ_lt_succ hj)
      obtain ⟨dst', hconvert, hlength, hread, hframe⟩ :=
        ih (fun c hc => hbits c (List.mem_of_mem_drop hc)) hdrop hrange₁ (bits + min s.length 8)
      refine ⟨dst', ?_, hlength.trans hlength₁, ?_, ?_⟩
      · have htake := takeByte_eq hbits junk bits
        have hcount : bits + min s.length 8 + min (s.drop 8).length (8 * n) =
            bits + min s.length (8 * (n + 1)) := by
          rw [List.length_drop]
          omega
        rw [hcount] at hconvert
        cases s with
        | nil =>
            rw [List.length_nil] at hn
            omega
        | cons c rest =>
            have hc : c ≠ 0 := by
              rcases hbits c List.mem_cons_self with rfl | rfl <;> decide
            rw [List.cons_append] at htake ⊢
            rw [convertBits, if_neg hc, htake]
            simp only [Option.bind_eq_bind, Option.bind_some, hstore]
            exact hconvert
      · intro j hj
        rcases j with _ | j
        · rw [walk_zero, Nat.mul_zero, List.drop_zero, ← hread₁]
          refine hframe ptr fun j hj => ?_
          rcases hdirection with rfl | rfl <;> omega
        · have hbyte := hread j (Nat.lt_of_succ_lt_succ hj)
          rw [← walk_succ, List.drop_drop, show 8 + 8 * j = 8 * (j + 1) by omega] at hbyte
          exact hbyte
      · intro i hi
        have hptr := hi 0 (Nat.succ_pos n)
        rw [walk_zero] at hptr
        rw [hframe i fun j hj => ?_, hframe₁ i hptr]
        rw [← walk_succ]
        exact hi (j + 1) (Nat.succ_lt_succ hj)

end Walk

section Conversion

/-- Where the byte `j` of `n` is stored. -/
def position (reverse : Bool) (n j : Nat) : Nat :=
  if reverse then n - 1 - j else j

/-- The bytes that a string of `len` bits fills in a destination of `dstMaxLen`. -/
def filled (len dstMaxLen : Nat) : Nat :=
  min ((len + 7) / 8) dstMaxLen

/-- How many bits are converted; a destination of no size is refused. -/
def convertedBits (len dstMaxLen : Nat) : Int :=
  if dstMaxLen = 0 then -1 else ((min len (8 * dstMaxLen) : Nat) : Int)

theorem readAt_natCast (cells : List UInt8) (i : Nat) : readAt cells i = cells[i]? := by
  rw [readAt, if_neg (Int.not_lt.2 (Int.natCast_nonneg i)), Int.toNat_natCast]

theorem position_lt (reverse : Bool) {n j : Nat} (hj : j < n) : position reverse n j < n := by
  rw [position]
  split_ifs <;> omega

theorem walk_eq (reverse : Bool) {n j : Nat} (hj : j < n) :
    (if reverse then (n : Int) - 1 else 0) + (if reverse then -1 else 1) * j =
      (position reverse n j : Int) := by
  rw [position]
  cases reverse with
  | false => simp
  | true =>
      simp only [if_true]
      omega

theorem asciiBinaryToBuffer_spec {s : List UInt8} (hbits : ∀ c ∈ s, c = 48 ∨ c = 49)
    (junk : List UInt8) {dst : List UInt8} {dstMaxLen : Nat} (hdst : dstMaxLen ≤ dst.length)
    (reverse : Bool) :
    ∃ dst', asciiBinaryToBuffer (some dst) (some (s ++ 0 :: junk)) dstMaxLen reverse =
        some (some dst', convertedBits s.length dstMaxLen) ∧
      dst'.length = dst.length ∧
      (∀ j, j < filled s.length dstMaxLen →
        dst'[position reverse (filled s.length dstMaxLen) j]? =
          some (byteOf ((s.drop (8 * j)).take 8))) ∧
      ∀ i, filled s.length dstMaxLen ≤ i → dst'[i]? = dst[i]? := by
  rcases Nat.eq_zero_or_pos dstMaxLen with rfl | hpos
  · refine ⟨dst, rfl, rfl, ?_, fun i _ => rfl⟩
    intro j hj
    rw [filled, Nat.min_zero] at hj
    exact absurd hj (Nat.not_lt_zero j)
  · have hholds : Holds (s ++ 0 :: junk) s := holds_append fun hmem => by
      rcases hbits 0 hmem with h | h <;> cases h
    generalize hk : filled s.length dstMaxLen = k
    have hclip : (if (s.length + 7) / 8 > dstMaxLen then dstMaxLen
        else (s.length + 7) / 8) = k := by
      rw [← hk, filled]
      split_ifs <;> omega
    have hk₁ : k ≤ (s.length + 7) / 8 ∧ k ≤ dstMaxLen := by
      rw [← hk]
      exact ⟨Nat.min_le_left _ _, Nat.min_le_right _ _⟩
    have hdirection : (if reverse then (-1 : Int) else 1) = 1 ∨
        (if reverse then (-1 : Int) else 1) = -1 := by
      cases reverse with
      | false => exact .inl rfl
      | true => exact .inr rfl
    have hrange : ∀ j : Nat, j < k →
        0 ≤ (if reverse then (k : Int) - 1 else 0) + (if reverse then -1 else 1) * j ∧
          (if reverse then (k : Int) - 1 else 0) + (if reverse then -1 else 1) * j <
            dst.length := by
      intro j hj
      have hj' := position_lt reverse hj
      rw [walk_eq reverse hj]
      omega
    obtain ⟨dst', hconvert, hlength, hread, hframe⟩ :=
      convertBits_spec hdirection hbits junk hk₁.1 hrange 0
    have hcount : 0 + min s.length (8 * k) = min s.length (8 * dstMaxLen) := by
      rw [← hk, filled]
      omega
    refine ⟨dst', ?_, hlength, ?_, ?_⟩
    · rw [hcount] at hconvert
      rw [asciiBinaryToBuffer, if_neg (Nat.pos_iff_ne_zero.1 hpos), if_pos hholds.mem,
        convertedBits, if_neg (Nat.pos_iff_ne_zero.1 hpos)]
      simp only [hholds.strlen_eq, hclip]
      rw [hconvert]
      rfl
    · intro j hj
      rw [← readAt_natCast, ← walk_eq reverse hj]
      exact hread j hj
    · intro i hi
      rw [← readAt_natCast, ← readAt_natCast]
      refine hframe i fun j hj => ?_
      have hj' := position_lt reverse hj
      rw [walk_eq reverse hj]
      omega

end Conversion

section Inverse

def rep (n : Nat) : List UInt8 :=
  (bitRep.getD n (literal "")).chars

def byteChars (b : UInt8) : List UInt8 :=
  rep (b.toNat / 16) ++ rep (b.toNat % 16)

/-- The characters of a nibble, from its bits. -/
theorem rep_eq_bits : ∀ n : Fin 16, rep n =
    (List.range 4).map fun i => if n.val.testBit (3 - i) then 49 else 48 := by
  decide

theorem rep_table (n : Fin 16) : bitRep[n.val]? = some (bitRep.getD n (literal "")) ∧
    (rep n).length = 4 ∧ ∀ c ∈ rep n, c = 48 ∨ c = 49 := by
  have hlt : n.val < bitRep.length := n.isLt
  rw [List.getD_eq_getElem?_getD, List.getElem?_eq_getElem hlt, Option.getD_some, rep_eq_bits]
  refine ⟨rfl, rfl, fun c hc => ?_⟩
  obtain ⟨i, -, rfl⟩ := List.mem_map.mp hc
  split_ifs
  · exact .inr rfl
  · exact .inl rfl

theorem value_rep (n : Fin 16) : value 2 (bitsOf (rep n)) = n := by
  have hbits : bitsOf (rep n) =
      (List.range 4).map fun i => if n.val.testBit (3 - i) then 1 else 0 := by
    rw [rep_eq_bits, bitsOf, List.map_map]
    apply List.map_congr_left
    intro i _
    simp only [Function.comp_apply]
    cases n.val.testBit (3 - i)
    · rfl
    · rfl
  have hvalue : ∀ n : Fin 16,
      value 2 ((List.range 4).map fun i => if n.val.testBit (3 - i) then 1 else 0) = n := by
    decide
  rw [hbits, hvalue]

theorem byteOf_table (h l : Fin 16) : byteOf (rep h ++ rep l) = UInt8.ofNat (h * 16 + l) := by
  have hlow : (bitsOf (rep l)).length = 4 := by
    rw [bitsOf, List.length_map, (rep_table l).2.1]
  have hlength : 8 - (rep h ++ rep l).length = 0 := by
    rw [List.length_append, (rep_table h).2.1, (rep_table l).2.1]
  rw [byteOf, hlength, List.replicate_zero, List.append_nil, bitsOf, List.map_append, ← bitsOf,
    ← bitsOf, value_append, value_rep, value_rep, hlow]
  rfl

theorem byteOf_byteChars (b : UInt8) : byteOf (byteChars b) = b := by
  have hlt := b.toNat_lt
  have htable := byteOf_table ⟨b.toNat / 16, by omega⟩ ⟨b.toNat % 16, by omega⟩
  rwa [Nat.div_add_mod', UInt8.ofNat_toNat] at htable

theorem length_byteChars (b : UInt8) : (byteChars b).length = 8 := by
  have hlt := b.toNat_lt
  rw [byteChars, List.length_append, (rep_table ⟨b.toNat / 16, by omega⟩).2.1,
    (rep_table ⟨b.toNat % 16, by omega⟩).2.1]

theorem bits_of_mem_byteChars {b c : UInt8} (h : c ∈ byteChars b) : c = 48 ∨ c = 49 := by
  have hlt := b.toNat_lt
  rcases List.mem_append.1 h with h | h
  · exact (rep_table ⟨b.toNat / 16, by omega⟩).2.2 c h
  · exact (rep_table ⟨b.toNat % 16, by omega⟩).2.2 c h

theorem appendBits_spec {data : List UInt8} {direction ptr : Int} {maxlen : Nat} {t : List UInt8}
    {s : FString} (h : Holding maxlen t s) (bytes : List UInt8)
    (hread : ∀ j : Nat, j < bytes.length → readAt data (ptr + direction * j) = bytes[j]?)
    (hroom : t.length + 8 * bytes.length ≤ maxlen) :
    ∃ s', appendBits data direction bytes.length ptr s = some s' ∧
      Holding maxlen (t ++ bytes.flatMap byteChars) s' := by
  induction bytes generalizing ptr t s with
  | nil =>
      rw [List.flatMap_nil, List.append_nil]
      exact ⟨s, rfl, h⟩
  | cons b bytes ih =>
      have hlt := b.toNat_lt
      obtain ⟨hhi, hhilen, -⟩ := rep_table ⟨b.toNat / 16, by omega⟩
      obtain ⟨hlo, hlolen, -⟩ := rep_table ⟨b.toNat % 16, by omega⟩
      have hhead := hread 0 (Nat.succ_pos _)
      rw [walk_zero, List.getElem?_cons_zero] at hhead
      rw [List.length_cons] at hroom
      obtain ⟨s₁, hfirst, h₁⟩ := appendString_holding h
        (bitRep.getD (b.toNat / 16) (literal "")) (by rw [← rep, hhilen]; omega)
      obtain ⟨s₂, hsecond, h₂⟩ := appendString_holding h₁
        (bitRep.getD (b.toNat % 16) (literal "")) (by
          rw [← rep, ← rep, List.length_append, hhilen, hlolen]
          omega)
      rw [← rep, ← rep, List.append_assoc, ← byteChars] at h₂
      have hread' : ∀ j : Nat, j < bytes.length →
          readAt data (ptr + direction + direction * j) = bytes[j]? := by
        intro j hj
        have hnext := hread (j + 1) (Nat.succ_lt_succ hj)
        rw [List.getElem?_cons_succ, walk_succ] at hnext
        exact hnext
      obtain ⟨s₃, hrest, h₃⟩ := ih h₂ hread' (by rw [List.length_append, length_byteChars]; omega)
      refine ⟨s₃, ?_, ?_⟩
      · rw [List.length_cons, appendBits, hhead]
        simp only [Option.bind_eq_bind, Option.bind_some, toNat_shiftRight, toNat_and]
        simp only [hhi, hlo, hfirst, hsecond, Option.bind_some]
        exact hrest
      · rw [List.append_assoc] at h₃
        exact h₃

/-- The bytes in the order of the text. -/
def ordered (reverse : Bool) (data : List UInt8) : List UInt8 :=
  if reverse then data.reverse else data

theorem length_ordered (reverse : Bool) (data : List UInt8) :
    (ordered reverse data).length = data.length := by
  rw [ordered]
  split_ifs
  · exact List.length_reverse
  · rfl

theorem getElem?_ordered (reverse : Bool) (data : List UInt8) {j : Nat} (hj : j < data.length) :
    (ordered reverse data)[j]? = data[position reverse data.length j]? := by
  rw [ordered, position]
  split_ifs
  · exact List.getElem?_reverse hj
  · rfl

theorem position_position (reverse : Bool) {n j : Nat} (hj : j < n) :
    position reverse n (position reverse n j) = j := by
  rw [position, position]
  split_ifs
  · omega
  · rfl

/-- The bytes of the text go back to where they came from. -/
theorem eq_append_of_ordered {reverse : Bool} {data dst dst' : List UInt8}
    (hbytes : ∀ j, j < data.length →
      dst'[position reverse data.length j]? = (ordered reverse data)[j]?)
    (hframe : ∀ i, data.length ≤ i → dst'[i]? = dst[i]?) : dst' = data ++ dst.drop data.length := by
  apply List.ext_getElem?
  intro i
  rcases Nat.lt_or_ge i data.length with hi | hi
  · have hj := position_lt reverse hi
    have hbyte := hbytes _ hj
    rw [getElem?_ordered reverse data hj, position_position reverse hi] at hbyte
    rw [hbyte, List.getElem?_append_left hi]
  · rw [hframe i hi, List.getElem?_append_right hi, List.getElem?_drop, Nat.add_sub_cancel' hi]

theorem byteOf_ordered {reverse : Bool} {data : List UInt8} {j : Nat} (hj : j < data.length) :
    some (byteOf ((((ordered reverse data).flatMap byteChars).drop (8 * j)).take 8)) =
      (ordered reverse data)[j]? := by
  rw [← length_ordered reverse data] at hj
  rw [List.getElem?_eq_getElem hj,
    take_drop_flatMap length_byteChars (List.getElem?_eq_getElem hj), byteOf_byteChars]

theorem bufferToAsciiBinary_spec {data : List UInt8} (hdata : data ≠ []) {destString : FString}
    {t : List UInt8} (hvalid : destString.Valid t)
    (hroom : 8 * data.length ≤ destString.internalMaxlen) (reverse : Bool) :
    ∃ destString', bufferToAsciiBinary (some data) data.length destString false reverse =
        some (destString', true) ∧
      Holding destString.internalMaxlen ((ordered reverse data).flatMap byteChars) destString' := by
  have hpos := List.length_pos_of_ne_nil hdata
  have hlength := length_ordered reverse data
  have hread : ∀ j : Nat, j < (ordered reverse data).length →
      readAt data ((if reverse then (data.length : Int) - 1 else 0) +
        (if reverse then -1 else 1) * j) = (ordered reverse data)[j]? := by
    intro j hj
    rw [hlength] at hj
    rw [walk_eq reverse hj, readAt_natCast, getElem?_ordered reverse data hj]
  obtain ⟨s, hclear, hempty⟩ := clear_holding hvalid
  obtain ⟨s', hbits, hholding⟩ := appendBits_spec hempty (ordered reverse data) hread
    (by rw [List.length_nil, Nat.zero_add, hlength]; exact hroom)
  rw [List.nil_append] at hholding
  refine ⟨s', ?_, hholding⟩
  rw [bufferToAsciiBinary, if_neg (by omega), if_neg (by omega)]
  simp only [Bool.false_eq_true, if_false, hclear, Int.toNat_natCast, Option.bind_eq_bind,
    Option.bind_some]
  rw [hlength] at hbits
  rw [hbits, Option.bind_some, hholding.whole]
  rfl

/-- What is encoded in either order is decoded again in the same order. -/
theorem asciiBinaryToBuffer_bufferToAsciiBinary {data : List UInt8} (hdata : data ≠ [])
    {destString : FString} {t : List UInt8} (hvalid : destString.Valid t)
    (hroom : 8 * data.length ≤ destString.internalMaxlen) {dst : List UInt8} {dstMaxLen : Nat}
    (hfits : data.length ≤ dstMaxLen) (hdst : dstMaxLen ≤ dst.length) (reverse : Bool) :
    ∃ destString', bufferToAsciiBinary (some data) data.length destString false reverse =
        some (destString', true) ∧
      asciiBinaryToBuffer (some dst) (some destString'.strPtr) dstMaxLen reverse =
        some (some (data ++ dst.drop data.length), 8 * (data.length : Int)) := by
  have hpos := List.length_pos_of_ne_nil hdata
  obtain ⟨destString', hencode, hholding⟩ := bufferToAsciiBinary_spec hdata hvalid hroom reverse
  obtain ⟨junk, hcells⟩ := hholding.valid.holds.split
  have hbits : ∀ c ∈ (ordered reverse data).flatMap byteChars, c = 48 ∨ c = 49 := by
    intro c hc
    obtain ⟨b, -, hb⟩ := List.mem_flatMap.1 hc
    exact bits_of_mem_byteChars hb
  have hlength : ((ordered reverse data).flatMap byteChars).length = 8 * data.length := by
    rw [← length_ordered reverse data]
    exact length_flatMap length_byteChars _
  have hfilled : filled (8 * data.length) dstMaxLen = data.length := by
    rw [filled]
    omega
  obtain ⟨dst', hdecode, hsize, hbytes, hframe⟩ := asciiBinaryToBuffer_spec hbits junk hdst reverse
  rw [hlength, hfilled] at hbytes hframe
  have hresult : dst' = data ++ dst.drop data.length :=
    eq_append_of_ordered (fun j hj => (hbytes j hj).trans (byteOf_ordered hj)) hframe
  have hconverted : convertedBits (8 * data.length) dstMaxLen = 8 * (data.length : Int) := by
    rw [convertedBits, if_neg (by omega)]
    omega
  refine ⟨destString', hencode, ?_⟩
  rw [hcells, hdecode, hresult, hlength, hconverted]

end Inverse

/-- Encoded bytes are decoded again. Any string of bits fills the first bytes of the destination in
the order asked for, as far as it and they go, and nothing else is written. -/
theorem asciiBinary_codec (dst : List UInt8) (dstMaxLen : Nat) (hdst : dstMaxLen ≤ dst.length)
    (reverse : Bool) :
    (∀ (data : List UInt8) (destString : FString) (t : List UInt8), data ≠ [] →
      destString.Valid t → 8 * data.length ≤ destString.internalMaxlen →
      data.length ≤ dstMaxLen →
        ∃ destString', bufferToAsciiBinary (some data) data.length destString false reverse =
            some (destString', true) ∧
          asciiBinaryToBuffer (some dst) (some destString'.strPtr) dstMaxLen reverse =
            some (some (data ++ dst.drop data.length), 8 * (data.length : Int))) ∧
    ∀ s junk : List UInt8, (∀ c ∈ s, c = 48 ∨ c = 49) →
      ∃ dst', asciiBinaryToBuffer (some dst) (some (s ++ 0 :: junk)) dstMaxLen reverse =
          some (some dst', convertedBits s.length dstMaxLen) ∧
        dst'.length = dst.length ∧
        (∀ j, j < filled s.length dstMaxLen →
          dst'[position reverse (filled s.length dstMaxLen) j]? =
            some (byteOf ((s.drop (8 * j)).take 8))) ∧
        ∀ i, filled s.length dstMaxLen ≤ i → dst'[i]? = dst[i]? :=
  ⟨fun _ _ _ hdata hvalid hroom hfits =>
    asciiBinaryToBuffer_bufferToAsciiBinary hdata hvalid hroom hfits hdst reverse,
    fun _ junk hbits => asciiBinaryToBuffer_spec hbits junk hdst reverse⟩

/-- Ten bits from the right into two of three bytes. -/
theorem asciiBinary_codec_ten :
    ∃ dst', asciiBinaryToBuffer (some [1, 2, 3])
        (some [49, 48, 49, 48, 48, 48, 48, 49, 49, 49, 0]) 2 true = some (some dst', 10) ∧
      dst'[1]? = some 0xa1 ∧ dst'[0]? = some 0xc0 ∧ dst'[2]? = some 3 := by
  obtain ⟨dst', hcall, -, hbytes, hframe⟩ := (asciiBinary_codec [1, 2, 3] 2 (by decide) true).2
    [49, 48, 49, 48, 48, 48, 48, 49, 49, 49] [] (by simp)
  exact ⟨dst', hcall, hbytes 0 (by decide), hbytes 1 (by decide), hframe 2 (by decide)⟩

end ColonyPico.Text.AsciiBinary
