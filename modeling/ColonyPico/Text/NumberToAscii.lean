import ColonyPico.Foundations.PositionalDigits
import ColonyPico.Foundations.TerminatedText
import Mathlib.Algebra.Group.Nat.Defs

/-!
Numbers as text (`Cpl::Text::longToStr`, `ulongToStr`, `sizetToStr`). The text is built from its
end, towards the front of the buffer; a result of `none` is a write outside the buffer, or signed
overflow.
-/

namespace ColonyPico.Text.NumberToAscii

open Foundations.PositionalDigits Foundations.TerminatedText

/-- The character of a digit. -/
def digitChar (remainder : Nat) : UInt8 :=
  if remainder ≤ 9 then UInt8.ofNat (remainder + 48) else UInt8.ofNat (remainder - 10 + 65)

/-- `dstString[--maxChars] = c`, where a `size_t` has `ws` bits. -/
def putInFront (ws : Nat) (c : UInt8) (state : List UInt8 × Nat) : Option (List UInt8 × Nat) :=
  let maxChars := (state.2 + (2 ^ ws - 1)) % 2 ^ ws
  (poke state.1 maxChars c).map fun dstString => (dstString, maxChars)

/-- The loop over the digits, with the least significant one first. -/
def convertDigits (base sign : Nat) (num : Nat) (dstString : List UInt8) :
    Nat → Option (List UInt8 × Nat)
  | 0 => some (dstString, 0)
  | maxChars + 1 =>
      if num ≠ 0 ∧ maxChars + 1 > sign then do
        let dstString ← poke dstString maxChars (digitChar (num % base))
        convertDigits base sign (num / base) dstString maxChars
      else some (dstString, maxChars + 1)

/-- The position of the returned pointer in the buffer, `none` for a null pointer, and what the
buffer then holds. -/
def convert_ (ws num : Nat) (dstString : List UInt8) (maxChars base : Nat) (padChar : UInt8)
    (isNegative : Bool) : Option (Option Nat × List UInt8) :=
  if base < 2 ∨ base > 36 then some (none, dstString)
  else do
    let sign := if isNegative then 1 else 0
    let state ← putInFront ws 0 (dstString, maxChars)
    let state ← (if num = 0 then putInFront ws 48 state
      else convertDigits base sign num state.1 state.2 : Option (List UInt8 × Nat))
    let state ← (if isNegative then putInFront ws 45 state else some state : Option _)
    let dstString ← (if state.2 > 0 then write state.1 0 (List.replicate state.2 padChar)
      else some state.1 : Option _)
    some (some state.2, dstString)

/-- The sizes of the integer types; a `long` is not wider than a `size_t`. -/
structure Platform where
  long : Nat
  sizet : Nat
  long_pos : 0 < long
  long_le_sizet : long ≤ sizet

variable (p : Platform)

/-- `LONG_MIN` has no negative. -/
def longToStr (num : BitVec p.long) (dstString : List UInt8) (maxChars base : Nat)
    (padChar : UInt8) : Option (Option Nat × List UInt8) :=
  if num.toInt < 0 then
    if num = BitVec.intMin p.long then none
    else convert_ p.sizet ((-num.toInt).toNat % 2 ^ p.sizet) dstString maxChars base padChar true
  else convert_ p.sizet (num.toInt.toNat % 2 ^ p.sizet) dstString maxChars base padChar false

def ulongToStr (num : BitVec p.long) (dstString : List UInt8) (maxChars base : Nat)
    (padChar : UInt8) : Option (Option Nat × List UInt8) :=
  convert_ p.sizet (num.toNat % 2 ^ p.sizet) dstString maxChars base padChar false

def sizetToStr (num : BitVec p.sizet) (dstString : List UInt8) (maxChars base : Nat)
    (padChar : UInt8) : Option (Option Nat × List UInt8) :=
  convert_ p.sizet num.toNat dstString maxChars base padChar false

section Representation

/-- The digits of a number, with the most significant one in front; zero has one digit. -/
def numeral (base num : Nat) : List UInt8 :=
  (padded base 1 num).map digitChar

def minus (num : Int) : List UInt8 :=
  if num < 0 then [45] else []

/-- What stays of the text of a number when there is room for some characters only: the minus sign
as long as there is room at all, and the least significant digits. -/
def fitted (base room : Nat) (num : Int) : List UInt8 :=
  (minus num).take room ++ (numeral base num.natAbs).rtake (room - (minus num).length)

/-- The buffer is the text and its terminator behind the pad characters, and the pointer is at the
text. -/
def RightJustified (outcome : Option (Option Nat × List UInt8)) (maxChars : Nat) (padChar : UInt8)
    (text : List UInt8) : Prop :=
  text.length < maxChars ∧
    outcome = some (some (maxChars - 1 - text.length),
      List.replicate (maxChars - 1 - text.length) padChar ++ (text ++ [0]))

theorem numeral_zero (base : Nat) : numeral base 0 = [48] := by
  rw [numeral, padded, Nat.digitsAppend, Nat.digits_zero]
  rfl

theorem numeral_of_ne_zero (base : Nat) {num : Nat} (hnum : num ≠ 0) :
    numeral base num = ((Nat.digits base num).map digitChar).reverse := by
  have hne : Nat.digits base num ≠ [] := Nat.digits_ne_nil_iff_ne_zero.2 hnum
  have hlength := List.length_pos_iff.2 hne
  rw [numeral, padded, Nat.digitsAppend, Nat.sub_eq_zero_of_le hlength, List.replicate_zero,
    List.append_nil, List.map_reverse]

end Representation

section Digits

/-- The least significant digits of a number, without the one digit of zero. -/
def lastDigits (base room num : Nat) : List UInt8 :=
  (((Nat.digits base num).map digitChar).take room).reverse

theorem rtake_numeral (base room : Nat) {num : Nat} (hnum : num ≠ 0) :
    (numeral base num).rtake room = lastDigits base room num := by
  rw [numeral_of_ne_zero base hnum, List.rtake_eq_reverse_take_reverse, List.reverse_reverse]
  rfl

theorem lastDigits_zero (base room : Nat) : lastDigits base room 0 = [] := by
  rw [lastDigits, Nat.digits_zero, List.map_nil, List.take_nil, List.reverse_nil]

theorem lastDigits_succ {base : Nat} (hbase : 1 < base) (room : Nat) {num : Nat} (hnum : num ≠ 0) :
    lastDigits base (room + 1) num =
      lastDigits base room (num / base) ++ [digitChar (num % base)] := by
  rw [lastDigits, Nat.digits_def' hbase (Nat.pos_of_ne_zero hnum), List.map_cons,
    List.take_succ_cons, List.reverse_cons]
  rfl

theorem length_lastDigits_le (base room num : Nat) : (lastDigits base room num).length ≤ room := by
  rw [lastDigits, List.length_reverse]
  exact List.length_take_le room _

/-- The loop writes the digits that there is room for. -/
theorem convertDigits_spec {base : Nat} (hbase : 1 < base) (sign num : Nat)
    (front back : List UInt8) {maxChars : Nat} (hfront : front.length = maxChars) :
    ∃ front', front'.length = maxChars - (lastDigits base (maxChars - sign) num).length ∧
      convertDigits base sign num (front ++ back) maxChars =
        some (front' ++ (lastDigits base (maxChars - sign) num ++ back), front'.length) := by
  induction maxChars generalizing num front back with
  | zero =>
      obtain rfl := List.length_eq_zero_iff.1 hfront
      have hnone := List.length_eq_zero_iff.1 (Nat.le_zero.1 (length_lastDigits_le base 0 num))
      refine ⟨[], (Nat.zero_sub _).symm, ?_⟩
      rw [Nat.zero_sub, hnone]
      rfl
  | succ maxChars ih =>
      rw [convertDigits]
      split
      case isTrue h =>
        obtain rfl | ⟨front, c, rfl⟩ := List.eq_nil_or_concat' front
        · cases hfront
        · have hlength : front.length = maxChars := by
            rw [List.length_append] at hfront
            exact Nat.succ.inj hfront
          obtain ⟨front', hfront', hconvert⟩ :=
            ih (num / base) front (digitChar (num % base) :: back) hlength
          have hroom : maxChars + 1 - sign = maxChars - sign + 1 :=
            Nat.succ_sub (Nat.le_of_lt_succ h.2)
          refine ⟨front', ?_, ?_⟩
          · rw [hfront', hroom, lastDigits_succ hbase _ h.1, List.length_append,
              List.length_singleton]
            omega
          · rw [List.append_assoc, List.singleton_append, poke_append hlength]
            rw [Option.bind_eq_bind, Option.bind_some, hconvert, hroom,
              lastDigits_succ hbase _ h.1, List.append_assoc, List.singleton_append]
      case isFalse h =>
        have hnone : lastDigits base (maxChars + 1 - sign) num = [] := by
          rcases eq_or_ne num 0 with rfl | hnum
          · exact lastDigits_zero base _
          · have hroom : maxChars + 1 - sign = 0 := by omega
            rw [hroom]
            exact List.length_eq_zero_iff.1 (Nat.le_zero.1 (length_lastDigits_le base 0 num))
        refine ⟨front, ?_, ?_⟩
        · rw [hfront, hnone]
          rfl
        · rw [hnone, hfront]
          rfl

end Digits

section Building

/-- The end of a buffer of this size holds the text, and the position is in front of it. -/
def Built (state : List UInt8 × Nat) (size : Nat) (text : List UInt8) : Prop :=
  ∃ front, front.length + text.length = size ∧ state = (front ++ text, front.length)

variable {ws size : Nat} {state : List UInt8 × Nat} {text : List UInt8}

theorem built_nil (dstString : List UInt8) :
    Built (dstString, dstString.length) dstString.length [] :=
  ⟨dstString, rfl, by rw [List.append_nil]⟩

theorem Built.putInFront (h : Built state size text) (hsize : size < 2 ^ ws)
    (hroom : text.length < size) (c : UInt8) :
    ∃ state', putInFront ws c state = some state' ∧ Built state' size (c :: text) := by
  obtain ⟨front, hlength, rfl⟩ := h
  obtain rfl | ⟨front, x, rfl⟩ := List.eq_nil_or_concat' front
  · rw [List.length_nil] at hlength
    omega
  · rw [List.length_append, List.length_singleton] at hlength
    have hindex : (front.length + 1 + (2 ^ ws - 1)) % 2 ^ ws = front.length := by
      have hshift : front.length + 1 + (2 ^ ws - 1) = front.length + 2 ^ ws := by omega
      rw [hshift, Nat.add_mod_right, Nat.mod_eq_of_lt (by omega)]
    refine ⟨(front ++ c :: text, front.length), ?_, front, ?_, rfl⟩
    · simp only [NumberToAscii.putInFront, List.length_append, List.length_singleton, hindex]
      rw [List.append_assoc, List.singleton_append, poke_append rfl]
      rfl
    · rw [List.length_cons]
      omega

theorem Built.putInFront_full (h : Built state size text) (hsize : size < 2 ^ ws)
    (hroom : text.length = size) (c : UInt8) : NumberToAscii.putInFront ws c state = none := by
  obtain ⟨front, hlength, rfl⟩ := h
  obtain rfl : front = [] := List.length_eq_zero_iff.1 (by omega)
  have hindex : (0 + (2 ^ ws - 1)) % 2 ^ ws = 2 ^ ws - 1 := by
    rw [Nat.zero_add, Nat.mod_eq_of_lt (by omega)]
  simp only [NumberToAscii.putInFront, List.length_nil, hindex, List.nil_append]
  rw [poke, if_neg (by omega)]
  rfl

theorem Built.convertDigits {base : Nat} (hbase : 1 < base) (h : Built state size text)
    (sign num : Nat) :
    ∃ state', convertDigits base sign num state.1 state.2 = some state' ∧
      Built state' size (lastDigits base (size - text.length - sign) num ++ text) := by
  obtain ⟨front, hlength, rfl⟩ := h
  have hfront : front.length = size - text.length := by omega
  obtain ⟨front', hfront', hconvert⟩ := convertDigits_spec hbase sign num front text hfront
  have hle := length_lastDigits_le base (size - text.length - sign) num
  refine ⟨_, by rw [hfront]; exact hconvert, front', ?_, rfl⟩
  rw [List.length_append]
  omega

theorem Built.pad (h : Built state size text) (padChar : UInt8) :
    (if state.2 > 0 then write state.1 0 (List.replicate state.2 padChar) else some state.1) =
        some (List.replicate (size - text.length) padChar ++ text) ∧
      state.2 = size - text.length := by
  obtain ⟨front, hlength, rfl⟩ := h
  have hfront : front.length = size - text.length := by omega
  refine ⟨?_, hfront⟩
  rw [← hfront]
  split
  case isTrue hpos =>
    have hwrite := @write_append _ [] front text (List.replicate front.length padChar) 0 rfl
      List.length_replicate.symm
    rwa [List.nil_append, List.nil_append] at hwrite
  case isFalse hzero =>
    obtain rfl : front = [] := List.length_eq_zero_iff.1 (by omega)
    rfl

end Building

section Convert

variable {ws num base maxChars : Nat} {dstString : List UInt8} {isNegative : Bool}

/-- The text that the conversion leaves in front of the terminator. -/
def converted (base room num : Nat) (isNegative : Bool) : List UInt8 :=
  if isNegative then 45 :: (numeral base num).rtake (room - 1) else (numeral base num).rtake room

theorem Built.digits {size : Nat} {state : List UInt8 × Nat} {sign : Nat} (hbase : 1 < base)
    (h : Built state size [0]) (hsize : size < 2 ^ ws) (hroom : num = 0 → 2 ≤ size ∧ sign = 0) :
    ∃ state', (if num = 0 then NumberToAscii.putInFront ws 48 state
        else NumberToAscii.convertDigits base sign num state.1 state.2) = some state' ∧
      Built state' size ((numeral base num).rtake (size - 1 - sign) ++ [0]) := by
  split
  case isTrue hzero =>
    obtain ⟨hsize2, rfl⟩ := hroom hzero
    obtain ⟨k, hk⟩ := Nat.exists_eq_add_of_le hsize2
    have hone : ([48] : List UInt8).rtake (size - 1 - 0) = [48] := by
      rw [List.rtake_eq_reverse_take_reverse, hk, List.take_of_length_le (by simp)]
      rfl
    rw [hzero, numeral_zero, hone]
    exact h.putInFront hsize hsize2 48
  case isFalse hnum =>
    rw [rtake_numeral base _ hnum]
    exact h.convertDigits hbase sign num

theorem Built.sign {size : Nat} {state : List UInt8 × Nat}
    (h : Built state size
      ((numeral base num).rtake (size - 1 - if isNegative then 1 else 0) ++ [0]))
    (hsize : size < 2 ^ ws) (hroom : isNegative = true → 2 ≤ size) :
    ∃ state', (if isNegative then NumberToAscii.putInFront ws 45 state else some state) =
        some state' ∧
      Built state' size (converted base (size - 1) num isNegative ++ [0]) := by
  cases isNegative with
  | false => exact ⟨state, rfl, h⟩
  | true =>
      have hle : ((numeral base num).rtake (size - 1 - 1)).length ≤ size - 1 - 1 := by
        rw [List.rtake, List.length_drop]
        omega
      refine h.putInFront hsize ?_ 45
      rw [List.length_append, List.length_singleton]
      have htwo := hroom rfl
      simp only [if_true]
      omega

theorem convert_spec (hbase : 2 ≤ base ∧ base ≤ 36) (hlength : dstString.length = maxChars)
    (hsize : maxChars < 2 ^ ws) (hpos : 1 ≤ maxChars) (hsign : isNegative = true → num ≠ 0)
    (hroom : num = 0 ∨ isNegative = true → 2 ≤ maxChars) (padChar : UInt8) :
    RightJustified (convert_ ws num dstString maxChars base padChar isNegative) maxChars padChar
      (converted base (maxChars - 1) num isNegative) := by
  subst hlength
  obtain ⟨state₁, hstate₁, hbuilt₁⟩ := (built_nil dstString).putInFront hsize hpos 0
  have hzero : num = 0 → 2 ≤ dstString.length ∧ (if isNegative then 1 else 0) = 0 := by
    intro hnum
    cases isNegative with
    | false => exact ⟨hroom (Or.inl hnum), rfl⟩
    | true => exact absurd hnum (hsign rfl)
  obtain ⟨state₂, hstate₂, hbuilt₂⟩ := hbuilt₁.digits hbase.1 hsize hzero
  obtain ⟨state₃, hstate₃, hbuilt₃⟩ := hbuilt₂.sign hsize fun hneg => hroom (Or.inr hneg)
  obtain ⟨hpad, hposition⟩ := hbuilt₃.pad padChar
  obtain ⟨front, hfront, -⟩ := hbuilt₃
  rw [List.length_append, List.length_singleton] at hfront hpad hposition
  have hwidth :
      dstString.length - ((converted base (dstString.length - 1) num isNegative).length + 1) =
      dstString.length - 1 - (converted base (dstString.length - 1) num isNegative).length := by
    omega
  rw [hwidth] at hpad hposition
  refine ⟨by omega, ?_⟩
  rw [convert_, if_neg (by omega)]
  simp only [Option.bind_eq_bind, hstate₁, Option.bind_some, hstate₂, hstate₃, hpad]
  rw [hposition]

theorem convert_noRoom (hbase : 2 ≤ base ∧ base ≤ 36) (hlength : dstString.length = 1)
    (hsize : 1 < 2 ^ ws) (hroom : num = 0 ∨ isNegative = true) (padChar : UInt8) :
    convert_ ws num dstString 1 base padChar isNegative = none := by
  obtain ⟨state₁, hstate₁, hbuilt₁⟩ :=
    (built_nil dstString).putInFront (by rwa [hlength]) (by rw [hlength]; exact Nat.one_pos) 0
  rw [hlength] at hstate₁ hbuilt₁
  rw [convert_, if_neg (by omega)]
  simp only [Option.bind_eq_bind, hstate₁, Option.bind_some]
  rcases Classical.em (num = 0) with hnum | hnum
  · rw [if_pos hnum, hbuilt₁.putInFront_full hsize rfl]
    rfl
  · obtain rfl := hroom.resolve_left hnum
    obtain ⟨state₂, hstate₂, hbuilt₂⟩ := hbuilt₁.convertDigits (Nat.lt_of_succ_le hbase.1) 1 num
    have hnone : lastDigits base (1 - [(0 : UInt8)].length - 1) num = [] :=
      List.length_eq_zero_iff.1 (Nat.le_zero.1 (length_lastDigits_le base 0 num))
    rw [hnone] at hbuilt₂
    simp only [if_neg hnum, if_true, hstate₂, Option.bind_some]
    rw [hbuilt₂.putInFront_full hsize rfl]
    rfl

theorem converted_natAbs {room : Nat} (num : Int) (hroom : num < 0 → 1 ≤ room) :
    converted base room num.natAbs (decide (num < 0)) = fitted base room num := by
  rcases lt_or_ge num 0 with hneg | hnonneg
  · have htake : ([45] : List UInt8).take room = [45] := List.take_of_length_le (hroom hneg)
    rw [converted, fitted, minus, if_pos (decide_eq_true hneg), if_pos hneg, htake]
    rfl
  · have hfalse : ¬ num < 0 := Int.not_lt.2 hnonneg
    rw [converted, fitted, minus, if_neg (by rwa [decide_eq_true_eq]), if_neg hfalse, List.take_nil]
    rfl

theorem not_rightJustified_none {padChar : UInt8} {text : List UInt8} :
    ¬ RightJustified none maxChars padChar text :=
  fun h => Option.some_ne_none _ h.2.symm

/-- The conversion is right unless the character in front of the terminator has no room. -/
theorem convert_rightJustified_iff (hbase : 2 ≤ base ∧ base ≤ 36)
    (hlength : dstString.length = maxChars) (hsize : maxChars < 2 ^ ws) (hpos : 1 ≤ maxChars)
    (num : Int) (padChar : UInt8) :
    RightJustified
        (convert_ ws num.natAbs dstString maxChars base padChar (decide (num < 0))) maxChars padChar
        (fitted base (maxChars - 1) num) ↔ ¬ (maxChars = 1 ∧ num ≤ 0) := by
  rcases Classical.em (maxChars = 1 ∧ num ≤ 0) with ⟨rfl, hnum⟩ | hroom
  · have hfull : num.natAbs = 0 ∨ decide (num < 0) = true := by
      rw [decide_eq_true_eq]
      omega
    rw [convert_noRoom hbase hlength hsize hfull padChar]
    exact iff_of_false not_rightJustified_none (not_not_intro ⟨rfl, hnum⟩)
  · refine iff_of_true ?_ hroom
    rw [← converted_natAbs num (by omega)]
    refine convert_spec hbase hlength hsize hpos ?_ ?_ padChar
    · rw [decide_eq_true_eq]
      omega
    · rw [decide_eq_true_eq]
      omega

end Convert

section Conversions

variable {p : Platform}

theorem longToStr_eq {num : BitVec p.long} (hmin : num ≠ BitVec.intMin p.long)
    (dstString : List UInt8) (maxChars base : Nat) (padChar : UInt8) :
    longToStr p num dstString maxChars base padChar =
      convert_ p.sizet num.toInt.natAbs dstString maxChars base padChar
        (decide (num.toInt < 0)) := by
  have hwidth : 2 ^ p.long ≤ 2 ^ p.sizet := Nat.pow_le_pow_right Nat.two_pos p.long_le_sizet
  have hcast : ((2 ^ p.long : Nat) : Int) = 2 ^ p.long := Int.natCast_pow 2 p.long
  have hlow := BitVec.le_two_mul_toInt (x := num)
  have hhigh := BitVec.two_mul_toInt_lt (x := num)
  rcases lt_or_ge num.toInt 0 with hneg | hnonneg
  · have hnat : (-num.toInt).toNat = num.toInt.natAbs := by omega
    rw [longToStr, if_pos hneg, if_neg hmin, hnat, decide_eq_true hneg,
      Nat.mod_eq_of_lt (by omega)]
  · have hfalse : ¬ num.toInt < 0 := Int.not_lt.2 hnonneg
    have hnat : num.toInt.toNat = num.toInt.natAbs := by omega
    rw [longToStr, if_neg hfalse, hnat, decide_eq_false hfalse, Nat.mod_eq_of_lt (by omega)]

theorem longToStr_intMin (dstString : List UInt8) (maxChars base : Nat) (padChar : UInt8) :
    longToStr p (BitVec.intMin p.long) dstString maxChars base padChar = none := by
  have hneg : (BitVec.intMin p.long).toInt < 0 := by
    rw [BitVec.toInt_intMin_of_pos p.long_pos]
    exact Int.neg_neg_of_pos (Int.pow_pos (by decide))
  rw [longToStr, if_pos hneg, if_pos rfl]

/-- The text is the number's own exactly when there is room for the character that is written
without looking at the room, and when a negative number is not the least one. -/
theorem toStr_rightJustified_iff (p : Platform) {dstString : List UInt8} {maxChars base : Nat}
    (hbase : 2 ≤ base ∧ base ≤ 36) (hlength : dstString.length = maxChars) (hpos : 1 ≤ maxChars)
    (hsize : maxChars < 2 ^ p.sizet) (padChar : UInt8) :
    (∀ num : BitVec p.long,
      RightJustified (longToStr p num dstString maxChars base padChar) maxChars padChar
          (fitted base (maxChars - 1) num.toInt) ↔
        ¬ (maxChars = 1 ∧ num.toInt ≤ 0) ∧ num ≠ BitVec.intMin p.long) ∧
    (∀ num : BitVec p.long,
      RightJustified (ulongToStr p num dstString maxChars base padChar) maxChars padChar
          (fitted base (maxChars - 1) num.toNat) ↔ ¬ (maxChars = 1 ∧ num = 0)) ∧
    ∀ num : BitVec p.sizet,
      RightJustified (sizetToStr p num dstString maxChars base padChar) maxChars padChar
          (fitted base (maxChars - 1) num.toNat) ↔ ¬ (maxChars = 1 ∧ num = 0) := by
  have hconvert := fun num => convert_rightJustified_iff hbase hlength hsize hpos num padChar
  have hunsigned : ∀ {w : Nat} (num : BitVec w),
      RightJustified (convert_ p.sizet num.toNat dstString maxChars base padChar false) maxChars
          padChar (fitted base (maxChars - 1) num.toNat) ↔ ¬ (maxChars = 1 ∧ num = 0) := by
    intro w num
    have hzero : ((num.toNat : Int) ≤ 0) ↔ num = 0 := by
      rw [← BitVec.toNat_inj]
      simp
    have hfalse : decide ((num.toNat : Int) < 0) = false := decide_eq_false (by omega)
    rw [← hzero, ← hconvert, hfalse, Int.natAbs_natCast]
  refine ⟨fun num => ?_, fun num => ?_, fun num => ?_⟩
  · rcases eq_or_ne num (BitVec.intMin p.long) with rfl | hmin
    · rw [longToStr_intMin]
      exact iff_of_false not_rightJustified_none fun h => h.2 rfl
    · rw [longToStr_eq hmin, hconvert]
      exact (and_iff_left hmin).symm
  · have hwidth : 2 ^ p.long ≤ 2 ^ p.sizet := Nat.pow_le_pow_right Nat.two_pos p.long_le_sizet
    rw [ulongToStr, Nat.mod_eq_of_lt (Nat.lt_of_lt_of_le num.isLt hwidth), hunsigned]
  · rw [sizetToStr, hunsigned]

/-- Three characters of room take the sign and two digits. -/
theorem toStr_rightJustified_negative :
    RightJustified (longToStr ⟨32, 64, by decide, by decide⟩ (BitVec.ofInt 32 (-123)) [1, 2, 3, 4] 4
      10 32) 4 32 (fitted 10 3 (BitVec.ofInt 32 (-123)).toInt) :=
  ((toStr_rightJustified_iff ⟨32, 64, by decide, by decide⟩ (by decide) rfl (by decide) (by decide)
    32).1 (BitVec.ofInt 32 (-123))).2 ⟨by decide, by decide⟩

/-- The digit of zero is written in front of a buffer of one byte. -/
theorem toStr_rightJustified_counterexample :
    ¬ ∀ (p : Platform) (num : BitVec p.long) (dstString : List UInt8) (maxChars base : Nat)
      (padChar : UInt8), 2 ≤ base ∧ base ≤ 36 → dstString.length = maxChars → 1 ≤ maxChars →
        maxChars < 2 ^ p.sizet →
          RightJustified (ulongToStr p num dstString maxChars base padChar) maxChars padChar
            (fitted base (maxChars - 1) num.toNat) := by
  intro h
  have hnone : ulongToStr ⟨32, 32, by decide, by decide⟩ 0#32 [7] 1 10 32 = none := by decide
  have hright := h ⟨32, 32, by decide, by decide⟩ 0#32 [7] 1 10 32 (by decide) rfl (by decide)
    (by decide)
  rw [hnone] at hright
  exact not_rightJustified_none hright

end Conversions

end ColonyPico.Text.NumberToAscii
