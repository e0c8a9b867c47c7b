import ColonyPico.Foundations.PositionalDigits
import ColonyPico.Text.StringEdits

/-!
Unsigned numbers from text (`Cpl::Text::a2ul`, `a2ui`). A pointer into a string is what memory holds
from there on, and a result of `none` is a read behind the memory.
-/

namespace ColonyPico.Text.AsciiToNumber

open Foundations.PositionalDigits StringEdits

/-- `*ptr`. -/
def deref (ptr : List UInt8) : Option UInt8 :=
  ptr.head?

/-- The value of a digit; 36 for a character that is no digit of any base. -/
def digitValue (c : UInt8) : Nat :=
  if 48 ≤ c ∧ c ≤ 57 then c.toNat - 48
  else if 65 ≤ c ∧ c ≤ 90 then c.toNat - 65 + 10
  else if 97 ≤ c ∧ c ≤ 122 then c.toNat - 97 + 10
  else 36

/-- The sign, and the characters it takes. -/
def sign (c : UInt8) : Bool × Nat :=
  if c = 45 then (true, 1) else if c = 43 then (false, 1) else (false, 0)

/-- The base that the digits are read in, and the characters of the prefix. -/
def radix (base : Nat) : List UInt8 → Option (Nat × Nat)
  | 48 :: x :: rest =>
      if (base = 0 ∨ base = 16) ∧ (x = 120 ∨ x = 88) then
        (deref rest).map fun d =>
          if digitValue d < 16 then (16, 2) else (if base = 0 then 8 else base, 0)
      else some (if base = 0 then 8 else base, 0)
  | _ => some (if base = 0 then 10 else base, 0)

/-- `strtoul()` for an `unsigned long` of `w` bits: the value, and how far the end pointer is from
the start. -/
def strtoul (w : Nat) (string : List UInt8) (base : Nat) : Option (Nat × Nat) := do
  let spaces := (string.takeWhile isspace).length
  let c ← deref (string.drop spaces)
  let unsigned := string.drop (spaces + (sign c).2)
  let (base, skipped) ← radix base unsigned
  let digits := (unsigned.drop skipped).takeWhile fun c => digitValue c < base
  -- the character that ends the digits
  let _ ← deref (unsigned.drop (skipped + digits.length))
  if digits = [] then some (0, 0)
  else
    let magnitude := value base (digits.map digitValue)
    let converted :=
      if 2 ^ w ≤ magnitude then 2 ^ w - 1
      else if (sign c).1 then (2 ^ w - magnitude) % 2 ^ w
      else magnitude
    some (converted, spaces + (sign c).2 + skipped + digits.length)

def conversionOk (originalString : List UInt8) (endPtr : Nat) (validStopChars : List UInt8) :
    Option Bool := do
  let first ← deref originalString
  if first = 0 ∨ endPtr = 0 then some false
  else
    let c ← deref (originalString.drop endPtr)
    some (c == 0 || validStopChars.contains c)

/-- The converted value where the conversion was successful, and the end pointer. -/
def a2ul (w : Nat) (string : List UInt8) (base : Nat) (validStopChars : List UInt8) :
    Option (Option Nat × List UInt8) := do
  let (converted, endPtr) ← strtoul w string base
  let ok ← conversionOk string endPtr validStopChars
  some (if ok then some converted else none, string.drop endPtr)

/-- An `unsigned` has 32 bits. -/
def a2ui (w : Nat) (string : List UInt8) (base : Nat) (validStopChars : List UInt8) :
    Option (Option Nat × List UInt8) :=
  (a2ul w string base validStopChars).map fun result =>
    (result.1.map fun converted => converted % 2 ^ 32, result.2)

section Numerals

/-- The characters of a decimal numeral. -/
def numeral (digits : List Nat) : List UInt8 :=
  digits.map fun d => UInt8.ofNat (48 + d)

theorem length_numeral (digits : List Nat) : (numeral digits).length = digits.length :=
  List.length_map _

theorem digit_table : ∀ d : Fin 10, digitValue (UInt8.ofNat (48 + d)) = d ∧
    isspace (UInt8.ofNat (48 + d)) = false ∧ UInt8.ofNat (48 + d) ≠ 0 ∧
    sign (UInt8.ofNat (48 + d)) = (false, 0) := by
  decide

/-- Digits of a decimal numeral. -/
def Decimal (digits : List Nat) : Prop :=
  digits ≠ [] ∧ ∀ d ∈ digits, d < 10

theorem radix_ten (ptr : List UInt8) : radix 10 ptr = some (10, 0) := by
  rcases ptr with _ | ⟨c, _ | ⟨x, rest⟩⟩
  · rfl
  · rw [radix]
    · rfl
    · intro x rest h
      cases h
  · rcases eq_or_ne c 48 with rfl | hc
    · rfl
    · rw [radix]
      · rfl
      · intro x rest h
        exact hc (List.cons.inj h).1

variable {digits : List Nat}

theorem of_mem_numeral (h : Decimal digits) {c : UInt8} (hc : c ∈ numeral digits) :
    digitValue c < 10 ∧ isspace c = false ∧ c ≠ 0 ∧ sign c = (false, 0) := by
  obtain ⟨d, hd, rfl⟩ := List.mem_map.1 hc
  obtain ⟨hvalue, hrest⟩ := digit_table ⟨d, h.2 d hd⟩
  rw [hvalue]
  exact ⟨h.2 d hd, hrest⟩

theorem value_numeral (h : Decimal digits) :
    value 10 ((numeral digits).map digitValue) = value 10 digits := by
  rw [numeral, List.map_map]
  congr 1
  conv_rhs => rw [← List.map_id digits]
  refine List.map_congr_left fun d hd => ?_
  exact (digit_table ⟨d, h.2 d hd⟩).1

/-- A numeral is read up to the character behind it. -/
theorem strtoul_numeral (h : Decimal digits) {w : Nat} (hfits : value 10 digits < 2 ^ w) {c : UInt8}
    (hc : 10 ≤ digitValue c) (rest : List UInt8) :
    strtoul w (numeral digits ++ c :: rest) 10 = some (value 10 digits, digits.length) := by
  obtain ⟨d, ds, hcons⟩ := List.exists_cons_of_ne_nil fun hnil : numeral digits = [] =>
    h.1 (List.map_eq_nil_iff.1 hnil)
  obtain ⟨-, hspace, -, hsign⟩ := of_mem_numeral h (c := d) (hcons ▸ List.mem_cons_self)
  have hspaces : (numeral digits ++ c :: rest).takeWhile isspace = [] := by
    rw [hcons, List.cons_append, List.takeWhile_cons_of_neg (by rw [hspace]; decide)]
  have hfirst : deref (numeral digits ++ c :: rest) = some d := by
    rw [hcons]
    rfl
  have htake : (numeral digits ++ c :: rest).takeWhile (fun c => decide (digitValue c < 10)) =
      numeral digits := by
    rw [List.takeWhile_append_of_pos fun c hc => decide_eq_true (of_mem_numeral h hc).1,
      List.takeWhile_cons_of_neg (by rw [decide_eq_true_eq]; omega), List.append_nil]
  have hend : deref ((numeral digits ++ c :: rest).drop digits.length) = some c := by
    rw [← length_numeral, List.drop_left]
    rfl
  rw [strtoul]
  simp only [hspaces, List.length_nil, List.drop_zero, hfirst, hsign, radix_ten, htake, hend,
    Option.bind_eq_bind, Option.bind_some, Nat.zero_add, value_numeral h, Bool.false_eq_true,
    if_false, if_neg (Nat.not_le.2 hfits), length_numeral]
  rw [if_neg (by rw [hcons]; exact List.cons_ne_nil d ds)]

theorem a2ul_numeral (h : Decimal digits) {w : Nat} (hfits : value 10 digits < 2 ^ w) {c : UInt8}
    (hc : 10 ≤ digitValue c) {validStopChars : List UInt8} (hstop : c = 0 ∨ c ∈ validStopChars)
    (rest : List UInt8) :
    a2ul w (numeral digits ++ c :: rest) 10 validStopChars =
      some (some (value 10 digits), c :: rest) := by
  obtain ⟨d, ds, hcons⟩ := List.exists_cons_of_ne_nil fun hnil : numeral digits = [] =>
    h.1 (List.map_eq_nil_iff.1 hnil)
  obtain ⟨-, -, hzero, -⟩ := of_mem_numeral h (c := d) (hcons ▸ List.mem_cons_self)
  have hfirst : deref (numeral digits ++ c :: rest) = some d := by
    rw [hcons]
    rfl
  have hdrop : (numeral digits ++ c :: rest).drop digits.length = c :: rest := by
    rw [← length_numeral, List.drop_left]
  have hok : (c == 0 || validStopChars.contains c) = true := by
    rw [Bool.or_eq_true, beq_iff_eq, List.contains_iff_mem]
    exact hstop
  have hlength : ¬ (d = 0 ∨ digits.length = 0) := by
    rw [not_or, List.length_eq_zero_iff]
    exact ⟨hzero, h.1⟩
  rw [a2ul, strtoul_numeral h hfits hc]
  simp only [Option.bind_eq_bind, Option.bind_some, conversionOk, hfirst, hdrop, if_neg hlength]
  rw [deref, List.head?_cons, Option.bind_some, hok]
  rfl

end Numerals

end ColonyPico.Text.AsciiToNumber
