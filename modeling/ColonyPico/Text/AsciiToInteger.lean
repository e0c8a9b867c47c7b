import ColonyPico.Text.AsciiToNumber
import Mathlib.Algebra.Group.Nat.Defs

/-!
Integers of every type from text (`Cpl::Text::a2i`, `a2ui`, `a2l`, `a2ul`, `a2ll`, `a2ull`): a
`long` has `w` bits, an `int` 32 and a `long long` 64. The conversions of the C library clip a
numeral that the type cannot hold, and the caller is not told.
-/

namespace ColonyPico.Text.AsciiToInteger

open Foundations.PositionalDigits StringEdits AsciiToNumber

/-- A numeral as the C library reads it. -/
structure Numeral where
  /-- White space, the sign, and the prefix of the base. -/
  leading : List UInt8
  negative : Bool
  radix : Nat
  digits : List UInt8

def Numeral.text (n : Numeral) : List UInt8 :=
  n.leading ++ n.digits

def Numeral.magnitude (n : Numeral) : Nat :=
  Foundations.PositionalDigits.value n.radix (n.digits.map digitValue)

def Numeral.value (n : Numeral) : Int :=
  if n.negative then -(n.magnitude : Int) else n.magnitude

/-- The numeral in front of a string, where there is one. -/
def scan (string : List UInt8) (base : Nat) : Option (Option Numeral) := do
  let spaces := (string.takeWhile isspace).length
  let c ← deref (string.drop spaces)
  let unsigned := string.drop (spaces + (sign c).2)
  let (base, skipped) ← radix base unsigned
  let digits := (unsigned.drop skipped).takeWhile fun c => digitValue c < base
  let _ ← deref (unsigned.drop (skipped + digits.length))
  if digits = [] then some none
  else some (some ⟨string.take (spaces + (sign c).2 + skipped), (sign c).1, base, digits⟩)

/-- `strtol()` for a `long` of `w` bits, and `strtoll()` likewise: the value, and how far the end
pointer is from the start. -/
def strtol (w : Nat) (string : List UInt8) (base : Nat) : Option (Int × Nat) :=
  (scan string base).map fun numeral =>
    match numeral with
    | none => (0, 0)
    | some n => (max (-2 ^ (w - 1)) (min (2 ^ (w - 1) - 1) n.value), n.text.length)

/-- The common course of the conversions: the result, the caller's variable and the end pointer. The
last argument is the conversion by the C library, made to the type of the variable. -/
def convert (convertedValue : Int) (string : Option (List UInt8)) (validStopChars : List UInt8)
    (strto : List UInt8 → Option (Int × Nat)) : Option (Bool × Int × Option (List UInt8)) :=
  match string with
  | none => some (false, convertedValue, none)
  | some string => do
      let (value, endPtr) ← strto string
      let ok ← conversionOk string endPtr validStopChars
      some (ok, if ok then value else convertedValue, some (string.drop endPtr))

variable (w : Nat) (convertedValue : Int) (string : Option (List UInt8)) (base : Nat)
  (validStopChars : List UInt8)

def a2i : Option (Bool × Int × Option (List UInt8)) :=
  convert convertedValue string validStopChars fun string =>
    (strtol w string base).map fun r => (r.1.bmod (2 ^ 32), r.2)

def a2ui : Option (Bool × Int × Option (List UInt8)) :=
  convert convertedValue string validStopChars fun string =>
    (strtoul w string base).map fun r => ((r.1 % 2 ^ 32 : Nat), r.2)

def a2l : Option (Bool × Int × Option (List UInt8)) :=
  convert convertedValue string validStopChars fun string => strtol w string base

def a2ul : Option (Bool × Int × Option (List UInt8)) :=
  convert convertedValue string validStopChars fun string =>
    (strtoul w string base).map fun r => ((r.1 : Nat), r.2)

def a2ll : Option (Bool × Int × Option (List UInt8)) :=
  convert convertedValue string validStopChars fun string => strtol 64 string base

def a2ull : Option (Bool × Int × Option (List UInt8)) :=
  convert convertedValue string validStopChars fun string =>
    (strtoul 64 string base).map fun r => ((r.1 : Nat), r.2)

section Scan

variable {string : List UInt8} {base : Nat}

/-- The terminator stands behind what a scan without it has passed. -/
theorem zero_mem_drop (h : (0 : UInt8) ∈ string) {n : Nat} (hfree : (0 : UInt8) ∉ string.take n) :
    (0 : UInt8) ∈ string.drop n := by
  rw [← List.take_append_drop n string] at h
  exact (List.mem_append.1 h).resolve_left hfree

theorem exists_deref (h : (0 : UInt8) ∈ string) : ∃ c rest, string = c :: rest ∧
    deref string = some c := by
  obtain ⟨c, rest, rfl⟩ := List.exists_cons_of_ne_nil (List.ne_nil_of_mem h)
  exact ⟨c, rest, rfl, rfl⟩

theorem zero_mem_drop_takeWhile (q : UInt8 → Bool) (hq : q 0 = false) (h : (0 : UInt8) ∈ string) :
    (0 : UInt8) ∈ string.drop (string.takeWhile q).length := by
  refine zero_mem_drop h ?_
  rw [← List.prefix_iff_eq_take.1 (List.takeWhile_prefix q)]
  intro hmem
  rw [List.mem_takeWhile_imp hmem] at hq
  cases hq

theorem zero_mem_drop_sign {c : UInt8} {rest : List UInt8} (h : (0 : UInt8) ∈ c :: rest) :
    (0 : UInt8) ∈ (c :: rest).drop (sign c).2 := by
  refine zero_mem_drop h ?_
  unfold sign
  split
  case isTrue hminus => simp [hminus]
  case isFalse =>
    split
    case isTrue hplus => simp [hplus]
    case isFalse => simp

/-- The bases of the C standard. -/
def BaseOk (base : Nat) : Prop :=
  base = 0 ∨ 2 ≤ base ∧ base ≤ 36

theorem BaseOk.le_of_default (hbase : BaseOk base) (default : Nat) (hdefault : default ≤ 36) :
    (if base = 0 then default else base) ≤ 36 := by
  split
  case isTrue => exact hdefault
  case isFalse hne =>
    rcases hbase with rfl | ⟨-, hle⟩
    · exact absurd rfl hne
    · exact hle

theorem exists_radix (hbase : BaseOk base) (h : (0 : UInt8) ∈ string) :
    ∃ base' skipped, radix base string = some (base', skipped) ∧ base' ≤ 36 ∧
      (0 : UInt8) ∈ string.drop skipped := by
  unfold radix
  split
  case h_1 x rest =>
    split
    case isTrue hprefix =>
      have hx : x ≠ 0 := by
        rcases hprefix.2 with rfl | rfl
        · decide
        · decide
      have hrest : (0 : UInt8) ∈ rest := by
        refine zero_mem_drop (n := 2) h ?_
        simpa using hx.symm
      obtain ⟨d, rest, rfl, hd⟩ := exists_deref hrest
      rw [hd, Option.map_some]
      split
      · exact ⟨16, 2, rfl, by decide, hrest⟩
      · exact ⟨_, 0, rfl, hbase.le_of_default 8 (by decide), h⟩
    case isFalse => exact ⟨_, 0, rfl, hbase.le_of_default 8 (by decide), h⟩
  case h_2 => exact ⟨_, 0, rfl, hbase.le_of_default 10 (by decide), h⟩

/-- Every terminated string is scanned, and a numeral is a part of it before its terminator. -/
theorem exists_scan (hbase : BaseOk base) (h : (0 : UInt8) ∈ string) :
    ∃ numeral, scan string base = some numeral ∧
      ∀ n ∈ numeral, n.text ≠ [] ∧ ∃ c rest, string = n.text ++ c :: rest := by
  have hspaces := zero_mem_drop_takeWhile isspace isspace_zero h
  obtain ⟨c, rest, hcons, hc⟩ := exists_deref hspaces
  have hsigned : (0 : UInt8) ∈ string.drop ((string.takeWhile isspace).length + (sign c).2) := by
    rw [← List.drop_drop, hcons]
    exact zero_mem_drop_sign (hcons ▸ hspaces)
  obtain ⟨base', skipped, hradix, hbase', hskipped⟩ := exists_radix hbase hsigned
  rw [scan]
  simp only [Option.bind_eq_bind, hc, Option.bind_some, hradix]
  generalize (string.takeWhile isspace).length + (sign c).2 = start at hskipped hradix ⊢
  have hend := zero_mem_drop_takeWhile (fun c => decide (digitValue c < base'))
    (decide_eq_false (Nat.not_lt.2 hbase')) hskipped
  obtain ⟨e, rest', hrest', he⟩ := exists_deref hend
  rw [← List.drop_drop, he, Option.bind_some]
  have hsplit : string = string.take (start + skipped) ++ ((string.drop start).drop skipped) := by
    rw [List.drop_drop, List.take_append_drop]
  generalize (string.drop start).drop skipped = unsigned at hrest' hsplit ⊢
  split
  case isTrue => exact ⟨none, rfl, by rintro n ⟨⟩⟩
  case isFalse hdigits =>
    refine ⟨_, rfl, ?_⟩
    rintro n ⟨⟩
    refine ⟨fun hnil => hdigits (List.append_eq_nil_iff.1 hnil).2, e, rest', ?_⟩
    have htake := List.prefix_iff_eq_take.1
      (List.takeWhile_prefix (fun c => decide (digitValue c < base')) (l := unsigned))
    conv_lhs => rw [hsplit, ← List.take_append_drop _ unsigned, ← htake, hrest']
    exact (List.append_assoc _ _ _).symm

end Scan

section Accepted

variable {string : List UInt8} {base : Nat} {validStopChars : List UInt8}

theorem scan_zero (hbase : BaseOk base) (rest : List UInt8) :
    scan (0 :: rest) base = some none := by
  have hspaces : (0 :: rest).takeWhile isspace = [] :=
    List.takeWhile_cons_of_neg (by rw [isspace_zero]; decide)
  have hradix : ∃ base', radix base (0 :: rest) = some (base', 0) ∧ base' ≤ 36 := by
    unfold radix
    split
    case h_1 heq => cases (List.cons.inj heq).1
    case h_2 => exact ⟨_, rfl, hbase.le_of_default 10 (by decide)⟩
  obtain ⟨base', hradix, hle⟩ := hradix
  have hdigits : (0 :: rest).takeWhile (fun c => decide (digitValue c < base')) = [] :=
    List.takeWhile_cons_of_neg (by rw [decide_eq_true_eq]; exact Nat.not_lt.2 hle)
  rw [scan]
  simp only [hspaces, List.length_nil, List.drop_zero, deref, List.head?_cons, Option.bind_eq_bind,
    Option.bind_some]
  have hsign : sign 0 = (false, 0) := rfl
  simp only [hsign, List.drop_zero, Nat.add_zero, hradix, Option.bind_some, hdigits,
    List.length_nil, List.head?_cons, if_true]

/-- The numeral in front of the string, where the character behind it may stop it. -/
def Accepted (string : List UInt8) (base : Nat) (validStopChars : List UInt8) (n : Numeral) :
    Prop :=
  scan string base = some (some n) ∧
    ∃ c rest, string = n.text ++ c :: rest ∧ (c = 0 ∨ c ∈ validStopChars)

/-- A conversion of the C library: what it makes of a numeral. -/
def Reads (strto : List UInt8 → Option (Int × Nat)) (base : Nat) (value : Numeral → Int) : Prop :=
  ∀ string, strto string = (scan string base).map fun numeral =>
    match numeral with
    | none => (0, 0)
    | some n => (value n, n.text.length)

theorem conversionOk_of_scan (hbase : BaseOk base) (h : (0 : UInt8) ∈ string) {n : Numeral}
    (hscan : scan string base = some (some n)) (validStopChars : List UInt8) :
    ∃ ok, conversionOk string n.text.length validStopChars = some ok ∧
      (ok = true ↔ Accepted string base validStopChars n) := by
  obtain ⟨numeral, hnumeral, hparts⟩ := exists_scan hbase h
  obtain rfl : numeral = some n := Option.some.inj (hnumeral.symm.trans hscan)
  obtain ⟨hne, c, rest, hstring⟩ := hparts n rfl
  have hdrop : string.drop n.text.length = c :: rest := by
    rw [hstring, List.drop_left]
  obtain ⟨first, rest', hfirst, hderef⟩ := exists_deref h
  have hpart : ¬ (first = 0 ∨ n.text.length = 0) := by
    rintro (rfl | hlength)
    · rw [hfirst, scan_zero hbase] at hscan
      cases hscan
    · exact hne (List.length_eq_zero_iff.1 hlength)
  refine ⟨c == 0 || validStopChars.contains c, ?_, ?_⟩
  · rw [conversionOk, Option.bind_eq_bind, hderef, Option.bind_some, if_neg hpart, hdrop]
    rfl
  · rw [Bool.or_eq_true, beq_iff_eq, List.contains_iff_mem]
    constructor
    · exact fun hstop => ⟨hscan, c, rest, hstring, hstop⟩
    · rintro ⟨-, c', rest', hstring', hstop⟩
      rw [hstring] at hstring'
      obtain ⟨rfl, -⟩ := List.cons.inj (List.append_cancel_left hstring')
      exact hstop

theorem conversionOk_zero (h : (0 : UInt8) ∈ string) (validStopChars : List UInt8) :
    conversionOk string 0 validStopChars = some false := by
  obtain ⟨first, rest, -, hderef⟩ := exists_deref h
  rw [conversionOk, Option.bind_eq_bind, hderef, Option.bind_some, if_pos (Or.inr rfl)]

/-- A conversion succeeds exactly on an accepted numeral, and leaves the variable alone
otherwise. -/
theorem convert_spec {strto : List UInt8 → Option (Int × Nat)} {value : Numeral → Int}
    (hreads : Reads strto base value) (hbase : BaseOk base) (h : (0 : UInt8) ∈ string)
    (convertedValue : Int) (validStopChars : List UInt8) :
    (∃ n rest, Accepted string base validStopChars n ∧ string = n.text ++ rest ∧
      convert convertedValue (some string) validStopChars strto =
        some (true, value n, some rest)) ∨
    (¬ ∃ n, Accepted string base validStopChars n) ∧
      ∃ rest, convert convertedValue (some string) validStopChars strto =
        some (false, convertedValue, some rest) := by
  obtain ⟨numeral, hscan, hparts⟩ := exists_scan hbase h
  simp only [convert, hreads string, hscan, Option.map_some, Option.bind_eq_bind, Option.bind_some]
  cases numeral with
  | none =>
      right
      constructor
      · rintro ⟨n, hn, -⟩
        rw [hscan] at hn
        cases hn
      · simp only [conversionOk_zero h, Option.bind_some, Bool.false_eq_true, if_false]
        exact ⟨_, rfl⟩
  | some n =>
      obtain ⟨ok, hok, hiff⟩ := conversionOk_of_scan hbase h hscan validStopChars
      simp only [hok, Option.bind_some]
      cases ok with
      | true =>
          obtain ⟨-, c, rest, hstring⟩ := hparts n rfl
          left
          refine ⟨n, c :: rest, hiff.1 rfl, hstring, ?_⟩
          rw [hstring, List.drop_left]
          rfl
      | false =>
          right
          constructor
          · rintro ⟨n', hn'⟩
            obtain rfl := Option.some.inj (Option.some.inj (hscan.symm.trans hn'.1))
            cases hiff.2 hn'
          · exact ⟨_, rfl⟩

end Accepted

section Values

/-- A numeral as a `long` of `w` bits. -/
def clip (w : Nat) (n : Numeral) : Int :=
  max (-2 ^ (w - 1)) (min (2 ^ (w - 1) - 1) n.value)

/-- A numeral as an `unsigned long` of `w` bits: a negative one is taken modulo the size. -/
def wrap (w : Nat) (n : Numeral) : Nat :=
  if 2 ^ w ≤ n.magnitude then 2 ^ w - 1
  else if n.negative then (2 ^ w - n.magnitude) % 2 ^ w
  else n.magnitude

theorem reads_strtol (w base : Nat) : Reads (fun string => strtol w string base) base (clip w) :=
  fun _ => rfl

theorem reads_strtoul (w base : Nat) :
    Reads (fun string => (strtoul w string base).map fun r => ((r.1 : Nat), r.2)) base
      (fun n => wrap w n) := by
  intro string
  simp only [strtoul, scan, Option.bind_eq_bind]
  cases hc : deref (string.drop (string.takeWhile isspace).length) with
  | none => rfl
  | some c =>
      simp only [Option.bind_some]
      generalize (string.takeWhile isspace).length + (sign c).2 = start
      cases radix base (string.drop start) with
      | none => rfl
      | some r =>
          simp only [Option.bind_some]
          generalize hdigits : ((string.drop start).drop r.2).takeWhile
            (fun c => decide (digitValue c < r.1)) = digits
          cases he : deref ((string.drop start).drop (r.2 + digits.length)) with
          | none => rfl
          | some e =>
              simp only [Option.bind_some]
              split
              case isTrue => rfl
              case isFalse =>
                have hlength : start + r.2 ≤ string.length := by
                  rw [deref, List.drop_drop] at he
                  have hlt := List.length_pos_iff.2 (List.ne_nil_of_mem (List.mem_of_head? he))
                  rw [List.length_drop] at hlt
                  omega
                simp only [Option.map_some, Numeral.text, List.length_append,
                  List.length_take_of_le hlength]
                rfl

theorem Reads.map {strto : List UInt8 → Option (Int × Nat)} {base : Nat} {value : Numeral → Int}
    (h : Reads strto base value) (narrow : Int → Int) (hzero : narrow 0 = 0) :
    Reads (fun string => (strto string).map fun r => (narrow r.1, r.2)) base
      (fun n => narrow (value n)) := by
  intro string
  simp only [h string, Option.map_map]
  congr 1
  funext numeral
  cases numeral with
  | none => simp only [Function.comp, hzero]
  | some n => rfl

theorem clip_range (w : Nat) (n : Numeral) :
    -2 ^ (w - 1) ≤ clip w n ∧ clip w n ≤ 2 ^ (w - 1) - 1 := by
  have hpos : (0 : Int) < 2 ^ (w - 1) := Int.pow_pos (by decide)
  unfold clip
  omega

theorem clip_exact {w : Nat} {n : Numeral} (hleast : -2 ^ (w - 1) ≤ n.value)
    (hgreatest : n.value ≤ 2 ^ (w - 1) - 1) : clip w n = n.value := by
  unfold clip
  omega

theorem wrap_lt (w : Nat) (n : Numeral) : wrap w n < 2 ^ w := by
  have hpos := Nat.two_pow_pos w
  unfold wrap
  split
  case isTrue => omega
  case isFalse hlt =>
    split
    · exact Nat.mod_lt _ hpos
    · omega

theorem wrap_exact {w : Nat} {n : Numeral} (hleast : 0 ≤ n.value)
    (hgreatest : n.value < (2 ^ w : Nat)) : (wrap w n : Int) = n.value := by
  have hpos := Nat.two_pow_pos w
  rw [Numeral.value] at hleast hgreatest ⊢
  unfold wrap
  split at hleast
  case isTrue hnegative =>
    have hzero : n.magnitude = 0 := by omega
    rw [if_neg (by omega), if_pos hnegative, if_pos hnegative, hzero, Nat.sub_zero, Nat.mod_self]
    rfl
  case isFalse hpositive =>
    rw [if_neg hpositive] at hgreatest ⊢
    rw [if_neg (by omega), if_neg hpositive]

end Values

section Fidelity

variable {string : List UInt8} {base : Nat} {validStopChars : List UInt8}

/-- The caller gets the value of the numeral that was consumed, or keeps the variable. -/
def Faithful (outcome : Option (Bool × Int × Option (List UInt8))) (convertedValue : Int)
    (string : List UInt8) (base : Nat) (validStopChars : List UInt8) : Prop :=
  ∃ ok value rest, outcome = some (ok, value, some rest) ∧ (ok = false → value = convertedValue) ∧
    (ok = true →
      ∃ n, Accepted string base validStopChars n ∧ string = n.text ++ rest ∧ value = n.value)

/-- The numeral in front of the string is a value of the type. -/
def Fits (least greatest : Int) (string : List UInt8) (base : Nat) (validStopChars : List UInt8) :
    Prop :=
  ∀ n, Accepted string base validStopChars n → least ≤ n.value ∧ n.value ≤ greatest

theorem faithful_iff {strto : List UInt8 → Option (Int × Nat)} {value : Numeral → Int}
    {least greatest : Int} (hreads : Reads strto base value) (hbase : BaseOk base)
    (h : (0 : UInt8) ∈ string) (hrange : ∀ n, least ≤ value n ∧ value n ≤ greatest)
    (hexact : ∀ n : Numeral, least ≤ n.value → n.value ≤ greatest → value n = n.value)
    (convertedValue : Int) :
    Faithful (convert convertedValue (some string) validStopChars strto) convertedValue string base
      validStopChars ↔ Fits least greatest string base validStopChars := by
  rcases convert_spec hreads hbase h convertedValue validStopChars with
    ⟨n, rest, haccepted, hstring, hconvert⟩ | ⟨hnone, rest, hconvert⟩
  · rw [hconvert]
    constructor
    · rintro ⟨ok, value', rest', houtcome, -, hvalue⟩ n' haccepted'
      cases houtcome
      obtain ⟨n'', haccepted'', -, hvalue⟩ := hvalue rfl
      have hsame : n' = n'' :=
        Option.some.inj (Option.some.inj (haccepted'.1.symm.trans haccepted''.1))
      rw [hsame, ← hvalue]
      exact hrange n
    · intro hfits
      obtain ⟨hleast, hgreatest⟩ := hfits n haccepted
      exact ⟨true, _, rest, rfl, Bool.noConfusion, fun _ =>
        ⟨n, haccepted, hstring, hexact n hleast hgreatest⟩⟩
  · rw [hconvert]
    refine iff_of_true ⟨false, _, rest, rfl, fun _ => rfl, Bool.noConfusion⟩ ?_
    exact fun n haccepted => absurd ⟨n, haccepted⟩ hnone

theorem signed_mono {w : Nat} (hw : 32 ≤ w) : (2 ^ 31 : Int) ≤ 2 ^ (w - 1) := by
  have hpow : (2 ^ 31 : Nat) ≤ 2 ^ (w - 1) := Nat.pow_le_pow_right Nat.two_pos (by omega)
  exact_mod_cast hpow

section Converters

variable (hbase : BaseOk base) (h : (0 : UInt8) ∈ string) (convertedValue : Int)
include hbase h

theorem a2i_faithful_iff {w : Nat} (hw : 32 ≤ w) :
    Faithful (a2i w convertedValue (some string) base validStopChars) convertedValue string base
        validStopChars ↔ Fits (-2 ^ 31) (2 ^ 31 - 1) string base validStopChars := by
  have hreads := (reads_strtol w base).map (fun v => v.bmod (2 ^ 32)) rfl
  refine faithful_iff hreads hbase h (fun n => ?_) (fun n hleast hgreatest => ?_) convertedValue
  · have hlow := Int.le_bmod (x := clip w n) (m := 2 ^ 32) (by decide)
    have hhigh := Int.bmod_lt (x := clip w n) (m := 2 ^ 32) (by decide)
    omega
  · have hmono := signed_mono hw
    rw [clip_exact (by omega) (by omega)]
    exact Int.bmod_eq_of_le (by omega) (by omega)

theorem unsigned_faithful_iff {strto : List UInt8 → Option (Int × Nat)} {w : Nat}
    {value : Numeral → Nat} (hreads : Reads strto base fun n => value n)
    (hrange : ∀ n, value n < 2 ^ w)
    (hexact : ∀ n : Numeral, 0 ≤ n.value → n.value < (2 ^ w : Nat) → (value n : Int) = n.value) :
    Faithful (convert convertedValue (some string) validStopChars strto) convertedValue string base
      validStopChars ↔ Fits 0 (2 ^ w - 1) string base validStopChars := by
  have hcast : ((2 ^ w : Nat) : Int) = 2 ^ w := Int.natCast_pow 2 w
  refine faithful_iff hreads hbase h (fun n => ?_) (fun n hleast hgreatest => ?_) convertedValue
  · have hlt := hrange n
    omega
  · exact hexact n hleast (by omega)

theorem a2ui_faithful_iff {w : Nat} (hw : 32 ≤ w) :
    Faithful (a2ui w convertedValue (some string) base validStopChars) convertedValue string base
        validStopChars ↔ Fits 0 (2 ^ 32 - 1) string base validStopChars := by
  have hpow : 2 ^ 32 ≤ 2 ^ w := Nat.pow_le_pow_right Nat.two_pos hw
  have hreads : Reads (fun string => (strtoul w string base).map fun r =>
      (((r.1 % 2 ^ 32 : Nat) : Int), r.2)) base fun n => (wrap w n % 2 ^ 32 : Nat) := by
    intro string
    have hmap := (reads_strtoul w base).map (fun v => (v.toNat % 2 ^ 32 : Nat)) rfl string
    simp only [Option.map_map] at hmap
    exact hmap
  refine unsigned_faithful_iff hbase h convertedValue hreads (fun n => Nat.mod_lt _ (by decide))
    fun n hleast hgreatest => ?_
  have hwrap := wrap_exact (w := w) hleast (by omega)
  omega

end Converters

/-- Whatever the type, a conversion is faithful exactly when the numeral is a value of the type. -/
theorem convert_faithful_iff {w : Nat} (hw : 32 ≤ w) {string : List UInt8} {base : Nat}
    (hbase : BaseOk base) (h : (0 : UInt8) ∈ string) (convertedValue : Int)
    (validStopChars : List UInt8) :
    (Faithful (a2i w convertedValue (some string) base validStopChars) convertedValue string base
        validStopChars ↔ Fits (-2 ^ 31) (2 ^ 31 - 1) string base validStopChars) ∧
    (Faithful (a2ui w convertedValue (some string) base validStopChars) convertedValue string base
        validStopChars ↔ Fits 0 (2 ^ 32 - 1) string base validStopChars) ∧
    (Faithful (a2l w convertedValue (some string) base validStopChars) convertedValue string base
        validStopChars ↔ Fits (-2 ^ (w - 1)) (2 ^ (w - 1) - 1) string base validStopChars) ∧
    (Faithful (a2ul w convertedValue (some string) base validStopChars) convertedValue string base
        validStopChars ↔ Fits 0 (2 ^ w - 1) string base validStopChars) ∧
    (Faithful (a2ll convertedValue (some string) base validStopChars) convertedValue string base
        validStopChars ↔ Fits (-2 ^ 63) (2 ^ 63 - 1) string base validStopChars) ∧
    (Faithful (a2ull convertedValue (some string) base validStopChars) convertedValue string base
        validStopChars ↔ Fits 0 (2 ^ 64 - 1) string base validStopChars) := by
  refine ⟨a2i_faithful_iff hbase h convertedValue hw, a2ui_faithful_iff hbase h convertedValue hw,
    ?_, ?_, ?_, ?_⟩
  · exact faithful_iff (reads_strtol w base) hbase h (clip_range w) (fun _ => clip_exact)
      convertedValue
  · exact unsigned_faithful_iff hbase h convertedValue (reads_strtoul w base) (wrap_lt w)
      fun _ => wrap_exact
  · exact faithful_iff (reads_strtol 64 base) hbase h (clip_range 64) (fun _ => clip_exact)
      convertedValue
  · exact unsigned_faithful_iff hbase h convertedValue (reads_strtoul 64 base) (wrap_lt 64)
      fun _ => wrap_exact

/-- An `int` takes the least value of its type, up to a comma. -/
theorem convert_faithful_least :
    Faithful (a2i 32 7 (some [45, 50, 49, 52, 55, 52, 56, 51, 54, 52, 56, 44, 0]) 10 [44]) 7
      [45, 50, 49, 52, 55, 52, 56, 51, 54, 52, 56, 44, 0] 10 [44] := by
  refine ((convert_faithful_iff (le_refl 32) (Or.inr ⟨by decide, by decide⟩) (by decide) 7
    [44]).1).2 ?_
  rintro n ⟨hscan, -⟩
  have hvalue : (scan [45, 50, 49, 52, 55, 52, 56, 51, 54, 52, 56, 44, 0] 10).map
      (Option.map Numeral.value) = some (some (-2147483648)) := by decide
  rw [hscan] at hvalue
  have hn : n.value = -2147483648 := Option.some.inj (Option.some.inj hvalue)
  rw [hn]
  decide

/-- A numeral above the greatest `long` is taken for the greatest one. -/
theorem convert_faithful_counterexample :
    ¬ ∀ (w : Nat) (string : List UInt8) (base : Nat) (convertedValue : Int)
      (validStopChars : List UInt8), 32 ≤ w → BaseOk base → (0 : UInt8) ∈ string →
        Faithful (a2l w convertedValue (some string) base validStopChars) convertedValue string base
          validStopChars := by
  intro hfaithful
  obtain ⟨ok, value, rest, houtcome, -, hvalue⟩ := hfaithful 32
    [50, 49, 52, 55, 52, 56, 51, 54, 52, 56, 0] 10 7 [] (le_refl 32)
    (Or.inr ⟨by decide, by decide⟩) (by decide)
  have hclipped : a2l 32 7 (some [50, 49, 52, 55, 52, 56, 51, 54, 52, 56, 0]) 10 [] =
      some (true, 2147483647, some [0]) := by decide
  rw [hclipped] at houtcome
  cases houtcome
  obtain ⟨n, ⟨hscan, -⟩, -, hn⟩ := hvalue rfl
  have htrue : (scan [50, 49, 52, 55, 52, 56, 51, 54, 52, 56, 0] 10).map
      (Option.map Numeral.value) = some (some 2147483648) := by decide
  rw [hscan] at htrue
  have hactual : n.value = 2147483648 := Option.some.inj (Option.some.inj htrue)
  rw [hactual] at hn
  exact absurd hn (by decide)

end Fidelity

/-- This is the conversion that time stamps are read with. -/
theorem a2ul_eq (w : Nat) (convertedValue : Int) (string : List UInt8) (base : Nat)
    (validStopChars : List UInt8) :
    a2ul w convertedValue (some string) base validStopChars =
      (AsciiToNumber.a2ul w string base validStopChars).map fun r =>
        (r.1.isSome, (r.1.map Int.ofNat).getD convertedValue, some r.2) := by
  simp only [a2ul, convert, AsciiToNumber.a2ul, Option.bind_eq_bind]
  cases strtoul w string base with
  | none => rfl
  | some r =>
      simp only [Option.map_some, Option.bind_some]
      cases conversionOk string r.2 validStopChars with
      | none => rfl
      | some ok =>
          cases ok with
          | false => rfl
          | true => rfl

end ColonyPico.Text.AsciiToInteger
