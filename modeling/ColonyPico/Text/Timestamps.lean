import ColonyPico.System.ElapsedTime
import ColonyPico.Text.AsciiToNumber
import ColonyPico.Text.StringAppend

/-!
Time stamps as text (`Cpl::Text`): the formatter and the parser of `[DD ]HH:MM:SS[.sss]`, for an
`unsigned long` of `w` bits and an `unsigned` of 32.
-/

namespace ColonyPico.Text.Timestamps

open Foundations.TerminatedText Foundations.PositionalDigits
open System.ElapsedTime StringEdits StringRefinement StringAppend AsciiToNumber

section Formatter

/-- The conversion to `long long`. -/
def toLongLong (n : Nat) : Int :=
  (n : Int).bmod (2 ^ 64)

/-- `lldiv()`, its results taken as `unsigned long long`. -/
def lldiv (numer : Nat) (denom : Int) : Nat × Nat :=
  (((toLongLong numer).tdiv denom % 2 ^ 64).toNat, ((toLongLong numer).tmod denom % 2 ^ 64).toNat)

/-- `%0<width>u`, of a number that is converted to `unsigned`. -/
def percentU (width n : Nat) : List UInt8 :=
  numeral (padded 10 width (n % 2 ^ 32))

/-- The string afterwards, and whether it took the whole text. -/
def formatMsec (buffer : FString) (msec elaspedSecs : Nat) (encodeDay appendToString : Bool) :
    Option (FString × Bool) := do
  let (hh, t) := lldiv elaspedSecs (60 * 60)
  let (mm, ss) := lldiv t 60
  let formatted :=
    if encodeDay then
      let (dd, hh) := lldiv hh 24
      percentU 2 dd ++ 32 :: (percentU 2 hh ++ 58 :: (percentU 2 mm ++ 58 ::
        (percentU 2 ss ++ 46 :: percentU 3 msec)))
    else
      percentU 2 hh ++ 58 :: (percentU 2 mm ++ 58 :: (percentU 2 ss ++ 46 :: percentU 3 msec))
  let buffer ← if appendToString then formatAppend buffer formatted else format buffer formatted
  some (buffer, !buffer.truncated)

def formatPrecisionTimeStamp (buffer : FString) (timeStamp : Precision)
    (encodeDay appendToString : Bool) : Option (FString × Bool) :=
  formatMsec buffer timeStamp.thousandths timeStamp.seconds encodeDay appendToString

end Formatter

section Parser

def stripSpace (s : List UInt8) : Option (List UInt8) :=
  let rest := s.dropWhile isspace
  (deref rest).map fun _ => rest

/-- A character that is neither the end nor white space. -/
def isDark (c : UInt8) : Bool :=
  c ≠ 0 && !isspace c

def stripNotSpace (s : List UInt8) : Option (List UInt8) :=
  let rest := s.dropWhile isDark
  (deref rest).map fun _ => rest

def strlenAt (s : List UInt8) : Option Nat :=
  if (0 : UInt8) ∈ s then some (strlen s) else none

/-- The fraction of a second behind `endPtr`, in thousandths. -/
def parseMsecs (w : Nat) (endPtr : List UInt8) : Option (Option Nat) := do
  let c ← deref endPtr
  let msecs ← if c = 0 then some (some 0) else (a2ui w endPtr.tail 10 []).map Prod.fst
  match msecs with
  | none => some none
  | some msecs =>
      if msecs < 1000 then
        -- the length is taken behind the end of the string when there is no fraction
        let len ← strlenAt endPtr.tail
        let msecs := if len = 1 then msecs * 100 else if len = 2 then msecs * 10 else msecs
        some (some (msecs % 2 ^ 16))
      else some none

/-- The converted value where the parse was successful. -/
def parseTime (w : Nat) (time : List UInt8) : Option (Option Precision) := do
  let (hh, endPtr) ← a2ul w time 10 [58]
  match hh with
  | none => some none
  | some hh =>
      let c ← deref endPtr
      if c = 0 then some none
      else
        let (mm, endPtr) ← a2ul w endPtr.tail 10 [58]
        match mm with
        | none => some none
        | some mm =>
            let c ← deref endPtr
            if c = 0 then some none
            else
              let (ss, endPtr) ← a2ul w endPtr.tail 10 [46]
              match ss with
              | none => some none
              | some ss =>
                  let msecs ← parseMsecs w endPtr
                  some (msecs.map fun msecs =>
                    { seconds := (ss + mm * 60 + hh * 60 * 60) % 2 ^ w, thousandths := msecs })

def parsePrecisionTimeStamp (w : Nat) (timeStampToParse : List UInt8) :
    Option (Option Precision) := do
  let firstArg ← stripSpace timeStampToParse
  let secondArg ← (stripNotSpace firstArg).bind stripSpace
  let c ← deref secondArg
  if c = 0 then parseTime w firstArg
  else
    let (day, _) ← a2ul w firstArg 10 [32]
    match day with
    | none => some none
    | some day =>
        let time ← parseTime w secondArg
        some (time.map fun time =>
          { time with seconds := (time.seconds + day * 60 * 60 * 24) % 2 ^ w })

end Parser

section Form

/-- A time stamp by its digits. -/
structure Timestamp where
  day : Option (List Nat)
  hours : List Nat
  minutes : List Nat
  seconds : List Nat
  fraction : Option (List Nat)

variable (w : Nat)

def timeSeconds (ts : Timestamp) : Nat :=
  value 10 ts.seconds + value 10 ts.minutes * 60 + value 10 ts.hours * 60 * 60

/-- The time that is denoted. -/
def denoted (ts : Timestamp) : Precision :=
  { seconds := timeSeconds ts + value 10 (ts.day.getD []) * 60 * 60 * 24
    thousandths := value 10 (ts.fraction.getD []) * 10 ^ (3 - (ts.fraction.getD []).length) }

/-- Numbers of any length in front of the fraction, up to three digits in it, and a time that fits
an `unsigned long`. -/
structure WellFormed (ts : Timestamp) : Prop where
  day : ∀ d, ts.day = some d → Decimal d
  hours : Decimal ts.hours
  minutes : Decimal ts.minutes
  seconds : Decimal ts.seconds
  fraction : ∀ ds, ts.fraction = some ds → (∀ d ∈ ds, d < 10) ∧ ds.length ≤ 3
  fits : (denoted ts).seconds < 2 ^ w

def fractionText (ts : Timestamp) : List UInt8 :=
  match ts.fraction with
  | none => []
  | some ds => 46 :: numeral ds

def timeText (ts : Timestamp) : List UInt8 :=
  numeral ts.hours ++ 58 :: (numeral ts.minutes ++ 58 :: (numeral ts.seconds ++ fractionText ts))

def stampText (ts : Timestamp) : List UInt8 :=
  match ts.day with
  | none => timeText ts
  | some d => numeral d ++ 32 :: timeText ts

end Form

section Fraction

variable {w : Nat}

/-- A fraction is scaled to thousandths. -/
theorem parseMsecs_digits (hw : 32 ≤ w) {ds : List Nat} (h : Decimal ds) (hlength : ds.length ≤ 3)
    (junk : List UInt8) :
    parseMsecs w (46 :: (numeral ds ++ 0 :: junk)) =
      some (some (value 10 ds * 10 ^ (3 - ds.length))) := by
  have hpow : 2 ^ 32 ≤ 2 ^ w := Nat.pow_le_pow_right (by decide) hw
  have hthousand : 10 ^ ds.length ≤ 10 ^ 3 := Nat.pow_le_pow_right (by decide) hlength
  have hlt := value_lt (by decide) h.2
  have hsmall : value 10 ds < 1000 := Nat.lt_of_lt_of_le hlt hthousand
  have hfree : (0 : UInt8) ∉ numeral ds := fun hmem => (of_mem_numeral h hmem).2.2.1 rfl
  have hholds : Holds (numeral ds ++ 0 :: junk) (numeral ds) := holds_append hfree
  have hnumber : a2ui w (numeral ds ++ 0 :: junk) 10 [] = some (some (value 10 ds), 0 :: junk) := by
    rw [a2ui, a2ul_numeral h (by omega) (by decide) (.inl rfl), Option.map_some, Option.map_some,
      Nat.mod_eq_of_lt (by omega)]
  have hlen : strlenAt (numeral ds ++ 0 :: junk) = some ds.length := by
    rw [strlenAt, if_pos hholds.mem, hholds.strlen_eq, length_numeral]
  have hpos := List.length_pos_of_ne_nil h.1
  have hscaled : (if ds.length = 1 then value 10 ds * 100
      else if ds.length = 2 then value 10 ds * 10 else value 10 ds) % 2 ^ 16 =
        value 10 ds * 10 ^ (3 - ds.length) := by
    obtain hone | htwo | hthree : ds.length = 1 ∨ ds.length = 2 ∨ ds.length = 3 := by omega
    · rw [hone] at hlt ⊢
      rw [if_pos rfl, Nat.mod_eq_of_lt (by omega)]
      rfl
    · rw [htwo] at hlt ⊢
      rw [if_neg (by decide), if_pos rfl, Nat.mod_eq_of_lt (by omega)]
      rfl
    · rw [hthree, if_neg (by decide), if_neg (by decide), Nat.mod_eq_of_lt (by omega),
        Nat.sub_self, Nat.pow_zero, Nat.mul_one]
  rw [parseMsecs, deref, List.head?_cons, List.tail_cons, hnumber]
  simp only [Option.bind_eq_bind, Option.bind_some, Option.map_some, if_pos hsmall, hlen, hscaled]
  rfl

theorem parseMsecs_empty (w : Nat) (junk : List UInt8) :
    parseMsecs w (46 :: 0 :: junk) = some none :=
  rfl

/-- Without a fraction the walk goes behind the end of the string. -/
theorem parseMsecs_absent (w : Nat) : parseMsecs w [0] = none :=
  rfl

theorem parseTime_eq {ts : Timestamp} (hhours : Decimal ts.hours) (hminutes : Decimal ts.minutes)
    (hseconds : Decimal ts.seconds) (hfits : timeSeconds ts < 2 ^ w) {c : UInt8}
    (hc : c = 0 ∨ c = 46) (rest : List UInt8) :
    parseTime w (numeral ts.hours ++ 58 :: (numeral ts.minutes ++ 58 ::
        (numeral ts.seconds ++ c :: rest))) =
      (parseMsecs w (c :: rest)).map fun msecs =>
        msecs.map fun msecs => { seconds := timeSeconds ts, thousandths := msecs } := by
  have hcolon : 10 ≤ digitValue 58 := by decide
  have hstop : 10 ≤ digitValue c := by
    rcases hc with rfl | rfl <;> decide
  rw [timeSeconds] at hfits
  rw [parseTime, a2ul_numeral hhours (by omega) hcolon (.inr List.mem_cons_self)]
  simp only [Option.bind_eq_bind, Option.bind_some]
  rw [deref, List.head?_cons, Option.bind_some, if_neg (by decide), List.tail_cons,
    a2ul_numeral hminutes (by omega) hcolon (.inr List.mem_cons_self)]
  simp only [Option.bind_some]
  rw [deref, List.head?_cons, Option.bind_some, if_neg (by decide), List.tail_cons,
    a2ul_numeral hseconds (by omega) hstop (by
      rcases hc with rfl | rfl
      · exact .inl rfl
      · exact .inr List.mem_cons_self)]
  simp only [Option.bind_some, Nat.mod_eq_of_lt hfits]
  exact (Option.map_eq_bind ..).symm

end Fraction

section Stamps

variable {w : Nat} {ts : Timestamp}

theorem isDark_of_mem_numeral {digits : List Nat} (h : ∀ d ∈ digits, d < 10) {c : UInt8}
    (hc : c ∈ numeral digits) : isDark c = true := by
  obtain ⟨d, hd, rfl⟩ := List.mem_map.1 hc
  obtain ⟨-, hspace, hzero, -⟩ := digit_table ⟨d, h d hd⟩
  rw [isDark, hspace, decide_eq_true hzero]
  rfl

theorem stripSpace_cons {c : UInt8} (hc : isspace c = false) (rest : List UInt8) :
    stripSpace (c :: rest) = some (c :: rest) := by
  rw [stripSpace, List.dropWhile_cons_of_neg (by rw [hc]; decide)]
  rfl

theorem stripNotSpace_append {word : List UInt8} (hword : ∀ c ∈ word, isDark c = true) {c : UInt8}
    (hc : isDark c = false) (rest : List UInt8) :
    stripNotSpace (word ++ c :: rest) = some (c :: rest) := by
  rw [stripNotSpace, List.dropWhile_append_of_pos hword,
    List.dropWhile_cons_of_neg (by rw [hc]; decide)]
  rfl

theorem isDark_of_mem_timeText (h : WellFormed w ts) {c : UInt8} (hc : c ∈ timeText ts) :
    isDark c = true := by
  have hfraction : c ∈ fractionText ts → isDark c = true := by
    intro hc
    rw [fractionText] at hc
    cases hds : ts.fraction with
    | none =>
        rw [hds] at hc
        cases hc
    | some ds =>
        rw [hds] at hc
        rcases List.mem_cons.1 hc with rfl | hc
        · decide
        · exact isDark_of_mem_numeral (h.fraction ds hds).1 hc
  rw [timeText] at hc
  rcases List.mem_append.1 hc with hc | hc
  · exact isDark_of_mem_numeral h.hours.2 hc
  rcases List.mem_cons.1 hc with rfl | hc
  · decide
  rcases List.mem_append.1 hc with hc | hc
  · exact isDark_of_mem_numeral h.minutes.2 hc
  rcases List.mem_cons.1 hc with rfl | hc
  · decide
  rcases List.mem_append.1 hc with hc | hc
  · exact isDark_of_mem_numeral h.seconds.2 hc
  · exact hfraction hc

/-- Text that starts with a numeral has no white space in front. -/
theorem stripSpace_numeral {digits : List Nat} (h : Decimal digits) (rest : List UInt8) :
    stripSpace (numeral digits ++ rest) = some (numeral digits ++ rest) := by
  obtain ⟨d, ds, rfl⟩ := List.exists_cons_of_ne_nil h.1
  exact stripSpace_cons (digit_table ⟨d, h.2 d List.mem_cons_self⟩).2.1 _

theorem parseTime_timeText (h : WellFormed w ts) (junk : List UInt8) :
    parseTime w (timeText ts ++ 0 :: junk) =
      (parseMsecs w (fractionText ts ++ 0 :: junk)).map fun msecs =>
        msecs.map fun msecs => { seconds := timeSeconds ts, thousandths := msecs } := by
  have hfits : timeSeconds ts < 2 ^ w := Nat.lt_of_le_of_lt (Nat.le_add_right _ _) h.fits
  obtain ⟨c, rest, hc, hcons⟩ : ∃ c rest, (c = 0 ∨ c = 46) ∧
      fractionText ts ++ 0 :: junk = c :: rest := by
    rw [fractionText]
    cases ts.fraction with
    | none => exact ⟨0, junk, .inl rfl, rfl⟩
    | some ds => exact ⟨46, _, .inr rfl, rfl⟩
  rw [timeText, List.append_assoc, List.cons_append, List.append_assoc, List.cons_append,
    List.append_assoc, hcons]
  exact parseTime_eq h.hours h.minutes h.seconds hfits hc rest

theorem zero_notMem_stampText (h : WellFormed w ts) :
    (0 : UInt8) ∉ stampText ts := by
  have htime : (0 : UInt8) ∉ timeText ts := fun hmem =>
    absurd (isDark_of_mem_timeText h hmem) (by decide)
  rw [stampText]
  cases hday : ts.day with
  | none => exact htime
  | some d =>
      intro hmem
      rcases List.mem_append.1 hmem with hmem | hmem
      · exact absurd (isDark_of_mem_numeral (h.day d hday).2 hmem) (by decide)
      · rcases List.mem_cons.1 hmem with hmem | hmem
        · cases hmem
        · exact htime hmem

/-- The parser takes the stamp apart, down to the fraction. -/
theorem parsePrecisionTimeStamp_eq (h : WellFormed w ts) (junk : List UInt8) :
    parsePrecisionTimeStamp w (stampText ts ++ 0 :: junk) =
      (parseMsecs w (fractionText ts ++ 0 :: junk)).map fun msecs =>
        msecs.map fun msecs => { seconds := (denoted ts).seconds, thousandths := msecs } := by
  have hdark : ∀ c ∈ timeText ts, isDark c = true := fun c hc => isDark_of_mem_timeText h hc
  have hstrip : stripSpace (timeText ts ++ 0 :: junk) = some (timeText ts ++ 0 :: junk) := by
    rw [timeText, List.append_assoc]
    exact stripSpace_numeral h.hours _
  rw [stampText, parsePrecisionTimeStamp, denoted]
  cases hday : ts.day with
  | none =>
      simp only [hstrip, stripNotSpace_append hdark (show isDark 0 = false by decide),
        stripSpace_cons isspace_zero, Option.bind_eq_bind, Option.bind_some]
      rw [deref, List.head?_cons, Option.bind_some, if_pos rfl]
      exact parseTime_timeText h junk
  | some d =>
      have hd := h.day d hday
      have hfits : timeSeconds ts + value 10 d * 60 * 60 * 24 < 2 ^ w := by
        have hfits := h.fits
        rw [denoted, hday] at hfits
        exact hfits
      obtain ⟨c, rest, hcons⟩ := List.exists_cons_of_ne_nil fun hnil : timeText ts = [] =>
        h.hours.1 (List.map_eq_nil_iff.1 (List.append_eq_nil_iff.1 hnil).1)
      have hc : c ≠ 0 := by
        have hfirst := hdark c (hcons ▸ List.mem_cons_self)
        rintro rfl
        cases hfirst
      have hskip :
          stripSpace (32 :: (timeText ts ++ 0 :: junk)) = some (timeText ts ++ 0 :: junk) := by
        rw [← hstrip, stripSpace, List.dropWhile_cons_of_pos (by decide)]
        rfl
      have hderef : deref (timeText ts ++ 0 :: junk) = some c := by
        rw [hcons]
        rfl
      rw [List.append_assoc, List.cons_append]
      simp only [stripSpace_numeral hd,
        stripNotSpace_append (fun c hc => isDark_of_mem_numeral hd.2 hc)
          (show isDark 32 = false by decide), hskip, hderef, if_neg hc,
        a2ul_numeral hd (show value 10 d < 2 ^ w by omega) (show 10 ≤ digitValue 32 by decide)
          (.inr List.mem_cons_self), parseTime_timeText h, Option.bind_eq_bind, Option.bind_some,
        Option.getD_some]
      cases parseMsecs w (fractionText ts ++ 0 :: junk) with
      | none => rfl
      | some msecs =>
          cases msecs with
          | none => rfl
          | some msecs =>
              simp only [Option.map_some, Option.bind_some]
              rw [Nat.mod_eq_of_lt hfits]

/-- A stamp with at least one digit in its fraction is read without a look behind its end. -/
theorem parsePrecisionTimeStamp_fraction (hw : 32 ≤ w) (h : WellFormed w ts) {ds : List Nat}
    (hds : ts.fraction = some ds) (hdigits : ds ≠ []) (junk : List UInt8) :
    parsePrecisionTimeStamp w (stampText ts ++ 0 :: junk) = some (some (denoted ts)) := by
  obtain ⟨hlt, hlength⟩ := h.fraction ds hds
  rw [parsePrecisionTimeStamp_eq h, fractionText, hds, denoted, hds]
  dsimp only
  rw [List.cons_append, parseMsecs_digits hw ⟨hdigits, hlt⟩ hlength]
  rfl

/-- The text of a stamp without a fraction is left behind its end. -/
theorem parsePrecisionTimeStamp_absent (h : WellFormed w ts) (hnone : ts.fraction = none) :
    parsePrecisionTimeStamp w (stampText ts ++ [0]) = none := by
  rw [parsePrecisionTimeStamp_eq h, fractionText, hnone]
  dsimp only
  rw [List.nil_append, parseMsecs_absent, Option.map_none]

theorem parsePrecisionTimeStamp_empty (h : WellFormed w ts) (hempty : ts.fraction = some [])
    (junk : List UInt8) : parsePrecisionTimeStamp w (stampText ts ++ 0 :: junk) = some none := by
  rw [parsePrecisionTimeStamp_eq h, fractionText, hempty]
  dsimp only
  rw [numeral, List.map_nil, List.singleton_append, parseMsecs_empty]
  rfl

end Stamps

section RoundTrip

theorem lldiv_eq {n : Nat} (hn : n < 2 ^ 63) (d : Nat) : lldiv n d = (n / d, n % d) := by
  have hsigned : toLongLong n = n := Int.bmod_eq_of_le_mul_two (by omega) (by omega)
  have hquot : n / d ≤ n := Nat.div_le_self n d
  have hrem : n % d ≤ n := Nat.mod_le n d
  rw [lldiv, hsigned, ← Int.ofNat_tdiv, ← Int.ofNat_tmod]
  generalize n / d = q at hquot ⊢
  generalize n % d = r at hrem ⊢
  rw [Int.emod_eq_of_lt (by omega) (by omega), Int.emod_eq_of_lt (by omega) (by omega),
    Int.toNat_natCast, Int.toNat_natCast]

theorem percentU_eq {n : Nat} (hn : n < 2 ^ 32) (width : Nat) :
    percentU width n = numeral (padded 10 width n) := by
  rw [percentU, Nat.mod_eq_of_lt hn]

theorem decimal_padded {width : Nat} (hwidth : 0 < width) (n : Nat) :
    Decimal (padded 10 width n) := by
  refine ⟨fun hnil => ?_, fun d hd => lt_of_mem_padded (by decide) hd⟩
  have hle := le_length_padded 10 width n
  rw [hnil, List.length_nil] at hle
  omega

/-- The stamp that a time is formatted to. -/
def stampOf (encodeDay : Bool) (t : Precision) : Timestamp :=
  let hh := t.seconds / 3600
  { day := if encodeDay then some (padded 10 2 (hh / 24)) else none
    hours := padded 10 2 (if encodeDay then hh % 24 else hh)
    minutes := padded 10 2 (t.seconds % 3600 / 60)
    seconds := padded 10 2 (t.seconds % 3600 % 60)
    fraction := some (padded 10 3 t.thousandths) }

variable {t : Precision} (hthousandths : t.thousandths < 1000)

include hthousandths in
theorem denoted_stampOf (encodeDay : Bool) : denoted (stampOf encodeDay t) = t := by
  have hlength : (padded 10 3 t.thousandths).length = 3 := length_padded (by decide) hthousandths
  have hseconds : (denoted (stampOf encodeDay t)).seconds = t.seconds := by
    cases encodeDay with
    | false =>
        simp only [denoted, timeSeconds, stampOf, Bool.false_eq_true, if_false, Option.getD_none,
          value_padded, value_nil]
        omega
    | true =>
        simp only [denoted, timeSeconds, stampOf, if_true, Option.getD_some, value_padded]
        omega
  have hfraction : (denoted (stampOf encodeDay t)).thousandths = t.thousandths := by
    simp only [denoted, stampOf, Option.getD_some, value_padded, hlength, Nat.sub_self,
      Nat.pow_zero, Nat.mul_one]
  exact congrArg₂ Precision.mk hseconds hfraction

variable (hseconds : t.seconds < 2 ^ 32)

include hthousandths hseconds
theorem wellFormed_stampOf {w : Nat} (hw : 32 ≤ w) (encodeDay : Bool) :
    WellFormed w (stampOf encodeDay t) := by
  constructor
  · intro d hd
    rw [stampOf] at hd
    split_ifs at hd
    obtain rfl := Option.some.inj hd
    exact decimal_padded (by decide) _
  · exact decimal_padded (by decide) _
  · exact decimal_padded (by decide) _
  · exact decimal_padded (by decide) _
  · intro ds hds
    obtain rfl := Option.some.inj hds
    exact ⟨(decimal_padded (by decide) _).2,
      length_padded_le (by decide) (Nat.le_refl 3) hthousandths⟩
  · rw [denoted_stampOf hthousandths]
    exact Nat.lt_of_lt_of_le hseconds (Nat.pow_le_pow_right (by decide) hw)

/-- Eighteen characters are enough. -/
theorem length_stampText_le (encodeDay : Bool) : (stampText (stampOf encodeDay t)).length ≤ 18 := by
  have hmsec : (padded 10 3 t.thousandths).length ≤ 3 :=
    length_padded_le (by decide) (Nat.le_refl 3) hthousandths
  have hss : (padded 10 2 (t.seconds % 3600 % 60)).length ≤ 2 :=
    length_padded_le (by decide) (Nat.le_refl 2) (by omega)
  have hmm : (padded 10 2 (t.seconds % 3600 / 60)).length ≤ 2 :=
    length_padded_le (by decide) (Nat.le_refl 2) (by omega)
  cases encodeDay with
  | false =>
      have hhh : (padded 10 2 (t.seconds / 3600)).length ≤ 7 :=
        length_padded_le (by decide) (by decide) (by omega)
      simp only [stampText, timeText, fractionText, stampOf, Bool.false_eq_true, if_false,
        List.length_append, List.length_cons, length_numeral]
      omega
  | true =>
      have hdd : (padded 10 2 (t.seconds / 3600 / 24)).length ≤ 5 :=
        length_padded_le (by decide) (by decide) (by omega)
      have hhh : (padded 10 2 (t.seconds / 3600 % 24)).length ≤ 2 :=
        length_padded_le (by decide) (Nat.le_refl 2) (by omega)
      simp only [stampText, timeText, fractionText, stampOf, if_true, List.length_append,
        List.length_cons, length_numeral]
      omega

theorem formatPrecisionTimeStamp_spec {buffer : FString} {text : List UInt8}
    (hvalid : buffer.Valid text) (encodeDay : Bool)
    (hroom : (stampText (stampOf encodeDay t)).length ≤ buffer.internalMaxlen) :
    ∃ buffer', formatPrecisionTimeStamp buffer t encodeDay false = some (buffer', true) ∧
      Holding buffer.internalMaxlen (stampText (stampOf encodeDay t)) buffer' := by
  have hwell := wellFormed_stampOf hthousandths hseconds (Nat.le_refl 32) encodeDay
  obtain ⟨buffer', hformat, hholding⟩ := format_holding hvalid (zero_notMem_stampText hwell) hroom
  have hhours : lldiv t.seconds (60 * 60) = (t.seconds / 3600, t.seconds % 3600) :=
    lldiv_eq (by omega) 3600
  have hminutes : lldiv (t.seconds % 3600) 60 = (t.seconds % 3600 / 60, t.seconds % 3600 % 60) :=
    lldiv_eq (by omega) 60
  have hdays : lldiv (t.seconds / 3600) 24 = (t.seconds / 3600 / 24, t.seconds / 3600 % 24) :=
    lldiv_eq (by omega) 24
  have hmm := percentU_eq (show t.seconds % 3600 / 60 < 2 ^ 32 by omega) 2
  have hss := percentU_eq (show t.seconds % 3600 % 60 < 2 ^ 32 by omega) 2
  have hmsec := percentU_eq (show t.thousandths < 2 ^ 32 by omega) 3
  have hformatted : formatPrecisionTimeStamp buffer t encodeDay false =
      (format buffer (stampText (stampOf encodeDay t))).bind fun buffer' =>
        some (buffer', !buffer'.truncated) := by
    rw [formatPrecisionTimeStamp, formatMsec, hhours]
    simp only [hminutes]
    cases encodeDay with
    | false =>
        rw [percentU_eq (show t.seconds / 3600 < 2 ^ 32 by omega), hmm, hss, hmsec]
        rfl
    | true =>
        simp only [hdays]
        rw [percentU_eq (show t.seconds / 3600 / 24 < 2 ^ 32 by omega),
          percentU_eq (show t.seconds / 3600 % 24 < 2 ^ 32 by omega), hmm, hss, hmsec]
        rfl
  refine ⟨buffer', ?_, hholding⟩
  rw [hformatted, hformat, Option.bind_some, hholding.whole]
  rfl

/-- What is formatted parses to the same time. -/
theorem parsePrecisionTimeStamp_format {w : Nat} (hw : 32 ≤ w) {buffer : FString}
    {text : List UInt8} (hvalid : buffer.Valid text) (encodeDay : Bool)
    (hroom : (stampText (stampOf encodeDay t)).length ≤ buffer.internalMaxlen) :
    ∃ buffer', formatPrecisionTimeStamp buffer t encodeDay false = some (buffer', true) ∧
      parsePrecisionTimeStamp w buffer'.strPtr = some (some t) := by
  obtain ⟨buffer', hformat, hholding⟩ :=
    formatPrecisionTimeStamp_spec hthousandths hseconds hvalid encodeDay hroom
  obtain ⟨junk, hcells⟩ := hholding.valid.holds.split
  refine ⟨buffer', hformat, ?_⟩
  have hwell := wellFormed_stampOf hthousandths hseconds hw encodeDay
  rw [hcells, parsePrecisionTimeStamp_fraction hw hwell rfl (decimal_padded (by decide) _).1,
    denoted_stampOf hthousandths]

end RoundTrip

/-- A formatted time always parses to itself; any other stamp parses to the time it denotes, from
the cells up to its end, exactly when its fraction has a digit. -/
theorem timestamp_text_exact_iff (w : Nat) (hw : 32 ≤ w) :
    (∀ t encodeDay, t.thousandths < 1000 → t.seconds < 2 ^ 32 →
      (stampText (stampOf encodeDay t)).length ≤ 18 ∧
        ∀ buffer text, buffer.Valid text →
          (stampText (stampOf encodeDay t)).length ≤ buffer.internalMaxlen →
            ∃ buffer', formatPrecisionTimeStamp buffer t encodeDay false = some (buffer', true) ∧
              parsePrecisionTimeStamp w buffer'.strPtr = some (some t)) ∧
      ∀ ts, WellFormed w ts →
        ((∀ junk, parsePrecisionTimeStamp w (stampText ts ++ 0 :: junk) =
            some (some (denoted ts))) ↔ ∃ ds, ts.fraction = some ds ∧ ds ≠ []) := by
  constructor
  · intro t encodeDay hthousandths hseconds
    exact ⟨length_stampText_le hthousandths hseconds encodeDay, fun buffer text hvalid hroom =>
      parsePrecisionTimeStamp_format hthousandths hseconds hw hvalid encodeDay hroom⟩
  · intro ts hts
    constructor
    · intro hexact
      cases hds : ts.fraction with
      | none =>
          have hparse := hexact []
          rw [parsePrecisionTimeStamp_absent hts hds] at hparse
          cases hparse
      | some ds =>
          refine ⟨ds, rfl, ?_⟩
          rintro rfl
          have hparse := hexact []
          rw [parsePrecisionTimeStamp_empty hts hds] at hparse
          cases hparse
    · rintro ⟨ds, hds, hdigits⟩ junk
      exact parsePrecisionTimeStamp_fraction hw hts hds hdigits junk

theorem timestamp_text_exact_day :
    parsePrecisionTimeStamp 32 [48, 50, 32, 49, 50, 58, 49, 51, 58, 49, 52, 46, 48, 53, 0] =
      some (some { seconds := 216794, thousandths := 50 }) := by
  have hts : WellFormed 32 ⟨some [0, 2], [1, 2], [1, 3], [1, 4], some [0, 5]⟩ := by
    refine ⟨?_, ⟨by decide, by decide⟩, ⟨by decide, by decide⟩, ⟨by decide, by decide⟩, ?_,
      by decide⟩
    · rintro d ⟨⟩
      exact ⟨by decide, by decide⟩
    · rintro ds ⟨⟩
      exact ⟨by decide, by decide⟩
  exact ((timestamp_text_exact_iff 32 (by decide)).2 _ hts).2 ⟨[0, 5], rfl, by decide⟩ []

/-- Without a fraction the character behind the end is examined: the text `12:13:14`. -/
theorem parsePrecisionTimeStamp_behind :
    (WellFormed 32 ⟨none, [1, 2], [1, 3], [1, 4], none⟩ ∧
      stampText ⟨none, [1, 2], [1, 3], [1, 4], none⟩ = [49, 50, 58, 49, 51, 58, 49, 52] ∧
        denoted ⟨none, [1, 2], [1, 3], [1, 4], none⟩ = { seconds := 43994, thousandths := 0 }) ∧
      parsePrecisionTimeStamp 32 [49, 50, 58, 49, 51, 58, 49, 52, 0] = none ∧
        parsePrecisionTimeStamp 32 [49, 50, 58, 49, 51, 58, 49, 52, 0, 0] =
          some (some { seconds := 43994, thousandths := 0 }) := by
  refine ⟨⟨⟨?_, ⟨by decide, by decide⟩, ⟨by decide, by decide⟩, ⟨by decide, by decide⟩, ?_,
    by decide⟩, by decide, by decide⟩, by decide, by decide⟩
  · rintro d ⟨⟩
  · rintro ds ⟨⟩

end ColonyPico.Text.Timestamps
