import ColonyPico.Text.StringEdits

/-!
The tokenizer of command lines (`Cpl::Text::Tokenizer::TextBlock`).  The source edits one buffer in
place; here the finished tokens are apart from the one that is being read, and a pointer into the
latter is an offset.
-/

namespace ColonyPico.Text.TextBlock

open ColonyPico.Text.StringEdits

/-- The characters with a meaning of their own in a command line. -/
structure Marks where
  delimiter : UInt8
  terminator : UInt8
  quote : UInt8
  escape : UInt8

/-- Where the loop of the constructor is: in an unquoted part of a token, inside quotes, behind an
escape character, in the spaces behind a space that is a delimiter, or behind the terminator. -/
inductive Place
  | plain
  | quoted
  | escaping
  | skipping
  | terminated
  deriving DecidableEq

structure Parse where
  tokens : List (List UInt8)
  -- from `startOfTokenPtr` up to `m_ptr`, quotes and escape characters taken out
  token : List UInt8
  firstNonSpace : Option Nat
  -- one behind `lastNonSpacePtr`
  endNonSpace : Option Nat
  count : Nat
  validTokens : Bool
  place : Place

def Parse.initial : Parse where
  tokens := []
  token := []
  firstNonSpace := none
  endNonSpace := none
  count := 0
  validTokens := true
  place := .plain

def removeWhiteSpace (token : List UInt8) (firstNonSpace endNonSpace : Option Nat) : List UInt8 :=
  let numSpaces := firstNonSpace.getD token.length
  match endNonSpace with
  | none => token.drop numSpaces
  | some last => (token.drop numSpaces).take (last - numSpaces)

namespace Parse

/-- The current token ends at a delimiter, at the terminator or with the string. -/
def endToken (s : Parse) (place : Place) : Parse :=
  { s with
    tokens := s.tokens ++ [removeWhiteSpace s.token s.firstNonSpace s.endNonSpace]
    token := []
    firstNonSpace := none
    endNonSpace := none
    count := s.count + 1
    place := place }

def normalCharacter (s : Parse) (c : UInt8) : Parse :=
  let here := s.token.length
  let s' := { s with token := s.token ++ [c], place := .plain }
  if isspace c then s'
  else match s.firstNonSpace, s.endNonSpace with
    | none, _ => { s' with firstNonSpace := some here, endNonSpace := some (here + 1) }
    | some _, some _ => { s' with endNonSpace := some (here + 1) }
    -- only an open quote leaves the end unset
    | some _, none => s'

/-- One pass of the outer loop. -/
def outside (marks : Marks) (s : Parse) (c : UInt8) : Parse :=
  if c = marks.terminator then s.endToken .terminated
  else if c = marks.delimiter then
    s.endToken (if marks.delimiter = 32 then .skipping else .plain)
  else if c = marks.quote then
    { s with
      firstNonSpace := some (s.firstNonSpace.getD s.token.length)
      validTokens := false
      place := .quoted }
  else s.normalCharacter c

/-- A delimiting space before the end of the line begins no token. -/
def uncount (s : Parse) : Parse :=
  { s with count := s.count - 1 }

def next (marks : Marks) (s : Parse) (c : UInt8) : Parse :=
  match s.place with
  | .plain => s.outside marks c
  | .quoted =>
      if c = marks.quote then
        { s with endNonSpace := some s.token.length, validTokens := true, place := .plain }
      else if c = marks.escape then { s with place := .escaping }
      else { s with token := s.token ++ [c] }
  | .escaping => { s with token := s.token ++ [c], place := .quoted }
  | .skipping =>
      if isspace c then s
      else if c = marks.terminator then s.uncount.outside marks c
      else s.outside marks c
  | .terminated => s

def finish (s : Parse) : Parse :=
  match s.place with
  | .terminated => s
  | .skipping => s.uncount.endToken .terminated
  | _ => s.endToken .terminated

end Parse

def textBlock (marks : Marks) (string : List UInt8) : Parse :=
  match string.dropWhile isspace with
  | [] => Parse.initial
  | c :: rest => ((c :: rest).foldl (Parse.next marks) Parse.initial).finish

namespace Parse

def numParameters (s : Parse) : Nat :=
  s.count

def getParameter (s : Parse) (index : Nat) : Option (List UInt8) :=
  if s.validTokens = false ∨ s.count ≤ index then none else s.tokens[index]?

variable {marks : Marks} {s : Parse}

theorem count_le_endToken (h : s.count ≤ s.tokens.length) (place : Place) :
    (s.endToken place).count ≤ (s.endToken place).tokens.length := by
  show s.count + 1 ≤ (s.tokens ++ [_]).length
  rw [List.length_append]
  exact Nat.succ_le_succ h

theorem count_le_uncount (h : s.count ≤ s.tokens.length) :
    s.uncount.count ≤ s.uncount.tokens.length :=
  (Nat.sub_le _ _).trans h

theorem count_le_outside (h : s.count ≤ s.tokens.length) (c : UInt8) :
    (s.outside marks c).count ≤ (s.outside marks c).tokens.length := by
  rw [outside]
  split_ifs
  · exact count_le_endToken h _
  · exact count_le_endToken h _
  · exact count_le_endToken h _
  · exact h
  · rw [normalCharacter]
    split_ifs
    · exact h
    · split <;> exact h

theorem count_le_next (h : s.count ≤ s.tokens.length) (c : UInt8) :
    (s.next marks c).count ≤ (s.next marks c).tokens.length := by
  rw [next]
  cases s.place with
  | plain => exact count_le_outside h c
  | quoted =>
      show (if _ then _ else _ : Parse).count ≤ (if _ then _ else _ : Parse).tokens.length
      split_ifs <;> exact h
  | escaping => exact h
  | skipping =>
      show (if _ then _ else _ : Parse).count ≤ (if _ then _ else _ : Parse).tokens.length
      split_ifs
      · exact h
      · exact count_le_outside (count_le_uncount h) c
      · exact count_le_outside h c
  | terminated => exact h

theorem count_le_tokens (marks : Marks) (string : List UInt8) :
    (textBlock marks string).count ≤ (textBlock marks string).tokens.length := by
  have hall : ∀ (rest : List UInt8) (s : Parse), s.count ≤ s.tokens.length →
      (rest.foldl (next marks) s).count ≤ (rest.foldl (next marks) s).tokens.length := by
    intro rest
    induction rest with
    | nil => exact fun s h => h
    | cons c rest ih => exact fun s h => ih (s.next marks c) (count_le_next h c)
  rw [textBlock]
  cases string.dropWhile isspace with
  | nil => exact Nat.le_refl 0
  | cons c rest =>
      have h := hall (c :: rest) initial (Nat.le_refl 0)
      show (finish _).count ≤ (finish _).tokens.length
      rw [finish]
      split
      · exact h
      · exact count_le_endToken (count_le_uncount h) _
      · exact count_le_endToken h _

/-- A counted parameter is missing just when a quote was left open. -/
theorem getParameter_eq_none (marks : Marks) (string : List UInt8) {index : Nat}
    (hindex : index < (textBlock marks string).numParameters) :
    (textBlock marks string).getParameter index = none ↔
      (textBlock marks string).validTokens = false := by
  rw [getParameter]
  constructor
  · intro hnone
    by_contra hvalid
    change index < (textBlock marks string).count at hindex
    rw [if_neg (not_or.mpr ⟨hvalid, Nat.not_le.mpr hindex⟩), List.getElem?_eq_none_iff] at hnone
    exact absurd (count_le_tokens marks string) (Nat.not_le.mpr (hnone.trans_lt hindex))
  · intro hvalid
    rw [if_pos (.inl hvalid)]

end Parse

end ColonyPico.Text.TextBlock
