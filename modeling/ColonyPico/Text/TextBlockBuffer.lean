import ColonyPico.Text.TextBlockGrammar

/-!
The tokenizer of text blocks in its buffer: characters are taken out of the string while it is
read.
-/

namespace ColonyPico.Text.TextBlockBuffer

open ColonyPico.Foundations.TerminatedText
open ColonyPico.Text.StringEdits (isspace isspace_zero)
open ColonyPico.Text.TextBlock (Marks Parse Place)
open ColonyPico.Text.TextBlockGrammar

/-- The members of the tokenizer and the variables of its constructor. Pointers are offsets from
`m_base`, and `endNonSpace` is one behind `lastNonSpacePtr`. -/
structure Cursor where
  string : List UInt8
  ptr : Nat
  validTokens : Bool
  terminatorFound : Bool
  count : Nat
  startOfToken : Nat
  firstNonSpace : Option Nat
  endNonSpace : Option Nat

/-- `removeCharacter_()`: the move includes the NUL; nothing without one. -/
def removeCharacter (string : List UInt8) (charToRemove numCharsToRemove : Nat) :
    Option (List UInt8) :=
  if numCharsToRemove = 0 then some string
  else
    let nextChar := string.drop (charToRemove + numCharsToRemove)
    if 0 ∈ nextChar then write string charToRemove (nextChar.take (strlen nextChar + 1)) else none

def removeWhiteSpace (s : Cursor) : Option Cursor :=
  let numSpaces := s.firstNonSpace.getD s.ptr - s.startOfToken
  (removeCharacter s.string s.startOfToken numSpaces).bind fun string =>
    let s := { s with string := string, ptr := s.ptr - numSpaces }
    match s.endNonSpace with
    | none => some s
    | some endNonSpace =>
        let endNonSpace := endNonSpace - numSpaces
        if endNonSpace < s.ptr then
          (removeCharacter s.string endNonSpace (s.ptr - endNonSpace)).map fun string =>
            { s with string := string, ptr := endNonSpace }
        else some s

/-- The found token ends where a delimiter or the terminator is. -/
def finalize (s : Cursor) : Option Cursor :=
  (removeWhiteSpace s).bind fun s =>
    (poke s.string s.ptr 0).map fun string =>
      { s with string := string, ptr := s.ptr + 1, count := s.count + 1 }

/-- The special case of a space for the delimiter. -/
def stripLeading (marks : Marks) (s : Cursor) : Option Cursor :=
  let spaces := ((s.string.drop s.ptr).takeWhile isspace).length
  (s.string[s.ptr + spaces]?).bind fun c =>
    (removeCharacter s.string s.ptr spaces).map fun string =>
      { s with
        string := string
        count := if c = 0 ∨ c = marks.terminator then s.count - 1 else s.count }

/-- The loop that consumes a text string. -/
def textString (marks : Marks) : Nat → Bool → Cursor → Option Cursor
  | 0, _, _ => none
  | fuel + 1, escaping, s =>
      (s.string[s.ptr]?).bind fun c =>
        if c = 0 then some s
        else if escaping then textString marks fuel false { s with ptr := s.ptr + 1 }
        else if c = marks.quote then
          (removeCharacter s.string s.ptr 1).map fun string =>
            { s with string := string, endNonSpace := some s.ptr, validTokens := true }
        else if c = marks.escape then
          (removeCharacter s.string s.ptr 1).bind fun string =>
            textString marks fuel true { s with string := string }
        else textString marks fuel false { s with ptr := s.ptr + 1 }

def normalCharacter (s : Cursor) (c : UInt8) : Cursor :=
  let s' := { s with ptr := s.ptr + 1 }
  if isspace c then s'
  else match s.firstNonSpace, s.endNonSpace with
    | none, _ => { s' with firstNonSpace := some s.ptr, endNonSpace := some (s.ptr + 1) }
    | some _, some _ => { s' with endNonSpace := some (s.ptr + 1) }
    | some _, none => s'

/-- The loop of the constructor. -/
def parseString (marks : Marks) : Nat → Cursor → Option Cursor
  | 0, _ => none
  | fuel + 1, s =>
      (s.string[s.ptr]?).bind fun c =>
        if c = 0 then removeWhiteSpace { s with count := s.count + 1 }
        else if c = marks.terminator then
          (finalize s).map fun s => { s with terminatorFound := true }
        else if c = marks.delimiter then
          (finalize s).bind fun s =>
            (if marks.delimiter = 32 then stripLeading marks s else some s).bind fun s =>
              parseString marks fuel
                { s with firstNonSpace := none, endNonSpace := none, startOfToken := s.ptr }
        else if c = marks.quote then
          (removeCharacter s.string s.ptr 1).bind fun string =>
            (textString marks fuel false
              { s with
                string := string
                validTokens := false
                firstNonSpace := some (s.firstNonSpace.getD s.ptr) }).bind (parseString marks fuel)
        else parseString marks fuel (normalCharacter s c)

/-- The constructor; `m_base` is behind the leading white space. -/
def textBlock (marks : Marks) (string : List UInt8) : Option Cursor :=
  let base := string.dropWhile isspace
  let s : Cursor :=
    { string := base, ptr := 0, validTokens := true, terminatorFound := false, count := 0
      startOfToken := 0, firstNonSpace := none, endNonSpace := none }
  (base[0]?).bind fun c => if c = 0 then some s else parseString marks base.length s

namespace Cursor

def numParameters (s : Cursor) : Nat :=
  s.count

/-- The loop of `getParameter()`. -/
def skipTokens (string : List UInt8) : Nat → Nat → Nat
  | 0, token => token
  | i + 1, token => skipTokens string i (token + strlen (string.drop token) + 1)

def getParameter (s : Cursor) (index : Nat) : Option (List UInt8) :=
  if s.validTokens = false ∨ index ≥ s.count then none
  else some (text (s.string.drop (skipTokens s.string index 0)))

def remaining (s : Cursor) : List UInt8 :=
  text (s.string.drop s.ptr)

end Cursor

/-- The tokens in the buffer, each with its NUL. -/
def stored (tokens : List (List UInt8)) : List UInt8 :=
  tokens.flatMap fun token => token ++ [0]

section Removal

theorem removeCharacter_spec (a gone keep junk : List UInt8) {p n : Nat} (hp : a.length = p)
    (hn : gone.length = n) (hkeep : (0 : UInt8) ∉ keep) :
    ∃ junk', removeCharacter (a ++ (gone ++ (keep ++ 0 :: junk))) p n =
      some (a ++ (keep ++ 0 :: junk')) := by
  subst hp hn
  rw [removeCharacter]
  split_ifs with hzero
  · rw [List.length_eq_zero_iff.1 hzero]
    exact ⟨junk, rfl⟩
  · have hdrop : (a ++ (gone ++ (keep ++ 0 :: junk))).drop (a.length + gone.length) =
        keep ++ 0 :: junk := by
      rw [← List.drop_drop, List.drop_left, List.drop_left]
    have hholds : Holds (keep ++ 0 :: junk) keep := holds_append hkeep
    have hmoved : (keep ++ 0 :: junk).take (keep.length + 1) = keep ++ [0] := by
      rw [List.take_append, List.take_of_length_le (Nat.le_succ _), Nat.add_sub_cancel_left]
      rfl
    obtain ⟨b, c, hsplit, hb⟩ := exists_split (gone ++ (keep ++ 0 :: junk))
      (show (keep ++ [0]).length ≤ (gone ++ (keep ++ 0 :: junk)).length by
        simp only [List.length_append, List.length_cons, List.length_nil]
        omega)
    refine ⟨c, ?_⟩
    simp only [hdrop, hholds.strlen_eq, hmoved]
    rw [if_pos hholds.mem, hsplit, write_append rfl hb, List.append_assoc]
    rfl

variable {token rest : List UInt8}

theorem removeCharacter_leading (before junk : List UInt8) {n : Nat} (hn : n ≤ token.length)
    (htoken : (0 : UInt8) ∉ token) (hrest : (0 : UInt8) ∉ rest) :
    ∃ junk', removeCharacter (before ++ (token ++ (rest ++ 0 :: junk))) before.length n =
      some (before ++ (token.drop n ++ (rest ++ 0 :: junk'))) := by
  have hkeep : (0 : UInt8) ∉ token.drop n ++ rest := by
    rw [List.mem_append, not_or]
    exact ⟨fun hmem => htoken (List.mem_of_mem_drop hmem), hrest⟩
  have hsplit : token ++ (rest ++ 0 :: junk) =
      token.take n ++ (token.drop n ++ rest ++ 0 :: junk) := by
    rw [List.append_assoc (token.drop n), ← List.append_assoc (token.take n),
      List.take_append_drop]
  obtain ⟨junk', hremove⟩ := removeCharacter_spec before (token.take n) (token.drop n ++ rest) junk
    rfl (List.length_take_of_le hn) hkeep
  refine ⟨junk', ?_⟩
  rw [hsplit, hremove, List.append_assoc]

theorem removeCharacter_trailing (before token junk : List UInt8) {k : Nat} (hk : k ≤ token.length)
    (hrest : (0 : UInt8) ∉ rest) :
    ∃ junk', removeCharacter (before ++ (token ++ (rest ++ 0 :: junk))) (before.length + k)
        (before.length + token.length - (before.length + k)) =
      some (before ++ (token.take k ++ (rest ++ 0 :: junk'))) := by
  have hlength : (before ++ token.take k).length = before.length + k := by
    rw [List.length_append, List.length_take_of_le hk]
  have hgone : (token.drop k).length = before.length + token.length - (before.length + k) := by
    rw [List.length_drop, Nat.add_sub_add_left]
  have hsplit : before ++ (token ++ (rest ++ 0 :: junk)) =
      before ++ token.take k ++ (token.drop k ++ (rest ++ 0 :: junk)) := by
    rw [List.append_assoc, ← List.append_assoc (token.take k), List.take_append_drop]
  obtain ⟨junk', hremove⟩ := removeCharacter_spec (before ++ token.take k) (token.drop k) rest junk
    hlength hgone hrest
  refine ⟨junk', ?_⟩
  rw [hsplit, hremove, List.append_assoc]

end Removal

section Refinement

/-- The buffer has been read as the parse says, up to `rest`. -/
structure Refines (s : Cursor) (p : Parse) (rest : List UInt8) : Prop where
  string_eq : ∃ junk, s.string = stored p.tokens ++ (p.token ++ (rest ++ 0 :: junk))
  start_eq : s.startOfToken = (stored p.tokens).length
  ptr_eq : s.ptr = s.startOfToken + p.token.length
  first_eq : s.firstNonSpace = p.firstNonSpace.map (s.startOfToken + ·)
  end_eq : s.endNonSpace = p.endNonSpace.map (s.startOfToken + ·)
  count_eq : s.count = p.count
  valid_eq : s.validTokens = p.validTokens
  open_eq : s.terminatorFound = false
  free_tokens : ∀ token ∈ p.tokens, (0 : UInt8) ∉ token
  free_token : (0 : UInt8) ∉ p.token
  free_rest : (0 : UInt8) ∉ rest
  first_le : ∀ f ∈ p.firstNonSpace, f ≤ p.token.length
  end_le : ∀ e ∈ p.endNonSpace, e ≤ p.token.length ∧ ∃ f ∈ p.firstNonSpace, f ≤ e

variable {s : Cursor} {p : Parse} {rest : List UInt8}

theorem Refines.char_eq (h : Refines s p rest) : s.string[s.ptr]? = some (rest.headD 0) := by
  obtain ⟨junk, hstring⟩ := h.string_eq
  have hlength : (stored p.tokens ++ p.token).length = s.ptr := by
    rw [List.length_append, h.ptr_eq, h.start_eq]
  rw [hstring, ← List.append_assoc, ← hlength, List.getElem?_append_right (Nat.le_refl _),
    Nat.sub_self]
  cases rest with
  | nil => rfl
  | cons c rest => rfl

theorem removeWhiteSpace_spec (h : Refines s p rest) :
    ∃ s' junk, removeWhiteSpace s = some s' ∧
      s'.string = stored p.tokens ++
        (TextBlock.removeWhiteSpace p.token p.firstNonSpace p.endNonSpace ++ (rest ++ 0 :: junk)) ∧
      s'.ptr = (stored p.tokens).length +
        (TextBlock.removeWhiteSpace p.token p.firstNonSpace p.endNonSpace).length ∧
      s'.count = s.count ∧ s'.validTokens = s.validTokens ∧
      s'.terminatorFound = s.terminatorFound := by
  obtain ⟨junk, hstring⟩ := h.string_eq
  have hptr := h.ptr_eq
  have hstart := h.start_eq
  generalize hn : p.firstNonSpace.getD p.token.length = n
  have hle : n ≤ p.token.length := by
    rw [← hn]
    cases hfirst : p.firstNonSpace with
    | none => exact Nat.le_refl _
    | some f => exact h.first_le f hfirst
  have hspaces : s.firstNonSpace.getD s.ptr - s.startOfToken = n := by
    rw [h.first_eq, hptr, ← hn]
    cases p.firstNonSpace with
    | none => exact Nat.add_sub_cancel_left _ _
    | some f => exact Nat.add_sub_cancel_left _ _
  -- the leading white space goes first
  obtain ⟨junk', hleading⟩ := removeCharacter_leading (stored p.tokens) junk hle h.free_token
    h.free_rest
  rw [← hstring, ← hstart] at hleading
  rw [removeWhiteSpace, hspaces, hleading, Option.bind_some, h.end_eq]
  have hptr' : s.ptr - n = (stored p.tokens).length + (p.token.drop n).length := by
    rw [hptr, hstart, List.length_drop]
    omega
  rcases hend : p.endNonSpace with _ | e
  · refine ⟨_, junk', rfl, ?_, ?_, rfl, rfl, rfl⟩
    · simp only [TextBlock.removeWhiteSpace, hn]
    · simp only [TextBlock.removeWhiteSpace, hn]
      exact hptr'
  · obtain ⟨hee, f, hf, hfe⟩ := h.end_le e hend
    have hne : n ≤ e := by
      rw [← hn, Option.mem_def.1 hf]
      exact hfe
    have he : s.startOfToken + e - n = (stored p.tokens).length + (e - n) := by
      rw [hstart]
      omega
    have htoken : TextBlock.removeWhiteSpace p.token p.firstNonSpace (some e) =
        (p.token.drop n).take (e - n) := by
      simp only [TextBlock.removeWhiteSpace, hn]
    have hk : e - n ≤ (p.token.drop n).length := by
      rw [List.length_drop]
      omega
    simp only [Option.map_some, he, hptr', htoken]
    split_ifs with htrailing
    · -- then what is behind the last character that is kept
      obtain ⟨junk'', htrail⟩ := removeCharacter_trailing (stored p.tokens) (p.token.drop n) junk'
        hk h.free_rest
      rw [htrail, Option.map_some]
      refine ⟨_, junk'', rfl, rfl, ?_, rfl, rfl, rfl⟩
      rw [List.length_take_of_le hk]
    · have hall : (p.token.drop n).take (e - n) = p.token.drop n := by
        refine List.take_of_length_le ?_
        omega
      rw [hall]
      exact ⟨_, junk', rfl, rfl, rfl, rfl, rfl, rfl⟩

theorem stored_cons (token : List UInt8) (tokens : List (List UInt8)) (more : List UInt8) :
    stored (token :: tokens) ++ more = token ++ 0 :: (stored tokens ++ more) := by
  rw [stored, List.flatMap_cons, List.append_assoc, List.append_assoc]
  rfl

theorem stored_append (tokens : List (List UInt8)) (token : List UInt8) :
    stored (tokens ++ [token]) = stored tokens ++ (token ++ [0]) := by
  rw [stored, List.flatMap_append]
  exact congrArg (stored tokens ++ ·) (List.append_nil _)

theorem zero_notMem_removeWhiteSpace {token : List UInt8} (h : (0 : UInt8) ∉ token)
    (first last : Option Nat) : (0 : UInt8) ∉ TextBlock.removeWhiteSpace token first last := by
  intro hmem
  cases last with
  | none => exact h (List.mem_of_mem_drop hmem)
  | some last => exact h (List.mem_of_mem_drop (List.mem_of_mem_take hmem))

theorem free_endToken (h : Refines s p rest) (place : Place) :
    ∀ token ∈ (p.endToken place).tokens, (0 : UInt8) ∉ token := by
  intro token hmem
  rcases List.mem_append.1 hmem with hold | hnew
  · exact h.free_tokens token hold
  · rw [List.mem_singleton.1 hnew]
    exact zero_notMem_removeWhiteSpace h.free_token _ _

/-- A token is finished where its delimiter or the terminator is. -/
theorem finalize_spec {c : UInt8} (h : Refines s p (c :: rest)) (place : Place) :
    ∃ s' junk, finalize s = some s' ∧
      s'.string = stored (p.endToken place).tokens ++ (rest ++ 0 :: junk) ∧
      s'.ptr = (stored (p.endToken place).tokens).length ∧ s'.count = (p.endToken place).count ∧
      s'.validTokens = p.validTokens ∧ s'.terminatorFound = false := by
  obtain ⟨s', junk, hremove, hstring, hptr, hcount, hvalid, hopen⟩ := removeWhiteSpace_spec h
  have htokens : (p.endToken place).tokens = p.tokens ++
      [TextBlock.removeWhiteSpace p.token p.firstNonSpace p.endNonSpace] := rfl
  have hpoke : poke s'.string s'.ptr 0 =
      some (stored (p.endToken place).tokens ++ (rest ++ 0 :: junk)) := by
    rw [hstring, htokens, stored_append, ← List.append_assoc, hptr, List.cons_append,
      poke_append (List.length_append)]
    simp only [List.append_assoc, List.cons_append, List.nil_append]
  rw [finalize, hremove, Option.bind_some, hpoke, Option.map_some]
  refine ⟨_, junk, rfl, rfl, ?_, ?_, ?_, ?_⟩
  · rw [htokens, stored_append, hptr, List.length_append, List.length_append, List.length_singleton]
    rfl
  · rw [hcount, h.count_eq]
    rfl
  · rw [hvalid, h.valid_eq]
  · rw [hopen, h.open_eq]

theorem remove_spec {c : UInt8} (h : Refines s p (c :: rest)) :
    ∃ string junk, removeCharacter s.string s.ptr 1 = some string ∧
      string = stored p.tokens ++ (p.token ++ (rest ++ 0 :: junk)) := by
  obtain ⟨junk, hstring⟩ := h.string_eq
  have hfree : (0 : UInt8) ∉ rest := fun hmem => h.free_rest (List.mem_cons_of_mem _ hmem)
  obtain ⟨junk', hremove⟩ := removeCharacter_spec (stored p.tokens ++ p.token) [c] rest junk
    (show _ = s.ptr by rw [List.length_append, h.ptr_eq, h.start_eq]) rfl hfree
  have hsplit : stored p.tokens ++ p.token ++ ([c] ++ (rest ++ 0 :: junk)) = s.string := by
    rw [hstring, List.append_assoc]
    rfl
  rw [hsplit] at hremove
  exact ⟨_, junk', hremove, List.append_assoc _ _ _⟩

theorem Refines.tail_free {c : UInt8} (h : Refines s p (c :: rest)) :
    c ≠ 0 ∧ (0 : UInt8) ∉ rest := by
  have hfree := h.free_rest
  rw [List.mem_cons, not_or] at hfree
  exact ⟨Ne.symm hfree.1, hfree.2⟩

/-- The character at `m_ptr` becomes part of the token. -/
theorem Refines.keep {c : UInt8} (h : Refines s p (c :: rest)) (place : Place) :
    Refines { s with ptr := s.ptr + 1 } { p with token := p.token ++ [c], place := place } rest := by
  obtain ⟨junk, hstring⟩ := h.string_eq
  obtain ⟨hc, hrest⟩ := h.tail_free
  refine { h with
    string_eq := ⟨junk, ?_⟩
    ptr_eq := ?_
    free_token := ?_
    free_rest := hrest
    first_le := ?_
    end_le := ?_ }
  · rw [hstring]
    simp only [List.append_assoc, List.cons_append, List.nil_append]
  · show s.ptr + 1 = s.startOfToken + (p.token ++ [c]).length
    rw [h.ptr_eq, List.length_append, List.length_singleton, Nat.add_assoc]
  · show (0 : UInt8) ∉ p.token ++ [c]
    rw [List.mem_append, not_or, List.mem_singleton]
    exact ⟨h.free_token, Ne.symm hc⟩
  · intro f hf
    show f ≤ (p.token ++ [c]).length
    rw [List.length_append]
    exact Nat.le_add_right_of_le (h.first_le f hf)
  · intro e he
    obtain ⟨hle, hfirst⟩ := h.end_le e he
    refine ⟨?_, hfirst⟩
    show e ≤ (p.token ++ [c]).length
    rw [List.length_append]
    exact Nat.le_add_right_of_le hle

theorem Refines.openQuote {c : UInt8} (h : Refines s p (c :: rest)) {string junk : List UInt8}
    (hstring : string = stored p.tokens ++ (p.token ++ (rest ++ 0 :: junk))) :
    Refines
      { s with
        string := string
        validTokens := false
        firstNonSpace := some (s.firstNonSpace.getD s.ptr) }
      { p with
        firstNonSpace := some (p.firstNonSpace.getD p.token.length)
        validTokens := false
        place := .quoted } rest := by
  refine { h with
    string_eq := ⟨junk, hstring⟩
    first_eq := ?_
    valid_eq := rfl
    free_rest := h.tail_free.2
    first_le := ?_
    end_le := ?_ }
  · show some (s.firstNonSpace.getD s.ptr) =
      some (s.startOfToken + p.firstNonSpace.getD p.token.length)
    rw [h.first_eq, h.ptr_eq]
    cases p.firstNonSpace with
    | none => rfl
    | some f => rfl
  · intro f hf
    show f ≤ p.token.length
    obtain rfl := Option.some.inj hf
    cases hfirst : p.firstNonSpace with
    | none => exact Nat.le_refl _
    | some f => exact h.first_le f hfirst
  · intro e he
    obtain ⟨hle, f, hf, hfe⟩ := h.end_le e he
    refine ⟨hle, f, ?_, hfe⟩
    rw [Option.mem_def.1 hf]
    rfl

theorem Refines.closeQuote {c : UInt8} (h : Refines s p (c :: rest)) {string junk : List UInt8}
    (hstring : string = stored p.tokens ++ (p.token ++ (rest ++ 0 :: junk)))
    (hfirst : p.firstNonSpace.isSome) :
    Refines { s with string := string, endNonSpace := some s.ptr, validTokens := true }
      { p with endNonSpace := some p.token.length, validTokens := true, place := .plain } rest := by
  refine { h with
    string_eq := ⟨junk, hstring⟩
    end_eq := ?_
    valid_eq := rfl
    free_rest := h.tail_free.2
    end_le := ?_ }
  · exact congrArg some h.ptr_eq
  · intro e he
    obtain rfl := Option.some.inj he
    obtain ⟨f, hf⟩ := Option.isSome_iff_exists.1 hfirst
    exact ⟨Nat.le_refl _, f, hf, h.first_le f hf⟩

/-- Two places of the run of the tokenizer from which it goes on alike. -/
structure Leads (marks : Marks) (p : Parse) (rest : List UInt8) (p' : Parse) (rest' : List UInt8) :
    Prop where
  foldl_eq : rest.foldl (Parse.next marks) p = rest'.foldl (Parse.next marks) p'
  remaining_eq : remaining marks p rest = remaining marks p' rest'

variable {marks : Marks}

theorem leads_refl (p : Parse) (rest : List UInt8) : Leads marks p rest p rest :=
  ⟨rfl, rfl⟩

theorem leads_cons {c : UInt8} {p' p'' : Parse} {rest' : List UInt8}
    (hnext : p.next marks c = p') (hplace : p'.place ≠ .terminated)
    (h : Leads marks p' rest p'' rest') : Leads marks p (c :: rest) p'' rest' := by
  constructor
  · rw [List.foldl_cons, hnext, h.foldl_eq]
  · rw [remaining, hnext, if_neg hplace, h.remaining_eq]

/-- The end of the string, or the outer loop. -/
def AtEnd (p : Parse) (rest : List UInt8) : Prop :=
  p.place = .plain ∨ rest = [] ∧ (p.place = .quoted ∨ p.place = .escaping)

theorem textString_spec (marks : Marks) (fuel : Nat) {rest : List UInt8} {s : Cursor}
    {p : Parse} (h : Refines s p rest) (escaping : Bool)
    (hplace : p.place = if escaping then .escaping else .quoted)
    (hfirst : p.firstNonSpace.isSome) (hfuel : rest.length < fuel) :
    ∃ s' p' rest', textString marks fuel escaping s = some s' ∧ Refines s' p' rest' ∧
      Leads marks p rest p' rest' ∧ rest'.length ≤ rest.length ∧ AtEnd p' rest' := by
  induction fuel generalizing rest s p escaping with
  | zero => omega
  | succ fuel ih =>
      rw [textString, h.char_eq, Option.bind_some]
      cases rest with
      | nil =>
          refine ⟨s, p, [], if_pos rfl, h, leads_refl p [], Nat.le_refl _, .inr ⟨rfl, ?_⟩⟩
          cases escaping with
          | false => exact .inl hplace
          | true => exact .inr hplace
      | cons c rest =>
          rw [List.length_cons] at hfuel
          rw [List.headD_cons, if_neg h.tail_free.1]
          cases escaping with
          | true =>
              rw [if_pos rfl]
              have hnext : p.next marks c =
                  { p with token := p.token ++ [c], place := .quoted } := by
                have hescaping : p.place = .escaping := hplace
                simp only [Parse.next, hescaping]
              obtain ⟨s', p', rest', heq, hrefines, hleads, hle, hend⟩ :=
                ih (h.keep .quoted) false rfl hfirst (by omega)
              exact ⟨s', p', rest', heq, hrefines, leads_cons hnext (by rintro ⟨⟩) hleads,
                Nat.le_succ_of_le hle, hend⟩
          | false =>
              have hquoted : p.place = .quoted := hplace
              rw [if_neg Bool.false_ne_true]
              obtain ⟨string, junk, hremove, hstring⟩ := remove_spec h
              rcases eq_or_ne c marks.quote with rfl | hq
              · rw [if_pos rfl, hremove, Option.map_some]
                have hnext : p.next marks marks.quote =
                    { p with endNonSpace := some p.token.length, validTokens := true
                             place := .plain } := by
                  simp only [Parse.next, hquoted, if_true]
                exact ⟨_, _, rest, rfl, h.closeQuote hstring hfirst,
                  leads_cons hnext (by rintro ⟨⟩) (leads_refl _ _), Nat.le_succ _, .inl rfl⟩
              rw [if_neg hq]
              rcases eq_or_ne c marks.escape with rfl | he
              · rw [if_pos rfl, hremove, Option.bind_some]
                have hnext : p.next marks marks.escape = { p with place := .escaping } := by
                  simp only [Parse.next, hquoted]
                  rw [if_neg hq, if_true]
                have hrefines : Refines { s with string := string } { p with place := .escaping }
                    rest :=
                  { h with string_eq := ⟨junk, hstring⟩, free_rest := h.tail_free.2 }
                obtain ⟨s', p', rest', heq, hrefines', hleads, hle, hend⟩ :=
                  ih hrefines true rfl hfirst (by omega)
                exact ⟨s', p', rest', heq, hrefines', leads_cons hnext (by rintro ⟨⟩) hleads,
                  Nat.le_succ_of_le hle, hend⟩
              · rw [if_neg he]
                have hnext : p.next marks c =
                    { p with token := p.token ++ [c], place := .quoted } := by
                  simp only [Parse.next, hquoted]
                  rw [if_neg hq, if_neg he]
                obtain ⟨s', p', rest', heq, hrefines, hleads, hle, hend⟩ :=
                  ih (h.keep .quoted) false rfl hfirst (by omega)
                exact ⟨s', p', rest', heq, hrefines, leads_cons hnext (by rintro ⟨⟩) hleads,
                  Nat.le_succ_of_le hle, hend⟩

theorem Refines.normalCharacter {c : UInt8} (h : Refines s p (c :: rest)) :
    Refines (TextBlockBuffer.normalCharacter s c) (p.normalCharacter c) rest := by
  have hkeep := h.keep .plain
  have hptr := h.ptr_eq
  rw [TextBlockBuffer.normalCharacter, Parse.normalCharacter]
  cases hc : isspace c with
  | true => exact hkeep
  | false =>
      rw [if_neg Bool.false_ne_true, if_neg Bool.false_ne_true]
      have hlength : (p.token ++ [c]).length = p.token.length + 1 := by
        rw [List.length_append, List.length_singleton]
      have hend : some (s.ptr + 1) = (some (p.token.length + 1)).map (s.startOfToken + ·) := by
        rw [hptr]
        rfl
      rcases hfirst : p.firstNonSpace with _ | f
      · have hfirst' : s.firstNonSpace = none := by rw [h.first_eq, hfirst]; rfl
        simp only [hfirst']
        refine { hkeep with
          first_eq := congrArg some hptr
          end_eq := hend
          first_le := ?_
          end_le := ?_ }
        · intro f hf
          obtain rfl := Option.some.inj hf
          show p.token.length ≤ (p.token ++ [c]).length
          omega
        · intro e he
          obtain rfl := Option.some.inj he
          refine ⟨?_, p.token.length, rfl, Nat.le_succ _⟩
          show p.token.length + 1 ≤ (p.token ++ [c]).length
          omega
      · have hfirst' : s.firstNonSpace = some (s.startOfToken + f) := by
          rw [h.first_eq, hfirst]
          rfl
        rcases hlast : p.endNonSpace with _ | e
        · have hlast' : s.endNonSpace = none := by rw [h.end_eq, hlast]; rfl
          simp only [hfirst, hlast, hfirst', hlast'] at hkeep ⊢
          exact hkeep
        · have hlast' : s.endNonSpace = some (s.startOfToken + e) := by rw [h.end_eq, hlast]; rfl
          simp only [hfirst, hfirst', hlast'] at hkeep ⊢
          refine { hkeep with
            end_eq := hend
            end_le := ?_ }
          intro e' he
          obtain rfl := Option.some.inj he
          refine ⟨?_, f, rfl, ?_⟩
          · show p.token.length + 1 ≤ (p.token ++ [c]).length
            omega
          · exact Nat.le_succ_of_le (h.first_le f hfirst)

/-- The buffer holds what the parse has found. -/
structure Done (s : Cursor) (q : Parse) (rem : Option (List UInt8)) : Prop where
  string_eq : ∃ more, s.string = stored q.tokens ++ more
  free_tokens : ∀ token ∈ q.tokens, (0 : UInt8) ∉ token
  count_eq : s.count = q.count
  valid_eq : s.validTokens = q.validTokens
  terminated_eq : s.terminatorFound = rem.isSome
  remaining_eq : ∀ r, rem = some r → s.remaining = r

theorem done_finish (h : Refines s p []) (place : Place) :
    ∃ s', removeWhiteSpace { s with count := s.count + 1 } = some s' ∧
      Done s' (p.endToken place) none := by
  have hcounted : Refines { s with count := s.count + 1 } { p with count := p.count + 1 } [] :=
    { h with count_eq := congrArg (· + 1) h.count_eq }
  obtain ⟨s', junk, hremove, hstring, -, hcount, hvalid, hopen⟩ := removeWhiteSpace_spec hcounted
  refine ⟨s', hremove, ⟨junk, ?_⟩, free_endToken h place, ?_, ?_, ?_, ?_⟩
  · have htokens : (p.endToken place).tokens = p.tokens ++
        [TextBlock.removeWhiteSpace p.token p.firstNonSpace p.endNonSpace] := rfl
    rw [hstring, htokens, stored_append]
    simp only [List.append_assoc, List.nil_append, List.cons_append]
  · rw [hcount]
    exact congrArg (· + 1) h.count_eq
  · rw [hvalid]
    exact h.valid_eq
  · rw [hopen]
    exact h.open_eq
  · intro r hr
    cases hr

theorem done_terminator {c : UInt8} (h : Refines s p (c :: rest)) (place : Place) :
    ∃ s', (finalize s).map (fun s => { s with terminatorFound := true }) = some s' ∧
      Done s' (p.endToken place) (some rest) := by
  obtain ⟨s', junk, hfinal, hstring, hptr, hcount, hvalid, -⟩ := finalize_spec h place
  rw [hfinal, Option.map_some]
  refine ⟨_, rfl, ⟨_, hstring⟩, free_endToken h place, hcount, hvalid, rfl, ?_⟩
  intro r hr
  obtain rfl := Option.some.inj hr
  show text (s'.string.drop s'.ptr) = rest
  rw [hstring, hptr, List.drop_left]
  exact (holds_append h.tail_free.2).text_eq

theorem refines_start {q : Parse} {junk : List UInt8} (hq : ∃ place, q = p.endToken place)
    (hold : Refines s p rest) {s' : Cursor} {rest' : List UInt8} (hrest : (0 : UInt8) ∉ rest')
    (hstring : s'.string = stored q.tokens ++ (rest' ++ 0 :: junk))
    (hptr : s'.ptr = (stored q.tokens).length) (hvalid : s'.validTokens = p.validTokens)
    (hopen : s'.terminatorFound = false) :
    Refines { s' with firstNonSpace := none, endNonSpace := none, startOfToken := s'.ptr }
      { q with count := s'.count } rest' := by
  obtain ⟨place, rfl⟩ := hq
  exact
    { string_eq := ⟨junk, hstring⟩
      start_eq := hptr
      ptr_eq := rfl
      first_eq := rfl
      end_eq := rfl
      count_eq := rfl
      valid_eq := hvalid
      open_eq := hopen
      free_tokens := free_endToken hold place
      free_token := List.not_mem_nil
      free_rest := hrest
      first_le := fun f hf => by cases hf
      end_le := fun e he => by cases he }

theorem takeWhile_isspace (rest junk : List UInt8) :
    (rest ++ 0 :: junk).takeWhile isspace = rest.takeWhile isspace := by
  induction rest with
  | nil => rfl
  | cons c rest ih => rw [List.cons_append, List.takeWhile_cons, List.takeWhile_cons, ih]

/-- Behind a delimiting space the other spaces are taken out at once. -/
theorem stripLeading_spec (marks : Marks) {junk before : List UInt8}
    (hstring : s.string = before ++ (rest ++ 0 :: junk)) (hptr : s.ptr = before.length)
    (hrest : (0 : UInt8) ∉ rest) :
    ∃ s' junk', stripLeading marks s = some s' ∧
      s'.string = before ++ (rest.dropWhile isspace ++ 0 :: junk') ∧ s'.ptr = s.ptr ∧
      s'.validTokens = s.validTokens ∧ s'.terminatorFound = s.terminatorFound ∧
      s'.count =
        if (rest.dropWhile isspace).headD 0 = 0 ∨
            (rest.dropWhile isspace).headD 0 = marks.terminator then s.count - 1
        else s.count := by
  have hsplit : s.string = before ++
      (rest.takeWhile isspace ++ (rest.dropWhile isspace ++ 0 :: junk)) := by
    rw [hstring, ← List.append_assoc (rest.takeWhile isspace), List.takeWhile_append_dropWhile]
  have hspaces : (s.string.drop s.ptr).takeWhile isspace = rest.takeWhile isspace := by
    rw [hstring, hptr, List.drop_left]
    exact takeWhile_isspace rest junk
  have hfree : (0 : UInt8) ∉ rest.dropWhile isspace := fun hmem =>
    hrest ((List.dropWhile_sublist isspace).mem hmem)
  have hchar : s.string[s.ptr + (rest.takeWhile isspace).length]? =
      some ((rest.dropWhile isspace).headD 0) := by
    have hlength : (before ++ rest.takeWhile isspace).length =
        s.ptr + (rest.takeWhile isspace).length := by
      rw [List.length_append, hptr]
    rw [hsplit, ← List.append_assoc, ← hlength, List.getElem?_append_right (Nat.le_refl _),
      Nat.sub_self]
    cases rest.dropWhile isspace with
    | nil => rfl
    | cons c cs => rfl
  obtain ⟨junk', hremove⟩ := removeCharacter_spec before (rest.takeWhile isspace)
    (rest.dropWhile isspace) junk hptr.symm rfl hfree
  rw [← hsplit] at hremove
  rw [stripLeading, hspaces, hchar, Option.bind_some, hremove, Option.map_some]
  exact ⟨_, junk', rfl, rfl, rfl, rfl, rfl, rfl⟩

/-- The parse skips the spaces one by one. -/
theorem foldl_skipping (marks : Marks) {q : Parse} (hq : q.place = .skipping)
    (hrest : (0 : UInt8) ∉ rest) :
    let rest' := rest.dropWhile isspace
    let q' := { q with
      count := if rest'.headD 0 = 0 ∨ rest'.headD 0 = marks.terminator then q.count - 1 else q.count
      place := .plain }
    (rest.foldl (Parse.next marks) q).finish = (rest'.foldl (Parse.next marks) q').finish ∧
      remaining marks q rest = remaining marks q' rest' := by
  induction rest with
  | nil =>
      refine ⟨?_, rfl⟩
      simp only [List.foldl_nil, List.dropWhile_nil, Parse.finish, hq, List.headD_nil, true_or,
        if_true]
      rfl
  | cons c rest ih =>
      rw [List.mem_cons, not_or] at hrest
      cases hc : isspace c with
      | true =>
          have hnext : q.next marks c = q := by simp only [Parse.next, hq, hc, if_true]
          rw [List.dropWhile_cons_of_pos hc, List.foldl_cons, hnext, remaining, hnext,
            if_neg (by rw [hq]; rintro ⟨⟩)]
          exact ih hrest.2
      | false =>
          rw [List.dropWhile_cons_of_neg (by rw [hc]; exact Bool.false_ne_true)]
          have hnext : q.next marks c = Parse.next marks
              { q with
                count := if c = 0 ∨ c = marks.terminator then q.count - 1 else q.count
                place := .plain } c := by
            rcases eq_or_ne c marks.terminator with rfl | ht
            · simp only [Parse.next, hq, hc, Bool.false_eq_true, if_false, or_true, if_true,
                Parse.outside]
              rfl
            · simp only [Parse.next, hq, hc, Bool.false_eq_true, if_false, ht, or_false,
                Ne.symm hrest.1, Parse.outside]
              rfl
          simp only [List.headD_cons, List.foldl_cons, remaining, hnext]
          exact ⟨rfl, rfl⟩

theorem next_delimiter (hplain : p.place = .plain) (hdt : marks.delimiter ≠ marks.terminator) :
    p.next marks marks.delimiter =
      p.endToken (if marks.delimiter = 32 then .skipping else .plain) := by
  simp only [Parse.next, hplain, Parse.outside]
  rw [if_neg hdt, if_true]

/-- A delimiter ends a token, and the next one starts behind it. -/
theorem delimiter_spec (h : Refines s p (marks.delimiter :: rest)) (hplain : p.place = .plain)
    (hdt : marks.delimiter ≠ marks.terminator) :
    ∃ s' p' rest', ((finalize s).bind fun s =>
        if marks.delimiter = 32 then stripLeading marks s else some s) = some s' ∧
      Refines { s' with firstNonSpace := none, endNonSpace := none, startOfToken := s'.ptr }
        p' rest' ∧ p'.place = .plain ∧ rest'.length ≤ rest.length ∧
      ((marks.delimiter :: rest).foldl (Parse.next marks) p).finish =
        (rest'.foldl (Parse.next marks) p').finish ∧
      remaining marks p (marks.delimiter :: rest) = remaining marks p' rest' := by
  obtain ⟨s', junk, hfinal, hstring, hptr, hcount, hvalid, hopen⟩ := finalize_spec h .plain
  have hnext := next_delimiter hplain hdt
  have hfree := h.tail_free.2
  rw [hfinal, Option.bind_some, List.foldl_cons, remaining, hnext]
  split_ifs with hspace hplace hplace
  · cases hplace
  · obtain ⟨s'', junk', hstrip, hstring', hptr', hvalid', hopen', hcount'⟩ :=
      stripLeading_spec marks hstring hptr hfree
    have hskip := foldl_skipping marks (show (p.endToken .skipping).place = .skipping from rfl) hfree
    refine ⟨s'', { p.endToken .plain with count := s''.count }, rest.dropWhile isspace, hstrip,
      refines_start ⟨.plain, rfl⟩ h
        (fun hmem => hfree ((List.dropWhile_sublist isspace).mem hmem)) hstring'
        (hptr'.trans hptr) (hvalid'.trans hvalid) (hopen'.trans hopen),
      rfl, (List.dropWhile_sublist isspace).length_le, ?_, ?_⟩
    · rw [hcount', hcount]
      exact hskip.1
    · rw [hcount', hcount]
      exact hskip.2
  · cases hplace
  · refine ⟨s', { p.endToken .plain with count := s'.count }, rest, rfl,
      refines_start ⟨.plain, rfl⟩ h hfree hstring hptr hvalid hopen, rfl, Nat.le_refl _, ?_, ?_⟩
    · rw [hcount]
    · rw [hcount]

theorem next_quote (hplain : p.place = .plain) (hqt : marks.quote ≠ marks.terminator)
    (hqd : marks.quote ≠ marks.delimiter) :
    p.next marks marks.quote =
      { p with
        firstNonSpace := some (p.firstNonSpace.getD p.token.length)
        validTokens := false
        place := .quoted } := by
  simp only [Parse.next, hplain, Parse.outside]
  rw [if_neg hqt, if_neg hqd, if_true]

theorem parseString_spec (marks : Marks) (fuel : Nat) {rest : List UInt8} {s : Cursor}
    {p : Parse} (h : Refines s p rest) (hend : AtEnd p rest) (hfuel : rest.length < fuel) :
    ∃ s', parseString marks fuel s = some s' ∧
      Done s' (rest.foldl (Parse.next marks) p).finish (remaining marks p rest) := by
  induction fuel generalizing rest s p with
  | zero => omega
  | succ fuel ih =>
      rw [parseString, h.char_eq, Option.bind_some]
      cases rest with
      | nil =>
          have hfinish : p.finish = p.endToken .terminated := by
            rcases hend with hplain | ⟨-, hquoted | hescaping⟩
            · simp only [Parse.finish, hplain]
            · simp only [Parse.finish, hquoted]
            · simp only [Parse.finish, hescaping]
          rw [List.headD_nil, if_pos rfl, List.foldl_nil, hfinish]
          exact done_finish h .terminated
      | cons c rest =>
          have hplain : p.place = .plain := by
            rcases hend with hplain | ⟨hnil, -⟩
            · exact hplain
            · cases hnil
          have hfree := h.tail_free
          rw [List.length_cons] at hfuel
          rw [List.headD_cons, if_neg hfree.1]
          rcases eq_or_ne c marks.terminator with rfl | ht
          · have hnext : p.next marks marks.terminator = p.endToken .terminated := by
              simp only [Parse.next, hplain, Parse.outside, if_true]
            rw [if_pos rfl, List.foldl_cons, hnext, foldl_terminated rfl, remaining, hnext,
              if_pos (show (p.endToken .terminated).place = .terminated from rfl)]
            exact done_terminator h .terminated
          rw [if_neg ht]
          rcases eq_or_ne c marks.delimiter with rfl | hd
          · obtain ⟨s', p', rest', hstep, hrefines, hplain', hle, hfold, hremaining⟩ :=
              delimiter_spec h hplain ht
            obtain ⟨s'', hparse, hdone⟩ := ih hrefines (.inl hplain') (by omega)
            refine ⟨s'', ?_, ?_⟩
            · rw [if_pos rfl, ← Option.bind_assoc, hstep]
              exact hparse
            · rw [hfold, hremaining]
              exact hdone
          rw [if_neg hd]
          rcases eq_or_ne c marks.quote with rfl | hq
          · obtain ⟨string, junk, hremove, hstring⟩ := remove_spec h
            obtain ⟨s', p', rest', htext, hrefines, hleads, hle, hend'⟩ :=
              textString_spec marks fuel (h.openQuote hstring) false rfl rfl (by omega)
            obtain ⟨s'', hparse, hdone⟩ := ih hrefines hend' (by omega)
            have hleads' := leads_cons (next_quote hplain ht hd) (by rintro ⟨⟩) hleads
            refine ⟨s'', ?_, ?_⟩
            · rw [if_pos rfl, hremove, Option.bind_some, htext]
              exact hparse
            · rw [hleads'.foldl_eq, hleads'.remaining_eq]
              exact hdone
          · have hnext : p.next marks c = p.normalCharacter c := by
              simp only [Parse.next, hplain, Parse.outside]
              rw [if_neg ht, if_neg hd, if_neg hq]
            have hplain' : (p.normalCharacter c).place = .plain := by
              rw [Parse.normalCharacter]
              split
              · rfl
              · split <;> rfl
            rw [if_neg hq, List.foldl_cons, hnext, remaining, hnext,
              if_neg (by rw [hplain']; rintro ⟨⟩)]
            exact ih h.normalCharacter (.inl hplain') (by omega)

end Refinement

section Tokens

variable {marks : Marks}

theorem skipTokens_spec (i : Nat) (before after : List (List UInt8)) (more : List UInt8)
    (hfree : ∀ token ∈ after, (0 : UInt8) ∉ token) :
    i < after.length → some (text ((stored before ++ (stored after ++ more)).drop
      (Cursor.skipTokens (stored before ++ (stored after ++ more)) i (stored before).length))) =
        after[i]? := by
  induction i generalizing before after with
  | zero =>
      intro hi
      cases after with
      | nil => cases hi
      | cons token after =>
          have hholds : Holds (token ++ 0 :: (stored after ++ more)) token :=
            holds_append (hfree token List.mem_cons_self)
          rw [Cursor.skipTokens, List.drop_left, stored_cons, hholds.text_eq]
          rfl
  | succ i ih =>
      intro hi
      cases after with
      | nil => cases hi
      | cons token after =>
          rw [List.forall_mem_cons] at hfree
          have hholds : Holds (token ++ 0 :: (stored after ++ more)) token := holds_append hfree.1
          have hsplit : stored before ++ (stored (token :: after) ++ more) =
              stored (before ++ [token]) ++ (stored after ++ more) := by
            rw [stored_cons, stored_append]
            simp only [List.append_assoc, List.cons_append, List.nil_append]
          have hlength : (stored before).length + token.length + 1 =
              (stored (before ++ [token])).length := by
            rw [stored_append, List.length_append, List.length_append, List.length_singleton,
              Nat.add_assoc]
          rw [Cursor.skipTokens, List.drop_left, stored_cons, hholds.strlen_eq, hlength,
            ← stored_cons, hsplit, List.getElem?_cons_succ]
          exact ih (before ++ [token]) after hfree.2 (Nat.lt_of_succ_lt_succ hi)

/-- What a tokenizer with valid tokens returns. -/
def Cursor.Yields (s : Cursor) (parameters : List (List UInt8)) (rem : Option (List UInt8)) :
    Prop :=
  s.numParameters = parameters.length ∧ (∀ i, s.getParameter i = parameters[i]?) ∧
    s.terminatorFound = rem.isSome ∧ ∀ r, rem = some r → s.remaining = r

theorem yields_of_done {s : Cursor} {q : Parse} {rem : Option (List UInt8)} (h : Done s q rem)
    (hvalid : q.validTokens = true) (hcount : q.count ≤ q.tokens.length) :
    s.Yields (q.tokens.take q.count) rem := by
  refine ⟨?_, ?_, h.terminated_eq, h.remaining_eq⟩
  · rw [Cursor.numParameters, h.count_eq, List.length_take, Nat.min_eq_left hcount]
  · intro i
    obtain ⟨more, hstring⟩ := h.string_eq
    rw [Cursor.getParameter, h.valid_eq, hvalid, h.count_eq]
    rcases Nat.lt_or_ge i q.count with hlt | hge
    · have hindex : ¬ (true = false ∨ i ≥ q.count) := by
        rintro (htrue | hge)
        · cases htrue
        · omega
      rw [if_neg hindex, hstring, List.getElem?_take_of_lt hlt]
      exact skipTokens_spec i [] q.tokens more h.free_tokens (by omega)
    · rw [if_pos (.inr hge)]
      refine (List.getElem?_eq_none ?_).symm
      rw [List.length_take]
      omega

theorem dropWhile_isspace (string junk : List UInt8) :
    (string ++ 0 :: junk).dropWhile isspace = string.dropWhile isspace ++ 0 :: junk := by
  induction string with
  | nil => rfl
  | cons c string ih =>
      rw [List.cons_append, List.dropWhile_cons, List.dropWhile_cons, ih]
      split_ifs
      · rfl
      · rfl

/-- The tokenizer in its buffer finds what the parse of the string finds. -/
theorem textBlock_done (marks : Marks) (string junk : List UInt8) (hstring : (0 : UInt8) ∉ string) :
    ∃ s, textBlock marks (string ++ 0 :: junk) = some s ∧
      Done s (TextBlock.textBlock marks string)
        (remaining marks .initial (string.dropWhile isspace)) := by
  have hfree : (0 : UInt8) ∉ string.dropWhile isspace := fun hmem =>
    hstring ((List.dropWhile_sublist isspace).mem hmem)
  rw [textBlock, TextBlock.textBlock, dropWhile_isspace]
  cases hrest : string.dropWhile isspace with
  | nil =>
      refine ⟨_, rfl, ⟨0 :: junk, rfl⟩, ?_, rfl, rfl, rfl, ?_⟩
      · intro token hmem
        cases hmem
      · intro r hr
        cases hr
  | cons c rest =>
      rw [hrest] at hfree
      have hc : c ≠ 0 := fun heq => hfree (heq ▸ List.mem_cons_self)
      have hrefines : Refines
          { string := c :: rest ++ 0 :: junk, ptr := 0, validTokens := true
            terminatorFound := false, count := 0, startOfToken := 0, firstNonSpace := none
            endNonSpace := none } .initial (c :: rest) :=
        { string_eq := ⟨junk, rfl⟩
          start_eq := rfl
          ptr_eq := rfl
          first_eq := rfl
          end_eq := rfl
          count_eq := rfl
          valid_eq := rfl
          open_eq := rfl
          free_tokens := fun token hmem => by cases hmem
          free_token := List.not_mem_nil
          free_rest := hfree
          first_le := fun f hf => by cases hf
          end_le := fun e he => by cases he }
      obtain ⟨s, hparse, hdone⟩ := parseString_spec marks (c :: rest ++ 0 :: junk).length hrefines
        (.inl rfl) (by rw [List.length_append, List.length_cons, List.length_cons]; omega)
      refine ⟨s, ?_, hdone⟩
      rw [List.cons_append, List.getElem?_cons_zero, Option.bind_some, if_neg hc]
      exact hparse

/-- The tokenizer is the parser of the grammar, up to the parameters of a blank text. -/
theorem textBlock_parses (marks : Marks) (h : Distinguishable marks) (string junk : List UInt8)
    (hstring : (0 : UInt8) ∉ string) :
    ∃ s, textBlock marks (string ++ 0 :: junk) = some s ∧
      s.validTokens = (outside marks string).isSome ∧
      ∀ b, outside marks string = some b →
        s.Yields (givenParameters marks string b) b.remaining := by
  obtain ⟨s, htext, hdone⟩ := textBlock_done marks string junk hstring
  obtain ⟨hvalid, hblock⟩ := textBlock_spec h string
  refine ⟨s, htext, hdone.valid_eq.trans hvalid, ?_⟩
  intro b hb
  obtain ⟨htokens, hremaining⟩ := hblock b hb
  rw [← htokens, ← hremaining]
  rw [hb] at hvalid
  exact yields_of_done hdone hvalid (Parse.count_le_tokens marks string)

/-- Spaces around a text string, an escaped quote in it, and text behind the terminator. -/
theorem textBlock_parses_text_string :
    ∃ s, textBlock ⟨44, 59, 34, 92⟩ [97, 32, 44, 32, 34, 32, 92, 34, 34, 59, 120, 0] = some s ∧
      s.validTokens = true ∧ s.Yields [[97], [32, 34]] (some [120]) := by
  have hproper : Distinguishable ⟨44, 59, 34, 92⟩ :=
    ⟨by decide, .inl (by decide), by decide, by decide, by decide⟩
  obtain ⟨s, htext, hvalid, hyields⟩ := textBlock_parses ⟨44, 59, 34, 92⟩ hproper
    [97, 32, 44, 32, 34, 32, 92, 34, 34, 59, 120] [] (by decide)
  have hblock : outside ⟨44, 59, 34, 92⟩ [97, 32, 44, 32, 34, 32, 92, 34, 34, 59, 120] =
      some { first := [.plain 97, .plain 32], others := [[.plain 32, .text [32, 34]]]
             remaining := some [120] } := rfl
  rw [hblock] at hvalid
  exact ⟨s, htext, hvalid, hyields _ hblock⟩

/-- A terminator with nothing in front of it but a space makes an empty parameter, although the
delimiter is a space. -/
theorem textBlock_blank_parameter :
    ¬ ∀ (marks : Marks) (string junk : List UInt8), Distinguishable marks → (0 : UInt8) ∉ string →
      ∃ s, textBlock marks (string ++ 0 :: junk) = some s ∧
        s.validTokens = (outside marks string).isSome ∧
        ∀ b, outside marks string = some b → s.Yields (b.parameters marks) b.remaining := by
  intro hall
  have hproper : Distinguishable ⟨32, 59, 34, 92⟩ :=
    ⟨by decide, .inr rfl, by decide, by decide, by decide⟩
  obtain ⟨s, htext, -, hyields⟩ := hall ⟨32, 59, 34, 92⟩ [32, 59] [] hproper (by decide)
  have hcount : (textBlock ⟨32, 59, 34, 92⟩ ([32, 59] ++ 0 :: [])).map Cursor.count = some 1 := by
    decide
  rw [htext, Option.map_some, Option.some.injEq] at hcount
  have hlength := (hyields { first := [], others := [[]], remaining := some [] } rfl).1
  rw [Cursor.numParameters, hcount] at hlength
  exact absurd hlength (by decide)

end Tokens

end ColonyPico.Text.TextBlockBuffer
