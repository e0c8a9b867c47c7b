import Mathlib.Data.List.TakeWhile
import ColonyPico.Foundations.TerminatedText

/-!
The tokenizer with a set of delimiters (`Cpl::Text::Tokenizer::Basic`).
-/

namespace ColonyPico.Text.BasicTokenizer

open ColonyPico.Foundations.TerminatedText

def isCharInString (charsSet : List UInt8) (c : UInt8) : Bool :=
  charsSet.contains c

/-- How far `stripChars` moves its pointer. -/
def stripChars (charsSet : List UInt8) : List UInt8 → Nat
  | [] => 0
  | c :: cells => if c ≠ 0 && isCharInString charsSet c then stripChars charsSet cells + 1 else 0

def stripNotChars (charsSet : List UInt8) : List UInt8 → Nat
  | [] => 0
  | c :: cells =>
      if c ≠ 0 && !isCharInString charsSet c then stripNotChars charsSet cells + 1 else 0

/-- The tokenizer; pointers are offsets from `m_base`, which may be null. The count is an `unsigned`
in the source, and has no bound here. -/
structure Basic where
  base : Option (List UInt8)
  ptr : Nat
  delimiters : List UInt8
  count : Nat

def Basic.init (stringToParse : Option (List UInt8)) (delimiterSet : List UInt8) : Basic :=
  { base := stringToParse, ptr := 0, delimiters := delimiterSet, count := 0 }

namespace Basic

/-- `next()`: the pointer it returns; nothing for an access outside of the string. -/
def next (s : Basic) : Option (Option Nat × Basic) :=
  match s.base with
  | none => some (none, s)
  | some string =>
      let start := s.ptr + stripChars s.delimiters (string.drop s.ptr)
      (string[start]?).bind fun c =>
        if c ≠ 0 then
          let ptr := start + stripNotChars s.delimiters (string.drop start)
          (string[ptr]?).bind fun d =>
            if d ≠ 0 then
              (poke string ptr 0).map fun string =>
                (some start, { s with base := some string, ptr := ptr + 1, count := s.count + 1 })
            else some (some start, { s with ptr := ptr, count := s.count + 1 })
        else some (none, s)

/-- The loop of `getToken()`. -/
def skipTokens (delimiters string : List UInt8) : Nat → Nat → Nat
  | 0, token => token
  | n + 1, token =>
      let token := token + strlen (string.drop token) + 1
      skipTokens delimiters string n (token + stripChars delimiters (string.drop token))

def getToken (s : Basic) (n : Nat) : Option Nat :=
  match s.base with
  | none => none
  | some string =>
      if n ≥ s.count then none
      else some (skipTokens s.delimiters string n (stripChars s.delimiters string))

/-- The token at a pointer. -/
def textAt (s : Basic) (token : Nat) : List UInt8 :=
  text ((s.base.getD []).drop token)

/-- What `k` calls of `next()` return. -/
def calls : Nat → Basic → Option (List (Option Nat) × Basic)
  | 0, s => some ([], s)
  | k + 1, s => s.next.bind fun r => (calls k r.2).map fun r' => (r.1 :: r'.1, r'.2)

end Basic

/-- The maximal runs of characters that are no delimiters. -/
def tokens (delimiters string : List UInt8) : List (List UInt8) :=
  (string.splitOnP (isCharInString delimiters)).filter fun token => token ≠ []

section Strips

variable {delimiters : List UInt8}

theorem stripChars_append {gap : List UInt8} (hgap : ∀ c ∈ gap, isCharInString delimiters c = true)
    (hfree : (0 : UInt8) ∉ gap) {c : UInt8} (hc : c = 0 ∨ isCharInString delimiters c = false)
    (rest : List UInt8) : stripChars delimiters (gap ++ c :: rest) = gap.length := by
  induction gap with
  | nil =>
      rw [List.nil_append, stripChars]
      rcases hc with rfl | hc
      · rfl
      · rw [hc, Bool.and_false]
        rfl
  | cons d gap ih =>
      rw [List.forall_mem_cons] at hgap
      rw [List.mem_cons, not_or] at hfree
      rw [List.cons_append, stripChars, hgap.1, Bool.and_true, decide_eq_true (Ne.symm hfree.1),
        ih hgap.2 hfree.2]
      rfl

theorem stripNotChars_append {token : List UInt8}
    (htoken : ∀ c ∈ token, isCharInString delimiters c = false) (hfree : (0 : UInt8) ∉ token)
    {c : UInt8} (hc : c = 0 ∨ isCharInString delimiters c = true) (rest : List UInt8) :
    stripNotChars delimiters (token ++ c :: rest) = token.length := by
  induction token with
  | nil =>
      rw [List.nil_append, stripNotChars]
      rcases hc with rfl | hc
      · rfl
      · rw [hc, Bool.not_true, Bool.and_false]
        rfl
  | cons d token ih =>
      rw [List.forall_mem_cons] at htoken
      rw [List.mem_cons, not_or] at hfree
      rw [List.cons_append, stripNotChars, htoken.1, Bool.not_false, Bool.and_true,
        decide_eq_true (Ne.symm hfree.1), ih htoken.2 hfree.2]
      rfl

end Strips

section Tokens

variable {delimiters : List UInt8}

theorem tokens_delimiter {d : UInt8} (hd : isCharInString delimiters d = true)
    (rest : List UInt8) : tokens delimiters (d :: rest) = tokens delimiters rest := by
  rw [tokens, List.splitOnP_cons_eq_if_modifyHead, if_pos hd, List.filter_cons, if_neg (by simp)]
  rfl

theorem tokens_gap {gap : List UInt8} (hgap : ∀ c ∈ gap, isCharInString delimiters c = true)
    (rest : List UInt8) : tokens delimiters (gap ++ rest) = tokens delimiters rest := by
  induction gap with
  | nil => rfl
  | cons d gap ih =>
      rw [List.forall_mem_cons] at hgap
      rw [List.cons_append, tokens_delimiter hgap.1, ih hgap.2]

theorem tokens_last {token : List UInt8} (hne : token ≠ [])
    (htoken : ∀ c ∈ token, isCharInString delimiters c = false) :
    tokens delimiters token = [token] := by
  rw [tokens, List.splitOnP_eq_singleton htoken, List.filter_cons, if_pos (decide_eq_true hne)]
  rfl

theorem tokens_token {token : List UInt8} (hne : token ≠ [])
    (htoken : ∀ c ∈ token, isCharInString delimiters c = false) {d : UInt8}
    (hd : isCharInString delimiters d = true) (rest : List UInt8) :
    tokens delimiters (token ++ d :: rest) = token :: tokens delimiters rest := by
  rw [tokens, List.splitOnP_append_cons_of_forall_mem htoken d hd, List.filter_cons,
    if_pos (decide_eq_true hne)]
  rfl

/-- What the next call of `next()` has in front of it. -/
theorem string_cases (delimiters rest : List UInt8) :
    (∀ c ∈ rest, isCharInString delimiters c = true) ∨
      ∃ gap token after, rest = gap ++ (token ++ after) ∧
        (∀ c ∈ gap, isCharInString delimiters c = true) ∧ token ≠ [] ∧
        (∀ c ∈ token, isCharInString delimiters c = false) ∧
        ∀ d ∈ after.head?, isCharInString delimiters d = true := by
  have hhead := List.head?_dropWhile_not (isCharInString delimiters) rest
  cases hrest : rest.dropWhile (isCharInString delimiters) with
  | nil => exact .inl (List.dropWhile_eq_nil_iff.1 hrest)
  | cons c cs =>
      rw [hrest] at hhead
      have hc : isCharInString delimiters c = false := by simpa using hhead
      right
      refine ⟨rest.takeWhile (isCharInString delimiters),
        (c :: cs).takeWhile fun c => !isCharInString delimiters c,
        (c :: cs).dropWhile fun c => !isCharInString delimiters c, ?_, ?_, ?_, ?_, ?_⟩
      · rw [List.takeWhile_append_dropWhile, ← hrest, List.takeWhile_append_dropWhile]
      · intro c hc
        exact List.mem_takeWhile_imp hc
      · rw [List.takeWhile_cons_of_pos (by rw [hc]; rfl)]
        exact List.cons_ne_nil _ _
      · intro c hc
        simpa using List.mem_takeWhile_imp hc
      · intro d hd
        have hafter := List.head?_dropWhile_not (fun c => !isCharInString delimiters c) (c :: cs)
        rw [Option.mem_def.1 hd] at hafter
        simpa using hafter

end Tokens

section Reading

/-- The part of the string that has been read: in front of each token the delimiters that were
skipped, behind it the NUL. -/
def enc (parts : List (List UInt8 × List UInt8)) : List UInt8 :=
  parts.flatMap fun part => part.1 ++ (part.2 ++ [0])

/-- Where the tokens start. -/
def positions : Nat → List (List UInt8 × List UInt8) → List Nat
  | _, [] => []
  | off, part :: parts =>
      (off + part.1.length) :: positions (off + part.1.length + part.2.length + 1) parts

/-- Delimiters and a token. -/
structure IsPart (delimiters : List UInt8) (part : List UInt8 × List UInt8) : Prop where
  gap : ∀ c ∈ part.1, isCharInString delimiters c = true
  token : ∀ c ∈ part.2, isCharInString delimiters c = false
  token_ne_nil : part.2 ≠ []
  free_gap : (0 : UInt8) ∉ part.1
  free_token : (0 : UInt8) ∉ part.2

/-- The tokenizer has read the parts and has `rest` in front of it. At the end of the string the
pointer stays on the NUL behind the last token. -/
structure Reads (s : Basic) (parts : List (List UInt8 × List UInt8)) (rest : List UInt8) : Prop where
  base_eq : ∃ before junk, s.base = some (before ++ (rest ++ 0 :: junk)) ∧ s.ptr = before.length ∧
    (before = enc parts ∨ rest = [] ∧ before ++ [0] = enc parts)
  count_eq : s.count = parts.length
  isPart : ∀ part ∈ parts, IsPart s.delimiters part
  free_rest : (0 : UInt8) ∉ rest

theorem enc_append (parts : List (List UInt8 × List UInt8)) (part : List UInt8 × List UInt8) :
    enc (parts ++ [part]) = enc parts ++ (part.1 ++ (part.2 ++ [0])) := by
  rw [enc, List.flatMap_append]
  exact congrArg (enc parts ++ ·) (List.append_nil _)

theorem length_enc_append (parts : List (List UInt8 × List UInt8))
    (part : List UInt8 × List UInt8) :
    (enc (parts ++ [part])).length = (enc parts).length + part.1.length + part.2.length + 1 := by
  rw [enc_append]
  simp only [List.length_append, List.length_singleton]
  omega

variable {s : Basic} {parts : List (List UInt8 × List UInt8)} {rest : List UInt8}

/-- Behind the last token nothing is found, and nothing changes. -/
theorem next_none (h : Reads s parts rest)
    (hrest : ∀ c ∈ rest, isCharInString s.delimiters c = true) : s.next = some (none, s) := by
  obtain ⟨before, junk, hbase, hptr, -⟩ := h.base_eq
  have hstrip := stripChars_append hrest h.free_rest (.inl rfl) junk
  have hchar : (before ++ (rest ++ 0 :: junk))[before.length + rest.length]? = some 0 := by
    rw [← List.append_assoc, ← List.length_append, List.getElem?_append_right (Nat.le_refl _),
      Nat.sub_self]
    rfl
  simp only [Basic.next, hbase, hptr, List.drop_left, hstrip, hchar, Option.bind_some]
  rw [if_neg (fun hne => hne rfl)]

/-- A call that finds a token: it ends the token where a delimiter or the NUL is. -/
theorem next_eq {before gap token more : List UInt8} {d : UInt8}
    (hbase : s.base = some (before ++ (gap ++ (token ++ d :: more)))) (hptr : s.ptr = before.length)
    (hpart : IsPart s.delimiters (gap, token))
    (hd : d = 0 ∨ isCharInString s.delimiters d = true) :
    s.next = some (some (before.length + gap.length),
      if d ≠ 0 then
        { s with
          base := some (before ++ (gap ++ (token ++ 0 :: more)))
          ptr := before.length + gap.length + token.length + 1
          count := s.count + 1 }
      else
        { s with ptr := before.length + gap.length + token.length, count := s.count + 1 }) := by
  obtain ⟨c, token', htoken⟩ := List.exists_cons_of_ne_nil hpart.token_ne_nil
  dsimp only at htoken
  have hmem : c ∈ token := htoken ▸ List.mem_cons_self
  have hc : isCharInString s.delimiters c = false := hpart.token c hmem
  have hc0 : c ≠ 0 := fun heq => hpart.free_token (heq ▸ hmem)
  have hgap : stripChars s.delimiters (gap ++ (token ++ d :: more)) = gap.length := by
    rw [htoken, List.cons_append]
    exact stripChars_append hpart.gap hpart.free_gap (.inr hc) _
  have hstrip : stripNotChars s.delimiters (token ++ d :: more) = token.length :=
    stripNotChars_append hpart.token hpart.free_token hd more
  have hdrop : (before ++ (gap ++ (token ++ d :: more))).drop (before.length + gap.length) =
      token ++ d :: more := by
    rw [← List.drop_drop, List.drop_left, List.drop_left]
  have hchar : (before ++ (gap ++ (token ++ d :: more)))[before.length + gap.length]? =
      some c := by
    rw [← List.head?_drop, hdrop, htoken]
    rfl
  have hend : (before ++ (gap ++ (token ++ d :: more)))[
      before.length + gap.length + token.length]? = some d := by
    rw [← List.head?_drop, ← List.drop_drop, hdrop, List.drop_left]
    rfl
  have hpoke : poke (before ++ (gap ++ (token ++ d :: more)))
      (before.length + gap.length + token.length) 0 =
        some (before ++ (gap ++ (token ++ 0 :: more))) := by
    have hlength : (before ++ (gap ++ token)).length =
        before.length + gap.length + token.length := by
      rw [List.length_append, List.length_append, Nat.add_assoc]
    have hpoke : poke (before ++ (gap ++ token) ++ d :: more)
        (before.length + gap.length + token.length) 0 =
          some (before ++ (gap ++ token) ++ 0 :: more) := poke_append hlength
    simp only [List.append_assoc] at hpoke
    exact hpoke
  simp only [Basic.next, hbase, hptr, List.drop_left, hgap, hchar, Option.bind_some, if_pos hc0,
    hdrop, hstrip, hend, hpoke, Option.map_some]
  split_ifs <;> rfl

theorem next_token {gap token after : List UInt8} (h : Reads s parts (gap ++ (token ++ after)))
    (hpart : IsPart s.delimiters (gap, token))
    (hafter : ∀ d ∈ after.head?, isCharInString s.delimiters d = true) :
    ∃ s', s.next = some (some ((enc parts).length + gap.length), s') ∧
      s'.delimiters = s.delimiters ∧ Reads s' (parts ++ [(gap, token)]) after.tail := by
  obtain ⟨before, junk, hbase, hptr, hbefore⟩ := h.base_eq
  have henc : before = enc parts := by
    rcases hbefore with henc | ⟨hnil, -⟩
    · exact henc
    · exact absurd (List.append_eq_nil_iff.1 (List.append_eq_nil_iff.1 hnil).2).1 hpart.token_ne_nil
  subst henc
  rw [List.append_assoc, List.append_assoc] at hbase
  have hisPart : ∀ part ∈ parts ++ [(gap, token)], IsPart s.delimiters part := by
    intro part hmem
    rcases List.mem_append.1 hmem with hold | hnew
    · exact h.isPart part hold
    · rw [List.mem_singleton.1 hnew]
      exact hpart
  have hcount : s.count + 1 = (parts ++ [(gap, token)]).length := by
    rw [h.count_eq, List.length_append]
    rfl
  cases after with
  | nil =>
      refine ⟨_, next_eq hbase hptr hpart (.inl rfl), rfl,
        ⟨enc parts ++ (gap ++ token), junk, ?_, ?_, .inr ⟨rfl, ?_⟩⟩, hcount, hisPart,
        List.not_mem_nil⟩
      · rw [if_neg (fun hne => hne rfl), List.append_assoc, List.append_assoc]
        exact hbase
      · rw [List.length_append, List.length_append, ← Nat.add_assoc]
        rfl
      · rw [enc_append]
        simp only [List.append_assoc]
  | cons d after =>
      have hd0 : d ≠ 0 := by
        rintro rfl
        refine h.free_rest (List.mem_append_right _ (List.mem_append_right _ ?_))
        exact List.mem_cons_self
      refine ⟨_, next_eq hbase hptr hpart (.inr (hafter d rfl)), ?_, ?_⟩
      all_goals rw [if_pos hd0]
      refine ⟨⟨enc (parts ++ [(gap, token)]), junk, ?_,
        (length_enc_append parts (gap, token)).symm, .inl rfl⟩, hcount, hisPart, ?_⟩
      · rw [enc_append]
        simp only [List.append_assoc, List.cons_append, List.nil_append]
        rfl
      · intro hmem
        refine h.free_rest (List.mem_append_right _ (List.mem_append_right _ ?_))
        exact List.mem_cons_of_mem _ hmem

end Reading

section Calls

variable {delimiters : List UInt8}

theorem length_positions (off : Nat) (parts : List (List UInt8 × List UInt8)) :
    (positions off parts).length = parts.length := by
  induction parts generalizing off with
  | nil => rfl
  | cons part parts ih => rw [positions, List.length_cons, List.length_cons, ih]

/-- The calls of `next()` give the tokens of the rest, and then nothing. -/
theorem calls_spec (k : Nat) {s : Basic} {parts : List (List UInt8 × List UInt8)}
    {rest : List UInt8} (h : Reads s parts rest) :
    ∃ s' new rest', s.calls k =
        some ((positions (enc parts).length new).map some ++ List.replicate (k - new.length) none,
          s') ∧
      s'.delimiters = s.delimiters ∧ Reads s' (parts ++ new) rest' ∧
      new.map Prod.snd = (tokens s.delimiters rest).take k := by
  induction k generalizing s parts rest with
  | zero => exact ⟨s, [], rest, rfl, rfl, by rwa [List.append_nil], rfl⟩
  | succ k ih =>
      rcases string_cases s.delimiters rest with hrest | ⟨gap, token, after, rfl, hgap, hne, htoken,
        hafter⟩
      · have hnone : tokens s.delimiters rest = [] := by
          rw [← List.append_nil rest, tokens_gap hrest]
          rfl
        obtain ⟨s', new, rest', hcalls, hdelimiters, hreads, hnew⟩ := ih h
        rw [hnone, List.take_nil, List.map_eq_nil_iff] at hnew
        subst hnew
        refine ⟨s', [], rest', ?_, hdelimiters, hreads, ?_⟩
        · rw [Basic.calls, next_none h hrest, Option.bind_some, hcalls]
          rfl
        · rw [hnone]
          rfl
      · have hfree := h.free_rest
        rw [List.mem_append, not_or, List.mem_append, not_or] at hfree
        have hpart : IsPart s.delimiters (gap, token) := ⟨hgap, htoken, hne, hfree.1, hfree.2.1⟩
        obtain ⟨s', hnext, hdelimiters, hreads⟩ := next_token h hpart hafter
        obtain ⟨s'', new, rest', hcalls, hdelimiters', hreads', hnew⟩ := ih hreads
        refine ⟨s'', (gap, token) :: new, rest', ?_, hdelimiters'.trans hdelimiters, ?_, ?_⟩
        · rw [Basic.calls, hnext, Option.bind_some, hcalls, Option.map_some, length_enc_append,
            positions, List.length_cons, Nat.add_sub_add_right]
          rfl
        · rw [List.append_assoc] at hreads'
          exact hreads'
        · rw [hdelimiters] at hnew
          have htokens : tokens s.delimiters (gap ++ (token ++ after)) =
              token :: tokens s.delimiters after.tail := by
            rw [tokens_gap hgap]
            cases after with
            | nil => rw [List.append_nil, tokens_last hne htoken]; rfl
            | cons d after => exact tokens_token hne htoken (hafter d rfl) after
          rw [htokens, List.take_succ_cons, ← hnew]
          rfl

theorem drop_part (before more : List UInt8) {part : List UInt8 × List UInt8}
    (parts : List (List UInt8 × List UInt8)) (hpart : IsPart delimiters part) :
    let string := before ++ (enc (part :: parts) ++ more)
    string = before ++ (part.1 ++ (part.2 ++ [0])) ++ (enc parts ++ more) ∧
      stripChars delimiters (string.drop before.length) = part.1.length ∧
      string.drop (before.length + part.1.length) = part.2 ++ 0 :: (enc parts ++ more) := by
  have hstring : before ++ (enc (part :: parts) ++ more) =
      before ++ (part.1 ++ (part.2 ++ 0 :: (enc parts ++ more))) := by
    simp only [enc, List.flatMap_cons, List.append_assoc, List.cons_append, List.nil_append]
  obtain ⟨c, token, htoken⟩ := List.exists_cons_of_ne_nil hpart.token_ne_nil
  refine ⟨?_, ?_, ?_⟩
  · rw [hstring]
    simp only [List.append_assoc, List.cons_append, List.nil_append]
  · rw [hstring, List.drop_left, htoken]
    refine stripChars_append hpart.gap hpart.free_gap (.inr ?_) _
    exact hpart.token c (htoken ▸ List.mem_cons_self)
  · rw [hstring, ← List.drop_drop, List.drop_left, List.drop_left]

theorem skipTokens_spec (before more : List UInt8) {parts : List (List UInt8 × List UInt8)}
    (hparts : ∀ part ∈ parts, IsPart delimiters part) (n : Nat) (hn : n < parts.length) :
    some (Basic.skipTokens delimiters (before ++ (enc parts ++ more)) n (before.length +
        stripChars delimiters ((before ++ (enc parts ++ more)).drop before.length))) =
      (positions before.length parts)[n]? := by
  induction n generalizing before parts with
  | zero =>
      cases parts with
      | nil => cases hn
      | cons part parts =>
          obtain ⟨-, hstrip, -⟩ := drop_part before more parts
            (hparts part List.mem_cons_self)
          rw [hstrip]
          rfl
  | succ n ih =>
      cases parts with
      | nil => cases hn
      | cons part parts =>
          rw [List.forall_mem_cons] at hparts
          obtain ⟨hstring, hstrip, hdrop⟩ := drop_part before more parts hparts.1
          have hholds : Holds (part.2 ++ 0 :: (enc parts ++ more)) part.2 :=
            holds_append hparts.1.free_token
          have hlength : before.length + part.1.length + part.2.length + 1 =
              (before ++ (part.1 ++ (part.2 ++ [0]))).length := by
            simp only [List.length_append, List.length_singleton]
            omega
          rw [hstrip, Basic.skipTokens, hdrop, hholds.strlen_eq, positions, List.getElem?_cons_succ,
            hlength, hstring]
          exact ih _ hparts.2 (Nat.lt_of_succ_lt_succ hn)

theorem text_positions (before more : List UInt8) {parts : List (List UInt8 × List UInt8)}
    (hparts : ∀ part ∈ parts, IsPart delimiters part) :
    (positions before.length parts).map
        (fun p => text ((before ++ (enc parts ++ more)).drop p)) = parts.map Prod.snd := by
  induction parts generalizing before with
  | nil => rfl
  | cons part parts ih =>
      rw [List.forall_mem_cons] at hparts
      obtain ⟨hstring, -, hdrop⟩ := drop_part before more parts hparts.1
      have hholds : Holds (part.2 ++ 0 :: (enc parts ++ more)) part.2 :=
        holds_append hparts.1.free_token
      have hlength : before.length + part.1.length + part.2.length + 1 =
          (before ++ (part.1 ++ (part.2 ++ [0]))).length := by
        simp only [List.length_append, List.length_singleton]
        omega
      rw [positions, List.map_cons, hdrop, hholds.text_eq, hlength, hstring, ih _ hparts.2]
      rfl

/-- What was read is in front of something in the string. -/
theorem Reads.base_enc {s : Basic} {parts : List (List UInt8 × List UInt8)} {rest : List UInt8}
    (h : Reads s parts rest) : ∃ more, s.base = some (enc parts ++ more) := by
  obtain ⟨before, junk, hbase, -, rfl | ⟨rfl, henc⟩⟩ := h.base_eq
  · exact ⟨_, hbase⟩
  · refine ⟨junk, ?_⟩
    rw [hbase, ← henc, List.append_assoc]
    rfl

/-- After any number of calls of `next()`: they returned the tokens of the string in order and
then nothing, and `getToken()` returns what they returned. -/
theorem calls_return_tokens (delimiters string junk : List UInt8) (hstring : (0 : UInt8) ∉ string)
    (k : Nat) :
    ∃ returned s, (Basic.init (some (string ++ 0 :: junk)) delimiters).calls k = some (returned, s) ∧
      returned.map (Option.map s.textAt) =
        ((tokens delimiters string).map some ++ List.replicate k none).take k ∧
      ∀ n, s.getToken n = (returned.filterMap id)[n]? := by
  have hinit : Reads (Basic.init (some (string ++ 0 :: junk)) delimiters) [] string :=
    ⟨⟨[], junk, rfl, rfl, .inl rfl⟩, rfl, fun part hmem => absurd hmem List.not_mem_nil, hstring⟩
  obtain ⟨s, new, rest, hcalls, hdelimiters, hreads, hnew⟩ := calls_spec k hinit
  rw [List.nil_append] at hreads
  change new.map Prod.snd = (tokens delimiters string).take k at hnew
  obtain ⟨more, hbase⟩ := hreads.base_enc
  refine ⟨(positions 0 new).map some ++ List.replicate (k - new.length) none, s, hcalls, ?_, ?_⟩
  · have htexts : (positions 0 new).map s.textAt = (tokens delimiters string).take k := by
      rw [← hnew, ← text_positions [] more hreads.isPart]
      refine List.map_congr_left fun p _ => ?_
      rw [Basic.textAt, hbase]
      rfl
    have hlength : new.length = min k (tokens delimiters string).length := by
      rw [← List.length_take, ← hnew, List.length_map]
    have hmap : ((positions 0 new).map some).map (Option.map s.textAt) =
        ((positions 0 new).map s.textAt).map some := by
      rw [List.map_map, List.map_map]
      rfl
    rw [List.map_append, List.map_replicate, hmap, htexts, List.take_append, List.map_take,
      List.take_replicate, List.length_map]
    congr 2
    omega
  · intro n
    have hreturned : (((positions 0 new).map some) ++ List.replicate (k - new.length) none).filterMap
        id = positions 0 new := by
      rw [List.filterMap_append, List.filterMap_map, List.filterMap_replicate_of_none rfl,
        List.append_nil]
      exact List.filterMap_some
    refine Eq.trans ?_ (congrArg (fun l : List Nat => l[n]?) hreturned).symm
    rw [Basic.getToken, hbase, hreads.count_eq]
    rcases Nat.lt_or_ge n new.length with hlt | hge
    · have hskip := skipTokens_spec [] more hreads.isPart n hlt
      rw [List.nil_append, List.length_nil, Nat.zero_add, List.drop_zero] at hskip
      rw [← hskip]
      exact if_neg (by omega)
    · rw [List.getElem?_eq_none (by rw [length_positions]; exact hge)]
      exact if_pos hge

/-- Repeated and trailing delimiters, and one call too many. -/
theorem calls_return_two_tokens :
    ∃ returned s, (Basic.init (some [44, 97, 44, 32, 98, 99, 44, 0]) [44, 32]).calls 3 =
        some (returned, s) ∧
      returned.map (Option.map s.textAt) = [some [97], some [98, 99], none] ∧
      ∀ n, s.getToken n = (returned.filterMap id)[n]? :=
  calls_return_tokens [44, 32] [44, 97, 44, 32, 98, 99, 44] [] (by decide) 3

end Calls

end ColonyPico.Text.BasicTokenizer
