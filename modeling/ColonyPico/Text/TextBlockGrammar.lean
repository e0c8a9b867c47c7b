import Mathlib.Data.List.DropRight
import ColonyPico.Text.TextBlock

/-!
The grammar of text blocks, as a parser that does not touch the string, and the tokenizer of
`TextBlock` against it.
-/

namespace ColonyPico.Text.TextBlockGrammar

open ColonyPico.Text.StringEdits
open ColonyPico.Text.TextBlock

/-- A parameter field consists of characters and of text strings, quotes and escape characters
taken out. -/
inductive Piece where
  | plain (c : UInt8)
  | text (s : List UInt8)

def Piece.blank : Piece → Bool
  | .plain c => isspace c
  | .text _ => false

def Piece.chars : Piece → List UInt8
  | .plain c => [c]
  | .text s => s

def chars (field : List Piece) : List UInt8 :=
  field.flatMap Piece.chars

/-- The parameter of a field: white space around it is removed, unless it is quoted. -/
def value (field : List Piece) : List UInt8 :=
  chars ((field.dropWhile Piece.blank).rdropWhile Piece.blank)

/-- The fields of a text block, and the text behind its terminator. -/
structure Block where
  first : List Piece
  others : List (List Piece)
  remaining : Option (List UInt8)

namespace Block

def put (p : Piece) (b : Block) : Block :=
  { b with first := p :: b.first }

def delimit (b : Block) : Block :=
  { b with first := [], others := b.first :: b.others }

/-- With a space for the delimiter a field of white space is no parameter. -/
def parameters (marks : Marks) (b : Block) : List (List UInt8) :=
  if marks.delimiter = 32 then
    ((b.first :: b.others).filter fun field => !field.all Piece.blank).map value
  else (b.first :: b.others).map value

end Block

mutual

/-- Outside of text strings. -/
def outside (marks : Marks) : List UInt8 → Option Block
  | [] => some { first := [], others := [], remaining := none }
  | c :: rest =>
      if c = marks.terminator then some { first := [], others := [], remaining := some rest }
      else if c = marks.delimiter then (outside marks rest).map Block.delimit
      else if c = marks.quote then inside marks [] rest
      else (outside marks rest).map (Block.put (.plain c))

/-- Inside a text string, which has to be closed. -/
def inside (marks : Marks) (text : List UInt8) : List UInt8 → Option Block
  | [] => none
  | c :: rest =>
      if c = marks.quote then (outside marks rest).map (Block.put (.text text))
      else if c = marks.escape then escaped marks text rest
      else inside marks (text ++ [c]) rest

/-- Behind an escape character. -/
def escaped (marks : Marks) (text : List UInt8) : List UInt8 → Option Block
  | [] => none
  | c :: rest => inside marks (text ++ [c]) rest

end

/-- The characters of the grammar differ, and no white space is among them, except that the
delimiter may be a space. -/
structure Distinguishable (marks : Marks) : Prop where
  distinct : [marks.delimiter, marks.terminator, marks.quote, marks.escape].Nodup
  delimiter : isspace marks.delimiter = false ∨ marks.delimiter = 32
  terminator : isspace marks.terminator = false
  quote : isspace marks.quote = false
  escape : isspace marks.escape = false

theorem Distinguishable.marks_ne {marks : Marks} (h : Distinguishable marks) :
    marks.delimiter ≠ marks.terminator ∧ marks.delimiter ≠ marks.quote ∧
      marks.terminator ≠ marks.quote ∧ marks.quote ≠ marks.escape := by
  have hdistinct := h.distinct
  simp only [List.nodup_cons, List.mem_cons, not_or] at hdistinct
  obtain ⟨⟨hdt, hdq, -⟩, ⟨htq, -⟩, ⟨hqe, -⟩, -⟩ := hdistinct
  exact ⟨hdt, hdq, htq, hqe⟩

section Values

variable {marks : Marks}

@[simp] theorem chars_append (f g : List Piece) : chars (f ++ g) = chars f ++ chars g :=
  List.flatMap_append

theorem value_cons_blank {p : Piece} (hp : p.blank = true) (f : List Piece) :
    value (p :: f) = value f := by
  rw [value, value, List.dropWhile_cons_of_pos hp]

theorem parameters_put_blank {p : Piece} (hp : p.blank = true) (b : Block) :
    (b.put p).parameters marks = b.parameters marks := by
  simp only [Block.parameters, Block.put, List.map_cons, value_cons_blank hp, List.filter_cons,
    List.all_cons, hp, Bool.true_and]
  split_ifs <;> simp [value_cons_blank hp]

theorem parameters_delimit (hspace : marks.delimiter = 32) (b : Block) :
    b.delimit.parameters marks = b.parameters marks := by
  rw [Block.parameters, Block.parameters, if_pos hspace, if_pos hspace]
  rfl

/-- A field in front of a delimiter, when it is a parameter. -/
theorem parameters_prepend_delimit {f : List Piece}
    (hf : marks.delimiter = 32 → f.all Piece.blank = false) (b : Block) :
    Block.parameters marks { b.delimit with first := f } = value f :: b.parameters marks := by
  rw [Block.parameters, Block.parameters]
  split_ifs with hspace
  · rw [List.filter_cons, hf hspace]
    rfl
  · rfl

/-- White space in front of a block has no meaning. -/
theorem outside_space (h : Distinguishable marks) {c : UInt8} (hc : isspace c = true)
    (rest : List UInt8) :
    (outside marks (c :: rest)).map (fun b => (b.parameters marks, b.remaining)) =
      (outside marks rest).map fun b => (b.parameters marks, b.remaining) := by
  have hne : ∀ m, isspace m = false → c ≠ m := by
    intro m hm heq
    rw [heq, hm] at hc
    cases hc
  rw [outside, if_neg (hne _ h.terminator)]
  split_ifs with hdelimiter hquote
  · have hspace : marks.delimiter = 32 := by
      rcases h.delimiter with hfalse | hspace
      · exact absurd hdelimiter (hne _ hfalse)
      · exact hspace
    cases outside marks rest with
    | none => rfl
    | some b =>
        simp only [Option.map_some, parameters_delimit hspace]
        rfl
  · exact absurd hquote (hne _ h.quote)
  · cases outside marks rest with
    | none => rfl
    | some b =>
        have hblank : (Piece.plain c).blank = true := hc
        simp only [Option.map_some, parameters_put_blank hblank]
        rfl

/-- Strings that have the same meaning, read as blocks. -/
theorem same_blocks {string string' : List UInt8}
    (h : (outside marks string).map (fun b => (b.parameters marks, b.remaining)) =
      (outside marks string').map fun b => (b.parameters marks, b.remaining)) :
    (outside marks string).isSome = (outside marks string').isSome ∧
      ∀ b, outside marks string = some b → ∃ b', outside marks string' = some b' ∧
        b'.parameters marks = b.parameters marks ∧ b'.remaining = b.remaining := by
  constructor
  · rw [← Option.isSome_map, h, Option.isSome_map]
  · intro b hb
    rw [hb, Option.map_some] at h
    obtain ⟨b', hb', heq⟩ := Option.map_eq_some_iff.1 h.symm
    exact ⟨b', hb', congrArg Prod.fst heq, congrArg Prod.snd heq⟩

theorem outside_dropWhile (h : Distinguishable marks) (string : List UInt8) :
    (outside marks string).map (fun b => (b.parameters marks, b.remaining)) =
      (outside marks (string.dropWhile isspace)).map fun b => (b.parameters marks, b.remaining) := by
  induction string with
  | nil => rfl
  | cons c rest ih =>
      cases hc : isspace c with
      | false => rw [List.dropWhile_cons_of_neg (by rw [hc]; exact Bool.false_ne_true)]
      | true => rw [List.dropWhile_cons_of_pos hc, outside_space h hc, ih]

end Values

section Offsets

/-- `firstNonSpacePtr` in the characters of a field. -/
def lead (field : List Piece) : Option Nat :=
  if field.all Piece.blank then none else some (chars (field.takeWhile Piece.blank)).length

/-- One behind `lastNonSpacePtr`. -/
def stop (field : List Piece) : Option Nat :=
  if field.all Piece.blank then none else some (chars (field.rdropWhile Piece.blank)).length

theorem takeWhile_append_of_not_all {α : Type*} {p : α → Bool} {l : List α} (h : l.all p = false)
    (m : List α) : (l ++ m).takeWhile p = l.takeWhile p := by
  induction l with
  | nil => cases h
  | cons a l ih =>
      rw [List.cons_append]
      cases ha : p a with
      | false =>
          have hneg : ¬ p a = true := by rw [ha]; exact Bool.false_ne_true
          rw [List.takeWhile_cons_of_neg hneg, List.takeWhile_cons_of_neg hneg]
      | true =>
          rw [List.all_cons, ha, Bool.true_and] at h
          rw [List.takeWhile_cons_of_pos ha, List.takeWhile_cons_of_pos ha, ih h]

theorem rdropWhile_append_of_not_all {α : Type*} {p : α → Bool} (l : List α) {m : List α}
    (h : m.all p = false) : (l ++ m).rdropWhile p = l ++ m.rdropWhile p := by
  induction m using List.reverseRecOn with
  | nil => cases h
  | append_singleton m a ih =>
      rw [← List.append_assoc]
      cases ha : p a with
      | false =>
          have hneg : ¬ p a = true := by rw [ha]; exact Bool.false_ne_true
          rw [List.rdropWhile_concat_neg _ _ _ hneg, List.rdropWhile_concat_neg _ _ _ hneg,
            List.append_assoc]
      | true =>
          rw [List.all_append, List.all_cons, ha, List.all_nil, Bool.true_and, Bool.and_true] at h
          rw [List.rdropWhile_concat_pos _ _ _ ha, List.rdropWhile_concat_pos _ _ _ ha, ih h]

variable {field : List Piece}

theorem all_append_blank {p : Piece} (hp : p.blank = true) :
    (field ++ [p]).all Piece.blank = field.all Piece.blank := by
  rw [List.all_append, List.all_cons, hp, List.all_nil, Bool.true_and, Bool.and_true]

theorem all_append_not_blank {p : Piece} (hp : p.blank = false) :
    (field ++ [p]).all Piece.blank = false := by
  rw [List.all_append, List.all_cons, hp, Bool.false_and, Bool.and_false]

theorem lead_append_blank {p : Piece} (hp : p.blank = true) : lead (field ++ [p]) = lead field := by
  rw [lead, lead, all_append_blank hp]
  cases hall : field.all Piece.blank with
  | true => rfl
  | false => rw [takeWhile_append_of_not_all hall]

theorem stop_append_blank {p : Piece} (hp : p.blank = true) : stop (field ++ [p]) = stop field := by
  rw [stop, stop, all_append_blank hp, List.rdropWhile_concat_pos _ _ _ hp]

theorem lead_append {p : Piece} (hp : p.blank = false) :
    lead (field ++ [p]) = some ((lead field).getD (chars field).length) := by
  rw [lead, lead, all_append_not_blank hp, if_neg Bool.false_ne_true]
  cases hall : field.all Piece.blank with
  | true =>
      have hneg : ¬ p.blank = true := by rw [hp]; exact Bool.false_ne_true
      rw [List.takeWhile_append_of_pos (List.all_eq_true.1 hall), List.takeWhile_cons_of_neg hneg,
        List.append_nil, if_pos rfl, Option.getD_none]
  | false =>
      rw [takeWhile_append_of_not_all hall, if_neg Bool.false_ne_true, Option.getD_some]

theorem stop_append {p : Piece} (hp : p.blank = false) :
    stop (field ++ [p]) = some (chars (field ++ [p])).length := by
  have hneg : ¬ p.blank = true := by rw [hp]; exact Bool.false_ne_true
  rw [stop, all_append_not_blank hp, if_neg Bool.false_ne_true,
    List.rdropWhile_concat_neg _ _ _ hneg]

theorem removeWhiteSpace_chars (field : List Piece) :
    removeWhiteSpace (chars field) (lead field) (stop field) = value field := by
  cases hall : field.all Piece.blank with
  | true =>
      have hnil : field.dropWhile Piece.blank = [] :=
        List.dropWhile_eq_nil_iff.2 (List.all_eq_true.1 hall)
      rw [lead, stop, hall, if_pos rfl, value, hnil]
      exact List.drop_length
  | false =>
      have hsplit : field = field.takeWhile Piece.blank ++ field.dropWhile Piece.blank :=
        List.takeWhile_append_dropWhile.symm
      have hrest : (field.dropWhile Piece.blank).all Piece.blank = false := by
        rw [hsplit, List.all_append, List.all_eq_true.2 (fun p hp => List.mem_takeWhile_imp hp),
          Bool.true_and] at hall
        exact hall
      have hstop : field.rdropWhile Piece.blank = field.takeWhile Piece.blank ++
          (field.dropWhile Piece.blank).rdropWhile Piece.blank := by
        conv_lhs => rw [hsplit]
        rw [rdropWhile_append_of_not_all _ hrest]
      obtain ⟨trailing, htrailing⟩ : (field.dropWhile Piece.blank).rdropWhile Piece.blank <+:
        field.dropWhile Piece.blank := List.rdropWhile_prefix _ _
      have hchars : chars field = chars (field.takeWhile Piece.blank) ++
          (value field ++ chars trailing) := by
        rw [value, ← chars_append, htrailing, ← chars_append, ← hsplit]
      rw [lead, stop, hall, if_neg Bool.false_ne_true, if_neg Bool.false_ne_true, hstop,
        chars_append, List.length_append]
      simp only [removeWhiteSpace, Option.getD_some]
      rw [hchars, List.drop_left, Nat.add_sub_cancel_left]
      exact List.take_left

end Offsets

section Parsing

/-- The tokenizer after some tokens, at the pieces of a field. -/
def between (tokens : List (List UInt8)) (field : List Piece) : Parse :=
  { tokens := tokens, token := chars field, firstNonSpace := lead field, endNonSpace := stop field
    count := tokens.length, validTokens := true, place := .plain }

/-- The tokenizer in a text string. -/
def within (tokens : List (List UInt8)) (field : List Piece) (text : List UInt8) (place : Place) :
    Parse :=
  { tokens := tokens, token := chars field ++ text
    firstNonSpace := some ((lead field).getD (chars field).length), endNonSpace := stop field
    count := tokens.length, validTokens := false, place := place }

variable {marks : Marks} (tokens : List (List UInt8)) (field : List Piece) (text : List UInt8)

theorem endToken_between (place : Place) :
    (between tokens field).endToken place =
      { between (tokens ++ [value field]) [] with place := place } := by
  simp only [Parse.endToken, between, removeWhiteSpace_chars, List.length_append,
    List.length_singleton]
  rfl

theorem normalCharacter_between (c : UInt8) :
    (between tokens field).normalCharacter c = between tokens (field ++ [.plain c]) := by
  cases hc : isspace c with
  | true =>
      have hblank : (Piece.plain c).blank = true := hc
      simp only [Parse.normalCharacter, between, hc, if_true, lead_append_blank hblank,
        stop_append_blank hblank, chars_append]
      rfl
  | false =>
      have hblank : (Piece.plain c).blank = false := hc
      have hlength : (chars (field ++ [Piece.plain c])).length = (chars field).length + 1 := by
        rw [chars_append, List.length_append]
        rfl
      simp only [Parse.normalCharacter, between, hc, Bool.false_eq_true, if_false,
        lead_append hblank, stop_append hblank, hlength]
      cases hall : field.all Piece.blank with
      | true =>
          rw [lead, stop, hall, if_pos rfl, if_pos rfl, chars_append]
          rfl
      | false =>
          rw [lead, stop, hall, if_neg Bool.false_ne_true, if_neg Bool.false_ne_true, chars_append]
          rfl

theorem next_between_quote (h : Distinguishable marks) :
    (between tokens field).next marks marks.quote = within tokens field [] .quoted := by
  obtain ⟨-, hdq, htq, -⟩ := h.marks_ne
  have hplace : (between tokens field).place = .plain := rfl
  simp only [Parse.next, hplace, Parse.outside]
  rw [if_neg (Ne.symm htq), if_neg (Ne.symm hdq), if_true]
  simp only [between, within, List.append_nil]

theorem next_between_plain {c : UInt8} (ht : c ≠ marks.terminator) (hd : c ≠ marks.delimiter)
    (hq : c ≠ marks.quote) :
    (between tokens field).next marks c = between tokens (field ++ [.plain c]) := by
  have hplace : (between tokens field).place = .plain := rfl
  simp only [Parse.next, hplace, Parse.outside]
  rw [if_neg ht, if_neg hd, if_neg hq, normalCharacter_between]

/-- The end of a text string makes it a piece of the field. -/
theorem next_within_quote :
    (within tokens field text .quoted).next marks marks.quote =
      between tokens (field ++ [.text text]) := by
  have hblank : (Piece.text text).blank = false := rfl
  have hplace : (within tokens field text .quoted).place = .quoted := rfl
  have hchars : chars (field ++ [Piece.text text]) = chars field ++ text := by
    rw [chars_append]
    exact congrArg _ (List.append_nil text)
  simp only [Parse.next, hplace, if_true, between, lead_append hblank, stop_append hblank, hchars]
  rfl

theorem next_within_escape (h : Distinguishable marks) :
    (within tokens field text .quoted).next marks marks.escape =
      within tokens field text .escaping := by
  obtain ⟨-, -, -, hqe⟩ := h.marks_ne
  have hplace : (within tokens field text .quoted).place = .quoted := rfl
  simp only [Parse.next, hplace]
  rw [if_neg (Ne.symm hqe), if_true]
  rfl

theorem next_within_plain {c : UInt8} (hq : c ≠ marks.quote) (he : c ≠ marks.escape) :
    (within tokens field text .quoted).next marks c =
      within tokens field (text ++ [c]) .quoted := by
  have hplace : (within tokens field text .quoted).place = .quoted := rfl
  simp only [Parse.next, hplace]
  rw [if_neg hq, if_neg he]
  simp only [within, List.append_assoc]

theorem next_within_escaped (c : UInt8) :
    (within tokens field text .escaping).next marks c =
      within tokens field (text ++ [c]) .quoted := by
  simp only [Parse.next, within, List.append_assoc]

/-- Where the tokenizer stops: the text behind the terminator. -/
def remaining (marks : Marks) : Parse → List UInt8 → Option (List UInt8)
  | _, [] => none
  | s, c :: rest =>
      if (s.next marks c).place = .terminated then some rest
      else remaining marks (s.next marks c) rest

/-- The tokenizer agrees with a block that has been read up to the pieces `field`. -/
structure Agrees (marks : Marks) (tokens : List (List UInt8)) (field : List Piece)
    (block : Option Block) (s : Parse) (rest : List UInt8) : Prop where
  valid_eq : ((rest.foldl (Parse.next marks) s).finish).validTokens = block.isSome
  take_tokens : ∀ b, block = some b →
    ((rest.foldl (Parse.next marks) s).finish).tokens.take
        ((rest.foldl (Parse.next marks) s).finish).count =
      tokens ++ Block.parameters marks { b with first := field ++ b.first }
  remaining_eq : ∀ b, block = some b → remaining marks s rest = b.remaining

/-- The tokenizer goes on from the character `c`, which changes the block by `g`. -/
theorem agrees_cons {s s' : Parse} {c : UInt8} {rest : List UInt8} {tokens' : List (List UInt8)}
    {field' : List Piece} {block : Option Block} {tokens : List (List UInt8)}
    {field : List Piece} (g : Block → Block) (hnext : s.next marks c = s')
    (hplace : s'.place ≠ .terminated) (h : Agrees marks tokens' field' block s' rest)
    (hparameters : ∀ b, tokens ++ Block.parameters marks { g b with first := field ++ (g b).first } =
      tokens' ++ Block.parameters marks { b with first := field' ++ b.first })
    (hremaining : ∀ b, (g b).remaining = b.remaining) :
    Agrees marks tokens field (block.map g) s (c :: rest) := by
  have hstep : remaining marks s (c :: rest) = remaining marks s' rest := by
    rw [remaining, hnext, if_neg hplace]
  constructor
  · rw [List.foldl_cons, hnext, h.valid_eq, Option.isSome_map]
  · intro b hb
    obtain ⟨b', hb', rfl⟩ := Option.map_eq_some_iff.1 hb
    rw [List.foldl_cons, hnext, h.take_tokens b' hb', hparameters]
  · intro b hb
    obtain ⟨b', hb', rfl⟩ := Option.map_eq_some_iff.1 hb
    rw [hstep, h.remaining_eq b' hb', hremaining]

theorem agrees_cons_same {s s' : Parse} {c : UInt8} {rest : List UInt8} {block : Option Block}
    {tokens : List (List UInt8)} {field : List Piece} (hnext : s.next marks c = s')
    (hplace : s'.place ≠ .terminated) (h : Agrees marks tokens field block s' rest) :
    Agrees marks tokens field block s (c :: rest) := by
  have hmap := agrees_cons id hnext hplace h (fun _ => rfl) fun _ => rfl
  rw [Option.map_id, id] at hmap
  exact hmap

theorem foldl_terminated {s : Parse} (hs : s.place = .terminated) (rest : List UInt8) :
    rest.foldl (Parse.next marks) s = s := by
  induction rest with
  | nil => rfl
  | cons c rest ih =>
      have hnext : s.next marks c = s := by simp only [Parse.next, hs]
      rw [List.foldl_cons, hnext, ih]

/-- With a space for the delimiter, a field that has begun is not white space. -/
def Begun (marks : Marks) (field : List Piece) (rest : List UInt8) : Prop :=
  marks.delimiter = 32 → field.all Piece.blank = false ∨
    ∃ c cs, rest = c :: cs ∧ isspace c = false ∧ c ≠ marks.terminator

/-- The last field ends. -/
theorem parameters_last {field : List Piece}
    (hfield : marks.delimiter = 32 → field.all Piece.blank = false) (r : Option (List UInt8)) :
    Block.parameters marks { first := field ++ [], others := [], remaining := r } =
      [value field] := by
  rw [Block.parameters, List.append_nil]
  split_ifs with hspace
  · rw [List.filter_cons, hfield hspace]
    rfl
  · rfl

theorem agrees_end {field : List Piece} (hbegun : Begun marks field []) :
    Agrees marks tokens field (outside marks []) (between tokens field) [] := by
  have hfield : marks.delimiter = 32 → field.all Piece.blank = false := by
    intro hspace
    rcases hbegun hspace with hfield | ⟨c, cs, hnil, -⟩
    · exact hfield
    · cases hnil
  have hfinish : (between tokens field).finish = (between tokens field).endToken .terminated := rfl
  rw [outside]
  constructor
  · rw [List.foldl_nil, hfinish, endToken_between]
    rfl
  · intro b hb
    obtain rfl := Option.some.inj hb
    rw [List.foldl_nil, hfinish, endToken_between, parameters_last hfield]
    exact List.take_length
  · intro b hb
    obtain rfl := Option.some.inj hb
    rfl

theorem agrees_terminator {field : List Piece} {rest : List UInt8}
    (hbegun : Begun marks field (marks.terminator :: rest)) :
    Agrees marks tokens field (outside marks (marks.terminator :: rest)) (between tokens field)
      (marks.terminator :: rest) := by
  have hfield : marks.delimiter = 32 → field.all Piece.blank = false := by
    intro hspace
    rcases hbegun hspace with hfield | ⟨c, cs, heq, -, hne⟩
    · exact hfield
    · exact absurd (List.cons.inj heq).1.symm hne
  have hnext : (between tokens field).next marks marks.terminator =
      { between (tokens ++ [value field]) [] with place := .terminated } := by
    rw [← endToken_between]
    exact if_pos rfl
  have hfold : ((marks.terminator :: rest).foldl (Parse.next marks) (between tokens field)).finish =
      { between (tokens ++ [value field]) [] with place := .terminated } := by
    rw [List.foldl_cons, hnext, foldl_terminated rfl]
    rfl
  rw [outside, if_pos rfl]
  constructor
  · rw [hfold]
    rfl
  · intro b hb
    obtain rfl := Option.some.inj hb
    rw [hfold, parameters_last hfield]
    exact List.take_length
  · intro b hb
    obtain rfl := Option.some.inj hb
    rw [remaining, hnext, if_pos rfl]

/-- Behind a space that is a delimiter; a token has been found before. -/
def skipped (tokens : List (List UInt8)) : Parse :=
  { between tokens [] with place := .skipping }

/-- A delimiting space in front of the end is not counted. -/
theorem endToken_skipped (hne : tokens ≠ []) :
    (skipped tokens).uncount.endToken .terminated =
      { between (tokens ++ [[]]) [] with count := tokens.length, place := .terminated } := by
  have hlength : tokens.length - 1 + 1 = tokens.length :=
    Nat.sub_add_cancel (List.length_pos_iff.2 hne)
  simp only [Parse.uncount, Parse.endToken, skipped, between, hlength]
  rfl

theorem agrees_skipped_end (hspace : marks.delimiter = 32) (hne : tokens ≠ []) :
    Agrees marks tokens [] (outside marks []) (skipped tokens) [] := by
  have hfinish : (skipped tokens).finish = (skipped tokens).uncount.endToken .terminated := rfl
  rw [outside]
  constructor
  · rw [List.foldl_nil, hfinish, endToken_skipped tokens hne]
    rfl
  · intro b hb
    obtain rfl := Option.some.inj hb
    rw [List.foldl_nil, hfinish, endToken_skipped tokens hne, Block.parameters, if_pos hspace]
    exact List.take_left.trans (List.append_nil tokens).symm
  · intro b hb
    obtain rfl := Option.some.inj hb
    rfl

theorem agrees_skipped_terminator (h : Distinguishable marks) (hspace : marks.delimiter = 32)
    (hne : tokens ≠ []) (rest : List UInt8) :
    Agrees marks tokens [] (outside marks (marks.terminator :: rest)) (skipped tokens)
      (marks.terminator :: rest) := by
  have hnext : (skipped tokens).next marks marks.terminator =
      (skipped tokens).uncount.endToken .terminated := by
    have hplace : (skipped tokens).place = .skipping := rfl
    simp only [Parse.next, hplace, h.terminator, Bool.false_eq_true, if_false, if_true,
      Parse.outside]
  have hfold : ((marks.terminator :: rest).foldl (Parse.next marks) (skipped tokens)).finish =
      { between (tokens ++ [[]]) [] with count := tokens.length, place := .terminated } := by
    rw [List.foldl_cons, hnext, endToken_skipped tokens hne, foldl_terminated rfl]
    rfl
  rw [outside, if_pos rfl]
  constructor
  · rw [hfold]
    rfl
  · intro b hb
    obtain rfl := Option.some.inj hb
    rw [hfold, Block.parameters, if_pos hspace]
    exact List.take_left.trans (List.append_nil tokens).symm
  · intro b hb
    obtain rfl := Option.some.inj hb
    rw [remaining, hnext]
    exact if_pos rfl

/-- The spaces behind a delimiting space begin no field. -/
theorem agrees_skipped_space (h : Distinguishable marks) {c : UInt8} (hc : isspace c = true)
    {rest : List UInt8} (hrest : Agrees marks tokens [] (outside marks rest) (skipped tokens) rest) :
    Agrees marks tokens [] (outside marks (c :: rest)) (skipped tokens) (c :: rest) := by
  have hnext : (skipped tokens).next marks c = skipped tokens := by
    have hplace : (skipped tokens).place = .skipping := rfl
    simp only [Parse.next, hplace, hc, if_true]
  have hstep : remaining marks (skipped tokens) (c :: rest) =
      remaining marks (skipped tokens) rest := by
    rw [remaining, hnext, if_neg (by rintro ⟨⟩)]
  obtain ⟨hsome, hblock⟩ := same_blocks (outside_space h hc rest)
  constructor
  · rw [List.foldl_cons, hnext, hrest.valid_eq, hsome]
  · intro b hb
    obtain ⟨b', hb', hparameters, -⟩ := hblock b hb
    rw [List.foldl_cons, hnext, hrest.take_tokens b' hb']
    exact congrArg (tokens ++ ·) hparameters
  · intro b hb
    obtain ⟨b', hb', -, hremaining⟩ := hblock b hb
    rw [hstep, hrest.remaining_eq b' hb', hremaining]

theorem agrees_skipped_field {c : UInt8} (hc : isspace c = false) (ht : c ≠ marks.terminator)
    {rest : List UInt8} {block : Option Block}
    (hrest : Agrees marks tokens [] block (between tokens []) (c :: rest)) :
    Agrees marks tokens [] block (skipped tokens) (c :: rest) := by
  have hnext : (skipped tokens).next marks c = (between tokens []).next marks c := by
    have hskipping : (skipped tokens).place = .skipping := rfl
    have hplain : (between tokens []).place = .plain := rfl
    simp only [Parse.next, hskipping, hplain, hc, Bool.false_eq_true, if_false, ht]
    rfl
  have hfold : (c :: rest).foldl (Parse.next marks) (skipped tokens) =
      (c :: rest).foldl (Parse.next marks) (between tokens []) := by
    rw [List.foldl_cons, List.foldl_cons, hnext]
  constructor
  · rw [hfold, hrest.valid_eq]
  · intro b hb
    rw [hfold, hrest.take_tokens b hb]
  · intro b hb
    rw [← hrest.remaining_eq b hb, remaining, remaining, hnext]

/-- The rest of a string, read in the four places. -/
structure ReadsRest (marks : Marks) (rest : List UInt8) : Prop where
  plain : ∀ tokens field, Begun marks field rest →
    Agrees marks tokens field (outside marks rest) (between tokens field) rest
  quoted : ∀ tokens field text,
    Agrees marks tokens field (inside marks text rest) (within tokens field text .quoted) rest
  escaping : ∀ tokens field text,
    Agrees marks tokens field (escaped marks text rest) (within tokens field text .escaping) rest
  skipping : marks.delimiter = 32 → ∀ tokens, tokens ≠ [] →
    Agrees marks tokens [] (outside marks rest) (skipped tokens) rest

theorem plain_delimiter (h : Distinguishable marks) {rest : List UInt8} (ih : ReadsRest marks rest)
    (hbegun : Begun marks field (marks.delimiter :: rest)) :
    Agrees marks tokens field ((outside marks rest).map Block.delimit) (between tokens field)
      (marks.delimiter :: rest) := by
  have hdt : marks.delimiter ≠ marks.terminator := h.marks_ne.1
  have hfield : marks.delimiter = 32 → field.all Piece.blank = false := by
    intro hspace
    rcases hbegun hspace with hfield | ⟨c, cs, heq, hc, -⟩
    · exact hfield
    · rw [← (List.cons.inj heq).1, hspace] at hc
      cases hc
  have hnext : (between tokens field).next marks marks.delimiter =
      { between (tokens ++ [value field]) [] with
        place := if marks.delimiter = 32 then .skipping else .plain } := by
    have hplace : (between tokens field).place = .plain := rfl
    simp only [Parse.next, hplace, Parse.outside, hdt, if_false, if_true]
    exact endToken_between tokens field _
  have hparameters : ∀ b : Block,
      tokens ++ Block.parameters marks { b.delimit with first := field ++ b.delimit.first } =
        tokens ++ [value field] ++ Block.parameters marks { b with first := [] ++ b.first } := by
    intro b
    have hnil : field ++ b.delimit.first = field := List.append_nil field
    rw [hnil, parameters_prepend_delimit hfield, List.append_assoc]
    rfl
  rcases eq_or_ne marks.delimiter 32 with hspace | hspace
  · rw [if_pos hspace] at hnext
    exact agrees_cons Block.delimit hnext (by rintro ⟨⟩)
      (ih.skipping hspace (tokens ++ [value field]) (by simp)) hparameters fun _ => rfl
  · rw [if_neg hspace] at hnext
    exact agrees_cons Block.delimit hnext (by rintro ⟨⟩)
      (ih.plain (tokens ++ [value field]) [] fun heq => absurd heq hspace) hparameters fun _ => rfl

theorem plain_cons (h : Distinguishable marks) {c : UInt8} {rest : List UInt8}
    (ih : ReadsRest marks rest)
    (hbegun : Begun marks field (c :: rest)) :
    Agrees marks tokens field (outside marks (c :: rest)) (between tokens field) (c :: rest) := by
  rcases eq_or_ne c marks.terminator with rfl | ht
  · exact agrees_terminator tokens hbegun
  rw [outside, if_neg ht]
  rcases eq_or_ne c marks.delimiter with rfl | hd
  · rw [if_pos rfl]
    exact plain_delimiter tokens field h ih hbegun
  rw [if_neg hd]
  rcases eq_or_ne c marks.quote with rfl | hq
  · rw [if_pos rfl]
    exact agrees_cons_same (next_between_quote tokens field h) (by rintro ⟨⟩)
      (ih.quoted tokens field [])
  · have hbegun' : Begun marks (field ++ [.plain c]) rest := by
      intro hspace
      left
      rcases hbegun hspace with hfield | ⟨c', cs, heq, hc, -⟩
      · rw [List.all_append, hfield, Bool.false_and]
      · rw [← (List.cons.inj heq).1] at hc
        exact all_append_not_blank hc
    rw [if_neg hq]
    refine agrees_cons (Block.put (.plain c)) (next_between_plain tokens field ht hd hq)
      (by rintro ⟨⟩) (ih.plain tokens (field ++ [.plain c]) hbegun') ?_ fun _ => rfl
    intro b
    rw [List.append_assoc]
    rfl

theorem quoted_cons (h : Distinguishable marks) {c : UInt8} {rest : List UInt8}
    (ih : ReadsRest marks rest) :
    Agrees marks tokens field (inside marks text (c :: rest)) (within tokens field text .quoted)
      (c :: rest) := by
  rw [inside]
  rcases eq_or_ne c marks.quote with rfl | hq
  · have hbegun : Begun marks (field ++ [.text text]) rest := fun _ =>
      .inl (all_append_not_blank rfl)
    rw [if_pos rfl]
    refine agrees_cons (Block.put (.text text)) (next_within_quote tokens field text)
      (by rintro ⟨⟩) (ih.plain tokens (field ++ [.text text]) hbegun) ?_ fun _ => rfl
    intro b
    rw [List.append_assoc]
    rfl
  rw [if_neg hq]
  rcases eq_or_ne c marks.escape with rfl | he
  · rw [if_pos rfl]
    exact agrees_cons_same (next_within_escape tokens field text h) (by rintro ⟨⟩)
      (ih.escaping tokens field text)
  · rw [if_neg he]
    exact agrees_cons_same (next_within_plain tokens field text hq he) (by rintro ⟨⟩)
      (ih.quoted tokens field (text ++ [c]))

theorem agrees_open {place : Place} (hplace : place = .quoted ∨ place = .escaping) :
    Agrees marks tokens field none (within tokens field text place) [] := by
  constructor
  · rcases hplace with rfl | rfl
    · rfl
    · rfl
  · intro b hb
    cases hb
  · intro b hb
    cases hb

theorem readsRest (h : Distinguishable marks) (rest : List UInt8) : ReadsRest marks rest := by
  induction rest with
  | nil =>
      constructor
      · intro tokens field hbegun
        exact agrees_end tokens hbegun
      · intro tokens field text
        rw [inside]
        exact agrees_open tokens field text (.inl rfl)
      · intro tokens field text
        rw [escaped]
        exact agrees_open tokens field text (.inr rfl)
      · intro hspace tokens hne
        exact agrees_skipped_end tokens hspace hne
  | cons c rest ih =>
      constructor
      · intro tokens field hbegun
        exact plain_cons tokens field h ih hbegun
      · intro tokens field text
        exact quoted_cons tokens field text h ih
      · intro tokens field text
        rw [escaped]
        exact agrees_cons_same (next_within_escaped tokens field text c) (by rintro ⟨⟩)
          (ih.quoted tokens field (text ++ [c]))
      · intro hspace tokens hne
        cases hc : isspace c with
        | true => exact agrees_skipped_space tokens h hc (ih.skipping hspace tokens hne)
        | false =>
            rcases eq_or_ne c marks.terminator with rfl | ht
            · exact agrees_skipped_terminator tokens h hspace hne rest
            · refine agrees_skipped_field tokens hc ht ?_
              exact plain_cons tokens [] h ih fun _ => .inr ⟨c, rest, rfl, hc, ht⟩

end Parsing

/-- What the tokenizer makes of a block: a string of white space has no parameters, and a block
without text has an empty one, for every delimiter. -/
def givenParameters (marks : Marks) (string : List UInt8) (b : Block) : List (List UInt8) :=
  match string.dropWhile isspace with
  | [] => []
  | c :: _ => if c = marks.terminator then [[]] else b.parameters marks

theorem textBlock_spec {marks : Marks} (h : Distinguishable marks) (string : List UInt8) :
    (textBlock marks string).validTokens = (outside marks string).isSome ∧
      ∀ b, outside marks string = some b →
        (textBlock marks string).tokens.take (textBlock marks string).count =
            givenParameters marks string b ∧
          remaining marks .initial (string.dropWhile isspace) = b.remaining := by
  obtain ⟨hvalid, hblock⟩ := same_blocks (outside_dropWhile h string)
  rw [hvalid]
  have hhead := List.head?_dropWhile_not isspace string
  cases hrest : string.dropWhile isspace with
  | nil =>
      rw [hrest] at hblock
      have htext : textBlock marks string = .initial := by rw [textBlock, hrest]
      constructor
      · rw [htext, outside]
        rfl
      · intro b hb
        obtain ⟨b', hb', -, hremaining⟩ := hblock b hb
        rw [outside] at hb'
        obtain rfl := Option.some.inj hb'
        constructor
        · rw [htext, givenParameters, hrest]
          rfl
        · rw [← hremaining]
          rfl
  | cons c rest =>
      rw [hrest] at hblock hhead
      have hc : isspace c = false := by simpa using hhead
      have htext : textBlock marks string =
          ((c :: rest).foldl (Parse.next marks) (between [] [])).finish := by
        rw [textBlock, hrest]
        rfl
      rcases eq_or_ne c marks.terminator with rfl | ht
      · have hnext : (between [] []).next marks marks.terminator =
            { between [[]] [] with place := .terminated } := if_pos rfl
        have hfold : textBlock marks string = { between [[]] [] with place := .terminated } := by
          rw [htext, List.foldl_cons, hnext, foldl_terminated rfl]
          rfl
        constructor
        · rw [hfold, outside, if_pos rfl]
          rfl
        · intro b hb
          obtain ⟨b', hb', -, hremaining⟩ := hblock b hb
          rw [outside, if_pos rfl] at hb'
          obtain rfl := Option.some.inj hb'
          constructor
          · rw [hfold, givenParameters, hrest]
            exact (if_pos rfl).symm
          · rw [← hremaining, remaining]
            exact if_pos (congrArg Parse.place hnext)
      · have hagrees := (readsRest h (c :: rest)).plain [] [] fun _ => .inr ⟨c, rest, rfl, hc, ht⟩
        constructor
        · rw [htext, hagrees.valid_eq]
        · intro b hb
          obtain ⟨b', hb', hparameters, hremaining⟩ := hblock b hb
          constructor
          · rw [htext, hagrees.take_tokens b' hb', givenParameters, hrest]
            exact hparameters.trans (if_neg ht).symm
          · rw [← hremaining]
            exact hagrees.remaining_eq b' hb'

end ColonyPico.Text.TextBlockGrammar
