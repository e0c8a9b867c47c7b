import Mathlib.Data.List.Basic

/-!
Texts in which brackets match, outside of quoted parts, and the machine that counts the brackets.
-/

namespace ColonyPico.Foundations.BracketedText

variable {α : Type*}

/-- The marks of the brackets, of the quotes and of an escaped character within quotes. -/
structure Marks (α : Type*) where
  opening : α
  closing : α
  quote : α
  escape : α
  opening_ne_closing : opening ≠ closing
  opening_ne_quote : opening ≠ quote
  closing_ne_quote : closing ≠ quote
  quote_ne_escape : quote ≠ escape

variable (marks : Marks α)

/-- What stands between two quotes. -/
inductive QuotedBody : List α → Prop
  | nil : QuotedBody []
  | char {c : α} {rest : List α} (hquote : c ≠ marks.quote) (hescape : c ≠ marks.escape)
      (hrest : QuotedBody rest) : QuotedBody (c :: rest)
  | escaped (c : α) {rest : List α} (hrest : QuotedBody rest) :
      QuotedBody (marks.escape :: c :: rest)

/-- What stands between two brackets that match. -/
inductive Balanced : List α → Prop
  | nil : Balanced []
  | char {c : α} {rest : List α} (hopening : c ≠ marks.opening) (hclosing : c ≠ marks.closing)
      (hquote : c ≠ marks.quote) (hrest : Balanced rest) : Balanced (c :: rest)
  | quoted {body rest : List α} (hbody : QuotedBody marks body) (hrest : Balanced rest) :
      Balanced (marks.quote :: (body ++ marks.quote :: rest))
  | nested {body rest : List α} (hbody : Balanced body) (hrest : Balanced rest) :
      Balanced (marks.opening :: (body ++ marks.closing :: rest))

/-- The rest of a text within so many brackets, up to the last of their ends. -/
inductive Closes : Nat → List α → Prop
  | done : Closes 0 []
  | close {depth : Nat} {body rest : List α} (hbody : Balanced marks body)
      (hrest : Closes depth rest) : Closes (depth + 1) (body ++ marks.closing :: rest)

inductive Mode where
  | plain
  | quoted
  | escaped
  deriving DecidableEq

variable [DecidableEq α]

/-- The machine; it gives the position of the mark that ends the outermost bracket. -/
def ending : Mode → Nat → List α → Option Nat
  | _, _, [] => none
  | .plain, depth, c :: rest =>
      if c = marks.opening then (ending .plain (depth + 1) rest).map (· + 1)
      else if c = marks.closing then
        if depth = 1 then some 0 else (ending .plain (depth - 1) rest).map (· + 1)
      else if c = marks.quote then (ending .quoted depth rest).map (· + 1)
      else (ending .plain depth rest).map (· + 1)
  | .quoted, depth, c :: rest =>
      if c = marks.quote then (ending .plain depth rest).map (· + 1)
      else if c = marks.escape then (ending .escaped depth rest).map (· + 1)
      else (ending .quoted depth rest).map (· + 1)
  | .escaped, depth, _ :: rest => (ending .quoted depth rest).map (· + 1)

section Completeness

variable {marks}

omit [DecidableEq α] in
theorem map_add (m n : Nat) (o : Option Nat) :
    (o.map (· + m)).map (· + n) = o.map (· + (m + n)) := by
  rw [Option.map_map]
  refine congrArg (Option.map · o) (funext fun k => ?_)
  rw [Function.comp_apply, Nat.add_assoc]

theorem ending_quoted {body : List α} (hbody : QuotedBody marks body) (depth : Nat)
    (rest : List α) :
    ending marks .quoted depth (body ++ marks.quote :: rest) =
      (ending marks .plain depth rest).map (· + (body.length + 1)) := by
  induction hbody with
  | nil => rw [List.nil_append, ending, if_pos rfl, List.length_nil, Nat.zero_add]
  | char hquote hescape _ ih =>
      rw [List.cons_append, ending, if_neg hquote, if_neg hescape, ih, map_add, List.length_cons]
  | escaped c _ ih =>
      rw [List.cons_append, List.cons_append, ending, if_neg marks.quote_ne_escape.symm,
        if_pos rfl, ending, ih, map_add, map_add, List.length_cons, List.length_cons,
        Nat.add_right_comm]

/-- A text in which the brackets match leaves the depth. -/
theorem ending_balanced {body : List α} (hbody : Balanced marks body) {depth : Nat}
    (hdepth : 0 < depth) (rest : List α) :
    ending marks .plain depth (body ++ rest) =
      (ending marks .plain depth rest).map (· + body.length) := by
  induction hbody generalizing depth rest with
  | nil =>
      simp
  | char hopening hclosing hquote _ ih =>
      rw [List.cons_append, ending, if_neg hopening, if_neg hclosing, if_neg hquote, ih hdepth,
        map_add, List.length_cons]
  | @quoted body rest' hbody _ ih =>
      rw [List.cons_append, List.append_assoc, List.cons_append, ending,
        if_neg marks.opening_ne_quote.symm, if_neg marks.closing_ne_quote.symm, if_pos rfl,
        ending_quoted hbody, ih hdepth, map_add, map_add]
      simp only [List.length_cons, List.length_append, Nat.add_left_comm, Nat.add_comm]
  | @nested body rest' _ _ ihbody ih =>
      rw [List.cons_append, List.append_assoc, List.cons_append, ending, if_pos rfl,
        ihbody (Nat.succ_pos depth), ending, if_neg marks.opening_ne_closing.symm, if_pos rfl,
        if_neg (by omega), Nat.succ_sub_one, ih hdepth, map_add, map_add, map_add]
      simp only [List.length_cons, List.length_append, Nat.add_left_comm, Nat.add_comm]

end Completeness

section Soundness

variable {marks} {depth : Nat} {c : α} {text : List α}

omit [DecidableEq α] in
theorem Closes.char (hopening : c ≠ marks.opening) (hclosing : c ≠ marks.closing)
    (hquote : c ≠ marks.quote) (h : Closes marks (depth + 1) text) :
    Closes marks (depth + 1) (c :: text) := by
  cases h with
  | close hbody hrest =>
      rw [← List.cons_append]
      exact .close (.char hopening hclosing hquote hbody) hrest

omit [DecidableEq α] in
theorem Closes.opening (h : Closes marks (depth + 2) text) :
    Closes marks (depth + 1) (marks.opening :: text) := by
  cases h with
  | @close _ body _ hbody hrest =>
      cases hrest with
      | @close _ body' rest hbody' hrest =>
          have hnested := Balanced.nested hbody hbody'
          have h := Closes.close hnested hrest
          rwa [List.cons_append, List.append_assoc, List.cons_append] at h

omit [DecidableEq α] in
theorem Closes.quoted {body : List α} (hquoted : QuotedBody marks body)
    (h : Closes marks (depth + 1) text) :
    Closes marks (depth + 1) (marks.quote :: (body ++ marks.quote :: text)) := by
  cases h with
  | @close _ body' rest hbody hrest =>
      have h := Closes.close (Balanced.quoted hquoted hbody) hrest
      rwa [List.cons_append, List.append_assoc, List.cons_append] at h

omit [DecidableEq α] in
theorem Closes.closing (h : Closes marks depth text) :
    Closes marks (depth + 1) (marks.closing :: text) :=
  .close .nil h

/-- What a machine in a mode has read when it ends. -/
def Reads (marks : Marks α) : Mode → Nat → List α → Prop
  | .plain, depth, text => Closes marks (depth + 1) text
  | .quoted, depth, text => ∃ body rest, QuotedBody marks body ∧
      Closes marks (depth + 1) rest ∧ text = body ++ marks.quote :: rest
  | .escaped, depth, text => ∃ c body rest, QuotedBody marks body ∧
      Closes marks (depth + 1) rest ∧ text = c :: (body ++ marks.quote :: rest)

theorem reads_of_ending (mode : Mode) (depth : Nat) {last : Nat} {text : List α}
    (h : ending marks mode (depth + 1) text = some last) :
    ∃ before after, text = before ++ after ∧ before.length = last + 1 ∧
      Reads marks mode depth before := by
  induction text generalizing mode depth last with
  | nil => cases h
  | cons c rest ih =>
      -- the rest, and what it makes of the text with its first character
      have hcons : ∀ {mode' : Mode} {depth' : Nat},
          (ending marks mode' (depth' + 1) rest).map (· + 1) = some last →
          (∀ before, Reads marks mode' depth' before → Reads marks mode depth (c :: before)) →
          ∃ before after, c :: rest = before ++ after ∧ before.length = last + 1 ∧
            Reads marks mode depth before := by
        intro mode' depth' hending hreads
        obtain ⟨last, hrest, rfl⟩ := Option.map_eq_some_iff.mp hending
        obtain ⟨before, after, rfl, hlength, hbefore⟩ := ih mode' depth' hrest
        exact ⟨c :: before, after, rfl, by rw [List.length_cons, hlength], hreads before hbefore⟩
      cases mode with
      | plain =>
          rw [ending] at h
          split_ifs at h with hopening hclosing hone hquote
          · subst hopening
            exact hcons h fun before => Closes.opening
          · subst hclosing
            obtain rfl := Option.some.inj h
            obtain rfl : depth = 0 := by omega
            exact ⟨[marks.closing], rest, rfl, rfl, Closes.done.closing⟩
          · subst hclosing
            obtain ⟨depth, rfl⟩ := Nat.exists_eq_add_one_of_ne_zero (n := depth) (by omega)
            exact hcons h fun before => Closes.closing
          · subst hquote
            refine hcons h ?_
            rintro before ⟨body, text, hbody, hcloses, rfl⟩
            exact hcloses.quoted hbody
          · exact hcons h fun before => Closes.char hopening hclosing hquote
      | quoted =>
          rw [ending] at h
          split_ifs at h with hquote hescape
          · subst hquote
            exact hcons h fun before hcloses => ⟨[], before, .nil, hcloses, rfl⟩
          · subst hescape
            refine hcons h ?_
            rintro before ⟨c, body, text, hbody, hcloses, rfl⟩
            exact ⟨_, text, .escaped c hbody, hcloses, rfl⟩
          · refine hcons h ?_
            rintro before ⟨body, text, hbody, hcloses, rfl⟩
            exact ⟨c :: body, text, .char hquote hescape hbody, hcloses, rfl⟩
      | escaped =>
          refine hcons h ?_
          rintro before ⟨body, text, hbody, hcloses, rfl⟩
          exact ⟨c, body, text, hbody, hcloses, rfl⟩

/-- The machine finds the end of the first bracket just when the text up to it matches. -/
theorem ending_eq_some_iff {last : Nat} {text : List α} :
    ending marks .plain 1 text = some last ↔
      ∃ body after, Balanced marks body ∧ text = body ++ marks.closing :: after ∧
        last = body.length := by
  constructor
  · intro h
    obtain ⟨before, after, rfl, hlength, hcloses⟩ := reads_of_ending .plain 0 h
    cases hcloses with
    | @close _ body rest hbody hrest =>
        cases hrest with
        | done =>
            rw [List.length_append, List.length_singleton, Nat.add_right_cancel_iff] at hlength
            exact ⟨body, after, hbody, List.append_assoc _ _ _, hlength.symm⟩
  · rintro ⟨body, after, hbody, rfl, rfl⟩
    rw [ending_balanced hbody Nat.one_pos, ending, if_neg marks.opening_ne_closing.symm,
      if_pos rfl, if_pos rfl, Option.map_some, Nat.zero_add]

end Soundness

end ColonyPico.Foundations.BracketedText
