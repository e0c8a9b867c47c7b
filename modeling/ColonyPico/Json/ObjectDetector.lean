import ColonyPico.Foundations.BracketedText
import Mathlib.Algebra.Group.Nat.Defs

/-!
Finding a whole JSON object in a stream that comes in chunks (`Cpl::Json::ObjectDetector`).
-/

namespace ColonyPico.Json.ObjectDetector

open ColonyPico.Foundations.BracketedText

inductive State where
  | notStarted
  | plain
  | quoted
  | escaped
  | found
  deriving DecidableEq

/-- The detector; its counters are of `sizeBits` bits. -/
structure Detector where
  offset : Nat
  startOffset : Nat
  braceCount : Nat
  state : State
  deriving DecidableEq

def reset : Detector :=
  { offset := 0, startOffset := 0, braceCount := 0, state := .notStarted }

/-- `{`, `}`, the quotation mark and the backslash. -/
def marks : Marks UInt8 :=
  { opening := 123
    closing := 125
    quote := 34
    escape := 92
    opening_ne_closing := by decide
    opening_ne_quote := by decide
    closing_ne_quote := by decide
    quote_ne_escape := by decide }

variable (sizeBits : Nat)

def increment (n : Nat) : Nat :=
  (n + 1) % 2 ^ sizeBits

/-- One pass of the switch; the offsets when it returns `true`. -/
def pass (d : Detector) (c : UInt8) : Detector × Option (Nat × Nat) :=
  match d.state with
  | .notStarted =>
      if c = marks.opening then
        ({ d with
            state := .plain
            startOffset := d.offset
            braceCount := increment sizeBits d.braceCount }, none)
      else (d, none)
  | .plain =>
      if c = marks.opening then
        ({ d with braceCount := increment sizeBits d.braceCount }, none)
      else if c = marks.closing then
        -- an unsigned decrement
        let d := { d with braceCount := (d.braceCount + (2 ^ sizeBits - 1)) % 2 ^ sizeBits }
        if d.braceCount = 0 then ({ d with state := .found }, some (d.startOffset, d.offset))
        else (d, none)
      else if c = marks.quote then ({ d with state := .quoted }, none)
      else (d, none)
  | .quoted =>
      if c = marks.quote then ({ d with state := .plain }, none)
      else if c = marks.escape then ({ d with state := .escaped }, none)
      else (d, none)
  | .escaped => ({ d with state := .quoted }, none)
  | .found => (d, some (0, 0))

/-- `scan()`: the offsets of the object that it has found. -/
def scan (d : Detector) : List UInt8 → Detector × Option (Nat × Nat)
  | [] => (d, none)
  | c :: rest =>
      match pass sizeBits d c with
      | (d, some offsets) => (d, some offsets)
      | (d, none) => scan { d with offset := increment sizeBits d.offset } rest

/-- What the calls of `scan()` return, one for each chunk. -/
def scans (d : Detector) : List (List UInt8) → List (Option (Nat × Nat))
  | [] => []
  | chunk :: chunks => (scan sizeBits d chunk).2 :: scans (scan sizeBits d chunk).1 chunks

section Scanning

variable {sizeBits} {d : Detector}

theorem scan_append (d : Detector) (before after : List UInt8) :
    scan sizeBits d (before ++ after) =
      if (scan sizeBits d before).2 = none then scan sizeBits (scan sizeBits d before).1 after
      else scan sizeBits d before := by
  induction before generalizing d with
  | nil => rfl
  | cons c rest ih =>
      rw [List.cons_append, scan, scan]
      rcases pass sizeBits d c with ⟨d', - | offsets⟩
      · exact ih _
      · rfl

theorem increment_eq {n k : Nat} (h : n + (k + 1) < 2 ^ sizeBits) :
    increment sizeBits n = n + 1 :=
  Nat.mod_eq_of_lt (by omega)

/-- The state of a detector that is within an object. -/
def State.ofMode : Mode → State
  | .plain => .plain
  | .quoted => .quoted
  | .escaped => .escaped

/-- Within an object, a scan finds where its outermost brace ends. -/
theorem scan_within {text : List UInt8} {mode : Mode} {depth : Nat}
    (hstate : d.state = .ofMode mode) (hcount : d.braceCount = depth + 1)
    (hdepth : depth + 1 + text.length < 2 ^ sizeBits)
    (hoffset : d.offset + text.length < 2 ^ sizeBits) :
    (scan sizeBits d text).2 =
      (ending marks mode (depth + 1) text).map fun last => (d.startOffset, d.offset + last) := by
  induction text generalizing d mode depth with
  | nil => rfl
  | cons c rest ih =>
      rw [List.length_cons] at hdepth hoffset
      -- a pass that goes on in the object
      have hpass : ∀ {d' : Detector} {mode' : Mode} {depth' : Nat},
          pass sizeBits d c = (d', none) → d'.state = .ofMode mode' →
          d'.braceCount = depth' + 1 → depth' ≤ depth + 1 → d'.startOffset = d.startOffset →
          d'.offset = d.offset →
          ending marks mode (depth + 1) (c :: rest) =
            (ending marks mode' (depth' + 1) rest).map (· + 1) →
          (scan sizeBits d (c :: rest)).2 = (ending marks mode (depth + 1) (c :: rest)).map
            fun last => (d.startOffset, d.offset + last) := by
        intro d' mode' depth' heq hstate' hcount' hle hstart hsame hending
        have hnext : increment sizeBits d'.offset = d.offset + 1 := by
          rw [hsame, increment_eq hoffset]
        have hrest := @ih ⟨d.offset + 1, d'.startOffset, d'.braceCount, d'.state⟩ mode' depth'
          hstate' hcount' (by omega) (show d.offset + 1 + rest.length < _ by omega)
        rw [scan, heq]
        dsimp only
        rw [hnext, hrest, hending, Option.map_map, hstart]
        refine congrArg (Option.map · _) (funext fun last => ?_)
        rw [Function.comp_apply, Nat.add_assoc, Nat.add_comm 1 last]
      rcases d with ⟨offset, startOffset, braceCount, state⟩
      dsimp only at hstate hcount
      subst hstate hcount
      cases mode with
      | plain =>
          by_cases hopening : c = marks.opening
          · have hcount : increment sizeBits (depth + 1) = depth + 2 := increment_eq hdepth
            refine @hpass ⟨offset, startOffset, depth + 2, .plain⟩ .plain (depth + 1) ?_ rfl rfl
              (Nat.le_refl _) rfl rfl ?_
            · simp only [pass, State.ofMode, if_pos hopening, hcount]
            · rw [ending, if_pos hopening]
          by_cases hclosing : c = marks.closing
          · have hcount : (depth + 1 + (2 ^ sizeBits - 1)) % 2 ^ sizeBits = depth := by
              rw [show depth + 1 + (2 ^ sizeBits - 1) = depth + 2 ^ sizeBits by omega,
                Nat.add_mod_right, Nat.mod_eq_of_lt (by omega)]
            cases depth with
            | zero =>
                simp only [scan, pass, State.ofMode, ending, if_neg hopening, if_pos hclosing,
                  hcount, if_true, Option.map_some, Nat.zero_add, Nat.add_zero]
            | succ depth =>
                refine @hpass ⟨offset, startOffset, depth + 1, .plain⟩ .plain depth ?_ rfl rfl
                  (by omega) rfl rfl ?_
                · simp only [pass, State.ofMode, if_neg hopening, if_pos hclosing, hcount,
                    if_neg (Nat.succ_ne_zero depth)]
                · rw [ending, if_neg hopening, if_pos hclosing, if_neg (by omega),
                    Nat.add_sub_cancel]
          by_cases hquote : c = marks.quote
          · refine @hpass ⟨offset, startOffset, depth + 1, .quoted⟩ .quoted depth ?_ rfl rfl
              (Nat.le_succ _) rfl rfl ?_
            · simp only [pass, State.ofMode, if_neg hopening, if_neg hclosing, if_pos hquote]
            · rw [ending, if_neg hopening, if_neg hclosing, if_pos hquote]
          · refine @hpass ⟨offset, startOffset, depth + 1, .plain⟩ .plain depth ?_ rfl rfl
              (Nat.le_succ _) rfl rfl ?_
            · simp only [pass, State.ofMode, if_neg hopening, if_neg hclosing, if_neg hquote]
            · rw [ending, if_neg hopening, if_neg hclosing, if_neg hquote]
      | quoted =>
          by_cases hquote : c = marks.quote
          · refine @hpass ⟨offset, startOffset, depth + 1, .plain⟩ .plain depth ?_ rfl rfl
              (Nat.le_succ _) rfl rfl ?_
            · simp only [pass, State.ofMode, if_pos hquote]
            · rw [ending, if_pos hquote]
          by_cases hescape : c = marks.escape
          · refine @hpass ⟨offset, startOffset, depth + 1, .escaped⟩ .escaped depth ?_ rfl rfl
              (Nat.le_succ _) rfl rfl ?_
            · simp only [pass, State.ofMode, if_neg hquote, if_pos hescape]
            · rw [ending, if_neg hquote, if_pos hescape]
          · refine @hpass ⟨offset, startOffset, depth + 1, .quoted⟩ .quoted depth ?_ rfl rfl
              (Nat.le_succ _) rfl rfl ?_
            · simp only [pass, State.ofMode, if_neg hquote, if_neg hescape]
            · rw [ending, if_neg hquote, if_neg hescape]
      | escaped =>
          exact @hpass ⟨offset, startOffset, depth + 1, .quoted⟩ .quoted depth rfl rfl rfl
            (Nat.le_succ _) rfl rfl rfl

/-- An object in a text, behind what has no opening brace. -/
def IsObject (text : List UInt8) (startOffset endOffset : Nat) : Prop :=
  ∃ pre body post, text = pre ++ marks.opening :: (body ++ marks.closing :: post) ∧
    marks.opening ∉ pre ∧ Balanced marks body ∧ startOffset = pre.length ∧
    endOffset = pre.length + 1 + body.length

/-- Before an object, a scan skips what is no opening brace. -/
theorem scan_before {pre : List UInt8} (hpre : marks.opening ∉ pre)
    {offset startOffset braceCount : Nat} (hroom : offset + pre.length < 2 ^ sizeBits) :
    scan sizeBits ⟨offset, startOffset, braceCount, .notStarted⟩ pre =
      (⟨offset + pre.length, startOffset, braceCount, .notStarted⟩, none) := by
  induction pre generalizing offset with
  | nil => rfl
  | cons c pre ih =>
      rw [List.mem_cons, not_or] at hpre
      rw [List.length_cons] at hroom
      have hpass : pass sizeBits ⟨offset, startOffset, braceCount, .notStarted⟩ c =
          (⟨offset, startOffset, braceCount, .notStarted⟩, none) :=
        if_neg (Ne.symm hpre.1)
      rw [scan, hpass]
      dsimp only
      rw [increment_eq hroom, ih hpre.2 (by omega), List.length_cons, Nat.add_assoc,
        Nat.add_comm 1]

theorem scan_reset {pre rest : List UInt8} (hpre : marks.opening ∉ pre)
    (hroom : (pre ++ marks.opening :: rest).length < 2 ^ sizeBits) :
    (scan sizeBits reset (pre ++ marks.opening :: rest)).2 =
      (ending marks .plain 1 rest).map fun last => (pre.length, pre.length + 1 + last) := by
  rw [List.length_append, List.length_cons] at hroom
  have hskip : scan sizeBits reset pre = (⟨pre.length, 0, 0, .notStarted⟩, none) := by
    have hskip := @scan_before sizeBits pre hpre 0 0 0 (by omega)
    rwa [Nat.zero_add] at hskip
  have hcount : increment sizeBits 0 = 1 := increment_eq (k := rest.length) (by omega)
  have hoffset : increment sizeBits pre.length = pre.length + 1 := increment_eq hroom
  have hpass : pass sizeBits ⟨pre.length, 0, 0, .notStarted⟩ marks.opening =
      (⟨pre.length, pre.length, 1, .plain⟩, none) := by
    simp only [pass, if_true, hcount]
  have hwithin := @scan_within sizeBits ⟨pre.length + 1, pre.length, 1, .plain⟩ rest .plain 0
    rfl rfl (by omega) (show pre.length + 1 + rest.length < _ by omega)
  rw [scan_append, hskip, if_pos rfl, scan, hpass]
  dsimp only
  rw [hoffset]
  exact hwithin

/-- A scan finds an object just where one is. -/
theorem scan_eq_some_iff {text : List UInt8} (hroom : text.length < 2 ^ sizeBits)
    {startOffset endOffset : Nat} :
    (scan sizeBits reset text).2 = some (startOffset, endOffset) ↔
      IsObject text startOffset endOffset := by
  constructor
  · intro h
    by_cases hmem : marks.opening ∈ text
    · obtain ⟨pre, rest, rfl, hpre⟩ := List.eq_append_cons_of_mem hmem
      rw [scan_reset hpre hroom] at h
      obtain ⟨last, hending, heq⟩ := Option.map_eq_some_iff.mp h
      obtain ⟨rfl, rfl⟩ := Prod.mk.inj heq
      obtain ⟨body, post, hbody, rfl, rfl⟩ := ending_eq_some_iff.mp hending
      exact ⟨pre, body, post, rfl, hpre, hbody, rfl, rfl⟩
    · have hskip := @scan_before sizeBits text hmem 0 0 0 (by omega)
      rw [reset, hskip] at h
      cases h
  · rintro ⟨pre, body, post, rfl, hpre, hbody, rfl, rfl⟩
    rw [scan_reset hpre hroom, ending_eq_some_iff.mpr ⟨body, post, hbody, rfl, rfl⟩,
      Option.map_some]

theorem IsObject.append {text : List UInt8} {startOffset endOffset : Nat}
    (h : IsObject text startOffset endOffset) (more : List UInt8) :
    IsObject (text ++ more) startOffset endOffset := by
  obtain ⟨pre, body, post, rfl, hpre, hbody, hstart, hend⟩ := h
  refine ⟨pre, body, post ++ more, ?_, hpre, hbody, hstart, hend⟩
  rw [List.append_assoc, List.cons_append, List.append_assoc, List.cons_append]

theorem IsObject.of_append {text more : List UInt8} {startOffset endOffset : Nat}
    (h : IsObject (text ++ more) startOffset endOffset) (hlt : endOffset < text.length) :
    IsObject text startOffset endOffset := by
  obtain ⟨pre, body, post, hsplit, hpre, hbody, rfl, rfl⟩ := h
  have hlength : (pre ++ marks.opening :: (body ++ [marks.closing])).length ≤ text.length := by
    rw [List.length_append, List.length_cons, List.length_append, List.length_singleton]
    omega
  have hprefix : pre ++ marks.opening :: (body ++ [marks.closing]) <+: text := by
    refine List.prefix_of_prefix_length_le ⟨post, ?_⟩ (List.prefix_append text more) hlength
    rw [hsplit, List.append_assoc, List.cons_append, List.append_assoc]
    rfl
  obtain ⟨post', rfl⟩ := hprefix
  refine ⟨pre, body, post', ?_, hpre, hbody, rfl, rfl⟩
  rw [List.append_assoc, List.cons_append, List.append_assoc]
  rfl

theorem IsObject.endOffset_lt {text : List UInt8} {startOffset endOffset : Nat}
    (h : IsObject text startOffset endOffset) : endOffset < text.length := by
  obtain ⟨pre, body, post, rfl, -, -, -, rfl⟩ := h
  rw [List.length_append, List.length_cons, List.length_append, List.length_cons]
  omega

/-- What a scan returns behind an object. -/
def nullMatch (chunk : List UInt8) : Option (Nat × Nat) :=
  if chunk = [] then none else some (0, 0)

theorem pass_found {d d' : Detector} {c : UInt8} {offsets : Nat × Nat}
    (h : pass sizeBits d c = (d', some offsets)) : d'.state = .found := by
  rcases d with ⟨offset, startOffset, braceCount, state⟩
  cases state with
  | found => exact (Prod.mk.inj h).1 ▸ rfl
  | escaped => cases h
  | notStarted =>
      rw [pass] at h
      split_ifs at h <;> cases h
  | quoted =>
      rw [pass] at h
      split_ifs at h <;> cases h
  | plain =>
      simp only [pass] at h
      split_ifs at h <;> simp only [Prod.mk.injEq, reduceCtorEq, and_false] at h
      rw [← h.1]

theorem scan_found {d : Detector} {text : List UInt8} {offsets : Nat × Nat}
    (h : (scan sizeBits d text).2 = some offsets) : (scan sizeBits d text).1.state = .found := by
  induction text generalizing d with
  | nil => cases h
  | cons c rest ih =>
      rw [scan] at h ⊢
      rcases hpass : pass sizeBits d c with ⟨d', - | offsets'⟩
      · rw [hpass] at h
        exact ih h
      · exact pass_found hpass

theorem scans_found {d : Detector} (hd : d.state = .found) (chunks : List (List UInt8)) :
    scans sizeBits d chunks = chunks.map nullMatch := by
  have hscan : ∀ chunk, scan sizeBits d chunk = (d, nullMatch chunk) := by
    intro chunk
    cases chunk with
    | nil => rfl
    | cons c rest =>
        have hpass : pass sizeBits d c = (d, some (0, 0)) := by
          rw [pass, hd]
        rw [scan, hpass]
        rfl
  induction chunks with
  | nil => rfl
  | cons chunk chunks ih => rw [scans, hscan, ih, List.map_cons]

/-- Calls that find nothing, before others. -/
theorem scans_append_of_none {d : Detector} {before : List (List UInt8)}
    (hnone : (scan sizeBits d before.flatten).2 = none) (after : List (List UInt8)) :
    scans sizeBits d (before ++ after) =
      before.map (fun _ => none) ++ scans sizeBits (scan sizeBits d before.flatten).1 after := by
  induction before generalizing d with
  | nil => rfl
  | cons chunk before ih =>
      rw [List.flatten_cons, scan_append] at hnone
      rw [List.flatten_cons, scan_append, List.cons_append, scans, List.map_cons, List.cons_append]
      split_ifs at hnone ⊢ with hchunk
      · rw [hchunk, ih hnone]
      · exact absurd hnone hchunk

/-- The chunk with a position of the whole text. -/
theorem exists_chunk {chunks : List (List UInt8)} {n : Nat} (hn : n < chunks.flatten.length) :
    ∃ before chunk after, chunks = before ++ chunk :: after ∧ before.flatten.length ≤ n ∧
      n < before.flatten.length + chunk.length := by
  induction chunks generalizing n with
  | nil => cases hn
  | cons chunk chunks ih =>
      rcases Nat.lt_or_ge n chunk.length with hlt | hge
      · exact ⟨[], chunk, chunks, rfl, Nat.zero_le n, by rwa [List.flatten_nil, List.length_nil,
          Nat.zero_add]⟩
      · rw [List.flatten_cons, List.length_append] at hn
        obtain ⟨before, chunk', after, rfl, hle, hlt⟩ := @ih (n - chunk.length) (by omega)
        refine ⟨chunk :: before, chunk', after, rfl, ?_, ?_⟩
        · rw [List.flatten_cons, List.length_append]
          omega
        · rw [List.flatten_cons, List.length_append]
          omega

/-- However a text is cut into chunks, the call with the end of its first object finds it, with the
offsets in the whole text; the calls before find nothing, and those behind a match of nothing. -/
theorem scans_object (sizeBits : Nat) (chunks : List (List UInt8))
    (hroom : chunks.flatten.length < 2 ^ sizeBits) :
    (∀ startOffset endOffset, IsObject chunks.flatten startOffset endOffset →
      ∃ before chunk after, chunks = before ++ chunk :: after ∧
        before.flatten.length ≤ endOffset ∧ endOffset < before.flatten.length + chunk.length ∧
        scans sizeBits reset chunks =
          before.map (fun _ => none) ++ some (startOffset, endOffset) :: after.map nullMatch) ∧
    ((∀ startOffset endOffset, ¬ IsObject chunks.flatten startOffset endOffset) →
      scans sizeBits reset chunks = chunks.map fun _ => none) := by
  constructor
  · intro startOffset endOffset hobject
    obtain ⟨before, chunk, after, rfl, hle, hlt⟩ := exists_chunk hobject.endOffset_lt
    rw [List.flatten_append, List.flatten_cons] at hobject hroom
    have hscan := (scan_eq_some_iff hroom).mpr hobject
    rw [List.length_append, List.length_append] at hroom
    have hnone : (scan sizeBits reset before.flatten).2 = none := by
      cases hfound : (scan sizeBits reset before.flatten).2 with
      | none => rfl
      | some offsets =>
          have hearly := (scan_eq_some_iff (show before.flatten.length < _ by omega)).mp hfound
          have hsame := hearly.append (chunk ++ after.flatten)
          rw [← scan_eq_some_iff (by rw [List.length_append, List.length_append]; omega), hscan]
            at hsame
          obtain ⟨-, rfl⟩ := Prod.mk.inj (Option.some.inj hsame)
          exact absurd hearly.endOffset_lt (Nat.not_lt.mpr hle)
    have hchunk : (scan sizeBits (scan sizeBits reset before.flatten).1 chunk).2 =
        some (startOffset, endOffset) := by
      rw [← List.append_assoc] at hobject
      have hroom' : (before.flatten ++ chunk).length < 2 ^ sizeBits := by
        rw [List.length_append]
        omega
      have hwhole := (scan_eq_some_iff hroom').mpr
        (hobject.of_append (by rwa [List.length_append]))
      rwa [scan_append, if_pos hnone] at hwhole
    refine ⟨before, chunk, after, rfl, hle, hlt, ?_⟩
    rw [scans_append_of_none hnone, scans, hchunk, scans_found (scan_found hchunk)]
  · intro hnot
    have hnone : (scan sizeBits reset chunks.flatten).2 = none := by
      cases hfound : (scan sizeBits reset chunks.flatten).2 with
      | none => rfl
      | some offsets => exact absurd ((scan_eq_some_iff hroom).mp hfound) (hnot _ _)
    have hall := scans_append_of_none hnone []
    rwa [List.append_nil, scans, List.append_nil] at hall
/-- A brace within quotes and an escaped quotation mark. -/
theorem scans_object_quoted : ∃ before chunk after,
    [[120, 123, 34, 125, 92, 34], [34], [125, 123, 125], [], [125]] = before ++ chunk :: after ∧
      before.flatten.length ≤ 7 ∧ 7 < before.flatten.length + chunk.length ∧
      scans 32 reset [[120, 123, 34, 125, 92, 34], [34], [125, 123, 125], [], [125]] =
        before.map (fun _ => none) ++ some (1, 7) :: after.map nullMatch := by
  have hbody : Balanced marks [34, 125, 92, 34, 34] :=
    .quoted (.char (by decide) (by decide) (.escaped 34 .nil)) .nil
  have hobject : IsObject [120, 123, 34, 125, 92, 34, 34, 125, 123, 125, 125] 1 7 :=
    ⟨[120], [34, 125, 92, 34, 34], [123, 125, 125], rfl, by decide, hbody, rfl, rfl⟩
  have hroom : 11 < 2 ^ 32 := Nat.lt_trans (by decide : 11 < 32) Nat.lt_two_pow_self
  exact (scans_object 32 [[120, 123, 34, 125, 92, 34], [34], [125, 123, 125], [], [125]] hroom).1
    1 7 hobject

end Scanning

end ColonyPico.Json.ObjectDetector
