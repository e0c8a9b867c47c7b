import Mathlib.Data.List.TakeWhile
import ColonyPico.Text.FrameCodec

/-!
Lines of printable text as frames (`Cpl::Text::Frame::LineDecoder`).
-/

namespace ColonyPico.Text.LineDecoder

open ColonyPico.Foundations.ChunkedInput
open ColonyPico.Text.FrameCodec (Source read)

/-- The members that tell where the decoder is. -/
structure LineState where
  inFrame : Bool
  illegal : Bool
  frame : List UInt8
  deriving DecidableEq

def LineState.init : LineState :=
  { inFrame := false, illegal := false, frame := [] }

/-- `initializeFrame()` does not know of `m_illegal`. -/
def initializeFrame (s : LineState) : LineState :=
  { s with inFrame := false, frame := [] }

def isEofOfFrame (c : UInt8) : Bool :=
  c = 0x0A ∨ c = 0x0D

def isPrintable (c : UInt8) : Bool :=
  c ≥ 0x20 ∧ c ≤ 0x7E

def convertTab (convertTabs c : UInt8) : UInt8 :=
  if c = 0x09 ∧ convertTabs ≠ 0x09 then convertTabs else c

/-- The loop of `scan()` inside a frame. A newline that ends the frame clears `m_illegal`, and
the decoder starts anew. -/
def processInside (convertTabs : UInt8) (maxSizeOfFrame : Nat) (s : LineState) (c : UInt8) :
    LineState ⊕ List UInt8 :=
  let c := convertTab convertTabs c
  if isEofOfFrame c then .inr s.frame
  else if isPrintable c = false then .inl { s with inFrame := false, illegal := true }
  else if s.frame.length < maxSizeOfFrame then .inl { s with frame := s.frame ++ [c] }
  else .inl (initializeFrame s)

/-- A pass of the loop. The character that starts a frame is not discarded: the next pass has it
again. -/
def processChar (convertTabs : UInt8) (maxSizeOfFrame : Nat) (s : LineState) (c : UInt8) :
    LineState ⊕ List UInt8 :=
  if s.inFrame then processInside convertTabs maxSizeOfFrame s c
  else
    let c := convertTab convertTabs c
    let illegal := s.illegal && !isEofOfFrame c
    if illegal = false ∧ isPrintable c then
      processInside convertTabs maxSizeOfFrame { inFrame := true, illegal := illegal, frame := [] } c
    else .inl { s with illegal := illegal }

def scanner (convertTabs : UInt8) (maxSizeOfFrame : Nat) : Scanner LineState UInt8 (List UInt8) :=
  { start := .init, next := processChar convertTabs maxSizeOfFrame }

/-- A decoder as it is constructed. -/
def Decoder.init (source : Source) : Search Source UInt8 LineState :=
  { source := source, data := [], state := .init }

/-- What `n` calls of `scan()` up to the end of a frame return. -/
def scans (convertTabs : UInt8) (maxSizeOfFrame fuel n : Nat)
    (d : Search Source UInt8 LineState) : Option (List (Option (List UInt8))) :=
  d.seeks (scanner convertTabs maxSizeOfFrame) read initializeFrame fuel n

/-- The frames that calls of `scan()` with `isEof` return up to the end of the input. -/
def polls (convertTabs : UInt8) (maxSizeOfFrame fuel : Nat) (d : Search Source UInt8 LineState) :
    Option (List (List UInt8)) :=
  d.poll (scanner convertTabs maxSizeOfFrame) read initializeFrame fuel

/-- The lines that end in a newline, without it. -/
def lines (bytes : List UInt8) : List (List UInt8) :=
  (bytes.splitOnP isEofOfFrame).dropLast

/-- What a line has to give. -/
def goodLine (maxSizeOfFrame : Nat) (line : List UInt8) : Option (List UInt8) :=
  let frame := line.dropWhile fun c => !isPrintable c
  if frame ≠ [] ∧ frame.all isPrintable ∧ frame.length ≤ maxSizeOfFrame then some frame else none

/-- What the stream has to give: tabs are replaced first. -/
def goodLines (convertTabs : UInt8) (maxSizeOfFrame : Nat) (bytes : List UInt8) :
    List (List UInt8) :=
  (lines (bytes.map (convertTab convertTabs))).filterMap (goodLine maxSizeOfFrame)

/-- A line with a good tail after one or more printable texts that are each one character too
long. -/
inductive Tailed (maxSizeOfFrame : Nat) : List UInt8 → Prop
  | good {junk overlong tail : List UInt8} (hjunk : ∀ c ∈ junk, isPrintable c = false)
      (hoverlong : ∀ c ∈ overlong, isPrintable c = true)
      (hlength : overlong.length = maxSizeOfFrame + 1)
      (htail : (goodLine maxSizeOfFrame tail).isSome) :
      Tailed maxSizeOfFrame (junk ++ (overlong ++ tail))
  | more {junk overlong tail : List UInt8} (hjunk : ∀ c ∈ junk, isPrintable c = false)
      (hoverlong : ∀ c ∈ overlong, isPrintable c = true)
      (hlength : overlong.length = maxSizeOfFrame + 1) (htail : Tailed maxSizeOfFrame tail) :
      Tailed maxSizeOfFrame (junk ++ (overlong ++ tail))

/-- The good lines of the stream come out in order, each once, and nothing else does, however
the frames are asked for. -/
def Delivers (convertTabs : UInt8) (maxSizeOfFrame : Nat) (bytes : List UInt8) (bufSize : Nat)
    (shortReads : List Nat) : Prop :=
  let good := goodLines convertTabs maxSizeOfFrame bytes
  ∃ enough, ∀ fuel, enough ≤ fuel →
    let d := Decoder.init (.stream bufSize bytes shortReads)
    scans convertTabs maxSizeOfFrame fuel (good.length + 1) d = some (good.map some ++ [none]) ∧
      polls convertTabs maxSizeOfFrame fuel d = some good

section Steps

variable {M : Nat}

theorem convertTab_convertTab (convertTabs c : UInt8) :
    convertTab convertTabs (convertTab convertTabs c) = convertTab convertTabs c := by
  simp only [convertTab]
  split_ifs with h h'
  · rfl
  · rfl
  · rfl

theorem convertTab_tab (c : UInt8) : convertTab 0x09 c = c := by
  rw [convertTab, if_neg (fun h => h.2 rfl)]

theorem isPrintable_of_isEofOfFrame {c : UInt8} (h : isEofOfFrame c = true) :
    isPrintable c = false := by
  rw [isEofOfFrame, decide_eq_true_eq] at h
  rcases h with rfl | rfl
  · decide
  · decide

theorem isEofOfFrame_of_isPrintable {c : UInt8} (h : isPrintable c = true) :
    isEofOfFrame c = false := by
  cases hc : isEofOfFrame c with
  | false => rfl
  | true =>
      rw [isPrintable_of_isEofOfFrame hc] at h
      cases h

/-- The conversion can be done before. -/
theorem processChar_convertTab (convertTabs : UInt8) (s : LineState) (c : UInt8) :
    processChar convertTabs M s c = processChar 0x09 M s (convertTab convertTabs c) := by
  simp only [processChar, processInside, convertTab_convertTab, convertTab_tab]

theorem run_convertTab (convertTabs : UInt8) (s : LineState) (bytes : List UInt8) :
    (scanner convertTabs M).run s bytes =
      (scanner 0x09 M).run s (bytes.map (convertTab convertTabs)) := by
  refine Scanner.run_map (convertTab convertTabs) ?_ ?_ s bytes
  · rfl
  · exact processChar_convertTab convertTabs

theorem next_junk (frame : List UInt8) {c : UInt8} (h : isPrintable c = false) :
    (scanner 0x09 M).next ⟨false, false, frame⟩ c = .inl ⟨false, false, frame⟩ := by
  simp [scanner, processChar, convertTab_tab, h]

theorem next_newline (illegal : Bool) (frame : List UInt8) {c : UInt8}
    (h : isEofOfFrame c = true) :
    (scanner 0x09 M).next ⟨false, illegal, frame⟩ c = .inl ⟨false, false, frame⟩ := by
  simp [scanner, processChar, convertTab_tab, h, isPrintable_of_isEofOfFrame h]

theorem next_illegal (frame : List UInt8) {c : UInt8} (h : isEofOfFrame c = false) :
    (scanner 0x09 M).next ⟨false, true, frame⟩ c = .inl ⟨false, true, frame⟩ := by
  simp [scanner, processChar, convertTab_tab, h]

/-- The character that starts a frame is its first one. -/
theorem next_start (frame : List UInt8) {c : UInt8} (h : isPrintable c = true) :
    (scanner 0x09 M).next ⟨false, false, frame⟩ c = (scanner 0x09 M).next ⟨true, false, []⟩ c := by
  simp [scanner, processChar, convertTab_tab, h]

theorem next_inside (M : Nat) (frame : List UInt8) {c : UInt8} (h : isPrintable c = true) :
    (scanner 0x09 M).next ⟨true, false, frame⟩ c =
      .inl (if frame.length < M then ⟨true, false, frame ++ [c]⟩ else ⟨false, false, []⟩) := by
  simp only [scanner, processChar, processInside, convertTab_tab, if_true, h,
    isEofOfFrame_of_isPrintable h, Bool.false_eq_true, if_false, initializeFrame, Bool.true_eq_false]
  split_ifs with hroom
  · rfl
  · rfl

theorem next_abort (frame : List UInt8) {c : UInt8} (hc : isPrintable c = false)
    (hnl : isEofOfFrame c = false) :
    (scanner 0x09 M).next ⟨true, false, frame⟩ c = .inl ⟨false, true, frame⟩ := by
  simp [scanner, processChar, processInside, convertTab_tab, hc, hnl]

theorem next_end (frame : List UInt8) {c : UInt8} (h : isEofOfFrame c = true) :
    (scanner 0x09 M).next ⟨true, false, frame⟩ c = .inr frame := by
  simp [scanner, processChar, processInside, convertTab_tab, h]

end Steps

section Lines

variable {M : Nat}

theorem run_junk (frame : List UInt8) {junk : List UInt8}
    (hjunk : ∀ c ∈ junk, isPrintable c = false) (as : List UInt8) :
    (scanner 0x09 M).run ⟨false, false, frame⟩ (junk ++ as) =
      (scanner 0x09 M).run ⟨false, false, frame⟩ as := by
  induction junk with
  | nil => rfl
  | cons c junk ih =>
      rw [List.forall_mem_cons] at hjunk
      rw [List.cons_append, Scanner.run_cons_of_inl (next_junk frame hjunk.1), ih hjunk.2]

/-- After an illegal character everything up to the newline is lost. -/
theorem run_illegal (frame : List UInt8) {rest : List UInt8}
    (hrest : ∀ c ∈ rest, isEofOfFrame c = false) (as : List UInt8) :
    (scanner 0x09 M).run ⟨false, true, frame⟩ (rest ++ as) =
      (scanner 0x09 M).run ⟨false, true, frame⟩ as := by
  induction rest with
  | nil => rfl
  | cons c rest ih =>
      rw [List.forall_mem_cons] at hrest
      rw [List.cons_append, Scanner.run_cons_of_inl (next_illegal frame hrest.1), ih hrest.2]

theorem run_inside {frame body : List UInt8} (hbody : ∀ c ∈ body, isPrintable c = true)
    (hroom : frame.length + body.length ≤ M) (as : List UInt8) :
    (scanner 0x09 M).run ⟨true, false, frame⟩ (body ++ as) =
      (scanner 0x09 M).run ⟨true, false, frame ++ body⟩ as := by
  induction body generalizing frame with
  | nil => rw [List.append_nil, List.nil_append]
  | cons c body ih =>
      rw [List.forall_mem_cons] at hbody
      rw [List.length_cons] at hroom
      have hnext := next_inside M frame hbody.1
      rw [if_pos (by omega)] at hnext
      rw [List.cons_append, Scanner.run_cons_of_inl hnext,
        ih hbody.2 (by rw [List.length_append, List.length_singleton]; omega), List.append_assoc]
      rfl

theorem run_start (frame : List UInt8) {body : List UInt8} (hne : body ≠ [])
    (hbody : ∀ c ∈ body, isPrintable c = true) (as : List UInt8) :
    (scanner 0x09 M).run ⟨false, false, frame⟩ (body ++ as) =
      (scanner 0x09 M).run ⟨true, false, []⟩ (body ++ as) := by
  cases body with
  | nil => exact absurd rfl hne
  | cons c body =>
      rw [List.forall_mem_cons] at hbody
      rw [List.cons_append, Scanner.run, Scanner.run, next_start frame hbody.1]

/-- A text that is one character too long leaves no trace, but what follows it is decoded as if
it started the line. -/
theorem run_overlong (frame : List UInt8) {overlong : List UInt8}
    (hoverlong : ∀ c ∈ overlong, isPrintable c = true) (hlength : overlong.length = M + 1)
    (as : List UInt8) :
    (scanner 0x09 M).run ⟨false, false, frame⟩ (overlong ++ as) =
      (scanner 0x09 M).run ⟨false, false, []⟩ as := by
  have hne : overlong ≠ [] := List.ne_nil_of_length_eq_add_one hlength
  obtain ⟨body, c, rfl⟩ : ∃ body c, overlong = body ++ [c] :=
    ⟨_, _, (List.dropLast_append_getLast hne).symm⟩
  rw [List.length_append, List.length_singleton] at hlength
  have hc : isPrintable c = true := hoverlong c (by simp)
  have hbody : ∀ c ∈ body, isPrintable c = true := fun c h =>
    hoverlong c (List.mem_append_left _ h)
  have hnext := next_inside M body hc
  rw [if_neg (by omega)] at hnext
  rw [run_start frame hne hoverlong, List.append_assoc,
    run_inside hbody (by rw [List.length_nil]; omega), List.nil_append, List.singleton_append,
    Scanner.run_cons_of_inl hnext]

theorem exists_overlong {line : List UInt8} (h : Tailed M line) :
    ∃ overlong tail, line.dropWhile (fun c => !isPrintable c) = overlong ++ tail ∧
      (∀ c ∈ overlong, isPrintable c = true) ∧ overlong.length = M + 1 ∧
      ((goodLine M tail).isSome ∨ Tailed M tail) := by
  have hdrop : ∀ {junk overlong tail : List UInt8}, (∀ c ∈ junk, isPrintable c = false) →
      (∀ c ∈ overlong, isPrintable c = true) → overlong.length = M + 1 →
      (junk ++ (overlong ++ tail)).dropWhile (fun c => !isPrintable c) = overlong ++ tail := by
    intro junk overlong tail hjunk hoverlong hlength
    rw [List.dropWhile_append_of_pos (fun c hc => by rw [hjunk c hc]; rfl)]
    cases overlong with
    | nil => cases hlength
    | cons c overlong =>
        rw [List.cons_append, List.dropWhile_cons_of_neg]
        rw [hoverlong c List.mem_cons_self]
        exact Bool.false_ne_true
  cases h with
  | good hjunk hoverlong hlength htail =>
      exact ⟨_, _, hdrop hjunk hoverlong hlength, hoverlong, hlength, .inl htail⟩
  | more hjunk hoverlong hlength htail =>
      exact ⟨_, _, hdrop hjunk hoverlong hlength, hoverlong, hlength, .inr htail⟩

/-- A line as illegal characters, the printable text after them, and the rest. -/
structure Cut (line junk body after : List UInt8) : Prop where
  line_eq : line = junk ++ (body ++ after)
  junk_illegal : ∀ c ∈ junk, isPrintable c = false
  printable : ∀ c ∈ body, isPrintable c = true
  after_illegal : ∀ c ∈ after.head?, isPrintable c = false
  after_nil : body = [] → after = []

theorem exists_cut (line : List UInt8) : ∃ junk body after, Cut line junk body after := by
  let rest := line.dropWhile fun c => !isPrintable c
  have hrest := List.head?_dropWhile_not (fun c => !isPrintable c) line
  have hafter := List.head?_dropWhile_not isPrintable rest
  refine ⟨line.takeWhile fun c => !isPrintable c, rest.takeWhile isPrintable,
    rest.dropWhile isPrintable, ?_, ?_, ?_, ?_, ?_⟩
  · rw [List.takeWhile_append_dropWhile, List.takeWhile_append_dropWhile]
  · intro c hc
    simpa using List.mem_takeWhile_imp hc
  · intro c hc
    exact List.mem_takeWhile_imp hc
  · intro c hc
    rw [hc] at hafter
    exact hafter
  · intro h
    rcases hcases : rest with _ | ⟨c, cs⟩
    · rfl
    · have hc : isPrintable c = true := by
        change line.dropWhile (fun c => !isPrintable c) = c :: cs at hcases
        rw [hcases] at hrest
        simpa using hrest
      rw [hcases, List.takeWhile_cons_of_pos hc] at h
      cases h

namespace Cut

variable {line junk body after : List UInt8}

theorem dropWhile_eq (h : Cut line junk body after) :
    line.dropWhile (fun c => !isPrintable c) = body ++ after := by
  rw [h.line_eq, List.dropWhile_append_of_pos (fun c hc => by rw [h.junk_illegal c hc]; rfl)]
  cases body with
  | nil => rw [h.after_nil rfl]; rfl
  | cons c body =>
      rw [List.cons_append, List.dropWhile_cons_of_neg]
      rw [h.printable c List.mem_cons_self]
      exact Bool.false_ne_true

theorem takeWhile_eq (h : Cut line junk body after) :
    (body ++ after).takeWhile isPrintable = body := by
  rw [List.takeWhile_append_of_pos h.printable]
  cases hcases : after with
  | nil => exact List.append_nil body
  | cons c after =>
      have hc : ¬ isPrintable c = true := by
        rw [h.after_illegal c (by rw [hcases]; rfl)]
        exact Bool.false_ne_true
      rw [List.takeWhile_cons_of_neg hc, List.append_nil]

theorem goodLine_eq (h : Cut line junk body after) :
    goodLine M line = if body ≠ [] ∧ after = [] ∧ body.length ≤ M then some body else none := by
  rw [goodLine, h.dropWhile_eq]
  cases hcases : after with
  | nil => simp only [List.append_nil, List.all_eq_true.2 h.printable, true_and]
  | cons c after =>
      have hc : isPrintable c = false := h.after_illegal c (by rw [hcases]; rfl)
      rw [if_neg, if_neg]
      · rintro ⟨-, hnil, -⟩
        cases hnil
      · rintro ⟨-, hall, -⟩
        rw [List.all_append, List.all_cons, hc, Bool.false_and, Bool.and_false] at hall
        cases hall

/-- A line with a good tail begins with a text that is too long. -/
theorem tailed_cases (h : Cut line junk body after) (htailed : Tailed M line) :
    M < body.length ∧ ((goodLine M ((body ++ after).drop (M + 1))).isSome ∨
      Tailed M ((body ++ after).drop (M + 1))) := by
  obtain ⟨overlong, tail, heq, hoverlong, hlength, htail⟩ := exists_overlong htailed
  rw [h.dropWhile_eq] at heq
  have hbody := h.takeWhile_eq
  rw [heq, List.takeWhile_append_of_pos hoverlong] at hbody
  rw [heq, ← hlength, List.drop_left, ← hbody, List.length_append]
  exact ⟨by omega, htail⟩

end Cut

/-- What a line gives, compared with what it has to give. -/
structure Gives (M : Nat) (line : List UInt8) (out : Option (List UInt8)) : Prop where
  right : ¬ Tailed M line → out = goodLine M line
  wrong : Tailed M line → goodLine M line = none ∧ out.isSome

/-- A line and its newline give `out`, wherever the last frame ended. -/
def RunsTo (M : Nat) (line : List UInt8) (out : Option (List UInt8)) : Prop :=
  ∀ frame nl as, isEofOfFrame nl = true → ∃ frame',
    ((scanner 0x09 M).run ⟨false, false, frame⟩ (line ++ nl :: as)).1 =
      out.toList ++ ((scanner 0x09 M).run ⟨false, false, frame'⟩ as).1

namespace Cut

variable {line junk body after : List UInt8}

theorem run_eq (h : Cut line junk body after) (frame as : List UInt8) :
    (scanner 0x09 M).run ⟨false, false, frame⟩ (line ++ as) =
      (scanner 0x09 M).run ⟨false, false, frame⟩ (body ++ (after ++ as)) := by
  rw [h.line_eq, List.append_assoc, List.append_assoc, run_junk frame h.junk_illegal]

theorem runsTo_short (h : Cut line junk body after) (hline : ∀ c ∈ line, isEofOfFrame c = false)
    (hle : body.length ≤ M) : RunsTo M line (goodLine M line) := by
  intro frame nl as hnl
  rw [h.run_eq, h.goodLine_eq]
  rcases eq_or_ne body [] with rfl | hne
  · rw [h.after_nil rfl, if_neg (fun hgood => hgood.1 rfl)]
    refine ⟨frame, ?_⟩
    rw [List.nil_append, List.nil_append, Scanner.run_cons_of_inl (next_newline false frame hnl)]
    rfl
  · rw [run_start frame hne h.printable,
      run_inside h.printable (by rw [List.length_nil]; omega), List.nil_append]
    cases hcases : after with
    | nil =>
        rw [if_pos ⟨hne, rfl, hle⟩, List.nil_append, Scanner.run_cons_of_inr (next_end body hnl)]
        exact ⟨[], rfl⟩
    | cons c cs =>
        have hc : isPrintable c = false := h.after_illegal c (by rw [hcases]; rfl)
        have hafter : ∀ c' ∈ c :: cs, isEofOfFrame c' = false := by
          intro c' hmem
          refine hline c' ?_
          rw [h.line_eq, hcases]
          exact List.mem_append_right _ (List.mem_append_right _ hmem)
        rw [List.forall_mem_cons] at hafter
        rw [if_neg (fun hgood => by cases hgood.2.1), List.cons_append,
          Scanner.run_cons_of_inl (next_abort body hc hafter.1), run_illegal body hafter.2,
          Scanner.run_cons_of_inl (next_newline true body hnl)]
        exact ⟨body, rfl⟩

/-- Behind a text that is too long the decoder goes on as at the start of the line. -/
theorem runsTo_overlong (h : Cut line junk body after) (hlong : M < body.length)
    {out : Option (List UInt8)} (htail : RunsTo M ((body ++ after).drop (M + 1)) out) :
    RunsTo M line out := by
  intro frame nl as hnl
  have hlength : (body.take (M + 1)).length = M + 1 := by
    rw [List.length_take]
    omega
  have hsplit : body ++ after = body.take (M + 1) ++ (body ++ after).drop (M + 1) := by
    rw [List.drop_append_of_le_length (by omega), ← List.append_assoc, List.take_append_drop]
  rw [h.run_eq, ← List.append_assoc, hsplit, List.append_assoc,
    run_overlong frame (fun c hc => h.printable c (List.mem_of_mem_take hc)) hlength]
  exact htail [] nl as hnl

theorem gives_short (h : Cut line junk body after) (hle : body.length ≤ M) :
    Gives M line (goodLine M line) := by
  constructor
  · intro _
    rfl
  · intro htailed
    exact absurd (h.tailed_cases htailed).1 (by omega)

theorem gives_overlong (h : Cut line junk body after) (hlong : M < body.length)
    {out : Option (List UInt8)} (htail : Gives M ((body ++ after).drop (M + 1)) out) :
    Gives M line out := by
  have hnot : goodLine M line = none := by
    rw [h.goodLine_eq, if_neg (fun hgood => absurd hgood.2.2 (by omega))]
  have hline : line = junk ++ (body.take (M + 1) ++ (body ++ after).drop (M + 1)) := by
    rw [h.line_eq, List.drop_append_of_le_length (by omega), ← List.append_assoc (body.take _),
      List.take_append_drop]
  have hoverlong : ∀ c ∈ body.take (M + 1), isPrintable c = true := fun c hc =>
    h.printable c (List.mem_of_mem_take hc)
  have hlength : (body.take (M + 1)).length = M + 1 := by
    rw [List.length_take]
    omega
  constructor
  · intro hnotTailed
    rw [hnot, htail.right]
    · cases hgood : goodLine M ((body ++ after).drop (M + 1)) with
      | none => rfl
      | some tail =>
          refine absurd ?_ hnotTailed
          rw [hline]
          exact .good h.junk_illegal hoverlong hlength (by rw [hgood]; rfl)
    · intro htailed
      refine absurd ?_ hnotTailed
      rw [hline]
      exact .more h.junk_illegal hoverlong hlength htailed
  · intro htailed
    refine ⟨hnot, ?_⟩
    obtain ⟨-, hgood | htailed'⟩ := h.tailed_cases htailed
    · rcases Classical.em (Tailed M ((body ++ after).drop (M + 1))) with htailed' | hnotTailed
      · exact (htail.wrong htailed').2
      · rw [htail.right hnotTailed]
        exact hgood
    · exact (htail.wrong htailed').2

end Cut

theorem run_line (line : List UInt8) (hline : ∀ c ∈ line, isEofOfFrame c = false) :
    ∃ out, Gives M line out ∧ RunsTo M line out := by
  -- Every overlong text makes the line shorter.
  induction hn : line.length using Nat.strong_induction_on generalizing line with
  | _ n ih =>
      obtain ⟨junk, body, after, hcut⟩ := exists_cut line
      rcases Nat.lt_or_ge M body.length with hlong | hle
      · have htail : ∀ c ∈ (body ++ after).drop (M + 1), isEofOfFrame c = false := by
          intro c hc
          refine hline c ?_
          rw [hcut.line_eq]
          exact List.mem_append_right _ (List.mem_of_mem_drop hc)
        have hlength : ((body ++ after).drop (M + 1)).length < n := by
          rw [← hn, hcut.line_eq, List.length_append, List.length_drop, List.length_append]
          omega
        obtain ⟨out, hgives, hruns⟩ := ih _ hlength _ htail rfl
        exact ⟨out, hcut.gives_overlong hlong hgives, hcut.runsTo_overlong hlong hruns⟩
      · exact ⟨goodLine M line, hcut.gives_short hle, hcut.runsTo_short hline hle⟩

theorem isEofOfFrame_of_next {s : LineState} {c : UInt8} {frame : List UInt8}
    (h : (scanner 0x09 M).next s c = .inr frame) : isEofOfFrame c = true := by
  have hinside : ∀ s, processInside 0x09 M s c = .inr frame → isEofOfFrame c = true := by
    intro s h
    simp only [processInside, convertTab_tab] at h
    split_ifs at h with hnl hc hroom
    exact hnl
  simp only [scanner, processChar, convertTab_tab] at h
  split_ifs at h with hin hstart
  · exact hinside _ h
  · exact hinside _ h

/-- The part after the last newline gives nothing. -/
theorem run_open (s : LineState) {line : List UInt8} (hline : ∀ c ∈ line, isEofOfFrame c = false) :
    ((scanner 0x09 M).run s line).1 = [] := by
  induction line generalizing s with
  | nil => rfl
  | cons c line ih =>
      rw [List.forall_mem_cons] at hline
      cases hnext : (scanner 0x09 M).next s c with
      | inl s' => rw [Scanner.run_cons_of_inl hnext, ih s' hline.2]
      | inr frame =>
          rw [isEofOfFrame_of_next hnext] at hline
          cases hline.1

theorem run_lines (bytes : List UInt8) (frame : List UInt8) :
    ∃ outs, List.Forall₂ (Gives M) (lines bytes) outs ∧
      ((scanner 0x09 M).run ⟨false, false, frame⟩ bytes).1 = outs.filterMap id := by
  induction hn : bytes.length using Nat.strong_induction_on generalizing bytes frame with
  | _ n ih =>
      have hsplit : bytes = bytes.takeWhile (fun c => !isEofOfFrame c) ++
          bytes.dropWhile (fun c => !isEofOfFrame c) := List.takeWhile_append_dropWhile.symm
      have hline : ∀ c ∈ bytes.takeWhile (fun c => !isEofOfFrame c), isEofOfFrame c = false := by
        intro c hc
        simpa using List.mem_takeWhile_imp hc
      have hnl := List.head?_dropWhile_not (fun c => !isEofOfFrame c) bytes
      generalize bytes.takeWhile (fun c => !isEofOfFrame c) = line at hsplit hline
      generalize bytes.dropWhile (fun c => !isEofOfFrame c) = rest at hsplit hnl
      subst hsplit
      cases rest with
      | nil =>
          rw [List.append_nil, lines, List.splitOnP_eq_singleton hline]
          exact ⟨[], .nil, run_open _ hline⟩
      | cons nl as =>
          have hnl' : isEofOfFrame nl = true := by simpa using hnl
          have hlines : lines (line ++ nl :: as) = line :: lines as := by
            rw [lines, List.splitOnP_append_cons_of_forall_mem hline nl hnl',
              List.dropLast_cons_of_ne_nil (List.splitOnP_ne_nil _ _)]
            rfl
          obtain ⟨out, hgives, hruns⟩ := run_line (M := M) line hline
          obtain ⟨frame', hrun⟩ := hruns frame nl as hnl'
          obtain ⟨outs, hall, hrest⟩ := ih as.length
            (by rw [← hn, List.length_append, List.length_cons]; omega) as frame' rfl
          refine ⟨out :: outs, ?_, ?_⟩
          · rw [hlines]
            exact .cons hgives hall
          · rw [hrun, hrest]
            cases out with
            | none => rfl
            | some frame => rfl

/-- A line with a good tail gives a frame too many. -/
theorem filterMap_eq_iff {ls : List (List UInt8)} {outs : List (Option (List UInt8))}
    (h : List.Forall₂ (Gives M) ls outs) :
    outs.filterMap id = ls.filterMap (goodLine M) ↔ ∀ line ∈ ls, ¬ Tailed M line := by
  have hlength : ∀ {ls : List (List UInt8)} {outs : List (Option (List UInt8))},
      List.Forall₂ (Gives M) ls outs →
      (ls.filterMap (goodLine M)).length ≤ (outs.filterMap id).length := by
    intro ls outs h
    induction h with
    | nil => exact Nat.le_refl _
    | @cons line out ls outs hgives _ ih =>
        rcases Classical.em (Tailed M line) with htailed | hright
        · rw [List.filterMap_cons_none (hgives.wrong htailed).1]
          refine Nat.le_trans ih ?_
          cases out with
          | none => exact Nat.le_refl _
          | some frame => exact Nat.le_succ _
        · rw [List.filterMap_cons, List.filterMap_cons, ← hgives.right hright]
          cases out with
          | none => exact ih
          | some frame => exact Nat.succ_le_succ ih
  induction h with
  | nil => simp
  | @cons line out ls outs hgives hall ih =>
      rw [List.forall_mem_cons]
      rcases Classical.em (Tailed M line) with htailed | hright
      · obtain ⟨hnone, hsome⟩ := hgives.wrong htailed
        obtain ⟨frame, rfl⟩ := Option.isSome_iff_exists.1 hsome
        constructor
        · intro heq
          have hle := hlength hall
          rw [List.filterMap_cons_none hnone] at heq
          rw [← heq] at hle
          exact absurd hle (Nat.not_succ_le_self _)
        · intro hnot
          exact absurd htailed hnot.1
      · rw [List.filterMap_cons, List.filterMap_cons, ← hgives.right hright]
        cases out with
        | none => exact ⟨fun heq => ⟨hright, ih.1 heq⟩, fun hnot => ih.2 hnot.2⟩
        | some frame =>
            exact ⟨fun heq => ⟨hright, ih.1 (List.cons.inj heq).2⟩,
              fun hnot => congrArg (frame :: ·) (ih.2 hnot.2)⟩

end Lines

section Delivery

variable (convertTabs : UInt8) (maxSizeOfFrame : Nat)

/-- What the calls return, as the run of the machine. -/
theorem delivered (bytes : List UInt8) {bufSize : Nat} (hbuf : 0 < bufSize)
    (shortReads : List Nat) :
    let frames := ((scanner convertTabs maxSizeOfFrame).run .init bytes).1
    ∃ enough, ∀ fuel, enough ≤ fuel →
      let d := Decoder.init (.stream bufSize bytes shortReads)
      scans convertTabs maxSizeOfFrame fuel (frames.length + 1) d =
          some (frames.map some ++ [none]) ∧
        polls convertTabs maxSizeOfFrame fuel d = some frames := by
  obtain ⟨n, hyields⟩ := FrameCodec.yields_stream hbuf bytes shortReads
  refine ⟨n + ((scanner convertTabs maxSizeOfFrame).run .init bytes).1.length + 1, ?_⟩
  intro fuel hfuel
  constructor
  · exact Search.seeks_eq (m := scanner convertTabs maxSizeOfFrame) initializeFrame rfl fuel
      (Decoder.init (.stream bufSize bytes shortReads)) rfl hyields
      (show n < fuel by omega)
  · exact Search.poll_eq (m := scanner convertTabs maxSizeOfFrame) initializeFrame fuel
      (Decoder.init (.stream bufSize bytes shortReads)) hyields
      (show n + ((scanner convertTabs maxSizeOfFrame).run .init bytes).1.length < fuel by omega)

/-- The decoder delivers the good lines of a stream when none of its lines has a good tail behind
texts that are too long. -/
theorem delivers_iff (bytes : List UInt8) (bufSize : Nat) (hbuf : 0 < bufSize)
    (shortReads : List Nat) :
    Delivers convertTabs maxSizeOfFrame bytes bufSize shortReads ↔
      ∀ line ∈ lines (bytes.map (convertTab convertTabs)), ¬ Tailed maxSizeOfFrame line := by
  obtain ⟨outs, hgives, hrun⟩ := run_lines (M := maxSizeOfFrame)
    (bytes.map (convertTab convertTabs)) []
  obtain ⟨enough, henough⟩ := delivered convertTabs maxSizeOfFrame bytes hbuf shortReads
  rw [show LineState.init = ⟨false, false, []⟩ from rfl, run_convertTab, hrun] at henough
  rw [← filterMap_eq_iff hgives]
  constructor
  · rintro ⟨enough', henough'⟩
    have hpolls := (henough (max enough enough') (Nat.le_max_left _ _)).2
    rw [(henough' (max enough enough') (Nat.le_max_right _ _)).2] at hpolls
    exact (Option.some.inj hpolls).symm
  · intro heq
    refine ⟨enough, ?_⟩
    intro fuel hfuel
    have hboth := henough fuel hfuel
    rw [heq] at hboth
    exact hboth

/-- Two lines with junk and a tab, read in pieces of two. -/
theorem delivers_good_lines : Delivers 0x20 5 [0x01, 97, 0x09, 98, 0x0A, 99, 0x0D] 2 [1, 0] := by
  refine (delivers_iff 0x20 5 [0x01, 97, 0x09, 98, 0x0A, 99, 0x0D] 2 (by decide) [1, 0]).2 ?_
  have hlines : lines ([0x01, 97, 0x09, 98, 0x0A, 99, 0x0D].map (convertTab 0x20)) =
      [[0x01, 97, 0x20, 98], [99]] := by decide
  rw [hlines]
  intro line hline htailed
  obtain ⟨overlong, tail, heq, -, hlength, -⟩ := exists_overlong htailed
  have hlong := congrArg List.length heq
  rw [List.length_append, hlength] at hlong
  rcases List.mem_pair.1 hline with rfl | rfl
  · exact absurd hlong (by simp [isPrintable]; omega)
  · exact absurd hlong (by simp [isPrintable]; omega)

/-- The end of a line that is too long comes out as a frame. -/
theorem not_delivers_overlong_line : ¬ Delivers 0x09 3 [97, 98, 99, 100, 101, 102, 0x0A] 8 [] := by
  rintro ⟨enough, henough⟩
  obtain ⟨enough', henough'⟩ :=
    delivered 0x09 3 [97, 98, 99, 100, 101, 102, 0x0A] (show 0 < 8 by decide) []
  have hpolls := (henough (max enough enough') (Nat.le_max_left _ _)).2
  rw [(henough' (max enough enough') (Nat.le_max_right _ _)).2] at hpolls
  exact absurd (Option.some.inj hpolls) (by decide)

end Delivery

end ColonyPico.Text.LineDecoder
