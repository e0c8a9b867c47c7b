import Mathlib.Data.List.Basic
import Mathlib.Order.Nat
import ColonyPico.Foundations.ChunkedInput

/-!
Frames of text with escape characters (`Cpl::Text::Frame`): the encoder, and the decoder over
an input stream or a string.
-/

namespace ColonyPico.Text.FrameCodec

open ColonyPico.Foundations.ChunkedInput

/-- The characters of a frame, and the encoder's option. -/
structure Framing where
  sof : UInt8
  eof : UInt8
  esc : UInt8
  /-- `Cpl::Io::NewLine::standard()`, when `appendNewline` is set. -/
  appendNewline : Option (List UInt8)

section Encoder

structure Encoder where
  inFrame : Bool
  dst : List UInt8

variable (f : Framing)

def Encoder.append (e : Encoder) (src : UInt8) : Encoder :=
  { e with dst := e.dst ++ [src] }

/-- `startFrame()`; nothing for a fatal error. -/
def startFrame (e : Encoder) : Option Encoder :=
  if e.inFrame then none
  else
    let e := { e with inFrame := true }
    some (if f.sof ≠ 0 then e.append f.sof else e)

/-- `output( char )`. -/
def outputChar (e : Encoder) (src : UInt8) : Option Encoder :=
  if e.inFrame then
    some (if f.esc ≠ 0 ∧ (src = f.esc ∨ src = f.eof) then (e.append f.esc).append src
      else e.append src)
  else none

def output (e : Encoder) (src : List UInt8) : Option Encoder :=
  src.foldlM (outputChar f) e

def endFrame (e : Encoder) : Option Encoder :=
  if e.inFrame then
    let e := { e with inFrame := false }.append f.eof
    match f.appendNewline with
    | none => some e
    | some newline =>
        (output f { e with inFrame := true } newline).map fun e => { e with inFrame := false }
  else none

/-- A whole frame. -/
def encodeFrame (e : Encoder) (payload : List UInt8) : Option Encoder := do
  let e ← startFrame f e
  let e ← output f e payload
  endFrame f e

end Encoder

/-- `AsciiDecoder` and `StringDecoder`. -/
inductive Kind where
  | ascii (restricted : Bool)
  | string
  deriving DecidableEq

def isLegalCharacter : Kind → UInt8 → Bool
  | .ascii restricted, c => c < 0x80 && (!restricted || (c ≤ 0x7E && c ≥ 0x20))
  | .string, c => c != 0

/-- Where the characters come from. -/
inductive Source where
  /-- An input stream, read through a buffer of `bufSize` characters. The next reads give no
  more than `shortReads`; a stream that is not waited for may give none. -/
  | stream (bufSize : Nat) (remaining : List UInt8) (shortReads : List Nat)
  /-- A string; `srcLen` is negative once it has been decoded. -/
  | string (src : List UInt8) (srcLen : Int)

/-- `read()`: the characters read, or nothing at the end of the input. -/
def read : Source → Option (List UInt8 × Source)
  | .stream bufSize remaining (k :: ks) =>
      some (remaining.take (min k bufSize), .stream bufSize (remaining.drop (min k bufSize)) ks)
  | .stream bufSize remaining [] =>
      if remaining = [] then none
      else some (remaining.take bufSize, .stream bufSize (remaining.drop bufSize) [])
  | .string src srcLen =>
      -- the buffer size is one
      if srcLen < 0 then none
      else if 1 > srcLen then some (src.take srcLen.toNat, .string src (-1))
      else some (src.take 1, .string (src.drop 1) (srcLen - 1))

/-- The members of the decoder that tell where it is in a frame; `frame` is what has been
written to the client's buffer, `m_frameSize` its length. -/
structure FrameState where
  inFrame : Bool
  escaping : Bool
  frame : List UInt8
  deriving DecidableEq

def initializeFrame : FrameState :=
  { inFrame := false, escaping := false, frame := [] }

/-- A pass of the loop of `scan()`: the state after the character, or the frame it ends. -/
def processChar (f : Framing) (kind : Kind) (maxSizeOfFrame : Nat) (s : FrameState) (c : UInt8) :
    FrameState ⊕ List UInt8 :=
  if s.inFrame = false then
    .inl (if c = f.sof then { inFrame := true, escaping := false, frame := [] } else s)
  else if isLegalCharacter kind c = false then .inl { s with inFrame := false }
  else if s.escaping = false then
    if c = f.eof then .inr s.frame
    else if c ≠ f.esc then
      .inl (if s.frame.length < maxSizeOfFrame then { s with frame := s.frame ++ [c] }
        else initializeFrame)
    else .inl { s with escaping := true }
  else
    .inl (if s.frame.length < maxSizeOfFrame then
        { s with escaping := false, frame := s.frame ++ [c] }
      else initializeFrame)

/-- The decoder as a machine that finds frames. -/
def scanner (f : Framing) (kind : Kind) (maxSizeOfFrame : Nat) :
    Scanner FrameState UInt8 (List UInt8) :=
  { start := initializeFrame, next := processChar f kind maxSizeOfFrame }

/-- The decoder; `data` is what is left of the last read. -/
structure Decoder where
  source : Source
  data : List UInt8
  state : FrameState

/-- What `scan()` returns. -/
inductive Scan where
  | ioError
  | inProgress
  | eof (frame : List UInt8)
  deriving DecidableEq

variable (f : Framing) (kind : Kind) (maxSizeOfFrame : Nat)

/-- The loop of `scan()` over the characters that are left. -/
def processData (d : Decoder) : Scan × Decoder :=
  match (scanner f kind maxSizeOfFrame).find d.state d.data with
  | .inl s => (.inProgress, { d with data := [], state := s })
  | .inr (frame, rest) => (.eof frame, { d with data := rest, state := initializeFrame })

/-- `scan()` with `isEof`, which reads at most once. -/
def scanOnce (d : Decoder) : Scan × Decoder :=
  if d.data = [] then
    match read d.source with
    | none => (.ioError, { d with data := [], state := initializeFrame })
    | some (chunk, source) =>
        processData f kind maxSizeOfFrame { d with source := source, data := chunk }
  else processData f kind maxSizeOfFrame d

/-- The loop of the other `scan()`; nothing for an error. -/
def scanLoop : Nat → Decoder → Option (Option (List UInt8) × Decoder)
  | 0, _ => none
  | fuel + 1, d =>
      match scanOnce f kind maxSizeOfFrame d with
      | (.ioError, d) => some (none, d)
      | (.eof frame, d) => some (some frame, d)
      | (.inProgress, d) => scanLoop fuel d

/-- `scan()` up to the end of a frame. -/
def scan (fuel : Nat) (d : Decoder) : Option (Option (List UInt8) × Decoder) :=
  scanLoop f kind maxSizeOfFrame fuel { d with state := initializeFrame }

/-- What `n` calls of `scan()` return. -/
def scans (fuel : Nat) : Nat → Decoder → Option (List (Option (List UInt8)))
  | 0, _ => some []
  | n + 1, d => do
      let (frame, d) ← scan f kind maxSizeOfFrame fuel d
      let frames ← scans fuel n d
      pure (frame :: frames)

/-- The frames that calls of `scan()` with `isEof` return up to the end of the input. -/
def polls : Nat → Decoder → Option (List (List UInt8))
  | 0, _ => none
  | fuel + 1, d =>
      match scanOnce f kind maxSizeOfFrame d with
      | (.ioError, _) => some []
      | (.eof frame, d) => (polls fuel d).map (frame :: ·)
      | (.inProgress, d) => polls fuel d

/-- A decoder as it is constructed. -/
def Decoder.init (source : Source) : Decoder :=
  { source := source, data := [], state := initializeFrame }

section Encoding

/-- What `output()` writes. -/
def outputBytes (f : Framing) (src : List UInt8) : List UInt8 :=
  src.flatMap fun c => if f.esc ≠ 0 ∧ (c = f.esc ∨ c = f.eof) then [f.esc, c] else [c]

/-- What a frame looks like, newline included. -/
def frameBytes (f : Framing) (payload : List UInt8) : List UInt8 :=
  f.sof :: (outputBytes f payload ++ f.eof :: (f.appendNewline.elim [] (outputBytes f)))

/-- Frames that follow one another in the output, each after other bytes. -/
def transmit (f : Framing) (parts : List (List UInt8 × List UInt8)) : Option Encoder :=
  parts.foldlM (fun e part => encodeFrame f { e with dst := e.dst ++ part.1 } part.2)
    { inFrame := false, dst := [] }

theorem output_eq (dst src : List UInt8) :
    output f { inFrame := true, dst := dst } src =
      some { inFrame := true, dst := dst ++ outputBytes f src } := by
  induction src generalizing dst with
  | nil => simp [output, outputBytes]
  | cons c src ih =>
      have hchar : outputChar f { inFrame := true, dst := dst } c =
          some { inFrame := true, dst := dst ++ outputBytes f [c] } := by
        simp only [outputChar, outputBytes, List.flatMap_cons, List.flatMap_nil, List.append_nil]
        split_ifs <;> simp [Encoder.append]
      rw [output, List.foldlM_cons, hchar, Option.bind_eq_bind, Option.bind_some]
      refine (ih _).trans ?_
      simp [outputBytes]

theorem encodeFrame_eq (e : Encoder) (hout : e.inFrame = false) (hsof : f.sof ≠ 0)
    (payload : List UInt8) :
    encodeFrame f e payload =
      some { inFrame := false, dst := e.dst ++ frameBytes f payload } := by
  have hstart : startFrame f e = some { inFrame := true, dst := e.dst ++ [f.sof] } := by
    simp [startFrame, hout, hsof, Encoder.append]
  simp only [encodeFrame, hstart, Option.bind_eq_bind, Option.bind_some]
  rw [output_eq]
  cases hnewline : f.appendNewline with
  | none => simp [endFrame, hnewline, frameBytes, Encoder.append]
  | some newline => simp [endFrame, hnewline, frameBytes, Encoder.append, output_eq]

theorem transmit_eq (hsof : f.sof ≠ 0) (parts : List (List UInt8 × List UInt8)) :
    transmit f parts = some
      { inFrame := false, dst := parts.flatMap fun part => part.1 ++ frameBytes f part.2 } := by
  have hfold : ∀ e : Encoder, e.inFrame = false →
      parts.foldlM (fun e part => encodeFrame f { e with dst := e.dst ++ part.1 } part.2) e =
        some { inFrame := false
               dst := e.dst ++ parts.flatMap fun part => part.1 ++ frameBytes f part.2 } := by
    induction parts with
    | nil =>
        intro e hout
        rcases e with ⟨inFrame, dst⟩
        subst hout
        simp
    | cons part parts ih =>
        intro e hout
        rw [List.foldlM_cons, encodeFrame_eq f { e with dst := e.dst ++ part.1 } hout hsof]
        refine (ih _ rfl).trans ?_
        simp
  exact (hfold _ rfl).trans (by simp)

end Encoding

/-- The characters that the decoder can tell apart. -/
structure Suitable (f : Framing) (kind : Kind) : Prop where
  sof_legal : isLegalCharacter kind f.sof = true
  eof_legal : isLegalCharacter kind f.eof = true
  esc_legal : isLegalCharacter kind f.esc = true
  sof_ne_zero : f.sof ≠ 0
  esc_ne_zero : f.esc ≠ 0
  esc_ne_eof : f.esc ≠ f.eof
  sof_ne_esc : f.sof ≠ f.esc
  sof_notMem : ∀ newline, f.appendNewline = some newline → f.sof ∉ newline

section Decoding

variable {f kind maxSizeOfFrame}

theorem run_filler {s : FrameState} (hout : s.inFrame = false) {filler : List UInt8}
    (hfiller : f.sof ∉ filler) : (scanner f kind maxSizeOfFrame).run s filler = ([], s) := by
  induction filler with
  | nil => rfl
  | cons c filler ih =>
      rw [List.mem_cons, not_or] at hfiller
      have hnext : (scanner f kind maxSizeOfFrame).next s c = .inl s := by
        simp [scanner, processChar, hout, Ne.symm hfiller.1]
      rw [Scanner.run_cons_of_inl hnext, ih hfiller.2]

theorem run_outputChar (hf : Suitable f kind) {frame : List UInt8} {c : UInt8}
    (hlegal : isLegalCharacter kind c = true) (hroom : frame.length < maxSizeOfFrame) :
    (scanner f kind maxSizeOfFrame).run ⟨true, false, frame⟩ (outputBytes f [c]) =
      ([], ⟨true, false, frame ++ [c]⟩) := by
  simp only [outputBytes, List.flatMap_cons, List.flatMap_nil, List.append_nil]
  split_ifs with hescape
  · have hesc : (scanner f kind maxSizeOfFrame).next ⟨true, false, frame⟩ f.esc =
        .inl ⟨true, true, frame⟩ := by
      simp [scanner, processChar, hf.esc_legal, hf.esc_ne_eof]
    have hnext : (scanner f kind maxSizeOfFrame).next ⟨true, true, frame⟩ c =
        .inl ⟨true, false, frame ++ [c]⟩ := by
      simp [scanner, processChar, hlegal, hroom]
    rw [Scanner.run_cons_of_inl hesc, Scanner.run_cons_of_inl hnext, Scanner.run_nil]
  · have hplain : c ≠ f.eof ∧ c ≠ f.esc := by
      constructor
      · exact fun heq => hescape ⟨hf.esc_ne_zero, .inr heq⟩
      · exact fun heq => hescape ⟨hf.esc_ne_zero, .inl heq⟩
    have hnext : (scanner f kind maxSizeOfFrame).next ⟨true, false, frame⟩ c =
        .inl ⟨true, false, frame ++ [c]⟩ := by
      simp [scanner, processChar, hlegal, hroom, hplain.1, hplain.2]
    rw [Scanner.run_cons_of_inl hnext, Scanner.run_nil]

theorem run_payload (hf : Suitable f kind) {frame payload : List UInt8}
    (hlegal : ∀ c ∈ payload, isLegalCharacter kind c = true)
    (hroom : frame.length + payload.length ≤ maxSizeOfFrame) :
    (scanner f kind maxSizeOfFrame).run ⟨true, false, frame⟩ (outputBytes f payload) =
      ([], ⟨true, false, frame ++ payload⟩) := by
  induction payload generalizing frame with
  | nil => simp [outputBytes]
  | cons c payload ih =>
      rw [List.length_cons] at hroom
      have hsplit : outputBytes f (c :: payload) = outputBytes f [c] ++ outputBytes f payload := by
        simp [outputBytes]
      rw [hsplit, Scanner.run_append,
        run_outputChar hf (hlegal c List.mem_cons_self) (by omega),
        ih (fun c hc => hlegal c (List.mem_cons_of_mem _ hc))
          (by rw [List.length_append, List.length_singleton]; omega)]
      simp

theorem sof_notMem_outputBytes (hf : Suitable f kind) {src : List UInt8} (hsrc : f.sof ∉ src) :
    f.sof ∉ outputBytes f src := by
  simp only [outputBytes, List.mem_flatMap, not_exists, not_and]
  intro c hc
  have hne : f.sof ≠ c := fun heq => hsrc (heq ▸ hc)
  split_ifs <;> simp [hne, hf.sof_ne_esc]

/-- A frame, newline included. -/
theorem run_frame (hf : Suitable f kind) {s : FrameState} (hout : s.inFrame = false)
    {payload : List UInt8} (hlegal : ∀ c ∈ payload, isLegalCharacter kind c = true)
    (hroom : payload.length ≤ maxSizeOfFrame) :
    (scanner f kind maxSizeOfFrame).run s (frameBytes f payload) =
      ([payload], initializeFrame) := by
  have hsof : (scanner f kind maxSizeOfFrame).next s f.sof = .inl ⟨true, false, []⟩ := by
    simp [scanner, processChar, hout]
  have heof : (scanner f kind maxSizeOfFrame).next ⟨true, false, payload⟩ f.eof =
      .inr payload := by
    simp [scanner, processChar, hf.eof_legal]
  have hfiller : f.sof ∉ f.appendNewline.elim [] (outputBytes f) := by
    cases hnewline : f.appendNewline with
    | none => simp
    | some newline => exact sof_notMem_outputBytes hf (hf.sof_notMem newline hnewline)
  have hstart : (scanner f kind maxSizeOfFrame).start = initializeFrame := rfl
  rw [frameBytes, Scanner.run_cons_of_inl hsof, Scanner.run_append,
    run_payload hf hlegal (by simpa using hroom), List.nil_append]
  dsimp only
  rw [List.nil_append, Scanner.run_cons_of_inr heof, hstart, run_filler rfl hfiller]

/-- Frames among other bytes. -/
theorem run_parts (hf : Suitable f kind) {parts : List (List UInt8 × List UInt8)}
    (hfiller : ∀ part ∈ parts, f.sof ∉ part.1)
    (hlegal : ∀ part ∈ parts, ∀ c ∈ part.2, isLegalCharacter kind c = true)
    (hroom : ∀ part ∈ parts, part.2.length ≤ maxSizeOfFrame) {last : List UInt8}
    (hlast : f.sof ∉ last) {s : FrameState} (hout : s.inFrame = false) :
    ((scanner f kind maxSizeOfFrame).run s
      ((parts.flatMap fun part => part.1 ++ frameBytes f part.2) ++ last)).1 =
        parts.map Prod.snd := by
  induction parts generalizing s with
  | nil =>
      rw [List.flatMap_nil, List.nil_append, run_filler hout hlast]
      rfl
  | cons part parts ih =>
      rw [List.forall_mem_cons] at hfiller hlegal hroom
      rw [List.flatMap_cons, List.append_assoc, List.append_assoc, Scanner.run_append,
        run_filler hout hfiller.1, Scanner.run_append, run_frame hf hout hlegal.1 hroom.1,
        ih hfiller.2 hlegal.2 hroom.2 rfl]
      rfl

end Decoding

section Scanning

/-- The frames that the decoder still has to find, when its source gives `bytes`. -/
def pending (d : Decoder) (bytes : List UInt8) : List (List UInt8) :=
  ((scanner f kind maxSizeOfFrame).run d.state (d.data ++ bytes)).1

/-- A bound on the calls that do not find a frame. -/
def workLeft (d : Decoder) (reads : Nat) : Nat :=
  if d.data = [] then reads else reads + 1

/-- The decoder in a search. -/
def Decoder.ofSearch (d : Search Source UInt8 FrameState) : Decoder :=
  { source := d.source, data := d.data, state := d.state }

def Scan.ofOutcome : Outcome (List UInt8) → Scan
  | .ended => .ioError
  | .inProgress => .inProgress
  | .found frame => .eof frame

theorem scanOnce_eq (d : Search Source UInt8 FrameState) :
    scanOnce f kind maxSizeOfFrame (.ofSearch d) =
      (.ofOutcome (d.step (scanner f kind maxSizeOfFrame) read fun _ => initializeFrame).1,
        .ofSearch (d.step (scanner f kind maxSizeOfFrame) read fun _ => initializeFrame).2) := by
  have hprocess : ∀ d : Search Source UInt8 FrameState,
      processData f kind maxSizeOfFrame (.ofSearch d) =
        (.ofOutcome (d.process (scanner f kind maxSizeOfFrame)).1,
          .ofSearch (d.process (scanner f kind maxSizeOfFrame)).2) := by
    intro d
    simp only [processData, Search.process, Decoder.ofSearch]
    cases (scanner f kind maxSizeOfFrame).find d.state d.data with
    | inl s => rfl
    | inr found => rfl
  rcases d with ⟨source, data, state⟩
  cases data with
  | nil =>
      simp only [scanOnce, Search.step, Decoder.ofSearch, if_true]
      cases read source with
      | none => rfl
      | some r => exact hprocess { source := r.2, data := r.1, state := state }
  | cons c data =>
      simp only [scanOnce, Search.step, Decoder.ofSearch, List.cons_ne_nil, if_false]
      exact hprocess { source := source, data := c :: data, state := state }

theorem scanLoop_eq (fuel : Nat) (d : Search Source UInt8 FrameState) :
    scanLoop f kind maxSizeOfFrame fuel (.ofSearch d) =
      (d.seek (scanner f kind maxSizeOfFrame) read (fun _ => initializeFrame) fuel).map
        fun r => (r.1, .ofSearch r.2) := by
  induction fuel generalizing d with
  | zero => rfl
  | succ fuel ih =>
      rw [scanLoop, Search.seek, scanOnce_eq]
      rcases d.step (scanner f kind maxSizeOfFrame) read fun _ => initializeFrame with ⟨r, d'⟩
      cases r with
      | ended => rfl
      | inProgress => exact ih d'
      | found frame => rfl

theorem scans_eq_seeks (fuel n : Nat) (d : Search Source UInt8 FrameState) :
    scans f kind maxSizeOfFrame fuel n (.ofSearch d) =
      d.seeks (scanner f kind maxSizeOfFrame) read (fun _ => initializeFrame) fuel n := by
  induction n generalizing d with
  | zero => rfl
  | succ n ih =>
      have hscan : scan f kind maxSizeOfFrame fuel (.ofSearch d) = _ :=
        scanLoop_eq f kind maxSizeOfFrame fuel { d with state := initializeFrame }
      rw [scans, hscan, Search.seeks]
      cases Search.seek (scanner f kind maxSizeOfFrame) read (fun _ => initializeFrame) fuel
          { d with state := initializeFrame } with
      | none => rfl
      | some r =>
          simp only [Option.map_some, Option.bind_eq_bind, Option.bind_some, ih]
          cases r.2.seeks (scanner f kind maxSizeOfFrame) read (fun _ => initializeFrame) fuel n with
          | none => rfl
          | some frames => rfl

theorem polls_eq_poll (fuel : Nat) (d : Search Source UInt8 FrameState) :
    polls f kind maxSizeOfFrame fuel (.ofSearch d) =
      d.poll (scanner f kind maxSizeOfFrame) read (fun _ => initializeFrame) fuel := by
  induction fuel generalizing d with
  | zero => rfl
  | succ fuel ih =>
      rw [polls, Search.poll, scanOnce_eq]
      rcases d.step (scanner f kind maxSizeOfFrame) read fun _ => initializeFrame with ⟨r, d'⟩
      cases r with
      | ended => rfl
      | inProgress => exact ih d'
      | found frame => exact congrArg (Option.map (frame :: ·)) (ih d')

theorem workLeft_eq (d : Decoder) (reads : Nat) :
    workLeft d reads = Search.workLeft ⟨d.source, d.data, d.state⟩ reads := by
  rcases d with ⟨source, data, state⟩
  cases data with
  | nil => rfl
  | cons c data => rfl

theorem polls_eq (fuel : Nat) (d : Decoder) {bytes : List UInt8} {n : Nat}
    (hyields : Yields read d.source bytes n)
    (hfuel : workLeft d n + (pending f kind maxSizeOfFrame d bytes).length < fuel) :
    polls f kind maxSizeOfFrame fuel d = some (pending f kind maxSizeOfFrame d bytes) := by
  rw [workLeft_eq] at hfuel
  exact (polls_eq_poll f kind maxSizeOfFrame fuel ⟨d.source, d.data, d.state⟩).trans
    (Search.poll_eq _ fuel ⟨d.source, d.data, d.state⟩ hyields hfuel)

theorem scans_eq (fuel : Nat) (d : Decoder) {bytes : List UInt8} {n : Nat}
    (hstate : d.state = initializeFrame) (hyields : Yields read d.source bytes n)
    (hfuel : workLeft d n < fuel) :
    scans f kind maxSizeOfFrame fuel ((pending f kind maxSizeOfFrame d bytes).length + 1) d =
      some ((pending f kind maxSizeOfFrame d bytes).map some ++ [none]) := by
  rw [workLeft_eq] at hfuel
  exact (scans_eq_seeks f kind maxSizeOfFrame fuel _ ⟨d.source, d.data, d.state⟩).trans
    (Search.seeks_eq _ rfl fuel ⟨d.source, d.data, d.state⟩ hstate hyields hfuel)

end Scanning

section RoundTrip

theorem yields_stream {bufSize : Nat} (hbuf : 0 < bufSize) (remaining : List UInt8)
    (shortReads : List Nat) :
    ∃ n, Yields read (.stream bufSize remaining shortReads) remaining n := by
  induction shortReads generalizing remaining with
  | nil =>
      induction hlength : remaining.length using Nat.strong_induction_on generalizing remaining with
      | _ length ih =>
          by_cases hnil : remaining = []
          · subst hnil
            exact ⟨0, .done rfl⟩
          · have hpos : 0 < remaining.length := List.length_pos_iff.mpr hnil
            obtain ⟨n, hn⟩ := ih (remaining.drop bufSize).length
              (by rw [List.length_drop]; omega) (remaining.drop bufSize) rfl
            have hmore : Yields read (.stream bufSize remaining [])
                (remaining.take bufSize ++ remaining.drop bufSize) (n + 1) :=
              .more (by rw [read, if_neg hnil]) hn
            rw [List.take_append_drop] at hmore
            exact ⟨n + 1, hmore⟩
  | cons k ks ih =>
      obtain ⟨n, hn⟩ := ih (remaining.drop (min k bufSize))
      have hmore : Yields read (.stream bufSize remaining (k :: ks))
          (remaining.take (min k bufSize) ++ remaining.drop (min k bufSize)) (n + 1) :=
        .more rfl hn
      rw [List.take_append_drop] at hmore
      exact ⟨n + 1, hmore⟩

theorem yields_string (src : List UInt8) : ∃ n, Yields read (.string src src.length) src n := by
  induction src with
  | nil =>
      have hmore : Yields read (.string [] 0) ([] ++ []) 1 := .more rfl (.done rfl)
      exact ⟨1, hmore⟩
  | cons c src ih =>
      obtain ⟨n, hn⟩ := ih
      have hread : read (.string (c :: src) (c :: src).length) =
          some ([c], .string src src.length) := by
        have hlength : ((c :: src).length : Int) = src.length + 1 := by simp
        rw [read, hlength, if_neg (by omega), if_neg (by omega), Int.add_sub_cancel]
        rfl
      have hmore : Yields read (.string (c :: src) (c :: src).length) ([c] ++ src) (n + 1) :=
        .more hread hn
      exact ⟨n + 1, hmore⟩

/-- The input of a decoder. -/
def Source.ofKind (kind : Kind) (bufSize : Nat) (bytes : List UInt8) (shortReads : List Nat) :
    Source :=
  match kind with
  | .ascii _ => .stream bufSize bytes shortReads
  | .string => .string bytes bytes.length

/-- The payloads of the frames are decoded in order, each once, and then the input ends. -/
theorem frames_round_trip (f : Framing) (kind : Kind) (hf : Suitable f kind)
    (parts : List (List UInt8 × List UInt8)) (last : List UInt8)
    (hfiller : ∀ part ∈ parts, f.sof ∉ part.1) (hlast : f.sof ∉ last)
    (hlegal : ∀ part ∈ parts, ∀ c ∈ part.2, isLegalCharacter kind c = true)
    (bufSize : Nat) (hbuf : 0 < bufSize) (shortReads : List Nat) (maxSizeOfFrame : Nat)
    (hroom : ∀ part ∈ parts, part.2.length ≤ maxSizeOfFrame) :
    ∃ e, transmit f parts = some e ∧ ∃ enough, ∀ fuel, enough ≤ fuel →
      let d := Decoder.init (.ofKind kind bufSize (e.dst ++ last) shortReads)
      scans f kind maxSizeOfFrame fuel (parts.length + 1) d =
          some (parts.map (fun part => some part.2) ++ [none]) ∧
        polls f kind maxSizeOfFrame fuel d = some (parts.map Prod.snd) := by
  refine ⟨_, transmit_eq f hf.sof_ne_zero parts, ?_⟩
  generalize hbytes : (parts.flatMap fun part => part.1 ++ frameBytes f part.2) ++ last = bytes
  have hyields : ∃ n, Yields read (.ofKind kind bufSize bytes shortReads) bytes n := by
    cases kind with
    | ascii restricted => exact yields_stream hbuf bytes shortReads
    | string => exact yields_string bytes
  obtain ⟨n, hn⟩ := hyields
  have hframes : pending f kind maxSizeOfFrame
      (Decoder.init (.ofKind kind bufSize bytes shortReads)) bytes = parts.map Prod.snd := by
    rw [← hbytes]
    exact run_parts hf hfiller hlegal hroom hlast rfl
  refine ⟨n + parts.length + 1, fun fuel hfuel => ?_⟩
  have hwork : workLeft (Decoder.init (.ofKind kind bufSize bytes shortReads)) n = n := rfl
  constructor
  · have hscans := scans_eq f kind maxSizeOfFrame fuel
      (Decoder.init (.ofKind kind bufSize bytes shortReads)) rfl hn (by omega)
    rw [hframes, List.length_map, List.map_map] at hscans
    exact hscans
  · have hpolls := polls_eq f kind maxSizeOfFrame fuel
      (Decoder.init (.ofKind kind bufSize bytes shortReads)) hn
      (by rw [hframes, List.length_map, hwork]; omega)
    rw [hframes] at hpolls
    exact hpolls

/-- A frame that holds all three special characters, read in pieces of up to three. -/
theorem frames_round_trip_special_characters :
    ∃ e, transmit ⟨36, 59, 96, some [10]⟩ [([97], [36, 59, 96, 98])] = some e ∧
      ∃ enough, ∀ fuel, enough ≤ fuel →
        polls ⟨36, 59, 96, some [10]⟩ (.ascii true) 8 fuel
          (Decoder.init (.ofKind (.ascii true) 3 (e.dst ++ [10]) [1, 0, 2])) =
            some [[36, 59, 96, 98]] := by
  have hf : Suitable ⟨36, 59, 96, some [10]⟩ (.ascii true) :=
    ⟨rfl, rfl, rfl, by decide, by decide, by decide, by decide, by simp⟩
  obtain ⟨e, he, enough, henough⟩ := frames_round_trip _ _ hf [([97], [36, 59, 96, 98])] [10]
    (by simp) (by simp) (by simp [isLegalCharacter]) 3 (by decide) [1, 0, 2] 8 (by simp)
  exact ⟨e, he, enough, fun fuel hfuel => (henough fuel hfuel).2⟩

end RoundTrip

end ColonyPico.Text.FrameCodec
