import ColonyPico.Text.FrameCodec

/-!
The encoder that writes in blocks (`Cpl::Text::Frame::BlockEncoder`) beside the one that writes
every character by itself.
-/

namespace ColonyPico.Text.BlockEncoder

open ColonyPico.Text.FrameCodec (Framing outputBytes)

/-- The virtual functions that `Encoder_` writes with. -/
structure Writer (σ : Type*) where
  /-- `start( char )`. -/
  startSof : σ → UInt8 → σ
  /-- `start()`. -/
  start : σ → σ
  append : σ → UInt8 → σ
  /-- What `endFrame()` does when the frame has been ended. -/
  flush : σ → σ

structure Encoder (σ : Type*) where
  inFrame : Bool
  out : σ

section Encoder_

variable {σ : Type*} (w : Writer σ) (f : Framing)

/-- `startFrame()`; nothing for a fatal error. -/
def startFrame (e : Encoder σ) : Option (Encoder σ) :=
  if e.inFrame then none
  else some { inFrame := true
              out := if f.sof ≠ 0 then w.startSof e.out f.sof else w.start e.out }

/-- `output( char )`. -/
def outputChar (e : Encoder σ) (src : UInt8) : Option (Encoder σ) :=
  if e.inFrame then
    some { e with out := if f.esc ≠ 0 ∧ (src = f.esc ∨ src = f.eof)
                    then w.append (w.append e.out f.esc) src else w.append e.out src }
  else none

def output (e : Encoder σ) (src : List UInt8) : Option (Encoder σ) :=
  src.foldlM (outputChar w f) e

/-- `Encoder_::endFrame()`. -/
def endFrame (e : Encoder σ) : Option (Encoder σ) :=
  if e.inFrame then
    let e := { inFrame := false, out := w.append e.out f.eof }
    match f.appendNewline with
    | none => some e
    | some newline =>
        (output w f { e with inFrame := true } newline).map fun e => { e with inFrame := false }
  else none

/-- The calls of `output()`; a pointer may be null. -/
inductive Output where
  | char (src : UInt8)
  | string (src : Option (List UInt8))
  | bytes (src : Option (List UInt8))

/-- The characters of a call. A string ends at its first NUL. -/
def Output.chars : Output → List UInt8
  | .char src => [src]
  | .string src => (src.getD []).takeWhile (· != 0)
  | .bytes src => src.getD []

def frame (e : Encoder σ) (calls : List Output) : Option (Encoder σ) := do
  let e ← startFrame w f e
  let e ← calls.foldlM (fun e call => output w f e call.chars) e
  let e ← endFrame w f e
  pure { e with out := w.flush e.out }

def frames (e : Encoder σ) (calls : List (List Output)) : Option (Encoder σ) :=
  calls.foldlM (frame w f) e

end Encoder_

/-- `StreamEncoder` on an output that takes everything. -/
def streamWriter : Writer (List UInt8) :=
  { startSof := fun dst src => dst ++ [src]
    start := id
    append := fun dst src => dst ++ [src]
    flush := id }

/-- The block of `BlockEncoder`, and the output. -/
structure Block where
  buffer : List UInt8
  bufferCount : Nat
  dst : List UInt8

def appendToBlock (b : Block) (src : UInt8) : Block :=
  let b :=
    if b.bufferCount < b.buffer.length then
      { b with buffer := b.buffer.set b.bufferCount src, bufferCount := b.bufferCount + 1 }
    else b
  if b.bufferCount ≥ b.buffer.length then { b with bufferCount := 0, dst := b.dst ++ b.buffer }
  else b

def blockWriter : Writer Block :=
  { startSof := fun b src => appendToBlock { b with bufferCount := 0 } src
    start := fun b => { b with bufferCount := 0 }
    append := appendToBlock
    -- the count is left as it is
    flush := fun b => { b with dst := b.dst ++ b.buffer.take b.bufferCount } }

/-- Encoders as they are constructed. -/
def streamEncoder : Encoder (List UInt8) :=
  { inFrame := false, out := [] }

def blockEncoder (buffer : List UInt8) : Encoder Block :=
  { inFrame := false, out := { buffer := buffer, bufferCount := 0, dst := [] } }

section Stream

variable (f : Framing)

/-- The encoder of `FrameCodec`. -/
def Encoder.toFrameCodec (e : Encoder (List UInt8)) : FrameCodec.Encoder :=
  { inFrame := e.inFrame, dst := e.out }

theorem startFrame_toFrameCodec (e : Encoder (List UInt8)) :
    (startFrame streamWriter f e).map Encoder.toFrameCodec =
      FrameCodec.startFrame f e.toFrameCodec := by
  rcases e with ⟨_ | _, out⟩
  · simp only [startFrame, FrameCodec.startFrame, Encoder.toFrameCodec, Bool.false_eq_true, if_false]
    split_ifs <;> rfl
  · rfl

theorem outputChar_toFrameCodec (e : Encoder (List UInt8)) (src : UInt8) :
    (outputChar streamWriter f e src).map Encoder.toFrameCodec =
      FrameCodec.outputChar f e.toFrameCodec src := by
  rcases e with ⟨_ | _, out⟩
  · rfl
  · simp only [outputChar, FrameCodec.outputChar, Encoder.toFrameCodec, if_true]
    split_ifs <;> rfl

theorem output_toFrameCodec (e : Encoder (List UInt8)) (src : List UInt8) :
    (output streamWriter f e src).map Encoder.toFrameCodec =
      FrameCodec.output f e.toFrameCodec src := by
  induction src generalizing e with
  | nil => rfl
  | cons c src ih =>
      have hchar := outputChar_toFrameCodec f e c
      rw [output, FrameCodec.output, List.foldlM_cons, List.foldlM_cons, ← hchar]
      cases outputChar streamWriter f e c with
      | none => rfl
      | some e' => exact ih e'

theorem endFrame_toFrameCodec (e : Encoder (List UInt8)) :
    (endFrame streamWriter f e).map Encoder.toFrameCodec =
      FrameCodec.endFrame f e.toFrameCodec := by
  rcases e with ⟨_ | _, out⟩
  · rfl
  · simp only [endFrame, FrameCodec.endFrame, Encoder.toFrameCodec, if_true]
    cases f.appendNewline with
    | none => rfl
    | some newline =>
        have houtput := output_toFrameCodec f
          { inFrame := true, out := streamWriter.append out f.eof } newline
        have hout : FrameCodec.output f { inFrame := true, dst := out ++ [f.eof] } newline = _ :=
          houtput.symm
        simp only [FrameCodec.Encoder.append, hout]
        cases output streamWriter f { inFrame := true, out := streamWriter.append out f.eof }
            newline with
        | none => rfl
        | some e => rfl

/-- `StreamEncoder` is the encoder of the codec. -/
theorem frame_toFrameCodec (e : Encoder (List UInt8)) (calls : List Output) :
    (frame streamWriter f e calls).map Encoder.toFrameCodec =
      (FrameCodec.startFrame f e.toFrameCodec).bind fun e =>
        (calls.foldlM (fun e call => FrameCodec.output f e call.chars) e).bind
          (FrameCodec.endFrame f) := by
  have hcalls : ∀ e : Encoder (List UInt8),
      (calls.foldlM (fun e call => output streamWriter f e call.chars) e).map
          Encoder.toFrameCodec =
        calls.foldlM (fun e call => FrameCodec.output f e call.chars) e.toFrameCodec := by
    induction calls with
    | nil => intro e; rfl
    | cons call calls ih =>
        intro e
        rw [List.foldlM_cons, List.foldlM_cons, ← output_toFrameCodec]
        cases output streamWriter f e call.chars with
        | none => rfl
        | some e' => exact ih e'
  rw [frame, ← startFrame_toFrameCodec]
  cases startFrame streamWriter f e with
  | none => rfl
  | some e =>
      rw [Option.bind_eq_bind, Option.bind_some, Option.map_some, Option.bind_some, ← hcalls]
      cases calls.foldlM (fun e call => output streamWriter f e call.chars) e with
      | none => rfl
      | some e =>
          rw [Option.bind_some, Option.map_some, Option.bind_some, ← endFrame_toFrameCodec]
          cases endFrame streamWriter f e with
          | none => rfl
          | some e => rfl

end Stream

section Appends

variable {σ : Type*} (w : Writer σ) (f : Framing)

/-- In a frame the calls append characters, one after the other. -/
theorem output_eq (out : σ) (src : List UInt8) :
    output w f { inFrame := true, out := out } src =
      some { inFrame := true, out := (outputBytes f src).foldl w.append out } := by
  induction src generalizing out with
  | nil => rfl
  | cons c src ih =>
      have hchar : outputChar w f { inFrame := true, out := out } c =
          some { inFrame := true, out := (outputBytes f [c]).foldl w.append out } := by
        simp only [outputChar, outputBytes, List.flatMap_cons, List.flatMap_nil, List.append_nil,
          if_true]
        split_ifs <;> rfl
      rw [output, List.foldlM_cons, hchar, Option.bind_eq_bind, Option.bind_some]
      refine (ih _).trans ?_
      simp [outputBytes]

/-- What a frame appends after its start. -/
def frameChars (calls : List Output) : List UInt8 :=
  (calls.flatMap fun call => outputBytes f call.chars) ++
    f.eof :: f.appendNewline.elim [] (outputBytes f)

def startOut (out : σ) : σ :=
  if f.sof ≠ 0 then w.startSof out f.sof else w.start out

theorem frame_eq (out : σ) (calls : List Output) :
    frame w f { inFrame := false, out := out } calls =
      some { inFrame := false
             out := w.flush ((frameChars f calls).foldl w.append (startOut w f out)) } := by
  have hcalls : ∀ out : σ,
      calls.foldlM (fun e call => output w f e call.chars) { inFrame := true, out := out } =
        some { inFrame := true
               out := (calls.flatMap fun call => outputBytes f call.chars).foldl w.append out } := by
    induction calls with
    | nil => intro out; rfl
    | cons call calls ih =>
        intro out
        rw [List.foldlM_cons, output_eq, Option.bind_eq_bind, Option.bind_some, ih,
          List.flatMap_cons, List.foldl_append]
  have hend : ∀ out : σ, endFrame w f { inFrame := true, out := out } =
      some { inFrame := false
             out := (f.eof :: f.appendNewline.elim [] (outputBytes f)).foldl w.append out } := by
    intro out
    rw [endFrame, if_pos rfl]
    cases f.appendNewline with
    | none => rfl
    | some newline =>
        simp only [output_eq]
        rfl
  have hstart : startFrame w f { inFrame := false, out := out } =
      some { inFrame := true, out := startOut w f out } := rfl
  simp only [frame, hstart, hcalls, hend, Option.bind_eq_bind, Option.bind_some, frameChars,
    List.foldl_append]
  rfl

end Appends

section Blocks

/-- The block has room, and with what it holds the output is `written`. -/
def Sound (size : Nat) (b : Block) (written : List UInt8) : Prop :=
  b.buffer.length = size ∧ b.bufferCount < size ∧
    b.dst ++ b.buffer.take b.bufferCount = written

variable {size : Nat} {b : Block} {written : List UInt8}

theorem appendToBlock_sound (h : Sound size b written) (src : UInt8) :
    Sound size (appendToBlock b src) (written ++ [src]) := by
  obtain ⟨hlength, hroom, rfl⟩ := h
  have htake : (b.buffer.set b.bufferCount src).take (b.bufferCount + 1) =
      b.buffer.take b.bufferCount ++ [src] := by
    rw [List.take_succ_eq_append_getElem (by rw [List.length_set]; omega), List.getElem_set_self,
      List.take_set_of_le (Nat.le_refl _)]
  have hpush : b.bufferCount < b.buffer.length := by omega
  simp only [appendToBlock, if_pos hpush]
  rcases Nat.lt_or_ge (b.bufferCount + 1) size with hmore | hfull
  · rw [if_neg (by rw [List.length_set]; omega)]
    refine ⟨?_, hmore, ?_⟩
    · rw [List.length_set, hlength]
    · rw [htake, List.append_assoc]
  · -- the block is full: it goes out with this character
    rw [if_pos (by rw [List.length_set]; omega)]
    rw [List.take_of_length_le (by rw [List.length_set]; omega)] at htake
    refine ⟨?_, Nat.lt_of_le_of_lt (Nat.zero_le _) hroom, ?_⟩
    · rw [List.length_set, hlength]
    · rw [htake, List.take_zero, List.append_nil, List.append_assoc]

theorem foldl_appendToBlock_sound (h : Sound size b written) (src : List UInt8) :
    Sound size (src.foldl appendToBlock b) (written ++ src) := by
  induction src generalizing b written with
  | nil =>
      rw [List.append_nil]
      exact h
  | cons c src ih =>
      rw [List.foldl_cons, List.append_cons]
      exact ih (appendToBlock_sound h c)

/-- The bytes of a frame. -/
def frameBytes (f : Framing) (calls : List Output) : List UInt8 :=
  (if f.sof ≠ 0 then [f.sof] else []) ++ frameChars f calls

theorem frame_streamWriter (f : Framing) (dst : List UInt8) (calls : List Output) :
    frame streamWriter f { inFrame := false, out := dst } calls =
      some { inFrame := false, out := dst ++ frameBytes f calls } := by
  have hfoldl : ∀ dst src : List UInt8, src.foldl streamWriter.append dst = dst ++ src := by
    intro dst src
    induction src generalizing dst with
    | nil => exact (List.append_nil dst).symm
    | cons c src ih => rw [List.foldl_cons, ih, List.append_cons]; rfl
  have hstart : startOut streamWriter f dst = dst ++ if f.sof ≠ 0 then [f.sof] else [] := by
    rw [startOut]
    split_ifs
    · rfl
    · exact (List.append_nil dst).symm
  rw [frame_eq, hfoldl, hstart, List.append_assoc]
  rfl

/-- Whatever an earlier frame left in the block is not part of this one. -/
theorem frame_blockWriter (f : Framing) (b : Block) (hsize : 0 < b.buffer.length)
    (calls : List Output) :
    ∃ b', frame blockWriter f { inFrame := false, out := b } calls =
        some { inFrame := false, out := b' } ∧
      b'.buffer.length = b.buffer.length ∧ b'.dst = b.dst ++ frameBytes f calls := by
  have hempty : Sound b.buffer.length { b with bufferCount := 0 } b.dst :=
    ⟨rfl, hsize, List.append_nil b.dst⟩
  have hstart : Sound b.buffer.length (startOut blockWriter f b)
      (b.dst ++ if f.sof ≠ 0 then [f.sof] else []) := by
    rw [startOut]
    split_ifs
    · exact appendToBlock_sound hempty f.sof
    · rw [List.append_nil]
      exact hempty
  obtain ⟨hlength, -, hwritten⟩ := foldl_appendToBlock_sound hstart (frameChars f calls)
  refine ⟨_, frame_eq blockWriter f b calls, hlength, ?_⟩
  rw [List.append_assoc] at hwritten
  exact hwritten

theorem frames_blockWriter (f : Framing) (b : Block) (hsize : 0 < b.buffer.length)
    (calls : List (List Output)) :
    ∃ b', frames blockWriter f { inFrame := false, out := b } calls =
        some { inFrame := false, out := b' } ∧
      frames streamWriter f { inFrame := false, out := b.dst } calls =
        some { inFrame := false, out := b'.dst } := by
  induction calls generalizing b with
  | nil => exact ⟨b, rfl, rfl⟩
  | cons call calls ih =>
      obtain ⟨b', hframe, hlength, hdst⟩ := frame_blockWriter f b hsize call
      obtain ⟨b'', hblock, hstream⟩ := ih b' (hlength ▸ hsize)
      rw [hdst] at hstream
      refine ⟨b'', ?_, ?_⟩
      · rw [frames, List.foldlM_cons, hframe]
        exact hblock
      · rw [frames, List.foldlM_cons, frame_streamWriter]
        exact hstream

/-- After every frame both encoders have written the same. -/
theorem blockEncoder_agrees (f : Framing) (buffer : List UInt8) (hsize : 1 ≤ buffer.length)
    (calls : List (List Output)) :
    ∃ b s, frames blockWriter f (blockEncoder buffer) calls = some b ∧
      frames streamWriter f streamEncoder calls = some s ∧ b.out.dst = s.out := by
  obtain ⟨b, hblock, hstream⟩ := frames_blockWriter f
    { buffer := buffer, bufferCount := 0, dst := [] } hsize calls
  exact ⟨_, _, hblock, hstream, rfl⟩

/-- Two frames over blocks of two characters: the escape sequence and the end of the first frame
each lie across a block. -/
theorem blockEncoder_agrees_two_frames :
    ∃ b s, frames blockWriter ⟨36, 59, 96, some [10]⟩ (blockEncoder [0, 0])
        [[.char 59, .string (some [97])], [.bytes none]] = some b ∧
      frames streamWriter ⟨36, 59, 96, some [10]⟩ streamEncoder
        [[.char 59, .string (some [97])], [.bytes none]] = some s ∧ b.out.dst = s.out :=
  blockEncoder_agrees ⟨36, 59, 96, some [10]⟩ [0, 0] (by decide)
    [[.char 59, .string (some [97])], [.bytes none]]

end Blocks

end ColonyPico.Text.BlockEncoder
