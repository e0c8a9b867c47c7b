import ColonyPico.Container.MapLookup
import ColonyPico.Foundations.Runs
import ColonyPico.Text.BasicTokenizer
import ColonyPico.Text.FrameCodec

/-!
Text commands in frames (`Driver::TPipe`): any number of threads that send, and the thread that
receives and hands every frame to the handler of its verb.
-/

namespace ColonyPico.Driver.TPipe

open ColonyPico.Container
open ColonyPico.Container.AvlTrees
open ColonyPico.Container.AvlUpdates
open ColonyPico.Container.Keys
open ColonyPico.Container.MapLookup
open ColonyPico.Container.MapRuns
open ColonyPico.Foundations.BalancedTrees
open ColonyPico.Foundations.ChunkedInput
open ColonyPico.Foundations.Runs
open ColonyPico.Foundations.TextOrder
open ColonyPico.Text.BasicTokenizer
open ColonyPico.Text.FrameCodec

/-- The key of a handler, a `KeyLiteralString`. -/
structure Verb where
  text : List UInt8
  noNull : ∀ c ∈ text, c ≠ 0
  length_lt : text.length < 2 ^ 31

def Verb.key (v : Verb) : ShortKey :=
  ⟨⟨v.text, v.length_lt.trans (by decide)⟩, v.length_lt⟩

/-- What a `Maker` is constructed with, and the handlers in the order of their construction. -/
structure Maker (ι : Type) where
  startOfFrame : UInt8
  endOfFrame : UInt8
  escapeChar : UInt8
  maxRxFrameSize : Nat
  verbDelimiters : List UInt8
  rawInputSize : Nat
  sizeBits : Nat
  lib : CLibrary
  handlers : List ι
  getVerb : ι → Verb

/-- The members of `Pipe` that its thread changes; `started` tells whether there is a frame
buffer. The last field records the calls of `execute()`. -/
structure Pipe (ι : Type) where
  started : Bool
  deframer : Decoder
  unknownFrames : Nat
  executed : List (ι × List UInt8)

section Code

variable {ι : Type} (m : Maker ι)

def Maker.framing : Framing :=
  { sof := m.startOfFrame, eof := m.endOfFrame, esc := m.escapeChar, appendNewline := none }

/-- `getKey()`. -/
def Maker.getKey (handler : ι) : ShortKey :=
  (m.getVerb handler).key

/-- The constructors of the handlers, which do not look at what `insert()` returns. -/
def Maker.register [DecidableEq ι] : List ι → AvlTree ι → Option (AvlTree ι)
  | [], rxHandlers => some rxHandlers
  | handler :: handlers, rxHandlers =>
      (MapLookup.insert (stringKeys m.lib) m.getKey rxHandlers handler).bind fun r =>
        Maker.register handlers r.1

/-- The verb that a frame begins with. -/
def Maker.verbToken (frame : List UInt8) : List UInt8 :=
  frame.take (stripNotChars m.verbDelimiters (frame ++ [0]))

/-- The verb as a key; nothing when its length is not an `int`. -/
def verbKey (token : List UInt8) : Option ShortKey :=
  if h : token.length < 2 ^ 31 then some ⟨⟨token, h.trans (by decide)⟩, h⟩ else none

variable (rxHandlers : AvlTree ι) (fuel : Nat)

/-- `poll()` from the end of a frame on. -/
def Pipe.dispatch (p : Pipe ι) (frame : List UInt8) : Option (Pipe ι) :=
  (verbKey (m.verbToken frame)).bind fun verb =>
    (MapLookup.find (stringKeys m.lib) m.getKey fuel rxHandlers.nodes verb).bind fun handlerPtr =>
      match handlerPtr with
      | none => some { p with unknownFrames := (p.unknownFrames + 1) % 2 ^ m.sizeBits }
      | some (.item handler) => some { p with executed := p.executed ++ [(handler, frame)] }
      | some .root => none

/-- `poll()`, with what it returns. -/
def Pipe.poll (p : Pipe ι) : Option (Bool × Pipe ι) :=
  if p.started then
    match scanOnce m.framing .string m.maxRxFrameSize p.deframer with
    | (.ioError, deframer) => some (false, { p with deframer := deframer })
    | (.inProgress, deframer) => some (true, { p with deframer := deframer })
    | (.eof frame, deframer) =>
        (Pipe.dispatch m rxHandlers fuel { p with deframer := deframer } frame).map fun p =>
          (true, p)
  else some (true, p)

/-- Where a thread is in `sendCommand()`, with the mutex. -/
inductive Phase where
  | starting
  | output (rest : List UInt8)
  | ending

/-- A thread that has the mutex. -/
structure Holder (τ : Type) where
  thread : τ
  command : List UInt8
  phase : Phase

/-- The sending pipe, the stream and the receiving pipe. The stream holds what `framer` has written
and nobody has read; the last field records the commands in the order of the calls that got the
mutex. -/
structure Link (τ ι : Type) where
  framer : Encoder
  holder : Option (Holder τ)
  receiver : Pipe ι
  sent : List (τ × List UInt8)

/-- Both pipes behind `start()`. -/
def Link.start (τ ι : Type) : Link τ ι :=
  { framer := { inFrame := false, dst := [] }
    holder := none
    receiver :=
      { started := true
        deframer := .init (.stream 0 [] [])
        unknownFrames := 0
        executed := [] }
    sent := [] }

inductive Action (τ : Type) where
  /-- The thread calls `sendCommand()` and gets the mutex. -/
  | lock (thread : τ) (command : List UInt8)
  /-- The thread makes its next call of the framer; the last one gives the mutex back. -/
  | advance (thread : τ)
  /-- The receiving thread polls, when that many bytes are available. -/
  | poll (available : Nat)

/-- The next call of the framer; nothing for a protocol error. -/
def Holder.advance {τ : Type} (h : Holder τ) (framer : Encoder) :
    Option (Encoder × Option (Holder τ)) :=
  match h.phase with
  | .starting =>
      (startFrame m.framing framer).map fun e => (e, some { h with phase := .output h.command })
  | .output [] => some (framer, some { h with phase := .ending })
  | .output (c :: rest) =>
      (outputChar m.framing framer c).map fun e => (e, some { h with phase := .output rest })
  | .ending => (endFrame m.framing framer).map fun e => (e, none)

/-- The bytes that a read leaves in the stream. -/
def unread : Source → List UInt8
  | .stream _ remaining _ => remaining
  | .string src _ => src

def Link.poll {τ : Type} (s : Link τ ι) (available : Nat) : Option (Link τ ι) :=
  let deframer :=
    { s.receiver.deframer with source := .stream m.rawInputSize s.framer.dst [available] }
  (Pipe.poll m rxHandlers fuel { s.receiver with deframer := deframer }).map fun r =>
    { s with
      receiver := r.2
      framer := { s.framer with dst := unread r.2.deframer.source } }

def step {τ : Type} [DecidableEq τ] (s : Link τ ι) : Action τ → Option (Link τ ι)
  | .lock thread command =>
      match s.holder with
      | some _ => none
      | none =>
          some { s with
            holder := some { thread := thread, command := command, phase := .starting }
            sent := s.sent ++ [(thread, command)] }
  | .advance thread =>
      s.holder.bind fun h =>
        if h.thread = thread then
          (h.advance m s.framer).map fun r => { s with framer := r.1, holder := r.2 }
        else none
  | .poll available => s.poll m rxHandlers fuel available

end Code

section Handlers

/-- The items are the first ones of the list with their keys. -/
def FirstOfEach {ι κ : Type} [DecidableEq κ] (key : ι → κ) (xs items : List ι) : Prop :=
  ∀ x, x ∈ items ↔ xs.find? (fun y => key y = key x) = some x

section First

variable {ι κ : Type} [DecidableEq κ] {key : ι → κ} {xs items : List ι} {x : ι}

theorem FirstOfEach.find (hfirst : FirstOfEach key xs items) (hx : x ∈ items) {k : κ}
    (hk : key x = k) : xs.find? (fun y => key y = k) = some x := by
  subst hk
  exact (hfirst x).mp hx

theorem FirstOfEach.find_none (hfirst : FirstOfEach key xs items) {k : κ}
    (hnone : ∀ x ∈ items, key x ≠ k) : xs.find? (fun y => key y = k) = none := by
  cases hfind : xs.find? (fun y => key y = k) with
  | none => rfl
  | some y =>
      have hk : key y = k := by simpa using List.find?_some hfind
      subst hk
      exact absurd rfl (hnone y ((hfirst y).mpr hfind))

/-- An item whose key is there changes nothing. -/
theorem FirstOfEach.snoc_old (hfirst : FirstOfEach key xs items)
    (hold : ∃ y ∈ items, key y = key x) : FirstOfEach key (xs ++ [x]) items := by
  obtain ⟨y, hy, hkey⟩ := hold
  intro z
  rw [hfirst z, List.find?_append]
  rcases eq_or_ne (key x) (key z) with heq | hne
  · rw [hfirst.find hy (hkey.trans heq), Option.some_or]
  · rw [List.find?_cons_of_neg (by simpa using hne), List.find?_nil, Option.or_none]

theorem FirstOfEach.snoc_new (hfirst : FirstOfEach key xs items)
    (hnew : ∀ y ∈ items, key y ≠ key x) {items' : List ι} (hperm : items'.Perm (x :: items)) :
    FirstOfEach key (xs ++ [x]) items' := by
  intro z
  rw [hperm.mem_iff, List.mem_cons, hfirst z, List.find?_append]
  rcases eq_or_ne (key x) (key z) with heq | hne
  · have hnone : xs.find? (fun y => key y = key z) = none := hfirst.find_none (heq ▸ hnew)
    rw [hnone, Option.none_or, List.find?_cons_of_pos (by simpa using heq), Option.some.injEq,
      eq_comm]
    simp
  · rw [List.find?_cons_of_neg (by simpa using hne), List.find?_nil, Option.or_none]
    refine or_iff_right ?_
    rintro rfl
    exact hne rfl

end First

variable {ι : Type} {m : Maker ι}

/-- The order of the handlers in the map. -/
def Maker.rank (m : Maker ι) (handler : ι) : List Nat ×ₗ Nat :=
  (stringKeys m.lib).rank (m.getKey handler)

theorem register_spec [DecidableEq ι] (handlers : List ι) {xs : List ι} {t : AvlTree ι} {T : Shape ι}
    (hrep : Represents m.rank t T) (hfirst : FirstOfEach m.rank xs T.items)
    (hfew : T.items.length + handlers.length < Nat.fib 35) :
    ∃ t' T', m.register handlers t = some t' ∧ Represents m.rank t' T' ∧
      FirstOfEach m.rank (xs ++ handlers) T'.items ∧
      T'.items.length ≤ T.items.length + handlers.length := by
  induction handlers generalizing xs t T with
  | nil =>
      refine ⟨t, T, rfl, hrep, ?_, le_rfl⟩
      rwa [List.append_nil]
  | cons handler handlers ih =>
      rw [List.length_cons] at hfew
      have hroom := hasRoom_of_few hrep (by omega) handler
      have hinsert : MapLookup.insert (stringKeys m.lib) m.getKey t handler =
          AvlTrees.insert m.rank t handler := insert_eq t handler
      rw [Maker.register, hinsert, List.append_cons, List.length_cons]
      rcases insert_spec hrep hroom with ⟨hold, heq⟩ | ⟨hnew, t', T', heq, hrep', hperm⟩
      · obtain ⟨t', T', hregister, hrep', hfirst', hlen⟩ :=
          ih hrep (hfirst.snoc_old hold) (by omega)
        exact ⟨t', T', by rw [heq]; exact hregister, hrep', hfirst', by omega⟩
      · have hlength := hperm.length_eq
        rw [List.length_cons] at hlength
        obtain ⟨t'', T'', hregister, hrep'', hfirst'', hlen⟩ :=
          ih hrep' (hfirst.snoc_new hnew hperm) (by omega)
        exact ⟨t'', T'', by rw [heq]; exact hregister, hrep'', hfirst'', by omega⟩

/-- The handler that a command is for: the first one registered with its verb. -/
def Maker.handlerOf (m : Maker ι) (command : List UInt8) : Option ι :=
  m.handlers.find? fun handler => (m.getVerb handler).text = m.verbToken command

/-- A command that fits the receiver. `find()` keeps the low byte of a comparison only. -/
structure Deliverable (m : Maker ι) (command : List UInt8) : Prop where
  noNull : ∀ c ∈ command, c ≠ 0
  room : command.length ≤ m.maxRxFrameSize
  short : command.length < 2 ^ 31
  near : ∀ verb, verbKey (m.verbToken command) = some verb → ∀ handler,
    (toInt8 ((stringKeys m.lib).compareKey (m.getKey handler) verb)).sign =
      ((stringKeys m.lib).compareKey (m.getKey handler) verb).sign

/-- What a command does to the receiving pipe. -/
def Pipe.handle (m : Maker ι) (p : Pipe ι) (command : List UInt8) : Pipe ι :=
  match m.handlerOf command with
  | none => { p with unknownFrames := (p.unknownFrames + 1) % 2 ^ m.sizeBits }
  | some handler => { p with executed := p.executed ++ [(handler, command)] }

theorem rank_eq_iff (handler : ι) {token : List UInt8} (htoken : ∀ c ∈ token, c ≠ 0)
    {k : ShortKey} (hk : k.key.m_stringKeyPtr = token) :
    m.rank handler = (stringKeys m.lib).rank k ↔ (m.getVerb handler).text = token := by
  have hnull : ∀ {as : List UInt8}, (∀ c ∈ as, c ≠ 0) → upToNull as = as := by
    intro as has
    induction as with
    | nil => rfl
    | cons a as ih =>
        rw [List.forall_mem_cons] at has
        rw [upToNull, if_neg has.1, ih has.2]
  have hrank : m.rank handler = (stringKeys m.lib).rank k ↔
      (m.getVerb handler).key.key.rank = k.key.rank := Iff.rfl
  rw [hrank, KeyStringBuffer.rank_eq_iff, hk, hnull htoken]
  have hverb : (m.getVerb handler).key.key.m_stringKeyPtr = (m.getVerb handler).text := rfl
  rw [hverb, hnull (m.getVerb handler).noNull]
  refine and_iff_left_of_imp fun h => ?_
  rw [KeyStringBuffer.m_len, KeyStringBuffer.m_len, hverb, hk, h]

theorem exists_verbKey {token : List UInt8} (hshort : token.length < 2 ^ 31) :
    ∃ verb, verbKey token = some verb ∧ verb.key.m_stringKeyPtr = token :=
  ⟨_, dif_pos hshort, rfl⟩

variable {rxHandlers : AvlTree ι} {fuel : Nat}

/-- The map of the receiving pipe holds the handlers. -/
structure Registered (m : Maker ι) (rxHandlers : AvlTree ι) (T : Shape ι) : Prop where
  represents : Represents m.rank rxHandlers T
  first : FirstOfEach m.rank m.handlers T.items

theorem find_handler {T : Shape ι} (hreg : Registered m rxHandlers T)
    (hfuel : T.items.length < fuel) {command : List UInt8} (hcommand : Deliverable m command) :
    ∃ verb, verbKey (m.verbToken command) = some verb ∧
      MapLookup.find (stringKeys m.lib) m.getKey fuel rxHandlers.nodes verb =
        some ((m.handlerOf command).map .item) := by
  have hlength : (m.verbToken command).length ≤ command.length := List.length_take_le' _ _
  obtain ⟨verb, hkey, htext⟩ := exists_verbKey (hlength.trans_lt hcommand.short)
  refine ⟨verb, hkey, ?_⟩
  have htoken : ∀ c ∈ m.verbToken command, c ≠ 0 :=
    fun c hc => hcommand.noNull c (List.mem_of_mem_take hc)
  have hrank : ∀ handler, m.rank handler = (stringKeys m.lib).rank verb ↔
      (m.getVerb handler).text = m.verbToken command :=
    fun handler => rank_eq_iff handler htoken htext
  have hfind : MapLookup.find (stringKeys m.lib) m.getKey fuel rxHandlers.nodes verb =
      AvlTrees.find m.rank fuel rxHandlers.nodes ((stringKeys m.lib).rank verb) := by
    refine findLoop_congr (fun n => ?_) fuel _
    rw [← sign_compareKey]
    cases n with
    | root => rfl
    | item handler => exact hcommand.near verb hkey handler
  have hfirst : m.handlerOf command =
      m.handlers.find? fun y => m.rank y = (stringKeys m.lib).rank verb := by
    simp only [Maker.handlerOf, hrank]
  obtain ⟨found, heq, hsome, hnone⟩ :=
    find_spec hreg.represents hfuel ((stringKeys m.lib).rank verb)
  rw [hfind, heq, hfirst]
  cases found with
  | none => rw [hreg.first.find_none (hnone rfl)]
  | some x =>
      obtain ⟨hx, hk⟩ := hsome x rfl
      rw [hreg.first.find hx hk]

theorem dispatch_eq {T : Shape ι} (hreg : Registered m rxHandlers T)
    (hfuel : T.items.length < fuel) (p : Pipe ι) {command : List UInt8}
    (hcommand : Deliverable m command) :
    p.dispatch m rxHandlers fuel command = some (p.handle m command) := by
  obtain ⟨verb, hverb, hfind⟩ := find_handler hreg hfuel hcommand
  rw [Pipe.dispatch, hverb, Option.bind_some, hfind, Option.bind_some, Pipe.handle]
  cases m.handlerOf command <;> rfl

end Handlers

section Reading

variable (f : Framing) (kind : Kind) (maxSizeOfFrame : Nat)

/-- The bytes that the decoder still has to go through. -/
def unscanned (d : Decoder) : List UInt8 :=
  d.data ++ unread d.source

/-- A scan of the bytes finds nothing, or the first frame. -/
inductive Scanned (s : FrameState) (bytes : List UInt8) (d' : Decoder) : Scan → Prop
  | inProgress
      (hsame : ∀ rest, (scanner f kind maxSizeOfFrame).run s (bytes ++ rest) =
        (scanner f kind maxSizeOfFrame).run d'.state (unscanned d' ++ rest)) :
      Scanned s bytes d' .inProgress
  | eof {frame : List UInt8}
      (hfirst : ∀ rest, (scanner f kind maxSizeOfFrame).run s (bytes ++ rest) =
        (frame :: ((scanner f kind maxSizeOfFrame).run d'.state (unscanned d' ++ rest)).1,
          ((scanner f kind maxSizeOfFrame).run d'.state (unscanned d' ++ rest)).2)) :
      Scanned s bytes d' (.eof frame)

theorem processData_spec (d : Decoder) :
    Scanned f kind maxSizeOfFrame d.state (unscanned d) (processData f kind maxSizeOfFrame d).2
        (processData f kind maxSizeOfFrame d).1 ∧
      (d.data ≠ [] → (unscanned (processData f kind maxSizeOfFrame d).2).length <
        (unscanned d).length) := by
  rw [processData]
  cases hfind : (scanner f kind maxSizeOfFrame).find d.state d.data with
  | inl s =>
      constructor
      · refine .inProgress fun rest => ?_
        rw [unscanned, List.append_assoc, Scanner.run_of_find_inl hfind]
        rfl
      · intro hdata
        have hpos := List.length_pos_iff.mpr hdata
        simp only [unscanned, List.length_append, List.length_nil]
        omega
  | inr found =>
      obtain ⟨before, hsplit, hbefore, hrun⟩ := Scanner.find_inr_split hfind
      constructor
      · refine .eof fun rest => ?_
        rw [unscanned, List.append_assoc, hrun, unscanned, List.append_assoc]
        rfl
      · intro _
        have hpos := List.length_pos_iff.mpr hbefore
        simp only [unscanned, hsplit, List.length_append]
        omega

theorem scanOnce_spec (data : List UInt8) (s : FrameState) (bufSize available : Nat)
    (bytes : List UInt8) :
    ∃ r d', scanOnce f kind maxSizeOfFrame ⟨.stream bufSize bytes [available], data, s⟩ = (r, d') ∧
      Scanned f kind maxSizeOfFrame s (data ++ bytes) d' r ∧
      (0 < available → 0 < bufSize → data ++ bytes ≠ [] →
        (unscanned d').length < (data ++ bytes).length) := by
  cases data with
  | nil =>
      have hread := processData_spec f kind maxSizeOfFrame
        ⟨.stream bufSize (bytes.drop (min available bufSize)) [],
          bytes.take (min available bufSize), s⟩
      simp only [unscanned, unread, List.take_append_drop] at hread
      refine ⟨_, _, rfl, hread.1, fun havailable hbuf hbytes => hread.2 ?_⟩
      rw [List.nil_append] at hbytes
      have hpos := List.length_pos_iff.mpr hbytes
      rw [← List.length_pos_iff, List.length_take]
      omega
  | cons c data =>
      have hleft := processData_spec f kind maxSizeOfFrame
        ⟨.stream bufSize bytes [available], c :: data, s⟩
      exact ⟨_, _, rfl, hleft.1, fun _ _ _ => hleft.2 (List.cons_ne_nil _ _)⟩

end Reading

section Flow

variable {τ ι : Type} {m : Maker ι}

/-- The bytes that a thread with the mutex still has to write. -/
def Holder.left (m : Maker ι) (h : Holder τ) : List UInt8 :=
  match h.phase with
  | .starting => frameBytes m.framing h.command
  | .output rest => outputBytes m.framing rest ++ [m.endOfFrame]
  | .ending => [m.endOfFrame]

/-- Whether the framer is in a frame of the thread. -/
def Holder.inFrame (h : Holder τ) : Bool :=
  match h.phase with
  | .starting => false
  | _ => true

def Link.left (m : Maker ι) (s : Link τ ι) : List UInt8 :=
  s.holder.elim [] (Holder.left m)

/-- All bytes that the receiver has not gone through, with those of the frame that is being
written. -/
def Link.stream (m : Maker ι) (s : Link τ ι) : List UInt8 :=
  s.receiver.deframer.data ++ s.framer.dst ++ s.left m

/-- The commands with a handler, each with its handler. -/
def Maker.executions (m : Maker ι) (commands : List (List UInt8)) : List (ι × List UInt8) :=
  commands.filterMap fun command => (m.handlerOf command).map (·, command)

def Maker.unknowns (m : Maker ι) (commands : List (List UInt8)) : Nat :=
  commands.countP fun command => (m.handlerOf command).isNone

/-- The receiving pipe has handled the commands, and nothing else. -/
structure Handled (m : Maker ι) (p : Pipe ι) (commands : List (List UInt8)) : Prop where
  started : p.started = true
  executed : p.executed = m.executions commands
  unknownFrames : p.unknownFrames = m.unknowns commands % 2 ^ m.sizeBits

theorem Handled.start : Handled m (Link.start τ ι).receiver [] :=
  ⟨rfl, rfl, (Nat.zero_mod _).symm⟩

theorem handle_deframer (p : Pipe ι) (command : List UInt8) :
    (p.handle m command).deframer = p.deframer := by
  rw [Pipe.handle]
  cases m.handlerOf command <;> rfl

theorem Handled.handle {p : Pipe ι} {commands : List (List UInt8)} (h : Handled m p commands)
    (command : List UInt8) : Handled m (p.handle m command) (commands ++ [command]) := by
  rw [Pipe.handle]
  cases hhandler : m.handlerOf command with
  | none =>
      refine ⟨h.started, ?_, ?_⟩
      · simp [Maker.executions, hhandler, h.executed]
      · simp [Maker.unknowns, hhandler, h.unknownFrames]
  | some handler =>
      refine ⟨h.started, ?_, ?_⟩
      · simp [Maker.executions, hhandler, h.executed]
      · simp [Maker.unknowns, hhandler, h.unknownFrames]

/-- The commands that got the mutex were delivered or are the frames of the stream, and behind the
stream the decoder is outside of a frame. -/
structure Flow (m : Maker ι) (s : Link τ ι) (delivered waiting : List (List UInt8)) : Prop where
  handled : Handled m s.receiver delivered
  sent : s.sent.map Prod.snd = delivered ++ waiting
  frames : ∃ last, last.inFrame = false ∧
    (scanner m.framing .string m.maxRxFrameSize).run s.receiver.deframer.state (s.stream m) =
      (waiting, last)
  framing : s.framer.inFrame = s.holder.elim false Holder.inFrame
  deliverable : ∀ command ∈ waiting, Deliverable m command

theorem flow_start : Flow m (Link.start τ ι) [] [] :=
  ⟨Handled.start, rfl, ⟨_, rfl, rfl⟩, rfl, nofun⟩

variable {s s' : Link τ ι} {delivered waiting : List (List UInt8)}

theorem Deliverable.legal {command : List UInt8}
    (hcommand : Deliverable m command) : ∀ c ∈ command, isLegalCharacter .string c = true := by
  intro c hc
  simpa [isLegalCharacter] using hcommand.noNull c hc

/-- A thread that gets the mutex puts a frame at the end of the stream. -/
theorem Flow.lock (hf : Suitable m.framing .string) (h : Flow m s delivered waiting)
    (hfree : s.holder = none) (thread : τ) {command : List UInt8}
    (hcommand : Deliverable m command) :
    Flow m
      { s with
        holder := some { thread := thread, command := command, phase := .starting }
        sent := s.sent ++ [(thread, command)] } delivered (waiting ++ [command]) := by
  obtain ⟨last, hlast, hrun⟩ := h.frames
  refine ⟨h.handled, ?_, ⟨initializeFrame, rfl, ?_⟩, ?_, ?_⟩
  · rw [List.map_append, h.sent, List.append_assoc]
    rfl
  · have hstream : s.stream m = s.receiver.deframer.data ++ s.framer.dst := by
      simp [Link.stream, Link.left, hfree]
    have hframe := run_frame hf hlast hcommand.legal hcommand.room
    rw [hstream] at hrun
    show (scanner _ _ _).run _ (_ ++ _ ++ frameBytes m.framing command) = _
    rw [Scanner.run_append, hrun, hframe]
  · rw [h.framing, hfree]
    rfl
  · intro c hc
    rcases List.mem_append.mp hc with hc | hc
    · exact h.deliverable c hc
    · rwa [List.mem_singleton.mp hc]

/-- A thread with the mutex can go on; what it writes leaves the rest of its frame. -/
theorem Holder.advance_spec (hf : Suitable m.framing .string) {h : Holder τ} {framer : Encoder}
    (hframing : framer.inFrame = h.inFrame) :
    ∃ e next, h.advance m framer = some (e, next) ∧ e.inFrame = next.elim false Holder.inFrame ∧
      e.dst ++ next.elim [] (Holder.left m) = framer.dst ++ h.left m := by
  rcases framer with ⟨inFrame, dst⟩
  rcases h with ⟨thread, command, phase⟩
  subst hframing
  cases phase with
  | starting =>
      have hstart : startFrame m.framing ⟨false, dst⟩ =
          some ⟨true, dst ++ [m.framing.sof]⟩ := by
        simp [startFrame, hf.sof_ne_zero, Encoder.append]
      refine ⟨_, some ⟨thread, command, .output command⟩, by
        rw [Holder.advance]; exact congrArg (Option.map _) hstart, rfl, ?_⟩
      simp [Holder.left, frameBytes, Maker.framing]
  | output rest =>
      cases rest with
      | nil => exact ⟨_, some ⟨thread, command, .ending⟩, rfl, rfl, rfl⟩
      | cons c rest =>
          have houtput : outputChar m.framing ⟨true, dst⟩ c =
              some ⟨true, dst ++ outputBytes m.framing [c]⟩ := by
            have hchar := output_eq m.framing dst [c]
            simpa only [output, List.foldlM_cons, List.foldlM_nil, bind_pure] using hchar
          refine ⟨_, some ⟨thread, command, .output rest⟩, by
            rw [Holder.advance]; exact congrArg (Option.map _) houtput, rfl, ?_⟩
          simp [Holder.left, outputBytes]
  | ending =>
      refine ⟨⟨false, dst ++ [m.endOfFrame]⟩, none, rfl, rfl, ?_⟩
      simp [Holder.left]

theorem Flow.advance (hf : Suitable m.framing .string) (h : Flow m s delivered waiting)
    {holder : Holder τ} (hholder : s.holder = some holder) :
    ∃ e next, holder.advance m s.framer = some (e, next) ∧
      Flow m { s with framer := e, holder := next } delivered waiting := by
  have hframing : s.framer.inFrame = holder.inFrame := by
    rw [h.framing, hholder]
    rfl
  obtain ⟨e, next, hadvance, hin, hleft⟩ := Holder.advance_spec hf hframing
  refine ⟨e, next, hadvance, ⟨h.handled, h.sent, ?_, hin, h.deliverable⟩⟩
  have hstream : Link.stream m { s with framer := e, holder := next } = s.stream m := by
    simp only [Link.stream, Link.left, hholder, List.append_assoc]
    rw [hleft]
    rfl
  rw [hstream]
  exact h.frames

variable {rxHandlers : AvlTree ι} {fuel : Nat} {T : Shape ι}

theorem poll_spec (hreg : Registered m rxHandlers T) (hfuel : T.items.length < fuel) {p : Pipe ι}
    (hhandled : Handled m p delivered) {bytes rest : List UInt8} {last : FrameState}
    (hrun : (scanner m.framing .string m.maxRxFrameSize).run p.deframer.state
      (p.deframer.data ++ bytes ++ rest) = (waiting, last))
    (hwaiting : ∀ command ∈ waiting, Deliverable m command) (available : Nat) :
    ∃ result p' now later,
      Pipe.poll m rxHandlers fuel { p with
        deframer := { p.deframer with source := .stream m.rawInputSize bytes [available] } } =
          some (result, p') ∧
      waiting = now ++ later ∧ Handled m p' (delivered ++ now) ∧
      (scanner m.framing .string m.maxRxFrameSize).run p'.deframer.state
        (unscanned p'.deframer ++ rest) = (later, last) ∧
      (0 < available → 0 < m.rawInputSize → p.deframer.data ++ bytes ≠ [] →
        (unscanned p'.deframer).length < (p.deframer.data ++ bytes).length) := by
  obtain ⟨r, d', hscan, hscanned, hless⟩ := scanOnce_spec m.framing .string m.maxRxFrameSize
    p.deframer.data p.deframer.state m.rawInputSize available bytes
  cases hscanned with
  | inProgress hsame =>
      rw [hsame] at hrun
      refine ⟨true, { p with deframer := d' }, [], waiting, ?_, rfl, ?_, hrun, hless⟩
      · simp only [Pipe.poll, hhandled.started, if_true, hscan]
      · rw [List.append_nil]
        exact ⟨hhandled.started, hhandled.executed, hhandled.unknownFrames⟩
  | @eof frame hfirst =>
      rw [hfirst, Prod.mk.injEq] at hrun
      obtain ⟨rfl, hlast⟩ := hrun
      have hcommand := hwaiting frame List.mem_cons_self
      have hsame : Handled m { p with deframer := d' } delivered :=
        ⟨hhandled.started, hhandled.executed, hhandled.unknownFrames⟩
      refine ⟨true, Pipe.handle m { p with deframer := d' } frame, [frame], _, ?_, rfl, ?_, ?_, ?_⟩
      · simp only [Pipe.poll, hhandled.started, if_true, hscan, dispatch_eq hreg hfuel _ hcommand,
          Option.map_some]
      · exact hsame.handle frame
      · rw [handle_deframer]
        exact Prod.ext rfl hlast
      · rw [handle_deframer]
        exact hless

/-- The bytes that nobody writes any more. -/
def Link.backlog (s : Link τ ι) : List UInt8 :=
  s.receiver.deframer.data ++ s.framer.dst

/-- A poll delivers at most one command, the first that waits. -/
theorem Flow.poll (hreg : Registered m rxHandlers T) (hfuel : T.items.length < fuel)
    (h : Flow m s delivered waiting) (available : Nat) :
    ∃ s' now later, s.poll m rxHandlers fuel available = some s' ∧ waiting = now ++ later ∧
      Flow m s' (delivered ++ now) later ∧ s'.holder = s.holder ∧ s'.sent = s.sent ∧
      (0 < available → 0 < m.rawInputSize → s.backlog ≠ [] →
        s'.backlog.length < s.backlog.length) := by
  obtain ⟨last, hlast, hrun⟩ := h.frames
  obtain ⟨result, p', now, later, hpoll, rfl, hhandled, hrun', hless⟩ :=
    poll_spec hreg hfuel h.handled hrun h.deliverable available
  refine ⟨_, now, later, congrArg (Option.map _) hpoll, rfl, ⟨hhandled, ?_, ⟨last, hlast, hrun'⟩,
    h.framing, ?_⟩, rfl, rfl, hless⟩
  · rw [List.append_assoc]
    exact h.sent
  · exact fun c hc => h.deliverable c (List.mem_append_right now hc)

variable [DecidableEq τ]

/-- The actions of the threads that send commands of the receiver's. -/
def Admissible (m : Maker ι) : Link τ ι → Action τ → Prop
  | _, .lock _ command => Deliverable m command
  | _, _ => True

theorem flow_step (hf : Suitable m.framing .string) (hreg : Registered m rxHandlers T)
    (hfuel : T.items.length < fuel) {action : Action τ} (hflow : ∃ delivered waiting,
      Flow m s delivered waiting) (hadmissible : Admissible m s action)
    (hstep : step m rxHandlers fuel s action = some s') :
    ∃ delivered waiting, Flow m s' delivered waiting := by
  obtain ⟨delivered, waiting, h⟩ := hflow
  cases action with
  | lock thread command =>
      cases hholder : s.holder with
      | some holder =>
          rw [step, hholder] at hstep
          cases hstep
      | none =>
          rw [step, hholder] at hstep
          obtain rfl := Option.some.inj hstep
          exact ⟨delivered, _, h.lock hf hholder thread hadmissible⟩
  | advance thread =>
      obtain ⟨holder, hholder, hstep⟩ := Option.bind_eq_some_iff.mp hstep
      obtain ⟨e, next, hadvance, hnext⟩ := h.advance hf hholder
      split_ifs at hstep with hthread
      rw [hadvance] at hstep
      obtain rfl := Option.some.inj hstep
      exact ⟨delivered, waiting, hnext⟩
  | poll available =>
      obtain ⟨s'', now, later, hpoll, -, hnext, -⟩ := h.poll hreg hfuel available
      obtain rfl := Option.some.inj (hpoll.symm.trans hstep)
      exact ⟨_, later, hnext⟩

/-- When no thread writes, polls deliver everything that waits. -/
theorem Flow.drain (hreg : Registered m rxHandlers T) (hfuel : T.items.length < fuel)
    (hsize : 0 < m.rawInputSize) (h : Flow m s delivered waiting) (hfree : s.holder = none) :
    ∃ n s', run (step m rxHandlers fuel) s (List.replicate n (.poll m.rawInputSize)) = some s' ∧
      s'.sent = s.sent ∧ Handled m s'.receiver (delivered ++ waiting) := by
  induction hlength : s.backlog.length using Nat.strong_induction_on
    generalizing s delivered waiting with
  | _ length ih =>
      by_cases hempty : s.backlog = []
      · obtain ⟨last, -, hrun⟩ := h.frames
        have hstream : s.stream m = [] := by
          rw [Link.stream, Link.left, hfree]
          exact (List.append_nil _).trans hempty
        rw [hstream, Scanner.run_nil, Prod.mk.injEq] at hrun
        obtain ⟨rfl, -⟩ := hrun
        refine ⟨0, s, rfl, rfl, ?_⟩
        rw [List.append_nil]
        exact h.handled
      · obtain ⟨s₁, now, later, hpoll, rfl, hnext, hholder, hsent, hless⟩ :=
          h.poll hreg hfuel m.rawInputSize
        obtain ⟨n, s₂, hrun, hsent', hhandled⟩ :=
          ih _ (hlength ▸ hless hsize hsize hempty) hnext (hholder.trans hfree) rfl
        refine ⟨n + 1, s₂, ?_, hsent'.trans hsent, ?_⟩
        · rw [List.replicate_succ, run]
          exact Option.bind_eq_some_iff.mpr ⟨s₁, hpoll, hrun⟩
        · rwa [List.append_assoc] at hhandled

theorem registered_handlers [DecidableEq ι] (hfew : m.handlers.length < Nat.fib 35) :
    ∃ rxHandlers T, m.register m.handlers AvlTree.init = some rxHandlers ∧
      Registered m rxHandlers T ∧ T.items.length ≤ m.handlers.length := by
  have hnone : FirstOfEach m.rank [] (Shape.nil : Shape ι).items := by
    intro x
    simp
  obtain ⟨rxHandlers, T, hregister, hrep, hfirst, hlength⟩ :=
    register_spec m.handlers represents_init hnone (by simpa using hfew)
  refine ⟨rxHandlers, T, hregister, ⟨hrep, ?_⟩, by simpa using hlength⟩
  rwa [List.nil_append] at hfirst

/-- In every interleaving of the threads that send and of the thread that polls, the handlers get
the commands whole, in the order of the mutex and each once, and the others are counted. No call of
the framer is out of turn, and what is written is delivered. -/
theorem commands_delivered [DecidableEq ι] (m : Maker ι) (hf : Suitable m.framing .string)
    (hfew : m.handlers.length < Nat.fib 35) (hsize : 0 < m.rawInputSize) (fuel : Nat)
    (hfuel : m.handlers.length < fuel) :
    ∃ rxHandlers, m.register m.handlers AvlTree.init = some rxHandlers ∧
      ∀ (actions : List (Action τ)) (s : Link τ ι),
        AllSteps (step m rxHandlers fuel) (Admissible m) (.start τ ι) actions →
        run (step m rxHandlers fuel) (.start τ ι) actions = some s →
        (∃ delivered waiting, s.sent.map Prod.snd = delivered ++ waiting ∧
          Handled m s.receiver delivered) ∧
        (∀ holder, s.holder = some holder →
          ∃ s', step m rxHandlers fuel s (.advance holder.thread) = some s') ∧
        (∀ available, ∃ s', step m rxHandlers fuel s (.poll available) = some s') ∧
        (s.holder = none →
          ∃ n s', run (step m rxHandlers fuel) s (List.replicate n (.poll m.rawInputSize)) =
            some s' ∧ Handled m s'.receiver (s.sent.map Prod.snd)) := by
  obtain ⟨rxHandlers, T, hregister, hreg, hlength⟩ := registered_handlers hfew
  refine ⟨rxHandlers, hregister, fun actions s hall hrun => ?_⟩
  have hfuel' : T.items.length < fuel := by omega
  obtain ⟨delivered, waiting, h⟩ := invariant
    (I := fun s : Link τ ι => ∃ delivered waiting, Flow m s delivered waiting)
    (fun s action next hflow hadmissible hstep => flow_step hf hreg hfuel' hflow hadmissible hstep)
    ⟨[], [], flow_start⟩ hall hrun
  refine ⟨⟨delivered, waiting, h.sent, h.handled⟩, ?_, ?_, ?_⟩
  · intro holder hholder
    obtain ⟨e, next, hadvance, -⟩ := h.advance hf hholder
    refine ⟨{ s with framer := e, holder := next }, ?_⟩
    rw [step, hholder, Option.bind_some, if_pos rfl, hadvance]
    rfl
  · intro available
    obtain ⟨s', now, later, hpoll, -⟩ := h.poll hreg hfuel' available
    exact ⟨s', hpoll⟩
  · intro hfree
    obtain ⟨n, s', hrun', -, hhandled⟩ := h.drain hreg hfuel' hsize hfree
    exact ⟨n, s', hrun', h.sent ▸ hhandled⟩

/-- Two handlers, of the verbs `a` and `b`, with the framing of the tests. -/
def twoHandlers : Maker Bool :=
  { startOfFrame := 94
    endOfFrame := 59
    escapeChar := 96
    maxRxFrameSize := 20
    verbDelimiters := [32]
    rawInputSize := 128
    sizeBits := 32
    lib := .differences
    handlers := [true, false]
    getVerb := fun handler => ⟨[if handler then 97 else 98], by cases handler <;> simp,
      Nat.one_lt_two_pow (by decide)⟩ }

/-- The second handler gets a command with the end-of-frame character in it. -/
theorem commands_delivered_escaped : ∃ rxHandlers s, twoHandlers.register [true, false] .init =
    some rxHandlers ∧
    run (step twoHandlers rxHandlers 3) (.start Nat Bool)
      (.lock 7 [98, 32, 59] :: List.replicate 6 (.advance 7)) = some s ∧
    ∃ n s', run (step twoHandlers rxHandlers 3) s (List.replicate n (.poll 128)) = some s' ∧
      s'.receiver.executed = [(false, [98, 32, 59])] ∧ s'.receiver.unknownFrames = 0 := by
  have hf : Suitable twoHandlers.framing .string :=
    ⟨rfl, rfl, rfl, by decide, by decide, by decide, by decide, nofun⟩
  have hdeliverable : Deliverable twoHandlers [98, 32, 59] := by
    refine ⟨by simp, by decide, lt_trans (by decide : 3 < 31) Nat.lt_two_pow_self, ?_⟩
    intro verb hverb handler
    obtain rfl := Option.some.inj hverb
    cases handler <;> rfl
  obtain ⟨rxHandlers, hregister, hall⟩ :=
    commands_delivered (τ := Nat) twoHandlers hf (by decide) (by decide) 3 (by decide)
  refine ⟨rxHandlers, _, hregister, rfl, ?_⟩
  have hadmissible : ∀ action ∈ Action.lock 7 [98, 32, 59] :: List.replicate 6 (.advance 7),
      ∀ s : Link Nat Bool, Admissible twoHandlers s action := by
    intro action haction s
    rcases List.mem_cons.mp haction with rfl | haction
    · exact hdeliverable
    · rw [List.eq_of_mem_replicate haction]
      trivial
  obtain ⟨-, -, -, hdrain⟩ := hall _ _ (allSteps_of_forall_mem hadmissible _) rfl
  obtain ⟨n, s', hrun, hhandled⟩ := hdrain rfl
  exact ⟨n, s', hrun, hhandled.executed, hhandled.unknownFrames⟩

end Flow

end ColonyPico.Driver.TPipe
