import ColonyPico.Container.OrderedItems
import ColonyPico.Foundations.Runs
import ColonyPico.Text.TextBlock

/-!
The command processor of the shell (`Cpl::TShell::Processor`) and its `user` command, as built with
`USE_CPL_TSHELL_PROCESSOR_SILENT_WHEN_PUBLIC`.  `σ` is the state of everything outside the
processor: the application, the credentials, the output stream.
-/

namespace ColonyPico.TShell.CommandProcessor

open ColonyPico.Container.OrderedItems
open ColonyPico.Foundations.Runs
open ColonyPico.Foundations.TerminatedText
open ColonyPico.Text.StringEdits
open ColonyPico.Text.TextBlock

variable {σ : Type}

inductive Permission
  | ePublic
  | eUser
  | eSystem
  | eAdmin
  deriving DecidableEq

def Permission.value : Permission → Nat
  | .ePublic => 0
  | .eUser => 1
  | .eSystem => 2
  | .eAdmin => 3

inductive Result
  | success
  | badSyntax
  | invalidCmd
  | io
  | missingArgs
  | extraArgs
  | invalidArgs
  | failed
  deriving DecidableEq

def chars (s : String) : List UInt8 :=
  s.toList.map fun c => c.toNat.toUInt8

def resultToString : Result → List UInt8
  | .success => chars "ERRNO ?: Command failed - unknown error code"
  | .badSyntax => chars "ERRNO 1: Unable to parse command string"
  | .invalidCmd => chars "ERRNO 2: Command not supported"
  | .io => chars "ERRNO 3: Input/Output stream IO encounter"
  | .missingArgs => chars "ERRNO 4: Command is missing argument(s)"
  | .extraArgs => chars "ERRNO 5: Command encounter 'extra' argument(s)"
  | .invalidArgs => chars "ERRNO 6: One or more Command arguments are incorrect/invalid"
  | .failed => chars "ERRNO 7: Command failed to complete one or more of its actions"

def greeting : List UInt8 :=
  chars "\n--- Your friendly neighborhood TShell. ---\n\n\n"

def farewell : List UInt8 :=
  chars "\n--- ...I am melting, am melting... ---\n\n"

def prompt : List UInt8 :=
  chars "$ "

def inputSize : Nat :=
  128

def outputSize : Nat :=
  256

/-- What a command other than `user` does.  It writes through the processor, and leaves its tokens
in the input buffer. -/
structure Effect (σ : Type) where
  result : Result
  world : σ
  wrote : List (List UInt8)
  outputBuffer : List UInt8
  cmdString : List UInt8
  stopRequested : Bool

/-- The commands.  Only `user` calls `setUserPermissionLevel`. -/
inductive Command (σ : Type)
  | user (validateCredentials : σ → List UInt8 → List UInt8 → Permission × σ)
  | other (verb : List UInt8) (minPermission : Permission)
      (execute : Permission → σ → List UInt8 → List UInt8 → Effect σ)

namespace Command

def verb : Command σ → List UInt8
  | .user _ => chars "user"
  | .other verb _ _ => verb

def getMinPermissionRequired : Command σ → Permission
  | .user _ => .ePublic
  | .other _ minPermission _ => minPermission

def IsUser : Command σ → Prop
  | .user _ => True
  | .other _ _ _ => False

end Command

/-- The key of a verb in the command map, which compares characters as numbers. -/
def rawKey (verb : List UInt8) : List Nat :=
  verb.map UInt8.toNat

/-- The calls of the frame encoder: whether it took its input, and what it wrote. -/
structure Framer (σ : Type) where
  startFrame : σ → Bool × List UInt8 × σ
  output : σ → List UInt8 → Bool × List UInt8 × σ
  endFrame : σ → Bool × List UInt8 × σ

def verbOf (deframedInput : List UInt8) : List UInt8 :=
  (deframedInput.dropWhile isspace).takeWhile fun c => !isspace c

/-- What a processor is constructed with. -/
structure Config (σ : Type) where
  commands : OrderedMap fun c : Command σ => rawKey c.verb
  framer : Framer σ
  -- the write of a text past the encoder, whose result the processor ignores
  write : σ → List UInt8 → σ
  comment : UInt8
  marks : Marks

/-- What happened, and the permission level at that moment. -/
inductive Event (σ : Type)
  | wrote (level : Permission) (text : List UInt8)
  | executed (level : Permission) (command : Command σ)

structure Processor (σ : Type) where
  userPermLevel : Permission
  running : Bool
  outputBuffer : List UInt8
  world : σ
  -- a null pointer was passed on to the C library
  crashed : Bool
  transcript : List (Event σ)

namespace Processor

def initial (world : σ) : Processor σ where
  userPermLevel := .ePublic
  running := false
  outputBuffer := []
  world := world
  crashed := false
  transcript := []

def note (p : Processor σ) (event : Event σ) : Processor σ :=
  { p with transcript := p.transcript ++ [event] }

def wrote (p : Processor σ) (text : List UInt8) : Processor σ :=
  p.note (.wrote p.userPermLevel text)

end Processor

variable (config : Config σ) (p : Processor σ)

def write (text : List UInt8) : Processor σ :=
  { p.wrote text with world := config.write p.world text }

def encode (call : σ → Bool × List UInt8 × σ) : Bool × Processor σ :=
  let (io, text, world) := call p.world
  (io, { p.wrote text with world := world })

def writeFrame (text : List UInt8) : Bool × Processor σ :=
  let (started, p) := encode p config.framer.startFrame
  let (output, p) := encode p fun world => config.framer.output world text
  let (ended, p) := encode p config.framer.endFrame
  (started && output && ended, p)

/-- The macros `OUTPUT_PROMPT`, `OUTPUT_GREETING` and `OUTPUT_FAREWELL`. -/
def outputUnlessPublic (text : List UInt8) : Processor σ :=
  if p.userPermLevel ≠ .ePublic then write config p text else p

def outputCommandError (result : Result) (deframedInput : List UInt8) : Bool × Processor σ :=
  let text := (chars "ERROR: [" ++ deframedInput ++ chars "]").take outputSize
  let p := { p with outputBuffer := text }
  let (line, p) := writeFrame config p text
  let (reason, p) := writeFrame config p (resultToString result)
  (line && reason, p)

/-- The macro `OUTPUT_CMD_ERROR_AND_RETURN`. -/
def outputCmdErrorAndReturn (deframedInput : List UInt8) : Result × Processor σ :=
  if p.userPermLevel ≠ .ePublic then
    let (io, p) := outputCommandError config p .invalidCmd deframedInput
    (if io then .invalidCmd else .io, p)
  else (.invalidCmd, p)

/-- Comparison with a text; none for the comparison of a null pointer. -/
def strcmp (param : Option (List UInt8)) (text : List UInt8) : Option Bool :=
  param.map (· == text)

/-- The new permission level and what the validator did, where the command changes the level; none
where it compares a null pointer. -/
def User.execute (validateCredentials : σ → List UInt8 → List UInt8 → Permission × σ)
    (level : Permission) (world : σ) (cmdString : List UInt8) : Option (Permission × σ) :=
  let tokens := textBlock config.marks cmdString
  let unchanged := some (level, world)
  if tokens.numParameters = 2 then do
    if ← strcmp (tokens.getParameter 1) (chars "logout") then return (.ePublic, world)
    unchanged
  else if tokens.numParameters = 4 then do
    if ← strcmp (tokens.getParameter 1) (chars "login") then
      return validateCredentials world (← tokens.getParameter 2) (← tokens.getParameter 3)
    unchanged
  else unchanged

/-- The processor behind a command other than `user`. -/
def afterEffect (effect : Effect σ) : Processor σ :=
  { effect.wrote.foldl Processor.wrote p with
    world := effect.world
    outputBuffer := effect.outputBuffer
    running := p.running && !effect.stopRequested }

/-- A command runs on the first token and what follows; the result is none behind a crash. -/
def executeFound (command : Command σ) (leading firstToken : List UInt8) :
    Option Result × Processor σ :=
  let p := p.note (.executed p.userPermLevel command)
  match command with
  | .user validateCredentials =>
      match User.execute config validateCredentials p.userPermLevel p.world firstToken with
      | none => (none, { p with crashed := true })
      | some (level, world) => (some .success, { p with userPermLevel := level, world := world })
  | .other _ _ execute =>
      let effect := execute p.userPermLevel p.world p.outputBuffer firstToken
      let p := afterEffect p effect
      if effect.result ≠ .success then
        let (io, p) := outputCommandError config p effect.result (leading ++ text effect.cmdString)
        (some (if io then effect.result else .io), p)
      else (some effect.result, p)

def executeCommand (deframedInput : List UInt8) : Option Result × Processor σ :=
  let leading := deframedInput.takeWhile isspace
  let firstToken := deframedInput.dropWhile isspace
  -- blank and comment lines
  if firstToken = [] ∨ firstToken.head? = some config.comment then (some .success, p)
  else
    match config.commands.find (rawKey (verbOf deframedInput)) with
    | none =>
        let (result, p) := outputCmdErrorAndReturn config p deframedInput
        (some result, p)
    | some command =>
        if command.getMinPermissionRequired.value ≤ p.userPermLevel.value then
          executeFound config p command leading firstToken
        else (some .invalidCmd, p)

/-- What the decoder delivers: a frame, the failure of the input stream, or, in a polled processor,
nothing yet. -/
inductive Input
  | frame (bytes : List UInt8)
  | error
  | incomplete

/-- One call of `getAndProcessFrame`, with the requests to stop that came before it. -/
structure Turn where
  stopRequested : Bool
  input : Input

def requestStop : Processor σ :=
  { p with running := false }

/-- The result is none behind a crash. -/
def getAndProcessFrame (turn : Turn) : Option Int × Processor σ :=
  let p := if turn.stopRequested then requestStop p else p
  if !p.running then (some 1, outputUnlessPublic config p farewell)
  else match turn.input with
    | .error => (some (-1), p)
    | .incomplete => (some 0, p)
    | .frame bytes =>
        -- the decoder fills at most the buffer, and the command line is what a C string shows
        match executeCommand config p (text (bytes.take inputSize)) with
        | (none, p) => (none, p)
        | (some .io, p) => (some (-1), p)
        | (some _, p) => (some 0, outputUnlessPublic config p prompt)

/-- `start` up to its loop. -/
def begin : Processor σ :=
  let p := { p with running := true, outputBuffer := [] }
  outputUnlessPublic config (outputUnlessPublic config p greeting) prompt

/-- The loop of `start`; without a result while it waits for input, or behind a crash. -/
def startLoop (blocking : Bool) (p : Processor σ) : List Turn → Option Bool × Processor σ
  | [] => (none, p)
  | turn :: rest =>
      match getAndProcessFrame config p turn with
      | (none, p) => (none, p)
      | (some result, p) =>
          if result ≠ 0 then (some (decide (0 ≤ result)), p)
          else if blocking then startLoop blocking p rest
          else (some false, p)

def start (blocking : Bool) (turns : List Turn) : Option Bool × Processor σ :=
  startLoop config blocking (begin config p) turns

def poll (turn : Turn) : Option Int × Processor σ :=
  getAndProcessFrame config p turn

/-- The steps of a session: the calls of the owner, those of `start` with its loop taken apart. -/
inductive Step
  | begin
  | turn (turn : Turn)
  | requestStop

def step (p : Processor σ) : Step → Option (Processor σ)
  | .begin => if p.crashed then none else some (begin config p)
  | .turn turn => if p.crashed then none else some (getAndProcessFrame config p turn).2
  | .requestStop => if p.crashed then none else some (requestStop p)

/-! What is written and executed -/

/-- At the level `ePUBLIC` nothing is written, and no command but `user` runs. -/
def Event.Discreet : Event σ → Prop
  | .wrote level _ => level ≠ .ePublic
  | .executed level command => level = .ePublic → command.IsUser

namespace Processor

def Discreet (p : Processor σ) : Prop :=
  ∀ event ∈ p.transcript, event.Discreet

def written (p : Processor σ) : List (List UInt8) :=
  p.transcript.filterMap fun
    | .wrote _ text => some text
    | .executed _ _ => none

end Processor

def Config.OnlyUserIsPublic (config : Config σ) : Prop :=
  ∀ command ∈ config.commands.items,
    command.getMinPermissionRequired = .ePublic → command.IsUser

def Config.withCommands (config : Config σ)
    (commands : OrderedMap fun c : Command σ => rawKey c.verb) : Config σ :=
  { config with commands := commands }

variable {config : Config σ} {p p' p'' : Processor σ}

theorem Processor.Discreet.note (h : p.Discreet) {event : Event σ} (hevent : event.Discreet) :
    (p.note event).Discreet := by
  intro other hother
  rcases List.mem_append.mp hother with hmem | hmem
  · exact h other hmem
  · rw [List.mem_singleton.mp hmem]
    exact hevent

/-- Output that leaves the level, and that is discreet unless the level is `ePUBLIC`. -/
structure Speaks (p p' : Processor σ) : Prop where
  level : p'.userPermLevel = p.userPermLevel
  crashed : p'.crashed = p.crashed
  discreet : p.userPermLevel ≠ .ePublic → p.Discreet → p'.Discreet

theorem Speaks.refl (p : Processor σ) : Speaks p p :=
  ⟨rfl, rfl, fun _ h => h⟩

theorem Speaks.trans (h : Speaks p p') (h' : Speaks p' p'') : Speaks p p'' := by
  refine ⟨h'.level.trans h.level, h'.crashed.trans h.crashed, fun hlevel hp => ?_⟩
  exact h'.discreet (h.level.symm ▸ hlevel) (h.discreet hlevel hp)

theorem speaks_wrote (p : Processor σ) (text : List UInt8) : Speaks p (p.wrote text) :=
  ⟨rfl, rfl, fun hlevel h => h.note hlevel⟩

theorem speaks_encode (p : Processor σ) (call : σ → Bool × List UInt8 × σ) :
    Speaks p (encode p call).2 :=
  have h := speaks_wrote p (call p.world).2.1
  ⟨h.level, h.crashed, h.discreet⟩

theorem speaks_writeFrame (config : Config σ) (p : Processor σ) (text : List UInt8) :
    Speaks p (writeFrame config p text).2 := by
  have hstart := speaks_encode p config.framer.startFrame
  have houtput := speaks_encode (encode p config.framer.startFrame).2
    fun world => config.framer.output world text
  exact (hstart.trans houtput).trans (speaks_encode _ config.framer.endFrame)

theorem speaks_outputCommandError (config : Config σ) (p : Processor σ) (result : Result)
    (deframedInput : List UInt8) :
    Speaks p (outputCommandError config p result deframedInput).2 := by
  have hbuffer : ∀ buffer, Speaks p { p with outputBuffer := buffer } :=
    fun _ => ⟨rfl, rfl, fun _ h => h⟩
  exact ((hbuffer _).trans (speaks_writeFrame _ _ _)).trans (speaks_writeFrame _ _ _)

theorem speaks_foldl (texts : List (List UInt8)) (p : Processor σ) :
    Speaks p (texts.foldl Processor.wrote p) := by
  induction texts generalizing p with
  | nil => exact .refl p
  | cons text rest ih => exact (speaks_wrote p text).trans (ih _)

theorem speaks_afterEffect (p : Processor σ) (effect : Effect σ) :
    Speaks p (afterEffect p effect) :=
  have h := speaks_foldl effect.wrote p
  ⟨h.level, h.crashed, h.discreet⟩

theorem outputUnlessPublic_spec (config : Config σ) (p : Processor σ) (text : List UInt8) :
    (outputUnlessPublic config p text).userPermLevel = p.userPermLevel ∧
      (outputUnlessPublic config p text).crashed = p.crashed ∧
      (p.Discreet → (outputUnlessPublic config p text).Discreet) := by
  rw [outputUnlessPublic]
  split_ifs with hlevel
  · exact ⟨rfl, rfl, fun h => h.note hlevel⟩
  · exact ⟨rfl, rfl, fun h => h⟩

theorem outputUnlessPublic_public (hlevel : p.userPermLevel = .ePublic) (text : List UInt8) :
    outputUnlessPublic config p text = p :=
  if_neg (not_not_intro hlevel)

/-! One turn -/

/-- What stays behind a turn that neither crashes nor indiscreetly writes. -/
structure Behaves {ρ : Type} (p : Processor σ) (outcome : Option ρ × Processor σ) : Prop where
  discreet : outcome.2.Discreet
  crashed : outcome.1.isSome → outcome.2.crashed = p.crashed

theorem value_eq_zero {level : Permission} (h : level.value ≤ Permission.ePublic.value) :
    level = .ePublic := by
  cases level with
  | ePublic => rfl
  | eUser | eSystem | eAdmin => exact absurd h (by decide)

theorem behaves_executeFound {command : Command σ} (hp : p.Discreet)
    (hcommand : command.getMinPermissionRequired = .ePublic → command.IsUser)
    (hlevel : command.getMinPermissionRequired.value ≤ p.userPermLevel.value)
    (leading firstToken : List UInt8) :
    Behaves p (executeFound config p command leading firstToken) := by
  have hnote : (p.note (.executed p.userPermLevel command)).Discreet :=
    hp.note fun heq => hcommand (value_eq_zero (heq ▸ hlevel))
  cases command with
  | user validateCredentials =>
      rw [executeFound]
      split
      · exact ⟨hnote, fun h => absurd h Bool.false_ne_true⟩
      · exact ⟨hnote, fun _ => rfl⟩
  | other verb minPermission execute =>
      have hpublic : p.userPermLevel ≠ .ePublic :=
        fun heq => hcommand (value_eq_zero (heq ▸ hlevel))
      rw [executeFound]
      dsimp only
      generalize execute _ _ _ _ = effect
      have hafter := speaks_afterEffect (p.note (.executed p.userPermLevel
        (.other verb minPermission execute))) effect
      by_cases hresult : effect.result = .success
      · rw [if_neg (not_not_intro hresult)]
        exact ⟨hafter.discreet hpublic hnote, fun _ => hafter.crashed⟩
      · rw [if_pos hresult]
        have herror := hafter.trans (speaks_outputCommandError config _ effect.result
          (leading ++ text effect.cmdString))
        exact ⟨herror.discreet hpublic hnote, fun _ => herror.crashed⟩

theorem behaves_executeCommand (hpublic : config.OnlyUserIsPublic) (hp : p.Discreet)
    (deframedInput : List UInt8) : Behaves p (executeCommand config p deframedInput) := by
  rw [executeCommand]
  dsimp only
  split_ifs with hblank
  · exact ⟨hp, fun _ => rfl⟩
  · split
    · next _ =>
        rw [outputCmdErrorAndReturn]
        split_ifs with hlevel
        · have herror := speaks_outputCommandError config p .invalidCmd deframedInput
          exact ⟨herror.discreet hlevel hp, fun _ => herror.crashed⟩
        · exact ⟨hp, fun _ => rfl⟩
    · next command hfind =>
        split_ifs with hlevel
        · exact behaves_executeFound hp (hpublic command (OrderedMap.of_find hfind).1) hlevel _ _
        · exact ⟨hp, fun _ => rfl⟩

theorem behaves_getAndProcessFrame (hpublic : config.OnlyUserIsPublic) (hp : p.Discreet)
    (turn : Turn) : Behaves p (getAndProcessFrame config p turn) := by
  rw [getAndProcessFrame]
  generalize hstop : (if turn.stopRequested then requestStop p else p) = p₁
  have hp₁ : p₁.Discreet ∧ p₁.crashed = p.crashed := by
    rw [← hstop]
    split_ifs
    · exact ⟨hp, rfl⟩
    · exact ⟨hp, rfl⟩
  split_ifs with hrun
  · obtain ⟨_, hcrashed, hdiscreet⟩ := outputUnlessPublic_spec config p₁ farewell
    exact ⟨hdiscreet hp₁.1, fun _ => hcrashed.trans hp₁.2⟩
  · split
    · exact ⟨hp₁.1, fun _ => hp₁.2⟩
    · exact ⟨hp₁.1, fun _ => hp₁.2⟩
    · next bytes _ =>
        have hexecute := behaves_executeCommand hpublic hp₁.1 (text (bytes.take inputSize))
        revert hexecute
        generalize executeCommand config p₁ _ = outcome
        rintro ⟨hdiscreet, hcrashed⟩
        split
        · exact ⟨hdiscreet, fun h => absurd h Bool.false_ne_true⟩
        · exact ⟨hdiscreet, fun _ => (hcrashed rfl).trans hp₁.2⟩
        · next p₂ _ =>
            obtain ⟨_, hcrashed', hdiscreet'⟩ := outputUnlessPublic_spec config p₂ prompt
            exact ⟨hdiscreet' hdiscreet, fun _ => hcrashed'.trans ((hcrashed rfl).trans hp₁.2)⟩

theorem discreet_step (hpublic : config.OnlyUserIsPublic) (hp : p.Discreet) (action : Step)
    (hstep : step config p action = some p') : p'.Discreet := by
  cases action with
  | begin =>
      obtain ⟨_, hnext⟩ := Option.ite_none_left_eq_some.mp hstep
      rw [← Option.some.inj hnext, begin]
      have hstart : { p with running := true, outputBuffer := [] : Processor σ }.Discreet := hp
      have hgreeting := (outputUnlessPublic_spec config _ greeting).2.2 hstart
      exact (outputUnlessPublic_spec config _ prompt).2.2 hgreeting
  | turn turn =>
      obtain ⟨_, hnext⟩ := Option.ite_none_left_eq_some.mp hstep
      rw [← Option.some.inj hnext]
      exact (behaves_getAndProcessFrame hpublic hp turn).discreet
  | requestStop =>
      obtain ⟨_, hnext⟩ := Option.ite_none_left_eq_some.mp hstep
      rw [← Option.some.inj hnext]
      exact hp

/-- The loop of `start` is a run of turns, as many as it needs. -/
theorem startLoop_run (hpublic : config.OnlyUserIsPublic) (blocking : Bool) (turns : List Turn)
    (hp : p.Discreet) (hcrashed : p.crashed = false) :
    ∃ n, run (step config) p ((turns.take n).map .turn) =
      some (startLoop config blocking p turns).2 := by
  induction turns generalizing p with
  | nil => exact ⟨0, rfl⟩
  | cons turn rest ih =>
      have hturn : step config p (.turn turn) = some (getAndProcessFrame config p turn).2 := by
        rw [step, hcrashed]
        rfl
      have hone : run (step config) p (((turn :: rest).take 1).map .turn) =
          some (getAndProcessFrame config p turn).2 := by
        show (step config p (.turn turn)).bind some = _
        rw [hturn]
        rfl
      have hbehaves := behaves_getAndProcessFrame hpublic hp turn
      rw [startLoop]
      revert hturn hone hbehaves
      generalize getAndProcessFrame config p turn = outcome
      rintro hturn hone ⟨hdiscreet, hsame⟩
      rcases outcome with ⟨_ | result, next⟩
      · exact ⟨1, hone⟩
      · dsimp only
        split_ifs
        · exact ⟨1, hone⟩
        · obtain ⟨n, hn⟩ := ih hdiscreet ((hsame rfl).trans hcrashed)
          refine ⟨n + 1, ?_⟩
          show (step config p (.turn turn)).bind _ = _
          rw [hturn]
          exact hn
        · exact ⟨1, hone⟩

theorem start_run (hpublic : config.OnlyUserIsPublic) (blocking : Bool) (turns : List Turn)
    (hp : p.Discreet) (hcrashed : p.crashed = false) :
    ∃ n, run (step config) p (.begin :: (turns.take n).map .turn) =
      some (start config p blocking turns).2 := by
  have hbegin : step config p .begin = some (begin config p) := by
    rw [step, hcrashed]
    rfl
  have hafter : (begin config p).crashed = false := by
    obtain ⟨_, hgreeting, _⟩ := outputUnlessPublic_spec config
      { p with running := true, outputBuffer := [] } greeting
    obtain ⟨_, hprompt, _⟩ := outputUnlessPublic_spec config (outputUnlessPublic config
      { p with running := true, outputBuffer := [] } greeting) prompt
    exact hprompt.trans (hgreeting.trans hcrashed)
  obtain ⟨n, hn⟩ := startLoop_run hpublic blocking turns (discreet_step hpublic hp _ hbegin) hafter
  refine ⟨n, ?_⟩
  show (step config p .begin).bind _ = _
  rw [hbegin]
  exact hn

/-! At the level `ePUBLIC` -/

theorem rawKey_injective : Function.Injective rawKey :=
  List.map_injective_iff.mpr fun _ _ => UInt8.toNat_inj.mp

/-- A frame is blank, the command `user`, or refused. -/
theorem executeCommand_public (hpublic : config.OnlyUserIsPublic)
    (hlevel : p.userPermLevel = .ePublic) (deframedInput : List UInt8) :
    executeCommand config p deframedInput =
        (some (if deframedInput.dropWhile isspace = [] ∨
          (deframedInput.dropWhile isspace).head? = some config.comment then .success
          else .invalidCmd), p) ∨
      ∃ validateCredentials, verbOf deframedInput = chars "user" ∧
        executeCommand config p deframedInput =
          executeFound config p (.user validateCredentials) (deframedInput.takeWhile isspace)
            (deframedInput.dropWhile isspace) := by
  rw [executeCommand]
  dsimp only
  split_ifs with hblank
  · exact .inl rfl
  · split
    · rw [outputCmdErrorAndReturn, if_neg (not_not_intro hlevel)]
      exact .inl rfl
    · next command hfind =>
        obtain ⟨hmem, hkey⟩ := OrderedMap.of_find hfind
        split_ifs with hmin
        · have huser := hpublic command hmem (value_eq_zero (hlevel ▸ hmin))
          cases command with
          | user validateCredentials =>
              exact .inr ⟨validateCredentials, (rawKey_injective hkey).symm, rfl⟩
          | other verb minPermission execute => exact huser.elim
        · exact .inl rfl

theorem executeCommand_of_not_user (hpublic : config.OnlyUserIsPublic)
    (hlevel : p.userPermLevel = .ePublic) {deframedInput : List UInt8}
    (hverb : verbOf deframedInput ≠ chars "user") :
    executeCommand config p deframedInput =
      (some (if deframedInput.dropWhile isspace = [] ∨
        (deframedInput.dropWhile isspace).head? = some config.comment then .success
        else .invalidCmd), p) := by
  rcases executeCommand_public hpublic hlevel deframedInput with hrefused | ⟨_, huser, -⟩
  · exact hrefused
  · exact absurd huser hverb

theorem executeCommand_withCommands (hpublic : config.OnlyUserIsPublic)
    {commands : OrderedMap fun c : Command σ => rawKey c.verb}
    (hpublic' : (config.withCommands commands).OnlyUserIsPublic)
    (huser : commands.find (rawKey (chars "user")) = config.commands.find (rawKey (chars "user")))
    (hlevel : p.userPermLevel = .ePublic) (deframedInput : List UInt8) :
    executeCommand (config.withCommands commands) p deframedInput =
      executeCommand config p deframedInput := by
  by_cases hverb : verbOf deframedInput = chars "user"
  · have hfind : (config.withCommands commands).commands.find (rawKey (verbOf deframedInput)) =
        config.commands.find (rawKey (verbOf deframedInput)) := by
      rw [hverb]
      exact huser
    rw [executeCommand, executeCommand, hfind]
    rfl
  · rw [executeCommand_of_not_user hpublic hlevel hverb,
      executeCommand_of_not_user hpublic' hlevel hverb]
    rfl

theorem step_withCommands (hpublic : config.OnlyUserIsPublic)
    {commands : OrderedMap fun c : Command σ => rawKey c.verb}
    (hpublic' : (config.withCommands commands).OnlyUserIsPublic)
    (huser : commands.find (rawKey (chars "user")) = config.commands.find (rawKey (chars "user")))
    (hlevel : p.userPermLevel = .ePublic) (action : Step) :
    step (config.withCommands commands) p action = step config p action := by
  cases action with
  | begin => rfl
  | requestStop => rfl
  | turn turn =>
      have hturn : getAndProcessFrame (config.withCommands commands) p turn =
          getAndProcessFrame config p turn := by
        have hlevel₁ : (if turn.stopRequested then requestStop p else p).userPermLevel =
            .ePublic := by
          split_ifs
          · exact hlevel
          · exact hlevel
        rw [getAndProcessFrame, getAndProcessFrame]
        simp only [executeCommand_withCommands hpublic hpublic' huser hlevel₁]
        rfl
      rw [step, step, hturn]

theorem written_executeCommand (hpublic : config.OnlyUserIsPublic)
    (hlevel : p.userPermLevel = .ePublic) (deframedInput : List UInt8) :
    (executeCommand config p deframedInput).2.written = p.written := by
  rcases executeCommand_public hpublic hlevel deframedInput with
    hrefused | ⟨validateCredentials, -, hfound⟩
  · rw [hrefused]
  · have hnote : (p.note (.executed p.userPermLevel (.user validateCredentials))).written =
        p.written := (List.filterMap_append ..).trans (List.append_nil _)
    rw [hfound, executeFound]
    split
    · exact hnote
    · exact hnote

theorem written_step (hpublic : config.OnlyUserIsPublic) (hlevel : p.userPermLevel = .ePublic)
    (action : Step) (hstep : step config p action = some p')
    (hstays : p'.userPermLevel = .ePublic) :
    p'.written = p.written := by
  cases action with
  | begin =>
      obtain ⟨_, hnext⟩ := Option.ite_none_left_eq_some.mp hstep
      rw [← Option.some.inj hnext, begin]
      have hstart : { p with running := true, outputBuffer := [] : Processor σ }.userPermLevel =
        .ePublic := hlevel
      rw [outputUnlessPublic_public hstart, outputUnlessPublic_public hstart]
      rfl
  | requestStop =>
      obtain ⟨_, hnext⟩ := Option.ite_none_left_eq_some.mp hstep
      rw [← Option.some.inj hnext]
      rfl
  | turn turn =>
      obtain ⟨_, hnext⟩ := Option.ite_none_left_eq_some.mp hstep
      obtain rfl := Option.some.inj hnext
      rw [getAndProcessFrame] at hstays ⊢
      revert hstays
      generalize hstop : (if turn.stopRequested then requestStop p else p) = p₁
      have hp₁ : p₁.userPermLevel = .ePublic ∧ p₁.written = p.written := by
        rw [← hstop]
        split_ifs
        · exact ⟨hlevel, rfl⟩
        · exact ⟨hlevel, rfl⟩
      split_ifs with hrun
      · rw [outputUnlessPublic_public hp₁.1]
        exact fun _ => hp₁.2
      · split
        · exact fun _ => hp₁.2
        · exact fun _ => hp₁.2
        · next bytes _ =>
            have hexecute := written_executeCommand hpublic hp₁.1 (text (bytes.take inputSize))
            revert hexecute
            generalize executeCommand config p₁ _ = outcome
            intro hexecute
            split
            · exact fun _ => hexecute.trans hp₁.2
            · exact fun _ => hexecute.trans hp₁.2
            · next p₂ _ =>
                intro hstays
                rw [(outputUnlessPublic_spec config p₂ prompt).1] at hstays
                rw [outputUnlessPublic_public hstays]
                exact hexecute.trans hp₁.2

theorem getAndProcessFrame_of_not_user (hpublic : config.OnlyUserIsPublic)
    (hlevel : p.userPermLevel = .ePublic) {bytes : List UInt8}
    (hverb : verbOf (text (bytes.take inputSize)) ≠ chars "user") :
    (getAndProcessFrame config p ⟨false, .frame bytes⟩).2 = p := by
  rw [getAndProcessFrame, if_neg Bool.false_ne_true]
  split_ifs with hrun
  · exact outputUnlessPublic_public hlevel _
  · dsimp only
    rw [executeCommand_of_not_user hpublic hlevel hverb]
    split_ifs with hblank
    · exact outputUnlessPublic_public hlevel _
    · exact outputUnlessPublic_public hlevel _

/-- Nothing is written and nothing but `user` runs at the level `ePUBLIC`, in every session of a
processor that starts there.  While it stays there, a processor with other commands but the same
`user` goes through the same states, the output does not depend on the input, and a frame with
another command leaves no trace at all. -/
theorem silent_whilePublic (hpublic : config.OnlyUserIsPublic) {world : σ} {steps : List Step}
    (hrun : run (step config) (.initial world) steps = some p) :
    (∀ event ∈ p.transcript, event.Discreet) ∧
      (p.userPermLevel = .ePublic →
        (∀ commands, (config.withCommands commands).OnlyUserIsPublic →
          commands.find (rawKey (chars "user")) = config.commands.find (rawKey (chars "user")) →
          ∀ later, AllSteps (step config) (fun q _ => q.userPermLevel = .ePublic) p later →
            run (step (config.withCommands commands)) p later = run (step config) p later) ∧
        (∀ later q, AllSteps (step config) (fun q _ => q.userPermLevel = .ePublic) p later →
          run (step config) p later = some q → q.userPermLevel = .ePublic →
            q.written = p.written) ∧
        ∀ bytes, verbOf (text (bytes.take inputSize)) ≠ chars "user" →
          (getAndProcessFrame config p ⟨false, .frame bytes⟩).2 = p) := by
  refine ⟨?_, fun hlevel => ⟨?_, ?_, ?_⟩⟩
  · refine invariant_always (I := Processor.Discreet) ?_ ?_ hrun
    · exact fun q action next hq hstep => discreet_step hpublic hq action hstep
    · exact fun event hevent => absurd hevent List.not_mem_nil
  · intro commands hpublic' huser later hall
    exact run_congr (fun q action hq => step_withCommands hpublic hpublic' huser hq action) hall
  · intro later q hall hlater
    refine invariant (I := fun q => q.userPermLevel = .ePublic → q.written = p.written) ?_
      (fun _ => rfl) hall hlater
    intro s action next hs hpublicStep hstep hstays
    exact (written_step hpublic hpublicStep action hstep hstays).trans (hs hpublicStep)
  · exact fun bytes hverb => getAndProcessFrame_of_not_user hpublic hlevel hverb

/-- A shell with `user`, whose password is the user's name, and one command for the users. -/
def smallShell : Config Unit where
  commands := {
    items := [
      .other (chars "hello") .eUser fun _ _ _ cmdString =>
        ⟨.success, (), [chars "world"], [], cmdString, false⟩,
      .user fun _ name password => (if name = password then .eUser else .ePublic, ())]
    sorted := by decide }
  framer := {
    startFrame := fun _ => (true, [], ())
    output := fun _ text => (true, text, ())
    endFrame := fun _ => (true, [10], ()) }
  write := fun _ _ => ()
  comment := 35
  marks := ⟨32, 10, 34, 96⟩

theorem smallShell_onlyUserIsPublic : smallShell.OnlyUserIsPublic := by
  intro command hmem hmin
  rcases List.mem_cons.mp hmem with rfl | hmem
  · exact absurd hmin (by decide)
  · rw [List.mem_singleton.mp hmem]
    exact trivial

/-- The frames of a small session: a command too early, a login, the command, a logout. -/
def smallSession : List Step :=
  .begin :: [chars "hello", chars "user login me me", chars "hello", chars "user logout"].map
    fun bytes => .turn ⟨false, .frame bytes⟩

theorem silent_smallSession :
    ∃ p, run (step smallShell) (.initial ()) smallSession = some p ∧
      (p.written = [chars "$ ", chars "world", chars "$ "] ∧ p.userPermLevel = .ePublic) ∧
      (∀ event ∈ p.transcript, event.Discreet) ∧
      (getAndProcessFrame smallShell p ⟨false, .frame (chars "hello")⟩).2 = p := by
  have hsome : (run (step smallShell) (.initial ()) smallSession).isSome := by decide
  obtain ⟨p, hrun⟩ := Option.isSome_iff_exists.mp hsome
  have hend : (run (step smallShell) (.initial ()) smallSession).map
      (fun p => (p.written, p.userPermLevel)) =
        some ([chars "$ ", chars "world", chars "$ "], .ePublic) := by decide
  rw [hrun] at hend
  obtain ⟨hwritten, hlevel⟩ := Prod.mk.inj (Option.some.inj hend)
  have hsilent := silent_whilePublic smallShell_onlyUserIsPublic hrun
  exact ⟨p, hrun, ⟨hwritten, hlevel⟩, hsilent.1, (hsilent.2 hlevel).2.2 _ (by decide)⟩

end ColonyPico.TShell.CommandProcessor
