import Mathlib.Data.List.Forall2
import ColonyPico.Container.RingBuffer
import ColonyPico.Foundations.Runs

/-!
The log entries that pass through the FIFO of the logger (`Cpl::Logging`) and the overflow
bookkeeping around it.
-/

namespace ColonyPico.Logging.Logger

open ColonyPico.Container.RingBuffer
open ColonyPico.Foundations.Runs

/-- `EntryData_T`; the text stands for the characters before the null terminator. -/
structure EntryData where
  timestamp : UInt64
  category : UInt32
  msgId : UInt16
  msgText : List Char
  deriving DecidableEq

def EntryData.init : EntryData :=
  { timestamp := 0, category := 0, msgId := 0, msgText := [] }

/-- The options of the build and the arguments of `initialize()`.  The number of empty slots "can
NOT be less than 2". -/
structure Settings where
  minQueueSpace : UInt32
  two_le : 2 ≤ minQueueSpace.toNat
  overflowCatId : UInt32
  overflowCatText : List Char
  overflowMsgId : UInt16
  overflowMsgText : List Char

/-- A call of `createAndAddLogEntry_()`: its arguments, the text that `vsnprintf()` makes of them
and the time that `now()` returns. -/
structure LogCall where
  category : UInt32
  catIdText : List Char
  msgId : UInt16
  msgIdText : List Char
  text : List Char
  timestamp : UInt64

/-- `OPTION_CPL_LOGGING_MAX_MSG_TEXT_LEN`. -/
def maxMsgTextLen : Nat := 128

/-- `OPTION_CPL_LOGGING_MAX_LEN_CATEGORY_ID_TEXT`. -/
def maxLenCategoryIdText : Nat := 16

/-- `OPTION_CPL_LOGGING_MAX_LEN_MESSAGE_ID_TEXT`. -/
def maxLenMessageIdText : Nat := 32

/-- `OPTION_CPL_LOGGING_MAX_FORMATTED_MSG_TEXT_LEN`. -/
def maxFormattedMsgTextLen : Nat :=
  maxMsgTextLen + maxLenCategoryIdText + 1 + maxLenMessageIdText + 2

def LogCall.entry (call : LogCall) : EntryData :=
  { timestamp := call.timestamp
    category := call.category
    msgId := call.msgId
    msgText := call.text.take maxMsgTextLen }

def startText (catIdText msgIdText : List Char) : List Char :=
  catIdText.take maxLenCategoryIdText ++ [':'] ++ msgIdText.take maxLenMessageIdText ++ ['.', ' ']

/-- What `%d` prints of an unsigned value. -/
def signedDecimal (value : UInt32) : List Char :=
  if value.toNat < 2 ^ 31 then Nat.toDigits 10 value.toNat
  else '-' :: Nat.toDigits 10 (2 ^ 32 - value.toNat)

def LogCall.trace (call : LogCall) : List Char :=
  (startText call.catIdText call.msgIdText ++ call.entry.msgText).take maxFormattedMsgTextLen

/-- The entry that `createAndAddOverflowEntry()` adds. -/
def overflowEntry (settings : Settings) (timestamp : UInt64) : EntryData :=
  -- the text is formatted in a string of its own, which is not copied to the entry
  { EntryData.init with
    category := settings.overflowCatId
    msgId := settings.overflowMsgId
    timestamp := timestamp }

/-- The text that `createAndAddOverflowEntry()` hands to the trace engine. -/
def overflowTrace (settings : Settings) (overflowCount : UInt32) : List Char :=
  (startText settings.overflowCatText settings.overflowMsgText ++
    "overflow count=".toList ++ signedDecimal overflowCount).take maxFormattedMsgTextLen

/-- Where the thread that holds `lock_` is in `createAndAddLogEntry_()`. -/
inductive Pc where
  | idle
  /-- `queueFull_` was found set; next is to ask the FIFO for its free slots. -/
  | measuring (call : LogCall)
  | announcing (call : LogCall)
  | adding (call : LogCall)
  /-- The entry was added; next is to ask the FIFO whether it is full. -/
  | testing (call : LogCall)

/-- What became of the enabled calls, and the overflow entries between them. -/
inductive Event where
  | logged (call : LogCall)
  | dropped (call : LogCall)
  | announced (timestamp : UInt64)

/-- The variables of the logger and the FIFO; `refused`, `removed` and `history` only record what
happened to it. -/
structure State where
  fifo : Buffer EntryData
  queueFull : Bool
  overflowCount : UInt32
  categoryMask : UInt32
  pc : Pc
  traced : List (List Char)
  refused : Nat
  removed : List EntryData
  history : List Event

/-- `initialize()`, which leaves `overflowCount_` as it is. -/
def initializeLogger (logEntryFIFO : Buffer EntryData) (overflowCount : UInt32) : State :=
  { fifo := logEntryFIFO.clearTheBuffer
    queueFull := false
    overflowCount := overflowCount
    categoryMask := 0xFFFFFFFF
    pc := .idle
    traced := []
    refused := 0
    removed := []
    history := [] }

inductive MaskChange where
  | enableCategory (categoryMask : UInt32)
  | disableCategory (categoryMask : UInt32)
  | setCategoryMask (newMask : UInt32)

def MaskChange.apply (mask : UInt32) : MaskChange → UInt32
  | .enableCategory categoryMask => mask ||| categoryMask
  | .disableCategory categoryMask => mask &&& ~~~categoryMask
  | .setCategoryMask newMask => newMask

/-- What happens next: a thread takes the lock to log or to change the mask, the thread that is
logging goes on, or the consumer removes an entry. -/
inductive Action where
  | log (call : LogCall)
  | proceed (timestamp : UInt64)
  | mask (change : MaskChange)
  | remove

def add (s : State) (entry : EntryData) : State :=
  { s with
    fifo := (s.fifo.add entry).2
    refused := if (s.fifo.add entry).1 then s.refused else s.refused + 1 }

def available (s : State) : UInt32 :=
  s.fifo.getMaxItems - s.fifo.getNumItems

/-- The next section of the thread that is logging, up to its next access to the FIFO. -/
def proceed (settings : Settings) (s : State) (timestamp : UInt64) : Option State :=
  match s.pc with
  | .idle => none
  | .measuring call =>
      if settings.minQueueSpace ≤ available s then some { s with pc := .announcing call }
      else
        some { s with
          overflowCount := s.overflowCount + 1
          pc := .idle
          traced := s.traced ++ [call.trace]
          history := s.history ++ [.dropped call] }
  | .announcing call =>
      some { add s (overflowEntry settings timestamp) with
        overflowCount := 0
        queueFull := false
        pc := .adding call
        traced := s.traced ++ [overflowTrace settings s.overflowCount]
        history := s.history ++ [.announced timestamp] }
  | .adding call =>
      some { add s call.entry with
        pc := .testing call
        history := s.history ++ [.logged call] }
  | .testing call =>
      some { s with
        queueFull := if s.fifo.isFull then true else s.queueFull
        pc := .idle
        traced := s.traced ++ [call.trace] }

/-- One access to the FIFO, or a section under `lock_` without one. -/
def step (settings : Settings) (s : State) : Action → Option State
  | .log call =>
      match s.pc with
      | .idle =>
          if call.category &&& s.categoryMask = 0 then some s
          else some { s with pc := if s.queueFull then .measuring call else .adding call }
      | _ => none
  | .proceed timestamp => proceed settings s timestamp
  | .mask change =>
      match s.pc with
      | .idle => some { s with categoryMask := change.apply s.categoryMask }
      | _ => none
  | .remove =>
      some { s with fifo := s.fifo.remove.2, removed := s.removed ++ s.fifo.remove.1.toList }

/-- What the consumer gets if it removes up to `count` entries. -/
def drain : Nat → Buffer EntryData → List EntryData
  | 0, _ => []
  | count + 1, fifo =>
      match fifo.remove with
      | (none, _) => []
      | (some entry, rest) => entry :: drain count rest

/-- The entries removed, then those still queued. -/
def entries (s : State) : List EntryData :=
  s.removed ++ drain s.fifo.getNumItems.toNat s.fifo

/-- What the consumer should find. -/
inductive Item where
  | call (call : LogCall)
  | overflow (dropped : Nat)

/-- The enabled calls in order, with an overflow in place of each run of dropped calls that has
ended. -/
def expected : Nat → List Event → List Item
  | _, [] => []
  | dropped, .dropped _ :: rest => expected (dropped + 1) rest
  | 0, .logged call :: rest => .call call :: expected 0 rest
  | dropped + 1, .logged call :: rest => .overflow (dropped + 1) :: .call call :: expected 0 rest
  | dropped, .announced _ :: rest => expected dropped rest

def States (settings : Settings) (entry : EntryData) : Item → Prop
  | .call call => entry = call.entry
  | .overflow dropped =>
      entry.category = settings.overflowCatId ∧ entry.msgId = settings.overflowMsgId ∧
        Nat.toDigits 10 dropped <:+: entry.msgText

/-- The entries are those of the logged calls, with the number of dropped ones in between. -/
def Accounted (settings : Settings) (s : State) : Prop :=
  List.Forall₂ (States settings) (entries s) (expected 0 s.history)

def Pc.isMeasuring : Pc → Bool
  | .measuring _ => true
  | _ => false

/-- The step does not end a run of dropped calls. -/
def KeepsDropping (settings : Settings) (s : State) : Action → Prop
  | .proceed _ => s.pc.isMeasuring = true → available s < settings.minQueueSpace
  | _ => True

instance (settings : Settings) (s : State) : ∀ action, Decidable (KeepsDropping settings s action)
  | .log _ => .isTrue trivial
  | .mask _ => .isTrue trivial
  | .remove => .isTrue trivial
  | .proceed _ =>
      inferInstanceAs
        (Decidable (s.pc.isMeasuring = true → available s < settings.minQueueSpace))

def Event.entries (settings : Settings) : Event → List EntryData
  | .logged call => [call.entry]
  | .dropped _ => []
  | .announced timestamp => [overflowEntry settings timestamp]

def Event.IsAnnounced : Event → Prop
  | .announced _ => True
  | _ => False

section History

variable {settings : Settings}

/-- How the history can go on: nothing is logged after a dropped call before that was announced, and
what follows an announcement is logged. -/
inductive Phase where
  | clear
  | dropping
  | announced

def accept : Phase → Event → Option Phase
  | .clear, .logged _ => some .clear
  | .announced, .logged _ => some .clear
  | .clear, .dropped _ => some .dropping
  | .dropping, .dropped _ => some .dropping
  | .clear, .announced _ => some .announced
  | .dropping, .announced _ => some .announced
  | _, _ => none

theorem accept_logged {phase next : Phase} {call : LogCall}
    (hnext : accept phase (.logged call) = some next) : next = .clear ∧ phase ≠ .dropping := by
  cases phase with
  | clear => exact ⟨(Option.some.inj hnext).symm, by rintro ⟨⟩⟩
  | dropping => cases hnext
  | announced => exact ⟨(Option.some.inj hnext).symm, by rintro ⟨⟩⟩

theorem accept_dropped {phase next : Phase} {call : LogCall}
    (hnext : accept phase (.dropped call) = some next) : next = .dropping ∧ phase ≠ .announced := by
  cases phase with
  | clear => exact ⟨(Option.some.inj hnext).symm, by rintro ⟨⟩⟩
  | dropping => exact ⟨(Option.some.inj hnext).symm, by rintro ⟨⟩⟩
  | announced => cases hnext

theorem accept_announced {phase next : Phase} {timestamp : UInt64}
    (hnext : accept phase (.announced timestamp) = some next) :
    next = .announced ∧ phase ≠ .announced := by
  cases phase with
  | clear => exact ⟨(Option.some.inj hnext).symm, by rintro ⟨⟩⟩
  | dropping => exact ⟨(Option.some.inj hnext).symm, by rintro ⟨⟩⟩
  | announced => cases hnext

/-- What the entries may be short of: the overflow entry in front of the next call was counted
before. -/
def Phase.credit : Phase → Nat
  | .announced => 1
  | _ => 0

theorem credit_eq_zero {phase : Phase} (h : phase ≠ .announced) : phase.credit = 0 := by
  cases phase with
  | clear => rfl
  | dropping => rfl
  | announced => exact absurd rfl h

theorem length_expected_logged {dropped : Nat} {call : LogCall} {rest : List Event} :
    (expected dropped (.logged call :: rest)).length =
      (expected 0 rest).length + if dropped = 0 then 1 else 2 := by
  cases dropped with
  | zero => rfl
  | succ dropped => rfl

theorem length_expected_le {phase last : Phase} {events : List Event} {dropped : Nat}
    (hrun : run accept phase events = some last) (hclear : phase = .clear → dropped = 0) :
    (expected dropped events).length ≤
      (events.flatMap (Event.entries settings)).length + phase.credit := by
  induction events generalizing phase dropped with
  | nil => exact Nat.zero_le _
  | cons event rest ih =>
      obtain ⟨next, hnext, hrest⟩ := run_cons hrun
      rw [List.flatMap_cons, List.length_append]
      cases event with
      | logged call =>
          obtain ⟨rfl, hphase⟩ := accept_logged hnext
          have hle : (expected 0 rest).length ≤ (rest.flatMap (Event.entries settings)).length :=
            ih hrest fun _ => rfl
          have hone : (Event.entries settings (.logged call)).length = 1 := rfl
          have hcredit : dropped = 0 ∨ phase.credit = 1 := by
            cases phase with
            | clear => exact .inl (hclear rfl)
            | dropping => exact absurd rfl hphase
            | announced => exact .inr rfl
          rw [length_expected_logged]
          split_ifs <;> omega
      | dropped call =>
          obtain ⟨rfl, hphase⟩ := accept_dropped hnext
          have hle : (expected (dropped + 1) rest).length ≤
              (rest.flatMap (Event.entries settings)).length := ih hrest (by rintro ⟨⟩)
          have hnone : (Event.entries settings (.dropped call)).length = 0 := rfl
          rw [credit_eq_zero hphase, expected]
          omega
      | announced timestamp =>
          obtain ⟨rfl, hphase⟩ := accept_announced hnext
          have hle : (expected dropped rest).length ≤
              (rest.flatMap (Event.entries settings)).length + 1 := ih hrest (by rintro ⟨⟩)
          have hone : (Event.entries settings (.announced timestamp)).length = 1 := rfl
          rw [credit_eq_zero hphase, expected]
          omega

theorem eq_clear {phase : Phase} (hdropping : phase ≠ .dropping) (hannounced : phase ≠ .announced) :
    phase = .clear := by
  cases phase with
  | clear => rfl
  | dropping => exact absurd rfl hdropping
  | announced => exact absurd rfl hannounced

/-- Without announcements nothing is logged after a dropped call. -/
theorem accounted_of_not_announced {phase last : Phase} {events : List Event} {dropped : Nat}
    (hnone : ∀ event ∈ events, ¬event.IsAnnounced) (hrun : run accept phase events = some last)
    (hphase : phase ≠ .announced) (hclear : phase = .clear → dropped = 0) :
    List.Forall₂ (States settings) (events.flatMap (Event.entries settings))
      (expected dropped events) := by
  induction events generalizing phase dropped with
  | nil => exact .nil
  | cons event rest ih =>
      obtain ⟨next, hnext, hrest⟩ := run_cons hrun
      have hnoneRest : ∀ event ∈ rest, ¬event.IsAnnounced :=
        fun event hevent => hnone event (List.mem_cons_of_mem _ hevent)
      cases event with
      | logged call =>
          obtain ⟨rfl, hdropping⟩ := accept_logged hnext
          obtain rfl := hclear (eq_clear hdropping hphase)
          exact .cons rfl (ih hnoneRest hrest (by rintro ⟨⟩) fun _ => rfl)
      | dropped call =>
          obtain ⟨rfl, -⟩ := accept_dropped hnext
          exact ih hnoneRest hrest (by rintro ⟨⟩) (by rintro ⟨⟩)
      | announced timestamp => exact absurd trivial (hnone _ List.mem_cons_self)

/-- An announcement is never what is expected: it has no text, and after no dropped call it is one
entry too many. -/
theorem not_announced_of_accounted {phase last : Phase} {events : List Event} {dropped : Nat}
    (hrun : run accept phase events = some last) (hlast : last ≠ .announced)
    (hphase : phase ≠ .announced) (hclear : phase = .clear → dropped = 0)
    (hall : List.Forall₂ (States settings) (events.flatMap (Event.entries settings))
      (expected dropped events)) :
    ∀ event ∈ events, ¬event.IsAnnounced := by
  induction events generalizing phase dropped with
  | nil => rintro event ⟨⟩
  | cons event rest ih =>
      obtain ⟨next, hnext, hrest⟩ := run_cons hrun
      cases event with
      | logged call =>
          obtain ⟨rfl, hdropping⟩ := accept_logged hnext
          obtain rfl := hclear (eq_clear hdropping hphase)
          rcases hall with _ | ⟨-, hallRest⟩
          rintro event hevent
          rcases List.mem_cons.mp hevent with rfl | hmem
          · exact id
          · exact ih hrest (by rintro ⟨⟩) (fun _ => rfl) hallRest event hmem
      | dropped call =>
          obtain ⟨rfl, -⟩ := accept_dropped hnext
          rintro event hevent
          rcases List.mem_cons.mp hevent with rfl | hmem
          · exact id
          · exact ih hrest (by rintro ⟨⟩) (by rintro ⟨⟩) hall event hmem
      | announced timestamp =>
          exfalso
          obtain ⟨rfl, -⟩ := accept_announced hnext
          cases rest with
          | nil => exact hlast (Option.some.inj hrest).symm
          | cons event rest =>
              obtain ⟨next, hnext, hrest⟩ := run_cons hrest
              cases event with
              | dropped call => cases hnext
              | announced timestamp => cases hnext
              | logged call =>
                  obtain ⟨rfl, -⟩ := accept_logged hnext
                  cases dropped with
                  | zero =>
                      have hlength := hall.length_eq
                      have hle := @length_expected_le settings _ _ _ 0 hrest fun _ => rfl
                      simp only [expected, List.flatMap_cons, Event.entries, List.length_append,
                        List.length_cons, List.length_nil, Phase.credit] at hlength hle
                      omega
                  | succ dropped =>
                      rcases hall with _ | ⟨⟨-, -, hdigits⟩, -⟩
                      have hnil : Nat.toDigits 10 (dropped + 1) = [] := List.infix_nil.mp hdigits
                      exact Nat.toDigits_ne_nil hnil

end History

section Steps

variable {settings : Settings} {n : Nat} {s s' : State} {q : List EntryData} {phase : Phase}
  {action : Action}

/-- What holds where the logging thread is, with `room` free slots in the FIFO. -/
def Placed (queueFull : Bool) (phase : Phase) (room : Nat) : Pc → Prop
  | .idle => phase ≠ .announced ∧ (queueFull = false → phase = .clear ∧ 0 < room)
  | .measuring _ => phase ≠ .announced ∧ queueFull = true
  | .announcing _ => phase ≠ .announced ∧ 2 ≤ room
  | .adding _ => phase ≠ .dropping ∧ queueFull = false ∧ 0 < room
  | .testing _ => phase = .clear ∧ queueFull = false

theorem Placed.mono {queueFull : Bool} {room room' : Nat} {pc : Pc} (hle : room ≤ room')
    (h : Placed queueFull phase room pc) : Placed queueFull phase room' pc := by
  cases pc with
  | idle => exact ⟨h.1, fun hopen => ⟨(h.2 hopen).1, Nat.lt_of_lt_of_le (h.2 hopen).2 hle⟩⟩
  | measuring call => exact h
  | announcing call => exact ⟨h.1, Nat.le_trans h.2 hle⟩
  | adding call => exact ⟨h.1, h.2.1, Nat.lt_of_lt_of_le h.2.2 hle⟩
  | testing call => exact h

/-- The FIFO of `n` slots holds `q`, and the history that made it has come to `phase`. -/
structure Inv (settings : Settings) (n : Nat) (q : List EntryData) (phase : Phase) (s : State) :
    Prop where
  queue : Represents n s.fifo q
  refused : s.refused = 0
  entries : s.removed ++ q = s.history.flatMap (Event.entries settings)
  history : run accept .clear s.history = some phase
  placed : Placed s.queueFull phase (n - 1 - q.length) s.pc

theorem inv_initializeLogger {logEntryFIFO : Buffer EntryData} {overflowCount : UInt32}
    (hfifo : Represents n logEntryFIFO q) (hcapacity : settings.minQueueSpace.toNat ≤ n - 1) :
    Inv settings n [] .clear (initializeLogger logEntryFIFO overflowCount) := by
  have htwo := settings.two_le
  refine ⟨hfifo.clear, rfl, rfl, rfl, by rintro ⟨⟩, fun _ => ⟨rfl, ?_⟩⟩
  show 0 < n - 1 - 0
  omega

theorem Inv.available (h : Inv settings n q phase s) :
    (available s).toNat = n - 1 - q.length := by
  have hsize := h.queue.lt_size
  have hfits := h.queue.fits
  rw [Logger.available, UInt32.toNat_sub, h.queue.getMaxItems, h.queue.getNumItems]
  omega

theorem Inv.add (h : Inv settings n q phase s) (hroom : 0 < n - 1 - q.length)
    (entry : EntryData) :
    Represents n (add s entry).fifo (q ++ [entry]) ∧ (add s entry).refused = 0 := by
  have hlt : q.length < n - 1 := by omega
  obtain ⟨hadded, hqueue⟩ := h.queue.add entry
  rw [if_pos hlt] at hqueue
  rw [decide_eq_true hlt] at hadded
  refine ⟨hqueue, ?_⟩
  show (if (s.fifo.add entry).1 then s.refused else s.refused + 1) = 0
  rw [hadded, if_pos rfl, h.refused]

theorem Inv.snoc (h : Inv settings n q phase s) {event : Event} {next : Phase}
    (hnext : accept phase event = some next) :
    run accept .clear (s.history ++ [event]) = some next := by
  rw [run_snoc, h.history, Option.bind_some, hnext]

theorem Inv.append (h : Inv settings n q phase s) (event : Event) :
    s.removed ++ (q ++ event.entries settings) =
      (s.history ++ [event]).flatMap (Event.entries settings) := by
  rw [List.flatMap_append, ← h.entries, List.flatMap_singleton, List.append_assoc]

theorem inv_proceed (h : Inv settings n q phase s) {timestamp : UInt64}
    (hstep : proceed settings s timestamp = some s') :
    ∃ q' phase', Inv settings n q' phase' s' := by
  have hplaced := h.placed
  have hfits := h.queue.fits
  rw [proceed] at hstep
  cases hpc : s.pc with
  | idle =>
      rw [hpc] at hstep
      cases hstep
  | measuring call =>
      simp only [hpc] at hstep hplaced
      obtain ⟨hphase, hfull⟩ := hplaced
      split_ifs at hstep with hspace
      · obtain rfl := Option.some.inj hstep
        refine ⟨q, phase, h.queue, h.refused, h.entries, h.history, hphase, ?_⟩
        have htwo := settings.two_le
        rw [UInt32.le_iff_toNat_le, h.available] at hspace
        omega
      · obtain rfl := Option.some.inj hstep
        have hnext : accept phase (.dropped call) = some .dropping := by
          cases phase with
          | clear => rfl
          | dropping => rfl
          | announced => exact absurd rfl hphase
        refine ⟨q, .dropping, h.queue, h.refused, ?_, h.snoc hnext, by rintro ⟨⟩, ?_⟩
        · have happend := h.append (.dropped call)
          rwa [Event.entries, List.append_nil] at happend
        · intro hopen
          cases hfull.symm.trans hopen
  | announcing call =>
      simp only [hpc] at hstep hplaced
      obtain ⟨hphase, hroom⟩ := hplaced
      obtain rfl := Option.some.inj hstep
      obtain ⟨hqueue, hrefused⟩ := h.add (by omega) (overflowEntry settings timestamp)
      have hnext : accept phase (.announced timestamp) = some .announced := by
        cases phase with
        | clear => rfl
        | dropping => rfl
        | announced => exact absurd rfl hphase
      refine ⟨_, .announced, hqueue, hrefused, h.append (.announced timestamp), h.snoc hnext,
        by rintro ⟨⟩, rfl, ?_⟩
      rw [List.length_append, List.length_singleton]
      omega
  | adding call =>
      simp only [hpc] at hstep hplaced
      obtain ⟨hphase, hopen, hroom⟩ := hplaced
      obtain rfl := Option.some.inj hstep
      obtain ⟨hqueue, hrefused⟩ := h.add hroom call.entry
      have hnext : accept phase (.logged call) = some .clear := by
        cases phase with
        | clear => rfl
        | dropping => exact absurd rfl hphase
        | announced => rfl
      exact ⟨_, .clear, hqueue, hrefused, h.append (.logged call), h.snoc hnext, rfl, hopen⟩
  | testing call =>
      simp only [hpc] at hstep hplaced
      obtain ⟨rfl, hopen⟩ := hplaced
      obtain rfl := Option.some.inj hstep
      refine ⟨q, .clear, h.queue, h.refused, h.entries, h.history, by rintro ⟨⟩, ?_⟩
      intro hnotFull
      refine ⟨rfl, ?_⟩
      have hroom : q.length ≠ n - 1 := by
        intro hall
        rw [h.queue.isFull, decide_eq_true hall] at hnotFull
        cases hnotFull
      omega

theorem inv_log (h : Inv settings n q phase s) {call : LogCall}
    (hstep : step settings s (.log call) = some s') : Inv settings n q phase s' := by
  have hplaced := h.placed
  rw [step] at hstep
  cases hpc : s.pc with
  | idle =>
      simp only [hpc] at hstep hplaced
      obtain ⟨hphase, hclear⟩ := hplaced
      split_ifs at hstep with hdisabled hfull
      · obtain rfl := Option.some.inj hstep
        exact h
      · obtain rfl := Option.some.inj hstep
        exact ⟨h.queue, h.refused, h.entries, h.history, hphase, hfull⟩
      · obtain rfl := Option.some.inj hstep
        have hopen : s.queueFull = false := Bool.eq_false_of_not_eq_true hfull
        obtain ⟨rfl, hroom⟩ := hclear hopen
        exact ⟨h.queue, h.refused, h.entries, h.history, by rintro ⟨⟩, hopen, hroom⟩
  | measuring call => simp only [hpc, reduceCtorEq] at hstep
  | announcing call => simp only [hpc, reduceCtorEq] at hstep
  | adding call => simp only [hpc, reduceCtorEq] at hstep
  | testing call => simp only [hpc, reduceCtorEq] at hstep

theorem inv_mask (h : Inv settings n q phase s) {change : MaskChange}
    (hstep : step settings s (.mask change) = some s') : Inv settings n q phase s' := by
  rw [step] at hstep
  split at hstep
  · obtain rfl := Option.some.inj hstep
    exact ⟨h.queue, h.refused, h.entries, h.history, h.placed⟩
  · cases hstep

theorem inv_remove (h : Inv settings n q phase s) (hstep : step settings s .remove = some s') :
    Inv settings n q.tail phase s' := by
  obtain ⟨hremoved, hqueue⟩ := h.queue.remove
  obtain rfl := Option.some.inj hstep
  refine ⟨hqueue, h.refused, ?_, h.history, h.placed.mono ?_⟩
  · show s.removed ++ s.fifo.remove.1.toList ++ q.tail = _
    rw [hremoved, ← h.entries, List.append_assoc]
    cases q with
    | nil => rfl
    | cons entry rest => rfl
  · rw [List.length_tail]
    omega

theorem inv_step (h : Inv settings n q phase s) (hstep : step settings s action = some s') :
    ∃ q' phase', Inv settings n q' phase' s' := by
  cases action with
  | log call => exact ⟨q, phase, inv_log h hstep⟩
  | proceed timestamp => exact inv_proceed h hstep
  | mask change => exact ⟨q, phase, inv_mask h hstep⟩
  | remove => exact ⟨q.tail, phase, inv_remove h hstep⟩

theorem inv_run {actions : List Action} (h : Inv settings n q phase s)
    (hrun : run (step settings) s actions = some s') :
    ∃ q' phase', Inv settings n q' phase' s' := by
  refine invariant_always (I := fun s => ∃ q phase, Inv settings n q phase s) ?_ ⟨q, phase, h⟩ hrun
  rintro s action next ⟨q, phase, h⟩ hstep
  exact inv_step h hstep

theorem drain_eq {fifo : Buffer EntryData} {count : Nat} (hqueue : Represents n fifo q)
    (hcount : q.length ≤ count) : drain count fifo = q := by
  induction count generalizing fifo q with
  | zero =>
      obtain rfl := List.eq_nil_of_length_eq_zero (Nat.le_zero.mp hcount)
      rfl
  | succ count ih =>
      obtain ⟨hremoved, hrest⟩ := hqueue.remove
      have htail := ih hrest (by rw [List.length_tail]; omega)
      cases hfifo : fifo.remove with
      | mk first rest =>
          rw [hfifo] at hremoved htail
          rw [drain, hfifo]
          cases q with
          | nil =>
              obtain rfl : first = none := hremoved
              rfl
          | cons entry q =>
              obtain rfl : first = some entry := hremoved
              exact congrArg (entry :: ·) htail

theorem Inv.entries_eq (h : Inv settings n q phase s) :
    Logger.entries s = s.history.flatMap (Event.entries settings) := by
  rw [Logger.entries, drain_eq h.queue (Nat.le_of_eq h.queue.getNumItems.symm), h.entries]

/-- An overflow entry was added, or is about to be. -/
def Announces (s : State) : Prop :=
  (∃ event ∈ s.history, event.IsAnnounced) ∨ ∃ call, s.pc = .announcing call

theorem announced_snoc {history : List Event} {event : Event} :
    (∃ e ∈ history ++ [event], e.IsAnnounced) ↔
      (∃ e ∈ history, e.IsAnnounced) ∨ event.IsAnnounced := by
  simp only [List.mem_append, List.mem_singleton, or_and_right, exists_or, exists_eq_left]

theorem isAnnounced_logged {call : LogCall} : (Event.logged call).IsAnnounced ↔ False :=
  Iff.rfl

theorem isAnnounced_dropped {call : LogCall} : (Event.dropped call).IsAnnounced ↔ False :=
  Iff.rfl

theorem announces_proceed {timestamp : UInt64}
    (hstep : proceed settings s timestamp = some s') :
    Announces s' ↔ Announces s ∨ ¬KeepsDropping settings s (.proceed timestamp) := by
  rw [proceed] at hstep
  cases hpc : s.pc with
  | idle =>
      rw [hpc] at hstep
      cases hstep
  | measuring call =>
      have hkeeps : KeepsDropping settings s (.proceed timestamp) ↔
          available s < settings.minQueueSpace := by
        simp only [KeepsDropping, hpc, Pc.isMeasuring, forall_const]
      simp only [hpc] at hstep
      rw [hkeeps, UInt32.not_lt]
      split_ifs at hstep with hspace
      · obtain rfl := Option.some.inj hstep
        exact iff_of_true (.inr ⟨call, rfl⟩) (.inr hspace)
      · obtain rfl := Option.some.inj hstep
        simp only [Announces, announced_snoc, isAnnounced_dropped, hpc, hspace, reduceCtorEq,
          exists_false, or_false]
  | announcing call =>
      simp only [hpc] at hstep
      obtain rfl := Option.some.inj hstep
      refine iff_of_true (.inl ?_) (.inl (.inr ⟨call, hpc⟩))
      exact announced_snoc.mpr (.inr trivial)
  | adding call =>
      simp only [hpc] at hstep
      obtain rfl := Option.some.inj hstep
      simp only [Announces, announced_snoc, isAnnounced_logged, KeepsDropping, hpc, Pc.isMeasuring,
        reduceCtorEq, Bool.false_eq_true, exists_false, or_false, false_imp_iff, not_true]
  | testing call =>
      simp only [hpc] at hstep
      obtain rfl := Option.some.inj hstep
      simp only [Announces, KeepsDropping, hpc, Pc.isMeasuring, reduceCtorEq, Bool.false_eq_true,
        exists_false, or_false, false_imp_iff, not_true]

theorem announces_step (hstep : step settings s action = some s') :
    Announces s' ↔ Announces s ∨ ¬KeepsDropping settings s action := by
  cases action with
  | log call =>
      have hkeeps : KeepsDropping settings s (.log call) := trivial
      rw [or_iff_left (not_not_intro hkeeps)]
      rw [step] at hstep
      split at hstep
      · rename_i hpc
        split_ifs at hstep
        · rw [Option.some.inj hstep]
        · obtain rfl := Option.some.inj hstep
          simp only [Announces, hpc, reduceCtorEq, exists_false]
        · obtain rfl := Option.some.inj hstep
          simp only [Announces, hpc, reduceCtorEq, exists_false]
      · cases hstep
  | proceed timestamp => exact announces_proceed hstep
  | mask change =>
      have hkeeps : KeepsDropping settings s (.mask change) := trivial
      rw [or_iff_left (not_not_intro hkeeps)]
      rw [step] at hstep
      split at hstep
      · obtain rfl := Option.some.inj hstep
        rfl
      · cases hstep
  | remove =>
      have hkeeps : KeepsDropping settings s .remove := trivial
      rw [or_iff_left (not_not_intro hkeeps)]
      obtain rfl := Option.some.inj hstep
      rfl

/-- No FIFO add fails.  The entries are accounted for as long as no run of dropped calls has ended,
and once one has they are not. -/
theorem accounted_iff {logEntryFIFO : Buffer EntryData} {overflowCount : UInt32}
    {actions : List Action} (hfifo : Represents n logEntryFIFO q)
    (hcapacity : settings.minQueueSpace.toNat ≤ n - 1)
    (hrun : run (step settings) (initializeLogger logEntryFIFO overflowCount) actions = some s) :
    s.refused = 0 ∧
      (AllSteps (step settings) (KeepsDropping settings)
        (initializeLogger logEntryFIFO overflowCount) actions → Accounted settings s) ∧
      (s.pc = .idle → Accounted settings s →
        AllSteps (step settings) (KeepsDropping settings)
          (initializeLogger logEntryFIFO overflowCount) actions) := by
  obtain ⟨queued, phase, hinv⟩ := inv_run (inv_initializeLogger hfifo hcapacity) hrun
  have hmark := mark_iff (fun _ _ _ => announces_step) hrun
  have hstart : ¬Announces (initializeLogger logEntryFIFO overflowCount) := by
    rintro (⟨event, ⟨⟩, -⟩ | ⟨call, ⟨⟩⟩)
  rw [or_iff_right hstart] at hmark
  rw [Accounted, hinv.entries_eq]
  refine ⟨hinv.refused, ?_, ?_⟩
  · intro hall
    have hnone : ¬Announces s := fun hannounces => hmark.mp hannounces hall
    refine accounted_of_not_announced ?_ hinv.history (by rintro ⟨⟩) fun _ => rfl
    exact fun event hevent hannounced => hnone (.inl ⟨event, hevent, hannounced⟩)
  · intro hidle haccounted
    have hplaced := hinv.placed
    rw [hidle] at hplaced
    have hnone := not_announced_of_accounted hinv.history hplaced.1 (by rintro ⟨⟩) (fun _ => rfl)
      haccounted
    by_contra hnot
    rcases hmark.mpr hnot with ⟨event, hevent, hannounced⟩ | ⟨call, hcall⟩
    · exact hnone event hevent hannounced
    · cases hidle.symm.trans hcall

end Steps

/-- The settings of the unit tests, with the default number of empty slots. -/
def testSettings : Settings :=
  { minQueueSpace := 3
    two_le := by decide
    overflowCatId := 2
    overflowCatText := "WARNING".toList
    overflowMsgId := 1
    overflowMsgText := "LOGGING_OVERFLOW".toList }

def testFifo : Buffer EntryData :=
  Buffer.init 6 (List.replicate 6 EntryData.init)

def testCall : LogCall :=
  { category := 1
    catIdText := "CRITICAL".toList
    msgId := 1
    msgIdText := "BOB_HAPPENED".toList
    text := "dang that bob!".toList
    timestamp := 100 }

/-- Five calls fill the FIFO and the next four are dropped. -/
def nineCalls : List Action :=
  (List.replicate 5 [.log testCall, .proceed 0, .proceed 0]).flatten ++
    (List.replicate 4 [.log testCall, .proceed 0]).flatten

theorem accounted_nine_calls :
    ∃ s, run (step testSettings) (initializeLogger testFifo 0) nineCalls = some s ∧
      s.overflowCount = 4 ∧ Accounted testSettings s := by
  refine ⟨_, rfl, rfl, ?_⟩
  have hfifo : Represents 6 testFifo [] := @represents_init _ 6 (by decide) _ rfl
  have hspec := @accounted_iff testSettings 6 _ [] testFifo 0 nineCalls hfifo (by decide) rfl
  exact hspec.2.1 (by decide)

/-- The consumer takes the five entries, and the next call ends the run of dropped calls. -/
theorem not_accounted_overflow : ¬∀ (settings : Settings) (n : Nat)
    (logEntryFIFO : Buffer EntryData) (q : List EntryData) (overflowCount : UInt32)
    (actions : List Action) (s : State),
    Represents n logEntryFIFO q → settings.minQueueSpace.toNat ≤ n - 1 →
      run (step settings) (initializeLogger logEntryFIFO overflowCount) actions = some s →
        s.pc = .idle → Accounted settings s := by
  intro hall
  have hfifo : Represents 6 testFifo [] := @represents_init _ 6 (by decide) _ rfl
  have haccounted := hall testSettings 6 testFifo [] 0
    (nineCalls ++ List.replicate 5 .remove ++
      [.log testCall, .proceed 0, .proceed 0, .proceed 0, .proceed 0]) _ hfifo (by decide) rfl rfl
  obtain ⟨-, -, hdigits⟩ : States testSettings (overflowEntry testSettings 0) (.overflow 4) :=
    haccounted.get (show 5 < _ by decide) (by decide)
  exact Nat.toDigits_ne_nil (List.infix_nil.mp hdigits)

end ColonyPico.Logging.Logger
