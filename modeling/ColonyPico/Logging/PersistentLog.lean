import ColonyPico.Logging.Logger
import ColonyPico.Persistent.BoundedLog
import ColonyPico.Persistent.IndexedEntryServer

/-!
The log of an application: the logger, its FIFO, the server that empties it and the record that
keeps the entries, through power failures and restarts.
-/

namespace ColonyPico.Logging.PersistentLog

open Logger
open ColonyPico.Container.RingBuffer
open ColonyPico.Foundations.ByteStore (toBytes length_toBytes)
open ColonyPico.Foundations.Runs
open ColonyPico.Persistent
open ColonyPico.Persistent.IndexedEntryServer (serves_add serves_init)

section Payload

/-- `EntryData_T::entryLen`. -/
def entryLen : Nat := 8 + 4 + 2 + (maxMsgTextLen + 1)

/-- `msgText`, with zeros behind the text. -/
def msgTextBytes (text : List Char) : List UInt8 :=
  text.map (fun c => UInt8.ofNat c.toNat) ++ List.replicate (maxMsgTextLen + 1 - text.length) 0

/-- `EntryData_T::getData()`. -/
def getData (entry : EntryData) (maxDstLen : Nat) : List UInt8 :=
  if entryLen ≤ maxDstLen then
    toBytes 8 entry.timestamp.toNat ++ toBytes 4 entry.category.toNat ++
      toBytes 2 entry.msgId.toNat ++ msgTextBytes entry.msgText
  else []

theorem getData_ne_nil (entry : EntryData) {maxDstLen : Nat} (h : entryLen ≤ maxDstLen) :
    getData entry maxDstLen ≠ [] := by
  intro hnil
  have hlength := congrArg List.length hnil
  rw [getData, if_pos h] at hlength
  simp only [List.length_append, length_toBytes, List.length_nil] at hlength
  omega

end Payload

/-- The application: a FIFO that the logger accepts and that has room for fewer entries than there
are sequence numbers, and a record whose entries have room for the payload. -/
structure Config where
  settings : Settings
  maxElements : UInt32
  memory : List EntryData
  geometry : IndexedEntryRecord.Geometry
  maxDstLen : Nat
  length_memory : memory.length = maxElements.toNat
  minQueueSpace_le : settings.minQueueSpace.toNat ≤ maxElements.toNat - 1
  maxElements_le : maxElements.toNat ≤ 65528
  entryLen_le : entryLen ≤ maxDstLen

/-- The FIFO of the logger is the buffer of the server. `operations` records what was done to the
record since the region was a virgin one. -/
structure State where
  logger : Logger.State
  server : IndexedEntryServer.State EntryData
  storage : IndexedEntryRecord.State
  operations : List IndexedEntryRecord.Step

inductive Action where
  /-- A thread logs or changes the mask, or goes on logging. -/
  | thread (action : Logger.Action)
  /-- The thread of the server goes on. -/
  | serve (action : IndexedEntryServer.Action EntryData)
  /-- The application starts, the log is cleared, or power is lost. -/
  | record (st : IndexedEntryRecord.Step)

variable (config : Config)

namespace State

variable (s : State)

/-- The entry that the next section of the logging thread adds to the FIFO. -/
def queued : Logger.Action → Option EntryData
  | .proceed timestamp =>
      match s.logger.pc with
      | .announcing _ => some (overflowEntry config.settings timestamp)
      | .adding call => some call.entry
      | _ => none
  | _ => none

def perform (st : IndexedEntryRecord.Step) : State :=
  { s with
    storage := IndexedEntryRecord.step config.geometry s.storage st
    operations := s.operations ++ [st] }

/-- The application starts, and with it the record. -/
def boot : State :=
  let fifo := Buffer.init config.maxElements config.memory
  let server := IndexedEntryServer.init config.maxElements config.memory false
  { s.perform config .start with
    -- `clearTheBuffer()` also clears the count of the elements
    logger := initializeLogger fifo 0
    server := { server with
      buffer := fifo.clearTheBuffer
      world := IndexedEntryServer.write server.world 0 } }

def isRunning : Bool :=
  s.storage.record.isSome

/-- What else the next step of `elementCountChanged()` does: an entry has left the FIFO, or is
written. -/
def goOn : State :=
  match s.server.pc with
  | .looping iterations =>
      if iterations < IndexedEntryServer.maxBatchWrite then
        { s with
          logger := { s.logger with
            fifo := s.logger.fifo.remove.2
            removed := s.logger.removed ++ s.logger.fifo.remove.1.toList } }
      else s
  | .adding _ entry => s.perform config (.addEntry (getData entry config.maxDstLen))
  | _ => s

def thread : Logger.Action → Option State
  | .remove => none
  | action =>
      (Logger.step config.settings s.logger action).map fun logger =>
        { s with
          logger := logger
          server := (s.queued config action).elim s.server (IndexedEntryServer.add s.server) }

def serve : IndexedEntryServer.Action EntryData → Option State
  | .add _ => none
  | .go =>
      (IndexedEntryServer.go s.server).map fun server => { s.goOn config with server := server }
  | action =>
      (IndexedEntryServer.step s.server action).map fun server => { s with server := server }

def record : IndexedEntryRecord.Step → Option State
  | .start => if s.isRunning then none else some (s.boot config)
  | .startCut => if s.isRunning then none else some (s.perform config .startCut)
  | .crash => some (s.perform config .crash)
  | .addEntry _ => none
  | .addEntryCut cut =>
      match s.isRunning, s.server.pc with
      | true, .adding _ _ => some (s.perform config (.addEntryCut cut))
      | _, _ => none
  -- the message is handled by the server's thread, between notifications
  | .clearAllEntries =>
      if s.isRunning = true ∧ s.server.world.loop () = .idle then
        some (s.perform config .clearAllEntries)
      else none
  | .clearCut cut =>
      if s.isRunning = true ∧ s.server.world.loop () = .idle then
        some (s.perform config (.clearCut cut))
      else none

end State

def step (s : State) : Action → Option State
  | .thread action => if s.isRunning then s.thread config action else none
  | .serve action => if s.isRunning then s.serve config action else none
  | .record st => s.record config st

/-- A virgin region, and no power. -/
def State.init : State :=
  { logger := initializeLogger (Buffer.init config.maxElements config.memory) 0
    server := IndexedEntryServer.init config.maxElements config.memory false
    storage := IndexedEntryRecord.State.virgin
    operations := [] }

/-- The timestamps of the record have not come to their end. -/
def Counts (s : State) (_ : Action) : Prop :=
  ∀ r ∈ s.storage.record, CrashRecovery.Counts r

instance (s : State) (action : Action) : Decidable (Counts s action) :=
  inferInstanceAs (Decidable (∀ r ∈ s.storage.record, CrashRecovery.Counts r))

/-- What the record holds while it runs: `window` from the last start or clear on, and behind that
the entries `kept`. -/
def kept (window : List (Option (List UInt8))) (kept : List EntryData) :
    List (Option (List UInt8)) :=
  (window ++ kept.map fun entry => some (getData entry config.maxDstLen)).drop kept.length

/-- The operations up to the last start or clear of the record, and the entries that were written
before it, since the application started, and behind it. -/
structure Since (s : State) (before : List IndexedEntryRecord.Step)
    (gone entries : List EntryData) : Prop where
  operations : s.operations =
    before ++ entries.map fun entry => .addEntry (getData entry config.maxDstLen)
  written : s.server.written = gone ++ entries
  last : before.getLast? = some .start ∧ gone = [] ∨ before.getLast? = some .clearAllEntries

/-- The entries that were written are those that were logged, in their order, and the last of them
are in the record behind what it held at the last start or clear. -/
structure Conserves (s : State) : Prop where
  refused : s.logger.refused = 0
  inOrder : ∃ q, Shows config.maxElements.toNat s.logger.fifo q ∧
    s.logger.history.flatMap (Event.entries config.settings) =
      s.server.written ++ s.server.pc.inHand ++ q
  drained : s.server.opened = true →
    (s.server.world.subscriber ()).state ≠ .notifyPending →
      (s.server.world.subscriber ()).state ≠ .notifyNotifying →
        s.server.written = s.logger.history.flatMap (Event.entries config.settings)
  kept : ∃ before window gone entries r, Since config s before gone entries ∧
    BoundedLog.Log.Reaches config.geometry.maxEntries before ⟨window, true⟩ ∧
      s.storage.record = some r ∧
      BoundedLog.ReadsBack config.geometry s.storage.media r
        (PersistentLog.kept config window entries).reduceOption.reverse

/-- The logger and the server agree on the FIFO and on what has passed through it. -/
structure Joint (s : State) : Prop where
  logs : ∃ q phase, Logger.Inv config.settings config.maxElements.toNat q phase s.logger
  serves : ∃ q, IndexedEntryServer.Serves config.maxElements.toNat s.server q
  shared : s.logger.fifo = s.server.buffer
  accepted : s.server.accepted = s.logger.history.flatMap (Event.entries config.settings)

/-- What the record shows is what it held at the last start or clear, and the entries behind. -/
def Recorded (s : State) : Prop :=
  ∃ before window gone entries, Since config s before gone entries ∧
    BoundedLog.Log.Reaches config.geometry.maxEntries before ⟨window, true⟩ ∧
      BoundedLog.Shows config.geometry s.storage ⟨kept config window entries, true⟩

structure Inv (s : State) : Prop where
  storage : s.storage = CrashRecovery.run config.geometry s.operations
  covered : CrashRecovery.AllCovered config.geometry IndexedEntryRecord.State.virgin s.operations
  running : s.isRunning = true → Joint config s ∧ Recorded config s

/-- What a section of the logging thread does to the FIFO and the history. -/
structure Queues (s : State) (logger : Logger.State) (queued : Option EntryData) : Prop where
  fifo : logger.fifo = queued.elim s.logger.fifo fun entry => (s.logger.fifo.add entry).2
  history : logger.history.flatMap (Event.entries config.settings) =
    s.logger.history.flatMap (Event.entries config.settings) ++ queued.toList
  added : logger.refused = 0 → ∀ entry ∈ queued, (s.logger.fifo.add entry).1 = true

section Steps

variable {config}
variable {s s' : State} {q : List EntryData} {phase : Phase}

theorem queues_nothing {logger : Logger.State} (hfifo : logger.fifo = s.logger.fifo)
    (hhistory : logger.history.flatMap (Event.entries config.settings) =
      s.logger.history.flatMap (Event.entries config.settings)) : Queues config s logger none :=
  ⟨hfifo, by rw [hhistory, Option.toList_none, List.append_nil], nofun⟩

theorem queues_event {logger : Logger.State} {event : Event} {entry : EntryData}
    (hentries : event.entries config.settings = [entry])
    (hfifo : logger.fifo = (s.logger.fifo.add entry).2)
    (hhistory : logger.history = s.logger.history ++ [event])
    (hrefused : logger.refused =
      if (s.logger.fifo.add entry).1 then s.logger.refused else s.logger.refused + 1) :
    Queues config s logger (some entry) := by
  refine ⟨hfifo, ?_, ?_⟩
  · rw [hhistory, List.flatMap_append, List.flatMap_singleton, hentries, Option.toList_some]
  · rintro hzero added ⟨⟩
    by_contra hfull
    rw [hrefused, if_neg hfull] at hzero
    omega

theorem queues_proceed {timestamp : UInt64} {logger : Logger.State}
    (hstep : Logger.proceed config.settings s.logger timestamp = some logger) :
    Queues config s logger (s.queued config (.proceed timestamp)) := by
  rw [Logger.proceed] at hstep
  rw [State.queued]
  cases hpc : s.logger.pc with
  | idle =>
      rw [hpc] at hstep
      cases hstep
  | measuring call =>
      simp only [hpc] at hstep
      split_ifs at hstep
      · obtain rfl := Option.some.inj hstep
        exact queues_nothing rfl rfl
      · obtain rfl := Option.some.inj hstep
        refine queues_nothing rfl ?_
        rw [List.flatMap_append, List.flatMap_singleton, Event.entries, List.append_nil]
  | announcing call =>
      simp only [hpc] at hstep
      obtain rfl := Option.some.inj hstep
      exact queues_event rfl rfl rfl rfl
  | adding call =>
      simp only [hpc] at hstep
      obtain rfl := Option.some.inj hstep
      exact queues_event rfl rfl rfl rfl
  | testing call =>
      simp only [hpc] at hstep
      obtain rfl := Option.some.inj hstep
      exact queues_nothing rfl rfl

theorem queues_thread {action : Logger.Action} {logger : Logger.State}
    (hremove : action ≠ .remove)
    (hstep : Logger.step config.settings s.logger action = some logger) :
    Queues config s logger (s.queued config action) := by
  cases action with
  | remove => exact absurd rfl hremove
  | proceed timestamp => exact queues_proceed hstep
  | log call =>
      rw [Logger.step] at hstep
      split at hstep
      · split_ifs at hstep
        · obtain rfl := Option.some.inj hstep
          exact queues_nothing rfl rfl
        · obtain rfl := Option.some.inj hstep
          exact queues_nothing rfl rfl
        · obtain rfl := Option.some.inj hstep
          exact queues_nothing rfl rfl
      · cases hstep
  | mask change =>
      rw [Logger.step] at hstep
      split at hstep
      · obtain rfl := Option.some.inj hstep
        exact queues_nothing rfl rfl
      · cases hstep

theorem thread_eq {action : Logger.Action} (hstep : s.thread config action = some s') :
    action ≠ .remove ∧ ∃ logger, Logger.step config.settings s.logger action = some logger ∧
      s' = { s with
        logger := logger
        server := (s.queued config action).elim s.server (IndexedEntryServer.add s.server) } := by
  cases action with
  | remove => cases hstep
  | log | proceed | mask =>
      obtain ⟨logger, hlogger, rfl⟩ := Option.map_eq_some_iff.mp hstep
      exact ⟨nofun, logger, hlogger, rfl⟩

/-- The FIFO takes what the logger queues. -/
theorem joint_thread (h : Joint config s) {action : Logger.Action}
    (hstep : s.thread config action = some s') :
    Joint config s' ∧ s'.storage = s.storage ∧ s'.operations = s.operations ∧
      s'.server.written = s.server.written := by
  obtain ⟨hremove, logger, hlogger, rfl⟩ := thread_eq hstep
  obtain ⟨q, phase, hinv⟩ := h.logs
  obtain ⟨q', hserves⟩ := h.serves
  obtain ⟨q'', phase', hinv'⟩ := Logger.inv_step hinv hlogger
  obtain ⟨hfifo, hhistory, hadded⟩ := queues_thread hremove hlogger
  cases hqueued : s.queued config action with
  | none =>
      rw [hqueued] at hfifo hhistory
      rw [Option.toList_none, List.append_nil] at hhistory
      exact ⟨⟨⟨_, _, hinv'⟩, ⟨_, hserves⟩, hfifo.trans h.shared, h.accepted.trans hhistory.symm⟩,
        rfl, rfl, rfl⟩
  | some entry =>
      rw [hqueued] at hfifo hhistory
      have htaken := hadded hinv'.refused entry hqueued
      rw [h.shared] at htaken
      have hserver := serves_add hserves entry
      have hadd : IndexedEntryServer.add s.server entry =
          { s.server with
            buffer := (s.server.buffer.add entry).2
            world := IndexedEntryServer.incrementMp s.server.world
            accepted := s.server.accepted ++ [entry] } := by
        simp only [IndexedEntryServer.add, htaken, if_true]
      rw [hadd] at hserver
      rw [Option.elim_some, hadd]
      refine ⟨⟨⟨_, _, hinv'⟩, hserver, ?_, ?_⟩, rfl, rfl, rfl⟩
      · rw [h.shared] at hfifo
        exact hfifo
      · rw [hhistory, ← h.accepted]
        rfl

/-- Outside of `elementCountChanged()` the server leaves the buffer and the record alone. -/
theorem server_frame {server server' : IndexedEntryServer.State EntryData}
    {action : IndexedEntryServer.Action EntryData} (hadd : ∀ entry, action ≠ .add entry)
    (hgo : action ≠ .go) (hstep : IndexedEntryServer.step server action = some server') :
    server'.buffer = server.buffer ∧ server'.accepted = server.accepted ∧
      server'.written = server.written := by
  cases action with
  | add entry => exact absurd rfl (hadd entry)
  | go => exact absurd rfl hgo
  | openServer =>
      simp only [IndexedEntryServer.step] at hstep
      split_ifs at hstep
      obtain rfl := Option.some.inj hstep
      exact ⟨rfl, rfl, rfl⟩
  | popPending =>
      simp only [IndexedEntryServer.step] at hstep
      split_ifs at hstep
      obtain rfl := Option.some.inj hstep
      exact ⟨rfl, rfl, rfl⟩
  | beginCallback =>
      simp only [IndexedEntryServer.step] at hstep
      split_ifs at hstep
      obtain rfl := Option.some.inj hstep
      exact ⟨rfl, rfl, rfl⟩
  | notifyComplete =>
      simp only [IndexedEntryServer.step] at hstep
      split at hstep
      · obtain rfl := Option.some.inj hstep
        exact ⟨rfl, rfl, rfl⟩
      · cases hstep

theorem Joint.serves_step (h : Joint config s) {action : IndexedEntryServer.Action EntryData}
    {server : IndexedEntryServer.State EntryData}
    (hstep : IndexedEntryServer.step s.server action = some server) :
    ∃ q, IndexedEntryServer.Serves config.maxElements.toNat server q := by
  obtain ⟨q, hserves⟩ := h.serves
  refine IndexedEntryServer.serves_step hserves ⟨action, hstep, fun _ => .inl ?_⟩
  rw [UInt32.le_iff_toNat_le, hserves.represents.numElements]
  exact config.maxElements_le

theorem joint_serve (h : Joint config s) {action : IndexedEntryServer.Action EntryData}
    (hgo : action ≠ .go) (hstep : s.serve config action = some s') :
    Joint config s' ∧ s'.storage = s.storage ∧ s'.operations = s.operations ∧
      s'.server.written = s.server.written := by
  have hadd : ∀ entry, action ≠ .add entry := by
    rintro entry rfl
    cases hstep
  have hserve : s.serve config action =
      (IndexedEntryServer.step s.server action).map fun server => { s with server := server } := by
    cases action with
    | add entry => exact absurd rfl (hadd entry)
    | go => exact absurd rfl hgo
    | openServer | popPending | beginCallback | notifyComplete => rfl
  rw [hserve] at hstep
  obtain ⟨server, hserver, rfl⟩ := Option.map_eq_some_iff.mp hstep
  obtain ⟨hbuffer, haccepted, hwritten⟩ := server_frame hadd hgo hserver
  exact ⟨⟨h.logs, h.serves_step hserver, h.shared.trans hbuffer.symm,
    haccepted.trans h.accepted⟩, rfl, rfl, hwritten⟩

/-- An entry leaves the FIFO of the logger when it leaves the buffer of the server. -/
theorem joint_looping (h : Joint config s) {iterations : Nat}
    (hpc : s.server.pc = .looping iterations) {server : IndexedEntryServer.State EntryData}
    (hgo : IndexedEntryServer.go s.server = some server) :
    Joint config { s.goOn config with server := server } ∧ server.written = s.server.written := by
  obtain ⟨q, hserves⟩ := h.serves
  obtain ⟨queued, phase, hinv⟩ := h.logs
  have hserves' := h.serves_step (show IndexedEntryServer.step s.server .go = some server from hgo)
  obtain ⟨hremoved, -⟩ := hserves.represents.remove
  simp only [IndexedEntryServer.go, hpc] at hgo
  simp only [State.goOn, hpc]
  by_cases hmore : iterations < IndexedEntryServer.maxBatchWrite
  · rw [if_pos hmore] at hgo ⊢
    have hlogs := Logger.inv_remove hinv rfl
    have hbuffer : server.buffer = s.server.buffer.remove.2 ∧
        server.accepted = s.server.accepted ∧ server.written = s.server.written := by
      rcases hremove : s.server.buffer.remove with ⟨- | entry, buffer⟩
      · rw [hremove] at hgo hremoved
        obtain rfl := Option.some.inj hgo
        have hempty : s.server.buffer.isEmpty = true := by
          rw [hserves.represents.isEmpty, List.head?_eq_none_iff.mp hremoved.symm]
          rfl
        rw [Buffer.remove, if_pos hempty] at hremove
        exact ⟨(Prod.mk.inj hremove).2, rfl, rfl⟩
      · rw [hremove] at hgo
        obtain rfl := Option.some.inj hgo
        exact ⟨rfl, rfl, rfl⟩
    obtain ⟨hbuffer, haccepted, hwritten⟩ := hbuffer
    refine ⟨⟨⟨_, _, hlogs⟩, hserves', ?_, haccepted.trans h.accepted⟩, hwritten⟩
    rw [hbuffer, ← h.shared]
  · rw [if_neg hmore] at hgo ⊢
    obtain rfl := Option.some.inj hgo
    exact ⟨⟨h.logs, hserves', h.shared, h.accepted⟩, rfl⟩

theorem Inv.stateOk (h : Inv config s) : CrashRecovery.StateOk config.geometry s.storage := by
  rw [h.storage]
  exact CrashRecovery.stateOk_foldl (CrashRecovery.stateOk_virgin _) _ h.covered

theorem recorded_congr (h : Recorded config s) (hstorage : s'.storage = s.storage)
    (hoperations : s'.operations = s.operations) (hwritten : s'.server.written = s.server.written) :
    Recorded config s' := by
  obtain ⟨before, window, gone, entries, hsince, hreaches, hshows⟩ := h
  refine ⟨before, window, gone, entries, ⟨hoperations.trans hsince.operations,
    hwritten.trans hsince.written, hsince.last⟩, hreaches, ?_⟩
  rw [hstorage]
  exact hshows

theorem inv_congr (h : Inv config s) (hstorage : s'.storage = s.storage)
    (hoperations : s'.operations = s.operations)
    (hrunning : s'.isRunning = true → Joint config s' ∧ Recorded config s') : Inv config s' := by
  refine ⟨?_, ?_, hrunning⟩
  · rw [hstorage, hoperations]
    exact h.storage
  · rw [hoperations]
    exact h.covered

/-- An operation that the recovery covers is one more of a covered run. -/
theorem inv_perform (h : Inv config s) (st : IndexedEntryRecord.Step)
    (hcovered : CrashRecovery.Covered s.storage st)
    (hstorage : s'.storage = IndexedEntryRecord.step config.geometry s.storage st)
    (hoperations : s'.operations = s.operations ++ [st])
    (hrunning : s'.isRunning = true → Joint config s' ∧ Recorded config s') : Inv config s' := by
  refine ⟨?_, ?_, hrunning⟩
  · rw [hstorage, hoperations, CrashRecovery.run, List.foldl_concat, ← CrashRecovery.run,
      ← h.storage]
  · rw [hoperations, BoundedLog.allCovered_concat]
    refine ⟨h.covered, ?_⟩
    rw [← CrashRecovery.run, ← h.storage]
    exact hcovered

/-- After a start or a clear the record is the window that the entries go behind. -/
theorem recorded_from (h : Inv config s) (st : IndexedEntryRecord.Step)
    (hcovered : CrashRecovery.Covered s.storage st) (hrunning : s'.isRunning = true)
    (hstorage : s'.storage = IndexedEntryRecord.step config.geometry s.storage st)
    (hoperations : s'.operations = s.operations ++ [st])
    (hlast : st = .start ∧ s'.server.written = [] ∨ st = .clearAllEntries) :
    Recorded config s' := by
  obtain ⟨l, hreaches, hshows⟩ := BoundedLog.shows_run config.geometry s.operations h.covered
  rw [← h.storage] at hshows
  obtain ⟨⟨window, running⟩, hstep, hshows'⟩ := BoundedLog.shows_step h.stateOk hshows st hcovered
  rw [← hstorage] at hshows'
  obtain rfl : running = true := hshows'.running.trans hrunning
  refine ⟨s.operations ++ [st], window, s'.server.written, [], ⟨?_, ?_, ?_⟩,
    .step hreaches hstep, ?_⟩
  · rw [List.map_nil, List.append_nil]
    exact hoperations
  · rw [List.append_nil]
  · rw [List.getLast?_concat, Option.some.injEq, Option.some.injEq]
    exact hlast
  · rw [kept, List.map_nil, List.append_nil]
    exact hshows'

theorem kept_concat {window : List (Option (List UInt8))} (hne : window ≠ [])
    (entries : List EntryData) (entry : EntryData) :
    kept config window (entries ++ [entry]) =
      (kept config window entries).tail ++ [some (getData entry config.maxDstLen)] := by
  have hpos := List.length_pos_iff.mpr hne
  rw [kept, kept, List.map_append, List.map_singleton, ← List.append_assoc, List.length_append,
    List.length_singleton, List.drop_append_of_le_length, List.tail_drop]
  rw [List.length_append, List.length_map]
  omega

/-- The server writes an entry. -/
theorem recorded_adding (hok : CrashRecovery.StateOk config.geometry s.storage)
    (h : Recorded config s) {entry : EntryData} {r : IndexedEntryRecord.Record}
    (hr : s.storage.record = some r) (hcounts : CrashRecovery.Counts r)
    (hstorage : s'.storage = IndexedEntryRecord.step config.geometry s.storage
      (.addEntry (getData entry config.maxDstLen)))
    (hoperations : s'.operations = s.operations ++ [.addEntry (getData entry config.maxDstLen)])
    (hwritten : s'.server.written = s.server.written ++ [entry]) : Recorded config s' := by
  obtain ⟨before, window, gone, entries, hsince, hreaches, hshows⟩ := h
  have hstored : s.storage = { media := s.storage.media, record := some r } := by
    rw [← hr]
  rw [hstored] at hshows
  have hshows' := BoundedLog.shows_addEntry (hok.2 r hr) (getData entry config.maxDstLen)
    (getData_ne_nil entry config.entryLen_le) hcounts hshows
  have hne : window ≠ [] := by
    have hlength : (kept config window entries).length = window.length := by
      rw [kept, List.length_drop, List.length_append, List.length_map, Nat.add_sub_cancel]
    have hpos := CrashRecovery.maxEntries_pos config.geometry
    rw [← hshows.length] at hpos
    exact List.length_pos_iff.mp (hlength ▸ hpos)
  refine ⟨before, window, gone, entries ++ [entry], ⟨?_, ?_, hsince.last⟩, hreaches, ?_⟩
  · rw [hoperations, hsince.operations, List.map_append, List.append_assoc]
    rfl
  · rw [hwritten, hsince.written, List.append_assoc]
  · rw [hstorage, kept_concat hne, hstored]
    exact hshows'

theorem joint_boot (s : State) : Joint config (s.boot config) := by
  have hsize : 0 < config.maxElements.toNat := by
    have htwo := config.settings.two_le
    have hspace := config.minQueueSpace_le
    omega
  have hserves := serves_init (by rw [UInt32.lt_iff_toNat_lt]; exact hsize) config.length_memory
    false
  have hlogs := @inv_initializeLogger _ _ _ _ 0 hserves.represents config.minQueueSpace_le
  obtain ⟨hinv, hunlocked, hvalid, hdata, -, -, -, hstate⟩ :=
    @IndexedEntryServer.write_eq _ _ hserves.inv hserves.unlocked 0 nofun
  refine ⟨⟨_, _, hlogs⟩, ⟨[], hinv, hunlocked, hserves.represents.clear, rfl, ?_, .inl ⟨rfl, ?_⟩,
    trivial, trivial⟩, rfl, rfl⟩
  · have hcounts : (IndexedEntryServer.mp (IndexedEntryServer.write (IndexedEntryServer.init
        config.maxElements config.memory false).world 0)).data.toNat = 0 := by rw [hdata]; rfl
    exact (if_pos hvalid).mpr hcounts
  · exact hstate

/-- The steps of `elementCountChanged()` that neither take an entry nor write one. -/
theorem joint_go (h : Joint config s) {server : IndexedEntryServer.State EntryData}
    (hlooping : ∀ iterations, s.server.pc ≠ .looping iterations)
    (hadding : ∀ iterations entry, s.server.pc ≠ .adding iterations entry)
    (hgo : IndexedEntryServer.go s.server = some server) :
    s.goOn config = s ∧ Joint config { s with server := server } ∧
      server.written = s.server.written := by
  have hserves := h.serves_step (show IndexedEntryServer.step s.server .go = some server from hgo)
  rw [IndexedEntryServer.go] at hgo
  rw [State.goOn]
  cases hpc : s.server.pc with
  | looping iterations => exact absurd hpc (hlooping iterations)
  | adding iterations entry => exact absurd hpc (hadding iterations entry)
  | outside | returned =>
      rw [hpc] at hgo
      cases hgo
  | called | read | removed | counting =>
      rw [hpc] at hgo
      obtain rfl := Option.some.inj hgo
      exact ⟨rfl, ⟨h.logs, hserves, h.shared, h.accepted⟩, rfl⟩

theorem inv_adding (h : Inv config s) (hcounts : ∀ r ∈ s.storage.record, CrashRecovery.Counts r)
    (hrunning : s.isRunning = true) {iterations : Nat} {entry : EntryData}
    (hpc : s.server.pc = .adding iterations entry) {server : IndexedEntryServer.State EntryData}
    (hgo : IndexedEntryServer.go s.server = some server) :
    Inv config { s.goOn config with server := server } := by
  obtain ⟨hjoint, hrecorded⟩ := h.running hrunning
  obtain ⟨r, hr⟩ := Option.isSome_iff_exists.mp hrunning
  have hserves := hjoint.serves_step
    (show IndexedEntryServer.step s.server .go = some server from hgo)
  simp only [IndexedEntryServer.go, hpc] at hgo
  obtain rfl := Option.some.inj hgo
  have hon : s.goOn config =
      s.perform config (.addEntry (getData entry config.maxDstLen)) := by
    rw [State.goOn, hpc]
  have hcovered : CrashRecovery.Covered s.storage (.addEntry (getData entry config.maxDstLen)) :=
    ⟨getData_ne_nil entry config.entryLen_le, hcounts⟩
  rw [hon]
  refine inv_perform h _ hcovered rfl rfl fun _ => ⟨?_, ?_⟩
  · exact ⟨hjoint.logs, hserves, hjoint.shared, hjoint.accepted⟩
  · exact recorded_adding h.stateOk hrecorded hr (hcounts r hr) rfl rfl rfl

theorem inv_go (h : Inv config s) (hcounts : ∀ r ∈ s.storage.record, CrashRecovery.Counts r)
    (hrunning : s.isRunning = true) (hstep : s.serve config .go = some s') : Inv config s' := by
  obtain ⟨hjoint, hrecorded⟩ := h.running hrunning
  obtain ⟨server, hgo, rfl⟩ := Option.map_eq_some_iff.mp hstep
  by_cases hadding : ∃ iterations entry, s.server.pc = .adding iterations entry
  · obtain ⟨iterations, entry, hpc⟩ := hadding
    exact inv_adding h hcounts hrunning hpc hgo
  by_cases hlooping : ∃ iterations, s.server.pc = .looping iterations
  · obtain ⟨iterations, hpc⟩ := hlooping
    obtain ⟨hjoint', hwritten⟩ := joint_looping hjoint hpc hgo
    have hon : (s.goOn config).storage = s.storage ∧ (s.goOn config).operations = s.operations := by
      rw [State.goOn, hpc]
      by_cases hmore : iterations < IndexedEntryServer.maxBatchWrite
      · simp only [if_pos hmore, and_self]
      · simp only [if_neg hmore, and_self]
    exact inv_congr h hon.1 hon.2 fun _ => ⟨hjoint', recorded_congr hrecorded hon.1 hon.2 hwritten⟩
  · obtain ⟨hon, hjoint', hwritten⟩ := joint_go hjoint
      (fun iterations hpc => hlooping ⟨iterations, hpc⟩)
      (fun iterations entry hpc => hadding ⟨iterations, entry, hpc⟩) hgo
    rw [hon]
    exact inv_congr h rfl rfl fun _ => ⟨hjoint', recorded_congr hrecorded rfl rfl hwritten⟩

theorem inv_record (h : Inv config s) (hcounts : ∀ r ∈ s.storage.record, CrashRecovery.Counts r)
    {st : IndexedEntryRecord.Step} (hstep : s.record config st = some s') : Inv config s' := by
  -- without power nothing runs
  have hdown : ∀ {st : IndexedEntryRecord.Step} (_ : CrashRecovery.Covered s.storage st)
      (_ : (IndexedEntryRecord.step config.geometry s.storage st).record = none),
      Inv config (s.perform config st) := by
    intro st hcovered hnone
    refine inv_perform h _ hcovered rfl rfl fun hrunning => ?_
    rw [State.isRunning, State.perform, hnone] at hrunning
    cases hrunning
  cases st with
  | addEntry data => cases hstep
  | start =>
      rw [State.record] at hstep
      split_ifs at hstep
      obtain rfl := Option.some.inj hstep
      refine inv_perform h .start trivial rfl rfl fun _ => ⟨joint_boot s, ?_⟩
      exact recorded_from h .start trivial rfl rfl rfl (.inl ⟨rfl, rfl⟩)
  | startCut =>
      rw [State.record] at hstep
      split_ifs at hstep
      obtain rfl := Option.some.inj hstep
      exact hdown trivial rfl
  | crash =>
      obtain rfl := Option.some.inj hstep
      exact hdown trivial rfl
  | addEntryCut cut =>
      rw [State.record] at hstep
      split at hstep
      · obtain rfl := Option.some.inj hstep
        refine hdown hcounts ?_
        rw [IndexedEntryRecord.step]
        split
        · assumption
        · rfl
      · cases hstep
  | clearAllEntries =>
      rw [State.record] at hstep
      split_ifs at hstep with hfree
      obtain rfl := Option.some.inj hstep
      obtain ⟨hjoint, -⟩ := h.running hfree.1
      refine inv_perform h .clearAllEntries trivial rfl rfl fun hrunning => ⟨?_, ?_⟩
      · exact ⟨hjoint.logs, hjoint.serves, hjoint.shared, hjoint.accepted⟩
      · exact recorded_from h .clearAllEntries trivial hrunning rfl rfl (.inr rfl)
  | clearCut cut =>
      rw [State.record] at hstep
      split_ifs at hstep
      obtain rfl := Option.some.inj hstep
      refine hdown trivial ?_
      rw [IndexedEntryRecord.step]
      split
      · assumption
      · rfl

theorem inv_step (h : Inv config s) {action : Action} (hcounts : Counts s action)
    (hstep : step config s action = some s') : Inv config s' := by
  cases action with
  | record st => exact inv_record h hcounts hstep
  | thread action =>
      simp only [step] at hstep
      split_ifs at hstep with hrunning
      obtain ⟨hjoint, hrecorded⟩ := h.running hrunning
      obtain ⟨hjoint', hstorage, hoperations, hwritten⟩ := joint_thread hjoint hstep
      exact inv_congr h hstorage hoperations fun _ =>
        ⟨hjoint', recorded_congr hrecorded hstorage hoperations hwritten⟩
  | serve action =>
      simp only [step] at hstep
      split_ifs at hstep with hrunning
      by_cases hgo : action = .go
      · rw [hgo] at hstep
        exact inv_go h hcounts hrunning hstep
      · obtain ⟨hjoint, hrecorded⟩ := h.running hrunning
        obtain ⟨hjoint', hstorage, hoperations, hwritten⟩ := joint_serve hjoint hgo hstep
        exact inv_congr h hstorage hoperations fun _ =>
          ⟨hjoint', recorded_congr hrecorded hstorage hoperations hwritten⟩

theorem inv_init : Inv config (State.init config) := by
  refine ⟨rfl, trivial, ?_⟩
  rintro ⟨⟩

theorem Inv.conserves (h : Inv config s) (hrunning : s.isRunning = true) : Conserves config s := by
  obtain ⟨hjoint, before, window, gone, entries, hsince, hreaches, hshows⟩ :=
    h.running hrunning
  obtain ⟨q, phase, hlogs⟩ := hjoint.logs
  obtain ⟨q', hserves⟩ := hjoint.serves
  obtain ⟨r, hr⟩ := Option.isSome_iff_exists.mp hrunning
  have hentries : s.logger.history.flatMap (Event.entries config.settings) =
      s.server.written ++ s.server.pc.inHand ++ q' :=
    hjoint.accepted.symm.trans hserves.inOrder
  refine ⟨hlogs.refused, ⟨q', ?_, hentries⟩, ?_, ?_⟩
  · rw [hjoint.shared]
    exact hserves.represents.shows
  · intro hopened hpending hnotifying
    rw [← hjoint.accepted]
    exact (hserves.drains.drained hopened hpending hnotifying).2
  · exact ⟨before, window, gone, entries, r, hsince, hreaches, hr,
      hshows.readsBack h.stateOk hr⟩

end Steps

/-- Whatever the threads do and whenever power is lost, while the application runs no entry of the
log is lost, written twice or out of order. -/
theorem log_conserved (actions : List Action) (s : State)
    (hrun : run (step config) (State.init config) actions = some s)
    (hcounts : AllSteps (step config) Counts (State.init config) actions)
    (hrunning : s.isRunning = true) : Conserves config s :=
  (invariant (fun _ _ _ h hcounts hstep => inv_step h hcounts hstep) inv_init hcounts
    hrun).conserves hrunning

/-- The logger of the unit tests, and three slots for the entries. -/
def testConfig : Config where
  settings := testSettings
  maxElements := 6
  memory := List.replicate 6 EntryData.init
  geometry := CrashRecovery.threeSlots
  maxDstLen := entryLen
  length_memory := rfl
  minQueueSpace_le := by decide
  maxElements_le := by decide
  entryLen_le := le_rfl

/-- An entry is logged and written, power is lost, and another one is logged. -/
def twoBoots : List Action :=
  [.record .start, .serve .openServer, .thread (.log testCall), .thread (.proceed 0),
    .thread (.proceed 0), .serve .popPending, .serve .beginCallback, .serve .go, .serve .go,
    .serve .go, .serve .go, .serve .go, .serve .go, .record .crash, .record .start,
    .thread (.log testCall), .thread (.proceed 0)]

theorem log_conserved_two_boots : ∃ s, run (step testConfig) (State.init testConfig) twoBoots =
    some s ∧ s.operations.length = 4 ∧ Conserves testConfig s := by
  refine ⟨_, rfl, rfl, ?_⟩
  exact log_conserved testConfig twoBoots _ rfl (by set_option maxRecDepth 20000 in decide) rfl

end ColonyPico.Logging.PersistentLog
