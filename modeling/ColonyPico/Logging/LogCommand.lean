import ColonyPico.Logging.PersistentLog

/-!
The `log` command of the shell (`Cpl::Logging::TShell::Log`), which shows the entries of the log.
-/

namespace ColonyPico.Logging.LogCommand

open Logger PersistentLog
open ColonyPico.Foundations.ByteStore (toBytes ofBytes length_toBytes ofBytes_toBytes)
open ColonyPico.Foundations.Runs
open ColonyPico.Persistent
open ColonyPico.Persistent.BoundedLog (ReadsBack)
open ColonyPico.Persistent.EntryTraversal
open ColonyPico.Persistent.IndexedEntryRecord (Geometry Media Record)

section Payload

/-- `EntryData_T::putData()`; the text is what stands before the first null terminator. -/
def putData (src : List UInt8) : Option EntryData :=
  if entryLen ≤ src.length then
    some {
      timestamp := UInt64.ofNat (ofBytes (src.take 8))
      category := UInt32.ofNat (ofBytes ((src.drop 8).take 4))
      msgId := UInt16.ofNat (ofBytes ((src.drop 12).take 2))
      msgText := (((src.drop 14).take (maxMsgTextLen + 1)).takeWhile (· ≠ 0)).map fun b =>
        Char.ofNat b.toNat }
  else none

/-- A text as C has it: bytes that are not zero. -/
def IsText (text : List Char) : Prop :=
  ∀ c ∈ text, 0 < c.toNat ∧ c.toNat < 256

/-- An entry whose text the array holds. -/
def IsEntry (entry : EntryData) : Prop :=
  IsText entry.msgText ∧ entry.msgText.length ≤ maxMsgTextLen

theorem takeWhile_msgTextBytes {text : List Char} (h : IsText text)
    (hlength : text.length ≤ maxMsgTextLen) :
    ((msgTextBytes text).takeWhile (· ≠ 0)).map (fun b => Char.ofNat b.toNat) = text := by
  have htoNat : ∀ c ∈ text, (UInt8.ofNat c.toNat).toNat = c.toNat := by
    intro c hc
    rw [UInt8.toNat_ofNat']
    exact Nat.mod_eq_of_lt (h c hc).2
  have hnonzero : ∀ b ∈ text.map (fun c => UInt8.ofNat c.toNat), decide (b ≠ 0) = true := by
    intro b hb
    obtain ⟨c, hc, rfl⟩ := List.mem_map.mp hb
    rw [decide_eq_true_eq]
    intro hzero
    have hpos := (h c hc).1
    rw [← htoNat c hc, hzero] at hpos
    exact absurd hpos (lt_irrefl 0)
  obtain ⟨k, hk⟩ : ∃ k, maxMsgTextLen + 1 - text.length = k + 1 :=
    ⟨maxMsgTextLen - text.length, by omega⟩
  rw [msgTextBytes, hk, List.takeWhile_append_of_pos hnonzero, List.replicate_succ,
    List.takeWhile_cons_of_neg (by simp), List.append_nil, List.map_map]
  conv_rhs => rw [← List.map_id text]
  apply List.map_congr_left
  intro c hc
  change Char.ofNat (UInt8.ofNat c.toNat).toNat = c
  rw [htoNat c hc, Char.ofNat_toNat]

theorem length_msgTextBytes {text : List Char} (hlength : text.length ≤ maxMsgTextLen) :
    (msgTextBytes text).length = maxMsgTextLen + 1 := by
  rw [msgTextBytes, List.length_append, List.length_map, List.length_replicate]
  omega

theorem slices {timestamp category msgId : List UInt8} (msgText : List UInt8)
    (htimestamp : timestamp.length = 8) (hcategory : category.length = 4)
    (hmsgId : msgId.length = 2) :
    (timestamp ++ category ++ msgId ++ msgText).take 8 = timestamp ∧
      ((timestamp ++ category ++ msgId ++ msgText).drop 8).take 4 = category ∧
      ((timestamp ++ category ++ msgId ++ msgText).drop 12).take 2 = msgId ∧
      (timestamp ++ category ++ msgId ++ msgText).drop 14 = msgText := by
  have hfirst : (timestamp ++ category).length = 12 := by
    rw [List.length_append, htimestamp, hcategory]
  have hsecond : (timestamp ++ category ++ msgId).length = 14 := by
    rw [List.length_append, hfirst, hmsgId]
  refine ⟨?_, ?_, ?_, List.drop_left' hsecond⟩
  · rw [List.append_assoc, List.append_assoc, List.take_left' htimestamp]
  · rw [List.append_assoc, List.append_assoc, List.drop_left' htimestamp, List.take_left' hcategory]
  · rw [List.append_assoc, List.drop_left' hfirst, List.take_left' hmsgId]

/-- What was packed is unpacked again. -/
theorem putData_getData {entry : EntryData} (h : IsEntry entry) {maxDstLen : Nat}
    (hfits : entryLen ≤ maxDstLen) : putData (getData entry maxDstLen) = some entry := by
  obtain ⟨htext, hlength⟩ := h
  have htimestamp : (toBytes 8 entry.timestamp.toNat).length = 8 := length_toBytes _ _
  have hcategory : (toBytes 4 entry.category.toNat).length = 4 := length_toBytes _ _
  have hmsgId : (toBytes 2 entry.msgId.toNat).length = 2 := length_toBytes _ _
  have hmsgText := length_msgTextBytes hlength
  rw [getData, if_pos hfits, putData, if_pos]
  · obtain ⟨hfirst, hsecond, hthird, hrest⟩ := slices (msgTextBytes entry.msgText)
      htimestamp hcategory hmsgId
    rw [hfirst, hsecond, hthird, hrest, ← hmsgText, List.take_length,
      takeWhile_msgTextBytes htext hlength,
      ofBytes_toBytes 8 _ entry.timestamp.toNat_lt, ofBytes_toBytes 4 _ entry.category.toNat_lt,
      ofBytes_toBytes 2 _ entry.msgId.toNat_lt, UInt64.ofNat_toNat, UInt32.ofNat_toNat,
      UInt16.ofNat_toNat]
  · simp only [List.length_append, htimestamp, hcategory, hmsgId, hmsgText]
    rfl

end Payload

section Command

variable (g : Geometry) (m : Media)

/-- What the command writes. -/
inductive Frame where
  /-- `displayRecord()`. -/
  | record (entryKey : Nat) (entry : EntryData)
  /-- "%u log records". -/
  | total (count : Nat)
  /-- "ERROR: Unable to retrieve the latest log record". -/
  | unable
  deriving DecidableEq

/-- The frames that have been written; `answers` says which writes succeed. -/
structure Session where
  answers : Nat → Bool
  frames : List Frame

def Session.writeFrame (s : Session) (frame : Frame) : Bool × Session :=
  if s.answers s.frames.length then (true, { s with frames := s.frames ++ [frame] })
  else (false, s)

/-- The frame of an entry. -/
def frame (x : Found) : Frame :=
  .record x.marker.indexValue ((putData x.data).getD EntryData.init)

def displayRecord (s : Session) (x : Found) : Bool × Session :=
  s.writeFrame (frame x)

/-- The loop of `getEntries()`, for at most `fuel` passes from the entry `x` on: whether all
writes succeeded, and the records that were displayed. -/
def loop (startIndex maxEntries : Nat) :
    Nat → Found → Nat → Nat → Session → (Bool × Nat) × Session
  | 0, _, count, _, s => ((true, count), s)
  | fuel + 1, x, count, index, s =>
      if count < maxEntries then
        let (io, s') := if startIndex ≤ index then displayRecord s x else (true, s)
        let count' := if startIndex ≤ index then count + 1 else count
        match getPrevious g m x.marker.indexValue x.marker with
        | none => ((io, count'), s')
        | some y =>
            if io then loop startIndex maxEntries fuel y count' (index + 1) s'
            else ((false, count'), s')
      else ((true, count), s)

/-- `getEntries()`. -/
def getEntries (r : Record) (startIndex maxEntries : Nat) (s : Session) : Bool × Session :=
  match getLatest m r with
  | none => (false, (s.writeFrame .unable).2)
  | some x =>
      let ((io, count), s') := loop g m startIndex maxEntries g.maxEntries x 0 0 s
      (true, if io ∧ 1 < maxEntries then (s'.writeFrame (.total count)).2 else s')

end Command

section Loop

variable {g : Geometry} {m : Media}

/-- The frames are written up to the first one that fails. -/
def Session.writeAll : Session → List Frame → Bool × Session
  | s, [] => (true, s)
  | s, frame :: rest =>
      match s.writeFrame frame with
      | (true, s') => s'.writeAll rest
      | (false, s') => (false, s')

theorem writeAll_append (s : Session) (before after : List Frame) :
    s.writeAll (before ++ after) =
      if (s.writeAll before).1 then (s.writeAll before).2.writeAll after
      else s.writeAll before := by
  induction before generalizing s with
  | nil => rfl
  | cons frame rest ih =>
      rw [List.cons_append, Session.writeAll, Session.writeAll]
      rcases s.writeFrame frame with ⟨- | -, s'⟩
      · rfl
      · exact ih s'

theorem writeAll_singleton (s : Session) (frame : Frame) :
    (s.writeAll [frame]).2 = (s.writeFrame frame).2 := by
  rw [Session.writeAll]
  rcases s.writeFrame frame with ⟨- | -, s'⟩
  · rfl
  · rfl

variable {startIndex maxEntries fuel count index : Nat} {x : Found} {s : Session}

theorem loop_done (h : ¬count < maxEntries) :
    loop g m startIndex maxEntries fuel x count index s = ((true, count), s) := by
  cases fuel with
  | zero => rfl
  | succ fuel => rw [loop, if_neg h]

theorem loop_skip (hcount : count < maxEntries) (hindex : index < startIndex) :
    loop g m startIndex maxEntries (fuel + 1) x count index s =
      match getPrevious g m x.marker.indexValue x.marker with
      | none => ((true, count), s)
      | some y => loop g m startIndex maxEntries fuel y count (index + 1) s := by
  simp only [loop, if_pos hcount, if_neg (not_le_of_gt hindex), if_true]

theorem loop_display (hcount : count < maxEntries) (hindex : startIndex ≤ index) :
    loop g m startIndex maxEntries (fuel + 1) x count index s =
      match getPrevious g m x.marker.indexValue x.marker with
      | none => (((displayRecord s x).1, count + 1), (displayRecord s x).2)
      | some y =>
          if (displayRecord s x).1 then
            loop g m startIndex maxEntries fuel y (count + 1) (index + 1) (displayRecord s x).2
          else ((false, count + 1), (displayRecord s x).2) := by
  simp only [loop, if_pos hcount, if_pos hindex]

/-- The frames were written, and if all of them were, the loop has counted them. -/
def Displays (s : Session) (count : Nat) (frames : List Frame) (result : (Bool × Nat) × Session) :
    Prop :=
  result.2 = (s.writeAll frames).2 ∧ result.1.1 = (s.writeAll frames).1 ∧
    (result.1.1 = true → result.1.2 = count + frames.length)

theorem displays_nil : Displays s count [] ((true, count), s) :=
  ⟨rfl, rfl, fun _ => rfl⟩

theorem displays_cons {frames : List Frame} {result : (Bool × Nat) × Session}
    (hsome : (displayRecord s x).1 = true →
      Displays (displayRecord s x).2 (count + 1) frames result)
    (hnone : (displayRecord s x).1 = false →
      result.1.1 = false ∧ result.2 = (displayRecord s x).2) :
    Displays s count (frame x :: frames) result := by
  rw [Displays, Session.writeAll]
  rw [displayRecord] at hsome hnone
  rcases hwrite : s.writeFrame (frame x) with ⟨- | -, s'⟩
  · rw [hwrite] at hnone
    obtain ⟨hio, hsession⟩ := hnone rfl
    refine ⟨hsession, hio, fun htrue => ?_⟩
    rw [hio] at htrue
    cases htrue
  · rw [hwrite] at hsome
    obtain ⟨hsession, hio, hcount⟩ := hsome rfl
    refine ⟨hsession, hio, fun htrue => ?_⟩
    rw [hcount htrue, List.length_cons]
    omega

/-- The frames of the entries from the start index on, as many as are wanted. -/
def wanted (startIndex maxEntries count index : Nat) (l : List Found) : List Frame :=
  ((l.drop (startIndex - index)).take (maxEntries - count)).map frame

theorem wanted_done (h : ¬count < maxEntries) (l : List Found) :
    wanted startIndex maxEntries count index l = [] := by
  have hzero : maxEntries - count = 0 := by omega
  rw [wanted, hzero, List.take_zero, List.map_nil]

theorem wanted_skip (hindex : index < startIndex) (x : Found) (l : List Found) :
    wanted startIndex maxEntries count index (x :: l) =
      wanted startIndex maxEntries count (index + 1) l := by
  have hsucc : startIndex - index = startIndex - (index + 1) + 1 := by omega
  rw [wanted, hsucc, List.drop_succ_cons, wanted]

theorem wanted_display (hcount : count < maxEntries) (hindex : startIndex ≤ index) (x : Found)
    (l : List Found) :
    wanted startIndex maxEntries count index (x :: l) =
      frame x :: wanted startIndex maxEntries (count + 1) (index + 1) l := by
  have hnow : startIndex - index = 0 := by omega
  have hlater : startIndex - (index + 1) = 0 := by omega
  have hsucc : maxEntries - count = maxEntries - (count + 1) + 1 := by omega
  rw [wanted, wanted, hnow, hlater, hsucc, List.drop_zero, List.drop_zero, List.take_succ_cons,
    List.map_cons]

theorem wanted_nil : wanted startIndex maxEntries count index [] = [] := by
  rw [wanted, List.drop_nil, List.take_nil, List.map_nil]

/-- The loop displays what the walk back meets, from the start index on. -/
theorem displays_loop {l : List Found} (h : WalksBack g m x l) (hfuel : l.length < fuel) :
    Displays s count (wanted startIndex maxEntries count index (x :: l))
      (loop g m startIndex maxEntries fuel x count index s) := by
  obtain ⟨fuel, rfl⟩ : ∃ k, fuel = k + 1 := ⟨fuel - 1, by omega⟩
  induction h generalizing fuel count index s with
  | @stop x hprevious =>
      by_cases hcount : count < maxEntries
      · by_cases hindex : startIndex ≤ index
        · rw [loop_display hcount hindex, hprevious, wanted_display hcount hindex, wanted_nil]
          refine displays_cons ?_ ?_
          · intro hio
            rw [hio]
            exact displays_nil
          · intro hio
            exact ⟨hio, rfl⟩
        · rw [loop_skip hcount (not_le.mp hindex), hprevious, wanted_skip (not_le.mp hindex),
            wanted_nil]
          exact displays_nil
      · rw [loop_done hcount, wanted_done hcount]
        exact displays_nil
  | @back x y l hprevious hwalk ih =>
      obtain ⟨fuel, rfl⟩ : ∃ k, fuel = k + 1 := by
        rw [List.length_cons] at hfuel
        exact ⟨fuel - 1, by omega⟩
      have hless : l.length < fuel + 1 := by
        rw [List.length_cons] at hfuel
        omega
      by_cases hcount : count < maxEntries
      · by_cases hindex : startIndex ≤ index
        · rw [loop_display hcount hindex, hprevious, wanted_display hcount hindex]
          refine displays_cons ?_ ?_
          · intro hio
            simp only [hio, if_true]
            exact ih fuel hless
          · intro hio
            simp only [hio, Bool.false_eq_true, if_false, and_self]
        · rw [loop_skip hcount (not_le.mp hindex), hprevious, wanted_skip (not_le.mp hindex)]
          exact ih fuel hless
      · rw [loop_done hcount, wanted_done hcount]
        exact displays_nil

/-- What `getEntries()` writes when there are entries, of their frames. -/
def shown (startIndex maxEntries : Nat) (frames : List Frame) : List Frame :=
  let records := (frames.drop startIndex).take maxEntries
  records ++ if 1 < maxEntries then [.total records.length] else []

theorem getEntries_eq {r : Record} (hlatest : getLatest m r = some x) {l : List Found}
    (h : WalksBack g m x l) (hfuel : l.length < g.maxEntries) :
    getEntries g m r startIndex maxEntries s =
      (true, (s.writeAll (shown startIndex maxEntries ((x :: l).map frame))).2) := by
  obtain ⟨hsession, hio, hcount⟩ :=
    @displays_loop g m startIndex maxEntries g.maxEntries 0 0 x s l h hfuel
  have hwanted : wanted startIndex maxEntries 0 0 (x :: l) =
      (((x :: l).map frame).drop startIndex).take maxEntries := by
    rw [wanted, List.map_take, List.map_drop, Nat.sub_zero, Nat.sub_zero]
  rw [hwanted] at hsession hio hcount
  rw [getEntries, hlatest]
  rcases hloop : loop g m startIndex maxEntries g.maxEntries x 0 0 s with ⟨⟨io, count⟩, s'⟩
  rw [hloop] at hsession hio hcount
  simp only at hsession hio hcount ⊢
  simp only [hloop, shown]
  rw [writeAll_append, ← hio, ← hsession]
  by_cases hmany : 1 < maxEntries
  · cases io with
    | false => simp only [hsession, Bool.false_eq_true, false_and, if_false]
    | true =>
        have htotal := hcount rfl
        rw [Nat.zero_add] at htotal
        simp only [hmany, and_self, if_true, writeAll_singleton, htotal]
  · simp only [hmany, and_false, if_false, Session.writeAll, hsession]
    split_ifs
    · rfl
    · rfl

theorem map_frame {l : List Found} {entries : List EntryData} {maxDstLen : Nat}
    (hfits : entryLen ≤ maxDstLen) (hentries : ∀ entry ∈ entries, IsEntry entry)
    (h : l.map Found.data = entries.map fun entry => getData entry maxDstLen) :
    l.map frame = List.zipWith .record (l.map fun x => x.marker.indexValue) entries := by
  induction l generalizing entries with
  | nil =>
      rw [List.map_nil, List.map_nil, List.zipWith_nil_left]
  | cons x l ih =>
      cases entries with
      | nil => cases h
      | cons entry entries =>
          obtain ⟨hdata, hrest⟩ := List.cons.inj h
          have hframe : frame x = .record x.marker.indexValue entry := by
            rw [frame, hdata, putData_getData (hentries entry List.mem_cons_self) hfits,
              Option.getD_some]
          rw [List.map_cons, List.map_cons, List.zipWith_cons_cons, hframe,
            ih (fun entry hentry => hentries entry (List.mem_cons_of_mem _ hentry)) hrest]

/-- The entries are displayed with the index values of their markers, and without entries the
command fails. -/
theorem getEntries_of_readsBack {r : Record} {maxDstLen : Nat} (hfits : entryLen ≤ maxDstLen)
    {entries : List EntryData} (hentries : ∀ entry ∈ entries, IsEntry entry)
    (hlength : entries.length ≤ g.maxEntries)
    (h : ReadsBack g m r (entries.map fun entry => getData entry maxDstLen)) :
    ∃ keys : List Nat, keys.length = entries.length ∧
      ∀ startIndex maxEntries s, getEntries g m r startIndex maxEntries s =
        if entries.isEmpty then (false, (s.writeFrame .unable).2)
        else (true, (s.writeAll
          (shown startIndex maxEntries (List.zipWith .record keys entries))).2) := by
  rw [ReadsBack] at h
  cases hlatest : getLatest m r with
  | none =>
      rw [hlatest] at h
      obtain rfl := List.map_eq_nil_iff.mp h
      refine ⟨[], rfl, ?_⟩
      intro startIndex maxEntries s
      rw [List.isEmpty_nil, if_pos rfl, getEntries, hlatest]
  | some x =>
      rw [hlatest] at h
      obtain ⟨l, hwalk, hdata⟩ := h
      have hsame : (x :: l).length = entries.length := by
        have hlengths := congrArg List.length hdata
        rwa [List.length_map, List.length_map] at hlengths
      refine ⟨(x :: l).map fun x => x.marker.indexValue, by rw [List.length_map, hsame], ?_⟩
      intro startIndex maxEntries s
      have hne : entries ≠ [] := by
        rintro rfl
        cases hsame
      rw [List.isEmpty_eq_false_iff.mpr hne, if_neg Bool.false_ne_true,
        getEntries_eq hlatest hwalk, map_frame hfits hentries hdata]
      rw [List.length_cons] at hsame
      omega

end Loop

section Pipeline

variable {config : Config} {s s' : PersistentLog.State}

/-- The call that the logging thread is in. -/
def current : Logger.Pc → Option LogCall
  | .idle => none
  | .measuring call | .announcing call | .adding call | .testing call => some call

/-- The threads log texts. -/
def Speaks : PersistentLog.Action → Prop
  | .thread (.log call) => IsText call.text
  | _ => True

/-- What the logger has and what the record was given are texts. -/
structure Texts (config : Config) (s : PersistentLog.State) : Prop where
  current : ∀ call ∈ LogCommand.current s.logger.pc, IsText call.text
  history : ∀ entry ∈ s.logger.history.flatMap (Event.entries config.settings), IsEntry entry
  operations : ∀ data, IndexedEntryRecord.Step.addEntry data ∈ s.operations →
    ∃ entry, IsEntry entry ∧ data = getData entry config.maxDstLen

theorem isEntry_entry {call : LogCall} (h : IsText call.text) : IsEntry call.entry :=
  ⟨fun c hc => h c (List.mem_of_mem_take hc), List.length_take_le _ _⟩

theorem isEntry_overflowEntry (settings : Settings) (timestamp : UInt64) :
    IsEntry (overflowEntry settings timestamp) :=
  ⟨fun _ hc => absurd hc List.not_mem_nil, Nat.zero_le _⟩

theorem isEntry_queued (h : ∀ call ∈ current s.logger.pc, IsText call.text)
    {action : Logger.Action} : ∀ entry ∈ s.queued config action, IsEntry entry := by
  intro entry hentry
  cases action with
  | proceed timestamp =>
      rw [PersistentLog.State.queued] at hentry
      cases hpc : s.logger.pc with
      | announcing call =>
          rw [hpc] at hentry
          obtain rfl := Option.some.inj hentry
          exact isEntry_overflowEntry _ _
      | adding call =>
          rw [hpc] at hentry h
          obtain rfl := Option.some.inj hentry
          exact isEntry_entry (h call rfl)
      | idle | measuring | testing =>
          rw [hpc] at hentry
          cases hentry
  | log | mask | remove => cases hentry

theorem current_step {settings : Settings} {logger logger' : Logger.State} {action : Logger.Action}
    (hstep : Logger.step settings logger action = some logger') {call : LogCall}
    (hcall : call ∈ current logger'.pc) : call ∈ current logger.pc ∨ action = .log call := by
  cases action with
  | remove =>
      obtain rfl := Option.some.inj hstep
      exact .inl hcall
  | mask change =>
      rw [Logger.step] at hstep
      split at hstep
      · obtain rfl := Option.some.inj hstep
        exact .inl hcall
      · cases hstep
  | log started =>
      rw [Logger.step] at hstep
      split at hstep
      · split_ifs at hstep
        · obtain rfl := Option.some.inj hstep
          exact .inl hcall
        · obtain rfl := Option.some.inj hstep
          obtain rfl := Option.some.inj hcall
          exact .inr rfl
        · obtain rfl := Option.some.inj hstep
          obtain rfl := Option.some.inj hcall
          exact .inr rfl
      · cases hstep
  | proceed timestamp =>
      left
      rw [Logger.step, Logger.proceed] at hstep
      cases hpc : logger.pc with
      | idle =>
          rw [hpc] at hstep
          cases hstep
      | measuring call =>
          simp only [hpc] at hstep
          split_ifs at hstep
          · obtain rfl := Option.some.inj hstep
            exact hcall
          · obtain rfl := Option.some.inj hstep
            cases hcall
      | announcing call =>
          simp only [hpc] at hstep
          obtain rfl := Option.some.inj hstep
          exact hcall
      | adding call =>
          simp only [hpc] at hstep
          obtain rfl := Option.some.inj hstep
          exact hcall
      | testing call =>
          simp only [hpc] at hstep
          obtain rfl := Option.some.inj hstep
          cases hcall

theorem texts_thread (h : Texts config s) {action : Logger.Action}
    (hspeaks : Speaks (.thread action)) (hstep : s.thread config action = some s') :
    Texts config s' := by
  obtain ⟨hremove, logger, hlogger, rfl⟩ := thread_eq hstep
  obtain ⟨-, hhistory, -⟩ := queues_thread hremove hlogger
  refine ⟨fun call hcall => ?_, fun entry hentry => ?_, h.operations⟩
  · rcases current_step hlogger hcall with hold | rfl
    · exact h.current call hold
    · exact hspeaks
  · rw [hhistory] at hentry
    rcases List.mem_append.mp hentry with hold | hnew
    · exact h.history entry hold
    · exact isEntry_queued h.current entry (Option.mem_toList.mp hnew)

theorem texts_perform (h : Texts config s) (st : IndexedEntryRecord.Step)
    (hst : ∀ data, st ≠ .addEntry data) (hoperations : s'.operations = s.operations ++ [st])
    (hcurrent : ∀ call ∈ current s'.logger.pc, IsText call.text)
    (hhistory : ∀ entry ∈ s'.logger.history.flatMap (Event.entries config.settings),
      IsEntry entry) : Texts config s' := by
  refine ⟨hcurrent, hhistory, fun data hdata => ?_⟩
  rw [hoperations, List.mem_append, List.mem_singleton] at hdata
  rcases hdata with hold | hnew
  · exact h.operations data hold
  · exact absurd hnew.symm (hst data)

theorem texts_record (h : Texts config s) {st : IndexedEntryRecord.Step}
    (hstep : s.record config st = some s') : Texts config s' := by
  cases st with
  | addEntry data => cases hstep
  | crash =>
      obtain rfl := Option.some.inj hstep
      refine texts_perform h .crash ?_ rfl h.current h.history
      rintro data ⟨⟩
  | start =>
      rw [PersistentLog.State.record] at hstep
      split_ifs at hstep
      obtain rfl := Option.some.inj hstep
      refine texts_perform h .start ?_ rfl ?_ ?_
      · rintro data ⟨⟩
      · rintro call ⟨⟩
      · rintro entry ⟨⟩
  | addEntryCut cut =>
      rw [PersistentLog.State.record] at hstep
      split at hstep
      · obtain rfl := Option.some.inj hstep
        refine texts_perform h (.addEntryCut cut) ?_ rfl h.current h.history
        rintro data ⟨⟩
      · cases hstep
  | startCut | clearAllEntries | clearCut =>
      rw [PersistentLog.State.record] at hstep
      split_ifs at hstep
      obtain rfl := Option.some.inj hstep
      refine texts_perform h _ ?_ rfl h.current h.history
      rintro data ⟨⟩

/-- What the server has taken from the buffer was logged. -/
theorem mem_history (h : PersistentLog.Joint config s) {entry : EntryData}
    (hentry : entry ∈ s.server.written ++ s.server.pc.inHand) :
    entry ∈ s.logger.history.flatMap (Event.entries config.settings) := by
  obtain ⟨q, hserves⟩ := h.serves
  rw [← h.accepted, hserves.inOrder]
  exact List.mem_append_left _ hentry

theorem texts_goOn (h : Texts config s) (hjoint : PersistentLog.Joint config s)
    (server : IndexedEntryServer.State EntryData) :
    Texts config { s.goOn config with server := server } := by
  rw [PersistentLog.State.goOn]
  split
  · split_ifs
    · exact ⟨h.current, h.history, h.operations⟩
    · exact ⟨h.current, h.history, h.operations⟩
  · rename_i iterations entry hpc
    refine ⟨h.current, h.history, fun data hdata => ?_⟩
    rcases List.mem_append.mp hdata with hold | hnew
    · exact h.operations data hold
    · rw [List.mem_singleton, IndexedEntryRecord.Step.addEntry.injEq] at hnew
      refine ⟨entry, h.history entry (mem_history hjoint (List.mem_append_right _ ?_)), hnew⟩
      rw [hpc]
      exact List.mem_singleton_self entry
  · exact ⟨h.current, h.history, h.operations⟩

theorem texts_serve (h : Texts config s) (hjoint : PersistentLog.Joint config s)
    {action : IndexedEntryServer.Action EntryData}
    (hstep : s.serve config action = some s') : Texts config s' := by
  cases action with
  | add entry => cases hstep
  | go =>
      obtain ⟨server, -, rfl⟩ := Option.map_eq_some_iff.mp hstep
      exact texts_goOn h hjoint server
  | openServer | popPending | beginCallback | notifyComplete =>
      obtain ⟨server, -, rfl⟩ := Option.map_eq_some_iff.mp hstep
      exact ⟨h.current, h.history, h.operations⟩

theorem texts_step (h : Texts config s) (hinv : PersistentLog.Inv config s)
    {action : PersistentLog.Action} (hspeaks : Speaks action)
    (hstep : PersistentLog.step config s action = some s') : Texts config s' := by
  cases action with
  | record st => exact texts_record h hstep
  | thread action =>
      simp only [PersistentLog.step] at hstep
      split_ifs at hstep
      exact texts_thread h hspeaks hstep
  | serve action =>
      simp only [PersistentLog.step] at hstep
      split_ifs at hstep with hrunning
      exact texts_serve h (hinv.running hrunning).1 hstep

theorem texts_init : Texts config (PersistentLog.State.init config) := by
  refine ⟨?_, ?_, ?_⟩
  · rintro call ⟨⟩
  · rintro entry ⟨⟩
  · rintro data ⟨⟩

/-- A window of what was written is one of entries. -/
theorem window_eq_map {maxDstLen : Nat} (window : List (Option (List UInt8)))
    (h : ∀ data, some data ∈ window → ∃ entry, IsEntry entry ∧ data = getData entry maxDstLen) :
    ∃ older : List (Option EntryData), (∀ entry, some entry ∈ older → IsEntry entry) ∧
      window = older.map (Option.map fun entry => getData entry maxDstLen) := by
  induction window with
  | nil =>
      refine ⟨[], ?_, rfl⟩
      rintro entry ⟨⟩
  | cons first window ih =>
      obtain ⟨older, hentries, rfl⟩ := ih fun data hdata => h data (List.mem_cons_of_mem _ hdata)
      cases first with
      | none =>
          refine ⟨none :: older, fun entry hentry => ?_, rfl⟩
          rcases List.mem_cons.mp hentry with hnone | hold
          · cases hnone
          · exact hentries entry hold
      | some data =>
          obtain ⟨entry, hentry, rfl⟩ := h data List.mem_cons_self
          refine ⟨some entry :: older, fun entry' hentry' => ?_, rfl⟩
          rcases List.mem_cons.mp hentry' with heq | hold
          · rw [Option.some.inj heq]
            exact hentry
          · exact hentries entry' hold

/-- What the record holds: the last of the older entries and those that were written behind. -/
def held (older : List (Option EntryData)) (entries : List EntryData) : List EntryData :=
  ((older ++ entries.map some).drop entries.length).reduceOption

theorem kept_eq_map (config : Config) (older : List (Option EntryData)) (entries : List EntryData) :
    kept config (older.map (Option.map fun entry => getData entry config.maxDstLen)) entries =
      ((older ++ entries.map some).drop entries.length).map
        (Option.map fun entry => getData entry config.maxDstLen) := by
  rw [kept, List.map_drop, List.map_append, List.map_map]
  rfl

theorem isEntry_held {older : List (Option EntryData)} {entries : List EntryData}
    (holder : ∀ entry, some entry ∈ older → IsEntry entry)
    (hentries : ∀ entry ∈ entries, IsEntry entry) :
    ∀ entry ∈ held older entries, IsEntry entry := by
  intro entry hentry
  rw [held, List.reduceOption_mem_iff] at hentry
  rcases List.mem_append.mp (List.mem_of_mem_drop hentry) with hold | hnew
  · exact holder entry hold
  · obtain ⟨entry', hentry', heq⟩ := List.mem_map.mp hnew
    rw [← Option.some.inj heq]
    exact hentries entry' hentry'

end Pipeline

/-- While nothing is written, the command displays the entries that were written since the last
start or clear, newest first, and behind them what the record held then. -/
def DisplaysLog (config : Config) (s : PersistentLog.State) : Prop :=
  ∃ before older gone entries r, Since config s before gone entries ∧
    BoundedLog.Log.Reaches config.geometry.maxEntries before
        ⟨older.map (Option.map fun entry => getData entry config.maxDstLen), true⟩ ∧
      s.storage.record = some r ∧
      ∃ keys : List Nat, keys.length = (held older entries).length ∧
        ∀ startIndex maxEntries session,
          getEntries config.geometry s.storage.media r startIndex maxEntries session =
            if (held older entries).isEmpty then (false, (session.writeFrame .unable).2)
            else (true, (session.writeAll (shown startIndex maxEntries
              (List.zipWith .record keys (held older entries).reverse))).2)

/-- Whatever the threads log and whenever power is lost, the command displays what was written. -/
theorem log_displayed (config : Config) (actions : List PersistentLog.Action)
    (s : PersistentLog.State)
    (hrun : run (PersistentLog.step config) (PersistentLog.State.init config) actions = some s)
    (hcounts : AllSteps (PersistentLog.step config) Counts (PersistentLog.State.init config)
      actions)
    (hspeaks : ∀ action ∈ actions, Speaks action) (hrunning : s.isRunning = true) :
    DisplaysLog config s := by
  have hall := hcounts.and
    (allSteps_of_forall_mem (fun action haction _ => hspeaks action haction) _)
  obtain ⟨hinv, htexts⟩ := invariant
    (fun _ _ _ h hallowed hstep => And.intro (inv_step h.1 hallowed.1 hstep)
      (texts_step h.2 h.1 hallowed.2 hstep)) (And.intro inv_init texts_init) hall hrun
  obtain ⟨hjoint, before, window, gone, entries, hsince, hreaches, hshows⟩ :=
    hinv.running hrunning
  obtain ⟨r, hr⟩ := Option.isSome_iff_exists.mp hrunning
  have hadded : ∀ data, some data ∈ window →
      ∃ entry, IsEntry entry ∧ data = getData entry config.maxDstLen := by
    intro data hdata
    apply htexts.operations
    rw [hsince.operations]
    exact List.mem_append_left _ (hreaches.mem hdata)
  obtain ⟨older, holder, rfl⟩ := window_eq_map window hadded
  have hentries : ∀ entry ∈ entries, IsEntry entry := by
    intro entry hentry
    refine htexts.history entry (mem_history hjoint (List.mem_append_left _ ?_))
    rw [hsince.written]
    exact List.mem_append_right _ hentry
  have hkept := kept_eq_map config older entries
  refine ⟨before, older, gone, entries, r, hsince, hreaches, hr, ?_⟩
  have hreads := hshows.readsBack hinv.stateOk hr
  have hlength := hshows.length
  simp only [hkept, List.reduceOption_map, ← List.map_reverse, List.length_map] at hreads hlength
  obtain ⟨keys, hkeys, hall⟩ := getEntries_of_readsBack config.entryLen_le
    (fun entry hentry => isEntry_held holder hentries entry (List.mem_reverse.mp hentry))
    (by rw [List.length_reverse, ← hlength]; exact List.reduceOption_length_le _) hreads
  rw [List.length_reverse] at hkeys
  refine ⟨keys, hkeys, ?_⟩
  intro startIndex maxEntries session
  rw [hall]
  rw [List.isEmpty_reverse]

instance (text : List Char) : Decidable (IsText text) :=
  decidable_of_iff (text.all (fun c => Nat.blt 0 c.toNat && Nat.blt c.toNat 256) = true) <| by
    simp [IsText]

instance (action : PersistentLog.Action) : Decidable (Speaks action) :=
  match action with
  | .thread (.log call) => inferInstanceAs (Decidable (IsText call.text))
  | .thread (.proceed _) | .thread (.mask _) | .thread .remove | .serve _ | .record _ =>
      .isTrue trivial

theorem log_displayed_two_boots : ∃ s, run (PersistentLog.step testConfig)
    (PersistentLog.State.init testConfig) twoBoots = some s ∧ DisplaysLog testConfig s := by
  refine ⟨_, rfl, ?_⟩
  refine log_displayed testConfig twoBoots _ rfl ?_ ?_ rfl
  · set_option maxRecDepth 20000 in decide
  · set_option maxRecDepth 20000 in decide

end ColonyPico.Logging.LogCommand
