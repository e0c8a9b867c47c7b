import ColonyPico.Foundations.Runs
import ColonyPico.Persistent.EntryTraversal

/-!
The indexed entry record on media that fail, with the pointer that it keeps to the payload of a
client (`m_entryPayloadHandlerPtr`).
-/

namespace ColonyPico.Persistent.EntryFailures

open ColonyPico.Foundations.Runs
open ColonyPico.Persistent.IndexedEntryRecord
open ColonyPico.Persistent.EntryTraversal

/-- A payload of a client: which object it is, and which data it takes. -/
structure Client where
  object : Nat
  putData : List UInt8 → Bool

/-- What a write does: all of it, nothing, a part whose CRC is bad, or all of it although it reports
a failure. -/
inductive Written
  | done
  | untouched
  | torn
  | unreported
  deriving DecidableEq, Repr

def Written.reported (w : Written) : Bool :=
  w = .done

def Written.leaves {α : Type} (w : Written) (old : Option α) (new : α) : Option α :=
  match w with
  | .done => some new
  | .untouched => old
  | .torn => none
  | .unreported => some new

/-- The media, the record, and what its calls gave out and did. -/
structure Session where
  media : Media
  record : Record
  running : Bool
  payloadHandler : Option Client
  -- the markers that clients were given
  markers : List EntryMarker
  -- of one call: which reads fail, the offsets read or written, what was put into which object
  readFails : Nat → Bool
  accessed : List Nat
  touched : List (Nat × List UInt8)

def fresh (media : Media) : Session where
  media := media
  record := ⟨0, 0, 0⟩
  running := false
  payloadHandler := none
  markers := []
  readFails := fun _ => false
  accessed := []
  touched := []

variable (g : Geometry) (s : Session)

/-! The helpers -/

/-- `putData()`: the timestamp for the record, the rest for the client. -/
def putData (e : Entry) : Bool × Session :=
  let s := { s with record := { s.record with entryTimestamp := e.timestamp } }
  match s.payloadHandler with
  | none => (true, s)
  | some client =>
      (client.putData e.data, { s with touched := s.touched ++ [(client.object, e.data)] })

def readFromMedia (offset : Nat) : Bool × Session :=
  let failed := s.readFails s.accessed.length
  let s := { s with accessed := s.accessed ++ [offset] }
  if failed then (false, s)
  else match s.media.entries offset with
    | none => (false, s)
    | some e => putData s e

def getByOffset (offset : Nat) (dst : Client) : Option EntryMarker × Session :=
  let (found, s) := readFromMedia { s with payloadHandler := some dst } offset
  if found then
    let entryMarker : EntryMarker := ⟨s.record.entryTimestamp, offset⟩
    (some entryMarker, { s with markers := s.markers ++ [entryMarker] })
  else (none, s)

/-- One pass of the loop of `scanAllEntries()`. -/
def considerEntry (offset : Nat) : Session :=
  let (found, s) := readFromMedia s offset
  let r := s.record
  if found && (r.entryTimestamp > r.latestTimestamp || r.latestTimestamp = 0) then
    { s with record := { r with latestTimestamp := r.entryTimestamp, latestOffset := offset } }
  else s

def scanFrom : Nat → Nat → Session → Session
  | 0, _, s => s
  | fuel + 1, offset, s =>
      if offset ≤ g.maxOffset then scanFrom fuel (offset + g.entrySize) (considerEntry s offset)
      else s

def resetHead : Session :=
  { s with record := { s.record with latestOffset := 0, latestTimestamp := 0 } }

def scanAllEntries : Session :=
  scanFrom g g.maxEntries 0 (resetHead s)

def writeIndex (index : Nat × Nat) (w : Written) : Bool × Session :=
  (w.reported, { s with media := { s.media with index := w.leaves s.media.index index } })

def writeHead (w : Written) : Session :=
  (writeIndex s (s.record.latestOffset, s.record.latestTimestamp) w).2

/-- `getData()` with the chunk's write: a payload without data is not written. -/
def writeToMedia (data : List UInt8) (offset : Nat) (w : Written) : Bool × Session :=
  if data = [] then (false, s)
  else
    let entry : Entry := ⟨s.record.entryTimestamp, data⟩
    let entries := Function.update s.media.entries offset (w.leaves (s.media.entries offset) entry)
    (w.reported, { s with
      accessed := s.accessed ++ [offset]
      media := { s.media with entries := entries } })

/-- The loop of `getNext()` and `getPrevious()`. -/
def search (advance : Nat → Nat) (wanted : Nat → Bool) (dst : Client) :
    Nat → Nat → Session → Option EntryMarker × Session
  | 0, _, s => (none, s)
  | fuel + 1, offset, s =>
      match getByOffset s offset dst with
      | (none, s) => search advance wanted dst fuel (advance offset) s
      | (some entryMarker, s) =>
          if wanted s.record.entryTimestamp then (some entryMarker, s)
          else search advance wanted dst fuel (advance offset) s

/-! The operations -/

/-- `verifyIndex()`, with the head from the index record. -/
def verifyIndex (w : Written) : Session :=
  let (found, s) := readFromMedia s s.record.latestOffset
  if found && s.record.entryTimestamp = s.record.latestTimestamp then s
  else writeHead (scanAllEntries g s) w

/-- `start()`; an index record that cannot be read is reset. -/
def start (indexRead : Bool) (w : Written) : Session :=
  let index := if indexRead then latestIndex s.media else (0, 0)
  verifyIndex g
    { s with running := true, payloadHandler := none, record := ⟨index.1, index.2, 0⟩ } w

def stop : Session :=
  { s with running := false }

def getLatest (dst : Client) : Option EntryMarker × Session :=
  getByOffset s s.record.latestOffset dst

def getNext (newerThan : Nat) (beginHereMarker : EntryMarker) (dst : Client) :
    Option EntryMarker × Session :=
  search (incrementOffset g) (fun timestamp => newerThan < timestamp) dst (g.maxEntries - 1)
    (incrementOffset g beginHereMarker.mediaOffset) s

def getPrevious (olderThan : Nat) (beginHereMarker : EntryMarker) (dst : Client) :
    Option EntryMarker × Session :=
  search (decrementOffset g) (fun timestamp => timestamp < olderThan) dst (g.maxEntries - 1)
    (decrementOffset g beginHereMarker.mediaOffset) s

def getMaxIndex : Nat :=
  g.maxEntries - 1

/-- The offset of a buffer index: the first entry is the one behind offset 0. -/
def bufferOffset (bufferIndex : Nat) : Nat :=
  let offset := (bufferIndex + 1) * g.entrySize
  if offset > g.maxOffset then 0 else offset

def getByBufferIndex (bufferIndex : Nat) (dst : Client) : Option EntryMarker × Session :=
  if bufferIndex > getMaxIndex g then (none, s)
  else getByOffset s (bufferOffset g bufferIndex) dst

/-- `addEntry()`; `data` is what the source payload supplies, nothing when it fails. -/
def addEntry (src : Client) (data : List UInt8) (index entry : Written) : Bool × Session :=
  let latestOffset := incrementOffset g s.record.latestOffset
  let entryTimestamp := (s.record.latestTimestamp + 1) % 2 ^ 64
  let s := { s with record := { s.record with entryTimestamp := entryTimestamp } }
  match writeIndex s (latestOffset, entryTimestamp) index with
  | (false, s) => (false, s)
  | (true, s) =>
      let s := { s with
        record := ⟨latestOffset, entryTimestamp, entryTimestamp⟩
        payloadHandler := some src }
      writeToMedia s data latestOffset entry

/-- What the writes of `clearAllEntries()` do: clear the region, or fail when some of the entries
are still there. -/
inductive Clearing
  | done
  | failed (kept : Nat → Bool)

def Clearing.leaves (entries : Nat → Option Entry) : Clearing → Nat → Option Entry
  | .done => fun _ => none
  | .failed kept => fun offset => if kept offset then entries offset else none

def clearAllEntries (clearing : Clearing) (index : Written) : Bool × Session :=
  let s := resetHead { s with
    media := { s.media with entries := clearing.leaves s.media.entries } }
  match clearing with
  | .done => (true, writeHead s index)
  | .failed _ => (false, writeHead (scanAllEntries g s) index)

/-! Runs -/

inductive Operation
  | start (indexRead : Bool) (index : Written)
  | stop
  | getLatest (dst : Client)
  | getNext (newerThan : Nat) (beginHereMarker : EntryMarker) (dst : Client)
  | getPrevious (olderThan : Nat) (beginHereMarker : EntryMarker) (dst : Client)
  | getByBufferIndex (bufferIndex : Nat) (dst : Client)
  | addEntry (src : Client) (data : List UInt8) (index entry : Written)
  | clearAllEntries (clearing : Clearing) (index : Written)

/-- A call, and which of its reads of the entry region fail. -/
structure Call where
  operation : Operation
  readFails : Nat → Bool

def perform : Operation → Session
  | .start indexRead index => start g s indexRead index
  | .stop => stop s
  | .getLatest dst => (getLatest s dst).2
  | .getNext newerThan beginHereMarker dst => (getNext g s newerThan beginHereMarker dst).2
  | .getPrevious olderThan beginHereMarker dst =>
      (getPrevious g s olderThan beginHereMarker dst).2
  | .getByBufferIndex bufferIndex dst => (getByBufferIndex g s bufferIndex dst).2
  | .addEntry src data index entry => (addEntry g s src data index entry).2
  | .clearAllEntries clearing index => (clearAllEntries g s clearing index).2

def begin (readFails : Nat → Bool) : Session :=
  { s with readFails := readFails, accessed := [], touched := [] }

/-- A call of the record, which only a started record takes.  A loss of power is a failing call with
`stop` behind it. -/
def step (call : Call) : Option Session :=
  match s.running, call.operation with
  | false, .start indexRead index =>
      some (perform g (begin s call.readFails) (.start indexRead index))
  | false, _ => none
  | true, operation => some (perform g (begin s call.readFails) operation)

/-! Without failures -/

variable {g s}

theorem putData_of_none (hhandler : s.payloadHandler = none) (e : Entry) :
    putData s e = (true, { s with record := { s.record with entryTimestamp := e.timestamp } }) := by
  simp only [putData, hhandler]

theorem readFromMedia_of_none (hhandler : s.payloadHandler = none)
    (hreads : ∀ k, s.readFails k = false) (offset : Nat) :
    readFromMedia s offset =
      match s.media.entries offset with
      | none => (false, { s with accessed := s.accessed ++ [offset] })
      | some e => (true, { s with
          accessed := s.accessed ++ [offset]
          record := { s.record with entryTimestamp := e.timestamp } }) := by
  rw [readFromMedia, hreads, if_neg Bool.false_ne_true]
  dsimp only
  cases hentry : s.media.entries offset with
  | none => rfl
  | some e => exact @putData_of_none { s with accessed := s.accessed ++ [offset] } hhandler e

theorem considerEntry_record (hhandler : s.payloadHandler = none)
    (hreads : ∀ k, s.readFails k = false) (offset : Nat) :
    (considerEntry s offset).record = consider s.media offset s.record ∧
      (considerEntry s offset).media = s.media ∧
      (considerEntry s offset).payloadHandler = none ∧
      (considerEntry s offset).readFails = s.readFails := by
  rw [considerEntry, readFromMedia_of_none hhandler hreads, consider]
  cases hentry : s.media.entries offset with
  | none => exact ⟨rfl, rfl, hhandler, rfl⟩
  | some e =>
      simp only [Bool.true_and, Bool.or_eq_true, decide_eq_true_eq]
      by_cases hnewer : e.timestamp > s.record.latestTimestamp ∨ s.record.latestTimestamp = 0
      · rw [if_pos hnewer, if_pos hnewer]
        exact ⟨rfl, rfl, hhandler, rfl⟩
      · rw [if_neg hnewer, if_neg hnewer]
        exact ⟨rfl, rfl, hhandler, rfl⟩

theorem scanFrom_record (fuel offset : Nat) (hhandler : s.payloadHandler = none)
    (hreads : ∀ k, s.readFails k = false) :
    (scanFrom g fuel offset s).record = scan g s.media fuel offset s.record ∧
      (scanFrom g fuel offset s).media = s.media := by
  induction fuel generalizing offset s with
  | zero => exact ⟨rfl, rfl⟩
  | succ fuel ih =>
      rw [scanFrom, scan]
      split_ifs
      · obtain ⟨hrecord, hmedia, hhandler', hreads'⟩ := considerEntry_record hhandler hreads offset
        have hnext :=
          @ih (considerEntry s offset) (offset + g.entrySize) hhandler' (hreads' ▸ hreads)
        rwa [hrecord, hmedia] at hnext
      · exact ⟨rfl, rfl⟩

theorem scanAllEntries_record (hhandler : s.payloadHandler = none)
    (hreads : ∀ k, s.readFails k = false) :
    (scanAllEntries g s).record = IndexedEntryRecord.scanAllEntries g s.media s.record ∧
      (scanAllEntries g s).media = s.media :=
  @scanFrom_record g (resetHead s) g.maxEntries 0 hhandler hreads

theorem writeHead_scanAllEntries (hhandler : s.payloadHandler = none)
    (hreads : ∀ k, s.readFails k = false) :
    let scanned := IndexedEntryRecord.scanAllEntries g s.media s.record
    let recovered := writeHead (scanAllEntries g s) .done
    (recovered.media, recovered.record) =
      ({ s.media with index := some (scanned.latestOffset, scanned.latestTimestamp) },
        scanned) := by
  obtain ⟨hrecord, hmedia⟩ := @scanAllEntries_record g s hhandler hreads
  dsimp only [writeHead, writeIndex, Written.leaves]
  rw [hrecord, hmedia]

theorem verifyIndex_eq (hhandler : s.payloadHandler = none) (hreads : ∀ k, s.readFails k = false)
    (hhead : s.record = ⟨(latestIndex s.media).1, (latestIndex s.media).2, 0⟩) :
    ((verifyIndex g s .done).media, (verifyIndex g s .done).record) =
      IndexedEntryRecord.start g s.media := by
  rw [verifyIndex, readFromMedia_of_none hhandler hreads, IndexedEntryRecord.start, indexMatches,
    hhead]
  dsimp only
  cases hentry : s.media.entries (latestIndex s.media).1 with
  | none =>
      have hrecovered := @writeHead_scanAllEntries g
        { s with accessed := s.accessed ++ [(latestIndex s.media).1] } hhandler hreads
      rw [hhead] at hrecovered
      exact hrecovered
  | some e =>
      by_cases hmatch : e.timestamp = (latestIndex s.media).2
      · simp only [hmatch, decide_true, Bool.and_self, if_true]
        rw [Option.map_some, Option.getD_some, hmatch]
      · simp only [hmatch, decide_false, Bool.and_false, Bool.false_eq_true, if_false]
        exact @writeHead_scanAllEntries g { s with
          accessed := s.accessed ++ [(latestIndex s.media).1]
          record := ⟨(latestIndex s.media).1, (latestIndex s.media).2, e.timestamp⟩ }
            hhandler hreads

/-- On media that do not fail a start is the one of the record without failures. -/
theorem start_eq (g : Geometry) (hreads : ∀ k, s.readFails k = false) :
    ((start g s true .done).media, (start g s true .done).record) =
      IndexedEntryRecord.start g s.media :=
  @verifyIndex_eq g { s with
    running := true
    payloadHandler := none
    record := ⟨(latestIndex s.media).1, (latestIndex s.media).2, 0⟩ } rfl hreads rfl

/-- On media that do not fail an append is the one of the record without failures. -/
theorem addEntry_eq (g : Geometry) (s : Session) (src : Client) (data : List UInt8) :
    let added := addEntry g s src data .done .done
    (added.2.media, added.2.record, added.1) =
      IndexedEntryRecord.addEntry g s.media s.record data := by
  dsimp only
  rw [IndexedEntryRecord.addEntry]
  by_cases hdata : data = []
  · subst hdata
    rfl
  · have hlength : ¬data.length = 0 := fun h => hdata (List.length_eq_zero_iff.mp h)
    rw [if_neg hlength]
    show (_, _, _) = _
    simp only [addEntry, writeIndex, writeToMedia, if_neg hdata, Written.reported]
    rfl

/-! A failed append -/

/-- What a client sees of the latest entry: the marker, and what is put into its payload. -/
def latestSeen (s : Session) (dst : Client) : Option (EntryMarker × List (Nat × List UInt8)) :=
  let seen := getLatest (begin s fun _ => false) dst
  seen.1.map fun entryMarker => (entryMarker, seen.2.touched)

/-- An append that returns false leaves the latest entry as it was, for every payload. -/
def KeepsLatest (g : Geometry) (s : Session) (src : Client) (data : List UInt8)
    (index entry : Written) : Prop :=
  (addEntry g s src data index entry).1 = false →
    ∀ dst, latestSeen (addEntry g s src data index entry).2 dst = latestSeen s dst

/-- What the slot behind the latest entry holds once its write was tried. -/
def nextSlot (g : Geometry) (s : Session) (data : List UInt8) (entry : Written) : Option Entry :=
  let old := s.media.entries (incrementOffset g s.record.latestOffset)
  if data = [] then old
  else entry.leaves old ⟨(s.record.latestTimestamp + 1) % 2 ^ 64, data⟩

theorem latestSeen_eq (s : Session) (dst : Client) :
    latestSeen s dst =
      (s.media.entries s.record.latestOffset).bind fun e =>
        if dst.putData e.data then
          some (⟨e.timestamp, s.record.latestOffset⟩, [(dst.object, e.data)])
        else none := by
  simp only [latestSeen, getLatest, getByOffset, readFromMedia, begin, Bool.false_eq_true, if_false]
  cases hentry : s.media.entries s.record.latestOffset with
  | none => rfl
  | some e =>
      by_cases htakes : dst.putData e.data = true
      · simp only [putData, Option.bind_some, htakes, if_true]
        rfl
      · simp only [putData, Option.bind_some, htakes]
        rfl

/-- Two records show every payload the same latest entry just when both have none, or the same at
the same offset. -/
theorem latestSeen_eq_iff {s' : Session} :
    (∀ dst, latestSeen s' dst = latestSeen s dst) ↔
      (s.media.entries s.record.latestOffset = none ∧
        s'.media.entries s'.record.latestOffset = none) ∨
      (s'.record.latestOffset = s.record.latestOffset ∧
        s'.media.entries s'.record.latestOffset = s.media.entries s.record.latestOffset) := by
  constructor
  · intro hall
    have htakes := hall ⟨0, fun _ => true⟩
    rw [latestSeen_eq, latestSeen_eq] at htakes
    revert htakes
    cases s.media.entries s.record.latestOffset with
    | none =>
        cases s'.media.entries s'.record.latestOffset with
        | none => exact fun _ => .inl ⟨rfl, rfl⟩
        | some e' => exact fun h => absurd h (Option.some_ne_none _)
    | some e =>
        cases s'.media.entries s'.record.latestOffset with
        | none => exact fun h => absurd h.symm (Option.some_ne_none _)
        | some e' =>
            intro h
            obtain ⟨hmarker, hput⟩ := Prod.mk.inj (Option.some.inj h)
            obtain ⟨htimestamp, hoffset⟩ := EntryMarker.mk.inj hmarker
            have hdata := (Prod.mk.inj (List.cons.inj hput).1).2
            refine .inr ⟨hoffset, ?_⟩
            cases e with
            | mk timestamp data =>
                cases e' with
                | mk timestamp' data' =>
                    obtain rfl : timestamp' = timestamp := htimestamp
                    obtain rfl : data' = data := hdata
                    rfl
  · rintro (⟨hnone, hnone'⟩ | ⟨hoffset, hentry⟩) dst
    · rw [latestSeen_eq, latestSeen_eq, hnone, hnone']
      rfl
    · rw [latestSeen_eq, latestSeen_eq, hentry, hoffset]

theorem addEntry_of_index_failed (src : Client) (data : List UInt8) {index : Written}
    (entry : Written) (hindex : index ≠ .done) :
    (addEntry g s src data index entry).2.record.latestOffset = s.record.latestOffset ∧
      (addEntry g s src data index entry).2.media.entries = s.media.entries := by
  have hreported : index.reported = false := decide_eq_false hindex
  simp only [addEntry, writeIndex, hreported, and_self]

/-- Once the index record is written the head is on the next slot, whatever the entry's write
does. -/
theorem addEntry_of_indexed (src : Client) (data : List UInt8) (entry : Written) :
    (addEntry g s src data .done entry).2.record.latestOffset =
        incrementOffset g s.record.latestOffset ∧
      (addEntry g s src data .done entry).2.media.entries
          (incrementOffset g s.record.latestOffset) = nextSlot g s data entry ∧
      ((addEntry g s src data .done entry).1 = true ↔ data ≠ [] ∧ entry = .done) := by
  have hreported : Written.done.reported = true := rfl
  simp only [addEntry, writeIndex, hreported, writeToMedia, nextSlot]
  by_cases hdata : data = []
  · rw [if_pos hdata, if_pos hdata]
    exact ⟨rfl, rfl, iff_of_false Bool.false_ne_true fun h => h.1 hdata⟩
  · rw [if_neg hdata, if_neg hdata]
    refine ⟨rfl, Function.update_self .., ?_⟩
    exact decide_eq_true_iff.trans ⟨fun h => ⟨hdata, h⟩, fun h => h.2⟩

/-- A failed append keeps the latest entry just when the index record was not written, or there was
no entry and the next slot has none, or the only slot was left as it was. -/
theorem keepsLatest_iff (g : Geometry) (s : Session) (src : Client) (data : List UInt8)
    (index entry : Written) :
    KeepsLatest g s src data index entry ↔
      index ≠ .done ∨ (data ≠ [] ∧ entry = .done) ∨
      (s.media.entries s.record.latestOffset = none ∧ nextSlot g s data entry = none) ∨
      (incrementOffset g s.record.latestOffset = s.record.latestOffset ∧
        nextSlot g s data entry = s.media.entries s.record.latestOffset) := by
  by_cases hindex : index = .done
  · subst hindex
    obtain ⟨hoffset, hslot, hresult⟩ := @addEntry_of_indexed g s src data entry
    rw [KeepsLatest, latestSeen_eq_iff, hoffset, hslot, ← Bool.not_eq_true, hresult]
    tauto
  · obtain ⟨hoffset, hentries⟩ := @addEntry_of_index_failed g s src data index entry hindex
    refine iff_of_true (fun _ => latestSeen_eq_iff.mpr (.inr ?_)) (.inl hindex)
    rw [hentries, hoffset]
    exact ⟨rfl, rfl⟩

def oneEntry : Option Session :=
  run (step CrashRecovery.threeSlots) (fresh ⟨fun _ => none, none⟩)
    [⟨.start true .done, fun _ => false⟩,
      ⟨.addEntry ⟨0, fun _ => true⟩ [1] .done .done, fun _ => false⟩]

/-- The write of a second entry does nothing, and there is no latest entry any more. -/
theorem not_keepsLatest_untouched :
    ∃ s, oneEntry = some s ∧ s.media.entries s.record.latestOffset = some ⟨1, [1]⟩ ∧
      ¬KeepsLatest CrashRecovery.threeSlots s ⟨1, fun _ => true⟩ [2] .done .untouched := by
  refine ⟨_, rfl, ?_, ?_⟩
  · decide
  · rw [keepsLatest_iff]
    decide

end ColonyPico.Persistent.EntryFailures
