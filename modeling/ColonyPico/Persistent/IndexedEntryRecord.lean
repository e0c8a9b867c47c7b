import Mathlib.Tactic.Ring
import ColonyPico.Foundations.RingOrder

/-!
A ring of entries with a secondary record for the latest one
(`Cpl::Persistent::IndexedEntryRecord` and `Cpl::Persistent::IndexRecord`).

The chunk handlers appear through what they answer: an entry is there or its CRC
is bad, and the index record is replaced as a whole.
-/

namespace ColonyPico.Persistent.IndexedEntryRecord

open ColonyPico.Foundations.RingOrder

/-- The size of an entry with its meta-data, and a region of at least one entry. -/
structure Geometry where
  entrySize : Nat
  regionLength : Nat
  entrySize_pos : 0 < entrySize
  one_le : 1 ≤ regionLength / entrySize

namespace Geometry

/-- `m_maxEntries`. -/
def maxEntries (g : Geometry) : Nat :=
  g.regionLength / g.entrySize

/-- `m_maxOffset`. -/
def maxOffset (g : Geometry) : Nat :=
  (g.maxEntries - 1) * g.entrySize

end Geometry

structure Entry where
  timestamp : Nat
  data : List UInt8
  deriving DecidableEq, Repr

/-- The persistent state: the entries with a good CRC by media offset, and the
offset and timestamp in the index record, if it has been written. -/
structure Media where
  entries : Nat → Option Entry
  index : Option (Nat × Nat)

/-- The members of a started record. -/
structure Record where
  latestOffset : Nat
  latestTimestamp : Nat
  entryTimestamp : Nat
  deriving DecidableEq, Repr

def incrementOffset (g : Geometry) (offsetToIncrement : Nat) : Nat :=
  if offsetToIncrement + g.entrySize > g.maxOffset then 0 else offsetToIncrement + g.entrySize

/-- One pass of the loop of `scanAllEntries()`. -/
def consider (m : Media) (offset : Nat) (r : Record) : Record :=
  match m.entries offset with
  | none => r
  | some e =>
      let read := { r with entryTimestamp := e.timestamp }
      if e.timestamp > r.latestTimestamp ∨ r.latestTimestamp = 0 then
        { read with latestTimestamp := e.timestamp, latestOffset := offset }
      else read

/-- The loop of `scanAllEntries()`, for at most `fuel` more entries. -/
def scan (g : Geometry) (m : Media) : Nat → Nat → Record → Record
  | 0, _, r => r
  | fuel + 1, offset, r =>
      if offset ≤ g.maxOffset then scan g m fuel (offset + g.entrySize) (consider m offset r)
      else r

def scanAllEntries (g : Geometry) (m : Media) (r : Record) : Record :=
  scan g m g.maxEntries 0 { r with latestOffset := 0, latestTimestamp := 0 }

/-- What the index record holds once read: zeros when there is no valid data. -/
def latestIndex (m : Media) : Nat × Nat :=
  m.index.getD (0, 0)

/-- The latest entry is there with the timestamp of the index record. -/
def indexMatches (m : Media) : Bool :=
  match m.entries (latestIndex m).1 with
  | none => false
  | some e => e.timestamp = (latestIndex m).2

/-- `start()` with `verifyIndex()`. -/
def start (g : Geometry) (m : Media) : Media × Record :=
  let r : Record :=
    { latestOffset := (latestIndex m).1
      latestTimestamp := (latestIndex m).2
      entryTimestamp := ((m.entries (latestIndex m).1).map Entry.timestamp).getD 0 }
  if indexMatches m then (m, r)
  else
    let scanned := scanAllEntries g m r
    ({ m with index := some (scanned.latestOffset, scanned.latestTimestamp) }, scanned)

/-- The index record that `addEntry()` writes first. -/
def nextIndex (g : Geometry) (r : Record) : Nat × Nat :=
  (incrementOffset g r.latestOffset, (r.latestTimestamp + 1) % 2 ^ 64)

/-- `addEntry()`; `data` is what the source payload supplies, nothing when it
fails. The head has moved by the time the payload is asked. -/
def addEntry (g : Geometry) (m : Media) (r : Record) (data : List UInt8) :
    Media × Record × Bool :=
  let index := nextIndex g r
  let indexed : Media := { m with index := some index }
  let advanced : Record :=
    { latestOffset := index.1, latestTimestamp := index.2, entryTimestamp := index.2 }
  if data.length = 0 then (indexed, advanced, false)
  else
    ({ indexed with
        entries := Function.update indexed.entries index.1 (some ⟨index.2, data⟩) },
      advanced, true)

/-- `clearAllEntries()` on a medium whose writes succeed. -/
def clearAllEntries (r : Record) : Media × Record :=
  ({ entries := fun _ => none, index := some (0, 0) },
    { r with latestOffset := 0, latestTimestamp := 0 })

/-- Where power is lost in `addEntry()`. -/
inductive AddCut where
  | beforeIndex
  | afterIndex
  | inEntry
  deriving DecidableEq, Repr

/-- What the media hold when power is lost in `addEntry()`: an entry written in part
has a bad CRC. -/
def addEntryCut (g : Geometry) (m : Media) (r : Record) : AddCut → Media
  | .beforeIndex => m
  | .afterIndex => { m with index := some (nextIndex g r) }
  | .inEntry =>
      { index := some (nextIndex g r)
        entries := Function.update m.entries (nextIndex g r).1 none }

/-- What the media hold when power is lost in `clearAllEntries()` after `cut` bytes of
the region were cleared. -/
def clearCut (m : Media) (cut : Nat) : Media :=
  { m with entries := fun offset => if offset < cut then none else m.entries offset }

/-- The media, and the record when it is running. -/
structure State where
  media : Media
  record : Option Record

/-- A virgin region. -/
def State.virgin : State :=
  { media := { entries := fun _ => none, index := none }, record := none }

/-- What can happen to a record. `startCut` is power lost before a recovering
`start()` has rewritten the index record. -/
inductive Step where
  | start
  | startCut
  | addEntry (data : List UInt8)
  | addEntryCut (cut : AddCut)
  | clearAllEntries
  | clearCut (cut : Nat)
  | crash
  deriving DecidableEq, Repr

/-- Operations on a record that is not running do nothing. -/
def step (g : Geometry) (s : State) : Step → State
  | .start =>
      let started := start g s.media
      { media := started.1, record := some started.2 }
  | .startCut | .crash => { s with record := none }
  | .addEntry data =>
      match s.record with
      | none => s
      | some r =>
          let added := addEntry g s.media r data
          { media := added.1, record := some added.2.1 }
  | .addEntryCut cut =>
      match s.record with
      | none => s
      | some r => { media := addEntryCut g s.media r cut, record := none }
  | .clearAllEntries =>
      match s.record with
      | none => s
      | some r =>
          let cleared := clearAllEntries r
          { media := cleared.1, record := some cleared.2 }
  | .clearCut cut =>
      match s.record with
      | none => s
      | some _ => { media := clearCut s.media cut, record := none }

end ColonyPico.Persistent.IndexedEntryRecord
