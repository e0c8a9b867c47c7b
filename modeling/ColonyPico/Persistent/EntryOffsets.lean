import Mathlib.Data.Set.Function
import ColonyPico.Persistent.EntryFailures

/-!
Where the indexed entry record reads and writes: the slots of its region.
-/

namespace ColonyPico.Persistent.EntryOffsets

open ColonyPico.Foundations.RingOrder
open ColonyPico.Foundations.Runs
open ColonyPico.Persistent.CrashRecovery (incrementOffset_slot)
open ColonyPico.Persistent.IndexedEntryRecord (Geometry Media Entry incrementOffset latestIndex)
open ColonyPico.Persistent.EntryTraversal (EntryMarker decrementOffset decrementOffset_slot)
open ColonyPico.Persistent.EntryFailures

/-- The offsets of the entries: the multiples of the entry size that leave room for an entry. -/
def slots (g : Geometry) : Set Nat :=
  {offset | ∃ i < g.maxEntries, offset = i * g.entrySize}

variable {g : Geometry}

theorem maxEntries_pos (g : Geometry) : 0 < g.maxEntries :=
  g.one_le

theorem zero_mem_slots (g : Geometry) : 0 ∈ slots g :=
  ⟨0, maxEntries_pos g, (Nat.zero_mul _).symm⟩

theorem mem_slots_of_le {i : Nat} (h : i * g.entrySize ≤ g.maxOffset) :
    i * g.entrySize ∈ slots g := by
  have hle := Nat.le_of_mul_le_mul_right h g.entrySize_pos
  have hpos := maxEntries_pos g
  exact ⟨i, by omega, rfl⟩

theorem le_maxOffset {offset : Nat} (h : offset ∈ slots g) : offset ≤ g.maxOffset := by
  obtain ⟨i, hi, rfl⟩ := h
  exact Nat.mul_le_mul_right _ (by omega)

/-- An entry in a slot ends in the region, whatever the region's length leaves over. -/
theorem end_le_regionLength {offset : Nat} (h : offset ∈ slots g) :
    offset + g.entrySize ≤ g.regionLength := by
  obtain ⟨i, hi, rfl⟩ := h
  calc
    i * g.entrySize + g.entrySize = (i + 1) * g.entrySize := (Nat.succ_mul _ _).symm
    _ ≤ g.maxEntries * g.entrySize := Nat.mul_le_mul_right _ hi
    _ ≤ g.regionLength := Nat.div_mul_le_self _ _

/-! Moving from slot to slot -/

theorem mapsTo_incrementOffset (g : Geometry) :
    Set.MapsTo (incrementOffset g) (slots g) (slots g) := by
  rintro _ ⟨i, hi, rfl⟩
  exact ⟨next g.maxEntries i, next_lt hi, incrementOffset_slot g i hi⟩

theorem mapsTo_decrementOffset (g : Geometry) :
    Set.MapsTo (decrementOffset g) (slots g) (slots g) := by
  rintro _ ⟨i, hi, rfl⟩
  exact ⟨prev g.maxEntries i, prev_lt hi, decrementOffset_slot g i hi⟩

theorem invOn_offsets (g : Geometry) :
    Set.InvOn (decrementOffset g) (incrementOffset g) (slots g) (slots g) := by
  constructor
  · rintro _ ⟨i, hi, rfl⟩
    rw [incrementOffset_slot g i hi, decrementOffset_slot g _ (next_lt hi), prev_next hi]
  · rintro _ ⟨i, hi, rfl⟩
    rw [decrementOffset_slot g i hi, incrementOffset_slot g _ (prev_lt hi), next_prev hi]

theorem bijOn_incrementOffset (g : Geometry) :
    Set.BijOn (incrementOffset g) (slots g) (slots g) :=
  (invOn_offsets g).bijOn (mapsTo_incrementOffset g) (mapsTo_decrementOffset g)

theorem bijOn_decrementOffset (g : Geometry) :
    Set.BijOn (decrementOffset g) (slots g) (slots g) :=
  (invOn_offsets g).symm.bijOn (mapsTo_decrementOffset g) (mapsTo_incrementOffset g)

theorem bufferOffset_eq (g : Geometry) (bufferIndex : Nat) :
    bufferOffset g bufferIndex = incrementOffset g (bufferIndex * g.entrySize) := by
  rw [bufferOffset, incrementOffset, Nat.succ_mul]

/-- The buffer indices up to the largest reach every slot once. -/
theorem bijOn_bufferOffset (g : Geometry) :
    Set.BijOn (bufferOffset g) {i | i ≤ getMaxIndex g} (slots g) := by
  have hpos := maxEntries_pos g
  have hslots : Set.BijOn (· * g.entrySize) {i | i ≤ getMaxIndex g} (slots g) := by
    refine ⟨fun i hi => ⟨i, ?_, rfl⟩, fun i _ j _ h => ?_, ?_⟩
    · have hle : i ≤ g.maxEntries - 1 := hi
      omega
    · exact Nat.eq_of_mul_eq_mul_right g.entrySize_pos h
    · rintro _ ⟨i, hi, rfl⟩
      have hle : i ≤ g.maxEntries - 1 := by omega
      exact ⟨i, hle, rfl⟩
  have hcomp : bufferOffset g = incrementOffset g ∘ (· * g.entrySize) :=
    funext (bufferOffset_eq g)
  rw [hcomp]
  exact (bijOn_incrementOffset g).comp hslots

/-! Every reachable state -/

variable {P : Nat → Prop} {s s' : Session}

/-- The head and the index record name slots; the markers given out and the accesses of the call
are as `P` says. -/
structure Inv (g : Geometry) (P : Nat → Prop) (s : Session) : Prop where
  head : s.record.latestOffset ∈ slots g
  index : ∀ index ∈ s.media.index, index.1 ∈ slots g
  markers : ∀ entryMarker ∈ s.markers, P entryMarker.mediaOffset
  accessed : ∀ offset ∈ s.accessed, P offset

theorem forall_mem_snoc {α : Type} {Q : α → Prop} {xs : List α} {x : α} (h : ∀ y ∈ xs, Q y)
    (hx : Q x) : ∀ y ∈ xs ++ [x], Q y := by
  intro y hy
  rcases List.mem_append.mp hy with hmem | hmem
  · exact h y hmem
  · rw [List.mem_singleton.mp hmem]
    exact hx

theorem inv_putData (h : Inv g P s) (e : Entry) : Inv g P (putData s e).2 := by
  rw [putData.eq_def]
  dsimp only
  split
  · exact ⟨h.head, h.index, h.markers, h.accessed⟩
  · exact ⟨h.head, h.index, h.markers, h.accessed⟩

theorem inv_readFromMedia (h : Inv g P s) {offset : Nat} (hoffset : P offset) :
    Inv g P (readFromMedia s offset).2 := by
  have haccess : Inv g P { s with accessed := s.accessed ++ [offset] } :=
    ⟨h.head, h.index, h.markers, forall_mem_snoc h.accessed hoffset⟩
  rw [readFromMedia]
  split_ifs
  · exact haccess
  · split
    · exact haccess
    · exact inv_putData haccess _

theorem inv_getByOffset (h : Inv g P s) {offset : Nat} (hoffset : P offset) (dst : Client) :
    Inv g P (getByOffset s offset dst).2 := by
  have hread : Inv g P (readFromMedia { s with payloadHandler := some dst } offset).2 :=
    inv_readFromMedia (s := { s with payloadHandler := some dst })
      ⟨h.head, h.index, h.markers, h.accessed⟩ hoffset
  rw [getByOffset]
  dsimp only
  split_ifs
  · exact ⟨hread.head, hread.index, forall_mem_snoc hread.markers hoffset, hread.accessed⟩
  · exact hread

theorem inv_considerEntry (hP : ∀ offset ∈ slots g, P offset) (h : Inv g P s) {offset : Nat}
    (hoffset : offset ∈ slots g) : Inv g P (considerEntry s offset) := by
  have hread := inv_readFromMedia h (hP offset hoffset)
  rw [considerEntry]
  dsimp only
  split_ifs
  · exact ⟨hoffset, hread.index, hread.markers, hread.accessed⟩
  · exact hread

theorem inv_scanFrom (hP : ∀ offset ∈ slots g, P offset) (h : Inv g P s) (fuel i : Nat) :
    Inv g P (scanFrom g fuel (i * g.entrySize) s) := by
  induction fuel generalizing s i with
  | zero => exact h
  | succ fuel ih =>
      rw [scanFrom]
      split_ifs with hle
      · rw [← Nat.succ_mul]
        exact ih (inv_considerEntry hP h (mem_slots_of_le hle)) (i + 1)
      · exact h

theorem inv_scanAllEntries (hP : ∀ offset ∈ slots g, P offset) (h : Inv g P s) :
    Inv g P (scanAllEntries g s) := by
  have hreset : Inv g P (resetHead s) := ⟨zero_mem_slots g, h.index, h.markers, h.accessed⟩
  have hscan := inv_scanFrom hP hreset g.maxEntries 0
  rwa [Nat.zero_mul] at hscan

theorem inv_writeIndex (h : Inv g P s) {index : Nat × Nat} (hindex : index.1 ∈ slots g)
    (w : Written) : Inv g P (writeIndex s index w).2 := by
  refine ⟨h.head, ?_, h.markers, h.accessed⟩
  cases w with
  | done | unreported =>
      rintro _ ⟨⟩
      exact hindex
  | untouched => exact h.index
  | torn => exact fun _ hnone => absurd hnone (Option.not_mem_none _)

theorem inv_writeToMedia (h : Inv g P s) {offset : Nat} (hoffset : P offset) (data : List UInt8)
    (w : Written) : Inv g P (writeToMedia s data offset w).2 := by
  rw [writeToMedia]
  split_ifs
  · exact h
  · exact ⟨h.head, h.index, h.markers, forall_mem_snoc h.accessed hoffset⟩

theorem inv_verifyIndex (hP : ∀ offset ∈ slots g, P offset) (h : Inv g P s) (w : Written) :
    Inv g P (verifyIndex g s w) := by
  have hread := inv_readFromMedia h (hP _ h.head)
  rw [verifyIndex]
  dsimp only
  split_ifs
  · exact hread
  · have hscan := inv_scanAllEntries hP hread
    exact inv_writeIndex hscan hscan.head w

theorem inv_search {advance : Nat → Nat} (hadvance : ∀ offset, P offset → P (advance offset))
    (wanted : Nat → Bool) (dst : Client) (fuel : Nat) {offset : Nat} (hoffset : P offset)
    (h : Inv g P s) : Inv g P (search advance wanted dst fuel offset s).2 := by
  induction fuel generalizing s offset with
  | zero => exact h
  | succ fuel ih =>
      have hget := inv_getByOffset h hoffset dst
      rw [search]
      revert hget
      generalize getByOffset s offset dst = outcome
      intro hget
      rcases outcome with ⟨_ | entryMarker, next⟩
      · exact ih (hadvance offset hoffset) hget
      · dsimp only
        split_ifs
        · exact hget
        · exact ih (hadvance offset hoffset) hget

theorem inv_start (hP : ∀ offset ∈ slots g, P offset) (h : Inv g P s) (indexRead : Bool)
    (w : Written) : Inv g P (start g s indexRead w) := by
  have hindex : (latestIndex s.media).1 ∈ slots g := by
    rw [latestIndex]
    cases hstored : s.media.index with
    | none => exact zero_mem_slots g
    | some index => exact h.index index hstored
  refine inv_verifyIndex (s := { s with
    running := true
    payloadHandler := none
    record := ⟨_, _, 0⟩ }) hP ⟨?_, h.index, h.markers, h.accessed⟩ w
  show (if indexRead then latestIndex s.media else (0, 0)).1 ∈ slots g
  split_ifs
  · exact hindex
  · exact zero_mem_slots g

theorem inv_addEntry (hP : ∀ offset ∈ slots g, P offset) (h : Inv g P s) (src : Client)
    (data : List UInt8) (index entry : Written) :
    Inv g P (addEntry g s src data index entry).2 := by
  have hnext := mapsTo_incrementOffset g h.head
  have hstamped : Inv g P { s with
      record := { s.record with entryTimestamp := (s.record.latestTimestamp + 1) % 2 ^ 64 } } :=
    ⟨h.head, h.index, h.markers, h.accessed⟩
  have hindexed := @inv_writeIndex _ _ _ hstamped (incrementOffset g s.record.latestOffset,
    (s.record.latestTimestamp + 1) % 2 ^ 64) hnext index
  rw [addEntry]
  dsimp only
  split
  · next s₁ hresult =>
      rw [hresult] at hindexed
      exact hindexed
  · next s₁ hresult =>
      rw [hresult] at hindexed
      have hmoved : Inv g P { s₁ with
          record := ⟨incrementOffset g s.record.latestOffset,
            (s.record.latestTimestamp + 1) % 2 ^ 64, (s.record.latestTimestamp + 1) % 2 ^ 64⟩
          payloadHandler := some src } :=
        ⟨hnext, hindexed.index, hindexed.markers, hindexed.accessed⟩
      exact inv_writeToMedia hmoved (hP _ hnext) data entry

theorem inv_clearAllEntries (hP : ∀ offset ∈ slots g, P offset) (h : Inv g P s)
    (clearing : Clearing) (index : Written) :
    Inv g P (clearAllEntries g s clearing index).2 := by
  have hreset : Inv g P (resetHead { s with
      media := { s.media with entries := clearing.leaves s.media.entries } }) :=
    ⟨zero_mem_slots g, h.index, h.markers, h.accessed⟩
  cases clearing with
  | done => exact inv_writeIndex hreset hreset.head index
  | failed kept =>
      have hscan := inv_scanAllEntries hP hreset
      exact inv_writeIndex hscan hscan.head index

def beginHereMarker : Operation → Option EntryMarker
  | .getNext _ entryMarker _ => some entryMarker
  | .getPrevious _ entryMarker _ => some entryMarker
  | _ => none

theorem inv_perform (hP : ∀ offset ∈ slots g, P offset)
    (hincrement : ∀ offset, P offset → P (incrementOffset g offset))
    (hdecrement : ∀ offset, P offset → P (decrementOffset g offset)) (h : Inv g P s)
    (operation : Operation)
    (hbegin : ∀ entryMarker ∈ beginHereMarker operation, P entryMarker.mediaOffset) :
    Inv g P (perform g s operation) := by
  cases operation with
  | start indexRead index => exact inv_start hP h indexRead index
  | stop => exact ⟨h.head, h.index, h.markers, h.accessed⟩
  | getLatest dst => exact inv_getByOffset h (hP _ h.head) dst
  | getNext newerThan entryMarker dst =>
      exact inv_search hincrement _ dst _ (hincrement _ (hbegin _ rfl)) h
  | getPrevious olderThan entryMarker dst =>
      exact inv_search hdecrement _ dst _ (hdecrement _ (hbegin _ rfl)) h
  | getByBufferIndex bufferIndex dst =>
      rw [perform, getByBufferIndex]
      split_ifs with hindex
      · exact h
      · have hslot := (bijOn_bufferOffset g).mapsTo (Nat.not_lt.mp hindex)
        exact inv_getByOffset h (hP _ hslot) dst
  | addEntry src data index entry => exact inv_addEntry hP h src data index entry
  | clearAllEntries clearing index => exact inv_clearAllEntries hP h clearing index

/-- A search begins at a marker that the record gave out. -/
def MarkersGiven (s : Session) (call : Call) : Prop :=
  ∀ entryMarker ∈ beginHereMarker call.operation, entryMarker ∈ s.markers

instance decidableMarkersGiven (s : Session) (call : Call) : Decidable (MarkersGiven s call) :=
  inferInstanceAs (Decidable (∀ entryMarker ∈ beginHereMarker call.operation,
    entryMarker ∈ s.markers))

theorem inv_step (hP : ∀ offset ∈ slots g, P offset)
    (hincrement : ∀ offset, P offset → P (incrementOffset g offset))
    (hdecrement : ∀ offset, P offset → P (decrementOffset g offset)) (h : Inv g P s) (call : Call)
    (hbegin : ∀ entryMarker ∈ beginHereMarker call.operation, P entryMarker.mediaOffset)
    (hstep : step g s call = some s') : Inv g P s' := by
  have hbegun : Inv g P (begin s call.readFails) :=
    ⟨h.head, h.index, h.markers, fun _ hmem => absurd hmem List.not_mem_nil⟩
  have hperform := inv_perform hP hincrement hdecrement hbegun call.operation hbegin
  rw [step] at hstep
  split at hstep
  · next hoperation =>
      rw [hoperation] at hperform
      rwa [← Option.some.inj hstep]
  · exact absurd hstep.symm (Option.some_ne_none _)
  · rwa [← Option.some.inj hstep]

theorem inv_fresh {media : Media} (hindex : media.index = none) (P : Nat → Prop) :
    Inv g P (fresh media) where
  head := zero_mem_slots g
  index _ hsome := absurd (hindex.symm.trans hsome) (Option.some_ne_none _).symm
  markers _ hmem := absurd hmem List.not_mem_nil
  accessed _ hmem := absurd hmem List.not_mem_nil

/-- In every state that a record reaches from media without an index record, the head is on a slot;
if the searches began at markers that the record gave out, each read and write of the call was in a
slot, and so in the region.  Increment and decrement are inverse bijections of the slots, and the
buffer indices up to the largest reach each slot once, while the others are rejected. -/
theorem offsets_sound (g : Geometry) {media : Media} (hindex : media.index = none)
    {calls : List Call} (hrun : run (step g) (fresh media) calls = some s) :
    (s.record.latestOffset ∈ slots g ∧ s.record.latestOffset ≤ g.maxOffset) ∧
      (AllSteps (step g) MarkersGiven (fresh media) calls → ∀ offset ∈ s.accessed,
        offset ∈ slots g ∧ offset + g.entrySize ≤ g.regionLength) ∧
      (Set.BijOn (incrementOffset g) (slots g) (slots g) ∧
        Set.BijOn (decrementOffset g) (slots g) (slots g) ∧
        Set.InvOn (decrementOffset g) (incrementOffset g) (slots g) (slots g)) ∧
      Set.BijOn (bufferOffset g) {i | i ≤ getMaxIndex g} (slots g) ∧
      (∀ i ≤ getMaxIndex g, ∀ dst,
        getByBufferIndex g s i dst = getByOffset s (bufferOffset g i) dst) ∧
      ∀ i > getMaxIndex g, ∀ dst, getByBufferIndex g s i dst = (none, s) := by
  have hanywhere : Inv g (fun _ => True) s := by
    refine invariant_always (I := Inv g fun _ => True) ?_ (inv_fresh hindex _) hrun
    exact fun s call next h hstep => inv_step (fun _ _ => trivial) (fun _ _ => trivial)
      (fun _ _ => trivial) h call (fun _ _ => trivial) hstep
  refine ⟨⟨hanywhere.head, le_maxOffset hanywhere.head⟩, ?_, ⟨bijOn_incrementOffset g,
    bijOn_decrementOffset g, invOn_offsets g⟩, bijOn_bufferOffset g, ?_, ?_⟩
  · intro hall offset hoffset
    have hinv : Inv g (· ∈ slots g) s := by
      refine invariant (I := Inv g (· ∈ slots g)) ?_ (inv_fresh hindex _) hall hrun
      intro s call next h hgiven hstep
      exact inv_step (fun _ hslot => hslot) (fun _ hslot => mapsTo_incrementOffset g hslot)
        (fun _ hslot => mapsTo_decrementOffset g hslot) h call
        (fun entryMarker hbegin => h.markers entryMarker (hgiven entryMarker hbegin)) hstep
    have hslot := hinv.accessed offset hoffset
    exact ⟨hslot, end_le_regionLength hslot⟩
  · exact fun i hi dst => if_neg (Nat.not_lt.mpr hi)
  · exact fun i hi dst => if_pos hi

def leftOver : Geometry := ⟨12, 40, by decide, by decide⟩

/-- Three entries, and a step back from the latest, which has come round to offset 0. -/
def wrapping : List Call :=
  let dst : EntryFailures.Client := ⟨0, fun _ => true⟩
  [.start true .done, .addEntry dst [1] .done .done, .addEntry dst [2] .done .done,
    .addEntry dst [3] .done .done, .getLatest dst, .getPrevious 3 ⟨3, 0⟩ dst].map
      fun operation => ⟨operation, fun _ => false⟩

theorem offsets_sound_wrapping :
    ∃ s, run (step leftOver) (fresh ⟨fun _ => none, none⟩) wrapping = some s ∧
      s.accessed = [24] ∧ (s.record.latestOffset ∈ slots leftOver) ∧
      ∀ offset ∈ s.accessed, offset ∈ slots leftOver ∧ offset + 12 ≤ 40 := by
  have hsome : (run (step leftOver) (fresh ⟨fun _ => none, none⟩) wrapping).isSome := by decide
  obtain ⟨s, hrun⟩ := Option.isSome_iff_exists.mp hsome
  have haccessed : (run (step leftOver) (fresh ⟨fun _ => none, none⟩) wrapping).map
      Session.accessed = some [24] := by decide
  rw [hrun] at haccessed
  obtain ⟨⟨hhead, _⟩, hreads, _⟩ := offsets_sound leftOver rfl hrun
  exact ⟨s, hrun, Option.some.inj haccessed, hhead, hreads (by decide)⟩

end ColonyPico.Persistent.EntryOffsets
