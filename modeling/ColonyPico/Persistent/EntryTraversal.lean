import ColonyPico.Persistent.CrashRecovery

/-!
Walking through the entries of an indexed entry record, newest to oldest and back
(`Cpl::Persistent::IndexedEntryReader`).
-/

namespace ColonyPico.Persistent.EntryTraversal

open ColonyPico.Foundations.OrbitSearch
open ColonyPico.Foundations.RingOrder
open ColonyPico.Persistent.IndexedEntryRecord
open ColonyPico.Persistent.CrashRecovery

structure EntryMarker where
  indexValue : Nat
  mediaOffset : Nat
  deriving DecidableEq, Repr

/-- What a successful read hands out: the marker, and the data put into the payload. -/
structure Found where
  marker : EntryMarker
  data : List UInt8
  deriving DecidableEq, Repr

/-- `decrementOffset()`; the subtraction of a larger size wraps around. -/
def decrementOffset (g : Geometry) (offsetToDecrement : Nat) : Nat :=
  if offsetToDecrement < g.entrySize then g.maxOffset else offsetToDecrement - g.entrySize

def getByOffset (m : Media) (offset : Nat) : Option Found :=
  (m.entries offset).map fun e => ⟨⟨e.timestamp, offset⟩, e.data⟩

def getLatest (m : Media) (r : Record) : Option Found :=
  getByOffset m r.latestOffset

def getNext (g : Geometry) (m : Media) (newerThan : Nat) (beginHereMarker : EntryMarker) :
    Option Found :=
  firstAlong (incrementOffset g)
    (fun offset => (getByOffset m offset).filter fun x => newerThan < x.marker.indexValue)
    (g.maxEntries - 1) (incrementOffset g beginHereMarker.mediaOffset)

def getPrevious (g : Geometry) (m : Media) (olderThan : Nat) (beginHereMarker : EntryMarker) :
    Option Found :=
  firstAlong (decrementOffset g)
    (fun offset => (getByOffset m offset).filter fun x => x.marker.indexValue < olderThan)
    (g.maxEntries - 1) (decrementOffset g beginHereMarker.mediaOffset)

/-- `getPrevious()` called with each marker it returns, until it returns nothing. -/
inductive WalksBack (g : Geometry) (m : Media) : Found → List Found → Prop
  | stop {x : Found} : getPrevious g m x.marker.indexValue x.marker = none → WalksBack g m x []
  | back {x y : Found} {l : List Found} : getPrevious g m x.marker.indexValue x.marker = some y →
      WalksBack g m y l → WalksBack g m x (y :: l)

/-- A valid entry in one of the slots. -/
def Stored (g : Geometry) (m : Media) (x : Found) : Prop :=
  ∃ i < g.maxEntries, getByOffset m (i * g.entrySize) = some x

/-- The nearest stored entry above an index value, if there is one. -/
def IsNext (g : Geometry) (m : Media) (newerThan : Nat) : Option Found → Prop
  | none => ∀ y, Stored g m y → y.marker.indexValue ≤ newerThan
  | some x => Stored g m x ∧ newerThan < x.marker.indexValue ∧
      ∀ y, Stored g m y → newerThan < y.marker.indexValue →
        x.marker.indexValue ≤ y.marker.indexValue

/-- The nearest stored entry below an index value, if there is one. -/
def IsPrevious (g : Geometry) (m : Media) (olderThan : Nat) : Option Found → Prop
  | none => ∀ y, Stored g m y → olderThan ≤ y.marker.indexValue
  | some x => Stored g m x ∧ x.marker.indexValue < olderThan ∧
      ∀ y, Stored g m y → y.marker.indexValue < olderThan →
        y.marker.indexValue ≤ x.marker.indexValue

/-- The walk back from the latest entry meets every stored entry once, in decreasing
order of the index values; without a latest entry there is none. -/
def WalkComplete (g : Geometry) (m : Media) : Option Found → Prop
  | none => ∀ y, ¬ Stored g m y
  | some x => ∃ l, WalksBack g m x l ∧
      (x :: l).Pairwise (fun y z => z.marker.indexValue < y.marker.indexValue) ∧
      ∀ y, y ∈ x :: l ↔ Stored g m y

/-- Both directions of the traversal. -/
def Traversable (g : Geometry) (m : Media) (r : Record) : Prop :=
  WalkComplete g m (getLatest m r) ∧
    ∀ x, Stored g m x →
      IsNext g m x.marker.indexValue (getNext g m x.marker.indexValue x.marker)

variable {g : Geometry} {m : Media}

theorem decrementOffset_slot (g : Geometry) (p : Nat) (hp : p < g.maxEntries) :
    decrementOffset g (p * g.entrySize) = prev g.maxEntries p * g.entrySize := by
  have hpos := g.entrySize_pos
  rw [decrementOffset, Geometry.maxOffset, prev]
  cases p with
  | zero => simp [hpos]
  | succ p =>
      have hle : ¬ (p + 1) * g.entrySize < g.entrySize := by
        rw [Nat.succ_mul]
        omega
      rw [if_neg hle, if_neg (Nat.succ_ne_zero p), Nat.succ_mul, Nat.add_sub_cancel,
        Nat.add_sub_cancel]

/-- What is found in a slot that holds an entry. -/
def found (g : Geometry) (x : Nat × Entry) : Found :=
  ⟨⟨x.2.timestamp, x.1 * g.entrySize⟩, x.2.data⟩

/-- The entry in a slot. -/
def slotEntry (g : Geometry) (m : Media) (i : Nat) : Option Entry :=
  m.entries (i * g.entrySize)

theorem getByOffset_slot (i : Nat) :
    getByOffset m (i * g.entrySize) = (slotEntry g m i).map fun e => found g (i, e) :=
  rfl

theorem stored_iff {x : Found} :
    Stored g m x ↔ ∃ i < g.maxEntries, ∃ e, slotEntry g m i = some e ∧ x = found g (i, e) := by
  rw [Stored]
  constructor
  · rintro ⟨i, hi, hx⟩
    rw [getByOffset_slot] at hx
    obtain ⟨e, he, rfl⟩ := Option.map_eq_some_iff.mp hx
    exact ⟨i, hi, e, he, rfl⟩
  · rintro ⟨i, hi, e, he, rfl⟩
    refine ⟨i, hi, ?_⟩
    rw [getByOffset_slot, he]
    rfl

/-- The test of a slot by its index value, over slots in place of offsets. -/
theorem filter_slot {κ : Type} [LinearOrder κ] (key : Nat → κ) (a : κ) (i : Nat) :
    ((getByOffset m (i * g.entrySize)).filter fun x => a < key x.marker.indexValue) =
      (beyond (slotEntry g m) (fun e => key e.timestamp) a i).map (found g) := by
  rw [getByOffset_slot, beyond]
  cases slotEntry g m i with
  | none => rfl
  | some e =>
      by_cases hlt : a < key e.timestamp
      · simp [found, hlt]
      · simp [found, hlt, not_lt.mp hlt]

theorem getNext_slot (newerThan : Nat) {i : Nat} (hi : i < g.maxEntries) {e : Entry} :
    getNext g m newerThan (found g (i, e)).marker =
      (firstAlong (next g.maxEntries) (beyond (slotEntry g m) Entry.timestamp newerThan)
        (g.maxEntries - 1) (next g.maxEntries i)).map (found g) := by
  have hstart : incrementOffset g (found g (i, e)).marker.mediaOffset =
      next g.maxEntries i * g.entrySize := incrementOffset_slot g i hi
  rw [getNext, hstart]
  exact firstAlong_congr (fun i => i * g.entrySize) (· < g.maxEntries)
    (fun _ => next_lt) (incrementOffset_slot g) (fun i _ => filter_slot id newerThan i) _
    (next_lt hi)

theorem getPrevious_slot (olderThan : Nat) {i : Nat} (hi : i < g.maxEntries) {e : Entry} :
    getPrevious g m olderThan (found g (i, e)).marker =
      (firstAlong (prev g.maxEntries)
        (beyond (slotEntry g m) (fun e => OrderDual.toDual e.timestamp)
          (OrderDual.toDual olderThan))
        (g.maxEntries - 1) (prev g.maxEntries i)).map (found g) := by
  have hstart : decrementOffset g (found g (i, e)).marker.mediaOffset =
      prev g.maxEntries i * g.entrySize := decrementOffset_slot g i hi
  rw [getPrevious, hstart]
  exact firstAlong_congr (fun i => i * g.entrySize) (· < g.maxEntries)
    (fun _ => prev_lt) (decrementOffset_slot g)
    (fun i _ => filter_slot OrderDual.toDual (OrderDual.toDual olderThan) i) _ (prev_lt hi)

section Running

variable {r : Record}

theorem sorted_slotEntry (h : RunOk g m r) :
    ∃ p < g.maxEntries,
      Sorted g.maxEntries p fun i => (slotEntry g m i).map Entry.timestamp := by
  obtain ⟨p, hp, -, hsorted⟩ := h.slot
  exact ⟨p, hp, hsorted⟩

theorem isNext_getNext (h : RunOk g m r) {x : Found} (hx : Stored g m x) :
    IsNext g m x.marker.indexValue (getNext g m x.marker.indexValue x.marker) := by
  obtain ⟨p, hp, hsorted⟩ := sorted_slotEntry h
  obtain ⟨i, hi, e, he, rfl⟩ := stored_iff.mp hx
  have hahead := ahead_next hsorted hp hi he
  rw [getNext_slot _ hi]
  cases hsearch : firstAlong (next g.maxEntries)
      (beyond (slotEntry g m) Entry.timestamp (found g (i, e)).marker.indexValue)
      (g.maxEntries - 1) (next g.maxEntries i) with
  | none =>
      intro y hy
      obtain ⟨j, hj, e', he', rfl⟩ := stored_iff.mp hy
      exact hahead.eq_none hsearch j e' hj he'
  | some z =>
      obtain ⟨hplace, hvalue, hlt, hleast⟩ := hahead.eq_some hsearch
      refine ⟨stored_iff.mpr ⟨z.1, hplace, z.2, hvalue, rfl⟩, hlt, ?_⟩
      intro y hy hylt
      obtain ⟨j, hj, e', he', rfl⟩ := stored_iff.mp hy
      exact hleast j e' hj he' hylt

theorem isPrevious_getPrevious (h : RunOk g m r) {x : Found} (hx : Stored g m x) :
    IsPrevious g m x.marker.indexValue (getPrevious g m x.marker.indexValue x.marker) := by
  obtain ⟨p, hp, hsorted⟩ := sorted_slotEntry h
  obtain ⟨i, hi, e, he, rfl⟩ := stored_iff.mp hx
  have hahead := ahead_prev hsorted hp hi he
  rw [getPrevious_slot _ hi]
  cases hsearch : firstAlong (prev g.maxEntries)
      (beyond (slotEntry g m) (fun e => OrderDual.toDual e.timestamp)
        (OrderDual.toDual (found g (i, e)).marker.indexValue))
      (g.maxEntries - 1) (prev g.maxEntries i) with
  | none =>
      intro y hy
      obtain ⟨j, hj, e', he', rfl⟩ := stored_iff.mp hy
      exact OrderDual.toDual_le_toDual.mp (hahead.eq_none hsearch j e' hj he')
  | some z =>
      obtain ⟨hplace, hvalue, hlt, hgreatest⟩ := hahead.eq_some hsearch
      refine ⟨stored_iff.mpr ⟨z.1, hplace, z.2, hvalue, rfl⟩, OrderDual.toDual_lt_toDual.mp hlt, ?_⟩
      intro y hy hylt
      obtain ⟨j, hj, e', he', rfl⟩ := stored_iff.mp hy
      exact OrderDual.toDual_le_toDual.mp
        (hgreatest j e' hj he' (OrderDual.toDual_lt_toDual.mpr hylt))

/-- An index value names one stored entry. -/
theorem stored_inj (h : RunOk g m r) {x y : Found} (hx : Stored g m x) (hy : Stored g m y)
    (hindex : x.marker.indexValue = y.marker.indexValue) : x = y := by
  obtain ⟨p, hp, hsorted⟩ := sorted_slotEntry h
  obtain ⟨i, hi, e, he, rfl⟩ := stored_iff.mp hx
  obtain ⟨j, hj, e', he', rfl⟩ := stored_iff.mp hy
  have hij : i = j := hsorted.inj hp hi hj (congrArg (Option.map Entry.timestamp) he)
    ((congrArg (Option.map Entry.timestamp) he').trans (congrArg some hindex.symm))
  subst hij
  rw [he] at he'
  rw [Option.some.inj he']

/-- The walk back from a stored entry meets the stored entries up to it. -/
theorem walksBack_of_stored (h : RunOk g m r) {x : Found} (hx : Stored g m x) :
    ∃ l, WalksBack g m x l ∧
      (x :: l).Pairwise (fun y z => z.marker.indexValue < y.marker.indexValue) ∧
      ∀ y, y ∈ x :: l ↔ Stored g m y ∧ y.marker.indexValue ≤ x.marker.indexValue := by
  -- each step of the walk lowers the index value
  induction hn : x.marker.indexValue using Nat.strong_induction_on generalizing x with
  | _ n ih =>
      subst hn
      have hprevious := isPrevious_getPrevious h hx
      cases hsearch : getPrevious g m x.marker.indexValue x.marker with
      | none =>
          rw [hsearch] at hprevious
          refine ⟨[], .stop hsearch, List.pairwise_singleton _ _, fun y => ?_⟩
          rw [List.mem_singleton]
          constructor
          · rintro rfl
            exact ⟨hx, le_rfl⟩
          · rintro ⟨hy, hle⟩
            exact stored_inj h hy hx (le_antisymm hle (hprevious y hy))
      | some z =>
          rw [hsearch] at hprevious
          obtain ⟨hz, hzlt, hgreatest⟩ := hprevious
          obtain ⟨l, hwalk, hsorted, hmem⟩ := ih _ hzlt hz rfl
          refine ⟨z :: l, .back hsearch hwalk, List.pairwise_cons.mpr ⟨?_, hsorted⟩, fun y => ?_⟩
          · intro y hy
            exact lt_of_le_of_lt ((hmem y).mp hy).2 hzlt
          · rw [List.mem_cons, hmem]
            constructor
            · rintro (rfl | ⟨hy, hle⟩)
              · exact ⟨hx, le_rfl⟩
              · exact ⟨hy, le_of_lt (lt_of_le_of_lt hle hzlt)⟩
            · rintro ⟨hy, hle⟩
              rcases lt_or_eq_of_le hle with hlt | heq
              · exact .inr ⟨hy, hgreatest y hy hlt⟩
              · exact .inl (stored_inj h hy hx heq)

theorem traversable_of_runOk (h : RunOk g m r) : Traversable g m r := by
  refine ⟨?_, fun x hx => isNext_getNext h hx⟩
  obtain ⟨p, hp, hoffset, -⟩ := h.slot
  have hlatest : getLatest m r = (slotEntry g m p).map fun e => found g (p, e) := by
    rw [getLatest, hoffset, getByOffset_slot]
  rw [hlatest]
  cases he : slotEntry g m p with
  | none =>
      rintro y hy
      obtain ⟨i, hi, e, hslot, rfl⟩ := stored_iff.mp hy
      rcases h.latest with ⟨-, -, hempty⟩ | ⟨htop, -⟩
      · have hnone := hempty i hi
        rw [slotTimestamp, Option.map_eq_none_iff] at hnone
        exact Option.some_ne_none e (hslot.symm.trans hnone)
      · rw [slotEntry] at he
        rw [hoffset, he] at htop
        exact Option.some_ne_none _ htop.symm
  | some top =>
      have hx : Stored g m (found g (p, top)) := stored_iff.mpr ⟨p, hp, top, he, rfl⟩
      obtain ⟨l, hwalk, hsorted, hmem⟩ := walksBack_of_stored h hx
      refine ⟨l, hwalk, hsorted, fun y => ⟨fun hy => ((hmem y).mp hy).1, fun hy => ?_⟩⟩
      refine (hmem y).mpr ⟨hy, ?_⟩
      obtain ⟨i, hi, e, hslot, rfl⟩ := stored_iff.mp hy
      have htime : slotTimestamp g m i = some e.timestamp :=
        congrArg (Option.map Entry.timestamp) hslot
      rcases h.latest with ⟨-, -, hempty⟩ | ⟨htop, hmax⟩
      · rw [hempty i hi] at htime
        exact absurd htime (Option.some_ne_none _).symm
      · rw [slotEntry] at he
        rw [hoffset, he] at htop
        have htop' : top.timestamp = r.latestTimestamp := Option.some.inj htop
        exact le_trans (hmax i hi _ htime) (le_of_eq htop'.symm)

end Running

/-- The record can be walked through whenever it is running. -/
theorem run_traversable (g : Geometry) (steps : List Step)
    (h : AllCovered g State.virgin steps) (r : Record) (hr : (run g steps).record = some r) :
    Traversable g (run g steps).media r :=
  traversable_of_runOk ((stateOk_foldl (stateOk_virgin g) steps h).2 r hr)

/-- Five entries in three slots. -/
theorem run_traversable_threeSlots :
    Traversable threeSlots
      (run threeSlots [.start, .addEntry [1], .addEntry [2], .addEntry [3], .addEntry [4],
        .addEntry [5]]).media ⟨20, 5, 5⟩ :=
  run_traversable threeSlots _ (by decide) _ (by decide)

/-- A payload that supplies nothing moves the head to a slot without an entry: the
entry before it cannot be reached from the latest one. -/
theorem run_traversable_fails_without_data :
    (run threeSlots [.start, .addEntry [1], .addEntry []]).record = some ⟨20, 2, 2⟩ ∧
      ¬ Traversable threeSlots
        (run threeSlots [.start, .addEntry [1], .addEntry []]).media ⟨20, 2, 2⟩ := by
  refine ⟨by decide, ?_⟩
  intro h
  have hstored : Stored threeSlots (run threeSlots [.start, .addEntry [1], .addEntry []]).media
      ⟨⟨1, 10⟩, [1]⟩ := ⟨1, by decide, by decide⟩
  exact h.1 ⟨⟨1, 10⟩, [1]⟩ hstored

end ColonyPico.Persistent.EntryTraversal
