import ColonyPico.Persistent.IndexedEntryRecord

/-!
What an indexed entry record knows after a crash and a restart.
-/

namespace ColonyPico.Persistent.CrashRecovery

open ColonyPico.Foundations.RingOrder
open ColonyPico.Persistent.IndexedEntryRecord

variable (g : Geometry)

/-- The timestamp of the entry in a slot, if it is valid. -/
def slotTimestamp (m : Media) (i : Nat) : Option Nat :=
  (m.entries (i * g.entrySize)).map Entry.timestamp

/-- The record knows the latest entry, or that there is none. -/
def KnowsLatest (m : Media) (r : Record) : Prop :=
  (r.latestOffset = 0 ∧ r.latestTimestamp = 0 ∧ ∀ i < g.maxEntries, slotTimestamp g m i = none) ∨
    ((m.entries r.latestOffset).map Entry.timestamp = some r.latestTimestamp ∧
      ∀ i < g.maxEntries, ∀ t, slotTimestamp g m i = some t → t ≤ r.latestTimestamp)

/-- What the next `addEntry()` does: it stores a timestamp larger than all there are,
in a slot that is free or holds the oldest entry, and touches no other. -/
structure AddsNext (m : Media) (r : Record) (data : List UInt8) : Prop where
  stored : ∃ e, (addEntry g m r data).1.entries (incrementOffset g r.latestOffset) = some e ∧
    e.data = data ∧ ∀ i < g.maxEntries, ∀ t, slotTimestamp g m i = some t → t < e.timestamp
  oldest : ∀ e, m.entries (incrementOffset g r.latestOffset) = some e →
    ∀ i < g.maxEntries, ∀ t, slotTimestamp g m i = some t → e.timestamp ≤ t
  frame : ∀ offset, offset ≠ incrementOffset g r.latestOffset →
    (addEntry g m r data).1.entries offset = m.entries offset

/-- The timestamp counter has not reached its end. -/
def Counts (r : Record) : Prop :=
  r.latestTimestamp + 1 < 2 ^ 64

/-- A record that is running can go on: it knows the latest entry and adds the next
one where it should. -/
def Recovered (m : Media) (r : Record) : Prop :=
  KnowsLatest g m r ∧ ∀ data, data ≠ [] → Counts r → AddsNext g m r data

theorem incrementOffset_slot (p : Nat) (hp : p < g.maxEntries) :
    incrementOffset g (p * g.entrySize) = next g.maxEntries p * g.entrySize := by
  have hsum : p * g.entrySize + g.entrySize = (p + 1) * g.entrySize := by ring
  have hiff : (p + 1) * g.entrySize > (g.maxEntries - 1) * g.entrySize ↔
      p + 1 > g.maxEntries - 1 := Nat.mul_lt_mul_right g.entrySize_pos
  rw [incrementOffset, Geometry.maxOffset, hsum, next]
  split_ifs with h1 h2 h2
  · rw [hiff] at h1
    omega
  · simp
  · rfl
  · rw [hiff] at h1
    omega

/-- The media between runs: entries in ring order, and an index record that is right
if it matches an entry at all. -/
structure MediaOk (m : Media) : Prop where
  sorted : ∃ p < g.maxEntries, Sorted g.maxEntries p (slotTimestamp g m)
  pos : ∀ i < g.maxEntries, ∀ t, slotTimestamp g m i = some t → 0 < t
  slot : ∃ i < g.maxEntries, (latestIndex m).1 = i * g.entrySize
  newest : indexMatches m = true →
    ∀ i < g.maxEntries, ∀ t, slotTimestamp g m i = some t → t ≤ (latestIndex m).2

/-- The media of a running record. -/
structure RunOk (m : Media) (r : Record) : Prop where
  index : m.index = some (r.latestOffset, r.latestTimestamp)
  slot : ∃ p < g.maxEntries, r.latestOffset = p * g.entrySize ∧
    Sorted g.maxEntries p (slotTimestamp g m)
  pos : ∀ i < g.maxEntries, ∀ t, slotTimestamp g m i = some t → 0 < t
  latest : KnowsLatest g m r

variable {g}

theorem KnowsLatest.le {m : Media} {r : Record} (h : KnowsLatest g m r) (i : Nat)
    (hi : i < g.maxEntries) (t : Nat) (ht : slotTimestamp g m i = some t) :
    t ≤ r.latestTimestamp := by
  rcases h with ⟨-, -, hnone⟩ | ⟨-, hle⟩
  · rw [hnone i hi] at ht
    exact absurd ht (by simp)
  · exact hle i hi t ht

theorem RunOk.mediaOk {m : Media} {r : Record} (h : RunOk g m r) : MediaOk g m := by
  obtain ⟨p, hp, hoffset, hsorted⟩ := h.slot
  have hindex : latestIndex m = (r.latestOffset, r.latestTimestamp) := by
    rw [latestIndex, h.index, Option.getD_some]
  exact ⟨⟨p, hp, hsorted⟩, h.pos, ⟨p, hp, by rw [hindex]; exact hoffset⟩,
    fun _ i hi t ht => by rw [hindex]; exact h.latest.le i hi t ht⟩

theorem slotTimestamp_update (m : Media) (index : Option (Nat × Nat)) (p : Nat)
    (e : Option Entry) :
    slotTimestamp g { entries := Function.update m.entries (p * g.entrySize) e, index := index } =
      Function.update (slotTimestamp g m) p (e.map Entry.timestamp) := by
  funext i
  by_cases hi : i = p
  · subst i
    simp [slotTimestamp]
  · have hne : i * g.entrySize ≠ p * g.entrySize := fun h =>
      hi (Nat.eq_of_mul_eq_mul_right g.entrySize_pos h)
    simp [slotTimestamp, Function.update_of_ne hi, Function.update_of_ne hne]

theorem addEntry_of_data (g : Geometry) (m : Media) (r : Record) (data : List UInt8)
    (hdata : data ≠ []) (hcounts : Counts r) :
    addEntry g m r data =
      ({ index := some (incrementOffset g r.latestOffset, r.latestTimestamp + 1)
         entries := Function.update m.entries (incrementOffset g r.latestOffset)
          (some ⟨r.latestTimestamp + 1, data⟩) },
        { latestOffset := incrementOffset g r.latestOffset
          latestTimestamp := r.latestTimestamp + 1
          entryTimestamp := r.latestTimestamp + 1 }, true) := by
  have hlen : data.length ≠ 0 := by simpa using hdata
  have hts : (r.latestTimestamp + 1) % 2 ^ 64 = r.latestTimestamp + 1 :=
    Nat.mod_eq_of_lt hcounts
  simp only [addEntry, if_neg hlen, nextIndex, hts]

theorem runOk_recovered {m : Media} {r : Record} (h : RunOk g m r) : Recovered g m r := by
  refine ⟨h.latest, fun data hdata hcounts => ?_⟩
  obtain ⟨p, hp, hoffset, hsorted⟩ := h.slot
  have hadd := addEntry_of_data g m r data hdata hcounts
  refine ⟨⟨⟨r.latestTimestamp + 1, data⟩, ?_, rfl, fun i hi t ht => ?_⟩, ?_, ?_⟩
  · rw [hadd]
    exact Function.update_self _ _ _
  · exact Nat.lt_succ_of_le (h.latest.le i hi t ht)
  · intro e he i hi t ht
    rw [hoffset, incrementOffset_slot g p hp] at he
    exact hsorted.le_of_next hp (by rw [slotTimestamp, he]; rfl) i t hi ht
  · intro offset hne
    rw [hadd]
    exact Function.update_of_ne hne _ _

theorem runOk_addEntry {m : Media} {r : Record} (h : RunOk g m r) (data : List UInt8)
    (hdata : data ≠ []) (hcounts : Counts r) :
    RunOk g (addEntry g m r data).1 (addEntry g m r data).2.1 := by
  obtain ⟨p, hp, hoffset, hsorted⟩ := h.slot
  have hnext : incrementOffset g r.latestOffset = next g.maxEntries p * g.entrySize := by
    rw [hoffset, incrementOffset_slot g p hp]
  have hlt : ∀ i t, i < g.maxEntries → slotTimestamp g m i = some t →
      t < r.latestTimestamp + 1 := fun i t hi ht => Nat.lt_succ_of_le (h.latest.le i hi t ht)
  rw [addEntry_of_data g m r data hdata hcounts, hnext]
  refine ⟨rfl, ⟨next g.maxEntries p, next_lt hp, rfl, ?_⟩, fun i hi t => ?_, .inr ⟨?_, ?_⟩⟩
  · rw [slotTimestamp_update]
    exact hsorted.push hp hlt
  · rw [slotTimestamp_update]
    by_cases hi' : i = next g.maxEntries p
    · rw [hi', Function.update_self]
      rintro ⟨⟩
      exact Nat.succ_pos _
    · rw [Function.update_of_ne hi']
      exact h.pos i hi t
  · simp only [Function.update_self, Option.map_some]
  · intro i hi t
    rw [slotTimestamp_update]
    by_cases hi' : i = next g.maxEntries p
    · rw [hi', Function.update_self]
      rintro ⟨⟩
      exact le_rfl
    · rw [Function.update_of_ne hi']
      exact fun ht => Nat.le_of_lt (hlt i t hi ht)

/-- Losing entries and leaving the index record alone keeps the media in order. -/
theorem MediaOk.mono {m m' : Media} (h : MediaOk g m) (hindex : m'.index = m.index)
    (hsub : ∀ offset e, m'.entries offset = some e → m.entries offset = some e) :
    MediaOk g m' := by
  have hslots : ∀ i t, slotTimestamp g m' i = some t → slotTimestamp g m i = some t := by
    intro i t ht
    obtain ⟨e, he, rfl⟩ := Option.map_eq_some_iff.mp ht
    rw [slotTimestamp, hsub _ _ he]
    rfl
  have hlatest : latestIndex m' = latestIndex m := by rw [latestIndex, latestIndex, hindex]
  obtain ⟨p, hp, hsorted⟩ := h.sorted
  refine ⟨⟨p, hp, hsorted.mono hslots⟩, fun i hi t ht => h.pos i hi t (hslots i t ht), ?_, ?_⟩
  · rw [hlatest]
    exact h.slot
  · intro hmatch i hi t ht
    rw [hlatest]
    refine h.newest ?_ i hi t (hslots i t ht)
    rw [indexMatches, hlatest] at hmatch
    rw [indexMatches]
    split at hmatch
    · exact absurd hmatch (by simp)
    · next e he => rw [hsub _ _ he]; exact hmatch

/-- Power lost in `addEntry()` leaves an index record that no entry matches yet, or
the one before. -/
theorem mediaOk_addEntryCut {m : Media} {r : Record} (h : RunOk g m r) (hcounts : Counts r)
    (cut : AddCut) : MediaOk g (addEntryCut g m r cut) := by
  obtain ⟨p, hp, hoffset, hsorted⟩ := h.slot
  have hts : (r.latestTimestamp + 1) % 2 ^ 64 = r.latestTimestamp + 1 :=
    Nat.mod_eq_of_lt hcounts
  have hafter : MediaOk g { m with index := some (nextIndex g r) } := by
    refine ⟨⟨p, hp, hsorted⟩, h.pos, ⟨next g.maxEntries p, next_lt hp, ?_⟩, ?_⟩
    · rw [← incrementOffset_slot g p hp, ← hoffset]
      rfl
    · intro _ i hi t ht
      refine le_trans (h.latest.le i hi t ht) ?_
      change r.latestTimestamp ≤ (r.latestTimestamp + 1) % 2 ^ 64
      omega
  cases cut with
  | beforeIndex => exact h.mediaOk
  | afterIndex => exact hafter
  | inEntry =>
      refine hafter.mono rfl fun offset e he => ?_
      by_cases ho : offset = (nextIndex g r).1
      · rw [ho] at he
        simp [addEntryCut] at he
      · simpa [addEntryCut, Function.update_of_ne ho] using he

theorem mediaOk_clearCut {m : Media} (h : MediaOk g m) (cut : Nat) :
    MediaOk g (clearCut m cut) := by
  refine h.mono rfl fun offset e he => ?_
  simp only [clearCut] at he
  split_ifs at he
  exact he

theorem maxEntries_pos (g : Geometry) : 0 < g.maxEntries := by
  have := g.one_le
  simp only [Geometry.maxEntries]
  omega

theorem runOk_clearAllEntries (r : Record) :
    RunOk g (clearAllEntries r).1 (clearAllEntries r).2 := by
  refine ⟨rfl, ⟨0, maxEntries_pos g, by simp [clearAllEntries], ?_⟩, ?_, .inl ⟨rfl, rfl, ?_⟩⟩
  · intro i j a b _ _ ha
    simp [clearAllEntries, slotTimestamp] at ha
  · intro i _ t ht
    simp [clearAllEntries, slotTimestamp] at ht
  · intro i _
    simp [clearAllEntries, slotTimestamp]

/-- What the scan knows after the slots below `i`. -/
def Scanned (g : Geometry) (m : Media) (i : Nat) (r : Record) : Prop :=
  (r.latestOffset = 0 ∧ r.latestTimestamp = 0 ∧ ∀ j < i, slotTimestamp g m j = none) ∨
    ∃ q < i, r.latestOffset = q * g.entrySize ∧
      slotTimestamp g m q = some r.latestTimestamp ∧
      ∀ j < i, ∀ t, slotTimestamp g m j = some t → t ≤ r.latestTimestamp

theorem scanned_consider {m : Media}
    (hpos : ∀ i < g.maxEntries, ∀ t, slotTimestamp g m i = some t → 0 < t) {i : Nat}
    (hi : i < g.maxEntries) {r : Record} (h : Scanned g m i r) :
    Scanned g m (i + 1) (consider m (i * g.entrySize) r) := by
  have hbelow : ∀ {P : Nat → Prop}, (∀ j < i, P j) → P i → ∀ j < i + 1, P j := by
    intro P hP hPi j hj
    rcases Nat.lt_succ_iff_lt_or_eq.mp hj with hlt | rfl
    · exact hP j hlt
    · exact hPi
  rw [consider]
  cases he : m.entries (i * g.entrySize) with
  | none =>
      have hnone : slotTimestamp g m i = none := by rw [slotTimestamp, he]; rfl
      rcases h with ⟨hoffset, hzero, hempty⟩ | ⟨q, hq, hoffset, htop, hmax⟩
      · exact .inl ⟨hoffset, hzero, hbelow hempty hnone⟩
      · refine .inr ⟨q, by omega, hoffset, htop, hbelow hmax fun t ht => ?_⟩
        rw [hnone] at ht
        exact absurd ht (by simp)
  | some e =>
      have hsome : slotTimestamp g m i = some e.timestamp := by rw [slotTimestamp, he]; rfl
      have hself : ∀ t, slotTimestamp g m i = some t → t ≤ e.timestamp := by
        intro t ht
        rw [hsome] at ht
        exact le_of_eq (Option.some.inj ht).symm
      simp only
      split_ifs with htake
      · refine .inr ⟨i, by omega, rfl, hsome, hbelow (fun j hj t ht => ?_) hself⟩
        rcases h with ⟨-, -, hempty⟩ | ⟨q, hq, -, htop, hmax⟩
        · rw [hempty j hj] at ht
          exact absurd ht (by simp)
        · have hle := hmax j hj t ht
          have htoppos := hpos q (by omega) _ htop
          simp only
          omega
      · rw [not_or] at htake
        rcases h with ⟨-, hzero, -⟩ | ⟨q, hq, hoffset, htop, hmax⟩
        · exact absurd hzero htake.2
        · exact .inr ⟨q, by omega, hoffset, htop,
            hbelow hmax fun t ht => le_trans (hself t ht) (Nat.le_of_not_lt htake.1)⟩

theorem scanned_scan {m : Media}
    (hpos : ∀ i < g.maxEntries, ∀ t, slotTimestamp g m i = some t → 0 < t) (fuel i : Nat)
    (hfuel : i + fuel = g.maxEntries) {r : Record} (h : Scanned g m i r) :
    Scanned g m g.maxEntries (scan g m fuel (i * g.entrySize) r) := by
  induction fuel generalizing i r with
  | zero =>
      rw [← hfuel]
      exact h
  | succ fuel ih =>
      have hle : i * g.entrySize ≤ g.maxOffset :=
        Nat.mul_le_mul_right _ (by omega)
      rw [scan, if_pos hle, ← Nat.succ_mul]
      exact ih (i + 1) (by omega) (scanned_consider hpos (by omega) h)

theorem scanned_scanAllEntries {m : Media}
    (hpos : ∀ i < g.maxEntries, ∀ t, slotTimestamp g m i = some t → 0 < t) (r : Record) :
    Scanned g m g.maxEntries (scanAllEntries g m r) := by
  have hscan := scanned_scan hpos g.maxEntries 0 (Nat.zero_add _)
    (r := { r with latestOffset := 0, latestTimestamp := 0 })
    (.inl ⟨rfl, rfl, fun j hj => absurd hj (Nat.not_lt_zero j)⟩)
  rwa [Nat.zero_mul] at hscan

theorem runOk_of_scanned {m : Media} (h : MediaOk g m) {r : Record}
    (hscan : Scanned g m g.maxEntries r) :
    RunOk g { m with index := some (r.latestOffset, r.latestTimestamp) } r := by
  obtain ⟨p, hp, hsorted⟩ := h.sorted
  rcases hscan with ⟨hoffset, hzero, hempty⟩ | ⟨top, htop, hoffset, htime, hmax⟩
  · refine ⟨rfl, ⟨0, maxEntries_pos g, by rw [hoffset, Nat.zero_mul], ?_⟩, h.pos,
      .inl ⟨hoffset, hzero, hempty⟩⟩
    exact fun i _ a _ hi _ ha => absurd ((hempty i hi).symm.trans ha) (by simp)
  · refine ⟨rfl, ⟨top, htop, hoffset, hsorted.of_max hp htop htime fun i t hi => hmax i hi t⟩,
      h.pos, .inr ⟨?_, hmax⟩⟩
    rw [hoffset]
    exact htime

theorem runOk_of_matches {m : Media} (h : MediaOk g m) (hmatch : indexMatches m = true)
    (entryTimestamp : Nat) :
    RunOk g m
      { latestOffset := (latestIndex m).1
        latestTimestamp := (latestIndex m).2
        entryTimestamp := entryTimestamp } := by
  obtain ⟨p, hp, hsorted⟩ := h.sorted
  obtain ⟨q, hq, hslot⟩ := h.slot
  have hentry : (m.entries (latestIndex m).1).map Entry.timestamp = some (latestIndex m).2 := by
    rw [indexMatches] at hmatch
    split at hmatch
    · exact absurd hmatch (by simp)
    · next e he => rw [he]; exact congrArg some (of_decide_eq_true hmatch)
  have htop : slotTimestamp g m q = some (latestIndex m).2 := by
    rw [slotTimestamp, ← hslot]
    exact hentry
  have hindex : m.index = some (latestIndex m) := by
    cases hm : m.index with
    | some index => rw [latestIndex, hm, Option.getD_some]
    | none =>
        have hzero : (latestIndex m).2 = 0 := by rw [latestIndex, hm]; rfl
        have := h.pos q hq _ htop
        omega
  exact ⟨hindex, ⟨q, hq, hslot, hsorted.of_max hp hq htop fun i t hi => h.newest hmatch i hi t⟩,
    h.pos, .inr ⟨hentry, h.newest hmatch⟩⟩

/-- `start()` finds the latest entry, through the index record or by the scan. -/
theorem runOk_start {m : Media} (h : MediaOk g m) :
    RunOk g (start g m).1 (start g m).2 := by
  rw [start]
  split_ifs with hmatch
  · exact runOk_of_matches h hmatch _
  · exact runOk_of_scanned h (scanned_scanAllEntries h.pos _)

/-- The media are in order, and a running record knows them. -/
def StateOk (g : Geometry) (s : State) : Prop :=
  MediaOk g s.media ∧ ∀ r, s.record = some r → RunOk g s.media r

/-- Steps that the recovery covers: an entry whose payload supplies data, while the
timestamp counter counts. -/
def Covered (s : State) : Step → Prop
  | .addEntry data => data ≠ [] ∧ ∀ r ∈ s.record, Counts r
  | .addEntryCut _ => ∀ r ∈ s.record, Counts r
  | _ => True

instance (r : Record) : Decidable (Counts r) :=
  inferInstanceAs (Decidable (_ < _))

instance (s : State) (st : Step) : Decidable (Covered s st) :=
  match st with
  | .addEntry _ => inferInstanceAs (Decidable (_ ∧ _))
  | .addEntryCut _ => inferInstanceAs (Decidable (∀ r ∈ s.record, Counts r))
  | .start | .startCut | .clearAllEntries | .clearCut _ | .crash => .isTrue trivial

theorem stateOk_step {s : State} (h : StateOk g s) (st : Step) (hst : Covered s st) :
    StateOk g (step g s st) := by
  have hstay := h
  obtain ⟨hmedia, hrun⟩ := h
  have hrunning : ∀ {m : Media} {r : Record}, RunOk g m r →
      StateOk g { media := m, record := some r } := by
    intro m r hok
    refine ⟨hok.mediaOk, fun r' hr' => ?_⟩
    rw [← Option.some.inj hr']
    exact hok
  have hdown : ∀ {m : Media}, MediaOk g m → StateOk g { media := m, record := none } :=
    fun hok => ⟨hok, fun _ hr => absurd hr (by simp)⟩
  cases st with
  | start => exact hrunning (runOk_start hmedia)
  | startCut => exact hdown hmedia
  | crash => exact hdown hmedia
  | addEntry data =>
      cases hr : s.record with
      | none => simpa only [step, hr] using hstay
      | some r =>
          simp only [step, hr]
          exact hrunning (runOk_addEntry (hrun r hr) data hst.1 (hst.2 r hr))
  | addEntryCut cut =>
      cases hr : s.record with
      | none => simpa only [step, hr] using hstay
      | some r =>
          simp only [step, hr]
          exact hdown (mediaOk_addEntryCut (hrun r hr) (hst r hr) cut)
  | clearAllEntries =>
      cases hr : s.record with
      | none => simpa only [step, hr] using hstay
      | some r =>
          simp only [step, hr]
          exact hrunning (runOk_clearAllEntries r)
  | clearCut cut =>
      cases hr : s.record with
      | none => simpa only [step, hr] using hstay
      | some r =>
          simp only [step, hr]
          exact hdown (mediaOk_clearCut hmedia cut)

theorem stateOk_virgin (g : Geometry) : StateOk g State.virgin := by
  refine ⟨⟨⟨0, maxEntries_pos g, ?_⟩, ?_, ⟨0, maxEntries_pos g, ?_⟩, ?_⟩, ?_⟩
  · intro i j a b _ _ ha
    simp [State.virgin, slotTimestamp] at ha
  · intro i _ t ht
    simp [State.virgin, slotTimestamp] at ht
  · simp [State.virgin, latestIndex]
  · intro hmatch
    simp [State.virgin, indexMatches] at hmatch
  · intro r hr
    simp [State.virgin] at hr

/-- All steps of a run are covered. -/
def AllCovered (g : Geometry) : State → List Step → Prop
  | _, [] => True
  | s, st :: steps => Covered s st ∧ AllCovered g (step g s st) steps

instance decidableAllCovered (g : Geometry) :
    (s : State) → (steps : List Step) → Decidable (AllCovered g s steps)
  | _, [] => .isTrue trivial
  | s, st :: steps =>
      have := decidableAllCovered g (step g s st) steps
      inferInstanceAs (Decidable (Covered s st ∧ AllCovered g (step g s st) steps))

theorem stateOk_foldl {s : State} (h : StateOk g s) (steps : List Step)
    (hsteps : AllCovered g s steps) : StateOk g (steps.foldl (step g) s) := by
  induction steps generalizing s with
  | nil => exact h
  | cons st steps ih => exact ih (stateOk_step h st hsteps.1) hsteps.2

/-- The state after a sequence of steps on a virgin region. -/
def run (g : Geometry) (steps : List Step) : State :=
  steps.foldl (step g) State.virgin

/-- After any history of adds, clears, crashes and restarts, a completed `start()`
knows the latest entry, and the next add goes where it should. -/
theorem start_recovers (g : Geometry) (steps : List Step)
    (h : AllCovered g State.virgin steps) :
    Recovered g (start g (run g steps).media).1 (start g (run g steps).media).2 :=
  runOk_recovered (runOk_start (stateOk_foldl (stateOk_virgin g) steps h).1)

/-- Three slots of ten bytes. -/
def threeSlots : Geometry := ⟨10, 30, by decide, by decide⟩

/-- Four entries in three slots, power lost while the fifth is written. -/
theorem start_recovers_threeSlots :
    Recovered threeSlots
      (start threeSlots (run threeSlots [.start, .addEntry [1], .addEntry [2], .addEntry [3],
        .addEntry [4], .addEntryCut .inEntry]).media).1
      (start threeSlots (run threeSlots [.start, .addEntry [1], .addEntry [2], .addEntry [3],
        .addEntry [4], .addEntryCut .inEntry]).media).2 :=
  start_recovers threeSlots _ (by decide)

/-- A payload that supplies nothing still moves the head: the next entry overwrites
the second oldest, and after a restart the one after overwrites another. -/
theorem start_recovers_fails_without_data :
    ¬ Recovered threeSlots
      (start threeSlots (run threeSlots [.start, .addEntry [1], .addEntry [2], .addEntry [3],
        .addEntry [], .addEntry [4], .crash]).media).1
      (start threeSlots (run threeSlots [.start, .addEntry [1], .addEntry [2], .addEntry [3],
        .addEntry [], .addEntry [4], .crash]).media).2 := by
  intro h
  have holdest := (h.2 [5] (by simp) (by rw [Counts]; decide)).oldest ⟨3, [3]⟩ (by decide) 1
    (by decide) 1 (by decide)
  exact absurd holdest (by decide)

end ColonyPico.Persistent.CrashRecovery
