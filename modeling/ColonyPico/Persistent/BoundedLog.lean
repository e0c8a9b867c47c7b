import ColonyPico.Foundations.RingWindow
import ColonyPico.Persistent.EntryTraversal
import Mathlib.Data.List.Sort

/-!
An indexed entry record as a log of bounded length, through power failures and restarts: what is
read back from it, newest first, is what the log holds.
-/

namespace ColonyPico.Persistent.BoundedLog

open Foundations.RingOrder Foundations.RingWindow
open IndexedEntryRecord CrashRecovery EntryTraversal

section Specification

/-- The last positions of the log, oldest first, and whether the record is running. -/
structure Log where
  window : List (Option (List UInt8))
  running : Bool

/-- What the operations do to the log. -/
inductive Log.Step : Log → IndexedEntryRecord.Step → Log → Prop where
  /-- The positions behind the latest entry are used again only after all others. -/
  | start (front : List (Option (List UInt8))) (count : Nat) (running : Bool)
      (hlatest : front.getLast? ≠ some none) :
      Step ⟨front ++ List.replicate count none, running⟩ .start
        ⟨List.replicate count none ++ front, true⟩
  | startCut (window : List (Option (List UInt8))) (running : Bool) :
      Step ⟨window, running⟩ .startCut ⟨window, false⟩
  | crash (window : List (Option (List UInt8))) (running : Bool) :
      Step ⟨window, running⟩ .crash ⟨window, false⟩
  | addEntry (window : List (Option (List UInt8))) (data : List UInt8) :
      Step ⟨window, true⟩ (.addEntry data) ⟨window.tail ++ [some data], true⟩
  /-- Power is lost before the entry is touched. -/
  | addEntryCut (window : List (Option (List UInt8))) (cut : AddCut) (hcut : cut ≠ .inEntry) :
      Step ⟨window, true⟩ (.addEntryCut cut) ⟨window, false⟩
  /-- Power is lost while the oldest position is overwritten. -/
  | torn (window : List (Option (List UInt8))) :
      Step ⟨window, true⟩ (.addEntryCut .inEntry) ⟨none :: window.tail, false⟩
  | clearAllEntries (window : List (Option (List UInt8))) :
      Step ⟨window, true⟩ .clearAllEntries ⟨List.replicate window.length none, true⟩
  /-- Power is lost when some of the entries are gone. -/
  | clearCut (window rest : List (Option (List UInt8))) (cut : Nat)
      (hrest : List.Forall₂ (fun before after => after = before ∨ after = none) window rest) :
      Step ⟨window, true⟩ (.clearCut cut) ⟨rest, false⟩
  /-- A record that is not running does nothing. -/
  | down (window : List (Option (List UInt8))) (st : IndexedEntryRecord.Step)
      (hst : st ≠ .start) : Step ⟨window, false⟩ st ⟨window, false⟩

/-- The logs that a sequence of operations can leave, from an empty one of `n` positions on. -/
inductive Log.Reaches (n : Nat) : List IndexedEntryRecord.Step → Log → Prop where
  | virgin : Reaches n [] ⟨List.replicate n none, false⟩
  | step {steps : List IndexedEntryRecord.Step} {l l' : Log} {st : IndexedEntryRecord.Step} :
      Reaches n steps l → Log.Step l st l' → Reaches n (steps ++ [st]) l'

/-- What is in a log was added. -/
theorem Log.Step.mem {l l' : Log} {st : IndexedEntryRecord.Step} (h : Log.Step l st l')
    {data : List UInt8} (hdata : some data ∈ l'.window) :
    some data ∈ l.window ∨ st = .addEntry data := by
  cases h with
  | start front count running hlatest =>
      refine .inl (List.mem_append_left _ ?_)
      rcases List.mem_append.mp hdata with hnone | hfront
      · cases List.eq_of_mem_replicate hnone
      · exact hfront
  | startCut | crash | addEntryCut | down => exact .inl hdata
  | addEntry window added =>
      rcases List.mem_append.mp hdata with hold | hnew
      · exact .inl (List.mem_of_mem_tail hold)
      · rw [List.mem_singleton, Option.some.injEq] at hnew
        rw [hnew]
        exact .inr rfl
  | torn window =>
      rcases List.mem_cons.mp hdata with hnone | hold
      · cases hnone
      · exact .inl (List.mem_of_mem_tail hold)
  | clearAllEntries window => cases List.eq_of_mem_replicate hdata
  | clearCut window rest cut hrest =>
      obtain ⟨before, hbefore, hafter⟩ : ∃ before ∈ window, some data = before ∨
          some data = none := by
        induction hrest with
        | nil => cases hdata
        | cons hhead _ ih =>
            rcases List.mem_cons.mp hdata with heq | hmem
            · rw [← heq] at hhead
              exact ⟨_, List.mem_cons_self, hhead⟩
            · obtain ⟨before, hmem, hafter⟩ := ih hmem
              exact ⟨before, List.mem_cons_of_mem _ hmem, hafter⟩
      rcases hafter with heq | hnone
      · rw [← heq] at hbefore
        exact .inl hbefore
      · cases hnone

theorem Log.Reaches.mem {n : Nat} {steps : List IndexedEntryRecord.Step} {l : Log}
    (h : Log.Reaches n steps l) {data : List UInt8} (hdata : some data ∈ l.window) :
    .addEntry data ∈ steps := by
  induction h with
  | virgin => cases List.eq_of_mem_replicate hdata
  | step _ hstep ih =>
      rw [List.mem_append, List.mem_singleton]
      rcases hstep.mem hdata with hold | hnew
      · exact .inl (ih hold)
      · exact .inr hnew.symm

end Specification

variable {g : Geometry} {m : Media} {r : Record}

/-- The data in a slot. -/
def slotData (g : Geometry) (m : Media) (i : Nat) : Option (List UInt8) :=
  (m.entries (i * g.entrySize)).map Entry.data

section Reading

/-- Reading the latest entry and from there back gives the data, until there is no entry. -/
def ReadsBack (g : Geometry) (m : Media) (r : Record) (datas : List (List UInt8)) : Prop :=
  match getLatest m r with
  | none => datas = []
  | some x => ∃ l, WalksBack g m x l ∧ (x :: l).map Found.data = datas

/-- What is found in the slots, in the order of the ring. -/
def foundIn (g : Geometry) (m : Media) (p : Nat) : List Found :=
  (window g.maxEntries p fun i => (slotEntry g m i).map fun e => found g (i, e)).reduceOption

theorem mem_foundIn {p : Nat} (hp : p < g.maxEntries) {x : Found} :
    x ∈ foundIn g m p ↔ Stored g m x := by
  rw [foundIn, List.reduceOption_mem_iff, mem_window hp, stored_iff]
  simp only [Option.map_eq_some_iff]
  constructor
  · rintro ⟨i, hi, e, he, rfl⟩
    exact ⟨i, hi, e, he, rfl⟩
  · rintro ⟨i, hi, e, he, rfl⟩
    exact ⟨i, hi, e, he, rfl⟩

theorem pairwise_foundIn {p : Nat} (hp : p < g.maxEntries)
    (hsorted : Sorted g.maxEntries p (slotTimestamp g m)) :
    (foundIn g m p).Pairwise fun x y => x.marker.indexValue < y.marker.indexValue := by
  have hpairwise := pairwise_window hp hsorted
  have hkeys : (foundIn g m p).map (fun x => x.marker.indexValue) =
      (window g.maxEntries p (slotTimestamp g m)).reduceOption := by
    rw [foundIn, ← List.reduceOption_map, map_window]
    simp only [Option.map_map]
    rfl
  rw [← hkeys, List.pairwise_map] at hpairwise
  exact hpairwise

theorem map_data_foundIn (p : Nat) :
    (foundIn g m p).map Found.data =
      (window g.maxEntries p (slotData g m)).reduceOption := by
  rw [foundIn, ← List.reduceOption_map, map_window]
  simp only [Option.map_map]
  rfl

/-- The entries are read back in the order of the ring, newest first. -/
theorem readsBack_of_runOk (h : RunOk g m r) {p : Nat} (hp : p < g.maxEntries)
    (hsorted : Sorted g.maxEntries p (slotTimestamp g m)) :
    ReadsBack g m r (window g.maxEntries p (slotData g m)).reduceOption.reverse := by
  have hcomplete := (traversable_of_runOk h).1
  rw [← map_data_foundIn, ← List.map_reverse, ReadsBack]
  cases hlatest : getLatest m r with
  | none =>
      rw [hlatest] at hcomplete
      have hempty : foundIn g m p = [] := by
        rw [List.eq_nil_iff_forall_not_mem]
        intro x hx
        exact hcomplete x ((mem_foundIn hp).mp hx)
      rw [hempty]
      rfl
  | some x =>
      rw [hlatest] at hcomplete
      obtain ⟨l, hwalk, hdecreasing, hmem⟩ := hcomplete
      refine ⟨l, hwalk, congrArg (List.map Found.data) ?_⟩
      have hreverse : (foundIn g m p).reverse.Pairwise
          fun y z => z.marker.indexValue < y.marker.indexValue :=
        List.pairwise_reverse.mpr (pairwise_foundIn hp hsorted)
      have hirrefl : ∀ y z : Found, z.marker.indexValue < y.marker.indexValue → y ≠ z := by
        rintro y z hlt rfl
        exact absurd hlt (lt_irrefl _)
      refine List.Perm.eq_of_pairwise (fun y z _ _ hyz hzy => ?_) hdecreasing hreverse ?_
      · exact absurd hyz (lt_asymm hzy)
      · rw [List.perm_ext_iff_of_nodup (hdecreasing.imp (hirrefl _ _))
          (hreverse.imp (hirrefl _ _))]
        intro y
        rw [hmem, List.mem_reverse, mem_foundIn hp]

end Reading

section Refinement

/-- The media show the log: it ends with the slot of the latest entry, or with one that could be
taken for it. -/
structure Shows (g : Geometry) (s : State) (l : Log) : Prop where
  running : l.running = s.record.isSome
  window : ∃ p < g.maxEntries, Sorted g.maxEntries p (slotTimestamp g s.media) ∧
    l.window = window g.maxEntries p (slotData g s.media) ∧
    ∀ r, s.record = some r → r.latestOffset = p * g.entrySize

theorem slotData_update (m : Media) (index : Option (Nat × Nat)) (p : Nat) (e : Option Entry) :
    slotData g { entries := Function.update m.entries (p * g.entrySize) e, index := index } =
      Function.update (slotData g m) p (e.map Entry.data) := by
  funext i
  by_cases hi : i = p
  · subst i
    simp [slotData]
  · have hne : i * g.entrySize ≠ p * g.entrySize := fun h =>
      hi (Nat.eq_of_mul_eq_mul_right g.entrySize_pos h)
    simp [slotData, Function.update_of_ne hi, Function.update_of_ne hne]

theorem slotData_eq_none {i : Nat} : slotData g m i = none ↔ slotTimestamp g m i = none := by
  simp [slotData, slotTimestamp]

theorem shows_virgin (g : Geometry) :
    Shows g State.virgin ⟨List.replicate g.maxEntries none, false⟩ := by
  refine ⟨rfl, 0, maxEntries_pos g, ?_, ?_, nofun⟩
  · intro i j a b _ _ ha
    cases ha
  · simp [window, slotData, State.virgin]

theorem entries_start (m : Media) : (start g m).1.entries = m.entries := by
  rw [start]
  split_ifs <;> rfl

variable {s : State} {l : Log}

theorem shows_start (hok : MediaOk g s.media) (h : Shows g s l) :
    ∃ l', Log.Step l .start l' ∧
      Shows g { media := (start g s.media).1, record := some (start g s.media).2 } l' := by
  obtain ⟨w, running⟩ := l
  obtain ⟨hrunning, p, hp, hsorted, rfl, -⟩ := h
  have hrun := runOk_start hok
  obtain ⟨q, hq, hoffset, hsorted'⟩ := hrun.slot
  have htimes : slotTimestamp g (start g s.media).1 = slotTimestamp g s.media := by
    funext i
    rw [slotTimestamp, entries_start, slotTimestamp]
  have hdata : slotData g (start g s.media).1 = slotData g s.media := by
    funext i
    rw [slotData, entries_start, slotData]
  -- behind the latest entry there is nothing, if there is a latest entry
  have hbehind : ∀ i < g.maxEntries, rank g.maxEntries p q < rank g.maxEntries p i →
      slotData g s.media i = none := by
    intro i hi hlt
    rw [slotData_eq_none]
    rcases hrun.latest with ⟨-, -, hnone⟩ | ⟨htop, hmax⟩
    · rw [← htimes]
      exact hnone i hi
    · by_contra hsome
      obtain ⟨t, ht⟩ := Option.ne_none_iff_exists'.mp hsome
      rw [hoffset] at htop
      have hlt' := hsorted hq hi (by rw [← htimes]; exact htop) ht hlt
      exact absurd (hmax i hi t (by rw [htimes]; exact ht)) (not_le_of_gt hlt')
  have hstep : Log.Step ⟨window g.maxEntries p (slotData g s.media), running⟩ .start
      ⟨window g.maxEntries q (slotData g s.media), true⟩ := by
    rcases hrun.latest with ⟨-, -, hnone⟩ | ⟨htop, -⟩
    · have hempty : ∀ i < g.maxEntries, slotData g s.media i = none := by
        intro i hi
        rw [slotData_eq_none, ← htimes]
        exact hnone i hi
      rw [window_of_empty hp hempty, window_of_empty hq hempty]
      have hlatest : ([] : List (Option (List UInt8))).getLast? ≠ some none := by
        rintro ⟨⟩
      simpa using Log.Step.start [] g.maxEntries running hlatest
    · obtain ⟨front, count, hbefore, hafter, hlatest⟩ := window_of_empty_behind hp hq hbehind
      rw [hbefore, hafter]
      refine .start front count running ?_
      rw [hlatest]
      intro hnone
      rw [hoffset, entries_start] at htop
      have hdataNone : slotData g s.media q = none := Option.some.inj hnone
      rw [slotData_eq_none, slotTimestamp, htop] at hdataNone
      cases hdataNone
  refine ⟨_, hstep, rfl, q, hq, hsorted', by rw [hdata], ?_⟩
  intro r hr
  rw [← Option.some.inj hr]
  exact hoffset

/-- The slot of a running record is the one that the window ends with. -/
theorem shows_of_runOk (hok : RunOk g m r) {p : Nat} (hp : p < g.maxEntries)
    (hoffset : r.latestOffset = p * g.entrySize) {w : List (Option (List UInt8))}
    (hw : w = window g.maxEntries p (slotData g m)) :
    Shows g { media := m, record := some r } ⟨w, true⟩ := by
  obtain ⟨q, hq, hslot, hsorted⟩ := hok.slot
  obtain rfl : p = q := Nat.eq_of_mul_eq_mul_right g.entrySize_pos (hoffset.symm.trans hslot)
  refine ⟨rfl, p, hp, hsorted, hw, ?_⟩
  rintro r' ⟨⟩
  exact hoffset

theorem shows_addEntry (hok : RunOk g m r) (data : List UInt8) (hdata : data ≠ [])
    (hcounts : Counts r) {w : List (Option (List UInt8))}
    (h : Shows g { media := m, record := some r } ⟨w, true⟩) :
    Shows g { media := (addEntry g m r data).1, record := some (addEntry g m r data).2.1 }
      ⟨w.tail ++ [some data], true⟩ := by
  obtain ⟨-, p, hp, -, rfl, hslot⟩ := h
  have hoffset := hslot r rfl
  refine shows_of_runOk (runOk_addEntry hok data hdata hcounts) (next_lt hp) ?_ ?_
  · rw [addEntry_of_data g m r data hdata hcounts]
    simp only
    rw [hoffset, incrementOffset_slot g p hp]
  · rw [addEntry_of_data g m r data hdata hcounts]
    simp only
    rw [hoffset, incrementOffset_slot g p hp, slotData_update, Option.map_some, window_push hp]

/-- Losing entries leaves the rest in order. -/
theorem shows_erased {m' : Media} {w' : List (Option (List UInt8))} {p : Nat}
    (hp : p < g.maxEntries) (hsorted : Sorted g.maxEntries p (slotTimestamp g m))
    (herased : ∀ i a, slotTimestamp g m' i = some a → slotTimestamp g m i = some a)
    (hw : w' = window g.maxEntries p (slotData g m')) :
    Shows g { media := m', record := none } ⟨w', false⟩ :=
  ⟨rfl, p, hp, hsorted.mono herased, hw, nofun⟩

theorem shows_addEntryCut (cut : AddCut) {w : List (Option (List UInt8))}
    (h : Shows g { media := m, record := some r } ⟨w, true⟩) :
    ∃ w', Log.Step ⟨w, true⟩ (.addEntryCut cut) ⟨w', false⟩ ∧
      Shows g { media := addEntryCut g m r cut, record := none } ⟨w', false⟩ := by
  obtain ⟨-, p, hp, hsorted, rfl, hslot⟩ := h
  have hoffset := hslot r rfl
  cases cut with
  | beforeIndex => exact ⟨_, .addEntryCut _ _ nofun, shows_erased hp hsorted (fun _ _ => id) rfl⟩
  | afterIndex => exact ⟨_, .addEntryCut _ _ nofun, shows_erased hp hsorted (fun _ _ => id) rfl⟩
  | inEntry =>
      have hcut : addEntryCut g m r .inEntry =
          { entries := Function.update m.entries (next g.maxEntries p * g.entrySize) none
            index := some (nextIndex g r) } := by
        rw [addEntryCut, nextIndex, hoffset, incrementOffset_slot g p hp]
      rw [hcut]
      refine ⟨_, .torn _, shows_erased hp hsorted ?_ ?_⟩
      · intro i a ha
        rw [slotTimestamp_update] at ha
        by_cases hi : i = next g.maxEntries p
        · rw [hi, Function.update_self] at ha
          cases ha
        · rwa [Function.update_of_ne hi] at ha
      · rw [slotData_update, Option.map_none, window_update hp]

theorem shows_clearAllEntries (r : Record) {w : List (Option (List UInt8))}
    (hlength : w.length = g.maxEntries) :
    Shows g { media := (clearAllEntries r).1, record := some (clearAllEntries r).2 }
      ⟨List.replicate w.length none, true⟩ := by
  refine shows_of_runOk (runOk_clearAllEntries r) (maxEntries_pos g) ?_ ?_
  · simp [clearAllEntries]
  · rw [hlength]
    exact (window_of_empty (maxEntries_pos g) fun _ _ => rfl).symm

theorem shows_clearCut (cut : Nat) {w : List (Option (List UInt8))}
    (h : Shows g { media := m, record := some r } ⟨w, true⟩) :
    ∃ w', Log.Step ⟨w, true⟩ (.clearCut cut) ⟨w', false⟩ ∧
      Shows g { media := clearCut m cut, record := none } ⟨w', false⟩ := by
  obtain ⟨-, p, hp, hsorted, rfl, -⟩ := h
  have hentries : ∀ offset, (clearCut m cut).entries offset = m.entries offset ∨
      (clearCut m cut).entries offset = none := by
    intro offset
    rw [clearCut]
    by_cases hlt : offset < cut
    · exact .inr (if_pos hlt)
    · exact .inl (if_neg hlt)
  refine ⟨_, .clearCut _ (window g.maxEntries p (slotData g (clearCut m cut))) _ ?_,
    shows_erased hp hsorted ?_ rfl⟩
  · rw [window, window, List.forall₂_map_left_iff, List.forall₂_map_right_iff, List.forall₂_same]
    intro k _
    rcases hentries ((next g.maxEntries)^[k] (next g.maxEntries p) * g.entrySize) with
      heq | hnone
    · exact .inl (congrArg (Option.map Entry.data) heq)
    · exact .inr (congrArg (Option.map Entry.data) hnone)
  · intro i a ha
    rw [slotTimestamp] at ha
    rcases hentries (i * g.entrySize) with heq | hnone
    · rwa [heq] at ha
    · rw [hnone] at ha
      cases ha

theorem Shows.length (h : Shows g s l) : l.window.length = g.maxEntries := by
  obtain ⟨-, p, -, -, hw, -⟩ := h
  rw [hw, length_window]

/-- The media stay as they are when the record goes down. -/
theorem Shows.down (h : Shows g s l) :
    Shows g { s with record := none } ⟨l.window, false⟩ := by
  obtain ⟨-, p, hp, hsorted, hw, -⟩ := h
  exact ⟨rfl, p, hp, hsorted, hw, nofun⟩

theorem shows_step_down (h : Shows g s l) (hr : s.record = none) (st : IndexedEntryRecord.Step)
    (hst : st ≠ .start) : ∃ l', Log.Step l st l' ∧ Shows g (step g s st) l' := by
  obtain ⟨w, running⟩ := l
  obtain ⟨media, record⟩ := s
  obtain rfl : record = none := hr
  obtain rfl : running = false := h.running
  have hidle : step g { media := media, record := none } st =
      { media := media, record := none } := by
    cases st with
    | start => exact absurd rfl hst
    | startCut | addEntry _ | addEntryCut _ | clearAllEntries | clearCut _ | crash => rfl
  rw [hidle]
  exact ⟨_, .down _ _ hst, h⟩

/-- Each step of the record is a step of the log. -/
theorem shows_step (hok : StateOk g s) (h : Shows g s l) (st : IndexedEntryRecord.Step)
    (hst : Covered s st) : ∃ l', Log.Step l st l' ∧ Shows g (step g s st) l' := by
  by_cases hstart : st = .start
  · rw [hstart]
    exact shows_start hok.1 h
  cases hr : s.record with
  | none => exact shows_step_down h hr st hstart
  | some r =>
      obtain ⟨w, running⟩ := l
      obtain ⟨media, record⟩ := s
      obtain rfl : record = some r := hr
      obtain rfl : running = true := h.running
      cases st with
      | start => exact absurd rfl hstart
      | startCut => exact ⟨_, .startCut _ _, h.down⟩
      | crash => exact ⟨_, .crash _ _, h.down⟩
      | addEntry data =>
          exact ⟨_, .addEntry _ data, shows_addEntry (hok.2 r rfl) data hst.1 (hst.2 r rfl) h⟩
      | addEntryCut cut =>
          obtain ⟨w', hstep, hshows⟩ := shows_addEntryCut cut h
          exact ⟨_, hstep, hshows⟩
      | clearAllEntries => exact ⟨_, .clearAllEntries _, shows_clearAllEntries r h.length⟩
      | clearCut cut =>
          obtain ⟨w', hstep, hshows⟩ := shows_clearCut cut h
          exact ⟨_, hstep, hshows⟩

theorem allCovered_concat {steps : List IndexedEntryRecord.Step} {st : IndexedEntryRecord.Step} :
    AllCovered g s (steps ++ [st]) ↔
      AllCovered g s steps ∧ Covered (steps.foldl (step g) s) st := by
  induction steps generalizing s with
  | nil => exact and_comm
  | cons st' steps ih =>
      rw [List.cons_append, AllCovered, AllCovered, ih, and_assoc]
      rfl

/-- Each run of the record is a run of the log. -/
theorem shows_run (g : Geometry) (steps : List IndexedEntryRecord.Step)
    (h : AllCovered g State.virgin steps) :
    ∃ l, Log.Reaches g.maxEntries steps l ∧ Shows g (run g steps) l := by
  induction steps using List.reverseRecOn with
  | nil => exact ⟨_, .virgin, shows_virgin g⟩
  | append_singleton steps st ih =>
      obtain ⟨hsteps, hst⟩ := allCovered_concat.mp h
      obtain ⟨l, hreaches, hshows⟩ := ih hsteps
      have hok : StateOk g (run g steps) := stateOk_foldl (stateOk_virgin g) steps hsteps
      obtain ⟨l', hstep, hshows'⟩ := shows_step hok hshows st hst
      refine ⟨l', .step hreaches hstep, ?_⟩
      rw [run, List.foldl_concat]
      exact hshows'

theorem Shows.readsBack (hok : StateOk g s) (h : Shows g s l) (hr : s.record = some r) :
    ReadsBack g s.media r l.window.reduceOption.reverse := by
  obtain ⟨p, hp, hsorted, hwindow, -⟩ := h.window
  rw [hwindow]
  exact readsBack_of_runOk (hok.2 r hr) hp hsorted

/-- Whatever a running record has been through, reading it from the latest entry back gives what
the log holds, newest first. -/
theorem reads_back_log (g : Geometry) (steps : List IndexedEntryRecord.Step)
    (h : AllCovered g State.virgin steps) (r : Record) (hr : (run g steps).record = some r) :
    ∃ l, Log.Reaches g.maxEntries steps l ∧
      ReadsBack g (run g steps).media r l.window.reduceOption.reverse := by
  obtain ⟨l, hreaches, hshows⟩ := shows_run g steps h
  exact ⟨l, hreaches, hshows.readsBack (stateOk_foldl (stateOk_virgin g) steps h) hr⟩

/-- Power is lost while the fifth entry overwrites the second of four, and a sixth is added after
the restart. -/
theorem reads_back_log_torn :
    ∃ l, Log.Reaches 3 [.start, .addEntry [1], .addEntry [2], .addEntry [3], .addEntry [4],
        .addEntryCut .inEntry, .start, .addEntry [6]] l ∧
      ReadsBack threeSlots (run threeSlots [.start, .addEntry [1], .addEntry [2], .addEntry [3],
        .addEntry [4], .addEntryCut .inEntry, .start, .addEntry [6]]).media ⟨20, 5, 5⟩
        l.window.reduceOption.reverse :=
  reads_back_log threeSlots _ (by decide) ⟨20, 5, 5⟩ (by decide)

end Refinement

end ColonyPico.Persistent.BoundedLog
