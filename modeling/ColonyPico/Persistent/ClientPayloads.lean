import ColonyPico.Persistent.EntryFailures

/-!
Which payload objects the calls of an indexed entry record write into.
-/

namespace ColonyPico.Persistent.ClientPayloads

open ColonyPico.Foundations.Runs
open ColonyPico.Persistent.IndexedEntryRecord (Geometry Media Entry)
open ColonyPico.Persistent.EntryFailures

variable {g : Geometry} {s s' : Session}

def passed : Operation → Option Client
  | .getLatest dst => some dst
  | .getNext _ _ dst => some dst
  | .getPrevious _ _ dst => some dst
  | .getByBufferIndex _ dst => some dst
  | .addEntry src _ _ _ => some src
  | .start _ _ => none
  | .stop => none
  | .clearAllEntries _ _ => none

/-- A call writes into no payload object but the one that it is given. -/
def OnlyPassed (g : Geometry) (s : Session) (call : Call) : Prop :=
  ∀ next, step g s call = some next → ∀ put ∈ next.touched,
    ∃ client, passed call.operation = some client ∧ put.1 = client.object

/-- A clearing that fails finds no payload of an earlier call, or no entry that can be read. -/
def Harmless (g : Geometry) (s : Session) (call : Call) : Prop :=
  s.running = true → ∀ kept index, call.operation = .clearAllEntries (.failed kept) index →
    s.payloadHandler = none ∨ ∀ i < g.maxEntries, call.readFails i = true ∨
      (if kept (i * g.entrySize) then s.media.entries (i * g.entrySize) else none) = none

/-! One read -/

def TouchesOnly (object : Nat) (s : Session) : Prop :=
  ∀ put ∈ s.touched, put.1 = object

/-- A read that nothing comes from: it fails, or there is no entry. -/
def Unread (s : Session) (k offset : Nat) : Prop :=
  s.readFails k = true ∨ s.media.entries offset = none

/-- What a read leaves as it was, and when it writes into no object. -/
theorem readFromMedia_spec (s : Session) (offset : Nat) :
    ((readFromMedia s offset).2.accessed = s.accessed ++ [offset] ∧
      (readFromMedia s offset).2.readFails = s.readFails ∧
      (readFromMedia s offset).2.media = s.media ∧
      (readFromMedia s offset).2.payloadHandler = s.payloadHandler) ∧
      ((readFromMedia s offset).2.touched = [] ↔
        s.touched = [] ∧ (s.payloadHandler = none ∨ Unread s s.accessed.length offset)) := by
  rw [readFromMedia]
  split_ifs with hfails
  · exact ⟨⟨rfl, rfl, rfl, rfl⟩, fun h => ⟨h, .inr (.inl hfails)⟩, fun h => h.1⟩
  · dsimp only
    cases hentry : s.media.entries offset with
    | none => exact ⟨⟨rfl, rfl, rfl, rfl⟩, fun h => ⟨h, .inr (.inr hentry)⟩, fun h => h.1⟩
    | some e =>
        dsimp only
        rw [putData.eq_def]
        cases hhandler : s.payloadHandler with
        | none => exact ⟨⟨rfl, rfl, rfl, rfl⟩, fun h => ⟨h, .inl rfl⟩, fun h => h.1⟩
        | some client =>
            refine ⟨⟨rfl, rfl, rfl, rfl⟩, fun h => ?_, ?_⟩
            · exact absurd h (List.append_ne_nil_of_right_ne_nil _ (List.cons_ne_nil _ _))
            · rintro ⟨_, hnone | hfails' | hnone⟩
              · exact absurd hnone (Option.some_ne_none _)
              · exact absurd hfails' hfails
              · exact absurd (hentry.symm.trans hnone) (Option.some_ne_none _)

theorem touchesOnly_readFromMedia {dst : Client} (hhandler : s.payloadHandler = some dst)
    (h : TouchesOnly dst.object s) (offset : Nat) :
    TouchesOnly dst.object (readFromMedia s offset).2 := by
  rw [readFromMedia]
  split_ifs with hfails
  · exact h
  · split
    · exact h
    · rw [putData.eq_def]
      dsimp only
      rw [hhandler]
      intro put hput
      rcases List.mem_append.mp hput with hmem | hmem
      · exact h put hmem
      · rw [List.mem_singleton.mp hmem]

theorem touchesOnly_getByOffset {dst : Client} (h : TouchesOnly dst.object s) (offset : Nat) :
    TouchesOnly dst.object (getByOffset s offset dst).2 := by
  have hread := touchesOnly_readFromMedia (s := { s with payloadHandler := some dst }) rfl h offset
  rw [getByOffset]
  dsimp only
  split_ifs
  · exact hread
  · exact hread

theorem touchesOnly_search {dst : Client} (advance : Nat → Nat) (wanted : Nat → Bool)
    (fuel offset : Nat) (h : TouchesOnly dst.object s) :
    TouchesOnly dst.object (search advance wanted dst fuel offset s).2 := by
  induction fuel generalizing s offset with
  | zero => exact h
  | succ fuel ih =>
      have hget := touchesOnly_getByOffset h offset
      rw [search]
      revert hget
      generalize getByOffset s offset dst = outcome
      intro hget
      rcases outcome with ⟨_ | entryMarker, next⟩
      · exact ih (advance offset) hget
      · dsimp only
        split_ifs
        · exact hget
        · exact ih (advance offset) hget

/-! The scan -/

theorem considerEntry_spec (s : Session) (offset : Nat) :
    ((considerEntry s offset).accessed = s.accessed ++ [offset] ∧
      (considerEntry s offset).readFails = s.readFails ∧
      (considerEntry s offset).media = s.media ∧
      (considerEntry s offset).payloadHandler = s.payloadHandler) ∧
      ((considerEntry s offset).touched = [] ↔
        s.touched = [] ∧ (s.payloadHandler = none ∨ Unread s s.accessed.length offset)) := by
  have hread := readFromMedia_spec s offset
  rw [considerEntry]
  dsimp only
  split_ifs
  · exact hread
  · exact hread

/-- The scan writes into no object just when no handler is set or none of its reads finds an
entry. -/
theorem scanFrom_touched (fuel i : Nat) (s : Session) :
    (scanFrom g fuel (i * g.entrySize) s).touched = [] ↔
      s.touched = [] ∧ (s.payloadHandler = none ∨ ∀ j < fuel,
        (i + j) * g.entrySize ≤ g.maxOffset →
          Unread s (s.accessed.length + j) ((i + j) * g.entrySize)) := by
  induction fuel generalizing i s with
  | zero => exact ⟨fun h => ⟨h, .inr fun j hj => absurd hj (Nat.not_lt_zero j)⟩, fun h => h.1⟩
  | succ fuel ih =>
      rw [scanFrom]
      split_ifs with hle
      · obtain ⟨⟨haccessed, hfails, hmedia, hhandler⟩, htouched⟩ :=
          considerEntry_spec s (i * g.entrySize)
        have hlater : ∀ j, Unread (considerEntry s (i * g.entrySize))
            ((considerEntry s (i * g.entrySize)).accessed.length + j) ((i + 1 + j) * g.entrySize) ↔
              Unread s (s.accessed.length + (j + 1)) ((i + (j + 1)) * g.entrySize) := by
          intro j
          rw [Unread, Unread, hfails, hmedia, haccessed, List.length_append, List.length_singleton,
            Nat.add_right_comm, Nat.add_right_comm i]
          rfl
        have hrest : (∀ j < fuel, (i + 1 + j) * g.entrySize ≤ g.maxOffset →
            Unread (considerEntry s (i * g.entrySize))
              ((considerEntry s (i * g.entrySize)).accessed.length + j)
                ((i + 1 + j) * g.entrySize)) ↔
            ∀ j < fuel, (i + (j + 1)) * g.entrySize ≤ g.maxOffset →
              Unread s (s.accessed.length + (j + 1)) ((i + (j + 1)) * g.entrySize) := by
          refine forall₂_congr fun j _ => imp_congr ?_ (hlater j)
          rw [Nat.add_right_comm i]
          rfl
        have hfirst : ((i + 0) * g.entrySize ≤ g.maxOffset →
            Unread s (s.accessed.length + 0) ((i + 0) * g.entrySize)) ↔
              Unread s s.accessed.length (i * g.entrySize) :=
          ⟨fun h => h hle, fun h _ => h⟩
        rw [← Nat.succ_mul, ih, htouched, hhandler, Nat.forall_lt_succ_left, hrest, hfirst,
          and_assoc, ← or_and_left]
      · refine ⟨fun h => ⟨h, .inr fun j _ hmax => ?_⟩, fun h => h.1⟩
        have hmono : i * g.entrySize ≤ (i + j) * g.entrySize :=
          Nat.mul_le_mul_right _ (Nat.le_add_right i j)
        exact absurd (hmono.trans hmax) hle

theorem scanAllEntries_touched (s : Session) :
    (scanAllEntries g s).touched = [] ↔
      s.touched = [] ∧ (s.payloadHandler = none ∨ ∀ i < g.maxEntries,
        Unread s (s.accessed.length + i) (i * g.entrySize)) := by
  have hscan := @scanFrom_touched g g.maxEntries 0 (resetHead s)
  rw [Nat.zero_mul] at hscan
  refine hscan.trans (and_congr_right fun _ => or_congr Iff.rfl (forall₂_congr fun i hi => ?_))
  rw [Nat.zero_add]
  have hle : i * g.entrySize ≤ g.maxOffset := Nat.mul_le_mul_right _ (Nat.le_sub_one_of_lt hi)
  exact ⟨fun h => h hle, fun h _ => h⟩

/-! The calls -/

theorem touched_verifyIndex (hbegun : s.touched = []) (hnone : s.payloadHandler = none)
    (w : Written) : (verifyIndex g s w).touched = [] := by
  have hread := readFromMedia_spec s s.record.latestOffset
  have htouched := hread.2.mpr ⟨hbegun, .inl hnone⟩
  rw [verifyIndex]
  dsimp only
  split_ifs
  · exact htouched
  · exact (scanAllEntries_touched _).mpr ⟨htouched, .inl (hread.1.2.2.2.trans hnone)⟩

theorem touched_addEntry (s : Session) (src : Client) (data : List UInt8)
    (index entry : Written) : (addEntry g s src data index entry).2.touched = s.touched := by
  rw [addEntry]
  dsimp only [writeIndex]
  cases index.reported with
  | false => rfl
  | true =>
      dsimp only
      rw [writeToMedia]
      split_ifs
      · rfl
      · rfl

/-- A failing clearing writes into no object just when no handler is set, or no entry that is left
can be read. -/
theorem touched_clearAllEntries (hbegun : s.touched = []) (haccessed : s.accessed = [])
    (kept : Nat → Bool) (index : Written) :
    (clearAllEntries g s (.failed kept) index).2.touched = [] ↔
      s.payloadHandler = none ∨ ∀ i < g.maxEntries, s.readFails i = true ∨
        (if kept (i * g.entrySize) then s.media.entries (i * g.entrySize) else none) = none := by
  have hscan := @scanAllEntries_touched g (resetHead { s with
    media := { s.media with entries := (Clearing.failed kept).leaves s.media.entries } })
  refine hscan.trans ((and_iff_right hbegun).trans (or_congr Iff.rfl ?_))
  refine forall₂_congr fun i _ => ?_
  show Unread _ (s.accessed.length + i) _ ↔ _
  rw [haccessed, List.length_nil, Nat.zero_add]
  rfl

theorem touchesOnly_perform (hbegun : s.touched = []) {operation : Operation} {client : Client}
    (hpassed : passed operation = some client) :
    TouchesOnly client.object (perform g s operation) := by
  have h : TouchesOnly client.object s := by
    rw [TouchesOnly, hbegun]
    exact fun _ hmem => absurd hmem List.not_mem_nil
  cases operation with
  | start indexRead index => exact absurd hpassed.symm (Option.some_ne_none _)
  | stop => exact absurd hpassed.symm (Option.some_ne_none _)
  | clearAllEntries clearing index => exact absurd hpassed.symm (Option.some_ne_none _)
  | getLatest dst =>
      obtain rfl := Option.some.inj hpassed
      exact touchesOnly_getByOffset h _
  | getNext newerThan entryMarker dst =>
      obtain rfl := Option.some.inj hpassed
      exact touchesOnly_search _ _ _ _ h
  | getPrevious olderThan entryMarker dst =>
      obtain rfl := Option.some.inj hpassed
      exact touchesOnly_search _ _ _ _ h
  | getByBufferIndex bufferIndex dst =>
      obtain rfl := Option.some.inj hpassed
      rw [perform, getByBufferIndex]
      split_ifs
      · exact h
      · exact touchesOnly_getByOffset h _
  | addEntry src data index entry =>
      rw [perform, TouchesOnly, touched_addEntry]
      exact h

theorem step_eq {call : Call} (hstep : step g s call = some s') :
    s' = perform g (begin s call.readFails) call.operation ∧
      (s.running = true ∨ ∃ indexRead index, call.operation = .start indexRead index) := by
  rw [step] at hstep
  split at hstep
  · next indexRead index _ hoperation =>
      rw [hoperation]
      exact ⟨(Option.some.inj hstep).symm, .inr ⟨indexRead, index, rfl⟩⟩
  · exact absurd hstep.symm (Option.some_ne_none _)
  · next hrunning => exact ⟨(Option.some.inj hstep).symm, .inl hrunning⟩

theorem touched_perform_of_none {call : Call} (hharmless : Harmless g s call)
    (hrunning : s.running = true ∨ ∃ indexRead index, call.operation = .start indexRead index)
    (hpassed : passed call.operation = none) :
    (perform g (begin s call.readFails) call.operation).touched = [] := by
  cases hoperation : call.operation with
  | start indexRead index => exact touched_verifyIndex rfl rfl index
  | stop => rfl
  | clearAllEntries clearing index =>
      cases clearing with
      | done => rfl
      | failed kept =>
          refine (@touched_clearAllEntries g (begin s call.readFails) rfl rfl kept index).mpr ?_
          rcases hrunning with hrunning | ⟨indexRead, index', hstart⟩
          · exact hharmless hrunning kept index hoperation
          · rw [hoperation] at hstart
            exact Operation.noConfusion hstart
  | getLatest dst | getNext newerThan entryMarker dst | getPrevious olderThan entryMarker dst
  | getByBufferIndex bufferIndex dst | addEntry src data index entry =>
      rw [hoperation] at hpassed
      exact absurd hpassed (Option.some_ne_none _)

theorem onlyPassed_iff (g : Geometry) (s : Session) (call : Call) :
    OnlyPassed g s call ↔ Harmless g s call := by
  constructor
  · intro hall hrunning kept index hoperation
    have hstep : step g s call =
        some (perform g (begin s call.readFails) (.clearAllEntries (.failed kept) index)) := by
      rw [step, hrunning, hoperation]
    refine (@touched_clearAllEntries g (begin s call.readFails) rfl rfl kept index).mp ?_
    refine List.eq_nil_iff_forall_not_mem.mpr fun put hput => ?_
    obtain ⟨client, hpassed, _⟩ := hall _ hstep put hput
    rw [hoperation] at hpassed
    exact absurd hpassed.symm (Option.some_ne_none _)
  · intro hharmless next hstep put hput
    obtain ⟨rfl, hrunning⟩ := step_eq hstep
    have hbegun : (begin s call.readFails).touched = [] := rfl
    cases hpassed : passed call.operation with
    | some client => exact ⟨client, rfl, touchesOnly_perform hbegun hpassed put hput⟩
    | none =>
        rw [touched_perform_of_none hharmless hrunning hpassed] at hput
        exact absurd hput List.not_mem_nil

/-- In every run, no call writes into another payload object than its own just when no call is a
clearing that fails while the record points to a payload and an entry can still be read. -/
theorem onlyPassed_always_iff (g : Geometry) (media : Media) (calls : List Call) :
    AllSteps (step g) (OnlyPassed g) (fresh media) calls ↔
      AllSteps (step g) (Harmless g) (fresh media) calls := by
  have hpass : ∀ P Q : Session → Call → Prop, (∀ s call, P s call → Q s call) →
      AllSteps (step g) P (fresh media) calls → AllSteps (step g) Q (fresh media) calls := by
    intro P Q hPQ hall
    exact allSteps_of_invariant (I := fun _ => True) (fun _ _ _ _ _ _ => trivial)
      (fun s call _ => hPQ s call) trivial hall
  exact ⟨hpass _ _ fun s call => (onlyPassed_iff g s call).mp,
    hpass _ _ fun s call => (onlyPassed_iff g s call).mpr⟩

/-- Two entries are stored, the latest is read into a payload, and the first write of a clearing
fails. -/
def clearingAfterRead : List Call :=
  [.start true .done, .addEntry ⟨0, fun _ => true⟩ [1] .done .done,
    .addEntry ⟨0, fun _ => true⟩ [2] .done .done, .getLatest ⟨7, fun _ => true⟩,
    .clearAllEntries (.failed fun _ => true) .done].map
      fun operation => ⟨operation, fun _ => false⟩

/-- The payload of the read gets the entry again, from the scan of the clearing. -/
theorem not_onlyPassed_clearing :
    ¬AllSteps (step CrashRecovery.threeSlots) (OnlyPassed CrashRecovery.threeSlots)
      (fresh ⟨fun _ => none, none⟩) clearingAfterRead := by
  intro hall
  have hsplit : clearingAfterRead = clearingAfterRead.take 4 ++
    ⟨.clearAllEntries (.failed fun _ => true) .done, fun _ => false⟩ :: [] := rfl
  rw [hsplit] at hall
  have hlast := hall.at rfl _ rfl (7, [2]) (by decide)
  obtain ⟨client, hpassed, _⟩ := hlast
  exact absurd hpassed.symm (Option.some_ne_none _)

end ColonyPico.Persistent.ClientPayloads
