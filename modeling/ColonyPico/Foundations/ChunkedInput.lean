import Mathlib.Data.List.Basic

/-!
Machines that find items in a sequence of symbols, and sources that give such a sequence in
chunks.
-/

namespace ColonyPico.Foundations.ChunkedInput

variable {σ α S O : Type*}

/-- Reading from the source to its end gives the symbols, in `n` reads before the last. -/
inductive Yields (read : σ → Option (List α × σ)) : σ → List α → Nat → Prop
  | done {s : σ} (hread : read s = none) : Yields read s [] 0
  | more {s s' : σ} {chunk xs : List α} {n : Nat} (hread : read s = some (chunk, s'))
      (hrest : Yields read s' xs n) : Yields read s (chunk ++ xs) (n + 1)

/-- A machine that goes on with another state or has found an item; then it starts anew. -/
structure Scanner (S α O : Type*) where
  start : S
  next : S → α → S ⊕ O

namespace Scanner

variable (m : Scanner S α O)

/-- The items in a sequence, and the state after it. -/
def run : S → List α → List O × S
  | s, [] => ([], s)
  | s, a :: as =>
      match m.next s a with
      | .inl s' => run s' as
      | .inr o => (o :: (run m.start as).1, (run m.start as).2)

/-- The first item of a chunk with what follows it, or the state after the chunk. -/
def find : S → List α → S ⊕ (O × List α)
  | s, [] => .inl s
  | s, a :: as =>
      match m.next s a with
      | .inl s' => find s' as
      | .inr o => .inr (o, as)

variable {m}

@[simp] theorem run_nil (s : S) : m.run s [] = ([], s) := rfl

theorem run_cons_of_inl {s s' : S} {a : α} (h : m.next s a = .inl s') (as : List α) :
    m.run s (a :: as) = m.run s' as := by
  rw [run, h]

theorem run_cons_of_inr {s : S} {a : α} {o : O} (h : m.next s a = .inr o) (as : List α) :
    m.run s (a :: as) = (o :: (m.run m.start as).1, (m.run m.start as).2) := by
  rw [run, h]

theorem run_append (s : S) (as bs : List α) :
    m.run s (as ++ bs) =
      ((m.run s as).1 ++ (m.run (m.run s as).2 bs).1, (m.run (m.run s as).2 bs).2) := by
  induction as generalizing s with
  | nil => rfl
  | cons a as ih =>
      rw [List.cons_append]
      cases h : m.next s a with
      | inl s' => rw [run_cons_of_inl h, run_cons_of_inl h, ih]
      | inr o =>
          rw [run_cons_of_inr h, run_cons_of_inr h, ih]
          rfl

theorem run_of_find_inl {s s' : S} {as : List α} (h : m.find s as = .inl s') (bs : List α) :
    m.run s (as ++ bs) = m.run s' bs := by
  induction as generalizing s with
  | nil =>
      cases h
      rfl
  | cons a as ih =>
      rw [List.cons_append]
      cases hnext : m.next s a with
      | inl s'' =>
          rw [find, hnext] at h
          rw [run_cons_of_inl hnext, ih h]
      | inr o =>
          rw [find, hnext] at h
          cases h

theorem run_of_find_inr {s : S} {o : O} {as rest : List α} (h : m.find s as = .inr (o, rest))
    (bs : List α) : (m.run s (as ++ bs)).1 = o :: (m.run m.start (rest ++ bs)).1 := by
  induction as generalizing s with
  | nil => cases h
  | cons a as ih =>
      rw [List.cons_append]
      cases hnext : m.next s a with
      | inl s' =>
          rw [find, hnext] at h
          rw [run_cons_of_inl hnext, ih h]
      | inr o' =>
          rw [find, hnext] at h
          cases h
          rw [run_cons_of_inr hnext]

/-- A chunk with an item is the chunk up to it and the rest. -/
theorem find_inr_split {s : S} {o : O} {as rest : List α} (h : m.find s as = .inr (o, rest)) :
    ∃ before, as = before ++ rest ∧ before ≠ [] ∧
      ∀ bs, m.run s (as ++ bs) =
        (o :: (m.run m.start (rest ++ bs)).1, (m.run m.start (rest ++ bs)).2) := by
  induction as generalizing s with
  | nil => cases h
  | cons a as ih =>
      cases hnext : m.next s a with
      | inl s' =>
          rw [find, hnext] at h
          obtain ⟨before, heq, -, hrun⟩ := ih h
          refine ⟨a :: before, by rw [heq, List.cons_append], List.cons_ne_nil _ _, fun bs => ?_⟩
          rw [List.cons_append, run_cons_of_inl hnext, hrun]
      | inr o' =>
          rw [find, hnext] at h
          cases h
          refine ⟨[a], rfl, List.cons_ne_nil _ _, fun bs => ?_⟩
          rw [List.cons_append, run_cons_of_inr hnext]

/-- A machine that relabels its symbols. -/
theorem run_map {β : Type*} {m' : Scanner S β O} (relabel : α → β) (hstart : m.start = m'.start)
    (hnext : ∀ s a, m.next s a = m'.next s (relabel a)) (s : S) (as : List α) :
    m.run s as = m'.run s (as.map relabel) := by
  induction as generalizing s with
  | nil => rfl
  | cons a as ih =>
      rw [List.map_cons]
      cases h : m.next s a with
      | inl s' => rw [run_cons_of_inl h, run_cons_of_inl (hnext s a ▸ h), ih]
      | inr o => rw [run_cons_of_inr h, run_cons_of_inr (hnext s a ▸ h), ih, hstart]

end Scanner

/-- A search of a machine through the chunks of a source; `data` is what is left of the last
chunk. -/
structure Search (σ α S : Type*) where
  source : σ
  data : List α
  state : S

/-- What one step of a search comes to. -/
inductive Outcome (O : Type*) where
  | ended
  | inProgress
  | found (item : O)

namespace Search

variable (m : Scanner S α O) (read : σ → Option (List α × σ)) (reset : S → S)

/-- Goes through what is left of the chunk. -/
def process (d : Search σ α S) : Outcome O × Search σ α S :=
  match m.find d.state d.data with
  | .inl s => (.inProgress, { d with data := [], state := s })
  | .inr (item, rest) => (.found item, { d with data := rest, state := m.start })

/-- A step, which reads at most one chunk. -/
def step (d : Search σ α S) : Outcome O × Search σ α S :=
  match d.data with
  | [] =>
      match read d.source with
      | none => (.ended, { d with data := [], state := reset d.state })
      | some (chunk, source) => process m { d with source := source, data := chunk }
  | _ :: _ => process m d

/-- Steps up to an item or the end of the source. -/
def seek : Nat → Search σ α S → Option (Option O × Search σ α S)
  | 0, _ => none
  | fuel + 1, d =>
      match step m read reset d with
      | (.ended, d) => some (none, d)
      | (.found item, d) => some (some item, d)
      | (.inProgress, d) => seek fuel d

/-- `n` searches for an item, each of which starts with a reset. -/
def seeks (fuel : Nat) : Nat → Search σ α S → Option (List (Option O))
  | 0, _ => some []
  | n + 1, d =>
      (seek m read reset fuel { d with state := reset d.state }).bind fun r =>
        (seeks fuel n r.2).map (r.1 :: ·)

/-- The items of the steps up to the end of the source. -/
def poll : Nat → Search σ α S → Option (List O)
  | 0, _ => none
  | fuel + 1, d =>
      match step m read reset d with
      | (.ended, _) => some []
      | (.found item, d) => (poll fuel d).map (item :: ·)
      | (.inProgress, d) => poll fuel d

/-- The items still to be found, when the source gives `xs`. -/
def pending (d : Search σ α S) (xs : List α) : List O :=
  (m.run d.state (d.data ++ xs)).1

/-- A bound on the steps that find nothing. -/
def workLeft (d : Search σ α S) (reads : Nat) : Nat :=
  match d.data with
  | [] => reads
  | _ :: _ => reads + 1

variable {m read}

theorem process_spec (d : Search σ α S) (xs : List α) (n : Nat) :
    (∃ d', process m d = (.inProgress, d') ∧ d'.source = d.source ∧ workLeft d' n = n ∧
        pending m d' xs = pending m d xs) ∨
      ∃ item d', process m d = (.found item, d') ∧ d'.source = d.source ∧
        workLeft d' n ≤ n + 1 ∧ d'.state = m.start ∧
        pending m d xs = item :: pending m d' xs := by
  rw [process]
  rcases hfind : m.find d.state d.data with s | ⟨item, rest⟩
  · refine .inl ⟨_, rfl, rfl, rfl, ?_⟩
    rw [pending, pending, Scanner.run_of_find_inl hfind, List.nil_append]
  · refine .inr ⟨item, _, rfl, rfl, ?_, rfl, Scanner.run_of_find_inr hfind xs⟩
    rw [workLeft]
    split <;> omega

/-- A step finds the end of the source, moves on, or finds the first pending item. -/
theorem step_spec (d : Search σ α S) {xs : List α} {n : Nat} (hyields : Yields read d.source xs n) :
    (∃ d', step m read reset d = (.ended, d') ∧ pending m d xs = [] ∧
        Yields read d'.source [] 0 ∧ workLeft d' 0 = 0) ∨
      (∃ d' xs' n', step m read reset d = (.inProgress, d') ∧ Yields read d'.source xs' n' ∧
        workLeft d' n' < workLeft d n ∧ pending m d' xs' = pending m d xs) ∨
      ∃ item d' xs' n', step m read reset d = (.found item, d') ∧ Yields read d'.source xs' n' ∧
        workLeft d' n' ≤ workLeft d n ∧ d'.state = m.start ∧
        pending m d xs = item :: pending m d' xs' := by
  rw [step]
  cases hdata : d.data with
  | nil =>
      have hwork : workLeft d n = n := by
        rw [workLeft, hdata]
      rw [hwork]
      cases hyields with
      | done hread =>
          rw [hread]
          refine .inl ⟨_, rfl, ?_, .done hread, rfl⟩
          rw [pending, hdata]
          rfl
      | @more s' source chunk ys n hread hrest =>
          rw [hread]
          have hsame : pending m d (chunk ++ ys) =
              pending m { d with source := source, data := chunk } ys := by
            rw [pending, pending, hdata, List.nil_append]
          rw [hsame]
          rcases process_spec (m := m) { d with source := source, data := chunk } ys n with
            ⟨d', heq, hsource, hwork', hpending⟩ | ⟨item, d', heq, hsource, hwork', hstart, hpending⟩
          · exact .inr (.inl ⟨d', ys, n, heq, hsource ▸ hrest, by omega, hpending⟩)
          · exact .inr (.inr ⟨item, d', ys, n, heq, hsource ▸ hrest, hwork', hstart, hpending⟩)
  | cons a as =>
      have hwork : workLeft d n = n + 1 := by
        rw [workLeft, hdata]
      rw [hwork]
      rcases process_spec (m := m) d xs n with
        ⟨d', heq, hsource, hwork', hpending⟩ | ⟨item, d', heq, hsource, hwork', hstart, hpending⟩
      · exact .inr (.inl ⟨d', xs, n, heq, hsource ▸ hyields, by omega, hpending⟩)
      · exact .inr (.inr ⟨item, d', xs, n, heq, hsource ▸ hyields, hwork', hstart, hpending⟩)

/-- Polling gives all items, when there is fuel for the reads and the items. -/
theorem poll_eq (fuel : Nat) (d : Search σ α S) {xs : List α} {n : Nat}
    (hyields : Yields read d.source xs n)
    (hfuel : workLeft d n + (pending m d xs).length < fuel) :
    poll m read reset fuel d = some (pending m d xs) := by
  induction fuel generalizing d xs n with
  | zero => omega
  | succ fuel ih =>
      rw [poll]
      rcases step_spec (m := m) reset d hyields with
        ⟨d', heq, hnone, -⟩ | ⟨d', xs', n', heq, hyields', hwork, hpending⟩ |
        ⟨item, d', xs', n', heq, hyields', hwork, -, hpending⟩
      · simp only [heq, hnone]
      · simp only [heq]
        rw [ih d' hyields' (by rw [hpending]; omega), hpending]
      · rw [hpending, List.length_cons] at hfuel
        simp only [heq]
        rw [ih d' hyields' (by omega), hpending]
        rfl

theorem seek_spec (fuel : Nat) (d : Search σ α S) {xs : List α} {n : Nat}
    (hyields : Yields read d.source xs n) (hfuel : workLeft d n < fuel) :
    ∃ d' xs' n', Yields read d'.source xs' n' ∧ workLeft d' n' ≤ workLeft d n ∧
      (pending m d xs = [] ∧ seek m read reset fuel d = some (none, d') ∨
        ∃ item, seek m read reset fuel d = some (some item, d') ∧ d'.state = m.start ∧
          pending m d xs = item :: pending m d' xs') := by
  induction fuel generalizing d xs n with
  | zero => omega
  | succ fuel ih =>
      rw [seek]
      rcases step_spec (m := m) reset d hyields with
        ⟨d', heq, hnone, hyields', hwork⟩ | ⟨d', xs', n', heq, hyields', hwork, hpending⟩ |
        ⟨item, d', xs', n', heq, hyields', hwork, hstart, hpending⟩
      · exact ⟨d', [], 0, hyields', by omega, .inl ⟨hnone, by simp only [heq]⟩⟩
      · obtain ⟨d'', xs'', n'', hyields'', hwork'', hresult⟩ := ih d' hyields' (by omega)
        rw [hpending] at hresult
        simp only [heq]
        exact ⟨d'', xs'', n'', hyields'', by omega, hresult⟩
      · exact ⟨d', xs', n', hyields', hwork, .inr ⟨item, by simp only [heq], hstart, hpending⟩⟩

/-- Searches from the start of the machine give all items in order, and then the end. -/
theorem seeks_eq (hreset : reset m.start = m.start) (fuel : Nat) (d : Search σ α S) {xs : List α}
    {n : Nat} (hstart : d.state = m.start) (hyields : Yields read d.source xs n)
    (hfuel : workLeft d n < fuel) :
    seeks m read reset fuel ((pending m d xs).length + 1) d =
      some ((pending m d xs).map some ++ [none]) := by
  generalize hitems : pending m d xs = items
  have hsame : { d with state := reset d.state } = d := by rw [hstart, hreset, ← hstart]
  induction items generalizing d xs n with
  | nil =>
      obtain ⟨d', xs', n', -, -, ⟨-, heq⟩ | ⟨item, -, -, hpending⟩⟩ :=
        seek_spec (m := m) reset fuel d hyields hfuel
      · simp only [seeks, hsame, heq, List.length_nil]
        rfl
      · rw [hitems] at hpending
        cases hpending
  | cons item items ih =>
      obtain ⟨d', xs', n', hyields', hwork, ⟨hnone, -⟩ | ⟨item', heq, hstart', hpending⟩⟩ :=
        seek_spec (m := m) reset fuel d hyields hfuel
      · rw [hitems] at hnone
        cases hnone
      · rw [hitems] at hpending
        obtain ⟨rfl, hrest⟩ := List.cons.inj hpending
        have hnext := ih d' hstart' hyields' (by omega) hrest.symm
          (by rw [hstart', hreset, ← hstart'])
        rw [List.length_cons, seeks, hsame, heq, Option.bind_some]
        dsimp only
        rw [hnext]
        rfl

end Search

end ColonyPico.Foundations.ChunkedInput
