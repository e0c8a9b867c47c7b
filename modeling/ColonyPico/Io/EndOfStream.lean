import ColonyPico.Foundations.Runs
import ColonyPico.Io.RamPipe

/-!
The end of the stream of a RAM pipe: what a read of a positive length returns when the pipe is
closed before, during or after its wait.
-/

namespace ColonyPico.Io.EndOfStream

open ColonyPico.Foundations.Runs
open ColonyPico.Io.RamPipe

/-- The result and the delivered bytes of a read of a positive length, when the next step of its
thread is the one that returns. -/
def readReturns (p : Pipe) : Thread → Option (Bool × List UInt8)
  | .readEntry (_ + 1) => if p.opened then none else some (false, [])
  | .readLoop (numBytes + 1) =>
      match readSection p 0 (numBytes + 1) with
      | (p', .returns result _) => some (result, p'.removed.drop p.removed.length)
      | (_, .waits) => none
  | _ => none

/-- A read that returns in this step returns true just when it delivered a byte. -/
def ReturnsTrueOnData (s : System) : Action → Prop
  | .run i =>
      ∀ thread ∈ s.threads[i]?, ∀ returned ∈ readReturns s.pipe thread,
        returned.1 = true ↔ returned.2 ≠ []
  | _ => True

/-- A read that enters its mutex-held loop, at first or behind a wait, finds the pipe open. -/
def EntersOpenPipe (s : System) : Action → Prop
  | .run i =>
      ∀ numBytes, s.threads[i]? = some (.readLoop (numBytes + 1)) → s.pipe.opened = true
  | _ => True

variable {s : System} {p : Pipe}

/-- The loop returns true in any case, with as many bytes as it took out of the buffer. -/
theorem readSection_returns (p : Pipe) (bytesRead numBytes : Nat) :
    ∃ delivered,
      (readSection p bytesRead numBytes).1.removed = p.removed ++ delivered ∧
      ((readSection p bytesRead numBytes).2 = .waits ∨
        (readSection p bytesRead numBytes).2 = .returns true (bytesRead + delivered.length)) := by
  induction numBytes generalizing p bytesRead with
  | zero => exact ⟨[], (List.append_nil _).symm, .inr rfl⟩
  | succ numBytes ih =>
      rcases hopened : p.opened with _ | _
      · rw [readSection, if_neg (by rw [hopened]; decide)]
        exact ⟨[], (List.append_nil _).symm, .inr rfl⟩
      · rcases hremove : p.ringBuffer.remove with ⟨_ | byte, ringBuffer⟩
        · rw [readSection, if_pos hopened, hremove]
          dsimp only
          split_ifs
          · exact ⟨[], (List.append_nil _).symm, .inr rfl⟩
          · exact ⟨[], (List.append_nil _).symm, .inl rfl⟩
        · obtain ⟨delivered, hremoved, houtcome⟩ :=
            ih (signalWriters { p with
              ringBuffer := ringBuffer, removed := p.removed ++ [byte] }) (bytesRead + 1)
          rw [Nat.add_assoc, Nat.add_comm 1 delivered.length] at houtcome
          rw [readSection, if_pos hopened, hremove]
          exact ⟨byte :: delivered, hremoved.trans (List.append_assoc _ [byte] delivered), houtcome⟩

theorem readSection_opened (hopened : p.opened = true) (numBytes : Nat) :
    (readSection p 0 (numBytes + 1)).2 = .waits ∨
      ∃ byte rest, (readSection p 0 (numBytes + 1)).1.removed = p.removed ++ byte :: rest := by
  rw [readSection, if_pos hopened]
  rcases hremove : p.ringBuffer.remove with ⟨_ | byte, ringBuffer⟩
  · exact .inl rfl
  · obtain ⟨delivered, hremoved, -⟩ :=
      readSection_returns (signalWriters { p with
        ringBuffer := ringBuffer, removed := p.removed ++ [byte] }) 1 numBytes
    exact .inr ⟨byte, delivered, hremoved.trans (List.append_assoc _ [byte] delivered)⟩

theorem readSection_closed (hclosed : p.opened = false) (numBytes : Nat) :
    readSection p 0 (numBytes + 1) = (p, .returns true 0) := by
  rw [readSection, if_neg (by rw [hclosed]; decide)]

theorem readLoop_returns_iff (p : Pipe) (numBytes : Nat) :
    (∀ returned ∈ readReturns p (.readLoop (numBytes + 1)),
      returned.1 = true ↔ returned.2 ≠ []) ↔ p.opened = true := by
  rcases hopened : p.opened with _ | _
  · have hreturns : readReturns p (.readLoop (numBytes + 1)) = some (true, []) := by
      rw [readReturns, readSection_closed hopened]
      exact congrArg (fun rest => some (true, rest)) (List.drop_length)
    rw [hreturns]
    constructor
    · intro htrue
      exact absurd rfl ((htrue (true, []) rfl).mp rfl)
    · intro habsurd
      cases habsurd
  · refine iff_of_true (fun returned hreturned => ?_) rfl
    obtain ⟨delivered, -, houtcome⟩ := readSection_returns p 0 (numBytes + 1)
    have hsome := readSection_opened hopened numBytes
    rcases hsection : readSection p 0 (numBytes + 1) with ⟨p', outcome⟩
    rw [hsection] at houtcome hsome
    rw [readReturns, hsection] at hreturned
    rcases houtcome with rfl | rfl
    · cases hreturned
    · obtain ⟨byte, rest, hremoved⟩ := hsome.resolve_left (fun hwaits => nomatch hwaits)
      cases hreturned
      dsimp only at hremoved ⊢
      rw [hremoved, List.drop_left]
      exact iff_of_true rfl (List.cons_ne_nil byte rest)

theorem returnsTrueOnData_iff (s : System) (action : Action) :
    ReturnsTrueOnData s action ↔ EntersOpenPipe s action := by
  cases action with
  | read i numBytes => exact Iff.rfl
  | write i data => exact Iff.rfl
  | close i => exact Iff.rfl
  | run i =>
      rcases hthread : s.threads[i]? with _ | thread
      · simp only [ReturnsTrueOnData, EntersOpenPipe, hthread, Option.mem_def, reduceCtorEq,
          false_imp_iff, implies_true]
      · have htrue : ReturnsTrueOnData s (.run i) ↔
            ∀ returned ∈ readReturns s.pipe thread, returned.1 = true ↔ returned.2 ≠ [] := by
          simp only [ReturnsTrueOnData, hthread, Option.mem_def, Option.some.injEq, forall_eq']
        rw [htrue, EntersOpenPipe, hthread]
        rcases thread with _ | numBytes | numBytes | _ | _ | _ | _ | _
        case readLoop =>
          rcases numBytes with _ | numBytes
          · refine iff_of_true (fun returned hreturned => ?_) fun _ hlength => ?_
            · cases hreturned
            · cases hlength
          · rw [readLoop_returns_iff]
            constructor
            · exact fun hopened _ _ => hopened
            · exact fun hentersOpen => hentersOpen numBytes rfl
        case readEntry =>
          refine iff_of_true (fun returned hreturned => ?_) fun _ hloop => ?_
          · rcases numBytes with _ | numBytes
            · cases hreturned
            · rw [readReturns] at hreturned
              split_ifs at hreturned
              · cases hreturned
              · cases hreturned
                exact iff_of_false Bool.false_ne_true fun hne => hne rfl
          · cases hloop
        all_goals
          refine iff_of_true (fun returned hreturned => ?_) fun _ hloop => ?_
          · cases hreturned
          · cases hloop

/-- In every run of any number of threads the reads of positive lengths return true just when they
delivered a byte, if and only if no read enters its loop with the pipe closed. -/
theorem reads_returnTrueOnData_iff (s : System) (actions : List Action) :
    AllSteps step ReturnsTrueOnData s actions ↔ AllSteps step EntersOpenPipe s actions :=
  allSteps_congr returnsTrueOnData_iff

/-- A reader waits, the other thread closes the pipe, and the reader is woken up: it returns true
without a byte. -/
theorem reads_not_returnTrueOnData :
    ¬AllSteps step ReturnsTrueOnData (System.start 2 [0, 0] 2)
      [.read 0 1, .run 0, .run 0, .close 1, .run 1, .run 0, .run 0] := by
  intro htrue
  have hall : AllSteps step ReturnsTrueOnData (System.start 2 [0, 0] 2)
      ([.read 0 1, .run 0, .run 0, .close 1, .run 1, .run 0] ++ [.run 0]) := htrue
  have hlast := hall.at rfl (.readLoop 1) rfl (true, []) rfl
  exact absurd rfl (hlast.mp rfl)

end ColonyPico.Io.EndOfStream
