import ColonyPico.Container.RingBuffer
import Mathlib.Logic.Relation

/-!
The RAM pipe (`Cpl::Io::Ram::InputOutput`): any number of threads that read, write and close a ring
buffer under one mutex, and wait on two counting semaphores.
-/

namespace ColonyPico.Io.RamPipe

open ColonyPico.Container.RingBuffer

/-- The pipe and the counts of its semaphores.  The last two fields record the bytes added and the
bytes removed. -/
structure Pipe where
  ringBuffer : Buffer UInt8
  semaReaders : Nat
  semaWriters : Nat
  readersWaiting : Nat
  writersWaiting : Nat
  opened : Bool
  added : List UInt8
  removed : List UInt8

/-- How a mutex-held section ends. -/
inductive Outcome where
  | returns (result : Bool) (bytes : Nat)
  | waits
  deriving DecidableEq

/-- One signal for each waiting writer. -/
def signalWriters (p : Pipe) : Pipe :=
  { p with semaWriters := p.semaWriters + p.writersWaiting, writersWaiting := 0 }

def signalReaders (p : Pipe) : Pipe :=
  { p with semaReaders := p.semaReaders + p.readersWaiting, readersWaiting := 0 }

/-- The loop of `read()` with the mutex held, from `bytesRead` bytes on. -/
def readSection (p : Pipe) (bytesRead : Nat) : Nat → Pipe × Outcome
  | 0 => (p, .returns true bytesRead)
  | numBytes + 1 =>
      if p.opened then
        match p.ringBuffer.remove with
        | (none, ringBuffer) =>
            let p := { p with ringBuffer := ringBuffer }
            if 0 < bytesRead then (p, .returns true bytesRead)
            else ({ p with readersWaiting := p.readersWaiting + 1 }, .waits)
        | (some byte, ringBuffer) =>
            let p := { p with ringBuffer := ringBuffer, removed := p.removed ++ [byte] }
            readSection (signalWriters p) (bytesRead + 1) numBytes
      else (p, .returns true bytesRead)

/-- The loop of `write()` with the mutex held, from `bytesWritten` bytes on. -/
def writeSection (p : Pipe) (bytesWritten : Nat) : List UInt8 → Pipe × Outcome
  | [] => (p, .returns p.opened bytesWritten)
  | byte :: src =>
      if p.opened then
        match p.ringBuffer.add byte with
        | (false, ringBuffer) =>
            let p := { p with ringBuffer := ringBuffer }
            if 0 < bytesWritten then (p, .returns true bytesWritten)
            else ({ p with writersWaiting := p.writersWaiting + 1 }, .waits)
        | (true, ringBuffer) =>
            let p := { p with ringBuffer := ringBuffer, added := p.added ++ [byte] }
            writeSection (signalReaders p) (bytesWritten + 1) src
      else (p, .returns false bytesWritten)

def closeSection (p : Pipe) : Pipe :=
  if p.opened then signalReaders (signalWriters { p with opened := false }) else p

/-- Where a thread is: outside, before the test for a closed pipe, before the section with the loop,
or in the wait of its semaphore. -/
inductive Thread where
  | outside
  | readEntry (numBytes : Nat)
  | readLoop (numBytes : Nat)
  | readWait (numBytes : Nat)
  | writeEntry (data : List UInt8)
  | writeLoop (data : List UInt8)
  | writeWait (data : List UInt8)
  | closing

def Thread.readBlocked : Thread → Bool
  | .readWait _ => true
  | _ => false

def Thread.writeBlocked : Thread → Bool
  | .writeWait _ => true
  | _ => false

/-- One atomic step of a thread; none when it is outside or blocked. -/
def Thread.run (p : Pipe) : Thread → Option (Pipe × Thread)
  | .outside => none
  | .readEntry numBytes =>
      if p.opened ∧ numBytes ≠ 0 then some (p, .readLoop numBytes) else some (p, .outside)
  | .readLoop numBytes =>
      match readSection p 0 numBytes with
      | (p, .waits) => some (p, .readWait numBytes)
      | (p, .returns _ _) => some (p, .outside)
  | .readWait numBytes =>
      if p.semaReaders = 0 then none
      else some ({ p with semaReaders := p.semaReaders - 1 }, .readLoop numBytes)
  | .writeEntry data =>
      if p.opened ∧ data ≠ [] then some (p, .writeLoop data) else some (p, .outside)
  | .writeLoop data =>
      match writeSection p 0 data with
      | (p, .waits) => some (p, .writeWait data)
      | (p, .returns _ _) => some (p, .outside)
  | .writeWait data =>
      if p.semaWriters = 0 then none
      else some ({ p with semaWriters := p.semaWriters - 1 }, .writeLoop data)
  | .closing => some (closeSection p, .outside)

structure System where
  pipe : Pipe
  threads : List Thread

def System.start (memorySizeInBytes : UInt32) (rawMemory : List UInt8) (threads : Nat) : System :=
  { pipe :=
      { ringBuffer := Buffer.init memorySizeInBytes rawMemory
        semaReaders := 0
        semaWriters := 0
        readersWaiting := 0
        writersWaiting := 0
        opened := true
        added := []
        removed := [] }
    threads := List.replicate threads .outside }

inductive Action where
  | read (thread numBytes : Nat)
  | write (thread : Nat) (data : List UInt8)
  | close (thread : Nat)
  | run (thread : Nat)

/-- A thread that is outside starts a call. -/
def System.call (s : System) (i : Nat) (entry : Thread) : Option System :=
  match s.threads[i]? with
  | some .outside => some { s with threads := s.threads.set i entry }
  | _ => none

def step (s : System) : Action → Option System
  | .read i numBytes => s.call i (.readEntry numBytes)
  | .write i data => s.call i (.writeEntry data)
  | .close i => s.call i .closing
  | .run i => do
      let thread ← s.threads[i]?
      let (pipe, thread) ← thread.run s.pipe
      some { s with pipe := pipe, threads := s.threads.set i thread }

/-! The mutex-held sections -/

/-- The ring buffer of `n` slots shows the queue `q` of the bytes that were added and not removed;
readers are registered only at an empty and writers only at a full buffer of an open pipe. -/
structure Flow (n : Nat) (p : Pipe) (q : List UInt8) : Prop where
  represents : Represents n p.ringBuffer q
  ordered : p.removed ++ q = p.added
  readers : 0 < p.readersWaiting → q = [] ∧ p.opened = true
  writers : 0 < p.writersWaiting → q.length = n - 1 ∧ p.opened = true

/-- The readers that are registered or have a signal waiting for them. -/
def Pipe.readersOwed (p : Pipe) : Nat :=
  p.readersWaiting + p.semaReaders

def Pipe.writersOwed (p : Pipe) : Nat :=
  p.writersWaiting + p.semaWriters

def Outcome.count : Outcome → Nat
  | .returns _ _ => 0
  | .waits => 1

variable {n : Nat} {p p' : Pipe} {q : List UInt8}

theorem readersOwed_signalReaders (p : Pipe) : (signalReaders p).readersOwed = p.readersOwed := by
  show 0 + (p.semaReaders + p.readersWaiting) = p.readersWaiting + p.semaReaders
  rw [Nat.zero_add, Nat.add_comm]

theorem writersOwed_signalWriters (p : Pipe) : (signalWriters p).writersOwed = p.writersOwed := by
  show 0 + (p.semaWriters + p.writersWaiting) = p.writersWaiting + p.semaWriters
  rw [Nat.zero_add, Nat.add_comm]

theorem readSection_spec (h : Flow n p q) (bytesRead numBytes : Nat) :
    ∃ q', Flow n (readSection p bytesRead numBytes).1 q' ∧
      (readSection p bytesRead numBytes).1.readersOwed =
        p.readersOwed + (readSection p bytesRead numBytes).2.count ∧
      (readSection p bytesRead numBytes).1.writersOwed = p.writersOwed := by
  induction numBytes generalizing p q bytesRead with
  | zero => exact ⟨q, h, rfl, rfl⟩
  | succ numBytes ih =>
      obtain ⟨hrep, hordered, hreaders, hwriters⟩ := h
      obtain ⟨hhead, htail⟩ := hrep.remove
      rcases hopened : p.opened with _ | _
      · rw [readSection, if_neg (by rw [hopened]; decide)]
        exact ⟨q, ⟨hrep, hordered, hreaders, hwriters⟩, rfl, rfl⟩
      · rcases q with _ | ⟨byte, q⟩
        · have hpair : p.ringBuffer.remove = (none, p.ringBuffer.remove.2) := Prod.ext hhead rfl
          rw [readSection, if_pos hopened, hpair]
          dsimp only
          split_ifs
          · exact ⟨[], ⟨htail, hordered, hreaders, hwriters⟩, rfl, rfl⟩
          · refine ⟨[], ⟨htail, hordered, fun _ => ⟨rfl, hopened⟩, hwriters⟩, ?_, rfl⟩
            show p.readersWaiting + 1 + p.semaReaders = p.readersWaiting + p.semaReaders + 1
            omega
        · have hpair : p.ringBuffer.remove = (some byte, p.ringBuffer.remove.2) :=
            Prod.ext hhead rfl
          have hflow : Flow n (signalWriters { p with
              ringBuffer := p.ringBuffer.remove.2, removed := p.removed ++ [byte] }) q := by
            refine ⟨htail, ?_, ?_, fun hpos => absurd hpos (Nat.lt_irrefl 0)⟩
            · show p.removed ++ [byte] ++ q = p.added
              rw [List.append_assoc]
              exact hordered
            · intro hpos
              exact absurd (hreaders hpos).1 (List.cons_ne_nil byte q)
          obtain ⟨q', hflow', howedReaders, howedWriters⟩ := ih hflow (bytesRead + 1)
          rw [writersOwed_signalWriters] at howedWriters
          rw [readSection, if_pos hopened, hpair]
          exact ⟨q', hflow', howedReaders, howedWriters⟩

theorem writeSection_spec (h : Flow n p q) (bytesWritten : Nat) (data : List UInt8) :
    ∃ q', Flow n (writeSection p bytesWritten data).1 q' ∧
      (writeSection p bytesWritten data).1.readersOwed = p.readersOwed ∧
      (writeSection p bytesWritten data).1.writersOwed =
        p.writersOwed + (writeSection p bytesWritten data).2.count := by
  induction data generalizing p q bytesWritten with
  | nil => exact ⟨q, h, rfl, rfl⟩
  | cons byte data ih =>
      obtain ⟨hrep, hordered, hreaders, hwriters⟩ := h
      obtain ⟨hresult, hadded⟩ := hrep.add byte
      have hfits := hrep.fits
      rcases hopened : p.opened with _ | _
      · rw [writeSection, if_neg (by rw [hopened]; decide)]
        exact ⟨q, ⟨hrep, hordered, hreaders, hwriters⟩, rfl, rfl⟩
      · rcases Decidable.em (q.length < n - 1) with hroom | hfull
        · rw [if_pos hroom] at hadded
          have hpair : p.ringBuffer.add byte = (true, (p.ringBuffer.add byte).2) :=
            Prod.ext (hresult.trans (decide_eq_true hroom)) rfl
          have hflow : Flow n (signalReaders { p with
              ringBuffer := (p.ringBuffer.add byte).2, added := p.added ++ [byte] })
              (q ++ [byte]) := by
            refine ⟨hadded, ?_, fun hpos => absurd hpos (Nat.lt_irrefl 0), ?_⟩
            · show p.removed ++ (q ++ [byte]) = p.added ++ [byte]
              rw [← List.append_assoc, hordered]
            · intro hpos
              have hlen := (hwriters hpos).1
              omega
          obtain ⟨q', hflow', howedReaders, howedWriters⟩ := ih hflow (bytesWritten + 1)
          rw [readersOwed_signalReaders] at howedReaders
          rw [writeSection, if_pos hopened, hpair]
          exact ⟨q', hflow', howedReaders, howedWriters⟩
        · rw [if_neg hfull] at hadded
          have hpair : p.ringBuffer.add byte = (false, (p.ringBuffer.add byte).2) :=
            Prod.ext (hresult.trans (decide_eq_false hfull)) rfl
          have hlen : q.length = n - 1 := by omega
          rw [writeSection, if_pos hopened, hpair]
          dsimp only
          split_ifs
          · exact ⟨q, ⟨hadded, hordered, hreaders, hwriters⟩, rfl, rfl⟩
          · refine ⟨q, ⟨hadded, hordered, hreaders, fun _ => ⟨hlen, hopened⟩⟩, rfl, ?_⟩
            show p.writersWaiting + 1 + p.semaWriters = p.writersWaiting + p.semaWriters + 1
            omega

theorem closeSection_spec (h : Flow n p q) :
    Flow n (closeSection p) q ∧ (closeSection p).readersOwed = p.readersOwed ∧
      (closeSection p).writersOwed = p.writersOwed := by
  unfold closeSection
  split_ifs
  · refine ⟨⟨h.represents, h.ordered, ?_, ?_⟩, ?_, ?_⟩
    · exact fun hpos => absurd hpos (Nat.lt_irrefl 0)
    · exact fun hpos => absurd hpos (Nat.lt_irrefl 0)
    · exact readersOwed_signalReaders _
    · exact writersOwed_signalWriters { p with opened := false }
  · exact ⟨h, rfl, rfl⟩

/-! Runs -/

/-- A step of a thread keeps the queue, and moves the numbers of waits that are owed with the
thread's own wait. -/
theorem run_spec (h : Flow n p q) {t t' : Thread} (hrun : t.run p = some (p', t')) :
    ∃ q', Flow n p' q' ∧
      p'.readersOwed + t.readBlocked.toNat = p.readersOwed + t'.readBlocked.toNat ∧
      p'.writersOwed + t.writeBlocked.toNat = p.writersOwed + t'.writeBlocked.toNat := by
  cases t with
  | outside => cases hrun
  | readEntry numBytes =>
      simp only [Thread.run] at hrun
      split_ifs at hrun <;> cases hrun <;> exact ⟨q, h, rfl, rfl⟩
  | readLoop numBytes =>
      obtain ⟨q', hflow, hreaders, hwriters⟩ := readSection_spec h 0 numBytes
      simp only [Thread.run] at hrun
      split at hrun
      · rename_i pipe heq
        cases hrun
        rw [heq] at hflow hreaders hwriters
        exact ⟨q', hflow, hreaders, congrArg (· + 0) hwriters⟩
      · rename_i pipe result bytes heq
        cases hrun
        rw [heq] at hflow hreaders hwriters
        exact ⟨q', hflow, hreaders, congrArg (· + 0) hwriters⟩
  | readWait numBytes =>
      simp only [Thread.run] at hrun
      split_ifs at hrun with hsignals
      cases hrun
      refine ⟨q, ⟨h.represents, h.ordered, h.readers, h.writers⟩, ?_, rfl⟩
      show p.readersWaiting + (p.semaReaders - 1) + 1 = p.readersWaiting + p.semaReaders
      omega
  | writeEntry data =>
      simp only [Thread.run] at hrun
      split_ifs at hrun <;> cases hrun <;> exact ⟨q, h, rfl, rfl⟩
  | writeLoop data =>
      obtain ⟨q', hflow, hreaders, hwriters⟩ := writeSection_spec h 0 data
      simp only [Thread.run] at hrun
      split at hrun
      · rename_i pipe heq
        cases hrun
        rw [heq] at hflow hreaders hwriters
        exact ⟨q', hflow, congrArg (· + 0) hreaders, hwriters⟩
      · rename_i pipe result bytes heq
        cases hrun
        rw [heq] at hflow hreaders hwriters
        exact ⟨q', hflow, congrArg (· + 0) hreaders, hwriters⟩
  | writeWait data =>
      simp only [Thread.run] at hrun
      split_ifs at hrun with hsignals
      cases hrun
      refine ⟨q, ⟨h.represents, h.ordered, h.readers, h.writers⟩, rfl, ?_⟩
      show p.writersWaiting + (p.semaWriters - 1) + 1 = p.writersWaiting + p.semaWriters
      omega
  | closing =>
      cases hrun
      obtain ⟨hflow, hreaders, hwriters⟩ := closeSection_spec h
      exact ⟨q, hflow, congrArg (· + 0) hreaders, congrArg (· + 0) hwriters⟩

theorem countP_set_add {threads : List Thread} {i : Nat} {t : Thread} (ht : threads[i]? = some t)
    (blocked : Thread → Bool) (t' : Thread) :
    (threads.set i t').countP blocked + (blocked t).toNat =
      threads.countP blocked + (blocked t').toNat := by
  obtain ⟨hi, hget⟩ := List.getElem?_eq_some_iff.mp ht
  have hpos : blocked t = true → 0 < threads.countP blocked :=
    fun hblocked => List.countP_pos_iff.mpr ⟨t, hget ▸ List.getElem_mem hi, hblocked⟩
  rw [List.countP_set hi, hget]
  rcases hold : blocked t with _ | _
  · rcases hnew : blocked t' with _ | _ <;> simp
  · have hone := hpos hold
    rcases hnew : blocked t' with _ | _ <;> simp <;> omega

/-- The blocked threads are those that are owed a wake-up or already have a signal. -/
structure Inv (n : Nat) (s : System) (q : List UInt8) : Prop where
  flow : Flow n s.pipe q
  readers : s.threads.countP Thread.readBlocked = s.pipe.readersOwed
  writers : s.threads.countP Thread.writeBlocked = s.pipe.writersOwed

variable {s s' : System}

theorem inv_call (h : Inv n s q) {i : Nat} {entry : Thread} (hcall : s.call i entry = some s')
    (hread : entry.readBlocked = false) (hwrite : entry.writeBlocked = false) : Inv n s' q := by
  unfold System.call at hcall
  split at hcall
  · rename_i ht
    cases hcall
    have hreaders := countP_set_add ht Thread.readBlocked entry
    have hwriters := countP_set_add ht Thread.writeBlocked entry
    rw [hread] at hreaders
    rw [hwrite] at hwriters
    exact ⟨h.flow, hreaders.trans h.readers, hwriters.trans h.writers⟩
  · cases hcall

theorem inv_step (h : Inv n s q) {a : Action} (hstep : step s a = some s') : ∃ q', Inv n s' q' := by
  cases a with
  | read i numBytes => exact ⟨q, inv_call h hstep rfl rfl⟩
  | write i data => exact ⟨q, inv_call h hstep rfl rfl⟩
  | close i => exact ⟨q, inv_call h hstep rfl rfl⟩
  | run i =>
      obtain ⟨t, ht, hrest⟩ := Option.bind_eq_some_iff.mp hstep
      obtain ⟨⟨pipe, t'⟩, hrun, hs'⟩ := Option.bind_eq_some_iff.mp hrest
      obtain ⟨q', hflow, hreaders, hwriters⟩ := run_spec h.flow hrun
      cases hs'
      have hcountReaders := countP_set_add ht Thread.readBlocked t'
      have hcountWriters := countP_set_add ht Thread.writeBlocked t'
      rw [h.readers] at hcountReaders
      rw [h.writers] at hcountWriters
      refine ⟨q', hflow, ?_, ?_⟩
      · show (s.threads.set i t').countP Thread.readBlocked = pipe.readersOwed
        omega
      · show (s.threads.set i t').countP Thread.writeBlocked = pipe.writersOwed
        omega

def Moves (s s' : System) : Prop :=
  ∃ a, step s a = some s'

/-- In every run of any number of threads, the bytes removed are the first of the bytes added, the
threads blocked without a signal are those the waiting counters count, and they are blocked only at
an empty, or a full, buffer of an open pipe. -/
theorem pipe_serves (memorySizeInBytes : UInt32) (hsize : 2 ≤ memorySizeInBytes)
    {rawMemory : List UInt8} (hlen : rawMemory.length = memorySizeInBytes.toNat) (threads : Nat)
    (hreaches : Relation.ReflTransGen Moves (System.start memorySizeInBytes rawMemory threads) s) :
    s.pipe.removed <+: s.pipe.added ∧
    s.threads.countP Thread.readBlocked = s.pipe.readersWaiting + s.pipe.semaReaders ∧
    s.threads.countP Thread.writeBlocked = s.pipe.writersWaiting + s.pipe.semaWriters ∧
    (s.pipe.semaReaders < s.threads.countP Thread.readBlocked →
      s.pipe.ringBuffer.isEmpty = true ∧ s.pipe.opened = true) ∧
    (s.pipe.semaWriters < s.threads.countP Thread.writeBlocked →
      s.pipe.ringBuffer.isFull = true ∧ s.pipe.opened = true) := by
  have hpos : 0 < memorySizeInBytes := by
    rw [UInt32.lt_iff_toNat_lt]
    rw [UInt32.le_iff_toNat_le] at hsize
    exact Nat.lt_of_lt_of_le (by decide) hsize
  have hinv : ∃ q, Inv memorySizeInBytes.toNat s q := by
    induction hreaches with
    | refl =>
        refine ⟨[], ⟨represents_init hpos hlen, rfl, ?_, ?_⟩, ?_, ?_⟩
        · exact fun hwaits => absurd hwaits (Nat.lt_irrefl 0)
        · exact fun hwaits => absurd hwaits (Nat.lt_irrefl 0)
        · exact List.countP_replicate.trans (if_neg (by decide))
        · exact List.countP_replicate.trans (if_neg (by decide))
    | tail _ hmove ih =>
        obtain ⟨q, hinv⟩ := ih
        obtain ⟨a, hstep⟩ := hmove
        exact inv_step hinv hstep
  obtain ⟨q, hflow, hreaders, hwriters⟩ := hinv
  refine ⟨⟨q, hflow.ordered⟩, hreaders, hwriters, ?_, ?_⟩
  · intro hblocked
    rw [hreaders, Pipe.readersOwed] at hblocked
    obtain ⟨hempty, hopened⟩ := hflow.readers (by omega)
    rw [hflow.represents.isEmpty, hempty]
    exact ⟨rfl, hopened⟩
  · intro hblocked
    rw [hwriters, Pipe.writersOwed] at hblocked
    obtain ⟨hfull, hopened⟩ := hflow.writers (by omega)
    rw [hflow.represents.isFull]
    exact ⟨decide_eq_true hfull, hopened⟩

/-- Two readers wait; a writer signals both, one of them takes the byte, and the other registers
again. -/
theorem pipe_serves_two_readers :
    ∃ s, Relation.ReflTransGen Moves (System.start 2 [0, 0] 3) s ∧
      s.pipe.removed = [7] ∧ s.threads.countP Thread.readBlocked = 1 ∧
      s.pipe.readersWaiting = 1 ∧ s.pipe.ringBuffer.isEmpty = true ∧ s.pipe.opened = true := by
  have hreaches : Relation.ReflTransGen Moves (System.start 2 [0, 0] 3) _ :=
    .head ⟨.read 0 1, rfl⟩ <| .head ⟨.run 0, rfl⟩ <| .head ⟨.run 0, rfl⟩ <|
    .head ⟨.read 1 1, rfl⟩ <| .head ⟨.run 1, rfl⟩ <| .head ⟨.run 1, rfl⟩ <|
    .head ⟨.write 2 [7], rfl⟩ <| .head ⟨.run 2, rfl⟩ <| .head ⟨.run 2, rfl⟩ <|
    .head ⟨.run 0, rfl⟩ <| .head ⟨.run 0, rfl⟩ <|
    .head ⟨.run 1, rfl⟩ <| .head ⟨.run 1, rfl⟩ .refl
  obtain ⟨-, hreaders, -, hblocked, -⟩ := pipe_serves 2 (by decide) rfl 3 hreaches
  obtain ⟨hempty, hopened⟩ := hblocked (by decide)
  exact ⟨_, hreaches, rfl, hreaders, rfl, hempty, hopened⟩

end ColonyPico.Io.RamPipe
