import Mathlib.Logic.Relation
import ColonyPico.Container.RingBuffer
import ColonyPico.Dm.SubscriberSteps

/-!
The server that writes the entries of a ring buffer to persistent storage
(`Cpl::Persistent::IndexedEntryServer`), with the threads that add entries to the buffer.
-/

namespace ColonyPico.Persistent.IndexedEntryServer

open ColonyPico.Container.RingBuffer
open ColonyPico.Dm.ModelPoint
open ColonyPico.Dm.ChangeNotification
open ColonyPico.Dm.LockState (LockablePoint)
open ColonyPico.Dm.NoLostUpdate
open ColonyPico.Dm.SubscriberSteps

/-- `OPTION_CPL_PERSISTENT_INDEXED_ENTRY_SERVER_MAX_BATCH_WRITE`. -/
def maxBatchWrite : Nat := 4

/-- The count of the buffer's elements is the only model point, the server its subscriber. -/
def wiring : Wiring Unit Unit Unit UInt32 where
  pointOf _ := ()
  loopOf _ := ()
  isDataEqual _ data src := data == src
  invalidData _ := 0

/-- Where the server is in `elementCountChanged()`. -/
inductive Pc (ENTRY : Type) where
  | outside
  /-- Next is `readData()` of `readAndSync()`. -/
  | called
  /-- Next is `attachSubscriber()` of `readAndSync()`. -/
  | read (count : Option UInt32) (seqNum : Nat)
  | looping (iterations : Nat)
  /-- An entry was removed; next is `isNotValid()` of `decrementMp()`. -/
  | removed (iterations : Nat) (entry : ENTRY)
  | counting (iterations : Nat) (entry : ENTRY) (valid : Bool)
  | adding (iterations : Nat) (entry : ENTRY)
  | returned

/-- `accepted`, `written` and `since`, the changes of the count up to the last `readData()`, are
history. -/
structure State (ENTRY : Type) where
  world : World Unit Unit Unit UInt32
  buffer : Buffer ENTRY
  opened : Bool
  pc : Pc ENTRY
  accepted : List ENTRY
  written : List ENTRY
  since : Nat

inductive Action (ENTRY : Type) where
  /-- `RingBufferMP::add()` of another thread. -/
  | add (entry : ENTRY)
  | openServer
  | popPending
  | beginCallback
  /-- The next step of `elementCountChanged()`. -/
  | go
  | notifyComplete
  deriving DecidableEq

variable {ENTRY : Type}

def mp (w : World Unit Unit Unit UInt32) : LockablePoint UInt32 :=
  w.point ()

/-- `Uint32::write()`. -/
def write (w : World Unit Unit Unit UInt32) (newValue : UInt32) : World Unit Unit Unit UInt32 :=
  change wiring w () (.writeData newValue .noRequest)

def incrementMp (w : World Unit Unit Unit UInt32) : World Unit Unit Unit UInt32 :=
  if (mp w).valid then write w ((mp w).data + 1) else write w 1

/-- `RingBufferMP::add()`. -/
def add (s : State ENTRY) (entry : ENTRY) : State ENTRY :=
  let (result, buffer) := s.buffer.add entry
  if result then
    { s with
      buffer := buffer
      world := incrementMp s.world
      accepted := s.accepted ++ [entry] }
  else s

/-- The next step of `elementCountChanged()`. -/
def go (s : State ENTRY) : Option (State ENTRY) :=
  match s.pc with
  | .outside => none
  | .called =>
      some { s with
        pc := .read (mp s.world).read (mp s.world).seqNum
        since := s.world.changes () }
  | .read count seqNum =>
      some { s with
        world := attachSubscriber wiring s.world () () seqNum
        pc := if 0 < count.getD 0 then .looping 0 else .returned }
  | .looping iterations =>
      if iterations < maxBatchWrite then
        match s.buffer.remove with
        | (some entry, buffer) => some { s with buffer := buffer, pc := .removed iterations entry }
        | (none, _) => some { s with pc := .returned }
      else some { s with pc := .returned }
  | .removed iterations entry =>
      some { s with pc := .counting iterations entry (mp s.world).valid }
  | .counting iterations entry valid =>
      some { s with
        world := write s.world (if valid then (mp s.world).data - 1 else 0)
        pc := .adding iterations entry }
  | .adding iterations entry =>
      some { s with written := s.written ++ [entry], pc := .looping (iterations + 1) }
  | .returned => none

def step (s : State ENTRY) : Action ENTRY → Option (State ENTRY)
  | .add entry => some (add s entry)
  | .openServer =>
      -- messages and notifications are handled by the same thread
      if s.opened = false ∧ s.world.loop () = .idle then
        some { s with
          opened := true
          world := attachSubscriber wiring s.world () () sequenceNumberUnknown }
      else none
  | .popPending =>
      if s.world.loop () = .idle then some { s with world := popPending s.world () } else none
  | .beginCallback =>
      if s.world.loop () = .popped () then
        some { s with world := beginCallback wiring s.world (), pc := .called }
      else none
  | .go => go s
  | .notifyComplete =>
      match s.pc with
      | .returned => some { s with world := notifyComplete wiring s.world (), pc := .outside }
      | _ => none

/-- A buffer as it is constructed, with a count that is invalid or zero. -/
def init (maxElements : UInt32) (memory : List ENTRY) (valid : Bool) : State ENTRY :=
  { world := World.init (fun _ => 0) (fun _ => valid) (fun _ => false)
    buffer := Buffer.init maxElements memory
    opened := false
    pc := .outside
    accepted := []
    written := []
    since := 0 }

/-- The entry that the server has taken from the buffer and not passed on yet. -/
def Pc.inHand : Pc ENTRY → List ENTRY
  | .removed _ entry | .counting _ entry _ | .adding _ entry => [entry]
  | _ => []

/-- The entries are passed on in the order in which they were accepted, and when no
notification is pending or running all of them have been. -/
structure Drains (n : Nat) (s : State ENTRY) : Prop where
  inOrder : ∃ q, Shows n s.buffer q ∧ s.accepted = s.written ++ s.pc.inHand ++ q
  drained : s.opened = true → (s.world.subscriber ()).state ≠ .notifyPending →
    (s.world.subscriber ()).state ≠ .notifyNotifying →
      s.buffer.isEmpty = true ∧ s.written = s.accepted

/-- A step of a thread. The sequence numbers tell the changes during a callback apart: the
buffer is too small for a whole period of them, or there are fewer. -/
def Moves (s s' : State ENTRY) : Prop :=
  ∃ a, step s a = some s' ∧ (a = .notifyComplete →
    s.buffer.memoryNumElements ≤ 65528 ∨ s.world.changes () < s.since + 65535)

/-- The entry that was removed and is not counted yet. -/
def Pc.uncounted : Pc ENTRY → Nat
  | .removed _ _ | .counting _ _ _ => 1
  | _ => 0

/-- What holds during a callback: the changes of the count since it was read bring the server
back, or the buffer is empty. The last part of each bounds the changes by the length of the
queue, since each one not made by the server added an entry. -/
def Progress (since changes seqNumber : Nat) (q : List ENTRY) : Pc ENTRY → Prop
  | .outside | .called => True
  | .read count seqNum =>
      seqNum = seqNumAfter since ∧ since ≤ changes ∧
        (0 < count.getD 0 → q ≠ [] ∧ changes + 1 ≤ since + q.length) ∧
        (¬0 < count.getD 0 → (since < changes ∨ q = []) ∧ changes ≤ since + q.length)
  | .looping iterations =>
      seqNumber = seqNumAfter since ∧ since ≤ changes ∧ iterations ≤ maxBatchWrite ∧
        (q = [] → since < changes) ∧ (0 < iterations → since < changes) ∧
        changes + 1 ≤ since + q.length + 2 * iterations
  | .removed iterations _ =>
      seqNumber = seqNumAfter since ∧ since ≤ changes ∧ iterations < maxBatchWrite ∧
        changes ≤ since + q.length + 2 * iterations
  | .counting iterations _ valid =>
      valid = true ∧ seqNumber = seqNumAfter since ∧ since ≤ changes ∧
        iterations < maxBatchWrite ∧ changes ≤ since + q.length + 2 * iterations
  | .adding iterations _ =>
      seqNumber = seqNumAfter since ∧ iterations < maxBatchWrite ∧ since < changes ∧
        changes ≤ since + q.length + 2 * iterations + 1
  | .returned =>
      seqNumber = seqNumAfter since ∧ since ≤ changes ∧ (since < changes ∨ q = []) ∧
        changes ≤ since + q.length + 7

/-- The count, once valid, is the number of entries and of those still to be counted. -/
def Counts (mp : LockablePoint UInt32) (q : List ENTRY) (pc : Pc ENTRY) : Prop :=
  if mp.valid then mp.data.toNat = q.length + pc.uncounted else q = [] ∧ pc.uncounted = 0

/-- Where the server is and what the state machine of its subscription says. -/
def Agrees (opened : Bool) (state : SubscriptionState) (q : List ENTRY) : Pc ENTRY → Prop
  | .outside =>
      opened = false ∧ state = .unsubscribed ∨ opened = true ∧ state = .notifyPending ∨
        opened = true ∧ state = .idle ∧ q = []
  | _ => opened = true ∧ state = .notifyNotifying

/-- After `readAndSync()`, the server's sequence number is the one that it has presented. -/
def Synced (basis : Basis) : Pc ENTRY → Prop
  | .outside | .called | .read _ _ => True
  | _ => ∃ seqNum, basis = .presented seqNum

structure Serves (n : Nat) (s : State ENTRY) (q : List ENTRY) : Prop where
  inv : Inv wiring s.world
  unlocked : (mp s.world).locked = false
  represents : Represents n s.buffer q
  inOrder : s.accepted = s.written ++ s.pc.inHand ++ q
  counts : Counts (mp s.world) q s.pc
  agrees : Agrees s.opened (s.world.subscriber ()).state q s.pc
  synced : Synced (s.world.basis ()) s.pc
  progress : Progress s.since (s.world.changes ()) (s.world.subscriber ()).seqNumber q s.pc

theorem serves_init {maxElements : UInt32} (hpos : 0 < maxElements) {memory : List ENTRY}
    (hlen : memory.length = maxElements.toNat) (valid : Bool) :
    Serves maxElements.toNat (init maxElements memory valid) [] := by
  refine ⟨inv_init _ _ _ _, rfl, represents_init hpos hlen, rfl, ?_, .inl ⟨rfl, rfl⟩, trivial,
    trivial⟩
  cases valid <;> simp [Counts, mp, init, World.init, Point.init, Pc.uncounted]

theorem Serves.drains {n : Nat} {s : State ENTRY} {q : List ENTRY} (h : Serves n s q) :
    Drains n s := by
  refine ⟨⟨q, h.represents.shows, h.inOrder⟩, ?_⟩
  intro hopened hpending hnotifying
  have hagrees := h.agrees
  have horder := h.inOrder
  cases hpc : s.pc with
  | outside =>
      rw [hpc] at hagrees horder
      rcases hagrees with ⟨hclosed, -⟩ | ⟨-, hstate⟩ | ⟨-, -, rfl⟩
      · rw [hopened] at hclosed
        cases hclosed
      · exact absurd hstate hpending
      · rw [h.represents.isEmpty, horder]
        simp [Pc.inHand]
  | called | read | looping | removed | counting | adding | returned =>
      rw [hpc] at hagrees
      exact absurd hagrees.2 hnotifying

section Steps

variable {n : Nat} {s s' : State ENTRY} {q : List ENTRY}

theorem write_eq (hinv : Inv wiring s.world) (hunlocked : (mp s.world).locked = false)
    {newValue : UInt32} (hne : (mp s.world).valid = true → (mp s.world).data ≠ newValue) :
    Inv wiring (write s.world newValue) ∧ (mp (write s.world newValue)).locked = false ∧
      (mp (write s.world newValue)).valid = true ∧
      (mp (write s.world newValue)).data = newValue ∧
      (write s.world newValue).basis = s.world.basis ∧
      (write s.world newValue).changes () = s.world.changes () + 1 ∧
      ((write s.world newValue).subscriber ()).seqNumber =
        (s.world.subscriber ()).seqNumber ∧
      ((write s.world newValue).subscriber ()).state =
        if (s.world.subscriber ()).state = .idle then .notifyPending
        else (s.world.subscriber ()).state := by
  have happly : (Write.writeData newValue LockRequest.noRequest).apply (wiring.isDataEqual ())
      (wiring.invalidData ()) (s.world.point ()) =
        ({ mp s.world with data := newValue, valid := true, locked := false }, true) := by
    have hchange : (mp s.world).valid = false ∨ ((mp s.world).data == newValue) = false := by
      rcases hvalid : (mp s.world).valid with - | -
      · exact .inl rfl
      · exact .inr (by simpa using hne hvalid)
    simp only [mp] at hunlocked hchange
    simp only [Write.apply, testAndUpdateLock, hunlocked, wiring, hchange, mp]
    simp
  obtain ⟨lists, heq⟩ := change_eq hinv (congrArg Prod.snd happly)
  have hinv' := inv_change hinv () (.writeData newValue .noRequest)
  rw [happly] at heq
  refine ⟨hinv', ?_⟩
  rw [write, heq]
  simp only [mp, Function.update_self, true_and]
  split_ifs <;> simp_all

theorem progress_add {since changes seqNumber : Nat} {pc : Pc ENTRY}
    (h : Progress since changes seqNumber q pc) (entry : ENTRY) :
    Progress since (changes + 1) seqNumber (q ++ [entry]) pc := by
  have hlength : (q ++ [entry]).length = q.length + 1 := List.length_append
  have hne : q ++ [entry] ≠ [] := by simp
  cases pc with
  | outside => trivial
  | called => trivial
  | read count seqNum =>
      obtain ⟨hseq, hle, hsome, hnone⟩ := h
      refine ⟨hseq, by omega, fun hcount => ⟨hne, ?_⟩, fun hcount => ⟨.inl (by omega), ?_⟩⟩
      · have := (hsome hcount).2
        omega
      · have := (hnone hcount).2
        omega
  | looping iterations =>
      obtain ⟨hseq, hle, hlast, -, -, hbound⟩ := h
      exact ⟨hseq, by omega, hlast, fun hnil => absurd hnil hne, fun _ => by omega, by omega⟩
  | removed iterations entry =>
      obtain ⟨hseq, hle, hlast, hbound⟩ := h
      exact ⟨hseq, by omega, hlast, by omega⟩
  | counting iterations entry valid =>
      obtain ⟨hvalid, hseq, hle, hlast, hbound⟩ := h
      exact ⟨hvalid, hseq, by omega, hlast, by omega⟩
  | adding iterations entry =>
      obtain ⟨hseq, hlast, hlt, hbound⟩ := h
      exact ⟨hseq, hlast, by omega, by omega⟩
  | returned =>
      obtain ⟨hseq, hle, -, hbound⟩ := h
      exact ⟨hseq, by omega, .inl (by omega), by omega⟩

theorem agrees_add {opened : Bool} {state : SubscriptionState} {pc : Pc ENTRY}
    (h : Agrees opened state q pc) (entry : ENTRY) :
    Agrees opened (if state = .idle then .notifyPending else state) (q ++ [entry]) pc := by
  cases pc with
  | outside =>
      rcases h with ⟨hopened, rfl⟩ | ⟨hopened, rfl⟩ | ⟨hopened, rfl, -⟩
      · exact .inl ⟨hopened, by simp⟩
      · exact .inr (.inl ⟨hopened, by simp⟩)
      · exact .inr (.inl ⟨hopened, by simp⟩)
  | called | read | looping | removed | counting | adding | returned =>
      obtain ⟨hopened, rfl⟩ := h
      exact ⟨hopened, by simp⟩

theorem Pc.uncounted_le (pc : Pc ENTRY) : pc.uncounted ≤ 1 := by
  cases pc <;> simp [Pc.uncounted]

theorem counts_add {mp : LockablePoint UInt32} {pc : Pc ENTRY} (h : Counts mp q pc)
    (hroom : q.length + 2 < 2 ^ 32) :
    (mp.valid = true → mp.data ≠ if mp.valid then mp.data + 1 else 1) ∧
      (if mp.valid then mp.data + 1 else 1).toNat = q.length + 1 + pc.uncounted := by
  have hle := pc.uncounted_le
  rw [Counts] at h
  by_cases hvalid : mp.valid = true
  · rw [if_pos hvalid] at h
    have hnext : (mp.data + 1).toNat = mp.data.toNat + 1 := by
      rw [UInt32.toNat_add]
      exact Nat.mod_eq_of_lt (by rw [h]; change q.length + pc.uncounted + 1 < _; omega)
    rw [if_pos hvalid]
    refine ⟨fun _ heq => ?_, by omega⟩
    rw [← heq] at hnext
    omega
  · rw [if_neg hvalid] at h
    obtain ⟨rfl, huncounted⟩ := h
    rw [if_neg hvalid]
    exact ⟨fun hvalid' => absurd hvalid' hvalid, by rw [huncounted]; rfl⟩

theorem incrementMp_eq (w : World Unit Unit Unit UInt32) :
    incrementMp w = write w (if (mp w).valid then (mp w).data + 1 else 1) := by
  rw [incrementMp]
  split_ifs <;> rfl

theorem serves_add_of_room (h : Serves n s q) (entry : ENTRY) (hroom : q.length < n - 1) :
    Serves n (add s entry) (q ++ [entry]) ∧
      (add s entry).world.changes () = s.world.changes () + 1 ∧
      (add s entry).pc = s.pc ∧ (add s entry).since = s.since := by
  obtain ⟨hresult, hrepresents⟩ := h.represents.add entry
  have hsize := h.represents.lt_size
  rw [if_pos hroom] at hrepresents
  rw [decide_eq_true hroom] at hresult
  obtain ⟨hne, hcount⟩ := counts_add h.counts (by omega)
  obtain ⟨hinv, hunlocked, hvalid, hdata, hbasis, hchanges, hseq, hstate⟩ :=
    write_eq h.inv h.unlocked hne
  simp only [add, hresult, if_true, incrementMp_eq]
  refine ⟨⟨hinv, hunlocked, hrepresents, ?_, ?_, ?_, ?_, ?_⟩, hchanges, trivial, trivial⟩
  · simp only [h.inOrder, List.append_assoc]
  · simp only [Counts, hvalid, if_true, hdata, hcount, List.length_append, List.length_singleton]
  · simp only [hstate]
    exact agrees_add h.agrees entry
  · simp only [hbasis]
    exact h.synced
  · simp only [hchanges, hseq]
    exact progress_add h.progress entry

theorem serves_add (h : Serves n s q) (entry : ENTRY) : ∃ q', Serves n (add s entry) q' := by
  by_cases hroom : q.length < n - 1
  · exact ⟨q ++ [entry], (serves_add_of_room h entry hroom).1⟩
  · have hresult := (h.represents.add entry).1
    rw [decide_eq_false hroom] at hresult
    refine ⟨q, ?_⟩
    simp only [add, hresult, Bool.false_eq_true, if_false]
    exact h

theorem serves_open (h : Serves n s q) (hclosed : s.opened = false)
    (hloop : s.world.loop () = .idle) :
    Serves n
      { s with
        opened := true
        world := attachSubscriber wiring s.world () () sequenceNumberUnknown } q := by
  have hagrees := h.agrees
  have hpc : s.pc = .outside := by
    cases hpc : s.pc with
    | outside => rfl
    | called | read | looping | removed | counting | adding | returned =>
        rw [hpc, hclosed] at hagrees
        cases hagrees.1
  have hstate : (s.world.subscriber ()).state = .unsubscribed := by
    rw [hpc, hclosed] at hagrees
    rcases hagrees with ⟨-, hstate⟩ | ⟨hopened, -⟩ | ⟨hopened, -⟩
    · exact hstate
    · cases hopened
    · cases hopened
  have hinv : Inv wiring (attachSubscriber wiring s.world () () sequenceNumberUnknown) :=
    inv_attach h.inv () sequenceNumberUnknown (by simp [wiring, hloop])
  obtain ⟨lists, heq⟩ := attach_eq_of_unsubscribed h.inv hstate
  have horder := h.inOrder
  have hcounts := h.counts
  rw [hpc] at hcounts
  rw [show wiring.pointOf () = () from rfl] at heq
  rw [heq] at hinv ⊢
  refine ⟨hinv, h.unlocked, h.represents, horder, ?_, ?_, ?_, ?_⟩
  · simp only [hpc]
    exact hcounts
  · simp only [hpc, Function.update_self]
    exact .inr (.inl ⟨rfl, rfl⟩)
  · simp only [hpc]
    trivial
  · simp only [hpc]
    trivial

theorem serves_popPending (h : Serves n s q) (hloop : s.world.loop () = .idle) :
    Serves n { s with world := popPending s.world () } q := by
  have hinv := inv_popPending h.inv () hloop
  rcases popPending_eq () hloop with heq | ⟨⟨⟩, lists, heq⟩
  · rw [heq]
    exact h
  · rw [heq] at hinv ⊢
    exact ⟨hinv, h.unlocked, h.represents, h.inOrder, h.counts, h.agrees, h.synced, h.progress⟩

theorem serves_beginCallback (h : Serves n s q) (hloop : s.world.loop () = .popped ()) :
    Serves n { s with world := beginCallback wiring s.world (), pc := .called } q := by
  have hinv := inv_beginCallback h.inv hloop
  obtain ⟨hstate, heq⟩ := beginCallback_eq h.inv hloop
  have hagrees := h.agrees
  have horder := h.inOrder
  have hcounts := h.counts
  have hpc : s.pc = .outside ∧ s.opened = true := by
    cases hpc : s.pc with
    | outside =>
        rw [hpc, hstate] at hagrees
        rcases hagrees with ⟨-, hstate⟩ | ⟨hopened, -⟩ | ⟨-, hstate, -⟩
        · cases hstate
        · exact ⟨rfl, hopened⟩
        · cases hstate
    | called | read | looping | removed | counting | adding | returned =>
        rw [hpc, hstate] at hagrees
        cases hagrees.2
  rw [hpc.1] at horder hcounts
  rw [heq] at hinv ⊢
  refine ⟨hinv, h.unlocked, h.represents, horder, hcounts, ⟨hpc.2, ?_⟩, trivial, trivial⟩
  simp only [Function.update_self]

theorem serves_called (h : Serves n s q) (hpc : s.pc = .called) :
    Serves n
      { s with
        pc := .read (mp s.world).read (mp s.world).seqNum
        since := s.world.changes () } q := by
  have horder := h.inOrder
  have hcounts := h.counts
  have hagrees := h.agrees
  rw [hpc] at horder hcounts hagrees
  have hread : (0 < (mp s.world).read.getD 0 →
        q ≠ [] ∧ s.world.changes () + 1 ≤ s.world.changes () + q.length) ∧
      (¬0 < (mp s.world).read.getD 0 →
        (s.world.changes () < s.world.changes () ∨ q = []) ∧
          s.world.changes () ≤ s.world.changes () + q.length) := by
    rw [Counts] at hcounts
    by_cases hvalid : (mp s.world).valid = true
    · simp only [hvalid, if_true, Pc.uncounted, Nat.add_zero] at hcounts
      have hdata : (mp s.world).read.getD 0 = (mp s.world).data := by
        rw [Point.read, if_pos hvalid]
        rfl
      rw [hdata, UInt32.lt_iff_toNat_lt, hcounts]
      change (0 < q.length → _) ∧ (¬0 < q.length → _)
      rw [← List.length_pos_iff]
      refine ⟨fun hpos => ⟨hpos, by omega⟩, fun hzero => ⟨.inr ?_, by omega⟩⟩
      exact List.eq_nil_of_length_eq_zero (by omega)
    · have hdata : (mp s.world).read.getD 0 = 0 := by
        rw [Point.read, if_neg hvalid]
        rfl
      rw [if_neg hvalid] at hcounts
      rw [hdata]
      exact ⟨fun hpos => absurd hpos (by decide), fun _ => ⟨.inr hcounts.1, by omega⟩⟩
  exact ⟨h.inv, h.unlocked, h.represents, horder, hcounts, hagrees, trivial,
    h.inv.seqNum (), le_rfl, hread⟩

theorem serves_read (h : Serves n s q) {count : Option UInt32} {seqNum : Nat}
    (hpc : s.pc = .read count seqNum) :
    Serves n
      { s with
        world := attachSubscriber wiring s.world () () seqNum
        pc := if 0 < count.getD 0 then .looping 0 else .returned } q := by
  have horder := h.inOrder
  have hcounts := h.counts
  have hagrees := h.agrees
  have hprogress := h.progress
  rw [hpc] at horder hcounts hagrees hprogress
  obtain ⟨hseq, hle, hsome, hnone⟩ := hprogress
  have hs := h.inv.consistent ()
  simp only [Consistent, view, hagrees.2] at hs
  have hphase : s.world.loop (wiring.loopOf ()) ≠ .popped () := by
    obtain ⟨-, -, since, hphase, -⟩ := hs
    simp [hphase]
  have hinv : Inv wiring (attachSubscriber wiring s.world () () seqNum) :=
    inv_attach h.inv () seqNum hphase
  rw [attach_eq_of_notifying hagrees.2] at hinv ⊢
  by_cases hcount : 0 < count.getD 0
  · obtain ⟨hne, hbound⟩ := hsome hcount
    simp only [if_pos hcount]
    refine ⟨hinv, h.unlocked, h.represents, horder, hcounts, ?_, ?_, ?_⟩
    · exact ⟨hagrees.1, by simp only [Function.update_self]; exact hagrees.2⟩
    · exact ⟨seqNum, by simp⟩
    · refine ⟨by simpa using hseq, hle, Nat.zero_le _, fun hnil => absurd hnil hne, ?_, ?_⟩
      · intro hzero
        exact absurd hzero (lt_irrefl 0)
      · simpa using hbound
  · obtain ⟨hdone, hbound⟩ := hnone hcount
    simp only [if_neg hcount]
    refine ⟨hinv, h.unlocked, h.represents, horder, hcounts, ?_, ?_, ?_⟩
    · exact ⟨hagrees.1, by simp only [Function.update_self]; exact hagrees.2⟩
    · exact ⟨seqNum, by simp⟩
    · refine ⟨by simpa using hseq, hle, hdone, ?_⟩
      simp only
      omega

theorem serves_looping (h : Serves n s q) {iterations : Nat} (hpc : s.pc = .looping iterations)
    (hgo : go s = some s') : ∃ q', Serves n s' q' := by
  have horder := h.inOrder
  have hcounts := h.counts
  have hagrees := h.agrees
  have hsynced := h.synced
  have hprogress := h.progress
  rw [hpc] at horder hcounts hagrees hprogress hsynced
  obtain ⟨hseq, hle, hlast, hempty, hpast, hbound⟩ := hprogress
  have hbatch : maxBatchWrite = 4 := rfl
  simp only [go, hpc] at hgo
  have hreturned (hdone : s.world.changes () ≤ s.since + q.length + 7)
      (hlt : s.since < s.world.changes ()) : Serves n { s with pc := .returned } q :=
    ⟨h.inv, h.unlocked, h.represents, horder, hcounts, hagrees, hsynced, hseq, hle, .inl hlt,
      hdone⟩
  by_cases hmore : iterations < maxBatchWrite
  · obtain ⟨hresult, hrepresents⟩ := h.represents.remove
    rw [if_pos hmore] at hgo
    rcases hremove : s.buffer.remove with ⟨- | entry, buffer⟩
    · rw [hremove] at hgo hresult
      cases hgo
      have hnil : q = [] := List.head?_eq_none_iff.mp hresult.symm
      exact ⟨q, hreturned (by omega) (hempty hnil)⟩
    · rw [hremove] at hgo hresult hrepresents
      cases hgo
      obtain ⟨rest, rfl⟩ := List.head?_eq_some_iff.mp hresult.symm
      rw [List.length_cons] at hbound
      refine ⟨rest, h.inv, h.unlocked, hrepresents, ?_, ?_, hagrees, hsynced, hseq, hle, hmore,
        by simp only; omega⟩
      · simp only [horder, Pc.inHand, List.append_nil, List.append_assoc, List.singleton_append]
      · simp only [Counts, Pc.uncounted, List.length_cons, Nat.add_zero] at hcounts ⊢
        by_cases hvalid : (mp s.world).valid = true
        · rw [if_pos hvalid] at hcounts ⊢
          exact hcounts
        · rw [if_neg hvalid] at hcounts
          cases hcounts.1
  · rw [if_neg hmore] at hgo
    cases hgo
    exact ⟨q, hreturned (by omega) (hpast (by omega))⟩

/-- The count is valid while an entry is still to be counted. -/
theorem valid_of_uncounted {mp : LockablePoint UInt32} {pc : Pc ENTRY} (h : Counts mp q pc)
    (hone : pc.uncounted = 1) : mp.valid = true ∧ mp.data.toNat = q.length + 1 := by
  rw [Counts, hone] at h
  split_ifs at h with hvalid
  · exact ⟨hvalid, h⟩
  · cases h.2

theorem serves_counting (h : Serves n s q) {iterations : Nat} {entry : ENTRY} {valid : Bool}
    (hpc : s.pc = .counting iterations entry valid) :
    Serves n
      { s with
        world := write s.world (if valid then (mp s.world).data - 1 else 0)
        pc := .adding iterations entry } q := by
  have horder := h.inOrder
  have hcounts := h.counts
  have hagrees := h.agrees
  have hsynced := h.synced
  have hprogress := h.progress
  rw [hpc] at horder hcounts hagrees hprogress hsynced
  obtain ⟨hseen, hseq, hle, hlast, hbound⟩ := hprogress
  obtain ⟨hvalid, hdata⟩ := valid_of_uncounted hcounts rfl
  have hless : ((mp s.world).data - 1).toNat = q.length := by
    have hone : (1 : UInt32) ≤ (mp s.world).data := by
      rw [UInt32.le_iff_toNat_le, hdata]
      exact Nat.le_add_left _ _
    rw [UInt32.toNat_sub_of_le _ _ hone, hdata]
    rfl
  have hne : (mp s.world).valid = true → (mp s.world).data ≠ (mp s.world).data - 1 := by
    intro _ heq
    rw [← heq] at hless
    omega
  obtain ⟨hinv, hunlocked, hvalid', hdata', hbasis, hchanges, hnumber, hstate⟩ :=
    write_eq h.inv h.unlocked hne
  rw [hseen, if_pos rfl]
  refine ⟨hinv, hunlocked, h.represents, horder, ?_, ⟨hagrees.1, ?_⟩, ?_, ?_⟩
  · simp only [Counts, hvalid', if_true, hdata', hless, Pc.uncounted, Nat.add_zero]
  · simp only [hstate, hagrees.2]
    rfl
  · simp only [hbasis]
    exact hsynced
  · simp only [hchanges, hnumber]
    exact ⟨hseq, hlast, by omega, by omega⟩

theorem serves_go (h : Serves n s q) (hgo : go s = some s') : ∃ q', Serves n s' q' := by
  cases hpc : s.pc with
  | outside => simp [go, hpc] at hgo
  | called =>
      simp only [go, hpc, Option.some.injEq] at hgo
      subst hgo
      exact ⟨q, serves_called h hpc⟩
  | read count seqNum =>
      simp only [go, hpc, Option.some.injEq] at hgo
      subst hgo
      exact ⟨q, serves_read h hpc⟩
  | looping iterations => exact serves_looping h hpc hgo
  | removed iterations entry =>
      simp only [go, hpc, Option.some.injEq] at hgo
      subst hgo
      obtain ⟨hinv, hunlocked, hrepresents, horder, hcounts, hagrees, hsynced, hprogress⟩ := h
      rw [hpc] at horder hcounts hagrees hsynced hprogress
      have hvalid := (valid_of_uncounted hcounts rfl).1
      exact ⟨q, hinv, hunlocked, hrepresents, horder, hcounts, hagrees, hsynced, hvalid, hprogress⟩
  | counting iterations entry valid =>
      simp only [go, hpc, Option.some.injEq] at hgo
      subst hgo
      exact ⟨q, serves_counting h hpc⟩
  | adding iterations entry =>
      simp only [go, hpc, Option.some.injEq] at hgo
      subst hgo
      obtain ⟨hinv, hunlocked, hrepresents, horder, hcounts, hagrees, hsynced, hprogress⟩ := h
      rw [hpc] at horder hcounts hagrees hsynced hprogress
      obtain ⟨hseq, hlast, hlt, hbound⟩ := hprogress
      refine ⟨q, hinv, hunlocked, hrepresents, ?_, hcounts, hagrees, hsynced, hseq, hlt.le, hlast,
        fun _ => hlt, fun _ => hlt, by dsimp only; omega⟩
      simp only [horder, Pc.inHand, List.append_nil]
  | returned => simp [go, hpc] at hgo

/-- The end of a notification: the server is pending again, or nothing has changed since it read
the count, and then the buffer was empty. -/
theorem serves_notifyComplete (h : Serves n s q) (hpc : s.pc = .returned)
    (hfew : s.buffer.memoryNumElements ≤ 65528 ∨ s.world.changes () < s.since + 65535) :
    Serves n { s with world := notifyComplete wiring s.world (), pc := .outside } q := by
  have horder := h.inOrder
  have hcounts := h.counts
  have hagrees := h.agrees
  have hsynced := h.synced
  have hprogress := h.progress
  rw [hpc] at horder hcounts hagrees hprogress hsynced
  obtain ⟨hseq, hle, hdone, hbound⟩ := hprogress
  have hlt : s.world.changes () < s.since + 65535 := by
    rcases hfew with hsmall | hfew
    · rw [UInt32.le_iff_toNat_le, h.represents.numElements] at hsmall
      have hfits := h.represents.fits
      change n ≤ 65528 at hsmall
      omega
    · exact hfew
  have hs := h.inv.consistent ()
  simp only [Consistent, view, hagrees.2] at hs
  obtain ⟨-, -, since, hphase, -⟩ := hs
  have hinv := inv_notifyComplete (l := ()) h.inv hphase (by
    obtain ⟨seqNum, hbasis⟩ := hsynced
    intro hcalled
    rw [hbasis] at hcalled
    cases hcalled)
  obtain ⟨lists, state, heq, hstate⟩ := notifyComplete_eq (l := ()) h.inv hphase hagrees.2
  rw [heq] at hinv ⊢
  refine ⟨hinv, h.unlocked, h.represents, horder, hcounts, ?_, trivial, trivial⟩
  simp only [Function.update_self]
  rcases hstate with rfl | ⟨rfl, hsame⟩
  · exact .inr (.inl ⟨hagrees.1, rfl⟩)
  · rw [h.inv.seqNum, hseq] at hsame
    have hchanges : s.world.changes () = s.since := eq_of_seqNumAfter_eq hle hlt hsame
    refine .inr (.inr ⟨hagrees.1, rfl, ?_⟩)
    rcases hdone with hlater | hnil
    · omega
    · exact hnil

theorem serves_step (h : Serves n s q) (hmoves : Moves s s') : ∃ q', Serves n s' q' := by
  obtain ⟨a, hstep, hfew⟩ := hmoves
  cases a with
  | add entry =>
      cases hstep
      exact serves_add h entry
  | openServer =>
      simp only [step] at hstep
      split_ifs at hstep with hclosed
      cases hstep
      exact ⟨q, serves_open h hclosed.1 hclosed.2⟩
  | popPending =>
      simp only [step] at hstep
      split_ifs at hstep with hloop
      cases hstep
      exact ⟨q, serves_popPending h hloop⟩
  | beginCallback =>
      simp only [step] at hstep
      split_ifs at hstep with hloop
      cases hstep
      exact ⟨q, serves_beginCallback h hloop⟩
  | go => exact serves_go h hstep
  | notifyComplete =>
      simp only [step] at hstep
      split at hstep
      · rename_i hpc
        cases hstep
        exact ⟨q, serves_notifyComplete h hpc (hfew rfl)⟩
      · cases hstep

end Steps

open Relation in
theorem serves_of_reachable {n : Nat} {s s' : State ENTRY} {q : List ENTRY} (h : Serves n s q)
    (hreaches : ReflTransGen Moves s s') : ∃ q', Serves n s' q' := by
  induction hreaches with
  | refl => exact ⟨q, h⟩
  | tail _ hmoves ih =>
      obtain ⟨q', hq'⟩ := ih
      exact serves_step hq' hmoves

/-- The server drains the buffer in every run. -/
theorem server_drains (maxElements : UInt32) (memory : List ENTRY) (valid : Bool)
    (hpos : 0 < maxElements) (hlen : memory.length = maxElements.toNat) (s : State ENTRY)
    (hreaches : Relation.ReflTransGen Moves (init maxElements memory valid) s) :
    Drains maxElements.toNat s := by
  obtain ⟨q, hq⟩ := serves_of_reachable (serves_init hpos hlen valid) hreaches
  exact hq.drains

theorem server_drains_one_entry : ∃ s : State Nat,
    Relation.ReflTransGen Moves (init 4 [0, 0, 0, 0] false) s ∧ Drains 4 s ∧
      s.opened = true ∧ (s.world.subscriber ()).state = .idle ∧ s.written = [7] := by
  have hreaches : ∃ s : State Nat, Relation.ReflTransGen Moves (init 4 [0, 0, 0, 0] false) s ∧
      s.opened = true ∧ (s.world.subscriber ()).state = .idle ∧ s.written = [7] := by
    refine ⟨_, .head ⟨.openServer, rfl, nofun⟩ <| .head ⟨.add 7, rfl, nofun⟩ <|
      .head ⟨.popPending, rfl, nofun⟩ <| .head ⟨.beginCallback, rfl, nofun⟩ <|
      .head ⟨.go, rfl, nofun⟩ <| .head ⟨.go, rfl, nofun⟩ <| .head ⟨.go, rfl, nofun⟩ <|
      .head ⟨.go, rfl, nofun⟩ <| .head ⟨.go, rfl, nofun⟩ <| .head ⟨.go, rfl, nofun⟩ <|
      .head ⟨.go, rfl, nofun⟩ <| .head ⟨.notifyComplete, rfl, fun _ => .inl (by decide)⟩ <|
      .head ⟨.popPending, rfl, nofun⟩ <| .head ⟨.beginCallback, rfl, nofun⟩ <|
      .head ⟨.go, rfl, nofun⟩ <| .head ⟨.go, rfl, nofun⟩ <|
      .single ⟨.notifyComplete, rfl, fun _ => .inl (by decide)⟩, rfl, rfl, rfl⟩
  obtain ⟨s, hs, hrest⟩ := hreaches
  exact ⟨s, hs, server_drains 4 [0, 0, 0, 0] false (by decide) rfl s hs, hrest⟩

theorem reaches_returned (maxElements : UInt32) (memory : List ENTRY) :
    ∃ s, Relation.ReflTransGen Moves (init maxElements memory false) s ∧ s.pc = .returned ∧
      s.since = s.world.changes () ∧ s.accepted = [] :=
  ⟨_, .head ⟨.openServer, rfl, nofun⟩ <| .head ⟨.popPending, rfl, nofun⟩ <|
    .head ⟨.beginCallback, rfl, nofun⟩ <| .head ⟨.go, rfl, nofun⟩ <|
    .single ⟨.go, rfl, nofun⟩, rfl, rfl, rfl⟩

theorem reaches_added {n : Nat} {s : State ENTRY} {q : List ENTRY} (h : Serves n s q)
    (entry : ENTRY) (k : Nat) (hroom : q.length + k < n) :
    ∃ s' q', Relation.ReflTransGen Moves s s' ∧ Serves n s' q' ∧ q'.length = q.length + k ∧
      s'.pc = s.pc ∧ s'.since = s.since ∧ s'.world.changes () = s.world.changes () + k := by
  induction k with
  | zero => exact ⟨s, q, .refl, h, rfl, rfl, rfl, rfl⟩
  | succ k ih =>
      obtain ⟨s', q', hreaches, h', hlength, hpc, hsince, hchanges⟩ := ih (by omega)
      obtain ⟨hadd, hchanges', hpc', hsince'⟩ := serves_add_of_room h' entry (by omega)
      refine ⟨add s' entry, _, hreaches.tail ⟨.add entry, rfl, nofun⟩, hadd, ?_, ?_, ?_, ?_⟩
      · rw [List.length_append, hlength, List.length_singleton, Nat.add_assoc]
      · rw [hpc', hpc]
      · rw [hsince', hsince]
      · rw [hchanges', hchanges, Nat.add_assoc]

/-- A whole period of changes during a callback goes unnoticed. -/
theorem idle_after_period {n : Nat} {s : State ENTRY} {q : List ENTRY} (h : Serves n s q)
    (hpc : s.pc = .returned) (hchanges : s.world.changes () = s.since + 65535) :
    s.opened = true ∧ ((notifyComplete wiring s.world ()).subscriber ()).state = .idle := by
  have hagrees := h.agrees
  have hprogress := h.progress
  rw [hpc] at hagrees hprogress
  have hs := h.inv.consistent ()
  simp only [Consistent, view, hagrees.2] at hs
  obtain ⟨-, -, since, hphase, -⟩ := hs
  have hphase' : s.world.loop () = .notifying () () since := hphase
  have hseq : (s.world.point ()).seqNum = (s.world.subscriber ()).seqNumber := by
    have hfirst : IsSequenceNumber (sequenceNumberUnknown + 1) := ⟨by decide, by decide⟩
    rw [h.inv.seqNum, hprogress.1, hchanges, seqNumAfter, seqNumAfter, iterate_advance hfirst,
      iterate_advance hfirst]
    omega
  refine ⟨hagrees.1, ?_⟩
  simp only [notifyComplete, hphase', processSubscriptionEvent, hagrees.2, inNotifyNotifying,
    transitionToSubscribed, if_pos hseq, World.setState, Function.update_self]

/-- In a buffer of 70000 elements, 65535 entries that are added during one callback stay. -/
theorem not_drains_whole_period : ¬∀ (maxElements : UInt32) (memory : List Nat) (valid : Bool)
    (s : State Nat), 0 < maxElements → memory.length = maxElements.toNat →
      Relation.ReflTransGen (fun s s' => ∃ a, step s a = some s') (init maxElements memory valid) s →
        Drains maxElements.toNat s := by
  intro hall
  have hlen : (List.replicate 70000 0).length = (70000 : UInt32).toNat := List.length_replicate
  obtain ⟨s, hreaches, hpc, hsince, hnone⟩ := reaches_returned 70000 (List.replicate 70000 0)
  obtain ⟨q, hq⟩ := serves_of_reachable (serves_init (by decide) hlen false) hreaches
  have hempty : q = [] := by
    have horder := hq.inOrder
    rw [hnone] at horder
    exact (List.append_eq_nil_iff.mp horder.symm).2
  obtain ⟨s', q', hreaches', hq', hlength, hpc', hsince', hchanges⟩ :=
    reaches_added hq 7 65535 (by rw [hempty]; decide)
  obtain ⟨hopened, hidle⟩ := idle_after_period hq' (hpc'.trans hpc)
    (by rw [hchanges, hsince', hsince])
  have hlast : step s' .notifyComplete =
      some { s' with world := notifyComplete wiring s'.world (), pc := .outside } := by
    simp only [step, hpc'.trans hpc]
  have hforget : ∀ a b : State Nat, Moves a b → ∃ action, step a action = some b := by
    rintro a b ⟨action, hstep, -⟩
    exact ⟨action, hstep⟩
  have hdrains := hall 70000 _ false _ (by decide) hlen
    ((Relation.ReflTransGen.mono hforget _ _ (hreaches.trans hreaches')).tail
      ⟨.notifyComplete, hlast⟩)
  have hdrained := (hdrains.drained hopened (by simp [hidle]) (by simp [hidle])).1
  change s'.buffer.isEmpty = true at hdrained
  rw [hq'.represents.isEmpty, hlength, hempty] at hdrained
  exact absurd hdrained (by decide)

end ColonyPico.Persistent.IndexedEntryServer
