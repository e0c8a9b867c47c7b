import Mathlib.Algebra.BigOperators.Group.Finset.Piecewise
import Mathlib.Algebra.BigOperators.Ring.Finset
import Mathlib.Data.Int.ModEq
import ColonyPico.Container.RingBuffer
import ColonyPico.Dm.LockState

/-!
The ring buffer that reports its number of items in a model point
(`Cpl::Container::RingBufferMP`), used by several threads. A call is a section
under the buffer's lock, then up to two model point operations.
-/

namespace ColonyPico.Container.RingBufferMP

open ColonyPico.Dm.ModelPoint
open ColonyPico.Dm.LockState
open ColonyPico.Container.RingBuffer

/-- `Uint32::write()`. -/
def write (mp : LockablePoint UInt32) (newValue : UInt32) : LockablePoint UInt32 :=
  writeData (fun data src => data == src) (fun _ src => src) mp (some newValue) .noRequest

/-- `Uint32::increment()`. -/
def increment (mp : LockablePoint UInt32) : LockablePoint UInt32 :=
  write mp (mp.data + 1)

/-- `Uint32::decrement()`. -/
def decrement (mp : LockablePoint UInt32) : LockablePoint UInt32 :=
  write mp (mp.data - 1)

/-- Where a thread is in its call. -/
inductive Pc where
  | idle
  /-- An item was added; next is `isNotValid()` of `incrementMp()`. -/
  | added
  | addedInvalid
  | addedValid
  /-- An item was removed; next is `isNotValid()` of `decrementMp()`. -/
  | removed
  | removedInvalid
  | removedValid
  /-- The buffer was cleared; next is `write( 0 )`. -/
  | cleared
  deriving DecidableEq, Repr

/-- The buffer, its count, and the threads. -/
structure State (τ ITEM : Type*) where
  buffer : Buffer ITEM
  mpElementCount : LockablePoint UInt32
  pc : τ → Pc

/-- What a thread does next: begin a call, or take the next step of its call. -/
inductive Action (ITEM : Type*) where
  | add (item : ITEM)
  | remove
  | clearTheBuffer
  | go

section Step

variable {τ ITEM : Type*} [DecidableEq τ]

/-- A model point operation that ends the call of a thread. -/
def finish (s : State τ ITEM) (t : τ) (mp : LockablePoint UInt32) : State τ ITEM :=
  { s with mpElementCount := mp, pc := Function.update s.pc t .idle }

/-- The next step of a call in progress. -/
def go (s : State τ ITEM) (t : τ) : Option (State τ ITEM) :=
  match s.pc t with
  | .idle => none
  | .added =>
      some { s with
        pc := Function.update s.pc t
          (if s.mpElementCount.valid then Pc.addedValid else Pc.addedInvalid) }
  | .addedInvalid => some (finish s t (write s.mpElementCount 1))
  | .addedValid => some (finish s t (increment s.mpElementCount))
  | .removed =>
      some { s with
        pc := Function.update s.pc t
          (if s.mpElementCount.valid then Pc.removedValid else Pc.removedInvalid) }
  | .removedInvalid => some (finish s t (write s.mpElementCount 0))
  | .removedValid => some (finish s t (decrement s.mpElementCount))
  | .cleared => some (finish s t (write s.mpElementCount 0))

/-- A section under the lock of the buffer that begins a call. -/
def begin (s : State τ ITEM) (t : τ) (buffer : Buffer ITEM) (pc : Pc) : Option (State τ ITEM) :=
  if s.pc t = .idle then
    some { s with buffer := buffer, pc := Function.update s.pc t pc }
  else none

def step (s : State τ ITEM) (t : τ) : Action ITEM → Option (State τ ITEM)
  | .add item =>
      begin s t (s.buffer.add item).2 (if (s.buffer.add item).1 then .added else .idle)
  | .remove =>
      begin s t s.buffer.remove.2 (if s.buffer.isEmpty then .idle else .removed)
  | .clearTheBuffer => begin s t s.buffer.clearTheBuffer .cleared
  | .go => go s t

/-- The state after an interleaving. -/
def run (s : State τ ITEM) : List (τ × Action ITEM) → Option (State τ ITEM)
  | [] => some s
  | (t, action) :: rest => (step s t action).bind fun s' => run s' rest

end Step

section Counting

variable {τ ITEM : Type*} [Fintype τ]

/-- No call is in progress. -/
def Quiescent (s : State τ ITEM) : Prop :=
  ∀ t, s.pc t = .idle

instance (s : State τ ITEM) : Decidable (Quiescent s) :=
  inferInstanceAs (Decidable (∀ t, s.pc t = .idle))

/-- The count, if valid, is the number of items in the buffer. -/
def Agrees (s : State τ ITEM) : Prop :=
  s.mpElementCount.valid = true → s.mpElementCount.data = s.buffer.getNumItems

omit [Fintype τ] in
instance (s : State τ ITEM) : Decidable (Agrees s) :=
  inferInstanceAs (Decidable (_ → _))

/-- What a call in progress still has to count. -/
def outstanding : Pc → Int
  | .added | .addedInvalid | .addedValid => 1
  | .removed | .removedInvalid | .removedValid => -1
  | .idle | .cleared => 0

/-- The adds that are not counted yet, less the removes that are not. -/
def uncounted (s : State τ ITEM) : Int :=
  ∑ t, outstanding (s.pc t)

/-- The count, nothing as long as it is invalid. -/
def counted (mp : LockablePoint UInt32) : Nat :=
  if mp.valid then mp.data.toNat else 0

/-- An absolute value that is about to be written fits: the first add finds
nothing counted, a remove that found the count invalid now finds one, and a clear
finds in the buffer what others still have to count. -/
def WriteFits (s : State τ ITEM) (t : τ) : Prop :=
  match s.pc t with
  | .addedInvalid => counted s.mpElementCount = 0
  | .removedInvalid => counted s.mpElementCount = 1
  | .cleared => uncounted s = s.buffer.getNumItems.toNat
  | _ => True

/-- Every absolute value that an interleaving writes fits. -/
def WritesFit [DecidableEq τ] : State τ ITEM → List (τ × Action ITEM) → Prop
  | _, [] => True
  | s, (t, action) :: rest =>
      (match action with
        | .go => WriteFits s t
        | _ => True) ∧
      (match step s t action with
        | some s' => WritesFit s' rest
        | none => True)

/-- A buffer as it is constructed, with its count. -/
def init (maxElements : UInt32) (memory : List ITEM) (mp : LockablePoint UInt32) :
    State τ ITEM :=
  { buffer := Buffer.init maxElements memory
    mpElementCount := mp
    pc := fun _ => .idle }

theorem write_spec {mp : LockablePoint UInt32} (hunlocked : mp.locked = false)
    (newValue : UInt32) :
    (write mp newValue).locked = false ∧ (write mp newValue).valid = true ∧
      (write mp newValue).data = newValue := by
  have hwrite : write mp newValue =
      { mp.toPoint.write (fun data _ => data == newValue) newValue with locked := false } := by
    rcases mp with ⟨q, locked⟩
    subst hunlocked
    rfl
  rw [hwrite]
  refine ⟨rfl, ?_⟩
  rw [Point.write]
  by_cases hchange : mp.valid = false ∨ (mp.data == newValue) = false
  · rw [if_pos hchange]
    exact ⟨rfl, rfl⟩
  · rw [if_neg hchange]
    have hvalid : mp.valid = true := by simpa using fun h => hchange (.inl h)
    have hdata : mp.data = newValue := by simpa using fun h => hchange (.inr h)
    exact ⟨hvalid, hdata⟩

theorem counted_of_valid {mp : LockablePoint UInt32} (hvalid : mp.valid = true) :
    counted mp = mp.data.toNat := by
  rw [counted, hvalid, if_pos rfl]

theorem uncounted_update [DecidableEq τ] (s : State τ ITEM) (t : τ) (c : Pc) :
    ∑ t', outstanding (Function.update s.pc t c t') =
      uncounted s - outstanding (s.pc t) + outstanding c := by
  have hcomp : (fun t' => outstanding (Function.update s.pc t c t')) =
      Function.update (fun t' => outstanding (s.pc t')) t (outstanding c) :=
    Function.comp_update outstanding s.pc t c
  have herase := Finset.sum_erase_add Finset.univ (fun t' => outstanding (s.pc t'))
    (Finset.mem_univ t)
  rw [hcomp, Finset.sum_update_of_mem (Finset.mem_univ t), Finset.sdiff_singleton_eq_erase,
    uncounted, ← herase]
  omega

theorem toNat_add_one_modEq (x : UInt32) :
    ((x + 1).toNat : Int) ≡ x.toNat + 1 [ZMOD 2 ^ 32] := by
  have hx := x.toNat_lt
  rw [Int.ModEq, UInt32.toNat_add]
  change (((x.toNat + 1) % 2 ^ 32 : Nat) : Int) % 2 ^ 32 = _
  omega

theorem toNat_sub_one_modEq (x : UInt32) :
    ((x - 1).toNat : Int) ≡ x.toNat + -1 [ZMOD 2 ^ 32] := by
  have hx := x.toNat_lt
  rw [Int.ModEq, UInt32.toNat_sub]
  change (((2 ^ 32 - 1 + x.toNat) % 2 ^ 32 : Nat) : Int) % 2 ^ 32 = _
  omega

/-- The buffer is a queue and, unless a clear is under way, the count and what is
still to be counted make up the number of its items. -/
structure Inv (n : Nat) (s : State τ ITEM) : Prop where
  represents : ∃ q, Represents n s.buffer q
  unlocked : s.mpElementCount.locked = false
  seenValid : ∀ t, s.pc t = .addedValid ∨ s.pc t = .removedValid →
    s.mpElementCount.valid = true
  balanced : (∀ t, s.pc t ≠ .cleared) →
    (counted s.mpElementCount : Int) + uncounted s ≡ s.buffer.getNumItems.toNat [ZMOD 2 ^ 32]

variable [DecidableEq τ] {n : Nat} {s s' : State τ ITEM} {t : τ}

omit [Fintype τ] in
/-- No clear is under way before a step of a thread that is not in one. -/
theorem not_cleared_of_update {c : Pc} (hpc : s.pc t ≠ .cleared)
    (h : ∀ t', Function.update s.pc t c t' ≠ .cleared) (t' : τ) : s.pc t' ≠ .cleared := by
  by_cases heq : t' = t
  · rw [heq]
    exact hpc
  · have hother := h t'
    rwa [Function.update_of_ne heq] at hother

/-- A thread that moves on and changes the buffer by what it then has to count. -/
theorem Inv.move (h : Inv n s) {buffer : Buffer ITEM} {c : Pc} (hpc : s.pc t ≠ .cleared)
    (hrepresents : ∃ q, Represents n buffer q)
    (hseen : c = .addedValid ∨ c = .removedValid → s.mpElementCount.valid = true)
    (hitems : c ≠ .cleared → (buffer.getNumItems.toNat : Int) =
      s.buffer.getNumItems.toNat + (outstanding c - outstanding (s.pc t))) :
    Inv n { s with buffer := buffer, pc := Function.update s.pc t c } := by
  refine ⟨hrepresents, h.unlocked, ?_, ?_⟩
  · intro t' hpc'
    by_cases heq : t' = t
    · apply hseen
      simpa [heq] using hpc'
    · apply h.seenValid t'
      simpa [Function.update_of_ne heq] using hpc'
  · intro hclear
    have hc : c ≠ .cleared := by simpa using hclear t
    have hbefore := h.balanced (not_cleared_of_update hpc hclear)
    show (counted s.mpElementCount : Int) + (∑ t', outstanding (Function.update s.pc t c t')) ≡ _
      [ZMOD 2 ^ 32]
    rw [uncounted_update, hitems hc]
    have hshift := hbefore.add_right (outstanding c - outstanding (s.pc t))
    convert hshift using 1
    omega

/-- A thread that ends its call with a write of what makes up the balance. -/
theorem Inv.finish (h : Inv n s) {newValue : UInt32}
    (hbalanced : (∀ t', t' ≠ t → s.pc t' ≠ .cleared) →
      (newValue.toNat : Int) + (uncounted s - outstanding (s.pc t)) ≡
        s.buffer.getNumItems.toNat [ZMOD 2 ^ 32]) :
    Inv n (finish s t (write s.mpElementCount newValue)) := by
  obtain ⟨hunlocked, hvalid, hdata⟩ := write_spec h.unlocked newValue
  refine ⟨h.represents, hunlocked, fun _ _ => hvalid, ?_⟩
  intro hclear
  have hothers : ∀ t', t' ≠ t → s.pc t' ≠ .cleared := by
    intro t' hne
    have hother : Function.update s.pc t .idle t' ≠ .cleared := hclear t'
    rwa [Function.update_of_ne hne] at hother
  have hafter := hbalanced hothers
  show (counted (write s.mpElementCount newValue) : Int) +
    (∑ t', outstanding (Function.update s.pc t .idle t')) ≡ _ [ZMOD 2 ^ 32]
  rw [counted_of_valid hvalid, hdata, uncounted_update, outstanding, add_zero]
  exact hafter

/-- The same for a call that is no clear: the write counts what the call has to
count. -/
theorem Inv.finish_counting (h : Inv n s) {newValue : UInt32} (hpc : s.pc t ≠ .cleared)
    (hcounts : (newValue.toNat : Int) ≡
      counted s.mpElementCount + outstanding (s.pc t) [ZMOD 2 ^ 32]) :
    Inv n (RingBufferMP.finish s t (write s.mpElementCount newValue)) := by
  apply h.finish
  intro hothers
  have hclear : ∀ t', s.pc t' ≠ .cleared := by
    intro t'
    by_cases heq : t' = t
    · rw [heq]
      exact hpc
    · exact hothers t' heq
  calc (newValue.toNat : Int) + (uncounted s - outstanding (s.pc t))
      ≡ counted s.mpElementCount + outstanding (s.pc t) +
          (uncounted s - outstanding (s.pc t)) [ZMOD 2 ^ 32] := hcounts.add_right _
    _ = counted s.mpElementCount + uncounted s := by omega
    _ ≡ s.buffer.getNumItems.toNat [ZMOD 2 ^ 32] := h.balanced hclear

theorem Inv.go (h : Inv n s) (hfits : WriteFits s t) (hstep : go s t = some s') : Inv n s' := by
  rw [RingBufferMP.go] at hstep
  rw [WriteFits] at hfits
  cases hpc : s.pc t with
  | idle => simp [hpc] at hstep
  | added =>
      simp only [hpc, Option.some.injEq] at hstep
      subst hstep
      apply h.move (by rw [hpc]; decide) h.represents
      · intro hseen
        by_contra hvalid
        simp [hvalid] at hseen
      · intro _
        rw [hpc]
        split_ifs <;> simp [outstanding]
  | addedInvalid =>
      simp only [hpc, Option.some.injEq] at hstep hfits
      subst hstep
      apply h.finish_counting (by rw [hpc]; decide)
      rw [hpc, hfits]
      rfl
  | addedValid =>
      simp only [hpc, Option.some.injEq] at hstep
      subst hstep
      apply h.finish_counting (by rw [hpc]; decide)
      rw [hpc, counted_of_valid (h.seenValid t (.inl hpc))]
      exact toNat_add_one_modEq _
  | removed =>
      simp only [hpc, Option.some.injEq] at hstep
      subst hstep
      apply h.move (by rw [hpc]; decide) h.represents
      · intro hseen
        by_contra hvalid
        simp [hvalid] at hseen
      · intro _
        rw [hpc]
        split_ifs <;> simp [outstanding]
  | removedInvalid =>
      simp only [hpc, Option.some.injEq] at hstep hfits
      subst hstep
      apply h.finish_counting (by rw [hpc]; decide)
      rw [hpc, hfits]
      rfl
  | removedValid =>
      simp only [hpc, Option.some.injEq] at hstep
      subst hstep
      apply h.finish_counting (by rw [hpc]; decide)
      rw [hpc, counted_of_valid (h.seenValid t (.inr hpc))]
      exact toNat_sub_one_modEq _
  | cleared =>
      simp only [hpc, Option.some.injEq] at hstep hfits
      subst hstep
      apply h.finish
      intro _
      rw [hpc, hfits, outstanding]
      simp

theorem Inv.begin (h : Inv n s) {buffer : Buffer ITEM} {c : Pc}
    (hrepresents : ∃ q, Represents n buffer q)
    (hseen : c ≠ .addedValid ∧ c ≠ .removedValid)
    (hitems : c ≠ .cleared → (buffer.getNumItems.toNat : Int) =
      s.buffer.getNumItems.toNat + outstanding c)
    (hstep : begin s t buffer c = some s') : Inv n s' := by
  rw [RingBufferMP.begin] at hstep
  split_ifs at hstep with hidle
  injection hstep with hstep
  subst hstep
  apply h.move (by rw [hidle]; decide) hrepresents
  · rintro (hc | hc)
    · exact absurd hc hseen.1
    · exact absurd hc hseen.2
  · intro hc
    rw [hidle, hitems hc]
    simp [outstanding]

theorem Inv.step (h : Inv n s) (action : Action ITEM)
    (hfits : match action with
      | .go => WriteFits s t
      | _ => True)
    (hstep : step s t action = some s') : Inv n s' := by
  obtain ⟨q, hq⟩ := h.represents
  have hfit := hq.fits
  cases action with
  | add item =>
      obtain ⟨hresult, hafter⟩ := hq.add item
      refine h.begin ⟨_, hafter⟩ ?_ ?_ hstep
      · split_ifs <;> decide
      · intro _
        rw [hafter.getNumItems, hq.getNumItems, hresult]
        by_cases hroom : q.length < n - 1
        · simp [hroom, outstanding]
        · simp [hroom, outstanding]
  | remove =>
      obtain ⟨-, hafter⟩ := hq.remove
      refine h.begin ⟨_, hafter⟩ ?_ ?_ hstep
      · split_ifs <;> decide
      · intro _
        rw [hafter.getNumItems, hq.getNumItems, hq.isEmpty, List.length_tail]
        by_cases hempty : q.length = 0
        · simp [hempty, outstanding]
        · simp only [hempty, decide_false, Bool.false_eq_true, if_false, outstanding]
          omega
  | clearTheBuffer =>
      exact h.begin ⟨_, hq.clear⟩ (by decide) (fun hc => absurd rfl hc) hstep
  | go => exact h.go hfits hstep

theorem Inv.run (trace : List (τ × Action ITEM)) (h : Inv n s) (hfit : WritesFit s trace)
    (hrun : run s trace = some s') : Inv n s' := by
  induction trace generalizing s with
  | nil =>
      injection hrun with hrun
      rwa [← hrun]
  | cons head trace ih =>
      obtain ⟨t, action⟩ := head
      obtain ⟨smid, hstep, hrest⟩ := Option.bind_eq_some_iff.mp hrun
      have hnext := hfit.2
      rw [hstep] at hnext
      exact ih (h.step action hfit.1 hstep) hnext hrest

omit [DecidableEq τ] in
/-- With no call in progress, the balance is the agreement. -/
theorem Inv.agrees (h : Inv n s) (hquiet : Quiescent s) : Agrees s := by
  intro hvalid
  have hbalanced := h.balanced fun t => by rw [hquiet t]; decide
  have hnone : uncounted s = 0 := by
    apply Finset.sum_eq_zero
    intro t _
    rw [hquiet t]
    rfl
  rw [hnone, counted_of_valid hvalid, add_zero, Int.ModEq] at hbalanced
  apply UInt32.toNat_inj.mp
  have hcount := s.mpElementCount.data.toNat_lt
  have hitems := s.buffer.getNumItems.toNat_lt
  omega

omit [DecidableEq τ] in
theorem inv_init {maxElements : UInt32} (hpos : 0 < maxElements) {memory : List ITEM}
    (hlen : memory.length = maxElements.toNat) {mp : LockablePoint UInt32}
    (hunlocked : mp.locked = false) (hcount : mp.valid = true → mp.data = 0) :
    Inv maxElements.toNat (init maxElements memory mp : State τ ITEM) := by
  have hrepresents := represents_init hpos hlen
  refine ⟨⟨[], hrepresents⟩, hunlocked, fun t ht => by simp [init] at ht, fun _ => ?_⟩
  have hcounted : counted mp = 0 := by
    by_cases hvalid : mp.valid = true
    · rw [counted_of_valid hvalid, hcount hvalid]
      rfl
    · rw [counted, if_neg hvalid]
  have hnone : uncounted (init maxElements memory mp : State τ ITEM) = 0 :=
    Finset.sum_eq_zero fun t _ => rfl
  show (counted mp : Int) + _ ≡ ((Buffer.init maxElements memory).getNumItems.toNat : Int)
    [ZMOD 2 ^ 32]
  rw [hnone, hcounted, hrepresents.getNumItems]
  rfl

/-- After every interleaving of calls in which each absolute value that is
written to the count fits, the count agrees with the buffer whenever no call is in
progress. -/
theorem agrees_of_writesFit (maxElements : UInt32) (hpos : 0 < maxElements)
    (memory : List ITEM) (hlen : memory.length = maxElements.toNat)
    (mp : LockablePoint UInt32) (hunlocked : mp.locked = false)
    (hcount : mp.valid = true → mp.data = 0) (trace : List (τ × Action ITEM))
    (hfit : WritesFit (init maxElements memory mp) trace)
    (hrun : run (init maxElements memory mp) trace = some s') (hquiet : Quiescent s') :
    Agrees s' :=
  ((inv_init hpos hlen hunlocked hcount).run trace hfit hrun).agrees hquiet

end Counting

/-- An invalid count of a buffer that nobody used. -/
def freshCount (valid : Bool) : LockablePoint UInt32 :=
  { Point.init 0 valid with locked := false }

/-- Two threads that add while the count is invalid, and a clear on its own. -/
def twoAddsAndClear : List (Bool × Action Nat) :=
  [(false, .add 7), (true, .add 8), (false, .go), (false, .go), (true, .go), (true, .go),
    (true, .clearTheBuffer), (true, .go), (false, .add 9), (false, .go), (false, .go)]

theorem agrees_of_writesFit_two_threads :
    ∃ s', run (init 4 [0, 0, 0, 0] (freshCount false)) twoAddsAndClear = some s' ∧
      s'.mpElementCount.data = 1 ∧ Agrees s' := by
  have hfit : WritesFit (init 4 [0, 0, 0, 0] (freshCount false)) twoAddsAndClear := by
    refine ⟨trivial, trivial, trivial, ?_, trivial, trivial, trivial, ?_, trivial, trivial,
      trivial, trivial⟩
    · show counted _ = 0
      decide
    · show uncounted _ = _
      decide
  refine ⟨_, rfl, by decide, ?_⟩
  exact agrees_of_writesFit 4 (by decide) [0, 0, 0, 0] rfl (freshCount false) rfl (by decide)
    twoAddsAndClear hfit rfl (by decide)

/-- A clear between the two steps of an add: the add then counts an item that is
gone. -/
theorem not_agrees_clear_during_add :
    ¬ ∀ (mp : LockablePoint UInt32) (_ : mp.locked = false) (_ : mp.valid = true → mp.data = 0)
      (trace : List (Bool × Action Nat)) (s' : State Bool Nat),
      run (init 4 [0, 0, 0, 0] mp) trace = some s' → Quiescent s' → Agrees s' := by
  intro h
  have hagrees := h (freshCount true) rfl (fun _ => rfl)
    [(false, .add 7), (true, .clearTheBuffer), (true, .go), (false, .go), (false, .go)] _ rfl
    (by decide) (by decide)
  exact absurd hagrees (by decide)

end ColonyPico.Container.RingBufferMP
