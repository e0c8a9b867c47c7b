import ColonyPico.Dm.LockState
import ColonyPico.Foundations.Runs

/-!
The reference counter model point (`RefCounter`) over sequences of its operations.
-/

namespace ColonyPico.Dm.ReferenceCounts

open ColonyPico.Foundations.ByteStore
open ColonyPico.Foundations.ByteMemory
open ColonyPico.Foundations.Runs (AllSteps run allSteps_of_invariant)
open ColonyPico.Dm.ModelPoint
open ColonyPico.Dm.LockState

/-- The storage of a counter is a `uint32_t`. -/
def IsCounter (p : Mp) : Prop :=
  p.data.length = 4

/-- The public operations, a source of a copy with the memory behind its storage. -/
inductive Action where
  | increment (incrementAmount : UInt32) (lockRequest : LockRequest)
  | decrement (decrementAmount : UInt32) (lockRequest : LockRequest)
  | reset (newValue : UInt32) (lockRequest : LockRequest)
  | setInvalid (lockRequest : LockRequest)
  | copyFrom (src : { p : Mp // IsCounter p }) (rest : Memory) (lockRequest : LockRequest)

def apply (p : Mp) : Action → Mp
  | .increment incrementAmount lockRequest =>
      RefCounter.increment p incrementAmount.toNat lockRequest
  | .decrement decrementAmount lockRequest =>
      RefCounter.decrement p decrementAmount.toNat lockRequest
  | .reset newValue lockRequest => RefCounter.reset p newValue.toNat lockRequest
  | .setInvalid lockRequest => LockState.setInvalid p lockRequest
  | .copyFrom src rest lockRequest => copyDataAndStateFrom p src rest lockRequest

def step (p : Mp) (action : Action) : Option Mp :=
  some (apply p action)

def value (p : Mp) : Nat :=
  ofBytes p.data

/-- The request that the lock is asked with: a copy of an invalid counter does not hand its own
on. -/
def lockRequestOf : Action → LockRequest
  | .increment _ lockRequest => lockRequest
  | .decrement _ lockRequest => lockRequest
  | .reset _ lockRequest => lockRequest
  | .setInvalid lockRequest => lockRequest
  | .copyFrom src _ lockRequest => if src.val.valid = false then .noRequest else lockRequest

def Permitted (p : Mp) (action : Action) : Prop :=
  (testAndUpdateLock p.locked (lockRequestOf action)).2 = true

/-- What a saturating counter is to become: a valid value, or invalid. -/
def target (p : Mp) : Action → Option Nat
  | .increment incrementAmount _ => some (min (value p + incrementAmount.toNat) (2 ^ 32 - 1))
  | .decrement decrementAmount _ => some (value p - decrementAmount.toNat)
  | .reset newValue _ => some newValue.toNat
  | .setInvalid _ => none
  | .copyFrom src _ _ => if src.val.valid = false then none else some (value src)

/-- The transitions that are to be noticed. -/
def Changed (p p' : Mp) : Prop :=
  p'.valid ≠ p.valid ∨ ¬ (value p' = 0 ↔ value p = 0)

instance (p p' : Mp) : Decidable (Changed p p') :=
  inferInstanceAs (Decidable (_ ∨ _))

/-- An operation counts as a saturating counter does. -/
structure Saturates (p : Mp) (action : Action) : Prop where
  bounded : value (apply p action) ≤ 2 ^ 32 - 1
  counts : ∀ v, Permitted p action → target p action = some v →
    (apply p action).valid = true ∧ value (apply p action) = v
  invalidates : Permitted p action → target p action = none → (apply p action).valid = false
  refused : ¬ Permitted p action → (apply p action).toPoint = p.toPoint

/-- An operation advances the sequence number just on the transitions to be noticed. -/
def Notifies (p : Mp) (action : Action) : Prop :=
  (apply p action).seqNum =
    if Changed p (apply p action) then advanceSequenceNumber p.seqNum else p.seqNum

instance (p : Mp) (action : Action) : Decidable (Notifies p action) :=
  inferInstanceAs (Decidable (_ = _))

/-- A copy between valid counters that hold different values, neither of them zero. -/
def Bypasses (p : Mp) : Action → Prop
  | .copyFrom src rest lockRequest =>
      Permitted p (.copyFrom src rest lockRequest) ∧ p.valid = true ∧ src.val.valid = true ∧
        value p ≠ 0 ∧ value src ≠ 0 ∧ value p ≠ value src
  | _ => False

section Steps

variable {p : Mp} {action : Action}

theorem value_lt (hp : IsCounter p) : value p < 2 ^ 32 := by
  have hlt := ofBytes_lt p.data
  rw [hp] at hlt
  exact hlt

/-- Every operation is one locked section. -/
def update : Action → Point (List UInt8) → Point (List UInt8)
  | .increment incrementAmount _, q =>
      RefCounter.updateAndCheckForChangeNotification q
        (min (ofBytes q.data + incrementAmount.toNat) (2 ^ 32 - 1))
  | .decrement decrementAmount _, q =>
      RefCounter.updateAndCheckForChangeNotification q (ofBytes q.data - decrementAmount.toNat)
  | .reset newValue _, q => RefCounter.updateAndCheckForChangeNotification q newValue.toNat
  | .setInvalid _, q => q.setInvalid (List.replicate q.data.length 0)
  | .copyFrom src _ _, q =>
      if src.val.valid = false then q.setInvalid (List.replicate q.data.length 0)
      else q.write (fun data other => data == other) src.val.data

theorem lockedUpdate_congr {f g : Point (List UInt8) → Point (List UInt8)}
    (heq : f p.toPoint = g p.toPoint) (lockRequest : LockRequest) :
    lockedUpdate p lockRequest f = lockedUpdate p lockRequest g := by
  rw [lockedUpdate, lockedUpdate, heq]

theorem clamped_increment {count amount : Nat} (hcount : count < 2 ^ 32)
    (hamount : amount < 2 ^ 32) :
    (if (count + amount) % 2 ^ 32 < count then 2 ^ 32 - 1 else (count + amount) % 2 ^ 32) =
      min (count + amount) (2 ^ 32 - 1) := by
  rcases Nat.lt_or_ge (count + amount) (2 ^ 32) with hlt | hge
  · rw [Nat.mod_eq_of_lt hlt, if_neg (by omega)]
    omega
  · rw [Nat.mod_eq_sub_mod hge, Nat.mod_eq_of_lt (by omega), if_pos (by omega)]
    omega

theorem clamped_decrement {count amount : Nat} (hcount : count < 2 ^ 32)
    (hamount : amount < 2 ^ 32) :
    (if count < (count + 2 ^ 32 - amount) % 2 ^ 32 then 0
      else (count + 2 ^ 32 - amount) % 2 ^ 32) = count - amount := by
  rcases Nat.lt_or_ge count amount with hlt | hge
  · rw [Nat.mod_eq_of_lt (by omega), if_pos (by omega)]
    omega
  · have hsum : count + 2 ^ 32 - amount = count - amount + 2 ^ 32 := by omega
    rw [hsum, Nat.add_mod_right, Nat.mod_eq_of_lt (by omega), if_neg (by omega)]

theorem apply_eq (hp : IsCounter p) (action : Action) :
    apply p action = lockedUpdate p (lockRequestOf action) (update action) := by
  have hvalue := value_lt hp
  rw [value] at hvalue
  cases action with
  | increment incrementAmount lockRequest =>
      show LockState.RefCounter.increment p incrementAmount.toNat lockRequest = _
      rw [LockState.RefCounter.increment]
      refine lockedUpdate_congr ?_ lockRequest
      simp only [update, clamped_increment hvalue incrementAmount.toNat_lt]
  | decrement decrementAmount lockRequest =>
      show LockState.RefCounter.decrement p decrementAmount.toNat lockRequest = _
      rw [LockState.RefCounter.decrement]
      refine lockedUpdate_congr ?_ lockRequest
      simp only [update, clamped_decrement hvalue decrementAmount.toNat_lt]
  | reset newValue lockRequest => rfl
  | setInvalid lockRequest => rfl
  | copyFrom src rest lockRequest =>
      have hload : load (memoryOf src.val.data rest) p.data.length = src.val.data := by
        have hstarts := startsWith_memoryOf src.val.data rest
        rwa [StartsWith, src.property, ← hp] at hstarts
      rw [apply, copyDataAndStateFrom, copyFromWith, lockRequestOf]
      split_ifs with hinvalid
      · rw [LockState.setInvalid]
        refine lockedUpdate_congr ?_ .noRequest
        exact (if_pos hinvalid).symm
      · refine lockedUpdate_congr ?_ lockRequest
        simp only [update, if_neg hinvalid, Point.write, isDataEqual, copyDataFrom, hload]

theorem updateAndCheck_eq (q : Point (List UInt8)) (newValue : Nat) :
    RefCounter.updateAndCheckForChangeNotification q newValue =
      { data := toBytes 4 newValue
        valid := true
        seqNum :=
          if true ≠ q.valid ∨ ¬ (newValue = 0 ↔ ofBytes q.data = 0)
          then advanceSequenceNumber q.seqNum else q.seqNum } := by
  have hnotice : (q.valid = false ∨ (ofBytes q.data = 0 ∧ newValue ≠ 0) ∨
      (newValue = 0 ∧ ofBytes q.data ≠ 0)) ↔
        (true ≠ q.valid ∨ ¬ (newValue = 0 ↔ ofBytes q.data = 0)) := by
    refine or_congr ?_ (by tauto)
    cases q.valid <;> simp
  simp only [RefCounter.updateAndCheckForChangeNotification, if_congr hnotice rfl rfl]
  split_ifs with hsame
  · rfl
  · have hvalid : q.valid = true := by
      by_contra hinvalid
      exact hsame (.inl (Ne.symm hinvalid))
    rw [hvalid]

/-- What an operation does: it assigns a value, invalidates, or copies a valid counter. -/
theorem update_cases (hp : IsCounter p) (action : Action) :
    (∃ v, v < 2 ^ 32 ∧ target p action = some v ∧ ¬ Bypasses p action ∧
      update action p.toPoint = RefCounter.updateAndCheckForChangeNotification p.toPoint v) ∨
    (target p action = none ∧ ¬ Bypasses p action ∧
      update action p.toPoint = p.toPoint.setInvalid (List.replicate p.data.length 0)) ∨
    (∃ src rest lockRequest, action = .copyFrom src rest lockRequest ∧ src.val.valid = true ∧
      target p action = some (value src) ∧
      update action p.toPoint = p.toPoint.write (fun data other => data == other) src.val.data) := by
  have hvalue := value_lt hp
  cases action with
  | increment incrementAmount lockRequest => exact .inl ⟨_, by omega, rfl, id, rfl⟩
  | decrement decrementAmount lockRequest => exact .inl ⟨_, by omega, rfl, id, rfl⟩
  | reset newValue lockRequest => exact .inl ⟨_, newValue.toNat_lt, rfl, id, rfl⟩
  | setInvalid lockRequest => exact .inr (.inl ⟨rfl, id, rfl⟩)
  | copyFrom src rest lockRequest =>
      cases hsrc : src.val.valid with
      | false =>
          refine .inr (.inl ⟨if_pos hsrc, ?_, if_pos hsrc⟩)
          rintro ⟨-, -, hvalid, -⟩
          rw [hsrc] at hvalid
          cases hvalid
      | true =>
          have hne : ¬ src.val.valid = false := by
            rw [hsrc]
            exact Bool.noConfusion
          exact .inr (.inr ⟨src, rest, lockRequest, rfl, hsrc, if_neg hne, if_neg hne⟩)

theorem setInvalid_eq (q : Point (List UInt8)) :
    q.setInvalid (List.replicate q.data.length 0) =
      { data := if q.valid = true then List.replicate q.data.length 0 else q.data
        valid := false
        seqNum := if q.valid = true then advanceSequenceNumber q.seqNum else q.seqNum } := by
  rw [Point.setInvalid]
  split_ifs with hvalid
  · rfl
  · rw [Bool.not_eq_true] at hvalid
    rw [← hvalid]

theorem write_eq (q : Point (List UInt8)) (src : List UInt8) :
    q.write (fun data other => data == other) src =
      { data := src
        valid := true
        seqNum :=
          if q.valid = true ∧ q.data = src then q.seqNum
          else advanceSequenceNumber q.seqNum } := by
  rw [Point.write]
  split_ifs with hwrite hsame hsame
  · rcases hwrite with hinvalid | hdiffers
    · rw [hsame.1] at hinvalid
      cases hinvalid
    · rw [hsame.2, beq_self_eq_true] at hdiffers
      cases hdiffers
  · rfl
  · rw [← hsame.1, ← hsame.2]
  · rw [not_or, Bool.not_eq_false, Bool.not_eq_false, beq_iff_eq] at hwrite
    exact absurd hwrite hsame

end Steps

section Rule

variable {p : Mp} {action : Action}

theorem toPoint_permitted (hp : IsCounter p) (hpermit : Permitted p action) :
    (apply p action).toPoint = update action p.toPoint := by
  rw [apply_eq hp]
  exact if_pos hpermit

theorem toPoint_refused (hp : IsCounter p) (hrefused : ¬ Permitted p action) :
    (apply p action).toPoint = p.toPoint := by
  rw [apply_eq hp]
  exact if_neg hrefused

theorem isCounter_apply (hp : IsCounter p) (action : Action) : IsCounter (apply p action) := by
  rw [IsCounter]
  rcases Classical.em (Permitted p action) with hpermit | hrefused
  · rw [toPoint_permitted hp hpermit]
    rcases update_cases hp action with
      ⟨v, -, -, -, hupdate⟩ | ⟨-, -, hupdate⟩ | ⟨src, -, -, -, -, -, hupdate⟩
    · rw [hupdate, updateAndCheck_eq]
      exact length_toBytes 4 v
    · rw [hupdate, setInvalid_eq]
      split_ifs
      · rw [List.length_replicate]
        exact hp
      · exact hp
    · rw [hupdate, write_eq]
      exact src.property
  · rw [toPoint_refused hp hrefused]
    exact hp

theorem saturates (hp : IsCounter p) (action : Action) : Saturates p action := by
  refine ⟨Nat.le_sub_one_of_lt (value_lt (isCounter_apply hp action)), ?_, ?_,
    fun hrefused => toPoint_refused hp hrefused⟩
  · intro v hpermit htarget
    rw [value, toPoint_permitted hp hpermit]
    rcases update_cases hp action with
      ⟨v', hlt, htarget', -, hupdate⟩ | ⟨htarget', -, hupdate⟩ |
        ⟨src, -, -, -, -, htarget', hupdate⟩
    · obtain rfl : v' = v := Option.some.inj (htarget'.symm.trans htarget)
      rw [hupdate, updateAndCheck_eq]
      exact ⟨rfl, ofBytes_toBytes 4 v' hlt⟩
    · rw [htarget'] at htarget
      cases htarget
    · obtain rfl : value src = v := Option.some.inj (htarget'.symm.trans htarget)
      rw [hupdate, write_eq]
      exact ⟨rfl, rfl⟩
  · intro hpermit htarget
    rw [toPoint_permitted hp hpermit]
    rcases update_cases hp action with
      ⟨v', -, htarget', -, -⟩ | ⟨-, -, hupdate⟩ | ⟨src, -, -, -, -, htarget', -⟩
    · rw [htarget'] at htarget
      cases htarget
    · rw [hupdate, setInvalid_eq]
    · rw [htarget'] at htarget
      cases htarget

theorem Bypasses.permitted (hbypass : Bypasses p action) : Permitted p action := by
  cases action with
  | copyFrom src rest lockRequest => exact hbypass.1
  | _ => exact False.elim hbypass

theorem notifies_of_permitted (hp : IsCounter p) (hpermit : Permitted p action) :
    Notifies p action ↔
      (update action p.toPoint).seqNum =
        if (update action p.toPoint).valid ≠ p.valid ∨
            ¬ (ofBytes (update action p.toPoint).data = 0 ↔ value p = 0)
        then advanceSequenceNumber p.seqNum else p.seqNum := by
  rw [Notifies, ← toPoint_permitted hp hpermit]
  rfl

theorem notifies_of_same {q : Mp} (hsame : q.toPoint = p.toPoint) :
    q.seqNum = if Changed p q then advanceSequenceNumber p.seqNum else p.seqNum := by
  rw [if_neg]
  · rw [hsame]
  · rintro (hvalid | hvalue)
    · exact hvalid (by rw [hsame])
    · exact hvalue (by rw [value, hsame, value])

theorem notifies_copy (hp : IsCounter p) {src : { p : Mp // IsCounter p }} {rest : Memory}
    {lockRequest : LockRequest} (hpermit : Permitted p (.copyFrom src rest lockRequest))
    (hsrc : src.val.valid = true)
    (hupdate : update (.copyFrom src rest lockRequest) p.toPoint =
      p.toPoint.write (fun data other => data == other) src.val.data) :
    Notifies p (.copyFrom src rest lockRequest) ↔
      ¬ Bypasses p (.copyFrom src rest lockRequest) := by
  have hdata : p.data = src.val.data ↔ value p = value src := by
    constructor
    · intro hsame
      rw [value, value, hsame]
    · intro hsame
      exact ofBytes_injective (hp.trans src.property.symm) hsame
  have hbypass : Bypasses p (.copyFrom src rest lockRequest) ↔
      p.valid = true ∧ value p ≠ 0 ∧ value src ≠ 0 ∧ value p ≠ value src := by
    rw [Bypasses]
    tauto
  rw [notifies_of_permitted hp hpermit, hupdate, write_eq, hbypass]
  show (ite _ _ _ = if true ≠ p.valid ∨ ¬ (value src = 0 ↔ value p = 0) then _ else _) ↔ _
  simp only [hdata]
  cases hvalid : p.valid with
  | false => simp
  | true =>
      have hadvance := advanceSequenceNumber_ne p.seqNum
      simp only [true_and, ne_eq, not_true_eq_false, false_or]
      split_ifs with hsame hzero hzero
      · exact iff_of_true rfl fun hbypass => hbypass.2.2 hsame
      · rw [hsame] at hzero
        exact absurd Iff.rfl hzero
      · refine iff_of_false hadvance (not_not.mpr ⟨?_, ?_, hsame⟩)
        · intro hp0
          exact hsame (hp0.trans (hzero.mpr hp0).symm)
        · intro hsrc0
          exact hsame ((hzero.mp hsrc0).trans hsrc0.symm)
      · refine iff_of_true rfl ?_
        rintro ⟨hp0, hsrc0, -⟩
        exact hzero (iff_of_false hsrc0 hp0)

/-- The rule of the notifications is kept by all but the copies that bypass it. -/
theorem notifies_iff (hp : IsCounter p) (action : Action) :
    Notifies p action ↔ ¬ Bypasses p action := by
  rcases Classical.em (Permitted p action) with hpermit | hrefused
  · rcases update_cases hp action with
      ⟨v, hlt, -, hbypass, hupdate⟩ | ⟨-, hbypass, hupdate⟩ |
        ⟨src, rest, lockRequest, rfl, hsrc, -, hupdate⟩
    · refine iff_of_true ?_ hbypass
      rw [notifies_of_permitted hp hpermit, hupdate, updateAndCheck_eq]
      simp only [ofBytes_toBytes 4 v hlt, value]
    · refine iff_of_true ?_ hbypass
      rw [notifies_of_permitted hp hpermit, hupdate, setInvalid_eq]
      cases hvalid : p.valid with
      | false => simp [value]
      | true => simp
    · exact notifies_copy hp hpermit hsrc hupdate
  · exact iff_of_true (notifies_of_same (toPoint_refused hp hrefused))
      fun hbypass => hrefused hbypass.permitted

/-- Over any sequence of operations: every step counts as a saturating counter does and keeps the
rule of the notifications, just when no step is a copy that bypasses it. -/
theorem allSteps_iff (hp : IsCounter p) (actions : List Action) :
    AllSteps step (fun p action => Saturates p action ∧ Notifies p action) p actions ↔
      AllSteps step (fun p action => ¬ Bypasses p action) p actions := by
  have hstep : ∀ (P : Mp → Action → Prop) p action next, IsCounter p → P p action →
      step p action = some next → IsCounter next := by
    intro P p action next hp _ hnext
    obtain rfl : apply p action = next := Option.some.inj hnext
    exact isCounter_apply hp action
  constructor
  · intro hall
    exact allSteps_of_invariant (hstep _)
      (fun p action hp hrule => (notifies_iff hp action).mp hrule.2) hp hall
  · intro hall
    exact allSteps_of_invariant (hstep _)
      (fun p action hp hpass => ⟨saturates hp action, (notifies_iff hp action).mpr hpass⟩) hp hall

/-- Saturation in both directions, and a copy of zero. -/
theorem allSteps_three :
    IsCounter { Point.init (toBytes 4 7) true with locked := false } ∧
      AllSteps step (fun p action => Saturates p action ∧ Notifies p action)
        { Point.init (toBytes 4 7) true with locked := false }
        [.increment 0xFFFFFFFF .noRequest, .decrement 0xFFFFFFFF .noRequest,
          .copyFrom ⟨{ Point.init (toBytes 4 0) true with locked := false }, rfl⟩ (fun _ => 0)
            .noRequest] := by
  have hp : IsCounter { Point.init (toBytes 4 7) true with locked := false } := rfl
  refine ⟨hp, (allSteps_iff hp _).mpr ⟨id, fun p hp => ⟨id, fun p' hp' => ⟨?_, ?_⟩⟩⟩⟩
  · rintro ⟨-, -, -, -, hzero, -⟩
    exact hzero rfl
  · exact fun _ _ => trivial

/-- A copy of nine over seven advances the sequence number. -/
theorem not_allSteps_copy :
    ¬ AllSteps step (fun p action => Saturates p action ∧ Notifies p action)
      { Point.init (toBytes 4 7) true with locked := false }
      [.copyFrom ⟨{ Point.init (toBytes 4 9) true with locked := false }, rfl⟩ (fun _ => 0)
        .noRequest] := by
  rintro ⟨⟨-, hnotifies⟩, -⟩
  exact absurd hnotifies (by decide)

end Rule

end ColonyPico.Dm.ReferenceCounts
