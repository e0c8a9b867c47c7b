import ColonyPico.Dm.LockState

/-!
Copying the data and the valid state of a model point to another one
(`ModelPointCommon_::copyDataAndStateFrom()`) while other threads change the source.
-/

namespace ColonyPico.Dm.PointCopy

open ColonyPico.Dm.ModelPoint
open ColonyPico.Dm.LockState

variable {α : Type*}

/-- A type of model points: how it compares data, and what `hookSetInvalid()` sets them to. -/
structure MpType (α : Type*) where
  isDataEqual : α → α → Bool
  invalidData : α

/-- A model point of the type.  An invalid one holds the data that `hookSetInvalid()` left. -/
structure TypedPoint (t : MpType α) extends LockablePoint α where
  reset : valid = false → data = t.invalidData

section Operations

variable {t : MpType α}

theorem lockedUpdate_cases (p : LockablePoint α) (lockRequest : LockRequest)
    (f : Point α → Point α) :
    (lockedUpdate p lockRequest f).toPoint = f p.toPoint ∨
      (lockedUpdate p lockRequest f).toPoint = p.toPoint := by
  simp only [lockedUpdate]
  split_ifs
  · exact .inl rfl
  · exact .inr rfl

def TypedPoint.update (p : TypedPoint t) (lockRequest : LockRequest) (f : Point α → Point α)
    (h : (f p.toPoint).valid = false → (f p.toPoint).data = t.invalidData) : TypedPoint t where
  toLockablePoint := lockedUpdate p.toLockablePoint lockRequest f
  reset := by
    rcases lockedUpdate_cases p.toLockablePoint lockRequest f with hnew | hold
    · rw [hnew]
      exact h
    · rw [hold]
      exact p.reset

/-- `writeData()`, with the `memcpy()` of `copyDataFrom_()`. -/
def TypedPoint.writeData (p : TypedPoint t) (srcData : α) (lockRequest : LockRequest) :
    TypedPoint t :=
  p.update lockRequest (fun q => q.write t.isDataEqual srcData) <| by
    simp only [Point.write]
    split_ifs
    · rintro ⟨⟩
    · exact p.reset

def TypedPoint.setInvalid (p : TypedPoint t) (lockRequest : LockRequest) : TypedPoint t :=
  p.update lockRequest (fun q => q.setInvalid t.invalidData) <| by
    simp only [Point.setInvalid]
    split_ifs
    · exact fun _ => rfl
    · exact p.reset

end Operations

/-- What the other threads do to the source. -/
inductive Change (α : Type*) where
  | write (srcData : α) (lockRequest : LockRequest)
  | setInvalid (lockRequest : LockRequest)

def Change.apply {t : MpType α} (p : TypedPoint t) : Change α → TypedPoint t
  | .write srcData lockRequest => p.writeData srcData lockRequest
  | .setInvalid lockRequest => p.setInvalid lockRequest

/-- Where the call is: before it asks whether the source is valid, before it acts on the answer, or
behind that. -/
inductive Copier where
  | entered
  | checked (isNotValid : Bool)
  | returned
  deriving DecidableEq

/-- The two points and the call.  `held` lists what the source has been since the call began. -/
structure State (t : MpType α) where
  src : TypedPoint t
  dst : TypedPoint t
  copier : Copier
  held : List (TypedPoint t)

def State.start {t : MpType α} (src dst : TypedPoint t) : State t :=
  { src := src, dst := dst, copier := .entered, held := [src] }

inductive Action (α : Type*) where
  | change (change : Change α)
  | copy

/-- One locked section, of another thread or of `copyDataAndStateFrom()`. -/
def step {t : MpType α} (lockRequest : LockRequest) (s : State t) : Action α → Option (State t)
  | .change change =>
      let src := change.apply s.src
      some { s with
        src := src
        held := if s.copier = .returned then s.held else s.held ++ [src] }
  | .copy =>
      match s.copier with
      | .entered => some { s with copier := .checked (!s.src.valid) }
      -- the lock request is not handed on to setInvalid()
      | .checked true => some { s with dst := s.dst.setInvalid .noRequest, copier := .returned }
      | .checked false =>
          -- the source is not asked again
          some { s with dst := s.dst.writeData s.src.data lockRequest, copier := .returned }
      | .returned => none

def run {t : MpType α} (lockRequest : LockRequest) : State t → List (Action α) → Option (State t)
  | s, [] => some s
  | s, action :: rest => (step lockRequest s action).bind fun s' => run lockRequest s' rest

/-- The destination is what the source was at one moment of the call. -/
def Consistent {t : MpType α} (s : State t) : Prop :=
  ∃ p ∈ s.held, s.dst.valid = p.valid ∧
    (s.dst.data = p.data ∨ t.isDataEqual s.dst.data p.data = true)

/-- The data are copied only while the source is valid. -/
def Undisturbed {t : MpType α} (lockRequest : LockRequest) : State t → List (Action α) → Prop
  | _, [] => True
  | s, .change change :: rest =>
      ∀ s', step lockRequest s (.change change) = some s' → Undisturbed lockRequest s' rest
  | s, .copy :: rest =>
      (s.copier = .checked false → s.src.valid = true) ∧
        ∀ s', step lockRequest s .copy = some s' → Undisturbed lockRequest s' rest

variable {t : MpType α} {lockRequest : LockRequest} {s s' : State t} {actions : List (Action α)}

theorem lockedUpdate_unlocked {p : LockablePoint α} (hunlocked : p.locked = false)
    (f : Point α → Point α) : (lockedUpdate p lockRequest f).toPoint = f p.toPoint := by
  cases lockRequest with
  | noRequest => simp only [lockedUpdate, testAndUpdateLock, hunlocked, Bool.not_false, if_true]
  | lock => rfl
  | unlock => rfl

theorem writeData_spec {p : TypedPoint t} (hunlocked : p.locked = false) (srcData : α) :
    (p.writeData srcData lockRequest).valid = true ∧
      ((p.writeData srcData lockRequest).data = srcData ∨
        t.isDataEqual (p.writeData srcData lockRequest).data srcData = true) := by
  have hupdate : (p.writeData srcData lockRequest).toPoint =
      p.toPoint.write t.isDataEqual srcData := lockedUpdate_unlocked hunlocked _
  rw [hupdate, Point.write]
  split_ifs with hwritten
  · exact ⟨rfl, .inl rfl⟩
  · obtain ⟨hvalid, hequal⟩ := not_or.mp hwritten
    exact ⟨Bool.eq_true_of_not_eq_false hvalid, .inr (Bool.eq_true_of_not_eq_false hequal)⟩

theorem setInvalid_spec {p : TypedPoint t} (hunlocked : p.locked = false) :
    (p.setInvalid .noRequest).valid = false := by
  have hupdate : (p.setInvalid .noRequest).toPoint = p.toPoint.setInvalid t.invalidData :=
    lockedUpdate_unlocked hunlocked _
  rw [hupdate, Point.setInvalid]
  split_ifs with hvalid
  · rfl
  · exact Bool.eq_false_of_not_eq_true hvalid

/-- What the call relies on before it returns. -/
structure Ready (s : State t) : Prop where
  running : s.copier ≠ .returned
  unlocked : s.dst.locked = false
  held : s.src ∈ s.held
  checked : s.copier = .checked true → ∃ p ∈ s.held, p.valid = false

theorem ready_start {src dst : TypedPoint t} (hunlocked : dst.locked = false) :
    Ready (State.start src dst) :=
  ⟨by rintro ⟨⟩, hunlocked, List.mem_singleton_self _, by rintro ⟨⟩⟩

theorem ready_change {change : Change α} (h : Ready s)
    (hstep : step lockRequest s (.change change) = some s') : Ready s' := by
  obtain rfl := Option.some.inj hstep
  refine ⟨h.running, h.unlocked, ?_, ?_⟩
  · simp only [if_neg h.running]
    exact List.mem_append_right _ (List.mem_singleton_self _)
  · intro hchecked
    obtain ⟨p, hp, hinvalid⟩ := h.checked hchecked
    refine ⟨p, ?_, hinvalid⟩
    simp only [if_neg h.running]
    exact List.mem_append_left _ hp

theorem run_returned (hreturned : s.copier = .returned)
    (hrun : run lockRequest s actions = some s') :
    s'.dst = s.dst ∧ s'.held = s.held ∧ Undisturbed lockRequest s actions := by
  induction actions generalizing s with
  | nil =>
      obtain rfl := Option.some.inj hrun
      exact ⟨rfl, rfl, trivial⟩
  | cons action rest ih =>
      obtain ⟨next, hstep, hrest⟩ := Option.bind_eq_some_iff.mp hrun
      cases action with
      | change change =>
          have hnext : next.copier = .returned ∧ next.dst = s.dst ∧ next.held = s.held := by
            obtain rfl := Option.some.inj hstep
            exact ⟨hreturned, rfl, if_pos hreturned⟩
          obtain ⟨hdst, hheld, hundisturbed⟩ := ih hnext.1 hrest
          refine ⟨hdst.trans hnext.2.1, hheld.trans hnext.2.2, ?_⟩
          rintro s'' hs''
          rwa [← Option.some.inj (hstep.symm.trans hs'')]
      | copy =>
          simp only [step, hreturned, reduceCtorEq] at hstep

theorem run_outcome (h : Ready s) (hrun : run lockRequest s actions = some s')
    (hreturned : s'.copier = .returned) :
    (Undisturbed lockRequest s actions ∧ Consistent s') ∨
      (¬Undisturbed lockRequest s actions ∧ s'.dst.valid = true ∧
        (s'.dst.data = t.invalidData ∨ t.isDataEqual s'.dst.data t.invalidData = true)) := by
  induction actions generalizing s with
  | nil =>
      obtain rfl := Option.some.inj hrun
      exact absurd hreturned h.running
  | cons action rest ih =>
      obtain ⟨next, hstep, hrest⟩ := Option.bind_eq_some_iff.mp hrun
      cases action with
      | change change =>
          rcases ih (ready_change h hstep) hrest with ⟨hundisturbed, hconsistent⟩ | ⟨hnot, hwrong⟩
          · refine .inl ⟨?_, hconsistent⟩
            rintro s'' hs''
            rwa [← Option.some.inj (hstep.symm.trans hs'')]
          · exact .inr ⟨fun hall => hnot (hall next hstep), hwrong⟩
      | copy =>
          cases hcopier : s.copier with
          | entered =>
              have hnext : Ready next := by
                simp only [step, hcopier] at hstep
                obtain rfl := Option.some.inj hstep
                refine ⟨by rintro ⟨⟩, h.unlocked, h.held, ?_⟩
                intro hchecked
                refine ⟨s.src, h.held, ?_⟩
                simpa using hchecked
              rcases ih hnext hrest with ⟨hundisturbed, hconsistent⟩ | ⟨hnot, hwrong⟩
              · refine .inl ⟨⟨fun hchecked => ?_, ?_⟩, hconsistent⟩
                · rw [hcopier] at hchecked
                  cases hchecked
                · rintro s'' hs''
                  rwa [← Option.some.inj (hstep.symm.trans hs'')]
              · exact .inr ⟨fun hall => hnot (hall.2 next hstep), hwrong⟩
          | checked isNotValid =>
              cases isNotValid with
              | true =>
                  simp only [step, hcopier] at hstep
                  obtain rfl := Option.some.inj hstep
                  obtain ⟨hdst, hheld, hundisturbed⟩ := run_returned rfl hrest
                  obtain ⟨p, hp, hinvalid⟩ := h.checked hcopier
                  have hdstInvalid := setInvalid_spec h.unlocked
                  refine .inl ⟨⟨?_, ?_⟩, p, ?_, ?_, .inl ?_⟩
                  · rw [hcopier]
                    rintro ⟨⟩
                  · simp only [step, hcopier]
                    rintro s'' ⟨⟩
                    exact hundisturbed
                  · rwa [hheld]
                  · rw [hdst, hdstInvalid, hinvalid]
                  · rw [hdst, TypedPoint.reset _ hdstInvalid, p.reset hinvalid]
              | false =>
                  simp only [step, hcopier] at hstep
                  obtain rfl := Option.some.inj hstep
                  obtain ⟨hdst, hheld, hundisturbed⟩ := run_returned rfl hrest
                  have hwritten := @writeData_spec _ _ lockRequest _ h.unlocked s.src.data
                  obtain ⟨hvalid, hdata⟩ := hwritten
                  rcases Bool.eq_false_or_eq_true s.src.valid with hsrc | hsrc
                  · refine .inl ⟨⟨fun _ => hsrc, ?_⟩, s.src, ?_, ?_, ?_⟩
                    · simp only [step, hcopier]
                      rintro s'' ⟨⟩
                      exact hundisturbed
                    · rw [hheld]
                      exact h.held
                    · rw [hdst, hvalid, hsrc]
                    · rw [hdst]
                      exact hdata
                  · refine .inr ⟨fun hall => ?_, ?_, ?_⟩
                    · cases hsrc.symm.trans (hall.1 hcopier)
                    · rw [hdst, hvalid]
                    · rw [hdst, ← s.src.reset hsrc]
                      exact hdata
          | returned => exact absurd hcopier h.running

/-- The copy is consistent if the source is valid whenever its data are copied.  Where the
comparison is exact, it is consistent otherwise only if the source held the data of an invalid point
while it was valid. -/
theorem copy_consistent_iff {src dst : TypedPoint t} (hunlocked : dst.locked = false)
    (hrun : run lockRequest (State.start src dst) actions = some s)
    (hreturned : s.copier = .returned) :
    (Undisturbed lockRequest (State.start src dst) actions → Consistent s) ∧
      ((∀ a b, t.isDataEqual a b = true → a = b) →
        (Consistent s ↔ Undisturbed lockRequest (State.start src dst) actions ∨
          ∃ p ∈ s.held, p.valid = true ∧ p.data = t.invalidData)) := by
  rcases run_outcome (ready_start hunlocked) hrun hreturned with
    ⟨hundisturbed, hconsistent⟩ | ⟨hnot, hvalid, hdata⟩
  · exact ⟨fun _ => hconsistent, fun _ => iff_of_true hconsistent (.inl hundisturbed)⟩
  · refine ⟨fun hundisturbed => absurd hundisturbed hnot, fun hexact => ?_⟩
    have hinvalidData : s.dst.data = t.invalidData := hdata.elim id (hexact _ _)
    constructor
    · rintro ⟨p, hp, hpvalid, hpdata⟩
      refine .inr ⟨p, hp, hpvalid.symm.trans hvalid, ?_⟩
      rw [← hinvalidData]
      exact (hpdata.elim id (hexact _ _)).symm
    · rintro (hundisturbed | ⟨p, hp, hpvalid, hpdata⟩)
      · exact absurd hundisturbed hnot
      · exact ⟨p, hp, hvalid.trans hpvalid.symm, .inl (hinvalidData.trans hpdata.symm)⟩

def uint32 : MpType UInt32 :=
  { isDataEqual := fun a b => a == b, invalidData := 0 }

def uint32Point (value : UInt32) : TypedPoint uint32 where
  data := value
  valid := true
  seqNum := 1
  locked := false
  reset := by rintro ⟨⟩

/-- The source is written before and after it is asked. -/
def twoWrites : List (Action UInt32) :=
  [.change (.write 6 .noRequest), .copy, .change (.write 7 .noRequest), .copy]

theorem copy_consistent_two_writes :
    ∃ s, run .noRequest (State.start (uint32Point 5) (uint32Point 9)) twoWrites = some s ∧
      s.dst.data = 7 ∧ Consistent s := by
  refine ⟨_, rfl, rfl, ?_⟩
  refine (@copy_consistent_iff _ _ .noRequest _ twoWrites (uint32Point 5) (uint32Point 9)
    rfl rfl rfl).1 ?_
  rintro _ ⟨⟩
  refine ⟨by rintro ⟨⟩, ?_⟩
  rintro _ ⟨⟩
  rintro _ ⟨⟩
  refine ⟨fun _ => rfl, ?_⟩
  rintro _ ⟨⟩
  trivial

/-- The source is invalidated right after it was asked: the destination becomes valid with the zero
that the invalidation left. -/
theorem not_consistent_invalidated : ¬∀ (src dst : TypedPoint uint32)
    (actions : List (Action UInt32)) (s : State uint32), dst.locked = false →
      run .noRequest (State.start src dst) actions = some s → s.copier = .returned →
        Consistent s := by
  intro hall
  obtain ⟨p, hp, hvalid, hdata⟩ := hall (uint32Point 5) (uint32Point 9)
    [.copy, .change (.setInvalid .noRequest), .copy] _ rfl rfl rfl
  change p ∈ [uint32Point 5, (uint32Point 5).setInvalid .noRequest] at hp
  rcases List.mem_cons.mp hp with rfl | hp
  · exact absurd hdata (by decide)
  · obtain rfl := List.mem_singleton.mp hp
    cases hvalid

end ColonyPico.Dm.PointCopy
