import ColonyPico.System.TimerRuns

/-!
When the timers of a thread expire that are started before the thread processes its timers for the
first time.
-/

namespace ColonyPico.System.StartupTimers

open ColonyPico.Foundations.DeltaList
open ColonyPico.System.ElapsedTime
open ColonyPico.System.TimerManager
open ColonyPico.System.TimerRuns

variable {τ : Type}

/-- A thread whose manager has been constructed. -/
def constructed : World τ :=
  { manager := Manager.init
    clock := 0
    expiring := none
    callTime := 0
    running := fun _ => none
    expirations := [] }

/-- `startManager()`. The processing times are told from then on. -/
def startedAt (w : World τ) : World τ :=
  { w with
    manager := startManager w.manager (milliseconds w.clock)
    callTime := w.clock }

/-- The action is one of those before the first `processTimers()` call. -/
def Setup : Action τ → Prop
  | .advance _ => True
  | .start _ _ => True
  | .stop _ => True
  | .processTimers => False
  | .callbackReturns => False

section Runs

variable [DecidableEq τ]

/-- The world before the first `processTimers()` call: `early` and `late` are the actions before
and after `startManager()`. -/
def setUp (early late : List (Action τ)) : World τ :=
  late.foldl step (startedAt (early.foldl step constructed))

/-- The thread processes its timers outside of their callbacks and before the clock rolls over. -/
def Paced (w : World τ) : Action τ → Prop
  | .processTimers => w.expiring = none ∧ w.clock - w.callTime < 2 ^ 32
  | .callbackReturns => w.expiring ≠ none
  | _ => True

def AllPaced (next : World τ → Action τ → World τ) : World τ → List (Action τ) → Prop
  | _, [] => True
  | w, a :: actions => Paced w a ∧ AllPaced next (next w a) actions

/-- The times of the `processTimers()` calls. -/
def calls (next : World τ → Action τ → World τ) : World τ → List (Action τ) → List Nat
  | _, [] => []
  | w, .processTimers :: actions => w.clock :: calls next (next w .processTimers) actions
  | w, a :: actions => calls next (next w a) actions

/-- The times of the `processTimers()` calls that called a timer back, the latest first. -/
def expiredAt (w : World τ) (timer : τ) : List Nat :=
  (w.expirationsOf timer).map Expiration.callTime

end Runs

/-- A timer expires at the first call at or after its deadline, or no more than one tick later. -/
def Punctual (deadline : Nat) (calls expired : List Nat) : Prop :=
  (∃ earlier call later, calls = earlier ++ call :: later ∧ expired = [call] ∧
      deadline ≤ call ∧ ∀ c ∈ earlier, c ≤ deadline) ∨
    (expired = [] ∧ ∀ c ∈ calls, c ≤ deadline)

/-- The time from which on a call expires a timer that the manager counts down from `started`,
with a deadline that it takes for a count. -/
def countedDown (started deadline : Nat) : Nat :=
  started + max 1 (deadline % 2 ^ 32)

section Counted

variable [DecidableEq τ]

/-- A step that tells the deadlines as the manager counts them, whatever the sum of a start comes
to. -/
def countedStep (w : World τ) : Action τ → World τ
  | .start timer duration =>
      { step w (.start timer duration) with
        running := Function.update w.running timer (some (w.callTime +
          (msecToCounts (detach w.manager timer) (milliseconds w.clock) duration).toNat)) }
  | a => step w a

/-- The runs differ in the deadlines that are told only. -/
structure SameRun (w v : World τ) : Prop where
  manager : w.manager = v.manager
  clock : w.clock = v.clock
  expiring : w.expiring = v.expiring
  callTime : w.callTime = v.callTime
  expired : w.expirations.map (fun e => (e.timer, e.callTime)) =
    v.expirations.map fun e => (e.timer, e.callTime)

theorem sameRun_proceed {w v : World τ} (hclock : w.clock = v.clock)
    (hcall : w.callTime = v.callTime)
    (hexpired : w.expirations.map (fun e => (e.timer, e.callTime)) =
      v.expirations.map fun e => (e.timer, e.callTime))
    (res : Manager τ × Option (τ × UInt32)) : SameRun (w.proceed res) (v.proceed res) := by
  cases hres : res.2 with
  | none =>
      simp only [World.proceed, hres]
      exact ⟨rfl, hclock, rfl, hcall, hexpired⟩
  | some callback =>
      simp only [World.proceed, hres]
      refine ⟨rfl, hclock, rfl, hcall, ?_⟩
      simp only [List.map_cons, hexpired, hcall]

theorem sameRun_step {w v : World τ} (h : SameRun w v) (a : Action τ) :
    SameRun (step w a) (countedStep v a) := by
  obtain ⟨hmanager, hclock, hexpiring, hcall, hexpired⟩ := h
  cases a with
  | advance n => exact ⟨hmanager, congrArg (· + n) hclock, hexpiring, hcall, hexpired⟩
  | start timer duration =>
      refine ⟨?_, hclock, hexpiring, hcall, hexpired⟩
      simp only [step, countedStep, hmanager, hclock]
  | stop timer =>
      refine ⟨?_, hclock, hexpiring, hcall, hexpired⟩
      simp only [step, countedStep, hmanager]
  | processTimers =>
      have hres : processTimers w.manager (milliseconds w.clock) =
          processTimers v.manager (milliseconds v.clock) := by rw [hmanager, hclock]
      simp only [step, countedStep, hres]
      exact sameRun_proceed (w := { w with callTime := w.clock })
        (v := { v with callTime := v.clock }) hclock hclock hexpired _
  | callbackReturns =>
      simp only [step, countedStep, ← hmanager, ← hexpiring]
      cases w.expiring with
      | none => exact ⟨hmanager, hclock, hexpiring, hcall, hexpired⟩
      | some msec => exact sameRun_proceed hclock hcall hexpired _

omit [DecidableEq τ] in
theorem paced_same {w v : World τ} (h : SameRun w v) (a : Action τ) : Paced w a ↔ Paced v a := by
  cases a <;> simp only [Paced, h.expiring, h.clock, h.callTime]

theorem sameRun_foldl {w v : World τ} (h : SameRun w v) (actions : List (Action τ)) :
    SameRun (actions.foldl step w) (actions.foldl countedStep v) ∧
      calls step w actions = calls countedStep v actions ∧
      (AllPaced step w actions → AllPaced countedStep v actions) := by
  induction actions generalizing w v with
  | nil => exact ⟨h, rfl, id⟩
  | cons a actions ih =>
      obtain ⟨hrest, hcalls, hpaced⟩ := ih (sameRun_step h a)
      refine ⟨hrest, ?_, fun hall => ⟨(paced_same h a).mp hall.1, hpaced hall.2⟩⟩
      cases a with
      | processTimers => rw [calls, calls, hcalls, h.clock]
      | _ => exact hcalls

theorem expiredAt_same {w v : World τ} (h : SameRun w v) (timer : τ) :
    expiredAt w timer = expiredAt v timer := by
  have hexpiredAt : ∀ w : World τ, expiredAt w timer =
      ((w.expirations.map fun e => (e.timer, e.callTime)).filter fun p => p.1 = timer).map
        Prod.snd := by
    intro w
    rw [List.filter_map, List.map_map]
    rfl
  rw [hexpiredAt, hexpiredAt, h.expired]

/-- The world as the manager counts: the deadlines are counts, and start at `base`. -/
def counted (base : Nat) (w : World τ) : World τ :=
  { w with
    manager := { w.manager with timeMark := milliseconds base, timeNow := milliseconds base }
    callTime := base
    running := fun timer => (w.running timer).map fun deadline => base + deadline % 2 ^ 32 }

/-- What holds until the first `processTimers()` call: the time that a start adds is the
clock's. -/
structure SettingUp (w : World τ) : Prop where
  inv : Inv (counted 0 w)
  timeNow : w.manager.timeNow = milliseconds 0
  expiring : w.expiring = none
  expired : w.expirations = []

omit [DecidableEq τ] in
theorem settingUp_constructed : SettingUp (constructed : World τ) := by
  refine ⟨⟨rfl, le_rfl, fun _ => ⟨rfl, rfl, rfl⟩, fun msec hbusy => (by cases hbusy),
    ⟨List.nodup_nil, fun k n => ?_⟩, fun p hp => (by cases hp), fun e he => (by cases he),
    List.Pairwise.nil⟩, rfl, rfl, rfl⟩
  simp [counted, constructed, World.entries, Manager.init, deadlines, schedule]

omit [DecidableEq τ] in
theorem settingUp_startedAt {w : World τ} (h : SettingUp w) : SettingUp (startedAt w) := by
  obtain ⟨hinv, hnow, hexpiring, hexpired⟩ := h
  exact ⟨⟨hinv.timeNow, hinv.callTime_le, hinv.idle, hinv.busy, hinv.entries, hinv.bound,
    hinv.past, hinv.ordered⟩, hnow, hexpiring, hexpired⟩

theorem detach_times (m : Manager τ) (mark now : UInt32) (timer : τ) :
    detach { m with timeMark := mark, timeNow := now } timer =
      { detach m timer with timeMark := mark, timeNow := now } := by
  rcases Classical.em (timer ∈ m.pendingAttach.map Counter.timer) with hpending | hpending
  · rw [detach, if_pos hpending, detach, if_pos hpending]
  · rw [detach, if_neg hpending, detach, if_neg hpending]

omit [DecidableEq τ] in
theorem attach_times (m : Manager τ) (mark now : UInt32) (client : Counter τ) :
    attach { m with timeMark := mark, timeNow := now } client =
      { attach m client with timeMark := mark, timeNow := now } := by
  cases htick : m.inTickCall with
  | false => rw [attach, attach, htick]; rfl
  | true => rw [attach, attach, htick]; rfl

theorem start_fields (m : Manager τ) (now : UInt32) (timer : τ) (duration : UInt32) :
    (start m now timer duration).timeNow = m.timeNow ∧
      (start m now timer duration).timeMark = m.timeMark := by
  obtain ⟨hnow, hmark, -⟩ := detach_fields m timer
  rw [start, attach]
  split_ifs <;> exact ⟨hnow, hmark⟩

theorem running_counted (base : Nat) (w : World τ) (timer : τ) (deadline : Option Nat) :
    (fun timer' => (Function.update w.running timer deadline timer').map
        fun deadline => base + deadline % 2 ^ 32) =
      Function.update (counted base w).running timer
        (deadline.map fun deadline => base + deadline % 2 ^ 32) := by
  funext timer'
  rcases eq_or_ne timer' timer with rfl | hne
  · rw [Function.update_self, Function.update_self]
  · rw [Function.update_of_ne hne, Function.update_of_ne hne, counted]

theorem counted_stop (base : Nat) (w : World τ) (timer : τ) :
    counted base (step w (.stop timer)) = step (counted base w) (.stop timer) := by
  have hrunning := running_counted base w timer none
  simp only [step, stop, counted, detach_times] at hrunning ⊢
  rw [hrunning, Option.map_none]

theorem settingUp_step {w : World τ} (h : SettingUp w) {a : Action τ} (ha : Setup a) :
    SettingUp (step w a) := by
  obtain ⟨hinv, hnow, hexpiring, hexpired⟩ := h
  cases a with
  | advance n => exact ⟨inv_advance hinv n, hnow, hexpiring, hexpired⟩
  | stop timer =>
      refine ⟨?_, (detach_fields w.manager timer).1.trans hnow, hexpiring, hexpired⟩
      rw [counted_stop]
      exact inv_stop hinv timer
  | start timer duration =>
      have hfields := detach_fields w.manager timer
      have hstop := inv_stop hinv timer
      have hnone : (step (counted 0 w) (.stop timer)).running timer = none :=
        Function.update_self ..
      have hattach := inv_attach hstop hnone
        (msecToCounts (detach w.manager timer) (milliseconds w.clock) duration)
      have hrunning := running_counted 0 w timer (some (w.clock + duration.toNat))
      have hcount : (msecToCounts (detach w.manager timer) (milliseconds w.clock) duration).toNat =
          (w.clock + duration.toNat) % 2 ^ 32 := by
        rw [msecToCounts, hfields.1.trans hnow, deltaMilliseconds, milliseconds, milliseconds,
          UInt32.toNat_add, UInt32.toNat_sub, UInt32.toNat_ofNat', UInt32.toNat_ofNat']
        omega
      refine ⟨?_, (start_fields w.manager _ timer duration).1.trans hnow, hexpiring, hexpired⟩
      simp only [step, stop, start, counted, detach_times, attach_times, hcount,
        Function.update_idem, Option.map_some] at hattach hrunning ⊢
      rw [hrunning]
      exact hattach
  | processTimers => cases ha
  | callbackReturns => cases ha

theorem settingUp_foldl {w : World τ} (h : SettingUp w) (actions : List (Action τ))
    (hsetup : ∀ a ∈ actions, Setup a) : SettingUp (actions.foldl step w) := by
  induction actions generalizing w with
  | nil => exact h
  | cons a actions ih =>
      exact ih (settingUp_step h (hsetup a List.mem_cons_self))
        fun a ha => hsetup a (List.mem_cons_of_mem _ ha)

theorem mark_step (w : World τ) {a : Action τ} (ha : Setup a) :
    (step w a).manager.timeMark = w.manager.timeMark ∧ (step w a).callTime = w.callTime ∧
      w.clock ≤ (step w a).clock := by
  cases a with
  | advance n => exact ⟨rfl, rfl, Nat.le_add_right _ _⟩
  | start timer duration =>
      exact ⟨(start_fields w.manager _ timer duration).2, rfl, le_rfl⟩
  | stop timer => exact ⟨(detach_fields w.manager timer).2.1, rfl, le_rfl⟩
  | processTimers => cases ha
  | callbackReturns => cases ha

theorem mark_foldl (w : World τ) (actions : List (Action τ)) (hsetup : ∀ a ∈ actions, Setup a) :
    (actions.foldl step w).manager.timeMark = w.manager.timeMark ∧
      (actions.foldl step w).callTime = w.callTime ∧ w.clock ≤ (actions.foldl step w).clock := by
  induction actions generalizing w with
  | nil => exact ⟨rfl, rfl, le_rfl⟩
  | cons a actions ih =>
      obtain ⟨hmark, hcall, hclock⟩ := mark_step w (hsetup a List.mem_cons_self)
      obtain ⟨hmark', hcall', hclock'⟩ := ih (step w a)
        fun a ha => hsetup a (List.mem_cons_of_mem _ ha)
      exact ⟨hmark'.trans hmark, hcall'.trans hcall, hclock.trans hclock'⟩

omit [DecidableEq τ] in
theorem inv_counted {w : World τ} (h : SettingUp w) {base : Nat} (hbase : base ≤ w.clock) :
    Inv (counted base w) := by
  obtain ⟨htick, hnil, -⟩ := h.inv.idle h.expiring
  have hzero : (counted 0 w).base = 0 := Nat.zero_sub _
  have hat : (counted base w).base = base := by simp [World.base, counted, h.expiring]
  have hdeadlines : deadlines base w.manager.counters =
      (deadlines 0 w.manager.counters).map fun p => (p.1, base + p.2) :=
    schedule_add base 0 w.manager.counters
  have hentries : Represents (deadlines 0 w.manager.counters) (counted 0 w).running :=
    represents_counters h.inv h.expiring
  have hbound := h.inv.bound
  rw [hzero] at hbound
  refine ⟨rfl, hbase, fun _ => ⟨htick, hnil, rfl⟩, fun msec hbusy => ?_, ?_, fun p hp => ?_,
    fun e he => ?_, h.inv.ordered⟩
  · cases h.expiring.symm.trans hbusy
  · have hpending : (counted base w).manager.pendingAttach = [] := hnil
    have hrunning : (counted base w).running =
        fun timer => ((counted 0 w).running timer).map (base + ·) := by
      funext timer
      simp only [counted, Option.map_map, Function.comp_def, Nat.zero_add]
    rw [World.entries, hpending, List.map_nil, List.append_nil, hat, hrunning]
    exact hdeadlines ▸ hentries.add base
  · rw [hat] at hp ⊢
    obtain ⟨p', hp', rfl⟩ := List.mem_map.mp (hdeadlines ▸ hp)
    have hlt := hbound p' hp'
    simp only
    omega
  · have hnone : (counted base w).expirations = [] := h.expired
    rw [hnone] at he
    cases he

theorem countedStep_cases {w : World τ} {a : Action τ} (hpaced : Paced w a) :
    (∃ timer duration, a = .start timer duration) ∨ Admits w a ∧ countedStep w a = step w a := by
  cases a with
  | start timer duration => exact .inl ⟨timer, duration, rfl⟩
  | _ => exact .inr ⟨hpaced, rfl⟩

theorem inv_countedStep {w : World τ} (h : Inv w) {a : Action τ} (hpaced : Paced w a) :
    Inv (countedStep w a) := by
  rcases countedStep_cases hpaced with ⟨timer, duration, rfl⟩ | ⟨hadmits, hsame⟩
  · have hstop := inv_stop h timer
    have hnone : (step w (.stop timer)).running timer = none := Function.update_self ..
    have hattach := inv_attach hstop hnone
      (msecToCounts (detach w.manager timer) (milliseconds w.clock) duration)
    simp only [step, stop, Function.update_idem] at hattach
    exact hattach
  · rw [hsame]
    exact inv_step h a hadmits

/-- How far the one expiration of a timer is that runs to `deadline`: the time of its call, once
the call is made. -/
inductive Status (timer : τ) (deadline : Nat) (w : World τ) : Option Nat → Prop
  | waits : w.running timer = some deadline → ¬ w.Due timer deadline →
      w.expirationsOf timer = [] → Status timer deadline w none
  | due : w.running timer = some deadline → w.Due timer deadline →
      w.expirationsOf timer = [] → Status timer deadline w (some w.callTime)
  | done (call : Nat) : w.running timer = none →
      w.expirationsOf timer = [⟨timer, deadline, call⟩] → Status timer deadline w (some call)

variable {timer : τ} {deadline : Nat}

theorem status_start {w : World τ} (h : Inv w) {called : Option Nat}
    (hstatus : Status timer deadline w called) {timer' : τ} (hne : timer ≠ timer')
    (duration : UInt32) :
    Status timer deadline (countedStep w (.start timer' duration)) called := by
  obtain ⟨-, hexps, hcall, hdue⟩ :=
    due_other h (a := .start timer' duration) deadline ⟨timer', hne, .inr ⟨duration, rfl⟩⟩
  have hrunning : (countedStep w (.start timer' duration)).running timer = w.running timer :=
    Function.update_of_ne hne _ _
  cases hstatus with
  | waits hrun hwaits hnone =>
      exact .waits (hrunning.trans hrun) (fun hdue' => hwaits (hdue.mp hdue')) (hexps.trans hnone)
  | due hrun hdue' hnone =>
      exact .due (hrunning.trans hrun) (hdue.mpr hdue') (hexps.trans hnone)
  | done call hrun hone => exact .done call (hrunning.trans hrun) (hexps.trans hone)

theorem status_calls {w : World τ} (h : Inv w) (hstatus : Status timer deadline w none)
    (hpaced : Paced w .processTimers) (hcalls : Calls w deadline .processTimers) :
    Status timer deadline (step w .processTimers) (some w.clock) := by
  cases hstatus with
  | waits hrun hwaits hnone =>
      rcases step_of_waiting h (a := .processTimers) hpaced id id hrun hwaits with
        ⟨-, ⟨hrun', hexps⟩ | ⟨hrun', hexps, hcall, hdue⟩⟩ | ⟨hnot, -⟩
      · exact .done w.clock hrun' (by rw [hexps, hnone])
      · exact hcall ▸ .due hrun' hdue (hexps.trans hnone)
      · exact absurd hcalls hnot

/-- Nothing else makes the call that expires the timer. -/
theorem status_keeps {w : World τ} (h : Inv w) {called : Option Nat}
    (hstatus : Status timer deadline w called) {a : Action τ} (hpaced : Paced w a)
    (hothers : ¬ a.Starts timer ∧ ¬ a.Stops timer)
    (hcalls : called = none → ¬ Calls w deadline a) :
    Status timer deadline (countedStep w a) called := by
  rcases countedStep_cases hpaced with ⟨timer', duration, rfl⟩ | ⟨hadmits, hsame⟩
  · exact status_start h hstatus (fun heq => hothers.1 heq.symm) duration
  rw [hsame]
  cases hstatus with
  | waits hrun hwaits hnone =>
      rcases step_of_waiting h hadmits hothers.1 hothers.2 hrun hwaits with
        ⟨hcall, -⟩ | ⟨-, hrun', hexps, hwaits'⟩
      · exact absurd hcall (hcalls rfl)
      · exact .waits hrun' hwaits' (hexps.trans hnone)
  | due hrun hdue hnone =>
      rcases step_of_due h hadmits hothers.1 hothers.2 hrun hdue with
        ⟨hrun', hexps⟩ | ⟨hrun', hexps, hcall, hdue'⟩
      · exact .done w.callTime hrun' (by rw [hexps, hnone])
      · exact hcall ▸ .due hrun' hdue' (hexps.trans hnone)
  | done call hrun hone =>
      obtain ⟨hrun', hexps⟩ := step_of_not_running h hadmits hothers.1 hrun
      exact .done call hrun' (hexps.trans hone)

omit [DecidableEq τ] in
theorem calls_of_ne (next : World τ → Action τ → World τ) (w : World τ) {a : Action τ}
    (hne : a ≠ .processTimers) (actions : List (Action τ)) :
    calls next w (a :: actions) = calls next (next w a) actions := by
  cases a with
  | processTimers => exact absurd rfl hne
  | _ => rfl

theorem callTime_countedStep (w : World τ) {a : Action τ} (hne : a ≠ .processTimers) :
    (countedStep w a).callTime = w.callTime := by
  cases a with
  | processTimers => exact absurd rfl hne
  | callbackReturns =>
      simp only [countedStep, step]
      cases w.expiring with
      | none => rfl
      | some msec => exact callTime_proceed w _
  | _ => rfl

/-- Before the timer is called back the last call was at `base` or before the deadline, so that a
call after `base` that comes to the deadline finds the clock advanced. -/
theorem status_processTimers {w : World τ} (h : Inv w) {base : Nat} {called : Option Nat}
    (hstatus : Status timer deadline w called) (hpaced : Paced w .processTimers)
    (hbase : base ≤ w.callTime)
    (hbefore : called = none → w.callTime = base ∨ w.callTime < deadline) :
    Status timer deadline (step w .processTimers)
      (called.or (if base < w.clock ∧ deadline ≤ w.clock then some w.clock else none)) := by
  have hle := h.callTime_le
  cases called with
  | some call =>
      rw [Option.some_or]
      exact status_keeps h hstatus hpaced ⟨id, id⟩ fun hnone => by cases hnone
  | none =>
      have hwait := hbefore rfl
      rw [Option.none_or]
      split_ifs with hcomes
      · exact status_calls h hstatus hpaced ⟨by omega, hcomes.2⟩
      · refine status_keeps h hstatus hpaced ⟨id, id⟩ fun _ hcalls => ?_
        obtain ⟨hlt, hdeadline⟩ := hcalls
        omega

/-- Over a run the timer is called back by the first call after `base` that comes to the
deadline. -/
theorem status_foldl {w : World τ} (h : Inv w) {base : Nat} {called : Option Nat}
    (hstatus : Status timer deadline w called) (actions : List (Action τ))
    (hpaced : AllPaced countedStep w actions)
    (hothers : ∀ a ∈ actions, ¬ a.Starts timer ∧ ¬ a.Stops timer) (hbase : base ≤ w.callTime)
    (hbefore : called = none → w.callTime = base ∨ w.callTime < deadline) :
    Status timer deadline (actions.foldl countedStep w)
      (called.or ((calls countedStep w actions).find? fun c => base < c ∧ deadline ≤ c)) := by
  induction actions generalizing w called with
  | nil =>
      rw [calls, List.find?_nil, Option.or_none]
      exact hstatus
  | cons a actions ih =>
      have hinv := inv_countedStep h hpaced.1
      have htail := fun b hb => hothers b (List.mem_cons_of_mem _ hb)
      rcases eq_or_ne a .processTimers with rfl | hne
      · have hclock : (countedStep w .processTimers).callTime = w.clock := callTime_proceed _ _
        have hle := h.callTime_le
        have hrest := ih hinv (status_processTimers h hstatus hpaced.1 hbase hbefore) hpaced.2
          htail (by omega) fun hnone => by
            obtain ⟨-, hnot⟩ := Option.or_eq_none_iff.mp hnone
            have hearly : ¬ (base < w.clock ∧ deadline ≤ w.clock) := fun hcomes => by
              rw [if_pos hcomes] at hnot
              cases hnot
            omega
        rw [Option.or_assoc] at hrest
        rw [calls]
        rcases Classical.em (base < w.clock ∧ deadline ≤ w.clock) with hcomes | hcomes
        · rw [List.find?_cons_of_pos (by simpa using hcomes)]
          rwa [if_pos hcomes, Option.some_or] at hrest
        · rw [List.find?_cons_of_neg (by simpa using hcomes)]
          rwa [if_neg hcomes, Option.none_or] at hrest
      · have hkeeps : called = none → ¬ Calls w deadline a := by
          rintro - hcalls
          cases a with
          | processTimers => exact hne rfl
          | _ => cases hcalls
        rw [calls_of_ne _ _ hne]
        refine ih hinv (status_keeps h hstatus hpaced.1 (hothers a List.mem_cons_self) hkeeps)
          hpaced.2 htail ?_ ?_
        · rwa [callTime_countedStep w hne]
        · rwa [callTime_countedStep w hne]

end Counted

/-- A timer that the calls expire from `counted` on is on time just when no call comes between
`counted` and the deadline. -/
theorem punctual_find {deadline counted : Nat} {calls : List Nat}
    (hsorted : calls.Pairwise (· ≤ ·)) :
    Punctual deadline calls (calls.find? (counted ≤ ·)).toList ↔
      ∀ c ∈ calls, (deadline < c → counted ≤ c) ∧ (counted ≤ c → deadline ≤ c) := by
  cases hfind : calls.find? (counted ≤ ·) with
  | none =>
      have hnever : ∀ c ∈ calls, ¬ counted ≤ c := by simpa using hfind
      constructor
      · rintro (⟨earlier, call, later, -, hexpired, -⟩ | ⟨-, hall⟩) c hc
        · cases hexpired
        · have hlate := hall c hc
          exact ⟨fun hlt => by omega, fun hle => absurd hle (hnever c hc)⟩
      · refine fun hgap => .inr ⟨rfl, fun c hc => ?_⟩
        have hlate := (hgap c hc).1
        have hnot := hnever c hc
        omega
  | some call =>
      obtain ⟨hcall, earlier, later, hcalls, hearlier⟩ := List.find?_eq_some_iff_append.mp hfind
      have hbefore : ∀ c ∈ earlier, c < counted := by simpa using hearlier
      rw [decide_eq_true_eq] at hcall
      rw [hcalls] at hsorted ⊢
      constructor
      · rintro (⟨earlier', call', later', heq, hexpired, hdeadline, hall⟩ | ⟨hexpired, -⟩)
        · cases hexpired
          intro c hc
          have hlater := List.pairwise_cons.mp (List.pairwise_append.mp hsorted).2.1
          have hlater' := List.pairwise_cons.mp (List.pairwise_append.mp (heq ▸ hsorted)).2.1
          refine ⟨fun hlt => ?_, fun hle => ?_⟩
          · rw [heq] at hc
            rcases List.mem_append.mp hc with hmem | hmem
            · exact absurd hlt (Nat.not_lt.mpr (hall c hmem))
            · rcases List.mem_cons.mp hmem with rfl | hmem
              · exact hcall
              · exact hcall.trans (hlater'.1 c hmem)
          · rcases List.mem_append.mp hc with hmem | hmem
            · exact absurd hle (Nat.not_le.mpr (hbefore c hmem))
            · rcases List.mem_cons.mp hmem with rfl | hmem
              · exact hdeadline
              · exact hdeadline.trans (hlater.1 c hmem)
        · cases hexpired
      · refine fun hgap => .inl ⟨earlier, call, later, rfl, rfl, ?_, fun c hc => ?_⟩
        · exact (hgap call (by simp)).2 hcall
        · have hlate := (hgap c (List.mem_append_left _ hc)).1
          have hlt := hbefore c hc
          omega

section Punctuality

variable [DecidableEq τ]

theorem clock_le_step (w : World τ) (a : Action τ) : w.clock ≤ (step w a).clock := by
  cases a with
  | advance n => exact Nat.le_add_right _ _
  | start timer duration => exact le_rfl
  | stop timer => exact le_rfl
  | processTimers => exact (clock_proceed { w with callTime := w.clock } _).ge
  | callbackReturns =>
      simp only [step]
      split
      · exact le_rfl
      · exact (clock_proceed w _).ge

theorem calls_sorted (w : World τ) (actions : List (Action τ)) :
    (calls step w actions).Pairwise (· ≤ ·) ∧ ∀ c ∈ calls step w actions, w.clock ≤ c := by
  induction actions generalizing w with
  | nil => exact ⟨List.Pairwise.nil, fun c hc => by cases hc⟩
  | cons a actions ih =>
      obtain ⟨hsorted, hle⟩ := ih (step w a)
      have hfrom : ∀ c ∈ calls step (step w a) actions, w.clock ≤ c := fun c hc =>
        (clock_le_step w a).trans (hle c hc)
      rcases eq_or_ne a .processTimers with rfl | hne
      · rw [calls]
        refine ⟨List.pairwise_cons.mpr ⟨hfrom, hsorted⟩, fun c hc => ?_⟩
        rcases List.mem_cons.mp hc with rfl | hmem
        · exact le_rfl
        · exact hfrom c hmem
      · rw [calls_of_ne _ _ hne]
        exact ⟨hsorted, hfrom⟩

theorem sameRun_first {w : World τ} {base : Nat} (hmark : w.manager.timeMark = milliseconds base) :
    SameRun (step w .processTimers) (countedStep (counted base w) .processTimers) := by
  have hmanager : processTimers (counted base w).manager (milliseconds w.clock) =
      processTimers w.manager (milliseconds w.clock) := by
    rw [processTimers, processTimers]
    simp only [counted, ← hmark]
  simp only [step, countedStep]
  rw [show (counted base w).clock = w.clock from rfl, hmanager]
  exact sameRun_proceed (w := { w with callTime := w.clock })
    (v := { counted base w with callTime := w.clock }) rfl rfl rfl _

theorem expiredAt_of_status {timer : τ} {deadline : Nat} {w : World τ} {called : Option Nat}
    (h : Status timer deadline w called) (hidle : w.expiring = none) :
    expiredAt w timer = called.toList := by
  cases h with
  | waits hrun hwaits hnone => rw [expiredAt, hnone]; rfl
  | due hrun hdue hnone => exact absurd hidle hdue.1
  | done call hrun hone => rw [expiredAt, hone]; rfl

/-- A timer started before the first `processTimers()` call expires once its deadline is counted
down from the time of `startManager()`. -/
theorem expiredAt_settingUp {w : World τ} (hsetting : SettingUp w) {base : Nat}
    (hmark : w.manager.timeMark = milliseconds base) (hcall : w.callTime = base)
    (hbase : base ≤ w.clock) {timer : τ} {deadline : Nat}
    (hrunning : w.running timer = some deadline) (rest : List (Action τ))
    (hpaced : AllPaced step w (.processTimers :: rest))
    (hothers : ∀ a ∈ rest, ¬ a.Starts timer ∧ ¬ a.Stops timer)
    (hidle : ((.processTimers :: rest).foldl step w).expiring = none) :
    expiredAt ((.processTimers :: rest).foldl step w) timer =
      ((calls step w (.processTimers :: rest)).find? (countedDown base deadline ≤ ·)).toList := by
  have hinv : Inv (counted base w) := inv_counted hsetting hbase
  have hstatus : Status timer (base + deadline % 2 ^ 32) (counted base w) none := by
    refine .waits ?_ ?_ ?_
    · simp only [counted, hrunning, Option.map_some]
    · exact fun hdue => hdue.1 hsetting.expiring
    · rw [World.expirationsOf, counted, hsetting.expired, List.filter_nil]
  obtain ⟨hsame, hcalls, hpaced'⟩ := sameRun_foldl (sameRun_first hmark) rest
  have hfirst : Paced (counted base w) .processTimers := by
    rw [← hcall]
    exact hpaced.1
  have hend := status_foldl hinv hstatus (.processTimers :: rest) ⟨hfirst, hpaced' hpaced.2⟩
    (List.forall_mem_cons.mpr ⟨⟨id, id⟩, hothers⟩) le_rfl fun _ => .inl rfl
  have hcounted : ∀ c, countedDown base deadline ≤ c ↔
      base < c ∧ base + deadline % 2 ^ 32 ≤ c := by
    intro c
    rw [countedDown]
    omega
  rw [List.foldl_cons, Option.none_or] at hend
  rw [List.foldl_cons] at hidle ⊢
  rw [expiredAt_same hsame, expiredAt_of_status hend (hsame.expiring ▸ hidle)]
  simp only [calls, hcalls, hcounted]
  rfl

/-- For every time of `startManager()` and all timers started before the first `processTimers()`
call: a timer expires at the first call at or after its deadline, or no more than one tick later,
if and only if no call comes between the deadline and the time from which on the manager, which
counts the deadline down from the time of `startManager()`, expires it. -/
theorem punctual_iff (early late rest : List (Action τ)) (timer : τ) (deadline : Nat)
    (hearly : ∀ a ∈ early, Setup a) (hlate : ∀ a ∈ late, Setup a)
    (hrunning : (setUp early late).running timer = some deadline)
    (hpaced : AllPaced step (setUp early late) (.processTimers :: rest))
    (hothers : ∀ a ∈ rest, ¬ a.Starts timer ∧ ¬ a.Stops timer)
    (hidle : ((.processTimers :: rest).foldl step (setUp early late)).expiring = none) :
    Punctual deadline (calls step (setUp early late) (.processTimers :: rest))
        (expiredAt ((.processTimers :: rest).foldl step (setUp early late)) timer) ↔
      ∀ c ∈ calls step (setUp early late) (.processTimers :: rest),
        (deadline < c → countedDown (early.foldl step constructed).clock deadline ≤ c) ∧
        (countedDown (early.foldl step constructed).clock deadline ≤ c → deadline ≤ c) := by
  have hsetting : SettingUp (setUp early late) :=
    settingUp_foldl (settingUp_startedAt (settingUp_foldl settingUp_constructed early hearly)) late
      hlate
  obtain ⟨hmark, hcall, hclock⟩ := mark_foldl (startedAt (early.foldl step constructed)) late hlate
  rw [expiredAt_settingUp hsetting hmark hcall hclock hrunning rest hpaced hothers hidle]
  exact punctual_find (calls_sorted _ _).1

/-- `startManager()` at time zero: a timer of 10 ms started at 3 ms expires at the call at 15 ms. -/
theorem punctual_at_zero :
    Punctual 13
      (calls step (setUp [] [.advance 3, .start 7 10, .advance 9])
        [.processTimers, .advance 3, .processTimers, .callbackReturns])
      (expiredAt ([.processTimers, .advance 3, .processTimers, .callbackReturns].foldl step
        (setUp [] [.advance 3, .start 7 10, .advance 9])) 7) :=
  (punctual_iff [] [.advance 3, .start 7 10, .advance 9]
    [.advance 3, .processTimers, .callbackReturns] 7 13 (by simp) (by simp [Setup]) (by decide)
    (by simp [AllPaced, Paced]; decide) (by simp [Action.Starts, Action.Stops]) rfl).mpr
    (by decide)

/-- `startManager()` at 1000 ms: a timer of 10 ms that is started then expires 1000 ms late, past
the calls at 1015 ms and at 2000 ms. -/
theorem not_punctual_started_late :
    ¬ ∀ (early late rest : List (Action Nat)) (timer deadline : Nat),
      (∀ a ∈ early, Setup a) → (∀ a ∈ late, Setup a) →
      (setUp early late).running timer = some deadline →
      AllPaced step (setUp early late) (.processTimers :: rest) →
      (∀ a ∈ rest, ¬ a.Starts timer ∧ ¬ a.Stops timer) →
      ((.processTimers :: rest).foldl step (setUp early late)).expiring = none →
      Punctual deadline (calls step (setUp early late) (.processTimers :: rest))
        (expiredAt ((.processTimers :: rest).foldl step (setUp early late)) timer) := by
  intro h
  have hrun := h [.advance 1000] [.start 7 10, .advance 15]
    [.advance 985, .processTimers, .advance 10, .processTimers, .callbackReturns] 7 1010
    (by simp [Setup]) (by simp [Setup]) (by decide) (by simp [AllPaced, Paced]; decide)
    (by simp [Action.Starts, Action.Stops]) rfl
  have hcalls : calls step (setUp [.advance 1000] [.start 7 10, .advance 15]) [.processTimers,
      .advance 985, .processTimers, .advance 10, .processTimers, .callbackReturns] =
      [1015, 2000, 2010] := by decide
  have hexpired : expiredAt ([.processTimers, .advance 985, .processTimers, .advance 10,
      .processTimers, .callbackReturns].foldl step
        (setUp [.advance 1000] [.start 7 10, .advance 15])) 7 = [2010] := by decide
  rw [hcalls, hexpired] at hrun
  rcases hrun with ⟨earlier, call, later, hsplit, hcall, -, hall⟩ | ⟨hnone, -⟩
  · cases hcall
    cases earlier with
    | nil => cases hsplit
    | cons c earlier =>
        have hfirst := hall c List.mem_cons_self
        rw [List.cons_append, List.cons.injEq] at hsplit
        omega
  · cases hnone

end Punctuality

end ColonyPico.System.StartupTimers
