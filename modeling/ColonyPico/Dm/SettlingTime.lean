import ColonyPico.System.TimerRuns

/-!
When a record writes its changed model points to its media
(`Cpl::Dm::Persistent::Record`).

The record is itself a timer of its thread. Here it is the timer `none`; the other
timers of the thread are `some` timers.
-/

namespace ColonyPico.Dm.SettlingTime

open ColonyPico.System.ElapsedTime
open ColonyPico.System.TimerManager
open ColonyPico.System.TimerRuns

/-- `m_delayMs` and `m_maxDelayMs`. -/
structure Delays where
  delayMs : UInt32
  maxDelayMs : UInt32
  deriving DecidableEq, Repr

/-- The times of the first and of the latest change that is not yet on the media. -/
structure Burst where
  first : Nat
  latest : Nat
  deriving DecidableEq, Repr

/-- A write of the record: its time, and the changes it is for. -/
structure Write where
  time : Nat
  burst : Option Burst
  deriving DecidableEq, Repr

structure State (τ : Type) where
  thread : World (Option τ)
  timerMarker : UInt32
  /-- `m_count` while the record's timer is in none of the manager's lists. -/
  stoppedCount : UInt32
  unwritten : Option Burst
  writes : List Write

inductive Event (τ : Type) where
  | dataChanged
  | thread (action : Action τ)

variable {τ : Type}

/-- The thread goes on without the record. -/
def others : Action τ → Action (Option τ)
  | .advance n => .advance n
  | .start timer duration => .start (some timer) duration
  | .stop timer => .stop (some timer)
  | .processTimers => .processTimers
  | .callbackReturns => .callbackReturns

/-- The entries of the manager's lists. -/
def attached (s : State τ) : List (Counter (Option τ)) :=
  s.thread.manager.counters ++ s.thread.manager.pendingAttach

variable [DecidableEq τ]

/-- The record's timer is in one of the manager's lists. -/
def TimerRunning (s : State τ) : Prop :=
  none ∈ (attached s).map Counter.timer

instance (s : State τ) : Decidable (TimerRunning s) :=
  inferInstanceAs (Decidable (none ∈ (attached s).map Counter.timer))

/-- `Timer::count()`. An active counter counts from the one before it. -/
def count (s : State τ) : UInt32 :=
  match (attached s).find? fun c => c.timer = none with
  | none => s.stoppedCount
  | some c => c.count

def updateNVRAM (s : State τ) : State τ :=
  { s with writes := ⟨s.thread.clock, s.unwritten⟩ :: s.writes, unwritten := none }

/-- One more change is not on the media. -/
def noteChange (s : State τ) : State τ :=
  { s with
    unwritten := some ⟨(s.unwritten.map Burst.first).getD s.thread.clock, s.thread.clock⟩ }

/-- `dataChanged()`. Stopping the timer leaves its count as it is. -/
def dataChanged (d : Delays) (s : State τ) : State τ :=
  let s := noteChange s
  if d.delayMs = 0 then updateNVRAM s
  else
    let now := milliseconds s.thread.clock
    let s := if count s = 0 then { s with timerMarker := now } else s
    if expiredMilliseconds s.timerMarker d.maxDelayMs now then
      updateNVRAM { s with thread := step s.thread (.stop none), stoppedCount := count s }
    else { s with thread := step s.thread (.start none d.delayMs) }

/-- `expired()`; `tick()` has counted the timer down to zero. -/
def expired (s : State τ) : State τ :=
  updateNVRAM { s with stoppedCount := 0 }

def advance (d : Delays) (s : State τ) : Event τ → State τ
  | .dataChanged => dataChanged d s
  | .thread action =>
      let moved := { s with thread := step s.thread (others action) }
      if calledBack s.thread (others action) = some none then expired moved else moved

/-- A record on a thread whose manager was started at `started` and has processed its
timers at `first`. -/
def State.init (started first : Nat) : State τ :=
  { thread := World.init started first
    timerMarker := 0
    stoppedCount := 0
    unwritten := none
    writes := [] }

/-- The write comes when the changes have settled, or when the first of them has waited
for the maximum delay. -/
def Write.InTime (d : Delays) (w : Write) : Prop :=
  ∃ b, w.burst = some b ∧
    (b.latest + d.delayMs.toNat ≤ w.time ∨ b.first + d.maxDelayMs.toNat ≤ w.time)

/-- No change is forgotten, and every write so far came in time. -/
def Settles (d : Delays) (s : State τ) : Prop :=
  (s.unwritten ≠ none → TimerRunning s) ∧ ∀ w ∈ s.writes, w.InTime d

/-- A change that finds the timer stopped finds no count left over from a stop, and the
timer's new count is in range; the thread processes its timers before the clock rolls
over twice. -/
def ArmsCleanly (d : Delays) (s : State τ) : Event τ → Prop
  | .dataChanged =>
      (¬ TimerRunning s → s.stoppedCount = 0) ∧
        d.delayMs.toNat + (s.thread.clock - s.thread.callTime) < 2 ^ 32
  | .thread action => Admits s.thread (others action)

/-- The events of a run arm the timer cleanly, one after the other. -/
def AllArmCleanly (d : Delays) : State τ → List (Event τ) → Prop
  | _, [] => True
  | s, e :: events => ArmsCleanly d s e ∧ AllArmCleanly d (advance d s e) events

/-- The state after the events of a run. -/
def run (d : Delays) (started first : Nat) (events : List (Event τ)) : State τ :=
  events.foldl (advance d) (State.init started first)

/-- The invariant: the timer runs for the unwritten changes and for nothing else, and the
marker is not before the first of them. -/
structure Kept (d : Delays) (s : State τ) : Prop where
  thread : Inv s.thread
  running : s.thread.running none = s.unwritten.map fun b => b.latest + d.delayMs.toNat
  marker : ∀ b, s.unwritten = some b →
    ∃ mark, b.first ≤ mark ∧ mark ≤ s.thread.clock ∧ s.timerMarker = milliseconds mark
  writes : ∀ w ∈ s.writes, w.InTime d

variable {d : Delays} {s : State τ}

omit [DecidableEq τ] in
theorem timerRunning_iff (h : Inv s.thread) : TimerRunning s ↔ s.thread.running none ≠ none := by
  have htimers : s.thread.entries.map Prod.fst = (attached s).map Counter.timer := by
    rw [World.entries, attached, List.map_append, List.map_append, map_fst_deadlines,
      List.map_map]
    rfl
  rw [TimerRunning, ← htimers]
  constructor
  · intro hmem hnone
    exact h.entries.notMem hnone hmem
  · intro hrunning
    obtain ⟨deadline, hdeadline⟩ := Option.ne_none_iff_exists'.mp hrunning
    exact List.mem_map_of_mem ((h.entries.mem_iff none deadline).mpr hdeadline)

omit [DecidableEq τ] in
theorem count_of_not_running (h : ¬ TimerRunning s) : count s = s.stoppedCount := by
  have hfind : (attached s).find? (fun c => c.timer = none) = none := by
    refine List.find?_eq_none.mpr fun c hc => ?_
    rw [decide_eq_true_eq]
    exact fun htimer => h (List.mem_map.mpr ⟨c, hc, htimer⟩)
  rw [count, hfind]

theorem kept_start {mark : Nat} (h : Kept d s)
    (hfirst : ∀ b, s.unwritten = some b → b.first ≤ mark)
    (hmark : mark ≤ s.thread.clock) (hnone : s.unwritten = none → mark = s.thread.clock)
    (hrange : d.delayMs.toNat + (s.thread.clock - s.thread.callTime) < 2 ^ 32) :
    Kept d
      { noteChange s with
        timerMarker := milliseconds mark
        thread := step s.thread (.start none d.delayMs) } := by
  refine ⟨inv_start h.thread none d.delayMs hrange, ?_, ?_, h.writes⟩
  · exact Function.update_self none _ s.thread.running
  rintro b ⟨⟩
  refine ⟨mark, ?_, hmark, rfl⟩
  cases hunwritten : s.unwritten with
  | none => exact le_of_eq (hnone hunwritten).symm
  | some b => exact hfirst b hunwritten

theorem kept_stop {b : Burst} (h : Kept d s) (hb : s.unwritten = some b)
    (hdelay : b.first + d.maxDelayMs.toNat ≤ s.thread.clock) (marker stoppedCount : UInt32) :
    Kept d
      (updateNVRAM
        { noteChange s with
          thread := step s.thread (.stop none)
          timerMarker := marker
          stoppedCount := stoppedCount }) := by
  refine ⟨inv_stop h.thread none, ?_, ?_, ?_⟩
  · exact Function.update_self none _ s.thread.running
  · rintro b' ⟨⟩
  · intro w hw
    rcases List.mem_cons.mp hw with rfl | hbefore
    · refine ⟨⟨b.first, s.thread.clock⟩, ?_, .inr hdelay⟩
      simp only [noteChange, hb, Option.map_some, Option.getD_some]
    · exact h.writes w hbefore

theorem kept_dataChanged (hpos : 0 < d.delayMs) (hle : d.delayMs ≤ d.maxDelayMs) (h : Kept d s)
    (harms : ArmsCleanly d s .dataChanged) : Kept d (dataChanged d s) := by
  obtain ⟨hcount, hrange⟩ := harms
  have hdelay : d.delayMs ≠ 0 := (UInt32.ne_of_lt hpos).symm
  have hsame : count (noteChange s) = count s := rfl
  have hclock : (noteChange s).thread = s.thread := rfl
  simp only [dataChanged, if_neg hdelay, hsame, hclock]
  by_cases hzero : count s = 0
  · -- a running timer may have this count too; the marker then moves to a later change
    have hfresh : expiredMilliseconds (milliseconds s.thread.clock) d.maxDelayMs
        (milliseconds s.thread.clock) = false :=
      not_expiredMilliseconds_self _ _ (UInt32.lt_of_lt_of_le hpos hle)
    simp only [if_pos hzero, hfresh, Bool.false_eq_true, if_false]
    refine kept_start h (fun b hb => ?_) le_rfl (fun _ => rfl) hrange
    obtain ⟨mark, hfirst, hmark, -⟩ := h.marker b hb
    exact hfirst.trans hmark
  · have hrunning : TimerRunning s := by
      by_contra hstopped
      exact hzero ((count_of_not_running hstopped).trans (hcount hstopped))
    rw [timerRunning_iff h.thread, h.running, ne_eq, Option.map_eq_none_iff] at hrunning
    obtain ⟨b, hb⟩ := Option.ne_none_iff_exists'.mp hrunning
    obtain ⟨mark, hfirst, hmark, hmarker⟩ := h.marker b hb
    have hmarker' : (noteChange s).timerMarker = milliseconds mark := hmarker
    simp only [if_neg hzero, hmarker']
    split_ifs with hexpired
    · have hpassed := le_of_expiredMilliseconds mark s.thread.clock d.maxDelayMs hmark hexpired
      exact kept_stop h hb (by omega) _ _
    · refine kept_start (s := s) h (fun b' hb' => ?_) hmark
        (fun hnone => absurd hnone hrunning) hrange
      rw [hb] at hb'
      exact Option.some.inj hb' ▸ hfirst

omit [DecidableEq τ] in
theorem others_neither (action : Action τ) :
    ¬ (others action).Starts none ∧ ¬ (others action).Stops none := by
  cases action <;> simp [others, Action.Starts, Action.Stops]

theorem clock_step_others (w : World (Option τ)) (action : Action τ) :
    w.clock ≤ (step w (others action)).clock := by
  cases action with
  | advance n => exact Nat.le_add_right _ _
  | start timer duration => exact le_rfl
  | stop timer => exact le_rfl
  | processTimers =>
      simp only [others, step, World.proceed]
      split <;> exact le_rfl
  | callbackReturns =>
      simp only [others, step]
      split
      · exact le_rfl
      · simp only [World.proceed]
        split <;> exact le_rfl

theorem kept_thread (h : Kept d s) (action : Action τ)
    (harms : ArmsCleanly d s (.thread action)) : Kept d (advance d s (.thread action)) := by
  obtain ⟨hstarts, hstops⟩ := others_neither action
  obtain ⟨hcalled, hother⟩ := running_step h.thread harms hstarts hstops
  have hinv := inv_step h.thread (others action) harms
  have hclock := clock_step_others s.thread action
  simp only [advance]
  split_ifs with hcallback
  · obtain ⟨hnone, deadline, hdeadline, hrunning⟩ := hcalled hcallback
    rw [h.running, Option.map_eq_some_iff] at hrunning
    obtain ⟨b, hb, rfl⟩ := hrunning
    refine ⟨hinv, hnone, ?_, ?_⟩
    · rintro b' ⟨⟩
    · intro w hw
      rcases List.mem_cons.mp hw with rfl | hbefore
      · exact ⟨b, hb, .inl (hdeadline.trans hclock)⟩
      · exact h.writes w hbefore
  · refine ⟨hinv, (hother hcallback).trans h.running, fun b hb => ?_, h.writes⟩
    obtain ⟨mark, hfirst, hmark, hmarker⟩ := h.marker b hb
    exact ⟨mark, hfirst, hmark.trans hclock, hmarker⟩

theorem kept_foldl (hpos : 0 < d.delayMs) (hle : d.delayMs ≤ d.maxDelayMs) (h : Kept d s)
    (events : List (Event τ)) (harms : AllArmCleanly d s events) :
    Kept d (events.foldl (advance d) s) := by
  induction events generalizing s with
  | nil => exact h
  | cons e events ih =>
      refine ih ?_ harms.2
      cases e with
      | dataChanged => exact kept_dataChanged hpos hle h harms.1
      | thread action => exact kept_thread h action harms.1

theorem kept_init (d : Delays) (started first : Nat) :
    Kept d (State.init started first : State τ) := by
  refine ⟨inv_init started first, ?_, ?_, ?_⟩
  · simp only [State.init, World.init, step, World.proceed, processTimers_init]
    rfl
  · rintro b ⟨⟩
  · intro w hw
    cases hw

omit [DecidableEq τ] in
theorem settles_of_kept (h : Kept d s) : Settles d s := by
  refine ⟨fun hunwritten => ?_, h.writes⟩
  rw [timerRunning_iff h.thread, h.running, ne_eq, Option.map_eq_none_iff]
  exact hunwritten

/-- Over every run: no change is forgotten, and every write comes in time. -/
theorem run_settles (d : Delays) (hpos : 0 < d.delayMs) (hle : d.delayMs ≤ d.maxDelayMs)
    (started first : Nat) (events : List (Event τ))
    (h : AllArmCleanly d (State.init started first) events) :
    Settles d (run d started first events) :=
  settles_of_kept (kept_foldl hpos hle (kept_init d started first) events h)

/-- Two changes that settle, on a thread with another timer of the same deadline. -/
theorem run_settles_burst :
    Settles ⟨10, 15⟩
      (run ⟨10, 15⟩ 0 100 [.dataChanged, .thread (.advance 8), .thread .processTimers,
        .thread (.start 7 10), .dataChanged, .thread (.advance 12), .thread .processTimers,
        .thread .callbackReturns]) :=
  run_settles (τ := Nat) ⟨10, 15⟩ (by decide) (by decide) 0 100 _ (by
    simp only [AllArmCleanly, ArmsCleanly, Admits, others]
    decide)

/-- A write at the maximum delay stops the timer with a count left. The next change takes
the timer for running and is written at once. -/
theorem run_settles_fails_after_maxDelay :
    ¬ Settles ⟨10, 15⟩
      (run (τ := Nat) ⟨10, 15⟩ 0 100 [.dataChanged, .thread (.advance 8), .thread .processTimers,
        .dataChanged, .thread (.advance 8), .thread .processTimers, .dataChanged,
        .thread (.advance 4), .thread .processTimers, .dataChanged]) := by
  intro h
  have hwrites : (run (τ := Nat) ⟨10, 15⟩ 0 100 [.dataChanged, .thread (.advance 8),
      .thread .processTimers, .dataChanged, .thread (.advance 8), .thread .processTimers,
      .dataChanged, .thread (.advance 4), .thread .processTimers, .dataChanged]).writes =
      [⟨120, some ⟨120, 120⟩⟩, ⟨116, some ⟨100, 116⟩⟩] := by
    set_option maxRecDepth 20000 in decide
  obtain ⟨b, hb, htime⟩ := h.2 ⟨120, some ⟨120, 120⟩⟩ (by rw [hwrites]; exact List.mem_cons_self)
  injection hb with hb
  subst hb
  exact absurd htime (by decide)

end ColonyPico.Dm.SettlingTime
