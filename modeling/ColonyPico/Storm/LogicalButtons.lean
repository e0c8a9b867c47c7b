import Mathlib.Algebra.Order.Group.Nat
import Mathlib.Data.Nat.ModEq
import Mathlib.Data.Fintype.Option

/-!
The logical buttons of the display (`PicoDisplay::processLogicalButtons`): key events of pressed and
held buttons.
-/

namespace ColonyPico.Storm.LogicalButtons

inductive Button where
  | a
  | b
  | x
  | y
  deriving DecidableEq

instance : Fintype Button where
  elems := {.a, .b, .x, .y}
  complete := by
    intro button
    cases button with
    | _ => decide

inductive LogicalKey where
  | mode
  | fan
  | up
  | down
  deriving DecidableEq

/-- The hold and the repeat count, each a positive `unsigned`. -/
structure Counts where
  hold : Nat
  repeats : Nat
  hold_pos : 0 < hold
  repeats_pos : 0 < repeats
  hold_lt : hold < 2 ^ 32
  repeats_lt : repeats < 2 ^ 32

theorem Counts.default_repeats_pos : 0 < 10 := by
  decide

def Counts.default : Counts :=
  { hold := 50
    repeats := 10
    hold_pos := by decide
    repeats_pos := default_repeats_pos
    hold_lt := by decide
    repeats_lt := by decide }

structure Sample where
  a : Bool
  b : Bool
  x : Bool
  y : Bool
  deriving DecidableEq

inductive Edge where
  | none
  | pressed
  | released
  | time
  deriving DecidableEq

inductive KeyState where
  | idle
  | keyPressed
  | heldDown
  deriving DecidableEq

structure State where
  delayCounter : Nat
  pressed : Sample
  state : KeyState
  latchedKey : Option LogicalKey

def State.init : State :=
  { delayCounter := 0
    pressed := ⟨false, false, false, false⟩
    state := .idle
    latchedKey := none }

def detectEdges (currentPressedState prevPressedState : Bool) : Edge :=
  if currentPressedState ∧ ¬ prevPressedState then .pressed
  else if ¬ currentPressedState ∧ prevPressedState then .released
  else .none

/-- No key where several buttons are pressed. -/
def lookUpLogicalKey (pressedA pressedB pressedX pressedY : Bool) : Option LogicalKey :=
  match pressedA, pressedB, pressedX, pressedY with
  | true, false, false, false => some .mode
  | false, true, false, false => some .fan
  | false, false, true, false => some .up
  | false, false, false, true => some .down
  | _, _, _, _ => none

def getLogicalKey (now : Sample) (edgeA edgeB edgeX edgeY : Edge) : Option LogicalKey :=
  if edgeA = .released then lookUpLogicalKey true now.b now.x now.y
  else if edgeB = .released then lookUpLogicalKey now.a true now.x now.y
  else if edgeX = .released then lookUpLogicalKey now.a now.b true now.y
  else if edgeY = .released then lookUpLogicalKey now.a now.b now.x true
  else if edgeA = .time then lookUpLogicalKey now.a now.b now.x now.y
  else none

/-- `--delayCounter_`. -/
def decrement (delayCounter : Nat) : Nat :=
  (delayCounter + (2 ^ 32 - 1)) % 2 ^ 32

/-- `processLogicalButtons()` on a debounced sample, with the key of the event that it generates. -/
def process (counts : Counts) (s : State) (now : Sample) : State × Option LogicalKey :=
  let edgeA := detectEdges now.a s.pressed.a
  let edgeB := detectEdges now.b s.pressed.b
  let edgeX := detectEdges now.x s.pressed.x
  let edgeY := detectEdges now.y s.pressed.y
  let edges := [edgeA, edgeB, edgeX, edgeY]
  let pressedEvent := decide (.pressed ∈ edges)
  let releaseEvent := decide (.released ∈ edges)
  let s := { s with pressed := now }
  match s.state with
  | .idle =>
      if pressedEvent then ({ s with delayCounter := counts.hold, state := .keyPressed }, none)
      else (s, none)
  | .keyPressed =>
      if releaseEvent then ({ s with state := .idle }, getLogicalKey now edgeA edgeB edgeX edgeY)
      else if decrement s.delayCounter = 0 then
        let latchedKey := getLogicalKey now .time edgeB edgeX edgeY
        ({ s with
          latchedKey := latchedKey
          delayCounter := counts.repeats
          state := .heldDown }, latchedKey)
      else ({ s with delayCounter := decrement s.delayCounter }, none)
  | .heldDown =>
      if releaseEvent then ({ s with state := .idle }, s.latchedKey)
      else if decrement s.delayCounter = 0 then
        ({ s with delayCounter := counts.repeats }, s.latchedKey)
      else ({ s with delayCounter := decrement s.delayCounter }, none)

/-- The events of samples that follow each other, in order. -/
def events (counts : Counts) (s : State) : List Sample → List LogicalKey
  | [] => []
  | now :: rest =>
      (process counts s now).2.toList ++ events counts (process counts s now).1 rest

section Specification

/-- The sample of at most one pressed button. -/
def single (button : Option Button) : Sample :=
  { a := decide (button = some .a)
    b := decide (button = some .b)
    x := decide (button = some .x)
    y := decide (button = some .y) }

def keyOf : Button → LogicalKey
  | .a => .mode
  | .b => .fan
  | .x => .up
  | .y => .down

/-- The state after the samples of the past, the last one first. -/
def after (counts : Counts) (past : List (Option Button)) : State :=
  past.foldr (fun button s => (process counts s (single button)).1) State.init

/-- The number of events of a press that lasts `n` samples. -/
def expected (counts : Counts) (n : Nat) : Nat :=
  if n ≤ counts.hold then 1 else 2 + (n - 1 - counts.hold) / counts.repeats

/-- A press of `n + 1` samples that starts behind the past and ends with another sample: its first
sample has no event of its key, and the others up to its release have the expected number of events
of its key, and no other. -/
def FiresAsExpected (counts : Counts) (past : List (Option Button)) (button : Button) (n : Nat)
    (next : Option Button) : Prop :=
  (process counts (after counts past) (single (some button))).2 ≠ some (keyOf button) ∧
    events counts (after counts (some button :: past))
        (List.replicate n (single (some button)) ++ [single next]) =
      List.replicate (expected counts (n + 1)) (keyOf button)

/-- The number of presses since all buttons were released: a press starts at each sample whose
button was not pressed at the sample before. -/
def streak : List (Option Button) → Nat
  | [] => 0
  | none :: _ => 0
  | some button :: past =>
      if past.head? = some (some button) then streak past else streak past + 1

end Specification

section Edges

def last (past : List (Option Button)) : Option Button :=
  past.head?.join

/-- The edges between two samples of at most one button each. -/
def edgesBetween (before now : Sample) : List Edge :=
  [detectEdges now.a before.a, detectEdges now.b before.b, detectEdges now.x before.x,
    detectEdges now.y before.y]

theorem pressed_mem_edges : ∀ before now : Option Button,
    Edge.pressed ∈ edgesBetween (single before) (single now) ↔ now ≠ none ∧ now ≠ before := by
  decide

theorem released_mem_edges : ∀ before now : Option Button,
    Edge.released ∈ edgesBetween (single before) (single now) ↔ before ≠ none ∧ now ≠ before := by
  decide

/-- A button that is released gives its key, unless another one is pressed at the same sample. -/
theorem getLogicalKey_released : ∀ (button : Button) (next : Option Button), next ≠ some button →
    getLogicalKey (single next) (detectEdges (single next).a (single (some button)).a)
        (detectEdges (single next).b (single (some button)).b)
        (detectEdges (single next).x (single (some button)).x)
        (detectEdges (single next).y (single (some button)).y) =
      if next = none then some (keyOf button) else none := by
  decide

theorem getLogicalKey_time : ∀ button : Button,
    getLogicalKey (single (some button)) .time
        (detectEdges (single (some button)).b (single (some button)).b)
        (detectEdges (single (some button)).x (single (some button)).x)
        (detectEdges (single (some button)).y (single (some button)).y) =
      some (keyOf button) := by
  decide

end Edges

section Steps

variable {counts : Counts} {s : State} {button : Button} {before now next : Option Button}

/-- The button has been pressed for `c` samples more than the first, by the machine's count. -/
structure Held (counts : Counts) (button : Button) (c : Nat) (s : State) : Prop where
  pressed : s.pressed = single (some button)
  state : s.state = if c < counts.hold then .keyPressed else .heldDown
  delayCounter : s.delayCounter =
    if c < counts.hold then counts.hold - c else counts.repeats - (c - counts.hold) % counts.repeats
  latchedKey : counts.hold ≤ c → s.latchedKey = some (keyOf button)

theorem decrement_eq {delayCounter : Nat} (hpos : 0 < delayCounter) (hlt : delayCounter < 2 ^ 32) :
    decrement delayCounter = delayCounter - 1 := by
  rw [decrement]
  omega

theorem process_idle (hidle : s.state = .idle) (hpressed : s.pressed = single before) :
    process counts s (single now) =
      if now ≠ none ∧ now ≠ before then
        ({ s with
          pressed := single now
          delayCounter := counts.hold
          state := .keyPressed }, none)
      else ({ s with pressed := single now }, none) := by
  have hedges := pressed_mem_edges before now
  unfold edgesBetween at hedges
  unfold process
  simp only [hidle, hpressed, hedges, decide_eq_true_eq]

theorem held_start (counts : Counts) (hidle : s.state = .idle)
    (hpressed : s.pressed = single before) (hne : before ≠ some button) :
    (process counts s (single (some button))).2 = none ∧
      Held counts button 0 (process counts s (single (some button))).1 := by
  rw [process_idle hidle hpressed, if_pos ⟨by simp, fun h => hne h.symm⟩]
  refine ⟨rfl, rfl, ?_, ?_, fun hle => absurd counts.hold_pos (Nat.not_lt.2 hle)⟩
  · rw [if_pos counts.hold_pos]
  · rw [if_pos counts.hold_pos, Nat.sub_zero]

theorem process_lost (counts : Counts) (hidle : s.state = .idle)
    (hpressed : s.pressed = single before) (hsame : now = none ∨ now = before) :
    (process counts s (single now)).2 = none ∧ (process counts s (single now)).1.state = .idle ∧
      (process counts s (single now)).1.pressed = single now := by
  rw [process_idle hidle hpressed, if_neg (by tauto)]
  exact ⟨rfl, hidle, rfl⟩

theorem held_release {c : Nat} (h : Held counts button c s) (hnext : next ≠ some button) :
    (process counts s (single next)).2 =
        (if c < counts.hold ∧ next ≠ none then none else some (keyOf button)) ∧
      (process counts s (single next)).1.state = .idle ∧
      (process counts s (single next)).1.pressed = single next := by
  have hedges := (released_mem_edges (some button) next).2 ⟨by simp, hnext⟩
  have hkey := getLogicalKey_released button next hnext
  have hstate := h.state
  unfold edgesBetween at hedges
  unfold process
  simp only [h.pressed, hedges, decide_true, if_true]
  split at hstate
  case isTrue hlt =>
    simp only [hstate, hkey, hlt, true_and, and_true]
    rcases next with _ | other
    · rfl
    · rfl
  case isFalse hge =>
    simp only [hstate, hge, false_and, if_false, and_self, and_true]
    exact h.latchedKey (Nat.not_lt.1 hge)

theorem succ_mod_cases (d : Nat) {r : Nat} (hr : 0 < r) :
    (d % r + 1 = r ∧ (d + 1) % r = 0) ∨ (d % r + 1 < r ∧ (d + 1) % r = d % r + 1) := by
  have hmod : (d + 1) % r = (d % r + 1) % r := (Nat.mod_add_mod d r 1).symm
  rcases (Nat.succ_le_of_lt (Nat.mod_lt d hr)).lt_or_eq with hlt | heq
  · exact Or.inr ⟨hlt, hmod.trans (Nat.mod_eq_of_lt hlt)⟩
  · have heq' : d % r + 1 = r := heq
    exact Or.inl ⟨heq', by rw [hmod, heq', Nat.mod_self]⟩

theorem held_process {c : Nat} (h : Held counts button c s) :
    (process counts s (single (some button))).2 =
        (if counts.hold ≤ c + 1 ∧ (c + 1 - counts.hold) % counts.repeats = 0 then
          some (keyOf button)
        else none) ∧
      Held counts button (c + 1) (process counts s (single (some button))).1 := by
  have hedges : Edge.released ∉ edgesBetween (single (some button)) (single (some button)) := by
    rw [released_mem_edges]
    simp
  have hkey := getLogicalKey_time button
  have hstate := h.state
  have hdelay := h.delayCounter
  have hhold := counts.hold_lt
  have hrepeats := counts.repeats_lt
  have hrepeatsPos := counts.repeats_pos
  unfold edgesBetween at hedges
  unfold process
  simp only [h.pressed, hedges, decide_false, Bool.false_eq_true, if_false]
  split at hstate
  case isTrue hlt =>
    rw [if_pos hlt] at hdelay
    simp only [hstate, hkey]
    rw [decrement_eq (by omega) (by omega), hdelay]
    split
    case isTrue hzero =>
      have hc : c + 1 = counts.hold := by omega
      rw [hc, Nat.sub_self, if_pos ⟨le_rfl, Nat.zero_mod _⟩]
      refine ⟨rfl, rfl, ?_, ?_, fun _ => rfl⟩
      · rw [if_neg (Nat.lt_irrefl _)]
      · rw [if_neg (Nat.lt_irrefl _), Nat.sub_self, Nat.zero_mod, Nat.sub_zero]
    case isFalse hpos =>
      rw [if_neg (by omega)]
      refine ⟨rfl, rfl, ?_, ?_, fun hle => absurd hle (by omega)⟩
      · rw [if_pos (by omega)]
      · rw [if_pos (by omega), Nat.sub_sub]
  case isFalse hge =>
    rw [if_neg hge] at hdelay
    have hmod := Nat.mod_lt (c - counts.hold) hrepeatsPos
    have hsub : c + 1 - counts.hold = c - counts.hold + 1 := by omega
    have hle : counts.hold ≤ c + 1 := by omega
    simp only [hstate, h.latchedKey (Nat.not_lt.1 hge)]
    rw [decrement_eq (by omega) (by omega), hdelay, hsub]
    rcases succ_mod_cases (c - counts.hold) hrepeatsPos with ⟨hlast, hnew⟩ | ⟨hmore, hnew⟩
    · rw [if_pos (by omega), hnew, if_pos ⟨hle, rfl⟩]
      refine ⟨rfl, rfl, ?_, ?_, fun _ => rfl⟩
      · rw [if_neg (by omega)]
      · rw [if_neg (by omega), hsub, hnew, Nat.sub_zero]
    · rw [if_neg (by omega), hnew, if_neg (by omega)]
      refine ⟨rfl, rfl, ?_, ?_, fun _ => rfl⟩
      · rw [if_neg (by omega)]
      · rw [if_neg (by omega), hsub, hnew, Nat.sub_sub]

end Steps

section Presses

variable {counts : Counts} {s : State} {button : Button} {next : Option Button}

/-- The events of a press while it lasts. -/
def timed (counts : Counts) (c : Nat) : Nat :=
  if c < counts.hold then 0 else 1 + (c - counts.hold) / counts.repeats

theorem timed_succ (counts : Counts) (c : Nat) :
    timed counts (c + 1) =
      timed counts c +
        if counts.hold ≤ c + 1 ∧ (c + 1 - counts.hold) % counts.repeats = 0 then 1 else 0 := by
  unfold timed
  rcases Nat.lt_trichotomy (c + 1) counts.hold with hlt | heq | hgt
  · rw [if_pos hlt, if_pos (by omega), if_neg (by omega)]
  · rw [if_neg (by omega), if_pos (by omega), heq, Nat.sub_self, Nat.zero_div, Nat.zero_mod,
      if_pos ⟨le_rfl, rfl⟩]
  · have hsub : c + 1 - counts.hold = c - counts.hold + 1 := by omega
    have hle : counts.hold ≤ c + 1 := by omega
    rw [if_neg (by omega), if_neg (by omega), hsub, Nat.succ_div, Nat.add_assoc]
    simp only [Nat.dvd_iff_mod_eq_zero, hle, true_and]

theorem events_held {c : Nat} (h : Held counts button c s) (m : Nat) :
    ∃ s', Held counts button (c + m) s' ∧ ∀ rest : List Sample,
      List.replicate (timed counts c) (keyOf button) ++
          events counts s (List.replicate m (single (some button)) ++ rest) =
        List.replicate (timed counts (c + m)) (keyOf button) ++ events counts s' rest := by
  induction m generalizing c s with
  | zero => exact ⟨s, h, fun rest => rfl⟩
  | succ m ih =>
      obtain ⟨hevent, hheld⟩ := held_process h
      obtain ⟨s', hheld', hevents⟩ := ih hheld
      refine ⟨s', by rwa [← Nat.add_assoc, Nat.add_right_comm], fun rest => ?_⟩
      rw [← Nat.add_assoc, Nat.add_right_comm c m 1, ← hevents rest, List.replicate_succ,
        List.cons_append, events, ← List.append_assoc, hevent, timed_succ, List.replicate_add]
      split
      · rfl
      · rfl

theorem events_lost (hidle : s.state = .idle) (hpressed : s.pressed = single (some button))
    (n : Nat) (next : Option Button) :
    events counts s (List.replicate n (single (some button)) ++ [single next]) = [] := by
  induction n generalizing s with
  | zero =>
      rw [List.replicate_zero, List.nil_append, events, events, process_idle hidle hpressed]
      split
      · rfl
      · rfl
  | succ n ih =>
      obtain ⟨hevent, hidle', hpressed'⟩ := process_lost counts hidle hpressed
        (Or.inr rfl : some button = none ∨ some button = some button)
      rw [List.replicate_succ, List.cons_append, events, hevent, ih hidle' hpressed']
      rfl

theorem last_eq {past : List (Option Button)} :
    last past = some button ↔ past.head? = some (some button) := by
  rw [last, Option.join_eq_some_iff]

/-- Of the presses that follow each other without a pause, the machine follows every other one. -/
structure Follows (counts : Counts) (past : List (Option Button)) (s : State) : Prop where
  pressed : s.pressed = single (last past)
  idle : streak past % 2 = 0 → s.state = .idle
  held : streak past % 2 = 1 → ∃ button c, last past = some button ∧ Held counts button c s

theorem follows_none {past : List (Option Button)} (h : Follows counts past s) :
    Follows counts (none :: past) (process counts s (single none)).1 := by
  have hafter : (process counts s (single none)).1.state = .idle ∧
      (process counts s (single none)).1.pressed = single none := by
    rcases Nat.mod_two_eq_zero_or_one (streak past) with heven | hodd
    · exact (process_lost counts (h.idle heven) h.pressed (Or.inl rfl)).2
    · obtain ⟨button, c, -, hheld⟩ := h.held hodd
      exact (held_release hheld (by simp)).2
  exact ⟨hafter.2, fun _ => hafter.1, fun hodd => absurd hodd (by simp [streak])⟩

theorem follows_some {past : List (Option Button)} (h : Follows counts past s) (button : Button) :
    Follows counts (some button :: past) (process counts s (single (some button))).1 := by
  rcases Classical.em (past.head? = some (some button)) with hsame | hfresh
  · -- the press goes on
    have hstreak : streak (some button :: past) = streak past := if_pos hsame
    have hlast := last_eq.2 hsame
    rcases Nat.mod_two_eq_zero_or_one (streak past) with heven | hodd
    · obtain ⟨-, hidle, hpressed⟩ := process_lost counts (h.idle heven) h.pressed
        (Or.inr hlast.symm)
      exact ⟨hpressed, fun _ => hidle, fun hodd => absurd hodd (by omega)⟩
    · obtain ⟨button', c, hlast', hheld⟩ := h.held hodd
      obtain rfl := Option.some.inj (hlast.symm.trans hlast')
      obtain ⟨-, hheld'⟩ := held_process hheld
      exact ⟨hheld'.pressed, fun heven => absurd heven (by omega),
        fun _ => ⟨button, c + 1, rfl, hheld'⟩⟩
  · have hstreak : streak (some button :: past) = streak past + 1 := if_neg hfresh
    have hlast : last past ≠ some button := fun hlast => hfresh (last_eq.1 hlast)
    rcases Nat.mod_two_eq_zero_or_one (streak past) with heven | hodd
    · obtain ⟨-, hheld⟩ := held_start counts (h.idle heven) h.pressed hlast
      exact ⟨hheld.pressed, fun heven' => absurd heven' (by omega),
        fun _ => ⟨button, 0, rfl, hheld⟩⟩
    · obtain ⟨button', c, hlast', hheld⟩ := h.held hodd
      have hne : some button ≠ some button' := fun heq => hlast (hlast'.trans heq.symm)
      obtain ⟨-, hidle, hpressed⟩ := held_release hheld hne
      exact ⟨hpressed, fun _ => hidle, fun hodd' => absurd hodd' (by omega)⟩

theorem follows_after (counts : Counts) (past : List (Option Button)) :
    Follows counts past (after counts past) := by
  induction past with
  | nil => exact ⟨rfl, fun _ => rfl, fun hodd => absurd hodd (by decide)⟩
  | cons first past ih =>
      cases first with
      | none => exact follows_none ih
      | some button => exact follows_some ih button

theorem timed_zero (counts : Counts) : timed counts 0 = 0 :=
  if_pos counts.hold_pos

theorem expected_pos (counts : Counts) (n : Nat) : 0 < expected counts n := by
  unfold expected
  split
  · exact Nat.one_pos
  · exact Nat.add_pos_left Nat.two_pos _

theorem events_press (h : Held counts button 0 s) (n : Nat) (hnext : next ≠ some button) :
    events counts s (List.replicate n (single (some button)) ++ [single next]) =
        List.replicate (expected counts (n + 1)) (keyOf button) ↔
      next = none ∨ counts.hold ≤ n := by
  obtain ⟨s', hheld, hevents⟩ := events_held h n
  have hpress := hevents [single next]
  rw [timed_zero, List.replicate_zero, List.nil_append, Nat.zero_add, events, events,
    List.append_nil] at hpress
  rw [Nat.zero_add] at hheld
  rw [hpress, (held_release hheld hnext).1]
  rcases Nat.lt_or_ge n counts.hold with hlt | hge
  · have htimed : timed counts n = 0 := if_pos hlt
    have hexpected : expected counts (n + 1) = 1 := if_pos hlt
    rw [htimed, hexpected, or_iff_left (Nat.not_le.2 hlt)]
    rcases next with _ | other
    · rw [if_neg fun h => h.2 rfl]
      exact iff_of_true rfl rfl
    · rw [if_pos ⟨hlt, by simp⟩]
      exact iff_of_false (by simp) (by simp)
  · have htimed : timed counts n = 1 + (n - counts.hold) / counts.repeats :=
      if_neg (Nat.not_lt.2 hge)
    have hexpected : expected counts (n + 1) = timed counts n + 1 := by
      rw [expected, if_neg (by omega), htimed, Nat.add_sub_cancel]
      omega
    rw [hexpected, if_neg fun h => absurd h.1 (Nat.not_lt.2 hge), List.replicate_succ']
    exact iff_of_true rfl (Or.inr hge)

/-- A press has its events exactly when an even number of presses led up to it without a pause, and
no other button takes over from it before the hold time. -/
theorem press_firesAsExpected_iff (counts : Counts) (past : List (Option Button)) (button : Button)
    (n : Nat) (next : Option Button) (hfresh : past.head? ≠ some (some button))
    (hnext : next ≠ some button) :
    FiresAsExpected counts past button n next ↔
      streak past % 2 = 0 ∧ (next = none ∨ counts.hold ≤ n) := by
  have hfollows := follows_after counts past
  have hlast : last past ≠ some button := fun hlast => hfresh (last_eq.1 hlast)
  have hafter : after counts (some button :: past) =
      (process counts (after counts past) (single (some button))).1 := rfl
  rw [FiresAsExpected, hafter]
  rcases Nat.mod_two_eq_zero_or_one (streak past) with heven | hodd
  · obtain ⟨hevent, hheld⟩ := held_start counts (hfollows.idle heven) hfollows.pressed
      hlast
    rw [hevent, events_press hheld n hnext, and_iff_right heven]
    exact and_iff_right (by simp)
  · obtain ⟨button', c, hlast', hheld⟩ := hfollows.held hodd
    have hne : some button ≠ some button' := fun heq => hlast (hlast'.trans heq.symm)
    obtain ⟨-, hidle, hpressed⟩ := held_release hheld hne
    rw [events_lost hidle hpressed n next]
    refine iff_of_false ?_ fun h => absurd h.1 (by omega)
    rintro ⟨-, hevents⟩
    have hlength := congrArg List.length hevents
    rw [List.length_replicate] at hlength
    exact absurd hlength (expected_pos counts (n + 1)).ne

/-- A press of one sample behind a pause. -/
theorem press_firesAsExpected_single : FiresAsExpected Counts.default [none] .a 0 none :=
  (press_firesAsExpected_iff Counts.default [none] .a 0 none (by decide) (by decide)).2
    ⟨rfl, Or.inl rfl⟩

/-- Where a button takes over from another one, neither press has an event. -/
theorem press_not_firesAsExpected :
    ¬ FiresAsExpected Counts.default [none] .a 0 (some .b) ∧
      ¬ FiresAsExpected Counts.default [some .a, none] .b 0 none := by
  constructor
  · rw [press_firesAsExpected_iff Counts.default [none] .a 0 (some .b) (by decide) (by decide)]
    decide
  · rw [press_firesAsExpected_iff Counts.default [some .a, none] .b 0 none (by decide) (by decide)]
    decide

end Presses

end ColonyPico.Storm.LogicalButtons
