import ColonyPico.System.ElapsedTime
import Mathlib.Data.List.Basic

/-!
The event loops of the mailbox servers (`Cpl::Itc::MailboxServer`, `Cpl::Dm::MailboxServer`, both on
`Cpl::System::EventLoop`): a loop that shares one semaphore between messages, change notifications,
event flags and the request to stop, and the threads that call it.
-/

namespace ColonyPico.System.MailboxServers

open ColonyPico.System.ElapsedTime

/-- Which of the two servers it is. -/
inductive Kind where
  | itc
  | dm
  deriving DecidableEq

/-- Where the server is in its loop; `skipWait` is the argument of `waitAndProcessEvents()`. -/
inductive Server where
  | checkMessages
  | checkNotifications
  | checkRun (skipWait : Bool)
  | checkTime (skipWait : Bool)
  | waiting
  | recheckRun
  | capture
  | dispatch (events : UInt32)
  | timers
  | getNotification
  | notifying (subscriber : Nat)
  | getMessage
  | processing (message : Nat)
  | stopped
  deriving DecidableEq

/-- The calls of the other threads. -/
inductive Call where
  | post (message : Nat)
  | notifyEvents (events : UInt32)
  | addPendingChangingNotification (subscriber : Nat)
  | pleaseStop

/-- Where another thread is: outside, before the section of its call, or before its signal. -/
inductive Caller where
  | outside
  | entered (call : Call)
  | signalling

/-- The server with its semaphore, and the threads that call it.  The last fields record the event
numbers that were processed, the messages in the order they were put, and those processed. -/
structure State where
  mailbox : List Nat
  pendingMpNotifications : List Nat
  events : UInt32
  run : Bool
  sema : Nat
  timeStartOfLoop : UInt32
  server : Server
  callers : List Caller
  flagged : List Nat
  posted : List Nat
  processed : List Nat

def State.start (callers : Nat) : State :=
  { mailbox := []
    pendingMpNotifications := []
    events := 0
    run := true
    sema := 0
    timeStartOfLoop := 0
    server := .checkMessages
    callers := List.replicate callers .outside
    flagged := []
    posted := []
    processed := [] }

/-- The event numbers of the flags that are set. -/
def eventNumbers (events : UInt32) : List Nat :=
  (List.range 32).filter fun eventNumber => events.toNat.testBit eventNumber

/-- One step of the server.  `now` is the time it reads, and `timedOut` says whether a wait without
a signal ends; none when the server is blocked or has ended. -/
def serverStep (kind : Kind) (timeout now : UInt32) (timedOut : Bool) (s : State) : Option State :=
  match s.server with
  | .checkMessages =>
      if s.mailbox ≠ [] then some { s with server := .checkRun true }
      else
        match kind with
        | .itc => some { s with server := .checkRun false }
        | .dm => some { s with server := .checkNotifications }
  | .checkNotifications =>
      some { s with server := .checkRun (decide (s.pendingMpNotifications ≠ [])) }
  | .checkRun skipWait =>
      if s.run then some { s with server := .checkTime skipWait }
      else some { s with server := .stopped }
  | .checkTime skipWait =>
      -- the wait is skipped as well if the last pass took long
      let skipWait := skipWait || decide (timeout < deltaMilliseconds s.timeStartOfLoop now)
      some { s with
        timeStartOfLoop := now
        server := if skipWait then .recheckRun else .waiting }
  | .waiting =>
      if 0 < s.sema then some { s with sema := s.sema - 1, server := .recheckRun }
      else if timedOut then some { s with server := .recheckRun }
      else none
  | .recheckRun =>
      if s.run then some { s with server := .capture } else some { s with server := .stopped }
  | .capture => some { s with events := 0, server := .dispatch s.events }
  | .dispatch events =>
      some { s with flagged := s.flagged ++ eventNumbers events, server := .timers }
  | .timers =>
      match kind with
      | .itc => some { s with server := .getMessage }
      | .dm => some { s with server := .getNotification }
  | .getNotification =>
      match s.pendingMpNotifications with
      | [] => some { s with server := .getMessage }
      | subscriber :: rest =>
          some { s with pendingMpNotifications := rest, server := .notifying subscriber }
  | .notifying _ => some { s with server := .getMessage }
  | .getMessage =>
      match s.mailbox with
      | [] => some { s with server := .checkMessages }
      | message :: rest => some { s with mailbox := rest, server := .processing message }
  | .processing message =>
      some { s with processed := s.processed ++ [message], server := .checkMessages }
  | .stopped => none

/-- The section of a call.  An item that is in the list already is a fatal error, and is not put. -/
def callSection (s : State) : Call → State
  | .post message =>
      if message ∈ s.mailbox then s
      else { s with mailbox := s.mailbox ++ [message], posted := s.posted ++ [message] }
  | .notifyEvents events => { s with events := s.events ||| events }
  | .addPendingChangingNotification subscriber =>
      if subscriber ∈ s.pendingMpNotifications then s
      else { s with pendingMpNotifications := s.pendingMpNotifications ++ [subscriber] }
  | .pleaseStop => { s with run := false }

/-- Only the server of the data model has change notifications. -/
def Call.Available (kind : Kind) : Call → Prop
  | .addPendingChangingNotification _ => kind = .dm
  | _ => True

instance (kind : Kind) : (call : Call) → Decidable (call.Available kind)
  | .post _ => isTrue trivial
  | .notifyEvents _ => isTrue trivial
  | .addPendingChangingNotification _ => inferInstanceAs (Decidable (kind = .dm))
  | .pleaseStop => isTrue trivial

inductive Action where
  | call (caller : Nat) (call : Call)
  | caller (caller : Nat)
  | server (now : UInt32) (timedOut : Bool)

def callerStep (s : State) (i : Nat) : Option State :=
  match s.callers[i]? with
  | some (.entered call) =>
      let s := callSection s call
      some { s with callers := s.callers.set i .signalling }
  | some .signalling =>
      some { s with sema := s.sema + 1, callers := s.callers.set i .outside }
  | _ => none

def step (kind : Kind) (timeout : UInt32) (s : State) : Action → Option State
  | .call i call =>
      match s.callers[i]? with
      | some .outside =>
          if call.Available kind then
            some { s with callers := s.callers.set i (.entered call) }
          else none
      | _ => none
  | .caller i => callerStep s i
  | .server now timedOut => serverStep kind timeout now timedOut s

/-- A run: the actions of the threads and of the server, in the order in which they happen. -/
def run (kind : Kind) (timeout : UInt32) : State → List Action → Option State
  | s, [] => some s
  | s, action :: rest => (step kind timeout s action).bind fun s' => run kind timeout s' rest

/-! The invariant -/

/-- A signal is there or on its way. -/
def Covered (s : State) : Prop :=
  0 < s.sema ∨ ∃ i : Nat, s.callers[i]? = some Caller.signalling

/-- The server found no message and may wait before it looks again. -/
def Server.passedMessages : Server → Bool
  | .checkNotifications => true
  | .checkRun skipWait => !skipWait
  | .checkTime skipWait => !skipWait
  | .waiting => true
  | _ => false

def Server.passedNotifications : Server → Bool
  | .checkRun skipWait => !skipWait
  | .checkTime skipWait => !skipWait
  | .waiting => true
  | _ => false

def Server.passedRun : Server → Bool
  | .checkTime _ => true
  | .waiting => true
  | _ => false

/-- The server captures the event flags only after its next wait. -/
def Server.passedEvents : Server → Bool
  | .recheckRun => false
  | .capture => false
  | .stopped => false
  | _ => true

def Server.inHand : Server → List Nat
  | .processing message => [message]
  | _ => []

/-- What the server passed by, a signal will bring it back to. -/
structure Inv (kind : Kind) (s : State) : Prop where
  ordered : s.processed ++ s.server.inHand ++ s.mailbox = s.posted
  messages : s.server.passedMessages = true → s.mailbox ≠ [] → Covered s
  notifications : s.server.passedNotifications = true → s.pendingMpNotifications ≠ [] → Covered s
  none : kind = .itc → s.pendingMpNotifications = []
  run : s.server.passedRun = true → s.run = false → Covered s
  events : s.server.passedEvents = true → s.events ≠ 0 → Covered s
  available : ∀ (i : Nat) (call : Call), s.callers[i]? = some (Caller.entered call) →
    call.Available kind

variable {kind : Kind} {timeout : UInt32} {s s' : State}

theorem inv_start (callers : Nat) : Inv kind (State.start callers) where
  ordered := rfl
  messages := fun _ h => absurd rfl h
  notifications := fun _ h => absurd rfl h
  none := fun _ => rfl
  run := fun _ h => by cases h
  events := fun _ h => absurd rfl h
  available := by
    intro i call hi
    have hmem := List.mem_of_getElem? hi
    cases List.eq_of_mem_replicate hmem

/-! The other threads -/

theorem available_set {callers : List Caller} {i j : Nat} {new : Caller} {call : Call}
    (h : ∀ (i : Nat) (call : Call), callers[i]? = some (Caller.entered call) → call.Available kind)
    (hnew : ∀ call, new = Caller.entered call → call.Available kind)
    (hj : (callers.set i new)[j]? = some (Caller.entered call)) : call.Available kind := by
  rw [List.getElem?_set] at hj
  split_ifs at hj
  · exact hnew call (Option.some.inj hj)
  · exact h j call hj

theorem inv_call {i : Nat} {call : Call} (h : Inv kind s) (hi : s.callers[i]? = some .outside)
    (hcall : call.Available kind) :
    Inv kind { s with callers := s.callers.set i (.entered call) } := by
  have hcovered : Covered s → Covered { s with callers := s.callers.set i (.entered call) } := by
    rintro (hsema | ⟨j, hj⟩)
    · exact Or.inl hsema
    · have hne : i ≠ j := by
        rintro rfl
        cases hi.symm.trans hj
      refine Or.inr ⟨j, ?_⟩
      rw [List.getElem?_set_ne hne]
      exact hj
  constructor
  · exact h.ordered
  · exact fun hpassed hmailbox => hcovered (h.messages hpassed hmailbox)
  · exact fun hpassed hpending => hcovered (h.notifications hpassed hpending)
  · exact h.none
  · exact fun hpassed hrun => hcovered (h.run hpassed hrun)
  · exact fun hpassed hevents => hcovered (h.events hpassed hevents)
  · intro j other hj
    refine available_set h.available ?_ hj
    rintro _ ⟨⟩
    exact hcall

/-- With a signal on its way nothing is asked of the server's position. -/
theorem Inv.of_covered (hcovered : Covered s)
    (hordered : s.processed ++ s.server.inHand ++ s.mailbox = s.posted)
    (hnone : kind = .itc → s.pendingMpNotifications = [])
    (havailable : ∀ (i : Nat) (call : Call), s.callers[i]? = some (Caller.entered call) →
      call.Available kind) :
    Inv kind s :=
  ⟨hordered, fun _ _ => hcovered, fun _ _ => hcovered, hnone, fun _ _ => hcovered,
    fun _ _ => hcovered, havailable⟩

theorem callSection_ordered (call : Call)
    (h : s.processed ++ s.server.inHand ++ s.mailbox = s.posted) :
    (callSection s call).processed ++ (callSection s call).server.inHand ++
      (callSection s call).mailbox = (callSection s call).posted := by
  cases call with
  | post message =>
      simp only [callSection]
      split_ifs
      · exact h
      · show s.processed ++ s.server.inHand ++ (s.mailbox ++ [message]) = s.posted ++ [message]
        rw [← List.append_assoc, h]
  | notifyEvents events => exact h
  | addPendingChangingNotification subscriber =>
      simp only [callSection]
      split_ifs <;> exact h
  | pleaseStop => exact h

theorem callSection_none {call : Call} (hcall : call.Available kind)
    (h : kind = .itc → s.pendingMpNotifications = []) (hitc : kind = .itc) :
    (callSection s call).pendingMpNotifications = [] := by
  cases call with
  | post message =>
      simp only [callSection]
      split_ifs <;> exact h hitc
  | notifyEvents events => exact h hitc
  | addPendingChangingNotification subscriber =>
      have hdm : kind = .dm := hcall
      cases hdm.symm.trans hitc
  | pleaseStop => exact h hitc

theorem callSection_callers (call : Call) : (callSection s call).callers = s.callers := by
  cases call <;> simp only [callSection] <;> split_ifs <;> rfl

theorem inv_callerStep {i : Nat} (h : Inv kind s) (hstep : callerStep s i = some s') :
    Inv kind s' := by
  unfold callerStep at hstep
  split at hstep
  case h_1 call hi =>
    obtain rfl := Option.some.inj hstep
    have hcallers := callSection_callers (s := s) call
    have hlt : i < (callSection s call).callers.length := by
      rw [hcallers]
      exact (List.getElem?_eq_some_iff.mp hi).1
    refine .of_covered (Or.inr ⟨i, List.getElem?_set_self hlt⟩) ?_ ?_ ?_
    · exact callSection_ordered call h.ordered
    · exact callSection_none (h.available i call hi) h.none
    · intro j other hj
      rw [hcallers] at hj
      exact available_set h.available (by rintro _ ⟨⟩) hj
  case h_2 hi =>
    obtain rfl := Option.some.inj hstep
    refine .of_covered (Or.inl (Nat.succ_pos _)) h.ordered h.none ?_
    intro j other hj
    exact available_set h.available (by rintro _ ⟨⟩) hj
  case h_3 => cases hstep

/-! The server -/

section

variable {old server : Server} {timeStartOfLoop : UInt32} {flagged : List Nat}

/-- The server moves on: what it now counts as passed it had passed before, or has just found to be
empty. -/
theorem Inv.move (h : Inv kind s) (hserver : s.server = old) (hinHand : server.inHand = old.inHand)
    (hmessages : server.passedMessages = true → old.passedMessages = true ∨ s.mailbox = [])
    (hnotifications : server.passedNotifications = true →
      old.passedNotifications = true ∨ s.pendingMpNotifications = [])
    (hrun : server.passedRun = true → old.passedRun = true ∨ s.run = true)
    (hevents : server.passedEvents = true → old.passedEvents = true) :
    Inv kind { s with
      server := server, timeStartOfLoop := timeStartOfLoop, flagged := flagged } := by
  subst hserver
  constructor
  · show s.processed ++ server.inHand ++ s.mailbox = s.posted
    rw [hinHand]
    exact h.ordered
  · intro hpassed hne
    rcases hmessages hpassed with hbefore | hempty
    · exact h.messages hbefore hne
    · exact absurd hempty hne
  · intro hpassed hne
    rcases hnotifications hpassed with hbefore | hempty
    · exact h.notifications hbefore hne
    · exact absurd hempty hne
  · exact h.none
  · intro hpassed hstop
    rcases hrun hpassed with hbefore | hrunning
    · exact h.run hbefore hstop
    · cases hrunning.symm.trans hstop
  · exact fun hpassed hne => h.events (hevents hpassed) hne
  · exact h.available

/-- A move to a place from which every check comes before the next wait. -/
theorem Inv.proceed (h : Inv kind s) (hserver : s.server = old)
    (hinHand : server.inHand = old.inHand)
    (hfree : server.passedMessages = false ∧ server.passedNotifications = false ∧
      server.passedRun = false)
    (hevents : server.passedEvents = true → old.passedEvents = true) :
    Inv kind { s with
      server := server, timeStartOfLoop := timeStartOfLoop, flagged := flagged } := by
  obtain ⟨hmessages, hnotifications, hrun⟩ := hfree
  refine h.move hserver hinHand ?_ ?_ ?_ hevents
  · rw [hmessages]
    rintro ⟨⟩
  · rw [hnotifications]
    rintro ⟨⟩
  · rw [hrun]
    rintro ⟨⟩

end

/-- The wait takes the signal, and nothing is passed right after it. -/
theorem Inv.woken (h : Inv kind s) (hserver : s.server = .waiting) :
    Inv kind { s with sema := s.sema - 1, server := .recheckRun } := by
  constructor
  · have hordered := h.ordered
    rw [hserver] at hordered
    exact hordered
  · rintro ⟨⟩
  · rintro ⟨⟩
  · exact h.none
  · rintro ⟨⟩
  · rintro ⟨⟩
  · exact h.available

theorem Inv.captured (h : Inv kind s) (hserver : s.server = .capture) :
    Inv kind { s with events := 0, server := .dispatch s.events } := by
  constructor
  · have hordered := h.ordered
    rw [hserver] at hordered
    exact hordered
  · rintro ⟨⟩
  · rintro ⟨⟩
  · exact h.none
  · rintro ⟨⟩
  · exact fun _ hne => absurd rfl hne
  · exact h.available

theorem Inv.gotNotification {subscriber : Nat} {rest : List Nat} (h : Inv kind s)
    (hserver : s.server = .getNotification)
    (hpending : s.pendingMpNotifications = subscriber :: rest) :
    Inv kind { s with pendingMpNotifications := rest, server := .notifying subscriber } := by
  constructor
  · have hordered := h.ordered
    rw [hserver] at hordered
    exact hordered
  · rintro ⟨⟩
  · rintro ⟨⟩
  · intro hitc
    cases hpending.symm.trans (h.none hitc)
  · rintro ⟨⟩
  · exact fun _ hne => h.events (by rw [hserver]; rfl) hne
  · exact h.available

theorem Inv.gotMessage {message : Nat} {rest : List Nat} (h : Inv kind s)
    (hserver : s.server = .getMessage) (hmailbox : s.mailbox = message :: rest) :
    Inv kind { s with mailbox := rest, server := .processing message } := by
  constructor
  · have hordered := h.ordered
    rw [hserver, hmailbox] at hordered
    show s.processed ++ [message] ++ rest = s.posted
    rw [← hordered]
    simp [Server.inHand]
  · rintro ⟨⟩
  · rintro ⟨⟩
  · exact h.none
  · rintro ⟨⟩
  · exact fun _ hne => h.events (by rw [hserver]; rfl) hne
  · exact h.available

theorem Inv.processedMessage {message : Nat} (h : Inv kind s)
    (hserver : s.server = .processing message) :
    Inv kind { s with processed := s.processed ++ [message], server := .checkMessages } := by
  constructor
  · have hordered := h.ordered
    rw [hserver] at hordered
    show s.processed ++ [message] ++ [] ++ s.mailbox = s.posted
    rw [List.append_nil]
    exact hordered
  · rintro ⟨⟩
  · rintro ⟨⟩
  · exact h.none
  · rintro ⟨⟩
  · exact fun _ hne => h.events (by rw [hserver]; rfl) hne
  · exact h.available

theorem inv_serverStep {now : UInt32} {timedOut : Bool} (h : Inv kind s)
    (hstep : serverStep kind timeout now timedOut s = some s') : Inv kind s' := by
  cases hserver : s.server with
  | checkMessages =>
      simp only [serverStep, hserver] at hstep
      split at hstep
      case isTrue =>
        obtain rfl := Option.some.inj hstep
        exact h.proceed hserver rfl ⟨rfl, rfl, rfl⟩ (fun _ => rfl)
      case isFalse hempty =>
        have hmailbox : s.mailbox = [] := not_not.mp hempty
        cases kind with
        | itc =>
            obtain rfl := Option.some.inj hstep
            exact h.move hserver rfl (fun _ => .inr hmailbox) (fun _ => .inr (h.none rfl))
              (by rintro ⟨⟩) (fun _ => rfl)
        | dm =>
            obtain rfl := Option.some.inj hstep
            exact h.move hserver rfl (fun _ => .inr hmailbox) (by rintro ⟨⟩)
              (by rintro ⟨⟩) (fun _ => rfl)
  | checkNotifications =>
      simp only [serverStep, hserver] at hstep
      obtain rfl := Option.some.inj hstep
      refine h.move hserver rfl (fun _ => .inl rfl) ?_
        (by rintro ⟨⟩) (fun _ => rfl)
      intro hpassed
      refine .inr ?_
      simpa [Server.passedNotifications] using hpassed
  | checkRun skipWait =>
      simp only [serverStep, hserver] at hstep
      split at hstep
      case isTrue hrun =>
        obtain rfl := Option.some.inj hstep
        exact h.move hserver rfl .inl
          .inl (fun _ => .inr hrun)
          (fun _ => rfl)
      case isFalse =>
        obtain rfl := Option.some.inj hstep
        exact h.proceed hserver rfl ⟨rfl, rfl, rfl⟩ (fun _ => rfl)
  | checkTime skipWait =>
      simp only [serverStep, hserver] at hstep
      obtain rfl := Option.some.inj hstep
      split
      case isTrue =>
        exact h.proceed hserver rfl ⟨rfl, rfl, rfl⟩ (by rintro ⟨⟩)
      case isFalse hwait =>
        have hskip : skipWait = false := by
          cases skipWait with
          | false => rfl
          | true => exact absurd rfl hwait
        subst hskip
        exact h.move hserver rfl (fun _ => .inl rfl)
          (fun _ => .inl rfl) (fun _ => .inl rfl)
          (fun _ => rfl)
  | waiting =>
      simp only [serverStep, hserver] at hstep
      split_ifs at hstep
      · obtain rfl := Option.some.inj hstep
        exact h.woken hserver
      · obtain rfl := Option.some.inj hstep
        exact h.proceed hserver rfl ⟨rfl, rfl, rfl⟩ (by rintro ⟨⟩)
  | recheckRun =>
      simp only [serverStep, hserver] at hstep
      split_ifs at hstep
      · obtain rfl := Option.some.inj hstep
        exact h.proceed hserver rfl ⟨rfl, rfl, rfl⟩ (by rintro ⟨⟩)
      · obtain rfl := Option.some.inj hstep
        exact h.proceed hserver rfl ⟨rfl, rfl, rfl⟩ (by rintro ⟨⟩)
  | capture =>
      simp only [serverStep, hserver] at hstep
      obtain rfl := Option.some.inj hstep
      exact h.captured hserver
  | dispatch events =>
      simp only [serverStep, hserver] at hstep
      obtain rfl := Option.some.inj hstep
      exact h.proceed hserver rfl ⟨rfl, rfl, rfl⟩ (fun _ => rfl)
  | timers =>
      simp only [serverStep, hserver] at hstep
      cases kind with
      | itc =>
          obtain rfl := Option.some.inj hstep
          exact h.proceed hserver rfl ⟨rfl, rfl, rfl⟩ (fun _ => rfl)
      | dm =>
          obtain rfl := Option.some.inj hstep
          exact h.proceed hserver rfl ⟨rfl, rfl, rfl⟩ (fun _ => rfl)
  | getNotification =>
      simp only [serverStep, hserver] at hstep
      split at hstep
      case h_1 =>
        obtain rfl := Option.some.inj hstep
        exact h.proceed hserver rfl ⟨rfl, rfl, rfl⟩ (fun _ => rfl)
      case h_2 subscriber rest hpending =>
        obtain rfl := Option.some.inj hstep
        exact h.gotNotification hserver hpending
  | notifying subscriber =>
      simp only [serverStep, hserver] at hstep
      obtain rfl := Option.some.inj hstep
      exact h.proceed hserver rfl ⟨rfl, rfl, rfl⟩ (fun _ => rfl)
  | getMessage =>
      simp only [serverStep, hserver] at hstep
      split at hstep
      case h_1 =>
        obtain rfl := Option.some.inj hstep
        exact h.proceed hserver rfl ⟨rfl, rfl, rfl⟩ (fun _ => rfl)
      case h_2 message rest hmailbox =>
        obtain rfl := Option.some.inj hstep
        exact h.gotMessage hserver hmailbox
  | processing message =>
      simp only [serverStep, hserver] at hstep
      obtain rfl := Option.some.inj hstep
      exact h.processedMessage hserver
  | stopped => simp only [serverStep, hserver, reduceCtorEq] at hstep

theorem inv_step {action : Action} (h : Inv kind s)
    (hstep : step kind timeout s action = some s') : Inv kind s' := by
  cases action with
  | call i call =>
      simp only [step] at hstep
      split at hstep
      case h_1 hi =>
        split_ifs at hstep with hcall
        obtain rfl := Option.some.inj hstep
        exact inv_call h hi hcall
      case h_2 => cases hstep
  | caller i => exact inv_callerStep h hstep
  | server now timedOut => exact inv_serverStep h hstep

theorem inv_run {actions : List Action} (h : Inv kind s)
    (hrun : run kind timeout s actions = some s') : Inv kind s' := by
  induction actions generalizing s with
  | nil =>
      obtain rfl := Option.some.inj hrun
      exact h
  | cons action rest ih =>
      obtain ⟨next, hstep, hrest⟩ := Option.bind_eq_some_iff.mp hrun
      exact ih (inv_step h hstep) hrest

theorem Inv.inOrder (h : Inv kind s) : s.processed <+: s.posted := by
  refine ⟨s.server.inHand ++ s.mailbox, ?_⟩
  rw [← List.append_assoc]
  exact h.ordered

/-- Nobody is about to signal a server that waits without a signal. -/
theorem not_covered (hsema : s.sema = 0)
    (houtside : ∀ (i : Nat) (caller : Caller), s.callers[i]? = some caller → caller = .outside) :
    ¬Covered s := by
  rintro (hpositive | ⟨i, hi⟩)
  · omega
  · cases houtside i _ hi

/-- Whatever the order of the steps, the messages are processed once each and in the order in which
they were put, and a server that waits while no thread is in a call has nothing left to do. -/
theorem run_never_sleeps {callers : Nat} {actions : List Action}
    (hrun : run kind timeout (State.start callers) actions = some s) :
    s.processed <+: s.posted ∧
      (s.server = .waiting → s.sema = 0 →
        (∀ (i : Nat) (caller : Caller), s.callers[i]? = some caller → caller = .outside) →
        s.mailbox = [] ∧ s.pendingMpNotifications = [] ∧ s.events = 0 ∧ s.run = true) := by
  have hinv : Inv kind s := inv_run (inv_start callers) hrun
  refine ⟨hinv.inOrder, ?_⟩
  intro hserver hsema houtside
  have hcovered := not_covered hsema houtside
  refine ⟨?_, ?_, ?_, ?_⟩
  · by_contra hne
    exact hcovered (hinv.messages (by rw [hserver]; rfl) hne)
  · by_contra hne
    exact hcovered (hinv.notifications (by rw [hserver]; rfl) hne)
  · by_contra hne
    exact hcovered (hinv.events (by rw [hserver]; rfl) hne)
  · by_contra hne
    exact hcovered (hinv.run (by rw [hserver]; rfl) (Bool.not_eq_true _ ▸ hne))

/-- A message and an event flag are put while the server looks for work; it wakes, handles both and
waits again. -/
def twoCalls : List Action :=
  [.call 0 (.post 7), .server 1 false, .server 1 false, .server 1 false, .call 1 (.notifyEvents 4),
    .caller 0, .caller 1, .caller 0, .caller 1] ++ List.replicate 19 (.server 1 false)

theorem twoCalls_never_sleeps :
    ∃ s, run .itc 10 (State.start 2) twoCalls = some s ∧ s.processed = [7] ∧ s.flagged = [2] ∧
      s.processed <+: s.posted ∧ s.mailbox = [] ∧ s.pendingMpNotifications = [] ∧ s.events = 0 ∧
      s.run = true := by
  refine ⟨_, rfl, rfl, rfl, ?_⟩
  have h := @run_never_sleeps .itc 10 _ 2 twoCalls rfl
  refine ⟨h.1, h.2 rfl rfl ?_⟩
  intro i caller hi
  have hmem : caller ∈ [Caller.outside, Caller.outside] := List.mem_of_getElem? hi
  simpa using hmem

end ColonyPico.System.MailboxServers
