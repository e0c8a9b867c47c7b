import ColonyPico.Foundations.ResourceLedger
import ColonyPico.Foundations.Runs
import Mathlib.Logic.Function.Basic
import Mathlib.Tactic.SplitIfs

/-!
Who owns the control blocks of TCP connections: the listener and the connector over the network
stack (`Cpl::Io::Tcp::lwIP::Picow`), with the streams of their clients.
-/

namespace ColonyPico.Io.TcpConnections

open ColonyPico.Foundations.ResourceLedger
open ColonyPico.Foundations.Runs

/-- What the functions of the stack do when they are called. -/
structure Stack where
  creates : Bool
  binds : Bool
  listens : Bool
  connects : Bool

def Stack.succeeds : Stack :=
  ⟨true, true, true, true⟩

/-- What the listener and the connector have in common: the client, the pointers of
`m_connectionFd`, the clients whose streams have it as their descriptor, whether the stack will call
back for a connection that was started, the control blocks, and the assignments through the null
descriptor of a stream that is closed. -/
structure Connection where
  clientPtr : Option Nat
  lwipPcb : Option Nat
  connnectorClientPtr : Option Nat
  activated : Nat → Bool
  pending : Bool
  ledger : Ledger
  nullWrites : Nat

/-- A control block comes from the stack. -/
def Connection.acquire (s : Connection) : Connection :=
  { s with ledger := s.ledger.acquire }

/-- `tcp_close()` and `tcp_abort()`. -/
def Connection.hand (s : Connection) (pcb : Option Nat) : Connection :=
  { s with ledger := s.ledger.hand pcb }

def Connection.zeroFd (s : Connection) : Connection :=
  { s with lwipPcb := none, connnectorClientPtr := none }

/-- `close()` of the stream of a client. -/
def Connection.close (s : Connection) (client : Nat) : Connection :=
  if s.activated client then
    let s := if s.lwipPcb ≠ none then s.hand s.lwipPcb else s
    { s with lwipPcb := none, activated := Function.update s.activated client false }
  else { s with nullWrites := s.nullWrites + 1 }

/-- `activate()` of the stream of a client; one that is open keeps its descriptor. -/
def Connection.activate (s : Connection) (client : Nat) : Connection :=
  { s with activated := Function.update s.activated client true }

/-- `close()` of the stream of the client, if there is one. -/
def Connection.closeClient (s : Connection) : Connection :=
  s.clientPtr.elim s s.close

structure Listener extends Connection where
  listenerPcb : Option Nat

namespace Listener

def withConnection (s : Listener) (c : Connection) : Listener :=
  { s with toConnection := c }

def startListening (s : Listener) (client : Nat) (stack : Stack) : Listener × Bool :=
  if s.clientPtr ≠ none then (s, false)
  else
    let s := { s with clientPtr := some client }
    if !stack.creates then (s, false)
    else
      let pcb := s.ledger.obtained
      let s := s.withConnection s.acquire
      if !stack.binds then (s, false)
      else if stack.listens then ({ s with listenerPcb := some pcb }, true)
      else ({ s.withConnection (s.hand (some pcb)) with listenerPcb := none }, false)

/-- No result where a null pointer is dereferenced. -/
def lwIPCb_accept (s : Listener) (err accepts : Bool) : Option Listener :=
  if err then some s
  else
    let newpcb := s.ledger.obtained
    let c := s.acquire
    if c.lwipPcb ≠ none then some (s.withConnection (c.hand (some newpcb)))
    else
      c.clientPtr.map fun client =>
        let c := { (c.close client).zeroFd with lwipPcb := some newpcb }
        s.withConnection (if accepts then c.activate client else c.zeroFd.hand (some newpcb))

def terminate (s : Listener) : Listener :=
  let c := if s.listenerPcb ≠ none then s.hand s.listenerPcb else s.toConnection
  { c.closeClient.zeroFd with clientPtr := none, listenerPcb := none }

end Listener

namespace Connector

def establish (s : Connection) (client : Nat) (stack : Stack) : Connection × Bool :=
  if s.clientPtr ≠ none then (s, false)
  else
    let s := { s.zeroFd with clientPtr := some client, connnectorClientPtr := some client }
    if !stack.creates then (s, false)
    else
      let s := { s.acquire with lwipPcb := some s.ledger.obtained }
      if stack.connects then ({ s with pending := true }, true)
      else ({ s with lwipPcb := none }, false)

/-- No result where a null pointer is dereferenced. -/
def lwIPCb_connected (s : Connection) (accepts : Bool) : Option Connection :=
  if s.lwipPcb ≠ none ∧ s.connnectorClientPtr = none then some (s.hand s.lwipPcb)
  else do
    let client ← s.clientPtr
    if accepts then pure { s.activate client with connnectorClientPtr := none }
    else
      -- the descriptor is cleared before its control block is aborted
      let s := s.zeroFd
      pure (s.hand s.lwipPcb)

/-- A control block that is closed does not call back. -/
def terminate (s : Connection) : Connection :=
  let s :=
    if s.clientPtr ≠ none ∧ s.connnectorClientPtr = none then s.closeClient
    else if s.connnectorClientPtr ≠ none ∧ s.lwipPcb ≠ none then
      { s.hand s.lwipPcb with pending := false }
    else s
  { s.zeroFd with clientPtr := none }

end Connector

/-! Runs -/

inductive ListenerAction where
  | startListening (client : Nat) (stack : Stack)
  /-- A connection comes in, with an error of the stack or not. -/
  | accept (err accepts : Bool)
  | close (client : Nat)
  | terminate

inductive ConnectorAction where
  | establish (client : Nat) (stack : Stack)
  /-- The remote host accepts the connection. -/
  | connected (accepts : Bool)
  /-- The remote host refuses the connection. -/
  | refused
  | close (client : Nat)
  | terminate

/-- The stack calls back only for what listens. -/
def listenerStep (s : Listener) : ListenerAction → Option Listener
  | .startListening client stack => some (s.startListening client stack).1
  | .accept err accepts => if s.listenerPcb ≠ none then s.lwIPCb_accept err accepts else some s
  | .close client => some (s.withConnection (s.close client))
  | .terminate => some s.terminate

/-- The stack calls back only for a connection that was started.  It reports a refused one to
`lwipCb_error_()`, which takes the connector for a descriptor: there is no result. -/
def connectorStep (s : Connection) : ConnectorAction → Option Connection
  | .establish client stack => some (Connector.establish s client stack).1
  | .connected accepts =>
      if s.pending then Connector.lwIPCb_connected { s with pending := false } accepts else some s
  | .refused => if s.pending then none else some s
  | .close client => some (s.close client)
  | .terminate => some (Connector.terminate s)

structure System where
  listener : Listener
  connector : Connection

inductive Action where
  | listener (action : ListenerAction)
  | connector (action : ConnectorAction)

def step (s : System) : Action → Option System
  | .listener action =>
      (listenerStep s.listener action).map fun listener => { s with listener := listener }
  | .connector action =>
      (connectorStep s.connector action).map fun connector => { s with connector := connector }

/-- A connection that was not used yet. -/
def Connection.new (lwipPcb connnectorClientPtr : Option Nat) : Connection :=
  { clientPtr := none
    lwipPcb := lwipPcb
    connnectorClientPtr := connnectorClientPtr
    activated := fun _ => false
    pending := false
    ledger := .empty
    nullWrites := 0 }

/-- The constructors; that of the listener leaves its descriptor as it is. -/
def System.new (lwipPcb connnectorClientPtr : Option Nat) : System where
  listener := { Connection.new lwipPcb connnectorClientPtr with listenerPcb := none }
  connector := Connection.new none none

def Listener.CanStart (s : Listener) : Prop :=
  ∀ client, (s.startListening client .succeeds).2 = true

def Connector.CanStart (s : Connection) : Prop :=
  ∀ client, (Connector.establish s client .succeeds).2 = true

/-- What is promised of the listener's control blocks, and of a start that fails. -/
def ListenerAccounts (s : Listener) : ListenerAction → Prop
  | .startListening client stack =>
      (s.startListening client stack).1.ledger.Sound ∧
        ((s.startListening client stack).2 = false → s.CanStart →
          (s.startListening client stack).1.CanStart)
  | .terminate => s.terminate.ledger.Settled
  | action => ∃ next, listenerStep s action = some next ∧ next.ledger.Sound

def ConnectorAccounts (s : Connection) : ConnectorAction → Prop
  | .establish client stack =>
      (Connector.establish s client stack).1.ledger.Sound ∧
        ((Connector.establish s client stack).2 = false → Connector.CanStart s →
          Connector.CanStart (Connector.establish s client stack).1)
  | .terminate => (Connector.terminate s).ledger.Settled
  | action => ∃ next, connectorStep s action = some next ∧ next.ledger.Sound

/-- The stack fails no start. -/
def ListenerUnfailing (s : Listener) : ListenerAction → Prop
  | .startListening _ stack =>
      s.clientPtr = none → stack.creates = true ∧ stack.binds = true ∧ stack.listens = true
  | _ => True

/-- The stack fails no start, the remote host refuses no connection, and no client rejects one. -/
def ConnectorUnfailing (s : Connection) : ConnectorAction → Prop
  | .establish _ stack => s.clientPtr = none → stack.creates = true ∧ stack.connects = true
  | .connected accepts => s.pending = true → accepts = true
  | .refused => s.pending = false
  | _ => True

def Unfailing (s : System) : Action → Prop
  | .listener action => ListenerUnfailing s.listener action
  | .connector action => ConnectorUnfailing s.connector action

/-! Closing a stream -/

/-- The control block that closing the client's stream hands to the stack. -/
def Connection.streamPcb (s : Connection) : List Nat :=
  if s.clientPtr.any s.activated then s.lwipPcb.toList else []

section Close

variable {s : Connection} {client : Nat}

theorem close_of_not_activated (h : s.activated client = false) :
    s.close client = { s with nullWrites := s.nullWrites + 1 } := by
  rw [Connection.close, h]
  rfl

theorem close_of_activated (h : s.activated client = true) :
    s.close client =
      { (if s.lwipPcb ≠ none then s.hand s.lwipPcb else s) with
        lwipPcb := none
        activated := Function.update s.activated client false } := by
  rw [Connection.close, if_pos h]
  split_ifs
  · rfl
  · rfl

theorem clientPtr_close (s : Connection) (client : Nat) :
    (s.close client).clientPtr = s.clientPtr := by
  unfold Connection.close
  split_ifs
  · rfl
  · rfl
  · rfl

theorem activated_close (s : Connection) (client other : Nat) :
    (s.close client).activated other = (s.activated other && decide (other ≠ client)) := by
  rcases h : s.activated client with - | -
  · rw [close_of_not_activated h]
    by_cases hother : other = client
    · rw [hother, h, Bool.false_and]
    · rw [decide_eq_true hother, Bool.and_true]
  · rw [close_of_activated h]
    by_cases hother : other = client
    · simp [hother]
    · simp [hother]

theorem streamPcb_of_activated (hclient : s.clientPtr = some client)
    (h : s.activated client = true) : s.streamPcb = s.lwipPcb.toList := by
  rw [Connection.streamPcb, hclient, Option.any_some, if_pos h]

theorem streamPcb_of_not_activated (hclient : s.clientPtr = some client)
    (h : s.activated client = false) : s.streamPcb = [] := by
  rw [Connection.streamPcb, hclient, Option.any_some, h]
  rfl

theorem streamPcb_of_idle (hidle : s.clientPtr = none) : s.streamPcb = [] := by
  rw [Connection.streamPcb, hidle]
  rfl

theorem streamPcb_of_none (hpcb : s.lwipPcb = none) : s.streamPcb = [] := by
  rw [Connection.streamPcb, hpcb, Option.toList_none, ite_self]

theorem ledger_close_of_none (hpcb : s.lwipPcb = none) (client : Nat) :
    (s.close client).ledger = s.ledger := by
  rw [Connection.close, if_neg (not_not_intro hpcb)]
  split_ifs
  · rfl
  · rfl

/-- Closing the client's stream hands back what the stream owns. -/
theorem balanced_close {rest : List Nat} (hclient : s.clientPtr = some client)
    (h : s.ledger.Balanced (s.streamPcb ++ rest)) : (s.close client).ledger.Balanced rest := by
  rcases hactivated : s.activated client with - | -
  · rw [streamPcb_of_not_activated hclient hactivated] at h
    rw [close_of_not_activated hactivated]
    exact h
  · rw [streamPcb_of_activated hclient hactivated] at h
    rw [close_of_activated hactivated]
    rcases hpcb : s.lwipPcb with - | pcb
    · rw [hpcb] at h
      exact h
    · rw [hpcb] at h
      exact h.hand

theorem streamPcb_close (hclient : s.clientPtr = some client) :
    (s.close client).streamPcb = [] := by
  refine streamPcb_of_not_activated ((clientPtr_close s client).trans hclient) ?_
  rw [activated_close, decide_eq_false (fun h => h rfl), Bool.and_false]

theorem pending_close (s : Connection) (client : Nat) : (s.close client).pending = s.pending := by
  unfold Connection.close
  split_ifs
  · rfl
  · rfl
  · rfl

theorem pending_closeClient (s : Connection) : s.closeClient.pending = s.pending := by
  rw [Connection.closeClient]
  cases s.clientPtr with
  | none => rfl
  | some client => exact pending_close s client

/-- What the stream owns is handed back, and no stream has the descriptor. -/
theorem closeClient_spec (hclient : ∀ client, s.activated client = true → s.clientPtr = some client)
    (h : s.ledger.Balanced s.streamPcb) :
    s.closeClient.ledger.Settled ∧ ∀ other, s.closeClient.activated other = false := by
  rw [Connection.closeClient, ← Ledger.balanced_nil]
  rcases hptr : s.clientPtr with - | client
  · rw [streamPcb_of_idle hptr] at h
    refine ⟨h, fun other => ?_⟩
    rw [← Bool.not_eq_true]
    intro hother
    rw [hptr] at hclient
    cases hclient other hother
  · refine ⟨balanced_close hptr (by rwa [List.append_nil]), fun other => ?_⟩
    rw [← Bool.not_eq_true, Option.elim_some, activated_close, Bool.and_eq_true,
      decide_eq_true_iff]
    rintro ⟨hother, hne⟩
    have heq := hclient other hother
    rw [hptr] at heq
    exact hne (Option.some.inj heq).symm

end Close

/-! The listener -/

theorem Listener.canStart_iff {s : Listener} : s.CanStart ↔ s.clientPtr = none := by
  constructor
  · intro h
    by_contra hstarted
    have hresult := h 0
    rw [startListening, if_pos hstarted] at hresult
    cases hresult
  · intro hidle client
    rw [startListening, if_neg (not_not_intro hidle)]
    rfl

/-- The control blocks that the listener owns are not handed back, and only its client's stream has
the descriptor. -/
structure ListenerInv (s : Listener) : Prop where
  balanced : s.ledger.Balanced (s.listenerPcb.toList ++ s.streamPcb)
  activated : ∀ client, s.activated client = true → s.clientPtr = some client
  listening : s.clientPtr = none → s.listenerPcb = none

namespace ListenerInv

variable {s : Listener} (h : ListenerInv s)
include h

theorem idle (hidle : s.clientPtr = none) : s.ledger.Balanced [] := by
  have hbalanced := h.balanced
  rwa [h.listening hidle, streamPcb_of_idle hidle] at hbalanced

theorem not_activated (hidle : s.clientPtr = none) (client : Nat) :
    s.activated client = false := by
  rw [← Bool.not_eq_true]
  intro hactivated
  rw [h.activated client hactivated] at hidle
  cases hidle

theorem close (client : Nat) : ListenerInv (s.withConnection (s.close client)) := by
  refine ⟨?_, fun other hother => ?_, fun hidle => ?_⟩
  · show (s.close client).ledger.Balanced (s.listenerPcb.toList ++ (s.close client).streamPcb)
    rcases hactivated : s.activated client with - | -
    · rw [close_of_not_activated hactivated]
      exact h.balanced
    · have hclient := h.activated client hactivated
      rw [streamPcb_close hclient, List.append_nil]
      exact balanced_close hclient (h.balanced.perm List.perm_append_comm)
  · have hother : (s.close client).activated other = true := hother
    rw [activated_close, Bool.and_eq_true] at hother
    exact (clientPtr_close _ client).trans (h.activated other hother.1)
  · exact h.listening ((clientPtr_close _ client).symm.trans hidle)

theorem terminate : ListenerInv s.terminate ∧ s.terminate.ledger.Settled := by
  have hspec : s.terminate.ledger.Settled ∧ ∀ other, s.terminate.activated other = false := by
    have hbalanced := h.balanced
    rcases hpcb : s.listenerPcb with - | pcb
    · rw [hpcb] at hbalanced
      rw [Listener.terminate, hpcb]
      exact closeClient_spec h.activated hbalanced
    · rw [hpcb] at hbalanced
      rw [Listener.terminate, hpcb]
      exact closeClient_spec (s := s.hand (some pcb)) h.activated hbalanced.hand
  refine ⟨⟨Ledger.balanced_nil.mpr hspec.1, fun other hother => ?_, fun _ => rfl⟩, hspec.1⟩
  rw [hspec.2 other] at hother
  cases hother

/-- A start that the stack does not fail. -/
theorem startListening (client : Nat) {stack : Stack}
    (hstack : s.clientPtr = none →
      stack.creates = true ∧ stack.binds = true ∧ stack.listens = true) :
    ListenerInv (s.startListening client stack).1 ∧
      ((s.startListening client stack).2 = false → s.clientPtr ≠ none) := by
  by_cases hidle : s.clientPtr = none
  · obtain ⟨hcreates, hbinds, hlistens⟩ := hstack hidle
    have hstart : s.startListening client stack =
        ({ s with
            clientPtr := some client
            ledger := s.ledger.acquire
            listenerPcb := some s.ledger.obtained }, true) := by
      rw [Listener.startListening, if_neg (not_not_intro hidle), hcreates, hbinds, hlistens]
      rfl
    have hstream : Connection.streamPcb { s with clientPtr := some client } = [] :=
      streamPcb_of_not_activated rfl (h.not_activated hidle client)
    rw [hstart]
    refine ⟨⟨?_, fun other hother => ?_, fun hnone => ?_⟩, fun hresult => ?_⟩
    · show s.ledger.acquire.Balanced
        (s.ledger.obtained :: Connection.streamPcb { s with clientPtr := some client })
      rw [hstream]
      exact (h.idle hidle).acquire
    · have hfalse := h.not_activated hidle other
      rw [show s.activated other = true from hother] at hfalse
      cases hfalse
    · cases hnone
    · cases hresult
  · rw [Listener.startListening, if_pos hidle]
    exact ⟨h, fun _ => hidle⟩

/-- A connection while none is active is owned by the client's stream, or aborted. -/
theorem newConnection {client : Nat} (hptr : s.clientPtr = some client) (hpcb : s.lwipPcb = none)
    {c : Connection} (hc : c = s.acquire.close client) :
    ListenerInv (s.withConnection
        (({ c.zeroFd with lwipPcb := some s.ledger.obtained } : Connection).activate client)) ∧
      ListenerInv (s.withConnection (c.zeroFd.hand (some s.ledger.obtained))) := by
  have hclient : c.clientPtr = s.clientPtr := by
    rw [hc, clientPtr_close]
    rfl
  have hledger : c.ledger = s.ledger.acquire := by
    rw [hc]
    exact ledger_close_of_none (s := s.acquire) hpcb client
  have hactivated : ∀ other, c.activated other = true → c.clientPtr = some other := by
    intro other hother
    rw [hc, activated_close, Bool.and_eq_true] at hother
    rw [hclient]
    exact h.activated other hother.1
  have hlistening : c.clientPtr = none → s.listenerPcb = none := by
    rw [hclient]
    exact h.listening
  have hbalanced : c.ledger.Balanced (s.ledger.obtained :: s.listenerPcb.toList) := by
    have hbalanced := h.balanced
    rw [streamPcb_of_none hpcb, List.append_nil] at hbalanced
    rw [hledger]
    exact hbalanced.acquire
  constructor
  · refine ⟨?_, fun other hother => ?_, hlistening⟩
    · have hstream : (({ c.zeroFd with lwipPcb := some s.ledger.obtained } : Connection).activate
          client).streamPcb = [s.ledger.obtained] :=
        streamPcb_of_activated (hclient.trans hptr) (Function.update_self ..)
      have howned := hbalanced.perm (List.perm_append_singleton _ _).symm
      rw [← hstream] at howned
      exact howned
    · by_cases heq : other = client
      · rw [heq]
        exact hclient.trans hptr
      · have hother : Function.update c.activated client true other = true := hother
        rw [Function.update_of_ne heq] at hother
        exact hactivated other hother
  · refine ⟨?_, hactivated, hlistening⟩
    show (c.ledger.hand (some s.ledger.obtained)).Balanced
      (s.listenerPcb.toList ++ (c.zeroFd.hand (some s.ledger.obtained)).streamPcb)
    rw [streamPcb_of_none rfl, List.append_nil]
    exact hbalanced.hand

theorem accept (hlistening : s.listenerPcb ≠ none) (err accepts : Bool) :
    ∃ next, s.lwIPCb_accept err accepts = some next ∧ ListenerInv next := by
  rcases err with - | -
  · rcases hptr : s.acquire.clientPtr with - | client
    · exact absurd (h.listening hptr) hlistening
    · rw [Listener.lwIPCb_accept, if_neg Bool.false_ne_true]
      dsimp only
      by_cases hpcb : s.acquire.lwipPcb = none
      · obtain ⟨haccepted, hrejected⟩ := h.newConnection hptr hpcb rfl
        rw [if_neg (not_not_intro hpcb), hptr]
        rcases accepts with - | -
        · exact ⟨_, rfl, hrejected⟩
        · exact ⟨_, rfl, haccepted⟩
      · rw [if_pos hpcb]
        exact ⟨_, rfl, h.balanced.acquire.hand, h.activated, h.listening⟩
  · exact ⟨s, rfl, h⟩

theorem accounts {action : ListenerAction} (hunfailing : ListenerUnfailing s action) :
    ListenerAccounts s action ∧ ∀ next, listenerStep s action = some next → ListenerInv next := by
  cases action with
  | startListening client stack =>
      obtain ⟨hinv, hresult⟩ := h.startListening client hunfailing
      refine ⟨⟨hinv.balanced.sound, fun hfalse hcan => ?_⟩, fun next hnext => ?_⟩
      · exact absurd (Listener.canStart_iff.mp hcan) (hresult hfalse)
      · cases hnext
        exact hinv
  | accept err accepts =>
      have hstep : ∃ next, listenerStep s (.accept err accepts) = some next ∧
          ListenerInv next := by
        rw [listenerStep]
        split_ifs with hlistening
        · exact h.accept hlistening err accepts
        · exact ⟨s, rfl, h⟩
      obtain ⟨next, hnext, hinv⟩ := hstep
      exact ⟨⟨next, hnext, hinv.balanced.sound⟩,
        fun _ heq => Option.some.inj (hnext.symm.trans heq) ▸ hinv⟩
  | close client =>
      have hinv := h.close client
      exact ⟨⟨_, rfl, hinv.balanced.sound⟩, fun _ heq => Option.some.inj heq ▸ hinv⟩
  | terminate =>
      obtain ⟨hinv, hsettled⟩ := h.terminate
      exact ⟨hsettled, fun _ heq => Option.some.inj heq ▸ hinv⟩

end ListenerInv

theorem Connector.canStart_iff {s : Connection} : Connector.CanStart s ↔ s.clientPtr = none := by
  constructor
  · intro h
    by_contra hstarted
    have hresult := h 0
    rw [establish, if_pos hstarted] at hresult
    cases hresult
  · intro hidle client
    rw [establish, if_neg (not_not_intro hidle)]
    rfl

/-- The control block of the descriptor is not handed back; the connector owns it while the
connection is started, and then the client's stream does. -/
structure ConnectorInv (s : Connection) : Prop where
  balanced : s.ledger.Balanced s.lwipPcb.toList
  activated : ∀ client, s.activated client = true →
    s.clientPtr = some client ∧ s.connnectorClientPtr = none
  accepted : s.connnectorClientPtr = none → s.streamPcb = s.lwipPcb.toList
  idle : s.clientPtr = none → s.connnectorClientPtr = none
  pending : s.pending = true →
    s.clientPtr ≠ none ∧ s.connnectorClientPtr ≠ none ∧ s.lwipPcb ≠ none

namespace ConnectorInv

variable {s : Connection} (h : ConnectorInv s)
include h

theorem not_activated {client : Nat}
    (hother : s.clientPtr ≠ some client ∨ s.connnectorClientPtr ≠ none) :
    s.activated client = false := by
  rw [← Bool.not_eq_true]
  intro hactivated
  obtain ⟨hclient, hconnector⟩ := h.activated client hactivated
  rcases hother with hother | hother
  · exact hother hclient
  · exact hother hconnector

theorem idle_lwipPcb (hidle : s.clientPtr = none) : s.lwipPcb = none := by
  have hstream := h.accepted (h.idle hidle)
  rw [streamPcb_of_idle hidle] at hstream
  exact Option.toList_eq_nil_iff.mp hstream.symm

theorem close (client : Nat) : ConnectorInv (s.close client) := by
  rcases hactivated : s.activated client with - | -
  · rw [close_of_not_activated hactivated]
    exact ⟨h.balanced, h.activated, h.accepted, h.idle, h.pending⟩
  · obtain ⟨hclient, hconnector⟩ := h.activated client hactivated
    have hpcb : (s.close client).lwipPcb = none := by
      rw [close_of_activated hactivated]
    have hconnector' : (s.close client).connnectorClientPtr = none := by
      rw [close_of_activated hactivated]
      dsimp only
      split_ifs
      · exact hconnector
      · exact hconnector
    have hbalanced := h.balanced
    rw [← h.accepted hconnector] at hbalanced
    refine ⟨?_, fun other hother => ?_, fun _ => ?_, fun _ => hconnector', fun htrue => ?_⟩
    · rw [hpcb]
      exact balanced_close hclient (by rwa [Option.toList_none, List.append_nil])
    · rw [activated_close, Bool.and_eq_true] at hother
      rw [clientPtr_close]
      exact ⟨(h.activated other hother.1).1, hconnector'⟩
    · rw [hpcb]
      exact streamPcb_of_none hpcb
    · rw [pending_close] at htrue
      exact absurd hconnector (h.pending htrue).2.1

theorem establish (client : Nat) {stack : Stack}
    (hstack : s.clientPtr = none → stack.creates = true ∧ stack.connects = true) :
    ConnectorInv (Connector.establish s client stack).1 ∧
      ((Connector.establish s client stack).2 = false → s.clientPtr ≠ none) := by
  by_cases hidle : s.clientPtr = none
  · obtain ⟨hcreates, hconnects⟩ := hstack hidle
    have hstart : Connector.establish s client stack =
        ({ s.acquire with
            clientPtr := some client
            lwipPcb := some s.ledger.obtained
            connnectorClientPtr := some client
            pending := true }, true) := by
      rw [Connector.establish, if_neg (not_not_intro hidle), hcreates, hconnects]
      rfl
    have hbalanced := h.balanced
    rw [h.idle_lwipPcb hidle] at hbalanced
    rw [hstart]
    refine ⟨⟨hbalanced.acquire, fun other hother => ?_, fun hnone => ?_, fun hnone => ?_,
      fun _ => ⟨Option.some_ne_none _, Option.some_ne_none _, Option.some_ne_none _⟩⟩,
      fun hresult => ?_⟩
    · have hfalse : s.activated other = false :=
        h.not_activated (.inl (by rw [hidle]; exact (Option.some_ne_none _).symm))
      rw [show s.activated other = true from hother] at hfalse
      cases hfalse
    · cases hnone
    · cases hnone
    · cases hresult
  · rw [Connector.establish, if_pos hidle]
    exact ⟨h, fun _ => hidle⟩

/-- The client accepts the connection that was started. -/
theorem connected (hpending : s.pending = true) :
    ∃ next, Connector.lwIPCb_connected { s with pending := false } true = some next ∧
      ConnectorInv next := by
  obtain ⟨hclient, hconnector, -⟩ := h.pending hpending
  obtain ⟨client, hptr⟩ := Option.ne_none_iff_exists'.mp hclient
  refine ⟨{ (Connection.activate { s with pending := false } client) with
    connnectorClientPtr := none }, ?_, h.balanced, fun other hother => ?_, fun _ => ?_,
    fun _ => rfl, fun htrue => ?_⟩
  · rw [Connector.lwIPCb_connected, if_neg fun hactive => hconnector hactive.2]
    show s.clientPtr.bind _ = _
    rw [hptr]
    rfl
  · refine ⟨?_, rfl⟩
    by_cases heq : other = client
    · rw [heq]
      exact hptr
    · have hother : Function.update s.activated client true other = true := hother
      rw [Function.update_of_ne heq] at hother
      exact (h.activated other hother).1
  · exact streamPcb_of_activated hptr (Function.update_self ..)
  · cases htrue

theorem pending_eq_false (hconnector : s.connnectorClientPtr = none ∨ s.lwipPcb = none) :
    s.pending = false := by
  rw [← Bool.not_eq_true]
  intro hpending
  obtain ⟨-, hne, hpcb⟩ := h.pending hpending
  rcases hconnector with hconnector | hnone
  · exact hne hconnector
  · exact hpcb hnone

omit h in
theorem terminated {c : Connection} (hsettled : c.ledger.Settled)
    (hactivated : ∀ other, c.activated other = false) (hpending : c.pending = false) :
    ConnectorInv { c.zeroFd with clientPtr := none } := by
  refine ⟨Ledger.balanced_nil.mpr hsettled, fun other hother => ?_, fun _ => streamPcb_of_idle rfl,
    fun _ => rfl, fun htrue => ?_⟩
  · have hother : c.activated other = true := hother
    rw [hactivated] at hother
    cases hother
  · have htrue : c.pending = true := htrue
    rw [hpending] at htrue
    cases htrue

theorem terminate :
    ConnectorInv (Connector.terminate s) ∧ (Connector.terminate s).ledger.Settled := by
  have hbalanced := h.balanced
  rw [Connector.terminate]
  dsimp only
  split_ifs with haccepted hstarted
  · rw [← h.accepted haccepted.2] at hbalanced
    obtain ⟨hsettled, hactivated⟩ :=
      closeClient_spec (fun client hclient => (h.activated client hclient).1) hbalanced
    refine ⟨terminated hsettled hactivated ?_, hsettled⟩
    exact (pending_closeClient s).trans (h.pending_eq_false (.inl haccepted.2))
  · obtain ⟨pcb, hpcb⟩ := Option.ne_none_iff_exists'.mp hstarted.2
    rw [hpcb] at hbalanced
    have hsettled : (s.ledger.hand s.lwipPcb).Settled := by
      rw [hpcb]
      exact Ledger.balanced_nil.mp hbalanced.hand
    exact ⟨terminated (c := { s.hand s.lwipPcb with pending := false }) hsettled
      (fun other => h.not_activated (.inr hstarted.1)) rfl, hsettled⟩
  · have hpcb : s.lwipPcb = none := by
      by_contra hpcb
      have hconnector : s.connnectorClientPtr = none := by
        by_contra hconnector
        exact hstarted ⟨hconnector, hpcb⟩
      have hidle : s.clientPtr = none := by
        by_contra hclient
        exact haccepted ⟨hclient, hconnector⟩
      exact hpcb (h.idle_lwipPcb hidle)
    have hactivated : ∀ other, s.activated other = false := by
      intro other
      by_cases hconnector : s.connnectorClientPtr = none
      · refine h.not_activated (.inl fun hclient => haccepted ⟨?_, hconnector⟩)
        rw [hclient]
        exact Option.some_ne_none other
      · exact h.not_activated (.inr hconnector)
    rw [hpcb] at hbalanced
    have hsettled := Ledger.balanced_nil.mp hbalanced
    exact ⟨terminated hsettled hactivated (h.pending_eq_false (.inr hpcb)), hsettled⟩

theorem accounts {action : ConnectorAction} (hunfailing : ConnectorUnfailing s action) :
    ConnectorAccounts s action ∧
      ∀ next, connectorStep s action = some next → ConnectorInv next := by
  cases action with
  | establish client stack =>
      obtain ⟨hinv, hresult⟩ := h.establish client hunfailing
      refine ⟨⟨hinv.balanced.sound, fun hfalse hcan => ?_⟩, fun next hnext => ?_⟩
      · exact absurd (Connector.canStart_iff.mp hcan) (hresult hfalse)
      · cases hnext
        exact hinv
  | connected accepts =>
      have hstep : ∃ next, connectorStep s (.connected accepts) = some next ∧
          ConnectorInv next := by
        rw [connectorStep]
        split_ifs with hpending
        · obtain rfl : accepts = true := hunfailing hpending
          exact h.connected hpending
        · exact ⟨s, rfl, h⟩
      obtain ⟨next, hnext, hinv⟩ := hstep
      exact ⟨⟨next, hnext, hinv.balanced.sound⟩,
        fun _ heq => Option.some.inj (hnext.symm.trans heq) ▸ hinv⟩
  | refused =>
      have hstep : connectorStep s .refused = some s := by
        rw [connectorStep, show s.pending = false from hunfailing]
        rfl
      exact ⟨⟨s, hstep, h.balanced.sound⟩,
        fun _ heq => Option.some.inj (hstep.symm.trans heq) ▸ h⟩
  | close client =>
      have hinv := h.close client
      exact ⟨⟨_, rfl, hinv.balanced.sound⟩, fun _ heq => Option.some.inj heq ▸ hinv⟩
  | terminate =>
      obtain ⟨hinv, hsettled⟩ := h.terminate
      exact ⟨hsettled, fun _ heq => Option.some.inj heq ▸ hinv⟩

end ConnectorInv

/-! Both -/

structure Inv (s : System) : Prop where
  listener : ListenerInv s.listener
  connector : ConnectorInv s.connector

theorem inv_step {s next : System} (h : Inv s) {action : Action} (hunfailing : Unfailing s action)
    (hstep : step s action = some next) : Inv next := by
  cases action with
  | listener action =>
      obtain ⟨listener, hlistener, rfl⟩ := Option.map_eq_some_iff.mp hstep
      exact ⟨(h.listener.accounts hunfailing).2 listener hlistener, h.connector⟩
  | connector action =>
      obtain ⟨connector, hconnector, rfl⟩ := Option.map_eq_some_iff.mp hstep
      exact ⟨h.listener, (h.connector.accounts hunfailing).2 connector hconnector⟩

end ColonyPico.Io.TcpConnections
