import ColonyPico.Foundations.Runs
import ColonyPico.Io.TcpStream

/-!
The life cycle of a TCP stream: calls in any order, between callbacks that deliver data, end a
connection or report its error.
-/

namespace ColonyPico.Io.TcpLifeCycle

open ColonyPico.Foundations.Runs
open ColonyPico.Io.PacketBuffers
open ColonyPico.Io.TcpStream

/-- The stream; whether `close()` was called and no descriptor was activated since; and whether the
remote end of a descriptor's connection is closed. -/
structure LifeCycle where
  stream : Stream
  closed : Bool
  ended : Nat → Bool

inductive Action where
  | activate (newfd : Option Nat)
  | read (numBytes : Nat)
  | write (maxBytes : Nat) (availLen : UInt16) (err : Err)
  | available
  | flush
  | isEos
  | close
  | destroy
  /-- A new connection takes a socket. -/
  | connect (fd pcb : Nat)
  | received (arg pcb : Option Nat) (pbuf : List Pbuf) (err : Err)
  | error (arg : Option Nat)

def setStream (c : LifeCycle) (s : Stream) : LifeCycle :=
  { c with stream := s }

/-- The descriptor whose connection a data callback ends. -/
def endedBy (s : Stream) (arg pcb : Option Nat) (pbuf : List Pbuf) (err : Err) (fd : Nat) : Bool :=
  arg = some fd ∧ pcb.isSome ∧ (s.sockets fd).lwipPcb = pcb ∧ pbuf = [] ∧ err = .ok

/-- No result: the call dereferences a null descriptor. -/
def step (c : LifeCycle) : Action → Option LifeCycle
  | .activate newfd =>
      some { c with
        stream := TcpStream.activate c.stream newfd
        closed := c.closed && c.stream.handlePtr.isSome }
  | .read numBytes => (TcpStream.read c.stream numBytes).map fun result => setStream c result.1
  | .write maxBytes availLen err =>
      (TcpStream.write c.stream maxBytes availLen err).map fun result => setStream c result.1
  | .available => (TcpStream.available c.stream).map fun result => setStream c result.1
  | .flush => some (setStream c (TcpStream.flush c.stream))
  | .isEos => some (setStream c (TcpStream.isEos c.stream).1)
  | .close => (TcpStream.close c.stream).map fun s => { c with stream := s, closed := true }
  -- the destructor closes the stream
  | .destroy => (TcpStream.close c.stream).map fun s => { c with stream := s, closed := true }
  | .connect fd pcb =>
      some { c with
        stream := c.stream.setSocket fd { Socket.zero with lwipPcb := some pcb }
        ended := Function.update c.ended fd false }
  | .received arg pcb pbuf err =>
      some { c with
        stream := (lwipCb_dataReceived c.stream arg pcb pbuf err).1
        ended := fun fd => c.ended fd || endedBy c.stream arg pcb pbuf err fd }
  | .error arg => some (setStream c (lwipCb_error c.stream arg))

def LifeCycle.start (s : Stream) : LifeCycle :=
  { stream := s, closed := false, ended := fun _ => false }

/-- The stream is closed, or its remote end is and everything that came was read. -/
def Ended (c : LifeCycle) : Prop :=
  c.closed = true ∨
    ∃ fd, c.stream.handlePtr = some fd ∧ c.ended fd = true ∧ (c.stream.sockets fd).recvPbuf = []

def Promised (c next : LifeCycle) : Action → Prop
  | .close => c.closed = true → next = c
  | .destroy => c.closed = true → next = c
  | .read numBytes =>
      Ended c → ∀ result, TcpStream.read c.stream numBytes = some result → result.2.1 = false
  | _ => True

/-- A call or callback ends without a null descriptor, and leaves the lock as it was. -/
def EndsAsPromised (c : LifeCycle) (action : Action) : Prop :=
  ∃ next, step c action = some next ∧ next.stream.lockDepth = c.stream.lockDepth ∧
    Promised c next action

/-- A read that finds the connection open although its remote end is closed and nothing is left. -/
def Stale (c : LifeCycle) : Prop :=
  ∃ fd, c.stream.handlePtr = some fd ∧ c.ended fd = true ∧
    (c.stream.sockets fd).recvPbuf = [] ∧ (c.stream.sockets fd).lwipPcb ≠ none

/-- The stream is closed, destroyed or asked for data only while it has a descriptor, is never
flushed, and is read only until the connection's end. -/
def KeepsToDescriptor (c : LifeCycle) : Action → Prop
  | .close => c.stream.handlePtr ≠ none
  | .destroy => c.stream.handlePtr ≠ none
  | .available => c.stream.handlePtr ≠ none
  | .flush => False
  | .read _ => ¬Stale c
  | _ => True

/-! The lock -/

variable {s s' : Stream} {c c' : LifeCycle}

theorem depth_releaseSocket (s : Stream) (fd : Nat) :
    (releaseSocket s fd).lockDepth = s.lockDepth := by
  unfold releaseSocket
  rcases (s.sockets fd).lwipPcb with _ | pcb <;> rfl

theorem close_spec {fd : Nat} (hfd : s.handlePtr = some fd) :
    ∃ s', TcpStream.close s = some s' ∧ s'.lockDepth = s.lockDepth ∧ s'.handlePtr = none := by
  rw [TcpStream.close, show s.lock.handlePtr = some fd from hfd]
  exact ⟨_, rfl, depth_unlock (depth_releaseSocket s.lock fd), rfl⟩

theorem close_none (hnone : s.handlePtr = none) : TcpStream.close s = none := by
  rw [TcpStream.close, show s.lock.handlePtr = none from hnone]

theorem handlePtr_of_close (hclose : TcpStream.close s = some s') : s'.handlePtr = none := by
  rcases hfd : s.handlePtr with _ | fd
  · rw [close_none hfd] at hclose
    cases hclose
  · obtain ⟨t, ht, -, hnone⟩ := close_spec hfd
    obtain rfl := Option.some.inj (hclose.symm.trans ht)
    exact hnone

/-! The calls -/

def Connected (s : Stream) : Prop :=
  ∃ fd, s.handlePtr = some fd ∧ (s.sockets fd).lwipPcb ≠ none

theorem depth_readPbuf (s : Stream) (fd numBytes : Nat) :
    (readPbuf s fd numBytes).1.lockDepth = s.lockDepth := by
  unfold readPbuf
  dsimp only
  split_ifs <;> rfl

/-- A read never dereferences a null descriptor, keeps the lock, and fails just when the stream is
not connected. -/
theorem read_spec (s : Stream) (numBytes : Nat) :
    ∃ s' result data, TcpStream.read s numBytes = some (s', result, data) ∧
      s'.lockDepth = s.lockDepth ∧ (result = true ↔ Connected s) ∧
      (s.handlePtr = none → s'.handlePtr = none) := by
  rcases hfd : s.handlePtr with _ | fd
  · refine ⟨s, false, [], ?_, rfl, ?_, fun _ => hfd⟩
    · rw [TcpStream.read, show s.lock.handlePtr = none from hfd]
      rfl
    · refine iff_of_false Bool.false_ne_true ?_
      rintro ⟨fd, hsome, -⟩
      cases hfd.symm.trans hsome
  · rcases hpcb : (s.sockets fd).lwipPcb with _ | pcb
    · obtain ⟨s', hclose, hdepth, hnone⟩ := @close_spec s.lock fd hfd
      refine ⟨s'.unlock, false, [], ?_, depth_unlock hdepth, ?_, fun _ => hnone⟩
      · rw [TcpStream.read, show s.lock.handlePtr = some fd from hfd]
        dsimp only
        rw [show (s.lock.sockets fd).lwipPcb = none from hpcb]
        dsimp only
        rw [hclose]
        rfl
      · refine iff_of_false Bool.false_ne_true ?_
        rintro ⟨fd', hsome, hne⟩
        obtain rfl := Option.some.inj (hfd.symm.trans hsome)
        exact hne hpcb
    · have hconnected : Connected s := ⟨fd, hfd, by rw [hpcb]; exact Option.some_ne_none pcb⟩
      have hopen : TcpStream.read s numBytes =
          if numBytes = 0 then some (s, true, [])
          else if (s.sockets fd).recvPbuf = [] then some (s, true, [])
          else some ((readPbuf s.lock fd numBytes).1.unlock, true,
            (readPbuf s.lock fd numBytes).2) := by
        rw [TcpStream.read, show s.lock.handlePtr = some fd from hfd]
        dsimp only
        rw [show (s.lock.sockets fd).lwipPcb = some pcb from hpcb]
        rfl
      rw [hopen]
      split_ifs
      · exact ⟨s, true, [], rfl, rfl, iff_of_true rfl hconnected, fun habsurd => nomatch habsurd⟩
      · exact ⟨s, true, [], rfl, rfl, iff_of_true rfl hconnected, fun habsurd => nomatch habsurd⟩
      · exact ⟨_, true, _, rfl, depth_unlock (depth_readPbuf s.lock fd numBytes),
          iff_of_true rfl hconnected, fun habsurd => nomatch habsurd⟩

theorem write_spec (s : Stream) (maxBytes : Nat) (availLen : UInt16) (err : Err) :
    ∃ s' result, TcpStream.write s maxBytes availLen err = some (s', result) ∧
      s'.lockDepth = s.lockDepth ∧ (s.handlePtr = none → s'.handlePtr = none) := by
  rcases hfd : s.handlePtr with _ | fd
  · refine ⟨s, (false, 0), ?_, rfl, fun _ => hfd⟩
    rw [TcpStream.write.eq_def]
    dsimp only
    rw [show s.lock.handlePtr = none from hfd]
    rfl
  · obtain ⟨s', hclose, hdepth, hnone⟩ := @close_spec s.lock fd hfd
    have hclosed : ((TcpStream.close s.lock).map fun s => (s.unlock, false, 0)) =
        some (s'.unlock, false, 0) := by
      rw [hclose]
      rfl
    rw [TcpStream.write.eq_def]
    dsimp only
    rw [show s.lock.handlePtr = some fd from hfd]
    dsimp only
    rcases (s.lock.sockets fd).lwipPcb with _ | pcb
    · exact ⟨s'.unlock, (false, 0), hclosed, depth_unlock hdepth, fun _ => hnone⟩
    · dsimp only
      split_ifs
      · exact ⟨s, (true, 0), rfl, rfl, fun habsurd => nomatch habsurd⟩
      · exact ⟨s, (true, 0), rfl, rfl, fun habsurd => nomatch habsurd⟩
      · cases err with
        | ok => exact ⟨s, _, rfl, rfl, fun habsurd => nomatch habsurd⟩
        | mem => exact ⟨s, _, rfl, rfl, fun habsurd => nomatch habsurd⟩
        | wouldBlock | abrt | other =>
            exact ⟨s'.unlock, _, hclosed, depth_unlock hdepth, fun _ => hnone⟩

theorem activate_spec (s : Stream) (newfd : Option Nat) :
    (TcpStream.activate s newfd).lockDepth = s.lockDepth ∧
      (s.handlePtr.isSome → (TcpStream.activate s newfd).handlePtr = s.handlePtr) := by
  rcases hfd : s.handlePtr with _ | fd
  · rw [TcpStream.activate, show s.lock.handlePtr = none from hfd]
    exact ⟨rfl, fun habsurd => nomatch habsurd⟩
  · rw [TcpStream.activate, show s.lock.handlePtr = some fd from hfd]
    exact ⟨rfl, fun _ => hfd⟩

theorem error_spec (s : Stream) (arg : Option Nat) :
    (lwipCb_error s arg).lockDepth = s.lockDepth ∧
      (lwipCb_error s arg).handlePtr = s.handlePtr := by
  unfold lwipCb_error
  rcases arg with _ | fd
  · exact ⟨rfl, rfl⟩
  · dsimp only
    split_ifs <;> exact ⟨rfl, rfl⟩

theorem received_spec (s : Stream) (arg pcb : Option Nat) (pbuf : List Pbuf) (err : Err) :
    (lwipCb_dataReceived s arg pcb pbuf err).1.lockDepth = s.lockDepth ∧
      (lwipCb_dataReceived s arg pcb pbuf err).1.handlePtr = s.handlePtr := by
  unfold lwipCb_dataReceived
  rcases arg with _ | fd
  · exact ⟨rfl, rfl⟩
  · dsimp only
    split_ifs
    · -- the aborted connection reports its error at once
      obtain ⟨hdepth, hhandle⟩ := error_spec (((s.lock.free (s.lock.sockets fd).recvPbuf).free
        pbuf).setSocket fd { s.lock.sockets fd with recvPbuf := [], lwipPcb := none }) (some fd)
      exact ⟨depth_unlock hdepth, hhandle⟩
    all_goals exact ⟨rfl, rfl⟩

/-! Runs -/

/-- A closed stream has no descriptor. -/
def Inv (c : LifeCycle) : Prop :=
  c.closed = true → c.stream.handlePtr = none

theorem inv_step {action : Action} (h : Inv c) (hstep : step c action = some c') : Inv c' := by
  cases action with
  | activate newfd =>
      cases hstep
      intro hclosed
      obtain ⟨hwas, hsome⟩ := (Bool.and_eq_true _ _).mp hclosed
      rw [h hwas] at hsome
      cases hsome
  | read numBytes =>
      obtain ⟨s', result, data, hread, -, -, hnone⟩ := read_spec c.stream numBytes
      rw [step, hread] at hstep
      cases hstep
      exact fun hclosed => hnone (h hclosed)
  | write maxBytes availLen err =>
      obtain ⟨s', result, hwrite, -, hnone⟩ := write_spec c.stream maxBytes availLen err
      rw [step, hwrite] at hstep
      cases hstep
      exact fun hclosed => hnone (h hclosed)
  | available =>
      obtain ⟨result, havailable, rfl⟩ := Option.map_eq_some_iff.mp hstep
      obtain ⟨fd, -, rfl⟩ := Option.map_eq_some_iff.mp havailable
      exact h
  | flush =>
      cases hstep
      exact h
  | isEos =>
      cases hstep
      exact h
  | close =>
      obtain ⟨s', hclose, rfl⟩ := Option.map_eq_some_iff.mp hstep
      exact fun _ => handlePtr_of_close hclose
  | destroy =>
      obtain ⟨s', hclose, rfl⟩ := Option.map_eq_some_iff.mp hstep
      exact fun _ => handlePtr_of_close hclose
  | connect fd pcb =>
      cases hstep
      exact h
  | received arg pcb pbuf err =>
      cases hstep
      exact fun hclosed => (received_spec c.stream arg pcb pbuf err).2.trans (h hclosed)
  | error arg =>
      cases hstep
      exact fun hclosed => (error_spec c.stream arg).2.trans (h hclosed)

/-- Closing ends as promised just when there is a descriptor: then the stream was not closed
before. -/
theorem close_endsAsPromised_iff (h : Inv c) :
    (∃ next, (TcpStream.close c.stream).map (fun s => { c with stream := s, closed := true }) =
        some next ∧ next.stream.lockDepth = c.stream.lockDepth ∧ (c.closed = true → next = c)) ↔
      c.stream.handlePtr ≠ none := by
  rcases hfd : c.stream.handlePtr with _ | fd
  · refine iff_of_false ?_ fun hne => hne rfl
    rintro ⟨next, hstep, -⟩
    rw [close_none hfd] at hstep
    cases hstep
  · obtain ⟨s', hclose, hdepth, -⟩ := close_spec hfd
    refine iff_of_true ⟨_, by rw [hclose]; rfl, hdepth, fun hclosed => ?_⟩ (Option.some_ne_none fd)
    cases hfd.symm.trans (h hclosed)

theorem read_endsAsPromised_iff (h : Inv c) (numBytes : Nat) :
    EndsAsPromised c (.read numBytes) ↔ ¬Stale c := by
  obtain ⟨s', result, data, hread, hdepth, hresult, -⟩ := read_spec c.stream numBytes
  have hends : EndsAsPromised c (.read numBytes) ↔ (Ended c → result = false) := by
    constructor
    · rintro ⟨next, -, -, hpromised⟩ hended
      exact hpromised hended _ hread
    · intro hfalse
      refine ⟨setStream c s', by rw [step, hread]; rfl, hdepth, fun hended result' hresult' => ?_⟩
      cases hread.symm.trans hresult'
      exact hfalse hended
  rw [hends]
  constructor
  · rintro hfalse ⟨fd, hfd, hended, hempty, hpcb⟩
    have hfailed := hfalse (.inr ⟨fd, hfd, hended, hempty⟩)
    rw [hresult.mpr ⟨fd, hfd, hpcb⟩] at hfailed
    cases hfailed
  · rintro hstale (hclosed | ⟨fd, hfd, hended, hempty⟩)
    · refine Bool.eq_false_iff.mpr fun htrue => ?_
      obtain ⟨fd, hfd, -⟩ := hresult.mp htrue
      cases hfd.symm.trans (h hclosed)
    · refine Bool.eq_false_iff.mpr fun htrue => hstale ?_
      obtain ⟨fd', hfd', hpcb⟩ := hresult.mp htrue
      obtain rfl := Option.some.inj (hfd.symm.trans hfd')
      exact ⟨fd, hfd, hended, hempty, hpcb⟩

theorem endsAsPromised_iff (h : Inv c) (action : Action) :
    EndsAsPromised c action ↔ KeepsToDescriptor c action := by
  cases action with
  | activate newfd =>
      exact iff_of_true ⟨_, rfl, (activate_spec c.stream newfd).1, trivial⟩ trivial
  | read numBytes => exact read_endsAsPromised_iff h numBytes
  | write maxBytes availLen err =>
      obtain ⟨s', result, hwrite, hdepth, -⟩ := write_spec c.stream maxBytes availLen err
      exact iff_of_true ⟨setStream c s', by rw [step, hwrite]; rfl, hdepth, trivial⟩ trivial
  | available =>
      rcases hfd : c.stream.handlePtr with _ | fd
      · refine iff_of_false ?_ fun hne => hne hfd
        rintro ⟨next, hstep, -⟩
        rw [step, TcpStream.available, hfd] at hstep
        cases hstep
      · refine iff_of_true ⟨c, ?_, rfl, trivial⟩ fun hnone => by cases hfd.symm.trans hnone
        rw [step, TcpStream.available, hfd]
        rfl
  | flush =>
      refine iff_of_false ?_ id
      rintro ⟨next, hstep, hdepth, -⟩
      cases hstep
      exact absurd hdepth (Nat.ne_of_gt (Nat.lt_add_of_pos_right (Nat.succ_pos 1)))
  | isEos => exact iff_of_true ⟨c, rfl, rfl, trivial⟩ trivial
  | close => exact close_endsAsPromised_iff h
  | destroy => exact close_endsAsPromised_iff h
  | connect fd pcb => exact iff_of_true ⟨_, rfl, rfl, trivial⟩ trivial
  | received arg pcb pbuf err =>
      exact iff_of_true ⟨_, rfl, (received_spec c.stream arg pcb pbuf err).1, trivial⟩ trivial
  | error arg => exact iff_of_true ⟨_, rfl, (error_spec c.stream arg).1, trivial⟩ trivial

/-- In every run from a new stream, whatever sockets there are, the calls keep their promises if and
only if the stream is closed and asked for data only while it has a descriptor, is never flushed,
and is not read at the end of a connection that the remote end closed. -/
theorem lifeCycle_endsAsPromised_iff (s : TcpStream.Stream) (actions : List Action) :
    AllSteps step EndsAsPromised (LifeCycle.start s) actions ↔
      AllSteps step KeepsToDescriptor (LifeCycle.start s) actions :=
  allSteps_iff_of_invariant (fun _ _ _ => inv_step) (fun _ action h => endsAsPromised_iff h action)
    fun habsurd => nomatch habsurd

def opened : LifeCycle :=
  LifeCycle.start
    { handlePtr := some 0
      eos := false
      sockets := fun _ => { Socket.zero with lwipPcb := some 7 }
      lockDepth := 0
      freed := [] }

/-- A second close, a question for data to a closed stream, a flush, and a read behind the remote
end's close each break what is promised. -/
theorem lifeCycle_not_endsAsPromised :
    ¬AllSteps step EndsAsPromised opened [.close, .close] ∧
    ¬AllSteps step EndsAsPromised opened [.close, .available] ∧
    ¬AllSteps step EndsAsPromised opened [.flush] ∧
    ¬AllSteps step EndsAsPromised opened [.received (some 0) (some 7) [] .ok, .read 1] := by
  refine ⟨?_, ?_, ?_, ?_⟩
  · rintro ⟨-, hnext⟩
    obtain ⟨⟨next, hstep, -⟩, -⟩ := hnext _ rfl
    cases hstep
  · rintro ⟨-, hnext⟩
    obtain ⟨⟨next, hstep, -⟩, -⟩ := hnext _ rfl
    cases hstep
  · rintro ⟨⟨next, hstep, hdepth, -⟩, -⟩
    cases hstep
    cases hdepth
  · rintro ⟨-, hnext⟩
    obtain ⟨⟨next, hstep, -, hpromised⟩, -⟩ := hnext _ rfl
    cases hpromised (.inr ⟨0, rfl, rfl, rfl⟩) _ rfl

end ColonyPico.Io.TcpLifeCycle
