import ColonyPico.Io.PacketBuffers
import Mathlib.Logic.Function.Basic

/-!
The TCP stream over the network stack (`Cpl::Io::Tcp::InputOutput`), with the callbacks that the
stack calls for its sockets.
-/

namespace ColonyPico.Io.TcpStream

open ColonyPico.Io.PacketBuffers

inductive Err where
  | ok
  | mem
  | wouldBlock
  | abrt
  | other
  deriving DecidableEq

/-- `Socket_T`, up to the pointer that only the connector uses.  A missing control block is the null
pointer, and an empty chain a null buffer. -/
structure Socket where
  lwipPcb : Option Nat
  recvPbuf : List Pbuf
  rxOffset : UInt16
  deriving DecidableEq

def Socket.zero : Socket :=
  { lwipPcb := none, recvPbuf := [], rxOffset := 0 }

/-- The stream, the sockets its descriptors point to, the nesting depth of the network lock, and the
buffers that were deallocated. -/
structure Stream where
  handlePtr : Option Nat
  eos : Bool
  sockets : Nat → Socket
  lockDepth : Nat
  freed : List Pbuf

def Stream.lock (s : Stream) : Stream :=
  { s with lockDepth := s.lockDepth + 1 }

def Stream.unlock (s : Stream) : Stream :=
  { s with lockDepth := s.lockDepth - 1 }

def Stream.setSocket (s : Stream) (fd : Nat) (socket : Socket) : Stream :=
  { s with sockets := Function.update s.sockets fd socket }

def Stream.free (s : Stream) (chain : List Pbuf) : Stream :=
  { s with freed := s.freed ++ pbufFree chain }

/-! Methods: a result of none is a null pointer that is dereferenced -/

/-- A descriptor for an opened stream is a fatal error, and nothing happens. -/
def activate (s : Stream) (newfd : Option Nat) : Stream :=
  let s := s.lock
  match s.handlePtr with
  | none => { s with handlePtr := newfd, eos := false }.unlock
  | some _ => s.unlock

/-- The branch of `close()` for a descriptor with a control block. -/
def releaseSocket (s : Stream) (fd : Nat) : Stream :=
  match (s.sockets fd).lwipPcb with
  | none => s
  | some _ =>
      (s.free (s.sockets fd).recvPbuf).setSocket fd { s.sockets fd with recvPbuf := [] }

def close (s : Stream) : Option Stream :=
  let s := s.lock
  match s.handlePtr with
  -- without a descriptor the branch is left out, and the assignment behind it is not
  | none => none
  | some fd =>
      let s := releaseSocket s fd
      let s := s.setSocket fd { s.sockets fd with lwipPcb := none }
      some { s with handlePtr := none, eos := true }.unlock

/-- The last branch of `read()`: the bytes and the stream behind it. -/
def readPbuf (s : Stream) (fd numBytes : Nat) : Stream × List UInt8 :=
  let socket := s.sockets fd
  let remainingBytes := totLen socket.recvPbuf - socket.rxOffset
  let numBytes := if numBytes > remainingBytes.toNat then remainingBytes.toNat else numBytes
  let data := pbufCopyPartial socket.recvPbuf (.ofNat numBytes) socket.rxOffset
  let bytesRead := data.length
  if (totLen socket.recvPbuf).toNat = bytesRead + socket.rxOffset.toNat then
    ((s.free socket.recvPbuf).setSocket fd { socket with rxOffset := 0, recvPbuf := [] }, data)
  else (s.setSocket fd { socket with rxOffset := socket.rxOffset + .ofNat bytesRead }, data)

def read (s : Stream) (numBytes : Nat) : Option (Stream × Bool × List UInt8) :=
  let s := s.lock
  match s.handlePtr with
  | none => some (s.unlock, false, [])
  | some fd =>
      match (s.sockets fd).lwipPcb with
      | none => (close s).map fun s => (s.unlock, false, [])
      | some _ =>
          if numBytes = 0 then some (s.unlock, true, [])
          else if (s.sockets fd).recvPbuf = [] then some (s.unlock, true, [])
          else some ((readPbuf s fd numBytes).1.unlock, true, (readPbuf s fd numBytes).2)

def available (s : Stream) : Option (Stream × Bool) :=
  s.handlePtr.map fun fd => (s.lock.unlock, (s.sockets fd).recvPbuf ≠ [])

/-- The space of the send buffer and the result of `tcp_write()` come from the stack; the comparison
of the space with a negative error number is always false. -/
def write (s : Stream) (maxBytes : Nat) (availLen : UInt16) (err : Err) :
    Option (Stream × Bool × Nat) :=
  let s := s.lock
  match s.handlePtr with
  | none => some (s.unlock, false, 0)
  | some fd =>
      match (s.sockets fd).lwipPcb with
      | none => (close s).map fun s => (s.unlock, false, 0)
      | some _ =>
          if maxBytes = 0 then some (s.unlock, true, 0)
          else if availLen = 0 then some (s.unlock, true, 0)
          else
            match err with
            | .ok => some (s.unlock, true, min maxBytes availLen.toNat)
            | .mem => some (s.unlock, true, 0)
            | .wouldBlock | .abrt | .other => (close s).map fun s => (s.unlock, false, 0)

def flush (s : Stream) : Stream :=
  -- the source locks twice
  s.lock.lock

def isEos (s : Stream) : Stream × Bool :=
  (s.lock.unlock, s.eos)

/-! Callbacks -/

def lwipCb_error (s : Stream) (arg : Option Nat) : Stream :=
  let s := s.lock
  match arg with
  | none => s.unlock
  | some fd =>
      let socket := s.sockets fd
      let s := s.setSocket fd Socket.zero
      if socket.lwipPcb.isSome then (s.free socket.recvPbuf).unlock else s.unlock

def lwipCb_dataReceived (s : Stream) (arg pcb : Option Nat) (pbuf : List Pbuf) (err : Err) :
    Stream × Err :=
  let s := s.lock
  match arg with
  | none => (s.unlock, .abrt)
  | some fd =>
      let socket := s.sockets fd
      if pcb = none ∨ err ≠ .ok ∨ socket.lwipPcb ≠ pcb then
        let s := (s.free socket.recvPbuf).free pbuf
        let s := s.setSocket fd { socket with recvPbuf := [], lwipPcb := none }
        -- aborting a control block calls its error callback
        let s := if pcb.isSome then lwipCb_error s (some fd) else s
        (s.unlock, .abrt)
      else if pbuf = [] then (s.unlock, .ok)
      else if socket.recvPbuf ≠ [] then
        let newLen := (totLen socket.recvPbuf).toNat + (totLen pbuf).toNat
        if newLen > 0xFFFF then (s.unlock, .wouldBlock)
        else
          ((s.setSocket fd { socket with recvPbuf := pbufCat socket.recvPbuf pbuf }).unlock, .ok)
      else ((s.setSocket fd { socket with recvPbuf := pbuf }).unlock, .ok)

/-! The lock -/

variable {s s' : Stream}

@[simp] theorem lock_unlock (s : Stream) : s.lock.unlock = s := rfl

theorem depth_unlock {t : Stream} (h : t.lockDepth = s.lock.lockDepth) :
    t.unlock.lockDepth = s.lockDepth := by
  show t.lockDepth - 1 = s.lockDepth
  rw [h]
  rfl

@[simp] theorem depth_setSocket (s : Stream) (fd : Nat) (socket : Socket) :
    (s.setSocket fd socket).lockDepth = s.lockDepth := rfl

@[simp] theorem depth_free (s : Stream) (chain : List Pbuf) :
    (s.free chain).lockDepth = s.lockDepth := rfl

@[simp] theorem sockets_setSocket (s : Stream) (fd : Nat) (socket : Socket) :
    (s.setSocket fd socket).sockets fd = socket := by
  unfold Stream.setSocket
  exact Function.update_self ..

end ColonyPico.Io.TcpStream
