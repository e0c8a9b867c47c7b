import ColonyPico.Foundations.Runs
import ColonyPico.Io.TcpStream

/-!
The receive side of an open TCP stream: chains of buffers that the stack offers, and offers again
when they are refused, between reads of any lengths.
-/

namespace ColonyPico.Io.TcpReceive

open ColonyPico.Foundations.Runs
open ColonyPico.Io.PacketBuffers
open ColonyPico.Io.TcpStream

structure Packet where
  chain : List Pbuf
  nonempty : chain ≠ []
  wellFormed : WellFormed chain

/-- The stream, and the chain that the stack keeps because it was refused.  The last fields record
the data that the stack has offered, the buffers that were accepted, and the bytes that were
read. -/
structure Connection where
  stream : Stream
  refusedData : Option Packet
  delivered : List UInt8
  accepted : List Pbuf
  read : List UInt8

inductive Action where
  | receive (packet : Packet)
  | receiveAgain
  | read (numBytes : Nat)

def offer (fd pcb : Nat) (c : Connection) (packet : Packet) : Connection :=
  match lwipCb_dataReceived c.stream (some fd) (some pcb) packet.chain .ok with
  | (stream, .ok) =>
      { c with stream := stream, refusedData := none, accepted := c.accepted ++ packet.chain }
  | (stream, _) => { c with stream := stream, refusedData := some packet }

/-- New data comes only when no refused data is left; reads are of positive lengths. -/
def step (fd pcb : Nat) (c : Connection) : Action → Option Connection
  | .receive packet =>
      if c.refusedData.isNone then
        some (offer fd pcb { c with delivered := c.delivered ++ bytes packet.chain } packet)
      else none
  | .receiveAgain => c.refusedData.map (offer fd pcb c)
  | .read numBytes => do
      if numBytes = 0 then none
      let (stream, _, data) ← TcpStream.read c.stream numBytes
      some { c with stream := stream, read := c.read ++ data }

/-- A stream whose socket was just set up for a connection. -/
def Connection.start (fd pcb : Nat) (s : Stream) : Connection :=
  { stream :=
      { s.setSocket fd { Socket.zero with lwipPcb := some pcb } with
        handlePtr := some fd, freed := [] }
    refusedData := none
    delivered := []
    accepted := []
    read := [] }

/-- What identifies a buffer: its address and its data. -/
def identity (p : Pbuf) : Nat × List UInt8 :=
  (p.address, p.payload)

/-- The accepted buffers are those that were freed and those of the pending chain; the bytes of the
former, and those in front of the offset, are the bytes that were read. -/
structure Pending (socket : Socket) (freed accepted : List Pbuf) (read : List UInt8) : Prop where
  wellFormed : WellFormed socket.recvPbuf
  offset : socket.rxOffset.toNat < (bytes socket.recvPbuf).length ∨
    socket.rxOffset = 0 ∧ bytes socket.recvPbuf = []
  buffers : accepted.map identity = freed.map identity ++ socket.recvPbuf.map identity
  read : read = bytes freed ++ (bytes socket.recvPbuf).take socket.rxOffset.toNat

variable {fd pcb : Nat} {c c' : Connection} {socket : Socket} {freed accepted : List Pbuf}
  {read : List UInt8}

theorem Pending.offset_le (h : Pending socket freed accepted read) :
    socket.rxOffset.toNat ≤ (bytes socket.recvPbuf).length := by
  rcases h.offset with hlt | ⟨hzero, hempty⟩
  · exact Nat.le_of_lt hlt
  · rw [hzero, hempty]
    exact Nat.le_refl 0

theorem bytes_of_identity {xs ys : List Pbuf} (h : xs.map identity = ys.map identity) :
    bytes xs = bytes ys := by
  have hbytes : ∀ zs : List Pbuf, bytes zs = (zs.map identity).flatMap Prod.snd := by
    intro zs
    rw [List.flatMap_map]
    rfl
  rw [hbytes, hbytes, h]

/-- What was accepted and not yet read lies behind the offset of the pending chain. -/
theorem Pending.accepted_eq (h : Pending socket freed accepted read) :
    bytes accepted = read ++ (bytes socket.recvPbuf).drop socket.rxOffset.toNat := by
  have hbytes : bytes accepted = bytes (freed ++ socket.recvPbuf) :=
    bytes_of_identity (by rw [h.buffers, List.map_append])
  rw [hbytes, bytes_append, h.read, List.append_assoc, List.take_append_drop]

theorem Pending.append (h : Pending socket freed accepted read) {chain : List Pbuf}
    (hchain : WellFormed chain)
    (hfits : (bytes socket.recvPbuf).length + (bytes chain).length < 2 ^ 16) :
    Pending { socket with recvPbuf := pbufCat socket.recvPbuf chain } freed (accepted ++ chain)
      read := by
  constructor
  · exact wellFormed_pbufCat h.wellFormed hchain hfits
  · rw [bytes_pbufCat, List.length_append]
    rcases h.offset with hlt | ⟨hzero, hempty⟩
    · exact .inl (Nat.lt_add_right _ hlt)
    · rw [hzero, hempty]
      rcases List.eq_nil_or_concat (bytes chain) with hnil | ⟨front, last, hlast⟩
      · exact .inr ⟨rfl, hnil⟩
      · rw [hlast, List.concat_eq_append, List.length_append]
        exact .inl (Nat.succ_pos _)
  · rw [List.map_append, h.buffers, List.append_assoc]
    exact congrArg _ (map_pbufCat Prod.mk _ chain).symm
  · rw [bytes_pbufCat, List.take_append_of_le_length h.offset_le]
    exact h.read

/-- A read that leaves some of the pending bytes moves the offset. -/
theorem Pending.advance (h : Pending socket freed accepted read) {n : Nat}
    (hn : socket.rxOffset.toNat + n < (bytes socket.recvPbuf).length) :
    Pending { socket with rxOffset := socket.rxOffset + .ofNat n } freed accepted
      (read ++ ((bytes socket.recvPbuf).drop socket.rxOffset.toNat).take n) := by
  have hlt := h.wellFormed.length_lt
  have hoffset : (socket.rxOffset + UInt16.ofNat n).toNat = socket.rxOffset.toNat + n := by
    rw [UInt16.toNat_add, UInt16.toNat_ofNat', Nat.mod_eq_of_lt (show n < 2 ^ 16 by omega)]
    exact Nat.mod_eq_of_lt (by omega)
  constructor
  · exact h.wellFormed
  · left
    rw [hoffset]
    exact hn
  · exact h.buffers
  · rw [hoffset, List.take_add, h.read, List.append_assoc]

theorem Pending.finish (h : Pending socket freed accepted read) :
    Pending { socket with rxOffset := 0, recvPbuf := [] } (freed ++ socket.recvPbuf) accepted
      (read ++ (bytes socket.recvPbuf).drop socket.rxOffset.toNat) := by
  constructor
  · exact trivial
  · exact .inr ⟨rfl, rfl⟩
  · rw [h.buffers, List.map_append, List.map_nil, List.append_nil]
  · rw [h.read, List.append_assoc, List.take_append_drop, bytes_append]
    exact (List.append_nil _).symm

/-! Steps -/

structure Inv (fd pcb : Nat) (c : Connection) : Prop where
  handlePtr : c.stream.handlePtr = some fd
  lwipPcb : (c.stream.sockets fd).lwipPcb = some pcb
  pending : Pending (c.stream.sockets fd) c.stream.freed c.accepted c.read
  delivered : c.delivered = bytes c.accepted ++ (c.refusedData.map (bytes ·.chain)).getD []

theorem inv_start (fd pcb : Nat) (s : Stream) : Inv fd pcb (Connection.start fd pcb s) := by
  have hsocket : (Connection.start fd pcb s).stream.sockets fd =
      { Socket.zero with lwipPcb := some pcb } :=
    sockets_setSocket s fd _
  constructor
  · rfl
  · rw [hsocket]
  · rw [hsocket]
    exact ⟨trivial, .inr ⟨rfl, rfl⟩, rfl, rfl⟩
  · rfl

/-- The callback on an open connection refuses the chain, or appends it within 16 bits. -/
theorem dataReceived_open {s : Stream} (hpcb : (s.sockets fd).lwipPcb = some pcb)
    (hwf : WellFormed (s.sockets fd).recvPbuf) (packet : Packet) :
    lwipCb_dataReceived s (some fd) (some pcb) packet.chain .ok = (s, .wouldBlock) ∨
      (bytes (s.sockets fd).recvPbuf).length + (bytes packet.chain).length < 2 ^ 16 ∧
        lwipCb_dataReceived s (some fd) (some pcb) packet.chain .ok =
          (s.setSocket fd { s.sockets fd with
            recvPbuf := pbufCat (s.sockets fd).recvPbuf packet.chain }, .ok) := by
  have hopen : ¬(some pcb = none ∨ Err.ok ≠ .ok ∨ (s.lock.sockets fd).lwipPcb ≠ some pcb) := by
    rintro (habsurd | habsurd | habsurd)
    · cases habsurd
    · exact habsurd rfl
    · exact habsurd hpcb
  have hlengths : (totLen (s.lock.sockets fd).recvPbuf).toNat + (totLen packet.chain).toNat =
      (bytes (s.sockets fd).recvPbuf).length + (bytes packet.chain).length :=
    congrArg₂ (· + ·) hwf.totLen_toNat packet.wellFormed.totLen_toNat
  rw [lwipCb_dataReceived]
  dsimp only
  rw [if_neg hopen, if_neg packet.nonempty, hlengths]
  split_ifs with hpending hlong
  · exact .inl rfl
  · exact .inr ⟨by omega, rfl⟩
  · have hempty : (s.sockets fd).recvPbuf = [] := not_not.mp hpending
    have hlength := packet.wellFormed.length_lt
    rw [hempty]
    refine .inr ⟨?_, rfl⟩
    show 0 + (bytes packet.chain).length < 2 ^ 16
    rwa [Nat.zero_add]

theorem inv_offer {packet : Packet} (h : Inv fd pcb { c with refusedData := some packet }) :
    Inv fd pcb (offer fd pcb c packet) := by
  obtain ⟨hhandle, hpcb, hpending, hdelivered⟩ := h
  rcases dataReceived_open hpcb hpending.wellFormed packet with hrefused | ⟨hfits, haccepted⟩
  · dsimp only at hrefused
    rw [offer, hrefused]
    exact ⟨hhandle, hpcb, hpending, hdelivered⟩
  · dsimp only at haccepted
    rw [offer, haccepted]
    have happended := hpending.append packet.wellFormed hfits
    constructor
    · exact hhandle
    · rw [sockets_setSocket]
      exact hpcb
    · rw [sockets_setSocket]
      exact happended
    · show c.delivered = bytes (c.accepted ++ packet.chain) ++ []
      rw [bytes_append, List.append_nil]
      exact hdelivered

/-- The bytes of a read are the first of those that are pending. -/
theorem readPbuf_spec {s : Stream} (h : Pending (s.sockets fd) freed accepted read)
    (numBytes : Nat) :
    (readPbuf s fd numBytes).2 =
        ((bytes (s.sockets fd).recvPbuf).drop (s.sockets fd).rxOffset.toNat).take numBytes ∧
      (readPbuf s fd numBytes).1 =
        if (bytes (s.sockets fd).recvPbuf).length ≤ (s.sockets fd).rxOffset.toNat + numBytes then
          { s with freed := s.freed ++ (s.sockets fd).recvPbuf }.setSocket fd
            { s.sockets fd with rxOffset := 0, recvPbuf := [] }
        else
          s.setSocket fd
            { s.sockets fd with rxOffset := (s.sockets fd).rxOffset + .ofNat numBytes } := by
  generalize hsocket : s.sockets fd = socket at h
  have hle := h.offset_le
  have hlt := h.wellFormed.length_lt
  have htot := h.wellFormed.totLen_toNat
  have hremaining : (totLen socket.recvPbuf - socket.rxOffset).toNat =
      (bytes socket.recvPbuf).length - socket.rxOffset.toNat := by
    rw [UInt16.toNat_sub_of_le _ _ (UInt16.le_iff_toNat_le.mpr (by rw [htot]; exact hle)), htot]
  have hnum : (if numBytes > (totLen socket.recvPbuf - socket.rxOffset).toNat then
      (totLen socket.recvPbuf - socket.rxOffset).toNat else numBytes) =
      min numBytes ((bytes socket.recvPbuf).length - socket.rxOffset.toNat) := by
    rw [hremaining]
    split_ifs <;> omega
  have hmod : (UInt16.ofNat (min numBytes
      ((bytes socket.recvPbuf).length - socket.rxOffset.toNat))).toNat =
        min numBytes ((bytes socket.recvPbuf).length - socket.rxOffset.toNat) := by
    rw [UInt16.toNat_ofNat']
    exact Nat.mod_eq_of_lt (by omega)
  have hdata : pbufCopyPartial socket.recvPbuf (.ofNat (min numBytes
      ((bytes socket.recvPbuf).length - socket.rxOffset.toNat))) socket.rxOffset =
        ((bytes socket.recvPbuf).drop socket.rxOffset.toNat).take numBytes := by
    rw [pbufCopyPartial_eq h.wellFormed, hmod, ← List.length_drop, ← List.take_eq_take_min]
  have hlength : (((bytes socket.recvPbuf).drop socket.rxOffset.toNat).take numBytes).length =
      min numBytes ((bytes socket.recvPbuf).length - socket.rxOffset.toNat) := by
    rw [List.length_take, List.length_drop]
  unfold readPbuf
  simp only [hsocket, hnum, hdata, hlength, htot]
  split_ifs with hall hmost hmost
  · refine ⟨rfl, ?_⟩
    rw [Stream.free, pbufFree_eq h.wellFormed]
  · omega
  · omega
  · rw [Nat.min_eq_left (by omega)]
    exact ⟨rfl, rfl⟩

theorem read_open {s : Stream} (hhandle : s.handlePtr = some fd)
    (hpcb : (s.sockets fd).lwipPcb = some pcb)
    (h : Pending (s.sockets fd) s.freed accepted read) {numBytes : Nat} (hpos : numBytes ≠ 0) :
    ∃ stream data, TcpStream.read s numBytes = some (stream, true, data) ∧
      data =
        ((bytes (s.sockets fd).recvPbuf).drop (s.sockets fd).rxOffset.toNat).take numBytes ∧
      stream.handlePtr = some fd ∧ (stream.sockets fd).lwipPcb = some pcb ∧
      Pending (stream.sockets fd) stream.freed accepted (read ++ data) := by
  have hread : TcpStream.read s numBytes =
      if (s.sockets fd).recvPbuf = [] then some (s, true, [])
      else
        some ((readPbuf s.lock fd numBytes).1.unlock, true, (readPbuf s.lock fd numBytes).2) := by
    rw [TcpStream.read, show s.lock.handlePtr = some fd from hhandle]
    dsimp only
    rw [show (s.lock.sockets fd).lwipPcb = some pcb from hpcb]
    exact if_neg hpos
  rw [hread]
  split_ifs with hempty
  · refine ⟨s, [], rfl, ?_, hhandle, hpcb, ?_⟩
    · rw [hempty]
      show [] = (([] : List UInt8).drop (s.sockets fd).rxOffset.toNat).take numBytes
      rw [List.drop_nil, List.take_nil]
    · rw [List.append_nil]
      exact h
  · obtain ⟨hdata, hstream⟩ := @readPbuf_spec fd s.freed accepted read s.lock h numBytes
    refine ⟨_, _, rfl, hdata, ?_⟩
    rw [hstream, hdata]
    split_ifs with hall
    · have hdrop : ((bytes (s.sockets fd).recvPbuf).drop (s.sockets fd).rxOffset.toNat).take
          numBytes = (bytes (s.sockets fd).recvPbuf).drop (s.sockets fd).rxOffset.toNat := by
        refine List.take_of_length_le ?_
        rw [List.length_drop]
        exact Nat.sub_le_iff_le_add'.mpr hall
      refine ⟨hhandle, ?_, ?_⟩
      · exact (congrArg Socket.lwipPcb (sockets_setSocket _ fd _)).trans hpcb
      · have hfinish := h.finish
        rw [← hdrop] at hfinish
        exact (congrArg₂ (fun socket freed => Pending socket freed accepted _)
          (sockets_setSocket _ fd _) rfl).mpr hfinish
    · refine ⟨hhandle, ?_, ?_⟩
      · exact (congrArg Socket.lwipPcb (sockets_setSocket _ fd _)).trans hpcb
      · exact (congrArg₂ (fun socket freed => Pending socket freed accepted _)
          (sockets_setSocket _ fd _) rfl).mpr (h.advance (Nat.not_le.mp hall))

theorem inv_step {action : Action} (h : Inv fd pcb c) (hstep : step fd pcb c action = some c') :
    Inv fd pcb c' := by
  cases action with
  | receive packet =>
      simp only [step] at hstep
      split_ifs at hstep with hnone
      cases hstep
      apply inv_offer
      obtain ⟨hhandle, hpcb, hpending, hdelivered⟩ := h
      refine ⟨hhandle, hpcb, hpending, ?_⟩
      show c.delivered ++ bytes packet.chain = bytes c.accepted ++ bytes packet.chain
      rw [hdelivered, Option.isNone_iff_eq_none.mp hnone]
      exact congrArg (· ++ bytes packet.chain) (List.append_nil _)
  | receiveAgain =>
      obtain ⟨packet, hpacket, rfl⟩ := Option.map_eq_some_iff.mp hstep
      apply inv_offer
      rw [← hpacket]
      exact h
  | read numBytes =>
      obtain ⟨hhandle, hpcb, hpending, hdelivered⟩ := h
      rcases Decidable.em (numBytes = 0) with rfl | hpos
      · cases hstep
      · obtain ⟨stream, data, hread, -, hhandle', hpcb', hpending'⟩ :=
          read_open hhandle hpcb hpending hpos
        rw [step, if_neg hpos, hread] at hstep
        cases hstep
        exact ⟨hhandle', hpcb', hpending', hdelivered⟩

/-- On an open connection the bytes that were read are the first of the delivered ones; a read that
gives nothing finds every accepted byte read; offset and length stay in bounds; and the accepted
buffers are freed once each, in their order, when their bytes were read. -/
theorem tcp_receives (fd pcb : Nat) (s : Stream) {actions : List Action}
    (hrun : run (step fd pcb) (Connection.start fd pcb s) actions = some c) :
    c.read <+: c.delivered ∧
    (∀ numBytes, numBytes ≠ 0 → ∃ stream data,
      TcpStream.read c.stream numBytes = some (stream, true, data) ∧
        (data = [] → c.read = bytes c.accepted)) ∧
    (c.stream.sockets fd).rxOffset ≤ totLen (c.stream.sockets fd).recvPbuf ∧
    (totLen (c.stream.sockets fd).recvPbuf).toNat =
      (bytes (c.stream.sockets fd).recvPbuf).length ∧
    c.accepted.map identity =
      c.stream.freed.map identity ++ (c.stream.sockets fd).recvPbuf.map identity ∧
    bytes c.stream.freed <+: c.read ∧
    (c.read = bytes c.accepted → bytes (c.stream.sockets fd).recvPbuf = []) := by
  obtain ⟨hhandle, hpcb, hpending, hdelivered⟩ :=
    invariant_always (fun _ _ _ => inv_step) (inv_start fd pcb s) hrun
  have haccepted := hpending.accepted_eq
  have hdrained : c.read = bytes c.accepted →
      (bytes (c.stream.sockets fd).recvPbuf).drop (c.stream.sockets fd).rxOffset.toNat = [] := by
    intro heq
    rw [← heq] at haccepted
    exact List.self_eq_append_right.mp haccepted
  refine ⟨?_, ?_, ?_, hpending.wellFormed.totLen_toNat, hpending.buffers, ?_, ?_⟩
  · rw [hdelivered, haccepted, List.append_assoc]
    exact List.prefix_append _ _
  · intro numBytes hpos
    obtain ⟨stream, data, hread, hdata, -⟩ := read_open hhandle hpcb hpending hpos
    refine ⟨stream, data, hread, fun hnil => ?_⟩
    rw [hdata, List.take_eq_nil_iff] at hnil
    rw [haccepted, hnil.resolve_left hpos, List.append_nil]
  · rw [UInt16.le_iff_toNat_le, hpending.wellFormed.totLen_toNat]
    exact hpending.offset_le
  · rw [hpending.read]
    exact List.prefix_append _ _
  · intro heq
    rcases hpending.offset with hlt | ⟨-, hempty⟩
    · exact absurd (List.drop_eq_nil_iff.mp (hdrained heq)) (Nat.not_le.mpr hlt)
    · exact hempty

/-- A chain of two buffers of which two bytes are read, a second chain, and a read of the rest. -/
theorem tcp_receives_two :
    ∃ c, run (step 0 7) (Connection.start 0 7 ⟨none, false, fun _ => Socket.zero, 0, []⟩)
        [.receive ⟨[⟨1, [10, 11], 3, 1⟩, ⟨2, [12], 1, 1⟩], by decide, rfl, rfl, rfl, rfl, trivial⟩,
          .read 2, .receive ⟨[⟨3, [13], 1, 1⟩], by decide, rfl, rfl, trivial⟩, .read 5] = some c ∧
      c.read = [10, 11, 12, 13] ∧ c.read <+: c.delivered ∧
      c.stream.freed.map identity = [(1, [10, 11]), (2, [12]), (3, [13])] := by
  have hrun : run (step 0 7) (Connection.start 0 7 ⟨none, false, fun _ => Socket.zero, 0, []⟩)
      [.receive ⟨[⟨1, [10, 11], 3, 1⟩, ⟨2, [12], 1, 1⟩], by decide, rfl, rfl, rfl, rfl, trivial⟩,
        .read 2, .receive ⟨[⟨3, [13], 1, 1⟩], by decide, rfl, rfl, trivial⟩, .read 5] = some _ :=
    rfl
  have hreceives := tcp_receives 0 7 _ hrun
  exact ⟨_, hrun, rfl, hreceives.1, rfl⟩

end ColonyPico.Io.TcpReceive
