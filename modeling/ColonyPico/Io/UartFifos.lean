import ColonyPico.Foundations.CircularSlots
import Mathlib.Logic.Relation

/-!
The software FIFOs of the RP2040 UART stream (`Cpl::Io::Serial::RP2040::Uart::InputOutput`), driven
by the calls of the application and by the interrupt handler, between two hardware FIFOs of any
depth.
-/

namespace ColonyPico.Io.UartFifos

open ColonyPico.Foundations.CircularSlots

/-! A software FIFO -/

def advancePointer (ptrToAdvance memSize : Nat) : Nat :=
  let newPtr := ptrToAdvance + 1
  if memSize ≤ newPtr then 0 else newPtr

/-- The memory of a FIFO, with the offsets of its two pointers. -/
structure Fifo where
  buffer : List UInt8
  bufSize : Nat
  head : Nat
  tail : Nat

/-- The FIFO with a byte more, unless it is full. -/
def Fifo.put (f : Fifo) (c : UInt8) : Option Fifo :=
  let newHead := advancePointer f.head f.bufSize
  if newHead = f.tail then none
  else some { f with buffer := f.buffer.set f.head c, head := newHead }

/-- The next byte and the FIFO without it, unless it is empty. -/
def Fifo.get (f : Fifo) : Option (UInt8 × Fifo) :=
  if f.head = f.tail then none
  else f.buffer[f.tail]?.map fun c => (c, { f with tail := advancePointer f.tail f.bufSize })

def Fifo.unread (f : Fifo) : Nat :=
  (f.head + f.bufSize - f.tail) % f.bufSize

/-- The bytes that fit are put in; their number is returned. -/
def Fifo.putAll (f : Fifo) : List UInt8 → Fifo × Nat
  | [] => (f, 0)
  | c :: src =>
      match f.put c with
      | none => (f, 0)
      | some f =>
          let (f, bytesWritten) := f.putAll src
          (f, bytesWritten + 1)

/-- At most `limit` bytes are taken out. -/
def Fifo.getUpTo (f : Fifo) : Nat → List UInt8 × Fifo
  | 0 => ([], f)
  | limit + 1 =>
      match f.get with
      | none => ([], f)
      | some (c, f) =>
          let (dst, f) := f.getUpTo limit
          (c :: dst, f)

/-- A byte that was read from the hardware, whether it was kept, and how many bytes were unread. -/
structure Arrival where
  byte : UInt8
  kept : Bool
  unread : Nat

/-- The loop that drains the hardware receive FIFO and discards what finds no room. -/
def Fifo.drainHw (f : Fifo) : List UInt8 → Fifo × List Arrival
  | [] => (f, [])
  | c :: hw =>
      match f.put c with
      | none =>
          let (next, arrivals) := f.drainHw hw
          (next, ⟨c, false, f.unread⟩ :: arrivals)
      | some f' =>
          let (next, arrivals) := f'.drainHw hw
          (next, ⟨c, true, f.unread⟩ :: arrivals)

/-! The stream -/

/-- Where a run of the interrupt handler is, with the flags it read. -/
inductive Handler where
  | outside
  | entered (rxFlag txFlag : Bool)
  | received (txFlag : Bool)

/-- The stream, the hardware and the handler.  The last fields record the bytes `write()` accepted,
the bytes put into the transmitter, the bytes the hardware received, what became of those that were
read from it, and the bytes `read()` returned. -/
structure System where
  tx : Fifo
  rx : Fifo
  rxIrq : Bool
  txIrq : Bool
  hwTx : List UInt8
  hwRx : List UInt8
  hwTxDepth : Nat
  hwRxDepth : Nat
  handler : Handler
  accepted : List UInt8
  transmitted : List UInt8
  incoming : List UInt8
  arrivals : List Arrival
  returned : List UInt8

def System.start (memTxBuffer : List UInt8) (txBufSize : Nat) (memRxBuffer : List UInt8)
    (rxBufSize hwTxDepth hwRxDepth : Nat) : System :=
  { tx := ⟨memTxBuffer, txBufSize, 0, 0⟩
    rx := ⟨memRxBuffer, rxBufSize, 0, 0⟩
    rxIrq := true
    txIrq := false
    hwTx := []
    hwRx := []
    hwTxDepth := hwTxDepth
    hwRxDepth := hwRxDepth
    handler := .outside
    accepted := []
    transmitted := []
    incoming := []
    arrivals := []
    returned := [] }

def setIrqEnables (s : System) (rxIrq txIrq : Bool) : System :=
  { s with rxIrq := rxIrq, txIrq := txIrq }

/-- The hardware transmit FIFO is writable as long as it has room. -/
def fillHwTxFifo (s : System) : System :=
  let (bytes, tx) := s.tx.getUpTo (s.hwTxDepth - s.hwTx.length)
  { s with
    tx := tx
    hwTx := s.hwTx ++ bytes
    transmitted := s.transmitted ++ bytes }

def read (s : System) (numBytes : Nat) : System :=
  let (bytes, rx) := s.rx.getUpTo numBytes
  { s with rx := rx, returned := s.returned ++ bytes }

def write (s : System) (data : List UInt8) : System :=
  if data = [] then s
  else
    let (tx, bytesWritten) := s.tx.putAll data
    let s := { s with tx := tx, accepted := s.accepted ++ data.take bytesWritten }
    fillHwTxFifo (setIrqEnables s true true)

def receiveIrq (s : System) : System :=
  let (rx, arrivals) := s.rx.drainHw s.hwRx
  { s with rx := rx, hwRx := [], arrivals := s.arrivals ++ arrivals }

def transmitIrq (s : System) : System :=
  let s := fillHwTxFifo s
  if s.tx.tail = s.tx.head then setIrqEnables s true false else s

inductive Action where
  | read (numBytes : Nat)
  | write (data : List UInt8)
  /-- The handler starts and reads the masked interrupt status. -/
  | irq (rxRaw txRaw : Bool)
  /-- The next part of the handler. -/
  | handler
  /-- A byte comes in; the hardware loses it if its FIFO is full. -/
  | hwReceive (byte : UInt8)
  /-- The transmitter sends a byte. -/
  | hwTransmit

def step (s : System) : Action → Option System
  | .read numBytes => some (read s numBytes)
  | .write data => some (write s data)
  | .irq rxRaw txRaw =>
      match s.handler with
      | .outside => some { s with handler := .entered (rxRaw && s.rxIrq) (txRaw && s.txIrq) }
      | _ => none
  | .handler =>
      match s.handler with
      | .outside => none
      | .entered rxFlag txFlag =>
          let s := if rxFlag then receiveIrq s else s
          some { s with handler := .received txFlag }
      | .received txFlag =>
          let s := if txFlag then transmitIrq s else s
          some { s with handler := .outside }
  | .hwReceive byte =>
      if s.hwRx.length < s.hwRxDepth then
        some { s with hwRx := s.hwRx ++ [byte], incoming := s.incoming ++ [byte] }
      else some s
  | .hwTransmit => some { s with hwTx := s.hwTx.tail }

/-! FIFOs as queues -/

/-- How a FIFO of `n` cells represents a queue. -/
structure Represents (n : Nat) (f : Fifo) (q : List UInt8) : Prop where
  bufSize : f.bufSize = n
  length : f.buffer.length = n
  tail_lt : f.tail < n
  fits : q.length < n
  head : f.head = slot n f.tail q.length
  holds : Holds n (fun i => f.buffer[i]?) f.tail q

section Represents

variable {n : Nat} {f : Fifo} {q : List UInt8}

theorem represents_empty {memory : List UInt8} (hpos : 0 < n) (hlen : memory.length = n) :
    Represents n ⟨memory, n, 0, 0⟩ [] := by
  refine ⟨rfl, hlen, hpos, hpos, ?_, holds_nil _ _ _⟩
  exact (Nat.mod_eq_of_lt hpos).symm

theorem Represents.advancePointer_eq (h : Represents n f q) {ptr : Nat} (hptr : ptr < n) :
    advancePointer ptr f.bufSize = slot n ptr 1 := by
  have hpos := Nat.lt_of_le_of_lt (Nat.zero_le _) hptr
  rw [h.bufSize, advancePointer, slot_eq hptr (by omega)]
  split_ifs <;> omega

theorem Represents.head_eq (h : Represents n f q) :
    f.head = if f.tail + q.length < n then f.tail + q.length else f.tail + q.length - n := by
  rw [h.head, slot_eq h.tail_lt (Nat.le_of_lt h.fits)]

theorem Represents.head_lt (h : Represents n f q) : f.head < n := by
  rw [h.head]
  exact slot_lt (Nat.lt_of_le_of_lt (Nat.zero_le _) h.fits) _ _

theorem Represents.empty_iff (h : Represents n f q) : f.head = f.tail ↔ q = [] := by
  have htail := h.tail_lt
  have hfits := h.fits
  have heq := h.head_eq
  rw [← List.length_eq_zero_iff]
  split_ifs at heq <;> omega

theorem Represents.full_iff (h : Represents n f q) :
    advancePointer f.head f.bufSize = f.tail ↔ q.length = n - 1 := by
  have htail := h.tail_lt
  have hfits := h.fits
  have heq := h.head_eq
  have hhead := h.head_lt
  rw [h.advancePointer_eq hhead, slot_eq hhead (by omega)]
  split_ifs at heq ⊢ <;> omega

theorem Represents.unread_eq (h : Represents n f q) : f.unread = q.length := by
  have htail := h.tail_lt
  have hfits := h.fits
  have heq := h.head_eq
  rw [Fifo.unread, h.bufSize]
  split_ifs at heq with hflat
  · have hsum : f.head + n - f.tail = q.length + n := by omega
    rw [hsum, Nat.add_mod_right]
    exact Nat.mod_eq_of_lt hfits
  · have hsum : f.head + n - f.tail = q.length := by omega
    rw [hsum]
    exact Nat.mod_eq_of_lt hfits

theorem Represents.put_full (h : Represents n f q) (hfull : q.length = n - 1) (c : UInt8) :
    f.put c = none :=
  if_pos (h.full_iff.mpr hfull)

theorem Represents.put_room (h : Represents n f q) (hroom : q.length ≠ n - 1) (c : UInt8) :
    ∃ f', f.put c = some f' ∧ Represents n f' (q ++ [c]) := by
  have htail := h.tail_lt
  have hfits := h.fits
  have hhead := h.head_lt
  refine ⟨_, if_neg (fun hnext => hroom (h.full_iff.mp hnext)), h.bufSize, ?_, htail, ?_, ?_, ?_⟩
  · exact (List.length_set).trans h.length
  · rw [List.length_append, List.length_singleton]
    omega
  · show advancePointer f.head f.bufSize = slot n f.tail (q ++ [c]).length
    rw [h.advancePointer_eq hhead, h.head, slot_slot, List.length_append, List.length_singleton]
  · apply Holds.append
    · apply h.holds.congr
      intro i hi
      apply List.getElem?_set_ne
      rw [h.head]
      intro heq
      have hsame := slot_inj htail hfits (Nat.lt_trans hi hfits) heq
      omega
    · intro i hi
      have hzero : i = 0 := by simpa using hi
      show (f.buffer.set f.head c)[slot n (slot n f.tail q.length) i]? = [c][i]?
      rw [← h.head, hzero, slot, Nat.add_zero, Nat.mod_eq_of_lt hhead,
        List.getElem?_set_self (by rw [h.length]; exact hhead)]
      rfl

theorem Represents.get_nil (h : Represents n f []) : f.get = none :=
  if_pos (h.empty_iff.mpr rfl)

theorem Represents.get_cons {c : UInt8} (h : Represents n f (c :: q)) :
    ∃ f', f.get = some (c, f') ∧ Represents n f' q := by
  have htail := h.tail_lt
  have hfits := h.fits
  rw [List.length_cons] at hfits
  have hfirst : f.buffer[f.tail]? = some c := by
    have hzero := h.holds 0 (Nat.succ_pos _)
    rwa [slot, Nat.add_zero, Nat.mod_eq_of_lt htail] at hzero
  have hne : f.head ≠ f.tail := fun hempty => List.cons_ne_nil c q (h.empty_iff.mp hempty)
  refine ⟨{ f with tail := advancePointer f.tail f.bufSize }, ?_, h.bufSize, h.length,
    ?_, ?_, ?_, ?_⟩
  · rw [Fifo.get, if_neg hne, hfirst]
    rfl
  · show advancePointer f.tail f.bufSize < n
    rw [h.advancePointer_eq htail]
    exact slot_lt (by omega) _ _
  · omega
  · show f.head = slot n (advancePointer f.tail f.bufSize) q.length
    rw [h.advancePointer_eq htail, slot_slot, h.head, List.length_cons, Nat.add_comm 1]
  · show Holds n (fun i => f.buffer[i]?) (advancePointer f.tail f.bufSize) q
    rw [h.advancePointer_eq htail]
    exact h.holds.drop 1

/-- What is put in is the front of the source, as far as it fits. -/
theorem Represents.putAll (h : Represents n f q) (src : List UInt8) :
    Represents n (f.putAll src).1 (q ++ src.take (n - 1 - q.length)) ∧
      src.take (f.putAll src).2 = src.take (n - 1 - q.length) := by
  induction src generalizing f q with
  | nil =>
      rw [Fifo.putAll, List.take_nil, List.take_nil, List.append_nil]
      exact ⟨h, rfl⟩
  | cons c src ih =>
      rcases Decidable.em (q.length = n - 1) with hfull | hroom
      · have hnone : n - 1 - q.length = 0 := by omega
        rw [Fifo.putAll, h.put_full hfull, hnone]
        dsimp only
        rw [List.take_zero, List.append_nil]
        exact ⟨h, rfl⟩
      · obtain ⟨f', hput, hnext⟩ := h.put_room hroom c
        obtain ⟨hrest, hcount⟩ := ih hnext
        have hfits := h.fits
        have hsome : n - 1 - q.length = n - 1 - (q ++ [c]).length + 1 := by
          rw [List.length_append, List.length_singleton]
          omega
        rw [Fifo.putAll, hput, hsome, List.take_succ_cons]
        rw [List.append_assoc] at hrest
        exact ⟨hrest, congrArg (List.cons c) hcount⟩

/-- What is taken out is the front of the queue. -/
theorem Represents.getUpTo (h : Represents n f q) (limit : Nat) :
    Represents n (f.getUpTo limit).2 (q.drop limit) ∧ (f.getUpTo limit).1 = q.take limit := by
  induction limit generalizing f q with
  | zero => exact ⟨h, rfl⟩
  | succ limit ih =>
      rcases q with _ | ⟨c, q⟩
      · rw [Fifo.getUpTo, h.get_nil]
        exact ⟨h, rfl⟩
      · obtain ⟨f', hget, hnext⟩ := h.get_cons
        obtain ⟨hrest, hfront⟩ := ih hnext
        rw [Fifo.getUpTo, hget]
        exact ⟨hrest, congrArg (List.cons c) hfront⟩

/-- The bytes of a list of arrivals that were kept. -/
def keptBytes (arrivals : List Arrival) : List UInt8 :=
  (arrivals.filter Arrival.kept).map Arrival.byte

theorem keptBytes_append (xs ys : List Arrival) :
    keptBytes (xs ++ ys) = keptBytes xs ++ keptBytes ys := by
  rw [keptBytes, List.filter_append, List.map_append]
  rfl

/-- Draining the hardware keeps every byte that finds room, in order. -/
theorem Represents.drainHw (h : Represents n f q) (hw : List UInt8) :
    Represents n (f.drainHw hw).1 (q ++ keptBytes (f.drainHw hw).2) ∧
      (f.drainHw hw).2.map Arrival.byte = hw ∧
      (∀ a ∈ (f.drainHw hw).2, a.kept = false → a.unread = n - 1) := by
  induction hw generalizing f q with
  | nil =>
      refine ⟨?_, rfl, fun a ha => by cases ha⟩
      rw [Fifo.drainHw, keptBytes, List.filter_nil, List.map_nil, List.append_nil]
      exact h
  | cons c hw ih =>
      rcases Decidable.em (q.length = n - 1) with hfull | hroom
      · obtain ⟨hrep, hbytes, hdropped⟩ := ih h
        rw [Fifo.drainHw, h.put_full hfull]
        refine ⟨hrep, congrArg (List.cons c) hbytes, ?_⟩
        rintro a (_ | ⟨_, ha⟩) hkept
        · exact h.unread_eq.trans hfull
        · exact hdropped a ha hkept
      · obtain ⟨f', hput, hnext⟩ := h.put_room hroom c
        obtain ⟨hrep, hbytes, hdropped⟩ := ih hnext
        rw [Fifo.drainHw, hput]
        refine ⟨?_, congrArg (List.cons c) hbytes, ?_⟩
        · rw [List.append_assoc] at hrep
          exact hrep
        · rintro a (_ | ⟨_, ha⟩) hkept
          · cases hkept
          · exact hdropped a ha hkept

end Represents

/-! Runs -/

/-- What holds between any two critical sections. -/
structure Inv (nTx nRx : Nat) (s : System) (qTx qRx : List UInt8) : Prop where
  tx : Represents nTx s.tx qTx
  rx : Represents nRx s.rx qRx
  sent : s.transmitted ++ qTx = s.accepted
  enabled : qTx ≠ [] → s.txIrq = true
  room : s.hwTx.length ≤ s.hwTxDepth
  got : s.returned ++ qRx = keptBytes s.arrivals
  order : s.arrivals.map Arrival.byte ++ s.hwRx = s.incoming
  dropped : ∀ a ∈ s.arrivals, a.kept = false → a.unread = nRx - 1

/-- The software transmit FIFO is empty or the hardware one full. -/
def HandedOver (s : System) : Prop :=
  s.tx.head = s.tx.tail ∨ s.hwTx.length = s.hwTxDepth

/-- What the next call does, and the next part of a handler that has seen its flag: each goes on
as far as there are bytes and room for them. -/
structure Serves (nTx : Nat) (s : System) (qTx qRx : List UInt8) : Prop where
  read : ∀ numBytes, (UartFifos.read s numBytes).returned = s.returned ++ qRx.take numBytes
  write : ∀ data,
    (UartFifos.write s data).accepted = s.accepted ++ data.take (nTx - 1 - qTx.length) ∧
      (data ≠ [] → HandedOver (UartFifos.write s data))
  receive : ∀ txFlag, s.handler = .entered true txFlag →
    ∃ s', step s .handler = some s' ∧ s'.hwRx = []
  transmit : s.handler = .received true → ∃ s', step s .handler = some s' ∧
    s'.transmitted = s.transmitted ++ qTx.take (s.hwTxDepth - s.hwTx.length) ∧ HandedOver s'

variable {nTx nRx : Nat} {s s' : System} {qTx qRx : List UInt8}

theorem transmitted_fillHwTxFifo (htx : Represents nTx s.tx qTx) :
    (fillHwTxFifo s).transmitted = s.transmitted ++ qTx.take (s.hwTxDepth - s.hwTx.length) := by
  show s.transmitted ++ (s.tx.getUpTo _).1 = _
  rw [(htx.getUpTo _).2]

/-- The loop ends when one of the FIFOs stops it. -/
theorem handedOver_fillHwTxFifo (htx : Represents nTx s.tx qTx)
    (hroom : s.hwTx.length ≤ s.hwTxDepth) : HandedOver (fillHwTxFifo s) := by
  obtain ⟨hrep, hfront⟩ := htx.getUpTo (s.hwTxDepth - s.hwTx.length)
  rcases Nat.le_total qTx.length (s.hwTxDepth - s.hwTx.length) with hall | hsome
  · refine .inl (hrep.empty_iff.mpr ?_)
    exact List.drop_eq_nil_iff.mpr hall
  · refine .inr ?_
    show (s.hwTx ++ (s.tx.getUpTo _).1).length = s.hwTxDepth
    rw [hfront, List.length_append, List.length_take_of_le hsome, Nat.add_sub_cancel' hroom]

theorem inv_fillHwTxFifo (htx : Represents nTx s.tx qTx) (hrx : Represents nRx s.rx qRx)
    (hsent : s.transmitted ++ qTx = s.accepted) (henabled : qTx ≠ [] → s.txIrq = true)
    (hroom : s.hwTx.length ≤ s.hwTxDepth) (hgot : s.returned ++ qRx = keptBytes s.arrivals)
    (horder : s.arrivals.map Arrival.byte ++ s.hwRx = s.incoming)
    (hdropped : ∀ a ∈ s.arrivals, a.kept = false → a.unread = nRx - 1) :
    Inv nTx nRx (fillHwTxFifo s) (qTx.drop (s.hwTxDepth - s.hwTx.length)) qRx := by
  obtain ⟨hrep, hfront⟩ := htx.getUpTo (s.hwTxDepth - s.hwTx.length)
  refine ⟨hrep, hrx, ?_, ?_, ?_, hgot, horder, hdropped⟩
  · rw [transmitted_fillHwTxFifo htx, List.append_assoc, List.take_append_drop]
    exact hsent
  · intro hr
    apply henabled
    rintro rfl
    exact hr List.drop_nil
  · show (s.hwTx ++ (s.tx.getUpTo _).1).length ≤ s.hwTxDepth
    have htake := List.length_take_le (s.hwTxDepth - s.hwTx.length) qTx
    rw [hfront, List.length_append]
    omega

/-- The system of a write of some bytes when its loop is through. -/
def afterPut (s : System) (data : List UInt8) : System :=
  setIrqEnables { s with
    tx := (s.tx.putAll data).1
    accepted := s.accepted ++ data.take (s.tx.putAll data).2 } true true

theorem write_of_ne_nil {data : List UInt8} (hdata : data ≠ []) :
    write s data = fillHwTxFifo (afterPut s data) :=
  if_neg hdata

theorem inv_write (h : Inv nTx nRx s qTx qRx) (data : List UInt8) :
    ∃ qTx', Inv nTx nRx (write s data) qTx' qRx := by
  by_cases hdata : data = []
  · rw [write, if_pos hdata]
    exact ⟨qTx, h⟩
  · obtain ⟨hrep, hcount⟩ := h.tx.putAll data
    have hsent : s.transmitted ++ (qTx ++ data.take (nTx - 1 - qTx.length)) =
        s.accepted ++ data.take (s.tx.putAll data).2 := by
      rw [← List.append_assoc, h.sent, hcount]
    rw [write_of_ne_nil hdata]
    exact ⟨_, inv_fillHwTxFifo (s := afterPut s data) hrep h.rx hsent (fun _ => rfl) h.room h.got
      h.order h.dropped⟩

theorem inv_read (h : Inv nTx nRx s qTx qRx) (numBytes : Nat) :
    Inv nTx nRx (read s numBytes) qTx (qRx.drop numBytes) := by
  obtain ⟨hrep, hfront⟩ := h.rx.getUpTo numBytes
  refine ⟨h.tx, hrep, h.sent, h.enabled, h.room, ?_, h.order, h.dropped⟩
  show s.returned ++ (s.rx.getUpTo numBytes).1 ++ qRx.drop numBytes = keptBytes s.arrivals
  rw [hfront, List.append_assoc, List.take_append_drop, h.got]

theorem inv_receiveIrq (h : Inv nTx nRx s qTx qRx) :
    ∃ qRx', Inv nTx nRx (receiveIrq s) qTx qRx' := by
  obtain ⟨hrep, hbytes, hdropped⟩ := h.rx.drainHw s.hwRx
  refine ⟨_, h.tx, hrep, h.sent, h.enabled, h.room, ?_, ?_, ?_⟩
  · show s.returned ++ (qRx ++ keptBytes (s.rx.drainHw s.hwRx).2) =
      keptBytes (s.arrivals ++ (s.rx.drainHw s.hwRx).2)
    rw [keptBytes_append, ← List.append_assoc, h.got]
  · show (s.arrivals ++ (s.rx.drainHw s.hwRx).2).map Arrival.byte ++ [] = s.incoming
    rw [List.map_append, hbytes, List.append_nil]
    exact h.order
  · intro a ha
    rcases List.mem_append.mp ha with hold | hnew
    · exact h.dropped a hold
    · exact hdropped a hnew

theorem inv_transmitIrq (h : Inv nTx nRx s qTx qRx) :
    Inv nTx nRx (transmitIrq s) (qTx.drop (s.hwTxDepth - s.hwTx.length)) qRx := by
  have hfilled := inv_fillHwTxFifo h.tx h.rx h.sent h.enabled h.room h.got h.order h.dropped
  simp only [transmitIrq]
  split_ifs with hempty
  · -- the interrupt is disabled only when nothing is left to send
    have hr := hfilled.tx.empty_iff.mp hempty.symm
    exact ⟨hfilled.tx, hfilled.rx, hfilled.sent, fun hne => absurd hr hne, hfilled.room,
      hfilled.got, hfilled.order, hfilled.dropped⟩
  · exact hfilled

theorem Inv.to_handler (h : Inv nTx nRx s qTx qRx) (handler : Handler) :
    Inv nTx nRx { s with handler := handler } qTx qRx :=
  ⟨h.tx, h.rx, h.sent, h.enabled, h.room, h.got, h.order, h.dropped⟩

theorem inv_step (h : Inv nTx nRx s qTx qRx) {a : Action} (hstep : step s a = some s') :
    ∃ qTx' qRx', Inv nTx nRx s' qTx' qRx' := by
  cases a with
  | read numBytes =>
      cases hstep
      exact ⟨qTx, _, inv_read h numBytes⟩
  | write data =>
      cases hstep
      obtain ⟨qTx', hinv⟩ := inv_write h data
      exact ⟨qTx', qRx, hinv⟩
  | irq rxRaw txRaw =>
      simp only [step] at hstep
      split at hstep
      · cases hstep
        exact ⟨qTx, qRx, h.to_handler _⟩
      · cases hstep
  | handler =>
      simp only [step] at hstep
      split at hstep
      case h_1 => cases hstep
      case h_2 rxFlag txFlag _ =>
        cases hstep
        rcases rxFlag with _ | _
        · exact ⟨qTx, qRx, h.to_handler _⟩
        · obtain ⟨qRx', hinv⟩ := inv_receiveIrq h
          exact ⟨qTx, qRx', hinv.to_handler _⟩
      case h_3 txFlag _ =>
        cases hstep
        rcases txFlag with _ | _
        · exact ⟨qTx, qRx, h.to_handler _⟩
        · exact ⟨_, qRx, (inv_transmitIrq h).to_handler _⟩
  | hwReceive byte =>
      simp only [step] at hstep
      split_ifs at hstep
      · cases hstep
        refine ⟨qTx, qRx, h.tx, h.rx, h.sent, h.enabled, h.room, h.got, ?_, h.dropped⟩
        show s.arrivals.map Arrival.byte ++ (s.hwRx ++ [byte]) = s.incoming ++ [byte]
        rw [← List.append_assoc, h.order]
      · cases hstep
        exact ⟨qTx, qRx, h⟩
  | hwTransmit =>
      cases hstep
      refine ⟨qTx, qRx, h.tx, h.rx, h.sent, h.enabled, ?_, h.got, h.order, h.dropped⟩
      show s.hwTx.tail.length ≤ s.hwTxDepth
      exact Nat.le_trans (List.tail_suffix s.hwTx).length_le h.room

/-- With the invariant, the calls and the parts of the handler leave nothing undone. -/
theorem Inv.serves (h : Inv nTx nRx s qTx qRx) : Serves nTx s qTx qRx := by
  refine ⟨?_, ?_, ?_, ?_⟩
  · intro numBytes
    show s.returned ++ (s.rx.getUpTo numBytes).1 = _
    rw [(h.rx.getUpTo numBytes).2]
  · intro data
    obtain ⟨hrep, hcount⟩ := h.tx.putAll data
    by_cases hdata : data = []
    · rw [write, if_pos hdata, hdata, List.take_nil, List.append_nil]
      exact ⟨rfl, fun hne => absurd rfl hne⟩
    · rw [write_of_ne_nil hdata]
      refine ⟨congrArg (s.accepted ++ ·) hcount, fun _ => ?_⟩
      exact handedOver_fillHwTxFifo (s := afterPut s data) hrep h.room
  · intro txFlag hhandler
    refine ⟨{ receiveIrq s with handler := .received txFlag }, ?_, rfl⟩
    simp only [step, hhandler, if_true]
  · intro hhandler
    refine ⟨{ transmitIrq s with handler := .outside }, ?_, ?_, ?_⟩
    · simp only [step, hhandler, if_true]
    · have hsame : (transmitIrq s).transmitted = (fillHwTxFifo s).transmitted := by
        simp only [transmitIrq]
        split_ifs <;> rfl
      exact hsame.trans (transmitted_fillHwTxFifo h.tx)
    · have hfilled := handedOver_fillHwTxFifo h.tx h.room
      show HandedOver (transmitIrq s)
      simp only [transmitIrq]
      split_ifs
      · exact hfilled
      · exact hfilled

def Moves (s s' : System) : Prop :=
  ∃ a, step s a = some s'

/-- In every run, the transmitter gets the accepted bytes in order and once each, the transmit
interrupt is enabled while any of them waits, and the reader gets the received bytes that were not
dropped, which are all but those that found the receive FIFO full; no call and no part of the
handler stops before a FIFO makes it. -/
theorem streams_preserved {memTxBuffer memRxBuffer : List UInt8} {txBufSize rxBufSize : Nat}
    (htx : 2 ≤ txBufSize) (hrx : 2 ≤ rxBufSize) (hlenTx : memTxBuffer.length = txBufSize)
    (hlenRx : memRxBuffer.length = rxBufSize) (hwTxDepth hwRxDepth : Nat)
    (hreaches : Relation.ReflTransGen Moves
      (System.start memTxBuffer txBufSize memRxBuffer rxBufSize hwTxDepth hwRxDepth) s) :
    ∃ qTx qRx, Represents txBufSize s.tx qTx ∧ Represents rxBufSize s.rx qRx ∧
      s.transmitted ++ qTx = s.accepted ∧
      (s.tx.head ≠ s.tx.tail → s.txIrq = true) ∧
      s.hwTx.length ≤ s.hwTxDepth ∧
      s.returned ++ qRx = keptBytes s.arrivals ∧
      s.arrivals.map Arrival.byte ++ s.hwRx = s.incoming ∧
      (∀ a ∈ s.arrivals, a.kept = false → a.unread = rxBufSize - 1) ∧
      Serves txBufSize s qTx qRx := by
  have hinv : ∃ qTx qRx, Inv txBufSize rxBufSize s qTx qRx := by
    induction hreaches with
    | refl =>
        refine ⟨[], [], represents_empty (by omega) hlenTx, represents_empty (by omega) hlenRx, rfl,
          fun hne => absurd rfl hne, Nat.zero_le _, rfl, rfl, ?_⟩
        intro a ha
        cases ha
    | tail _ hmove ih =>
        obtain ⟨qTx, qRx, hinv⟩ := ih
        obtain ⟨a, hstep⟩ := hmove
        exact inv_step hinv hstep
  obtain ⟨qTx, qRx, hinv⟩ := hinv
  refine ⟨qTx, qRx, hinv.tx, hinv.rx, hinv.sent, ?_, hinv.room, hinv.got, hinv.order,
    hinv.dropped, hinv.serves⟩
  intro hne
  exact hinv.enabled fun hnil => hne (hinv.tx.empty_iff.mpr hnil)

/-- Three bytes come in for a FIFO of two, and three are written to one of two; when the hardware
has sent the first of these, the transmit interrupt puts in the second. -/
theorem streams_preserved_full :
    ∃ s s', Relation.ReflTransGen Moves (System.start [0, 0, 0] 3 [0, 0, 0] 3 1 4) s ∧
      s.transmitted = [7] ∧ s.accepted = [7, 8] ∧ s.txIrq = true ∧ s.returned = [1, 2] ∧
      s.arrivals.map Arrival.kept = [true, true, false] ∧
      (∀ a ∈ s.arrivals, a.kept = false → a.unread = 2) ∧
      step s .handler = some s' ∧ s'.transmitted = [7, 8] ∧ HandedOver s' := by
  have hreaches : Relation.ReflTransGen Moves (System.start [0, 0, 0] 3 [0, 0, 0] 3 1 4) _ :=
    .head ⟨.hwReceive 1, rfl⟩ <| .head ⟨.hwReceive 2, rfl⟩ <| .head ⟨.hwReceive 3, rfl⟩ <|
    .head ⟨.irq true true, rfl⟩ <| .head ⟨.write [7, 8, 9], rfl⟩ <| .head ⟨.handler, rfl⟩ <|
    .head ⟨.handler, rfl⟩ <| .head ⟨.read 5, rfl⟩ <| .head ⟨.hwTransmit, rfl⟩ <|
    .head ⟨.irq false true, rfl⟩ <| .head ⟨.handler, rfl⟩ .refl
  obtain ⟨qTx, _, -, -, hsent, henabled, -, -, -, hdropped, hserves⟩ :=
    streams_preserved (by decide) (by decide) rfl rfl 1 4 hreaches
  have hwaiting : qTx = [8] := List.append_cancel_left hsent
  obtain ⟨s', hstep, htransmitted, hhanded⟩ := hserves.transmit rfl
  rw [hwaiting] at htransmitted
  exact ⟨_, s', hreaches, rfl, rfl, henabled (by decide), rfl, rfl, hdropped, hstep,
    htransmitted, hhanded⟩

end ColonyPico.Io.UartFifos
