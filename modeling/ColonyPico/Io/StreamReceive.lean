import ColonyPico.Container.RingBuffer
import Mathlib.Logic.Relation

/-!
The receive side of the STM32 stream driver (`Cpl::Io::Serial::ST::M32F4::StreamDriver`): the
interrupts that fill the receive buffer behind its tail, and the thread that reads it and starts a
receiver again that had stopped at a full buffer.

The HAL takes the number of bytes in an argument of its own width; `sizeArg` is the conversion.
-/

namespace ColonyPico.Io.StreamReceive

open ColonyPico.Container.RingBuffer
open ColonyPico.Foundations.CircularSlots

/-- Where the thread is in `read()`, with the number of bytes it may still read and those it got. -/
inductive Reader where
  | outside
  | polling (maxBytes : Nat)
  | waiting (maxBytes : Nat)
  | removing (maxBytes : Nat) (got : List UInt8)
  | rearming (maxBytes : Nat) (got : List UInt8)
  deriving DecidableEq

def Reader.got : Reader → List UInt8
  | .removing _ got => got
  | .rearming _ got => got
  | _ => []

/-- A reception of the HAL: the flat area it was given, and what it has stored there so far. -/
structure Reception where
  rxPtr : Nat
  size : Nat
  received : List UInt8

/-- The driver, the HAL and the thread.  The last two fields record what the HAL reported and what
`read()` returned. -/
structure System where
  rxBuffer : Buffer UInt8
  rxActive : Bool
  rxWaiterPtr : Bool
  errCount : Nat
  hal : Option Reception
  reader : Reader
  signals : Nat
  reported : List UInt8
  returned : List UInt8

section Steps

variable (sizeArg : Nat → Nat)

/-- `HAL_UARTEx_ReceiveToIdle_IT()`, which refuses a second reception and one of no bytes. -/
def receiveToIdleIT (s : System) (rxPtr : Option Nat) (availBytes : UInt32) : System :=
  let size := sizeArg availBytes.toNat
  match s.hal, rxPtr with
  | none, some ptr => if size = 0 then s else { s with hal := some ⟨ptr, size, []⟩ }
  | _, _ => s

/-- Starting the receiver on the flat area behind the tail. -/
def startReceiver (s : System) : System :=
  let (rxPtr, availBytes) := s.rxBuffer.peekNextAddItems
  receiveToIdleIT sizeArg { s with rxActive := true } rxPtr availBytes

/-- What `start()` leaves: a clear buffer of `maxElements` slots and a started receiver. -/
def System.start (maxElements : UInt32) (memory : List UInt8) (signals : Nat) : System :=
  startReceiver sizeArg
    { rxBuffer := (Buffer.init maxElements memory).clearTheBuffer
      rxActive := false
      rxWaiterPtr := false
      errCount := 0
      hal := none
      reader := .outside
      signals := signals
      reported := []
      returned := [] }

def countError (s : System) (flagged : Bool) : System :=
  if flagged then { s with errCount := s.errCount + 1 } else s

def unblockReader (s : System) : System :=
  if s.rxWaiterPtr then { s with signals := s.signals + 1, rxWaiterPtr := false } else s

/-- `su_rxDataAndErrorIsr()`; `flagged` tells whether the UART shows an error. -/
def rxDataAndErrorIsr (s : System) (bytesReceived : UInt16) (flagged : Bool) : System :=
  let s := countError s flagged
  let s := { s with rxBuffer := s.rxBuffer.addElements bytesReceived.toUInt32 }
  let s := unblockReader s
  if s.rxBuffer.isFull then { s with rxActive := false } else startReceiver sizeArg s

/-- One atomic step of the thread inside `read()`; none when it is outside or blocked. -/
def readerStep (s : System) : Option System :=
  match s.reader with
  | .outside => none
  | .polling maxBytes =>
      if s.rxBuffer.getNumItems = 0 then
        some { s with rxWaiterPtr := true, reader := .waiting maxBytes }
      else some { s with reader := .removing maxBytes [] }
  | .waiting maxBytes =>
      if s.signals = 0 then none
      else some { s with signals := s.signals - 1, reader := .polling maxBytes }
  | .removing 0 got => some { s with reader := .outside, returned := s.returned ++ got }
  | .removing (maxBytes + 1) got =>
      match s.rxBuffer.remove with
      | (some byteIn, rxBuffer) =>
          some { s with rxBuffer := rxBuffer, reader := .rearming maxBytes (got ++ [byteIn]) }
      | (none, rxBuffer) =>
          some { s with
            rxBuffer := rxBuffer, reader := .outside, returned := s.returned ++ got }
  | .rearming maxBytes got =>
      let s := if s.rxActive then s else startReceiver sizeArg s
      some { s with reader := .removing maxBytes got }

inductive Action where
  | read (maxBytes : Nat)
  | reader
  /-- The HAL stores a byte in its area. -/
  | receive (byte : UInt8)
  /-- The HAL ends the reception and reports the bytes it stored. -/
  | event (flagged : Bool)
  /-- The HAL reports an error; a grave one ends the reception, and what it stored is lost. -/
  | error (ends : Bool) (flagged : Bool)

def step (s : System) : Action → Option System
  | .read maxBytes =>
      if s.reader = .outside ∧ 0 < maxBytes then some { s with reader := .polling maxBytes }
      else none
  | .reader => readerStep sizeArg s
  | .receive byte =>
      match s.hal with
      | none => none
      | some r =>
          if r.received.length < r.size then
            some { s with
              rxBuffer := { s.rxBuffer with
                elements := s.rxBuffer.elements.set (r.rxPtr + r.received.length) byte }
              hal := some { r with received := r.received ++ [byte] } }
          else none
  | .event flagged =>
      match s.hal with
      | none => none
      | some r =>
          if r.received.length < 65536 then
            some (rxDataAndErrorIsr sizeArg
              { s with hal := none, reported := s.reported ++ r.received }
              (UInt16.ofNat r.received.length) flagged)
          else none
  | .error ends flagged =>
      some (rxDataAndErrorIsr sizeArg { s with hal := if ends then none else s.hal } 0 flagged)

end Steps

/-! The receive buffer and the HAL -/

/-- The area of a reception lies flat in free slots behind the tail, and starts with what was
received. -/
structure Area (n : Nat) (rb : Buffer UInt8) (q : List UInt8) (r : Reception) : Prop where
  rxPtr : r.rxPtr = rb.tailPtr
  pos : 0 < r.size
  room : q.length + r.size < n
  flat : rb.tailPtr + r.size ≤ n
  stored_le : r.received.length ≤ r.size
  stored : ∀ i, i < r.received.length → rb.elements[rb.tailPtr + i]? = r.received[i]?

variable {sizeArg : Nat → Nat} {n : Nat} {s s' : System} {q : List UInt8}

theorem startReceiver_eq (hfits : ∀ k, 0 < k → k < n → 0 < sizeArg k ∧ sizeArg k ≤ k)
    (h : Represents n s.rxBuffer q) (harea : ∀ r, s.hal = some r → Area n s.rxBuffer q r) :
    ∃ hal, startReceiver sizeArg s = { s with rxActive := true, hal := hal } ∧
      (∀ r, hal = some r → Area n s.rxBuffer q r) ∧ (hal = none → q.length = n - 1) := by
  obtain ⟨havail, hptr⟩ := h.peekNextAddItems
  have hroom := h.fits
  have htail := h.tailPtr_lt
  rcases hhal : s.hal with _ | r
  · rcases Decidable.em (q.length = n - 1) with hfull | hfree
    · refine ⟨none, ?_, (fun r hr => by cases hr), fun _ => hfull⟩
      rw [if_pos hfull] at hptr
      simp only [startReceiver, receiveToIdleIT, hhal, hptr]
    · rw [if_neg hfree] at hptr
      obtain ⟨hpos, hle⟩ := hfits s.rxBuffer.peekNextAddItems.2.toNat (by omega) (by omega)
      refine ⟨some ⟨s.rxBuffer.tailPtr, sizeArg s.rxBuffer.peekNextAddItems.2.toNat, []⟩,
        ?_, ?_, fun hnone => by cases hnone⟩
      · simp only [startReceiver, receiveToIdleIT, hhal, hptr]
        rw [if_neg (by omega)]
      · rintro r hr
        cases hr
        refine ⟨rfl, hpos, ?_, ?_, Nat.zero_le _, fun i hi => absurd hi (Nat.not_lt_zero i)⟩
        · show q.length + sizeArg s.rxBuffer.peekNextAddItems.2.toNat < n
          omega
        · show s.rxBuffer.tailPtr + sizeArg s.rxBuffer.peekNextAddItems.2.toNat ≤ n
          omega
  · refine ⟨some r, ?_, ?_, fun hnone => by cases hnone⟩
    · simp only [startReceiver, receiveToIdleIT, hhal]
    · rintro r' hr'
      cases hr'
      exact harea r hhal

theorem countError_eq (s : System) (flagged : Bool) :
    countError s flagged =
      { s with errCount := s.errCount + (if flagged then 1 else 0) } := by
  cases flagged
  · rfl
  · rfl

theorem unblockReader_eq (s : System) :
    unblockReader s =
      { s with signals := s.signals + (if s.rxWaiterPtr then 1 else 0), rxWaiterPtr := false } := by
  obtain ⟨rxBuffer, rxActive, rxWaiterPtr, errCount, hal, reader, signals, reported, returned⟩ := s
  cases rxWaiterPtr
  · rfl
  · rfl

/-- The interrupt leaves the receiver started, or stopped at a full buffer, and nobody
registered. -/
theorem rxDataAndErrorIsr_eq (hfits : ∀ k, 0 < k → k < n → 0 < sizeArg k ∧ sizeArg k ≤ k)
    {count : UInt16} (flagged : Bool)
    (h : Represents n (s.rxBuffer.addElements count.toUInt32) q)
    (harea : ∀ r, s.hal = some r → Area n (s.rxBuffer.addElements count.toUInt32) q r) :
    ∃ hal errCount rxActive, rxDataAndErrorIsr sizeArg s count flagged =
        { s with
          rxBuffer := s.rxBuffer.addElements count.toUInt32
          hal := hal
          errCount := errCount
          rxActive := rxActive
          rxWaiterPtr := false
          signals := s.signals + (if s.rxWaiterPtr then 1 else 0) } ∧
      (∀ r, hal = some r → Area n (s.rxBuffer.addElements count.toUInt32) q r) ∧
      (hal = none → rxActive = false ∧ q.length = n - 1) := by
  have hfull := h.isFull
  simp only [rxDataAndErrorIsr, countError_eq, unblockReader_eq, hfull]
  rcases Decidable.em (q.length = n - 1) with hlen | hlen
  · refine ⟨s.hal, s.errCount + (if flagged then 1 else 0), false, ?_, harea,
      fun _ => ⟨rfl, hlen⟩⟩
    rw [decide_eq_true hlen, if_pos rfl]
  · obtain ⟨hal, hstart, harea', hnone⟩ := startReceiver_eq hfits
      (s := { s with
        errCount := s.errCount + (if flagged then 1 else 0)
        rxBuffer := s.rxBuffer.addElements count.toUInt32
        signals := s.signals + (if s.rxWaiterPtr then 1 else 0)
        rxWaiterPtr := false }) h harea
    refine ⟨hal, s.errCount + (if flagged then 1 else 0), true, ?_, harea',
      fun hal_none => absurd (hnone hal_none) hlen⟩
    rw [decide_eq_false hlen, if_neg (by decide)]
    exact hstart

/-! Runs -/

/-- What holds in every state: no byte is lost, doubled or out of order, the receiver is stopped
only at a full buffer or while the thread is about to start it, and a waiting thread is registered
or signalled. -/
structure Inv (n : Nat) (s : System) (q : List UInt8) : Prop where
  represents : Represents n s.rxBuffer q
  ordered : s.returned ++ s.reader.got ++ q = s.reported
  area : ∀ r, s.hal = some r → Area n s.rxBuffer q r
  inactive : s.hal = none → s.rxActive = false ∨ n = 1
  full : s.hal = none → (∀ k got, s.reader ≠ .rearming k got) → q.length = n - 1
  served : ∀ k, s.reader = .waiting k → (s.rxWaiterPtr = true ∧ q = []) ∨ 0 < s.signals

theorem inv_start (hfits : ∀ k, 0 < k → k < n → 0 < sizeArg k ∧ sizeArg k ≤ k)
    (maxElements : UInt32) (hn : maxElements.toNat = n) (hpos : 0 < maxElements)
    {memory : List UInt8} (hlen : memory.length = maxElements.toNat) (signals : Nat) :
    Inv n (System.start sizeArg maxElements memory signals) [] := by
  have hclear := (represents_init hpos hlen).clear
  rw [hn] at hclear
  obtain ⟨hal, hstart, harea, hnone⟩ := startReceiver_eq hfits
    (s := ⟨(Buffer.init maxElements memory).clearTheBuffer, false, false, 0, none, .outside, signals,
      [], []⟩) hclear (fun r hr => by cases hr)
  rw [System.start, hstart]
  have hn1 : hal = none → n = 1 := by
    intro hal_none
    have hzero : 0 = n - 1 := hnone hal_none
    have hfits' := hclear.fits
    rw [List.length_nil] at hfits'
    omega
  refine ⟨hclear, rfl, harea, fun hal_none => .inr (hn1 hal_none),
    fun hal_none _ => hnone hal_none, ?_⟩
  rintro k hreader
  cases hreader

/-- The thread finds the receiver stopped only while the buffer has room. -/
def StartsInTime (s : System) : Action → Prop
  | .reader => ∀ k got, s.reader = .rearming k got → s.rxActive = false →
      s.rxBuffer.isFull = false
  | _ => True

theorem addElements_zero (h : Represents n s.rxBuffer q) :
    s.rxBuffer.addElements (0 : UInt16).toUInt32 = s.rxBuffer := by
  have hwrap := h.wrap_add (k := 0) h.tailPtr_lt (Nat.le_of_lt h.tailPtr_lt)
  have htail : slot n s.rxBuffer.tailPtr 0 = s.rxBuffer.tailPtr := by
    rw [slot, Nat.add_zero]
    exact Nat.mod_eq_of_lt h.tailPtr_lt
  rw [htail] at hwrap
  show { s.rxBuffer with tailPtr := s.rxBuffer.wrap (s.rxBuffer.tailPtr + 0) } = s.rxBuffer
  rw [hwrap]

/-- The interrupt carries the invariant over once the reported bytes stand behind the queue. -/
theorem inv_isr (hfits : ∀ k, 0 < k → k < n → 0 < sizeArg k ∧ sizeArg k ≤ k) {count : UInt16}
    (flagged : Bool) (h : Represents n (s.rxBuffer.addElements count.toUInt32) q)
    (hordered : s.returned ++ s.reader.got ++ q = s.reported)
    (harea : ∀ r, s.hal = some r → Area n (s.rxBuffer.addElements count.toUInt32) q r)
    (hserved : ∀ k, s.reader = .waiting k → s.rxWaiterPtr = true ∨ 0 < s.signals) :
    Inv n (rxDataAndErrorIsr sizeArg s count flagged) q := by
  obtain ⟨hal, errCount, rxActive, heq, harea', hnone⟩ := rxDataAndErrorIsr_eq hfits flagged h harea
  rw [heq]
  refine ⟨h, hordered, harea', fun hal_none => .inl (hnone hal_none).1,
    fun hal_none _ => (hnone hal_none).2, ?_⟩
  intro k hreader
  right
  show 0 < s.signals + (if s.rxWaiterPtr then 1 else 0)
  rcases hserved k hreader with hwaiter | hsignals
  · rw [if_pos hwaiter]
    omega
  · omega

theorem Inv.registered (h : Inv n s q) (k : Nat) (hreader : s.reader = .waiting k) :
    s.rxWaiterPtr = true ∨ 0 < s.signals :=
  (h.served k hreader).imp_left And.left

theorem inv_event (hfits : ∀ k, 0 < k → k < n → 0 < sizeArg k ∧ sizeArg k ≤ k) (h : Inv n s q)
    {r : Reception} (hal : s.hal = some r) (hlen : r.received.length < 65536) (flagged : Bool) :
    Inv n (rxDataAndErrorIsr sizeArg { s with hal := none, reported := s.reported ++ r.received }
      (UInt16.ofNat r.received.length) flagged) (q ++ r.received) := by
  obtain ⟨-, -, hroom, hflat, hle, hstored⟩ := h.area r hal
  have hcount : (UInt16.ofNat r.received.length).toUInt32.toNat = r.received.length := by
    rw [UInt16.toNat_toUInt32, UInt16.toNat_ofNat']
    exact Nat.mod_eq_of_lt hlen
  have hadvance := h.represents.advance (show s.rxBuffer.tailPtr + r.received.length ≤ n by omega)
    (show q.length + r.received.length < n by omega) hstored
  apply inv_isr hfits flagged
  · show Represents n { s.rxBuffer with
      tailPtr := s.rxBuffer.wrap (s.rxBuffer.tailPtr +
        (UInt16.ofNat r.received.length).toUInt32.toNat) } (q ++ r.received)
    rw [hcount]
    exact hadvance
  · show s.returned ++ s.reader.got ++ (q ++ r.received) = s.reported ++ r.received
    rw [← List.append_assoc, h.ordered]
  · rintro r' hr'
    cases hr'
  · exact h.registered

theorem inv_error (hfits : ∀ k, 0 < k → k < n → 0 < sizeArg k ∧ sizeArg k ≤ k) (h : Inv n s q)
    (ends flagged : Bool) :
    Inv n (rxDataAndErrorIsr sizeArg { s with hal := if ends then none else s.hal } 0 flagged) q := by
  have hsame := addElements_zero h.represents
  apply inv_isr hfits flagged
  · show Represents n (s.rxBuffer.addElements (0 : UInt16).toUInt32) q
    rw [hsame]
    exact h.represents
  · exact h.ordered
  · intro r hr
    show Area n (s.rxBuffer.addElements (0 : UInt16).toUInt32) q r
    rw [hsame]
    apply h.area
    split_ifs at hr
    exact hr
  · exact h.registered

theorem inv_receive (h : Inv n s q) {r : Reception} (hal : s.hal = some r) {byte : UInt8}
    (hmore : r.received.length < r.size) :
    Inv n { s with
      rxBuffer := { s.rxBuffer with
        elements := s.rxBuffer.elements.set (r.rxPtr + r.received.length) byte }
      hal := some { r with received := r.received ++ [byte] } } q := by
  obtain ⟨hptr, hpos, hroom, hflat, hle, hstored⟩ := h.area r hal
  have hset := h.represents.set_free (i := r.received.length) (by omega) (by omega) byte
  rw [hptr]
  refine ⟨hset, h.ordered, ?_, (fun hnone => by cases hnone), (fun hnone => by cases hnone),
    h.served⟩
  rintro r' hr'
  cases hr'
  refine ⟨rfl, hpos, hroom, hflat, ?_, ?_⟩
  · rw [List.length_append]
    exact hmore
  · intro i hi
    rw [List.length_append, List.length_singleton] at hi
    show (s.rxBuffer.elements.set (s.rxBuffer.tailPtr + r.received.length)
      byte)[s.rxBuffer.tailPtr + i]? = (r.received ++ [byte])[i]?
    rcases Nat.lt_or_eq_of_le (Nat.le_of_lt_succ hi) with hold | hnew
    · rw [List.getElem?_set_ne (by omega), List.getElem?_append_left hold]
      exact hstored i hold
    · have hin : s.rxBuffer.tailPtr + r.received.length < s.rxBuffer.elements.length := by
        rw [h.represents.length]
        omega
      rw [hnew, List.getElem?_set_self hin, List.getElem?_concat_length]

theorem inv_readerStep (hfits : ∀ k, 0 < k → k < n → 0 < sizeArg k ∧ sizeArg k ≤ k) (h : Inv n s q)
    (hstep : readerStep sizeArg s = some s') (htime : StartsInTime s .reader) :
    ∃ q', Inv n s' q' := by
  obtain ⟨hrep, hordered, harea, hinactive, hfull, hserved⟩ := h
  unfold readerStep at hstep
  split at hstep
  case h_1 => cases hstep
  case h_2 maxBytes hreader =>
    rw [hreader] at hordered hfull
    have hstopped : s.hal = none → q.length = n - 1 := fun hnone => hfull hnone (by simp)
    split_ifs at hstep with hcount
    · cases hstep
      have hempty : q = [] := by
        have hlen := hrep.getNumItems
        rw [hcount] at hlen
        exact List.length_eq_zero_iff.mp hlen.symm
      exact ⟨q, hrep, hordered, harea, hinactive, fun hnone _ => hstopped hnone,
        fun _ _ => .inl ⟨rfl, hempty⟩⟩
    · cases hstep
      exact ⟨q, hrep, hordered, harea, hinactive, fun hnone _ => hstopped hnone,
        fun _ hr => by cases hr⟩
  case h_3 maxBytes hreader =>
    rw [hreader] at hordered hfull
    split_ifs at hstep
    cases hstep
    exact ⟨q, hrep, hordered, harea, hinactive, fun hnone _ => hfull hnone (by simp),
      fun _ hr => by cases hr⟩
  case h_4 got hreader =>
    rw [hreader] at hordered hfull
    cases hstep
    refine ⟨q, hrep, ?_, harea, hinactive, fun hnone _ => hfull hnone (by simp),
      fun _ hr => by cases hr⟩
    show s.returned ++ got ++ [] ++ q = s.reported
    rw [List.append_nil]
    exact hordered
  case h_5 maxBytes got hreader =>
    rw [hreader] at hordered hfull
    obtain ⟨hhead, htail⟩ := hrep.remove
    rcases q with _ | ⟨byteIn, q⟩
    · have hsame : s.rxBuffer.remove = (none, s.rxBuffer) := by
        have hempty : s.rxBuffer.isEmpty = true := hrep.isEmpty
        rw [Buffer.remove, hempty, if_pos rfl]
      rw [hsame] at hstep
      cases hstep
      refine ⟨[], hrep, ?_, harea, hinactive, fun hnone _ => hfull hnone (by simp),
        fun _ hr => by cases hr⟩
      show s.returned ++ got ++ [] ++ [] = s.reported
      rw [List.append_nil]
      exact hordered
    · have hpair : s.rxBuffer.remove = (some byteIn, s.rxBuffer.remove.2) := Prod.ext hhead rfl
      rw [hpair] at hstep
      cases hstep
      refine ⟨q, htail, ?_, ?_, hinactive, fun _ hne => absurd rfl (hne maxBytes _),
        fun _ hr => by cases hr⟩
      · show s.returned ++ (got ++ [byteIn]) ++ q = s.reported
        rw [← hordered]
        simp [Reader.got]
      · intro r hr
        obtain ⟨hptr, hpos, hroom, hflat, hle, hstored⟩ := harea r hr
        have hkept : s.rxBuffer.remove.2.tailPtr = s.rxBuffer.tailPtr ∧
            s.rxBuffer.remove.2.elements = s.rxBuffer.elements := by
          rw [Buffer.remove]
          split_ifs <;> exact ⟨rfl, rfl⟩
        rw [List.length_cons] at hroom
        refine ⟨hptr.trans hkept.1.symm, hpos, by omega, ?_, hle, ?_⟩
        · rw [hkept.1]
          exact hflat
        · rw [hkept.1, hkept.2]
          exact hstored
  case h_6 maxBytes got hreader =>
    rw [hreader] at hordered
    rcases hactive : s.rxActive with _ | _
    · obtain ⟨hal, hstart, harea', hnone⟩ := startReceiver_eq hfits hrep harea
      have hroom := htime maxBytes got hreader hactive
      rw [hrep.isFull, decide_eq_false_iff_not] at hroom
      rw [hactive, if_neg (by decide), hstart] at hstep
      cases hstep
      exact ⟨q, hrep, hordered, harea', fun hal_none => absurd (hnone hal_none) hroom,
        fun hal_none _ => hnone hal_none, fun _ hr => by cases hr⟩
    · rw [hactive, if_pos rfl] at hstep
      cases hstep
      refine ⟨q, hrep, hordered, harea, hinactive, ?_, fun _ hr => by cases hr⟩
      intro hal_none _
      have hfits' := hrep.fits
      rcases hinactive hal_none with hidle | hone
      · exact absurd (hactive.symm.trans hidle) (by simp)
      · omega

theorem inv_step (hfits : ∀ k, 0 < k → k < n → 0 < sizeArg k ∧ sizeArg k ≤ k) (h : Inv n s q)
    {a : Action} (hstep : step sizeArg s a = some s') (htime : StartsInTime s a) :
    ∃ q', Inv n s' q' := by
  cases a with
  | read maxBytes =>
      simp only [step] at hstep
      split_ifs at hstep with hread
      cases hstep
      obtain ⟨hrep, hordered, harea, hinactive, hfull, hserved⟩ := h
      rw [hread.1] at hordered hfull
      exact ⟨q, hrep, hordered, harea, hinactive, fun hnone _ => hfull hnone (by simp),
        fun _ hr => by cases hr⟩
  | reader => exact inv_readerStep hfits h hstep htime
  | receive byte =>
      simp only [step] at hstep
      rcases hal : s.hal with _ | r
      · rw [hal] at hstep
        cases hstep
      · rw [hal] at hstep
        simp only at hstep
        split_ifs at hstep with hmore
        cases hstep
        exact ⟨q, inv_receive h hal hmore⟩
  | event flagged =>
      simp only [step] at hstep
      rcases hal : s.hal with _ | r
      · rw [hal] at hstep
        cases hstep
      · rw [hal] at hstep
        simp only at hstep
        split_ifs at hstep with hlen
        cases hstep
        exact ⟨q ++ r.received, inv_event hfits h hal hlen flagged⟩
  | error ends flagged =>
      cases hstep
      exact ⟨q, inv_error hfits h ends flagged⟩

/-- The steps of runs in which the thread starts the receiver in time. -/
def TimelyMoves (sizeArg : Nat → Nat) (s s' : System) : Prop :=
  ∃ a, step sizeArg s a = some s' ∧ StartsInTime s a

/-- In every run in which the buffer never fills up between a removal and the check behind it, the
reported bytes are read in order and once each, the receiver is stopped only at a full buffer, its
area is free, and a thread that is blocked without a signal has nothing to read. -/
theorem reader_served (maxElements : UInt32) (hpos : 0 < maxElements) (memory : List UInt8)
    (hlen : memory.length = maxElements.toNat)
    (hfits : ∀ k, 0 < k → k < maxElements.toNat → 0 < sizeArg k ∧ sizeArg k ≤ k) (signals : Nat)
    (hreaches : Relation.ReflTransGen (TimelyMoves sizeArg)
      (System.start sizeArg maxElements memory signals) s) :
    ∃ q, Represents maxElements.toNat s.rxBuffer q ∧
      s.returned ++ s.reader.got ++ q = s.reported ∧
      ((∀ k got, s.reader ≠ .rearming k got) → s.hal.isSome = true ∨ s.rxBuffer.isFull = true) ∧
      (∀ r, s.hal = some r → ∀ i, i < r.size → r.rxPtr + i < maxElements.toNat ∧
        ∀ j, j < q.length → slot maxElements.toNat s.rxBuffer.headPtr j ≠ r.rxPtr + i) ∧
      (∀ k, s.reader = .waiting k → s.signals = 0 → s.rxBuffer.isEmpty = true) := by
  have hinv : ∃ q, Inv maxElements.toNat s q := by
    induction hreaches with
    | refl => exact ⟨[], inv_start hfits maxElements rfl hpos hlen signals⟩
    | tail _ hmove ih =>
        obtain ⟨q, hinv⟩ := ih
        obtain ⟨a, hstep, htime⟩ := hmove
        exact inv_step hfits hinv hstep htime
  obtain ⟨q, hrep, hordered, harea, hinactive, hfull, hserved⟩ := hinv
  refine ⟨q, hrep, hordered, ?_, ?_, ?_⟩
  · intro hapart
    rcases hal : s.hal with _ | r
    · right
      rw [hrep.isFull]
      exact decide_eq_true (hfull hal hapart)
    · left
      rfl
  · intro r hal i hi
    obtain ⟨hptr, -, hroom, hflat, -, -⟩ := harea r hal
    rw [hptr]
    exact ⟨by omega, fun j hj => hrep.free_slot_ne (by omega) (by omega) hj⟩
  · intro k hreader hsignals
    rcases hserved k hreader with ⟨-, hempty⟩ | hpending
    · rw [hrep.isEmpty, hempty]
      rfl
    · omega

/-- The `uint16_t` argument of the HAL. -/
def uint16 (k : Nat) : Nat :=
  k % 65536

/-- A buffer for two bytes that was filled before the first of them is read. -/
theorem reader_served_two_bytes :
    ∃ s, Relation.ReflTransGen (TimelyMoves uint16) (System.start uint16 3 [0, 0, 0] 0) s ∧
      s.reader = .removing 0 [5] ∧ s.hal.isSome = true := by
  have hreaches :
      Relation.ReflTransGen (TimelyMoves uint16) (System.start uint16 3 [0, 0, 0] 0) _ :=
    .head ⟨.receive 5, rfl, trivial⟩ <| .head ⟨.receive 6, rfl, trivial⟩ <|
    .head ⟨.event false, rfl, trivial⟩ <| .head ⟨.read 1, rfl, trivial⟩ <|
    .head ⟨.reader, rfl, fun _ _ hr => by cases hr⟩ <|
    .head ⟨.reader, rfl, fun _ _ hr => by cases hr⟩ <|
    .head ⟨.reader, rfl, fun _ _ _ _ => rfl⟩ .refl
  have hfits : ∀ k, 0 < k → k < (3 : UInt32).toNat → 0 < uint16 k ∧ uint16 k ≤ k := by
    intro k hpos hk
    have hsame : uint16 k = k := Nat.mod_eq_of_lt (Nat.lt_trans hk (by decide))
    rw [hsame]
    exact ⟨hpos, Nat.le_refl k⟩
  obtain ⟨q, -, -, hstarted, -, -⟩ :=
    reader_served 3 (by decide) [0, 0, 0] rfl hfits 0 hreaches
  refine ⟨_, hreaches, rfl, ?_⟩
  exact (hstarted (fun _ _ hr => by cases hr)).resolve_right (by decide)

/-- Two interrupts between a removal and the check behind it fill the buffer: the thread marks the
receiver active without starting it, and it is never started again. -/
theorem receiver_stopped :
    ¬∀ s, Relation.ReflTransGen (fun s s' => ∃ a, step uint16 s a = some s')
        (System.start uint16 3 [0, 0, 0] 0) s →
      (∀ k got, s.reader ≠ .rearming k got) → s.hal.isSome = true ∨ s.rxBuffer.isFull = true := by
  intro hall
  have hreaches : Relation.ReflTransGen (fun s s' => ∃ a, step uint16 s a = some s')
      (System.start uint16 3 [0, 0, 0] 0) _ :=
    .head ⟨.receive 1, rfl⟩ <| .head ⟨.event false, rfl⟩ <| .head ⟨.read 5, rfl⟩ <|
    .head ⟨.reader, rfl⟩ <| .head ⟨.reader, rfl⟩ <|
    .head ⟨.receive 2, rfl⟩ <| .head ⟨.event false, rfl⟩ <|
    .head ⟨.receive 3, rfl⟩ <| .head ⟨.event false, rfl⟩ <|
    .head ⟨.reader, rfl⟩ <| .head ⟨.reader, rfl⟩ <| .head ⟨.reader, rfl⟩ .refl
  have hclaim := hall _ hreaches (fun _ _ hr => by cases hr)
  exact absurd hclaim (by decide)

end ColonyPico.Io.StreamReceive
