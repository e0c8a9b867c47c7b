import ColonyPico.Container.RingBuffer
import Mathlib.Logic.Relation

/-!
The transmit side of the STM32 stream driver (`Cpl::Io::Serial::ST::M32F4::StreamDriver`): the
thread that writes, and the interrupt that drains the transmit buffer.

The HAL takes the number of bytes in an argument of its own width; `sizeArg` is the conversion.
-/

namespace ColonyPico.Io.StreamTransmit

open ColonyPico.Container.RingBuffer

/-- Where the thread is in `write()`, with the bytes it has not added yet. -/
inductive Writer where
  | outside
  | filling (rest : List UInt8)
  | registering (rest : List UInt8)
  | checking (rest : List UInt8)
  | starting (rest : List UInt8)
  | waiting (rest : List UInt8)
  deriving DecidableEq

def Writer.rest : Writer → List UInt8
  | .outside => []
  | .filling rest => rest
  | .registering rest => rest
  | .checking rest => rest
  | .starting rest => rest
  | .waiting rest => rest

/-- The driver, the HAL and the thread.  The last two fields record what `write()` was given and
what the HAL was given. -/
structure System where
  txBuffer : Buffer UInt8
  txSize : UInt32
  txWaiterPtr : Bool
  busyTx : Bool
  writer : Writer
  signals : Nat
  written : List UInt8
  handed : List UInt8

/-- What `start()` leaves: a buffer of `maxElements` slots that is clear, and an idle HAL. -/
def System.start (maxElements : UInt32) (memory : List UInt8) (txSize : UInt32) (signals : Nat) :
    System :=
  { txBuffer := (Buffer.init maxElements memory).clearTheBuffer
    txSize := txSize
    txWaiterPtr := false
    busyTx := false
    writer := .outside
    signals := signals
    written := []
    handed := [] }

section Steps

variable (sizeArg : Nat → Nat)

/-- `HAL_UART_Transmit_IT()`, which refuses a second transmission and one of no bytes. -/
def transmitIT (s : System) (txPtr : Nat) : System :=
  let size := sizeArg s.txSize.toNat
  if s.busyTx ∨ size = 0 then s
  else
    { s with
      busyTx := true
      handed := s.handed ++ (s.txBuffer.elements.drop txPtr).take size }

/-- Handing the flat portion of the buffer to the HAL, if there is any. -/
def startFlat (s : System) : System :=
  let (txPtr, txSize) := s.txBuffer.peekNextRemoveItems s.txSize
  match txPtr with
  | none => { s with txSize := txSize }
  | some ptr => transmitIT sizeArg { s with txSize := txSize } ptr

/-- `su_txDoneIsr()`; the HAL is ready again before it calls. -/
def txDoneIsr (s : System) : System :=
  let s := { s with busyTx := false, txBuffer := s.txBuffer.removeElements s.txSize }
  let s := startFlat sizeArg s
  if s.txWaiterPtr then { s with signals := s.signals + 1, txWaiterPtr := false } else s

/-- The end of the outer loop: the thread waits if bytes are left, else it returns. -/
def Writer.afterStart (rest : List UInt8) : Writer :=
  if rest = [] then .outside else .waiting rest

/-- One atomic step of the thread inside `write()`; none when it is outside or blocked. -/
def writerStep (s : System) : Option System :=
  match s.writer with
  | .outside => none
  | .filling [] => some { s with writer := .checking [] }
  | .filling (byte :: rest) =>
      let (result, txBuffer) := s.txBuffer.add byte
      if result then some { s with txBuffer := txBuffer, writer := .filling rest }
      else some { s with txBuffer := txBuffer, writer := .registering (byte :: rest) }
  | .registering rest => some { s with txWaiterPtr := true, writer := .checking rest }
  | .checking rest =>
      if s.busyTx then some { s with writer := .afterStart rest }
      else some { s with writer := .starting rest }
  | .starting rest => some { startFlat sizeArg s with writer := .afterStart rest }
  | .waiting rest =>
      if s.signals = 0 then none
      else some { s with signals := s.signals - 1, writer := .filling rest }

inductive Action where
  | write (data : List UInt8)
  | writer
  | txComplete

def step (s : System) : Action → Option System
  | .write data =>
      if s.writer = .outside then
        -- nothing is done for no data
        some { s with
          writer := if data = [] then .outside else .filling data
          written := s.written ++ data }
      else none
  | .writer => writerStep sizeArg s
  | .txComplete => if s.busyTx then some (txDoneIsr sizeArg s) else none

end Steps

/-! The transmit buffer and the HAL -/

/-- The number of bytes at the front of the buffer that the HAL already has. -/
def System.inFlight (s : System) : Nat :=
  if s.busyTx then s.txSize.toNat else 0

/-- The buffer of `n` slots shows the queue `q`, the HAL sends a flat stretch of its front, and no
byte is lost, doubled or out of order. -/
structure Flow (n : Nat) (s : System) (q rest : List UInt8) : Prop where
  represents : Represents n s.txBuffer q
  ordered : s.handed ++ q.drop s.inFlight ++ rest = s.written
  sending : s.busyTx = true → 0 < s.txSize.toNat ∧ s.txSize.toNat ≤ q.length ∧
    s.txBuffer.headPtr + s.txSize.toNat ≤ n

variable {sizeArg : Nat → Nat} {n : Nat} {s s' : System} {q rest : List UInt8}

theorem startFlat_nil (h : Represents n s.txBuffer []) : startFlat sizeArg s = s := by
  rw [startFlat, h.peekNextRemoveItems, if_pos List.length_nil]

theorem startFlat_cons (hfits : ∀ k, 0 < k → k < n → sizeArg k = k)
    (h : Represents n s.txBuffer q) (hidle : s.busyTx = false) (hq : q ≠ []) :
    ∃ k, 0 < k ∧ k ≤ q.length ∧ s.txBuffer.headPtr + k ≤ n ∧ (UInt32.ofNat k).toNat = k ∧
      startFlat sizeArg s =
        { s with txSize := UInt32.ofNat k, busyTx := true, handed := s.handed ++ q.take k } := by
  have hpos := List.length_pos_of_ne_nil hq
  have hhead := h.headPtr_lt
  have hroom := h.fits
  have hsize := h.lt_size
  refine ⟨min q.length (n - s.txBuffer.headPtr), by omega, by omega, by omega,
    toNat_ofNat (by omega), ?_⟩
  have harg : sizeArg (UInt32.ofNat (min q.length (n - s.txBuffer.headPtr))).toNat =
      min q.length (n - s.txBuffer.headPtr) := by
    rw [toNat_ofNat (by omega)]
    exact hfits _ (by omega) (by omega)
  rw [startFlat, h.peekNextRemoveItems, if_neg (Nat.pos_iff_ne_zero.mp hpos)]
  simp only [transmitIT, harg, hidle, Bool.false_eq_true, false_or]
  rw [if_neg (by omega), h.flat_front (by omega) (by omega)]

/-- After the buffer was offered to an idle HAL, the HAL is idle only if the buffer is empty. -/
theorem flow_startFlat (hfits : ∀ k, 0 < k → k < n → sizeArg k = k) (h : Flow n s q rest)
    (hidle : s.busyTx = false) :
    Flow n (startFlat sizeArg s) q rest ∧
      ((startFlat sizeArg s).busyTx = false → q = []) ∧
      (startFlat sizeArg s).txWaiterPtr = s.txWaiterPtr ∧
      (startFlat sizeArg s).signals = s.signals ∧ (startFlat sizeArg s).writer = s.writer := by
  rcases Decidable.em (q = []) with rfl | hq
  · rw [startFlat_nil h.represents]
    exact ⟨h, fun _ => rfl, rfl, rfl, rfl⟩
  · obtain ⟨k, hpos, hle, hflat, hk, hstart⟩ := startFlat_cons hfits h.represents hidle hq
    rw [hstart]
    refine ⟨⟨h.represents, ?_, ?_⟩, fun hfalse => absurd hfalse (by simp), rfl, rfl, rfl⟩
    · have hordered := h.ordered
      simp only [System.inFlight, hidle, Bool.false_eq_true, ↓reduceIte, List.drop_zero] at hordered
      simp only [System.inFlight, ↓reduceIte, hk]
      rw [List.append_assoc s.handed, List.take_append_drop]
      exact hordered
    · intro _
      rw [hk]
      exact ⟨hpos, hle, hflat⟩

theorem flow_removeElements (h : Flow n s q rest) (hbusy : s.busyTx = true) :
    Flow n { s with busyTx := false, txBuffer := s.txBuffer.removeElements s.txSize }
      (q.drop s.txSize.toNat) rest := by
  obtain ⟨-, hle, hflat⟩ := h.sending hbusy
  refine ⟨h.represents.drop hflat hle, ?_, fun hfalse => absurd hfalse (by simp)⟩
  have hordered := h.ordered
  simp only [System.inFlight, hbusy, ↓reduceIte] at hordered
  simpa only [System.inFlight, Bool.false_eq_true, ↓reduceIte, List.drop_zero] using hordered

/-- The interrupt leaves the HAL busy or the buffer empty, and nobody registered. -/
theorem flow_txDoneIsr (hfits : ∀ k, 0 < k → k < n → sizeArg k = k) (h : Flow n s q rest)
    (hbusy : s.busyTx = true) :
    ∃ q', Flow n (txDoneIsr sizeArg s) q' rest ∧
      ((txDoneIsr sizeArg s).busyTx = false → q' = []) ∧
      (txDoneIsr sizeArg s).txWaiterPtr = false ∧
      (txDoneIsr sizeArg s).signals = s.signals + (if s.txWaiterPtr then 1 else 0) ∧
      (txDoneIsr sizeArg s).writer = s.writer := by
  obtain ⟨hflow, hdrained, hwaiter, hsignals, hwriter⟩ :=
    flow_startFlat hfits (flow_removeElements h hbusy) rfl
  refine ⟨q.drop s.txSize.toNat, ?_⟩
  simp only [txDoneIsr, hwaiter]
  split_ifs with hwaits
  · exact ⟨⟨hflow.represents, hflow.ordered, hflow.sending⟩, hdrained, rfl, by rw [hsignals],
      hwriter⟩
  · exact ⟨hflow, hdrained, by rw [hwaiter]; simpa using hwaits, hsignals, hwriter⟩

/-! Runs -/

/-- What the thread relies on at each place.  It counts on the interrupt only while it is
registered. -/
def Placed (s : System) (q : List UInt8) : Writer → Prop
  | .outside => s.busyTx = false → q = []
  | .filling _ => True
  | .registering r => r ≠ []
  | .checking r => r ≠ [] → (s.txWaiterPtr = true ∨ 0 < s.signals) ∧
      (s.txWaiterPtr = true → s.busyTx = true ∨ q ≠ [])
  | .starting r => s.busyTx = false ∧ (r ≠ [] → (s.txWaiterPtr = true ∨ 0 < s.signals) ∧
      (s.txWaiterPtr = true → q ≠ []))
  | .waiting r => r ≠ [] ∧ (s.busyTx = false → q = []) ∧
      (s.txWaiterPtr = true ∨ 0 < s.signals) ∧ (s.txWaiterPtr = true → s.busyTx = true)

structure Inv (n : Nat) (s : System) (q : List UInt8) : Prop where
  flow : Flow n s q s.writer.rest
  placed : Placed s q s.writer

theorem inv_start (maxElements : UInt32) (hpos : 0 < maxElements) {memory : List UInt8}
    (hlen : memory.length = maxElements.toNat) (txSize : UInt32) (signals : Nat) :
    Inv maxElements.toNat (System.start maxElements memory txSize signals) [] := by
  constructor
  · exact ⟨(represents_init hpos hlen).clear, rfl,
      fun hbusy => absurd hbusy (by simp [System.start])⟩
  · exact fun _ => rfl

/-- The thread leaves the check or the start of a transmission with the HAL busy, or with an empty
buffer. -/
theorem inv_afterStart (hflow : Flow n s q rest) (hdrained : s.busyTx = false → q = [])
    (hwaits : rest ≠ [] → (s.txWaiterPtr = true ∨ 0 < s.signals) ∧
      (s.txWaiterPtr = true → s.busyTx = true)) :
    Inv n { s with writer := .afterStart rest } q := by
  unfold Writer.afterStart
  split_ifs with hrest
  · subst hrest
    exact ⟨⟨hflow.represents, hflow.ordered, hflow.sending⟩, hdrained⟩
  · exact ⟨⟨hflow.represents, hflow.ordered, hflow.sending⟩, hrest, hdrained, hwaits hrest⟩

/-- The thread registers only while the buffer has something left to send. -/
def RegistersInTime (s : System) : Action → Prop
  | .writer => ∀ r, s.writer = .registering r → s.txBuffer.isEmpty = false
  | _ => True

theorem ne_nil_of_not_isEmpty {rb : Buffer UInt8} (h : Represents n rb q)
    (hempty : rb.isEmpty = false) : q ≠ [] := by
  rintro rfl
  rw [h.isEmpty] at hempty
  cases hempty

theorem inFlight_le (h : Flow n s q rest) : s.inFlight ≤ q.length := by
  unfold System.inFlight
  split_ifs with hbusy
  · exact (h.sending hbusy).2.1
  · exact Nat.zero_le _

theorem inv_filling {byte : UInt8} (h : Flow n s q (byte :: rest)) :
    ∃ q', Inv n { s with
      txBuffer := (s.txBuffer.add byte).2
      writer := if (s.txBuffer.add byte).1 then .filling rest else .registering (byte :: rest) } q' := by
  obtain ⟨hresult, hadded⟩ := h.represents.add byte
  rw [hresult]
  rcases Decidable.em (q.length < n - 1) with hroom | hfull
  · rw [if_pos hroom] at hadded
    rw [decide_eq_true hroom, if_pos rfl]
    refine ⟨q ++ [byte], ⟨hadded, ?_, ?_⟩, trivial⟩
    · have hordered := h.ordered
      have hle := inFlight_le h
      show s.handed ++ (q ++ [byte]).drop s.inFlight ++ rest = s.written
      rw [List.drop_append_of_le_length hle, ← hordered]
      simp
    · intro hbusy
      obtain ⟨hpos, hle, hflat⟩ := h.sending hbusy
      refine ⟨hpos, ?_, ?_⟩
      · rw [List.length_append]
        exact Nat.le_add_right_of_le hle
      · have hhead : (s.txBuffer.add byte).2.headPtr = s.txBuffer.headPtr := by
          rw [Buffer.add]
          split_ifs <;> rfl
        rw [hhead]
        exact hflat
  · have hkept : (s.txBuffer.add byte).2 = s.txBuffer := by
      have hfalse : (s.txBuffer.add byte).1 = false := by rw [hresult, decide_eq_false hfull]
      rw [Buffer.add] at hfalse ⊢
      split_ifs at hfalse ⊢
      rfl
    rw [hkept, decide_eq_false hfull, if_neg (by decide)]
    exact ⟨q, ⟨h.represents, h.ordered, h.sending⟩, List.cons_ne_nil _ _⟩

theorem inv_writerStep (hfits : ∀ k, 0 < k → k < n → sizeArg k = k) (h : Inv n s q)
    (hstep : writerStep sizeArg s = some s') (htime : RegistersInTime s .writer) :
    ∃ q', Inv n s' q' := by
  obtain ⟨hflow, hplaced⟩ := h
  unfold writerStep at hstep
  split at hstep
  case h_1 => cases hstep
  case h_2 hwriter =>
    cases hstep
    rw [hwriter] at hflow
    exact ⟨q, ⟨hflow.represents, hflow.ordered, hflow.sending⟩, fun hne => absurd rfl hne⟩
  case h_3 byte rest hwriter =>
    rw [hwriter] at hflow
    obtain ⟨q', hinv⟩ := inv_filling hflow
    refine ⟨q', ?_⟩
    simp only at hstep
    split_ifs at hstep hinv <;> cases hstep <;> exact hinv
  case h_4 rest hwriter =>
    cases hstep
    rw [hwriter] at hflow
    have hq := ne_nil_of_not_isEmpty hflow.represents (htime rest hwriter)
    exact ⟨q, ⟨hflow.represents, hflow.ordered, hflow.sending⟩,
      fun _ => ⟨.inl rfl, fun _ => .inr hq⟩⟩
  case h_5 rest hwriter =>
    rw [hwriter] at hflow hplaced
    split_ifs at hstep with hbusy
    · cases hstep
      refine ⟨q, inv_afterStart hflow (fun hidle => absurd (hbusy.symm.trans hidle) (by simp)) ?_⟩
      exact fun hrest => ⟨(hplaced hrest).1, fun _ => hbusy⟩
    · cases hstep
      rw [Bool.not_eq_true] at hbusy
      refine ⟨q, ⟨hflow.represents, hflow.ordered, hflow.sending⟩, hbusy, fun hrest => ?_⟩
      refine ⟨(hplaced hrest).1, fun hwaiter => ?_⟩
      exact ((hplaced hrest).2 hwaiter).resolve_left (by simp [hbusy])
  case h_6 rest hwriter =>
    cases hstep
    rw [hwriter] at hflow hplaced
    obtain ⟨hidle, hwaits⟩ := hplaced
    obtain ⟨hflow', hdrained, hwaiter, hsignals, -⟩ := flow_startFlat hfits hflow hidle
    refine ⟨q, inv_afterStart hflow' hdrained fun hrest => ?_⟩
    rw [hwaiter, hsignals]
    refine ⟨(hwaits hrest).1, fun hregistered => ?_⟩
    by_contra hstill
    exact (hwaits hrest).2 hregistered (hdrained (by simpa using hstill))
  case h_7 rest hwriter =>
    rw [hwriter] at hflow
    split_ifs at hstep
    cases hstep
    exact ⟨q, ⟨hflow.represents, hflow.ordered, hflow.sending⟩, trivial⟩

theorem placed_txDoneIsr (h : Inv n s q) (hbusy : s.busyTx = true) {t : System} {q' : List UInt8}
    (hdrained : t.busyTx = false → q' = []) (hwaiter : t.txWaiterPtr = false)
    (hsignals : t.signals = s.signals + (if s.txWaiterPtr then 1 else 0)) :
    Placed t q' s.writer := by
  obtain ⟨-, hplaced⟩ := h
  have hunregistered : ¬t.txWaiterPtr = true := by simp [hwaiter]
  have hsignalled : (s.txWaiterPtr = true ∨ 0 < s.signals) → 0 < t.signals := by
    rintro (hregistered | hpos)
    · rw [hsignals, if_pos hregistered]
      omega
    · rw [hsignals]
      omega
  cases hwriter : s.writer with
  | outside => exact hdrained
  | filling r => exact trivial
  | registering r =>
      rw [hwriter] at hplaced
      exact hplaced
  | checking r =>
      rw [hwriter] at hplaced
      intro hr
      exact ⟨.inr (hsignalled (hplaced hr).1), fun hregistered => absurd hregistered hunregistered⟩
  | starting r =>
      rw [hwriter] at hplaced
      exact absurd (hbusy.symm.trans hplaced.1) (by simp)
  | waiting r =>
      rw [hwriter] at hplaced
      obtain ⟨hr, -, hawaited, -⟩ := hplaced
      exact ⟨hr, hdrained, .inr (hsignalled hawaited),
        fun hregistered => absurd hregistered hunregistered⟩

theorem inv_step (hfits : ∀ k, 0 < k → k < n → sizeArg k = k) (h : Inv n s q) {a : Action}
    (hstep : step sizeArg s a = some s') (htime : RegistersInTime s a) : ∃ q', Inv n s' q' := by
  cases a with
  | write data =>
      obtain ⟨hflow, hplaced⟩ := h
      simp only [step] at hstep
      split_ifs at hstep with hwriter hdata
      · cases hstep
        rw [hwriter] at hflow hplaced
        subst hdata
        refine ⟨q, ⟨hflow.represents, ?_, hflow.sending⟩, hplaced⟩
        have hordered := hflow.ordered
        show s.handed ++ q.drop s.inFlight ++ [] = s.written ++ []
        rw [List.append_nil s.written]
        exact hordered
      · cases hstep
        rw [hwriter] at hflow
        refine ⟨q, ⟨hflow.represents, ?_, hflow.sending⟩, trivial⟩
        have hordered := hflow.ordered
        show s.handed ++ q.drop s.inFlight ++ data = s.written ++ data
        rw [← hordered]
        simp [Writer.rest]
  | writer => exact inv_writerStep hfits h hstep htime
  | txComplete =>
      simp only [step] at hstep
      split_ifs at hstep with hbusy
      cases hstep
      obtain ⟨q', hflow, hdrained, hwaiter, hsignals, hwriter⟩ := flow_txDoneIsr hfits h.flow hbusy
      refine ⟨q', ?_, ?_⟩
      · rw [hwriter]
        exact hflow
      · rw [hwriter]
        exact placed_txDoneIsr h hbusy hdrained hwaiter hsignals

/-- The steps of runs in which the thread registers in time. -/
def TimelyMoves (sizeArg : Nat → Nat) (s s' : System) : Prop :=
  ∃ a, step sizeArg s a = some s' ∧ RegistersInTime s a

/-- In every run in which the thread never registers behind the last interrupt, the HAL gets the
written bytes in order and once each, and has got all of them once it is idle and the thread is
outside, and a thread that is blocked without a signal waits for a transmission whose end will
signal it. -/
theorem writer_served (maxElements : UInt32) (hpos : 0 < maxElements) (memory : List UInt8)
    (hlen : memory.length = maxElements.toNat)
    (hfits : ∀ k, 0 < k → k < maxElements.toNat → sizeArg k = k) (txSize : UInt32) (signals : Nat)
    (hreaches : Relation.ReflTransGen (TimelyMoves sizeArg)
      (System.start maxElements memory txSize signals) s) :
    (∃ q, Represents maxElements.toNat s.txBuffer q ∧
      s.handed ++ q.drop s.inFlight ++ s.writer.rest = s.written) ∧
    (s.writer = .outside → s.busyTx = false → s.handed = s.written) ∧
    (∀ r, s.writer = .waiting r → s.signals = 0 →
      s.busyTx = true ∧ 0 < (txDoneIsr sizeArg s).signals) := by
  have hinv : ∃ q, Inv maxElements.toNat s q := by
    induction hreaches with
    | refl => exact ⟨[], inv_start maxElements hpos hlen txSize signals⟩
    | tail _ hmove ih =>
        obtain ⟨q, hinv⟩ := ih
        obtain ⟨a, hstep, htime⟩ := hmove
        exact inv_step hfits hinv hstep htime
  obtain ⟨q, hflow, hplaced⟩ := hinv
  refine ⟨⟨q, hflow.represents, hflow.ordered⟩, ?_, ?_⟩
  · intro hwriter hidle
    rw [hwriter] at hflow hplaced
    have hordered := hflow.ordered
    rwa [hplaced hidle, List.drop_nil, List.append_nil, Writer.rest, List.append_nil] at hordered
  · intro r hwriter hsignals
    rw [hwriter] at hplaced
    obtain ⟨-, -, hawaited, hwakes⟩ := hplaced
    have hregistered := hawaited.resolve_right (by omega)
    have hbusy := hwakes hregistered
    obtain ⟨-, -, -, -, hsignalled, -⟩ := flow_txDoneIsr hfits hflow hbusy
    refine ⟨hbusy, ?_⟩
    rw [hsignalled, if_pos hregistered]
    omega

/-- The `uint16_t` argument of the HAL. -/
def uint16 (k : Nat) : Nat :=
  k % 65536

/-- A buffer for one byte: the second byte of a call waits for the transmission of the first. -/
theorem writer_served_one_byte :
    ∃ s, Relation.ReflTransGen (TimelyMoves uint16) (System.start 2 [0, 0] 0 0) s ∧
      s.writer = .waiting [8] ∧ s.handed = [7] ∧ s.busyTx = true ∧
      0 < (txDoneIsr uint16 s).signals := by
  have hreaches : Relation.ReflTransGen (TimelyMoves uint16) (System.start 2 [0, 0] 0 0) _ :=
    .head ⟨.write [7, 8], rfl, trivial⟩ <|
    .head ⟨.writer, rfl, fun _ hr => by cases hr⟩ <|
    .head ⟨.writer, rfl, fun _ hr => by cases hr⟩ <|
    .head ⟨.writer, rfl, fun _ _ => rfl⟩ <|
    .head ⟨.writer, rfl, fun _ hr => by cases hr⟩ <|
    .head ⟨.writer, rfl, fun _ hr => by cases hr⟩ .refl
  have hserved := writer_served 2 (by decide) [0, 0] rfl
    (fun k _ hk => Nat.mod_eq_of_lt (Nat.lt_trans hk (by decide))) 0 0 hreaches
  obtain ⟨hbusy, hwoken⟩ := hserved.2.2 [8] rfl rfl
  exact ⟨_, hreaches, rfl, rfl, hbusy, hwoken⟩

/-- The last interrupt comes between the failed `add()` and the registration: the thread then finds
nothing to start and waits for an interrupt that never comes. -/
theorem writer_stranded :
    ¬∀ s, Relation.ReflTransGen (fun s s' => ∃ a, step uint16 s a = some s')
        (System.start 2 [0, 0] 0 0) s →
      ∀ r, s.writer = .waiting r → s.signals = 0 → s.busyTx = true := by
  intro hall
  have hreaches : Relation.ReflTransGen (fun s s' => ∃ a, step uint16 s a = some s')
      (System.start 2 [0, 0] 0 0) _ :=
    .head ⟨.write [7], rfl⟩ <| .head ⟨.writer, rfl⟩ <| .head ⟨.writer, rfl⟩ <|
    .head ⟨.writer, rfl⟩ <| .head ⟨.writer, rfl⟩ <|
    .head ⟨.write [8], rfl⟩ <| .head ⟨.writer, rfl⟩ <| .head ⟨.txComplete, rfl⟩ <|
    .head ⟨.writer, rfl⟩ <| .head ⟨.writer, rfl⟩ <| .head ⟨.writer, rfl⟩ .refl
  exact Bool.false_ne_true (hall _ hreaches [8] rfl rfl)

end ColonyPico.Io.StreamTransmit
