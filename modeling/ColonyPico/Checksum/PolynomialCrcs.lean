import ColonyPico.Checksum.Crc16CcittFast
import ColonyPico.Checksum.Crc32EthernetFast
import ColonyPico.Foundations.PolynomialDivision

/-!
The table driven CRCs as polynomial division, and the errors that they detect.
-/

namespace ColonyPico.Checksum.PolynomialCrcs

open Polynomial
open ColonyPico.Foundations.ShiftRegister
open ColonyPico.Foundations.PolynomialDivision

/-- The generator of `Crc32EthernetFast`. -/
def ethernet : BitVec 32 := 0x04C11DB7#32

/-- The generator of `Crc16CcittFast`. -/
def ccitt : BitVec 16 := 0x1021#16

theorem divisor_ethernet :
    divisor ethernet =
      X ^ 32 + (X ^ 26 + X ^ 23 + X ^ 22 + X ^ 16 + X ^ 12 + X ^ 11 + X ^ 10 + X ^ 8 + X ^ 7 +
        X ^ 5 + X ^ 4 + X ^ 2 + X + 1) := by
  have hbits : (Finset.range 32).filter (ethernet.getLsbD · = true) =
      {26, 23, 22, 16, 12, 11, 10, 8, 7, 5, 4, 2, 1, 0} := by decide
  rw [divisor, ofRegister_eq_sum, hbits]
  simp [add_assoc]

theorem divisor_ccitt :
    divisor ccitt = X ^ 16 + (X ^ 12 + X ^ 5 + 1) := by
  have hbits : (Finset.range 16).filter (ccitt.getLsbD · = true) = {12, 5, 0} := by decide
  rw [divisor, ofRegister_eq_sum, hbits]
  simp [add_assoc]

theorem ethernet_odd : ethernet.getLsbD 0 = true := by
  decide

theorem ccitt_odd : ccitt.getLsbD 0 = true := by
  decide

/-! ### The tables -/

theorem ethernet_table_all : ∀ n < 256,
    (Crc32EthernetFast.tableAt (UInt8.ofNat n)).toBitVec =
      run ethernet (atTop (UInt8.ofNat n).toBitVec) (zeros 8) := by
  set_option maxRecDepth 20000 in decide

/-- Each entry of the table is eight steps of the division of its index. -/
theorem ethernet_table (octet : UInt8) :
    (Crc32EthernetFast.tableAt octet).toBitVec =
      run ethernet (atTop octet.toBitVec) (zeros 8) := by
  have h := ethernet_table_all octet.toNat octet.toNat_lt
  rwa [UInt8.ofNat_toNat] at h

theorem ccitt_table_all : ∀ n < 256,
    (Crc16CcittFast.tableAt (UInt8.ofNat n).toUInt16).toBitVec =
      run ccitt (atTop (UInt8.ofNat n).toBitVec) (zeros 8) := by
  set_option maxRecDepth 20000 in decide

theorem ccitt_table (octet : UInt8) :
    (Crc16CcittFast.tableAt octet.toUInt16).toBitVec =
      run ccitt (atTop octet.toBitVec) (zeros 8) := by
  have h := ccitt_table_all octet.toNat octet.toNat_lt
  rwa [UInt8.ofNat_toNat] at h

theorem ethernet_accumulateByte (c : Crc32EthernetFast.Crc32) (byte : UInt8) :
    (Crc32EthernetFast.accumulateByte c byte).crc.toBitVec =
      run ethernet c.crc.toBitVec (leading byte.toBitVec 8) := by
  have htop : (byte ^^^ (c.crc >>> 24).toUInt8).toBitVec =
      byte.toBitVec ^^^ top 8 c.crc.toBitVec := by
    rw [UInt8.toBitVec_xor, UInt32.toBitVec_toUInt8, UInt32.toBitVec_shiftRight]
    rfl
  rw [run_leading (by decide : 8 ≤ 32), ← htop, ← ethernet_table]
  rfl

theorem ccitt_index (c : UInt16) (byte : UInt8) :
    (c >>> 8 ^^^ byte.toUInt16) &&& (0xFF : UInt16) = (byte ^^^ (c >>> 8).toUInt8).toUInt16 := by
  apply UInt16.toNat.inj
  have hc : c.toNat / 256 < 256 := by
    have := c.toNat_lt
    omega
  have hxor : (c.toNat / 256) ^^^ byte.toNat < 256 :=
    Nat.xor_lt_two_pow (n := 8) hc byte.toNat_lt
  have hmask : (c.toNat / 256 ^^^ byte.toNat) &&& 255 = c.toNat / 256 ^^^ byte.toNat :=
    (Nat.and_two_pow_sub_one_eq_mod _ 8).trans (Nat.mod_eq_of_lt hxor)
  simp [Nat.shiftRight_eq_div_pow, hmask, Nat.mod_eq_of_lt hc, Nat.xor_comm]

theorem ccitt_accumulateByte (c : Crc16CcittFast.Crc16) (byte : UInt8) :
    (Crc16CcittFast.accumulateByte c byte).crc.toBitVec =
      run ccitt c.crc.toBitVec (leading byte.toBitVec 8) := by
  have htop : (byte ^^^ (c.crc >>> 8).toUInt8).toBitVec =
      byte.toBitVec ^^^ top 8 c.crc.toBitVec := by
    rw [UInt8.toBitVec_xor, UInt16.toBitVec_toUInt8, UInt16.toBitVec_shiftRight]
    rfl
  rw [Crc16CcittFast.accumulateByte, ccitt_index, run_leading (by decide : 8 ≤ 16), ← htop,
    ← ccitt_table]
  rfl

/-! ### Messages -/

theorem ethernet_accumulate (c : Crc32EthernetFast.Crc32) (bytes : List UInt8) :
    (Crc32EthernetFast.accumulate c bytes).crc.toBitVec =
      run ethernet c.crc.toBitVec (bitsOf bytes) :=
  foldl_eq_run (fun c : Crc32EthernetFast.Crc32 => c.crc.toBitVec) ethernet_accumulateByte c bytes

theorem ccitt_accumulate (c : Crc16CcittFast.Crc16) (bytes : List UInt8) :
    (Crc16CcittFast.accumulate c bytes).crc.toBitVec =
      run ccitt c.crc.toBitVec (bitsOf bytes) :=
  foldl_eq_run (fun c : Crc16CcittFast.Crc16 => c.crc.toBitVec) ccitt_accumulateByte c bytes

theorem ethernet_chunks (c : Crc32EthernetFast.Crc32) (chunks : List (List UInt8)) :
    chunks.foldl Crc32EthernetFast.accumulate c =
      Crc32EthernetFast.accumulate c chunks.flatten :=
  List.foldl_flatten.symm

theorem ccitt_chunks (c : Crc16CcittFast.Crc16) (chunks : List (List UInt8)) :
    chunks.foldl Crc16CcittFast.accumulate c =
      Crc16CcittFast.accumulate c chunks.flatten :=
  List.foldl_flatten.symm

/-! ### The check bytes -/

theorem ethernet_finalize (c : Crc32EthernetFast.Crc32) :
    bitsOf (Crc32EthernetFast.finalize c) = leading c.crc.toBitVec 32 := by
  show leading ((c.crc.toBitVec >>> 24).setWidth 8) 8 ++
    (leading ((c.crc.toBitVec >>> 16).setWidth 8) 8 ++
      (leading ((c.crc.toBitVec >>> 8).setWidth 8) 8 ++
        (leading ((c.crc.toBitVec >>> 0).setWidth 8) 8 ++ []))) =
    leading c.crc.toBitVec (8 + (8 + (8 + 8)))
  rw [leading_octet _ (by decide), leading_octet _ (by decide), leading_octet _ (by decide),
    leading_octet _ (by decide), List.append_nil, leading_add, leading_add, leading_add,
    ← BitVec.shiftLeft_add, ← BitVec.shiftLeft_add, BitVec.shiftLeft_zero]

theorem ccitt_finalize (c : Crc16CcittFast.Crc16) :
    bitsOf (Crc16CcittFast.finalize c) = leading c.crc.toBitVec 16 := by
  show leading ((c.crc.toBitVec >>> 8).setWidth 8) 8 ++
    (leading ((c.crc.toBitVec >>> 0).setWidth 8) 8 ++ []) = leading c.crc.toBitVec (8 + 8)
  rw [leading_octet _ (by decide), leading_octet _ (by decide), List.append_nil, leading_add,
    BitVec.shiftLeft_zero]

theorem ethernet_isOkay (c : Crc32EthernetFast.Crc32) :
    Crc32EthernetFast.isOkay c = true ↔ c.crc.toBitVec = 0#32 := by
  rw [Crc32EthernetFast.isOkay, beq_iff_eq, ← UInt32.toBitVec_inj]
  rfl

theorem ccitt_isOkay (c : Crc16CcittFast.Crc16) :
    Crc16CcittFast.isOkay c = true ↔ c.crc.toBitVec = 0#16 := by
  rw [Crc16CcittFast.isOkay, beq_iff_eq, ← UInt16.toBitVec_inj]
  rfl

theorem ethernet_recognises (c : Crc32EthernetFast.Crc32) {check : List UInt8}
    (hlen : check.length = 4) :
    Crc32EthernetFast.isOkay (Crc32EthernetFast.accumulate c check) = true ↔
      check = Crc32EthernetFast.finalize c := by
  rw [ethernet_isOkay, ethernet_accumulate, run_eq_zero_iff ethernet_odd _ (by simp [hlen]),
    ← ethernet_finalize]
  exact ⟨fun h => bitsOf_injective h, fun h => h ▸ rfl⟩

theorem ccitt_recognises (c : Crc16CcittFast.Crc16) {check : List UInt8}
    (hlen : check.length = 2) :
    Crc16CcittFast.isOkay (Crc16CcittFast.accumulate c check) = true ↔
      check = Crc16CcittFast.finalize c := by
  rw [ccitt_isOkay, ccitt_accumulate, run_eq_zero_iff ccitt_odd _ (by simp [hlen]),
    ← ccitt_finalize]
  exact ⟨fun h => bitsOf_injective h, fun h => h ▸ rfl⟩

/-- The remainder of a message after an initial value, bit by bit and as polynomials. -/
structure HoldsRemainder {w : Nat} (g init : BitVec w) (message : List UInt8)
    (crc : BitVec w) : Prop where
  bitwise : crc = run g init (bitsOf message)
  polynomial : ofRegister crc =
    (ofRegister init * X ^ (8 * message.length) + ofBits (bitsOf message) * X ^ w) %ₘ divisor g

theorem holdsRemainder_run {w : Nat} (hw : 0 < w) (g init : BitVec w) (message : List UInt8) :
    HoldsRemainder g init message (run g init (bitsOf message)) := by
  refine ⟨rfl, ?_⟩
  rw [ofRegister_run_eq hw, length_bitsOf]

/-- The calls of `accumulate()` after `reset()`. -/
def ethernetParts (chunks : List (List UInt8)) : Crc32EthernetFast.Crc32 :=
  chunks.foldl Crc32EthernetFast.accumulate Crc32EthernetFast.reset

def ccittParts (chunks : List (List UInt8)) : Crc16CcittFast.Crc16 :=
  chunks.foldl Crc16CcittFast.accumulate Crc16CcittFast.reset

/-- Over any split of a message both CRCs hold the remainder of its division, and of all
check bytes only those of `finalize()` are recognised. -/
theorem accumulate_eq_remainder (chunks : List (List UInt8)) :
    (HoldsRemainder 0x04C11DB7#32 0xFFFFFFFF#32 chunks.flatten
        (ethernetParts chunks).crc.toBitVec ∧
      bitsOf (Crc32EthernetFast.finalize (ethernetParts chunks)) =
        leading (ethernetParts chunks).crc.toBitVec 32 ∧
      ∀ check : List UInt8, check.length = 4 →
        (Crc32EthernetFast.isOkay (Crc32EthernetFast.accumulate (ethernetParts chunks) check) =
            true ↔
          check = Crc32EthernetFast.finalize (ethernetParts chunks))) ∧
    HoldsRemainder 0x1021#16 0xFFFF#16 chunks.flatten (ccittParts chunks).crc.toBitVec ∧
      bitsOf (Crc16CcittFast.finalize (ccittParts chunks)) =
        leading (ccittParts chunks).crc.toBitVec 16 ∧
      ∀ check : List UInt8, check.length = 2 →
        (Crc16CcittFast.isOkay (Crc16CcittFast.accumulate (ccittParts chunks) check) = true ↔
          check = Crc16CcittFast.finalize (ccittParts chunks)) := by
  have h32 : (ethernetParts chunks).crc.toBitVec =
      run ethernet 0xFFFFFFFF#32 (bitsOf chunks.flatten) := by
    rw [ethernetParts, ethernet_chunks, ethernet_accumulate]
    rfl
  have h16 : (ccittParts chunks).crc.toBitVec =
      run ccitt 0xFFFF#16 (bitsOf chunks.flatten) := by
    rw [ccittParts, ccitt_chunks, ccitt_accumulate]
    rfl
  refine ⟨⟨?_, ethernet_finalize _, fun check => ethernet_recognises _⟩,
    ?_, ccitt_finalize _, fun check => ccitt_recognises _⟩
  · rw [h32]
    exact holdsRemainder_run (by decide) ethernet _ _
  · rw [h16]
    exact holdsRemainder_run (by decide) ccitt _ _

/-- Four zero bytes are recognised after a message in two parts if they are its check bytes. -/
theorem accumulate_eq_remainder_parts :
    Crc32EthernetFast.isOkay
        (Crc32EthernetFast.accumulate (ethernetParts [[1], [2, 3]]) [0, 0, 0, 0]) = true ↔
      [0, 0, 0, 0] = Crc32EthernetFast.finalize (ethernetParts [[1], [2, 3]]) :=
  (accumulate_eq_remainder [[1], [2, 3]]).1.2.2 [0, 0, 0, 0] rfl

/-- A message with the bytes of `finalize()` after it. -/
def ethernetFrame (message : List UInt8) : List UInt8 :=
  message ++ Crc32EthernetFast.finalize
    (Crc32EthernetFast.accumulate Crc32EthernetFast.reset message)

def ccittFrame (message : List UInt8) : List UInt8 :=
  message ++ Crc16CcittFast.finalize (Crc16CcittFast.accumulate Crc16CcittFast.reset message)

def ethernetOkay (received : List UInt8) : Bool :=
  Crc32EthernetFast.isOkay (Crc32EthernetFast.accumulate Crc32EthernetFast.reset received)

def ccittOkay (received : List UInt8) : Bool :=
  Crc16CcittFast.isOkay (Crc16CcittFast.accumulate Crc16CcittFast.reset received)

theorem ethernetOkay_iff (received : List UInt8) :
    ethernetOkay received = true ↔ run ethernet 0xFFFFFFFF#32 (bitsOf received) = 0#32 := by
  rw [ethernetOkay, ethernet_isOkay, ethernet_accumulate]
  rfl

theorem ccittOkay_iff (received : List UInt8) :
    ccittOkay received = true ↔ run ccitt 0xFFFF#16 (bitsOf received) = 0#16 := by
  rw [ccittOkay, ccitt_isOkay, ccitt_accumulate]
  rfl

theorem ethernetOkay_frame (message : List UInt8) : ethernetOkay (ethernetFrame message) = true := by
  rw [ethernetOkay, ethernetFrame, Crc32EthernetFast.accumulate_append]
  exact (ethernet_recognises _ rfl).mpr rfl

theorem ccittOkay_frame (message : List UInt8) : ccittOkay (ccittFrame message) = true := by
  rw [ccittOkay, ccittFrame, Crc16CcittFast.accumulate_append]
  exact (ccitt_recognises _ rfl).mpr rfl

theorem ethernetOkay_burst {sent error : List UInt8} (hsent : ethernetOkay sent = true)
    (hlen : error.length = sent.length) (hburst : Burst 32 (bitsOf error)) :
    ethernetOkay (List.zipWith (· ^^^ ·) sent error) = false := by
  rw [ethernetOkay_iff] at hsent
  rw [Bool.eq_false_iff, ne_eq, ethernetOkay_iff, bitsOf_zipWith_xor _ _ hlen.symm]
  exact run_zipWith_burst ethernet_odd _ (by simp [hlen]) hsent hburst

theorem ccittOkay_burst {sent error : List UInt8} (hsent : ccittOkay sent = true)
    (hlen : error.length = sent.length) (hburst : Burst 16 (bitsOf error)) :
    ccittOkay (List.zipWith (· ^^^ ·) sent error) = false := by
  rw [ccittOkay_iff] at hsent
  rw [Bool.eq_false_iff, ne_eq, ccittOkay_iff, bitsOf_zipWith_xor _ _ hlen.symm]
  exact run_zipWith_burst ccitt_odd _ (by simp [hlen]) hsent hburst

/-- A message with its check bytes passes, and does not after a burst of errors no
longer than the register. -/
theorem frame_okay_and_burst (message : List UInt8) :
    (ethernetOkay (ethernetFrame message) = true ∧
      ∀ error : List UInt8, error.length = (ethernetFrame message).length →
        Burst 32 (bitsOf error) →
        ethernetOkay (List.zipWith (· ^^^ ·) (ethernetFrame message) error) = false) ∧
    ccittOkay (ccittFrame message) = true ∧
      ∀ error : List UInt8, error.length = (ccittFrame message).length →
        Burst 16 (bitsOf error) →
        ccittOkay (List.zipWith (· ^^^ ·) (ccittFrame message) error) = false :=
  ⟨⟨ethernetOkay_frame message, fun _ => ethernetOkay_burst (ethernetOkay_frame message)⟩,
    ccittOkay_frame message, fun _ => ccittOkay_burst (ccittOkay_frame message)⟩

theorem frame_okay_and_burst_flip :
    ethernetOkay (List.zipWith (· ^^^ ·) (ethernetFrame [1, 2]) [0, 1, 0, 0, 0, 0]) = false ∧
      ccittOkay (List.zipWith (· ^^^ ·) (ccittFrame [1, 2]) [0, 1, 0, 0]) = false :=
  ⟨(frame_okay_and_burst [1, 2]).1.2 _ (by simp [ethernetFrame])
      ⟨15, 32, [true], by decide, by decide, by decide⟩,
    (frame_okay_and_burst [1, 2]).2.2 _ (by simp [ccittFrame])
      ⟨15, 16, [true], by decide, by decide, by decide⟩⟩

end ColonyPico.Checksum.PolynomialCrcs
