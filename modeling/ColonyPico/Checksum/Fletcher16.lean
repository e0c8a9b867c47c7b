import Mathlib.Data.Nat.ModEq
import Mathlib.Data.List.Basic

/-!
The Fletcher checksum (`Cpl::Checksum::Fletcher16`).
-/

namespace ColonyPico.Checksum.Fletcher16

/-- The running sums, `m_sum1` and `m_sum2`. -/
@[ext]
structure Sums where
  sum1 : UInt8
  sum2 : UInt8
  deriving DecidableEq, Repr

def reset : Sums := ⟨0, 0⟩

/-- One pass of the loop of `accumulate()`. -/
def accumulateByte (c : Sums) (byte : UInt8) : Sums :=
  let sum1 : UInt8 := ((c.sum1.toUInt16 + byte.toUInt16) % 255).toUInt8
  ⟨sum1, ((c.sum2.toUInt16 + sum1.toUInt16) % 255).toUInt8⟩

/-- `accumulate()` over a buffer of bytes. -/
def accumulate (c : Sums) (bytes : List UInt8) : Sums :=
  bytes.foldl accumulateByte c

/-- `sumlo` of `finalize()`. -/
def sumlo (c : Sums) : UInt8 :=
  (255 - (c.sum1.toUInt16 + c.sum2.toUInt16) % 255).toUInt8

/-- `sumhi` of `finalize()`. -/
def sumhi (c : Sums) : UInt8 :=
  (255 - (c.sum1.toUInt16 + (sumlo c).toUInt16) % 255).toUInt8

/-- The two bytes that `finalize()` stores. -/
def finalize (c : Sums) : List UInt8 :=
  [sumlo c, sumhi c]

def isOkay (c : Sums) : Bool :=
  c.sum1 == 0 && c.sum2 == 0

@[simp] theorem accumulate_nil (c : Sums) : accumulate c [] = c := rfl

@[simp] theorem accumulate_cons (c : Sums) (b : UInt8) (bytes : List UInt8) :
    accumulate c (b :: bytes) = accumulate (accumulateByte c b) bytes := rfl

theorem accumulate_append (c : Sums) (xs ys : List UInt8) :
    accumulate c (xs ++ ys) = accumulate (accumulate c xs) ys := by
  simp [accumulate, List.foldl_append]

/-! ### The sums modulo 255 -/

/-- A sum of two bytes fits the 16 bits it is formed in. -/
theorem toNat_reduced (x y : UInt8) :
    ((x.toUInt16 + y.toUInt16) % 255).toUInt8.toNat = (x.toNat + y.toNat) % 255 := by
  have hx := x.toNat_lt
  have hy := y.toNat_lt
  simp
  omega

theorem toNat_complement (x y : UInt8) :
    (255 - (x.toUInt16 + y.toUInt16) % 255).toUInt8.toNat = 255 - (x.toNat + y.toNat) % 255 := by
  have hx := x.toNat_lt
  have hy := y.toNat_lt
  have hsum : ((x.toUInt16 + y.toUInt16) % 255).toNat = (x.toNat + y.toNat) % 255 := by
    simp
    omega
  have hle : (x.toUInt16 + y.toUInt16) % 255 ≤ 255 := by
    rw [UInt16.le_iff_toNat_le, hsum]
    have := Nat.mod_lt (x.toNat + y.toNat) (by decide : 0 < 255)
    simp
    omega
  rw [UInt16.toNat_toUInt8, UInt16.toNat_sub_of_le _ _ hle, hsum]
  simp
  omega

theorem toNat_sum1 (c : Sums) (byte : UInt8) :
    (accumulateByte c byte).sum1.toNat = (c.sum1.toNat + byte.toNat) % 255 :=
  toNat_reduced _ _

theorem toNat_sum2 (c : Sums) (byte : UInt8) :
    (accumulateByte c byte).sum2.toNat =
      (c.sum2.toNat + (accumulateByte c byte).sum1.toNat) % 255 :=
  toNat_reduced _ _

/-- Both sums are below 255. -/
def Reduced (c : Sums) : Prop :=
  c.sum1.toNat ≤ 254 ∧ c.sum2.toNat ≤ 254

theorem reduced_reset : Reduced reset :=
  ⟨by decide, by decide⟩

theorem reduced_accumulateByte (c : Sums) (byte : UInt8) : Reduced (accumulateByte c byte) := by
  rw [Reduced, toNat_sum1, toNat_sum2]
  have h1 := Nat.mod_lt (c.sum1.toNat + byte.toNat) (by decide : 0 < 255)
  have h2 := Nat.mod_lt (c.sum2.toNat + (accumulateByte c byte).sum1.toNat) (by decide : 0 < 255)
  omega

theorem reduced_accumulate {c : Sums} (h : Reduced c) (bytes : List UInt8) :
    Reduced (accumulate c bytes) := by
  induction bytes generalizing c with
  | nil => exact h
  | cons byte bytes ih => exact ih (reduced_accumulateByte c byte)

def total (bytes : List UInt8) : Nat :=
  (bytes.map UInt8.toNat).sum

theorem sum1_accumulate (c : Sums) (bytes : List UInt8) :
    (accumulate c bytes).sum1.toNat ≡ c.sum1.toNat + total bytes [MOD 255] := by
  induction bytes generalizing c with
  | nil => rfl
  | cons byte bytes ih =>
      have hstep : (accumulateByte c byte).sum1.toNat ≡ c.sum1.toNat + byte.toNat [MOD 255] := by
        rw [toNat_sum1]
        exact Nat.mod_modEq _ _
      calc (accumulate (accumulateByte c byte) bytes).sum1.toNat
          ≡ (accumulateByte c byte).sum1.toNat + total bytes [MOD 255] := ih _
        _ ≡ c.sum1.toNat + byte.toNat + total bytes [MOD 255] := hstep.add_right _
        _ = c.sum1.toNat + total (byte :: bytes) := Nat.add_assoc _ _ _

/-! ### The check bytes -/

theorem accumulate_finalize (c : Sums) : accumulate c (finalize c) = reset := by
  have hlo : (sumlo c).toNat = 255 - (c.sum1.toNat + c.sum2.toNat) % 255 := toNat_complement _ _
  have hhi : (sumhi c).toNat = 255 - (c.sum1.toNat + (sumlo c).toNat) % 255 :=
    toNat_complement _ _
  have hlo1 := toNat_sum1 c (sumlo c)
  have hlo2 := toNat_sum2 c (sumlo c)
  have hhi1 := toNat_sum1 (accumulateByte c (sumlo c)) (sumhi c)
  have hhi2 := toNat_sum2 (accumulateByte c (sumlo c)) (sumhi c)
  have hzero2 : (accumulateByte c (sumlo c)).sum2.toNat = 0 := by omega
  have hzero1 : (accumulateByte (accumulateByte c (sumlo c)) (sumhi c)).sum1.toNat = 0 := by
    rw [hhi1, hlo1, hhi]
    omega
  rw [hzero1, hzero2] at hhi2
  exact Sums.ext (UInt8.toNat.inj hzero1) (UInt8.toNat.inj hhi2)

/-- A message with the bytes of `finalize()` after it. -/
def frame (message : List UInt8) : List UInt8 :=
  message ++ finalize (accumulate reset message)

theorem accumulate_frame (message : List UInt8) : accumulate reset (frame message) = reset := by
  rw [frame, accumulate_append, accumulate_finalize]

theorem total_set {bytes : List UInt8} {i : Nat} {a : UInt8} (ha : bytes[i]? = some a)
    (b : UInt8) : total (bytes.set i b) + a.toNat = total bytes + b.toNat := by
  induction bytes generalizing i with
  | nil => simp at ha
  | cons byte bytes ih =>
      cases i with
      | zero =>
          have hbyte : byte = a := by simpa using ha
          simp only [List.set_cons_zero, total, List.map_cons, List.sum_cons, hbyte]
          omega
      | succ i =>
          have hrest := ih (i := i) (by simpa using ha)
          simp only [total] at hrest
          simp only [List.set_cons_succ, total, List.map_cons, List.sum_cons]
          omega

/-- A sum that is zero tells that a byte was replaced by one of another residue. -/
theorem isOkay_set {bytes : List UInt8} (hbytes : accumulate reset bytes = reset) {i : Nat}
    {a b : UInt8} (ha : bytes[i]? = some a) (hab : ¬ b.toNat ≡ a.toNat [MOD 255]) :
    isOkay (accumulate reset (bytes.set i b)) = false := by
  rw [Bool.eq_false_iff]
  intro hokay
  rw [isOkay, Bool.and_eq_true, beq_iff_eq, beq_iff_eq] at hokay
  have hsent : 0 ≡ total bytes [MOD 255] := by
    have h := sum1_accumulate reset bytes
    rw [hbytes] at h
    simpa [reset] using h
  have hreceived : 0 ≡ total (bytes.set i b) [MOD 255] := by
    have h := sum1_accumulate reset (bytes.set i b)
    rw [hokay.1] at h
    simpa [reset] using h
  apply hab
  have hset := total_set ha b
  rw [Nat.ModEq] at hsent hreceived ⊢
  omega

/-- A message with its check bytes passes, and does not after any byte of it was replaced
by one of another residue; the sums stay below 255 and each addition fits 16 bits. -/
theorem frame_okay_and_replaced (message : List UInt8) :
    isOkay (accumulate reset (frame message)) = true ∧
    (∀ (i : Nat) (a b : UInt8), (frame message)[i]? = some a →
      ¬ b.toNat ≡ a.toNat [MOD 255] →
      isOkay (accumulate reset ((frame message).set i b)) = false) ∧
    ∀ (bytes : List UInt8) (byte : UInt8), let c := accumulate reset bytes
      c.sum1.toNat ≤ 254 ∧ c.sum2.toNat ≤ 254 ∧
        c.sum1.toNat + byte.toNat < 2 ^ 16 ∧
        c.sum2.toNat + (accumulateByte c byte).sum1.toNat < 2 ^ 16 ∧
        c.sum1.toNat + c.sum2.toNat < 2 ^ 16 ∧
        c.sum1.toNat + (sumlo c).toNat < 2 ^ 16 := by
  refine ⟨?_, fun i a b => isOkay_set (accumulate_frame message), fun bytes byte => ?_⟩
  · rw [accumulate_frame]
    decide
  · have hreduced := reduced_accumulate reduced_reset bytes
    have hnext := reduced_accumulateByte (accumulate reset bytes) byte
    have hbyte := byte.toNat_lt
    have hlo := (sumlo (accumulate reset bytes)).toNat_lt
    rw [Reduced] at hreduced hnext
    refine ⟨hreduced.1, hreduced.2, ?_, ?_, ?_, ?_⟩ <;> omega

theorem frame_okay_and_replaced_first :
    isOkay (accumulate reset ((frame [1, 2, 3]).set 0 7)) = false :=
  (frame_okay_and_replaced [1, 2, 3]).2.1 0 1 7 rfl (by decide)

end ColonyPico.Checksum.Fletcher16
