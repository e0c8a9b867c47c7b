import Mathlib.Data.List.Basic
import Mathlib.Data.BitVec

/-!
Linear feedback shift registers: division of a bit string by a generator, most
significant bit first.
-/

namespace ColonyPico.Foundations.ShiftRegister

variable {w : Nat}

/-- One clock: the bit that leaves and the bit that enters decide on the feedback. -/
def clock (g s : BitVec w) (b : Bool) : BitVec w :=
  if s.msb ^^ b then (s <<< 1) ^^^ g else s <<< 1

def run (g s : BitVec w) (bits : List Bool) : BitVec w :=
  bits.foldl (clock g) s

def zeros (n : Nat) : List Bool :=
  List.replicate n false

/-- The `n` leading bits. -/
def leading (t : BitVec w) (n : Nat) : List Bool :=
  (List.range n).map t.getMsbD

/-- The bits of a string of octets, each most significant bit first. -/
def bitsOf (octets : List UInt8) : List Bool :=
  octets.flatMap fun octet => leading octet.toBitVec 8

@[simp] theorem run_nil (g s : BitVec w) : run g s [] = s := rfl

@[simp] theorem run_cons (g s : BitVec w) (b : Bool) (bits : List Bool) :
    run g s (b :: bits) = run g (clock g s b) bits := rfl

theorem run_append (g s : BitVec w) (xs ys : List Bool) :
    run g s (xs ++ ys) = run g (run g s xs) ys := by
  rw [run, List.foldl_append]
  rfl

@[simp] theorem length_leading (t : BitVec w) (n : Nat) : (leading t n).length = n := by
  simp [leading]

theorem leading_succ (t : BitVec w) (n : Nat) :
    leading t (n + 1) = t.msb :: leading (t <<< 1) n := by
  rw [leading, List.range_succ_eq_map, List.map_cons, List.map_map, BitVec.msb_eq_getMsbD_zero]
  congr 1
  apply List.map_congr_left
  intro i _
  rw [Function.comp, BitVec.getMsbD_shiftLeft]

theorem leading_add (t : BitVec w) (m n : Nat) :
    leading t (m + n) = leading t m ++ leading (t <<< m) n := by
  rw [leading, List.range_add, List.map_append, List.map_map]
  congr 1
  apply List.map_congr_left
  intro i _
  rw [Function.comp, BitVec.getMsbD_shiftLeft, Nat.add_comm m i]

theorem bitsOf_cons (octet : UInt8) (octets : List UInt8) :
    bitsOf (octet :: octets) = leading octet.toBitVec 8 ++ bitsOf octets := by
  rw [bitsOf, List.flatMap_cons]
  rfl

@[simp] theorem length_bitsOf (octets : List UInt8) :
    (bitsOf octets).length = 8 * octets.length := by
  induction octets with
  | nil => rfl
  | cons octet octets ih =>
      rw [bitsOf_cons, List.length_append, length_leading, ih, List.length_cons]
      omega

/-- The octet that ends `k` bits above the low end of the register. -/
theorem leading_octet (s : BitVec w) {k : Nat} (hk : k + 8 ≤ w) :
    leading ((s >>> k).setWidth 8) 8 = leading (s <<< (w - 8 - k)) 8 := by
  apply List.map_congr_left
  intro i hi
  have hi := List.mem_range.mp hi
  rw [BitVec.getMsbD_setWidth, BitVec.getMsbD_ushiftRight, BitVec.getMsbD_shiftLeft]
  have hplace : i + w - 8 - k = i + (w - 8 - k) := by omega
  have hlow : 8 ≤ i + w := by omega
  have hhigh : i + w - 8 < w := by omega
  have hrest : ¬ i + w - 8 < k := by omega
  simp [hplace, hlow, hhigh, hrest]

theorem leading_injective : Function.Injective (fun t : BitVec w => leading t w) := by
  intro s t h
  apply BitVec.eq_of_getMsbD_eq
  intro i hi
  have hbit := congrArg (·[i]?) h
  simpa [leading, hi] using hbit

theorem bitsOf_injective : Function.Injective bitsOf := by
  intro xs
  induction xs with
  | nil =>
      intro ys h
      have hlen := congrArg List.length h
      rw [length_bitsOf, length_bitsOf, List.length_nil] at hlen
      exact (List.length_eq_zero_iff.mp (by omega)).symm
  | cons x xs ih =>
      intro ys h
      cases ys with
      | nil =>
          have hlen := congrArg List.length h
          rw [length_bitsOf, length_bitsOf, List.length_nil, List.length_cons] at hlen
          omega
      | cons y ys =>
          rw [bitsOf_cons, bitsOf_cons] at h
          rcases List.append_inj h (by simp) with ⟨hoctet, hrest⟩
          rw [ih hrest, UInt8.toBitVec_inj.mp (leading_injective hoctet)]

/-- A register that takes an octet as the division takes its bits takes any string so. -/
theorem foldl_eq_run {σ : Type} {take : σ → UInt8 → σ} (held : σ → BitVec w) {g : BitVec w}
    (htake : ∀ c octet, held (take c octet) = run g (held c) (leading octet.toBitVec 8))
    (c : σ) (octets : List UInt8) :
    held (octets.foldl take c) = run g (held c) (bitsOf octets) := by
  induction octets generalizing c with
  | nil => rfl
  | cons octet octets ih =>
      rw [List.foldl_cons, ih, htake, ← run_append, bitsOf_cons]

theorem bitsOf_zipWith_xor (xs ys : List UInt8) (hlen : xs.length = ys.length) :
    bitsOf (List.zipWith (· ^^^ ·) xs ys) =
      List.zipWith (· ^^ ·) (bitsOf xs) (bitsOf ys) := by
  induction xs generalizing ys with
  | nil => rfl
  | cons x xs ih =>
      cases ys with
      | nil => simp at hlen
      | cons y ys =>
          have hoctet : leading (x ^^^ y).toBitVec 8 =
              List.zipWith (· ^^ ·) (leading x.toBitVec 8) (leading y.toBitVec 8) := by
            apply List.ext_getElem (by simp)
            intro i hi _
            simp [leading]
          rw [List.zipWith_cons_cons, bitsOf_cons, bitsOf_cons, bitsOf_cons,
            ih ys (Nat.succ.inj hlen), List.zipWith_append (by simp), hoctet]

section Linearity

variable (g : BitVec w)

theorem clock_xor (s t : BitVec w) (b c : Bool) :
    clock g (s ^^^ t) (b ^^ c) = clock g s b ^^^ clock g t c := by
  have hmsb : ((s ^^^ t).msb ^^ (b ^^ c)) = ((s.msb ^^ b) ^^ (t.msb ^^ c)) := by
    rw [BitVec.msb_xor]
    cases s.msb <;> cases t.msb <;> cases b <;> cases c <;> rfl
  rw [clock, clock, clock, hmsb, BitVec.shiftLeft_xor_distrib]
  cases s.msb ^^ b <;> cases t.msb ^^ c
  · rfl
  · show s <<< 1 ^^^ t <<< 1 ^^^ g = s <<< 1 ^^^ (t <<< 1 ^^^ g)
    rw [BitVec.xor_assoc]
  · show s <<< 1 ^^^ t <<< 1 ^^^ g = s <<< 1 ^^^ g ^^^ t <<< 1
    rw [BitVec.xor_assoc, BitVec.xor_comm (t <<< 1) g, ← BitVec.xor_assoc]
  · show s <<< 1 ^^^ t <<< 1 = s <<< 1 ^^^ g ^^^ (t <<< 1 ^^^ g)
    rw [BitVec.xor_comm (t <<< 1) g, BitVec.xor_assoc, ← BitVec.xor_assoc g g, BitVec.xor_self,
      BitVec.zero_xor]

/-- The division is linear in the register and in the bits together. -/
theorem run_xor (s t : BitVec w) (xs ys : List Bool) (hlen : xs.length = ys.length) :
    run g (s ^^^ t) (List.zipWith (· ^^ ·) xs ys) = run g s xs ^^^ run g t ys := by
  induction xs generalizing s t ys with
  | nil =>
      cases ys with
      | nil => rfl
      | cons y ys => simp at hlen
  | cons x xs ih =>
      cases ys with
      | nil => simp at hlen
      | cons y ys =>
          rw [List.zipWith_cons_cons, run_cons, clock_xor]
          exact ih _ _ ys (Nat.succ.inj hlen)

@[simp] theorem clock_zero : clock g 0#w false = 0#w := by
  simp [clock]

@[simp] theorem run_zeros (n : Nat) : run g 0#w (zeros n) = 0#w := by
  induction n with
  | zero => rfl
  | succ n ih =>
      rw [zeros, List.replicate_succ, run_cons, clock_zero]
      exact ih

/-- A register eats its own leading bits without any feedback. -/
theorem run_leading_self (t : BitVec w) (n : Nat) : run g t (leading t n) = t <<< n := by
  induction n generalizing t with
  | zero => simp [leading]
  | succ n ih =>
      have hclock : clock g t t.msb = t <<< 1 := by
        rw [clock, Bool.xor_self]
        rfl
      rw [leading_succ, run_cons, hclock, ih, ← BitVec.shiftLeft_add, Nat.add_comm 1 n]

/-- What a register makes of zeros and what its leading bits make of a cleared one. -/
theorem run_zeros_leading (t : BitVec w) (n : Nat) :
    run g t (zeros n) = run g 0#w (leading t n) ^^^ t <<< n := by
  have hself : List.zipWith (· ^^ ·) (leading t n) (leading t n) = zeros n := by
    apply List.ext_getElem (by simp [zeros])
    intro i hi _
    simp [zeros]
  rw [← run_leading_self g t n, ← run_xor g 0#w t _ _ rfl, hself, BitVec.zero_xor]

end Linearity

/-- A short word moved to the top of the register. -/
def atTop {n : Nat} (x : BitVec n) : BitVec w :=
  x.setWidth w <<< (w - n)

/-- The top of the register as a short word. -/
def top (n : Nat) (s : BitVec w) : BitVec n :=
  (s >>> (w - n)).setWidth n

theorem getMsbD_atTop {n : Nat} (hn : n ≤ w) (x : BitVec n) (i : Nat) :
    (atTop x : BitVec w).getMsbD i = x.getMsbD i := by
  rw [atTop, BitVec.getMsbD_shiftLeft, BitVec.getMsbD_setWidth]
  have hplace : i + (w - n) + n - w = i := by omega
  simp [hplace]

theorem getMsbD_top {n : Nat} (hn : n ≤ w) (s : BitVec w) {i : Nat} (hi : i < n) :
    (top n s).getMsbD i = s.getMsbD i := by
  rw [top, BitVec.getMsbD_setWidth, BitVec.getMsbD_ushiftRight]
  have hplace : i + w - n - (w - n) = i := by omega
  rw [hplace]
  have hlow : n ≤ i + w := by omega
  have hhigh : i + w - n < w := by omega
  have hrest : ¬ i + w - n < w - n := by omega
  simp [hlow, hhigh, hrest]

theorem leading_atTop {n : Nat} (hn : n ≤ w) (x : BitVec n) (m : Nat) :
    leading (atTop x : BitVec w) m = leading x m := by
  apply List.map_congr_left
  intro i _
  exact getMsbD_atTop hn x i

theorem atTop_shiftLeft {n : Nat} (hn : n ≤ w) (x : BitVec n) :
    (atTop x : BitVec w) <<< n = 0#w := by
  rw [atTop, ← BitVec.shiftLeft_add]
  exact BitVec.shiftLeft_eq_zero (by omega)

/-- Shifting in a short word: look up the sum of it and of the top of the register,
shift the rest. -/
theorem run_leading {n : Nat} (hn : n ≤ w) (g s : BitVec w) (x : BitVec n) :
    run g s (leading x n) = run g (atTop (x ^^^ top n s)) (zeros n) ^^^ s <<< n := by
  have hsplit : s = s ^^^ atTop (x ^^^ top n s) ^^^ atTop (x ^^^ top n s) := by
    rw [BitVec.xor_assoc, BitVec.xor_self, BitVec.xor_zero]
  have hleading : leading (s ^^^ atTop (x ^^^ top n s)) n = leading x n := by
    apply List.map_congr_left
    intro i hi
    rw [BitVec.getMsbD_xor, getMsbD_atTop hn, BitVec.getMsbD_xor,
      getMsbD_top hn s (List.mem_range.mp hi)]
    cases x.getMsbD i <;> cases s.getMsbD i <;> rfl
  have hbits : leading x n = List.zipWith (· ^^ ·) (leading x n) (zeros n) := by
    apply List.ext_getElem (by simp [zeros])
    intro i _ _
    simp [zeros]
  have hshift : (s ^^^ atTop (x ^^^ top n s)) <<< n = s <<< n := by
    rw [BitVec.shiftLeft_xor_distrib, atTop_shiftLeft hn, BitVec.xor_zero]
  calc run g s (leading x n)
      = run g (s ^^^ atTop (x ^^^ top n s) ^^^ atTop (x ^^^ top n s))
          (List.zipWith (· ^^ ·) (leading x n) (zeros n)) := by rw [← hsplit, ← hbits]
    _ = run g (s ^^^ atTop (x ^^^ top n s)) (leading x n)
          ^^^ run g (atTop (x ^^^ top n s)) (zeros n) := run_xor g _ _ _ _ (by simp [zeros])
    _ = s <<< n ^^^ run g (atTop (x ^^^ top n s)) (zeros n) := by
        rw [← hleading, run_leading_self, hshift]
    _ = run g (atTop (x ^^^ top n s)) (zeros n) ^^^ s <<< n := BitVec.xor_comm _ _

section Detection

variable {g : BitVec w} (hg : g.getLsbD 0 = true)

include hg

theorem clock_eq_zero {s : BitVec w} (h : clock g s false = 0#w) : s = 0#w := by
  rw [clock, Bool.xor_false] at h
  cases hmsb : s.msb with
  | true =>
      rw [hmsb, if_pos rfl] at h
      have hlow := congrArg (BitVec.getLsbD · 0) h
      simp [hg] at hlow
  | false =>
      rw [hmsb, if_neg (by decide)] at h
      apply BitVec.eq_of_getMsbD_eq
      intro i _
      cases i with
      | zero => rw [← BitVec.msb_eq_getMsbD_zero, hmsb]; simp
      | succ i =>
          have hbit := congrArg (BitVec.getMsbD · i) h
          simpa using hbit

theorem run_zeros_eq_zero {s : BitVec w} (n : Nat) (h : run g s (zeros n) = 0#w) :
    s = 0#w := by
  induction n generalizing s with
  | zero => exact h
  | succ n ih => exact clock_eq_zero hg (ih h)

/-- A cleared register tells every string of at most its own length from zeros. -/
theorem eq_zeros_of_run {bits : List Bool} (hlen : bits.length ≤ w) (h : run g 0#w bits = 0#w) :
    bits = zeros bits.length := by
  have hbits : leading (atTop (BitVec.ofBoolListBE bits) : BitVec w) bits.length = bits := by
    rw [leading_atTop hlen]
    apply List.ext_getElem (by simp)
    intro i _ hi
    simp [leading, BitVec.getMsbD_ofBoolListBE, hi]
  have hzero : (atTop (BitVec.ofBoolListBE bits) : BitVec w) = 0#w := by
    apply run_zeros_eq_zero hg bits.length
    rw [run_zeros_leading, hbits, h, atTop_shiftLeft hlen, BitVec.xor_zero]
  rw [hzero] at hbits
  rw [← hbits]
  apply List.ext_getElem (by simp [zeros])
  intro i _ _
  simp [zeros, leading]

/-- A word as long as the register clears it only if it is what the register holds. -/
theorem run_eq_zero_iff (s : BitVec w) {bits : List Bool} (hlen : bits.length = w) :
    run g s bits = 0#w ↔ bits = leading s w := by
  constructor
  · intro h
    have hself : run g s (leading s w) = 0#w := by
      rw [run_leading_self, BitVec.shiftLeft_eq_zero (Nat.le_refl w)]
    have hdiff : run g 0#w (List.zipWith (· ^^ ·) bits (leading s w)) = 0#w := by
      have hxor := run_xor g s s bits (leading s w) (by simp [hlen])
      rwa [BitVec.xor_self, h, hself, BitVec.xor_self] at hxor
    have hzeros := eq_zeros_of_run hg (by simp [hlen]) hdiff
    apply List.ext_getElem (by simp [hlen])
    intro i hi hi'
    have hbit := congrArg (·[i]?) hzeros
    simpa [zeros, hi, hi', hlen ▸ hi] using hbit
  · intro h
    rw [h, run_leading_self, BitVec.shiftLeft_eq_zero (Nat.le_refl w)]

/-- The error bits lie in a window of `n` bits and are not all zero. -/
def Burst (n : Nat) (error : List Bool) : Prop :=
  ∃ (before after : Nat) (burst : List Bool),
    error = zeros before ++ burst ++ zeros after ∧ burst.length ≤ n ∧ true ∈ burst

theorem run_burst {error : List Bool} (h : Burst w error) : run g 0#w error ≠ 0#w := by
  rcases h with ⟨before, after, burst, rfl, hlen, htrue⟩
  intro hrun
  rw [run_append, run_append, run_zeros] at hrun
  have hzeros := eq_zeros_of_run hg hlen (run_zeros_eq_zero hg after hrun)
  rw [hzeros] at htrue
  simp [zeros] at htrue

/-- A string that clears the register does not clear it after a burst of errors. -/
theorem run_zipWith_burst (s : BitVec w) {bits error : List Bool}
    (hlen : error.length = bits.length) (hbits : run g s bits = 0#w) (h : Burst w error) :
    run g s (List.zipWith (· ^^ ·) bits error) ≠ 0#w := by
  have hxor := run_xor g s 0#w bits error hlen.symm
  rw [BitVec.xor_zero, hbits, BitVec.zero_xor] at hxor
  rw [hxor]
  exact run_burst hg h

end Detection

end ColonyPico.Foundations.ShiftRegister
