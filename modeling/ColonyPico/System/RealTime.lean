import Mathlib.Algebra.Group.Nat.Defs
import ColonyPico.System.ElapsedTime

/-!
The elapsed time in real time (`ElapsedTime2.cpp`), with an `unsigned long` of 32 bits.
-/

namespace ColonyPico.System.RealTime

open ColonyPico.System.ElapsedTime

structure Accumulators where
  elapsedMsec : UInt32
  elapsedSec : UInt32
  lastMsec : UInt32
  sumDeltaMs : UInt32

/-- `notify()` of the start-up hook. -/
def startup (newTime : UInt32) : Accumulators :=
  { elapsedMsec := 0
    elapsedSec := 0
    lastMsec := newTime
    sumDeltaMs := 0 }

/-- `while ( sumDeltaMs_ >= 1000L )`. -/
def carrySeconds (sec sum : UInt32) : UInt32 × UInt32 :=
  if 1000 ≤ sum then carrySeconds (sec + 1) (sum - 1000) else (sec, sum)
  termination_by sum.toNat
  decreasing_by
    rename_i h
    rw [UInt32.toNat_sub_of_le _ _ h]
    rw [UInt32.le_iff_toNat_le] at h
    simp at h ⊢
    omega

/-- `millisecondsInRealTime()`, when the platform's clock shows `newTime`. -/
def millisecondsInRealTime (a : Accumulators) (newTime : UInt32) : Accumulators × UInt32 :=
  let delta := newTime - a.lastMsec
  let elapsedMsec := a.elapsedMsec + delta
  let (elapsedSec, sumDeltaMs) := carrySeconds a.elapsedSec (a.sumDeltaMs + delta)
  ({ elapsedMsec := elapsedMsec
     elapsedSec := elapsedSec
     lastMsec := newTime
     sumDeltaMs := sumDeltaMs }, elapsedMsec)

def secondsInRealTime (a : Accumulators) (newTime : UInt32) : Accumulators × UInt32 :=
  let (a, _) := millisecondsInRealTime a newTime
  (a, a.elapsedMsec / 1000)

def precisionInRealTime (a : Accumulators) (newTime : UInt32) : Accumulators × Precision :=
  let (a, _) := millisecondsInRealTime a newTime
  (a, { seconds := a.elapsedSec.toNat, thousandths := (a.elapsedMsec % 1000).toNat % 2 ^ 16 })

/-- What the three functions return when the clock shows `newTime` denotes `elapsed`
milliseconds, with counts that roll over. -/
structure Denotes (a : Accumulators) (newTime : UInt32) (elapsed : Nat) : Prop where
  milliseconds : (millisecondsInRealTime a newTime).2.toNat = elapsed % 2 ^ 32
  seconds : (secondsInRealTime a newTime).2.toNat = elapsed / 1000 % 2 ^ 32
  precision : (precisionInRealTime a newTime).2 =
    { seconds := elapsed / 1000 % 2 ^ 32, thousandths := elapsed % 1000 }

/-- At every reading of a clock that was at `start` when the application started, the three
functions agree on the elapsed time, and the precision time is not less than `before`. -/
def Synchronized (start : Nat) : Precision → Accumulators → List Nat → Prop
  | _, _, [] => True
  | before, a, clock :: clocks =>
      let now := (precisionInRealTime a (milliseconds clock)).2
      Denotes a (milliseconds clock) (clock - start) ∧ before.asFlatTime ≤ now.asFlatTime ∧
        Synchronized start now (millisecondsInRealTime a (milliseconds clock)).1 clocks

/-- The clock does not go back, and is read before it has rolled over. -/
def Readings : Nat → List Nat → Prop
  | _, [] => True
  | last, clock :: clocks => last ≤ clock ∧ clock - last < 2 ^ 32 ∧ Readings clock clocks

theorem carrySeconds_spec (sec sum : UInt32) :
    (carrySeconds sec sum).1.toNat = (sec.toNat + sum.toNat / 1000) % 2 ^ 32 ∧
      (carrySeconds sec sum).2.toNat = sum.toNat % 1000 := by
  induction sec, sum using carrySeconds.induct with
  | case1 sec sum hle ih =>
      have hsub : (sum - 1000).toNat = sum.toNat - 1000 := UInt32.toNat_sub_of_le _ _ hle
      have hsum : 1000 ≤ sum.toNat := UInt32.le_iff_toNat_le.mp hle
      have hsec : (sec + 1).toNat = (sec.toNat + 1) % 2 ^ 32 := UInt32.toNat_add _ _
      rw [carrySeconds, if_pos hle]
      rw [hsub, hsec] at ih
      obtain ⟨ih₁, ih₂⟩ := ih
      constructor
      · rw [ih₁]
        omega
      · rw [ih₂]
        omega
  | case2 sec sum hlt =>
      have hsum : sum.toNat < 1000 := UInt32.lt_iff_toNat_lt.mp (UInt32.not_le.mp hlt)
      have hsec := sec.toNat_lt
      rw [carrySeconds, if_neg hlt]
      constructor
      · simp only
        omega
      · exact (Nat.mod_eq_of_lt hsum).symm

/-- No count has rolled over since the application started. -/
structure Aligned (start last : Nat) (a : Accumulators) : Prop where
  le : start ≤ last
  lt : last - start < 2 ^ 32
  elapsedMsec : a.elapsedMsec.toNat = last - start
  elapsedSec : a.elapsedSec.toNat = (last - start) / 1000
  lastMsec : a.lastMsec = milliseconds last
  sumDeltaMs : a.sumDeltaMs.toNat = (last - start) % 1000

theorem aligned_startup (start : Nat) : Aligned start start (startup (milliseconds start)) := by
  constructor <;> simp [startup]

variable {start last clock : Nat} {a : Accumulators}

theorem Aligned.delta (h : Aligned start last a) (hle : last ≤ clock)
    (hgap : clock - last < 2 ^ 32) : (milliseconds clock - a.lastMsec).toNat = clock - last := by
  rw [h.lastMsec]
  exact toNat_deltaMilliseconds last clock hle hgap

theorem Aligned.elapsedMsec_next (h : Aligned start last a) (hle : last ≤ clock)
    (hgap : clock - last < 2 ^ 32) :
    (millisecondsInRealTime a (milliseconds clock)).1.elapsedMsec.toNat =
      (clock - start) % 2 ^ 32 := by
  have hstart := h.le
  have hsum : (clock - start) = (last - start) + (clock - last) := by omega
  rw [hsum, ← h.elapsedMsec, ← h.delta hle hgap]
  exact UInt32.toNat_add _ _

/-- A reading before the count of milliseconds rolls over. -/
theorem Aligned.next (h : Aligned start last a) (hle : last ≤ clock)
    (hlt : clock - start < 2 ^ 32) :
    Aligned start clock (millisecondsInRealTime a (milliseconds clock)).1 := by
  have hstart := h.le
  have hgap : clock - last < 2 ^ 32 := by omega
  have hsum : (a.sumDeltaMs + (milliseconds clock - a.lastMsec)).toNat =
      (last - start) % 1000 + (clock - last) := by
    rw [UInt32.toNat_add, h.sumDeltaMs, h.delta hle hgap]
    omega
  obtain ⟨hsec, hrest⟩ :=
    carrySeconds_spec a.elapsedSec (a.sumDeltaMs + (milliseconds clock - a.lastMsec))
  rw [hsum, h.elapsedSec] at hsec
  rw [hsum] at hrest
  refine ⟨by omega, hlt, ?_, ?_, rfl, ?_⟩
  · rw [h.elapsedMsec_next hle hgap]
    omega
  · refine hsec.trans ?_
    omega
  · refine hrest.trans ?_
    omega

theorem Aligned.denotes (h : Aligned start last a) (hle : last ≤ clock)
    (hlt : clock - start < 2 ^ 32) : Denotes a (milliseconds clock) (clock - start) := by
  have hnext := h.next hle hlt
  have hmsec := hnext.elapsedMsec
  have hsec := hnext.elapsedSec
  have hseconds : (clock - start) / 1000 = (clock - start) / 1000 % 2 ^ 32 := by omega
  constructor
  · exact hmsec.trans (Nat.mod_eq_of_lt hlt).symm
  · rw [← hseconds, ← hmsec]
    exact UInt32.toNat_div _ _
  · rw [← hseconds, ← hsec, ← hmsec]
    simp only [precisionInRealTime, UInt32.toNat_mod]
    congr 1
    exact Nat.mod_eq_of_lt (by change _ % 1000 < _; omega)

/-- The first reading after the count of milliseconds has rolled over. -/
theorem Aligned.not_denotes (h : Aligned start last a) (hle : last ≤ clock)
    (hgap : clock - last < 2 ^ 32) (hge : 2 ^ 32 ≤ clock - start) :
    ¬Denotes a (milliseconds clock) (clock - start) := by
  intro hdenotes
  have hlt := h.lt
  have hstart := h.le
  have hseconds := hdenotes.seconds
  have hmsec := h.elapsedMsec_next hle hgap
  have hdiv : (secondsInRealTime a (milliseconds clock)).2.toNat =
      (millisecondsInRealTime a (milliseconds clock)).1.elapsedMsec.toNat / 1000 :=
    UInt32.toNat_div _ _
  rw [hdiv, hmsec] at hseconds
  omega

theorem synchronized_of_aligned {before : Precision} {clocks : List Nat}
    (h : Aligned start last a) (hbefore : before.asFlatTime = last - start)
    (hreadings : Readings last clocks) :
    Synchronized start before a clocks ↔ ∀ clock ∈ clocks, clock - start < 2 ^ 32 := by
  induction clocks generalizing last a before with
  | nil => simp [Synchronized]
  | cons clock clocks ih =>
      obtain ⟨hle, hgap, hreadings⟩ := hreadings
      have hstart := h.le
      rw [List.forall_mem_cons]
      by_cases hlt : clock - start < 2 ^ 32
      · have hdenotes := h.denotes hle hlt
        have hflat : (precisionInRealTime a (milliseconds clock)).2.asFlatTime =
            clock - start := by
          rw [hdenotes.precision, Precision.asFlatTime]
          simp only
          omega
        have hmono : before.asFlatTime ≤
            (precisionInRealTime a (milliseconds clock)).2.asFlatTime := by
          rw [hflat, hbefore]
          omega
        rw [← ih (h.next hle hlt) hflat hreadings]
        constructor
        · rintro ⟨-, -, hrest⟩
          exact ⟨hlt, hrest⟩
        · rintro ⟨-, hrest⟩
          exact ⟨hdenotes, hmono, hrest⟩
      · constructor
        · rintro ⟨hdenotes, -⟩
          exact absurd hdenotes (h.not_denotes hle hgap (by omega))
        · rintro ⟨hlt', -⟩
          exact absurd hlt' hlt

/-- The three formats are synchronized up to the first roll over, and only so long. -/
theorem synchronized_iff (start : Nat) (clocks : List Nat) (hreadings : Readings start clocks) :
    Synchronized start ⟨0, 0⟩ (startup (milliseconds start)) clocks ↔
      ∀ clock ∈ clocks, clock - start < 2 ^ 32 :=
  synchronized_of_aligned (aligned_startup start) (by simp [Precision.asFlatTime]) hreadings

theorem synchronized_iff_two_readings :
    Readings 7 [1000, 5000000] ∧
      Synchronized 7 ⟨0, 0⟩ (startup (milliseconds 7)) [1000, 5000000] := by
  have hreadings : Readings 7 [1000, 5000000] := by simp [Readings]
  exact ⟨hreadings, (synchronized_iff 7 _ hreadings).mpr (by simp)⟩

/-- One millisecond before the roll over the precision time is 4294967.295 s, and then
4294967.000 s. -/
theorem not_synchronized_rollover : ¬∀ (start : Nat) (clocks : List Nat), Readings start clocks →
    Synchronized start ⟨0, 0⟩ (startup (milliseconds start)) clocks := by
  intro hall
  have hreadings : Readings 0 [2 ^ 32 - 1, 2 ^ 32] := by simp [Readings]
  have haligned : Aligned 0 (2 ^ 32 - 1)
      (millisecondsInRealTime (startup (milliseconds 0)) (milliseconds (2 ^ 32 - 1))).1 :=
    (aligned_startup 0).next (by omega) (by omega)
  obtain ⟨-, -, hdenotes, -⟩ := hall 0 _ hreadings
  exact haligned.not_denotes (by omega) (by omega) (by omega) hdenotes

end ColonyPico.System.RealTime
