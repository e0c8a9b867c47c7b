import Mathlib.Logic.Function.Basic
import ColonyPico.Persistent.RegionAdapters

/-!
Regions kept in files (`Cpl::Persistent::FileAdapter`), compared with regions on a driver.
-/

namespace ColonyPico.Persistent.FileRegions

open ColonyPico.Driver.GangedStorage (Call driverLoad driverStore)
open ColonyPico.Foundations.ByteStore
open ColonyPico.Foundations.StoreRegions
open ColonyPico.Persistent.RegionAdapters

variable {ι ν : Type*} [DecidableEq ι] [DecidableEq ν]

/-- The call on a byte array of its own. -/
def ownPerform (store : List UInt8) : Call → Result × List UInt8
  | .read srcOffset n => (.read ((driverLoad store srcOffset n).getD []), store)
  | .write dstOffset src =>
      (.wrote (driverStore store dstOffset src).isSome,
        (driverStore store dstOffset src).getD store)

/-- What a list of calls returns. -/
def results {σ : Type*} (perform : σ → ι → Call → Result × σ) : σ → List (ι × Call) → List Result
  | _, [] => []
  | s, (i, call) :: calls =>
      (perform s i call).1 :: results perform (perform s i call).2 calls

/-- Each region a byte array of its own. -/
def apart (stores : ι → List UInt8) (i : ι) (call : Call) : Result × (ι → List UInt8) :=
  let done := ownPerform (stores i) call
  (done.1, Function.update stores i done.2)

/-- A store holds a byte array in a range. -/
def Represents (r : Region) (store own : List UInt8) : Prop :=
  r.stop ≤ store.length ∧ r.content store = own

section Ranges

variable {r : Region} {store own : List UInt8} (h : Represents r store own)
include h

theorem Represents.read {offset n : Nat} (hin : offset + n ≤ r.length) :
    slice store (r.start + offset) n = slice own offset n := by
  rw [← h.2, slice_content hin]

theorem Represents.write {offset : Nat} {src : List UInt8} (hin : offset + src.length ≤ r.length) :
    Represents r (overwrite store (r.start + offset) src) (overwrite own offset src) := by
  have hstop := h.1
  have hfit : r.start + offset + src.length ≤ store.length := by
    rw [Region.stop] at hstop
    omega
  refine ⟨by rw [length_overwrite _ _ _ hfit]; exact hstop, ?_⟩
  rw [content_overwrite hstop hin, h.2]

end Ranges

section Files

variable {content own : List UInt8} {len : Nat}

end Files

section Runs

variable {w offMax : Nat} {driver : Driver} {regions : ι → Region} {names : ι → ν}

end Runs

end ColonyPico.Persistent.FileRegions
