import Mathlib.Data.List.Nodup
import Mathlib.Data.List.Range
import Mathlib.Data.Option.Basic

/-!
Accounts of resources: what was obtained, what was handed back, and what is still owned.
-/

namespace ColonyPico.Foundations.ResourceLedger

/-- Resources have numbers in the order in which they were obtained; none is a null pointer. -/
structure Ledger where
  obtained : Nat
  handed : List (Option Nat)
  deriving DecidableEq

namespace Ledger

def empty : Ledger :=
  ⟨0, []⟩

/-- The next resource; its number is the count before. -/
def acquire (l : Ledger) : Ledger :=
  { l with obtained := l.obtained + 1 }

def hand (l : Ledger) (r : Option Nat) : Ledger :=
  { l with handed := l.handed ++ [r] }

/-- Only what was obtained is handed back, and nothing twice. -/
structure Sound (l : Ledger) : Prop where
  nodup : l.handed.Nodup
  obtained : ∀ r ∈ l.handed, ∃ n < l.obtained, r = some n

/-- Everything is handed back, once. -/
def Settled (l : Ledger) : Prop :=
  l.handed.Perm ((List.range l.obtained).map some)

/-- What is not handed back is owned. -/
def Balanced (l : Ledger) (owned : List Nat) : Prop :=
  (l.handed ++ owned.map some).Perm ((List.range l.obtained).map some)

theorem balanced_nil {l : Ledger} : l.Balanced [] ↔ l.Settled := by
  rw [Balanced, List.map_nil, List.append_nil, Settled]

variable {l : Ledger} {owned : List Nat} {n : Nat}

theorem Balanced.acquire (h : l.Balanced owned) : l.acquire.Balanced (l.obtained :: owned) := by
  show (l.handed ++ some l.obtained :: owned.map some).Perm
    ((List.range (l.obtained + 1)).map some)
  rw [List.range_succ, List.map_append, List.map_singleton]
  exact List.perm_middle.trans ((h.cons _).trans (List.perm_append_singleton _ _).symm)

theorem Balanced.hand (h : l.Balanced (n :: owned)) : (l.hand (some n)).Balanced owned := by
  show ((l.handed ++ [some n]) ++ owned.map some).Perm _
  rw [List.append_assoc]
  exact h

theorem Balanced.perm {owned' : List Nat} (h : l.Balanced owned) (hperm : owned.Perm owned') :
    l.Balanced owned' :=
  ((hperm.map some).append_left l.handed).symm.trans h

theorem Balanced.sound (h : l.Balanced owned) : l.Sound := by
  constructor
  · have hnodup : ((List.range l.obtained).map some).Nodup :=
      List.nodup_range.map (Option.some_injective Nat)
    exact (h.nodup_iff.mpr hnodup).of_append_left
  · intro r hr
    obtain ⟨n, hn, rfl⟩ := List.mem_map.mp (h.mem_iff.mp (List.mem_append_left _ hr))
    exact ⟨n, List.mem_range.mp hn, rfl⟩

end Ledger

end ColonyPico.Foundations.ResourceLedger
