import Mathlib.Data.List.Basic

/-!
Functions that chain over the blocks of a message, and the buffer in which a message that comes in
parts waits for its next whole block.
-/

namespace ColonyPico.Foundations.BlockChaining

variable {σ β : Type*} (process : σ → List β → σ) (size : Nat)

/-- The state behind the first blocks of a message. -/
def chain : Nat → σ → List β → σ
  | 0, state, _ => state
  | blocks + 1, state, message =>
      chain blocks (process state (message.take size)) (message.drop size)

/-- The whole blocks of the message have been processed, the rest waits. -/
structure Buffered (first : σ) (message : List β) (state : σ) (rest : List β) : Prop where
  split : ∃ whole blocks, message = whole ++ rest ∧ whole.length = blocks * size ∧
    state = chain process size blocks first whole
  short : rest.length < size

variable {process size} {first state : σ} {message rest : List β}

theorem chain_append {blocks : Nat} {whole : List β} (hwhole : whole.length = blocks * size)
    (n : Nat) (state : σ) (message : List β) :
    chain process size (blocks + n) state (whole ++ message) =
      chain process size n (chain process size blocks state whole) message := by
  induction blocks generalizing whole state with
  | zero =>
      rw [Nat.zero_mul, List.length_eq_zero_iff] at hwhole
      subst hwhole
      rw [Nat.zero_add]
      rfl
  | succ blocks ih =>
      rw [Nat.succ_mul] at hwhole
      have hle : size ≤ whole.length := by omega
      rw [Nat.succ_add, chain, chain, List.take_append_of_le_length hle,
        List.drop_append_of_le_length hle, ih (by rw [List.length_drop]; omega)]

theorem chain_append_block {blocks : Nat} {whole block : List β}
    (hwhole : whole.length = blocks * size) (hblock : block.length = size) :
    chain process size (blocks + 1) first (whole ++ block) =
      process (chain process size blocks first whole) block := by
  rw [chain_append hwhole, chain, chain, List.take_of_length_le (Nat.le_of_eq hblock)]

theorem Buffered.nil (hsize : 0 < size) : Buffered process size first [] first [] :=
  ⟨⟨[], 0, rfl, (Nat.zero_mul size).symm, rfl⟩, hsize⟩

/-- Symbols that do not fill the block wait. -/
theorem Buffered.wait (h : Buffered process size first message state rest) (more : List β)
    (hshort : (rest ++ more).length < size) :
    Buffered process size first (message ++ more) state (rest ++ more) := by
  obtain ⟨whole, blocks, rfl, hwhole, hstate⟩ := h.split
  exact ⟨⟨whole, blocks, List.append_assoc _ _ _, hwhole, hstate⟩, hshort⟩

/-- Symbols that fill the block have it processed. -/
theorem Buffered.fill (h : Buffered process size first message state rest) (more : List β)
    (hfull : (rest ++ more).length = size) :
    Buffered process size first (message ++ more) (process state (rest ++ more)) [] := by
  obtain ⟨whole, blocks, rfl, hwhole, rfl⟩ := h.split
  refine ⟨⟨whole ++ (rest ++ more), blocks + 1, ?_, ?_, ?_⟩, Nat.zero_lt_of_lt h.short⟩
  · rw [List.append_nil, List.append_assoc]
  · rw [List.length_append, hwhole, hfull, Nat.succ_mul]
  · rw [chain_append_block hwhole hfull]

theorem Buffered.length_rest (h : Buffered process size first message state rest) :
    rest.length = message.length % size := by
  obtain ⟨whole, blocks, rfl, hwhole, -⟩ := h.split
  rw [List.length_append, hwhole, Nat.mul_comm, Nat.mul_add_mod, Nat.mod_eq_of_lt h.short]

/-- A message of whole blocks leaves nothing that waits. -/
theorem Buffered.whole (h : Buffered process size first message state rest)
    (hwhole : message.length % size = 0) :
    rest = [] ∧ state = chain process size (message.length / size) first message := by
  have hrest : rest = [] := List.length_eq_zero_iff.mp (h.length_rest.trans hwhole)
  subst hrest
  obtain ⟨whole, blocks, rfl, hlength, rfl⟩ := h.split
  rw [List.append_nil, hlength, Nat.mul_div_cancel _ h.short]
  exact ⟨rfl, rfl⟩

end ColonyPico.Foundations.BlockChaining
