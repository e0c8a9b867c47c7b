import Mathlib.Data.List.DropRight
import Mathlib.Data.List.TakeWhile

/-!
Zero-terminated texts in storage of a fixed size.  Every write is checked against the size of the
storage: a write that does not fit has no result.
-/

namespace ColonyPico.Foundations.TerminatedText

variable {α : Type} [OfNat α 0]

def text [DecidableEq α] (cells : List α) : List α :=
  cells.takeWhile (fun c => c ≠ 0)

def strlen [DecidableEq α] (cells : List α) : Nat :=
  (text cells).length

def poke (cells : List α) (i : Nat) (c : α) : Option (List α) :=
  if i < cells.length then some (cells.set i c) else none

/-- Block copy into the storage; the block is read before anything is written. -/
def write (cells : List α) (off : Nat) (block : List α) : Option (List α) :=
  if off + block.length ≤ cells.length then
    some (cells.take off ++ (block ++ cells.drop (off + block.length)))
  else none

/-- The cells start with the text and its terminator. -/
structure Holds (cells t : List α) : Prop where
  nonzero : (0 : α) ∉ t
  split : ∃ junk, cells = t ++ 0 :: junk

theorem Holds.length_lt {cells t : List α} (h : Holds cells t) : t.length < cells.length := by
  obtain ⟨junk, rfl⟩ := h.split
  simp

theorem Holds.text_eq [DecidableEq α] {cells t : List α} (h : Holds cells t) :
    text cells = t := by
  obtain ⟨junk, rfl⟩ := h.split
  have hall : ∀ c ∈ t, decide (c ≠ 0) = true := by
    intro c hc
    have hne : c ≠ 0 := fun h0 => h.nonzero (h0 ▸ hc)
    simpa using hne
  rw [text, List.takeWhile_append_of_pos hall]
  simp

theorem Holds.mem {cells t : List α} (h : Holds cells t) : (0 : α) ∈ cells := by
  obtain ⟨junk, rfl⟩ := h.split
  simp

section Text

variable [DecidableEq α]

theorem zero_notMem_text (cells : List α) : (0 : α) ∉ text cells := by
  intro hmem
  have hne := List.mem_takeWhile_imp hmem
  simp at hne

theorem text_eq_self {cells : List α} (h : (0 : α) ∉ cells) : text cells = cells := by
  rw [text, List.takeWhile_eq_self_iff]
  intro c hc
  have hne : c ≠ 0 := fun h0 => h (h0 ▸ hc)
  exact decide_eq_true hne

theorem text_cons {c : α} (hc : c ≠ 0) (cells : List α) : text (c :: cells) = c :: text cells := by
  simp [text, hc]

theorem holds_text {cells : List α} (h : (0 : α) ∈ cells) : Holds cells (text cells) := by
  refine ⟨zero_notMem_text cells, ?_⟩
  induction cells with
  | nil => cases h
  | cons c cells ih =>
      rcases eq_or_ne c 0 with rfl | hc
      · exact ⟨cells, by simp [text]⟩
      · obtain ⟨junk, hjunk⟩ := ih (List.mem_of_ne_of_mem hc.symm h)
        refine ⟨junk, ?_⟩
        rw [text_cons hc, List.cons_append]
        exact congrArg _ hjunk

theorem text_append_of_mem {cells : List α} (h : (0 : α) ∈ cells) (more : List α) :
    text (cells ++ more) = text cells := by
  obtain ⟨hfree, junk, hjunk⟩ := holds_text h
  refine Holds.text_eq ⟨hfree, junk ++ more, ?_⟩
  conv_lhs => rw [hjunk]
  rw [List.append_assoc, List.cons_append]

theorem text_append_zero (cells more : List α) : text (cells ++ 0 :: more) = text cells := by
  rcases Classical.em ((0 : α) ∈ cells) with hmem | hfree
  · exact text_append_of_mem hmem _
  · rw [text_eq_self hfree]
    exact Holds.text_eq ⟨hfree, more, rfl⟩

theorem text_append_singleton {cells : List α} {c : α} (h : (0 : α) ∈ cells ++ [c]) :
    text (cells ++ [c]) = text cells := by
  rcases Classical.em ((0 : α) ∈ cells) with hmem | hfree
  · exact text_append_of_mem hmem [c]
  · obtain rfl : 0 = c := by simpa [hfree] using h
    exact text_append_zero cells []

theorem text_take (cells : List α) (n : Nat) : text (cells.take n) = (text cells).take n := by
  induction cells generalizing n with
  | nil => simp [text]
  | cons c cells ih =>
      cases n with
      | zero => simp [text]
      | succ n =>
          rcases eq_or_ne c 0 with rfl | hc
          · simp [text]
          · rw [List.take_succ_cons, text_cons hc, text_cons hc, List.take_succ_cons, ih]

end Text

theorem Holds.strlen_eq [DecidableEq α] {cells t : List α} (h : Holds cells t) :
    strlen cells = t.length := by
  rw [strlen, h.text_eq]

theorem Holds.getElem?_eq {cells t : List α} (h : Holds cells t) {i : Nat} (hi : i < t.length) :
    cells[i]? = t[i]? := by
  obtain ⟨junk, rfl⟩ := h.split
  exact List.getElem?_append_left hi

section Writes

omit [OfNat α 0]

theorem length_of_write {cells cells' block : List α} {off : Nat}
    (h : write cells off block = some cells') : cells'.length = cells.length := by
  unfold write at h
  split at h
  case isTrue hfits =>
    rw [← Option.some.inj h]
    simp only [List.length_append, List.length_take, List.length_drop]
    omega
  case isFalse => cases h

/-- A write replaces exactly the block it covers. -/
theorem write_append {a b c block : List α} {off : Nat} (hoff : a.length = off)
    (hlen : b.length = block.length) :
    write (a ++ (b ++ c)) off block = some (a ++ (block ++ c)) := by
  subst hoff
  have hfits : a.length + block.length ≤ (a ++ (b ++ c)).length := by
    simp only [List.length_append]
    omega
  have hdrop : (a ++ (b ++ c)).drop (a.length + block.length) = c := by
    rw [← List.drop_drop, List.drop_left, ← hlen, List.drop_left]
  rw [write, if_pos hfits, List.take_left, hdrop]

theorem poke_append {a c : List α} {x y : α} {i : Nat} (hi : a.length = i) :
    poke (a ++ x :: c) i y = some (a ++ y :: c) := by
  subst hi
  rw [poke, if_pos (by simp)]
  simp

theorem exists_split (cells : List α) {n : Nat} (h : n ≤ cells.length) :
    ∃ a b, cells = a ++ b ∧ a.length = n :=
  ⟨cells.take n, cells.drop n, (List.take_append_drop n cells).symm, List.length_take_of_le h⟩

end Writes

theorem holds_append {t junk : List α} (h : (0 : α) ∉ t) : Holds (t ++ 0 :: junk) t :=
  ⟨h, junk, rfl⟩

/-- The outcome of a computation on storage of one size: it succeeds, keeps the size, and leaves a
terminated text. -/
def Gives (outcome : Option (List α)) (size : Nat) (t : List α) : Prop :=
  ∃ cells, outcome = some cells ∧ cells.length = size ∧ Holds cells t

theorem gives_some {cells t : List α} {size : Nat} (hsize : cells.length = size)
    (h : Holds cells t) : Gives (some cells) size t :=
  ⟨cells, rfl, hsize, h⟩

/-- Writing a terminator cuts the text there, and does nothing to it behind its end. -/
theorem Holds.poke_zero {cells t : List α} (h : Holds cells t) {i : Nat} (hi : i < cells.length) :
    Gives (poke cells i 0) cells.length (t.take i) := by
  refine ⟨cells.set i 0, if_pos hi, List.length_set, ?_⟩
  obtain ⟨junk, rfl⟩ := h.split
  constructor
  · exact fun h0 => h.nonzero (List.mem_of_mem_take h0)
  · rcases Nat.lt_or_ge i t.length with hlt | hge
    · refine ⟨t.drop (i + 1) ++ 0 :: junk, ?_⟩
      rw [List.set_append_left _ _ hlt, List.set_eq_take_append_cons_drop, if_pos hlt]
      simp
    · rw [List.take_of_length_le hge, List.set_append_right _ _ hge]
      rcases Nat.eq_zero_or_pos (i - t.length) with hzero | hpos
      · exact ⟨junk, by rw [hzero, List.set_cons_zero]⟩
      · obtain ⟨k, hk⟩ := Nat.exists_eq_succ_of_ne_zero (Nat.pos_iff_ne_zero.mp hpos)
        exact ⟨junk.set k 0, by rw [hk, List.set_cons_succ]⟩

theorem Holds.set_nonzero {cells t : List α} (h : Holds cells t) {i : Nat} {c : α} (hc : c ≠ 0)
    (hi : i < t.length) : Holds (cells.set i c) (t.set i c) := by
  obtain ⟨junk, rfl⟩ := h.split
  constructor
  · intro h0
    rcases List.mem_or_eq_of_mem_set h0 with hmem | heq
    · exact h.nonzero hmem
    · exact hc heq.symm
  · exact ⟨junk, List.set_append_left _ _ hi⟩

/-- A known start of the storage becomes the text when the terminator is written behind it. -/
theorem gives_terminate {a c : List α} {x : α} {i size : Nat} (hfree : (0 : α) ∉ a)
    (hi : a.length = i) (hsize : (a ++ x :: c).length = size) :
    Gives (poke (a ++ x :: c) i 0) size a := by
  refine ⟨a ++ 0 :: c, poke_append hi, ?_, holds_append hfree⟩
  rw [← hsize, List.length_append, List.length_append, List.length_cons, List.length_cons]

/-- A block written behind a known start, padded with zeros and terminated, extends that start. -/
theorem gives_write_padded {a w block : List α} (hfree : (0 : α) ∉ a ++ block) {pad : Nat}
    (hroom : block.length + pad < w.length) :
    ∃ cells', write (a ++ w) a.length (block ++ List.replicate pad 0) = some cells' ∧
      Gives (poke cells' (a.length + block.length + pad) 0) (a ++ w).length (a ++ block) := by
  obtain ⟨b, rest, rfl, hb⟩ := exists_split w (Nat.le_of_lt hroom)
  rcases rest with _ | ⟨x, rest⟩
  · rw [List.append_nil, hb] at hroom
    exact absurd hroom (Nat.lt_irrefl _)
  · have hlen : b.length = (block ++ List.replicate pad (0 : α)).length := by simpa using hb
    have hpoke : poke (a ++ (block ++ List.replicate pad 0 ++ x :: rest))
        (a.length + block.length + pad) 0 = some (a ++ block ++ List.replicate pad 0 ++ 0 :: rest) := by
      rw [← List.append_assoc, ← List.append_assoc]
      exact poke_append (by simp [Nat.add_assoc])
    refine ⟨_, write_append rfl hlen, _, hpoke, ?_, ?_⟩
    · simp only [List.length_append, List.length_cons, hb, List.length_replicate]
      omega
    · rcases pad with _ | pad
      · rw [List.replicate_zero, List.append_nil]
        exact holds_append hfree
      · rw [List.append_assoc (a ++ block), List.replicate_succ, List.cons_append]
        exact holds_append hfree

theorem gives_write {a w block : List α} (hfree : (0 : α) ∉ a ++ block)
    (hroom : block.length < w.length) :
    ∃ cells', write (a ++ w) a.length block = some cells' ∧
      Gives (poke cells' (a.length + block.length) 0) (a ++ w).length (a ++ block) := by
  have hwrite := @gives_write_padded α _ a w block hfree 0 hroom
  rwa [List.replicate_zero, List.append_nil] at hwrite

end ColonyPico.Foundations.TerminatedText
