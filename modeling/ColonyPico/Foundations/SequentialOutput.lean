import ColonyPico.Foundations.TerminatedText

/-!
Storage that is read and written through a pointer, which moves on with every write.
-/

namespace ColonyPico.Foundations.SequentialOutput

open TerminatedText

variable {α : Type}

/-- The `n` cells behind a pointer. -/
def readCells (cells : List α) (n : Nat) : Option (List α) :=
  if n ≤ cells.length then some (cells.take n) else none

theorem readCells_length (cells : List α) : readCells cells cells.length = some cells := by
  rw [readCells, if_pos (Nat.le_refl _), List.take_length]

theorem readCells_append (xs ys : List α) : readCells (xs ++ ys) xs.length = some xs := by
  rw [readCells, if_pos (by rw [List.length_append]; omega), List.take_left]

structure Output (α : Type) where
  cells : List α
  pos : Nat

/-- `*pos++ = c`. -/
def Output.put (o : Output α) (c : α) : Option (Output α) :=
  (poke o.cells o.pos c).map fun cells => { cells := cells, pos := o.pos + 1 }

def Output.puts (o : Output α) (cs : List α) : Option (Output α) :=
  cs.foldlM Output.put o

/-- The pointer stands between what it has passed and the room that is left. -/
def Output.between (done room : List α) : Output α :=
  { cells := done ++ room, pos := done.length }

theorem between_nil (cells : List α) : Output.between [] cells = ⟨cells, 0⟩ :=
  rfl

theorem put_between (done : List α) (x : α) (room : List α) (c : α) :
    (Output.between done (x :: room)).put c = some (Output.between (done ++ [c]) room) := by
  rw [Output.put, Output.between, Output.between, poke_append rfl, Option.map_some,
    List.append_assoc, List.length_append]
  rfl

theorem puts_nil (o : Output α) : o.puts [] = some o :=
  rfl

theorem puts_cons (o : Output α) (c : α) (cs : List α) :
    o.puts (c :: cs) = (o.put c).bind fun o => o.puts cs :=
  rfl

/-- What is put into room for it stands there afterwards, and nothing else is written. -/
theorem puts_between (done : List α) {room cs : List α} (h : cs.length ≤ room.length) :
    (Output.between done room).puts cs =
      some (Output.between (done ++ cs) (room.drop cs.length)) := by
  induction cs generalizing done room with
  | nil => rw [puts_nil, List.append_nil, List.length_nil, List.drop_zero]
  | cons c cs ih =>
      cases room with
      | nil => cases h
      | cons x room =>
          rw [puts_cons, put_between, Option.bind_some, ih (done ++ [c]) (Nat.le_of_succ_le_succ h),
            List.append_assoc, List.singleton_append, List.length_cons, List.drop_succ_cons]

/-- The pointer goes back over what it has just passed. -/
theorem between_back (done back room : List α) :
    ({ cells := (Output.between (done ++ back) room).cells,
       pos := (Output.between (done ++ back) room).pos - back.length } : Output α) =
      Output.between done (back ++ room) := by
  rw [Output.between, Output.between, List.append_assoc, List.length_append, Nat.add_sub_cancel]

section Pieces

theorem length_flatMap {α β : Type} {f : α → List β} {k : Nat} (hf : ∀ x, (f x).length = k)
    (l : List α) : (l.flatMap f).length = k * l.length := by
  induction l with
  | nil => rfl
  | cons x l ih =>
      rw [List.flatMap_cons, List.length_append, ih, hf, List.length_cons, Nat.mul_succ,
        Nat.add_comm]

/-- Pieces of one length are found again at their offsets. -/
theorem take_drop_flatMap {α β : Type} {f : α → List β} {k : Nat} (hf : ∀ x, (f x).length = k)
    {l : List α} {j : Nat} {x : α} (hx : l[j]? = some x) :
    ((l.flatMap f).drop (k * j)).take k = f x := by
  induction l generalizing j with
  | nil => cases hx
  | cons y l ih =>
      rw [List.flatMap_cons]
      rcases j with _ | j
      · obtain rfl := Option.some.inj hx
        rw [Nat.mul_zero, List.drop_zero, List.take_append_of_le_length (Nat.le_of_eq (hf y).symm),
          List.take_of_length_le (Nat.le_of_eq (hf y))]
      · rw [Nat.mul_succ, Nat.add_comm, ← List.drop_drop,
          List.drop_left' (hf y)]
        exact ih hx

end Pieces

end ColonyPico.Foundations.SequentialOutput
