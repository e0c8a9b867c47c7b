import ColonyPico.Text.StringEdits
import Mathlib.Data.PNat.Defs

/-!
The bounded string (`Cpl::Text::FString`) and the heap string (`Cpl::Text::DString`), and their
refinement of plain character lists along any sequence of operations.
-/

namespace ColonyPico.Text.StringRefinement

open ColonyPico.Foundations.TerminatedText
open ColonyPico.Text.StringEdits

/-! Bounded strings -/

structure FString where
  strPtr : List UInt8
  internalMaxlen : Nat
  truncated : Bool
  deriving DecidableEq

/-- The storage of a new string is not initialised: `memory` is what it happens to hold. -/
def FString.construct (string : CString) (memory : List UInt8) (maxLen : Nat) : Option FString := do
  let inStrLen := string.chars.length
  let cells ← strncpy memory string.chars maxLen
  let cells ← poke cells maxLen 0
  some ⟨cells, maxLen, if inStrLen ≤ maxLen then false else true⟩

def FString.copyIn (s : FString) (src : CString) (len : Int) : Option FString := do
  let truncated := if len ≤ s.internalMaxlen then false else true
  let len := min (s.internalMaxlen : Int) len
  let cells ← strncpy s.strPtr src.chars len
  let cells ← store cells len 0
  some { s with strPtr := cells, truncated := truncated }

def FString.appendTo (s : FString) (string : CString) (len : Int) : Option FString := do
  let curlen : Int := strlen s.strPtr
  let avail := s.internalMaxlen - curlen
  let copylen := min len avail
  let truncated := if copylen = len then false else true
  let cells ← strncat s.strPtr string.chars copylen
  let cells ← store cells (curlen + copylen) 0
  some { s with strPtr := cells, truncated := truncated }

/-- The insertion that does not grow the storage, for an offset inside the text; the flag tells
whether characters were dropped. -/
def insertWithin (cells stringToInsert : List UInt8) (maxlen curlen insertOffset : Nat) :
    Option (List UInt8 × Bool) := do
  let insertlen := stringToInsert.length
  let avail := maxlen - insertOffset
  let copylen := min insertlen avail
  let remainderlen := avail - copylen
  let shiftlen := curlen - insertOffset
  let movelen := min shiftlen remainderlen
  let cells ←
    if 0 < movelen then
      (memmove cells (insertOffset + copylen) insertOffset movelen).bind fun cells =>
        poke cells (insertOffset + copylen + movelen) 0
    else some cells
  let cells ← write cells insertOffset (stringToInsert.take copylen)
  let cells ← poke cells maxlen 0
  some (cells, movelen ≠ shiftlen || copylen ≠ insertlen)

def FString.insertAt (s : FString) (insertOffset : Int) (stringToInsert : CString) :
    Option FString :=
  -- a negative offset counts as zero
  let insertOffset := insertOffset.toNat
  let curlen := strlen s.strPtr
  let insertlen := stringToInsert.chars.length
  if curlen ≤ insertOffset then s.appendTo stringToInsert insertlen
  else do
    let (cells, truncated) ←
      insertWithin s.strPtr stringToInsert.chars s.internalMaxlen curlen insertOffset
    some { s with strPtr := cells, truncated := truncated }

/-! Heap strings -/

/-- What the heap answers to a request: no memory, or memory of the requested size. -/
structure Heap where
  new : Nat → Option (List UInt8)
  sized : ∀ n memory, new n = some memory → memory.length = n

structure DString where
  strPtr : List UInt8
  blockSize : ℕ+
  truncated : Bool
  noMemory : Bool
  deriving DecidableEq

/-- The size in blocks, with room for the terminator. -/
def calcMemSize (blockSize : ℕ+) (len : Nat) : Nat :=
  (len + blockSize) / blockSize * blockSize

def DString.maxStrLen (s : DString) : Nat :=
  s.strPtr.length - 1

def DString.validateAndCopy (s : DString) (string : CString) (len : Int) : Option DString :=
  if s.noMemory then some { s with strPtr := [0], truncated := true }
  else do
    let cells ← strncpy s.strPtr string.chars len
    let cells ← store cells len 0
    some { s with strPtr := cells }

def DString.construct (heap : Heap) (string : CString) (initialSize : Int) (blocksize : ℕ+) :
    Option DString :=
  let size := calcMemSize blocksize (max (string.chars.length : Int) initialSize).toNat
  match heap.new size with
  | none => DString.validateAndCopy ⟨[0], blocksize, false, true⟩ string string.chars.length
  | some memory => DString.validateAndCopy ⟨memory, blocksize, false, false⟩ string string.chars.length

def DString.copyIn (heap : Heap) (s : DString) (src : CString) (len : Int) : Option DString :=
  let s := { s with truncated := false }
  if s.maxStrLen < len then
    match heap.new (calcMemSize s.blockSize len.toNat) with
    | none => DString.validateAndCopy { s with truncated := true } src s.maxStrLen
    | some ptr => DString.validateAndCopy { s with strPtr := ptr, noMemory := false } src len
  else s.validateAndCopy src len

/-- The string moved to larger storage; a failed request leaves it where it is. -/
def DString.grow (heap : Heap) (s : DString) (newsize : Nat) : Option (DString × Bool) :=
  match heap.new newsize with
  | none => some ({ s with truncated := true }, false)
  | some ptr => (strcpy ptr s.strPtr).map fun ptr =>
      ({ s with strPtr := ptr, noMemory := false }, true)

def DString.catAt (s : DString) (string : CString) (curlen : Nat) (len : Int) : Option DString :=
  if len = 0 then some s
  else do
    let cells ← strncat s.strPtr string.chars len
    let cells ← store cells (curlen + len) 0
    some { s with strPtr := cells }

def DString.appendTo (heap : Heap) (s : DString) (string : CString) (len : Int) :
    Option DString :=
  let s := { s with truncated := false }
  let curlen := strlen s.strPtr
  let avail := s.maxStrLen - curlen
  if avail < len then do
    let (s, grown) ← s.grow heap (calcMemSize s.blockSize (s.maxStrLen + len.toNat))
    s.catAt string curlen (if grown then len else avail)
  else s.catAt string curlen len

/-- The insertion into storage that has room for all characters. -/
def DString.insertFitting (s : DString) (stringToInsert : CString) (curlen insertOffset : Nat) :
    Option DString := do
  let insertlen := stringToInsert.chars.length
  let shiftlen := curlen - insertOffset
  let cells ← memmove s.strPtr (insertOffset + insertlen) insertOffset shiftlen
  let cells ← poke cells (insertOffset + insertlen + shiftlen) 0
  let cells ← write cells insertOffset stringToInsert.chars
  some { s with strPtr := cells, truncated := false }

def DString.insertAt (heap : Heap) (s : DString) (insertOffset : Int) (stringToInsert : CString) :
    Option DString :=
  let insertOffset := insertOffset.toNat
  let curlen := strlen s.strPtr
  let insertlen := stringToInsert.chars.length
  if curlen ≤ insertOffset then s.appendTo heap stringToInsert insertlen
  else if s.maxStrLen < curlen + insertlen then do
    let (s, grown) ← s.grow heap (calcMemSize s.blockSize (curlen + insertlen))
    if grown then s.insertFitting stringToInsert curlen insertOffset
    else do
      let (cells, _) ←
        insertWithin s.strPtr stringToInsert.chars s.maxStrLen curlen insertOffset
      some { s with strPtr := cells, truncated := true }
  else s.insertFitting stringToInsert curlen insertOffset

/-! Operations -/

/-- The operations with the arguments a caller may pass: no character is the terminator, and no
length exceeds its source. -/
inductive TextOp where
  | copyIn (src : CString) (len : Int) (within : len ≤ src.chars.length)
  | appendTo (src : CString) (len : Int) (within : len ≤ src.chars.length)
  | insertAt (insertOffset : Int) (stringToInsert : CString)
  | cut (startpos endpos : Int)
  | trimRight (n : Int)
  | removeLeadingSpaces
  | removeTrailingSpaces
  | replace (targetChar newChar : UInt8) (nonzero : newChar ≠ 0)
  | clear

/-- The operations on a text of unlimited length. -/
def ideal : TextOp → List UInt8 → List UInt8
  | .copyIn src len _, _ => src.chars.take len.toNat
  | .appendTo src len _, t => t ++ src.chars.take len.toNat
  | .insertAt insertOffset s, t =>
      t.take insertOffset.toNat ++ s.chars ++ t.drop insertOffset.toNat
  | .cut startpos endpos, t =>
      if 0 ≤ startpos ∧ startpos ≤ endpos ∧ endpos < t.length then
        t.take startpos.toNat ++ t.drop (endpos.toNat + 1)
      else t
  | .trimRight n, t => if 0 ≤ n ∧ n ≤ t.length then t.take (t.length - n.toNat) else t
  | .removeLeadingSpaces, t => t.dropWhile isspace
  | .removeTrailingSpaces, t => t.rdropWhile isspace
  | .replace targetChar newChar _, t => t.map fun c => if c = targetChar then newChar else c
  | .clear, _ => []

/-- The operations both types inherit; `none` for those they implement themselves. -/
def edit : TextOp → Option (List UInt8 → Option (List UInt8))
  | .cut startpos endpos => some fun cells => cut cells startpos endpos
  | .trimRight n => some fun cells => trimRight cells n
  | .removeLeadingSpaces => some removeLeadingSpaces
  | .removeTrailingSpaces => some removeTrailingSpaces
  | .replace targetChar newChar _ => some fun cells => some (replace targetChar newChar cells).1
  | .clear => some clear
  | _ => none

def FString.apply (s : FString) : TextOp → Option FString
  | .copyIn src len _ => s.copyIn src len
  | .appendTo src len _ => s.appendTo src len
  | .insertAt insertOffset stringToInsert => s.insertAt insertOffset stringToInsert
  | op => ((edit op).bind (fun f => f s.strPtr)).map fun cells =>
      { s with strPtr := cells, truncated := false }

def DString.apply (heap : Heap) (s : DString) : TextOp → Option DString
  | .copyIn src len _ => s.copyIn heap src len
  | .appendTo src len _ => s.appendTo heap src len
  | .insertAt insertOffset stringToInsert => s.insertAt heap insertOffset stringToInsert
  | op => ((edit op).bind (fun f => f s.strPtr)).map fun cells =>
      { s with strPtr := cells, truncated := false }

/-! What one operation leaves -/

theorem edit_gives {op : TextOp} {f : List UInt8 → Option (List UInt8)} (hf : edit op = some f)
    {cells t : List UInt8} (h : Holds cells t)
    (hroom : op = .removeTrailingSpaces → t ≠ [] ∨ 1 < cells.length) :
    Gives (f cells) cells.length (ideal op t) := by
  cases op with
  | copyIn src len within => cases hf
  | appendTo src len within => cases hf
  | insertAt insertOffset stringToInsert => cases hf
  | cut startpos endpos =>
      rw [← Option.some.inj hf]
      exact cut_gives h startpos endpos
  | trimRight n =>
      rw [← Option.some.inj hf]
      exact trimRight_gives h n
  | removeLeadingSpaces =>
      rw [← Option.some.inj hf]
      exact removeLeadingSpaces_gives h
  | removeTrailingSpaces =>
      rw [← Option.some.inj hf]
      exact removeTrailingSpaces_gives h (hroom rfl)
  | replace targetChar newChar nonzero =>
      rw [← Option.some.inj hf]
      exact replace_gives h targetChar nonzero
  | clear =>
      rw [← Option.some.inj hf]
      exact clear_gives h

theorem length_ideal_edit {op : TextOp} {f : List UInt8 → Option (List UInt8)}
    (hf : edit op = some f) (t : List UInt8) : (ideal op t).length ≤ t.length := by
  cases op with
  | copyIn src len within => cases hf
  | appendTo src len within => cases hf
  | insertAt insertOffset stringToInsert => cases hf
  | cut startpos endpos =>
      simp only [ideal]
      split_ifs
      · simp only [List.length_append, List.length_take, List.length_drop]
        omega
      · exact Nat.le_refl _
  | trimRight n =>
      simp only [ideal]
      split_ifs
      · exact List.length_take_le' _ _
      · exact Nat.le_refl _
  | removeLeadingSpaces => exact (List.dropWhile_suffix _).length_le
  | removeTrailingSpaces => exact (List.rdropWhile_prefix _ _).length_le
  | replace targetChar newChar nonzero => exact Nat.le_of_eq (List.length_map _)
  | clear => exact Nat.zero_le _

theorem insertWithin_spec {cells t block : List UInt8} {maxlen off : Nat} (h : Holds cells t)
    (hsize : cells.length = maxlen + 1) (hoff : off < t.length) (hfree : (0 : UInt8) ∉ block) :
    ∃ cells', insertWithin cells block maxlen t.length off =
        some (cells', decide (maxlen < (t.take off ++ block ++ t.drop off).length)) ∧
      cells'.length = cells.length ∧
      Holds cells' ((t.take off ++ block ++ t.drop off).take maxlen) := by
  have hlt := h.length_lt
  obtain ⟨copylen, hcopy⟩ : ∃ n, min block.length (maxlen - off) = n := ⟨_, rfl⟩
  obtain ⟨movelen, hmove⟩ : ∃ n, min (t.length - off) (maxlen - off - copylen) = n := ⟨_, rfl⟩
  have hblock : (block.take copylen).length = copylen := by
    rw [List.length_take]
    omega
  have hfree' : (0 : UInt8) ∉ block.take copylen := fun h0 => hfree (List.mem_of_mem_take h0)
  have hlen : (t.take off).length = off := by
    rw [List.length_take]
    omega
  have htext : (t.take off ++ block ++ t.drop off).take maxlen =
      t.take off ++ block.take copylen ++ (t.drop off).take movelen := by
    rw [List.append_assoc, List.take_append, hlen, List.take_of_length_le (by omega),
      List.take_append, List.append_assoc]
    have hcopy' : block.take (maxlen - off) = block.take copylen := by
      rw [← hcopy, List.take_eq_take_iff]
      omega
    have hmove' : (t.drop off).take (maxlen - off - block.length) = (t.drop off).take movelen := by
      rw [List.take_eq_take_iff, List.length_drop]
      omega
    rw [hcopy', hmove']
  have hflag : (decide (movelen ≠ t.length - off) || decide (copylen ≠ block.length)) =
      decide (maxlen < (t.take off ++ block ++ t.drop off).length) := by
    rw [← Bool.decide_or, decide_eq_decide]
    simp only [List.length_append, List.length_drop, hlen]
    omega
  rw [htext, ← hflag]
  simp only [insertWithin, hcopy, hmove]
  rcases Nat.eq_zero_or_pos movelen with hnone | hpos
  · -- nothing is left of the tail: the inserted characters reach the end of the storage
    have hfull : off + copylen = maxlen := by omega
    have hstart : cells = t.take off ++ cells.drop off := by
      obtain ⟨junk, hcells⟩ := h.split
      have htake : cells.take off = t.take off := by
        rw [hcells, List.take_append_of_le_length (by omega)]
      rw [← htake, List.take_append_drop]
    have hfree'' : (0 : UInt8) ∉ t.take off ++ block.take copylen := by
      intro h0
      rcases List.mem_append.mp h0 with hmem | hmem
      · exact h.nonzero (List.mem_of_mem_take hmem)
      · exact hfree' hmem
    have hroom : (block.take copylen).length < (cells.drop off).length := by
      rw [hblock, List.length_drop]
      omega
    obtain ⟨filled, hwrite, closed, hpoke, hsize', hholds⟩ := gives_write hfree'' hroom
    rw [← hstart, hlen] at hwrite
    rw [hlen, hblock, hfull] at hpoke
    rw [← hstart] at hsize'
    refine ⟨closed, ?_, hsize', ?_⟩
    · simp only [if_neg (show ¬0 < movelen by omega), Option.bind_eq_bind, Option.bind_some, hwrite,
        hpoke]
    · rw [hnone, List.take_zero, List.append_nil]
      exact hholds
  · obtain ⟨moved, closed, filled, hmoved, hclosed, hfilled, hsize', hholds⟩ :=
      shift_insert h (Nat.le_of_lt hoff) (show movelen ≤ t.length - off by omega) hfree'
        (by rw [hblock]; omega)
    rw [hblock] at hmoved hclosed
    obtain ⟨cells', hpoke, hsize'', hholds'⟩ :=
      hholds.poke_zero (show maxlen < filled.length by omega)
    refine ⟨cells', ?_, by omega, ?_⟩
    · simp only [if_pos hpos, hmoved, hclosed, hfilled, hpoke, Option.bind_eq_bind,
        Option.bind_some]
    · rw [List.take_of_length_le] at hholds'
      · exact hholds'
      · simp only [List.length_append, hlen, hblock, List.length_take]
        omega

/-- No copy or append is asked for a negative number of characters. -/
def TextOp.LengthNonneg : TextOp → Prop
  | .copyIn _ len _ => 0 ≤ len
  | .appendTo _ len _ => 0 ≤ len
  | _ => True

/-! The bounded string -/

structure FString.Valid (s : FString) (t : List UInt8) : Prop where
  holds : Holds s.strPtr t
  sized : s.strPtr.length = s.internalMaxlen + 1

theorem FString.Valid.length_le {s : FString} {t : List UInt8} (h : s.Valid t) :
    t.length ≤ s.internalMaxlen := by
  have hlt := h.holds.length_lt
  rw [h.sized] at hlt
  exact Nat.le_of_lt_succ hlt

/-- After the operation the string holds the first characters of the ideal result, terminated, and
tells whether characters were dropped. -/
structure FString.Meets (op : TextOp) (s s' : FString) : Prop where
  capacity : s'.internalMaxlen = s.internalMaxlen
  sized : s'.strPtr.length = s.internalMaxlen + 1
  holds : Holds s'.strPtr ((ideal op (text s.strPtr)).take s.internalMaxlen)
  truncated : s'.truncated = true ↔ s.internalMaxlen < (ideal op (text s.strPtr)).length

theorem FString.meets_of {op : TextOp} {s : FString} {t : List UInt8} (h : s.Valid t)
    {cells : List UInt8} {flag : Bool} (hsize : cells.length = s.strPtr.length)
    (hholds : Holds cells ((ideal op t).take s.internalMaxlen))
    (hflag : flag = true ↔ s.internalMaxlen < (ideal op t).length) :
    FString.Meets op s { s with strPtr := cells, truncated := flag } := by
  constructor
  · rfl
  · rw [hsize, h.sized]
  · rw [h.holds.text_eq]
    exact hholds
  · rw [h.holds.text_eq]
    exact hflag

theorem FString.copyIn_meets {s : FString} {t : List UInt8} (h : s.Valid t) {src : CString}
    {len : Int} (within : len ≤ src.chars.length) (hlen : 0 ≤ len) :
    ∃ s', s.copyIn src len = some s' ∧ FString.Meets (.copyIn src len within) s s' := by
  obtain ⟨n, rfl⟩ := Int.eq_ofNat_of_zero_le hlen
  have hmin : min (s.internalMaxlen : Int) n = ((min s.internalMaxlen n : Nat) : Int) := by omega
  have hroom : min s.internalMaxlen n < s.strPtr.length := by
    rw [h.sized]
    omega
  obtain ⟨copied, hcopy, closed, hclose, hsize, hholds⟩ := strncpy_gives src.nonzero hroom
  have hideal : (ideal (.copyIn src n within) t).take s.internalMaxlen =
      src.chars.take (min s.internalMaxlen n) := by
    simp only [ideal, Int.toNat_natCast, List.take_take]
  refine ⟨{ s with
    strPtr := closed, truncated := if (n : Int) ≤ s.internalMaxlen then false else true },
    ?_, FString.meets_of h hsize (hideal ▸ hholds) ?_⟩
  · simp only [FString.copyIn, hmin, hcopy, hclose, Option.bind_eq_bind, Option.bind_some]
  · simp only [ideal, Int.toNat_natCast, List.length_take]
    split_ifs <;> simp <;> omega

theorem FString.appendTo_meets {s : FString} {t : List UInt8} (h : s.Valid t) {src : CString}
    {op : TextOp} {n : Nat} (within : n ≤ src.chars.length)
    (hop : ideal op t = t ++ src.chars.take n) :
    ∃ s', s.appendTo src n = some s' ∧ FString.Meets op s s' := by
  have hle := h.length_le
  have hmin : min (n : Int) (s.internalMaxlen - t.length) =
      ((min n (s.internalMaxlen - t.length) : Nat) : Int) := by omega
  have hroom : t.length + min n (s.internalMaxlen - t.length) < s.strPtr.length := by
    rw [h.sized]
    omega
  obtain ⟨cat, hcat, closed, hclose, hsize, hholds⟩ := strncat_gives h.holds src.nonzero hroom
  have hideal : (ideal op t).take s.internalMaxlen =
      t ++ src.chars.take (min n (s.internalMaxlen - t.length)) := by
    rw [hop, List.take_append, List.take_of_length_le hle, List.take_take, Nat.min_comm]
  refine ⟨{ s with
    strPtr := closed
    truncated := if min (n : Int) (s.internalMaxlen - t.length) = n then false else true },
    ?_, FString.meets_of h hsize (hideal ▸ hholds) ?_⟩
  · simp only [FString.appendTo, h.holds.strlen_eq, hmin, hcat, hclose, Option.bind_eq_bind,
      Option.bind_some]
  · rw [hop]
    simp only [List.length_append, List.length_take]
    split_ifs <;> simp <;> omega

theorem FString.insertAt_meets {s : FString} {t : List UInt8} (h : s.Valid t) (insertOffset : Int)
    (stringToInsert : CString) :
    ∃ s', s.insertAt insertOffset stringToInsert = some s' ∧
      FString.Meets (.insertAt insertOffset stringToInsert) s s' := by
  simp only [FString.insertAt, h.holds.strlen_eq]
  split_ifs with hpast
  · apply FString.appendTo_meets h (Nat.le_refl _)
    simp only [ideal, List.take_of_length_le hpast, List.drop_of_length_le hpast, List.append_nil,
      List.take_length]
  · obtain ⟨cells, hinsert, hsize, hholds⟩ :=
      insertWithin_spec h.holds h.sized (Nat.lt_of_not_le hpast) stringToInsert.nonzero
    refine ⟨{ s with
      strPtr := cells
      truncated := decide (s.internalMaxlen < (t.take insertOffset.toNat ++ stringToInsert.chars ++
        t.drop insertOffset.toNat).length) },
      ?_, FString.meets_of h hsize hholds ?_⟩
    · simp only [hinsert, Option.bind_eq_bind, Option.bind_some]
    · exact decide_eq_true_iff

theorem FString.edit_meets {s : FString} {t : List UInt8} (h : s.Valid t) {op : TextOp}
    {f : List UInt8 → Option (List UInt8)} (hf : edit op = some f)
    (hroom : op = .removeTrailingSpaces → 1 ≤ s.internalMaxlen) :
    ∃ s', ((edit op).bind fun f => f s.strPtr).map
        (fun cells => { s with strPtr := cells, truncated := false }) = some s' ∧
      FString.Meets op s s' := by
  have hshort := Nat.le_trans (length_ideal_edit hf t) h.length_le
  have hwide : op = .removeTrailingSpaces → t ≠ [] ∨ 1 < s.strPtr.length := by
    intro hop
    right
    rw [h.sized]
    exact Nat.lt_succ_of_le (hroom hop)
  obtain ⟨cells, hcells, hsize, hholds⟩ := edit_gives hf h.holds hwide
  refine ⟨{ s with strPtr := cells, truncated := false }, ?_, FString.meets_of h hsize ?_ ?_⟩
  · rw [hf, Option.bind_some, hcells, Option.map_some]
  · rw [List.take_of_length_le hshort]
    exact hholds
  · simp only [Bool.false_eq_true, false_iff, Nat.not_lt]
    exact hshort

theorem FString.apply_meets {s : FString} {t : List UInt8} (h : s.Valid t) {op : TextOp}
    (hlen : op.LengthNonneg) (hroom : 1 ≤ s.internalMaxlen ∨ op ≠ .removeTrailingSpaces) :
    ∃ s', s.apply op = some s' ∧ FString.Meets op s s' := by
  have hroom' : op = .removeTrailingSpaces → 1 ≤ s.internalMaxlen :=
    fun hop => hroom.resolve_right (fun hne => hne hop)
  cases op with
  | copyIn src len within => exact FString.copyIn_meets h within hlen
  | appendTo src len within =>
      obtain ⟨n, rfl⟩ := Int.eq_ofNat_of_zero_le hlen
      exact FString.appendTo_meets h (Int.ofNat_le.mp within) rfl
  | insertAt insertOffset stringToInsert => exact FString.insertAt_meets h insertOffset stringToInsert
  | cut startpos endpos => exact FString.edit_meets h rfl hroom'
  | trimRight n => exact FString.edit_meets h rfl hroom'
  | removeLeadingSpaces => exact FString.edit_meets h rfl hroom'
  | removeTrailingSpaces => exact FString.edit_meets h rfl hroom'
  | replace targetChar newChar nonzero => exact FString.edit_meets h rfl hroom'
  | clear => exact FString.edit_meets h rfl hroom'

theorem strncpy_negative (cells src : List UInt8) {n : Int} (hn : n < 0) :
    strncpy cells src n = none :=
  if_pos hn

/-- An append of a negative length cuts the text it was to extend. -/
theorem append_negative {cells t src cat closed : List UInt8} (h : Holds cells t)
    (hfree : (0 : UInt8) ∉ src) {n : Int} (hn : n < 0) (hcat : strncat cells src n = some cat)
    (hclose : store cat (t.length + n) 0 = some closed) : ¬Holds closed t := by
  intro hsame
  obtain ⟨hholds, -⟩ := holds_of_strncat h hfree hcat
  unfold store at hclose
  split_ifs at hclose with hneg
  have hin : (t.length + n).toNat < cat.length := by
    have hlt := hholds.length_lt
    rw [List.length_append] at hlt
    omega
  obtain ⟨closed', hpoke, -, hcut⟩ := hholds.poke_zero hin
  rw [hclose] at hpoke
  cases hpoke
  have heq := hcut.text_eq.symm.trans hsame.text_eq
  have hlen := congrArg List.length heq
  rw [List.length_take, List.length_append] at hlen
  omega

theorem FString.lengthNonneg_of_meets {s s' : FString} {t : List UInt8} (h : s.Valid t)
    {op : TextOp}
    (happly : s.apply op = some s') (hmeets : FString.Meets op s s') : op.LengthNonneg := by
  have hle := h.length_le
  cases op with
  | copyIn src len within =>
      by_contra hneg
      rw [TextOp.LengthNonneg, Int.not_le] at hneg
      have hmin : min (s.internalMaxlen : Int) len < 0 := by omega
      simp only [FString.apply, FString.copyIn, strncpy_negative _ _ hmin, Option.bind_eq_bind,
        Option.bind_none, reduceCtorEq] at happly
  | appendTo src len within =>
      by_contra hneg
      rw [TextOp.LengthNonneg, Int.not_le] at hneg
      have hmin : min len (s.internalMaxlen - t.length : Int) = len := by omega
      simp only [FString.apply, FString.appendTo, h.holds.strlen_eq, hmin] at happly
      obtain ⟨cat, hcat, hrest⟩ := Option.bind_eq_some_iff.mp happly
      obtain ⟨closed, hclose, hs'⟩ := Option.bind_eq_some_iff.mp hrest
      apply append_negative h.holds src.nonzero hneg hcat hclose
      have hholds := hmeets.holds
      rw [← Option.some.inj hs', h.holds.text_eq, ideal, Int.toNat_of_nonpos (Int.le_of_lt hneg),
        List.take_zero, List.append_nil, List.take_of_length_le hle] at hholds
      exact hholds
  | insertAt insertOffset stringToInsert => exact trivial
  | cut startpos endpos => exact trivial
  | trimRight n => exact trivial
  | removeLeadingSpaces => exact trivial
  | removeTrailingSpaces => exact trivial
  | replace targetChar newChar nonzero => exact trivial
  | clear => exact trivial

/-- The sequence runs to its end, and every operation of it leaves what it should. -/
def FString.Refines (s : FString) : List TextOp → Prop
  | [] => True
  | op :: ops => ∃ s', s.apply op = some s' ∧ FString.Meets op s s' ∧ s'.Refines ops

theorem holds_single {cells t : List UInt8} (h : Holds cells t) (hsize : cells.length = 1) :
    cells = [0] ∧ t = [] := by
  obtain ⟨junk, rfl⟩ := h.split
  rw [List.length_append, List.length_cons] at hsize
  have ht : t = [] := List.length_eq_zero_iff.mp (by omega)
  have hjunk : junk = [] := List.length_eq_zero_iff.mp (by omega)
  subst ht hjunk
  exact ⟨rfl, rfl⟩

theorem FString.refines_iff {s : FString} {t : List UInt8} (h : s.Valid t) (ops : List TextOp) :
    s.Refines ops ↔ (∀ op ∈ ops, op.LengthNonneg) ∧
      (1 ≤ s.internalMaxlen ∨ .removeTrailingSpaces ∉ ops) := by
  induction ops generalizing s t with
  | nil => simp [FString.Refines]
  | cons op ops ih =>
      have hnext : ∀ s', FString.Meets op s s' →
          (s'.Refines ops ↔ (∀ op ∈ ops, op.LengthNonneg) ∧
            (1 ≤ s.internalMaxlen ∨ .removeTrailingSpaces ∉ ops)) := by
        intro s' hmeets
        have hvalid : s'.Valid _ := ⟨hmeets.holds, by rw [hmeets.sized, hmeets.capacity]⟩
        rw [ih hvalid, hmeets.capacity]
      constructor
      · rintro ⟨s', happly, hmeets, hrest⟩
        obtain ⟨hlens, hroom⟩ := (hnext s' hmeets).mp hrest
        refine ⟨List.forall_mem_cons.mpr
          ⟨FString.lengthNonneg_of_meets h happly hmeets, hlens⟩, ?_⟩
        rcases hroom with hroom | hroom
        · exact .inl hroom
        · rcases Nat.eq_zero_or_pos s.internalMaxlen with hzero | hpos
          · right
            rintro (_ | ⟨_, hmem⟩)
            · -- the storage is the terminator alone, and the write behind it has no result
              obtain ⟨hcells, -⟩ := holds_single h.holds (by rw [h.sized, hzero])
              simp [FString.apply, edit, hcells, removeTrailingSpaces_single] at happly
            · exact hroom hmem
          · exact .inl hpos
      · rintro ⟨hlens, hroom⟩
        obtain ⟨hlen, hlens⟩ := List.forall_mem_cons.mp hlens
        have hroom' : 1 ≤ s.internalMaxlen ∨ op ≠ .removeTrailingSpaces := by
          rcases hroom with hroom | hroom
          · exact .inl hroom
          · exact .inr fun hop => hroom (hop ▸ List.mem_cons_self)
        obtain ⟨s', happly, hmeets⟩ := FString.apply_meets h hlen hroom'
        refine ⟨s', happly, hmeets, (hnext s' hmeets).mpr ⟨hlens, ?_⟩⟩
        rcases hroom with hroom | hroom
        · exact .inl hroom
        · exact .inr fun hmem => hroom (List.mem_cons_of_mem _ hmem)

theorem FString.construct_valid (string : CString) {memory : List UInt8} {maxLen : Nat}
    (hmemory : memory.length = maxLen + 1) :
    ∃ s, FString.construct string memory maxLen = some s ∧ s.internalMaxlen = maxLen ∧
      s.Valid (string.chars.take maxLen) := by
  have hroom : maxLen < memory.length := by omega
  obtain ⟨copied, hcopy, closed, hclose, hsize, hholds⟩ := strncpy_gives string.nonzero hroom
  rw [store_natCast] at hclose
  refine ⟨⟨closed, maxLen, if string.chars.length ≤ maxLen then false else true⟩, ?_, rfl,
    hholds, ?_⟩
  · simp only [FString.construct, hcopy, hclose, Option.bind_eq_bind, Option.bind_some]
  · exact hsize.trans hmemory

/-! The heap string -/

def Heap.Succeeds (heap : Heap) : Prop :=
  ∀ n, ∃ memory, heap.new n = some memory

theorem lt_calcMemSize (blockSize : ℕ+) (len : Nat) : len < calcMemSize blockSize len := by
  have hpos : 0 < (blockSize : Nat) := blockSize.pos
  have hmod := Nat.mod_lt (len + blockSize) hpos
  have hdiv := Nat.div_add_mod' (len + blockSize) blockSize
  rw [calcMemSize]
  omega

structure DString.Valid (s : DString) (t : List UInt8) : Prop where
  holds : Holds s.strPtr t
  memory : s.noMemory = false

theorem DString.Valid.length_le {s : DString} {t : List UInt8} (h : s.Valid t) :
    t.length ≤ s.maxStrLen := by
  have hlt := h.holds.length_lt
  rw [DString.maxStrLen]
  omega

/-- After the operation the string holds the ideal result, terminated, and is not truncated. -/
structure DString.Meets (op : TextOp) (s s' : DString) : Prop where
  holds : Holds s'.strPtr (ideal op (text s.strPtr))
  truncated : s'.truncated = false

/-- What the proofs carry along besides: the storage is allocated, and grows only when the ideal
result does not fit. -/
structure DString.Keeps (op : TextOp) (s s' : DString) : Prop where
  memory : s'.noMemory = false
  grows : s.strPtr.length ≤ s'.strPtr.length
  stays : (ideal op (text s.strPtr)).length < s.strPtr.length →
    s'.strPtr.length = s.strPtr.length

theorem DString.result_of {op : TextOp} {s s' : DString} {t : List UInt8} (h : s.Valid t)
    (hholds : Holds s'.strPtr (ideal op t)) (htruncated : s'.truncated = false)
    (hmemory : s'.noMemory = false)
    (hsize : s'.strPtr.length = s.strPtr.length ∨
      s.strPtr.length < s'.strPtr.length ∧ s.strPtr.length ≤ (ideal op t).length) :
    DString.Meets op s s' ∧ DString.Keeps op s s' := by
  rw [← h.holds.text_eq] at hholds hsize
  refine ⟨⟨hholds, htruncated⟩, hmemory, ?_, ?_⟩
  · omega
  · omega

theorem DString.validateAndCopy_spec {s : DString} (hmemory : s.noMemory = false) (src : CString)
    {n : Nat} (hroom : n < s.strPtr.length) :
    ∃ cells, s.validateAndCopy src n = some { s with strPtr := cells } ∧
      cells.length = s.strPtr.length ∧ Holds cells (src.chars.take n) := by
  obtain ⟨copied, hcopy, closed, hclose, hsize, hholds⟩ := strncpy_gives src.nonzero hroom
  refine ⟨closed, ?_, hsize, hholds⟩
  simp only [DString.validateAndCopy, hmemory, Bool.false_eq_true, ↓reduceIte, hcopy, hclose,
    Option.bind_eq_bind, Option.bind_some]

theorem DString.copyIn_meets {heap : Heap} (hheap : heap.Succeeds) {s : DString} {t : List UInt8}
    (h : s.Valid t) {src : CString} {len : Int} (within : len ≤ src.chars.length) (hlen : 0 ≤ len) :
    ∃ s', s.copyIn heap src len = some s' ∧ DString.Meets (.copyIn src len within) s s' ∧
      DString.Keeps (.copyIn src len within) s s' := by
  obtain ⟨n, rfl⟩ := Int.eq_ofNat_of_zero_le hlen
  have hlt := h.holds.length_lt
  have hmax : s.maxStrLen = s.strPtr.length - 1 := rfl
  have hideal : (ideal (.copyIn src n within) t).length = n := by
    simp only [ideal, Int.toNat_natCast, List.length_take]
    omega
  unfold DString.copyIn
  dsimp only
  split_ifs with hbig
  · obtain ⟨ptr, hptr⟩ := hheap (calcMemSize s.blockSize n)
    have hsized := heap.sized _ _ hptr
    have hroom : n < ptr.length := hsized ▸ lt_calcMemSize s.blockSize n
    obtain ⟨cells, hcopy, hsize, hholds⟩ :=
      DString.validateAndCopy_spec (s := ⟨ptr, s.blockSize, false, false⟩) rfl src hroom
    refine ⟨⟨cells, s.blockSize, false, false⟩, ?_, DString.result_of h hholds rfl rfl ?_⟩
    · simp only [Int.toNat_natCast, hptr]
      exact hcopy
    · right
      rw [hideal]
      change s.maxStrLen < (n : Int) at hbig
      constructor <;> simp only at hsize ⊢ <;> omega
  · have hroom : n < s.strPtr.length := by
      change ¬(s.maxStrLen : Int) < n at hbig
      omega
    obtain ⟨cells, hcopy, hsize, hholds⟩ :=
      DString.validateAndCopy_spec (s := { s with truncated := false }) h.memory src hroom
    exact ⟨{ s with strPtr := cells, truncated := false }, hcopy,
      DString.result_of h hholds rfl h.memory (.inl hsize)⟩

theorem DString.grow_spec {heap : Heap} (hheap : heap.Succeeds) {s : DString} {t : List UInt8}
    (h : Holds s.strPtr t) {newsize : Nat} (hroom : t.length < newsize) :
    ∃ ptr, s.grow heap newsize = some ({ s with strPtr := ptr, noMemory := false }, true) ∧
      ptr.length = newsize ∧ Holds ptr t := by
  obtain ⟨fresh, hnew⟩ := hheap newsize
  have hsized := heap.sized _ _ hnew
  obtain ⟨ptr, hcopy, hsize, hholds⟩ := strcpy_gives h (show t.length < fresh.length by omega)
  refine ⟨ptr, ?_, hsize.trans hsized, hholds⟩
  simp only [DString.grow, hnew, hcopy, Option.map_some]

theorem DString.catAt_spec {s : DString} {t : List UInt8} (h : Holds s.strPtr t) (src : CString)
    {n : Nat} (hroom : t.length + n < s.strPtr.length) :
    ∃ cells, s.catAt src t.length n = some { s with strPtr := cells } ∧
      cells.length = s.strPtr.length ∧ Holds cells (t ++ src.chars.take n) := by
  unfold DString.catAt
  split_ifs with hzero
  · have hn : n = 0 := by omega
    subst hn
    exact ⟨s.strPtr, rfl, rfl, by rw [List.take_zero, List.append_nil]; exact h⟩
  · obtain ⟨cat, hcat, closed, hclose, hsize, hholds⟩ := strncat_gives h src.nonzero hroom
    refine ⟨closed, ?_, hsize, hholds⟩
    simp only [hcat, hclose, Option.bind_eq_bind, Option.bind_some]

theorem DString.appendTo_meets {heap : Heap} (hheap : heap.Succeeds) {s : DString} {t : List UInt8}
    (h : s.Valid t) {src : CString} {op : TextOp} {n : Nat} (within : n ≤ src.chars.length)
    (hop : ideal op t = t ++ src.chars.take n) :
    ∃ s', s.appendTo heap src n = some s' ∧ DString.Meets op s s' ∧ DString.Keeps op s s' := by
  have hlt := h.holds.length_lt
  have hmax : s.maxStrLen = s.strPtr.length - 1 := rfl
  have hideal : (ideal op t).length = t.length + n := by
    rw [hop, List.length_append, List.length_take]
    omega
  simp only [DString.appendTo, h.holds.strlen_eq]
  split_ifs with hbig
  · have hfits := lt_calcMemSize s.blockSize (s.maxStrLen + n)
    obtain ⟨ptr, hgrow, hsized, hptr⟩ :=
      DString.grow_spec (s := { s with truncated := false }) hheap h.holds
        (show t.length < calcMemSize s.blockSize (s.maxStrLen + n) by omega)
    obtain ⟨cells, hcat, hsize, hholds⟩ :=
      DString.catAt_spec (s := ⟨ptr, s.blockSize, false, false⟩) hptr src
        (show t.length + n < ptr.length by omega)
    refine ⟨⟨cells, s.blockSize, false, false⟩, ?_,
      DString.result_of h (hop ▸ hholds) rfl rfl ?_⟩
    · simp only [Int.toNat_natCast, DString.maxStrLen] at hgrow hcat ⊢
      simp only [hgrow, Option.bind_eq_bind, Option.bind_some, ↓reduceIte]
      exact hcat
    · right
      rw [hideal]
      constructor <;> simp only [DString.maxStrLen] at hsize hbig ⊢ <;> omega
  · obtain ⟨cells, hcat, hsize, hholds⟩ :=
      DString.catAt_spec (s := { s with truncated := false }) h.holds src
        (show t.length + n < s.strPtr.length by simp only [DString.maxStrLen] at hbig; omega)
    exact ⟨{ s with strPtr := cells, truncated := false }, hcat,
      DString.result_of h (hop ▸ hholds) rfl h.memory (.inl hsize)⟩

theorem DString.insertFitting_spec {s : DString} {t : List UInt8} (h : Holds s.strPtr t)
    (stringToInsert : CString) {off : Nat} (hoff : off < t.length)
    (hroom : t.length + stringToInsert.chars.length < s.strPtr.length) :
    ∃ cells, s.insertFitting stringToInsert t.length off =
        some { s with strPtr := cells, truncated := false } ∧ cells.length = s.strPtr.length ∧
      Holds cells (t.take off ++ stringToInsert.chars ++ t.drop off) := by
  obtain ⟨moved, closed, filled, hmoved, hclosed, hfilled, hsize, hholds⟩ :=
    shift_insert h (Nat.le_of_lt hoff) (Nat.le_refl (t.length - off)) stringToInsert.nonzero
      (by omega)
  rw [← List.length_drop, List.take_length] at hholds
  refine ⟨filled, ?_, hsize, hholds⟩
  simp only [DString.insertFitting, hmoved, hclosed, hfilled, Option.bind_eq_bind,
    Option.bind_some]

theorem DString.insertAt_meets {heap : Heap} (hheap : heap.Succeeds) {s : DString} {t : List UInt8}
    (h : s.Valid t) (insertOffset : Int) (stringToInsert : CString) :
    ∃ s', s.insertAt heap insertOffset stringToInsert = some s' ∧
      DString.Meets (.insertAt insertOffset stringToInsert) s s' ∧
      DString.Keeps (.insertAt insertOffset stringToInsert) s s' := by
  have hmax : s.maxStrLen = s.strPtr.length - 1 := rfl
  have hlt := h.holds.length_lt
  simp only [DString.insertAt, h.holds.strlen_eq]
  split_ifs with hpast hbig
  · apply DString.appendTo_meets hheap h (Nat.le_refl _)
    simp only [ideal, List.take_of_length_le hpast, List.drop_of_length_le hpast, List.append_nil,
      List.take_length]
  · have hfits := lt_calcMemSize s.blockSize (t.length + stringToInsert.chars.length)
    obtain ⟨ptr, hgrow, hsized, hptr⟩ := DString.grow_spec hheap h.holds
      (show t.length < calcMemSize s.blockSize (t.length + stringToInsert.chars.length) by omega)
    obtain ⟨cells, hinsert, hsize, hholds⟩ :=
      DString.insertFitting_spec (s := { s with strPtr := ptr, noMemory := false }) hptr
        stringToInsert (Nat.lt_of_not_le hpast)
        (show t.length + stringToInsert.chars.length < ptr.length by omega)
    refine ⟨⟨cells, s.blockSize, false, false⟩, ?_, DString.result_of h hholds rfl rfl ?_⟩
    · simp only [hgrow, Option.bind_eq_bind, Option.bind_some, ↓reduceIte]
      exact hinsert
    · right
      simp only [ideal, List.length_append, List.length_take, List.length_drop]
      constructor <;> simp only at hsize ⊢ <;> omega
  · obtain ⟨cells, hinsert, hsize, hholds⟩ :=
      DString.insertFitting_spec h.holds stringToInsert (Nat.lt_of_not_le hpast) (by omega)
    exact ⟨{ s with strPtr := cells, truncated := false }, hinsert,
      DString.result_of h hholds rfl h.memory (.inl hsize)⟩

theorem DString.edit_meets {s : DString} {t : List UInt8} (h : s.Valid t) {op : TextOp}
    {f : List UInt8 → Option (List UInt8)} (hf : edit op = some f)
    (hroom : op = .removeTrailingSpaces → 2 ≤ s.strPtr.length) :
    ∃ s', ((edit op).bind fun f => f s.strPtr).map
        (fun cells => { s with strPtr := cells, truncated := false }) = some s' ∧
      DString.Meets op s s' ∧ DString.Keeps op s s' := by
  have hwide : op = .removeTrailingSpaces → t ≠ [] ∨ 1 < s.strPtr.length :=
    fun hop => .inr (hroom hop)
  obtain ⟨cells, hcells, hsize, hholds⟩ := edit_gives hf h.holds hwide
  refine ⟨{ s with strPtr := cells, truncated := false }, ?_,
    DString.result_of h hholds rfl h.memory (.inl hsize)⟩
  rw [hf, Option.bind_some, hcells, Option.map_some]

theorem DString.apply_meets {heap : Heap} (hheap : heap.Succeeds) {s : DString} {t : List UInt8}
    (h : s.Valid t) {op : TextOp} (hlen : op.LengthNonneg)
    (hroom : op = .removeTrailingSpaces → 2 ≤ s.strPtr.length) :
    ∃ s', s.apply heap op = some s' ∧ DString.Meets op s s' ∧ DString.Keeps op s s' := by
  cases op with
  | copyIn src len within => exact DString.copyIn_meets hheap h within hlen
  | appendTo src len within =>
      obtain ⟨n, rfl⟩ := Int.eq_ofNat_of_zero_le hlen
      exact DString.appendTo_meets hheap h (Int.ofNat_le.mp within) rfl
  | insertAt insertOffset stringToInsert =>
      exact DString.insertAt_meets hheap h insertOffset stringToInsert
  | cut startpos endpos => exact DString.edit_meets h rfl hroom
  | trimRight n => exact DString.edit_meets h rfl hroom
  | removeLeadingSpaces => exact DString.edit_meets h rfl hroom
  | removeTrailingSpaces => exact DString.edit_meets h rfl hroom
  | replace targetChar newChar nonzero => exact DString.edit_meets h rfl hroom
  | clear => exact DString.edit_meets h rfl hroom

theorem DString.lengthNonneg_of_meets {heap : Heap} {s s' : DString} {t : List UInt8}
    (h : s.Valid t) {op : TextOp} (happly : s.apply heap op = some s')
    (hmeets : DString.Meets op s s') : op.LengthNonneg := by
  cases op with
  | copyIn src len within =>
      by_contra hneg
      rw [TextOp.LengthNonneg, Int.not_le] at hneg
      have hsmall : ¬((s.maxStrLen : Int) < len) := by omega
      simp only [DString.maxStrLen] at hsmall
      simp only [DString.apply, DString.copyIn, DString.maxStrLen, if_neg hsmall,
        DString.validateAndCopy, h.memory, Bool.false_eq_true, ↓reduceIte,
        strncpy_negative _ _ hneg, Option.bind_eq_bind, Option.bind_none, reduceCtorEq] at happly
  | appendTo src len within =>
      by_contra hneg
      rw [TextOp.LengthNonneg, Int.not_le] at hneg
      have hsmall : ¬(((s.strPtr.length - 1 - t.length : Nat) : Int) < len) := by omega
      simp only [DString.apply, DString.appendTo, DString.maxStrLen, h.holds.strlen_eq,
        if_neg hsmall, DString.catAt, if_neg (Int.ne_of_lt hneg)] at happly
      obtain ⟨cat, hcat, hrest⟩ := Option.bind_eq_some_iff.mp happly
      obtain ⟨closed, hclose, hs'⟩ := Option.bind_eq_some_iff.mp hrest
      apply append_negative h.holds src.nonzero hneg hcat hclose
      have hholds := hmeets.holds
      rw [← Option.some.inj hs', h.holds.text_eq, ideal, Int.toNat_of_nonpos (Int.le_of_lt hneg),
        List.take_zero, List.append_nil] at hholds
      exact hholds
  | insertAt insertOffset stringToInsert => exact trivial
  | cut startpos endpos => exact trivial
  | trimRight n => exact trivial
  | removeLeadingSpaces => exact trivial
  | removeTrailingSpaces => exact trivial
  | replace targetChar newChar nonzero => exact trivial
  | clear => exact trivial

/-- The sequence runs to its end, and every operation of it leaves what it should. -/
def DString.Refines (s : DString) : List (Heap × TextOp) → Prop
  | [] => True
  | (heap, op) :: ops => ∃ s', s.apply heap op = some s' ∧ DString.Meets op s s' ∧ s'.Refines ops

/-- No trailing spaces are removed before the first operation that stores a character. -/
def StoresFirst : List TextOp → Prop
  | [] => True
  | op :: ops => op ≠ .removeTrailingSpaces ∧ (ideal op [] ≠ [] ∨ StoresFirst ops)

theorem DString.not_removeTrailingSpaces_of_apply {heap : Heap} {s s' : DString} {t : List UInt8}
    (h : s.Valid t) {op : TextOp} (happly : s.apply heap op = some s')
    (hsingle : s.strPtr.length = 1) : op ≠ .removeTrailingSpaces := by
  rintro rfl
  obtain ⟨hcells, -⟩ := holds_single h.holds hsingle
  simp [DString.apply, edit, hcells, removeTrailingSpaces_single] at happly

theorem DString.refines_iff {s : DString} {t : List UInt8} (h : s.Valid t)
    (ops : List (Heap × TextOp)) (hheaps : ∀ a ∈ ops, a.1.Succeeds) :
    s.Refines ops ↔ (∀ a ∈ ops, a.2.LengthNonneg) ∧
      (2 ≤ s.strPtr.length ∨ StoresFirst (ops.map Prod.snd)) := by
  induction ops generalizing s t with
  | nil => simp [DString.Refines, StoresFirst]
  | cons head ops ih =>
      obtain ⟨heap, op⟩ := head
      obtain ⟨hheap, hheaps⟩ := List.forall_mem_cons.mp hheaps
      have hpos := h.holds.length_lt
      have hnext : ∀ s', DString.Meets op s s' → s'.noMemory = false →
          (s'.Refines ops ↔ (∀ a ∈ ops, a.2.LengthNonneg) ∧
            (2 ≤ s'.strPtr.length ∨ StoresFirst (ops.map Prod.snd))) :=
        fun s' hmeets hmemory => ih ⟨hmeets.holds, hmemory⟩ hheaps
      constructor
      · rintro ⟨s', happly, hmeets, hrest⟩
        have hlen := DString.lengthNonneg_of_meets h happly hmeets
        have hroom : op = .removeTrailingSpaces → 2 ≤ s.strPtr.length := by
          intro hop
          by_contra hsmall
          exact DString.not_removeTrailingSpaces_of_apply h happly (by omega) hop
        obtain ⟨s'', happly', -, hkeeps⟩ := DString.apply_meets hheap h hlen hroom
        rw [happly] at happly'
        obtain rfl := Option.some.inj happly'
        obtain ⟨hlens, hafter⟩ := (hnext s' hmeets hkeeps.memory).mp hrest
        refine ⟨List.forall_mem_cons.mpr ⟨hlen, hlens⟩, ?_⟩
        rcases Nat.lt_or_ge s.strPtr.length 2 with hsmall | hwide
        · right
          refine ⟨fun hop => Nat.not_le.mpr hsmall (hroom hop), ?_⟩
          rcases hafter with hafter | hafter
          · left
            intro hnil
            obtain ⟨-, ht⟩ := holds_single h.holds (by omega)
            have hstays := hkeeps.stays
            rw [h.holds.text_eq, ht, hnil] at hstays
            have hsame := hstays (by rw [List.length_nil]; omega)
            omega
          · exact .inr hafter
        · exact .inl hwide
      · rintro ⟨hlens, hsafe⟩
        obtain ⟨hlen, hlens⟩ := List.forall_mem_cons.mp hlens
        have hroom : op = .removeTrailingSpaces → 2 ≤ s.strPtr.length := by
          intro hop
          exact hsafe.resolve_right fun hstores => hstores.1 hop
        obtain ⟨s', happly, hmeets, hkeeps⟩ := DString.apply_meets hheap h hlen hroom
        refine ⟨s', happly, hmeets, (hnext s' hmeets hkeeps.memory).mpr ⟨hlens, ?_⟩⟩
        have hgrows := hkeeps.grows
        rcases Nat.lt_or_ge s.strPtr.length 2 with hsmall | hwide
        · obtain ⟨-, hstores⟩ := hsafe.resolve_left (Nat.not_le.mpr hsmall)
          rcases hstores with hstores | hstores
          · left
            obtain ⟨-, ht⟩ := holds_single h.holds (by omega)
            have hlt := hmeets.holds.length_lt
            rw [h.holds.text_eq, ht] at hlt
            have hsome := List.length_pos_of_ne_nil hstores
            omega
          · exact .inr hstores
        · exact .inl (Nat.le_trans hwide hgrows)

theorem DString.construct_valid {heap : Heap} (hheap : heap.Succeeds) (string : CString)
    (initialSize : Int) (blocksize : ℕ+) :
    ∃ s, DString.construct heap string initialSize blocksize = some s ∧
      s.strPtr.length =
        calcMemSize blocksize (max (string.chars.length : Int) initialSize).toNat ∧
      s.Valid string.chars := by
  obtain ⟨memory, hnew⟩ :=
    hheap (calcMemSize blocksize (max (string.chars.length : Int) initialSize).toNat)
  have hsized := heap.sized _ _ hnew
  have hfits := lt_calcMemSize blocksize (max (string.chars.length : Int) initialSize).toNat
  obtain ⟨cells, hcopy, hsize, hholds⟩ :=
    DString.validateAndCopy_spec (s := ⟨memory, blocksize, false, false⟩) rfl string
      (show string.chars.length < memory.length by omega)
  rw [List.take_length] at hholds
  refine ⟨⟨cells, blocksize, false, false⟩, ?_, hsize.trans hsized, hholds, rfl⟩
  simp only [DString.construct, hnew]
  exact hcopy

/-! Both strings -/

/-- Both strings do what the ideal operations do, exactly as long as no length is negative and no
trailing spaces are removed from a string whose storage is its terminator alone. -/
theorem strings_refine_iff (string : CString) (N : Nat) (memory : List UInt8)
    (hmemory : memory.length = N + 1) (ops : List TextOp) (heap : Heap) (hheap : heap.Succeeds)
    (initialSize : Int) (blocksize : ℕ+) (heapOps : List (Heap × TextOp))
    (hheaps : ∀ a ∈ heapOps, a.1.Succeeds) :
    ((∃ s, FString.construct string memory N = some s ∧ s.Refines ops) ↔
      (∀ op ∈ ops, op.LengthNonneg) ∧ (1 ≤ N ∨ .removeTrailingSpaces ∉ ops)) ∧
    ((∃ s, DString.construct heap string initialSize blocksize = some s ∧ s.Refines heapOps) ↔
      (∀ a ∈ heapOps, a.2.LengthNonneg) ∧
        (2 ≤ calcMemSize blocksize (max (string.chars.length : Int) initialSize).toNat ∨
          StoresFirst (heapOps.map Prod.snd))) := by
  constructor
  · obtain ⟨s, hconstruct, hcapacity, hvalid⟩ := FString.construct_valid string hmemory
    rw [← hcapacity, ← FString.refines_iff hvalid ops, hcapacity, hconstruct]
    simp
  · obtain ⟨s, hconstruct, hsize, hvalid⟩ :=
      DString.construct_valid hheap string initialSize blocksize
    rw [← hsize, ← DString.refines_iff hvalid heapOps hheaps, hconstruct]
    simp

/-- A heap with no limit, whose memory is clear. -/
def clearHeap : Heap where
  new n := some (List.replicate n 0)
  sized := by
    intro n memory hnew
    rw [← Option.some.inj hnew, List.length_replicate]

theorem strings_refine_short :
    (∃ s, FString.construct ⟨[], by decide⟩ [7, 7, 7, 7] 3 = some s ∧
      s.Refines [.insertAt 1 ⟨[97, 32, 98, 32], by decide⟩, .removeTrailingSpaces]) ∧
    (∃ s, DString.construct clearHeap ⟨[], by decide⟩ 0 1 = some s ∧
      s.Refines [(clearHeap, .appendTo ⟨[97, 32], by decide⟩ 2 (by decide)),
        (clearHeap, .removeTrailingSpaces)]) := by
  have hheap : clearHeap.Succeeds := fun n => ⟨_, rfl⟩
  have hboth := strings_refine_iff ⟨[], by decide⟩ 3 [7, 7, 7, 7] rfl
    [.insertAt 1 ⟨[97, 32, 98, 32], by decide⟩, .removeTrailingSpaces] clearHeap hheap 0 1
    [(clearHeap, .appendTo ⟨[97, 32], by decide⟩ 2 (by decide)), (clearHeap, .removeTrailingSpaces)]
    (by simp [hheap])
  constructor
  · refine hboth.1.mpr ⟨?_, .inl (by decide)⟩
    simp [TextOp.LengthNonneg]
  · refine hboth.2.mpr ⟨?_, .inr ?_⟩
    · simp [TextOp.LengthNonneg]
    · simp [StoresFirst, ideal]

/-- Removing trailing spaces from an empty string of capacity zero writes behind its storage. -/
theorem strings_empty_overrun :
    ¬(∀ (N : Nat) (memory : List UInt8) (string : CString) (ops : List TextOp),
      memory.length = N + 1 → (∀ op ∈ ops, op.LengthNonneg) →
        ∃ s, FString.construct string memory N = some s ∧ s.Refines ops) ∧
    ¬(∀ (heap : Heap) (string : CString) (initialSize : Int) (blocksize : ℕ+)
      (ops : List (Heap × TextOp)), heap.Succeeds → (∀ a ∈ ops, a.1.Succeeds) →
        (∀ a ∈ ops, a.2.LengthNonneg) →
        ∃ s, DString.construct heap string initialSize blocksize = some s ∧ s.Refines ops) := by
  constructor
  · intro hall
    obtain ⟨s, hconstruct, s', happly, -⟩ :=
      hall 0 [7] ⟨[], by decide⟩ [.removeTrailingSpaces] rfl (by simp [TextOp.LengthNonneg])
    have hs : s = ⟨[0], 0, false⟩ := by
      have heval : FString.construct ⟨[], by decide⟩ [7] 0 = some ⟨[0], 0, false⟩ := by decide
      exact Option.some.inj (hconstruct.symm.trans heval)
    subst hs
    simp [FString.apply, edit, removeTrailingSpaces_single] at happly
  · intro hall
    have hheap : clearHeap.Succeeds := fun n => ⟨_, rfl⟩
    obtain ⟨s, hconstruct, s', happly, -⟩ :=
      hall clearHeap ⟨[], by decide⟩ 0 1 [(clearHeap, .removeTrailingSpaces)] hheap
        (by simp [hheap]) (by simp [TextOp.LengthNonneg])
    have hs : s = ⟨[0], 1, false, false⟩ := by
      have heval : DString.construct clearHeap ⟨[], by decide⟩ 0 1 = some ⟨[0], 1, false, false⟩ := by
        decide
      exact Option.some.inj (hconstruct.symm.trans heval)
    subst hs
    simp [DString.apply, edit, removeTrailingSpaces_single] at happly

end ColonyPico.Text.StringRefinement
