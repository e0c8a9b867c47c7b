import ColonyPico.Foundations.TerminatedText
import Mathlib.Tactic.SplitIfs

/-!
The editing operations every string type shares (`Cpl::Text::String_`), the white-space helpers they
call, and the C library functions the string types are built from.  A result of `none` is a write
outside the storage of the string.
-/

namespace ColonyPico.Text.StringEdits

open ColonyPico.Foundations.TerminatedText

/-- The characters of a zero-terminated argument. -/
structure CString where
  chars : List UInt8
  nonzero : (0 : UInt8) ∉ chars
  deriving DecidableEq

def isspace (c : UInt8) : Bool :=
  c = 32 || (9 ≤ c && c ≤ 13)

theorem isspace_zero : isspace 0 = false := by
  decide

/-! C library -/

def strncpy (cells src : List UInt8) (n : Int) : Option (List UInt8) :=
  -- a negative count becomes a size that no storage has, and the padding runs over the end
  if n < 0 then none
  else write cells 0 (src.take n.toNat ++ List.replicate (n.toNat - src.length) 0)

def strncat (cells src : List UInt8) (n : Int) : Option (List UInt8) :=
  let count := if n < 0 then src.length else n.toNat
  write cells (strlen cells) (src.take count ++ [0])

def strcpy (cells src : List UInt8) : Option (List UInt8) :=
  write cells 0 (text src ++ [0])

def memmove (cells : List UInt8) (dest source n : Nat) : Option (List UInt8) :=
  if source + n ≤ cells.length then write cells dest ((cells.drop source).take n) else none

def store (cells : List UInt8) (i : Int) (c : UInt8) : Option (List UInt8) :=
  if i < 0 then none else poke cells i.toNat c

/-! Operations -/

def clear (cells : List UInt8) : Option (List UInt8) :=
  poke cells 0 0

/-- How far `stripSpace` moves its pointer. -/
def stripSpace : List UInt8 → Nat
  | [] => 0
  | c :: cells => if c ≠ 0 && isspace c then stripSpace cells + 1 else 0

/-- The loop of `removeLeadingSpaces`, which measures the string again in every pass while it
overwrites it. -/
def copyDown (p : Nat) : Nat → Nat → List UInt8 → Option (List UInt8)
  | 0, _, _ => none
  | fuel + 1, i, cells =>
      if i < strlen (cells.drop p) then do
        let c ← cells[p + i]?
        let cells ← poke cells i c
        copyDown p fuel (i + 1) cells
      else poke cells i 0

def removeLeadingSpaces (cells : List UInt8) : Option (List UInt8) :=
  let p := stripSpace cells
  if p = 0 then some cells else copyDown p (cells.length + 1) 0 cells

def isspaceAt (cells : List UInt8) (p : Nat) : Bool :=
  cells[p]?.any isspace

/-- The walk of `stripTrailingSpace` from the right. -/
def walkLeft (cells : List UInt8) : Nat → Nat
  | 0 => 0
  | p + 1 => if isspaceAt cells (p + 1) then walkLeft cells p else p + 1

def stripTrailingSpace (cells : List UInt8) : Nat :=
  if strlen cells = 0 then 0 else walkLeft cells (strlen cells - 1)

def removeTrailingSpace (cells : List UInt8) : Option (List UInt8) :=
  let p := stripTrailingSpace cells
  if isspaceAt cells p then poke cells p 0 else poke cells (p + 1) 0

def removeTrailingSpaces (cells : List UInt8) : Option (List UInt8) :=
  removeTrailingSpace cells

def trimRight (cells : List UInt8) (n : Int) : Option (List UInt8) :=
  let len : Int := strlen cells
  let index := len - n
  if index < 0 ∨ n < 0 then some cells else store cells index 0

def cut (cells : List UInt8) (startpos endpos : Int) : Option (List UInt8) :=
  let len : Int := strlen cells
  if startpos < 0 ∨ startpos > endpos ∨ startpos ≥ len ∨ endpos ≥ len then some cells
  else if endpos + 1 ≥ len then trimRight cells (len - startpos)
  else do
    let movelen := len - (endpos + 1)
    let cells ← memmove cells startpos.toNat (endpos + 1).toNat movelen.toNat
    store cells (startpos + movelen) 0

def replaceChars (targetChar newChar : UInt8) : List UInt8 → List UInt8 × Nat
  | [] => ([], 0)
  | c :: cells =>
      if c = 0 then (c :: cells, 0)
      else
        let (rest, replaceCount) := replaceChars targetChar newChar cells
        if c = targetChar then (newChar :: rest, replaceCount + 1) else (c :: rest, replaceCount)

def replace (targetChar newChar : UInt8) (cells : List UInt8) : List UInt8 × Nat :=
  if targetChar ≠ newChar then replaceChars targetChar newChar cells else (cells, 0)

/-! What the operations leave -/

section Specifications

variable {cells t : List UInt8} {size : Nat}

theorem store_natCast (cells : List UInt8) (i : Nat) (c : UInt8) :
    store cells (i : Int) c = poke cells i c := by
  rw [store, if_neg (Int.not_lt.mpr (Int.natCast_nonneg i)), Int.toNat_natCast]

theorem strncpy_gives {src : List UInt8} (hfree : (0 : UInt8) ∉ src) {n : Nat}
    (hn : n < cells.length) :
    ∃ cells', strncpy cells src n = some cells' ∧
      Gives (store cells' n 0) cells.length (src.take n) := by
  have hlen : (src.take n).length + (n - src.length) = n := by
    rw [List.length_take]
    omega
  have hfree' : (0 : UInt8) ∉ [] ++ src.take n := fun h0 => hfree (List.mem_of_mem_take h0)
  obtain ⟨cells', hwrite, hgives⟩ := gives_write_padded hfree' (by rw [hlen]; exact hn)
  refine ⟨cells', ?_, ?_⟩
  · rw [strncpy, if_neg (Int.not_lt.mpr (Int.natCast_nonneg n)), Int.toNat_natCast]
    exact hwrite
  · rw [List.length_nil, Nat.zero_add, hlen] at hgives
    rw [store_natCast]
    exact hgives

theorem holds_of_strncat {src cells' : List UInt8} (h : Holds cells t) {n : Int}
    (hfree : (0 : UInt8) ∉ src) (hcat : strncat cells src n = some cells') :
    Holds cells' (t ++ src.take (if n < 0 then src.length else n.toNat)) ∧
      cells'.length = cells.length := by
  refine ⟨?_, length_of_write hcat⟩
  obtain ⟨junk, hcells⟩ := h.split
  simp only [strncat, h.strlen_eq] at hcat
  generalize (if n < 0 then src.length else n.toNat) = count at hcat ⊢
  unfold write at hcat
  split at hcat
  case isTrue hfits =>
    rw [← Option.some.inj hcat]
    have htake : cells.take t.length = t := by rw [hcells, List.take_left]
    rw [htake, List.append_assoc, ← List.append_assoc t]
    apply holds_append
    intro h0
    rcases List.mem_append.mp h0 with hmem | hmem
    · exact h.nonzero hmem
    · exact hfree (List.mem_of_mem_take hmem)
  case isFalse => cases hcat

theorem strncat_gives {src : List UInt8} (h : Holds cells t) (hfree : (0 : UInt8) ∉ src) {n : Nat}
    (hroom : t.length + n < cells.length) :
    ∃ cells', strncat cells src n = some cells' ∧
      Gives (store cells' (t.length + n) 0) cells.length (t ++ src.take n) := by
  obtain ⟨cells', hcat⟩ : ∃ cells', strncat cells src n = some cells' := by
    refine ⟨_, if_pos ?_⟩
    rw [h.strlen_eq, if_neg (Int.not_lt.mpr (Int.natCast_nonneg n)), Int.toNat_natCast]
    simp only [List.length_append, List.length_take, List.length_singleton]
    omega
  obtain ⟨hholds, hlen⟩ := holds_of_strncat h hfree hcat
  rw [if_neg (Int.not_lt.mpr (Int.natCast_nonneg n)), Int.toNat_natCast] at hholds
  refine ⟨cells', hcat, ?_⟩
  have hgives := hholds.poke_zero (show t.length + n < cells'.length by omega)
  rw [List.take_of_length_le (by rw [List.length_append, List.length_take]; omega), hlen] at hgives
  rw [show (t.length : Int) + n = ((t.length + n : Nat) : Int) from rfl, store_natCast]
  exact hgives

theorem strcpy_gives {src : List UInt8} (h : Holds src t) (hroom : t.length < cells.length) :
    Gives (strcpy cells src) cells.length t := by
  obtain ⟨b, rest, rfl, hb⟩ := exists_split cells (Nat.succ_le_of_lt hroom)
  have hwrite : write (b ++ rest) 0 (t ++ [0]) = some (t ++ [0] ++ rest) :=
    write_append (a := []) rfl (by simpa using hb)
  refine ⟨t ++ [0] ++ rest, ?_, ?_, ?_⟩
  · rw [strcpy, h.text_eq]
    exact hwrite
  · exact length_of_write hwrite
  · rw [List.append_assoc]
    exact holds_append h.nonzero

/-- The two steps of an insertion: the tail moves right and is terminated, then the inserted
characters fill the gap. -/
theorem shift_insert (h : Holds cells t) {off m : Nat} {block : List UInt8} (hoff : off ≤ t.length)
    (hm : m ≤ t.length - off) (hfree : (0 : UInt8) ∉ block)
    (hroom : off + block.length + m < cells.length) :
    ∃ moved closed filled, memmove cells (off + block.length) off m = some moved ∧
      poke moved (off + block.length + m) 0 = some closed ∧
      write closed off block = some filled ∧ filled.length = cells.length ∧
      Holds filled (t.take off ++ block ++ (t.drop off).take m) := by
  obtain ⟨junk, hcells⟩ := h.split
  have hread : (cells.drop off).take m = (t.drop off).take m := by
    rw [hcells, List.drop_append_of_le_length hoff, List.take_append_of_le_length]
    rw [List.length_drop]
    exact hm
  have hlen : ((t.drop off).take m).length = m := by
    rw [List.length_take, List.length_drop]
    omega
  obtain ⟨start, rest, hsplit, hstart⟩ := exists_split cells (show off ≤ cells.length by omega)
  have hstart' : start = t.take off := by
    have htake : cells.take off = t.take off := by
      rw [hcells, List.take_append_of_le_length hoff]
    rw [← htake, hsplit, ← hstart, List.take_left]
  have hsize := congrArg List.length hsplit
  rw [List.length_append] at hsize
  obtain ⟨gap, rest', rfl, hgap⟩ := exists_split rest (show block.length ≤ rest.length by omega)
  rw [List.length_append] at hsize
  obtain ⟨tail, rest'', rfl, htail⟩ := exists_split rest' (show m ≤ rest'.length by omega)
  rw [List.length_append] at hsize
  rcases rest'' with _ | ⟨x, rest''⟩
  · rw [List.length_nil] at hsize
    omega
  · refine ⟨(start ++ gap) ++ ((t.drop off).take m ++ x :: rest''),
      (start ++ gap ++ (t.drop off).take m) ++ 0 :: rest'',
      start ++ (block ++ ((t.drop off).take m ++ 0 :: rest'')), ?_, ?_, ?_, ?_, ?_⟩
    · rw [memmove, if_pos (by omega), hread, hsplit, ← List.append_assoc]
      exact write_append (by rw [List.length_append]; omega) (by omega)
    · rw [← List.append_assoc]
      exact poke_append (by simp only [List.length_append]; omega)
    · rw [List.append_assoc, List.append_assoc]
      exact write_append hstart hgap
    · simp only [List.length_append, List.length_cons] at hsize ⊢
      omega
    · rw [← hstart', ← List.append_assoc, ← List.append_assoc]
      apply holds_append
      intro h0
      rcases List.mem_append.mp h0 with hmem | hmem
      · rcases List.mem_append.mp hmem with hmem | hmem
        · exact h.nonzero (List.mem_of_mem_take (hstart' ▸ hmem))
        · exact hfree hmem
      · exact h.nonzero (List.mem_of_mem_drop (List.mem_of_mem_take hmem))

theorem clear_gives (h : Holds cells t) : Gives (clear cells) cells.length [] := by
  have hpos : 0 < cells.length := Nat.lt_of_le_of_lt (Nat.zero_le _) h.length_lt
  exact h.poke_zero hpos

theorem trimRight_gives (h : Holds cells t) (n : Int) :
    Gives (trimRight cells n) cells.length
      (if 0 ≤ n ∧ n ≤ t.length then t.take (t.length - n.toNat) else t) := by
  unfold trimRight
  simp only [h.strlen_eq]
  split_ifs with hskip hin hin
  · omega
  · exact gives_some rfl h
  · have hindex : (t.length : Int) - n = ((t.length - n.toNat : Nat) : Int) := by omega
    have hlt := h.length_lt
    rw [hindex, store_natCast]
    exact h.poke_zero (by omega)
  · omega

theorem stripSpace_eq (t junk : List UInt8) (hfree : (0 : UInt8) ∉ t) :
    stripSpace (t ++ 0 :: junk) = (t.takeWhile isspace).length := by
  induction t with
  | nil => rfl
  | cons c t ih =>
      simp only [List.mem_cons, not_or] at hfree
      rw [List.cons_append, stripSpace, List.takeWhile_cons]
      rcases hspace : isspace c with _ | _
      · simp
      · have hc : c ≠ 0 := fun h0 => hfree.1 h0.symm
        simp [hc, ih hfree.2]

/-- What holds after `i` passes: the new text is in place up to `i`, its rest is still where it was,
and the overwritten source still has its length. -/
structure CopiedDown (p i : Nat) (cells rest : List UInt8) : Prop where
  done : cells.take i = rest.take i
  ahead : ∀ j, i ≤ j → j < rest.length → cells[p + j]? = rest[j]?
  source : ∃ u, Holds (cells.drop p) u ∧ u.length = rest.length
  behind : i ≤ rest.length

theorem CopiedDown.step {p i : Nat} {cells rest : List UInt8} (h : CopiedDown p i cells rest)
    (hfree : (0 : UInt8) ∉ rest) (hp : 0 < p) (hi : i < rest.length) :
    ∃ next, (cells[p + i]? >>= fun c => poke cells i c) = some next ∧
      next.length = cells.length ∧ CopiedDown p (i + 1) next rest := by
  obtain ⟨u, hu, hulen⟩ := h.source
  have hroom := hu.length_lt
  rw [List.length_drop] at hroom
  have hread : cells[p + i]? = some (rest[i]) := by
    rw [h.ahead i (Nat.le_refl i) hi, List.getElem?_eq_getElem hi]
  have hne : rest[i] ≠ 0 := fun h0 => hfree (h0 ▸ List.getElem_mem hi)
  refine ⟨cells.set i rest[i], ?_, List.length_set, ?_⟩
  · rw [hread]
    exact if_pos (by omega)
  · constructor
    · have hin : i < cells.length := by omega
      rw [List.take_succ_eq_append_getElem hi, ← h.done,
        List.take_succ_eq_append_getElem (by rw [List.length_set]; exact hin),
        List.getElem_set_self, List.take_set_of_le (Nat.le_refl i)]
    · intro j hj hjlt
      rw [List.getElem?_set_ne (by omega), h.ahead j (by omega) hjlt]
    · rcases Nat.lt_or_ge i p with hlow | hhigh
      · refine ⟨u, ?_, hulen⟩
        rw [List.drop_set_of_lt hlow]
        exact hu
      · refine ⟨u.set (i - p) rest[i], ?_, by rw [List.length_set, hulen]⟩
        rw [List.drop_set, if_neg (by omega)]
        exact hu.set_nonzero hne (by omega)
    · exact hi

theorem copyDown_gives {p : Nat} {rest : List UInt8} (hfree : (0 : UInt8) ∉ rest) (hp : 0 < p) :
    ∀ (fuel i : Nat) (cells : List UInt8), CopiedDown p i cells rest →
      rest.length < i + fuel → Gives (copyDown p fuel i cells) cells.length rest := by
  intro fuel
  induction fuel with
  | zero =>
      intro i cells h hfuel
      have hbehind := h.behind
      omega
  | succ fuel ih =>
      intro i cells h hfuel
      obtain ⟨u, hu, hulen⟩ := h.source
      rw [copyDown, hu.strlen_eq, hulen]
      split_ifs with hi
      · obtain ⟨next, hnext, hlen, hcopied⟩ := h.step hfree hp hi
        obtain ⟨c, hc, hpoke⟩ := Option.bind_eq_some_iff.mp hnext
        have hgives := ih (i + 1) next hcopied (by omega)
        rw [hlen] at hgives
        simpa only [hc, hpoke, Option.bind_eq_bind, Option.bind_some] using hgives
      · have hend : i = rest.length := Nat.le_antisymm h.behind (Nat.le_of_not_lt hi)
        have hroom := hu.length_lt
        rw [List.length_drop] at hroom
        have hdone := h.done
        rw [hend, List.take_length] at hdone
        obtain ⟨a, c, hsplit, hlen⟩ := exists_split cells (show rest.length ≤ cells.length by omega)
        have ha : a = rest := by
          rw [← hdone, hsplit, ← hlen, List.take_left]
        subst ha
        rcases c with _ | ⟨x, c⟩
        · rw [hsplit, List.append_nil] at hroom
          omega
        · rw [hend, hsplit]
          exact gives_terminate hfree rfl rfl

theorem removeLeadingSpaces_gives (h : Holds cells t) :
    Gives (removeLeadingSpaces cells) cells.length (t.dropWhile isspace) := by
  obtain ⟨junk, hcells⟩ := h.split
  have hstrip : stripSpace cells = (t.takeWhile isspace).length := by
    rw [hcells]
    exact stripSpace_eq t junk h.nonzero
  have hsplit := List.takeWhile_append_dropWhile (p := isspace) (l := t)
  have hfree : (0 : UInt8) ∉ t.dropWhile isspace :=
    fun h0 => h.nonzero ((List.dropWhile_suffix _).mem h0)
  simp only [removeLeadingSpaces, hstrip]
  split_ifs with hnone
  · rw [List.length_eq_zero_iff.mp hnone, List.nil_append] at hsplit
    rw [hsplit]
    exact gives_some rfl h
  · have hdrop : cells.drop (t.takeWhile isspace).length = t.dropWhile isspace ++ 0 :: junk := by
      have hwhole : cells = t.takeWhile isspace ++ (t.dropWhile isspace ++ 0 :: junk) := by
        rw [← List.append_assoc, hsplit, hcells]
      rw [hwhole]
      exact List.drop_left
    have hstart : CopiedDown (t.takeWhile isspace).length 0 cells (t.dropWhile isspace) := by
      constructor
      · rw [List.take_zero, List.take_zero]
      · intro j _ hj
        rw [← List.getElem?_drop, hdrop, List.getElem?_append_left hj]
      · refine ⟨t.dropWhile isspace, ?_, rfl⟩
        rw [hdrop]
        exact holds_append hfree
      · exact Nat.zero_le _
    refine copyDown_gives hfree (Nat.pos_of_ne_zero hnone) _ _ _ hstart ?_
    have hlen := congrArg List.length hsplit
    have hlt := h.length_lt
    rw [List.length_append] at hlen
    omega

theorem Holds.isspaceAt_eq (h : Holds cells t) {i : Nat} (hi : i < t.length) :
    isspaceAt cells i = isspace t[i] := by
  rw [isspaceAt, h.getElem?_eq hi, List.getElem?_eq_getElem hi, Option.any_some]

/-- The walk stops at the last character to keep, or at a white-space character in front. -/
theorem walkLeft_spec (h : Holds cells t) {n : Nat} (hn : n < t.length) :
    walkLeft cells n < t.length ∧
      (t.take (n + 1)).rdropWhile isspace =
        if isspaceAt cells (walkLeft cells n) then t.take (walkLeft cells n)
        else t.take (walkLeft cells n + 1) := by
  induction n with
  | zero =>
      have hone : t.take (0 + 1) = [] ++ [t[0]] := by
        rw [List.take_succ_eq_append_getElem hn, List.take_zero]
      refine ⟨hn, ?_⟩
      rw [hone, List.rdropWhile_concat, walkLeft, Holds.isspaceAt_eq h hn, List.take_zero, hone,
        List.rdropWhile_nil]
  | succ n ih =>
      obtain ⟨hlt, heq⟩ := ih (by omega)
      have hat := Holds.isspaceAt_eq h hn
      rw [List.take_succ_eq_append_getElem hn, List.rdropWhile_concat]
      rcases hspace : isspace t[n + 1] with _ | _
      · have hstay : walkLeft cells (n + 1) = n + 1 := by simp [walkLeft, hat, hspace]
        refine ⟨by omega, ?_⟩
        simp [hstay, hat, hspace]
      · have hback : walkLeft cells (n + 1) = walkLeft cells n := by simp [walkLeft, hat, hspace]
        rw [hback]
        exact ⟨hlt, by simpa using heq⟩

theorem removeTrailingSpaces_gives (h : Holds cells t) (hroom : t ≠ [] ∨ 1 < cells.length) :
    Gives (removeTrailingSpaces cells) cells.length (t.rdropWhile isspace) := by
  have hlt := h.length_lt
  simp only [removeTrailingSpaces, removeTrailingSpace, stripTrailingSpace, h.strlen_eq]
  rcases Nat.eq_zero_or_pos t.length with hzero | hpos
  · -- the write behind an empty string
    have hnil : t = [] := List.length_eq_zero_iff.mp hzero
    subst hnil
    obtain ⟨junk, rfl⟩ := h.split
    have hwide : 1 < ([] ++ (0 : UInt8) :: junk).length := hroom.resolve_left (fun hne => hne rfl)
    have hblank : isspaceAt ([] ++ (0 : UInt8) :: junk) 0 = false := isspace_zero
    simp only [hzero, ↓reduceIte, hblank, Bool.false_eq_true]
    exact h.poke_zero hwide
  · obtain ⟨hwalk, heq⟩ := walkLeft_spec h (show t.length - 1 < t.length by omega)
    rw [Nat.sub_add_cancel hpos, List.take_length] at heq
    have hne : t.length ≠ 0 := Nat.pos_iff_ne_zero.mp hpos
    simp only [if_neg hne, heq]
    split_ifs
    · exact h.poke_zero (by omega)
    · exact h.poke_zero (by omega)

theorem removeTrailingSpaces_single : removeTrailingSpaces [0] = none := by
  decide

theorem cut_gives (h : Holds cells t) (startpos endpos : Int) :
    Gives (cut cells startpos endpos) cells.length
      (if 0 ≤ startpos ∧ startpos ≤ endpos ∧ endpos < t.length then
        t.take startpos.toNat ++ t.drop (endpos.toNat + 1) else t) := by
  have hlt := h.length_lt
  unfold cut
  simp only [h.strlen_eq]
  split_ifs with hskip hin hlast hin hin
  · omega
  · exact gives_some rfl h
  · have htrim := trimRight_gives h (t.length - startpos)
    rw [if_pos (by omega)] at htrim
    have htake : t.length - (t.length - startpos).toNat = startpos.toNat := by omega
    rw [htake] at htrim
    rw [List.drop_of_length_le (by omega), List.append_nil]
    exact htrim
  · omega
  · obtain ⟨a, ha⟩ : ∃ a, t.take startpos.toNat = a := ⟨_, rfl⟩
    obtain ⟨b, hb⟩ : ∃ b, t.drop (endpos.toNat + 1) = b := ⟨_, rfl⟩
    have halen : a.length = startpos.toNat := by
      rw [← ha, List.length_take]
      omega
    have hblen : b.length = (t.length - (endpos + 1)).toNat := by
      rw [← hb, List.length_drop]
      omega
    obtain ⟨junk, hcells⟩ := h.split
    have hread : (cells.drop (endpos + 1).toNat).take b.length = b := by
      have hend : (endpos + 1).toNat = endpos.toNat + 1 := by omega
      rw [hend, hcells, List.drop_append_of_le_length (by omega), hb, List.take_left]
    have hstart : cells = a ++ cells.drop startpos.toNat := by
      have htake : cells.take startpos.toNat = a := by
        rw [hcells, List.take_append_of_le_length (by omega), ha]
      rw [← htake, List.take_append_drop]
    have hfree : (0 : UInt8) ∉ a ++ b := by
      intro h0
      rcases List.mem_append.mp h0 with hmem | hmem
      · exact h.nonzero (List.mem_of_mem_take (ha ▸ hmem))
      · exact h.nonzero (List.mem_of_mem_drop (hb ▸ hmem))
    have hroom : b.length < (cells.drop startpos.toNat).length := by
      rw [List.length_drop]
      omega
    obtain ⟨moved, hwrite, hgives⟩ := gives_write hfree hroom
    rw [← hstart, halen] at hwrite hgives
    have hmove : memmove cells startpos.toNat (endpos + 1).toNat
        (t.length - (endpos + 1)).toNat = some moved := by
      rw [memmove, if_pos (by omega), ← hblen, hread]
      exact hwrite
    have hindex : startpos + (t.length - (endpos + 1)) =
        ((startpos.toNat + b.length : Nat) : Int) := by omega
    simpa only [hmove, hindex, store_natCast, ha, hb, Option.bind_eq_bind, Option.bind_some]
      using hgives
  · omega

theorem replaceChars_append {targetChar newChar : UInt8} (t junk : List UInt8)
    (hfree : (0 : UInt8) ∉ t) :
    (replaceChars targetChar newChar (t ++ 0 :: junk)).1 =
      t.map (fun c => if c = targetChar then newChar else c) ++ 0 :: junk := by
  induction t with
  | nil => simp [replaceChars]
  | cons c t ih =>
      simp only [List.mem_cons, not_or] at hfree
      have hc : c ≠ 0 := fun h0 => hfree.1 h0.symm
      simp only [List.cons_append, replaceChars, if_neg hc, List.map_cons]
      split_ifs
      · simp only [ih hfree.2]
      · simp only [ih hfree.2]

theorem replace_gives (h : Holds cells t) (targetChar : UInt8) {newChar : UInt8}
    (hnew : newChar ≠ 0) :
    Gives (some (replace targetChar newChar cells).1) cells.length
      (t.map (fun c => if c = targetChar then newChar else c)) := by
  unfold replace
  split_ifs with heq
  · obtain ⟨junk, rfl⟩ := h.split
    rw [replaceChars_append t junk h.nonzero]
    refine gives_some (by simp) (holds_append ?_)
    simp only [List.mem_map, not_exists, not_and]
    intro c hc
    split_ifs
    · exact hnew
    · exact fun h0 => h.nonzero (h0 ▸ hc)
  · have hsame : (fun c => if c = targetChar then newChar else c) = id := by
      funext c
      rw [Decidable.not_not.mp heq]
      split_ifs with hc
      · exact hc.symm
      · rfl
    rw [hsame, List.map_id]
    exact gives_some rfl h

end Specifications

end ColonyPico.Text.StringEdits
