import ColonyPico.Text.StringRefinement

/-!
Appending and formatting on the bounded string, as the encoders of this directory use it.
-/

namespace ColonyPico.Text.StringAppend

open Foundations.TerminatedText StringEdits StringRefinement

/-- The string in front of the first NUL. -/
def cstring (cells : List UInt8) : CString :=
  ⟨text cells, zero_notMem_text cells⟩

/-- A string literal. -/
def literal (s : String) : CString :=
  cstring (s.toList.map fun c => UInt8.ofNat c.toNat)

def clear (s : FString) : Option FString :=
  (StringEdits.clear s.strPtr).map fun cells => { s with strPtr := cells, truncated := false }

/-- `operator +=( char )`. -/
def appendChar (s : FString) (c : UInt8) : Option FString :=
  s.appendTo (cstring [c]) 1

/-- `operator +=( const char* )`. -/
def appendString (s : FString) (string : CString) : Option FString :=
  s.appendTo string string.chars.length

/-- `vsnprintf()` of a text that is formatted already. -/
def vsnprintf (cells : List UInt8) (off size : Nat) (formatted : List UInt8) :
    Option (List UInt8) :=
  if size = 0 then some cells else write cells off (formatted.take (size - 1) ++ [0])

def validateSizeAfterFormat (s : FString) (availableLen formattedLen : Int) : Option FString :=
  if formattedLen ≤ availableLen ∧ formattedLen ≥ 0 then some { s with truncated := false }
  else (poke s.strPtr s.internalMaxlen 0).map fun cells =>
    { s with strPtr := cells, truncated := true }

def format (s : FString) (formatted : List UInt8) : Option FString := do
  let cells ← vsnprintf s.strPtr 0 (s.internalMaxlen + 1) formatted
  validateSizeAfterFormat { s with strPtr := cells } s.internalMaxlen formatted.length

def formatAppend (s : FString) (formatted : List UInt8) : Option FString := do
  let len := strlen s.strPtr
  let avail := s.internalMaxlen - len
  let cells ← vsnprintf s.strPtr len (avail + 1) formatted
  validateSizeAfterFormat { s with strPtr := cells } avail formatted.length

/-- The string holds a text, whole. -/
structure Holding (maxlen : Nat) (t : List UInt8) (s : FString) : Prop where
  valid : s.Valid t
  capacity : s.internalMaxlen = maxlen
  whole : s.truncated = false

variable {maxlen : Nat} {s : FString} {t : List UInt8}

theorem clear_holding (h : s.Valid t) :
    ∃ s', clear s = some s' ∧ Holding s.internalMaxlen [] s' := by
  have hroom : 0 < s.strPtr.length := by
    rw [h.sized]
    exact Nat.succ_pos _
  obtain ⟨cells, hclear, hsize, hholds⟩ := h.holds.poke_zero hroom
  refine ⟨{ s with strPtr := cells, truncated := false }, ?_, ⟨hholds, hsize.trans h.sized⟩, rfl,
    rfl⟩
  rw [clear, StringEdits.clear, hclear, Option.map_some]

theorem appendString_holding (h : Holding maxlen t s) (string : CString)
    (hroom : t.length + string.chars.length ≤ maxlen) :
    ∃ s', appendString s string = some s' ∧ Holding maxlen (t ++ string.chars) s' := by
  have within : (string.chars.length : Int) ≤ string.chars.length := Int.le_refl _
  have hideal : ideal (.appendTo string string.chars.length within) t = t ++ string.chars := by
    simp only [ideal, Int.toNat_natCast, List.take_length]
  obtain ⟨s', happend, hmeets⟩ := @FString.appendTo_meets s t h.valid string
    (.appendTo string string.chars.length within) string.chars.length (Nat.le_refl _)
    (by rw [hideal, List.take_length])
  have hfits : (t ++ string.chars).length ≤ s.internalMaxlen := by
    rw [List.length_append, h.capacity]
    exact hroom
  have hholds := hmeets.holds
  have htruncated := hmeets.truncated
  rw [h.valid.holds.text_eq, hideal] at hholds htruncated
  rw [List.take_of_length_le hfits] at hholds
  refine ⟨s', happend, ⟨hholds, ?_⟩, hmeets.capacity.trans h.capacity, ?_⟩
  · rw [hmeets.sized, hmeets.capacity]
  · exact Bool.eq_false_iff.2 fun htrue => Nat.not_lt.2 hfits (htruncated.1 htrue)

theorem chars_cstring {cells : List UInt8} (h : (0 : UInt8) ∉ cells) :
    (cstring cells).chars = cells :=
  text_eq_self h

theorem appendChar_holding (h : Holding maxlen t s) {c : UInt8} (hc : c ≠ 0)
    (hroom : t.length < maxlen) :
    ∃ s', appendChar s c = some s' ∧ Holding maxlen (t ++ [c]) s' := by
  have hchars : (cstring [c]).chars = [c] :=
    chars_cstring (by rw [List.mem_singleton]; exact hc.symm)
  have happend := appendString_holding h (cstring [c])
    (by rw [hchars, List.length_singleton]; exact hroom)
  rw [appendString, hchars] at happend
  exact happend

theorem format_holding (h : s.Valid t) {formatted : List UInt8} (hfree : (0 : UInt8) ∉ formatted)
    (hroom : formatted.length ≤ s.internalMaxlen) :
    ∃ s', format s formatted = some s' ∧ Holding s.internalMaxlen formatted s' := by
  obtain ⟨b, c, hsplit, hb⟩ := exists_split s.strPtr
    (show (formatted ++ [0]).length ≤ s.strPtr.length by
      rw [h.sized, List.length_append, List.length_singleton]
      omega)
  have hwrite : write s.strPtr 0 (formatted ++ [0]) = some (formatted ++ [0] ++ c) := by
    rw [hsplit]
    exact write_append (a := []) rfl hb
  have hlength := length_of_write hwrite
  have hcells : Holds (formatted ++ [0] ++ c) formatted := by
    rw [List.append_assoc]
    exact holds_append hfree
  refine ⟨{ s with strPtr := formatted ++ [0] ++ c, truncated := false }, ?_,
    ⟨hcells, hlength.trans h.sized⟩, rfl, rfl⟩
  rw [format, vsnprintf, if_neg (Nat.succ_ne_zero _), Nat.add_sub_cancel,
    List.take_of_length_le hroom, hwrite]
  exact if_pos ⟨Int.ofNat_le.2 hroom, Int.natCast_nonneg _⟩

end ColonyPico.Text.StringAppend
