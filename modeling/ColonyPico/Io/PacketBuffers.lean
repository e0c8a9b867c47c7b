import Mathlib.Algebra.Group.Nat.Defs
import Mathlib.Data.List.Basic
import Mathlib.Data.List.Flatten

/-!
The packet buffers of the network stack (`pbuf`): chains of segments with 16-bit lengths.  A chain
is the list of its segments, and the null pointer is the empty list.
-/

namespace ColonyPico.Io.PacketBuffers

structure Pbuf where
  address : Nat
  payload : List UInt8
  totLen : UInt16
  ref : UInt8
  deriving DecidableEq

def Pbuf.len (p : Pbuf) : UInt16 :=
  UInt16.ofNat p.payload.length

/-- The field `tot_len` of the first segment. -/
def totLen : List Pbuf → UInt16
  | [] => 0
  | p :: _ => p.totLen

def pbufCat (h t : List Pbuf) : List Pbuf :=
  h.map (fun p => { p with totLen := p.totLen + totLen t }) ++ t

/-- The bytes that are copied; their number is the result of the function. -/
def pbufCopyPartial : List Pbuf → UInt16 → UInt16 → List UInt8
  | [], _, _ => []
  | p :: rest, len, offset =>
      if len = 0 then []
      else if offset ≠ 0 ∧ offset ≥ p.len then pbufCopyPartial rest len (offset - p.len)
      else
        let bufCopyLen := if p.len - offset > len then len else p.len - offset
        (p.payload.drop offset.toNat).take bufCopyLen.toNat ++
          pbufCopyPartial rest (len - bufCopyLen) 0

/-- The segments that are deallocated when one reference to the chain is given up. -/
def pbufFree : List Pbuf → List Pbuf
  | [] => []
  | p :: rest => if p.ref - 1 = 0 then p :: pbufFree rest else []

def bytes (chain : List Pbuf) : List UInt8 :=
  chain.flatMap Pbuf.payload

/-- Every segment has one reference and knows the length of the chain from itself on. -/
def WellFormed : List Pbuf → Prop
  | [] => True
  | p :: rest =>
      p.totLen.toNat = (bytes (p :: rest)).length ∧ p.ref = 1 ∧ WellFormed rest

variable {h t chain rest : List Pbuf} {p : Pbuf}

theorem bytes_cons (p : Pbuf) (rest : List Pbuf) : bytes (p :: rest) = p.payload ++ bytes rest :=
  List.flatMap_cons

theorem bytes_append (h t : List Pbuf) : bytes (h ++ t) = bytes h ++ bytes t :=
  List.flatMap_append

theorem bytes_map (f : Pbuf → UInt16) (chain : List Pbuf) :
    bytes (chain.map fun p => { p with totLen := f p }) = bytes chain := by
  induction chain with
  | nil => rfl
  | cons p rest ih =>
      rw [List.map_cons, bytes_cons, bytes_cons, ih]

theorem pbufCat_cons (p : Pbuf) (rest t : List Pbuf) :
    pbufCat (p :: rest) t = { p with totLen := p.totLen + totLen t } :: pbufCat rest t := rfl

theorem bytes_pbufCat (h t : List Pbuf) : bytes (pbufCat h t) = bytes h ++ bytes t := by
  rw [pbufCat, bytes_append, bytes_map]

theorem map_pbufCat {β : Type} (f : Nat → List UInt8 → β) (h t : List Pbuf) :
    (pbufCat h t).map (fun p => f p.address p.payload) =
      h.map (fun p => f p.address p.payload) ++ t.map fun p => f p.address p.payload := by
  rw [pbufCat, List.map_append, List.map_map]
  rfl

theorem WellFormed.totLen_toNat (hwf : WellFormed chain) :
    (totLen chain).toNat = (bytes chain).length := by
  cases chain with
  | nil => rfl
  | cons p rest => exact hwf.1

theorem WellFormed.length_lt (hwf : WellFormed chain) : (bytes chain).length < 2 ^ 16 := by
  rw [← hwf.totLen_toNat]
  exact (totLen chain).toNat_lt

theorem WellFormed.len_toNat (hwf : WellFormed (p :: rest)) : p.len.toNat = p.payload.length := by
  have hlt := hwf.length_lt
  rw [bytes_cons, List.length_append] at hlt
  rw [Pbuf.len, UInt16.toNat_ofNat']
  exact Nat.mod_eq_of_lt (by omega)

/-- Two chains whose lengths together fit in 16 bits are a chain. -/
theorem wellFormed_pbufCat (hh : WellFormed h) (ht : WellFormed t)
    (hfits : (bytes h).length + (bytes t).length < 2 ^ 16) : WellFormed (pbufCat h t) := by
  induction h with
  | nil => exact ht
  | cons p rest ih =>
      obtain ⟨htot, href, hrest⟩ := hh
      have hbytes := bytes_pbufCat (p :: rest) t
      rw [bytes_cons, List.length_append] at hfits htot
      rw [pbufCat_cons] at hbytes ⊢
      refine ⟨?_, href, ih hrest (by omega)⟩
      rw [hbytes, List.length_append, bytes_cons, List.length_append, UInt16.toNat_add,
        ht.totLen_toNat, htot]
      exact Nat.mod_eq_of_lt (by omega)

theorem pbufFree_eq (hwf : WellFormed chain) : pbufFree chain = chain := by
  induction chain with
  | nil => rfl
  | cons p rest ih =>
      obtain ⟨-, href, hrest⟩ := hwf
      rw [pbufFree, href, if_pos (by decide), ih hrest]

theorem inside (hwf : WellFormed (p :: rest)) {offset : UInt16}
    (hskip : ¬(offset ≠ 0 ∧ offset ≥ p.len)) :
    (p.len - offset).toNat = p.payload.length - offset.toNat ∧
      (p.payload ++ bytes rest).drop offset.toNat =
        p.payload.drop offset.toNat ++ bytes rest := by
  have hlen := hwf.len_toNat
  have hle : offset.toNat ≤ p.payload.length := by
    rcases not_and_or.mp hskip with hfirst | hinside
    · rw [not_not.mp hfirst]
      exact Nat.zero_le _
    · rw [ge_iff_le, UInt16.le_iff_toNat_le] at hinside
      omega
  refine ⟨?_, List.drop_append_of_le_length hle⟩
  rw [UInt16.toNat_sub_of_le _ _ (UInt16.le_iff_toNat_le.mpr (by rw [hlen]; exact hle)), hlen]

/-- A part of the data is copied as if it were in one piece. -/
theorem pbufCopyPartial_eq (hwf : WellFormed chain) (len offset : UInt16) :
    pbufCopyPartial chain len offset =
      ((bytes chain).drop offset.toNat).take len.toNat := by
  induction chain generalizing len offset with
  | nil =>
      show [] = (([] : List UInt8).drop offset.toNat).take len.toNat
      rw [List.drop_nil, List.take_nil]
  | cons p rest ih =>
      have hlen := hwf.len_toNat
      have hwf' := hwf
      obtain ⟨-, -, hrest⟩ := hwf
      rw [pbufCopyPartial, bytes_cons]
      split_ifs with hzero hskip hmore
      · rw [hzero]
        exact (List.take_zero).symm
      · -- the offset lies behind this segment
        have hge : p.payload.length ≤ offset.toNat := by
          rw [← hlen]
          exact UInt16.le_iff_toNat_le.mp hskip.2
        rw [ih hrest, UInt16.toNat_sub_of_le _ _ hskip.2, hlen, List.drop_append,
          List.drop_eq_nil_of_le hge, List.nil_append]
      · -- all that is asked for lies in this segment
        obtain ⟨hleft, hdrop⟩ := inside hwf' hskip
        have hlong := UInt16.lt_iff_toNat_lt.mp hmore
        rw [hleft] at hlong
        have hnone : len.toNat - (p.payload.length - offset.toNat) = 0 := by omega
        dsimp only
        rw [hdrop, List.take_append, List.length_drop, ih hrest, hnone, UInt16.sub_self]
        rfl
      · obtain ⟨hleft, hdrop⟩ := inside hwf' hskip
        have hshort : (p.len - offset).toNat ≤ len.toNat := by
          rw [gt_iff_lt, UInt16.lt_iff_toNat_lt] at hmore
          omega
        have htake : (p.payload.drop offset.toNat).take len.toNat =
            (p.payload.drop offset.toNat).take (p.len - offset).toNat := by
          rw [List.take_of_length_le, List.take_of_length_le]
          · exact Nat.le_of_eq (List.length_drop.trans hleft.symm)
          · rw [List.length_drop, ← hleft]
            exact hshort
        dsimp only
        rw [hdrop, List.take_append, List.length_drop, ih hrest, htake,
          UInt16.toNat_sub_of_le _ _ (UInt16.le_iff_toNat_le.mpr hshort), hleft]
        rfl

end ColonyPico.Io.PacketBuffers
