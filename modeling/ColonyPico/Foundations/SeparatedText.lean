import Mathlib.Data.List.Infix

/-!
Texts of items that end with a separator: the first item, and the division of a text into items
and what is left without a separator.
-/

namespace ColonyPico.Foundations.SeparatedText

variable {α : Type*} [DecidableEq α]

/-- The item in front of the first separator that ends behind `seen`, and the text behind it. -/
def scan (sep : List α) : List α → List α → Option (List α × List α)
  | _, [] => none
  | seen, c :: rest =>
      if sep <:+ seen ++ [c] then
        some ((seen ++ [c]).take ((seen ++ [c]).length - sep.length), rest)
      else scan sep (seen ++ [c]) rest

/-- The items of a text and its last, unfinished one. -/
inductive Divides (sep : List α) : List α → List (List α) → List α → Prop
  | last {tail : List α} (hscan : scan sep [] tail = none) : Divides sep tail [] tail
  | item {text item rest tail : List α} {items : List (List α)}
      (hscan : scan sep [] text = some (item, rest)) (hrest : Divides sep rest items tail) :
      Divides sep text (item :: items) tail

variable {sep seen text item rest tail : List α} {items : List (List α)} {c : α}

theorem scan_found (hsuffix : sep <:+ seen ++ [c]) (rest : List α) :
    scan sep seen (c :: rest) =
      some ((seen ++ [c]).take ((seen ++ [c]).length - sep.length), rest) :=
  if_pos hsuffix

theorem scan_next (hsuffix : ¬sep <:+ seen ++ [c]) (rest : List α) :
    scan sep seen (c :: rest) = scan sep (seen ++ [c]) rest :=
  if_neg hsuffix

omit [DecidableEq α] in
/-- A separator at the end leaves what was seen without some of its last symbols. -/
theorem take_of_suffix (hsuffix : sep <:+ seen ++ [c]) (hsep : sep ≠ []) :
    ∃ item more, (seen ++ [c]).take ((seen ++ [c]).length - sep.length) = item ∧
      item ++ sep = seen ++ [c] ∧ item ++ more = seen := by
  obtain ⟨item, hitem⟩ := hsuffix
  rcases List.eq_nil_or_concat sep with rfl | ⟨front, last, rfl⟩
  · exact absurd rfl hsep
  · have hparts := hitem
    rw [List.concat_eq_append, ← List.append_assoc] at hparts
    refine ⟨item, front, ?_, hitem, (List.append_inj' hparts rfl).1⟩
    rw [← hitem, List.length_append, Nat.add_sub_cancel, List.take_left]

/-- The item in front of the first separator has none, and only its separator lies behind what was
seen before. -/
theorem scan_some (hsep : sep ≠ []) (hfree : ¬sep <:+: seen)
    (hscan : scan sep seen text = some (item, rest)) :
    item ++ (sep ++ rest) = seen ++ text ∧ ¬sep <:+: item ∧
      seen.length < item.length + sep.length := by
  induction text generalizing seen with
  | nil => cases hscan
  | cons c text ih =>
      rcases Decidable.em (sep <:+ seen ++ [c]) with hsuffix | hsuffix
      · rw [scan_found hsuffix] at hscan
        obtain ⟨front, more, htake, hjoin, hseen⟩ := take_of_suffix hsuffix hsep
        rw [htake] at hscan
        cases hscan
        refine ⟨?_, ?_, ?_⟩
        · rw [← List.append_assoc, hjoin, List.append_assoc]
          rfl
        · intro hinfix
          exact hfree (hseen ▸ List.infix_append_of_infix_left hinfix)
        · have hlength := congrArg List.length hjoin
          rw [List.length_append, List.length_append, List.length_singleton] at hlength
          omega
      · rw [scan_next hsuffix] at hscan
        have hfree' : ¬sep <:+: seen ++ [c] := by
          rw [List.infix_concat_iff]
          exact not_or.mpr ⟨hsuffix, hfree⟩
        obtain ⟨hjoin, hitem, hlength⟩ := ih hfree' hscan
        rw [List.length_append, List.length_singleton] at hlength
        refine ⟨?_, hitem, by omega⟩
        rw [hjoin, List.append_assoc]
        rfl

theorem scan_none (hfree : ¬sep <:+: seen) (hscan : scan sep seen text = none) :
    ¬sep <:+: seen ++ text := by
  induction text generalizing seen with
  | nil => rwa [List.append_nil]
  | cons c text ih =>
      rcases Decidable.em (sep <:+ seen ++ [c]) with hsuffix | hsuffix
      · rw [scan_found hsuffix] at hscan
        cases hscan
      · rw [scan_next hsuffix] at hscan
        have hrest := ih (fun hinfix => (List.infix_concat_iff.mp hinfix).elim hsuffix hfree) hscan
        rwa [List.append_assoc] at hrest

omit [DecidableEq α] in
theorem not_infix_nil (hsep : sep ≠ []) : ¬sep <:+: [] :=
  fun hinfix => hsep (List.infix_nil.mp hinfix)

theorem exists_divides (hsep : sep ≠ []) (text : List α) :
    ∃ items tail, Divides sep text items tail := by
  induction hn : text.length using Nat.strong_induction_on generalizing text with
  | _ n ih =>
      rcases hscan : scan sep [] text with _ | ⟨item, rest⟩
      · exact ⟨[], text, .last hscan⟩
      · obtain ⟨hjoin, -, hlength⟩ := scan_some hsep (not_infix_nil hsep) hscan
        have hshort : rest.length < n := by
          have hlengths := congrArg List.length hjoin
          rw [List.nil_append, List.length_append, List.length_append] at hlengths
          rw [List.length_nil] at hlength
          omega
        obtain ⟨items, tail, hdivides⟩ := ih rest.length hshort rest rfl
        exact ⟨item :: items, tail, .item hscan hdivides⟩

/-- The items with their separators, and the rest, are the text; none of them has a separator. -/
theorem Divides.spec (hdivides : Divides sep text items tail) (hsep : sep ≠ []) :
    text = items.flatMap (· ++ sep) ++ tail ∧ (∀ item ∈ items, ¬sep <:+: item) ∧
      ¬sep <:+: tail := by
  induction hdivides with
  | last hscan =>
      exact ⟨rfl, fun _ hmem => absurd hmem List.not_mem_nil, scan_none (not_infix_nil hsep) hscan⟩
  | item hscan _ ih =>
      obtain ⟨hjoin, hfree, -⟩ := scan_some hsep (not_infix_nil hsep) hscan
      obtain ⟨hrest, hitems, htail⟩ := ih
      refine ⟨?_, ?_, htail⟩
      · refine hjoin.symm.trans ?_
        rw [hrest, List.flatMap_cons]
        simp only [List.append_assoc]
      · intro item' hmem
        rcases List.mem_cons.mp hmem with rfl | hmem
        · exact hfree
        · exact hitems item' hmem

end ColonyPico.Foundations.SeparatedText
