import ColonyPico.Container.LinkedLists
import ColonyPico.Foundations.IntrusiveLists
import ColonyPico.Foundations.LinkedSegments

/-!
The linked lists hold sequences of items.
-/

namespace ColonyPico.Container.ListRefinement

open ColonyPico.Foundations.IntrusiveLists
open ColonyPico.Foundations.LinkedSegments
open ColonyPico.Container.LinkedLists

variable {ι α : Type}

/-- The pointers of a list and the links of its items spell out a sequence; those of a
doubly linked list also backwards. -/
structure Links (double : ι → Prop) (h : Heap ι α) (i : ι) (xs : List α) : Prop where
  forward : Segment h.nextPtr (h.headPtr i) xs none
  tail : h.tailPtr i = xs.getLast?
  backward : double i → Segment h.prevPtr (h.tailPtr i) xs.reverse none

/-- The heap holds the sequences of items. -/
structure Refines (double : ι → Prop) (h : Heap ι α) (l : Lists ι α) : Prop where
  wellFormed : l.WellFormed
  owner : h.inListPtr = l.owner
  error : h.fatalError = l.error
  links : ∀ i, Links double h i (l.items i)

section Splice

variable [DecidableEq ι] [DecidableEq α]

/-- Only the pointers of list `i` may differ, and in the links only those of `x`, of the
item before it and, in a doubly linked list, of the item after it. -/
structure Touched (double : ι → Prop) (h h' : Heap ι α) (i : ι) (x : α) (us vs : List α) :
    Prop where
  head : ∀ j, j ≠ i → h'.headPtr j = h.headPtr j
  tail : ∀ j, j ≠ i → h'.tailPtr j = h.tailPtr j
  next : ∀ y, y ≠ x → us.getLast? ≠ some y → h'.nextPtr y = h.nextPtr y
  prev : ∀ y, (double i → y ≠ x ∧ vs.head? ≠ some y) → h'.prevPtr y = h.prevPtr y
  error : h'.fatalError = h.fatalError

/-- `x` has been linked in between `us` and `vs`. -/
structure LinkedIn (double : ι → Prop) (h h' : Heap ι α) (i : ι) (x : α) (us vs : List α) : Prop
    extends Touched double h h' i x us vs where
  inList : h'.inListPtr = Function.update h.inListPtr x (some i)
  headPtr : h'.headPtr i = (us ++ [x]).head?
  tailPtr : h'.tailPtr i = (x :: vs).getLast?
  nextItem : h'.nextPtr x = vs.head?
  nextBefore : ∀ a, us.getLast? = some a → h'.nextPtr a = some x
  prevItem : double i → h'.prevPtr x = us.getLast?
  prevAfter : double i → ∀ b, vs.head? = some b → h'.prevPtr b = some x

/-- `x` has been linked out between `us` and `vs`. -/
structure LinkedOut (double : ι → Prop) (h h' : Heap ι α) (i : ι) (x : α) (us vs : List α) : Prop
    extends Touched double h h' i x us vs where
  inList : h'.inListPtr = Function.update h.inListPtr x none
  headPtr : h'.headPtr i = (us ++ vs).head?
  tailPtr : h'.tailPtr i = (us ++ vs).getLast?
  nextBefore : ∀ a, us.getLast? = some a → h'.nextPtr a = vs.head?
  prevAfter : double i → ∀ b, vs.head? = some b → h'.prevPtr b = us.getLast?

end Splice

section Frame

variable {double : ι → Prop} {h h' : Heap ι α} {l : Lists ι α} {i : ι} {x : α} {us vs : List α}

theorem owner_of_mem (hr : Refines double h l) {y : α} (hy : y ∈ l.items i) :
    l.owner y = some i :=
  (hr.wellFormed.mem_iff i y).mp hy

theorem notMem_of_free (hr : Refines double h l) (hfree : l.owner x = none) : x ∉ l.items i :=
  fun hmem => by
    rw [hr.wellFormed.mem_iff, hfree] at hmem
    cases hmem

theorem headPtr_eq (hr : Refines double h l) (i : ι) : h.headPtr i = (l.items i).head? :=
  (hr.links i).forward.head

theorem links_of_touched (hr : Refines double h l) (ht : Touched double h h' i x us vs)
    (hmem : ∀ y, y ∈ us ∨ y ∈ vs ∨ y = x → l.owner y = some i ∨ l.owner y = none) (j : ι)
    (hj : j ≠ i) : Links double h' j (l.items j) := by
  have hlinks := hr.links j
  have hnot : ∀ y ∈ l.items j, ¬ (y ∈ us ∨ y ∈ vs ∨ y = x) := by
    intro y hy hchanged
    have hother := owner_of_mem hr hy
    rcases hmem y hchanged with howner | hfree
    · rw [hother] at howner
      exact hj (Option.some.inj howner)
    · rw [hother] at hfree
      cases hfree
  refine ⟨?_, ?_, fun hd => ?_⟩
  · rw [ht.head j hj, segment_congr fun y hy => ht.next y (fun heq => hnot y hy (.inr (.inr heq)))
      fun hlast => hnot y hy (.inl (List.mem_of_getLast? hlast))]
    exact hlinks.forward
  · rw [ht.tail j hj]
    exact hlinks.tail
  · rw [ht.tail j hj, segment_congr fun y hy => ht.prev y fun _ => ?_]
    · exact hlinks.backward hd
    · rw [List.mem_reverse] at hy
      exact ⟨fun heq => hnot y hy (.inr (.inr heq)),
        fun hhead => hnot y hy (.inr (.inl (List.mem_of_head? hhead)))⟩

theorem reverse_middle (us vs : List α) (x : α) :
    (us ++ x :: vs).reverse = vs.reverse ++ x :: us.reverse := by
  rw [List.reverse_append, List.reverse_cons, List.append_assoc, List.singleton_append]

theorem links_of_linkedIn [DecidableEq α] (hlinks : Links double h i (us ++ vs))
    (hnodup : (us ++ vs).Nodup) (hx : x ∉ us ++ vs) (hin : LinkedIn double h h' i x us vs) :
    Links double h' i (us ++ x :: vs) := by
  refine ⟨?_, ?_, fun hd => ?_⟩
  · exact segment_splice hlinks.forward hnodup hx hin.next hin.nextBefore hin.nextItem hin.headPtr
  · rw [hin.tailPtr]
    simp [List.getLast?_append, List.getLast?_cons]
  · have hback := hlinks.backward hd
    rw [List.reverse_append] at hback
    rw [reverse_middle]
    refine segment_splice hback ?_ ?_ (fun y hy hlast => ?_) (fun a ha => ?_) ?_ ?_
    · rw [← List.reverse_append]
      exact List.nodup_reverse.mpr hnodup
    · rw [← List.reverse_append, List.mem_reverse]
      exact hx
    · rw [List.getLast?_reverse] at hlast
      exact hin.prev y fun _ => ⟨hy, hlast⟩
    · rw [List.getLast?_reverse] at ha
      exact hin.prevAfter hd a ha
    · rw [List.head?_reverse]
      exact hin.prevItem hd
    · rw [hin.tailPtr, ← List.reverse_cons, List.head?_reverse]

theorem links_of_linkedOut [DecidableEq α] (hlinks : Links double h i (us ++ x :: vs))
    (hnodup : (us ++ x :: vs).Nodup) (hout : LinkedOut double h h' i x us vs) :
    Links double h' i (us ++ vs) := by
  refine ⟨?_, hout.tailPtr, fun hd => ?_⟩
  · exact segment_unsplice hlinks.forward hnodup hout.next hout.nextBefore hout.headPtr
  · have hback := hlinks.backward hd
    rw [reverse_middle] at hback
    rw [List.reverse_append]
    refine segment_unsplice hback ?_ (fun y hy hlast => ?_) (fun a ha => ?_) ?_
    · rw [← reverse_middle]
      exact List.nodup_reverse.mpr hnodup
    · rw [List.getLast?_reverse] at hlast
      exact hout.prev y fun _ => ⟨hy, hlast⟩
    · rw [List.getLast?_reverse] at ha
      rw [List.head?_reverse]
      exact hout.prevAfter hd a ha
    · rw [hout.tailPtr, ← List.reverse_append, List.head?_reverse]

variable [DecidableEq ι] [DecidableEq α]

theorem refines_of_linkedIn (hr : Refines double h l) (hfree : l.owner x = none)
    (hxs : l.items i = us ++ vs) (place : List α → List α)
    (hplace : place (us ++ vs) = us ++ x :: vs) (hin : LinkedIn double h h' i x us vs) :
    Refines double h' (l.insertWith i x place) := by
  have hperm : (place (l.items i)).Perm (x :: l.items i) := by
    rw [hxs, hplace]
    exact List.perm_middle
  obtain ⟨hwf, herr, howner⟩ := Lists.insertWith_of_free hr.wellFormed hfree i place hperm
  refine ⟨hwf, by rw [hin.inList, howner, hr.owner], by rw [hin.error, herr, hr.error],
    fun j => ?_⟩
  simp only [Lists.insertWith, hfree]
  by_cases hj : j = i
  · subst hj
    rw [Function.update_self, hxs, hplace]
    exact links_of_linkedIn (hxs ▸ hr.links j) (hxs ▸ hr.wellFormed.nodup j)
      (hxs ▸ notMem_of_free hr hfree) hin
  · rw [Function.update_of_ne hj]
    refine links_of_touched hr hin.toTouched (fun y hy => ?_) j hj
    rcases hy with hmem | hmem | rfl
    · exact .inl (owner_of_mem hr (hxs ▸ List.mem_append_left vs hmem))
    · exact .inl (owner_of_mem hr (hxs ▸ List.mem_append_right us hmem))
    · exact .inr hfree

theorem refines_of_linkedOut (hr : Refines double h l) (hxs : l.items i = us ++ x :: vs)
    (hx : x ∉ us) (hout : LinkedOut double h h' i x us vs) :
    Refines double h' (l.remove i x) := by
  have howner : l.owner x = some i :=
    owner_of_mem hr (hxs ▸ List.mem_append_right us List.mem_cons_self)
  obtain ⟨hwf, herr, hfree⟩ := Lists.remove_of_owned hr.wellFormed howner
  refine ⟨hwf, by rw [hout.inList, hfree, hr.owner], by rw [hout.error, herr, hr.error],
    fun j => ?_⟩
  simp only [Lists.remove, if_pos howner]
  by_cases hj : j = i
  · subst hj
    rw [Function.update_self, hxs, erase_middle hx]
    exact links_of_linkedOut (hxs ▸ hr.links j) (hxs ▸ hr.wellFormed.nodup j) hout
  · rw [Function.update_of_ne hj]
    refine links_of_touched hr hout.toTouched (fun y hy => .inl (owner_of_mem hr ?_)) j hj
    rw [hxs, List.mem_append, List.mem_cons]
    rcases hy with hmem | hmem | heq
    · exact .inl hmem
    · exact .inr (.inr hmem)
    · exact .inr (.inl heq)

omit [DecidableEq ι] in
theorem insert_of_free (hr : Refines double h l) (hfree : l.owner x = none) (i : ι) :
    insert_ h i x = (h.setInList x (some i), true) := by
  rw [insert_, hr.owner, hfree]

theorem insert_of_owned (hr : Refines double h l) (howner : l.owner x ≠ none) (i : ι)
    (place : List α → List α) :
    insert_ h i x = ({ h with fatalError := true }, false) ∧
      Refines double { h with fatalError := true } (l.insertWith i x place) := by
  obtain ⟨j, hj⟩ := Option.ne_none_iff_exists'.mp howner
  refine ⟨by rw [insert_, hr.owner, hj], ?_⟩
  rw [Lists.insertWith, hj]
  exact ⟨⟨hr.wellFormed.mem_iff, hr.wellFormed.nodup⟩, hr.owner, rfl,
    fun k => ⟨(hr.links k).forward, (hr.links k).tail, (hr.links k).backward⟩⟩

omit [DecidableEq ι] [DecidableEq α] in
theorem split_of_mem (hr : Refines double h l) (hx : x ∈ l.items i) :
    ∃ us vs, l.items i = us ++ x :: vs ∧ x ∉ us := by
  obtain ⟨us, vs, heq⟩ := List.append_of_mem hx
  have hnodup := hr.wellFormed.nodup i
  rw [heq, List.nodup_middle, List.nodup_cons, List.mem_append, not_or] at hnodup
  exact ⟨us, vs, heq, hnodup.1.1⟩

end Frame

section Neighbours

variable {double : ι → Prop} {h : Heap ι α} {l : Lists ι α} {i : ι} {a : α} {us vs : List α}

theorem nextPtr_eq (hr : Refines double h l) (hitems : l.items i = us ++ a :: vs) :
    h.nextPtr a = vs.head? := by
  have hforward := (hr.links i).forward
  rw [hitems] at hforward
  exact hforward.link_eq

theorem prevPtr_eq (hr : Refines double h l) (hd : double i) (hitems : l.items i = us ++ a :: vs) :
    h.prevPtr a = us.getLast? := by
  have hbackward := (hr.links i).backward hd
  rw [hitems, reverse_middle] at hbackward
  rw [hbackward.link_eq, List.head?_reverse]

/-- An item that is put behind another one does not become the first. -/
theorem headPtr_eq_after (hr : Refines double h l) (hitems : l.items i = us ++ a :: vs) (x : α) :
    h.headPtr i = (us ++ [a, x]).head? := by
  rw [headPtr_eq hr, hitems]
  cases us <;> rfl

theorem ne_of_free (hr : Refines double h l) (i : ι) {x : α} (hfree : l.owner x = none)
    (ha : a ∈ l.items i) : x ≠ a := by
  rintro rfl
  exact notMem_of_free hr hfree ha

theorem tailPtr_eq (hr : Refines double h l) (hitems : l.items i = us ++ a :: vs) :
    h.tailPtr i = (a :: vs).getLast? := by
  rw [(hr.links i).tail, hitems]
  simp [List.getLast?_append, List.getLast?_cons]

end Neighbours

section Double

variable [DecidableEq ι] [DecidableEq α] {double : ι → Prop} {h : Heap ι α} {l : Lists ι α}
  {i : ι}

theorem linkedIn_putFirst (hr : Refines double h l) (hd : double i) {x : α}
    (hfree : l.owner x = none) :
    LinkedIn double h (DList.putFirst h i x).1 i x [] (l.items i) := by
  have hhead : (h.setInList x (some i)).headPtr i = (l.items i).head? := headPtr_eq hr i
  have htail := (hr.links i).tail
  simp only [DList.putFirst, insert_of_free hr hfree, hhead]
  cases hitems : l.items i with
  | nil =>
      refine ⟨⟨?_, ?_, ?_, ?_, ?_⟩, ?_, ?_, ?_, ?_, ?_, ?_, ?_⟩ <;>
        simp +contextual [hd, Function.update_apply]
  | cons y ys =>
      rw [hitems] at htail
      have hxy : x ≠ y := ne_of_free hr i hfree (by simp [hitems])
      refine ⟨⟨?_, ?_, ?_, ?_, ?_⟩, ?_, ?_, ?_, ?_, ?_, ?_, ?_⟩ <;>
        simp +contextual [hd, Function.update_apply, htail, hxy, eq_comm]

theorem linkedIn_put (hr : Refines double h l) (hd : double i) {x : α}
    (hfree : l.owner x = none) :
    ∃ h', DList.put h i x = some (h', true) ∧ LinkedIn double h h' i x (l.items i) [] := by
  have hhead : (h.setInList x (some i)).headPtr i = (l.items i).head? := headPtr_eq hr i
  have htail : (h.setInList x (some i)).tailPtr i = (l.items i).getLast? := (hr.links i).tail
  simp only [DList.put, insert_of_free hr hfree, hhead, htail]
  rcases List.eq_nil_or_concat (l.items i) with hitems | ⟨ys, y, hitems⟩
  · rw [hitems]
    refine ⟨_, rfl, ⟨⟨?_, ?_, ?_, ?_, ?_⟩, ?_, ?_, ?_, ?_, ?_, ?_, ?_⟩⟩ <;>
      simp +contextual [hd, Function.update_apply]
  · rw [List.concat_eq_append] at hitems
    have hhead' : h.headPtr i = (ys ++ [y]).head? := by rw [headPtr_eq hr, hitems]
    have hxy : x ≠ y := ne_of_free hr i hfree (by simp [hitems])
    rw [hitems]
    have hsome : (ys ++ [y]).head? = some ((ys ++ [y]).head (by simp)) := List.head?_eq_some_head _
    rw [hsome]
    refine ⟨_, by simp only [List.getLast?_concat]; rfl,
      ⟨⟨?_, ?_, ?_, ?_, ?_⟩, ?_, ?_, ?_, ?_, ?_, ?_, ?_⟩⟩ <;>
      simp +contextual [hd, Function.update_apply, hxy, eq_comm, hhead']

theorem linkedIn_insertAfter (hr : Refines double h l) (hd : double i) {a x : α}
    (hfree : l.owner x = none) {us vs : List α} (hitems : l.items i = us ++ a :: vs) :
    LinkedIn double h (DList.insertAfter h i a x).1 i x (us ++ [a]) vs := by
  have hnext := nextPtr_eq hr hitems
  change (h.setInList x (some i)).nextPtr a = vs.head? at hnext
  have hhead := headPtr_eq_after hr hitems x
  have htail := tailPtr_eq hr hitems
  have hxa : x ≠ a := ne_of_free hr i hfree (by simp [hitems])
  simp only [DList.insertAfter, insert_of_free hr hfree, hnext]
  cases vs with
  | nil =>
      refine ⟨⟨?_, ?_, ?_, ?_, ?_⟩, ?_, ?_, ?_, ?_, ?_, ?_, ?_⟩ <;>
        simp +contextual [hd, Function.update_apply, hxa, eq_comm, hhead]
  | cons b vs =>
      have hxb : x ≠ b := ne_of_free hr i hfree (by simp [hitems])
      refine ⟨⟨?_, ?_, ?_, ?_, ?_⟩, ?_, ?_, ?_, ?_, ?_, ?_, ?_⟩ <;>
        simp +contextual [hd, hxa, hxb, eq_comm, hhead, htail]

theorem linkedIn_insertBefore (hr : Refines double h l) (hd : double i) {b x : α}
    (hfree : l.owner x = none) {us vs : List α} (hitems : l.items i = us ++ b :: vs) :
    LinkedIn double h (DList.insertBefore h i b x).1 i x us (b :: vs) := by
  have hprev := prevPtr_eq hr hd hitems
  change (h.setInList x (some i)).prevPtr b = us.getLast? at hprev
  have hhead : h.headPtr i = (us ++ [b]).head? := by
    rw [headPtr_eq hr, hitems]
    cases us <;> rfl
  have htail := tailPtr_eq hr hitems
  have hxb : x ≠ b := ne_of_free hr i hfree (by simp [hitems])
  simp only [DList.insertBefore, insert_of_free hr hfree, hprev]
  rcases List.eq_nil_or_concat us with rfl | ⟨us, a, rfl⟩
  · refine ⟨⟨?_, ?_, ?_, ?_, ?_⟩, ?_, ?_, ?_, ?_, ?_, ?_, ?_⟩ <;>
      simp +contextual [hd, Function.update_apply, hxb, eq_comm, htail]
  · rw [List.concat_eq_append] at *
    have hxa : x ≠ a := ne_of_free hr i hfree (by simp [hitems])
    have hhead' : h.headPtr i = (us ++ [a, x]).head? := by
      rw [hhead]
      cases us <;> rfl
    simp only [List.getLast?_concat]
    refine ⟨⟨?_, ?_, ?_, ?_, ?_⟩, ?_, ?_, ?_, ?_, ?_, ?_, ?_⟩ <;>
      simp +contextual [hd, hxa, hxb, eq_comm, hhead',
        htail]

theorem linkedOut_remove (hr : Refines double h l) (hd : double i) {x : α} {us vs : List α}
    (hitems : l.items i = us ++ x :: vs) :
    (DList.remove h i x).2 = true ∧ LinkedOut double h (DList.remove h i x).1 i x us vs := by
  have hprev := prevPtr_eq hr hd hitems
  have hnext := nextPtr_eq hr hitems
  have hnodup : (us ++ x :: vs).Nodup := hitems ▸ hr.wellFormed.nodup i
  have hin : isInContainer_ h i x = true := by
    rw [isInContainer_, hr.owner, decide_eq_true_eq]
    exact owner_of_mem hr (hitems ▸ List.mem_append_right us List.mem_cons_self)
  have hhead : h.headPtr i = (us ++ x :: vs).head? := by rw [headPtr_eq hr, hitems]
  have htail : h.tailPtr i = (us ++ x :: vs).getLast? := by rw [(hr.links i).tail, hitems]
  simp only [DList.remove, hin, if_true, hprev, hnext]
  rw [List.nodup_middle, List.nodup_cons, List.mem_append, not_or] at hnodup
  refine ⟨trivial, ?_⟩
  rcases List.eq_nil_or_concat us with rfl | ⟨us, a, rfl⟩
  · cases vs with
    | nil =>
        refine ⟨⟨?_, ?_, ?_, ?_, ?_⟩, ?_, ?_, ?_, ?_, ?_⟩ <;>
          simp +contextual [hd, remove_]
    | cons b vs =>
        refine ⟨⟨?_, ?_, ?_, ?_, ?_⟩, ?_, ?_, ?_, ?_, ?_⟩ <;>
          simp +contextual [hd, remove_, htail, eq_comm]
  · rw [List.concat_eq_append] at *
    simp only [List.getLast?_concat]
    cases vs with
    | nil =>
        refine ⟨⟨?_, ?_, ?_, ?_, ?_⟩, ?_, ?_, ?_, ?_, ?_⟩ <;>
          simp +contextual [hd, remove_, hhead, eq_comm]
    | cons b vs =>
        refine ⟨⟨?_, ?_, ?_, ?_, ?_⟩, ?_, ?_, ?_, ?_, ?_⟩ <;>
          simp +contextual [hd, remove_, hhead, htail, eq_comm]

end Double

section Single

variable [DecidableEq ι] [DecidableEq α] {double : ι → Prop} {h : Heap ι α} {l : Lists ι α}
  {i : ι}

theorem linkedIn_putFirst_single (hr : Refines double h l) (hs : ¬ double i) {x : α}
    (hfree : l.owner x = none) :
    LinkedIn double h (SList.putFirst h i x).1 i x [] (l.items i) := by
  have hhead : (h.setInList x (some i)).headPtr i = (l.items i).head? := headPtr_eq hr i
  have htail := (hr.links i).tail
  simp only [SList.putFirst, insert_of_free hr hfree, hhead]
  cases hitems : l.items i with
  | nil =>
      refine ⟨⟨?_, ?_, ?_, ?_, ?_⟩, ?_, ?_, ?_, ?_, ?_, ?_, ?_⟩ <;>
        simp +contextual [hs]
  | cons y ys =>
      rw [hitems] at htail
      refine ⟨⟨?_, ?_, ?_, ?_, ?_⟩, ?_, ?_, ?_, ?_, ?_, ?_, ?_⟩ <;>
        simp +contextual [hs, htail]

theorem linkedIn_put_single (hr : Refines double h l) (hs : ¬ double i) {x : α}
    (hfree : l.owner x = none) :
    ∃ h', SList.put h i x = some (h', true) ∧ LinkedIn double h h' i x (l.items i) [] := by
  have hhead : (h.setInList x (some i)).headPtr i = (l.items i).head? := headPtr_eq hr i
  have htail : (h.setInList x (some i)).tailPtr i = (l.items i).getLast? := (hr.links i).tail
  simp only [SList.put, insert_of_free hr hfree, hhead, htail]
  rcases List.eq_nil_or_concat (l.items i) with hitems | ⟨ys, y, hitems⟩
  · rw [hitems]
    refine ⟨_, rfl, ⟨⟨?_, ?_, ?_, ?_, ?_⟩, ?_, ?_, ?_, ?_, ?_, ?_, ?_⟩⟩ <;>
      simp +contextual [hs]
  · rw [List.concat_eq_append] at hitems
    have hhead' : h.headPtr i = (ys ++ [y]).head? := by rw [headPtr_eq hr, hitems]
    have hxy : x ≠ y := ne_of_free hr i hfree (by simp [hitems])
    rw [hitems]
    have hsome : (ys ++ [y]).head? = some ((ys ++ [y]).head (by simp)) := List.head?_eq_some_head _
    rw [hsome]
    refine ⟨_, by simp only [List.getLast?_concat]; rfl,
      ⟨⟨?_, ?_, ?_, ?_, ?_⟩, ?_, ?_, ?_, ?_, ?_, ?_, ?_⟩⟩ <;>
      simp +contextual [hs, Function.update_apply, hxy, eq_comm, hhead']

theorem linkedIn_insertAfter_single (hr : Refines double h l) (hs : ¬ double i) {a x : α}
    (hfree : l.owner x = none) {us vs : List α} (hitems : l.items i = us ++ a :: vs) :
    LinkedIn double h (SList.insertAfter h i a x).1 i x (us ++ [a]) vs := by
  have hnext := nextPtr_eq hr hitems
  change (h.setInList x (some i)).nextPtr a = vs.head? at hnext
  have hhead := headPtr_eq_after hr hitems x
  have htail := tailPtr_eq hr hitems
  have hxa : x ≠ a := ne_of_free hr i hfree (by simp [hitems])
  simp only [SList.insertAfter, insert_of_free hr hfree, hnext]
  cases vs with
  | nil =>
      refine ⟨⟨?_, ?_, ?_, ?_, ?_⟩, ?_, ?_, ?_, ?_, ?_, ?_, ?_⟩ <;>
        simp +contextual [hs, hxa, eq_comm, hhead]
  | cons b vs =>
      refine ⟨⟨?_, ?_, ?_, ?_, ?_⟩, ?_, ?_, ?_, ?_, ?_, ?_, ?_⟩ <;>
        simp +contextual [hs, hxa, eq_comm, hhead, htail]

omit [DecidableEq ι] in
theorem locate_eq {x : α} {p : Option α} {us vs : List α}
    (hsegment : Segment h.nextPtr p (us ++ x :: vs) none) (hx : x ∉ us) (fuel : Nat)
    (hfuel : us.length < fuel) (prv : Option α) :
    SList.locate h x fuel p prv = some (some (us.getLast?.or prv)) := by
  induction us generalizing p fuel prv with
  | nil =>
      obtain ⟨rfl, -⟩ := hsegment
      obtain ⟨fuel, rfl⟩ := Nat.exists_eq_add_of_lt hfuel
      simp [SList.locate]
  | cons u us ih =>
      obtain ⟨rfl, htail⟩ := hsegment
      rw [List.mem_cons, not_or] at hx
      cases fuel with
      | zero => exact absurd hfuel (Nat.not_lt_zero _)
      | succ fuel =>
          rw [List.length_cons] at hfuel
          rw [SList.locate, if_neg (Ne.symm hx.1), ih htail hx.2 fuel (by omega)]
          simp [List.getLast?_cons]

theorem linkedOut_get_single (hr : Refines double h l) (hs : ¬ double i) {x : α} {xs : List α}
    (hitems : l.items i = x :: xs) :
    (SList.get h i).2 = some x ∧ LinkedOut double h (SList.get h i).1 i x [] xs := by
  have hhead : h.headPtr i = some x := by rw [headPtr_eq hr, hitems, List.head?_cons]
  have hsplit : l.items i = [] ++ x :: xs := hitems
  have hnext := nextPtr_eq hr hsplit
  have htail := tailPtr_eq hr hsplit
  simp only [SList.get, hhead, hnext]
  refine ⟨trivial, ?_⟩
  cases xs with
  | nil =>
      refine ⟨⟨?_, ?_, ?_, ?_, ?_⟩, ?_, ?_, ?_, ?_, ?_⟩ <;> simp +contextual [hs, remove_]
  | cons y ys =>
      refine ⟨⟨?_, ?_, ?_, ?_, ?_⟩, ?_, ?_, ?_, ?_, ?_⟩ <;> simp +contextual [hs, remove_, htail]

theorem linkedOut_remove_single (hr : Refines double h l) (hs : ¬ double i) {x : α}
    {us vs : List α} (hitems : l.items i = us ++ x :: vs) (hx : x ∉ us) (fuel : Nat)
    (hfuel : us.length < fuel) :
    ∃ h', SList.remove fuel h i x = some (h', true) ∧ LinkedOut double h h' i x us vs := by
  have hnext := nextPtr_eq hr hitems
  have hin : isInContainer_ h i x = true := by
    rw [isInContainer_, hr.owner, decide_eq_true_eq]
    exact owner_of_mem hr (hitems ▸ List.mem_append_right us List.mem_cons_self)
  have hhead : h.headPtr i = (us ++ x :: vs).head? := by rw [headPtr_eq hr, hitems]
  have htail := tailPtr_eq hr hitems
  have hlocate := locate_eq (hitems ▸ (hr.links i).forward) hx fuel hfuel none
  rw [Option.or_none] at hlocate
  simp only [SList.remove, hin, if_true, first, hlocate, Option.bind_eq_bind, Option.bind_some]
  rcases List.eq_nil_or_concat us with rfl | ⟨us, a, rfl⟩
  · cases vs with
    | nil =>
        refine ⟨_, rfl, ⟨⟨?_, ?_, ?_, ?_, ?_⟩, ?_, ?_, ?_, ?_, ?_⟩⟩ <;>
          simp +contextual [hs, remove_, hnext]
    | cons b vs =>
        refine ⟨_, rfl, ⟨⟨?_, ?_, ?_, ?_, ?_⟩, ?_, ?_, ?_, ?_, ?_⟩⟩ <;>
          simp +contextual [hs, remove_, hnext, htail]
  · rw [List.concat_eq_append] at *
    simp only [List.getLast?_concat]
    cases vs with
    | nil =>
        refine ⟨_, rfl, ⟨⟨?_, ?_, ?_, ?_, ?_⟩, ?_, ?_, ?_, ?_, ?_⟩⟩ <;>
          simp +contextual [hs, remove_, hnext, hhead, eq_comm]
    | cons b vs =>
        refine ⟨_, rfl, ⟨⟨?_, ?_, ?_, ?_, ?_⟩, ?_, ?_, ?_, ?_, ?_⟩⟩ <;>
          simp +contextual [hs, remove_, hnext, hhead, htail, eq_comm, List.getLast?_cons]

theorem linkedIn_insertBefore_single (hr : Refines double h l) (hs : ¬ double i) {b x : α}
    (hfree : l.owner x = none) {us vs : List α} (hitems : l.items i = us ++ b :: vs)
    (hb : b ∉ us) (fuel : Nat) (hfuel : us.length < fuel) :
    ∃ h', SList.insertBefore fuel h i b x = some (h', true) ∧
      LinkedIn double h h' i x us (b :: vs) := by
  have hhead : h.headPtr i = (us ++ [b]).head? := by
    rw [headPtr_eq hr, hitems]
    cases us <;> rfl
  have htail := tailPtr_eq hr hitems
  have hxb : x ≠ b := ne_of_free hr i hfree (by simp [hitems])
  have hforward : Segment (h.setInList x (some i)).nextPtr ((h.setInList x (some i)).headPtr i)
      (us ++ b :: vs) none := hitems ▸ (hr.links i).forward
  have hlocate := locate_eq hforward hb fuel hfuel none
  rw [Option.or_none] at hlocate
  simp only [SList.insertBefore, insert_of_free hr hfree, first, hlocate, Option.bind_eq_bind,
    Option.bind_some]
  rcases List.eq_nil_or_concat us with rfl | ⟨us, a, rfl⟩
  · refine ⟨_, rfl, ⟨⟨?_, ?_, ?_, ?_, ?_⟩, ?_, ?_, ?_, ?_, ?_, ?_, ?_⟩⟩ <;>
      simp +contextual [hs, htail]
  · rw [List.concat_eq_append] at *
    have hxa : x ≠ a := ne_of_free hr i hfree (by simp [hitems])
    have hhead' : h.headPtr i = (us ++ [a, x]).head? := by
      rw [hhead]
      cases us <;> rfl
    simp only [List.getLast?_concat]
    refine ⟨_, rfl, ⟨⟨?_, ?_, ?_, ?_, ?_⟩, ?_, ?_, ?_, ?_, ?_, ?_, ?_⟩⟩ <;>
      simp +contextual [hs, hxa, eq_comm, hhead', htail]

end Single

section Methods

variable [DecidableEq ι] [DecidableEq α] {double kind : ι → Prop} {m : Methods ι α}

/-- The methods of a class do to the lists of its kind what they do to sequences. -/
structure Implements (double kind : ι → Prop) (m : Methods ι α) : Prop where
  get : ∀ {h l} i, kind i → Refines double h l →
    (m.get h i).2 = (l.get i).1 ∧ Refines double (m.get h i).1 (l.get i).2
  getLast : ∀ {h l} i fuel, kind i → Refines double h l → (l.items i).length < fuel →
    ∃ h', m.getLast fuel h i = some (h', (l.getLast i).1) ∧ Refines double h' (l.getLast i).2
  put : ∀ {h l} i x, kind i → Refines double h l →
    ∃ h', m.put h i x = some (h', decide (l.owner x = none)) ∧ Refines double h' (l.put i x)
  putFirst : ∀ {h l} i x, kind i → Refines double h l →
    (m.putFirst h i x).2 = decide (l.owner x = none) ∧
      Refines double (m.putFirst h i x).1 (l.insertWith i x (x :: ·))
  remove : ∀ {h l} i x fuel, kind i → Refines double h l → (l.items i).length < fuel →
    ∃ h', m.remove fuel h i x = some (h', decide (x ∈ l.items i)) ∧
      Refines double h' (l.remove i x)
  insertAfter : ∀ {h l} i a x, kind i → Refines double h l → a ∈ l.items i →
    (m.insertAfter h i a x).2 = decide (l.owner x = none) ∧
      Refines double (m.insertAfter h i a x).1 (l.insertWith i x (insertAfter a x))
  insertBefore : ∀ {h l} i b x fuel, kind i → Refines double h l → b ∈ l.items i →
    (l.items i).length < fuel →
    ∃ h', m.insertBefore fuel h i b x = some (h', decide (l.owner x = none)) ∧
      Refines double h' (l.insertWith i x (insertBefore b x))

variable {h h' : Heap ι α} {l : Lists ι α} {i : ι} {x : α}

theorem refines_insertion (hr : Refines double h l) (i : ι) (place : List α → List α) {ok : Bool}
    (hfree : l.owner x = none → ok = true ∧ ∃ us vs, l.items i = us ++ vs ∧
      place (us ++ vs) = us ++ x :: vs ∧ LinkedIn double h h' i x us vs)
    (hrefused : l.owner x ≠ none → ok = false ∧ h' = { h with fatalError := true }) :
    ok = decide (l.owner x = none) ∧ Refines double h' (l.insertWith i x place) := by
  by_cases howner : l.owner x = none
  · obtain ⟨hok, us, vs, hitems, hplace, hin⟩ := hfree howner
    exact ⟨by simp [hok, howner], refines_of_linkedIn hr howner hitems place hplace hin⟩
  · obtain ⟨hok, rfl⟩ := hrefused howner
    exact ⟨by simp [hok, howner], (insert_of_owned hr howner i place).2⟩

theorem remove_of_notMem (hr : Refines double h l) (hx : x ∉ l.items i) :
    isInContainer_ h i x = false ∧ l.remove i x = l := by
  have howner : l.owner x ≠ some i := fun heq => hx ((hr.wellFormed.mem_iff i x).mpr heq)
  exact ⟨by simp [isInContainer_, hr.owner, howner], Lists.remove_of_not_owned l howner⟩

theorem remove_dlist (hd : double i) (hr : Refines double h l) (x : α) :
    (DList.remove h i x).2 = decide (x ∈ l.items i) ∧
      Refines double (DList.remove h i x).1 (l.remove i x) := by
  by_cases hx : x ∈ l.items i
  · obtain ⟨us, vs, hitems, hnot⟩ := split_of_mem hr hx
    obtain ⟨hok, hout⟩ := linkedOut_remove hr hd hitems
    exact ⟨by simp [hok, hx], refines_of_linkedOut hr hitems hnot hout⟩
  · obtain ⟨hin, hsame⟩ := remove_of_notMem hr hx
    rw [hsame]
    simp only [DList.remove, hin, Bool.false_eq_true, if_false]
    exact ⟨by simp [hx], hr⟩

theorem putFirst_dlist (hd : double i) (hr : Refines double h l) (x : α) :
    (DList.putFirst h i x).2 = decide (l.owner x = none) ∧
      Refines double (DList.putFirst h i x).1 (l.insertWith i x (x :: ·)) := by
  refine refines_insertion hr i (x :: ·) (fun hfree => ⟨?_, [], l.items i, rfl, rfl, ?_⟩)
    fun howner => ?_
  · simp [DList.putFirst, insert_of_free hr hfree]
  · exact linkedIn_putFirst hr hd hfree
  · simp [DList.putFirst, (insert_of_owned hr howner i (x :: ·)).1]

theorem put_dlist (hd : double i) (hr : Refines double h l) (x : α) :
    ∃ h', DList.put h i x = some (h', decide (l.owner x = none)) ∧
      Refines double h' (l.put i x) := by
  by_cases howner : l.owner x = none
  · obtain ⟨h', hput, hin⟩ := linkedIn_put hr hd howner
    refine ⟨h', by simp [hput, howner], ?_⟩
    exact refines_of_linkedIn hr howner (List.append_nil _).symm (· ++ [x]) (by simp) hin
  · obtain ⟨hrefused, hrefines⟩ := insert_of_owned hr howner i (· ++ [x])
    exact ⟨_, by simp [DList.put, hrefused, howner], hrefines⟩

theorem insertAfter_dlist (hd : double i) (hr : Refines double h l) {a : α} (ha : a ∈ l.items i)
    (x : α) :
    (DList.insertAfter h i a x).2 = decide (l.owner x = none) ∧
      Refines double (DList.insertAfter h i a x).1 (l.insertWith i x (insertAfter a x)) := by
  obtain ⟨us, vs, hitems, hnot⟩ := split_of_mem hr ha
  refine refines_insertion hr i (insertAfter a x)
    (fun hfree => ⟨?_, us ++ [a], vs, by simp [hitems], ?_, ?_⟩) fun howner => ?_
  · simp only [DList.insertAfter, insert_of_free hr hfree]
    split <;> rfl
  · simp [insertAfter_middle hnot]
  · exact linkedIn_insertAfter hr hd hfree hitems
  · simp [DList.insertAfter, (insert_of_owned hr howner i (x :: ·)).1]

theorem insertBefore_dlist (hd : double i) (hr : Refines double h l) {b : α}
    (hb : b ∈ l.items i) (x : α) :
    (DList.insertBefore h i b x).2 = decide (l.owner x = none) ∧
      Refines double (DList.insertBefore h i b x).1 (l.insertWith i x (insertBefore b x)) := by
  obtain ⟨us, vs, hitems, hnot⟩ := split_of_mem hr hb
  refine refines_insertion hr i (insertBefore b x)
    (fun hfree => ⟨?_, us, b :: vs, hitems, insertBefore_middle hnot vs, ?_⟩) fun howner => ?_
  · simp only [DList.insertBefore, insert_of_free hr hfree]
    split <;> rfl
  · exact linkedIn_insertBefore hr hd hfree hitems
  · simp [DList.insertBefore, (insert_of_owned hr howner i (x :: ·)).1]

theorem get_dlist (hd : double i) (hr : Refines double h l) :
    (DList.get h i).2 = (l.get i).1 ∧ Refines double (DList.get h i).1 (l.get i).2 := by
  simp only [DList.get, Lists.get, headPtr_eq hr i]
  cases l.items i with
  | nil => exact ⟨rfl, hr⟩
  | cons x xs => exact ⟨rfl, (remove_dlist hd hr x).2⟩

theorem getLast_dlist (hd : double i) (hr : Refines double h l) :
    (DList.getLast h i).2 = (l.getLast i).1 ∧
      Refines double (DList.getLast h i).1 (l.getLast i).2 := by
  simp only [DList.getLast, Lists.getLast, (hr.links i).tail]
  cases (l.items i).getLast? with
  | none => exact ⟨rfl, hr⟩
  | some x => exact ⟨rfl, (remove_dlist hd hr x).2⟩

theorem implements_dlist : Implements double double (DList.methods : Methods ι α) := by
  constructor
  · exact fun i hd hr => get_dlist hd hr
  · intro h l i fuel hd hr _
    obtain ⟨hitem, hrefines⟩ := getLast_dlist hd hr
    exact ⟨_, congrArg some (Prod.ext rfl hitem), hrefines⟩
  · exact fun i x hd hr => put_dlist hd hr x
  · exact fun i x hd hr => putFirst_dlist hd hr x
  · intro h l i x fuel hd hr _
    obtain ⟨hok, hrefines⟩ := remove_dlist hd hr x
    exact ⟨_, congrArg some (Prod.ext rfl hok), hrefines⟩
  · exact fun i a x hd hr ha => insertAfter_dlist hd hr ha x
  · intro h l i b x fuel hd hr hb _
    obtain ⟨hok, hrefines⟩ := insertBefore_dlist hd hr hb x
    exact ⟨_, congrArg some (Prod.ext rfl hok), hrefines⟩

theorem remove_slist (hs : ¬ double i) (hr : Refines double h l) (x : α) (fuel : Nat)
    (hfuel : (l.items i).length < fuel) :
    ∃ h', SList.remove fuel h i x = some (h', decide (x ∈ l.items i)) ∧
      Refines double h' (l.remove i x) := by
  by_cases hx : x ∈ l.items i
  · obtain ⟨us, vs, hitems, hnot⟩ := split_of_mem hr hx
    rw [hitems, List.length_append] at hfuel
    obtain ⟨h', hok, hout⟩ := linkedOut_remove_single hr hs hitems hnot fuel (by omega)
    exact ⟨h', by simp [hok, hx], refines_of_linkedOut hr hitems hnot hout⟩
  · obtain ⟨hin, hsame⟩ := remove_of_notMem hr hx
    refine ⟨h, ?_, hsame.symm ▸ hr⟩
    simp [SList.remove, hin, hx]

theorem putFirst_slist (hs : ¬ double i) (hr : Refines double h l) (x : α) :
    (SList.putFirst h i x).2 = decide (l.owner x = none) ∧
      Refines double (SList.putFirst h i x).1 (l.insertWith i x (x :: ·)) := by
  refine refines_insertion hr i (x :: ·) (fun hfree => ⟨?_, [], l.items i, rfl, rfl, ?_⟩)
    fun howner => ?_
  · simp only [SList.putFirst, insert_of_free hr hfree]
    split <;> rfl
  · exact linkedIn_putFirst_single hr hs hfree
  · simp [SList.putFirst, (insert_of_owned hr howner i (x :: ·)).1]

theorem put_slist (hs : ¬ double i) (hr : Refines double h l) (x : α) :
    ∃ h', SList.put h i x = some (h', decide (l.owner x = none)) ∧
      Refines double h' (l.put i x) := by
  by_cases howner : l.owner x = none
  · obtain ⟨h', hput, hin⟩ := linkedIn_put_single hr hs howner
    refine ⟨h', by simp [hput, howner], ?_⟩
    exact refines_of_linkedIn hr howner (List.append_nil _).symm (· ++ [x]) (by simp) hin
  · obtain ⟨hrefused, hrefines⟩ := insert_of_owned hr howner i (· ++ [x])
    exact ⟨_, by simp [SList.put, hrefused, howner], hrefines⟩

theorem insertAfter_slist (hs : ¬ double i) (hr : Refines double h l) {a : α}
    (ha : a ∈ l.items i) (x : α) :
    (SList.insertAfter h i a x).2 = decide (l.owner x = none) ∧
      Refines double (SList.insertAfter h i a x).1 (l.insertWith i x (insertAfter a x)) := by
  obtain ⟨us, vs, hitems, hnot⟩ := split_of_mem hr ha
  refine refines_insertion hr i (insertAfter a x)
    (fun hfree => ⟨?_, us ++ [a], vs, by simp [hitems], ?_, ?_⟩) fun howner => ?_
  · simp only [SList.insertAfter, insert_of_free hr hfree]
  · simp [insertAfter_middle hnot]
  · exact linkedIn_insertAfter_single hr hs hfree hitems
  · simp [SList.insertAfter, (insert_of_owned hr howner i (x :: ·)).1]

theorem insertBefore_slist (hs : ¬ double i) (hr : Refines double h l) {b : α}
    (hb : b ∈ l.items i) (x : α) (fuel : Nat) (hfuel : (l.items i).length < fuel) :
    ∃ h', SList.insertBefore fuel h i b x = some (h', decide (l.owner x = none)) ∧
      Refines double h' (l.insertWith i x (insertBefore b x)) := by
  by_cases howner : l.owner x = none
  · obtain ⟨us, vs, hitems, hnot⟩ := split_of_mem hr hb
    rw [hitems, List.length_append] at hfuel
    obtain ⟨h', hinsert, hin⟩ :=
      linkedIn_insertBefore_single hr hs howner hitems hnot fuel (by omega)
    exact ⟨h', by simp [hinsert, howner],
      refines_of_linkedIn hr howner hitems _ (insertBefore_middle hnot vs) hin⟩
  · obtain ⟨hrefused, hrefines⟩ := insert_of_owned hr howner i (insertBefore b x)
    exact ⟨_, by simp [SList.insertBefore, hrefused, howner], hrefines⟩

theorem get_slist (hs : ¬ double i) (hr : Refines double h l) :
    (SList.get h i).2 = (l.get i).1 ∧ Refines double (SList.get h i).1 (l.get i).2 := by
  rw [Lists.get]
  cases hitems : l.items i with
  | nil =>
      have hhead : h.headPtr i = none := by rw [headPtr_eq hr, hitems, List.head?_nil]
      simp only [SList.get, hhead]
      exact ⟨trivial, hr⟩
  | cons x xs =>
      obtain ⟨hitem, hout⟩ := linkedOut_get_single hr hs hitems
      exact ⟨hitem, refines_of_linkedOut hr hitems (List.not_mem_nil) hout⟩

theorem getLast_slist (hs : ¬ double i) (hr : Refines double h l) (fuel : Nat)
    (hfuel : (l.items i).length < fuel) :
    ∃ h', SList.getLast fuel h i = some (h', (l.getLast i).1) ∧
      Refines double h' (l.getLast i).2 := by
  simp only [SList.getLast, Lists.getLast, (hr.links i).tail]
  cases (l.items i).getLast? with
  | none => exact ⟨h, rfl, hr⟩
  | some x =>
      obtain ⟨h', hremove, hrefines⟩ := remove_slist hs hr x fuel hfuel
      exact ⟨h', by simp only [hremove, Option.map_some], hrefines⟩

theorem implements_slist :
    Implements double (fun i => ¬ double i) (SList.methods : Methods ι α) := by
  constructor
  · exact fun i hs hr => get_slist hs hr
  · exact fun i fuel hs hr hfuel => getLast_slist hs hr fuel hfuel
  · exact fun i x hs hr => put_slist hs hr x
  · exact fun i x hs hr => putFirst_slist hs hr x
  · exact fun i x fuel hs hr hfuel => remove_slist hs hr x fuel hfuel
  · exact fun i a x hs hr ha => insertAfter_slist hs hr ha x
  · exact fun i b x fuel hs hr hb hfuel => insertBefore_slist hs hr hb x fuel hfuel

end Methods

end ColonyPico.Container.ListRefinement
