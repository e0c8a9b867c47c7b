import Mathlib.Data.List.TakeWhile
import ColonyPico.Dm.ModelDatabase

/-!
Enumerations of a model database by name, while model points are constructed and other
enumerations go on.
-/

namespace ColonyPico.Dm.NameEnumeration

open ColonyPico.Foundations.OrderedInsertion
open ColonyPico.Foundations.TextOrder
open ColonyPico.Dm.ModelDatabase

variable {κ α : Type}

/-- A call on the database; the enumerations are told apart. -/
inductive Op (κ α : Type) where
  | insert_ (mpToAdd : α)
  | getFirstByName (e : κ)
  | getNextByName (e : κ)
  deriving DecidableEq

/-- The database, and what the enumerations got last and in all. -/
structure World (κ α : Type) where
  db : Database α
  current : κ → Option α
  visited : κ → List α

def World.init : World κ α :=
  { db := Database.init, current := fun _ => none, visited := fun _ => [] }

section Code

variable [DecidableEq κ] [DecidableEq α] (name : α → List UInt8) (fuel : Nat)

/-- An enumeration that has come to its end makes no further calls. -/
def apply (w : World κ α) : Op κ α → Option (World κ α)
  | .insert_ mpToAdd => some { w with db := insert_ w.db mpToAdd }
  | .getFirstByName e => do
      let (db, result) ← getFirstByName name fuel w.db
      pure { db := db
             current := Function.update w.current e result
             visited := Function.update w.visited e result.toList }
  | .getNextByName e =>
      match w.current e with
      | none => some w
      | some currentModelPoint =>
          let result := getNextByName w.db currentModelPoint
          some { w with
                 current := Function.update w.current e result
                 visited := Function.update w.visited e (w.visited e ++ result.toList) }

def run : World κ α → List (Op κ α) → Option (World κ α)
  | w, [] => some w
  | w, op :: ops => do
      let w ← apply name fuel w op
      run w ops

end Code

/-- The points in the order of their construction. -/
def inserted : List (Op κ α) → List α
  | [] => []
  | .insert_ mpToAdd :: ops => mpToAdd :: inserted ops
  | .getFirstByName _ :: ops => inserted ops
  | .getNextByName _ :: ops => inserted ops

def Op.starts : Op κ α → Bool
  | .getFirstByName _ => true
  | _ => false

/-- The calls before the first enumeration starts. -/
def early (ops : List (Op κ α)) : List (Op κ α) :=
  ops.takeWhile fun op => !op.starts

def late (ops : List (Op κ α)) : List (Op κ α) :=
  ops.dropWhile fun op => !op.starts

/-- No point is missed or repeated; those from before the first enumeration stand in the order of
their names, behind the later ones, the latest first. -/
structure Order (name : α → List UInt8) (ops : List (Op κ α)) (order : List α) : Prop where
  once : order.Perm (inserted ops)
  parts : ∃ byName : List α, order = (inserted (late ops)).reverse ++ byName ∧
    byName.Perm (inserted (early ops)) ∧
    byName.Pairwise fun a b => strcmp (name a) (name b) ≤ 0

/-- Every point once, in non-decreasing order of the names. -/
def VisitsByName (name : α → List UInt8) (points visited : List α) : Prop :=
  visited.Perm points ∧ visited.Pairwise fun a b => strcmp (name a) (name b) ≤ 0

/-- The list of the database and whether it has been sorted. -/
structure Listing (α : Type) where
  points : List α
  m_listSorted : Bool

namespace Listing

def init : Listing α :=
  { points := [], m_listSorted := false }

def apply (name : α → List UInt8) (li : Listing α) : Op κ α → Listing α
  | .insert_ mpToAdd => { li with points := mpToAdd :: li.points }
  | .getFirstByName _ =>
      if li.m_listSorted then li
      else { points := insertAll (fun x => codes (name x)) [] li.points, m_listSorted := true }
  | .getNextByName _ => li

def after (name : α → List UInt8) : Listing α → List (Op κ α) → Listing α
  | li, [] => li
  | li, op :: ops => after name (li.apply name op) ops

end Listing

/-- The database holds what is listed. -/
structure Agrees (db : Database α) (li : Listing α) : Prop where
  listed : Listed db.heap li.points
  sorted : db.m_listSorted = li.m_listSorted

section Inserted

theorem inserted_append (xs ys : List (Op κ α)) :
    inserted (xs ++ ys) = inserted xs ++ inserted ys := by
  induction xs with
  | nil => rfl
  | cons op xs ih => cases op <;> simp [inserted, ih]

theorem inserted_early_late (ops : List (Op κ α)) :
    inserted (early ops) ++ inserted (late ops) = inserted ops := by
  rw [← inserted_append, early, late, List.takeWhile_append_dropWhile]

end Inserted

section Listings

variable {name : α → List UInt8}

/-- The list only grows at its front unless an enumeration sorts it. -/
theorem after_of_kept (li : Listing α) (ops : List (Op κ α))
    (hkept : li.m_listSorted = true ∨ ∀ op ∈ ops, op.starts = false) :
    li.after name ops = { li with points := (inserted ops).reverse ++ li.points } := by
  induction ops generalizing li with
  | nil => rfl
  | cons op ops ih =>
      have hrest : ∀ op' ∈ ops, op' ∈ op :: ops := fun op' => List.mem_cons_of_mem op
      have hstep : (li.apply name op).m_listSorted = true ∨ ∀ op' ∈ ops, op'.starts = false := by
        rcases hkept with hsorted | hnone
        · left
          cases op <;> simp [Listing.apply, hsorted]
        · exact Or.inr fun op' hop => hnone op' (hrest op' hop)
      have happly : li.apply name op =
          { li with points := (inserted [op]).reverse ++ li.points } := by
        cases op with
        | insert_ x => rfl
        | getFirstByName e =>
            rcases hkept with hsorted | hnone
            · rw [Listing.apply, if_pos hsorted]
              rfl
            · exact absurd (hnone _ List.mem_cons_self) (by simp [Op.starts])
        | getNextByName e => rfl
      have hcons : inserted (op :: ops) = inserted [op] ++ inserted ops :=
        inserted_append [op] ops
      rw [Listing.after, ih _ hstep, happly, hcons]
      simp

theorem after_append (li : Listing α) (xs ys : List (Op κ α)) :
    li.after name (xs ++ ys) = (li.after name xs).after name ys := by
  induction xs generalizing li with
  | nil => rfl
  | cons op xs ih => exact ih _

theorem starts_of_early {ops : List (Op κ α)} {op : Op κ α} (hop : op ∈ early ops) :
    op.starts = false := by
  simpa using List.mem_takeWhile_imp hop

theorem starts_of_late {ops rest : List (Op κ α)} {op : Op κ α} (hlate : late ops = op :: rest) :
    op.starts = true := by
  have hhead := List.head?_dropWhile_not (fun op : Op κ α => !op.starts) ops
  rw [show ops.dropWhile (fun op => !op.starts) = op :: rest from hlate] at hhead
  simpa using hhead

theorem after_first (name : α → List UInt8) {ops : List (Op κ α)}
    (hnone : ∀ op ∈ ops, op.starts = false) {op : Op κ α} (hstarts : op.starts = true) :
    (Listing.init.after name ops).apply name op =
      { points := insertAll (fun x => codes (name x)) [] (inserted ops).reverse
        m_listSorted := true } := by
  rw [after_of_kept Listing.init ops (Or.inr hnone)]
  cases op with
  | insert_ x => exact absurd hstarts (by simp [Op.starts])
  | getFirstByName e => simp [Listing.apply, Listing.init]
  | getNextByName e => exact absurd hstarts (by simp [Op.starts])

theorem byName_insertAll (name : α → List UInt8) (xs : List α) :
    (insertAll (fun x => codes (name x)) [] xs.reverse).Perm xs ∧
      (insertAll (fun x => codes (name x)) [] xs.reverse).Pairwise
        (fun a b => strcmp (name a) (name b) ≤ 0) := by
  constructor
  · have hperm : (insertAll (fun x => codes (name x)) [] xs.reverse).Perm (xs.reverse ++ []) :=
      perm_insertAll [] xs.reverse
    rw [List.append_nil] at hperm
    exact hperm.trans xs.reverse_perm
  · have hsorted : (insertAll (fun x => codes (name x)) [] xs.reverse).Pairwise
        (fun a b => codes (name a) ≤ codes (name b)) := pairwise_insertAll List.Pairwise.nil _
    exact hsorted.imp fun hle => (strcmp_nonpos_iff _ _).mpr hle

theorem order_of_listing (name : α → List UInt8) (before : List (Op κ α)) (e : κ) :
    ∃ order, Order name before order ∧
      Listing.init.after name (before ++ [.getFirstByName e]) =
        { points := order, m_listSorted := true } := by
  obtain ⟨hperm, hpairwise⟩ := byName_insertAll name (inserted (early before))
  refine ⟨(inserted (late before)).reverse ++
    insertAll (fun x => codes (name x)) [] (inserted (early before)).reverse,
    ⟨?_, _, rfl, hperm, hpairwise⟩, ?_⟩
  · rw [← inserted_early_late before]
    exact ((List.reverse_perm _).append hperm).trans List.perm_append_comm
  · have hsplit : early before ++ late before = before := List.takeWhile_append_dropWhile
    have hearly : ∀ op ∈ early before, op.starts = false := fun op hop => starts_of_early hop
    cases hlate : late before with
    | nil =>
        rw [hlate, List.append_nil] at hsplit
        have hstarts : (Op.getFirstByName e : Op κ α).starts = true := rfl
        have hend := after_first name hearly hstarts
        rw [hsplit] at hend
        rw [after_append, hsplit]
        exact hend
    | cons op rest =>
        have hstarts := starts_of_late hlate
        have hinserted : inserted (op :: rest ++ [.getFirstByName e]) = inserted (op :: rest) := by
          rw [inserted_append]
          exact List.append_nil _
        have hskip : inserted (op :: rest ++ [.getFirstByName e]) =
            inserted (rest ++ [.getFirstByName e]) := by
          cases op with
          | insert_ x => exact absurd hstarts (by simp [Op.starts])
          | getFirstByName e => rfl
          | getNextByName e => rfl
        rw [← hsplit, hlate, List.append_assoc, after_append, List.cons_append, Listing.after,
          after_first name hearly hstarts, after_of_kept _ _ (Or.inl rfl), ← hskip, hinserted,
          ← hlate, hsplit]

end Listings

section Runs

variable [DecidableEq κ] [DecidableEq α] {name : α → List UInt8} {fuel : Nat} {w : World κ α}
  {li : Listing α}

omit [DecidableEq κ] in
theorem insert_agrees {db : Database α} (hag : Agrees db li) {x : α} (hx : x ∉ li.points) :
    Agrees (insert_ db x) (li.apply name (.insert_ x : Op κ α)) :=
  ⟨listed_putFirst hag.listed hx, hag.sorted⟩

omit [DecidableEq κ] in
variable (name) in
theorem getFirstByName_agrees {db : Database α} (hag : Agrees db li)
    (hfuel : 2 * li.points.length < fuel) (e : κ) :
    ∃ db', getFirstByName name fuel db =
        some (db', (li.apply name (.getFirstByName e)).points.head?) ∧
      Agrees db' (li.apply name (.getFirstByName e)) := by
  cases hsorted : li.m_listSorted with
  | true =>
      rw [Listing.apply, if_pos hsorted]
      refine ⟨db, ?_, hag⟩
      simp [getFirstByName, hag.sorted.trans hsorted, first_listed hag.listed]
  | false =>
      obtain ⟨h', hsort, hlisted⟩ := listed_sortList name hag.listed hfuel
      rw [Listing.apply, if_neg (by simp [hsorted])]
      refine ⟨{ heap := h', m_listSorted := true }, ?_, hlisted, rfl⟩
      simp [getFirstByName, hag.sorted.trans hsorted, hsort, first_listed hlisted]

/-- Calls that construct new points only, and few enough for the sort. -/
structure Fresh (fuel : Nat) (li : Listing α) (ops : List (Op κ α)) : Prop where
  nodup : (inserted ops).Nodup
  fresh : ∀ x ∈ inserted ops, x ∉ li.points
  fuel : 2 * (li.points.length + ops.length) < fuel

omit [DecidableEq κ] [DecidableEq α] in
variable (name) in
theorem length_apply (li : Listing α) (op : Op κ α) :
    (li.apply name op).points.length ≤ li.points.length + 1 := by
  cases op with
  | insert_ x => exact le_refl _
  | getFirstByName e =>
      rw [Listing.apply]
      split_ifs with hsorted
      · exact Nat.le_succ _
      · rw [(perm_insertAll _ _).length_eq]
        simp
  | getNextByName e => exact Nat.le_succ _

omit [DecidableEq κ] [DecidableEq α] in
theorem mem_apply {op : Op κ α} {x : α} (hx : x ∈ (li.apply name op).points) :
    x ∈ inserted [op] ∨ x ∈ li.points := by
  cases op with
  | insert_ y => exact List.mem_cons.mp hx |>.imp (fun heq => by simp [inserted, heq]) id
  | getFirstByName e =>
      right
      rw [Listing.apply] at hx
      split_ifs at hx with hsorted
      · exact hx
      · simpa using (perm_insertAll _ _).mem_iff.mp hx
  | getNextByName e => exact Or.inr hx

omit [DecidableEq κ] [DecidableEq α] in
variable (name) in
theorem fresh_apply {op : Op κ α} {ops : List (Op κ α)} (hfresh : Fresh fuel li (op :: ops)) :
    Fresh fuel (li.apply name op) ops := by
  have hcons : inserted (op :: ops) = inserted [op] ++ inserted ops := inserted_append [op] ops
  obtain ⟨hnodup, hnew, hfuel⟩ := hfresh
  rw [hcons] at hnodup hnew
  rw [List.length_cons] at hfuel
  obtain ⟨-, hrest, hdisjoint⟩ := List.nodup_append.mp hnodup
  have hlength := length_apply name li op
  refine ⟨hrest, ?_, by omega⟩
  intro x hx hmem
  rcases mem_apply hmem with hin | hin
  · exact hdisjoint x hin x hx rfl
  · exact hnew x (List.mem_append_right _ hx) hin

variable (name) in
theorem apply_agrees (hag : Agrees w.db li) {op : Op κ α} {ops : List (Op κ α)}
    (hfresh : Fresh fuel li (op :: ops)) :
    ∃ w', apply name fuel w op = some w' ∧ Agrees w'.db (li.apply name op) := by
  cases op with
  | insert_ x => exact ⟨_, rfl, insert_agrees (κ := κ) hag (hfresh.fresh x List.mem_cons_self)⟩
  | getFirstByName e =>
      have hfuel : 2 * li.points.length < fuel := by
        have hall := hfresh.fuel
        omega
      obtain ⟨db, hfirst, hagrees⟩ := getFirstByName_agrees name hag hfuel e
      exact ⟨_, by rw [apply, hfirst]; rfl, hagrees⟩
  | getNextByName e =>
      rw [apply]
      cases w.current e with
      | none => exact ⟨w, rfl, hag⟩
      | some p => exact ⟨_, rfl, hag⟩

variable (name) in
theorem run_agrees (hag : Agrees w.db li) {ops : List (Op κ α)} (hfresh : Fresh fuel li ops) :
    ∃ w', run name fuel w ops = some w' ∧ Agrees w'.db (li.after name ops) := by
  induction ops generalizing w li with
  | nil => exact ⟨w, rfl, hag⟩
  | cons op ops ih =>
      obtain ⟨w', happly, hagrees⟩ := apply_agrees name hag hfresh
      obtain ⟨w'', hrun, hafter⟩ := ih hagrees (fresh_apply name hfresh)
      exact ⟨w'', by simp [run, happly, hrun], hafter⟩

theorem run_append (w : World κ α) (xs ys : List (Op κ α)) :
    run name fuel w (xs ++ ys) = (run name fuel w xs).bind fun w => run name fuel w ys := by
  induction xs generalizing w with
  | nil => rfl
  | cons op xs ih =>
      rw [List.cons_append, run, run]
      cases apply name fuel w op with
      | none => rfl
      | some w => exact ih w

/-- An enumeration has made `k` calls of `getNextByName()` since it started on `order`. -/
structure Follows (w : World κ α) (li : Listing α) (e : κ) (order : List α) (k : Nat) : Prop where
  sorted : li.m_listSorted = true
  points : ∃ newer, li.points = newer ++ order
  current : w.current e = order[k]?
  visited : w.visited e = order.take (k + 1)

omit [DecidableEq α] in
theorem follows_start {db : Database α} {order : List α} (e : κ) :
    Follows { db := db
              current := Function.update w.current e order.head?
              visited := Function.update w.visited e order.head?.toList }
      { points := order, m_listSorted := true } e order 0 := by
  refine ⟨rfl, ⟨[], rfl⟩, ?_, ?_⟩
  · simp only [Function.update_self, List.head?_eq_getElem?]
  · simp only [Function.update_self]
    cases order <;> rfl

omit [DecidableEq κ] [DecidableEq α] in
theorem next_of_current {db : Database α} {newer order : List α} {k : Nat} {current : Option α}
    (hag : Agrees db li) (hpoints : li.points = newer ++ order) (hcurrent : current = order[k]?)
    (p : α) (hp : current = some p) : getNextByName db p = order[k + 1]? := by
  obtain ⟨hk, hget⟩ := List.getElem?_eq_some_iff.mp (hcurrent ▸ hp)
  have hsplit : li.points = (newer ++ order.take k) ++ p :: order.drop (k + 1) := by
    rw [hpoints, List.append_assoc, ← hget, List.getElem_cons_drop, List.take_append_drop]
  have hlisted := hag.listed
  rw [hsplit] at hlisted
  rw [getNextByName, next_listed hlisted, List.head?_drop]

/-- Whatever else is called, an enumeration goes on along its order. -/
theorem follows_apply {e : κ} {order : List α} {k : Nat} (hag : Agrees w.db li)
    (hfollows : Follows w li e order k) {op : Op κ α} (hop : op ≠ .getFirstByName e)
    {w' : World κ α} (happly : apply name fuel w op = some w') :
    Follows w' (li.apply name op) e order (k + [op].count (.getNextByName e)) := by
  obtain ⟨hsorted, ⟨newer, hpoints⟩, hcurrent, hvisited⟩ := hfollows
  cases op with
  | insert_ x =>
      obtain rfl := Option.some.inj happly
      exact ⟨hsorted, ⟨x :: newer, congrArg (x :: ·) hpoints⟩, hcurrent, hvisited⟩
  | getFirstByName e' =>
      have hne : e ≠ e' := fun heq => hop (by rw [heq])
      have hkeep : li.apply name (.getFirstByName e') = li := by
        rw [Listing.apply, if_pos hsorted]
      obtain ⟨result, hfirst⟩ : ∃ result, getFirstByName name fuel w.db = some (w.db, result) :=
        ⟨_, by simp [getFirstByName, hag.sorted.trans hsorted]; rfl⟩
      rw [apply, hfirst] at happly
      obtain rfl := Option.some.inj happly
      rw [hkeep]
      refine ⟨hsorted, ⟨newer, hpoints⟩, ?_, ?_⟩
      · simp only [Function.update_of_ne hne]
        exact hcurrent
      · simp only [Function.update_of_ne hne]
        exact hvisited
  | getNextByName e' =>
      rw [apply] at happly
      rcases eq_or_ne e e' with rfl | hne
      · rw [List.count_singleton_self]
        have hnext := next_of_current hag hpoints hcurrent
        cases hlast : w.current e with
        | none =>
            simp only [hlast, Option.some.injEq] at happly
            subst happly
            have hend : order.length ≤ k := List.getElem?_eq_none_iff.mp (hcurrent ▸ hlast)
            refine ⟨hsorted, ⟨newer, hpoints⟩, ?_, ?_⟩
            · rw [hlast, List.getElem?_eq_none (by omega)]
            · rw [hvisited, List.take_of_length_le (by omega), List.take_of_length_le (by omega)]
        | some p =>
            simp only [hlast, Option.some.injEq, hnext p hlast] at happly
            subst happly
            refine ⟨hsorted, ⟨newer, hpoints⟩, ?_, ?_⟩
            · simp only [Function.update_self]
            · simp only [Function.update_self, hvisited]
              exact List.take_add_one.symm
      · have hcount : [(.getNextByName e' : Op κ α)].count (.getNextByName e) = 0 := by
          refine List.count_eq_zero_of_not_mem fun hmem => hne ?_
          exact Op.getNextByName.inj (List.mem_singleton.mp hmem)
        rw [hcount]
        cases hlast : w.current e' with
        | none =>
            simp only [hlast, Option.some.injEq] at happly
            subst happly
            exact ⟨hsorted, ⟨newer, hpoints⟩, hcurrent, hvisited⟩
        | some p =>
            simp only [hlast, Option.some.injEq] at happly
            subst happly
            refine ⟨hsorted, ⟨newer, hpoints⟩, ?_, ?_⟩
            · simp only [Function.update_of_ne hne]
              exact hcurrent
            · simp only [Function.update_of_ne hne]
              exact hvisited

theorem follows_run {e : κ} {order : List α} {k : Nat} (hag : Agrees w.db li)
    (hfollows : Follows w li e order k) {ops : List (Op κ α)} (hfresh : Fresh fuel li ops)
    (hops : .getFirstByName e ∉ ops) :
    ∃ w', run name fuel w ops = some w' ∧
      Follows w' (li.after name ops) e order (k + ops.count (.getNextByName e)) := by
  induction ops generalizing w li k with
  | nil => exact ⟨w, rfl, hfollows⟩
  | cons op ops ih =>
      obtain ⟨hne, hrest⟩ := not_or.mp (mt List.mem_cons.mpr hops)
      obtain ⟨w', happly, hagrees⟩ := apply_agrees name hag hfresh
      obtain ⟨w'', hrun, hafter⟩ := ih hagrees (follows_apply hag hfollows (Ne.symm hne) happly)
        (fresh_apply name hfresh) hrest
      refine ⟨w'', by simp [run, happly, hrun], ?_⟩
      rw [← List.singleton_append, List.count_append, ← Nat.add_assoc]
      exact hafter

omit [DecidableEq κ] [DecidableEq α] in
theorem agrees_init : Agrees (World.init : World κ α).db Listing.init :=
  ⟨listed_init, rfl⟩

omit [DecidableEq κ] [DecidableEq α] in
variable (name) in
theorem fresh_append {xs ys : List (Op κ α)} (hfresh : Fresh fuel li (xs ++ ys)) :
    Fresh fuel li xs ∧ Fresh fuel (li.after name xs) ys := by
  constructor
  · obtain ⟨hnodup, hnew, hfuel⟩ := hfresh
    rw [inserted_append] at hnodup hnew
    rw [List.length_append] at hfuel
    exact ⟨(List.nodup_append.mp hnodup).1, fun x hx => hnew x (List.mem_append_left _ hx),
      by omega⟩
  · induction xs generalizing li with
    | nil => exact hfresh
    | cons op xs ih => exact ih (fresh_apply name hfresh)

/-- Whatever is constructed and enumerated at the same time, an enumeration goes along the points
of its start in their order. -/
theorem enumeration_of_run (name : α → List UInt8) {before after : List (Op κ α)} {e : κ}
    (hnodup : (inserted (before ++ .getFirstByName e :: after)).Nodup)
    (hafter : .getFirstByName e ∉ after) {fuel : Nat}
    (hfuel : 2 * (before ++ .getFirstByName e :: after).length < fuel) :
    ∃ w order, run name fuel World.init (before ++ .getFirstByName e :: after) = some w ∧
      Order name before order ∧
      w.visited e = order.take (after.count (.getNextByName e) + 1) ∧
      w.current e = order[after.count (.getNextByName e)]? := by
  have hall : Fresh fuel (Listing.init : Listing α) (before ++ .getFirstByName e :: after) :=
    ⟨hnodup, fun x _ => List.not_mem_nil, by simpa [Listing.init] using hfuel⟩
  obtain ⟨hbefore, hfresh⟩ := fresh_append name hall
  obtain ⟨order, horder, hlisting⟩ := order_of_listing name before e
  rw [after_append] at hlisting
  obtain ⟨w, hrun, hagrees⟩ := run_agrees name agrees_init hbefore
  have hlength : 2 * (Listing.init.after name before).points.length < fuel := by
    have hall := hfresh.fuel
    omega
  obtain ⟨db, hfirst, hstarted⟩ := getFirstByName_agrees name hagrees hlength e
  have hrest := fresh_apply name hfresh
  have hsame : (Listing.init.after name before).apply name (.getFirstByName e) =
      { points := order, m_listSorted := true } := hlisting
  rw [hsame] at hfirst hstarted hrest
  obtain ⟨w', hrun', hfollows⟩ :=
    follows_run (w := ⟨db, _, _⟩) hstarted (follows_start (w := w) e) hrest hafter
  rw [Nat.zero_add] at hfollows
  refine ⟨w', order, ?_, horder, hfollows.visited, hfollows.current⟩
  rw [run_append, hrun, Option.bind_some, run, apply, hfirst]
  exact hrun'

end Runs

section Letters

/-- Two points with the names `a` and `b`. -/
def letter : Bool → List UInt8
  | false => [97]
  | true => [98]

theorem enumeration_of_run_two :
    ∃ w order, run letter 20 World.init
        ([.insert_ true, .insert_ false] ++ .getFirstByName () :: [.getNextByName ()]) = some w ∧
      Order letter ([.insert_ true, .insert_ false] : List (Op Unit Bool)) order ∧
      w.visited () = order.take 2 ∧ w.current () = order[1]? :=
  enumeration_of_run letter (by decide) (by decide) (by decide)

/-- A point that is constructed after the first enumeration comes first, whatever its name. -/
theorem not_visitsByName_late :
    ∃ w, run letter 20 World.init [.insert_ false, .getFirstByName (), .insert_ true,
        .getFirstByName (), .getNextByName (), .getNextByName ()] = some w ∧
      w.current () = none ∧ ¬ VisitsByName letter [false, true] (w.visited ()) := by
  refine ⟨_, rfl, rfl, ?_⟩
  rintro ⟨-, hpairwise⟩
  revert hpairwise
  decide

end Letters

end ColonyPico.Dm.NameEnumeration
