import ColonyPico.Math.ExpressionReadings

/-!
What the evaluator finds: the value of every expression that the text starts with and behind which
no operator follows.  So a result is right exactly when the text is neither an expression without
its last operand nor one in front of other text.
-/

namespace ColonyPico.Math.ExpressionEvaluation

open ColonyPico.Foundations.OperatorPrecedence
open ColonyPico.Math.ExpressionGrammar
open ColonyPico.Math.ExpressionReadings
open ColonyPico.Math.ExpressionSteps
open ColonyPico.Math.IntegerExpressionParser
open ColonyPico.Text.StringEdits

variable {ty : IntegerType}

/-! The operators in front of the last operand -/

/-- What an expression leaves on the stack in front of its last operand. -/
def spine (ty : IntegerType) : Expr → List (OperatorValue ty)
  | .binary o left right => spine ty right ++ [⟨some o, (left.value ty).getD 0⟩]
  | _ => []

def lastValue (ty : IntegerType) : Expr → ty.T
  | .binary _ _ right => lastValue ty right
  | e => (e.value ty).getD 0

theorem value_binary {o : BinOp} {left right : Expr} {v : ty.T}
    (hvalue : (Expr.binary o left right).value ty = some v) :
    ∃ a b, left.value ty = some a ∧ right.value ty = some b ∧ binaryValue ty o a b = some v := by
  obtain ⟨a, ha, hrest⟩ := Option.bind_eq_some_iff.mp hvalue
  obtain ⟨b, hb, hv⟩ := Option.bind_eq_some_iff.mp hrest
  exact ⟨a, b, ha, hb, hv⟩

theorem spine_leaf {e : Expr} {v : ty.T} (hroot : e.root = none) (hvalue : e.value ty = some v) :
    spine ty e = [] ∧ lastValue ty e = v := by
  have hget : (e.value ty).getD 0 = v := by
    rw [hvalue]
    rfl
  cases e with
  | binary o left right => cases hroot
  | _ => exact ⟨rfl, hget⟩

/-- The inner loop of the source computes the value of what lies on the stack. -/
theorem reduce_spine {op : Operator} {e : Expr} {v : ty.T} (hconforms : e.Conforms)
    (hvalue : e.value ty = some v) (hop : ∀ o ∈ e.root, table.Reduces op (some o))
    (stack : List (OperatorValue ty)) :
    reduce ty op (spine ty e ++ stack) (lastValue ty e) = reduce ty op stack v := by
  induction e generalizing v stack with
  | binary o left right _ ih =>
      obtain ⟨a, b, ha, hb, hv⟩ := value_binary hvalue
      obtain ⟨-, hright, -, -, hnot⟩ := hconforms
      have ho : table.Reduces op (some o) := hop o rfl
      rw [spine, lastValue, List.append_assoc,
        ih hright hb (fun o' ho' => ho.of_not (hnot o' ho')), ha]
      show reduce ty op (⟨some o, a⟩ :: stack) b = _
      rw [reduce, if_pos ((reduces_iff _ _).mpr ho)]
      dsimp only
      rw [calculate_eq, hv]
  | _ =>
      obtain ⟨hspine, hlast⟩ := spine_leaf rfl hvalue
      rw [hspine, hlast]
      rfl

theorem reduce_shift {op : Operator} {stack : List (OperatorValue ty)} (hstack : stack ≠ [])
    (hop : ¬table.Reduces op (Pending.topOp stack)) (v : ty.T) :
    reduce ty op stack v = .shift stack v := by
  cases stack with
  | nil => exact absurd rfl hstack
  | cons top below =>
      rw [reduce]
      exact if_neg (mt (reduces_iff _ _).mp hop)

/-! Parts of readings -/

section Parts

variable {text rest : List UInt8} {v : ty.T}

theorem reading_number {n : Nat} (h : Reading ty text v rest (.number n)) :
    v = .ofNat _ n ∧ ∃ behind, nextToken text = some (.number n, behind) ∧
      eatSpaces behind = eatSpaces rest := by
  obtain ⟨behind, htoken, hbehind⟩ := h.reads.cons_inv
  exact ⟨(Option.some.inj h.value).symm, behind, htoken, hbehind.nil_inv⟩

theorem reading_missing (h : Reading ty text v rest .missing) :
    v = 0 ∧ nextToken text = none ∧ eatSpaces rest = [] := by
  have hend := h.atEnd trivial
  exact ⟨(Option.some.inj h.value).symm, (nextToken_congr h.reads.nil_inv).trans hend,
    nextToken_eq_none.mp hend⟩

theorem reading_parens {inner : Expr} (h : Reading ty text v rest (.parens inner)) :
    ∃ inside behind rest', nextToken text = some (.opening, inside) ∧
      Reading ty inside v behind inner ∧ nextToken behind = some (.closing, rest') ∧
      eatSpaces rest' = eatSpaces rest := by
  obtain ⟨inside, hopening, hinside⟩ := h.reads.cons_inv
  obtain ⟨behind, hinner, hbehind⟩ := hinside.split
  obtain ⟨rest', hclosing, hrest⟩ := hbehind.cons_inv
  obtain ⟨hconforms, hcomplete⟩ := h.conforms
  exact ⟨inside, behind, rest', hopening,
    ⟨hconforms, h.value, hinner, fun hincomplete => absurd hincomplete hcomplete⟩, hclosing,
    hrest.nil_inv⟩

theorem reading_unary {o : UnaryOp} {operand : Expr}
    (h : Reading ty text v rest (.unary o operand)) :
    operand.root = none ∧ ∃ a behind, v = unaryValue ty o a ∧
      nextToken text = some (o.token, behind) ∧ Reading ty behind a rest operand := by
  obtain ⟨behind, htoken, hbehind⟩ := h.reads.cons_inv
  obtain ⟨a, ha, hv⟩ := Option.map_eq_some_iff.mp h.value
  obtain ⟨hconforms, hroot⟩ := h.conforms
  exact ⟨hroot, a, behind, hv.symm, htoken, hconforms, ha, hbehind, h.atEnd⟩

theorem reading_binary {o : BinOp} {left right : Expr}
    (h : Reading ty text v rest (.binary o left right)) :
    ∃ a b middle behind, binaryValue ty o a b = some v ∧ Reading ty text a middle left ∧
      nextToken middle = some (.op o, behind) ∧ Reading ty behind b rest right := by
  obtain ⟨a, b, ha, hb, hv⟩ := value_binary h.value
  obtain ⟨hleft, hright, hcomplete, -, -⟩ := h.conforms
  obtain ⟨middle, hmiddle, hrest⟩ := h.reads.split
  obtain ⟨behind, htoken, hbehind⟩ := hrest.cons_inv
  exact ⟨a, b, middle, behind, hv,
    ⟨hleft, ha, hmiddle, fun hincomplete => absurd hincomplete hcomplete⟩, htoken,
    hright, hb, hbehind, h.atEnd⟩

end Parts

/-! The recursion -/

/-- The value and what lies behind it, unless the stack overflows. -/
def Finds (v : ty.T) (rest : List UInt8) (stack : List (OperatorValue ty))
    (result : Parser ty × Option ty.T) : Prop :=
  result.1.overflowed = true ∨
    result.2 = some v ∧ eatSpaces result.1.rest = eatSpaces rest ∧ result.1.stack = stack

def ValueFinds (ty : IntegerType) (e : Expr) : Prop :=
  ∀ (fuel : Nat) (p : Parser ty) (v : ty.T) (rest : List UInt8), e.root = none →
    Reading ty p.rest v rest e → 3 * size p.rest + 1 ≤ fuel →
      Finds v rest p.stack (parseValue ty fuel p)

/-- What comes of an expression comes of the loop behind its last operand, with the operators of the
expression on the stack. -/
def LoopFinds (ty : IntegerType) (e : Expr) : Prop :=
  ∀ (fuel : Nat) (p : Parser ty) (v : ty.T) (rest : List UInt8)
    (result : Parser ty × Option ty.T → Prop),
    Reading ty p.rest v rest e → p.stack ≠ [] →
      (∀ o ∈ e.root, ¬table.Reduces (some o) (Pending.topOp p.stack)) →
      3 * size p.rest + 2 ≤ fuel → (∀ r, r.1.overflowed = true → result r) →
      (∀ (fuel' : Nat) (p' : Parser ty), eatSpaces p'.rest = eatSpaces rest →
        p'.stack = spine ty e ++ p.stack → 3 * size p'.rest + 2 ≤ fuel' →
          result (parseLoop ty fuel' p' (lastValue ty e))) →
      result (valueThenLoop ty fuel p)

theorem loopFinds_leaf {e : Expr} (hroot : e.root = none) (hvalue : ValueFinds ty e) :
    LoopFinds ty e := by
  intro fuel p v rest result hreading hstack hbelow hfuel hsticky hrest
  have hfinds := hvalue fuel p v rest hroot hreading ((Nat.le_succ _).trans hfuel)
  have hprogress := (progress fuel).1 p
  obtain ⟨hspine, hlast⟩ := spine_leaf hroot hreading.value
  unfold valueThenLoop
  rcases hrun : parseValue ty fuel p with ⟨q, a⟩
  rw [hrun] at hfinds hprogress
  rcases hfinds with hover | ⟨ha, hspaces, hsame⟩
  · rcases a with _ | a
    · exact hsticky _ hover
    · exact hsticky _ (((progress fuel).2.2 q a).overflowed hover)
  · cases ha
    have hshorter : size q.rest ≤ size p.rest := hprogress.shorter
    have hnext := hrest fuel q hspaces (by rw [hspine]; exact hsame) (by omega)
    rwa [hlast] at hnext

theorem expr_finds {e : Expr} (hloop : LoopFinds ty e) {fuel : Nat} {p : Parser ty} {v : ty.T}
    {rest : List UInt8} (hreading : Reading ty p.rest v rest e) (hend : Ends rest)
    (hfuel : 3 * size p.rest + 3 ≤ fuel) : Finds v rest p.stack (parseExpr ty fuel p) := by
  obtain ⟨fuel, rfl⟩ := Nat.exists_eq_add_one_of_ne_zero (n := fuel) (by omega)
  have hnext := fun q : Parser ty => valueThenLoop_progress (progress fuel).1 (progress fuel).2.2 q
  rw [parseExpr_succ]
  rcases push_cases p ⟨none, 0⟩ with hpush | hpush
  · rw [hpush]
    refine hloop fuel { p with stack := ⟨none, 0⟩ :: p.stack } v rest (Finds v rest p.stack)
      hreading (List.cons_ne_nil _ _) (fun o _ => not_reduces_none o) (by dsimp only; omega)
      (fun r hover => .inl hover) ?_
    intro fuel' p' hspaces hstack hfuel'
    obtain ⟨fuel', rfl⟩ := Nat.exists_eq_add_one_of_ne_zero (n := fuel') (by omega)
    have hne : p'.stack ≠ [] := by
      rw [hstack]
      exact List.append_ne_nil_of_right_ne_nil _ (List.cons_ne_nil _ _)
    have hreduce : reduce ty none p'.stack (lastValue ty e) = .done p.stack v := by
      rw [hstack, reduce_spine hreading.conforms hreading.value fun o _ => reduces_none (some o)]
      rfl
    rw [parseLoop_ends fuel' p' _ hne ((ends_congr hspaces).mpr hend), hreduce]
    exact .inr ⟨rfl, (eatSpaces_eatSpaces _).trans hspaces, rfl⟩
  · rw [hpush]
    exact .inl ((hnext { p with overflowed := true }).overflowed rfl)

theorem valueFinds_parens {inner : Expr} (hinner : LoopFinds ty inner) :
    ValueFinds ty (.parens inner) := by
  intro fuel p v rest _ hreading hfuel
  obtain ⟨fuel, rfl⟩ := Nat.exists_eq_add_one_of_ne_zero (n := fuel) (by omega)
  obtain ⟨inside, behind, rest', hopening, hread, hclosing, hspaces⟩ := reading_parens hreading
  have hlt := size_of_nextToken hopening
  have hend : Ends behind := by
    intro found hfound
    cases hclosing.symm.trans hfound
    exact id
  have hfinds : Finds v behind p.stack (parseExpr ty fuel { p with rest := inside }) :=
    expr_finds hinner hread hend (by dsimp only; omega)
  rw [parseValue_succ, hopening]
  dsimp only [valueOf]
  rcases hrun : parseExpr ty fuel { p with rest := inside } with ⟨q, a⟩
  rw [hrun] at hfinds
  rcases hfinds with hover | ⟨ha, hq, hstack⟩
  · rcases a with _ | a
    · exact .inl hover
    · dsimp only
      split
      · exact .inl hover
      · exact .inl hover
  · cases ha
    dsimp only
    rw [(nextToken_congr hq).trans hclosing]
    exact .inr ⟨rfl, hspaces, hstack⟩

theorem valueFinds_unary {o : UnaryOp} {operand : Expr} (hoperand : ValueFinds ty operand) :
    ValueFinds ty (.unary o operand) := by
  intro fuel p v rest _ hreading hfuel
  obtain ⟨fuel, rfl⟩ := Nat.exists_eq_add_one_of_ne_zero (n := fuel) (by omega)
  obtain ⟨hroot, a, behind, rfl, htoken, hread⟩ := reading_unary hreading
  have hlt := size_of_nextToken htoken
  have hfinds := hoperand fuel { p with rest := behind } a rest hroot hread (by dsimp only; omega)
  have hmap : parseValue ty (fuel + 1) p = ((parseValue ty fuel { p with rest := behind }).1,
      (parseValue ty fuel { p with rest := behind }).2.map (unaryValue ty o)) := by
    rw [parseValue_succ, htoken]
    cases o with
    | complement => rfl
    | plus => exact Prod.ext rfl Option.map_id'.symm
    | minus => rfl
  rw [hmap]
  rcases hfinds with hover | ⟨ha, hspaces, hstack⟩
  · exact .inl hover
  · exact .inr ⟨congrArg (Option.map _) ha, hspaces, hstack⟩

theorem loopFinds_binary {o : BinOp} {left right : Expr} (hleft : LoopFinds ty left)
    (hright : LoopFinds ty right) : LoopFinds ty (.binary o left right) := by
  intro fuel p v rest result hreading hstack hbelow hfuel hsticky hrest
  obtain ⟨a, b, middle, behind, -, hreadLeft, htoken, hreadRight⟩ := reading_binary hreading
  obtain ⟨-, -, -, hrootLeft, hrootRight⟩ := hreading.conforms
  have ho : ¬table.Reduces (some o) (Pending.topOp p.stack) := hbelow o rfl
  refine hleft fuel p a middle result hreadLeft hstack (fun o' ho' hreduces => ?_) hfuel hsticky ?_
  · exact ho ((hrootLeft o' ho').trans hreduces)
  · intro fuel' p' hspaces hstack' hfuel'
    obtain ⟨fuel', rfl⟩ := Nat.exists_eq_add_one_of_ne_zero (n := fuel') (by omega)
    have hop : nextToken p'.rest = some (.op o, behind) := (nextToken_congr hspaces).trans htoken
    have hlt := size_of_nextToken hop
    have hne : p'.stack ≠ [] := by
      rw [hstack']
      exact List.append_ne_nil_of_right_ne_nil _ hstack
    have hreduce : reduce ty (some o) p'.stack (lastValue ty left) = .shift p.stack a := by
      rw [hstack', reduce_spine hreadLeft.conforms hreadLeft.value hrootLeft]
      exact reduce_shift hstack ho a
    rw [parseLoop_op fuel' p' _ hne hop, hreduce]
    dsimp only [shifted]
    rcases push_cases { p' with rest := behind, stack := p.stack } ⟨some o, a⟩ with hpush | hpush
    · rw [hpush]
      refine hright fuel' { p' with rest := behind, stack := ⟨some o, a⟩ :: p.stack } b rest result
        hreadRight (List.cons_ne_nil _ _) hrootRight (by dsimp only; omega) hsticky ?_
      intro fuel'' p'' hspaces' hstack'' hfuel''
      refine hrest fuel'' p'' hspaces' ?_ hfuel''
      rw [hstack'', spine, hreadLeft.value, List.append_assoc]
      rfl
    · rw [hpush]
      exact hsticky _ rfl

theorem valueFinds_number (ty : IntegerType) (n : Nat) : ValueFinds ty (.number n) := by
  intro fuel p v rest _ hreading hfuel
  obtain ⟨fuel, rfl⟩ := Nat.exists_eq_add_one_of_ne_zero (n := fuel) (by omega)
  obtain ⟨rfl, behind, htoken, hspaces⟩ := reading_number hreading
  rw [parseValue_succ, htoken]
  exact .inr ⟨rfl, hspaces, rfl⟩

/-- At the end of the text. -/
theorem valueFinds_missing (ty : IntegerType) : ValueFinds ty .missing := by
  intro fuel p v rest _ hreading hfuel
  obtain ⟨fuel, rfl⟩ := Nat.exists_eq_add_one_of_ne_zero (n := fuel) (by omega)
  obtain ⟨rfl, htoken, hspaces⟩ := reading_missing hreading
  rw [parseValue_succ, htoken]
  exact .inr ⟨rfl, hspaces.symm, rfl⟩

theorem finds (ty : IntegerType) (e : Expr) : ValueFinds ty e ∧ LoopFinds ty e := by
  induction e with
  | number n => exact ⟨valueFinds_number ty n, loopFinds_leaf rfl (valueFinds_number ty n)⟩
  | missing => exact ⟨valueFinds_missing ty, loopFinds_leaf rfl (valueFinds_missing ty)⟩
  | parens inner ih => exact ⟨valueFinds_parens ih.2, loopFinds_leaf rfl (valueFinds_parens ih.2)⟩
  | unary o operand ih => exact ⟨valueFinds_unary ih.1, loopFinds_leaf rfl (valueFinds_unary ih.1)⟩
  | binary o left right ihLeft ihRight =>
      refine ⟨fun fuel p v rest hroot => ?_, loopFinds_binary ihLeft.2 ihRight.2⟩
      cases hroot

/-- What the evaluator gives for an expression at the start of the text, with no operator behind
it. -/
theorem evaluation_finds {expressionAsText : CString} {v : ty.T} {rest : List UInt8} {e : Expr}
    (hfits : (evaluation ty expressionAsText).1.overflowed = false)
    (hreading : Reading ty expressionAsText.chars v rest e) (hend : Ends rest) :
    eval ty expressionAsText = some v ∧
      eatSpaces (evaluation ty expressionAsText).1.rest = eatSpaces rest := by
  have hsize := size_le_length expressionAsText.chars
  have hfuel : 3 * size expressionAsText.chars + 3 ≤ 3 * expressionAsText.chars.length + 3 := by
    omega
  rcases expr_finds (finds ty e).2 (p := ⟨expressionAsText.chars, [], false, false⟩) hreading hend
    hfuel with hover | ⟨hv, hspaces, -⟩
  · exact absurd (hfits.symm.trans hover) Bool.false_ne_true
  · exact ⟨hv, hspaces⟩

/-! The grammar that is evaluated -/

/-- An expression of the grammar, with its value, which is all of a text. -/
def Means (ty : IntegerType) (expressionAsText : CString) (v : ty.T) : Prop :=
  ∃ (e : Expr) (rest : List UInt8), Reads expressionAsText.chars e.tokens rest ∧
    nextToken rest = none ∧ e.Conforms ∧ ¬e.Incomplete ∧ e.value ty = some v

/-- Nothing but the expressions of the grammar is accepted, and they have their values. -/
def EvaluatesGrammar (ty : IntegerType) (expressionAsText : CString) : Prop :=
  ∀ v, eval ty expressionAsText = some v ↔ Means ty expressionAsText v

/-- No expression without its last operand, which counts as zero, is the text, and no expression at
its start has other text than an operator behind it. -/
def EndsAtExpression (ty : IntegerType) (expressionAsText : CString) : Prop :=
  ∀ (e : Expr) (v : ty.T) (rest : List UInt8), Reads expressionAsText.chars e.tokens rest →
    e.Conforms → e.value ty = some v →
      (nextToken rest = none → ¬e.Incomplete) ∧
        (¬e.Incomplete → nextToken rest ≠ none → ¬Ends rest)

theorem means_iff {expressionAsText : CString} {v : ty.T} :
    Means ty expressionAsText v ↔ ∃ e rest, Reading ty expressionAsText.chars v rest e ∧
      ¬e.Incomplete ∧ nextToken rest = none := by
  constructor
  · rintro ⟨e, rest, hreads, hend, hconforms, hcomplete, hvalue⟩
    exact ⟨e, rest, ⟨hconforms, hvalue, hreads, fun h => absurd h hcomplete⟩, hcomplete, hend⟩
  · rintro ⟨e, rest, hreading, hcomplete, hend⟩
    exact ⟨e, rest, hreading.reads, hend, hreading.conforms, hcomplete, hreading.value⟩

theorem ends_of_none {text : List UInt8} (hend : nextToken text = none) : Ends text := by
  intro found hfound
  cases hend.symm.trans hfound

/-- To the end a text has one expression, or none, whose last operand is there. -/
theorem incomplete_iff {text rest rest' : List UInt8} {a b : ty.T} {e e' : Expr}
    (h : Reading ty text a rest e) (h' : Reading ty text b rest' e')
    (hend : nextToken rest = none) (hend' : nextToken rest' = none) :
    e.Incomplete ↔ e'.Incomplete := by
  have htokens : e.tokens = e'.tokens := h.reads.unique h'.reads hend hend'
  rw [← not_iff_not, ← endsOperand_iff, ← endsOperand_iff, htokens]

theorem evaluatesGrammar_of_ends {expressionAsText : CString}
    (hfits : (evaluation ty expressionAsText).1.overflowed = false)
    (hends : EndsAtExpression ty expressionAsText) : EvaluatesGrammar ty expressionAsText := by
  intro v
  constructor
  · intro hrun
    obtain ⟨hend, e, hreading⟩ := eval_reads hfits hrun
    obtain ⟨hmissing, htrailing⟩ := hends e v _ hreading.reads hreading.conforms hreading.value
    have hnone : nextToken (evaluation ty expressionAsText).1.rest = none := by
      by_contra hmore
      have hcomplete : ¬e.Incomplete := fun hincomplete => hmore (hreading.atEnd hincomplete)
      exact htrailing hcomplete hmore hend
    exact means_iff.mpr ⟨e, _, hreading, hmissing hnone, hnone⟩
  · intro hmeans
    obtain ⟨e, rest, hreading, -, hend⟩ := means_iff.mp hmeans
    exact (evaluation_finds hfits hreading (ends_of_none hend)).1

theorem ends_of_evaluatesGrammar {expressionAsText : CString}
    (hfits : (evaluation ty expressionAsText).1.overflowed = false)
    (hright : EvaluatesGrammar ty expressionAsText) : EndsAtExpression ty expressionAsText := by
  intro e v rest hreads hconforms hvalue
  constructor
  · intro hend hincomplete
    have hreading : Reading ty expressionAsText.chars v rest e :=
      ⟨hconforms, hvalue, hreads, fun _ => hend⟩
    have hrun := (evaluation_finds hfits hreading (ends_of_none hend)).1
    obtain ⟨e', rest', hreading', hcomplete, hend'⟩ := means_iff.mp ((hright v).mp hrun)
    exact hcomplete ((incomplete_iff hreading hreading' hend hend').mp hincomplete)
  · intro hcomplete hmore hend
    have hreading : Reading ty expressionAsText.chars v rest e :=
      ⟨hconforms, hvalue, hreads, fun h => absurd h hcomplete⟩
    obtain ⟨hrun, hspaces⟩ := evaluation_finds hfits hreading hend
    obtain ⟨e', rest', hreading', -, hend'⟩ := means_iff.mp ((hright v).mp hrun)
    have hspaces' := (evaluation_finds hfits hreading' (ends_of_none hend')).2
    exact hmore ((nextToken_congr (hspaces.symm.trans hspaces')).trans hend')

/-- As long as the stack does not overflow, every call comes back, and it evaluates the
grammar on exactly the texts that end at an expression. -/
theorem eval_grammar_iff (ty : IntegerType) (expressionAsText : CString)
    (hfits : (evaluation ty expressionAsText).1.overflowed = false) :
    (evaluation ty expressionAsText).1.exhausted = false ∧
      (EvaluatesGrammar ty expressionAsText ↔ EndsAtExpression ty expressionAsText) :=
  ⟨evaluation_exhausted ty expressionAsText, ends_of_evaluatesGrammar hfits,
    evaluatesGrammar_of_ends hfits⟩

/-- The type `int` on a machine that takes shift counts modulo the width. -/
def int32 : IntegerType where
  width := 32
  signed := true
  wide := by decide
  shiftOut left a n := if left then a <<< (n.toNat % 32) else a.sshiftRight (n.toNat % 32)

/-- The text `(1+2)*3`. -/
def product : CString where
  chars := [40, 49, 43, 50, 41, 42, 51]
  nonzero := by decide

theorem eval_grammar_iff_product :
    (evaluation int32 product).1.overflowed = false ∧
      (evaluation int32 product).1.exhausted = false ∧
      (EvaluatesGrammar int32 product ↔ EndsAtExpression int32 product) :=
  ⟨by decide, eval_grammar_iff int32 product (by decide)⟩

/-- The text `5+`. -/
def missingOperand : CString where
  chars := [53, 43]
  nonzero := by decide

/-- The text `2 3`. -/
def twoNumbers : CString where
  chars := [50, 32, 51]
  nonzero := by decide

theorem reading_missingOperand :
    Reading int32 missingOperand.chars 5 [] (.binary .addition (.number 5) .missing) where
  conforms := ⟨trivial, trivial, id, fun o ho => (by cases ho), fun o ho => (by cases ho)⟩
  value := rfl
  reads := .token rfl (.token rfl (.done rfl))
  atEnd _ := rfl

/-- The sum without its second operand is five, and the text behind a number is left out. -/
theorem eval_not_grammar :
    ((evaluation int32 missingOperand).1.overflowed = false ∧
        ¬EvaluatesGrammar int32 missingOperand) ∧
      (evaluation int32 twoNumbers).1.overflowed = false ∧ ¬EvaluatesGrammar int32 twoNumbers := by
  refine ⟨⟨by decide, fun hright => ?_⟩, by decide, fun hright => ?_⟩
  · have hrun : eval int32 missingOperand = some 5 := by decide
    obtain ⟨e, rest, hreading, hcomplete, hend⟩ := means_iff.mp ((hright 5).mp hrun)
    exact hcomplete ((incomplete_iff reading_missingOperand hreading rfl hend).mp trivial)
  · have hrun : eval int32 twoNumbers = some 2 := by decide
    obtain ⟨e, rest, hreading, -, hend⟩ := means_iff.mp ((hright 2).mp hrun)
    have hspaces := (evaluation_finds (by decide) hreading (ends_of_none hend)).2
    have hnone : nextToken (evaluation int32 twoNumbers).1.rest = none :=
      (nextToken_congr hspaces).trans hend
    exact absurd hnone (by decide)

end ColonyPico.Math.ExpressionEvaluation
