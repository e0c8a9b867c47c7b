import ColonyPico.Math.ExpressionSteps

/-!
What the evaluator accepts: behind every call that returns true there is an expression, which the
text starts with and whose value is the result.
-/

namespace ColonyPico.Math.ExpressionReadings

open ColonyPico.Foundations.OperatorPrecedence
open ColonyPico.Math.ExpressionGrammar
open ColonyPico.Math.ExpressionSteps
open ColonyPico.Math.IntegerExpressionParser
open ColonyPico.Text.StringEdits

variable {ty : IntegerType}

/-- An expression with a value, between two texts; its last operand is missing only at the end. -/
structure Reading (ty : IntegerType) (text : List UInt8) (v : ty.T) (rest : List UInt8)
    (e : Expr) : Prop where
  conforms : e.Conforms
  value : e.value ty = some v
  reads : Reads text e.tokens rest
  atEnd : e.Incomplete → nextToken rest = none

namespace Reading

variable {text middle inside behind rest : List UInt8} {a v : ty.T} {e : Expr}

theorem unary {o : UnaryOp} (htoken : nextToken text = some (o.token, middle))
    (hroot : e.root = none) (hoperand : Reading ty middle a rest e) :
    Reading ty text (unaryValue ty o a) rest (.unary o e) where
  conforms := ⟨hoperand.conforms, hroot⟩
  value := by
    show (e.value ty).map (unaryValue ty o) = _
    rw [hoperand.value]
    rfl
  reads := .token htoken hoperand.reads
  atEnd := hoperand.atEnd

theorem parens (hopening : nextToken text = some (.opening, inside))
    (hinner : Reading ty inside v behind e) (hclosing : nextToken behind = some (.closing, rest)) :
    Reading ty text v rest (.parens e) where
  conforms := by
    refine ⟨hinner.conforms, fun hincomplete => ?_⟩
    cases hclosing.symm.trans (hinner.atEnd hincomplete)
  value := hinner.value
  reads := .token hopening (hinner.reads.append (.token hclosing (.done rfl)))
  atEnd := False.elim

end Reading

/-! The operator stack -/

/-- Operators in front of an operand, with their left operands, the last operator first. -/
abbrev Pending : Type :=
  List (BinOp × Expr)

namespace Pending

def tokens : Pending → List Token
  | [] => []
  | (o, left) :: pending => tokens pending ++ (left.tokens ++ [.op o])

/-- The operator that a stack has on its top. -/
def topOp (stack : List (OperatorValue ty)) : Operator :=
  stack.head?.elim none OperatorValue.op

/-- The stack above the null operator of this level holds the pending operators. -/
inductive On (outer : List (OperatorValue ty)) : Pending → List (OperatorValue ty) → Prop
  | nil (x : ty.T) : On outer [] (⟨none, x⟩ :: outer)
  | cons {pending : Pending} {stack : List (OperatorValue ty)} {o : BinOp} {left : Expr} {v : ty.T}
      (hvalue : left.value ty = some v) (hconforms : left.Conforms)
      (hcomplete : ¬left.Incomplete)
      (hleft : ∀ o' ∈ left.root, table.Reduces (some o) (some o'))
      (hbelow : ¬table.Reduces (some o) (topOp stack)) (hstack : On outer pending stack) :
      On outer ((o, left) :: pending) (⟨some o, v⟩ :: stack)

theorem On.ne_nil {outer stack : List (OperatorValue ty)} {pending : Pending}
    (hon : On outer pending stack) : stack ≠ [] := by
  cases hon with
  | nil x => exact List.cons_ne_nil _ _
  | cons => exact List.cons_ne_nil _ _

end Pending

/-- An operand behind pending operators, in front of an operator that takes it or not. -/
structure Operand (stack : List (OperatorValue ty)) (c : Expr) (v : ty.T) (op : Operator) :
    Prop where
  conforms : c.Conforms
  value : c.value ty = some v
  below : ∀ o ∈ c.root, ¬table.Reduces (some o) (Pending.topOp stack)
  above : ∀ o ∈ c.root, table.Reduces op (some o)

theorem Operand.reduce {stack : List (OperatorValue ty)} {o : BinOp} {left c : Expr} {a b v : ty.T}
    {op : Operator} (hoperand : Operand (⟨some o, a⟩ :: stack) c b op)
    (hvalue : left.value ty = some a) (hconforms : left.Conforms) (hcomplete : ¬left.Incomplete)
    (hleft : ∀ o' ∈ left.root, table.Reduces (some o) (some o'))
    (hbelow : ¬table.Reduces (some o) (Pending.topOp stack))
    (hop : table.Reduces op (some o)) (hcalculate : calculate ty a b o = some v) :
    Operand stack (.binary o left c) v op where
  conforms := ⟨hconforms, hoperand.conforms, hcomplete, hleft, hoperand.below⟩
  value := by
    show (left.value ty >>= fun a => c.value ty >>= fun b => binaryValue ty o a b) = some v
    rw [hvalue, hoperand.value, ← hcalculate, calculate_eq]
    rfl
  below o' ho' := by
    cases ho'
    exact hbelow
  above o' ho' := by
    cases ho'
    exact hop

/-- What the inner loop makes of pending operators and an operand. -/
def ReducesTo (outer : List (OperatorValue ty)) (op : Operator) (ts : List Token)
    (incomplete : Prop) : Reduced ty → Prop
  | .fail _ => True
  | .done stack w =>
      op = none ∧ stack = outer ∧
        ∃ e : Expr, e.Conforms ∧ e.value ty = some w ∧ e.tokens = ts ∧ (e.Incomplete ↔ incomplete)
  | .shift stack w =>
      ∃ (pending : Pending) (e : Expr), Pending.On outer pending stack ∧ Operand stack e w op ∧
        ¬table.Reduces op (Pending.topOp stack) ∧ pending.tokens ++ e.tokens = ts ∧
        (e.Incomplete ↔ incomplete)

theorem reduce_reducesTo {outer stack : List (OperatorValue ty)} {pending : Pending} {c : Expr}
    {v : ty.T} {op : Operator} (hon : Pending.On outer pending stack)
    (hoperand : Operand stack c v op) :
    ReducesTo outer op (pending.tokens ++ c.tokens) c.Incomplete
      (IntegerExpressionParser.reduce ty op stack v) := by
  induction hon generalizing c v with
  | nil x =>
      rw [IntegerExpressionParser.reduce]
      split_ifs with hop
      · refine ⟨?_, rfl, c, hoperand.conforms, hoperand.value, rfl, Iff.rfl⟩
        rcases op with _ | o
        · rfl
        · exact absurd ((reduces_iff _ _).mp hop) (not_reduces_none o)
      · exact ⟨[], c, .nil x, hoperand, mt (reduces_iff _ _).mpr hop, rfl, Iff.rfl⟩
  | @cons pending stack o left a hvalue hconforms hcomplete hleft hbelow hstack ih =>
      rw [IntegerExpressionParser.reduce]
      split_ifs with hop
      · dsimp only
        rcases hcalculate : calculate ty a v o with _ | w
        · trivial
        · have hnext := ih (hoperand.reduce hvalue hconforms hcomplete hleft hbelow
            ((reduces_iff _ _).mp hop) hcalculate)
          have htokens : pending.tokens ++ (Expr.binary o left c).tokens =
              Pending.tokens ((o, left) :: pending) ++ c.tokens := by
            show _ ++ (left.tokens ++ .op o :: c.tokens) =
              (_ ++ (left.tokens ++ [.op o])) ++ c.tokens
            rw [List.append_assoc, List.append_assoc]
            rfl
          rw [htokens] at hnext
          exact hnext
      · exact ⟨_, c, .cons hvalue hconforms hcomplete hleft hbelow hstack, hoperand,
          mt (reduces_iff _ _).mpr hop, rfl, Iff.rfl⟩

/-! The recursion -/

def ValueReads (ty : IntegerType) (fuel : Nat) : Prop :=
  ∀ (p p' : Parser ty) (v : ty.T), parseValue ty fuel p = (p', some v) → p'.overflowed = false →
    p'.stack = p.stack ∧ ∃ e, e.root = none ∧ Reading ty p.rest v p'.rest e

def ExprReads (ty : IntegerType) (fuel : Nat) : Prop :=
  ∀ (p p' : Parser ty) (v : ty.T), parseExpr ty fuel p = (p', some v) → p'.overflowed = false →
    p'.stack = p.stack ∧ Ends p'.rest ∧ ∃ e, Reading ty p.rest v p'.rest e

def LoopReads (ty : IntegerType) (fuel : Nat) : Prop :=
  ∀ (p p' : Parser ty) (w v : ty.T) (text middle : List UInt8) (outer : List (OperatorValue ty))
    (pending : Pending) (c : Expr),
    parseLoop ty fuel p w = (p', some v) → p'.overflowed = false →
      Pending.On outer pending p.stack → c.root = none → Reads text pending.tokens middle →
      Reading ty middle w p.rest c →
      p'.stack = outer ∧ Ends p'.rest ∧ ∃ e, Reading ty text v p'.rest e

theorem unary_reads {fuel : Nat} (hvalue : ValueReads ty fuel) {p p' : Parser ty} {v : ty.T}
    {o : UnaryOp} {rest : List UInt8} (htoken : nextToken p.rest = some (o.token, rest))
    (hrun : ((parseValue ty fuel { p with rest := rest }).1,
      (parseValue ty fuel { p with rest := rest }).2.map (unaryValue ty o)) = (p', some v))
    (hfits : p'.overflowed = false) :
    p'.stack = p.stack ∧ ∃ e, e.root = none ∧ Reading ty p.rest v p'.rest e := by
  rcases hinner : parseValue ty fuel { p with rest := rest } with ⟨q, _ | a⟩
  · rw [hinner] at hrun
    cases hrun
  · rw [hinner] at hrun
    cases hrun
    obtain ⟨hstack, e, hroot, hreading⟩ := hvalue _ _ _ hinner hfits
    exact ⟨hstack, .unary o e, rfl, hreading.unary htoken hroot⟩

theorem valueReads_succ {fuel : Nat} (hvalue : ValueReads ty fuel) (hexpr : ExprReads ty fuel) :
    ValueReads ty (fuel + 1) := by
  intro p p' v hrun hfits
  rw [parseValue_succ] at hrun
  rcases htoken : nextToken p.rest with _ | ⟨t, rest⟩
  · rw [htoken] at hrun
    cases hrun
    have hend := nextToken_eq_none.mp htoken
    exact ⟨rfl, .missing, rfl, trivial, rfl, .done hend, fun _ => rfl⟩
  · rw [htoken] at hrun
    cases t with
    | number n =>
        cases hrun
        exact ⟨rfl, .number n, rfl, trivial, rfl, .token htoken (.done rfl), False.elim⟩
    | opening =>
        dsimp only [valueOf] at hrun
        rcases hinner : parseExpr ty fuel { p with rest := rest } with ⟨q, _ | a⟩
        · rw [hinner] at hrun
          cases hrun
        · rw [hinner] at hrun
          dsimp only at hrun
          split at hrun
          · next behind hclosing =>
              cases hrun
              obtain ⟨hstack, -, e, hreading⟩ := hexpr _ _ _ hinner hfits
              exact ⟨hstack, .parens e, rfl, hreading.parens htoken hclosing⟩
          · cases hrun
    | closing => cases hrun
    | complement => exact unary_reads hvalue (o := .complement) htoken hrun hfits
    | op o =>
        cases o with
        | addition =>
            refine unary_reads hvalue (o := .plus) htoken ?_ hfits
            rw [← hrun]
            exact Prod.ext rfl Option.map_id'
        | subtraction => exact unary_reads hvalue (o := .minus) htoken hrun hfits
        | _ => cases hrun
    | halfShift => cases hrun
    | other c => cases hrun

theorem valueThenLoop_reads {fuel : Nat} (hvalue : ValueReads ty fuel) (hloop : LoopReads ty fuel)
    {p p' : Parser ty} {v : ty.T} {text : List UInt8} {outer : List (OperatorValue ty)}
    {pending : Pending} (hrun : valueThenLoop ty fuel p = (p', some v))
    (hfits : p'.overflowed = false) (hon : Pending.On outer pending p.stack)
    (hreads : Reads text pending.tokens p.rest) :
    p'.stack = outer ∧ Ends p'.rest ∧ ∃ e, Reading ty text v p'.rest e := by
  unfold valueThenLoop at hrun
  rcases hfirst : parseValue ty fuel p with ⟨q, _ | w⟩
  · rw [hfirst] at hrun
    cases hrun
  · rw [hfirst] at hrun
    have hq : q.overflowed = false := by
      refine ((progress fuel).2.2 q w).fits ?_
      rw [show parseLoop ty fuel q w = (p', some v) from hrun]
      exact hfits
    obtain ⟨hstack, c, hroot, hreading⟩ := hvalue _ _ _ hfirst hq
    exact hloop q p' w v text p.rest outer pending c hrun hfits (hstack ▸ hon) hroot hreads hreading

theorem Operand.of_reading {stack : List (OperatorValue ty)} {middle rest : List UInt8} {c : Expr}
    {w : ty.T} (op : Operator) (hreading : Reading ty middle w rest c) (hroot : c.root = none) :
    Operand stack c w op where
  conforms := hreading.conforms
  value := hreading.value
  below o ho := by
    rw [hroot] at ho
    cases ho
  above o ho := by
    rw [hroot] at ho
    cases ho

theorem shifted_reads {fuel : Nat} (hvalue : ValueReads ty fuel) (hloop : LoopReads ty fuel)
    {p p' : Parser ty} {o : BinOp} {w v : ty.T} {text : List UInt8}
    {outer : List (OperatorValue ty)} {pending : Pending} {left : Expr}
    (hrun : shifted ty fuel p o w = (p', some v)) (hfits : p'.overflowed = false)
    (hon : Pending.On outer pending p.stack) (hleft : Operand p.stack left w (some o))
    (hcomplete : ¬left.Incomplete) (hbelow : ¬table.Reduces (some o) (Pending.topOp p.stack))
    (hreads : Reads text (pending.tokens ++ (left.tokens ++ [.op o])) p.rest) :
    p'.stack = outer ∧ Ends p'.rest ∧ ∃ e, Reading ty text v p'.rest e := by
  unfold shifted at hrun
  rcases push_cases p ⟨some o, w⟩ with hpush | hpush
  · rw [hpush] at hrun
    have hon' := hon.cons hleft.value hleft.conforms hcomplete hleft.above hbelow
    exact valueThenLoop_reads hvalue hloop hrun hfits hon' hreads
  · rw [hpush] at hrun
    cases hrun

theorem loopReads_succ {fuel : Nat} (hvalue : ValueReads ty fuel) (hloop : LoopReads ty fuel) :
    LoopReads ty (fuel + 1) := by
  intro p p' w v text middle outer pending c hrun hfits hon hroot hpending hreading
  have hstack : p.stack ≠ [] := hon.ne_nil
  have hreads : Reads text (pending.tokens ++ c.tokens) p.rest := hpending.append hreading.reads
  rcases token_cases p.rest with hend | ⟨rest, htoken⟩ | ⟨o, rest, htoken⟩
  · rw [parseLoop_ends fuel p w hstack hend] at hrun
    have hreduces := reduce_reducesTo hon (.of_reading none hreading hroot)
    have hspaces : eatSpaces p.rest = eatSpaces (eatSpaces p.rest) := (eatSpaces_eatSpaces _).symm
    rcases hreduce : reduce ty none p.stack w with stack | ⟨stack, value⟩ | ⟨stack, value⟩
    · rw [hreduce] at hrun
      cases hrun
    · rw [hreduce] at hrun hreduces
      cases hrun
      obtain ⟨-, hstack, e, hconforms, hvalue, htokens, hincomplete⟩ := hreduces
      refine ⟨hstack, (ends_congr hspaces).mp hend, e, hconforms, hvalue, ?_, fun h => ?_⟩
      · have hto := hreads.append (.done hspaces)
        rwa [List.append_nil, ← htokens] at hto
      · exact (nextToken_congr hspaces).symm.trans (hreading.atEnd (hincomplete.mp h))
    · rw [hreduce] at hrun
      cases hrun
  · rw [parseLoop_halfShift fuel p w hstack htoken] at hrun
    cases hrun
  · rw [parseLoop_op fuel p w hstack htoken] at hrun
    have hreduces := reduce_reducesTo hon (.of_reading (some o) hreading hroot)
    rcases hreduce : reduce ty (some o) p.stack w with stack | ⟨stack, value⟩ | ⟨stack, value⟩
    · rw [hreduce] at hrun
      cases hrun
    · rw [hreduce] at hreduces
      exact absurd hreduces.1 (Option.some_ne_none o)
    · rw [hreduce] at hrun hreduces
      obtain ⟨pending', left, hon', hleft, hbelow, htokens, hincomplete⟩ := hreduces
      refine shifted_reads hvalue hloop hrun hfits hon' hleft (fun h => ?_) hbelow ?_
      · -- an operator follows the operand
        cases htoken.symm.trans (hreading.atEnd (hincomplete.mp h))
      · have hto := hreads.append (.token htoken (.done rfl))
        rwa [← htokens, List.append_assoc] at hto

theorem reads (ty : IntegerType) (fuel : Nat) :
    ValueReads ty fuel ∧ ExprReads ty fuel ∧ LoopReads ty fuel := by
  induction fuel with
  | zero =>
      refine ⟨?_, ?_, ?_⟩
      · intro p p' v hrun
        rw [parseValue] at hrun
        cases hrun
      · intro p p' v hrun
        rw [parseExpr] at hrun
        cases hrun
      · intro p p' w v text middle outer pending c hrun
        rw [parseLoop] at hrun
        cases hrun
  | succ fuel ih =>
      obtain ⟨hvalue, hexpr, hloop⟩ := ih
      refine ⟨valueReads_succ hvalue hexpr, ?_, loopReads_succ hvalue hloop⟩
      intro p p' v hrun hfits
      rw [parseExpr_succ] at hrun
      have hpushed : (push p ⟨none, 0⟩).1.overflowed = false := by
        refine (valueThenLoop_progress (progress fuel).1 (progress fuel).2.2 _).fits ?_
        rw [hrun]
        exact hfits
      rcases push_cases p ⟨none, 0⟩ with hpush | hpush
      · rw [hpush] at hrun
        exact valueThenLoop_reads hvalue hloop hrun hfits (.nil 0) (.done rfl)
      · rw [hpush] at hpushed
        cases hpushed

/-- A result is the value of an expression at the start of the text, with no operator behind it. -/
theorem eval_reads {expressionAsText : CString} {v : ty.T}
    (hfits : (evaluation ty expressionAsText).1.overflowed = false)
    (hrun : eval ty expressionAsText = some v) :
    Ends (evaluation ty expressionAsText).1.rest ∧
      ∃ e, Reading ty expressionAsText.chars v (evaluation ty expressionAsText).1.rest e :=
  ((reads ty _).2.1 _ _ v (Prod.ext rfl hrun) hfits).2

end ColonyPico.Math.ExpressionReadings
