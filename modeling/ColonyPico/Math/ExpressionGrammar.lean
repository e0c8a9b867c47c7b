import ColonyPico.Foundations.OperatorPrecedence
import ColonyPico.Foundations.PositionalDigits
import ColonyPico.Math.IntegerExpressionParser
import Mathlib.Tactic.Ring

/-!
What integer expressions are: their tokens, the trees that respect the precedence and the
associativity of the operators, and the values of the trees.
-/

namespace ColonyPico.Math.ExpressionGrammar

open ColonyPico.Foundations
open ColonyPico.Foundations.OperatorPrecedence
open ColonyPico.Math.IntegerExpressionParser
open ColonyPico.Text.StringEdits

/-! Tokens -/

inductive Token where
  | number (n : Nat)
  | opening
  | closing
  | complement
  | op (o : BinOp)
  /-- A single character of a shift operator. -/
  | halfShift
  | other (c : UInt8)
  deriving DecidableEq

/-- The longest numeral at the start of a text, and the text behind it. -/
def numeral (base : Nat) (text : List UInt8) : Nat × List UInt8 :=
  (PositionalDigits.value base ((text.takeWhile fun c => toInteger c < base).map toInteger),
    text.dropWhile fun c => toInteger c < base)

/-- Sixteen is the base behind `0x` or `0X`, when a digit follows. -/
def number : List UInt8 → Nat × List UInt8
  | zero :: x :: h :: rest =>
      if zero = ch '0' ∧ (x = ch 'x' ∨ x = ch 'X') ∧ toInteger h < 16 then numeral 16 (h :: rest)
      else numeral 10 (zero :: x :: h :: rest)
  | text => numeral 10 text

/-- The operator that a character starts. -/
def operatorToken (c : UInt8) (rest : List UInt8) : Option (Token × List UInt8) :=
  if c = ch '|' then some (.op .bitwiseOr, rest)
  else if c = ch '^' then some (.op .bitwiseXor, rest)
  else if c = ch '&' then some (.op .bitwiseAnd, rest)
  else if c = ch '<' then
    if rest.head? = some (ch '<') then some (.op .bitwiseShl, rest.tail)
    else some (.halfShift, rest)
  else if c = ch '>' then
    if rest.head? = some (ch '>') then some (.op .bitwiseShr, rest.tail)
    else some (.halfShift, rest)
  else if c = ch '+' then some (.op .addition, rest)
  else if c = ch '-' then some (.op .subtraction, rest)
  else if c = ch '/' then some (.op .division, rest)
  else if c = ch '%' then some (.op .modulo, rest)
  else if c = ch '*' then
    if rest.head? ≠ some (ch '*') then some (.op .multiplication, rest)
    else some (.op .power, rest.tail)
  else if c = ch 'e' then some (.op .exponent, rest)
  else if c = ch 'E' then some (.op .exponent, rest)
  else none

/-- The token at the start of a text that does not start with a space. -/
def tokenAt (c : UInt8) (rest : List UInt8) : Token × List UInt8 :=
  match operatorToken c rest with
  | some found => found
  | none =>
      if ch '0' ≤ c ∧ c ≤ ch '9' then (.number (number (c :: rest)).1, (number (c :: rest)).2)
      else if c = ch '(' then (.opening, rest)
      else if c = ch ')' then (.closing, rest)
      else if c = ch '~' then (.complement, rest)
      else (.other c, rest)

/-- The first token of a text, and the text behind it. -/
def nextToken (text : List UInt8) : Option (Token × List UInt8) :=
  match eatSpaces text with
  | [] => none
  | c :: rest => some (tokenAt c rest)

/-- A text starts with these tokens, and the other text is what lies behind them and behind or in
front of the spaces there. -/
inductive Reads : List UInt8 → List Token → List UInt8 → Prop
  | done {text text' : List UInt8} (hspaces : eatSpaces text = eatSpaces text') :
      Reads text [] text'
  | token {text text' rest : List UInt8} {t : Token} {ts : List Token}
      (htoken : nextToken text = some (t, rest)) (hrest : Reads rest ts text') :
      Reads text (t :: ts) text'

/-- Tokens that the evaluator takes for a binary operator or for the start of one. -/
def Token.StartsOperator : Token → Prop
  | .op _ => True
  | .halfShift => True
  | _ => False

def Ends (text : List UInt8) : Prop :=
  ∀ found ∈ nextToken text, ¬found.1.StartsOperator

/-! Expressions -/

inductive UnaryOp where
  | complement
  | plus
  | minus
  deriving DecidableEq

/-- Expressions, in which an operand may be missing. -/
inductive Expr where
  | number (n : Nat)
  | missing
  | parens (inner : Expr)
  | unary (o : UnaryOp) (operand : Expr)
  | binary (o : BinOp) (left right : Expr)

def UnaryOp.token : UnaryOp → Token
  | .complement => .complement
  | .plus => .op .addition
  | .minus => .op .subtraction

namespace Expr

def tokens : Expr → List Token
  | number n => [.number n]
  | missing => []
  | parens inner => .opening :: (inner.tokens ++ [.closing])
  | unary o operand => o.token :: operand.tokens
  | binary o left right => left.tokens ++ .op o :: right.tokens

/-- The binary operator outside of all parentheses that applies last. -/
def root : Expr → Option BinOp
  | binary o _ _ => some o
  | _ => none

/-- The last operand is missing. -/
def Incomplete : Expr → Prop
  | number _ => False
  | missing => True
  | parens _ => False
  | unary _ operand => operand.Incomplete
  | binary _ _ right => right.Incomplete

instance decidableIncomplete : ∀ e : Expr, Decidable e.Incomplete
  | number _ => .isFalse id
  | missing => .isTrue trivial
  | parens _ => .isFalse id
  | unary _ operand => decidableIncomplete operand
  | binary _ _ right => decidableIncomplete right

end Expr

def table : Table Operator where
  precedence := Operator.precedence
  leftAssociative := Operator.leftAssociative
  agree := by
    have hleft : ∀ op : Operator, op.leftAssociative = decide (op.precedence < 30) := by
      rintro (_ | o)
      · rfl
      · cases o <;> rfl
    intro a b hsame
    rw [hleft, hleft, hsame]

/-- Binary operators stand between operands that bind more tightly, or at the same precedence on the
side of their associativity; unary operators apply to what is no binary operation; and no operand
but the last is missing. -/
def Expr.Conforms : Expr → Prop
  | .number _ => True
  | .missing => True
  | .parens inner => inner.Conforms ∧ ¬inner.Incomplete
  | .unary _ operand => operand.Conforms ∧ operand.root = none
  | .binary o left right =>
      left.Conforms ∧ right.Conforms ∧ ¬left.Incomplete ∧
        (∀ o' ∈ left.root, table.Reduces (some o) (some o')) ∧
        ∀ o' ∈ right.root, ¬table.Reduces (some o') (some o)

/-! Values -/

/-- Powers with a negative exponent are one. -/
def power (ty : IntegerType) (x n : ty.T) : ty.T :=
  if ty.positive n then x ^ n.toNat else 1

def binaryValue (ty : IntegerType) (o : BinOp) (a b : ty.T) : Option ty.T :=
  match o with
  | .bitwiseOr => some (a ||| b)
  | .bitwiseXor => some (a ^^^ b)
  | .bitwiseAnd => some (a &&& b)
  | .bitwiseShl => some (ty.shl a b)
  | .bitwiseShr => some (ty.shr a b)
  | .addition => some (a + b)
  | .subtraction => some (a - b)
  | .multiplication => some (a * b)
  | .power => some (power ty a b)
  | .exponent => some (a * power ty 10 b)
  | .division => if b = 0 then none else some (if ty.signed then a.sdiv b else a / b)
  | .modulo => if b = 0 then none else some (if ty.signed then a.srem b else a % b)

def unaryValue (ty : IntegerType) (o : UnaryOp) (a : ty.T) : ty.T :=
  match o with
  | .complement => ~~~a
  | .plus => a
  | .minus => -a

/-- The value of an expression, none for a division by zero; a missing operand counts as zero. -/
def Expr.value (ty : IntegerType) : Expr → Option ty.T
  | .number n => some (.ofNat _ n)
  | .missing => some 0
  | .parens inner => inner.value ty
  | .unary o operand => (operand.value ty).map (unaryValue ty o)
  | .binary o left right => do
      let a ← left.value ty
      let b ← right.value ty
      binaryValue ty o a b

/-! Reading tokens -/

variable {text text' rest : List UInt8} {t : Token} {ts us : List Token}

/-- The length of a text without the spaces at its start. -/
def size (text : List UInt8) : Nat :=
  (eatSpaces text).length

theorem eatSpaces_eatSpaces (text : List UInt8) : eatSpaces (eatSpaces text) = eatSpaces text :=
  List.dropWhile_idempotent isspace text

theorem size_le_length (text : List UInt8) : size text ≤ text.length :=
  (List.dropWhile_suffix isspace).length_le

theorem size_congr (h : eatSpaces text = eatSpaces text') : size text = size text' :=
  congrArg List.length h

theorem nextToken_congr (h : eatSpaces text = eatSpaces text') :
    nextToken text = nextToken text' := by
  rw [nextToken, h]
  rfl

theorem ends_congr (h : eatSpaces text = eatSpaces text') : Ends text ↔ Ends text' := by
  unfold Ends
  rw [nextToken_congr h]

theorem nextToken_eq_none : nextToken text = none ↔ eatSpaces text = [] := by
  unfold nextToken
  rcases eatSpaces text with _ | ⟨c, rest⟩
  · exact iff_of_true rfl rfl
  · exact iff_of_false (Option.some_ne_none _) (List.cons_ne_nil c rest)

/-- What the operator characters give: operators, and sums and differences only for the signs. -/
def OperatorAt (c : UInt8) (rest : List UInt8) (found : Option (Token × List UInt8)) : Prop :=
  ∀ r ∈ found, (r.2 = rest ∨ r.2 = rest.tail) ∧ (r.1 = .halfShift ∨ ∃ o, r.1 = .op o) ∧
    (r.1 = .op .addition → c = ch '+') ∧ (r.1 = .op .subtraction → c = ch '-')

theorem operatorToken_spec (c : UInt8) (rest : List UInt8) :
    OperatorAt c rest (operatorToken c rest) := by
  unfold operatorToken
  repeat' refine iteInduction (motive := OperatorAt c rest) (fun _ => ?_) fun _ => ?_
  all_goals
    intro r hr
    cases hr
    try refine ⟨?_, ?_, fun hop => ?_, fun hop => ?_⟩
  all_goals
    first
      | exact .inl rfl
      | exact .inr rfl
      | exact .inr ⟨_, rfl⟩
      | exact ‹c = _›
      | cases hop

theorem ne_of_digit {c x : UInt8} (hdigit : ch '0' ≤ c ∧ c ≤ ch '9')
    (hx : ¬(ch '0' ≤ x ∧ x ≤ ch '9')) : c ≠ x := by
  rintro rfl
  exact hx hdigit

theorem operatorToken_digit {c : UInt8} (hdigit : ch '0' ≤ c ∧ c ≤ ch '9') (rest : List UInt8) :
    operatorToken c rest = none := by
  have hne := fun x => ne_of_digit (x := x) hdigit
  rw [operatorToken, if_neg (hne _ (by decide)), if_neg (hne _ (by decide)),
    if_neg (hne _ (by decide)), if_neg (hne _ (by decide)), if_neg (hne _ (by decide)),
    if_neg (hne _ (by decide)), if_neg (hne _ (by decide)), if_neg (hne _ (by decide)),
    if_neg (hne _ (by decide)), if_neg (hne _ (by decide)), if_neg (hne _ (by decide)),
    if_neg (hne _ (by decide))]

theorem numeral_length (base : Nat) (text : List UInt8) :
    (numeral base text).2.length ≤ text.length :=
  (List.dropWhile_suffix _).length_le

theorem number_length {c : UInt8} (hdigit : toInteger c < 10) :
    (number (c :: rest)).2.length ≤ rest.length := by
  have hdecimal : (numeral 10 (c :: rest)).2.length ≤ rest.length := by
    have hdrop : (numeral 10 (c :: rest)).2 = rest.dropWhile fun c => toInteger c < 10 :=
      List.dropWhile_cons_of_pos (p := fun c => toInteger c < 10) (decide_eq_true hdigit)
    rw [hdrop]
    exact (List.dropWhile_suffix _).length_le
  rcases rest with _ | ⟨x, _ | ⟨h, rest⟩⟩
  · exact hdecimal
  · exact hdecimal
  · rw [number]
    split_ifs
    · exact (numeral_length 16 (h :: rest)).trans (Nat.le_succ _)
    · exact hdecimal

theorem toInteger_digit {c : UInt8} : ch '0' ≤ c ∧ c ≤ ch '9' ↔ toInteger c < 10 := by
  unfold toInteger
  split_ifs with hdigit hlower hupper
  · refine iff_of_true hdigit ?_
    obtain ⟨hle, hge⟩ := hdigit
    rw [UInt8.le_iff_toNat_le] at hle hge
    rw [UInt8.toNat_sub_of_le _ _ (UInt8.le_iff_toNat_le.mpr hle)]
    exact Nat.lt_of_le_of_lt (Nat.sub_le_sub_right hge _) (by decide)
  · exact iff_of_false hdigit (Nat.not_lt.mpr (Nat.le_add_left 10 _))
  · exact iff_of_false hdigit (Nat.not_lt.mpr (Nat.le_add_left 10 _))
  · exact iff_of_false hdigit (by decide)

theorem tokenAt_length (c : UInt8) (rest : List UInt8) :
    (tokenAt c rest).2.length ≤ rest.length := by
  unfold tokenAt
  rcases hop : operatorToken c rest with _ | found
  · dsimp only
    split_ifs with hdigit
    · exact number_length (toInteger_digit.mp hdigit)
    all_goals exact Nat.le_refl _
  · rcases (operatorToken_spec c rest found hop).1 with hsame | htail
    · exact Nat.le_of_eq (congrArg List.length hsame)
    · dsimp only
      rw [htail, List.length_tail]
      exact Nat.sub_le _ 1

theorem size_of_nextToken (htoken : nextToken text = some (t, rest)) : size rest < size text := by
  unfold nextToken at htoken
  rcases hspaces : eatSpaces text with _ | ⟨c, tail⟩
  · rw [hspaces] at htoken
    cases htoken
  · rw [hspaces] at htoken
    have hlength := tokenAt_length c tail
    rw [Option.some.inj htoken] at hlength
    rw [show size text = tail.length + 1 from congrArg List.length hspaces]
    exact Nat.lt_succ_of_le ((size_le_length rest).trans hlength)

theorem reads_congr (h : eatSpaces text = eatSpaces text') (hreads : Reads text' ts rest) :
    Reads text ts rest := by
  cases hreads with
  | done hspaces => exact .done (h.trans hspaces)
  | token htoken hrest => exact .token ((nextToken_congr h).trans htoken) hrest

theorem Reads.append (hts : Reads text ts rest) (hus : Reads rest us text') :
    Reads text (ts ++ us) text' := by
  induction hts with
  | done hspaces => exact reads_congr hspaces hus
  | token htoken _ ih => exact .token htoken (ih hus)

theorem Reads.split (hreads : Reads text (ts ++ us) text') :
    ∃ middle, Reads text ts middle ∧ Reads middle us text' := by
  induction ts generalizing text with
  | nil => exact ⟨text, .done rfl, hreads⟩
  | cons t ts ih =>
      cases hreads with
      | token htoken hrest =>
          obtain ⟨middle, hts, hus⟩ := ih hrest
          exact ⟨middle, .token htoken hts, hus⟩

theorem Reads.cons_inv (hreads : Reads text (t :: ts) text') :
    ∃ rest, nextToken text = some (t, rest) ∧ Reads rest ts text' := by
  cases hreads with
  | token htoken hrest => exact ⟨_, htoken, hrest⟩

theorem Reads.nil_inv (hreads : Reads text [] text') : eatSpaces text = eatSpaces text' := by
  cases hreads with
  | done hspaces => exact hspaces

/-- To its end a text has one sequence of tokens. -/
theorem Reads.unique (hts : Reads text ts text') (hus : Reads text us rest)
    (hend : nextToken text' = none) (hend' : nextToken rest = none) : ts = us := by
  induction hts generalizing us with
  | done hspaces =>
      cases hus with
      | done _ => rfl
      | token htoken _ => cases htoken.symm.trans ((nextToken_congr hspaces).trans hend)
  | token htoken _ ih =>
      cases hus with
      | done hspaces => cases htoken.symm.trans ((nextToken_congr hspaces).trans hend')
      | token htoken' hrest' =>
          cases htoken.symm.trans htoken'
          exact congrArg _ (ih hrest' hend)

/-! The last token -/

/-- Tokens at which an operand may end. -/
def Token.EndsOperand : Token → Prop
  | .number _ => True
  | .closing => True
  | _ => False

theorem getLast?_append_cons {α : Type} (xs ys : List α) (y : α) :
    (xs ++ y :: ys).getLast? = some (ys.getLast?.getD y) := by
  rw [List.getLast?_append, List.getLast?_cons]
  rfl

theorem endsOperand_iff (e : Expr) :
    (∃ t ∈ e.tokens.getLast?, t.EndsOperand) ↔ ¬e.Incomplete := by
  induction e with
  | number n => exact iff_of_true ⟨_, rfl, trivial⟩ id
  | missing => exact iff_of_false (fun ⟨t, habsurd, _⟩ => nomatch habsurd) fun hnot => hnot trivial
  | parens inner _ =>
      refine iff_of_true ⟨.closing, ?_, trivial⟩ id
      show (([Token.opening] ++ inner.tokens) ++ [Token.closing]).getLast? = _
      rw [getLast?_append_cons]
      rfl
  | unary o operand ih =>
      show (∃ t ∈ (o.token :: operand.tokens).getLast?, t.EndsOperand) ↔ ¬operand.Incomplete
      rw [← ih, List.getLast?_cons]
      rcases operand.tokens.getLast? with _ | t
      · refine iff_of_false ?_ fun ⟨t, habsurd, _⟩ => nomatch habsurd
        rintro ⟨t, ht, hends⟩
        cases ht
        cases o <;> exact hends
      · exact Iff.rfl
  | binary o left right _ ih =>
      show (∃ t ∈ (left.tokens ++ .op o :: right.tokens).getLast?, t.EndsOperand) ↔
        ¬right.Incomplete
      rw [← ih, getLast?_append_cons]
      rcases right.tokens.getLast? with _ | t
      · refine iff_of_false ?_ fun ⟨t, habsurd, _⟩ => nomatch habsurd
        rintro ⟨t, ht, hends⟩
        cases ht
        exact hends
      · exact Iff.rfl

end ColonyPico.Math.ExpressionGrammar
