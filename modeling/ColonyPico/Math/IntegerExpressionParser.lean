import ColonyPico.Text.StringEdits
import Mathlib.Algebra.Group.Nat.Even
import Mathlib.Data.BitVec

/-!
The evaluator of integer expressions (`Cpl::Math::IntegerExpressionParser`): one pass over the text
with a bounded stack of operators and their left values, and recursion for parentheses and unary
operators.
-/

namespace ColonyPico.Math.IntegerExpressionParser

open ColonyPico.Text.StringEdits

/-- The template argument: an integer type, with what its shifts give for counts that are out of
range. -/
structure IntegerType where
  width : Nat
  signed : Bool
  wide : 8 ≤ width
  shiftOut : Bool → BitVec width → BitVec width → BitVec width

abbrev IntegerType.T (ty : IntegerType) : Type :=
  BitVec ty.width

/-- The operators without `OPERATOR_NULL`. -/
inductive BinOp where
  | bitwiseOr
  | bitwiseXor
  | bitwiseAnd
  | bitwiseShl
  | bitwiseShr
  | addition
  | subtraction
  | multiplication
  | division
  | modulo
  | power
  | exponent
  deriving DecidableEq

/-- An operator of the source; `none` is `OPERATOR_NULL`. -/
abbrev Operator : Type :=
  Option BinOp

def Operator.precedence : Operator → Nat
  | none => 0
  | some .bitwiseOr => 4
  | some .bitwiseXor => 5
  | some .bitwiseAnd => 6
  | some .bitwiseShl => 9
  | some .bitwiseShr => 9
  | some .addition => 10
  | some .subtraction => 10
  | some .multiplication => 20
  | some .division => 20
  | some .modulo => 20
  | some .power => 30
  | some .exponent => 40

/-- Whether the associativity is `'L'`. -/
def Operator.leftAssociative : Operator → Bool
  | some .power => false
  | some .exponent => false
  | _ => true

structure OperatorValue (ty : IntegerType) where
  op : Operator
  value : ty.T

/-! Arithmetic -/

def IntegerType.positive (ty : IntegerType) (n : ty.T) : Bool :=
  if ty.signed then 0 < n.toInt else 0 < n.toNat

/-- The loop of `pow()`, for the number that the positive exponent stands for. -/
def powLoop {w : Nat} (x res : BitVec w) (n : Nat) : BitVec w :=
  if n = 0 then res
  else
    let res := if n % 2 ≠ 0 then res * x else res
    let x := if 0 < n / 2 then x * x else x
    powLoop x res (n / 2)
termination_by n
decreasing_by omega

def IntegerType.pow (ty : IntegerType) (x n : ty.T) : ty.T :=
  if ty.positive n then powLoop x 1 n.toNat else 1

def IntegerType.shl (ty : IntegerType) (v1 v2 : ty.T) : ty.T :=
  if v2.toNat < ty.width then v1 <<< v2.toNat else ty.shiftOut true v1 v2

def IntegerType.shr (ty : IntegerType) (v1 v2 : ty.T) : ty.T :=
  if v2.toNat < ty.width then
    if ty.signed then v1.sshiftRight v2.toNat else v1 >>> v2.toNat
  else ty.shiftOut false v1 v2

def calculate (ty : IntegerType) (v1 v2 : ty.T) : BinOp → Option ty.T
  | .bitwiseOr => some (v1 ||| v2)
  | .bitwiseXor => some (v1 ^^^ v2)
  | .bitwiseAnd => some (v1 &&& v2)
  | .bitwiseShl => some (ty.shl v1 v2)
  | .bitwiseShr => some (ty.shr v1 v2)
  | .addition => some (v1 + v2)
  | .subtraction => some (v1 - v2)
  | .multiplication => some (v1 * v2)
  | .power => some (ty.pow v1 v2)
  | .exponent => some (v1 * ty.pow 10 v2)
  | .division =>
      if v2 ≠ 0 then some (if ty.signed then v1.sdiv v2 else v1 / v2) else none
  | .modulo =>
      if v2 ≠ 0 then some (if ty.signed then v1.srem v2 else v1 % v2) else none

/-! Characters: the text behind the index, which ends where the characters end -/

def ch (c : Char) : UInt8 :=
  c.toUInt8

def eatSpaces (rest : List UInt8) : List UInt8 :=
  rest.dropWhile isspace

def toInteger (c : UInt8) : Nat :=
  if ch '0' ≤ c ∧ c ≤ ch '9' then (c - ch '0').toNat
  else if ch 'a' ≤ c ∧ c ≤ ch 'f' then (c - ch 'a').toNat + 0xa
  else if ch 'A' ≤ c ∧ c ≤ ch 'F' then (c - ch 'A').toNat + 0xa
  else 0xf + 1

/-- The loop over the digits of a number. -/
def parseDigits (ty : IntegerType) (base : Nat) (value : ty.T) : List UInt8 → ty.T × List UInt8
  | [] => (value, [])
  | c :: rest =>
      if toInteger c < base then
        parseDigits ty base (value * .ofNat _ base + .ofNat _ (toInteger c)) rest
      else (value, c :: rest)

def parseDecimal (ty : IntegerType) (rest : List UInt8) : ty.T × List UInt8 :=
  parseDigits ty 10 0 rest

def parseHex (ty : IntegerType) (rest : List UInt8) : ty.T × List UInt8 :=
  parseDigits ty 0x10 0 (rest.drop 2)

def isHex : List UInt8 → Bool
  | _ :: x :: h :: _ => (x = ch 'x' ∨ x = ch 'X') ∧ toInteger h ≤ 0xf
  | _ => false

/-- The operator at the index and the text behind it; no operator after an unexpected character. -/
def parseOp (rest : List UInt8) : Option Operator × List UInt8 :=
  match eatSpaces rest with
  | [] => (some none, [])
  | c :: tail =>
      if c = ch '|' then (some (some .bitwiseOr), tail)
      else if c = ch '^' then (some (some .bitwiseXor), tail)
      else if c = ch '&' then (some (some .bitwiseAnd), tail)
      else if c = ch '<' then
        if tail.head? = some (ch '<') then (some (some .bitwiseShl), tail.tail) else (none, tail)
      else if c = ch '>' then
        if tail.head? = some (ch '>') then (some (some .bitwiseShr), tail.tail) else (none, tail)
      else if c = ch '+' then (some (some .addition), tail)
      else if c = ch '-' then (some (some .subtraction), tail)
      else if c = ch '/' then (some (some .division), tail)
      else if c = ch '%' then (some (some .modulo), tail)
      else if c = ch '*' then
        if tail.head? ≠ some (ch '*') then (some (some .multiplication), tail)
        else (some (some .power), tail.tail)
      else if c = ch 'e' then (some (some .exponent), tail)
      else if c = ch 'E' then (some (some .exponent), tail)
      else (some none, c :: tail)

/-! The parser -/

def maxStackSize : Nat := 20

/-- The text behind the index and the operator stack, with its top in front.  The last two fields
record a push to the full stack, and a recursion that the bound of the model cut off. -/
structure Parser (ty : IntegerType) where
  rest : List UInt8
  stack : List (OperatorValue ty)
  overflowed : Bool
  exhausted : Bool

def push {ty : IntegerType} (p : Parser ty) (item : OperatorValue ty) : Parser ty × Bool :=
  if p.stack.length < maxStackSize then ({ p with stack := item :: p.stack }, true)
  else ({ p with overflowed := true }, false)

/-- The condition of the inner loop of `parseExpr()`. -/
def reduces (op top : Operator) : Bool :=
  op.precedence < top.precedence || (op.precedence = top.precedence && op.leftAssociative)

/-- How the inner loop ends: with an error, at the null operator, or at an operator to shift. -/
inductive Reduced (ty : IntegerType) where
  | fail (stack : List (OperatorValue ty))
  | done (stack : List (OperatorValue ty)) (value : ty.T)
  | shift (stack : List (OperatorValue ty)) (value : ty.T)

def reduce (ty : IntegerType) (op : Operator) : List (OperatorValue ty) → ty.T → Reduced ty
  | [], _ => .fail []
  | top :: below, value =>
      if reduces op top.op then
        match top.op with
        | none => .done below value
        | some o =>
            match calculate ty top.value value o with
            | none => .fail (top :: below)
            | some value => reduce ty op below value
      else .shift (top :: below) value

mutual

/-- A value at the index; its first argument bounds the depth of the recursion. -/
def parseValue (ty : IntegerType) : Nat → Parser ty → Parser ty × Option ty.T
  | 0, p => ({ p with exhausted := true }, none)
  | fuel + 1, p =>
      match eatSpaces p.rest with
      -- at the end of the text the value is zero
      | [] => ({ p with rest := [] }, some 0)
      | c :: tail =>
          if c = ch '0' ∧ isHex (c :: tail) then
            ({ p with rest := (parseHex ty (c :: tail)).2 }, some (parseHex ty (c :: tail)).1)
          else if ch '0' ≤ c ∧ c ≤ ch '9' then
            ({ p with rest := (parseDecimal ty (c :: tail)).2 },
              some (parseDecimal ty (c :: tail)).1)
          else if c = ch '(' then
            match parseExpr ty fuel { p with rest := tail } with
            | (p, none) => (p, none)
            | (p, some val) =>
                match eatSpaces p.rest with
                | [] => ({ p with rest := [] }, none)
                | c :: tail =>
                    if c = ch ')' then ({ p with rest := tail }, some val)
                    else ({ p with rest := c :: tail }, none)
          else if c = ch '~' then
            match parseValue ty fuel { p with rest := tail } with
            | (p, val) => (p, val.map fun val => ~~~val)
          else if c = ch '+' then parseValue ty fuel { p with rest := tail }
          else if c = ch '-' then
            match parseValue ty fuel { p with rest := tail } with
            | (p, val) => (p, val.map fun val => val * -1)
          else ({ p with rest := c :: tail }, none)

def parseExpr (ty : IntegerType) : Nat → Parser ty → Parser ty × Option ty.T
  | 0, p => ({ p with exhausted := true }, none)
  | fuel + 1, p =>
      -- the result of this push is ignored
      let p := (push p ⟨none, 0⟩).1
      match parseValue ty fuel p with
      | (p, none) => (p, none)
      | (p, some value) => parseLoop ty fuel p value

/-- The outer loop of `parseExpr()`. -/
def parseLoop (ty : IntegerType) : Nat → Parser ty → ty.T → Parser ty × Option ty.T
  | 0, p, _ => ({ p with exhausted := true }, none)
  | fuel + 1, p, value =>
      if p.stack.isEmpty then (p, none)
      else
        match parseOp p.rest with
        | (none, rest) => ({ p with rest := rest }, none)
        | (some op, rest) =>
            match reduce ty op p.stack value with
            | .fail stack => ({ p with rest := rest, stack := stack }, none)
            | .done stack value => ({ p with rest := rest, stack := stack }, some value)
            | .shift stack value =>
                match push { p with rest := rest, stack := stack } ⟨op, value⟩ with
                | (p, false) => (p, none)
                | (p, true) =>
                    match parseValue ty fuel p with
                    | (p, none) => (p, none)
                    | (p, some value) => parseLoop ty fuel p value

end

/-- The whole call: the parser behind it, and the result when it returns true. -/
def evaluation (ty : IntegerType) (expressionAsText : CString) : Parser ty × Option ty.T :=
  parseExpr ty (3 * expressionAsText.chars.length + 3)
    { rest := expressionAsText.chars, stack := [], overflowed := false, exhausted := false }

def eval (ty : IntegerType) (expressionAsText : CString) : Option ty.T :=
  (evaluation ty expressionAsText).2

end ColonyPico.Math.IntegerExpressionParser
