import ColonyPico.Math.ExpressionGrammar

/-!
How the evaluator goes through a text: its arithmetic, what it makes of each token, and that its
recursion ends.
-/

namespace ColonyPico.Math.ExpressionSteps

open ColonyPico.Foundations
open ColonyPico.Foundations.OperatorPrecedence
open ColonyPico.Math.ExpressionGrammar
open ColonyPico.Math.IntegerExpressionParser
open ColonyPico.Text.StringEdits

variable {ty : IntegerType}

/-! Arithmetic -/

theorem powLoop_eq {w : Nat} (x res : BitVec w) (n : Nat) : powLoop x res n = res * x ^ n := by
  induction n using Nat.strong_induction_on generalizing x res with
  | _ n ih =>
      rw [powLoop]
      split_ifs with hzero hodd hmore hmore
      · rw [hzero, pow_zero, mul_one]
      · rw [ih (n / 2) (by omega), ← pow_two, ← pow_mul, mul_assoc, ← pow_succ']
        congr 2
        omega
      · obtain rfl : n = 1 := by omega
        rw [ih (1 / 2) (by omega), Nat.div_eq_of_lt (by decide), pow_zero, mul_one, pow_one]
      · rw [ih (n / 2) (by omega), ← pow_two, ← pow_mul]
        congr 2
        omega
      · omega

theorem pow_eq (x n : ty.T) : ty.pow x n = power ty x n := by
  unfold IntegerType.pow power
  rw [powLoop_eq, one_mul]

theorem calculate_eq (a b : ty.T) (o : BinOp) : calculate ty a b o = binaryValue ty o a b := by
  cases o with
  | power => exact congrArg some (pow_eq a b)
  | exponent => exact congrArg (fun x => some (a * x)) (pow_eq 10 b)
  | division => exact ite_not ..
  | modulo => exact ite_not ..
  | _ => rfl

theorem parseDigits_eq (base : Nat) (ds : List Nat) (text : List UInt8) :
    parseDigits ty base (.ofNat _ (PositionalDigits.value base ds)) text =
      (.ofNat _ (PositionalDigits.value base
        (ds ++ (text.takeWhile fun c => toInteger c < base).map toInteger)),
        text.dropWhile fun c => toInteger c < base) := by
  induction text generalizing ds with
  | nil => rw [parseDigits, List.takeWhile_nil, List.map_nil, List.append_nil, List.dropWhile_nil]
  | cons c rest ih =>
      rw [parseDigits]
      split_ifs with hdigit
      · rw [← BitVec.ofNat_mul, ← BitVec.ofNat_add, ← PositionalDigits.value_snoc, ih,
          List.takeWhile_cons_of_pos (p := fun c => toInteger c < base) (decide_eq_true hdigit),
          List.dropWhile_cons_of_pos (p := fun c => toInteger c < base) (decide_eq_true hdigit),
          List.map_cons, List.append_assoc]
        rfl
      · have hstop : ¬decide (toInteger c < base) = true := by rwa [decide_eq_true_iff]
        rw [List.takeWhile_cons_of_neg (p := fun c => toInteger c < base) hstop,
          List.dropWhile_cons_of_neg (p := fun c => toInteger c < base) hstop, List.map_nil,
          List.append_nil]

theorem parseDigits_numeral (base : Nat) (text : List UInt8) :
    parseDigits ty base 0 text = (.ofNat _ (numeral base text).1, (numeral base text).2) :=
  parseDigits_eq base [] text

/-! Tokens -/

theorem reduces_iff (op top : Operator) : reduces op top = true ↔ table.Reduces op top := by
  unfold reduces
  rw [Bool.or_eq_true, Bool.and_eq_true, decide_eq_true_iff, decide_eq_true_iff]
  rfl

/-- The null operator takes every operand, and nothing takes an operand from it but itself. -/
theorem reduces_none (op : Operator) : table.Reduces none op := by
  rcases op with _ | o
  · exact .inr ⟨rfl, rfl⟩
  · cases o <;> exact .inl (by decide)

theorem not_reduces_none (o : BinOp) : ¬table.Reduces (some o) none := by
  cases o <;> decide

/-- What `parseOp()` makes of the next token. -/
def opOf (text : List UInt8) : Option (Token × List UInt8) → Option Operator × List UInt8
  | some (.op o, rest) => (some (some o), rest)
  | some (.halfShift, rest) => (none, rest)
  | _ => (some none, eatSpaces text)

/-- The token of a character that starts no operator. -/
def plainToken (c : UInt8) (rest : List UInt8) : Token × List UInt8 :=
  if ch '0' ≤ c ∧ c ≤ ch '9' then (.number (number (c :: rest)).1, (number (c :: rest)).2)
  else if c = ch '(' then (.opening, rest)
  else if c = ch ')' then (.closing, rest)
  else if c = ch '~' then (.complement, rest)
  else (.other c, rest)

theorem tokenAt_eq (c : UInt8) (rest : List UInt8) :
    tokenAt c rest = (operatorToken c rest).getD (plainToken c rest) := by
  unfold tokenAt
  rcases operatorToken c rest with _ | found
  · rfl
  · rfl

theorem opOf_plainToken (text : List UInt8) (c : UInt8) (rest : List UInt8) :
    opOf text (some (plainToken c rest)) = (some none, eatSpaces text) := by
  unfold plainToken
  split_ifs
  all_goals rfl

theorem parseOp_eq (text : List UInt8) : parseOp text = opOf text (nextToken text) := by
  unfold parseOp nextToken
  rcases hspaces : eatSpaces text with _ | ⟨c, tail⟩
  · show _ = (some none, eatSpaces text)
    rw [hspaces]
  · let f : Option (Token × List UInt8) → Option Operator × List UInt8 := fun found =>
      opOf text (some (found.getD (plainToken c tail)))
    have hother : f none = (some none, c :: tail) := by
      rw [← hspaces]
      exact opOf_plainToken text c tail
    have htoken : opOf text (some (tokenAt c tail)) = f (operatorToken c tail) := by
      rw [tokenAt_eq]
    show _ = opOf text (some (tokenAt c tail))
    rw [htoken]
    unfold operatorToken
    simp only [apply_ite f, hother]
    rfl

theorem isHex_eq (text : List UInt8) :
    isHex text = true ↔
      ∃ zero x h rest, text = zero :: x :: h :: rest ∧ (x = ch 'x' ∨ x = ch 'X') ∧
        toInteger h < 16 := by
  unfold isHex
  split
  · next zero x h rest =>
      rw [decide_eq_true_iff]
      constructor
      · rintro ⟨hx, hdigit⟩
        exact ⟨zero, x, h, rest, rfl, hx, Nat.lt_succ_of_le hdigit⟩
      · rintro ⟨_, _, _, _, htext, hx, hdigit⟩
        cases htext
        exact ⟨hx, Nat.le_of_lt_succ hdigit⟩
  · next hshort =>
      refine iff_of_false Bool.false_ne_true ?_
      rintro ⟨zero, x, h, rest, rfl, -, -⟩
      exact hshort zero x h rest rfl

theorem number_hex {c : UInt8} {rest : List UInt8} (hzero : c = ch '0')
    (hhex : isHex (c :: rest) = true) :
    parseHex ty (c :: rest) = (.ofNat _ (number (c :: rest)).1, (number (c :: rest)).2) := by
  obtain ⟨zero, x, h, rest, htext, hx, hdigit⟩ := (isHex_eq _).mp hhex
  cases htext
  rw [number, if_pos ⟨hzero, hx, hdigit⟩]
  exact parseDigits_numeral 16 (h :: rest)

theorem number_decimal {c : UInt8} {rest : List UInt8}
    (hdecimal : ¬(c = ch '0' ∧ isHex (c :: rest) = true)) :
    parseDecimal ty (c :: rest) = (.ofNat _ (number (c :: rest)).1, (number (c :: rest)).2) := by
  have hnumber : number (c :: rest) = numeral 10 (c :: rest) := by
    rcases rest with _ | ⟨x, _ | ⟨h, rest⟩⟩
    · rfl
    · rfl
    · refine if_neg fun hhex => hdecimal ⟨hhex.1, (isHex_eq _).mpr ?_⟩
      exact ⟨c, x, h, rest, rfl, hhex.2⟩
  rw [hnumber]
  exact parseDigits_numeral 10 (c :: rest)

/-- What `parseValue()` makes of the next token. -/
def valueOf (ty : IntegerType) (fuel : Nat) (p : Parser ty) :
    Option (Token × List UInt8) → Parser ty × Option ty.T
  | none => ({ p with rest := [] }, some 0)
  | some (.number n, rest) => ({ p with rest := rest }, some (.ofNat _ n))
  | some (.opening, rest) =>
      match parseExpr ty fuel { p with rest := rest } with
      | (p, none) => (p, none)
      | (p, some val) =>
          match nextToken p.rest with
          | some (.closing, rest) => ({ p with rest := rest }, some val)
          | _ => ({ p with rest := eatSpaces p.rest }, none)
  | some (.complement, rest) =>
      ((parseValue ty fuel { p with rest := rest }).1,
        (parseValue ty fuel { p with rest := rest }).2.map (unaryValue ty .complement))
  | some (.op .addition, rest) => parseValue ty fuel { p with rest := rest }
  | some (.op .subtraction, rest) =>
      ((parseValue ty fuel { p with rest := rest }).1,
        (parseValue ty fuel { p with rest := rest }).2.map (unaryValue ty .minus))
  | _ => ({ p with rest := eatSpaces p.rest }, none)

/-- A character that starts no operand. -/
theorem valueOf_other (fuel : Nat) (p : Parser ty) {c : UInt8} {tail : List UInt8}
    (hspaces : eatSpaces p.rest = c :: tail) (hdigit : ¬(ch '0' ≤ c ∧ c ≤ ch '9'))
    (hopening : c ≠ ch '(') (hcomplement : c ≠ ch '~') (hplus : c ≠ ch '+') (hminus : c ≠ ch '-') :
    valueOf ty fuel p (some (tokenAt c tail)) = ({ p with rest := c :: tail }, none) := by
  rw [← hspaces]
  unfold tokenAt
  rcases hop : operatorToken c tail with _ | ⟨t, rest⟩
  · dsimp only
    rw [if_neg hdigit, if_neg hopening]
    split_ifs with hclosing
    · rfl
    · rfl
  · obtain ⟨-, hkind, hadd, hsub⟩ := operatorToken_spec c tail (t, rest) hop
    rcases hkind with hhalf | ⟨o, ho⟩
    · cases hhalf
      rfl
    · cases ho
      cases o with
      | addition => exact absurd (hadd rfl) hplus
      | subtraction => exact absurd (hsub rfl) hminus
      | _ => rfl

theorem tokenAt_closing {c : UInt8} (tail : List UInt8) (hclosing : c ≠ ch ')') :
    (tokenAt c tail).1 ≠ .closing := by
  unfold tokenAt
  rcases hop : operatorToken c tail with _ | ⟨t, rest⟩
  · dsimp only
    split_ifs
    all_goals exact Token.noConfusion
  · obtain ⟨-, hkind, -⟩ := operatorToken_spec c tail (t, rest) hop
    rcases hkind with hhalf | ⟨o, ho⟩
    · rw [hhalf]
      exact Token.noConfusion
    · rw [ho]
      exact Token.noConfusion

theorem parseClosing_eq (p : Parser ty) (val : ty.T) :
    (match eatSpaces p.rest with
      | [] => (({ p with rest := [] }, none) : Parser ty × Option ty.T)
      | c :: tail =>
          if c = ch ')' then ({ p with rest := tail }, some val)
          else ({ p with rest := c :: tail }, none)) =
      match nextToken p.rest with
      | some (.closing, rest) => ({ p with rest := rest }, some val)
      | _ => ({ p with rest := eatSpaces p.rest }, none) := by
  unfold nextToken
  rcases eatSpaces p.rest with _ | ⟨c, tail⟩
  · rfl
  · dsimp only
    split_ifs with hclosing
    · rw [hclosing]
      rfl
    · split
      · next rest heq =>
          refine absurd ?_ (tokenAt_closing tail hclosing)
          rw [Option.some.inj heq]
      · rfl

theorem parseValue_succ (fuel : Nat) (p : Parser ty) :
    parseValue ty (fuel + 1) p = valueOf ty fuel p (nextToken p.rest) := by
  rw [parseValue]
  unfold nextToken
  rcases hspaces : eatSpaces p.rest with _ | ⟨c, tail⟩
  · rfl
  · dsimp only
    have htoken : ch '0' ≤ c ∧ c ≤ ch '9' →
        tokenAt c tail = (.number (number (c :: tail)).1, (number (c :: tail)).2) := by
      intro hdigit
      unfold tokenAt
      rw [operatorToken_digit hdigit]
      exact if_pos hdigit
    split_ifs with hhex hdigit hopening hcomplement hplus hminus
    · rw [htoken (by rw [hhex.1]; decide), number_hex hhex.1 hhex.2]
      rfl
    · rw [htoken hdigit, number_decimal hhex]
      rfl
    · rw [hopening]
      show _ = match parseExpr ty fuel { p with rest := tail } with
        | (p, none) => (p, none)
        | (p, some val) => match nextToken p.rest with
          | some (.closing, rest) => ({ p with rest := rest }, some val)
          | _ => ({ p with rest := eatSpaces p.rest }, none)
      rcases parseExpr ty fuel { p with rest := tail } with ⟨p', _ | val⟩
      · rfl
      · exact parseClosing_eq p' val
    · rw [hcomplement]
      rfl
    · rw [hplus]
      rfl
    · rw [hminus]
      have hnegate : (fun val : ty.T => val * -1) = unaryValue ty .minus := by
        funext val
        exact mul_neg_one val
      rw [hnegate]
      rfl
    · exact (valueOf_other fuel p hspaces hdigit hopening hcomplement hplus hminus).symm

/-! The outer loop -/

theorem parseOp_ends (text : List UInt8) (hend : Ends text) :
    parseOp text = (some none, eatSpaces text) := by
  rw [parseOp_eq]
  rcases htoken : nextToken text with _ | ⟨t, rest⟩
  · rfl
  · have hno := hend (t, rest) htoken
    cases t with
    | op o => exact absurd trivial hno
    | halfShift => exact absurd trivial hno
    | _ => rfl

theorem token_cases (text : List UInt8) :
    Ends text ∨ (∃ rest, nextToken text = some (.halfShift, rest)) ∨
      ∃ o rest, nextToken text = some (.op o, rest) := by
  unfold Ends
  rcases nextToken text with _ | ⟨t, rest⟩
  · exact .inl fun found hfound => nomatch hfound
  · cases t with
    | op o => exact .inr (.inr ⟨o, rest, rfl⟩)
    | halfShift => exact .inr (.inl ⟨rest, rfl⟩)
    | _ =>
        refine .inl fun found hfound => ?_
        cases hfound
        exact id

theorem push_cases (p : Parser ty) (item : OperatorValue ty) :
    push p item = ({ p with stack := item :: p.stack }, true) ∨
      push p item = ({ p with overflowed := true }, false) := by
  unfold push
  split_ifs
  · exact .inl rfl
  · exact .inr rfl

def valueThenLoop (ty : IntegerType) (fuel : Nat) (p : Parser ty) : Parser ty × Option ty.T :=
  match parseValue ty fuel p with
  | (p, none) => (p, none)
  | (p, some value) => parseLoop ty fuel p value

theorem parseExpr_succ (fuel : Nat) (p : Parser ty) :
    parseExpr ty (fuel + 1) p = valueThenLoop ty fuel (push p ⟨none, 0⟩).1 := by
  rw [parseExpr]
  rfl

theorem parseLoop_halfShift (fuel : Nat) (p : Parser ty) (value : ty.T) {rest : List UInt8}
    (hstack : p.stack ≠ []) (htoken : nextToken p.rest = some (.halfShift, rest)) :
    parseLoop ty (fuel + 1) p value = ({ p with rest := rest }, none) := by
  rw [parseLoop, if_neg (mt List.isEmpty_iff.mp hstack), parseOp_eq, htoken]
  rfl

/-- The null operator is never shifted. -/
theorem reduce_none (stack : List (OperatorValue ty)) (value : ty.T) :
    (∃ stack', reduce ty none stack value = .fail stack') ∨
      ∃ stack' value', reduce ty none stack value = .done stack' value' := by
  induction stack generalizing value with
  | nil => exact .inl ⟨[], rfl⟩
  | cons top below ih =>
      rw [reduce, if_pos ((reduces_iff _ _).mpr (reduces_none top.op))]
      rcases top.op with _ | o
      · exact .inr ⟨below, value, rfl⟩
      · dsimp only
        rcases calculate ty top.value value o with _ | value'
        · exact .inl ⟨top :: below, rfl⟩
        · exact ih value'

theorem parseLoop_ends (fuel : Nat) (p : Parser ty) (value : ty.T) (hstack : p.stack ≠ [])
    (hend : Ends p.rest) :
    parseLoop ty (fuel + 1) p value =
      match reduce ty none p.stack value with
      | .done stack value' => ({ p with rest := eatSpaces p.rest, stack := stack }, some value')
      | .fail stack => ({ p with rest := eatSpaces p.rest, stack := stack }, none)
      | .shift stack _ => ({ p with rest := eatSpaces p.rest, stack := stack }, none) := by
  rw [parseLoop, if_neg (mt List.isEmpty_iff.mp hstack), parseOp_ends p.rest hend]
  rcases reduce_none p.stack value with ⟨stack', hfail⟩ | ⟨stack', value', hdone⟩
  · dsimp only
    rw [hfail]
  · dsimp only
    rw [hdone]

/-- Behind an operator to shift. -/
def shifted (ty : IntegerType) (fuel : Nat) (p : Parser ty) (o : BinOp) (value : ty.T) :
    Parser ty × Option ty.T :=
  if (push p ⟨some o, value⟩).2 then valueThenLoop ty fuel (push p ⟨some o, value⟩).1
  else ((push p ⟨some o, value⟩).1, none)

theorem parseLoop_op (fuel : Nat) (p : Parser ty) (value : ty.T) {o : BinOp} {rest : List UInt8}
    (hstack : p.stack ≠ []) (htoken : nextToken p.rest = some (.op o, rest)) :
    parseLoop ty (fuel + 1) p value =
      match reduce ty (some o) p.stack value with
      | .done stack value' => ({ p with rest := rest, stack := stack }, some value')
      | .fail stack => ({ p with rest := rest, stack := stack }, none)
      | .shift stack value' =>
          shifted ty fuel { p with rest := rest, stack := stack } o value' := by
  rw [parseLoop, if_neg (mt List.isEmpty_iff.mp hstack), parseOp_eq, htoken]
  dsimp only [opOf]
  rcases reduce ty (some o) p.stack value with stack | ⟨stack, value'⟩ | ⟨stack, value'⟩
  · rfl
  · rfl
  · dsimp only
    unfold shifted
    rcases push { p with rest := rest, stack := stack } ⟨some o, value'⟩ with ⟨p', _ | _⟩
    · rfl
    · rfl

/-! What a call leaves of the text, and how deep it recurses -/

/-- What a call does to the parser; `enough` says that its bound is large enough. -/
structure Progress (enough : Prop) (p p' : Parser ty) : Prop where
  overflowed : p.overflowed = true → p'.overflowed = true
  shorter : size p'.rest ≤ size p.rest
  exhausted : enough → p'.exhausted = p.exhausted

namespace Progress

variable {enough enough' enough'' : Prop} {p p' p'' : Parser ty} {t : Token} {rest : List UInt8}

theorem trans (hfirst : Progress enough p p') (hsecond : Progress enough' p' p'')
    (h : enough'' → enough) (h' : size p'.rest ≤ size p.rest → enough'' → enough') :
    Progress enough'' p p'' where
  overflowed hover := hsecond.overflowed (hfirst.overflowed hover)
  shorter := hsecond.shorter.trans hfirst.shorter
  exhausted henough :=
    (hsecond.exhausted (h' hfirst.shorter henough)).trans (hfirst.exhausted (h henough))

theorem fits (h : Progress enough p p') (hfits : p'.overflowed = false) :
    p.overflowed = false :=
  Bool.eq_false_iff.mpr fun hover => Bool.false_ne_true (hfits.symm.trans (h.overflowed hover))

/-- Only the text and the stack change. -/
theorem of_rest (hover : p'.overflowed = p.overflowed) (hexhausted : p'.exhausted = p.exhausted)
    (hsize : size p'.rest ≤ size p.rest) : Progress enough p p' :=
  ⟨fun h => hover.trans h, hsize, fun _ => hexhausted⟩

theorem of_spaces (p : Parser ty) : Progress enough p { p with rest := eatSpaces p.rest } :=
  of_rest rfl rfl (Nat.le_of_eq (size_congr (eatSpaces_eatSpaces p.rest)))

theorem of_token (htoken : nextToken p.rest = some (t, rest)) :
    Progress enough p { p with rest := rest } :=
  of_rest rfl rfl (size_of_nextToken htoken).le

theorem of_push (p : Parser ty) (item : OperatorValue ty) : Progress enough p (push p item).1 := by
  rcases push_cases p item with hpush | hpush
  · rw [hpush]
    exact of_rest rfl rfl (Nat.le_refl _)
  · rw [hpush]
    exact ⟨fun _ => rfl, Nat.le_refl _, fun _ => rfl⟩

theorem token (htoken : nextToken p.rest = some (t, rest))
    (hafter : Progress enough { p with rest := rest } p')
    (h : size rest < size p.rest → enough' → enough) : Progress enough' p p' :=
  trans (of_token htoken) hafter id fun _ => h (size_of_nextToken htoken)

theorem cut (p : Parser ty) (h : ¬enough) : Progress enough p { p with exhausted := true } :=
  ⟨id, Nat.le_refl _, fun henough => absurd henough h⟩

end Progress

theorem valueOf_progress {fuel : Nat}
    (hvalue : ∀ p, Progress (3 * size p.rest + 1 ≤ fuel) p (parseValue ty fuel p).1)
    (hexpr : ∀ p, Progress (3 * size p.rest + 3 ≤ fuel) p (parseExpr ty fuel p).1)
    (p : Parser ty) :
    Progress (3 * size p.rest + 1 ≤ fuel + 1) p (parseValue ty (fuel + 1) p).1 := by
  rw [parseValue_succ]
  rcases htoken : nextToken p.rest with _ | ⟨t, rest⟩
  · exact .of_rest rfl rfl (Nat.zero_le _)
  · have hinner : Progress (3 * size p.rest + 1 ≤ fuel + 1) p
        (parseValue ty fuel { p with rest := rest }).1 := by
      refine .token htoken (hvalue _) fun hlt _ => ?_
      dsimp only
      omega
    cases t with
    | number n => exact .of_token htoken
    | opening =>
        have hparens : Progress (3 * size p.rest + 1 ≤ fuel + 1) p
            (parseExpr ty fuel { p with rest := rest }).1 := by
          refine .token htoken (hexpr _) fun hlt _ => ?_
          dsimp only
          omega
        dsimp only [valueOf]
        rcases hrun : parseExpr ty fuel { p with rest := rest } with ⟨p', _ | val⟩
        · rw [hrun] at hparens
          exact hparens
        · rw [hrun] at hparens
          dsimp only
          split
          · next rest' hclosing =>
              exact hparens.trans (.of_token hclosing) id fun _ => id
          · exact hparens.trans (.of_spaces p') id fun _ => id
    | closing => exact .of_spaces p
    | complement => exact hinner
    | op o =>
        cases o with
        | addition => exact hinner
        | subtraction => exact hinner
        | _ => exact .of_spaces p
    | halfShift => exact .of_spaces p
    | other c => exact .of_spaces p

theorem valueThenLoop_progress {fuel : Nat}
    (hvalue : ∀ p, Progress (3 * size p.rest + 1 ≤ fuel) p (parseValue ty fuel p).1)
    (hloop : ∀ p value, Progress (3 * size p.rest + 2 ≤ fuel) p (parseLoop ty fuel p value).1)
    (p : Parser ty) :
    Progress (3 * size p.rest + 2 ≤ fuel) p (valueThenLoop ty fuel p).1 := by
  have hfirst := hvalue p
  unfold valueThenLoop
  rcases hrun : parseValue ty fuel p with ⟨p', _ | value⟩
  · rw [hrun] at hfirst
    exact ⟨hfirst.overflowed, hfirst.shorter, fun h => hfirst.exhausted ((Nat.le_succ _).trans h)⟩
  · rw [hrun] at hfirst
    refine hfirst.trans (hloop p' value) (fun h => (Nat.le_succ _).trans h) fun hle h => ?_
    dsimp only at hle
    omega

theorem shifted_progress {fuel : Nat}
    (hnext : ∀ p, Progress (3 * size p.rest + 2 ≤ fuel) p (valueThenLoop ty fuel p).1)
    (p : Parser ty) (o : BinOp) (value : ty.T) :
    Progress (3 * size p.rest + 2 ≤ fuel) p (shifted ty fuel p o value).1 := by
  have hpush : Progress (3 * size p.rest + 2 ≤ fuel) p (push p ⟨some o, value⟩).1 := .of_push p _
  unfold shifted
  split_ifs
  · refine hpush.trans (hnext _) id fun hle h => ?_
    omega
  · exact hpush

theorem parseLoop_progress {fuel : Nat}
    (hnext : ∀ p, Progress (3 * size p.rest + 2 ≤ fuel) p (valueThenLoop ty fuel p).1)
    (p : Parser ty) (value : ty.T) :
    Progress (3 * size p.rest + 2 ≤ fuel + 1) p (parseLoop ty (fuel + 1) p value).1 := by
  by_cases hstack : p.stack = []
  · rw [parseLoop, if_pos (List.isEmpty_iff.mpr hstack)]
    exact .of_rest rfl rfl (Nat.le_refl _)
  · rcases token_cases p.rest with hend | ⟨rest, htoken⟩ | ⟨o, rest, htoken⟩
    · rw [parseLoop_ends fuel p value hstack hend]
      have hspaces : size (eatSpaces p.rest) ≤ size p.rest :=
        Nat.le_of_eq (size_congr (eatSpaces_eatSpaces p.rest))
      rcases reduce ty none p.stack value with stack | ⟨stack, value'⟩ | ⟨stack, value'⟩
      all_goals exact .of_rest rfl rfl hspaces
    · rw [parseLoop_halfShift fuel p value hstack htoken]
      exact .of_token htoken
    · rw [parseLoop_op fuel p value hstack htoken]
      rcases reduce ty (some o) p.stack value with stack | ⟨stack, value'⟩ | ⟨stack, value'⟩
      · exact .of_rest rfl rfl (size_of_nextToken htoken).le
      · exact .of_rest rfl rfl (size_of_nextToken htoken).le
      · have hrest : Progress (3 * size rest + 2 ≤ fuel) p
            { p with rest := rest, stack := stack } :=
          .of_rest rfl rfl (size_of_nextToken htoken).le
        have hlt := size_of_nextToken htoken
        refine hrest.trans (shifted_progress hnext _ o value') (fun h => ?_) fun _ h => ?_
        · omega
        · dsimp only
          omega

theorem progress (fuel : Nat) :
    (∀ p : Parser ty, Progress (3 * size p.rest + 1 ≤ fuel) p (parseValue ty fuel p).1) ∧
      (∀ p : Parser ty, Progress (3 * size p.rest + 3 ≤ fuel) p (parseExpr ty fuel p).1) ∧
      ∀ (p : Parser ty) (value : ty.T),
        Progress (3 * size p.rest + 2 ≤ fuel) p (parseLoop ty fuel p value).1 := by
  induction fuel with
  | zero =>
      refine ⟨fun p => ?_, fun p => ?_, fun p value => ?_⟩
      · rw [parseValue]
        exact .cut p (Nat.not_succ_le_zero _)
      · rw [parseExpr]
        exact .cut p (Nat.not_succ_le_zero _)
      · rw [parseLoop]
        exact .cut p (Nat.not_succ_le_zero _)
  | succ fuel ih =>
      obtain ⟨hvalue, hexpr, hloop⟩ := ih
      have hnext := valueThenLoop_progress hvalue hloop
      refine ⟨valueOf_progress hvalue hexpr, fun p => ?_, parseLoop_progress hnext⟩
      rw [parseExpr_succ]
      refine (Progress.of_push p ⟨none, 0⟩).trans (hnext _) id fun hle h => ?_
      omega

/-- The bound on the recursion is never reached. -/
theorem evaluation_exhausted (ty : IntegerType) (expressionAsText : CString) :
    (evaluation ty expressionAsText).1.exhausted = false := by
  have hsize := size_le_length expressionAsText.chars
  refine ((progress _).2.1 _).exhausted ?_
  dsimp only
  omega

end ColonyPico.Math.ExpressionSteps
