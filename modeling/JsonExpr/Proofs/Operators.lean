import JsonExpr.Eval
import JsonExpr.Proofs.Grammar

/-!
What a grammar makes of operands, and the built-in operators as a table of their own, apart from
the way in which a grammar keeps them. `IsStandard.applyBinary_eq` and `IsStandard.applyUnary_eq`
say that a grammar with the standard elements works by this table.

Built-in operators fail only with type errors and divisions by zero
(`BuiltIn.isArithmetic_of_strict`).
-/

namespace JsonExpr

/-- What a built-in binary operator does with its operands. -/
inductive BuiltIn
  /-- The left value if it is true, else the right one. -/
  | or
  /-- The right value if the left one is true, else the left one. -/
  | and
  /-- Both operands are evaluated, and their values give the result. -/
  | strict (apply : Value → Value → Except EvalError Value)

namespace BuiltIn

/-- An operator that always has a truth value. -/
def test (holds : Value → Value → Bool) : BuiltIn :=
  .strict fun left right => .ok (.bool (holds left right))

/-- The binary operator of that symbol. -/
def ofSymbol? : String → Option BuiltIn
  | "||" => some .or
  | "&&" => some .and
  | "==" => some (test Value.looseEq)
  | "!=" => some (test fun left right => !Value.looseEq left right)
  | "<" => some (test (Value.ordered (· == .lt)))
  | "<=" => some (test (Value.ordered (· != .gt)))
  | ">" => some (test (Value.ordered (· == .gt)))
  | ">=" => some (test (Value.ordered (· != .lt)))
  | "in" => some (test Value.isIn)
  | "+" => some (.strict Value.plus)
  | "-" => some (.strict Arithmetic.sub.apply)
  | "*" => some (.strict Arithmetic.mul.apply)
  | "/" => some (.strict Arithmetic.div.apply)
  | "//" => some (.strict Value.floorDiv)
  | "%" => some (.strict Arithmetic.rem.apply)
  | "^" => some (.strict Value.power)
  | _ => none

/-- How the operator gets its operands. -/
def eval : BuiltIn → BinaryEval
  | .or => .deferred Run.or
  | .and => .deferred Run.and
  | .strict apply => .direct apply

end BuiltIn

/-- Negation, as `Run.or` and `Run.and` are the other connectives. -/
def Run.not (run : Run Value) : Run Value :=
  run.bind fun value => .ok (.bool !value.isTruthy)

/-- The operator with its operands, given as runs. -/
def BinaryEval.apply (left right : Run Value) : BinaryEval → Run Value
  | .direct apply => left.bind fun a => right.bind fun b => .done (apply a b)
  | .deferred apply => apply left right

namespace Grammar

/-- What the binary operator of that symbol makes of its operands. -/
def applyBinary (g : Grammar) (symbol : String) (left right : Run Value) : Run Value :=
  match (g.binary? symbol).map BinaryOp.eval with
  | none => .fail (.unknownOperator symbol)
  | some eval => eval.apply left right

/-- What the unary operator of that symbol makes of its operand. -/
def applyUnary (g : Grammar) (symbol : String) (right : Run Value) : Run Value :=
  match g.unary? symbol with
  | none => .fail (.unknownOperator symbol)
  | some op => right.bind fun value => .done (op.apply value)

theorem eval_binary (g : Grammar) (scope : Scope) (symbol : String) (left right : Expr) :
    Expr.eval g scope (.binary symbol left right) =
      g.applyBinary symbol (left.eval g scope) (right.eval g scope) := by
  rw [Expr.eval, applyBinary]
  match g.binary? symbol with
  | none => rfl
  | some ⟨_, .direct apply⟩ => rfl
  | some ⟨_, .deferred apply⟩ => rfl

theorem eval_unary (g : Grammar) (scope : Scope) (symbol : String) (right : Expr) :
    Expr.eval g scope (.unary symbol right) = g.applyUnary symbol (right.eval g scope) := by
  rewrite [Expr.eval, applyUnary]
  cases g.unary? symbol <;> rfl

/-! ## The standard elements -/

variable {g : Grammar} {symbol : String}

theorem isSome_element?_of_binary? (found : (g.binary? symbol).isSome) :
    (g.element? symbol).isSome := by
  unfold binary? at found
  split at found
  · rename_i element
    rw [element]
    rfl
  · cases found

theorem isSome_element?_of_unary? (found : (g.unary? symbol).isSome) :
    (g.element? symbol).isSome := by
  unfold unary? at found
  split at found
  · rename_i element
    rw [element]
    rfl
  · cases found

/-- What holds of all spellings of the standard grammar holds of a spelling that it has. -/
theorem check_of_element? {check : String → Bool}
    (all : Grammar.standard.elements.names.all check = true)
    (found : (Grammar.standard.element? symbol).isSome) : check symbol = true :=
  List.all_eq_true.1 all symbol (Fields.isSome_find?_iff.1 found)

theorem isSome_ofSymbol? (found : (Grammar.standard.binary? symbol).isSome) :
    (BuiltIn.ofSymbol? symbol).isSome := by
  have listed : Grammar.standard.elements.names.all (fun name =>
      !(Grammar.standard.binary? name).isSome || (BuiltIn.ofSymbol? name).isSome) = true := rfl
  have entry := check_of_element? listed (isSome_element?_of_binary? found)
  rwa [found, Bool.not_true, Bool.false_or] at entry

theorem eq_of_unary?_standard (found : (Grammar.standard.unary? symbol).isSome) :
    symbol = "!" := by
  have listed : Grammar.standard.elements.names.all (fun name =>
      !(Grammar.standard.unary? name).isSome || name == "!") = true := rfl
  have entry := check_of_element? listed (isSome_element?_of_unary? found)
  rwa [found, Bool.not_true, Bool.false_or, beq_iff_eq] at entry

theorem map_binary?_standard (symbol : String) :
    (Grammar.standard.binary? symbol).map BinaryOp.eval =
      (BuiltIn.ofSymbol? symbol).map BuiltIn.eval := by
  cases listed : BuiltIn.ofSymbol? symbol with
  | none =>
    cases found : Grammar.standard.binary? symbol with
    | none => rfl
    | some op =>
      have inTable := isSome_ofSymbol? (found ▸ rfl : (Grammar.standard.binary? symbol).isSome)
      rw [listed] at inTable
      cases inTable
  | some builtIn =>
    unfold BuiltIn.ofSymbol? at listed
    split at listed <;> cases listed <;> rfl

theorem unary?_standard (symbol : String) :
    Grammar.standard.unary? symbol =
      if symbol = "!" then some ⟨fun value => .ok (.bool !value.isTruthy)⟩ else none := by
  split
  · rename_i same
    subst same
    rfl
  · rename_i different
    cases found : Grammar.standard.unary? symbol with
    | none => rfl
    | some op =>
      exact absurd (eq_of_unary?_standard (found ▸ rfl : (Grammar.standard.unary? symbol).isSome))
        different

namespace IsStandard

variable (standard : g.IsStandard)
include standard

theorem applyBinary_eq (symbol : String) (left right : Run Value) :
    g.applyBinary symbol left right =
      match BuiltIn.ofSymbol? symbol with
      | none => .fail (.unknownOperator symbol)
      | some builtIn => builtIn.eval.apply left right := by
  have same : g.binary? symbol = Grammar.standard.binary? symbol := by
    rw [binary?, binary?, standard]
  rw [applyBinary, same, map_binary?_standard]
  cases BuiltIn.ofSymbol? symbol <;> rfl

theorem applyUnary_eq (symbol : String) (right : Run Value) :
    g.applyUnary symbol right =
      if symbol = "!" then right.bind fun value => .ok (.bool !value.isTruthy)
      else .fail (.unknownOperator symbol) := by
  have same : g.unary? symbol = Grammar.standard.unary? symbol := by
    rw [unary?, unary?, standard]
  rw [applyUnary, same, unary?_standard]
  by_cases bang : symbol = "!"
  · simp only [if_pos bang]
    rfl
  · simp only [if_neg bang]

/-- A strict operator works on the values of its operands. -/
theorem eval_strict {scope : Scope} {left right : Expr} {a b : Value}
    {apply : Value → Value → Except EvalError Value}
    (listed : BuiltIn.ofSymbol? symbol = some (.strict apply))
    (evalLeft : left.eval g scope = .ok a) (evalRight : right.eval g scope = .ok b) :
    (Expr.binary symbol left right).eval g scope = .done (apply a b) := by
  rw [eval_binary, standard.applyBinary_eq, listed, evalLeft, evalRight]
  rfl

end IsStandard

/-! ## The connectives -/

/-- The grammar has the built-in `||`, `&&` and `!`, whatever its other operators are. -/
structure HasConnectives (g : Grammar) : Prop where
  or : (g.binary? "||").map BinaryOp.eval = some (.deferred Run.or)
  and : (g.binary? "&&").map BinaryOp.eval = some (.deferred Run.and)
  not : g.unary? "!" = some ⟨fun value => .ok (.bool !value.isTruthy)⟩

theorem IsStandard.hasConnectives (standard : g.IsStandard) : g.HasConnectives where
  or := by
    rw [binary?, standard]
    rfl
  and := by
    rw [binary?, standard]
    rfl
  not := by
    rw [unary?, standard]
    rfl

namespace HasConnectives

variable (connectives : g.HasConnectives)
include connectives

theorem applyBinary_or (left right : Run Value) :
    g.applyBinary "||" left right = left.or right := by
  rw [applyBinary, connectives.or]
  rfl

theorem applyBinary_and (left right : Run Value) :
    g.applyBinary "&&" left right = left.and right := by
  rw [applyBinary, connectives.and]
  rfl

theorem applyUnary_not (right : Run Value) : g.applyUnary "!" right = right.not := by
  rw [applyUnary, connectives.not]
  rfl

theorem isSome_binary? (connective : symbol = "||" ∨ symbol = "&&") :
    (g.binary? symbol).isSome := by
  rw [← Option.isSome_map (f := BinaryOp.eval)]
  rcases connective with rfl | rfl
  · rw [connectives.or]
    rfl
  · rw [connectives.and]
    rfl

end HasConnectives

end Grammar

/-! ## How built-in operators fail -/

/-- The failures of operations on values. -/
def EvalError.IsArithmetic : EvalError → Prop
  | .typeError _ | .divisionByZero => True
  | _ => False

theorem Arithmetic.isArithmetic_of_apply {op : Arithmetic} {left right : Value} {error : EvalError}
    (h : op.apply left right = .error error) : error.IsArithmetic := by
  unfold Arithmetic.apply at h
  split at h
  · cases h
    trivial
  · split at h <;> cases h
    trivial

theorem Value.isArithmetic_of_plus {left right : Value} {error : EvalError}
    (h : left.plus right = .error error) : error.IsArithmetic := by
  unfold Value.plus at h
  split at h
  · cases h
  · cases h
  · exact Arithmetic.isArithmetic_of_apply h

theorem Value.isArithmetic_of_floorDiv {left right : Value} {error : EvalError}
    (h : left.floorDiv right = .error error) : error.IsArithmetic := by
  unfold Value.floorDiv at h
  split at h
  · cases h
    trivial
  · split at h
    · split at h <;> cases h
    · split at h <;> cases h
      trivial

theorem Value.isArithmetic_of_power {left right : Value} {error : EvalError}
    (h : left.power right = .error error) : error.IsArithmetic := by
  unfold Value.power at h
  split at h
  · split at h
    · split at h
      · split at h <;> cases h
      · cases h
    · cases h
  · cases h
    trivial

theorem BuiltIn.isArithmetic_of_strict {symbol : String}
    {apply : Value → Value → Except EvalError Value} {left right : Value} {error : EvalError}
    (listed : BuiltIn.ofSymbol? symbol = some (.strict apply))
    (h : apply left right = .error error) : error.IsArithmetic := by
  unfold BuiltIn.ofSymbol? at listed
  split at listed
  all_goals cases listed
  case h_10 => exact Value.isArithmetic_of_plus h
  case h_11 | h_12 | h_13 | h_15 => exact Arithmetic.isArithmetic_of_apply h
  case h_14 => exact Value.isArithmetic_of_floorDiv h
  case h_16 => exact Value.isArithmetic_of_power h
  all_goals cases h

end JsonExpr
