import JsonExpr.Expr
import JsonExpr.Grammar
import JsonExpr.Run.Siblings
import JsonExpr.Value.Json

/-!
Evaluation. Names are read from the context, or from the element that a filter is looking at;
operators and callables are looked up in a grammar. Array items, object values, arguments and the
tests of a filter are sibling groups, all else goes from left to right: an operator is looked up
before its operands are evaluated, a callable after its arguments.

Only callables suspend, record or fail on their own.
-/

namespace JsonExpr

/-- What names are read from: the context, and the element of the innermost filter, if any. -/
structure Scope where
  context : Value
  element : Option Value := none

namespace Scope

/-- The value that a name without a subject is read from. -/
def root (scope : Scope) (relative : Bool) : Value :=
  if relative then scope.element.getD scope.context else scope.context

/-- The scope in which a filter looks at an element. -/
def visiting (scope : Scope) (element : Value) : Scope :=
  { scope with element := some element }

end Scope

namespace Value

/-- A property of a value; an array has those of its first item. -/
def property (name : String) : Value → Value
  | .array [] => .undefined
  | .array (first :: _) => first.get name
  | value => value.get name

/-- The position that a numeral stands for: digits, perhaps after a plus sign. -/
def parseIndex? (s : String) : Option Nat :=
  let digits := match s.toList with
    | '+' :: rest => rest
    | cs => cs
  if digits.isEmpty || !digits.all Char.isDigit then none
  else
    let n := Text.ofDigits digits
    if n ≤ maxIndex then some n else none

/-- The position that a key stands for. -/
def position? : Value → Option Nat
  | .string s => parseIndex? s
  | key => key.asIndex?

/-- What a key reads from a value: a truth value keeps it or drops it, a position reads an item of
an array or a character of a string, and any other key reads an entry. -/
def index (subject key : Value) : Value :=
  match subject, key with
  | subject, .bool keep => if keep then subject else .undefined
  | .array items, key => ((position? key).bind fun i => items[i]?).getD .undefined
  | .string s, key =>
    match (position? key).bind fun i => s.toList[i]? with
    | some c => .string (String.singleton c)
    | none => .undefined
  | subject, key => subject.get key.text

/-- The elements that a filter looks at. -/
def elements : Value → List Value
  | .array items => items
  | .undefined => []
  | value => [value]

end Value

namespace Expr

/-- The items whose verdict is true, in order. -/
def keep (items verdicts : List Value) : List Value :=
  ((items.zip verdicts).filter fun pair => pair.2.isTruthy).map Prod.fst

/-- The callable of that name. -/
def callable (g : Grammar) (pool : Pool) (name : String) : Except EvalError Callable :=
  match pool with
  | .functions =>
    match g.function? name with
    | some callable => .ok callable
    | none => .error (.unknownFunction name)
  | .transforms =>
    match g.transform? name with
    | some callable => .ok callable
    | none => .error (.unknownTransform name)

/-- Calls a callable on its arguments; its failures carry its name. -/
def invoke (g : Grammar) (pool : Pool) (name : String) (args : List Value) : Run Value :=
  match callable g pool name with
  | .ok callable => (callable args).mapError (.callable name)
  | .error error => .fail error

mutual

/-- The evaluation of an expression. -/
def eval (g : Grammar) (scope : Scope) : Expr → Run Value
  | .literal value => .ok value
  | .ident name relative => .ok ((scope.root relative).property name)
  | .member subject name _ => (eval g scope subject).map (Value.property name)
  | .binary operator left right =>
    match g.binary? operator with
    | none => .fail (.unknownOperator operator)
    | some ⟨_, .direct apply⟩ =>
      (eval g scope left).bind fun a => (eval g scope right).bind fun b => .done (apply a b)
    | some ⟨_, .deferred apply⟩ => apply (eval g scope left) (eval g scope right)
  | .unary operator right =>
    match g.unary? operator with
    | none => .fail (.unknownOperator operator)
    | some op => (eval g scope right).bind fun value => .done (op.apply value)
  | .cond test yes no =>
    (eval g scope test).bind fun value =>
      if value.isTruthy then eval g scope yes else eval g scope no
  | .elvis test otherwise =>
    (eval g scope test).bind fun value =>
      if value.isTruthy then .ok value else eval g scope otherwise
  | .filter subject predicate true =>
    (eval g scope subject).bind fun value =>
      (Run.joinAll (value.elements.map fun item => eval g (scope.visiting item) predicate)).map
        fun verdicts => .array (keep value.elements verdicts)
  | .filter subject key false =>
    (eval g scope subject).bind fun value =>
      (eval g scope key).map fun key => value.index key
  | .array items => (Run.joinAll (evalItems g scope items)).map .array
  | .object entries =>
    (Run.joinAll (evalEntries g scope entries)).map fun values =>
      .ofEntries ((entries.map Prod.fst).zip values)
  | .call pool name args => (Run.joinAll (evalItems g scope args)).bind (invoke g pool name)

/-- The evaluations of expressions that stand side by side. -/
def evalItems (g : Grammar) (scope : Scope) : List Expr → List (Run Value)
  | [] => []
  | item :: rest => eval g scope item :: evalItems g scope rest

/-- The evaluations of the values of entries. -/
def evalEntries (g : Grammar) (scope : Scope) : List (String × Expr) → List (Run Value)
  | [] => []
  | (_, value) :: rest => eval g scope value :: evalEntries g scope rest

end

variable (g : Grammar) (scope : Scope)

theorem evalItems_eq_map (items : List Expr) :
    evalItems g scope items = items.map (eval g scope) := by
  induction items with
  | nil => rfl
  | cons item rest ih => rw [evalItems, ih, List.map_cons]

theorem evalEntries_eq_map (entries : List (String × Expr)) :
    evalEntries g scope entries = entries.map fun entry => eval g scope entry.2 := by
  induction entries with
  | nil => rfl
  | cons entry rest ih => rw [evalEntries, ih, List.map_cons]

theorem evalEntries_eq_evalItems (entries : List (String × Expr)) :
    evalEntries g scope entries = evalItems g scope (entries.map Prod.snd) := by
  rw [evalEntries_eq_map, evalItems_eq_map, List.map_map]
  rfl

end Expr

end JsonExpr
