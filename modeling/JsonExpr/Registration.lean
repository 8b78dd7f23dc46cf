import JsonExpr.Operators.Standard

/-!
Registration with a list of symbols that is kept beside the elements. The elements are in a hash
table, whose keys come in whatever order; a call that changes them makes the list anew from its
keys, and all other calls leave the list as it is. `Grammar.symbols` computes the list where it is
asked for.
-/

namespace JsonExpr

/-- A call by which a host registers or removes something. -/
inductive Registration
  | addBinary (symbol : String) (precedence : UInt32)
    (apply : Value → Value → Except EvalError Value)
  | addDeferred (symbol : String) (precedence : UInt32)
    (apply : Run Value → Run Value → Run Value)
  | addUnary (symbol : String) (apply : Value → Except EvalError Value)
  | removeOperator (symbol : String)
  | addFunction (name : String) (callable : Callable)
  | addFunctions (callables : List (String × Callable))
  | addTransform (name : String) (callable : Callable)
  | addTransforms (callables : List (String × Callable))

namespace Registration

/-- What the call makes of a grammar. -/
def apply (g : Grammar) : Registration → Grammar
  | .addBinary symbol precedence apply => g.addBinary symbol precedence apply
  | .addDeferred symbol precedence apply => g.addDeferred symbol precedence apply
  | .addUnary symbol apply => g.addUnary symbol apply
  | .removeOperator symbol => g.removeOperator symbol
  | .addFunction name callable => g.addFunction name callable
  | .addFunctions callables => g.addFunctions callables
  | .addTransform name callable => g.addTransform name callable
  | .addTransforms callables => g.addTransforms callables

/-- What the calls make of a grammar, one after the other. -/
def applyAll (g : Grammar) (calls : List Registration) : Grammar :=
  calls.foldl apply g

/-- The call makes the list of symbols anew. A removal does so only where there is something to
remove. -/
def rebuilds (g : Grammar) : Registration → Bool
  | .addBinary _ _ _ | .addDeferred _ _ _ | .addUnary _ _ => true
  | .removeOperator symbol => (g.element? symbol).any Element.isOperator
  | .addFunction _ _ | .addFunctions _ | .addTransform _ _ | .addTransforms _ => false

/-- An operator that always has a truth value. -/
def addTest (symbol : String) (test : Value → Value → Bool) : Registration :=
  .addBinary symbol 20 fun left right => .ok (.bool (test left right))

/-- The built-in operators, in the order in which they are installed. -/
def builtIns : List Registration :=
  [.addDeferred "||" 10 Run.or, .addDeferred "&&" 10 Run.and, addTest "==" Value.looseEq,
    addTest "!=" fun left right => !Value.looseEq left right,
    addTest "<" (Value.ordered (· == .lt)), addTest "<=" (Value.ordered (· != .gt)),
    addTest ">" (Value.ordered (· == .gt)), addTest ">=" (Value.ordered (· != .lt)),
    addTest "in" Value.isIn, .addBinary "+" 30 Value.plus, .addBinary "-" 30 Arithmetic.sub.apply,
    .addBinary "*" 40 Arithmetic.mul.apply, .addBinary "/" 40 Arithmetic.div.apply,
    .addBinary "//" 40 Value.floorDiv, .addBinary "%" 40 Arithmetic.rem.apply,
    .addBinary "^" 50 Value.power, .addUnary "!" fun value => .ok (.bool !value.isTruthy)]

end Registration

namespace Grammar

/-- The symbols among spellings in whatever order, as the list has them. -/
def sorted (spellings : List String) : List String :=
  (spellings.filter fun symbol => !looksLikeWord symbol).mergeSort symbolLe

/-- The punctuation alone. -/
def punctuated : Grammar :=
  punctuation.foldl (fun g entry => g.addElement entry.1 (.punctuation entry.2)) empty

theorem applyAll_builtIns : Registration.applyAll punctuated Registration.builtIns = standard := rfl

end Grammar

/-- A grammar with its list of symbols. -/
structure Listed where
  grammar : Grammar
  symbols : List String

namespace Listed

/-- The list is made of the keys of the elements, in whatever order they come. -/
def IsRebuilt (elements : Registry Element) (symbols : List String) : Prop :=
  ∃ keys : List String, keys.Perm elements.names ∧ symbols = Grammar.sorted keys

/-- What a call does. -/
def Step (s : Listed) (call : Registration) (t : Listed) : Prop :=
  t.grammar = call.apply s.grammar ∧
    if call.rebuilds s.grammar then IsRebuilt t.grammar.elements t.symbols
    else t.symbols = s.symbols

/-- What calls do, one after the other. -/
inductive Runs : Listed → List Registration → Listed → Prop
  | nil {s : Listed} : Runs s [] s
  | cons {s t u : Listed} {call : Registration} {rest : List Registration} :
    Step s call t → Runs t rest u → Runs s (call :: rest) u

/-- The grammars that a host begins with: an empty one, and the standard one, in whose table the
punctuation is put without a look at the list. -/
inductive Start : Listed → Prop
  | empty : Start ⟨.empty, []⟩
  | new {s : Listed} {symbols : List String} : Runs ⟨.punctuated, []⟩ Registration.builtIns s →
    IsRebuilt s.grammar.elements symbols → Start ⟨s.grammar, symbols⟩

end Listed

end JsonExpr
