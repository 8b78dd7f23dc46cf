import JsonExpr.Grammar
import JsonExpr.Operators.Arithmetic
import JsonExpr.Operators.Comparison

/-!
The standard grammar: the punctuation and the built-in operators.

| symbol | precedence |
|---|---|
| `||` `&&` | 10 |
| `==` `!=` `<` `<=` `>` `>=` `in` | 20 |
| `+` `-` | 30 |
| `*` `/` `//` `%` | 40 |
| `^` | 50 |
| `!` (unary) | above all |
-/

namespace JsonExpr

/-- Disjunction: the left value if it is true, else the right one, which runs only then. -/
def Run.or (left right : Run Value) : Run Value :=
  left.bind fun value => if value.isTruthy then .ok value else right

/-- Conjunction: the right value if the left one is true, else the left one. -/
def Run.and (left right : Run Value) : Run Value :=
  left.bind fun value => if value.isTruthy then right else .ok value

namespace Grammar

/-- The punctuation of the language. -/
def punctuation : List (String × TokenKind) :=
  [(".", .dot), ("[", .openBracket), ("]", .closeBracket), ("|", .pipe), ("\x7b", .openCurl),
    ("\x7d", .closeCurl), (":", .colon), (",", .comma), ("(", .openParen), (")", .closeParen),
    ("?", .question)]

/-- An operator that always has a truth value. -/
def addTest (g : Grammar) (symbol : String) (test : Value → Value → Bool) : Grammar :=
  g.addBinary symbol 20 fun left right => .ok (.bool (test left right))

/-- Adds the built-in operators. -/
def addOperators (g : Grammar) : Grammar :=
  g |>.addDeferred "||" 10 Run.or
    |>.addDeferred "&&" 10 Run.and
    |>.addTest "==" Value.looseEq
    |>.addTest "!=" (fun left right => !Value.looseEq left right)
    |>.addTest "<" (Value.ordered (· == .lt))
    |>.addTest "<=" (Value.ordered (· != .gt))
    |>.addTest ">" (Value.ordered (· == .gt))
    |>.addTest ">=" (Value.ordered (· != .lt))
    |>.addTest "in" Value.isIn
    |>.addBinary "+" 30 Value.plus
    |>.addBinary "-" 30 Arithmetic.sub.apply
    |>.addBinary "*" 40 Arithmetic.mul.apply
    |>.addBinary "/" 40 Arithmetic.div.apply
    |>.addBinary "//" 40 Value.floorDiv
    |>.addBinary "%" 40 Arithmetic.rem.apply
    |>.addBinary "^" 50 Value.power
    |>.addUnary "!" (fun value => .ok (.bool !value.isTruthy))

/-- The punctuation and the built-in operators, without functions and transforms. -/
def standard : Grammar :=
  addOperators
    (punctuation.foldl (fun g entry => g.addElement entry.1 (.punctuation entry.2)) empty)

end Grammar

end JsonExpr
