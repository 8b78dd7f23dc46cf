import JsonExpr.Value.Equality

/-!
Expressions as trees. `Expr.hasRelative` says whether a tree has names that belong to the element
of an enclosing filter; inside the brackets of a nested filter such names belong to that filter.
-/

namespace JsonExpr

/-- The two registries of callables. -/
inductive Pool
  | functions
  | transforms
deriving DecidableEq, Repr, Inhabited

/-- An expression. -/
inductive Expr
  /-- A value written down. -/
  | literal (value : Value)
  /-- A name, read from the context or, when relative, from the element of a filter. -/
  | ident (name : String) (relative : Bool)
  /-- A property of a value. -/
  | member (subject : Expr) (name : String) (relative : Bool)
  /-- A binary operator applied to two operands. -/
  | binary (operator : String) (left right : Expr)
  /-- A unary operator applied to an operand. -/
  | unary (operator : String) (right : Expr)
  /-- A choice between two branches. -/
  | cond (test yes no : Expr)
  /-- The test itself when it is true, else the alternative. -/
  | elvis (test otherwise : Expr)
  /-- Bracket access: a filter of elements when relative, else an index or a key. -/
  | filter (subject predicate : Expr) (relative : Bool)
  /-- An array of items. -/
  | array (items : List Expr)
  /-- An object of entries, in the order in which they are written. -/
  | object (entries : List (String × Expr))
  /-- A call of a function, or of a transform with its subject as the first argument. -/
  | call (pool : Pool) (name : String) (args : List Expr)
deriving Inhabited

namespace Expr

mutual

/-- Has names that are read from the element of the enclosing filter. -/
def hasRelative : Expr → Bool
  | .literal _ => false
  | .ident _ relative => relative
  | .member subject _ relative => relative || subject.hasRelative
  | .binary _ left right => left.hasRelative || right.hasRelative
  | .unary _ right => right.hasRelative
  | .cond test yes no => test.hasRelative || yes.hasRelative || no.hasRelative
  | .elvis test otherwise => test.hasRelative || otherwise.hasRelative
  | .filter subject _ _ => subject.hasRelative
  | .array items => anyRelative items
  | .object entries => anyRelativeEntry entries
  | .call _ _ args => anyRelative args

/-- One of the expressions has such names. -/
def anyRelative : List Expr → Bool
  | [] => false
  | item :: rest => item.hasRelative || anyRelative rest

/-- One of the entries has such names. -/
def anyRelativeEntry : List (String × Expr) → Bool
  | [] => false
  | (_, value) :: rest => value.hasRelative || anyRelativeEntry rest

end

mutual

/-- Equality of trees; literals are compared as values. -/
def beq : Expr → Expr → Bool
  | .literal a, .literal b => a == b
  | .ident a r, .ident b s => a == b && r == s
  | .member x a r, .member y b s => beq x y && a == b && r == s
  | .binary a x x', .binary b y y' => a == b && beq x y && beq x' y'
  | .unary a x, .unary b y => a == b && beq x y
  | .cond x x' x'', .cond y y' y'' => beq x y && beq x' y' && beq x'' y''
  | .elvis x x', .elvis y y' => beq x y && beq x' y'
  | .filter x x' r, .filter y y' s => beq x y && beq x' y' && r == s
  | .array xs, .array ys => beqItems xs ys
  | .object xs, .object ys => beqEntries xs ys
  | .call p a xs, .call q b ys => p == q && a == b && beqItems xs ys
  | _, _ => false

/-- Equality of lists of trees. -/
def beqItems : List Expr → List Expr → Bool
  | [], [] => true
  | x :: xs, y :: ys => beq x y && beqItems xs ys
  | _, _ => false

/-- Equality of lists of entries. -/
def beqEntries : List (String × Expr) → List (String × Expr) → Bool
  | [], [] => true
  | (a, x) :: xs, (b, y) :: ys => a == b && beq x y && beqEntries xs ys
  | _, _ => false

end

instance : BEq Expr := ⟨beq⟩

end Expr

end JsonExpr
