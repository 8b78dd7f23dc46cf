import JsonExpr.Eval
import JsonExpr.Operators.Standard
import JsonExpr.Parser.Basic
import JsonExpr.Token.Lexer

/-!
Engines turn source texts into expressions and keep what is needed for that: a grammar, the rules
for names, and on request a cache of trees. An expression keeps the grammar that it was compiled
with, so what is registered later does not change it. Trees are numbered as they are built, and
two expressions share a tree when they have its number.

The cache knows sources only, so whatever changes how a source is read empties it.
-/

namespace JsonExpr

/-- What can go wrong between a source and its value. -/
inductive Error
  | lex (error : LexError)
  | parse (error : ParseError)
  | eval (error : EvalError)
deriving DecidableEq, Repr

/-- The message for a cause. -/
def Error.message : Error → String
  | .lex error => error.message
  | .parse error => error.message
  | .eval error => error.message

/-- Reads a source: its tokens, and their tree. -/
def Dialect.read (d : Dialect) (source : String) : Except Error Expr :=
  match tokenize d.grammar source with
  | .error error => .error (.lex error)
  | .ok tokens =>
    match Parser.parse d tokens with
    | .error error => .error (.parse error)
    | .ok tree => .ok tree

/-- A tree with its number. -/
structure Tree where
  id : Nat
  expr : Expr

/-- A compiled expression. -/
structure Expression where
  source : String
  tree : Tree
  grammar : Grammar

/-- The evaluation of an expression in a context, with the given grammar. -/
def Expr.evaluate (g : Grammar) (context : Value) (e : Expr) : Run Value :=
  e.eval g ⟨context, none⟩

/-- The evaluation of an expression in a context. -/
def Expression.evaluate (e : Expression) (context : Value) : Run Value :=
  e.tree.expr.evaluate e.grammar context

/-- An engine: how it reads sources, the trees that it keeps for them, if it keeps any, and the
number of the next tree. -/
structure Engine where
  dialect : Dialect
  cache : Option (Registry Tree)
  nextId : Nat

namespace Engine

/-- An engine with the standard grammar and no cache. -/
def new (options : ParseOptions) : Engine :=
  ⟨⟨.standard, options⟩, none, 0⟩

/-- Drops all cached trees. -/
def emptyCache (e : Engine) : Engine :=
  { e with cache := e.cache.map fun _ => .empty }

/-- From now on trees are kept. Those that are kept already stay. -/
def enableCache (e : Engine) : Engine :=
  { e with cache := some (e.cache.getD .empty) }

/-- Changes the rules for names. -/
def setOptions (e : Engine) (options : ParseOptions) : Engine :=
  { e.emptyCache with dialect := ⟨e.dialect.grammar, options⟩ }

/-- Changes the grammar. Expressions that are compiled already keep theirs. -/
def updateGrammar (e : Engine) (change : Grammar → Grammar) : Engine :=
  { e.emptyCache with dialect := ⟨change e.dialect.grammar, e.dialect.options⟩ }

/-- The tree that is kept for a source. -/
def cached? (e : Engine) (source : String) : Option Tree :=
  e.cache.bind fun trees => trees.find? source

/-- The expression for a tree of a source. -/
def expression (e : Engine) (source : String) (tree : Tree) : Expression :=
  ⟨source, tree, e.dialect.grammar⟩

/-- Compiles a source. A tree that is not in the cache is built and, if there is a cache, kept. -/
def compile (e : Engine) (source : String) : Engine × Except Error Expression :=
  match e.cached? source with
  | some tree => (e, .ok (e.expression source tree))
  | none =>
    match e.dialect.read source with
    | .error error => (e, .error error)
    | .ok expr =>
      let tree : Tree := ⟨e.nextId, expr⟩
      let cache := e.cache.map fun trees => trees.insert source tree
      (⟨e.dialect, cache, e.nextId + 1⟩, .ok (e.expression source tree))

/-- Compiles a source and evaluates it. -/
def evaluate (e : Engine) (source : String) (context : Value) :
    Engine × Except Error (Run Value) :=
  match e.compile source with
  | (e, .ok expression) => (e, .ok (expression.evaluate context))
  | (e, .error error) => (e, .error error)

end Engine

end JsonExpr
