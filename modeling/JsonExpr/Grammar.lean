import JsonExpr.Fields
import JsonExpr.Run.Basic
import JsonExpr.Text.Classes
import JsonExpr.Token.Basic

/-!
Grammars. A grammar says how symbols are read and what operators, functions and transforms do;
the lexer, the parser and the evaluator share it. Elements are registered under their spelling.
Spellings that look like words are found as words; all others are the symbols, tried longest
first.
-/

namespace JsonExpr

/-- How a binary operator gets its operands. -/
inductive BinaryEval
  /-- Both operands are evaluated first. -/
  | direct (apply : Value → Value → Except EvalError Value)
  /-- The operator decides which operands run, and in which order. -/
  | deferred (apply : Run Value → Run Value → Run Value)

/-- A binary operator. Operators of greater precedence bind tighter, and those of equal precedence
group to the left. -/
structure BinaryOp where
  precedence : UInt32
  eval : BinaryEval

/-- A unary operator. -/
structure UnaryOp where
  apply : Value → Except EvalError Value

/-- What a spelling stands for. -/
inductive Element
  | punctuation (kind : TokenKind)
  | binary (op : BinaryOp)
  | unary (op : UnaryOp)

/-- Functions and transforms take their arguments as a list; a transform gets its subject as the
first. -/
abbrev Callable := List Value → Run Value

namespace Element

/-- The kind of the tokens with this spelling. -/
def kind : Element → TokenKind
  | .punctuation kind => kind
  | .binary _ => .binaryOp
  | .unary _ => .unaryOp

/-- Operators can be removed, punctuation cannot. -/
def isOperator : Element → Bool
  | .punctuation _ => false
  | .binary _ | .unary _ => true

end Element

/-- Unary operators bind at least as tight as any binary operator. -/
def unaryPrecedence : UInt32 := 4294967295

/-- The elements of the language and the callables. -/
structure Grammar where
  elements : Registry Element
  functions : Registry Callable
  transforms : Registry Callable

namespace Grammar

/-- A grammar without any element. -/
def empty : Grammar :=
  ⟨.empty, .empty, .empty⟩

/-! ## Registration -/

def addElement (g : Grammar) (symbol : String) (element : Element) : Grammar :=
  { g with elements := g.elements.insert symbol element }

/-- Adds or replaces a binary operator that works on the values of its operands. -/
def addBinary (g : Grammar) (symbol : String) (precedence : UInt32)
    (apply : Value → Value → Except EvalError Value) : Grammar :=
  g.addElement symbol (.binary ⟨precedence, .direct apply⟩)

/-- Adds or replaces a binary operator that runs its operands itself. -/
def addDeferred (g : Grammar) (symbol : String) (precedence : UInt32)
    (apply : Run Value → Run Value → Run Value) : Grammar :=
  g.addElement symbol (.binary ⟨precedence, .deferred apply⟩)

/-- Adds or replaces a unary operator. -/
def addUnary (g : Grammar) (symbol : String) (apply : Value → Except EvalError Value) : Grammar :=
  g.addElement symbol (.unary ⟨apply⟩)

/-- Removes an operator. Punctuation stays, and so does a grammar without the symbol. -/
def removeOperator (g : Grammar) (symbol : String) : Grammar :=
  match g.elements.find? symbol with
  | some element =>
    if element.isOperator then { g with elements := g.elements.erase symbol } else g
  | none => g

def addFunction (g : Grammar) (name : String) (callable : Callable) : Grammar :=
  { g with functions := g.functions.insert name callable }

def addTransform (g : Grammar) (name : String) (callable : Callable) : Grammar :=
  { g with transforms := g.transforms.insert name callable }

/-- Adds functions one after the other. -/
def addFunctions (g : Grammar) (callables : List (String × Callable)) : Grammar :=
  callables.foldl (fun g entry => g.addFunction entry.1 entry.2) g

/-- Adds transforms one after the other. -/
def addTransforms (g : Grammar) (callables : List (String × Callable)) : Grammar :=
  callables.foldl (fun g entry => g.addTransform entry.1 entry.2) g

/-! ## Look-up -/

def element? (g : Grammar) (symbol : String) : Option Element :=
  g.elements.find? symbol

def binary? (g : Grammar) (symbol : String) : Option BinaryOp :=
  match g.element? symbol with
  | some (.binary op) => some op
  | _ => none

def unary? (g : Grammar) (symbol : String) : Option UnaryOp :=
  match g.element? symbol with
  | some (.unary op) => some op
  | _ => none

def function? (g : Grammar) (name : String) : Option Callable :=
  g.functions.find? name

def transform? (g : Grammar) (name : String) : Option Callable :=
  g.transforms.find? name

/-! ## Symbols -/

/-- A spelling that begins with an alphabetic character, of whatever age, or an underscore looks
like a word. It is then no symbol, also where no word can begin with that character. -/
def looksLikeWord (symbol : String) : Bool :=
  match symbol.toList with
  | [] => false
  | c :: _ => Text.isAlphabetic c || c == '_'

/-- Longer symbols come first, by the length of their encoding; symbols of one length are in the
order of their code points. -/
def symbolLe (a b : String) : Bool :=
  if a.utf8ByteSize = b.utf8ByteSize then !(decide (b < a))
  else b.utf8ByteSize < a.utf8ByteSize

/-- The spellings that do not look like words, in the order in which they are tried. -/
def symbols (g : Grammar) : List String :=
  (g.elements.names.filter fun symbol => !looksLikeWord symbol).mergeSort symbolLe

/-- The first symbol that the text starts with, which is the longest one. -/
def matchSymbol? (g : Grammar) (cs : List Char) : Option String :=
  g.symbols.find? fun symbol => symbol.toList.isPrefixOf cs

end Grammar

end JsonExpr
