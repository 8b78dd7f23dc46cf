import JsonExpr.Parser.Basic

/-!
The grammar of expressions, on rows of tokens and without trees.

```
Sentence  = Chain | Chain '?' [Sentence] ':' Sentence
Chain     = Operand (BinaryOp Operand)*
Operand   = UnaryOp* Term
Term      = Primary Postfix*
Primary   = Literal | Identifier | '.' Identifier | '(' Sentence ')' | '[' [List] ']'
          | '{' [Entries [',']] '}'
Postfix   = '.' Identifier | '[' Sentence ']' | '|' Transform [Arguments] | Arguments
Arguments = '(' [List] ')'
List      = Sentence (',' Sentence)*
Entries   = Key ':' Sentence (',' Key ':' Sentence)*
Key       = Identifier | Literal that holds a string
Transform = Identifier ('.' Identifier)*
```

Operators have to be registered. A transform has a dotted name only where the rules for names say
so. Arguments may directly follow a term only behind an identifier, and only while the tree of the
term is a chain of names: of one name, unless the rules allow the dotted names of functions.
-/

namespace JsonExpr

/-- The parts of the grammar. A part whose tree is a chain of names, starting with a name of the
context, has the number of these names; all others have no number. -/
inductive Phrase
  | sentence (names : Option Nat)
  | chain (names : Option Nat)
  | operand (names : Option Nat)
  | term (names : Option Nat)
  | transform
  | arguments
  | list
  | entries

/-- The token is a key of an entry. -/
def Token.IsKey (t : Token) : Prop :=
  t.kind = .identifier ∨ t.kind = .literal ∧ ∃ key, t.value = .string key

/-- The row of tokens is such a part. -/
inductive Derives (d : Dialect) : Phrase → List Token → Prop
  | chain {names : Option Nat} {ts : List Token} :
    Derives d (.chain names) ts → Derives d (.sentence names) ts
  | cond {m k l : Option Nat} {test yes no : List Token} {question colon : Token} :
    Derives d (.chain m) test → question.kind = .question → Derives d (.sentence k) yes →
    colon.kind = .colon → Derives d (.sentence l) no →
    Derives d (.sentence none) (test ++ [question] ++ yes ++ [colon] ++ no)
  | elvis {m l : Option Nat} {test no : List Token} {question colon : Token} :
    Derives d (.chain m) test → question.kind = .question → colon.kind = .colon →
    Derives d (.sentence l) no →
    Derives d (.sentence none) (test ++ [question] ++ [colon] ++ no)
  | operand {names : Option Nat} {ts : List Token} :
    Derives d (.operand names) ts → Derives d (.chain names) ts
  | binary {m k : Option Nat} {left right : List Token} {t : Token} {op : BinaryOp} :
    Derives d (.chain m) left → t.kind = .binaryOp → d.grammar.binary? t.text = some op →
    Derives d (.operand k) right → Derives d (.chain none) (left ++ [t] ++ right)
  | term {names : Option Nat} {ts : List Token} :
    Derives d (.term names) ts → Derives d (.operand names) ts
  | unary {k : Option Nat} {t : Token} {right : List Token} {op : UnaryOp} :
    t.kind = .unaryOp → d.grammar.unary? t.text = some op → Derives d (.operand k) right →
    Derives d (.operand none) ([t] ++ right)
  | literal {t : Token} : t.kind = .literal → Derives d (.term none) [t]
  | name {t : Token} : t.kind = .identifier → Derives d (.term (some 1)) [t]
  | relative {dot t : Token} :
    dot.kind = .dot → t.kind = .identifier → Derives d (.term none) ([dot] ++ [t])
  | group {names : Option Nat} {opener closer : Token} {ts : List Token} :
    opener.kind = .openParen → Derives d (.sentence names) ts → closer.kind = .closeParen →
    Derives d (.term names) ([opener] ++ ts ++ [closer])
  | emptyArray {opener closer : Token} :
    opener.kind = .openBracket → closer.kind = .closeBracket →
    Derives d (.term none) ([opener] ++ [closer])
  | array {opener closer : Token} {ts : List Token} :
    opener.kind = .openBracket → Derives d .list ts → closer.kind = .closeBracket →
    Derives d (.term none) ([opener] ++ ts ++ [closer])
  | emptyObject {opener closer : Token} :
    opener.kind = .openCurl → closer.kind = .closeCurl →
    Derives d (.term none) ([opener] ++ [closer])
  | object {opener closer : Token} {ts : List Token} :
    opener.kind = .openCurl → Derives d .entries ts → closer.kind = .closeCurl →
    Derives d (.term none) ([opener] ++ ts ++ [closer])
  | objectComma {opener comma closer : Token} {ts : List Token} :
    opener.kind = .openCurl → Derives d .entries ts → comma.kind = .comma →
    closer.kind = .closeCurl → Derives d (.term none) ([opener] ++ ts ++ [comma] ++ [closer])
  | member {names : Option Nat} {ts : List Token} {dot t : Token} :
    Derives d (.term names) ts → dot.kind = .dot → t.kind = .identifier →
    Derives d (.term (names.map (· + 1))) (ts ++ [dot] ++ [t])
  | bracket {m k : Option Nat} {ts us : List Token} {opener closer : Token} :
    Derives d (.term m) ts → opener.kind = .openBracket → Derives d (.sentence k) us →
    closer.kind = .closeBracket → Derives d (.term none) (ts ++ [opener] ++ us ++ [closer])
  | pipe {m : Option Nat} {ts us : List Token} {pipe : Token} :
    Derives d (.term m) ts → pipe.kind = .pipe → Derives d .transform us →
    Derives d (.term none) (ts ++ [pipe] ++ us)
  | pipeCall {m : Option Nat} {ts us vs : List Token} {pipe : Token} :
    Derives d (.term m) ts → pipe.kind = .pipe → Derives d .transform us →
    Derives d .arguments vs → Derives d (.term none) (ts ++ [pipe] ++ us ++ vs)
  | call {n : Nat} {ts us : List Token} {t : Token} :
    Derives d (.term (some n)) (ts ++ [t]) → t.kind = .identifier →
    d.options.namespacedFunctions = true ∨ n = 1 → Derives d .arguments us →
    Derives d (.term none) (ts ++ [t] ++ us)
  | transformName {t : Token} : t.kind = .identifier → Derives d .transform [t]
  | transformSegment {ts : List Token} {dot t : Token} :
    d.options.namespacedTransforms = true → Derives d .transform ts → dot.kind = .dot →
    t.kind = .identifier → Derives d .transform (ts ++ [dot] ++ [t])
  | noArguments {opener closer : Token} :
    opener.kind = .openParen → closer.kind = .closeParen →
    Derives d .arguments ([opener] ++ [closer])
  | arguments {opener closer : Token} {ts : List Token} :
    opener.kind = .openParen → Derives d .list ts → closer.kind = .closeParen →
    Derives d .arguments ([opener] ++ ts ++ [closer])
  | single {k : Option Nat} {ts : List Token} :
    Derives d (.sentence k) ts → Derives d .list ts
  | listComma {k : Option Nat} {ts us : List Token} {comma : Token} :
    Derives d .list ts → comma.kind = .comma → Derives d (.sentence k) us →
    Derives d .list (ts ++ [comma] ++ us)
  | entry {k : Option Nat} {key colon : Token} {ts : List Token} :
    key.IsKey → colon.kind = .colon → Derives d (.sentence k) ts →
    Derives d .entries ([key] ++ [colon] ++ ts)
  | entriesComma {k : Option Nat} {ts us : List Token} {comma key colon : Token} :
    Derives d .entries ts → comma.kind = .comma → key.IsKey → colon.kind = .colon →
    Derives d (.sentence k) us →
    Derives d .entries (ts ++ [comma] ++ [key] ++ [colon] ++ us)

/-! ## Chains of names -/

/-- The number of names of a tree that is a chain of names. -/
def Expr.names? (tree : Expr) : Option Nat :=
  (Level.chain? tree).map List.length

namespace Expr

@[simp] theorem names?_name (name : String) : names? (.ident name false) = some 1 := rfl

@[simp] theorem names?_relative (name : String) : names? (.ident name true) = none := rfl

@[simp] theorem names?_member (subject : Expr) (name : String) :
    names? (.member subject name false) = (names? subject).map (· + 1) := by
  simp only [names?, Level.chain?]
  cases Level.chain? subject with
  | none => rfl
  | some names => simp

@[simp] theorem names?_literal (value : Value) : names? (.literal value) = none := rfl

@[simp] theorem names?_array (items : List Expr) : names? (.array items) = none := rfl

@[simp] theorem names?_object (entries : List (String × Expr)) :
    names? (.object entries) = none := rfl

@[simp] theorem names?_filter (subject predicate : Expr) (relative : Bool) :
    names? (.filter subject predicate relative) = none := rfl

@[simp] theorem names?_call (pool : Pool) (name : String) (args : List Expr) :
    names? (.call pool name args) = none := rfl

@[simp] theorem names?_choice (test : Expr) (consequent : Option Expr) (alternate : Expr) :
    names? (Parser.choice test consequent alternate) = none := by
  cases consequent <;> rfl

@[simp] theorem names?_close (op : Open) (right : Expr) : names? (op.close right) = none := by
  cases op <;> rfl

/-- An operator at the edge leaves no chain of names. -/
theorem names?_closeAll (tree : Expr) (spine : Spine) :
    names? (spine.closeAll tree) = if spine = [] then names? tree else none := by
  induction spine generalizing tree with
  | nil => rfl
  | cons op rest ih =>
    have closed : Spine.closeAll tree (op :: rest) = Spine.closeAll (op.close tree) rest := rfl
    rw [closed, ih, names?_close]
    simp

theorem chain?_ne_nil (tree : Expr) : Level.chain? tree ≠ some [] := by
  intro h
  unfold Level.chain? at h
  split at h
  · cases h
  · obtain ⟨names, _, nil⟩ := Option.map_eq_some_iff.1 h
    simp at nil
  · cases h

/-- A chain of one name can be called, and with dotted names for functions any chain. -/
theorem exists_calleeName?_iff {options : ParseOptions} {tree : Expr} :
    (∃ name, Level.calleeName? options tree = some name) ↔
      ∃ n, tree.names? = some n ∧ (options.namespacedFunctions = true ∨ n = 1) := by
  unfold Level.calleeName? names?
  cases chain : Level.chain? tree with
  | none => simp
  | some names =>
    match names with
    | [] => exact (chain?_ne_nil tree chain).elim
    | [name] => simp
    | first :: second :: rest => simp

end Expr

end JsonExpr
