import JsonExpr.Parser.Level

/-!
The parser. It takes one token at a time: the innermost level gets it first, and when that has no
use for it, the token may close the level and go to its owner. The second branch of a choice ends
together with the choice, so a token that closes it closes the choice as well.

`Parser.parse` builds the tree of a whole list of tokens.
-/

namespace JsonExpr

/-- What a parser is doing. -/
inductive Phase
  /-- It reads the innermost level, for whose result the owners wait, the nearest first. -/
  | reading (owners : List Owner) (level : Level)
  /-- It is complete; the flag says whether there was a tree. -/
  | complete (parsed : Bool)
deriving Inhabited

/-- A parser, with the text read so far. -/
structure Parser where
  text : String
  phase : Phase
deriving Inhabited

namespace Parser

/-- A parser before its first token. -/
def start : Parser :=
  ⟨"", .reading [] .fresh⟩

/-- The tree of a choice, whose first branch may be left out. -/
def choice (test : Expr) (consequent : Option Expr) (alternate : Expr) : Expr :=
  match consequent with
  | some consequent => .cond test consequent alternate
  | none => .elvis test alternate

/-- The phase after a step of the level that these owners wait for. -/
def afterStep (owners : List Owner) : Step → Phase
  | .stay level => .reading owners level
  | .enter owner => .reading (owner :: owners) .fresh

/-- A token of this kind closes the innermost level: the nearest owner that is not the second
branch of a choice has to say so. -/
def closable (owners : List Owner) (kind : TokenKind) : Bool :=
  match owners with
  | [] => false
  | owner :: rest =>
    match owner.slot with
    | .alternate _ _ => closable rest kind
    | slot => slot.closedBy kind

/-- Gives the result of the innermost level to its owners: choices are completed, and the first
other owner goes on. -/
def close (text : String) (t : Token) (owners : List Owner) (result : Option Expr) :
    Except ParseError Phase :=
  match owners with
  | [] => .error (Level.unexpected text t)
  | owner :: rest =>
    match owner.slot with
    | .alternate test consequent =>
      match result with
      | some alternate => close text t rest (some (choice test consequent alternate))
      | none => .error (.emptySubExpression t.lexeme text)
    | _ => (owner.close text t result).map (afterStep rest)

/-- Takes a token. -/
def add (d : Dialect) (p : Parser) (t : Token) : Except ParseError Parser :=
  match p.phase with
  | .complete _ => .error (.alreadyComplete t.lexeme)
  | .reading owners level =>
    let text := p.text ++ t.raw
    match level.accept? d text t with
    | some result => result.map fun step => ⟨text, afterStep owners step⟩
    | none =>
      match closable owners t.kind, level.result? with
      | true, some result => (close text t owners result).map fun phase => ⟨text, phase⟩
      | _, _ => .error (Level.unexpected text t)

/-- Takes tokens one after the other. -/
def addAll (d : Dialect) (p : Parser) (tokens : List Token) : Except ParseError Parser :=
  tokens.foldlM (fun p t => p.add d t) p

/-- The tree at the end of the text: every owner has to be a choice, which ends here too. -/
def finish? (owners : List Owner) (tree : Expr) : Option Expr :=
  match owners with
  | [] => some tree
  | owner :: rest =>
    match owner.slot with
    | .alternate test consequent => finish? rest (choice test consequent tree)
    | _ => none

/-- The phase after a failed attempt to complete. A choice at the outermost level drops what it
has read of its second branch; all else stays. -/
def afterFailure (owners : List Owner) (level : Level) : Phase :=
  match owners.getLast? with
  | some ⟨spine, .alternate test consequent⟩ =>
    .reading [⟨spine, .alternate test consequent⟩] .fresh
  | _ => .reading owners level

/-- Completes the parser: the tree, or nothing when there was no token. -/
def complete (p : Parser) : Except ParseError (Option Expr) × Parser :=
  match p.phase with
  | .complete false => (.ok none, p)
  | .complete true => (.error (.unexpectedEnd p.text), p)
  | .reading owners level =>
    match level.result?, owners with
    | some none, [] => (.ok none, ⟨p.text, .complete false⟩)
    | some (some tree), owners =>
      match finish? owners tree with
      | some tree => (.ok (some tree), ⟨p.text, .complete true⟩)
      | none => (.error (.unexpectedEnd p.text), ⟨p.text, afterFailure owners level⟩)
    | _, _ => (.error (.unexpectedEnd p.text), ⟨p.text, afterFailure owners level⟩)

/-- The tree of a list of tokens. -/
def parse (d : Dialect) (tokens : List Token) : Except ParseError Expr := do
  let p ← start.addAll d tokens
  match (← p.complete.1) with
  | some tree => .ok tree
  | none => .error .emptyExpression

end Parser

end JsonExpr
