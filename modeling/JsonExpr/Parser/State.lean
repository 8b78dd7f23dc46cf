import JsonExpr.Token.Basic

/-!
The states of the parser, as a table: which kinds of tokens each state accepts and where they
lead, where an expression may end, and which tokens close the expressions nested in it.

The parser itself works on richer data, of which a state is the visible part.
-/

namespace JsonExpr

/-- What the parser expects, or what the innermost unfinished construct is. -/
inductive State
  /-- An operand. -/
  | operand
  /-- An operator, or anything else that may follow an operand. -/
  | operator
  /-- The name of a transform, after a pipe. -/
  | transform
  /-- After the name of a transform. -/
  | piped
  /-- The next part of a dotted name of a transform. -/
  | segment
  /-- After the arguments of a call. -/
  | called
  /-- After a name or a bracket, which may be called. -/
  | named
  /-- The name of a property, after a dot. -/
  | property
  /-- The key of an entry. -/
  | key
  /-- The colon after a key. -/
  | colon
  /-- Inside the brackets after an operand. -/
  | bracket
  /-- Inside parentheses. -/
  | group
  /-- Inside an argument. -/
  | argument
  /-- Inside the value of an entry. -/
  | entry
  /-- Inside an item of an array. -/
  | item
  /-- Inside the first branch of a choice. -/
  | consequent
  /-- Inside the second branch of a choice. -/
  | alternate
  /-- Nothing more. -/
  | complete
deriving DecidableEq, Repr, Inhabited

namespace State

/-- The states in their usual order. -/
def all : List State :=
  [.operand, .operator, .transform, .piped, .segment, .called, .named, .property, .key, .colon,
    .bracket, .group, .argument, .entry, .item, .consequent, .alternate, .complete]

/-- The state after an operand, which is common to all operands. -/
def afterOperand? : TokenKind → Option State
  | .binaryOp => some .operand
  | .pipe => some .transform
  | .dot => some .property
  | .openBracket => some .bracket
  | .question => some .consequent
  | _ => none

/-- The state that a token leads to, if it is accepted here. -/
def next? : State → TokenKind → Option State
  | .operand, .literal => some .operator
  | .operand, .identifier => some .named
  | .operand, .unaryOp => some .operand
  | .operand, .openParen => some .group
  | .operand, .openCurl => some .key
  | .operand, .openBracket => some .item
  | .operand, .dot => some .property
  | .operator, kind => afterOperand? kind
  | .named, .openParen => some .argument
  | .named, kind => afterOperand? kind
  | .piped, .openParen => some .argument
  | .piped, kind => afterOperand? kind
  | .called, kind => afterOperand? kind
  | .transform, .identifier => some .piped
  | .segment, .identifier => some .piped
  | .property, .identifier => some .named
  | .key, .identifier => some .colon
  | .key, .literal => some .colon
  | .key, .closeCurl => some .operator
  | .colon, .colon => some .entry
  | _, _ => none

/-- An expression may end here. -/
def isCompletable : State → Bool
  | .operator | .piped | .called | .named | .alternate | .complete => true
  | _ => false

/-- Tokens are read by a nested expression. -/
def delegates : State → Bool
  | .bracket | .group | .argument | .entry | .item | .consequent | .alternate => true
  | _ => false

/-- The tokens that close a nested expression, each with the state that follows. The second branch
of a choice has none of its own: it ends where the choice does. -/
def ends? : State → Option (List (TokenKind × State))
  | .bracket => some [(.closeBracket, .named)]
  | .group => some [(.closeParen, .operator)]
  | .argument => some [(.comma, .argument), (.closeParen, .called)]
  | .entry => some [(.comma, .key), (.closeCurl, .operator)]
  | .item => some [(.comma, .item), (.closeBracket, .operator)]
  | .consequent => some [(.colon, .alternate)]
  | _ => none

end State

end JsonExpr
