import JsonExpr.Value.Basic

/-!
Tokens. The spellings of operators and punctuation come from a grammar, so a token carries its
kind, the text it was read from, and its value: the value of a literal, or a name or symbol as a
string. White space separates tokens and belongs to the one before it.
-/

namespace JsonExpr

/-! ## White space

The no-break space is one of these characters, the zero-width ones are not. -/

namespace Text

/-- The Unicode property White_Space. -/
def isBlank (c : Char) : Bool :=
  let n := c.toNat
  (9 ≤ n && n ≤ 13) || n == 0x20 || n == 0x85 || n == 0xA0 || n == 0x1680 ||
    (0x2000 ≤ n && n ≤ 0x200A) || n == 0x2028 || n == 0x2029 || n == 0x202F ||
    n == 0x205F || n == 0x3000

/-- A text without the white space at its two ends. -/
def trimChars (cs : List Char) : List Char :=
  ((cs.dropWhile isBlank).reverse.dropWhile isBlank).reverse

/-- A string without the white space at its two ends. -/
def trim (s : String) : String :=
  String.ofList (trimChars s.toList)

end Text

/-! ## Kinds -/

/-- The kinds of tokens. -/
inductive TokenKind
  | literal
  | identifier
  | binaryOp
  | unaryOp
  | dot
  | pipe
  | comma
  | colon
  | question
  | openParen
  | closeParen
  | openBracket
  | closeBracket
  | openCurl
  | closeCurl
deriving DecidableEq, Repr, Inhabited

namespace TokenKind

/-- The kinds in their usual order. -/
def all : List TokenKind :=
  [.literal, .identifier, .binaryOp, .unaryOp, .dot, .pipe, .comma, .colon, .question,
    .openParen, .closeParen, .openBracket, .closeBracket, .openCurl, .closeCurl]

/-- The name of a kind, as messages show it. -/
def name : TokenKind → String
  | .literal => "literal"
  | .identifier => "identifier"
  | .binaryOp => "binaryOp"
  | .unaryOp => "unaryOp"
  | .dot => "dot"
  | .pipe => "pipe"
  | .comma => "comma"
  | .colon => "colon"
  | .question => "question"
  | .openParen => "openParen"
  | .closeParen => "closeParen"
  | .openBracket => "openBracket"
  | .closeBracket => "closeBracket"
  | .openCurl => "openCurl"
  | .closeCurl => "closeCurl"

/-- The kinds after which an operand comes. They decide whether a sign before a digit belongs to
the number. -/
def expectsOperand : TokenKind → Bool
  | .binaryOp | .unaryOp | .comma | .colon | .question | .openParen | .openBracket
  | .openCurl => true
  | _ => false

end TokenKind

/-! ## Tokens -/

/-- A token with the text it was read from, white space behind it included. -/
structure Token where
  kind : TokenKind
  raw : String
  value : Value
deriving Inhabited

namespace Token

/-- The text without the white space around it. -/
def lexeme (t : Token) : String :=
  Text.trim t.raw

/-- The name or symbol of a token; for a literal its text. -/
def text (t : Token) : String :=
  match t.kind, t.value with
  | .literal, _ => t.lexeme
  | _, .string s => s
  | _, _ => t.lexeme

end Token

end JsonExpr
