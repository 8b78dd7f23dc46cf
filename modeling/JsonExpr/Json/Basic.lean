import JsonExpr.Fields
import JsonExpr.Number.FloatText

/-!
JSON data: what contexts are read from and results are written to. Integers and other numbers are
kept apart, because a text tells them apart.

JSON texts are written without white space, or with a line for each item. Strings escape the quote,
the backslash and the control characters and leave all else as it is.
-/

namespace JsonExpr

/-- A JSON value. -/
inductive Json
  | null
  | bool (b : Bool)
  | int (n : Int)
  | float (x : Float)
  | string (s : String)
  | array (items : List Json)
  | object (fields : List (String × Json))
deriving Inhabited

namespace Json

/-! ## Texts -/

/-- A hexadecimal digit in lower case. -/
def hexDigit (n : Nat) : Char :=
  if n < 10 then Char.ofNat ('0'.toNat + n) else Char.ofNat ('a'.toNat + n - 10)

/-- A character as it stands in a string. -/
def escapeChar (c : Char) : List Char :=
  match c with
  | '"' => ['\\', '"']
  | '\\' => ['\\', '\\']
  | '\x08' => ['\\', 'b']
  | '\x0c' => ['\\', 'f']
  | '\n' => ['\\', 'n']
  | '\r' => ['\\', 'r']
  | '\t' => ['\\', 't']
  | c =>
    if c.toNat < 0x20 then
      ['\\', 'u', '0', '0', hexDigit (c.toNat / 16), hexDigit (c.toNat % 16)]
    else [c]

/-- A string in quotes. -/
def quote (s : String) : List Char :=
  '"' :: s.toList.flatMap escapeChar ++ ['"']

/-- The texts with a separator between them. -/
def join (separator : List Char) : List (List Char) → List Char
  | [] => []
  | [text] => text
  | text :: rest => text ++ separator ++ join separator rest

/-- The text of a number, a double that is not finite having none. -/
def floatChars (x : Float) : List Char :=
  match dataFloat? x with
  | some text => text.toList
  | none => ['n', 'u', 'l', 'l']

mutual

/-- The characters of the compact text. -/
def compact : Json → List Char
  | .null => ['n', 'u', 'l', 'l']
  | .bool true => ['t', 'r', 'u', 'e']
  | .bool false => ['f', 'a', 'l', 's', 'e']
  | .int n => Text.integer n
  | .float x => floatChars x
  | .string s => quote s
  | .array items => '[' :: join [','] (compactItems items) ++ [']']
  | .object fields => '\x7b' :: join [','] (compactFields fields) ++ ['\x7d']

/-- The texts of items. -/
def compactItems : List Json → List (List Char)
  | [] => []
  | item :: rest => compact item :: compactItems rest

/-- The texts of members, each a key, a colon and a value. -/
def compactFields : List (String × Json) → List (List Char)
  | [] => []
  | (key, value) :: rest => (quote key ++ ':' :: compact value) :: compactFields rest

end

/-- The text without white space. -/
def print (value : Json) : String :=
  String.ofList value.compact

/-- A line break and the indentation of the given level. -/
def lineBreak (level : Nat) : List Char :=
  '\n' :: List.replicate (2 * level) ' '

mutual

/-- The characters of the text with a line for each item and member. -/
def spread (level : Nat) : Json → List Char
  | .array [] => ['[', ']']
  | .object [] => ['\x7b', '\x7d']
  | .array items =>
    '[' :: lineBreak (level + 1) ++
      join (',' :: lineBreak (level + 1)) (spreadItems (level + 1) items) ++
      lineBreak level ++ [']']
  | .object fields =>
    '\x7b' :: lineBreak (level + 1) ++
      join (',' :: lineBreak (level + 1)) (spreadFields (level + 1) fields) ++
      lineBreak level ++ ['\x7d']
  | value => compact value

/-- The texts of items at a level. -/
def spreadItems (level : Nat) : List Json → List (List Char)
  | [] => []
  | item :: rest => spread level item :: spreadItems level rest

/-- The texts of members at a level. -/
def spreadFields (level : Nat) : List (String × Json) → List (List Char)
  | [] => []
  | (key, value) :: rest =>
    (quote key ++ ':' :: ' ' :: spread level value) :: spreadFields level rest

end

/-- The text with a line for each item and member. -/
def printPretty (value : Json) : String :=
  String.ofList (value.spread 0)

end Json

end JsonExpr
