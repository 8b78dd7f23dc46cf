import JsonExpr.Json.Basic

/-!
Reading JSON texts, strictly by the standard: no comments, no trailing commas, no leading zeros,
no raw control characters in strings, no surrogates without a partner. Arrays and objects may be
nested 127 levels deep, and a number beyond the doubles is refused. `Json.read?` either reads the
whole text or gives nothing.
-/

namespace JsonExpr.Json

/-- The white space of JSON. -/
def isSpace (c : Char) : Bool :=
  c == ' ' || c == '\t' || c == '\n' || c == '\r'

def skipSpace (cs : List Char) : List Char :=
  cs.dropWhile isSpace

/-! ## Numbers -/

/-- The digits at the front; there has to be one. -/
def digits? (cs : List Char) : Option (List Char × List Char) :=
  let digits := cs.takeWhile Char.isDigit
  if digits.isEmpty then none else some (digits, cs.dropWhile Char.isDigit)

/-- The digits after a point, if there is one. -/
def fraction? : List Char → Option (Option (List Char) × List Char)
  | '.' :: cs => (digits? cs).map fun split => (some split.1, split.2)
  | cs => some (none, cs)

/-- The exponent, if there is one. -/
def exponent? : List Char → Option (Option Int × List Char)
  | c :: cs =>
    if c == 'e' || c == 'E' then
      match cs with
      | '-' :: rest =>
        (digits? rest).map fun split => (some (-(Text.ofDigits split.1 : Int)), split.2)
      | '+' :: rest => (digits? rest).map fun split => (some (Text.ofDigits split.1 : Int), split.2)
      | rest => (digits? rest).map fun split => (some (Text.ofDigits split.1 : Int), split.2)
    else some (none, c :: cs)
  | [] => some (none, [])

/-- The double for a numeral, unless it is too large. -/
def double? (negative : Bool) (d : Decimal) : Option Json :=
  let x := d.toFloat
  if x.isFinite then some (.float (if negative then -x else x)) else none

/-- The number for a numeral. Without a point and an exponent it is an integer if it has at most
64 bits; the negative zero is not one. -/
def number? (negative : Bool) (whole : List Char) (fraction : Option (List Char))
    (exponent : Option Int) : Option Json :=
  let decimal := Decimal.ofPointed whole (fraction.getD []) (exponent.getD 0)
  if fraction.isSome || exponent.isSome then double? negative decimal
  else
    let magnitude := Text.ofDigits whole
    let n : Int := if negative then -(magnitude : Int) else magnitude
    if negative && magnitude = 0 then double? negative decimal
    else if (narrow? n).isSome then some (.int n)
    else double? negative decimal

/-- Reads a number after its sign. -/
def readNumber? (negative : Bool) (cs : List Char) : Option (Json × List Char) := do
  let (whole, cs) ← digits? cs
  if 1 < whole.length && whole.head? == some '0' then none
  else
    let (fraction, cs) ← fraction? cs
    let (exponent, cs) ← exponent? cs
    let number ← number? negative whole fraction exponent
    some (number, cs)

/-! ## Strings -/

def hexValue? (c : Char) : Option Nat :=
  if c.isDigit then some (c.toNat - '0'.toNat)
  else if 'a' ≤ c && c ≤ 'f' then some (c.toNat - 'a'.toNat + 10)
  else if 'A' ≤ c && c ≤ 'F' then some (c.toNat - 'A'.toNat + 10)
  else none

/-- The unit that four hexadecimal digits stand for. -/
def unit? (a b c d : Char) : Option Nat := do
  let a ← hexValue? a
  let b ← hexValue? b
  let c ← hexValue? c
  let d ← hexValue? d
  some (((a * 16 + b) * 16 + c) * 16 + d)

/-- The character for a unit that is not a surrogate. -/
def unitChar? (unit : Nat) : Option Char :=
  if 0xD800 ≤ unit && unit ≤ 0xDFFF then none else some (Char.ofNat unit)

/-- The character for a pair of surrogates. -/
def pairChar? (high low : Nat) : Option Char :=
  if 0xD800 ≤ high && high ≤ 0xDBFF && 0xDC00 ≤ low && low ≤ 0xDFFF then
    some (Char.ofNat (0x10000 + (high - 0xD800) * 1024 + (low - 0xDC00)))
  else none

/-- The character for a letter after a backslash. -/
def shortEscape? (c : Char) : Option Char :=
  match c with
  | '"' => some '"'
  | '\\' => some '\\'
  | '/' => some '/'
  | 'b' => some '\x08'
  | 'f' => some '\x0c'
  | 'n' => some '\n'
  | 'r' => some '\r'
  | 't' => some '\t'
  | _ => none

/-- Reads a string after its opening quote. -/
def readString? : List Char → Option (List Char × List Char)
  | [] => none
  | '"' :: rest => some ([], rest)
  | '\\' :: 'u' :: a :: b :: c :: d :: '\\' :: 'u' :: e :: f :: g :: h :: rest =>
    match unit? a b c d, unit? e f g h with
    | some first, some second =>
      match pairChar? first second with
      | some char => (readString? rest).map fun split => (char :: split.1, split.2)
      | none =>
        match unitChar? first with
        | some char =>
          (readString? ('\\' :: 'u' :: e :: f :: g :: h :: rest)).map fun split =>
            (char :: split.1, split.2)
        | none => none
    | _, _ => none
  | '\\' :: 'u' :: a :: b :: c :: d :: rest =>
    match (unit? a b c d).bind unitChar? with
    | some char => (readString? rest).map fun split => (char :: split.1, split.2)
    | none => none
  | '\\' :: c :: rest =>
    match shortEscape? c with
    | some char => (readString? rest).map fun split => (char :: split.1, split.2)
    | none => none
  | c :: rest =>
    if c.toNat < 0x20 || c == '\\' then none
    else (readString? rest).map fun split => (c :: split.1, split.2)

/-! ## Values -/

/-- Reads a word of the language of values. -/
def readWord? (word : List Char) (value : Json) (cs : List Char) : Option (Json × List Char) :=
  if word.isPrefixOf cs then some (value, cs.drop word.length) else none

mutual

/-- Reads a value; `depth` levels of arrays and objects may still be opened. The fuel is used up
by one with every value, item and member. -/
def readValue? : Nat → Nat → List Char → Option (Json × List Char)
  | 0, _, _ => none
  | fuel + 1, depth, cs =>
    match skipSpace cs with
    | '"' :: rest => (readString? rest).map fun split => (.string (String.ofList split.1), split.2)
    | '-' :: rest => readNumber? true rest
    | '[' :: rest =>
      match depth with
      | 0 => none
      | depth + 1 =>
        match skipSpace rest with
        | ']' :: rest => some (.array [], rest)
        | rest => (readItems? fuel depth rest).map fun split => (.array split.1, split.2)
    | '\x7b' :: rest =>
      match depth with
      | 0 => none
      | depth + 1 =>
        match skipSpace rest with
        | '\x7d' :: rest => some (.object [], rest)
        | rest =>
          (readMembers? fuel depth rest).map fun split =>
            (.object (Fields.ofList split.1), split.2)
    | 'n' :: rest => readWord? ['u', 'l', 'l'] .null rest
    | 't' :: rest => readWord? ['r', 'u', 'e'] (.bool true) rest
    | 'f' :: rest => readWord? ['a', 'l', 's', 'e'] (.bool false) rest
    | rest => readNumber? false rest

/-- Reads the items of an array up to its end; there is at least one. -/
def readItems? : Nat → Nat → List Char → Option (List Json × List Char)
  | 0, _, _ => none
  | fuel + 1, depth, cs =>
    match readValue? fuel depth cs with
    | none => none
    | some (item, rest) =>
      match skipSpace rest with
      | ',' :: rest => (readItems? fuel depth rest).map fun split => (item :: split.1, split.2)
      | ']' :: rest => some ([item], rest)
      | _ => none

/-- Reads the members of an object up to its end; there is at least one. -/
def readMembers? : Nat → Nat → List Char → Option (List (String × Json) × List Char)
  | 0, _, _ => none
  | fuel + 1, depth, cs =>
    match skipSpace cs with
    | '"' :: rest =>
      match readString? rest with
      | none => none
      | some (key, rest) =>
        match skipSpace rest with
        | ':' :: rest =>
          match readValue? fuel depth rest with
          | none => none
          | some (value, rest) =>
            match skipSpace rest with
            | ',' :: rest =>
              (readMembers? fuel depth rest).map fun split =>
                ((String.ofList key, value) :: split.1, split.2)
            | '\x7d' :: rest => some ([(String.ofList key, value)], rest)
            | _ => none
        | _ => none
    | _ => none

end

/-- How deep arrays and objects may be nested. -/
def maxDepth : Nat := 127

/-- The value that a whole text stands for. -/
def read? (text : String) : Option Json :=
  let cs := text.toList
  match readValue? (2 * cs.length + 2) maxDepth cs with
  | some (value, rest) => if (skipSpace rest).isEmpty then some value else none
  | none => none

end JsonExpr.Json
