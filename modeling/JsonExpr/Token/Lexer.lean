import JsonExpr.Grammar
import JsonExpr.Text.Numeral
import JsonExpr.Text.Quoted
import JsonExpr.Text.Word

/-!
Splitting a text into tokens. At each place the first character decides: a quote begins a string,
a digit a number, and so does a sign before a digit where an operand is expected; a character that
may start a word begins a keyword, an operator that looks like a word, or an identifier; anything
else has to be a symbol of the grammar, the longest that fits. White space behind a token belongs
to its raw text, so the raw texts of all tokens add up to the source.

A grammar may have a symbol of no characters at all. Such a token can be followed by a signed
number, but where it would come twice in a row it would come for ever, and `tokenize` reports
that place.
-/

namespace JsonExpr

/-- What can go wrong in splitting a text. Positions count the bytes of the UTF-8 encoding. -/
inductive LexError
  /-- No token starts with this character. -/
  | unexpectedCharacter (char : Char) (position : Nat)
  /-- The string that starts here has no end. -/
  | unterminatedString (position : Nat)
  /-- Two signs without white space between them. -/
  | ambiguousSign (text : String) (position : Nat)
  /-- A number without digits. -/
  | invalidNumber (text : String) (position : Nat)
  /-- The symbol without characters would be read here for ever. -/
  | stalled (position : Nat)
deriving DecidableEq, Repr

/-- The message for a cause. -/
def LexError.message : LexError → String
  | .unexpectedCharacter char position =>
    "Unexpected character '" ++ char.toString ++ "' at position " ++ position.repr
  | .unterminatedString position =>
    "Unterminated string starting at position " ++ position.repr
  | .ambiguousSign text position =>
    "Ambiguous sign sequence '" ++ text ++ "' at position " ++ position.repr ++
      "; separate the operators with whitespace"
  | .invalidNumber text position =>
    "Invalid number '" ++ text ++ "' at position " ++ position.repr
  | .stalled position =>
    "Empty symbol repeated at position " ++ position.repr

/-- The length of a text in UTF-8. -/
def utf8Length (cs : List Char) : Nat :=
  cs.foldr (fun c length => c.utf8Size + length) 0

/-- A token without the white space behind it, and the text that follows. -/
structure Lexeme where
  kind : TokenKind
  value : Value
  text : List Char
  rest : List Char

namespace Lexeme

/-- Reads a string after its opening quote. -/
def readString (position : Nat) (quote : Char) (cs : List Char) : Except LexError Lexeme :=
  match Text.splitQuoted? quote cs with
  | some (body, rest) =>
    .ok ⟨.literal, .string (String.ofList (Text.unescape quote body)),
      quote :: body ++ [quote], rest⟩
  | none => .error (.unterminatedString position)

/-- Reads a number after its sign, which is part of the token. -/
def readNumber (position : Nat) (sign : List Char) (negative : Bool) (cs : List Char) :
    Except LexError Lexeme :=
  match Text.Numeral.split? cs with
  | some (numeral, rest) =>
    .ok ⟨.literal, numeral.value negative, sign ++ numeral.chars, rest⟩
  | none => .error (.invalidNumber (String.ofList (cs.take 1)) (position + utf8Length sign))

/-- The kind and value of a word. Keywords are literals everywhere; after a dot any other word is
an identifier. -/
def wordMeaning (g : Grammar) (last : Option TokenKind) (word : String) : TokenKind × Value :=
  if word = "true" then (.literal, .bool true)
  else if word = "false" then (.literal, .bool false)
  else if word = "null" then (.literal, .null)
  else if word = "undefined" then (.literal, .undefined)
  else if last = some .dot then (.identifier, .string word)
  else
    match g.element? word with
    | some (.binary _) => (.binaryOp, .string word)
    | some (.unary _) => (.unaryOp, .string word)
    | _ => (.identifier, .string word)

/-- Reads a symbol. A sign may not stand directly before another sign. -/
def readSymbol (g : Grammar) (position : Nat) (c : Char) (cs : List Char) :
    Except LexError Lexeme :=
  match (g.matchSymbol? (c :: cs)).bind fun symbol =>
      (g.element? symbol).map fun element => (symbol, element) with
  | none => .error (.unexpectedCharacter c position)
  | some (symbol, element) =>
    let rest := (c :: cs).drop symbol.toList.length
    let isSign (d : Char) : Bool := d == '+' || d == '-'
    if (symbol = "+" ∨ symbol = "-") ∧ rest.head?.any isSign then
      .error (.ambiguousSign (symbol ++ String.ofList (rest.take 1)) position)
    else .ok ⟨element.kind, .string symbol, symbol.toList, rest⟩

/-- An operand may come next: nothing has been read, or a token that expects one. -/
def operandExpected (last : Option TokenKind) : Bool :=
  match last with
  | none => true
  | some kind => kind.expectsOperand

/-- Reads the token at the front of a text that starts with `c`. -/
def read (g : Grammar) (last : Option TokenKind) (position : Nat) (c : Char) (cs : List Char) :
    Except LexError Lexeme :=
  if c == '"' || c == '\'' then readString position c cs
  else if c.isDigit then readNumber position [] false (c :: cs)
  else if (c == '+' || c == '-') && operandExpected last && cs.head?.any Char.isDigit then
    readNumber position [c] (c == '-') cs
  else
    match Text.splitWord? (c :: cs) with
    | some (word, rest) =>
      let meaning := wordMeaning g last (String.ofList word)
      .ok ⟨meaning.1, meaning.2, word, rest⟩
    | none => readSymbol g position c cs

end Lexeme

/-- A place in a text: what is still to be read, its position, and the kind of the token before
it. -/
structure Cursor where
  rest : List Char
  position : Nat
  last : Option TokenKind

namespace Cursor

/-- The start of a text, behind the white space there. -/
def start (source : List Char) : Cursor :=
  ⟨source.dropWhile Text.isBlank, utf8Length (source.takeWhile Text.isBlank), none⟩

/-- Reads the next token, unless the text is at its end. -/
def next (g : Grammar) (cursor : Cursor) : Except LexError (Option (Token × Cursor)) :=
  match cursor.rest with
  | [] => .ok none
  | c :: cs =>
    match Lexeme.read g cursor.last cursor.position c cs with
    | .error error => .error error
    | .ok lexeme =>
      let raw := lexeme.text ++ lexeme.rest.takeWhile Text.isBlank
      .ok (some (⟨lexeme.kind, String.ofList raw, lexeme.value⟩,
        ⟨lexeme.rest.dropWhile Text.isBlank, cursor.position + utf8Length raw,
          some lexeme.kind⟩))

end Cursor

/-! ## Nothing is lost -/

namespace Lexeme

theorem readString_append {position : Nat} {quote : Char} {cs : List Char} {lexeme : Lexeme}
    (h : readString position quote cs = .ok lexeme) :
    lexeme.text ++ lexeme.rest = quote :: cs := by
  unfold readString at h
  split at h
  · rename_i body rest found
    cases h
    simpa using Text.splitQuoted?_append found
  · cases h

theorem readNumber_append {position : Nat} {sign : List Char} {negative : Bool}
    {cs : List Char} {lexeme : Lexeme}
    (h : readNumber position sign negative cs = .ok lexeme) :
    lexeme.text ++ lexeme.rest = sign ++ cs := by
  unfold readNumber at h
  split at h
  · rename_i numeral rest found
    cases h
    simpa using Text.Numeral.split?_append found
  · cases h

theorem matchSymbol?_isPrefix {g : Grammar} {cs : List Char} {symbol : String}
    (h : g.matchSymbol? cs = some symbol) : symbol.toList <+: cs := by
  simpa using List.find?_some h

theorem readSymbol_append {g : Grammar} {position : Nat} {c : Char} {cs : List Char}
    {lexeme : Lexeme} (h : readSymbol g position c cs = .ok lexeme) :
    lexeme.text ++ lexeme.rest = c :: cs := by
  unfold readSymbol at h
  split at h
  · cases h
  · rename_i symbol element found
    simp only at h
    split at h
    · cases h
    · cases h
      obtain ⟨matched, isMatch, pair⟩ := Option.bind_eq_some_iff.1 found
      obtain ⟨_, _, eq⟩ := Option.map_eq_some_iff.1 pair
      cases eq
      obtain ⟨after, split⟩ := matchSymbol?_isPrefix isMatch
      simp [← split]

/-- A token and what follows it are the text. -/
theorem read_append {g : Grammar} {last : Option TokenKind} {position : Nat} {c : Char}
    {cs : List Char} {lexeme : Lexeme} (h : read g last position c cs = .ok lexeme) :
    lexeme.text ++ lexeme.rest = c :: cs := by
  unfold read at h
  split at h
  · exact readString_append h
  · split at h
    · simpa using readNumber_append h
    · split at h
      · simpa using readNumber_append h
      · split at h
        · rename_i word rest found
          cases h
          exact Text.splitWord?_append found
        · exact readSymbol_append h

end Lexeme

/-- The raw text of a token and what follows it are the text at the cursor. -/
theorem Cursor.next_append {g : Grammar} {cursor after : Cursor} {token : Token}
    (h : cursor.next g = .ok (some (token, after))) :
    token.raw.toList ++ after.rest = cursor.rest := by
  unfold Cursor.next at h
  split at h
  · cases h
  · rename_i c cs at_front
    split at h
    · cases h
    · rename_i lexeme found
      cases h
      rw [at_front, ← Lexeme.read_append found]
      simp [List.takeWhile_append_dropWhile]

theorem Cursor.length_next_le {g : Grammar} {cursor after : Cursor} {token : Token}
    (h : cursor.next g = .ok (some (token, after))) :
    after.rest.length ≤ cursor.rest.length := by
  rw [← Cursor.next_append h]
  simp

/-! ## Whole texts -/

/-- The tokens from a cursor on. The flag says that the token before had no characters. -/
def Cursor.tokens (g : Grammar) (cursor : Cursor) (idle : Bool) : Except LexError (List Token) :=
  match _h : cursor.next g with
  | .error error => .error error
  | .ok none => .ok []
  | .ok (some (token, after)) =>
    if _shorter : after.rest.length < cursor.rest.length then
      (tokens g after false).map (token :: ·)
    else if idle then .error (.stalled cursor.position)
    else (tokens g after true).map (token :: ·)
termination_by 2 * cursor.rest.length + (if idle then 0 else 1)
decreasing_by
  · simp only [if_false]
    omega
  · have shrinks := Cursor.length_next_le ‹_›
    simp only [if_pos, if_neg ‹¬idle = true›]
    omega

/-- Splits a source text into its tokens. -/
def tokenize (g : Grammar) (source : String) : Except LexError (List Token) :=
  (Cursor.start source.toList).tokens g false

end JsonExpr
