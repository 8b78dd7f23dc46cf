/-!
Quoted strings. Between two equal quote characters a backslash takes the character after it
along, so a quote behind a backslash does not close the string. The one character that a
backslash cannot take is the line feed; a bare line feed is an ordinary character.

`splitQuoted?` finds the closing quote, `unescape` reads the text between the quotes, and
`escape` writes a text so that it can stand between them.
-/

namespace JsonExpr.Text

/-- The text up to the closing quote, and what follows that quote. -/
def splitQuoted? (quote : Char) : List Char → Option (List Char × List Char)
  | [] => none
  | '\\' :: '\n' :: _ => none
  | '\\' :: c :: rest =>
    (splitQuoted? quote rest).map fun split => ('\\' :: c :: split.1, split.2)
  | c :: rest =>
    if c == quote then some ([], rest)
    else (splitQuoted? quote rest).map fun split => (c :: split.1, split.2)

/-- What a backslash and the character after it stand for. A pair without a meaning of its own
stands for itself. -/
def escapeMeaning (quote c : Char) : List Char :=
  if c == 'n' then ['\n']
  else if c == 't' then ['\t']
  else if c == 'r' then ['\r']
  else if c == quote || c == '\\' then [c]
  else ['\\', c]

/-- The text that a quoted body stands for. -/
def unescape (quote : Char) : List Char → List Char
  | [] => []
  | '\\' :: c :: rest => escapeMeaning quote c ++ unescape quote rest
  | c :: rest => c :: unescape quote rest

/-- A body that stands for the given text: a backslash goes before each backslash and each
quote. -/
def escape (quote : Char) (text : List Char) : List Char :=
  text.flatMap fun c => if c == '\\' || c == quote then ['\\', c] else [c]

/-- Nothing is lost: the body, the closing quote and what follows it are the text. -/
theorem splitQuoted?_append {quote : Char} {cs body rest : List Char}
    (h : splitQuoted? quote cs = some (body, rest)) : body ++ quote :: rest = cs := by
  fun_induction splitQuoted? quote cs generalizing body with
  | case1 => cases h
  | case2 => cases h
  | case3 c tail _ ih =>
    obtain ⟨split, inner, eq⟩ := Option.map_eq_some_iff.1 h
    cases eq
    simp [ih inner]
  | case4 c tail _ _ closes =>
    cases h
    simp_all
  | case5 c tail _ _ _ ih =>
    obtain ⟨split, inner, eq⟩ := Option.map_eq_some_iff.1 h
    cases eq
    simp [ih inner]

end JsonExpr.Text
