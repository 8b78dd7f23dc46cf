import JsonExpr.Text.Classes

/-!
Words: names and the spellings of word operators. A word starts with an alphabetic character,
an underscore or a dollar sign; marks and numbers may follow. The characters of age 17 are in no
word. `splitWord?` cuts the longest word off the front of a text.
-/

namespace JsonExpr.Text

/-- The characters that may start a word. -/
def isWordStart (c : Char) : Bool :=
  (isAlphabetic c && !isRecent c) || c == '_' || c == '$'

/-- The characters that may follow in a word. -/
def isWordPart (c : Char) : Bool :=
  ((isAlphabetic c || isMark c || isNumeric c) && !isRecent c) || c == '_' || c == '$'

/-- A character that starts a word may also follow in one. -/
theorem isWordPart_of_isWordStart {c : Char} (h : isWordStart c = true) : isWordPart c = true := by
  grind [isWordStart, isWordPart]

/-- The longest word at the front of a text, and what follows it. -/
def splitWord? : List Char → Option (List Char × List Char)
  | [] => none
  | c :: cs =>
    if isWordStart c then some (c :: cs.takeWhile isWordPart, cs.dropWhile isWordPart)
    else none

/-- Nothing is lost: a word and what follows it are the text. -/
theorem splitWord?_append {cs word rest : List Char} (h : splitWord? cs = some (word, rest)) :
    word ++ rest = cs := by
  cases cs with
  | nil => simp [splitWord?] at h
  | cons c cs =>
    simp only [splitWord?] at h
    split at h
    · cases h; simp
    · cases h

end JsonExpr.Text
