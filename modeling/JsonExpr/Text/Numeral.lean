import JsonExpr.Number.Decimal
import JsonExpr.Value.Basic

/-!
Unsigned numerals: digits, and perhaps a point with further digits. A point without a digit behind
it does not belong to the numeral. Without a point a numeral is an integer as long as it has at
most 64 bits.
-/

namespace JsonExpr.Text

/-- A numeral; without a point there is no fraction. -/
structure Numeral where
  whole : List Char
  fraction : List Char
deriving DecidableEq, Repr

namespace Numeral

/-- The characters of a numeral. -/
def chars (n : Numeral) : List Char :=
  if n.fraction.isEmpty then n.whole else n.whole ++ '.' :: n.fraction

/-- The longest numeral at the front of a text, and what follows it. -/
def split? (cs : List Char) : Option (Numeral × List Char) :=
  let whole := cs.takeWhile Char.isDigit
  if whole.isEmpty then none
  else
    match cs.dropWhile Char.isDigit with
    | '.' :: rest =>
      let fraction := rest.takeWhile Char.isDigit
      if fraction.isEmpty then some (⟨whole, []⟩, '.' :: rest)
      else some (⟨whole, fraction⟩, rest.dropWhile Char.isDigit)
    | rest => some (⟨whole, []⟩, rest)

/-- The double for a numeral. -/
def toFloat (n : Numeral) (negative : Bool) : Float :=
  let magnitude := (Decimal.ofPointed n.whole n.fraction 0).toFloat
  if negative then -magnitude else magnitude

/-- The value of a numeral after its sign. -/
def value (n : Numeral) (negative : Bool) : Value :=
  if !n.fraction.isEmpty then .float (n.toFloat negative)
  else
    let magnitude := ofDigits n.whole
    match narrow? (if negative then -(magnitude : Int) else magnitude) with
    | some k => .int k
    | none => .float (n.toFloat negative)

/-- Nothing is lost: a numeral and what follows it are the text. -/
theorem split?_append {cs rest : List Char} {n : Numeral} (h : split? cs = some (n, rest)) :
    n.chars ++ rest = cs := by
  unfold split? at h
  simp only at h
  split at h
  · cases h
  · split at h
    · rename_i tail front
      split at h
      · cases h
        simp [chars, ← front]
      · rename_i present
        cases h
        rw [chars, if_neg present]
        have inner := List.takeWhile_append_dropWhile (p := Char.isDigit) (l := tail)
        have outer := List.takeWhile_append_dropWhile (p := Char.isDigit) (l := cs)
        rw [front] at outer
        simp [inner, outer]
    · cases h
      simp [chars, List.takeWhile_append_dropWhile]

end Numeral

end JsonExpr.Text
