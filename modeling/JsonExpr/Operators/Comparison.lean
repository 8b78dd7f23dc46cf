import JsonExpr.Value.Equality

/-!
Comparison and membership. Numbers are compared as doubles and strings by their code points; values
of other kinds are not ordered at all. Membership asks for a part of a string, an item of an
array, or a key of an object.
-/

namespace JsonExpr.Value

/-- The order of two doubles, of which a NaN has none. -/
def compareFloats? (x y : Float) : Option Ordering :=
  if x < y then some .lt
  else if y < x then some .gt
  else if x == y then some .eq
  else none

/-- The order of two strings. -/
def compareStrings (a b : String) : Ordering :=
  if a < b then .lt else if b < a then .gt else .eq

/-- The order of two values, as far as there is one. -/
def compare? (left right : Value) : Option Ordering :=
  match left, right with
  | .string a, .string b => some (compareStrings a b)
  | _, _ =>
    match left.asFloat?, right.asFloat? with
    | some x, some y => compareFloats? x y
    | _, _ => none

/-- The values are ordered, and in a way that is accepted. -/
def ordered (accepts : Ordering → Bool) (left right : Value) : Bool :=
  (compare? left right).any accepts

/-- The first text is a part of the second. -/
def isPart (part : List Char) : List Char → Bool
  | [] => part.isEmpty
  | c :: cs => part.isPrefixOf (c :: cs) || isPart part cs

/-- The needle is in the haystack. -/
def isIn (needle haystack : Value) : Bool :=
  match haystack, needle with
  | .string s, .string part => isPart part.toList s.toList
  | .array items, _ => items.any fun item => looseEq item needle
  | .object fields, .string key => (Fields.find? key fields).isSome
  | _, _ => false

end JsonExpr.Value
