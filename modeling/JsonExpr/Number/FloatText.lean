import JsonExpr.Number.Decimal

/-!
The texts of a double. Both have the fewest digits that read back as the same double; they differ
in the layout, which a record states. The plain layout never has an exponent and writes whole
numbers without a point. The data layout marks every double as one, by a point or an exponent.
-/

namespace JsonExpr

/-- How the digits of a double are laid out. -/
structure FloatLayout where
  /-- The choice between two shortest decimals that are equally near. -/
  tie : Tie
  /-- The powers of ten of the first digit, least and greatest, for which there is no exponent;
  without bounds there never is one. -/
  positional : Option (Int × Int)
  /-- What follows a whole number that has no exponent. -/
  wholeSuffix : List Char

namespace FloatLayout

/-- Digits only, with a point where there is a fraction. -/
def plain : FloatLayout := ⟨.up, none, []⟩

/-- A fraction is always written, and beyond sixteen places before the point or five after it
there is an exponent. -/
def data : FloatLayout := ⟨.even, some (-5, 15), ['.', '0']⟩

/-- The digits with a point in its place, `point` places after the first digit's front. -/
def pointed (layout : FloatLayout) (digits : List Char) (point : Int) : List Char :=
  if point ≤ 0 then ['0', '.'] ++ List.replicate (-point).toNat '0' ++ digits
  else if (digits.length : Int) ≤ point then
    digits ++ List.replicate (point.toNat - digits.length) '0' ++ layout.wholeSuffix
  else digits.take point.toNat ++ '.' :: digits.drop point.toNat

/-- One digit, a point if more follow, and the power of ten with its sign. -/
def scientific (digits : List Char) (power : Int) : List Char :=
  let fraction := if digits.length ≤ 1 then [] else '.' :: digits.drop 1
  let sign := if power < 0 then '-' else '+'
  digits.take 1 ++ fraction ++ 'e' :: sign :: Text.natural power.natAbs

/-- The text of a positive decimal. -/
def render (layout : FloatLayout) (d : Decimal) : List Char :=
  let digits := Text.natural d.digits
  let power := d.exponent + digits.length - 1
  let positional := match layout.positional with
    | none => true
    | some (least, greatest) => least ≤ power && power ≤ greatest
  if positional then layout.pointed digits (power + 1) else scientific digits power

/-- The text of a finite double. -/
def finite (layout : FloatLayout) (x : Binary64) : List Char :=
  let magnitude :=
    if x.mantissa = 0 then '0' :: layout.wholeSuffix else layout.render (x.shortest layout.tie)
  if x.negative then '-' :: magnitude else magnitude

end FloatLayout

/-- The plain text of a double, which is also what string concatenation shows. -/
def plainFloat (x : Float) : String :=
  match Binary64.ofFloat? x with
  | some parts => String.ofList (FloatLayout.plain.finite parts)
  | none => if x.isNaN then "NaN" else if x < 0 then "-inf" else "inf"

/-- The text of a double inside data, which has none for the doubles that are not finite. -/
def dataFloat? (x : Float) : Option String :=
  (Binary64.ofFloat? x).map fun parts => String.ofList (FloatLayout.data.finite parts)

end JsonExpr
