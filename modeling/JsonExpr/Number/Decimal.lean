import JsonExpr.Number.Binary64

/-!
Decimals. Integers are written and read digit by digit; between decimals and doubles the way goes in
both directions.

Every finite double but zero stands for an interval of reals that round to it, and the number with
the fewest digits in this interval names the double. `Binary64.shortest` tries one digit, then two,
and so on: on the grid of decimals with that many digits only the two neighbours of the value need a
look, the nearer one being preferred. Seventeen digits always suffice.

A decimal is read as the nearest double (`Decimal.toFloat`). It may have any number of digits and
any exponent; what is beyond the doubles becomes infinite, what is too small becomes zero.
-/

namespace JsonExpr

/-! ## Digits -/

namespace Text

/-- The decimal digits of a natural number, most significant first, without leading zeros. -/
def natural (n : Nat) : List Char :=
  Nat.toDigits 10 n

/-- The decimal numeral of an integer, with a minus sign when it is negative. -/
def integer (n : Int) : List Char :=
  if n < 0 then '-' :: natural n.natAbs else natural n.natAbs

/-- The power of ten with `places` zeros. -/
def tenPow (places : Nat) : Nat :=
  Nat.pow 10 places

/-- The value of an ASCII digit. -/
def digitValue (c : Char) : Nat :=
  c.toNat - '0'.toNat

/-- The number that a row of ASCII digits stands for; the empty row stands for zero. -/
def ofDigits (digits : List Char) : Nat :=
  digits.foldl (fun n c => 10 * n + digitValue c) 0

end Text

/-! ## Shortest decimals -/

/-- The positive number `digits * 10 ^ exponent`. -/
structure Decimal where
  digits : Nat
  exponent : Int
deriving DecidableEq, Repr

/-- Which of two equally near neighbours is taken. -/
inductive Tie
  | up
  | even
deriving DecidableEq, Repr

namespace Decimal

/-- Drops trailing zeros of the digits, at most `count` of them. -/
def normalize (d : Decimal) : Nat → Decimal
  | 0 => d
  | count + 1 =>
    if d.digits % 10 = 0 then normalize ⟨d.digits / 10, d.exponent + 1⟩ count else d

end Decimal

namespace Binary64

/-- Compares `a * 10 ^ k` with `m * 2 ^ q` after bringing both to integers: the factors that
`a` and `m` get. -/
def gridFactors (k q : Int) : Nat × Nat :=
  (Text.tenPow k.toNat <<< (-q).toNat, Text.tenPow (-k).toNat <<< q.toNat)

/-- The power of ten of the first digit of `m * 2 ^ q`, for a positive `m`. -/
def leadingExponent (m : Nat) (q : Int) : Int :=
  let guess := ((m.log2 + q) * 30103).fdiv 100000
  let reaches (k : Int) : Bool :=
    let factors := gridFactors k q
    factors.1 ≤ m * factors.2
  if reaches (guess + 1) then guess + 1
  else if reaches guess then guess
  else guess - 1

/-- The nearer of the value's two neighbours with the given spacing `10 ^ k`, when one of them
rounds to the double. The magnitude and the ends of its interval are counted in quarters of the
last place. -/
def neighbour? (tie : Tie) (x : Binary64) (k : Int) : Option Nat :=
  let factors := gridFactors k (x.exponent - 2)
  let value := 4 * x.mantissa * factors.2
  let narrow := x.mantissa = 1 <<< 52 ∧ -1074 < x.exponent
  let low := (4 * x.mantissa - (if narrow then 1 else 2)) * factors.2
  let high := (4 * x.mantissa + 2) * factors.2
  let closed := x.mantissa % 2 = 0
  let inside (a : Nat) : Bool :=
    if closed then low ≤ a * factors.1 && a * factors.1 ≤ high
    else low < a * factors.1 && a * factors.1 < high
  let down := value / factors.1
  let gap := value - down * factors.1
  let up := down + 1
  if gap = 0 then some down
  else
    match inside down, inside up with
    | true, false => some down
    | false, true => some up
    | false, false => none
    | true, true =>
      if 2 * gap < factors.1 then some down
      else if factors.1 < 2 * gap then some up
      else match tie with
        | .up => some up
        | .even => some (if down % 2 = 0 then down else up)

/-- The first grid, from `count` digits on, that has a point in the interval. -/
def shortestFrom (tie : Tie) (x : Binary64) (leading : Int) : Nat → Nat → Decimal
  | 0, count =>
    let k := leading - count
    let factors := gridFactors k x.exponent
    ⟨x.mantissa * factors.2 / factors.1, k⟩
  | fuel + 1, count =>
    let k := leading - count
    match x.neighbour? tie k with
    | some digits => ⟨digits, k⟩
    | none => shortestFrom tie x leading fuel (count + 1)

/-- The shortest decimal that rounds to the double with these parts, its mantissa not being
zero. -/
def shortest (tie : Tie) (x : Binary64) : Decimal :=
  (shortestFrom tie x (leadingExponent x.mantissa x.exponent) 17 0).normalize 20

end Binary64

/-! ## Decimals read as doubles -/

/-- The double nearest to a decimal number. -/
def Decimal.toFloat (d : Decimal) : Float :=
  let power := (Text.natural d.digits).length + d.exponent
  if d.digits = 0 ∨ power < -400 then 0.0
  else if 400 < power then 1.0 / 0.0
  else Float.ofScientific d.digits (d.exponent < 0) d.exponent.natAbs

/-- The decimal number with the given digits before and after the point, times a power of ten. -/
def Decimal.ofPointed (whole fraction : List Char) (power : Int) : Decimal :=
  ⟨Text.ofDigits (whole ++ fraction), power - fraction.length⟩

end JsonExpr
