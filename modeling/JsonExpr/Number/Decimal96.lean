import JsonExpr.Number.Decimal

/-!
Decimal arithmetic with 96-bit mantissas: a number is `± mantissa / 10 ^ scale` with a mantissa
below `2 ^ 96` and a scale of at most 28. Sums, products and quotients are worked out exactly and
then brought back into range, a half going to the even neighbour; where that is impossible the
operation has no answer. Doubles are read into this form with about as many decimal digits as
they are worth, so that `1.1` becomes eleven tenths.
-/

namespace JsonExpr

/-- The number `mantissa / 10 ^ scale`, negated when `negative` is set. -/
structure Decimal96 where
  negative : Bool
  mantissa : Nat
  scale : Nat
deriving DecidableEq, Repr

namespace Decimal96

open Text (tenPow)

/-- Mantissas stay below this bound. -/
def limit : Nat := 1 <<< 96

def zero : Decimal96 := ⟨false, 0, 0⟩

def ofInt (n : Int) : Decimal96 := ⟨n < 0, n.natAbs, 0⟩

/-- The quotient of two numbers, a half going to the even neighbour. -/
def divEven (n d : Nat) : Nat :=
  let quotient := n / d
  let twice := 2 * (n % d)
  if twice < d then quotient
  else if d < twice then quotient + 1
  else quotient + quotient % 2

/-! ## From a double -/

/-- A number `mantissa * 10 ^ exponent` on its way into range. -/
structure Draft where
  mantissa : Nat
  exponent : Int

/-- Trades powers of two in the denominator for powers of ten: multiplies by five while the
mantissa has room, and halves it otherwise. -/
def Draft.clearHalves (d : Draft) : Nat → Draft
  | 0 => d
  | count + 1 =>
    let next : Draft :=
      if d.mantissa % 2 = 0 then ⟨d.mantissa / 2, d.exponent + 1⟩
      else if 5 * d.mantissa < limit then ⟨5 * d.mantissa, d.exponent⟩
      else ⟨d.mantissa / 2, d.exponent + 1⟩
    next.clearHalves count

/-- Trades powers of two in the numerator for powers of ten: doubles the mantissa while it has
room, and divides it by five otherwise. -/
def Draft.clearDoubles? (d : Draft) : Nat → Option Draft
  | 0 => some d
  | count + 1 =>
    if d.mantissa < 1 <<< 95 then
      Draft.clearDoubles? ⟨2 * d.mantissa, d.exponent - 1⟩ count
    else if 2 * d.exponent > (count + 1 : Nat) then none
    else Draft.clearDoubles? ⟨d.mantissa / 5, d.exponent⟩ count

/-- Multiplies by ten until the exponent is not positive. -/
def Draft.spread? (d : Draft) : Nat → Option Draft
  | 0 => some d
  | count + 1 =>
    if 10 * d.mantissa < limit then Draft.spread? ⟨10 * d.mantissa, d.exponent - 1⟩ count
    else none

/-- Drops a digit; a half or more rounds up. -/
def Draft.dropDigit (d : Draft) : Draft :=
  let shorter := d.mantissa / 10
  ⟨if 5 ≤ d.mantissa % 10 then shorter + 1 else shorter, d.exponent + 1⟩

/-- Drops digits that lie beyond the greatest scale. What is below all digits is zero. -/
def Draft.dropTiny (d : Draft) : Nat → Draft
  | 0 => d
  | count + 1 =>
    if -28 ≤ d.exponent then d
    else if d.mantissa / 10 = 0 then ⟨0, 0⟩
    else d.dropDigit.dropTiny count

/-- Drops decimals that a double of this size cannot tell apart. -/
def Draft.dropNoise (d : Draft) : Nat → Draft
  | 0 => d
  | count + 1 =>
    if d.exponent < 0 ∧ 1 <<< 52 ≤ d.mantissa then d.dropDigit.dropNoise count else d

/-- Drops trailing zeros after the point. -/
def Draft.dropZeros (d : Draft) : Nat → Draft
  | 0 => d
  | count + 1 =>
    if d.exponent < 0 ∧ d.mantissa % 10 = 0 then
      Draft.dropZeros ⟨d.mantissa / 10, d.exponent + 1⟩ count
    else d

/-- The decimal for a finite double; the largest doubles have none. -/
def ofBinary64? (x : Binary64) : Option Decimal96 :=
  if x.mantissa = 0 then some zero
  else do
    let start : Draft := ⟨x.mantissa, x.exponent⟩
    let decimal ← (start.clearHalves (-x.exponent).toNat).clearDoubles? x.exponent.toNat
    let spread ← decimal.spread? decimal.exponent.toNat
    let cut := spread.dropTiny (-spread.exponent).toNat
    let clean := (cut.dropNoise (-cut.exponent).toNat)
    let bare := clean.dropZeros (-clean.exponent).toNat
    some ⟨x.negative, bare.mantissa, (-bare.exponent).toNat⟩

/-! ## Arithmetic -/

/-- The least number of digits, from `start` on, whose removal brings the mantissa into range. -/
def surplus? (m : Nat) (start scale : Nat) : Option Nat :=
  (List.range (scale + 1)).find? fun k => start ≤ k && m / tenPow k < limit

/-- Brings a mantissa into range by dropping at least `start` digits after the point. -/
def fit? (negative : Bool) (m scale start : Nat) : Option Decimal96 := do
  let k ← surplus? m start scale
  let rounded := divEven m (tenPow k)
  if rounded < limit then some ⟨negative, rounded, scale - k⟩
  else if scale - k = 0 then none
  else some ⟨negative, divEven rounded 10, scale - k - 1⟩

def neg (x : Decimal96) : Decimal96 := { x with negative := !x.negative }

/-- The mantissa at a larger scale. -/
def aligned (x : Decimal96) (scale : Nat) : Nat :=
  x.mantissa * tenPow (scale - x.scale)

/-- The signed mantissa at a larger scale. -/
def signed (x : Decimal96) (scale : Nat) : Int :=
  if x.negative then -(x.aligned scale : Int) else x.aligned scale

def add? (x y : Decimal96) : Option Decimal96 :=
  if x.mantissa = 0 then some y
  else if y.mantissa = 0 then some x
  else
    let scale := max x.scale y.scale
    let sum := x.signed scale + y.signed scale
    fit? (sum < 0) sum.natAbs scale 0

def sub? (x y : Decimal96) : Option Decimal96 :=
  x.add? y.neg

def mul? (x y : Decimal96) : Option Decimal96 :=
  if x.mantissa = 0 ∨ y.mantissa = 0 then some zero
  else
    let scale := x.scale + y.scale
    fit? (x.negative != y.negative) (x.mantissa * y.mantissa) scale (scale - 28)

/-- A quotient under way: the digits found so far, what is left to divide, and the scale of the
digits, which may be negative at first. -/
structure Quotient where
  digits : Nat
  rest : Nat
  scale : Int

/-- How many further digits fit, nine at most. -/
def Quotient.room (q : Quotient) : Nat :=
  ((List.range 10).reverse.find? fun (p : Nat) =>
    q.scale + (p : Int) ≤ 28 && q.digits * tenPow p < limit).getD 0

/-- Rounds the digits once more by a tenth; anything left of the division breaks a tie upwards. -/
def Quotient.overflow? (q : Quotient) : Option Quotient :=
  if q.scale ≤ 0 then none
  else
    let shorter := q.digits / 10
    let twice := 2 * (q.digits % 10)
    let up := 10 < twice ∨ twice = 10 ∧ (q.rest ≠ 0 ∨ shorter % 2 = 1)
    some ⟨if up then shorter + 1 else shorter, 0, q.scale - 1⟩

/-- Appends the next `p` digits of a division by `divisor`. The flag says whether the division is
finished, which is so when the digits have outgrown their bound. -/
def Quotient.extend? (q : Quotient) (divisor p : Nat) : Option (Quotient × Bool) :=
  let shifted := q.digits * tenPow p
  if limit ≤ shifted then none
  else
    let rest := q.rest * tenPow p
    let longer : Quotient := ⟨shifted + rest / divisor, rest % divisor, q.scale + p⟩
    if longer.digits < limit then some (longer, false)
    else longer.overflow?.map fun shorter => (shorter, true)

/-- Rounds the digits by what is left of the division, for which no further digit fits. -/
def Quotient.settle (q : Quotient) (divisor : Nat) : Quotient :=
  let rounded := divEven (q.digits * divisor + q.rest) divisor
  if rounded < limit then ⟨rounded, 0, q.scale⟩ else ⟨divEven rounded 10, 0, q.scale - 1⟩

/-- One round of a division, and whether it was the last. -/
def Quotient.step? (q : Quotient) (divisor : Nat) : Option (Quotient × Bool) :=
  if q.rest = 0 then
    if 0 ≤ q.scale then some (q, true) else q.extend? divisor (min 9 (-q.scale).toNat)
  else
    let p := q.room
    if p < 9 ∧ q.scale + p < 0 then none
    else if p = 0 then some (q.settle divisor, true)
    else q.extend? divisor p

/-- Divides until nothing is left or no digit fits any more. Every round appends a digit, so the
number of rounds is bounded by the range of the scales. -/
def Quotient.finish? (divisor : Nat) : Nat → Quotient → Option Quotient
  | 0, q => some q
  | fuel + 1, q =>
    match q.step? divisor with
    | none => none
    | some (next, true) => some next
    | some (next, false) => finish? divisor fuel next

/-- Drops `count` zeros at the end of the digits when the digits are divisible by `2 ^ bits`,
which is looked at first, and by `10 ^ count`. -/
def Quotient.dropBlock (q : Quotient) (bits count : Nat) : Quotient :=
  if q.digits % (1 <<< bits) = 0 ∧ (count : Int) ≤ q.scale ∧ q.digits % tenPow count = 0 then
    ⟨q.digits / tenPow count, q.rest, q.scale - count⟩
  else q

/-- Drops trailing zeros: blocks of eight while there are any, then at most one block of four,
of two and of one. -/
def Quotient.shrink (q : Quotient) : Quotient :=
  let eights := (List.range 4).foldl (fun q _ => q.dropBlock 32 8) q
  ((eights.dropBlock 4 4).dropBlock 2 2).dropBlock 1 1

def div? (x y : Decimal96) : Option Decimal96 :=
  if y.mantissa = 0 then none
  else if x.mantissa = 0 then some zero
  else do
    let start : Quotient :=
      ⟨x.mantissa / y.mantissa, x.mantissa % y.mantissa, (x.scale : Int) - y.scale⟩
    let done ← Quotient.finish? y.mantissa 64 start
    let clean := if start.rest = 0 then done else done.shrink
    some ⟨x.negative != y.negative, clean.digits, clean.scale.toNat⟩

/-- The remainder, with the sign of the dividend. -/
def rem? (x y : Decimal96) : Option Decimal96 :=
  let scale := max x.scale y.scale
  let a := x.aligned scale
  let b := y.aligned scale
  if y.mantissa = 0 then none
  else if x.mantissa = 0 ∨ a = b then some zero
  else if a < b then some x
  else some ⟨x.negative, a % b, scale⟩

/-! ## Back to numbers -/

/-- The integer that the decimal is, when it has no fraction. -/
def toInt? (x : Decimal96) : Option Int :=
  if x.mantissa % tenPow x.scale = 0 then
    let magnitude := x.mantissa / tenPow x.scale
    some (if x.negative then -(magnitude : Int) else magnitude)
  else none

/-- The power `10 ^ n` by repeated squaring in doubles. -/
def tenPower (n : Nat) : Float :=
  go 5 n 1.0 10.0
where
  go : Nat → Nat → Float → Float → Float
    | 0, _, result, _ => result
    | fuel + 1, n, result, square =>
      let result := if n % 2 = 1 then result * square else result
      if n / 2 = 0 then result else go fuel (n / 2) result (square * square)

/-- The double for the magnitude: the whole part and the fraction are added as doubles, and the
sum is rounded to the scale again. -/
def magnitude (x : Decimal96) : Float :=
  if x.scale = 0 then Float.ofNat x.mantissa
  else
    let unit := tenPow x.scale
    let whole := Float.ofNat (x.mantissa / unit)
    let fraction := Float.ofNat (x.mantissa % unit) / Float.ofNat unit
    if fraction == 0.0 then whole
    else
      let power := tenPower x.scale
      let scaled := (whole + fraction) * power
      match Binary64.ofFloat? scaled with
      | some parts => Float.ofNat parts.rounded / power
      | none => scaled / power

/-- The double for a decimal. -/
def toFloat (x : Decimal96) : Float :=
  if x.negative then -x.magnitude else x.magnitude

end Decimal96

end JsonExpr
