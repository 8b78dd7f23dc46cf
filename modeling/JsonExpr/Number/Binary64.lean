/-!
Numbers of 64 bits. Arithmetic on integers is worked out on unbounded integers and narrowed at the
end, so that an overflow is seen as the lack of a result.

A finite double is a sign, a mantissa and a power of two, and what is asked of it here (its whole
part, its floor, the remainder of a division) is answered in integer arithmetic on those parts. A
double that is infinite or not a number has no parts.
-/

namespace JsonExpr

/-! ## Integers -/

/-- The integer as one of 64 bits, when it is in their range. -/
def narrow? (n : Int) : Option Int64 :=
  if Int64.minValue.toInt ≤ n ∧ n ≤ Int64.maxValue.toInt then some (Int64.ofInt n) else none

/-- The double nearest to an integer. -/
def floatOfInt (n : Int) : Float :=
  if n < 0 then -Float.ofNat n.natAbs else Float.ofNat n.natAbs

theorem toInt_of_narrow? {n : Int} {k : Int64} (h : narrow? n = some k) : k.toInt = n := by
  unfold narrow? at h
  split at h
  · rename_i range
    have high := range.2
    rw [Int64.toInt_maxValue] at high
    cases h
    exact Int64.toInt_ofInt_of_le (by simpa using range.1) (by omega)
  · cases h

theorem narrow?_toInt (k : Int64) : narrow? k.toInt = some k := by
  unfold narrow?
  rw [if_pos ⟨Int64.minValue_le_toInt k, Int64.toInt_le k⟩, Int64.ofInt_toInt]

/-! ## Doubles -/

/-- The finite double `mantissa * 2 ^ exponent`, negated when `negative` is set. -/
structure Binary64 where
  negative : Bool
  mantissa : Nat
  exponent : Int
deriving DecidableEq, Repr

namespace Binary64

/-- The parts of a finite double, read off its bits. -/
def ofFloat? (x : Float) : Option Binary64 :=
  let bits := x.toBits.toNat
  let negative : Bool := 1 <<< 63 ≤ bits
  let biased : Nat := bits >>> 52 % (1 <<< 11)
  let fraction : Nat := bits % (1 <<< 52)
  if biased = 2047 then none
  else if biased = 0 then some ⟨negative, fraction, -1074⟩
  else some ⟨negative, 1 <<< 52 + fraction, (biased : Int) - 1075⟩

/-- The double with the given parts, provided that the number is one: the mantissa is moved up
until it fills its 53 bits or the exponent is the least one. -/
def toFloat (x : Binary64) : Float :=
  let room := if x.mantissa = 0 then 0 else 52 - x.mantissa.log2
  let shift := min room (x.exponent + 1074).toNat
  let mantissa := x.mantissa <<< shift
  let biased :=
    if mantissa < 1 <<< 52 then 0 else (x.exponent - shift + 1075).toNat
  let magnitude := biased <<< 52 + mantissa % (1 <<< 52)
  Float.ofBits (UInt64.ofNat (if x.negative then 1 <<< 63 + magnitude else magnitude))

/-- The whole part of the magnitude. -/
def truncated (x : Binary64) : Nat :=
  if 0 ≤ x.exponent then x.mantissa <<< x.exponent.toNat
  else x.mantissa >>> (-x.exponent).toNat

/-- A number without a fraction. -/
def isWhole (x : Binary64) : Bool :=
  0 ≤ x.exponent || x.mantissa % (1 <<< (-x.exponent).toNat) = 0

/-- The greatest integer that is not above the number. -/
def floor (x : Binary64) : Int :=
  if !x.negative then x.truncated
  else if x.isWhole then -(x.truncated : Int)
  else -(x.truncated : Int) - 1

/-- The integer nearest to the magnitude; a half is rounded up. -/
def rounded (x : Binary64) : Nat :=
  if 0 ≤ x.exponent then x.truncated
  else
    let unit := 1 <<< (-x.exponent).toNat
    (2 * x.mantissa + unit) / (2 * unit)

/-- The remainder of the division of magnitudes, with the sign of the dividend. -/
def remainder (x y : Binary64) : Binary64 :=
  let exponent := min x.exponent y.exponent
  let aligned (z : Binary64) := z.mantissa <<< (z.exponent - exponent).toNat
  ⟨x.negative, aligned x % aligned y, exponent⟩

end Binary64

/-- The remainder of floating-point division: exact, with the sign of the dividend. A division
by zero or of an infinity has none, and an infinite divisor leaves the dividend as it is. -/
def floatRemainder (x y : Float) : Float :=
  match Binary64.ofFloat? x, Binary64.ofFloat? y with
  | some a, some b =>
    if b.mantissa = 0 then 0.0 / 0.0 else (a.remainder b).toFloat
  | some _, none => if y.isNaN then y else x
  | none, _ => 0.0 / 0.0

end JsonExpr
