import JsonExpr.Number.Decimal96
import JsonExpr.Run.Basic
import JsonExpr.Value.Json

/-!
Arithmetic. Two integers give the exact integer, when there is one of 64 bits, and otherwise the
double that the operation has on doubles. Two doubles give a double. An integer and a double are
worked out as decimals, so that a hundred times `1.1` is a hundred and ten, and a whole result is
an integer again.
-/

namespace JsonExpr

/-- The operations that share their rules. -/
inductive Arithmetic
  | add
  | sub
  | mul
  | div
  | rem
deriving DecidableEq, Repr

namespace Arithmetic

/-- The operation in words, as messages have it. -/
def verb : Arithmetic → String
  | .add => "add"
  | .sub => "subtract"
  | .mul => "multiply"
  | .div => "divide"
  | .rem => "compute modulo of"

/-- The operation on doubles. -/
def onFloats : Arithmetic → Float → Float → Float
  | .add, x, y => x + y
  | .sub, x, y => x - y
  | .mul, x, y => x * y
  | .div, x, y => x / y
  | .rem, x, y => floatRemainder x y

/-- The operation on decimals, as far as it has a result in their range. -/
def onDecimals? : Arithmetic → Decimal96 → Decimal96 → Option Decimal96
  | .add, x, y => x.add? y
  | .sub, x, y => x.sub? y
  | .mul, x, y => x.mul? y
  | .div, x, y => x.div? y
  | .rem, x, y => x.rem? y

/-- The exact result on integers, when it is an integer of 64 bits. A division has one only
without a remainder, and a remainder only together with its quotient. -/
def onInts? (op : Arithmetic) (a b : Int64) : Option Int64 :=
  let a := a.toInt
  let b := b.toInt
  match op with
  | .add => narrow? (a + b)
  | .sub => narrow? (a - b)
  | .mul => narrow? (a * b)
  | .div => if a.tmod b = 0 then narrow? (a.tdiv b) else none
  | .rem => (narrow? (a.tdiv b)).bind fun _ => narrow? (a.tmod b)

/-- The operation on two integers. -/
def ints (op : Arithmetic) (a b : Int64) : Value :=
  match op.onInts? a b with
  | some n => .int n
  | none => .float (op.onFloats (floatOfInt a.toInt) (floatOfInt b.toInt))

/-- The decimal for a number. -/
def decimal? : Value → Option Decimal96
  | .int n => some (Decimal96.ofInt n.toInt)
  | .float x => (Binary64.ofFloat? x).bind Decimal96.ofBinary64?
  | _ => none

/-- The value for a decimal: an integer if it is whole and has at most 64 bits. -/
def ofDecimal (x : Decimal96) : Value :=
  match x.toInt?.bind narrow? with
  | some n => .int n
  | none => .float x.toFloat

/-- The operation on an integer and a double. -/
def mixed (op : Arithmetic) (left right : Value) (x y : Float) : Value :=
  let result := do
    let a ← decimal? left
    let b ← decimal? right
    op.onDecimals? a b
  match result with
  | some decimal => ofDecimal decimal
  | none => .float (op.onFloats x y)

/-- A zero of either kind, by which nothing can be divided. -/
def isZero (value : Value) : Bool :=
  match value.asFloat? with
  | some x => x == 0.0
  | none => false

/-- The operation on values. A division by zero fails whatever is divided. -/
def apply (op : Arithmetic) (left right : Value) : Except EvalError Value :=
  if (op = .div ∨ op = .rem) ∧ isZero right then .error .divisionByZero
  else
    match left, right with
    | .int a, .int b => .ok (op.ints a b)
    | .float x, .float y => .ok (.float (op.onFloats x y))
    | .int a, .float y => .ok (op.mixed left right (floatOfInt a.toInt) y)
    | .float x, .int b => .ok (op.mixed left right x (floatOfInt b.toInt))
    | _, _ =>
      .error (.typeError
        ("Cannot " ++ op.verb ++ " " ++ left.typeName ++ " and " ++ right.typeName))

end Arithmetic

/-- Addition, which concatenates as soon as one side is a string. -/
def Value.plus (left right : Value) : Except EvalError Value :=
  match left, right with
  | .string _, _ => .ok (.string (left.text ++ right.text))
  | _, .string _ => .ok (.string (left.text ++ right.text))
  | _, _ => Arithmetic.add.apply left right

/-- The floor of a double: an integer when it has less than 64 bits, else a double. -/
def Value.floorOf (x : Float) : Value :=
  match Binary64.ofFloat? x with
  | some parts =>
    let floor := parts.floor
    if floor.natAbs < 1 <<< 63 then .int (Int64.ofInt floor) else .float x
  | none => .float x

/-- The quotient, which is rounded towards zero, is one too great: there is a remainder, and it has
another sign than the divisor. -/
def isRoundedUp (remainder divisor : Int64) : Bool :=
  remainder != 0 && decide (remainder < 0) != decide (divisor < 0)

/-- The quotient of two integers rounded down. -/
def floorQuotient (a b : Int64) : Int64 :=
  if isRoundedUp (a % b) b then a / b - 1 else a / b

/-- Division rounded down. A quotient of two integers that has no 64 bits is left to the
doubles. -/
def Value.floorDiv (left right : Value) : Except EvalError Value :=
  if Arithmetic.isZero right then .error .divisionByZero
  else
    match left, right with
    | .int a, .int b =>
      if (narrow? (a.toInt.tdiv b.toInt)).isSome then .ok (.int (floorQuotient a b))
      else .ok (floorOf (floatOfInt a.toInt / floatOfInt b.toInt))
    | _, _ =>
      match left.asFloat?, right.asFloat? with
      | some x, some y => .ok (floorOf (x / y))
      | _, _ =>
        .error (.typeError
          ("Cannot floor-divide " ++ left.typeName ++ " by " ++ right.typeName))

/-- The power of an integer, when it is one of 64 bits and the exponent one of 32. -/
def intPower? (base : Int) (exponent : Nat) : Option Int64 :=
  if UInt32.size ≤ exponent then none
  else if base.natAbs ≤ 1 then
    narrow? (if exponent = 0 then 1 else if exponent % 2 = 0 then base * base else base)
  else if 64 ≤ exponent then none
  else narrow? (Int.pow base exponent)

/-- Exponentiation. -/
def Value.power (left right : Value) : Except EvalError Value :=
  match left.asFloat?, right.asFloat? with
  | some x, some y =>
    match left, right with
    | .int a, .int b =>
      if 0 ≤ b.toInt then
        match intPower? a.toInt b.toInt.toNat with
        | some n => .ok (.int n)
        | none => .ok (.float (x.pow y))
      else .ok (.float (x.pow y))
    | _, _ => .ok (.float (x.pow y))
  | _, _ =>
    .error (.typeError
      ("Cannot raise " ++ left.typeName ++ " to the power of " ++ right.typeName))

end JsonExpr
