import JsonExpr.Proofs.Arithmetic
import JsonExpr.Proofs.Number.Decimals

/-!
# Arithmetic on an integer and a whole double

An integer and a double meet as decimals. A double that is a whole number becomes the decimal that
an integer would become, so it acts as the integer that it is, on either side of an operator: sums,
differences and products are exact, and so are remainders, and quotients where nothing remains
(`mixed_arithmetic`). Nothing is lost on the way up to 95 bits, which is far beyond `2 ^ 53`, up to
which every integer is a double.
-/

namespace JsonExpr

/-- One value is an integer and the other a double. -/
def Value.areMixed : Value → Value → Bool
  | .int _, .float _ | .float _, .int _ => true
  | _, _ => false

variable {op : Arithmetic} {u v : Value} {p q r : ℤ} {x y : Decimal96}

namespace Arithmetic

theorem exists_decimal? (number : u.number? = some (p : ℚ)) (small : p.natAbs < 2 ^ 95) :
    ∃ x, decimal? u = some x ∧ x.IsInt p := by
  cases u with
  | int n =>
    obtain rfl : n.toInt = p := by exact_mod_cast Option.some.inj number
    exact ⟨_, rfl, Decimal96.isInt_ofInt _⟩
  | float f =>
    obtain ⟨parts, finite, whole⟩ := Option.map_eq_some_iff.1 number
    obtain ⟨x, decimal, isInt⟩ := Decimal96.exists_ofBinary64? whole small
    refine ⟨x, ?_, isInt⟩
    rw [decimal?, finite]
    exact decimal
  | _ => cases number

/-- An integer and a double, in either order, meet as decimals that are these integers. -/
structure MeetAs (u v : Value) (x y : Decimal96) (p q : ℤ) : Prop where
  mixed : u.areMixed v
  decimalLeft : decimal? u = some x
  decimalRight : decimal? v = some y
  intLeft : x.IsInt p
  intRight : y.IsInt q
  isZero : isZero v = decide (q = 0)

/-- The operation on decimals gives this integer, or nothing where the integer has not 64 bits. -/
def IsExactOn (op : Arithmetic) (x y : Decimal96) (r : ℤ) : Prop :=
  (∃ z, op.onDecimals? x y = some z ∧ z.IsInt r) ∨ op.onDecimals? x y = none ∧ ¬Fits r

section MeetAs

variable (meet : MeetAs u v x y p q)
include meet

theorem isExactOn_mul : Arithmetic.mul.IsExactOn x y (p * q) := by
  rcases meet.intLeft.mul?_eq meet.intRight with ⟨-, product⟩ | ⟨large, none⟩
  · exact .inl product
  · refine .inr ⟨none, fun fits => ?_⟩
    rw [Decimal96.limit_eq] at large
    unfold Fits at fits
    omega

/-- A decimal without a fraction becomes the integer again; without a decimal the doubles are taken,
which is right where no integer fits. -/
theorem isExact_mixed (exact : op.IsExactOn x y r) (f g : Float) :
    (op.mixed u v f g).IsExact r := by
  unfold mixed
  simp only [meet.decimalLeft, meet.decimalRight, Option.bind_eq_bind, Option.bind_some]
  rcases exact with ⟨z, result, isInt⟩ | ⟨none, notFits⟩
  · simp only [result]
    unfold ofDecimal
    rw [isInt.toInt?_eq]
    exact Value.isExact_narrow? r _
  · simp only [none]
    unfold Value.IsExact
    rw [if_neg notFits]
    exact ⟨_, rfl⟩

theorem exists_apply (regular : op = .div ∨ op = .rem → q ≠ 0) (exact : op.IsExactOn x y r) :
    ∃ value, op.apply u v = .ok value ∧ value.IsExact r := by
  have nonzero : ¬((op = .div ∨ op = .rem) ∧ Arithmetic.isZero v = true) := by
    rintro ⟨divides, zero⟩
    rw [meet.isZero, decide_eq_true_iff] at zero
    exact regular divides zero
  have mixed := meet.mixed
  have result := isExact_mixed meet exact
  unfold apply
  rw [if_neg nonzero]
  match u, v with
  | .int a, .float g => exact ⟨_, rfl, result _ _⟩
  | .float f, .int b => exact ⟨_, rfl, result _ _⟩

theorem plus_eq_apply : u.plus v = Arithmetic.add.apply u v := by
  have mixed := meet.mixed
  match u, v with
  | .int a, .float g => rfl
  | .float f, .int b => rfl

end MeetAs

end Arithmetic

/-- The arithmetic operators on two operands that stand for the integers `p` and `q`. -/
structure WholeArithmetic (g : Grammar) (scope : Scope) (left right : Expr) (p q : ℤ) : Prop where
  add : Gives g scope "+" left right (Value.IsExact (p + q))
  sub : Gives g scope "-" left right (Value.IsExact (p - q))
  mul : Gives g scope "*" left right (Value.IsExact (p * q))
  div : q ≠ 0 → q ∣ p → Gives g scope "/" left right (Value.IsExact (p / q))
  rem : q ≠ 0 → Gives g scope "%" left right (Value.IsExact (p.tmod q))

section Operators

variable {g : Grammar} {scope : Scope} {left right : Expr} (standard : g.IsStandard)
  (evalLeft : left.eval g scope = .ok u) (evalRight : right.eval g scope = .ok v)
include standard evalLeft evalRight

theorem gives_of_meet {symbol : String} {apply : Value → Value → Except EvalError Value}
    (listed : BuiltIn.ofSymbol? symbol = some (.strict apply)) (same : apply u v = op.apply u v)
    (meet : Arithmetic.MeetAs u v x y p q) (regular : op = .div ∨ op = .rem → q ≠ 0)
    (exact : op.IsExactOn x y r) : Gives g scope symbol left right (Value.IsExact r) := by
  obtain ⟨value, applied, result⟩ := Arithmetic.exists_apply meet regular exact
  exact gives_of_strict standard evalLeft evalRight listed (same.trans applied) result

/-- A whole double of at most 95 bits is added, subtracted, multiplied and divided as the integer
that it is, by an integer as well as into one: the result is the exact integer wherever that has 64
bits. -/
theorem mixed_arithmetic (mixed : u.areMixed v) (numberLeft : u.number? = some (p : ℚ))
    (numberRight : v.number? = some (q : ℚ)) (smallLeft : |p| < 2 ^ 95)
    (smallRight : |q| < 2 ^ 95) : WholeArithmetic g scope left right p q := by
  rw [Int.abs_eq_natAbs] at smallLeft smallRight
  have boundLeft : p.natAbs < 2 ^ 95 := by omega
  have boundRight : q.natAbs < 2 ^ 95 := by omega
  obtain ⟨x, decimalLeft, intLeft⟩ := Arithmetic.exists_decimal? numberLeft boundLeft
  obtain ⟨y, decimalRight, intRight⟩ := Arithmetic.exists_decimal? numberRight boundRight
  have meet : Arithmetic.MeetAs u v x y p q := ⟨mixed, decimalLeft, decimalRight, intLeft, intRight,
    Arithmetic.isZero_of_number numberRight⟩
  have sum : (p + q).natAbs < Decimal96.limit := by
    rw [Decimal96.limit_eq]
    omega
  have difference : (p - q).natAbs < Decimal96.limit := by
    rw [Decimal96.limit_eq]
    omega
  constructor
  case add =>
    exact gives_of_meet standard evalLeft evalRight rfl (Arithmetic.plus_eq_apply meet) meet nofun
      (.inl (intLeft.add? intRight sum))
  case sub =>
    exact gives_of_meet standard evalLeft evalRight rfl rfl meet nofun
      (.inl (intLeft.sub? intRight difference))
  case mul =>
    exact gives_of_meet standard evalLeft evalRight rfl rfl meet nofun
      (Arithmetic.isExactOn_mul meet)
  case div =>
    intro nonzero dvd
    exact gives_of_meet standard evalLeft evalRight rfl rfl meet (fun _ => nonzero)
      (.inl (intLeft.div? intRight nonzero dvd))
  case rem =>
    intro nonzero
    exact gives_of_meet standard evalLeft evalRight rfl rfl meet (fun _ => nonzero)
      (.inl (intLeft.rem? intRight nonzero))

end Operators

theorem mixed_arithmetic_extremes :
    WholeArithmetic .standard ⟨.null, none⟩ (.literal (.float 9007199254740992.0))
      (.literal (.int Int64.minValue)) (2 ^ 53) (-2 ^ 63) := by
  have whole : (Value.float 9007199254740992.0).number? = some ((2 ^ 53 : ℤ) : ℚ) := by
    have parts : Binary64.ofFloat? 9007199254740992.0 = some ⟨false, 2 ^ 52, 1⟩ := rfl
    rw [Value.number?, parts]
    norm_num [Binary64.value, Binary64.magnitude]
  have least : (Value.int Int64.minValue).number? = some ((-2 ^ 63 : ℤ) : ℚ) := rfl
  exact mixed_arithmetic Grammar.isStandard_standard rfl rfl rfl whole least (by norm_num)
    (by norm_num)

end JsonExpr
