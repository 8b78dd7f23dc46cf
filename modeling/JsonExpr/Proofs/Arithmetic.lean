import JsonExpr.Proofs.Ordering

/-!
# Arithmetic on two integers

`Value.IsExact` says of a result that it is the integer it should be, as far as there is one of 64
bits, and otherwise a double. Sums, differences, products and quotients are exact in this sense,
and a quotient rounded down is the floor (`integer_arithmetic`).

For remainders and powers the conditions under which the integer is given up are not quite those
under which there is none: the remainder shares that of its quotient, and an exponent has at most
32 bits, also for the bases whose powers stay small (`remainders_and_powers`).
-/

namespace JsonExpr

/-- Has 64 bits. -/
def Fits (n : ℤ) : Prop :=
  -2 ^ 63 ≤ n ∧ n < 2 ^ 63

instance (n : ℤ) : Decidable (Fits n) := inferInstanceAs (Decidable (_ ∧ _))

/-- A double. -/
def Value.IsFloat (value : Value) : Prop :=
  ∃ x, value = .float x

/-- The integer if it has 64 bits, else a double. -/
def Value.IsExact (r : ℤ) (value : Value) : Prop :=
  if Fits r then ∃ n : Int64, n.toInt = r ∧ value = .int n else value.IsFloat

/-- The greatest multiple of the divisor that does not lie behind the dividend, seen in the
direction of the divisor. -/
structure IsFloor (q a b : ℤ) : Prop where
  of_pos : 0 < b → q * b ≤ a ∧ a < (q + 1) * b
  of_neg : b < 0 → a ≤ q * b ∧ (q + 1) * b < a

/-- A remainder with the sign of the divisor is the mark of a floor. -/
theorem isFloor_of_remainder {q r a b : ℤ} (division : b * q + r = a)
    (ofPos : 0 < b → 0 ≤ r ∧ r < b) (ofNeg : b < 0 → b < r ∧ r ≤ 0) : IsFloor q a b := by
  subst division
  constructor
  · intro positive
    obtain ⟨low, high⟩ := ofPos positive
    constructor <;> linarith
  · intro negative
    obtain ⟨low, high⟩ := ofNeg negative
    constructor <;> linarith

/-! ## Narrowing -/

theorem fits_toInt (n : Int64) : Fits n.toInt :=
  ⟨n.le_toInt, n.toInt_lt⟩

theorem narrow?_of_fits {r : ℤ} (fits : Fits r) :
    ∃ n : Int64, narrow? r = some n ∧ n.toInt = r := by
  have high : r ≤ 2 ^ 63 - 1 := Int.le_sub_one_of_lt fits.2
  refine ⟨Int64.ofInt r, if_pos ⟨fits.1, high⟩, Int64.toInt_ofInt_of_le fits.1 fits.2⟩

theorem narrow?_of_not_fits {r : ℤ} (notFits : ¬Fits r) : narrow? r = none :=
  if_neg fun range => notFits ⟨range.1, Int.lt_of_le_sub_one range.2⟩

theorem isSome_narrow?_iff {r : ℤ} : (narrow? r).isSome ↔ Fits r := by
  by_cases fits : Fits r
  · obtain ⟨n, narrowed, -⟩ := narrow?_of_fits fits
    rw [narrowed]
    exact iff_of_true rfl fits
  · rw [narrow?_of_not_fits fits]
    exact iff_of_false Bool.false_ne_true fits

/-- What a result narrowed to 64 bits or else left to the doubles is. -/
theorem Value.isExact_narrow? (r : ℤ) (x : Float) :
    IsExact r (match narrow? r with
      | some n => .int n
      | none => .float x) := by
  unfold IsExact
  by_cases fits : Fits r
  · obtain ⟨n, narrowed, same⟩ := narrow?_of_fits fits
    rw [if_pos fits, narrowed]
    exact ⟨n, same, rfl⟩
  · rw [if_neg fits, narrow?_of_not_fits fits]
    exact ⟨x, rfl⟩

/-- A whole number is a zero only where it is zero. -/
theorem Arithmetic.isZero_of_number {value : Value} {n : ℤ}
    (number : value.number? = some (n : ℚ)) : isZero value = decide (n = 0) := by
  obtain ⟨x, parts, double, finite, nearest⟩ := Value.exists_nearest number
  have zero : Binary64.ofFloat? 0.0 = some ⟨false, 0, -1074⟩ := rfl
  have same : isZero value = (x == 0.0) := by
    unfold isZero
    rw [double]
  rw [same, Binary64.beq_eq_decide_value finite zero, Binary64.value_zero, decide_eq_decide,
    Rounding.value_eq_zero_iff nearest]

theorem Arithmetic.isZero_int (n : Int64) : isZero (.int n) = decide (n = 0) := by
  rw [isZero_of_number (n := n.toInt) rfl, decide_eq_decide, ← Int64.toInt_zero, Int64.toInt_inj]

/-! ## Division -/

/-- The least integer and minus one, whose quotient has 65 bits. -/
def Overflows (a b : Int64) : Prop :=
  a = Int64.minValue ∧ b = -1

instance (a b : Int64) : Decidable (Overflows a b) := inferInstanceAs (Decidable (_ ∧ _))

section Division

variable {a b : Int64}

theorem tdiv_of_overflows (overflow : Overflows a b) : a.toInt.tdiv b.toInt = 2 ^ 63 := by
  rw [overflow.1, overflow.2]
  decide

/-- A divisor of at least two halves the dividend. -/
theorem natAbs_tdiv_le (two : 2 ≤ b.toInt.natAbs) : (a.toInt.tdiv b.toInt).natAbs ≤ 2 ^ 62 := by
  have low := a.le_toInt
  have high := a.toInt_lt
  have dividend : a.toInt.natAbs ≤ 2 ^ 63 := by omega
  rw [Int.natAbs_tdiv]
  calc a.toInt.natAbs / b.toInt.natAbs ≤ 2 ^ 63 / 2 := Nat.div_le_div dividend two (by decide)
    _ = 2 ^ 62 := by decide

theorem toInt_ne_zero (nonzero : b ≠ 0) : b.toInt ≠ 0 :=
  fun zero => nonzero (Int64.toInt_inj.1 (zero.trans Int64.toInt_zero.symm))

theorem natAbs_tmod_lt (a : Int64) (nonzero : b ≠ 0) :
    (a.toInt.tmod b.toInt).natAbs < b.toInt.natAbs := by
  rw [Int.natAbs_tmod]
  exact Nat.mod_lt _ (Int.natAbs_pos.2 (toInt_ne_zero nonzero))

theorem fits_tdiv_iff (nonzero : b ≠ 0) : Fits (a.toInt.tdiv b.toInt) ↔ ¬Overflows a b := by
  refine ⟨fun fits overflow => ?_, fun exact => ?_⟩
  · rw [tdiv_of_overflows overflow] at fits
    exact lt_irrefl _ fits.2
  · have notZero := toInt_ne_zero nonzero
    rcases Nat.lt_or_ge b.toInt.natAbs 2 with unit | two
    · have units : b.toInt = 1 ∨ b.toInt = -1 := by omega
      rcases units with one | minusOne
      · rw [one, Int.tdiv_one]
        exact fits_toInt a
      · have notLeast : a.toInt ≠ -2 ^ 63 := fun least =>
          exact ⟨Int64.toInt_inj.1 (least.trans Int64.toInt_minValue.symm),
            Int64.toInt_inj.1 minusOne⟩
        obtain ⟨low, high⟩ := fits_toInt a
        rw [minusOne, Int.tdiv_neg, Int.tdiv_one]
        exact ⟨by omega, by omega⟩
    · have small := natAbs_tdiv_le (a := a) two
      exact ⟨by omega, by omega⟩

theorem toInt_div (exact : ¬Overflows a b) : (a / b).toInt = a.toInt.tdiv b.toInt := by
  rcases not_and_or.1 exact with least | unit
  · exact Int64.toInt_div_of_ne_left a b least
  · exact Int64.toInt_div_of_ne_right a b unit

theorem isRoundedUp_iff :
    isRoundedUp (a % b) b ↔
      a.toInt.tmod b.toInt ≠ 0 ∧ ¬(a.toInt.tmod b.toInt < 0 ↔ b.toInt < 0) := by
  unfold isRoundedUp
  rw [Bool.and_eq_true, bne_iff_ne, bne_iff_ne, ne_eq, ne_eq, decide_eq_decide,
    Int64.lt_iff_toInt_lt, Int64.lt_iff_toInt_lt, ← Int64.toInt_inj, Int64.toInt_mod,
    Int64.toInt_zero]

/-- The correction stays in the range: where there is a remainder, the divisor is at least two. -/
theorem toInt_div_sub_one (nonzero : b ≠ 0) (rounded : isRoundedUp (a % b) b) :
    (a / b - 1).toInt = (a / b).toInt - 1 := by
  have remainder := (isRoundedUp_iff.1 rounded).1
  have two : 2 ≤ b.toInt.natAbs := by
    have less := natAbs_tmod_lt a nonzero
    omega
  have exact : ¬Overflows a b := by
    rintro ⟨-, rfl⟩
    exact absurd two (by decide)
  have small := natAbs_tdiv_le (a := a) two
  rw [Int64.toInt_sub, toInt_div exact]
  exact Int.bmod_eq_of_le (by change _ ≤ _ - (1 : ℤ); omega) (by change _ - (1 : ℤ) < _; omega)

theorem isFloor_floorQuotient (nonzero : b ≠ 0) (exact : ¬Overflows a b) :
    IsFloor (floorQuotient a b).toInt a.toInt b.toInt := by
  have division : b.toInt * a.toInt.tdiv b.toInt + a.toInt.tmod b.toInt = a.toInt :=
    Int.mul_tdiv_add_tmod _ _
  have less := natAbs_tmod_lt a nonzero
  have quotient := toInt_div exact
  unfold floorQuotient
  split
  · rename_i rounded
    have signs := isRoundedUp_iff.1 rounded
    rw [toInt_div_sub_one nonzero rounded, quotient]
    have moved : b.toInt * (a.toInt.tdiv b.toInt - 1) + (a.toInt.tmod b.toInt + b.toInt) =
        a.toInt := by linarith
    exact isFloor_of_remainder moved (by omega) (by omega)
  · rename_i notRounded
    have signs := mt isRoundedUp_iff.2 notRounded
    rw [quotient]
    exact isFloor_of_remainder division (by omega) (by omega)

end Division

/-! ## Powers -/

theorem not_fits_pow {base : ℤ} {exponent : ℕ} (two : 2 ≤ base.natAbs) (large : 64 ≤ exponent) :
    ¬Fits (base ^ exponent) := by
  have grows : 2 ^ 64 ≤ base.natAbs ^ exponent :=
    (Nat.pow_le_pow_right (by decide) large).trans (Nat.pow_le_pow_left two exponent)
  rw [← Int.natAbs_pow] at grows
  rintro ⟨low, high⟩
  omega

/-- The powers of minus one, zero and one. -/
theorem pow_of_natAbs_le_one {base : ℤ} (unit : base.natAbs ≤ 1) (exponent : ℕ) :
    base ^ exponent =
      if exponent = 0 then 1 else if exponent % 2 = 0 then base * base else base := by
  have cases : base = 0 ∨ base = 1 ∨ base = -1 := by omega
  split
  · rename_i zero
    rw [zero, pow_zero]
  · rename_i nonzero
    rcases cases with rfl | rfl | rfl
    · rw [zero_pow nonzero, mul_zero, ite_self]
    · rw [one_pow, mul_one, ite_self]
    · split
      · rename_i even
        exact (Nat.even_iff.2 even).neg_one_pow
      · rename_i odd
        exact (Nat.not_even_iff_odd.1 (mt Nat.even_iff.1 odd)).neg_one_pow

/-- An exponent of 32 bits gives the power, if it has 64 bits. -/
theorem intPower?_eq (base : ℤ) (exponent : ℕ) :
    intPower? base exponent =
      if exponent < 2 ^ 32 then narrow? (base ^ exponent) else none := by
  unfold intPower?
  by_cases long : UInt32.size ≤ exponent
  · rw [if_pos long]
    exact (if_neg (not_lt.2 long)).symm
  · have short : exponent < 2 ^ 32 := not_le.1 long
    rw [if_neg long, if_pos short]
    split
    · rename_i unit
      rw [pow_of_natAbs_le_one unit]
    · rename_i two
      split
      · rename_i large
        exact (narrow?_of_not_fits (not_fits_pow (not_le.1 two) large)).symm
      · rfl

/-! ## Values -/

namespace Arithmetic

variable {op : Arithmetic} {a b : Int64}

theorem apply_ints (nonzero : b ≠ 0) : op.apply (.int a) (.int b) = .ok (op.ints a b) := by
  refine if_neg fun zero => nonzero ?_
  rw [isZero_int, decide_eq_true_iff] at zero
  exact zero.2

theorem apply_ints_of_total (total : ¬(op = .div ∨ op = .rem)) :
    op.apply (.int a) (.int b) = .ok (op.ints a b) :=
  if_neg fun zero => total zero.1

theorem apply_ints_zero (divides : op = .div ∨ op = .rem) :
    op.apply (.int a) (.int 0) = .error .divisionByZero :=
  if_pos ⟨divides, by rw [isZero_int]; rfl⟩

theorem isExact_ints {r : ℤ} (narrowed : op.onInts? a b = narrow? r) : (op.ints a b).IsExact r := by
  unfold ints
  rw [narrowed]
  exact Value.isExact_narrow? r _

theorem ints_of_not_dvd (remainder : ¬b.toInt ∣ a.toInt) : (Arithmetic.div.ints a b).IsFloat := by
  have none : Arithmetic.div.onInts? a b = none :=
    if_neg fun zero => remainder (Int.dvd_of_tmod_eq_zero zero)
  unfold ints
  rw [none]
  exact ⟨_, rfl⟩

theorem onInts?_div_of_dvd (dvd : b.toInt ∣ a.toInt) :
    Arithmetic.div.onInts? a b = narrow? (a.toInt / b.toInt) := by
  rw [← Int.tdiv_eq_ediv_of_dvd dvd]
  exact if_pos (Int.tmod_eq_zero_of_dvd dvd)

end Arithmetic

theorem Value.floorDiv_int_zero {a : Int64} :
    Value.floorDiv (.int a) (.int 0) = .error .divisionByZero :=
  if_pos (by rw [Arithmetic.isZero_int]; rfl)

/-- The floor of the doubles for the least integer and minus one is a double again. -/
theorem Value.isFloat_floorOf {a b : Int64} (overflow : Overflows a b) :
    (floorOf (floatOfInt a.toInt / floatOfInt b.toInt)).IsFloat := by
  rw [overflow.1, overflow.2]
  exact ⟨_, rfl⟩

theorem Value.floorDiv_ints {a b : Int64} (nonzero : b ≠ 0) :
    ∃ q : ℤ, IsFloor q a.toInt b.toInt ∧ (Fits q ↔ ¬Overflows a b) ∧
      ∃ value, Value.floorDiv (.int a) (.int b) = .ok value ∧ value.IsExact q := by
  have notZero : ¬Arithmetic.isZero (.int b) = true := by
    rw [Arithmetic.isZero_int, decide_eq_true_iff]
    exact nonzero
  have fits := fits_tdiv_iff (a := a) nonzero
  unfold Value.floorDiv
  rw [if_neg notZero]
  by_cases overflow : Overflows a b
  · have notFits : ¬Fits (a.toInt.tdiv b.toInt) := fun fit => fits.1 fit overflow
    simp only [if_neg (mt isSome_narrow?_iff.1 notFits)]
    refine ⟨a.toInt.tdiv b.toInt, ?_, fits, _, rfl, ?_⟩
    · rw [overflow.1, overflow.2]
      exact isFloor_of_remainder (r := 0) (by decide) (by decide) (by decide)
    · unfold IsExact
      rw [if_neg notFits]
      exact isFloat_floorOf overflow
  · simp only [if_pos (isSome_narrow?_iff.2 (fits.2 overflow))]
    refine ⟨(floorQuotient a b).toInt, isFloor_floorQuotient nonzero overflow,
      iff_of_true (fits_toInt _) overflow, _, rfl, ?_⟩
    unfold IsExact
    rw [if_pos (fits_toInt _)]
    exact ⟨_, rfl, rfl⟩

/-- The remainder has the sign of the dividend and is less than the divisor. -/
theorem Arithmetic.rem_ints {a b : Int64} (nonzero : b ≠ 0) (exact : ¬Overflows a b) :
    ∃ r : Int64, Arithmetic.rem.ints a b = .int r ∧
      r.toInt = a.toInt - b.toInt * a.toInt.tdiv b.toInt ∧ |r.toInt| < |b.toInt| := by
  have less := natAbs_tmod_lt a nonzero
  have divisor := fits_toInt b
  have fits : Fits (a.toInt.tmod b.toInt) := by
    unfold Fits at *
    omega
  obtain ⟨q, quotient, -⟩ := narrow?_of_fits ((fits_tdiv_iff nonzero).2 exact)
  obtain ⟨r, remainder, same⟩ := narrow?_of_fits fits
  have narrowed : Arithmetic.rem.onInts? a b = some r := by
    rw [onInts?, quotient]
    exact remainder
  refine ⟨r, ?_, ?_, ?_⟩
  · rw [ints, narrowed]
  · rw [same, Int.tmod_def]
  · rw [same, Int.abs_eq_natAbs, Int.abs_eq_natAbs]
    exact_mod_cast less

theorem Arithmetic.isFloat_ints_rem {a b : Int64} (overflow : Overflows a b) :
    (Arithmetic.rem.ints a b).IsFloat := by
  rw [overflow.1, overflow.2]
  exact ⟨_, rfl⟩

/-- An exponent that is too long does no harm where the power does not fit anyway. -/
theorem Value.isExact_intPower? {a : ℤ} {e : ℕ} (short : e < 2 ^ 32 ∨ 2 ≤ |a|) (x : Float) :
    IsExact (a ^ e) (match intPower? a e with
      | some n => .int n
      | none => .float x) := by
  rw [intPower?_eq]
  by_cases bits : e < 2 ^ 32
  · rw [if_pos bits]
    exact isExact_narrow? _ _
  · have two : 2 ≤ |a| := short.resolve_left bits
    rw [Int.abs_eq_natAbs] at two
    have notFits : ¬Fits (a ^ e) :=
      not_fits_pow (by omega) ((by decide : 64 ≤ 2 ^ 32).trans (not_lt.1 bits))
    rw [if_neg bits]
    unfold IsExact
    rw [if_neg notFits]
    exact ⟨_, rfl⟩

theorem Value.power_ints {a b : Int64} (nonneg : 0 ≤ b.toInt) :
    Value.power (.int a) (.int b) = .ok
      (match intPower? a.toInt b.toInt.toNat with
        | some n => .int n
        | none => .float ((floatOfInt a.toInt).pow (floatOfInt b.toInt))) := by
  unfold Value.power
  simp only [asFloat?, if_pos nonneg]
  cases intPower? a.toInt b.toInt.toNat <;> rfl

/-! ## The operators -/

/-- The operator gives such a value. -/
def Gives (g : Grammar) (scope : Scope) (symbol : String) (left right : Expr)
    (holds : Value → Prop) : Prop :=
  ∃ value, (Expr.binary symbol left right).eval g scope = .ok value ∧ holds value

/-- The operators `+`, `-`, `*`, `/` and `//` on two integers. The last field is about the steps
of a division rounded down: none of them leaves the range. -/
structure IntegerArithmetic (g : Grammar) (scope : Scope) (left right : Expr) (a b : Int64) :
    Prop where
  add : Gives g scope "+" left right (Value.IsExact (a.toInt + b.toInt))
  sub : Gives g scope "-" left right (Value.IsExact (a.toInt - b.toInt))
  mul : Gives g scope "*" left right (Value.IsExact (a.toInt * b.toInt))
  div_zero : b = 0 → (Expr.binary "/" left right).eval g scope = .fail .divisionByZero
  div_of_dvd : b ≠ 0 → b.toInt ∣ a.toInt →
    Gives g scope "/" left right (Value.IsExact (a.toInt / b.toInt))
  div_of_not_dvd : b ≠ 0 → ¬b.toInt ∣ a.toInt → Gives g scope "/" left right Value.IsFloat
  floorDiv_zero : b = 0 → (Expr.binary "//" left right).eval g scope = .fail .divisionByZero
  floorDiv : b ≠ 0 → ∃ q : ℤ, IsFloor q a.toInt b.toInt ∧ (Fits q ↔ ¬Overflows a b) ∧
    Gives g scope "//" left right (Value.IsExact q)
  steps : b ≠ 0 → ¬Overflows a b →
    (a / b).toInt = a.toInt.tdiv b.toInt ∧ (a % b).toInt = a.toInt.tmod b.toInt ∧
      (isRoundedUp (a % b) b → (a / b - 1).toInt = (a / b).toInt - 1)

/-- The operators `%` and `^` on two integers. -/
structure RemaindersAndPowers (g : Grammar) (scope : Scope) (left right : Expr) (a b : Int64) :
    Prop where
  rem_zero : b = 0 → (Expr.binary "%" left right).eval g scope = .fail .divisionByZero
  rem : b ≠ 0 → ¬Overflows a b →
    Gives g scope "%" left right fun value => ∃ r : Int64, value = .int r ∧
      r.toInt = a.toInt - b.toInt * a.toInt.tdiv b.toInt ∧ |r.toInt| < |b.toInt|
  rem_of_overflows : Overflows a b → Gives g scope "%" left right Value.IsFloat
  pow : 0 ≤ b.toInt → b.toInt < 2 ^ 32 ∨ 2 ≤ |a.toInt| →
    Gives g scope "^" left right (Value.IsExact (a.toInt ^ b.toInt.toNat))
  pow_of_long : 2 ^ 32 ≤ b.toInt → |a.toInt| ≤ 1 → Gives g scope "^" left right Value.IsFloat

variable {g : Grammar} {scope : Scope} {left right : Expr} {a b : Int64}

section Strict

variable {u v : Value} (standard : g.IsStandard) (evalLeft : left.eval g scope = .ok u)
  (evalRight : right.eval g scope = .ok v)
include standard evalLeft evalRight

theorem gives_of_strict {symbol : String} {apply : Value → Value → Except EvalError Value}
    {value : Value} {holds : Value → Prop}
    (listed : BuiltIn.ofSymbol? symbol = some (.strict apply))
    (applied : apply u v = .ok value) (result : holds value) :
    Gives g scope symbol left right holds := by
  refine ⟨value, ?_, result⟩
  rw [standard.eval_strict listed evalLeft evalRight, applied]
  rfl

theorem fails_of_strict {symbol : String} {apply : Value → Value → Except EvalError Value}
    {error : EvalError} (listed : BuiltIn.ofSymbol? symbol = some (.strict apply))
    (applied : apply u v = .error error) :
    (Expr.binary symbol left right).eval g scope = .fail error := by
  rw [standard.eval_strict listed evalLeft evalRight, applied]
  rfl

end Strict

section Operators

variable (standard : g.IsStandard) (evalLeft : left.eval g scope = .ok (.int a))
  (evalRight : right.eval g scope = .ok (.int b))
include standard evalLeft evalRight

/-- Sums, differences, products and quotients of two integers are exact or doubles, and a quotient
rounded down is the floor, unless that has 65 bits. -/
theorem integer_arithmetic : IntegerArithmetic g scope left right a b where
  add := gives_of_strict standard evalLeft evalRight rfl
    (Arithmetic.apply_ints_of_total (by decide)) (Arithmetic.isExact_ints rfl)
  sub := gives_of_strict standard evalLeft evalRight rfl
    (Arithmetic.apply_ints_of_total (by decide)) (Arithmetic.isExact_ints rfl)
  mul := gives_of_strict standard evalLeft evalRight rfl
    (Arithmetic.apply_ints_of_total (by decide)) (Arithmetic.isExact_ints rfl)
  div_zero zero := by
    subst zero
    exact fails_of_strict standard evalLeft evalRight rfl (Arithmetic.apply_ints_zero (.inl rfl))
  div_of_dvd nonzero dvd := gives_of_strict standard evalLeft evalRight rfl
    (Arithmetic.apply_ints nonzero) (Arithmetic.isExact_ints (Arithmetic.onInts?_div_of_dvd dvd))
  div_of_not_dvd nonzero notDvd := gives_of_strict standard evalLeft evalRight rfl
    (Arithmetic.apply_ints nonzero) (Arithmetic.ints_of_not_dvd notDvd)
  floorDiv_zero zero := by
    subst zero
    exact fails_of_strict standard evalLeft evalRight rfl Value.floorDiv_int_zero
  floorDiv nonzero := by
    obtain ⟨q, floor, fits, value, applied, exact⟩ := Value.floorDiv_ints (a := a) nonzero
    exact ⟨q, floor, fits, gives_of_strict standard evalLeft evalRight rfl applied exact⟩
  steps nonzero exact := ⟨toInt_div exact, Int64.toInt_mod a b, toInt_div_sub_one nonzero⟩

end Operators

theorem integer_arithmetic_extremes :
    IntegerArithmetic .standard
      ⟨.object [("least", .int Int64.minValue), ("unit", .int (-1))], none⟩
      (.ident "least" false) (.ident "unit" false) Int64.minValue (-1) :=
  integer_arithmetic Grammar.isStandard_standard rfl rfl

section Operators

variable (standard : g.IsStandard) (evalLeft : left.eval g scope = .ok (.int a))
  (evalRight : right.eval g scope = .ok (.int b))
include standard evalLeft evalRight

/-- Remainders and powers are exact as well, but for two cases: the remainder of the least integer
and minus one is a double, as its quotient is, and so are the powers of minus one, zero and one
with an exponent of more than 32 bits. -/
theorem remainders_and_powers : RemaindersAndPowers g scope left right a b where
  rem_zero zero := by
    subst zero
    exact fails_of_strict standard evalLeft evalRight rfl (Arithmetic.apply_ints_zero (.inr rfl))
  rem nonzero exact := by
    obtain ⟨r, result, remainder⟩ := Arithmetic.rem_ints nonzero exact
    exact gives_of_strict standard evalLeft evalRight rfl (Arithmetic.apply_ints nonzero)
      ⟨r, result, remainder⟩
  rem_of_overflows overflow := by
    have nonzero : b ≠ 0 := by
      rw [overflow.2]
      decide
    exact gives_of_strict standard evalLeft evalRight rfl (Arithmetic.apply_ints nonzero)
      (Arithmetic.isFloat_ints_rem overflow)
  pow nonneg short := by
    refine gives_of_strict standard evalLeft evalRight rfl (Value.power_ints nonneg) ?_
    exact Value.isExact_intPower? (short.imp_left fun bits => by omega) _
  pow_of_long long _ := by
    have nonneg : 0 ≤ b.toInt := le_trans (by decide) long
    refine gives_of_strict standard evalLeft evalRight rfl (Value.power_ints nonneg) ?_
    rw [intPower?_eq, if_neg (by omega)]
    exact ⟨_, rfl⟩

end Operators

theorem remainders_and_powers_leastPower :
    RemaindersAndPowers .standard ⟨.object [("base", .int (-2)), ("exponent", .int 63)], none⟩
      (.ident "base" false) (.ident "exponent" false) (-2) 63 :=
  remainders_and_powers Grammar.isStandard_standard rfl rfl

/-- A remainder of zero and a power of one that are not integers. -/
theorem whole_results_not_ints :
    (Expr.binary "%" (.literal (.int Int64.minValue)) (.literal (.int (-1)))).eval .standard
        ⟨.null, none⟩ ≠ .ok (.int 0) ∧
      (Expr.binary "^" (.literal (.int 1)) (.literal (.int 4294967296))).eval .standard
        ⟨.null, none⟩ ≠ .ok (.int 1) := by
  constructor
  · intro whole
    cases whole
  · intro whole
    cases whole

end JsonExpr
