import JsonExpr.Proofs.Number.Rounding
import JsonExpr.Proofs.Operators

/-!
# Comparisons of numbers

The operators `<`, `<=`, `>` and `>=` take an integer for the nearest double, and so does `==` as
soon as one side is a double; two integers it compares as they are. Rounding keeps the order but
not the difference: the comparisons are those of the numbers exactly as long as the two do not fall
together (`comparisons_of_numbers`), as numbers of 53 bits never do (`compares_of_lt`).
-/

namespace JsonExpr

namespace Value

/-- The number that an integer or a finite double is. -/
def number? : Value → Option ℚ
  | .int n => some n.toInt
  | .float x => (Binary64.ofFloat? x).map Binary64.value
  | _ => none

/-- The number that is compared in its place. -/
def rounded? (value : Value) : Option ℚ :=
  (value.asFloat?.bind Binary64.ofFloat?).map Binary64.value

/-- The two values are integers. -/
def areInts : Value → Value → Bool
  | .int _, .int _ => true
  | _, _ => false

variable {a b : Value} {p q x y : ℚ}

/-- Every number is compared as a double that is nearest to it. -/
theorem exists_nearest (number : a.number? = some p) :
    ∃ f parts, a.asFloat? = some f ∧ Binary64.ofFloat? f = some parts ∧ parts.IsNearest p := by
  match a with
  | .int n =>
    cases number
    obtain ⟨parts, finite, nearest⟩ := Rounding.nearest_toInt n
    exact ⟨_, parts, rfl, finite, nearest⟩
  | .float f =>
    obtain ⟨parts, finite, rfl⟩ := Option.map_eq_some_iff.1 number
    refine ⟨f, parts, rfl, finite, (Binary64.isCanonical_of_ofFloat? finite).1, fun y _ => ?_⟩
    rw [sub_self, abs_zero]
    exact abs_nonneg _

theorem exists_rounded (number : a.number? = some p) :
    ∃ x : Binary64, a.rounded? = some x.value ∧ x.IsNearest p := by
  obtain ⟨f, x, double, finite, nearest⟩ := exists_nearest number
  refine ⟨x, ?_, nearest⟩
  rw [rounded?, double, Option.bind_some, finite]
  rfl

theorem exists_canonical_of_float {f : Float} (number : (Value.float f).number? = some p) :
    ∃ x : Binary64, x.IsCanonical ∧ x.value = p := by
  obtain ⟨x, finite, same⟩ := Option.map_eq_some_iff.1 number
  exact ⟨x, (Binary64.isCanonical_of_ofFloat? finite).1, same⟩

/-- A number that is a double is compared as it is. -/
theorem rounded?_of_canonical (number : a.number? = some p)
    (double : ∃ y : Binary64, y.IsCanonical ∧ y.value = p) : a.rounded? = some p := by
  obtain ⟨x, rounded, nearest⟩ := exists_rounded number
  obtain ⟨y, canonical, rfl⟩ := double
  rw [rounded, nearest.value_eq canonical]

/-- Integers of 53 bits are doubles, and doubles anyway. -/
theorem rounded?_of_lt (number : a.number? = some p) (lt : |p| < 2 ^ 53) :
    a.rounded? = some p := by
  refine rounded?_of_canonical number ?_
  match a with
  | .int n =>
    cases number
    exact Rounding.exists_canonical (by exact_mod_cast lt)
  | .float f => exact exists_canonical_of_float number

/-- Equal numbers are compared as equal ones. -/
theorem rounded?_congr (numberLeft : a.number? = some p) (numberRight : b.number? = some p) :
    a.rounded? = b.rounded? := by
  cases b with
  | float g =>
    have double := exists_canonical_of_float numberRight
    rw [rounded?_of_canonical numberLeft double, rounded?_of_canonical numberRight double]
  | int m =>
    cases a with
    | float f =>
      have double := exists_canonical_of_float numberLeft
      rw [rounded?_of_canonical numberLeft double, rounded?_of_canonical numberRight double]
    | int n =>
      have same : n.toInt = m.toInt := by
        exact_mod_cast Option.some.inj (numberLeft.trans numberRight.symm)
      rw [Int64.toInt_inj.1 same]
    | _ => cases numberLeft
  | _ => cases numberRight

theorem rounded_le (numberLeft : a.number? = some p) (numberRight : b.number? = some q)
    (roundedLeft : a.rounded? = some x) (roundedRight : b.rounded? = some y) (lt : p < q) :
    x ≤ y := by
  obtain ⟨_, left, nearestLeft⟩ := exists_rounded numberLeft
  obtain ⟨_, right, nearestRight⟩ := exists_rounded numberRight
  cases left.symm.trans roundedLeft
  cases right.symm.trans roundedRight
  exact nearestLeft.value_le nearestRight lt

theorem compareFloats?_eq {f g : Float} {x y : Binary64} (hf : Binary64.ofFloat? f = some x)
    (hg : Binary64.ofFloat? g = some y) : compareFloats? f g = some (compare x.value y.value) := by
  unfold compareFloats?
  rw [Binary64.beq_eq_decide_value hf hg]
  simp only [Binary64.lt_iff_value_lt hf hg, Binary64.lt_iff_value_lt hg hf, decide_eq_true_eq]
  rcases lt_trichotomy x.value y.value with lt | same | gt
  · rw [if_pos lt, compare_lt_iff_lt.2 lt]
  · rw [if_neg same.not_lt, if_neg same.not_gt, if_pos same, compare_eq_iff_eq.2 same]
  · rw [if_neg gt.not_gt, if_pos gt, compare_gt_iff_gt.2 gt]

theorem compare?_eq (numberLeft : a.number? = some p) (numberRight : b.number? = some q)
    (roundedLeft : a.rounded? = some x) (roundedRight : b.rounded? = some y) :
    compare? a b = some (compare x y) := by
  obtain ⟨x, left, rfl⟩ := Option.map_eq_some_iff.1 roundedLeft
  obtain ⟨y, right, rfl⟩ := Option.map_eq_some_iff.1 roundedRight
  match a, b with
  | .int n, .int m | .int n, .float g | .float f, .int m | .float f, .float g =>
    exact compareFloats?_eq left right

theorem looseEq_eq (numberLeft : a.number? = some p) (numberRight : b.number? = some q)
    (roundedLeft : a.rounded? = some x) (roundedRight : b.rounded? = some y) :
    looseEq a b = decide (if areInts a b then p = q else x = y) := by
  obtain ⟨x, left, rfl⟩ := Option.map_eq_some_iff.1 roundedLeft
  obtain ⟨y, right, rfl⟩ := Option.map_eq_some_iff.1 roundedRight
  match a, b with
  | .int n, .int m =>
    cases numberLeft
    cases numberRight
    have same : looseEq (.int n) (.int m) = decide ((n.toInt : ℚ) = m.toInt) := by
      rw [looseEq, Bool.eq_iff_iff, beq_iff_eq, decide_eq_true_iff, Int.cast_inj, Int64.toInt_inj]
    exact same
  | .int n, .float g | .float f, .int m | .float f, .float g =>
    exact Binary64.beq_eq_decide_value left right

end Value

/-- The comparisons of two operands are those of the numbers; equality is given apart. -/
structure Compares (g : Grammar) (scope : Scope) (left right : Expr) (p q : ℚ) (equal : Prop)
    [Decidable equal] : Prop where
  lt : (Expr.binary "<" left right).eval g scope = .ok (.bool (decide (p < q)))
  eq : (Expr.binary "==" left right).eval g scope = .ok (.bool (decide equal))
  gt : (Expr.binary ">" left right).eval g scope = .ok (.bool (decide (q < p)))
  le : (Expr.binary "<=" left right).eval g scope = .ok (.bool (decide (p ≤ q)))
  ge : (Expr.binary ">=" left right).eval g scope = .ok (.bool (decide (q ≤ p)))

variable {g : Grammar} {scope : Scope} {left right : Expr} {a b : Value} {p q : ℚ}

section Compares

variable {x y : ℚ} {equal equal' : Prop} [Decidable equal] [Decidable equal']
  (h : Compares g scope left right x y equal)
include h

theorem Compares.congr (less : x < y ↔ p < q) (same : equal ↔ equal') (greater : y < x ↔ q < p) :
    Compares g scope left right p q equal' where
  lt := by rw [h.lt, decide_eq_decide.2 less]
  eq := by rw [h.eq, decide_eq_decide.2 same]
  gt := by rw [h.gt, decide_eq_decide.2 greater]
  le := by rw [h.le, decide_eq_decide.2 (le_iff_le_iff_lt_iff_lt.2 greater)]
  ge := by rw [h.ge, decide_eq_decide.2 (le_iff_le_iff_lt_iff_lt.2 less)]

/-- The comparisons tell which of two pairs of numbers are equal ones. -/
theorem Compares.eq_of_eq (other : Compares g scope left right p q equal') (same : x = y) :
    p = q := by
  have lt : decide (x < y) = decide (p < q) :=
    Value.bool.inj (Except.ok.inj (Run.done.inj (h.lt.symm.trans other.lt)))
  have gt : decide (y < x) = decide (q < p) :=
    Value.bool.inj (Except.ok.inj (Run.done.inj (h.gt.symm.trans other.gt)))
  rw [decide_eq_decide] at lt gt
  exact le_antisymm (not_lt.1 (mt gt.2 same.not_gt)) (not_lt.1 (mt lt.2 same.not_lt))

end Compares

theorem compares_rounded (standard : g.IsStandard) (evalLeft : left.eval g scope = .ok a)
    (evalRight : right.eval g scope = .ok b) (numberLeft : a.number? = some p)
    (numberRight : b.number? = some q) {x y : ℚ} (roundedLeft : a.rounded? = some x)
    (roundedRight : b.rounded? = some y) :
    Compares g scope left right x y (if a.areInts b then p = q else x = y) := by
  have order := Value.compare?_eq numberLeft numberRight roundedLeft roundedRight
  have ordered (symbol : String) (accepts : Ordering → Bool)
      (listed : BuiltIn.ofSymbol? symbol = some (.test (Value.ordered accepts))) :
      (Expr.binary symbol left right).eval g scope = .ok (.bool (accepts (compare x y))) := by
    rw [standard.eval_strict listed evalLeft evalRight, Value.ordered, order]
    rfl
  have equality : BuiltIn.ofSymbol? "==" = some (.test Value.looseEq) := rfl
  constructor
  · rw [ordered "<" (· == .lt) rfl]
    congr 2
    rw [Bool.eq_iff_iff, beq_iff_eq, compare_lt_iff_lt, decide_eq_true_iff]
  · rw [standard.eval_strict equality evalLeft evalRight,
      Value.looseEq_eq numberLeft numberRight roundedLeft roundedRight]
    rfl
  · rw [ordered ">" (· == .gt) rfl]
    congr 2
    rw [Bool.eq_iff_iff, beq_iff_eq, compare_gt_iff_gt, decide_eq_true_iff]
  · rw [ordered "<=" (· != .gt) rfl]
    congr 2
    rw [Bool.eq_iff_iff, bne_iff_ne, compare_le_iff_le, decide_eq_true_iff]
  · rw [ordered ">=" (· != .lt) rfl]
    congr 2
    rw [Bool.eq_iff_iff, bne_iff_ne, compare_ge_iff_ge, decide_eq_true_iff]

/-- Numbers of 53 bits are compared as they are. -/
theorem compares_of_lt (standard : g.IsStandard) (evalLeft : left.eval g scope = .ok a)
    (evalRight : right.eval g scope = .ok b) (numberLeft : a.number? = some p)
    (numberRight : b.number? = some q) (smallLeft : |p| < 2 ^ 53) (smallRight : |q| < 2 ^ 53) :
    Compares g scope left right p q (p = q) := by
  have compared := compares_rounded standard evalLeft evalRight numberLeft numberRight
    (Value.rounded?_of_lt numberLeft smallLeft) (Value.rounded?_of_lt numberRight smallRight)
  exact compared.congr Iff.rfl (by rw [ite_self]) Iff.rfl

/-- Numbers that stay apart, or are equal, keep their order when they are rounded. -/
theorem Value.rounded_order (numberLeft : a.number? = some p) (numberRight : b.number? = some q)
    {x y : ℚ} (roundedLeft : a.rounded? = some x) (roundedRight : b.rounded? = some y)
    (apart : x = y → p = q) : (x < y ↔ p < q) ∧ (x = y ↔ p = q) ∧ (y < x ↔ q < p) := by
  have up := Value.rounded_le numberLeft numberRight roundedLeft roundedRight
  have down := Value.rounded_le numberRight numberLeft roundedRight roundedLeft
  have same (eq : p = q) : x = y := by
    subst eq
    exact Option.some.inj (roundedLeft.symm.trans
      ((Value.rounded?_congr numberLeft numberRight).trans roundedRight))
  rcases lt_trichotomy p q with lt | eq | gt
  · have less : x < y := (up lt).lt_of_ne fun eq => lt.ne (apart eq)
    exact ⟨iff_of_true less lt, iff_of_false less.ne lt.ne, iff_of_false less.not_gt lt.not_gt⟩
  · exact ⟨iff_of_false (same eq).not_lt eq.not_lt, iff_of_true (same eq) eq,
      iff_of_false (same eq).not_gt eq.not_gt⟩
  · have greater : y < x := (down gt).lt_of_ne fun eq => gt.ne (apart eq.symm).symm
    exact ⟨iff_of_false greater.not_gt gt.not_gt, iff_of_false greater.ne' gt.ne',
      iff_of_true greater gt⟩

/-- Two numbers are compared as the doubles that are nearest to them, and two integers on equality
as they are. So the comparisons are those of the numbers if and only if different numbers have
different doubles. -/
theorem comparisons_of_numbers (standard : g.IsStandard) (evalLeft : left.eval g scope = .ok a)
    (evalRight : right.eval g scope = .ok b) (numberLeft : a.number? = some p)
    (numberRight : b.number? = some q) :
    ∃ x y : Binary64, x.IsNearest p ∧ y.IsNearest q ∧
      Compares g scope left right x.value y.value
        (if a.areInts b then p = q else x.value = y.value) ∧
      (Compares g scope left right p q (p = q) ↔ (x.value = y.value → p = q)) := by
  obtain ⟨x, roundedLeft, nearestLeft⟩ := Value.exists_rounded numberLeft
  obtain ⟨y, roundedRight, nearestRight⟩ := Value.exists_rounded numberRight
  have compared := compares_rounded standard evalLeft evalRight numberLeft numberRight roundedLeft
    roundedRight
  refine ⟨x, y, nearestLeft, nearestRight, compared, compared.eq_of_eq, fun apart => ?_⟩
  obtain ⟨less, same, greater⟩ :=
    Value.rounded_order numberLeft numberRight roundedLeft roundedRight apart
  refine compared.congr less ?_ greater
  split
  · rfl
  · exact same

theorem comparisons_of_numbers_mixed :
    ∃ x y : Binary64, x.IsNearest 3 ∧ y.IsNearest (5 / 2) ∧
      Compares .standard ⟨.null, none⟩ (.literal (.int 3)) (.literal (.float 2.5)) x.value y.value
        (x.value = y.value) ∧
      (Compares .standard ⟨.null, none⟩ (.literal (.int 3)) (.literal (.float 2.5)) 3 (5 / 2)
          ((3 : ℚ) = 5 / 2) ↔ (x.value = y.value → (3 : ℚ) = 5 / 2)) := by
  have whole : (Value.int 3).number? = some 3 := rfl
  have half : (Value.float 2.5).number? = some (5 / 2) := by
    have parts : Binary64.ofFloat? 2.5 = some ⟨false, 5629499534213120, -51⟩ := rfl
    rw [Value.number?, parts]
    norm_num [Binary64.value, Binary64.magnitude]
  exact comparisons_of_numbers Grammar.isStandard_standard rfl rfl whole half

/-- Two integers that have one double: none is less, and they are not equal either. -/
theorem not_compares_of_collision :
    ¬Compares .standard ⟨.null, none⟩ (.literal (.int 9007199254740993))
      (.literal (.int 9007199254740992)) 9007199254740993 9007199254740992
      ((9007199254740993 : ℚ) = 9007199254740992) := by
  intro compared
  have greater := compared.gt
  rw [decide_eq_true (by norm_num)] at greater
  cases greater

end JsonExpr
