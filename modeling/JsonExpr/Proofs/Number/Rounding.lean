import JsonExpr.Number.Binary64
import JsonExpr.Proofs.Number.Doubles
import Mathlib.Tactic.FieldSimp
import Mathlib.Tactic.Linarith

/-!
# Integers as doubles

An integer becomes the nearest double. Rounding shifts the mantissa to the right and keeps two bits
of what is shifted out; `Rounding.Holds` says which number such a mantissa stands for, and every
shift keeps it. So the rounded mantissa is at most a half away, and no double is nearer
(`Rounding.nearest_of_near`). `nearest_toInt` is the result for the integers of the language.
-/

namespace JsonExpr

open Float.Model (Format UnpackedFloat)
open Float.Model.UnpackedFloat

namespace Binary64

/-- No double is nearer to the number. -/
structure IsNearest (x : Binary64) (v : ℚ) : Prop where
  canonical : x.IsCanonical
  le : ∀ y : Binary64, y.IsCanonical → |x.value - v| ≤ |y.value - v|

namespace IsNearest

variable {x y : Binary64} {v w : ℚ}

theorem negate (nearest : x.IsNearest v) : x.negate.IsNearest (-v) := by
  refine ⟨nearest.canonical.negate, fun y canonical => ?_⟩
  have mirrored (z : Binary64) : |z.value - -v| = |z.negate.value - v| := by
    rw [value_negate, ← abs_neg]
    congr 1
    ring
  have closest := nearest.le y.negate canonical.negate
  rw [mirrored, mirrored, value_negate x.negate, value_negate x, neg_neg]
  exact closest

/-- A number that is a double is its own nearest one. -/
theorem value_eq (nearest : x.IsNearest y.value) (canonical : y.IsCanonical) :
    x.value = y.value := by
  have closest := nearest.le y canonical
  rw [sub_self, abs_zero] at closest
  exact sub_eq_zero.1 (abs_nonpos_iff.1 closest)

/-- A double that is not above the number is not above its nearest one either. -/
theorem le_value (nearest : x.IsNearest v) (canonical : y.IsCanonical) (le : y.value ≤ v) :
    y.value ≤ x.value := by
  have closest := nearest.le y canonical
  rw [abs_of_nonpos (sub_nonpos.2 le)] at closest
  linarith only [closest, neg_le_abs (x.value - v)]

/-- Rounding keeps the order: were it turned around, the middle of the two doubles would be at
most `v` and at least `w`. -/
theorem value_le (hx : x.IsNearest v) (hy : y.IsNearest w) (lt : v < w) : x.value ≤ y.value := by
  by_contra! turned
  have above : x.value + y.value ≤ 2 * v := by
    have closest := sq_le_sq.2 (hx.le y hy.canonical)
    nlinarith only [closest, turned]
  have below : 2 * w ≤ x.value + y.value := by
    have closest := sq_le_sq.2 (hy.le x hx.canonical)
    nlinarith only [closest, turned]
  linarith only [above, below, lt]

end IsNearest

end Binary64

namespace Rounding

/-! ## Mantissas with two more bits -/

/-- The mantissa with its two bits stands for the number: the bits say whether it is the mantissa,
or which side of the half it is on. -/
def Holds (em : ExtendedMantissa) (w : ℚ) : Prop :=
  match em.roundBit, em.stickyBit with
  | false, false => w = em.mantissa
  | false, true => em.mantissa < w ∧ w < em.mantissa + 1 / 2
  | true, false => w = em.mantissa + 1 / 2
  | true, true => em.mantissa + 1 / 2 < w ∧ w < em.mantissa + 1

theorem holds_exact (mantissa : ℕ) :
    Holds (.ofMantissaAndAccuracy mantissa .exact) mantissa := rfl

theorem Holds.shiftRightOne {em : ExtendedMantissa} {w : ℚ} (h : Holds em w) :
    Holds em.shiftRightOne (w / 2) := by
  obtain ⟨mantissa, round, sticky⟩ := em
  have half : (mantissa : ℚ) = (mantissa % 2 : ℕ) + 2 * (mantissa / 2 : ℕ) := by
    exact_mod_cast (Nat.mod_add_div mantissa 2).symm
  rcases Nat.mod_two_eq_zero_or_one mantissa with even | odd
  · rw [even] at half
    cases round <;> cases sticky <;>
      simp only [Holds, ExtendedMantissa.shiftRightOne, even] at h ⊢ <;>
      norm_num at h half ⊢ <;> grind
  · rw [odd] at half
    cases round <;> cases sticky <;>
      simp only [Holds, ExtendedMantissa.shiftRightOne, odd] at h ⊢ <;>
      norm_num at h half ⊢ <;> grind

theorem Holds.shiftRight {em : ExtendedMantissa} {w : ℚ} (h : Holds em w) (count : ℕ) :
    Holds (em >>> count) (w / 2 ^ count) := by
  change Holds (count.repeat ExtendedMantissa.shiftRightOne em) _
  induction count with
  | zero => simpa [Nat.repeat] using h
  | succ count ih =>
    rw [Nat.repeat, pow_succ, ← div_div]
    exact ih.shiftRightOne

theorem Holds.abs_sub_le {em : ExtendedMantissa} {w : ℚ} (h : Holds em w) :
    |(em.roundedMantissa : ℚ) - w| ≤ 1 / 2 := by
  obtain ⟨mantissa, round, sticky⟩ := em
  rw [abs_le]
  cases round <;> cases sticky <;>
    simp only [Holds, ExtendedMantissa.roundedMantissa, ExtendedMantissa.accuracy,
      Accuracy.roundToNearestEven] at h ⊢
  · constructor <;> linarith
  · constructor <;> linarith
  · -- A tie goes to the even side, which is a half away on either side.
    have parity : ((mantissa % 2 : ℕ) : ℚ) ≤ 1 := by
      exact_mod_cast Nat.le_of_lt_succ (Nat.mod_lt _ (by decide))
    have nonneg : (0 : ℚ) ≤ ((mantissa % 2 : ℕ) : ℚ) := Nat.cast_nonneg _
    push_cast at *
    constructor <;> linarith
  · push_cast
    constructor <;> linarith

/-! ## The exponent of the result -/

variable {mantissa : ℕ} {exponent : ℤ}

/-- The least exponent with which the number has at most 53 bits before the point. -/
def target (mantissa : ℕ) (exponent : ℤ) : ℤ :=
  max (mantissa.log2 + 1 + exponent - 53) (-1074)

/-- How far the mantissa is shifted to the right. -/
def shift (mantissa : ℕ) (exponent : ℤ) : ℕ :=
  (target mantissa exponent - exponent).toNat

theorem shiftToTargetExponent_eq (mantissa : ℕ) (exponent : ℤ) :
    shiftToTargetExponent Format.binary64 mantissa exponent .exact =
      (ExtendedMantissa.ofMantissaAndAccuracy mantissa .exact >>> shift mantissa exponent,
        exponent + shift mantissa exponent) := rfl

/-- A mantissa of 53 bits stays as it is. -/
theorem shiftToTargetExponent_of_lt (lt : mantissa < 2 ^ 53) (le : -1074 ≤ exponent) :
    shiftToTargetExponent Format.binary64 mantissa exponent .exact =
      (⟨mantissa, false, false⟩, exponent) := by
  have bits : mantissa.log2 ≤ 52 := by
    by_cases zero : mantissa = 0
    · rw [zero, Nat.log2_zero]
      decide
    · exact Nat.le_of_lt_succ ((Nat.log2_lt zero).2 lt)
  have stays : shift mantissa exponent = 0 := by
    unfold shift target
    omega
  rw [shiftToTargetExponent_eq, stays]
  exact Prod.ext rfl (Int.add_zero exponent)

/-- A carry out of the 53 bits moves to the exponent. -/
theorem shiftToTargetExponent_of_carry (le : -1074 ≤ exponent) :
    shiftToTargetExponent Format.binary64 (2 ^ 53) exponent .exact =
      (⟨2 ^ 52, false, false⟩, exponent + 1) := by
  have moves : shift (2 ^ 53) exponent = 1 := by
    unfold shift target
    rw [Nat.log2_two_pow]
    omega
  rw [shiftToTargetExponent_eq, moves]
  rfl

theorem log2_shiftLeft (pos : 0 < mantissa) (count : ℕ) :
    (mantissa <<< count).log2 = mantissa.log2 + count := by
  induction count with
  | zero => rfl
  | succ count ih =>
    rw [Nat.shiftLeft_succ, Nat.log2_two_mul, ih, Nat.add_assoc]
    rw [Nat.shiftLeft_eq]
    positivity

/-- A shift to the left that the exponent makes up for changes neither the number nor the exponent
of the result. -/
theorem target_shiftLeft (pos : 0 < mantissa) (count : ℕ) :
    target (mantissa <<< count) (exponent - count) = target mantissa exponent := by
  unfold target
  rw [log2_shiftLeft pos]
  omega

theorem value_shiftLeft (negative : Bool) (mantissa : ℕ) (exponent : ℤ) (count : ℕ) :
    Binary64.value ⟨negative, mantissa <<< count, exponent - count⟩ =
      Binary64.value ⟨negative, mantissa, exponent⟩ := by
  have magnitude : Binary64.magnitude ⟨negative, mantissa <<< count, exponent - count⟩ =
      Binary64.magnitude ⟨negative, mantissa, exponent⟩ := by
    unfold Binary64.magnitude
    rw [Nat.shiftLeft_eq, zpow_sub₀ (by decide), zpow_natCast]
    push_cast
    field_simp
  unfold Binary64.value
  rw [magnitude]

/-- Canonical parts are where rounding wants them. -/
theorem target_eq_self {negative : Bool} (pos : 0 < mantissa)
    (canonical : Binary64.IsCanonical ⟨negative, mantissa, exponent⟩) :
    target mantissa exponent = exponent := by
  have most := (Nat.log2_lt pos.ne').2 canonical.lt
  have least : -1074 ≤ exponent := canonical.le
  have full : 2 ^ 52 ≤ mantissa ∨ exponent = -1074 := canonical.full
  rw [← Nat.le_log2 pos.ne'] at full
  unfold target
  omega

section Shifted

variable (le : exponent ≤ target mantissa exponent)
include le

theorem div_mul_target :
    (mantissa : ℚ) / 2 ^ shift mantissa exponent * 2 ^ target mantissa exponent =
      mantissa * 2 ^ exponent := by
  have split : target mantissa exponent = exponent + shift mantissa exponent := by
    unfold shift
    omega
  rw [split, zpow_add₀ (by decide), zpow_natCast]
  field_simp

theorem div_lt_two_pow : (mantissa : ℚ) / 2 ^ shift mantissa exponent < 2 ^ 53 := by
  have bits : mantissa.log2 + 1 ≤ 53 + shift mantissa exponent := by
    unfold shift target at *
    omega
  rw [div_lt_iff₀ (by positivity), ← pow_add]
  exact_mod_cast Nat.lt_log2_self.trans_le (Nat.pow_le_pow_right (by decide) bits)

theorem two_pow_le_div (pos : 0 < mantissa) (normal : target mantissa exponent ≠ -1074) :
    2 ^ 52 ≤ (mantissa : ℚ) / 2 ^ shift mantissa exponent := by
  have bits : 52 + shift mantissa exponent = mantissa.log2 := by
    unfold shift target at *
    omega
  rw [le_div_iff₀ (by positivity), ← pow_add, bits]
  exact_mod_cast Nat.log2_self_le pos.ne'

end Shifted

/-! ## The rounded number is the nearest -/

theorem abs_sub_le_of_int {w : ℚ} {r : ℤ} (near : |r - w| ≤ 1 / 2) (j : ℤ) :
    |r - w| ≤ |j - w| := by
  by_cases same : j = r
  · rw [same]
  · have apart : (1 : ℚ) ≤ |(j : ℚ) - r| := by
      exact_mod_cast Int.one_le_abs (sub_ne_zero.2 same)
    have detour : |(j : ℚ) - r| ≤ |j - w| + |r - w| := by
      rw [abs_sub_comm (r : ℚ) w]
      exact abs_sub_le _ _ _
    linarith

/-- A number is a multiple of every unit that is not greater than its own. -/
theorem exists_value_eq_mul {y : Binary64} {t : ℤ} (le : t ≤ y.exponent) :
    ∃ j : ℤ, y.value = j * 2 ^ t := by
  have split : y.exponent = (y.exponent - t).toNat + t := by omega
  have magnitude : y.magnitude = (y.mantissa * 2 ^ (y.exponent - t).toNat : ℤ) * 2 ^ t := by
    unfold Binary64.magnitude
    rw [split, zpow_add₀ (by decide), zpow_natCast, ← split]
    push_cast
    ring
  unfold Binary64.value
  split
  · exact ⟨-(y.mantissa * 2 ^ (y.exponent - t).toNat), by rw [magnitude]; push_cast; ring⟩
  · exact ⟨_, magnitude⟩

/-- No double is nearer than the rounded mantissa. The doubles with a unit of their own below that
of the result are all below the numbers with 53 bits before the point. -/
theorem abs_sub_le_of_canonical {w : ℚ} {r t : ℤ} (near : |r - w| ≤ 1 / 2)
    (full : 2 ^ 52 ≤ w ∨ t = -1074) {y : Binary64} (canonical : y.IsCanonical) :
    |r * 2 ^ t - w * 2 ^ t| ≤ |y.value - w * 2 ^ t| := by
  have unit : (0 : ℚ) < 2 ^ t := by positivity
  have scale (j : ℤ) : |j * 2 ^ t - w * 2 ^ t| = |j - w| * 2 ^ t := by
    rw [← sub_mul, abs_mul, abs_of_pos unit]
  have least := canonical.le
  rcases le_or_gt t y.exponent with le | lt
  · obtain ⟨j, eq⟩ := exists_value_eq_mul le
    rw [eq, scale, scale]
    exact mul_le_mul_of_nonneg_right (abs_sub_le_of_int near j) unit.le
  · have normal : 2 ^ 52 ≤ w := full.resolve_right (ne_of_gt (least.trans_lt lt))
    have below : y.value < 2 ^ 52 * 2 ^ t := by
      have smallest : Binary64.IsCanonical ⟨false, 2 ^ 52, t⟩ :=
        ⟨by norm_num, least.trans lt.le, .inl le_rfl⟩
      refine y.value_le_magnitude.trans_lt ?_
      exact_mod_cast canonical.magnitude_lt smallest lt
    have above : (2 : ℚ) ^ 52 * 2 ^ t ≤ w * 2 ^ t := by gcongr
    have first := abs_sub_le_of_int near (2 ^ 52)
    rw [Int.cast_pow, Int.cast_ofNat, abs_of_nonpos (by linarith : (2 : ℚ) ^ 52 - w ≤ 0),
      neg_sub] at first
    rw [scale, abs_of_neg (by linarith : y.value - w * 2 ^ t < 0)]
    calc |(r : ℚ) - w| * 2 ^ t ≤ (w - 2 ^ 52) * 2 ^ t := by gcongr
      _ ≤ -(y.value - w * 2 ^ t) := by linarith

theorem nearest_of_near {negative : Bool} {r m : ℕ} {e : ℤ} (pos : 0 < mantissa)
    (le : exponent ≤ target mantissa exponent)
    (near : |(r : ℚ) - mantissa / 2 ^ shift mantissa exponent| ≤ 1 / 2)
    (canonical : Binary64.IsCanonical ⟨negative, m, e⟩)
    (eq : (m : ℚ) * 2 ^ e = r * 2 ^ target mantissa exponent) :
    Binary64.IsNearest ⟨negative, m, e⟩ (Binary64.value ⟨negative, mantissa, exponent⟩) := by
  have full : 2 ^ 52 ≤ (mantissa : ℚ) / 2 ^ shift mantissa exponent ∨
      target mantissa exponent = -1074 :=
    or_iff_not_imp_right.2 (two_pow_le_div le pos)
  have positive : Binary64.IsNearest ⟨false, m, e⟩ (mantissa * 2 ^ exponent) := by
    refine ⟨⟨canonical.lt, canonical.le, canonical.full⟩, fun y canonical => ?_⟩
    have closest := abs_sub_le_of_canonical (r := r) near full canonical
    rw [div_mul_target le, Int.cast_natCast, ← eq] at closest
    exact closest
  cases negative with
  | false => exact positive
  | true => exact positive.negate

section Near

variable {r : ℕ} (le : exponent ≤ target mantissa exponent)
  (near : |(r : ℚ) - mantissa / 2 ^ shift mantissa exponent| ≤ 1 / 2)
include le near

theorem le_two_pow_of_near : r ≤ 2 ^ 53 := by
  have upper := div_lt_two_pow le
  have cast : (r : ℚ) < (2 ^ 53 : ℕ) + 1 := by
    push_cast
    linarith [(abs_le.1 near).2]
  exact Nat.lt_succ_iff.1 (by exact_mod_cast cast)

theorem two_pow_le_of_near (pos : 0 < mantissa) :
    2 ^ 52 ≤ r ∨ target mantissa exponent = -1074 := by
  refine or_iff_not_imp_right.2 fun normal => ?_
  have lower := two_pow_le_div le pos normal
  have cast : ((2 ^ 52 : ℕ) : ℚ) < r + 1 := by
    push_cast
    linarith [(abs_le.1 near).1]
  exact Nat.lt_succ_iff.1 (by exact_mod_cast cast)

end Near

/-- Rounding shifts twice, the second time for a carry of the first. -/
theorem roundWithAccuracy_of_shifts (sign : Sign) {first second : ExtendedMantissa × ℤ}
    (shifted : shiftToTargetExponent Format.binary64 mantissa exponent .exact = first)
    (carried : shiftToTargetExponent Format.binary64 first.1.roundedMantissa first.2 .exact =
      second) :
    roundWithAccuracy Format.binary64 sign mantissa exponent .exact =
      if zero : second.1.mantissa = 0 then .zero sign
      else .finite sign second.1.mantissa second.2 (Nat.pos_of_ne_zero zero) := by
  subst shifted carried
  rfl

/-- What rounding makes of the rounded mantissa: zero, a mantissa of 53 bits, or a carry. -/
theorem roundWithAccuracy_eq (sign : Sign) (le : exponent ≤ target mantissa exponent) {r : ℕ}
    (rounded : (ExtendedMantissa.ofMantissaAndAccuracy mantissa .exact >>>
      shift mantissa exponent).roundedMantissa = r) (bound : r ≤ 2 ^ 53) :
    roundWithAccuracy Format.binary64 sign mantissa exponent .exact =
      if zero : r = 0 then .zero sign
      else if r < 2 ^ 53 then
        .finite sign r (target mantissa exponent) (Nat.pos_of_ne_zero zero)
      else .finite sign (2 ^ 52) (target mantissa exponent + 1) (by decide) := by
  have least : -1074 ≤ target mantissa exponent := le_max_right _ _
  have first : shiftToTargetExponent Format.binary64 mantissa exponent .exact =
      (ExtendedMantissa.ofMantissaAndAccuracy mantissa .exact >>> shift mantissa exponent,
        target mantissa exponent) := by
    have moved : exponent + shift mantissa exponent = target mantissa exponent := by
      unfold shift
      omega
    rw [shiftToTargetExponent_eq, moved]
  rcases bound.lt_or_eq with lt | rfl
  · have second := shiftToTargetExponent_of_lt lt least
    rw [roundWithAccuracy_of_shifts sign first (by rw [rounded, second])]
    exact dite_congr rfl (fun _ => rfl) fun _ => (if_pos lt).symm
  · have second := shiftToTargetExponent_of_carry least
    rw [roundWithAccuracy_of_shifts sign first (by rw [rounded, second])]
    rfl

theorem nearest_roundWithAccuracy (sign : Sign) (pos : 0 < mantissa)
    (le : exponent ≤ target mantissa exponent) :
    ∃ x, Binary64.ofUnpacked?
        (roundWithAccuracy Format.binary64 sign mantissa exponent .exact) = some x ∧
      x.exponent ≤ target mantissa exponent + 1 ∧
      x.IsNearest (Binary64.value ⟨sign == .negative, mantissa, exponent⟩) := by
  generalize rounded : (ExtendedMantissa.ofMantissaAndAccuracy mantissa .exact >>>
    shift mantissa exponent).roundedMantissa = r
  have near : |(r : ℚ) - mantissa / 2 ^ shift mantissa exponent| ≤ 1 / 2 := by
    rw [← rounded]
    exact ((holds_exact mantissa).shiftRight _).abs_sub_le
  have least : -1074 ≤ target mantissa exponent := le_max_right _ _
  have bound := le_two_pow_of_near le near
  rw [roundWithAccuracy_eq sign le rounded bound]
  by_cases zero : r = 0
  · rw [dif_pos zero]
    refine ⟨_, rfl, ?_, nearest_of_near pos le near ⟨by norm_num, le_rfl, .inr rfl⟩ ?_⟩
    · exact least.trans (by omega)
    · rw [zero, Nat.cast_zero, zero_mul, zero_mul]
  · rw [dif_neg zero]
    by_cases lt : r < 2 ^ 53
    · rw [if_pos lt]
      have full := two_pow_le_of_near le near pos
      refine ⟨_, rfl, ?_, nearest_of_near pos le near ⟨lt, least, full⟩ rfl⟩
      exact (lt_add_one _).le
    · rw [if_neg lt]
      obtain rfl : r = 2 ^ 53 := le_antisymm bound (not_lt.1 lt)
      have canonical : Binary64.IsCanonical
          ⟨sign == .negative, 2 ^ 52, target mantissa exponent + 1⟩ :=
        ⟨by norm_num, least.trans (lt_add_one _).le, .inl le_rfl⟩
      refine ⟨_, rfl, le_rfl, nearest_of_near pos le near canonical ?_⟩
      rw [zpow_add_one₀ (by decide)]
      push_cast
      ring

/-- Rounding after a shift to the left. -/
theorem nearest_shiftLeft (sign : Sign) (pos : 0 < mantissa) {count : ℕ}
    (le : exponent - count ≤ target mantissa exponent) :
    ∃ x, Binary64.ofUnpacked? (roundWithAccuracy Format.binary64 sign (mantissa <<< count)
        (exponent - count) .exact) = some x ∧
      x.exponent ≤ target mantissa exponent + 1 ∧
      x.IsNearest (Binary64.value ⟨sign == .negative, mantissa, exponent⟩) := by
  have shifted : 0 < mantissa <<< count := by
    rw [Nat.shiftLeft_eq]
    positivity
  have same : target (mantissa <<< count) (exponent - count) = target mantissa exponent :=
    target_shiftLeft pos count
  rw [← value_shiftLeft _ _ _ count, ← same]
  exact nearest_roundWithAccuracy sign shifted (le.trans_eq same.symm)

theorem nearest_round (sign : Sign) (pos : 0 < mantissa) (exponent : ℤ) :
    ∃ x, Binary64.ofUnpacked? (round Format.binary64 sign mantissa exponent) = some x ∧
      x.exponent ≤ target mantissa exponent + 1 ∧
      x.IsNearest (Binary64.value ⟨sign == .negative, mantissa, exponent⟩) := by
  have le : exponent - ((exponent - target mantissa exponent).toNat : ℕ) ≤
      target mantissa exponent := by omega
  exact nearest_shiftLeft sign pos le

/-! ## Integers -/

/-- The double `1.0`. -/
def one : Float :=
  .ofBits 0x3FF0000000000000

/-- A product with `1.0` is rounded as well, and stays the same number. -/
theorem value_mul_one {f : Float} {x : Binary64} (hf : Binary64.ofFloat? f = some x)
    (le : x.exponent ≤ 970) :
    ∃ y, Binary64.ofFloat? (f * one) = some y ∧ y.IsCanonical ∧ y.value = x.value := by
  have canonical := (Binary64.isCanonical_of_ofFloat? hf).1
  have unit : one.toModel.unpack = .finite .positive (2 ^ 52) (-52) (by decide) := rfl
  have product : f * one =
      .ofModel (.pack (mul Format.binary64 f.toModel.unpack one.toModel.unpack)) := rfl
  have sign_mul (sign : Sign) : sign * .positive = sign := by
    cases sign <;> rfl
  rw [Binary64.ofFloat?_eq] at hf
  rw [product, unit]
  generalize f.toModel.unpack = u at hf
  match u with
  | .zero sign =>
    cases hf
    refine ⟨_, Binary64.ofFloat?_pack ?_ canonical (le.trans (by decide)), canonical, rfl⟩
    change Binary64.ofUnpacked? (.zero (sign * .positive)) = _
    rw [sign_mul]
    rfl
  | .finite sign m e pos =>
    cases hf
    have fits : target m e = e := target_eq_self pos canonical
    have room : e - (52 : ℕ) ≤ target m e := by omega
    obtain ⟨y, rounded, bound, nearest⟩ := nearest_shiftLeft sign pos room
    refine ⟨y, Binary64.ofFloat?_pack ?_ nearest.canonical ?_, nearest.canonical,
      nearest.value_eq canonical⟩
    · change Binary64.ofUnpacked? (roundWithAccuracy Format.binary64 (sign * .positive)
        (m * 2 ^ 52) (e - (52 : ℕ)) .exact) = _
      rw [sign_mul, ← Nat.shiftLeft_eq]
      exact rounded
    · rw [fits] at bound
      exact bound.trans (add_le_add_left le 1)

theorem normalize_of_pos {n : ℕ} (pos : 0 < n) :
    UnpackedFloat.normalize Format.binary64 n 0 .positive =
      round Format.binary64 .positive n 0 := by
  unfold UnpackedFloat.normalize
  rw [compare_gt_iff_gt.2 (Int.natCast_pos.2 pos)]
  rfl

theorem ofNat_of_lt {n : ℕ} (pos : 0 < n) (lt : n < 2 ^ 53) :
    Float.ofNat n = .ofModel (.pack (round Format.binary64 .positive n 0)) * one := by
  have small : n.toUInt64.toNat = n := Nat.mod_eq_of_lt (lt.trans (by decide))
  change Float.ofScientific n false 0 = _
  unfold Float.ofScientific
  rw [dif_pos ⟨lt, by decide⟩]
  change Float.ofModel
    (.pack (UnpackedFloat.normalize Format.binary64 n.toUInt64.toNat 0 .positive)) * one = _
  rw [small, normalize_of_pos pos]

theorem ofScientific_zero {n : ℕ} (pos : 0 < n) :
    ofScientific Format.binary64 n 0 =
      roundWithAccuracy Format.binary64 .positive (n <<< 53) (0 - (53 : ℕ)) .exact := by
  have notSmall : ¬(0 : ℤ) < -(2 ^ Format.binary64.exponentBits + n.log2) := by
    have nonneg : (0 : ℤ) ≤ 2 ^ Format.binary64.exponentBits := by decide
    omega
  unfold ofScientific
  rw [dif_neg pos.ne', if_neg (by decide), if_neg notSmall, if_pos le_rfl]
  change roundWithAccuracy Format.binary64 .positive (n <<< 53 * 1) (-(53 : ℕ) + 0) .exact = _
  rw [Nat.mul_one, Int.add_zero, Int.zero_sub]

theorem ofNat_of_le {n : ℕ} (le : 2 ^ 53 ≤ n) :
    Float.ofNat n = .ofModel (.pack
      (roundWithAccuracy Format.binary64 .positive (n <<< 53) (0 - (53 : ℕ)) .exact)) := by
  have slow : Float.ofNat n = .ofModel (.pack (ofScientific Format.binary64 n 0)) :=
    dif_neg fun small => absurd small.1 (not_lt.2 le)
  rw [slow, ofScientific_zero (by omega)]

theorem nearest_ofNat {n : ℕ} (le : n ≤ 2 ^ 63) :
    ∃ x, Binary64.ofFloat? (Float.ofNat n) = some x ∧ x.IsNearest n := by
  have number : Binary64.value ⟨false, n, 0⟩ = n := by
    simp [Binary64.value, Binary64.magnitude]
  rcases Nat.eq_zero_or_pos n with rfl | pos
  · refine ⟨⟨false, 0, -1074⟩, rfl, ⟨by norm_num, le_rfl, .inr rfl⟩, fun y _ => ?_⟩
    rw [Binary64.value_zero, Nat.cast_zero, sub_self, abs_zero]
    exact abs_nonneg _
  have small : target n 0 ≤ 11 := by
    have bits := (Nat.log2_lt pos.ne').2 (le.trans_lt (by decide : 2 ^ 63 < 2 ^ 64))
    unfold target
    omega
  rw [← number]
  rcases lt_or_ge n (2 ^ 53) with lt | ge
  · obtain ⟨x, rounded, bound, nearest⟩ := nearest_round .positive pos 0
    have finite := Binary64.ofFloat?_pack rounded nearest.canonical (by omega)
    obtain ⟨y, product, canonical, same⟩ := value_mul_one finite (by omega)
    rw [ofNat_of_lt pos lt, product]
    exact ⟨y, rfl, canonical, fun z => same ▸ nearest.le z⟩
  · have room : 0 - (53 : ℕ) ≤ target n 0 := by
      unfold target
      omega
    obtain ⟨x, rounded, bound, nearest⟩ := nearest_shiftLeft .positive pos room
    rw [ofNat_of_le ge, Binary64.ofFloat?_pack rounded nearest.canonical (by omega)]
    exact ⟨x, rfl, nearest⟩

theorem nearest_floatOfInt {n : ℤ} (le : |n| ≤ 2 ^ 63) :
    ∃ x, Binary64.ofFloat? (floatOfInt n) = some x ∧ x.IsNearest n := by
  have bound : n.natAbs ≤ 2 ^ 63 := by
    rw [Int.abs_eq_natAbs] at le
    exact_mod_cast le
  obtain ⟨x, finite, nearest⟩ := nearest_ofNat bound
  unfold floatOfInt
  split
  · rename_i negative
    have cast : (n : ℚ) = -(n.natAbs : ℚ) := by
      rw [Nat.cast_natAbs, abs_of_neg negative, Int.cast_neg, neg_neg]
    exact ⟨_, Binary64.ofFloat?_neg finite, cast ▸ nearest.negate⟩
  · rename_i nonneg
    have cast : (n : ℚ) = (n.natAbs : ℚ) := by
      rw [Nat.cast_natAbs, abs_of_nonneg (not_lt.1 nonneg)]
    exact ⟨x, finite, cast ▸ nearest⟩

/-- An integer of the language becomes the nearest double. -/
theorem nearest_toInt (n : Int64) :
    ∃ x, Binary64.ofFloat? (floatOfInt n.toInt) = some x ∧ x.IsNearest n.toInt := by
  have low := n.le_toInt
  have high := n.toInt_lt
  exact nearest_floatOfInt (abs_le.2 (by omega))

theorem value_of_int (n : ℤ) : Binary64.value ⟨decide (n < 0), n.natAbs, 0⟩ = n := by
  unfold Binary64.value Binary64.magnitude
  simp only [decide_eq_true_eq, zpow_zero, mul_one, Nat.cast_natAbs]
  split
  · rename_i negative
    rw [abs_of_neg negative, Int.cast_neg, neg_neg]
  · rename_i nonneg
    rw [abs_of_nonneg (not_lt.1 nonneg)]

/-- Integers of 53 bits are doubles. -/
theorem exists_canonical {n : ℤ} (lt : |n| < 2 ^ 53) :
    ∃ x : Binary64, x.IsCanonical ∧ x.value = n := by
  rcases eq_or_ne n 0 with rfl | nonzero
  · exact ⟨⟨false, 0, -1074⟩, ⟨by norm_num, le_rfl, .inr rfl⟩, by simp [Binary64.value_zero]⟩
  have pos : n.natAbs ≠ 0 := Int.natAbs_ne_zero.2 nonzero
  have bits : n.natAbs.log2 ≤ 52 := by
    refine Nat.le_of_lt_succ ((Nat.log2_lt pos).2 ?_)
    rw [Int.abs_eq_natAbs] at lt
    exact_mod_cast lt
  have filled : (n.natAbs <<< (52 - n.natAbs.log2)).log2 = 52 := by
    rw [log2_shiftLeft (Nat.pos_of_ne_zero pos)]
    omega
  have shifted : n.natAbs <<< (52 - n.natAbs.log2) ≠ 0 := by
    intro zero
    rw [zero, Nat.log2_zero] at filled
    cases filled
  have range := (Nat.log2_eq_iff shifted).1 filled
  refine ⟨⟨decide (n < 0), n.natAbs <<< (52 - n.natAbs.log2), 0 - (52 - n.natAbs.log2 : ℕ)⟩,
    ⟨range.2, ?_, .inl range.1⟩, ?_⟩
  · simp only
    omega
  · rw [value_shiftLeft, value_of_int]

/-- Only zero becomes zero: from one on, the nearest double is at least one. -/
theorem value_eq_zero_iff {n : ℤ} {x : Binary64} (nearest : x.IsNearest n) :
    x.value = 0 ↔ n = 0 := by
  obtain ⟨unit, canonical, one⟩ := exists_canonical (n := 1) (by norm_num)
  rw [Int.cast_one] at one
  rcases lt_trichotomy n 0 with negative | rfl | positive
  · have above : unit.value ≤ -n := by
      rw [one]
      exact_mod_cast Int.le_neg_of_le_neg (Int.le_sub_one_of_lt negative)
    have far := nearest.negate.le_value canonical above
    rw [Binary64.value_negate, one] at far
    exact iff_of_false (by linarith only [far]) negative.ne
  · obtain ⟨zero, canonical, same⟩ := exists_canonical (n := 0) (by norm_num)
    rw [← same] at nearest
    exact iff_of_true ((nearest.value_eq canonical).trans (same.trans Int.cast_zero)) rfl
  · have above : unit.value ≤ n := by
      rw [one]
      exact_mod_cast positive
    have far := nearest.le_value canonical above
    rw [one] at far
    exact iff_of_false (by linarith only [far]) positive.ne'

end Rounding

end JsonExpr
