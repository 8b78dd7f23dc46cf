import JsonExpr.Number.Binary64
import Mathlib.Algebra.Order.Field.Power
import Mathlib.Algebra.Order.Ring.Abs
import Mathlib.Data.Rat.Cast.Order
import Mathlib.Tactic.Positivity
import Mathlib.Tactic.Ring

/-!
# Finite doubles as rational numbers

`Binary64.value` is the number that the parts of a double stand for. The parts that
`Binary64.ofFloat?` reads off the bits are those that the operations on doubles work on
(`ofFloat?_eq`), and they are canonical: of all pairs of a mantissa and an exponent with one value
the bits hold the one with the least exponent. Since canonical parts are ordered as exponents
first, the order of doubles is that of their values (`lt_iff_value_lt`, `beq_eq_decide_value`).
-/

namespace JsonExpr.Binary64

open Float.Model (Format UnpackedFloat)
open Float.Model.UnpackedFloat

/-- The number without its sign. -/
def magnitude (x : Binary64) : ℚ :=
  x.mantissa * 2 ^ x.exponent

/-- The number itself. -/
def value (x : Binary64) : ℚ :=
  if x.negative then -x.magnitude else x.magnitude

/-- The number of the other sign. -/
def negate (x : Binary64) : Binary64 :=
  { x with negative := !x.negative }

/-- The mantissa has 53 bits and uses them all, unless the exponent is the least one. -/
structure IsCanonical (x : Binary64) : Prop where
  lt : x.mantissa < 2 ^ 53
  le : -1074 ≤ x.exponent
  full : 2 ^ 52 ≤ x.mantissa ∨ x.exponent = -1074

variable {x y : Binary64}

/-! ## Values and signs -/

theorem magnitude_nonneg (x : Binary64) : 0 ≤ x.magnitude := by
  unfold magnitude
  positivity

theorem magnitude_pos {negative : Bool} {mantissa : ℕ} {exponent : ℤ} (pos : 0 < mantissa) :
    0 < magnitude ⟨negative, mantissa, exponent⟩ := by
  unfold magnitude
  positivity

theorem value_pos {mantissa : ℕ} {exponent : ℤ} (pos : 0 < mantissa) :
    0 < value ⟨false, mantissa, exponent⟩ :=
  magnitude_pos pos

theorem value_neg {mantissa : ℕ} {exponent : ℤ} (pos : 0 < mantissa) :
    value ⟨true, mantissa, exponent⟩ < 0 :=
  neg_neg_of_pos (magnitude_pos pos)

theorem value_zero (negative : Bool) (exponent : ℤ) : value ⟨negative, 0, exponent⟩ = 0 := by
  simp [value, magnitude]

theorem value_le_magnitude (x : Binary64) : x.value ≤ x.magnitude := by
  have nonneg := x.magnitude_nonneg
  unfold value
  split
  · exact (neg_nonpos_of_nonneg nonneg).trans nonneg
  · exact le_rfl

theorem value_negate (x : Binary64) : x.negate.value = -x.value := by
  obtain ⟨negative, mantissa, exponent⟩ := x
  cases negative
  · rfl
  · exact (neg_neg _).symm

theorem IsCanonical.negate (canonical : x.IsCanonical) : x.negate.IsCanonical :=
  ⟨canonical.lt, canonical.le, canonical.full⟩

/-! ## The order of canonical parts -/

/-- A greater exponent outweighs every mantissa of 53 bits. -/
theorem IsCanonical.magnitude_lt (hx : x.IsCanonical) (hy : y.IsCanonical)
    (lt : x.exponent < y.exponent) : x.magnitude < y.magnitude := by
  have full : 2 ^ 52 ≤ y.mantissa :=
    hy.full.resolve_right (ne_of_gt (hx.le.trans_lt lt))
  have bound : (x.mantissa : ℚ) < 2 ^ 53 := by exact_mod_cast hx.lt
  calc x.magnitude < 2 ^ 53 * 2 ^ x.exponent := by
        unfold magnitude
        gcongr
    _ = 2 ^ 52 * 2 ^ (x.exponent + 1) := by
        rw [zpow_add_one₀ (by decide)]
        ring
    _ ≤ y.mantissa * 2 ^ y.exponent := by
        gcongr
        · exact_mod_cast full
        · decide
        · exact lt

theorem compare_magnitude (hx : x.IsCanonical) (hy : y.IsCanonical) :
    (compare x.exponent y.exponent).then (compare x.mantissa y.mantissa) =
      compare x.magnitude y.magnitude := by
  rcases lt_trichotomy x.exponent y.exponent with lt | same | gt
  · rw [compare_lt_iff_lt.2 lt, compare_lt_iff_lt.2 (hx.magnitude_lt hy lt)]
    rfl
  · have unit : (0 : ℚ) < 2 ^ y.exponent := by positivity
    rw [compare_eq_iff_eq.2 same, Ordering.eq_then, magnitude, magnitude, same]
    rcases lt_trichotomy x.mantissa y.mantissa with lt | same | gt
    · rw [compare_lt_iff_lt.2 lt, compare_lt_iff_lt.2]
      gcongr
    · rw [compare_eq_iff_eq.2 same, same, compare_eq_iff_eq.2 rfl]
    · rw [compare_gt_iff_gt.2 gt, compare_gt_iff_gt.2]
      gcongr
  · rw [compare_gt_iff_gt.2 gt, compare_gt_iff_gt.2 (hy.magnitude_lt hx gt)]
    rfl

theorem compare_neg (a b : ℚ) : compare (-a) (-b) = (compare a b).swap := by
  rcases lt_trichotomy a b with lt | same | gt
  · rw [compare_lt_iff_lt.2 lt, compare_gt_iff_gt.2 (neg_lt_neg lt)]
    rfl
  · rw [compare_eq_iff_eq.2 same, compare_eq_iff_eq.2 (congrArg Neg.neg same)]
    rfl
  · rw [compare_gt_iff_gt.2 gt, compare_lt_iff_lt.2 (neg_lt_neg gt)]
    rfl

/-! ## The parts that operations work on -/

/-- The parts of a double as the operations on doubles take it apart. -/
def ofUnpacked? : UnpackedFloat → Option Binary64
  | .zero sign => some ⟨sign == .negative, 0, -1074⟩
  | .finite sign mantissa exponent _ => some ⟨sign == .negative, mantissa, exponent⟩
  | .infinity _ | .notANumber => none

theorem ofUnpacked?_zero (sign : Sign) :
    ofUnpacked? (.zero sign) = some ⟨sign == .negative, 0, -1074⟩ := rfl

theorem ofUnpacked?_finite (sign : Sign) {mantissa : ℕ} (exponent : ℤ) (pos : 0 < mantissa) :
    ofUnpacked? (.finite sign mantissa exponent pos) =
      some ⟨sign == .negative, mantissa, exponent⟩ := rfl

/-- The order of two doubles is that of the numbers. The signs decide first, and of two numbers of
one sign the magnitudes. -/
theorem compare_eq_compare_value {u v : UnpackedFloat} (hu : ofUnpacked? u = some x)
    (hv : ofUnpacked? v = some y) (hx : x.IsCanonical) (hy : y.IsCanonical) :
    u.compare v = some (compare x.value y.value) := by
  have less (h : x.value < y.value) : some .lt = some (compare x.value y.value) :=
    congrArg some (compare_lt_iff_lt.2 h).symm
  have greater (h : y.value < x.value) : some .gt = some (compare x.value y.value) :=
    congrArg some (compare_gt_iff_gt.2 h).symm
  have order := compare_magnitude hx hy
  match u, v with
  | .zero s, .zero s' =>
    cases hu
    cases hv
    exact congrArg some (compare_eq_iff_eq.2 ((value_zero _ _).trans (value_zero _ _).symm)).symm
  | .zero s, .finite .positive m e pos =>
    cases hu
    cases hv
    exact less ((value_zero _ _).trans_lt (value_pos pos))
  | .zero s, .finite .negative m e pos =>
    cases hu
    cases hv
    exact greater ((value_neg pos).trans_eq (value_zero _ _).symm)
  | .finite .positive m e pos, .zero s =>
    cases hu
    cases hv
    exact greater ((value_zero _ _).trans_lt (value_pos pos))
  | .finite .negative m e pos, .zero s =>
    cases hu
    cases hv
    exact less ((value_neg pos).trans_eq (value_zero _ _).symm)
  | .finite .positive m e pos, .finite .positive m' e' pos' =>
    cases hu
    cases hv
    exact congrArg some order
  | .finite .positive m e pos, .finite .negative m' e' pos' =>
    cases hu
    cases hv
    exact greater ((value_neg pos').trans (value_pos pos))
  | .finite .negative m e pos, .finite .positive m' e' pos' =>
    cases hu
    cases hv
    exact less ((value_neg pos).trans (value_pos pos'))
  | .finite .negative m e pos, .finite .negative m' e' pos' =>
    cases hu
    cases hv
    exact congrArg some ((congrArg Ordering.swap order).trans (compare_neg _ _).symm)

theorem ofUnpacked?_neg {u : UnpackedFloat} (hu : ofUnpacked? u = some x) :
    ofUnpacked? u.neg = some x.negate := by
  match u with
  | .zero sign =>
    cases hu
    cases sign <;> rfl
  | .finite sign mantissa exponent pos =>
    cases hu
    cases sign <;> rfl

/-! ## Reading the bits -/

theorem finite_congr {sign : Sign} {m m' : ℕ} {e e' : ℤ} {pos : 0 < m} {pos' : 0 < m'}
    (mantissa : m = m') (exponent : e = e') :
    UnpackedFloat.finite sign m e pos = .finite sign m' e' pos' := by
  subst mantissa exponent
  rfl

section Bits

variable (bits : BitVec Format.binary64.numBits)

theorem toNat_unpackExponent :
    (unpackExponent bits).toNat = bits.toNat >>> 52 % (1 <<< 11) := by
  simp [unpackExponent]

theorem toNat_unpackMantissa :
    (unpackMantissa bits).toNat = bits.toNat % (1 <<< 52) := by
  simp [unpackMantissa]

theorem toNat_unpackSign : (unpackSign bits).toNat = bits.toNat >>> 63 := by
  have bound : bits.toNat < 2 ^ 64 := bits.isLt
  change bits.toNat >>> 63 % 2 ^ 1 = bits.toNat >>> 63
  rw [Nat.shiftRight_eq_div_pow]
  omega

theorem ofBitVec_unpackSign :
    (Sign.ofBitVec (unpackSign bits) == .negative) = decide (1 <<< 63 ≤ bits.toNat) := by
  have bound : bits.toNat < 2 ^ 64 := bits.isLt
  have top := toNat_unpackSign bits
  rw [Nat.shiftRight_eq_div_pow] at top
  unfold Sign.ofBitVec
  by_cases high : 1 <<< 63 ≤ bits.toNat
  · have one : unpackSign bits ≠ 0#1 := by
      intro zero
      rw [zero, BitVec.toNat_ofNat, Nat.zero_mod] at top
      omega
    rw [if_neg one, decide_eq_true high]
    rfl
  · have zero : unpackSign bits = 0#1 := by
      apply BitVec.eq_of_toNat_eq
      rw [top, BitVec.toNat_ofNat]
      omega
    rw [if_pos zero, decide_eq_false high]
    rfl

theorem toNat_append_one (fraction : BitVec 52) :
    (1#1 ++ fraction).toNat = 1 <<< 52 + fraction.toNat := by
  rw [BitVec.toNat_append, ← Nat.shiftLeft_add_eq_or_of_lt fraction.isLt]
  rfl

variable {bits} in
/-- What is taken apart, by the three fields of the bits. -/
theorem unpack_eq {sign : Sign} {biased : BitVec 11} {fraction : BitVec 52}
    (signs : Sign.ofBitVec (unpackSign bits) = sign) (exponents : unpackExponent bits = biased)
    (mantissas : unpackMantissa bits = fraction) :
    unpack Format.binary64 bits =
      if biased = -1#_ then
        if fraction = 0#_ then .infinity sign else .notANumber
      else if biased = 0#_ then
        if some : fraction = 0#_ then .zero sign
        else .finite sign fraction.toNat (-1074)
          (by simpa [BitVec.toNat_pos, BitVec.pos_iff_ne_zero])
      else .finite sign (1 <<< 52 + fraction.toNat) (biased.toNat - 1075) (by omega) := by
  subst signs exponents mantissas
  refine ite_congr rfl (fun _ => rfl) fun _ => ite_congr rfl (fun zero => ?_) fun _ => ?_
  · exact dite_congr rfl (fun _ => rfl) fun _ => finite_congr rfl (by rw [zero]; rfl)
  · exact finite_congr (toNat_append_one _) rfl

end Bits

theorem ofFloat?_eq (x : Float) : ofFloat? x = ofUnpacked? x.toModel.unpack := by
  have taken : x.toModel.unpack = unpack Format.binary64 x.toModel.toBits.toBitVec := rfl
  unfold ofFloat? Float.toBits
  rw [taken, unpack_eq rfl rfl rfl]
  generalize x.toModel.toBits = bits
  have sign := ofBitVec_unpackSign bits.toBitVec
  have biased := toNat_unpackExponent bits.toBitVec
  have fraction := toNat_unpackMantissa bits.toBitVec
  have ones : @unpackExponent Format.binary64 bits.toBitVec = -1#_ ↔
      bits.toNat >>> 52 % (1 <<< 11) = 2047 := by
    rw [← BitVec.toNat_inj, biased]
    rfl
  have zeros : @unpackExponent Format.binary64 bits.toBitVec = 0#_ ↔
      bits.toNat >>> 52 % (1 <<< 11) = 0 := by
    rw [← BitVec.toNat_inj, biased]
    rfl
  have empty : @unpackMantissa Format.binary64 bits.toBitVec = 0#_ ↔
      bits.toNat % (1 <<< 52) = 0 := by
    rw [← BitVec.toNat_inj, fraction]
    rfl
  by_cases infinite : bits.toNat >>> 52 % (1 <<< 11) = 2047
  · refine (if_pos infinite).trans ?_
    rw [if_pos (ones.2 infinite)]
    split <;> rfl
  · refine (if_neg infinite).trans ?_
    rw [if_neg (mt ones.1 infinite)]
    by_cases small : bits.toNat >>> 52 % (1 <<< 11) = 0
    · rw [if_pos small, if_pos (zeros.2 small)]
      by_cases none : bits.toNat % (1 <<< 52) = 0
      · rw [dif_pos (empty.2 none), ofUnpacked?_zero, sign, none]
        rfl
      · rw [dif_neg (mt empty.1 none), ofUnpacked?_finite, sign, fraction]
        rfl
    · rw [if_neg small, if_neg (mt zeros.1 small), ofUnpacked?_finite, sign, biased, fraction]
      rfl

/-- The parts of a double are canonical, with a bounded exponent. -/
theorem isCanonical_of_ofFloat? {f : Float} (finite : ofFloat? f = some x) :
    x.IsCanonical ∧ x.exponent ≤ 971 := by
  unfold ofFloat? at finite
  dsimp only at finite
  generalize f.toBits.toNat = bits at finite
  have fraction : bits % (1 <<< 52) < 2 ^ 52 := Nat.mod_lt _ (by decide)
  have biased : bits >>> 52 % (1 <<< 11) < 2 ^ 11 := Nat.mod_lt _ (by decide)
  split at finite
  · cases finite
  · split at finite
    · cases finite
      exact ⟨⟨by simp only; omega, by simp, .inr rfl⟩, by simp⟩
    · cases finite
      refine ⟨⟨?_, ?_, .inl ?_⟩, ?_⟩ <;> simp only [Nat.shiftLeft_eq] at * <;> omega

/-! ## Writing the bits -/

section Packing

variable (sign : Sign) (biased : BitVec 11) (fraction : BitVec 52)

theorem sign_packComponents :
    Sign.ofBitVec (unpackSign (packComponents Format.binary64 sign biased fraction)) = sign := by
  have bit : unpackSign (packComponents Format.binary64 sign biased fraction) = sign.toBitVec := by
    change (sign.toBitVec ++ biased ++ fraction).extractLsb' 63 1 = sign.toBitVec
    rw [BitVec.extractLsb'_append_eq_of_le (by decide),
      BitVec.extractLsb'_append_eq_of_le (by decide)]
    cases sign <;> rfl
  rw [bit]
  cases sign <;> rfl

theorem unpack_pack_zero : (Float.Model.pack (.zero sign)).unpack = .zero sign := by
  cases sign <;> rfl

end Packing

section Finite

variable {sign : Sign} {m : ℕ} {e : ℤ} (pos : 0 < m)

theorem unpack_pack_normal (high : 2 ^ 52 ≤ m) (lt : m < 2 ^ 53) (least : -1074 ≤ e)
    (le : e ≤ 971) :
    (Float.Model.pack (.finite sign m e pos)).unpack = .finite sign m e pos := by
  have log : m.log2 + 1 = 53 := by rw [(Nat.log2_eq_iff pos.ne').2 ⟨high, lt⟩]
  have finite : ¬2 ^ 11 ≤ (e + 1023 + 52).toNat + 1 := by omega
  have packed : pack Format.binary64 (.finite sign m e pos) =
      packComponents Format.binary64 sign (BitVec.ofNat 11 (e + 1023 + 52).toNat)
        (BitVec.ofNat 52 m) := by
    unfold pack
    exact (if_neg finite).trans (if_pos log)
  have biased : (BitVec.ofNat 11 (e + 1023 + 52).toNat).toNat = (e + 1075).toNat := by
    rw [BitVec.toNat_ofNat]
    omega
  have fraction : (BitVec.ofNat 52 m).toNat = m - 2 ^ 52 := by
    rw [BitVec.toNat_ofNat]
    omega
  have notOnes : BitVec.ofNat 11 (e + 1023 + 52).toNat ≠ -1#11 := by
    intro ones
    have all : (e + 1075).toNat = 2047 := biased.symm.trans (congrArg BitVec.toNat ones)
    omega
  have notZero : BitVec.ofNat 11 (e + 1023 + 52).toNat ≠ 0#11 := by
    intro zero
    have none : (e + 1075).toNat = 0 := biased.symm.trans (congrArg BitVec.toNat zero)
    omega
  change unpack Format.binary64 (pack Format.binary64 (.finite sign m e pos)) = _
  rw [packed, unpack_eq (sign_packComponents ..) unpackExponent_packComponents
    unpackMantissa_packComponents, if_neg notOnes, if_neg notZero]
  exact finite_congr (by rw [fraction]; omega) (by rw [biased]; omega)

theorem unpack_pack_subnormal (lt : m < 2 ^ 52) :
    (Float.Model.pack (.finite sign m (-1074) pos)).unpack = .finite sign m (-1074) pos := by
  have log : ¬m.log2 + 1 = 53 := by
    have bits := (Nat.log2_lt pos.ne').2 lt
    omega
  have packed : pack Format.binary64 (.finite sign m (-1074) pos) =
      packComponents Format.binary64 sign 0#11 (BitVec.ofNat 52 m) := by
    unfold pack
    exact (if_neg (by decide)).trans (if_neg log)
  have fraction : (BitVec.ofNat 52 m).toNat = m := by
    rw [BitVec.toNat_ofNat]
    omega
  have notZero : BitVec.ofNat 52 m ≠ 0#52 := by
    intro zero
    have none : m = 0 := fraction.symm.trans (congrArg BitVec.toNat zero)
    omega
  change unpack Format.binary64 (pack Format.binary64 (.finite sign m (-1074) pos)) = _
  rw [packed, unpack_eq (sign_packComponents ..) unpackExponent_packComponents
    unpackMantissa_packComponents, if_neg (by decide), if_pos rfl, dif_neg notZero]
  exact finite_congr fraction rfl

/-- A canonical number whose exponent is not too great is not changed by packing. -/
theorem unpack_pack_finite (canonical : IsCanonical ⟨sign == .negative, m, e⟩) (le : e ≤ 971) :
    (Float.Model.pack (.finite sign m e pos)).unpack = .finite sign m e pos := by
  by_cases high : 2 ^ 52 ≤ m
  · exact unpack_pack_normal pos high canonical.lt canonical.le le
  · obtain rfl : e = -1074 := canonical.full.resolve_left high
    exact unpack_pack_subnormal pos (not_le.1 high)

end Finite

theorem ofFloat?_pack {u : UnpackedFloat} (hu : ofUnpacked? u = some x)
    (canonical : x.IsCanonical) (le : x.exponent ≤ 971) :
    ofFloat? (.ofModel (.pack u)) = some x := by
  rw [ofFloat?_eq]
  match u with
  | .zero sign =>
    rw [unpack_pack_zero]
    exact hu
  | .finite sign m e pos =>
    cases hu
    rw [unpack_pack_finite pos canonical le]
    rfl

/-! ## Operations on doubles -/

section Float

variable {f g : Float} (hf : ofFloat? f = some x) (hg : ofFloat? g = some y)
include hf

theorem ofFloat?_neg : ofFloat? (-f) = some x.negate := by
  have bounds := isCanonical_of_ofFloat? hf
  rw [ofFloat?_eq] at hf
  exact ofFloat?_pack (ofUnpacked?_neg hf) bounds.1.negate bounds.2

include hg

theorem compare_unpack :
    f.toModel.unpack.compare g.toModel.unpack = some (compare x.value y.value) := by
  have canonical := (isCanonical_of_ofFloat? hf).1
  have canonical' := (isCanonical_of_ofFloat? hg).1
  rw [ofFloat?_eq] at hf hg
  exact compare_eq_compare_value hf hg canonical canonical'

theorem lt_iff_value_lt : f < g ↔ x.value < y.value := by
  have order := compare_unpack hf hg
  have holds : f < g ↔ f.toModel.unpack.compare g.toModel.unpack = some .lt := by
    refine (decide_eq_true_iff (p := f.toModel < g.toModel)).trans ?_
    exact beq_iff_eq
  rw [holds, order, Option.some.injEq, compare_lt_iff_lt]

theorem beq_eq_decide_value : (f == g) = decide (x.value = y.value) := by
  have order := compare_unpack hf hg
  have holds : (f == g) = (f.toModel.unpack.compare g.toModel.unpack == some .eq) := rfl
  rw [holds, order, Bool.eq_iff_iff, beq_iff_eq, Option.some.injEq, compare_eq_iff_eq,
    decide_eq_true_iff]

end Float

end JsonExpr.Binary64
