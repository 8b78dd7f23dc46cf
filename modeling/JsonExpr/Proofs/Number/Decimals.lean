import JsonExpr.Number.Decimal96
import JsonExpr.Proofs.Number.Doubles

/-!
# Decimals without a fraction

An integer becomes a decimal of scale zero, and so does a double that is a whole number of at most
95 bits: the powers of two in its exponent are cleared away without a remainder
(`exists_ofBinary64?`). On such decimals the operations are those on integers, as long as the result
has 96 bits, and a quotient is one without a remainder.
-/

namespace JsonExpr

/-- The integer of that sign and magnitude. -/
def signedInt (negative : Bool) (m : ℕ) : ℤ :=
  if negative then -(m : ℤ) else m

section Signed

variable (s t : Bool) (m k : ℕ)

theorem natAbs_signedInt : (signedInt s m).natAbs = m := by
  cases s
  · exact Int.natAbs_natCast m
  · exact (Int.natAbs_neg _).trans (Int.natAbs_natCast m)

theorem signedInt_natAbs (n : ℤ) : signedInt (n < 0) n.natAbs = n := by
  unfold signedInt
  simp only [decide_eq_true_eq]
  split <;> omega

theorem signedInt_eq_zero_iff : signedInt s m = 0 ↔ m = 0 := by
  rw [← Int.natAbs_eq_zero, natAbs_signedInt]

theorem neg_signedInt : -signedInt s m = signedInt (!s) m := by
  cases s
  · rfl
  · exact Int.neg_neg _

theorem signedInt_mul : signedInt s m * signedInt t k = signedInt (s != t) (m * k) := by
  cases s <;> cases t <;> simp [signedInt]

theorem signedInt_tdiv : (signedInt s m).tdiv (signedInt t k) = signedInt (s != t) (m / k) := by
  cases s <;> cases t <;> simp [signedInt, Int.neg_tdiv, Int.tdiv_neg]

theorem signedInt_tmod : (signedInt s m).tmod (signedInt t k) = signedInt s (m % k) := by
  cases s <;> cases t <;> simp [signedInt, Int.neg_tmod, Int.tmod_neg, Int.tmod_eq_emod_of_nonneg]

end Signed

namespace Decimal96

/-- The decimal is that integer, written without a fraction. -/
structure IsInt (x : Decimal96) (n : ℤ) : Prop where
  scale : x.scale = 0
  signed : signedInt x.negative x.mantissa = n

variable {x y : Decimal96} {p q : ℤ}

theorem limit_eq : limit = 2 ^ 96 := rfl

theorem IsInt.natAbs_eq (h : x.IsInt p) : p.natAbs = x.mantissa := by
  rw [← h.signed, natAbs_signedInt]

theorem IsInt.mantissa_eq_zero_iff (h : x.IsInt p) : x.mantissa = 0 ↔ p = 0 := by
  rw [← h.natAbs_eq, Int.natAbs_eq_zero]

theorem IsInt.aligned_eq (h : x.IsInt p) : x.aligned 0 = x.mantissa :=
  (congrArg (fun scale => x.mantissa * Text.tenPow (0 - scale)) h.scale).trans (Nat.mul_one _)

theorem IsInt.signed_eq (h : x.IsInt p) : x.signed 0 = p := by
  unfold Decimal96.signed
  rw [h.aligned_eq]
  exact h.signed

/-- Where nothing stands behind the point, the integer is read back. -/
theorem IsInt.toInt?_eq (h : x.IsInt p) : x.toInt? = some p := by
  have unit : Text.tenPow x.scale = 1 := congrArg Text.tenPow h.scale
  unfold toInt?
  rw [unit, if_pos (Nat.mod_one _), Nat.div_one]
  exact congrArg some h.signed

theorem isInt_zero : zero.IsInt 0 := ⟨rfl, rfl⟩

theorem isInt_ofInt (n : ℤ) : (ofInt n).IsInt n :=
  ⟨rfl, signedInt_natAbs n⟩

theorem IsInt.neg (h : x.IsInt p) : x.neg.IsInt (-p) where
  scale := h.scale
  signed := by rw [← h.signed, neg_signedInt]; rfl

/-! ## Operations -/

theorem divEven_one (n : ℕ) : divEven n 1 = n := by
  unfold divEven
  simp only [Nat.div_one, Nat.mod_one]
  rfl

theorem surplus?_zero (m : ℕ) : surplus? m 0 0 = if m < limit then some 0 else none := by
  have unit : m / Text.tenPow 0 = m := Nat.div_one m
  unfold surplus?
  rw [show List.range (0 + 1) = [0] from rfl, List.find?_cons, unit]
  by_cases small : m < limit <;> simp [small]

/-- Without digits to drop, a mantissa is in range or there is no result. -/
theorem fit?_zero (negative : Bool) (m : ℕ) :
    fit? negative m 0 0 = if m < limit then some ⟨negative, m, 0⟩ else none := by
  unfold fit?
  rw [surplus?_zero]
  by_cases small : m < limit
  · have kept : divEven m (Text.tenPow 0) = m := divEven_one m
    rw [if_pos small, if_pos small, Option.bind_eq_bind, Option.bind_some]
    simp only [kept, if_pos small]
  · rw [if_neg small, if_neg small]
    rfl

theorem IsInt.add? (hx : x.IsInt p) (hy : y.IsInt q) (small : (p + q).natAbs < limit) :
    ∃ z, x.add? y = some z ∧ z.IsInt (p + q) := by
  unfold Decimal96.add?
  split
  · rename_i zero
    rw [hx.mantissa_eq_zero_iff.1 zero, zero_add]
    exact ⟨y, rfl, hy⟩
  · split
    · rename_i zero
      rw [hy.mantissa_eq_zero_iff.1 zero, add_zero]
      exact ⟨x, rfl, hx⟩
    · simp only [hx.scale, hy.scale, max_self, hx.signed_eq, hy.signed_eq]
      rw [fit?_zero, if_pos small]
      exact ⟨_, rfl, rfl, signedInt_natAbs _⟩

theorem IsInt.sub? (hx : x.IsInt p) (hy : y.IsInt q) (small : (p - q).natAbs < limit) :
    ∃ z, x.sub? y = some z ∧ z.IsInt (p - q) := by
  rw [Int.sub_eq_add_neg] at small ⊢
  exact hx.add? hy.neg small

/-- A product has 96 bits or is none. -/
theorem IsInt.mul?_eq (hx : x.IsInt p) (hy : y.IsInt q) :
    (p * q).natAbs < limit ∧ (∃ z, x.mul? y = some z ∧ z.IsInt (p * q)) ∨
      limit ≤ (p * q).natAbs ∧ x.mul? y = none := by
  have magnitude : (p * q).natAbs = x.mantissa * y.mantissa := by
    rw [Int.natAbs_mul, hx.natAbs_eq, hy.natAbs_eq]
  unfold Decimal96.mul?
  split
  · rename_i zero
    rw [hx.mantissa_eq_zero_iff, hy.mantissa_eq_zero_iff] at zero
    rw [mul_eq_zero.2 zero]
    exact .inl ⟨by decide, _, rfl, isInt_zero⟩
  · simp only [hx.scale, hy.scale]
    rw [magnitude, Nat.add_zero, Nat.zero_sub, fit?_zero]
    by_cases small : x.mantissa * y.mantissa < limit
    · rw [if_pos small]
      refine .inl ⟨small, _, rfl, rfl, ?_⟩
      rw [← hx.signed, ← hy.signed, signedInt_mul]
    · rw [if_neg small]
      exact .inr ⟨not_lt.1 small, rfl⟩

theorem IsInt.div? (hx : x.IsInt p) (hy : y.IsInt q) (nonzero : q ≠ 0) (dvd : q ∣ p) :
    ∃ z, x.div? y = some z ∧ z.IsInt (p / q) := by
  have exact : x.mantissa % y.mantissa = 0 := by
    rw [← hx.natAbs_eq, ← hy.natAbs_eq]
    exact Nat.mod_eq_zero_of_dvd (Int.natAbs_dvd_natAbs.2 dvd)
  unfold Decimal96.div?
  rw [if_neg (mt hy.mantissa_eq_zero_iff.1 nonzero)]
  split
  · rename_i zero
    rw [hx.mantissa_eq_zero_iff.1 zero, Int.zero_ediv]
    exact ⟨_, rfl, isInt_zero⟩
  · simp only [hx.scale, hy.scale, exact]
    -- Nothing remains, so the division is over before it appends a digit.
    refine ⟨⟨x.negative != y.negative, x.mantissa / y.mantissa, 0⟩, rfl, rfl, ?_⟩
    rw [← Int.tdiv_eq_ediv_of_dvd dvd, ← hx.signed, ← hy.signed, signedInt_tdiv]

theorem IsInt.rem? (hx : x.IsInt p) (hy : y.IsInt q) (nonzero : q ≠ 0) :
    ∃ z, x.rem? y = some z ∧ z.IsInt (p.tmod q) := by
  have remainder : signedInt x.negative (x.mantissa % y.mantissa) = p.tmod q := by
    rw [← hx.signed, ← hy.signed, signedInt_tmod]
  unfold Decimal96.rem?
  simp only [hx.scale, hy.scale, max_self, hx.aligned_eq, hy.aligned_eq]
  rw [if_neg (mt hy.mantissa_eq_zero_iff.1 nonzero)]
  split
  · rename_i none
    have zero : x.mantissa % y.mantissa = 0 := by
      rcases none with zero | same
      · rw [zero, Nat.zero_mod]
      · rw [same, Nat.mod_self]
    rw [← remainder, zero, (signedInt_eq_zero_iff _ _).2 rfl]
    exact ⟨_, rfl, isInt_zero⟩
  · split
    · rename_i less
      rw [Nat.mod_eq_of_lt less] at remainder
      exact ⟨x, rfl, hx.scale, remainder⟩
    · exact ⟨_, rfl, rfl, remainder⟩

/-! ## Whole doubles -/

theorem clearHalves_mul_two_pow (m : ℕ) (exponent : ℤ) (count : ℕ) :
    Draft.clearHalves ⟨m * 2 ^ count, exponent⟩ count = ⟨m, exponent + count⟩ := by
  induction count generalizing exponent with
  | zero => simp [Draft.clearHalves]
  | succ count ih =>
    have even : m * 2 ^ (count + 1) % 2 = 0 := by
      rw [Nat.pow_succ, ← Nat.mul_assoc, Nat.mul_mod_left]
    have half : m * 2 ^ (count + 1) / 2 = m * 2 ^ count := by
      rw [Nat.pow_succ, ← Nat.mul_assoc, Nat.mul_div_cancel _ Nat.two_pos]
    rw [Draft.clearHalves]
    simp only [if_pos even, half]
    rw [ih, Nat.cast_succ, add_assoc, add_comm (1 : ℤ)]

theorem clearDoubles?_of_lt {m : ℕ} (exponent : ℤ) (count : ℕ) (room : m * 2 ^ count < 2 ^ 95) :
    Draft.clearDoubles? ⟨m, exponent⟩ count = some ⟨m * 2 ^ count, exponent - count⟩ := by
  induction count generalizing m exponent with
  | zero => simp [Draft.clearDoubles?]
  | succ count ih =>
    have small : m < 1 <<< 95 := (Nat.le_mul_of_pos_right m (Nat.two_pow_pos _)).trans_lt room
    have doubled : m * 2 ^ (count + 1) = 2 * m * 2 ^ count := by ring
    rw [doubled] at room ⊢
    rw [Draft.clearDoubles?]
    simp only [if_pos small]
    rw [ih _ room, Nat.cast_succ, sub_sub, add_comm (1 : ℤ)]

section Whole

variable {d : Binary64} {n : ℤ}

theorem magnitude_eq_natAbs (whole : d.value = n) : d.magnitude = n.natAbs := by
  have nonneg := d.magnitude_nonneg
  rw [Nat.cast_natAbs, Int.cast_abs, ← whole, Binary64.value]
  split
  · rw [abs_neg, abs_of_nonneg nonneg]
  · rw [abs_of_nonneg nonneg]

theorem signedInt_of_value (whole : d.value = n) : signedInt d.negative n.natAbs = n := by
  have magnitude := magnitude_eq_natAbs whole
  rw [Binary64.value, magnitude, Nat.cast_natAbs] at whole
  unfold signedInt
  rw [Int.natCast_natAbs]
  split
  · rename_i negative
    rw [if_pos negative] at whole
    exact_mod_cast whole
  · rename_i positive
    rw [if_neg positive] at whole
    exact_mod_cast whole

/-- The powers of two in a whole double are cleared away without a remainder. -/
theorem clear_of_whole (whole : d.value = n) (small : n.natAbs < 2 ^ 95) :
    (Draft.clearHalves ⟨d.mantissa, d.exponent⟩ (-d.exponent).toNat).clearDoubles?
      d.exponent.toNat = some ⟨n.natAbs, 0⟩ := by
  obtain ⟨negative, mantissa, exponent⟩ := d
  have magnitude : (mantissa : ℚ) * 2 ^ exponent = n.natAbs := magnitude_eq_natAbs whole
  rcases Int.eq_nat_or_neg exponent with ⟨count, rfl | rfl⟩
  · have product : mantissa * 2 ^ count = n.natAbs := by
      rw [zpow_natCast] at magnitude
      exact_mod_cast magnitude
    have none : (-(count : ℤ)).toNat = 0 := by omega
    simp only [none, Int.toNat_natCast, Draft.clearHalves]
    rw [clearDoubles?_of_lt _ _ (product ▸ small), product, Int.sub_self]
  · have product : mantissa = n.natAbs * 2 ^ count := by
      rw [zpow_neg, zpow_natCast, ← div_eq_mul_inv, div_eq_iff (by positivity)] at magnitude
      exact_mod_cast magnitude
    have none : (-(count : ℤ)).toNat = 0 := by omega
    simp only [none, neg_neg, Int.toNat_natCast, product]
    rw [clearHalves_mul_two_pow, Int.add_left_neg]
    rfl

/-- A whole double becomes the decimal that is the integer. -/
theorem exists_ofBinary64? (whole : d.value = n) (small : n.natAbs < 2 ^ 95) :
    ∃ x, ofBinary64? d = some x ∧ x.IsInt n := by
  unfold ofBinary64?
  split
  · rename_i zero
    have none : n.natAbs = 0 := by
      have magnitude := magnitude_eq_natAbs whole
      rw [Binary64.magnitude, zero, Nat.cast_zero, zero_mul] at magnitude
      exact_mod_cast magnitude.symm
    rw [Int.natAbs_eq_zero.1 none]
    exact ⟨_, rfl, isInt_zero⟩
  · simp only [clear_of_whole whole small]
    exact ⟨⟨d.negative, n.natAbs, 0⟩, rfl, rfl, signedInt_of_value whole⟩

end Whole

end Decimal96

end JsonExpr
