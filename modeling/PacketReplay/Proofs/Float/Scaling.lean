import PacketReplay.Proofs.Float.Rounding

/-!
# Products and quotients

A product is the exact one, rounded to 53 bits, and so is a quotient. That is enough to bound them where a
number is scaled by something that is at least one: the product is infinite only if the exact one is about
as large, and the quotient is not greater than the number.
-/
namespace PacketReplay.Binary64

open Decimal (roundHalfEven)
open Float.Model (UnpackedFloat)
open Float.Model.UnpackedFloat (Sign)

/-! ### The error of rounding -/

/-- Rounding changes a magnitude by at most one part in `2 ^ 53`. -/
theorem roundedMagnitude_near (magnitude : ℕ) :
    2 ^ 53 * roundedMagnitude magnitude ≤ (2 ^ 53 + 1) * magnitude := by
  by_cases coarse : 52 < magnitude.log2
  · have near := (Decimal.roundHalfEven_near magnitude (step magnitude) (step_pos magnitude)).2
    have enough := step_le coarse
    rw [← roundedMagnitude] at near
    omega
  · -- Steps of one unit change nothing.
    have unit : step magnitude = 1 := by
      rw [step, Nat.sub_eq_zero_of_le (not_lt.mp coarse), pow_zero]
    have whole := Decimal.roundHalfEven_of_dvd magnitude 1 Nat.one_pos
    rw [Nat.mul_one] at whole
    rw [roundedMagnitude, unit, whole]
    omega

/-- Half a step more than the greatest finite magnitude. -/
def overflowing : ℕ := (2 ^ 54 - 1) * 2 ^ (reach - 1)

theorem two_mul_overflowing : 2 * overflowing = (2 ^ 54 - 1) * 2 ^ reach := by
  have half : (2 : ℕ) ^ reach = 2 * 2 ^ (reach - 1) := by
    rw [← pow_succ', Nat.sub_add_cancel (by decide)]
  rw [overflowing, half, Nat.mul_left_comm]

theorem overflowing_lt_bound : overflowing < bound := by
  have twice : 2 * overflowing < 2 * bound := by
    rw [two_mul_overflowing, bound, ← Nat.mul_assoc]
    exact Nat.mul_lt_mul_of_pos_right (by decide) (Nat.two_pow_pos reach)
  omega

/-- What is below that is rounded to something finite. -/
theorem roundedMagnitude_lt_bound {magnitude : ℕ} (below : magnitude < overflowing) :
    roundedMagnitude magnitude < bound := by
  by_cases fewer : roundHalfEven magnitude (step magnitude) < 2 ^ 53
  · have fine : step magnitude ≤ 2 ^ reach := by
      have bits : magnitude < 2 ^ (53 + reach) := by
        rw [pow_add]
        exact below.trans overflowing_lt_bound
      refine Nat.pow_le_pow_right (by decide) ?_
      by_cases zero : magnitude = 0
      · simp [zero]
      · have log := (Nat.log2_lt zero).mpr bits
        omega
    calc roundedMagnitude magnitude
        < 2 ^ 53 * step magnitude := Nat.mul_lt_mul_of_pos_right fewer (step_pos magnitude)
      _ ≤ bound := Nat.mul_le_mul_left _ fine
  · -- Only from half a step on is a rest rounded up to the next power of two, which is below infinity.
    have quotient : magnitude / step magnitude = 2 ^ 53 - 1 := by
      have less := Nat.div_lt_of_lt_mul (Nat.mul_comm _ _ ▸ lt_step magnitude)
      have bounds := (roundHalfEven_bounds magnitude (step magnitude)).2
      omega
    have half : step magnitude ≤ 2 * (magnitude % step magnitude) := by
      rcases roundHalfEven_cases magnitude (step magnitude) with ⟨_, same⟩ | ⟨above, _⟩ | ⟨middle, _⟩
      · rw [same, quotient] at fewer
        exact absurd (by decide) fewer
      · exact above.le
      · exact middle.ge
    have whole := Nat.div_add_mod magnitude (step magnitude)
    rw [quotient] at whole
    have finer : (2 ^ 54 - 1) * step magnitude < (2 ^ 54 - 1) * 2 ^ reach := by
      rw [← two_mul_overflowing]
      clear fewer quotient
      omega
    calc roundedMagnitude magnitude
        ≤ 2 ^ 53 * step magnitude := roundedMagnitude_le magnitude
      _ < bound := Nat.mul_lt_mul_of_pos_left (Nat.lt_of_mul_lt_mul_left finer) (by decide)

/-! ### Numbers that are at least one -/

/-- How many times the least positive number is doubled to be one. -/
def doublings : ℕ := 1074

/-- The units of one. -/
def one : ℕ := 2 ^ doublings

/-- A finite number that is not below one. -/
structure AtLeastOne (value : Float) : Prop where
  finite : value.isFinite = true
  one_le : (one : ℤ) ≤ units value

theorem one_pos : 0 < one := Nat.two_pow_pos doublings

variable {value left right : Float}

/-- The exponent of a number that is at least one is not lower than that of one. -/
theorem magnitude_lt_one {mantissa : ℕ} {exponent : ℤ} (few : mantissa < 2 ^ 53) (small : exponent < -52) :
    magnitude mantissa exponent < one := by
  have fewer : 53 + (exponent + 1074).toNat ≤ doublings := by
    unfold doublings
    omega
  calc magnitude mantissa exponent
      < 2 ^ 53 * 2 ^ (exponent + 1074).toNat := Nat.mul_lt_mul_of_pos_right few (Nat.two_pow_pos _)
    _ = 2 ^ (53 + (exponent + 1074).toNat) := by rw [pow_add]
    _ ≤ one := Nat.pow_le_pow_right (by decide) fewer

/-- Such a number has all 53 bits. -/
theorem AtLeastOne.unpacked (large : AtLeastOne value) :
    ∃ mantissa exponent, ∃ nonzero : 0 < mantissa,
      value.toModel.unpack = .finite .positive mantissa exponent nonzero ∧
        Canonical mantissa exponent ∧ 2 ^ 52 ≤ mantissa ∧ -52 ≤ exponent := by
  obtain ⟨finite, least⟩ := large
  have isNumber : Fits value.toModel.unpack := ((isFinite_iff_units value).mp finite).1
  change value.toModel.unpack.isFinite = true at finite
  rw [units] at least
  have positive := one_pos
  generalize value.toModel.unpack = number at finite isNumber least
  cases number with
  | notANumber | infinity => cases finite
  | zero sign =>
    rw [ofUnpacked_zero] at least
    omega
  | finite sign mantissa exponent nonzero =>
    have some := isNumber.finite.1
    cases sign with
    | negative =>
      simp only [ofUnpacked, Sign.apply] at least
      omega
    | positive =>
      have canonical := isNumber.1
      -- With a lower exponent even the greatest mantissa would stay below one.
      have exponents : -52 ≤ exponent := by
        by_contra small
        have less := magnitude_lt_one canonical.mantissa_lt (not_le.mp small)
        simp only [ofUnpacked, Sign.apply] at least
        omega
      have full := canonical.normal.resolve_right (by omega)
      exact ⟨mantissa, exponent, nonzero, rfl, canonical, full, exponents⟩

/-! ### Opposites -/

theorem neg_units (finite : value.isFinite = true) :
    (-value).isFinite = true ∧ units (-value) = -units value := by
  obtain ⟨isNumber, low, high⟩ := (isFinite_iff_units value).mp finite
  obtain ⟨canonical, negated⟩ := neg_unpacked isNumber.isCanonical
  obtain ⟨fits, clamped⟩ := unpack_pack canonical
  have exact : ofUnpacked value.toModel.unpack.neg = -units value := negated
  rw [exact, clamp_of_le (by omega) (by omega)] at clamped
  have same : units (-value) = -units value := clamped
  exact ⟨(isFinite_iff_units _).mpr ⟨fits, by omega⟩, same⟩

/-! ### Whole numbers -/

/-- The number is a whole number, rounded. -/
structure IsRounded (value : Float) (whole : ℕ) : Prop where
  finite : value.isFinite = true
  units_eq : units value = roundedMagnitude (whole * one)

theorem magnitude_zero (whole : ℕ) : magnitude whole 0 = whole * one := by
  have place : ((0 : ℤ) + 1074).toNat = doublings := rfl
  unfold magnitude one
  rw [place]

theorem isRounded_of_unpacked {number : UnpackedFloat} {whole : ℕ} (small : whole * one < overflowing)
    (unpacked : value.toModel = Float.Model.pack number) (canonical : IsCanonical number)
    (exact : ofUnpacked number = roundedMagnitude (whole * one)) : IsRounded value whole := by
  obtain ⟨fits, clamped⟩ := unpack_pack canonical
  have finite := roundedMagnitude_lt_bound small
  rw [exact, clamp_of_le (by omega) (by omega), ← unpacked] at clamped
  rw [← unpacked] at fits
  have same : units value = roundedMagnitude (whole * one) := clamped
  exact ⟨(isFinite_iff_units _).mpr ⟨fits, by omega⟩, same⟩

/-- The number of a word is the word, rounded. -/
theorem isRounded_toFloat (word : UInt64) : IsRounded word.toFloat word.toNat := by
  have scaled {unit : ℕ} (positive : 0 < unit) : word.toNat * unit < 2 ^ 64 * unit :=
    Nat.mul_lt_mul_of_pos_right word.toNat_lt positive
  have power : 2 ^ 64 * one ≤ 2 ^ (reach - 1) := by
    rw [one, ← pow_add]
    exact Nat.pow_le_pow_right (by decide) (by decide)
  have least : 2 ^ (reach - 1) ≤ overflowing := Nat.le_mul_of_pos_left _ (by decide)
  obtain ⟨canonical, exact⟩ := normalize_apply .positive word.toNat (show (-1074 : ℤ) ≤ 0 by decide)
  rw [magnitude_zero] at exact
  exact isRounded_of_unpacked ((scaled one_pos).trans_le (power.trans least)) rfl canonical exact

namespace IsRounded

variable {whole : ℕ} (rounded : IsRounded value whole)

include rounded

/-- What is not zero is at least one, and rounding keeps it so. -/
theorem atLeastOne (positive : 0 < whole) : AtLeastOne value := by
  refine ⟨rounded.finite, ?_⟩
  have least : roundedMagnitude (1 * one) ≤ roundedMagnitude (whole * one) :=
    roundedMagnitude_mono (Nat.mul_le_mul_right one positive)
  rw [one, roundedMagnitude_of_lt (by decide), Nat.one_mul, ← one] at least
  rw [rounded.units_eq]
  exact Int.ofNat_le.mpr least

theorem nonneg : 0 ≤ units value := by
  rw [rounded.units_eq]
  exact Int.natCast_nonneg _

end IsRounded

/-! ### Products -/

theorem mul_units (first : AtLeastOne left) (second : AtLeastOne right) :
    ∃ exact : ℕ, (exact * one : ℤ) = units left * units right ∧ IsNumber (left * right) ∧
      units (left * right) = clamp (roundedMagnitude exact) := by
  obtain ⟨m, e, nonzero, unpackedLeft, _, full, least⟩ := first.unpacked
  obtain ⟨m', e', nonzero', unpackedRight, _, full', least'⟩ := second.unpacked
  have product : UnpackedFloat.mul .binary64 left.toModel.unpack right.toModel.unpack =
      UnpackedFloat.roundWithAccuracy .binary64 .positive (m * m') (e + e') .exact := by
    rw [unpackedLeft, unpackedRight]
    rfl
  -- The product of two mantissas of 53 bits has bits to be dropped.
  have bits : 104 ≤ (m * m').log2 := by
    rw [Nat.le_log2 (Nat.mul_ne_zero nonzero.ne' nonzero'.ne'), pow_add 2 52 52]
    exact Nat.mul_le_mul full full'
  have fine : e + e' ≤ max (((m * m').log2 : ℤ) + (e + e') - 52) (-1074) := by omega
  obtain ⟨canonical, exact⟩ := roundWithAccuracy_exact .positive (by omega) fine
  obtain ⟨fits, clamped⟩ := unpack_pack canonical
  have exponents : (e + e' + 1074).toNat + doublings = (e + 1074).toNat + (e' + 1074).toNat := by
    unfold doublings
    omega
  refine ⟨magnitude (m * m') (e + e'), ?_, ?_, ?_⟩
  · have whole : magnitude (m * m') (e + e') * one = magnitude m e * magnitude m' e' := by
      rw [magnitude, magnitude, magnitude, one, Nat.mul_assoc, ← pow_add, exponents, pow_add]
      ring
    rw [units, units, unpackedLeft, unpackedRight, ofUnpacked, ofUnpacked, Sign.apply, Sign.apply,
      ← Nat.cast_mul, ← Nat.cast_mul, whole]
  · change Fits (Float.Model.pack (UnpackedFloat.mul .binary64 left.toModel.unpack right.toModel.unpack)).unpack
    rw [product]
    exact fits
  · change ofUnpacked
      (Float.Model.pack (UnpackedFloat.mul .binary64 left.toModel.unpack right.toModel.unpack)).unpack = _
    rw [product, clamped, exact, Sign.apply]

/-- The product of two whole numbers is finite if the exact one is a little less than what overflows: each of
the numbers may have been rounded up by one part in `2 ^ 53`. -/
theorem IsRounded.mul {whole whole' : ℕ} (first : IsRounded left whole) (second : IsRounded right whole')
    (positive : 0 < whole) (positive' : 0 < whole')
    (small : (2 ^ 53 + 1) ^ 2 * (whole * whole' * one) < 2 ^ 106 * overflowing) :
    (left * right).isFinite = true ∧ 0 ≤ units (left * right) := by
  obtain ⟨exact, product, isNumber, clamped⟩ := mul_units (first.atLeastOne positive) (second.atLeastOne positive')
  rw [first.units_eq, second.units_eq, ← Nat.cast_mul, ← Nat.cast_mul, Nat.cast_inj] at product
  have below : exact < overflowing := by
    have near := Nat.mul_le_mul (roundedMagnitude_near (whole * one)) (roundedMagnitude_near (whole' * one))
    apply Nat.lt_of_mul_lt_mul_left (a := 2 ^ 106 * one)
    calc 2 ^ 106 * one * exact = 2 ^ 106 * (exact * one) := by ring
      _ = 2 ^ 53 * roundedMagnitude (whole * one) * (2 ^ 53 * roundedMagnitude (whole' * one)) := by
          rw [product]
          ring
      _ ≤ (2 ^ 53 + 1) * (whole * one) * ((2 ^ 53 + 1) * (whole' * one)) := near
      _ = one * ((2 ^ 53 + 1) ^ 2 * (whole * whole' * one)) := by ring
      _ < one * (2 ^ 106 * overflowing) := Nat.mul_lt_mul_of_pos_left small one_pos
      _ = 2 ^ 106 * one * overflowing := by ring
  have finite := roundedMagnitude_lt_bound below
  rw [clamp_of_le (by omega) (by omega)] at clamped
  exact ⟨(isFinite_iff_units _).mpr ⟨isNumber, by omega⟩, by omega⟩

/-! ### Quotients -/

/-- How `divCore` lines up a dividend: its mantissa is shifted up, and the quotient has the exponent. -/
theorem div_finite {m m' : ℕ} {e e' : ℤ} (nonzero : 0 < m) (nonzero' : 0 < m') {up : ℕ} {target : ℤ}
    (exponent : min (e - e') (max (m.log2 + e - (m'.log2 + e') - 53) (-1074)) = target)
    (shift : (e - e' - target).toNat = up) :
    UnpackedFloat.div .binary64 (.finite .positive m e nonzero) (.finite .positive m' e' nonzero') =
      UnpackedFloat.roundWithAccuracy .binary64 .positive (m * 2 ^ up / m') target
        (UnpackedFloat.accuracyOfFraction (m * 2 ^ up % m') m') := by
  have place : min (e - e') (Float.Model.Format.binary64.targetExponent
      (Float.Model.totalExponent m e - Float.Model.totalExponent m' e')) = target := by
    rw [← exponent]
    simp only [Float.Model.Format.targetExponent, Float.Model.totalExponent, Float.Model.Format.mantissaBits,
      Float.Model.Format.minExponent]
    omega
  simp only [UnpackedFloat.div, UnpackedFloat.divCore, place, shift, Nat.shiftLeft_eq]
  rfl

theorem magnitude_mul_two_pow (mantissa shift : ℕ) {exponent : ℤ} (least : -1074 ≤ exponent) :
    magnitude (mantissa * 2 ^ shift) exponent = magnitude mantissa (exponent + shift) := by
  have place : (exponent + shift + 1074).toNat = shift + (exponent + 1074).toNat := by omega
  rw [magnitude, magnitude, place, pow_add, Nat.mul_assoc]

theorem roundHalfEven_le_of_le_mul {numerator denominator limit : ℕ} (positive : 0 < denominator)
    (atMost : numerator ≤ limit * denominator) : roundHalfEven numerator denominator ≤ limit :=
  (roundHalfEven_mono denominator atMost).trans
    (Decimal.roundHalfEven_of_dvd limit denominator positive).le

/-- A divisor of 53 bits makes up for a shift of 52 places. -/
theorem shift_le_of_full {m m' up wide : ℕ} (full : 2 ^ 52 ≤ m') (few : up ≤ wide + 52) :
    m * 2 ^ up ≤ m * 2 ^ wide * m' := by
  rw [Nat.mul_assoc]
  apply Nat.mul_le_mul_left
  calc 2 ^ up ≤ 2 ^ (wide + 52) := Nat.pow_le_pow_right (by decide) few
    _ = 2 ^ wide * 2 ^ 52 := pow_add 2 wide 52
    _ ≤ 2 ^ wide * m' := Nat.mul_le_mul_left _ full

theorem log2_div_le {numerator m m' wide : ℕ} (few : m < 2 ^ 53) (atMost : numerator ≤ m * 2 ^ wide * m') :
    (numerator / m').log2 ≤ 52 + wide := by
  by_cases zero : numerator / m' = 0
  · rw [zero, Nat.log2_zero]
    omega
  · rw [← Nat.lt_add_one_iff, Nat.log2_lt zero, Nat.add_right_comm, pow_add]
    exact lt_of_le_of_lt (Nat.div_le_of_le_mul (atMost.trans (Nat.mul_comm _ _).le))
      (Nat.mul_lt_mul_of_pos_right few (Nat.two_pow_pos wide))

theorem le_log2_div {m m' up : ℕ} (nonzero : 0 < m) (nonzero' : 0 < m') (enough : 53 + m'.log2 ≤ m.log2 + up) :
    52 ≤ (m * 2 ^ up / m').log2 := by
  have shifted : 2 ^ 52 * m' ≤ m * 2 ^ up := by
    calc 2 ^ 52 * m' ≤ 2 ^ 52 * 2 ^ (m'.log2 + 1) := Nat.mul_le_mul_left _ Nat.lt_log2_self.le
      _ = 2 ^ (52 + (m'.log2 + 1)) := (pow_add 2 52 _).symm
      _ ≤ 2 ^ (m.log2 + up) := Nat.pow_le_pow_right (by decide) (by omega)
      _ = 2 ^ m.log2 * 2 ^ up := pow_add 2 _ up
      _ ≤ m * 2 ^ up := Nat.mul_le_mul_right _ (Nat.log2_self_le nonzero.ne')
  have quotient := (Nat.le_div_iff_mul_le nonzero').mpr shifted
  exact (Nat.le_log2 (by omega)).mpr quotient

/-- The quotient of a canonical form by a number that is at least one is rounded at an exponent that is not
above its own, so it stays within it. -/
theorem div_canonical {m m' : ℕ} {e e' : ℤ} (nonzero : 0 < m) (nonzero' : 0 < m') (canonical : Canonical m e)
    (full : 2 ^ 52 ≤ m') (least : -52 ≤ e') :
    let quotient := UnpackedFloat.div .binary64 (.finite .positive m e nonzero) (.finite .positive m' e' nonzero')
    IsCanonical quotient ∧ 0 ≤ ofUnpacked quotient ∧ ofUnpacked quotient ≤ magnitude m e := by
  have bits : 52 ≤ m'.log2 := (Nat.le_log2 nonzero'.ne').mpr full
  have few : m.log2 < 53 := (Nat.log2_lt nonzero.ne').mpr canonical.mantissa_lt
  have lowest := canonical.least_le
  obtain ⟨target, exponent⟩ : ∃ target,
      min (e - e') (max (m.log2 + e - (m'.log2 + e') - 53) (-1074)) = target := ⟨_, rfl⟩
  obtain ⟨up, shift⟩ : ∃ up, (e - e' - target).toNat = up := ⟨_, rfl⟩
  have below : target ≤ e := by omega
  obtain ⟨wide, rfl⟩ := Int.exists_add_of_le below
  have atMost : m * 2 ^ up ≤ m * 2 ^ wide * m' := shift_le_of_full full (by omega)
  -- The place of the quotient is between the shifted one and that of the dividend.
  have high := log2_div_le canonical.mantissa_lt atMost
  have low : -1074 < target → 52 ≤ (m * 2 ^ up / m').log2 := fun above => le_log2_div nonzero nonzero' (by omega)
  obtain ⟨drop, place⟩ := Int.exists_add_of_le
    (show target ≤ max ((m * 2 ^ up / m').log2 + target - 52) (-1074) by omega)
  obtain ⟨kept, rfl⟩ := Nat.exists_eq_add_of_le (show drop ≤ wide by omega)
  obtain ⟨isCanonical, rounded⟩ :=
    roundWithAccuracy_divided .positive (Divided.div (m * 2 ^ up) nonzero') nonzero' (by omega) place
  have within : roundHalfEven (m * 2 ^ up) (m' * 2 ^ drop) ≤ m * 2 ^ kept := by
    apply roundHalfEven_le_of_le_mul (Nat.mul_pos nonzero' (Nat.two_pow_pos drop))
    calc m * 2 ^ up ≤ m * 2 ^ (drop + kept) * m' := atMost
      _ = m * 2 ^ kept * (m' * 2 ^ drop) := by ring
  dsimp only
  rw [div_finite nonzero nonzero' exponent shift, rounded]
  refine ⟨isCanonical, Int.natCast_nonneg _, Int.ofNat_le.mpr ?_⟩
  rw [Nat.cast_add, ← Int.add_assoc, ← magnitude_mul_two_pow m kept (by omega)]
  exact Nat.mul_le_mul_right _ within

/-- A number that is not negative is divided by one that is at least one: the quotient is not greater. -/
theorem div_units_le (finite : left.isFinite = true) (nonneg : 0 ≤ units left) (divisor : AtLeastOne right) :
    (left / right).isFinite = true ∧ 0 ≤ units (left / right) ∧ units (left / right) ≤ units left := by
  obtain ⟨m', e', nonzero', unpacked, _, full, least⟩ := divisor.unpacked
  obtain ⟨isNumber, _, high⟩ := (isFinite_iff_units left).mp finite
  have positive := bound_pos
  -- What is left to show is a bound for the quotient before it is stored.
  suffices exact : IsCanonical (UnpackedFloat.div .binary64 left.toModel.unpack right.toModel.unpack) ∧
      0 ≤ ofUnpacked (UnpackedFloat.div .binary64 left.toModel.unpack right.toModel.unpack) ∧
      ofUnpacked (UnpackedFloat.div .binary64 left.toModel.unpack right.toModel.unpack) ≤ units left by
    obtain ⟨canonical, low, atMost⟩ := exact
    obtain ⟨fits, clamped⟩ := unpack_pack canonical
    rw [clamp_of_le (by omega) (by omega)] at clamped
    have same : units (left / right) =
        ofUnpacked (UnpackedFloat.div .binary64 left.toModel.unpack right.toModel.unpack) := clamped
    refine ⟨(isFinite_iff_units _).mpr ⟨fits, ?_⟩, ?_⟩ <;> omega
  rw [IsNumber] at isNumber
  change left.toModel.unpack.isFinite = true at finite
  rw [units] at nonneg ⊢
  generalize left.toModel.unpack = number at *
  cases number with
  | notANumber | infinity => cases finite
  | zero sign =>
    rw [unpacked]
    exact ⟨trivial, le_rfl, le_rfl⟩
  | finite sign m e nonzero =>
    cases sign with
    | negative =>
      have some := isNumber.finite.1
      simp only [ofUnpacked, Sign.apply] at nonneg
      omega
    | positive =>
      rw [unpacked]
      exact div_canonical nonzero nonzero' isNumber.1 full least

end PacketReplay.Binary64
