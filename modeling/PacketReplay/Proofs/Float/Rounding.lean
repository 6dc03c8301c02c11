import Mathlib.Data.Int.Order.Lemmas
import PacketReplay.Decimal.Binary
import PacketReplay.Proofs.Float.Units

/-!
# Rounding

Sums and differences of numbers are the exact ones, rounded to 53 bits. Rounding keeps the order, and leaves
what needs no rounding as it is.
-/
namespace PacketReplay.Binary64

open Decimal (roundHalfEven)
open Float.Model (UnpackedFloat Format totalExponent)
open Float.Model.UnpackedFloat (Sign ExtendedMantissa Accuracy shiftToTargetExponent shiftToExponent)

/-! ### Exact rounding -/

/-- The rest is below the middle, above it or in it. -/
theorem roundHalfEven_cases (numerator denominator : ℕ) :
    (2 * (numerator % denominator) < denominator ∧
      roundHalfEven numerator denominator = numerator / denominator) ∨
    (denominator < 2 * (numerator % denominator) ∧
      roundHalfEven numerator denominator = numerator / denominator + 1) ∨
    (2 * (numerator % denominator) = denominator ∧
      roundHalfEven numerator denominator = numerator / denominator + numerator / denominator % 2) := by
  rw [roundHalfEven]
  rcases Nat.lt_trichotomy (2 * (numerator % denominator)) denominator with below | middle | above
  · exact .inl ⟨below, if_pos below⟩
  · refine .inr (.inr ⟨middle, ?_⟩)
    rw [if_neg (by omega), if_neg (by omega)]
  · refine .inr (.inl ⟨above, ?_⟩)
    rw [if_neg (by omega), if_pos above]

theorem roundHalfEven_bounds (numerator denominator : ℕ) :
    numerator / denominator ≤ roundHalfEven numerator denominator ∧
      roundHalfEven numerator denominator ≤ numerator / denominator + 1 := by
  rcases roundHalfEven_cases numerator denominator with ⟨_, same⟩ | ⟨_, same⟩ | ⟨_, same⟩ <;> omega

theorem roundHalfEven_mono {numerator larger : ℕ} (denominator : ℕ) (atMost : numerator ≤ larger) :
    roundHalfEven numerator denominator ≤ roundHalfEven larger denominator := by
  have quotients : numerator / denominator ≤ larger / denominator := Nat.div_le_div_right atMost
  rcases Nat.lt_or_eq_of_le quotients with less | same
  · have low := (roundHalfEven_bounds numerator denominator).2
    have high := (roundHalfEven_bounds larger denominator).1
    omega
  · -- With one quotient, the greater remainder is rounded up if the smaller one is.
    have remainders : numerator % denominator ≤ larger % denominator := by
      have left := Nat.div_add_mod numerator denominator
      have right := Nat.div_add_mod larger denominator
      rw [same] at left
      omega
    rcases roundHalfEven_cases numerator denominator with ⟨_, low⟩ | ⟨_, low⟩ | ⟨_, low⟩ <;>
      rcases roundHalfEven_cases larger denominator with ⟨_, high⟩ | ⟨_, high⟩ | ⟨_, high⟩ <;> omega

theorem roundHalfEven_scale (numerator denominator : ℕ) {factor : ℕ} (positive : 0 < factor) :
    roundHalfEven (numerator * factor) (denominator * factor) = roundHalfEven numerator denominator := by
  simp only [roundHalfEven, Nat.mul_div_mul_right _ _ positive, Nat.mul_mod_mul_right, ← Nat.mul_assoc,
    Nat.mul_lt_mul_right positive]

/-- The distance between numbers with 53 bits near a magnitude. -/
def step (magnitude : ℕ) : ℕ := 2 ^ (magnitude.log2 - 52)

/-- A magnitude rounded to 53 bits. -/
def roundedMagnitude (magnitude : ℕ) : ℕ := roundHalfEven magnitude (step magnitude) * step magnitude

theorem step_pos (magnitude : ℕ) : 0 < step magnitude := Nat.two_pow_pos _

theorem lt_step (magnitude : ℕ) : magnitude < 2 ^ 53 * step magnitude := by
  calc magnitude < 2 ^ (magnitude.log2 + 1) := Nat.lt_log2_self
    _ ≤ 2 ^ (53 + (magnitude.log2 - 52)) := Nat.pow_le_pow_right (by decide) (by omega)
    _ = 2 ^ 53 * step magnitude := by rw [pow_add, step]

theorem step_le {magnitude : ℕ} (coarse : 52 < magnitude.log2) : 2 ^ 52 * step magnitude ≤ magnitude := by
  have nonzero : magnitude ≠ 0 := by
    rintro rfl
    simp at coarse
  calc 2 ^ 52 * step magnitude = 2 ^ magnitude.log2 := by
        rw [step, ← pow_add]
        congr 1
        omega
    _ ≤ magnitude := Nat.log2_self_le nonzero

theorem roundedMagnitude_le (magnitude : ℕ) : roundedMagnitude magnitude ≤ 2 ^ 53 * step magnitude := by
  have quotient := Nat.div_lt_of_lt_mul (Nat.mul_comm _ _ ▸ lt_step magnitude)
  have rounded := (roundHalfEven_bounds magnitude (step magnitude)).2
  exact Nat.mul_le_mul_right _ (by omega)

theorem le_roundedMagnitude {magnitude : ℕ} (coarse : 52 < magnitude.log2) :
    2 ^ 52 * step magnitude ≤ roundedMagnitude magnitude := by
  have quotient := (Nat.le_div_iff_mul_le (step_pos magnitude)).mpr (step_le coarse)
  have rounded := (roundHalfEven_bounds magnitude (step magnitude)).1
  exact Nat.mul_le_mul_right _ (by omega)

theorem roundedMagnitude_mono {magnitude larger : ℕ} (atMost : magnitude ≤ larger) :
    roundedMagnitude magnitude ≤ roundedMagnitude larger := by
  have logs : magnitude.log2 ≤ larger.log2 := by
    by_cases zero : magnitude = 0
    · simp [zero]
    · exact (Nat.le_log2 (by omega)).mpr (le_trans (Nat.log2_self_le zero) atMost)
  rcases Nat.lt_or_eq_of_le (Nat.sub_le_sub_right logs 52) with less | same
  · -- The power of two between them is where the steps grow.
    have steps : 2 * step magnitude ≤ step larger := by
      rw [step, step, ← pow_succ']
      exact Nat.pow_le_pow_right (by decide) less
    have high : 2 ^ 52 * step larger ≤ roundedMagnitude larger := le_roundedMagnitude (by omega)
    have low := roundedMagnitude_le magnitude
    omega
  · rw [roundedMagnitude, roundedMagnitude, step, step, ← same]
    exact Nat.mul_le_mul_right _ (roundHalfEven_mono _ atMost)

/-- What has 53 bits is left as it is. -/
theorem roundedMagnitude_of_lt {mantissa : ℕ} (few : mantissa < 2 ^ 53) (shift : ℕ) :
    roundedMagnitude (mantissa * 2 ^ shift) = mantissa * 2 ^ shift := by
  by_cases zero : mantissa = 0
  · simp [zero, roundedMagnitude, roundHalfEven]
  · have nonzero : mantissa * 2 ^ shift ≠ 0 := Nat.mul_ne_zero zero (Nat.two_pow_pos shift).ne'
    have fine : (mantissa * 2 ^ shift).log2 - 52 ≤ shift := by
      have bits : (mantissa * 2 ^ shift).log2 < 53 + shift := by
        rw [Nat.log2_lt nonzero, pow_add]
        exact Nat.mul_lt_mul_of_pos_right few (Nat.two_pow_pos shift)
      omega
    -- The step divides the power of two.
    obtain ⟨factor, whole⟩ := Nat.pow_dvd_pow 2 fine
    have multiple : mantissa * 2 ^ shift = mantissa * factor * step (mantissa * 2 ^ shift) := by
      rw [step, Nat.mul_assoc, Nat.mul_comm factor, ← whole]
    have rounded := Decimal.roundHalfEven_of_dvd (mantissa * factor) _ (step_pos (mantissa * 2 ^ shift))
    rw [← multiple] at rounded
    rw [roundedMagnitude, rounded, ← multiple]

/-- Units rounded to 53 bits. -/
def nearest (units : ℤ) : ℤ := units.sign * roundedMagnitude units.natAbs

theorem nearest_zero : nearest 0 = 0 := zero_mul _

theorem nearest_natCast (magnitude : ℕ) : nearest magnitude = roundedMagnitude magnitude := by
  rcases Nat.eq_zero_or_pos magnitude with rfl | positive
  · rfl
  · rw [nearest, Int.sign_natCast_of_ne_zero positive.ne', Int.natAbs_natCast, one_mul]

theorem nearest_neg (units : ℤ) : nearest (-units) = -nearest units := by
  rw [nearest, nearest, Int.sign_neg, Int.natAbs_neg, neg_mul]

theorem nearest_mono {left right : ℤ} (atMost : left ≤ right) : nearest left ≤ nearest right := by
  obtain ⟨a, rfl | rfl⟩ := left.eq_nat_or_neg <;> obtain ⟨b, rfl | rfl⟩ := right.eq_nat_or_neg
  · have rounded := roundedMagnitude_mono (Int.ofNat_le.mp atMost)
    rw [nearest_natCast, nearest_natCast]
    omega
  · -- Not negative, and at most something that is not positive: both are zero.
    obtain ⟨rfl, rfl⟩ : a = 0 ∧ b = 0 := by omega
    exact Int.le_refl 0
  · rw [nearest_neg, nearest_natCast, nearest_natCast]
    omega
  · have rounded := roundedMagnitude_mono (Int.ofNat_le.mp (Int.neg_le_neg_iff.mp atMost))
    rw [nearest_neg, nearest_neg, nearest_natCast, nearest_natCast]
    omega

theorem nearest_apply (sign : Sign) (magnitude : ℕ) :
    nearest (sign.apply magnitude) = sign.apply (roundedMagnitude magnitude) := by
  cases sign with
  | negative => exact (nearest_neg _).trans (congrArg _ (nearest_natCast magnitude))
  | positive => exact nearest_natCast magnitude

/-- Numbers in canonical form are left as they are. -/
theorem nearest_ofUnpacked {number : UnpackedFloat} (canonical : IsCanonical number) :
    nearest (ofUnpacked number) = ofUnpacked number := by
  cases number with
  | notANumber => cases canonical
  | zero sign => simp [ofUnpacked, nearest]
  | infinity sign =>
    have power : bound = 2 ^ 52 * 2 ^ (reach + 1) := by
      rw [bound]
      ring
    rw [ofUnpacked, nearest_apply, power, roundedMagnitude_of_lt (by decide)]
  | finite sign mantissa exponent nonzero =>
    rw [ofUnpacked, nearest_apply, magnitude, roundedMagnitude_of_lt canonical.mantissa_lt]

/-! ### The rounding of the model -/

/-- The whole part of a quotient, with two bits that tell on which side of the middle the rest is. -/
structure Divided (numerator denominator : ℕ) (left : ExtendedMantissa) : Prop where
  quotient : left.mantissa = numerator / denominator
  roundBit : left.roundBit = true ↔ denominator ≤ 2 * (numerator % denominator)
  stickyBit : left.stickyBit = true ↔
    numerator % denominator ≠ 0 ∧ 2 * (numerator % denominator) ≠ denominator

namespace Divided

variable {numerator denominator : ℕ} {left : ExtendedMantissa}

theorem one (mantissa : ℕ) : Divided mantissa 1 (.ofMantissaAndAccuracy mantissa .exact) := by
  constructor <;> simp [ExtendedMantissa.ofMantissaAndAccuracy, Nat.mod_one]

/-- A division with remainder. -/
theorem div (numerator : ℕ) {denominator : ℕ} (positive : 0 < denominator) :
    Divided numerator denominator (.ofMantissaAndAccuracy (numerator / denominator)
      (UnpackedFloat.accuracyOfFraction (numerator % denominator) denominator)) := by
  unfold UnpackedFloat.accuracyOfFraction
  split
  next even => constructor <;> simp [ExtendedMantissa.ofMantissaAndAccuracy, even, positive.ne']
  next rest =>
    rcases lt_trichotomy (2 * (numerator % denominator)) denominator with below | middle | above
    · rw [compare_lt_iff_lt.mpr below]
      constructor <;> simp [ExtendedMantissa.ofMantissaAndAccuracy] <;> omega
    · rw [compare_eq_iff_eq.mpr middle]
      constructor <;> simp [ExtendedMantissa.ofMantissaAndAccuracy] <;> omega
    · rw [compare_gt_iff_gt.mpr above]
      constructor <;> simp [ExtendedMantissa.ofMantissaAndAccuracy] <;> omega

theorem shiftRightOne (divided : Divided numerator denominator left) (positive : 0 < denominator) :
    Divided numerator (denominator * 2) left.shiftRightOne := by
  obtain ⟨quotient, roundBit, stickyBit⟩ := divided
  have below := Nat.mod_lt numerator positive
  have rest : numerator % (denominator * 2) =
      numerator % denominator + denominator * (numerator / denominator % 2) := Nat.mod_mul
  rw [← quotient] at rest
  have parity := Nat.mod_two_eq_zero_or_one left.mantissa
  -- The bit that goes is the new round bit, and the old one joins the sticky bit.
  constructor
  · rw [ExtendedMantissa.shiftRightOne, quotient, Nat.div_div_eq_div_mul]
  · rw [ExtendedMantissa.shiftRightOne, rest]
    rcases parity with even | odd
    · simp [even]
      omega
    · simp [odd]
      omega
  · rw [ExtendedMantissa.shiftRightOne, rest, Bool.or_eq_true, roundBit, stickyBit]
    rcases parity with even | odd
    · simp only [even, Nat.mul_zero, Nat.add_zero]
      omega
    · simp only [odd, Nat.mul_one]
      omega

theorem shiftRight (divided : Divided numerator denominator left) (positive : 0 < denominator) (shift : ℕ) :
    Divided numerator (denominator * 2 ^ shift) (left >>> shift) := by
  induction shift with
  | zero =>
    rw [pow_zero, Nat.mul_one]
    exact divided
  | succ shift ih =>
    rw [pow_succ, ← Nat.mul_assoc]
    exact ih.shiftRightOne (Nat.mul_pos positive (Nat.two_pow_pos shift))

theorem roundedMantissa (divided : Divided numerator denominator left) (positive : 0 < denominator) :
    left.roundedMantissa = roundHalfEven numerator denominator := by
  obtain ⟨whole, round, sticky⟩ := left
  obtain ⟨quotient, roundBit, stickyBit⟩ := divided
  dsimp only at quotient roundBit stickyBit
  have rounded := roundHalfEven_cases numerator denominator
  rw [← quotient] at rounded
  generalize numerator % denominator = rest at *
  -- The two bits tell on which side of the middle the rest is, and so which of the cases it is.
  cases round <;> cases sticky <;>
    simp only [Bool.false_eq_true, false_iff, true_iff] at roundBit stickyBit <;>
    simp only [ExtendedMantissa.roundedMantissa, ExtendedMantissa.accuracy, Accuracy.roundToNearestEven] <;>
    omega

end Divided

theorem targetExponent_eq (mantissa : ℕ) (exponent : ℤ) :
    Format.binary64.targetExponent (totalExponent mantissa exponent) =
      max (mantissa.log2 + exponent - 52) (-1074) := by
  simp only [Format.targetExponent, totalExponent, Format.mantissaBits, Format.minExponent]
  omega

/-- A mantissa of 53 bits has its place; one that is rounded up to the next power of two is shifted once. -/
theorem shiftToTarget_rounded {mantissa : ℕ} {exponent : ℤ} (few : mantissa ≤ 2 ^ 53)
    (least : -1074 ≤ exponent) (normal : 2 ^ 52 ≤ mantissa ∨ exponent = -1074) :
    let shifted := shiftToTargetExponent .binary64 mantissa exponent .exact
    Canonical shifted.1.mantissa shifted.2 ∧
      magnitude shifted.1.mantissa shifted.2 = magnitude mantissa exponent := by
  simp only [shiftToTargetExponent, shiftToExponent, targetExponent_eq]
  rcases Nat.lt_or_eq_of_le few with less | rfl
  · have inPlace : (max (mantissa.log2 + exponent - 52) (-1074) - exponent).toNat = 0 := by
      have bits : mantissa.log2 < 53 := by
        by_cases zero : mantissa = 0
        · simp [zero]
        · exact (Nat.log2_lt zero).mpr less
      omega
    rw [inPlace, ((Divided.one mantissa).shiftRight Nat.one_pos 0).quotient]
    simp only [pow_zero, Nat.mul_one, Nat.div_one, Nat.cast_zero, add_zero]
    exact ⟨⟨less, least, normal⟩, trivial⟩
  · -- The next power of two has one bit more, which is zero.
    have once : (max (((2 ^ 53 : ℕ).log2 : ℤ) + exponent - 52) (-1074) - exponent).toNat = 1 := by
      rw [Nat.log2_two_pow]
      omega
    have power : (exponent + (1 : ℕ) + 1074).toNat = (exponent + 1074).toNat + 1 := by omega
    rw [once, ((Divided.one (2 ^ 53)).shiftRight Nat.one_pos 1).quotient]
    refine ⟨⟨by decide, by omega, .inl (by decide)⟩, ?_⟩
    rw [magnitude, magnitude, power]
    ring

section Round

variable {mantissa shift : ℕ} {exponent : ℤ}

/-- A quotient of at most 53 bits is rounded to at most the next power of two. -/
theorem roundHalfEven_le_of_log2 {numerator denominator : ℕ}
    (bits : (numerator / denominator).log2 ≤ 52 + shift) :
    roundHalfEven numerator (denominator * 2 ^ shift) ≤ 2 ^ 53 := by
  have less : numerator / denominator < 2 ^ shift * 2 ^ 53 := by
    calc numerator / denominator < 2 ^ ((numerator / denominator).log2 + 1) := Nat.lt_log2_self
      _ ≤ 2 ^ (shift + 53) := Nat.pow_le_pow_right (by decide) (by omega)
      _ = 2 ^ shift * 2 ^ 53 := pow_add 2 shift 53
  have quotient := Nat.div_lt_of_lt_mul less
  rw [Nat.div_div_eq_div_mul] at quotient
  have rounded := (roundHalfEven_bounds numerator (denominator * 2 ^ shift)).2
  omega

theorem le_roundHalfEven_of_log2 {numerator denominator : ℕ}
    (bits : (numerator / denominator).log2 = 52 + shift) :
    2 ^ 52 ≤ roundHalfEven numerator (denominator * 2 ^ shift) := by
  have nonzero : numerator / denominator ≠ 0 := by
    intro zero
    rw [zero, Nat.log2_zero] at bits
    omega
  have enough : 2 ^ 52 * 2 ^ shift ≤ numerator / denominator := by
    rw [← pow_add, ← bits]
    exact Nat.log2_self_le nonzero
  have quotient := (Nat.le_div_iff_mul_le (Nat.two_pow_pos shift)).mpr enough
  rw [Nat.div_div_eq_div_mul] at quotient
  exact le_trans quotient (roundHalfEven_bounds numerator (denominator * 2 ^ shift)).1

theorem log2_mul_two_pow (nonzero : mantissa ≠ 0) (shift : ℕ) :
    (mantissa * 2 ^ shift).log2 = mantissa.log2 + shift := by
  have positive := Nat.two_pow_pos shift
  rw [Nat.log2_eq_iff (Nat.mul_ne_zero nonzero positive.ne')]
  constructor
  · rw [pow_add]
    exact Nat.mul_le_mul_right _ (Nat.log2_self_le nonzero)
  · rw [Nat.add_right_comm, pow_add]
    exact Nat.mul_lt_mul_of_pos_right Nat.lt_log2_self positive

/-- Rounding a mantissa at its target exponent is rounding its units. -/
theorem magnitude_roundHalfEven (least : -1074 ≤ exponent)
    (target : max (mantissa.log2 + exponent - 52) (-1074) = exponent + shift) :
    magnitude (roundHalfEven mantissa (2 ^ shift)) (exponent + shift) =
      roundedMagnitude (magnitude mantissa exponent) := by
  by_cases zero : mantissa = 0
  · simp [zero, magnitude, roundedMagnitude, roundHalfEven]
  · have place : (exponent + shift + 1074).toNat = shift + (exponent + 1074).toNat := by omega
    have bits : (magnitude mantissa exponent).log2 - 52 = shift + (exponent + 1074).toNat := by
      have scaled := log2_mul_two_pow zero (exponent + 1074).toNat
      rw [← magnitude] at scaled
      omega
    -- Both the magnitude and its step are multiples of the unit of the exponent.
    rw [roundedMagnitude, step, bits, pow_add, magnitude, magnitude,
      roundHalfEven_scale _ _ (Nat.two_pow_pos _), place, pow_add]

/-- Rounding a quotient drops the bits that are too many, all at once. -/
theorem roundWithAccuracy_divided (sign : Sign) {numerator denominator : ℕ} {accuracy : Accuracy}
    (divided : Divided numerator denominator (.ofMantissaAndAccuracy mantissa accuracy))
    (positive : 0 < denominator) (least : -1074 ≤ exponent + shift)
    (target : max (mantissa.log2 + exponent - 52) (-1074) = exponent + shift) :
    IsCanonical (UnpackedFloat.roundWithAccuracy .binary64 sign mantissa exponent accuracy) ∧
      ofUnpacked (UnpackedFloat.roundWithAccuracy .binary64 sign mantissa exponent accuracy) =
        sign.apply (magnitude (roundHalfEven numerator (denominator * 2 ^ shift)) (exponent + shift)) := by
  have amount : (max (mantissa.log2 + exponent - 52) (-1074) - exponent).toNat = shift := by omega
  have first : shiftToTargetExponent .binary64 mantissa exponent accuracy =
      (ExtendedMantissa.ofMantissaAndAccuracy mantissa accuracy >>> shift, exponent + shift) := by
    simp only [shiftToTargetExponent, shiftToExponent, targetExponent_eq, amount]
  have rounded := (divided.shiftRight positive shift).roundedMantissa
    (Nat.mul_pos positive (Nat.two_pow_pos shift))
  have quotient : mantissa = numerator / denominator := by
    rw [← divided.quotient]
    cases accuracy with
    | exact => rfl
    | inexact side => cases side <;> rfl
  rw [quotient] at target
  have normal : 2 ^ 52 ≤ roundHalfEven numerator (denominator * 2 ^ shift) ∨ exponent + shift = -1074 := by
    by_cases isLeast : exponent + shift = -1074
    · exact .inr isLeast
    · exact .inl (le_roundHalfEven_of_log2 (by omega))
  obtain ⟨canonical, same⟩ := shiftToTarget_rounded (roundHalfEven_le_of_log2 (by omega)) least normal
  -- The bits are dropped first, and then a carry is put in place.
  unfold UnpackedFloat.roundWithAccuracy
  simp only [first, rounded]
  split
  next zero =>
    rw [zero] at same
    refine ⟨trivial, ?_⟩
    rw [← same]
    cases sign <;> simp [ofUnpacked, Sign.apply, magnitude]
  next nonzero => exact ⟨canonical, by rw [ofUnpacked, same]⟩

/-- Rounding drops the bits of a mantissa that are too many. -/
theorem roundWithAccuracy_exact (sign : Sign) (least : -1074 ≤ exponent)
    (fine : exponent ≤ max (mantissa.log2 + exponent - 52) (-1074)) :
    IsCanonical (UnpackedFloat.roundWithAccuracy .binary64 sign mantissa exponent .exact) ∧
      ofUnpacked (UnpackedFloat.roundWithAccuracy .binary64 sign mantissa exponent .exact) =
        sign.apply (roundedMagnitude (magnitude mantissa exponent)) := by
  obtain ⟨shift, target⟩ := Int.exists_add_of_le fine
  have rounded := roundWithAccuracy_divided sign (Divided.one mantissa) Nat.one_pos (by omega) target
  rwa [Nat.one_mul, magnitude_roundHalfEven least target] at rounded

/-- A magnitude is rounded to 53 bits. Where it has fewer it is shifted up first, which changes nothing. -/
theorem round_exact (sign : Sign) (nonzero : mantissa ≠ 0) (least : -1074 ≤ exponent) :
    IsCanonical (UnpackedFloat.round .binary64 sign mantissa exponent) ∧
      ofUnpacked (UnpackedFloat.round .binary64 sign mantissa exponent) =
        sign.apply (roundedMagnitude (magnitude mantissa exponent)) := by
  obtain ⟨up, amount⟩ : ∃ up, (exponent - max (mantissa.log2 + exponent - 52) (-1074)).toNat = up := ⟨_, rfl⟩
  have bits := log2_mul_two_pow nonzero up
  have same : magnitude (mantissa * 2 ^ up) (exponent - up) = magnitude mantissa exponent := by
    have place : (exponent + 1074).toNat = up + (exponent - up + 1074).toNat := by omega
    rw [magnitude, magnitude, place, pow_add, Nat.mul_assoc]
  have shifted : UnpackedFloat.round .binary64 sign mantissa exponent =
      UnpackedFloat.roundWithAccuracy .binary64 sign (mantissa * 2 ^ up) (exponent - up) .exact := by
    simp only [UnpackedFloat.round, UnpackedFloat.decreaseExponent, targetExponent_eq, amount,
      Nat.shiftLeft_eq]
  rw [shifted, ← same]
  exact roundWithAccuracy_exact sign (by omega) (by omega)

end Round

/-! ### Sums and differences -/

theorem apply_scale (sign : Sign) (mantissa : ℕ) (exponent : ℤ) :
    sign.apply mantissa * 2 ^ (exponent + 1074).toNat = sign.apply (magnitude mantissa exponent) := by
  cases sign <;> simp [Sign.apply, magnitude]

theorem normalize_apply (sign : Sign) (whole : ℕ) {exponent : ℤ} (least : -1074 ≤ exponent) :
    IsCanonical (UnpackedFloat.normalize .binary64 (sign.apply whole) exponent .positive) ∧
      ofUnpacked (UnpackedFloat.normalize .binary64 (sign.apply whole) exponent .positive) =
        sign.apply (roundedMagnitude (magnitude whole exponent)) := by
  rcases Nat.eq_zero_or_pos whole with rfl | positive
  · have zero : sign.apply (0 : ℕ) = 0 := by cases sign <;> rfl
    rw [zero]
    refine ⟨trivial, ?_⟩
    cases sign <;> simp [UnpackedFloat.normalize, ofUnpacked, Sign.apply, magnitude, roundedMagnitude, roundHalfEven]
  · have exact := round_exact sign positive.ne' least
    unfold UnpackedFloat.normalize
    cases sign with
    | negative =>
      have compares : compare (Sign.negative.apply (whole : ℤ)) 0 = .lt :=
        compare_lt_iff_lt.mpr (by simp only [Sign.apply]; omega)
      have back : (-(Sign.negative.apply (whole : ℤ))).toNat = whole := by
        simp only [Sign.apply]
        omega
      rw [compares]
      dsimp only
      rwa [back]
    | positive =>
      have compares : compare (Sign.positive.apply (whole : ℤ)) 0 = .gt :=
        compare_gt_iff_gt.mpr (by simp only [Sign.apply]; omega)
      rw [compares]
      exact exact

/-- A signed mantissa gives its units, rounded. -/
theorem normalize_exact (mantissa : ℤ) {exponent : ℤ} (least : -1074 ≤ exponent) :
    IsCanonical (UnpackedFloat.normalize .binary64 mantissa exponent .positive) ∧
      ofUnpacked (UnpackedFloat.normalize .binary64 mantissa exponent .positive) =
        nearest (mantissa * 2 ^ (exponent + 1074).toNat) := by
  obtain ⟨sign, whole, rfl⟩ : ∃ (sign : Sign) (whole : ℕ), mantissa = sign.apply whole := by
    obtain ⟨whole, same | same⟩ := mantissa.eq_nat_or_neg
    · exact ⟨.positive, whole, same⟩
    · exact ⟨.negative, whole, same⟩
  rw [apply_scale, nearest_apply]
  exact normalize_apply sign whole least

/-- Two mantissas at a common exponent. -/
theorem aligned (sign : Sign) {mantissa : ℕ} {exponent lower : ℤ} (least : -1074 ≤ lower) (below : lower ≤ exponent) :
    sign.apply (UnpackedFloat.decreaseExponent mantissa exponent lower).1 * 2 ^ (lower + 1074).toNat =
      sign.apply (magnitude mantissa exponent) := by
  rw [apply_scale]
  congr 1
  have place : (exponent + 1074).toNat = (exponent - lower).toNat + (lower + 1074).toNat := by omega
  simp only [UnpackedFloat.decreaseExponent, Nat.shiftLeft_eq, magnitude, place, pow_add, Nat.mul_assoc]

/-- The sum of finite numbers is the exact one, rounded. -/
theorem add_unpacked {left right : UnpackedFloat} (canonicalLeft : IsCanonical left)
    (canonicalRight : IsCanonical right) (finiteLeft : left.isFinite = true)
    (finiteRight : right.isFinite = true) :
    IsCanonical (UnpackedFloat.add .binary64 left right) ∧
      ofUnpacked (UnpackedFloat.add .binary64 left right) = nearest (ofUnpacked left + ofUnpacked right) := by
  cases left with
  | notANumber => cases finiteLeft
  | infinity => cases finiteLeft
  | zero sign =>
    cases right with
    | notANumber => cases finiteRight
    | infinity => cases finiteRight
    | zero other => cases sign <;> cases other <;> exact ⟨trivial, nearest_zero.symm⟩
    | finite other mantissa exponent nonzero =>
      refine ⟨canonicalRight, ?_⟩
      have kept := nearest_ofUnpacked canonicalRight
      rw [ofUnpacked_zero, zero_add, kept]
      rfl
  | finite sign mantissa exponent nonzero =>
    cases right with
    | notANumber => cases finiteRight
    | infinity => cases finiteRight
    | zero other =>
      refine ⟨canonicalLeft, ?_⟩
      have kept := nearest_ofUnpacked canonicalLeft
      rw [ofUnpacked_zero, add_zero, kept]
      rfl
    | finite other mantissa' exponent' nonzero' =>
      -- At the smaller exponent both mantissas are whole, and so is their sum.
      have least : -1074 ≤ min exponent exponent' := le_min canonicalLeft.least_le canonicalRight.least_le
      have exact := normalize_exact
        (sign.apply (UnpackedFloat.decreaseExponent mantissa exponent (min exponent exponent')).1 +
          other.apply (UnpackedFloat.decreaseExponent mantissa' exponent' (min exponent exponent')).1) least
      rw [add_mul, aligned sign least (min_le_left _ _), aligned other least (min_le_right _ _)] at exact
      exact exact

theorem apply_neg (sign : Sign) (n : ℕ) : (-sign).apply n = -sign.apply n := by
  cases sign
  · exact (neg_neg _).symm
  · rfl

/-- Subtracting is adding the opposite. -/
theorem sub_unpacked (left right : UnpackedFloat) :
    UnpackedFloat.sub .binary64 left right = UnpackedFloat.add .binary64 left right.neg := by
  rcases left with sign | _ | sign | ⟨sign, mantissa, exponent, nonzero⟩ <;>
    rcases right with other | _ | other | ⟨other, mantissa', exponent', nonzero'⟩ <;> try rfl
  simp only [UnpackedFloat.sub, UnpackedFloat.neg, UnpackedFloat.add, apply_neg, Int.sub_eq_add_neg]

theorem neg_unpacked {number : UnpackedFloat} (canonical : IsCanonical number) :
    IsCanonical number.neg ∧ ofUnpacked number.neg = -ofUnpacked number := by
  cases number with
  | notANumber => cases canonical
  | infinity sign => exact ⟨trivial, apply_neg sign bound⟩
  | zero => exact ⟨trivial, rfl⟩
  | finite sign mantissa exponent nonzero => exact ⟨canonical, apply_neg sign (magnitude mantissa exponent)⟩

theorem isFinite_neg {number : UnpackedFloat} (finite : number.isFinite = true) : number.neg.isFinite = true := by
  cases number with
  | notANumber | infinity => cases finite
  | zero | finite => rfl

theorem Fits.isCanonical {number : UnpackedFloat} (fits : Fits number) : IsCanonical number := by
  cases number with
  | notANumber => cases fits
  | infinity | zero => trivial
  | finite => exact fits.1

/-- Units rounded to 53 bits and stored. -/
def stored (units : ℤ) : ℤ := clamp (nearest units)

theorem stored_mono {left right : ℤ} (atMost : left ≤ right) : stored left ≤ stored right :=
  clamp_mono (nearest_mono atMost)

theorem stored_zero : stored 0 = 0 := by
  have positive := bound_pos
  rw [stored, nearest_zero, clamp_of_le (by omega) (by omega)]

theorem stored_units {value : Float} (isNumber : IsNumber value) : stored (units value) = units value := by
  obtain ⟨low, high⟩ := units_bounds isNumber
  have kept : nearest (units value) = units value := nearest_ofUnpacked isNumber.isCanonical
  rw [stored, kept, clamp_of_le low high]

section Finite

variable {left right : Float} (finiteLeft : left.isFinite = true) (finiteRight : right.isFinite = true)

include finiteLeft finiteRight

theorem add_units : IsNumber (left + right) ∧ units (left + right) = stored (units left + units right) := by
  have numberLeft := ((isFinite_iff_units left).mp finiteLeft).1
  have numberRight := ((isFinite_iff_units right).mp finiteRight).1
  obtain ⟨canonical, exact⟩ :=
    add_unpacked numberLeft.isCanonical numberRight.isCanonical finiteLeft finiteRight
  obtain ⟨fits, clamped⟩ := unpack_pack canonical
  exact ⟨fits, clamped.trans (congrArg clamp exact)⟩

theorem sub_units : IsNumber (left - right) ∧ units (left - right) = stored (units left - units right) := by
  have numberLeft := ((isFinite_iff_units left).mp finiteLeft).1
  have numberRight := ((isFinite_iff_units right).mp finiteRight).1
  obtain ⟨opposite, negated⟩ := neg_unpacked numberRight.isCanonical
  obtain ⟨canonical, exact⟩ := add_unpacked numberLeft.isCanonical opposite finiteLeft (isFinite_neg finiteRight)
  rw [← sub_unpacked] at canonical exact
  rw [negated, ← Int.sub_eq_add_neg] at exact
  obtain ⟨fits, clamped⟩ := unpack_pack canonical
  exact ⟨fits, clamped.trans (congrArg clamp exact)⟩

end Finite

/-! ### Tolerances -/

section Tolerance

variable {opened t tolerance : Float} (amount : tolerance.isFinite = true) (nonneg : 0 ≤ units tolerance)

include amount nonneg

omit nonneg in
theorem unpack_add_of_infinity {sign : Sign} (infinite : t.toModel.unpack = .infinity sign) :
    (t + tolerance).toModel.unpack = .infinity sign := by
  change (Float.Model.pack (UnpackedFloat.add .binary64 t.toModel.unpack tolerance.toModel.unpack)).unpack = _
  have finite : tolerance.toModel.unpack.isFinite = true := amount
  have unchanged : UnpackedFloat.add .binary64 (.infinity sign) tolerance.toModel.unpack = .infinity sign := by
    generalize tolerance.toModel.unpack = number at finite
    cases number with
    | notANumber | infinity => cases finite
    | zero | finite => rfl
  rw [infinite, unchanged]
  exact unpack_pack_infinity sign

/-- A tolerance leads no number back. -/
theorem units_le_add (isNumber : IsNumber t) : IsNumber (t + tolerance) ∧ units t ≤ units (t + tolerance) := by
  rcases isNumber.cases with finite | ⟨sign, infinite⟩
  · obtain ⟨isSum, sum⟩ := add_units finite amount
    have more : units t ≤ units t + units tolerance := by omega
    have rounded := stored_mono more
    rw [stored_units isNumber, ← sum] at rounded
    exact ⟨isSum, rounded⟩
  · have same := unpack_add_of_infinity amount infinite
    rw [IsNumber, units, units, same, infinite]
    exact ⟨trivial, le_refl _⟩

omit amount nonneg in
/-- Infinite numbers of one sign have no difference. -/
theorem not_isNumber_sub {sign : Sign} (later : t.toModel.unpack = .infinity sign)
    (earlier : opened.toModel.unpack = .infinity sign) : ¬IsNumber (t - opened) := by
  change ¬Fits (Float.Model.pack (UnpackedFloat.sub .binary64 t.toModel.unpack opened.toModel.unpack)).unpack
  rw [later, earlier]
  cases sign <;> exact fun fits => fits

omit amount nonneg in
/-- The size of the gap between two times in order is their exact gap, rounded. -/
theorem gap_units (finiteOpened : opened.isFinite = true) (finite : t.isFinite = true) (ordered : opened ≤ t) :
    IsNumber (t - opened).abs ∧ units (t - opened).abs = stored (units t - units opened) := by
  obtain ⟨isGap, gap⟩ := sub_units finite finiteOpened
  obtain ⟨isSize, size⟩ := abs_units isGap
  have before := units_le_of_le ordered
  have least : 0 ≤ units t - units opened := by omega
  have nonnegGap := stored_mono least
  rw [stored_zero] at nonnegGap
  exact ⟨isSize, by rw [size, gap, abs_of_nonneg nonnegGap]⟩

omit amount nonneg in
/-- If the exact gap were within the tolerance, then so would the rounded one be. -/
theorem units_lt_gap (finiteOpened : opened.isFinite = true) (finite : t.isFinite = true) (ordered : opened ≤ t)
    (apart : tolerance < (t - opened).abs) : units tolerance < units t - units opened := by
  by_contra within
  have roundedGap := stored_mono (not_lt.mp within)
  have exceeds := units_lt_of_lt apart
  rw [stored_units (isNumber_of_lt apart).1] at roundedGap
  rw [(gap_units finiteOpened finite ordered).2] at exceeds
  omega

omit amount nonneg in
/-- The gap from an earlier time to a later one is not smaller: rounding keeps the order of differences. -/
theorem gap_le_gap {earlier : Float} (finiteEarlier : earlier.isFinite = true) (finiteOpened : opened.isFinite = true)
    (finite : t.isFinite = true) (before : earlier ≤ opened) (ordered : opened ≤ t) :
    (t - opened).abs ≤ (t - earlier).abs := by
  obtain ⟨isNear, near⟩ := gap_units finiteOpened finite ordered
  obtain ⟨isFar, far⟩ := gap_units finiteEarlier finite (atMost_trans before ordered)
  have least := units_le_of_le before
  have wider : units t - units opened ≤ units t - units earlier := by omega
  rw [le_iff_units isNear isFar, near, far]
  exact stored_mono wider

/-- A time that is too far after the one that opened a frame is not before the end of the tolerance. -/
theorem add_units_le_of_apart (ordered : opened ≤ t) (apart : tolerance < (t - opened).abs) :
    units (opened + tolerance) ≤ units t ∧ units opened < units t := by
  obtain ⟨isOpened, isTime⟩ := isNumber_of_le ordered
  have sumBounds := units_bounds (units_le_add amount nonneg isOpened).1
  rcases isOpened.cases with finiteOpened | ⟨sign, infiniteOpened⟩
  · rcases isTime.cases with finite | ⟨sign, infinite⟩
    · have exact := units_lt_gap finiteOpened finite ordered apart
      have notAfter : units opened + units tolerance ≤ units t := by omega
      have rounded := stored_mono notAfter
      rw [stored_units isTime, ← (add_units finiteOpened amount).2] at rounded
      exact ⟨rounded, by omega⟩
    · -- Infinity is not before any sum, and a finite time before it is not below minus infinity.
      have atEnd := units_of_infinity infinite
      have before := units_le_of_le ordered
      obtain ⟨_, low, high⟩ := (isFinite_iff_units opened).mp finiteOpened
      cases sign <;> simp only [Sign.apply] at atEnd <;> omega
  · -- An infinite time is its own sum, and no time is apart from it that is as infinite.
    have atEnd := units_of_infinity infiniteOpened
    have sum := units_of_infinity (unpack_add_of_infinity amount infiniteOpened)
    have before := units_le_of_le ordered
    have differ : units t ≠ units opened := by
      intro same
      have isGap := isNumber_of_abs (isNumber_of_lt apart).2
      exact not_isNumber_sub (infinity_of_units isTime (same.trans atEnd)) infiniteOpened isGap
    omega

end Tolerance

/-! ### Order of sums -/

section Ordered

variable {left right tolerance : Float}

/-- An infinite tolerance makes every number infinite, but for the number at the opposite end. -/
theorem unpack_add_infinity {sign : Sign} (infinite : tolerance.toModel.unpack = .infinity sign)
    (isNumber : IsNumber left) (notOpposed : left.toModel.unpack ≠ .infinity (-sign)) :
    (left + tolerance).toModel.unpack = .infinity sign := by
  change (Float.Model.pack (UnpackedFloat.add .binary64 left.toModel.unpack tolerance.toModel.unpack)).unpack = _
  have unchanged : UnpackedFloat.add .binary64 left.toModel.unpack (.infinity sign) = .infinity sign := by
    rw [IsNumber] at isNumber
    generalize left.toModel.unpack = number at isNumber notOpposed
    cases number with
    | notANumber => cases isNumber
    | infinity other => cases sign <;> cases other <;> first | rfl | exact absurd rfl notOpposed
    | zero | finite => rfl
  rw [infinite, unchanged]
  exact unpack_pack_infinity sign

/-- Nothing is before minus infinity. -/
theorem negative_infinity_of_le (ordered : left ≤ right) (low : right.toModel.unpack = .infinity .negative) :
    left.toModel.unpack = .infinity .negative := by
  have isLeft := (isNumber_of_le ordered).1
  have before := units_le_of_le ordered
  rw [units_of_infinity low] at before
  exact infinity_of_units isLeft (le_antisymm before (units_bounds isLeft).1)

/-- Nothing is after infinity. -/
theorem positive_infinity_of_le (ordered : left ≤ right) (high : left.toModel.unpack = .infinity .positive) :
    right.toModel.unpack = .infinity .positive := by
  have isRight := (isNumber_of_le ordered).2
  have before := units_le_of_le ordered
  rw [units_of_infinity high] at before
  exact infinity_of_units isRight (le_antisymm (units_bounds isRight).2 before)

/-- A finite tolerance keeps the order of numbers. -/
theorem units_add_mono (amount : tolerance.isFinite = true) (ordered : left ≤ right) :
    IsNumber (right + tolerance) ∧ units (left + tolerance) ≤ units (right + tolerance) := by
  obtain ⟨isLeft, isRight⟩ := isNumber_of_le ordered
  have before := units_le_of_le ordered
  have isSum {t : Float} (isNumber : IsNumber t) : IsNumber (t + tolerance) := by
    rcases isNumber.cases with finite | ⟨sign, infinite⟩
    · exact (add_units finite amount).1
    · exact isNumber_of_infinity (unpack_add_of_infinity amount infinite)
  refine ⟨isSum isRight, ?_⟩
  obtain ⟨lowLeft, highLeft⟩ := units_bounds (isSum isLeft)
  obtain ⟨lowRight, highRight⟩ := units_bounds (isSum isRight)
  rcases isLeft.cases with finiteLeft | ⟨sign, infiniteLeft⟩
  · rcases isRight.cases with finiteRight | ⟨sign, infiniteRight⟩
    · rw [(add_units finiteLeft amount).2, (add_units finiteRight amount).2]
      exact stored_mono (by omega)
    · -- A finite number is not after minus infinity, and all sums are before infinity.
      have atEnd := units_of_infinity infiniteRight
      have sum := units_of_infinity (unpack_add_of_infinity amount infiniteRight)
      have low := ((isFinite_iff_units left).mp finiteLeft).2.1
      cases sign <;> simp only [Sign.apply] at atEnd sum <;> omega
  · have atEnd := units_of_infinity infiniteLeft
    have sum := units_of_infinity (unpack_add_of_infinity amount infiniteLeft)
    cases sign with
    | negative =>
      simp only [Sign.apply] at sum
      omega
    | positive =>
      have infiniteRight := positive_infinity_of_le ordered infiniteLeft
      have later := units_of_infinity (unpack_add_of_infinity amount infiniteRight)
      omega

/-- A sum that is a number has no infinite terms of opposite signs, and no term that is not a number. -/
theorem IsNumber.of_add (isSum : IsNumber (left + tolerance)) :
    IsNumber tolerance ∧
      ∀ {sign : Sign}, tolerance.toModel.unpack = .infinity sign → left.toModel.unpack ≠ .infinity (-sign) := by
  change Fits (Float.Model.pack (UnpackedFloat.add .binary64 left.toModel.unpack tolerance.toModel.unpack)).unpack
    at isSum
  constructor
  · rcases isNumber_or tolerance with isNumber | none
    · exact isNumber
    · have absorbed (number : UnpackedFloat) :
          UnpackedFloat.add .binary64 number .notANumber = .notANumber := by cases number <;> rfl
      rw [none, absorbed] at isSum
      cases isSum
  · intro sign infinite opposed
    rw [infinite, opposed] at isSum
    cases sign <;> cases isSum

/-- A sum that is a number stays one with a later number, unless opposite infinities meet. -/
theorem isNumber_add_of_le (isSum : IsNumber (left + tolerance)) (ordered : left ≤ right)
    (notOpposed : right.toModel.unpack = .infinity .positive → tolerance.toModel.unpack ≠ .infinity .negative) :
    IsNumber (right + tolerance) := by
  obtain ⟨isLeft, isRight⟩ := isNumber_of_le ordered
  obtain ⟨isTolerance, leftNotOpposed⟩ := isSum.of_add
  rcases isTolerance.cases with amount | ⟨sign, infinite⟩
  · exact (units_add_mono amount ordered).1
  · have rightNotOpposed : right.toModel.unpack ≠ .infinity (-sign) := by
      intro opposed
      cases sign with
      | negative => exact notOpposed opposed infinite
      | positive => exact leftNotOpposed infinite (negative_infinity_of_le ordered opposed)
    exact isNumber_of_infinity (unpack_add_infinity infinite isRight rightNotOpposed)

/-- What is not after a sum is not after the sum with a later number either, if that is a number. -/
theorem le_add_of_le {t : Float} (within : t ≤ left + tolerance) (ordered : left ≤ right)
    (isLater : IsNumber (right + tolerance)) : t ≤ right + tolerance := by
  obtain ⟨isTime, isSum⟩ := isNumber_of_le within
  obtain ⟨isLeft, isRight⟩ := isNumber_of_le ordered
  have inside := units_le_of_le within
  obtain ⟨isTolerance, leftNotOpposed⟩ := isSum.of_add
  rcases isTolerance.cases with amount | ⟨sign, infinite⟩
  · exact (le_iff_units isTime isLater).mpr (inside.trans (units_add_mono amount ordered).2)
  · -- Both sums are the same infinity.
    have sum := unpack_add_infinity infinite isLeft (leftNotOpposed infinite)
    have later := unpack_add_infinity infinite isRight (isLater.of_add.2 infinite)
    rw [units_of_infinity sum, ← units_of_infinity later] at inside
    exact (le_iff_units isTime isLater).mpr inside

end Ordered

end PacketReplay.Binary64
