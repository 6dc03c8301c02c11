import Mathlib
import PacketReplay.Decimal.Style
import PacketReplay.Proofs.Float.Units

/-!
# Finite numbers

A number taken apart by its three fields is finite exactly if the number itself is, and the finite numbers
are those that have a numeral. The parts of a finite number give its units.
-/
namespace PacketReplay.Decimal

open Float.Model

theorem toNat_unpackExponent (bits : BitVec 64) :
    (@UnpackedFloat.unpackExponent .binary64 bits).toNat = bits.toNat / leastMantissa % 2048 := by
  simp [UnpackedFloat.unpackExponent, BitVec.extractLsb_toNat, Nat.shiftRight_eq_div_pow, leastMantissa]

theorem isFinite_iff_exponent (value : Float) :
    value.isFinite = true ↔ value.toBits.toNat / leastMantissa % 2048 ≠ 2047 := by
  have field := toNat_unpackExponent value.toBits.toBitVec
  have ones : @UnpackedFloat.unpackExponent .binary64 value.toBits.toBitVec = (-1#_) ↔
      value.toBits.toNat / leastMantissa % 2048 = 2047 := by
    rw [← BitVec.toNat_inj, field]
    rfl
  rw [ne_eq, ← ones]
  -- An exponent field of ones is what infinite numbers and values that are none have in common.
  change (UnpackedFloat.unpack .binary64 value.toBits.toBitVec).isFinite = true ↔ _
  unfold UnpackedFloat.unpack
  dsimp only
  split
  next all => split <;> simp [UnpackedFloat.isFinite, all]
  next other =>
    split
    · split <;> exact iff_of_true rfl other
    · exact iff_of_true rfl other

theorem exists_finite_iff (value : Float) :
    (∃ negative mantissa exponent, Binary.ofFloat value = .finite negative mantissa exponent) ↔
      value.isFinite = true := by
  rw [isFinite_iff_exponent]
  unfold Binary.ofFloat Binary.ofBits
  dsimp only
  split
  next all => split <;> simp [all]
  next other =>
    split <;> simp [other]

/-- The numbers that are written with digits are the finite ones. -/
theorem isSome_numeral?_iff (style : Style) (value : Float) :
    (style.numeral? value).isSome = true ↔ value.isFinite = true := by
  rw [← exists_finite_iff]
  unfold Style.numeral?
  split
  next negative mantissa exponent finite => exact iff_of_true rfl ⟨negative, mantissa, exponent, finite⟩
  next notFinite =>
    constructor
    · intro written
      cases written
    · rintro ⟨negative, mantissa, exponent, finite⟩
      exact absurd finite (notFinite negative mantissa exponent)

/-! ### Parts and units -/

open Binary64 (units ofUnpacked ofUnpacked_zero magnitude toNat_implicit)
open Float.Model.UnpackedFloat (Sign)

theorem toNat_unpackMantissa (bits : BitVec 64) :
    (@UnpackedFloat.unpackMantissa .binary64 bits).toNat = bits.toNat % leastMantissa := by
  simp [UnpackedFloat.unpackMantissa, BitVec.extractLsb_toNat, leastMantissa]

theorem toNat_unpackSign (bits : BitVec 64) :
    (@UnpackedFloat.unpackSign .binary64 bits).toNat = bits.toNat / (2048 * leastMantissa) := by
  have bound := bits.isLt
  simp [UnpackedFloat.unpackSign, BitVec.extractLsb_toNat, Nat.shiftRight_eq_div_pow, leastMantissa]
  omega

/-- The sign of a magnitude. -/
def signOf (negative : Bool) : Sign := if negative then .negative else .positive

theorem ofBitVec_unpackSign (bits : BitVec 64) :
    Sign.ofBitVec (@UnpackedFloat.unpackSign .binary64 bits) =
      signOf (decide (2048 * leastMantissa ≤ bits.toNat)) := by
  have field := toNat_unpackSign bits
  have bound := bits.isLt
  have zero : @UnpackedFloat.unpackSign .binary64 bits = 0#1 ↔ bits.toNat / (2048 * leastMantissa) = 0 := by
    rw [← BitVec.toNat_inj, field]
    rfl
  rw [Sign.ofBitVec, signOf]
  simp only [zero, Nat.div_eq_zero_iff, decide_eq_true_eq]
  unfold leastMantissa
  split <;> split <;> first | rfl | omega

/-- The parts of a finite number give its units. -/
theorem units_of_finite {value : Float} {negative : Bool} {mantissa : ℕ} {exponent : ℤ}
    (parts : Binary.ofFloat value = .finite negative mantissa exponent) :
    mantissa < 2 ^ 53 ∧ exponent ≤ 971 ∧
      units value = (signOf negative).apply (magnitude mantissa exponent) := by
  have field : (@UnpackedFloat.unpackExponent .binary64 value.toBits.toBitVec).toNat =
      value.toBits.toNat / leastMantissa % 2048 := toNat_unpackExponent value.toBits.toBitVec
  have fraction : (@UnpackedFloat.unpackMantissa .binary64 value.toBits.toBitVec).toNat =
      value.toBits.toNat % leastMantissa := toNat_unpackMantissa value.toBits.toBitVec
  have sign : Sign.ofBitVec (@UnpackedFloat.unpackSign .binary64 value.toBits.toBitVec) =
      signOf (decide (2048 * leastMantissa ≤ value.toBits.toNat)) := ofBitVec_unpackSign value.toBits.toBitVec
  have less : value.toBits.toNat % leastMantissa < leastMantissa := Nat.mod_lt _ (by decide)
  have all {bits : BitVec 11} : bits = -1#11 ↔ bits.toNat = 2047 := by rw [← BitVec.toNat_inj]; rfl
  have none {bits : BitVec 11} : bits = 0#11 ↔ bits.toNat = 0 := by rw [← BitVec.toNat_inj]; rfl
  have least {bits : BitVec 52} : bits = 0#52 ↔ bits.toNat = 0 := by rw [← BitVec.toNat_inj]; rfl
  -- Both sides take the same three fields from the bits: an exponent of all ones, of zero, or between.
  change mantissa < 2 ^ 53 ∧ exponent ≤ 971 ∧
    ofUnpacked (UnpackedFloat.unpack .binary64 value.toBits.toBitVec) = _
  unfold UnpackedFloat.unpack
  unfold Binary.ofFloat Binary.ofBits at parts
  dsimp only at parts ⊢
  rw [sign]
  split at parts
  · split at parts <;> cases parts
  next notAll =>
    rw [if_neg (fun same => notAll (field.symm.trans (all.mp same)))]
    split at parts
    next zero =>
      cases parts
      rw [if_pos (none.mpr (field.trans zero))]
      refine ⟨by unfold leastMantissa at *; omega, by decide, ?_⟩
      split
      next empty =>
        rw [ofUnpacked_zero, ← fraction, least.mp empty, magnitude, Nat.zero_mul]
        generalize signOf _ = sign
        cases sign <;> rfl
      next =>
        simp only [ofUnpacked, field, zero, fraction, Format.exponentBias]
        rfl
    next notZero =>
      cases parts
      rw [if_neg (fun same => notZero (field.symm.trans (none.mp same)))]
      have most := Nat.mod_lt (value.toBits.toNat / leastMantissa) (by decide : 0 < 2048)
      refine ⟨by unfold leastMantissa at *; omega, by unfold leastExponent; omega, ?_⟩
      have place : ((@UnpackedFloat.unpackExponent .binary64 value.toBits.toBitVec).toNat : ℤ) -
          (Format.binary64.exponentBias + Format.binary64.mantissaBitsWithoutImplicit) =
          leastExponent + (value.toBits.toNat / leastMantissa % 2048 : ℕ) - 1 := by
        rw [field]
        simp only [Format.exponentBias, leastExponent]
        omega
      rw [ofUnpacked, place, toNat_implicit, fraction]
      rfl
end PacketReplay.Decimal
