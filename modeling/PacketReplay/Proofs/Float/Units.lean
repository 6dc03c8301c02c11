import Mathlib

/-!
# Numbers in units

Every finite double-precision number is a whole multiple of the least positive one, `2 ^ -1074`. Counted in
these units numbers are ordered like integers, with infinite numbers at the first power of two that is too
large to be finite.
-/
namespace PacketReplay.Binary64

open Float.Model (UnpackedFloat Format)
open Float.Model.UnpackedFloat (Sign)

/-- How far the exponent of the greatest finite numbers is from the least one. -/
def reach : ℕ := 2045

/-- The units of infinity. -/
def bound : ℕ := 2 ^ 53 * 2 ^ reach

/-- The units of a magnitude. -/
def magnitude (mantissa : ℕ) (exponent : ℤ) : ℕ := mantissa * 2 ^ (exponent + 1074).toNat

/-- The units of a number that is taken apart; what is not a number has none. -/
def ofUnpacked : UnpackedFloat → ℤ
  | .notANumber | .zero _ => 0
  | .infinity sign => sign.apply bound
  | .finite sign mantissa exponent _ => sign.apply (magnitude mantissa exponent)

theorem ofUnpacked_zero (sign : Sign) : ofUnpacked (.zero sign) = 0 := rfl

/-! ### Canonical forms -/

/-- A mantissa has at most 53 bits, and fewer only if the exponent is the least one. -/
structure Canonical (mantissa : ℕ) (exponent : ℤ) : Prop where
  mantissa_lt : mantissa < 2 ^ 53
  least_le : -1074 ≤ exponent
  normal : 2 ^ 52 ≤ mantissa ∨ exponent = -1074

namespace Canonical

variable {mantissa other : ℕ} {exponent higher : ℤ}

/-- Of two canonical forms the one with the higher exponent is greater. -/
theorem magnitude_lt (low : Canonical mantissa exponent) (high : Canonical other higher)
    (less : exponent < higher) : magnitude mantissa exponent < magnitude other higher := by
  -- The higher exponent is not the least one, so its mantissa has all 53 bits.
  have full : 2 ^ 52 ≤ other := high.normal.resolve_right (by have := low.least_le; omega)
  have steps : (exponent + 1074).toNat + 1 ≤ (higher + 1074).toNat := by
    have least := low.least_le
    omega
  calc magnitude mantissa exponent
      < 2 ^ 53 * 2 ^ (exponent + 1074).toNat := Nat.mul_lt_mul_of_pos_right low.mantissa_lt (Nat.two_pow_pos _)
    _ = 2 ^ 52 * 2 ^ ((exponent + 1074).toNat + 1) := by ring
    _ ≤ other * 2 ^ (higher + 1074).toNat := Nat.mul_le_mul full (Nat.pow_le_pow_right (by decide) steps)

theorem magnitude_lt_bound (canonical : Canonical mantissa exponent) (small : exponent ≤ 971) :
    magnitude mantissa exponent < bound := by
  have steps : (exponent + 1074).toNat ≤ reach := by
    unfold reach
    omega
  calc magnitude mantissa exponent
      < 2 ^ 53 * 2 ^ (exponent + 1074).toNat :=
        Nat.mul_lt_mul_of_pos_right canonical.mantissa_lt (Nat.two_pow_pos _)
    _ ≤ bound := Nat.mul_le_mul_left _ (Nat.pow_le_pow_right (by decide) steps)

theorem bound_le_magnitude (canonical : Canonical mantissa exponent) (large : 971 < exponent) :
    bound ≤ magnitude mantissa exponent := by
  have full : 2 ^ 52 ≤ mantissa := canonical.normal.resolve_right (by omega)
  have steps : reach + 1 ≤ (exponent + 1074).toNat := by
    unfold reach
    omega
  calc bound = 2 ^ 52 * 2 ^ (reach + 1) := by
        rw [bound]
        ring
    _ ≤ magnitude mantissa exponent := Nat.mul_le_mul full (Nat.pow_le_pow_right (by decide) steps)

/-- Comparing exponents and then mantissas is comparing magnitudes. -/
theorem compare_eq (left : Canonical mantissa exponent) (right : Canonical other higher) :
    (compare exponent higher).then (compare mantissa other) =
      compare (magnitude mantissa exponent : ℤ) (magnitude other higher) := by
  rcases lt_trichotomy exponent higher with less | rfl | more
  · have smaller := left.magnitude_lt right less
    rw [compare_lt_iff_lt.mpr less, compare_lt_iff_lt.mpr (Int.ofNat_lt.mpr smaller)]
    rfl
  · have scaled : ∀ {a b : ℕ}, a < b → magnitude a exponent < magnitude b exponent :=
      fun less => Nat.mul_lt_mul_of_pos_right less (Nat.two_pow_pos _)
    rw [compare_eq_iff_eq.mpr rfl]
    rcases lt_trichotomy mantissa other with less | rfl | more
    · rw [compare_lt_iff_lt.mpr less, compare_lt_iff_lt.mpr (Int.ofNat_lt.mpr (scaled less))]
      rfl
    · rw [compare_eq_iff_eq.mpr rfl, compare_eq_iff_eq.mpr rfl]
      rfl
    · rw [compare_gt_iff_gt.mpr more, compare_gt_iff_gt.mpr (Int.ofNat_lt.mpr (scaled more))]
      rfl
  · have greater := right.magnitude_lt left more
    rw [compare_gt_iff_gt.mpr more, compare_gt_iff_gt.mpr (Int.ofNat_lt.mpr greater)]
    rfl

end Canonical

/-- A number taken apart as it is in memory. -/
def Fits : UnpackedFloat → Prop
  | .notANumber => False
  | .infinity _ | .zero _ => True
  | .finite _ mantissa exponent _ => Canonical mantissa exponent ∧ exponent ≤ 971

theorem bound_pos : 0 < bound := Nat.mul_pos (by decide) (Nat.two_pow_pos _)

theorem magnitude_pos {mantissa : ℕ} (positive : 0 < mantissa) (exponent : ℤ) : 0 < magnitude mantissa exponent :=
  Nat.mul_pos positive (Nat.two_pow_pos _)

theorem Fits.finite {sign : Sign} {mantissa : ℕ} {exponent : ℤ} {nonzero : 0 < mantissa}
    (fits : Fits (.finite sign mantissa exponent nonzero)) :
    0 < magnitude mantissa exponent ∧ magnitude mantissa exponent < bound :=
  ⟨magnitude_pos nonzero exponent, fits.1.magnitude_lt_bound fits.2⟩

/-! ### Order -/

/-- How two integers compare. -/
def Compares : Ordering → ℤ → ℤ → Prop
  | .lt, left, right => left < right
  | .eq, left, right => left = right
  | .gt, left, right => right < left

theorem Compares.some_eq {ordering : Ordering} {left right : ℤ} (compares : Compares ordering left right) :
    some ordering = some (compare left right) := by
  cases ordering with
  | lt => rw [compare_lt_iff_lt.mpr compares]
  | eq => rw [compare_eq_iff_eq.mpr compares]
  | gt => rw [compare_gt_iff_gt.mpr compares]

theorem swap_compare (left right : ℤ) : (compare left right).swap = compare (-left) (-right) := by
  rcases lt_trichotomy left right with less | rfl | more
  · rw [compare_lt_iff_lt.mpr less, compare_gt_iff_gt.mpr (Int.neg_lt_neg less)]
    rfl
  · rw [compare_eq_iff_eq.mpr rfl, compare_eq_iff_eq.mpr rfl]
    rfl
  · rw [compare_gt_iff_gt.mpr more, compare_lt_iff_lt.mpr (Int.neg_lt_neg more)]
    rfl

/-- Numbers are compared by their units. -/
theorem compare_eq {left right : UnpackedFloat} (fitsLeft : Fits left) (fitsRight : Fits right) :
    left.compare right = some (compare (ofUnpacked left) (ofUnpacked right)) := by
  have positive := bound_pos
  -- Two finite numbers of one sign are compared by exponent and mantissa, all others by their kinds.
  rcases left with sign | _ | sign | ⟨sign, mantissa, exponent, nonzero⟩
  · rcases right with other | _ | other | ⟨other, mantissa', exponent', nonzero'⟩
    · cases sign <;> cases other
      · exact Compares.some_eq (show Compares .eq _ _ from rfl)
      · exact Compares.some_eq (show Compares .lt _ _ by simp only [Compares, ofUnpacked, Sign.apply]; omega)
      · exact Compares.some_eq (show Compares .gt _ _ by simp only [Compares, ofUnpacked, Sign.apply]; omega)
      · exact Compares.some_eq (show Compares .eq _ _ from rfl)
    · cases fitsRight
    · cases sign <;> exact Compares.some_eq (by simp only [Compares, ofUnpacked, Sign.apply]; omega)
    · have right := fitsRight.finite
      cases sign <;> cases other <;>
        exact Compares.some_eq (by simp only [Compares, ofUnpacked, Sign.apply]; omega)
  · cases fitsLeft
  · rcases right with other | _ | other | ⟨other, mantissa', exponent', nonzero'⟩
    · cases other <;> exact Compares.some_eq (by simp only [Compares, ofUnpacked, Sign.apply]; omega)
    · cases fitsRight
    · exact Compares.some_eq rfl
    · have right := fitsRight.finite
      cases other <;> exact Compares.some_eq (by simp only [Compares, ofUnpacked, Sign.apply]; omega)
  · have left := fitsLeft.finite
    rcases right with other | _ | other | ⟨other, mantissa', exponent', nonzero'⟩
    · cases sign <;> cases other <;>
        exact Compares.some_eq (by simp only [Compares, ofUnpacked, Sign.apply]; omega)
    · cases fitsRight
    · cases sign <;> exact Compares.some_eq (by simp only [Compares, ofUnpacked, Sign.apply]; omega)
    · have right := fitsRight.finite
      have ordered := fitsLeft.1.compare_eq fitsRight.1
      cases sign <;> cases other
      · -- Of two negative numbers the one with the greater magnitude is less.
        change some ((compare exponent exponent').then (compare mantissa mantissa')).swap = _
        rw [ordered, swap_compare]
        rfl
      · exact Compares.some_eq (by simp only [Compares, ofUnpacked, Sign.apply]; omega)
      · exact Compares.some_eq (by simp only [Compares, ofUnpacked, Sign.apply]; omega)
      · exact congrArg some ordered

/-! ### Packed numbers -/

open Float.Model.UnpackedFloat (packComponents unpackSign unpackMantissa unpackExponent
  unpackMantissa_packComponents unpackExponent_packComponents)

theorem toNat_implicit (fraction : BitVec 52) : (1#1 ++ fraction).toNat = 2 ^ 52 + fraction.toNat := by
  rw [BitVec.toNat_append, ← Nat.shiftLeft_add_eq_or_of_lt fraction.isLt]
  rfl

/-- What is in memory is a number or says that it is none. -/
theorem unpack_cases (number : Float.Model) : number.unpack = .notANumber ∨ Fits number.unpack := by
  unfold Float.Model.unpack UnpackedFloat.unpack
  dsimp only
  have fraction : (@unpackMantissa .binary64 number.toBits.toBitVec).toNat < 2 ^ 52 := BitVec.isLt _
  have field : (@unpackExponent .binary64 number.toBits.toBitVec).toNat < 2 ^ 11 := BitVec.isLt _
  -- A field of ones belongs to an infinity or says that there is no number.
  split
  · split
    · exact .inr trivial
    · exact .inl rfl
  next notAll =>
    right
    have notAllOnes : (@unpackExponent .binary64 number.toBits.toBitVec).toNat ≠ 2047 :=
      fun same => notAll (BitVec.toNat_inj.mp same)
    split
    next zero =>
      split
      · trivial
      · -- A field of zeros with a fraction: the exponent is the least one, and the first bit is missing.
        have least : (@unpackExponent .binary64 number.toBits.toBitVec).toNat = 0 :=
          congrArg BitVec.toNat zero
        refine ⟨⟨Nat.lt_trans fraction (by decide), ?_, .inr ?_⟩, ?_⟩
        all_goals
          simp only [Float.Model.Format.exponentBias, least]
          decide
    next notZero =>
      have positive : (@unpackExponent .binary64 number.toBits.toBitVec).toNat ≠ 0 :=
        fun same => notZero (BitVec.toNat_inj.mp same)
      refine ⟨⟨?_, ?_, .inl ?_⟩, ?_⟩
      · rw [toNat_implicit]
        omega
      · simp only [Float.Model.Format.exponentBias]
        omega
      · rw [toNat_implicit]
        omega
      · simp only [Float.Model.Format.exponentBias]
        omega

theorem unpackSign_packComponents {format : Format} (sign : Sign) (exponent : BitVec format.exponentBits)
    (fraction : BitVec format.mantissaBitsWithoutImplicit) :
    Sign.ofBitVec (unpackSign (packComponents format sign exponent fraction)) = sign := by
  have field : unpackSign (packComponents format sign exponent fraction) = sign.toBitVec := by
    ext i inside
    obtain rfl : i = 0 := by omega
    simp [unpackSign, packComponents, BitVec.getLsbD_append, BitVec.getElem_append]
  rw [field]
  cases sign <;> rfl

theorem biased_eq (exponent : ℤ) :
    (exponent + Format.exponentBias .binary64 + (52 : ℕ)).toNat = (exponent + 1075).toNat := by
  simp only [Format.exponentBias]
  omega

theorem ofNat_ne {width number : ℕ} (fits : number < 2 ^ width) {field : BitVec width}
    (differs : number ≠ field.toNat) : BitVec.ofNat width number ≠ field := by
  rw [BitVec.toNat_ne, BitVec.toNat_ofNat, Nat.mod_eq_of_lt fits]
  exact differs

section Memory

variable {sign : Sign} {mantissa : ℕ} {exponent : ℤ} (nonzero : 0 < mantissa)

/-- A mantissa of 53 bits in memory. The first bit is not stored, as it goes without saying. -/
theorem unpack_normal (canonical : Canonical mantissa exponent) (small : exponent ≤ 971)
    (full : 2 ^ 52 ≤ mantissa) :
    UnpackedFloat.unpack .binary64 (packComponents .binary64 sign (BitVec.ofNat 11 (exponent + 1075).toNat)
      (BitVec.ofNat 52 mantissa)) = .finite sign mantissa exponent nonzero := by
  have least := canonical.least_le
  have below := canonical.mantissa_lt
  -- The least and the greatest value of the exponent field are kept for other numbers.
  have fits : (exponent + 1075).toNat < 2 ^ 11 := by omega
  have field : (BitVec.ofNat 11 (exponent + 1075).toNat).toNat = (exponent + 1075).toNat := by
    rw [BitVec.toNat_ofNat, Nat.mod_eq_of_lt fits]
  have all : (-1#11).toNat = 2047 := rfl
  have notAll : BitVec.ofNat 11 (exponent + 1075).toNat ≠ -1#_ := ofNat_ne fits (by omega)
  have notZero : BitVec.ofNat 11 (exponent + 1075).toNat ≠ 0#_ :=
    ofNat_ne fits (by rw [BitVec.toNat_zero]; omega)
  unfold UnpackedFloat.unpack
  simp only [unpackMantissa_packComponents, unpackExponent_packComponents, unpackSign_packComponents,
    if_neg notAll, if_neg notZero, field, toNat_implicit, BitVec.toNat_ofNat, UnpackedFloat.finite.injEq]
  refine ⟨trivial, ?_, ?_⟩
  · omega
  · simp only [Format.exponentBias]
    omega

/-- A mantissa of fewer bits in memory: its exponent is the least one. -/
theorem unpack_subnormal (few : mantissa < 2 ^ 52) :
    UnpackedFloat.unpack .binary64 (packComponents .binary64 sign 0#11 (BitVec.ofNat 52 mantissa)) =
      .finite sign mantissa (-1074) nonzero := by
  have field : (BitVec.ofNat 52 mantissa).toNat = mantissa := by
    rw [BitVec.toNat_ofNat, Nat.mod_eq_of_lt few]
  have notZero : BitVec.ofNat 52 mantissa ≠ 0#_ := ofNat_ne few (by rw [BitVec.toNat_zero]; omega)
  have notAll : (0#11) ≠ -1#_ := by decide
  unfold UnpackedFloat.unpack
  simp only [unpackMantissa_packComponents, unpackExponent_packComponents, unpackSign_packComponents,
    if_neg notAll, if_true, dif_neg notZero, field, UnpackedFloat.finite.injEq]
  exact ⟨trivial, trivial, rfl⟩

/-- A canonical form comes back from memory if its exponent is not too large. -/
theorem unpack_pack_finite (canonical : Canonical mantissa exponent) (small : exponent ≤ 971) :
    UnpackedFloat.unpack .binary64 (UnpackedFloat.pack .binary64 (.finite sign mantissa exponent nonzero)) =
      .finite sign mantissa exponent nonzero := by
  have below := canonical.mantissa_lt
  have fits : ¬ 2 ^ 11 ≤ (exponent + 1075).toNat + 1 := by omega
  unfold UnpackedFloat.pack
  simp only [biased_eq exponent, if_neg fits]
  split
  next full =>
    have bits : mantissa.log2 + 1 = 53 := full
    exact unpack_normal nonzero canonical small ((Nat.le_log2 nonzero.ne').mp (by omega))
  next notFull =>
    have bits : mantissa.log2 + 1 ≠ 53 := notFull
    have few : mantissa < 2 ^ 52 := by
      have log := (Nat.log2_lt nonzero.ne').mpr below
      exact (Nat.log2_lt nonzero.ne').mp (by omega)
    obtain rfl : exponent = -1074 := canonical.normal.resolve_left (by omega)
    exact unpack_subnormal nonzero few

end Memory

/-- A number in canonical form, whether it can be stored or not. -/
def IsCanonical : UnpackedFloat → Prop
  | .notANumber => False
  | .infinity _ | .zero _ => True
  | .finite _ mantissa exponent _ => Canonical mantissa exponent

/-- Units beyond those of infinity are cut off. -/
def clamp (units : ℤ) : ℤ := max (-bound) (min bound units)

theorem clamp_mono {left right : ℤ} (atMost : left ≤ right) : clamp left ≤ clamp right := by
  rw [clamp, clamp]
  omega

theorem clamp_of_le {units : ℤ} (low : -bound ≤ units) (high : units ≤ bound) : clamp units = units := by
  rw [clamp]
  omega

theorem apply_bounds (sign : Sign) {units limit : ℕ} (atMost : units ≤ limit) :
    -limit ≤ sign.apply units ∧ sign.apply units ≤ limit := by
  cases sign <;> simp only [Sign.apply] <;> omega

theorem unpack_pack_infinity (sign : Sign) :
    UnpackedFloat.unpack .binary64 (UnpackedFloat.pack .binary64 (.infinity sign)) = .infinity sign := by
  cases sign <;> rfl

/-- Storing a canonical form turns it into infinity if it is too large, and changes nothing else. -/
theorem unpack_pack {number : UnpackedFloat} (canonical : IsCanonical number) :
    Fits (Float.Model.pack number).unpack ∧ ofUnpacked (Float.Model.pack number).unpack = clamp (ofUnpacked number) := by
  have positive := bound_pos
  change Fits (UnpackedFloat.unpack .binary64 (UnpackedFloat.pack .binary64 number)) ∧
    ofUnpacked (UnpackedFloat.unpack .binary64 (UnpackedFloat.pack .binary64 number)) = _
  cases number with
  | notANumber => cases canonical
  | infinity sign =>
    obtain ⟨low, high⟩ := apply_bounds sign (le_refl bound)
    rw [unpack_pack_infinity]
    exact ⟨trivial, (clamp_of_le low high).symm⟩
  | zero sign =>
    have stored : UnpackedFloat.unpack .binary64 (UnpackedFloat.pack .binary64 (.zero sign)) = .zero sign := by
      cases sign <;> rfl
    rw [stored]
    refine ⟨trivial, (clamp_of_le ?_ ?_).symm⟩ <;> simp only [ofUnpacked] <;> omega
  | finite sign mantissa exponent nonzero =>
    by_cases small : exponent ≤ 971
    · obtain ⟨low, high⟩ := apply_bounds sign (canonical.magnitude_lt_bound small).le
      rw [unpack_pack_finite nonzero canonical small]
      exact ⟨⟨canonical, small⟩, (clamp_of_le low high).symm⟩
    · -- The exponent field overflows, as it does for every magnitude from that of infinity on.
      have more := canonical.bound_le_magnitude (not_le.mp small)
      have stored : UnpackedFloat.pack .binary64 (.finite sign mantissa exponent nonzero) =
          UnpackedFloat.pack .binary64 (.infinity sign) := by
        have tooLarge : 2 ^ 11 ≤ (exponent + 1075).toNat + 1 := by omega
        simp only [UnpackedFloat.pack, biased_eq, if_pos tooLarge]
      rw [stored, unpack_pack_infinity]
      refine ⟨trivial, ?_⟩
      cases sign <;> simp only [ofUnpacked, Sign.apply, clamp] <;> omega

/-! ### Floating-point numbers -/

/-- A number in units of `2 ^ -1074`. -/
def units (value : Float) : ℤ := ofUnpacked value.toModel.unpack

/-- The value is a number, which may be infinite. -/
def IsNumber (value : Float) : Prop := Fits value.toModel.unpack

variable {left right : Float}

theorem le_iff_unpacked : left ≤ right ↔ left.toModel.unpack.le right.toModel.unpack = true :=
  decide_eq_true_iff

theorem lt_iff_unpacked : left < right ↔ left.toModel.unpack.lt right.toModel.unpack = true :=
  decide_eq_true_iff

theorem le_iff_units (isLeft : IsNumber left) (isRight : IsNumber right) :
    left ≤ right ↔ units left ≤ units right := by
  rw [le_iff_unpacked, UnpackedFloat.le, compare_eq isLeft isRight, Option.any_some, Ordering.isLE_iff_ne_gt,
    ← ne_eq, compare_le_iff_le]
  rfl

theorem lt_iff_units (isLeft : IsNumber left) (isRight : IsNumber right) :
    left < right ↔ units left < units right := by
  rw [lt_iff_unpacked, UnpackedFloat.lt, compare_eq isLeft isRight, beq_iff_eq, Option.some.injEq,
    compare_lt_iff_lt]
  rfl

theorem isNumber_or (value : Float) : IsNumber value ∨ value.toModel.unpack = .notANumber :=
  (unpack_cases value.toModel).symm

/-- Only numbers are compared. -/
theorem isNumber_of_compare {ordering : Ordering}
    (compares : left.toModel.unpack.compare right.toModel.unpack = some ordering) :
    IsNumber left ∧ IsNumber right := by
  constructor
  · rcases isNumber_or left with isLeft | none
    · exact isLeft
    · rw [none] at compares
      cases compares
  · rcases isNumber_or right with isRight | none
    · exact isRight
    · have incomparable (number : UnpackedFloat) : number.compare .notANumber = .none := by cases number <;> rfl
      rw [none, incomparable] at compares
      cases compares

theorem isNumber_of_le (atMost : left ≤ right) : IsNumber left ∧ IsNumber right := by
  rw [le_iff_unpacked, UnpackedFloat.le, Option.any_eq_true] at atMost
  obtain ⟨ordering, compares, _⟩ := atMost
  exact isNumber_of_compare compares

theorem isNumber_of_lt (less : left < right) : IsNumber left ∧ IsNumber right := by
  rw [lt_iff_unpacked, UnpackedFloat.lt, beq_iff_eq] at less
  exact isNumber_of_compare less

theorem units_le_of_le (atMost : left ≤ right) : units left ≤ units right := by
  obtain ⟨isLeft, isRight⟩ := isNumber_of_le atMost
  exact (le_iff_units isLeft isRight).mp atMost

theorem atMost_trans {value : Float} (first : left ≤ right) (second : right ≤ value) : left ≤ value :=
  (le_iff_units (isNumber_of_le first).1 (isNumber_of_le second).2).mpr
    ((units_le_of_le first).trans (units_le_of_le second))

theorem units_lt_of_lt (less : left < right) : units left < units right := by
  obtain ⟨isLeft, isRight⟩ := isNumber_of_lt less
  exact (lt_iff_units isLeft isRight).mp less

/-- The finite numbers are those with fewer units than infinity. -/
theorem isFinite_iff_units (value : Float) :
    value.isFinite = true ↔ IsNumber value ∧ -bound < units value ∧ units value < bound := by
  change value.toModel.unpack.isFinite = true ↔ Fits value.toModel.unpack ∧
    -bound < ofUnpacked value.toModel.unpack ∧ ofUnpacked value.toModel.unpack < bound
  have positive := bound_pos
  rcases unpack_cases value.toModel with none | fits
  · rw [none]
    exact ⟨nofun, fun number => number.1.elim⟩
  · generalize value.toModel.unpack = number at fits ⊢
    cases number with
    | notANumber => cases fits
    | infinity sign =>
      refine iff_of_false nofun ?_
      cases sign <;> simp only [ofUnpacked, Sign.apply] <;> omega
    | zero sign =>
      refine iff_of_true rfl ⟨trivial, ?_⟩
      rw [ofUnpacked_zero]
      omega
    | finite sign mantissa exponent nonzero =>
      have finite := fits.finite
      refine iff_of_true rfl ⟨fits, ?_⟩
      cases sign <;> simp only [ofUnpacked, Sign.apply] <;> omega

theorem le_self_of_finite {value : Float} (finite : value.isFinite = true) : value ≤ value := by
  obtain ⟨isNumber, _⟩ := (isFinite_iff_units value).mp finite
  exact (le_iff_units isNumber isNumber).mpr le_rfl

theorem unpack_abs (value : Float) :
    value.abs.toModel.unpack = (Float.Model.pack value.toModel.unpack.abs).unpack := rfl

theorem abs_units {value : Float} (isNumber : IsNumber value) :
    IsNumber value.abs ∧ units value.abs = |units value| := by
  unfold IsNumber units at *
  rw [unpack_abs]
  have positive := bound_pos
  generalize value.toModel.unpack = number at isNumber ⊢
  -- Only the sign changes, so the magnitude fits where the number did and nothing is cut off.
  have canonical : IsCanonical number.abs := by
    cases number with
    | notANumber => cases isNumber
    | infinity | zero => trivial
    | finite => exact isNumber.1
  have natural (n : ℕ) : |(n : ℤ)| = n := abs_of_nonneg (Int.natCast_nonneg n)
  have magnitude : ofUnpacked number.abs = |ofUnpacked number| ∧ |ofUnpacked number| ≤ bound := by
    cases number with
    | notANumber => cases isNumber
    | infinity sign =>
      cases sign <;> simp only [UnpackedFloat.abs, ofUnpacked, Sign.apply, abs_neg, natural, le_refl, and_self]
    | zero sign => exact ⟨abs_zero.symm, by rw [ofUnpacked_zero, abs_zero]; omega⟩
    | finite sign mantissa exponent nonzero =>
      have finite := isNumber.finite
      have atMost : (magnitude mantissa exponent : ℤ) ≤ bound := by omega
      cases sign <;>
        simpa only [UnpackedFloat.abs, ofUnpacked, Sign.apply, abs_neg, natural, true_and] using atMost
  obtain ⟨fits, stored⟩ := unpack_pack canonical
  refine ⟨fits, ?_⟩
  rw [stored, magnitude.1, clamp_of_le (le_trans (by omega) (abs_nonneg _)) magnitude.2]

theorem isNumber_of_abs {value : Float} (isAbs : IsNumber value.abs) : IsNumber value := by
  rcases isNumber_or value with isNumber | none
  · exact isNumber
  · rw [IsNumber, unpack_abs, none] at isAbs
    cases isAbs

/-- A number that is not finite is an infinite one. -/
theorem IsNumber.cases {value : Float} (isNumber : IsNumber value) :
    value.isFinite = true ∨ ∃ sign, value.toModel.unpack = .infinity sign := by
  change value.toModel.unpack.isFinite = true ∨ _
  unfold IsNumber at isNumber
  generalize value.toModel.unpack = number at isNumber ⊢
  cases number with
  | notANumber => cases isNumber
  | infinity sign => exact .inr ⟨sign, rfl⟩
  | zero | finite => exact .inl rfl

theorem units_of_infinity {value : Float} {sign : Sign} (infinite : value.toModel.unpack = .infinity sign) :
    units value = sign.apply bound := by
  rw [units, infinite, ofUnpacked]

theorem isNumber_of_infinity {value : Float} {sign : Sign} (infinite : value.toModel.unpack = .infinity sign) :
    IsNumber value := by
  rw [IsNumber, infinite]
  trivial

theorem units_bounds {value : Float} (isNumber : IsNumber value) :
    -bound ≤ units value ∧ units value ≤ bound := by
  rcases isNumber.cases with finite | ⟨sign, infinite⟩
  · obtain ⟨_, low, high⟩ := (isFinite_iff_units value).mp finite
    exact ⟨low.le, high.le⟩
  · rw [units_of_infinity infinite]
    exact apply_bounds sign (le_refl bound)

theorem infinity_of_units {value : Float} (isNumber : IsNumber value) {sign : Sign}
    (atEnd : units value = sign.apply bound) : value.toModel.unpack = .infinity sign := by
  have positive := bound_pos
  rcases isNumber.cases with finite | ⟨other, infinite⟩
  · obtain ⟨_, low, high⟩ := (isFinite_iff_units value).mp finite
    cases sign <;> simp only [Sign.apply] at atEnd <;> omega
  · have otherEnd := units_of_infinity infinite
    obtain rfl : other = sign := by
      cases sign <;> cases other <;> simp only [Sign.apply] at atEnd otherEnd <;> first | rfl | omega
    exact infinite

end PacketReplay.Binary64
