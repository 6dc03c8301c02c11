import PacketReplay.Decimal.Reading
import PacketReplay.Proofs.Decimal.Binary
import PacketReplay.Proofs.Float.Scaling

/-!
# Written numbers are accepted

The reader of data files refuses a number that is too large, and rounds twice on the way: the digits it has
taken, and their product with a power of ten. The digits of a finite number stand for a decimal in the
interval that rounds to it, and the two errors do not lead from there to infinity. So every finite number
that is written is accepted, as a finite number of the same sign.
-/
namespace PacketReplay.Decimal

open Text Binary64
open Float.Model (UnpackedFloat Format)

/-! ### Digits -/

theorem numberFrom_append (value : ℕ) (front back : List (Fin 10)) :
    numberFrom value (front ++ back) = numberFrom (numberFrom value front) back := by
  induction front generalizing value with
  | nil => rfl
  | cons digit rest ih => exact ih _

theorem numberFrom_lastDigits (count number : ℕ) :
    numberFrom (number / 10 ^ count) (lastDigits count number) = number := by
  induction count generalizing number with
  | zero => simp [lastDigits, numberFrom]
  | succ count ih =>
    rw [lastDigits, numberFrom_append, pow_succ', ← Nat.div_div_eq_div_mul, ih]
    simp only [numberFrom]
    omega

/-- Following digits only make a number greater. -/
theorem mul_pow_le_numberFrom (value : ℕ) (digits : List (Fin 10)) :
    value * 10 ^ digits.length ≤ numberFrom value digits := by
  induction digits generalizing value with
  | nil => simp [numberFrom]
  | cons digit rest ih =>
    calc value * 10 ^ (digit :: rest).length
        = value * 10 * 10 ^ rest.length := by rw [List.length_cons, pow_succ]; ring
      _ ≤ (value * 10 + digit) * 10 ^ rest.length := Nat.mul_le_mul_right _ (by omega)
      _ ≤ numberFrom value (digit :: rest) := ih _

theorem digitsBefore_length (budget number : ℕ) (tail : List (Fin 10)) (enough : number < budget) :
    ∃ count, (digitsBefore budget number tail).length = count + tail.length ∧ number < 10 ^ count := by
  induction budget generalizing number tail with
  | zero => omega
  | succ budget ih =>
    simp only [digitsBefore]
    split
    next small => exact ⟨1, by simp [Nat.add_comm], by omega⟩
    next large =>
      obtain ⟨count, length, less⟩ := ih (number / 10) (⟨number % 10, _⟩ :: tail) (by omega)
      refine ⟨count + 1, by rw [length, List.length_cons]; omega, ?_⟩
      rw [pow_succ]
      omega

theorem lt_pow_length_digitsOf (number : ℕ) : number < 10 ^ (digitsOf number).length := by
  obtain ⟨count, length, less⟩ := digitsBefore_length (number + 1) number [] (Nat.lt_succ_self number)
  rw [digitsOf, length]
  exact less

/-! ### The decimal of a numeral -/

/-- The number `significand * 10 ^ power`. -/
def scaledBy (significand : ℕ) (power : ℤ) : ℚ := significand * 10 ^ power

theorem scaledBy_add (significand : ℕ) (power shift : ℤ) :
    scaledBy significand (power + shift) = scaledBy significand power * 10 ^ shift := by
  rw [scaledBy, scaledBy, zpow_add₀ (by norm_num), mul_assoc]

theorem scaledBy_mul_pow (significand shift : ℕ) (power : ℤ) :
    scaledBy (significand * 10 ^ shift) power = scaledBy significand (power + shift) := by
  rw [scaledBy_add, scaledBy, scaledBy, zpow_natCast]
  push_cast
  ring

theorem length_digitsOf_pos (number : ℕ) : 0 < (digitsOf number).length :=
  List.length_pos_iff.mpr (digitsOf_ne_nil number)

/-- The layout of digits changes nothing in the number they stand for. -/
theorem scaled_layOut (style : Style) (negative : Bool) (digits : Digits) :
    scaledBy (style.layOut negative digits).scaled.1 (style.layOut negative digits).scaled.2 =
      scaledBy digits.significand digits.power := by
  obtain ⟨significand, power⟩ := digits
  unfold Style.layOut
  dsimp only
  split
  · rcases lt_or_ge power 0 with below | above
    · -- The digits after the point are the last ones.
      have places : power.toNat = 0 ∧ (-power).toNat ≠ 0 := by omega
      have some : (lastDigits (-power).toNat significand).isEmpty = false := by
        rw [List.isEmpty_eq_false_iff_exists_mem, ← List.length_pos_iff_exists_mem, length_lastDigits]
        omega
      have same : (0 - (-power).toNat : ℤ) = power := by omega
      simp only [Numeral.scaled, places.1, some, Bool.and_false, Bool.false_eq_true, ↓reduceIte, Nat.pow_eq, pow_zero,
        Nat.mul_one, numberFrom_lastDigits, length_lastDigits, Option.getD_none, same]
    · -- A whole number, perhaps with a zero after the point.
      obtain ⟨shift, rfl⟩ := Int.eq_ofNat_of_zero_le above
      have none : (-(shift : ℤ)).toNat = 0 := by omega
      have whole : significand * 10 ^ (shift : ℤ).toNat / 10 ^ 0 = significand * 10 ^ shift := by simp
      simp only [Numeral.scaled, none, Nat.pow_eq, lastDigits, List.isEmpty_nil, Bool.and_true, whole,
        Option.getD_none]
      split
      · have shifted := scaledBy_mul_pow (significand * 10 ^ shift) 1 (-1)
        have exact := scaledBy_mul_pow significand shift 0
        simp only [zero_add] at exact
        simpa [numberFrom, exact] using shifted
      · simpa [numberFrom] using scaledBy_mul_pow significand shift 0
  · have length := length_digitsOf_pos significand
    have same : (⟨significand, power⟩ : Digits).firstPlace - ((digitsOf significand).length - 1 : ℕ) = power := by
      simp only [Digits.firstPlace]
      omega
    simp only [Numeral.scaled, Nat.pow_eq, numberFrom_lastDigits, length_lastDigits, Option.getD_some, same]

/-- Where there is no exponent, the whole part has at most sixteen digits; elsewhere it has one. -/
theorem whole_layOut_le (negative : Bool) (digits : Digits) :
    (Style.json.layOut negative digits).whole ≤ maxWord := by
  obtain ⟨significand, power⟩ := digits
  have less := lt_pow_length_digitsOf significand
  have length := length_digitsOf_pos significand
  suffices digitsFew : (Style.json.layOut negative ⟨significand, power⟩).whole < 10 ^ 16 by
    have room : 10 ^ 16 ≤ maxWord := by decide
    omega
  unfold Style.layOut
  dsimp only
  split
  next positional =>
    have few : (digitsOf significand).length + power.toNat ≤ 16 + (-power).toNat := by
      have last : (⟨significand, power⟩ : Digits).firstPlace ≤ 15 := by
        simp only [Style.isPositional, Style.json, Bool.and_eq_true, decide_eq_true_eq] at positional
        exact positional.2
      simp only [Digits.firstPlace] at last
      omega
    rw [Nat.pow_eq, Nat.pow_eq, Nat.div_lt_iff_lt_mul (Nat.pow_pos (by decide))]
    calc significand * 10 ^ power.toNat
        < 10 ^ (digitsOf significand).length * 10 ^ power.toNat :=
          Nat.mul_lt_mul_of_pos_right less (Nat.pow_pos (by decide))
      _ = 10 ^ ((digitsOf significand).length + power.toNat) := by rw [pow_add]
      _ ≤ 10 ^ (16 + (-power).toNat) := Nat.pow_le_pow_right (by decide) few
      _ = 10 ^ 16 * 10 ^ (-power).toNat := by rw [pow_add]
  next =>
    rw [Nat.pow_eq, Nat.div_lt_iff_lt_mul (Nat.pow_pos (by decide)), ← pow_add]
    exact less.trans_le (Nat.pow_le_pow_right (by decide) (by omega))

/-! ### Taking digits -/

/-- Digits that are left out make a number smaller. -/
theorem takeFraction_le {significand : ℕ} (fits : significand ≤ maxWord) (power : ℤ) (digits : List (Fin 10)) :
    (takeFraction significand power digits).1 ≤ maxWord ∧
      scaledBy (takeFraction significand power digits).1 (takeFraction significand power digits).2 ≤
        scaledBy (numberFrom significand digits) (power - digits.length) := by
  induction digits generalizing significand power with
  | nil =>
    refine ⟨fits, le_of_eq ?_⟩
    simp [takeFraction, numberFrom]
  | cons digit rest ih =>
    rw [takeFraction]
    split
    next more =>
      have place : power - 1 - rest.length = power - (digit :: rest).length := by
        rw [List.length_cons, Nat.cast_add]
        omega
      obtain ⟨fits, atMost⟩ := ih more (power - 1)
      rw [place] at atMost
      exact ⟨fits, atMost⟩
    next =>
      refine ⟨fits, ?_⟩
      have back : power - (digit :: rest).length + (digit :: rest).length = power := by omega
      calc scaledBy significand power
          = scaledBy (significand * 10 ^ (digit :: rest).length) (power - (digit :: rest).length) := by
            rw [scaledBy_mul_pow, back]
        _ ≤ _ := by
            rw [scaledBy, scaledBy]
            have more : ((significand * 10 ^ (digit :: rest).length : ℕ) : ℚ) ≤
                (numberFrom significand (digit :: rest) : ℕ) :=
              Nat.cast_le.mpr (mul_pow_le_numberFrom significand (digit :: rest))
            gcongr

/-- The reading of a numeral whose whole part is a word: a significand of 64 bits and a power of ten that
stand for no more than the numeral does. -/
theorem accumulated?_of_whole_le {numeral : Numeral} (fits : numeral.whole ≤ maxWord) :
    ∃ significand power, significand ≤ maxWord ∧
      scaledBy significand power ≤ scaledBy numeral.scaled.1 numeral.scaled.2 ∧
      numeral.accumulated? = (scaleByPower? significand power).map (withSign numeral.negative) := by
  obtain ⟨negative, whole, fraction, exponent⟩ := numeral
  have allFit : fitWhole (whole + 1) whole = (whole, 0) := if_pos fits
  obtain ⟨word, atMost⟩ := takeFraction_le fits 0 fraction
  refine ⟨_, (takeFraction whole 0 fraction).2 + exponent.getD 0, word, ?_, ?_⟩
  · have place : exponent.getD 0 - (fraction.length : ℤ) = 0 - fraction.length + exponent.getD 0 := by omega
    rw [Numeral.scaled, place, scaledBy_add, scaledBy_add]
    gcongr
  · simp only [Numeral.accumulated?, allFit]
    rfl

/-! ### The digits of a number -/

/-- A point that is taken is not above the interval. -/
theorem OnGrid.le_high {grid : OnGrid} {point : ℕ} (holds : grid.holds point = true) :
    point * grid.unit ≤ grid.high := by
  unfold OnGrid.holds at holds
  split at holds
  · simp only [Bool.and_eq_true, decide_eq_true_eq] at holds
    exact holds.2
  · simp only [Bool.and_eq_true, decide_eq_true_eq] at holds
    exact holds.2.le

theorem searchGrids_le (tie : Tie) (mantissa : ℕ) (exponent : ℤ) (budget : ℕ) (power : ℤ) :
    let digits := searchGrids tie mantissa exponent budget power
    digits.significand * (onGrid mantissa exponent digits.power).unit ≤
      (onGrid mantissa exponent digits.power).high := by
  induction budget generalizing power with
  | zero =>
    calc _ ≤ (onGrid mantissa exponent power).value := Nat.div_mul_le_self _ _
      _ ≤ (onGrid mantissa exponent power).high := Nat.mul_le_mul_right _ (by omega)
  | succ budget ih =>
    unfold searchGrids
    split
    next point found => exact OnGrid.le_high (OnGrid.holds_of_point? found)
    next => exact ih (power - 1)

theorem zpow_mul_toNat_neg {base : ℚ} (nonzero : base ≠ 0) (power : ℤ) :
    base ^ power * base ^ (-power).toNat = base ^ power.toNat := by
  rw [← zpow_natCast, ← zpow_natCast, ← zpow_add₀ nonzero]
  congr 1
  omega

/-- The shortest digits are at most half a step above the magnitude. -/
theorem shortest_le (tie : Tie) (mantissa : ℕ) (exponent : ℤ) :
    scaledBy (shortest tie mantissa exponent).significand (shortest tie mantissa exponent).power ≤
      (4 * mantissa + 2) * 2 ^ (exponent - 2) := by
  unfold shortest
  split
  · rw [scaledBy]
    simp only [Nat.cast_zero, zero_mul]
    positivity
  · have within := searchGrids_le tie mantissa exponent 20 (powerAbove mantissa exponent)
    generalize searchGrids tie mantissa exponent 20 (powerAbove mantissa exponent) = digits at within ⊢
    obtain ⟨significand, power⟩ := digits
    simp only [onGrid, Nat.pow_eq] at within
    have exact : (significand : ℚ) * (2 ^ (2 - exponent).toNat * 10 ^ power.toNat) ≤
        (4 * mantissa + 2) * (2 ^ (exponent - 2).toNat * 10 ^ (-power).toNat) := by exact_mod_cast within
    -- Both sides are multiples of the unit of the grid.
    have twos := zpow_mul_toNat_neg (by norm_num : (2 : ℚ) ≠ 0) (exponent - 2)
    have tens := zpow_mul_toNat_neg (by norm_num : (10 : ℚ) ≠ 0) power
    rw [neg_sub] at twos
    rw [← twos, ← tens] at exact
    have unit : (0 : ℚ) < 2 ^ (2 - exponent).toNat * 10 ^ (-power).toNat := by positivity
    rw [scaledBy]
    refine le_of_mul_le_mul_right ?_ unit
    calc (significand : ℚ) * 10 ^ power * (2 ^ (2 - exponent).toNat * 10 ^ (-power).toNat)
        = significand * (2 ^ (2 - exponent).toNat * (10 ^ power * 10 ^ (-power).toNat)) := by ring
      _ ≤ (4 * mantissa + 2) * (2 ^ (exponent - 2) * 2 ^ (2 - exponent).toNat * 10 ^ (-power).toNat) := exact
      _ = (4 * mantissa + 2) * 2 ^ (exponent - 2) * (2 ^ (2 - exponent).toNat * 10 ^ (-power).toNat) := by ring

/-! ### Powers of ten -/

theorem ten_pow_lt_overflowing (power : Fin 309) : 10 ^ power.val * one < overflowing := by
  decide +kernel +revert

/-- The model takes a power of ten with 53 bits to spare and rounds it. -/
theorem ofScientific_one {power : ℕ} (small : power ≤ 2048) :
    UnpackedFloat.ofScientific .binary64 1 power =
      UnpackedFloat.roundWithAccuracy .binary64 .positive (10 ^ power * 2 ^ 53) (-53) .exact := by
  have notLarge : ¬ (power : ℤ) > 2 ^ Format.binary64.exponentBits := not_lt.mpr (Int.ofNat_le.mpr small)
  have notSmall : ¬ (power : ℤ) < -((2 ^ Format.binary64.exponentBits : ℤ) + Nat.log2 1) := by
    rw [not_lt]
    exact (by decide : -((2 ^ Format.binary64.exponentBits : ℤ) + Nat.log2 1) ≤ 0).trans
      (Int.natCast_nonneg power)
  have shifted : 10 ^ power * 2 ^ 53 = 2 ^ 53 * 10 ^ power := Nat.mul_comm _ _
  unfold UnpackedFloat.ofScientific
  rw [dif_neg Nat.one_ne_zero, if_neg notLarge, if_neg notSmall, if_pos (Int.natCast_nonneg power), shifted]
  rfl

/-- A power of ten is the whole number, rounded. -/
theorem isRounded_powerOfTen {power : ℕ} (small : power < 309) : IsRounded (powerOfTen power) (10 ^ power) := by
  rcases Nat.lt_or_ge power 23 with exact | large
  · -- These are in a table.
    have table : ∀ power : Fin 23, (powerOfTen power).isFinite = true ∧
        units (powerOfTen power) = roundedMagnitude (10 ^ power.val * one) := by decide +kernel
    obtain ⟨finite, same⟩ := table ⟨power, exact⟩
    exact ⟨finite, same⟩
  · have unpacked : (powerOfTen power).toModel =
        Float.Model.pack (UnpackedFloat.ofScientific .binary64 1 power) := by
      have notTable : ¬ (1 < 2 ^ 53 ∧ power ≤ 22) := by omega
      rw [powerOfTen, Float.ofScientific, dif_neg notTable]
      rfl
    rw [ofScientific_one (small.le.trans (by decide))] at unpacked
    have bits : 53 ≤ (10 ^ power * 2 ^ 53).log2 := by
      rw [log2_mul_two_pow (pow_ne_zero power (by decide))]
      omega
    have fine : (-53 : ℤ) ≤ max (((10 ^ power * 2 ^ 53).log2 : ℤ) + -53 - 52) (-1074) := by omega
    obtain ⟨canonical, rounded⟩ := roundWithAccuracy_exact .positive (by decide) fine
    have same : magnitude (10 ^ power * 2 ^ 53) (-53) = 10 ^ power * one :=
      (magnitude_mul_two_pow (10 ^ power) 53 (by decide)).trans (magnitude_zero (10 ^ power))
    rw [same] at rounded
    exact isRounded_of_unpacked (ten_pow_lt_overflowing ⟨power, small⟩) unpacked canonical rounded

theorem atLeastOne_powerOfTen {power : ℕ} (small : power < 309) : AtLeastOne (powerOfTen power) :=
  (isRounded_powerOfTen small).atLeastOne (Nat.pow_pos (by decide))

/-! ### Scaling -/

/-- The number is finite and not negative. -/
structure IsMagnitude (value : Float) : Prop where
  finite : value.isFinite = true
  nonneg : 0 ≤ units value

theorem IsMagnitude.div {value divisor : Float} (isMagnitude : IsMagnitude value) (large : AtLeastOne divisor) :
    IsMagnitude (value / divisor) := by
  obtain ⟨finite, nonneg, _⟩ := div_units_le isMagnitude.finite isMagnitude.nonneg large
  exact ⟨finite, nonneg⟩

/-- Scaling downward never fails, and no step leads above the number it starts from. -/
theorem isMagnitude_divideByPower (budget : ℕ) {value : Float} (isMagnitude : IsMagnitude value) (power : ℕ) :
    IsMagnitude (divideByPower budget value power) := by
  induction budget generalizing value power with
  | zero => exact isMagnitude
  | succ budget ih =>
    unfold divideByPower
    split
    next small => exact isMagnitude.div (atLeastOne_powerOfTen (by omega))
    next =>
      split
      · exact isMagnitude
      · exact ih (isMagnitude.div (atLeastOne_powerOfTen (by decide))) (power - 308)

/-- The exponent of a quarter of a step of the greatest numbers. -/
def quarterStep : ℕ := 969

/-- The digits of a finite number stand for no more than this, but for those of the two greatest numbers. -/
def largest : ℕ := (2 ^ 54 - 5) * 2 ^ (quarterStep + 1)

theorem largest_small : (2 ^ 53 + 1) ^ 2 * (largest * one) < 2 ^ 106 * overflowing := by decide +kernel

/-- The greatest power of ten that is finite. -/
def greatestPower : ℕ := 308

theorem largest_lt_ten_pow : largest < 10 ^ (greatestPower + 1) := by decide +kernel

theorem isMagnitude_toFloat (word : UInt64) : IsMagnitude word.toFloat :=
  ⟨(isRounded_toFloat word).finite, (isRounded_toFloat word).nonneg⟩

/-- Zero stays zero. -/
theorem isMagnitude_zero_mul {factor : Float} (large : AtLeastOne factor) :
    IsMagnitude ((0 : UInt64).toFloat * factor) := by
  obtain ⟨mantissa, exponent, nonzero, unpacked, _⟩ := large.unpacked
  have zero : (0 : UInt64).toFloat.toModel = Float.Model.pack (.zero .positive) := rfl
  have stored : (Float.Model.pack (.zero .positive)).unpack = .zero .positive := rfl
  have product : ((0 : UInt64).toFloat * factor).toModel.unpack = .zero .positive := by
    change (Float.Model.pack (UnpackedFloat.mul .binary64 (0 : UInt64).toFloat.toModel.unpack
      factor.toModel.unpack)).unpack = _
    rw [unpacked, zero, stored]
    exact stored
  constructor
  · change ((0 : UInt64).toFloat * factor).toModel.unpack.isFinite = true
    rw [product]
    rfl
  · rw [units, product]
    exact le_rfl

theorem IsMagnitude.isInf {value : Float} (isMagnitude : IsMagnitude value) : value.isInf = false := by
  have finite : value.toModel.unpack.isFinite = true := isMagnitude.finite
  change value.toModel.unpack.isInf = false
  generalize value.toModel.unpack = number at finite
  cases number with
  | notANumber | infinity => cases finite
  | zero | finite => rfl

theorem toNat_ofNat_of_le {word : ℕ} (fits : word ≤ maxWord) : (UInt64.ofNat word).toNat = word :=
  UInt64.toNat_ofNat_of_lt' (Nat.lt_of_le_pred (by decide) fits)

/-- Scaling upward gives a finite number, if the exact one is not too large. -/
theorem isMagnitude_mul {significand power : ℕ} (fits : significand ≤ maxWord) (small : power < 309)
    (within : significand * 10 ^ power ≤ largest) :
    IsMagnitude ((UInt64.ofNat significand).toFloat * powerOfTen power) := by
  rcases Nat.eq_zero_or_pos significand with rfl | positive
  · exact isMagnitude_zero_mul (atLeastOne_powerOfTen small)
  · have rounded := isRounded_toFloat (UInt64.ofNat significand)
    rw [toNat_ofNat_of_le fits] at rounded
    have below : (2 ^ 53 + 1) ^ 2 * (significand * 10 ^ power * one) < 2 ^ 106 * overflowing :=
      (Nat.mul_le_mul_left _ (Nat.mul_le_mul_right one within)).trans_lt largest_small
    obtain ⟨finite, nonneg⟩ :=
      rounded.mul (isRounded_powerOfTen small) positive (Nat.pow_pos (by decide)) below
    exact ⟨finite, nonneg⟩

/-- A significand of 64 bits is scaled if the result is not too large. -/
theorem scaleByPower?_of_le {significand : ℕ} {power : ℤ} (fits : significand ≤ maxWord)
    (within : scaledBy significand power ≤ largest) :
    ∃ value, scaleByPower? significand power = some value ∧ IsMagnitude value := by
  have start := isMagnitude_toFloat (UInt64.ofNat significand)
  unfold scaleByPower?
  dsimp only
  split
  next upward =>
    obtain ⟨power, rfl⟩ := Int.eq_ofNat_of_zero_le upward
    rw [scaledBy, zpow_natCast] at within
    have exact : significand * 10 ^ power ≤ largest := by exact_mod_cast within
    split
    next small =>
      have isMagnitude := isMagnitude_mul fits (show power < 309 by omega) exact
      rw [Int.toNat_natCast, isMagnitude.isInf, if_neg Bool.false_ne_true]
      exact ⟨_, rfl, isMagnitude⟩
    next large =>
      -- Only zero can be scaled by so much.
      have zero : significand = 0 := by
        by_contra nonzero
        have higher : 10 ^ (greatestPower + 1) ≤ 10 ^ power :=
          Nat.pow_le_pow_right (by decide) (by unfold greatestPower; omega)
        have more := Nat.le_mul_of_pos_left (10 ^ power) (Nat.pos_of_ne_zero nonzero)
        exact absurd (higher.trans (more.trans exact)) (not_le.mpr largest_lt_ten_pow)
      rw [if_pos zero]
      exact ⟨_, rfl, start⟩
  next => exact ⟨_, rfl, isMagnitude_divideByPower 4 start power.natAbs⟩

/-! ### Finite numbers -/

/-- The digits of a finite number stand for at most `largest`, which leaves room for two roundings; the two
greatest numbers are out of reach of this bound. -/
theorem scaledBy_shortest_le {mantissa : ℕ} {exponent : ℤ} (few : mantissa < 2 ^ 53) (small : exponent ≤ 971)
    (notGreatest : exponent = 971 → mantissa < 2 ^ 53 - 2) :
    scaledBy (shortest .toEven mantissa exponent).significand (shortest .toEven mantissa exponent).power ≤
      largest := by
  refine (shortest_le .toEven mantissa exponent).trans ?_
  have unit : (0 : ℚ) < 2 ^ quarterStep := by positivity
  have limit : (largest : ℚ) = (2 ^ 54 - 5) * (2 * 2 ^ quarterStep) := by
    rw [largest]
    push_cast
    ring
  rw [limit]
  rcases small.lt_or_eq with less | rfl
  · -- A step is at most half as large as that of the greatest numbers.
    have below : (2 : ℚ) ^ (exponent - 2) ≤ 2 ^ quarterStep / 2 := by
      have place : (2 : ℚ) ^ quarterStep / 2 = 2 ^ ((quarterStep : ℤ) - 1) := by
        rw [zpow_sub_one₀ (by norm_num), zpow_natCast, div_eq_mul_inv]
      rw [place]
      exact zpow_le_zpow_right₀ (by norm_num) (by unfold quarterStep; omega)
    have most : (mantissa : ℚ) ≤ 2 ^ 53 := by exact_mod_cast few.le
    calc (4 * mantissa + 2) * (2 : ℚ) ^ (exponent - 2) ≤ (4 * 2 ^ 53 + 2) * (2 ^ quarterStep / 2) := by gcongr
      _ ≤ (2 ^ 54 - 5) * (2 * 2 ^ quarterStep) := by linarith
  · have place : (971 : ℤ) - 2 = quarterStep := rfl
    have most : (mantissa : ℚ) ≤ 2 ^ 53 - 3 := by
      have fewer : mantissa + 3 ≤ 2 ^ 53 := by have := notGreatest rfl; omega
      have cast : (mantissa : ℚ) + 3 ≤ 2 ^ 53 := by exact_mod_cast fewer
      linarith
    rw [place, zpow_natCast]
    calc (4 * mantissa + 2) * (2 : ℚ) ^ quarterStep ≤ (4 * (2 ^ 53 - 3) + 2) * 2 ^ quarterStep := by gcongr
      _ = (2 ^ 54 - 5) * (2 * 2 ^ quarterStep) := by ring

/-- The digits of the two greatest numbers. -/
theorem accumulated?_greatest (negative : Bool) (second : Fin 2) :
    ((Style.json.layOut negative (shortest .toEven (2 ^ 53 - 2 + second.val) 971)).accumulated?.any fun read =>
      read.isFinite && decide (0 ≤ (signOf negative).apply (units read))) = true := by
  decide +kernel +revert

/-- Zero is written with its sign. -/
theorem accumulated?_zero (negative : Bool) :
    ((Style.json.layOut negative ⟨0, 0⟩).accumulated?.any fun read =>
      read.isFinite && decide (units read = 0)) = true := by
  decide +kernel +revert

/-- A number with the sign of a numeral. -/
theorem withSign_units (negative : Bool) {value : Float} (finite : value.isFinite = true) :
    (withSign negative value).isFinite = true ∧
      units (withSign negative value) = (signOf negative).apply (units value) := by
  cases negative with
  | true => exact neg_units finite
  | false => exact ⟨finite, rfl⟩

theorem negative_layOut (style : Style) (negative : Bool) (digits : Digits) :
    (style.layOut negative digits).negative = negative := by
  unfold Style.layOut
  dsimp only
  split <;> rfl

/-- Digits that stand for no more than `largest` are accepted, with their sign. -/
theorem accumulated?_layOut {digits : Digits} (negative : Bool)
    (within : scaledBy digits.significand digits.power ≤ largest) :
    ∃ read, (Style.json.layOut negative digits).accumulated? = some read ∧ read.isFinite = true ∧
      0 ≤ (signOf negative).apply (units read) := by
  obtain ⟨significand, power, fits, atMost, reading⟩ := accumulated?_of_whole_le (whole_layOut_le negative digits)
  rw [scaled_layOut] at atMost
  rw [negative_layOut] at reading
  obtain ⟨magnitude, scaled, isMagnitude⟩ := scaleByPower?_of_le fits (atMost.trans within)
  obtain ⟨finite, signed⟩ := withSign_units negative isMagnitude.finite
  have twice : (signOf negative).apply ((signOf negative).apply (units magnitude)) = units magnitude := by
    cases negative with
    | true => exact neg_neg (units magnitude)
    | false => rfl
  refine ⟨withSign negative magnitude, by rw [reading, scaled, Option.map_some], finite, ?_⟩
  rw [signed, twice]
  exact isMagnitude.nonneg

/-- All finite magnitudes: those below the two greatest, and the two. -/
theorem accumulated?_shortest {mantissa : ℕ} {exponent : ℤ} (few : mantissa < 2 ^ 53) (small : exponent ≤ 971)
    (negative : Bool) :
    ∃ read, (Style.json.layOut negative (shortest .toEven mantissa exponent)).accumulated? = some read ∧
      read.isFinite = true ∧ 0 ≤ (signOf negative).apply (units read) := by
  by_cases greatest : exponent = 971 ∧ 2 ^ 53 - 2 ≤ mantissa
  · obtain ⟨rfl, atLeast⟩ := greatest
    obtain ⟨second, rfl⟩ : ∃ second : Fin 2, mantissa = 2 ^ 53 - 2 + second.val :=
      ⟨⟨mantissa - (2 ^ 53 - 2), by omega⟩, by simp only; omega⟩
    have accepted := accumulated?_greatest negative second
    rw [Option.any_eq_true] at accepted
    obtain ⟨read, reading, holds⟩ := accepted
    rw [Bool.and_eq_true, decide_eq_true_eq] at holds
    exact ⟨read, reading, holds⟩
  · exact accumulated?_layOut negative
      (scaledBy_shortest_le few small fun top => not_le.mp fun atLeast => greatest ⟨top, atLeast⟩)

/-- A finite number that is written is accepted. It comes back finite, and not negative if it was not. -/
theorem accumulated?_of_finite {value : Float} (finite : value.isFinite = true) :
    ∃ numeral read, Style.json.numeral? value = some numeral ∧ numeral.accumulated? = some read ∧
      read.isFinite = true ∧ (0 ≤ units value → 0 ≤ units read) := by
  obtain ⟨negative, mantissa, exponent, parts⟩ := (exists_finite_iff value).mpr finite
  obtain ⟨few, small, same⟩ := units_of_finite parts
  have written : Style.json.numeral? value =
      some (Style.json.layOut negative (shortest .toEven mantissa exponent)) := by
    rw [Style.numeral?, parts]
    rfl
  obtain ⟨read, reading, isFinite, signed⟩ := accumulated?_shortest few small negative
  refine ⟨_, read, written, reading, isFinite, fun nonneg => ?_⟩
  cases negative with
  | false => exact signed
  | true =>
    -- Of the numbers with a minus only negative zero is not negative.
    have zero : mantissa = 0 := by
      by_contra nonzero
      have positive := magnitude_pos (Nat.pos_of_ne_zero nonzero) exponent
      simp only [same, signOf, ↓reduceIte, UnpackedFloat.Sign.apply] at nonneg
      omega
    subst zero
    have isZero := accumulated?_zero true
    have digits : shortest .toEven 0 exponent = ⟨0, 0⟩ := rfl
    rw [← digits, reading, Option.any_some, Bool.and_eq_true, decide_eq_true_eq] at isZero
    exact isZero.2.ge

/-- A word is accepted as a number, too. -/
theorem accumulated?_ofNat {number : ℕ} (fits : number ≤ maxWord) : (Numeral.ofNat number).accumulated? ≠ none := by
  have whole : (Numeral.ofNat number).whole ≤ maxWord := fits
  obtain ⟨significand, power, word, atMost, reading⟩ := accumulated?_of_whole_le whole
  have same : scaledBy (Numeral.ofNat number).scaled.1 (Numeral.ofNat number).scaled.2 = number := by
    simp [Numeral.scaled, Numeral.ofNat, numberFrom, scaledBy]
  have room : maxWord ≤ largest := by decide +kernel
  have within : scaledBy significand power ≤ largest := by
    rw [same] at atMost
    exact atMost.trans (Nat.cast_le.mpr (fits.trans room))
  obtain ⟨read, scaled, _⟩ := scaleByPower?_of_le word within
  rw [reading, scaled]
  exact Option.some_ne_none _

end PacketReplay.Decimal
