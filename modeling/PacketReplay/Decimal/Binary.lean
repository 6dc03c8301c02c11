/-!
# Binary floating-point numbers taken apart

A double-precision number is not a number, or infinite, or a sign with the magnitude
`mantissa * 2 ^ exponent`. Exact decimal work is done on mantissa and exponent.
-/
namespace PacketReplay.Decimal

/-- What a double-precision number stands for. -/
inductive Binary where
  | notANumber
  | infinite (negative : Bool)
  | finite (negative : Bool) (mantissa : Nat) (exponent : Int)
  deriving DecidableEq, Repr

/-- The least exponent of a finite number; numbers below `2 ^ 52 * 2 ^ leastExponent` have it too. -/
def leastExponent : Int := -1074

/-- The mantissa of a power of two, `2 ^ 52`: the least one that has all 53 bits. -/
def leastMantissa : Nat := 4503599627370496

/-- Read the three fields: 52 bits of fraction, eleven bits of exponent, and the sign in bit 63. -/
def Binary.ofBits (bits : Nat) : Binary :=
  let negative := decide (2048 * leastMantissa ≤ bits)
  let exponent : Nat := bits / leastMantissa % 2048
  let fraction := bits % leastMantissa
  if exponent = 2047 then
    if fraction = 0 then .infinite negative else .notANumber
  else if exponent = 0 then .finite negative fraction leastExponent
  else .finite negative (leastMantissa + fraction) (leastExponent + exponent - 1)

def Binary.ofFloat (value : Float) : Binary := .ofBits value.toBits.toNat

/-- The distance from a finite magnitude to the next smaller one is half the distance to the next larger
one at a power of two, unless the exponent cannot fall. -/
def narrowBelow (mantissa : Nat) (exponent : Int) : Bool :=
  decide (mantissa = leastMantissa) && decide (leastExponent < exponent)

/-- A quotient rounded to the nearest whole number; a half goes to the even neighbour. -/
def roundHalfEven (numerator denominator : Nat) : Nat :=
  let quotient := numerator / denominator
  let twice := 2 * (numerator % denominator)
  if twice < denominator then quotient
  else if denominator < twice then quotient + 1
  else quotient + quotient % 2

/-- The magnitude `mantissa * 2 ^ exponent` in units of `1 / scale`, rounded half to even. -/
def scaledMagnitude (mantissa : Nat) (exponent : Int) (scale : Nat) : Nat :=
  roundHalfEven (mantissa * Nat.pow 2 exponent.toNat * scale) (Nat.pow 2 (-exponent).toNat)

theorem roundHalfEven_of_dvd (quotient denominator : Nat) (positive : 0 < denominator) :
    roundHalfEven (quotient * denominator) denominator = quotient := by
  simp [roundHalfEven, Nat.mul_div_cancel quotient positive, positive]

/-- The result is within half a unit. -/
theorem roundHalfEven_near (numerator denominator : Nat) (positive : 0 < denominator) :
    2 * numerator ≤ 2 * (roundHalfEven numerator denominator * denominator) + denominator ∧
      2 * (roundHalfEven numerator denominator * denominator) ≤ 2 * numerator + denominator := by
  -- With the quotient and the remainder as variables, only linear facts are left.
  have whole := Nat.div_add_mod numerator denominator
  have remainder := Nat.mod_lt numerator positive
  rw [Nat.mul_comm] at whole
  unfold roundHalfEven
  generalize numerator / denominator = quotient at *
  generalize numerator % denominator = rest at *
  dsimp only
  split
  · omega
  · split
    · rw [Nat.add_mul]
      omega
    · rcases Nat.mod_two_eq_zero_or_one quotient with even | odd
      · rw [even, Nat.add_zero]
        omega
      · rw [odd, Nat.add_mul]
        omega

end PacketReplay.Decimal
