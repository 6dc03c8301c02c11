import PacketReplay.Decimal.Numeral

/-!
# Reading numbers

Two readings of a numeral as a floating-point number. `Numeral.nearest` is the nearest number. The other,
`Numeral.accumulated?`, is the one of data files: it takes as many digits as fit 64 bits and scales once by
a power of ten, so that it can be a few units in the last place away, and refuses what is too large.
-/
namespace PacketReplay.Decimal

open Text

/-- The number with the sign of a numeral. -/
def withSign (negative : Bool) (magnitude : Float) : Float := if negative then -magnitude else magnitude

/-- The nearest number to `significand * 10 ^ power`. From `10 ^ 310` on it is infinite and below
`10 ^ -400` it is zero, whatever the digits. -/
def nearestMagnitude (significand : Nat) (power : Int) : Float :=
  let firstPlace := power + (digitsOf significand).length
  if significand = 0 ∨ firstPlace < -400 then 0.0
  else if 310 < firstPlace then 1.0 / 0.0
  else Float.ofScientific significand (decide (power < 0)) power.natAbs

/-- All digits of the numeral as one number, and the power of ten it is scaled by. -/
def Numeral.scaled (numeral : Numeral) : Nat × Int :=
  (numberFrom numeral.whole numeral.fraction,
    numeral.exponent.getD 0 - numeral.fraction.length)

def Numeral.nearest (numeral : Numeral) : Float :=
  withSign numeral.negative (nearestMagnitude numeral.scaled.1 numeral.scaled.2)

/-- The largest 64-bit word. -/
def maxWord : Nat := UInt64.size - 1

/-- The longest front of the digits that fits 64 bits, and how many digits follow it. -/
def fitWhole : Nat → Nat → Nat × Nat
  | 0, number => (number, 0)
  | budget + 1, number =>
    if number ≤ maxWord then (number, 0)
    else
      match fitWhole budget (number / 10) with
      | (fitting, dropped) => (fitting, dropped + 1)

/-- Take digits after the point as long as they fit, each lowering the power of ten. -/
def takeFraction (significand : Nat) (power : Int) : List (Fin 10) → Nat × Int
  | [] => (significand, power)
  | digit :: rest =>
    if significand * 10 + digit ≤ maxWord then takeFraction (significand * 10 + digit) (power - 1) rest
    else (significand, power)

/-- The power of ten as a floating-point number. -/
def powerOfTen (power : Nat) : Float := Float.ofScientific 1 false power

/-- Divide by `10 ^ power` in steps of at most `10 ^ 308`; the budget counts the steps. -/
def divideByPower : Nat → Float → Nat → Float
  | 0, value, _ => value
  | budget + 1, value, power =>
    if power ≤ 308 then value / powerOfTen power
    else if value == 0.0 then value
    else divideByPower budget (value / powerOfTen 308) (power - 308)

/-- A significand scaled by a power of ten, or nothing if the result is too large. A 64-bit significand
is zero after three steps downward. -/
def scaleByPower? (significand : Nat) (power : Int) : Option Float :=
  let value := (UInt64.ofNat significand).toFloat
  if 0 ≤ power then
    if power ≤ 308 then
      if (value * powerOfTen power.toNat).isInf then none else some (value * powerOfTen power.toNat)
    else if significand = 0 then some value
    else none
  else some (divideByPower 4 value power.natAbs)

/-- The reading of data files. -/
def Numeral.accumulated? (numeral : Numeral) : Option Float :=
  let (whole, dropped) := fitWhole (numeral.whole + 1) numeral.whole
  let (significand, power) := takeFraction whole dropped numeral.fraction
  (scaleByPower? significand (power + numeral.exponent.getD 0)).map (withSign numeral.negative)

/-- A sign in front of a text of the command line: whether it is a minus, and what follows. -/
def plusMinus : List Char → Bool × List Char
  | '-' :: rest => (true, rest)
  | '+' :: rest => (false, rest)
  | rest => (false, rest)

/-- Digits, a point and digits, with at least one digit in all. -/
def looseDigits? (text : List Char) : Option ((Nat × List (Fin 10)) × List Char) :=
  match asciiRun text with
  | (whole, '.' :: rest) =>
    match asciiRun rest with
    | (fraction, rest) =>
      if whole.isEmpty && fraction.isEmpty then none else some ((numberOf whole, fraction), rest)
  | ([], _) => none
  | (whole, rest) => some ((numberOf whole, []), rest)

/-- The number a text of the command line denotes: a decimal, in which either side of the point may be
empty, or a word for infinity or for no number, in any case. -/
def readFloat? (text : List Char) : Option Float :=
  let (negative, rest) := plusMinus text
  -- A word takes the whole text after the sign.
  let word := rest.map Char.toLower
  if word = "inf".toList ∨ word = "infinity".toList then some (withSign negative (1.0 / 0.0))
  else if word = "nan".toList then some (0.0 / 0.0)
  else do
    let ((whole, fraction), rest) ← looseDigits? rest
    let exponent ← Numeral.exponentPart? rest
    return Numeral.nearest ⟨negative, whole, fraction, exponent⟩

end PacketReplay.Decimal
