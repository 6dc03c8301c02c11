import PacketReplay.Decimal.Numeral
import PacketReplay.Decimal.Shortest

/-!
# Texts of floating-point numbers

Three ways to write a number: with the shortest digits and an exponent where the number is very large or
very small (`Style.json`), with the shortest digits and never an exponent (`Style.plain`), and with a fixed
number of places.
-/
namespace PacketReplay.Decimal

open Text

/-- How shortest digits are laid out. -/
structure Style where
  tie : Tie
  /-- The least and the greatest decimal exponent of the first digit that is written without an
  exponent; `none` for no bounds. -/
  positional : Option (Int × Int)
  /-- Whether a whole number is written with the place `.0`. -/
  pointZero : Bool

/-- The numbers of a data file. -/
def Style.json : Style := ⟨.toEven, some (-5, 15), true⟩

/-- The numbers of a message. -/
def Style.plain : Style := ⟨.up, none, false⟩

def Style.isPositional (style : Style) (firstPlace : Int) : Bool :=
  match style.positional with
  | none => true
  | some (least, greatest) => decide (least ≤ firstPlace) && decide (firstPlace ≤ greatest)

/-- The decimal exponent of the first digit. -/
def Digits.firstPlace (digits : Digits) : Int :=
  digits.power + (digitsOf digits.significand).length - 1

def Style.layOut (style : Style) (negative : Bool) (digits : Digits) : Numeral :=
  if style.isPositional digits.firstPlace then
    let places := (-digits.power).toNat
    let fraction := lastDigits places digits.significand
    { negative
      whole := digits.significand * Nat.pow 10 digits.power.toNat / Nat.pow 10 places
      fraction := if style.pointZero && fraction.isEmpty then [0] else fraction
      exponent := none }
  else
    let places := (digitsOf digits.significand).length - 1
    { negative
      whole := digits.significand / Nat.pow 10 places
      fraction := lastDigits places digits.significand
      exponent := some digits.firstPlace }

/-- The numeral of a finite number. -/
def Style.numeral? (style : Style) (value : Float) : Option Numeral :=
  match Binary.ofFloat value with
  | .finite negative mantissa exponent =>
    some (style.layOut negative (shortest style.tie mantissa exponent))
  | _ => none

/-- The text around the digits of a number, and the texts of numbers without digits. -/
def textWith (digits : Nat → Int → List Char) (value : Float) : List Char :=
  match Binary.ofFloat value with
  | .notANumber => "NaN".toList
  | .infinite negative => Numeral.signText negative ++ "inf".toList
  | .finite negative mantissa exponent => Numeral.signText negative ++ digits mantissa exponent

/-- The shortest text of a number, without an exponent. -/
def plainText (value : Float) : List Char :=
  textWith (fun mantissa exponent =>
    (Style.plain.layOut false (shortest Style.plain.tie mantissa exponent)).text) value

/-- The text of a number rounded to a number of places; a half goes to the even neighbour. -/
def fixedText (places : Nat) (value : Float) : List Char :=
  textWith (fun mantissa exponent =>
    let scaled := scaledMagnitude mantissa exponent (Nat.pow 10 places)
    decimal (scaled / Nat.pow 10 places) ++ Numeral.fractionText (lastDigits places scaled)) value

end PacketReplay.Decimal
