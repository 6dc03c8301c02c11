import PacketReplay.Text.Digit

/-!
# Decimal numerals

A numeral is a sign, a whole part, the digits after the point and a power of ten. Its text is written in
one way; the strict reading of a text accepts that way and no leading zero, no bare point and no plus sign
in front.
-/
namespace PacketReplay.Decimal

open Text

/-- The numeral `±whole.fraction * 10 ^ exponent`. The text shows a point only before a digit, and an
exponent only if there is one. -/
structure Numeral where
  negative : Bool
  whole : Nat
  fraction : List (Fin 10)
  exponent : Option Int
  deriving DecidableEq, Repr

namespace Numeral

def ofNat (number : Nat) : Numeral := ⟨false, number, [], none⟩

/-- The sign of a negative number. -/
def signText (negative : Bool) : List Char := if negative then ['-'] else []

def fractionText : List (Fin 10) → List Char
  | [] => []
  | digits => '.' :: digits.map asciiDigit

/-- The sign of the exponent is always written. -/
def exponentText : Option Int → List Char
  | none => []
  | some exponent => 'e' :: (if exponent < 0 then '-' else '+') :: decimal exponent.natAbs

def text (numeral : Numeral) : List Char :=
  signText numeral.negative ++ decimal numeral.whole ++ fractionText numeral.fraction ++
    exponentText numeral.exponent

/-- A whole part is a zero or starts with another digit. -/
def wholePart? (text : List Char) : Option (Nat × List Char) :=
  match asciiRun text with
  | ([], _) => none
  | (0 :: _ :: _, _) => none
  | (digits, rest) => some (numberOf digits, rest)

/-- The digits after a point; no point means no digits. -/
def fractionPart? : List Char → Option (List (Fin 10) × List Char)
  | '.' :: rest =>
    match asciiRun rest with
    | ([], _) => none
    | (digits, rest) => some (digits, rest)
  | rest => some ([], rest)

/-- The digits of an exponent with its sign, up to the end of the text. -/
def signedExponent? (negative : Bool) (text : List Char) : Option Int :=
  match asciiRun text with
  | (digit :: digits, []) =>
    let magnitude : Int := numberOf (digit :: digits)
    some (if negative then -magnitude else magnitude)
  | _ => none

/-- The exponent, up to the end of the text; an empty text has none. -/
def exponentPart? : List Char → Option (Option Int)
  | [] => some none
  | mark :: rest =>
    if mark = 'e' ∨ mark = 'E' then
      match rest with
      | '+' :: digits => (signedExponent? false digits).map some
      | '-' :: digits => (signedExponent? true digits).map some
      | digits => (signedExponent? false digits).map some
    else none

/-- A sign in front of a text: whether there is a minus, and what follows. -/
def minus : List Char → Bool × List Char
  | '-' :: rest => (true, rest)
  | rest => (false, rest)

/-- The strict reading of a whole text. -/
def ofText? (text : List Char) : Option Numeral := do
  let (negative, text) := minus text
  let (whole, text) ← wholePart? text
  let (fraction, text) ← fractionPart? text
  let exponent ← exponentPart? text
  return ⟨negative, whole, fraction, exponent⟩

end Numeral
end PacketReplay.Decimal
