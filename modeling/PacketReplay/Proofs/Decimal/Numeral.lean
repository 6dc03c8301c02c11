import PacketReplay.Decimal.Numeral

/-!
# Numerals are read back

The strict reading takes the text of a numeral apart into the pieces it was put together from. Each piece
ends before a character that cannot continue it, so the readings of the pieces compose.
-/
namespace PacketReplay.Text

/-- Only the number zero has a first digit zero, and it has no other. -/
theorem digitsBefore_leadingZero {budget number : Nat} {tail more : List (Fin 10)} (enough : number < budget)
    (zero : digitsBefore budget number tail = 0 :: more) : number = 0 ∧ more = tail := by
  induction budget generalizing number tail with
  | zero => omega
  | succ budget ih =>
    simp only [digitsBefore] at zero
    split at zero
    next small =>
      obtain ⟨first, rest⟩ := List.cons.inj zero
      have digit : number % 10 = 0 := congrArg Fin.val first
      exact ⟨by omega, rest.symm⟩
    next large =>
      -- The front part would have to be zero, which a number from ten on does not have.
      have front := (ih (by omega) zero).1
      omega

theorem digitsOf_leadingZero {number : Nat} {more : List (Fin 10)} (zero : digitsOf number = 0 :: more) :
    more = [] :=
  (digitsBefore_leadingZero (Nat.lt_succ_self number) zero).2

theorem asciiDigit_isDigit (digit : Fin 10) : (asciiDigit digit).isDigit = true := by
  decide +revert

theorem asciiDigit_ne_of_not_isDigit {c : Char} (other : c.isDigit = false) (digit : Fin 10) :
    asciiDigit digit ≠ c := by
  rintro rfl
  rw [asciiDigit_isDigit] at other
  cases other

/-- The decimal text of a number starts with a digit. -/
theorem decimal_eq_cons (number : Nat) :
    ∃ digit rest, decimal number = asciiDigit digit :: rest := by
  obtain ⟨digit, rest, digits⟩ := List.exists_cons_of_ne_nil (digitsOf_ne_nil number)
  exact ⟨digit, rest.map asciiDigit, by rw [decimal, digits, List.map_cons]⟩

end PacketReplay.Text

namespace PacketReplay.Decimal.Numeral

open Text

theorem minus_signText (negative : Bool) (number : Nat) (rest : List Char) :
    minus (signText negative ++ (decimal number ++ rest)) = (negative, decimal number ++ rest) := by
  cases negative with
  | true => rfl
  | false =>
    obtain ⟨digit, more, text⟩ := decimal_eq_cons number
    have noSign : asciiDigit digit ≠ '-' := asciiDigit_ne_of_not_isDigit rfl digit
    rw [text]
    simp [signText, minus, noSign]

theorem wholePart?_decimal (number : Nat) (rest : List Char)
    (ends : ∀ c, rest.head? = some c → asciiDigit? c = none) :
    wholePart? (decimal number ++ rest) = some (number, rest) := by
  have run : asciiRun (decimal number ++ rest) = (digitsOf number, rest) := asciiRun_append _ _ ends
  unfold wholePart?
  rw [run]
  split
  next tail none =>
    exact absurd (congrArg Prod.fst none) (digitsOf_ne_nil number)
  next second more tail leading =>
    -- A leading zero stands alone.
    have alone := digitsOf_leadingZero (congrArg Prod.fst leading)
    cases alone
  next digits tail _ _ whole =>
    cases whole
    rw [numberOf_digitsOf]

theorem fractionPart?_fractionText (digits : List (Fin 10)) (rest : List Char)
    (noPoint : ∀ c, rest.head? = some c → c ≠ '.')
    (ends : ∀ c, rest.head? = some c → asciiDigit? c = none) :
    fractionPart? (fractionText digits ++ rest) = some (digits, rest) := by
  cases digits with
  -- Without digits there is no point, and none may follow.
  | nil =>
    cases rest with
    | nil => rfl
    | cons c rest => simp [fractionText, fractionPart?, noPoint c rfl]
  | cons digit digits =>
    have run : asciiRun ((digit :: digits).map asciiDigit ++ rest) = (digit :: digits, rest) :=
      asciiRun_append _ _ ends
    simp only [fractionText, List.cons_append, fractionPart?]
    rw [run]

theorem signedExponent?_decimal (negative : Bool) (magnitude : Nat) :
    signedExponent? negative (decimal magnitude) =
      some (if negative then -(magnitude : Int) else magnitude) := by
  have run : asciiRun (decimal magnitude ++ []) = (digitsOf magnitude, []) :=
    asciiRun_append _ _ (by simp)
  rw [List.append_nil] at run
  obtain ⟨digit, more, digits⟩ := List.exists_cons_of_ne_nil (digitsOf_ne_nil magnitude)
  have value : numberOf (digit :: more) = magnitude := by rw [← digits, numberOf_digitsOf]
  rw [digits] at run
  simp only [signedExponent?, run, value]

theorem exponentPart?_exponentText (exponent : Option Int) :
    exponentPart? (exponentText exponent) = some exponent := by
  cases exponent with
  | none => rfl
  | some exponent =>
    unfold exponentText
    by_cases below : exponent < 0
    · have magnitude : -(exponent.natAbs : Int) = exponent := by omega
      simp only [below, exponentPart?, true_or, ↓reduceIte, signedExponent?_decimal, magnitude, Option.map_some]
    · have magnitude : (exponent.natAbs : Int) = exponent := by omega
      simp only [below, exponentPart?, true_or, ↓reduceIte, signedExponent?_decimal, magnitude, Option.map_some,
        Bool.false_eq_true]

theorem head?_exponentText {exponent : Option Int} {c : Char}
    (first : (exponentText exponent).head? = some c) : c = 'e' := by
  cases exponent with
  | none => cases first
  | some exponent =>
    cases first
    rfl

/-- Neither the point nor the mark of the exponent continues a run of digits. -/
theorem head?_fractionText_exponentText {digits : List (Fin 10)} {exponent : Option Int} {c : Char}
    (first : (fractionText digits ++ exponentText exponent).head? = some c) : c = '.' ∨ c = 'e' := by
  cases digits with
  | nil => exact .inr (head?_exponentText first)
  | cons digit digits =>
    cases first
    exact .inl rfl

/-- Reading undoes writing, for every numeral. -/
theorem ofText?_text (numeral : Numeral) : ofText? numeral.text = some numeral := by
  obtain ⟨negative, whole, fraction, exponent⟩ := numeral
  have sign := minus_signText negative whole (fractionText fraction ++ exponentText exponent)
  have front : wholePart? (decimal whole ++ (fractionText fraction ++ exponentText exponent)) =
      some (whole, fractionText fraction ++ exponentText exponent) := by
    apply wholePart?_decimal
    intro c first
    rcases head?_fractionText_exponentText first with rfl | rfl <;> rfl
  have middle : fractionPart? (fractionText fraction ++ exponentText exponent) =
      some (fraction, exponentText exponent) := by
    apply fractionPart?_fractionText
    · intro c first
      rw [head?_exponentText first]
      decide
    · intro c first
      rw [head?_exponentText first]
      rfl
  simp [ofText?, text, sign, front, middle, exponentPart?_exponentText]

end PacketReplay.Decimal.Numeral
