/-!
# Decimal digits

The characters of the general category Nd come in runs of ten, from zero to nine. A numeral in a
capture is any run of them; only the ASCII digits have a value here, because the numbers of a
capture are read as ASCII numerals.
-/
namespace PacketReplay.Text

/-- The zero of each run of ten characters of category Nd. -/
def digitZeros : List Nat :=
  [0x0030, 0x0660, 0x06F0, 0x07C0, 0x0966, 0x09E6, 0x0A66, 0x0AE6, 0x0B66, 0x0BE6, 0x0C66, 0x0CE6,
   0x0D66, 0x0DE6, 0x0E50, 0x0ED0, 0x0F20, 0x1040, 0x1090, 0x17E0, 0x1810, 0x1946, 0x19D0, 0x1A80,
   0x1A90, 0x1B50, 0x1BB0, 0x1C40, 0x1C50, 0xA620, 0xA8D0, 0xA900, 0xA9D0, 0xA9F0, 0xAA50, 0xABF0,
   0xFF10, 0x104A0, 0x10D30, 0x10D40, 0x11066, 0x110F0, 0x11136, 0x111D0, 0x112F0, 0x11450, 0x114D0,
   0x11650, 0x116C0, 0x116D0, 0x116DA, 0x11730, 0x118E0, 0x11950, 0x11BF0, 0x11C50, 0x11D50, 0x11DA0,
   0x11F50, 0x16130, 0x16A60, 0x16AC0, 0x16B50, 0x16D70, 0x1CCF0, 0x1D7CE, 0x1D7D8, 0x1D7E2, 0x1D7EC,
   0x1D7F6, 0x1E140, 0x1E2F0, 0x1E4F0, 0x1E5F1, 0x1E950, 0x1FBF0]

/-- Whether the character is a decimal digit of any script. -/
def isDecimalDigit (c : Char) : Bool :=
  digitZeros.any fun start => decide (start ≤ c.toNat) && decide (c.toNat < start + 10)

theorem digitZeros_count : digitZeros.length * 10 = 760 := rfl

/-- The runs do not overlap and stand in ascending order. -/
theorem digitZeros_ascending : digitZeros.Pairwise (fun low high => low + 10 ≤ high) := by decide

/-- The value of an ASCII digit. -/
def asciiDigit? (c : Char) : Option (Fin 10) :=
  if bounds : 48 ≤ c.toNat ∧ c.toNat < 58 then some ⟨c.toNat - 48, by omega⟩ else none

/-- The ASCII digit of a value. -/
def asciiDigit (digit : Fin 10) : Char := Char.ofNat (48 + digit)

@[simp] theorem asciiDigit?_asciiDigit (digit : Fin 10) : asciiDigit? (asciiDigit digit) = some digit := by
  decide +revert

/-- The longest run of ASCII digits at the front of a text, and what follows it. -/
def asciiRun : List Char → List (Fin 10) × List Char
  | [] => ([], [])
  | c :: rest =>
    match asciiDigit? c with
    | none => ([], c :: rest)
    | some digit =>
      match asciiRun rest with
      | (digits, tail) => (digit :: digits, tail)

theorem asciiRun_append (digits : List (Fin 10)) (rest : List Char)
    (ends : ∀ c, rest.head? = some c → asciiDigit? c = none) :
    asciiRun (digits.map asciiDigit ++ rest) = (digits, rest) := by
  induction digits with
  | nil =>
    cases rest with
    | nil => rfl
    | cons c rest => simp [asciiRun, ends c rfl]
  | cons digit digits ih => simp [asciiRun, ih]

/-- The values of a run of ASCII digits; a run with any other character has none. -/
def asciiDigits? (run : List Char) : Option (List (Fin 10)) := run.mapM asciiDigit?

/-- The number that a list of digits denotes when the digits before it denote `value`. -/
def numberFrom (value : Nat) : List (Fin 10) → Nat
  | [] => value
  | digit :: rest => numberFrom (value * 10 + digit) rest

/-- The number a list of digits denotes, most significant digit first. -/
def numberOf (digits : List (Fin 10)) : Nat := numberFrom 0 digits

/-- The digits of a number in front of `tail`, given a budget of one step a digit. -/
def digitsBefore : Nat → Nat → List (Fin 10) → List (Fin 10)
  | 0, _, tail => tail
  | budget + 1, number, tail =>
    let longer := ⟨number % 10, Nat.mod_lt _ (by decide)⟩ :: tail
    if number < 10 then longer else digitsBefore budget (number / 10) longer

/-- The digits of a number, most significant first and without a leading zero; zero has one digit. A
number has fewer digits than one more than itself, so the budget suffices. -/
def digitsOf (number : Nat) : List (Fin 10) := digitsBefore (number + 1) number []

theorem numberFrom_digitsBefore (budget number : Nat) (tail : List (Fin 10)) (enough : number < budget) :
    numberFrom 0 (digitsBefore budget number tail) = numberFrom number tail := by
  induction budget generalizing number tail with
  | zero => omega
  | succ budget ih =>
    simp only [digitsBefore]
    split
    · simp only [numberFrom]
      congr 1
      omega
    · rw [ih _ _ (by omega)]
      simp only [numberFrom]
      congr 1
      omega

@[simp] theorem numberOf_digitsOf (number : Nat) : numberOf (digitsOf number) = number :=
  numberFrom_digitsBefore (number + 1) number [] (Nat.lt_succ_self number)

theorem digitsBefore_ne_nil (budget number : Nat) (tail : List (Fin 10)) :
    digitsBefore (budget + 1) number tail ≠ [] := by
  induction budget generalizing number tail with
  | zero => simp only [digitsBefore]; split <;> simp
  | succ budget ih =>
    unfold digitsBefore
    split
    · simp
    · exact ih _ _

theorem digitsOf_ne_nil (number : Nat) : digitsOf number ≠ [] := digitsBefore_ne_nil number number []

/-- The last `count` digits of a number, with zeros in front where it has fewer. -/
def lastDigits : Nat → Nat → List (Fin 10)
  | 0, _ => []
  | count + 1, number => lastDigits count (number / 10) ++ [⟨number % 10, Nat.mod_lt _ (by decide)⟩]

@[simp] theorem length_lastDigits (count number : Nat) : (lastDigits count number).length = count := by
  induction count generalizing number with
  | zero => rfl
  | succ count ih => simp [lastDigits, ih]

/-- The decimal text of a number. -/
def decimal (number : Nat) : List Char := (digitsOf number).map asciiDigit

@[simp] theorem asciiDigits?_map (digits : List (Fin 10)) :
    asciiDigits? (digits.map asciiDigit) = some digits := by
  induction digits with
  | nil => rfl
  | cons digit rest ih =>
    simp only [asciiDigits?] at ih
    simp [asciiDigits?, ih]

theorem asciiDigits?_decimal (number : Nat) :
    (asciiDigits? (decimal number)).map numberOf = some number := by
  simp [decimal]

/-- The decimal text of a number in a message. -/
def decimalText (number : Nat) : String := String.ofList (decimal number)

/-- The 64-bit word an ASCII numeral denotes. Leading zeros are allowed; a numeral with no digit, with
a character that is no ASCII digit, or with a value above `2^64 - 1` denotes none. -/
def word64? (run : List Char) : Option UInt64 :=
  match asciiDigits? run with
  | some (digit :: rest) =>
    if numberOf (digit :: rest) < UInt64.size then some (UInt64.ofNat (numberOf (digit :: rest))) else none
  | _ => none

end PacketReplay.Text
