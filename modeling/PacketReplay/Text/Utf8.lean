import PacketReplay.Text.Digit
import PacketReplay.Text.Lines

/-!
# Lines of bytes

Standard input arrives as bytes. The bytes are cut into lines, and each line is decoded by itself, so that a
fault says where in its line it is: the index of the first byte that is part of no character, and how many
bytes cannot be the start of one, unless the line ends too early. Its line end is no part of a line.
-/
namespace PacketReplay.Text

structure Utf8Fault where
  index : Nat
  length : Option Nat
  deriving DecidableEq, Repr

def Utf8Fault.message (fault : Utf8Fault) : String :=
  match fault.length with
  | some length => "invalid utf-8 sequence of " ++ decimalText length ++ " bytes from index " ++
      decimalText fault.index
  | none => "incomplete utf-8 byte sequence from index " ++ decimalText fault.index

/-- A sequence part way through: where it starts, how many bytes are read and missing, the bits read, and
the bounds of the next byte. -/
structure Sequence where
  start : Nat
  read : Nat
  missing : Nat
  bits : Nat
  low : Nat
  high : Nat
  deriving DecidableEq, Repr

/-- The sequence that a byte from `0x80` on starts. The bounds keep out long forms, surrogates and numbers
above the last code point. -/
def Sequence.begin? (start byte : Nat) : Option Sequence :=
  -- A byte from inside a sequence, or the start of a long form.
  if byte < 0xC2 then none
  else if byte < 0xE0 then some ⟨start, 1, 1, byte - 0xC0, 0x80, 0xBF⟩
  -- Three bytes: no long forms after the first start byte, no surrogates after `0xED`.
  else if byte = 0xE0 then some ⟨start, 1, 2, 0, 0xA0, 0xBF⟩
  else if byte = 0xED then some ⟨start, 1, 2, 0xD, 0x80, 0x9F⟩
  else if byte < 0xF0 then some ⟨start, 1, 2, byte - 0xE0, 0x80, 0xBF⟩
  -- Four bytes: again no long forms, and nothing above the last code point.
  else if byte = 0xF0 then some ⟨start, 1, 3, 0, 0x90, 0xBF⟩
  else if byte < 0xF4 then some ⟨start, 1, 3, byte - 0xF0, 0x80, 0xBF⟩
  else if byte = 0xF4 then some ⟨start, 1, 3, 4, 0x80, 0x8F⟩
  else none

/-- What has been decoded: the characters in reverse, the index of the next byte, and a sequence part way
through. -/
structure Decoding where
  characters : List Char
  index : Nat
  sequence : Option Sequence
  deriving Repr

def Decoding.step (decoding : Decoding) (byte : UInt8) : Except Utf8Fault Decoding :=
  let index := decoding.index + 1
  match decoding.sequence with
  | none =>
    if byte < 0x80 then .ok ⟨Char.ofNat byte.toNat :: decoding.characters, index, none⟩
    else match Sequence.begin? decoding.index byte.toNat with
      | some sequence => .ok ⟨decoding.characters, index, some sequence⟩
      | none => .error ⟨decoding.index, some 1⟩
  | some sequence =>
    if sequence.low ≤ byte.toNat ∧ byte.toNat ≤ sequence.high then
      let bits := sequence.bits * 64 + byte.toNat % 64
      if sequence.missing ≤ 1 then .ok ⟨Char.ofNat bits :: decoding.characters, index, none⟩
      else .ok ⟨decoding.characters, index,
        some ⟨sequence.start, sequence.read + 1, sequence.missing - 1, bits, 0x80, 0xBF⟩⟩
    else .error ⟨sequence.start, some sequence.read⟩

/-- The characters of bytes. -/
def decode (bytes : List UInt8) : Except Utf8Fault (List Char) := do
  let decoding ← bytes.foldlM Decoding.step ⟨[], 0, none⟩
  match decoding.sequence with
  | some sequence => .error ⟨sequence.start, none⟩
  | none => .ok decoding.characters.reverse

/-- A line of input, or why its bytes are no text. -/
abbrev InputLine := Except Utf8Fault (List Char)

/-- The lines of an input. -/
def inputLines (bytes : List UInt8) : List InputLine := (LineMarks.bytes.lines bytes).map decode

end PacketReplay.Text
