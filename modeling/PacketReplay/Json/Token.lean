import PacketReplay.Json.Value

/-!
# JSON tokens

A text is read character by character into tokens. Between tokens stand blanks, tabs and line ends only. A
word and a number are longest runs of their characters, so that two of them in a row are told apart, and
left to the reader of values to refuse.
-/
namespace PacketReplay.Json

inductive Token where
  | openArray
  | closeArray
  | openObject
  | closeObject
  | colon
  | comma
  | null
  | bool (value : Bool)
  | number (numeral : Decimal.Numeral)
  | string (content : Content)
  deriving DecidableEq, Repr

/-- A character of a string, or the 16-bit code unit of an escape. -/
inductive Piece where
  | char (c : Char)
  | unit (code : Nat)
  deriving DecidableEq, Repr

def isHighSurrogate (code : Nat) : Bool := decide (0xD800 ≤ code) && decide (code < 0xDC00)
def isLowSurrogate (code : Nat) : Bool := decide (0xDC00 ≤ code) && decide (code < 0xE000)

/-- The character of a surrogate pair. -/
def ofSurrogates (high low : Nat) : Char := Char.ofNat (0x10000 + (high - 0xD800) * 0x400 + (low - 0xDC00))

/-- The characters of a string. A high surrogate needs a low one right after it, and a low one a high one
before it. -/
def joinPieces? : List Piece → Option (List Char)
  | [] => some []
  | .char c :: rest => (joinPieces? rest).map (c :: ·)
  | .unit high :: .unit low :: rest =>
    -- Two units may be one character or two.
    if isHighSurrogate high then
      if isLowSurrogate low then (joinPieces? rest).map (ofSurrogates high low :: ·) else none
    else if isLowSurrogate high then none
    else (joinPieces? (.unit low :: rest)).map (Char.ofNat high :: ·)
  | .unit code :: rest =>
    if isHighSurrogate code || isLowSurrogate code then none
    else (joinPieces? rest).map (Char.ofNat code :: ·)

/-- The token of a string from its pieces in reverse. -/
def stringToken (reversed : List Piece) : Token :=
  .string ((joinPieces? reversed.reverse).map String.ofList)

/-- What the text read so far ends in. The lists are in reverse. -/
inductive Mode where
  | between
  | word (letters : List Char)
  | number (characters : List Char)
  | string (pieces : List Piece)
  | escape (pieces : List Piece)
  /-- In an escape of a code unit: how many digits are to come, and the value of those read. -/
  | unit (pieces : List Piece) (missing : Nat) (value : Nat)
  deriving Repr

/-- The tokens read so far, in reverse, and the mode. -/
structure Scanner where
  tokens : List Token
  mode : Mode
  deriving Repr

def isNumberCharacter (c : Char) : Bool := c.isDigit || "+-.eE".toList.contains c

def wordToken? (letters : List Char) : Option Token :=
  if letters = "null".toList then some .null
  else if letters = "true".toList then some (.bool true)
  else if letters = "false".toList then some (.bool false)
  else none

def hexDigit? (c : Char) : Option Nat :=
  if c.isDigit then some (c.toNat - '0'.toNat)
  else if 'a' ≤ c ∧ c ≤ 'f' then some (c.toNat - 'a'.toNat + 10)
  else if 'A' ≤ c ∧ c ≤ 'F' then some (c.toNat - 'A'.toNat + 10)
  else none

/-- The character a one-letter escape stands for. -/
def escaped? : Char → Option Char
  | '"' => some '"'
  | '\\' => some '\\'
  | '/' => some '/'
  | 'b' => some '\x08'
  | 'f' => some '\x0c'
  | 'n' => some '\n'
  | 'r' => some '\r'
  | 't' => some '\t'
  | _ => none

/-- Read a character between tokens. -/
def beginToken (tokens : List Token) (c : Char) : Option Scanner :=
  match c with
  | ' ' | '\t' | '\n' | '\r' => some ⟨tokens, .between⟩
  | '[' => some ⟨.openArray :: tokens, .between⟩
  | ']' => some ⟨.closeArray :: tokens, .between⟩
  | '\x7b' => some ⟨.openObject :: tokens, .between⟩
  | '\x7d' => some ⟨.closeObject :: tokens, .between⟩
  | ':' => some ⟨.colon :: tokens, .between⟩
  | ',' => some ⟨.comma :: tokens, .between⟩
  | '"' => some ⟨tokens, .string []⟩
  | c =>
    if c.isLower then some ⟨tokens, .word [c]⟩
    else if c.isDigit || c = '-' then some ⟨tokens, .number [c]⟩
    else none

/-- The tokens with the word or number that has just ended. -/
def endToken? (tokens : List Token) : Mode → Option (List Token)
  | .between => some tokens
  | .word letters => (wordToken? letters.reverse).map (· :: tokens)
  | .number characters => (Decimal.Numeral.ofText? characters.reverse).map (.number · :: tokens)
  | _ => none

/-- Read a character. -/
def Scanner.step (scanner : Scanner) (c : Char) : Option Scanner :=
  match scanner.mode with
  | .between => beginToken scanner.tokens c
  | .word letters =>
    if c.isLower then some { scanner with mode := .word (c :: letters) }
    else do beginToken (← endToken? scanner.tokens (.word letters)) c
  | .number characters =>
    if isNumberCharacter c then some { scanner with mode := .number (c :: characters) }
    else do beginToken (← endToken? scanner.tokens (.number characters)) c
  | .string pieces =>
    if c = '"' then some ⟨stringToken pieces :: scanner.tokens, .between⟩
    else if c = '\\' then some { scanner with mode := .escape pieces }
    else if c < ' ' then none
    else some { scanner with mode := .string (.char c :: pieces) }
  | .escape pieces =>
    if c = 'u' then some { scanner with mode := .unit pieces 4 0 }
    else (escaped? c).map fun plain => { scanner with mode := .string (.char plain :: pieces) }
  | .unit pieces missing value => do
    let value := value * 16 + (← hexDigit? c)
    if missing ≤ 1 then some { scanner with mode := .string (.unit value :: pieces) }
    else some { scanner with mode := .unit pieces (missing - 1) value }

/-- The tokens of a text. -/
def tokens? (text : List Char) : Option (List Token) := do
  let scanner ← text.foldlM Scanner.step ⟨[], .between⟩
  return (← endToken? scanner.tokens scanner.mode).reverse

end PacketReplay.Json
