import Mathlib.Data.Fintype.Basic
import Mathlib.Tactic.FinCases
import PacketReplay.Json.Token
import PacketReplay.Json.Writer
import PacketReplay.Proofs.Decimal.Numeral

/-!
# The tokens of a written value

Writing a value and splitting the text into tokens gives the tokens of the value, in any layout that puts
nothing but gaps between them. A word or a number has no mark at its end; it is read once the next mark or
gap, or the end of the text, cuts it off. So texts are told apart by where they may start: `Reads` between
two tokens only, `Follows` right behind a token too.
-/
namespace PacketReplay.Json

open Decimal Text

/-! ### The tokens of a value -/

mutual

def Value.tokens : Value → List Token
  | .null => [.null]
  | .bool value => [.bool value]
  | .number numeral => [.number numeral]
  | .string content => [.string content]
  | .array [] => [.openArray, .closeArray]
  | .array (first :: rest) => .openArray :: (first.tokens ++ (itemTokens rest ++ [.closeArray]))
  | .object [] => [.openObject, .closeObject]
  | .object ((name, value) :: rest) =>
    .openObject :: .string name :: .colon :: (value.tokens ++ (fieldTokens rest ++ [.closeObject]))

def itemTokens : List Value → List Token
  | [] => []
  | item :: rest => .comma :: (item.tokens ++ itemTokens rest)

def fieldTokens : List (Content × Value) → List Token
  | [] => []
  | (name, value) :: rest => .comma :: .string name :: .colon :: (value.tokens ++ fieldTokens rest)

end

/-! ### Reading token by token -/

/-- The tokens read so far, in reverse, if the text ended here. -/
def Scanner.read? (scanner : Scanner) : Option (List Token) := endToken? scanner.tokens scanner.mode

/-- Between two tokens the text reads as these tokens. -/
def Reads (text : List Char) (tokens : List Token) : Prop :=
  ∀ before, ∃ after, text.foldlM Scanner.step ⟨before, .between⟩ = some after ∧
    after.read? = some (tokens.reverse ++ before)

/-- Right behind a token, too, the text reads as these tokens. -/
def Follows (text : List Char) (tokens : List Token) : Prop :=
  ∀ scanner before, scanner.read? = some before →
    ∃ after, text.foldlM Scanner.step scanner = some after ∧ after.read? = some (tokens.reverse ++ before)

theorem Follows.reads {text : List Char} {tokens : List Token} (follows : Follows text tokens) :
    Reads text tokens :=
  fun before => follows ⟨before, .between⟩ before rfl

theorem Follows.nil : Follows [] [] := fun scanner _ held => ⟨scanner, rfl, held⟩

section Append

variable {front back : List Char} {first second : List Token}

/-- What follows is read on from wherever the front has led. -/
theorem Follows.behind (follows : Follows back second) {scanner : Scanner} {before : List Token}
    (led : ∃ middle, front.foldlM Scanner.step scanner = some middle ∧
      middle.read? = some (first.reverse ++ before)) :
    ∃ after, (front ++ back).foldlM Scanner.step scanner = some after ∧
      after.read? = some ((first ++ second).reverse ++ before) := by
  obtain ⟨middle, atMiddle, held⟩ := led
  obtain ⟨after, atEnd, read⟩ := follows middle _ held
  refine ⟨after, ?_, ?_⟩
  · rw [List.foldlM_append, atMiddle]
    exact atEnd
  · rw [read, List.reverse_append, List.append_assoc]

theorem Reads.append (reads : Reads front first) (follows : Follows back second) :
    Reads (front ++ back) (first ++ second) :=
  fun before => follows.behind (reads before)

theorem Follows.append (reads : Follows front first) (follows : Follows back second) :
    Follows (front ++ back) (first ++ second) :=
  fun scanner before held => follows.behind (reads scanner before held)

end Append

/-- A character that continues neither a word nor a number ends them. -/
def Delimits (c : Char) : Prop := c.isLower = false ∧ isNumberCharacter c = false

instance (c : Char) : Decidable (Delimits c) := inferInstanceAs (Decidable (_ ∧ _))

theorem step_of_delimits {scanner : Scanner} {before : List Token} {c : Char}
    (held : scanner.read? = some before) (delimits : Delimits c) :
    scanner.step c = beginToken before c := by
  obtain ⟨noLetter, noNumber⟩ := delimits
  obtain ⟨tokens, mode⟩ := scanner
  cases mode with
  | between =>
    cases held
    rfl
  | word letters =>
    have ended : endToken? tokens (.word letters) = some before := held
    simp [Scanner.step, noLetter, ended]
  | number characters =>
    have ended : endToken? tokens (.number characters) = some before := held
    simp [Scanner.step, noNumber, ended]
  -- A text cannot end inside a string.
  | string => cases held
  | escape => cases held
  | unit => cases held

/-! ### Marks and gaps -/

/-- The character is a token of its own. -/
structure IsMark (c : Char) (token : Token) : Prop where
  begins : ∀ before, beginToken before c = some ⟨token :: before, .between⟩
  delimits : Delimits c

theorem isMark_openArray : IsMark '[' .openArray := ⟨fun _ => rfl, by decide⟩
theorem isMark_closeArray : IsMark ']' .closeArray := ⟨fun _ => rfl, by decide⟩
theorem isMark_openObject : IsMark '\x7b' .openObject := ⟨fun _ => rfl, by decide⟩
theorem isMark_closeObject : IsMark '\x7d' .closeObject := ⟨fun _ => rfl, by decide⟩
theorem isMark_colon : IsMark ':' .colon := ⟨fun _ => rfl, by decide⟩
theorem isMark_comma : IsMark ',' .comma := ⟨fun _ => rfl, by decide⟩

theorem Reads.mark {c : Char} {token : Token} {text : List Char} {tokens : List Token}
    (reads : Reads text tokens) (mark : IsMark c token) : Follows (c :: text) (token :: tokens) := by
  intro scanner before held
  obtain ⟨after, atEnd, read⟩ := reads (token :: before)
  refine ⟨after, ?_, ?_⟩
  · rw [List.foldlM_cons, step_of_delimits held mark.delimits, mark.begins]
    exact atEnd
  · rw [read, List.reverse_cons, List.append_assoc, List.singleton_append]

/-- The characters that may stand between tokens. -/
def gaps : List Char := [' ', '\t', '\n', '\r']

theorem beginToken_gap {c : Char} (gap : c ∈ gaps) (before : List Token) :
    beginToken before c = some ⟨before, .between⟩ := by
  fin_cases gap <;> rfl

theorem delimits_of_gap {c : Char} (gap : c ∈ gaps) : Delimits c := by
  fin_cases gap <;> decide

theorem Reads.gap {gap text : List Char} {tokens : List Token} (reads : Reads text tokens)
    (gaps : ∀ c ∈ gap, c ∈ gaps) : Reads (gap ++ text) tokens := by
  intro before
  induction gap with
  | nil => exact reads before
  | cons c gap ih =>
    rw [List.cons_append, List.foldlM_cons]
    have step : Scanner.step ⟨before, .between⟩ c = some ⟨before, .between⟩ :=
      beginToken_gap (gaps c List.mem_cons_self) before
    rw [step]
    exact ih fun d member => gaps d (List.mem_cons_of_mem c member)

theorem Follows.gap {gap text : List Char} {tokens : List Token} (follows : Follows text tokens)
    (gaps : ∀ c ∈ gap, c ∈ gaps) : Follows (gap ++ text) tokens := by
  cases gap with
  | nil => exact follows
  | cons c gap =>
    -- The first gap ends the token before it.
    have reads : Reads (gap ++ text) tokens :=
      follows.reads.gap fun d member => gaps d (List.mem_cons_of_mem c member)
    intro scanner before held
    have inside := gaps c List.mem_cons_self
    rw [List.cons_append, List.foldlM_cons, step_of_delimits held (delimits_of_gap inside),
      beginToken_gap inside]
    exact reads before

/-! ### Words and numbers -/

section Run

-- A word and a number are runs of characters that keep the scanner in one mode.
variable (mode : List Char → Mode) {characters : List Char}

theorem foldlM_run {before : List Token}
    (continues : ∀ c ∈ characters, ∀ read, Scanner.step ⟨before, mode read⟩ c = some ⟨before, mode (c :: read)⟩)
    (read : List Char) :
    characters.foldlM Scanner.step ⟨before, mode read⟩ = some ⟨before, mode (characters.reverse ++ read)⟩ := by
  induction characters generalizing read with
  | nil => rfl
  | cons c characters ih =>
    rw [List.foldlM_cons, continues c List.mem_cons_self]
    simp [ih fun d member => continues d (List.mem_cons_of_mem c member)]

/-- A run reads as the token that its end makes of it. -/
theorem reads_run {c : Char} {token : Token} (begins : ∀ before, beginToken before c = some ⟨before, mode [c]⟩)
    (continues : ∀ before, ∀ d ∈ characters, ∀ read,
      Scanner.step ⟨before, mode read⟩ d = some ⟨before, mode (d :: read)⟩)
    (ends : ∀ before, endToken? before (mode (c :: characters).reverse) = some (token :: before)) :
    Reads (c :: characters) [token] := by
  intro before
  refine ⟨⟨before, mode (c :: characters).reverse⟩, ?_, ends before⟩
  have step : Scanner.step ⟨before, .between⟩ c = some ⟨before, mode [c]⟩ := begins before
  rw [List.foldlM_cons, step, List.reverse_cons]
  exact foldlM_run mode (continues before) [c]

end Run

theorem reads_word {c : Char} {letters : List Char} {token : Token} (lower : letters.all Char.isLower = true)
    (begins : ∀ before, beginToken before c = some ⟨before, .word [c]⟩)
    (word : wordToken? (c :: letters) = some token) : Reads (c :: letters) [token] := by
  refine reads_run .word begins ?_ ?_
  · intro before d member read
    simp [Scanner.step, List.all_eq_true.mp lower d member]
  · intro before
    rw [endToken?, List.reverse_reverse, word]
    rfl

theorem isNumberCharacter_asciiDigit (digit : Fin 10) : isNumberCharacter (asciiDigit digit) = true := by
  simp [isNumberCharacter, asciiDigit_isDigit]

theorem isNumberCharacter_of_mem_text {numeral : Numeral} {c : Char} (member : c ∈ numeral.text) :
    isNumberCharacter c = true := by
  have digits (list : List (Fin 10)) (inside : c ∈ list.map asciiDigit) : isNumberCharacter c = true := by
    obtain ⟨digit, _, rfl⟩ := List.mem_map.mp inside
    exact isNumberCharacter_asciiDigit digit
  obtain ⟨negative, whole, fraction, exponent⟩ := numeral
  simp only [Numeral.text, List.mem_append] at member
  rcases member with ((inSign | inWhole) | inFraction) | inExponent
  · cases negative with
    | true => rw [List.mem_singleton.mp inSign]; rfl
    | false => cases inSign
  · exact digits _ inWhole
  · cases fraction with
    | nil => cases inFraction
    | cons digit rest =>
      rcases List.mem_cons.mp inFraction with rfl | inside
      · rfl
      · exact digits _ inside
  · cases exponent with
    | none => cases inExponent
    | some value =>
      simp only [Numeral.exponentText, List.mem_cons] at inExponent
      rcases inExponent with rfl | sign | inside
      · rfl
      · rw [sign]; split <;> rfl
      · exact digits _ inside

theorem beginToken_asciiDigit (before : List Token) (digit : Fin 10) :
    beginToken before (asciiDigit digit) = some ⟨before, .number [asciiDigit digit]⟩ := by
  fin_cases digit <;> rfl

theorem text_eq_cons (numeral : Numeral) : ∃ c rest, numeral.text = c :: rest ∧
    ∀ before, beginToken before c = some ⟨before, .number [c]⟩ := by
  obtain ⟨negative, whole, fraction, exponent⟩ := numeral
  cases negative with
  | true => exact ⟨'-', _, rfl, fun _ => rfl⟩
  | false =>
    -- Without a sign the whole part comes first, and it has at least one digit.
    obtain ⟨digit, rest, digits⟩ := decimal_eq_cons whole
    refine ⟨asciiDigit digit, rest ++ Numeral.fractionText fraction ++ Numeral.exponentText exponent, ?_, ?_⟩
    · simp [Numeral.text, Numeral.signText, digits]
    · exact fun before => beginToken_asciiDigit before digit

theorem reads_text (numeral : Numeral) : Reads numeral.text [.number numeral] := by
  obtain ⟨c, rest, text, begins⟩ := text_eq_cons numeral
  rw [text]
  refine reads_run .number begins ?_ ?_
  · intro before d member read
    have number : isNumberCharacter d = true :=
      isNumberCharacter_of_mem_text (text ▸ List.mem_cons_of_mem c member)
    simp [Scanner.step, number]
  · intro before
    rw [endToken?, List.reverse_reverse, ← text, Numeral.ofText?_text]
    rfl

/-! ### Strings -/

theorem hexDigit?_hexDigit (digit : Fin 16) : hexDigit? (hexDigit digit) = some digit.val := by
  decide +revert

/-- The piece stands for the character, whatever pieces follow. -/
def StandsFor (piece : Piece) (c : Char) : Prop :=
  ∀ rest, joinPieces? (piece :: rest) = (joinPieces? rest).map (c :: ·)

theorem standsFor_char (c : Char) : StandsFor (.char c) c := fun _ => by simp [joinPieces?]

theorem standsFor_unit {code : Nat} (small : code < 0xD800) : StandsFor (.unit code) (Char.ofNat code) := by
  have noHigh : isHighSurrogate code = false := by simp [isHighSurrogate]; omega
  have noLow : isLowSurrogate code = false := by simp [isLowSurrogate]; omega
  intro rest
  cases rest with
  | nil => simp [joinPieces?, noHigh, noLow]
  | cons next rest => cases next <;> simp [joinPieces?, noHigh, noLow]

/-- A character is written so that it reads as one piece that stands for it. -/
theorem foldlM_escapeChar (c : Char) (before : List Token) (pieces : List Piece) :
    ∃ piece, (escapeChar c).foldlM Scanner.step ⟨before, .string pieces⟩ =
      some ⟨before, .string (piece :: pieces)⟩ ∧ StandsFor piece c := by
  unfold escapeChar
  split
  -- The quote, the backslash and five control characters have an escape of one letter.
  iterate 7 exact ⟨_, rfl, standsFor_char _⟩
  next other noQuote noBackslash _ _ _ _ _ =>
    split
    next control =>
      -- Any other control character is written as four hexadecimal digits, the first two of them zero.
      have small : c.toNat < 32 := control
      have high := hexDigit?_hexDigit ⟨c.toNat / 16, by omega⟩
      have low := hexDigit?_hexDigit ⟨c.toNat % 16, by omega⟩
      have value : c.toNat / 16 * 16 + c.toNat % 16 = c.toNat := by omega
      refine ⟨.unit c.toNat, ?_, ?_⟩
      · have zero : hexDigit? '0' = some 0 := rfl
        simp [Scanner.step, high, low, zero, value]
      · have below : c.toNat < 0xD800 := by omega
        have stands := standsFor_unit below
        rwa [Char.ofNat_toNat] at stands
    next printable =>
      refine ⟨.char c, ?_, standsFor_char c⟩
      have noQuote : c ≠ '"' := noQuote
      have noBackslash : c ≠ '\\' := noBackslash
      simp [Scanner.step, printable, noQuote, noBackslash]

theorem foldlM_escaped (chars : List Char) (before : List Token) (pieces : List Piece) :
    ∃ added, (chars.flatMap escapeChar).foldlM Scanner.step ⟨before, .string pieces⟩ =
      some ⟨before, .string (added.reverse ++ pieces)⟩ ∧ joinPieces? added = some chars := by
  induction chars generalizing pieces with
  | nil => exact ⟨[], rfl, rfl⟩
  | cons c chars ih =>
    obtain ⟨piece, first, stands⟩ := foldlM_escapeChar c before pieces
    obtain ⟨added, others, joined⟩ := ih (piece :: pieces)
    refine ⟨piece :: added, ?_, ?_⟩
    · rw [List.flatMap_cons, List.foldlM_append, first]
      simp [others]
    · rw [stands, joined]
      rfl

theorem reads_quote (content : Content) : Reads (quote content) [.string content] := by
  intro before
  cases content with
  | none => exact ⟨⟨.string none :: before, .between⟩, rfl, rfl⟩
  | some content =>
    obtain ⟨added, inside, joined⟩ := foldlM_escaped content.toList before []
    have opened : Scanner.step ⟨before, .between⟩ '"' = some ⟨before, .string []⟩ := rfl
    have closed : Scanner.step ⟨before, .string added.reverse⟩ '"' =
        some ⟨.string (some content) :: before, .between⟩ := by
      simp [Scanner.step, stringToken, joined]
    refine ⟨⟨.string (some content) :: before, .between⟩, ?_, rfl⟩
    rw [quote, List.cons_append, List.foldlM_cons, opened]
    simp [List.foldlM_append, inside, closed]

/-! ### Values -/

/-- A layout adds nothing but gaps, and the colon. -/
structure Layout.Plain (layout : Layout) : Prop where
  newLine : ∀ depth, ∀ c ∈ layout.newLine depth, c ∈ gaps
  afterName : ∃ gap, layout.afterName = ':' :: gap ∧ ∀ c ∈ gap, c ∈ gaps

theorem Layout.plain_compact : Layout.compact.Plain where
  newLine _ _ member := by cases member
  afterName := ⟨[], rfl, fun _ member => by cases member⟩

theorem Layout.plain_pretty : Layout.pretty.Plain where
  newLine depth c member := by
    rcases List.mem_cons.mp member with rfl | blank
    · decide
    · rw [List.eq_of_mem_replicate blank]
      decide
  afterName := ⟨[' '], rfl, fun c member => by rw [List.mem_singleton.mp member]; decide⟩

/-- A name and what follows it, once its value reads. -/
theorem Layout.Plain.reads_field {layout : Layout} (plain : layout.Plain) (name : Content) {text : List Char}
    {tokens : List Token} (reads : Reads text tokens) :
    Reads (quote name ++ (layout.afterName ++ text)) (.string name :: .colon :: tokens) := by
  obtain ⟨gap, colon, gaps⟩ := plain.afterName
  rw [colon, List.cons_append]
  exact (reads_quote name).append ((reads.gap gaps).mark isMark_colon)

mutual

/-- A written value reads as its tokens. -/
theorem reads_write {layout : Layout} (plain : layout.Plain) (depth : Nat) (value : Value) :
    Reads (value.write layout depth) value.tokens := by
  cases value with
  | null => exact reads_word (by decide) (fun _ => rfl) (by decide)
  | bool value => cases value <;> exact reads_word (by decide) (fun _ => rfl) (by decide)
  | number numeral => exact reads_text numeral
  | string content => exact reads_quote content
  | array items =>
    cases items with
    | nil => exact ((Follows.nil.reads.mark isMark_closeArray).reads.mark isMark_openArray).reads
    | cons first rest =>
      -- Put together from the end: each part has to be read right behind the one before.
      have closes := (Follows.nil.reads.mark isMark_closeArray).gap (plain.newLine depth)
      have others := (follows_writeItems plain (depth + 1) rest).append closes
      have all := ((reads_write plain (depth + 1) first).append others).gap (plain.newLine (depth + 1))
      simpa [Value.write, Value.tokens] using (all.mark isMark_openArray).reads
  | object fields =>
    cases fields with
    | nil => exact ((Follows.nil.reads.mark isMark_closeObject).reads.mark isMark_openObject).reads
    | cons first rest =>
      obtain ⟨name, value⟩ := first
      have closes := (Follows.nil.reads.mark isMark_closeObject).gap (plain.newLine depth)
      have others := (follows_writeFields plain (depth + 1) rest).append closes
      have all := (reads_write plain (depth + 1) value).append others
      have named := (plain.reads_field name all).gap (plain.newLine (depth + 1))
      simpa [Value.write, Value.tokens] using (named.mark isMark_openObject).reads

theorem follows_writeItems {layout : Layout} (plain : layout.Plain) (depth : Nat) (items : List Value) :
    Follows (writeItems layout depth items) (itemTokens items) := by
  cases items with
  | nil => exact Follows.nil
  | cons item rest =>
    have all := (reads_write plain depth item).append (follows_writeItems plain depth rest)
    simpa [writeItems, itemTokens] using (all.gap (plain.newLine depth)).mark isMark_comma

theorem follows_writeFields {layout : Layout} (plain : layout.Plain) (depth : Nat)
    (fields : List (Content × Value)) : Follows (writeFields layout depth fields) (fieldTokens fields) := by
  cases fields with
  | nil => exact Follows.nil
  | cons first rest =>
    obtain ⟨name, value⟩ := first
    have all := (reads_write plain depth value).append (follows_writeFields plain depth rest)
    have named := (plain.reads_field name all).gap (plain.newLine depth)
    simpa [writeFields, fieldTokens] using named.mark isMark_comma

end

theorem tokens?_write {layout : Layout} (plain : layout.Plain) (value : Value) :
    tokens? (value.write layout 0) = some value.tokens := by
  obtain ⟨after, atEnd, read⟩ := reads_write plain 0 value []
  have ended : endToken? after.tokens after.mode = some value.tokens.reverse := by
    simpa [Scanner.read?] using read
  simp [tokens?, atEnd, ended]

end PacketReplay.Json
