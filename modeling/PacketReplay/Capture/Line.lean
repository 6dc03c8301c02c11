import PacketReplay.Text.Blank
import PacketReplay.Text.Digit
import PacketReplay.Capture.Record

/-!
# Lines of a capture

Two kinds of lines carry data, with anything before and after:

* an event, `quack_log Instant { tv_sec: D, tv_nsec: D } D (R)`;
* a sample of a series, `key D Instant { tv_sec: D, tv_nsec: D }`, where the key stands at the start
  of the line or after a blank.

`D` is a longest run of decimal digits and `R` a run without blanks, as long as it can be. The leftmost
place where the pattern fits decides alone: if a number found there does not fit 64 bits, the line carries
nothing.
-/
namespace PacketReplay.Line

open Text

/-- A numeral at the front of the text, and what follows it. -/
def numeral? (text : List Char) : Option (List Char × List Char) :=
  match text.takeWhile isDecimalDigit with
  | [] => none
  | run => some (run, text.dropWhile isDecimalDigit)

/-- What follows `expected` at the front of the text. -/
def after? (expected : String) (text : List Char) : Option (List Char) :=
  expected.toList.isPrefixOf? text

/-- The numerals of an instant. -/
structure InstantText where
  sec : List Char
  nsec : List Char
  deriving DecidableEq, Repr

/-- An instant at the front of the text, and what follows it. -/
def instant? (text : List Char) : Option (InstantText × List Char) := do
  let text ← after? "Instant \x7b tv_sec: " text
  let (sec, text) ← numeral? text
  let text ← after? ", tv_nsec: " text
  let (nsec, text) ← numeral? text
  let text ← after? " \x7d" text
  return (⟨sec, nsec⟩, text)

def InstantText.read? (text : InstantText) : Option Instant := do
  return ⟨← word64? text.sec, ← word64? text.nsec⟩

/-- What stands before the last closing parenthesis of a run. -/
def beforeLastClosing? : List Char → Option (List Char)
  | [] => none
  | c :: rest =>
    match beforeLastClosing? rest with
    | some inside => some (c :: inside)
    | none => if c = ')' then some [] else none

/-- The longest run without blanks, and with at least one character, that a closing parenthesis
follows. -/
def parenthesised? (text : List Char) : Option (List Char) :=
  match beforeLastClosing? (text.takeWhile (!isBlank ·)) with
  | some (c :: inside) => some (c :: inside)
  | _ => none

/-- The pieces of an event line. -/
structure EventText where
  instant : InstantText
  source : List Char
  reason : List Char
  deriving DecidableEq, Repr

/-- The event pattern at the front of the text. -/
def eventAt? (text : List Char) : Option EventText := do
  let text ← after? "quack_log " text
  let (instant, text) ← instant? text
  let text ← after? " " text
  let (source, text) ← numeral? text
  let text ← after? " (" text
  let reason ← parenthesised? text
  return ⟨instant, source, reason⟩

/-- The pieces of a sample line. -/
structure SampleText where
  value : List Char
  instant : InstantText
  deriving DecidableEq, Repr

/-- The sample pattern at the front of the text. -/
def sampleAt? (key : List Char) (text : List Char) : Option SampleText := do
  let text ← key.isPrefixOf? text
  let text ← after? " " text
  let (value, text) ← numeral? text
  let text ← after? " " text
  let (instant, _) ← instant? text
  return ⟨value, instant⟩

/-- The sample pattern after a blank at the front of the text. -/
def sampleAfterBlank? (key : List Char) : List Char → Option SampleText
  | [] => none
  | c :: rest => if isBlank c then sampleAt? key rest else none

/-- What a recogniser finds at the leftmost place of the text where it finds something. -/
def leftmost? {α : Type} (recognise : List Char → Option α) : List Char → Option α
  | [] => recognise []
  | c :: rest =>
    match recognise (c :: rest) with
    | some found => some found
    | none => leftmost? recognise rest

theorem leftmost?_eq_none_iff {α : Type} (recognise : List Char → Option α) (text : List Char) :
    leftmost? recognise text = none ↔ ∀ front rest, text = front ++ rest → recognise rest = none := by
  induction text with
  | nil =>
    simp only [leftmost?]
    constructor
    · intro absent front rest split
      obtain ⟨_, rfl⟩ := List.append_eq_nil_iff.mp split.symm
      exact absent
    · intro absent
      exact absent [] [] rfl
  | cons c text ih =>
    simp only [leftmost?]
    constructor
    · intro absent front rest split
      cases here : recognise (c :: text) with
      | some found => simp [here] at absent
      | none =>
        simp only [here] at absent
        cases front with
        | nil => rw [List.nil_append] at split; exact split ▸ here
        | cons d front => exact ih.mp absent front rest (List.cons.inj split).2
    · intro absent
      rw [absent [] (c :: text) rfl]
      exact ih.mpr fun front rest split => absent (c :: front) rest (by rw [split]; rfl)

/-- Where the leftmost place is: everything before it is refused. -/
theorem leftmost?_eq_some_iff {α : Type} (recognise : List Char → Option α) (text : List Char)
    (found : α) :
    leftmost? recognise text = some found ↔
      ∃ front rest, text = front ++ rest ∧ recognise rest = some found ∧
        ∀ before between, front = before ++ between → between ≠ [] →
          recognise (between ++ rest) = none := by
  induction text with
  | nil =>
    simp only [leftmost?]
    constructor
    · intro here
      refine ⟨[], [], rfl, here, fun before between split different => ?_⟩
      exact absurd (List.append_eq_nil_iff.mp split.symm).2 different
    · rintro ⟨front, rest, split, here, _⟩
      obtain ⟨_, rfl⟩ := List.append_eq_nil_iff.mp split.symm
      exact here
  | cons c text ih =>
    simp only [leftmost?]
    cases here : recognise (c :: text) with
    | some other =>
      -- Found at once: there is no place further left.
      constructor
      · rintro ⟨⟩
        refine ⟨[], c :: text, rfl, here, fun before between split different => ?_⟩
        exact absurd (List.append_eq_nil_iff.mp split.symm).2 different
      · rintro ⟨front, rest, split, there, refused⟩
        cases front with
        | nil =>
          rw [List.nil_append] at split
          rw [← split, here] at there
          exact there
        | cons d front =>
          have earlier := refused [] (d :: front) rfl (by simp)
          rw [← split, here] at earlier
          cases earlier
    | none =>
      -- The place in the whole text is one further to the right than the place in the rest.
      simp only [ih]
      constructor
      · rintro ⟨front, rest, rfl, there, refused⟩
        refine ⟨c :: front, rest, rfl, there, fun before between split different => ?_⟩
        cases before with
        | nil => rw [List.nil_append] at split; rw [← split]; exact here
        | cons d before => exact refused before between (List.cons.inj split).2 different
      · rintro ⟨front, rest, split, there, refused⟩
        cases front with
        | nil =>
          rw [List.nil_append] at split
          rw [← split, here] at there
          cases there
        | cons d front =>
          obtain ⟨rfl, rfl⟩ := List.cons.inj split
          exact ⟨front, rest, rfl, there, fun before between split different =>
            refused (c :: before) between (by rw [split]; rfl) different⟩

/-- The event of a line. -/
def event? (line : List Char) : Option Event := do
  let found ← leftmost? eventAt? line
  let instant ← found.instant.read?
  let source ← word64? found.source
  return ⟨instant.toSeconds, source, Reason.ofToken (String.ofList found.reason)⟩

/-- The leftmost place of the sample pattern. At the start of a line the key itself is tried before a
blank in front of it. -/
def sampleText? (key : List Char) (line : List Char) : Option SampleText :=
  match sampleAt? key line with
  | some found => some found
  | none => leftmost? (sampleAfterBlank? key) line

/-- The sample of a line for a key. -/
def sample? (key : List Char) (line : List Char) : Option Sample := do
  let found ← sampleText? key line
  let value ← word64? found.value
  let instant ← found.instant.read?
  return ⟨instant.toSeconds, value⟩

end PacketReplay.Line
