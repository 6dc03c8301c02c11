import Mathlib.Data.List.Forall2
import Mathlib.Data.List.ReduceOption
import Mathlib.Data.List.TakeWhile
import Mathlib.Data.Nat.Digits.Defs
import PacketReplay.Capture.Log
import PacketReplay.Proofs.Text.Lines

/-!
# The grammar of event lines

An event line is a place in a line at which the pieces of an event can be told apart. The grammar says so
without a search: of all places the leftmost counts, of all readings at that place the one with the longest
reason, and the line carries an event if the three numbers of that reading are ASCII numerals of 64 bits. The
main result is that a scan yields for each line what the grammar says, in the order of the lines.
-/
namespace PacketReplay.Line

open Text

/-! ### The pattern -/

/-- A run of decimal digits of any script. -/
def IsNumeral (run : List Char) : Prop := run ≠ [] ∧ ∀ c ∈ run, isDecimalDigit c = true

/-- A run without blanks. -/
def IsToken (run : List Char) : Prop := run ≠ [] ∧ ∀ c ∈ run, isBlank c = false

def InstantText.text (pieces : InstantText) : List Char :=
  "Instant \x7b tv_sec: ".toList ++ pieces.sec ++ ", tv_nsec: ".toList ++ pieces.nsec ++ " \x7d".toList

def EventText.text (pieces : EventText) : List Char :=
  "quack_log ".toList ++ pieces.instant.text ++ " ".toList ++ pieces.source ++ " (".toList ++ pieces.reason ++
    ")".toList

/-- The text starts with an event of these pieces. -/
structure EventText.Fits (pieces : EventText) (text : List Char) : Prop where
  sec : IsNumeral pieces.instant.sec
  nsec : IsNumeral pieces.instant.nsec
  source : IsNumeral pieces.source
  reason : IsToken pieces.reason
  starts : pieces.text <+: text

/-- The pieces at the leftmost place of a line where any fit, with the longest reason that fits there. -/
structure EventText.Matches (pieces : EventText) (line : List Char) (place : Nat) : Prop where
  fits : pieces.Fits (line.drop place)
  leftmost : ∀ other elsewhere, EventText.Fits other (line.drop elsewhere) → place ≤ elsewhere
  longest : ∀ other, EventText.Fits other (line.drop place) → other.reason.length ≤ pieces.reason.length

/-- The run is an ASCII numeral for the word; leading zeros are allowed. -/
def Denotes (run : List Char) (word : UInt64) : Prop :=
  ∃ digits : List (Fin 10), digits ≠ [] ∧ run = digits.map asciiDigit ∧
    Nat.ofDigits 10 (digits.map Fin.val).reverse = word.toNat

/-- The numbers of an event, if all three are ASCII numerals of 64 bits. -/
structure EventText.Numbers (pieces : EventText) (instant : Instant) (source : UInt64) : Prop where
  sec : Denotes pieces.instant.sec instant.sec
  nsec : Denotes pieces.instant.nsec instant.nsec
  source : Denotes pieces.source source

/-- What a line carries: an event, or nothing. -/
inductive Yields (line : List Char) : Option Event → Prop where
  | event {pieces : EventText} {place : Nat} {instant : Instant} {source : UInt64}
    (found : pieces.Matches line place) (numbers : pieces.Numbers instant source) :
    Yields line (some ⟨instant.toSeconds, source, Reason.ofToken (String.ofList pieces.reason)⟩)
  /-- The match decides alone, whatever stands behind it. -/
  | badNumber {pieces : EventText} {place : Nat} (found : pieces.Matches line place)
    (bad : ∀ instant source, ¬ pieces.Numbers instant source) : Yields line none
  | noMatch (absent : ∀ pieces place, ¬ EventText.Fits pieces (line.drop place)) : Yields line none

/-! ### Pieces of the pattern -/

theorem isPrefixOf?_append (expected rest : List Char) :
    expected.isPrefixOf? (expected ++ rest) = some rest := by
  induction expected with
  | nil => rfl
  | cons c front ih => simp [List.isPrefixOf?, ih]

theorem eq_of_isPrefixOf? {expected text rest : List Char} (read : expected.isPrefixOf? text = some rest) :
    text = expected ++ rest := by
  induction expected generalizing text with
  | nil =>
    cases read
    rfl
  | cons c front ih =>
    cases text with
    | nil => cases read
    | cons d text =>
      simp only [List.isPrefixOf?] at read
      split at read
      next same => rw [ih read, List.cons_append, beq_iff_eq.mp same]
      next => cases read

/-- A numeral is read whole if no other digit follows it. -/
theorem numeral?_append {run : List Char} (numeral : IsNumeral run) (rest : List Char)
    (ends : ∀ c, rest.head? = some c → isDecimalDigit c = false) :
    numeral? (run ++ rest) = some (run, rest) := by
  obtain ⟨notEmpty, digits⟩ := numeral
  have stop : rest.takeWhile isDecimalDigit = [] ∧ rest.dropWhile isDecimalDigit = rest := by
    cases rest with
    | nil => exact ⟨rfl, rfl⟩
    | cons c rest => simp [ends c rfl]
  unfold numeral?
  rw [List.takeWhile_append_of_pos digits, List.dropWhile_append_of_pos digits, stop.1, stop.2,
    List.append_nil]
  obtain ⟨c, tail, rfl⟩ := List.exists_cons_of_ne_nil notEmpty
  rfl

theorem eq_of_numeral? {text run rest : List Char} (read : numeral? text = some (run, rest)) :
    text = run ++ rest ∧ IsNumeral run := by
  unfold numeral? at read
  split at read
  next => cases read
  next notEmpty =>
    cases read
    refine ⟨List.takeWhile_append_dropWhile.symm, notEmpty, ?_⟩
    intro c member
    exact List.mem_takeWhile_imp member

theorem beforeLastClosing?_append (front rest : List Char) :
    ∃ more, beforeLastClosing? (front ++ ')' :: rest) = some (front ++ more) := by
  induction front with
  | nil =>
    simp only [List.nil_append, beforeLastClosing?]
    split
    next inside _ => exact ⟨_, rfl⟩
    next => exact ⟨[], rfl⟩
  | cons c front ih =>
    obtain ⟨more, read⟩ := ih
    exact ⟨more, by simp [beforeLastClosing?, read]⟩

theorem eq_of_beforeLastClosing? {run inside : List Char} (read : beforeLastClosing? run = some inside) :
    ∃ rest, run = inside ++ ')' :: rest := by
  induction run generalizing inside with
  | nil => cases read
  | cons c run ih =>
    simp only [beforeLastClosing?] at read
    split at read
    next found =>
      cases read
      obtain ⟨rest, split⟩ := ih found
      exact ⟨rest, by rw [split, List.cons_append]⟩
    next =>
      split at read
      next closing =>
        cases read
        exact ⟨run, by rw [closing, List.nil_append]⟩
      next => cases read

/-- Every token that a closing parenthesis follows is part of the one that is read. -/
theorem parenthesised?_append {token : List Char} (isToken : IsToken token) (rest : List Char) :
    ∃ more, parenthesised? (token ++ ')' :: rest) = some (token ++ more) := by
  obtain ⟨notEmpty, full⟩ := isToken
  -- The parenthesis is no blank, so the run goes on behind it.
  have run : (token ++ ')' :: rest).takeWhile (!isBlank ·) =
      token ++ ')' :: rest.takeWhile (!isBlank ·) := by
    rw [List.takeWhile_append_of_pos (by simpa using full), List.takeWhile_cons_of_pos (by decide)]
  obtain ⟨more, read⟩ := beforeLastClosing?_append token (rest.takeWhile (!isBlank ·))
  obtain ⟨c, tail, rfl⟩ := List.exists_cons_of_ne_nil notEmpty
  refine ⟨more, ?_⟩
  rw [parenthesised?, run, read]
  rfl

theorem eq_of_parenthesised? {text inside : List Char} (read : parenthesised? text = some inside) :
    IsToken inside ∧ ∃ rest, text = inside ++ ')' :: rest := by
  unfold parenthesised? at read
  split at read
  next c rest found =>
    cases read
    obtain ⟨tail, run⟩ := eq_of_beforeLastClosing? found
    refine ⟨⟨List.cons_ne_nil _ _, ?_⟩, tail ++ text.dropWhile (!isBlank ·), ?_⟩
    · intro d member
      have inRun : d ∈ text.takeWhile (!isBlank ·) := by
        rw [run]
        exact List.mem_append_left _ member
      simpa using List.mem_takeWhile_imp inRun
    · conv_lhs => rw [← List.takeWhile_append_dropWhile (p := (!isBlank ·)) (l := text), run, List.append_assoc]
      rfl
  next => cases read

/-! ### Instants and events -/

-- The literals of the pattern are generalised before anything is rearranged, so that nothing looks inside.

theorem instant?_append {pieces : InstantText} (sec : IsNumeral pieces.sec) (nsec : IsNumeral pieces.nsec)
    (rest : List Char) : instant? (pieces.text ++ rest) = some (pieces, rest) := by
  have readSec := numeral?_append sec
    (", tv_nsec: ".toList ++ (pieces.nsec ++ (" \x7d".toList ++ rest))) (by rintro c ⟨⟩; decide)
  have readNsec := numeral?_append nsec (" \x7d".toList ++ rest) (by rintro c ⟨⟩; decide)
  unfold instant? after? InstantText.text
  generalize "Instant \x7b tv_sec: ".toList = label at *
  generalize ", tv_nsec: ".toList = comma at *
  generalize " \x7d".toList = brace at *
  simp only [List.append_assoc, isPrefixOf?_append, readSec, readNsec, bind, Option.bind_some, pure]

theorem eq_of_instant? {pieces : InstantText} {text rest : List Char}
    (read : instant? text = some (pieces, rest)) :
    text = pieces.text ++ rest ∧ IsNumeral pieces.sec ∧ IsNumeral pieces.nsec := by
  unfold instant? after? at read
  unfold InstantText.text
  generalize "Instant \x7b tv_sec: ".toList = label at *
  generalize ", tv_nsec: ".toList = comma at *
  generalize " \x7d".toList = brace at *
  simp only [bind, Option.bind_eq_some_iff, pure, Option.some.injEq, Prod.exists, Prod.mk.injEq] at read
  obtain ⟨_, first, _, _, sec, _, second, _, _, nsec, _, third, rfl, rfl⟩ := read
  obtain ⟨secSplit, isSec⟩ := eq_of_numeral? sec
  obtain ⟨nsecSplit, isNsec⟩ := eq_of_numeral? nsec
  refine ⟨?_, isSec, isNsec⟩
  rw [eq_of_isPrefixOf? first, secSplit, eq_of_isPrefixOf? second, nsecSplit, eq_of_isPrefixOf? third]
  simp only [List.append_assoc]

theorem EventText.fits_of_eventAt? {text : List Char} {pieces : EventText}
    (read : eventAt? text = some pieces) : pieces.Fits text := by
  unfold eventAt? after? at read
  simp only [bind, Option.bind_eq_some_iff, pure, Option.some.injEq, Prod.exists] at read
  obtain ⟨_, log, _, _, instant, _, blank, _, _, source, _, opening, _, reason, rfl⟩ := read
  obtain ⟨instantSplit, isSec, isNsec⟩ := eq_of_instant? instant
  obtain ⟨sourceSplit, isSource⟩ := eq_of_numeral? source
  obtain ⟨isReason, rest, reasonSplit⟩ := eq_of_parenthesised? reason
  refine ⟨isSec, isNsec, isSource, isReason, rest, ?_⟩
  have closing : ")".toList ++ rest = ')' :: rest := rfl
  rw [eq_of_isPrefixOf? log, instantSplit, eq_of_isPrefixOf? blank, sourceSplit, eq_of_isPrefixOf? opening,
    reasonSplit, ← closing]
  unfold EventText.text
  generalize "quack_log ".toList = label
  generalize " ".toList = blank
  generalize " (".toList = opening
  generalize ")".toList = closing
  simp only [List.append_assoc]

/-- Where pieces fit, an event is read with the same numerals and a reason that is at least as long. -/
theorem EventText.Fits.exists_eventAt? {pieces : EventText} {text : List Char} (fits : pieces.Fits text) :
    ∃ more, eventAt? text = some ⟨pieces.instant, pieces.source, pieces.reason ++ more⟩ := by
  obtain ⟨sec, nsec, source, reason, rest, rfl⟩ := fits
  obtain ⟨more, read⟩ := parenthesised?_append reason rest
  have closing : ")".toList ++ rest = ')' :: rest := rfl
  have readSource := numeral?_append source (" (".toList ++ (pieces.reason ++ (")".toList ++ rest)))
    (by rintro c ⟨⟩; decide)
  refine ⟨more, ?_⟩
  rw [← closing] at read
  unfold EventText.text eventAt? after?
  generalize "quack_log ".toList = label at *
  generalize " ".toList = blank at *
  generalize " (".toList = opening at *
  generalize ")".toList = closing at *
  simp only [List.append_assoc, isPrefixOf?_append, instant?_append sec nsec, readSource, read, bind,
    Option.bind_some, pure]

/-- What is read at a place are the pieces with the longest reason that fit there. -/
theorem eventAt?_eq_some_iff (text : List Char) (pieces : EventText) :
    eventAt? text = some pieces ↔
      pieces.Fits text ∧ ∀ other, EventText.Fits other text → other.reason.length ≤ pieces.reason.length := by
  constructor
  · intro read
    refine ⟨EventText.fits_of_eventAt? read, ?_⟩
    -- Whatever fits is part of what is read, and only one thing is read.
    intro other fits
    obtain ⟨more, longer⟩ := fits.exists_eventAt?
    rw [read] at longer
    cases longer
    simp
  · rintro ⟨fits, longest⟩
    obtain ⟨more, read⟩ := fits.exists_eventAt?
    have bound := longest _ (EventText.fits_of_eventAt? read)
    have nothing : more = [] := by
      rw [List.length_append] at bound
      exact List.length_eq_zero_iff.mp (by omega)
    rw [read, nothing, List.append_nil]

theorem eventAt?_eq_none_iff (text : List Char) :
    eventAt? text = none ↔ ∀ pieces, ¬ EventText.Fits pieces text := by
  constructor
  · intro absent pieces fits
    obtain ⟨more, read⟩ := fits.exists_eventAt?
    rw [absent] at read
    cases read
  · intro absent
    rw [Option.eq_none_iff_forall_ne_some]
    intro pieces read
    exact absent pieces (EventText.fits_of_eventAt? read)

/-! ### The search -/

section Search

variable {α : Type} (recognise : List Char → Option α) (text : List Char)

/-- The leftmost place by its distance from the start. -/
theorem leftmost?_eq_some_iff_place (found : α) :
    leftmost? recognise text = some found ↔
      ∃ place, recognise (text.drop place) = some found ∧
        ∀ elsewhere < place, recognise (text.drop elsewhere) = none := by
  rw [leftmost?_eq_some_iff]
  constructor
  · rintro ⟨front, rest, rfl, read, refused⟩
    refine ⟨front.length, by rwa [List.drop_left], ?_⟩
    intro elsewhere before
    -- Between that place and the leftmost stands something, so that place was tried and refused.
    have between : front.drop elsewhere ≠ [] := by
      rw [Ne, List.drop_eq_nil_iff]
      omega
    rw [List.drop_append_of_le_length (by omega)]
    exact refused (front.take elsewhere) _ (List.take_append_drop _ _).symm between
  · rintro ⟨place, read, refused⟩
    refine ⟨text.take place, text.drop place, (List.take_append_drop _ _).symm, read, ?_⟩
    intro before between split different
    have earlier : text.drop before.length = between ++ text.drop place := by
      conv_lhs => rw [← List.take_append_drop place text, split, List.append_assoc, List.drop_left]
    have length := congrArg List.length split
    have positive := List.length_pos_iff.mpr different
    have bound := List.length_take_le place text
    rw [List.length_append] at length
    rw [← earlier]
    exact refused before.length (by omega)

theorem leftmost?_eq_none_iff_place :
    leftmost? recognise text = none ↔ ∀ place, recognise (text.drop place) = none := by
  rw [leftmost?_eq_none_iff]
  constructor
  · intro absent place
    exact absent _ _ (List.take_append_drop place text).symm
  · rintro absent front rest rfl
    have here := absent front.length
    rwa [List.drop_left] at here

end Search

theorem leftmost?_eventAt?_eq_some_iff (line : List Char) (pieces : EventText) :
    leftmost? eventAt? line = some pieces ↔ ∃ place, pieces.Matches line place := by
  simp only [leftmost?_eq_some_iff_place, eventAt?_eq_some_iff, eventAt?_eq_none_iff]
  constructor
  · rintro ⟨place, ⟨fits, longest⟩, refused⟩
    refine ⟨place, fits, ?_, longest⟩
    intro other elsewhere fitsElsewhere
    by_contra before
    exact refused elsewhere (not_le.mp before) other fitsElsewhere
  · rintro ⟨place, fits, leftmost, longest⟩
    refine ⟨place, ⟨fits, longest⟩, ?_⟩
    intro elsewhere before other fitsElsewhere
    exact absurd (leftmost other elsewhere fitsElsewhere) (not_le.mpr before)

theorem leftmost?_eventAt?_eq_none_iff (line : List Char) :
    leftmost? eventAt? line = none ↔ ∀ pieces place, ¬ EventText.Fits pieces (line.drop place) := by
  simp only [leftmost?_eq_none_iff_place, eventAt?_eq_none_iff]
  exact forall_comm

/-! ### Numbers -/

theorem asciiDigit?_eq_some_iff (c : Char) (digit : Fin 10) : asciiDigit? c = some digit ↔ c = asciiDigit digit := by
  constructor
  · intro read
    unfold asciiDigit? at read
    split at read
    next bounds =>
      cases read
      have value : 48 + (c.toNat - 48) = c.toNat := by omega
      simp [asciiDigit, value]
    next => cases read
  · rintro rfl
    exact asciiDigit?_asciiDigit digit

theorem asciiDigits?_eq_some_iff (run : List Char) (digits : List (Fin 10)) :
    asciiDigits? run = some digits ↔ run = digits.map asciiDigit := by
  constructor
  · intro read
    unfold asciiDigits? at read
    induction run generalizing digits with
    | nil =>
      cases read
      rfl
    | cons c run ih =>
      simp only [List.mapM_cons, bind, Option.bind_eq_some_iff, pure, Option.some.injEq] at read
      obtain ⟨digit, first, rest, later, rfl⟩ := read
      rw [List.map_cons, ← ih rest later, ← (asciiDigit?_eq_some_iff c digit).mp first]
  · rintro rfl
    exact asciiDigits?_map digits

theorem numberFrom_eq (value : Nat) (digits : List (Fin 10)) :
    numberFrom value digits = Nat.ofDigits 10 (digits.map Fin.val).reverse + value * 10 ^ digits.length := by
  induction digits generalizing value with
  | nil => simp [numberFrom]
  | cons digit rest ih =>
    rw [numberFrom, ih, List.map_cons, List.reverse_cons, Nat.ofDigits_append, Nat.ofDigits_singleton,
      List.length_reverse, List.length_map, List.length_cons, pow_succ]
    ring

theorem numberOf_eq (digits : List (Fin 10)) :
    numberOf digits = Nat.ofDigits 10 (digits.map Fin.val).reverse := by
  rw [numberOf, numberFrom_eq, Nat.zero_mul, Nat.add_zero]

theorem word64?_eq_some_iff (run : List Char) (word : UInt64) :
    word64? run = some word ↔ Denotes run word := by
  constructor
  · intro read
    unfold word64? at read
    split at read
    next digit rest digits =>
      split at read
      next bound =>
        cases read
        refine ⟨digit :: rest, List.cons_ne_nil _ _, (asciiDigits?_eq_some_iff _ _).mp digits, ?_⟩
        rw [← numberOf_eq, UInt64.toNat_ofNat_of_lt' bound]
      next => cases read
    next => cases read
  · rintro ⟨digits, notEmpty, rfl, value⟩
    rw [← numberOf_eq] at value
    obtain ⟨digit, rest, rfl⟩ := List.exists_cons_of_ne_nil notEmpty
    have bound : numberOf (digit :: rest) < UInt64.size := value ▸ word.toNat_lt
    rw [word64?, asciiDigits?_map]
    dsimp only
    rw [if_pos bound, value, UInt64.ofNat_toNat]

theorem InstantText.read?_eq_some_iff (pieces : InstantText) (instant : Instant) :
    pieces.read? = some instant ↔ Denotes pieces.sec instant.sec ∧ Denotes pieces.nsec instant.nsec := by
  obtain ⟨sec, nsec⟩ := instant
  simp only [InstantText.read?, bind, Option.bind_eq_some_iff, pure, Option.some.injEq, Instant.mk.injEq,
    word64?_eq_some_iff]
  constructor
  · rintro ⟨_, isSec, _, isNsec, rfl, rfl⟩
    exact ⟨isSec, isNsec⟩
  · rintro ⟨isSec, isNsec⟩
    exact ⟨sec, isSec, nsec, isNsec, rfl, rfl⟩

/-! ### Lines -/

/-- A match decides alone. -/
theorem event?_of_matches {line : List Char} {pieces : EventText} {place : Nat}
    (found : pieces.Matches line place) (event : Event) :
    event? line = some event ↔ ∃ instant source, pieces.Numbers instant source ∧
      event = ⟨instant.toSeconds, source, Reason.ofToken (String.ofList pieces.reason)⟩ := by
  have search := (leftmost?_eventAt?_eq_some_iff line pieces).mpr ⟨place, found⟩
  simp only [event?, search, bind, Option.bind_some, Option.bind_eq_some_iff, pure, Option.some.injEq,
    InstantText.read?_eq_some_iff, word64?_eq_some_iff]
  constructor
  · rintro ⟨instant, ⟨sec, nsec⟩, source, number, rfl⟩
    exact ⟨instant, source, ⟨sec, nsec, number⟩, rfl⟩
  · rintro ⟨instant, source, ⟨sec, nsec, number⟩, rfl⟩
    exact ⟨instant, ⟨sec, nsec⟩, source, number, rfl⟩

theorem yields_iff (line : List Char) (found : Option Event) : Yields line found ↔ event? line = found := by
  constructor
  · intro yields
    cases yields with
    | event place numbers => exact (event?_of_matches place _).mpr ⟨_, _, numbers, rfl⟩
    | badNumber place bad =>
      rw [Option.eq_none_iff_forall_ne_some]
      intro event read
      obtain ⟨instant, source, numbers, _⟩ := (event?_of_matches place event).mp read
      exact bad instant source numbers
    | noMatch absent => simp [event?, (leftmost?_eventAt?_eq_none_iff line).mpr absent]
  · rintro rfl
    cases search : leftmost? eventAt? line with
    | none =>
      have nothing : event? line = none := by simp [event?, search]
      rw [nothing]
      exact .noMatch ((leftmost?_eventAt?_eq_none_iff line).mp search)
    | some pieces =>
      obtain ⟨place, found⟩ := (leftmost?_eventAt?_eq_some_iff line pieces).mp search
      cases read : event? line with
      | some event =>
        obtain ⟨instant, source, numbers, rfl⟩ := (event?_of_matches found event).mp read
        exact .event found numbers
      | none =>
        refine .badNumber found ?_
        intro instant source numbers
        rw [(event?_of_matches found _).mpr ⟨instant, source, numbers, rfl⟩] at read
        cases read

/-- A scan yields for each line what the grammar says, in the order of the lines; a line that yields nothing
is skipped. -/
theorem scan_follows_grammar (text : String) :
    let lines := LineMarks.characters.linesOfPieces (text.toList.splitOn '\n')
    let scan := Scan.ofText text
    (∀ line, ∃! found, Yields line found) ∧
    (∃ found : List (Option Event), List.Forall₂ Yields lines found ∧
      scan.events = found.reduceOption ∧ scan.skipped = found.count none) ∧
    scan.events.length + scan.skipped = lines.length ∧
    ∀ event ∈ scan.events, ∃ line ∈ lines, ∃ pieces place, EventText.Matches pieces line place ∧
      event.reason.token = String.ofList pieces.reason := by
  intro lines scan
  have same : Text.lines text.toList = lines := LineMarks.characters.lines_eq_linesOfPieces text.toList
  have scanned : scan = Scan.ofLines lines := congrArg Scan.ofLines same
  rw [scanned]
  refine ⟨?_, ⟨lines.map event?, ?_, ?_, ?_⟩, Scan.length_events_add_skipped lines, ?_⟩
  · intro line
    refine ⟨event? line, (yields_iff line _).mpr rfl, ?_⟩
    intro other yields
    exact ((yields_iff line other).mp yields).symm
  · rw [List.forall₂_map_right_iff, List.forall₂_same]
    intro line _
    exact (yields_iff line _).mpr rfl
  · simp [Scan.ofLines, List.reduceOption, List.filterMap_map]
  · rw [List.count_eq_countP, List.countP_map, Scan.ofLines]
    apply List.countP_congr
    intro line _
    simp
  · intro event member
    obtain ⟨line, inLines, read⟩ := List.mem_filterMap.mp member
    refine ⟨line, inLines, ?_⟩
    cases (yields_iff line _).mpr read with
    | event found numbers => exact ⟨_, _, found, Reason.token_ofToken _⟩

end PacketReplay.Line
