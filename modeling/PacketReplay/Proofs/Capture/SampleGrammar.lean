import PacketReplay.Proofs.Capture.Grammar

/-!
# The grammar of sample lines

A sample of a series stands where its key does: at the start of a line, or behind a blank. The grammar says so for
every key, whatever characters it is made of. Of all places the leftmost counts, and the line yields a sample if
the three numbers found there are ASCII numerals of 64 bits. The main result is that the samples of a key are what
the grammar says of each line, in the order of the lines.
-/
namespace PacketReplay.Line

open Text

/-! ### The pattern -/

/-- The key with a value and an instant behind it. -/
def SampleText.text (key : List Char) (pieces : SampleText) : List Char :=
  key ++ " ".toList ++ pieces.value ++ " ".toList ++ pieces.instant.text

/-- The text starts with the key and a sample of these pieces. -/
structure SampleText.Fits (key : List Char) (pieces : SampleText) (text : List Char) : Prop where
  value : IsNumeral pieces.value
  sec : IsNumeral pieces.instant.sec
  nsec : IsNumeral pieces.instant.nsec
  starts : pieces.text key <+: text

/-- The pieces fit at the start of the text, or behind a blank at the place. -/
inductive SampleText.Stands (key : List Char) (pieces : SampleText) (text : List Char) : Nat → Prop where
  | start (fits : pieces.Fits key text) : Stands key pieces text 0
  | behind {place : Nat} {c : Char} (here : text[place]? = some c) (blank : isBlank c = true)
    (fits : pieces.Fits key (text.drop (place + 1))) : Stands key pieces text place

/-- The pieces at the leftmost place of a line where any stand. -/
structure SampleText.Matches (key : List Char) (pieces : SampleText) (line : List Char) (place : Nat) : Prop where
  stands : pieces.Stands key line place
  leftmost : ∀ other elsewhere, SampleText.Stands key other line elsewhere → place ≤ elsewhere

/-- The numbers of a sample, if all three are ASCII numerals of 64 bits: the value comes first in the line. -/
structure SampleText.Numbers (pieces : SampleText) (value : UInt64) (instant : Instant) : Prop where
  value : Denotes pieces.value value
  sec : Denotes pieces.instant.sec instant.sec
  nsec : Denotes pieces.instant.nsec instant.nsec

/-- What a line carries for a key: a sample, or nothing. -/
inductive YieldsSample (key line : List Char) : Option Sample → Prop where
  | sample {pieces : SampleText} {place : Nat} {value : UInt64} {instant : Instant}
    (found : pieces.Matches key line place) (numbers : pieces.Numbers value instant) :
    YieldsSample key line (some ⟨instant.toSeconds, value⟩)
  /-- The match decides alone, whatever stands behind it. -/
  | badNumber {pieces : SampleText} {place : Nat} (found : pieces.Matches key line place)
    (bad : ∀ value instant, ¬ pieces.Numbers value instant) : YieldsSample key line none
  | noMatch (absent : ∀ pieces place, ¬ SampleText.Stands key pieces line place) : YieldsSample key line none

/-- The key stands in the line as a word of its own: nothing or a blank before it, and a space behind it. -/
def HasWord (key line : List Char) : Prop :=
  ∃ before behind, line = before ++ key ++ ' ' :: behind ∧ ∀ c ∈ before.getLast?, isBlank c = true

/-! ### Places -/

/-- What is read at a place are the pieces that fit there; no others do. -/
theorem sampleAt?_eq_some_iff (key text : List Char) (pieces : SampleText) :
    sampleAt? key text = some pieces ↔ pieces.Fits key text := by
  constructor
  · intro read
    unfold sampleAt? after? at read
    simp only [bind, Option.bind_eq_some_iff, pure, Option.some.injEq, Prod.exists] at read
    obtain ⟨_, word, _, space, _, _, value, _, gap, _, rest, instant, rfl⟩ := read
    -- Each reader has taken its piece off the front, so the pieces put together give the text back.
    obtain ⟨valueSplit, isValue⟩ := eq_of_numeral? value
    obtain ⟨instantSplit, isSec, isNsec⟩ := eq_of_instant? instant
    refine ⟨isValue, isSec, isNsec, rest, ?_⟩
    rw [eq_of_isPrefixOf? word, eq_of_isPrefixOf? space, valueSplit, eq_of_isPrefixOf? gap, instantSplit]
    unfold SampleText.text
    generalize " ".toList = space
    simp only [List.append_assoc]
  · rintro ⟨value, sec, nsec, rest, rfl⟩
    have readValue := numeral?_append value (" ".toList ++ (pieces.instant.text ++ rest)) (by rintro c ⟨⟩; decide)
    unfold SampleText.text sampleAt? after?
    generalize " ".toList = space at *
    simp only [List.append_assoc, isPrefixOf?_append, readValue, instant?_append sec nsec, bind, Option.bind_some,
      pure]

theorem sampleAt?_eq_none_iff (key text : List Char) :
    sampleAt? key text = none ↔ ∀ pieces, ¬ SampleText.Fits key pieces text := by
  simp only [Option.eq_none_iff_forall_ne_some, ne_eq, sampleAt?_eq_some_iff]

theorem sampleAfterBlank?_eq_some_iff (key text : List Char) (place : Nat) (pieces : SampleText) :
    sampleAfterBlank? key (text.drop place) = some pieces ↔
      ∃ c, text[place]? = some c ∧ isBlank c = true ∧ pieces.Fits key (text.drop (place + 1)) := by
  rw [← List.head?_drop, ← List.tail_drop]
  cases text.drop place with
  | nil => simp [sampleAfterBlank?]
  | cons c rest => simp [sampleAfterBlank?, sampleAt?_eq_some_iff]

/-- A key and a space never stand one place further too if what is behind the space is none. -/
theorem append_space_ne_cons (key : List Char) {c d : Char} (differs : d ≠ ' ') (rest others : List Char) :
    key ++ ' ' :: d :: rest ≠ c :: (key ++ ' ' :: others) := by
  -- Otherwise every character of the key would be the one before it, and the last one the space.
  induction key generalizing c with
  | nil =>
    intro same
    exact differs (List.cons.inj (List.cons.inj same).2).1
  | cons first key ih =>
    intro same
    exact ih (List.cons.inj same).2

/-- A sample at the start of a line leaves no place for one behind a blank at the start. -/
theorem SampleText.Fits.not_behind {key rest : List Char} {c : Char} {pieces other : SampleText}
    (fits : pieces.Fits key (c :: rest)) : ¬ other.Fits key rest := by
  rintro ⟨_, _, _, tail, split⟩
  obtain ⟨value, _, _, others, whole⟩ := fits
  obtain ⟨d, digits, isValue⟩ := List.exists_cons_of_ne_nil value.1
  have digit : d ≠ ' ' := by
    rintro rfl
    exact absurd (value.2 ' ' (isValue ▸ List.mem_cons_self)) (by decide)
  have space : " ".toList = [' '] := rfl
  rw [← split, SampleText.text, SampleText.text, isValue, space] at whole
  simp only [List.append_assoc, List.cons_append, List.nil_append] at whole
  exact append_space_ne_cons key digit _ _ whole

/-! ### The search -/

theorem sampleText?_eq_some_iff (key line : List Char) (pieces : SampleText) :
    sampleText? key line = some pieces ↔ ∃ place, pieces.Matches key line place := by
  unfold sampleText?
  cases start : sampleAt? key line with
  | some found =>
    -- A sample at the start is the leftmost, since none stands behind a blank that is at the start itself.
    have fits := (sampleAt?_eq_some_iff key line found).mp start
    constructor
    · rintro ⟨⟩
      exact ⟨0, .start fits, fun _ elsewhere _ => elsewhere.zero_le⟩
    · rintro ⟨place, stands, leftmost⟩
      obtain rfl : place = 0 := Nat.le_zero.mp (leftmost found 0 (.start fits))
      cases stands with
      | start others => rw [← start, (sampleAt?_eq_some_iff key line pieces).mpr others]
      | behind here _ others =>
        cases line with
        | nil => cases here
        | cons c rest => exact absurd others fits.not_behind
  | none =>
    have nowhere := (sampleAt?_eq_none_iff key line).mp start
    simp only [leftmost?_eq_some_iff_place, sampleAfterBlank?_eq_some_iff, Option.eq_none_iff_forall_ne_some, ne_eq]
    constructor
    · rintro ⟨place, ⟨c, here, blank, fits⟩, refused⟩
      refine ⟨place, .behind here blank fits, ?_⟩
      intro other elsewhere stands
      by_contra before
      cases stands with
      | start others => exact nowhere other others
      | behind there blank' others => exact refused elsewhere (not_le.mp before) other ⟨_, there, blank', others⟩
    · rintro ⟨place, stands, leftmost⟩
      cases stands with
      | start fits => exact absurd fits (nowhere pieces)
      | behind here blank fits =>
        refine ⟨place, ⟨_, here, blank, fits⟩, ?_⟩
        rintro elsewhere before other ⟨c, there, blank', others⟩
        exact absurd (leftmost other elsewhere (.behind there blank' others)) (not_le.mpr before)

/-- Where any pieces stand, some stand leftmost. -/
theorem SampleText.Stands.exists_matches {key line : List Char} {pieces : SampleText} {place : Nat}
    (stands : pieces.Stands key line place) :
    ∃ other least, SampleText.Matches key other line least := by
  classical
  have somewhere : ∃ place pieces, SampleText.Stands key pieces line place := ⟨place, pieces, stands⟩
  obtain ⟨other, here⟩ := Nat.find_spec somewhere
  refine ⟨other, Nat.find somewhere, here, ?_⟩
  intro another elsewhere there
  exact Nat.find_min' somewhere ⟨another, there⟩

theorem sampleText?_eq_none_iff (key line : List Char) :
    sampleText? key line = none ↔ ∀ pieces place, ¬ SampleText.Stands key pieces line place := by
  simp only [Option.eq_none_iff_forall_ne_some, ne_eq, sampleText?_eq_some_iff]
  constructor
  · intro absent pieces place stands
    obtain ⟨other, least, found⟩ := stands.exists_matches
    exact absent other ⟨least, found⟩
  · rintro absent pieces ⟨place, found⟩
    exact absent pieces place found.stands

/-! ### Lines -/

/-- A match decides alone. -/
theorem sample?_of_matches {key line : List Char} {pieces : SampleText} {place : Nat}
    (found : pieces.Matches key line place) (sample : Sample) :
    sample? key line = some sample ↔ ∃ value instant, pieces.Numbers value instant ∧
      sample = ⟨instant.toSeconds, value⟩ := by
  have search := (sampleText?_eq_some_iff key line pieces).mpr ⟨place, found⟩
  simp only [sample?, search, bind, Option.bind_some, Option.bind_eq_some_iff, pure, Option.some.injEq,
    InstantText.read?_eq_some_iff, word64?_eq_some_iff]
  constructor
  · rintro ⟨value, number, instant, ⟨sec, nsec⟩, rfl⟩
    exact ⟨value, instant, ⟨number, sec, nsec⟩, rfl⟩
  · rintro ⟨value, instant, ⟨number, sec, nsec⟩, rfl⟩
    exact ⟨value, number, instant, ⟨sec, nsec⟩, rfl⟩

theorem yieldsSample_iff (key line : List Char) (found : Option Sample) :
    YieldsSample key line found ↔ sample? key line = found := by
  constructor
  · intro yields
    cases yields with
    | sample place numbers => exact (sample?_of_matches place _).mpr ⟨_, _, numbers, rfl⟩
    | badNumber place bad =>
      rw [Option.eq_none_iff_forall_ne_some]
      intro sample read
      obtain ⟨value, instant, numbers, _⟩ := (sample?_of_matches place sample).mp read
      exact bad value instant numbers
    | noMatch absent => simp [sample?, (sampleText?_eq_none_iff key line).mpr absent]
  · rintro rfl
    cases search : sampleText? key line with
    | none =>
      have nothing : sample? key line = none := by simp [sample?, search]
      rw [nothing]
      exact .noMatch ((sampleText?_eq_none_iff key line).mp search)
    | some pieces =>
      obtain ⟨place, found⟩ := (sampleText?_eq_some_iff key line pieces).mp search
      cases read : sample? key line with
      | some sample =>
        obtain ⟨value, instant, numbers, rfl⟩ := (sample?_of_matches found sample).mp read
        exact .sample found numbers
      | none =>
        refine .badNumber found ?_
        intro value instant numbers
        rw [(sample?_of_matches found _).mpr ⟨value, instant, numbers, rfl⟩] at read
        cases read

/-- A key is never found inside a longer word. -/
theorem SampleText.Stands.hasWord {key line : List Char} {pieces : SampleText} {place : Nat}
    (stands : pieces.Stands key line place) : HasWord key line := by
  have space : " ".toList = [' '] := rfl
  cases stands with
  | start fits =>
    obtain ⟨_, _, _, rest, rfl⟩ := fits
    refine ⟨[], pieces.value ++ ' ' :: (pieces.instant.text ++ rest), by simp [SampleText.text, space], ?_⟩
    rintro c ⟨⟩
  | @behind _ c here blank fits =>
    obtain ⟨_, _, _, rest, split⟩ := fits
    obtain ⟨inside, rfl⟩ := List.getElem?_eq_some_iff.mp here
    refine ⟨line.take (place + 1), pieces.value ++ ' ' :: (pieces.instant.text ++ rest), ?_, ?_⟩
    · conv_lhs => rw [← List.take_append_drop (place + 1) line, ← split]
      simp [SampleText.text, space]
    · intro c last
      rw [List.take_succ_eq_append_getElem inside, List.getLast?_concat] at last
      cases last
      exact blank

/-- The samples of a key, whatever the key, are what the grammar says of each line, in the order of the lines, and
each stands in a line with the key as a word of its own. -/
theorem samples_follow_grammar (text key : String) :
    let lines := LineMarks.characters.linesOfPieces (text.toList.splitOn '\n')
    (∀ line, ∃! found, YieldsSample key.toList line found) ∧
    (∃ found : List (Option Sample), List.Forall₂ (YieldsSample key.toList) lines found ∧
      samplesOf text key = found.reduceOption) ∧
    ∀ sample ∈ samplesOf text key, ∃ line ∈ lines, HasWord key.toList line ∧
      YieldsSample key.toList line (some sample) := by
  intro lines
  have same : Text.lines text.toList = lines := LineMarks.characters.lines_eq_linesOfPieces text.toList
  rw [samplesOf, same]
  refine ⟨?_, ⟨lines.map (sample? key.toList), ?_, ?_⟩, ?_⟩
  · intro line
    refine ⟨sample? key.toList line, (yieldsSample_iff _ line _).mpr rfl, ?_⟩
    intro other yields
    exact ((yieldsSample_iff _ line other).mp yields).symm
  · rw [List.forall₂_map_right_iff, List.forall₂_same]
    intro line _
    exact (yieldsSample_iff _ line _).mpr rfl
  · simp [List.reduceOption, List.filterMap_map]
  · intro sample member
    obtain ⟨line, inLines, read⟩ := List.mem_filterMap.mp member
    have yields := (yieldsSample_iff _ line _).mpr read
    refine ⟨line, inLines, ?_, yields⟩
    cases yields with
    | sample found _ => exact found.stands.hasWord

/-- The leftmost place counts, even if a number found there is too large. -/
example :
    samplesOf ("cwnd 18446744073709551616 Instant \x7b tv_sec: 1, tv_nsec: 0 \x7d " ++
      "cwnd 2 Instant \x7b tv_sec: 1, tv_nsec: 0 \x7d") "cwnd" = [] := by decide +kernel

end PacketReplay.Line
