import PacketReplay.Proofs.Program.Session

/-!
# A line that asks for a frame

Standard input may hold a single line that asks a replay for a frame. If a path leads to standard input, this line
is read in place of a file; but it is neither a setting nor an event, so no timeline comes of it. Where there is a
timeline, the line is still there to be obeyed.
-/
namespace PacketReplay

open Text

/-- A line that asks for the frame at an index. -/
def jumpLine (index : Nat) : List Char := 'j' :: ' ' :: decimal index

def jumpText (index : Nat) : String := "j " ++ decimalText index ++ "\n"

/-- Standard input with that line alone. -/
def jumpInput (index : Nat) : List UInt8 := (jumpText index).toUTF8.data.toList

theorem toList_jumpText (index : Nat) : (jumpText index).toList = jumpLine index ++ ['\n'] := by
  simp [jumpText, jumpLine, decimalText]

theorem mem_jumpLine {index : Nat} {c : Char} (member : c ∈ jumpLine index) :
    c = 'j' ∨ c = ' ' ∨ c.isDigit = true := by
  rw [jumpLine, List.mem_cons, List.mem_cons] at member
  exact member.imp_right (Or.imp_right isDigit_of_mem_decimal)

theorem notMem_jumpLine {c : Char} (index : Nat) (other : c ≠ 'j' ∧ c ≠ ' ' ∧ c.isDigit = false) :
    c ∉ jumpLine index := by
  intro member
  rcases mem_jumpLine member with same | same | digit
  · exact other.1 same
  · exact other.2.1 same
  · rw [other.2.2] at digit
    cases digit

theorem inputLines_jumpInput (index : Nat) : inputLines (jumpInput index) = [.ok (jumpLine index)] := by
  have text : jumpText index = String.ofList (jumpLine index ++ ['\n']) := by
    rw [← toList_jumpText, String.ofList_toList]
  have short : ∀ c ∈ jumpLine index, c.utf8Size = 1 := by
    intro c member
    rcases mem_jumpLine member with rfl | rfl | digit
    · rfl
    · rfl
    · rw [Char.utf8Size_eq_one_iff]
      simp only [Char.isDigit, Bool.and_eq_true, decide_eq_true_eq] at digit
      exact UInt32.le_trans digit.2 (by decide)
  rw [jumpInput, text]
  exact inputLines_of_short short (notMem_jumpLine index (by decide)) (notMem_jumpLine index (by decide))

theorem decodeText_jumpInput (index : Nat) : decodeText ⟨(jumpInput index).toArray⟩ = .ok (jumpText index) := by
  rw [jumpInput, Array.toArray_toList]
  exact decodeText_toUTF8 _

/-! ### As a command -/

theorem readIndex?_decimal {index : Nat} (small : index < 2 ^ 64) : readIndex? (decimal index) = some index := by
  have digits : word64? (decimal index) = some (UInt64.ofNat index) := by
    have read := word64?_decimal (UInt64.ofNat index)
    rwa [UInt64.toNat_ofNat_of_lt' small] at read
  -- A numeral has no sign in front, so it is read as a whole.
  have noSign : '+' ∉ decimal index := notMem_decimal rfl index
  unfold readIndex?
  split
  next same => exact absurd (same ▸ List.mem_cons_self) noSign
  next => rw [digits, Option.map_some, UInt64.toNat_ofNat_of_lt' small]

theorem words_jumpLine (index : Nat) : words (jumpLine index) = [['j'], decimal index] := by
  have solid : ∀ c ∈ decimal index, isBlank c = false := by
    intro c member
    obtain ⟨digit, -, rfl⟩ := List.mem_map.mp member
    have all : ∀ digit : Fin 10, isBlank (asciiDigit digit) = false := by decide
    exact all digit
  have notEmpty : decimal index ≠ [] := List.map_eq_nil_iff.not.mpr (digitsOf_ne_nil index)
  have letter : words (['j'] ++ ' ' :: decimal index) = ['j'] :: words (' ' :: decimal index) :=
    words_append (List.cons_ne_nil _ _) (List.forall_mem_singleton.mpr rfl) (by rintro c ⟨⟩; rfl)
  have number : words (decimal index ++ []) = decimal index :: words [] := words_append notEmpty solid nofun
  rw [List.append_nil, words_nil] at number
  rw [jumpLine, ← List.singleton_append, letter, words_cons_of_blank (by decide), number]

theorem Command.ofLine_jumpLine {index : Nat} (small : index < 2 ^ 64) :
    Command.ofLine (jumpLine index) = .ok (.jump index) := by
  have spelled : commandOf? (jumpLine index) = some (.jump index) := by
    simp [commandOf?, words_jumpLine, Command.spelled?, readIndex?_decimal small]
  rw [← toOption_ofLine] at spelled
  cases read : Command.ofLine (jumpLine index) with
  | error error => simp [read, Except.toOption] at spelled
  | ok command =>
    rw [read] at spelled
    exact congrArg Except.ok (Option.some.inj spelled)

/-! ### In place of a file -/

/-- An event names the log that it stands in. -/
theorem Line.event?_eq_none {line : List Char} (absent : 'q' ∉ line) : Line.event? line = none := by
  have nowhere : leftmost? eventAt? line = none := by
    refine (leftmost?_eventAt?_eq_none_iff line).mpr fun pieces place fits => absent ?_
    have named : 'q' ∈ pieces.text := by
      -- The name of the log comes first of the seven parts of an event.
      unfold EventText.text
      iterate 6 apply List.mem_append_left
      decide
    exact List.drop_subset place line (fits.starts.subset named)
  rw [event?, nowhere]
  rfl

/-- The line is no event. -/
theorem Scan.events_jumpText (index : Nat) : (Scan.ofText (jumpText index)).events = [] := by
  have noFeed : '\n' ∉ jumpLine index := notMem_jumpLine index (by decide)
  have noReturn : '\r' ∉ jumpLine index := notMem_jumpLine index (by decide)
  have lines : Text.lines (jumpText index).toList = [jumpLine index] := by
    have ended := LineMarks.characters.lines_append_ended noFeed []
    rw [LineMarks.withoutReturn_of_notMem _ noReturn] at ended
    rw [toList_jumpText]
    exact ended
  have none : Line.event? (jumpLine index) = none :=
    Line.event?_eq_none (notMem_jumpLine index (by decide))
  rw [Scan.ofText, lines, Scan.ofLines, List.filterMap_cons, none, List.filterMap_nil]

/-- The line is no JSON. -/
theorem Settings.read_jumpText (index : Nat) : Settings.read (jumpText index) = .error .notJson := by
  have tokens : Json.tokens? (jumpLine index ++ ['\n']) = none := by
    -- The letter begins a word, which ends at the blank and is none that there is.
    rfl
  simp [Settings.read, Json.parse?, toList_jumpText, tokens]

/-! ### Contents -/

/-- A path leads to a file or fails, and standard input is left as it was; or it leads to standard input. -/
theorem Files.text_cases (files : Files) (path : String) (input : List UInt8) :
    (files.text path input).2 = input ∨
      (files.text path input).1 = ⟨path, decodeText ⟨input.toArray⟩⟩ := by
  rw [Files.text]
  split
  · exact .inl rfl
  · exact .inl rfl
  · exact .inr rfl

theorem Files.input_of_settings {files : Files} {path : String} {index : Nat} {settings : Settings}
    (read : Settings.ofFile (files.text path (jumpInput index)).1 = .ok settings) :
    (files.text path (jumpInput index)).2 = jumpInput index := by
  rcases files.text_cases path (jumpInput index) with kept | fromInput
  · exact kept
  · rw [fromInput, decodeText_jumpInput] at read
    simp [Settings.ofFile, Settings.read_jumpText, Except.mapError, bind, Except.bind] at read

theorem Files.input_of_events {files : Files} {path : String} {index : Nat} {text : String}
    (read : (files.text path (jumpInput index)).1.text = .ok text) (some : (Scan.ofText text).events ≠ []) :
    (files.text path (jumpInput index)).2 = jumpInput index := by
  rcases files.text_cases path (jumpInput index) with kept | fromInput
  · exact kept
  · rw [fromInput, decodeText_jumpInput, Except.ok.injEq] at read
    exact absurd (read ▸ Scan.events_jumpText index) some

theorem Contents.timeline_eq_ok_iff {contents : Contents} {settings : Settings} {timeline : Timeline} :
    contents.timeline settings = .ok timeline ↔
      ∃ text, contents.log.text = .ok text ∧ Timeline.ofText settings text = .ok timeline := by
  rw [Contents.timeline]
  cases contents.log.text with
  | error cause => simp [Except.mapError, bind, Except.bind]
  | ok text => cases made : Timeline.ofText settings text <;> simp [made, Except.mapError, bind, Except.bind]

/-- Settings that are put on top of a file need a file that holds settings. -/
theorem CaptureOptions.exists_ofFile {options : CaptureOptions} {contents : Contents} {settings : Settings}
    (valid : options.settings contents = .ok settings) {file : FileText}
    (named : contents.settings = some file) : ∃ base, Settings.ofFile file = .ok base := by
  cases read : Settings.ofFile file with
  | error error =>
    simp [CaptureOptions.settings, Settings.effective, named, read, Except.mapError, bind, Except.bind] at valid
  | ok base => exact ⟨base, rfl⟩

/-- The line is still there for a replay that has settings and a timeline. -/
theorem CaptureOptions.input_of_timeline {options : CaptureOptions} {files : Files} {index : Nat}
    {settings : Settings} {timeline : Timeline}
    (valid : options.settings (options.contents files (jumpInput index)) = .ok settings)
    (built : (options.contents files (jumpInput index)).timeline settings = .ok timeline) :
    (options.contents files (jumpInput index)).input = jumpInput index := by
  obtain ⟨text, read, made⟩ := Contents.timeline_eq_ok_iff.mp built
  have some : (Scan.ofText text).events ≠ [] := (Timeline.exists_ofText_iff settings text).mp ⟨timeline, made⟩
  unfold CaptureOptions.contents at *
  cases config : options.config with
  | none =>
    simp only [config] at read ⊢
    exact Files.input_of_events read some
  | some path =>
    simp only [config] at valid read ⊢
    obtain ⟨base, ofFile⟩ := CaptureOptions.exists_ofFile valid rfl
    -- The settings are read first, so they leave the line for the capture.
    have left := Files.input_of_settings ofFile
    rw [left] at read ⊢
    exact Files.input_of_events read some

end PacketReplay
