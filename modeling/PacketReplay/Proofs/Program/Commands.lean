import Mathlib.Data.List.TakeWhile
import PacketReplay.Program.Session
import PacketReplay.Proofs.Player.Call
import PacketReplay.Proofs.Text.Lines

/-!
# Commands by their words

A line is its words, the pieces between blanks that are not empty. Which command a line spells is a matter of
its words alone, and so is where a replay stands after a number of lines: a walk over indices that knows
neither a screen nor effects.
-/
namespace PacketReplay

open Text

/-! ### Words -/

/-- The longest runs without blanks. -/
def words (line : List Char) : List (List Char) := (line.splitOnP isBlank).filter fun word => !word.isEmpty

theorem words_nil : words [] = [] := by simp [words]

theorem words_cons_of_blank {c : Char} (blank : isBlank c = true) (rest : List Char) :
    words (c :: rest) = words rest := by
  simp [words, List.splitOnP_cons_eq_if_modifyHead, blank]

/-- Blanks in front do not matter. -/
theorem words_dropWhile (line : List Char) : words (line.dropWhile isBlank) = words line := by
  induction line with
  | nil => rfl
  | cons c rest ih =>
    by_cases blank : isBlank c = true
    · rw [List.dropWhile_cons_of_pos blank, ih, words_cons_of_blank blank]
    · rw [List.dropWhile_cons_of_neg blank]

/-- A run without blanks that a blank or the end follows is the first word. -/
theorem words_append {word : List Char} (notEmpty : word ≠ []) (solid : ∀ c ∈ word, isBlank c = false)
    {rest : List Char} (ends : ∀ c, rest.head? = some c → isBlank c = true) :
    words (word ++ rest) = word :: words rest := by
  cases rest with
  | nil => simp [words, List.splitOnP_eq_singleton solid, notEmpty]
  | cons c rest =>
    have blank := ends c rfl
    rw [words_cons_of_blank blank, words, words, List.splitOnP_append_cons_of_forall_mem solid c blank]
    simp [notEmpty]

theorem nextWord?_eq_none {line : List Char} (none : nextWord? line = none) : words line = [] := by
  have blank := (nextWord?_eq_none_iff line).mp none
  rw [← words_dropWhile, (dropWhile_isBlank_eq_nil_iff line).mpr blank, words_nil]

/-- The next word of a line is its first, and the words of what follows are the others. -/
theorem nextWord?_eq_some {line word rest : List Char} (next : nextWord? line = some (word, rest)) :
    words line = word :: words rest := by
  unfold nextWord? at next
  split at next
  · cases next
  next notEmpty =>
    cases next
    have starts := List.head?_dropWhile_not isBlank line
    rw [← words_dropWhile line]
    generalize line.dropWhile isBlank = front at notEmpty starts ⊢
    cases front with
    | nil => exact absurd rfl notEmpty
    | cons c tail =>
      -- The blanks in front are gone, so the run up to the next blank is not empty.
      have solid : isBlank c = false := by simpa using starts
      have notBlank : (c :: tail).takeWhile (!isBlank ·) ≠ [] := by simp [solid]
      have inside : ∀ d ∈ (c :: tail).takeWhile (!isBlank ·), isBlank d = false := by
        intro d member
        simpa using List.mem_takeWhile_imp member
      have ends : ∀ d, ((c :: tail).dropWhile (!isBlank ·)).head? = some d → isBlank d = true := by
        intro d first
        have stops := List.head?_dropWhile_not (!isBlank ·) (c :: tail)
        rw [first] at stops
        simpa using stops
      have parts := words_append notBlank inside ends
      rwa [List.takeWhile_append_dropWhile] at parts

/-! ### Commands -/

theorem firstWords_eq (line : List Char) : firstWords line =
    match (words line).map String.ofList with
    | [] => ("", none)
    | [word] => (word, none)
    | word :: second :: _ => (word, some second) := by
  unfold firstWords
  split
  next none => rw [nextWord?_eq_none none]; rfl
  next word rest next =>
    rw [nextWord?_eq_some next]
    cases second : nextWord? rest with
    | none => rw [nextWord?_eq_none second]; rfl
    | some found =>
      obtain ⟨other, more⟩ := found
      rw [nextWord?_eq_some second]
      rfl

/-- The command that words spell; further words are passed over where a command takes a value. -/
def Command.spelled? : List String → Option Command
  | ["n"] | ["next"] => some .next
  | ["p"] | ["prev"] => some .previous
  | "j" :: index :: _ | "jump" :: index :: _ => (readIndex? index.toList).map .jump
  | "t" :: t :: _ | "time" :: t :: _ => (Decimal.readFloat? t.toList).map .time
  | ["play"] => some .play
  | ["pause"] => some .pause
  | ["q"] | ["quit"] => some .quit
  | _ => none

/-- The command that a line spells. -/
def commandOf? (line : List Char) : Option Command := Command.spelled? ((words line).map String.ofList)

theorem toOption_ofLine (line : List Char) : (Command.ofLine line).toOption = commandOf? line := by
  unfold Command.ofLine commandOf?
  rw [firstWords_eq]
  generalize (words line).map String.ofList = parts
  -- No word, one word, or two words and more.
  rcases parts with _ | ⟨word, _ | ⟨second, more⟩⟩
  · rfl
  · dsimp only
    split <;> simp_all [Command.spelled?, Except.toOption]
  · -- The second word may be read as an index, as a time, as both or as neither.
    cases index : readIndex? second.toList <;> cases t : Decimal.readFloat? second.toList
    all_goals
      dsimp only
      split <;> simp_all [Command.spelled?, Except.toOption]

theorem commandOf?_eq_some {line : List Char} {command : Command} (read : Command.ofLine line = .ok command) :
    commandOf? line = some command := by
  rw [← toOption_ofLine, read]
  rfl

theorem commandOf?_eq_none {line : List Char} {error : CommandError}
    (read : Command.ofLine line = .error error) : commandOf? line = none := by
  rw [← toOption_ofLine, read]
  rfl

/-- A line of blanks spells nothing. -/
theorem commandOf?_of_allBlank {line : List Char} (blank : allBlank line = true) : commandOf? line = none := by
  rw [commandOf?, nextWord?_eq_none ((nextWord?_eq_none_iff line).mpr blank)]
  rfl

/-! ### Walks over indices -/

/-- Where a command leads from an index. -/
def Timeline.indexAfter (timeline : Timeline) (epsilon : Float) (index : Nat) : Command → Nat
  | .next => if index < timeline.lastIndex then index + 1 else index
  | .previous => index - 1
  | .jump target => if target ≤ timeline.lastIndex then target else index
  | .time t => timeline.indexAt t epsilon
  | .play => timeline.lastIndex
  | .pause | .quit => index

/-- Where lines lead from an index. Lines that spell no command change nothing, and nothing counts after the
command to quit. -/
def Timeline.walk (timeline : Timeline) (epsilon : Float) (index : Nat) : List (List Char) → Nat
  | [] => index
  | line :: rest =>
    match commandOf? line with
    | none => timeline.walk epsilon index rest
    | some .quit => index
    | some command => timeline.walk epsilon (timeline.indexAfter epsilon index command) rest

example : Timeline.sentThenAcked.walk 0.0 0 (["n", " jump  +1 x", "", "p now", "time 1e400", "q", "p"].map
    String.toList) = 1 := by
  decide +kernel

end PacketReplay
