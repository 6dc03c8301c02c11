/-!
# Lines

A text is cut at each line feed, and one carriage return in front of the line feed goes with it. What
follows the last line feed is a line if it is not empty; a carriage return at its end stays. The same rule
cuts characters and bytes.
-/
namespace PacketReplay.Text

/-- What ends a line, among characters or among bytes. -/
structure LineMarks (α : Type) where
  lineFeed : α
  carriageReturn : α

def LineMarks.characters : LineMarks Char := ⟨'\n', '\r'⟩

def LineMarks.bytes : LineMarks UInt8 := ⟨10, 13⟩

namespace LineMarks

variable {α : Type} [DecidableEq α] (marks : LineMarks α)

/-- A line that a line feed has ended, from its items in reverse. -/
def endedLine (reversed : List α) : List α :=
  (if reversed.head? = some marks.carriageReturn then reversed.tail else reversed).reverse

/-- The lines of the rest of a text, after the lines `done` and the items `pending` of an unended line, both
in reverse. -/
def linesFrom (done : List (List α)) (pending : List α) : List α → List (List α)
  | [] => (if pending.isEmpty then done else pending.reverse :: done).reverse
  | item :: rest =>
    if item = marks.lineFeed then linesFrom (marks.endedLine pending :: done) [] rest
    else linesFrom done (item :: pending) rest

/-- The lines of a text. -/
def lines (text : List α) : List (List α) := marks.linesFrom [] [] text

theorem linesFrom_done (done : List (List α)) (pending text : List α) :
    marks.linesFrom done pending text = done.reverse ++ marks.linesFrom [] pending text := by
  induction text generalizing done pending with
  | nil => simp only [linesFrom]; split <;> simp
  | cons item rest ih =>
    simp only [linesFrom]
    split
    · rw [ih (marks.endedLine pending :: done) [], ih [marks.endedLine pending] []]
      simp
    · exact ih done (item :: pending)

theorem linesFrom_append_lineFeed (done : List (List α)) (pending text rest : List α) :
    marks.linesFrom done pending (text ++ marks.lineFeed :: rest) =
      marks.linesFrom done pending (text ++ [marks.lineFeed]) ++ marks.lines rest := by
  induction text generalizing done pending with
  | nil => simp [linesFrom, lines, linesFrom_done marks (marks.endedLine pending :: done) [] rest]
  | cons item text ih =>
    simp only [List.cons_append, linesFrom]
    split <;> exact ih _ _

end LineMarks

/-- The lines of a text of characters. -/
def lines (text : List Char) : List (List Char) := LineMarks.characters.lines text

/-- A text that ends with a line feed does not run into what is written after it. -/
theorem lines_append_lineFeed (text rest : List Char) :
    lines (text ++ '\n' :: rest) = lines (text ++ ['\n']) ++ lines rest :=
  LineMarks.characters.linesFrom_append_lineFeed [] [] text rest

end PacketReplay.Text
