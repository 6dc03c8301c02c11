import PacketReplay.Text.Lines

/-!
# Lines as pieces

The lines of a text are the pieces between its line feeds: every piece but the last has been ended by a line
feed and loses a carriage return at its end, and the last piece is a line if it is not empty.
-/
namespace PacketReplay.Text

/-- No piece holds an item at which the list is cut. -/
theorem eq_false_of_mem_splitOnP {α : Type} {cuts : α → Bool} {items piece : List α} {item : α}
    (isPiece : piece ∈ items.splitOnP cuts) (member : item ∈ piece) : cuts item = false := by
  induction items generalizing piece with
  | nil =>
    rw [List.splitOnP_nil, List.mem_singleton] at isPiece
    subst isPiece
    cases member
  | cons first rest ih =>
    rw [List.splitOnP_cons_eq_if_modifyHead] at isPiece
    split at isPiece
    next =>
      rcases List.mem_cons.mp isPiece with rfl | later
      · cases member
      · exact ih later member
    next keeps =>
      -- Only the first piece grows, by an item that does not cut.
      obtain ⟨front, more, pieces⟩ := List.exists_cons_of_ne_nil (List.splitOnP_ne_nil cuts rest)
      rw [pieces] at isPiece ih
      rcases List.mem_cons.mp isPiece with rfl | later
      · rcases List.mem_cons.mp member with rfl | inFront
        · exact Bool.eq_false_iff.mpr keeps
        · exact ih List.mem_cons_self inFront
      · exact ih (List.mem_cons_of_mem _ later) member

end PacketReplay.Text

namespace PacketReplay.Text.LineMarks

variable {α : Type} [DecidableEq α] (marks : LineMarks α)

/-- A piece without a carriage return at its end. -/
def withoutReturn (piece : List α) : List α :=
  if piece.getLast? = some marks.carriageReturn then piece.dropLast else piece

/-- The lines that the pieces between line feeds give. -/
def linesOfPieces : List (List α) → List (List α)
  | [] => []
  | [last] => if last.isEmpty then [] else [last]
  | ended :: next :: rest => withoutReturn marks ended :: linesOfPieces (next :: rest)

theorem endedLine_reverse (piece : List α) : marks.endedLine piece.reverse = marks.withoutReturn piece := by
  unfold endedLine withoutReturn
  rw [List.head?_reverse]
  split
  · rw [← List.dropLast_reverse, List.reverse_reverse]
  · exact List.reverse_reverse piece

theorem linesOfPieces_cons {pieces : List (List α)} (ended : List α) (more : pieces ≠ []) :
    marks.linesOfPieces (ended :: pieces) = marks.withoutReturn ended :: marks.linesOfPieces pieces := by
  cases pieces with
  | nil => exact absurd rfl more
  | cons next rest => rfl

omit [DecidableEq α] in
private theorem modifyHead_nil_append (pieces : List (List α)) :
    pieces.modifyHead ([] ++ ·) = pieces := by
  cases pieces <;> rfl

/-- The items that are pending belong to the first piece. -/
theorem linesFrom_eq_linesOfPieces (pending text : List α) :
    marks.linesFrom [] pending.reverse text =
      marks.linesOfPieces ((text.splitOn marks.lineFeed).modifyHead (pending ++ ·)) := by
  induction text generalizing pending with
  | nil => cases pending <;> simp [linesFrom, linesOfPieces, List.splitOn]
  | cons item rest ih =>
    rw [linesFrom, List.splitOn_cons_eq_if_modifyHead]
    by_cases feed : item = marks.lineFeed
    · -- The line feed ends the pending line, and nothing is pending behind it.
      have next := ih []
      rw [List.reverse_nil, modifyHead_nil_append] at next
      rw [if_pos feed, if_pos (beq_iff_eq.mpr feed), linesFrom_done, next, endedLine_reverse]
      simp [linesOfPieces_cons, List.splitOn_ne_nil]
    · -- Any other item is pending with those before it.
      have later := ih (pending ++ [item])
      rw [List.reverse_append] at later
      rw [if_neg feed, if_neg (by simpa using feed), List.modifyHead_modifyHead]
      simpa [Function.comp_def] using later

/-- A text is cut at its line feeds. -/
theorem lines_eq_linesOfPieces (text : List α) :
    marks.lines text = marks.linesOfPieces (text.splitOn marks.lineFeed) := by
  have whole := marks.linesFrom_eq_linesOfPieces [] text
  rwa [modifyHead_nil_append, List.reverse_nil] at whole

/-- A line with its line feed is cut off. -/
theorem lines_append_ended {line : List α} (unbroken : marks.lineFeed ∉ line) (rest : List α) :
    marks.lines (line ++ marks.lineFeed :: rest) = marks.withoutReturn line :: marks.lines rest := by
  rw [lines_eq_linesOfPieces, List.splitOn_append_cons_self_of_not_mem unbroken,
    linesOfPieces_cons marks _ (List.splitOn_ne_nil _ _), ← lines_eq_linesOfPieces]

theorem withoutReturn_cases (piece : List α) :
    marks.withoutReturn piece = piece.dropLast ∨ marks.withoutReturn piece = piece := by
  rw [withoutReturn]
  split
  · exact .inl rfl
  · exact .inr rfl

theorem withoutReturn_of_notMem {piece : List α} (absent : marks.carriageReturn ∉ piece) :
    marks.withoutReturn piece = piece := by
  unfold withoutReturn
  split
  next last => exact absurd (List.mem_of_getLast? last) absent
  next => rfl

theorem mem_of_mem_withoutReturn {item : α} {piece : List α} (member : item ∈ marks.withoutReturn piece) :
    item ∈ piece := by
  rcases marks.withoutReturn_cases piece with shorter | same
  · rw [shorter] at member
    exact List.dropLast_subset piece member
  · rwa [same] at member

theorem mem_linesOfPieces {pieces : List (List α)} {line : List α}
    (member : line ∈ marks.linesOfPieces pieces) : ∃ piece ∈ pieces, ∀ item ∈ line, item ∈ piece := by
  induction pieces with
  | nil => cases member
  | cons ended rest ih =>
    cases rest with
    | nil =>
      simp only [linesOfPieces] at member
      split at member
      · cases member
      · obtain rfl := List.mem_singleton.mp member
        exact ⟨line, List.mem_cons_self, fun _ inside => inside⟩
    | cons next rest =>
      rcases List.mem_cons.mp member with rfl | later
      · exact ⟨ended, List.mem_cons_self, fun _ inside => marks.mem_of_mem_withoutReturn inside⟩
      · obtain ⟨piece, inRest, all⟩ := ih later
        exact ⟨piece, List.mem_cons_of_mem _ inRest, all⟩

/-- No line has a line feed in it. -/
theorem lineFeed_notMem_of_mem_lines {text line : List α} (member : line ∈ marks.lines text) :
    marks.lineFeed ∉ line := by
  rw [lines_eq_linesOfPieces] at member
  obtain ⟨piece, isPiece, all⟩ := marks.mem_linesOfPieces member
  rw [List.splitOn_eq_splitOnP] at isPiece
  intro inside
  have cut := eq_false_of_mem_splitOnP isPiece (all _ inside)
  simp at cut

end PacketReplay.Text.LineMarks
