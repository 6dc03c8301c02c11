/-!
# Blank characters

The characters with the Unicode property White_Space, and the three things the library does with
them: leave them off both ends of a text, ask whether a text has anything else, and take the next
word off its front.
-/
namespace PacketReplay.Text

/-- First and last code point of each run of White_Space characters. -/
def blankRanges : List (Nat × Nat) :=
  [(0x0009, 0x000D), (0x0020, 0x0020), (0x0085, 0x0085), (0x00A0, 0x00A0), (0x1680, 0x1680),
   (0x2000, 0x200A), (0x2028, 0x2029), (0x202F, 0x202F), (0x205F, 0x205F), (0x3000, 0x3000)]

def isBlank (c : Char) : Bool :=
  blankRanges.any fun range => decide (range.1 ≤ c.toNat) && decide (c.toNat ≤ range.2)

/-- The 25 characters of the property, and no other. -/
theorem blankRanges_count :
    (blankRanges.flatMap fun range => List.range' range.1 (range.2 - range.1 + 1)).length = 25 := rfl

theorem isBlank_of_isWhitespace (c : Char) (space : c.isWhitespace = true) : isBlank c = true := by
  simp only [Char.isWhitespace, Bool.or_eq_true, decide_eq_true_eq] at space
  rcases space with ((rfl | rfl) | rfl) | rfl <;> decide

/-- The text without the blanks at its two ends. -/
def trim (text : List Char) : List Char :=
  ((text.dropWhile isBlank).reverse.dropWhile isBlank).reverse

/-- Whether the text holds blanks only. -/
def allBlank (text : List Char) : Bool := text.all isBlank

theorem dropWhile_isBlank_eq_nil_iff (text : List Char) :
    text.dropWhile isBlank = [] ↔ allBlank text = true := by
  induction text with
  | nil => simp [allBlank]
  | cons c rest ih =>
    simp only [allBlank] at ih
    by_cases blank : isBlank c = true <;> simp_all [allBlank]

theorem trim_eq_nil_iff (text : List Char) : trim text = [] ↔ allBlank text = true := by
  rw [← dropWhile_isBlank_eq_nil_iff]
  constructor
  · intro empty
    -- What is left in front of the blanks at the end would have to start with a blank.
    have blanks : allBlank (text.dropWhile isBlank).reverse = true :=
      (dropWhile_isBlank_eq_nil_iff _).mp (List.reverse_eq_nil_iff.mp empty)
    cases front : text.dropWhile isBlank with
    | nil => rfl
    | cons c rest =>
      have first : isBlank c = false := by
        have head := List.head?_dropWhile_not isBlank text
        simpa [front] using head
      rw [front] at blanks
      simp [allBlank, first] at blanks
  · intro empty
    simp [trim, empty]

/-- The first word of the text, which is its first longest run without blanks, and what follows. -/
def nextWord? (text : List Char) : Option (List Char × List Char) :=
  match text.dropWhile isBlank with
  | [] => none
  | front => some (front.takeWhile (!isBlank ·), front.dropWhile (!isBlank ·))

theorem nextWord?_eq_none_iff (text : List Char) : nextWord? text = none ↔ allBlank text = true := by
  rw [← dropWhile_isBlank_eq_nil_iff, nextWord?]
  split <;> simp_all

end PacketReplay.Text
