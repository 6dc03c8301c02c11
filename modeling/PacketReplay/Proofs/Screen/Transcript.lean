import PacketReplay.Proofs.Capture.Grammar
import PacketReplay.Proofs.Decimal.Numeral
import PacketReplay.Proofs.Screen.Counters
import PacketReplay.Proofs.Text.Lines

/-!
# Effects as lines

The text of an effect can be read back, whatever the token of a reason holds: after the sign stands a number,
and what stands behind the blank after it is the token. Of a readout only the index is read back; a time is
rounded, and keys may hold blanks. Effects that are read back lead to the same markers, and to a readout of the
same frame.
-/
namespace PacketReplay

open Text

/-! ### Reading an effect -/

/-- The number in front of the first blank, and the rest from that blank on. -/
def idAt? (text : List Char) : Option (UInt64 × List Char) :=
  (word64? (text.takeWhile (· ≠ ' '))).map fun id => (id, text.dropWhile (· ≠ ' '))

/-- What is added or taken away: a marker by its number alone, a flag by a number and a token. -/
def changeOf? (marker : UInt64 → Effect) (flag : UInt64 → Reason → Effect) (text : List Char) :
    Option Effect :=
  (idAt? text).map fun (id, rest) =>
    match rest with
    | [] => marker id
    | _ :: token => flag id (Reason.ofToken (String.ofList token))

/-- A readout by its index. -/
def indexAt? (text : List Char) : Option Nat :=
  match asciiDigits? (text.takeWhile (· ≠ ' ')) with
  | some (digit :: digits) => some (numberOf (digit :: digits))
  | _ => none

/-- The readout of an index, without a time and metrics. -/
def bareReadout (index : Nat) : Effect := .readout ⟨index, 0.0, .empty⟩

/-- The effect that a line shows. -/
def Effect.ofLine? : List Char → Option Effect
  | '+' :: ' ' :: rest => changeOf? .addMarker .addFlag rest
  | '-' :: ' ' :: rest => changeOf? .removeMarker .removeFlag rest
  | '@' :: ' ' :: rest => (indexAt? rest).map bareReadout
  | line => if line = "clear".toList then some .clear else none

/-- The index of a readout. -/
def Effect.index? : Effect → Option Nat
  | .readout numbers => some numbers.index
  | _ => none

/-- What a line shows of an effect. -/
def Effect.shown : Effect → Effect
  | .readout numbers => bareReadout numbers.index
  | effect => effect

/-- The effect is written on one line, without a carriage return at its end. -/
def Effect.OnOneLine : Effect → Prop
  | .addFlag _ reason | .removeFlag _ reason => Line.IsToken reason.token.toList
  | .readout numbers => ∀ entry ∈ numbers.metrics.entries, '\n' ∉ entry.1.toList
  | _ => True

theorem isDigit_of_mem_decimal {number : Nat} {c : Char} (member : c ∈ decimal number) :
    c.isDigit = true := by
  obtain ⟨digit, _, rfl⟩ := List.mem_map.mp member
  exact asciiDigit_isDigit digit

theorem notMem_decimal {c : Char} (other : c.isDigit = false) (number : Nat) : c ∉ decimal number := by
  intro member
  rw [isDigit_of_mem_decimal member] at other
  cases other

/-- A number is cut off at the blank behind it. -/
theorem span_decimal (number : Nat) {rest : List Char} (ends : ∀ c, rest.head? = some c → c = ' ') :
    (decimal number ++ rest).takeWhile (· ≠ ' ') = decimal number ∧
      (decimal number ++ rest).dropWhile (· ≠ ' ') = rest := by
  have digits : ∀ c ∈ decimal number, decide (c ≠ ' ') = true := by
    intro c member
    rw [decide_eq_true_eq]
    rintro rfl
    exact notMem_decimal rfl number member
  have stop : rest.takeWhile (· ≠ ' ') = [] ∧ rest.dropWhile (· ≠ ' ') = rest := by
    cases rest with
    | nil => exact ⟨rfl, rfl⟩
    | cons c rest => simp [ends c rfl]
  rw [List.takeWhile_append_of_pos digits, List.dropWhile_append_of_pos digits, stop.1, stop.2,
    List.append_nil]
  exact ⟨rfl, rfl⟩

/-- The digits of a number, of which there is at least one. -/
theorem asciiDigits?_decimal_cons (number : Nat) : ∃ digit rest,
    asciiDigits? (decimal number) = some (digit :: rest) ∧ numberOf (digit :: rest) = number := by
  obtain ⟨digit, rest, digits⟩ := List.exists_cons_of_ne_nil (digitsOf_ne_nil number)
  refine ⟨digit, rest, ?_, ?_⟩
  · rw [decimal, asciiDigits?_map, digits]
  · rw [← digits, numberOf_digitsOf]

theorem word64?_decimal (word : UInt64) : word64? (decimal word.toNat) = some word := by
  obtain ⟨digit, rest, digits, value⟩ := asciiDigits?_decimal_cons word.toNat
  simp only [word64?, digits, value, word.toNat_lt_size, if_true, UInt64.ofNat_toNat]

theorem idAt?_decimal (id : UInt64) {rest : List Char} (ends : ∀ c, rest.head? = some c → c = ' ') :
    idAt? (decimal id.toNat ++ rest) = some (id, rest) := by
  obtain ⟨front, back⟩ := span_decimal id.toNat ends
  rw [idAt?, front, back, word64?_decimal]
  rfl

theorem indexAt?_decimal (index : Nat) (rest : List Char) :
    indexAt? (decimal index ++ ' ' :: rest) = some index := by
  have ends : ∀ c, (' ' :: rest).head? = some c → c = ' ' := fun c first => (Option.some.inj first).symm
  obtain ⟨digit, more, digits, value⟩ := asciiDigits?_decimal_cons index
  simp only [indexAt?, (span_decimal index ends).1, digits, value]

theorem changeOf?_marker (marker : UInt64 → Effect) (flag : UInt64 → Reason → Effect) (id : UInt64) :
    changeOf? marker flag (decimal id.toNat) = some (marker id) := by
  have ends : ∀ c, ([] : List Char).head? = some c → c = ' ' := nofun
  have read := idAt?_decimal id ends
  rw [List.append_nil] at read
  rw [changeOf?, read]
  rfl

theorem changeOf?_flag (marker : UInt64 → Effect) (flag : UInt64 → Reason → Effect) (id : UInt64)
    (reason : Reason) :
    changeOf? marker flag (decimal id.toNat ++ ' ' :: reason.token.toList) = some (flag id reason) := by
  have ends : ∀ c, (' ' :: reason.token.toList).head? = some c → c = ' ' :=
    fun c first => (Option.some.inj first).symm
  rw [changeOf?, idAt?_decimal id ends]
  simp

/-- The text of an effect, with the number and what follows it set apart. -/
theorem Effect.toList_text (effect : Effect) : effect.text.toList =
    match effect with
    | .clear => "clear".toList
    | .addMarker id => '+' :: ' ' :: decimal id.toNat
    | .removeMarker id => '-' :: ' ' :: decimal id.toNat
    | .addFlag id reason => '+' :: ' ' :: (decimal id.toNat ++ ' ' :: reason.token.toList)
    | .removeFlag id reason => '-' :: ' ' :: (decimal id.toNat ++ ' ' :: reason.token.toList)
    | .readout numbers => '@' :: ' ' :: (decimal numbers.index ++
        ' ' :: 't' :: '=' :: (Decimal.fixedText 6 numbers.t ++ numbers.metrics.text.toList)) := by
  cases effect <;> simp [Effect.text, Readout.text, decimalText]

namespace Effect

theorem ofLine?_readout (index : Nat) (rest : List Char) :
    ofLine? ('@' :: ' ' :: (decimal index ++ ' ' :: rest)) = some (bareReadout index) := by
  simp only [ofLine?, indexAt?_decimal, Option.map_some]

/-- The text of an effect reads back as what it shows. -/
theorem ofLine?_text (effect : Effect) : ofLine? effect.text.toList = some effect.shown := by
  rw [toList_text]
  cases effect with
  | clear => rfl
  | addMarker id => exact changeOf?_marker .addMarker .addFlag id
  | removeMarker id => exact changeOf?_marker .removeMarker .removeFlag id
  | addFlag id reason => exact changeOf?_flag .addMarker .addFlag id reason
  | removeFlag id reason => exact changeOf?_flag .removeMarker .removeFlag id reason
  | readout numbers => exact ofLine?_readout numbers.index _

/-! ### Line ends -/

theorem lineFeed_notMem_fixedText (places : Nat) (value : Float) : '\n' ∉ Decimal.fixedText places value := by
  have digits (list : List (Fin 10)) : '\n' ∉ list.map asciiDigit := by
    intro member
    obtain ⟨digit, _, same⟩ := List.mem_map.mp member
    exact asciiDigit_ne_of_not_isDigit rfl digit same
  have sign (negative : Bool) : '\n' ∉ Decimal.Numeral.signText negative := by cases negative <;> decide
  have fraction (list : List (Fin 10)) : '\n' ∉ Decimal.Numeral.fractionText list := by
    cases list with
    | nil => exact List.not_mem_nil
    | cons digit rest => simpa [Decimal.Numeral.fractionText] using digits (digit :: rest)
  -- No number, an infinite one, or sign, whole part and fraction.
  unfold Decimal.fixedText Decimal.textWith
  split
  · decide
  · simp only [List.mem_append, not_or]
    exact ⟨sign _, by decide⟩
  · simp only [List.mem_append, not_or]
    exact ⟨sign _, digits _, fraction _⟩

theorem lineFeed_notMem_metrics {metrics : Metrics}
    (keys : ∀ entry ∈ metrics.entries, '\n' ∉ entry.1.toList) : '\n' ∉ metrics.text.toList := by
  have value (number : Nat) : '\n' ∉ decimal number := notMem_decimal rfl number
  simpa [Metrics.text, decimalText, value] using keys

theorem lineFeed_notMem_text {effect : Effect} (oneLine : effect.OnOneLine) : '\n' ∉ effect.text.toList := by
  have number (number : Nat) : '\n' ∉ decimal number := notMem_decimal rfl number
  have token {reason : Reason} (isToken : Line.IsToken reason.token.toList) :
      '\n' ∉ reason.token.toList := fun member => absurd (isToken.2 _ member) (by decide)
  rw [toList_text]
  cases effect with
  | clear => decide
  | addMarker id => simp [number]
  | removeMarker id => simp [number]
  | addFlag id reason => simp [number, token oneLine]
  | removeFlag id reason => simp [number, token oneLine]
  | readout numbers => simp [number, lineFeed_notMem_fixedText, lineFeed_notMem_metrics oneLine]

theorem ofLine?_withoutReturn_readout (index : Nat) (c : Char) (rest : List Char) :
    ofLine? (LineMarks.characters.withoutReturn ('@' :: ' ' :: (decimal index ++ ' ' :: c :: rest))) =
      some (bareReadout index) := by
  rcases LineMarks.characters.withoutReturn_cases ('@' :: ' ' :: (decimal index ++ ' ' :: c :: rest)) with
    dropped | same
  · -- The blank behind the index is not the last character.
    have shorter : ('@' :: ' ' :: (decimal index ++ ' ' :: c :: rest)).dropLast =
        '@' :: ' ' :: (decimal index ++ ' ' :: (c :: rest).dropLast) := by
      simp [List.dropLast_cons_of_ne_nil, List.dropLast_append_of_ne_nil]
    rw [dropped, shorter]
    exact ofLine?_readout index _
  · rw [same]
    exact ofLine?_readout index _

/-- A line loses nothing that is read back when a carriage return at its end is dropped. -/
theorem ofLine?_withoutReturn {effect : Effect} (oneLine : effect.OnOneLine) :
    ofLine? (LineMarks.characters.withoutReturn effect.text.toList) = some effect.shown := by
  have number (number : Nat) : '\r' ∉ decimal number := notMem_decimal rfl number
  have token {reason : Reason} (isToken : Line.IsToken reason.token.toList) :
      '\r' ∉ reason.token.toList := fun member => absurd (isToken.2 _ member) (by decide)
  -- Only a readout can end in a carriage return, with the key of a series.
  have whole (absent : '\r' ∉ effect.text.toList) :
      ofLine? (LineMarks.characters.withoutReturn effect.text.toList) = some effect.shown := by
    rw [LineMarks.characters.withoutReturn_of_notMem absent, ofLine?_text]
  cases effect with
  | clear => exact whole (by decide)
  | addMarker id => exact whole (by simp [toList_text, number])
  | removeMarker id => exact whole (by simp [toList_text, number])
  | addFlag id reason => exact whole (by simp [toList_text, number, token oneLine])
  | removeFlag id reason => exact whole (by simp [toList_text, number, token oneLine])
  | readout numbers =>
    have text : (Effect.readout numbers).text.toList = '@' :: ' ' :: (decimal numbers.index ++
        ' ' :: 't' :: '=' :: (Decimal.fixedText 6 numbers.t ++ numbers.metrics.text.toList)) := toList_text _
    rw [text]
    exact ofLine?_withoutReturn_readout numbers.index 't' _

/-- A line that shows an effect is no remark. -/
theorem head?_ne_of_ofLine? {line : List Char} {effect : Effect} (read : ofLine? line = some effect) :
    line.head? ≠ some '#' := by
  cases line with
  | nil => nofun
  | cons c rest =>
    intro remark
    obtain rfl : c = '#' := Option.some.inj remark
    simp [ofLine?] at read

end Effect

/-! ### Applying what was read -/

namespace Screen

/-- The same markers, and readouts of the same frame. -/
structure Resembles (left right : Screen) : Prop where
  markers : left.markers = right.markers
  index : left.readout.map Readout.index = right.readout.map Readout.index

theorem Resembles.apply {left right after : Screen} (resembles : left.Resembles right) {effect : Effect}
    (applied : left.apply effect = .ok after) :
    ∃ other, right.apply effect.shown = .ok other ∧ after.Resembles other := by
  have found : ∀ id, left.marker? id = right.marker? id := by
    intro id
    rw [marker?, marker?, resembles.markers]
  -- Effects read the markers and change them one by one; none looks at the readout.
  have changed (id : UInt64) (change : Marker → Marker) :
      (left.change id change).Resembles (right.change id change) :=
    ⟨by rw [Screen.change, Screen.change, resembles.markers], resembles.index⟩
  cases effect with
  | clear =>
    cases applied
    exact ⟨_, rfl, rfl, rfl⟩
  | addMarker id =>
    cases applied
    exact ⟨_, rfl, changed id _⟩
  | addFlag id reason =>
    cases applied
    exact ⟨_, rfl, changed id _⟩
  | removeMarker id =>
    simp only [Screen.apply, Effect.shown, ← found] at applied ⊢
    split at applied
    next shown =>
      cases applied
      exact ⟨_, if_pos shown, changed id _⟩
    next => cases applied
  | removeFlag id reason =>
    simp only [Screen.apply, Effect.shown, ← found] at applied ⊢
    split at applied
    next flagged =>
      cases applied
      exact ⟨_, if_pos flagged, changed id _⟩
    next => cases applied
  | readout numbers =>
    cases applied
    exact ⟨_, rfl, resembles.markers, rfl⟩

/-- What was read back can be applied like the effects themselves. -/
theorem Resembles.applyAll {left right after : Screen} {effects : List Effect}
    (resembles : left.Resembles right) (applied : left.applyAll effects = .ok after) :
    ∃ other, right.applyAll (effects.map Effect.shown) = .ok other ∧ after.Resembles other := by
  induction effects generalizing left right with
  | nil =>
    cases applied
    exact ⟨right, rfl, resembles⟩
  | cons effect rest ih =>
    obtain ⟨next, first, later⟩ := exists_of_applyAll_cons applied
    obtain ⟨other, applies, alike⟩ := resembles.apply first
    obtain ⟨final, reached, same⟩ := ih alike later
    exact ⟨final, by rw [List.map_cons, applyAll_cons_ok _ applies, reached], same⟩

/-- The readout of a screen is the last one that it was given. -/
theorem getLast?_indices {screen after : Screen} {effects : List Effect} {index : Nat}
    (applied : screen.applyAll effects = .ok after) (shows : after.readout.map Readout.index = some index) :
    (effects.filterMap Effect.index?).getLast?.or (screen.readout.map Readout.index) = some index := by
  induction effects generalizing screen with
  | nil =>
    cases applied
    exact shows
  | cons effect rest ih =>
    obtain ⟨next, first, applies⟩ := exists_of_applyAll_cons applied
    have later := ih applies
    cases effect with
    | readout numbers =>
      cases first
      simp only [List.filterMap_cons, Effect.index?, List.getLast?_cons, Option.map_some] at later ⊢
      cases last : (rest.filterMap Effect.index?).getLast? <;> simp_all
    | clear =>
      -- A cleared screen has no readout, so one that is shown at the end came later.
      cases first
      have some : (rest.filterMap Effect.index?).getLast? = some index := by
        simpa [Screen.empty] using later
      simp [List.filterMap_cons, Effect.index?, some]
    -- Markers and flags leave the readout as it is.
    | addMarker | addFlag =>
      cases first
      exact later
    | removeMarker | removeFlag =>
      simp only [Screen.apply] at first
      split at first
      · cases first
        exact later
      · cases first

end Screen
end PacketReplay
