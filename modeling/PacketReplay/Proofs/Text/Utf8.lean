import PacketReplay.Proofs.Text.Lines
import PacketReplay.Text.Utf8

/-!
# Decoded lines

A line feed is decoded from the byte of a line feed only: every longer sequence stands for a code point from
128 on, because the bounds on its second byte keep out the long forms. So a decoded line of an input has no
line feed in it.
-/
namespace PacketReplay.Text

/-- The bits so far, with those that the next bytes must bring, make a code point from 128 on. -/
structure Sequence.Long (sequence : Sequence) : Prop where
  bits : 2 ≤ sequence.bits ∨ 2 ≤ sequence.missing ∧ (1 ≤ sequence.bits ∨ 0x82 ≤ sequence.low)
  high : sequence.high ≤ 0xBF

theorem Sequence.long_of_begin? {start byte : Nat} {sequence : Sequence}
    (begins : Sequence.begin? start byte = some sequence) : sequence.Long := by
  unfold Sequence.begin? at begins
  split at begins
  · cases begins
  next notShort =>
    -- Every start byte from `0xC2` on brings bits, or a bound on the byte after it.
    repeat' split at begins
    all_goals cases begins
    all_goals constructor <;> simp <;> omega

theorem ofNat_ne_lineFeed {code : Nat} (other : code ≠ 10) : Char.ofNat code ≠ '\n' := by
  intro same
  have value : (Char.ofNat code).toNat = 10 := congrArg Char.toNat same
  by_cases valid : code.isValidChar
  · have kept : (Char.ofNat code).toNat = code := by
      rw [Char.ofNat, dif_pos valid]
      rfl
    exact other (kept.symm.trans value)
  · -- A number that is no code point gives the character zero.
    have zero : (Char.ofNat code).toNat = 0 := by
      rw [Char.ofNat, dif_neg valid]
      rfl
    rw [zero] at value
    cases value

/-- No line feed so far, and none to come of the sequence part way through. -/
structure Decoding.Unbroken (decoding : Decoding) : Prop where
  characters : '\n' ∉ decoding.characters
  sequence : ∀ sequence, decoding.sequence = some sequence → sequence.Long

theorem Decoding.Unbroken.step {decoding next : Decoding} {byte : UInt8} (unbroken : decoding.Unbroken)
    (other : byte ≠ 10) (steps : decoding.step byte = .ok next) : next.Unbroken := by
  have noFeed : byte.toNat ≠ 10 := fun same => other (UInt8.toNat_inj.mp same)
  obtain ⟨characters, index, sequence⟩ := decoding
  have added {code : Nat} (differs : code ≠ 10) : '\n' ∉ Char.ofNat code :: characters := by
    rw [List.mem_cons, not_or]
    exact ⟨(ofNat_ne_lineFeed differs).symm, unbroken.characters⟩
  cases sequence with
  | none =>
    simp only [Decoding.step] at steps
    split at steps
    · cases steps
      exact ⟨added noFeed, fun _ found => by cases found⟩
    · split at steps
      next sequence begins =>
        cases steps
        refine ⟨unbroken.characters, ?_⟩
        rintro _ ⟨⟩
        exact Sequence.long_of_begin? begins
      next => cases steps
  | some sequence =>
    obtain ⟨bits, high⟩ := unbroken.sequence sequence rfl
    simp only [Decoding.step] at steps
    split at steps
    next bounds =>
      obtain ⟨low, atMost⟩ := bounds
      split at steps
      next last =>
        cases steps
        refine ⟨added ?_, fun _ found => by cases found⟩
        omega
      next more =>
        cases steps
        refine ⟨unbroken.characters, ?_⟩
        rintro _ ⟨⟩
        -- Either there were bits before, or the bound on this byte brings two.
        exact ⟨.inl (by simp only; omega), Nat.le_refl _⟩
    next => cases steps

theorem Decoding.Unbroken.foldlM {bytes : List UInt8} {decoding final : Decoding}
    (unbroken : decoding.Unbroken) (others : 10 ∉ bytes)
    (decoded : bytes.foldlM Decoding.step decoding = .ok final) : final.Unbroken := by
  induction bytes generalizing decoding with
  | nil =>
    cases decoded
    exact unbroken
  | cons byte rest ih =>
    rw [List.mem_cons, not_or] at others
    rw [List.foldlM_cons] at decoded
    cases steps : decoding.step byte with
    | error fault =>
      rw [steps] at decoded
      cases decoded
    | ok next =>
      rw [steps] at decoded
      exact ih (unbroken.step (Ne.symm others.1) steps) others.2 decoded

/-- Bytes without a line feed decode to characters without one. -/
theorem lineFeed_notMem_of_decode {bytes : List UInt8} {characters : List Char} (others : 10 ∉ bytes)
    (decoded : decode bytes = .ok characters) : '\n' ∉ characters := by
  unfold decode at decoded
  cases read : bytes.foldlM Decoding.step ⟨[], 0, none⟩ with
  | error fault =>
    rw [read] at decoded
    cases decoded
  | ok final =>
    have start : Decoding.Unbroken ⟨[], 0, none⟩ := ⟨by simp, fun _ found => by cases found⟩
    have unbroken := start.foldlM others read
    rw [read] at decoded
    simp only [bind, Except.bind] at decoded
    split at decoded
    · cases decoded
    · cases decoded
      simpa using unbroken.characters

/-- No line of an input that is text has a line feed in it. -/
theorem lineFeed_notMem_of_inputLines {bytes : List UInt8} {line : List Char}
    (member : .ok line ∈ inputLines bytes) : '\n' ∉ line := by
  obtain ⟨part, isLine, decoded⟩ := List.mem_map.mp member
  exact lineFeed_notMem_of_decode (LineMarks.bytes.lineFeed_notMem_of_mem_lines isLine) decoded

/-! ### Characters of one byte -/

theorem toUTF8_bytes (text : String) :
    text.toUTF8.data.toList = text.toList.flatMap String.utf8EncodeChar := by
  rw [String.toUTF8_eq_toByteArray, ← String.utf8Encode_toList, List.utf8Encode, List.toList_data_toByteArray]

theorem toNat_byte {c : Char} (short : c.utf8Size = 1) :
    c.val.toUInt8.toNat = c.toNat ∧ c.val.toUInt8.toNat < 128 := by
  have small : c.toNat ≤ 127 := UInt32.le_iff_toNat_le.mp (Char.utf8Size_eq_one_iff.mp short)
  have kept : c.val.toUInt8.toNat = c.toNat :=
    (UInt32.toNat_toUInt8 _).trans (Nat.mod_eq_of_lt (Nat.lt_of_le_of_lt small (by decide)))
  exact ⟨kept, kept ▸ Nat.lt_succ_of_le small⟩

theorem ofNat_byte {c : Char} (short : c.utf8Size = 1) : Char.ofNat c.val.toUInt8.toNat = c := by
  rw [(toNat_byte short).1, Char.ofNat_toNat]

section OneByte

variable {text : List Char} (short : ∀ c ∈ text, c.utf8Size = 1)

include short

theorem utf8_of_short : text.flatMap String.utf8EncodeChar = text.map fun c => c.val.toUInt8 := by
  rw [List.flatMap_def, List.map_congr_left fun c member => String.utf8EncodeChar_eq_singleton (short c member),
    ← List.flatMap_def, ← List.map_eq_flatMap]

theorem foldlM_step_short (characters : List Char) (index : Nat) :
    (text.map fun c => c.val.toUInt8).foldlM Decoding.step ⟨characters, index, none⟩ =
      .ok ⟨text.reverse ++ characters, index + text.length, none⟩ := by
  induction text generalizing characters index with
  | nil => rfl
  | cons c rest ih =>
    have oneByte := short c List.mem_cons_self
    have below : c.val.toUInt8 < 0x80 := UInt8.lt_iff_toNat_lt.mpr (toNat_byte oneByte).2
    have steps : Decoding.step ⟨characters, index, none⟩ c.val.toUInt8 =
        .ok ⟨c :: characters, index + 1, none⟩ := by
      rw [Decoding.step, if_pos below, ofNat_byte oneByte]
    have later := ih (fun other member => short other (List.mem_cons_of_mem _ member)) (c :: characters)
      (index + 1)
    rw [List.map_cons, List.foldlM_cons, steps]
    simpa [bind, Except.bind, Nat.add_comm, Nat.add_left_comm] using later

/-- Bytes below 128 are decoded one by one. -/
theorem decode_of_short : decode (text.map fun c => c.val.toUInt8) = .ok text := by
  rw [decode, foldlM_step_short short [] 0]
  simp [bind, Except.bind]

theorem notMem_bytes {c : Char} (absent : c ∉ text) (shortHere : c.utf8Size = 1) :
    c.val.toUInt8 ∉ text.map fun c => c.val.toUInt8 := by
  intro member
  obtain ⟨other, isThere, same⟩ := List.mem_map.mp member
  have alike : other = c := by rw [← ofNat_byte (short other isThere), same, ofNat_byte shortHere]
  exact absent (alike ▸ isThere)

/-- An input of one ended line. -/
theorem inputLines_of_short (noFeed : '\n' ∉ text) (noReturn : '\r' ∉ text) :
    inputLines (String.ofList (text ++ ['\n'])).toUTF8.data.toList = [.ok text] := by
  have bytes : (String.ofList (text ++ ['\n'])).toUTF8.data.toList =
      (text.map fun c => c.val.toUInt8) ++ [LineMarks.bytes.lineFeed] := by
    rw [toUTF8_bytes, String.toList_ofList, List.flatMap_append, utf8_of_short short]
    rfl
  have feed : LineMarks.bytes.lineFeed ∉ text.map fun c => c.val.toUInt8 := notMem_bytes short noFeed rfl
  have carriageReturn : LineMarks.bytes.carriageReturn ∉ text.map fun c => c.val.toUInt8 :=
    notMem_bytes short noReturn rfl
  have nothing : LineMarks.bytes.lines [] = [] := rfl
  rw [inputLines, bytes, LineMarks.bytes.lines_append_ended feed,
    LineMarks.withoutReturn_of_notMem _ carriageReturn, nothing, List.map_singleton, decode_of_short short]

end OneByte

end PacketReplay.Text
