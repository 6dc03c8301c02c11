import PacketReplay.Proofs.Json.Fields
import PacketReplay.Screen.Json

/-!
# Effects are read back

The kind of an effect may stand anywhere among its fields, and fields of other names may stand between them.
Reading gives the same effect, where the time of a readout is what the number reader makes of its text. All
the same the reader looks at everything: a field that is passed over must hold numbers it accepts, strings
that have content, and no deeper nesting than it allows.
-/
namespace PacketReplay

open Json Decimal

/-! ### What can be read -/

namespace Json.Value

mutual

/-- How many containers are nested in a value. -/
def depth : Value → ℕ
  | .array items => depthOfItems items + 1
  | .object fields => depthOfFields fields + 1
  | _ => 0

def depthOfItems : List Value → ℕ
  | [] => 0
  | item :: rest => max item.depth (depthOfItems rest)

def depthOfFields : List (Content × Value) → ℕ
  | [] => 0
  | (_, value) :: rest => max value.depth (depthOfFields rest)

end

mutual

/-- Every number in a value is in range, and every string and name in it has content. -/
def Sound : Value → Prop
  | .number numeral => numeral.accumulated? ≠ none
  | .string content => content ≠ none
  | .array items => AreSound items
  | .object fields => FieldsSound fields
  | _ => True

def AreSound : List Value → Prop
  | [] => True
  | item :: rest => item.Sound ∧ AreSound rest

def FieldsSound : List (Content × Value) → Prop
  | [] => True
  | (name, value) :: rest => (name ≠ none ∧ value.Sound) ∧ FieldsSound rest

end

mutual

/-- What can be read is what is sound and not nested too deep. -/
theorem isReadable_iff (limit : ℕ) (value : Value) :
    value.isReadable limit = true ↔ value.depth ≤ limit ∧ value.Sound := by
  cases value with
  | null | bool => simp [isReadable, depth, Sound]
  | number | string => simp [isReadable, depth, Sound, Option.isSome_iff_ne_none]
  | array items =>
    cases limit with
    | zero => simp [isReadable, depth]
    | succ inner => simp [isReadable, depth, Sound, areReadable_iff inner items]
  | object fields =>
    cases limit with
    | zero => simp [isReadable, depth]
    | succ inner => simp [isReadable, depth, Sound, fieldsReadable_iff inner fields]

theorem areReadable_iff (limit : ℕ) (items : List Value) :
    areReadable limit items = true ↔ depthOfItems items ≤ limit ∧ AreSound items := by
  cases items with
  | nil => simp [areReadable, depthOfItems, AreSound]
  | cons item rest =>
    rw [areReadable, Bool.and_eq_true, isReadable_iff limit item, areReadable_iff limit rest, depthOfItems,
      AreSound, max_le_iff]
    tauto

theorem fieldsReadable_iff (limit : ℕ) (fields : List (Content × Value)) :
    fieldsReadable limit fields = true ↔ depthOfFields fields ≤ limit ∧ FieldsSound fields := by
  cases fields with
  | nil => simp [fieldsReadable, depthOfFields, FieldsSound]
  | cons field rest =>
    obtain ⟨name, value⟩ := field
    rw [fieldsReadable, Bool.and_eq_true, Bool.and_eq_true, isReadable_iff limit value,
      fieldsReadable_iff limit rest, depthOfFields, FieldsSound, max_le_iff, Option.isSome_iff_ne_none]
    tauto

end

/-- A field that can be read in an object: its value may be nested one less deep than the object. -/
structure FieldReads (field : Content × Value) : Prop where
  named : field.1 ≠ none
  shallow : field.2.depth < depthLimit
  sound : field.2.Sound

theorem object_isReadable_iff (fields : List (Content × Value)) :
    (Value.object fields).isReadable depthLimit = true ↔ ∀ field ∈ fields, FieldReads field := by
  change fieldsReadable 126 fields = true ↔ _
  induction fields with
  | nil => simp [fieldsReadable]
  | cons field rest ih =>
    obtain ⟨name, value⟩ := field
    rw [fieldsReadable, Bool.and_eq_true, Bool.and_eq_true, isReadable_iff, ih, List.forall_mem_cons,
      Option.isSome_iff_ne_none]
    refine and_congr_left fun _ => ⟨?_, ?_⟩
    · rintro ⟨named, shallow, sound⟩
      exact ⟨named, Nat.lt_succ_of_le shallow, sound⟩
    · rintro ⟨named, shallow, sound⟩
      exact ⟨named, Nat.le_of_lt_succ shallow, sound⟩

/-- A field with a readable name. -/
theorem fieldReads_field {name : String} {value : Value} (shallow : value.depth < depthLimit)
    (sound : value.Sound) : FieldReads (field name value) :=
  ⟨Option.some_ne_none name, shallow, sound⟩

theorem sound_nat {number : ℕ} (fits : number ≤ maxWord) : (Value.nat number).Sound :=
  accumulated?_ofNat fits

theorem sound_word (word : UInt64) : (Value.word word).Sound :=
  sound_nat (Nat.le_of_lt_succ word.toNat_lt)

theorem sound_float (value : Float) : (Value.float value).depth = 0 ∧ (Value.float value).Sound := by
  unfold Value.float
  cases finite : value.isFinite with
  | true =>
    obtain ⟨numeral, read, written, reading, _⟩ := accumulated?_of_finite finite
    rw [written]
    exact ⟨rfl, by simp [Sound, reading]⟩
  | false =>
    have unwritten : Style.json.numeral? value = none := by
      rw [← Option.not_isSome_iff_eq_none, isSome_numeral?_iff, finite]
      decide
    rw [unwritten]
    exact ⟨rfl, trivial⟩

theorem sound_wordFields (entries : List (String × UInt64)) :
    depthOfFields (entries.map fun entry => field entry.1 (.word entry.2)) = 0 ∧
      FieldsSound (entries.map fun entry => field entry.1 (.word entry.2)) := by
  induction entries with
  | nil => exact ⟨rfl, trivial⟩
  | cons entry rest ih =>
    obtain ⟨shallow, sound⟩ := ih
    rw [List.map_cons, field, depthOfFields, shallow]
    exact ⟨rfl, ⟨Option.some_ne_none _, sound_word entry.2⟩, sound⟩

end Json.Value

/-! ### Reading an effect -/

/-- What an effect is read back as. The time of a readout is what the number reader makes of its text, and an
index of more than 64 bits is no index. -/
def Effect.reread? : Effect → Option Effect
  | .readout shown =>
    if shown.index ≤ maxWord then (rereadNumber? shown.t).map fun t => .readout { shown with t } else none
  | effect => some effect

theorem Effect.isSome_reread?_iff (effect : Effect) : effect.reread?.isSome = true ↔
    ∀ shown, effect = .readout shown → shown.index ≤ maxWord ∧ shown.t.isFinite = true := by
  cases effect with
  | readout shown =>
    simp only [reread?, Effect.readout.injEq, forall_eq']
    split
    next fits => simp [fits, isSome_rereadNumber?_iff]
    next tooLarge => simp [tooLarge]
  | _ => simp [reread?]

/-- The fields of an effect, with its kind. -/
def Effect.tagged (effect : Effect) : List (Content × Value) :=
  Value.field "kind" (.text effect.kind) :: effect.fields

/-- The names of the fields of an effect. -/
def Effect.names (effect : Effect) : List String := effect.tagged.filterMap Prod.fst

theorem nat?_nat (number : ℕ) : (Value.nat number).nat? = if number ≤ maxWord then some number else none := rfl

/-- The reader of a kind undoes the fields of that kind. -/
theorem Effect.ofKind?_tagged (effect : Effect) :
    Effect.ofKind? effect.kind (.object effect.tagged) = effect.reread? := by
  cases effect with
  | clear => rfl
  | addMarker id | removeMarker id =>
    simp [tagged, kind, fields, ofKind?, idOfJson?, reread?, Value.record?, Value.field?, Value.field, Value.text,
      Value.word64?_word]
  | addFlag id reason | removeFlag id reason =>
    simp [tagged, kind, fields, ofKind?, flagOfJson?, reread?, Value.record?, Value.field?, Value.field,
      Value.text, Value.text?, Value.word64?_word]
  | readout shown =>
    have record : Value.record? ["index", "t", "metrics"] (.object (Effect.readout shown).tagged) =
        some [some (.nat shown.index), some (.float shown.t), some (.wordMap shown.metrics)] := by
      simp [tagged, kind, fields, Value.record?, Value.field?, Value.field]
    have whole : Readout.ofJson? (.object (Effect.readout shown).tagged) =
        if shown.index ≤ maxWord then (rereadNumber? shown.t).map fun t => { shown with t } else none := by
      simp only [Readout.ofJson?, record, Option.bind_eq_bind, Option.bind_some, nat?_nat, Value.float?_float,
        Value.orElse?, Value.wordMap?_wordMap]
      split
      · cases rereadNumber? shown.t <;> rfl
      · rfl
    change (Readout.ofJson? (.object (Effect.readout shown).tagged)).map Effect.readout = _
    rw [whole, reread?]
    split
    · rw [Option.map_map]
      rfl
    · rfl

/-- No kind looks at the order of its fields, or at fields of other names. -/
theorem Effect.ofKind?_perm (effect : Effect) {fields others : List (Content × Value)}
    (other : Value.Others effect.names others) (perm : fields.Perm (effect.tagged ++ others)) :
    Effect.ofKind? effect.kind (.object fields) = Effect.ofKind? effect.kind (.object effect.tagged) := by
  have same (names : List String) (known : names ⊆ effect.names) :
      Value.record? names (.object fields) = Value.record? names (.object effect.tagged) :=
    Value.record?_perm names (other.mono known) perm
  cases effect with
  | clear => rfl
  | addMarker id | removeMarker id =>
    have id := same ["id"] (List.subset_cons_self "kind" ["id"])
    simp only [ofKind?, kind, idOfJson?, id]
  | addFlag id reason | removeFlag id reason =>
    have flag := same ["id", "reason"] (List.subset_cons_self "kind" ["id", "reason"])
    simp only [ofKind?, kind, flagOfJson?, flag]
  | readout shown =>
    have readout := same ["index", "t", "metrics"]
      (List.subset_cons_self "kind" ["index", "t", "metrics"])
    simp only [ofKind?, kind, Readout.ofJson?, readout]

/-- The fields of an effect can be read, unless an index is larger than any word. -/
theorem Effect.tagged_reads (effect : Effect) (fits : ∀ shown, effect = .readout shown → shown.index ≤ maxWord) :
    ∀ field ∈ effect.tagged, Value.FieldReads field := by
  have text (name content : String) : Value.FieldReads (Value.field name (.text content)) :=
    Value.fieldReads_field (show 0 < depthLimit by decide) (Option.some_ne_none content)
  have word (name : String) (word : UInt64) : Value.FieldReads (Value.field name (.word word)) :=
    Value.fieldReads_field (show 0 < depthLimit by decide) (Value.sound_word word)
  rw [tagged, List.forall_mem_cons]
  refine ⟨text _ _, ?_⟩
  cases effect with
  | clear => simp [fields]
  | addMarker id | removeMarker id => simp [fields, word]
  | addFlag id reason | removeFlag id reason => simp [fields, word, text]
  | readout shown =>
    obtain ⟨shallow, sound⟩ := Value.sound_float shown.t
    obtain ⟨flat, words⟩ := Value.sound_wordFields shown.metrics.entries
    have index : Value.FieldReads (Value.field "index" (.nat shown.index)) :=
      Value.fieldReads_field (show 0 < depthLimit by decide) (Value.sound_nat (fits shown rfl))
    have t : Value.FieldReads (Value.field "t" (.float shown.t)) :=
      Value.fieldReads_field (by rw [shallow]; decide) sound
    have metrics : Value.FieldReads (Value.field "metrics" (.wordMap shown.metrics)) :=
      Value.fieldReads_field (by rw [Value.wordMap, Value.depth, flat]; decide) words
    simp [fields, index, t, metrics]

/-- The fields of an effect in any order, with any other fields among them, are read as the effect if the
other fields can be read, and as nothing if one of them cannot. -/
theorem Effect.ofJson?_perm (effect : Effect) {fields others : List (Content × Value)}
    (other : ∀ field ∈ others, ∀ name ∈ effect.names, field.1 ≠ some name)
    (perm : fields.Perm (effect.tagged ++ others)) :
    ((∀ field ∈ others, Value.FieldReads field) → Effect.ofJson? (.object fields) = effect.reread?) ∧
      (¬(∀ field ∈ others, Value.FieldReads field) → Effect.ofJson? (.object fields) = none) := by
  have reads : (Value.object fields).isReadable depthLimit = true ↔
      (∀ field ∈ effect.tagged, Value.FieldReads field) ∧ ∀ field ∈ others, Value.FieldReads field := by
    rw [Value.object_isReadable_iff, ← List.forall_mem_append]
    exact forall_congr' fun field => by rw [perm.mem_iff]
  constructor
  · intro othersRead
    have named : Value.Others effect.names others := by
      intro field member
      obtain ⟨name, isName⟩ := Option.ne_none_iff_exists'.mp (othersRead field member).named
      exact ⟨name, isName, fun known => other field member name known isName⟩
    have kind : Value.field? fields "kind" = some (some (.text effect.kind)) := by
      rw [Value.field?_perm perm, Value.field?_append (named.absent List.mem_cons_self)]
      cases effect <;> rfl
    have opened : Effect.ofJson? (.object fields) =
        if (Value.object fields).isReadable depthLimit then effect.reread? else none := by
      rw [← effect.ofKind?_tagged, ← effect.ofKind?_perm named perm]
      simp only [Effect.ofJson?, kind, Option.bind_eq_bind, Option.bind_some, Value.text, Value.text?]
    by_cases fits : ∀ shown, effect = .readout shown → shown.index ≤ maxWord
    · rw [opened, if_pos (reads.mpr ⟨effect.tagged_reads fits, othersRead⟩)]
    · -- An index that is no word is read by nobody.
      have unread : effect.reread? = none := by
        rw [← Option.not_isSome_iff_eq_none, isSome_reread?_iff]
        exact fun all => fits fun shown same => (all shown same).1
      rw [opened, unread, ite_self]
  · intro unreadable
    have refused : ¬(Value.object fields).isReadable depthLimit = true := fun all => unreadable (reads.mp all).2
    rw [Effect.ofJson?, if_neg refused]

theorem Effect.compact_eq (effect : Effect) :
    ∃ rest, effect.toJson.compact = "\x7b\"kind\":\"" ++ effect.kind ++ "\"" ++ rest := by
  refine ⟨String.ofList (writeFields .compact 1 effect.fields ++ ['\x7d']), ?_⟩
  have tag : quote (some "kind") = "\"kind\"".toList := by decide +kernel
  have kind : quote (some effect.kind) = '"' :: effect.kind.toList ++ ['"'] := by
    cases effect <;> (dsimp only [Effect.kind]; decide +kernel)
  rw [← String.toList_inj]
  simp [Value.compact, toJson, Value.write, Value.field, Value.text, Layout.compact, tag, kind]

/-- Every effect is read back from its text, where its kind stands first: a readout if its time is finite and
its index a word, and everything else always. The fields may stand in any order, with any fields of other names
among them, as long as each of those can be read: its numbers are in range, its strings have content, and it is
not nested too deep. A field that cannot be read is refused even though no effect has it. -/
theorem Effect.json_reads_back (effect : Effect) :
    (∃ rest, effect.toJson.compact = "\x7b\"kind\":\"" ++ effect.kind ++ "\"" ++ rest) ∧
    Effect.parse? effect.toJson.compact = effect.reread? ∧
    (effect.reread?.isSome = true ↔
      ∀ shown, effect = .readout shown → shown.index ≤ maxWord ∧ shown.t.isFinite = true) ∧
    ∀ text fields others, Json.parse? text.toList = some (.object fields) →
      fields.Perm (effect.tagged ++ others) →
      (∀ field ∈ others, ∀ name ∈ effect.names, field.1 ≠ some name) →
        ((∀ field ∈ others, Value.FieldReads field) → Effect.parse? text = effect.reread?) ∧
        (¬(∀ field ∈ others, Value.FieldReads field) → Effect.parse? text = none) := by
  have object (text : String) {value : Value} (isJson : Json.parse? text.toList = some value) :
      Effect.parse? text = Effect.ofJson? value := by
    rw [Effect.parse?, isJson]
    rfl
  refine ⟨effect.compact_eq, ?_, effect.isSome_reread?_iff, ?_⟩
  · rw [object _ (parse?_compact effect.toJson)]
    have alone : effect.tagged.Perm (effect.tagged ++ []) := List.append_nil _ ▸ .refl _
    exact (effect.ofJson?_perm (by simp) alone).1 (by simp)
  · intro text fields others isJson perm other
    rw [object text isJson]
    exact effect.ofJson?_perm other perm

/-- Arrays in arrays, as many as the number says. -/
def nestedArrays : ℕ → Value
  | 0 => .null
  | count + 1 => .array [nestedArrays count]

/-- Two fields without any number that keep an effect from being read: one is nested as deep as the whole text
may be, the other escapes half of a surrogate pair. -/
theorem Effect.clear_refused_among_others :
    let deep := Value.field "x" (nestedArrays 127)
    let half := Value.field "x" (.string none)
    let text (extra : Content × Value) := (Value.object (Effect.clear.tagged ++ [extra])).compact
    Effect.clear.reread? = some .clear ∧
      (deep.2.Sound ∧ Json.parse? (text deep).toList = some (.object (Effect.clear.tagged ++ [deep])) ∧
        Effect.parse? (text deep) ≠ some .clear) ∧
      Json.parse? (text half).toList = some (.object (Effect.clear.tagged ++ [half])) ∧
        Effect.parse? (text half) ≠ some .clear := by
  have refused {fields : List (Content × Value)} (unread : Effect.ofJson? (.object fields) = none) :
      Effect.parse? (Value.object fields).compact ≠ some .clear := by
    rw [Effect.parse?, parse?_compact]
    change Effect.ofJson? (.object fields) ≠ some .clear
    rw [unread]
    exact (Option.some_ne_none _).symm
  have sound (count : ℕ) : (nestedArrays count).Sound := by
    induction count with
    | zero => trivial
    | succ count ih => exact ⟨ih, trivial⟩
  exact ⟨rfl, ⟨sound 127, parse?_compact _, refused (by decide +kernel)⟩, parse?_compact _,
    refused (by decide +kernel)⟩

end PacketReplay
