import PacketReplay.Program.Report
import PacketReplay.Proofs.Json.Fields
import PacketReplay.Proofs.Program.JumpLine

/-!
# Precedence of settings

A setting comes from the command line, else from the settings file, else it has its standard value. The file
is checked before anything is put on top of it, and the result is checked again, so that neither part can
make up for the other.
-/
namespace PacketReplay

open Json Binary64

/-! ### What a file says -/

/-- The settings that a file names. -/
structure Declared where
  mergeEpsilon : Option Float
  autoplayScale : Option Float
  seriesKeys : Option (List String)

/-- What is not named has its standard value. -/
def Declared.completed (declared : Declared) : Settings where
  mergeEpsilon := declared.mergeEpsilon.getD Settings.standard.mergeEpsilon
  autoplayScale := declared.autoplayScale.getD Settings.standard.autoplayScale
  seriesKeys := declared.seriesKeys.getD Settings.standard.seriesKeys

/-- What is found is read, if anything is found. -/
def ReadsAs {α : Type} (read : Value → Option α) (found : Option Value) (result : Option α) : Prop :=
  found.map read = result.map some

/-- An object names its fields in any order, each at most once, among fields of other names; an array gives the
first of them in their order. -/
inductive Declares : Value → Declared → Prop where
  | object {fields : List (Content × Value)} {epsilon scale keys : Option Value} {declared : Declared}
      (named : ∀ field ∈ fields, field.1 ≠ none)
      (hasEpsilon : Value.Occurs fields "merge_epsilon" epsilon)
      (hasScale : Value.Occurs fields "autoplay_scale" scale)
      (hasKeys : Value.Occurs fields "series_keys" keys)
      (readsEpsilon : ReadsAs Value.float? epsilon declared.mergeEpsilon)
      (readsScale : ReadsAs Value.float? scale declared.autoplayScale)
      (readsKeys : ReadsAs (Value.listOf? Value.text?) keys declared.seriesKeys) :
      Declares (.object fields) declared
  | array {items : List Value} {declared : Declared}
      (few : items.length ≤ 3)
      (readsEpsilon : ReadsAs Value.float? items[0]? declared.mergeEpsilon)
      (readsScale : ReadsAs Value.float? items[1]? declared.autoplayScale)
      (readsKeys : ReadsAs (Value.listOf? Value.text?) items[2]? declared.seriesKeys) :
      Declares (.array items) declared

/-- The names of the settings in a file. -/
def Settings.names : List String := ["merge_epsilon", "autoplay_scale", "series_keys"]

theorem orElse?_eq_some_iff {α : Type} {read : Value → Option α} {default result : α} {found : Option Value} :
    Value.orElse? read default found = some result ↔
      ∃ given, ReadsAs read found given ∧ given.getD default = result := by
  cases found with
  | none => simp [Value.orElse?, ReadsAs]
  | some value =>
    constructor
    · intro reads
      exact ⟨some result, congrArg some reads, rfl⟩
    · rintro ⟨given, reads, rfl⟩
      cases given with
      | none => cases reads
      | some given => exact Option.some.inj reads

theorem record?_object_iff {fields : List (Content × Value)} {epsilon scale keys : Option Value} :
    Value.record? Settings.names (.object fields) = some [epsilon, scale, keys] ↔
      (∀ field ∈ fields, field.1 ≠ none) ∧ Value.Occurs fields "merge_epsilon" epsilon ∧
        Value.Occurs fields "autoplay_scale" scale ∧ Value.Occurs fields "series_keys" keys := by
  have named : (fields.all fun field => field.1.isSome) = true ↔ ∀ field ∈ fields, field.1 ≠ none := by
    simp [List.all_eq_true, Option.isSome_iff_ne_none]
  rw [← named, ← Value.field?_eq_some_iff, ← Value.field?_eq_some_iff, ← Value.field?_eq_some_iff]
  simp only [Value.record?, Settings.names]
  -- A name that cannot be read spoils the record, whichever field has it.
  cases fields.all fun field => field.1.isSome with
  | false => simp
  | true =>
    simp only [↓reduceIte, List.mapM_cons, List.mapM_nil, true_and]
    cases Value.field? fields "merge_epsilon" <;> cases Value.field? fields "autoplay_scale" <;>
      cases Value.field? fields "series_keys" <;> simp

theorem record?_array_iff {items : List Value} {epsilon scale keys : Option Value} :
    Value.record? Settings.names (.array items) = some [epsilon, scale, keys] ↔
      items.length ≤ 3 ∧ items[0]? = epsilon ∧ items[1]? = scale ∧ items[2]? = keys := by
  simp only [Value.record?, Settings.names, List.length_cons, List.length_nil]
  rcases items with _ | ⟨first, _ | ⟨second, _ | ⟨third, _ | ⟨fourth, rest⟩⟩⟩⟩ <;> simp

/-- The declared settings are those of the record of the three names. -/
theorem declares_iff {value : Value} {declared : Declared} : Declares value declared ↔
    ∃ epsilon scale keys, value.record? Settings.names = some [epsilon, scale, keys] ∧
      ReadsAs Value.float? epsilon declared.mergeEpsilon ∧ ReadsAs Value.float? scale declared.autoplayScale ∧
      ReadsAs (Value.listOf? Value.text?) keys declared.seriesKeys := by
  constructor
  · rintro (⟨named, hasEpsilon, hasScale, hasKeys, reads⟩ | ⟨few, reads⟩)
    · exact ⟨_, _, _, record?_object_iff.mpr ⟨named, hasEpsilon, hasScale, hasKeys⟩, reads, ‹_›, ‹_›⟩
    · exact ⟨_, _, _, record?_array_iff.mpr ⟨few, rfl, rfl, rfl⟩, reads, ‹_›, ‹_›⟩
  · rintro ⟨epsilon, scale, keys, record, readsEpsilon, readsScale, readsKeys⟩
    cases value with
    | object fields =>
      obtain ⟨named, hasEpsilon, hasScale, hasKeys⟩ := record?_object_iff.mp record
      exact .object named hasEpsilon hasScale hasKeys readsEpsilon readsScale readsKeys
    | array items =>
      obtain ⟨few, rfl, rfl, rfl⟩ := record?_array_iff.mp record
      exact .array few readsEpsilon readsScale readsKeys
    | _ => cases record

theorem Settings.ofJson?_eq_some_iff {value : Value} {settings : Settings} :
    Settings.ofJson? value = some settings ↔ ∃ declared, Declares value declared ∧ declared.completed = settings := by
  -- A field is read by itself, so a record is read where all three are.
  have opened : Settings.ofJson? value = some settings ↔ ∃ epsilon scale keys,
      value.record? Settings.names = some [epsilon, scale, keys] ∧
      Value.orElse? Value.float? standard.mergeEpsilon epsilon = some settings.mergeEpsilon ∧
      Value.orElse? Value.float? standard.autoplayScale scale = some settings.autoplayScale ∧
      Value.orElse? (Value.listOf? Value.text?) standard.seriesKeys keys = some settings.seriesKeys := by
    obtain ⟨mergeEpsilon, autoplayScale, seriesKeys⟩ := settings
    constructor
    · intro reads
      obtain ⟨found, record, reads⟩ := Option.bind_eq_some_iff.mp reads
      split at reads
      next epsilon scale keys =>
        obtain ⟨isEpsilon, epsilonReads, reads⟩ := Option.bind_eq_some_iff.mp reads
        obtain ⟨isScale, scaleReads, reads⟩ := Option.bind_eq_some_iff.mp reads
        obtain ⟨isKeys, keysRead, reads⟩ := Option.bind_eq_some_iff.mp reads
        cases reads
        exact ⟨epsilon, scale, keys, record, epsilonReads, scaleReads, keysRead⟩
      next => cases reads
    · rintro ⟨epsilon, scale, keys, record, isEpsilon, isScale, isKeys⟩
      rw [Settings.names] at record
      simp [Settings.ofJson?, record, isEpsilon, isScale, isKeys]
  rw [opened]
  simp only [orElse?_eq_some_iff, declares_iff]
  constructor
  · rintro ⟨epsilon, scale, keys, record, ⟨givenEpsilon, readsEpsilon, isEpsilon⟩, ⟨givenScale, readsScale, isScale⟩,
      givenKeys, readsKeys, isKeys⟩
    refine ⟨⟨givenEpsilon, givenScale, givenKeys⟩,
      ⟨epsilon, scale, keys, record, readsEpsilon, readsScale, readsKeys⟩, ?_⟩
    rw [Declared.completed, isEpsilon, isScale, isKeys]
  · rintro ⟨declared, ⟨epsilon, scale, keys, record, readsEpsilon, readsScale, readsKeys⟩, rfl⟩
    exact ⟨epsilon, scale, keys, record, ⟨_, readsEpsilon, rfl⟩, ⟨_, readsScale, rfl⟩, _, readsKeys, rfl⟩

theorem Settings.parse?_eq_some_iff {text : String} {settings : Settings} :
    Settings.parse? text = some settings ↔
      ∃ value declared, Json.parse? text.toList = some value ∧ Declares value declared ∧
        declared.completed = settings := by
  rw [Settings.parse?_eq, Option.bind_eq_some_iff]
  simp only [ofJson?_eq_some_iff, exists_and_left]

/-! ### Precedence -/

/-- What the settings file of a program declares: nothing if there is none. -/
def FileDeclares : Option FileText → Declared → Prop
  | none, declared => declared = ⟨none, none, none⟩
  | some file, declared =>
    ∃ text value, file.text = .ok text ∧ Json.parse? text.toList = some value ∧ Declares value declared

/-- Each setting by itself: from the command line, else from the file, else the standard one. Keys come from
the command line if there are any, and from the file if it has a list, be it empty. -/
def Settings.chosen (overrides : Overrides) (declared : Declared) : Settings where
  mergeEpsilon := (overrides.mergeEpsilon.or declared.mergeEpsilon).getD standard.mergeEpsilon
  autoplayScale := (overrides.autoplayScale.or declared.autoplayScale).getD standard.autoplayScale
  seriesKeys :=
    if overrides.seriesKeys ≠ [] then overrides.seriesKeys else declared.seriesKeys.getD standard.seriesKeys

theorem Declared.replace_completed (overrides : Overrides) (declared : Declared) :
    declared.completed.replace overrides = .chosen overrides declared := by
  obtain ⟨epsilon, scale, keys⟩ := overrides
  unfold Settings.replace Settings.chosen Declared.completed
  congr 1
  · cases epsilon <;> rfl
  · cases scale <;> rfl
  · cases keys <;> simp

theorem Settings.ofFile_eq_ok_iff {file : FileText} {base : Settings} : Settings.ofFile file = .ok base ↔
    ∃ declared, FileDeclares (some file) declared ∧ declared.completed = base ∧ base.Valid := by
  have opened : Settings.ofFile file = .ok base ↔
      ∃ text, file.text = .ok text ∧ Settings.parse? text = some base ∧ base.Valid := by
    unfold Settings.ofFile
    cases file.text with
    | error cause => simp [Except.mapError, bind, Except.bind]
    | ok text =>
      simp only [Except.mapError, bind, Except.bind, Except.ok.injEq, exists_eq_left']
      rw [Settings.parse?]
      cases Settings.read text with
      | error cause => simp [Except.toOption]
      | ok settings =>
        change settings.validated.mapError SettingsError.invalid = .ok base ↔ some settings = some base ∧ _
        rw [mapError_eq_ok_iff, validated_eq_ok_iff, Option.some.injEq]
  rw [opened]
  simp only [parse?_eq_some_iff, FileDeclares]
  constructor
  · rintro ⟨text, read, ⟨value, declared, isJson, declares, completed⟩, valid⟩
    exact ⟨declared, ⟨text, value, read, isJson, declares⟩, completed, valid⟩
  · rintro ⟨declared, ⟨text, value, read, isJson, declares⟩, completed, valid⟩
    exact ⟨text, read, ⟨value, declared, isJson, declares, completed⟩, valid⟩

/-- The settings of a program. -/
theorem Settings.effective_eq_ok_iff {file : Option FileText} {overrides : Overrides} {settings : Settings} :
    Settings.effective file overrides = .ok settings ↔
      ∃ declared, FileDeclares file declared ∧ declared.completed.Valid ∧
        (chosen overrides declared).Valid ∧ settings = chosen overrides declared := by
  have base : Settings.effective file overrides = .ok settings ↔
      ∃ declared, FileDeclares file declared ∧ declared.completed.Valid ∧
        declared.completed.override overrides = .ok settings := by
    rw [effective_eq_ok_iff_override]
    cases file with
    | none =>
      simp only [Base, FileDeclares, exists_eq_left]
      exact ⟨fun overridden => ⟨valid_standard, overridden⟩, And.right⟩
    | some file =>
      simp only [Base, ofFile_eq_ok_iff]
      constructor
      · rintro ⟨_, ⟨declared, declares, rfl, valid⟩, overridden⟩
        exact ⟨declared, declares, valid, overridden⟩
      · rintro ⟨declared, declares, valid, overridden⟩
        exact ⟨_, ⟨declared, declares, rfl, valid⟩, overridden⟩
  rw [base]
  -- Completing first and replacing then is choosing from three sources at once.
  simp only [override, Declared.replace_completed, validated_eq_ok_iff]
  constructor
  · rintro ⟨declared, declares, valid, rfl, chosenValid⟩
    exact ⟨declared, declares, valid, chosenValid, rfl⟩
  · rintro ⟨declared, declares, valid, chosenValid, rfl⟩
    exact ⟨declared, declares, valid, rfl, chosenValid⟩

/-! ### Settings as text -/

/-- A number of valid settings is read back as one. -/
theorem exists_reread_amount {value : Float} (amount : value.isFinite = true ∧ ¬value < 0.0) :
    ∃ read, rereadNumber? value = some read ∧ read.isFinite = true ∧ ¬read < 0.0 := by
  obtain ⟨finite, nonneg⟩ := isAmount_iff_units.mp (isAmount_iff.mpr amount)
  obtain ⟨read, reading, isFinite, signed⟩ := exists_rereadNumber? finite
  exact ⟨read, reading, isAmount_iff.mp (isAmount_iff_units.mpr ⟨isFinite, signed nonneg⟩)⟩

/-- Valid settings are read back. Their numbers are what the number reader makes of their texts. -/
theorem Settings.parse?_toJson {settings : Settings} (valid : settings.Valid) {text : String}
    (printed : text = settings.toJson.compact ∨ text = settings.toJson.pretty) :
    ∃ reread : Settings, Settings.parse? text = some reread ∧ reread.Valid ∧
      rereadNumber? settings.mergeEpsilon = some reread.mergeEpsilon ∧
      rereadNumber? settings.autoplayScale = some reread.autoplayScale ∧ reread.seriesKeys = settings.seriesKeys := by
  obtain ⟨epsilon, readsEpsilon, validEpsilon⟩ := exists_reread_amount valid.mergeEpsilon
  obtain ⟨scale, readsScale, validScale⟩ := exists_reread_amount valid.autoplayScale
  have isJson : Json.parse? text.toList = some settings.toJson := by
    rcases printed with rfl | rfl
    · exact parse?_compact settings.toJson
    · exact parse?_pretty settings.toJson
  have record : settings.toJson.record? names = some [some (.float settings.mergeEpsilon),
      some (.float settings.autoplayScale), some (.array (settings.seriesKeys.map Value.text))] := by
    simp [toJson, names, Value.record?, Value.field?, Value.field]
  have keys : Value.listOf? Value.text? (.array (settings.seriesKeys.map Value.text)) = some settings.seriesKeys :=
    Value.listOf?_map_of_eq Value.text?_text settings.seriesKeys
  have declares : Declares settings.toJson ⟨some epsilon, some scale, some settings.seriesKeys⟩ := by
    refine declares_iff.mpr ⟨_, _, _, record, ?_, ?_, ?_⟩
    · exact congrArg some ((Value.float?_float _).trans readsEpsilon)
    · exact congrArg some ((Value.float?_float _).trans readsScale)
    · exact congrArg some keys
  exact ⟨_, parse?_eq_some_iff.mpr ⟨_, _, isJson, declares, rfl⟩, ⟨validEpsilon, validScale, valid.seriesKeys⟩,
    readsEpsilon, readsScale, rfl⟩

/-! ### Where settings go -/

/-- Loading a timeline shows its first frame and leaves the pace and the tolerance as they are. -/
theorem Session.kept_open {started session : Session} {timeline : Timeline}
    (opened : started.open timeline = .ok session) :
    session.playhead = some (.start timeline) ∧ session.scale = started.scale ∧
      session.epsilon = started.epsilon := by
  rcases started.pause.move_cases (.start timeline) (.start timeline) (Playhead.start timeline).replay with
    ⟨playing, host, moved⟩ | ⟨refusal, playing, host, moved⟩
  · simp only [Session.open, Player.load, moved, Except.map] at opened
    cases opened
    exact ⟨rfl, rfl, rfl⟩
  · simp only [Session.open, Player.load, moved, Except.map] at opened
    cases opened

/-- The amounts of valid settings reach the player as they are. -/
theorem Session.start_of_valid {settings : Settings} (valid : settings.Valid) :
    (Session.start settings).scale = settings.autoplayScale ∧
      (Session.start settings).epsilon = settings.mergeEpsilon :=
  ⟨if_pos (isAmount_iff.mpr valid.autoplayScale), if_pos (isAmount_iff.mpr valid.mergeEpsilon)⟩

/-- The timeline of a report, which looks for no series if it shall have none. -/
theorem ReportOptions.timeline_eq_ok_iff {options : ReportOptions} {contents : Contents} {timeline : Timeline} :
    options.timeline contents = .ok timeline ↔ ∃ settings text,
      Settings.effective contents.settings options.capture.overrides = .ok settings ∧
      contents.log.text = .ok text ∧
      Timeline.ofText { settings with seriesKeys := if options.noSeries then [] else settings.seriesKeys } text =
        .ok timeline := by
  have opened : options.timeline contents = .ok timeline ↔ ∃ settings,
      options.capture.settings contents = .ok settings ∧
      contents.timeline { settings with seriesKeys := if options.noSeries then [] else settings.seriesKeys } =
        .ok timeline := by
    unfold ReportOptions.timeline ReportOptions.settings
    cases options.capture.settings contents <;> cases options.noSeries <;>
      simp [bind, Except.bind, pure, Except.pure]
  rw [opened]
  simp only [CaptureOptions.settings_eq_ok_iff, Contents.timeline_eq_ok_iff, exists_and_left]

/-- A replay starts whenever it has a timeline. -/
theorem CaptureOptions.session_eq_ok_iff {options : CaptureOptions} {contents : Contents} {session : Session} :
    options.session contents = .ok session ↔ ∃ settings text timeline,
      Settings.effective contents.settings options.overrides = .ok settings ∧
      contents.log.text = .ok text ∧ Timeline.ofText settings text = .ok timeline ∧
      (Session.start settings).open timeline = .ok session := by
  have opened : options.session contents = .ok session ↔ ∃ settings timeline,
      options.settings contents = .ok settings ∧ contents.timeline settings = .ok timeline ∧
      (Session.start settings).open timeline = .ok session := by
    unfold CaptureOptions.session
    cases options.settings contents with
    | error failure => simp [bind, Except.bind]
    | ok settings =>
      cases made : contents.timeline settings <;> simp [bind, Except.bind, made, mapError_eq_ok_iff]
  rw [opened]
  simp only [CaptureOptions.settings_eq_ok_iff, Contents.timeline_eq_ok_iff]
  constructor
  · rintro ⟨settings, timeline, effective, ⟨text, read, made⟩, started⟩
    exact ⟨settings, text, timeline, effective, read, made, started⟩
  · rintro ⟨settings, text, timeline, effective, read, made, started⟩
    exact ⟨settings, timeline, effective, ⟨text, read, made⟩, started⟩

/-- A replay shows the first frame of the capture at the pace and with the tolerance of its settings. -/
theorem CaptureOptions.session_keeps {options : CaptureOptions} {contents : Contents} {session : Session}
    (started : options.session contents = .ok session) : ∃ settings text timeline,
      Settings.effective contents.settings options.overrides = .ok settings ∧
      contents.log.text = .ok text ∧ Timeline.ofText settings text = .ok timeline ∧
      session.playhead = some (.start timeline) ∧ session.scale = settings.autoplayScale ∧
      session.epsilon = settings.mergeEpsilon := by
  obtain ⟨settings, text, timeline, effective, read, made, opened⟩ := session_eq_ok_iff.mp started
  obtain ⟨shown, keptScale, keptEpsilon⟩ := Session.kept_open opened
  obtain ⟨_, _, _, valid, rfl⟩ := Settings.effective_eq_ok_iff.mp effective
  obtain ⟨scale, epsilon⟩ := Session.start_of_valid valid
  exact ⟨_, text, timeline, effective, read, made, shown, keptScale.trans scale, keptEpsilon.trans epsilon⟩

/-! ### The settings of a program -/

/-- For every settings file and every command line: a program has settings if and only if there is a file to
read, or none is asked for, and the settings are valid both without and with those of the command line. Each
is then the one of the command line, else of the file, else the standard one, whatever else stands in the
file and in whichever order. They stay as they are when nothing more is put on top of them, are read back from
their text up to its numbers, and are the ones that a report and a replay go by. -/
theorem Settings.effective_by_precedence (file : Option FileText) (overrides : Overrides) :
    (∀ settings, effective file overrides = .ok settings ↔
      ∃ declared, FileDeclares file declared ∧ declared.completed.Valid ∧
        (chosen overrides declared).Valid ∧ settings = chosen overrides declared) ∧
    (∀ path text plain fields own others, Json.parse? text.toList = some (.object fields) →
      Json.parse? plain.toList = some (.object own) → fields.Perm (own ++ others) →
      Value.Others names others →
      effective (some ⟨path, .ok text⟩) overrides = effective (some ⟨path, .ok plain⟩) overrides) ∧
    (∀ settings, effective file overrides = .ok settings →
      settings.Valid ∧ settings.override .none = .ok settings) ∧
    (∀ settings : Settings, settings.Valid → ∀ text ∈ [settings.toJson.compact, settings.toJson.pretty],
      ∃ reread : Settings, Settings.parse? text = some reread ∧ reread.Valid ∧
        rereadNumber? settings.mergeEpsilon = some reread.mergeEpsilon ∧
        rereadNumber? settings.autoplayScale = some reread.autoplayScale ∧
        reread.seriesKeys = settings.seriesKeys) ∧
    (∀ (options : ReportOptions) contents timeline, options.timeline contents = .ok timeline ↔
      ∃ settings text, effective contents.settings options.capture.overrides = .ok settings ∧
        contents.log.text = .ok text ∧
        Timeline.ofText { settings with seriesKeys := if options.noSeries then [] else settings.seriesKeys } text =
          .ok timeline) ∧
    (∀ (options : CaptureOptions) contents session, options.session contents = .ok session →
      ∃ settings text timeline, effective contents.settings options.overrides = .ok settings ∧
        contents.log.text = .ok text ∧ Timeline.ofText settings text = .ok timeline ∧
        session.playhead = some (.start timeline) ∧ session.scale = settings.autoplayScale ∧
        session.epsilon = settings.mergeEpsilon) ∧
    (∀ (options : CaptureOptions) contents settings text timeline,
      effective contents.settings options.overrides = .ok settings → contents.log.text = .ok text →
      Timeline.ofText settings text = .ok timeline → ∃ session, options.session contents = .ok session) := by
  refine ⟨fun settings => effective_eq_ok_iff, ?order, ?valid, ?printed,
    fun options contents timeline => ReportOptions.timeline_eq_ok_iff,
    fun options contents session => CaptureOptions.session_keeps, ?replay⟩
  case order =>
    intro path text plain fields own others isJson isPlain perm other
    -- The two texts give one record, and nothing else of them is read.
    have same : Settings.read text = Settings.read plain := by
      have alike : ofJson? (.object fields) = ofJson? (.object own) := by
        rw [ofJson?, ofJson?]
        exact congrArg (· >>= _) (Value.record?_perm names other perm)
      simp only [Settings.read, isJson, isPlain, alike]
    simp only [effective, ofFile, Except.mapError, bind, Except.bind, same]
  case valid =>
    intro settings isEffective
    obtain ⟨declared, _, _, valid, rfl⟩ := effective_eq_ok_iff.mp isEffective
    exact ⟨valid, validated_eq_ok_iff.mpr ⟨rfl, valid⟩⟩
  case printed =>
    intro settings valid text printed
    exact parse?_toJson valid (by simpa using printed)
  case replay =>
    intro options contents settings text timeline isEffective read made
    obtain ⟨session, started, _⟩ :=
      CaptureOptions.session_at (CaptureOptions.settings_eq_ok_iff.mpr isEffective) read made
    exact ⟨session, started⟩

/-- An empty list of keys stands in a file, but not on a command line. -/
example : Settings.effective
      (some ⟨"viz.json", .ok "\x7b\"theme\": 1, \"series_keys\": [], \"merge_epsilon\": 2\x7d"⟩)
      ⟨some 0.5, none, []⟩ =
    .ok ⟨0.5, 1000.0, []⟩ := by decide +kernel

/-- The command line does not make up for an invalid file. -/
example : Settings.effective (some ⟨"viz.json", .ok "\x7b\"merge_epsilon\": -1\x7d"⟩) ⟨some 0.5, none, []⟩ =
    .error (.invalid (.mergeEpsilon (-1.0))) := by decide +kernel

end PacketReplay
