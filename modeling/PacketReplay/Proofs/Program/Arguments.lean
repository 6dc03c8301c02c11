import PacketReplay.Program.Arguments

/-!
# Command lines for both programs

Each program has options of its own beside those for the capture. A command line that uses none of them means
the same to both: both refuse it, or both are asked for their help, or both read the same options for the capture
from it.
-/
namespace PacketReplay

/-- The options that only one of the programs has. -/
def ownOptions : List String := ["no-series", "json", "summary", "scale"]

/-- The name of the option that an argument gives, if it gives any. -/
def optionName? (argument : String) : Option String :=
  match argument.toList with
  | '-' :: '-' :: body => some (splitOption body).1
  | '-' :: 'h' :: _ => some "help"
  | _ => none

/-- No argument gives an option that only one of the programs has. -/
def OnlyShared (arguments : List String) : Prop :=
  ∀ argument ∈ arguments, ∀ name ∈ optionName? argument, name ∉ ownOptions

instance (arguments : List String) : Decidable (OnlyShared arguments) :=
  inferInstanceAs (Decidable (∀ argument ∈ arguments, ∀ name ∈ optionName? argument, name ∉ ownOptions))

/-! ### Scans -/

theorem optionName?_of_split {argument name : String} {body : List Char} {joined : Option String}
    (shape : argument.toList = '-' :: '-' :: body) (split : splitOption body = (name, joined)) :
    optionName? argument = some name := by
  simp only [optionName?, shape, split]

theorem optionName?_of_short {argument : String} {cluster : List Char}
    (shape : argument.toList = '-' :: 'h' :: cluster) : optionName? argument = some "help" := by
  simp only [optionName?, shape]

/-- A scan looks up no names but those that are given. -/
theorem scanOptions?_congr {one other : OptionTable} {arguments : List String}
    (agree : ∀ argument ∈ arguments, ∀ name ∈ optionName? argument, one.lookup name = other.lookup name) :
    scanOptions? one arguments = scanOptions? other arguments := by
  fun_induction scanOptions? one arguments
  case case1 | case2 | case3 | case15 => simp_all [scanOptions?]
  -- Every other argument gives an option, with a value joined to it or none, and both tables know it alike.
  case case4 shape name found split =>
    rw [agree _ List.mem_cons_self name (optionName?_of_split shape split)] at found
    simp [scanOptions?, shape, split, found]
  case case5 shape name rest found split ih | case6 shape name value rest found split ih
    | case7 shape name value rest found split ih =>
    rw [agree _ List.mem_cons_self name (optionName?_of_split shape split)] at found
    have later := ih fun argument member => agree argument (List.mem_cons_of_mem _ member)
    simp [scanOptions?, shape, split, found, later]
  case case8 shape name value rest found separate split ih
    | case10 shape name value rest found separate split ih =>
    rw [agree _ List.mem_cons_self name (optionName?_of_split shape split)] at found
    have later := ih fun argument member =>
      agree argument (List.mem_cons_of_mem _ (List.mem_cons_of_mem _ member))
    simp [scanOptions?, shape, split, found, separate, later]
  case case9 shape name value rest found notSeparate split
    | case11 shape name value rest found notSeparate split =>
    rw [agree _ List.mem_cons_self name (optionName?_of_split shape split)] at found
    simp [scanOptions?, shape, split, found, notSeparate]
  case case12 shape name joined split help flag once repeatable onceApart repeatableApart =>
    have same := agree _ List.mem_cons_self name (optionName?_of_split shape split)
    rw [same] at help flag once repeatable onceApart repeatableApart
    simp_all [scanOptions?]
  case case13 shape found | case14 shape found =>
    rw [agree _ List.mem_cons_self "help" (optionName?_of_short shape)] at found
    simp [scanOptions?, shape, found]

/-- An option is found at an argument that gives it, or among those behind the argument and any separate value. -/
theorem found_here_or_behind {table : OptionTable} {argument name : String} {value : Option String}
    {rest behind : List String} {later : GivenOptions} {option : String × Option String}
    (known : (table.lookup name).isSome) (gives : optionName? argument = some name) (within : behind ⊆ rest)
    (foundBehind : option ∈ later →
      (table.lookup option.1).isSome ∧ ∃ other ∈ behind, optionName? other = some option.1)
    (member : option ∈ (name, value) :: later) :
    (table.lookup option.1).isSome ∧ ∃ other ∈ argument :: rest, optionName? other = some option.1 := by
  rcases List.mem_cons.mp member with rfl | member
  · exact ⟨known, argument, List.mem_cons_self, gives⟩
  · obtain ⟨knownBehind, other, isOther, givesOther⟩ := foundBehind member
    exact ⟨knownBehind, other, List.mem_cons_of_mem _ (within isOther), givesOther⟩

/-- What a scan finds is an option of the table, under a name that an argument gives. -/
theorem mem_scanOptions? {table : OptionTable} {arguments : List String} {given : GivenOptions}
    (scanned : scanOptions? table arguments = some given) {option : String × Option String}
    (member : option ∈ given) :
    (table.lookup option.1).isSome ∧ ∃ argument ∈ arguments, optionName? argument = some option.1 := by
  fun_induction scanOptions? table arguments generalizing given
  case case1 | case2 =>
    cases scanned
    cases member
  case case3 | case9 | case11 | case12 | case14 | case15 => cases scanned
  -- The help is all that is found, whatever follows.
  case case4 shape name found split =>
    obtain rfl := Option.some.inj scanned
    exact found_here_or_behind (by simp [found]) (optionName?_of_split shape split) (List.nil_subset _)
      (absurd · List.not_mem_nil) member
  case case13 shape found =>
    obtain rfl := Option.some.inj scanned
    exact found_here_or_behind (by simp [found]) (optionName?_of_short shape) (List.nil_subset _)
      (absurd · List.not_mem_nil) member
  -- An option is found, and the scan goes on behind it and any separate value.
  case case5 shape name rest found split ih | case6 shape name value rest found split ih
    | case7 shape name value rest found split ih =>
    obtain ⟨later, scannedLater, rfl⟩ := Option.map_eq_some_iff.mp scanned
    exact found_here_or_behind (by simp [found]) (optionName?_of_split shape split) (List.Subset.refl _)
      (ih scannedLater) member
  case case8 shape name value rest found separate split ih
    | case10 shape name value rest found separate split ih =>
    obtain ⟨later, scannedLater, rfl⟩ := Option.map_eq_some_iff.mp scanned
    exact found_here_or_behind (by simp [found]) (optionName?_of_split shape split) (List.subset_cons_self _ _)
      (ih scannedLater) member

/-! ### Options that are not used -/

section Unused

variable {own : OptionTable} {arguments : List String}
  (unused : ∀ argument ∈ arguments, ∀ name ∈ optionName? argument, ∀ entry ∈ own, name ≠ entry.1)

include unused

theorem scanOptions?_append (table : OptionTable) :
    scanOptions? (table ++ own) arguments = scanOptions? table arguments := by
  refine scanOptions?_congr fun argument member name gives => ?_
  have unknown : own.lookup name = none := List.lookup_eq_none_iff.mpr fun entry isOwn =>
    bne_iff_ne.mpr (unused argument member name gives entry isOwn)
  rw [List.lookup_append, unknown, Option.or_none]

/-- A table may have more options, as long as no argument uses them. -/
theorem readOptions?_append (table : OptionTable) :
    readOptions? (table ++ own) arguments = readOptions? table arguments := by
  rw [readOptions?, readOptions?, scanOptions?_append unused]
  cases scanned : scanOptions? table arguments with
  | none => rfl
  | some given =>
    -- An option that is not used is not repeated.
    have kept : keepsUsage own given = true := by
      refine List.all_eq_true.mpr fun entry isOwn => ?_
      have absent : (given.filter fun option => option.1 = entry.1) = [] := by
        refine List.filter_eq_nil_iff.mpr fun option member => ?_
        obtain ⟨_, argument, isArgument, gives⟩ := mem_scanOptions? scanned member
        simpa using unused argument isArgument option.1 gives entry isOwn
      simp [absent]
    have split : keepsUsage (table ++ own) given = (keepsUsage table given && keepsUsage own given) :=
      List.all_append
    simp [split, kept]

end Unused

/-! ### Both programs -/

theorem GivenOptions.has_eq_false {given : GivenOptions} {name : String}
    (absent : ∀ option ∈ given, option.1 ≠ name) : given.has name = false := by
  simpa [GivenOptions.has] using absent

theorem GivenOptions.path?_eq_none {given : GivenOptions} {name : String}
    (absent : ∀ option ∈ given, option.1 ≠ name) : given.path? name = some none := by
  have none : given.values name = [] := by
    refine List.filterMap_eq_nil_iff.mpr fun option member => if_neg (absent option member)
  rw [GivenOptions.path?, none]

/-- A command line that uses no option of one program alone means the same to both. -/
theorem ReportOptions.ofArguments?_of_onlyShared {arguments : List String} (shared : OnlyShared arguments) :
    ReportOptions.ofArguments? arguments =
      (CaptureOptions.ofArguments? arguments).map (Request.map fun capture => ⟨capture, false, none, false⟩) := by
  have unused {own : OptionTable} (isOwn : ∀ entry ∈ own, entry.1 ∈ ownOptions) : ∀ argument ∈ arguments,
      ∀ name ∈ optionName? argument, ∀ entry ∈ own, name ≠ entry.1 := by
    rintro argument member name gives entry isEntry rfl
    exact shared argument member _ gives (isOwn entry isEntry)
  have reportRead : readOptions? reportTable arguments = readOptions? captureTable arguments :=
    readOptions?_append (unused (by decide)) captureTable
  have replayRead : readOptions? replayTable arguments = readOptions? captureTable arguments :=
    readOptions?_append (unused (by decide)) captureTable
  rw [ReportOptions.ofArguments?, CaptureOptions.ofArguments?, reportRead, replayRead]
  cases read : readOptions? captureTable arguments with
  | none => rfl
  | some given =>
    -- The table that was read with does not know these options at all.
    have absent : ∀ name ∈ ownOptions, ∀ option ∈ given, option.1 ≠ name := by
      rintro name isOwn option member rfl
      have scanned : scanOptions? captureTable arguments = some given := by
        simp only [readOptions?, Option.bind_eq_bind, Option.bind_eq_some_iff] at read
        obtain ⟨found, scanned, kept⟩ := read
        split at kept <;> simp_all
      have unknown : ∀ name ∈ ownOptions, captureTable.lookup name = none := by decide
      simpa [unknown option.1 isOwn] using (mem_scanOptions? scanned member).1
    simp only [Option.bind_eq_bind, Option.bind_some,
      GivenOptions.has_eq_false (absent "no-series" (by decide)),
      GivenOptions.has_eq_false (absent "summary" (by decide)),
      GivenOptions.path?_eq_none (absent "json" (by decide))]
    cases CaptureOptions.ofGiven? given with
    | none => rfl
    | some capture =>
      cases given.has "help"
      · cases capture <;> rfl
      · rfl

end PacketReplay
