import PacketReplay.Decimal.Reading
import PacketReplay.Settings.Basic

/-!
# Command lines

A command line consists of options `--name`, `--name value` and `--name=value`. A value that starts with a
dash must be joined by `=`, unless it is a dash alone. An option may be repeated only where it says so.
There is nothing beside options; a final `--` is allowed. A command line that breaks a rule is refused as a
whole. The only short option is `-h`, which asks for the help like `--help`. What stands behind it is not read,
and nothing is missing before it, but what does stand before it has to keep the rules.
-/
namespace PacketReplay

/-- How an option is used. -/
inductive Usage where
  | flag
  | once
  | repeatable
  /-- A flag that ends the command line. -/
  | help
  deriving DecidableEq, Repr

/-- The options of a program, by name. -/
abbrev OptionTable := List (String × Usage)

/-- The options of a command line, in order; a flag has no value. -/
abbrev GivenOptions := List (String × Option String)

/-- The name of an option, and the value joined to it. -/
def splitOption (body : List Char) : String × Option String :=
  match body.dropWhile (· ≠ '=') with
  | [] => (String.ofList body, none)
  | _ :: value => (String.ofList (body.takeWhile (· ≠ '=')), some (String.ofList value))

/-- Whether an argument can be the value of the option before it. -/
def isSeparateValue (argument : String) : Bool :=
  argument.toList.head? ≠ some '-' || argument = "-"

def scanOptions? (table : OptionTable) : List String → Option GivenOptions
  | [] => some []
  | argument :: rest =>
    match argument.toList with
    -- After a bare double dash nothing is an option any more, so nothing may follow.
    | '-' :: '-' :: [] => if rest.isEmpty then some [] else none
    | '-' :: '-' :: body =>
      let (name, joined) := splitOption body
      match table.lookup name, joined, rest with
      | some .help, none, _ => some [(name, none)]
      | some .flag, none, rest => (scanOptions? table rest).map ((name, none) :: ·)
      | some .once, some value, rest | some .repeatable, some value, rest =>
        (scanOptions? table rest).map ((name, some value) :: ·)
      | some .once, none, value :: rest | some .repeatable, none, value :: rest =>
        if isSeparateValue value then (scanOptions? table rest).map ((name, some value) :: ·) else none
      | _, _, _ => none
    | '-' :: 'h' :: _ => if table.lookup "help" = some .help then some [("help", none)] else none
    | _ => none

/-- Whether no option is repeated that must not be. -/
def keepsUsage (table : OptionTable) (given : GivenOptions) : Bool :=
  table.all fun (name, usage) =>
    usage = .repeatable || decide ((given.filter fun option => option.1 = name).length ≤ 1)

/-- The options of a command line, if it keeps the rules. -/
def readOptions? (table : OptionTable) (arguments : List String) : Option GivenOptions := do
  let given ← scanOptions? table arguments
  if keepsUsage table given then some given else none

namespace GivenOptions

def has (given : GivenOptions) (name : String) : Bool := given.any fun option => option.1 = name

def values (given : GivenOptions) (name : String) : List String :=
  given.filterMap fun option => if option.1 = name then option.2 else none

/-- A path that may be missing but not empty. -/
def path? (given : GivenOptions) (name : String) : Option (Option String) :=
  match given.values name with
  | [] => some none
  | path :: _ => if path.isEmpty then none else some (some path)

/-- A number that may be missing. -/
def number? (given : GivenOptions) (name : String) : Option (Option Float) :=
  match given.values name with
  | [] => some none
  | text :: _ => (Decimal.readFloat? text.toList).map some

end GivenOptions

/-- What both programs are asked for: a capture and the settings to read it with. -/
structure CaptureOptions where
  log : String
  config : Option String
  overrides : Overrides
  deriving DecidableEq, Repr

structure ReportOptions where
  capture : CaptureOptions
  /-- Read no series, whatever the settings. -/
  noSeries : Bool
  /-- Where the timeline is written. -/
  json : Option String
  /-- Print the summary even if the timeline is written. -/
  summary : Bool
  deriving DecidableEq, Repr

/-- What a command line asks for: the help, or that the program runs. -/
inductive Request (α : Type) where
  | help
  | run (options : α)
  deriving DecidableEq, Repr

def Request.map {α β : Type} (f : α → β) : Request α → Request β
  | help => help
  | run options => run (f options)

def captureTable : OptionTable :=
  [("log", .once), ("config", .once), ("epsilon", .once), ("series", .repeatable), ("help", .help)]

def reportTable : OptionTable :=
  captureTable ++ [("no-series", .flag), ("json", .once), ("summary", .flag)]

def replayTable : OptionTable := captureTable ++ [("scale", .once)]

/-- The options for the capture, if all values can be read; none if no capture is given. -/
def CaptureOptions.ofGiven? (given : GivenOptions) : Option (Option CaptureOptions) := do
  let log ← given.path? "log"
  let config ← given.path? "config"
  let overrides : Overrides := ⟨← given.number? "epsilon", ← given.number? "scale", given.values "series"⟩
  return log.map fun log => ⟨log, config, overrides⟩

/-- What is asked of a report. No series and some series cannot be asked for together. -/
def ReportOptions.ofArguments? (arguments : List String) : Option (Request ReportOptions) := do
  let given ← readOptions? reportTable arguments
  let capture ← CaptureOptions.ofGiven? given
  let json ← given.path? "json"
  if given.has "help" then return .help
  else if given.has "no-series" && given.has "series" then none
  else return .run ⟨← capture, given.has "no-series", json, given.has "summary"⟩

/-- What is asked of a replay. -/
def CaptureOptions.ofArguments? (arguments : List String) : Option (Request CaptureOptions) := do
  let given ← readOptions? replayTable arguments
  let capture ← CaptureOptions.ofGiven? given
  if given.has "help" then return .help
  else return .run (← capture)

end PacketReplay
