import PacketReplay.Files
import PacketReplay.Json.Fields
import PacketReplay.Json.Reader
import PacketReplay.Json.Writer
import PacketReplay.Settings.Basic

/-!
# Settings in files

A settings file is a JSON record in which any field may be missing; it then has its standard value. What a
file holds must be valid by itself.
-/
namespace PacketReplay

open Json

def Settings.toJson (settings : Settings) : Value :=
  .object [Value.field "merge_epsilon" (.float settings.mergeEpsilon),
    Value.field "autoplay_scale" (.float settings.autoplayScale),
    Value.field "series_keys" (.array (settings.seriesKeys.map .text))]

def Settings.ofJson? (value : Value) : Option Settings := do
  match ← value.record? ["merge_epsilon", "autoplay_scale", "series_keys"] with
  | [epsilon, scale, keys] =>
    return ⟨← Value.orElse? Value.float? standard.mergeEpsilon epsilon,
      ← Value.orElse? Value.float? standard.autoplayScale scale,
      ← Value.orElse? (Value.listOf? Value.text?) standard.seriesKeys keys⟩
  | _ => none

/-- Why a text gives no settings. The wording of the reader, with the place in the text, is its own matter. -/
inductive SettingsDefect where
  /-- It is no JSON. -/
  | notJson
  /-- It is JSON, but not that of settings. -/
  | notSettings
  deriving DecidableEq, Repr

def SettingsDefect.message : SettingsDefect → String
  | notJson => "not JSON"
  | notSettings => "not a settings record"

/-- The settings of a JSON text, whether they are valid or not. -/
def Settings.read (text : String) : Except SettingsDefect Settings :=
  match Json.parse? text.toList with
  | none => .error .notJson
  | some value =>
    match Settings.ofJson? value with
    | none => .error .notSettings
    | some settings => .ok settings

def Settings.parse? (text : String) : Option Settings := (Settings.read text).toOption

theorem Settings.parse?_eq (text : String) :
    Settings.parse? text = (Json.parse? text.toList).bind Settings.ofJson? := by
  unfold parse? read
  cases Json.parse? text.toList with
  | none => rfl
  | some value =>
    simp only [Option.bind_some]
    cases Settings.ofJson? value <;> rfl

/-- A settings file whose text gives no settings. -/
structure MalformedFile where
  path : String
  cause : SettingsDefect
  deriving DecidableEq, Repr

inductive SettingsError where
  | unreadable (path : String) (cause : FileError)
  | malformed (file : MalformedFile)
  | invalid (fault : SettingsFault)
  deriving DecidableEq, Repr

def SettingsError.message : SettingsError → String
  | unreadable path cause => "failed to read config " ++ path ++ ": " ++ cause.message
  | malformed file => "failed to parse config " ++ file.path ++ ": " ++ file.cause.message
  | invalid fault => "invalid config: " ++ fault.message

/-- The settings of a file. -/
def Settings.ofFile (file : FileText) : Except SettingsError Settings := do
  let text ← file.text.mapError (.unreadable file.path)
  let settings ← (Settings.read text).mapError fun cause => .malformed ⟨file.path, cause⟩
  settings.validated.mapError .invalid

/-- The settings of a file, if there is one, with others put in their place. -/
def Settings.effective (file : Option FileText) (overrides : Overrides) : Except SettingsError Settings := do
  let base ← match file with
    | some file => ofFile file
    | none => .ok standard
  (base.override overrides).mapError .invalid

end PacketReplay
