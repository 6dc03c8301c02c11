import PacketReplay.Decimal.Style
import PacketReplay.Text.Blank

/-!
# Settings

The tolerance for grouping and lookup in seconds, the pace of automatic playback in milliseconds a second
of the capture, and the keys of the series to extract. Settings are valid if both numbers are amounts and no
key is blank.
-/
namespace PacketReplay

structure Settings where
  mergeEpsilon : Float
  autoplayScale : Float
  seriesKeys : List String
  deriving DecidableEq, Repr

/-- Finite and not below zero. Negative zero is an amount. -/
def isAmount (value : Float) : Bool := value.isFinite && decide (0.0 ≤ value)

/-- What makes settings invalid. -/
inductive SettingsFault where
  | mergeEpsilon (value : Float)
  | autoplayScale (value : Float)
  | blankKey
  deriving DecidableEq, Repr

def SettingsFault.notAnAmount (name : String) (value : Float) : String :=
  name ++ " must be a finite non-negative number, got " ++ String.ofList (Decimal.plainText value)

def SettingsFault.message : SettingsFault → String
  | .mergeEpsilon value => notAnAmount "merge_epsilon" value
  | .autoplayScale value => notAnAmount "autoplay_scale" value
  | .blankKey => "series key must not be empty"

namespace Settings

/-- A microsecond, real time, and the two series of congestion control. -/
def standard : Settings := ⟨1e-6, 1000.0, ["cwnd", "bytes_in_flight"]⟩

instance : Inhabited Settings := ⟨standard⟩

/-- The first fault of settings, if they have one. -/
def fault? (settings : Settings) : Option SettingsFault :=
  if !isAmount settings.mergeEpsilon then some (.mergeEpsilon settings.mergeEpsilon)
  else if !isAmount settings.autoplayScale then some (.autoplayScale settings.autoplayScale)
  else if settings.seriesKeys.any fun key => Text.allBlank key.toList then some .blankKey
  else none

def isValid (settings : Settings) : Bool :=
  isAmount settings.mergeEpsilon && isAmount settings.autoplayScale &&
    settings.seriesKeys.all fun key => !Text.allBlank key.toList

theorem fault?_eq_none_iff (settings : Settings) :
    settings.fault? = none ↔ settings.isValid = true := by
  unfold fault? isValid
  cases isAmount settings.mergeEpsilon <;> cases isAmount settings.autoplayScale <;> simp

/-- The settings if they are valid. -/
def validated (settings : Settings) : Except SettingsFault Settings :=
  match settings.fault? with
  | some fault => .error fault
  | none => .ok settings

end Settings

/-- Settings given one by one. An empty list of keys gives none. -/
structure Overrides where
  mergeEpsilon : Option Float
  autoplayScale : Option Float
  seriesKeys : List String
  deriving DecidableEq, Repr

def Overrides.none : Overrides := ⟨.none, .none, []⟩

/-- The settings with others put in their place, whether they are valid or not. -/
def Settings.replace (settings : Settings) (overrides : Overrides) : Settings where
  mergeEpsilon := overrides.mergeEpsilon.getD settings.mergeEpsilon
  autoplayScale := overrides.autoplayScale.getD settings.autoplayScale
  seriesKeys := if overrides.seriesKeys.isEmpty then settings.seriesKeys else overrides.seriesKeys

/-- The settings with others put in their place, if the result is valid. -/
def Settings.override (settings : Settings) (overrides : Overrides) : Except SettingsFault Settings :=
  (settings.replace overrides).validated

end PacketReplay
