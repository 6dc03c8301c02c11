import PacketReplay.Player.Basic
import PacketReplay.Program.Arguments
import PacketReplay.Settings.File
import PacketReplay.Text.Utf8
import PacketReplay.Timeline.OfCapture

/-!
# Outcomes of programs

A program ends well, or gives help with its command line, or refuses that, or fails with one cause after it may
have printed something. Both programs begin alike: they read the settings, then the capture, and build its timeline.
-/
namespace PacketReplay

inductive Failure where
  | settings (error : SettingsError)
  | log (path : String) (cause : FileError)
  | capture (error : CaptureError)
  | player (error : PlayerError)
  | output (cause : FileError)
  | input (fault : Text.Utf8Fault)
  deriving DecidableEq, Repr

def Failure.message : Failure → String
  | settings error => error.message
  | log path cause => "failed to read " ++ path ++ ": " ++ cause.message
  | capture error => error.message
  | player error => error.message
  | output cause => cause.message
  | input fault => fault.message

/-- The line on standard error. -/
def Failure.report (failure : Failure) : String := "error: " ++ failure.message

inductive Ended where
  | well
  /-- The help has been printed. Its wording, like that of a refusal, is not part of an outcome. -/
  | helped
  | refused
  | failed (failure : Failure)
  deriving DecidableEq, Repr

def Ended.exitCode : Ended → Nat
  | well | helped => 0
  | failed _ => 1
  | refused => 2

/-- How a program ended, what it printed, and the file it wrote. -/
structure Outcome where
  ended : Ended
  printed : String
  written : Option (String × String)
  deriving DecidableEq, Repr

def Outcome.helped : Outcome := ⟨.helped, "", none⟩

def Outcome.refused : Outcome := ⟨.refused, "", none⟩

/-- The outcome of a program that is asked for something, or is not understood. -/
def Outcome.ofRequest {α : Type} (run : α → Outcome) : Option (Request α) → Outcome
  | none => .refused
  | some .help => .helped
  | some (.run options) => run options

def unlines (lines : List String) : String := String.join (lines.map fun line => line ++ "\n")

/-! ### What programs read -/

/-- What a program has read: its settings file, if the options name one, then the capture. -/
structure Contents where
  settings : Option FileText
  log : FileText
  /-- What is left of standard input. -/
  input : List UInt8
  deriving Repr

/-- Read the files that the options name. -/
def CaptureOptions.contents (options : CaptureOptions) (files : Files) (input : List UInt8) : Contents :=
  match options.config with
  | none =>
    let (log, input) := files.text options.log input
    ⟨none, log, input⟩
  | some path =>
    let (settings, input) := files.text path input
    let (log, input) := files.text options.log input
    ⟨some settings, log, input⟩

/-- The settings that the options ask for. -/
def CaptureOptions.settings (options : CaptureOptions) (contents : Contents) : Except Failure Settings :=
  (Settings.effective contents.settings options.overrides).mapError .settings

/-- The timeline of the capture. -/
def Contents.timeline (contents : Contents) (settings : Settings) : Except Failure Timeline := do
  let text ← contents.log.text.mapError (.log contents.log.path)
  (Timeline.ofText settings text).mapError .capture

end PacketReplay
