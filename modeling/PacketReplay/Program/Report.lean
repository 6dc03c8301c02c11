import PacketReplay.Program.Outcome
import PacketReplay.Screen.Effect
import PacketReplay.Timeline.Json
import PacketReplay.Timeline.Summary

/-!
# Reports

The report program writes the timeline of a capture as JSON, or prints its summary, or both. If the file
cannot be written, nothing is printed.
-/
namespace PacketReplay

open Text (decimalText)

/-- The summary as lines: totals, then reasons, then the last values of the series. -/
def Summary.lines (summary : Summary) : List String :=
  ("frames=" ++ decimalText summary.frames ++ " actions=" ++ decimalText summary.actions ++ " sources=" ++
    decimalText summary.sources ++ " duration_s=" ++ String.ofList (Decimal.fixedText 6 summary.duration)) ::
    summary.perReason.entries.map (fun entry => "reason " ++ entry.1 ++ " " ++ decimalText entry.2) ++
    summary.finalMetrics.entries.map fun entry => "metric " ++ entry.1 ++ " " ++ decimalText entry.2.toNat

/-- The settings of a report: with the series left out, no keys are looked for. -/
def ReportOptions.settings (options : ReportOptions) (contents : Contents) : Except Failure Settings := do
  let settings ← options.capture.settings contents
  return if options.noSeries then { settings with seriesKeys := [] } else settings

def ReportOptions.timeline (options : ReportOptions) (contents : Contents) : Except Failure Timeline := do
  contents.timeline (← options.settings contents)

/-- What is printed for a timeline. -/
def ReportOptions.printed (options : ReportOptions) (timeline : Timeline) : String :=
  if options.summary || options.json.isNone then unlines timeline.summary.lines else ""

/-- The outcome for a timeline. If the JSON is written to standard output, it comes before the summary. -/
def ReportOptions.outcome (options : ReportOptions) (target : String → Except FileError Target)
    (timeline : Timeline) : Outcome :=
  let printed := options.printed timeline
  match options.json with
  | none => ⟨.well, printed, none⟩
  | some path =>
    let json := timeline.toJson.pretty
    match target path with
    | .error cause => ⟨.failed (.output cause), "", none⟩
    | .ok .file => ⟨.well, printed, some (path, json)⟩
    | .ok .output => ⟨.well, json ++ printed, none⟩

def ReportOptions.run (options : ReportOptions) (contents : Contents)
    (target : String → Except FileError Target) : Outcome :=
  match options.timeline contents with
  | .error failure => ⟨.failed failure, "", none⟩
  | .ok timeline => options.outcome target timeline

/-- The report program. -/
def report (files : Files) (arguments : List String) (input : List UInt8) : Outcome :=
  .ofRequest (fun options : ReportOptions => options.run (options.capture.contents files input) files.target)
    (ReportOptions.ofArguments? arguments)

end PacketReplay
