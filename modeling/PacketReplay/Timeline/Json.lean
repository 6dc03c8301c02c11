import PacketReplay.Json.Fields
import PacketReplay.Json.Reader
import PacketReplay.Json.Writer
import PacketReplay.Timeline.Basic

/-!
# Timelines as JSON

A timeline is written as its frames and series keys. A frame without metrics is written without the field;
when a timeline is read, missing metrics are empty, and so are missing series keys. A text with no frame is
refused.
-/
namespace PacketReplay

open Json

def Action.toJson (action : Action) : Value :=
  .object [Value.field "source_id" (.word action.source), Value.field "reason" (.text action.reason.token)]

def Action.ofJson? (value : Value) : Option Action := do
  match ← value.record? ["source_id", "reason"] with
  | [some source, some reason] => return ⟨← source.word64?, Reason.ofToken (← reason.text?)⟩
  | _ => none

def Frame.toJson (frame : Frame) : Value :=
  .object ([Value.field "t" (.float frame.t), Value.field "actions" (.array (frame.actions.map Action.toJson))] ++
    if frame.metrics.isEmpty then [] else [Value.field "metrics" (.wordMap frame.metrics)])

def Frame.ofJson? (value : Value) : Option Frame := do
  match ← value.record? ["t", "actions", "metrics"] with
  | [some t, some actions, metrics] =>
    return ⟨← t.float?, ← actions.listOf? Action.ofJson?, ← Value.orElse? Value.wordMap? .empty metrics⟩
  | _ => none

def Timeline.toJson (timeline : Timeline) : Value :=
  .object [Value.field "frames" (.array (timeline.frames.map Frame.toJson)),
    Value.field "series_keys" (.array (timeline.seriesKeys.map .text))]

def Timeline.ofJson? (value : Value) : Option Timeline := do
  match ← value.record? ["frames", "series_keys"] with
  | [some frames, keys] =>
    let frames ← frames.listOf? Frame.ofJson?
    (Timeline.ofFrames frames (← Value.orElse? (Value.listOf? Value.text?) [] keys)).toOption
  | _ => none

/-- The timeline of a JSON text. -/
def Timeline.parse? (text : String) : Option Timeline := do
  Timeline.ofJson? (← Json.parse? text.toList)

end PacketReplay
