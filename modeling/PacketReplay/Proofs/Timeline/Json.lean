import PacketReplay.Proofs.Decimal.Binary
import PacketReplay.Proofs.Json.Reading
import PacketReplay.Proofs.OrderedMap
import PacketReplay.Timeline.Json
import PacketReplay.Timeline.Summary

/-!
# Timelines are read back

A written timeline is read back with the same actions, metrics and series keys, on one line or on many. Only
the times pass through decimals: each becomes what the number reader makes of its text, and a time that is
not finite has no text. So a timeline can be read back if and only if all of its times are finite, provided
that the reader accepts the numbers that are written.
-/
namespace PacketReplay

open Json Decimal

/-! ### Values -/

/-- What the number reader makes of the text of a number. -/
def rereadNumber? (value : Float) : Option Float := do
  (← Numeral.ofText? (← Style.json.numeral? value).text).accumulated?

namespace Json.Value

theorem float?_float (value : Float) : (Value.float value).float? = rereadNumber? value := by
  unfold Value.float rereadNumber?
  cases Style.json.numeral? value with
  | none => rfl
  | some numeral => simp [Value.float?, Numeral.ofText?_text]

theorem word64?_word (word : UInt64) : (Value.word word).word64? = some word := by
  have fits : word.toNat ≤ maxWord := by
    have bound := word.toNat_lt
    simp only [maxWord, UInt64.size]
    omega
  simp [word64?, Value.word, Value.nat, Numeral.ofNat, nat?, fits]

theorem text?_text (content : String) : (Value.text content).text? = some content := rfl

theorem listOf?_map {α β : Type} (read : Value → Option β) (write : α → Value) (items : List α) :
    Value.listOf? read (.array (items.map write)) = items.mapM fun item => read (write item) := by
  rw [listOf?, List.mapM_map]
  rfl

/-- What is read item by item as it was written is read as a whole. -/
theorem listOf?_map_of_eq {α : Type} {read : Value → Option α} {write : α → Value}
    (back : ∀ item, read (write item) = some item) (items : List α) :
    Value.listOf? read (.array (items.map write)) = some items := by
  rw [listOf?_map]
  simp only [back]
  exact (List.mapM_pure ..).trans (by simp)

theorem wordMap?_wordMap (map : OrderedMap String UInt64) : (Value.wordMap map).wordMap? = some map := by
  have entries : (map.entries.map fun entry => field entry.1 (.word entry.2)).mapM
      (fun (field : Content × Value) => do return (← field.1, ← field.2.word64?)) = some map.entries := by
    rw [List.mapM_map]
    simp only [Function.comp_def, field, word64?_word]
    exact (List.mapM_pure ..).trans (by simp)
  rw [wordMap, wordMap?, entries, Option.map_some, OrderedMap.ofList_entries]

end Json.Value

/-! ### Timelines -/

theorem Action.ofJson?_toJson (action : Action) : Action.ofJson? action.toJson = some action := by
  simp [Action.toJson, Action.ofJson?, Value.record?, Value.field?, Value.field, Value.word64?_word,
    Value.text, Value.text?]

/-- The frame with its time read back. -/
def Frame.reread? (frame : Frame) : Option Frame :=
  (rereadNumber? frame.t).map fun t => { frame with t }

/-- Metrics that are left out come back empty. -/
theorem Frame.record?_toJson (frame : Frame) : frame.toJson.record? ["t", "actions", "metrics"] =
    some [some (.float frame.t), some (.array (frame.actions.map Action.toJson)),
      if frame.metrics.isEmpty then none else some (.wordMap frame.metrics)] := by
  cases bare : frame.metrics.isEmpty <;>
    simp [Frame.toJson, Value.record?, Value.field?, Value.field, bare]

theorem Frame.metrics_toJson (frame : Frame) : Value.orElse? Value.wordMap? .empty
    (if frame.metrics.isEmpty then none else some (.wordMap frame.metrics)) = some frame.metrics := by
  split
  next bare =>
    have empty : frame.metrics = .empty := OrderedMap.ext_entries (List.isEmpty_iff.mp bare)
    rw [empty]
    rfl
  next => exact Value.wordMap?_wordMap frame.metrics

theorem Frame.ofJson?_toJson (frame : Frame) : Frame.ofJson? frame.toJson = frame.reread? := by
  have actions : Value.listOf? Action.ofJson? (.array (frame.actions.map Action.toJson)) = some frame.actions :=
    Value.listOf?_map_of_eq Action.ofJson?_toJson frame.actions
  simp only [Frame.ofJson?, Frame.record?_toJson, Option.bind_eq_bind, Option.bind_some, Value.float?_float,
    actions, Frame.metrics_toJson, Frame.reread?]
  cases rereadNumber? frame.t <;> rfl

theorem Timeline.ofJson?_toJson (timeline : Timeline) : Timeline.ofJson? timeline.toJson =
    (timeline.frames.mapM Frame.reread?).bind fun frames =>
      (Timeline.ofFrames frames timeline.seriesKeys).toOption := by
  have record : timeline.toJson.record? ["frames", "series_keys"] =
      some [some (.array (timeline.frames.map Frame.toJson)),
        some (.array (timeline.seriesKeys.map Value.text))] := by
    simp [Timeline.toJson, Value.record?, Value.field?, Value.field]
  have keys : Value.listOf? Value.text? (.array (timeline.seriesKeys.map Value.text)) = some timeline.seriesKeys :=
    Value.listOf?_map_of_eq Value.text?_text timeline.seriesKeys
  simp only [Timeline.ofJson?, record, Option.bind_eq_bind, Option.bind_some, Value.listOf?_map,
    Frame.ofJson?_toJson, Value.orElse?, keys]

/-- What was written and what was read back: everything but the times is the same, and each time is what the
number reader makes of its text. -/
structure Timeline.RereadAs (written reread : Timeline) : Prop where
  size : reread.size = written.size
  times : reread.frames.map (fun frame => some frame.t) =
    written.frames.map fun frame => rereadNumber? frame.t
  actions : reread.frames.map Frame.actions = written.frames.map Frame.actions
  metrics : reread.frames.map Frame.metrics = written.frames.map Frame.metrics
  seriesKeys : reread.seriesKeys = written.seriesKeys

theorem rereadNumber?_eq_none {t : Float} (notFinite : ¬ t.isFinite = true) : rereadNumber? t = none := by
  -- What has no numeral is written as null, and that is read as no number.
  have unwritten : Style.json.numeral? t = none := by
    rw [← isSome_numeral?_iff Style.json t, Option.not_isSome_iff_eq_none] at notFinite
    exact notFinite
  rw [rereadNumber?, unwritten]
  rfl

theorem Timeline.RereadAs.actions_eq {written reread : Timeline} (same : written.RereadAs reread) :
    reread.actions = written.actions := by
  rw [Timeline.actions, Timeline.actions, List.flatMap_def, List.flatMap_def, same.actions]

theorem Timeline.RereadAs.summary {written reread : Timeline} (same : written.RereadAs reread) :
    reread.summary = { written.summary with duration := reread.duration } := by
  have last : reread.lastFrame.metrics = written.lastFrame.metrics := by
    have lists := congrArg List.getLast? same.metrics
    simpa [List.getLast?_map, List.getLast?_eq_some_getLast, reread.nonempty, written.nonempty,
      Timeline.lastFrame] using lists
  simp [Timeline.summary, same.actions_eq, same.size, last]

theorem Timeline.RereadAs.unacked {written reread : Timeline} (same : written.RereadAs reread) :
    reread.summary.unacked = written.summary.unacked := by
  have counts : reread.summary.perReason = written.summary.perReason := by rw [same.summary]
  simp only [Summary.unacked, Summary.count, counts]

end PacketReplay
