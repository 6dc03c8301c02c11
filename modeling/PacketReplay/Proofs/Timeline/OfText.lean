import PacketReplay.Proofs.OrderedMap
import PacketReplay.Proofs.Timeline.Series
import PacketReplay.Timeline.OfCapture

/-!
# The timeline of a text

A text with at least one event has a timeline, and what it is can be said without its stages: the events, with
their times counted from the first, are grouped into frames, and each key fills in the frames from its own
samples. So the keys that are asked for do not interfere with each other, nor with the frames.
-/
namespace PacketReplay

/-! ### Events -/

/-- The time of the first event; without an event there is nothing to count from. -/
def Scan.origin (scan : Scan) : Float := (scan.events.head?.map Event.t).getD 0.0

/-- The events with their times counted from the first. -/
def Scan.relative (scan : Scan) : List Event := scan.events.map (Event.since scan.origin)

/-- The frames of a list of events; there are none without an event. -/
def grouped (epsilon : Float) : List Event → List Frame
  | [] => []
  | first :: rest => groupFrom epsilon [] first.t [first.action] rest

theorem groupEvents_eq_ok {epsilon : Float} {events : List Event} (some : events ≠ []) :
    groupEvents epsilon events = .ok (grouped epsilon events) := by
  cases events with
  | nil => exact absurd rfl some
  | cons first rest => rfl

theorem grouped_ne_nil {epsilon : Float} {events : List Event} (some : events ≠ []) :
    grouped epsilon events ≠ [] := by
  cases events with
  | nil => exact absurd rfl some
  | cons first rest => exact groupFrom_ne_nil _ _ _ _ _

theorem metrics_groupFrom {epsilon opened : Float} {actions : List Action} {closed : List Frame}
    {events : List Event} (empty : ∀ frame ∈ closed, frame.metrics = .empty) :
    ∀ frame ∈ groupFrom epsilon closed opened actions events, frame.metrics = .empty := by
  induction events generalizing closed opened actions with
  | nil =>
    intro frame member
    rcases List.mem_cons.mp (List.mem_reverse.mp member) with rfl | earlier
    · rfl
    · exact empty frame earlier
  | cons event rest ih =>
    simp only [groupFrom]
    split
    · apply ih
      intro frame member
      rcases List.mem_cons.mp member with rfl | earlier
      · rfl
      · exact empty frame earlier
    · exact ih empty

/-- Grouping gives no frame a value. -/
theorem metrics_grouped {epsilon : Float} {events : List Event} :
    ∀ frame ∈ grouped epsilon events, frame.metrics = .empty := by
  cases events with
  | nil => nofun
  | cons first rest => exact metrics_groupFrom nofun

/-- What happened when in a frame, without the values of the series. -/
def Frame.moment (frame : Frame) : Float × List Action := (frame.t, frame.actions)

/-! ### Timelines -/

/-- A capture is a scan with its events counted from the first, and one series for each key. -/
theorem Capture.ofText_eq_ok_iff (text : String) (keys : List String) (capture : Capture) :
    Capture.ofText text keys = .ok capture ↔
      (Scan.ofText text).events ≠ [] ∧
        capture = ⟨(Scan.ofText text).relative,
          keys.eraseDups.map (seriesSince text (Scan.ofText text).origin),
          (Scan.ofText text).origin, (Scan.ofText text).skipped⟩ := by
  rw [Capture.ofText]
  cases scanned : Scan.ofText text with
  | mk events skipped =>
    cases events with
    | nil => simp
    | cons first rest =>
      simp only [Except.ok.injEq, ne_eq, reduceCtorEq, not_false_eq_true, true_and]
      exact eq_comm

theorem Timeline.ofFrames_eq_ok_iff (frames : List Frame) (seriesKeys : List String) (timeline : Timeline) :
    Timeline.ofFrames frames seriesKeys = .ok timeline ↔
      timeline.frames = frames ∧ timeline.seriesKeys = seriesKeys := by
  rw [Timeline.ofFrames]
  split
  next empty =>
    constructor
    · rintro ⟨⟩
    · rintro ⟨same, _⟩
      exact absurd (same.trans empty) timeline.nonempty
  next =>
    rw [Except.ok.injEq]
    constructor
    · rintro rfl
      exact ⟨rfl, rfl⟩
    · rintro ⟨rfl, rfl⟩
      rfl

theorem Timeline.ofText_of_events (settings : Settings) {text : String}
    (some : (Scan.ofText text).events ≠ []) :
    Timeline.ofText settings text = Timeline.ofFrames
      (alignAll settings.mergeEpsilon (grouped settings.mergeEpsilon (Scan.ofText text).relative)
        (settings.seriesKeys.eraseDups.map (seriesSince text (Scan.ofText text).origin)))
      settings.seriesKeys.eraseDups := by
  have read := (Capture.ofText_eq_ok_iff text settings.seriesKeys _).mpr ⟨some, rfl⟩
  have relative : (Scan.ofText text).relative ≠ [] := mt List.map_eq_nil_iff.mp some
  have keys : (settings.seriesKeys.eraseDups.map (seriesSince text (Scan.ofText text).origin)).map Series.key =
      settings.seriesKeys.eraseDups := by
    rw [List.map_map]
    exact List.map_id _
  simp only [Timeline.ofText, read, bind, Except.bind, Capture.timeline, groupEvents_eq_ok relative, keys]

/-- The timeline of a text: its grouped events, filled in by the series of the keys. -/
theorem Timeline.ofText_eq_ok_iff (settings : Settings) (text : String) (timeline : Timeline) :
    Timeline.ofText settings text = .ok timeline ↔
      (Scan.ofText text).events ≠ [] ∧
        timeline.frames = alignAll settings.mergeEpsilon
          (grouped settings.mergeEpsilon (Scan.ofText text).relative)
          (settings.seriesKeys.eraseDups.map (seriesSince text (Scan.ofText text).origin)) ∧
        timeline.seriesKeys = settings.seriesKeys.eraseDups := by
  by_cases some : (Scan.ofText text).events = []
  · have read := (Capture.ofText_eq_error_iff text settings.seriesKeys .noEvents).mpr some
    simp [Timeline.ofText, read, some, bind, Except.bind]
  · rw [Timeline.ofText_of_events settings some, Timeline.ofFrames_eq_ok_iff]
    exact (and_iff_right some).symm

/-- A text has a timeline if an event is found in it. -/
theorem Timeline.exists_ofText_iff (settings : Settings) (text : String) :
    (∃ timeline, Timeline.ofText settings text = .ok timeline) ↔ (Scan.ofText text).events ≠ [] := by
  constructor
  · rintro ⟨timeline, built⟩
    exact ((Timeline.ofText_eq_ok_iff settings text timeline).mp built).1
  · intro some
    have relative : (Scan.ofText text).relative ≠ [] := mt List.map_eq_nil_iff.mp some
    cases whole : Timeline.ofText settings text with
    | ok timeline => exact ⟨timeline, rfl⟩
    | error error =>
      -- Grouping leaves at least one frame, and aligning keeps their number.
      rw [Timeline.ofText_of_events settings some, Timeline.ofFrames_eq_error_iff] at whole
      have length := congrArg List.length whole
      rw [length_alignAll, List.length_nil, List.length_eq_zero_iff] at length
      exact absurd length (grouped_ne_nil relative)

theorem Timeline.ofText_of_noEvents (settings : Settings) {text : String}
    (none : (Scan.ofText text).events = []) : Timeline.ofText settings text = .error .noEvents := by
  have read := (Capture.ofText_eq_error_iff text settings.seriesKeys .noEvents).mpr none
  rw [Timeline.ofText, read]
  rfl

section Built

variable {settings : Settings} {text : String} {timeline : Timeline}
  (built : Timeline.ofText settings text = .ok timeline)

include built

/-- What does not look at metrics sees the grouped events. -/
theorem Timeline.map_view_ofText {β : Type} (view : Frame → β)
    (blind : ∀ (frame : Frame) (key : String) (value : UInt64), view (frame.withMetric key value) = view frame) :
    timeline.frames.map view =
      (grouped settings.mergeEpsilon (Scan.ofText text).relative).map view := by
  obtain ⟨_, frames, _⟩ := (Timeline.ofText_eq_ok_iff settings text timeline).mp built
  rw [frames, map_view_alignAll view blind]

/-- Under a requested key a frame has the value that the samples of the key give it, and under any other key
it has none. -/
theorem Timeline.get?_metrics_ofText {index : Nat} {frame : Frame} (here : timeline.frames[index]? = some frame)
    (key : String) :
    frame.metrics.get? key =
      if key ∈ settings.seriesKeys then
        (seriesSince text (Scan.ofText text).origin key).value? settings.mergeEpsilon
          (timeline.frames.map Frame.t) index
      else none := by
  have times := Timeline.map_view_ofText built Frame.t fun _ _ _ => rfl
  obtain ⟨_, frames, _⟩ := (Timeline.ofText_eq_ok_iff settings text timeline).mp built
  rw [frames, getElem?_alignAll, Option.map_eq_some_iff] at here
  obtain ⟨before, isGrouped, rfl⟩ := here
  have filled := before.get?_filled settings.seriesKeys.eraseDups
    (fun key => (samplesOf text key).map (Sample.since (Scan.ofText text).origin)) settings.mergeEpsilon
    ((grouped settings.mergeEpsilon (Scan.ofText text).relative).map Frame.t) index key
  rw [metrics_grouped before (List.mem_of_getElem? isGrouped)] at filled
  simp only [OrderedMap.get?_empty, Option.or_none, List.mem_eraseDups] at filled
  rw [times]
  exact filled

end Built

/-! ### Keys -/

/-- The items of a list that do not stand in front of themselves. -/
def firstOccurrences (items : List String) : List String :=
  (items.zipIdx.filter fun entry => entry.1 ∉ items.take entry.2).map Prod.fst

theorem eraseDups_eq_firstOccurrences (items : List String) : items.eraseDups = firstOccurrences items := by
  -- From the back: the last item is kept if it does not occur before, and what is kept of the others is the same.
  induction items using List.reverseRecOn with
  | nil => rfl
  | append_singleton front last ih =>
    have same : ∀ entry ∈ front.zipIdx,
        decide (entry.1 ∉ (front ++ [last]).take entry.2) = decide (entry.1 ∉ front.take entry.2) := by
      intro entry member
      have inside := (List.mem_zipIdx member).2.1
      rw [List.take_append_of_le_length (by omega)]
    rw [List.eraseDups_append, ih, firstOccurrences, firstOccurrences, List.zipIdx_append, List.filter_append,
      List.map_append, List.filter_congr same]
    congr 1
    by_cases before : last ∈ front <;> simp [List.removeAll, List.eraseDups_cons, before]

section Two

variable {text : String} {one other : Settings} {left right : Timeline}
  (builtL : Timeline.ofText one text = .ok left) (builtR : Timeline.ofText other text = .ok right)
  (tolerance : one.mergeEpsilon = other.mergeEpsilon)

include builtL builtR tolerance

/-- Two timelines of a text differ in metrics only. -/
theorem Timeline.map_view_agree {β : Type} (view : Frame → β)
    (blind : ∀ (frame : Frame) (key : String) (value : UInt64), view (frame.withMetric key value) = view frame) :
    left.frames.map view = right.frames.map view := by
  rw [Timeline.map_view_ofText builtL view blind, Timeline.map_view_ofText builtR view blind, tolerance]

theorem Timeline.size_agree : left.size = right.size := by
  have times := Timeline.map_view_agree builtL builtR tolerance Frame.t fun _ _ _ => rfl
  have lengths := congrArg List.length times
  rwa [List.length_map, List.length_map] at lengths

/-- They agree in the values under a key that both or neither were asked for. -/
theorem Timeline.get?_metrics_agree {key : String} (alike : key ∈ one.seriesKeys ↔ key ∈ other.seriesKeys)
    {index : Nat} {frame fellow : Frame} (here : left.frames[index]? = some frame)
    (there : right.frames[index]? = some fellow) : frame.metrics.get? key = fellow.metrics.get? key := by
  have times := Timeline.map_view_agree builtL builtR tolerance Frame.t fun _ _ _ => rfl
  rw [Timeline.get?_metrics_ofText builtL here, Timeline.get?_metrics_ofText builtR there, times, tolerance]
  simp only [alike]

theorem Timeline.map_get?_metrics_agree {key : String}
    (alike : key ∈ one.seriesKeys ↔ key ∈ other.seriesKeys) :
    left.frames.map (fun frame => frame.metrics.get? key) =
      right.frames.map fun frame => frame.metrics.get? key := by
  have sizes : left.frames.length = right.frames.length := Timeline.size_agree builtL builtR tolerance
  apply List.ext_getElem
  · rw [List.length_map, List.length_map, sizes]
  · intro index inside inside'
    rw [List.getElem_map, List.getElem_map]
    exact Timeline.get?_metrics_agree builtL builtR tolerance alike (List.getElem?_eq_getElem _)
      (List.getElem?_eq_getElem _)

/-- With the same keys they do not differ at all. -/
theorem Timeline.frames_agree (alike : ∀ key, key ∈ one.seriesKeys ↔ key ∈ other.seriesKeys) :
    left.frames = right.frames := by
  have sizes : left.frames.length = right.frames.length := Timeline.size_agree builtL builtR tolerance
  have moments := Timeline.map_view_agree builtL builtR tolerance Frame.moment fun _ _ _ => rfl
  apply List.ext_getElem sizes
  intro index inside inside'
  have moment : left.frames[index].moment = right.frames[index].moment := by
    have same := congrArg (·[index]?) moments
    simpa [inside, inside'] using same
  have metrics : left.frames[index].metrics = right.frames[index].metrics := by
    apply OrderedMap.ext_get?
    intro key
    exact Timeline.get?_metrics_agree builtL builtR tolerance (alike key) (List.getElem?_eq_getElem _)
      (List.getElem?_eq_getElem _)
  rw [Frame.moment, Frame.moment, Prod.mk.injEq] at moment
  exact (Frame.mk.injEq _ _ _ _ _ _).mpr ⟨moment.1, moment.2, metrics⟩

end Two

theorem Timeline.mem_seriesKeys_of_metrics {settings : Settings} {text : String} {timeline : Timeline}
    (built : Timeline.ofText settings text = .ok timeline) :
    ∀ frame ∈ timeline.frames, ∀ key ∈ frame.metrics.keys, key ∈ settings.seriesKeys := by
  intro frame member key isKey
  obtain ⟨index, here⟩ := List.mem_iff_getElem?.mp member
  rw [OrderedMap.mem_keys_iff, Timeline.get?_metrics_ofText built here] at isKey
  split at isKey
  next requested => exact requested
  next => cases isKey

/-- Whatever keys are asked for, a text has a timeline or has none, with the same times and the same actions.
A key that is asked for both times has the same values in both timelines, and no value stands under a key that
was not asked for. So timelines with the same keys, in whatever order and however often, have the same frames. -/
theorem series_independent (text : String) (epsilon scale scale' : Float) (keys keys' : List String) :
    let one := Timeline.ofText ⟨epsilon, scale, keys⟩ text
    let other := Timeline.ofText ⟨epsilon, scale', keys'⟩ text
    (∃ error, one = .error error ∧ other = .error error) ∨
    ∃ left right, one = .ok left ∧ other = .ok right ∧
      left.size = right.size ∧
      left.frames.map Frame.t = right.frames.map Frame.t ∧
      left.frames.map Frame.actions = right.frames.map Frame.actions ∧
      (∀ key ∈ keys, key ∈ keys' →
        left.frames.map (fun frame => frame.metrics.get? key) =
          right.frames.map fun frame => frame.metrics.get? key) ∧
      (∀ frame ∈ left.frames, ∀ key ∈ frame.metrics.keys, key ∈ keys) ∧
      (∀ frame ∈ right.frames, ∀ key ∈ frame.metrics.keys, key ∈ keys') ∧
      left.seriesKeys = firstOccurrences keys ∧ right.seriesKeys = firstOccurrences keys' ∧
      ((∀ key, key ∈ keys ↔ key ∈ keys') → left.frames = right.frames) := by
  intro one other
  -- Whether a timeline is built depends on the events alone.
  by_cases none : (Scan.ofText text).events = []
  · exact .inl ⟨.noEvents, Timeline.ofText_of_noEvents _ none, Timeline.ofText_of_noEvents _ none⟩
  · obtain ⟨left, builtL⟩ := (Timeline.exists_ofText_iff ⟨epsilon, scale, keys⟩ text).mpr none
    obtain ⟨right, builtR⟩ := (Timeline.exists_ofText_iff ⟨epsilon, scale', keys'⟩ text).mpr none
    obtain ⟨_, _, keysL⟩ := (Timeline.ofText_eq_ok_iff _ text left).mp builtL
    obtain ⟨_, _, keysR⟩ := (Timeline.ofText_eq_ok_iff _ text right).mp builtR
    right
    refine ⟨left, right, builtL, builtR, Timeline.size_agree builtL builtR rfl,
      Timeline.map_view_agree builtL builtR rfl Frame.t fun _ _ _ => rfl,
      Timeline.map_view_agree builtL builtR rfl Frame.actions fun _ _ _ => rfl, ?_,
      Timeline.mem_seriesKeys_of_metrics builtL, Timeline.mem_seriesKeys_of_metrics builtR, ?_, ?_, ?_⟩
    · intro key asked askedToo
      exact Timeline.map_get?_metrics_agree builtL builtR rfl ⟨fun _ => askedToo, fun _ => asked⟩
    · rw [keysL, eraseDups_eq_firstOccurrences]
    · rw [keysR, eraseDups_eq_firstOccurrences]
    · intro alike
      exact Timeline.frames_agree builtL builtR rfl alike

end PacketReplay
