import PacketReplay.Proofs.Timeline.Conservation

/-!
# Growing captures

A capture that is still being written can be read again when it has grown: what was read before stays as it
was. Its lines are scanned one by one, times are counted from the first event of all, and grouping looks back
no further than the open frame. So a longer text only adds actions to the last frame, and frames behind it.
-/
namespace PacketReplay

open Text

/-! ### Scans -/

/-- What is written after an ended line begins a new one. -/
theorem lines_append_of_ended {front : List Char} (ended : front.getLast? = some '\n') (back : List Char) :
    lines (front ++ back) = lines front ++ lines back := by
  obtain ⟨before, rfl⟩ := List.getLast?_eq_some_iff.mp ended
  rw [List.append_assoc, List.singleton_append, lines_append_lineFeed]

section Scans

variable {front : String} (ended : front.toList.getLast? = some '\n') (back : String)

include ended

theorem lines_append_ofText : lines (front ++ back).toList = lines front.toList ++ lines back.toList := by
  rw [String.toList_append, lines_append_of_ended ended]

theorem Scan.events_append_ofText :
    (Scan.ofText (front ++ back)).events = (Scan.ofText front).events ++ (Scan.ofText back).events := by
  rw [Scan.ofText, lines_append_ofText ended, Scan.events_append, Scan.ofText, Scan.ofText]

theorem Scan.skipped_append_ofText :
    (Scan.ofText (front ++ back)).skipped = (Scan.ofText front).skipped + (Scan.ofText back).skipped := by
  rw [Scan.ofText, lines_append_ofText ended, Scan.skipped_append, Scan.ofText, Scan.ofText]

theorem samplesOf_append (key : String) :
    samplesOf (front ++ back) key = samplesOf front key ++ samplesOf back key := by
  rw [samplesOf, lines_append_ofText ended, List.filterMap_append, samplesOf, samplesOf]

/-- The first event is the first of the longer text too, so all times are counted from the same moment. -/
theorem Scan.relative_append_ofText (some : (Scan.ofText front).events ≠ []) :
    (Scan.ofText (front ++ back)).relative = (Scan.ofText front).relative ++
      (Scan.ofText back).events.map (Event.since (Scan.ofText front).origin) := by
  have origin : (Scan.ofText (front ++ back)).origin = (Scan.ofText front).origin := by
    rw [Scan.origin, Scan.events_append_ofText ended, List.head?_append_of_ne_nil _ some, Scan.origin]
  rw [Scan.relative, origin, Scan.events_append_ofText ended, List.map_append, Scan.relative]

end Scans

/-! ### Frames -/

/-- Frames that go on: all but the last are kept, and the last keeps its time and may take on more actions. -/
def GoesOn (shorter longer : List (Float × List Action)) : Prop :=
  ∃ before t actions more after, shorter = before ++ [(t, actions)] ∧
    longer = before ++ (t, actions ++ more) :: after

theorem GoesOn.cons {shorter longer : List (Float × List Action)} (goesOn : GoesOn shorter longer)
    (first : Float × List Action) : GoesOn (first :: shorter) (first :: longer) := by
  obtain ⟨before, t, actions, more, after, rfl, rfl⟩ := goesOn
  exact ⟨first :: before, t, actions, more, after, rfl, rfl⟩

/-- The open frame keeps its time and the actions that it has. -/
theorem moments_groupFrom (epsilon opened : Float) (actions : List Action) (events : List Event) :
    ∃ more after, (groupFrom epsilon [] opened actions events).map Frame.moment =
      (opened, actions.reverse ++ more) :: after := by
  induction events generalizing actions with
  | nil => exact ⟨[], [], by simp [groupFrom, closeFrame, Frame.moment]⟩
  | cons event rest ih =>
    simp only [groupFrom]
    split
    · rw [groupFrom_closed]
      exact ⟨[], (groupFrom epsilon [] event.t [event.action] rest).map Frame.moment,
        by simp [closeFrame, Frame.moment]⟩
    · obtain ⟨more, after, grown⟩ := ih (event.action :: actions)
      exact ⟨event.action :: more, after, by simpa using grown⟩

/-- More events go on from the frame that is open after the first ones. -/
theorem goesOn_groupFrom (epsilon opened : Float) (actions : List Action) (events later : List Event) :
    GoesOn ((groupFrom epsilon [] opened actions events).map Frame.moment)
      ((groupFrom epsilon [] opened actions (events ++ later)).map Frame.moment) := by
  induction events generalizing opened actions with
  | nil =>
    obtain ⟨more, after, grown⟩ := moments_groupFrom epsilon opened actions later
    exact ⟨[], opened, actions.reverse, more, after, rfl, grown⟩
  | cons event rest ih =>
    simp only [List.cons_append, groupFrom]
    split
    · -- The open frame is closed in both runs before the longer one has gone further.
      rw [groupFrom_closed, groupFrom_closed epsilon [closeFrame opened actions]]
      exact (ih event.t [event.action]).cons _
    · exact ih opened (event.action :: actions)

theorem goesOn_grouped (epsilon : Float) {events : List Event} (some : events ≠ []) (later : List Event) :
    GoesOn ((grouped epsilon events).map Frame.moment) ((grouped epsilon (events ++ later)).map Frame.moment) := by
  cases events with
  | nil => exact absurd rfl some
  | cons first rest => exact goesOn_groupFrom epsilon first.t [first.action] rest later

/-! ### Timelines -/

section Timelines

variable {shorter longer : Timeline}
  (goesOn : GoesOn (shorter.frames.map Frame.moment) (longer.frames.map Frame.moment))

include goesOn

theorem Timeline.size_le_of_goesOn : shorter.size ≤ longer.size := by
  obtain ⟨before, t, actions, more, after, short, long⟩ := goesOn
  have shortLength := congrArg List.length short
  have longLength := congrArg List.length long
  simp only [List.length_map, List.length_append, List.length_cons, List.length_nil] at shortLength longLength
  unfold Timeline.size
  omega

theorem Timeline.moment_of_goesOn {index : Nat} (inside : index < shorter.lastIndex) :
    (longer.frame? index).map Frame.moment = (shorter.frame? index).map Frame.moment := by
  obtain ⟨before, t, actions, more, after, short, long⟩ := goesOn
  have length := congrArg List.length short
  simp only [List.length_map, List.length_append, List.length_singleton] at length
  -- The open frame is the one behind the common ones, and the index lies before it.
  have early : index < before.length := by
    unfold Timeline.lastIndex Timeline.size at inside
    omega
  rw [Timeline.frame?, Timeline.frame?, ← List.getElem?_map, ← List.getElem?_map, short, long,
    List.getElem?_append_left early, List.getElem?_append_left early]

theorem Timeline.lastFrame_of_goesOn :
    ∃ grown, longer.frame? shorter.lastIndex = some grown ∧ grown.t = shorter.lastFrame.t ∧
      shorter.lastFrame.actions <+: grown.actions := by
  obtain ⟨before, t, actions, more, after, short, long⟩ := goesOn
  have length := congrArg List.length short
  simp only [List.length_map, List.length_append, List.length_singleton] at length
  have lastIndex : shorter.lastIndex = before.length := by
    unfold Timeline.lastIndex Timeline.size
    omega
  have last : shorter.lastFrame.moment = (t, actions) := by
    have same := congrArg List.getLast? short
    rw [List.getLast?_map, List.getLast?_eq_some_getLast shorter.nonempty, List.getLast?_concat] at same
    exact Option.some.inj same
  have there : (longer.frame? before.length).map Frame.moment = some (t, actions ++ more) := by
    rw [Timeline.frame?, ← List.getElem?_map, long]
    simp
  obtain ⟨grown, found, moment⟩ := Option.map_eq_some_iff.mp there
  rw [Frame.moment, Prod.mk.injEq] at last moment
  refine ⟨grown, lastIndex ▸ found, moment.1.trans last.1.symm, ?_⟩
  rw [last.2, moment.2]
  exact List.prefix_append actions more

end Timelines

/-- What is written after an ended line adds to a scan, to the samples of every key and to the timeline. The
timeline keeps its frames but for their values, the last of them may take on more actions, and all that is added
are the events of what was written, in order. -/
theorem timeline_grows (settings : Settings) {front : String} (back : String)
    (ended : front.toList.getLast? = some '\n') (some : (Scan.ofText front).events ≠ []) :
    (Scan.ofText (front ++ back)).events = (Scan.ofText front).events ++ (Scan.ofText back).events ∧
    (Scan.ofText (front ++ back)).skipped = (Scan.ofText front).skipped + (Scan.ofText back).skipped ∧
    (∀ key, samplesOf (front ++ back) key = samplesOf front key ++ samplesOf back key) ∧
    ∃ shorter longer, Timeline.ofText settings front = .ok shorter ∧
      Timeline.ofText settings (front ++ back) = .ok longer ∧
      shorter.size ≤ longer.size ∧
      (∀ index < shorter.lastIndex, ∀ frame, shorter.frame? index = .some frame →
        ∃ same, longer.frame? index = .some same ∧ same.t = frame.t ∧ same.actions = frame.actions) ∧
      (∃ grown, longer.frame? shorter.lastIndex = .some grown ∧ grown.t = shorter.lastFrame.t ∧
        shorter.lastFrame.actions <+: grown.actions) ∧
      longer.actions = shorter.actions ++ (Scan.ofText back).events.map Event.action := by
  have events := Scan.events_append_ofText ended back
  have someMore : (Scan.ofText (front ++ back)).events ≠ [] := by
    rw [events]
    exact List.append_ne_nil_of_left_ne_nil some _
  obtain ⟨shorter, builtS⟩ := (Timeline.exists_ofText_iff settings front).mpr some
  obtain ⟨longer, builtL⟩ := (Timeline.exists_ofText_iff settings (front ++ back)).mpr someMore
  -- Times and actions are those of the grouping, which only looks back, so it goes on from where it was.
  have goesOn : GoesOn (shorter.frames.map Frame.moment) (longer.frames.map Frame.moment) := by
    rw [Timeline.map_view_ofText builtS Frame.moment fun _ _ _ => rfl,
      Timeline.map_view_ofText builtL Frame.moment fun _ _ _ => rfl, Scan.relative_append_ofText ended back some]
    exact goesOn_grouped _ (mt List.map_eq_nil_iff.mp some) _
  refine ⟨events, Scan.skipped_append_ofText ended back, samplesOf_append ended back, shorter, longer, builtS,
    builtL, Timeline.size_le_of_goesOn goesOn, ?_, Timeline.lastFrame_of_goesOn goesOn, ?_⟩
  · intro index early frame here
    have moment := Timeline.moment_of_goesOn goesOn early
    rw [here, Option.map_some, Option.map_eq_some_iff] at moment
    obtain ⟨same, there, alike⟩ := moment
    rw [Frame.moment, Frame.moment, Prod.mk.injEq] at alike
    exact ⟨same, there, alike⟩
  · rw [Timeline.actions_ofText builtL, Timeline.actions_ofText builtS, events, List.map_append]

/-- An acknowledgement falls into the frame that was open, and a packet that was sent before opens another. -/
theorem timeline_grows_lateAck :
    let front := "quack_log Instant \x7b tv_sec: 1, tv_nsec: 0 \x7d 1 (sent)\n"
    let back := "quack_log Instant \x7b tv_sec: 1, tv_nsec: 0 \x7d 1 (acked)\n" ++
      "quack_log Instant \x7b tv_sec: 0, tv_nsec: 0 \x7d 2 (sent)"
    ∃ shorter longer, Timeline.ofText .standard front = .ok shorter ∧
      Timeline.ofText .standard (front ++ back) = .ok longer ∧ shorter.size ≤ longer.size ∧
      (∃ grown, longer.frame? shorter.lastIndex = some grown ∧ grown.t = shorter.lastFrame.t ∧
        shorter.lastFrame.actions <+: grown.actions) ∧
      longer.actions = [⟨1, .sent⟩, ⟨1, .acked⟩, ⟨2, .sent⟩] := by
  intro front back
  have ended : front.toList.getLast? = some '\n' := by decide +kernel
  have some : (Scan.ofText front).events ≠ [] := by decide +kernel
  obtain ⟨_, _, _, shorter, longer, builtS, builtL, size, _, grown, actions⟩ :=
    timeline_grows .standard back ended some
  refine ⟨shorter, longer, builtS, builtL, size, grown, ?_⟩
  rw [actions, Timeline.actions_ofText builtS]
  decide +kernel

end PacketReplay
