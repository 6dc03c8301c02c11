import PacketReplay.Proofs.Player.PathIndependence

/-!
# Statistics of a replay

The summary of a timeline counts its actions by the tokens of their reasons. A screen counts them by packet
and then by reason. At the last frame both have counted every action once, so that all their sums agree: the
summary says what a replay shows, whatever calls led there.
-/
namespace PacketReplay

/-! ### Totals of a screen -/

namespace Screen

/-- The instances of all markers together. -/
def instances (screen : Screen) : Nat :=
  (screen.markers.entries.map fun entry => entry.2.instances).sum

/-- How often a flag is set, on all markers together. -/
def flagged (screen : Screen) (reason : Reason) : Nat :=
  (screen.markers.entries.map fun entry => entry.2.flagCount reason).sum

/-- What a screen counts for a reason. -/
def total (screen : Screen) (reason : Reason) : Nat :=
  if reason = .sent then screen.instances else screen.flagged reason

/-- All instances and all flags of all markers together. -/
def grandTotal (screen : Screen) : Nat :=
  (screen.markers.entries.map fun entry =>
    entry.2.instances + (entry.2.flags.entries.map fun flag => flag.2).sum).sum

end Screen

/-- The packets that have a reason, each as often as it has it. -/
def sourcesOf (actions : List Action) (reason : Reason) : List UInt64 :=
  (actions.filter fun action => action.reason = reason).map Action.source

theorem count_sourcesOf (actions : List Action) (reason : Reason) (id : UInt64) :
    (sourcesOf actions reason).count id = actions.count ⟨id, reason⟩ := by
  rw [sourcesOf, List.count_eq_countP, List.count_eq_countP, List.countP_map, List.countP_filter]
  apply List.countP_congr
  rintro ⟨source, token⟩ _
  simp

theorem length_sourcesOf (actions : List Action) (reason : Reason) :
    (sourcesOf actions reason).length = actions.countP fun action => action.reason = reason := by
  rw [sourcesOf, List.length_map, List.countP_eq_length_filter]

theorem mem_of_mem_sourcesOf {actions : List Action} {reason : Reason} {id : UInt64}
    (member : id ∈ sourcesOf actions reason) : id ∈ actions.map Action.source := by
  obtain ⟨action, filtered, rfl⟩ := List.mem_map.mp member
  exact List.mem_map_of_mem (List.mem_filter.mp filtered).1

/-- The flags of a packet and its instances are its actions. -/
theorem Marker.instances_add_flags_ofActions (actions : List Action) (id : UInt64) :
    (Marker.ofActions actions id).instances +
        ((Marker.ofActions actions id).flags.entries.map fun flag => flag.2).sum =
      (actions.map Action.source).count id := by
  rw [Marker.ofActions, OrderedMap.sum_tally, List.length_map, ← List.countP_eq_length_filter,
    List.count_eq_countP, List.count_eq_countP, List.countP_map]
  -- An action of the packet is either a sent one or a flag.
  rw [List.countP_eq_countP_filter_add actions (_ ∘ Action.source) fun action => action.reason = .sent]
  rw [List.countP_filter, List.countP_filter]
  congr 1
  · apply List.countP_congr
    rintro ⟨source, reason⟩ _
    simp
  · apply List.countP_congr
    rintro ⟨source, reason⟩ _
    simp

namespace Screen

variable (actions : List Action) (readout : Readout)

theorem marker_ofActions {id : UInt64} {marker : Marker}
    (found : (ofActions actions readout).markers.get? id = some marker) :
    marker = .ofActions actions id := by
  have shown := marker?_ofActions actions readout id
  rw [marker?, found] at shown
  split at shown
  · exact Option.some.inj shown
  · cases shown

theorem isSome_marker_ofActions {id : UInt64} (member : id ∈ actions.map Action.source) :
    ((ofActions actions readout).markers.get? id).isSome := by
  have shown := marker?_ofActions actions readout id
  rw [if_pos member] at shown
  exact Option.isSome_of_eq_some shown

theorem size_ofActions :
    (ofActions actions readout).markers.size = (OrderedMap.tally (actions.map Action.source)).size := by
  apply OrderedMap.size_eq_of_keys
  intro id
  have shown := marker?_ofActions actions readout id
  rw [marker?] at shown
  rw [Bool.eq_iff_iff, OrderedMap.isSome_get?_tally, shown]
  split <;> simp_all

/-- The total of a reason is the number of actions that give it. -/
theorem total_ofActions (reason : Reason) :
    (ofActions actions readout).total reason = actions.countP fun action => action.reason = reason := by
  rw [← length_sourcesOf, total]
  split
  next sent =>
    subst sent
    -- An entry counts how often its packet occurs among those that were sent.
    refine OrderedMap.sum_entries_eq_length Marker.instances ?_ ?_
    · intro id marker found
      rw [marker_ofActions actions readout found, count_sourcesOf, Marker.ofActions]
    · intro id member
      exact isSome_marker_ofActions actions readout (mem_of_mem_sourcesOf member)
  next notSent =>
    refine OrderedMap.sum_entries_eq_length (fun marker : Marker => marker.flagCount reason) ?_ ?_
    · intro id marker found
      rw [marker_ofActions actions readout found, count_sourcesOf, Marker.flagCount,
        Marker.get?_flags_ofActions, if_neg notSent, OrderedMap.getD_positive?]
    · intro id member
      exact isSome_marker_ofActions actions readout (mem_of_mem_sourcesOf member)

/-- All totals together are the number of actions. -/
theorem grandTotal_ofActions : (ofActions actions readout).grandTotal = actions.length := by
  have sources : (actions.map Action.source).length = actions.length := List.length_map _
  rw [← sources]
  refine OrderedMap.sum_entries_eq_length
    (fun marker : Marker => marker.instances + (marker.flags.entries.map fun flag => flag.2).sum) ?_ ?_
  · intro id marker found
    rw [marker_ofActions actions readout found, Marker.instances_add_flags_ofActions]
  · intro id member
    exact isSome_marker_ofActions actions readout member

end Screen

/-! ### The summary -/

theorem Reason.token_eq_iff (reason : Reason) (token : String) :
    reason.token = token ↔ reason = .ofToken token := by
  constructor
  · rintro rfl
    exact (ofToken_token reason).symm
  · rintro rfl
    exact token_ofToken token

/-- A token is a key if some action gives its reason, and it is counted as often as they do. -/
theorem Timeline.get?_perReason (timeline : Timeline) (token : String) :
    timeline.summary.perReason.get? token =
      OrderedMap.positive? (timeline.actions.countP fun action => action.reason = .ofToken token) := by
  have counted : (timeline.actions.map fun action => action.reason.token).count token =
      timeline.actions.countP fun action => action.reason = .ofToken token := by
    rw [List.count_eq_countP, List.countP_map]
    apply List.countP_congr
    intro action _
    simp [Reason.token_eq_iff]
  rw [summary, OrderedMap.get?_tally, counted]

theorem Playhead.actions_of_last {head : Playhead} (atLast : head.index = head.last) :
    head.actions = head.timeline.actions := by
  have whole : head.index + 1 = head.timeline.frames.length := by
    have inside := head.inside
    unfold Playhead.last Timeline.lastIndex Timeline.size at *
    omega
  rw [Playhead.actions, whole, List.take_length, Timeline.actions]

theorem Playhead.frame_of_last {head : Playhead} (atLast : head.index = head.last) :
    head.frame = head.timeline.lastFrame := by
  rw [Timeline.lastFrame, List.getLast_eq_getElem]
  unfold Playhead.frame
  congr 1
  exact Fin.ext atLast

/-- What a player shows at the last frame has the totals of the summary of its timeline, whatever calls led
there. -/
theorem summary_counts_replay (screen : Screen) (scale epsilon : Float) (calls : List Call) (head : Playhead)
    (shown : ((Player.fresh screen scale epsilon).performAll calls).2.playhead = some head)
    (atLast : head.index = head.last) :
    let replay := ((Player.fresh screen scale epsilon).performAll calls).2.host
    let summary := head.timeline.summary
    replay.markers.size = summary.sources ∧
      replay.instances = (summary.perReason.get? "sent").getD 0 ∧
      (∀ reason, reason ≠ .sent →
        replay.flagged reason = (summary.perReason.get? reason.token).getD 0) ∧
      (∀ token, (summary.perReason.get? token).isSome → 0 < replay.total (.ofToken token)) ∧
      replay.grandTotal = summary.actions ∧
      replay.readout.map Readout.metrics = some summary.finalMetrics ∧
      summary.unacked = replay.instances - replay.flagged .acked := by
  intro replay summary
  -- The run can be forgotten: what it shows is the canonical screen of all actions.
  have faithful := (Player.performAll_faithful _ (Player.faithful_fresh screen scale epsilon) calls).1
  have canonical : replay = .ofActions head.timeline.actions head.readout := by
    rw [← Playhead.actions_of_last atLast]
    exact faithful head shown
  have totals : ∀ reason,
      replay.total reason = (summary.perReason.get? reason.token).getD 0 := by
    intro reason
    rw [canonical, Screen.total_ofActions, Timeline.get?_perReason, OrderedMap.getD_positive?,
      Reason.ofToken_token]
  have instances : replay.instances = (summary.perReason.get? "sent").getD 0 := totals .sent
  have flags : ∀ reason, reason ≠ .sent →
      replay.flagged reason = (summary.perReason.get? reason.token).getD 0 := by
    intro reason notSent
    have total := totals reason
    rwa [Screen.total, if_neg notSent] at total
  refine ⟨?_, instances, flags, ?_, ?_, ?_, ?_⟩
  · rw [canonical, Screen.size_ofActions]
    rfl
  · intro token isKey
    rw [canonical, Screen.total_ofActions]
    rw [Timeline.get?_perReason, OrderedMap.positive?] at isKey
    split at isKey
    next => cases isKey
    next positive => exact Nat.pos_of_ne_zero positive
  · rw [canonical, Screen.grandTotal_ofActions]
    rfl
  · rw [canonical]
    change some head.frame.metrics = some head.timeline.lastFrame.metrics
    rw [Playhead.frame_of_last atLast]
  · have notSent : Reason.acked ≠ .sent := by decide
    rw [instances, flags .acked notSent]
    rfl

/-- A packet that was sent and acknowledged counts as one of each. -/
theorem summary_counts_sentThenAcked :
    let calls : List Call := [.navigate (.load .sentThenAcked), .navigate .forward]
    let last : Playhead := ⟨.sentThenAcked, 1, by decide⟩
    let replay := ((Player.fresh Screen.empty 1000.0 0.0).performAll calls).2.host
    ((Player.fresh Screen.empty 1000.0 0.0).performAll calls).2.playhead = some last ∧
      last.index = last.last ∧ replay.instances = 1 ∧ replay.flagged .acked = 1 := by
  intro calls last replay
  obtain ⟨_, instances, flags, _⟩ := summary_counts_replay .empty 1000.0 0.0 calls last rfl rfl
  exact ⟨rfl, rfl, instances, flags .acked (by decide)⟩

end PacketReplay
