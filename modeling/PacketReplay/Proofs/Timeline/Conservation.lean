import Mathlib.Data.Finset.Card
import PacketReplay.Proofs.Timeline.OfText
import PacketReplay.Timeline.Summary

/-!
# Nothing is lost on the way to a summary

The actions of a timeline are the events of its text, in order, whatever the tolerance and the keys: grouping
and aligning neither lose, add nor move any of them. So what a summary counts is counted already by a scan of
the text, and only the number of frames and the last values depend on the settings.
-/
namespace PacketReplay

/-! ### Actions and events -/

theorem flatMap_actions_grouped (epsilon : Float) (events : List Event) :
    (grouped epsilon events).flatMap Frame.actions = events.map Event.action := by
  cases events with
  | nil => rfl
  | cons first rest => exact flatMap_actions_groupFrom epsilon first.t [first.action] rest

/-- A new frame takes at least the event that opens it. -/
theorem length_groupFrom_le (epsilon opened : Float) (actions : List Action) (events : List Event) :
    (groupFrom epsilon [] opened actions events).length ≤ events.length + 1 := by
  induction events generalizing opened actions with
  | nil => exact Nat.le_refl 1
  | cons event rest ih =>
    simp only [groupFrom]
    split
    · rw [groupFrom_closed, List.length_append, List.length_reverse, List.length_singleton, List.length_cons]
      have later := ih event.t [event.action]
      omega
    · exact Nat.le_succ_of_le (ih opened (event.action :: actions))

theorem length_grouped_le (epsilon : Float) (events : List Event) :
    (grouped epsilon events).length ≤ events.length := by
  cases events with
  | nil => exact Nat.le_refl 0
  | cons first rest => exact length_groupFrom_le epsilon first.t [first.action] rest

section Built

variable {settings : Settings} {text : String} {timeline : Timeline}
  (built : Timeline.ofText settings text = .ok timeline)

include built

/-- The actions of a timeline are the events of its text. -/
theorem Timeline.actions_ofText : timeline.actions = (Scan.ofText text).events.map Event.action := by
  have inFrames := Timeline.map_view_ofText built Frame.actions fun _ _ _ => rfl
  calc timeline.frames.flatMap Frame.actions
      = (timeline.frames.map Frame.actions).flatten := List.flatMap_def
    _ = (grouped settings.mergeEpsilon (Scan.ofText text).relative).flatMap Frame.actions := by
        rw [inFrames, List.flatMap_def]
    _ = (Scan.ofText text).relative.map Event.action := flatMap_actions_grouped _ _
    _ = (Scan.ofText text).events.map Event.action := List.map_map

theorem Timeline.size_ofText_le : timeline.size ≤ (Scan.ofText text).events.length := by
  have lengths := congrArg List.length (Timeline.map_view_ofText built Frame.t fun _ _ _ => rfl)
  rw [List.length_map, List.length_map] at lengths
  calc timeline.size
      = (grouped settings.mergeEpsilon (Scan.ofText text).relative).length := lengths
    _ ≤ (Scan.ofText text).relative.length := length_grouped_le _ _
    _ = (Scan.ofText text).events.length := List.length_map _

end Built

/-! ### Summaries -/

/-- A tally has an entry for each different item. -/
theorem OrderedMap.size_tally {κ : Type} [Ord κ] [Std.TransOrd κ] [Std.LawfulEqOrd κ] [DecidableEq κ]
    (items : List κ) : (OrderedMap.tally items).size = items.toFinset.card := by
  have keys : (OrderedMap.tally items).keys.toFinset = items.toFinset := by
    ext key
    rw [List.mem_toFinset, List.mem_toFinset, OrderedMap.mem_keys_iff, OrderedMap.isSome_get?_tally]
  rw [← keys, List.toFinset_card_of_nodup (OrderedMap.nodup_keys _), OrderedMap.keys, List.length_map,
    OrderedMap.size]

/-- The tokens of events, in order. -/
def tokensOf (events : List Event) : List String := events.map fun event => event.reason.token

/-- What a summary says of the events that it sums up. -/
structure Summary.SumsUp (summary : Summary) (events : List Event) : Prop where
  actions : summary.actions = events.length
  sources : summary.sources = (events.map Event.source).toFinset.card
  /-- A token has an entry if it occurs, with the number of times that it does. -/
  perReason : ∀ token, summary.perReason.get? token =
    if (tokensOf events).count token = 0 then none else some ((tokensOf events).count token)
  allReasons : (summary.perReason.entries.map fun entry => entry.2).sum = summary.actions
  unacked : (summary.unacked : ℤ) =
    max (((tokensOf events).count "sent" : ℤ) - (tokensOf events).count "acked") 0
  frames : 1 ≤ summary.frames ∧ summary.frames ≤ summary.actions

theorem Timeline.summary_sumsUp {settings : Settings} {text : String} {timeline : Timeline}
    (built : Timeline.ofText settings text = .ok timeline) :
    timeline.summary.SumsUp (Scan.ofText text).events := by
  have actions := Timeline.actions_ofText built
  have length : timeline.summary.actions = (Scan.ofText text).events.length := by
    rw [Timeline.summary, actions, List.length_map]
  have tokens : timeline.summary.perReason = OrderedMap.tally (tokensOf (Scan.ofText text).events) := by
    have counted : timeline.summary.perReason =
        OrderedMap.tally (timeline.actions.map fun action => action.reason.token) := rfl
    rw [counted, actions, List.map_map]
    rfl
  have perReason : ∀ token, timeline.summary.perReason.get? token =
      OrderedMap.positive? ((tokensOf (Scan.ofText text).events).count token) := by
    intro token
    rw [tokens, OrderedMap.get?_tally]
  have counts : ∀ reason, timeline.summary.count reason =
      (tokensOf (Scan.ofText text).events).count reason.token := by
    intro reason
    rw [Summary.count, perReason, OrderedMap.getD_positive?]
  refine ⟨length, ?_, perReason, ?_, ?_, timeline.size_pos, ?_⟩
  · rw [Timeline.summary, actions, List.map_map, OrderedMap.size_tally]
    rfl
  · rw [tokens, OrderedMap.sum_tally, length, tokensOf, List.length_map]
  · rw [Summary.unacked, counts, counts]
    simp only [Reason.token]
    omega
  · rw [length]
    exact Timeline.size_ofText_le built

/-- A text has a timeline if a scan finds an event in it, whatever the tolerance and the keys, valid or not. The
summaries for two settings then agree in all that they count, which is what the scan has found; and a line of
the text that is not counted was skipped. -/
theorem summary_conserves_events (text : String) (one other : Settings) :
    let scan := Scan.ofText text
    (scan.events = [] ∧
      (∃ error, Timeline.ofText one text = .error error) ∧ ∃ error, Timeline.ofText other text = .error error) ∨
    (scan.events ≠ [] ∧
      ∃ left right, Timeline.ofText one text = .ok left ∧ Timeline.ofText other text = .ok right ∧
        left.summary.actions = right.summary.actions ∧
        left.summary.sources = right.summary.sources ∧
        left.summary.perReason = right.summary.perReason ∧
        left.summary.unacked = right.summary.unacked ∧
        left.summary.SumsUp scan.events ∧ right.summary.SumsUp scan.events ∧
        left.summary.actions + scan.skipped = (Text.lines text.toList).length) := by
  intro scan
  by_cases none : scan.events = []
  · exact .inl ⟨none, ⟨_, Timeline.ofText_of_noEvents one none⟩, ⟨_, Timeline.ofText_of_noEvents other none⟩⟩
  · obtain ⟨left, builtL⟩ := (Timeline.exists_ofText_iff one text).mpr none
    obtain ⟨right, builtR⟩ := (Timeline.exists_ofText_iff other text).mpr none
    have sumsL := Timeline.summary_sumsUp builtL
    have sumsR := Timeline.summary_sumsUp builtR
    -- Both count the events that the scan has found, whatever the settings.
    have perReason : left.summary.perReason = right.summary.perReason := by
      apply OrderedMap.ext_get?
      intro token
      rw [sumsL.perReason, sumsR.perReason]
    have unacked : left.summary.unacked = right.summary.unacked := by
      simp only [Summary.unacked, Summary.count, perReason]
    refine .inr ⟨none, left, right, builtL, builtR, sumsL.actions.trans sumsR.actions.symm,
      sumsL.sources.trans sumsR.sources.symm, perReason, unacked, sumsL, sumsR, ?_⟩
    rw [sumsL.actions]
    exact Scan.length_events_add_skipped _

end PacketReplay
