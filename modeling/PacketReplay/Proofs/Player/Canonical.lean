import Mathlib.Data.List.Count
import PacketReplay.Player.Basic
import PacketReplay.Proofs.OrderedMap
import PacketReplay.Proofs.Screen.Counters

/-!
# The screen of a playhead

What a screen shows at a frame can be said without a replay: for each packet, how many of the actions up to
that frame sent it and how many gave each other reason, and the readout of the frame. The effects of a
player lead there: a replay from any screen at all, a step forward from the screen of the frame before, and a
step backward from the screen of the frame after.
-/
namespace PacketReplay

/-! ### The screen of a list of actions -/

/-- What a list of actions amounts to for a packet. -/
def Marker.ofActions (actions : List Action) (id : UInt64) : Marker where
  instances := actions.count ⟨id, .sent⟩
  flags := OrderedMap.tally
    ((actions.filter fun action => action.source = id ∧ action.reason ≠ .sent).map Action.reason)

/-- The markers of the packets of a list of actions, with a readout. -/
def Screen.ofActions (actions : List Action) (readout : Readout) : Screen where
  markers := OrderedMap.tabulate (actions.map Action.source) (Marker.ofActions actions)
  readout := some readout

theorem Marker.get?_flags_ofActions (actions : List Action) (id : UInt64) (reason : Reason) :
    (Marker.ofActions actions id).flags.get? reason =
      OrderedMap.positive? (if reason = .sent then 0 else actions.count ⟨id, reason⟩) := by
  unfold Marker.ofActions
  rw [OrderedMap.get?_tally]
  congr 1
  rw [List.count_eq_countP, List.countP_map, List.countP_filter]
  split
  next isSent =>
    -- Actions of sent packets are filtered out, so they never set a flag.
    rw [List.countP_eq_zero]
    intro action _
    simp +contextual [isSent]
  next notSent =>
    rw [List.count_eq_countP]
    apply List.countP_congr
    intro action _
    obtain ⟨source, token⟩ := action
    simp only [Function.comp, beq_iff_eq, Bool.and_eq_true, decide_eq_true_eq, Action.mk.injEq]
    constructor
    · rintro ⟨rfl, rfl, _⟩
      exact ⟨rfl, rfl⟩
    · rintro ⟨rfl, rfl⟩
      exact ⟨rfl, rfl, notSent⟩

theorem Marker.ofActions_eq_bare_iff (actions : List Action) (id : UInt64) :
    Marker.ofActions actions id = .bare ↔ id ∉ actions.map Action.source := by
  constructor
  · intro bare inMap
    obtain ⟨action, member, rfl⟩ := List.mem_map.mp inMap
    have occurs : 0 < actions.count ⟨action.source, action.reason⟩ := List.count_pos_iff.mpr member
    by_cases sent : action.reason = .sent
    · have none : actions.count ⟨action.source, .sent⟩ = 0 := congrArg Marker.instances bare
      rw [sent] at occurs
      omega
    · have found := Marker.get?_flags_ofActions actions action.source action.reason
      rw [bare, if_neg sent] at found
      have positive : actions.count ⟨action.source, action.reason⟩ ≠ 0 := Nat.ne_of_gt occurs
      simp [Marker.bare, OrderedMap.positive?, positive] at found
  · intro absent
    have elsewhere : ∀ action ∈ actions, action.source ≠ id := by
      rintro action member rfl
      exact absent (List.mem_map_of_mem member)
    have none : actions.count ⟨id, .sent⟩ = 0 := by
      rw [List.count_eq_zero]
      intro member
      exact elsewhere _ member rfl
    have noFlags : (actions.filter fun action => action.source = id ∧ action.reason ≠ .sent) = [] := by
      rw [List.filter_eq_nil_iff]
      intro action member
      simp [elsewhere action member]
    rw [Marker.ofActions, none, noFlags]
    rfl

theorem Screen.marker?_ofActions (actions : List Action) (readout : Readout) (id : UInt64) :
    (Screen.ofActions actions readout).marker? id =
      if id ∈ actions.map Action.source then some (Marker.ofActions actions id) else none :=
  OrderedMap.get?_tabulate _ _ _

theorem Screen.markerAt_ofActions (actions : List Action) (readout : Readout) (id : UInt64) :
    (Screen.ofActions actions readout).markerAt id = Marker.ofActions actions id := by
  rw [Screen.markerAt, Screen.marker?_ofActions]
  split
  next => rfl
  next absent => exact ((Marker.ofActions_eq_bare_iff actions id).mpr absent).symm

theorem Screen.isNormal_ofActions (actions : List Action) (readout : Readout) :
    (Screen.ofActions actions readout).IsNormal where
  no_bare := by
    intro id marker found
    rw [Screen.marker?_ofActions] at found
    split at found
    next member =>
      cases found
      rw [Bool.eq_false_iff, Ne, Marker.isBare_iff, Marker.ofActions_eq_bare_iff]
      exact not_not_intro member
    next => cases found
  no_zero := by
    intro id reason
    rw [Screen.markerAt_ofActions, Marker.get?_flags_ofActions, OrderedMap.positive?]
    split <;> simp_all

/-- The counters count the actions that raise them. -/
theorem Screen.count_ofActions (actions : List Action) (readout : Readout) (counter : Counter) :
    (Screen.ofActions actions readout).count counter = (actions.map Action.counter).count counter := by
  rw [List.count_eq_countP (a := counter), List.countP_map]
  cases counter with
  | instances id =>
    rw [Screen.count, Screen.markerAt_ofActions, Marker.ofActions, List.count_eq_countP]
    apply List.countP_congr
    rintro ⟨source, reason⟩ _
    simp only [Function.comp, Action.counter, beq_iff_eq, Action.mk.injEq]
    by_cases sent : reason = .sent <;> simp [sent]
  | flag id token =>
    rw [Screen.count, Screen.markerAt_ofActions, Marker.flagCount, Marker.get?_flags_ofActions]
    by_cases named : token = .sent
    · subst named
      simp only [if_true, OrderedMap.positive?, Option.getD_none]
      rw [eq_comm, List.countP_eq_zero]
      rintro ⟨source, reason⟩ _
      by_cases sent : reason = .sent <;> simp [Action.counter, sent]
    · rw [if_neg named, OrderedMap.getD_positive?, List.count_eq_countP]
      apply List.countP_congr
      rintro ⟨source, reason⟩ _
      simp only [Function.comp, Action.counter, beq_iff_eq, Action.mk.injEq]
      by_cases sent : reason = .sent
      · subst sent
        simp [Ne.symm named]
      · simp [sent]

/-! ### The screen at a frame -/

namespace Playhead

/-- The actions of all frames up to this one. -/
def actions (head : Playhead) : List Action :=
  (head.timeline.frames.take (head.index + 1)).flatMap Frame.actions

/-- The readout of the frame. -/
def readout (head : Playhead) : Readout := ⟨head.index, head.frame.t, head.frame.metrics⟩

/-- What is shown at the frame, whichever way led there. -/
def canonical (head : Playhead) : Screen := .ofActions head.actions head.readout

theorem take_index_succ (head : Playhead) :
    head.timeline.frames.take (head.index + 1) =
      head.timeline.frames.take head.index ++ [head.frame] :=
  List.take_succ_eq_append_getElem head.inside

/-- The frames up to the next one are those up to this one and the next. -/
theorem take_next {head next : Playhead} (found : head.next? = some next) :
    next.timeline.frames.take (next.index + 1) =
      head.timeline.frames.take (head.index + 1) ++ [next.frame] := by
  obtain ⟨timeline, index⟩ := next?_eq_some found
  rw [take_index_succ next, timeline, index]

theorem actions_next {head next : Playhead} (found : head.next? = some next) :
    next.actions = head.actions ++ next.frame.actions := by
  simp [actions, take_next found]

end Playhead

/-! ### The effects that lead there -/

theorem appliedFrom_append (index : Nat) (first second : List Frame) :
    appliedFrom index (first ++ second) =
      appliedFrom index first ++ appliedFrom (index + first.length) second := by
  induction first generalizing index with
  | nil => rfl
  | cons frame rest ih =>
    simp only [List.cons_append, appliedFrom, List.length_cons, ih, List.append_assoc]
    congr 3
    omega

theorem Frame.undone_eq (frame : Frame) :
    frame.undone = (frame.actions.map Action.counter).reverse.map Counter.removed := by
  simp [undone, Action.removed_eq]

namespace Screen

/-- Adding a frame to a screen in normal form. -/
theorem IsNormal.applyAll_applied {screen : Screen} (normal : screen.IsNormal) (frame : Frame)
    (index : Nat) :
    ∃ after, screen.applyAll (frame.applied index) = .ok after ∧ after.IsNormal ∧
      (∀ counter, after.count counter =
        screen.count counter + (frame.actions.map Action.counter).count counter) ∧
      after.readout = some ⟨index, frame.t, frame.metrics⟩ := by
  obtain ⟨added, applied, normalAdded, counts, _⟩ :=
    normal.applyAll_added (frame.actions.map Action.counter)
  have effects : frame.actions.map Action.added =
      (frame.actions.map Action.counter).map Counter.added := by
    simp [Action.added_eq]
  refine ⟨{ added with readout := some ⟨index, frame.t, frame.metrics⟩ }, ?_, normalAdded.withReadout _, ?_, rfl⟩
  · rw [Frame.applied, effects, applyAll_append_ok _ applied]
    rfl
  · intro counter
    rw [count_withReadout, counts]

/-- Undoing a frame on a screen in normal form that has all of it. -/
theorem IsNormal.applyAll_undone {screen : Screen} (normal : screen.IsNormal) (frame : Frame) (readout : Readout)
    (enough : ∀ counter, (frame.actions.map Action.counter).count counter ≤ screen.count counter) :
    ∃ after, screen.applyAll (frame.undone ++ [.readout readout]) = .ok after ∧ after.IsNormal ∧
      (∀ counter, after.count counter =
        screen.count counter - (frame.actions.map Action.counter).count counter) ∧
      after.readout = some readout := by
  -- Undoing goes backwards, but a counter does not see the order.
  simp only [← List.count_reverse (l := frame.actions.map Action.counter)] at enough ⊢
  obtain ⟨removed, applied, normalRemoved, counts, _⟩ := normal.applyAll_removed _ enough
  refine ⟨{ removed with readout := some readout }, ?_, normalRemoved.withReadout _, ?_, rfl⟩
  · rw [Frame.undone_eq, applyAll_append_ok _ applied]
    rfl
  · intro counter
    rw [count_withReadout, counts]

/-- A step forward leads to the screen of the next frame. -/
theorem applyAll_advance {head next : Playhead} (found : head.next? = some next) :
    head.canonical.applyAll next.advance = .ok next.canonical := by
  have normal : head.canonical.IsNormal := isNormal_ofActions _ _
  obtain ⟨after, applied, normalAfter, counts, readout⟩ :=
    normal.applyAll_applied next.frame next.index
  have reached : after = next.canonical := by
    refine normalAfter.ext (isNormal_ofActions _ _) ?_ readout
    intro counter
    rw [counts, Playhead.canonical, Playhead.canonical, count_ofActions, count_ofActions,
      Playhead.actions_next found, List.map_append, List.count_append]
  rw [Playhead.advance, applied, reached]

/-- A step backward takes away just what the step forward added. -/
theorem applyAll_retreat {head previous : Playhead} (found : head.previous? = some previous) :
    head.canonical.applyAll (head.retreat previous) = .ok previous.canonical := by
  have normal : head.canonical.IsNormal := isNormal_ofActions _ _
  have actions := Playhead.actions_next (Playhead.previous?_eq_some found)
  have counted : ∀ counter, head.canonical.count counter =
      previous.canonical.count counter + (head.frame.actions.map Action.counter).count counter := by
    intro counter
    rw [Playhead.canonical, Playhead.canonical, count_ofActions, count_ofActions, actions,
      List.map_append, List.count_append]
  obtain ⟨after, undone, normalAfter, counts, readout⟩ :=
    normal.applyAll_undone head.frame previous.readout fun counter =>
      (Nat.le_add_left _ _).trans_eq (counted counter).symm
  have reached : after = previous.canonical := by
    refine normalAfter.ext (isNormal_ofActions _ _) ?_ readout
    intro counter
    rw [counts, counted, Nat.add_sub_cancel]
  rw [← reached]
  exact undone

/-- A replay leads to the screen of its frame, from whatever screen it starts. -/
theorem applyAll_replay (screen : Screen) (head : Playhead) :
    screen.applyAll head.replay = .ok head.canonical := by
  obtain ⟨timeline, index, inside⟩ := head
  -- A replay up to a frame is a replay up to the one before and a step forward.
  induction index with
  | zero =>
    have first : timeline.frames.take 1 = [timeline.frames.get ⟨0, inside⟩] :=
      Playhead.take_index_succ ⟨timeline, 0, inside⟩
    obtain ⟨after, applied, normal, counts, readout⟩ :=
      isNormal_empty.applyAll_applied (timeline.frames.get ⟨0, inside⟩) 0
    have reached : after = Playhead.canonical ⟨timeline, 0, inside⟩ := by
      refine normal.ext (isNormal_ofActions _ _) ?_ readout
      intro counter
      have zero : empty.count counter = 0 := by cases counter <;> rfl
      rw [counts, zero, Nat.zero_add, Playhead.canonical, count_ofActions, Playhead.actions, first]
      simp
    rw [Playhead.replay, applyAll_cons_ok _ rfl, first, appliedFrom, appliedFrom, List.append_nil,
      applied, reached]
  | succ index ih =>
    have before : index < timeline.size := Nat.lt_of_succ_lt inside
    have found : Playhead.next? ⟨timeline, index, before⟩ = some ⟨timeline, index + 1, inside⟩ :=
      dif_pos inside
    have replayed := ih before
    have longer : Playhead.replay ⟨timeline, index + 1, inside⟩ =
        Playhead.replay ⟨timeline, index, before⟩ ++ Playhead.advance ⟨timeline, index + 1, inside⟩ := by
      have length : (timeline.frames.take (index + 1)).length = index + 1 :=
        List.length_take_of_le (Nat.succ_le_of_lt before)
      simp only [Playhead.replay, Playhead.take_next found, appliedFrom_append, length,
        List.cons_append, appliedFrom, List.append_nil, Nat.zero_add, Playhead.advance]
    rw [longer, applyAll_append_ok _ replayed, applyAll_advance found]

end Screen
end PacketReplay
