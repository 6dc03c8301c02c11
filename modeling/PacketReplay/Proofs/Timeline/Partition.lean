import Mathlib.Data.List.TakeWhile
import PacketReplay.Proofs.Timeline.OfText

/-!
# The greedy partition

Grouping is a loop with an open frame. What it computes can be said of the frames alone: they take up the
events in order, each frame is opened by its first event, all others that it holds are near to that one, and
the event that opens the next frame is not. No other list of frames does that for the same events, whatever
their times are.
-/
namespace PacketReplay

/-! ### Frames that take up events -/

/-- The events of a frame behind others, where each action stands for one event, in order. -/
def Frame.eventsAfter (frame : Frame) (before : List Frame) (events : List Event) : List Event :=
  (events.drop (before.flatMap Frame.actions).length).take frame.actions.length

/-- Frames that take up events in order, a new one only for an event that is apart from the time of the frame
before. -/
structure Partitions (epsilon : Float) (events : List Event) (frames : List Frame) : Prop where
  nonempty : ∀ frame ∈ frames, frame.actions ≠ []
  unvalued : ∀ frame ∈ frames, frame.metrics = .empty
  actions : frames.flatMap Frame.actions = events.map Event.action
  /-- The time of a frame is that of its first event. -/
  opened : ∀ before frame after, frames = before ++ frame :: after →
    (frame.eventsAfter before events).head?.map Event.t = some frame.t
  joined : ∀ before frame after, frames = before ++ frame :: after →
    ∀ event ∈ (frame.eventsAfter before events).tail, apart epsilon frame.t event.t = false
  parted : frames.IsChain fun frame next => apart epsilon frame.t next.t = true

theorem Frame.eventsAfter_nil (frame : Frame) (events : List Event) :
    frame.eventsAfter [] events = events.take frame.actions.length := rfl

theorem Frame.eventsAfter_cons (frame first : Frame) (before : List Frame) (events : List Event) :
    frame.eventsAfter (first :: before) events =
      frame.eventsAfter before (events.drop first.actions.length) := by
  rw [eventsAfter, eventsAfter, List.flatMap_cons, List.length_append, List.drop_drop]

/-- What holds of every frame and those before it holds of the first, with none before it, and of the others. -/
theorem forall_split_cons_iff {holds : List Frame → Frame → Prop} (first : Frame) (rest : List Frame) :
    (∀ before frame after, first :: rest = before ++ frame :: after → holds before frame) ↔
      holds [] first ∧
        ∀ before frame after, rest = before ++ frame :: after → holds (first :: before) frame := by
  constructor
  · intro all
    refine ⟨all [] first rest rfl, ?_⟩
    rintro before frame after rfl
    exact all (first :: before) frame after rfl
  · rintro ⟨here, later⟩ before frame after split
    cases before with
    | nil =>
      cases split
      exact here
    | cons head before =>
      cases split
      exact later before frame after rfl

namespace Partitions

variable {epsilon : Float} {events near far : List Event} {first : Event} {frame : Frame} {later : List Frame}

theorem head_t (partitions : Partitions epsilon events later) :
    later.head?.map Frame.t = events.head?.map Event.t := by
  cases later with
  | nil =>
    have none : events = [] := List.map_eq_nil_iff.mp partitions.actions.symm
    rw [none]
    rfl
  | cons frame later =>
    have opened := partitions.opened [] frame later rfl
    have several : frame.actions.length ≠ 0 :=
      mt List.length_eq_zero_iff.mp (partitions.nonempty frame List.mem_cons_self)
    rw [Frame.eventsAfter_nil, List.head?_take, if_neg several] at opened
    exact opened.symm

/-- The first frame takes up the first event and those that are near to it. -/
theorem cons (near_first : ∀ event ∈ near, apart epsilon first.t event.t = false)
    (far_first : ∀ next ∈ far.head?, apart epsilon first.t next.t = true)
    (partitions : Partitions epsilon far later) :
    Partitions epsilon (first :: near ++ far)
      (⟨first.t, (first :: near).map Event.action, .empty⟩ :: later) := by
  have length : ((first :: near).map Event.action).length = (first :: near).length := List.length_map _
  have taken : (first :: near ++ far).take ((first :: near).map Event.action).length = first :: near := by
    rw [length, List.take_left]
  have left : (first :: near ++ far).drop ((first :: near).map Event.action).length = far := by
    rw [length, List.drop_left]
  refine ⟨?_, ?_, ?_, ?_, ?_, ?_⟩
  · exact List.forall_mem_cons.mpr ⟨List.cons_ne_nil _ _, partitions.nonempty⟩
  · exact List.forall_mem_cons.mpr ⟨rfl, partitions.unvalued⟩
  · rw [List.flatMap_cons, partitions.actions, List.map_append]
  · rw [forall_split_cons_iff]
    refine ⟨by rw [Frame.eventsAfter_nil, taken]; rfl, ?_⟩
    intro before frame after split
    rw [Frame.eventsAfter_cons, left]
    exact partitions.opened before frame after split
  · rw [forall_split_cons_iff]
    refine ⟨by rw [Frame.eventsAfter_nil, taken]; exact near_first, ?_⟩
    intro before frame after split
    rw [Frame.eventsAfter_cons, left]
    exact partitions.joined before frame after split
  · -- The next frame is opened by the first event that is left.
    refine List.isChain_cons.mpr ⟨?_, partitions.parted⟩
    intro next member
    have opened := partitions.head_t
    rw [member, Option.map_some, eq_comm, Option.map_eq_some_iff] at opened
    obtain ⟨event, head, t⟩ := opened
    rw [← t]
    exact far_first event head

/-- Conversely, a partition begins with such a frame. -/
theorem exists_of_cons (partitions : Partitions epsilon events (frame :: later)) :
    ∃ first near far, events = first :: near ++ far ∧
      frame = ⟨first.t, (first :: near).map Event.action, .empty⟩ ∧
      (∀ event ∈ near, apart epsilon first.t event.t = false) ∧
      (∀ next ∈ far.head?, apart epsilon first.t next.t = true) ∧ Partitions epsilon far later := by
  obtain ⟨nonempty, unvalued, actions, opened, joined, parted⟩ := partitions
  rw [forall_split_cons_iff, Frame.eventsAfter_nil] at opened joined
  simp only [Frame.eventsAfter_cons] at opened joined
  rw [List.forall_mem_cons] at nonempty unvalued
  -- The events are those of the frame and those of the frames behind it.
  have taken : (events.take frame.actions.length).map Event.action = frame.actions := by
    rw [List.map_take, ← actions, List.flatMap_cons, List.take_left]
  have left : (events.drop frame.actions.length).map Event.action = later.flatMap Frame.actions := by
    rw [List.map_drop, ← actions, List.flatMap_cons, List.drop_left]
  have rest : Partitions epsilon (events.drop frame.actions.length) later :=
    ⟨nonempty.2, unvalued.2, left.symm, opened.2, joined.2, parted.tail⟩
  have whole : events.take frame.actions.length ++ events.drop frame.actions.length = events :=
    List.take_append_drop _ _
  generalize events.take frame.actions.length = held at *
  generalize events.drop frame.actions.length = far at *
  subst whole
  cases held with
  | nil => exact absurd taken.symm nonempty.1
  | cons first near =>
    have t : first.t = frame.t := Option.some.inj opened.1
    refine ⟨first, near, far, rfl, ?_, ?_, ?_, rest⟩
    · rw [t, taken, ← unvalued.1]
    · rw [t]
      exact joined.1
    · intro next head
      have head_t := rest.head_t
      rw [head, Option.map_some, Option.map_eq_some_iff] at head_t
      obtain ⟨frame', there, same⟩ := head_t
      rw [t, ← same]
      exact (List.isChain_cons.mp parted).1 frame' there

end Partitions

/-! ### Grouping -/

/-- Whether an event joins a frame that was opened at `opened`. -/
def joins (epsilon opened : Float) (event : Event) : Bool := !apart epsilon opened event.t

/-- The open frame takes the events up to the first that is apart from it. -/
theorem groupFrom_eq_cons (epsilon opened : Float) (actions : List Action) (events : List Event) :
    groupFrom epsilon [] opened actions events =
      ⟨opened, actions.reverse ++ (events.takeWhile (joins epsilon opened)).map Event.action, .empty⟩ ::
        grouped epsilon (events.dropWhile (joins epsilon opened)) := by
  induction events generalizing actions with
  | nil => simp [groupFrom, closeFrame, grouped]
  | cons event rest ih =>
    simp only [groupFrom]
    split
    next far =>
      have stays : joins epsilon opened event = false := by simp [joins, far]
      rw [groupFrom_closed, List.takeWhile_cons_of_neg (by simp [stays]),
        List.dropWhile_cons_of_neg (by simp [stays])]
      simp [closeFrame, grouped]
    next near =>
      have taken : joins epsilon opened event = true := by simp [joins, near]
      rw [ih, List.takeWhile_cons_of_pos taken, List.dropWhile_cons_of_pos taken]
      simp

theorem grouped_cons (epsilon : Float) (first : Event) (rest : List Event) :
    grouped epsilon (first :: rest) =
      ⟨first.t, (first :: rest.takeWhile (joins epsilon first.t)).map Event.action, .empty⟩ ::
        grouped epsilon (rest.dropWhile (joins epsilon first.t)) :=
  groupFrom_eq_cons epsilon first.t [first.action] rest

theorem partitions_grouped (epsilon : Float) : ∀ events, Partitions epsilon events (grouped epsilon events)
  | [] => ⟨nofun, nofun, rfl, by simp [grouped], by simp [grouped], .nil⟩
  | first :: rest => by
    have near : ∀ event ∈ rest.takeWhile (joins epsilon first.t), apart epsilon first.t event.t = false := by
      intro event member
      simpa [joins] using List.mem_takeWhile_imp member
    have far : ∀ next ∈ (rest.dropWhile (joins epsilon first.t)).head?, apart epsilon first.t next.t = true := by
      intro next head
      have stops := List.head?_dropWhile_not (joins epsilon first.t) rest
      rw [head] at stops
      simpa [joins] using stops
    have later := partitions_grouped epsilon (rest.dropWhile (joins epsilon first.t))
    have whole := Partitions.cons near far later
    rw [List.cons_append, List.takeWhile_append_dropWhile] at whole
    rw [grouped_cons]
    exact whole
termination_by events => events.length
decreasing_by
  exact Nat.lt_succ_of_le (List.dropWhile_sublist _).length_le

theorem Partitions.eq_grouped {epsilon : Float} {events : List Event} {frames : List Frame}
    (partitions : Partitions epsilon events frames) : frames = grouped epsilon events := by
  induction frames generalizing events with
  | nil =>
    have none : events = [] := List.map_eq_nil_iff.mp partitions.actions.symm
    rw [none]
    rfl
  | cons frame later ih =>
    obtain ⟨first, near, far, rfl, rfl, joined, parted, rest⟩ := partitions.exists_of_cons
    -- The loop stops where the frame does, at the first event that is left.
    have all : ∀ event ∈ near, joins epsilon first.t event = true := by
      intro event member
      simp [joins, joined event member]
    have stops : far.takeWhile (joins epsilon first.t) = [] ∧ far.dropWhile (joins epsilon first.t) = far := by
      cases far with
      | nil => exact ⟨rfl, rfl⟩
      | cons next _ => simp [joins, parted next rfl]
    rw [List.cons_append, grouped_cons, List.takeWhile_append_of_pos all, List.dropWhile_append_of_pos all,
      stops.1, stops.2, List.append_nil, ih rest]

/-- Events have no frames only if there are none. Otherwise their frames, whatever the times and the tolerance,
are the only ones that take up all events in order, each with the time of its first event and only events near
to that, and each apart from the frame before it. -/
theorem groupEvents_unique_partition (epsilon : Float) :
    (∀ events error, groupEvents epsilon events = .error error ↔ events = []) ∧
    ∀ first rest, ∃ frames, groupEvents epsilon (first :: rest) = .ok frames ∧
      ∀ others, Partitions epsilon (first :: rest) others ↔ others = frames := by
  refine ⟨groupEvents_eq_error_iff epsilon, ?_⟩
  intro first rest
  refine ⟨grouped epsilon (first :: rest), rfl, ?_⟩
  intro others
  constructor
  · exact Partitions.eq_grouped
  · rintro rfl
    exact partitions_grouped epsilon (first :: rest)

/-- The third event is near to the second, but not to the first, which opened the frame. -/
example : groupEvents 1.0 [⟨0.0, 1, .sent⟩, ⟨0.75, 2, .sent⟩, ⟨1.5, 1, .acked⟩] =
    .ok [⟨0.0, [⟨1, .sent⟩, ⟨2, .sent⟩], .empty⟩, ⟨1.5, [⟨1, .acked⟩], .empty⟩] := by decide +kernel

end PacketReplay
