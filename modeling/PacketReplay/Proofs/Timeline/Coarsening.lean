import Mathlib.Logic.Function.Iterate
import PacketReplay.Proofs.Float.Rounding
import PacketReplay.Proofs.Timeline.Partition

/-!
# Coarser frames

A larger tolerance gives no more frames. The frames of the two tolerances are opened by different events, so
neither list of frames refines the other; but the larger tolerance is never behind: what it has not yet taken up
when it opens a frame is a tail of what the smaller one has not yet taken up when it opens the frame of the same
index. One frame keeps that, because an event that is apart from a later time is also apart from an earlier one.
-/
namespace PacketReplay

open Binary64

/-! ### Openings -/

/-- The position, among the events that the frames take up, of the event that opens a frame. -/
def opening (frames : List Frame) (index : Nat) : Nat :=
  ((frames.take index).flatMap Frame.actions).length

/-- The event at a position opens the frame: the frame has its time, and its action first. -/
def Frame.OpenedAt (frame : Frame) (events : List Event) (position : Nat) : Prop :=
  ∃ event, events[position]? = some event ∧ frame.t = event.t ∧ frame.actions.head? = some event.action

/-- The events that a frame opened by the first of them leaves to the frames behind it. -/
def afterFrame (epsilon : Float) : List Event → List Event
  | [] => []
  | first :: rest => rest.dropWhile (joins epsilon first.t)

theorem opening_cons (frame : Frame) (later : List Frame) (index : Nat) :
    opening (frame :: later) (index + 1) = frame.actions.length + opening later index := by
  rw [opening, opening, List.take_succ_cons, List.flatMap_cons, List.length_append]

/-- The frames from an index on are those of the events that are left by then. -/
theorem drop_grouped (epsilon : Float) (events : List Event) (index : Nat) :
    (grouped epsilon events).drop index = grouped epsilon ((afterFrame epsilon)^[index] events) := by
  induction index generalizing events with
  | zero => rfl
  | succ index ih =>
    rw [Function.iterate_succ_apply, ← ih]
    cases events with
    | nil => simp [grouped, afterFrame]
    | cons first rest => rw [grouped_cons, List.drop_succ_cons, afterFrame]

/-- The events that are left begin with the one that opens the frame. -/
theorem drop_opening_grouped (epsilon : Float) (events : List Event) (index : Nat) :
    events.drop (opening (grouped epsilon events) index) = (afterFrame epsilon)^[index] events := by
  induction index generalizing events with
  | zero => rfl
  | succ index ih =>
    rw [Function.iterate_succ_apply]
    cases events with
    | nil => exact List.drop_nil.trans (Function.iterate_fixed rfl index).symm
    | cons first rest =>
      -- The first frame takes up the events that join it, and the frames behind it those that are left.
      have whole : first :: rest.takeWhile (joins epsilon first.t) ++ rest.dropWhile (joins epsilon first.t) =
          first :: rest := by
        rw [List.cons_append, List.takeWhile_append_dropWhile]
      rw [grouped_cons, opening_cons, ← List.drop_drop, ← ih, List.length_map, afterFrame]
      conv_lhs => rw [← whole]
      rw [List.drop_left]

/-- Every frame is opened by the event at its opening. -/
theorem openedAt_grouped {epsilon : Float} {events : List Event} {index : Nat} {frame : Frame}
    (found : (grouped epsilon events)[index]? = some frame) :
    frame.OpenedAt events (opening (grouped epsilon events) index) := by
  have front : (grouped epsilon ((afterFrame epsilon)^[index] events)).head? = some frame := by
    rw [← drop_grouped, List.head?_drop, found]
  have event : events[opening (grouped epsilon events) index]? = ((afterFrame epsilon)^[index] events).head? := by
    rw [← drop_opening_grouped, List.head?_drop]
  rw [Frame.OpenedAt, event]
  -- The frame is the first one of what is left, so it is opened by the first event there.
  generalize (afterFrame epsilon)^[index] events = left at front
  cases left with
  | nil => cases front
  | cons first rest =>
    rw [grouped_cons] at front
    cases front
    exact ⟨first, rfl, rfl, rfl⟩

theorem lt_length_grouped_iff (epsilon : Float) (events : List Event) (index : Nat) :
    index < (grouped epsilon events).length ↔ (afterFrame epsilon)^[index] events ≠ [] := by
  rw [← not_le, ← List.drop_eq_nil_iff, drop_grouped, not_iff_not]
  constructor
  · intro none
    by_contra some
    exact grouped_ne_nil some none
  · intro none
    rw [none]
    rfl

/-! ### Tails -/

/-- Dropping from the front stops before a tail that begins with something to be kept. -/
theorem suffix_dropWhile {α : Type} {drops : α → Bool} {tail items : List α} (suffix : tail <:+ items)
    (kept : ∀ item ∈ tail.head?, drops item = false) : tail <:+ items.dropWhile drops := by
  obtain ⟨front, rfl⟩ := suffix
  -- By induction on what stands before the tail: its items are dropped, or one of them stops the dropping.
  induction front with
  | nil =>
    cases tail with
    | nil => exact List.nil_suffix
    | cons item rest => rw [List.nil_append, List.dropWhile_cons_of_neg (by simp [kept item rfl])]
  | cons item front ih =>
    rw [List.cons_append, List.dropWhile_cons]
    split
    · exact ih
    · exact List.suffix_append (item :: front) tail

/-- Events with finite times that do not go back. -/
structure Chronological (events : List Event) : Prop where
  finite : ∀ event ∈ events, event.t.isFinite = true
  ordered : events.Pairwise fun earlier later => earlier.t ≤ later.t

theorem Chronological.of_suffix {events tail : List Event} (chronological : Chronological events)
    (suffix : tail <:+ events) : Chronological tail :=
  ⟨fun event member => chronological.finite event (suffix.subset member),
    chronological.ordered.sublist suffix.sublist⟩

/-! ### Two tolerances -/

section Tolerances

variable {fine coarse : Float} (larger : fine ≤ coarse)

include larger

/-- What is apart from a time by the larger tolerance is apart from every earlier time by the smaller one. -/
theorem apart_of_apart {earlier opened t : Float} (finiteEarlier : earlier.isFinite = true)
    (finiteOpened : opened.isFinite = true) (finite : t.isFinite = true) (before : earlier ≤ opened)
    (ordered : opened ≤ t) (far : apart coarse opened t = true) : apart fine earlier t = true := by
  have exceeds : coarse < (t - opened).abs := of_decide_eq_true far
  have wider := gap_le_gap finiteEarlier finiteOpened finite before ordered
  have isTolerance := (isNumber_of_le larger).1
  have isGap := (isNumber_of_le wider).2
  apply decide_eq_true
  rw [lt_iff_units isTolerance isGap]
  calc units fine
      ≤ units coarse := units_le_of_le larger
    _ < units (t - opened).abs := units_lt_of_lt exceeds
    _ ≤ units (t - earlier).abs := units_le_of_le wider

/-- A frame that is opened no earlier, with the larger tolerance, leaves no more events. -/
theorem afterFrame_suffix_afterFrame {events tail : List Event} (chronological : Chronological events)
    (suffix : tail <:+ events) : afterFrame coarse tail <:+ afterFrame fine events := by
  cases tail with
  | nil => exact List.nil_suffix
  | cons late rest =>
    cases events with
    | nil => cases List.suffix_nil.mp suffix
    | cons early others =>
      have tailChronological := chronological.of_suffix suffix
      obtain ⟨finiteEarly, _⟩ := List.forall_mem_cons.mp chronological.finite
      obtain ⟨finiteLate, finiteRest⟩ := List.forall_mem_cons.mp tailChronological.finite
      obtain ⟨ahead, _⟩ := List.pairwise_cons.mp chronological.ordered
      obtain ⟨behind, _⟩ := List.pairwise_cons.mp tailChronological.ordered
      -- The tail is opened by the same event or by one of those behind it.
      obtain ⟨before, inside⟩ : early.t ≤ late.t ∧ rest <:+ others := by
        rcases List.suffix_cons_iff.mp suffix with same | inside
        · cases same
          exact ⟨le_self_of_finite finiteEarly, List.suffix_rfl⟩
        · exact ⟨ahead late (inside.subset List.mem_cons_self), (List.suffix_cons late rest).trans inside⟩
      -- So what opens the next frame of the larger tolerance does not join the frame of the smaller one.
      apply suffix_dropWhile ((List.dropWhile_suffix _).trans inside)
      intro next head
      have member : next ∈ rest := (List.dropWhile_suffix _).subset (List.mem_of_head? head)
      have stops := List.head?_dropWhile_not (joins coarse late.t) rest
      rw [head] at stops
      have far : apart coarse late.t next.t = true := by simpa [joins] using stops
      have farther := apart_of_apart larger finiteEarly finiteLate (finiteRest next member) before
        (behind next member) far
      simp [joins, farther]

/-- The larger tolerance is never behind. -/
theorem iterate_afterFrame_suffix {events : List Event} (chronological : Chronological events) (index : Nat) :
    (afterFrame coarse)^[index] events <:+ (afterFrame fine)^[index] events := by
  induction index with
  | zero => exact List.suffix_rfl
  | succ index ih =>
    rw [Function.iterate_succ_apply', Function.iterate_succ_apply']
    have left : Chronological ((afterFrame fine)^[index] events) := by
      rw [← drop_opening_grouped]
      exact chronological.of_suffix (List.drop_suffix _ _)
    exact afterFrame_suffix_afterFrame larger left ih

theorem opening_le_opening {events : List Event} (chronological : Chronological events) {index : Nat}
    (inside : index < (grouped coarse events).length) :
    opening (grouped fine events) index ≤ opening (grouped coarse events) index := by
  have some := (lt_length_grouped_iff coarse events index).mp inside
  -- Both openings are what the whole list has and what is left by then has not.
  have fewer := (iterate_afterFrame_suffix larger chronological index).length_le
  have positive := List.length_pos_iff.mpr some
  rw [← drop_opening_grouped, ← drop_opening_grouped, List.length_drop, List.length_drop] at fewer
  rw [← drop_opening_grouped, List.length_drop] at positive
  omega

end Tolerances

/-- With a larger tolerance, events in order of time have no more frames, and the frame of an index is opened by
the same event or by a later one. The smaller tolerance need not even be an amount. -/
theorem groupEvents_coarser {fine coarse : Float} {events : List Event} (some : events ≠ [])
    (chronological : Chronological events) (larger : fine ≤ coarse) :
    ∃ many few, groupEvents fine events = .ok many ∧ groupEvents coarse events = .ok few ∧
      few.length ≤ many.length ∧
      ∀ index late, few[index]? = .some late → ∃ early, many[index]? = .some early ∧
        late.OpenedAt events (opening few index) ∧ early.OpenedAt events (opening many index) ∧
        opening many index ≤ opening few index := by
  refine ⟨grouped fine events, grouped coarse events, groupEvents_eq_ok some, groupEvents_eq_ok some, ?_⟩
  -- What the coarse grouping has left to open after some frames is a suffix of what the fine one has left.
  have reaches : ∀ index < (grouped coarse events).length, index < (grouped fine events).length := by
    intro index inside
    rw [lt_length_grouped_iff] at inside ⊢
    intro none
    have tail := iterate_afterFrame_suffix larger chronological index
    rw [none, List.suffix_nil] at tail
    exact inside tail
  constructor
  · by_contra more
    exact lt_irrefl _ (reaches _ (not_le.mp more))
  · intro index late found
    have inside := (List.getElem?_eq_some_iff.mp found).1
    have there := List.getElem?_eq_getElem (reaches index inside)
    exact ⟨_, there, openedAt_grouped found, openedAt_grouped there,
      opening_le_opening larger chronological inside⟩

/-- Neither list of frames refines the other: the event at three seconds opens a frame only with the smaller
tolerance, the one at five seconds only with the larger. -/
theorem groupEvents_coarser_straddling :
    let events : List Event := [⟨0.0, 1, .sent⟩, ⟨2.0, 2, .sent⟩, ⟨3.0, 1, .acked⟩, ⟨5.0, 2, .acked⟩]
    Chronological events ∧ (2.0 : Float) ≤ 3.0 ∧
    opening (grouped 2.0 events) 1 = 2 ∧ opening (grouped 3.0 events) 1 = 3 ∧
    ∃ many few, groupEvents 2.0 events = .ok many ∧ groupEvents 3.0 events = .ok few ∧
      few.length ≤ many.length ∧
      ∀ index late, few[index]? = some late → ∃ early, many[index]? = some early ∧
        late.OpenedAt events (opening few index) ∧ early.OpenedAt events (opening many index) ∧
        opening many index ≤ opening few index := by
  intro events
  have chronological : Chronological events := ⟨by decide +kernel, by decide +kernel⟩
  have larger : (2.0 : Float) ≤ 3.0 := by decide +kernel
  refine ⟨chronological, larger, by decide +kernel, by decide +kernel, ?_⟩
  exact groupEvents_coarser (List.cons_ne_nil _ _) chronological larger

end PacketReplay
