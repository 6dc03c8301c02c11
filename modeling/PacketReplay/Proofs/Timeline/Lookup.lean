import Mathlib.Data.List.Chain
import PacketReplay.Proofs.Float.Rounding
import PacketReplay.Proofs.Player.PathIndependence
import PacketReplay.Proofs.Settings.Validity
import PacketReplay.Proofs.Timeline.Series
import PacketReplay.Program.Outcome
import PacketReplay.Timeline.OfCapture

/-!
# Looking up the times of frames

Grouping compares the distance of two times with the tolerance, a lookup compares the sum of a time and the
tolerance with another time. Both are rounded, so they need not agree: where the exact distance of two frames
is more than the tolerance by less than half a unit in the last place, the sum can be rounded up to the time
of the later frame. A lookup of the time of a frame then leads one frame too far, and never farther.
-/
namespace PacketReplay

open Binary64

/-- The time of an event that opens a frame after one that was opened at `opened`. -/
structure Opens (epsilon opened t : Float) : Prop where
  ordered : opened ≤ t
  apart : apart epsilon opened t = true

/-- Each frame opens after the one before. -/
def Timeline.Spread (timeline : Timeline) (epsilon : Float) : Prop :=
  timeline.frames.IsChain fun frame next => Opens epsilon frame.t next.t

/-! ### Grouping -/

theorem isChain_groupFrom (epsilon : Float) {opened : Float} (actions : List Action) {events : List Event}
    (ordered : (opened :: events.map Event.t).Pairwise (· ≤ ·)) :
    ∃ later, (groupFrom epsilon [] opened actions events).map Frame.t = opened :: later ∧
      (opened :: later).IsChain (Opens epsilon) := by
  induction events generalizing opened actions with
  | nil => exact ⟨[], rfl, .singleton opened⟩
  | cons event rest ih =>
    obtain ⟨first, later⟩ := List.pairwise_cons.mp ordered
    simp only [groupFrom]
    split
    next far =>
      obtain ⟨times, grouped, chain⟩ := ih [event.action] later
      refine ⟨event.t :: times, ?_, ?_⟩
      · rw [groupFrom_closed, List.map_append, grouped]
        rfl
      · exact List.isChain_cons_cons.mpr ⟨⟨first event.t List.mem_cons_self, far⟩, chain⟩
    next =>
      -- The event joins the open frame, and the time of that is unchanged.
      apply ih
      exact List.pairwise_cons.mpr ⟨fun t member => first t (List.mem_cons_of_mem _ member),
        (List.pairwise_cons.mp later).2⟩

theorem Capture.spread_timeline {capture : Capture} {epsilon : Float} {timeline : Timeline}
    (ordered : capture.events.Pairwise fun earlier later => earlier.t ≤ later.t)
    (built : capture.timeline epsilon = .ok timeline) : timeline.Spread epsilon := by
  obtain ⟨frames, grouped, aligned⟩ := Capture.frames_of_timeline built
  -- Only the times matter, and aligning the series leaves them as they are.
  rw [Timeline.Spread, aligned, ← List.isChain_map Frame.t,
    map_view_alignAll Frame.t fun _ _ _ => rfl]
  cases found : capture.events with
  | nil =>
    rw [found] at grouped
    cases grouped
  | cons first rest =>
    rw [found] at ordered grouped
    cases grouped
    obtain ⟨later, times, chain⟩ := isChain_groupFrom epsilon [first.action] (List.pairwise_map.mpr ordered)
    rw [times]
    exact chain

/-- The end of the tolerance of a frame is not after the next frame. -/
theorem Opens.units {epsilon opened t : Float} (amount : isAmount epsilon = true)
    (opens : Opens epsilon opened t) : units (opened + epsilon) ≤ units t ∧ units opened < units t := by
  obtain ⟨finite, nonneg⟩ := isAmount_iff_units.mp amount
  exact add_units_le_of_apart finite nonneg opens.ordered (of_decide_eq_true opens.apart)

/-! ### Lookup -/

namespace Timeline

variable {timeline : Timeline} {epsilon : Float} {index : Nat} {frame : Frame}

theorem lt_size_of_frame? (here : timeline.frame? index = some frame) : index < timeline.size :=
  (List.getElem?_eq_some_iff.mp here).1

theorem exists_frame? (inside : index < timeline.size) : ∃ frame, timeline.frame? index = some frame :=
  ⟨_, List.getElem?_eq_getElem inside⟩

/-- A lookup finds the frame before the first one that is too late. -/
theorem indexAt_eq {t : Float} (inside : index < timeline.size)
    (upTo : ∀ earlier ≤ index, ∀ past, timeline.frame? earlier = some past → past.t ≤ t + epsilon)
    (beyond : ∀ next, timeline.frame? (index + 1) = some next → ¬next.t ≤ t + epsilon) :
    timeline.indexAt t epsilon = index := by
  have front : ∀ past ∈ timeline.frames.take (index + 1), decide (past.t ≤ t + epsilon) = true := by
    intro past member
    obtain ⟨earlier, found⟩ := List.mem_iff_getElem?.mp member
    rw [List.getElem?_take] at found
    split at found
    · exact decide_eq_true (upTo earlier (by omega) past found)
    · cases found
  -- The run at the front is the frames up to the index, and stops there.
  have stops : (timeline.frames.drop (index + 1)).takeWhile (fun past => decide (past.t ≤ t + epsilon)) = [] := by
    cases dropped : timeline.frames.drop (index + 1) with
    | nil => rfl
    | cons next later =>
      have found : timeline.frame? (index + 1) = some next := by
        rw [frame?, ← List.head?_drop, dropped]
        rfl
      simp [beyond next found]
  rw [indexAt_eq_length_takeWhile, ← List.take_append_drop (index + 1) timeline.frames,
    List.takeWhile_append_of_pos front, stops]
  have length : timeline.frames.length = timeline.size := rfl
  simp only [List.append_nil, List.length_take, length]
  omega

theorem Spread.opens (spread : timeline.Spread epsilon) {next : Frame}
    (here : timeline.frame? index = some frame) (after : timeline.frame? (index + 1) = some next) :
    Opens epsilon frame.t next.t := by
  obtain ⟨_, rfl⟩ := List.getElem?_eq_some_iff.mp here
  obtain ⟨inside, rfl⟩ := List.getElem?_eq_some_iff.mp after
  exact List.isChain_iff_getElem.mp spread index inside

/-- A frame that is not the only one has a number for its time. -/
theorem Spread.isNumber (spread : timeline.Spread epsilon) (several : 1 < timeline.size)
    (here : timeline.frame? index = some frame) : IsNumber frame.t := by
  have inside := lt_size_of_frame? here
  cases index with
  | zero =>
    obtain ⟨next, after⟩ := exists_frame? several
    exact (isNumber_of_le (spread.opens here after).ordered).1
  | succ before =>
    obtain ⟨past, found⟩ := exists_frame? (Nat.lt_of_succ_lt inside)
    exact (isNumber_of_le (spread.opens found here).ordered).2

section Tolerance

variable (amount : isAmount epsilon = true)

include amount

theorem Spread.units_lt (spread : timeline.Spread epsilon) {later : ℕ} {next : Frame} (after : index < later)
    (here : timeline.frame? index = some frame) (there : timeline.frame? later = some next) :
    units frame.t < units next.t := by
  have steps : timeline.frames.IsChain fun frame next => units frame.t < units next.t :=
    spread.imp fun _ _ opens => (opens.units amount).2
  have transitive : IsTrans Frame fun frame next => units frame.t < units next.t := ⟨fun _ _ _ => lt_trans⟩
  obtain ⟨_, rfl⟩ := List.getElem?_eq_some_iff.mp here
  obtain ⟨_, rfl⟩ := List.getElem?_eq_some_iff.mp there
  exact List.pairwise_iff_getElem.mp steps.pairwise _ _ _ _ after

/-- A frame and those before it are within the tolerance of its time. -/
theorem Spread.le_add (spread : timeline.Spread epsilon) (several : 1 < timeline.size) {earlier : ℕ} {past : Frame}
    (before : earlier ≤ index) (there : timeline.frame? earlier = some past)
    (here : timeline.frame? index = some frame) : past.t ≤ frame.t + epsilon := by
  obtain ⟨finite, nonneg⟩ := isAmount_iff_units.mp amount
  obtain ⟨isSum, atMost⟩ := units_le_add finite nonneg (spread.isNumber several here)
  rw [le_iff_units (spread.isNumber several there) isSum]
  rcases before.lt_or_eq with less | rfl
  · exact (spread.units_lt amount less there here).le.trans atMost
  · rw [there] at here
    cases here
    exact atMost

/-- A lookup of the time of a frame leads to the frame if the sum of the time and the tolerance is before the
next one; if not, the sum is the time of the next one, and the lookup leads there. -/
theorem Spread.indexAt_frame (spread : timeline.Spread epsilon) (here : timeline.frame? index = some frame) :
    (timeline.indexAt frame.t epsilon = index ∧
      ∀ next, timeline.frame? (index + 1) = some next → frame.t + epsilon < next.t) ∨
    (timeline.indexAt frame.t epsilon = index + 1 ∧
      ∃ next, timeline.frame? (index + 1) = some next ∧
        next.t ≤ frame.t + epsilon ∧ frame.t + epsilon ≤ next.t) := by
  obtain ⟨finite, nonneg⟩ := isAmount_iff_units.mp amount
  have inside := lt_size_of_frame? here
  by_cases several : 1 < timeline.size
  · have isSum := (units_le_add finite nonneg (spread.isNumber several here)).1
    by_cases reached : ∃ next, timeline.frame? (index + 1) = some next ∧ next.t ≤ frame.t + epsilon
    · right
      obtain ⟨next, after, within⟩ := reached
      have sum := ((spread.opens here after).units amount).1
      refine ⟨?_, next, after, within, (le_iff_units isSum (spread.isNumber several after)).mpr sum⟩
      apply indexAt_eq (lt_size_of_frame? after)
      · intro earlier upTo past there
        rcases Nat.lt_or_eq_of_le upTo with less | rfl
        · exact spread.le_add amount several (Nat.le_of_lt_succ less) there here
        · rw [after] at there
          cases there
          exact within
      · -- The frame after the next one is after that, and so after the sum.
        intro last there stillWithin
        have later := ((spread.opens after there).units amount).2
        have reaches := units_le_of_le stillWithin
        omega
    · left
      have missed : ∀ next, timeline.frame? (index + 1) = some next → ¬next.t ≤ frame.t + epsilon :=
        fun next after within => reached ⟨next, after, within⟩
      refine ⟨indexAt_eq inside ?_ missed, ?_⟩
      · exact fun earlier upTo past there => spread.le_add amount several upTo there here
      · intro next after
        have isNext := spread.isNumber several after
        rw [lt_iff_units isSum isNext, ← not_le, ← le_iff_units isNext isSum]
        exact missed next after
  · -- The only frame is where every lookup leads, even if its time is no number.
    left
    have found := timeline.indexAt_lt_size frame.t epsilon
    refine ⟨by omega, ?_⟩
    intro next after
    have second := lt_size_of_frame? after
    omega

end Tolerance

end Timeline

/-! ### Jumps -/

/-- A player on a screen jumps to where the lookup leads. -/
theorem Player.seek_screen (player : Player Screen) {head : Playhead} (shown : player.playhead = some head)
    (t : Float) : (player.seek t).1 = .ok (head.timeline.indexAt t player.epsilon) := by
  have delivered := Screen.deliver_of_applyAll
    (Screen.applyAll_replay player.host (head.atTime t player.epsilon))
  have accepted : (deliver false player.host (head.atTime t player.epsilon).replay).refusal = none := by
    rw [delivered]
  simp only [Player.seek, shown]
  rw [Player.move_of_accepted accepted]
  rfl

/-- A jump to the time of a frame, with the tolerance of the grouping, leads to the frame exactly if the sum of
the time and the tolerance is before the next frame. If not, the sum was rounded up to the time of the next
frame, and the jump leads there. -/
theorem Player.seek_frame_time {capture : Capture} {epsilon : Float} {player : Player Screen} {head : Playhead}
    {index : Nat} {frame : Frame}
    (ordered : capture.events.Pairwise fun earlier later => earlier.t ≤ later.t)
    (amount : isAmount epsilon = true) (built : capture.timeline epsilon = .ok head.timeline)
    (shown : player.playhead = some head) (here : head.timeline.frame? index = some frame) :
    (((player.withEpsilon epsilon).seek frame.t).1 = .ok index ∧
      ∀ next, head.timeline.frame? (index + 1) = some next → frame.t + epsilon < next.t) ∨
    (((player.withEpsilon epsilon).seek frame.t).1 = .ok (index + 1) ∧
      ∃ next, head.timeline.frame? (index + 1) = some next ∧
        next.t ≤ frame.t + epsilon ∧ frame.t + epsilon ≤ next.t) := by
  have tolerance : (player.withEpsilon epsilon).epsilon = epsilon := if_pos amount
  have answer := (player.withEpsilon epsilon).seek_screen shown frame.t
  rw [tolerance] at answer
  rcases (Capture.spread_timeline ordered built).indexAt_frame amount here with ⟨lands, before⟩ | ⟨passes, next⟩
  · exact .inl ⟨by rw [answer, lands], before⟩
  · exact .inr ⟨by rw [answer, passes], next⟩

/-- An event at two seconds and one a microsecond later. Their distance in binary is a little more than the
microsecond in binary, by less than half a unit in the last place of either time. -/
def closeEventsLog : String :=
  unlines ["quack_log Instant \x7b tv_sec: 0, tv_nsec: 0 \x7d 1 (sent)",
    "quack_log Instant \x7b tv_sec: 2, tv_nsec: 0 \x7d 2 (sent)",
    "quack_log Instant \x7b tv_sec: 2, tv_nsec: 1000 \x7d 3 (sent)"]

def Capture.closeEvents : Capture :=
  ⟨[⟨0.0, 1, .sent⟩, ⟨2.0, 2, .sent⟩, ⟨2.000001, 3, .sent⟩], [⟨"cwnd", []⟩, ⟨"bytes_in_flight", []⟩], 0.0, 0⟩

def Timeline.closeEvents : Timeline :=
  ⟨[⟨0.0, [⟨1, .sent⟩], .empty⟩, ⟨2.0, [⟨2, .sent⟩], .empty⟩, ⟨2.000001, [⟨3, .sent⟩], .empty⟩],
    ["cwnd", "bytes_in_flight"], by simp⟩

theorem Capture.timeline_closeEvents : Capture.closeEvents.timeline 1e-6 = .ok .closeEvents := by decide +kernel

theorem Player.seek_frame_time_closeEvents :
    let player := ((Player.new Screen.empty).load .closeEvents).2
    (Capture.closeEvents.events.Pairwise fun earlier later => earlier.t ≤ later.t) ∧
    Capture.closeEvents.timeline 1e-6 = .ok .closeEvents ∧ ((player.withEpsilon 1e-6).seek 0.0).1 = .ok 0 := by
  intro player
  have ordered : Capture.closeEvents.events.Pairwise fun earlier later => earlier.t ≤ later.t := by
    decide +kernel
  refine ⟨ordered, Capture.timeline_closeEvents, ?_⟩
  have shown : player.playhead = some (.start .closeEvents) := by decide +kernel
  have here : Timeline.closeEvents.frame? 0 = some ⟨0.0, [⟨1, .sent⟩], .empty⟩ := rfl
  rcases Player.seek_frame_time ordered (by decide +kernel) Capture.timeline_closeEvents shown here with
    ⟨lands, _⟩ | ⟨_, next, after, within, _⟩
  · exact lands
  · -- The next frame is two seconds later.
    cases after
    exact absurd within (by decide +kernel)

/-- A log with its events in order, whose frame at two seconds is passed by a jump to its own time. -/
theorem Player.seek_closeEvents_passes :
    let player := ((Player.new Screen.empty).load .closeEvents).2
    Capture.ofText closeEventsLog ["cwnd", "bytes_in_flight"] = .ok .closeEvents ∧
    (Capture.closeEvents.events.Pairwise fun earlier later => earlier.t ≤ later.t) ∧
    isAmount 1e-6 = true ∧ Capture.closeEvents.timeline 1e-6 = .ok .closeEvents ∧
    (Timeline.closeEvents.frame? 1).map Frame.t = some 2.0 ∧
    ((player.withEpsilon 1e-6).seek 2.0).1 = .ok 2 := by
  refine ⟨?_, ?_, ?_, Capture.timeline_closeEvents, ?_, ?_⟩ <;> decide +kernel

end PacketReplay
