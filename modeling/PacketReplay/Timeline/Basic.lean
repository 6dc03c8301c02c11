import PacketReplay.Capture.Log
import PacketReplay.Timeline.Frame

/-!
# Timelines

A timeline is a list of frames that is not empty, with the keys of the series in them. Nothing is said
about the order of the frames in time; a lookup by time reads the frames from the front.
-/
namespace PacketReplay

structure Timeline where
  frames : List Frame
  seriesKeys : List String
  nonempty : frames ≠ []
  deriving DecidableEq, Repr

namespace Timeline

def ofFrames (frames : List Frame) (seriesKeys : List String) : Except CaptureError Timeline :=
  if empty : frames = [] then .error .noEvents else .ok ⟨frames, seriesKeys, empty⟩

theorem ofFrames_eq_error_iff (frames : List Frame) (seriesKeys : List String) (error : CaptureError) :
    ofFrames frames seriesKeys = .error error ↔ frames = [] := by
  cases error
  unfold ofFrames
  split <;> simp_all

def size (timeline : Timeline) : Nat := timeline.frames.length

theorem size_pos (timeline : Timeline) : 0 < timeline.size :=
  List.length_pos_iff.mpr timeline.nonempty

def lastIndex (timeline : Timeline) : Nat := timeline.size - 1

def frame? (timeline : Timeline) (index : Nat) : Option Frame := timeline.frames[index]?

def firstFrame (timeline : Timeline) : Frame := timeline.frames.head timeline.nonempty
def lastFrame (timeline : Timeline) : Frame := timeline.frames.getLast timeline.nonempty

/-- From the first frame to the last, in seconds. -/
def duration (timeline : Timeline) : Float := timeline.lastFrame.t - timeline.firstFrame.t

/-- Go over frames, of which the first is at `place`, and stop at one that is after the limit. The result is the
place of the last frame that is not, or `index` if there is none. -/
def lastUpTo (limit : Float) (index place : Nat) : List Frame → Nat
  | [] => index
  | frame :: rest => if frame.t ≤ limit then lastUpTo limit place (place + 1) rest else index

/-- The last index of the run of frames at the front that are not after `t`, within the tolerance; the
first frame if there is no such run. -/
def indexAt (timeline : Timeline) (t epsilon : Float) : Nat := lastUpTo (t + epsilon) 0 0 timeline.frames

theorem lastUpTo_eq (limit : Float) (index place : Nat) (frames : List Frame) :
    lastUpTo limit index place frames =
      match (frames.takeWhile fun frame => decide (frame.t ≤ limit)).length with
      | 0 => index
      | count + 1 => place + count := by
  induction frames generalizing index place with
  | nil => rfl
  | cons frame rest ih =>
    rw [lastUpTo, List.takeWhile_cons]
    by_cases within : frame.t ≤ limit
    · rw [if_pos within, if_pos (decide_eq_true within), ih, List.length_cons]
      -- The frame is the last of the run, or a later one is.
      cases (rest.takeWhile fun frame => decide (frame.t ≤ limit)).length with
      | zero => rfl
      | succ count => exact Nat.succ_add_eq_add_succ place count
    · rw [if_neg within, if_neg (mt of_decide_eq_true within)]
      rfl

/-- The answer of the loop without the loop. -/
theorem indexAt_eq_length_takeWhile (timeline : Timeline) (t epsilon : Float) :
    timeline.indexAt t epsilon =
      (timeline.frames.takeWhile fun frame => decide (frame.t ≤ t + epsilon)).length - 1 := by
  rw [indexAt, lastUpTo_eq]
  cases (timeline.frames.takeWhile fun frame => decide (frame.t ≤ t + epsilon)).length with
  | zero => rfl
  | succ count => exact Nat.zero_add count

theorem indexAt_lt_size (timeline : Timeline) (t epsilon : Float) :
    timeline.indexAt t epsilon < timeline.size := by
  have positive := timeline.size_pos
  have shorter := (timeline.frames.takeWhile_prefix fun frame => decide (frame.t ≤ t + epsilon)).length_le
  rw [indexAt_eq_length_takeWhile]
  unfold size at *
  omega

end Timeline
end PacketReplay
