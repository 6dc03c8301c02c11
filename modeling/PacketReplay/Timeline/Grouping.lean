import PacketReplay.Capture.Log
import PacketReplay.Timeline.Frame

/-!
# Grouping events into frames

The first event opens the first frame. An event joins the open frame unless it is more than the tolerance
away from the event that opened it, before or after; then it opens the next frame.
-/
namespace PacketReplay

/-- Whether an event is too far from the one that opened the frame. -/
def apart (epsilon opened t : Float) : Bool := decide (epsilon < (t - opened).abs)

/-- A frame from the time of its first event and its actions in reverse. -/
def closeFrame (opened : Float) (actions : List Action) : Frame := ⟨opened, actions.reverse, .empty⟩

/-- Group the events after those of the open frame, which `opened` and the reversed `actions` describe;
`closed` are the frames before it, in reverse. -/
def groupFrom (epsilon : Float) (closed : List Frame) (opened : Float) (actions : List Action) :
    List Event → List Frame
  | [] => (closeFrame opened actions :: closed).reverse
  | event :: rest =>
    if apart epsilon opened event.t then
      groupFrom epsilon (closeFrame opened actions :: closed) event.t [event.action] rest
    else groupFrom epsilon closed opened (event.action :: actions) rest

/-- The frames of a list of events. -/
def groupEvents (epsilon : Float) : List Event → Except CaptureError (List Frame)
  | [] => .error .noEvents
  | first :: rest => .ok (groupFrom epsilon [] first.t [first.action] rest)

theorem groupFrom_closed (epsilon : Float) (closed : List Frame) (opened : Float)
    (actions : List Action) (events : List Event) :
    groupFrom epsilon closed opened actions events =
      closed.reverse ++ groupFrom epsilon [] opened actions events := by
  induction events generalizing closed opened actions with
  | nil => simp [groupFrom]
  | cons event rest ih =>
    simp only [groupFrom]
    split
    · rw [ih (closeFrame opened actions :: closed), ih [closeFrame opened actions]]
      simp
    · exact ih closed opened (event.action :: actions)

theorem groupFrom_ne_nil (epsilon : Float) (closed : List Frame) (opened : Float)
    (actions : List Action) (events : List Event) :
    groupFrom epsilon closed opened actions events ≠ [] := by
  induction events generalizing closed opened actions with
  | nil => simp [groupFrom]
  | cons event rest ih =>
    simp only [groupFrom]
    split <;> exact ih _ _ _

theorem groupEvents_eq_error_iff (epsilon : Float) (events : List Event) (error : CaptureError) :
    groupEvents epsilon events = .error error ↔ events = [] := by
  cases events with
  | nil => cases error; simp [groupEvents]
  | cons first rest => simp [groupEvents]

/-- Grouping loses, adds and moves nothing. -/
theorem flatMap_actions_groupFrom (epsilon : Float) (opened : Float) (actions : List Action)
    (events : List Event) :
    (groupFrom epsilon [] opened actions events).flatMap Frame.actions =
      actions.reverse ++ events.map Event.action := by
  induction events generalizing opened actions with
  | nil => simp [groupFrom, closeFrame]
  | cons event rest ih =>
    simp only [groupFrom]
    split
    · rw [groupFrom_closed]
      simp [closeFrame, ih]
    · simp [ih]

end PacketReplay
