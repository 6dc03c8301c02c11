import PacketReplay.Capture.Record

/-!
# Frames

A frame is the smallest step of a replay: what happened at one moment, and the value of each series then.
-/
namespace PacketReplay

/-- One event of a frame. -/
structure Action where
  source : UInt64
  reason : Reason
  deriving DecidableEq, Repr

/-- The values of the series at a moment, by key. -/
abbrev Metrics := OrderedMap String UInt64

/-- The actions at `t` seconds. A series without a sample up to then has no entry in `metrics`. -/
structure Frame where
  t : Float
  actions : List Action
  metrics : Metrics
  deriving DecidableEq, Repr

def Event.action (event : Event) : Action := ⟨event.source, event.reason⟩

/-- The frame with the value of one more series. -/
def Frame.withMetric (frame : Frame) (key : String) (value : UInt64) : Frame :=
  { frame with metrics := frame.metrics.insert key value }

end PacketReplay
