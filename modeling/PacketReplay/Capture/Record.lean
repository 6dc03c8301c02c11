import PacketReplay.Capture.Instant
import PacketReplay.Capture.Reason

/-!
# What a capture records

Events say which packet something happened to, when and why; a series samples one number over time.
-/
namespace PacketReplay

/-- An event of the packet with the identifier `source`, at `t` seconds. -/
structure Event where
  t : Float
  source : UInt64
  reason : Reason
  deriving DecidableEq, Repr

structure Sample where
  t : Float
  value : UInt64
  deriving DecidableEq, Repr

/-- The samples of one key, in the order of the capture. -/
structure Series where
  key : String
  samples : List Sample
  deriving DecidableEq, Repr

/-- The event with its time counted from `origin`. -/
def Event.since (origin : Float) (event : Event) : Event := { event with t := event.t - origin }

/-- The sample with its time counted from `origin`. -/
def Sample.since (origin : Float) (sample : Sample) : Sample := { sample with t := sample.t - origin }

end PacketReplay
