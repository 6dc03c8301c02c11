import PacketReplay.Timeline.Basic

/-!
# Summaries

What a timeline amounts to: how many frames, actions and packets, how often each reason, and the last
values of the series.
-/
namespace PacketReplay

structure Summary where
  frames : Nat
  actions : Nat
  /-- The number of different packets. -/
  sources : Nat
  duration : Float
  /-- How often each reason occurs, by its token. -/
  perReason : OrderedMap String Nat
  finalMetrics : Metrics
  deriving DecidableEq, Repr

/-- All actions of a timeline, in order. -/
def Timeline.actions (timeline : Timeline) : List Action := timeline.frames.flatMap Frame.actions

def Timeline.summary (timeline : Timeline) : Summary where
  frames := timeline.size
  actions := timeline.actions.length
  sources := (OrderedMap.tally (timeline.actions.map Action.source)).size
  duration := timeline.duration
  perReason := OrderedMap.tally (timeline.actions.map fun action => action.reason.token)
  finalMetrics := timeline.lastFrame.metrics

def Summary.count (summary : Summary) (reason : Reason) : Nat :=
  (summary.perReason.get? reason.token).getD 0

/-- How many more packets were sent than acknowledged, if more were. -/
def Summary.unacked (summary : Summary) : Nat := summary.count .sent - summary.count .acked

end PacketReplay
