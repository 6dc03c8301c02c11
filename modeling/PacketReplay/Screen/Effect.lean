import PacketReplay.Decimal.Style
import PacketReplay.Timeline.Frame

/-!
# Effects

A replay does not draw. It tells whoever draws what to add and what to take away: a marker for a packet that
was sent, a flag on a packet for every other reason, and the numbers of the current frame. An effect is
shown as one line of text.
-/
namespace PacketReplay

open Text (decimalText)

/-- The numbers of a frame: its index, its time and the values of the series. -/
structure Readout where
  index : Nat
  t : Float
  metrics : Metrics
  deriving DecidableEq, Repr

inductive Effect where
  /-- Take away everything. -/
  | clear
  | addMarker (id : UInt64)
  | removeMarker (id : UInt64)
  | addFlag (id : UInt64) (reason : Reason)
  | removeFlag (id : UInt64) (reason : Reason)
  | readout (readout : Readout)
  deriving DecidableEq, Repr

/-- The readout of the frame at an index. -/
def Frame.readout (frame : Frame) (index : Nat) : Effect := .readout ⟨index, frame.t, frame.metrics⟩

/-- What an action adds: a marker if the packet was sent, a flag otherwise. -/
def Action.added (action : Action) : Effect :=
  if action.reason = .sent then .addMarker action.source else .addFlag action.source action.reason

/-- What takes an action back. -/
def Action.removed (action : Action) : Effect :=
  if action.reason = .sent then .removeMarker action.source
  else .removeFlag action.source action.reason

/-- The text of metrics, with a blank in front of each item. -/
def Metrics.text (metrics : Metrics) : String :=
  String.join (metrics.entries.map fun entry => " " ++ entry.1 ++ "=" ++ decimalText entry.2.toNat)

/-- The time of a readout has six places. -/
def Readout.text (readout : Readout) : String :=
  "@ " ++ decimalText readout.index ++ " t=" ++ String.ofList (Decimal.fixedText 6 readout.t) ++
    readout.metrics.text

def Effect.text : Effect → String
  | clear => "clear"
  | addMarker id => "+ " ++ decimalText id.toNat
  | removeMarker id => "- " ++ decimalText id.toNat
  | addFlag id reason => "+ " ++ decimalText id.toNat ++ " " ++ reason.token
  | removeFlag id reason => "- " ++ decimalText id.toNat ++ " " ++ reason.token
  | readout shown => shown.text

end PacketReplay
