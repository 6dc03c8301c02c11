import PacketReplay.Screen.Effect

/-!
# Screens

A screen keeps count: how many instances of a marker are shown, and how often each flag was set on it. What
was added twice is there until it has been taken away twice. A marker without instances and flags has no
entry, and neither has a flag that is not set, so screens that show the same are equal. An effect that takes
away what is not there is refused and changes nothing.
-/
namespace PacketReplay

open Text (decimalText)

/-- What is shown for one packet. -/
structure Marker where
  instances : Nat
  flags : OrderedMap Reason Nat
  deriving DecidableEq, Repr

/-- An effect referred to a marker or flag that is not there. A marker is referred to by the token of
`Reason.sent`. -/
structure Refusal where
  id : UInt64
  reason : String
  deriving DecidableEq, Repr

def Refusal.message (refusal : Refusal) : String :=
  "unknown marker reference: id=" ++ decimalText refusal.id.toNat ++ " reason=" ++ refusal.reason

namespace Marker

/-- Neither instances nor flags. -/
def bare : Marker := ⟨0, .empty⟩

def isBare (marker : Marker) : Bool := decide (marker.instances = 0) && marker.flags.isEmpty

def isShown (marker : Marker) : Bool := decide (0 < marker.instances)

def isFlagged (marker : Marker) (reason : Reason) : Bool :=
  decide (0 < (marker.flags.get? reason).getD 0)

/-- There is an entry for the flag, which is enough to take the flag away once. -/
def hasFlag (marker : Marker) (reason : Reason) : Bool := (marker.flags.get? reason).isSome

/-- The marker as an entry: a bare one has none. -/
def unlessBare (marker : Marker) : Option Marker := if marker.isBare then none else some marker

def addInstance (marker : Marker) : Marker := { marker with instances := marker.instances + 1 }

def removeInstance (marker : Marker) : Marker := { marker with instances := marker.instances - 1 }

def addFlag (marker : Marker) (reason : Reason) : Marker :=
  { marker with flags := marker.flags.alter reason OrderedMap.oneMore }

def removeFlag (marker : Marker) (reason : Reason) : Marker :=
  { marker with flags := marker.flags.alter reason fun count => OrderedMap.positive? (count.getD 0 - 1) }

end Marker

structure Screen where
  markers : OrderedMap UInt64 Marker
  readout : Option Readout
  deriving DecidableEq, Repr

namespace Screen

def empty : Screen := ⟨.empty, none⟩

instance : Inhabited Screen := ⟨empty⟩

def marker? (screen : Screen) (id : UInt64) : Option Marker := screen.markers.get? id

/-- The packets with a marker that has instances. -/
def visible (screen : Screen) : List UInt64 :=
  (screen.markers.entries.filter fun entry => entry.2.isShown).map (·.1)

/-- Change the marker of a packet; a packet without an entry has a bare one. -/
def change (screen : Screen) (id : UInt64) (change : Marker → Marker) : Screen :=
  { screen with markers := screen.markers.alter id fun marker => (change (marker.getD .bare)).unlessBare }

def apply (screen : Screen) : Effect → Except Refusal Screen
  | .clear => .ok empty
  | .addMarker id => .ok (screen.change id Marker.addInstance)
  | .removeMarker id =>
    if ((screen.marker? id).getD .bare).isShown then .ok (screen.change id Marker.removeInstance)
    else .error ⟨id, Reason.sent.token⟩
  | .addFlag id reason => .ok (screen.change id fun marker => marker.addFlag reason)
  | .removeFlag id reason =>
    if ((screen.marker? id).getD .bare).hasFlag reason then
      .ok (screen.change id fun marker => marker.removeFlag reason)
    else .error ⟨id, reason.token⟩
  | .readout readout => .ok { screen with readout := some readout }

/-- Whether the effect would be accepted: what is taken away is there. -/
def accepts (screen : Screen) : Effect → Bool
  | .removeMarker id => ((screen.marker? id).getD .bare).isShown
  | .removeFlag id reason => ((screen.marker? id).getD .bare).hasFlag reason
  | _ => true

theorem apply_isOk_iff (screen : Screen) (effect : Effect) :
    (∃ after, screen.apply effect = .ok after) ↔ screen.accepts effect = true := by
  cases effect <;> simp only [apply, accepts] <;> (try split) <;> simp_all

end Screen
end PacketReplay
