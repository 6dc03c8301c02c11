import PacketReplay.Player.Basic

/-!
# Delays

Between two frames playback waits for the gap between their times, scaled. A gap that is negative or no
number counts as none, and so does a delay that is negative, no number, or `2 ^ 64` seconds and more.
-/
namespace PacketReplay

open Decimal

/-- A time in seconds as whole nanoseconds, rounded half to even. -/
def nanoseconds (seconds : Float) : Nat :=
  match Binary.ofFloat seconds with
  | .finite false mantissa exponent =>
    let rounded := scaledMagnitude mantissa exponent 1000000000
    if rounded < UInt64.size * 1000000000 then rounded else 0
  | _ => 0

/-- The gap from one time to a later one. -/
def gap (earlier later : Float) : Float := if 0.0 < later - earlier then later - earlier else 0.0

/-- The delay for a gap at a scale of milliseconds a second, in nanoseconds. -/
def delayOf (scale earlier later : Float) : Nat := nanoseconds (gap earlier later * scale / 1000.0)

/-- How long playback waits at a frame for the next one, if there is one. -/
def Playhead.delay? (head : Playhead) (scale : Float) : Option Nat :=
  head.next?.map fun next => delayOf scale head.frame.t next.frame.t

theorem Playhead.delay?_eq_none_iff (head : Playhead) (scale : Float) :
    head.delay? scale = none ↔ head.index = head.last := by
  rw [← head.next?_eq_none_iff]
  simp [delay?]

/-- The delay to the next frame in nanoseconds; none at the last frame. -/
def Player.waitTime {η : Type} (player : Player η) : Except PlayerError (Option Nat) :=
  match player.playhead with
  | none => .error .notLoaded
  | some head => .ok (head.delay? player.scale)

end PacketReplay
