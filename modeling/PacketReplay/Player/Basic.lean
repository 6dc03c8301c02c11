import PacketReplay.Player.Host
import PacketReplay.Settings.Basic
import PacketReplay.Timeline.Basic

/-!
# Players

A player walks over the frames of a timeline and tells its host what to add and take away. A step forward
adds a frame, a step backward takes it away in reverse order, and a jump starts from nothing. Whenever the
host refuses an effect, the player stays where it is and shows the host all frames up to there once more.
-/
namespace PacketReplay

open Text (decimalText)

/-- A frame of a timeline. -/
structure Playhead where
  timeline : Timeline
  index : Nat
  inside : index < timeline.size
  deriving DecidableEq, Repr

namespace Playhead

def start (timeline : Timeline) : Playhead := ⟨timeline, 0, timeline.size_pos⟩

def frame (head : Playhead) : Frame := head.timeline.frames.get ⟨head.index, head.inside⟩

def last (head : Playhead) : Nat := head.timeline.lastIndex

/-- The next frame, unless this is the last. -/
def next? (head : Playhead) : Option Playhead :=
  if inside : head.index + 1 < head.timeline.size then some ⟨head.timeline, head.index + 1, inside⟩
  else none

/-- The frame before, unless this is the first. -/
def previous? (head : Playhead) : Option Playhead :=
  match head with
  | ⟨_, 0, _⟩ => none
  | ⟨timeline, index + 1, inside⟩ => some ⟨timeline, index, Nat.lt_of_succ_lt inside⟩

/-- The frame at an index, if there is one. -/
def at? (head : Playhead) (index : Nat) : Option Playhead :=
  if inside : index < head.timeline.size then some ⟨head.timeline, index, inside⟩ else none

/-- The frame that a lookup by time leads to. -/
def atTime (head : Playhead) (t epsilon : Float) : Playhead :=
  ⟨head.timeline, head.timeline.indexAt t epsilon, head.timeline.indexAt_lt_size t epsilon⟩

theorem index_le_last (head : Playhead) : head.index ≤ head.last := by
  have inside := head.inside
  unfold last Timeline.lastIndex
  omega

theorem next?_eq_none_iff (head : Playhead) : head.next? = none ↔ head.index = head.last := by
  have inside := head.inside
  have positive := head.timeline.size_pos
  unfold next? last Timeline.lastIndex
  split <;> simp <;> omega

theorem previous?_eq_none_iff (head : Playhead) : head.previous? = none ↔ head.index = 0 := by
  obtain ⟨timeline, index, inside⟩ := head
  cases index <;> simp [previous?]

theorem at?_eq_none_iff (head : Playhead) (index : Nat) :
    head.at? index = none ↔ head.last < index := by
  have positive := head.timeline.size_pos
  unfold at? last Timeline.lastIndex
  split <;> simp <;> omega

theorem next?_eq_some {head next : Playhead} (found : head.next? = some next) :
    next.timeline = head.timeline ∧ next.index = head.index + 1 := by
  unfold next? at found
  split at found
  · cases found
    exact ⟨rfl, rfl⟩
  · cases found

theorem previous?_eq_some {head previous : Playhead} (found : head.previous? = some previous) :
    previous.next? = some head := by
  obtain ⟨timeline, index, inside⟩ := head
  cases index with
  | zero => cases found
  | succ index =>
    cases found
    exact dif_pos inside

theorem at?_eq_some {head target : Playhead} {index : Nat} (found : head.at? index = some target) :
    target.timeline = head.timeline ∧ target.index = index := by
  unfold at? at found
  split at found
  · cases found
    exact ⟨rfl, rfl⟩
  · cases found

end Playhead

/-! ### The effects of an operation -/

/-- Add a frame: its actions in order, then its readout. -/
def Frame.applied (frame : Frame) (index : Nat) : List Effect :=
  frame.actions.map Action.added ++ [frame.readout index]

/-- Take the actions of a frame away in reverse order. -/
def Frame.undone (frame : Frame) : List Effect := frame.actions.reverse.map Action.removed

/-- Add frames one after the other, the first of them at `index`. -/
def appliedFrom (index : Nat) : List Frame → List Effect
  | [] => []
  | frame :: rest => frame.applied index ++ appliedFrom (index + 1) rest

namespace Playhead

/-- Start from nothing and add all frames up to this one. -/
def replay (head : Playhead) : List Effect :=
  .clear :: appliedFrom 0 (head.timeline.frames.take (head.index + 1))

/-- Add this frame to those before it. -/
def advance (head : Playhead) : List Effect := head.frame.applied head.index

/-- Take this frame away and show the readout of the one before. -/
def retreat (head previous : Playhead) : List Effect :=
  head.frame.undone ++ [previous.frame.readout previous.index]

end Playhead

/-! ### Errors -/

inductive PlayerError where
  | notLoaded
  | outOfRange (requested : Int) (last : Nat)
  | refused (refusal : Refusal)
  deriving DecidableEq, Repr

def integerText (number : Int) : String :=
  if number < 0 then "-" ++ decimalText number.natAbs else decimalText number.natAbs

def PlayerError.message : PlayerError → String
  | notLoaded => "no timeline loaded"
  | outOfRange requested last =>
    "index " ++ integerText requested ++ " out of range (last index is " ++ decimalText last ++ ")"
  | refused refusal => refusal.message

/-- An index as an error shows it: at most `2 ^ 63 - 1`. -/
def shownIndex (index : Nat) : Int := min index 9223372036854775807

/-! ### Players -/

structure Player (η : Type) where
  /-- The frame that is shown; none until a timeline is loaded. -/
  playhead : Option Playhead
  /-- Whether automatic playback goes on. -/
  playing : Bool
  /-- Milliseconds of playback a second of the timeline. -/
  scale : Float
  /-- The tolerance of a jump by time, in seconds. -/
  epsilon : Float
  host : η

/-- An amount; any other number counts as zero. -/
def amountOrZero (value : Float) : Float := if isAmount value then value else 0.0

namespace Player

variable {η : Type}

def new (host : η) : Player η :=
  ⟨none, false, Settings.standard.autoplayScale, Settings.standard.mergeEpsilon, host⟩

def withScale (player : Player η) (scale : Float) : Player η :=
  { player with scale := amountOrZero scale }

def withEpsilon (player : Player η) (epsilon : Float) : Player η :=
  { player with epsilon := amountOrZero epsilon }

def pause (player : Player η) : Player η := { player with playing := false }

def index? (player : Player η) : Option Nat := player.playhead.map Playhead.index

variable [Host η]

/-- Show the host all frames up to a playhead, after it refused an effect; a refusal now is passed over. -/
def recover (player : Player η) (head : Playhead) : Player η :=
  let reply := deliver false player.host head.replay
  { player with
    playhead := some head
    playing := player.playing && !reply.pauses
    host := reply.host }

/-- Deliver effects and go to `target`; if one is refused, stay at `origin`. -/
def move (player : Player η) (origin target : Playhead) (effects : List Effect) :
    Except PlayerError Nat × Player η :=
  let reply := deliver false player.host effects
  -- A host may pause playback even with an effect that it refuses.
  let delivered := { player with playing := player.playing && !reply.pauses, host := reply.host }
  match reply.refusal with
  | none => (.ok target.index, { delivered with playhead := some target })
  | some refusal => (.error (.refused refusal), delivered.recover origin)

/-- Replace the timeline and show its first frame. Playback stops. -/
def load (player : Player η) (timeline : Timeline) : Except PlayerError Unit × Player η :=
  let head := Playhead.start timeline
  let (result, player) := player.pause.move head head head.replay
  (result.map fun _ => (), player)

def forward (player : Player η) : Except PlayerError Nat × Player η :=
  match player.playhead with
  | none => (.error .notLoaded, player)
  | some head =>
    match head.next? with
    | none => (.error (.outOfRange (shownIndex (head.index + 1)) head.last), player)
    | some next => player.move head next next.advance

def backward (player : Player η) : Except PlayerError Nat × Player η :=
  match player.playhead with
  | none => (.error .notLoaded, player)
  | some head =>
    match head.previous? with
    | none => (.error (.outOfRange (-1) head.last), player)
    | some previous => player.move head previous (head.retreat previous)

def jump (player : Player η) (index : Nat) : Except PlayerError Nat × Player η :=
  match player.playhead with
  | none => (.error .notLoaded, player)
  | some head =>
    match head.at? index with
    | none => (.error (.outOfRange (shownIndex index) head.last), player)
    | some target => player.move head target target.replay

/-- Jump to the last frame that is not after `t`. -/
def seek (player : Player η) (t : Float) : Except PlayerError Nat × Player η :=
  match player.playhead with
  | none => (.error .notLoaded, player)
  | some head =>
    let target := head.atTime t player.epsilon
    player.move head target target.replay

end Player
end PacketReplay
