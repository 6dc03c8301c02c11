import PacketReplay.Player.Clock
import PacketReplay.Player.Delay

/-!
# Automatic playback

Playback waits for the delay of a frame and steps forward, until it reaches the last frame or finds that it
has been paused. It looks before and after each wait and lets a wait that has begun end; how long a wait
lasts is up to the clock. Playback can be paused from outside during any wait; the host may pause it while
it receives an effect.
-/
namespace PacketReplay

/-- How playback came to an end without an error. -/
inductive Ending where
  | finished
  | paused
  deriving DecidableEq, Repr

def Ending.text : Ending → String
  | finished => "Finished"
  | paused => "Paused"

/-- A run of playback: its end, how many nanoseconds it took, and the player afterwards. -/
structure Playback (η : Type) where
  result : Except PlayerError Ending
  elapsed : Nat
  player : Player η

/-- Whether playback has been paused from outside when a wait ends, by the number of waits before it and the
moment at which it ends, in nanoseconds from the start. -/
abbrev Interruptions := Nat → Nat → Bool

/-- Pauses at moments counted from the start. A pause is noticed by the first wait that ends after it. -/
def Interruptions.ofMoments (pauses : List Nat) : Interruptions := fun _ ended =>
  pauses.any fun moment => decide (moment < ended)

namespace Player

variable {η : Type} [Host η]

/-- Play the given number of frames to come, after a number of waits. -/
def playFrom (clock : Clock) (interruptions : Interruptions) (waits elapsed : Nat) (player : Player η) :
    Nat → Playback η
  | 0 => ⟨.ok (if player.playing then .finished else .paused), elapsed, player⟩
  | toCome + 1 =>
    if player.playing then
      match player.waitTime with
      | .error error => ⟨.error error, elapsed, player⟩
      | .ok none => ⟨.ok .finished, elapsed, player⟩
      | .ok (some delay) =>
        let waited := elapsed + clock.wait delay
        -- The wait goes on to its end; only then is a pause noticed.
        if interruptions waits waited then ⟨.ok .paused, waited, player.pause⟩
        else
          match player.forward with
          | (.error error, player) => ⟨.error error, waited, player⟩
          | (.ok _, player) => playFrom clock interruptions (waits + 1) waited player toCome
    else ⟨.ok .paused, elapsed, player⟩

/-- Play from the current frame, paused from outside or not. Whatever the end, playback is off afterwards. -/
def playAmid (clock : Clock) (interruptions : Interruptions) (player : Player η) : Playback η :=
  match player.playhead with
  | none => ⟨.error .notLoaded, 0, player⟩
  | some head =>
    let run :=
      playFrom clock interruptions 0 0 { player with playing := true } (head.last - head.index)
    { run with player := run.player.pause }

/-- Play from the current frame, with pauses from outside at the given moments in nanoseconds. -/
def play (clock : Clock) (player : Player η) (pauses : List Nat) : Playback η :=
  player.playAmid clock (.ofMoments pauses)

end Player
end PacketReplay
