import PacketReplay.Player.Host

/-!
# Scripted hosts

A host around a screen that follows a script. Its window lets a number of effects pass and then refuses a
number of them without applying them; it can pause playback at the readout of one frame; and it keeps a
transcript of all that it was given.
-/
namespace PacketReplay

structure ScriptedHost where
  screen : Screen
  /-- How many effects pass before the window refuses. -/
  skip : Nat
  /-- How many effects the window refuses. -/
  count : Nat
  /-- The index of the readout that pauses playback. -/
  pauseAt : Option Nat
  /-- The texts of the effects, the last one first. -/
  transcript : List String
  deriving DecidableEq, Repr

namespace ScriptedHost

def new : ScriptedHost := ⟨.empty, 0, 0, none, []⟩

/-- The refusal of the window. -/
def rejected : Refusal := ⟨0, "rejected"⟩

def pausesAt (host : ScriptedHost) : Effect → Bool
  | .readout readout => host.pauseAt = some readout.index
  | _ => false

def log (host : ScriptedHost) (mark : String) (effect : Effect) : ScriptedHost :=
  { host with transcript := (mark ++ effect.text) :: host.transcript }

/-- Give the effect to the screen. -/
def pass (host : ScriptedHost) (effect : Effect) : Reply ScriptedHost :=
  match host.screen.apply effect with
  | .ok screen => ⟨none, host.pausesAt effect, { host.log "" effect with screen }⟩
  | .error refusal => ⟨some refusal, host.pausesAt effect, host.log "? " effect⟩

instance : Host ScriptedHost where
  receive host effect :=
    match host.count, host.skip with
    | 0, _ => host.pass effect
    | _ + 1, skip + 1 => { host with skip }.pass effect
    | count + 1, 0 => ⟨some rejected, host.pausesAt effect, { host with count }.log "! " effect⟩

end ScriptedHost
end PacketReplay
