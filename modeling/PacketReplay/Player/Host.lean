import PacketReplay.Screen.Basic

/-!
# Hosts

A host receives the effects of a replay one by one. It may refuse an effect, and it may pause the playback
while it receives one. A screen is the plainest host: it refuses what it cannot apply and never pauses.
-/
namespace PacketReplay

/-- What has become of a host, and how it took what it received. -/
structure Reply (η : Type) where
  refusal : Option Refusal
  pauses : Bool
  host : η

class Host (η : Type) where
  receive : η → Effect → Reply η

instance : Host Screen where
  receive screen effect :=
    match screen.apply effect with
    | .ok after => ⟨none, false, after⟩
    | .error refusal => ⟨some refusal, false, screen⟩

/-- Give effects to a host until it refuses one. -/
def deliver {η : Type} [Host η] (paused : Bool) (host : η) : List Effect → Reply η
  | [] => ⟨none, paused, host⟩
  | effect :: rest =>
    match Host.receive host effect with
    | ⟨some refusal, pauses, host⟩ => ⟨some refusal, paused || pauses, host⟩
    | ⟨none, pauses, host⟩ => deliver (paused || pauses) host rest

end PacketReplay
