import PacketReplay.OrderedMap

/-!
# Reasons

The token in the parentheses of an event line says why the line was written. Five tokens have a meaning
of their own; every other token is kept as it stands. `Reason.token` is injective: a token belongs to one
reason only, because `other` holds none of the five.
-/
namespace PacketReplay

/-- The tokens with a meaning of their own. -/
def namedTokens : List String :=
  ["sent", "quacked", "acked", "detect_lost_packets", "sidecar_detect_lost_packets"]

inductive Reason where
  | sent
  | quacked
  | acked
  | detectLostPackets
  | sidecarDetectLostPackets
  | other (token : String) (unnamed : token ∉ namedTokens)
  deriving Repr

namespace Reason

def token : Reason → String
  | sent => "sent"
  | quacked => "quacked"
  | acked => "acked"
  | detectLostPackets => "detect_lost_packets"
  | sidecarDetectLostPackets => "sidecar_detect_lost_packets"
  | other token _ => token

def ofToken (token : String) : Reason :=
  if isSent : token = "sent" then sent
  else if isQuacked : token = "quacked" then quacked
  else if isAcked : token = "acked" then acked
  else if isDetect : token = "detect_lost_packets" then detectLostPackets
  else if isSidecar : token = "sidecar_detect_lost_packets" then sidecarDetectLostPackets
  else other token (by simp [namedTokens, isSent, isQuacked, isAcked, isDetect, isSidecar])

@[simp] theorem token_ofToken (token : String) : (ofToken token).token = token := by
  unfold ofToken
  repeat' split
  all_goals simp_all [Reason.token]

@[simp] theorem ofToken_token (reason : Reason) : ofToken reason.token = reason := by
  cases reason with
  | other token unnamed =>
    simp only [namedTokens, List.mem_cons, List.not_mem_nil, or_false, not_or] at unnamed
    simp [ofToken, Reason.token, unnamed]
  | _ => rfl

theorem token_injective {left right : Reason} (same : left.token = right.token) : left = right := by
  rw [← ofToken_token left, same, ofToken_token]

instance : DecidableEq Reason := fun left right =>
  decidable_of_iff (left.token = right.token) ⟨token_injective, fun same => same ▸ rfl⟩

/-- A sent packet shows a marker; every other reason flags one. -/
def showsMarker (reason : Reason) : Bool := reason = sent

/-- The reasons with a meaning of their own come first, in the order of a packet's life. -/
def rank : Reason → Nat
  | sent => 0
  | quacked => 1
  | acked => 2
  | detectLostPackets => 3
  | sidecarDetectLostPackets => 4
  | other _ _ => 5

/-- By rank, and reasons of one rank by token. -/
instance : Ord Reason :=
  ⟨compareLex (compareOn rank) (compareOn token)⟩

instance : Std.TransOrd Reason :=
  inferInstanceAs (Std.TransCmp (compareLex (compareOn rank) (compareOn token)))

instance : Std.LawfulEqOrd Reason where
  compare_self := Std.ReflCmp.compare_self
  eq_of_compare := by
    intro left right same
    have tokens : compare left.token right.token = .eq := by
      simp only [compare, compareLex, Ordering.then_eq_eq] at same
      exact same.2
    exact token_injective (Std.LawfulEqCmp.eq_of_compare tokens)

/-- The reasons in order, each once. -/
def inOrder (reasons : List Reason) : List Reason :=
  (OrderedMap.ofList (reasons.map fun reason => (reason, ()))).keys

end Reason
end PacketReplay
