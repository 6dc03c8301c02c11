import PacketReplay.Proofs.Player.Call
import PacketReplay.Proofs.Player.Canonical

/-!
# Recovery

A guarded screen is a screen behind a script that may reject any effect before the screen sees it. Whatever
the script does and whatever the screen shows, a request either leads to its target, or it answers with the
first refusal, stays where it was, and has replayed the frames up to there. Only the script can cut that
replay short, since no screen refuses an effect that clears or adds; if the script lets it pass, the screen is
the canonical one again.
-/
namespace PacketReplay

/-! ### Guarded screens -/

inductive Verdict where
  | applied
  /-- The script did not let the effect pass. -/
  | rejected (refusal : Refusal)
  /-- The screen had nothing to take away. -/
  | refused (refusal : Refusal)
  deriving DecidableEq, Repr

structure Receipt where
  effect : Effect
  verdict : Verdict
  deriving DecidableEq, Repr

/-- The refusal that an effect was answered with. -/
def Receipt.refusal? (receipt : Receipt) : Option Refusal :=
  match receipt.verdict with
  | .applied => none
  | .rejected refusal => some refusal
  | .refused refusal => some refusal

structure GuardedScreen where
  screen : Screen
  /-- What to reject, after what has been received so far. -/
  script : List Receipt → Effect → Option Refusal
  transcript : List Receipt

namespace GuardedScreen

def log (host : GuardedScreen) (effect : Effect) (verdict : Verdict) : GuardedScreen :=
  { host with transcript := host.transcript ++ [⟨effect, verdict⟩] }

instance : Host GuardedScreen where
  receive host effect :=
    match host.script host.transcript effect with
    | some refusal => ⟨some refusal, false, host.log effect (.rejected refusal)⟩
    | none =>
      match host.screen.apply effect with
      | .error refusal => ⟨some refusal, false, host.log effect (.refused refusal)⟩
      | .ok screen => ⟨none, false, { host.log effect .applied with screen }⟩

/-- What a guarded screen makes of a single effect. -/
theorem receive_cases (host : GuardedScreen) (effect : Effect) :
    (∃ screen, host.screen.apply effect = .ok screen ∧
      Host.receive host effect = ⟨none, false, { host.log effect .applied with screen }⟩) ∨
    (∃ refusal, Host.receive host effect = ⟨some refusal, false, host.log effect (.rejected refusal)⟩) ∨
    (∃ refusal, host.screen.apply effect = .error refusal ∧
      Host.receive host effect = ⟨some refusal, false, host.log effect (.refused refusal)⟩) := by
  simp only [Host.receive]
  cases host.script host.transcript effect with
  | some refusal => exact .inr (.inl ⟨refusal, rfl⟩)
  | none =>
    cases host.screen.apply effect with
    | ok screen => exact .inl ⟨screen, rfl, rfl⟩
    | error refusal => exact .inr (.inr ⟨refusal, rfl, rfl⟩)

/-- How a delivery to a guarded screen goes: all effects are applied, or all before the first that is
refused. -/
inductive Delivered (host : GuardedScreen) (effects : List Effect) (reply : Reply GuardedScreen) : Prop where
  | whole (sent : List Receipt) (effects_eq : sent.map Receipt.effect = effects)
      (applied : ∀ receipt ∈ sent, receipt.verdict = .applied)
      (accepted : reply.refusal = none)
      (transcript : reply.host.transcript = host.transcript ++ sent)
      (screen : host.screen.applyAll effects = .ok reply.host.screen)
  | cut (sent : List Receipt) (first : Receipt) {refusal : Refusal}
      (begun : (sent ++ [first]).map Receipt.effect <+: effects)
      (applied : ∀ receipt ∈ sent, receipt.verdict = .applied)
      (verdict : first.verdict = .rejected refusal ∨
        first.verdict = .refused refusal ∧ ∃ screen : Screen, screen.apply first.effect = .error refusal)
      (refused : reply.refusal = some refusal)
      (transcript : reply.host.transcript = host.transcript ++ (sent ++ [first]))

theorem deliver_delivered (host : GuardedScreen) (effects : List Effect) :
    host.Delivered effects (deliver false host effects) := by
  induction effects generalizing host with
  | nil =>
    exact .whole [] rfl (fun _ member => by cases member) rfl (List.append_nil _).symm rfl
  | cons effect rest ih =>
    simp only [deliver]
    rcases host.receive_cases effect with
      ⟨screen, applied, received⟩ | ⟨refusal, received⟩ | ⟨refusal, failed, received⟩
    · rw [received]
      -- The receipt of this effect goes in front of those of the rest.
      cases ih { host.log effect .applied with screen } with
      | whole sent effectsEq appliedRest accepted transcript screenEq =>
        refine .whole (⟨effect, .applied⟩ :: sent) (by simp [effectsEq]) ?_ accepted ?_ ?_
        · exact List.forall_mem_cons.mpr ⟨rfl, appliedRest⟩
        · simp only [Bool.or_false]
          rw [transcript, log, List.append_assoc, List.singleton_append]
        · rw [Screen.applyAll_cons_ok rest applied]
          exact screenEq
      | @cut sent first refusal effectsPrefix appliedRest verdict refused transcript =>
        refine .cut (⟨effect, .applied⟩ :: sent) first ?_ ?_ verdict refused ?_
        · exact (List.prefix_cons_inj effect).mpr effectsPrefix
        · exact List.forall_mem_cons.mpr ⟨rfl, appliedRest⟩
        · simp only [Bool.or_false]
          rw [transcript, log, List.append_assoc, List.singleton_append, List.cons_append]
    · rw [received]
      exact .cut [] ⟨effect, .rejected refusal⟩ ⟨rest, rfl⟩
        (fun _ member => by cases member) (.inl rfl) rfl rfl
    · rw [received]
      exact .cut [] ⟨effect, .refused refusal⟩ ⟨rest, rfl⟩
        (fun _ member => by cases member) (.inr ⟨rfl, _, failed⟩) rfl rfl

end GuardedScreen

/-! ### Replays -/

theorem Screen.accepts_appliedFrom (screen : Screen) (index : Nat) (frames : List Frame) :
    ∀ effect ∈ appliedFrom index frames, screen.accepts effect = true := by
  induction frames generalizing index with
  | nil =>
    intro effect member
    cases member
  | cons frame rest ih =>
    intro effect member
    rcases List.mem_append.mp member with here | later
    · rcases List.mem_append.mp here with added | shown
      · obtain ⟨action, _, rfl⟩ := List.mem_map.mp added
        unfold Action.added
        split <;> rfl
      · obtain rfl := List.mem_singleton.mp shown
        rfl
    · exact ih (index + 1) effect later

/-- A replay takes nothing away, so no screen refuses any of it. -/
theorem Screen.accepts_replay (screen : Screen) (head : Playhead) :
    ∀ effect ∈ head.replay, screen.accepts effect = true := by
  intro effect member
  rcases List.mem_cons.mp member with rfl | later
  · rfl
  · exact screen.accepts_appliedFrom _ _ effect later

/-- Only the script can cut a replay short. -/
theorem GuardedScreen.deliver_replay (host : GuardedScreen) (head : Playhead) :
    let reply := deliver false host head.replay
    ∃ recovery, reply.host.transcript = host.transcript ++ recovery ∧
      recovery.map Receipt.effect <+: head.replay ∧
      (∀ receipt ∈ recovery, ∀ refusal, receipt.verdict ≠ .refused refusal) ∧
      ((∀ receipt ∈ recovery, ∀ refusal, receipt.verdict ≠ .rejected refusal) →
        recovery.map Receipt.effect = head.replay ∧ reply.host.screen = head.canonical) := by
  intro reply
  cases host.deliver_delivered head.replay with
  | whole sent effectsEq applied _ transcript screen =>
    refine ⟨sent, transcript, effectsEq ▸ List.prefix_rfl, ?_, ?_⟩
    · intro receipt member refusal same
      rw [applied receipt member] at same
      cases same
    · intro _
      rw [Screen.applyAll_replay] at screen
      exact ⟨effectsEq, (Except.ok.inj screen).symm⟩
  | @cut sent first refusal effectsPrefix applied verdict _ transcript =>
    have inReplay : first.effect ∈ head.replay :=
      effectsPrefix.subset (List.mem_map_of_mem (List.mem_append_right _ List.mem_cons_self))
    -- No screen would have refused this effect, so it was the script.
    have rejected : first.verdict = .rejected refusal := by
      rcases verdict with rejected | ⟨_, screen, failed⟩
      · exact rejected
      · obtain ⟨after, passed⟩ :=
          (screen.apply_isOk_iff first.effect).mpr (screen.accepts_replay head _ inReplay)
        rw [failed] at passed
        cases passed
    refine ⟨sent ++ [first], transcript, effectsPrefix, ?_, ?_⟩
    · intro receipt member other same
      rcases List.mem_append.mp member with earlier | last
      · rw [applied receipt earlier] at same
        cases same
      · rw [List.mem_singleton.mp last, rejected] at same
        cases same
    · intro unrejected
      exact absurd rejected (unrejected first (List.mem_append_right _ List.mem_cons_self) refusal)

/-! ### Requests -/

/-- The frame that is shown after a request that fails, if this one was shown before. -/
def Navigation.resting (head : Playhead) : Navigation → Playhead
  | .load timeline => .start timeline
  | _ => head

theorem Navigation.Leads.origin_eq {η : Type} {player : Player η} {head : Playhead}
    (loaded : player.playhead = some head) {navigation : Navigation} {origin target : Playhead}
    {effects : List Effect} (leads : navigation.Leads player origin target effects) :
    origin = navigation.resting head := by
  cases leads with
  | load timeline => rfl
  | forward here _ | backward here _ | jump here _ | seek here =>
    rw [loaded] at here
    exact (Option.some.inj here).symm

/-- Only a new timeline leads to another timeline, and it leads to its first frame. -/
theorem Navigation.Leads.target_timeline {η : Type} {player : Player η} {navigation : Navigation}
    {origin target : Playhead} {effects : List Effect}
    (leads : navigation.Leads player origin target effects) : target.timeline = origin.timeline := by
  cases leads with
  | load timeline => rfl
  | forward _ found => exact (Playhead.next?_eq_some found).1
  | backward _ found => exact (Playhead.next?_eq_some (Playhead.previous?_eq_some found)).1.symm
  | jump _ found => exact (Playhead.at?_eq_some found).1
  | seek _ => rfl

theorem Navigation.Leads.effects_eq {η : Type} {player : Player η} {navigation : Navigation}
    {origin target : Playhead} {effects : List Effect}
    (leads : navigation.Leads player origin target effects) (notForward : navigation ≠ .forward)
    (notBackward : navigation ≠ .backward) : effects = target.replay := by
  cases leads with
  | load _ | jump _ _ | seek _ => rfl
  | forward _ _ => exact absurd rfl notForward
  | backward _ _ => exact absurd rfl notBackward

/-- A delivery was refused: all effects before the first refused one were applied, the frames up to the one
that is shown were replayed as far as the script let them pass, and the screen refused nothing of that. -/
inductive GuardedScreen.Recovered (before after : GuardedScreen) (effects : List Effect) (shown : Playhead)
    (refusal : Refusal) : Prop where
  | intro (sent recovery : List Receipt) (first : Receipt)
      (transcript : after.transcript = before.transcript ++ (sent ++ first :: recovery))
      (begun : (sent ++ [first]).map Receipt.effect <+: effects)
      (applied : ∀ receipt ∈ sent, receipt.verdict = .applied)
      (first_refusal : first.refusal? = some refusal)
      (replay_begun : recovery.map Receipt.effect <+: shown.replay)
      (unrefused : ∀ receipt ∈ recovery, ∀ refusal, receipt.verdict ≠ .refused refusal)
      (recovered : (∀ receipt ∈ recovery, ∀ refusal, receipt.verdict ≠ .rejected refusal) →
        recovery.map Receipt.effect = shown.replay ∧ after.screen = shown.canonical)

/-- A delivery to a guarded screen leads to its target, or the screen recovers at the origin. -/
theorem Player.move_guarded (player : Player GuardedScreen) (origin target : Playhead)
    (effects : List Effect) :
    let moved := player.move origin target effects
    (moved.1 = .ok target.index ∧ moved.2.playhead = some target ∧
      player.host.screen.applyAll effects = .ok moved.2.host.screen) ∨
    (∃ refusal, moved.1 = .error (.refused refusal) ∧ moved.2.playhead = some origin ∧
      player.host.Recovered moved.2.host effects origin refusal) := by
  intro moved
  cases player.host.deliver_delivered effects with
  | whole _ _ _ accepted _ screen =>
    left
    simp only [moved, Player.move_of_accepted accepted]
    exact ⟨trivial, trivial, screen⟩
  | @cut sent first refusal effectsPrefix applied verdict refused transcript =>
    right
    obtain ⟨recovery, replayed, recoveryPrefix, unrefused, recovered⟩ :=
      (deliver false player.host effects).host.deliver_replay origin
    have firstRefusal : first.refusal? = some refusal := by
      rcases verdict with rejected | ⟨refused, _⟩
      · rw [Receipt.refusal?, rejected]
      · rw [Receipt.refusal?, refused]
    simp only [moved, Player.move_of_refused refused]
    refine ⟨refusal, rfl, rfl, .intro sent recovery first ?_ effectsPrefix applied firstRefusal
      recoveryPrefix unrefused recovered⟩
    rw [Player.recover, replayed, transcript]
    simp only [List.append_assoc, List.singleton_append]

/-- Whatever the script and the screen, the frame that is shown changes only if the request succeeds, but for
the first frame of a new timeline. A refusal is that of the first effect that was refused, the effects up to
the frame that is shown have been replayed, and if the script let all of them pass, the screen is the
canonical one. A request that starts from nothing and succeeds leads to the canonical screen too. -/
theorem navigation_recovers (player : Player GuardedScreen) (navigation : Navigation) (head : Playhead)
    (loaded : player.playhead = some head) :
    let answer := (navigation.perform player).1
    let after := (navigation.perform player).2
    ∃ shown, after.playhead = some shown ∧ shown.index ≤ shown.last ∧
      shown.timeline = (navigation.resting head).timeline ∧
      (∀ error, answer = .error error → shown = navigation.resting head) ∧
      (∀ timeline, navigation = .load timeline → shown = .start timeline) ∧
      (∀ index, answer = .ok (.shown index) → shown.index = index) ∧
      (∀ refusal, answer = .error (.refused refusal) → ∃ origin target effects,
        navigation.Leads player origin target effects ∧
        player.host.Recovered after.host effects shown refusal) ∧
      ∀ value, answer = .ok value → navigation ≠ .forward → navigation ≠ .backward →
        after.host.screen = shown.canonical := by
  intro answer after
  rcases navigation.perform_cases player with
    ⟨error, early, notLoad, failed⟩ | ⟨origin, target, effects, leads, moved⟩
  · -- Nothing has been delivered, and the player is as it was.
    have rests : navigation.resting head = head := by
      cases navigation with
      | load timeline => exact absurd rfl (notLoad timeline)
      | _ => rfl
    have answered : answer = .error error := congrArg Prod.fst failed
    have unchanged : after = player := congrArg Prod.snd failed
    rw [answered, unchanged, rests]
    refine ⟨head, loaded, head.index_le_last, rfl, fun _ _ => rfl, ?_, nofun, ?_, nofun⟩
    · intro timeline isLoad
      exact absurd isLoad (notLoad timeline)
    · intro refusal same
      cases same
      exact absurd early id
  · have origins := leads.origin_eq loaded
    have host : (navigation.ready player).host = player.host := by cases navigation <;> rfl
    have answered : answer = ((navigation.ready player).move origin target effects).1.map navigation.answer :=
      congrArg Prod.fst moved
    have changed : after = ((navigation.ready player).move origin target effects).2 :=
      congrArg Prod.snd moved
    rcases (navigation.ready player).move_guarded origin target effects with
      ⟨succeeded, there, screen⟩ | ⟨refusal, failed, here, recovered⟩
    · -- The request ends at its target.
      rw [answered, changed, succeeded]
      refine ⟨target, there, target.index_le_last, origins ▸ leads.target_timeline, nofun, ?_, ?_, nofun, ?_⟩
      · rintro timeline rfl
        cases leads
        rfl
      · intro index shown
        cases navigation with
        | load timeline => cases shown
        | _ =>
          cases shown
          rfl
      · intro value _ notForward notBackward
        obtain rfl := leads.effects_eq notForward notBackward
        rw [Screen.applyAll_replay] at screen
        exact (Except.ok.inj screen).symm
    · -- The request ends where it began, and the screen has been given the frames up to there.
      rw [answered, changed, failed]
      refine ⟨origin, here, origin.index_le_last, congrArg Playhead.timeline origins, fun _ _ => origins, ?_,
        nofun, ?_, nofun⟩
      · rintro timeline rfl
        exact origins
      · intro other same
        cases same
        rw [host] at recovered
        exact ⟨origin, target, effects, leads, recovered⟩

/-- A step forward of which the script rejects the first effect. -/
theorem rejected_step_recovers :
    let head := Playhead.start .sentThenAcked
    let script := fun (transcript : List Receipt) (_ : Effect) =>
      if transcript = [] then some (⟨0, "rejected"⟩ : Refusal) else none
    let player : Player GuardedScreen := ⟨some head, false, 1000.0, 0.0, ⟨.empty, script, []⟩⟩
    player.playhead = some head ∧
      (Navigation.forward.perform player).1 = .error (.refused ⟨0, "rejected"⟩) ∧
      (Navigation.forward.perform player).2.playhead = some head := by
  intro head script player
  have failed : (Navigation.forward.perform player).1 = .error (.refused ⟨0, "rejected"⟩) := rfl
  obtain ⟨shown, here, _, _, stays, _⟩ := navigation_recovers player .forward head rfl
  have unmoved : shown = head := stays _ failed
  exact ⟨rfl, failed, unmoved ▸ here⟩

end PacketReplay
