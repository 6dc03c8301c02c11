import PacketReplay.Player.Autoplay

/-!
# Calls

What can be asked of a player, and a run as a list of such calls. A request to go to another frame either
fails before the host is given anything, or it is one delivery of effects from an origin to a target
(`Navigation.perform_cases`).
-/
namespace PacketReplay

/-- A request to show another frame. -/
inductive Navigation where
  | load (timeline : Timeline)
  | forward
  | backward
  | jump (index : Nat)
  | seek (t : Float)
  deriving DecidableEq, Repr

inductive Call where
  | navigate (navigation : Navigation)
  | pause
  | play (clock : Clock) (interruptions : Interruptions)

/-- What a call answers if it does not fail. -/
inductive Answer where
  | done
  | shown (index : Nat)
  | ended (ending : Ending)
  deriving DecidableEq, Repr

variable {η : Type}

/-- The player with playback on. -/
def Player.resume (player : Player η) : Player η := { player with playing := true }

variable [Host η]

theorem Player.playAmid_of_unloaded {player : Player η} (unloaded : player.playhead = none) (clock : Clock)
    (interruptions : Interruptions) :
    player.playAmid clock interruptions = ⟨.error .notLoaded, 0, player⟩ := by
  simp only [playAmid, unloaded]

theorem Player.playAmid_of_loaded {player : Player η} {head : Playhead}
    (loaded : player.playhead = some head) (clock : Clock) (interruptions : Interruptions) :
    player.playAmid clock interruptions =
      let run := player.resume.playFrom clock interruptions 0 0 (head.last - head.index)
      { run with player := run.player.pause } := by
  obtain ⟨playhead, playing, scale, epsilon, host⟩ := player
  cases loaded
  rfl

def Navigation.perform (player : Player η) : Navigation → Except PlayerError Answer × Player η
  | .load timeline => ((player.load timeline).1.map fun _ => .done, (player.load timeline).2)
  | .forward => (player.forward.1.map .shown, player.forward.2)
  | .backward => (player.backward.1.map .shown, player.backward.2)
  | .jump index => ((player.jump index).1.map .shown, (player.jump index).2)
  | .seek t => ((player.seek t).1.map .shown, (player.seek t).2)

def Call.perform (player : Player η) : Call → Except PlayerError Answer × Player η
  | .navigate navigation => navigation.perform player
  | .pause => (.ok .done, player.pause)
  | .play clock interruptions =>
    ((player.playAmid clock interruptions).result.map .ended,
      (player.playAmid clock interruptions).player)

/-- Make calls one after the other; the first part of the result holds their answers in order. -/
def Player.performAll (player : Player η) : List Call → List (Except PlayerError Answer) × Player η
  | [] => ([], player)
  | call :: rest =>
    ((call.perform player).1 :: ((call.perform player).2.performAll rest).1,
      ((call.perform player).2.performAll rest).2)

/-- What each of the calls preserves holds after a run, and what holds of its answer holds of every answer. -/
theorem Player.performAll_invariant {invariant : Player η → Prop}
    {answered : Except PlayerError Answer → Prop} {calls : List Call}
    (step : ∀ call ∈ calls, ∀ player : Player η, invariant player →
      invariant (call.perform player).2 ∧ answered (call.perform player).1)
    (player : Player η) (initial : invariant player) :
    invariant (player.performAll calls).2 ∧ ∀ answer ∈ (player.performAll calls).1, answered answer := by
  induction calls generalizing player with
  | nil => exact ⟨initial, fun _ member => by cases member⟩
  | cons call rest ih =>
    obtain ⟨preserved, answer⟩ := step call List.mem_cons_self player initial
    obtain ⟨final, answers⟩ := ih (fun call member => step call (List.mem_cons_of_mem _ member)) _ preserved
    refine ⟨final, ?_⟩
    intro other member
    rcases List.mem_cons.mp member with rfl | member
    · exact answer
    · exact answers other member

/-- A packet is sent and acknowledged a second later. -/
def Timeline.sentThenAcked : Timeline :=
  ⟨[⟨0.0, [⟨1, .sent⟩], .empty⟩, ⟨1.0, [⟨1, .acked⟩], .empty⟩], [], nofun⟩

/-! ### What a request can do -/

theorem Player.move_of_accepted {player : Player η} {effects : List Effect}
    (accepted : (deliver false player.host effects).refusal = none) (origin target : Playhead) :
    player.move origin target effects =
      (.ok target.index, { player with
        playhead := some target
        playing := player.playing && !(deliver false player.host effects).pauses
        host := (deliver false player.host effects).host }) := by
  simp only [move, accepted]

theorem Player.move_of_refused {player : Player η} {effects : List Effect} {refusal : Refusal}
    (refused : (deliver false player.host effects).refusal = some refusal) (origin target : Playhead) :
    player.move origin target effects =
      (.error (.refused refusal), Player.recover { player with
        playing := player.playing && !(deliver false player.host effects).pauses
        host := (deliver false player.host effects).host } origin) := by
  simp only [move, refused]

/-- A delivery leads to its target, or it is refused and stays at its origin. -/
theorem Player.move_cases (player : Player η) (origin target : Playhead) (effects : List Effect) :
    (∃ playing host, player.move origin target effects =
      (.ok target.index, ⟨some target, playing, player.scale, player.epsilon, host⟩)) ∨
    (∃ refusal playing host, player.move origin target effects =
      (.error (.refused refusal), ⟨some origin, playing, player.scale, player.epsilon, host⟩)) := by
  cases replied : (deliver false player.host effects).refusal with
  | none => exact .inl ⟨_, _, Player.move_of_accepted replied origin target⟩
  | some refusal => exact .inr ⟨refusal, _, _, Player.move_of_refused replied origin target⟩

/-- Where a request leads from, where it leads to, and by which effects. -/
inductive Navigation.Leads (player : Player η) : Navigation → Playhead → Playhead → List Effect → Prop where
  | load (timeline : Timeline) :
    Leads player (.load timeline) (.start timeline) (.start timeline) (Playhead.start timeline).replay
  | forward {head next : Playhead} (here : player.playhead = some head) (found : head.next? = some next) :
    Leads player .forward head next next.advance
  | backward {head previous : Playhead} (here : player.playhead = some head)
      (found : head.previous? = some previous) :
    Leads player .backward head previous (head.retreat previous)
  | jump {head target : Playhead} {index : Nat} (here : player.playhead = some head)
      (found : head.at? index = some target) :
    Leads player (.jump index) head target target.replay
  | seek {head : Playhead} {t : Float} (here : player.playhead = some head) :
    Leads player (.seek t) head (head.atTime t player.epsilon) (head.atTime t player.epsilon).replay

/-- The player that takes up a request. A new timeline stops playback first. -/
def Navigation.ready (player : Player η) : Navigation → Player η
  | .load _ => player.pause
  | _ => player

def Navigation.answer : Navigation → Nat → Answer
  | .load _ => fun _ => .done
  | _ => .shown

/-- An error that is found before the host is given anything. -/
def PlayerError.Early : PlayerError → Prop
  | .refused _ => False
  | _ => True

theorem Navigation.perform_cases (navigation : Navigation) (player : Player η) :
    (∃ error : PlayerError, error.Early ∧ (∀ timeline, navigation ≠ .load timeline) ∧
      navigation.perform player = (.error error, player)) ∨
    (∃ origin target effects, navigation.Leads player origin target effects ∧
      navigation.perform player =
        (((navigation.ready player).move origin target effects).1.map navigation.answer,
          ((navigation.ready player).move origin target effects).2)) := by
  cases navigation with
  | load timeline =>
    -- A timeline always has a first frame, so this cannot fail before the delivery.
    refine .inr ⟨_, _, _, .load timeline, ?_⟩
    simp only [perform, Player.load, ready, answer]
    cases (player.pause.move (.start timeline) (.start timeline) (Playhead.start timeline).replay).1 <;>
      rfl
  | forward =>
    cases here : player.playhead with
    | none => exact .inl ⟨.notLoaded, trivial, nofun, by simp [perform, Player.forward, here, Except.map]⟩
    | some head =>
      cases found : head.next? with
      | none =>
        refine .inl ⟨.outOfRange (shownIndex (head.index + 1)) head.last, trivial, nofun, ?_⟩
        simp [perform, Player.forward, here, found, Except.map]
      | some next =>
        refine .inr ⟨_, _, _, .forward here found, ?_⟩
        simp [perform, Player.forward, here, found, ready, answer]
  | backward =>
    cases here : player.playhead with
    | none => exact .inl ⟨.notLoaded, trivial, nofun, by simp [perform, Player.backward, here, Except.map]⟩
    | some head =>
      cases found : head.previous? with
      | none =>
        refine .inl ⟨.outOfRange (-1) head.last, trivial, nofun, ?_⟩
        simp [perform, Player.backward, here, found, Except.map]
      | some previous =>
        refine .inr ⟨_, _, _, .backward here found, ?_⟩
        simp [perform, Player.backward, here, found, ready, answer]
  | jump index =>
    cases here : player.playhead with
    | none => exact .inl ⟨.notLoaded, trivial, nofun, by simp [perform, Player.jump, here, Except.map]⟩
    | some head =>
      cases found : head.at? index with
      | none =>
        refine .inl ⟨.outOfRange (shownIndex index) head.last, trivial, nofun, ?_⟩
        simp [perform, Player.jump, here, found, Except.map]
      | some target =>
        refine .inr ⟨_, _, _, .jump here found, ?_⟩
        simp [perform, Player.jump, here, found, ready, answer]
  | seek t =>
    cases here : player.playhead with
    | none => exact .inl ⟨.notLoaded, trivial, nofun, by simp [perform, Player.seek, here, Except.map]⟩
    | some head =>
      refine .inr ⟨_, _, _, .seek here, ?_⟩
      simp [perform, Player.seek, here, ready, answer]

end PacketReplay
