import PacketReplay.Proofs.Player.Call

/-!
# Mirrors

A view of a host is a part of it that is a host of its own: it gives the replies of the whole and changes with
it. A player on a view mirrors a player on the whole if both stand at the same frame with the same settings;
whether playback is on may differ. Every call then has the same answer on both, and leaves them mirroring each
other (`Mirrors.performAll`). So a host may keep a record of what it receives without any influence on a run,
and a run does not depend on whether playback was on when it began.
-/
namespace PacketReplay

def Reply.mapHost {η θ : Type} (view : η → θ) (reply : Reply η) : Reply θ :=
  ⟨reply.refusal, reply.pauses, view reply.host⟩

section Players

variable {η θ : Type}

/-- The same frame and settings, and a host that is the view of the other. -/
structure Mirrors (view : η → θ) (player : Player η) (mirror : Player θ) : Prop where
  playhead : mirror.playhead = player.playhead
  scale : mirror.scale = player.scale
  epsilon : mirror.epsilon = player.epsilon
  host : mirror.host = view player.host

/-- The same answer, and players that mirror each other; playback is on for both or for none if `flags`. -/
structure Alike {α : Type} (view : η → θ) (flags : Prop) (left : α × Player η) (right : α × Player θ) :
    Prop where
  answer : right.1 = left.1
  mirrors : Mirrors view left.2 right.2
  playing : flags → right.2.playing = left.2.playing

theorem Alike.map {α β : Type} {view : η → θ} {flags : Prop} {left : α × Player η} {right : α × Player θ}
    (alike : Alike view flags left right) (f : α → β) :
    Alike view flags (f left.1, left.2) (f right.1, right.2) :=
  ⟨congrArg f alike.answer, alike.mirrors, alike.playing⟩

theorem Mirrors.pause {view : η → θ} {player : Player η} {mirror : Player θ}
    (mirrors : Mirrors view player mirror) : Mirrors view player.pause mirror.pause :=
  ⟨mirrors.playhead, mirrors.scale, mirrors.epsilon, mirrors.host⟩

/-- Two mirrors of one player are one, once playback is off. -/
theorem Mirrors.pause_unique {view : η → θ} {player : Player η} {mirror other : Player θ}
    (left : Mirrors view player mirror) (right : Mirrors view player other) :
    mirror.pause = other.pause := by
  unfold Player.pause
  rw [left.playhead, left.scale, left.epsilon, left.host, right.playhead, right.scale, right.epsilon,
    right.host]

theorem Mirrors.refl (player : Player η) : Mirrors id player player := ⟨rfl, rfl, rfl, rfl⟩

theorem Mirrors.resume (player : Player η) : Mirrors id player player.resume := ⟨rfl, rfl, rfl, rfl⟩

theorem Mirrors.paused (player : Player η) : Mirrors id player player.pause := ⟨rfl, rfl, rfl, rfl⟩

end Players

variable {η θ : Type} [Host η] [Host θ]

/-- What `view` shows of a host replies and changes like the host itself. -/
def IsView (view : η → θ) : Prop :=
  ∀ host effect, Host.receive (view host) effect = (Host.receive host effect).mapHost view

theorem isView_id : IsView (id : η → η) := fun _ _ => rfl

theorem IsView.deliver {view : η → θ} (lawful : IsView view) (paused : Bool) (host : η)
    (effects : List Effect) :
    deliver paused (view host) effects = (deliver paused host effects).mapHost view := by
  induction effects generalizing paused host with
  | nil => rfl
  | cons effect rest ih =>
    have received := lawful host effect
    simp only [PacketReplay.deliver, received]
    cases Host.receive host effect with
    | mk refusal pauses next =>
      cases refusal with
      | some refusal => rfl
      | none => exact ih _ _

namespace Mirrors

variable {view : η → θ} {player : Player η} {mirror : Player θ}

theorem move (lawful : IsView view) (mirrors : Mirrors view player mirror) (origin target : Playhead)
    (effects : List Effect) :
    Alike view (mirror.playing = player.playing) (player.move origin target effects)
      (mirror.move origin target effects) := by
  have delivered := lawful.deliver false player.host effects
  simp only [Player.move, mirrors.host, delivered, Reply.mapHost]
  cases (deliver false player.host effects).refusal with
  | none => exact ⟨rfl, ⟨rfl, mirrors.scale, mirrors.epsilon, rfl⟩, fun same => by rw [same]⟩
  | some refusal =>
    -- The replay after a refusal is seen through the view like the delivery.
    have recovered := lawful.deliver false (deliver false player.host effects).host origin.replay
    simp only [Player.recover, recovered, Reply.mapHost]
    exact ⟨rfl, ⟨rfl, mirrors.scale, mirrors.epsilon, rfl⟩, fun same => by rw [same]⟩

/-! ### Requests -/

theorem forward (lawful : IsView view) (mirrors : Mirrors view player mirror) :
    Alike view (mirror.playing = player.playing) player.forward mirror.forward := by
  simp only [Player.forward, mirrors.playhead]
  cases player.playhead with
  | none => exact ⟨rfl, mirrors, id⟩
  | some head =>
    cases found : head.next? with
    | none => simpa only [found] using ⟨rfl, mirrors, id⟩
    | some next => simpa only [found] using mirrors.move lawful head next next.advance

theorem perform_navigation (lawful : IsView view) (mirrors : Mirrors view player mirror)
    (navigation : Navigation) :
    Alike view (mirror.playing = player.playing) (navigation.perform player)
      (navigation.perform mirror) := by
  cases navigation with
  | load timeline =>
    have moved := mirrors.pause.move lawful (.start timeline) (.start timeline)
      (Playhead.start timeline).replay
    obtain ⟨answer, after, playing⟩ := moved
    exact ⟨by simp only [Navigation.perform, Player.load, answer], after, fun _ => playing rfl⟩
  | forward => exact (mirrors.forward lawful).map _
  | backward =>
    have alike : Alike view (mirror.playing = player.playing) player.backward mirror.backward := by
      simp only [Player.backward, mirrors.playhead]
      cases player.playhead with
      | none => exact ⟨rfl, mirrors, id⟩
      | some head =>
        cases found : head.previous? with
        | none => simpa only [found] using ⟨rfl, mirrors, id⟩
        | some previous =>
          simpa only [found] using mirrors.move lawful head previous (head.retreat previous)
    exact alike.map _
  | jump index =>
    have alike : Alike view (mirror.playing = player.playing) (player.jump index) (mirror.jump index) := by
      simp only [Player.jump, mirrors.playhead]
      cases player.playhead with
      | none => exact ⟨rfl, mirrors, id⟩
      | some head =>
        cases found : head.at? index with
        | none => simpa only [found] using ⟨rfl, mirrors, id⟩
        | some target => simpa only [found] using mirrors.move lawful head target target.replay
    exact alike.map _
  | seek t =>
    have alike : Alike view (mirror.playing = player.playing) (player.seek t) (mirror.seek t) := by
      simp only [Player.seek, mirrors.playhead, mirrors.epsilon]
      cases player.playhead with
      | none => exact ⟨rfl, mirrors, id⟩
      | some head => exact mirrors.move lawful head _ _
    exact alike.map _

/-! ### Playback -/

/-- Playback that is on for both, or off for both, takes the same course. -/
theorem playFrom (lawful : IsView view) (mirrors : Mirrors view player mirror)
    (flags : mirror.playing = player.playing) (clock : Clock) (interruptions : Interruptions)
    (waits elapsed toCome : Nat) :
    let run := player.playFrom clock interruptions waits elapsed toCome
    let mirrored := mirror.playFrom clock interruptions waits elapsed toCome
    mirrored.result = run.result ∧ Mirrors view run.player mirrored.player := by
  induction toCome generalizing player mirror waits elapsed with
  | zero => exact ⟨by simp only [Player.playFrom, flags], mirrors⟩
  | succ toCome ih =>
    -- The loop reads the flag, the frame and the scale, which are the same for both.
    have waitTime : mirror.waitTime = player.waitTime := by
      simp only [Player.waitTime, mirrors.playhead, mirrors.scale]
    simp only [Player.playFrom, flags, waitTime]
    cases player.playing with
    | false => exact ⟨rfl, mirrors⟩
    | true =>
      cases player.waitTime with
      | error error => exact ⟨rfl, mirrors⟩
      | ok delay =>
        cases delay with
        | none => exact ⟨rfl, mirrors⟩
        | some delay =>
          cases interrupted : interruptions waits (elapsed + clock.wait delay) with
          | true =>
            simp only [interrupted, if_true]
            exact ⟨trivial, mirrors.pause⟩
          | false =>
            obtain ⟨answer, after, playing⟩ := mirrors.forward lawful
            have flagsAfter := playing flags
            simp only [interrupted, Bool.false_eq_true, if_false, if_true]
            generalize player.forward = stepped at answer after flagsAfter ⊢
            generalize mirror.forward = mirrorStepped at answer after flagsAfter ⊢
            obtain ⟨result, stepped⟩ := stepped
            obtain ⟨mirrorResult, mirrorStepped⟩ := mirrorStepped
            cases answer
            cases result with
            | error error => exact ⟨rfl, after⟩
            | ok index => exact ih after flagsAfter _ _

theorem perform (lawful : IsView view) (mirrors : Mirrors view player mirror) (call : Call) :
    Alike view (mirror.playing = player.playing) (call.perform player) (call.perform mirror) := by
  cases call with
  | navigate navigation => exact mirrors.perform_navigation lawful navigation
  | pause => exact ⟨rfl, mirrors.pause, fun _ => rfl⟩
  | play clock interruptions =>
    cases loaded : player.playhead with
    | none =>
      have unloaded := mirrors.playhead.trans loaded
      simp only [Call.perform, Player.playAmid_of_unloaded loaded, Player.playAmid_of_unloaded unloaded]
      exact ⟨rfl, mirrors, id⟩
    | some head =>
      have started : Mirrors view player.resume mirror.resume :=
        ⟨mirrors.playhead, mirrors.scale, mirrors.epsilon, mirrors.host⟩
      obtain ⟨result, after⟩ :=
        started.playFrom lawful rfl clock interruptions 0 0 (head.last - head.index)
      simp only [Call.perform, Player.playAmid_of_loaded loaded,
        Player.playAmid_of_loaded (mirrors.playhead.trans loaded)]
      exact ⟨congrArg (Except.map Answer.ended) result, after.pause, fun _ => rfl⟩

theorem performAll (lawful : IsView view) (mirrors : Mirrors view player mirror) (calls : List Call) :
    Alike view (mirror.playing = player.playing) (player.performAll calls) (mirror.performAll calls) := by
  induction calls generalizing player mirror with
  | nil => exact ⟨rfl, mirrors, id⟩
  | cons call rest ih =>
    obtain ⟨answer, after, playing⟩ := mirrors.perform lawful call
    obtain ⟨answers, final, playingFinal⟩ := ih after
    exact ⟨by simp only [Player.performAll, answer, answers], final, fun same => playingFinal (playing same)⟩

end Mirrors

/-! ### A host that keeps a record -/

/-- A host with all effects that it was given, in order. -/
structure Recorded (η : Type) where
  host : η
  effects : List Effect

instance : Host (Recorded η) where
  receive recorded effect :=
    let reply := Host.receive recorded.host effect
    ⟨reply.refusal, reply.pauses, ⟨reply.host, recorded.effects ++ [effect]⟩⟩

theorem isView_recorded : IsView (Recorded.host : Recorded η → η) := fun _ _ => rfl

/-- The player on a host that begins a record. -/
def Player.recorded (player : Player η) : Player (Recorded η) :=
  { player with host := ⟨player.host, []⟩ }

omit [Host η] in
theorem mirrors_recorded (player : Player η) : Mirrors Recorded.host player.recorded player :=
  ⟨rfl, rfl, rfl, rfl⟩

end PacketReplay
