import PacketReplay.Proofs.Player.Playback

/-!
# Players on registers

A playhead carries the proof that its index lies inside of the timeline. Here a player is what it is in memory:
a timeline and an index that nothing keeps together. All arithmetic on the index is checked to fit a machine
word, every frame and every slice is looked up with a check, and a check that fails is a fault. The requests
are written out once more on these registers, and they do what the player does, without a fault
(`Player.perform_registers`): the invariants of the player are what makes the checks superfluous.
-/
namespace PacketReplay

/-- What must not happen. -/
inductive Fault where
  /-- A frame, or a slice up to and including a frame, that is not there. -/
  | outside (index : Nat)
  /-- A number below zero, or one that does not fit a word. -/
  | overflow
  /-- A loop of playback that goes on for longer than there are frames. -/
  | endless
  deriving DecidableEq, Repr

def checkedSucc (index : Nat) : Except Fault Nat :=
  if index + 1 < UInt64.size then .ok (index + 1) else .error .overflow

def checkedPred (index : Nat) : Except Fault Nat :=
  if index = 0 then .error .overflow else .ok (index - 1)

namespace Timeline

/-- No list of frames in memory is longer: it has at most `2 ^ 63 - 1` bytes. -/
def Fits (timeline : Timeline) : Prop := timeline.size ≤ 9223372036854775807

def checkedLast (timeline : Timeline) : Except Fault Nat := checkedPred timeline.size

def checkedFrame (timeline : Timeline) (index : Nat) : Except Fault Frame :=
  match timeline.frame? index with
  | none => .error (.outside index)
  | some frame => .ok frame

/-- The frames up to and including an index. -/
def checkedUpTo (timeline : Timeline) (index : Nat) : Except Fault (List Frame) :=
  if index < timeline.size then .ok (timeline.frames.take (index + 1)) else .error (.outside index)

@[simp] theorem checkedLast_eq (timeline : Timeline) : timeline.checkedLast = .ok timeline.lastIndex :=
  if_neg (Nat.ne_of_gt timeline.size_pos)

end Timeline

namespace Playhead

theorem checkedFrame_index (head : Playhead) : head.timeline.checkedFrame head.index = .ok head.frame := by
  have found : head.timeline.frame? head.index = some head.frame := List.getElem?_eq_getElem head.inside
  rw [Timeline.checkedFrame, found]

theorem checkedUpTo_index (head : Playhead) :
    head.timeline.checkedUpTo head.index = .ok (head.timeline.frames.take (head.index + 1)) :=
  if_pos head.inside

theorem checkedSucc_index {head : Playhead} (fits : head.timeline.Fits) :
    checkedSucc head.index = .ok (head.index + 1) := by
  have inside := head.inside
  unfold Timeline.Fits at fits
  exact if_pos (show head.index + 1 < 18446744073709551616 by omega)

/-- The frame after this one, looked up by its index. -/
theorem frame?_index_succ (head : Playhead) :
    head.timeline.frame? (head.index + 1) = head.next?.map Playhead.frame := by
  unfold next?
  split
  next inside => exact List.getElem?_eq_getElem inside
  next outside => exact List.getElem?_eq_none (Nat.le_of_not_lt outside)

end Playhead

/-! ### Requests on registers -/

structure Registers (η : Type) where
  timeline : Option Timeline
  current : Nat
  playing : Bool
  scale : Float
  epsilon : Float
  host : η

/-- The timeline that is loaded. -/
def Player.timeline? {η : Type} (player : Player η) : Option Timeline := player.playhead.map Playhead.timeline

/-- What a player has in its registers. Without a timeline the index is zero. -/
def Player.registers {η : Type} (player : Player η) : Registers η where
  timeline := player.timeline?
  current := player.index?.getD 0
  playing := player.playing
  scale := player.scale
  epsilon := player.epsilon
  host := player.host

namespace Registers

variable {η : Type}

def pause (registers : Registers η) : Registers η := { registers with playing := false }

def resume (registers : Registers η) : Registers η := { registers with playing := true }

def waitTime (registers : Registers η) : Except Fault (Except PlayerError (Option Nat)) :=
  match registers.timeline with
  | none => return .error .notLoaded
  | some timeline => do
    let next ← checkedSucc registers.current
    match timeline.frame? registers.current, timeline.frame? next with
    | some earlier, some later => return .ok (some (delayOf registers.scale earlier.t later.t))
    | _, _ => return .ok none

variable [Host η]

/-- Deliver effects. -/
def send (registers : Registers η) (effects : List Effect) : Option Refusal × Registers η :=
  let reply := deliver false registers.host effects
  (reply.refusal, { registers with playing := registers.playing && !reply.pauses, host := reply.host })

/-- Show the host all frames up to the current one, and pass over a refusal. -/
def rebuild (registers : Registers η) (timeline : Timeline) : Except Fault (Registers η) := do
  -- The slice is asked for even if the host refuses the very first effect.
  let shown ← timeline.checkedUpTo registers.current
  return (registers.send (.clear :: appliedFrom 0 shown)).2

/-- Deliver effects and go to an index; if one is refused, stay at the current one. -/
def go (registers : Registers η) (timeline : Timeline) (index : Nat) (effects : List Effect) :
    Except Fault (Except PlayerError Nat × Registers η) :=
  match registers.send effects with
  | (none, registers) => return (.ok index, { registers with current := index })
  | (some refusal, registers) => return (.error (.refused refusal), ← registers.rebuild timeline)

/-- Start from nothing and add all frames up to an index. -/
def replay (registers : Registers η) (timeline : Timeline) (index : Nat) :
    Except Fault (Except PlayerError Nat × Registers η) := do
  let shown ← timeline.checkedUpTo index
  registers.go timeline index (.clear :: appliedFrom 0 shown)

def load (registers : Registers η) (timeline : Timeline) :
    Except Fault (Except PlayerError Unit × Registers η) := do
  let loaded := { registers.pause with timeline := some timeline, current := 0 : Registers η }
  let (result, registers) ← loaded.replay timeline 0
  return (result.map fun _ => (), registers)

def forward (registers : Registers η) : Except Fault (Except PlayerError Nat × Registers η) :=
  match registers.timeline with
  | none => return (.error .notLoaded, registers)
  | some timeline => do
    let next ← checkedSucc registers.current
    -- That there is no next frame is an answer, not a fault.
    match timeline.frame? next with
    | none => return (.error (.outOfRange (shownIndex next) (← timeline.checkedLast)), registers)
    | some frame => registers.go timeline next (frame.applied next)

def backward (registers : Registers η) : Except Fault (Except PlayerError Nat × Registers η) :=
  match registers.timeline with
  | none => return (.error .notLoaded, registers)
  | some timeline =>
    if registers.current = 0 then do
      return (.error (.outOfRange (-1) (← timeline.checkedLast)), registers)
    else do
      let previous ← checkedPred registers.current
      let frame ← timeline.checkedFrame registers.current
      let before ← timeline.checkedFrame previous
      registers.go timeline previous (frame.undone ++ [before.readout previous])

def jump (registers : Registers η) (index : Nat) : Except Fault (Except PlayerError Nat × Registers η) :=
  match registers.timeline with
  | none => return (.error .notLoaded, registers)
  | some timeline => do
    let last ← timeline.checkedLast
    if last < index then return (.error (.outOfRange (shownIndex index) last), registers)
    else registers.replay timeline index

/-- The index that a lookup by time gives is checked like any other. -/
def seek (registers : Registers η) (t : Float) : Except Fault (Except PlayerError Nat × Registers η) :=
  match registers.timeline with
  | none => return (.error .notLoaded, registers)
  | some timeline => registers.jump (timeline.indexAt t registers.epsilon)

/-- The loop of playback, for fewer passes than a number. -/
def playLoop (clock : Clock) (interruptions : Interruptions) (waits elapsed : Nat) (registers : Registers η) :
    Nat → Except Fault (Except PlayerError Ending × Registers η)
  | 0 => .error .endless
  | passes + 1 =>
    if registers.playing then do
      match ← registers.waitTime with
      | .error error => return (.error error, registers)
      | .ok none => return (.ok .finished, registers)
      | .ok (some delay) =>
        let waited := elapsed + clock.wait delay
        if interruptions waits waited then return (.ok .paused, registers.pause)
        else
          match ← registers.forward with
          | (.error error, registers) => return (.error error, registers)
          | (.ok _, registers) => playLoop clock interruptions (waits + 1) waited registers passes
    else return (.ok .paused, registers)

/-- Each pass but the last goes to another frame, so there are at most as many passes as frames. -/
def play (registers : Registers η) (clock : Clock) (interruptions : Interruptions) :
    Except Fault (Except PlayerError Ending × Registers η) :=
  match registers.timeline with
  | none => return (.error .notLoaded, registers)
  | some timeline => do
    let (result, registers) ← playLoop clock interruptions 0 0 registers.resume timeline.size
    return (result, registers.pause)

/-- Make a call, with its answer. -/
def perform (registers : Registers η) : Call → Except Fault (Except PlayerError Answer × Registers η)
  | .navigate (.load timeline) => return Prod.map (Except.map fun _ => .done) id (← registers.load timeline)
  | .navigate .forward => return Prod.map (Except.map .shown) id (← registers.forward)
  | .navigate .backward => return Prod.map (Except.map .shown) id (← registers.backward)
  | .navigate (.jump index) => return Prod.map (Except.map .shown) id (← registers.jump index)
  | .navigate (.seek t) => return Prod.map (Except.map .shown) id (← registers.seek t)
  | .pause => return (.ok .done, registers.pause)
  | .play clock interruptions =>
    return Prod.map (Except.map .ended) id (← registers.play clock interruptions)

end Registers

/-! ### No faults -/

namespace Player

variable {η : Type} [Host η]

/-- What an operation leaves in the registers. -/
def settled {α : Type} (outcome : α × Player η) : Except Fault (α × Registers η) :=
  .ok (outcome.1, outcome.2.registers)

theorem go_registers {player : Player η} {origin target : Playhead} (here : player.playhead = some origin)
    (same : target.timeline = origin.timeline) (effects : List Effect) :
    player.registers.go origin.timeline target.index effects = settled (player.move origin target effects) := by
  obtain ⟨playhead, playing, scale, epsilon, host⟩ := player
  cases here
  cases replied : (deliver false host effects).refusal with
  | none =>
    rw [move_of_accepted replied]
    simp only [Registers.go, Registers.send, registers, replied]
    simp [settled, registers, timeline?, index?, same, pure, Except.pure]
  | some refusal =>
    rw [move_of_refused replied]
    simp only [Registers.go, Registers.send, Registers.rebuild, registers, replied, index?, Option.map_some,
      Option.getD_some, origin.checkedUpTo_index]
    rfl

theorem replay_registers {player : Player η} {origin target : Playhead} (here : player.playhead = some origin)
    (same : target.timeline = origin.timeline) :
    player.registers.replay origin.timeline target.index = settled (player.move origin target target.replay) := by
  rw [← go_registers here same, Registers.replay, ← same, target.checkedUpTo_index]
  rfl

theorem load_registers (player : Player η) (timeline : Timeline) :
    player.registers.load timeline = settled (player.load timeline) := by
  let loaded : Player η := { player.pause with playhead := some (.start timeline) }
  have shown : loaded.playhead = some (.start timeline) := rfl
  have replayed : loaded.registers.replay timeline 0 =
      settled (loaded.move (.start timeline) (.start timeline) (Playhead.start timeline).replay) :=
    replay_registers shown rfl
  have same : { player.registers.pause with timeline := some timeline, current := 0 } = loaded.registers := rfl
  simp only [Registers.load, same, replayed]
  rfl

section Loaded

variable {player : Player η} {head : Playhead} (here : player.playhead = some head)

include here

omit [Host η] in
theorem timeline_registers : player.registers.timeline = some head.timeline := by
  simp only [registers, timeline?, here, Option.map_some]

omit [Host η] in
theorem current_registers : player.registers.current = head.index := by
  simp only [registers, index?, here, Option.map_some, Option.getD_some]

theorem jump_registers (index : Nat) : player.registers.jump index = settled (player.jump index) := by
  simp only [Registers.jump, timeline_registers here, Timeline.checkedLast_eq, bind, Except.bind, Player.jump, here]
  have beyond := head.at?_eq_none_iff index
  cases found : head.at? index with
  | none =>
    have outside : head.timeline.lastIndex < index := beyond.mp found
    simp only [if_pos outside]
    rfl
  | some target =>
    have inside : ¬head.timeline.lastIndex < index :=
      fun outside => Option.some_ne_none target (found.symm.trans (beyond.mpr outside))
    obtain ⟨same, rfl⟩ := Playhead.at?_eq_some found
    simp only [if_neg inside]
    exact replay_registers here same

theorem backward_registers : player.registers.backward = settled player.backward := by
  simp only [Registers.backward, timeline_registers here, current_registers here, Timeline.checkedLast_eq, bind,
    Except.bind, Player.backward, here]
  cases found : head.previous? with
  | none =>
    rw [if_pos ((head.previous?_eq_none_iff).mp found)]
    rfl
  | some previous =>
    obtain ⟨same, index⟩ := Playhead.next?_eq_some (Playhead.previous?_eq_some found)
    have before : head.timeline.checkedFrame previous.index = .ok previous.frame := same ▸ previous.checkedFrame_index
    have positive : head.index ≠ 0 := by omega
    -- The frame before is looked up by its own index, and it is that of a playhead.
    have predecessor : checkedPred head.index = .ok previous.index := by
      rw [checkedPred, if_neg positive, index, Nat.add_sub_cancel]
    simp only [if_neg positive, predecessor, head.checkedFrame_index, before]
    exact go_registers here same.symm (head.retreat previous)

variable (fits : head.timeline.Fits)

include fits

theorem forward_registers : player.registers.forward = settled player.forward := by
  simp only [Registers.forward, timeline_registers here, current_registers here, Timeline.checkedLast_eq, bind,
    Except.bind, Playhead.checkedSucc_index fits, head.frame?_index_succ, Player.forward, here]
  cases found : head.next? with
  | none => rfl
  | some next =>
    obtain ⟨same, index⟩ := Playhead.next?_eq_some found
    rw [← index]
    exact go_registers here same next.advance

omit [Host η] in
theorem waitTime_registers_of_loaded : player.registers.waitTime = .ok player.waitTime := by
  have shown : head.timeline.frame? head.index = some head.frame := List.getElem?_eq_getElem head.inside
  simp only [Registers.waitTime, timeline_registers here, current_registers here, bind, Except.bind,
    Playhead.checkedSucc_index fits, shown, head.frame?_index_succ, Player.waitTime, here, Playhead.delay?]
  cases head.next? <;> rfl

end Loaded

omit [Host η] in
theorem waitTime_registers {player : Player η}
    (fits : ∀ timeline, player.timeline? = some timeline → timeline.Fits) :
    player.registers.waitTime = .ok player.waitTime := by
  cases loaded : player.playhead with
  | none =>
    simp only [Registers.waitTime, registers, timeline?, loaded, Option.map_none, waitTime]
    rfl
  | some head =>
    exact waitTime_registers_of_loaded loaded (fits head.timeline (by rw [timeline?, loaded, Option.map_some]))

/-- The loop ends in time. -/
theorem playLoop_registers (clock : Clock) (interruptions : Interruptions) (waits elapsed toCome passes : Nat)
    {player : Player η} {head : Playhead} (here : player.playhead = some head) (fits : head.timeline.Fits)
    (ahead : head.last - head.index = toCome) (enough : toCome < passes) :
    player.registers.playLoop clock interruptions waits elapsed passes =
      settled ((player.playFrom clock interruptions waits elapsed toCome).result,
        (player.playFrom clock interruptions waits elapsed toCome).player) := by
  -- By induction on the passes, each of which goes to the next frame.
  induction passes generalizing player head waits elapsed toCome with
  | zero => exact absurd enough (Nat.not_lt_zero _)
  | succ passes ih =>
    have flag : player.registers.playing = player.playing := rfl
    rw [Registers.playLoop, flag]
    cases on : player.playing with
    | false =>
      cases toCome with
      | zero => simp [playFrom, on, settled, pure, Except.pure]
      | succ toCome => simp [playFrom_of_off on, settled, pure, Except.pure]
    | true =>
      simp only [if_true, bind, Except.bind, waitTime_registers_of_loaded here fits, forward_registers here fits]
      cases toCome with
      | zero =>
        -- The last pass only finds that there is no next frame.
        have index := head.index_le_last
        have atLast : head.delay? player.scale = none :=
          (head.delay?_eq_none_iff player.scale).mpr (by omega)
        simp only [waitTime, here, atLast, playFrom, on, if_true]
        rfl
      | succ toCome =>
        obtain ⟨next, found⟩ := Playhead.exists_next (show head.index < head.last by omega)
        obtain ⟨same, index⟩ := Playhead.next?_eq_some found
        have last := Playhead.last_next found
        simp only [waitTime_of_next here found, playFrom, on, if_true]
        cases interruptions waits (elapsed + clock.wait (head.delayAhead player.scale 0)) with
        | true => rfl
        | false =>
          simp only [Bool.false_eq_true, if_false, forward_of_next here found]
          rcases player.move_cases head next next.advance with
            ⟨playing, host, moved⟩ | ⟨refusal, playing, host, moved⟩
          · simp only [moved, settled]
            exact ih _ _ toCome rfl (same ▸ fits) (by omega) (by omega)
          · simp only [moved, settled]
            rfl

theorem play_registers {player : Player η} {head : Playhead} (here : player.playhead = some head)
    (fits : head.timeline.Fits) (clock : Clock) (interruptions : Interruptions) :
    player.registers.play clock interruptions =
      settled ((player.playAmid clock interruptions).result, (player.playAmid clock interruptions).player) := by
  have inside := head.inside
  have enough : head.last - head.index < head.timeline.size := by
    unfold Playhead.last Timeline.lastIndex
    omega
  have shown : player.resume.playhead = some head := here
  have loop := playLoop_registers clock interruptions 0 0 _ _ shown fits rfl enough
  have resumed : player.registers.resume = player.resume.registers := rfl
  simp only [Registers.play, timeline_registers here, resumed, loop, playAmid_of_loaded here]
  rfl

/-- Every call does on the registers what it does on the player, and none of its checks fails. -/
theorem perform_registers {player : Player η} (fits : ∀ timeline, player.timeline? = some timeline → timeline.Fits)
    (call : Call) : player.registers.perform call = settled (call.perform player) := by
  -- Every call but a load asks for the timeline first, and both answer alike where there is none.
  cases loaded : player.playhead with
  | none =>
    have unloaded : player.registers.timeline = none := by simp only [registers, timeline?, loaded, Option.map_none]
    cases call with
    | navigate navigation =>
      cases navigation with
      | load timeline => simp only [Registers.perform, load_registers]; rfl
      | _ =>
        simp only [Registers.perform, Registers.forward, Registers.backward, Registers.jump, Registers.seek, unloaded,
          Call.perform, Navigation.perform, Player.forward, Player.backward, Player.jump, Player.seek, loaded]
        rfl
    | pause => rfl
    | play clock interruptions =>
      simp only [Registers.perform, Registers.play, unloaded, Call.perform, playAmid_of_unloaded loaded]
      rfl
  | some head =>
    have fits := fits head.timeline (by rw [timeline?, loaded, Option.map_some])
    cases call with
    | navigate navigation =>
      cases navigation with
      | load timeline => simp only [Registers.perform, load_registers]; rfl
      | forward => simp only [Registers.perform, forward_registers loaded fits]; rfl
      | backward => simp only [Registers.perform, backward_registers loaded]; rfl
      | jump index => simp only [Registers.perform, jump_registers loaded]; rfl
      | seek t =>
        -- On registers a jump to a time is a jump to the index that is found for it.
        have found : player.jump (head.timeline.indexAt t player.epsilon) = player.seek t := by
          simp only [Player.jump, Player.seek, loaded, Playhead.at?, head.timeline.indexAt_lt_size, dif_pos]
          rfl
        have epsilon : player.registers.epsilon = player.epsilon := rfl
        simp only [Registers.perform, Registers.seek, timeline_registers loaded, epsilon, jump_registers loaded, found]
        rfl
    | pause => rfl
    | play clock interruptions => simp only [Registers.perform, play_registers loaded fits]; rfl

end Player
end PacketReplay
