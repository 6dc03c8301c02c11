import Mathlib.Data.Nat.Count
import PacketReplay.Proofs.Player.Canonical
import PacketReplay.Proofs.Player.Playback

/-!
# Where a pause stops playback

On a host that refuses nothing, a pause stops playback at one frame. The host stops it at the frame whose
readout it pauses at. From outside it is stopped by the first wait that ends after the pause, so at the frame
that was reached by the waits that ended before.

The loop is taken apart once (`Reaches`): after a number of steps it goes on from a later frame, with that
many waits behind it. What is left is how it ends there.
-/
namespace PacketReplay

/-! ### Moments -/

theorem Interruptions.ofMoments_eq_true_iff (pause : Option Nat) (waits ended : Nat) :
    Interruptions.ofMoments pause.toList waits ended = true ↔ ∃ moment ∈ pause, moment < ended := by
  simp [ofMoments]

namespace Playhead

theorem waited_succ_last (head : Playhead) (clock : Clock) (scale : Float) (waits : Nat) :
    head.waited clock scale (waits + 1) =
      head.waited clock scale waits + clock.wait (head.delayAhead scale waits) := by
  simp only [waited, List.range_succ, List.map_append, List.map_cons, List.map_nil, List.sum_append,
    List.sum_cons, List.sum_nil, Nat.add_zero]

theorem waited_mono (head : Playhead) (clock : Clock) (scale : Float) :
    Monotone (head.waited clock scale) :=
  monotone_nat_of_le_succ fun waits => by
    rw [waited_succ_last]
    exact Nat.le_add_right _ _

/-- A wait at a later frame is one of the waits from here on. -/
theorem waited_later {head later : Playhead} {ahead : Nat}
    (found : head.at? (head.index + ahead) = some later) (clock : Clock) (scale : Float) :
    head.waited clock scale (ahead + 1) =
      head.waited clock scale ahead + later.waited clock scale 1 := by
  obtain ⟨timeline, index⟩ := at?_eq_some found
  have same : later.delayAhead scale 0 = head.delayAhead scale ahead := by
    simp only [delayAhead, at?, timeline, index, Nat.add_zero]
  rw [waited_succ_last, waited_one, same]

/-- How many of the waits up to the last frame have ended before a moment. -/
def waitsBefore (head : Playhead) (clock : Clock) (scale : Float) (moment : Nat) : Nat :=
  Nat.count (fun wait => head.waited clock scale (wait + 1) < moment) (head.last - head.index)

section Before

variable {head : Playhead} {clock : Clock} {scale : Float} {moment : Nat}

/-- The waits that have ended before a moment are the first ones. -/
theorem lt_waitsBefore_iff {wait : Nat} (inside : wait < head.last - head.index) :
    wait < head.waitsBefore clock scale moment ↔ head.waited clock scale (wait + 1) < moment := by
  have ordered := head.waited_mono clock scale
  constructor
  · intro counted
    by_contra late
    -- Then no wait from this one on has ended, and only those in front of it are counted.
    have none : ∀ later, ¬ head.waited clock scale (wait + later + 1) < moment := by
      intro later early
      have order := ordered (show wait + 1 ≤ wait + later + 1 by omega)
      omega
    have split : head.last - head.index = wait + (head.last - head.index - wait) := by omega
    rw [waitsBefore, split, Nat.count_add,
      Nat.count_iff_forall_not.mpr fun later _ => none later] at counted
    exact Nat.not_lt_of_ge (Nat.count_le _) counted
  · intro early
    have all : ∀ other < wait + 1, head.waited clock scale (other + 1) < moment := by
      intro other before
      exact lt_of_le_of_lt (ordered (by omega)) early
    calc wait + 1
        = Nat.count (fun wait => head.waited clock scale (wait + 1) < moment) (wait + 1) :=
          (Nat.count_iff_forall.mpr all).symm
      _ ≤ head.waitsBefore clock scale moment :=
          Nat.count_monotone _ (Nat.succ_le_of_lt inside)

theorem waited_lt_of_le_waitsBefore {wait : Nat} (positive : 1 ≤ wait)
    (counted : wait ≤ head.waitsBefore clock scale moment) : head.waited clock scale wait < moment := by
  have bound : head.waitsBefore clock scale moment ≤ head.last - head.index := Nat.count_le _
  obtain ⟨earlier, rfl⟩ := Nat.exists_eq_add_of_le' positive
  exact (lt_waitsBefore_iff (by omega)).mp counted

/-- A moment before the end comes before the end of some wait. -/
theorem waitsBefore_lt (inTime : moment < head.waited clock scale (head.last - head.index)) :
    head.waitsBefore clock scale moment < head.last - head.index := by
  have bound : head.waitsBefore clock scale moment ≤ head.last - head.index := Nat.count_le _
  refine Nat.lt_of_le_of_ne bound ?_
  intro all
  -- If all waits had ended before the moment, so would the last one have.
  rcases Nat.eq_zero_or_pos (head.last - head.index) with zero | positive
  · rw [zero] at inTime
    exact Nat.not_lt_zero moment inTime
  · have ended := waited_lt_of_le_waitsBefore positive (Nat.le_of_eq all.symm)
    omega

theorem le_waited_waitsBefore (inTime : moment < head.waited clock scale (head.last - head.index)) :
    moment ≤ head.waited clock scale (head.waitsBefore clock scale moment + 1) := by
  by_contra early
  have counted := (lt_waitsBefore_iff (waitsBefore_lt inTime)).mpr (Nat.lt_of_not_le early)
  exact Nat.lt_irrefl _ counted

/-- A wait is not interrupted if it has ended before the pause, or if the pause comes after the end. -/
theorem ofMoments_eq_false {pause : Option Nat} {waits : Nat} (inside : waits ≤ head.last - head.index)
    (early : ∀ moment ∈ pause, moment < head.waited clock scale (head.last - head.index) →
      waits ≤ head.waitsBefore clock scale moment) {wait : Nat} (earlier : wait < waits) :
    Interruptions.ofMoments pause.toList wait (head.waited clock scale (wait + 1)) = false := by
  rw [Bool.eq_false_iff, Ne, Interruptions.ofMoments_eq_true_iff]
  rintro ⟨moment, pauses, passed⟩
  by_cases inTime : moment < head.waited clock scale (head.last - head.index)
  · have counted := Nat.lt_of_lt_of_le earlier (early moment pauses inTime)
    have ended := (lt_waitsBefore_iff (by omega)).mp counted
    omega
  · have order := head.waited_mono clock scale (show wait + 1 ≤ head.last - head.index by omega)
    omega

end Before

end Playhead

/-! ### A host that refuses nothing -/

theorem ScriptedHost.deliver_of_applyAll {host : ScriptedHost} {after : Screen} {effects : List Effect}
    (accepts : host.count = 0) (applied : host.screen.applyAll effects = .ok after) (paused : Bool) :
    ∃ transcript, deliver paused host effects =
      ⟨none, paused || effects.any host.pausesAt, { host with screen := after, transcript }⟩ := by
  induction effects generalizing host paused with
  | nil =>
    cases applied
    exact ⟨host.transcript, by simp [deliver]⟩
  | cons effect rest ih =>
    obtain ⟨next, first, later⟩ := Screen.exists_of_applyAll_cons applied
    have received : Host.receive host effect =
        ⟨none, host.pausesAt effect, { host.log "" effect with screen := next }⟩ := by
      simp only [Host.receive, accepts, pass, first]
    have accepting : ScriptedHost.count { host.log "" effect with screen := next } = 0 := accepts
    obtain ⟨transcript, delivered⟩ := ih accepting later (paused || host.pausesAt effect)
    have kept : ScriptedHost.pausesAt { host.log "" effect with screen := next } = host.pausesAt := by
      funext effect
      cases effect <;> rfl
    refine ⟨transcript, ?_⟩
    rw [kept] at delivered
    simp only [deliver, received, delivered, List.any_cons, Bool.or_assoc]
    rfl

/-- Of the effects of a frame only the readout can pause playback. -/
theorem ScriptedHost.any_pausesAt_advance (host : ScriptedHost) (head : Playhead) :
    head.advance.any host.pausesAt = decide (host.pauseAt = some head.index) := by
  have silent : ∀ action : Action, host.pausesAt action.added = false := by
    intro action
    unfold Action.added
    split <;> rfl
  have actions : (head.frame.actions.map Action.added).any host.pausesAt = false := by
    simp [List.any_map, silent]
  rw [Playhead.advance, Frame.applied, List.any_append, actions, Bool.false_or, List.any_cons, List.any_nil,
    Bool.or_false]
  rfl

/-- The player is at a frame, with a host that shows the screen of that frame and refuses nothing. -/
structure Player.Shows (player : Player ScriptedHost) (head : Playhead) : Prop where
  here : player.playhead = some head
  accepts : player.host.count = 0
  screen : player.host.screen = head.canonical

/-- What the screen can take leads to its target, and playback goes on unless the host pauses it. -/
theorem Player.shows_move {player : Player ScriptedHost} {target : Playhead} {effects : List Effect}
    (accepts : player.host.count = 0)
    (applied : player.host.screen.applyAll effects = .ok target.canonical) (origin : Playhead) :
    ∃ after, player.move origin target effects = (.ok target.index, after) ∧ after.Shows target ∧
      after.scale = player.scale ∧ after.host.pauseAt = player.host.pauseAt ∧
      after.playing = (player.playing && !effects.any player.host.pausesAt) := by
  obtain ⟨transcript, delivered⟩ := ScriptedHost.deliver_of_applyAll accepts applied false
  have accepted : (deliver false player.host effects).refusal = none := by rw [delivered]
  have moved := Player.move_of_accepted accepted origin target
  rw [delivered, Bool.false_or] at moved
  exact ⟨_, moved, ⟨rfl, accepts, rfl⟩, rfl, rfl, rfl⟩

/-- A new timeline is shown from its first frame, whatever the screen showed before. -/
theorem Player.shows_load {player : Player ScriptedHost} (accepts : player.host.count = 0)
    (timeline : Timeline) : (player.load timeline).2.Shows (.start timeline) := by
  have accepting : player.pause.host.count = 0 := accepts
  obtain ⟨after, moved, shows, _⟩ := Player.shows_move accepting
    (Screen.applyAll_replay player.host.screen (.start timeline)) (.start timeline)
  rw [Player.load, moved]
  exact shows

/-- Every frame can be jumped to. -/
theorem Player.Shows.jump {player : Player ScriptedHost} {head target : Playhead} {index : Nat}
    (shows : player.Shows head) (found : head.at? index = some target) :
    (player.jump index).2.Shows target := by
  obtain ⟨after, moved, there, _⟩ := Player.shows_move shows.accepts
    (Screen.applyAll_replay player.host.screen target) head
  simp only [Player.jump, shows.here, found, moved]
  exact there

theorem Player.Shows.forward {player : Player ScriptedHost} {head next : Playhead}
    (shows : player.Shows head) (found : head.next? = some next) :
    ∃ after, player.forward = (.ok next.index, after) ∧ after.Shows next ∧ after.scale = player.scale ∧
      after.host.pauseAt = player.host.pauseAt ∧
      after.playing = (player.playing && !decide (player.host.pauseAt = some next.index)) := by
  have applied := Screen.applyAll_advance found
  rw [← shows.screen] at applied
  have moved := Player.shows_move shows.accepts applied head
  rw [ScriptedHost.any_pausesAt_advance, ← Player.forward_of_next shows.here found] at moved
  exact moved

/-! ### The loop -/

section Loop

variable (clock : Clock) (interruptions : Interruptions) (player : Player ScriptedHost) (head : Playhead)

/-- After a number of steps the loop goes on at a later frame, and all it has done so far is to wait. -/
structure Player.Reaches (steps : Nat) (later : Player ScriptedHost) (there : Playhead) : Prop where
  found : head.at? (head.index + steps) = some there
  shows : later.Shows there
  scale : later.scale = player.scale
  pauseAt : later.host.pauseAt = player.host.pauseAt
  loop : player.playFrom clock interruptions 0 0 (head.last - head.index) =
    later.playFrom clock interruptions steps (head.waited clock player.scale steps)
      (head.last - head.index - steps)

variable {player head} {steps : Nat}

section Step

variable {clock interruptions} {later : Player ScriptedHost} {there : Playhead}

theorem Player.Reaches.start (shows : player.Shows head) :
    player.Reaches clock interruptions head 0 player head where
  found := head.at?_index
  shows := shows
  scale := rfl
  pauseAt := rfl
  loop := rfl

/-- One more step, unless playback is off, at the last frame, or interrupted. -/
theorem Player.Reaches.step (reaches : player.Reaches clock interruptions head steps later there)
    (on : later.playing = true) (before : steps < head.last - head.index)
    (undisturbed : interruptions steps (head.waited clock player.scale (steps + 1)) = false) :
    ∃ after next, player.Reaches clock interruptions head (steps + 1) after next ∧
      after.playing = !decide (player.host.pauseAt = some (head.index + (steps + 1))) := by
  obtain ⟨_, index⟩ := Playhead.at?_eq_some reaches.found
  have last := Playhead.last_at? reaches.found
  -- There is a next frame, and the host takes it; so only its readout decides whether playback goes on.
  obtain ⟨next, found⟩ := Playhead.exists_next (show there.index < there.last by omega)
  have position := Playhead.at?_next reaches.found found
  have nextIndex : next.index = head.index + (steps + 1) := (Playhead.at?_eq_some position).2
  obtain ⟨after, forward, shows, scale, pauseAt, playing⟩ := reaches.shows.forward found
  refine ⟨after, next, ⟨position, shows, scale.trans reaches.scale, pauseAt.trans reaches.pauseAt, ?_⟩, ?_⟩
  · -- The loop makes this step after one more wait.
    have moment := Playhead.waited_later reaches.found clock player.scale
    rw [moment, ← reaches.scale] at undisturbed
    have toCome : head.last - head.index - steps = (head.last - head.index - (steps + 1)) + 1 := by omega
    rw [reaches.loop, toCome, moment, ← reaches.scale]
    exact playFrom_of_step reaches.shows.here found on _ undisturbed forward
  · rw [playing, on, Bool.true_and, reaches.pauseAt, nextIndex]

end Step

/-- As long as neither side pauses, the loop makes any number of steps and playback stays on. -/
theorem Player.Shows.reaches (shows : player.Shows head) (on : player.playing = true)
    (inside : steps ≤ head.last - head.index)
    (silent : ∀ index ∈ player.host.pauseAt, head.index < index → head.index + steps < index)
    (undisturbed : ∀ wait < steps, interruptions wait (head.waited clock player.scale (wait + 1)) = false) :
    ∃ later there, player.Reaches clock interruptions head steps later there ∧ later.playing = true := by
  induction steps with
  | zero => exact ⟨player, head, .start shows, on⟩
  | succ steps ih =>
    obtain ⟨later, there, reaches, stillOn⟩ := ih (by omega)
      (fun index pauses ahead => by
        have := silent index pauses ahead
        omega)
      (fun wait before => undisturbed wait (by omega))
    obtain ⟨after, next, stepped, playing⟩ := reaches.step stillOn (by omega) (undisturbed steps (by omega))
    refine ⟨after, next, stepped, ?_⟩
    have passes : player.host.pauseAt ≠ some (head.index + (steps + 1)) := by
      intro pauses
      have := silent _ pauses (by omega)
      omega
    rw [playing, decide_eq_false passes, Bool.not_false]

end Loop

/-! ### How playback ends -/

/-- A run of playback has come to an end at a frame. -/
structure Playback.Halts (run : Playback ScriptedHost) (ending : Ending) (moment : Nat) (stop : Playhead) :
    Prop where
  result : run.result = .ok ending
  elapsed : run.elapsed = moment
  off : run.player.playing = false
  shows : run.player.Shows stop

section Ends

variable {player : Player ScriptedHost} {head : Playhead}

theorem Player.Shows.resume (shows : player.Shows head) : player.resume.Shows head :=
  ⟨shows.here, shows.accepts, shows.screen⟩

theorem Player.Shows.pause (shows : player.Shows head) : player.pause.Shows head :=
  ⟨shows.here, shows.accepts, shows.screen⟩

variable (clock : Clock) (interruptions : Interruptions)

theorem Player.Shows.halts (shows : player.Shows head) {ending : Ending} {moment : Nat}
    {stopped : Player ScriptedHost} {stop : Playhead}
    (loop : player.resume.playFrom clock interruptions 0 0 (head.last - head.index) =
      ⟨.ok ending, moment, stopped⟩)
    (stops : stopped.Shows stop) :
    (player.playAmid clock interruptions).Halts ending moment stop := by
  rw [Player.playAmid_of_loaded shows.here, loop]
  exact ⟨rfl, rfl, rfl, stops.pause⟩

/-- Nothing pauses playback. -/
theorem Player.Shows.halts_finished (shows : player.Shows head)
    (silent : ∀ index ∈ player.host.pauseAt, head.index < index → head.last < index)
    (undisturbed : ∀ wait < head.last - head.index,
      interruptions wait (head.waited clock player.scale (wait + 1)) = false) :
    ∃ stop, head.at? head.last = some stop ∧ (player.playAmid clock interruptions).Halts .finished
      (head.waited clock player.scale (head.last - head.index)) stop := by
  have order := head.index_le_last
  obtain ⟨later, there, reaches, on⟩ := shows.resume.reaches clock interruptions rfl (Nat.le_refl _)
    (fun index pauses ahead => by
      have := silent index pauses ahead
      omega)
    undisturbed
  have found := reaches.found
  rw [Nat.add_sub_cancel' order] at found
  refine ⟨there, found, shows.halts clock interruptions ?_ reaches.shows⟩
  rw [reaches.loop, Nat.sub_self, Player.playFrom, on]
  rfl

/-- The host pauses playback when it is given a readout. -/
theorem Player.Shows.halts_paused_by_host (shows : player.Shows head) {index : Nat}
    (pauses : player.host.pauseAt = some index) (ahead : head.index < index) (inside : index ≤ head.last)
    (undisturbed : ∀ wait < index - head.index,
      interruptions wait (head.waited clock player.scale (wait + 1)) = false) :
    ∃ stop, head.at? index = some stop ∧ (player.playAmid clock interruptions).Halts .paused
      (head.waited clock player.scale (index - head.index)) stop := by
  obtain ⟨steps, rfl⟩ : ∃ steps, index = head.index + (steps + 1) := ⟨index - head.index - 1, by omega⟩
  rw [Nat.add_sub_cancel_left] at undisturbed ⊢
  have silent : ∀ other ∈ player.host.pauseAt, head.index < other → head.index + steps < other := by
    intro other same _
    have := Option.some.inj (pauses.symm.trans same)
    omega
  -- All steps but the last leave playback on.
  obtain ⟨before, there, reaches, on⟩ := shows.resume.reaches clock interruptions rfl
    (show steps ≤ head.last - head.index by omega) silent fun wait earlier => undisturbed wait (by omega)
  obtain ⟨after, stop, stepped, playing⟩ := reaches.step on (by omega) (undisturbed steps (by omega))
  have off : after.playing = false := by
    have asked : player.resume.host.pauseAt = some (head.index + (steps + 1)) := pauses
    rw [playing, decide_eq_true asked, Bool.not_true]
  refine ⟨stop, stepped.found, shows.halts clock interruptions ?_ stepped.shows⟩
  rw [stepped.loop]
  -- At the last frame the pause is noticed just as well.
  cases head.last - head.index - (steps + 1) with
  | zero =>
    rw [Player.playFrom, off]
    rfl
  | succ toCome => exact Player.playFrom_of_off off clock interruptions _ _ toCome

/-- A wait is interrupted from outside. -/
theorem Player.Shows.halts_interrupted (shows : player.Shows head) {waits : Nat}
    (before : waits < head.last - head.index)
    (silent : ∀ index ∈ player.host.pauseAt, head.index < index → head.index + waits < index)
    (undisturbed : ∀ wait < waits, interruptions wait (head.waited clock player.scale (wait + 1)) = false)
    (interrupted : interruptions waits (head.waited clock player.scale (waits + 1)) = true) :
    ∃ stop, head.at? (head.index + waits) = some stop ∧ (player.playAmid clock interruptions).Halts .paused
      (head.waited clock player.scale (waits + 1)) stop := by
  obtain ⟨later, there, reaches, on⟩ :=
    shows.resume.reaches clock interruptions rfl (Nat.le_of_lt before) silent undisturbed
  obtain ⟨_, index⟩ := Playhead.at?_eq_some reaches.found
  have last := Playhead.last_at? reaches.found
  obtain ⟨next, found⟩ := Playhead.exists_next (show there.index < there.last by omega)
  have moment := Playhead.waited_later reaches.found clock player.scale
  have scale : later.scale = player.scale := reaches.scale
  -- The wait is at a frame that is not the last, so it goes on to its end before the pause is noticed.
  refine ⟨there, reaches.found, shows.halts clock interruptions ?_ reaches.shows.pause⟩
  have toCome : head.last - head.index - waits = (head.last - head.index - (waits + 1)) + 1 := by omega
  rw [moment, ← scale] at interrupted ⊢
  rw [reaches.loop, toCome, show player.resume.scale = later.scale from scale.symm]
  exact Player.playFrom_of_interrupted reaches.shows.here found on _ interrupted

end Ends

/-! ### Pauses -/

/-- The player with a host that does not pause. -/
def Player.unpausing (player : Player ScriptedHost) : Player ScriptedHost :=
  { player with host := { player.host with pauseAt := none } }

/-- A run of playback has come to rest at an index: there the screen is the canonical one, playback is off,
and played on without a pause it finishes at the last frame after the remaining waits. -/
def Playback.RestsAt (run : Playback ScriptedHost) (clock : Clock) (head : Playhead) (ending : Ending)
    (index moment : Nat) : Prop :=
  ∃ stop last, head.at? index = some stop ∧ head.at? head.last = some last ∧ run.Halts ending moment stop ∧
    (run.player.unpausing.play clock []).Halts .finished
      (stop.waited clock run.player.scale (head.last - index)) last

theorem Playback.Halts.restsAt {run : Playback ScriptedHost} {ending : Ending} {moment index : Nat}
    {head stop : Playhead} (halts : run.Halts ending moment stop) (found : head.at? index = some stop)
    (clock : Clock) : run.RestsAt clock head ending index moment := by
  obtain ⟨timeline, position⟩ := Playhead.at?_eq_some found
  have last := Playhead.last_at? found
  have shows : run.player.unpausing.Shows stop := ⟨halts.shows.here, halts.shows.accepts, halts.shows.screen⟩
  obtain ⟨final, atLast, again⟩ := shows.halts_finished clock (.ofMoments [])
    (fun _ pauses => by cases pauses) (fun _ _ => rfl)
  refine ⟨stop, final, found, ?_, halts, ?_⟩
  · rw [← atLast, last, Playhead.at?, Playhead.at?]
    simp only [timeline]
  · rw [last, position] at again
    exact again

/-- Playback stops at one determined frame. Without a pause in time it finishes at the last frame. A pause
from outside stops it at the frame that the waits before it have led to, when the next wait ends; a host that
pauses at a readout stops it at that frame at once; and of the two the one at the smaller index counts. -/
theorem Player.play_stops (clock : Clock) (player : Player ScriptedHost) (head : Playhead)
    (shows : player.Shows head) (pause : Option Nat)
    (apart : ∀ moment ∈ pause, ∀ wait, 1 ≤ wait → wait ≤ head.last - head.index →
      moment ≠ head.waited clock player.scale wait) :
    let run := player.play clock pause.toList
    let ended := head.waited clock player.scale
    let before := head.waitsBefore clock player.scale
    let final := ended (head.last - head.index)
    ((∀ moment ∈ pause, final ≤ moment) →
      (∀ index ∈ player.host.pauseAt, head.index < index → head.last < index) →
      run.RestsAt clock head .finished head.last final) ∧
    (∀ moment ∈ pause, moment < final →
      (∀ index ∈ player.host.pauseAt, head.index < index → head.index + before moment < index) →
      run.RestsAt clock head .paused (head.index + before moment) (ended (before moment + 1)) ∧
      moment < ended (before moment + 1) ∧ ∀ wait, 1 ≤ wait → wait ≤ before moment → ended wait < moment) ∧
    (∀ index ∈ player.host.pauseAt, head.index < index → index ≤ head.last →
      (∀ moment ∈ pause, moment < final → index ≤ head.index + before moment) →
      run.RestsAt clock head .paused index (ended (index - head.index))) := by
  intro run ended before final
  refine ⟨?_, ?_, ?_⟩
  · intro late silent
    have never : ∀ moment ∈ pause, moment < final → head.last - head.index ≤ before moment := by
      intro moment pauses inTime
      exact absurd inTime (Nat.not_lt_of_ge (late moment pauses))
    obtain ⟨stop, found, halts⟩ :=
      shows.halts_finished clock _ silent fun _ => Playhead.ofMoments_eq_false (Nat.le_refl _) never
    exact halts.restsAt found clock
  · intro moment pauses inTime silent
    have notLast : before moment < head.last - head.index := Playhead.waitsBefore_lt inTime
    -- The pause does not fall on the end of the wait, so this is the first one that ends after it.
    have passed : moment < ended (before moment + 1) :=
      Nat.lt_of_le_of_ne (Playhead.le_waited_waitsBefore inTime)
        (apart moment pauses _ (Nat.le_add_left 1 _) notLast)
    have only : ∀ other ∈ pause, other < final → before moment ≤ before other := by
      intro other alsoPauses _
      obtain rfl := Option.some.inj (pauses.symm.trans alsoPauses)
      exact Nat.le_refl _
    obtain ⟨stop, found, halts⟩ := shows.halts_interrupted clock _ notLast silent
      (fun _ => Playhead.ofMoments_eq_false (Nat.le_of_lt notLast) only)
      ((Interruptions.ofMoments_eq_true_iff pause _ _).mpr ⟨moment, pauses, passed⟩)
    exact ⟨halts.restsAt found clock, passed, fun _ => Playhead.waited_lt_of_le_waitsBefore⟩
  · intro index pauses ahead inside first
    have early : ∀ moment ∈ pause, moment < final → index - head.index ≤ before moment := by
      intro moment outside inTime
      have := first moment outside inTime
      omega
    obtain ⟨stop, found, halts⟩ := shows.halts_paused_by_host clock _ pauses ahead inside
      fun _ => Playhead.ofMoments_eq_false (by omega) early
    exact halts.restsAt found clock

/-- Four frames, the third of them earlier than the second, so that no wait leads to it. -/
def Timeline.zigzag : Timeline :=
  ⟨[⟨0.0, [⟨1, .sent⟩], .empty⟩, ⟨1.0, [⟨2, .sent⟩], .empty⟩, ⟨0.5, [⟨1, .acked⟩], .empty⟩,
    ⟨2.5, [⟨2, .acked⟩], .empty⟩], [], nofun⟩

/-- A pause during the last wait, before the host would pause. The wait in front of it takes no time. -/
theorem Player.play_stops_zigzag :
    let loaded := ((Player.new { ScriptedHost.new with pauseAt := some 3 }).load .zigzag).2
    let player := (loaded.jump 1).2
    let head : Playhead := ⟨.zigzag, 1, by decide⟩
    player.Shows head ∧ head.waited .exact player.scale 1 = 0 ∧
      head.waited .exact player.scale 2 = 2000000000 ∧
      (player.play .exact [1500000000]).RestsAt .exact head .paused 2 2000000000 := by
  intro loaded player head
  have shows : player.Shows head := (Player.shows_load rfl .zigzag).jump rfl
  have first : head.waited .exact player.scale 1 = 0 := by decide +kernel
  have second : head.waited .exact player.scale 2 = 2000000000 := by decide +kernel
  have before : head.waitsBefore .exact player.scale 1500000000 = 1 := by decide +kernel
  have apart : ∀ moment ∈ some 1500000000, ∀ wait, 1 ≤ wait → wait ≤ head.last - head.index →
      moment ≠ head.waited .exact player.scale wait := by
    rintro moment ⟨⟩ wait positive inside
    have few : wait ≤ 2 := inside
    obtain rfl | rfl : wait = 1 ∨ wait = 2 := by omega
    · exact (first.trans_ne (by decide)).symm
    · exact (second.trans_ne (by decide)).symm
  obtain ⟨_, paused, _⟩ := Player.play_stops .exact player head shows (some 1500000000) apart
  have inTime : 1500000000 < head.waited .exact player.scale 2 := by
    rw [second]
    decide
  obtain ⟨rests, _, _⟩ := paused 1500000000 rfl inTime (by
    intro index pauses _
    have same : player.host.pauseAt = some 3 := by decide +kernel
    obtain rfl := Option.some.inj (same.symm.trans pauses)
    rw [before]
    decide)
  rw [before] at rests
  refine ⟨shows, first, second, ?_⟩
  have stop : (player.play .exact [1500000000]).RestsAt .exact head .paused 2
      (head.waited .exact player.scale 2) := rests
  rwa [second] at stop

end PacketReplay
