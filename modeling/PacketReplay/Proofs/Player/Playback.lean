import Mathlib.Algebra.Ring.Nat
import PacketReplay.Player.ScriptedHost
import PacketReplay.Proofs.Player.Mirror

/-!
# Playback as steps forward

Playback is a number of steps forward, made one after the other, with waits between them. It ends at the last
frame, or when a wait is interrupted or the host pauses, or with the refusal of its last step; and no step
begins once it has been paused.
-/
namespace PacketReplay

/-! ### Steps and waits -/

/-- The delay at the frame that lies a number of frames ahead. -/
def Playhead.delayAhead (head : Playhead) (scale : Float) (ahead : Nat) : Nat :=
  ((head.at? (head.index + ahead)).bind fun there => there.delay? scale).getD 0

/-- How long a number of waits take together, the first of them at this frame. -/
def Playhead.waited (head : Playhead) (clock : Clock) (scale : Float) (waits : Nat) : Nat :=
  ((List.range waits).map fun ahead => clock.wait (head.delayAhead scale ahead)).sum

/-- The answers of a number of steps forward that all succeed. -/
def Playhead.successes (head : Playhead) (steps : Nat) : List (Except PlayerError Answer) :=
  (List.range steps).map fun step => .ok (.shown (head.index + 1 + step))

theorem Playhead.at?_index (head : Playhead) : head.at? head.index = some head := dif_pos head.inside

theorem Playhead.last_next {head next : Playhead} (found : head.next? = some next) :
    next.last = head.last := by
  rw [last, last, (next?_eq_some found).1]

theorem Playhead.last_at? {head there : Playhead} {index : Nat} (found : head.at? index = some there) :
    there.last = head.last := by
  rw [last, last, (at?_eq_some found).1]

theorem Playhead.at?_next {head there next : Playhead} {index : Nat} (here : head.at? index = some there)
    (found : there.next? = some next) : head.at? (index + 1) = some next := by
  unfold at? at here
  split at here
  · cases here
    exact found
  · cases here

theorem Playhead.exists_next {head : Playhead} (before : head.index < head.last) :
    ∃ next, head.next? = some next := by
  rw [← Option.ne_none_iff_exists', Ne, next?_eq_none_iff]
  exact Nat.ne_of_lt before

theorem Playhead.delay?_eq_delayAhead {head next : Playhead} (found : head.next? = some next)
    (scale : Float) : head.delay? scale = some (head.delayAhead scale 0) := by
  have delay : head.delay? scale = some (delayOf scale head.frame.t next.frame.t) := by
    rw [delay?, found, Option.map_some]
  simp [delayAhead, at?_index, delay]

theorem Playhead.waited_one (head : Playhead) (clock : Clock) (scale : Float) :
    head.waited clock scale 1 = clock.wait (head.delayAhead scale 0) := by
  simp [waited]

theorem Playhead.waited_succ {head next : Playhead} (found : head.next? = some next) (clock : Clock)
    (scale : Float) (waits : Nat) :
    head.waited clock scale (waits + 1) =
      clock.wait (head.delayAhead scale 0) + next.waited clock scale waits := by
  obtain ⟨timeline, index⟩ := next?_eq_some found
  have ahead : ∀ step, next.delayAhead scale step = head.delayAhead scale (step + 1) := by
    intro step
    unfold delayAhead at?
    simp only [timeline, index, Nat.add_assoc, Nat.add_comm 1 step]
  simp only [waited, List.range_succ_eq_map, List.map_cons, List.sum_cons, List.map_map, ahead,
    Function.comp_def, Nat.succ_eq_add_one]

theorem Playhead.successes_succ {head next : Playhead} (found : head.next? = some next) (steps : Nat) :
    head.successes (steps + 1) = .ok (.shown next.index) :: next.successes steps := by
  obtain ⟨_, index⟩ := next?_eq_some found
  simp only [successes, List.range_succ_eq_map, List.map_cons, List.map_map, index, Nat.add_zero,
    Function.comp_def, Nat.succ_eq_add_one]
  congr 2
  funext step
  congr 2
  omega

variable {η : Type} [Host η]

namespace Player

/-- A number of steps forward, one after the other. -/
def steps (player : Player η) (count : Nat) : List (Except PlayerError Answer) × Player η :=
  player.performAll (List.replicate count (.navigate .forward))

theorem steps_succ {player stepped : Player η} {index : Nat} (step : player.forward = (.ok index, stepped))
    (count : Nat) :
    player.steps (count + 1) = (.ok (.shown index) :: (stepped.steps count).1, (stepped.steps count).2) := by
  simp only [steps, List.replicate_succ, performAll, Call.perform, Navigation.perform, step, Except.map]

/-- How the loop of playback ends after a number of steps. -/
inductive Ends (player : Player η) (head : Playhead) (interrupted : Nat → Bool) :
    Nat → Except PlayerError Ending → Prop where
  | finished {count : Nat} (succeeded : (player.steps count).1 = head.successes count)
      (index : (player.steps count).2.index? = some head.last) :
    Ends player head interrupted count (.ok .finished)
  | paused {count : Nat} (succeeded : (player.steps count).1 = head.successes count)
      (cleared : (player.steps count).2.playing = false ∨
        count < head.last - head.index ∧ interrupted count = true) :
    Ends player head interrupted count (.ok .paused)
  | failed {count : Nat} {refusal : Refusal}
      (refused : (player.steps (count + 1)).1 = head.successes count ++ [.error (.refused refusal)])
      (stays : (player.steps (count + 1)).2.playhead = (player.steps count).2.playhead) :
    Ends player head interrupted (count + 1) (.error (.refused refusal))

/-- What holds of the end of the rest of the loop holds after one more step in front of it. -/
theorem Ends.step {player stepped : Player η} {head next : Playhead} {interrupted : Nat → Bool} {count : Nat}
    {result : Except PlayerError Ending} (found : head.next? = some next)
    (step : player.forward = (.ok next.index, stepped))
    (ends : stepped.Ends next (fun wait => interrupted (wait + 1)) count result) :
    player.Ends head interrupted (count + 1) result := by
  have successes := Playhead.successes_succ found
  have last := Playhead.last_next found
  obtain ⟨_, index⟩ := Playhead.next?_eq_some found
  cases ends with
  | finished succeeded reached =>
    refine .finished ?_ ?_
    · rw [steps_succ step, successes, succeeded]
    · rw [steps_succ step, ← last, reached]
  | paused succeeded cleared =>
    refine .paused ?_ ?_
    · rw [steps_succ step, successes, succeeded]
    · rw [steps_succ step]
      rcases cleared with host | ⟨before, interrupted⟩
      · exact .inl host
      · exact .inr ⟨by omega, interrupted⟩
  | failed refused stays =>
    refine .failed ?_ ?_
    · rw [steps_succ step, successes, refused, List.cons_append]
    · rw [steps_succ step, steps_succ step, stays]

/-! ### The loop -/

theorem playFrom_of_off {player : Player η} (off : player.playing = false) (clock : Clock)
    (interruptions : Interruptions) (waits elapsed toCome : Nat) :
    player.playFrom clock interruptions waits elapsed (toCome + 1) = ⟨.ok .paused, elapsed, player⟩ := by
  simp [playFrom, off]

section Pass

variable {player : Player η} {head next : Playhead} (here : player.playhead = some head)
  (found : head.next? = some next)

include here found

theorem forward_of_next : player.forward = player.move head next next.advance := by
  simp only [Player.forward, here, found]

omit [Host η] in
theorem waitTime_of_next : player.waitTime = .ok (some (head.delayAhead player.scale 0)) := by
  rw [waitTime, here]
  exact congrArg Except.ok (Playhead.delay?_eq_delayAhead found player.scale)

variable (on : player.playing = true) {clock : Clock} {interruptions : Interruptions} {waits elapsed : Nat}
  (toCome : Nat)

include on

theorem playFrom_of_interrupted
    (interrupted : interruptions waits (elapsed + head.waited clock player.scale 1) = true) :
    player.playFrom clock interruptions waits elapsed (toCome + 1) =
      ⟨.ok .paused, elapsed + head.waited clock player.scale 1, player.pause⟩ := by
  rw [Playhead.waited_one] at interrupted ⊢
  simp only [playFrom, on, if_true, waitTime_of_next here found, interrupted]

variable (undisturbed : interruptions waits (elapsed + head.waited clock player.scale 1) = false)
  {after : Player η}

include undisturbed

theorem playFrom_of_step {index : Nat} (step : player.forward = (.ok index, after)) :
    player.playFrom clock interruptions waits elapsed (toCome + 1) =
      after.playFrom clock interruptions (waits + 1) (elapsed + head.waited clock player.scale 1) toCome := by
  rw [Playhead.waited_one] at undisturbed ⊢
  simp only [playFrom, on, if_true, waitTime_of_next here found, undisturbed, Bool.false_eq_true, if_false,
    step]

theorem playFrom_of_failure {error : PlayerError} (failure : player.forward = (.error error, after)) :
    player.playFrom clock interruptions waits elapsed (toCome + 1) =
      ⟨.error error, elapsed + head.waited clock player.scale 1, after⟩ := by
  rw [Playhead.waited_one] at undisturbed ⊢
  simp only [playFrom, on, if_true, waitTime_of_next here found, undisturbed, Bool.false_eq_true, if_false,
    failure]

end Pass

/-- The loop makes a number of steps. Before each of them playback is on, and the wait before it is not
interrupted. -/
theorem playFrom_steps (clock : Clock) (interruptions : Interruptions) (waits elapsed toCome : Nat)
    (player : Player η) (head : Playhead) (here : player.playhead = some head)
    (ahead : head.last - head.index = toCome) :
    let run := player.playFrom clock interruptions waits elapsed toCome
    let interrupted := fun wait =>
      interruptions (waits + wait) (elapsed + head.waited clock player.scale (wait + 1))
    ∃ count ≤ toCome, run.player.pause = (player.steps count).2.pause ∧
      (∀ step < count, (player.steps step).2.playing = true ∧ interrupted step = false) ∧
      player.Ends head interrupted count run.result := by
  -- By induction on the number of frames to come, which each step lowers by one.
  induction toCome generalizing player head waits elapsed with
  | zero =>
    have atLast : head.index = head.last := by
      have bound := head.index_le_last
      omega
    refine ⟨0, Nat.le_refl 0, rfl, fun _ before => absurd before (Nat.not_lt_zero _), ?_⟩
    simp only [playFrom]
    cases on : player.playing with
    | true =>
      refine .finished rfl ?_
      simp [steps, performAll, index?, here, atLast]
    | false => exact .paused rfl (.inl on)
  | succ toCome ih =>
    cases on : player.playing with
    | false =>
      simp only [playFrom_of_off on]
      refine ⟨0, Nat.zero_le _, rfl, fun _ before => absurd before (Nat.not_lt_zero _), ?_⟩
      exact .paused rfl (.inl on)
    | true =>
      obtain ⟨next, found⟩ := Playhead.exists_next (show head.index < head.last by omega)
      obtain ⟨_, index⟩ := Playhead.next?_eq_some found
      have last := Playhead.last_next found
      cases interrupted : interruptions waits (elapsed + head.waited clock player.scale 1) with
      | true =>
        simp only [playFrom_of_interrupted here found on toCome interrupted]
        refine ⟨0, Nat.zero_le _, rfl, fun _ before => absurd before (Nat.not_lt_zero _), ?_⟩
        exact .paused rfl (.inr ⟨by omega, interrupted⟩)
      | false =>
        have forward := forward_of_next here found
        rcases player.move_cases head next next.advance with
          ⟨playing, host, moved⟩ | ⟨refusal, playing, host, moved⟩
        · rw [moved] at forward
          simp only [playFrom_of_step here found on toCome interrupted forward]
          obtain ⟨count, bound, after, before, ends⟩ := ih (waits + 1)
            (elapsed + head.waited clock player.scale 1)
            ⟨some next, playing, player.scale, player.epsilon, host⟩ next rfl (by omega)
          -- The waits of the rest of the loop are those of this one but for the first.
          have later : ∀ wait, interruptions (waits + 1 + wait)
              (elapsed + head.waited clock player.scale 1 +
                next.waited clock player.scale (wait + 1)) =
              interruptions (waits + (wait + 1))
                (elapsed + head.waited clock player.scale (wait + 1 + 1)) := by
            intro wait
            rw [Playhead.waited_succ found clock player.scale (wait + 1), ← Playhead.waited_one,
              Nat.add_assoc waits, Nat.add_comm 1 wait, Nat.add_assoc elapsed]
          simp only [later] at before ends
          refine ⟨count + 1, by omega, ?_, ?_, ends.step found forward⟩
          · rw [steps_succ forward, after]
          · intro step early
            cases step with
            | zero => exact ⟨on, interrupted⟩
            | succ step =>
              rw [steps_succ forward]
              exact before step (by omega)
        · -- The refused step is the last one; the recovery has left the frame as it was.
          rw [moved] at forward
          simp only [playFrom_of_failure here found on toCome interrupted forward]
          have step : player.steps 1 = ([.error (.refused refusal)],
              ⟨some head, playing, player.scale, player.epsilon, host⟩) := by
            simp only [steps, List.replicate_one, performAll, Call.perform, Navigation.perform, forward,
              Except.map]
          refine ⟨1, by omega, by rw [step], ?_, .failed ?_ ?_⟩
          · intro other before
            obtain rfl : other = 0 := by omega
            exact ⟨on, interrupted⟩
          · rw [step]
            rfl
          · rw [step]
            exact here.symm

/-! ### Playback -/

/-- Whether playback was on before does not matter for steps. -/
theorem steps_resume (player : Player η) (count : Nat) :
    (player.resume.steps count).1 = (player.steps count).1 ∧
      (player.resume.steps count).2.pause = (player.steps count).2.pause := by
  have alike := (Mirrors.resume player).performAll isView_id (List.replicate count (.navigate .forward))
  exact ⟨alike.answer, alike.mirrors.pause_unique (Mirrors.refl _)⟩

/-- Neither does it matter that the effects are recorded. -/
theorem steps_recorded (player : Player η) (count : Nat) :
    Alike Recorded.host True (player.recorded.resume.steps count) (player.resume.steps count) := by
  have alike := (mirrors_recorded player.resume).performAll isView_recorded
    (List.replicate count (.navigate .forward))
  exact ⟨alike.answer, alike.mirrors, fun _ => alike.playing rfl⟩

/-- Playback makes a number of steps forward: it leaves the player as these do, with playback off, and has
sent the same effects. -/
theorem playback_is_steps (clock : Clock) (interruptions : Interruptions) (player : Player η)
    (head : Playhead) (loaded : player.playhead = some head) :
    let run := player.playAmid clock interruptions
    let interrupted := fun wait => interruptions wait (head.waited clock player.scale (wait + 1))
    ∃ count ≤ head.last - head.index,
      run.player = (player.steps count).2.pause ∧
      (player.recorded.playAmid clock interruptions).player.host.effects =
        (player.recorded.steps count).2.host.effects ∧
      (∀ step < count, (player.resume.steps step).2.playing = true ∧ interrupted step = false) ∧
      (run.result = .ok .finished →
        (player.steps count).1 = head.successes count ∧ run.player.index? = some head.last) ∧
      (run.result = .ok .paused → (player.steps count).1 = head.successes count ∧
        ((player.resume.steps count).2.playing = false ∨
          count < head.last - head.index ∧ interrupted count = true)) ∧
      (∀ error, run.result = .error error → ∃ refusal before, error = .refused refusal ∧
        count = before + 1 ∧
        (player.steps count).1 = head.successes before ++ [.error (.refused refusal)] ∧
        run.player.playhead = (player.steps before).2.playhead) ∧
      run.player.playing = false ∧
      ∀ calls, (run.player.performAll calls).1 = ((player.steps count).2.performAll calls).1 ∧
        (run.player.performAll calls).2.pause = ((player.steps count).2.performAll calls).2.pause := by
  intro run interrupted
  -- The loop runs on the recording host, and what it does there is read off through the view.
  have recording : player.recorded.playhead = some head := loaded
  have mirrors : Mirrors Recorded.host player.recorded.resume player.resume :=
    mirrors_recorded player.resume
  obtain ⟨result, mirrored⟩ := mirrors.playFrom isView_recorded rfl clock interruptions 0 0
    (head.last - head.index)
  obtain ⟨count, bound, after, before, ends⟩ := player.recorded.resume.playFrom_steps clock interruptions
    0 0 (head.last - head.index) head loaded rfl
  simp only [Nat.zero_add] at before ends
  have runResult : run.result =
      (player.recorded.resume.playFrom clock interruptions 0 0 (head.last - head.index)).result := by
    simp only [run, playAmid_of_loaded loaded, result]
  have runPlayer : run.player = (player.steps count).2.pause := by
    have stepped := (steps_recorded player count).mirrors
    have paused := mirrored.pause
    rw [after] at paused
    have settled := paused.pause_unique stepped.pause
    calc run.player
        = (player.resume.playFrom clock interruptions 0 0 (head.last - head.index)).player.pause := by
          simp only [run, playAmid_of_loaded loaded]
      _ = (player.resume.steps count).2.pause := settled
      _ = (player.steps count).2.pause := (steps_resume player count).2
  have answers : ∀ step, (player.steps step).1 = (player.recorded.resume.steps step).1 := by
    intro step
    rw [← (steps_resume player step).1, (steps_recorded player step).answer]
  have playheads : ∀ step, (player.steps step).2.playhead =
      (player.recorded.resume.steps step).2.playhead := by
    intro step
    have same := congrArg Player.playhead (steps_resume player step).2
    exact same.symm.trans (steps_recorded player step).mirrors.playhead
  refine ⟨count, bound, runPlayer, ?_, ?_, ?_, ?_, ?_, by rw [runPlayer]; rfl, ?_⟩
  · rw [playAmid_of_loaded recording]
    have record := congrArg (fun paused => paused.host.effects) after
    have steps := congrArg (fun paused => paused.host.effects) (steps_resume player.recorded count).2
    exact record.trans steps
  · intro step early
    obtain ⟨on, notInterrupted⟩ := before step early
    exact ⟨((steps_recorded player step).playing trivial).trans on, notInterrupted⟩
  · intro finished
    rw [← runResult, finished] at ends
    cases ends with
    | finished succeeded index =>
      refine ⟨(answers count).trans succeeded, ?_⟩
      rw [runPlayer]
      exact (congrArg (Option.map Playhead.index) (playheads count)).trans index
  · intro paused
    rw [← runResult, paused] at ends
    cases ends with
    | paused succeeded cleared =>
      refine ⟨(answers count).trans succeeded, ?_⟩
      rw [(steps_recorded player count).playing trivial]
      exact cleared
  · intro error failed
    rw [← runResult, failed] at ends
    cases ends with
    | failed refused stays =>
      refine ⟨_, _, rfl, rfl, (answers _).trans refused, ?_⟩
      rw [runPlayer]
      exact (playheads _).trans (stays.trans (playheads _).symm)
  · intro calls
    -- Playback is off after the run and may be on after the steps, but no call depends on that.
    have alike := (Mirrors.paused (player.steps count).2).performAll isView_id calls
    rw [runPlayer]
    exact ⟨alike.answer, alike.mirrors.pause_unique (Mirrors.refl _)⟩

/-- A host that pauses playback while it receives the last frame. -/
theorem playback_paused_by_host :
    let head := Playhead.start .sentThenAcked
    let player : Player ScriptedHost :=
      ⟨some head, false, 1000.0, 0.0, { ScriptedHost.new with pauseAt := some 1 }⟩
    let run := player.playAmid .exact fun _ _ => false
    player.playhead = some head ∧ run.result = .ok .paused ∧
      ∃ count ≤ 1, run.player = (player.steps count).2.pause ∧
        (player.resume.steps count).2.playing = false := by
  intro head player run
  have result : run.result = .ok .paused := rfl
  obtain ⟨count, bound, same, _, _, _, paused, _⟩ :=
    playback_is_steps .exact (fun _ _ => false) player head rfl
  obtain ⟨_, cleared⟩ := paused result
  have byHost : (player.resume.steps count).2.playing = false := by
    rcases cleared with byHost | ⟨_, interrupted⟩
    · exact byHost
    · cases interrupted
  exact ⟨rfl, result, count, bound, same, byHost⟩

end Player
end PacketReplay
