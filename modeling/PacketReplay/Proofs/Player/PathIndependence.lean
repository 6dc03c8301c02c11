import Mathlib.Data.List.Infix
import PacketReplay.Proofs.Player.Canonical
import PacketReplay.Proofs.Player.Playback
import PacketReplay.Timeline.Summary

/-!
# Path independence

A player on a screen shows the canonical screen of its frame, whatever calls led there. A step forward, a step
backward and a replay each preserve that, and none of their effects is refused; so a run of any length does.
-/
namespace PacketReplay

/-- A screen takes effects that can be applied one after the other, and does not pause. -/
theorem Screen.deliver_of_applyAll {screen after : Screen} {effects : List Effect}
    (applied : screen.applyAll effects = .ok after) :
    deliver false screen effects = ⟨none, false, after⟩ := by
  induction effects generalizing screen with
  | nil =>
    cases applied
    rfl
  | cons effect rest ih =>
    obtain ⟨next, first, later⟩ := Screen.exists_of_applyAll_cons applied
    simp only [deliver, Host.receive, first, Bool.or_false]
    exact ih later

/-- The screen is the canonical one of the frame that is shown, if one is shown. -/
def Player.Faithful (player : Player Screen) : Prop :=
  ∀ head, player.playhead = some head → player.host = head.canonical

theorem Navigation.Leads.applyAll {player : Player Screen} (faithful : player.Faithful)
    {navigation : Navigation} {origin target : Playhead} {effects : List Effect}
    (leads : navigation.Leads player origin target effects) :
    player.host.applyAll effects = .ok target.canonical := by
  cases leads with
  | load timeline => exact Screen.applyAll_replay _ _
  | forward here found =>
    rw [faithful _ here]
    exact Screen.applyAll_advance found
  | backward here found =>
    rw [faithful _ here]
    exact Screen.applyAll_retreat found
  | jump here found => exact Screen.applyAll_replay _ _
  | seek here => exact Screen.applyAll_replay _ _

/-- An answer other than the refusal of an effect. -/
def Unrefused (answer : Except PlayerError Answer) : Prop := ∀ refusal, answer ≠ .error (.refused refusal)

theorem Navigation.perform_faithful (navigation : Navigation) (player : Player Screen)
    (faithful : player.Faithful) :
    (navigation.perform player).2.Faithful ∧ Unrefused (navigation.perform player).1 := by
  rcases navigation.perform_cases player with
    ⟨error, early, _, failed⟩ | ⟨origin, target, effects, leads, moved⟩
  · rw [failed]
    refine ⟨faithful, ?_⟩
    intro refusal same
    cases same
    exact early
  · -- The screen takes all effects of the delivery, so the request ends at its target.
    have applied := leads.applyAll faithful
    have host : (navigation.ready player).host = player.host := by cases navigation <;> rfl
    have delivered := Screen.deliver_of_applyAll applied
    rw [← host] at delivered
    have accepted : (deliver false (navigation.ready player).host effects).refusal = none := by
      rw [delivered]
    rw [moved, Player.move_of_accepted accepted, delivered]
    constructor
    · intro head shown
      cases shown
      rfl
    · intro refusal same
      cases same

/-- Playback leads where steps forward lead. -/
theorem Player.playAmid_faithful (clock : Clock) (interruptions : Interruptions) (player : Player Screen)
    (faithful : player.Faithful) :
    (player.playAmid clock interruptions).player.Faithful ∧
      Unrefused ((player.playAmid clock interruptions).result.map .ended) := by
  cases loaded : player.playhead with
  | none =>
    rw [Player.playAmid_of_unloaded loaded]
    exact ⟨faithful, fun refusal same => by cases same⟩
  | some head =>
    obtain ⟨count, _, after, _, ends⟩ := player.resume.playFrom_steps clock interruptions 0 0
      (head.last - head.index) head loaded rfl
    have stepwise : (player.resume.steps count).2.Faithful ∧
        ∀ answer ∈ (player.resume.steps count).1, Unrefused answer := by
      refine Player.performAll_invariant ?_ player.resume faithful
      intro call member stepping shows
      obtain ⟨_, rfl⟩ := List.mem_replicate.mp member
      exact Navigation.forward.perform_faithful stepping shows
    obtain ⟨shows, unrefused⟩ := stepwise
    rw [Player.playAmid_of_loaded loaded]
    constructor
    · have paused : (player.resume.steps count).2.pause.Faithful := shows
      rw [← after] at paused
      exact paused
    · simp only
      generalize (player.resume.playFrom clock interruptions 0 0 (head.last - head.index)).result =
        result at ends
      cases ends with
      | finished _ _ => exact fun refusal same => by cases same
      | paused _ _ => exact fun refusal same => by cases same
      | @failed before refusal refused _ =>
        -- The refusal would be the answer of the last step.
        have last : (.error (.refused refusal) : Except PlayerError Answer) ∈
            (player.resume.steps (before + 1)).1 := by
          rw [refused]
          exact List.mem_append_right _ List.mem_cons_self
        exact absurd rfl (unrefused _ last refusal)

theorem Call.perform_faithful (call : Call) (player : Player Screen) (faithful : player.Faithful) :
    (call.perform player).2.Faithful ∧ Unrefused (call.perform player).1 := by
  cases call with
  | navigate navigation => exact navigation.perform_faithful player faithful
  | pause => exact ⟨faithful, fun refusal same => by cases same⟩
  | play clock interruptions => exact player.playAmid_faithful clock interruptions faithful

theorem Player.performAll_faithful (player : Player Screen) (faithful : player.Faithful)
    (calls : List Call) :
    (player.performAll calls).2.Faithful ∧ ∀ answer ∈ (player.performAll calls).1, Unrefused answer :=
  Player.performAll_invariant (fun call _ => call.perform_faithful) player faithful

/-- A player that has not been given a timeline, with any settings. -/
def Player.fresh {η : Type} (host : η) (scale epsilon : Float) : Player η :=
  ((Player.new host).withScale scale).withEpsilon epsilon

theorem Player.faithful_fresh (screen : Screen) (scale epsilon : Float) :
    (Player.fresh screen scale epsilon).Faithful := by
  intro head shown
  cases shown

theorem Playhead.actions_prefix (head : Playhead) : head.actions <+: head.timeline.actions :=
  (List.take_prefix _ _).flatMap _

/-- A counter at a frame is at most the number of actions of its kind in the whole timeline. -/
theorem Playhead.count_canonical_le (head : Playhead) (counter : Counter) :
    head.canonical.count counter ≤ (head.timeline.actions.map Action.counter).count counter := by
  rw [Playhead.canonical, Screen.count_ofActions]
  exact (head.actions_prefix.sublist.map Action.counter).count_le counter

/-- An action raises a counter of its own. -/
theorem Action.counter_injective {left right : Action} (same : left.counter = right.counter) :
    left = right := by
  obtain ⟨source, reason⟩ := left
  obtain ⟨other, token⟩ := right
  unfold Action.counter at same
  split at same <;> split at same <;> simp_all

/-- No counter is higher than the most frequent action of the timeline. -/
theorem Playhead.count_canonical_lt {head : Playhead} {limit : Nat}
    (rare : ∀ action, head.timeline.actions.count action < limit) (counter : Counter) :
    head.canonical.count counter < limit := by
  have bound := head.count_canonical_le counter
  by_cases occurs : counter ∈ head.timeline.actions.map Action.counter
  · obtain ⟨action, _, rfl⟩ := List.mem_map.mp occurs
    have counted : (head.timeline.actions.map Action.counter).count action.counter =
        head.timeline.actions.count action :=
      List.count_map_of_injective _ _ (fun _ _ => Action.counter_injective) _
    have few := rare action
    omega
  · -- A counter that no action raises is zero.
    rw [List.count_eq_zero_of_not_mem occurs] at bound
    have few := rare ⟨0, .sent⟩
    omega

/-- After any run of calls on a new player, the screen is the canonical one of the frame that is shown, whose
index is one of the timeline's; no call has failed with the refusal of an effect; and another run that ends at
the same frame has the same screen. The counters fit in 32 bits where no action of the timeline occurs more
often than that. -/
theorem performAll_path_independent (screen : Screen) (scale epsilon : Float) (calls : List Call) :
    let run := (Player.fresh screen scale epsilon).performAll calls
    (∀ head, run.2.playhead = some head →
      head.index ≤ head.last ∧ run.2.host = head.canonical ∧
      ((∀ action, head.timeline.actions.count action < 2 ^ 32) →
        ∀ counter, run.2.host.count counter < 2 ^ 32)) ∧
    (∀ answer ∈ run.1, ∀ refusal, answer ≠ .error (.refused refusal)) ∧
    ∀ screen scale epsilon calls head other,
      let otherRun := (Player.fresh screen scale epsilon).performAll calls
      run.2.playhead = some head → otherRun.2.playhead = some other →
      other.timeline = head.timeline → other.index = head.index → otherRun.2.host = run.2.host := by
  intro run
  obtain ⟨faithful, unrefused⟩ :=
    Player.performAll_faithful _ (Player.faithful_fresh screen scale epsilon) calls
  refine ⟨?_, unrefused, ?_⟩
  · intro head shown
    have host := faithful head shown
    refine ⟨head.index_le_last, host, ?_⟩
    intro rare counter
    rw [host]
    exact Playhead.count_canonical_lt rare counter
  · intro screen' scale' epsilon' calls' head other otherRun shown otherShown timeline index
    obtain ⟨otherFaithful, _⟩ :=
      Player.performAll_faithful _ (Player.faithful_fresh screen' scale' epsilon') calls'
    -- Two playheads on one timeline at one index differ only in a proof.
    have same : other = head := by
      obtain ⟨_, _, _⟩ := other
      obtain ⟨_, _, _⟩ := head
      simp_all
    exact (otherFaithful other otherShown).trans (same ▸ (faithful head shown).symm)

/-- A packet that is sent three times, acknowledged and followed by another. -/
def resentTimeline : Timeline :=
  ⟨[⟨0.0, [⟨1, .sent⟩], .empty⟩, ⟨1.0, [⟨1, .acked⟩, ⟨1, .sent⟩], .empty⟩, ⟨2.0, [⟨1, .sent⟩, ⟨2, .sent⟩], .empty⟩],
    [], by decide⟩

/-- A playback that is paused after its second wait and a step that is taken back, against one jump. -/
theorem performAll_path_independent_resent :
    let player := Player.fresh Screen.empty 1000.0 1e-6
    let start := Call.navigate (.load resentTimeline)
    let run := player.performAll [start, .play .milliseconds fun waits _ => decide (waits = 1),
      .navigate .forward, .navigate .backward]
    let jumped := player.performAll [start, .navigate (.jump 1)]
    run.1 = [.ok .done, .ok (.ended .paused), .ok (.shown 2), .ok (.shown 1)] ∧
    run.2.index? = some 1 ∧ run.2.host.visible = [1] ∧ (∀ counter, run.2.host.count counter < 2 ^ 32) ∧
    jumped.2.host = run.2.host := by
  intro player start run jumped
  let head : Playhead := ⟨resentTimeline, 1, by decide⟩
  have shown : run.2.playhead = some head := by decide +kernel
  have jumpedShown : jumped.2.playhead = some head := by decide +kernel
  have answers : run.1 = [.ok .done, .ok (.ended .paused), .ok (.shown 2), .ok (.shown 1)] := by decide +kernel
  have rare : ∀ action, resentTimeline.actions.count action < 2 ^ 32 := by
    intro action
    have few : resentTimeline.actions.length = 5 := rfl
    have bound := resentTimeline.actions.count_le_length (a := action)
    omega
  obtain ⟨reached, _, alike⟩ := performAll_path_independent Screen.empty 1000.0 1e-6
    [start, .play .milliseconds fun waits _ => decide (waits = 1), .navigate .forward, .navigate .backward]
  obtain ⟨_, host, counts⟩ := reached head shown
  refine ⟨answers, ?_, ?_, counts rare, alike _ _ _ _ head head shown jumpedShown rfl rfl⟩
  · rw [Player.index?, shown]
    rfl
  · rw [show run.2.host = head.canonical from host]
    decide +kernel

end PacketReplay
