import PacketReplay.Proofs.Player.PathIndependence
import PacketReplay.Proofs.Screen.Refinement

/-!
# Undoing a frame

Adding a frame and undoing it are inverse on every screen that effects can lead to, not only on those of a
replay. Adding a frame always succeeds. Undoing it goes action by action, and each is checked on what the others
have left; but all of them together succeed just if every counter is at least as high as the frame raises it. So
a step forward is taken back by a step backward and the other way round, whatever was done to the screen before.
-/
namespace PacketReplay

/-! ### What a frame adds -/

/-- How much the actions of a frame raise a counter. -/
def Frame.amount (frame : Frame) : Counter → Nat
  | .instances id => frame.actions.count ⟨id, .sent⟩
  | .flag id reason => if reason = .sent then 0 else frame.actions.count ⟨id, reason⟩

theorem Action.count_map_counter (actions : List Action) (action : Action) :
    (actions.map Action.counter).count action.counter = actions.count action :=
  List.count_map_of_injective _ _ (fun _ _ => Action.counter_injective) _

theorem Frame.count_counters (frame : Frame) (counter : Counter) :
    (frame.actions.map Action.counter).count counter = frame.amount counter := by
  cases counter with
  | instances id => exact Action.count_map_counter frame.actions ⟨id, .sent⟩
  | flag id reason =>
    by_cases sent : reason = .sent
    · -- Actions of sent packets raise the instances and never a flag.
      rw [amount, if_pos sent, List.count_eq_zero, List.mem_map]
      rintro ⟨action, _, same⟩
      rw [Action.counter] at same
      split at same <;> simp_all
    · have counted := Action.count_map_counter frame.actions ⟨id, reason⟩
      rw [Action.counter, if_neg sent] at counted
      rw [amount, if_neg sent]
      exact counted

namespace Screen

/-! ### Adding and undoing -/

/-- What has been taken away from counters was there. -/
theorem IsNormal.count_le_of_applyAll_removed {screen after : Screen} (normal : screen.IsNormal)
    {counters : List Counter} {rest : List Effect}
    (applied : screen.applyAll (counters.map Counter.removed ++ rest) = .ok after) (counter : Counter) :
    counters.count counter ≤ screen.count counter := by
  induction counters generalizing screen with
  | nil => exact Nat.zero_le _
  | cons first others ih =>
    obtain ⟨next, taken, later⟩ := exists_of_applyAll_cons applied
    have positive : 0 < screen.count first := by
      by_contra none
      rw [normal.apply_removed_of_zero (Nat.eq_zero_of_not_pos none)] at taken
      cases taken
    obtain ⟨after, same, normalNext, counts, _⟩ := normal.apply_removed first positive
    obtain rfl : after = next := Except.ok.inj (same.symm.trans taken)
    have left := ih normalNext later
    rw [counts] at left
    rw [List.count_cons]
    by_cases equal : counter = first
    · subst equal
      simp only [beq_self_eq_true, if_true] at left ⊢
      omega
    · simp only [beq_iff_eq, Ne.symm equal, equal, if_false] at left ⊢
      omega

section Frame

variable {screen after : Screen} (normal : screen.IsNormal) (frame : Frame) (readout : Readout)

include normal

theorem IsNormal.exists_undone (enough : ∀ counter, frame.amount counter ≤ screen.count counter) :
    ∃ after, screen.applyAll (frame.undone ++ [.readout readout]) = .ok after ∧ after.IsNormal ∧
      ∀ counter, after.count counter = screen.count counter - frame.amount counter := by
  simp only [← frame.count_counters] at enough ⊢
  obtain ⟨after, undone, normalAfter, counts, _⟩ := normal.applyAll_undone frame readout enough
  exact ⟨after, undone, normalAfter, counts⟩

/-- A frame can be undone if every counter is at least as high as the frame raises it. -/
theorem IsNormal.exists_undone_iff :
    (∃ after, screen.applyAll (frame.undone ++ [.readout readout]) = .ok after) ↔
      ∀ counter, frame.amount counter ≤ screen.count counter := by
  constructor
  · rintro ⟨after, applied⟩ counter
    rw [Frame.undone_eq] at applied
    have enough := normal.count_le_of_applyAll_removed applied counter
    rwa [List.count_reverse, frame.count_counters] at enough
  · intro enough
    obtain ⟨after, applied, _⟩ := normal.exists_undone frame readout enough
    exact ⟨after, applied⟩

/-- Adding a frame can be undone. -/
theorem IsNormal.undone_of_applied (index : Nat) :
    ∃ added restored, screen.applyAll (frame.applied index) = .ok added ∧
      (∀ counter, added.count counter = screen.count counter + frame.amount counter) ∧
      added.applyAll (frame.undone ++ [.readout readout]) = .ok restored ∧
      restored.markers = screen.markers := by
  obtain ⟨added, applied, normalAdded, counts, _⟩ := normal.applyAll_applied frame index
  simp only [frame.count_counters] at counts
  have enough : ∀ counter, frame.amount counter ≤ added.count counter := by
    intro counter
    rw [counts]
    exact Nat.le_add_left _ _
  obtain ⟨restored, undone, normalRestored, countsRestored⟩ := normalAdded.exists_undone frame readout enough
  refine ⟨added, restored, applied, counts, undone, normalRestored.markers_eq normal ?_⟩
  intro counter
  rw [countsRestored, counts, Nat.add_sub_cancel]

variable {readout}

/-- A frame that has been undone can be added again. -/
theorem IsNormal.applied_of_undone
    (undone : screen.applyAll (frame.undone ++ [.readout readout]) = .ok after) (index : Nat) :
    after.IsNormal ∧ (∀ counter, after.count counter = screen.count counter - frame.amount counter) ∧
      ∃ restored, after.applyAll (frame.applied index) = .ok restored ∧
        restored.markers = screen.markers := by
  have enough := (normal.exists_undone_iff frame readout).mp ⟨after, undone⟩
  obtain ⟨same, again, normalAfter, counts⟩ := normal.exists_undone frame readout enough
  obtain rfl : same = after := Except.ok.inj (again.symm.trans undone)
  obtain ⟨restored, applied, normalRestored, countsRestored, _⟩ := normalAfter.applyAll_applied frame index
  refine ⟨normalAfter, counts, restored, applied, normalRestored.markers_eq normal ?_⟩
  intro counter
  rw [countsRestored, counts, frame.count_counters, Nat.sub_add_cancel (enough counter)]

end Frame

/-- Effects that cannot all be applied are delivered up to the first that is refused. -/
theorem refused_of_applyAll {screen : Screen} {effects : List Effect} {refusal : Refusal}
    (failed : screen.applyAll effects = .error refusal) :
    (deliver false screen effects).refusal = some refusal := by
  induction effects generalizing screen with
  | nil => cases failed
  | cons effect rest ih =>
    cases applied : screen.apply effect with
    | error first =>
      rw [applyAll, List.foldlM_cons, applied] at failed
      cases failed
      simp only [deliver, receive_of_error applied]
    | ok next =>
      rw [applyAll_cons_ok rest applied] at failed
      simp only [deliver, receive_of_ok applied, Bool.or_false]
      exact ih failed

theorem accepted_iff (screen : Screen) (effects : List Effect) :
    (deliver false screen effects).refusal = none ↔ ∃ after, screen.applyAll effects = .ok after := by
  cases applied : screen.applyAll effects with
  | error refusal => simp [refused_of_applyAll applied]
  | ok after => simp [deliver_of_applyAll applied]

end Screen

/-! ### Steps -/

namespace Playhead

theorem previous?_of_next? {head next : Playhead} (found : head.next? = some next) :
    next.previous? = some head := by
  rw [next?] at found
  split at found
  · cases found
    rfl
  · cases found

end Playhead

namespace Player

variable {player : Player Screen} {head : Playhead}

theorem move_of_applyAll {effects : List Effect} {after : Screen}
    (applied : player.host.applyAll effects = .ok after) (origin target : Playhead) :
    player.move origin target effects =
      (.ok target.index, { player with playhead := some target, host := after }) := by
  have delivered := Screen.deliver_of_applyAll applied
  have accepted : (deliver false player.host effects).refusal = none := by rw [delivered]
  rw [move_of_accepted accepted, delivered, Bool.not_false, Bool.and_true]

theorem move_isRefused_iff (player : Player Screen) (origin target : Playhead) (effects : List Effect) :
    (∃ refusal, (player.move origin target effects).1 = .error (.refused refusal)) ↔
      ¬∃ after, player.host.applyAll effects = .ok after := by
  rw [← Screen.accepted_iff]
  cases replied : (deliver false player.host effects).refusal with
  | none => simp [move_of_accepted replied]
  | some refusal => simp [move_of_refused replied]

theorem applyAll_of_move {origin target : Playhead} {effects : List Effect} {index : Nat}
    (moved : (player.move origin target effects).1 = .ok index) :
    ∃ after, player.host.applyAll effects = .ok after := by
  by_contra refused
  obtain ⟨refusal, failed⟩ := (player.move_isRefused_iff origin target effects).mpr refused
  rw [moved] at failed
  cases failed

section Steps

variable (loaded : player.playhead = some head) (normal : player.host.IsNormal)

include loaded normal

theorem backward_of_forward {index : Nat} (moved : player.forward.1 = .ok index) :
    player.forward.2.backward.1 = .ok head.index ∧
      player.forward.2.backward.2.host.markers = player.host.markers := by
  simp only [forward, loaded] at moved ⊢
  cases found : head.next? with
  | none =>
    rw [found] at moved
    cases moved
  | some next =>
    obtain ⟨added, restored, applied, _, undone, markers⟩ :=
      normal.undone_of_applied next.frame ⟨head.index, head.frame.t, head.frame.metrics⟩ next.index
    have advanced : player.host.applyAll next.advance = .ok added := applied
    have retreated : added.applyAll (next.retreat head) = .ok restored := undone
    simp only [move_of_applyAll advanced, backward, Playhead.previous?_of_next? found]
    rw [move_of_applyAll retreated]
    exact ⟨rfl, markers⟩

theorem forward_of_backward {index : Nat} (moved : player.backward.1 = .ok index) :
    player.backward.2.forward.1 = .ok head.index ∧
      player.backward.2.forward.2.host.markers = player.host.markers := by
  simp only [backward, loaded] at moved ⊢
  cases found : head.previous? with
  | none =>
    rw [found] at moved
    cases moved
  | some previous =>
    simp only [found] at moved ⊢
    obtain ⟨after, undone⟩ := applyAll_of_move moved
    obtain ⟨_, _, restored, applied, markers⟩ := normal.applied_of_undone head.frame undone head.index
    have advanced : after.applyAll head.advance = .ok restored := applied
    simp only [move_of_applyAll undone, forward, Playhead.previous?_eq_some found]
    rw [move_of_applyAll advanced]
    exact ⟨rfl, markers⟩

/-- The screen refuses a step backward just if there is a step to take, and not enough on the screen for it. -/
theorem backward_isRefused_iff :
    (∃ refusal, player.backward.1 = .error (.refused refusal)) ↔
      head.index ≠ 0 ∧ ∃ counter, player.host.count counter < head.frame.amount counter := by
  rw [ne_eq, ← Playhead.previous?_eq_none_iff]
  simp only [backward, loaded]
  cases found : head.previous? with
  | none => simp
  | some previous =>
    have undone := normal.exists_undone_iff head.frame ⟨previous.index, previous.frame.t, previous.frame.metrics⟩
    have refused := (player.move_isRefused_iff head previous (head.retreat previous)).trans (not_congr undone)
    simpa only [not_forall, Nat.not_le, reduceCtorEq, not_false_eq_true, true_and] using refused

end Steps

end Player

/-- On a screen that any effects have led to, a frame can be added, and undoing it restores the markers. It can
be undone if the screen has each of its actions as often as the frame; then they are what is taken off the
counters, and adding the frame again restores the markers. So wherever a player stands and whatever was done to
its screen, a step is taken back by a step the other way, and the screen refuses a step backward just if the
frame that it would undo is not all there. -/
theorem frame_undo_inverse (effects : List Effect) (frame previous : Frame) (index before : Nat) :
    let screen := Screen.empty.after effects
    let undo := frame.undone ++ [previous.readout before]
    (∃ added restored, deliver false screen (frame.applied index) = ⟨none, false, added⟩ ∧
      (∀ counter, added.count counter = screen.count counter + frame.amount counter) ∧
      deliver false added undo = ⟨none, false, restored⟩ ∧ restored.markers = screen.markers) ∧
    ((deliver false screen undo).refusal = none ↔ ∀ counter, frame.amount counter ≤ screen.count counter) ∧
    (∀ undone, deliver false screen undo = ⟨none, false, undone⟩ → undone.IsNormal ∧
      (∀ counter, undone.count counter = screen.count counter - frame.amount counter) ∧
      ∃ restored, deliver false undone (frame.applied index) = ⟨none, false, restored⟩ ∧
        restored.markers = screen.markers) ∧
    ∀ head playing scale epsilon,
      let player : Player Screen := ⟨some head, playing, scale, epsilon, screen⟩
      (∀ next, player.forward.1 = .ok next →
        player.forward.2.backward.1 = .ok head.index ∧
          player.forward.2.backward.2.host.markers = screen.markers) ∧
      (∀ last, player.backward.1 = .ok last →
        player.backward.2.forward.1 = .ok head.index ∧
          player.backward.2.forward.2.host.markers = screen.markers) ∧
      ((∃ refusal, player.backward.1 = .error (.refused refusal)) ↔
        head.index ≠ 0 ∧ ∃ counter, screen.count counter < head.frame.amount counter) := by
  intro screen undo
  have normal : screen.IsNormal := ((Screen.shows_iff _ _).mp (Screen.shows_empty.after effects)).1
  refine ⟨?_, ?_, ?_, ?_⟩
  · obtain ⟨added, restored, applied, counts, undone, markers⟩ :=
      normal.undone_of_applied frame ⟨before, previous.t, previous.metrics⟩ index
    exact ⟨added, restored, Screen.deliver_of_applyAll applied, counts, Screen.deliver_of_applyAll undone, markers⟩
  · rw [Screen.accepted_iff]
    exact normal.exists_undone_iff frame ⟨before, previous.t, previous.metrics⟩
  · intro undone delivered
    have accepted : (deliver false screen undo).refusal = none := by rw [delivered]
    obtain ⟨after, applied⟩ := (Screen.accepted_iff screen undo).mp accepted
    -- There is one screen that the delivery can end with.
    have same := delivered.symm.trans (Screen.deliver_of_applyAll applied)
    cases same
    obtain ⟨normalUndone, counts, restored, again, markers⟩ := normal.applied_of_undone frame applied index
    exact ⟨normalUndone, counts, restored, Screen.deliver_of_applyAll again, markers⟩
  · intro head playing scale epsilon player
    exact ⟨fun _ => Player.backward_of_forward rfl normal, fun _ => Player.forward_of_backward rfl normal,
      Player.backward_isRefused_iff rfl normal⟩

/-- The frame has a flag that the screen lacks. Undoing it goes backwards, so the marker is still there then. -/
example :
    let reply := deliver false (Screen.empty.after [.addMarker 1])
      (Frame.undone ⟨2.0, [⟨1, .sent⟩, ⟨1, .acked⟩], .empty⟩)
    reply.refusal = some ⟨1, "acked"⟩ ∧ reply.host.visible = [1] := by decide +kernel

end PacketReplay
