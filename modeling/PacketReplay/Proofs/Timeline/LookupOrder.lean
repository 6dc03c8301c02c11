import PacketReplay.Proofs.Timeline.LeadingRun

/-!
# Lookups in any order

Nothing need be known about the times of the frames, which may even be no numbers. A lookup still ends the run of
frames at the front that are not after the limit, and a later limit never leads to an earlier frame: whatever is
not after a limit is not after a later one, so the run can only grow. That the first frame is also the answer where
there is no such run does no harm, as no answer is before it.
-/
namespace PacketReplay

open Binary64

namespace Timeline

variable {timeline : Timeline} {limit later : Float} {index : Nat}

theorem Within.mono (within : timeline.Within limit index) (upTo : limit ≤ later) : timeline.Within later index := by
  obtain ⟨frame, here, before⟩ := within
  exact ⟨frame, here, atMost_trans before upTo⟩

theorem EndsRun.within_of_pos (ends : timeline.EndsRun limit index) (positive : 0 < index) :
    ∀ earlier ≤ index, timeline.Within limit earlier := by
  rcases ends with ⟨run, _⟩ | ⟨first, _⟩
  · exact run
  · exact absurd first positive.ne'

/-- The run for a later limit ends at the same frame or at a later one. -/
theorem EndsRun.le {other : Nat} (ends : timeline.EndsRun limit index) (laterEnds : timeline.EndsRun later other)
    (upTo : limit ≤ later) : index ≤ other := by
  by_contra before
  have passed : ∀ earlier ≤ index, timeline.Within later earlier :=
    fun earlier atMost => (ends.within_of_pos (by omega) earlier atMost).mono upTo
  -- The frame that ends the run for the later limit would be within the earlier one.
  rcases laterEnds with ⟨_, stops⟩ | ⟨_, missed⟩
  · exact stops (passed (other + 1) (by omega))
  · exact missed (passed 0 (Nat.zero_le index))

end Timeline

/-! ### Jumps -/

theorem isAmount_amountOrZero (value : Float) : isAmount (amountOrZero value) = true := by
  unfold amountOrZero
  split
  next amount => exact amount
  next => decide +kernel

/-- Adding a tolerance keeps the order of times. -/
theorem add_le_add_of_isAmount {epsilon t later : Float} (amount : isAmount epsilon = true) (upTo : t ≤ later) :
    t + epsilon ≤ later + epsilon := by
  obtain ⟨finite, _⟩ := isAmount_iff_units.mp amount
  obtain ⟨isNumber, isLater⟩ := isNumber_of_le upTo
  obtain ⟨laterSum, sums⟩ := units_add_mono finite upTo
  have itself : t ≤ t := (le_iff_units isNumber isNumber).mpr le_rfl
  exact (le_iff_units (units_add_mono finite itself).1 laterSum).mpr sums

/-- A jump by time that succeeds leads to the frame that the lookup finds, whatever the host. -/
theorem Player.landed_of_seek {η : Type} [Host η] {player : Player η} {head : Playhead}
    (shown : player.playhead = some head) {t : Float} {index : Nat} (landed : (player.seek t).1 = .ok index) :
    index = head.timeline.indexAt t player.epsilon ∧
      (player.seek t).2.playhead = some (head.atTime t player.epsilon) ∧
      (player.seek t).2.epsilon = player.epsilon := by
  have moved : player.seek t =
      player.move head (head.atTime t player.epsilon) (head.atTime t player.epsilon).replay := by
    simp only [Player.seek, shown]
  rw [moved] at landed ⊢
  rcases player.move_cases head (head.atTime t player.epsilon) (head.atTime t player.epsilon).replay with
    ⟨playing, host, done⟩ | ⟨refusal, playing, host, refused⟩
  · rw [done] at landed ⊢
    cases landed
    exact ⟨rfl, rfl, rfl⟩
  · rw [refused] at landed
    cases landed

/-- On any timeline a lookup leads to one of its frames; if that is not the first, it and all before it are not
after the limit; and the next one is, unless the first frame is after the limit and therefore the answer. A later
limit never leads to an earlier frame, and so no jump to a later time leads back. -/
theorem Timeline.lookup_ends_run_mono (timeline : Timeline) (t epsilon : Float) :
    let limit := t + epsilon
    let index := timeline.indexAt t epsilon
    index ≤ timeline.lastIndex ∧
    (0 < index → ∀ earlier ≤ index, timeline.Within limit earlier) ∧
    (index < timeline.lastIndex →
      ¬timeline.Within limit (index + 1) ∨ (index = 0 ∧ ¬timeline.Within limit 0)) ∧
    (∀ t' epsilon' : Float, limit ≤ t' + epsilon' → index ≤ timeline.indexAt t' epsilon') ∧
    ∀ {η : Type} [Host η] (player : Player η) (head : Playhead) (later : Float) (first second : Nat),
      player.playhead = some head → head.timeline = timeline → t ≤ later →
      let tolerant := player.withEpsilon epsilon
      (tolerant.seek t).1 = .ok first → ((tolerant.seek t).2.seek later).1 = .ok second → first ≤ second := by
  intro limit index
  have ends : timeline.EndsRun limit index := indexAt_endsRun t epsilon
  refine ⟨?_, ends.within_of_pos, ?_, ?_, ?_⟩
  · have inside := timeline.indexAt_lt_size t epsilon
    exact Nat.le_sub_one_of_lt inside
  · intro _
    rcases ends with ⟨_, stops⟩ | first
    · exact .inl stops
    · exact .inr first
  · intro t' epsilon' upTo
    exact ends.le (indexAt_endsRun t' epsilon') upTo
  · intro η host player head later first second shown same upTo tolerant firstLanded secondLanded
    subst same
    -- The player keeps a tolerance that is an amount, so the order of the times is that of the limits.
    have tolerance : isAmount tolerant.epsilon = true := isAmount_amountOrZero epsilon
    have shownToo : tolerant.playhead = some head := shown
    obtain ⟨rfl, there, kept⟩ := Player.landed_of_seek shownToo firstLanded
    obtain ⟨rfl, _⟩ := Player.landed_of_seek there secondLanded
    rw [kept]
    exact (indexAt_endsRun t tolerant.epsilon).le (indexAt_endsRun later tolerant.epsilon)
      (add_le_add_of_isAmount tolerance upTo)

end PacketReplay
