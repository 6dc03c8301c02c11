import PacketReplay.Proofs.Timeline.Lookup
import PacketReplay.Proofs.Timeline.OfText

/-!
# Lookups in captures out of order

A lookup by time reads the frames from the front and stops at the first that is after the limit. It finds the end
of that run, which is the last frame that is not after the limit exactly if no such frame stands behind one that
is after it. The times of a capture need not be in order, and then neither are those of its frames: a jump by time
passes over frames behind the run. If the events are in order, it never does.
-/
namespace PacketReplay

open Binary64

namespace Timeline

/-- There is a frame at the index, and it is not after the limit. -/
def Within (timeline : Timeline) (limit : Float) (index : Nat) : Prop :=
  ∃ frame, timeline.frame? index = some frame ∧ frame.t ≤ limit

/-- The last of all frames that are not after the limit; the first frame if there are none. -/
def IsLatest (timeline : Timeline) (limit : Float) (index : Nat) : Prop :=
  (timeline.Within limit index ∧ ∀ other, timeline.Within limit other → other ≤ index) ∨
    (index = 0 ∧ ∀ other, ¬timeline.Within limit other)

/-- The last of the frames at the front that are not after the limit; the first frame if there are none. -/
def EndsRun (timeline : Timeline) (limit : Float) (index : Nat) : Prop :=
  ((∀ earlier ≤ index, timeline.Within limit earlier) ∧ ¬timeline.Within limit (index + 1)) ∨
    (index = 0 ∧ ¬timeline.Within limit 0)

/-- No frame that is not after the limit stands behind one that is. -/
def Unbroken (timeline : Timeline) (limit : Float) : Prop :=
  ∀ earlier later, earlier < later → timeline.Within limit later → timeline.Within limit earlier

variable {timeline : Timeline} {limit : Float} {index : Nat}

/-! ### Runs -/

/-- The run of frames at the front, up to the first that is after the limit. -/
def run (timeline : Timeline) (limit : Float) : List Frame :=
  timeline.frames.takeWhile fun frame => decide (frame.t ≤ limit)

theorem within_of_lt_run (inside : index < (timeline.run limit).length) : timeline.Within limit index := by
  have front : timeline.run limit <+: timeline.frames := List.takeWhile_prefix _
  have passes := List.mem_takeWhile_imp (List.getElem_mem inside)
  refine ⟨(timeline.run limit)[index], ?_, of_decide_eq_true passes⟩
  rw [frame?, front.getElem inside]
  exact List.getElem?_eq_getElem (inside.trans_le front.length_le)

/-- The run stops at a frame that is after the limit, or at the end. -/
theorem not_within_length_run : ¬timeline.Within limit (timeline.run limit).length := by
  rintro ⟨frame, here, within⟩
  have stops := List.head?_dropWhile_not (fun frame : Frame => decide (frame.t ≤ limit)) timeline.frames
  rw [frame?, ← List.takeWhile_append_dropWhile (p := fun frame : Frame => decide (frame.t ≤ limit))
    (l := timeline.frames), run, List.getElem?_append_right (le_refl _), Nat.sub_self, ← List.head?_eq_getElem?]
    at here
  rw [here] at stops
  simp [within] at stops

theorem indexAt_endsRun (t epsilon : Float) : timeline.EndsRun (t + epsilon) (timeline.indexAt t epsilon) := by
  have stops : ¬timeline.Within (t + epsilon) (timeline.run (t + epsilon)).length := not_within_length_run
  have found : timeline.indexAt t epsilon = (timeline.run (t + epsilon)).length - 1 :=
    timeline.indexAt_eq_length_takeWhile t epsilon
  rw [found]
  cases length : (timeline.run (t + epsilon)).length with
  | zero =>
    rw [length] at stops
    exact .inr ⟨rfl, stops⟩
  | succ last =>
    rw [length] at stops
    refine .inl ⟨?_, stops⟩
    intro earlier upTo
    apply within_of_lt_run
    omega

/-- The end of the run is the last frame of all only if no other frame within the limit stands behind it. -/
theorem EndsRun.isLatest_iff (ends : timeline.EndsRun limit index) :
    timeline.IsLatest limit index ↔ timeline.Unbroken limit := by
  constructor
  · rintro (⟨here, greatest⟩ | ⟨_, none⟩) earlier later before within
    · rcases ends with ⟨run, _⟩ | ⟨rfl, missed⟩
      · have upTo := greatest later within
        exact run earlier (by omega)
      · exact absurd here missed
    · exact absurd within (none later)
  · intro unbroken
    rcases ends with ⟨run, stops⟩ | ⟨rfl, missed⟩
    · refine .inl ⟨run index le_rfl, ?_⟩
      intro other within
      -- A frame behind the run would make the one that stopped it pass too.
      by_contra behind
      rcases Nat.lt_or_eq_of_le (Nat.succ_le_of_lt (not_le.mp behind)) with less | rfl
      · exact stops (unbroken _ other less within)
      · exact stops within
    · refine .inr ⟨rfl, ?_⟩
      intro other within
      cases other with
      | zero => exact missed within
      | succ before => exact missed (unbroken 0 _ before.succ_pos within)

/-! ### Order -/

theorem unbroken_of_ordered (ordered : timeline.frames.Pairwise fun frame later => frame.t ≤ later.t) :
    timeline.Unbroken limit := by
  rintro earlier later before ⟨frame, here, within⟩
  obtain ⟨inside, rfl⟩ := List.getElem?_eq_some_iff.mp here
  have ahead : earlier < timeline.frames.length := before.trans inside
  refine ⟨timeline.frames[earlier], List.getElem?_eq_getElem ahead, ?_⟩
  exact atMost_trans (List.pairwise_iff_getElem.mp ordered earlier later ahead inside before) within

/-- Events in order give frames in order. -/
theorem ordered_ofText {settings : Settings} {text : String} (built : Timeline.ofText settings text = .ok timeline)
    (ordered : (Scan.ofText text).relative.Pairwise fun earlier later => earlier.t ≤ later.t) :
    timeline.frames.Pairwise fun frame later => frame.t ≤ later.t := by
  obtain ⟨capture, read, grouped⟩ := Timeline.capture_of_ofText built
  obtain ⟨_, rfl⟩ := (Capture.ofText_eq_ok_iff text settings.seriesKeys capture).mp read
  have steps := (Capture.spread_timeline ordered grouped).imp fun _ _ opens => opens.ordered
  have transitive : IsTrans Frame fun frame later => frame.t ≤ later.t := ⟨fun _ _ _ => atMost_trans⟩
  exact steps.pairwise

end Timeline

/-! ### Jumps -/

/-- A jump by time in the timeline of a text leads to the end of the run of frames at the front that are not after
the time and the tolerance. That is the last of all such frames exactly if none of them stands behind one that is
after it, and so it is whenever the events are in order. -/
theorem Player.seek_ends_run {settings : Settings} {text : String} {player : Player Screen} {head : Playhead}
    (built : Timeline.ofText settings text = .ok head.timeline) (amount : isAmount settings.mergeEpsilon = true)
    (shown : player.playhead = some head) (t : Float) :
    let limit := t + settings.mergeEpsilon
    ∃ index ≤ head.last, ((player.withEpsilon settings.mergeEpsilon).seek t).1 = .ok index ∧
      head.timeline.EndsRun limit index ∧
      (head.timeline.IsLatest limit index ↔ head.timeline.Unbroken limit) ∧
      ((Scan.ofText text).relative.Pairwise (fun earlier later => earlier.t ≤ later.t) →
        head.timeline.IsLatest limit index) := by
  intro limit
  have tolerance : (player.withEpsilon settings.mergeEpsilon).epsilon = settings.mergeEpsilon := if_pos amount
  have answer := (player.withEpsilon settings.mergeEpsilon).seek_screen shown t
  rw [tolerance] at answer
  have ends : head.timeline.EndsRun limit (head.timeline.indexAt t settings.mergeEpsilon) :=
    Timeline.indexAt_endsRun t settings.mergeEpsilon
  refine ⟨_, (head.atTime t settings.mergeEpsilon).index_le_last, answer, ends, ends.isLatest_iff, ?_⟩
  intro ordered
  exact ends.isLatest_iff.mpr (Timeline.unbroken_of_ordered (Timeline.ordered_ofText built ordered))

/-- Three packets that are sent at zero, five and three seconds. -/
def disorderedLog : String :=
  unlines ["quack_log Instant \x7b tv_sec: 0, tv_nsec: 0 \x7d 1 (sent)",
    "quack_log Instant \x7b tv_sec: 5, tv_nsec: 0 \x7d 2 (sent)",
    "quack_log Instant \x7b tv_sec: 3, tv_nsec: 0 \x7d 3 (sent)"]

def Timeline.disordered : Timeline :=
  ⟨[⟨0.0, [⟨1, .sent⟩], .empty⟩, ⟨5.0, [⟨2, .sent⟩], .empty⟩, ⟨3.0, [⟨3, .sent⟩], .empty⟩],
    ["cwnd", "bytes_in_flight"], by simp⟩

theorem Timeline.ofText_disorderedLog : Timeline.ofText .standard disorderedLog = .ok .disordered := by
  decide +kernel

theorem Player.seek_ends_run_disordered :
    let player := ((Player.new Screen.empty).load .disordered).2
    Timeline.ofText .standard disorderedLog = .ok .disordered ∧
    isAmount Settings.standard.mergeEpsilon = true ∧ player.playhead = some (.start .disordered) ∧
    ∃ index ≤ 2, ((player.withEpsilon Settings.standard.mergeEpsilon).seek 4.0).1 = .ok index ∧
      Timeline.disordered.EndsRun (4.0 + Settings.standard.mergeEpsilon) index := by
  intro player
  have shown : player.playhead = some (.start .disordered) := by decide +kernel
  have amount : isAmount Settings.standard.mergeEpsilon = true := by decide +kernel
  obtain ⟨index, upTo, lands, ends, _⟩ := Player.seek_ends_run Timeline.ofText_disorderedLog amount shown 4.0
  exact ⟨Timeline.ofText_disorderedLog, amount, shown, index, upTo, lands, ends⟩

/-- A jump to four seconds leads to the first frame, and passes over the one at three seconds. -/
theorem Player.seek_disordered_misses :
    let player := ((Player.new Screen.empty).load .disordered).2
    let limit := 4.0 + Settings.standard.mergeEpsilon
    Timeline.ofText .standard disorderedLog = .ok .disordered ∧
    isAmount Settings.standard.mergeEpsilon = true ∧ (4.0 : Float).isFinite = true ∧
    player.playhead = some (.start .disordered) ∧
    ((player.withEpsilon Settings.standard.mergeEpsilon).seek 4.0).1 = .ok 0 ∧
    Timeline.disordered.Within limit 2 ∧ ¬Timeline.disordered.IsLatest limit 0 := by
  intro player limit
  have late : Timeline.disordered.Within limit 2 := ⟨⟨3.0, [⟨3, .sent⟩], .empty⟩, rfl, by decide +kernel⟩
  refine ⟨Timeline.ofText_disorderedLog, ?_, ?_, ?_, ?_, late, ?_⟩
  · decide +kernel
  · decide +kernel
  · decide +kernel
  · decide +kernel
  · rintro (⟨_, greatest⟩ | ⟨_, none⟩)
    · exact absurd (greatest 2 late) (by decide)
    · exact none 2 late

end PacketReplay
