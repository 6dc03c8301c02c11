import PacketReplay.Proofs.Player.PathIndependence
import PacketReplay.Proofs.Program.Commands
import PacketReplay.Proofs.Screen.Transcript
import PacketReplay.Proofs.Text.Utf8
import PacketReplay.Proofs.Timeline.Legible

/-!
# The transcript of a replay

What a replay prints, remarks apart, is a record of its effects from which its screen can be drawn again. The
console prints what its screen accepts, and no effect of a session is refused; so after each line of the input
the record leads to the canonical screen of one frame, whose index is that of a walk over indices.
-/
namespace PacketReplay

open Text

/-! ### Printed lines -/

/-- The lines of a text that are no remarks. -/
def effectLines (printed : String) : List (List Char) :=
  (Text.lines printed.toList).filter fun line => line.head? ≠ some '#'

theorem toList_unlines_cons (line : String) (rest : List String) :
    (unlines (line :: rest)).toList = line.toList ++ '\n' :: (unlines rest).toList := by
  simp [unlines, String.join_cons]

/-- Lines that are printed come back, but for a carriage return at their ends. -/
theorem lines_unlines {lines : List String} (unbroken : ∀ line ∈ lines, '\n' ∉ line.toList) :
    Text.lines (unlines lines).toList =
      lines.map fun line => LineMarks.characters.withoutReturn line.toList := by
  induction lines with
  | nil => rfl
  | cons line rest ih =>
    rw [toList_unlines_cons, List.map_cons, ← ih fun other member => unbroken other (List.mem_cons_of_mem _ member)]
    exact LineMarks.characters.lines_append_ended (unbroken line List.mem_cons_self) _

/-- Lines that show effects, in order, and remarks between them. -/
inductive Transcribes : List String → List Effect → Prop where
  | nothing : Transcribes [] []
  | effect {lines : List String} {effects : List Effect} {effect : Effect}
    (before : Transcribes lines effects) (oneLine : effect.OnOneLine) :
    Transcribes (lines ++ [effect.text]) (effects ++ [effect])
  | remark {lines : List String} {effects : List Effect} {text : String}
    (before : Transcribes lines effects) (unbroken : '\n' ∉ text.toList) :
    Transcribes (lines ++ ["# " ++ text]) effects

namespace Transcribes

variable {lines : List String} {effects : List Effect}

theorem unbroken (transcribes : Transcribes lines effects) : ∀ line ∈ lines, '\n' ∉ line.toList := by
  induction transcribes with
  | nothing => simp
  | effect _ oneLine ih =>
    rw [List.forall_mem_append, List.forall_mem_singleton]
    exact ⟨ih, Effect.lineFeed_notMem_text oneLine⟩
  | remark _ unbroken ih =>
    rw [List.forall_mem_append, List.forall_mem_singleton]
    exact ⟨ih, by simpa using unbroken⟩

/-- All lines but the remarks read back as the effects. -/
theorem mapM_effectLines (transcribes : Transcribes lines effects) :
    (effectLines (unlines lines)).mapM Effect.ofLine? = some (effects.map Effect.shown) := by
  rw [effectLines, lines_unlines transcribes.unbroken]
  induction transcribes with
  | nothing => rfl
  | @effect lines effects effect _ oneLine ih =>
    have read := Effect.ofLine?_withoutReturn oneLine
    have noRemark := Effect.head?_ne_of_ofLine? read
    rw [List.map_append, List.filter_append, List.mapM_append, ih]
    simp [read, noRemark]
  | @remark lines effects text _ _ ih =>
    -- Dropping a carriage return at the end leaves the mark of a remark where it is.
    have dropped : (LineMarks.characters.withoutReturn ("# " ++ text).toList).head? = some '#' := by
      have starts : ("# " ++ text).toList = '#' :: ' ' :: text.toList := by simp
      rw [starts]
      rcases LineMarks.characters.withoutReturn_cases ('#' :: ' ' :: text.toList) with same | same <;>
        rw [same] <;> rfl
    rw [List.map_append, List.filter_append, List.map_singleton, List.filter_singleton]
    simp only [dropped, ne_eq, not_true_eq_false, decide_false, cond_false, List.append_nil, ih]

theorem effects_append (transcribes : Transcribes lines effects) {more : List Effect}
    (oneLine : ∀ effect ∈ more, effect.OnOneLine) :
    Transcribes (lines ++ more.map Effect.text) (effects ++ more) := by
  induction more generalizing lines effects with
  | nil => simpa using transcribes
  | cons first rest ih =>
    -- The first of them is added to the lines before, so the induction is over those too.
    have next := transcribes.effect (oneLine first List.mem_cons_self)
    simpa using ih next fun other member => oneLine other (List.mem_cons_of_mem _ member)

end Transcribes

/-! ### Effects of frames -/

theorem Frame.Legible.applied {frame : Frame} (legible : frame.Legible) (index : Nat) :
    ∀ effect ∈ frame.applied index, effect.OnOneLine := by
  intro effect member
  rcases List.mem_append.mp member with inActions | isReadout
  · obtain ⟨action, isAction, rfl⟩ := List.mem_map.mp inActions
    unfold Action.added
    split
    · trivial
    · exact legible.tokens action isAction
  · rw [List.mem_singleton.mp isReadout]
    exact legible.keys

theorem Frame.Legible.undone {frame : Frame} (legible : frame.Legible) :
    ∀ effect ∈ frame.undone, effect.OnOneLine := by
  intro effect member
  obtain ⟨action, isAction, rfl⟩ := List.mem_map.mp member
  unfold Action.removed
  split
  · trivial
  · exact legible.tokens action (List.mem_reverse.mp isAction)

theorem onOneLine_appliedFrom {frames : List Frame} (legible : ∀ frame ∈ frames, frame.Legible) (index : Nat) :
    ∀ effect ∈ appliedFrom index frames, effect.OnOneLine := by
  induction frames generalizing index with
  | nil => simp [appliedFrom]
  | cons frame rest ih =>
    rw [appliedFrom, List.forall_mem_append]
    exact ⟨(legible frame List.mem_cons_self).applied index,
      ih (fun other member => legible other (List.mem_cons_of_mem _ member)) _⟩

namespace Playhead

variable {head : Playhead} (legible : head.timeline.Legible)

include legible

theorem legible_frame : head.frame.Legible := legible _ (List.get_mem _ _)

theorem onOneLine_replay : ∀ effect ∈ head.replay, effect.OnOneLine := by
  rw [replay, List.forall_mem_cons]
  exact ⟨trivial, onOneLine_appliedFrom (fun frame member => legible frame (List.mem_of_mem_take member)) 0⟩

theorem onOneLine_retreat {previous : Playhead} (earlier : previous.timeline = head.timeline) :
    ∀ effect ∈ head.retreat previous, effect.OnOneLine := by
  rw [retreat, List.forall_mem_append, List.forall_mem_singleton]
  exact ⟨(legible_frame legible).undone, (legible_frame (earlier ▸ legible)).keys⟩

end Playhead

end PacketReplay
