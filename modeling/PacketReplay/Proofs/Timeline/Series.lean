import PacketReplay.Timeline.Alignment

/-!
# The values of a series at frames

Aligning a series fills frames in: which frame gets which value, or none, is a matter of the samples and of the
times of the frames alone. Nothing else of a frame is looked at and nothing but its metrics is changed, so
several series fill each frame in one after the other, without regard to what the others have left there.
-/
namespace PacketReplay

/-! ### Values by index -/

/-- The values that a cursor gives to frames of the given times. -/
def valuesFrom (epsilon : Float) (current : Sample) (later : List Sample) : List Float → List (Option UInt64)
  | [] => []
  | t :: rest =>
    match advance (t + epsilon) current later with
    | (sample, later) =>
      (if sample.t ≤ t + epsilon then some sample.value else none) :: valuesFrom epsilon sample later rest

/-- The value that a series gives to the frame at an index, if it gives one. -/
def Series.value? (series : Series) (epsilon : Float) (times : List Float) (index : Nat) : Option UInt64 :=
  match series.samples with
  | [] => none
  | first :: later => (valuesFrom epsilon first later times)[index]?.join

/-- The frame with a value under a key, if there is a value. -/
def Frame.withValue (frame : Frame) (key : String) : Option UInt64 → Frame
  | none => frame
  | some value => frame.withMetric key value

/-- The frame with the values of several series, one after the other. -/
def Frame.filled (frame : Frame) (series : List Series) (epsilon : Float) (times : List Float) (index : Nat) :
    Frame :=
  series.foldl (fun frame one => frame.withValue one.key (one.value? epsilon times index)) frame

theorem Frame.align_eq_withValue (frame : Frame) (key : String) (epsilon : Float) (sample : Sample) :
    frame.align key epsilon sample =
      frame.withValue key (if sample.t ≤ frame.t + epsilon then some sample.value else none) := by
  rw [Frame.align]
  split <;> rfl

theorem getElem?_alignFrom (key : String) (epsilon : Float) (current : Sample) (later : List Sample)
    (frames : List Frame) (index : Nat) :
    (alignFrom key epsilon [] current later frames)[index]? = frames[index]?.map fun frame =>
      frame.withValue key (valuesFrom epsilon current later (frames.map Frame.t))[index]?.join := by
  induction frames generalizing current later index with
  | nil => rfl
  | cons frame rest ih =>
    simp only [alignFrom, List.map_cons, valuesFrom]
    rw [alignFrom_done, Frame.align_eq_withValue]
    cases index with
    | zero => rfl
    | succ index => exact ih _ _ index

theorem getElem?_alignOne (epsilon : Float) (frames : List Frame) (series : Series) (index : Nat) :
    (alignOne epsilon frames series)[index]? = frames[index]?.map fun frame =>
      frame.withValue series.key (series.value? epsilon (frames.map Frame.t) index) := by
  cases samples : series.samples with
  | nil =>
    simp only [alignOne, Series.value?, samples, Frame.withValue]
    exact Option.map_id'.symm
  | cons first later =>
    simp only [alignOne, Series.value?, samples]
    exact getElem?_alignFrom series.key epsilon first later frames index

/-! ### What stays -/

section View

variable {β : Type} (view : Frame → β)
  (blind : ∀ (frame : Frame) (key : String) (value : UInt64), view (frame.withMetric key value) = view frame)

include blind

theorem Frame.view_withValue (frame : Frame) (key : String) (value : Option UInt64) :
    view (frame.withValue key value) = view frame := by
  cases value with
  | none => rfl
  | some value => exact blind frame key value

theorem map_view_alignOne (epsilon : Float) (frames : List Frame) (series : Series) :
    (alignOne epsilon frames series).map view = frames.map view := by
  apply List.ext_getElem?
  intro index
  rw [List.getElem?_map, List.getElem?_map, getElem?_alignOne, Option.map_map]
  congr 1
  funext frame
  exact Frame.view_withValue view blind frame _ _

/-- What does not look at metrics sees no difference when series are aligned. -/
theorem map_view_alignAll (epsilon : Float) (frames : List Frame) (series : List Series) :
    (alignAll epsilon frames series).map view = frames.map view := by
  induction series generalizing frames with
  | nil => rfl
  | cons first rest ih =>
    exact (ih (alignOne epsilon frames first)).trans (map_view_alignOne view blind epsilon frames first)

end View

/-! ### Several series -/

/-- Aligning series fills in each frame by itself. -/
theorem getElem?_alignAll (epsilon : Float) (frames : List Frame) (series : List Series) (index : Nat) :
    (alignAll epsilon frames series)[index]? = frames[index]?.map fun frame =>
      frame.filled series epsilon (frames.map Frame.t) index := by
  induction series generalizing frames with
  | nil => exact Option.map_id'.symm
  | cons first rest ih =>
    have times : (alignOne epsilon frames first).map Frame.t = frames.map Frame.t :=
      map_view_alignOne Frame.t (fun _ _ _ => rfl) epsilon frames first
    have aligned : alignAll epsilon frames (first :: rest) =
        alignAll epsilon (alignOne epsilon frames first) rest := rfl
    rw [aligned, ih, times, getElem?_alignOne, Option.map_map]
    rfl

theorem Frame.get?_withValue_self (frame : Frame) (key : String) (value : Option UInt64) :
    (frame.withValue key value).metrics.get? key = value.or (frame.metrics.get? key) := by
  cases value with
  | none => rfl
  | some value => exact OrderedMap.get?_insert_self _ key value

theorem Frame.get?_withValue_of_ne (frame : Frame) {key other : String} (different : other ≠ key)
    (value : Option UInt64) : (frame.withValue key value).metrics.get? other = frame.metrics.get? other := by
  cases value with
  | none => rfl
  | some value => exact OrderedMap.get?_insert_of_ne _ different value

/-- Under a key stands the value of its series, however many others there are and in whatever order. -/
theorem Frame.get?_filled (frame : Frame) (keys : List String) (samples : String → List Sample)
    (epsilon : Float) (times : List Float) (index : Nat) (key : String) :
    (frame.filled (keys.map fun key => ⟨key, samples key⟩) epsilon times index).metrics.get? key =
      if key ∈ keys then (Series.value? ⟨key, samples key⟩ epsilon times index).or (frame.metrics.get? key)
      else frame.metrics.get? key := by
  rw [Frame.filled, List.foldl_map]
  induction keys generalizing frame with
  | nil => rfl
  | cons first rest ih =>
    rw [List.foldl_cons, ih]
    by_cases same : key = first
    · -- Filling in the same value once more changes nothing.
      subst same
      rw [Frame.get?_withValue_self, if_pos List.mem_cons_self, ← Option.or_assoc, Option.or_self, ite_self]
    · rw [Frame.get?_withValue_of_ne _ same]
      simp [same]

end PacketReplay
