import PacketReplay.Proofs.Float.Rounding
import PacketReplay.Proofs.Timeline.Series

/-!
# Series as step functions

The cursor looks at each sample once and ahead by one. Where the samples that qualify for a frame are the first
ones, and more of them for later frames, it finds what a search through all samples would: the last that
qualifies. So it does where frames and samples are in order of time, even if a later frame has no threshold at all
because infinity meets a tolerance of minus infinity. Whatever the order, it writes no other values than those of
samples that qualify, and never goes back.
-/
namespace PacketReplay

/-! ### Samples that qualify -/

/-- The sample is not after the frame, within the tolerance. -/
def Qualifies (epsilon : Float) (frame : Frame) (sample : Sample) : Prop :=
  sample.t ≤ frame.t + epsilon

instance (epsilon : Float) (frame : Frame) : DecidablePred (Qualifies epsilon frame) :=
  fun sample => inferInstanceAs (Decidable (sample.t ≤ frame.t + epsilon))

/-- A frame keeps the samples that qualify for another. -/
def Keeps (epsilon : Float) (samples : List Sample) (frame later : Frame) : Prop :=
  ∀ sample ∈ samples, Qualifies epsilon frame sample → Qualifies epsilon later sample

instance (epsilon : Float) (samples : List Sample) : DecidableRel (Keeps epsilon samples) :=
  fun frame later => inferInstanceAs
    (Decidable (∀ sample ∈ samples, Qualifies epsilon frame sample → Qualifies epsilon later sample))

/-- A sample that qualifies for a frame does so for the frames after it, and so do the samples before it. -/
structure Nested (epsilon : Float) (frames : List Frame) (samples : List Sample) : Prop where
  later_frames : frames.Pairwise (Keeps epsilon samples)
  earlier_samples : samples.Pairwise fun earlier sample =>
    ∀ frame ∈ frames, Qualifies epsilon frame sample → Qualifies epsilon frame earlier

/-- Frames and samples are in order of time. -/
structure InOrder (frames : List Frame) (samples : List Sample) : Prop where
  ordered_frames : frames.Pairwise fun frame later => frame.t ≤ later.t
  ordered_samples : samples.Pairwise fun earlier sample => earlier.t ≤ sample.t

/-- A sample is at minus infinity and so is every threshold, but for a frame at infinity, where it is no number. -/
structure Opposed (epsilon : Float) (frames : List Frame) (samples : List Sample) : Prop where
  tolerance : epsilon.toModel.unpack = .infinity .negative
  sample : ∃ sample ∈ samples, sample.t.toModel.unpack = .infinity .negative
  frame_at_end : ∃ frame ∈ frames, frame.t.toModel.unpack = .infinity .positive
  frame_before : ∃ frame ∈ frames, frame.t.toModel.unpack ≠ .infinity .positive

/-- A sample that qualifies for a frame does so for the frames after it that have samples at all, and so do the
samples before it. -/
structure WeaklyNested (epsilon : Float) (frames : List Frame) (samples : List Sample) : Prop where
  later_frames : frames.Pairwise fun frame later =>
    (∃ any ∈ samples, Qualifies epsilon later any) → Keeps epsilon samples frame later
  earlier_samples : samples.Pairwise fun earlier sample =>
    ∀ frame ∈ frames, Qualifies epsilon frame sample → Qualifies epsilon frame earlier

variable {epsilon : Float} {frames : List Frame} {samples : List Sample}

theorem Nested.weakly (nested : Nested epsilon frames samples) : WeaklyNested epsilon frames samples where
  later_frames := by
    refine nested.later_frames.imp (fun {_ _} keeps => ?_)
    exact fun _ => keeps
  earlier_samples := nested.earlier_samples

namespace InOrder

theorem earlier_samples (inOrder : InOrder frames samples) (epsilon : Float) :
    samples.Pairwise fun earlier sample =>
      ∀ frame ∈ frames, Qualifies epsilon frame sample → Qualifies epsilon frame earlier := by
  refine inOrder.ordered_samples.imp (fun {earlier sample} ordered => ?_)
  intro frame _ qualifies
  exact Binary64.atMost_trans ordered qualifies

/-- A later frame has a later threshold, if it has one. If any sample qualifies for it, it has. -/
theorem weaklyNested (inOrder : InOrder frames samples) (epsilon : Float) :
    WeaklyNested epsilon frames samples where
  later_frames := by
    refine inOrder.ordered_frames.imp (fun {frame later} ordered => ?_)
    rintro ⟨any, _, reached⟩ sample _ qualifies
    exact Binary64.le_add_of_le qualifies ordered (Binary64.isNumber_of_le reached).2
  earlier_samples := inOrder.earlier_samples epsilon

/-- Where a sample is lost, the later frame is at infinity, and the tolerance and the sample at minus infinity. -/
theorem opposed_of_lost {frame later : Frame} {sample : Sample} (ordered : frame.t ≤ later.t)
    (qualifies : Qualifies epsilon frame sample) (lost : ¬Qualifies epsilon later sample) :
    (epsilon.toModel.unpack = .infinity .negative ∧ sample.t.toModel.unpack = .infinity .negative) ∧
      later.t.toModel.unpack = .infinity .positive ∧ frame.t.toModel.unpack ≠ .infinity .positive := by
  have isSum := (Binary64.isNumber_of_le qualifies).2
  have isFrame := (Binary64.isNumber_of_le ordered).1
  obtain ⟨atEnd, tolerance⟩ : later.t.toModel.unpack = .infinity .positive ∧
      epsilon.toModel.unpack = .infinity .negative := by
    by_contra apart
    rw [not_and] at apart
    exact lost (Binary64.le_add_of_le qualifies ordered (Binary64.isNumber_add_of_le isSum ordered apart))
  have before : frame.t.toModel.unpack ≠ .infinity .positive := isSum.of_add.2 tolerance
  have threshold := Binary64.unpack_add_infinity tolerance isFrame before
  exact ⟨⟨tolerance, Binary64.negative_infinity_of_le qualifies threshold⟩, atEnd, before⟩

/-- A frame at infinity loses the sample that a frame before it has. -/
theorem not_nested (inOrder : InOrder frames samples) (opposed : Opposed epsilon frames samples) :
    ¬Nested epsilon frames samples := by
  intro nested
  obtain ⟨tolerance, ⟨sample, isSample, low⟩, ⟨later, isLater, atEnd⟩, ⟨frame, isFrame, before⟩⟩ := opposed
  obtain ⟨place, inside, rfl⟩ := List.getElem_of_mem isFrame
  obtain ⟨last, insideLast, rfl⟩ := List.getElem_of_mem isLater
  have inPlace := List.pairwise_iff_getElem.mp inOrder.ordered_frames
  have first : place < last := by
    rcases lt_trichotomy place last with first | rfl | behind
    · exact first
    · exact absurd atEnd before
    · exact absurd (Binary64.positive_infinity_of_le (inPlace last place insideLast inside behind) atEnd) before
  have ordered := inPlace place last inside insideLast first
  have keeps := List.pairwise_iff_getElem.mp nested.later_frames place last inside insideLast first
  have isNumber := (Binary64.isNumber_of_le ordered).1
  have threshold := Binary64.unpack_add_infinity tolerance isNumber before
  have qualifies : Qualifies epsilon frames[place] sample := by
    have same := (Binary64.units_of_infinity low).trans (Binary64.units_of_infinity threshold).symm
    exact (Binary64.le_iff_units (Binary64.isNumber_of_infinity low)
      (Binary64.isNumber_of_infinity threshold)).mpr same.le
  have reached := keeps sample isSample qualifies
  exact (Binary64.isNumber_of_le reached).2.of_add.2 tolerance atEnd

/-- In order of time a sample that qualifies for a frame does so for later ones, unless infinities are opposed. -/
theorem nested_iff (inOrder : InOrder frames samples) :
    Nested epsilon frames samples ↔ ¬Opposed epsilon frames samples := by
  refine ⟨fun nested opposed => inOrder.not_nested opposed nested, fun notOpposed => ⟨?_, ?_⟩⟩
  · refine inOrder.ordered_frames.imp_of_mem (fun {frame later} isFrame isLater ordered => ?_)
    intro sample isSample qualifies
    by_contra lost
    obtain ⟨⟨tolerance, low⟩, atEnd, before⟩ := opposed_of_lost ordered qualifies lost
    exact notOpposed ⟨tolerance, ⟨sample, isSample, low⟩, ⟨later, isLater, atEnd⟩, ⟨frame, isFrame, before⟩⟩
  · exact inOrder.earlier_samples epsilon

end InOrder

namespace WeaklyNested

variable {frame : Frame} (nested : WeaklyNested epsilon (frame :: frames) samples)

include nested

theorem head_frame {later : Frame} (isLater : later ∈ frames) (any : ∃ any ∈ samples, Qualifies epsilon later any) :
    Keeps epsilon samples frame later :=
  (List.pairwise_cons.mp nested.later_frames).1 later isLater any

theorem head_samples : samples.Pairwise fun earlier sample =>
    Qualifies epsilon frame sample → Qualifies epsilon frame earlier :=
  nested.earlier_samples.imp fun each => each frame List.mem_cons_self

theorem tail : WeaklyNested epsilon frames samples :=
  ⟨(List.pairwise_cons.mp nested.later_frames).2,
    nested.earlier_samples.imp fun each frame isFrame => each frame (List.mem_cons_of_mem _ isFrame)⟩

end WeaklyNested

/-! ### The cursor -/

/-- The cursor passes over samples to one that qualifies, unless it stays where it is. The next one is too late. -/
theorem advance_spec (limit : Float) (current : Sample) (later : List Sample) :
    ∃ passed sample left, advance limit current later = (sample, left) ∧
      current :: later = passed ++ sample :: left ∧ (passed = [] ∨ sample.t ≤ limit) ∧
      ∀ next ∈ left.head?, ¬next.t ≤ limit := by
  induction later generalizing current with
  | nil => exact ⟨[], current, [], rfl, rfl, .inl rfl, nofun⟩
  | cons next rest ih =>
    rw [advance]
    split
    next within =>
      obtain ⟨passed, sample, left, stop, split, stays, ends⟩ := ih next
      refine ⟨current :: passed, sample, left, stop, congrArg (current :: ·) split, .inr ?_, ends⟩
      rcases stays with rfl | qualifies
      · -- The cursor stops at the sample that it has just moved to.
        obtain ⟨rfl, -⟩ := List.cons.inj split
        exact within
      · exact qualifies
    next tooLate =>
      exact ⟨[], current, next :: rest, rfl, rfl, .inl rfl, fun first isFirst => Option.some.inj isFirst ▸ tooLate⟩

/-! ### Nested samples -/

/-- If the samples that qualify are the first ones, the last of them is where the cursor stops. -/
theorem getLast?_filter_of_stop {frame : Frame} {before left : List Sample} {sample : Sample}
    (earlier : (before ++ sample :: left).Pairwise fun earlier sample =>
      Qualifies epsilon frame sample → Qualifies epsilon frame earlier)
    (reached : before = [] ∨
      ((∃ any ∈ before ++ sample :: left, Qualifies epsilon frame any) → Qualifies epsilon frame sample))
    (ends : ∀ next ∈ left.head?, ¬Qualifies epsilon frame next) :
    ((before ++ sample :: left).filter (Qualifies epsilon frame ·)).getLast? =
      if Qualifies epsilon frame sample then some sample else none := by
  obtain ⟨-, fromHere, -⟩ := List.pairwise_append.mp earlier
  have among := fromHere.of_cons
  -- As the sample behind the stop does not qualify, none behind that does.
  have noneLeft : left.filter (Qualifies epsilon frame ·) = [] := by
    rw [List.filter_eq_nil_iff]
    intro one isLeft qualifies
    rw [decide_eq_true_iff] at qualifies
    cases left with
    | nil => cases isLeft
    | cons next rest =>
      rcases List.mem_cons.mp isLeft with rfl | isLater
      · exact ends one rfl qualifies
      · exact ends next rfl ((List.pairwise_cons.mp among).1 one isLater qualifies)
  rw [List.filter_append, List.filter_cons, noneLeft]
  by_cases qualifies : Qualifies epsilon frame sample
  · rw [if_pos qualifies, if_pos (decide_eq_true qualifies)]
    exact List.getLast?_concat
  · -- The cursor has not moved from the first sample, or it would be at one that qualifies if any does.
    have noneBefore : before.filter (Qualifies epsilon frame ·) = [] := by
      rw [List.filter_eq_nil_iff]
      intro one isBefore within
      rcases reached with rfl | settled
      · cases isBefore
      · exact qualifies (settled ⟨one, List.mem_append_left _ isBefore, of_decide_eq_true within⟩)
    rw [if_neg qualifies, if_neg (mt decide_eq_true_iff.mp qualifies), noneBefore]
    rfl

/-- The cursor stands at the first sample, or at one that qualifies for every frame to come that has any. -/
theorem valuesFrom_of_weaklyNested (before : List Sample) {current : Sample} {later : List Sample}
    (nested : WeaklyNested epsilon frames (before ++ current :: later))
    (settled : before = [] ∨ ∀ frame ∈ frames,
      (∃ any ∈ before ++ current :: later, Qualifies epsilon frame any) → Qualifies epsilon frame current) :
    valuesFrom epsilon current later (frames.map Frame.t) = frames.map fun frame =>
      ((before ++ current :: later).filter (Qualifies epsilon frame ·)).getLast?.map Sample.value := by
  -- From frame to frame the samples are the same, parted at the place that the cursor has reached.
  induction frames generalizing before current later with
  | nil => rfl
  | cons frame rest ih =>
    obtain ⟨passed, sample, left, stop, split, stays, ends⟩ := advance_spec (frame.t + epsilon) current later
    simp only [List.map_cons, valuesFrom, stop]
    rw [split, ← List.append_assoc] at nested settled ⊢
    have isSample : sample ∈ before ++ passed ++ sample :: left := List.mem_append_right _ List.mem_cons_self
    -- Once the cursor has left the first sample it is at one that qualifies, here and from here on.
    have settledHere : before ++ passed = [] ∨ ∀ later ∈ frame :: rest,
        (∃ any ∈ before ++ passed ++ sample :: left, Qualifies epsilon later any) →
          Qualifies epsilon later sample := by
      rcases stays with rfl | qualifies
      · obtain ⟨rfl, -⟩ := List.cons.inj split
        simpa only [List.append_nil] using settled
      · refine .inr fun later isLater any => ?_
        rcases List.mem_cons.mp isLater with rfl | isLater
        · exact qualifies
        · exact nested.head_frame isLater any sample isSample qualifies
    have reached := settledHere.imp_right fun all => all frame List.mem_cons_self
    have stillSettled := settledHere.imp_right fun all later isLater => all later (List.mem_cons_of_mem _ isLater)
    rw [getLast?_filter_of_stop nested.head_samples reached ends, ih _ nested.tail stillSettled]
    congr 1
    rw [apply_ite (Option.map Sample.value)]
    rfl

/-- Where the samples that qualify are nested, a frame gets the value of the last that qualifies for it. -/
theorem Series.value?_of_weaklyNested {series : Series} (nested : WeaklyNested epsilon frames series.samples)
    {index : Nat} {frame : Frame} (here : frames[index]? = some frame) :
    series.value? epsilon (frames.map Frame.t) index =
      (series.samples.filter (Qualifies epsilon frame ·)).getLast?.map Sample.value := by
  rw [Series.value?]
  cases samples : series.samples with
  | nil => rfl
  | cons first later =>
    rw [samples] at nested
    have values := valuesFrom_of_weaklyNested [] nested (.inl rfl)
    simp only [values, List.nil_append, List.getElem?_map, here, Option.map_some, Option.join_some]

/-! ### In any order -/

/-- The value of each frame is that of the sample at the position it uses, from `start` on, if it uses one. -/
structure Uses (epsilon : Float) (frames : List Frame) (samples : List Sample) (value? : Nat → Option UInt64)
    (start : Nat) (used : Nat → Option Nat) : Prop where
  value : ∀ index, value? index = (used index).bind fun place => samples[place]?.map Sample.value
  qualifies : ∀ index, ∀ place ∈ used index, ∃ frame ∈ frames[index]?, ∃ sample ∈ samples[place]?,
    Qualifies epsilon frame sample
  start_le : ∀ index, ∀ place ∈ used index, start ≤ place
  forward : ∀ earlier later, earlier ≤ later → ∀ place ∈ used earlier, ∀ next ∈ used later, place ≤ next

/-- The positions used where one more frame comes first. -/
def usedFrom (first : Option Nat) (used : Nat → Option Nat) : Nat → Option Nat
  | 0 => first
  | index + 1 => used index

/-- A frame uses the position of the cursor if the sample there qualifies for it. -/
theorem Uses.cons {frame : Frame} {sample : Sample} {values : List (Option UInt64)} {start place : Nat}
    {used : Nat → Option Nat} (uses : Uses epsilon frames samples (values[·]?.join) place used)
    (here : samples[place]? = some sample) (notBack : start ≤ place) :
    Uses epsilon (frame :: frames) samples
      (((if Qualifies epsilon frame sample then some sample.value else none) :: values)[·]?.join) start
      (usedFrom (if Qualifies epsilon frame sample then some place else none) used) := by
  have first {position : Nat}
      (isUsed : position ∈ if Qualifies epsilon frame sample then some place else none) :
      Qualifies epsilon frame sample ∧ position = place := by
    obtain ⟨qualifies, same⟩ := Option.mem_ite_none_right.mp isUsed
    exact ⟨qualifies, (Option.some.inj same).symm⟩
  constructor
  case value =>
    rintro (_ | index)
    · rw [List.getElem?_cons_zero, Option.join_some, usedFrom]
      split
      · rw [Option.bind_some, here, Option.map_some]
      · rfl
    · exact uses.value index
  case qualifies =>
    rintro (_ | index) position isUsed
    · obtain ⟨qualifies, rfl⟩ := first isUsed
      exact ⟨frame, rfl, sample, here, qualifies⟩
    · exact uses.qualifies index position isUsed
  case start_le =>
    rintro (_ | index) position isUsed
    · rwa [(first isUsed).2]
    · exact notBack.trans (uses.start_le index position isUsed)
  case forward =>
    rintro (_ | earlier) (_ | later) ordered position isUsed next isNext
    · rw [(first isUsed).2, (first isNext).2]
    · rw [(first isUsed).2]
      exact uses.start_le later next isNext
    · omega
    · exact uses.forward earlier later (by omega) position isUsed next isNext

/-- The cursor, which is at the position after `before`, uses samples from there on. -/
theorem exists_uses (epsilon : Float) (before : List Sample) (current : Sample) (later : List Sample)
    (frames : List Frame) :
    ∃ used, Uses epsilon frames (before ++ current :: later)
      ((valuesFrom epsilon current later (frames.map Frame.t))[·]?.join) before.length used := by
  induction frames generalizing before current later with
  | nil => exact ⟨fun _ => none, fun _ => rfl, nofun, nofun, nofun⟩
  | cons frame rest ih =>
    obtain ⟨passed, sample, left, stop, split, -, -⟩ := advance_spec (frame.t + epsilon) current later
    simp only [List.map_cons, valuesFrom, stop]
    rw [split, ← List.append_assoc]
    obtain ⟨used, uses⟩ := ih (before ++ passed) sample left
    have here : (before ++ passed ++ sample :: left)[(before ++ passed).length]? = some sample := by
      rw [List.getElem?_append_right (le_refl _), Nat.sub_self]
      rfl
    have notBack : before.length ≤ (before ++ passed).length := by
      rw [List.length_append]
      omega
    exact ⟨_, uses.cons here notBack⟩

theorem Series.exists_uses (series : Series) (epsilon : Float) (frames : List Frame) :
    ∃ used, Uses epsilon frames series.samples (series.value? epsilon (frames.map Frame.t)) 0 used := by
  obtain ⟨key, samples⟩ := series
  cases samples with
  | nil => exact ⟨fun _ => none, fun _ => rfl, nofun, nofun, nofun⟩
  | cons first later => exact PacketReplay.exists_uses epsilon [] first later frames

/-! ### Frames -/

/-- The frame `after` is the frame before it with a value under a key, if there is one, and else as it was. -/
structure Frame.Takes (frame : Frame) (key : String) (value : Option UInt64) (after : Frame) : Prop where
  time : after.t = frame.t
  actions : after.actions = frame.actions
  taken : after.metrics.get? key = value.or (frame.metrics.get? key)
  others : ∀ other, other ≠ key → after.metrics.get? other = frame.metrics.get? other

theorem Frame.takes_withValue (frame : Frame) (key : String) (value : Option UInt64) :
    frame.Takes key value (frame.withValue key value) where
  time := Frame.view_withValue Frame.t (fun _ _ _ => rfl) frame key value
  actions := Frame.view_withValue Frame.actions (fun _ _ _ => rfl) frame key value
  taken := frame.get?_withValue_self key value
  others _ different := frame.get?_withValue_of_ne different value

theorem exists_takes_alignOne {index : Nat} {frame : Frame} (epsilon : Float) (series : Series)
    (here : frames[index]? = some frame) :
    ∃ after, (alignOne epsilon frames series)[index]? = some after ∧
      frame.Takes series.key (series.value? epsilon (frames.map Frame.t) index) after := by
  rw [getElem?_alignOne, here]
  exact ⟨_, rfl, frame.takes_withValue series.key _⟩

/-- Aligning a series makes it a step function: where the samples that qualify are nested, or frames and samples in
order of time, a frame takes the value of the last sample that qualifies for it. Order of time makes them nested but
for opposed infinities. In any order, the values are those of samples that qualify, at positions that never
decrease, and nothing else of the frames changes. -/
theorem alignOne_step_function (epsilon : Float) (frames : List Frame) (series : Series) :
    (InOrder frames series.samples →
      (Nested epsilon frames series.samples ↔ ¬Opposed epsilon frames series.samples)) ∧
    (Nested epsilon frames series.samples ∨ InOrder frames series.samples →
      ∀ (index : Nat) (frame : Frame), frames[index]? = some frame →
        ∃ after, (alignOne epsilon frames series)[index]? = some after ∧
          frame.Takes series.key
            ((series.samples.filter (Qualifies epsilon frame ·)).getLast?.map Sample.value) after) ∧
    (alignOne epsilon frames series).length = frames.length ∧
    ∃ used : Nat → Option Nat,
      (∀ (index : Nat) (frame : Frame), frames[index]? = some frame →
        (∀ place ∈ used index, ∃ sample ∈ series.samples[place]?, Qualifies epsilon frame sample) ∧
        ∃ after, (alignOne epsilon frames series)[index]? = some after ∧
          frame.Takes series.key ((used index).bind fun place => series.samples[place]?.map Sample.value) after) ∧
      ∀ earlier later, earlier ≤ later → ∀ place ∈ used earlier, ∀ next ∈ used later, place ≤ next := by
  refine ⟨InOrder.nested_iff, fun regular index frame here => ?_, length_alignOne epsilon frames series, ?_⟩
  · have nested : WeaklyNested epsilon frames series.samples :=
      regular.elim Nested.weakly fun inOrder => inOrder.weaklyNested epsilon
    rw [← Series.value?_of_weaklyNested nested here]
    exact exists_takes_alignOne epsilon series here
  · obtain ⟨used, uses⟩ := series.exists_uses epsilon frames
    refine ⟨used, fun index frame here => ⟨fun place isPlace => ?_, ?_⟩, uses.forward⟩
    · -- There is only one frame at the index.
      obtain ⟨same, isSame, sample⟩ := uses.qualifies index place isPlace
      rw [here] at isSame
      obtain rfl := Option.some.inj isSame
      exact sample
    · rw [← uses.value index]
      exact exists_takes_alignOne epsilon series here

/-- Order of time alone does not nest the samples: a frame at infinity loses the sample at minus infinity. -/
theorem not_nested_at_infinity :
    let frames : List Frame := [⟨0.0, [], ∅⟩, ⟨1.0 / 0.0, [], ∅⟩]
    let series : Series := ⟨"rtt", [⟨-1.0 / 0.0, 1⟩]⟩
    let epsilon : Float := -1.0 / 0.0
    InOrder frames series.samples ∧
    ((∀ frame ∈ frames, frame.t.isNaN = false) ∧ (∀ sample ∈ series.samples, sample.t.isNaN = false) ∧
      epsilon.isNaN = false) ∧
    ¬Nested epsilon frames series.samples ∧
    (alignOne epsilon frames series).map (·.metrics.get? "rtt") = [some 1, none] := by
  intro frames series epsilon
  exact ⟨⟨by decide +kernel, by decide +kernel⟩, by decide +kernel,
    fun nested => absurd nested.later_frames (by decide +kernel), by decide +kernel⟩

/-- Frames and samples in order, with a frame before all samples and a sample just within the tolerance, and some
out of order whose samples are nested all the same. -/
theorem alignOne_latencies :
    let frames : List Frame := [⟨-1.0, [], ∅⟩, ⟨2.0, [], ∅⟩, ⟨2.5, [], ∅⟩]
    let series : Series := ⟨"rtt", [⟨0.0, 1⟩, ⟨1.0, 2⟩, ⟨2.000001, 3⟩, ⟨3.0, 4⟩]⟩
    let others : List Frame := [⟨2.5, [], ∅⟩, ⟨2.0, [], ∅⟩]
    let swapped : Series := ⟨"rtt", [⟨1.0, 2⟩, ⟨0.0, 1⟩]⟩
    (InOrder frames series.samples ∧ Nested 1e-6 frames series.samples ∧
      ∃ after, (alignOne 1e-6 frames series)[1]? = some after ∧ after.metrics.get? "rtt" = some 3) ∧
    (¬InOrder others swapped.samples ∧ Nested 1e-6 others swapped.samples ∧
      ∃ after, (alignOne 1e-6 others swapped)[1]? = some after ∧ after.metrics.get? "rtt" = some 1) := by
  intro frames series others swapped
  have inOrder : InOrder frames series.samples := ⟨by decide +kernel, by decide +kernel⟩
  have nested : Nested 1e-6 others swapped.samples := ⟨by decide +kernel, by decide +kernel⟩
  have finite : (1e-6 : Float).toModel.unpack.isFinite = true := by decide +kernel
  have notOpposed : ¬Opposed 1e-6 frames series.samples := by
    intro opposed
    rw [opposed.tolerance] at finite
    cases finite
  obtain ⟨after, there, takes⟩ := (alignOne_step_function 1e-6 frames series).2.1 (.inr inOrder) 1 _ rfl
  obtain ⟨other, thereOther, takesOther⟩ := (alignOne_step_function 1e-6 others swapped).2.1 (.inl nested) 1 _ rfl
  have last : (series.samples.filter (Qualifies 1e-6 ⟨2.0, [], ∅⟩ ·)).getLast?.map Sample.value = some 3 := by
    decide +kernel
  have lastOther : (swapped.samples.filter (Qualifies 1e-6 ⟨2.0, [], ∅⟩ ·)).getLast?.map Sample.value = some 1 := by
    decide +kernel
  refine ⟨⟨inOrder, ((alignOne_step_function 1e-6 frames series).1 inOrder).mpr notOpposed, after, there, ?_⟩,
    fun ordered => absurd ordered.ordered_frames (by decide +kernel), nested, other, thereOther, ?_⟩
  · rw [takes.taken, last]
    rfl
  · rw [takesOther.taken, lastOther]
    rfl

end PacketReplay
