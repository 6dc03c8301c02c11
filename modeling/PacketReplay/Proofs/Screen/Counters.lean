import PacketReplay.Screen.Basic

/-!
# Screens as counters

A screen in normal form is nothing but its counters and its readout: how many instances each marker has and
how often each flag is set. Adding raises one counter by one, taking away lowers one counter that is not zero,
and both keep the normal form. Two normal screens with the same counters and the same readout are equal.
-/
namespace PacketReplay

/-- What a screen counts. -/
inductive Counter where
  | instances (id : UInt64)
  | flag (id : UInt64) (reason : Reason)
  deriving DecidableEq, Repr

namespace Counter

def added : Counter → Effect
  | instances id => .addMarker id
  | flag id reason => .addFlag id reason

def removed : Counter → Effect
  | instances id => .removeMarker id
  | flag id reason => .removeFlag id reason

end Counter

/-- The counter that an action raises. -/
def Action.counter (action : Action) : Counter :=
  if action.reason = .sent then .instances action.source else .flag action.source action.reason

theorem Action.added_eq (action : Action) : action.added = action.counter.added := by
  unfold Action.added Action.counter
  split <;> rfl

theorem Action.removed_eq (action : Action) : action.removed = action.counter.removed := by
  unfold Action.removed Action.counter
  split <;> rfl

/-! ### Markers -/

/-- No flag is stored with a count of zero. -/
def Marker.NoZero (marker : Marker) : Prop := ∀ reason, marker.flags.get? reason ≠ some 0

def Marker.flagCount (marker : Marker) (reason : Reason) : Nat := (marker.flags.get? reason).getD 0

theorem Marker.isBare_iff (marker : Marker) : marker.isBare = true ↔ marker = .bare := by
  obtain ⟨instances, flags⟩ := marker
  constructor
  · intro bare
    simp only [Marker.isBare, Bool.and_eq_true, decide_eq_true_eq, OrderedMap.isEmpty,
      List.isEmpty_iff] at bare
    obtain ⟨none, empty⟩ := bare
    have noFlags : flags = .empty := OrderedMap.ext_entries empty
    rw [none, noFlags]
    rfl
  · intro bare
    rw [bare]
    rfl

@[simp] theorem Marker.getD_unlessBare (marker : Marker) : marker.unlessBare.getD .bare = marker := by
  unfold Marker.unlessBare
  split
  next bare => exact ((Marker.isBare_iff marker).mp bare).symm
  next => rfl

theorem Marker.get?_flags {marker : Marker} (noZero : marker.NoZero) (reason : Reason) :
    marker.flags.get? reason = OrderedMap.positive? (marker.flagCount reason) := by
  have positive := noZero reason
  unfold Marker.flagCount OrderedMap.positive?
  cases found : marker.flags.get? reason with
  | none => rfl
  | some count =>
    have different : count ≠ 0 := fun zero => positive (zero ▸ found)
    simp [different]

/-- A flag has an entry only if it is set, so none is ever taken away from a count of zero. -/
theorem Marker.hasFlag_iff {marker : Marker} (noZero : marker.NoZero) (reason : Reason) :
    marker.hasFlag reason = true ↔ 0 < marker.flagCount reason := by
  rw [Marker.hasFlag, Marker.get?_flags noZero, OrderedMap.positive?]
  split <;> simp <;> omega

theorem Marker.noZero_bare : Marker.bare.NoZero := by
  intro reason
  simp [Marker.bare]

theorem Marker.noZero_addFlag {marker : Marker} (noZero : marker.NoZero) (reason : Reason) :
    (marker.addFlag reason).NoZero := by
  intro other
  by_cases same : other = reason
  · subst same
    simp [Marker.addFlag, OrderedMap.oneMore]
  · rw [Marker.addFlag, OrderedMap.get?_alter_of_ne _ same]
    exact noZero other

theorem Marker.noZero_removeFlag {marker : Marker} (noZero : marker.NoZero) (reason : Reason) :
    (marker.removeFlag reason).NoZero := by
  intro other
  by_cases same : other = reason
  · subst same
    rw [Marker.removeFlag, OrderedMap.get?_alter_self, OrderedMap.positive?]
    split <;> simp_all
  · rw [Marker.removeFlag, OrderedMap.get?_alter_of_ne _ same]
    exact noZero other

theorem Marker.flagCount_addFlag (marker : Marker) (reason other : Reason) :
    (marker.addFlag reason).flagCount other =
      marker.flagCount other + if other = reason then 1 else 0 := by
  unfold Marker.flagCount Marker.addFlag
  by_cases same : other = reason
  · subst same
    simp [OrderedMap.oneMore]
  · simp [OrderedMap.get?_alter_of_ne _ same, same]

theorem Marker.flagCount_removeFlag (marker : Marker) (reason other : Reason) :
    (marker.removeFlag reason).flagCount other =
      marker.flagCount other - if other = reason then 1 else 0 := by
  unfold Marker.flagCount Marker.removeFlag
  by_cases same : other = reason
  · subst same
    simp only [OrderedMap.get?_alter_self, OrderedMap.positive?, if_true]
    split <;> simp_all
  · simp [OrderedMap.get?_alter_of_ne _ same, same]

namespace Screen

/-! ### The counters of a screen -/

/-- The marker of a packet, where a packet without an entry has a bare one. -/
def markerAt (screen : Screen) (id : UInt64) : Marker := (screen.marker? id).getD .bare

def count (screen : Screen) : Counter → Nat
  | .instances id => (screen.markerAt id).instances
  | .flag id reason => (screen.markerAt id).flagCount reason

/-- No entry is there for nothing: no marker is bare and no flag has a count of zero. -/
structure IsNormal (screen : Screen) : Prop where
  no_bare : ∀ id marker, screen.marker? id = some marker → marker.isBare = false
  no_zero : ∀ id, (screen.markerAt id).NoZero

theorem isNormal_empty : empty.IsNormal where
  no_bare := by
    intro id marker found
    simp [marker?, empty] at found
  no_zero := fun _ => Marker.noZero_bare

theorem IsNormal.marker?_eq {screen : Screen} (normal : screen.IsNormal) (id : UInt64) :
    screen.marker? id = (screen.markerAt id).unlessBare := by
  unfold markerAt
  cases found : screen.marker? id with
  | none => rfl
  | some marker => simp [Marker.unlessBare, normal.no_bare id marker found]

/-- The counters of a normal screen say what its entries are. -/
theorem IsNormal.markers_eq {left right : Screen} (normalL : left.IsNormal) (normalR : right.IsNormal)
    (counts : ∀ counter, left.count counter = right.count counter) : left.markers = right.markers := by
  -- A marker is determined by its counters, and in a normal screen an entry by its marker.
  apply OrderedMap.ext_get?
  intro id
  have instances : (left.markerAt id).instances = (right.markerAt id).instances :=
    counts (.instances id)
  have flags : (left.markerAt id).flags = (right.markerAt id).flags := by
    apply OrderedMap.ext_get?
    intro reason
    rw [Marker.get?_flags (normalL.no_zero id), Marker.get?_flags (normalR.no_zero id)]
    exact congrArg OrderedMap.positive? (counts (.flag id reason))
  have same : left.markerAt id = right.markerAt id := by
    cases hl : left.markerAt id
    cases hr : right.markerAt id
    simp_all
  change left.marker? id = right.marker? id
  rw [normalL.marker?_eq, normalR.marker?_eq, same]

theorem IsNormal.ext {left right : Screen} (normalL : left.IsNormal) (normalR : right.IsNormal)
    (counts : ∀ counter, left.count counter = right.count counter)
    (readouts : left.readout = right.readout) : left = right := by
  have markers := normalL.markers_eq normalR counts
  obtain ⟨_, _⟩ := left
  obtain ⟨_, _⟩ := right
  cases markers
  cases readouts
  rfl

theorem IsNormal.withReadout {screen : Screen} (normal : screen.IsNormal) (readout : Option Readout) :
    { screen with readout }.IsNormal :=
  ⟨normal.no_bare, normal.no_zero⟩

theorem count_withReadout (screen : Screen) (readout : Option Readout) (counter : Counter) :
    { screen with readout }.count counter = screen.count counter := by
  cases counter <;> rfl

/-! ### Changing one marker -/

theorem marker?_change (screen : Screen) (id other : UInt64) (change : Marker → Marker) :
    (screen.change id change).marker? other =
      if other = id then (change (screen.markerAt id)).unlessBare else screen.marker? other := by
  unfold Screen.change marker?
  by_cases same : other = id
  · subst same
    simp [markerAt, marker?]
  · simp [OrderedMap.get?_alter_of_ne _ same, same]

theorem markerAt_change (screen : Screen) (id other : UInt64) (change : Marker → Marker) :
    (screen.change id change).markerAt other =
      if other = id then change (screen.markerAt id) else screen.markerAt other := by
  rw [markerAt, marker?_change]
  split
  · exact Marker.getD_unlessBare _
  · rfl

theorem IsNormal.change {screen : Screen} (normal : screen.IsNormal) (id : UInt64)
    {change : Marker → Marker} (keeps : ∀ marker : Marker, marker.NoZero → (change marker).NoZero) :
    (screen.change id change).IsNormal where
  no_bare := by
    intro other marker found
    rw [marker?_change] at found
    split at found
    · unfold Marker.unlessBare at found
      split at found
      next => cases found
      next notBare =>
        cases found
        simpa using notBare
    · exact normal.no_bare other marker found
  no_zero := by
    intro other
    rw [markerAt_change]
    split
    · exact keeps _ (normal.no_zero id)
    · exact normal.no_zero other

/-! ### Single effects -/

/-- The effect that adds to a counter raises it by one and leaves the others alone. -/
theorem IsNormal.apply_added {screen : Screen} (normal : screen.IsNormal) (counter : Counter) :
    ∃ after, screen.apply counter.added = .ok after ∧ after.IsNormal ∧
      (∀ other, after.count other = screen.count other + if other = counter then 1 else 0) ∧
      after.readout = screen.readout := by
  cases counter with
  | instances id =>
    refine ⟨screen.change id Marker.addInstance, rfl, normal.change id fun _ noZero => noZero, ?_, rfl⟩
    intro other
    cases other with
    | instances other =>
      by_cases same : other = id <;> simp [count, markerAt_change, Marker.addInstance, same]
    | flag other reason =>
      by_cases same : other = id <;>
        simp [count, markerAt_change, Marker.addInstance, Marker.flagCount, same]
  | flag id reason =>
    refine ⟨screen.change id fun marker => marker.addFlag reason, rfl,
      normal.change id fun _ noZero => Marker.noZero_addFlag noZero reason, ?_, rfl⟩
    intro other
    cases other with
    | instances other =>
      by_cases same : other = id <;> simp [count, markerAt_change, Marker.addFlag, same]
    | flag other token =>
      by_cases same : other = id <;> simp [count, markerAt_change, Marker.flagCount_addFlag, same]

/-- The effect that takes away from a counter lowers it by one if it is not zero. -/
theorem IsNormal.apply_removed {screen : Screen} (normal : screen.IsNormal) (counter : Counter)
    (positive : 0 < screen.count counter) :
    ∃ after, screen.apply counter.removed = .ok after ∧ after.IsNormal ∧
      (∀ other, after.count other = screen.count other - if other = counter then 1 else 0) ∧
      after.readout = screen.readout := by
  cases counter with
  | instances id =>
    -- That the counter is not zero is just what the effect asks for.
    have shown : ((screen.marker? id).getD .bare).isShown = true := by
      simpa [Marker.isShown, count, markerAt] using positive
    refine ⟨screen.change id Marker.removeInstance, if_pos shown,
      normal.change id fun _ noZero => noZero, ?_, rfl⟩
    intro other
    cases other with
    | instances other =>
      by_cases same : other = id <;> simp [count, markerAt_change, Marker.removeInstance, same]
    | flag other reason =>
      by_cases same : other = id <;>
        simp [count, markerAt_change, Marker.removeInstance, Marker.flagCount, same]
  | flag id reason =>
    have flagged : (screen.markerAt id).hasFlag reason = true :=
      (Marker.hasFlag_iff (normal.no_zero id) reason).mpr positive
    refine ⟨screen.change id fun marker => marker.removeFlag reason, if_pos flagged,
      normal.change id fun _ noZero => Marker.noZero_removeFlag noZero reason, ?_, rfl⟩
    intro other
    cases other with
    | instances other =>
      by_cases same : other = id <;> simp [count, markerAt_change, Marker.removeFlag, same]
    | flag other token =>
      by_cases same : other = id <;> simp [count, markerAt_change, Marker.flagCount_removeFlag, same]

/-! ### Lists of effects -/

/-- Apply effects one after the other, up to the first that is refused. -/
def applyAll (screen : Screen) (effects : List Effect) : Except Refusal Screen :=
  effects.foldlM Screen.apply screen

theorem applyAll_cons_ok {screen after : Screen} {effect : Effect} (rest : List Effect)
    (applied : screen.apply effect = .ok after) :
    screen.applyAll (effect :: rest) = after.applyAll rest := by
  simp [applyAll, List.foldlM_cons, applied, bind, Except.bind]

theorem exists_of_applyAll_cons {screen after : Screen} {effect : Effect} {rest : List Effect}
    (applied : screen.applyAll (effect :: rest) = .ok after) :
    ∃ next, screen.apply effect = .ok next ∧ next.applyAll rest = .ok after := by
  cases first : screen.apply effect with
  | error refusal => simp [applyAll, List.foldlM_cons, first, bind, Except.bind] at applied
  | ok next =>
    rw [applyAll_cons_ok rest first] at applied
    exact ⟨next, rfl, applied⟩

theorem applyAll_append_ok {screen after : Screen} {first : List Effect} (second : List Effect)
    (applied : screen.applyAll first = .ok after) :
    screen.applyAll (first ++ second) = after.applyAll second := by
  simp only [applyAll] at applied
  simp [applyAll, List.foldlM_append, applied, bind, Except.bind]

/-- Adding raises each counter as often as it stands in the list. -/
theorem IsNormal.applyAll_added {screen : Screen} (normal : screen.IsNormal) (counters : List Counter) :
    ∃ after, screen.applyAll (counters.map Counter.added) = .ok after ∧ after.IsNormal ∧
      (∀ other, after.count other = screen.count other + counters.count other) ∧
      after.readout = screen.readout := by
  induction counters generalizing screen with
  | nil => exact ⟨screen, rfl, normal, fun _ => rfl, rfl⟩
  | cons counter rest ih =>
    obtain ⟨next, applied, normalNext, counts, readout⟩ := normal.apply_added counter
    obtain ⟨after, appliedRest, normalAfter, countsRest, readoutRest⟩ := ih normalNext
    refine ⟨after, ?_, normalAfter, ?_, readoutRest.trans readout⟩
    · rw [List.map_cons, applyAll_cons_ok _ applied, appliedRest]
    · intro other
      rw [countsRest, counts, List.count_cons]
      by_cases same : other = counter
      · simp [same]
        omega
      · simp [same, Ne.symm same]

/-- Taking away succeeds if every counter is at least as high as it stands often in the list. -/
theorem IsNormal.applyAll_removed {screen : Screen} (normal : screen.IsNormal) (counters : List Counter)
    (enough : ∀ counter, counters.count counter ≤ screen.count counter) :
    ∃ after, screen.applyAll (counters.map Counter.removed) = .ok after ∧ after.IsNormal ∧
      (∀ other, after.count other = screen.count other - counters.count other) ∧
      after.readout = screen.readout := by
  induction counters generalizing screen with
  | nil => exact ⟨screen, rfl, normal, fun _ => rfl, rfl⟩
  | cons counter rest ih =>
    have positive : 0 < screen.count counter := by
      have bound := enough counter
      rw [List.count_cons_self] at bound
      omega
    obtain ⟨next, applied, normalNext, counts, readout⟩ := normal.apply_removed counter positive
    -- What the rest takes away is still there after the first.
    have enoughNext : ∀ other, rest.count other ≤ next.count other := by
      intro other
      have bound := enough other
      rw [List.count_cons] at bound
      rw [counts]
      by_cases same : other = counter
      · simp [same] at bound ⊢
        omega
      · simp [same, Ne.symm same] at bound ⊢
        omega
    obtain ⟨after, appliedRest, normalAfter, countsRest, readoutRest⟩ := ih normalNext enoughNext
    refine ⟨after, ?_, normalAfter, ?_, readoutRest.trans readout⟩
    · rw [List.map_cons, applyAll_cons_ok _ applied, appliedRest]
    · intro other
      rw [countsRest, counts, List.count_cons]
      by_cases same : other = counter
      · simp [same]
        omega
      · simp [same, Ne.symm same]

end Screen
end PacketReplay
