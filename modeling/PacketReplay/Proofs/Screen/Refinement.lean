import Mathlib.Logic.Function.Basic
import PacketReplay.Player.Host
import PacketReplay.Proofs.OrderedMap
import PacketReplay.Proofs.Screen.Counters

/-!
# Screens stand for counters

A screen keeps its markers in a map, and the flags of each marker in a map of their own. What it stands for are
counters that know nothing of each other, one for the instances of each packet and one for each flag on it, and
the readout. An effect raises a counter, lowers one that is not zero, or starts all over; the screen takes it
just if the counters can. After every effect, refused ones included, the maps are the normal form of the
counters: an entry for what is there, and none for what is not.
-/
namespace PacketReplay

/-! ### Counters -/

/-- The packet that is counted. -/
def Counter.id : Counter → UInt64
  | instances id => id
  | flag id _ => id

/-- What an effect is answered with that takes away from the counter while it is zero. -/
def Counter.refusal : Counter → Refusal
  | instances id => ⟨id, "sent"⟩
  | flag id reason => ⟨id, reason.token⟩

/-- Independent counters, and what was read out last. -/
structure Counters where
  count : Counter → Nat
  readout : Option Readout

namespace Counters

def zero : Counters := ⟨fun _ => 0, none⟩

def raise (counters : Counters) (counter : Counter) : Counters :=
  { counters with count := Function.update counters.count counter (counters.count counter + 1) }

/-- A counter at zero cannot be lowered. -/
def lower? (counters : Counters) (counter : Counter) : Option Counters :=
  match counters.count counter with
  | 0 => none
  | less + 1 => some { counters with count := Function.update counters.count counter less }

/-- What becomes of the counters, if the effect is possible. -/
def step? (counters : Counters) : Effect → Option Counters
  | .clear => some zero
  | .addMarker id => some (counters.raise (.instances id))
  | .removeMarker id => counters.lower? (.instances id)
  | .addFlag id reason => some (counters.raise (.flag id reason))
  | .removeFlag id reason => counters.lower? (.flag id reason)
  | .readout readout => some { counters with readout := some readout }

/-- The counters after effects, of which those that are impossible change nothing. -/
def after (counters : Counters) (effects : List Effect) : Counters :=
  effects.foldl (fun counters effect => (counters.step? effect).getD counters) counters

theorem step?_added (counters : Counters) (counter : Counter) :
    counters.step? counter.added = some (counters.raise counter) := by
  cases counter <;> rfl

theorem step?_removed (counters : Counters) (counter : Counter) :
    counters.step? counter.removed = counters.lower? counter := by
  cases counter <;> rfl

theorem lower?_eq_none_iff (counters : Counters) (counter : Counter) :
    counters.lower? counter = none ↔ counters.count counter = 0 := by
  rw [lower?]
  split <;> simp_all

theorem count_raise (counters : Counters) (counter other : Counter) :
    (counters.raise counter).count other = counters.count other + if other = counter then 1 else 0 := by
  by_cases same : other = counter
  · subst same
    simp [raise]
  · simp [raise, same]

/-- A counter that can be lowered stood one higher before, and no other changes. -/
theorem count_of_lower? {counters lowered : Counters} {counter : Counter}
    (possible : counters.lower? counter = some lowered) (other : Counter) :
    counters.count other = lowered.count other + if other = counter then 1 else 0 := by
  rw [lower?] at possible
  split at possible
  next => cases possible
  next less held =>
    cases possible
    by_cases same : other = counter
    · subst same
      simp [held]
    · simp [same]

theorem readout_of_lower? {counters lowered : Counters} {counter : Counter}
    (possible : counters.lower? counter = some lowered) : lowered.readout = counters.readout := by
  rw [lower?] at possible
  split at possible
  next => cases possible
  next =>
    cases possible
    rfl

end Counters

theorem Effect.cases (effect : Effect) :
    effect = .clear ∨ (∃ readout, effect = .readout readout) ∨ (∃ counter : Counter, effect = counter.added) ∨
      ∃ counter : Counter, effect = counter.removed := by
  cases effect with
  | clear => exact .inl rfl
  | readout readout => exact .inr (.inl ⟨readout, rfl⟩)
  | addMarker id => exact .inr (.inr (.inl ⟨.instances id, rfl⟩))
  | addFlag id reason => exact .inr (.inr (.inl ⟨.flag id reason, rfl⟩))
  | removeMarker id => exact .inr (.inr (.inr ⟨.instances id, rfl⟩))
  | removeFlag id reason => exact .inr (.inr (.inr ⟨.flag id reason, rfl⟩))

/-! ### The normal form -/

/-- The screen is the normal form of the counters. -/
structure Screen.Shows (screen : Screen) (counters : Counters) : Prop where
  /-- A packet has an entry if one of its counters is positive. -/
  entry : ∀ id, (screen.marker? id).isSome ↔ ∃ counter : Counter, counter.id = id ∧ 0 < counters.count counter
  instances : ∀ id marker, screen.marker? id = some marker →
    marker.instances = counters.count (.instances id)
  /-- A flag has an entry, with its counter, if that is positive. -/
  flags : ∀ id marker, screen.marker? id = some marker → ∀ reason,
    marker.flags.get? reason =
      if counters.count (.flag id reason) = 0 then none else some (counters.count (.flag id reason))
  readout : screen.readout = counters.readout

theorem Marker.eq_bare_iff {marker : Marker} (noZero : marker.NoZero) :
    marker = .bare ↔ marker.instances = 0 ∧ ∀ reason, marker.flagCount reason = 0 := by
  constructor
  · rintro rfl
    exact ⟨rfl, fun _ => rfl⟩
  · rintro ⟨none, unflagged⟩
    have flags : marker.flags = .empty := by
      apply OrderedMap.ext_get?
      intro reason
      rw [Marker.get?_flags noZero, unflagged]
      rfl
    obtain ⟨instances, _⟩ := marker
    cases none
    cases flags
    rfl

namespace Screen

theorem markerAt_of_some {screen : Screen} {id : UInt64} {marker : Marker}
    (found : screen.marker? id = some marker) : screen.markerAt id = marker := by
  rw [markerAt, found]
  rfl

/-- A packet has an entry in a normal screen if one of its counters is positive. -/
theorem IsNormal.isSome_marker?_iff {screen : Screen} (normal : screen.IsNormal) (id : UInt64) :
    (screen.marker? id).isSome ↔ ∃ counter : Counter, counter.id = id ∧ 0 < screen.count counter := by
  have bare : (screen.marker? id).isSome ↔ screen.markerAt id ≠ .bare := by
    rw [normal.marker?_eq, Marker.unlessBare, ne_eq, ← Marker.isBare_iff]
    split <;> simp_all
  rw [bare, ne_eq, Marker.eq_bare_iff (normal.no_zero id), ← not_iff_not, not_not]
  constructor
  · rintro ⟨none, unflagged⟩ ⟨counter, rfl, positive⟩
    cases counter with
    | instances id => exact Nat.ne_of_gt positive none
    | flag id reason => exact Nat.ne_of_gt positive (unflagged reason)
  · intro nothing
    constructor
    · by_contra positive
      exact nothing ⟨.instances id, rfl, Nat.pos_of_ne_zero positive⟩
    · intro reason
      by_contra positive
      exact nothing ⟨.flag id reason, rfl, Nat.pos_of_ne_zero positive⟩

/-- To show counters is to be normal and to have them. -/
theorem shows_iff (screen : Screen) (counters : Counters) :
    screen.Shows counters ↔
      screen.IsNormal ∧ (∀ counter, screen.count counter = counters.count counter) ∧
        screen.readout = counters.readout := by
  constructor
  · rintro ⟨entry, instances, flags, readout⟩
    have absent : ∀ counter, screen.marker? counter.id = none → counters.count counter = 0 := by
      intro counter missing
      by_contra positive
      have isSome := (entry counter.id).mpr ⟨counter, rfl, Nat.pos_of_ne_zero positive⟩
      rw [missing] at isSome
      cases isSome
    have noZero : ∀ id marker, screen.marker? id = some marker → marker.NoZero := by
      intro id marker found reason
      rw [flags id marker found]
      split <;> simp_all
    refine ⟨⟨?_, ?_⟩, ?_, readout⟩
    · intro id marker found
      rw [Bool.eq_false_iff, ne_eq, Marker.isBare_iff, Marker.eq_bare_iff (noZero id marker found)]
      rintro ⟨none, unflagged⟩
      -- The entry is there for some counter, which the marker shows.
      obtain ⟨counter, rfl, positive⟩ := (entry id).mp (Option.isSome_of_eq_some found)
      cases counter with
      | instances id =>
        rw [instances id marker found] at none
        exact Nat.ne_of_gt positive none
      | flag id reason =>
        have zero := unflagged reason
        rw [Marker.flagCount, flags id marker found] at zero
        split at zero <;> simp_all
    · intro id
      rw [markerAt]
      cases found : screen.marker? id with
      | none => exact Marker.noZero_bare
      | some marker => exact noZero id marker found
    · intro counter
      cases found : screen.marker? counter.id with
      | none =>
        rw [absent counter found]
        cases counter <;> simp_all [count, markerAt, Counter.id, Marker.bare, Marker.flagCount]
      | some marker =>
        have here := markerAt_of_some found
        cases counter with
        | instances id => exact (congrArg Marker.instances here).trans (instances id marker found)
        | flag id reason =>
          have flagged : screen.count (.flag id reason) = marker.flagCount reason :=
            congrArg (Marker.flagCount · reason) here
          rw [flagged, Marker.flagCount, flags id marker found]
          split <;> simp_all
  · rintro ⟨normal, counts, readout⟩
    refine ⟨?_, ?_, ?_, readout⟩
    · intro id
      rw [normal.isSome_marker?_iff]
      simp only [counts]
    · intro id marker found
      rw [← counts, count, markerAt_of_some found]
    · intro id marker found reason
      have noZero := normal.no_zero id
      rw [markerAt_of_some found] at noZero
      rw [Marker.get?_flags noZero, ← counts, count, markerAt_of_some found]
      rfl

/-- What is not there cannot be taken away. -/
theorem IsNormal.apply_removed_of_zero {screen : Screen} (normal : screen.IsNormal) {counter : Counter}
    (zero : screen.count counter = 0) : screen.apply counter.removed = .error counter.refusal := by
  cases counter with
  | instances id =>
    refine if_neg ?_
    rw [Marker.isShown, decide_eq_true_eq]
    exact Nat.not_lt_of_le (Nat.le_of_eq zero)
  | flag id reason =>
    have unset : ¬(screen.markerAt id).hasFlag reason = true := by
      rw [Marker.hasFlag_iff (normal.no_zero id)]
      exact Nat.not_lt_of_le (Nat.le_of_eq zero)
    exact if_neg unset

theorem shows_empty : empty.Shows .zero := by
  refine (shows_iff _ _).mpr ⟨isNormal_empty, ?_, rfl⟩
  intro counter
  cases counter <;> rfl

namespace Shows

variable {screen other : Screen} {counters : Counters}

/-- Counters have one normal form. -/
theorem unique (shows : screen.Shows counters) (alike : other.Shows counters) : other = screen := by
  obtain ⟨normal, counts, readout⟩ := (shows_iff _ _).mp shows
  obtain ⟨normalOther, countsOther, readoutOther⟩ := (shows_iff _ _).mp alike
  apply normalOther.ext normal
  · intro counter
    rw [countsOther, counts]
  · rw [readoutOther, readout]

/-! ### Effects -/

theorem apply_added (shows : screen.Shows counters) (counter : Counter) :
    ∃ after, screen.apply counter.added = .ok after ∧ after.Shows (counters.raise counter) := by
  obtain ⟨normal, counts, readout⟩ := (shows_iff _ _).mp shows
  obtain ⟨after, applied, normalAfter, countsAfter, readoutAfter⟩ := normal.apply_added counter
  refine ⟨after, applied, (shows_iff _ _).mpr ⟨normalAfter, ?_, readoutAfter.trans readout⟩⟩
  intro other
  rw [countsAfter, counts, Counters.count_raise]

theorem apply_removed {lowered : Counters} (shows : screen.Shows counters) {counter : Counter}
    (possible : counters.lower? counter = some lowered) :
    ∃ after, screen.apply counter.removed = .ok after ∧ after.Shows lowered := by
  obtain ⟨normal, counts, readout⟩ := (shows_iff _ _).mp shows
  have lowers := Counters.count_of_lower? possible
  have positive : 0 < screen.count counter := by
    rw [counts, lowers, if_pos rfl]
    exact Nat.succ_pos _
  obtain ⟨after, applied, normalAfter, countsAfter, readoutAfter⟩ := normal.apply_removed counter positive
  refine ⟨after, applied, (shows_iff _ _).mpr ⟨normalAfter, ?_, ?_⟩⟩
  · intro other
    rw [countsAfter, counts, lowers, Nat.add_sub_cancel]
  · rw [readoutAfter, readout, Counters.readout_of_lower? possible]

/-- An effect is taken by the screen and possible for the counters, or it is refused and impossible. -/
theorem apply_cases (shows : screen.Shows counters) (effect : Effect) :
    (∃ after next, screen.apply effect = .ok after ∧ counters.step? effect = some next ∧ after.Shows next) ∨
    ∃ counter : Counter, effect = counter.removed ∧ counters.count counter = 0 ∧
      screen.apply effect = .error counter.refusal ∧ counters.step? effect = none := by
  rcases effect.cases with rfl | ⟨readout, rfl⟩ | ⟨counter, rfl⟩ | ⟨counter, rfl⟩
  · exact .inl ⟨empty, .zero, rfl, rfl, shows_empty⟩
  · exact .inl ⟨_, _, rfl, rfl, ⟨shows.entry, shows.instances, shows.flags, rfl⟩⟩
  · obtain ⟨after, applied, showsAfter⟩ := shows.apply_added counter
    exact .inl ⟨after, _, applied, counters.step?_added counter, showsAfter⟩
  · rw [counters.step?_removed]
    cases possible : counters.lower? counter with
    | none =>
      have zero := (counters.lower?_eq_none_iff counter).mp possible
      obtain ⟨normal, counts, _⟩ := (shows_iff _ _).mp shows
      exact .inr ⟨counter, rfl, zero, normal.apply_removed_of_zero ((counts counter).trans zero), rfl⟩
    | some lowered =>
      obtain ⟨after, applied, showsAfter⟩ := shows.apply_removed possible
      exact .inl ⟨after, lowered, applied, rfl, showsAfter⟩

end Shows

/-! ### Runs -/

/-- The screen after effects, of which those that are refused are passed over. -/
def after (screen : Screen) (effects : List Effect) : Screen :=
  effects.foldl (fun screen effect => (Host.receive screen effect).host) screen

theorem receive_of_ok {screen after : Screen} {effect : Effect} (applied : screen.apply effect = .ok after) :
    Host.receive screen effect = ⟨none, false, after⟩ := by
  simp only [Host.receive, applied]

theorem receive_of_error {screen : Screen} {effect : Effect} {refusal : Refusal}
    (refused : screen.apply effect = .error refusal) :
    Host.receive screen effect = ⟨some refusal, false, screen⟩ := by
  simp only [Host.receive, refused]

theorem Shows.after {screen : Screen} {counters : Counters} (shows : screen.Shows counters)
    (effects : List Effect) : (screen.after effects).Shows (counters.after effects) := by
  induction effects generalizing screen counters with
  | nil => exact shows
  | cons effect rest ih =>
    rw [Screen.after, Counters.after, List.foldl_cons, List.foldl_cons]
    apply ih
    rcases shows.apply_cases effect with
      ⟨after, next, applied, possible, showsAfter⟩ | ⟨counter, _, _, refused, impossible⟩
    · rw [receive_of_ok applied, possible]
      exact showsAfter
    · rw [receive_of_error refused, impossible]
      exact shows

end Screen

/-! ### What is shown -/

theorem Screen.mem_visible_iff (screen : Screen) (id : UInt64) :
    id ∈ screen.visible ↔ 0 < (screen.markerAt id).instances := by
  rw [visible, List.mem_map, markerAt]
  constructor
  · rintro ⟨⟨_, marker⟩, member, rfl⟩
    obtain ⟨entry, shown⟩ := List.mem_filter.mp member
    have found : screen.marker? _ = some marker := (screen.markers.get?_eq_some_iff _ _).mpr entry
    rw [found]
    exact of_decide_eq_true shown
  · intro shown
    cases found : screen.marker? id with
    | none =>
      rw [found] at shown
      cases shown
    | some marker =>
      rw [found] at shown
      have entry := (screen.markers.get?_eq_some_iff id marker).mp found
      exact ⟨(id, marker), List.mem_filter.mpr ⟨entry, decide_eq_true shown⟩, rfl⟩

theorem Screen.ascending_visible (screen : Screen) : screen.visible.Pairwise (· < ·) := by
  rw [visible, List.pairwise_map]
  refine (screen.markers.ascending.sublist List.filter_sublist).imp ?_
  intro earlier later order
  exact Std.compare_eq_lt.mp order

/-! ### How high counters stand -/

theorem Counters.count_step_le (counters : Counters) (effect : Effect) (counter : Counter) :
    ((counters.step? effect).getD counters).count counter ≤
      counters.count counter + if effect = counter.added then 1 else 0 := by
  rcases effect.cases with rfl | ⟨readout, rfl⟩ | ⟨other, rfl⟩ | ⟨other, rfl⟩
  · exact Nat.zero_le _
  · exact Nat.le_add_right _ _
  · rw [step?_added, Option.getD_some, count_raise]
    by_cases same : counter = other <;> simp [same]
  · rw [step?_removed]
    cases possible : counters.lower? other with
    | none => exact Nat.le_add_right _ _
    | some lowered =>
      rw [Option.getD_some, count_of_lower? possible]
      omega

/-- A counter is never higher than there have been effects that raise it. -/
theorem Counters.count_after_le (counters : Counters) (effects : List Effect) (counter : Counter) :
    (counters.after effects).count counter ≤ counters.count counter + effects.count counter.added := by
  induction effects generalizing counters with
  | nil => exact Nat.le_refl _
  | cons effect rest ih =>
    have step := counters.count_step_le effect counter
    have run := ih ((counters.step? effect).getD counters)
    rw [Counters.after, List.foldl_cons, List.count_cons]
    simp only [Counters.after, beq_iff_eq] at run ⊢
    omega

/-- After any effects on an empty screen, refused ones included, the screen is the one normal form of counters
that the same effects have changed, as far as they could: its markers and flags are those whose counters are
positive. The next effect is refused just if it takes away from a counter at zero, and then nothing changes; if
not, it does to the screen what it does to the counters. No counter is higher than effects have raised it, so it
fits into as many bits as their number. -/
theorem screen_refines_counters (before : List Effect) (effect : Effect) :
    let screen := Screen.empty.after before
    let counters := Counters.zero.after before
    let reply := Host.receive screen effect
    screen.Shows counters ∧ (∀ other : Screen, other.Shows counters → other = screen) ∧
    (∀ id marker, screen.marker? id = some marker →
      (marker.isShown = true ↔ 0 < counters.count (.instances id)) ∧
      ∀ reason, marker.isFlagged reason = true ↔ 0 < counters.count (.flag id reason)) ∧
    (∀ id, id ∈ screen.visible ↔ 0 < counters.count (.instances id)) ∧ screen.visible.Pairwise (· < ·) ∧
    (reply.refusal = none ↔ ∀ counter : Counter, effect = counter.removed → 0 < counters.count counter) ∧
    (reply.refusal = none → ∃ next, counters.step? effect = some next ∧ reply.host.Shows next) ∧
    (∀ refusal, reply.refusal = some refusal → counters.step? effect = none ∧ reply.host = screen ∧
      ∃ counter : Counter, effect = counter.removed ∧ refusal = counter.refusal) ∧
    ∀ counter, screen.count counter ≤ before.count counter.added := by
  intro screen counters reply
  have shows : screen.Shows counters := Screen.shows_empty.after before
  obtain ⟨_, counts, _⟩ := (Screen.shows_iff _ _).mp shows
  -- An effect raises one counter at most, by one, so no counter is ahead of the effects that raise it.
  have high : ∀ counter, screen.count counter ≤ before.count counter.added := by
    intro counter
    rw [counts]
    exact (Counters.count_after_le .zero before counter).trans_eq (Nat.zero_add _)
  refine ⟨shows, fun _ => shows.unique, ?_, ?_, screen.ascending_visible, ?_⟩
  · intro id marker found
    have here := Screen.markerAt_of_some found
    rw [← counts, Screen.count, here]
    refine ⟨decide_eq_true_iff, ?_⟩
    intro reason
    rw [← counts, Screen.count, here]
    exact decide_eq_true_iff
  · intro id
    rw [Screen.mem_visible_iff, ← counts]
    rfl
  · rcases shows.apply_cases effect with
      ⟨after, next, applied, possible, showsNext⟩ | ⟨counter, takes, zero, refused, impossible⟩
    · have taken : reply = ⟨none, false, after⟩ := Screen.receive_of_ok applied
      rw [taken]
      refine ⟨⟨?_, fun _ => rfl⟩, fun _ => ⟨next, possible, showsNext⟩, ?_, high⟩
      · rintro _ counter rfl
        rw [Counters.step?_removed] at possible
        rw [Nat.pos_iff_ne_zero, ne_eq, ← Counters.lower?_eq_none_iff, possible]
        exact Option.some_ne_none next
      · rintro _ ⟨⟩
    · have rejected : reply = ⟨some counter.refusal, false, screen⟩ := Screen.receive_of_error refused
      rw [rejected]
      refine ⟨⟨?_, ?_⟩, ?_, ?_, high⟩
      · rintro ⟨⟩
      · intro positive
        exact absurd zero (Nat.ne_of_gt (positive counter takes))
      · rintro ⟨⟩
      · rintro _ ⟨⟩
        exact ⟨impossible, rfl, counter, takes, rfl⟩

end PacketReplay
