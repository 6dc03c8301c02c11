import PacketReplay.Proofs.Float.Units
import PacketReplay.Settings.File

/-!
# Valid settings

The settings that a program goes by have passed the check, whatever they were put together from: the last step
checks all of them once more.
-/
namespace PacketReplay

open Binary64

/-! ### Amounts -/

theorem isNumber_zero : IsNumber 0.0 := by
  have finite : (0.0 : Float).isFinite = true := by decide +kernel
  exact ((isFinite_iff_units 0.0).mp finite).1

theorem units_zero : units 0.0 = 0 := by decide +kernel

theorem isAmount_iff_units {value : Float} :
    isAmount value = true ↔ value.isFinite = true ∧ 0 ≤ units value := by
  rw [isAmount, Bool.and_eq_true, decide_eq_true_eq]
  refine and_congr_right fun finite => ?_
  rw [le_iff_units isNumber_zero ((isFinite_iff_units value).mp finite).1, units_zero]

/-- An amount is a finite number that is not below zero. -/
theorem isAmount_iff {value : Float} : isAmount value = true ↔ value.isFinite = true ∧ ¬value < 0.0 := by
  rw [isAmount_iff_units]
  refine and_congr_right fun finite => ?_
  rw [lt_iff_units ((isFinite_iff_units value).mp finite).1 isNumber_zero, units_zero, not_lt]

/-! ### Valid settings -/

/-- Both numbers are finite and not below zero, and no key is blank. -/
structure Settings.Valid (settings : Settings) : Prop where
  mergeEpsilon : settings.mergeEpsilon.isFinite = true ∧ ¬settings.mergeEpsilon < 0.0
  autoplayScale : settings.autoplayScale.isFinite = true ∧ ¬settings.autoplayScale < 0.0
  seriesKeys : ∀ key ∈ settings.seriesKeys, Text.trim key.toList ≠ []

theorem Settings.valid_iff (settings : Settings) : settings.Valid ↔ settings.isValid = true := by
  rw [isValid, Bool.and_eq_true, Bool.and_eq_true, isAmount_iff, isAmount_iff, List.all_eq_true]
  have keys : (∀ key ∈ settings.seriesKeys, (!Text.allBlank key.toList) = true) ↔
      ∀ key ∈ settings.seriesKeys, Text.trim key.toList ≠ [] :=
    forall₂_congr fun key _ => by rw [ne_eq, Text.trim_eq_nil_iff, Bool.not_eq_true']; simp
  rw [keys, and_assoc]
  constructor
  · intro valid
    exact ⟨valid.mergeEpsilon, valid.autoplayScale, valid.seriesKeys⟩
  · rintro ⟨epsilon, scale, keys⟩
    exact ⟨epsilon, scale, keys⟩

theorem Settings.validated_eq_ok_iff {settings checked : Settings} :
    settings.validated = .ok checked ↔ settings = checked ∧ checked.Valid := by
  unfold validated
  cases fault : settings.fault? with
  | some fault =>
    refine iff_of_false (by simp) ?_
    rintro ⟨rfl, valid⟩
    rw [valid_iff, ← fault?_eq_none_iff, fault] at valid
    cases valid
  | none =>
    rw [fault?_eq_none_iff, ← valid_iff] at fault
    constructor
    · intro same
      cases same
      exact ⟨rfl, fault⟩
    · rintro ⟨rfl, _⟩
      rfl

theorem Settings.valid_standard : Settings.standard.Valid := by
  rw [valid_iff]
  decide +kernel

/-! ### Settings that are put together -/

theorem mapError_eq_ok_iff {ε δ α : Type} {describe : ε → δ} {result : Except ε α} {value : α} :
    result.mapError describe = .ok value ↔ result = .ok value := by
  cases result <;> simp [Except.mapError]

/-- What the settings of the command line are put on top of. -/
def Settings.Base : Option FileText → Settings → Prop
  | none, base => base = standard
  | some file, base => ofFile file = .ok base

theorem Settings.effective_eq_ok_iff_override {file : Option FileText} {overrides : Overrides} {settings : Settings} :
    Settings.effective file overrides = .ok settings ↔ ∃ base, Base file base ∧ base.override overrides = .ok settings := by
  cases file with
  | none =>
    change (standard.override overrides).mapError SettingsError.invalid = .ok settings ↔ _
    simp only [mapError_eq_ok_iff, Base, exists_eq_left]
  | some file =>
    simp only [Base]
    cases read : ofFile file <;> simp [effective, read, bind, Except.bind, mapError_eq_ok_iff]

theorem Settings.valid_of_effective {file : Option FileText} {overrides : Overrides} {settings : Settings}
    (accepted : Settings.effective file overrides = .ok settings) : settings.Valid := by
  obtain ⟨base, _, overridden⟩ := effective_eq_ok_iff_override.mp accepted
  obtain ⟨rfl, valid⟩ := validated_eq_ok_iff.mp overridden
  exact valid

end PacketReplay
