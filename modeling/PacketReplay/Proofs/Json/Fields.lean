import PacketReplay.Proofs.Decimal.Accumulation
import PacketReplay.Proofs.Timeline.Json

/-!
# Fields and their numbers

A record is read field by field, so neither the order of the fields of an object matters nor fields of other
names that stand among them. A number in a field is read back if and only if it is finite.
-/
namespace PacketReplay.Json.Value

/-- Fields whose names can be read and are none of the given ones. -/
def Others (names : List String) (fields : List (Content × Value)) : Prop :=
  ∀ field ∈ fields, ∃ name, field.1 = some name ∧ name ∉ names

variable {fields shuffled own others : List (Content × Value)} {names : List String} {name : String}

theorem field?_perm (perm : fields.Perm shuffled) (name : String) : field? fields name = field? shuffled name := by
  have same := perm.filter fun field => field.1 = some name
  unfold field?
  generalize fields.filter (fun field => field.1 = some name) = first at same
  generalize shuffled.filter (fun field => field.1 = some name) = second at same
  cases first with
  | nil => rw [same.nil_eq]
  | cons field rest =>
    cases rest with
    | nil => rw [same.singleton_eq]
    | cons next rest =>
      -- Two fields of one name are refused in any order.
      match second, same.length_eq with
      | _ :: _ :: _, _ => rfl

theorem field?_append (absent : ∀ field ∈ others, field.1 ≠ some name) :
    field? (own ++ others) name = field? own name := by
  have none : others.filter (fun field => field.1 = some name) = [] := by
    rw [List.filter_eq_nil_iff]
    intro field member
    simpa using absent field member
  unfold field?
  rw [List.filter_append, none, List.append_nil]

/-- What an object says about a name: that it is not there, or the value of the one field that has it. -/
def Occurs (fields : List (Content × Value)) (name : String) : Option Value → Prop
  | none => ∀ field ∈ fields, field.1 ≠ some name
  | some value => ∃ before after, fields = before ++ (some name, value) :: after ∧
      ∀ field ∈ before ++ after, field.1 ≠ some name

theorem field?_eq_some_iff {found : Option Value} : field? fields name = some found ↔ Occurs fields name found := by
  have empty (list : List (Content × Value)) :
      list.filter (fun field => field.1 = some name) = [] ↔ ∀ field ∈ list, field.1 ≠ some name := by
    simp [List.filter_eq_nil_iff]
  have single (value : Value) : fields.filter (fun field => field.1 = some name) = [(some name, value)] ↔
      Occurs fields name (some value) := by
    rw [List.filter_eq_cons_iff]
    constructor
    · rintro ⟨before, after, rfl, notBefore, _, rest⟩
      refine ⟨before, after, rfl, ?_⟩
      rw [List.forall_mem_append]
      exact ⟨by simpa using notBefore, (empty after).mp rest⟩
    · rintro ⟨before, after, rfl, absent⟩
      rw [List.forall_mem_append] at absent
      exact ⟨before, after, rfl, by simpa using absent.1, by simp, (empty after).mpr absent.2⟩
  have occurs : Occurs fields name found ↔
      fields.filter (fun field => field.1 = some name) = (found.map fun value => (some name, value)).toList := by
    cases found with
    | none => exact (empty fields).symm
    | some value => exact (single value).symm
  rw [occurs]
  unfold field?
  cases list : fields.filter (fun field => field.1 = some name) with
  | nil => cases found <;> simp
  | cons field rest =>
    have named : field.1 = some name := by
      have member : field ∈ fields.filter (fun field => field.1 = some name) := list ▸ List.mem_cons_self
      simpa using (List.mem_filter.mp member).2
    obtain ⟨_, value⟩ := field
    cases named
    cases rest <;> cases found <;> simp

theorem mapM_congr {α β : Type} {read other : α → Option β} {items : List α}
    (same : ∀ item ∈ items, read item = other item) : items.mapM read = items.mapM other := by
  induction items with
  | nil => rfl
  | cons item rest ih =>
    rw [List.mapM_cons, List.mapM_cons, same item List.mem_cons_self,
      ih fun later member => same later (List.mem_cons_of_mem item member)]

theorem Others.mono {fewer : List String} (other : Others names others) (subset : fewer ⊆ names) :
    Others fewer others := by
  intro field member
  obtain ⟨name, isName, notKnown⟩ := other field member
  exact ⟨name, isName, fun known => notKnown (subset known)⟩

theorem Others.absent (other : Others names others) (known : name ∈ names) :
    ∀ field ∈ others, field.1 ≠ some name := by
  intro field member same
  obtain ⟨different, isName, notKnown⟩ := other field member
  rw [isName, Option.some.injEq] at same
  exact notKnown (same ▸ known)

theorem Others.named (other : Others names others) : (others.all fun field => field.1.isSome) = true := by
  rw [List.all_eq_true]
  intro field member
  obtain ⟨different, isName, _⟩ := other field member
  rw [isName, Option.isSome_some]

/-- What is known about a record does not depend on the order of its fields, and other fields are passed
over. -/
theorem record?_perm (names : List String) (other : Others names others) (perm : fields.Perm (own ++ others)) :
    Value.record? names (.object fields) = Value.record? names (.object own) := by
  have known : names.mapM (field? fields) = names.mapM (field? own) :=
    mapM_congr fun name member => (field?_perm perm name).trans (field?_append (other.absent member))
  have named : (fields.all fun field => field.1.isSome) = own.all fun field => field.1.isSome := by
    rw [perm.all_eq, List.all_append, other.named, Bool.and_true]
  rw [record?, record?, known, named]

end PacketReplay.Json.Value

namespace PacketReplay

open Binary64 (units)
open Decimal (Numeral Style accumulated?_of_finite)

/-- A finite number is read back as a finite one, and not as a negative one if it was not negative. -/
theorem exists_rereadNumber? {value : Float} (finite : value.isFinite = true) :
    ∃ read, rereadNumber? value = some read ∧ read.isFinite = true ∧ (0 ≤ units value → 0 ≤ units read) := by
  obtain ⟨numeral, read, written, reading, isFinite, signed⟩ := accumulated?_of_finite finite
  refine ⟨read, ?_, isFinite, signed⟩
  simp [rereadNumber?, written, Numeral.ofText?_text, reading]

theorem isSome_rereadNumber?_iff (value : Float) : (rereadNumber? value).isSome = true ↔ value.isFinite = true := by
  constructor
  · intro read
    by_contra notFinite
    rw [rereadNumber?_eq_none notFinite] at read
    cases read
  · intro finite
    obtain ⟨read, reading, _⟩ := exists_rereadNumber? finite
    rw [reading, Option.isSome_some]

end PacketReplay
