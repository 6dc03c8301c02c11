/-!
# Ordered maps

A finite map is the list of its entries in strictly ascending order of the keys. The order is part of
the type, so a map has one representation: two maps that answer every lookup alike are equal
(`OrderedMap.ext_get?`), and the list of entries is the order in which a map is shown.
-/
namespace PacketReplay

/-- Strictly ascending by key. -/
def Ascending {κ ν : Type} [Ord κ] (entries : List (κ × ν)) : Prop :=
  entries.Pairwise fun earlier later => compare earlier.1 later.1 = .lt

structure OrderedMap (κ ν : Type) [Ord κ] where
  entries : List (κ × ν)
  ascending : Ascending entries

namespace OrderedMap

variable {κ ν : Type} [Ord κ]

@[ext] theorem ext_entries {left right : OrderedMap κ ν} (same : left.entries = right.entries) :
    left = right := by
  cases left; cases right; cases same; rfl

instance [DecidableEq κ] [DecidableEq ν] : DecidableEq (OrderedMap κ ν) := fun left right =>
  decidable_of_iff (left.entries = right.entries) ⟨ext_entries, fun same => same ▸ rfl⟩

instance [Repr κ] [Repr ν] : Repr (OrderedMap κ ν) := ⟨fun map depth => reprPrec map.entries depth⟩

/-! ### Lists of entries -/

/-- The value at a key; the search stops at the first larger key. -/
def find? (key : κ) : List (κ × ν) → Option ν
  | [] => none
  | (other, value) :: rest =>
    match compare key other with
    | .lt => none
    | .eq => some value
    | .gt => find? key rest

/-- Put an entry in front, or none. -/
def consSome (key : κ) : Option ν → List (κ × ν) → List (κ × ν)
  | none, rest => rest
  | some value, rest => (key, value) :: rest

/-- Replace what is stored at a key by what `change` makes of it, where `none` means no entry. -/
def alterEntries (key : κ) (change : Option ν → Option ν) : List (κ × ν) → List (κ × ν)
  | [] => consSome key (change none) []
  | (other, value) :: rest =>
    match compare key other with
    | .lt => consSome key (change none) ((other, value) :: rest)
    | .eq => consSome key (change (some value)) rest
    | .gt => (other, value) :: alterEntries key change rest

omit [Ord κ] in
theorem mem_consSome {key : κ} {value : Option ν} {rest : List (κ × ν)} {entry : κ × ν}
    (member : entry ∈ consSome key value rest) : entry.1 = key ∨ entry ∈ rest := by
  cases value with
  | none => exact .inr member
  | some value =>
    rcases List.mem_cons.mp member with rfl | member
    · exact .inl rfl
    · exact .inr member

theorem mem_alterEntries {key : κ} {change : Option ν → Option ν} {entries : List (κ × ν)}
    {entry : κ × ν} (member : entry ∈ alterEntries key change entries) :
    entry.1 = key ∨ entry ∈ entries := by
  induction entries with
  | nil => exact mem_consSome member
  | cons head rest ih =>
    simp only [alterEntries] at member
    split at member
    · exact mem_consSome member
    · rcases mem_consSome member with same | member
      · exact .inl same
      · exact .inr (List.mem_cons_of_mem _ member)
    · rcases List.mem_cons.mp member with rfl | member
      · exact .inr List.mem_cons_self
      · rcases ih member with same | member
        · exact .inl same
        · exact .inr (List.mem_cons_of_mem _ member)

theorem ascending_consSome {key : κ} {value : Option ν} {rest : List (κ × ν)}
    (below : ∀ entry ∈ rest, compare key entry.1 = .lt) (ascending : Ascending rest) :
    Ascending (consSome key value rest) := by
  cases value with
  | none => exact ascending
  | some value => exact List.pairwise_cons.mpr ⟨below, ascending⟩

section Lawful

variable [Std.TransOrd κ] [Std.LawfulEqOrd κ]

theorem ascending_alterEntries (key : κ) (change : Option ν → Option ν) {entries : List (κ × ν)}
    (ascending : Ascending entries) : Ascending (alterEntries key change entries) := by
  induction entries with
  | nil => exact ascending_consSome (fun _ member => by simp at member) ascending
  | cons head rest ih =>
    obtain ⟨below, sorted⟩ := List.pairwise_cons.mp ascending
    simp only [alterEntries]
    split
    next first =>
      refine ascending_consSome (fun entry member => ?_) ascending
      rcases List.mem_cons.mp member with rfl | member
      · exact first
      · exact Std.TransCmp.lt_trans first (below entry member)
    next same =>
      have equal := Std.LawfulEqCmp.eq_of_compare same
      exact ascending_consSome (fun entry member => equal ▸ below entry member) sorted
    next later =>
      refine List.pairwise_cons.mpr ⟨fun entry member => ?_, ih sorted⟩
      rcases mem_alterEntries member with same | member
      · exact same ▸ Std.OrientedCmp.gt_iff_lt.mp later
      · exact below entry member

omit [Std.TransOrd κ] [Std.LawfulEqOrd κ] in
theorem find?_eq_none_of_below {key : κ} {entries : List (κ × ν)}
    (below : ∀ entry ∈ entries, compare key entry.1 = .lt) : find? key entries = none := by
  cases entries with
  | nil => rfl
  | cons head rest => simp [find?, below head List.mem_cons_self]

omit [Std.TransOrd κ] in
theorem find?_consSome_self {key : κ} (value : Option ν) {rest : List (κ × ν)}
    (below : ∀ entry ∈ rest, compare key entry.1 = .lt) :
    find? key (consSome key value rest) = value := by
  cases value with
  | none => exact find?_eq_none_of_below below
  | some value => simp [consSome, find?, Std.ReflCmp.compare_self]

theorem find?_consSome_of_ne {key other : κ} (different : other ≠ key) (value : Option ν)
    {rest : List (κ × ν)} (below : ∀ entry ∈ rest, compare key entry.1 = .lt) :
    find? other (consSome key value rest) = find? other rest := by
  cases value with
  | none => rfl
  | some value =>
    simp only [consSome, find?]
    cases position : compare other key with
    | lt =>
      exact (find?_eq_none_of_below fun entry member =>
        Std.TransCmp.lt_trans position (below entry member)).symm
    | eq => exact absurd (Std.LawfulEqCmp.eq_of_compare position) different
    | gt => rfl

theorem find?_alterEntries_self (key : κ) (change : Option ν → Option ν) {entries : List (κ × ν)}
    (ascending : Ascending entries) :
    find? key (alterEntries key change entries) = change (find? key entries) := by
  induction entries with
  | nil => exact find?_consSome_self _ fun _ member => by simp at member
  | cons head rest ih =>
    obtain ⟨below, sorted⟩ := List.pairwise_cons.mp ascending
    cases position : compare key head.1 with
    | lt =>
      simp only [alterEntries, find?, position]
      refine find?_consSome_self _ fun entry member => ?_
      rcases List.mem_cons.mp member with rfl | member
      · exact position
      · exact Std.TransCmp.lt_trans position (below entry member)
    | eq =>
      have equal := Std.LawfulEqCmp.eq_of_compare position
      simp only [alterEntries, find?, position]
      exact find?_consSome_self _ fun entry member => equal ▸ below entry member
    | gt => simp only [alterEntries, find?, position]; exact ih sorted

theorem find?_alterEntries_of_ne {key other : κ} (different : other ≠ key)
    (change : Option ν → Option ν) {entries : List (κ × ν)} (ascending : Ascending entries) :
    find? other (alterEntries key change entries) = find? other entries := by
  induction entries with
  | nil => exact find?_consSome_of_ne different _ fun _ member => by simp at member
  | cons head rest ih =>
    obtain ⟨below, sorted⟩ := List.pairwise_cons.mp ascending
    cases position : compare key head.1 with
    | lt =>
      simp only [alterEntries, position]
      refine find?_consSome_of_ne different _ fun entry member => ?_
      rcases List.mem_cons.mp member with rfl | member
      · exact position
      · exact Std.TransCmp.lt_trans position (below entry member)
    | eq =>
      have equal := Std.LawfulEqCmp.eq_of_compare position
      simp only [alterEntries, position]
      rw [find?_consSome_of_ne different _ fun entry member => equal ▸ below entry member]
      simp only [find?]
      cases place : compare other head.1 with
      | lt =>
        exact find?_eq_none_of_below fun entry member =>
          Std.TransCmp.lt_trans place (below entry member)
      | eq => exact absurd ((Std.LawfulEqCmp.eq_of_compare place).trans equal.symm) different
      | gt => rfl
    | gt => simp only [alterEntries, find?, position, ih sorted]

theorem find?_eq_some_iff {key : κ} {value : ν} {entries : List (κ × ν)}
    (ascending : Ascending entries) : find? key entries = some value ↔ (key, value) ∈ entries := by
  induction entries with
  | nil => simp [find?]
  | cons head rest ih =>
    obtain ⟨below, sorted⟩ := List.pairwise_cons.mp ascending
    simp only [find?]
    cases position : compare key head.1 with
    | lt =>
      -- The key would have to be below itself.
      have absent : (key, value) ∉ head :: rest := by
        intro member
        rcases List.mem_cons.mp member with same | member
        · simp [← same, Std.ReflCmp.compare_self] at position
        · have order := Std.TransCmp.lt_trans position (below _ member)
          simp [Std.ReflCmp.compare_self] at order
      simp [absent]
    | eq =>
      have equal := Std.LawfulEqCmp.eq_of_compare position
      constructor
      · intro found
        exact List.mem_cons.mpr (.inl (Prod.ext equal (Option.some.inj found).symm))
      · intro member
        rcases List.mem_cons.mp member with same | member
        · rw [← same]
        · have order := below _ member
          simp [← equal, Std.ReflCmp.compare_self] at order
    | gt =>
      have other : (key, value) ≠ head := by
        rintro rfl
        simp [Std.ReflCmp.compare_self] at position
      simp [ih sorted, other]

end Lawful

/-! ### Maps -/

def empty : OrderedMap κ ν := ⟨[], List.Pairwise.nil⟩

instance : EmptyCollection (OrderedMap κ ν) := ⟨empty⟩
instance : Inhabited (OrderedMap κ ν) := ⟨empty⟩

def isEmpty (map : OrderedMap κ ν) : Bool := map.entries.isEmpty
def size (map : OrderedMap κ ν) : Nat := map.entries.length
def keys (map : OrderedMap κ ν) : List κ := map.entries.map (·.1)
def get? (map : OrderedMap κ ν) (key : κ) : Option ν := find? key map.entries

@[simp] theorem get?_empty (key : κ) : (empty : OrderedMap κ ν).get? key = none := rfl

variable [Std.TransOrd κ] [Std.LawfulEqOrd κ]

/-- Replace what the map holds at a key by what `change` makes of it. -/
def alter (map : OrderedMap κ ν) (key : κ) (change : Option ν → Option ν) : OrderedMap κ ν :=
  ⟨alterEntries key change map.entries, ascending_alterEntries key change map.ascending⟩

def insert (map : OrderedMap κ ν) (key : κ) (value : ν) : OrderedMap κ ν :=
  map.alter key fun _ => some value

/-- The map of a list of entries, where a later entry replaces an earlier one of the same key. -/
def ofList (entries : List (κ × ν)) : OrderedMap κ ν :=
  entries.foldl (fun map entry => map.insert entry.1 entry.2) empty

@[simp] theorem get?_alter_self (map : OrderedMap κ ν) (key : κ) (change : Option ν → Option ν) :
    (map.alter key change).get? key = change (map.get? key) :=
  find?_alterEntries_self key change map.ascending

theorem get?_alter_of_ne (map : OrderedMap κ ν) {key other : κ} (different : other ≠ key)
    (change : Option ν → Option ν) : (map.alter key change).get? other = map.get? other :=
  find?_alterEntries_of_ne different change map.ascending

theorem get?_insert_self (map : OrderedMap κ ν) (key : κ) (value : ν) :
    (map.insert key value).get? key = some value := get?_alter_self map key _

theorem get?_insert_of_ne (map : OrderedMap κ ν) {key other : κ} (different : other ≠ key)
    (value : ν) : (map.insert key value).get? other = map.get? other :=
  get?_alter_of_ne map different _

theorem get?_eq_some_iff (map : OrderedMap κ ν) (key : κ) (value : ν) :
    map.get? key = some value ↔ (key, value) ∈ map.entries := find?_eq_some_iff map.ascending

/-- Maps that answer every lookup alike are equal. -/
theorem ext_get? {left right : OrderedMap κ ν} (same : ∀ key, left.get? key = right.get? key) :
    left = right := by
  -- Ascending lists with the same members are equal.
  have entries (l r : List (κ × ν)) (sortedL : Ascending l) (sortedR : Ascending r)
      (alike : ∀ entry, entry ∈ l ↔ entry ∈ r) : l = r := by
    induction l generalizing r with
    | nil =>
      cases r with
      | nil => rfl
      | cons head rest => simpa using (alike head).mpr List.mem_cons_self
    | cons first rest ih =>
      obtain ⟨belowL, sortedRest⟩ := List.pairwise_cons.mp sortedL
      cases r with
      | nil => simpa using (alike first).mp List.mem_cons_self
      | cons head tail =>
        obtain ⟨belowR, sortedTail⟩ := List.pairwise_cons.mp sortedR
        -- Neither first entry stands behind the other.
        have heads : first = head := by
          rcases List.mem_cons.mp ((alike first).mp List.mem_cons_self) with equal | inTail
          · exact equal
          · rcases List.mem_cons.mp ((alike head).mpr List.mem_cons_self) with equal | inRest
            · exact equal.symm
            · have order := Std.TransCmp.lt_trans (belowL head inRest) (belowR first inTail)
              simp [Std.ReflCmp.compare_self] at order
        subst heads
        congr 1
        -- No first entry occurs again, so the rests have the same members too.
        refine ih tail sortedRest sortedTail fun entry => ?_
        constructor
        · intro member
          rcases List.mem_cons.mp ((alike entry).mp (List.mem_cons_of_mem _ member)) with equal | inTail
          · have order := belowL entry member
            simp [equal, Std.ReflCmp.compare_self] at order
          · exact inTail
        · intro member
          rcases List.mem_cons.mp ((alike entry).mpr (List.mem_cons_of_mem _ member)) with equal | inRest
          · have order := belowR entry member
            simp [equal, Std.ReflCmp.compare_self] at order
          · exact inRest
  refine ext_entries (entries _ _ left.ascending right.ascending fun entry => ?_)
  rw [← get?_eq_some_iff left entry.1 entry.2, ← get?_eq_some_iff right entry.1 entry.2, same]

/-! ### Counting -/

/-- One more of what has been counted so far, where nothing counted is no entry. -/
def oneMore (count : Option Nat) : Option Nat := some (count.getD 0 + 1)

/-- How often each item occurs in a list; items that do not occur have no entry. -/
def tally (items : List κ) : OrderedMap κ Nat :=
  items.foldl (fun counts item => counts.alter item oneMore) empty

/-- A count as an entry: zero is no entry. -/
def positive? (count : Nat) : Option Nat := if count = 0 then none else some count

theorem oneMore_positive? (count : Nat) : oneMore (positive? count) = positive? (count + 1) := by
  cases count <;> rfl

theorem get?_tally [DecidableEq κ] (items : List κ) (key : κ) :
    (tally items).get? key = positive? (items.count key) := by
  have generalised (counts : OrderedMap κ Nat) (before : Nat) (held : counts.get? key = positive? before) :
      (items.foldl (fun counts item => counts.alter item oneMore) counts).get? key =
        positive? (before + items.count key) := by
    induction items generalizing counts before with
    | nil => exact held
    | cons item rest ih =>
      rw [List.foldl_cons]
      by_cases same : item = key
      · subst same
        rw [ih _ (before + 1) (by rw [get?_alter_self, held, oneMore_positive?]), List.count_cons_self]
        congr 1
        omega
      · rw [ih _ before (by rw [get?_alter_of_ne _ (fun equal => same equal.symm), held]),
          List.count_cons_of_ne same]
  have counted := generalised empty 0 rfl
  rwa [Nat.zero_add] at counted

end OrderedMap
end PacketReplay
