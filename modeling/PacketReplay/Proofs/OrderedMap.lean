import Mathlib.Algebra.BigOperators.Ring.Finset
import PacketReplay.OrderedMap

/-!
# Keys and sums of ordered maps

A map can be given by its keys and the value of each. Two maps with the same keys have the same size. A sum
over the entries of a map is a sum over its keys, none of which occurs twice; so the counts of a tally sum up
to the number of all items.
-/
namespace PacketReplay

/-- Counting the items of a list key by key counts each of them once. -/
theorem sum_count_of_nodup {κ : Type} [DecidableEq κ] {keys items : List κ} (distinct : keys.Nodup)
    (covered : ∀ item ∈ items, item ∈ keys) : (keys.map fun key => items.count key).sum = items.length := by
  have members : ∀ item ∈ (items : Multiset κ), item ∈ keys.toFinset := by
    intro item member
    exact List.mem_toFinset.mpr (covered item member)
  have counted := Multiset.sum_count_eq_card members
  simp only [Multiset.coe_count, Multiset.coe_card] at counted
  rwa [List.sum_toFinset _ distinct] at counted

namespace OrderedMap

variable {κ ν : Type} [Ord κ] [Std.TransOrd κ] [Std.LawfulEqOrd κ]

/-! ### Tables -/

/-- The map with an entry for each of the keys. -/
def tabulate (keys : List κ) (value : κ → ν) : OrderedMap κ ν :=
  keys.foldl (fun map key => map.insert key (value key)) empty

theorem get?_tabulate [DecidableEq κ] (keys : List κ) (value : κ → ν) (key : κ) :
    (tabulate keys value).get? key = if key ∈ keys then some (value key) else none := by
  have generalised (map : OrderedMap κ ν) :
      (keys.foldl (fun map key => map.insert key (value key)) map).get? key =
        if key ∈ keys then some (value key) else map.get? key := by
    induction keys generalizing map with
    | nil => rfl
    | cons head rest ih =>
      rw [List.foldl_cons, ih]
      by_cases later : key ∈ rest
      · simp [later]
      · by_cases same : key = head
        · subst same
          simp [get?_insert_self]
        · simp [later, same, get?_insert_of_ne _ same]
  exact generalised empty

/-! ### Lists of entries -/

/-- Entries in ascending order are all kept, and what was there before shows where they have no value. -/
theorem get?_foldl_insert {entries : List (κ × ν)} (ascending : Ascending entries) (map : OrderedMap κ ν)
    (key : κ) :
    (entries.foldl (fun map entry => map.insert entry.1 entry.2) map).get? key =
      (find? key entries).or (map.get? key) := by
  induction entries generalizing map with
  | nil => rfl
  | cons head rest ih =>
    obtain ⟨below, sorted⟩ := List.pairwise_cons.mp ascending
    rw [List.foldl_cons, ih sorted]
    cases position : compare key head.1 with
    | lt =>
      have absent : find? key rest = none :=
        find?_eq_none_of_below fun entry member => Std.TransCmp.lt_trans position (below entry member)
      have different : key ≠ head.1 := by
        rintro rfl
        simp [Std.ReflCmp.compare_self] at position
      simp [find?, position, absent, get?_insert_of_ne _ different]
    | eq =>
      obtain rfl : key = head.1 := Std.LawfulEqCmp.eq_of_compare position
      have absent : find? head.1 rest = none := find?_eq_none_of_below below
      simp [find?, absent, get?_insert_self]
    | gt =>
      have different : key ≠ head.1 := by
        rintro rfl
        simp [Std.ReflCmp.compare_self] at position
      simp [find?, position, get?_insert_of_ne _ different]

/-- A map is the map of its entries. -/
theorem ofList_entries (map : OrderedMap κ ν) : ofList map.entries = map := by
  apply ext_get?
  intro key
  rw [ofList, get?_foldl_insert map.ascending, get?_empty, Option.or_none]
  rfl

/-! ### Keys -/

omit [Std.TransOrd κ] in
theorem nodup_keys (map : OrderedMap κ ν) : map.keys.Nodup := by
  rw [keys, List.nodup_iff_pairwise_ne, List.pairwise_map]
  refine map.ascending.imp ?_
  -- A key that occurs twice would be below itself.
  intro earlier later order same
  have equal : compare earlier.1 later.1 = .eq := same ▸ Std.ReflCmp.compare_self
  rw [equal] at order
  cases order

theorem mem_keys_iff (map : OrderedMap κ ν) (key : κ) : key ∈ map.keys ↔ (map.get? key).isSome := by
  rw [Option.isSome_iff_exists, keys, List.mem_map]
  constructor
  · rintro ⟨⟨_, value⟩, member, rfl⟩
    exact ⟨value, (map.get?_eq_some_iff _ value).mpr member⟩
  · rintro ⟨value, found⟩
    exact ⟨(key, value), (map.get?_eq_some_iff key value).mp found, rfl⟩

theorem size_eq_of_keys {μ : Type} {left : OrderedMap κ ν} {right : OrderedMap κ μ}
    (same : ∀ key, (left.get? key).isSome = (right.get? key).isSome) : left.size = right.size := by
  have perm : left.keys.Perm right.keys := by
    refine (List.perm_ext_iff_of_nodup left.nodup_keys right.nodup_keys).mpr ?_
    intro key
    rw [mem_keys_iff, mem_keys_iff, same]
  have lengths := perm.length_eq
  rw [keys, keys, List.length_map, List.length_map] at lengths
  exact lengths

/-! ### Sums -/

/-- A sum over the entries of a map is a sum over its keys. -/
theorem sum_entries_eq {map : OrderedMap κ ν} (amount : ν → Nat) {share : κ → Nat}
    (shares : ∀ key value, map.get? key = some value → amount value = share key) :
    (map.entries.map fun entry => amount entry.2).sum = (map.keys.map share).sum := by
  rw [keys, List.map_map]
  congr 1
  apply List.map_congr_left
  intro entry member
  exact shares entry.1 entry.2 ((map.get?_eq_some_iff _ _).mpr member)

/-- If the entries hold how often their keys occur among items, and each item is a key, all of them together
are the number of items. -/
theorem sum_entries_eq_length [DecidableEq κ] {map : OrderedMap κ ν} (amount : ν → Nat) {items : List κ}
    (counts : ∀ key value, map.get? key = some value → amount value = items.count key)
    (covered : ∀ item ∈ items, (map.get? item).isSome) :
    (map.entries.map fun entry => amount entry.2).sum = items.length := by
  rw [sum_entries_eq amount counts, sum_count_of_nodup map.nodup_keys]
  intro item member
  exact (map.mem_keys_iff item).mpr (covered item member)

theorem positive?_eq_some_iff (count held : Nat) : positive? count = some held ↔ 0 < held ∧ held = count := by
  unfold positive?
  split <;> simp <;> omega

theorem getD_positive? (count : Nat) : (positive? count).getD 0 = count := by
  unfold positive?
  split <;> simp_all

theorem isSome_get?_tally [DecidableEq κ] (items : List κ) (key : κ) :
    ((tally items).get? key).isSome ↔ key ∈ items := by
  rw [get?_tally, positive?, ← List.count_pos_iff]
  split
  next none => simp [none]
  next some => simpa using Nat.pos_of_ne_zero some

theorem sum_tally [DecidableEq κ] (items : List κ) :
    ((tally items).entries.map fun entry => entry.2).sum = items.length := by
  refine sum_entries_eq_length id ?_ ?_
  · intro key value found
    rw [get?_tally, positive?_eq_some_iff] at found
    exact found.2
  · intro item member
    exact (isSome_get?_tally items item).mpr member

end OrderedMap
end PacketReplay
