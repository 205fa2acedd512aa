import Mathlib.Data.List.AList

/-! # Hash maps

A hash map is an association list with distinct keys (`AList` at a constant value type), which is
what its operations let a caller observe.  The order of `entries` stands for the iteration order,
about which a hash map promises nothing. -/

namespace Metrale.Foundation

abbrev HashMap (Key Value : Type*) := AList (fun _ : Key => Value)

namespace HashMap

variable {Key Value : Type*} [DecidableEq Key]

theorem lookup_insert_if (table : HashMap Key Value) (key other : Key) (value : Value) :
    (table.insert key value).lookup other = if other = key then some value else table.lookup other := by
  split
  · next same => subst same; exact AList.lookup_insert table
  · next different => exact AList.lookup_insert_ne different

theorem lookup_erase_if (table : HashMap Key Value) (key other : Key) :
    (table.erase key).lookup other = if other = key then none else table.lookup other := by
  split
  · next same => subst same; exact AList.lookup_erase _ table
  · next different => exact AList.lookup_erase_ne different

theorem lookup_insert_update (table : HashMap Key Value) (key : Key) (value : Value) :
    (fun other => (table.insert key value).lookup other) =
      Function.update (fun other => table.lookup other) key (some value) := by
  funext other
  rw [lookup_insert_if, Function.update_apply]

theorem lookup_erase_update (table : HashMap Key Value) (key : Key) :
    (fun other => (table.erase key).lookup other) =
      Function.update (fun other => table.lookup other) key none := by
  funext other
  rw [lookup_erase_if, Function.update_apply]

/-- The entries whose value is kept. -/
def retain (keep : Value → Bool) (table : HashMap Key Value) : HashMap Key Value :=
  ⟨table.entries.filter fun entry => keep entry.2, table.nodupKeys.sublist List.filter_sublist⟩

theorem lookup_retain (keep : Value → Bool) (table : HashMap Key Value) (key : Key) :
    (table.retain keep).lookup key = (table.lookup key).filter keep := by
  ext value
  rw [Option.filter_eq_some_iff, ← Option.mem_def, ← Option.mem_def, AList.mem_lookup_iff, AList.mem_lookup_iff]
  exact List.mem_filter

/-- The entries that are kept. -/
def filter (keep : Key → Value → Bool) (table : HashMap Key Value) : HashMap Key Value :=
  ⟨table.entries.filter fun entry => keep entry.1 entry.2, table.nodupKeys.sublist List.filter_sublist⟩

theorem lookup_filter (keep : Key → Value → Bool) (table : HashMap Key Value) (key : Key) :
    (table.filter keep).lookup key = (table.lookup key).filter (keep key) := by
  ext value
  rw [Option.filter_eq_some_iff, ← Option.mem_def, ← Option.mem_def, AList.mem_lookup_iff, AList.mem_lookup_iff]
  exact List.mem_filter

/-- Every value is changed in its place. -/
def mapValues (change : Value → Value) (table : HashMap Key Value) : HashMap Key Value where
  entries := table.entries.map fun entry => ⟨entry.1, change entry.2⟩
  nodupKeys := by
    have keys : (table.entries.map fun entry => (⟨entry.1, change entry.2⟩ : Σ _ : Key, Value)).keys = table.entries.keys := by
      simp [List.keys, Function.comp_def]
    rw [List.NodupKeys, keys]
    exact table.nodupKeys

theorem lookup_mapValues (change : Value → Value) (table : HashMap Key Value) (key : Key) :
    (table.mapValues change).lookup key = (table.lookup key).map change := by
  ext value
  rw [Option.map_eq_some_iff, ← Option.mem_def, AList.mem_lookup_iff]
  constructor
  · intro found
    obtain ⟨⟨other, old⟩, listed, same⟩ := List.mem_map.mp found
    cases same
    exact ⟨old, AList.mem_lookup_iff.mpr listed, rfl⟩
  · rintro ⟨old, found, rfl⟩
    exact List.mem_map.mpr ⟨⟨key, old⟩, AList.mem_lookup_iff.mp found, rfl⟩

/-! ## Sums over the entries -/

variable {measure : Value → Nat} {table : HashMap Key Value} {key : Key} {value : Value}

def total (measure : Value → Nat) (table : HashMap Key Value) : Nat :=
  table.entries.foldr (fun entry rest => measure entry.2 + rest) 0

theorem foldr_without (front back : List (Σ _ : Key, Value)) (entry : Σ _ : Key, Value) :
    (front ++ entry :: back).foldr (fun entry rest => measure entry.2 + rest) 0 =
      measure entry.2 + (front ++ back).foldr (fun entry rest => measure entry.2 + rest) 0 := by
  induction front with
  | nil => rfl
  | cons first front ih =>
    rw [List.cons_append, List.foldr_cons, ih]
    exact Nat.add_left_comm _ _ _

theorem total_erase_of_some (stored : table.lookup key = some value) :
    table.total measure = measure value + total measure (table.erase key) := by
  have member : key ∈ table.entries.keys := by
    have present : key ∈ table := AList.lookup_isSome.mp (Option.isSome_iff_exists.mpr ⟨value, stored⟩)
    exact present
  obtain ⟨found, front, back, absent, entries, erased⟩ := List.exists_of_kerase member
  have same : found = value := by
    have present : ⟨key, found⟩ ∈ table.entries := by simp [entries]
    have looked : table.lookup key = some found := AList.mem_lookup_iff.mpr present
    exact Option.some.inj (looked.symm.trans stored)
  subst same
  have kept : (table.erase key).entries = front ++ back := erased
  rw [total, total, kept, entries, foldr_without]

theorem erase_of_none (missing : table.lookup key = none) : table.erase key = table := by
  apply AList.ext
  exact List.kerase_of_notMem_keys (AList.lookup_eq_none.mp missing)

theorem total_erase_le : total measure (table.erase key) ≤ table.total measure := by
  cases stored : table.lookup key with
  | none => rw [erase_of_none stored]
  | some value =>
    rw [total_erase_of_some stored]
    exact Nat.le_add_left _ _

theorem total_of_none (empty : ∀ key, table.lookup key = none) : table.total measure = 0 := by
  have none : table.entries = [] := by
    apply List.eq_nil_iff_forall_not_mem.mpr
    intro entry member
    have looked : table.lookup entry.1 = some entry.2 := AList.mem_lookup_iff.mpr member
    simp [empty] at looked
  simp [total, none]

theorem total_insert : total measure (table.insert key value) = measure value + total measure (table.erase key) :=
  rfl

end HashMap

end Metrale.Foundation
