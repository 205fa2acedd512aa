import Mathlib.Data.List.GetD
import Metrale.Foundation.HashMap
import Metrale.Foundation.SlotOwnership
import Metrale.Foundation.VecOps

/-! # A map from keys to slots, and back

A table with a slot for each of its keys: the map, the key of each slot, and the free slots.  A slot leaves
the free list (`take`) or its key (`evict`), and is then in transit until a key gets it (`fill`) or it is
free again (`put`). -/

namespace Metrale.Foundation

structure SlotTable (Key : Type*) where
  bound : Nat
  lookup : HashMap Key Nat
  keys : List (Option Key)
  free : List Nat

namespace SlotTable

variable {Key : Type*} [DecidableEq Key]

structure Consistent (table : SlotTable Key) (transit : Option Nat) : Prop where
  sized : table.keys.length = table.bound
  slots : Owned table.bound table.free transit fun key => table.lookup.lookup key
  keys : ∀ key slot, table.lookup.lookup key = some slot ↔ table.keys.getD slot none = some key

variable {table : SlotTable Key} {key other : Key} {slot slot' : Nat} {free : List Nat} {transit : Option Nat}

def start (bound : Nat) : SlotTable Key :=
  { bound, lookup := ∅, keys := .replicate bound none, free := List.range bound }

theorem start_consistent (bound : Nat) : (start bound : SlotTable Key).Consistent none where
  sized := List.length_replicate
  slots := .start (fun _ => List.mem_range.symm) List.nodup_range
  keys key slot := by
    dsimp only [start]
    rw [List.getD_eq_getElem?_getD, List.getElem?_replicate]
    refine iff_of_false nofun ?_
    split <;> nofun

namespace Consistent

theorem lt (consistent : table.Consistent transit) (held : table.lookup.lookup key = some slot) :
    slot < table.bound :=
  (consistent.slots.accounted slot).mpr (.inr (.inr ⟨key, held⟩))

theorem injective (consistent : table.Consistent transit) (held : table.lookup.lookup key = some slot)
    (held' : table.lookup.lookup other = some slot) : key = other :=
  consistent.slots.ownedOnce key other slot held held'

theorem reorder (consistent : table.Consistent transit) (same : table.free.Perm free) :
    Consistent { table with free } transit :=
  { consistent with slots := consistent.slots.reorder same }

theorem take (consistent : table.Consistent none) (head : table.free = slot :: free) :
    Consistent { table with free } (some slot) :=
  { consistent with slots := (head ▸ consistent.slots).take }

theorem put (consistent : table.Consistent (some slot)) : Consistent { table with free := slot :: table.free } none :=
  { consistent with slots := consistent.slots.put }

/-- The key loses its slot. -/
theorem evict (consistent : table.Consistent none) (held : table.lookup.lookup key = some slot) :
    Consistent { table with lookup := table.lookup.erase key, keys := table.keys.set slot none } (some slot) where
  sized := List.length_set.trans consistent.sized
  slots := by
    have seized := consistent.slots.seize held
    rwa [← HashMap.lookup_erase_update] at seized
  keys other slot' := by
    have inside : slot < table.keys.length := consistent.sized ▸ consistent.lt held
    dsimp only
    rw [HashMap.lookup_erase_if]
    -- The slot that is vacated names no key; every other one names the key it did.
    by_cases here : slot' = slot
    · subst here
      rw [getD_set_self inside]
      refine iff_of_false ?_ nofun
      split
      · nofun
      · next differs => exact fun held' => differs (consistent.injective held' held)
    · rw [getD_set_of_ne _ here, ← consistent.keys]
      split
      · next same =>
        subst same
        exact iff_of_false nofun fun held' => here (Option.some.inj (held'.symm.trans held))
      · rfl

theorem fill (consistent : table.Consistent (some slot)) (absent : table.lookup.lookup key = none) :
    Consistent
      { table with lookup := table.lookup.insert key slot, keys := table.keys.set slot (some key) } none where
  sized := List.length_set.trans consistent.sized
  slots := by
    have given := consistent.slots.give absent
    rwa [← HashMap.lookup_insert_update] at given
  keys other slot' := by
    have inside : slot < table.keys.length := by
      rw [consistent.sized]
      exact (consistent.slots.accounted slot).mpr (.inr (.inl rfl))
    dsimp only
    rw [HashMap.lookup_insert_if]
    -- The slot in transit was no key's, so no other key names it.
    by_cases here : slot' = slot
    · subst here
      rw [getD_set_self inside]
      split
      · next own => simp [own]
      · next differs =>
        refine iff_of_false (consistent.slots.transitUnowned slot' rfl other) ?_
        exact fun own => differs (Option.some.inj own).symm
    · rw [getD_set_of_ne _ here, ← consistent.keys]
      split
      · next same =>
        subst same
        rw [absent]
        exact iff_of_false (fun own => here (Option.some.inj own).symm) nofun
      · rfl

/-- A free slot is no key's. -/
theorem unowned (consistent : table.Consistent transit) (member : slot ∈ table.free) (key : Key) :
    table.lookup.lookup key ≠ some slot :=
  (consistent.slots.freeUnowned slot member).2 key

end Consistent

/-- Where the keys are once a key has got a slot: it there, the others where they were. -/
def Moved (before : HashMap Key Nat) (key : Key) (slot : Nat) (after : HashMap Key Nat) : Prop :=
  ∀ other slot', after.lookup other = some slot' ↔
    (other = key ∧ slot' = slot) ∨ (other ≠ key ∧ slot' ≠ slot ∧ before.lookup other = some slot')

theorem Moved.occupied {before after : HashMap Key Nat} (moved : Moved before key slot after)
    (absent : before.lookup key = none) :
    (∃ other, after.lookup other = some slot') ↔ slot' = slot ∨ ∃ other, before.lookup other = some slot' := by
  constructor
  · rintro ⟨other, held⟩
    obtain ⟨-, same⟩ | ⟨-, -, held⟩ := (moved other slot').mp held
    · exact .inl same
    · exact .inr ⟨other, held⟩
  · intro occupied
    by_cases same : slot' = slot
    · exact ⟨key, (moved key slot').mpr (.inl ⟨rfl, same⟩)⟩
    · obtain ⟨other, held⟩ := occupied.resolve_left same
      refine ⟨other, (moved other slot').mpr (.inr ⟨?_, same, held⟩)⟩
      rintro rfl
      cases absent.symm.trans held

/-- Filling a slot that no key has. -/
theorem moved_insert {before : HashMap Key Nat} (unowned : ∀ other, before.lookup other ≠ some slot) :
    Moved before key slot (before.insert key slot) := by
  intro other slot'
  rw [HashMap.lookup_insert_if]
  by_cases own : other = key
  · simp [own, eq_comm]
  · simp only [own, if_false, false_and, ne_eq, not_false_eq_true, true_and, false_or]
    refine ⟨fun held => ⟨?_, held⟩, And.right⟩
    rintro rfl
    exact unowned other held

/-- Filling a slot that its key has just lost. -/
theorem moved_evict (consistent : table.Consistent none) (held : table.lookup.lookup other = some slot) :
    Moved table.lookup key slot ((table.lookup.erase other).insert key slot) := by
  have vacated := (consistent.evict held).slots.transitUnowned slot rfl
  intro third slot'
  rw [moved_insert vacated third slot', HashMap.lookup_erase_if]
  split
  · next same =>
    subst same
    simp only [reduceCtorEq, and_false, or_false, held, Option.some.injEq]
    refine ⟨.inl, ?_⟩
    rintro (own | ⟨-, apart, same⟩)
    · exact own
    · exact absurd same.symm apart
  · rfl

end SlotTable

end Metrale.Foundation
