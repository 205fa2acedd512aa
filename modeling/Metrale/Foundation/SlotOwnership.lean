import Mathlib.Data.List.Nodup
import Mathlib.Data.List.Range

/-! # Ownership of numbered resources

A table hands out the numbers below `bound`.  A number is on the free list, in transit inside an
operation, or owned by one key; `Owned` says that each is in exactly one of these places.  The moves
between the places are `take` and `put` (free list to transit and back), `give` and `seize` (transit
to owner and back), and `grow`, which adds a number in transit.  `count` adds the places up. -/

namespace Metrale.Foundation

variable {Key : Type*}

structure Owned (bound : Nat) (free : List Nat) (transit : Option Nat) (owner : Key → Option Nat) :
    Prop where
  freeNodup : free.Nodup
  accounted : ∀ number, number < bound ↔
    number ∈ free ∨ transit = some number ∨ ∃ key, owner key = some number
  freeUnowned : ∀ number ∈ free, transit ≠ some number ∧ ∀ key, owner key ≠ some number
  transitUnowned : ∀ number, transit = some number → ∀ key, owner key ≠ some number
  ownedOnce : ∀ key other number, owner key = some number → owner other = some number → key = other

namespace Owned

variable {bound number : Nat} {free : List Nat} {owner : Key → Option Nat}

/-- All numbers free, none owned. -/
theorem start (all : ∀ number, number < bound ↔ number ∈ free) (freeNodup : free.Nodup) :
    Owned bound free none fun _ : Key => none where
  freeNodup := freeNodup
  accounted := by simpa using all
  freeUnowned := by simp
  transitUnowned := by simp
  ownedOnce := by simp

theorem take (owned : Owned bound (number :: free) none owner) :
    Owned bound free (some number) owner where
  freeNodup := owned.freeNodup.of_cons
  accounted := by
    intro other
    rw [owned.accounted, List.mem_cons]
    constructor
    · rintro ((rfl | member) | impossible | kept)
      · exact .inr (.inl rfl)
      · exact .inl member
      · cases impossible
      · exact .inr (.inr kept)
    · rintro (member | ⟨⟨⟩⟩ | kept)
      · exact .inl (.inr member)
      · exact .inl (.inl rfl)
      · exact .inr (.inr kept)
  freeUnowned := by
    intro other member
    refine ⟨?_, (owned.freeUnowned other (List.mem_cons_of_mem _ member)).2⟩
    rintro ⟨⟩
    exact (List.nodup_cons.mp owned.freeNodup).1 member
  transitUnowned := by
    rintro _ ⟨⟩
    exact (owned.freeUnowned number List.mem_cons_self).2
  ownedOnce := owned.ownedOnce

theorem put (owned : Owned bound free (some number) owner) :
    Owned bound (number :: free) none owner where
  freeNodup := List.nodup_cons.mpr ⟨fun member => (owned.freeUnowned number member).1 rfl, owned.freeNodup⟩
  accounted := by
    intro other
    rw [owned.accounted, List.mem_cons]
    constructor
    · rintro (member | ⟨⟨⟩⟩ | kept)
      · exact .inl (.inr member)
      · exact .inl (.inl rfl)
      · exact .inr (.inr kept)
    · rintro ((rfl | member) | impossible | kept)
      · exact .inr (.inl rfl)
      · exact .inl member
      · cases impossible
      · exact .inr (.inr kept)
  freeUnowned := by
    intro other member
    refine ⟨nofun, ?_⟩
    cases List.mem_cons.mp member with
    | inl same => exact same ▸ owned.transitUnowned number rfl
    | inr member => exact (owned.freeUnowned other member).2
  transitUnowned := nofun
  ownedOnce := owned.ownedOnce

theorem grow (owned : Owned bound free none owner) : Owned (bound + 1) free (some bound) owner where
  freeNodup := owned.freeNodup
  accounted := by
    intro other
    rw [Nat.lt_succ_iff_lt_or_eq, owned.accounted]
    constructor
    · rintro ((member | impossible | kept) | rfl)
      · exact .inl member
      · cases impossible
      · exact .inr (.inr kept)
      · exact .inr (.inl rfl)
    · rintro (member | ⟨⟨⟩⟩ | kept)
      · exact .inl (.inl member)
      · exact .inr rfl
      · exact .inl (.inr (.inr kept))
  freeUnowned := by
    intro other member
    refine ⟨?_, (owned.freeUnowned other member).2⟩
    rintro ⟨⟩
    exact absurd ((owned.accounted bound).mpr (.inl member)) (Nat.lt_irrefl bound)
  transitUnowned := by
    rintro _ ⟨⟩ key held
    exact absurd ((owned.accounted bound).mpr (.inr (.inr ⟨key, held⟩))) (Nat.lt_irrefl bound)
  ownedOnce := owned.ownedOnce

/-- The order of the free list does not matter. -/
theorem reorder {free' : List Nat} {transit : Option Nat} (owned : Owned bound free transit owner)
    (same : List.Perm free free') : Owned bound free' transit owner where
  freeNodup := same.nodup_iff.mp owned.freeNodup
  accounted := by
    intro other
    rw [owned.accounted, same.mem_iff]
  freeUnowned := fun other member => owned.freeUnowned other (same.mem_iff.mpr member)
  transitUnowned := owned.transitUnowned
  ownedOnce := owned.ownedOnce

section Updates

variable [DecidableEq Key] {key : Key}

theorem give (owned : Owned bound free (some number) owner) (unset : owner key = none) :
    Owned bound free none (Function.update owner key (some number)) := by
  -- Only the key that is given the number has more than before.
  have others : ∀ other number', Function.update owner key (some number) other = some number' ↔
      (other = key ∧ number = number') ∨ owner other = some number' := by
    intro other number'
    by_cases same : other = key
    · subst same
      simp [unset]
    · simp [same]
  constructor
  case freeNodup => exact owned.freeNodup
  case accounted =>
    intro number'
    rw [owned.accounted]
    simp only [others]
    constructor
    · rintro (member | ⟨⟨⟩⟩ | ⟨other, kept⟩)
      · exact .inl member
      · exact .inr (.inr ⟨key, .inl ⟨rfl, rfl⟩⟩)
      · exact .inr (.inr ⟨other, .inr kept⟩)
    · rintro (member | impossible | ⟨other, ⟨rfl, rfl⟩ | kept⟩)
      · exact .inl member
      · cases impossible
      · exact .inr (.inl rfl)
      · exact .inr (.inr ⟨other, kept⟩)
  case freeUnowned =>
    intro number' member
    refine ⟨nofun, fun other held => ?_⟩
    obtain ⟨rfl, rfl⟩ | kept := (others other number').mp held
    · exact (owned.freeUnowned number member).1 rfl
    · exact (owned.freeUnowned number' member).2 other kept
  case transitUnowned => exact nofun
  case ownedOnce =>
    intro first second number' held held'
    obtain ⟨rfl, rfl⟩ | kept := (others first number').mp held
    · obtain ⟨rfl, -⟩ | kept' := (others second number).mp held'
      · rfl
      · exact absurd kept' (owned.transitUnowned number rfl second)
    · obtain ⟨rfl, rfl⟩ | kept' := (others second number').mp held'
      · exact absurd kept (owned.transitUnowned number rfl first)
      · exact owned.ownedOnce first second number' kept kept'

theorem seize (owned : Owned bound free none owner) (held : owner key = some number) :
    Owned bound free (some number) (Function.update owner key none) := by
  -- Only the key that the number is taken from has less.
  have others : ∀ other number', Function.update owner key none other = some number' ↔
      other ≠ key ∧ owner other = some number' := by
    intro other number'
    by_cases same : other = key
    · subst same
      simp
    · simp [same]
  constructor
  case freeNodup => exact owned.freeNodup
  case accounted =>
    intro number'
    rw [owned.accounted]
    simp only [others]
    constructor
    · rintro (member | impossible | ⟨other, kept⟩)
      · exact .inl member
      · cases impossible
      · by_cases same : other = key
        · subst same
          exact .inr (.inl (held.symm.trans kept))
        · exact .inr (.inr ⟨other, same, kept⟩)
    · rintro (member | ⟨⟨⟩⟩ | ⟨other, -, kept⟩)
      · exact .inl member
      · exact .inr (.inr ⟨key, held⟩)
      · exact .inr (.inr ⟨other, kept⟩)
  case freeUnowned =>
    intro number' member
    constructor
    · rintro ⟨⟩
      exact (owned.freeUnowned number member).2 key held
    · intro other kept
      exact (owned.freeUnowned number' member).2 other ((others other number').mp kept).2
  case transitUnowned =>
    rintro _ ⟨⟩ other kept
    obtain ⟨differs, kept⟩ := (others other number).mp kept
    exact differs (owned.ownedOnce other key number kept held)
  case ownedOnce =>
    intro first second number' kept kept'
    exact owned.ownedOnce first second number' ((others first number').mp kept).2
      ((others second number').mp kept').2

/-- An owner's number goes back to the free list. -/
theorem release (owned : Owned bound free none owner) (held : owner key = some number) :
    Owned bound (number :: free) none (Function.update owner key none) :=
  (owned.seize held).put

theorem keep {transit value : Option Nat} (owned : Owned bound free transit owner) (same : owner key = value) :
    Owned bound free transit (Function.update owner key value) := by
  rwa [← same, Function.update_eq_self]

end Updates

/-- The numbers add up: free ones, the one in transit, and one for each key that owns one. -/
theorem count {transit : Option Nat} {keys : List Key} (owned : Owned bound free transit owner)
    (nodup : keys.Nodup) (owning : ∀ key, key ∈ keys ↔ ∃ number, owner key = some number) :
    free.length + transit.toList.length + keys.length = bound := by
  have held : (keys.filterMap owner).length = keys.length := by
    rw [List.length_filterMap_eq_countP, List.countP_eq_length]
    intro key member
    exact Option.isSome_iff_exists.mpr ((owning key).mp member)
  have heldOnce : (keys.filterMap owner).Nodup :=
    nodup.filterMap fun key other number => owned.ownedOnce key other number
  have mem_held : ∀ number, number ∈ keys.filterMap owner ↔ ∃ key, owner key = some number := by
    intro number
    rw [List.mem_filterMap]
    constructor
    · rintro ⟨key, -, held⟩
      exact ⟨key, held⟩
    · rintro ⟨key, held⟩
      exact ⟨key, (owning key).mpr ⟨number, held⟩, held⟩
  have distinct : (free ++ (transit.toList ++ keys.filterMap owner)).Nodup := by
    refine owned.freeNodup.append (List.Nodup.append ?_ heldOnce ?_) ?_
    · cases transit <;> simp
    · intro number moving kept
      obtain ⟨key, kept⟩ := (mem_held number).mp kept
      exact owned.transitUnowned number (Option.mem_toList.mp moving) key kept
    · intro number member elsewhere
      obtain ⟨unmoved, unowned⟩ := owned.freeUnowned number member
      obtain moving | kept := List.mem_append.mp elsewhere
      · exact unmoved (Option.mem_toList.mp moving)
      · obtain ⟨key, kept⟩ := (mem_held number).mp kept
        exact unowned key kept
  -- Free, moving and owned numbers are all there are, and each is one of these once.
  have everything : (free ++ (transit.toList ++ keys.filterMap owner)).Perm (List.range bound) := by
    refine (List.perm_ext_iff_of_nodup distinct List.nodup_range).mpr fun number => ?_
    rw [List.mem_range, owned.accounted, List.mem_append, List.mem_append, Option.mem_toList, mem_held]
  have total := everything.length_eq
  rw [List.length_append, List.length_append, List.length_range, held] at total
  omega

/-- With nothing in transit, a number is free or owned by exactly one key, and not both. -/
theorem partition (owned : Owned bound free none owner) (below : number < bound) :
    Xor (number ∈ free) (∃! key, owner key = some number) := by
  obtain member | impossible | ⟨key, held⟩ := (owned.accounted number).mp below
  · refine .inl ⟨member, ?_⟩
    rintro ⟨key, held, -⟩
    exact (owned.freeUnowned number member).2 key held
  · cases impossible
  · refine .inr ⟨⟨key, held, fun other kept => owned.ownedOnce other key number kept held⟩, ?_⟩
    intro member
    exact (owned.freeUnowned number member).2 key held

end Owned

end Metrale.Foundation
