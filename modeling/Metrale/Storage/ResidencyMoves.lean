import Metrale.Storage.ResidencyInvariant

/-! # Where a call leaves the keys

A call moves its own key as it says it does.  Any other key stays where it was, or is spilled or
dropped to make room. -/

namespace Metrale.Storage

open Metrale.Foundation

namespace Residency

open PageTable (Consistent)

variable {Arena Store : Type*} {table after : Residency Arena Store} {numSlots slot : Nat} {key other : Key}

/-- The key is where it was, or was on disk and is dropped, or was resident and is spilled. -/
def DisplacedAt (before after : HashMap Key Loc) (key : Key) : Prop :=
  after.lookup key = before.lookup key ∨ (OnDisk before key ∧ after.lookup key = none) ∨
    (Resident before key ∧ OnDisk after key)

theorem DisplacedAt.pinned (displaced : DisplacedAt table.map after.map key)
    (consistent : Consistent numSlots {} after.pages) (pinned : key ∈ after.readPins)
    (held : slotOf table.map key = some slot) : slotOf after.map key = some slot := by
  obtain same | ⟨onDisk, -⟩ | ⟨-, onDisk⟩ := displaced
  · rw [slotOf, same]
    exact held
  · obtain ⟨diskSlot, stored⟩ := onDisk
    rw [slotOf_eq stored] at held
    cases held
  · exact absurd onDisk (consistent.pinned key pinned)

theorem DisplacedAt.insert {before after : HashMap Key Loc} {loc : Loc}
    (displaced : DisplacedAt before after other) (differs : other ≠ key) :
    DisplacedAt before (after.insert key loc) other := by
  simp only [DisplacedAt]
  rw [HashMap.lookup_insert_if, if_neg differs, onDisk_insert, if_neg differs]
  exact displaced

theorem commit_map {answer : Except Error Unit} (answered : table.commit key = (answer, after)) :
    (∀ other, other ≠ key → after.map.lookup other = table.map.lookup other) ∧
    slotOf after.map key = slotOf table.map key ∧
    (∀ error, answer = .error error → after.map = table.map) ∧
    (answer = .ok () → Resident after.map key) := by
  cases commit_cases answered with
  | pinned stored | listed stored =>
    refine ⟨fun other differs => AList.lookup_insert_ne differs, ?_, nofun, fun _ => ⟨_, AList.lookup_insert _⟩⟩
    rw [slotOf_insert, Function.update_self, slotOf_eq stored]
    rfl
  | already stored => exact ⟨fun _ _ => rfl, rfl, nofun, fun _ => ⟨_, stored⟩⟩
  | refused => exact ⟨fun _ _ => rfl, rfl, fun _ _ => rfl, nofun⟩

variable [SlotArena Arena] [SwapStore Store]

theorem alloc_others {answer : Except Error Nat} (consistent : Consistent numSlots {} table.pages)
    (answered : table.alloc key = (answer, after)) (differs : other ≠ key) :
    DisplacedAt table.map after.map other := by
  cases alloc_cases answered with
  | resident => exact DisplacedAt.insert (.inl rfl) differs
  | reserved => exact .inl rfl
  | notReclaimed stored acquired =>
    exact (acquireSlot_consistent (reserving_consistent consistent stored) acquired).2 other
  | reclaimed stored acquired =>
    have displaced := (acquireSlot_consistent (reserving_consistent consistent stored) acquired).2 other
    exact DisplacedAt.insert displaced differs
  | notAcquired _ acquired =>
    exact (acquireSlot_consistent (counted_consistent _ consistent) acquired).2 other
  | acquired _ acquired =>
    have displaced := (acquireSlot_consistent (counted_consistent _ consistent) acquired).2 other
    exact DisplacedAt.insert displaced differs

theorem alloc_keepsSlot {answer : Except Error Nat} (held : slotOf table.map key = some slot)
    (answered : table.alloc key = (answer, after)) :
    answer = .ok slot ∧ slotOf after.map key = some slot := by
  cases alloc_cases answered with
  | resident stored =>
    rw [slotOf_eq stored] at held
    cases held
    refine ⟨rfl, ?_⟩
    rw [slotOf_insert, Function.update_self]
    rfl
  | reserved stored =>
    rw [slotOf_eq stored] at held
    cases held
    exact ⟨rfl, slotOf_eq stored⟩
  | notReclaimed stored | reclaimed stored =>
    rw [slotOf_eq stored] at held
    cases held
  | notAcquired absent | acquired absent =>
    rw [slotOf, absent] at held
    cases held

theorem alloc_failed_map {error : Error} (consistent : Consistent numSlots {} table.pages)
    (answered : table.alloc key = (.error error, after)) :
    after.map.lookup key = table.map.lookup key := by
  cases alloc_cases answered with
  | notReclaimed stored acquired =>
    have hidden := reserving_consistent consistent stored
    exact (acquireSlot_hidden hidden stored acquired).trans stored.symm
  | @notAcquired _ stats _ absent acquired =>
    have start := counted_consistent stats consistent
    exact (acquireSlot_absent start absent acquired).trans absent.symm

theorem locate_others {answer : Except Error (Option Nat)} (consistent : Consistent numSlots {} table.pages)
    (answered : table.locate key = (answer, after)) (differs : other ≠ key) :
    DisplacedAt table.map after.map other := by
  cases locate_cases answered with
  | pinned | touched | reserved | absent => exact .inl rfl
  | notAcquired stored acquired =>
    exact (acquireSlot_consistent (faulting_consistent consistent stored) acquired).2 other
  | @notCopied _ _ _ acquiring copied stored acquired copy =>
    have displaced := (acquireSlot_consistent (faulting_consistent consistent stored) acquired).2 other
    have unchanged : copied.map = acquiring.map := congrArg PageTable.map (copyIn_pages copy)
    rw [← unchanged] at displaced
    exact displaced
  | @faultedIn _ _ _ acquiring copied stored acquired copy =>
    have displaced := (acquireSlot_consistent (faulting_consistent consistent stored) acquired).2 other
    have unchanged : copied.map = acquiring.map := congrArg PageTable.map (copyIn_pages copy)
    rw [← unchanged] at displaced
    exact DisplacedAt.insert displaced differs

/-- The located key: untouched where it was reserved, resident where it was found, and where it was on a
miss or an error. -/
theorem locate_map {answer : Except Error (Option Nat)} (consistent : Consistent numSlots {} table.pages)
    (answered : table.locate key = (answer, after)) :
    (∀ slot, answer = .ok (some slot) →
      (table.map.lookup key = some (.reserved slot) ∧ after.map.lookup key = some (.reserved slot)) ∨
      ((table.map.lookup key = some (.resident slot) ∨ OnDisk table.map key) ∧
        after.map.lookup key = some (.resident slot))) ∧
    ((∀ slot, answer ≠ .ok (some slot)) → after.map.lookup key = table.map.lookup key) := by
  cases locate_cases answered with
  | pinned stored | touched stored =>
    refine ⟨?_, fun missed => absurd rfl (missed _)⟩
    rintro _ ⟨⟩
    exact .inr ⟨.inl stored, stored⟩
  | reserved stored =>
    refine ⟨?_, fun missed => absurd rfl (missed _)⟩
    rintro _ ⟨⟩
    exact .inl ⟨stored, stored⟩
  | notAcquired stored acquired =>
    have hidden := faulting_consistent consistent stored
    exact ⟨nofun, fun _ => (acquireSlot_hidden hidden stored acquired).trans stored.symm⟩
  | notCopied stored acquired copy =>
    obtain ⟨-, located⟩ := copyIn_inHand consistent stored acquired copy
    exact ⟨nofun, fun _ => located.trans stored.symm⟩
  | faultedIn stored =>
    refine ⟨?_, fun missed => absurd rfl (missed _)⟩
    rintro _ ⟨⟩
    exact .inr ⟨.inr ⟨_, stored⟩, AList.lookup_insert _⟩
  | absent => exact ⟨nofun, fun _ => rfl⟩

end Residency

end Metrale.Storage
