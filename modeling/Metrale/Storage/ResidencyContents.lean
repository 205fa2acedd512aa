import Metrale.Storage.ResidencyInvariant

/-! # The bytes a page table keeps

Blobs move between slots and reused records.  `Carries before after key` says that a key that is
still in the map has the bytes it had, wherever they are now.  Every part of a call carries every key
but the one it writes, because a slot or a record in hand belongs to no other key. -/

namespace Metrale.Storage

open Metrale.Foundation

namespace Residency

open PageTable (Consistent)

variable {Arena Store : Type*} [SlotArena Arena] [SwapStore Store] [LawfulSlotArena Arena]
  [LawfulSwapStore Store] {table middle after copied : Residency Arena Store}
  {numSlots slot diskSlot : Nat} {key other : Key} {lruKey hidden : Option Key} {loc : Loc}

def bytesAt (table : Residency Arena Store) : Loc → Bytes
  | .reserved slot | .resident slot => LawfulSlotArena.contents table.arena slot
  | .onDisk diskSlot => LawfulSwapStore.contents table.swap diskSlot

def Carries (before after : Residency Arena Store) (key : Key) : Prop :=
  ∀ loc, after.map.lookup key = some loc →
    ∃ loc', before.map.lookup key = some loc' ∧ after.bytesAt loc = before.bytesAt loc'

theorem Carries.refl (table : Residency Arena Store) (key : Key) : Carries table table key :=
  fun loc stored => ⟨loc, stored, rfl⟩

theorem Carries.trans (earlier : Carries table middle key) (later : Carries middle after key) :
    Carries table after key := by
  intro loc stored
  obtain ⟨loc', stored', same⟩ := later loc stored
  obtain ⟨loc'', stored'', same'⟩ := earlier loc' stored'
  exact ⟨loc'', stored'', same.trans same'⟩

theorem Carries.stay (kept : after.map.lookup key = table.map.lookup key)
    (same : ∀ loc, table.map.lookup key = some loc → after.bytesAt loc = table.bytesAt loc) :
    Carries table after key := by
  intro loc stored
  rw [kept] at stored
  exact ⟨loc, stored, same loc stored⟩

theorem Carries.gone (absent : after.map.lookup key = none) : Carries table after key := by
  intro loc stored
  cases absent.symm.trans stored

/-! ## What the devices do to the bytes -/

theorem freeRecord_bytesAt (table : Residency Arena Store) (differs : loc.record ≠ some diskSlot) :
    (table.freeRecord diskSlot).bytesAt loc = table.bytesAt loc := by
  cases loc with
  | reserved | resident => rfl
  | onDisk other => exact LawfulSwapStore.discard_keeps _ _ _ fun same => differs (congrArg some same)

theorem writeSlot_bytesAt {bytes : Bytes} {answer : Except Error Unit} {arena : Arena}
    (written : SlotArena.writeSlot table.arena slot bytes = (answer, arena))
    (differs : loc.slot ≠ some slot) : { table with arena }.bytesAt loc = table.bytesAt loc := by
  have kept := LawfulSlotArena.write_keeps table.arena slot bytes
  rw [written] at kept
  cases loc with
  | reserved other | resident other => exact kept other fun same => differs (congrArg some same)
  | onDisk => rfl

theorem copyOut_bytesAt {answer : Except Error Unit}
    (copy : table.copyOut slot diskSlot = (answer, copied)) (differs : loc.record ≠ some diskSlot) :
    copied.bytesAt loc = table.bytesAt loc := by
  have read := LawfulSlotArena.read_keeps table.arena slot table.blobBytes
  simp only [copyOut] at copy
  split at copy
  · next error arena answered =>
    rw [answered] at read
    cases copy
    cases loc with
    | reserved other | resident other => exact congrFun read other
    | onDisk => rfl
  · next bytes arena answered =>
    rw [answered] at read
    have kept := LawfulSwapStore.write_keeps table.swap diskSlot bytes
    cases copy
    cases loc with
    | reserved other | resident other => exact congrFun read other
    | onDisk other => exact kept other fun same => differs (congrArg some same)

theorem copyOut_stores (copy : table.copyOut slot diskSlot = (.ok (), copied)) :
    copied.bytesAt (.onDisk diskSlot) = table.bytesAt (.resident slot) := by
  simp only [copyOut] at copy
  split at copy
  · cases copy
  · next bytes arena answered =>
    have same := LawfulSlotArena.read_answer table.arena slot table.blobBytes bytes (by rw [answered])
    have stored := LawfulSwapStore.write_stores table.swap diskSlot bytes
    rcases written : SwapStore.writeRecord table.swap diskSlot bytes with ⟨answer, swap⟩
    rw [written] at stored
    simp only [written] at copy
    cases copy
    exact (stored rfl).trans same

theorem copyIn_bytesAt {answer : Except Error Unit}
    (copy : table.copyIn diskSlot slot = (answer, copied)) (differs : loc.slot ≠ some slot) :
    copied.bytesAt loc = table.bytesAt loc := by
  have read := LawfulSwapStore.read_keeps table.swap diskSlot table.blobBytes
  simp only [copyIn] at copy
  split at copy
  · next error swap answered =>
    rw [answered] at read
    cases copy
    cases loc with
    | reserved | resident => rfl
    | onDisk other => exact congrFun read other
  · next bytes swap answered =>
    rw [answered] at read
    have kept := LawfulSlotArena.write_keeps table.arena slot bytes
    cases copy
    cases loc with
    | reserved other | resident other => exact kept other fun same => differs (congrArg some same)
    | onDisk other => exact congrFun read other

theorem copyIn_stores (copy : table.copyIn diskSlot slot = (.ok (), copied)) :
    copied.bytesAt (.resident slot) = table.bytesAt (.onDisk diskSlot) := by
  simp only [copyIn] at copy
  split at copy
  · cases copy
  · next bytes swap answered =>
    have same := LawfulSwapStore.read_answer table.swap diskSlot table.blobBytes bytes (by rw [answered])
    have stored := LawfulSlotArena.write_stores table.arena slot bytes
    rcases written : SlotArena.writeSlot table.arena slot bytes with ⟨answer, arena⟩
    rw [written] at stored
    simp only [written] at copy
    cases copy
    exact (stored rfl).trans same

/-! ## Acquiring a slot -/

theorem dropCold_carries {cold : Key} {keys : List Key} (front : table.diskLru = cold :: keys)
    (consistent : Consistent numSlots { lruKey, diskKey := hidden } table.pages) (key : Key) :
    Carries table ({ table with diskLru := keys }.dropCold cold) key := by
  obtain ⟨-, diskSlot, stored⟩ := dropCold_consistent front consistent
  by_cases dropped : key = cold
  · refine .gone ?_
    rw [dropCold_map, HashMap.lookup_erase_if, if_pos dropped]
  · refine .stay ?_ fun loc located => ?_
    · rw [dropCold_map, HashMap.lookup_erase_if, if_neg dropped]
    · have elsewhere : loc.record ≠ some diskSlot := fun same => dropped <|
        consistent.records.ownedOnce key cold diskSlot ((recordOf_eq located).trans same)
          (recordOf_eq stored)
      have kept := freeRecord_bytesAt table elsewhere
      simp only [dropCold]
      rw [stored]
      exact kept

theorem dropWhileFull_carries {keys : List Key} (listed : table.diskLru = keys)
    (consistent : Consistent numSlots { lruKey, diskKey := hidden } table.pages) (key : Key) :
    Carries table (dropWhileFull keys table) key := by
  induction keys generalizing table with
  | nil => exact .refl table key
  | cons cold keys ih =>
    simp only [dropWhileFull]
    split
    · have dropped := (dropCold_consistent listed consistent).1
      exact (dropCold_carries listed consistent key).trans (ih dropCold_diskLru dropped)
    · exact .refl table key

theorem makeDiskRoom_carries
    (consistent : Consistent numSlots { lruKey, diskKey := hidden } table.pages) (key : Key) :
    Carries table table.makeDiskRoom key := by
  simp only [makeDiskRoom]
  split
  · exact .refl table key
  · exact dropWhileFull_carries rfl consistent key

theorem allocDiskSlot_carries (table : Residency Arena Store) (key : Key) :
    Carries table table.allocDiskSlot.2 key := by
  simp only [allocDiskSlot]
  split <;> exact .stay rfl fun _ _ => rfl

theorem Spilling.carries {roomy : Residency Arena Store} {victim : Key} {lru : List Key}
    (spilling : Spilling numSlots hidden table roomy victim lru slot diskSlot)
    (consistent : Consistent numSlots { diskKey := hidden } table.pages) (key : Key) :
    Carries table roomy key := by
  have popped : Consistent numSlots { lruKey := some victim, diskKey := hidden }
      (pages { table with lru }) := consistent.popLru spilling.front
  have room := (makeDiskRoom_carries popped key).trans (allocDiskSlot_carries _ key)
  rw [spilling.made] at room
  exact room

theorem evictColdestToDisk_carries {answer : Except Error Nat}
    (consistent : Consistent numSlots { diskKey := hidden } table.pages)
    (answered : table.evictColdestToDisk = (answer, after)) (key : Key) : Carries table after key := by
  obtain ⟨-, -, rfl⟩ | ⟨roomy, victim, lru, slot, diskSlot, copied, spilling, unchanged, done⟩ :=
    evictColdestToDisk_cases consistent answered
  · exact .refl _ key
  refine (spilling.carries consistent key).trans ?_
  have sameMap : copied.map = roomy.map := congrArg PageTable.map unchanged
  -- The record in hand belongs to no key, so writing it disturbs none.
  have elsewhere : ∀ loc, roomy.map.lookup key = some loc → loc.record ≠ some diskSlot := by
    intro loc stored same
    exact spilling.inHand.records.transitUnowned diskSlot rfl key ((recordOf_eq stored).trans same)
  obtain ⟨error, copy, rfl, rfl⟩ | ⟨copy, rfl, rfl⟩ := done
  · refine .stay (congrArg (AList.lookup key) sameMap) fun loc stored => ?_
    exact (copyOut_bytesAt copy (elsewhere loc stored) :)
  · by_cases here : key = victim
    · subst here
      intro loc stored
      dsimp only at stored
      rw [HashMap.lookup_insert_if, if_pos rfl] at stored
      cases stored
      exact ⟨.resident slot, spilling.stored, (copyOut_stores copy :)⟩
    · refine .stay ?_ fun loc stored => (copyOut_bytesAt copy (elsewhere loc stored) :)
      dsimp only
      rw [HashMap.lookup_insert_if, if_neg here, sameMap]

theorem acquireSlot_carries {answer : Except Error Nat}
    (consistent : Consistent numSlots { diskKey := hidden } table.pages)
    (answered : table.acquireSlot = (answer, after)) (key : Key) : Carries table after key := by
  simp only [acquireSlot] at answered
  split at answered
  · cases answered
    exact .stay rfl fun _ _ => rfl
  · exact evictColdestToDisk_carries consistent answered key

/-! ## The calls -/

theorem reserving_carries (table : Residency Arena Store) (key other : Key) :
    Carries table (table.reserving key) other :=
  .stay rfl fun _ _ => rfl

theorem faulting_carries (table : Residency Arena Store) (key other : Key) :
    Carries table (table.faulting key) other :=
  .stay rfl fun _ _ => rfl

omit [LawfulSlotArena Arena] [LawfulSwapStore Store] in
theorem unheld_slot (consistent : Consistent numSlots {} table.pages)
    (stored : table.map.lookup key = some (.onDisk diskSlot))
    (acquired : (table.faulting key).acquireSlot = (.ok slot, after))
    (located : after.map.lookup other = some loc) : loc.slot ≠ some slot := by
  intro same
  have inHand := (acquireSlot_consistent (faulting_consistent consistent stored) acquired).1
  exact inHand.slots.transitUnowned slot rfl other ((slotOf_eq located).trans same)

theorem locate_carries {answer : Except Error (Option Nat)}
    (consistent : Consistent numSlots {} table.pages)
    (answered : table.locate key = (answer, after)) (other : Key) : Carries table after other := by
  cases locate_cases answered with
  | pinned | touched | reserved | absent => exact .stay rfl fun _ _ => rfl
  | notAcquired stored acquired =>
    have acquires := acquireSlot_carries (faulting_consistent consistent stored) acquired other
    exact (faulting_carries table key other).trans (acquires.trans (.stay rfl fun _ _ => rfl))
  | notCopied stored acquired copy =>
    have acquires := acquireSlot_carries (faulting_consistent consistent stored) acquired other
    refine (faulting_carries table key other).trans (acquires.trans ?_)
    have unchanged := congrArg PageTable.map (copyIn_pages copy)
    refine .stay (congrArg (AList.lookup other) unchanged) fun loc located => ?_
    exact (copyIn_bytesAt copy (unheld_slot consistent stored acquired located) :)
  | @faultedIn diskSlot _ _ acquiring copied stored acquired copy =>
    have hidden := faulting_consistent consistent stored
    have acquires := acquireSlot_carries hidden acquired other
    have located := acquireSlot_hidden hidden stored acquired
    refine (faulting_carries table key other).trans (acquires.trans ?_)
    have unchanged : copied.map = acquiring.map := congrArg PageTable.map (copyIn_pages copy)
    by_cases here : other = key
    · subst here
      intro loc moved
      cases (AList.lookup_insert _).symm.trans moved
      exact ⟨.onDisk diskSlot, located, (copyIn_stores copy :)⟩
    · refine .stay ?_ fun loc kept => ?_
      · exact (AList.lookup_insert_ne here).trans (congrArg (AList.lookup other) unchanged)
      · have apart : loc.record ≠ some diskSlot := fun same => here <|
          (acquireSlot_consistent hidden acquired).1.records.ownedOnce other key diskSlot
            ((recordOf_eq kept).trans same) (recordOf_eq located)
        have freed := freeRecord_bytesAt copied apart
        exact freed.trans (copyIn_bytesAt copy (unheld_slot consistent stored acquired kept))

theorem alloc_failed {error : Error} (consistent : Consistent numSlots {} table.pages)
    (answered : table.alloc key = (.error error, after)) (other : Key) : Carries table after other := by
  cases alloc_cases answered with
  | notReclaimed stored acquired =>
    have acquires := acquireSlot_carries (reserving_consistent consistent stored) acquired other
    exact (reserving_carries table key other).trans (acquires.trans (.stay rfl fun _ _ => rfl))
  | notAcquired _ acquired =>
    exact (acquireSlot_carries (counted_consistent _ consistent) acquired other :)

theorem alloc_reserves (consistent : Consistent numSlots {} table.pages)
    (answered : table.alloc key = (.ok slot, after)) (differs : other ≠ key) :
    Carries table after other := by
  cases alloc_cases answered with
  | resident => exact .stay (AList.lookup_insert_ne differs) fun _ _ => rfl
  | reserved => exact .stay rfl fun _ _ => rfl
  | @reclaimed diskSlot _ acquiring stored acquired =>
    have hidden := reserving_consistent consistent stored
    have acquires := acquireSlot_carries hidden acquired other
    have located := acquireSlot_hidden hidden stored acquired
    refine (reserving_carries table key other).trans (acquires.trans ?_)
    refine .stay (AList.lookup_insert_ne differs) fun loc kept => ?_
    have apart : loc.record ≠ some diskSlot := fun same => differs <|
      (acquireSlot_consistent hidden acquired).1.records.ownedOnce other key diskSlot
        ((recordOf_eq kept).trans same) (recordOf_eq located)
    exact (freeRecord_bytesAt acquiring apart :)
  | @acquired _ stats _ _ acquired =>
    have acquires := acquireSlot_carries (counted_consistent stats consistent) acquired other
    have counted : Carries table { table with stats } other := .stay rfl fun _ _ => rfl
    exact counted.trans (acquires.trans (.stay (AList.lookup_insert_ne differs) fun _ _ => rfl))

theorem remove_carries (consistent : Consistent numSlots {} table.pages) (differs : other ≠ key) :
    Carries table (table.remove key) other := by
  generalize removed : table.remove key = after
  cases remove_cases removed with
  | slot | absent => exact .stay (AList.lookup_erase_ne differs) fun _ _ => rfl
  | @record diskSlot stored =>
    refine .stay (AList.lookup_erase_ne differs) fun loc kept => ?_
    have apart : loc.record ≠ some diskSlot := fun same => differs <|
      consistent.records.ownedOnce other key diskSlot ((recordOf_eq kept).trans same) (recordOf_eq stored)
    exact (freeRecord_bytesAt table apart :)

/-- A put that succeeds leaves its bytes at its key; one that fails leaves the key with the bytes it
had, or without a place.  Every other key is carried. -/
theorem putBlob_carries {bytes : Bytes} {answer : Except Error Unit}
    (consistent : Consistent numSlots {} table.pages)
    (answered : table.putBlob key bytes = (answer, after)) :
    (∀ other, other ≠ key → Carries table after other) ∧
      ((∃ error, answer = .error error ∧ Carries table after key) ∨
        (answer = .ok () ∧ ∃ slot, after.map.lookup key = some (.resident slot) ∧
          after.bytesAt (.resident slot) = bytes)) := by
  -- Every other key has another slot, so the write carries it.
  have written : ∀ {slot reserved answer arena}, table.alloc key = (.ok slot, reserved) →
      SlotArena.writeSlot reserved.arena slot bytes = (answer, arena) →
      ∀ other, other ≠ key → Carries table { reserved with arena } other := by
    intro slot reserved answer arena allocated write other differs
    refine (alloc_reserves consistent allocated differs).trans (.stay rfl fun loc stored => ?_)
    refine writeSlot_bytesAt write fun same => differs ?_
    exact (alloc_consistent consistent allocated).slots.ownedOnce other key slot
      ((slotOf_eq stored).trans same) (slotOf_eq (alloc_reserved allocated))
  cases putBlob_cases answered with
  | wrongLength => exact ⟨fun other _ => .refl _ other, .inl ⟨_, rfl, .refl _ key⟩⟩
  | notAllocated _ allocated =>
    exact ⟨fun other _ => alloc_failed consistent allocated other,
      .inl ⟨_, rfl, alloc_failed consistent allocated key⟩⟩
  | @notWritten _ _ reserved arena _ allocated write =>
    have failed : Consistent numSlots {} (pages { reserved with arena }) :=
      (alloc_consistent consistent allocated :)
    refine ⟨fun other differs => (written allocated write other differs).trans (remove_carries failed differs),
      .inl ⟨_, rfl, .gone ?_⟩⟩
    rw [remove_map]
    exact AList.lookup_erase _ _
  | @written slot _ reserved _ arena _ allocated write committed =>
    have stores := LawfulSlotArena.write_stores reserved.arena slot bytes
    rw [write] at stores
    have kept : { reserved with arena }.map.lookup key = some (.reserved slot) := (alloc_reserved allocated :)
    obtain ⟨done, sameArena, sameSwap, sameMap⟩ := commit_reserved kept committed
    refine ⟨fun other differs => (written allocated write other differs).trans ?_, .inr ⟨done, slot, ?_, ?_⟩⟩
    · refine .stay ?_ fun loc _ => ?_
      · rw [sameMap]
        exact AList.lookup_insert_ne differs
      · cases loc <;> simp only [bytesAt, sameArena, sameSwap]
    · rw [sameMap]
      exact AList.lookup_insert _
    · rw [bytesAt, sameArena]
      exact stores rfl

/-- A hit answers the bytes at the key's location; a miss is a key that the map does not have. -/
theorem getBlob_carries {outLength : Nat} {answer : Except Error (Option Bytes)}
    (consistent : Consistent numSlots {} table.pages)
    (answered : table.getBlob key outLength = (answer, after)) :
    (∀ other, Carries table after other) ∧
      (∀ bytes, answer = .ok (some bytes) →
        ∃ loc, table.map.lookup key = some loc ∧ bytes = table.bytesAt loc) ∧
      (answer = .ok none → table.map.lookup key = none) := by
  -- A read leaves the arena's bytes as they are.
  have kept : ∀ {found : Residency Arena Store} {slot answer arena},
      (∀ other, Carries table found other) → SlotArena.readSlot found.arena slot outLength = (answer, arena) →
      ∀ other, Carries table { found with arena } other := by
    intro found slot answer arena carried read other
    have same := LawfulSlotArena.read_keeps found.arena slot outLength
    rw [read] at same
    refine (carried other).trans (.stay rfl fun loc _ => ?_)
    cases loc <;> simp only [bytesAt, same]
  cases getBlob_cases answered with
  | wrongLength => exact ⟨.refl _, nofun, nofun⟩
  | notLocated _ located => exact ⟨locate_carries consistent located, nofun, nofun⟩
  | missed _ located => exact ⟨locate_carries consistent located, nofun, fun _ => locate_missing located⟩
  | notRead _ located read => exact ⟨kept (locate_carries consistent located) read, nofun, nofun⟩
  | @read slot bytes found _ _ located read =>
    have carried := locate_carries consistent located
    refine ⟨kept carried read, ?_, nofun⟩
    rintro _ ⟨⟩
    obtain ⟨loc, stored, held⟩ := locate_found located
    obtain ⟨origin, present, moved⟩ := carried key loc stored
    have same := LawfulSlotArena.read_answer found.arena slot outLength bytes (by rw [read])
    refine ⟨origin, present, ?_⟩
    rw [← moved, same]
    cases loc with
    | reserved | resident =>
      cases held
      rfl
    | onDisk => cases held

end Residency

end Metrale.Storage
