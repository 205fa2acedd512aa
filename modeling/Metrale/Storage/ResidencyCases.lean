import Metrale.Storage.Residency

/-! # What each call can do

One relation for each call, with a constructor for each of its exits, so that every later proof about the call
is a case analysis over these. -/

namespace Metrale.Storage

open Metrale.Foundation

namespace Residency

variable {Arena Store : Type*} {table : Residency Arena Store} {key : Key}

/-- `alloc` as it stands when it acquires a slot for a key that is on disk. -/
def reserving (key : Key) (table : Residency Arena Store) : Residency Arena Store :=
  diskLruRemove key { table with stats := { table.stats with puts := table.stats.puts + 1 } }

/-- `locate` as it stands when it acquires a slot for a key that is on disk. -/
def faulting (key : Key) (table : Residency Arena Store) : Residency Arena Store :=
  diskLruRemove key { table with stats := { table.stats with gets := table.stats.gets + 1 } }

/-! ## Committing -/

inductive Commits (key : Key) (table : Residency Arena Store) :
    Except Error Unit → Residency Arena Store → Prop where
  | pinned {slot : Nat} (stored : table.map.lookup key = some (.reserved slot))
      (pinned : key ∈ table.readPins) :
      Commits key table (.ok ()) { table with map := table.map.insert key (.resident slot) }
  | listed {slot : Nat} (stored : table.map.lookup key = some (.reserved slot))
      (unpinned : key ∉ table.readPins) :
      Commits key table (.ok ())
        { table with map := table.map.insert key (.resident slot), lru := table.lru ++ [key] }
  | already {slot : Nat} (stored : table.map.lookup key = some (.resident slot)) :
      Commits key table (.ok ()) table
  | refused {error : Error} (unreserved : ∀ slot, table.map.lookup key ≠ some (.reserved slot)) :
      Commits key table (.error error) table

theorem commit_cases {answer : Except Error Unit} {after : Residency Arena Store}
    (answered : table.commit key = (answer, after)) :
    Commits key table answer after := by
  simp only [commit] at answered
  split at answered
  · next slot stored =>
    split at answered
    · next pinned =>
      cases answered
      exact .pinned stored pinned
    · next unpinned =>
      cases answered
      exact .listed stored unpinned
  · next slot stored =>
    cases answered
    exact .already stored
  · next unreserved _ =>
    cases answered
    exact .refused unreserved

/-! ## Pins -/

theorem pinRead_eq (table : Residency Arena Store) (key : Key) :
    ∃ lru readPins, table.pinRead key = { table with lru, readPins } := by
  unfold pinRead
  split
  · dsimp only
    split <;> exact ⟨_, _, rfl⟩
  · exact ⟨_, _, rfl⟩

theorem unpinRead_eq (table : Residency Arena Store) (key : Key) :
    ∃ lru readPins, table.unpinRead key = { table with lru, readPins } := by
  simp only [unpinRead]
  split
  · exact ⟨_, _, rfl⟩
  split
  · split
    · split <;> exact ⟨_, _, rfl⟩
    · exact ⟨_, _, rfl⟩
  · exact ⟨_, _, rfl⟩

/-! ## Removing and allocating -/

variable [SwapStore Store]

inductive Removes (key : Key) (table : Residency Arena Store) : Residency Arena Store → Prop where
  | slot {loc : Loc} {slot : Nat} (stored : table.map.lookup key = some loc)
      (held : loc = .reserved slot ∨ loc = .resident slot) :
      Removes key table
        { table with
          map := table.map.erase key, lru := table.lru.erase key, freeSlots := slot :: table.freeSlots }
  | record {diskSlot : Nat} (stored : table.map.lookup key = some (.onDisk diskSlot)) :
      Removes key table (({ table with map := table.map.erase key }.diskLruRemove key).freeRecord diskSlot)
  | absent (absent : table.map.lookup key = none) : Removes key table { table with map := table.map.erase key }

theorem remove_cases {after : Residency Arena Store} (removed : table.remove key = after) :
    Removes key table after := by
  subst removed
  simp only [remove]
  split
  · next stored => exact .slot stored (.inr rfl)
  · next stored => exact .slot stored (.inl rfl)
  -- Only a key on disk has a record to give back.
  · next stored => exact .record stored
  · next absent => exact .absent absent

variable [SlotArena Arena]

inductive Allocs (key : Key) (table : Residency Arena Store) :
    Except Error Nat → Residency Arena Store → Prop where
  | resident {slot : Nat} {stats : SwapStats} (stored : table.map.lookup key = some (.resident slot)) :
      Allocs key table (.ok slot)
        { table with stats, map := table.map.insert key (.reserved slot), lru := table.lru.erase key }
  | reserved {slot : Nat} {stats : SwapStats} (stored : table.map.lookup key = some (.reserved slot)) :
      Allocs key table (.ok slot) { table with stats }
  | notReclaimed {diskSlot : Nat} {error : Error} {acquiring : Residency Arena Store}
      (stored : table.map.lookup key = some (.onDisk diskSlot))
      (acquired : (table.reserving key).acquireSlot = (.error error, acquiring)) :
      Allocs key table (.error error) { acquiring with diskLru := key :: acquiring.diskLru }
  | reclaimed {diskSlot slot : Nat} {acquiring : Residency Arena Store}
      (stored : table.map.lookup key = some (.onDisk diskSlot))
      (acquired : (table.reserving key).acquireSlot = (.ok slot, acquiring)) :
      Allocs key table (.ok slot)
        { acquiring.freeRecord diskSlot with map := acquiring.map.insert key (.reserved slot) }
  | notAcquired {error : Error} {stats : SwapStats} {after : Residency Arena Store}
      (absent : table.map.lookup key = none)
      (acquired : { table with stats }.acquireSlot = (.error error, after)) :
      Allocs key table (.error error) after
  | acquired {slot : Nat} {stats : SwapStats} {acquiring : Residency Arena Store}
      (absent : table.map.lookup key = none)
      (acquired : { table with stats }.acquireSlot = (.ok slot, acquiring)) :
      Allocs key table (.ok slot) { acquiring with map := acquiring.map.insert key (.reserved slot) }

theorem alloc_cases {answer : Except Error Nat} {after : Residency Arena Store}
    (answered : table.alloc key = (answer, after)) :
    Allocs key table answer after := by
  simp only [alloc] at answered
  split at answered
  · next stored =>
    cases answered
    exact .resident stored
  · next stored =>
    cases answered
    exact .reserved stored
  · next stored =>
    split at answered
    · next acquired =>
      cases answered
      exact .notReclaimed stored acquired
    · next acquired =>
      cases answered
      exact .reclaimed stored acquired
  · next absent =>
    split at answered
    · next acquired =>
      cases answered
      exact .notAcquired absent acquired
    · next acquired =>
      cases answered
      exact .acquired absent acquired

/-! ## Finding -/

inductive Locates (key : Key) (table : Residency Arena Store) :
    Except Error (Option Nat) → Residency Arena Store → Prop where
  | pinned {slot : Nat} {stats : SwapStats} (stored : table.map.lookup key = some (.resident slot))
      (pinned : key ∈ table.readPins) : Locates key table (.ok (some slot)) { table with stats }
  | touched {slot : Nat} {stats : SwapStats} (stored : table.map.lookup key = some (.resident slot))
      (unpinned : key ∉ table.readPins) :
      Locates key table (.ok (some slot)) { table with stats, lru := table.lru.erase key ++ [key] }
  | reserved {slot : Nat} {stats : SwapStats} (stored : table.map.lookup key = some (.reserved slot)) :
      Locates key table (.ok (some slot)) { table with stats }
  | notAcquired {diskSlot : Nat} {error : Error} {acquiring : Residency Arena Store}
      (stored : table.map.lookup key = some (.onDisk diskSlot))
      (acquired : (table.faulting key).acquireSlot = (.error error, acquiring)) :
      Locates key table (.error error) { acquiring with diskLru := key :: acquiring.diskLru }
  | notCopied {diskSlot slot : Nat} {error : Error} {acquiring copied : Residency Arena Store}
      (stored : table.map.lookup key = some (.onDisk diskSlot))
      (acquired : (table.faulting key).acquireSlot = (.ok slot, acquiring))
      (copy : acquiring.copyIn diskSlot slot = (.error error, copied)) :
      Locates key table (.error error)
        { copied with freeSlots := slot :: copied.freeSlots, diskLru := key :: copied.diskLru }
  | faultedIn {diskSlot slot : Nat} {stats : SwapStats} {acquiring copied : Residency Arena Store}
      (stored : table.map.lookup key = some (.onDisk diskSlot))
      (acquired : (table.faulting key).acquireSlot = (.ok slot, acquiring))
      (copy : acquiring.copyIn diskSlot slot = (.ok (), copied)) :
      Locates key table (.ok (some slot))
        { copied.freeRecord diskSlot with
          stats, map := copied.map.insert key (.resident slot), lru := copied.lru ++ [key] }
  | absent {stats : SwapStats} (absent : table.map.lookup key = none) :
      Locates key table (.ok none) { table with stats }

theorem locate_cases {answer : Except Error (Option Nat)} {after : Residency Arena Store}
    (answered : table.locate key = (answer, after)) :
    Locates key table answer after := by
  simp only [locate] at answered
  split at answered
  · next stored =>
    split at answered
    · next pinned =>
      cases answered
      exact .pinned stored pinned
    · next unpinned =>
      cases answered
      exact .touched stored unpinned
  · next stored =>
    cases answered
    exact .reserved stored
  · next stored =>
    split at answered
    · next acquired =>
      cases answered
      exact .notAcquired stored acquired
    · next acquired =>
      split at answered
      · next copy =>
        cases answered
        exact .notCopied stored acquired copy
      · next copy =>
        cases answered
        exact .faultedIn stored acquired copy
  · next absent =>
    cases answered
    exact .absent absent

/-! ## Whole blobs -/

inductive Puts (key : Key) (bytes : Bytes) (table : Residency Arena Store) :
    Except Error Unit → Residency Arena Store → Prop where
  | wrongLength {error : Error} (wrong : bytes.length ≠ table.blobBytes) :
      Puts key bytes table (.error error) table
  | notAllocated {error : Error} {after : Residency Arena Store} (sized : bytes.length = table.blobBytes)
      (allocated : table.alloc key = (.error error, after)) : Puts key bytes table (.error error) after
  | notWritten {slot : Nat} {error : Error} {reserved : Residency Arena Store} {arena : Arena}
      (sized : bytes.length = table.blobBytes) (allocated : table.alloc key = (.ok slot, reserved))
      (written : SlotArena.writeSlot reserved.arena slot bytes = (.error error, arena)) :
      Puts key bytes table (.error error) ({ reserved with arena }.remove key)
  | written {slot : Nat} {answer : Except Error Unit} {reserved after : Residency Arena Store} {arena : Arena}
      (sized : bytes.length = table.blobBytes) (allocated : table.alloc key = (.ok slot, reserved))
      (written : SlotArena.writeSlot reserved.arena slot bytes = (.ok (), arena))
      (committed : { reserved with arena }.commit key = (answer, after)) : Puts key bytes table answer after

theorem putBlob_cases {bytes : Bytes} {answer : Except Error Unit} {after : Residency Arena Store}
    (answered : table.putBlob key bytes = (answer, after)) : Puts key bytes table answer after := by
  simp only [putBlob] at answered
  split at answered
  · next wrong =>
    cases answered
    exact .wrongLength wrong
  next sized =>
  replace sized := of_not_not sized
  split at answered
  · next allocated =>
    cases answered
    exact .notAllocated sized allocated
  · next allocated =>
    split at answered
    · next written =>
      cases answered
      exact .notWritten sized allocated written
    · next written => exact .written sized allocated written answered

inductive Gets (key : Key) (outLength : Nat) (table : Residency Arena Store) :
    Except Error (Option Bytes) → Residency Arena Store → Prop where
  | wrongLength {error : Error} (wrong : outLength ≠ table.blobBytes) :
      Gets key outLength table (.error error) table
  | notLocated {error : Error} {after : Residency Arena Store} (sized : outLength = table.blobBytes)
      (located : table.locate key = (.error error, after)) : Gets key outLength table (.error error) after
  | missed {after : Residency Arena Store} (sized : outLength = table.blobBytes)
      (located : table.locate key = (.ok none, after)) :
      Gets key outLength table (.ok none) after
  | notRead {slot : Nat} {error : Error} {found : Residency Arena Store} {arena : Arena}
      (sized : outLength = table.blobBytes) (located : table.locate key = (.ok (some slot), found))
      (read : SlotArena.readSlot found.arena slot outLength = (.error error, arena)) :
      Gets key outLength table (.error error) { found with arena }
  | read {slot : Nat} {bytes : Bytes} {found : Residency Arena Store} {arena : Arena}
      (sized : outLength = table.blobBytes) (located : table.locate key = (.ok (some slot), found))
      (read : SlotArena.readSlot found.arena slot outLength = (.ok bytes, arena)) :
      Gets key outLength table (.ok (some bytes)) { found with arena }

theorem getBlob_cases {outLength : Nat} {answer : Except Error (Option Bytes)} {after : Residency Arena Store}
    (answered : table.getBlob key outLength = (answer, after)) : Gets key outLength table answer after := by
  simp only [getBlob] at answered
  split at answered
  · next wrong =>
    cases answered
    exact .wrongLength wrong
  next sized =>
  replace sized := of_not_not sized
  split at answered
  · next located =>
    cases answered
    exact .notLocated sized located
  · next located =>
    cases answered
    exact .missed sized located
  · next located =>
    split at answered
    · next read =>
      cases answered
      exact .notRead sized located read
    · next read =>
      cases answered
      exact .read sized located read

end Residency

end Metrale.Storage
