import Metrale.Foundation.Runs
import Metrale.Storage.PageTable
import Metrale.Storage.ResidencyCases

/-! # The page table stays consistent

Every call, with its devices failing wherever they like, is a chain of the moves of `PageTable`, and
ends with nothing in hand. -/

namespace Metrale.Storage

open Metrale.Foundation

namespace Residency

open PageTable (Consistent)

variable {Arena Store : Type*} {table after : Residency Arena Store} {numSlots slot diskSlot : Nat}
  {key : Key} {lruKey hidden : Option Key}

def pages (table : Residency Arena Store) : PageTable :=
  ⟨table.map, table.freeSlots, table.lru, table.diskLru, table.freeDisk, table.nextDisk, table.readPins⟩

theorem allocDiskSlot_consistent
    (consistent : Consistent numSlots { lruKey, diskKey := hidden } table.pages) :
    Consistent numSlots { lruKey, diskKey := hidden, record := some table.allocDiskSlot.1 }
      table.allocDiskSlot.2.pages := by
  simp only [allocDiskSlot]
  split
  · next free => exact consistent.takeRecord free
  · exact consistent.newRecord

theorem allocDiskSlot_map : table.allocDiskSlot.2.map = table.map := by
  simp only [allocDiskSlot]
  split <;> rfl

/-! ## Room for a spill -/

section Swap

variable [SwapStore Store]

theorem dropCold_diskLru : (table.dropCold key).diskLru = table.diskLru := by
  simp only [dropCold]
  split <;> rfl

theorem dropCold_map : (table.dropCold key).map = table.map.erase key := by
  simp only [dropCold]
  split <;> rfl

theorem dropCold_consistent {keys : List Key} (front : table.diskLru = key :: keys)
    (consistent : Consistent numSlots { lruKey, diskKey := hidden } table.pages) :
    Consistent numSlots { lruKey, diskKey := hidden } ({ table with diskLru := keys }.dropCold key).pages ∧
      OnDisk table.map key := by
  have member : key ∈ table.pages.diskLru := by
    rw [pages, front]
    exact List.mem_cons_self
  have listed := (consistent.diskLru.mem_iff key).mp member
  obtain ⟨diskSlot, stored⟩ := listed.1
  have dropped := consistent.dropCold stored front
  refine ⟨?_, listed.1⟩
  simp only [dropCold]
  dsimp only [pages] at stored ⊢
  rw [stored]
  exact dropped

/-- A key is where it was, or was on disk and is dropped. -/
def Shed (before after : HashMap Key Loc) : Prop :=
  ∀ key, after.lookup key = before.lookup key ∨ (OnDisk before key ∧ after.lookup key = none)

theorem dropWhileFull_consistent {keys : List Key} (listed : table.diskLru = keys)
    (consistent : Consistent numSlots { lruKey, diskKey := hidden } table.pages) :
    Consistent numSlots { lruKey, diskKey := hidden } (dropWhileFull keys table).pages ∧
      Shed table.map (dropWhileFull keys table).map := by
  induction keys generalizing table with
  | nil => exact ⟨consistent, fun _ => .inl rfl⟩
  | cons cold keys ih =>
    simp only [dropWhileFull]
    split
    · obtain ⟨dropped, onDisk⟩ := dropCold_consistent listed consistent
      obtain ⟨room, shed⟩ := ih dropCold_diskLru dropped
      refine ⟨room, fun other => ?_⟩
      obtain same | ⟨⟨diskSlot, stored⟩, gone⟩ := shed other
      · rw [dropCold_map, HashMap.lookup_erase_if] at same
        -- The first key dropped was on disk, and the rest shed keys that still are.
        by_cases cold : other = cold
        · rw [if_pos cold] at same
          exact .inr ⟨cold ▸ onDisk, same⟩
        · rw [if_neg cold] at same
          exact .inl same
      · rw [dropCold_map, HashMap.lookup_erase_if] at stored
        by_cases cold : other = cold
        · rw [if_pos cold] at stored
          cases stored
        · rw [if_neg cold] at stored
          exact .inr ⟨⟨diskSlot, stored⟩, gone⟩
    · exact ⟨consistent, fun _ => .inl rfl⟩

theorem makeDiskRoom_consistent
    (consistent : Consistent numSlots { lruKey, diskKey := hidden } table.pages) :
    Consistent numSlots { lruKey, diskKey := hidden } table.makeDiskRoom.pages ∧
      Shed table.map table.makeDiskRoom.map := by
  simp only [makeDiskRoom]
  split
  · exact ⟨consistent, fun _ => .inl rfl⟩
  · exact dropWhileFull_consistent rfl consistent

end Swap

/-! ## Acquiring a slot -/

variable [SlotArena Arena] [SwapStore Store]

theorem copyOut_pages : (table.copyOut slot diskSlot).2.pages = table.pages := by
  simp only [copyOut]
  split <;> rfl

theorem copyIn_pages {answer : Except Error Unit} (copy : table.copyIn diskSlot slot = (answer, after)) :
    after.pages = table.pages := by
  simp only [copyIn] at copy
  split at copy <;> cases copy <;> rfl

/-- A spill about to copy: the victim is off `lru` and still resident, room has been made on disk, and
the record it goes to is in hand. -/
structure Spilling (numSlots : Nat) (hidden : Option Key) (table roomy : Residency Arena Store)
    (victim : Key) (lru : List Key) (slot diskSlot : Nat) : Prop where
  front : table.lru = victim :: lru
  made : { table with lru }.makeDiskRoom.allocDiskSlot = (diskSlot, roomy)
  stored : roomy.map.lookup victim = some (.resident slot)
  inHand : Consistent numSlots { lruKey := some victim, diskKey := hidden, record := some diskSlot }
    roomy.pages
  shed : Shed table.map roomy.map

/-- Nothing to spill, a failed copy that leaves the victim resident, or a spilled victim. -/
theorem evictColdestToDisk_cases {answer : Except Error Nat}
    (consistent : Consistent numSlots { diskKey := hidden } table.pages)
    (answered : table.evictColdestToDisk = (answer, after)) :
    (table.lru = [] ∧ (∃ error, answer = .error error) ∧ after = table) ∨
    ∃ roomy victim lru slot diskSlot copied,
      Spilling numSlots hidden table roomy victim lru slot diskSlot ∧ copied.pages = roomy.pages ∧
      ((∃ error, roomy.copyOut slot diskSlot = (.error error, copied) ∧ answer = .error error ∧
          after = { copied with freeDisk := diskSlot :: copied.freeDisk, lru := victim :: copied.lru }) ∨
        (roomy.copyOut slot diskSlot = (.ok (), copied) ∧ answer = .ok slot ∧
          after = { copied with
            map := copied.map.insert victim (.onDisk diskSlot)
            diskLru := copied.diskLru ++ [victim]
            stats := { copied.stats with spillsToDisk := copied.stats.spillsToDisk + 1 } })) := by
  unfold evictColdestToDisk at answered
  split at answered
  · next front =>
    cases answered
    exact .inl ⟨front, ⟨_, rfl⟩, rfl⟩
  · next victim lru front =>
    have popped : Consistent numSlots { lruKey := some victim, diskKey := hidden }
        (pages { table with lru }) := consistent.popLru front
    obtain ⟨⟨slot, stored⟩, -⟩ := popped.lruHeld victim rfl
    replace stored : table.map.lookup victim = some (.resident slot) := stored
    dsimp only at answered
    rw [stored] at answered
    dsimp only at answered
    obtain ⟨room, shed⟩ := makeDiskRoom_consistent popped
    have inHand := allocDiskSlot_consistent room
    -- Making room drops on-disk keys only, so the victim is still resident.
    have kept : { table with lru }.makeDiskRoom.allocDiskSlot.2.map.lookup victim =
        some (.resident slot) := by
      rw [allocDiskSlot_map]
      obtain same | ⟨⟨diskSlot, onDisk⟩, -⟩ := shed victim
      · exact same.trans stored
      · cases stored.symm.trans onDisk
    replace shed : Shed table.map { table with lru }.makeDiskRoom.allocDiskSlot.2.map := by
      rw [allocDiskSlot_map]
      exact shed
    rcases made : { table with lru }.makeDiskRoom.allocDiskSlot with ⟨diskSlot, roomy⟩
    rw [made] at answered inHand kept shed
    have unchanged : (roomy.copyOut slot diskSlot).2.pages = roomy.pages := copyOut_pages
    refine .inr ⟨roomy, victim, lru, slot, diskSlot, (roomy.copyOut slot diskSlot).2,
      ⟨front, made, kept, inHand, shed⟩, unchanged, ?_⟩
    rcases copy : roomy.copyOut slot diskSlot with ⟨_ | _, copied⟩
    · simp only [copy] at answered
      cases answered
      exact .inl ⟨_, rfl, rfl, rfl⟩
    · simp only [copy] at answered
      cases answered
      exact .inr ⟨rfl, rfl, rfl⟩

/-- A key is where it was, or was on disk and is dropped, or was resident and is spilled. -/
def Displaced (before after : HashMap Key Loc) : Prop :=
  ∀ key, after.lookup key = before.lookup key ∨ (OnDisk before key ∧ after.lookup key = none) ∨
    (Resident before key ∧ OnDisk after key)

theorem evictColdestToDisk_consistent {answer : Except Error Nat}
    (consistent : Consistent numSlots { diskKey := hidden } table.pages)
    (answered : table.evictColdestToDisk = (answer, after)) :
    Consistent numSlots { diskKey := hidden, slot := answer.toOption } after.pages ∧
      Displaced table.map after.map := by
  obtain ⟨-, ⟨error, rfl⟩, rfl⟩ | ⟨roomy, victim, lru, slot, diskSlot, copied, spilling, unchanged, done⟩ :=
    evictColdestToDisk_cases consistent answered
  · exact ⟨consistent, fun _ => .inl rfl⟩
  have inHand := spilling.inHand
  rw [← unchanged] at inHand
  have sameMap : copied.map = roomy.map := congrArg PageTable.map unchanged
  have shed : ∀ key, copied.map.lookup key = table.map.lookup key ∨
      (OnDisk table.map key ∧ copied.map.lookup key = none) := by
    rw [sameMap]
    exact spilling.shed
  have stored : copied.map.lookup victim = some (.resident slot) := by
    rw [sameMap]
    exact spilling.stored
  obtain ⟨error, -, rfl, rfl⟩ | ⟨-, rfl, rfl⟩ := done
  -- The record goes back and the victim too, although room has been made by then.
  · refine ⟨inHand.putRecord.unpopLru, fun key => ?_⟩
    obtain same | dropped := shed key
    · exact .inl same
    · exact .inr (.inl dropped)
  · refine ⟨inHand.spill stored, fun key => ?_⟩
    dsimp only
    rw [HashMap.lookup_insert_if]
    by_cases here : key = victim
    · subst here
      obtain same | ⟨-, gone⟩ := shed key
      · exact .inr (.inr ⟨⟨slot, same.symm.trans stored⟩, onDisk_insert.mpr (by simp)⟩)
      · cases stored.symm.trans gone
    · rw [if_neg here]
      obtain same | dropped := shed key
      · exact .inl same
      · exact .inr (.inl dropped)

theorem acquireSlot_consistent {answer : Except Error Nat}
    (consistent : Consistent numSlots { diskKey := hidden } table.pages)
    (answered : table.acquireSlot = (answer, after)) :
    Consistent numSlots { diskKey := hidden, slot := answer.toOption } after.pages ∧
      Displaced table.map after.map := by
  simp only [acquireSlot] at answered
  split at answered
  · next free =>
    cases answered
    exact ⟨consistent.takeSlot free, fun _ => .inl rfl⟩
  · exact evictColdestToDisk_consistent consistent answered

/-- The key that a call keeps off `disk_lru` keeps its record while a slot is acquired. -/
theorem acquireSlot_hidden {answer : Except Error Nat}
    (consistent : Consistent numSlots { diskKey := some key } table.pages)
    (stored : table.map.lookup key = some (.onDisk diskSlot))
    (answered : table.acquireSlot = (answer, after)) :
    after.map.lookup key = some (.onDisk diskSlot) := by
  obtain ⟨kept, displaced⟩ := acquireSlot_consistent consistent answered
  obtain ⟨_, onDisk⟩ := kept.diskHeld key rfl
  obtain same | ⟨-, gone⟩ | ⟨⟨_, resident⟩, -⟩ := displaced key
  · exact same.trans stored
  · cases onDisk.symm.trans gone
  · cases stored.symm.trans resident

theorem acquireSlot_absent {answer : Except Error Nat}
    (consistent : Consistent numSlots { diskKey := hidden } table.pages)
    (absent : table.map.lookup key = none) (answered : table.acquireSlot = (answer, after)) :
    after.map.lookup key = none := by
  obtain same | ⟨-, gone⟩ | ⟨⟨_, resident⟩, -⟩ := (acquireSlot_consistent consistent answered).2 key
  · exact same.trans absent
  · exact gone
  · cases absent.symm.trans resident

/-! ## The calls -/

omit [SlotArena Arena] [SwapStore Store] in
theorem counted_consistent (stats : SwapStats) (consistent : Consistent numSlots {} table.pages) :
    Consistent numSlots {} (pages { table with stats }) :=
  consistent

omit [SlotArena Arena] [SwapStore Store] in
theorem reserving_consistent (consistent : Consistent numSlots {} table.pages)
    (stored : table.map.lookup key = some (.onDisk diskSlot)) :
    Consistent numSlots { diskKey := some key } (table.reserving key).pages :=
  consistent.hideDisk ⟨diskSlot, stored⟩

omit [SlotArena Arena] [SwapStore Store] in
theorem faulting_consistent (consistent : Consistent numSlots {} table.pages)
    (stored : table.map.lookup key = some (.onDisk diskSlot)) :
    Consistent numSlots { diskKey := some key } (table.faulting key).pages :=
  consistent.hideDisk ⟨diskSlot, stored⟩

theorem alloc_consistent {answer : Except Error Nat} (consistent : Consistent numSlots {} table.pages)
    (answered : table.alloc key = (answer, after)) : Consistent numSlots {} after.pages := by
  cases alloc_cases answered with
  | resident stored => exact consistent.reserveResident stored
  | reserved => exact consistent
  | notReclaimed stored acquired =>
    have hidden := reserving_consistent consistent stored
    exact (acquireSlot_consistent hidden acquired).1.unhideDisk
  | reclaimed stored acquired =>
    have hidden := reserving_consistent consistent stored
    exact (acquireSlot_consistent hidden acquired).1.reserveOnDisk (acquireSlot_hidden hidden stored acquired)
  | notAcquired _ acquired => exact (acquireSlot_consistent (counted_consistent _ consistent) acquired).1
  | @acquired _ stats _ absent acquired =>
    have start := counted_consistent stats consistent
    exact (acquireSlot_consistent start acquired).1.reserveNew (acquireSlot_absent start absent acquired)

theorem alloc_reserved (answered : table.alloc key = (.ok slot, after)) :
    after.map.lookup key = some (.reserved slot) := by
  cases alloc_cases answered with
  | reserved stored => exact stored
  | resident | reclaimed | acquired => exact AList.lookup_insert _

/-- A fault-in about to end: the slot is in hand, and the key still has its record. -/
theorem copyIn_inHand {acquiring copied : Residency Arena Store} {answer : Except Error Unit}
    (consistent : Consistent numSlots {} table.pages) (stored : table.map.lookup key = some (.onDisk diskSlot))
    (acquired : (table.faulting key).acquireSlot = (.ok slot, acquiring))
    (copy : acquiring.copyIn diskSlot slot = (answer, copied)) :
    Consistent numSlots { diskKey := some key, slot := some slot } copied.pages ∧
      copied.map.lookup key = some (.onDisk diskSlot) := by
  have hidden := faulting_consistent consistent stored
  have unchanged := copyIn_pages copy
  have sameMap : copied.map = acquiring.map := congrArg PageTable.map unchanged
  constructor
  · rw [unchanged]
    exact (acquireSlot_consistent hidden acquired).1
  · rw [sameMap]
    exact acquireSlot_hidden hidden stored acquired

theorem locate_consistent {answer : Except Error (Option Nat)}
    (consistent : Consistent numSlots {} table.pages)
    (answered : table.locate key = (answer, after)) : Consistent numSlots {} after.pages := by
  cases locate_cases answered with
  | pinned | reserved | absent => exact consistent
  | touched stored unpinned => exact consistent.touch ⟨_, stored⟩ unpinned
  | notAcquired stored acquired =>
    exact (acquireSlot_consistent (faulting_consistent consistent stored) acquired).1.unhideDisk
  | notCopied stored acquired copy =>
    exact (copyIn_inHand consistent stored acquired copy).1.putSlot.unhideDisk
  | faultedIn stored acquired copy =>
    obtain ⟨inHand, located⟩ := copyIn_inHand consistent stored acquired copy
    exact inHand.faultIn located

theorem locate_missing (answered : table.locate key = (.ok none, after)) :
    table.map.lookup key = none := by
  cases locate_cases answered with
  | absent absent => exact absent

theorem locate_found (answered : table.locate key = (.ok (some slot), after)) :
    ∃ loc, after.map.lookup key = some loc ∧ loc.slot = some slot := by
  cases locate_cases answered with
  | pinned stored | touched stored | reserved stored => exact ⟨_, stored, rfl⟩
  | faultedIn => exact ⟨_, AList.lookup_insert _, rfl⟩

theorem getBlob_consistent {outLength : Nat} {answer : Except Error (Option Bytes)}
    (consistent : Consistent numSlots {} table.pages)
    (answered : table.getBlob key outLength = (answer, after)) : Consistent numSlots {} after.pages := by
  cases getBlob_cases answered with
  | wrongLength => exact consistent
  | notLocated _ located | missed _ located => exact locate_consistent consistent located
  | notRead _ located | read _ located => exact (locate_consistent consistent located :)

section Pages

omit [SlotArena Arena]

theorem remove_map : (table.remove key).map = table.map.erase key := by
  generalize removed : table.remove key = after
  cases remove_cases removed with
  | slot | record | absent => rfl

theorem remove_consistent (consistent : Consistent numSlots {} table.pages) :
    Consistent numSlots {} (table.remove key).pages := by
  generalize removed : table.remove key = after
  cases remove_cases removed with
  | slot stored held =>
    refine consistent.removeSlot stored ?_
    obtain rfl | rfl := held <;> rfl
  | record stored => exact consistent.removeRecord stored
  | absent absent => exact consistent.removeAbsent absent

omit [SwapStore Store]

theorem commit_consistent {answer : Except Error Unit} (consistent : Consistent numSlots {} table.pages)
    (answered : table.commit key = (answer, after)) : Consistent numSlots {} after.pages := by
  cases commit_cases answered with
  | pinned stored pinned => exact consistent.commitPinned stored pinned
  | listed stored unpinned => exact consistent.commitUnpinned stored unpinned
  | already | refused => exact consistent

theorem commit_reserved {answer : Except Error Unit}
    (stored : table.map.lookup key = some (.reserved slot))
    (answered : table.commit key = (answer, after)) :
    answer = .ok () ∧ after.arena = table.arena ∧ after.swap = table.swap ∧
      after.map = table.map.insert key (.resident slot) := by
  cases commit_cases answered with
  | pinned reserved | listed reserved =>
    cases stored.symm.trans reserved
    exact ⟨rfl, rfl, rfl, rfl⟩
  | already resident => cases stored.symm.trans resident
  | refused unreserved => exact absurd stored (unreserved slot)

theorem pinRead_consistent (consistent : Consistent numSlots {} table.pages) :
    Consistent numSlots {} (table.pinRead key).pages := by
  unfold pinRead
  split
  · next slot stored =>
    dsimp only
    split
    · exact consistent.pin ⟨slot, stored⟩
    · next counted =>
      have pinned : key ∈ table.readPins := by
        rw [← AList.lookup_isSome]
        cases present : table.readPins.lookup key with
        | none =>
          rw [present] at counted
          exact absurd rfl counted
        | some => rfl
      exact consistent.repin pinned
  · exact consistent

theorem unpinRead_consistent (consistent : Consistent numSlots {} table.pages) :
    Consistent numSlots {} (table.unpinRead key).pages := by
  unfold unpinRead
  split
  · exact consistent
  · next count counted =>
    have pinned : key ∈ table.readPins := by rw [← AList.lookup_isSome, counted]; rfl
    split
    · dsimp only
      split
      · next slot stored =>
        have unlisted : key ∉ table.lru := fun member =>
          ((consistent.lru.mem_iff key).mp member).2.1 pinned
        rw [if_neg unlisted]
        exact consistent.unpinResident ⟨slot, stored⟩ pinned
      · next other =>
        exact consistent.unpinOther fun ⟨slot, stored⟩ => other slot stored
    · exact consistent.repin pinned

end Pages

theorem putBlob_consistent {bytes : Bytes} {answer : Except Error Unit}
    (consistent : Consistent numSlots {} table.pages)
    (answered : table.putBlob key bytes = (answer, after)) : Consistent numSlots {} after.pages := by
  cases putBlob_cases answered with
  | wrongLength => exact consistent
  | notAllocated _ allocated => exact alloc_consistent consistent allocated
  | @notWritten _ _ reserved arena _ allocated =>
    have kept : Consistent numSlots {} (pages { reserved with arena }) :=
      (alloc_consistent consistent allocated :)
    exact remove_consistent kept
  | @written _ _ reserved _ arena _ allocated _ committed =>
    have kept : Consistent numSlots {} (pages { reserved with arena }) :=
      (alloc_consistent consistent allocated :)
    exact commit_consistent kept committed

/-! ## Runs -/

theorem Step.consistent {call : Call} (consistent : Consistent numSlots {} table.pages)
    (step : Step table call after) : Consistent numSlots {} after.pages := by
  cases step with
  | alloc answered => exact alloc_consistent consistent answered
  | commit answered => exact commit_consistent consistent answered
  | locate answered => exact locate_consistent consistent answered
  | remove => exact remove_consistent consistent
  | pinRead => exact pinRead_consistent consistent
  | unpinRead => exact unpinRead_consistent consistent
  | putBlob answered => exact putBlob_consistent consistent answered
  | getBlob answered => exact getBlob_consistent consistent answered
  | arenaMut arena => exact consistent

theorem newCapped_consistent {arena : Arena} {swap : Store} {maxDiskSlots : Nat}
    (created : newCapped arena swap maxDiskSlots = .ok table) :
    Consistent (SlotArena.numSlots arena) {} table.pages := by
  simp only [newCapped] at created
  split at created
  · cases created
  split at created
  · cases created
  split at created
  · cases created
  cases created
  have unknown : ∀ key : Key, (∅ : HashMap Key Loc).lookup key = none := AList.lookup_empty
  constructor
  case slots => exact .start (fun slot => List.mem_range.symm) List.nodup_range
  case records => exact .start (by simp [pages]) List.nodup_nil
  case lru =>
    refine .empty ?_
    rintro key ⟨⟨slot, stored⟩, -⟩
    cases (unknown key).symm.trans stored
  case diskLru =>
    refine .empty ?_
    rintro key ⟨⟨diskSlot, stored⟩, -⟩
    cases (unknown key).symm.trans stored
  case pinned => exact fun key pinned => absurd pinned (AList.notMem_empty key)
  case lruHeld => nofun
  case diskHeld => nofun

structure Sound (numSlots : Nat) (table : Residency Arena Store) : Prop where
  slots : ∀ slot < numSlots,
    Xor (slot ∈ table.freeSlots) (∃! key, slotOf table.map key = some slot)
  records : ∀ diskSlot < table.nextDisk,
    Xor (diskSlot ∈ table.freeDisk) (∃! key, recordOf table.map key = some diskSlot)
  freeSlotsNodup : table.freeSlots.Nodup
  freeDiskNodup : table.freeDisk.Nodup
  lruNodup : table.lru.Nodup
  lru_iff : ∀ key, key ∈ table.lru ↔ Resident table.map key ∧ key ∉ table.readPins
  diskLruNodup : table.diskLru.Nodup
  diskLru_iff : ∀ key, key ∈ table.diskLru ↔ OnDisk table.map key

omit [SlotArena Arena] [SwapStore Store] in
theorem sound_of_consistent (consistent : Consistent numSlots {} table.pages) : Sound numSlots table where
  slots := fun _ => consistent.slots.partition
  records := fun _ => consistent.records.partition
  freeSlotsNodup := consistent.slots.freeNodup
  freeDiskNodup := consistent.records.freeNodup
  lruNodup := consistent.lru.nodup
  lru_iff := by
    intro key
    exact (consistent.lru.mem_iff key).trans (by simp [pages])
  diskLruNodup := consistent.diskLru.nodup
  diskLru_iff := by
    intro key
    exact (consistent.diskLru.mem_iff key).trans (by simp [pages])

/-- After any calls on any devices, every slot and every record is in one place, and the LRU lists
hold exactly the keys they should. -/
theorem run_table_sound {arena : Arena} {swap : Store} {maxDiskSlots : Nat} {fresh : Residency Arena Store}
    (created : newCapped arena swap maxDiskSlots = .ok fresh) {calls : List Call}
    (run : Run Step fresh calls table) : Sound (SlotArena.numSlots arena) table :=
  sound_of_consistent <| run.invariant (fun table => Consistent (SlotArena.numSlots arena) {} table.pages)
    (newCapped_consistent created) fun _ _ _ consistent step => step.consistent consistent

/-- One slot: a second blob spills the first, which is pinned after it came back. -/
theorem run_table_sound_spill : ∃ fresh table : Residency VecSlotArena MemSwapStore,
    newCapped (VecSlotArena.new 1 1) (MemSwapStore.new 1) 0 = .ok fresh ∧
    Run Step fresh [.putBlob 7 [70] (.ok ()), .putBlob 8 [80] (.ok ()), .getBlob 7 1 (.ok (some [70])),
      .pinRead 7] table ∧ Sound 1 table := by
  have run : ∃ fresh table : Residency VecSlotArena MemSwapStore,
      newCapped (VecSlotArena.new 1 1) (MemSwapStore.new 1) 0 = .ok fresh ∧
      Run Step fresh [.putBlob 7 [70] (.ok ()), .putBlob 8 [80] (.ok ()), .getBlob 7 1 (.ok (some [70])),
        .pinRead 7] table :=
    ⟨_, _, rfl, .prepend (.putBlob rfl) <| .prepend (.putBlob rfl) <| .prepend (.getBlob rfl) <|
      .single .pinRead⟩
  obtain ⟨fresh, table, created, run⟩ := run
  exact ⟨fresh, table, created, run, run_table_sound created run⟩

end Residency

end Metrale.Storage
