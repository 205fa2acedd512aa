import Metrale.Storage.ResidencyFrame
import Metrale.Storage.ResidencyInvariant

/-! # The disk cap

With a cap, a spill first drops on-disk keys until there is room for one more, and between calls every
record is free or holds an on-disk key.  So the store never grows past one record more than the cap:
the one of a key that is being faulted in, which is off `disk_lru` while its record is live.  That
key's place is taken by the spill which makes room for it, so a fault-in that fails after such a spill
puts the key back on a full list. -/

namespace Metrale.Storage

open Metrale.Foundation

namespace Residency

open PageTable (Consistent)

variable {Arena Store : Type*} {table after : Residency Arena Store} {numSlots slot diskSlot cap : Nat}
  {key : Key} {lruKey hidden : Option Key}

def diskCount (table : Residency Arena Store) : Nat := table.diskLru.length

def diskHighWater (table : Residency Arena Store) : Nat := table.nextDisk

/-- At every point of a call, a record is free, in hand, or that of a key which is on `disk_lru` or
kept off it. -/
theorem records_count {moving : Moving} (consistent : Consistent numSlots moving table.pages) :
    table.freeDisk.length + moving.record.toList.length +
      (table.diskLru.length + moving.diskKey.toList.length) = table.nextDisk := by
  have distinct : (table.diskLru ++ moving.diskKey.toList).Nodup := by
    refine consistent.diskLru.nodup.append (by cases moving.diskKey <;> simp) ?_
    intro key member off
    exact ((consistent.diskLru.mem_iff key).mp member).2 (Option.mem_toList.mp off)
  have total := consistent.records.count distinct fun key => by
    rw [List.mem_append, Option.mem_toList, ← onDisk_iff_record]
    constructor
    · rintro (member | off)
      · exact ((consistent.diskLru.mem_iff key).mp member).1
      · exact consistent.diskHeld key off
    · intro onDisk
      by_cases off : moving.diskKey = some key
      · exact .inr off
      · exact .inl ((consistent.diskLru.mem_iff key).mpr ⟨onDisk, off⟩)
  rw [List.length_append] at total
  exact total

/-! ## Room for a spill -/

theorem allocDiskSlot_diskLru : table.allocDiskSlot.2.diskLru = table.diskLru := by
  simp only [allocDiskSlot]
  split <;> rfl

theorem allocDiskSlot_grown (consistent : Consistent numSlots { lruKey, diskKey := hidden } table.pages)
    (roomy : table.diskLru.length < cap) (grown : table.nextDisk ≤ cap + 1) :
    table.allocDiskSlot.2.nextDisk ≤ cap + 1 := by
  have total := records_count consistent
  simp only [allocDiskSlot]
  split
  · exact grown
  · next none =>
    have atMostOne : hidden.toList.length ≤ 1 := by cases hidden <;> simp
    rw [none] at total
    simp only [List.length_nil, Option.toList_none] at total
    dsimp only
    omega

section Swap

variable [SwapStore Store]

theorem dropCold_nextDisk : (table.dropCold key).nextDisk = table.nextDisk := by
  simp only [dropCold]
  split <;> rfl

theorem dropWhileFull_room {keys : List Key} (listed : table.diskLru = keys)
    (capped : 0 < table.maxDiskSlots) :
    (dropWhileFull keys table).diskLru.length < table.maxDiskSlots ∧
      (dropWhileFull keys table).nextDisk = table.nextDisk := by
  induction keys generalizing table with
  | nil =>
    rw [dropWhileFull, listed]
    exact ⟨capped, rfl⟩
  | cons cold keys ih =>
    simp only [dropWhileFull]
    split
    · have same := (dropCold_frame { table with diskLru := keys } cold).maxDiskSlots
      obtain ⟨room, kept⟩ := @ih ({ table with diskLru := keys }.dropCold cold)
        dropCold_diskLru (capped.trans_eq same.symm)
      rw [same] at room
      exact ⟨room, kept.trans dropCold_nextDisk⟩
    · next room =>
      rw [listed]
      exact ⟨Nat.lt_of_not_le room, rfl⟩

theorem makeDiskRoom_room (capped : 0 < table.maxDiskSlots) :
    table.makeDiskRoom.diskLru.length < table.maxDiskSlots ∧
      table.makeDiskRoom.nextDisk = table.nextDisk := by
  simp only [makeDiskRoom]
  rw [if_neg (Nat.ne_of_gt capped)]
  exact dropWhileFull_room rfl capped

theorem makeDiskRoom_idle (roomy : table.diskLru.length < table.maxDiskSlots) :
    table.makeDiskRoom = table := by
  simp only [makeDiskRoom]
  split
  · rfl
  · cases listed : table.diskLru with
    | nil => rfl
    | cons cold keys =>
      rw [dropWhileFull, if_neg (by rw [← listed]; exact Nat.not_le_of_lt roomy)]

end Swap

/-! ## Acquiring a slot -/

variable [SlotArena Arena] [SwapStore Store]

theorem evictColdestToDisk_grown {answer : Except Error Nat}
    (consistent : Consistent numSlots { diskKey := hidden } table.pages)
    (answered : table.evictColdestToDisk = (answer, after)) (capped : 0 < table.maxDiskSlots)
    (grown : table.nextDisk ≤ table.maxDiskSlots + 1) : after.nextDisk ≤ table.maxDiskSlots + 1 := by
  obtain ⟨-, -, rfl⟩ | ⟨roomy, victim, lru, slot, diskSlot, copied, spilling, unchanged, done⟩ :=
    evictColdestToDisk_cases consistent answered
  · exact grown
  have popped : Consistent numSlots { lruKey := some victim, diskKey := hidden } (pages { table with lru }) :=
    consistent.popLru spilling.front
  obtain ⟨room, kept⟩ := @makeDiskRoom_room _ _ { table with lru } _ capped
  have bounded := allocDiskSlot_grown (makeDiskRoom_consistent popped).1 room (kept.trans_le grown)
  rw [spilling.made] at bounded
  have same : copied.nextDisk = roomy.nextDisk := congrArg PageTable.nextDisk unchanged
  rw [← same] at bounded
  obtain ⟨error, -, rfl, rfl⟩ | ⟨-, rfl, rfl⟩ := done
  · exact bounded
  · exact bounded

/-- A spill leaves room on `disk_lru` for one key when its copy fails, and fills that room when it
succeeds. -/
theorem evictColdestToDisk_diskLru {answer : Except Error Nat}
    (consistent : Consistent numSlots { diskKey := hidden } table.pages)
    (answered : table.evictColdestToDisk = (answer, after)) (capped : 0 < table.maxDiskSlots) :
    (∀ error, answer = .error error → after = table ∨ after.diskLru.length < table.maxDiskSlots) ∧
    (∀ slot, answer = .ok slot → after.diskLru.length ≤ table.maxDiskSlots ∧
      (table.diskLru.length < table.maxDiskSlots → after.diskLru.length = table.diskLru.length + 1)) := by
  obtain ⟨-, ⟨error, rfl⟩, rfl⟩ | ⟨roomy, victim, lru, slot, diskSlot, copied, spilling, unchanged, done⟩ :=
    evictColdestToDisk_cases consistent answered
  · exact ⟨fun _ _ => .inl rfl, nofun⟩
  have listed : copied.diskLru = { table with lru }.makeDiskRoom.diskLru := by
    have made := congrArg (fun made => made.2.diskLru) spilling.made
    exact (congrArg PageTable.diskLru unchanged).trans (made.symm.trans allocDiskSlot_diskLru)
  obtain ⟨room, -⟩ := @makeDiskRoom_room _ _ { table with lru } _ capped
  rw [← listed] at room
  obtain ⟨error, -, rfl, rfl⟩ | ⟨-, rfl, rfl⟩ := done
  · exact ⟨fun _ _ => .inr room, nofun⟩
  · refine ⟨nofun, fun _ _ => ⟨?_, fun roomy => ?_⟩⟩
    · dsimp only
      rw [List.length_append]
      exact room
    · have idle : { table with lru }.makeDiskRoom = { table with lru } := makeDiskRoom_idle roomy
      rw [idle] at listed
      dsimp only
      rw [List.length_append, listed]
      rfl

theorem acquireSlot_grown {answer : Except Error Nat}
    (consistent : Consistent numSlots { diskKey := hidden } table.pages)
    (answered : table.acquireSlot = (answer, after)) (capped : 0 < table.maxDiskSlots)
    (grown : table.nextDisk ≤ table.maxDiskSlots + 1) : after.nextDisk ≤ table.maxDiskSlots + 1 := by
  simp only [acquireSlot] at answered
  split at answered
  · cases answered
    exact grown
  · exact evictColdestToDisk_grown consistent answered capped grown

theorem acquireSlot_diskLru {answer : Except Error Nat}
    (consistent : Consistent numSlots { diskKey := hidden } table.pages)
    (answered : table.acquireSlot = (answer, after)) (capped : 0 < table.maxDiskSlots)
    (within : table.diskLru.length ≤ table.maxDiskSlots) :
    after.diskLru.length ≤ table.maxDiskSlots ∧
      (∀ error, answer = .error error → after = table ∨ after.diskLru.length < table.maxDiskSlots) := by
  unfold acquireSlot at answered
  split at answered
  · cases answered
    exact ⟨within, nofun⟩
  · obtain ⟨failed, spilled⟩ := evictColdestToDisk_diskLru consistent answered capped
    refine ⟨?_, failed⟩
    cases answer with
    | error error =>
      obtain rfl | room := failed error rfl
      · exact within
      · exact Nat.le_of_lt room
    | ok slot => exact (spilled slot rfl).1

/-! ## The calls -/

omit [SlotArena Arena] [SwapStore Store] in
theorem diskLruRemove_length (consistent : Consistent numSlots {} table.pages)
    (stored : table.map.lookup key = some (.onDisk diskSlot)) :
    (table.diskLruRemove key).diskLru.length + 1 = table.diskLru.length := by
  have member : key ∈ table.diskLru := (consistent.diskLru.mem_iff key).mpr ⟨⟨diskSlot, stored⟩, nofun⟩
  have some := List.length_pos_of_mem member
  rw [diskLruRemove, List.length_erase_of_mem member]
  omega

theorem alloc_bounded {answer : Except Error Nat} (capped : 0 < table.maxDiskSlots)
    (consistent : Consistent numSlots {} table.pages) (answered : table.alloc key = (answer, after)) :
    (table.nextDisk ≤ table.maxDiskSlots + 1 → after.nextDisk ≤ table.maxDiskSlots + 1) ∧
    (table.diskLru.length ≤ table.maxDiskSlots → after.diskLru.length ≤ table.maxDiskSlots) := by
  cases alloc_cases answered with
  | resident | reserved => exact ⟨id, id⟩
  | notReclaimed stored acquired =>
    have hidden := reserving_consistent consistent stored
    have shorter : (table.reserving key).diskLru.length + 1 = table.diskLru.length :=
      diskLruRemove_length consistent stored
    refine ⟨fun grown => (acquireSlot_grown hidden acquired capped grown :), fun within => ?_⟩
    -- The key goes back to the place it left, or to the room that the failed spill made.
    have shorterWithin : (table.reserving key).diskLru.length ≤ table.maxDiskSlots := by omega
    obtain rfl | room := (acquireSlot_diskLru hidden acquired capped shorterWithin :).2 _ rfl
    · exact shorter.trans_le within
    · exact room
  -- The key's own record is dropped for its new slot, which leaves a place on disk.
  | reclaimed stored acquired =>
    have hidden := reserving_consistent consistent stored
    have shorter : (table.reserving key).diskLru.length + 1 = table.diskLru.length :=
      diskLruRemove_length consistent stored
    refine ⟨fun grown => (acquireSlot_grown hidden acquired capped grown :), fun within => ?_⟩
    have shorterWithin : (table.reserving key).diskLru.length ≤ table.maxDiskSlots := by omega
    exact (acquireSlot_diskLru hidden acquired capped shorterWithin :).1
  | notAcquired _ acquired | acquired _ acquired =>
    exact ⟨fun grown => (acquireSlot_grown (counted_consistent _ consistent) acquired capped grown :),
      fun within => (acquireSlot_diskLru (counted_consistent _ consistent) acquired capped within :).1⟩

/-- The tier is full and so is the arena; the spill that makes room for the key succeeds, and the read
of the key's record, or the write of its slot, fails. -/
def FaultLost (key : Key) (table : Residency Arena Store) : Prop :=
  table.maxDiskSlots ≤ table.diskLru.length ∧ table.freeSlots = [] ∧
    ∃ diskSlot slot spilled error copied, table.map.lookup key = some (.onDisk diskSlot) ∧
      (table.faulting key).evictColdestToDisk = (.ok slot, spilled) ∧
      spilled.copyIn diskSlot slot = (.error error, copied)

theorem faulting_spill (key : Key) (full : table.freeSlots = []) :
    (table.faulting key).acquireSlot = (table.faulting key).evictColdestToDisk := by
  have full : (table.faulting key).freeSlots = [] := full
  simp only [acquireSlot]
  rw [full]

theorem faulting_take {number : Nat} {numbers : List Nat} (key : Key)
    (free : table.freeSlots = number :: numbers) :
    (table.faulting key).acquireSlot = (.ok number, { table.faulting key with freeSlots := numbers }) := by
  have free : (table.faulting key).freeSlots = number :: numbers := free
  simp only [acquireSlot]
  rw [free]

theorem locate_grown {answer : Except Error (Option Nat)} (capped : 0 < table.maxDiskSlots)
    (consistent : Consistent numSlots {} table.pages) (grown : table.nextDisk ≤ table.maxDiskSlots + 1)
    (answered : table.locate key = (answer, after)) : after.nextDisk ≤ table.maxDiskSlots + 1 := by
  cases locate_cases answered with
  | pinned | touched | reserved | absent => exact grown
  | notAcquired stored acquired =>
    exact (acquireSlot_grown (faulting_consistent consistent stored) acquired capped grown :)
  | notCopied stored acquired copy | faultedIn stored acquired copy =>
    have bounded := acquireSlot_grown (faulting_consistent consistent stored) acquired capped grown
    have unchanged := congrArg PageTable.nextDisk (copyIn_pages copy)
    exact unchanged.trans_le bounded

theorem locate_diskLru {answer : Except Error (Option Nat)} (capped : 0 < table.maxDiskSlots)
    (consistent : Consistent numSlots {} table.pages) (within : table.diskLru.length ≤ table.maxDiskSlots)
    (answered : table.locate key = (answer, after)) :
    after.diskLru.length ≤ table.maxDiskSlots ↔ ¬ table.FaultLost key := by
  have shorter : ∀ {diskSlot}, table.map.lookup key = some (.onDisk diskSlot) →
      (table.faulting key).diskLru.length + 1 = table.diskLru.length := diskLruRemove_length consistent
  cases locate_cases answered with
  | pinned stored | touched stored | reserved stored | absent stored =>
    refine iff_of_true within ?_
    rintro ⟨-, -, _, _, _, _, _, onDisk, -⟩
    cases stored.symm.trans onDisk
  | notAcquired stored acquired =>
    have hidden := faulting_consistent consistent stored
    have shorterWithin : (table.faulting key).diskLru.length ≤ table.maxDiskSlots :=
      (Nat.le_of_succ_le (shorter stored).le).trans within
    constructor
    · rintro - ⟨-, full, _, _, _, _, _, -, spilled, -⟩
      have failed := (faulting_spill key full).symm.trans acquired
      cases failed.symm.trans spilled
    · intro _
      obtain rfl | room := (acquireSlot_diskLru hidden acquired capped shorterWithin :).2 _ rfl
      · exact (shorter stored).trans_le within
      · exact room
  | @notCopied diskSlot slot error acquiring copied stored acquired copy =>
    have hidden := faulting_consistent consistent stored
    have unchanged : copied.diskLru = acquiring.diskLru := congrArg PageTable.diskLru (copyIn_pages copy)
    rw [List.length_cons, unchanged]
    cases free : table.freeSlots with
    | cons number numbers =>
      -- The slot was free, so the key goes back to the place it left.
      cases (faulting_take key free).symm.trans acquired
      refine iff_of_true ((shorter stored).trans_le within) ?_
      rintro ⟨-, full, -⟩
      cases free.symm.trans full
    | nil =>
      -- The spill filled the place that the key left.
      have spilled := (faulting_spill key free).symm.trans acquired
      have roomy : (table.faulting key).diskLru.length < table.maxDiskSlots :=
        (shorter stored).trans_le within
      have filled := ((evictColdestToDisk_diskLru hidden spilled capped :).2 slot rfl).2 roomy
      rw [filled, shorter stored, Nat.succ_le_iff, ← Nat.not_le]
      refine not_congr ⟨fun full => ?_, fun lost => lost.1⟩
      exact ⟨full, free, diskSlot, slot, acquiring, error, copied, stored, spilled, copy⟩
  -- A fault-in that succeeds takes its key off the disk for good.
  | @faultedIn _ _ _ acquiring copied stored acquired copy =>
    have hidden := faulting_consistent consistent stored
    have shorterWithin : (table.faulting key).diskLru.length ≤ table.maxDiskSlots :=
      (Nat.le_of_succ_le (shorter stored).le).trans within
    have unchanged : copied.diskLru = acquiring.diskLru := congrArg PageTable.diskLru (copyIn_pages copy)
    constructor
    · rintro - ⟨-, full, _, _, _, _, _, onDisk, spilled, lost⟩
      have landed := (faulting_spill key full).symm.trans acquired
      cases stored.symm.trans onDisk
      cases landed.symm.trans spilled
      cases copy.symm.trans lost
    · intro _
      show copied.diskLru.length ≤ _
      rw [unchanged]
      exact (acquireSlot_diskLru hidden acquired capped shorterWithin :).1

section Records

omit [SlotArena Arena]

theorem remove_records (table : Residency Arena Store) (key : Key) :
    (table.remove key).nextDisk = table.nextDisk ∧
      (table.remove key).diskLru.length ≤ table.diskLru.length := by
  generalize removed : table.remove key = after
  cases remove_cases removed with
  | slot | absent => exact ⟨rfl, le_rfl⟩
  | record => exact ⟨rfl, List.length_erase_le⟩

omit [SwapStore Store]

theorem commit_records {answer : Except Error Unit} (answered : table.commit key = (answer, after)) :
    after.nextDisk = table.nextDisk ∧ after.diskLru = table.diskLru := by
  cases commit_cases answered with
  | pinned | listed | already | refused => exact ⟨rfl, rfl⟩

theorem pinRead_records (table : Residency Arena Store) (key : Key) :
    (table.pinRead key).nextDisk = table.nextDisk ∧ (table.pinRead key).diskLru = table.diskLru := by
  obtain ⟨lru, readPins, same⟩ := pinRead_eq table key
  rw [same]
  exact ⟨rfl, rfl⟩

theorem unpinRead_records (table : Residency Arena Store) (key : Key) :
    (table.unpinRead key).nextDisk = table.nextDisk ∧ (table.unpinRead key).diskLru = table.diskLru := by
  obtain ⟨lru, readPins, same⟩ := unpinRead_eq table key
  rw [same]
  exact ⟨rfl, rfl⟩

end Records

theorem putBlob_bounded {bytes : Bytes} {answer : Except Error Unit} (capped : 0 < table.maxDiskSlots)
    (consistent : Consistent numSlots {} table.pages) (answered : table.putBlob key bytes = (answer, after)) :
    (table.nextDisk ≤ table.maxDiskSlots + 1 → after.nextDisk ≤ table.maxDiskSlots + 1) ∧
    (table.diskLru.length ≤ table.maxDiskSlots → after.diskLru.length ≤ table.maxDiskSlots) := by
  cases putBlob_cases answered with
  | wrongLength => exact ⟨id, id⟩
  | notAllocated _ allocated => exact alloc_bounded capped consistent allocated
  | @notWritten _ _ reserved arena _ allocated =>
    obtain ⟨grown, within⟩ := alloc_bounded capped consistent allocated
    obtain ⟨same, fewer⟩ := remove_records { reserved with arena } key
    exact ⟨fun before => same.trans_le (grown before), fun before => fewer.trans (within before)⟩
  | written _ allocated _ committed =>
    obtain ⟨same, listed⟩ := commit_records committed
    rw [same, listed]
    exact (alloc_bounded capped consistent allocated :)

theorem Step.grown {call : Call} (step : Step table call after) (capped : 0 < table.maxDiskSlots)
    (consistent : Consistent numSlots {} table.pages) (grown : table.nextDisk ≤ table.maxDiskSlots + 1) :
    after.nextDisk ≤ table.maxDiskSlots + 1 := by
  cases step with
  | alloc answered => exact (alloc_bounded capped consistent answered).1 grown
  | commit answered => exact (commit_records answered).1.trans_le grown
  | locate answered => exact locate_grown capped consistent grown answered
  | @remove key => exact (remove_records table key).1.trans_le grown
  | @pinRead key => exact (pinRead_records table key).1.trans_le grown
  | @unpinRead key => exact (unpinRead_records table key).1.trans_le grown
  | putBlob answered => exact (putBlob_bounded capped consistent answered).1 grown
  | getBlob answered =>
    cases getBlob_cases answered with
    | wrongLength => exact grown
    | notLocated _ located | missed _ located => exact locate_grown capped consistent grown located
    | notRead _ located | read _ located => exact (locate_grown capped consistent grown located :)
  | arenaMut => exact grown

def Overfills (table : Residency Arena Store) : Call → Prop
  | .locate key _ => table.FaultLost key
  | .getBlob key outLength _ => outLength = table.blobBytes ∧ table.FaultLost key
  | _ => False

theorem Step.within_iff {call : Call} (step : Step table call after) (capped : 0 < table.maxDiskSlots)
    (consistent : Consistent numSlots {} table.pages) (within : table.diskLru.length ≤ table.maxDiskSlots) :
    after.diskLru.length ≤ table.maxDiskSlots ↔ ¬ table.Overfills call := by
  cases step with
  | alloc answered => exact iff_of_true ((alloc_bounded capped consistent answered).2 within) id
  | commit answered =>
    rw [(commit_records answered).2]
    exact iff_of_true within id
  | locate answered => exact locate_diskLru capped consistent within answered
  | @remove key => exact iff_of_true ((remove_records table key).2.trans within) id
  | @pinRead key =>
    rw [(pinRead_records table key).2]
    exact iff_of_true within id
  | @unpinRead key =>
    rw [(unpinRead_records table key).2]
    exact iff_of_true within id
  | putBlob answered => exact iff_of_true ((putBlob_bounded capped consistent answered).2 within) id
  | getBlob answered =>
    cases getBlob_cases answered with
    | wrongLength wrong => exact iff_of_true within fun overfills => wrong overfills.1
    | notLocated sized located | missed sized located =>
      rw [Overfills, and_iff_right sized]
      exact locate_diskLru capped consistent within located
    | notRead sized located | read sized located =>
      rw [Overfills, and_iff_right sized]
      exact (locate_diskLru capped consistent within located :)
  | arenaMut => exact iff_of_true within id

/-- In a run of a capped residency the store never has more than one record beyond the cap, and as
long as no call overfills the tier, it has no more keys than the cap; the first call that overfills it
leaves more. -/
theorem run_withinCap {arena : Arena} {swap : Store} {fresh : Residency Arena Store}
    (created : newCapped arena swap cap = .ok fresh) (capped : 0 < cap) :
    (∀ calls table, Run Step fresh calls table → table.diskHighWater ≤ cap + 1) ∧
    (∀ calls table, Run (Guarded (fun table call => ¬ table.Overfills call) Step) fresh calls table →
      table.diskCount ≤ cap ∧
      ∀ call after, Step table call after → (after.diskCount ≤ cap ↔ ¬ table.Overfills call)) := by
  have start := newCapped_consistent created
  obtain ⟨-, -, rfl⟩ := newCapped_eq created
  constructor
  · intro calls table run
    -- The store grows by at most one record beyond the cap, whatever the calls are.
    have bounded := run.invariant
      (fun table => Consistent (SlotArena.numSlots arena) {} table.pages ∧ table.maxDiskSlots = cap ∧
        table.nextDisk ≤ cap + 1)
      ⟨start, rfl, Nat.zero_le _⟩ fun before call after good step => by
        obtain ⟨consistent, same, grown⟩ := good
        have kept : after.maxDiskSlots = cap := step.maxDiskSlots.trans same
        have grows := step.grown (capped.trans_eq same.symm) consistent (grown.trans_eq (by rw [same]))
        rw [same] at grows
        exact ⟨step.consistent consistent, kept, grows⟩
    exact bounded.2.2
  · intro calls table run
    have bounded := run.guarded_invariant
      (fun table => Consistent (SlotArena.numSlots arena) {} table.pages ∧ table.maxDiskSlots = cap ∧
        table.diskLru.length ≤ cap)
      ⟨start, rfl, Nat.zero_le _⟩ fun before call after good lands step => by
        obtain ⟨consistent, same, within⟩ := good
        have stays := (step.within_iff (capped.trans_eq same.symm) consistent (within.trans_eq same.symm)).mpr lands
        rw [same] at stays
        exact ⟨step.consistent consistent, step.maxDiskSlots.trans same, stays⟩
    obtain ⟨consistent, same, within⟩ := bounded
    refine ⟨within, fun call after step => ?_⟩
    have exact_iff := step.within_iff (capped.trans_eq same.symm) consistent (within.trans_eq same.symm)
    rw [same] at exact_iff
    exact exact_iff

/-- A cap of one record: the second blob spills the first, and the third drops it. -/
theorem run_withinCap_drop : ∃ fresh table : Residency VecSlotArena MemSwapStore,
    newCapped (VecSlotArena.new 1 1) (MemSwapStore.new 1) 1 = .ok fresh ∧
    Run (Guarded (fun table call => ¬ table.Overfills call) Step) fresh
      [.putBlob 7 [70] (.ok ()), .putBlob 8 [80] (.ok ()), .putBlob 9 [90] (.ok ()),
        .locate 7 (.ok none)] table ∧
    table.diskCount ≤ 1 ∧ table.diskHighWater ≤ 2 := by
  have run : ∃ fresh table : Residency VecSlotArena MemSwapStore,
      newCapped (VecSlotArena.new 1 1) (MemSwapStore.new 1) 1 = .ok fresh ∧
      Run (Guarded (fun table call => ¬ table.Overfills call) Step) fresh
        [.putBlob 7 [70] (.ok ()), .putBlob 8 [80] (.ok ()), .putBlob 9 [90] (.ok ()),
          .locate 7 (.ok none)] table := by
    refine ⟨_, _, rfl, .prepend ⟨id, .putBlob rfl⟩ <| .prepend ⟨id, .putBlob rfl⟩ <|
      .prepend ⟨id, .putBlob rfl⟩ <| .single ⟨?_, .locate rfl⟩⟩
    rintro ⟨-, -, diskSlot, _, _, _, _, stored, -⟩
    have dropped : none = some (Loc.onDisk diskSlot) := stored
    cases dropped
  obtain ⟨fresh, table, created, run⟩ := run
  obtain ⟨highWater, count⟩ := run_withinCap created Nat.one_pos
  exact ⟨fresh, table, created, run, (count _ _ run).1, highWater _ _ run.unguarded⟩

/-! ## A fault-in that is lost -/

end Residency

/-- An arena whose next write fails once the caller has set `failNextWrite` through `arena_mut`
(`tests/residency_faults.rs`). -/
structure FaultyArena where
  inner : VecSlotArena
  failNextWrite : Bool

instance : SlotArena FaultyArena where
  slotBytes arena := SlotArena.slotBytes arena.inner
  numSlots arena := SlotArena.numSlots arena.inner
  readSlot arena slot outLength :=
    match SlotArena.readSlot arena.inner slot outLength with
    | (answer, inner) => (answer, { arena with inner })
  writeSlot arena slot bytes :=
    if arena.failNextWrite then
      (.error "injected write_slot failure", { arena with failNextWrite := false })
    else
      match SlotArena.writeSlot arena.inner slot bytes with
      | (answer, inner) => (answer, { arena with inner })

namespace Residency

/-- Key 7 is faulted in over a full tier: key 8 takes its place on disk, the slot cannot be written, and
key 7 goes back. -/
theorem diskCount_exceeds_cap : ¬ ∀ (arena : FaultyArena) (swap : MemSwapStore) cap fresh calls table,
    0 < cap → newCapped arena swap cap = .ok fresh → Run Step fresh calls table →
      table.diskCount ≤ cap ∧ table.diskHighWater ≤ cap + 1 := by
  intro within
  have overfull := within ⟨VecSlotArena.new 1 1, false⟩ (MemSwapStore.new 1) 1 _ _ _ Nat.one_pos rfl <|
    .prepend (.putBlob rfl : Step _ (.putBlob 7 [70] (.ok ())) _) <|
    .prepend (.putBlob rfl : Step _ (.putBlob 8 [80] (.ok ())) _) <|
    .prepend (.arenaMut ⟨⟨[80], 1, 1, rfl⟩, true⟩) <|
    .single (.locate rfl : Step _ (.locate 7 (.error "injected write_slot failure")) _)
  exact absurd overfull.1 (by decide)

end Residency

end Metrale.Storage
