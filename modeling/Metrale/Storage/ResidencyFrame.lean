import Metrale.Storage.ResidencyCases

/-! # What the calls leave alone

The disk cap and the blob size are set once, and only `pin_read` and `unpin_read` change the pins. -/

namespace Metrale.Storage

open Metrale.Foundation

namespace Residency

variable {Arena Store : Type*} {table middle after : Residency Arena Store} {key : Key}

structure Frame (before after : Residency Arena Store) : Prop where
  maxDiskSlots : after.maxDiskSlots = before.maxDiskSlots
  blobBytes : after.blobBytes = before.blobBytes
  readPins : after.readPins = before.readPins

theorem Frame.refl (table : Residency Arena Store) : Frame table table := ⟨rfl, rfl, rfl⟩

theorem Frame.trans (earlier : Frame table middle) (later : Frame middle after) : Frame table after :=
  ⟨later.maxDiskSlots.trans earlier.maxDiskSlots, later.blobBytes.trans earlier.blobBytes,
    later.readPins.trans earlier.readPins⟩

theorem newCapped_eq [SlotArena Arena] [SwapStore Store] {arena : Arena} {swap : Store} {cap : Nat}
    (created : newCapped arena swap cap = .ok table) :
    0 < SlotArena.slotBytes arena ∧ 0 < SlotArena.numSlots arena ∧
    table =
      { arena, swap, blobBytes := SlotArena.slotBytes arena, map := ∅
        freeSlots := List.range (SlotArena.numSlots arena), lru := [], diskLru := []
        maxDiskSlots := cap, freeDisk := [], nextDisk := 0, readPins := ∅
        stats := ⟨0, 0, 0, 0, 0, 0, 0⟩ } := by
  simp only [newCapped] at created
  split at created
  · cases created
  split at created
  · cases created
  split at created
  · cases created
  · next sized _ stocked =>
    cases created
    exact ⟨Nat.pos_of_ne_zero sized, Nat.pos_of_ne_zero stocked, rfl⟩

theorem allocDiskSlot_frame (table : Residency Arena Store) : Frame table table.allocDiskSlot.2 := by
  simp only [allocDiskSlot]
  split <;> exact ⟨rfl, rfl, rfl⟩

section Swap

variable [SwapStore Store]

theorem dropCold_frame (table : Residency Arena Store) (key : Key) : Frame table (table.dropCold key) := by
  simp only [dropCold]
  split <;> exact ⟨rfl, rfl, rfl⟩

theorem dropWhileFull_frame (keys : List Key) (table : Residency Arena Store) :
    Frame table (dropWhileFull keys table) := by
  induction keys generalizing table with
  | nil => exact .refl table
  | cons cold keys ih =>
    simp only [dropWhileFull]
    split
    · have popped : Frame table { table with diskLru := keys } := ⟨rfl, rfl, rfl⟩
      exact (popped.trans (dropCold_frame _ cold)).trans (ih _)
    · exact .refl table

theorem makeDiskRoom_frame (table : Residency Arena Store) : Frame table table.makeDiskRoom := by
  simp only [makeDiskRoom]
  split
  · exact .refl table
  · exact dropWhileFull_frame _ table

theorem remove_frame (table : Residency Arena Store) : Frame table (table.remove key) := by
  generalize removed : table.remove key = after
  cases remove_cases removed with
  | slot | record | absent => exact ⟨rfl, rfl, rfl⟩

end Swap

theorem commit_frame {answer : Except Error Unit} (answered : table.commit key = (answer, after)) :
    Frame table after := by
  cases commit_cases answered with
  | pinned | listed | already | refused => exact ⟨rfl, rfl, rfl⟩

variable [SlotArena Arena] [SwapStore Store]

theorem copyOut_frame (table : Residency Arena Store) (slot diskSlot : Nat) :
    Frame table (table.copyOut slot diskSlot).2 := by
  simp only [copyOut]
  split <;> exact ⟨rfl, rfl, rfl⟩

theorem copyIn_frame {diskSlot slot : Nat} {answer : Except Error Unit}
    (copy : table.copyIn diskSlot slot = (answer, after)) : Frame table after := by
  simp only [copyIn] at copy
  split at copy <;> cases copy <;> exact ⟨rfl, rfl, rfl⟩

theorem evictColdestToDisk_frame {answer : Except Error Nat}
    (answered : table.evictColdestToDisk = (answer, after)) : Frame table after := by
  unfold evictColdestToDisk at answered
  split at answered
  · cases answered
    exact .refl table
  · next victim lru front =>
    have popped : Frame table { table with lru } := ⟨rfl, rfl, rfl⟩
    dsimp only at answered
    split at answered
    · next slot stored =>
      have roomy := (popped.trans (makeDiskRoom_frame _)).trans (allocDiskSlot_frame _)
      have copied := roomy.trans
        (copyOut_frame _ slot { table with lru }.makeDiskRoom.allocDiskSlot.1)
      split at answered
      · next copy =>
        rw [copy] at copied
        cases answered
        exact copied.trans ⟨rfl, rfl, rfl⟩
      · next copy =>
        rw [copy] at copied
        cases answered
        exact copied.trans ⟨rfl, rfl, rfl⟩
    · cases answered
      exact popped

theorem acquireSlot_frame {answer : Except Error Nat} (answered : table.acquireSlot = (answer, after)) :
    Frame table after := by
  simp only [acquireSlot] at answered
  split at answered
  · cases answered
    exact ⟨rfl, rfl, rfl⟩
  · exact evictColdestToDisk_frame answered

theorem alloc_frame {answer : Except Error Nat} (answered : table.alloc key = (answer, after)) :
    Frame table after := by
  cases alloc_cases answered with
  | resident | reserved => exact ⟨rfl, rfl, rfl⟩
  | notReclaimed _ acquired | reclaimed _ acquired | notAcquired _ acquired | acquired _ acquired =>
    obtain ⟨maxDiskSlots, blobBytes, readPins⟩ := acquireSlot_frame acquired
    exact ⟨maxDiskSlots, blobBytes, readPins⟩

theorem locate_frame {answer : Except Error (Option Nat)} (answered : table.locate key = (answer, after)) :
    Frame table after := by
  cases locate_cases answered with
  | pinned | touched | reserved | absent => exact ⟨rfl, rfl, rfl⟩
  | notAcquired _ acquired =>
    obtain ⟨maxDiskSlots, blobBytes, readPins⟩ := acquireSlot_frame acquired
    exact ⟨maxDiskSlots, blobBytes, readPins⟩
  | notCopied _ acquired copy | faultedIn _ acquired copy =>
    obtain ⟨maxDiskSlots, blobBytes, readPins⟩ := (acquireSlot_frame acquired).trans (copyIn_frame copy)
    exact ⟨maxDiskSlots, blobBytes, readPins⟩

theorem putBlob_frame {bytes : Bytes} {answer : Except Error Unit}
    (answered : table.putBlob key bytes = (answer, after)) : Frame table after := by
  cases putBlob_cases answered with
  | wrongLength => exact .refl table
  | notAllocated _ allocated => exact alloc_frame allocated
  | @notWritten _ _ reserved arena _ allocated =>
    obtain ⟨maxDiskSlots, blobBytes, readPins⟩ := @remove_frame _ _ key _ { reserved with arena }
    exact (alloc_frame allocated).trans ⟨maxDiskSlots, blobBytes, readPins⟩
  | written _ allocated _ committed =>
    obtain ⟨maxDiskSlots, blobBytes, readPins⟩ := commit_frame committed
    exact (alloc_frame allocated).trans ⟨maxDiskSlots, blobBytes, readPins⟩

theorem getBlob_frame {outLength : Nat} {answer : Except Error (Option Bytes)}
    (answered : table.getBlob key outLength = (answer, after)) : Frame table after := by
  cases getBlob_cases answered with
  | wrongLength => exact .refl table
  | notLocated _ located | missed _ located => exact locate_frame located
  | notRead _ located | read _ located =>
    obtain ⟨maxDiskSlots, blobBytes, readPins⟩ := locate_frame located
    exact ⟨maxDiskSlots, blobBytes, readPins⟩

theorem Step.maxDiskSlots {call : Call} (step : Step table call after) :
    after.maxDiskSlots = table.maxDiskSlots := by
  cases step with
  | alloc answered => exact (alloc_frame answered).maxDiskSlots
  | commit answered => exact (commit_frame answered).maxDiskSlots
  | locate answered => exact (locate_frame answered).maxDiskSlots
  | remove => exact (remove_frame table).maxDiskSlots
  | @pinRead key =>
    obtain ⟨lru, readPins, same⟩ := pinRead_eq table key
    rw [same]
  | @unpinRead key =>
    obtain ⟨lru, readPins, same⟩ := unpinRead_eq table key
    rw [same]
  | putBlob answered => exact (putBlob_frame answered).maxDiskSlots
  | getBlob answered => exact (getBlob_frame answered).maxDiskSlots
  | arenaMut => rfl

end Residency

end Metrale.Storage
