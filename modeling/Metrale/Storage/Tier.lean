import Metrale.Foundation.HashMap

/-! # The two tiers (`tier/traits.rs`, `tier/mem.rs`)

The arena of slots and the store of records that a residency moves blobs between.  A call answers a
result and leaves a device behind; a read takes `&self`, behind which a device may still change (a
failure switch that a read consumes).  Nothing else is assumed: any call may fail, in any way.  What
the traits document about bytes is `LawfulSlotArena` and `LawfulSwapStore`, which the devices in host
RAM satisfy. -/

namespace Metrale.Storage

open Metrale.Foundation

abbrev Bytes := List UInt8

/-- The message of an `anyhow::Error`. -/
abbrev Error := String

/-- The hot tier.  `outLength` is the length of the buffer that a read fills. -/
class SlotArena (Arena : Type*) where
  slotBytes : Arena → Nat
  numSlots : Arena → Nat
  readSlot : Arena → (slot outLength : Nat) → Except Error Bytes × Arena
  writeSlot : Arena → (slot : Nat) → Bytes → Except Error Unit × Arena

/-- The cold tier. -/
class SwapStore (Store : Type*) where
  recordBytes : Store → Nat
  writeRecord : Store → (diskSlot : Nat) → Bytes → Except Error Unit × Store
  readRecord : Store → (diskSlot outLength : Nat) → Except Error Bytes × Store
  discardRecord : Store → (diskSlot : Nat) → Store := fun store _ => store

/-- A slot holds what was last written to it.  A failed write may leave anything in its own slot. -/
class LawfulSlotArena (Arena : Type*) [SlotArena Arena] where
  contents : Arena → Nat → Bytes
  read_answer : ∀ (arena : Arena) slot outLength bytes,
    (SlotArena.readSlot arena slot outLength).1 = .ok bytes → bytes = contents arena slot
  read_keeps : ∀ (arena : Arena) slot outLength,
    contents (SlotArena.readSlot arena slot outLength).2 = contents arena
  write_stores : ∀ (arena : Arena) slot bytes,
    (SlotArena.writeSlot arena slot bytes).1 = .ok () →
    contents (SlotArena.writeSlot arena slot bytes).2 slot = bytes
  write_keeps : ∀ (arena : Arena) slot bytes other, other ≠ slot →
    contents (SlotArena.writeSlot arena slot bytes).2 other = contents arena other

/-- A record holds what was last written to it, until it is discarded. -/
class LawfulSwapStore (Store : Type*) [SwapStore Store] where
  contents : Store → Nat → Bytes
  read_answer : ∀ (store : Store) diskSlot outLength bytes,
    (SwapStore.readRecord store diskSlot outLength).1 = .ok bytes → bytes = contents store diskSlot
  read_keeps : ∀ (store : Store) diskSlot outLength,
    contents (SwapStore.readRecord store diskSlot outLength).2 = contents store
  write_stores : ∀ (store : Store) diskSlot bytes,
    (SwapStore.writeRecord store diskSlot bytes).1 = .ok () →
    contents (SwapStore.writeRecord store diskSlot bytes).2 diskSlot = bytes
  write_keeps : ∀ (store : Store) diskSlot bytes other, other ≠ diskSlot →
    contents (SwapStore.writeRecord store diskSlot bytes).2 other = contents store other
  discard_keeps : ∀ (store : Store) diskSlot other, other ≠ diskSlot →
    contents (SwapStore.discardRecord store diskSlot) other = contents store other

/-! ## The arena in host RAM -/

/-- `buf[offset..offset + bytes.len()].copy_from_slice(bytes)`. -/
def overwrite (buf : Bytes) (offset : Nat) (bytes : Bytes) : Bytes :=
  buf.take offset ++ bytes ++ buf.drop (offset + bytes.length)

theorem length_overwrite {buf bytes : Bytes} {offset : Nat} (fits : offset + bytes.length ≤ buf.length) :
    (overwrite buf offset bytes).length = buf.length := by
  simp only [overwrite, List.length_append, List.length_take, List.length_drop]
  omega

theorem getElem?_overwrite {buf bytes : Bytes} {offset position : Nat}
    (fits : offset + bytes.length ≤ buf.length) :
    (overwrite buf offset bytes)[position]? =
      if offset ≤ position ∧ position < offset + bytes.length then bytes[position - offset]?
      else buf[position]? := by
  have front : (buf.take offset).length = offset := by
    rw [List.length_take]
    omega
  rw [overwrite, List.append_assoc]
  split
  · next within =>
    rw [List.getElem?_append_right (by omega), front, List.getElem?_append_left (by omega)]
  · next outside =>
    by_cases before : position < offset
    · rw [List.getElem?_append_left (by omega), List.getElem?_take_of_lt before]
    · rw [List.getElem?_append_right (by omega), front, List.getElem?_append_right (by omega),
        List.getElem?_drop]
      congr 1
      omega

/-- One vector of `slotBytes * n` bytes. -/
structure VecSlotArena where
  buf : Bytes
  slotBytes : Nat
  n : Nat
  sized : buf.length = slotBytes * n

namespace VecSlotArena

def new (slotBytes numSlots : Nat) : VecSlotArena where
  buf := List.replicate (slotBytes * numSlots) 0
  slotBytes := slotBytes
  n := numSlots
  sized := List.length_replicate

/-- `buf[o..o + slot_bytes]`, with `o = slot * slot_bytes`. -/
def slice (arena : VecSlotArena) (slot : Nat) : Bytes :=
  (arena.buf.drop (slot * arena.slotBytes)).take arena.slotBytes

theorem fits {arena : VecSlotArena} {slot : Nat} (within : slot < arena.n) :
    slot * arena.slotBytes + arena.slotBytes ≤ arena.buf.length := by
  rw [arena.sized, Nat.mul_comm arena.slotBytes, ← Nat.succ_mul]
  exact Nat.mul_le_mul_right _ within

instance : SlotArena VecSlotArena where
  slotBytes := slotBytes
  numSlots := n
  readSlot arena slot outLength :=
    if slot < arena.n ∧ outLength = arena.slotBytes then (.ok (arena.slice slot), arena)
    else (.error s!"VecSlotArena::read_slot({slot}) out of range / size mismatch", arena)
  writeSlot arena slot bytes :=
    if within : slot < arena.n ∧ bytes.length = arena.slotBytes then
      (.ok (), { arena with
        buf := overwrite arena.buf (slot * arena.slotBytes) bytes
        sized := by rw [length_overwrite (within.2.symm ▸ fits within.1), arena.sized] })
    else (.error s!"VecSlotArena::write_slot({slot}) out of range / size mismatch", arena)

theorem getElem?_slice (arena : VecSlotArena) (slot position : Nat) :
    (arena.slice slot)[position]? =
      if position < arena.slotBytes then arena.buf[slot * arena.slotBytes + position]? else none := by
  rw [slice, List.getElem?_take]
  split
  · rw [List.getElem?_drop]
  · rfl

theorem disjoint {slot other width position : Nat} (differs : other ≠ slot) (within : position < width) :
    ¬ (slot * width ≤ other * width + position ∧ other * width + position < slot * width + width) := by
  rintro ⟨low, high⟩
  obtain smaller | larger := Nat.lt_or_gt_of_ne differs
  · have gap : (other + 1) * width ≤ slot * width := Nat.mul_le_mul_right width smaller
    rw [Nat.succ_mul] at gap
    omega
  · have gap : (slot + 1) * width ≤ other * width := Nat.mul_le_mul_right width larger
    rw [Nat.succ_mul] at gap
    omega

instance : LawfulSlotArena VecSlotArena where
  contents := slice
  read_answer := by
    intro arena slot outLength bytes answered
    simp only [SlotArena.readSlot] at answered
    split at answered
    · cases answered
      rfl
    · cases answered
  read_keeps := by
    intro arena slot outLength
    simp only [SlotArena.readSlot]
    split <;> rfl
  write_stores := by
    intro arena slot bytes answered
    simp only [SlotArena.writeSlot] at answered ⊢
    split at answered
    · next within =>
      rw [dif_pos within]
      refine List.ext_getElem? fun position => ?_
      rw [getElem?_slice]
      dsimp only
      rw [getElem?_overwrite (within.2.symm ▸ fits within.1)]
      by_cases inside : position < arena.slotBytes
      · rw [if_pos inside, if_pos (by omega), Nat.add_sub_cancel_left]
      · rw [if_neg inside, List.getElem?_eq_none (by omega)]
    · cases answered
  write_keeps := by
    intro arena slot bytes other differs
    simp only [SlotArena.writeSlot]
    split
    · next within =>
      refine List.ext_getElem? fun position => ?_
      rw [getElem?_slice, getElem?_slice, getElem?_overwrite (within.2.symm ▸ fits within.1)]
      by_cases inside : position < arena.slotBytes
      · rw [if_pos inside, if_pos inside, within.2, if_neg (disjoint differs inside)]
      · rw [if_neg inside, if_neg inside]
    · rfl

end VecSlotArena

/-! ## The store in host RAM -/

structure MemSwapStore where
  recs : HashMap Nat Bytes
  recordBytes : Nat

namespace MemSwapStore

def new (recordBytes : Nat) : MemSwapStore := ⟨∅, recordBytes⟩

instance : SwapStore MemSwapStore where
  recordBytes := recordBytes
  writeRecord store diskSlot bytes :=
    if bytes.length ≠ store.recordBytes then
      (.error s!"MemSwapStore::write_record: {bytes.length} bytes, expected {store.recordBytes}", store)
    else (.ok (), { store with recs := store.recs.insert diskSlot bytes })
  readRecord store diskSlot outLength :=
    match store.recs.lookup diskSlot with
    | some record =>
      -- `copy_from_slice` panics on another length; a residency's buffer is a record long.
      if record.length = outLength then (.ok record, store)
      else (.error "copy_from_slice: source slice length does not match destination slice length", store)
    | none => (.error s!"MemSwapStore: no record {diskSlot}", store)
  discardRecord store diskSlot := { store with recs := store.recs.erase diskSlot }

instance : LawfulSwapStore MemSwapStore where
  contents store diskSlot := (store.recs.lookup diskSlot).getD []
  read_answer := by
    intro store diskSlot outLength bytes answered
    simp only [SwapStore.readRecord] at answered
    split at answered
    · next record stored =>
      split at answered
      · cases answered
        rw [stored, Option.getD_some]
      · cases answered
    · cases answered
  read_keeps := by
    intro store diskSlot outLength
    simp only [SwapStore.readRecord]
    split
    · split <;> rfl
    · rfl
  write_stores := by
    intro store diskSlot bytes answered
    simp only [SwapStore.writeRecord] at answered ⊢
    split at answered
    · cases answered
    · next sized => rw [if_neg sized, HashMap.lookup_insert_if, if_pos rfl, Option.getD_some]
  write_keeps := by
    intro store diskSlot bytes other differs
    simp only [SwapStore.writeRecord]
    split
    · rfl
    · rw [HashMap.lookup_insert_if, if_neg differs]
  discard_keeps := by
    intro store diskSlot other differs
    simp only [SwapStore.discardRecord]
    rw [HashMap.lookup_erase_if, if_neg differs]

end MemSwapStore

/-! ## Watched devices -/

structure Watched (Device : Type*) where
  device : Device
  failed : Bool

namespace Watched

variable {Device Answer : Type*}

def watch (device : Device) : Watched Device := ⟨device, false⟩

def observe (before : Watched Device) : Except Error Answer × Device → Except Error Answer × Watched Device
  | (.ok answer, device) => (.ok answer, ⟨device, before.failed⟩)
  | (.error error, device) => (.error error, ⟨device, true⟩)

theorem observe_fst (before : Watched Device) (outcome : Except Error Answer × Device) :
    (before.observe outcome).1 = outcome.1 := by
  obtain ⟨answer, device⟩ := outcome
  cases answer <;> rfl

theorem observe_device (before : Watched Device) (outcome : Except Error Answer × Device) :
    (before.observe outcome).2.device = outcome.2 := by
  obtain ⟨answer, device⟩ := outcome
  cases answer <;> rfl

theorem failed_of_error {before after : Watched Device} {outcome : Except Error Answer × Device}
    {error : Error} (observed : before.observe outcome = (.error error, after)) : after.failed = true := by
  obtain ⟨answer, device⟩ := outcome
  cases answer <;> cases observed
  rfl

instance [SlotArena Device] : SlotArena (Watched Device) where
  slotBytes watched := SlotArena.slotBytes watched.device
  numSlots watched := SlotArena.numSlots watched.device
  readSlot watched slot outLength := watched.observe (SlotArena.readSlot watched.device slot outLength)
  writeSlot watched slot bytes := watched.observe (SlotArena.writeSlot watched.device slot bytes)

instance [SwapStore Device] : SwapStore (Watched Device) where
  recordBytes watched := SwapStore.recordBytes watched.device
  writeRecord watched diskSlot bytes :=
    watched.observe (SwapStore.writeRecord watched.device diskSlot bytes)
  readRecord watched diskSlot outLength :=
    watched.observe (SwapStore.readRecord watched.device diskSlot outLength)
  discardRecord watched diskSlot :=
    ⟨SwapStore.discardRecord watched.device diskSlot, watched.failed⟩

instance [SlotArena Device] [LawfulSlotArena Device] : LawfulSlotArena (Watched Device) where
  contents watched := LawfulSlotArena.contents watched.device
  read_answer watched slot outLength bytes answered :=
    LawfulSlotArena.read_answer watched.device slot outLength bytes (observe_fst watched _ ▸ answered)
  read_keeps watched slot outLength :=
    (congrArg _ (observe_device watched _)).trans (LawfulSlotArena.read_keeps watched.device slot outLength)
  write_stores watched slot bytes answered := by
    simp only [SlotArena.writeSlot, observe_fst, observe_device] at answered ⊢
    exact LawfulSlotArena.write_stores watched.device slot bytes answered
  write_keeps watched slot bytes other differs := by
    simp only [SlotArena.writeSlot, observe_device]
    exact LawfulSlotArena.write_keeps watched.device slot bytes other differs

instance [SwapStore Device] [LawfulSwapStore Device] : LawfulSwapStore (Watched Device) where
  contents watched := LawfulSwapStore.contents watched.device
  read_answer watched diskSlot outLength bytes answered :=
    LawfulSwapStore.read_answer watched.device diskSlot outLength bytes (observe_fst watched _ ▸ answered)
  read_keeps watched diskSlot outLength :=
    (congrArg _ (observe_device watched _)).trans
      (LawfulSwapStore.read_keeps watched.device diskSlot outLength)
  write_stores watched diskSlot bytes answered := by
    simp only [SwapStore.writeRecord, observe_fst, observe_device] at answered ⊢
    exact LawfulSwapStore.write_stores watched.device diskSlot bytes answered
  write_keeps watched diskSlot bytes other differs := by
    simp only [SwapStore.writeRecord, observe_device]
    exact LawfulSwapStore.write_keeps watched.device diskSlot bytes other differs
  discard_keeps watched diskSlot other differs :=
    LawfulSwapStore.discard_keeps watched.device diskSlot other differs

end Watched

end Metrale.Storage
