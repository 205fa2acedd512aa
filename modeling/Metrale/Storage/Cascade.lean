import Metrale.Storage.HighSpeedSwap

/-! # The write-back cascade (`cascade_policy.rs`, `cascade_backend.rs`)

Writes land in slots of host memory; the least recently used group is written down to the backing when
these are full.  A read copies hits out of their slots and forwards misses.  The copies of an async read are
queued on its stream, and each reads its slot when its turn comes.  The backing is what it holds of each
group: its writes and reads may fail, and a failed write may leave anything of its group. -/

namespace Metrale.Storage

open Metrale.Foundation

structure WritePlan where
  slot : Nat
  flushVictim : Option (GroupKey × Nat)

structure SlotCache where
  capSlots : Nat
  lookup : HashMap GroupKey Nat
  slotKey : List (Option GroupKey)
  free : List Nat
  lru : List Nat

namespace SlotCache

def new (capSlots : Nat) : SlotCache :=
  { capSlots, lookup := ∅, slotKey := .replicate capSlots none, free := List.range capSlots, lru := [] }

def moveToBack (cache : SlotCache) (slot : Nat) : SlotCache :=
  { cache with lru := cache.lru.erase slot ++ [slot] }

def touch (cache : SlotCache) (slot : Nat) : SlotCache := cache.moveToBack slot

def install (cache : SlotCache) (key : GroupKey) (slot : Nat) : SlotCache :=
  { cache with
    lookup := cache.lookup.insert key slot
    slotKey := cache.slotKey.set slot (some key)
    lru := cache.lru ++ [slot] }

/-- None is a panic: a full cache without a least recently used slot, or one without a key. -/
def planWrite (cache : SlotCache) (key : GroupKey) : Option (WritePlan × SlotCache) :=
  match cache.lookup.lookup key with
  | some slot => some (⟨slot, none⟩, cache.moveToBack slot)
  | none =>
    match cache.free with
    | slot :: free => some (⟨slot, none⟩, { cache with free }.install key slot)
    | [] =>
      match cache.lru with
      | [] => none
      | victimSlot :: lru =>
        match cache.slotKey.getD victimSlot none with
        | none => none
        | some victimKey =>
          -- The plan is made before the victim is flushed: from here on the cache has forgotten it.
          let vacated :=
            { cache with
              lru
              slotKey := cache.slotKey.set victimSlot none
              lookup := cache.lookup.erase victimKey }
          some (⟨victimSlot, some (victimKey, victimSlot)⟩, vacated.install key victimSlot)

def planRead (cache : SlotCache) (keys : List GroupKey) : List (Nat × Nat) × List Nat :=
  (keys.zipIdx.filterMap fun (key, i) => (cache.lookup.lookup key).map fun slot => (i, slot),
    keys.zipIdx.filterMap fun (key, i) => if (cache.lookup.lookup key).isNone then some i else none)

end SlotCache

abbrev Stream := UInt64

/-- A queued copy of a group out of its slot, for an async read that succeeded. -/
structure Copy where
  stream : Stream
  slot : Nat
  group : GroupKey
deriving DecidableEq

/-- `lastReadEvent` is the stream it was recorded on: all that was queued there before it is done when it
is. -/
structure CascadeBackend where
  hot : SlotCache
  store : Memory UInt8
  groupBytes : Nat
  backing : GroupKey → Bytes
  lastReadEvent : Option Stream
  pending : List Copy

inductive CascadeFailure where
  | flush
  | sync
  | read
deriving DecidableEq

namespace CascadeBackend

def new (capSlots groupBytes : Nat) (store : Memory UInt8) (backing : GroupKey → Bytes) : CascadeBackend :=
  { hot := .new capSlots, store, groupBytes, backing, lastReadEvent := none, pending := [] }

def slotBytes (cascade : CascadeBackend) (slot : Nat) : Bytes :=
  cascade.store.slice (slot * cascade.groupBytes) cascade.groupBytes

def flushed (cascade : CascadeBackend) (plan : WritePlan) : GroupKey → Bytes :=
  match plan.flushVictim with
  | some (victimKey, victimSlot) => Function.update cascade.backing victimKey (cascade.slotBytes victimSlot)
  | none => cascade.backing

def touchAll (hot : SlotCache) (hits : List (Nat × Nat)) : SlotCache :=
  hits.foldl (fun hot hit => hot.touch hit.2) hot

def groupsOf (requests : List ReadRequest) : List GroupKey := requests.map ReadRequest.group

def hitBytes (cascade : CascadeBackend) (requests : List ReadRequest) : List (GroupKey × Bytes) :=
  (cascade.hot.planRead (groupsOf requests)).1.filterMap fun (i, slot) =>
    requests[i]?.map fun request => (request.group, cascade.slotBytes slot)

def missBytes (cascade : CascadeBackend) (requests : List ReadRequest) : List (GroupKey × Bytes) :=
  (cascade.hot.planRead (groupsOf requests)).2.filterMap fun i =>
    requests[i]?.map fun request => (request.group, cascade.backing request.group)

def hitCopies (cascade : CascadeBackend) (stream : Stream) (requests : List ReadRequest) : List Copy :=
  (cascade.hot.planRead (groupsOf requests)).1.filterMap fun (i, slot) =>
    requests[i]?.map fun request => ⟨stream, slot, request.group⟩

inductive Event where
  | write (key : GroupKey) (src : Bytes) (answer : Except CascadeFailure Unit)
  | read (stream : Stream) (requests : List ReadRequest) (answer : Except CascadeFailure (List (GroupKey × Bytes)))
  | readAsync (stream : Stream) (requests : List ReadRequest)
      (answer : Except CascadeFailure (List (GroupKey × Bytes)))
  /-- A queued copy is done. -/
  | deliver (copy : Copy) (bytes : Bytes)

def Drained (cascade : CascadeBackend) (stream : Stream) : Prop := ∀ copy ∈ cascade.pending, copy.stream ≠ stream

inductive Step : CascadeBackend → Event → CascadeBackend → Prop where
  -- `write_group` plans, flushes the victim, waits for the last read's event and copies, in this order.
  | write {cascade key src plan hot} (planned : cascade.hot.planWrite key = some (plan, hot))
      (sized : src.length = cascade.groupBytes)
      (synced : ∀ stream, cascade.lastReadEvent = some stream → cascade.Drained stream) :
      Step cascade (.write key src (.ok ()))
        { cascade with
          hot
          backing := cascade.flushed plan
          lastReadEvent := none
          store := cascade.store.copyFromSlice (plan.slot * cascade.groupBytes) src }
  | unflushed {cascade key src plan hot victimKey victimSlot}
      (planned : cascade.hot.planWrite key = some (plan, hot))
      (victim : plan.flushVictim = some (victimKey, victimSlot)) (left : Bytes) :
      Step cascade (.write key src (.error .flush))
        { cascade with hot, backing := Function.update cascade.backing victimKey left }
  -- The event is taken out before it is waited for.
  | unsynced {cascade key src plan hot stream} (planned : cascade.hot.planWrite key = some (plan, hot))
      (recorded : cascade.lastReadEvent = some stream) :
      Step cascade (.write key src (.error .sync))
        { cascade with hot, backing := cascade.flushed plan, lastReadEvent := none }
  | read {cascade stream requests} (synced : cascade.Drained stream) :
      Step cascade (.read stream requests (.ok (cascade.hitBytes requests ++ cascade.missBytes requests)))
        { cascade with hot := touchAll cascade.hot (cascade.hot.planRead (groupsOf requests)).1 }
  /-- A copy fails, with some hits touched, or the backing or the stream does, with all. -/
  | unread {cascade stream requests} (touched : Nat) :
      Step cascade (.read stream requests (.error .read))
        { cascade with hot := touchAll cascade.hot ((cascade.hot.planRead (groupsOf requests)).1.take touched) }
  /-- The misses are the backing's to deliver. -/
  | readAsync {cascade stream requests} :
      Step cascade (.readAsync stream requests (.ok (cascade.missBytes requests)))
        { cascade with
          hot := touchAll cascade.hot (cascade.hot.planRead (groupsOf requests)).1
          lastReadEvent :=
            if (cascade.hot.planRead (groupsOf requests)).1 = [] then cascade.lastReadEvent else some stream
          pending := cascade.pending ++ cascade.hitCopies stream requests }
  /-- A copy or the event fails. -/
  | unrecorded {cascade stream requests} (touched : Nat) :
      Step cascade (.readAsync stream requests (.error .read))
        { cascade with hot := touchAll cascade.hot ((cascade.hot.planRead (groupsOf requests)).1.take touched) }
  /-- The backing fails, once the event is recorded. -/
  | missed {cascade stream requests} :
      Step cascade (.readAsync stream requests (.error .read))
        { cascade with
          hot := touchAll cascade.hot (cascade.hot.planRead (groupsOf requests)).1
          lastReadEvent :=
            if (cascade.hot.planRead (groupsOf requests)).1 = [] then cascade.lastReadEvent else some stream }
  | deliver {cascade copy} (queued : copy ∈ cascade.pending) :
      Step cascade (.deliver copy (cascade.slotBytes copy.slot))
        { cascade with pending := cascade.pending.erase copy }

end CascadeBackend

end Metrale.Storage
