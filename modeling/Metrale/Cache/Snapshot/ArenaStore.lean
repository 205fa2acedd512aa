import Metrale.Foundation.ByteTransfer
import Metrale.Foundation.HashMap
import Metrale.Foundation.Runs
import Metrale.Foundation.SlotOwnership

/-! # The arena store (`ssm_tier/arena_store.rs`)

Blobs of one size, in slots of an arena.  A call of the store is in flight between its locked sections, while
its transport call moves the blob a byte at a time; the calls of other threads go on meanwhile.  A transport
call may fail, whatever it has moved by then.  The counters of `BlobStoreStats` are left out. -/

namespace Metrale.Cache

open Metrale.Foundation

abbrev Blob := List UInt8

abbrev TierKey := UInt64

structure RdmaInner where
  map : HashMap TierKey Nat
  free : List Nat

namespace RdmaInner

/-- The slot for a put, and whether it is a new one.  None refuses the put. -/
def pick (inner : RdmaInner) (key : TierKey) : Option (Nat × Bool × RdmaInner) :=
  match inner.map.lookup key with
  | some slot => some (slot, false, inner)
  | none =>
    match inner.free with
    | [] => none
    | slot :: free => some (slot, true, { inner with free })

def written (inner : RdmaInner) (key : TierKey) (slot : Nat) (wasNew : Bool) : RdmaInner :=
  if wasNew then { inner with map := inner.map.insert key slot } else inner

def remove (inner : RdmaInner) (key : TierKey) : RdmaInner :=
  match inner.map.lookup key with
  | some slot => { map := inner.map.erase key, free := slot :: inner.free }
  | none => inner

-- A put of a mapped key may have overwritten part of the old blob, so the key goes.
def unwritten (inner : RdmaInner) (key : TierKey) (slot : Nat) (wasNew : Bool) : RdmaInner :=
  if wasNew then { inner with free := slot :: inner.free } else inner.remove key

end RdmaInner

/-- A call between its locked sections, and the offsets that its transport call has still to move. -/
inductive InFlight where
  | put (key : TierKey) (bytes : Blob) (slot : Nat) (wasNew : Bool) (pending : List Nat)
  | get (key : TierKey) (slot : Nat) (out : Memory UInt8) (pending : List Nat)

namespace InFlight

def slot : InFlight → Nat
  | .put _ _ slot _ _ => slot
  | .get _ slot _ _ => slot

def writes : InFlight → Bool
  | .put .. => true
  | .get .. => false

def claimed : InFlight → Option Nat
  | .put _ _ slot wasNew _ => if wasNew then some slot else none
  | .get .. => none

end InFlight

/-- `calls` has the call that each thread is in. -/
structure RdmaSnapshotStore where
  transport : Memory UInt8
  blobBytes : Nat
  inner : RdmaInner
  calls : Nat → Option InFlight

namespace RdmaSnapshotStore

def new (transport : Memory UInt8) (blobBytes arenaSlots : Nat) : RdmaSnapshotStore :=
  { transport, blobBytes, inner := { map := ∅, free := List.range arenaSlots }, calls := fun _ => none }

def offsetOf (store : RdmaSnapshotStore) (slot : Nat) : Nat := slot * store.blobBytes

def during (store : RdmaSnapshotStore) (thread : Nat) (call : Option InFlight) : RdmaSnapshotStore :=
  { store with calls := Function.update store.calls thread call }

/-- A get's answer is the blob, or none for `Ok(false)`. -/
inductive Event where
  | pick (thread : Nat) (key : TierKey) (bytes : Blob)
  | put (thread : Nat) (key : TierKey) (bytes : Blob) (answer : Except Unit Bool)
  | find (thread : Nat) (key : TierKey)
  | get (thread : Nat) (key : TierKey) (length : Nat) (answer : Except Unit (Option Blob))
  | transfer (thread : Nat) (offset : Nat)
  | remove (thread : Nat) (key : TierKey)

inductive Step : RdmaSnapshotStore → Event → RdmaSnapshotStore → Prop where
  | refuse {store thread key bytes} (idle : store.calls thread = none)
      (refused : bytes.length ≠ store.blobBytes ∨ store.inner.pick key = none) :
      Step store (.put thread key bytes (.ok false)) store
  -- The lock is let go after each of the two sections, and the transport moves the bytes between them.
  | pick {store thread key bytes slot wasNew inner} (idle : store.calls thread = none)
      (sized : bytes.length = store.blobBytes) (picked : store.inner.pick key = some (slot, wasNew, inner)) :
      Step store (.pick thread key bytes)
        ({ store with inner }.during thread (some (.put key bytes slot wasNew (List.range store.blobBytes))))
  | write {store thread key bytes slot wasNew pending offset byte}
      (flying : store.calls thread = some (.put key bytes slot wasNew pending)) (member : offset ∈ pending)
      (next : bytes[offset]? = some byte) :
      Step store (.transfer thread offset)
        ({ store with transport := Function.update store.transport (store.offsetOf slot + offset) byte }.during thread
          (some (.put key bytes slot wasNew (pending.erase offset))))
  | written {store thread key bytes slot wasNew}
      (flying : store.calls thread = some (.put key bytes slot wasNew [])) :
      Step store (.put thread key bytes (.ok true))
        ({ store with inner := store.inner.written key slot wasNew }.during thread none)
  -- A transport that fails may have moved any part of the bytes.
  | unwritten {store thread key bytes slot wasNew pending}
      (flying : store.calls thread = some (.put key bytes slot wasNew pending)) :
      Step store (.put thread key bytes (.error ()))
        ({ store with inner := store.inner.unwritten key slot wasNew }.during thread none)
  | miss {store thread key length} (idle : store.calls thread = none)
      (missed : length ≠ store.blobBytes ∨ store.inner.map.lookup key = none) :
      Step store (.get thread key length (.ok none)) store
  /-- The caller's buffer may hold anything. -/
  | find {store thread key slot} (out : Memory UInt8) (idle : store.calls thread = none)
      (found : store.inner.map.lookup key = some slot) :
      Step store (.find thread key) (store.during thread (some (.get key slot out (List.range store.blobBytes))))
  | read {store thread key slot out pending offset} (flying : store.calls thread = some (.get key slot out pending))
      (member : offset ∈ pending) (inside : offset < store.blobBytes) :
      Step store (.transfer thread offset)
        (store.during thread
          (some (.get key slot (Function.update out offset (store.transport (store.offsetOf slot + offset)))
            (pending.erase offset))))
  | hit {store thread key slot out} (flying : store.calls thread = some (.get key slot out [])) :
      Step store (.get thread key store.blobBytes (.ok (some (out.slice 0 store.blobBytes))))
        (store.during thread none)
  | unread {store thread key slot out pending}
      (flying : store.calls thread = some (.get key slot out pending)) :
      Step store (.get thread key store.blobBytes (.error ())) (store.during thread none)
  | remove {store thread key} (idle : store.calls thread = none) :
      Step store (.remove thread key) { store with inner := store.inner.remove key }

end RdmaSnapshotStore

end Metrale.Cache
