import Metrale.Server.StoredMessages

/-! # Stored responses (`response_store.rs`, `response_store/store_impl.rs`)

The entries in memory, and the files that a thread writes from a queue.  `insert` hands its entry to the queue before
it takes the lock, so it is two steps, and each round of its eviction loop is one more; the other calls hold the lock
throughout.  Any step of the thread may fall between two of these.

A file holds the entry that was written to it.  `reread` is what `serde_json` reads where it has written a value. -/

namespace Metrale.Server

open Metrale.Foundation

structure StoredEntry where
  id : String
  kind : StoredKind
  model : String
  createdAt : Nat
  messages : List IncomingMessage
  body : Value
  lastAccess : Nat

structure DiskEntry where
  id : String
  kind : StoredKind
  model : String
  createdAt : Nat
  messages : Value
  body : Value
  persistedAtUnix : Nat

structure GetResult where
  model : String
  createdAt : Nat
  messages : List IncomingMessage
  body : Value

/-! ## The files -/

def diskQueueDepth : Nat := 1024

inductive DiskOp where
  | persist (disk : DiskEntry)
  | forget (id : String)

/-- The files go by their stems.  `working` is what the thread has taken from the queue and not yet done. -/
structure FilesystemBackend where
  files : HashMap String DiskEntry
  queue : List DiskOp
  working : Option DiskOp

def DiskOp.run : DiskOp → HashMap String DiskEntry → HashMap String DiskEntry
  | persist disk, files => files.insert (sanitizeId disk.id) disk
  | forget id, files => files.erase (sanitizeId id)

def StoredEntry.toDisk (entry : StoredEntry) (nowUnix : Nat) : DiskEntry :=
  ⟨entry.id, entry.kind, entry.model, entry.createdAt, messagesToDiskJson entry.messages, entry.body, nowUnix⟩

structure FileAnswers where
  read : Bool
  removed : Bool

/-- A duration in seconds; the clock of the process counts nanoseconds. -/
def asSecs (duration : Nat) : Nat := duration / 1000000000

namespace FilesystemBackend

def empty : FilesystemBackend := ⟨∅, [], none⟩

/-- Only an operation that finds the queue full is done at once, and then `worked` says whether it works. -/
def submit (backend : FilesystemBackend) (op : DiskOp) (worked : Bool) : FilesystemBackend :=
  if backend.queue.length < diskQueueDepth then { backend with queue := backend.queue ++ [op] }
  else if worked then { backend with files := op.run backend.files }
  else backend

def persist (backend : FilesystemBackend) (entry : StoredEntry) (nowUnix : Nat) (worked : Bool) : FilesystemBackend :=
  backend.submit (.persist (entry.toDisk nowUnix)) worked

def forget (backend : FilesystemBackend) (id : String) (worked : Bool) : FilesystemBackend :=
  backend.submit (.forget id) worked

def receive (backend : FilesystemBackend) : FilesystemBackend :=
  match backend.working, backend.queue with
  | none, op :: queue => { backend with queue, working := some op }
  | _, _ => backend

def finish (backend : FilesystemBackend) (worked : Bool) : FilesystemBackend :=
  match backend.working with
  | none => backend
  | some op => { backend with working := none, files := if worked then op.run backend.files else backend.files }

def drained (backend : FilesystemBackend) : Bool := backend.queue.isEmpty && backend.working.isNone

end FilesystemBackend

section Replay

variable (reread : Value → Option Value)

/-- `from_slice` of what `to_vec` wrote. -/
def DiskEntry.fromSlice (disk : DiskEntry) : Option DiskEntry := do
  let messages ← reread disk.messages
  let body ← reread disk.body
  some { disk with messages, body }

def DiskEntry.stale (disk : DiskEntry) (ttl nowUnix : Nat) : Bool := decide (asSecs ttl < nowUnix - disk.persistedAtUnix)

def replayFile (disk : DiskEntry) (ttl nowUnix now : Nat) : Option StoredEntry := do
  let disk ← disk.fromSlice reread
  if disk.stale ttl nowUnix then none
  else
    let messages ← messagesFromValue disk.messages
    some ⟨disk.id, disk.kind, disk.model, disk.createdAt, messages, disk.body, now⟩

def dropsFile (disk : DiskEntry) (ttl nowUnix : Nat) : Bool :=
  match disk.fromSlice reread with
  | none => false
  | some disk => disk.stale ttl nowUnix

namespace FilesystemBackend

/-- `listing` names the files in the order in which the directory lists them. -/
def replay (backend : FilesystemBackend) (listing : List String) (answers : String → FileAnswers)
    (ttl nowUnix now : Nat) : List StoredEntry :=
  listing.filterMap fun stem =>
    if (answers stem).read then
      (backend.files.lookup stem).bind fun disk => replayFile reread disk ttl nowUnix now
    else none

def replayed (backend : FilesystemBackend) (answers : String → FileAnswers) (ttl nowUnix : Nat) : FilesystemBackend :=
  { backend with files := backend.files.filter fun stem disk =>
      !((answers stem).read && (answers stem).removed && dropsFile reread disk ttl nowUnix) }

end FilesystemBackend

end Replay

/-! ## The entries in memory -/

structure Inner where
  map : HashMap String StoredEntry
  order : List String

namespace Inner

def empty : Inner := ⟨∅, []⟩

def rebuild : Inner → List StoredEntry → Inner
  | inner, [] => inner
  | inner, entry :: entries => rebuild ⟨inner.map.insert entry.id entry, inner.order ++ [entry.id]⟩ entries

def drop (inner : Inner) (id : String) : Inner := ⟨inner.map.erase id, inner.order.filter (· != id)⟩

/-- `insert`, up to its eviction loop. -/
def insert (inner : Inner) (entry : StoredEntry) : Inner :=
  ⟨inner.map.insert entry.id entry,
    (if entry.id ∈ inner.map then inner.order.filter (· != entry.id) else inner.order) ++ [entry.id]⟩

def refresh (inner : Inner) (id : String) (entry : StoredEntry) (now : Nat) : Inner :=
  ⟨inner.map.insert id { entry with lastAccess := now }, inner.order.filter (· != id) ++ [id]⟩

end Inner

def StoredEntry.expired (entry : StoredEntry) (ttl now : Nat) : Bool := decide (ttl < now - entry.lastAccess)

/-- `ResponseStore`.  `inserting` holds the entries whose `insert` has yet to take the lock; while `evicting`, an
`insert` holds it in its loop. -/
structure ResponseStore where
  ttl : Nat
  maxEntries : Nat
  inner : Inner
  backend : FilesystemBackend
  inserting : List StoredEntry
  evicting : Bool

namespace ResponseStore

def start (ttl maxEntries : Nat) : ResponseStore := ⟨ttl, maxEntries, .empty, .empty, [], false⟩

def persist (store : ResponseStore) (entry : StoredEntry) (nowUnix : Nat) (worked : Bool) : ResponseStore :=
  { store with backend := store.backend.persist entry nowUnix worked, inserting := store.inserting ++ [entry] }

/-- The condition of the eviction loop, and whether there is anything to evict. -/
def overfull (maxEntries : Nat) (inner : Inner) : Bool := decide (maxEntries < inner.map.keys.length) && !inner.order.isEmpty

def insertLocked (store : ResponseStore) (index : Nat) : ResponseStore :=
  match store.inserting[index]? with
  | none => store
  | some entry =>
    let inner := store.inner.insert entry
    { store with inner, inserting := store.inserting.eraseIdx index, evicting := overfull store.maxEntries inner }

def evictOldest (store : ResponseStore) (worked : Bool) : ResponseStore :=
  match store.inner.order with
  | [] => { store with evicting := false }
  | oldest :: order =>
    let inner : Inner := ⟨store.inner.map.erase oldest, order⟩
    { store with inner, backend := store.backend.forget oldest worked, evicting := overfull store.maxEntries inner }

def remove (store : ResponseStore) (id : String) (worked : Bool) : ResponseStore :=
  { store with inner := store.inner.drop id, backend := store.backend.forget id worked }

def get (store : ResponseStore) (id : String) (kind : StoredKind) (now : Nat) (worked : Bool) :
    ResponseStore × Option GetResult :=
  match store.inner.map.lookup id with
  | none => (store, none)
  | some entry =>
    if entry.kind ≠ kind then (store, none)
    else if entry.expired store.ttl now then (store.remove id worked, none)
    else ({ store with inner := store.inner.refresh id entry now },
      some ⟨entry.model, entry.createdAt, entry.messages, entry.body⟩)

def delete (store : ResponseStore) (id : String) (kind : StoredKind) (worked : Bool) : ResponseStore × Bool :=
  if ((store.inner.map.lookup id).map fun entry => decide (entry.kind = kind)).getD false then
    (store.remove id worked, true)
  else (store, false)

/-- `from_env` over the directory that the store has left. -/
def reopen (reread : Value → Option Value) (store : ResponseStore) (listing : List String)
    (answers : String → FileAnswers) (nowUnix now : Nat) : ResponseStore :=
  { store with
    inner := Inner.empty.rebuild (store.backend.replay reread listing answers store.ttl nowUnix now)
    backend := store.backend.replayed reread answers store.ttl nowUnix }

def settled (store : ResponseStore) : Bool :=
  store.inserting.isEmpty && !store.evicting && store.backend.drained

end ResponseStore

/-! ## Runs -/

inductive StoreStep where
  | persist (entry : StoredEntry) (nowUnix : Nat) (worked : Bool)
  | insertLocked (index : Nat)
  | evictOldest (worked : Bool)
  | get (id : String) (kind : StoredKind) (now : Nat) (worked : Bool)
  | delete (id : String) (kind : StoredKind) (worked : Bool)
  | receive
  | finish (worked : Bool)
  | restart (listing : List String) (answers : String → FileAnswers) (nowUnix now : Nat)

namespace ResponseStore

/-- A step that waits for the lock, or for a drained queue, does nothing until then. -/
def advance (reread : Value → Option Value) (store : ResponseStore) : StoreStep → ResponseStore
  | .persist entry nowUnix worked => store.persist entry nowUnix worked
  | .insertLocked index => if store.evicting then store else store.insertLocked index
  | .evictOldest worked => if store.evicting then store.evictOldest worked else store
  | .get id kind now worked => if store.evicting then store else (store.get id kind now worked).1
  | .delete id kind worked => if store.evicting then store else (store.delete id kind worked).1
  | .receive => { store with backend := store.backend.receive }
  | .finish worked => { store with backend := store.backend.finish worked }
  | .restart listing answers nowUnix now =>
    if store.settled ∧ listing.Perm store.backend.files.keys then store.reopen reread listing answers nowUnix now
    else store

end ResponseStore

end Metrale.Server
