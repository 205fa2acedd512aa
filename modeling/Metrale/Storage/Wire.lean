import Metrale.Foundation.Runs
import Metrale.Storage.Residency

/-! # The paging control protocol, the peer's half (`snapshot_swap/wire.rs`)

Any number of connections share one residency.  A connection's loop is a program counter; the mutex
makes each `handle_paging_op`, and each release of a pin on the way out, one step, and between them the
loops interleave as they like.  Blobs move over one-sided RDMA, so the bytes of the arena may change at
any time.  The loop over a residency of its own (`run_paging_loop`) is the case of one connection.  The
byte layout of requests and replies is left out: a request is its op and key. -/

namespace Metrale.Storage

open Metrale.Foundation

abbrev Op := UInt8

def opBye : Op := 0
def opAlloc : Op := 1
def opCommit : Op := 2
def opGet : Op := 3
def opRemove : Op := 4

inductive PagingReply where
  | located (offset : Nat)
  | ok
  | miss
  | err
  | bye
deriving DecidableEq

namespace Residency

variable {Arena Store : Type*}

/-- `slot * blob_bytes`; the arena is memory, so no offset into it overflows. -/
def slotOffset (table : Residency Arena Store) (slot : Nat) : Nat := slot * table.blobBytes

def readPinCount (table : Residency Arena Store) (key : Key) : UInt32 :=
  (table.readPins.lookup key).getD 0

variable [SlotArena Arena] [SwapStore Store]

def dispatch (table : Residency Arena Store) (op : Op) (key : Key) :
    PagingReply × Residency Arena Store :=
  if op = opBye then (.bye, table)
  else if op = opAlloc then
    match table.alloc key with
    | (.ok slot, table) => (.located (table.slotOffset slot), table)
    | (.error _, table) => (.err, table)
  else if op = opCommit then
    match table.commit key with
    | (.ok (), table) => (.ok, table)
    | (.error _, table) => (.err, table)
  else if op = opGet then
    match table.locate key with
    | (.ok (some slot), table) => (.located (table.slotOffset slot), table)
    | (.ok none, table) => (.miss, table)
    | (.error _, table) => (.err, table)
  else if op = opRemove then (.ok, table.remove key)
  else (.err, table)

def releasePin (pinned : Option Key) (table : Residency Arena Store) : Residency Arena Store :=
  match pinned with
  | some prev => table.unpinRead prev
  | none => table

def handlePagingOp (table : Residency Arena Store) (op : Op) (key : Key) (pinned : Option Key) :
    PagingReply × Option Key × Residency Arena Store :=
  match (table.releasePin pinned).dispatch op key with
  | (.located offset, table) =>
    if op = opGet then (.located offset, some key, table.pinRead key) else (.located offset, none, table)
  | (reply, table) => (reply, none, table)

end Residency

/-- Where a connection's loop stands: before a read of the stream, before the mutex, before a write, or
returned, with `Ok` or through `?`. -/
inductive Phase where
  | readingOp
  | readingKey (op : Op)
  | locking (op : Op) (key : Key)
  | replying (reply : PagingReply)
  | leaving
  | returned
  | failed
deriving DecidableEq

/-- `pinned` is the loop's local variable, as it last was. -/
structure Connection where
  phase : Phase
  pinned : Option Key

structure Peer (Arena Store : Type*) where
  table : Residency Arena Store
  connections : List Connection

namespace Peer

variable {Arena Store : Type*}

def set (peer : Peer Arena Store) (id : Nat) (connection : Connection) : Peer Arena Store :=
  { peer with connections := peer.connections.set id connection }

theorem set_at {peer : Peer Arena Store} {id : Nat} (connection : Connection)
    (bound : id < peer.connections.length) :
    (peer.set id connection).connections[id]? = some connection :=
  List.getElem?_set_self bound

theorem set_set (peer : Peer Arena Store) (id : Nat) (connection later : Connection) :
    (peer.set id connection).set id later = peer.set id later := by
  rw [set, set, set, List.set_set]

inductive Event where
  | accept
  | readOp (id : Nat) (op : Option Op)
  | readKey (id : Nat) (key : Option Key)
  | handle (id : Nat) (op : Op) (key : Key) (reply : PagingReply)
  | writeReply (id : Nat) (written : Bool)
  | leave (id : Nat)
  | rdma

variable [SlotArena Arena] [SwapStore Store]

inductive Step : Peer Arena Store → Event → Peer Arena Store → Prop where
  | accept {peer} : Step peer .accept { peer with connections := peer.connections ++ [⟨.readingOp, none⟩] }
  | readOp {peer id pinned} {op : Op} (at_ : peer.connections[id]? = some ⟨.readingOp, pinned⟩) :
      Step peer (.readOp id (some op))
        (peer.set id ⟨if op = opBye then .leaving else .readingKey op, pinned⟩)
  | hangUp {peer id pinned} (at_ : peer.connections[id]? = some ⟨.readingOp, pinned⟩) :
      Step peer (.readOp id none) (peer.set id ⟨.leaving, pinned⟩)
  | readKey {peer id op pinned key} (at_ : peer.connections[id]? = some ⟨.readingKey op, pinned⟩) :
      Step peer (.readKey id (some key)) (peer.set id ⟨.locking op key, pinned⟩)
  | failRead {peer id op pinned} (at_ : peer.connections[id]? = some ⟨.readingKey op, pinned⟩) :
      Step peer (.readKey id none) (peer.set id ⟨.failed, pinned⟩)
  | handle {peer id op key pinned reply pinned' table}
      (at_ : peer.connections[id]? = some ⟨.locking op key, pinned⟩)
      (handled : peer.table.handlePagingOp op key pinned = (reply, pinned', table)) :
      Step peer (.handle id op key reply) ({ peer with table }.set id ⟨.replying reply, pinned'⟩)
  | writeReply {peer id reply pinned} (at_ : peer.connections[id]? = some ⟨.replying reply, pinned⟩) :
      Step peer (.writeReply id true) (peer.set id ⟨.readingOp, pinned⟩)
  | failWrite {peer id reply pinned} (at_ : peer.connections[id]? = some ⟨.replying reply, pinned⟩) :
      Step peer (.writeReply id false) (peer.set id ⟨.failed, pinned⟩)
  | leave {peer id pinned} (at_ : peer.connections[id]? = some ⟨.leaving, pinned⟩) :
      Step peer (.leave id)
        ({ peer with table := peer.table.releasePin pinned }.set id ⟨.returned, none⟩)
  | rdma {peer} (arena : Arena) : Step peer .rdma { peer with table := { peer.table with arena } }

/-! ## Whole requests -/

def request (id : Nat) (op : Op) (key : Key) (reply : PagingReply) : List Event :=
  [.readOp id (some op), .readKey id (some key), .handle id op key reply, .writeReply id true]

theorem run_guarded_request {guard : Peer Arena Store → Event → Prop} {peer : Peer Arena Store}
    {reply : PagingReply} {pinned pinned' : Option Key} {table : Residency Arena Store} (id : Nat) (op : Op)
    (key : Key) (at_ : peer.connections[id]? = some ⟨.readingOp, pinned⟩)
    (stays : op ≠ opBye) (handled : peer.table.handlePagingOp op key pinned = (reply, pinned', table))
    (allowed : ∀ middle, ∀ event ∈ request id op key reply,
      (event = .handle id op key reply → middle.table = peer.table) → guard middle event) :
    Run (Guarded guard Step) peer (request id op key reply)
      ({ peer with table }.set id ⟨.readingOp, pinned'⟩) := by
  have bound := (List.getElem?_eq_some_iff.mp at_).1
  have opRead : Step peer (.readOp id (some op)) (peer.set id ⟨.readingKey op, pinned⟩) := by
    have read : Step peer (.readOp id (some op)) _ := .readOp at_
    rwa [if_neg stays] at read
  have keyRead : Step (peer.set id ⟨.readingKey op, pinned⟩) (.readKey id (some key)) _ :=
    .readKey (set_at _ bound)
  have handled : Step (peer.set id ⟨.locking op key, pinned⟩) (.handle id op key reply) _ :=
    .handle (set_at _ bound) handled
  have replied : Step ({ peer with table }.set id ⟨.replying reply, pinned'⟩) (.writeReply id true) _ :=
    .writeReply (set_at _ bound)
  rw [set_set] at keyRead replied
  have handled : Step (peer.set id ⟨.locking op key, pinned⟩) (.handle id op key reply)
      ({ peer with table }.set id ⟨.replying reply, pinned'⟩) := by
    rwa [← set_set { peer with table } id ⟨.locking op key, pinned⟩]
  refine .prepend ⟨allowed _ _ ?_ nofun, opRead⟩ <| .prepend ⟨allowed _ _ ?_ nofun, keyRead⟩ <|
    .prepend ⟨allowed _ _ ?_ fun _ => rfl, handled⟩ <| .single ⟨allowed _ _ ?_ nofun, replied⟩
  all_goals simp [request]

theorem run_request {peer : Peer Arena Store} {reply : PagingReply} {pinned pinned' : Option Key}
    {table : Residency Arena Store} (id : Nat) (op : Op) (key : Key)
    (at_ : peer.connections[id]? = some ⟨.readingOp, pinned⟩) (stays : op ≠ opBye)
    (handled : peer.table.handlePagingOp op key pinned = (reply, pinned', table)) :
    Run Step peer (request id op key reply) ({ peer with table }.set id ⟨.readingOp, pinned'⟩) :=
  have free : ∀ middle, ∀ event ∈ request id op key reply,
      (event = .handle id op key reply → middle.table = peer.table) →
      (fun (_ : Peer Arena Store) (_ : Event) => True) middle event := fun _ _ _ _ => trivial
  (run_guarded_request id op key at_ stays handled free).unguarded

end Peer

end Metrale.Storage
