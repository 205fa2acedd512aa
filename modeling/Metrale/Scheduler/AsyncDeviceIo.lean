import Metrale.Foundation.HashMap
import Mathlib.Data.UInt

/-! # The device routers (`io/sync_device.rs`, `io/async_device.rs`)

`AsyncDeviceIo` lets one decode step run ahead of the host: a readback is issued into a slot of a small ring and
awaited later by its ticket.  Every other step goes through the synchronous router inside.  What the device
answers to the calls of one operation is a parameter, so any of them may fail.  The sequence rows, the masks'
effect on the ids and the context commit, whose errors are logged only, are the device's own. -/

namespace Metrale.Scheduler

open Metrale.Foundation

def ringSlots : Nat := 3

def pollSpins : Nat := 2000

structure Ticket where
  number : UInt32
deriving DecidableEq

inductive DeviceError where
  | forward (text : String)
  | readback (text : String)
  | effect (text : String)

/-! ## Plans and results -/

inductive FeedSource where
  | feed (fromRow : UInt32)
  | host (token : UInt32)

structure RowMask where
  first : UInt32
  second : UInt32

inductive Readback where
  | argmax
  | argmaxMasked (masks : List RowMask)
  | hostLogits

inductive StepPlan where
  | decode (tokens : List UInt32) (readback : Readback)
  | decodeFed (sources : List FeedSource) (masks : List RowMask)

inductive DecodeRows where
  | tokens (ids : List UInt32)
  | hostLogits (elemBytes : Nat)

structure StepResult (Ptr : Type*) where
  ticket : Ticket
  logits : Ptr
  rows : DecodeRows

structure LaunchAnswers (Ptr : Type*) where
  /-- `decode_batch`, or `decode_batch_fed` for a fed step -/
  decode : Except String Ptr
  /-- `argmax_batch_to_feed` -/
  feed : Except String Unit
  /-- `argmax_batch` -/
  argmax : Except String (List UInt32)
  /-- The element width of the logits that `copy_logits_to_host` copied. -/
  copyLogits : Except String Nat

/-- What the device answers while a readback is awaited, and the cells of its slot once it has landed. -/
structure AwaitAnswers where
  eventQuery : Nat → Except String Bool
  eventSynchronize : Except String Unit
  cells : List UInt32

variable {Ptr : Type*}

/-! ## The synchronous router -/

structure SyncDeviceIo (Ptr : Type*) where
  nextTicket : UInt32
  pending : Option (StepResult Ptr)

def executeReadback (readback : Readback) (device : LaunchAnswers Ptr) : Except String DecodeRows :=
  match readback with
  | .argmax => device.argmax.map .tokens
  | .hostLogits => device.copyLogits.map .hostLogits
  | .argmaxMasked _ => .error "the synchronous router has no masked feed argmax"

namespace SyncDeviceIo

def new : SyncDeviceIo Ptr := ⟨0, none⟩

def launch (io : SyncDeviceIo Ptr) (plan : StepPlan) (device : LaunchAnswers Ptr) :
    SyncDeviceIo Ptr × Except DeviceError Ticket :=
  match plan with
  | .decode _ readback =>
    match device.decode with
    | .error text => (io, .error (.forward text))
    | .ok logits =>
      match executeReadback readback device with
      | .error text => (io, .error (.readback text))
      | .ok rows =>
        let ticket : Ticket := ⟨io.nextTicket⟩
        (⟨io.nextTicket + 1, some ⟨ticket, logits, rows⟩⟩, .ok ticket)
  | .decodeFed _ _ => (io, .error (.forward "the synchronous router cannot launch a fed decode step"))

def awaitResult (io : SyncDeviceIo Ptr) (ticket : Ticket) :
    SyncDeviceIo Ptr × Except DeviceError (StepResult Ptr) :=
  let answer := match io.pending with
    | some result =>
      if result.ticket = ticket then .ok result
      else .error (.effect
        s!"await_result(Ticket({ticket.number})): the settled step is Ticket({result.ticket.number})")
    | none => .error (.effect s!"await_result(Ticket({ticket.number})): no step in flight")
  ({ io with pending := none }, answer)

end SyncDeviceIo

/-! ## The router with the readback ring -/

/-- The blocks reserved ahead of one ticket, `(slotIdx, blocks)` for each row. -/
structure LedgerEntry where
  ticket : Ticket
  awaited : Bool
  rows : List (Nat × Nat)

structure InFlight (Ptr : Type*) where
  slot : Nat
  rows : Nat
  logits : Ptr
  /-- A fed launch, whose await calls `fed_step_settled`. -/
  fed : Bool

structure AsyncDeviceIo (Ptr : Type*) where
  inner : SyncDeviceIo Ptr
  maxRows : Nat
  /-- Slots whose result has not been read yet, oldest first. -/
  busy : List Nat
  inFlight : HashMap UInt32 (InFlight Ptr)
  nextTicket : UInt32
  /-- Blocks reserved since the last launch. -/
  pendingReserve : List (Nat × Nat)
  ledger : List LedgerEntry

namespace AsyncDeviceIo

def new (maxRows : Nat) : AsyncDeviceIo Ptr := ⟨.new, max maxRows 1, [], ∅, 0, [], []⟩

def takeSlot (io : AsyncDeviceIo Ptr) : Except DeviceError (Nat × AsyncDeviceIo Ptr) :=
  match (List.range ringSlots).find? fun slot => !io.busy.contains slot with
  | some slot => .ok (slot, { io with busy := io.busy ++ [slot] })
  | none => .error (.forward s!"readback ring exhausted: {ringSlots} steps unread")

def attributeReservations (io : AsyncDeviceIo Ptr) (ticket : Ticket) : AsyncDeviceIo Ptr :=
  { io with
    ledger := io.ledger.filter (!·.awaited) ++ [⟨ticket, false, io.pendingReserve⟩]
    pendingReserve := [] }

/-- Starts the readback of `masks.length` rows.  The slot stays taken when the device refuses it. -/
def issue (io : AsyncDeviceIo Ptr) (logits : Ptr) (masks : List RowMask) (fed : Bool)
    (device : LaunchAnswers Ptr) : AsyncDeviceIo Ptr × Except DeviceError Ticket :=
  if io.maxRows < masks.length then
    (io, .error (.readback s!"{masks.length} rows exceed the readback ring width {io.maxRows}"))
  else
    match io.takeSlot with
    | .error error => (io, .error error)
    | .ok (slot, taken) =>
      match device.feed with
      | .error text => (taken, .error (.readback text))
      | .ok () =>
        let ticket : Ticket := ⟨taken.nextTicket⟩
        let issued := { taken with
          nextTicket := taken.nextTicket + 1
          inFlight := taken.inFlight.insert ticket.number ⟨slot, masks.length, logits, fed⟩ }
        (issued.attributeReservations ticket, .ok ticket)

/-- A step that the synchronous router settles at once.  The next number issued here stays above its own. -/
def launchSettled (io : AsyncDeviceIo Ptr) (plan : StepPlan) (device : LaunchAnswers Ptr) :
    AsyncDeviceIo Ptr × Except DeviceError Ticket :=
  match io.inner.launch plan device with
  | (inner, .error error) => ({ io with inner }, .error error)
  | (inner, .ok ticket) =>
    ({ io with inner, nextTicket := max io.nextTicket (ticket.number + 1) }, .ok ticket)

/-- The masks of a step with an asynchronous readback, and whether it is fed. -/
def asyncMasks : StepPlan → Option (List RowMask × Bool)
  | .decode _ (.argmaxMasked masks) => some (masks, false)
  | .decode _ _ => none
  | .decodeFed _ masks => some (masks, true)

def launch (io : AsyncDeviceIo Ptr) (plan : StepPlan) (device : LaunchAnswers Ptr) :
    AsyncDeviceIo Ptr × Except DeviceError Ticket :=
  match asyncMasks plan with
  | some (masks, fed) =>
    match device.decode with
    | .error text => (io, .error (.forward text))
    | .ok logits => io.issue logits masks fed device
  | none => io.launchSettled plan device

/-- `wait`: polls the slot's event, then synchronizes with it. -/
def wait (device : AwaitAnswers) : Nat → Nat → Except DeviceError Unit
  | 0, _ => device.eventSynchronize.mapError .readback
  | spins + 1, poll =>
    match device.eventQuery poll with
    | .error text => .error (.readback text)
    | .ok true => .ok ()
    | .ok false => wait device spins (poll + 1)

def markAwaited (ticket : Ticket) : List LedgerEntry → List LedgerEntry
  | [] => []
  | entry :: entries =>
    if entry.ticket = ticket then { entry with awaited := true } :: entries else entry :: markAwaited ticket entries

def awaitResult (io : AsyncDeviceIo Ptr) (ticket : Ticket) (device : AwaitAnswers) :
    AsyncDeviceIo Ptr × Except DeviceError (StepResult Ptr) :=
  match io.inFlight.lookup ticket.number with
  | none =>
    let (inner, answer) := io.inner.awaitResult ticket
    ({ io with inner }, answer)
  | some step =>
    let read := { io with
      inFlight := io.inFlight.erase ticket.number
      busy := io.busy.filter (· != step.slot)
      ledger := markAwaited ticket io.ledger }
    (read, (wait device pollSpins 0).map fun _ => ⟨ticket, step.logits, .tokens (device.cells.take step.rows)⟩)

/-! ## Effects -/

inductive EffectOutcome where
  | unit
  | hostLogits (elemBytes : Nat)
  | reserved (blocks : Nat)
  | exhausted

/-- The reservation calls; every other effect goes to the inner router and leaves both routers as they are. -/
inductive Effect where
  | reserveKv (slotIdx : Nat) (reserved : Except String Nat)
  | rollback (slotIdx : Nat) (released : Except String Unit)
  | other (answer : Except DeviceError EffectOutcome)

/-- Takes the first of a row's reservations out of the first entry that has one, and says how many blocks it holds. -/
def takeReservation (slotIdx : Nat) : List LedgerEntry → Nat × List LedgerEntry
  | [] => (0, [])
  | entry :: entries =>
    match entry.rows.find? (·.1 == slotIdx) with
    | some (_, blocks) => (blocks, { entry with rows := entry.rows.eraseP (·.1 == slotIdx) } :: entries)
    | none =>
      let (blocks, rest) := takeReservation slotIdx entries
      (blocks, entry :: rest)

/-- With it the number of blocks `release_decode_blocks` is asked for.  A rollback takes the row's most recent
reservation. -/
def apply (io : AsyncDeviceIo Ptr) : Effect → AsyncDeviceIo Ptr × Nat × Except DeviceError EffectOutcome
  | .reserveKv slotIdx (.ok blocks) =>
    ({ io with pendingReserve := io.pendingReserve ++ [(slotIdx, blocks)] }, 0, .ok (.reserved blocks))
  | .reserveKv _ (.error _) => (io, 0, .ok .exhausted)
  | .rollback slotIdx released =>
    let (blocks, ledger) := takeReservation slotIdx io.ledger.reverse
    ({ io with ledger := ledger.reverse }, blocks, (released.mapError .effect).map fun _ => .unit)
  | .other answer => (io, 0, answer)

end AsyncDeviceIo

end Metrale.Scheduler
