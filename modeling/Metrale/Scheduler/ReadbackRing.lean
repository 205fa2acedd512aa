import Metrale.Foundation.Runs
import Metrale.Foundation.SlotOwnership
import Metrale.Scheduler.AsyncDeviceIo

/-! # Who owns the slots of the readback ring

A slot is either free or owned by one ticket that was submitted and not awaited.  Only a submission can break
this: the slot it has taken is lost when the device refuses the readback, and the slot of an older step is lost
when the new ticket has the number of one still in flight.  `run_owned_iff` says that nothing else can. -/

namespace Metrale.Scheduler

open Metrale.Foundation

namespace AsyncDeviceIo

variable {Ptr : Type*} {io : AsyncDeviceIo Ptr} {plan : StepPlan} {device : LaunchAnswers Ptr} {slot : Nat}

def free (io : AsyncDeviceIo Ptr) : List Nat := (List.range ringSlots).filter fun slot => !io.busy.contains slot

def owner (io : AsyncDeviceIo Ptr) (ticket : UInt32) : Option Nat := (io.inFlight.lookup ticket).map (·.slot)

def slotTaken (io : AsyncDeviceIo Ptr) (plan : StepPlan) (device : LaunchAnswers Ptr) : Option Nat :=
  match asyncMasks plan, device.decode with
  | some (masks, _), .ok _ => if io.maxRows < masks.length then none else io.free.head?
  | _, _ => none

def readbackTicket (plan : StepPlan) : Except DeviceError Ticket → Option Ticket
  | .ok ticket => (asyncMasks plan).map fun _ => ticket
  | .error _ => none

theorem mem_free : slot ∈ io.free ↔ slot < ringSlots ∧ slot ∉ io.busy := by
  simp [free]

theorem takeSlot_eq (io : AsyncDeviceIo Ptr) : io.takeSlot = match io.free.head? with
    | some slot => .ok (slot, { io with busy := io.busy ++ [slot] })
    | none => .error (.forward s!"readback ring exhausted: {ringSlots} steps unread") := by
  have found : io.free.head? = (List.range ringSlots).find? fun slot => !io.busy.contains slot := by
    rw [free, List.head?_filter]
  cases first : io.free.head? with
  | none => simp only [takeSlot, found.symm.trans first]
  | some slot => simp only [takeSlot, found.symm.trans first]

/-! ## What a launch does to the ring -/

/-- What is left of the ring after a launch, and the readback ticket the caller got. -/
inductive Launched (io : AsyncDeviceIo Ptr) (plan : StepPlan) (device : LaunchAnswers Ptr)
    (after : AsyncDeviceIo Ptr) : Option Ticket → Prop where
  | settled : io.slotTaken plan device = none → after.busy = io.busy → after.inFlight = io.inFlight →
      Launched io plan device after none
  | leaked {slot : Nat} {text : String} : io.slotTaken plan device = some slot → device.feed = .error text →
      after.busy = io.busy ++ [slot] → after.inFlight = io.inFlight → Launched io plan device after none
  | issued {step : InFlight Ptr} : io.slotTaken plan device = some step.slot → device.feed = .ok () →
      after.busy = io.busy ++ [step.slot] → after.inFlight = io.inFlight.insert io.nextTicket step →
      Launched io plan device after (some ⟨io.nextTicket⟩)

theorem launchSettled_ring (io : AsyncDeviceIo Ptr) (plan : StepPlan) (device : LaunchAnswers Ptr) :
    (io.launchSettled plan device).1.busy = io.busy ∧ (io.launchSettled plan device).1.inFlight = io.inFlight := by
  unfold launchSettled
  split <;> simp

theorem launched (io : AsyncDeviceIo Ptr) (plan : StepPlan) (device : LaunchAnswers Ptr) :
    Launched io plan device (io.launch plan device).1 (readbackTicket plan (io.launch plan device).2) := by
  cases masked : asyncMasks plan with
  | none =>
    obtain ⟨sameBusy, sameFlight⟩ := launchSettled_ring io plan device
    have noTicket : readbackTicket plan (io.launchSettled plan device).2 = none := by
      cases (io.launchSettled plan device).2 <;> simp [readbackTicket, masked]
    simp only [launch, masked, noTicket]
    exact .settled (by simp [slotTaken, masked]) sameBusy sameFlight
  | some pair =>
    obtain ⟨masks, fed⟩ := pair
    cases decoded : device.decode with
    | error text =>
      simp only [launch, masked, decoded]
      exact .settled (by simp [slotTaken, masked, decoded]) rfl rfl
    | ok logits =>
      simp only [launch, masked, decoded, issue]
      split
      next wide => exact .settled (by simp [slotTaken, masked, decoded, wide]) rfl rfl
      next fits =>
        have taken : io.slotTaken plan device = io.free.head? := by simp [slotTaken, masked, decoded, fits]
        rw [takeSlot_eq]
        cases first : io.free.head? with
        | none => exact .settled (taken.trans first) rfl rfl
        | some slot =>
          cases fed : device.feed with
          | error text => exact .leaked (taken.trans first) fed rfl rfl
          | ok granted =>
            simp only [readbackTicket, masked, Option.map_some]
            exact .issued (taken.trans first) fed rfl rfl

theorem slotTaken_free (taken : io.slotTaken plan device = some slot) : ∃ rest, io.free = slot :: rest := by
  unfold slotTaken at taken
  split at taken
  · split at taken
    · cases taken
    · exact List.head?_eq_some_iff.mp taken
  · cases taken

/-! ## The other calls -/

theorem apply_ring (io : AsyncDeviceIo Ptr) (effect : Effect) :
    (io.apply effect).1.busy = io.busy ∧ (io.apply effect).1.inFlight = io.inFlight := by
  cases effect with
  | reserveKv slotIdx reserved => cases reserved <;> simp [apply]
  | rollback slotIdx released => simp [apply]
  | other answer => simp [apply]

theorem awaitResult_settled {ticket : Ticket} (absent : io.owner ticket.number = none) (device : AwaitAnswers) :
    (io.awaitResult ticket device).1.busy = io.busy ∧ (io.awaitResult ticket device).1.inFlight = io.inFlight := by
  have notFound := Option.map_eq_none_iff.mp absent
  simp [awaitResult, notFound]

theorem awaitResult_read {ticket : Ticket} (owns : io.owner ticket.number = some slot) (device : AwaitAnswers) :
    (io.awaitResult ticket device).1.busy = io.busy.filter (· != slot) ∧
      (io.awaitResult ticket device).1.inFlight = io.inFlight.erase ticket.number := by
  obtain ⟨step, found, rfl⟩ := Option.map_eq_some_iff.mp owns
  simp [awaitResult, found]

/-! ## Ownership after a call -/

variable {after : AsyncDeviceIo Ptr}

theorem free_nodup (io : AsyncDeviceIo Ptr) : io.free.Nodup := List.nodup_range.filter _

theorem free_congr (same : after.busy = io.busy) : after.free = io.free := by
  rw [free, free, same]

theorem owner_congr (same : after.inFlight = io.inFlight) : after.owner = io.owner := by
  funext ticket
  rw [owner, owner, same]

theorem free_taken {rest : List Nat} (first : io.free = slot :: rest) (pushed : after.busy = io.busy ++ [slot]) :
    rest.Perm after.free := by
  have nodup := io.free_nodup
  rw [first, List.nodup_cons] at nodup
  apply (List.perm_ext_iff_of_nodup nodup.2 after.free_nodup).mpr
  intro other
  have before : other ∈ io.free ↔ other = slot ∨ other ∈ rest := by rw [first, List.mem_cons]
  rw [mem_free] at before
  rw [mem_free, pushed, List.mem_append, List.mem_singleton]
  grind

theorem free_given (below : slot < ringSlots) (busy : slot ∈ io.busy)
    (removed : after.busy = io.busy.filter (· != slot)) : (slot :: io.free).Perm after.free := by
  have nodup : (slot :: io.free).Nodup := by
    apply List.nodup_cons.mpr
    exact ⟨fun member => (mem_free.mp member).2 busy, io.free_nodup⟩
  apply (List.perm_ext_iff_of_nodup nodup after.free_nodup).mpr
  intro other
  rw [List.mem_cons, mem_free, mem_free, removed, List.mem_filter, bne_iff_ne]
  grind

theorem owner_insert {ticket : UInt32} {step : InFlight Ptr} (inserted : after.inFlight = io.inFlight.insert ticket step) :
    after.owner = Function.update io.owner ticket (some step.slot) := by
  funext other
  rw [owner, inserted, HashMap.lookup_insert_if, Function.update_apply]
  split <;> simp [owner]

theorem owner_erase {ticket : UInt32} (erased : after.inFlight = io.inFlight.erase ticket) :
    after.owner = Function.update io.owner ticket none := by
  funext other
  rw [owner, erased, HashMap.lookup_erase_if, Function.update_apply]
  split <;> simp [owner]

/-! ## The ring and the tickets a caller holds -/

inductive Call (Ptr : Type*) where
  | launch (plan : StepPlan) (device : LaunchAnswers Ptr)
  | awaitResult (ticket : Ticket) (device : AwaitAnswers)
  | apply (effect : Effect)

end AsyncDeviceIo

/-- The router and the numbers of the readback tickets it has handed out and that were not awaited since. -/
structure RingTrace (Ptr : Type*) where
  io : AsyncDeviceIo Ptr
  unawaited : List UInt32

namespace RingTrace

open AsyncDeviceIo

variable {Ptr : Type*} {trace : RingTrace Ptr} {call : Call Ptr}

def start (maxRows : Nat) : RingTrace Ptr := ⟨.new maxRows, []⟩

def advance (trace : RingTrace Ptr) : Call Ptr → RingTrace Ptr
  | .launch plan device =>
    let (io, answer) := trace.io.launch plan device
    ⟨io, (readbackTicket plan answer).toList.map (·.number) ++ trace.unawaited⟩
  | .awaitResult ticket device => ⟨(trace.io.awaitResult ticket device).1, trace.unawaited.erase ticket.number⟩
  | .apply effect => ⟨(trace.io.apply effect).1, trace.unawaited⟩

def run (maxRows : Nat) (calls : List (Call Ptr)) : RingTrace Ptr := calls.foldl advance (start maxRows)

/-- Busy slots and unawaited tickets belong to each other one to one, and the rest of the ring can be taken. -/
structure RingOwned (trace : RingTrace Ptr) : Prop where
  belongs : ∀ slot ∈ trace.io.busy, ∃! ticket, ticket ∈ trace.unawaited ∧ trace.io.owner ticket = some slot
  owns : ∀ ticket ∈ trace.unawaited, ∃! slot, slot ∈ trace.io.busy ∧ trace.io.owner ticket = some slot
  takeable : trace.io.free.length + trace.unawaited.length = ringSlots

/-- A launch that gets a slot also gets its readback, under a number that is not in flight. -/
def IssuesClean (trace : RingTrace Ptr) : Call Ptr → Prop
  | .launch plan device => trace.io.slotTaken plan device ≠ none →
      device.feed = .ok () ∧ trace.io.inFlight.lookup trace.io.nextTicket = none
  | .awaitResult _ _ => True
  | .apply _ => True

structure Held (trace : RingTrace Ptr) : Prop where
  owned : Owned ringSlots trace.io.free none trace.io.owner
  busyBelow : ∀ slot ∈ trace.io.busy, slot < ringSlots
  unawaitedNodup : trace.unawaited.Nodup
  tracked : ∀ ticket, ticket ∈ trace.unawaited ↔ ∃ slot, trace.io.owner ticket = some slot

theorem start_held (maxRows : Nat) : (start maxRows : RingTrace Ptr).Held where
  owned := Owned.start (by simp [start, mem_free, AsyncDeviceIo.new]) (List.nodup_range.filter _)
  busyBelow := by simp [start, AsyncDeviceIo.new]
  unawaitedNodup := List.nodup_nil
  tracked := by simp [start, AsyncDeviceIo.new, AsyncDeviceIo.owner]

theorem Held.ringOwned (held : trace.Held) : trace.RingOwned where
  belongs := by
    intro slot busy
    obtain free | impossible | ⟨ticket, owns⟩ := (held.owned.accounted slot).mp (held.busyBelow slot busy)
    · exact absurd busy (mem_free.mp free).2
    · cases impossible
    · refine ⟨ticket, ⟨(held.tracked ticket).mpr ⟨slot, owns⟩, owns⟩, ?_⟩
      rintro other ⟨-, ownsToo⟩
      exact held.owned.ownedOnce other ticket slot ownsToo owns
  owns := by
    intro ticket member
    obtain ⟨slot, owns⟩ := (held.tracked ticket).mp member
    have below : slot < ringSlots := (held.owned.accounted slot).mpr (.inr (.inr ⟨ticket, owns⟩))
    have busy : slot ∈ trace.io.busy := by
      by_contra idle
      exact (held.owned.freeUnowned slot (mem_free.mpr ⟨below, idle⟩)).2 ticket owns
    refine ⟨slot, ⟨busy, owns⟩, ?_⟩
    rintro other ⟨-, ownsToo⟩
    exact Option.some.inj (ownsToo.symm.trans owns)
  takeable := by simpa using held.owned.count held.unawaitedNodup held.tracked

/-! ## One call -/

theorem Held.settled {after : RingTrace Ptr} (held : trace.Held) (sameBusy : after.io.busy = trace.io.busy)
    (sameFlight : after.io.inFlight = trace.io.inFlight) (sameTickets : after.unawaited = trace.unawaited) :
    after.Held where
  owned := by
    rw [free_congr sameBusy, owner_congr sameFlight]
    exact held.owned
  busyBelow := by
    rw [sameBusy]
    exact held.busyBelow
  unawaitedNodup := by
    rw [sameTickets]
    exact held.unawaitedNodup
  tracked := by
    rw [sameTickets, owner_congr sameFlight]
    exact held.tracked

theorem Held.issued {after : RingTrace Ptr} {rest : List Nat} {ticket : UInt32} {step : InFlight Ptr}
    (held : trace.Held) (first : trace.io.free = step.slot :: rest) (fresh : trace.io.owner ticket = none)
    (pushed : after.io.busy = trace.io.busy ++ [step.slot])
    (inserted : after.io.inFlight = trace.io.inFlight.insert ticket step)
    (handedOut : after.unawaited = ticket :: trace.unawaited) : after.Held where
  owned := by
    rw [owner_insert inserted]
    have taken := held.owned
    rw [first] at taken
    exact (taken.take.give fresh).reorder (free_taken first pushed)
  busyBelow := by
    have below : step.slot < ringSlots := (mem_free.mp (first ▸ List.mem_cons_self)).1
    rw [pushed]
    intro other busy
    obtain busy | busy := List.mem_append.mp busy
    · exact held.busyBelow other busy
    · exact List.mem_singleton.mp busy ▸ below
  unawaitedNodup := by
    rw [handedOut]
    apply List.nodup_cons.mpr
    refine ⟨?_, held.unawaitedNodup⟩
    intro member
    obtain ⟨slot, owns⟩ := (held.tracked ticket).mp member
    cases fresh.symm.trans owns
  tracked := by
    intro other
    rw [handedOut, owner_insert inserted, List.mem_cons, held.tracked, Function.update_apply]
    split
    next same => simp [same]
    next different => simp [different]

theorem Held.read {after : RingTrace Ptr} {slot : Nat} {ticket : UInt32} (held : trace.Held)
    (owns : trace.io.owner ticket = some slot) (removed : after.io.busy = trace.io.busy.filter (· != slot))
    (erased : after.io.inFlight = trace.io.inFlight.erase ticket)
    (awaited : after.unawaited = trace.unawaited.erase ticket) : after.Held where
  owned := by
    have below : slot < ringSlots := (held.owned.accounted slot).mpr (.inr (.inr ⟨ticket, owns⟩))
    have busy : slot ∈ trace.io.busy := by
      by_contra idle
      exact (held.owned.freeUnowned slot (mem_free.mpr ⟨below, idle⟩)).2 ticket owns
    rw [owner_erase erased]
    exact (held.owned.release owns).reorder (free_given below busy removed)
  busyBelow := by
    rw [removed]
    intro other busy
    exact held.busyBelow other (List.mem_filter.mp busy).1
  unawaitedNodup := by
    rw [awaited]
    exact held.unawaitedNodup.erase ticket
  tracked := by
    intro other
    rw [awaited, owner_erase erased, held.unawaitedNodup.mem_erase_iff, held.tracked, Function.update_apply]
    split
    next same => simp [same]
    next different => simp [different]

theorem Held.advance (held : trace.Held) (clean : trace.IssuesClean call) : (trace.advance call).Held := by
  cases call with
  | launch plan device =>
    have happened := launched trace.io plan device
    simp only [RingTrace.advance]
    cases ticketed : readbackTicket plan (trace.io.launch plan device).2 with
    | none =>
      rw [ticketed] at happened
      cases happened with
      | settled _ sameBusy sameFlight => exact held.settled sameBusy sameFlight rfl
      | leaked taken refused =>
        cases refused.symm.trans (clean (by simp [taken])).1
    | some ticket =>
      rw [ticketed] at happened
      cases happened with
      | issued taken _ pushed inserted =>
        obtain ⟨rest, first⟩ := slotTaken_free taken
        have fresh : trace.io.owner trace.io.nextTicket = none :=
          Option.map_eq_none_iff.mpr (clean (by simp [taken])).2
        exact held.issued first fresh pushed inserted rfl
  | awaitResult ticket device =>
    cases owns : trace.io.owner ticket.number with
    | none =>
      obtain ⟨sameBusy, sameFlight⟩ := awaitResult_settled owns device
      have absent : ticket.number ∉ trace.unawaited := by
        intro member
        obtain ⟨slot, owned⟩ := (held.tracked ticket.number).mp member
        cases owns.symm.trans owned
      exact held.settled sameBusy sameFlight (List.erase_of_not_mem absent)
    | some slot =>
      obtain ⟨removed, erased⟩ := awaitResult_read owns device
      exact held.read owns removed erased rfl
  | apply effect =>
    obtain ⟨sameBusy, sameFlight⟩ := apply_ring trace.io effect
    exact held.settled sameBusy sameFlight rfl

theorem Held.clean (held : trace.Held) (owned : (trace.advance call).RingOwned) : trace.IssuesClean call := by
  cases call with
  | launch plan device =>
    intro gotSlot
    have happened := launched trace.io plan device
    simp only [RingTrace.advance] at owned
    cases ticketed : readbackTicket plan (trace.io.launch plan device).2 with
    | none =>
      rw [ticketed] at happened
      cases happened with
      | settled untaken _ _ => exact absurd untaken gotSlot
      | @leaked slot text taken _ pushed sameFlight =>
        obtain ⟨rest, first⟩ := slotTaken_free taken
        have wasFree : slot ∈ trace.io.free := first ▸ List.mem_cons_self
        obtain ⟨ticket, ⟨-, owns⟩, -⟩ := owned.belongs slot (by simp [pushed])
        rw [owner_congr sameFlight] at owns
        exact absurd owns ((held.owned.freeUnowned slot wasFree).2 ticket)
    | some ticket =>
      rw [ticketed] at happened
      cases happened with
      | @issued step taken granted pushed inserted =>
        refine ⟨granted, ?_⟩
        by_contra inFlight
        -- The older step's slot stays busy, and its number now leads to the new one.
        obtain ⟨older, found⟩ := Option.ne_none_iff_exists'.mp inFlight
        have ownedBefore : trace.io.owner trace.io.nextTicket = some older.slot := by simp [owner, found]
        obtain ⟨rest, first⟩ := slotTaken_free taken
        have wasFree : step.slot ∈ trace.io.free := first ▸ List.mem_cons_self
        have below : older.slot < ringSlots :=
          (held.owned.accounted older.slot).mpr (.inr (.inr ⟨_, ownedBefore⟩))
        have busy : older.slot ∈ trace.io.busy := by
          by_contra idle
          exact (held.owned.freeUnowned older.slot (mem_free.mpr ⟨below, idle⟩)).2 _ ownedBefore
        obtain ⟨other, ⟨-, owns⟩, -⟩ := owned.belongs older.slot (by simp [pushed, busy])
        rw [owner_insert inserted, Function.update_apply] at owns
        split at owns
        · obtain same : step.slot = older.slot := Option.some.inj owns
          exact (mem_free.mp wasFree).2 (same ▸ busy)
        · next different =>
          exact different (held.owned.ownedOnce other _ older.slot owns ownedBefore)
  | awaitResult ticket device => trivial
  | apply effect => trivial

/-! ## Every run -/

/-- The ring is owned in every state of a run exactly when each launch of the run that gets a slot gets its
readback too, under a number that is not in flight. -/
theorem run_owned_iff (maxRows : Nat) (calls : List (Call Ptr)) :
    (∀ earlier later, calls = earlier ++ later → (run maxRows earlier).RingOwned) ↔
      ∀ earlier call later, calls = earlier ++ call :: later → (run maxRows earlier).IssuesClean call :=
  always_iff (start_held maxRows) (fun _ => Held.ringOwned) (fun _ _ => Held.advance) fun _ _ => Held.clean

def refusedReadback : Call Unit :=
  .launch (.decode [7] (.argmaxMasked [⟨0, 0⟩])) ⟨.ok (), .error "launch failed", .ok [7], .ok 2⟩

/-- One refused readback leaves a busy slot without a ticket, and three of them leave no slot to submit. -/
theorem refused_readback_leaks : ¬ (run 1 [refusedReadback]).RingOwned ∧
    (run 1 [refusedReadback, refusedReadback, refusedReadback]).io.free = [] ∧
    (run 1 [refusedReadback, refusedReadback, refusedReadback]).unawaited = [] := by
  refine ⟨?_, by decide, by decide⟩
  intro owned
  obtain ⟨ticket, ⟨unawaited, -⟩, -⟩ := owned.belongs 0 (by decide)
  exact List.not_mem_nil unawaited

end RingTrace

end Metrale.Scheduler
