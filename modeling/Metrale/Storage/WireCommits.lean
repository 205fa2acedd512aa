import Metrale.Storage.WirePins

/-! # What a GET's reply stands for

The last successful ALLOC, COMMIT or REMOVE of a key, whoever sent it, says what the key's location can
be: a reserved slot after an ALLOC, a committed blob in a slot or a record after a COMMIT. -/

namespace Metrale.Storage

open Metrale.Foundation

inductive Written where
  | allocated (offset : Nat)
  | committed
  | removed

def Loc.written (blobBytes : Nat) : Loc → Written
  | reserved slot => .allocated (slot * blobBytes)
  | resident _ | onDisk _ => .committed

namespace Peer

open PageTable (Consistent)
open Residency (Reserved DisplacedAt)

def written (key : Key) : Event → Option Written
  | .handle _ op requested reply =>
    if requested ≠ key then none
    else if op = opAlloc then
      match reply with
      | .located offset => some (.allocated offset)
      | _ => none
    else if op = opCommit then if reply = .ok then some .committed else none
    else if op = opRemove then some .removed
    else none
  | _ => none

def lastWritten (key : Key) (events : List Event) : Option Written := latest (written key) events

theorem written_alloc (key : Key) (id : Nat) (reply : PagingReply) :
    written key (.handle id opAlloc key reply) =
      match reply with
      | .located offset => some (.allocated offset)
      | _ => none :=
  (if_neg (not_not.mpr rfl)).trans (if_pos rfl)

theorem written_commit (key : Key) (id : Nat) (reply : PagingReply) :
    written key (.handle id opCommit key reply) = if reply = .ok then some .committed else none :=
  (if_neg (not_not.mpr rfl)).trans ((if_neg (by decide)).trans (if_pos rfl))

theorem written_other (key : Key) (id : Nat) {op : Op} (reply : PagingReply) (notAlloc : op ≠ opAlloc)
    (notCommit : op ≠ opCommit) :
    written key (.handle id op key reply) = if op = opRemove then some .removed else none :=
  (if_neg (not_not.mpr rfl)).trans ((if_neg notAlloc).trans (if_neg notCommit))

variable {Arena Store : Type*} {peer after : Peer Arena Store} {numSlots id offset blobBytes : Nat}
  {key : Key} {event : Event} {last : Option Written} {map map' : HashMap Key Loc}

/-- Where the key is comes from what was last written. -/
def Follows (blobBytes : Nat) (key : Key) (map : HashMap Key Loc) (last : Option Written) : Prop :=
  ∀ loc, map.lookup key = some loc → last = some (loc.written blobBytes)

theorem Follows.congr (follows : Follows blobBytes key map last)
    (same : map'.lookup key = map.lookup key) : Follows blobBytes key map' last :=
  fun loc stored => follows loc (same.symm.trans stored)

theorem Follows.displaced (follows : Follows blobBytes key map last)
    (displaced : DisplacedAt map map' key) : Follows blobBytes key map' last := by
  obtain same | ⟨-, gone⟩ | ⟨⟨slot, resident⟩, ⟨diskSlot, onDisk⟩⟩ := displaced
  · exact follows.congr same
  · intro loc stored
    cases gone.symm.trans stored
  · intro loc stored
    cases onDisk.symm.trans stored
    have committed := follows _ resident
    exact committed

variable [SlotArena Arena] [SwapStore Store]

theorem dispatch_follows (id : Nat) {table after : Residency Arena Store} {op : Op} {requested : Key}
    {reply : PagingReply} (consistent : Consistent numSlots {} table.pages)
    (dispatched : table.dispatch op requested = (reply, after))
    (follows : Follows table.blobBytes key table.map last) :
    Follows table.blobBytes key after.map ((written key (.handle id op requested reply)).or last) := by
  have sized := (Residency.dispatch_frame dispatched).blobBytes
  by_cases own : requested = key
  swap
  -- A request for another key writes nothing and at most displaces this one.
  · have nothing : written key (.handle id op requested reply) = none := if_pos own
    rw [nothing]
    cases Residency.dispatch_cases dispatched with
    | alloc _ answered => exact follows.displaced (Residency.alloc_others consistent answered (Ne.symm own))
    | commit _ answered => exact follows.congr ((Residency.commit_map answered).1 key (Ne.symm own))
    | get _ answered => exact follows.displaced (Residency.locate_others consistent answered (Ne.symm own))
    | remove =>
      refine follows.congr ?_
      rw [Residency.remove_map]
      exact AList.lookup_erase_ne (Ne.symm own)
    | other => exact follows
  subst own
  cases Residency.dispatch_cases dispatched with
  | @alloc _ answer _ isAlloc answered located =>
    subst isAlloc
    cases answer with
    | ok slot =>
      obtain rfl : reply = .located (after.slotOffset slot) := (located _).mpr ⟨slot, rfl, rfl⟩
      intro loc stored
      cases (Residency.alloc_reserved answered).symm.trans stored
      rw [written_alloc, ← sized]
      rfl
    | error error =>
      have unlocated : ∀ offset, reply ≠ .located offset := fun offset reserved => by
        obtain ⟨_, ⟨⟩, _⟩ := (located offset).mp reserved
      have nothing : written requested (.handle id opAlloc requested reply) = none := by
        rw [written_alloc]
        cases reply with
        | located offset => exact absurd rfl (unlocated offset)
        | _ => rfl
      rw [nothing]
      exact follows.congr (Residency.alloc_failed_map consistent answered)
  | @commit _ answer _ isCommit answered succeeds =>
    subst isCommit
    obtain ⟨-, -, failed, committed⟩ := Residency.commit_map answered
    cases answer with
    | ok answer =>
      obtain rfl := succeeds.mpr rfl
      obtain ⟨slot, resident⟩ := committed rfl
      intro loc stored
      cases resident.symm.trans stored
      rw [written_commit, if_pos rfl]
      rfl
    | error error =>
      have nothing : written requested (.handle id opCommit requested reply) = none := by
        rw [written_commit, if_neg fun answered => by cases succeeds.mp answered]
      rw [nothing, failed error rfl]
      exact follows
  | @get _ answer _ isGet answered =>
    subst isGet
    obtain ⟨found, missed⟩ := Residency.locate_map consistent answered
    rw [written_other _ _ _ (by decide) (by decide), if_neg (by decide), Option.none_or]
    by_cases hit : ∃ slot, answer = .ok (some slot)
    · obtain ⟨slot, rfl⟩ := hit
      obtain ⟨reserved, same⟩ | ⟨resident | ⟨diskSlot, onDisk⟩, moved⟩ := found slot rfl
      · exact follows.congr (same.trans reserved.symm)
      · exact follows.congr (moved.trans resident.symm)
      -- A key faulted in from disk had been committed before it was spilled.
      · intro loc stored
        cases moved.symm.trans stored
        have committed := follows _ onDisk
        exact committed
    · exact follows.congr (missed fun slot answered => hit ⟨slot, answered⟩)
  | remove =>
    intro loc stored
    rw [Residency.remove_map] at stored
    cases (AList.lookup_erase _ _).symm.trans stored
  | other notAlloc notCommit _ notRemove =>
    rw [written_other _ _ _ notAlloc notCommit, if_neg notRemove, Option.none_or]
    exact follows

theorem Step.follows (consistent : Consistent numSlots {} peer.table.pages) (step : Step peer event after)
    (follows : Follows peer.table.blobBytes key peer.table.map last) :
    Follows after.table.blobBytes key after.table.map ((written key event).or last) := by
  rw [step.blobBytes]
  cases step with
  | @handle actor op requested recorded reply recorded' table was handled =>
    have start := Residency.releasePin_consistent consistent recorded
    rw [← Residency.releasePin_blobBytes _ recorded, ← Residency.releasePin_map _ recorded] at follows
    obtain ⟨_, middle, -, -, -, dispatched, rfl⟩ | ⟨-, -, dispatched⟩ := Residency.handlePagingOp_cases handled
    · have moved := dispatch_follows actor start dispatched follows
      rw [Residency.releasePin_blobBytes] at moved
      show Follows _ _ (middle.pinRead requested).map _
      rw [Residency.pinRead_map]
      exact moved
    · have moved := dispatch_follows actor start dispatched follows
      rw [Residency.releasePin_blobBytes] at moved
      exact moved
  | leave was =>
    show Follows _ _ (peer.table.releasePin _).map _
    rw [Residency.releasePin_map]
    exact follows
  | _ => exact follows

theorem run_follows {arena : Arena} {swap : Store} {cap : Nat} {fresh : Residency Arena Store}
    {events : List Event} (key : UInt64) (created : Residency.newCapped arena swap cap = .ok fresh)
    (run : Run Step ⟨fresh, []⟩ events peer) :
    Follows peer.table.blobBytes key peer.table.map (lastWritten key events) := by
  induction run with
  | start =>
    obtain ⟨-, -, rfl⟩ := Residency.newCapped_eq created
    intro loc stored
    cases stored
  | extend earlier step ih =>
    rw [lastWritten, latest_concat]
    exact step.follows (run_consistent created earlier) ih

/-- A GET hit names a committed blob, unless the key is reserved: then it names the slot that its ALLOC
was answered with. -/
theorem hit_written {arena : Arena} {swap : Store} {cap : Nat} {fresh : Residency Arena Store}
    {events : List Event} (created : Residency.newCapped arena swap cap = .ok fresh)
    (run : Run Step ⟨fresh, []⟩ events peer)
    (got : Step peer (.handle id opGet key (.located offset)) after) :
    (¬ Reserved peer.table.map key ∧ lastWritten key events = some .committed) ∨
    (Reserved peer.table.map key ∧ lastWritten key events = some (.allocated offset)) := by
  have follows := run_follows key created run
  have consistent := run_consistent created run
  cases got with
  | @handle _ _ _ recorded _ recorded' table was handled =>
    have start := Residency.releasePin_consistent consistent recorded
    obtain ⟨_, middle, -, -, rfl, dispatched, rfl⟩ | ⟨unlocated, -⟩ := Residency.handlePagingOp_cases handled
    swap
    · exact absurd rfl (unlocated rfl offset)
    obtain ⟨slot, answered, named⟩ := Residency.dispatch_located dispatched
    have sized : middle.blobBytes = peer.table.blobBytes :=
      (Residency.dispatch_frame dispatched).blobBytes.trans (Residency.releasePin_blobBytes _ _)
    have found := (Residency.locate_map start answered).1 slot rfl
    rw [Residency.releasePin_map] at found
    obtain ⟨reserved, -⟩ | ⟨resident | ⟨diskSlot, onDisk⟩, -⟩ := found
    · right
      rw [named, Residency.slotOffset, sized]
      exact ⟨⟨slot, reserved⟩, follows _ reserved⟩
    · left
      refine ⟨?_, follows _ resident⟩
      rintro ⟨_, reserved⟩
      cases resident.symm.trans reserved
    · left
      refine ⟨?_, follows _ onDisk⟩
      rintro ⟨_, reserved⟩
      cases onDisk.symm.trans reserved

/-- One connection allocates and commits key 7, and another reads it. -/
theorem hit_written_committed : ∃ (fresh : Residency VecSlotArena MemSwapStore) (events : List Event)
    (peer after : Peer VecSlotArena MemSwapStore),
    Residency.newCapped (VecSlotArena.new 1 1) (MemSwapStore.new 1) 0 = .ok fresh ∧
    Run Step ⟨fresh, []⟩ events peer ∧ Step peer (.handle 1 opGet 7 (.located 0)) after ∧
    ((¬ Reserved peer.table.map 7 ∧ lastWritten 7 events = some .committed) ∨
      (Reserved peer.table.map 7 ∧ lastWritten 7 events = some (.allocated 0))) := by
  have run : ∃ (fresh : Residency VecSlotArena MemSwapStore) (events : List Event)
      (peer after : Peer VecSlotArena MemSwapStore),
      Residency.newCapped (VecSlotArena.new 1 1) (MemSwapStore.new 1) 0 = .ok fresh ∧
      Run Step ⟨fresh, []⟩ events peer ∧ Step peer (.handle 1 opGet 7 (.located 0)) after :=
    ⟨_, _, _, _, rfl, .prepend .accept <| .prepend .accept <|
      (run_request 0 opAlloc 7 rfl (by decide) rfl).trans <|
      (run_request 0 opCommit 7 rfl (by decide) rfl).trans <|
      .prepend (.readOp rfl : Step _ (.readOp 1 (some opGet)) _) <|
      .single (.readKey rfl : Step _ (.readKey 1 (some 7)) _), .handle rfl rfl⟩
  obtain ⟨fresh, events, peer, after, created, run, got⟩ := run
  exact ⟨fresh, events, peer, after, created, run, got, hit_written created run got⟩

def Commits (key : Key) (event : Event) : Prop := ∃ id, event = .handle id opCommit key .ok

def Allocates (key : Key) (event : Event) : Prop := ∃ id offset, event = .handle id opAlloc key (.located offset)

/-- A key that one connection has allocated and not committed is found by another. -/
theorem reserved_is_hit : ¬ ∀ (arena : VecSlotArena) (swap : MemSwapStore) cap fresh events
    (peer after : Peer VecSlotArena MemSwapStore) id key offset,
    Residency.newCapped arena swap cap = .ok fresh → Run Step ⟨fresh, []⟩ events peer →
    Step peer (.handle id opGet key (.located offset)) after →
    ∃ earlier commit later, events = earlier ++ commit :: later ∧ Commits key commit ∧
      ∀ event ∈ later, ¬ Allocates key event := by
  intro committed
  obtain ⟨earlier, commit, later, same, ⟨id, rfl⟩, -⟩ :=
    committed (VecSlotArena.new 1 1) (MemSwapStore.new 1) 0 _ _ _ _ 1 7 0 rfl
      (.prepend .accept <| .prepend .accept <| (run_request 0 opAlloc 7 rfl (by decide) rfl).trans <|
        .prepend (.readOp rfl : Step _ (.readOp 1 (some opGet)) _) <|
        .single (.readKey rfl : Step _ (.readKey 1 (some 7)) _))
      (.handle rfl rfl)
  have member : Event.handle id opCommit 7 .ok ∈ earlier ++ .handle id opCommit 7 .ok :: later :=
    List.mem_append_right _ List.mem_cons_self
  rw [← same] at member
  simp [request, opAlloc, opCommit, opGet] at member

end Peer

end Metrale.Storage
