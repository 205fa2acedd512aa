import Metrale.Storage.WirePins

/-! # The slot behind a GET's reply

A client reads the slot that its GET was answered with, and the pin keeps that slot from being evicted
meanwhile.  A pin is on a key: it does not keep the key from being removed, nor from being allocated
again in place. -/

namespace Metrale.Storage

open Metrale.Foundation

namespace Residency

open PageTable (Consistent)

variable {Arena Store : Type*} [SlotArena Arena] [SwapStore Store] {table after : Residency Arena Store}
  {numSlots slot : Nat} {key requested : Key} {op : Op} {reply : PagingReply}

/-- A request leaves the slot of a key that stays pinned, unless it removes the key. -/
theorem dispatch_keepsSlot (consistent : Consistent numSlots {} table.pages)
    (dispatched : table.dispatch op requested = (reply, after)) (held : slotOf table.map key = some slot)
    (kept : ¬ (op = opRemove ∧ requested = key)) (pinned : requested ≠ key → key ∈ after.readPins) :
    slotOf after.map key = some slot := by
  have later := dispatch_consistent consistent dispatched
  cases dispatch_cases dispatched with
  | alloc _ answered =>
    by_cases own : requested = key
    · subst own
      exact (alloc_keepsSlot held answered).2
    · exact (alloc_others consistent answered (Ne.symm own)).pinned later (pinned own) held
  | commit _ answered =>
    by_cases own : requested = key
    · subst own
      exact (commit_map answered).2.1.trans held
    · rw [slotOf, (commit_map answered).1 key (Ne.symm own)]
      exact held
  | @get _ answer _ _ answered =>
    by_cases own : requested = key
    · subst own
      obtain ⟨found, missed⟩ := locate_map consistent answered
      by_cases hit : ∃ slot, answer = .ok (some slot)
      · obtain ⟨slot', rfl⟩ := hit
        obtain ⟨before, stored⟩ | ⟨before | ⟨diskSlot, before⟩, stored⟩ := found slot' rfl
        · exact (slotOf_eq stored).trans ((slotOf_eq before).symm.trans held)
        · exact (slotOf_eq stored).trans ((slotOf_eq before).symm.trans held)
        · rw [slotOf_eq before] at held
          cases held
      · rw [slotOf, missed fun slot found => hit ⟨slot, found⟩]
        exact held
    · exact (locate_others consistent answered (Ne.symm own)).pinned later (pinned own) held
  | remove isRemove =>
    rw [remove_map, slotOf_erase, Function.update_of_ne fun same => kept ⟨isRemove, same.symm⟩]
    exact held
  | other => exact held

end Residency

namespace Peer

open PageTable (Consistent)

variable {Arena Store : Type*} [SlotArena Arena] [SwapStore Store] {peer after hit before : Peer Arena Store}
  {numSlots id other slot offset offset' blobBytes : Nat} {key otherKey : Key} {event : Event}

/-- The connection's next request takes effect, or the connection gives its pin back on its way out. -/
def Event.Ends (id : Nat) : Event → Prop
  | .handle actor _ _ _ | .leave actor => actor = id
  | _ => False

def Event.Removes (key : Key) : Event → Prop
  | .handle _ op requested _ => op = opRemove ∧ requested = key
  | _ => False

structure Reading (numSlots blobBytes id : Nat) (key : Key) (slot : Nat) (peer : Peer Arena Store) :
    Prop where
  consistent : Consistent numSlots {} peer.table.pages
  balanced : peer.Balanced key
  sized : peer.table.blobBytes = blobBytes
  recorded : ∃ phase, peer.connections[id]? = some ⟨phase, some key⟩ ∧ phase ≠ .returned
  held : slotOf peer.table.map key = some slot

omit [SlotArena Arena] [SwapStore Store] in
theorem holders_pos {phase : Phase} (recorded : peer.connections[id]? = some ⟨phase, some key⟩)
    (running : phase ≠ .returned) : 0 < peer.holders key := by
  simp only [holders]
  rw [List.countP_pos_iff]
  refine ⟨_, List.mem_of_getElem? recorded, ?_⟩
  exact (holds_iff running).mpr rfl

omit [SlotArena Arena] [SwapStore Store] in
theorem Balanced.pinned (balanced : peer.Balanced key) (held : 0 < peer.holders key) :
    key ∈ peer.table.readPins := by
  rw [← AList.lookup_isSome]
  cases counted : peer.table.readPins.lookup key with
  | some => rfl
  | none =>
    have none := balanced.balanced
    rw [account, counted] at none
    exact absurd none (Nat.ne_of_lt held)

omit [SlotArena Arena] [SwapStore Store] in
theorem recorded_set {actor : Nat} {old moved : Connection} {phase : Phase}
    (at_ : peer.connections[id]? = some ⟨phase, some key⟩) (running : phase ≠ .returned)
    (was : peer.connections[actor]? = some old) (same : moved.pinned = old.pinned)
    (stays : moved.phase ≠ .returned) :
    ∃ phase, (peer.set actor moved).connections[id]? = some ⟨phase, some key⟩ ∧ phase ≠ .returned := by
  by_cases own : actor = id
  · subst own
    rw [at_] at was
    cases was
    refine ⟨moved.phase, ?_, stays⟩
    rw [set_at _ (List.getElem?_eq_some_iff.mp at_).1]
    exact congrArg some (congrArg (Connection.mk moved.phase) same)
  · exact ⟨phase, (List.getElem?_set_ne own).trans at_, running⟩

theorem Step.recorded {phase : Phase} (at_ : peer.connections[id]? = some ⟨phase, some key⟩)
    (running : phase ≠ .returned) (waits : ¬ event.Ends id) (step : Step peer event after) :
    ∃ phase, after.connections[id]? = some ⟨phase, some key⟩ ∧ phase ≠ .returned := by
  cases step with
  | accept => exact ⟨phase, List.getElem?_append_left (List.getElem?_eq_some_iff.mp at_).1 |>.trans at_, running⟩
  | readOp was => exact recorded_set at_ running was rfl (by dsimp only; split <;> nofun)
  | hangUp was => exact recorded_set at_ running was rfl nofun
  | readKey was => exact recorded_set at_ running was rfl nofun
  | failRead was => exact recorded_set at_ running was rfl nofun
  | handle => exact ⟨phase, (List.getElem?_set_ne waits).trans at_, running⟩
  | writeReply was => exact recorded_set at_ running was rfl nofun
  | failWrite was => exact recorded_set at_ running was rfl nofun
  | leave => exact ⟨phase, (List.getElem?_set_ne waits).trans at_, running⟩
  | rdma => exact ⟨phase, at_, running⟩

theorem Step.reading (reading : Reading numSlots blobBytes id key slot peer) (counts : Counts key peer event)
    (waits : ¬ event.Ends id) (keeps : ¬ event.Removes key) (step : Step peer event after) :
    Reading numSlots blobBytes id key slot after := by
  obtain ⟨phase, at_, running⟩ := reading.recorded
  have recorded := step.recorded at_ running waits
  have balanced := step.balanced reading.consistent reading.balanced counts
  refine ⟨step.consistent reading.consistent, balanced, step.blobBytes.trans reading.sized, recorded, ?_⟩
  obtain ⟨phase, at_, running⟩ := recorded
  have pinned := balanced.pinned (holders_pos at_ running)
  cases step with
  | @handle actor op requested recorded reply recorded' table was handled =>
    have start := Residency.releasePin_consistent reading.consistent recorded
    have held : slotOf (peer.table.releasePin recorded).map key = some slot := by
      rw [Residency.releasePin_map]
      exact reading.held
    obtain ⟨_, middle, -, -, -, dispatched, rfl⟩ | ⟨-, -, dispatched⟩ :=
      Residency.handlePagingOp_cases handled
    · show slotOf (middle.pinRead requested).map key = some slot
      rw [Residency.pinRead_map]
      refine Residency.dispatch_keepsSlot start dispatched held keeps fun other => ?_
      -- The pin that this GET takes is not the key's.
      have same : (middle.pinRead requested).readPins.lookup key = middle.readPins.lookup key := by
        by_cases resident : Resident middle.map requested
        · rw [Residency.pinRead_lookup resident, if_neg (Ne.symm other)]
        · rw [Residency.pinRead_of_not_resident resident]
      rw [← AList.lookup_isSome] at pinned ⊢
      rw [← same]
      exact pinned
    · exact Residency.dispatch_keepsSlot start dispatched held keeps fun _ => pinned
  | leave was =>
    show slotOf (peer.table.releasePin _).map key = some slot
    rw [Residency.releasePin_map]
    exact reading.held
  | _ => exact reading.held

theorem run_blobBytes {first : Peer Arena Store} {events : List Event} (run : Run Step first events peer) :
    peer.table.blobBytes = first.table.blobBytes :=
  run.invariant (fun peer => peer.table.blobBytes = first.table.blobBytes) rfl
    fun _ _ _ same step => step.blobBytes.trans same

theorem Step.hit_slot (consistent : Consistent numSlots {} peer.table.pages)
    (step : Step peer (.handle id opGet key (.located offset)) hit) :
    (∃ phase, hit.connections[id]? = some ⟨phase, some key⟩ ∧ phase ≠ .returned) ∧
    ∃ slot, slotOf hit.table.map key = some slot ∧ offset = slot * hit.table.blobBytes := by
  cases step with
  | @handle _ _ _ recorded _ recorded' table was handled =>
    have start := Residency.releasePin_consistent consistent recorded
    obtain ⟨_, middle, -, -, rfl, dispatched, rfl⟩ | ⟨unlocated, -⟩ := Residency.handlePagingOp_cases handled
    · refine ⟨⟨_, set_at _ (List.getElem?_eq_some_iff.mp was).1, nofun⟩, ?_⟩
      obtain ⟨slot, answered, named⟩ := Residency.dispatch_located dispatched
      refine ⟨slot, ?_, ?_⟩
      · show slotOf (middle.pinRead key).map key = some slot
        rw [Residency.pinRead_map]
        obtain ⟨-, stored⟩ | ⟨-, stored⟩ := (Residency.locate_map start answered).1 slot rfl
        · exact slotOf_eq stored
        · exact slotOf_eq stored
      · show offset = slot * (middle.pinRead key).blobBytes
        rw [Residency.pinRead_blobBytes]
        exact named
    · exact absurd rfl (unlocated rfl offset)

theorem Step.alloc_slot (step : Step peer (.handle id opAlloc key (.located offset)) after) :
    ∃ slot, slotOf after.table.map key = some slot ∧ offset = slot * after.table.blobBytes := by
  cases step with
  | @handle _ _ _ recorded _ recorded' table was handled =>
    obtain ⟨_, middle, isGet, -⟩ | ⟨-, -, dispatched⟩ := Residency.handlePagingOp_cases handled
    · exact absurd isGet (by decide)
    obtain ⟨slot, answered, named⟩ := Residency.dispatch_allocated dispatched
    exact ⟨slot, slotOf_eq (Residency.alloc_reserved answered), named⟩

/-- Until the connection's next request, and as long as the key is not removed, no other connection is
handed the slot behind a GET hit by an ALLOC of another key. -/
theorem hit_keeps_slot {arena : Arena} {swap : Store} {cap : Nat} {fresh : Residency Arena Store}
    {earlier later : List Event} (created : Residency.newCapped arena swap cap = .ok fresh)
    (run : Run (Guarded (Counts key) Step) ⟨fresh, []⟩ earlier peer)
    (got : Guarded (Counts key) Step peer (.handle id opGet key (.located offset)) hit)
    (window : Run (Guarded (fun peer event =>
      Counts key peer event ∧ ¬ event.Ends id ∧ ¬ event.Removes key) Step) hit later before)
    (allocated : Step before (.handle other opAlloc otherKey (.located offset')) after)
    (apart : other ≠ id) (differs : otherKey ≠ key) : offset' ≠ offset := by
  obtain ⟨consistent, balanced⟩ := run_counts created run
  obtain ⟨recorded, slot, held, rfl⟩ := got.2.hit_slot consistent
  have start : Reading (SlotArena.numSlots arena) hit.table.blobBytes id key slot hit :=
    ⟨got.2.consistent consistent, got.2.balanced consistent balanced got.1, rfl, recorded, held⟩
  have reading := window.guarded_invariant (Reading _ hit.table.blobBytes id key slot) start
    fun _ _ _ reading allowed step => step.reading reading allowed.1 allowed.2.1 allowed.2.2
  have reading := allocated.reading reading (by rintro ⟨_, _, ⟨⟩⟩) (by exact apart)
    (by rintro ⟨⟨⟩, -⟩)
  obtain ⟨slot', held', rfl⟩ := allocated.alloc_slot
  intro same
  have sized : 0 < hit.table.blobBytes := by
    rw [got.2.blobBytes, run_blobBytes run.unguarded]
    obtain ⟨positive, -, rfl⟩ := Residency.newCapped_eq created
    exact positive
  rw [reading.sized] at same
  have sameSlot : slot' = slot := Nat.eq_of_mul_eq_mul_right sized same
  exact differs (reading.consistent.slots.ownedOnce _ _ slot (sameSlot ▸ held') reading.held)

omit [SlotArena Arena] [SwapStore Store] in
/-- The requests of other connections may stand between the GET and its reader's next request. -/
theorem between_request {actor : Nat} {op : Op} {requested : Key} {reply : PagingReply} (notGet : op ≠ opGet)
    (keeps : op ≠ opRemove) (apart : actor ≠ id) (middle : Peer Arena Store) (event : Event)
    (member : event ∈ request actor op requested reply)
    (before : event = .handle actor op requested reply → middle.table = peer.table) :
    Counts key middle event ∧ ¬ event.Ends id ∧ ¬ event.Removes key := by
  refine ⟨counts_request (fun isGet => absurd isGet notGet) middle event member before, ?_⟩
  simp only [request, List.mem_cons, List.not_mem_nil, or_false] at member
  obtain rfl | rfl | rfl | rfl := member
  · exact ⟨not_false, not_false⟩
  · exact ⟨not_false, not_false⟩
  · exact ⟨apart, fun removes => keeps removes.1⟩
  · exact ⟨not_false, not_false⟩

/-- Of two slots, the one behind the reply is the coldest; the third key takes the other. -/
theorem hit_keeps_slot_pinned : ∃ (fresh : Residency VecSlotArena MemSwapStore) (earlier later : List Event)
    (peer hit before after : Peer VecSlotArena MemSwapStore),
    Residency.newCapped (VecSlotArena.new 1 2) (MemSwapStore.new 1) 0 = .ok fresh ∧
    Run (Guarded (Counts 7) Step) ⟨fresh, []⟩ earlier peer ∧
    Guarded (Counts 7) Step peer (.handle 0 opGet 7 (.located 0)) hit ∧
    Run (Guarded (fun peer event =>
      Counts 7 peer event ∧ ¬ event.Ends 0 ∧ ¬ event.Removes 7) Step) hit later before ∧
    Step before (.handle 1 opAlloc 9 (.located 1)) after ∧ (1 : Nat) ≠ 0 := by
  have run : ∃ (fresh : Residency VecSlotArena MemSwapStore) (earlier later : List Event)
      (peer hit before after : Peer VecSlotArena MemSwapStore),
      Residency.newCapped (VecSlotArena.new 1 2) (MemSwapStore.new 1) 0 = .ok fresh ∧
      Run (Guarded (Counts 7) Step) ⟨fresh, []⟩ earlier peer ∧
      Guarded (Counts 7) Step peer (.handle 0 opGet 7 (.located 0)) hit ∧
      Run (Guarded (fun peer event =>
        Counts 7 peer event ∧ ¬ event.Ends 0 ∧ ¬ event.Removes 7) Step) hit later before ∧
      Step before (.handle 1 opAlloc 9 (.located 1)) after := by
    refine ⟨_, _, _, _, _, _, _, rfl,
      .trans (.prepend ⟨?_, .accept⟩ <| .single ⟨?_, .accept⟩) <|
        .trans (run_guarded_request 0 opAlloc 7 rfl (by decide) rfl (counts_request nofun)) <|
        .trans (run_guarded_request 0 opCommit 7 rfl (by decide) rfl (counts_request nofun)) <|
        .prepend ⟨?_, (.readOp rfl : Step _ (.readOp 0 (some opGet)) _)⟩ <|
        .single ⟨?_, (.readKey rfl : Step _ (.readKey 0 (some 7)) _)⟩,
      ⟨?_, .handle rfl rfl⟩,
      .trans (.single ⟨?_, (.writeReply rfl : Step _ (.writeReply 0 true) _)⟩) <|
        .trans (run_guarded_request 1 opAlloc 8 rfl (by decide) rfl
          (between_request (by decide) (by decide) (by decide))) <|
        .trans (run_guarded_request 1 opCommit 8 rfl (by decide) rfl
          (between_request (by decide) (by decide) (by decide))) <|
        .prepend ⟨?_, (.readOp rfl : Step _ (.readOp 1 (some opAlloc)) _)⟩ <|
        .single ⟨?_, (.readKey rfl : Step _ (.readKey 1 (some 9)) _)⟩,
      .handle rfl rfl⟩
    case refine_5 =>
      refine fun _ => ⟨?_, by decide⟩
      rintro ⟨slot, stored⟩
      have resident : some (Loc.resident 0) = some (.reserved slot) := stored
      cases resident
    case refine_1 | refine_2 | refine_3 | refine_4 => rintro ⟨_, _, ⟨⟩⟩
    all_goals
      refine ⟨?_, not_false, not_false⟩
      rintro ⟨_, _, ⟨⟩⟩
  obtain ⟨fresh, earlier, later, peer, hit, before, after, created, run, got, window, allocated⟩ := run
  exact ⟨fresh, earlier, later, peer, hit, before, after, created, run, got, window, allocated,
    hit_keeps_slot created run got window allocated (by decide) (by decide)⟩

/-- Another connection removes the key that is being read, and is handed its slot. -/
theorem removed_slot_is_reused : ¬ ∀ (arena : VecSlotArena) (swap : MemSwapStore) cap fresh earlier later
    (peer hit before after : Peer VecSlotArena MemSwapStore) id other key otherKey offset offset',
    Residency.newCapped arena swap cap = .ok fresh → Run Step ⟨fresh, []⟩ earlier peer →
    Step peer (.handle id opGet key (.located offset)) hit →
    Run (Guarded (fun _ event => ¬ event.Ends id) Step) hit later before →
    Step before (.handle other opAlloc otherKey (.located offset')) after →
    other ≠ id → offset' ≠ offset := by
  intro safe
  refine safe (VecSlotArena.new 1 1) (MemSwapStore.new 1) 0 _ _ _ _ _ _ _ 0 1 7 8 0 0 rfl
    (.prepend .accept <| .prepend .accept <| (run_request 0 opAlloc 7 rfl (by decide) rfl).trans <|
      (run_request 0 opCommit 7 rfl (by decide) rfl).trans <|
      .prepend (.readOp rfl : Step _ (.readOp 0 (some opGet)) _) <|
      .single (.readKey rfl : Step _ (.readKey 0 (some 7)) _))
    (.handle rfl rfl)
    (.prepend ⟨?_, (.writeReply rfl : Step _ (.writeReply 0 true) _)⟩ <|
      .prepend ⟨?_, (.readOp rfl : Step _ (.readOp 1 (some opRemove)) _)⟩ <|
      .prepend ⟨?_, (.readKey rfl : Step _ (.readKey 1 (some 7)) _)⟩ <|
      .prepend ⟨?_, (.handle rfl rfl : Step _ (.handle 1 opRemove 7 .ok) _)⟩ <|
      .prepend ⟨?_, (.writeReply rfl : Step _ (.writeReply 1 true) _)⟩ <|
      .prepend ⟨?_, (.readOp rfl : Step _ (.readOp 1 (some opAlloc)) _)⟩ <|
      .single ⟨?_, (.readKey rfl : Step _ (.readKey 1 (some 8)) _)⟩)
    (.handle rfl rfl) (by decide) rfl
  all_goals rintro ⟨⟩

end Peer

end Metrale.Storage
