import Metrale.Foundation.IndexedSums
import Metrale.Storage.ResidencyFrame
import Metrale.Storage.ResidencyMoves
import Metrale.Storage.Wire

/-! # Pins and connections

A connection takes a pin when a GET hits and gives it back at its next request or on its way out.  What
it gives back is the key it has recorded, which is not the same: a hit on a reserved key records a pin
that was not taken, and a loop that returns through `?` keeps the pin it took. -/

namespace Metrale.Storage

open Metrale.Foundation

namespace Residency

open PageTable (Consistent)

variable {Arena Store : Type*} {table after : Residency Arena Store} {numSlots : Nat} {key other : Key}
  {op : Op} {reply : PagingReply} {pinned pinned' : Option Key}

def Reserved (map : HashMap Key Loc) (key : Key) : Prop := ∃ slot, map.lookup key = some (.reserved slot)

/-! ## One pin -/

def released (count : UInt32) : Option UInt32 := if count - 1 = 0 then none else some (count - 1)

theorem unpinRead_map (table : Residency Arena Store) (key : Key) : (table.unpinRead key).map = table.map := by
  obtain ⟨lru, readPins, same⟩ := unpinRead_eq table key
  rw [same]

theorem unpinRead_blobBytes (table : Residency Arena Store) (key : Key) :
    (table.unpinRead key).blobBytes = table.blobBytes := by
  obtain ⟨lru, readPins, same⟩ := unpinRead_eq table key
  rw [same]

theorem unpinRead_lookup (table : Residency Arena Store) (key other : Key) :
    (table.unpinRead key).readPins.lookup other =
      if other = key then (table.readPins.lookup key).bind released else table.readPins.lookup other := by
  simp only [unpinRead]
  split
  · next none =>
    by_cases same : other = key
    · rw [if_pos same, same, none]
      rfl
    · rw [if_neg same]
  · next count counted =>
    rw [counted, Option.bind_some, released]
    split
    · split
      · split <;> exact HashMap.lookup_erase_if ..
      · exact HashMap.lookup_erase_if ..
    · exact HashMap.lookup_insert_if ..

theorem pinRead_map (table : Residency Arena Store) (key : Key) : (table.pinRead key).map = table.map := by
  obtain ⟨lru, readPins, same⟩ := pinRead_eq table key
  rw [same]

theorem pinRead_blobBytes (table : Residency Arena Store) (key : Key) :
    (table.pinRead key).blobBytes = table.blobBytes := by
  obtain ⟨lru, readPins, same⟩ := pinRead_eq table key
  rw [same]

theorem pinRead_lookup (resident : Resident table.map key) (other : Key) :
    (table.pinRead key).readPins.lookup other =
      if other = key then some (table.readPinCount key + 1) else table.readPins.lookup other := by
  obtain ⟨slot, stored⟩ := resident
  simp only [pinRead]
  rw [stored]
  dsimp only
  exact HashMap.lookup_insert_if ..

theorem pinRead_of_not_resident (absent : ¬ Resident table.map key) : table.pinRead key = table := by
  simp only [pinRead]
  split
  · next slot stored => exact absurd ⟨slot, stored⟩ absent
  · rfl

theorem releasePin_map (table : Residency Arena Store) (pinned : Option Key) :
    (table.releasePin pinned).map = table.map := by
  cases pinned with
  | none => rfl
  | some prev => exact unpinRead_map table prev

theorem releasePin_blobBytes (table : Residency Arena Store) (pinned : Option Key) :
    (table.releasePin pinned).blobBytes = table.blobBytes := by
  cases pinned with
  | none => rfl
  | some prev => exact unpinRead_blobBytes table prev

theorem releasePin_lookup (table : Residency Arena Store) (pinned : Option Key) (key : Key) :
    (table.releasePin pinned).readPins.lookup key =
      if pinned = some key then (table.readPins.lookup key).bind released
      else table.readPins.lookup key := by
  cases pinned with
  | none => rfl
  | some prev =>
    rw [releasePin, unpinRead_lookup]
    by_cases same : key = prev
    · rw [if_pos same, if_pos (same ▸ rfl), same]
    · rw [if_neg same, if_neg fun recorded => same (Option.some.inj recorded).symm]

theorem releasePin_consistent (consistent : Consistent numSlots {} table.pages) (pinned : Option Key) :
    Consistent numSlots {} (table.releasePin pinned).pages := by
  cases pinned with
  | none => exact consistent
  | some prev => exact unpinRead_consistent consistent

/-! ## One request -/

variable [SlotArena Arena] [SwapStore Store]

inductive Dispatches (op : Op) (key : Key) (table : Residency Arena Store) :
    PagingReply → Residency Arena Store → Prop where
  | alloc {reply : PagingReply} {answer : Except Error Nat} {after : Residency Arena Store} (isAlloc : op = opAlloc)
      (answered : table.alloc key = (answer, after))
      (located : ∀ offset, reply = .located offset ↔ ∃ slot, answer = .ok slot ∧ offset = after.slotOffset slot) :
      Dispatches op key table reply after
  | commit {reply : PagingReply} {answer : Except Error Unit} {after : Residency Arena Store} (isCommit : op = opCommit)
      (answered : table.commit key = (answer, after))
      (succeeds : reply = .ok ↔ answer = .ok ()) (unlocated : ∀ offset, reply ≠ .located offset) :
      Dispatches op key table reply after
  | get {reply : PagingReply} {answer : Except Error (Option Nat)} {after : Residency Arena Store} (isGet : op = opGet)
      (answered : table.locate key = (answer, after))
      (located : ∀ offset,
        reply = .located offset ↔ ∃ slot, answer = .ok (some slot) ∧ offset = after.slotOffset slot) :
      Dispatches op key table reply after
  | remove (isRemove : op = opRemove) : Dispatches op key table .ok (table.remove key)
  | other {reply : PagingReply} (notAlloc : op ≠ opAlloc) (notCommit : op ≠ opCommit) (notGet : op ≠ opGet)
      (notRemove : op ≠ opRemove) (unlocated : ∀ offset, reply ≠ .located offset) :
      Dispatches op key table reply table

theorem dispatch_cases (dispatched : table.dispatch op key = (reply, after)) :
    Dispatches op key table reply after := by
  simp only [dispatch] at dispatched
  split at dispatched
  · next bye =>
    cases dispatched
    refine .other ?_ ?_ ?_ ?_ nofun <;> rw [bye] <;> decide
  split at dispatched
  · next isAlloc =>
    split at dispatched
    · next slot table answered =>
      cases dispatched
      refine .alloc isAlloc answered fun offset => ?_
      constructor
      · rintro ⟨⟩
        exact ⟨slot, rfl, rfl⟩
      · rintro ⟨_, ⟨⟩, rfl⟩
        rfl
    · next answered =>
      cases dispatched
      exact .alloc isAlloc answered fun offset => ⟨nofun, nofun⟩
  split at dispatched
  · next isCommit =>
    split at dispatched
    · next answered =>
      cases dispatched
      exact .commit isCommit answered (iff_of_true rfl rfl) nofun
    · next answered =>
      cases dispatched
      exact .commit isCommit answered ⟨nofun, nofun⟩ nofun
  split at dispatched
  · next isGet =>
    split at dispatched
    · next slot table answered =>
      cases dispatched
      refine .get isGet answered fun offset => ?_
      constructor
      · rintro ⟨⟩
        exact ⟨slot, rfl, rfl⟩
      · rintro ⟨_, ⟨⟩, rfl⟩
        rfl
    · next answered =>
      cases dispatched
      exact .get isGet answered fun offset => ⟨nofun, nofun⟩
    · next answered =>
      cases dispatched
      exact .get isGet answered fun offset => ⟨nofun, nofun⟩
  split at dispatched
  · next isRemove =>
    cases dispatched
    exact .remove isRemove
  · next notAlloc notCommit notGet notRemove =>
    cases dispatched
    exact .other notAlloc notCommit notGet notRemove nofun

theorem dispatch_allocated {offset : Nat} (dispatched : table.dispatch opAlloc key = (.located offset, after)) :
    ∃ slot, table.alloc key = (.ok slot, after) ∧ offset = after.slotOffset slot := by
  cases dispatch_cases dispatched with
  | alloc _ answered located =>
    obtain ⟨slot, rfl, named⟩ := (located offset).mp rfl
    exact ⟨slot, answered, named⟩
  | commit isCommit => exact absurd isCommit (by decide)
  | get isGet => exact absurd isGet (by decide)
  | other notAlloc => exact absurd rfl notAlloc

theorem dispatch_located {offset : Nat} (dispatched : table.dispatch opGet key = (.located offset, after)) :
    ∃ slot, table.locate key = (.ok (some slot), after) ∧ offset = after.slotOffset slot := by
  cases dispatch_cases dispatched with
  | alloc isAlloc => exact absurd isAlloc (by decide)
  | commit isCommit => exact absurd isCommit (by decide)
  | get _ answered located =>
    obtain ⟨slot, rfl, named⟩ := (located offset).mp rfl
    exact ⟨slot, answered, named⟩
  | other _ _ notGet => exact absurd rfl notGet

theorem dispatch_consistent (consistent : Consistent numSlots {} table.pages)
    (dispatched : table.dispatch op key = (reply, after)) : Consistent numSlots {} after.pages := by
  cases dispatch_cases dispatched with
  | alloc _ answered => exact alloc_consistent consistent answered
  | commit _ answered => exact commit_consistent consistent answered
  | get _ answered => exact locate_consistent consistent answered
  | remove => exact remove_consistent consistent
  | other => exact consistent

theorem dispatch_frame (dispatched : table.dispatch op key = (reply, after)) : Frame table after := by
  cases dispatch_cases dispatched with
  | alloc _ answered => exact alloc_frame answered
  | commit _ answered => exact commit_frame answered
  | get _ answered => exact locate_frame answered
  | remove => exact remove_frame table
  | other => exact .refl table

/-- A request releases the recorded pin and dispatches; a GET hit then pins and records its key. -/
theorem handlePagingOp_cases (handled : table.handlePagingOp op key pinned = (reply, pinned', after)) :
    (∃ offset middle, op = opGet ∧ reply = .located offset ∧ pinned' = some key ∧
      (table.releasePin pinned).dispatch op key = (reply, middle) ∧ after = middle.pinRead key) ∨
    ((op = opGet → ∀ offset, reply ≠ .located offset) ∧ pinned' = none ∧
      (table.releasePin pinned).dispatch op key = (reply, after)) := by
  simp only [handlePagingOp] at handled
  split at handled
  · next offset middle dispatched =>
    split at handled
    · next isGet =>
      cases handled
      exact .inl ⟨offset, middle, isGet, rfl, rfl, dispatched, rfl⟩
    · next notGet =>
      cases handled
      exact .inr ⟨fun isGet => absurd isGet notGet, rfl, dispatched⟩
  · next unlocated dispatched =>
    cases handled
    exact .inr ⟨fun _ offset located => unlocated offset located, rfl, dispatched⟩

theorem handlePagingOp_consistent (consistent : Consistent numSlots {} table.pages)
    (handled : table.handlePagingOp op key pinned = (reply, pinned', after)) :
    Consistent numSlots {} after.pages := by
  have start := releasePin_consistent consistent pinned
  obtain ⟨_, middle, -, -, -, dispatched, rfl⟩ | ⟨-, -, dispatched⟩ := handlePagingOp_cases handled
  · exact pinRead_consistent (dispatch_consistent start dispatched)
  · exact dispatch_consistent start dispatched

theorem handlePagingOp_blobBytes (handled : table.handlePagingOp op key pinned = (reply, pinned', after)) :
    after.blobBytes = table.blobBytes := by
  obtain ⟨_, middle, -, -, -, dispatched, rfl⟩ | ⟨-, -, dispatched⟩ := handlePagingOp_cases handled
  · rw [pinRead_blobBytes, (dispatch_frame dispatched).blobBytes, releasePin_blobBytes]
  · rw [(dispatch_frame dispatched).blobBytes, releasePin_blobBytes]

/-- What a request does to a key's pins.  A key it records it also pins, unless the key was reserved. -/
theorem handlePagingOp_pins (consistent : Consistent numSlots {} table.pages)
    (handled : table.handlePagingOp op key pinned = (reply, pinned', after)) (other : Key) :
    (after.readPins.lookup other = some ((table.releasePin pinned).readPinCount other + 1) ∧
      pinned' = some other ∧ op = opGet ∧ key = other) ∨
    (after.readPins.lookup other = (table.releasePin pinned).readPins.lookup other ∧
      (pinned' = some other → op = opGet ∧ key = other ∧ Reserved table.map other)) := by
  have start := releasePin_consistent consistent pinned
  obtain ⟨offset, middle, rfl, rfl, rfl, dispatched, rfl⟩ | ⟨-, rfl, dispatched⟩ :=
    handlePagingOp_cases handled
  · have pins := (dispatch_frame dispatched).readPins
    by_cases resident : Resident middle.map key
    · rw [pinRead_lookup resident, readPinCount, pins, ← readPinCount]
      by_cases same : other = key
      · subst same
        exact .inl ⟨if_pos rfl, rfl, rfl, rfl⟩
      · rw [if_neg same]
        exact .inr ⟨rfl, fun recorded => absurd (Option.some.inj recorded).symm same⟩
    · rw [pinRead_of_not_resident resident, pins]
      refine .inr ⟨rfl, ?_⟩
      rintro ⟨⟩
      obtain ⟨slot, answered, -⟩ := dispatch_located dispatched
      obtain ⟨reserved, -⟩ | ⟨-, stored⟩ := (locate_map start answered).1 slot rfl
      · rw [releasePin_map] at reserved
        exact ⟨rfl, rfl, slot, reserved⟩
      · exact absurd ⟨slot, stored⟩ resident
  · exact .inr ⟨by rw [(dispatch_frame dispatched).readPins], nofun⟩

end Residency

/-! ## Counts and holders -/

structure Balances (count : Option UInt32) (holders : Nat) : Prop where
  positive : count ≠ some 0
  balanced : (count.getD 0).toNat = holders

/-- The count is at most the number of holders, also where it has wrapped. -/
def AtMost (count : Option UInt32) (holders : Nat) : Prop :=
  ∀ number, count = some number → number.toNat ≤ holders ∧ (number = 0 → UInt32.size ≤ holders)

section Counts

open Residency (released)

variable {count : Option UInt32} {number : UInt32} {holders : Nat}

theorem toNat_sub_one (positive : number ≠ 0) : (number - 1).toNat + 1 = number.toNat := by
  have some : number.toNat ≠ 0 := fun zero => positive (UInt32.toNat_inj.mp zero)
  rw [UInt32.toNat_sub_of_le _ _ (UInt32.le_iff_toNat_le.mpr (by rw [UInt32.toNat_one]; omega)),
    UInt32.toNat_one]
  omega

theorem toNat_add_one (room : number ≠ 4294967295) : (number + 1).toNat = number.toNat + 1 := by
  have below := UInt32.toNat_lt number
  have notMax : number.toNat ≠ (4294967295 : UInt32).toNat := fun same => room (UInt32.toNat_inj.mp same)
  have max : (4294967295 : UInt32).toNat = 4294967295 := rfl
  rw [UInt32.toNat_add, UInt32.toNat_one, Nat.mod_eq_of_lt (by omega)]

theorem Balances.release (balances : Balances count (holders + 1)) :
    Balances (count.bind released) holders := by
  obtain ⟨positive, balanced⟩ := balances
  cases count with
  | none => cases balanced
  | some number =>
    have fewer := toNat_sub_one fun zero => positive (congrArg some zero)
    simp only [Option.getD_some] at balanced
    rw [Option.bind_some, released]
    split
    · next last =>
      rw [last] at fewer
      refine ⟨nofun, ?_⟩
      show 0 = holders
      have zero : (0 : UInt32).toNat = 0 := rfl
      omega
    · next more =>
      refine ⟨fun same => more (Option.some.inj same), ?_⟩
      rw [Option.getD_some]
      omega

theorem Balances.take (balances : Balances count holders) (room : count.getD 0 ≠ 4294967295) :
    Balances (some (count.getD 0 + 1)) (holders + 1) := by
  have more := toNat_add_one room
  rw [balances.balanced] at more
  refine ⟨fun zero => ?_, more⟩
  rw [Option.some.inj zero] at more
  cases more

theorem AtMost.release (atMost : AtMost count (holders + 1)) : AtMost (count.bind released) holders := by
  intro number' left
  cases count with
  | none => cases left
  | some number =>
    obtain ⟨below, wrapped⟩ := atMost number rfl
    rw [Option.bind_some, released] at left
    split at left
    · cases left
    · next more =>
      cases left
      refine ⟨?_, fun zero => absurd zero more⟩
      by_cases zero : number = 0
      · have wide := wrapped zero
        have narrow := UInt32.toNat_lt (number - 1)
        have size : UInt32.size = 2 ^ 32 := rfl
        omega
      · have fewer := toNat_sub_one zero
        omega

theorem AtMost.take (atMost : AtMost count holders) :
    AtMost (some (count.getD 0 + 1)) (holders + 1) := by
  rintro _ ⟨⟩
  have below : (count.getD 0).toNat ≤ holders := by
    cases count with
    | none => exact Nat.zero_le _
    | some number => exact (atMost number rfl).1
  by_cases full : count.getD 0 = 4294967295
  · rw [full] at below ⊢
    exact ⟨Nat.zero_le _, fun _ => Nat.succ_le_succ below⟩
  · have more := toNat_add_one full
    refine ⟨by omega, fun zero => ?_⟩
    rw [zero] at more
    cases more

theorem AtMost.record (atMost : AtMost count holders) : AtMost count (holders + 1) := by
  intro number counted
  obtain ⟨below, wrapped⟩ := atMost number counted
  exact ⟨Nat.le_succ_of_le below, fun zero => Nat.le_succ_of_le (wrapped zero)⟩

end Counts

namespace Peer

open PageTable (Consistent)
open Residency (Reserved)

variable {Arena Store : Type*} {peer after : Peer Arena Store} {numSlots id : Nat} {key : Key}
  {event : Event} {connection old : Connection}

/-- The connection has recorded the key and has not given it back: it is in its loop, or left through
`?`. -/
def Holds (key : Key) (connection : Connection) : Bool :=
  connection.pinned = some key ∧ connection.phase ≠ .returned

def holders (peer : Peer Arena Store) (key : Key) : Nat := peer.connections.countP (Holds key)

theorem holders_set (peer : Peer Arena Store) (connection : Connection) (key : Key)
    (at_ : peer.connections[id]? = some old) :
    (peer.set id connection).holders key + (if Holds key old then 1 else 0) =
      peer.holders key + (if Holds key connection then 1 else 0) :=
  countP_set_add (Holds key) peer.connections id old connection at_

theorem holds_iff (running : connection.phase ≠ .returned) :
    Holds key connection = true ↔ connection.pinned = some key := by
  simp [Holds, running]

def account (peer : Peer Arena Store) (key : Key) : Option UInt32 × Nat :=
  (peer.table.readPins.lookup key, peer.holders key)

def GetOf (key : Key) (event : Event) : Prop := ∃ id reply, event = .handle id opGet key reply

/-- A step may release a pin, and then may take one, or record one that it did not take. -/
theorem Step.pins [SlotArena Arena] [SwapStore Store]
    (consistent : Consistent numSlots {} peer.table.pages) (step : Step peer event after) (key : Key) :
    ∃ middle : Option UInt32 × Nat,
      (middle = peer.account key ∨
        (middle.1 = (peer.account key).1.bind Residency.released ∧ middle.2 + 1 = (peer.account key).2)) ∧
      (after.account key = middle ∨
        (after.account key = (some (middle.1.getD 0 + 1), middle.2 + 1) ∧ GetOf key event) ∨
        (after.account key = (middle.1, middle.2 + 1) ∧ GetOf key event ∧ Reserved peer.table.map key)) := by
  -- A step that only moves a connection along its loop keeps what it holds.
  have moved : ∀ {id old connection}, peer.connections[id]? = some old → old.phase ≠ .returned →
      connection.phase ≠ .returned → connection.pinned = old.pinned →
      (peer.set id connection).account key = peer.account key := by
    intro id old connection at_ running stays same
    have total := peer.holders_set connection key at_
    simp only [holds_iff running, holds_iff stays, same] at total
    exact Prod.ext rfl (Nat.add_right_cancel total)
  cases step with
  | accept =>
    refine ⟨_, .inl rfl, .inl (Prod.ext rfl ?_)⟩
    show List.countP _ (_ ++ _) = _
    rw [List.countP_append]
    rfl
  | readOp at_ => exact ⟨_, .inl rfl, .inl (moved at_ nofun (by dsimp only; split <;> nofun) rfl)⟩
  | hangUp at_ => exact ⟨_, .inl rfl, .inl (moved at_ nofun nofun rfl)⟩
  | readKey at_ => exact ⟨_, .inl rfl, .inl (moved at_ nofun nofun rfl)⟩
  | failRead at_ => exact ⟨_, .inl rfl, .inl (moved at_ nofun nofun rfl)⟩
  | writeReply at_ => exact ⟨_, .inl rfl, .inl (moved at_ nofun nofun rfl)⟩
  | failWrite at_ => exact ⟨_, .inl rfl, .inl (moved at_ nofun nofun rfl)⟩
  | rdma => exact ⟨_, .inl rfl, .inl rfl⟩
  | @leave id pinned at_ =>
    have total := { peer with table := peer.table.releasePin pinned }.holders_set ⟨.returned, none⟩ key at_
    have count := Residency.releasePin_lookup peer.table pinned key
    have before : Holds key ⟨.leaving, pinned⟩ = true ↔ pinned = some key := holds_iff nofun
    by_cases held : pinned = some key
    · rw [if_pos held] at count
      rw [if_pos (before.mpr held)] at total
      exact ⟨_, .inr ⟨count, total⟩, .inl rfl⟩
    · rw [if_neg held] at count
      rw [if_neg (mt before.mp held)] at total
      exact ⟨_, .inl (Prod.ext count total), .inl rfl⟩
  | @handle id op requested pinned reply pinned' table at_ handled =>
    -- Between the release and the pin, the connection records nothing.
    have bare := peer.holders_set ⟨.replying reply, none⟩ key at_
    have total := { peer with table }.holders_set ⟨.replying reply, pinned'⟩ key at_
    have count := Residency.releasePin_lookup peer.table pinned key
    have before : Holds key ⟨.locking op requested, pinned⟩ = true ↔ pinned = some key := holds_iff nofun
    have between : ¬ Holds key ⟨.replying reply, none⟩ = true := by simp [Holds]
    have afterwards : Holds key ⟨.replying reply, pinned'⟩ = true ↔ pinned' = some key := holds_iff nofun
    rw [if_neg between] at bare
    simp only [before] at bare
    simp only [before, afterwards] at total
    refine ⟨((peer.table.releasePin pinned).readPins.lookup key,
      (peer.set id ⟨.replying reply, none⟩).holders key), ?_, ?_⟩
    · by_cases held : pinned = some key
      · rw [if_pos held] at count bare
        exact .inr ⟨count, bare⟩
      · rw [if_neg held] at count bare
        exact .inl (Prod.ext count bare)
    · have same : ({ peer with table }.set id ⟨.replying reply, pinned'⟩).holders key =
          (peer.set id ⟨.replying reply, none⟩).holders key + if pinned' = some key then 1 else 0 := by
        change _ = peer.holders key + _ at total
        omega
      obtain ⟨pin, recorded, rfl, rfl⟩ | ⟨unpinned, reserved⟩ :=
        Residency.handlePagingOp_pins consistent handled key
      · rw [if_pos recorded] at same
        exact .inr (.inl ⟨Prod.ext pin same, id, reply, rfl⟩)
      · by_cases recorded : pinned' = some key
        · rw [if_pos recorded] at same
          obtain ⟨rfl, rfl, reserved⟩ := reserved recorded
          exact .inr (.inr ⟨Prod.ext unpinned same, ⟨id, reply, rfl⟩, reserved⟩)
        · rw [if_neg recorded] at same
          exact .inl (Prod.ext unpinned same)

variable [SlotArena Arena] [SwapStore Store]

theorem Step.consistent (consistent : Consistent numSlots {} peer.table.pages)
    (step : Step peer event after) : Consistent numSlots {} after.table.pages := by
  cases step with
  | handle at_ handled => exact Residency.handlePagingOp_consistent consistent handled
  | leave at_ => exact Residency.releasePin_consistent consistent _
  | _ => exact consistent

theorem Step.blobBytes (step : Step peer event after) : after.table.blobBytes = peer.table.blobBytes := by
  cases step with
  | handle at_ handled => exact Residency.handlePagingOp_blobBytes handled
  | leave at_ => exact Residency.releasePin_blobBytes _ _
  | _ => rfl

/-! ## Balance -/

/-- A GET of the key finds it committed or on disk, and its count short of the largest. -/
def Counts (key : Key) (peer : Peer Arena Store) (event : Event) : Prop :=
  GetOf key event → ¬ Reserved peer.table.map key ∧ peer.table.readPinCount key ≠ 4294967295

def Balanced (key : Key) (peer : Peer Arena Store) : Prop :=
  Balances (peer.account key).1 (peer.account key).2

theorem Step.balanced (consistent : Consistent numSlots {} peer.table.pages)
    (balanced : peer.Balanced key) (counts : Counts key peer event) (step : Step peer event after) :
    after.Balanced key := by
  simp only [Balanced] at balanced ⊢
  obtain ⟨⟨count, holders⟩, dropped, taken⟩ := step.pins consistent key
  have middle : Balances count holders ∧
      (peer.table.readPinCount key ≠ 4294967295 → count.getD 0 ≠ 4294967295) := by
    obtain same | ⟨rfl, fewer⟩ := dropped
    · obtain ⟨rfl, rfl⟩ := Prod.mk.inj same
      exact ⟨balanced, id⟩
    · have balanced : Balances (peer.account key).1 (holders + 1) := by
        rw [fewer]
        exact balanced
      refine ⟨balanced.release, fun _ full => ?_⟩
      have one := balanced.balanced
      have left := balanced.release.balanced
      have most := UInt32.toNat_lt ((peer.account key).1.getD 0)
      rw [full] at left
      have max : (4294967295 : UInt32).toNat = 4294967295 := rfl
      omega
  obtain ⟨middle, room⟩ := middle
  obtain same | ⟨same, got⟩ | ⟨same, got, reserved⟩ := taken
  · rw [same]
    exact middle
  · rw [same]
    exact middle.take (room (counts got).2)
  · exact absurd reserved (counts got).1

omit [SlotArena Arena] [SwapStore Store] in
theorem start_balanced {fresh : Residency Arena Store} (unpinned : fresh.readPins = ∅) (key : Key) :
    Balanced key ⟨fresh, []⟩ := by
  simp only [Balanced, account]
  rw [unpinned]
  exact ⟨nofun, rfl⟩

theorem run_consistent {arena : Arena} {swap : Store} {cap : Nat} {fresh : Residency Arena Store}
    {events : List Event} (created : Residency.newCapped arena swap cap = .ok fresh)
    (run : Run Step ⟨fresh, []⟩ events peer) :
    Consistent (SlotArena.numSlots arena) {} peer.table.pages :=
  run.invariant (fun peer => Consistent (SlotArena.numSlots arena) {} peer.table.pages)
    (Residency.newCapped_consistent created) fun _ _ _ consistent step => step.consistent consistent

theorem run_counts {arena : Arena} {swap : Store} {cap : Nat} {fresh : Residency Arena Store}
    {events : List Event} (created : Residency.newCapped arena swap cap = .ok fresh)
    (run : Run (Guarded (Counts key) Step) ⟨fresh, []⟩ events peer) :
    Consistent (SlotArena.numSlots arena) {} peer.table.pages ∧ peer.Balanced key := by
  have start := Residency.newCapped_consistent created
  obtain ⟨-, -, rfl⟩ := Residency.newCapped_eq created
  exact run.guarded_invariant
    (fun peer => Consistent (SlotArena.numSlots arena) {} peer.table.pages ∧ peer.Balanced key)
    ⟨start, start_balanced rfl key⟩
    fun _ _ _ ⟨consistent, balanced⟩ counts step =>
      ⟨step.consistent consistent, step.balanced consistent balanced counts⟩

/-- As long as the key is not reserved when a GET of it is answered, its count is the number of
connections that have recorded it and not given it back, those included that left through `?`. -/
theorem run_balanced {arena : Arena} {swap : Store} {cap : Nat} {fresh : Residency Arena Store}
    {events : List Event} (created : Residency.newCapped arena swap cap = .ok fresh)
    (run : Run (Guarded (Counts key) Step) ⟨fresh, []⟩ events peer) :
    (peer.table.readPinCount key).toNat = peer.holders key :=
  (run_counts created run).2.balanced

omit [SlotArena Arena] [SwapStore Store] in
theorem counts_request {op : Op} {requested : Key} {reply : PagingReply}
    (counted : op = opGet → requested = key →
      ¬ Reserved peer.table.map key ∧ peer.table.readPinCount key ≠ 4294967295)
    (middle : Peer Arena Store) (event : Event) (member : event ∈ request id op requested reply)
    (before : event = .handle id op requested reply → middle.table = peer.table) :
    Counts key middle event := by
  rintro ⟨other, answer, rfl⟩
  simp only [request, List.mem_cons, List.not_mem_nil, reduceCtorEq, Event.handle.injEq, false_or,
    or_false] at member
  obtain ⟨rfl, isGet, same, rfl⟩ := member
  subst isGet same
  rw [before rfl]
  exact counted rfl rfl

/-- Two connections read key 7, the first of them twice. -/
theorem run_balanced_shared : ∃ (fresh : Residency VecSlotArena MemSwapStore) (events : List Event)
    (peer : Peer VecSlotArena MemSwapStore),
    Residency.newCapped (VecSlotArena.new 1 1) (MemSwapStore.new 1) 0 = .ok fresh ∧
    Run (Guarded (Counts 7) Step) ⟨fresh, []⟩ events peer ∧ (peer.table.readPinCount 7).toNat = 2 ∧
    (peer.table.readPinCount 7).toNat = peer.holders 7 := by
  have run : ∃ (fresh : Residency VecSlotArena MemSwapStore) (events : List Event)
      (peer : Peer VecSlotArena MemSwapStore),
      Residency.newCapped (VecSlotArena.new 1 1) (MemSwapStore.new 1) 0 = .ok fresh ∧
      Run (Guarded (Counts 7) Step) ⟨fresh, []⟩ events peer ∧ (peer.table.readPinCount 7).toNat = 2 := by
    have accepts : ∀ peer : Peer VecSlotArena MemSwapStore, Counts 7 peer .accept := by
      rintro _ ⟨_, _, ⟨⟩⟩
    refine ⟨_, _, _, rfl, .trans (.prepend ⟨accepts _, .accept⟩ (.single ⟨accepts _, .accept⟩)) <|
      .trans (run_guarded_request 0 opAlloc 7 rfl (by decide) rfl (counts_request nofun)) <|
      .trans (run_guarded_request 0 opCommit 7 rfl (by decide) rfl (counts_request nofun)) <|
      .trans (run_guarded_request 0 opGet 7 rfl (by decide) rfl (counts_request ?_)) <|
      .trans (run_guarded_request 1 opGet 7 rfl (by decide) rfl (counts_request ?_)) <|
      run_guarded_request 0 opGet 7 rfl (by decide) rfl (counts_request ?_), rfl⟩
    all_goals
      rintro - -
      refine ⟨?_, by decide⟩
      rintro ⟨slot, stored⟩
      have resident : some (Loc.resident 0) = some (.reserved slot) := stored
      cases resident
  obtain ⟨fresh, events, peer, created, run, two⟩ := run
  exact ⟨fresh, events, peer, created, run, two, run_balanced created run⟩

/-- A reply that cannot be written ends the loop with the pin of its GET still taken. -/
theorem failed_write_unbalances : ¬ ∀ (arena : VecSlotArena) (swap : MemSwapStore) cap fresh events
    (peer : Peer VecSlotArena MemSwapStore) key, Residency.newCapped arena swap cap = .ok fresh →
    Run Step ⟨fresh, []⟩ events peer →
    (peer.table.readPinCount key).toNat = peer.connections.countP fun connection =>
      connection.pinned = some key ∧ connection.phase ≠ .returned ∧ connection.phase ≠ .failed := by
  intro balanced
  have one := balanced (VecSlotArena.new 1 1) (MemSwapStore.new 1) 0 _ _ _ 7 rfl <|
    .prepend .accept <| (run_request 0 opAlloc 7 rfl (by decide) rfl).trans <|
    (run_request 0 opCommit 7 rfl (by decide) rfl).trans <|
    .prepend (.readOp rfl : Step _ (.readOp 0 (some opGet)) _) <|
    .prepend (.readKey rfl : Step _ (.readKey 0 (some 7)) _) <|
    .prepend (.handle rfl rfl : Step _ (.handle 0 opGet 7 (.located 0)) _) <|
    .single (.failWrite rfl : Step _ (.writeReply 0 false) _)
  exact absurd one (by decide)

/-! ## Departed connections -/

/-- The connection leaves its loop. -/
def Event.Exits : Event → Prop
  | .readOp _ none | .readKey _ none | .writeReply _ false | .leave _ => True
  | .readOp _ (some op) => op = opBye
  | _ => False

theorem Step.exit_map (step : Step peer event after) (exits : event.Exits) :
    after.table.map = peer.table.map := by
  cases step with
  | handle => cases exits
  | leave at_ => exact Residency.releasePin_map _ _
  | _ => rfl

theorem Step.atMost (consistent : Consistent numSlots {} peer.table.pages)
    (atMost : AtMost (peer.account key).1 (peer.account key).2) (step : Step peer event after) :
    AtMost (after.account key).1 (after.account key).2 := by
  obtain ⟨⟨count, holders⟩, dropped, taken⟩ := step.pins consistent key
  have middle : AtMost count holders := by
    obtain same | ⟨rfl, fewer⟩ := dropped
    · obtain ⟨rfl, rfl⟩ := Prod.mk.inj same
      exact atMost
    · have atMost : AtMost (peer.account key).1 (holders + 1) := by
        rw [fewer]
        exact atMost
      exact atMost.release
  obtain same | ⟨same, -⟩ | ⟨same, -⟩ := taken
  · rw [same]
    exact middle
  · rw [same]
    exact middle.take
  · rw [same]
    exact middle.record

end Peer

end Metrale.Storage
