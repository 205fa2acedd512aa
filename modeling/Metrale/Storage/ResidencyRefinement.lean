import Metrale.Storage.ResidencyContents
import Metrale.Storage.ResidencyFrame

/-! # The residency refines a map

`BlobMap.Lossy` is the store that a caller may rely on whatever the devices do, and `BlobMap.Exact`
the one it gets from an uncapped residency whose devices do not fail.  Every run of put, get and
remove calls is a run of the former; a run in which no watched device failed is a run of the
latter. -/

namespace Metrale.Storage

open Metrale.Foundation

/-- What the store stands for: the bytes of the last successful put of a key since its last
removal. -/
abbrev BlobMap := Key → Option Bytes

namespace BlobMap

open Residency (Call)

inductive Lossy : BlobMap → Call → BlobMap → Prop where
  | stored {blobs key bytes} :
      Lossy blobs (.putBlob key bytes (.ok ())) (Function.update blobs key (some bytes))
  | notStored {blobs key bytes error} : Lossy blobs (.putBlob key bytes (.error error)) blobs
  | hit {blobs key outLength bytes} (has : blobs key = some bytes) :
      Lossy blobs (.getBlob key outLength (.ok (some bytes))) blobs
  | miss {blobs key outLength} : Lossy blobs (.getBlob key outLength (.ok none)) blobs
  | notRead {blobs key outLength error} : Lossy blobs (.getBlob key outLength (.error error)) blobs
  | removed {blobs key} : Lossy blobs (.remove key) (Function.update blobs key none)

inductive Exact (blobBytes : Nat) : BlobMap → Call → BlobMap → Prop where
  | stored {blobs key bytes} (sized : bytes.length = blobBytes) :
      Exact blobBytes blobs (.putBlob key bytes (.ok ())) (Function.update blobs key (some bytes))
  | wrongBlob {blobs key bytes error} (wrong : bytes.length ≠ blobBytes) :
      Exact blobBytes blobs (.putBlob key bytes (.error error)) blobs
  | got {blobs key outLength} (sized : outLength = blobBytes) :
      Exact blobBytes blobs (.getBlob key outLength (.ok (blobs key))) blobs
  | wrongBuffer {blobs key outLength error} (wrong : outLength ≠ blobBytes) :
      Exact blobBytes blobs (.getBlob key outLength (.error error)) blobs
  | removed {blobs key} : Exact blobBytes blobs (.remove key) (Function.update blobs key none)

def empty : BlobMap := fun _ => none

end BlobMap

namespace Residency

open PageTable (Consistent)

/-- The calls of a caller that never handles slots. -/
def MapCall {State : Type*} (_ : State) : Call → Prop
  | .putBlob .. | .getBlob .. | .remove .. => True
  | _ => False

variable {Arena Store : Type*} [SlotArena Arena] [SwapStore Store] {numSlots slot diskSlot : Nat}
  {key : Key} {hidden : Option Key} {blobs : BlobMap}

/-! ## Never other bytes -/

section Lossy

variable [LawfulSlotArena Arena] [LawfulSwapStore Store] {table after : Residency Arena Store}

def Holds (table : Residency Arena Store) (blobs : BlobMap) : Prop :=
  ∀ key loc, table.map.lookup key = some loc → blobs key = some (table.bytesAt loc)

theorem Holds.carried (holds : table.Holds blobs) (carried : ∀ key, Carries table after key) :
    after.Holds blobs := by
  intro key loc stored
  obtain ⟨origin, present, same⟩ := carried key loc stored
  rw [same]
  exact holds key origin present

theorem Holds.update {value : Option Bytes} (holds : table.Holds blobs)
    (carried : ∀ other, other ≠ key → Carries table after other)
    (here : ∀ loc, after.map.lookup key = some loc → value = some (after.bytesAt loc)) :
    after.Holds (Function.update blobs key value) := by
  intro other loc stored
  by_cases same : other = key
  · subst same
    rw [Function.update_self]
    exact here loc stored
  · obtain ⟨origin, present, moved⟩ := carried other same loc stored
    rw [Function.update_of_ne same, moved]
    exact holds other origin present

theorem Holds.remove (holds : table.Holds blobs) (consistent : Consistent numSlots {} table.pages) :
    (table.remove key).Holds (Function.update blobs key none) := by
  refine holds.update (fun other differs => remove_carries consistent differs) ?_
  intro loc stored
  rw [remove_map, HashMap.lookup_erase_if, if_pos rfl] at stored
  cases stored

structure Tracks (numSlots : Nat) (table : Residency Arena Store) (blobs : BlobMap) : Prop where
  consistent : Consistent numSlots {} table.pages
  holds : table.Holds blobs

theorem Step.lossy {call : Call} (tracks : Tracks numSlots table blobs) (allowed : MapCall table call)
    (step : Step table call after) :
    ∃ blobs', BlobMap.Lossy blobs call blobs' ∧ Tracks numSlots after blobs' := by
  obtain ⟨consistent, holds⟩ := tracks
  have consistentAfter := step.consistent consistent
  suffices answered : ∃ blobs', BlobMap.Lossy blobs call blobs' ∧ after.Holds blobs' by
    obtain ⟨blobs', answered, holds'⟩ := answered
    exact ⟨blobs', answered, consistentAfter, holds'⟩
  cases step with
  | @putBlob _ key bytes answer answered =>
    obtain ⟨carried, ⟨error, rfl, kept⟩ | ⟨rfl, slot, stored, bytes⟩⟩ :=
      putBlob_carries consistent answered
    · refine ⟨blobs, .notStored, holds.carried fun other => ?_⟩
      by_cases same : other = key
      · exact same ▸ kept
      · exact carried other same
    · refine ⟨_, .stored, holds.update carried ?_⟩
      intro loc located
      cases located.symm.trans stored
      rw [bytes]
  | @getBlob _ key outLength answer answered =>
    obtain ⟨carried, hit, -⟩ := getBlob_carries consistent answered
    refine ⟨blobs, ?_, holds.carried carried⟩
    rcases answer with error | _ | bytes
    · exact .notRead
    · exact .miss
    · obtain ⟨loc, stored, same⟩ := hit bytes rfl
      refine .hit ?_
      rw [same]
      exact holds key loc stored
  | remove => exact ⟨_, .removed, holds.remove consistent⟩
  | alloc | commit | locate | pinRead | unpinRead | arenaMut => exact allowed.elim

end Lossy

/-! ## Nothing is lost -/

/-- What an uncapped residency keeps: its setup, every key, and no reservation but that of `writing`. -/
structure Keeps (writing : Option Key) (before after : Residency Arena Store) : Prop where
  maxDiskSlots : after.maxDiskSlots = before.maxDiskSlots
  blobBytes : after.blobBytes = before.blobBytes
  readPins : after.readPins = before.readPins
  present : ∀ key, before.map.lookup key ≠ none → after.map.lookup key ≠ none
  reserved : ∀ key slot, after.map.lookup key = some (.reserved slot) →
    before.map.lookup key = some (.reserved slot) ∨ writing = some key

section Uncapped

variable {table middle after : Residency Arena Store}

omit [SlotArena Arena] [SwapStore Store] in
theorem Keeps.same {writing : Option Key} (sameMap : after.map = table.map)
    (maxDiskSlots : after.maxDiskSlots = table.maxDiskSlots) (blobBytes : after.blobBytes = table.blobBytes)
    (readPins : after.readPins = table.readPins) : Keeps writing table after :=
  ⟨maxDiskSlots, blobBytes, readPins, fun _ => by rw [sameMap]; exact id,
    fun _ _ => by rw [sameMap]; exact .inl⟩

omit [SlotArena Arena] [SwapStore Store] in
theorem Keeps.trans {writing : Option Key} (earlier : Keeps none table middle)
    (later : Keeps writing middle after) : Keeps writing table after where
  maxDiskSlots := later.maxDiskSlots.trans earlier.maxDiskSlots
  blobBytes := later.blobBytes.trans earlier.blobBytes
  readPins := later.readPins.trans earlier.readPins
  present := fun key => later.present key ∘ earlier.present key
  reserved := by
    intro key slot stored
    obtain kept | own := later.reserved key slot stored
    · obtain first | impossible := earlier.reserved key slot kept
      · exact .inl first
      · cases impossible
    · exact .inr own

omit [SlotArena Arena] [SwapStore Store] in
theorem Keeps.moved {loc : Loc} {writing : Option Key}
    (sameMap : after.map = table.map.insert key loc)
    (maxDiskSlots : after.maxDiskSlots = table.maxDiskSlots) (blobBytes : after.blobBytes = table.blobBytes)
    (readPins : after.readPins = table.readPins)
    (reservation : ∀ slot, loc = .reserved slot → writing = some key) : Keeps writing table after where
  maxDiskSlots := maxDiskSlots
  blobBytes := blobBytes
  readPins := readPins
  present := by
    intro other present
    rw [sameMap, HashMap.lookup_insert_if]
    split
    · exact nofun
    · exact present
  reserved := by
    intro other slot stored
    rw [sameMap, HashMap.lookup_insert_if] at stored
    split at stored
    · next here =>
      cases stored
      exact .inr (here ▸ reservation slot rfl)
    · exact .inl stored

theorem copyOut_keeps {answer : Except Error Unit}
    (copy : table.copyOut slot diskSlot = (answer, after)) : Keeps none table after := by
  simp only [copyOut] at copy
  split at copy <;> cases copy <;> exact .same rfl rfl rfl rfl

theorem copyIn_keeps {answer : Except Error Unit}
    (copy : table.copyIn diskSlot slot = (answer, after)) : Keeps none table after := by
  simp only [copyIn] at copy
  split at copy <;> cases copy <;> exact .same rfl rfl rfl rfl

omit [SlotArena Arena] [SwapStore Store] in
theorem allocDiskSlot_keeps (table : Residency Arena Store) : Keeps none table table.allocDiskSlot.2 := by
  simp only [allocDiskSlot]
  split <;> exact .same rfl rfl rfl rfl

theorem evictColdestToDisk_keeps {answer : Except Error Nat}
    (consistent : Consistent numSlots { diskKey := hidden } table.pages)
    (answered : table.evictColdestToDisk = (answer, after)) (uncapped : table.maxDiskSlots = 0) :
    Keeps none table after := by
  obtain ⟨-, -, rfl⟩ | ⟨roomy, victim, lru, slot, diskSlot, copied, spilling, -, done⟩ :=
    evictColdestToDisk_cases consistent answered
  · exact .same rfl rfl rfl rfl
  have room : { table with lru }.makeDiskRoom = { table with lru } := if_pos uncapped
  have made := spilling.made
  rw [room] at made
  have allocated := allocDiskSlot_keeps { table with lru }
  rw [made] at allocated
  have popped : Keeps none table { table with lru } := .same rfl rfl rfl rfl
  have roomy := popped.trans allocated
  obtain ⟨error, copy, rfl, rfl⟩ | ⟨copy, rfl, rfl⟩ := done
  · exact (roomy.trans (copyOut_keeps copy)).trans (.same rfl rfl rfl rfl)
  · exact (roomy.trans (copyOut_keeps copy)).trans (.moved rfl rfl rfl rfl nofun)

theorem acquireSlot_keeps {answer : Except Error Nat}
    (consistent : Consistent numSlots { diskKey := hidden } table.pages)
    (answered : table.acquireSlot = (answer, after)) (uncapped : table.maxDiskSlots = 0) :
    Keeps none table after := by
  simp only [acquireSlot] at answered
  split at answered
  · cases answered
    exact .same rfl rfl rfl rfl
  · exact evictColdestToDisk_keeps consistent answered uncapped

omit [SlotArena Arena] [SwapStore Store] in
theorem reserving_keeps (table : Residency Arena Store) (key : Key) : Keeps none table (table.reserving key) :=
  .same rfl rfl rfl rfl

omit [SlotArena Arena] [SwapStore Store] in
theorem faulting_keeps (table : Residency Arena Store) (key : Key) : Keeps none table (table.faulting key) :=
  .same rfl rfl rfl rfl

theorem locate_keeps {answer : Except Error (Option Nat)} (uncapped : table.maxDiskSlots = 0)
    (consistent : Consistent numSlots {} table.pages)
    (answered : table.locate key = (answer, after)) : Keeps none table after := by
  cases locate_cases answered with
  | pinned | touched | reserved | absent => exact .same rfl rfl rfl rfl
  | notAcquired stored acquired =>
    have acquires := acquireSlot_keeps (faulting_consistent consistent stored) acquired uncapped
    exact ((faulting_keeps table key).trans acquires).trans (.same rfl rfl rfl rfl)
  | notCopied stored acquired copy =>
    have acquires := acquireSlot_keeps (faulting_consistent consistent stored) acquired uncapped
    have copied := ((faulting_keeps table key).trans acquires).trans (copyIn_keeps copy)
    exact copied.trans (.same rfl rfl rfl rfl)
  | faultedIn stored acquired copy =>
    have acquires := acquireSlot_keeps (faulting_consistent consistent stored) acquired uncapped
    have copied := ((faulting_keeps table key).trans acquires).trans (copyIn_keeps copy)
    exact copied.trans (.moved rfl rfl rfl rfl nofun)

theorem alloc_keeps {answer : Except Error Nat} (uncapped : table.maxDiskSlots = 0)
    (consistent : Consistent numSlots {} table.pages)
    (answered : table.alloc key = (answer, after)) : Keeps (some key) table after := by
  cases alloc_cases answered with
  | resident => exact .moved rfl rfl rfl rfl fun _ _ => rfl
  | reserved => exact .same rfl rfl rfl rfl
  | notReclaimed stored acquired =>
    have acquires := acquireSlot_keeps (reserving_consistent consistent stored) acquired uncapped
    exact ((reserving_keeps table key).trans acquires).trans (.same rfl rfl rfl rfl)
  | reclaimed stored acquired =>
    have acquires := acquireSlot_keeps (reserving_consistent consistent stored) acquired uncapped
    exact ((reserving_keeps table key).trans acquires).trans (.moved rfl rfl rfl rfl fun _ _ => rfl)
  | @notAcquired _ stats _ _ acquired =>
    have acquires := acquireSlot_keeps (counted_consistent stats consistent) acquired uncapped
    have counted : Keeps none table { table with stats } := .same rfl rfl rfl rfl
    exact (counted.trans acquires).trans (.same rfl rfl rfl rfl)
  | @acquired _ stats _ _ acquired =>
    have acquires := acquireSlot_keeps (counted_consistent stats consistent) acquired uncapped
    have counted : Keeps none table { table with stats } := .same rfl rfl rfl rfl
    exact (counted.trans acquires).trans (.moved rfl rfl rfl rfl fun _ _ => rfl)

theorem getBlob_keeps {outLength : Nat} {answer : Except Error (Option Bytes)}
    (uncapped : table.maxDiskSlots = 0) (consistent : Consistent numSlots {} table.pages)
    (answered : table.getBlob key outLength = (answer, after)) : Keeps none table after := by
  cases getBlob_cases answered with
  | wrongLength => exact .same rfl rfl rfl rfl
  | notLocated _ located | missed _ located => exact locate_keeps uncapped consistent located
  | notRead _ located | read _ located =>
    exact (locate_keeps uncapped consistent located).trans (.same rfl rfl rfl rfl)

omit [SlotArena Arena] [SwapStore Store] in
theorem commit_keeps {answer : Except Error Unit} (answered : table.commit key = (answer, after)) :
    Keeps none table after := by
  cases commit_cases answered with
  | pinned | listed => exact .moved rfl rfl rfl rfl nofun
  | already | refused => exact .same rfl rfl rfl rfl

theorem putBlob_keeps {bytes : Bytes} (uncapped : table.maxDiskSlots = 0)
    (consistent : Consistent numSlots {} table.pages)
    (answered : table.putBlob key bytes = (.ok (), after)) : Keeps none table after := by
  cases putBlob_cases answered with
  | @written slot _ middle _ arena _ allocated written answered =>
  have kept := alloc_keeps uncapped consistent allocated
  have stored : { middle with arena }.map.lookup key = some (.reserved slot) :=
    (alloc_reserved allocated :)
  have committed := commit_keeps answered
  constructor
  case maxDiskSlots => exact committed.maxDiskSlots.trans kept.maxDiskSlots
  case blobBytes => exact committed.blobBytes.trans kept.blobBytes
  case readPins => exact committed.readPins.trans kept.readPins
  case present => exact fun key => committed.present key ∘ kept.present key
  case reserved =>
    intro other slot' reserved
    obtain ⟨-, -, -, sameMap⟩ := commit_reserved stored answered
    rw [sameMap, HashMap.lookup_insert_if] at reserved
    split at reserved
    · cases reserved
    · next differs =>
      obtain before | own := kept.reserved other slot' reserved
      · exact .inl before
      · cases own
        exact absurd rfl differs

end Uncapped

/-! ## Devices that do not fail -/

section Watching

variable {table after : Residency (Watched Arena) (Watched Store)}

def Failed (table : Residency (Watched Arena) (Watched Store)) : Prop :=
  table.arena.failed = true ∨ table.swap.failed = true

/-- An uncapped residency at rest, between the calls of a caller that never handles slots. -/
structure Settled (blobBytes : Nat) (table : Residency (Watched Arena) (Watched Store)) : Prop where
  uncapped : table.maxDiskSlots = 0
  sized : table.blobBytes = blobBytes
  unreserved : ∀ key slot, table.map.lookup key ≠ some (.reserved slot)
  unpinned : ∀ key, key ∉ table.readPins

theorem copyOut_failed {error : Error} (copy : table.copyOut slot diskSlot = (.error error, after)) :
    after.Failed := by
  simp only [copyOut] at copy
  split at copy
  · next failure arena read =>
    cases copy
    exact .inl (Watched.failed_of_error read)
  · next bytes arena read =>
    rcases written : SwapStore.writeRecord table.swap diskSlot bytes with ⟨answer, swap⟩
    simp only [written] at copy
    cases copy
    exact .inr (Watched.failed_of_error written)

theorem copyIn_failed {error : Error} (copy : table.copyIn diskSlot slot = (.error error, after)) :
    after.Failed := by
  simp only [copyIn] at copy
  split at copy
  · next failure swap read =>
    cases copy
    exact .inr (Watched.failed_of_error read)
  · next bytes swap read =>
    rcases written : SlotArena.writeSlot table.arena slot bytes with ⟨answer, arena⟩
    simp only [written] at copy
    cases copy
    exact .inl (Watched.failed_of_error written)

omit [SlotArena Arena] [SwapStore Store] in
theorem exists_spillable {blobBytes : Nat} (settled : Settled blobBytes table)
    (consistent : Consistent numSlots { diskKey := hidden } table.pages) (slots : 0 < numSlots)
    (full : table.freeSlots = []) : table.lru ≠ [] := by
  obtain member | impossible | ⟨key, held⟩ := (consistent.slots.accounted 0).mp slots
  · rw [pages, full] at member
    cases member
  · cases impossible
  obtain ⟨loc, stored, held⟩ := Option.bind_eq_some_iff.mp held
  cases loc with
  | reserved slot => exact absurd stored (settled.unreserved key slot)
  | onDisk => cases held
  | resident slot =>
    have listed := (consistent.lru.mem_iff key).mpr ⟨⟨slot, stored⟩, settled.unpinned key, Option.some_ne_none key |>.symm⟩
    exact List.ne_nil_of_mem listed

theorem acquireSlot_failed {blobBytes : Nat} {error : Error}
    (consistent : Consistent numSlots { diskKey := hidden } table.pages) (slots : 0 < numSlots)
    (answered : table.acquireSlot = (.error error, after)) (settled : Settled blobBytes table) :
    after.Failed := by
  simp only [acquireSlot] at answered
  split at answered
  · cases answered
  next full =>
  obtain ⟨exhausted, -, -⟩ | ⟨roomy, victim, lru, slot, diskSlot, copied, -, -, done⟩ :=
    evictColdestToDisk_cases consistent answered
  · exact absurd exhausted (exists_spillable settled consistent slots full)
  · obtain ⟨failure, copy, -, rfl⟩ | ⟨-, impossible, -⟩ := done
    · exact (copyOut_failed copy :)
    · cases impossible

theorem alloc_failed_watched {blobBytes : Nat} {error : Error} (settled : Settled blobBytes table)
    (consistent : Consistent numSlots {} table.pages) (slots : 0 < numSlots)
    (answered : table.alloc key = (.error error, after)) : after.Failed := by
  obtain ⟨uncapped, sized, unreserved, unpinned⟩ := settled
  cases alloc_cases answered with
  | notReclaimed stored acquired =>
    exact (acquireSlot_failed (reserving_consistent consistent stored) slots acquired
      ⟨uncapped, sized, unreserved, unpinned⟩ :)
  | notAcquired _ acquired =>
    exact acquireSlot_failed (counted_consistent _ consistent) slots acquired
      ⟨uncapped, sized, unreserved, unpinned⟩

theorem locate_failed {blobBytes : Nat} {error : Error} (settled : Settled blobBytes table)
    (consistent : Consistent numSlots {} table.pages) (slots : 0 < numSlots)
    (answered : table.locate key = (.error error, after)) : after.Failed := by
  obtain ⟨uncapped, sized, unreserved, unpinned⟩ := settled
  cases locate_cases answered with
  | notAcquired stored acquired =>
    exact (acquireSlot_failed (faulting_consistent consistent stored) slots acquired
      ⟨uncapped, sized, unreserved, unpinned⟩ :)
  | notCopied _ _ copy => exact (copyIn_failed copy :)

omit [SlotArena Arena] in
theorem remove_failed (failed : table.Failed) : (table.remove key).Failed := by
  generalize removed : table.remove key = after
  cases remove_cases removed with
  | slot | record | absent => exact failed

omit [SlotArena Arena] in
theorem remove_settled {blobBytes : Nat} (settled : Settled blobBytes table) :
    Settled blobBytes (table.remove key) where
  uncapped := (remove_frame table).maxDiskSlots.trans settled.uncapped
  sized := (remove_frame table).blobBytes.trans settled.sized
  unreserved := by
    intro other slot stored
    rw [remove_map, HashMap.lookup_erase_if] at stored
    split at stored
    · cases stored
    · exact settled.unreserved other slot stored
  unpinned := by
    rw [(remove_frame table).readPins]
    exact settled.unpinned

theorem putBlob_failed {blobBytes : Nat} {bytes : Bytes} {error : Error}
    (settled : Settled blobBytes table) (consistent : Consistent numSlots {} table.pages)
    (slots : 0 < numSlots) (sized : bytes.length = blobBytes)
    (answered : table.putBlob key bytes = (.error error, after)) : after.Failed := by
  cases putBlob_cases answered with
  | wrongLength wrong => exact absurd (sized.trans settled.sized.symm) wrong
  | notAllocated _ allocated => exact alloc_failed_watched settled consistent slots allocated
  | notWritten _ _ written => exact remove_failed (.inl (Watched.failed_of_error written))
  | @written slot _ reserved _ arena _ allocated _ committed =>
    have stored : { reserved with arena }.map.lookup key = some (.reserved slot) :=
      (alloc_reserved allocated :)
    cases (commit_reserved stored committed).1

theorem getBlob_failed {blobBytes outLength : Nat} {error : Error} (settled : Settled blobBytes table)
    (consistent : Consistent numSlots {} table.pages) (slots : 0 < numSlots)
    (sized : outLength = blobBytes)
    (answered : table.getBlob key outLength = (.error error, after)) : after.Failed := by
  cases getBlob_cases answered with
  | wrongLength wrong => exact absurd (sized.trans settled.sized.symm) wrong
  | notLocated _ located => exact locate_failed settled consistent slots located
  | notRead _ _ read => exact .inl (Watched.failed_of_error read)

end Watching

/-! ## Runs -/

/-- A call in which no device fails. -/
def Unfailing (before : Residency (Watched Arena) (Watched Store)) (call : Call)
    (after : Residency (Watched Arena) (Watched Store)) : Prop :=
  Step before call after ∧ ¬ after.Failed

section Exact

variable [LawfulSlotArena Arena] [LawfulSwapStore Store]
  {table after : Residency (Watched Arena) (Watched Store)} {blobBytes : Nat}

structure Represents (numSlots blobBytes : Nat) (table : Residency (Watched Arena) (Watched Store))
    (blobs : BlobMap) : Prop where
  consistent : Consistent numSlots {} table.pages
  settled : Settled blobBytes table
  holds : table.Holds blobs
  present : ∀ key, blobs key ≠ none → table.map.lookup key ≠ none

omit [LawfulSlotArena Arena] [LawfulSwapStore Store] [SlotArena Arena] [SwapStore Store] in
theorem Settled.kept (settled : Settled blobBytes table) (kept : Keeps none table after) :
    Settled blobBytes after where
  uncapped := kept.maxDiskSlots.trans settled.uncapped
  sized := kept.blobBytes.trans settled.sized
  unreserved := by
    intro key slot stored
    obtain before | impossible := kept.reserved key slot stored
    · exact settled.unreserved key slot before
    · cases impossible
  unpinned := by
    rw [kept.readPins]
    exact settled.unpinned

theorem Step.exact {call : Call} (slots : 0 < numSlots)
    (represents : Represents numSlots blobBytes table blobs) (allowed : MapCall table call)
    (unfailing : Unfailing table call after) :
    ∃ blobs', BlobMap.Exact blobBytes blobs call blobs' ∧ Represents numSlots blobBytes after blobs' := by
  obtain ⟨step, quiet⟩ := unfailing
  have consistent := represents.consistent
  have settled := represents.settled
  have consistentAfter := step.consistent consistent
  cases step with
  | @putBlob _ key bytes answer answered =>
    by_cases sized : bytes.length = blobBytes
    · rcases answer with error | _
      · exact absurd (putBlob_failed settled consistent slots sized answered) quiet
      have kept := putBlob_keeps settled.uncapped consistent answered
      obtain ⟨carried, ⟨_, impossible, -⟩ | ⟨-, slot, stored, same⟩⟩ := putBlob_carries consistent answered
      · cases impossible
      refine ⟨_, .stored sized, consistentAfter, settled.kept kept, represents.holds.update carried ?_, ?_⟩
      · intro loc located
        cases located.symm.trans stored
        rw [same]
      · intro other put
        by_cases here : other = key
        · rw [here, stored]
          exact nofun
        · rw [Function.update_of_ne here] at put
          exact kept.present other (represents.present other put)
    · cases putBlob_cases answered with
      | wrongLength => exact ⟨blobs, .wrongBlob sized, represents⟩
      | notAllocated same | notWritten same | written same => exact absurd (same.trans settled.sized) sized
  | @getBlob _ key outLength answer answered =>
    by_cases sized : outLength = blobBytes
    · have kept := getBlob_keeps settled.uncapped consistent answered
      obtain ⟨carried, hit, miss⟩ := getBlob_carries consistent answered
      have answers : answer = .ok (blobs key) := by
        rcases answer with error | _ | bytes
        · exact absurd (getBlob_failed settled consistent slots sized answered) quiet
        · have absent : blobs key = none := by
            by_contra put
            exact represents.present key put (miss rfl)
          rw [absent]
        · obtain ⟨loc, stored, same⟩ := hit bytes rfl
          rw [represents.holds key loc stored, same]
      subst answers
      exact ⟨blobs, .got sized, consistentAfter, settled.kept kept, represents.holds.carried carried,
        fun other put => kept.present other (represents.present other put)⟩
    · cases getBlob_cases answered with
      | wrongLength => exact ⟨blobs, .wrongBuffer sized, represents⟩
      | notLocated same | missed same | notRead same | read same => exact absurd (same.trans settled.sized) sized
  | @remove key =>
    refine ⟨_, .removed, consistentAfter, ?_, represents.holds.remove consistent, ?_⟩
    · exact remove_settled settled
    · intro other put
      by_cases here : other = key
      · rw [here, Function.update_self] at put
        exact absurd rfl put
      · rw [Function.update_of_ne here] at put
        rw [remove_map, HashMap.lookup_erase_if, if_neg here]
        exact represents.present other put
  | alloc | commit | locate | pinRead | unpinRead | arenaMut => exact allowed.elim

end Exact

theorem newCapped_empty {arena : Arena} {swap : Store} {maxDiskSlots : Nat} {fresh : Residency Arena Store}
    (created : newCapped arena swap maxDiskSlots = .ok fresh) :
    (∀ key, fresh.map.lookup key = none) ∧ (∀ key, key ∉ fresh.readPins) ∧
      fresh.maxDiskSlots = maxDiskSlots := by
  obtain ⟨-, -, rfl⟩ := newCapped_eq created
  exact ⟨AList.lookup_empty, AList.notMem_empty, rfl⟩

/-- Whatever the devices do, the answers are those of a map that may miss or fail; and without a disk
cap and without a failing device, they are those of the map. -/
theorem refines_map [LawfulSlotArena Arena] [LawfulSwapStore Store] (arena : Arena) (swap : Store) :
    (∀ maxDiskSlots (fresh : Residency Arena Store) calls table,
      newCapped arena swap maxDiskSlots = .ok fresh → Run (Guarded MapCall Step) fresh calls table →
      ∃ blobs, Run BlobMap.Lossy .empty calls blobs) ∧
    (∀ (fresh : Residency (Watched Arena) (Watched Store)) calls table,
      newCapped (.watch arena) (.watch swap) 0 = .ok fresh →
      Run (Guarded MapCall Unfailing) fresh calls table →
      ∃ blobs, Run (BlobMap.Exact fresh.blobBytes) .empty calls blobs) := by
  constructor
  · intro maxDiskSlots fresh calls table created run
    have start : Tracks (SlotArena.numSlots arena) fresh .empty := by
      refine ⟨newCapped_consistent created, fun key loc stored => ?_⟩
      cases ((newCapped_empty created).1 key).symm.trans stored
    obtain ⟨blobs, mapped, -⟩ := run.simulates start fun before call after blobs tracks taken =>
      Step.lossy tracks taken.1 taken.2
    exact ⟨blobs, mapped⟩
  · intro fresh calls table created run
    obtain ⟨absent, unpinned, uncapped⟩ := newCapped_empty created
    have slots := (newCapped_eq created).2.1
    have start : Represents (SlotArena.numSlots arena) fresh.blobBytes fresh .empty := by
      refine ⟨newCapped_consistent created, ⟨uncapped, rfl, fun key slot stored => ?_, unpinned⟩,
        fun key loc stored => ?_, fun _ put => absurd rfl put⟩
      · cases (absent key).symm.trans stored
      · cases (absent key).symm.trans stored
    obtain ⟨blobs, mapped, -⟩ := run.simulates start fun before call after blobs represents taken =>
      Step.exact slots represents taken.1 taken.2
    exact ⟨blobs, mapped⟩

/-- One slot: the second blob spills the first, which comes back byte for byte; a removed key misses. -/
theorem refines_map_spill :
    (∃ blobs, Run BlobMap.Lossy .empty [.putBlob 7 [70] (.ok ()), .putBlob 8 [80] (.ok ()),
      .getBlob 7 1 (.ok (some [70])), .remove 8, .getBlob 8 1 (.ok none)] blobs) ∧
    (∃ blobs, Run (BlobMap.Exact 1) .empty [.putBlob 7 [70] (.ok ()), .putBlob 8 [80] (.ok ()),
      .getBlob 7 1 (.ok (some [70])), .remove 8, .getBlob 8 1 (.ok none)] blobs) := by
  obtain ⟨lossy, exact⟩ := refines_map (VecSlotArena.new 1 1) (MemSwapStore.new 1)
  constructor
  · exact lossy 1 _ _ _ rfl <| .prepend ⟨trivial, .putBlob rfl⟩ <|
      .prepend ⟨trivial, .putBlob rfl⟩ <| .prepend ⟨trivial, .getBlob rfl⟩ <|
      .prepend ⟨trivial, .remove⟩ <| .single ⟨trivial, .getBlob rfl⟩
  · exact exact _ _ _ rfl <| .prepend ⟨trivial, .putBlob rfl, by unfold Failed; decide⟩ <|
      .prepend ⟨trivial, .putBlob rfl, by unfold Failed; decide⟩ <|
      .prepend ⟨trivial, .getBlob rfl, by unfold Failed; decide⟩ <|
      .prepend ⟨trivial, .remove, by unfold Failed; decide⟩ <|
      .single ⟨trivial, .getBlob rfl, by unfold Failed; decide⟩

end Residency

end Metrale.Storage
