import Metrale.Storage.Tier

/-! # The page table over the two tiers (`tier/residency.rs`)

`Residency` maps a key to an arena slot or a store record.  The free lists are vectors, whose last
element is the head here; the two LRU lists are queues with the coldest key in front.  Read-pin
counts and statistics wrap, as they do in a release build.  `scratch`, through which every blob moves
and which is back in place after every call, is left out: a read answers the bytes.  A call answers
its result and the state it leaves, also when it fails. -/

namespace Metrale.Storage

open Metrale.Foundation

abbrev Key := UInt64

/-- Where a key's blob is: in a slot handed out and not committed, in a committed slot, or in a
record. -/
inductive Loc where
  | reserved (slot : Nat)
  | resident (slot : Nat)
  | onDisk (diskSlot : Nat)

structure SwapStats where
  puts : UInt64
  gets : UInt64
  getMiss : UInt64
  spillsToDisk : UInt64
  faultsFromDisk : UInt64
  residentHits : UInt64
  diskEvictions : UInt64

structure Residency (Arena Store : Type*) where
  arena : Arena
  swap : Store
  blobBytes : Nat
  map : HashMap Key Loc
  freeSlots : List Nat
  lru : List Key
  diskLru : List Key
  maxDiskSlots : Nat
  freeDisk : List Nat
  nextDisk : Nat
  readPins : HashMap Key UInt32
  stats : SwapStats

/-- `{:#x}`. -/
def hex (key : Key) : String := "0x" ++ String.ofList (Nat.toDigits 16 key.toNat)

/-- `{:?}` of an `Option<Loc>`. -/
def debugLoc : Option Loc → String
  | none => "None"
  | some (.reserved slot) => s!"Some(Reserved({slot}))"
  | some (.resident slot) => s!"Some(Resident({slot}))"
  | some (.onDisk diskSlot) => s!"Some(OnDisk({diskSlot}))"

namespace Residency

variable {Arena Store : Type*} [SlotArena Arena] [SwapStore Store]

def newCapped (arena : Arena) (swap : Store) (maxDiskSlots : Nat) :
    Except Error (Residency Arena Store) :=
  let blobBytes := SlotArena.slotBytes arena
  if blobBytes = 0 then .error "Residency: slot_bytes must be > 0"
  else if SwapStore.recordBytes swap ≠ blobBytes then
    .error s!"Residency: arena slot ({blobBytes}) and swap record ({SwapStore.recordBytes swap}) sizes differ"
  else if SlotArena.numSlots arena = 0 then .error "Residency: arena must have >= 1 slot"
  else .ok
    { arena, swap, blobBytes
      map := ∅
      -- `(0..n).rev()`: slot 0 is popped first.
      freeSlots := List.range (SlotArena.numSlots arena)
      lru := []
      diskLru := []
      maxDiskSlots
      freeDisk := []
      nextDisk := 0
      readPins := ∅
      stats := ⟨0, 0, 0, 0, 0, 0, 0⟩ }

/-! ## The lists -/

def lruRemove (key : Key) (table : Residency Arena Store) : Residency Arena Store :=
  { table with lru := table.lru.erase key }

def diskLruRemove (key : Key) (table : Residency Arena Store) : Residency Arena Store :=
  { table with diskLru := table.diskLru.erase key }

def lruTouch (key : Key) (table : Residency Arena Store) : Residency Arena Store :=
  { table.lruRemove key with lru := (table.lruRemove key).lru ++ [key] }

def allocDiskSlot (table : Residency Arena Store) : Nat × Residency Arena Store :=
  match table.freeDisk with
  | diskSlot :: freeDisk => (diskSlot, { table with freeDisk })
  | [] => (table.nextDisk, { table with nextDisk := table.nextDisk + 1 })

/-- `free_disk.push(disk_slot)` and `swap.discard_record(disk_slot)`. -/
def freeRecord (diskSlot : Nat) (table : Residency Arena Store) : Residency Arena Store :=
  { table with
    freeDisk := diskSlot :: table.freeDisk
    swap := SwapStore.discardRecord table.swap diskSlot }

/-- The body of the loop in `make_disk_room`: the key popped from `disk_lru` leaves the map. -/
def dropCold (cold : Key) (table : Residency Arena Store) : Residency Arena Store :=
  match table.map.lookup cold with
  | some (.onDisk diskSlot) =>
    let dropped := { table with map := table.map.erase cold }.freeRecord diskSlot
    { dropped with stats := { table.stats with diskEvictions := table.stats.diskEvictions + 1 } }
  | _ => { table with map := table.map.erase cold }

/-- The loop of `make_disk_room`, whose first argument is what `disk_lru` holds. -/
def dropWhileFull : List Key → Residency Arena Store → Residency Arena Store
  | [], table => table
  | cold :: diskLru, table =>
    if table.maxDiskSlots ≤ (cold :: diskLru).length then
      dropWhileFull diskLru ({ table with diskLru }.dropCold cold)
    else table

def makeDiskRoom (table : Residency Arena Store) : Residency Arena Store :=
  if table.maxDiskSlots = 0 then table else dropWhileFull table.diskLru table

/-! ## Moving a blob between the tiers -/

/-- `arena.read_slot(slot, ..).and_then(|_| swap.write_record(disk_slot, ..))`. -/
def copyOut (slot diskSlot : Nat) (table : Residency Arena Store) :
    Except Error Unit × Residency Arena Store :=
  match SlotArena.readSlot table.arena slot table.blobBytes with
  | (.error error, arena) => (.error error, { table with arena })
  | (.ok bytes, arena) =>
    match SwapStore.writeRecord table.swap diskSlot bytes with
    | (answer, swap) => (answer, { table with arena, swap })

/-- `swap.read_record(disk_slot, ..).and_then(|_| arena.write_slot(slot, ..))`. -/
def copyIn (diskSlot slot : Nat) (table : Residency Arena Store) :
    Except Error Unit × Residency Arena Store :=
  match SwapStore.readRecord table.swap diskSlot table.blobBytes with
  | (.error error, swap) => (.error error, { table with swap })
  | (.ok bytes, swap) =>
    match SlotArena.writeSlot table.arena slot bytes with
    | (answer, arena) => (answer, { table with arena, swap })

/-- Spills the front of `lru` and answers its slot. -/
def evictColdestToDisk (table : Residency Arena Store) : Except Error Nat × Residency Arena Store :=
  match table.lru with
  | [] =>
    let slots := SlotArena.numSlots table.arena
    (.error s!"Residency: arena exhausted — all {slots} slots reserved (uncommitted PUTs) or read-pinned (in-flight RDMA READs)",
      table)
  | victim :: lru =>
    let popped := { table with lru }
    match popped.map.lookup victim with
    | some (.resident slot) =>
      let (diskSlot, roomy) := popped.makeDiskRoom.allocDiskSlot
      match roomy.copyOut slot diskSlot with
      | (.error error, copied) =>
        -- The victim stays resident, at the cold end.
        (.error error,
          { copied with freeDisk := diskSlot :: copied.freeDisk, lru := victim :: copied.lru })
      | (.ok (), copied) =>
        (.ok slot,
          { copied with
            map := copied.map.insert victim (.onDisk diskSlot)
            diskLru := copied.diskLru ++ [victim]
            stats := { copied.stats with spillsToDisk := copied.stats.spillsToDisk + 1 } })
    | other =>
      (.error s!"LRU/map desync: victim {hex victim} is {debugLoc other}, expected Resident", popped)

def acquireSlot (table : Residency Arena Store) : Except Error Nat × Residency Arena Store :=
  match table.freeSlots with
  | slot :: freeSlots => (.ok slot, { table with freeSlots })
  | [] => table.evictColdestToDisk

/-! ## The calls -/

def alloc (key : Key) (before : Residency Arena Store) : Except Error Nat × Residency Arena Store :=
  let table := { before with stats := { before.stats with puts := before.stats.puts + 1 } }
  match table.map.lookup key with
  | some (.resident slot) =>
    -- A PUT over a resident blob writes its slot again.
    (.ok slot, { table.lruRemove key with map := table.map.insert key (.reserved slot) })
  | some (.reserved slot) => (.ok slot, table)
  | some (.onDisk diskSlot) =>
    -- Off `disk_lru`, the key cannot lose its record to the spill that makes room for it.
    match (table.diskLruRemove key).acquireSlot with
    | (.error error, table) => (.error error, { table with diskLru := key :: table.diskLru })
    | (.ok slot, table) =>
      (.ok slot, { table.freeRecord diskSlot with map := table.map.insert key (.reserved slot) })
  | none =>
    match table.acquireSlot with
    | (.error error, table) => (.error error, table)
    | (.ok slot, table) => (.ok slot, { table with map := table.map.insert key (.reserved slot) })

def commit (key : Key) (table : Residency Arena Store) : Except Error Unit × Residency Arena Store :=
  match table.map.lookup key with
  | some (.reserved slot) =>
    let committed := { table with map := table.map.insert key (.resident slot) }
    if key ∈ table.readPins then (.ok (), committed)
    else (.ok (), { committed with lru := committed.lru ++ [key] })
  | some (.resident _) => (.ok (), table)
  | _ => (.error s!"commit({hex key}): no reserved slot (alloc not called / evicted)", table)

def locate (key : Key) (before : Residency Arena Store) :
    Except Error (Option Nat) × Residency Arena Store :=
  let table := { before with stats := { before.stats with gets := before.stats.gets + 1 } }
  match table.map.lookup key with
  | some (.resident slot) =>
    let hit := { table with stats := { table.stats with residentHits := table.stats.residentHits + 1 } }
    -- Touching a pinned key would put it back on `lru`.
    if key ∈ hit.readPins then (.ok (some slot), hit) else (.ok (some slot), hit.lruTouch key)
  -- A slot that is reserved and not yet written is a hit.
  | some (.reserved slot) => (.ok (some slot), table)
  | some (.onDisk diskSlot) =>
    match (table.diskLruRemove key).acquireSlot with
    | (.error error, table) => (.error error, { table with diskLru := key :: table.diskLru })
    | (.ok slot, table) =>
      match table.copyIn diskSlot slot with
      | (.error error, table) =>
        (.error error,
          { table with freeSlots := slot :: table.freeSlots, diskLru := key :: table.diskLru })
      | (.ok (), table) =>
        (.ok (some slot),
          { table.freeRecord diskSlot with
            map := table.map.insert key (.resident slot)
            lru := table.lru ++ [key]
            stats := { table.stats with faultsFromDisk := table.stats.faultsFromDisk + 1 } })
  | none => (.ok none, { table with stats := { table.stats with getMiss := table.stats.getMiss + 1 } })

def remove (key : Key) (before : Residency Arena Store) : Residency Arena Store :=
  let table := { before with map := before.map.erase key }
  match before.map.lookup key with
  -- Neither read pins nor an uncommitted PUT hold the slot back.
  | some (.resident slot) | some (.reserved slot) =>
    { table.lruRemove key with freeSlots := slot :: table.freeSlots }
  | some (.onDisk diskSlot) => (table.diskLruRemove key).freeRecord diskSlot
  | none => table

def pinRead (key : Key) (table : Residency Arena Store) : Residency Arena Store :=
  match table.map.lookup key with
  | some (.resident _) =>
    let count := (table.readPins.lookup key).getD 0
    -- A pinned key is off `lru`, so that no spill can take its slot.
    let unlisted := if count = 0 then table.lruRemove key else table
    { unlisted with readPins := table.readPins.insert key (count + 1) }
  | _ => table

def unpinRead (key : Key) (table : Residency Arena Store) : Residency Arena Store :=
  match table.readPins.lookup key with
  | none => table
  | some count =>
    if count - 1 = 0 then
      let unpinned := { table with readPins := table.readPins.erase key }
      match unpinned.map.lookup key with
      | some (.resident _) =>
        if key ∈ unpinned.lru then unpinned else { unpinned with lru := unpinned.lru ++ [key] }
      | _ => unpinned
    else { table with readPins := table.readPins.insert key (count - 1) }

def putBlob (key : Key) (bytes : Bytes) (table : Residency Arena Store) :
    Except Error Unit × Residency Arena Store :=
  if bytes.length ≠ table.blobBytes then
    (.error s!"put_blob({hex key}): {bytes.length} bytes, expected {table.blobBytes}", table)
  else
    match table.alloc key with
    | (.error error, table) => (.error error, table)
    | (.ok slot, table) =>
      match SlotArena.writeSlot table.arena slot bytes with
      -- The key is not left reserved with half a blob.
      | (.error error, arena) => (.error error, { table with arena }.remove key)
      | (.ok (), arena) => { table with arena }.commit key

/-- Answers the bytes that a hit leaves in `out`. -/
def getBlob (key : Key) (outLength : Nat) (table : Residency Arena Store) :
    Except Error (Option Bytes) × Residency Arena Store :=
  if outLength ≠ table.blobBytes then
    (.error s!"get_blob({hex key}): {outLength} bytes, expected {table.blobBytes}", table)
  else
    match table.locate key with
    | (.error error, table) => (.error error, table)
    | (.ok none, table) => (.ok none, table)
    | (.ok (some slot), table) =>
      match SlotArena.readSlot table.arena slot outLength with
      | (.error error, arena) => (.error error, { table with arena })
      | (.ok bytes, arena) => (.ok (some bytes), { table with arena })

/-! ## Runs -/

/-- A call and its answer.  Between calls the caller may write the arena through `arena_mut`. -/
inductive Call where
  | alloc (key : Key) (answer : Except Error Nat)
  | commit (key : Key) (answer : Except Error Unit)
  | locate (key : Key) (answer : Except Error (Option Nat))
  | remove (key : Key)
  | pinRead (key : Key)
  | unpinRead (key : Key)
  | putBlob (key : Key) (bytes : Bytes) (answer : Except Error Unit)
  | getBlob (key : Key) (outLength : Nat) (answer : Except Error (Option Bytes))
  | arenaMut

inductive Step : Residency Arena Store → Call → Residency Arena Store → Prop where
  | alloc {table after key answer} (answered : alloc key table = (answer, after)) :
      Step table (.alloc key answer) after
  | commit {table after key answer} (answered : commit key table = (answer, after)) :
      Step table (.commit key answer) after
  | locate {table after key answer} (answered : locate key table = (answer, after)) :
      Step table (.locate key answer) after
  | remove {table key} : Step table (.remove key) (remove key table)
  | pinRead {table key} : Step table (.pinRead key) (pinRead key table)
  | unpinRead {table key} : Step table (.unpinRead key) (unpinRead key table)
  | putBlob {table after key bytes answer} (answered : putBlob key bytes table = (answer, after)) :
      Step table (.putBlob key bytes answer) after
  | getBlob {table after key outLength answer}
      (answered : getBlob key outLength table = (answer, after)) :
      Step table (.getBlob key outLength answer) after
  | arenaMut {table} (arena : Arena) : Step table .arenaMut { table with arena }

end Residency

end Metrale.Storage
