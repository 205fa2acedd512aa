import Metrale.Storage.NgramFault
import Metrale.Storage.Tier

/-! # The n-gram row cache (`ngram_cache.rs`)

`resolve` maps the rows of a batch to slots of a pinned arena.  It gives every miss a slot before any row
is read, and can fail in between; it answers its result and the cache it leaves, also when it fails.  The
files are what their reads find, and the arenas start out as they were allocated.  File offsets wrap, as
they do in a release build. -/

namespace Metrale.Storage

open Metrale.Foundation

abbrev RowId := UInt64

/-- `u64::MAX`, which marks an empty slot. -/
def emptyRow : RowId := 18446744073709551615

structure Segments where
  bases : List UInt64
  shardFile : List Nat
  rowsPer : UInt64

/-- `file` is whether there is a file of scales by row. -/
structure ScaleCache where
  file : Bool

structure NgramRowCache where
  arenas : Arenas
  /-- `file` and the `extra_files`. -/
  numFiles : Nat
  baseOffset : UInt64
  segments : Option Segments
  scales : Option ScaleCache
  rowStride : Nat
  slots : Nat
  rowsTotal : UInt64
  map : HashMap RowId UInt32
  slotRow : List RowId
  refbit : List Bool
  pinned : List Bool
  hand : Nat
  hits : UInt64
  misses : UInt64
  evictions : UInt64

namespace NgramRowCache

/-- `blocks as u32` is what the arena is asked for, and it refuses to be empty. -/
def openAt (arenas : Arenas) (baseOffset : UInt64) (scaleFile : Bool) (rowsTotal : UInt64)
    (rowStride slots : Nat) : Except Error NgramRowCache :=
  if rowStride = 0 ∨ slots = 0 then
    .error s!"NgramRowCache: zero geometry (row_stride={rowStride}, slots={slots})"
  else if block < rowStride then
    .error s!"NgramRowCache: row_stride {rowStride} exceeds the {block}-byte O_DIRECT block; a row would span more than the two blocks the seam-handling fetch reads"
  else if (slots * rowStride + (block - 1)) / block % 4294967296 = 0 then .error "NgramRowCache: pinned arena"
  else .ok
    { arenas, numFiles := 1, baseOffset
      segments := none
      scales := if scaleFile then some ⟨true⟩ else none
      rowStride, slots, rowsTotal
      map := ∅
      slotRow := .replicate slots emptyRow
      refbit := .replicate slots false
      pinned := .replicate slots false
      hand := 0
      hits := 0
      misses := 0
      evictions := 0 }

/-- A shard is the index of its path and the offset of its first row; paths are numbered as first seen. -/
def openSegmented (arenas : Arenas) (shards : List (Nat × UInt64)) (rowsPerShard : UInt64) (scaleFile : Bool)
    (rowStride slots : Nat) : Except Error NgramRowCache :=
  if shards = [] ∨ rowsPerShard = 0 then
    .error s!"NgramRowCache: segmented table needs shards and rows (shards={shards.length}, rows_per_shard={rowsPerShard})"
  else
    let order := (shards.map Prod.fst).reverse.dedup.reverse
    match openAt arenas 0 scaleFile (UInt64.ofNat shards.length * rowsPerShard) rowStride slots with
    | .error error => .error error
    | .ok cache => .ok
      { cache with
        numFiles := order.length
        segments := some
          { bases := shards.map Prod.snd
            shardFile := shards.map fun shard => order.idxOf shard.1
            rowsPer := rowsPerShard } }

def setConstantScale (cache : NgramRowCache) (fresh : Memory UInt8) (scale : List UInt8) : NgramRowCache :=
  let filled := (List.range cache.slots).foldl (fun memory slot => memory.copyFromSlice (slot * 4) scale) fresh
  { cache with arenas := Function.update cache.arenas .scale filled, scales := some ⟨false⟩ }

/-- The loop over the hand: unpinned slots get a second chance. -/
def victimFrom : Nat → NgramRowCache → Option UInt32 × NgramRowCache
  | 0, cache => (none, cache)
  | rounds + 1, cache =>
    let s := cache.hand
    let cache := { cache with hand := (cache.hand + 1) % cache.slots }
    if cache.pinned.getD s false then victimFrom rounds cache
    else if cache.refbit.getD s false then victimFrom rounds { cache with refbit := cache.refbit.set s false }
    else
      let old := cache.slotRow.getD s emptyRow
      -- `slot_row` goes on naming the evicted row until the missing one takes its place.
      if old ≠ emptyRow then
        (some (UInt32.ofNat s), { cache with map := cache.map.erase old, evictions := cache.evictions + 1 })
      else (some (UInt32.ofNat s), cache)

def victim (cache : NgramRowCache) : Except Error UInt32 × NgramRowCache :=
  match victimFrom (cache.slots * 2) cache with
  | (some s, cache) => (.ok s, cache)
  | (none, cache) =>
    (.error s!"NgramRowCache: every one of {cache.slots} slots is pinned by the batch in flight — raise the cache size or lower max-prefill-tokens", cache)

def rowByte (cache : NgramRowCache) (id : RowId) : Nat × UInt64 :=
  match cache.segments with
  | none => (0, cache.baseOffset + id * UInt64.ofNat cache.rowStride)
  | some seg =>
    let shard := (id / seg.rowsPer).toNat
    let inShard := id % seg.rowsPer
    (seg.shardFile.getD shard 0, seg.bases.getD shard 0 + inShard * UInt64.ofNat cache.rowStride)

/-- The offset of the block that holds a byte, and the byte's place in it. -/
def inBlock (byte : UInt64) : UInt64 × Nat :=
  let blockOff := byte - byte % UInt64.ofNat block
  (blockOff, (byte - blockOff).toNat)

def faultJob (cache : NgramRowCache) (id : RowId) (slot : UInt32) : FaultJob :=
  let (fileIdx, byte) := cache.rowByte id
  let (blockOff, within) := inBlock byte
  { rowId := id, slot, blockOff, within
    nblocks := nblocksFor within cache.rowStride
    fileIdx
    dst := slot.toNat * cache.rowStride
    scale :=
      match cache.scales with
      | some ⟨true⟩ =>
        let (sblock, swithin) := inBlock (id * 4)
        some (sblock, swithin, slot.toNat * 4)
      | some ⟨false⟩ | none => none }

/-- One id of `resolve`'s first loop: its slot, and the job of a miss. -/
def place (cache : NgramRowCache) (id : RowId) : Except Error (UInt32 × List FaultJob) × NgramRowCache :=
  if cache.rowsTotal ≤ id then
    (.error s!"NgramRowCache: row id {id} >= table rows {cache.rowsTotal} (hash/table mismatch)", cache)
  else
    match cache.map.lookup id with
    | some s =>
      (.ok (s, []),
        { cache with
          hits := cache.hits + 1
          refbit := cache.refbit.set s.toNat true
          pinned := cache.pinned.set s.toNat true })
    -- The miss is mapped before its row is read, and nothing undoes this when a later id is refused.
    | none =>
      match victim { cache with misses := cache.misses + 1 } with
      | (.error error, cache) => (.error error, cache)
      | (.ok s, cache) =>
        let cache :=
          { cache with
            map := cache.map.insert id s
            slotRow := cache.slotRow.set s.toNat id
            refbit := cache.refbit.set s.toNat true
            pinned := cache.pinned.set s.toNat true }
        (.ok (s, [cache.faultJob id s]), cache)

def placeAll : List RowId → NgramRowCache → Except Error (List UInt32 × List FaultJob) × NgramRowCache
  | [], cache => (.ok ([], []), cache)
  | id :: rest, cache =>
    match cache.place id with
    | (.error error, cache) => (.error error, cache)
    | (.ok (slot, jobs), cache) =>
      match placeAll rest cache with
      | (.error error, cache) => (.error error, cache)
      | (.ok (slots, later), cache) => (.ok (slot :: slots, jobs ++ later), cache)

def unmap (cache : NgramRowCache) (job : FaultJob) : NgramRowCache :=
  { cache with
    map := cache.map.erase job.rowId
    slotRow := cache.slotRow.set job.slot.toNat emptyRow
    pinned := cache.pinned.set job.slot.toNat false
    refbit := cache.refbit.set job.slot.toNat false }

inductive Resolve (serialForced : Bool) (cache : NgramRowCache) (rowIds : List RowId) :
    Except Error (List UInt32) → List Read → NgramRowCache → Prop where
  | refused {error after} (placed : placeAll rowIds cache = (.error error, after)) :
      Resolve serialForced cache rowIds (.error error) [] after
  | hit {slots after} (placed : placeAll rowIds cache = (.ok (slots, []), after)) :
      Resolve serialForced cache rowIds (.ok slots) [] after
  | faulted {slots jobs middle reads arenas} (placed : placeAll rowIds cache = (.ok (slots, jobs), middle))
      (missed : jobs ≠ [])
      (ran : FaultAll serialForced middle.rowStride middle.numFiles jobs middle.arenas true reads arenas) :
      Resolve serialForced cache rowIds (.ok slots) reads { middle with arenas }
  | failed {slots jobs middle reads arenas} (error : Error)
      (placed : placeAll rowIds cache = (.ok (slots, jobs), middle)) (missed : jobs ≠ [])
      (ran : FaultAll serialForced middle.rowStride middle.numFiles jobs middle.arenas false reads arenas) :
      Resolve serialForced cache rowIds (.error error) reads (jobs.foldl unmap { middle with arenas })

def endBatch (cache : NgramRowCache) : NgramRowCache :=
  { cache with pinned := cache.pinned.map fun _ => false }

inductive Event where
  | resolve (rowIds : List RowId) (answer : Except Error (List UInt32)) (reads : List Read)
  | endBatch
  | setConstantScale

inductive Step (serialForced : Bool) : NgramRowCache → Event → NgramRowCache → Prop where
  | resolve {cache rowIds answer reads after} (resolved : Resolve serialForced cache rowIds answer reads after) :
      Step serialForced cache (.resolve rowIds answer reads) after
  | endBatch {cache} : Step serialForced cache .endBatch cache.endBatch
  | setConstantScale {cache} (fresh : Memory UInt8) (scale : List UInt8) :
      Step serialForced cache .setConstantScale (cache.setConstantScale fresh scale)

end NgramRowCache

end Metrale.Storage
