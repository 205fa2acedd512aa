import Metrale.Foundation.Runs
import Metrale.Storage.ScratchPool

/-! # Attention over offloaded blocks (`high_speed_swap/impl_more.rs`)

An attend walks a sequence's blocks in tiles as long as the pool.  A tile's resident blocks are pinned, the
others are assigned slots, and one backend read fills these.  The backend is what its contract says: a read
that succeeds fills every destination, and one that fails may have filled any of them, or part of one.
Projections, copies and kernels only fail or do not.  The pool, the tile and the eviction order have one
size, `resident_blocks`. -/

namespace Metrale.Storage

open Metrale.Foundation

inductive KvKind where
  | k
  | v
deriving DecidableEq

structure GroupKey where
  layer : UInt32
  block : UInt32
  kvHead : Nat
  kind : KvKind
deriving DecidableEq

structure ReadRequest where
  group : GroupKey
  dstDevPtr : Nat
deriving DecidableEq

abbrev Groups := GroupKey → Memory UInt8

structure HighSpeedSwap (Score : Type*) where
  pool : ScratchPool
  eviction : EvictionPolicy Score
  groups : Groups

structure Tile (Score : Type*) where
  pool : ScratchPool
  eviction : EvictionPolicy Score
  blockTable : List Nat
  pinned : List Nat
  missing : List UInt32
  reqs : List ReadRequest

/-- Where an attend or an offload fails. -/
inductive Failure where
  | project
  | assign
  | read
  | launch
  | write
deriving DecidableEq

def blockRequests (pool : ScratchPool) (layer blk : UInt32) (slot : Nat) : List ReadRequest :=
  (List.range pool.dims.numKvHeads).flatMap fun kvHead =>
    [⟨⟨layer, blk, kvHead, .k⟩, pool.slotKPtr slot kvHead⟩, ⟨⟨layer, blk, kvHead, .v⟩, pool.slotVPtr slot kvHead⟩]

/-- A read writes nowhere but to its destinations. -/
def Touches (stride : Nat) (reqs : List ReadRequest) (before after : Memory UInt8) : Prop :=
  ∀ address, (∀ req ∈ reqs, address < req.dstDevPtr ∨ req.dstDevPtr + stride ≤ address) →
    after address = before address

def Filled (groups : Groups) (stride : Nat) (memory : Memory UInt8) (req : ReadRequest) : Prop :=
  memory.slice req.dstDevPtr stride = (groups req.group).slice 0 stride

namespace Tile

variable {Score : Type*}

/-- The loop over the tile, from the index on: residents are pinned, the others noted. -/
def scan (layer : UInt32) : List UInt32 → Nat → Tile Score → Tile Score
  | [], _, state => state
  | blk :: rest, i, state =>
    match state.pool.lookup.lookup ⟨layer, blk⟩ with
    | some slot =>
      scan layer rest (i + 1)
        { state with
          blockTable := state.blockTable.set i slot
          pinned := state.pinned ++ [slot]
          eviction := state.eviction.touch slot }
    | none => scan layer rest (i + 1) { state with missing := state.missing ++ [blk] }

variable [PartialCmp Score]

def load (layer : UInt32) (scores : UInt32 → Score) (tile : List UInt32) (state : Tile Score) (blk : UInt32) :
    Except Error Unit × Tile Score :=
  match state.pool.assign ⟨layer, blk⟩ (state.eviction.rank state.pinned) with
  | (.error error, pool) => (.error error, { state with pool })
  | (.ok slot, pool) =>
    (.ok (),
      { state with
        pool
        pinned := state.pinned ++ [slot]
        eviction := (state.eviction.touch slot).recordScore slot (scores blk)
        blockTable := state.blockTable.set (tile.idxOf blk) slot
        reqs := state.reqs ++ blockRequests pool layer blk slot })

def loadAll (layer : UInt32) (scores : UInt32 → Score) (tile : List UInt32) :
    List UInt32 → Tile Score → Except Error Unit × Tile Score
  | [], state => (.ok (), state)
  | blk :: rest, state =>
    match state.load layer scores tile blk with
    | (.error error, state) => (.error error, state)
    | (.ok (), state) => loadAll layer scores tile rest state

end Tile

namespace HighSpeedSwap

variable {Score : Type*} [PartialCmp Score]

def new (dims : ScratchDims) (memory : Memory UInt8) (groups : Groups) : Except Error (HighSpeedSwap Score) :=
  match ScratchPool.new dims memory with
  | .error error => .error error
  | .ok pool => .ok { pool, eviction := .new dims.numSlots, groups }

def placeTile (swap : HighSpeedSwap Score) (layer : UInt32) (scores : UInt32 → Score) (tile : List UInt32) :
    Except Error Unit × Tile Score :=
  let start : Tile Score :=
    { pool := swap.pool
      eviction := swap.eviction
      blockTable := .replicate swap.pool.dims.numSlots 0
      pinned := []
      missing := []
      reqs := [] }
  let scanned := start.scan layer tile 0
  Tile.loadAll layer scores tile scanned.missing scanned

/-- The state that a tile leaves, once its read has left `memory`. -/
def after (swap : HighSpeedSwap Score) (state : Tile Score) (memory : Memory UInt8) : HighSpeedSwap Score :=
  { swap with pool := { state.pool with pool := memory }, eviction := state.eviction }

/-- The loop over the tiles. -/
inductive AttendTiles (layer : UInt32) (scores : UInt32 → Score) :
    List UInt32 → HighSpeedSwap Score → Except Failure Unit → HighSpeedSwap Score → Prop where
  | done {swap} : AttendTiles layer scores [] swap (.ok ()) swap
  | refused {ids swap error state} (more : ids ≠ [])
      (placed : swap.placeTile layer scores (ids.take swap.pool.dims.numSlots) = (.error error, state)) :
      AttendTiles layer scores ids swap (.error .assign) (swap.after state state.pool.pool)
  /-- A read that fails before all its groups are in place. -/
  | unread {ids swap state memory} (more : ids ≠ [])
      (placed : swap.placeTile layer scores (ids.take swap.pool.dims.numSlots) = (.ok (), state))
      (touches : Touches swap.pool.dims.groupStride state.reqs state.pool.pool memory)
      (unfilled : ∃ req ∈ state.reqs, ¬ Filled swap.groups swap.pool.dims.groupStride memory req) :
      AttendTiles layer scores ids swap (.error .read) (swap.after state memory)
  /-- Anything that fails after that. -/
  | unlaunched {ids swap state memory} (more : ids ≠ [])
      (placed : swap.placeTile layer scores (ids.take swap.pool.dims.numSlots) = (.ok (), state))
      (touches : Touches swap.pool.dims.groupStride state.reqs state.pool.pool memory)
      (filled : ∀ req ∈ state.reqs, Filled swap.groups swap.pool.dims.groupStride memory req) :
      AttendTiles layer scores ids swap (.error .launch) (swap.after state memory)
  | next {ids swap state memory answer last} (more : ids ≠ [])
      (placed : swap.placeTile layer scores (ids.take swap.pool.dims.numSlots) = (.ok (), state))
      (touches : Touches swap.pool.dims.groupStride state.reqs state.pool.pool memory)
      (filled : ∀ req ∈ state.reqs, Filled swap.groups swap.pool.dims.groupStride memory req)
      (rest : AttendTiles layer scores (ids.drop swap.pool.dims.numSlots) (swap.after state memory) answer last) :
      AttendTiles layer scores ids swap answer last

inductive Event where
  | attend (layer : UInt32) (seqBlockIds : List UInt32) (answer : Except Failure Unit)
  | offload (layer block : UInt32) (answer : Except Failure Unit)

def OfBlock (layer block : UInt32) (group : GroupKey) : Prop := group.layer = layer ∧ group.block = block

inductive Step : HighSpeedSwap Score → Event → HighSpeedSwap Score → Prop where
  /-- The query's projection, the scores or their copy to the host fail. -/
  | unprojected {swap layer ids} : Step swap (.attend layer ids (.error .project)) swap
  | attend {swap layer ids answer last} (scores : UInt32 → Score)
      (tiles : AttendTiles layer scores ids swap answer last) : Step swap (.attend layer ids answer) last
  | unprojectedBlock {swap layer block} : Step swap (.offload layer block (.error .project)) swap
  /-- Every group of the block is rewritten, and the pool's copy dropped. -/
  | offload {swap layer block} (groups : Groups)
      (others : ∀ group, ¬ OfBlock layer block group → groups group = swap.groups group) :
      Step swap (.offload layer block (.ok ())) { swap with pool := swap.pool.invalidate ⟨layer, block⟩, groups }
  /-- A write fails, after any of the block's groups were rewritten. -/
  | unwritten {swap layer block} (groups : Groups)
      (others : ∀ group, ¬ OfBlock layer block group → groups group = swap.groups group) :
      Step swap (.offload layer block (.error .write)) { swap with groups }

end HighSpeedSwap

end Metrale.Storage
