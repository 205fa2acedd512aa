import Metrale.Foundation.HashMap

/-! # The radix tree's node arena (`radix_tree/inner.rs`, `radix_tree/inner/evict.rs`)

Tokens are chunked at `blockSize`; every node but a root holds one physical KV block.  Vectors that
are pushed and popped at their end are lists whose head is the vector's last element.  Counts and
access times are `Nat`: a node's count is one more than the sequences holding it, each of which is
an object in memory, and the access counter is a `u64` that grows by one a call. -/

namespace Metrale.Cache

open Metrale.Foundation

abbrev Token := UInt32
abbrev BlockId := UInt32
abbrev DiskId := UInt32
abbrev AdapterId := UInt64
abbrev NodeId := Nat
abbrev Chunk := List Token

/-- `u32::MAX`, which stands for "no block" and "no disk id". -/
def u32Max : UInt32 := 0xFFFFFFFF

structure PartialSuffix where
  tokens : List Token
  block : BlockId
  disk : DiskId

structure RadixNode where
  children : HashMap Chunk NodeId
  blockIdx : BlockId
  diskBlockId : DiskId
  contextHash : UInt64
  refCount : Nat
  lastAccess : Nat
  parent : Option NodeId
  parentKey : Option Chunk
  partialSuffix : Option PartialSuffix

/-- The literal that `RadixTreeInner::new` and `root_for_insert` build a root from. -/
def RadixNode.root : RadixNode where
  children := ∅
  blockIdx := u32Max
  diskBlockId := u32Max
  contextHash := 0
  refCount := 0
  lastAccess := 0
  parent := none
  parentKey := none
  partialSuffix := none

/-- `partial_suffix.take()`. -/
def RadixNode.dropSuffix (node : RadixNode) : RadixNode := { node with partialSuffix := none }

/-- `children.insert(key, child)`. -/
def RadixNode.withChild (key : Chunk) (child : NodeId) (node : RadixNode) : RadixNode :=
  { node with children := node.children.insert key child }

/-- `children.remove(key)`. -/
def RadixNode.withoutChild (key : Chunk) (node : RadixNode) : RadixNode :=
  { node with children := node.children.erase key }

/-- What `evict` leaves in a freed slot: the count, hash and access time stay. -/
def RadixNode.freed (node : RadixNode) : RadixNode :=
  { node with
    blockIdx := u32Max
    diskBlockId := u32Max
    children := ∅
    parent := none
    parentKey := none
    partialSuffix := none }

/-- What evicting one node frees: its block, and its partial suffix's block. -/
def RadixNode.evictedPhys (node : RadixNode) : List BlockId :=
  node.blockIdx :: (node.partialSuffix.map PartialSuffix.block).toList

def RadixNode.evictedDisk (node : RadixNode) : List DiskId :=
  node.diskBlockId :: (node.partialSuffix.map PartialSuffix.disk).toList

/-- FNV-1a over `tokens`, seeded with the parent's hash. -/
def contextHashCombine (parentHash : UInt64) (tokens : List Token) : UInt64 :=
  tokens.foldl (fun hash token => (hash ^^^ token.toUInt64) * 0x100000001b3) parentHash

structure RadixTreeInner where
  nodes : List RadixNode
  freeNodes : List NodeId
  roots : HashMap AdapterId NodeId
  accessCounter : Nat
  partialTailSharing : Bool

/-- `&tokens[i * block_size..(i + 1) * block_size]`. -/
def chunk (tokens : List Token) (blockSize i : Nat) : Chunk :=
  (tokens.drop (i * blockSize)).take blockSize

namespace RadixTreeInner

/-- `partialTailSharing` is what `partial_tail_sharing_enabled` read from the environment. -/
def new (partialTailSharing : Bool) : RadixTreeInner where
  nodes := [RadixNode.root]
  freeNodes := []
  roots := (∅ : HashMap AdapterId NodeId).insert 0 0
  accessCounter := 0
  partialTailSharing := partialTailSharing

/-- `self.nodes[id]`. -/
def node (tree : RadixTreeInner) (id : NodeId) : RadixNode :=
  tree.nodes.getD id RadixNode.root

/-- An assignment to fields of `self.nodes[id]`. -/
def modifyNode (tree : RadixTreeInner) (id : NodeId) (change : RadixNode → RadixNode) :
    RadixTreeInner :=
  { tree with nodes := tree.nodes.modify id change }

def nextAccess (tree : RadixTreeInner) : RadixTreeInner × Nat :=
  ({ tree with accessCounter := tree.accessCounter + 1 }, tree.accessCounter + 1)

def rootForRead (tree : RadixTreeInner) (adapterId : AdapterId) : Option NodeId :=
  tree.roots.lookup adapterId

def allocNode (tree : RadixTreeInner) (node : RadixNode) : RadixTreeInner × NodeId :=
  match tree.freeNodes with
  | id :: freeNodes => ({ tree with freeNodes, nodes := tree.nodes.set id node }, id)
  | [] => ({ tree with nodes := tree.nodes ++ [node] }, tree.nodes.length)

def rootForInsert (tree : RadixTreeInner) (adapterId : AdapterId) : RadixTreeInner × NodeId :=
  match tree.roots.lookup adapterId with
  | some id => (tree, id)
  | none =>
    -- A root is an ordinary node of the arena, and may take a freed slot.
    let (tree, id) := tree.allocNode RadixNode.root
    ({ tree with roots := tree.roots.insert adapterId id }, id)

/-! ## `walk` -/

/-- The result triple of `walk`. -/
structure Walked where
  matchedBlocks : List BlockId
  matchedDisk : List DiskId
  matchedTokens : Nat

/-- The locals of `walk`'s loop. -/
structure WalkState extends Walked where
  current : NodeId
  parentCtxHash : UInt64

/-- `remaining` more rounds of `walk`'s loop, from round `i`. -/
def walkBlocks (tree : RadixTreeInner) (tokens : List Token) (blockSize : Nat) :
    (remaining i : Nat) → WalkState → WalkState
  | 0, _, state => state
  | remaining + 1, i, state =>
    let expectedHash := contextHashCombine state.parentCtxHash (chunk tokens blockSize i)
    match (tree.node state.current).children.lookup (chunk tokens blockSize i) with
    | some child =>
      -- A node whose count dropped to 0 stays in the tree and matches nothing.
      if (tree.node child).contextHash = expectedHash ∧ (tree.node child).refCount > 0 then
        tree.walkBlocks tokens blockSize remaining (i + 1)
          { matchedBlocks := state.matchedBlocks ++ [(tree.node child).blockIdx]
            matchedDisk := state.matchedDisk ++ [(tree.node child).diskBlockId]
            matchedTokens := state.matchedTokens + blockSize
            current := child
            parentCtxHash := expectedHash }
      else state
    | none => state

/-- The sub-block tail: a child whose key starts with the remaining tokens, else the node's partial
suffix. -/
def walkTail (tree : RadixTreeInner) (suffix : List Token) (state : WalkState) : Walked :=
  let usable : (Sigma fun _ : Chunk => NodeId) → Bool := fun entry =>
    suffix.isPrefixOf entry.1 &&
      (tree.node entry.2).contextHash == contextHashCombine state.parentCtxHash entry.1 &&
      (tree.node entry.2).refCount > 0
  match (tree.node state.current).children.entries.find? usable with
  | some entry =>
    { matchedBlocks := state.matchedBlocks ++ [(tree.node entry.2).blockIdx]
      matchedDisk := state.matchedDisk ++ [(tree.node entry.2).diskBlockId]
      matchedTokens := state.matchedTokens + suffix.length }
  | none =>
    match (tree.node state.current).partialSuffix with
    | some stored =>
      if suffix.isPrefixOf stored.tokens then
        { matchedBlocks := state.matchedBlocks ++ [stored.block]
          matchedDisk := state.matchedDisk ++ [stored.disk]
          matchedTokens := state.matchedTokens + suffix.length }
      else state.toWalked
    | none => state.toWalked

def walk (tree : RadixTreeInner) (tokens : List Token) (blockSize : Nat) (adapterId : AdapterId) :
    Walked :=
  match tree.rootForRead adapterId with
  | none => { matchedBlocks := [], matchedDisk := [], matchedTokens := 0 }
  | some root =>
    let numFullBlocks := tokens.length / blockSize
    let state := tree.walkBlocks tokens blockSize numFullBlocks 0
      { matchedBlocks := [], matchedDisk := [], matchedTokens := 0
        current := root, parentCtxHash := 0 }
    let remainder := tokens.length - state.matchedTokens
    if tree.partialTailSharing = true ∧ 0 < remainder ∧ remainder < blockSize ∧
        state.matchedTokens = numFullBlocks * blockSize then
      tree.walkTail (tokens.drop state.matchedTokens) state
    else state.toWalked

/-! ## `inc_refs`, `dec_refs` -/

/-- The loop `inc_refs` and `dec_refs` share: change each node on the path of chunks `i`, …, up to
the first chunk that has no node. -/
def modifyPath (change : RadixNode → RadixNode) (tokens : List Token) (blockSize : Nat) :
    (remaining i : Nat) → NodeId → RadixTreeInner → RadixTreeInner
  | 0, _, _, tree => tree
  | remaining + 1, i, current, tree =>
    match (tree.node current).children.lookup (chunk tokens blockSize i) with
    | some child =>
      modifyPath change tokens blockSize remaining (i + 1) child (tree.modifyNode child change)
    | none => tree

def incRefs (tree : RadixTreeInner) (tokens : List Token) (blockSize numMatched : Nat)
    (adapterId : AdapterId) : RadixTreeInner :=
  let (tree, access) := tree.nextAccess
  match tree.rootForRead adapterId with
  | none => tree
  | some root =>
    modifyPath (fun node => { node with refCount := node.refCount + 1, lastAccess := access })
      tokens blockSize (numMatched / blockSize) 0 root tree

def decRefs (tree : RadixTreeInner) (tokens : List Token) (blockSize matchedTokens : Nat)
    (adapterId : AdapterId) : RadixTreeInner :=
  match tree.rootForRead adapterId with
  | none => tree
  | some root =>
    modifyPath
      (fun node => if node.refCount > 0 then { node with refCount := node.refCount - 1 } else node)
      tokens blockSize (min (matchedTokens / blockSize) (tokens.length / blockSize)) 0 root tree

/-! ## `insert` -/

structure InsertArgs where
  tokens : List Token
  blockTable : List BlockId
  diskBlockIds : List DiskId
  blockSize : Nat
  matchedTokens : Nat
  adapterId : AdapterId

namespace InsertArgs

def numFullBlocks (args : InsertArgs) : Nat := args.tokens.length / args.blockSize

def numBlocks (args : InsertArgs) : Nat := min args.numFullBlocks args.blockTable.length

def hssActive (args : InsertArgs) : Bool := !args.diskBlockIds.isEmpty

/-- `disk_id` of round `i`. -/
def diskId (args : InsertArgs) (i : Nat) : DiskId :=
  if args.hssActive then args.diskBlockIds.getD i u32Max else u32Max

/-- `is_seq_owned` of round `i`. -/
def isSeqOwned (args : InsertArgs) (i : Nat) : Bool := args.matchedTokens ≤ i * args.blockSize

def chunkAt (args : InsertArgs) (i : Nat) : Chunk := chunk args.tokens args.blockSize i

def partialDisk (args : InsertArgs) : DiskId :=
  if args.hssActive && args.numFullBlocks < args.diskBlockIds.length then
    args.diskBlockIds.getD args.numFullBlocks u32Max
  else u32Max

/-- `insert` indexes `disk_block_ids` in every round when the list is not empty, and divides by
`block_size`: these are its panics in a release build. -/
def panics (args : InsertArgs) : Bool :=
  args.blockSize == 0 || (args.hssActive && args.diskBlockIds.length < args.numBlocks)

end InsertArgs

structure InsertAcquired where
  diskBlockIds : List DiskId
  blocks : List BlockId
  releasedBlocks : List BlockId

/-- The locals of `insert`'s loop. -/
structure InsertState where
  tree : RadixTreeInner
  current : NodeId
  parentCtxHash : UInt64
  newlyAcquired : List DiskId
  newlyOwnedBlocks : List BlockId
  releasedBlocks : List BlockId

/-- What `insert` assigns to a node that chunk `i` already has. -/
def existingNode (args : InsertArgs) (access i : Nat) (ctxHash : UInt64) (takesDisk : Bool)
    (node : RadixNode) : RadixNode :=
  { node with
    lastAccess := access
    contextHash := ctxHash
    -- A count of 0 is first raised to the cache's own reference.
    refCount := (if node.refCount = 0 then 1 else node.refCount) + (if args.isSeqOwned i then 1 else 0)
    diskBlockId := if takesDisk then args.diskId i else node.diskBlockId }

/-- `insert` at a chunk that has a node. -/
def insertExisting (args : InsertArgs) (access i : Nat) (child : NodeId) (state : InsertState) :
    InsertState :=
  let ctxHash := contextHashCombine state.parentCtxHash (args.chunkAt i)
  let takesDisk := args.hssActive && (state.tree.node child).diskBlockId == u32Max &&
    args.diskId i != u32Max
  { state with
    tree := state.tree.modifyNode child (existingNode args access i ctxHash takesDisk)
    newlyAcquired :=
      if takesDisk then state.newlyAcquired ++ [args.diskId i] else state.newlyAcquired
    parentCtxHash := ctxHash
    current := child }

/-- The node `insert` creates for chunk `i` under `parent`. -/
def newNode (args : InsertArgs) (access i : Nat) (parent : NodeId) (ctxHash : UInt64) :
    RadixNode where
  children := ∅
  blockIdx := args.blockTable.getD i u32Max
  diskBlockId := args.diskId i
  contextHash := ctxHash
  refCount := if args.isSeqOwned i then 2 else 1
  lastAccess := access
  parent := some parent
  parentKey := some (args.chunkAt i)
  partialSuffix := none

/-- Store `new` as the child of `current` at `key`, in place of `current`'s partial suffix. -/
def attachChild (tree : RadixTreeInner) (current : NodeId) (key : Chunk) (new : RadixNode) :
    RadixTreeInner × NodeId :=
  let (tree, childId) := (tree.modifyNode current RadixNode.dropSuffix).allocNode new
  (tree.modifyNode current (RadixNode.withChild key childId), childId)

/-- `insert` at a chunk that has no node. -/
def insertNew (args : InsertArgs) (access i : Nat) (state : InsertState) : InsertState :=
  let ctxHash := contextHashCombine state.parentCtxHash (args.chunkAt i)
  let suffix := (state.tree.node state.current).partialSuffix
  let (tree, childId) := state.tree.attachChild state.current (args.chunkAt i)
    (newNode args access i state.current ctxHash)
  { tree
    current := childId
    parentCtxHash := ctxHash
    newlyAcquired :=
      if args.hssActive && args.diskId i != u32Max then state.newlyAcquired ++ [args.diskId i]
      else state.newlyAcquired
    newlyOwnedBlocks := state.newlyOwnedBlocks ++ [args.blockTable.getD i u32Max]
    releasedBlocks := state.releasedBlocks ++ (suffix.map PartialSuffix.block).toList }

/-- Round `i` of `insert`'s loop. -/
def insertChunk (args : InsertArgs) (access i : Nat) (state : InsertState) : InsertState :=
  match (state.tree.node state.current).children.lookup (args.chunkAt i) with
  | some child => insertExisting args access i child state
  | none => insertNew args access i state

/-- The first `rounds` rounds of `insert`'s loop. -/
def insertBlocks (args : InsertArgs) (access : Nat) (start : InsertState) : Nat → InsertState
  | 0 => start
  | rounds + 1 => insertChunk args access rounds (insertBlocks args access start rounds)

def insertPartial (args : InsertArgs) (rootId : NodeId) (state : InsertState) : InsertState :=
  if 0 < args.tokens.length % args.blockSize ∧ args.numFullBlocks < args.blockTable.length ∧
      state.current ≠ rootId then
    let partialToks := args.tokens.drop (args.numFullBlocks * args.blockSize)
    let partialBlock := args.blockTable.getD args.numFullBlocks u32Max
    -- The suffix that is replaced hands its block back, but not its disk id.
    let prior := (state.tree.node state.current).partialSuffix.map PartialSuffix.disk
    let priorBlock := (state.tree.node state.current).partialSuffix.map PartialSuffix.block
    { state with
      tree := state.tree.modifyNode state.current fun node =>
        { node with partialSuffix := some ⟨partialToks, partialBlock, args.partialDisk⟩ }
      newlyOwnedBlocks :=
        if priorBlock ≠ some partialBlock then state.newlyOwnedBlocks ++ [partialBlock]
        else state.newlyOwnedBlocks
      releasedBlocks :=
        if priorBlock ≠ some partialBlock then state.releasedBlocks ++ priorBlock.toList
        else state.releasedBlocks
      newlyAcquired :=
        if args.hssActive ∧ args.partialDisk ≠ u32Max ∧ prior ≠ some args.partialDisk then
          state.newlyAcquired ++ [args.partialDisk]
        else state.newlyAcquired }
  else state

/-- `insert` up to its loop. -/
def insertStart (tree : RadixTreeInner) (args : InsertArgs) : InsertState :=
  let (tree, rootId) := tree.nextAccess.1.rootForInsert args.adapterId
  { tree, current := rootId, parentCtxHash := 0
    newlyAcquired := [], newlyOwnedBlocks := [], releasedBlocks := [] }

/-- `none` where the source panics. -/
def insert (tree : RadixTreeInner) (args : InsertArgs) : Option (InsertAcquired × RadixTreeInner) :=
  if args.panics then none
  else
    let start := tree.insertStart args
    let state := insertPartial args start.current
      (insertBlocks args tree.nextAccess.2 start args.numBlocks)
    some (⟨state.newlyAcquired, state.newlyOwnedBlocks, state.releasedBlocks⟩, state.tree)

/-! ## `evict` -/

/-- A leaf that only the cache holds.  Roots and freed nodes have no parent. -/
def evictable (node : RadixNode) : Bool :=
  node.parent.isSome && node.refCount ≤ 1 && node.children.entries.isEmpty && node.blockIdx != u32Max

def betterVictim (best : Option (NodeId × Nat)) (entry : RadixNode × NodeId) :
    Option (NodeId × Nat) :=
  if evictable entry.1 then
    match best with
    | none => some (entry.2, entry.1.lastAccess)
    | some (_, bestAccess) =>
      -- Strictly less: of equally cold nodes the first in the arena goes.
      if entry.1.lastAccess < bestAccess then some (entry.2, entry.1.lastAccess) else best
  else best

def bestVictim (tree : RadixTreeInner) : Option (NodeId × Nat) :=
  tree.nodes.zipIdx.foldl betterVictim none

/-- `self.nodes[parent_id].children.remove(&key)`, when the victim has a parent and a key. -/
def unlinkFromParent (tree : RadixTreeInner) (victim : RadixNode) : RadixTreeInner :=
  match victim.parent, victim.parentKey with
  | some parentId, some key =>
    tree.modifyNode parentId (RadixNode.withoutChild key)
  | _, _ => tree

def evictNode (tree : RadixTreeInner) (nodeId : NodeId) : RadixTreeInner :=
  let tree := tree.unlinkFromParent (tree.node nodeId)
  -- The slot is reused by `alloc_node`, so that nothing of the victim may stay in it.
  let tree := tree.modifyNode nodeId RadixNode.freed
  { tree with freeNodes := nodeId :: tree.freeNodes }

/-- The `loop` of `evict`.  Each round but the last takes one node's parent away, so the number of
nodes is fuel enough (`evict_exhausts`). -/
def evictLoop (numBlocks : Nat) :
    Nat → RadixTreeInner → List BlockId → List DiskId → (List BlockId × List DiskId) × RadixTreeInner
  | 0, tree, freedPhys, freedDisk => ((freedPhys, freedDisk), tree)
  | fuel + 1, tree, freedPhys, freedDisk =>
    if numBlocks ≤ freedPhys.length then ((freedPhys, freedDisk), tree)
    else
      match tree.bestVictim with
      | some (nodeId, _) =>
        evictLoop numBlocks fuel (tree.evictNode nodeId)
          (freedPhys ++ (tree.node nodeId).evictedPhys)
          (freedDisk ++ (tree.node nodeId).evictedDisk)
      | none => ((freedPhys, freedDisk), tree)

def evict (tree : RadixTreeInner) (numBlocks : Nat) :
    (List BlockId × List DiskId) × RadixTreeInner :=
  if numBlocks = 0 then (([], []), tree) else evictLoop numBlocks tree.nodes.length tree [] []

/-- Roots and freed nodes carry `u32::MAX`. -/
def numEntries (tree : RadixTreeInner) : Nat :=
  tree.nodes.countP fun node => node.blockIdx != u32Max

end RadixTreeInner

end Metrale.Cache
