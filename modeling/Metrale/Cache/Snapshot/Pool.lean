import Mathlib.Data.Finset.Basic
import Metrale.Cache.Snapshot.Slots

/-! # The snapshot pool (`ssm_snapshot.rs`, `ssm_snapshot_spill.rs`, `ssm_snapshot_faultin.rs`)

The slots of the prefix-cache region, and the calls that move them between the pool, the snapshot index and
the callers that have saved a snapshot.  What the device, its staging buffer and the tier's store answer is a
parameter of each call; the bytes they move are left out, and so is the decode-rollback ring. -/

namespace Metrale.Cache

open Metrale.Foundation
open SnapshotEntry (slotsHeld)

/-- A check that fails before anything is done, or a call of the device, the staging buffer or the tier. -/
inductive SnapshotError where
  | f16Pool
  | widen
  | call
deriving DecidableEq

abbrev AuxState := List (UInt32 × List UInt8)

/-- What the calls that are made answer; the copies of `h` and `conv` state by their layer. -/
structure Answers where
  copyH : Nat → Except SnapshotError Unit
  copyConv : Nat → Except SnapshotError Unit
  copyHidden : Except SnapshotError Unit
  staging : Except SnapshotError Unit
  synchronize : Except SnapshotError Unit
  synchronizeAfter : Except SnapshotError Unit
  put : Except SnapshotError Bool
  get : Except SnapshotError Bool

def Answers.copyLayers (answers : Answers) (numSsmLayers : Nat) : Except SnapshotError Unit :=
  (List.range numSsmLayers).forM fun layer => do
    answers.copyH layer
    answers.copyConv layer

/-- The end of the free list is the head of the list.  A handle or a pointer of 0 is none. -/
structure SsmSnapshotPool where
  freeSlots : List Slot
  numSlots : Nat
  hBytes : Nat
  numSsmLayers : Nat
  sessionTags : HashMap Slot SessionHash
  auxBlobs : HashMap Slot AuxState
  slotHasHidden : Finset Slot
  hiddenSnapshot : UInt64
  hF16ToF32K : UInt64

namespace SsmSnapshotPool

def new (numSlots hBytes numSsmLayers : Nat) (hiddenSnapshot hF16ToF32K : UInt64) : SsmSnapshotPool :=
  -- A pool without layers or slots allocates nothing, and every call on it is a miss.
  let numSlots := if numSsmLayers > 0 && numSlots > 0 then numSlots else 0
  { freeSlots := List.range numSlots, numSlots, hBytes, numSsmLayers, sessionTags := ∅, auxBlobs := ∅
    slotHasHidden := ∅, hiddenSnapshot, hF16ToF32K }

def isEnabled (pool : SsmSnapshotPool) : Bool := pool.numSlots > 0

def clearSlotBookkeeping (pool : SsmSnapshotPool) (snapSlot : Slot) : SsmSnapshotPool :=
  { pool with
    slotHasHidden := pool.slotHasHidden.erase snapSlot
    sessionTags := pool.sessionTags.erase snapSlot
    auxBlobs := pool.auxBlobs.erase snapSlot }

def claimFreeSlot (pool : SsmSnapshotPool) : Option (Slot × SsmSnapshotPool) :=
  match pool.freeSlots with
  | [] => none
  | snapSlot :: freeSlots => some (snapSlot, { pool with freeSlots }.clearSlotBookkeeping snapSlot)

def tryPopFreeSlot (pool : SsmSnapshotPool) : Option (Slot × SsmSnapshotPool) :=
  if !pool.isEnabled then none else pool.claimFreeSlot

def free (pool : SsmSnapshotPool) (snapSlot : Slot) : SsmSnapshotPool :=
  let cleared := pool.clearSlotBookkeeping snapSlot
  { cleared with freeSlots := snapSlot :: cleared.freeSlots }

def tagSession (pool : SsmSnapshotPool) (snapSlot : Slot) (sessionHash : SessionHash) : SsmSnapshotPool :=
  if sessionHash ≠ 0 then { pool with sessionTags := pool.sessionTags.insert snapSlot sessionHash } else pool

def setAux (pool : SsmSnapshotPool) (snapSlot : Slot) (blobs : AuxState) : SsmSnapshotPool :=
  { pool with auxBlobs := pool.auxBlobs.insert snapSlot blobs }

def saveHidden (pool : SsmSnapshotPool) (snapSlot : Slot) (answers : Answers) :
    Except SnapshotError SsmSnapshotPool :=
  if !pool.isEnabled || pool.hiddenSnapshot == 0 then .ok pool
  else do
    answers.copyHidden
    return { pool with slotHasHidden := insert snapSlot pool.slotHasHidden }

/-- A copy that fails returns early: the slot that was claimed is not given back. -/
def save (pool : SsmSnapshotPool) (sessionHash : SessionHash) (hIsF16 : Bool) (hStoredBytes : Nat)
    (answers : Answers) : Except SnapshotError (Option Slot) × SsmSnapshotPool :=
  if !pool.isEnabled then (.ok none, pool)
  else if hStoredBytes < pool.hBytes && !hIsF16 then (.error .f16Pool, pool)
  else if hIsF16 && pool.hF16ToF32K == 0 then (.error .widen, pool)
  else
    match pool.claimFreeSlot with
    | none => (.ok none, pool)
    | some (snapSlot, pool) =>
      match answers.copyLayers pool.numSsmLayers with
      | .error error => (.error error, pool)
      | .ok () => (.ok (some snapSlot), pool.tagSession snapSlot sessionHash)

def reserveTailSlot (pool : SsmSnapshotPool) (sessionHash : SessionHash) : Option Slot × SsmSnapshotPool :=
  if !pool.isEnabled then (none, pool)
  else
    match pool.claimFreeSlot with
    | none => (none, pool)
    | some (snapSlot, pool) => (some snapSlot, pool.tagSession snapSlot sessionHash)

/-- The copies that are queued are waited for before the failure of one is answered. -/
def spillSlot (pool : SsmSnapshotPool) (answers : Answers) : Except SnapshotError Bool :=
  if !pool.isEnabled then .ok false
  else do
    answers.synchronize
    answers.staging
    answers.synchronizeAfter
    answers.copyLayers pool.numSsmLayers
    answers.put

def faultInSlot (pool : SsmSnapshotPool) (answers : Answers) : Except SnapshotError Bool :=
  if !pool.isEnabled then .ok false
  else do
    answers.staging
    let hit ← answers.get
    if !hit then return false
    answers.synchronizeAfter
    answers.copyLayers pool.numSsmLayers
    return true

end SsmSnapshotPool

/-- The pool and the index, and the slots with callers that are to insert them. -/
structure SsmSnapshots where
  pool : SsmSnapshotPool
  index : SsmSnapshotIndex
  callers : Multiset Slot

namespace SsmSnapshots

def new (pool : SsmSnapshotPool) : SsmSnapshots := { pool, index := .new, callers := 0 }

def free (snapshots : SsmSnapshots) (snapSlot : Slot) : SsmSnapshots :=
  { snapshots with pool := snapshots.pool.free snapSlot }

def forgetSnapshotTierKey (snapshots : SsmSnapshots) (key : PrefixHash) : SsmSnapshots :=
  { snapshots with index := (snapshots.index.forgetTiered key).2 }

/-- What a victim's state goes through before its slot is free: a spill that the store refuses retires the
entry, and one that fails does not. -/
def releaseVictim (snapshots : SsmSnapshots) (evict : TierEvict) (answers : Answers) : SsmSnapshots :=
  match evict with
  | .spill slot key _ =>
    match snapshots.pool.spillSlot answers with
    | .ok false => (snapshots.forgetSnapshotTierKey key).free slot
    | _ => snapshots.free slot
  | .drop slot _ => snapshots.free slot

variable (env : SnapshotEnv) (spillMinTokens : UInt64)

def acquireOrSpillSlot (snapshots : SsmSnapshots) (answers : Answers) : Option Slot × SsmSnapshots :=
  match snapshots.pool.tryPopFreeSlot with
  | some (slot, pool) => (some slot, { snapshots with pool })
  -- The victim's slot is pushed, so the pop that follows takes it.
  | none =>
    match snapshots.index.evictToTier env spillMinTokens with
    | (none, index) => (none, { snapshots with index })
    | (some evict, index) =>
      let released := { snapshots with index }.releaseVictim evict answers
      match released.pool.tryPopFreeSlot with
      | some (slot, pool) => (some slot, { released with pool })
      | none => (none, released)

/-- A slot whose entry does not accept the promotion is returned all the same. -/
def faultInForKey (snapshots : SsmSnapshots) (key : PrefixHash) (sessionHash : SessionHash)
    (spilling faulting : Answers) : Option Slot × SsmSnapshots :=
  match snapshots.acquireOrSpillSlot env spillMinTokens spilling with
  | (none, acquired) => (none, acquired)
  | (some slot, acquired) =>
    match acquired.pool.faultInSlot faulting with
    | .ok true =>
      (some slot,
        { acquired with
          pool := acquired.pool.tagSession slot sessionHash
          index := (acquired.index.promote key slot).2 })
    | .ok false => (none, (acquired.free slot).forgetSnapshotTierKey key)
    | .error _ => (none, acquired.free slot)

def reclaimFromCache (snapshots : SsmSnapshots) (tier : Bool) (answers : Answers) : Bool × SsmSnapshots :=
  if tier then
    match snapshots.index.evictToTier env spillMinTokens with
    | (none, index) => (false, { snapshots with index })
    | (some evict, index) => (true, { snapshots with index }.releaseVictim evict answers)
  else
    match snapshots.index.evictLru env with
    | (some snap, index) => (true, { snapshots with index }.free snap)
    | (none, index) => (false, { snapshots with index })

/-! ## The callers that have a slot -/

/-- Where a snapshot goes in the index. -/
inductive Insertion where
  | insert
  | tail
  | tailSibling

/-- The slot goes to the index, and the slots that it displaces are freed. -/
def insertSnapshot (snapshots : SsmSnapshots) (insertion : Insertion) (snapId : Slot) (prefixHash : PrefixHash)
    (sessionHash : SessionHash) (tokenCount : UInt64) : SsmSnapshots :=
  let (displaced, index) :=
    match insertion with
    | .insert =>
      let (displaced, index) := snapshots.index.insert prefixHash snapId sessionHash tokenCount
      (displaced.toList, index)
    | .tail => snapshots.index.insertTail prefixHash snapId sessionHash tokenCount
    | .tailSibling =>
      let (displaced, index) := snapshots.index.insertTailSibling prefixHash snapId sessionHash tokenCount
      (displaced.toList, index)
  -- What the insert displaces, its caller frees.
  displaced.foldl free { snapshots with index, callers := snapshots.callers.erase snapId }

/-- The caller frees the slot instead. -/
def freeSnapshot (snapshots : SsmSnapshots) (snapId : Slot) : SsmSnapshots :=
  { snapshots with callers := snapshots.callers.erase snapId }.free snapId

def attachAux (snapshots : SsmSnapshots) (snapId : Slot) (aux : AuxState) : SsmSnapshots :=
  if aux.isEmpty then snapshots else { snapshots with pool := snapshots.pool.setAux snapId aux }

/-- The caller returns early, with the slot. -/
def abandon (snapshots : SsmSnapshots) (snapId : Slot) : SsmSnapshots :=
  { snapshots with callers := snapshots.callers.erase snapId }

/-- `skip` is a window that has slid, a block table that is too short, or a vision prompt. -/
def prefillBRegisterCheckpoint (snapshots : SsmSnapshots) (skip : Bool) (aux : Except SnapshotError AuxState)
    (snapId : Slot) (prefixHash : PrefixHash) (sessionHash : SessionHash) (tokenCount : UInt64) :
    Except SnapshotError Unit × SsmSnapshots :=
  match aux with
  | .error error => (.error error, snapshots.abandon snapId)
  | .ok aux =>
    let snapshots := snapshots.attachAux snapId aux
    if skip then (.ok (), snapshots.freeSnapshot snapId)
    else (.ok (), snapshots.insertSnapshot .insert snapId prefixHash sessionHash tokenCount)

/-- The leaf of `prefill_b_finalize_last`; `skip` is a window that has slid or a vision prompt. -/
def finalizeLast (snapshots : SsmSnapshots) (skip : Bool) (aux : Except SnapshotError AuxState) (answers : Answers)
    (snapId : Slot) (prefixHash : PrefixHash) (sessionHash : SessionHash) (tokenCount : UInt64) :
    Except SnapshotError Unit × SsmSnapshots :=
  if skip then (.ok (), snapshots.freeSnapshot snapId)
  else
    match aux with
    | .error error => (.error error, snapshots.abandon snapId)
    | .ok aux =>
      let snapshots := snapshots.attachAux snapId aux
      match snapshots.pool.saveHidden snapId answers with
      | .error error => (.error error, snapshots.abandon snapId)
      | .ok pool =>
        (.ok (), { snapshots with pool }.insertSnapshot .insert snapId prefixHash sessionHash tokenCount)

/-- The other callers: a failed collection of aux state leaves the snapshot without it. -/
def keepSnapshot (snapshots : SsmSnapshots) (insertion : Insertion) (aux : Except SnapshotError AuxState)
    (snapId : Slot) (prefixHash : PrefixHash) (sessionHash : SessionHash) (tokenCount : UInt64) : SsmSnapshots :=
  let snapshots :=
    match aux with
    | .ok aux => snapshots.attachAux snapId aux
    | .error _ => snapshots
  snapshots.insertSnapshot insertion snapId prefixHash sessionHash tokenCount

/-! ## Runs -/

/-- A call, what the device and the tier answer it, and its own answer.  Retries after a reclaim are calls of
their own. -/
inductive Event where
  | save (sessionHash : SessionHash) (hIsF16 : Bool) (hStoredBytes : Nat) (answers : Answers)
      (answer : Except SnapshotError (Option Slot))
  | reserveTailSlot (sessionHash : SessionHash) (answer : Option Slot)
  | reclaimFromCache (tier : Bool) (answers : Answers) (answer : Bool)
  | faultInForKey (key : PrefixHash) (sessionHash : SessionHash) (spilling faulting : Answers)
      (answer : Option Slot)
  | lookupTiered (tokens : List Token) (matchedTokens : UInt64) (sessionHash : SessionHash)
      (adapterId : AdapterId) (answer : Option SnapMatch)
  | registerCheckpoint (skip : Bool) (aux : Except SnapshotError AuxState) (snapId : Slot)
      (prefixHash : PrefixHash) (sessionHash : SessionHash) (tokenCount : UInt64)
      (answer : Except SnapshotError Unit)
  | finalizeLast (skip : Bool) (aux : Except SnapshotError AuxState) (answers : Answers) (snapId : Slot)
      (prefixHash : PrefixHash) (sessionHash : SessionHash) (tokenCount : UInt64)
      (answer : Except SnapshotError Unit)
  | keepSnapshot (insertion : Insertion) (aux : Except SnapshotError AuxState) (snapId : Slot)
      (prefixHash : PrefixHash) (sessionHash : SessionHash) (tokenCount : UInt64)
  | freeSnapshot (snapId : Slot)
  /-- The forward pass that was to fill a reserved slot fails. -/
  | passFails (snapId : Slot)

/-- The slot is with the caller. -/
def handOut (snapshots : SsmSnapshots) (slot : Option Slot) : SsmSnapshots :=
  { snapshots with callers := slot.toList + snapshots.callers }

def savedSlot : Except SnapshotError (Option Slot) → Option Slot
  | .ok slot => slot
  | .error _ => none

inductive Step : SsmSnapshots → Event → SsmSnapshots → Prop where
  | save {snapshots sessionHash hIsF16 hStoredBytes answers answer pool}
      (saved : snapshots.pool.save sessionHash hIsF16 hStoredBytes answers = (answer, pool)) :
      Step snapshots (.save sessionHash hIsF16 hStoredBytes answers answer)
        ({ snapshots with pool }.handOut (savedSlot answer))
  | reserveTailSlot {snapshots sessionHash answer pool}
      (reserved : snapshots.pool.reserveTailSlot sessionHash = (answer, pool)) :
      Step snapshots (.reserveTailSlot sessionHash answer) ({ snapshots with pool }.handOut answer)
  | reclaimFromCache {snapshots tier answers answer after}
      (reclaimed : snapshots.reclaimFromCache env spillMinTokens tier answers = (answer, after)) :
      Step snapshots (.reclaimFromCache tier answers answer) after
  | faultInForKey {snapshots key sessionHash spilling faulting answer after}
      (faulted : snapshots.faultInForKey env spillMinTokens key sessionHash spilling faulting = (answer, after)) :
      Step snapshots (.faultInForKey key sessionHash spilling faulting answer) after
  | lookupTiered {snapshots tokens matchedTokens sessionHash adapterId answer index}
      (answered : snapshots.index.lookupTiered env tokens matchedTokens sessionHash adapterId = (answer, index)) :
      Step snapshots (.lookupTiered tokens matchedTokens sessionHash adapterId answer) { snapshots with index }
  | registerCheckpoint {snapshots skip aux snapId prefixHash sessionHash tokenCount answer after}
      (held : snapId ∈ snapshots.callers)
      (registered : snapshots.prefillBRegisterCheckpoint skip aux snapId prefixHash sessionHash tokenCount =
        (answer, after)) :
      Step snapshots (.registerCheckpoint skip aux snapId prefixHash sessionHash tokenCount answer) after
  | finalizeLast {snapshots skip aux answers snapId prefixHash sessionHash tokenCount answer after}
      (held : snapId ∈ snapshots.callers)
      (finalized : snapshots.finalizeLast skip aux answers snapId prefixHash sessionHash tokenCount =
        (answer, after)) :
      Step snapshots (.finalizeLast skip aux answers snapId prefixHash sessionHash tokenCount answer) after
  | keepSnapshot {snapshots insertion aux snapId prefixHash sessionHash tokenCount}
      (held : snapId ∈ snapshots.callers) :
      Step snapshots (.keepSnapshot insertion aux snapId prefixHash sessionHash tokenCount)
        (snapshots.keepSnapshot insertion aux snapId prefixHash sessionHash tokenCount)
  | freeSnapshot {snapshots snapId} (held : snapId ∈ snapshots.callers) :
      Step snapshots (.freeSnapshot snapId) (snapshots.freeSnapshot snapId)
  | passFails {snapshots snapId} (held : snapId ∈ snapshots.callers) :
      Step snapshots (.passFails snapId) (snapshots.abandon snapId)

end SsmSnapshots

end Metrale.Cache
