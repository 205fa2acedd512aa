import Metrale.Foundation.VecOps

/-! # Slots of the recurrent-state pool (`ssm_pool_slots.rs`, `sequence_compact.rs`)

A sequence keeps its recurrent state in a slot of the pool, which a guard gives back when the sequence is
dropped.  Compaction moves a sequence to another slot: it copies the slot's state on the device, repoints the
sequence's layer states and hands the old slot back.  Every call of the device may fail; what it answers is a
parameter.  An index past the pool's layers or slots panics in the source, and is out of the model. -/

namespace Metrale.Engine

open Metrale.Foundation

abbrev DevicePtr := UInt64

def offset (base : DevicePtr) (bytes : Nat) : DevicePtr := base + UInt64.ofNat bytes

inductive GpuError where
  | call
deriving DecidableEq

/-- One `copy_d2d_async`. -/
structure DeviceCopy where
  source : DevicePtr
  target : DevicePtr
  bytes : Nat

/-- What the device answers; the copies of one call are numbered in their order. -/
structure GpuBackend where
  gdnCarryFlush : Except GpuError Unit
  copyD2dAsync : Nat → DeviceCopy → Except GpuError Unit
  synchronize : Except GpuError Unit

/-- The free slots are a `Vec`: the last one is claimed next. -/
structure SsmStatePool where
  maxSlots : Nat
  mtpSlots : Nat
  numSsmLayers : Nat
  hBytes : Nat
  hStoredBytes : Nat
  convBytes : Nat
  hasMtp : Bool
  numIntermediates : Nat
  hInterCounts : List Nat
  hInterOffsets : List Nat
  hStatePools : List DevicePtr
  convStatePools : List DevicePtr
  hIntermediatePools : List DevicePtr
  convIntermediatePools : List DevicePtr
  hCheckpointPools : List DevicePtr
  convCheckpointPools : List DevicePtr
  hPrefillStagePool : Option DevicePtr
  freeSlots : List Nat

namespace SsmStatePool

/-! ## Addresses -/

def mtpSlot (pool : SsmStatePool) (slot : Nat) : Nat := if slot < pool.mtpSlots then slot else pool.mtpSlots

def hState (pool : SsmStatePool) (layer slot : Nat) : DevicePtr :=
  offset (pool.hStatePools.getD layer 0) (slot * pool.hStoredBytes)

def convState (pool : SsmStatePool) (layer slot : Nat) : DevicePtr :=
  offset (pool.convStatePools.getD layer 0) (slot * pool.convBytes)

def hPrefillStage (pool : SsmStatePool) (slot : Nat) : Option DevicePtr :=
  pool.hPrefillStagePool.map fun base => offset base (slot * pool.hBytes)

def hIntermediate (pool : SsmStatePool) (layer slot token : Nat) : DevicePtr :=
  offset (pool.hIntermediatePools.getD layer 0)
    ((pool.hInterOffsets.getD (pool.mtpSlot slot) 0 + token) * pool.hStoredBytes)

def hInterCount (pool : SsmStatePool) (slot : Nat) : Nat :=
  if !pool.hasMtp then 0 else pool.hInterCounts.getD (pool.mtpSlot slot) 0

def convIntermediate (pool : SsmStatePool) (layer slot token : Nat) : DevicePtr :=
  offset (pool.convIntermediatePools.getD layer 0)
    ((pool.mtpSlot slot * pool.numIntermediates + token) * pool.convBytes)

def hCheckpoint (pool : SsmStatePool) (layer slot : Nat) : DevicePtr :=
  offset (pool.hCheckpointPools.getD layer 0) (pool.mtpSlot slot * pool.hStoredBytes)

def convCheckpoint (pool : SsmStatePool) (layer slot : Nat) : DevicePtr :=
  offset (pool.convCheckpointPools.getD layer 0) (pool.mtpSlot slot * pool.convBytes)

/-! ## Claim and release -/

def claimSlot (pool : SsmStatePool) : Option (Nat × SsmStatePool) :=
  pool.freeSlots.getLast?.map fun slot => (slot, { pool with freeSlots := pool.freeSlots.dropLast })

def releaseSlot (pool : SsmStatePool) (slot : Nat) : SsmStatePool :=
  { pool with freeSlots := pool.freeSlots ++ [slot] }

/-- Takes the slot off the free list, if it is there. -/
def claimSpecific (pool : SsmStatePool) (slot : Nat) : Bool × SsmStatePool :=
  match pool.freeSlots.findIdx? (· == slot) with
  | some position => (true, { pool with freeSlots := swapRemove pool.freeSlots position })
  | none => (false, pool)

/-! ## Copying a slot -/

/-- The copies that `copy_slot` queues, in order.  Verify state is copied between covered slots only. -/
def slotCopies (pool : SsmStatePool) (source target : Nat) : List DeviceCopy :=
  let copyMtp := pool.hasMtp && source < pool.mtpSlots && target < pool.mtpSlots
  (List.range pool.numSsmLayers).flatMap fun layer =>
    [⟨pool.hState layer source, pool.hState layer target, pool.hStoredBytes⟩,
      ⟨pool.convState layer source, pool.convState layer target, pool.convBytes⟩] ++
    if copyMtp then
      ((List.range (min (pool.hInterCount source) (pool.hInterCount target))).map fun token =>
        ⟨pool.hIntermediate layer source token, pool.hIntermediate layer target token, pool.hStoredBytes⟩) ++
      ((List.range pool.numIntermediates).map fun token =>
        ⟨pool.convIntermediate layer source token, pool.convIntermediate layer target token, pool.convBytes⟩) ++
      [⟨pool.hCheckpoint layer source, pool.hCheckpoint layer target, pool.hStoredBytes⟩,
        ⟨pool.convCheckpoint layer source, pool.convCheckpoint layer target, pool.convBytes⟩]
    else []

/-- The first copy that fails ends the call. -/
def copySlot (pool : SsmStatePool) (source target : Nat) (gpu : GpuBackend) : Except GpuError Unit :=
  (pool.slotCopies source target).zipIdx.forM fun (copy, call) => gpu.copyD2dAsync call copy

end SsmStatePool

/-! ## Guards and sequences -/

structure SlotGuard where
  idx : Option Nat
deriving DecidableEq

def SlotGuard.take (guard : SlotGuard) : Option Nat × SlotGuard := (guard.idx, ⟨none⟩)

def SlotGuard.migrate (_ : SlotGuard) (newIdx : Nat) : SlotGuard := ⟨some newIdx⟩

structure SsmLayerState where
  hState : DevicePtr
  convState : DevicePtr
  hStateCheckpoint : Option DevicePtr
  convStateCheckpoint : Option DevicePtr
  hStateIntermediates : List DevicePtr
  convStateIntermediates : List DevicePtr
  hPrefillStage : Option DevicePtr

inductive LayerState where
  | ssm (state : SsmLayerState)
  | other

/-- What compaction reads and writes of a `SequenceState`. -/
structure SlottedSequence where
  slotIdx : Nat
  ssmSlot : Option SlotGuard
  layerStates : List LayerState

def usizeMax : Nat := 18446744073709551615

def SsmLayerState.repoint (pool : SsmStatePool) (layer newSlot : Nat) (state : SsmLayerState) : SsmLayerState :=
  let moved :=
    { state with
      hState := pool.hState layer newSlot
      convState := pool.convState layer newSlot
      hPrefillStage := pool.hPrefillStage newSlot }
  if !pool.hasMtp then moved
  else
    -- What the sequence has not allocated stays unallocated.
    { moved with
      hStateCheckpoint := state.hStateCheckpoint.map fun _ => pool.hCheckpoint layer newSlot
      convStateCheckpoint := state.convStateCheckpoint.map fun _ => pool.convCheckpoint layer newSlot
      hStateIntermediates :=
        if state.hStateIntermediates.isEmpty then []
        else (List.range (pool.hInterCount newSlot)).map (pool.hIntermediate layer newSlot)
      convStateIntermediates :=
        if state.convStateIntermediates.isEmpty then []
        else (List.range pool.numIntermediates).map (pool.convIntermediate layer newSlot) }

/-- `layer` numbers the model's layers and `ssmLayer` the linear-attention ones among them. -/
def repointLayers (pool : SsmStatePool) (linearAttention : Nat → Bool) (newSlot : Nat) :
    Nat → Nat → List LayerState → List LayerState
  | _, _, [] => []
  | layer, ssmLayer, state :: rest =>
    if linearAttention layer then
      (match state with
        | .ssm state => .ssm (state.repoint pool ssmLayer newSlot)
        | .other => .other) ::
        repointLayers pool linearAttention newSlot (layer + 1) (ssmLayer + 1) rest
    else state :: repointLayers pool linearAttention newSlot (layer + 1) ssmLayer rest

namespace SlottedSequence

def detachSlotForReuse (seq : SlottedSequence) : SlottedSequence :=
  { seq with ssmSlot := seq.ssmSlot.map fun guard => guard.take.2, slotIdx := usizeMax }

def compactSequenceDispatch (pool : SsmStatePool) (linearAttention : Nat → Bool) (gpu : GpuBackend)
    (seq : SlottedSequence) (newSlot : Nat) : Except GpuError Unit × SlottedSequence × SsmStatePool :=
  let oldSlot := seq.slotIdx
  if oldSlot = newSlot then (.ok (), seq, pool)
  else
    match pool.copySlot oldSlot newSlot gpu with
    | .error error => (.error error, seq, pool)
    | .ok () =>
      let moved :=
        { seq with
          layerStates := repointLayers pool linearAttention newSlot 0 0 seq.layerStates
          slotIdx := newSlot }
      -- The copies are queued, and the index has moved before they are waited for.
      match gpu.synchronize with
      | .error error => (.error error, moved, pool)
      | .ok () =>
        let claimed := (pool.claimSpecific newSlot).2
        match seq.ssmSlot with
        | some guard =>
          (.ok (), { moved with ssmSlot := some (guard.take.2.migrate newSlot) }, claimed.releaseSlot oldSlot)
        | none => (.ok (), moved, claimed.releaseSlot oldSlot)

def compactSequence (pool : SsmStatePool) (linearAttention : Nat → Bool) (gpu : GpuBackend)
    (seq : SlottedSequence) (newSlot : Nat) : Except GpuError Unit × SlottedSequence × SsmStatePool :=
  match gpu.gdnCarryFlush with
  | .error error => (.error error, seq, pool)
  | .ok () => compactSequenceDispatch pool linearAttention gpu seq newSlot

end SlottedSequence

end Metrale.Engine
