import Metrale.Scheduler.Repetition

/-! # Rollback to a boundary (`rollback.rs`, `rollback/rewind.rs`, `ssm_decode_ring.rs`)

A watchdog that trips rewinds the sequence to its last boundary token, so that tokens leave the output. -/

namespace Metrale.Scheduler

/-! ## The ring of snapshots -/

namespace SsmDecodeRing

def new (capacity : Nat) : SsmDecodeRing := ⟨[], capacity, 0⟩

def isEnabled (ring : SsmDecodeRing) : Bool := decide (0 < ring.capacity)

def record (ring : SsmDecodeRing) (tokenPosition : Nat) : Option (Nat × SsmDecodeRing) :=
  if ring.capacity = 0 then none
  else some (ring.nextSlot,
    { ring with
      nextSlot := (ring.nextSlot + 1) % ring.capacity
      entries := ring.entries.filter (·.2 != ring.nextSlot) ++ [(tokenPosition, ring.nextSlot)] })

def slotForPosition (ring : SsmDecodeRing) (keepLen : Nat) : Option Nat :=
  (ring.entries.find? (·.1 == keepLen)).map (·.2)

/-- The cursor goes on behind the newest entry that stays. -/
def truncateAfter (ring : SsmDecodeRing) (keepLen : Nat) : SsmDecodeRing :=
  let entries := ring.entries.filter fun entry => decide (entry.1 ≤ keepLen)
  { ring with
    entries
    nextSlot := match entries.getLast? with
      | some newest => (newest.2 + 1) % ring.capacity
      | none => if 0 < ring.capacity then 0 else ring.nextSlot }

end SsmDecodeRing

/-- What the device answers to the snapshot calls: whether a save works, and whether a restore does, by the number of
tokens it keeps. -/
structure SnapshotAnswers where
  saved : Bool
  restored : Nat → Bool

def rollbackResteerCap : Nat := 2

inductive RollbackFallback where
  | disabled
  | streamUnsafe
  | capReached
  | noBoundary
  | noSsmSnapshot
  | layerStateNotRewindable
deriving DecidableEq

inductive RollbackOutcome where
  | rolledBack (dropped : Nat)
  | fallback (reason : RollbackFallback)
deriving DecidableEq

/-- The last index below `bound` that `accepts`. -/
def lastIndex (accepts : Nat → Bool) : Nat → Option Nat
  | 0 => none
  | bound + 1 => if accepts bound then some bound else lastIndex accepts bound

def isBoundary (outputTokens : List Token) (mask : List Bool) (index : Nat) : Bool :=
  match outputTokens[index]? with
  | some token => masked mask token
  | none => false

/-- The last boundary with at least `minKeep` tokens after it. -/
def findLastBoundary (outputTokens : List Token) (mask : List Bool) (minKeep : Nat) : Option Nat :=
  lastIndex (isBoundary outputTokens mask) (outputTokens.length - minKeep)

def findLastBoundaryWithSnapshot (outputTokens : List Token) (mask : List Bool) (minKeep : Nat)
    (ring : SsmDecodeRing) : Option Nat :=
  lastIndex (fun index => isBoundary outputTokens mask index && (ring.slotForPosition (index + 1)).isSome)
    (outputTokens.length - minKeep)

variable {Device Grammar : Type*} [GrammarState Grammar]

/-- `rewind_buffers`: as many tokens leave the sequence as leave the output. -/
def rewindSeq (seq : SequenceState Device) (dropped : Nat) : SequenceState Device :=
  { seq with
    tokens := seq.tokens.take (seq.tokens.length - dropped)
    seqLen := seq.seqLen - min dropped seq.tokens.length }

/-- `grammar_rewind`: a matcher with fewer steps than dropped tokens is left where it is. -/
def grammarRewind (dropped : Nat) (grammar : Grammar) : Grammar :=
  if dropped ≤ GrammarState.numHistorySteps grammar then GrammarState.rollback grammar dropped else grammar

def applyRollback (a : ActiveSeq Device Grammar) (keepLen : Nat) : ActiveSeq Device Grammar :=
  let dropped := a.outputTokens.length - keepLen
  let outputTokens := a.outputTokens.take keepLen
  { a with
    seq := rewindSeq a.seq dropped
    outputTokens
    remaining := a.remaining + dropped
    content := { a.content with
      contentTokens := a.content.contentTokens - dropped
      proseTokensSinceLastTool := 0 }
    lastToken := outputTokens.getLast?.getD a.lastToken
    grammarState := a.grammarState.map (grammarRewind dropped)
    think := { a.think with consecutiveConfident := 0 } }

/-- The boundary to go back to, and on a model with recurrent layers the snapshot of it. -/
def rollbackTarget (a : ActiveSeq Device Grammar) (minKeep : Nat) (mask : List Bool) (model : ModelFacts) :
    Except RollbackFallback Nat :=
  if model.hasSsmLayers then
    if !a.ssmRollbackRing.isEnabled then .error .noSsmSnapshot
    else
      match findLastBoundaryWithSnapshot a.outputTokens mask minKeep a.ssmRollbackRing with
      | some index => .ok index
      | none =>
        if (findLastBoundary a.outputTokens mask minKeep).isSome then .error .noSsmSnapshot else .error .noBoundary
  else
    match findLastBoundary a.outputTokens mask minKeep with
    | some index => .ok index
    | none => .error .noBoundary

def rollbackToBoundary (a : ActiveSeq Device Grammar) (minKeep : Nat) (sched : SchedCtx)
    (snapshots : SnapshotAnswers) : ActiveSeq Device Grammar × RollbackOutcome :=
  if !sched.watchdog.rollbackResteer then (a, .fallback .disabled)
  else if a.cancelFlag.isSome then (a, .fallback .streamUnsafe)
  else if sched.model.decodeRollbackUnsupported then (a, .fallback .layerStateNotRewindable)
  else if rollbackResteerCap ≤ a.rollbackCount then (a, .fallback .capReached)
  else
    match sched.masks.boundary with
    | none => (a, .fallback .noBoundary)
    | some mask =>
      match rollbackTarget a minKeep mask sched.model with
      | .error reason => (a, .fallback reason)
      | .ok boundaryIdx =>
        let keepLen := boundaryIdx + 1
        let rolledBack := { applyRollback a keepLen with rollbackCount := saturatingAdd a.rollbackCount 1 }
        let outcome := RollbackOutcome.rolledBack (a.outputTokens.length - keepLen)
        if !sched.model.hasSsmLayers then (rolledBack, outcome)
        else if snapshots.restored keepLen then
          ({ rolledBack with ssmRollbackRing := a.ssmRollbackRing.truncateAfter keepLen }, outcome)
        else (a, .fallback .noSsmSnapshot)

/-- A save that fails leaves no entry. -/
def snapshotBoundaryIfSsm (a : ActiveSeq Device Grammar) (sched : SchedCtx) (snapshots : SnapshotAnswers) :
    ActiveSeq Device Grammar :=
  if !sched.model.hasSsmLayers || !a.ssmRollbackRing.isEnabled then a
  else
    match sched.masks.boundary, a.outputTokens.getLast? with
    | some mask, some last =>
      if !masked mask last then a
      else
        match a.ssmRollbackRing.record a.outputTokens.length with
        | none => a
        | some (_, ring) =>
          { a with
            ssmRollbackRing := if snapshots.saved then ring else ring.truncateAfter (a.outputTokens.length - 1) }
    | _, _ => a

end Metrale.Scheduler
