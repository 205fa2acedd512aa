import Metrale.Engine.StateSlots
import Metrale.Foundation.Runs

/-! # Carried recurrent-state rows (`model-engine/src/model/gdn_carry.rs`, `gdn_carry/flush.rs`)

A verdict only counts the rows it accepted, and the count stays pending until a verify writes the state back or a
flush folds it.  Every device operation answers from a list; after its end each succeeds.  A panic has no result.
What the device holds is left out, also the counts' copy on it. -/

namespace Metrale.Engine

open Metrale.Foundation

def verifyWyTableSeqs : Nat := 128

def gdnCarryLazyMinSeqs : Nat := 8

def gdnCarryEagerMaxPending : Nat := 4

abbrev Answers := List (Except String Unit)

def ask : Answers → Except String Answers
  | [] => .ok []
  | .ok () :: answers => .ok answers
  | .error e :: _ => .error e

/-- As many device operations, up to the first that fails. -/
def asks : Nat → Answers → Except String Answers
  | 0, answers => .ok answers
  | operations + 1, answers => ask answers >>= asks operations

structure CarryBufs where
  layers : Nat
  mtpSlots : Nat
  convDim : Nat
  dConv : Nat
  deriving DecidableEq

structure SlotStates where
  slot : Nat
  h : List DevicePtr
  conv : List DevicePtr
  deriving DecidableEq

/-- The last carry verify.  `engaged` is indexed by layer and batch position together. -/
structure LastCarry where
  seqs : List SlotStates
  ks : List Nat
  engaged : Nat → Bool

structure CarryInner where
  probed : Bool
  bufs : Option CarryBufs
  mirror : List UInt32
  pending : List SlotStates
  last : Option LastCarry
  committed : List Nat

def CarryInner.default : CarryInner where
  probed := false
  bufs := none
  mirror := []
  pending := []
  last := none
  committed := []

structure StateCopy where
  src : DevicePtr
  dst : DevicePtr
  bytes : Nat
  deriving DecidableEq

structure StridedRun where
  src : DevicePtr
  srcPitch : Nat
  dst : DevicePtr
  dstPitch : Nat
  widthBytes : Nat
  height : Nat
  deriving DecidableEq

/-- What is fixed for the process: the switches, the kernels and pools (`carries`), and the pools' addresses. -/
structure CarryModel where
  enabled : Bool
  carries : Bool
  batched : Bool
  bufs : CarryBufs
  hIntermediate : Nat → Nat → Nat → DevicePtr
  convIntermediate : Nat → Nat → Nat → DevicePtr
  hStoredBytes : Nat

/-- A sequence's slot, and its state in each GDN layer, if that layer's state is an SSM state. -/
structure CarrySeq where
  slotIdx : Nat
  layerStates : Nat → Option (DevicePtr × DevicePtr)

def CarrySeq.layerState (seq : CarrySeq) (i : Nat) : Except String (DevicePtr × DevicePtr) :=
  match seq.layerStates i with
  | some state => .ok state
  | none => .error s!"GDN carry: layer {i} is not SSM"

def copyPlanAsStridedRun (plan : List StateCopy) : Option StridedRun :=
  match plan with
  | first :: second :: _ =>
    let width := first.bytes
    let srcPitch := second.src - first.src
    let dstPitch := second.dst - first.dst
    if width = 0 ∨ ∃ c ∈ plan, c.bytes ≠ width then none
    else if second.src < first.src ∨ second.dst < first.dst then none
    else if srcPitch < UInt64.ofNat width ∨ dstPitch < UInt64.ofNat width then none
    else if ∃ c ∈ plan.zipIdx, c.1.src ≠ first.src + UInt64.ofNat c.2 * srcPitch ∨
        c.1.dst ≠ first.dst + UInt64.ofNat c.2 * dstPitch then none
    else
      some
        { src := first.src
          srcPitch := srcPitch.toNat
          dst := first.dst
          dstPitch := dstPitch.toNat
          widthBytes := width
          height := plan.length }
  | _ => none

/-- The device operations of a copy plan: one pitched copy, or one for each row. -/
def copyOperations (batched : Bool) (plan : List StateCopy) : Nat :=
  if batched ∧ (copyPlanAsStridedRun plan).isSome then 1 else plan.length

/-- `mirror[l * slots_n + slot]` for each of the first `layers`, set from what it was. -/
def updateLayers (slots slot : Nat) (change : Nat → UInt32 → UInt32) : Nat → List UInt32 → List UInt32
  | 0, mirror => mirror
  | layers + 1, mirror =>
    let mirror := updateLayers slots slot change layers mirror
    mirror.set (layers * slots + slot) (change layers (mirror.getD (layers * slots + slot) 0))

namespace CarryBufs

def slots (bufs : CarryBufs) : Nat := bufs.mtpSlots + 1

def carrySlot (bufs : CarryBufs) (slotIdx : Nat) : Nat := min slotIdx bufs.mtpSlots

def count (bufs : CarryBufs) (mirror : List UInt32) (layer slot : Nat) : UInt32 :=
  mirror.getD (layer * bufs.slots + slot) 0

def slotStates (bufs : CarryBufs) (seq : CarrySeq) : Except String SlotStates := do
  let states ← (List.range bufs.layers).mapM seq.layerState
  return { slot := bufs.carrySlot seq.slotIdx, h := states.map Prod.fst, conv := states.map Prod.snd }

def holds (bufs : CarryBufs) (mirror : List UInt32) (slot : Nat) : Bool :=
  (List.range bufs.layers).any fun layer => bufs.count mirror layer slot != 0

end CarryBufs

namespace CarryInner

def uploadMirror (answers : Answers) : Except String Answers := ask answers

/-- Each chunk of selected slots stages three tables and launches two kernels. -/
def foldOperations (selected : List SlotStates) : Nat := 5 * (selected.toChunks verifyWyTableSeqs).length

/-- `gdn_carry_flush_locked`. -/
def flushLocked (inner : CarryInner) (which : SlotStates → Bool) (answers : Answers) :
    Option (Except String Answers × CarryInner) :=
  let (selected, keep) := inner.pending.partition which
  let inner := { inner with pending := keep }
  inner.bufs.map fun b =>
    match asks (foldOperations selected) answers with
    | .error e => (.error e, inner)
    | .ok answers =>
      let mirror := selected.foldl
        (fun mirror r => updateLayers b.slots r.slot (fun _ _ => 0) b.layers mirror) inner.mirror
      (uploadMirror answers, { inner with mirror })

def flushPending (inner : CarryInner) (answers : Answers) : Option (Except String Answers × CarryInner) :=
  if inner.pending.isEmpty then some (.ok answers, inner) else inner.flushLocked (fun _ => true) answers

def bind (model : CarryModel) (inner : CarryInner) (answers : Answers) : Except String (Bool × Answers) × CarryInner :=
  if inner.probed then (.ok (inner.bufs.isSome, answers), inner)
  else
    let inner := { inner with probed := true }
    if ¬ model.carries then (.ok (false, answers), inner)
    else
      match asks 11 answers with
      | .error e => (.error e, inner)
      | .ok answers =>
        (.ok (true, answers),
          { inner with
            mirror := List.replicate (model.bufs.layers * model.bufs.slots) 0
            bufs := some model.bufs })

/-- The slots of short runs of equal `ks` that hold more rows than an eager kernel folds. -/
def eagerDeep (b : CarryBufs) (mirror : List UInt32) : List (List Nat) → List CarrySeq → Option (List Nat)
  | [], _ => some []
  | run :: runs, seqs =>
    if run.length < gdnCarryLazyMinSeqs then
      if seqs.length < run.length then none
      else
        let slots := (seqs.take run.length).map fun seq => b.carrySlot seq.slotIdx
        let deep := slots.filter fun slot =>
          (List.range b.layers).any fun layer => gdnCarryEagerMaxPending < (b.count mirror layer slot).toNat
        (eagerDeep b mirror runs (seqs.drop run.length)).map (deep ++ ·)
    else eagerDeep b mirror runs (seqs.drop run.length)

def declineCarry (inner : CarryInner) (answers : Answers) : Option (Except String Bool × CarryInner) :=
  if inner.pending.isEmpty then some (.ok false, inner)
  else (inner.flushLocked (fun _ => true) answers).map (Prod.map (Except.map fun _ => false) id)

/-- The slots too deep for an eager kernel are folded, and the engaged words cleared. -/
def acceptCarry (inner : CarryInner) (b : CarryBufs) (seqs : List CarrySeq) (ks : List Nat) (answers : Answers) :
    Option (Except String Bool × CarryInner) :=
  (eagerDeep b inner.mirror (ks.splitBy (· == ·)) seqs).bind fun deep =>
    if deep.isEmpty then some ((ask answers).map fun _ => true, inner)
    else
      (inner.flushLocked (fun r => deep.contains r.slot) answers).map
        (Prod.map (fun flushed => flushed >>= fun answers => (ask answers).map fun _ => true) id)

def begin (model : CarryModel) (inner : CarryInner) (requested : Bool) (seqs : List CarrySeq) (ks : List Nat)
    (answers : Answers) : Option (Except String Bool × CarryInner) :=
  let inner := { inner with last := none }
  if ¬ requested ∨ ¬ model.enabled then inner.declineCarry answers
  else
    match inner.bind model answers with
    | (.error e, inner) => some (.error e, inner)
    | (.ok (false, answers), inner) => inner.declineCarry answers
    | (.ok (true, answers), inner) => inner.bufs.bind fun b => inner.acceptCarry b seqs ks answers

/-- A layer whose word is not 1 folded the slot's rows or wrote them back.  The words cover `VERIFY_WY_TABLE_SEQS`
positions of each layer. -/
def endRows (b : CarryBufs) (words : Nat → UInt32) (inner : CarryInner) :
    List CarrySeq → Nat → Option (Except String (List SlotStates) × CarryInner)
  | [], _ => some (.ok [], inner)
  | seq :: seqs, position =>
    match b.slotStates seq with
    | .error e => some (.error e, inner)
    | .ok r =>
      if 0 < b.layers ∧ verifyWyTableSeqs ≤ position then none
      else
        let mirror := updateLayers b.slots r.slot
          (fun l rows => if words (l * verifyWyTableSeqs + position) ≠ 1 then 0 else rows) b.layers inner.mirror
        let others := inner.pending.filter fun p => p.slot ≠ r.slot
        let pending := if b.holds mirror r.slot then others ++ [r] else others
        (endRows b words { inner with mirror, pending } seqs (position + 1)).map (Prod.map (Except.map (r :: ·)) id)

/-- `gdn_carry_end`.  The words are read back from the device. -/
def endVerify (inner : CarryInner) (seqs : List CarrySeq) (ks : List Nat) (words : Nat → UInt32) (answers : Answers) :
    Option (Except String Unit × CarryInner) :=
  inner.bufs.bind fun b =>
    match ask answers with
    | .error e => some (.error e, inner)
    | .ok answers =>
      (inner.endRows b words seqs 0).map fun
        | (.error e, inner) => (.error e, inner)
        | (.ok rows, inner) =>
          match uploadMirror answers with
          | .error e => (.error e, inner)
          | .ok _ => (.ok (), { inner with last := some { seqs := rows, ks, engaged := fun i => words i ≠ 0 } })

end CarryInner

/-- One sequence of a verdict: its state, its accepted rows and its batch position. -/
abbrev VerdictRow := (SlotStates × UInt32) × Nat

namespace LastCarry

def rows (last : LastCarry) (acceptedRows : List UInt32) : List VerdictRow := (last.seqs.zip acceptedRows).zipIdx

def valid (last : LastCarry) (row : VerdictRow) : Bool :=
  1 ≤ row.1.2 && row.1.2.toNat ≤ last.ks.getD row.2 0 && row.1.2 ≤ 4

def engages (last : LastCarry) (position layer : Nat) : Bool := last.engaged (layer * verifyWyTableSeqs + position)

def countRows (last : LastCarry) (slots : Nat) (mirror : List UInt32) (row : VerdictRow) : List UInt32 :=
  updateLayers slots row.1.1.slot
    (fun l rows => if last.engages row.2 l then rows + row.1.2 else rows) row.1.1.h.length mirror

/-- A layer that declined restores a partial accept from the intermediates. -/
def restores (last : LastCarry) (row : VerdictRow) (copy : Nat → Nat → StateCopy) : List StateCopy :=
  (List.range row.1.1.h.length).filterMap fun l =>
    if last.engages row.2 l then none
    else if row.1.2.toNat < last.ks.getD row.2 0 then some (copy l (row.1.2.toNat - 1))
    else none

def hRestore (model : CarryModel) (r : SlotStates) (l t : Nat) : StateCopy where
  src := model.hIntermediate l r.slot t
  dst := r.h.getD l 0
  bytes := model.hStoredBytes

def convRestore (model : CarryModel) (b : CarryBufs) (r : SlotStates) (l t : Nat) : StateCopy where
  src := model.convIntermediate l r.slot t
  dst := r.conv.getD l 0
  bytes := b.convDim * b.dConv * 4

def hRestores (last : LastCarry) (model : CarryModel) (rows : List VerdictRow) : List StateCopy :=
  rows.flatMap fun row => last.restores row (hRestore model row.1.1)

def convRestores (last : LastCarry) (model : CarryModel) (b : CarryBufs) (rows : List VerdictRow) : List StateCopy :=
  rows.flatMap fun row => last.restores row (convRestore model b row.1.1)

/-- Each row is checked as it is reached; what is counted before a bad one stays counted. -/
def commitRows (last : LastCarry) (slots : Nat) : List UInt32 → List VerdictRow → Option (Except String Unit × List UInt32)
  | mirror, [] => some (.ok (), mirror)
  | mirror, row :: rows =>
    match last.ks[row.2]? with
    | none => none
    | some k =>
      let accepted := row.1.2
      if ¬ last.valid row then some (.error s!"gdn_carry_commit: {accepted} accepted rows of a {k}-row verify", mirror)
      else last.commitRows slots (last.countRows slots mirror row) rows

def commitOperations (last : LastCarry) (model : CarryModel) (b : CarryBufs) (rows : List VerdictRow) : Nat :=
  copyOperations model.batched (last.hRestores model rows) +
    copyOperations model.batched (last.convRestores model b rows) + 1

def matchesVerdict (last : LastCarry) (b : CarryBufs) (slots : List Nat) (acceptedRows : List UInt32) : Bool :=
  acceptedRows.length == last.seqs.length && slots.map b.carrySlot == last.seqs.map SlotStates.slot

end LastCarry

namespace CarryInner

/-- `gdn_carry_commit`. -/
def commit (model : CarryModel) (inner : CarryInner) (slots : List Nat) (acceptedRows : List UInt32)
    (answers : Answers) : Option (Except String Bool × CarryInner) :=
  let inner := { inner with committed := [] }
  match inner.last with
  | none => some (.ok false, inner)
  | some last =>
    let inner := { inner with last := none }
    if ¬ last.matchesVerdict model.bufs slots acceptedRows then
      let verified := last.seqs.map SlotStates.slot
      some (.error s!"gdn_carry_commit: verdict for slots {slots} after a carried verify of {verified}", inner)
    else
      inner.bufs.bind fun b =>
        (last.commitRows b.slots inner.mirror (last.rows acceptedRows)).map fun
          | (.error e, mirror) => (.error e, { inner with mirror })
          | (.ok (), mirror) =>
            let inner := { inner with mirror }
            match asks (last.commitOperations model b (last.rows acceptedRows)) answers with
            | .error e => (.error e, inner)
            | .ok _ =>
              (.ok true,
                { inner with
                  committed := slots
                  pending := (inner.pending.filter fun p => last.seqs.all fun r => r.slot ≠ p.slot) ++ last.seqs })

def takeCommitted (inner : CarryInner) (slot : Nat) : Bool × CarryInner :=
  match inner.committed.findIdx? (· == slot) with
  | some position => (true, { inner with committed := swapRemove inner.committed position })
  | none => (false, inner)

end CarryInner

end Metrale.Engine
