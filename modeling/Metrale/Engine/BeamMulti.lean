import Metrale.Engine.BeamLone

/-! # Beam search for several requests as one batch (`model-engine/src/model/nllb/beam_multi.rs`)

The requests share the batch's rows, one gather and one length.  The candidates come from the host top-k. -/

namespace Metrale.Engine

variable {Score Penalty Source : Type}

structure MBeam (Score : Type) where
  tokens : List Token
  score : Option Score
  lse : Score
  top : List (Score × Token)

structure ReqState (Score Penalty : Type) where
  b : Nat
  rowOff : Nat
  forcedBos : Token
  maxNew : Nat
  earlyStopping : Bool
  beams : List (MBeam Score)
  hyps : BeamHyps Score Penalty
  active : Bool

structure MultiSearch (Score Penalty : Type) where
  states : List (ReqState Score Penalty)
  device : DecodeRows

/-- The rows from `off` on, one after the other. -/
def writeRows {Value : Type} : Nat → List Value → List Value → List Value
  | _, [], rows => rows
  | off, value :: values, rows => writeRows (off + 1) values (rows.set off value)

section Rows

variable {Value : Type} {off row : Nat} {values rows : List Value}

theorem length_writeRows : (writeRows off values rows).length = rows.length := by
  induction values generalizing off rows with
  | nil => rfl
  | cons value values ih => rw [writeRows, ih, List.length_set]

theorem writeRows_outside (outside : row < off ∨ off + values.length ≤ row) :
    (writeRows off values rows)[row]? = rows[row]? := by
  induction values generalizing off rows with
  | nil => rfl
  | cons value values ih =>
    rw [List.length_cons] at outside
    rw [writeRows, ih (by omega), List.getElem?_set_ne (by omega)]

theorem writeRows_inside {i : Nat} {value : Value} (found : values[i]? = some value)
    (room : off + values.length ≤ rows.length) : (writeRows off values rows)[off + i]? = some value := by
  induction values generalizing off rows i with
  | nil => cases found
  | cons first values ih =>
    rw [List.length_cons] at room
    rw [writeRows]
    cases i with
    | zero =>
      cases found
      rw [writeRows_outside (.inl (by omega)), Nat.add_zero, List.getElem?_set_self (by omega)]
    | succ i =>
      have shift : off + (i + 1) = off + 1 + i := by omega
      rw [shift]
      exact ih found (by rw [List.length_set]; omega)

end Rows

variable [LinearOrder Score] [Zero Score] [Add Score] [Sub Score]

namespace ReqState

def candidates (st : ReqState Score Penalty) : List (Candidate Score) :=
  sortDescending Candidate.score (st.beams.zipIdx.flatMap fun (beam, bi) =>
    match beam.score with
    | none => []
    | some score => (beam.top.take (2 * st.b)).map fun top =>
        { score := score + (top.1 - beam.lse), parent := bi, token := top.2 })

def freeze (step : Nat) (st : ReqState Score Penalty) : ReqState Score Penalty :=
  if st.active ∧ st.maxNew ≤ step then { st with active := false } else st

/-- The prune of one request: what it keeps is staged, and its rows get their parents and tokens. -/
def stage (model : NllbModel Score Penalty Source) (st : ReqState Score Penalty) (perm : List Nat) (cur : List Token) :
    (ReqState Score Penalty × Option (List (Kept Score))) × List Nat × List Token :=
  if st.active then
    let tokensOf := fun parent => (st.beams[parent]?.map MBeam.tokens).getD []
    match expand model st.b tokensOf st.candidates st.hyps [] with
    | (hyps, []) => (({ st with hyps, active := false }, none), perm, cur)
    | (hyps, first :: rest) =>
      (({ st with hyps }, some (first :: rest)),
        writeRows st.rowOff ((first :: rest).map fun k => st.rowOff + k.parent) perm,
        writeRows st.rowOff ((first :: rest).map Kept.token) cur)
  else ((st, none), perm, cur)

def stageAll (model : NllbModel Score Penalty Source) : List (ReqState Score Penalty) → List Nat → List Token →
    List (ReqState Score Penalty × Option (List (Kept Score))) × List Nat × List Token
  | [], perm, cur => ([], perm, cur)
  | st :: states, perm, cur =>
    let staged := st.stage model perm cur
    let later := stageAll model states staged.2.1 staged.2.2
    (staged.1 :: later.1, later.2)

def settle (model : NllbModel Score Penalty Source) (curLen : Nat) (lh : List (Score × List (Score × Token)))
    (staged : ReqState Score Penalty × Option (List (Kept Score))) : ReqState Score Penalty :=
  match staged with
  | (st, none) => st
  | (st, some kept) =>
    { st with
      beams := kept.zipIdx.map fun (k, i) =>
        { tokens := k.tokens
          score := some k.score
          lse := (lh.getD (st.rowOff + i) (0, [])).1
          top := (lh.getD (st.rowOff + i) (0, [])).2 }
      active := st.active && !(kept.head?.any fun first => st.hyps.isDone model first.score curLen st.earlyStopping) }

end ReqState

namespace NllbModel

/-- `beam_cands` on the host. -/
def beamCands (model : NllbModel Score Penalty Source) (slot : Int32) (xb : CrossBatch Source) (device : DecodeRows)
    (k : Nat) : List (Score × List (Score × Token)) :=
  (device.logits model slot xb).map fun row => (model.logsumexp row, topTokens row k)

def reqState (model : NllbModel Score Penalty Source) (rowOff : Nat) (req : BeamReq Penalty) : ReqState Score Penalty where
  b := numBeams req
  rowOff
  forcedBos := model.target req
  maxNew := model.maxNew req
  earlyStopping := req.earlyStopping
  beams := []
  hyps := .new (numBeams req) req.lengthPenalty
  active := true

/-- The states before the loop, each from its first row on. -/
def reqStates (model : NllbModel Score Penalty Source) : Nat → List (BeamReq Penalty) → List (ReqState Score Penalty)
  | _, [] => []
  | rowOff, req :: reqs => model.reqState rowOff req :: reqStates model (rowOff + numBeams req) reqs

def seedRows : List (ReqState Score Penalty) → List Token → List Token
  | [], seeds => seeds
  | st :: states, seeds => seedRows states (writeRows st.rowOff (List.replicate st.b st.forcedBos) seeds)

def startBeams (model : NllbModel Score Penalty Source) (init : List (Score × List (Score × Token)))
    (st : ReqState Score Penalty) : ReqState Score Penalty :=
  { st with beams := (List.range st.b).map fun bi =>
      { tokens := [model.decoderStartId, st.forcedBos]
        score := startScore bi
        lse := (init.getD (st.rowOff + bi) (0, [])).1
        top := (init.getD (st.rowOff + bi) (0, [])).2 } }

def multiStart (model : NllbModel Score Penalty Source) (slot : Int32) (xb : CrossBatch Source) (rows k : Nat)
    (states : List (ReqState Score Penalty)) : MultiSearch Score Penalty :=
  let device := (DecodeRows.new rows).forward (List.replicate rows model.decoderStartId) 0
  let device := device.forward (seedRows states (List.replicate rows model.eosId)) 1
  let init := model.beamCands slot xb device k
  { states := states.map (model.startBeams init), device }

def multiStep (model : NllbModel Score Penalty Source) (slot : Int32) (xb : CrossBatch Source) (rows k step curLen : Nat)
    (multi : MultiSearch Score Penalty) : MultiSearch Score Penalty × Bool :=
  let staged := ReqState.stageAll model (multi.states.map (ReqState.freeze step)) (List.range rows)
    (List.replicate rows model.eosId)
  if staged.1.all fun entry => entry.2.isNone then ({ multi with states := staged.1.map Prod.fst }, false)
  else
    let device := (multi.device.gather staged.2.1 curLen).forward staged.2.2 curLen
    let lh := model.beamCands slot xb device k
    ({ states := staged.1.map (ReqState.settle model curLen lh), device }, true)

def multiTurns (model : NllbModel Score Penalty Source) (slot : Int32) (xb : CrossBatch Source) (rows k : Nat) :
    Nat → Nat → Nat → MultiSearch Score Penalty → MultiSearch Score Penalty
  | 0, _, _, multi => multi
  | turns + 1, step, curLen, multi =>
    match model.multiStep slot xb rows k step curLen multi with
    | (multi, true) => multiTurns model slot xb rows k turns (step + 1) (curLen + 1) multi
    | (multi, false) => multi

/-- `beam_multi_loop` on the states, the rows and the cross-attention slabs that `beam_batched_multi` sets up. -/
def beamMultiLoop (model : NllbModel Score Penalty Source) (slot : Int32) (group : Nat) (reqs : List (BeamReq Penalty)) :
    Option (List (List Token)) :=
  let states := model.reqStates 0 reqs
  let rows := (reqs.map numBeams).foldr (· + ·) 0
  let maxNew := reqs.foldl (fun most req => max most (model.maxNew req)) 2
  let xb := { slabs := reqs.map (model.source slot), group }
  let k := 2 * ((reqs.map numBeams).max?.getD 1)
  let multi := model.multiTurns slot xb rows k (maxNew - 1) 1 2 (model.multiStart slot xb rows k states)
  multi.states.mapM fun st => finish model st.hyps (st.beams.map fun beam => (beam.tokens, beam.score))

def beamBatchedMulti (model : NllbModel Score Penalty Source) (reqs : List (BeamReq Penalty)) :
    Option (List (List Token)) :=
  match reqs with
  | first :: _ :: _ =>
    if ∃ req ∈ reqs, req.adapterSlot ≠ first.adapterSlot then reqs.mapM model.generateBeamOne
    else if ∃ req ∈ reqs, numBeams req ≠ numBeams first then reqs.mapM model.generateBeamOne
    else model.beamMultiLoop first.adapterSlot (numBeams first) reqs
  | _ => reqs.mapM model.generateBeamOne

end NllbModel

end Metrale.Engine
