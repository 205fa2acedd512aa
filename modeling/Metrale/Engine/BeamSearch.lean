import Metrale.Foundation.VecOps
import Mathlib.Data.List.Sort

/-! # Beam search for one request (`model-engine/src/model/nllb/beam.rs`)

Scores are elements of a total order with the operations that the search applies to them; the decoder, the encoder, the
log-sum-exp and the length penalty are parameters.  A batch row holds the tokens that the row's cache was fed.  A
score of minus infinity is `none`. -/

namespace Metrale.Engine

open Metrale.Foundation

abbrev Token := UInt32

structure BeamReq (Penalty : Type) where
  promptTokens : List Token
  srcLangId : Token
  tgtLangId : Token
  adapterSlot : Int32
  numBeams : Nat
  maxNew : Nat
  lengthPenalty : Penalty
  earlyStopping : Bool

/-- The model: the language ids, the cache, and the numeric parts.  `perLength` divides by a power of the length. -/
structure NllbModel (Score Penalty Source : Type) where
  decoderStartId : Token
  eosId : Token
  srcLangId : Token
  tgtLangId : Token
  cacheRows : Nat
  encode : Int32 → List Token → Source
  decode : Int32 → Source → List Token → List Score
  logsumexp : List Score → Score
  perLength : Penalty → Nat → Score → Score

variable {Score Penalty Source : Type} [LinearOrder Score] [Zero Score] [Add Score] [Sub Score]

/-! ## The pool of hypotheses -/

structure BeamHyps (Score Penalty : Type) where
  numBeams : Nat
  lp : Penalty
  beams : List (List Token × Score)

namespace BeamHyps

def new (numBeams : Nat) (lp : Penalty) : BeamHyps Score Penalty where
  numBeams
  lp
  beams := []

def worst (hyps : BeamHyps Score Penalty) : Option Score := (hyps.beams.map Prod.snd).min?

def worstIndex (beams : List (List Token × Score)) : Nat :=
  beams.findIdx fun beam => beams.all fun other => beam.2 ≤ other.2

def add (model : NllbModel Score Penalty Source) (hyps : BeamHyps Score Penalty) (tokens : List Token)
    (sumLogprob : Score) : BeamHyps Score Penalty :=
  let score := model.perLength hyps.lp tokens.length sumLogprob
  if hyps.beams.length < hyps.numBeams ∨ hyps.worst.any (· < score) then
    let beams := hyps.beams ++ [(tokens, score)]
    if hyps.numBeams < beams.length then { hyps with beams := swapRemove beams (worstIndex beams) }
    else { hyps with beams }
  else hyps

def isDone (model : NllbModel Score Penalty Source) (hyps : BeamHyps Score Penalty) (bestRunning : Score) (curLen : Nat)
    (earlyStopping : Bool) : Bool :=
  if hyps.beams.length < hyps.numBeams then false
  else if earlyStopping then true
  else hyps.worst.all fun worst => model.perLength hyps.lp curLen bestRunning ≤ worst

def best (hyps : BeamHyps Score Penalty) : Option (List Token) :=
  (hyps.beams.reverse.find? fun beam => hyps.beams.all fun other => other.2 ≤ beam.2).map Prod.fst

end BeamHyps

/-! ## Candidates -/

/-- `sort_by`, greatest first.  Equal scores keep their order. -/
def sortDescending {Entry : Type} (score : Entry → Score) (entries : List Entry) : List Entry :=
  entries.mergeSort fun x y => decide (score y ≤ score x)

def sink {Entry : Type} (score : Entry → Score) (entry : Entry) : List Entry → List Entry
  | [] => [entry]
  | last :: front => if score last < score entry then last :: sink score entry front else entry :: last :: front

def topKStep (k : Nat) (best : List (Score × Nat)) (entry : Score × Nat) : List (Score × Nat) :=
  if best.length < k then
    let best := best ++ [entry]
    if best.length = k then sortDescending Prod.fst best else best
  else
    match best.reverse with
    | [] => best
    | last :: front => if last.1 < entry.1 then (sink Prod.fst entry front).reverse else best

def topK (x : List Score) (k : Nat) : List (Score × Nat) :=
  sortDescending Prod.fst (x.zipIdx.foldl (topKStep k) [])

def topTokens (logits : List Score) (k : Nat) : List (Score × Token) :=
  (topK logits k).map fun entry => (entry.1, UInt32.ofNat entry.2)

omit [Zero Score] [Add Score] [Sub Score] in
theorem length_sink {Entry : Type} (score : Entry → Score) (entry : Entry) (front : List Entry) :
    (sink score entry front).length = front.length + 1 := by
  induction front with
  | nil => rfl
  | cons last front ih =>
    rw [sink]
    split
    · rw [List.length_cons, ih, List.length_cons]
    · rfl

omit [Zero Score] [Add Score] [Sub Score] in
theorem length_topKStep {k : Nat} {best : List (Score × Nat)} (entry : Score × Nat) (short : best.length ≤ k) :
    (topKStep k best entry).length ≤ k := by
  rw [topKStep]
  split
  · dsimp only
    split
    · next full =>
      rw [sortDescending, List.length_mergeSort]
      exact full.le
    · rw [List.length_append, List.length_singleton]
      omega
  · split
    · exact short
    · next last front ends =>
      split
      · have total := congrArg List.length ends
        rw [List.length_reverse, List.length_cons] at total
        rw [List.length_reverse, length_sink]
        omega
      · exact short

omit [Zero Score] [Add Score] [Sub Score] in
theorem length_topTokens (logits : List Score) (k : Nat) : (topTokens logits k).length ≤ k := by
  have bounded : ∀ (entries : List (Score × Nat)) (best : List (Score × Nat)), best.length ≤ k →
      (entries.foldl (topKStep k) best).length ≤ k := by
    intro entries
    induction entries with
    | nil => exact fun _ short => short
    | cons entry entries ih => exact fun best short => ih _ (length_topKStep entry short)
  rw [topTokens, List.length_map, topK, sortDescending, List.length_mergeSort]
  exact bounded _ [] (Nat.zero_le _)

/-- A candidate of the next step: its score, its parent beam and its token. -/
structure Candidate (Score : Type) where
  score : Score
  parent : Nat
  token : Token

structure Kept (Score : Type) where
  parent : Nat
  token : Token
  tokens : List Token
  score : Score

/-- The candidates in order until `b` run on; those that end are hypotheses. -/
def expand (model : NllbModel Score Penalty Source) (b : Nat) (tokensOf : Nat → List Token) :
    List (Candidate Score) → BeamHyps Score Penalty → List (Kept Score) → BeamHyps Score Penalty × List (Kept Score)
  | [], hyps, kept => (hyps, kept)
  | candidate :: candidates, hyps, kept =>
    if kept.length = b then (hyps, kept)
    else if candidate.token = model.eosId then
      expand model b tokensOf candidates (hyps.add model (tokensOf candidate.parent) candidate.score) kept
    else
      expand model b tokensOf candidates hyps (kept ++
        [{ parent := candidate.parent
           token := candidate.token
           tokens := tokensOf candidate.parent ++ [candidate.token]
           score := candidate.score }])

/-! ## Batch rows -/

/-- The cross-attention slabs: row `i` reads slab `i / group`. -/
structure CrossBatch (Source : Type) where
  slabs : List Source
  group : Nat

structure DecodeRows where
  cache : List (List Token)
  ids : List Token

namespace DecodeRows

def new (rows : Nat) : DecodeRows where
  cache := List.replicate rows []
  ids := List.replicate rows 0

/-- `beam_forward_step`.  Ids beyond the copied ones stay as they were. -/
def forward (device : DecodeRows) (cur : List Token) (pos : Nat) : DecodeRows :=
  let ids := cur ++ device.ids.drop cur.length
  { cache := List.zipWith (fun row id => row.take pos ++ [id]) device.cache ids, ids }

def gather (device : DecodeRows) (perm : List Nat) (used : Nat) : DecodeRows :=
  { device with cache := perm.map fun parent => (device.cache.getD parent []).take used }

/-- `beam_logits_host` -/
def logits (model : NllbModel Score Penalty Source) (slot : Int32) (xb : CrossBatch Source) (device : DecodeRows) :
    List (List Score) :=
  device.cache.zipIdx.map fun row =>
    match xb.slabs[row.2 / xb.group]? with
    | some source => model.decode slot source row.1
    | none => []

end DecodeRows

/-! ## The loop -/

structure Beam (Score : Type) where
  tokens : List Token
  score : Option Score
  logits : List Score

structure BeamSearch (Score Penalty : Type) where
  beams : List (Beam Score)
  hyps : BeamHyps Score Penalty
  device : DecodeRows

def startScore (bi : Nat) : Option Score := if bi = 0 then some 0 else none

def finish (model : NllbModel Score Penalty Source) (hyps : BeamHyps Score Penalty)
    (beams : List (List Token × Option Score)) : Option (List Token) :=
  let hyps := beams.foldl
    (fun hyps beam => match beam.2 with
      | some score => hyps.add model beam.1 score
      | none => hyps) hyps
  hyps.best.map fun best => (best ++ [model.eosId]).tail

namespace NllbModel

def numBeams (req : BeamReq Penalty) : Nat := max req.numBeams 1

def maxNew (model : NllbModel Score Penalty Source) (req : BeamReq Penalty) : Nat := min (max req.maxNew 2) model.cacheRows

def target (model : NllbModel Score Penalty Source) (req : BeamReq Penalty) : Token :=
  if req.tgtLangId ≠ 0 then req.tgtLangId else model.tgtLangId

def source (model : NllbModel Score Penalty Source) (slot : Int32) (req : BeamReq Penalty) : Source :=
  let srcId := if req.srcLangId ≠ 0 then req.srcLangId else model.srcLangId
  model.encode slot ([srcId] ++ req.promptTokens ++ [model.eosId])

def candidates (model : NllbModel Score Penalty Source) (b : Nat) (beams : List (Beam Score)) : List (Candidate Score) :=
  sortDescending Candidate.score (beams.zipIdx.flatMap fun (beam, bi) =>
    match beam.score with
    | none => []
    | some score =>
      let lse := model.logsumexp beam.logits
      (topTokens beam.logits (2 * b)).map fun top => { score := score + (top.1 - lse), parent := bi, token := top.2 })

def beamStart (model : NllbModel Score Penalty Source) (req : BeamReq Penalty) (xb : CrossBatch Source) :
    BeamSearch Score Penalty :=
  let b := numBeams req
  let device := (DecodeRows.new b).forward (List.replicate b model.decoderStartId) 0
  let device := device.forward (List.replicate b (model.target req)) 1
  let init := device.logits model req.adapterSlot xb
  { beams := (List.range b).map fun bi =>
      { tokens := [model.decoderStartId, model.target req], score := startScore bi, logits := init.getD bi [] }
    hyps := .new b req.lengthPenalty
    device }

/-- The kept candidates become the beams, on rows that their parents' rows are copied to. -/
def beamAdvance (model : NllbModel Score Penalty Source) (req : BeamReq Penalty) (xb : CrossBatch Source)
    (search : BeamSearch Score Penalty) (curLen : Nat) (hyps : BeamHyps Score Penalty) (kept : List (Kept Score)) :
    BeamSearch Score Penalty :=
  let perm := kept.map Kept.parent ++ List.replicate (numBeams req - kept.length) 0
  let device := (search.device.gather perm curLen).forward (kept.map Kept.token) curLen
  let lh := device.logits model req.adapterSlot xb
  { beams := kept.zipIdx.map fun (k, i) => { tokens := k.tokens, score := some k.score, logits := lh.getD i [] }
    hyps
    device }

def beamStep (model : NllbModel Score Penalty Source) (req : BeamReq Penalty) (xb : CrossBatch Source)
    (search : BeamSearch Score Penalty) : BeamSearch Score Penalty × Bool :=
  let b := numBeams req
  let curLen := (search.beams.head?.map fun beam => beam.tokens.length).getD 0
  let tokensOf := fun parent => (search.beams[parent]?.map Beam.tokens).getD []
  match expand model b tokensOf (model.candidates b search.beams) search.hyps [] with
  | (hyps, []) => ({ search with hyps }, false)
  | (hyps, first :: rest) =>
    (model.beamAdvance req xb search curLen hyps (first :: rest),
      !hyps.isDone model first.score curLen req.earlyStopping)

/-- As many turns, unless one ends the loop. -/
def beamTurns (model : NllbModel Score Penalty Source) (req : BeamReq Penalty) (xb : CrossBatch Source) :
    Nat → BeamSearch Score Penalty → BeamSearch Score Penalty
  | 0, search => search
  | turns + 1, search =>
    match model.beamStep req xb search with
    | (search, true) => beamTurns model req xb turns search
    | (search, false) => search

def beamLoop (model : NllbModel Score Penalty Source) (req : BeamReq Penalty) (xb : CrossBatch Source) :
    Option (List Token) :=
  let search := model.beamTurns req xb (model.maxNew req - 1) (model.beamStart req xb)
  finish model search.hyps (search.beams.map fun beam => (beam.tokens, beam.score))

def generateBeamOne (model : NllbModel Score Penalty Source) (req : BeamReq Penalty) : Option (List Token) :=
  model.beamLoop req { slabs := [model.source req.adapterSlot req], group := max (numBeams req) 1 }

end NllbModel

end Metrale.Engine
