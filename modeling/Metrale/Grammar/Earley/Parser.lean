import Metrale.Grammar.Fsm

/-! # The Earley parser (`earley/`)

One round of the parser reads a byte: it scans the latest states, and predicts and completes until its queue is
empty.  The rows of earlier positions are only read; the latest row grows during the round.

Every rule of an optimized grammar has a machine, so every item sits at a state of one (`rule_id` is never `-1`):
the fields that only the other kind of item reads are left out, and so are the branches for it. -/

namespace Metrale.Grammar

/-- `rule_start_pos` is `none` for `NO_PREV_INPUT_POS`. -/
structure ParserState where
  ruleId : Nat
  sequenceId : Nat
  elementId : Nat
  ruleStartPos : Option Nat
  repeatCount : Nat
deriving DecidableEq

/-- `ParserState::new` with the rule, sequence and start of another item. -/
def ParserState.atElement (state : ParserState) (elementId : Nat) : ParserState :=
  { state with elementId, repeatCount := 0 }

/-- `ParserState::with_repeat` at the item's own element. -/
def ParserState.counted (state : ParserState) (repeatCount : Nat) : ParserState := { state with repeatCount }

def unexpandedRuleStartSequenceId : Nat := 128000

def ParserState.isUnexpanded (state : ParserState) : Bool := state.sequenceId == unexpandedRuleStartSequenceId

abbrev CompletableEntry := Nat × ParserState

/-! ## Dead states (`prune.rs`) -/

def coAccessiblePass (fsm : CompactFsmWithStartEnd) (productive : List Bool) : List Bool :=
  (List.range fsm.backingNumStates).foldl (fun productive node =>
    if productive.getD node false then productive
    else if (fsm.edges node).any fun edge => productive.getD edge.target false then productive.set node true
    else productive) productive

def coAccessibleLoop (fsm : CompactFsmWithStartEnd) : Nat → List Bool → List Bool
  | 0, productive => productive
  | passes + 1, productive =>
    let marked := coAccessiblePass fsm productive
    if marked = productive then productive else coAccessibleLoop fsm passes marked

/-- Each pass but the last marks a state, so there are no more passes than states and one. -/
def coAccessibleNodes (fsm : CompactFsmWithStartEnd) : List Bool :=
  coAccessibleLoop fsm (fsm.backingNumStates + 1)
    ((List.range fsm.backingNumStates).map fsm.isEndState)

def GrammarData.isNodeProductive (grammar : GrammarData) (ruleId node : Nat) : Bool :=
  match grammar.perRuleFsms[ruleId]? with
  | none => true
  | some fsm => (coAccessibleNodes fsm).getD node true

def GrammarData.isStateDead (grammar : GrammarData) (state : ParserState) : Bool :=
  !grammar.isNodeProductive state.ruleId state.elementId

def GrammarData.prune (grammar : GrammarData) (states : List ParserState) : List ParserState :=
  states.filter fun state => !grammar.isStateDead state

/-! ## The queue of a round (`queue.rs`) -/

/-- What one round works on.  An item is enqueued once a round. -/
structure Round where
  latest : List CompletableEntry
  queue : List ParserState
  visited : List ParserState
  toBeAdded : List ParserState
  acceptStopToken : Bool

def Round.empty : Round := ⟨[], [], [], [], false⟩

def Round.enqueue (round : Round) (state : ParserState) : Round :=
  if state ∈ round.visited then round
  else { round with queue := round.queue ++ [state], visited := state :: round.visited }

def Round.markVisited (round : Round) (state : ParserState) : Bool × Round :=
  if state ∈ round.visited then (false, round) else (true, { round with visited := state :: round.visited })

def Round.pushInLatestRow (round : Round) (entry : CompletableEntry) : Round :=
  { round with latest := round.latest ++ [entry] }

def Round.addScanable (round : Round) (state : ParserState) : Round :=
  { round with toBeAdded := round.toBeAdded ++ [state] }

/-- `completable.row`: the earlier rows and the latest one. -/
def Round.row (round : Round) (earlier : List (List CompletableEntry)) (position : Nat) : List CompletableEntry :=
  if position < earlier.length then earlier.getD position [] else round.latest

namespace GrammarData

variable (grammar : GrammarData) (earlier : List (List CompletableEntry))

def edgesOf (state : ParserState) : List FsmEdge := (grammar.fsmOf state.ruleId).edges state.elementId

def isEnd (state : ParserState) : Bool := (grammar.fsmOf state.ruleId).isEndState state.elementId

def ruleStart (ruleId : Nat) (ruleStartPos : Option Nat) : ParserState :=
  ⟨ruleId, grammar.bodyExprId ruleId, (grammar.fsmOf ruleId).start, ruleStartPos, 0⟩

/-! ## Predict (`predict.rs`, `predict_fsm.rs`) -/

def addRightRecursionParents (round : Round) (srcRuleId srcPos refRuleId : Nat) : Round :=
  let parents := (round.row earlier srcPos).filterMap fun (first, parent) =>
    if first != srcRuleId then none
    else if (refRuleId, parent) ∈ round.latest then none else some (refRuleId, parent)
  parents.foldl Round.pushInLatestRow round

def targetIsTerminalEnd (ruleId target : Nat) : Bool :=
  ((grammar.fsmOf ruleId).edges target).isEmpty && (grammar.fsmOf ruleId).isEndState target

/-- The plain reference at the end of a rule that started earlier completes straight to the waiting items of that
rule. -/
def shortcut (curPos : Nat) (state : ParserState) (target : Nat) : Bool :=
  grammar.targetIsTerminalEnd state.ruleId target && state.ruleStartPos != some curPos

/-- The entries for what waits for the referenced rule.  A repetition waits at the source of its edge. -/
def recordParent (state : ParserState) (target refRuleId : Nat) (isRepeat : Bool) (round : Round) : Round :=
  if !isRepeat && grammar.shortcut earlier.length state target then
    match state.ruleStartPos with
    | none => round
    | some ruleStartPos => addRightRecursionParents earlier round state.ruleId ruleStartPos refRuleId
  else if isRepeat then round.pushInLatestRow (refRuleId, state)
  else round.pushInLatestRow (refRuleId, state.atElement target)

/-- Where the referenced rule starts: a shortcut from the root is a root again. -/
def refStart (curPos : Nat) (state : ParserState) (target : Nat) (isRepeat : Bool) : Option Nat :=
  if !isRepeat && grammar.shortcut curPos state target && state.ruleStartPos == none then none else some curPos

def predictRefEdge (state : ParserState) (target refRuleId : Nat) (isRepeat : Bool) (round : Round) : Round :=
  let recorded := grammar.recordParent earlier state target refRuleId isRepeat round
  let skipped :=
    if !isRepeat && grammar.ruleAllowsEmpty refRuleId then recorded.enqueue (state.atElement target) else recorded
  skipped.enqueue (grammar.ruleStart refRuleId (grammar.refStart earlier.length state target isRepeat))

/-- An edge of the item's state.  A repetition may be left from its lower bound on, and goes on up to its upper
one. -/
def expandEdge (state : ParserState) (round : Round) (edge : FsmEdge) : Round :=
  match edge.edgeType with
  | .epsilon => round.enqueue (state.atElement edge.target)
  | .ruleRef ruleId => grammar.predictRefEdge earlier state edge.target ruleId false round
  | .repeatRef auxIndex =>
    let info := grammar.repeatEdgeInfo auxIndex
    let left := if info.lower ≤ state.repeatCount then round.enqueue (state.atElement edge.target) else round
    if info.upper ≤ state.repeatCount then left
    else grammar.predictRefEdge earlier state edge.target info.ruleId true left
  | .charRange .. | .eos => round

def expandNextRuleRefOnFsm (state : ParserState) (round : Round) : Round :=
  (grammar.edgesOf state).foldl (grammar.expandEdge earlier state) round

def predict (state : ParserState) (round : Round) : Bool × Bool × Round :=
  ((grammar.fsmOf state.ruleId).isScanableState state.elementId, grammar.isEnd state,
    grammar.expandNextRuleRefOnFsm earlier state round)

/-! ## Complete (`complete.rs`) -/

def repeatEdgeFor (parent : ParserState) (refId : Nat) : Option (FsmEdge × RepeatEdgeRef) :=
  (grammar.edgesOf parent).findSome? fun edge =>
    match edge.edgeType with
    | .repeatRef auxIndex =>
      let info := grammar.repeatEdgeInfo auxIndex
      if info.ruleId = refId then some (edge, info) else none
    | _ => none

def completeFsmParent (parent : ParserState) (refId : Nat) (round : Round) : Round :=
  match grammar.repeatEdgeFor parent refId with
  | some (edge, info) =>
    let newCount := parent.repeatCount + 1
    let left := if info.lower ≤ newCount then round.enqueue (parent.atElement edge.target) else round
    if newCount < info.upper then left.enqueue (parent.counted newCount) else left
  | none => round.enqueue parent

def complete (state : ParserState) (round : Round) : Round :=
  match state.ruleStartPos with
  | none => { round with acceptStopToken := true }
  | some ruleStartPos =>
    ((round.row earlier ruleStartPos).filter fun entry => entry.1 == state.ruleId).foldl
      (fun round (refId, parent) => grammar.completeFsmParent parent refId round) round

/-! ## Scan (`scan.rs`) -/

def pureScanable (state : ParserState) : Bool :=
  let fsm := grammar.fsmOf state.ruleId
  !fsm.isNonTerminalState state.elementId && !fsm.isEndState state.elementId && fsm.isScanableState state.elementId

def advanceEdge (state : ParserState) (ch : UInt8) (round : Round) (edge : FsmEdge) : Round :=
  match edge.edgeType with
  | .charRange min max =>
    if ch.toNat < min ∨ max < ch.toNat then round
    else
      let next := { state with elementId := edge.target }
      if grammar.pureScanable next then
        match round.markVisited next with
        | (true, marked) => marked.addScanable next
        | (false, _) => round
      else round.enqueue next
  | _ => round

/-- `advance_fsm`. -/
def scan (ch : UInt8) (round : Round) (state : ParserState) : Round :=
  (grammar.edgesOf state).foldl (grammar.advanceEdge state ch) round

/-! ## Rounds -/

def process (state : ParserState) (round : Round) : Round :=
  let (scanable, completable, predicted) := grammar.predict earlier state round
  let completed := if completable then grammar.complete earlier state predicted else predicted
  if scanable then completed.addScanable state else completed

/-- The loop over the queue, for at most so many items. -/
def drain : Nat → Round → Round
  | 0, round => round
  | items + 1, round =>
    match round.queue with
    | [] => round
    | state :: queue => drain items (grammar.process earlier state { round with queue })

def numStates : Nat := (grammar.perRuleFsms.map CompactFsmWithStartEnd.backingNumStates).foldr max 0

def maxRepeat : Nat := (grammar.completeFsm.edgeAuxData.map Int.toNat).foldr max 0

/-- The number of items that a round at the position can meet: rule, state, start and count of each. -/
def itemBound (position : Nat) : Nat :=
  grammar.perRuleFsms.length * (grammar.numStates * ((position + 2) * (grammar.maxRepeat + 1)))

def drained (round : Round) : Round := grammar.drain earlier (grammar.itemBound earlier.length) round

end GrammarData

/-! ## The parser (`parser.rs`, `parser_api.rs`) -/

structure EarleyParser where
  isCompleted : List Bool
  completable : List (List CompletableEntry)
  scanableHistory : List (List ParserState)
  stopTokenIsAccepted : Bool
deriving DecidableEq

namespace EarleyParser

def empty : EarleyParser := ⟨[], [], [], false⟩

def completed (parser : EarleyParser) : Bool := parser.isCompleted.getLastD false

def latestScanableStates (parser : EarleyParser) : List ParserState := parser.scanableHistory.getLastD []

def numSteps (parser : EarleyParser) : Nat := parser.scanableHistory.length

def pushRound (grammar : GrammarData) (parser : EarleyParser) (round : Round) : EarleyParser :=
  { parser with
    isCompleted := parser.isCompleted ++ [round.acceptStopToken]
    completable := parser.completable ++ [round.latest]
    scanableHistory := parser.scanableHistory ++ [grammar.prune round.toBeAdded] }

def scanned (grammar : GrammarData) (parser : EarleyParser) (ch : UInt8) : Round :=
  parser.latestScanableStates.foldl (grammar.scan ch) .empty

/-- Whether a state accepts the byte.  A byte that none accepts leaves the parser as it is. -/
def advance (grammar : GrammarData) (parser : EarleyParser) (ch : UInt8) : Bool × EarleyParser :=
  let scanned := parser.scanned grammar ch
  if scanned.queue.isEmpty && scanned.toBeAdded.isEmpty then (false, parser)
  else (true, parser.pushRound grammar (grammar.drained parser.completable scanned))

/-- The first round, on the item itself or, where it is unexpanded, on the start of its rule. -/
def seeded (grammar : GrammarData) (state : ParserState) : Round :=
  Round.empty.enqueue (if state.isUnexpanded then grammar.ruleStart state.ruleId none else state)

def pushStateAndExpand (grammar : GrammarData) (parser : EarleyParser) (state : ParserState) : EarleyParser :=
  parser.pushRound grammar (grammar.drained parser.completable (seeded grammar state))

def rootInitialState (grammar : GrammarData) : ParserState :=
  ⟨grammar.rootRuleId, unexpandedRuleStartSequenceId, 0, none, 0⟩

def fromGrammar (grammar : GrammarData) : EarleyParser :=
  empty.pushStateAndExpand grammar (rootInitialState grammar)

/-- Some row stays. -/
def popLastStates (parser : EarleyParser) (count : Nat) : EarleyParser :=
  { isCompleted := parser.isCompleted.take (parser.isCompleted.length - count)
    completable := parser.completable.take (parser.completable.length - count)
    scanableHistory := parser.scanableHistory.take (parser.scanableHistory.length - count)
    stopTokenIsAccepted := false }

def pushOneStateToCheck (parser : EarleyParser) (state : ParserState) : EarleyParser :=
  { parser with
    isCompleted := parser.isCompleted ++ [parser.completed]
    completable := parser.completable ++ [[]]
    scanableHistory := parser.scanableHistory ++ [[state]] }

/-- The parser after the bytes, where it accepts each of them. -/
def advanceAll (grammar : GrammarData) (parser : EarleyParser) : List UInt8 → Option EarleyParser
  | [] => some parser
  | ch :: rest =>
    match parser.advance grammar ch with
    | (true, advanced) => advanced.advanceAll grammar rest
    | (false, _) => none

def acceptsBytes (grammar : GrammarData) (bytes : List UInt8) : Bool :=
  match (fromGrammar grammar).advanceAll grammar bytes with
  | some parser => parser.completed
  | none => false

end EarleyParser

end Metrale.Grammar
