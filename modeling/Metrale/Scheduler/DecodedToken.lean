import Metrale.Scheduler.EmitToken
import Metrale.Scheduler.Rollback

/-! # `process_decoded_token` (`decode_logits_step/per_token.rs`, `content_emit.rs`, `decode_logits_content.rs`)

One token of the plain decode step.  Unlike the speculative path it has the model at hand, so a content watchdog first
tries to roll the sequence back and ends the response only where that is declined. -/

namespace Metrale.Scheduler

/-- The tags of the run, as the caller passes them. -/
structure TagTokens where
  thinkEnd : Option Token
  thinkStart : Option Token
  codeFence : Option Token
  toolCallStart : Option Token
  toolCallEnd : Option Token
deriving DecidableEq

/-- What the device answers at each place of one token that asks for a snapshot. -/
structure DecodeAnswers where
  contentLoop : SnapshotAnswers
  interToolProse : SnapshotAnswers
  boundary : SnapshotAnswers
  fuzzy : SnapshotAnswers

def maxPostCompletionToolOpens : Nat := 8

def postThinkMinContent : Nat := 16

def toggleCodeFence (inFence : Bool) (tok : Token) (fence : Option Token) : Bool :=
  if fence = some tok then !inFence else inFence

variable {Device Grammar : Type*}

/-! ## Thinking -/

/-- The spontaneous budget, halved for each earlier fire of the thinking watchdog. -/
def ActiveSeq.decayedThinkBudget (a : ActiveSeq Device Grammar) : Nat :=
  max (a.request.spontaneousThinkBudget >>> min a.think.thinkWatchdogFires 4) 8

def ActiveSeq.decodeThinkStart (a : ActiveSeq Device Grammar) : ActiveSeq Device Grammar :=
  { a with think := { a.think with
    insideThinking := true
    thinkEnded := false
    thinkSkipCount := 0
    thinkingBudget := some a.decayedThinkBudget } }

def ThinkState.close (think : ThinkState) : ThinkState :=
  { think with
    insideThinking := false
    forceEndThinking := false
    sentenceDeferCount := 0
    consecutiveConfident := 0
    inCodeFence := false
    thinkEnded := true
    thinkJustEnded := true }

def ActiveSeq.thinkingLoops (a : ActiveSeq Device Grammar) (sched : SchedCtx) : Bool :=
  !sched.levers.disableWatchdogs && sched.watchdog.enableThinkLoopWatchdog && !a.think.forceEndThinking &&
    decide (thinkLoopMinTokens ≤ a.think.thinkingTokens) &&
    decide (a.think.thinkingTokens % thinkLoopCheckStride = 0) &&
    detectThinkingTokenLoopWith a.outputTokens a.request.repetitionDetection sched.watchdog

def ActiveSeq.decodeThinkLoop (a : ActiveSeq Device Grammar) (sched : SchedCtx) : ActiveSeq Device Grammar :=
  if a.thinkingLoops sched then
    { a with think := { a.think with
      forceEndThinking := true
      sentenceDeferCount := 0
      thinkWatchdogFires := saturatingAdd a.think.thinkWatchdogFires 1 } }
  else a

def ThinkState.countToken (think : ThinkState) (tok : Token) (codeFence : Option Token) : ThinkState :=
  { think with
    thinkingTokens := think.thinkingTokens + 1
    inCodeFence := toggleCodeFence think.inCodeFence tok codeFence }.armEnd

def ActiveSeq.decodeThinking (a : ActiveSeq Device Grammar) (tok : Token) (tags : TagTokens) (sched : SchedCtx) :
    ActiveSeq Device Grammar :=
  let counted := a.consumeGenerationBudget
  if tags.thinkEnd = some tok then { counted with think := counted.think.close }
  else { counted with think := counted.think.countToken tok tags.codeFence }.decodeThinkLoop sched

/-! ## Grammar and tools -/

def ActiveSeq.feedGrammar [GrammarState Grammar] (a : ActiveSeq Device Grammar) (tok : Token) :
    ActiveSeq Device Grammar :=
  { a with grammarState := a.grammarState.map fun grammar => (GrammarState.acceptToken grammar tok).1 }

def ActiveSeq.advanceGrammar [GrammarState Grammar] (a : ActiveSeq Device Grammar) (tok : Token) :
    ActiveSeq Device Grammar :=
  if a.think.insideThinking then a else a.feedGrammar tok

def ActiveSeq.atToolStart (a : ActiveSeq Device Grammar) (tok : Token) (tags : TagTokens) : Bool :=
  !a.think.insideThinking && tags.toolCallStart == some tok

def ActiveSeq.atToolEnd (a : ActiveSeq Device Grammar) (tok : Token) (tags : TagTokens) : Bool :=
  !a.think.insideThinking && tags.toolCallEnd == some tok

def ActiveSeq.decodeSatisfyToolCall (a : ActiveSeq Device Grammar) (tok : Token) (tags : TagTokens) :
    ActiveSeq Device Grammar :=
  if a.tool.requireToolCall && a.atToolStart tok tags then
    { a with tool := { a.tool with requireToolCall := false, toolCallOpened := true } }
  else a

/-- A `<tool_call>` ends the prose, and counts once a call is complete. -/
def ActiveSeq.decodeToolStart (a : ActiveSeq Device Grammar) (tok : Token) (tags : TagTokens) :
    ActiveSeq Device Grammar :=
  if a.atToolStart tok tags then
    { a with
      content := { a.content with proseTokensSinceLastTool := 0 }
      tool := { a.tool with
        postCompletionToolOpens :=
          if a.tool.toolCallCompleted then saturatingAdd a.tool.postCompletionToolOpens 1
          else a.tool.postCompletionToolOpens } }
  else a

def ActiveSeq.runsAway (a : ActiveSeq Device Grammar) (tok : Token) (tags : TagTokens) : Bool :=
  a.atToolStart tok tags && a.tool.toolCallCompleted &&
    decide (maxPostCompletionToolOpens ≤ a.tool.postCompletionToolOpens)

def ActiveSeq.stopRunaway [GrammarState Grammar] (a : ActiveSeq Device Grammar) (tok : Token) :
    ActiveSeq Device Grammar :=
  { (a.pushOutput tok).feedGrammar tok with
    tool := { a.tool with toolCallOpened := true }
    finished := true }

def ActiveSeq.dropToolDemand (a : ActiveSeq Device Grammar) : ActiveSeq Device Grammar :=
  if a.tool.requireToolCall && decide (512 < a.outputTokens.length) then
    { a with tool := { a.tool with requireToolCall := false } }
  else a

/-- Behind a closed call: the body and the grammar are moved on, and the model may think again. -/
def ActiveSeq.leaveToolCall [GrammarState Grammar] (a : ActiveSeq Device Grammar) (tok : Token) :
    ActiveSeq Device Grammar :=
  { a.feedGrammar tok with
    finished := a.finished || (a.grammarState.isNone && !a.request.toolsPresent)
    tool := { a.tool with insideToolBody := false }
    think := { a.think with thinkEnded := false } }

/-- A `</tool_call>` outside thinking. -/
def ActiveSeq.decodeToolEnd [GrammarState Grammar] (a : ActiveSeq Device Grammar) (tok : Token)
    (request : RequestAnswers) : ActiveSeq Device Grammar :=
  let pushed := a.pushOutput tok
  let completed := { pushed with tool := { pushed.tool with toolCallCompleted := true } }
  let streamed := completed.stream (completed.tokenEvent tok) request
  if streamed.2 then streamed.1.leaveToolCall tok else { streamed.1 with finished := true }

/-! ## Content -/

def ActiveSeq.rollbackOrStop [GrammarState Grammar] (a : ActiveSeq Device Grammar) (guard : GuardStop) (minKeep : Nat)
    (sched : SchedCtx) (snapshots : SnapshotAnswers) : ActiveSeq Device Grammar :=
  match (rollbackToBoundary a minKeep sched snapshots).2 with
  | .rolledBack _ => (rollbackToBoundary a minKeep sched snapshots).1
  | .fallback _ => a.stopFor guard

def ActiveSeq.decodeContentLoop [GrammarState Grammar] (a : ActiveSeq Device Grammar) (sched : SchedCtx)
    (snapshots : SnapshotAnswers) : ActiveSeq Device Grammar :=
  if a.contentLoopDue sched && a.contentLoops sched then
    a.rollbackOrStop .contentLoopWatchdog contentLoopPeriodMax sched snapshots
  else a

def ActiveSeq.decodeProse [GrammarState Grammar] (a : ActiveSeq Device Grammar) (sched : SchedCtx)
    (snapshots : SnapshotAnswers) : ActiveSeq Device Grammar :=
  if a.proseCounted sched then
    if a.countProse.proseExhausted sched then
      a.countProse.rollbackOrStop .interToolProseBudget contentLoopPeriodMax sched snapshots
    else a.countProse
  else a

def ActiveSeq.startContent (a : ActiveSeq Device Grammar) : ActiveSeq Device Grammar :=
  { a with content := { a.content with contentStarted := true } }

def ActiveSeq.handleContentToken [GrammarState Grammar] (a : ActiveSeq Device Grammar) (sched : SchedCtx)
    (answers : DecodeAnswers) : ActiveSeq Device Grammar :=
  ((((a.consumeGenerationBudget.startContent.countContent.stopAtContentCap sched).clearThinkJustEnded).decodeContentLoop
    sched answers.contentLoop).decodeProse sched answers.interToolProse)

/-! ## A kept token -/

def lastIndexOf (outputTokens : List Token) (tok : Option Token) : Option Nat :=
  match tok with
  | none => none
  | some tok => lastIndex (fun index => outputTokens[index]? == some tok) outputTokens.length

/-- The last `<tool_call>` of the output is not closed. -/
def ActiveSeq.toolCallOpen (a : ActiveSeq Device Grammar) : Bool :=
  match lastIndexOf a.outputTokens a.request.toolCallStartToken,
    lastIndexOf a.outputTokens a.request.toolCallEndToken with
  | some start, some stop => decide (stop < start)
  | some _, none => true
  | none, _ => false

def ActiveSeq.snapshotContent (a : ActiveSeq Device Grammar) (sched : SchedCtx) (snapshots : SnapshotAnswers) :
    ActiveSeq Device Grammar :=
  if a.think.insideThinking then a else snapshotBoundaryIfSsm a sched snapshots

def ActiveSeq.decodeStream (a : ActiveSeq Device Grammar) (tok : Token) (request : RequestAnswers) :
    ActiveSeq Device Grammar :=
  if a.suppressStream then a
  else
    let streamed := a.stream (a.tokenEvent tok) request
    { streamed.1 with finished := a.finished || !streamed.2 }

def ActiveSeq.decodeBudgetStop [GrammarState Grammar] (a : ActiveSeq Device Grammar) (sched : SchedCtx)
    (request : RequestAnswers) : ActiveSeq Device Grammar :=
  if a.remaining = 0 then { a.emitGrammarClose request sched.levers.grammarBudgetClose with finished := true } else a

def ActiveSeq.decodeCeilingStop (a : ActiveSeq Device Grammar) (sched : SchedCtx) : ActiveSeq Device Grammar :=
  if !a.finished && seqlenForceStop a.seq.seqLen sched.limits.maxSeqLen then { a with finished := true } else a

def ActiveSeq.grammarDone [GrammarState Grammar] (a : ActiveSeq Device Grammar) : Bool :=
  match a.grammarState with
  | none => false
  | some grammar => GrammarState.isTerminated grammar

def ActiveSeq.decodeGrammarStop [GrammarState Grammar] (a : ActiveSeq Device Grammar) : ActiveSeq Device Grammar :=
  if a.grammarDone then { a with finished := true } else a

def ActiveSeq.fuzzyDue (a : ActiveSeq Device Grammar) (sched : SchedCtx) : Bool :=
  sched.levers.loopWatchdog && !a.finished && !a.think.insideThinking && !a.toolCallOpen

def ActiveSeq.decodeFuzzy [GrammarState Grammar] (a : ActiveSeq Device Grammar) (sched : SchedCtx)
    (snapshots : SnapshotAnswers) : ActiveSeq Device Grammar :=
  if a.fuzzyDue sched then
    match detectFuzzyRepetition a.outputTokens sched.watchdog.fuzzyRepeatToleranceDiv with
    | none => a
    | some found => a.rollbackOrStop .fuzzyRepetition (found.1 * 3) sched snapshots
  else a

def ActiveSeq.emitContentToken [GrammarState Grammar] (a : ActiveSeq Device Grammar) (tok : Token) (sched : SchedCtx)
    (request : RequestAnswers) (answers : DecodeAnswers) : ActiveSeq Device Grammar :=
  let recorded := ((a.pushOutput tok).updateToolParamState tok).snapshotContent sched answers.boundary
  let stopped := (((recorded.decodeStream tok request).decodeBudgetStop sched request).decodeCeilingStop
    sched).decodeGrammarStop
  stopped.decodeFuzzy sched answers.fuzzy

/-! ## Stop tokens -/

def ActiveSeq.grammarSuppressesEos [GrammarState Grammar] (a : ActiveSeq Device Grammar) (sched : SchedCtx) : Bool :=
  !a.eosEscape sched && grammarBlocksStop a.grammarState a.request.eosTokens

def ActiveSeq.postThinkSuppressesEos (a : ActiveSeq Device Grammar) : Bool :=
  (a.tool.requireToolCall || a.request.toolRequest) && a.think.thinkEnded &&
    decide (a.outputTokens.length - a.think.thinkingTokens < postThinkMinContent)

def ActiveSeq.otherwiseSuppressesEos [GrammarState Grammar] (a : ActiveSeq Device Grammar) (sched : SchedCtx) : Bool :=
  a.grammarSuppressesEos sched || a.tool.requireToolCall || decide (a.outputTokens.length < a.request.minTokens) ||
    a.postThinkSuppressesEos

def ActiveSeq.decodeSuppressesEos [GrammarState Grammar] (a : ActiveSeq Device Grammar) (sched : SchedCtx) : Bool :=
  a.otherwiseSuppressesEos sched || a.thinkingSuppressesEos sched

/-- A held-back stop token is dropped; where thinking alone holds it back it may close the block. -/
def ActiveSeq.dropEos [GrammarState Grammar] (a : ActiveSeq Device Grammar) (sched : SchedCtx) :
    ActiveSeq Device Grammar :=
  if !a.otherwiseSuppressesEos sched && sched.watchdog.honorEosInsideThinking then
    { a with think := { a.think.close with thinkForceClosed := true } }
  else a

def ActiveSeq.decodeCount [GrammarState Grammar] (a : ActiveSeq Device Grammar) (tok : Token) (tags : TagTokens)
    (sched : SchedCtx) (answers : DecodeAnswers) : ActiveSeq Device Grammar :=
  let advanced := a.resetSkipCount.advanceGrammar tok
  let counted :=
    if advanced.think.insideThinking then advanced.decodeThinking tok tags sched
    else advanced.handleContentToken sched answers
  (counted.decodeSatisfyToolCall tok tags).decodeToolStart tok tags

def ActiveSeq.decodeKeep [GrammarState Grammar] (a : ActiveSeq Device Grammar) (tok : Token) (sched : SchedCtx)
    (request : RequestAnswers) (answers : DecodeAnswers) : ActiveSeq Device Grammar :=
  if tok ∈ a.request.eosTokens then
    if a.decodeSuppressesEos sched then a.dropEos sched
    else { (a.pushOutput tok).updateToolParamState tok with finished := true }
  else a.emitContentToken tok sched request answers

def ActiveSeq.processDecodedToken [GrammarState Grammar] (a : ActiveSeq Device Grammar) (tok : Token)
    (logprobs : Option TokenLogprobs) (now : Nat) (tags : TagTokens) (sched : SchedCtx) (request : RequestAnswers)
    (answers : DecodeAnswers) : ActiveSeq Device Grammar :=
  let stamped := { a with lastToken := tok, lastTokenTime := now }
  if sched.levers.toolResponseStop = true ∧ sched.limits.toolResponseHardStop = some tok then
    (stamped.pushOutput tok).stopFor .toolResponseHardStop
  else if a.think.insideThinking = false ∧ tags.thinkStart = some tok then stamped.decodeThinkStart
  else if a.think.insideThinking = false ∧ tags.thinkEnd = some tok then stamped.strayThinkEnd
  else
    let counted := stamped.decodeCount tok tags sched answers
    if counted.runsAway tok tags then counted.stopRunaway tok
    else
      let kept := counted.dropToolDemand.pushLogprobs logprobs
      if kept.atToolEnd tok tags then kept.decodeToolEnd tok request
      else kept.decodeKeep tok sched request answers

end Metrale.Scheduler
