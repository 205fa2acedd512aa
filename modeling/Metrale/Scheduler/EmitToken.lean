import Metrale.Scheduler.Repetition

/-! # `emit_token` (`emit_step/token.rs`, `emit_step/tool_param.rs`, `emit_step/grammar_close.rs`)

One token of the speculative steps: it is recorded, streamed and counted.  The stages stand in the order of the source,
each a function of the sequence, so that what a stage leaves alone can be said stage by stage. -/

namespace Metrale.Scheduler

/-! ## Tool and parameter bodies -/

def maxToolBodyTokens : Nat := 1024

def tokLt : Token := 27

def tokParameter : Token := 15704

def tokEq : Token := 28

def tokGt : Token := 29

def tokLtSlash : Token := 510

/-- `advance_envelope_streak`: a token of a parameter's value leaves the streak. -/
def advanceEnvelopeStreak (insideParameterBody : Bool) (streak : Nat) : Nat × Bool :=
  if insideParameterBody then (streak, false)
  else (saturatingAdd streak 1, decide (maxToolBodyTokens < saturatingAdd streak 1))

/-- A token inside a parameter's value.  Only `</`, `parameter`, `>` in a row leave the value. -/
def ToolState.parameterToken (tool : ToolState) (tok : Token) : ToolState :=
  if tool.paramClosePending = 0 then
    if tok = tokLtSlash then { tool with paramClosePending := 1 }
    else { tool with paramBodyCharsEmitted := saturatingAdd tool.paramBodyCharsEmitted 1 }
  else if tool.paramClosePending = 1 then
    if tok = tokParameter then { tool with paramClosePending := 2 }
    else { tool with
      paramClosePending := 0
      paramBodyCharsEmitted := saturatingAdd tool.paramBodyCharsEmitted 2 }
  else if tok = tokGt then { tool with
    paramClosePending := 0
    insideParameterBody := false
    paramBodyCharsEmitted := 0
    toolBodyStreakTokens := 0 }
  else { tool with
    paramClosePending := 0
    paramBodyCharsEmitted := saturatingAdd tool.paramBodyCharsEmitted 3 }

/-- What follows the last `<`, `parameter`, `=` in a row. -/
def afterLastOpener : List Token → Option (List Token)
  | [] => none
  | token :: rest =>
    (afterLastOpener rest).or
      (if (token :: rest).take 3 = [tokLt, tokParameter, tokEq] then some (rest.drop 2) else none)

/-- The last eight tokens before `tok`, whether or not the caller has pushed it. -/
def lookbackWindow (outputTokens : List Token) (tok : Token) : List Token :=
  let before := if outputTokens.getLast? = some tok then outputTokens.dropLast else outputTokens
  before.drop (before.length - 8)

/-- Whether a `<parameter=KEY>` ends at this `>`. -/
def parameterOpens (outputTokens : List Token) (tok : Token) : Bool :=
  match afterLastOpener (lookbackWindow outputTokens tok) with
  | none => false
  | some body => !(body.contains tokLtSlash || body.contains tokGt)

variable {Device Grammar : Type*}

def ActiveSeq.toolBodyToken (a : ActiveSeq Device Grammar) (tok : Token) : ActiveSeq Device Grammar :=
  let streak := advanceEnvelopeStreak a.tool.insideParameterBody a.tool.toolBodyStreakTokens
  let counted : ActiveSeq Device Grammar := { a with
    tool := { a.tool with toolBodyStreakTokens := streak.1 }
    guardStop := if streak.2 then some .toolEnvelopeStuck else a.guardStop
    finished := a.finished || streak.2 }
  if a.tool.insideParameterBody then { counted with tool := counted.tool.parameterToken tok }
  else if tok = tokGt && parameterOpens a.outputTokens tok then
    { counted with tool := { counted.tool with insideParameterBody := true, paramBodyCharsEmitted := 0 } }
  else counted

def ActiveSeq.updateToolParamState (a : ActiveSeq Device Grammar) (tok : Token) : ActiveSeq Device Grammar :=
  if a.think.insideThinking then a
  else if a.request.toolCallStartToken = some tok then
    { a with tool := { a.tool with insideToolBody := true, toolBodyStreakTokens := 0 } }
  else if a.request.toolCallEndToken = some tok then
    { a with tool := { a.tool with
      insideToolBody := false
      toolBodyStreakTokens := 0
      insideParameterBody := false
      paramBodyCharsEmitted := 0 } }
  else if a.tool.insideToolBody then a.toolBodyToken tok
  else a

/-! ## The client's stream -/

/-- The event of a token, with the newest probabilities there are. -/
def ActiveSeq.tokenEvent (a : ActiveSeq Device Grammar) (tok : Token) : StreamEvent :=
  match a.logprobsData.getLast? with
  | some logprobs => .tokenWithLogprobs tok logprobs
  | none => .token tok

def ActiveSeq.pushOutput (a : ActiveSeq Device Grammar) (tok : Token) : ActiveSeq Device Grammar :=
  { a with outputTokens := a.outputTokens ++ [tok] }

/-- Offers an event to the client; a refusal leaves the sequence as it is. -/
def ActiveSeq.stream (a : ActiveSeq Device Grammar) (event : StreamEvent) (request : RequestAnswers) :
    ActiveSeq Device Grammar × Bool :=
  ({ a with sink := (a.sink.emit event request).1 }, (a.sink.emit event request).2)

def ActiveSeq.isCancelled (a : ActiveSeq Device Grammar) (request : RequestAnswers) : Bool :=
  a.cancelFlag.isSome && request.cancelled

def ActiveSeq.pushLogprobs (a : ActiveSeq Device Grammar) (logprobs : Option TokenLogprobs) :
    ActiveSeq Device Grammar :=
  { a with logprobsData := a.logprobsData ++ logprobs.toList }

/-! ## Closing the grammar -/

def maxGrammarCloseBytes : Nat := 32

/-- The tokens of the close, none where nothing is to be closed. -/
def ActiveSeq.closeTokens [GrammarState Grammar] (a : ActiveSeq Device Grammar) (budgetClose : Bool) : List Token :=
  if a.think.insideThinking || !budgetClose then []
  else
    match a.grammarState with
    | none => []
    | some grammar =>
      if GrammarState.isTerminated grammar || GrammarState.stopLegal grammar a.request.eosTokens then []
      else (GrammarState.completionTokenIds grammar maxGrammarCloseBytes).getD []

def ActiveSeq.pushClose (request : RequestAnswers) :
    List Token → ActiveSeq Device Grammar → ActiveSeq Device Grammar
  | [], a => a
  | tok :: rest, a =>
    let streamed := (a.pushOutput tok).stream (.token tok) request
    if streamed.2 then ActiveSeq.pushClose request rest streamed.1 else streamed.1

def ActiveSeq.emitGrammarClose [GrammarState Grammar] (a : ActiveSeq Device Grammar) (request : RequestAnswers)
    (budgetClose : Bool) : ActiveSeq Device Grammar :=
  ActiveSeq.pushClose request (a.closeTokens budgetClose) a

/-! ## The stages -/

/-- A `<think>` opens a block with the whole spontaneous budget. -/
def ActiveSeq.emitThinkStart (a : ActiveSeq Device Grammar) : ActiveSeq Device Grammar :=
  { a with think := { a.think with
    insideThinking := true
    postThinkEmitted := 0
    thinkEnded := false
    thinkSkipCount := 0
    thinkingBudget := some a.request.spontaneousThinkBudget } }

/-- A `</think>` outside thinking; the fiftieth in a row ends the turn. -/
def ActiveSeq.strayThinkEnd (a : ActiveSeq Device Grammar) : ActiveSeq Device Grammar :=
  let skipped := a.think.thinkSkipCount + 1
  { a with
    think := { a.think with thinkSkipCount := skipped }
    finished := a.finished || decide (50 ≤ skipped)
    guardStop := if 50 ≤ skipped then some .thinkSkipWatchdog else a.guardStop }

def ActiveSeq.resetSkipCount (a : ActiveSeq Device Grammar) : ActiveSeq Device Grammar :=
  { a with think := { a.think with thinkSkipCount := if a.think.thinkEnded then 0 else a.think.thinkSkipCount } }

def ActiveSeq.opensTool (a : ActiveSeq Device Grammar) (tok : Token) : Bool :=
  !a.think.insideThinking && a.request.toolCallStartToken == some tok

def ActiveSeq.closesTool (a : ActiveSeq Device Grammar) (tok : Token) : Bool :=
  !a.think.insideThinking && a.request.toolCallEndToken == some tok

/-- A `<tool_call>` satisfies `require_tool_call`. -/
def ActiveSeq.satisfyToolCall (a : ActiveSeq Device Grammar) (tok : Token) : ActiveSeq Device Grammar :=
  if a.tool.requireToolCall && a.opensTool tok then
    { a with tool := { a.tool with requireToolCall := false, toolCallOpened := true } }
  else a

def ActiveSeq.completeToolCall (a : ActiveSeq Device Grammar) (tok : Token) : ActiveSeq Device Grammar :=
  if a.closesTool tok then { a with tool := { a.tool with toolCallCompleted := true } } else a

def ActiveSeq.resetProse (a : ActiveSeq Device Grammar) (tok : Token) : ActiveSeq Device Grammar :=
  if a.opensTool tok then { a with content := { a.content with proseTokensSinceLastTool := 0 } } else a

/-- The matcher sees no token of thinking.  A refused token drops the grammar. -/
def ActiveSeq.advanceGrammarOrDrop [GrammarState Grammar] (a : ActiveSeq Device Grammar) (tok : Token) :
    ActiveSeq Device Grammar :=
  if a.think.insideThinking then a
  else { a with grammarState := a.grammarState.bind fun grammar =>
    if (GrammarState.acceptToken grammar tok).2 then some (GrammarState.acceptToken grammar tok).1 else none }

def ActiveSeq.countPostThink (a : ActiveSeq Device Grammar) : ActiveSeq Device Grammar :=
  if a.think.thinkEnded && !a.think.insideThinking then
    { a with think := { a.think with postThinkEmitted := a.think.postThinkEmitted + 1 } }
  else a

def ThinkState.exhausted (think : ThinkState) : Bool :=
  !think.forceEndThinking &&
    match think.thinkingBudget with
    | some budget => decide (budget ≤ think.thinkingTokens)
    | none => false

def ThinkState.armEnd (think : ThinkState) : ThinkState :=
  if think.exhausted then { think with forceEndThinking := true, sentenceDeferCount := 0 } else think

def ActiveSeq.emitThinking (a : ActiveSeq Device Grammar) (tok : Token) : ActiveSeq Device Grammar :=
  let counted := a.consumeGenerationBudget
  if a.request.thinkEndToken = some tok then
    { counted with think := { counted.think with
      insideThinking := false
      thinkForceClosed := counted.think.forceEndThinking
      forceEndThinking := false
      sentenceDeferCount := 0
      thinkEnded := true
      thinkJustEnded := true } }
  else { counted with
    think := { counted.think with thinkingTokens := counted.think.thinkingTokens + 1 }.armEnd }

def ActiveSeq.contentCapHit (a : ActiveSeq Device Grammar) (sched : SchedCtx) : Bool :=
  !sched.levers.disableWatchdogs && a.grammarState.isSome &&
    decide (sched.watchdog.maxPostThinkContentTokens < a.content.contentTokens)

def ActiveSeq.contentLoopDue (a : ActiveSeq Device Grammar) (sched : SchedCtx) : Bool :=
  !sched.levers.disableWatchdogs && sched.levers.loopWatchdog && !a.tool.insideToolBody &&
    decide (contentLoopMinTokens ≤ a.content.contentTokens) &&
    decide (a.content.contentTokens % contentLoopCheckStride = 0)

/-- The tail repeats itself, as it stands or with its numbers taken for one. -/
def ActiveSeq.contentLoops (a : ActiveSeq Device Grammar) (sched : SchedCtx) : Bool :=
  let params := sched.watchdog.contentLoopParams a.request.repetitionDetection
  detectContentTokenLoopWith a.outputTokens params ||
    match sched.masks.numeric with
    | some mask => detectContentTokenLoopNormalizedWith a.outputTokens mask params
    | none => false

def ActiveSeq.countContent (a : ActiveSeq Device Grammar) : ActiveSeq Device Grammar :=
  { a with content := { a.content with contentTokens := saturatingAdd a.content.contentTokens 1 } }

def ActiveSeq.clearThinkJustEnded (a : ActiveSeq Device Grammar) : ActiveSeq Device Grammar :=
  { a with think := { a.think with thinkJustEnded := false } }

def ActiveSeq.stopFor (a : ActiveSeq Device Grammar) (guard : GuardStop) : ActiveSeq Device Grammar :=
  { a with guardStop := some guard, finished := true }

def ActiveSeq.stopAtContentCap (a : ActiveSeq Device Grammar) (sched : SchedCtx) : ActiveSeq Device Grammar :=
  if a.contentCapHit sched then a.stopFor .postThinkContentCap else a

def ActiveSeq.proseCounted (a : ActiveSeq Device Grammar) (sched : SchedCtx) : Bool :=
  !sched.levers.disableWatchdogs && !a.tool.insideToolBody && a.request.toolRequest

def ActiveSeq.countProse (a : ActiveSeq Device Grammar) : ActiveSeq Device Grammar :=
  { a with content := { a.content with
    proseTokensSinceLastTool := saturatingAdd a.content.proseTokensSinceLastTool 1 } }

def ActiveSeq.proseExhausted (a : ActiveSeq Device Grammar) (sched : SchedCtx) : Bool :=
  decide (sched.watchdog.maxInterToolProse < a.content.proseTokensSinceLastTool)

def ActiveSeq.emitContentLoopStop (a : ActiveSeq Device Grammar) (sched : SchedCtx) : ActiveSeq Device Grammar :=
  if a.contentLoopDue sched && a.contentLoops sched then a.stopFor .contentLoopWatchdog else a

def ActiveSeq.emitProse (a : ActiveSeq Device Grammar) (sched : SchedCtx) : ActiveSeq Device Grammar :=
  if a.proseCounted sched then
    if a.countProse.proseExhausted sched then a.countProse.stopFor .interToolProseBudget else a.countProse
  else a

def ActiveSeq.emitContent (a : ActiveSeq Device Grammar) (sched : SchedCtx) : ActiveSeq Device Grammar :=
  (((a.consumeGenerationBudget.clearThinkJustEnded.countContent).stopAtContentCap sched).emitContentLoopStop
    sched).emitProse sched

/-- Once a call is complete, outside bodies and thinking, the grammar holds no stop back. -/
def ActiveSeq.eosEscape (a : ActiveSeq Device Grammar) (sched : SchedCtx) : Bool :=
  sched.levers.toolEosEscape && a.tool.toolCallCompleted && !a.tool.insideToolBody && !a.think.insideThinking

def ActiveSeq.thinkingSuppressesEos (a : ActiveSeq Device Grammar) (sched : SchedCtx) : Bool :=
  eosSuppressedByThinking a.think.insideThinking (hardCeilingHit a.remaining a.seq.seqLen sched.limits.maxSeqLen)

def ActiveSeq.emitSuppressesEos [GrammarState Grammar] (a : ActiveSeq Device Grammar) (sched : SchedCtx) : Bool :=
  (!a.eosEscape sched &&
      ((a.think.insideThinking && a.grammarState.isSome) ||
        grammarBlocksStop a.grammarState a.request.eosTokens)) ||
    a.tool.requireToolCall ||
    decide (a.outputTokens.length < a.request.minTokens) ||
    a.thinkingSuppressesEos sched

def ActiveSeq.emitPush [GrammarState Grammar] (a : ActiveSeq Device Grammar) (tok : Token)
    (logprobs : Option TokenLogprobs) : ActiveSeq Device Grammar :=
  (((((((a.resetSkipCount.satisfyToolCall tok).updateToolParamState tok).completeToolCall tok).resetProse
    tok).advanceGrammarOrDrop tok).pushLogprobs logprobs).pushOutput tok).countPostThink

def ActiveSeq.emitCount (a : ActiveSeq Device Grammar) (tok : Token) (sched : SchedCtx) : ActiveSeq Device Grammar :=
  if a.think.insideThinking then a.emitThinking tok else a.emitContent sched

def ActiveSeq.suppressStream (a : ActiveSeq Device Grammar) : Bool :=
  a.think.insideThinking && !a.request.enableThinking

def ActiveSeq.emitLengthStop [GrammarState Grammar] (a : ActiveSeq Device Grammar) (sched : SchedCtx)
    (request : RequestAnswers) : ActiveSeq Device Grammar :=
  if a.remaining == 0 || seqlenForceStop a.seq.seqLen sched.limits.maxSeqLen then
    { a.emitGrammarClose request sched.levers.grammarBudgetClose with finished := true }
  else a

def ActiveSeq.emitStream [GrammarState Grammar] (a : ActiveSeq Device Grammar) (tok : Token) (sched : SchedCtx)
    (request : RequestAnswers) : ActiveSeq Device Grammar :=
  if a.suppressStream then a.emitLengthStop sched request
  else
    let streamed := a.stream (a.tokenEvent tok) request
    if streamed.2 then streamed.1.emitLengthStop sched request else { streamed.1 with finished := true }

def ActiveSeq.emitToken [GrammarState Grammar] (a : ActiveSeq Device Grammar) (tok : Token)
    (logprobs : Option TokenLogprobs) (sched : SchedCtx) (request : RequestAnswers) : ActiveSeq Device Grammar :=
  if a.isCancelled request then { a with finished := true }
  else if sched.limits.imStartHardStop = some tok then { a.pushOutput tok with finished := true }
  else if sched.levers.toolResponseStop = true ∧ sched.limits.toolResponseHardStop = some tok then
    (a.pushOutput tok).stopFor .toolResponseHardStop
  else if a.think.insideThinking = false ∧ a.request.thinkStartToken = some tok then a.emitThinkStart
  else if a.think.insideThinking = false ∧ a.request.thinkEndToken = some tok then a.strayThinkEnd
  else
    let counted := (a.emitPush tok logprobs).emitCount tok sched
    if tok ∈ a.request.eosTokens then
      if counted.emitSuppressesEos sched then counted else { counted with finished := true }
    else counted.emitStream tok sched request

end Metrale.Scheduler
