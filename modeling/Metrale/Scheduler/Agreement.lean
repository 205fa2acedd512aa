import Metrale.Scheduler.Notes
import Metrale.Scheduler.Stages

/-! # The two token paths

`emit_token` and `process_decoded_token` are written apart and take their stages in another order.  Each content stage
is a change of fields of its own, so that the order is no matter; the module says under which circumstances no stage is
one that the other path lacks, and that the two sequences then differ in their notes only. -/

namespace Metrale.Scheduler

variable {Device Grammar : Type*}

/-! ## The stages as changes of fields -/

namespace ActiveSeq

variable (a : ActiveSeq Device Grammar) (tok : Token) (sched : SchedCtx)

theorem consumeGenerationBudget_eq : a.consumeGenerationBudget =
    { a with remaining := a.remaining - 1, finished := a.finished || decide (a.remaining = 0) } := by
  unfold consumeGenerationBudget
  by_cases spent : a.remaining = 0
  · rw [if_pos spent]
    simp only [spent, Nat.zero_sub, decide_true, Bool.or_true]
  · rw [if_neg spent]
    simp [spent]

theorem stopIf_false (guard : GuardStop) : a.stopIf false guard = a := by
  simp [stopIf]

theorem stopFor_eq (guard : GuardStop) : a.stopFor guard = a.stopIf true guard := by
  simp [stopIf, stopFor]

theorem stopAtContentCap_eq : a.stopAtContentCap sched = a.stopIf (a.contentCapHit sched) .postThinkContentCap := by
  unfold stopAtContentCap
  cases a.contentCapHit sched with
  | false => simp [stopIf_false]
  | true => simp [stopFor_eq]

def proseFires : Bool := a.proseCounted sched && a.countProse.proseExhausted sched

/-- What a token outside thinking changes, where no watchdog for loops fires. -/
def contentForm : ActiveSeq Device Grammar :=
  { a with
    remaining := a.remaining - 1
    think := { a.think with thinkJustEnded := false }
    content := { a.content with
      contentTokens := saturatingAdd a.content.contentTokens 1
      proseTokensSinceLastTool :=
        if a.proseCounted sched then saturatingAdd a.content.proseTokensSinceLastTool 1
        else a.content.proseTokensSinceLastTool }
    guardStop :=
      if a.proseFires sched then some .interToolProseBudget
      else if a.countContent.contentCapHit sched then some .postThinkContentCap
      else a.guardStop
    finished := a.finished || decide (a.remaining = 0) || a.countContent.contentCapHit sched || a.proseFires sched }

theorem emitProse_eq : a.emitProse sched =
    stopIf { a with content := { a.content with
      proseTokensSinceLastTool :=
        if a.proseCounted sched then saturatingAdd a.content.proseTokensSinceLastTool 1
        else a.content.proseTokensSinceLastTool } } (a.proseFires sched) .interToolProseBudget := by
  unfold emitProse proseFires
  cases counted : a.proseCounted sched with
  | false => simp [stopIf_false]
  | true =>
    cases exhausted : a.countProse.proseExhausted sched with
    | false => simp [stopIf_false, countProse]
    | true => simp [stopFor_eq, countProse, stopIf]

theorem emitContentLoopStop_eq (quiet : (a.contentLoopDue sched && a.contentLoops sched) = false) :
    a.emitContentLoopStop sched = a := by
  unfold emitContentLoopStop
  rw [quiet]
  rfl

theorem emitContent_eq
    (quiet : (a.countContent.contentLoopDue sched && a.countContent.contentLoops sched) = false) :
    a.emitContent sched = a.contentForm sched := by
  unfold emitContent
  rw [consumeGenerationBudget_eq, stopAtContentCap_eq, emitContentLoopStop_eq, emitProse_eq]
  · rfl
  · exact quiet

variable [GrammarState Grammar] (snapshots : SnapshotAnswers)

theorem decodeContentLoop_eq (quiet : (a.contentLoopDue sched && a.contentLoops sched) = false) :
    a.decodeContentLoop sched snapshots = a := by
  unfold decodeContentLoop
  rw [quiet]
  rfl

def rollbackAnswer (minKeep : Nat) : RollbackOutcome := (rollbackToBoundary a minKeep sched snapshots).2

theorem rollbackAnswer_congr {a b : ActiveSeq Device Grammar} (minKeep : Nat) (cancelFlag : b.cancelFlag = a.cancelFlag)
    (rollbackCount : b.rollbackCount = a.rollbackCount) (outputTokens : b.outputTokens = a.outputTokens)
    (ring : b.ssmRollbackRing = a.ssmRollbackRing) :
    b.rollbackAnswer sched snapshots minKeep = a.rollbackAnswer sched snapshots minKeep := by
  have target (mask : List Bool) (model : ModelFacts) :
      rollbackTarget b minKeep mask model = rollbackTarget a minKeep mask model := by
    unfold rollbackTarget
    rw [outputTokens, ring]
  unfold rollbackAnswer rollbackToBoundary
  simp only [cancelFlag, rollbackCount, outputTokens, target]
  repeat' split
  all_goals rfl

theorem rollbackOrStop_declined (guard : GuardStop) (minKeep : Nat)
    (declined : ∃ reason, a.rollbackAnswer sched snapshots minKeep = .fallback reason) :
    a.rollbackOrStop guard minKeep sched snapshots = a.stopFor guard := by
  obtain ⟨reason, declined⟩ := declined
  unfold rollbackAnswer at declined
  unfold rollbackOrStop
  rw [declined]

theorem decodeProse_eq (declined : a.proseFires sched = true →
      ∃ reason, a.rollbackAnswer sched snapshots contentLoopPeriodMax = .fallback reason) :
    a.decodeProse sched snapshots = a.emitProse sched := by
  unfold decodeProse emitProse
  by_cases counted : a.proseCounted sched = true
  · by_cases exhausted : a.countProse.proseExhausted sched = true
    · have fires : a.proseFires sched = true := by rw [proseFires, counted, exhausted]; rfl
      simp only [if_pos counted, if_pos exhausted]
      obtain ⟨reason, declined⟩ := declined fires
      rw [← rollbackAnswer_congr (a := a) (b := a.countProse) sched snapshots _ rfl rfl rfl rfl] at declined
      exact rollbackOrStop_declined _ sched snapshots _ _ ⟨reason, declined⟩
    · simp only [if_pos counted, if_neg exhausted]
  · simp only [if_neg counted]

theorem handleContentToken_eq (answers : DecodeAnswers)
    (quiet : (a.countContent.contentLoopDue sched && a.countContent.contentLoops sched) = false)
    (declined : a.proseFires sched = true →
      ∃ reason, a.rollbackAnswer sched answers.interToolProse contentLoopPeriodMax = .fallback reason) :
    a.handleContentToken sched answers = (a.contentForm sched).startContent := by
  unfold handleContentToken
  rw [consumeGenerationBudget_eq, stopAtContentCap_eq, decodeContentLoop_eq, decodeProse_eq, emitProse_eq]
  · rfl
  · intro fires
    obtain ⟨reason, declined⟩ := declined fires
    refine ⟨reason, ?_⟩
    rw [← declined]
    exact rollbackAnswer_congr sched _ _ rfl rfl rfl rfl
  · exact quiet

end ActiveSeq

/-! ## A token outside thinking -/

section Content

variable {a b : ActiveSeq Device Grammar} {tok : Token} {sched : SchedCtx}

theorem contentForm_body (sched : SchedCtx) (body : a.tool.insideToolBody = true) : a.contentForm sched =
    ActiveSeq.stopIf { a with
      remaining := a.remaining - 1
      think := { a.think with thinkJustEnded := false }
      content := { a.content with contentTokens := saturatingAdd a.content.contentTokens 1 }
      finished := a.finished || decide (a.remaining = 0) } (a.countContent.contentCapHit sched)
      .postThinkContentCap := by
  have uncounted : a.proseCounted sched = false := by simp [ActiveSeq.proseCounted, body]
  have silent : a.proseFires sched = false := by rw [ActiveSeq.proseFires, uncounted]; rfl
  unfold ActiveSeq.contentForm ActiveSeq.stopIf
  simp [uncounted, silent]

theorem updateToolParamState_inside (inside : a.think.insideThinking = true) : a.updateToolParamState tok = a := by
  unfold ActiveSeq.updateToolParamState
  rw [if_pos inside]

theorem updateToolParamState_start (outside : a.think.insideThinking = false)
    (start : a.request.toolCallStartToken = some tok) : a.updateToolParamState tok =
      { a with tool := { a.tool with insideToolBody := true, toolBodyStreakTokens := 0 } } := by
  unfold ActiveSeq.updateToolParamState
  rw [outside, if_neg Bool.false_ne_true, if_pos start]

theorem updateToolParamState_body (outside : a.think.insideThinking = false)
    (start : a.request.toolCallStartToken ≠ some tok) (stop : a.request.toolCallEndToken ≠ some tok)
    (body : a.tool.insideToolBody = true) : a.updateToolParamState tok = a.toolBodyToken tok := by
  unfold ActiveSeq.updateToolParamState
  rw [outside, if_neg Bool.false_ne_true, if_neg start, if_neg stop, if_pos body]

theorem updateToolParamState_prose (start : a.request.toolCallStartToken ≠ some tok)
    (stop : a.request.toolCallEndToken ≠ some tok) (prose : a.tool.insideToolBody = false) :
    a.updateToolParamState tok = a := by
  unfold ActiveSeq.updateToolParamState
  simp only [if_neg start, if_neg stop, prose, Bool.false_eq_true, if_false, ite_self]

theorem opensTool_eq (start : a.request.toolCallStartToken ≠ some tok) : a.opensTool tok = false := by
  simp [ActiveSeq.opensTool, start]

theorem satisfyToolCall_eq (start : a.request.toolCallStartToken ≠ some tok) : a.satisfyToolCall tok = a := by
  unfold ActiveSeq.satisfyToolCall
  rw [opensTool_eq start, Bool.and_false, if_neg Bool.false_ne_true]

/-- A demand for a call, met by a `<tool_call>`. -/
def ToolState.satisfied (tool : ToolState) : ToolState :=
  { tool with requireToolCall := false, toolCallOpened := tool.toolCallOpened || tool.requireToolCall }

theorem ToolState.satisfied_eq (tool : ToolState) : tool.satisfied =
    if tool.requireToolCall then { tool with requireToolCall := false, toolCallOpened := true } else tool := by
  cases tool with
  | mk requireToolCall =>
    cases requireToolCall <;> simp [satisfied]

theorem satisfyToolCall_start (opens : a.opensTool tok = true) :
    a.satisfyToolCall tok = { a with tool := a.tool.satisfied } := by
  unfold ActiveSeq.satisfyToolCall
  rw [opens, Bool.and_true, ToolState.satisfied_eq]
  split <;> rfl

theorem decodeSatisfyToolCall_start {tags : TagTokens} (opens : a.atToolStart tok tags = true) :
    a.decodeSatisfyToolCall tok tags = { a with tool := a.tool.satisfied } := by
  unfold ActiveSeq.decodeSatisfyToolCall
  rw [opens, Bool.and_true, ToolState.satisfied_eq]
  split <;> rfl

theorem resetProse_eq (start : a.request.toolCallStartToken ≠ some tok) : a.resetProse tok = a := by
  unfold ActiveSeq.resetProse
  rw [opensTool_eq start, if_neg Bool.false_ne_true]

theorem completeToolCall_eq (stop : a.request.toolCallEndToken ≠ some tok) : a.completeToolCall tok = a := by
  simp [ActiveSeq.completeToolCall, ActiveSeq.closesTool, stop]

/-- Whether the caller has pushed the token makes no difference where it does not repeat the last one. -/
theorem parameterOpens_push (outputTokens : List Token) (fresh : outputTokens.getLast? ≠ some tok) :
    parameterOpens (outputTokens ++ [tok]) tok = parameterOpens outputTokens tok := by
  unfold parameterOpens lookbackWindow
  rw [List.getLast?_concat, if_pos rfl, if_neg fresh, List.dropLast_concat]

theorem bodyStep_push {tool : ToolState} (outputTokens : List Token)
    (fresh : tool.insideParameterBody = false → tok = tokGt → outputTokens.getLast? ≠ some tok) :
    tool.bodyStep tok (parameterOpens (outputTokens ++ [tok]) tok) =
      tool.bodyStep tok (parameterOpens outputTokens tok) := by
  unfold ToolState.bodyStep
  cases inside : tool.insideParameterBody with
  | true => rfl
  | false =>
    by_cases closes : tok = tokGt
    · rw [parameterOpens_push outputTokens (fresh inside closes)]
    · simp [closes]

theorem parameterToken_inside (tool : ToolState) (tok : Token) :
    (tool.parameterToken tok).insideToolBody = tool.insideToolBody := by
  unfold ToolState.parameterToken
  split_ifs <;> rfl

theorem bodyStep_inside (tool : ToolState) (tok : Token) (opens : Bool) :
    (tool.bodyStep tok opens).1.insideToolBody = tool.insideToolBody := by
  simp only [ToolState.bodyStep]
  split_ifs
  · exact parameterToken_inside _ tok
  · rfl
  · rfl

variable [GrammarState Grammar]

theorem advanceGrammarOrDrop_accepted (outside : a.think.insideThinking = false)
    (accepted : ∀ grammar, a.grammarState = some grammar → (GrammarState.acceptToken grammar tok).2 = true) :
    a.advanceGrammarOrDrop tok = a.feedGrammar tok := by
  unfold ActiveSeq.advanceGrammarOrDrop ActiveSeq.feedGrammar
  rw [outside, if_neg Bool.false_ne_true]
  cases armed : a.grammarState with
  | none => rfl
  | some grammar => simp [accepted grammar armed]

def ActiveSeq.kept (a : ActiveSeq Device Grammar) (tok : Token) (logprobs : Option TokenLogprobs) (tags : TagTokens)
    (sched : SchedCtx) (answers : DecodeAnswers) : ActiveSeq Device Grammar :=
  (a.decodeCount tok tags sched answers).dropToolDemand.pushLogprobs logprobs

def ActiveSeq.recorded (a : ActiveSeq Device Grammar) (tok : Token) (logprobs : Option TokenLogprobs)
    (tags : TagTokens) (sched : SchedCtx) (answers : DecodeAnswers) : ActiveSeq Device Grammar :=
  ((a.kept tok logprobs tags sched answers).pushOutput tok).updateToolParamState tok

structure TagsOf (tags : TagTokens) (request : RequestParams) : Prop where
  thinkEnd : tags.thinkEnd = request.thinkEndToken
  thinkStart : tags.thinkStart = request.thinkStartToken
  toolCallStart : tags.toolCallStart = request.toolCallStartToken
  toolCallEnd : tags.toolCallEnd = request.toolCallEndToken

/-- What a token outside thinking must not meet, for the two paths to count it alike. -/
structure ContentCourse (a : ActiveSeq Device Grammar) (tok : Token) (sched : SchedCtx) (answers : DecodeAnswers) :
    Prop where
  /-- The matcher takes the token. -/
  accepted : ∀ grammar, a.grammarState = some grammar → (GrammarState.acceptToken grammar tok).2 = true
  /-- No tool call is closed. -/
  opensOnly : a.request.toolCallEndToken ≠ some tok
  /-- The watchdog for loops fires neither before the token is recorded nor after. -/
  noLoop : (a.countContent.contentLoopDue sched && a.contentLoops sched) = false
  noLoopBehind : (a.countContent.contentLoopDue sched && (a.pushOutput tok).contentLoops sched) = false
  /-- The prose budget ends no token that opens a call, and rolls nothing back. -/
  noProse : a.proseFires sched = true → a.request.toolCallStartToken ≠ some tok ∧
    ∃ reason, a.rollbackAnswer sched answers.interToolProse contentLoopPeriodMax = .fallback reason
  /-- The content cap and a stuck envelope do not meet. -/
  oneGuard : a.tool.insideToolBody = true → a.countContent.contentCapHit sched = true →
    (advanceEnvelopeStreak a.tool.insideParameterBody a.tool.toolBodyStreakTokens).2 = false
  /-- No two `>` stand in a row in a tool call's body. -/
  fresh : a.tool.insideToolBody = true → a.tool.insideParameterBody = false → tok = tokGt →
    a.outputTokens.getLast? ≠ some tok
  /-- No demand for a call is dropped. -/
  demanded : a.tool.requireToolCall = true → 512 < a.outputTokens.length → a.request.toolCallStartToken = some tok

variable {tags : TagTokens} {logprobs : Option TokenLogprobs} {answers : DecodeAnswers}

theorem feedGrammar_cap (a : ActiveSeq Device Grammar) (tok : Token) :
    (a.feedGrammar tok).countContent.contentCapHit sched = a.countContent.contentCapHit sched := by
  simp only [ActiveSeq.contentCapHit, ActiveSeq.feedGrammar, ActiveSeq.countContent, Option.isSome_map]
  rfl

omit [GrammarState Grammar] in
theorem countPostThink_same : Same a a.countPostThink := by
  unfold ActiveSeq.countPostThink
  split
  · rfl
  · exact .refl a

theorem emitCount_same (sched : SchedCtx) (logprobs : Option TokenLogprobs) (outside : a.think.insideThinking = false)
    (accepted : ∀ grammar, a.grammarState = some grammar → (GrammarState.acceptToken grammar tok).2 = true)
    (quiet : (a.countContent.contentLoopDue sched && (a.pushOutput tok).contentLoops sched) = false) :
    Same (((((a.advanceGrammarOrDrop tok).pushLogprobs logprobs).pushOutput tok).countPostThink).emitCount tok sched)
      ((((a.feedGrammar tok).pushLogprobs logprobs).pushOutput tok).contentForm sched) := by
  rw [advanceGrammarOrDrop_accepted outside accepted]
  have counted : Same (((a.feedGrammar tok).pushLogprobs logprobs).pushOutput tok |>.emitCount tok sched)
      (((a.feedGrammar tok).pushLogprobs logprobs).pushOutput tok |>.countPostThink.emitCount tok sched) :=
    emitCount_blind tok sched countPostThink_same
  have content : (((a.feedGrammar tok).pushLogprobs logprobs).pushOutput tok).emitCount tok sched =
      (((a.feedGrammar tok).pushLogprobs logprobs).pushOutput tok).contentForm sched := by
    unfold ActiveSeq.emitCount
    rw [if_neg (by simpa [ActiveSeq.feedGrammar, ActiveSeq.pushLogprobs, ActiveSeq.pushOutput] using outside)]
    exact ActiveSeq.emitContent_eq _ sched quiet
  rw [content] at counted
  exact counted.symm

theorem decodeCount_eq (outside : a.think.insideThinking = false) (course : ContentCourse a tok sched answers) :
    a.decodeCount tok tags sched answers =
      ((((a.resetSkipCount.feedGrammar tok).contentForm sched).startContent).decodeSatisfyToolCall tok
        tags).decodeToolStart tok tags := by
  have stays : ¬a.resetSkipCount.think.insideThinking = true := by
    simp [ActiveSeq.resetSkipCount, outside]
  have still : ¬(a.resetSkipCount.feedGrammar tok).think.insideThinking = true := stays
  unfold ActiveSeq.decodeCount ActiveSeq.advanceGrammar
  simp only [if_neg stays, if_neg still]
  rw [ActiveSeq.handleContentToken_eq]
  · exact course.noLoop
  · intro fires
    obtain ⟨-, reason, declined⟩ := course.noProse fires
    refine ⟨reason, ?_⟩
    rw [← declined]
    exact ActiveSeq.rollbackAnswer_congr sched _ _ rfl rfl rfl rfl

omit [GrammarState Grammar] in
theorem dropToolDemand_eq (kept : a.tool.requireToolCall = true → a.outputTokens.length ≤ 512) :
    a.dropToolDemand = a := by
  unfold ActiveSeq.dropToolDemand
  cases demanded : a.tool.requireToolCall with
  | false => rfl
  | true => simp [kept demanded]

theorem kept_plain (tagged : TagsOf tags a.request) (outside : a.think.insideThinking = false)
    (course : ContentCourse a tok sched answers) (start : a.request.toolCallStartToken ≠ some tok) :
    a.kept tok logprobs tags sched answers =
      (((a.resetSkipCount.feedGrammar tok).contentForm sched).startContent).pushLogprobs logprobs := by
  have opensNone (b : ActiveSeq Device Grammar) : b.atToolStart tok tags = false := by
    simp [ActiveSeq.atToolStart, tagged.toolCallStart, start]
  have demand (required : a.tool.requireToolCall = true) : a.outputTokens.length ≤ 512 := by
    by_contra long
    exact start (course.demanded required (Nat.lt_of_not_le long))
  unfold ActiveSeq.kept
  rw [decodeCount_eq outside course]
  unfold ActiveSeq.decodeSatisfyToolCall ActiveSeq.decodeToolStart
  simp only [opensNone, Bool.and_false, Bool.false_eq_true, if_false]
  rw [dropToolDemand_eq]
  exact demand

theorem prose_same (tagged : TagsOf tags a.request) (outside : a.think.insideThinking = false)
    (course : ContentCourse a tok sched answers) (start : a.request.toolCallStartToken ≠ some tok)
    (prose : a.tool.insideToolBody = false) :
    Same ((a.emitPush tok logprobs).emitCount tok sched) (a.recorded tok logprobs tags sched answers) := by
  have emitted := emitCount_same (a := a.resetSkipCount) sched logprobs outside course.accepted course.noLoopBehind
  have untagged : (((a.resetSkipCount.satisfyToolCall tok).updateToolParamState tok).completeToolCall tok).resetProse
      tok = a.resetSkipCount := by
    rw [satisfyToolCall_eq, updateToolParamState_prose, completeToolCall_eq, resetProse_eq]
    · exact start
    · exact course.opensOnly
    · exact start
    · exact course.opensOnly
    · exact prose
    · exact start
  have recorded := updateToolParamState_prose (a := ((((a.resetSkipCount.feedGrammar tok).contentForm
    sched).startContent).pushLogprobs logprobs).pushOutput tok) start course.opensOnly prose
  unfold ActiveSeq.emitPush ActiveSeq.recorded
  rw [untagged, kept_plain tagged outside course start, recorded]
  exact emitted.trans rfl

theorem body_same (tagged : TagsOf tags a.request) (outside : a.think.insideThinking = false)
    (course : ContentCourse a tok sched answers) (start : a.request.toolCallStartToken ≠ some tok)
    (body : a.tool.insideToolBody = true) :
    Same ((a.emitPush tok logprobs).emitCount tok sched) (a.recorded tok logprobs tags sched answers) := by
  have recorded := updateToolParamState_body (a := ((((a.resetSkipCount.feedGrammar tok).contentForm
    sched).startContent).pushLogprobs logprobs).pushOutput tok) outside start course.opensOnly body
  have pushed : a.tool.bodyStep tok (parameterOpens (a.outputTokens ++ [tok]) tok) =
      a.tool.bodyStep tok (parameterOpens a.outputTokens tok) := bodyStep_push _ (course.fresh body)
  have counted := contentForm_body (a := a.resetSkipCount.feedGrammar tok) sched body
  have capped : (a.resetSkipCount.feedGrammar tok).countContent.contentCapHit sched =
    a.countContent.contentCapHit sched := feedGrammar_cap a.resetSkipCount tok
  have stuckAlone := course.oneGuard body
  -- The envelope moves on in the same way before and behind the other stages.
  generalize stepped : a.tool.bodyStep tok (parameterOpens a.outputTokens tok) = step at pushed
  have inside : step.1.insideToolBody = true := by rw [← stepped, bodyStep_inside, body]
  have envelope : step.2 = (advanceEnvelopeStreak a.tool.insideParameterBody a.tool.toolBodyStreakTokens).2 := by
    rw [← stepped]
    rfl
  have moved : a.resetSkipCount.toolBodyToken tok =
      ActiveSeq.stopIf { a.resetSkipCount with tool := step.1 } step.2 .toolEnvelopeStuck := by
    rw [toolBodyToken_eq, ← stepped]
    rfl
  have untagged : (((a.resetSkipCount.satisfyToolCall tok).updateToolParamState tok).completeToolCall tok).resetProse
      tok = ActiveSeq.stopIf { a.resetSkipCount with tool := step.1 } step.2 .toolEnvelopeStuck := by
    rw [satisfyToolCall_eq (a := a.resetSkipCount) start, updateToolParamState_body (a := a.resetSkipCount) outside
      start course.opensOnly body, moved, completeToolCall_eq, resetProse_eq]
    · exact start
    · exact course.opensOnly
  have emitted := emitCount_same (a := ActiveSeq.stopIf { a.resetSkipCount with tool := step.1 } step.2
    .toolEnvelopeStuck) sched logprobs outside course.accepted
    (by simp [ActiveSeq.contentLoopDue, ActiveSeq.countContent, ActiveSeq.stopIf, inside])
  rw [contentForm_body sched inside] at emitted
  unfold ActiveSeq.emitPush ActiveSeq.recorded
  rw [untagged, kept_plain tagged outside course start, recorded, toolBodyToken_eq]
  have behind : ((((a.resetSkipCount.feedGrammar tok).contentForm sched).startContent).pushLogprobs logprobs
      |>.pushOutput tok).tool.bodyStep tok (parameterOpens ((((a.resetSkipCount.feedGrammar tok).contentForm
        sched).startContent).pushLogprobs logprobs |>.pushOutput tok).outputTokens tok) = step := pushed
  refine emitted.trans ?_
  rw [behind, counted]
  cases stuck : step.2 with
  | false =>
    rw [ActiveSeq.stopIf_false, ActiveSeq.stopIf_false]
    rfl
  | true =>
    have uncapped : a.countContent.contentCapHit sched = false := by
      cases cap : a.countContent.contentCapHit sched with
      | false => rfl
      | true => exact stuck.symm.trans (envelope.trans (stuckAlone cap))
    have before : (((ActiveSeq.stopIf { a.resetSkipCount with tool := step.1 } true .toolEnvelopeStuck).feedGrammar
        tok).pushLogprobs logprobs |>.pushOutput tok).countContent.contentCapHit sched = false := capped.trans uncapped
    rw [before, capped, uncapped, ActiveSeq.stopIf_false, ActiveSeq.stopIf_false]
    simp only [ActiveSeq.stopIf, ActiveSeq.feedGrammar, ActiveSeq.pushLogprobs, ActiveSeq.pushOutput,
      ActiveSeq.startContent, Bool.or_true, Bool.true_or]
    rfl

theorem start_same (tagged : TagsOf tags a.request) (outside : a.think.insideThinking = false)
    (course : ContentCourse a tok sched answers) (start : a.request.toolCallStartToken = some tok) :
    Same ((a.emitPush tok logprobs).emitCount tok sched) (a.recorded tok logprobs tags sched answers) := by
  have opens (b : ActiveSeq Device Grammar) (same : b.request = a.request)
      (still : b.think.insideThinking = false) : b.opensTool tok = true ∧ b.atToolStart tok tags = true := by
    simp [ActiveSeq.opensTool, ActiveSeq.atToolStart, same, still, start, tagged.toolCallStart]
  have silent : a.proseFires sched = false := by
    cases fires : a.proseFires sched with
    | false => rfl
    | true => exact absurd start (course.noProse fires).1
  have opened : (((a.resetSkipCount.satisfyToolCall tok).updateToolParamState tok).completeToolCall tok).resetProse
      tok = { a.resetSkipCount with
        tool := { a.tool.satisfied with insideToolBody := true, toolBodyStreakTokens := 0 }
        content := { a.content with proseTokensSinceLastTool := 0 } } := by
    rw [satisfyToolCall_start (opens a.resetSkipCount rfl outside).1, updateToolParamState_start, completeToolCall_eq]
    · unfold ActiveSeq.resetProse
      rw [(opens _ _ _).1, if_pos rfl]
      · rfl
      · rfl
      · exact outside
    · exact course.opensOnly
    · exact outside
    · exact start
  have emitted := emitCount_same (a := { a.resetSkipCount with
    tool := { a.tool.satisfied with insideToolBody := true, toolBodyStreakTokens := 0 }
    content := { a.content with proseTokensSinceLastTool := 0 } }) sched logprobs
    outside course.accepted (by simp [ActiveSeq.contentLoopDue, ActiveSeq.countContent])
  rw [contentForm_body sched rfl] at emitted
  have quiet : (a.resetSkipCount.feedGrammar tok).proseFires sched = false := silent
  unfold ActiveSeq.emitPush ActiveSeq.recorded ActiveSeq.kept
  rw [opened, decodeCount_eq outside course, decodeSatisfyToolCall_start]
  · unfold ActiveSeq.decodeToolStart
    rw [if_pos, dropToolDemand_eq, updateToolParamState_start]
    · refine emitted.trans ?_
      simp only [ActiveSeq.contentForm, quiet, Bool.or_false, Bool.false_eq_true, if_false]
      rfl
    · exact outside
    · exact start
    · exact fun demanded => absurd demanded Bool.false_ne_true
    · exact (opens _ rfl outside).2
  · exact (opens _ rfl outside).2

theorem content_same (tagged : TagsOf tags a.request) (outside : a.think.insideThinking = false)
    (course : ContentCourse a tok sched answers) :
    Same ((a.emitPush tok logprobs).emitCount tok sched) (a.recorded tok logprobs tags sched answers) := by
  by_cases start : a.request.toolCallStartToken = some tok
  · exact start_same tagged outside course start
  · cases body : a.tool.insideToolBody with
    | true => exact body_same tagged outside course start body
    | false => exact prose_same tagged outside course start body

end Content

/-! ## A token inside thinking -/

section Thinking

variable {a b : ActiveSeq Device Grammar} {tok : Token} {sched : SchedCtx} {tags : TagTokens}
  {logprobs : Option TokenLogprobs} {answers : DecodeAnswers}

def ActiveSeq.thoughtOn (a : ActiveSeq Device Grammar) (tok : Token) (tags : TagTokens) : ActiveSeq Device Grammar :=
  { a.consumeGenerationBudget with think := a.consumeGenerationBudget.think.countToken tok tags.codeFence }

structure ThinkCourse (a : ActiveSeq Device Grammar) (tok : Token) (tags : TagTokens) (sched : SchedCtx) : Prop where
  /-- Thinking does not end inside a tool call's body, nor with a tag of one. -/
  endsOutside : a.request.thinkEndToken = some tok → a.tool.insideToolBody = false ∧
    a.request.toolCallStartToken ≠ some tok ∧ a.request.toolCallEndToken ≠ some tok
  /-- The thinking watchdog does not fire. -/
  noThinkLoop : a.request.thinkEndToken ≠ some tok →
    (a.resetSkipCount.thoughtOn tok tags).thinkingLoops sched = false
  /-- No demand for a call is dropped. -/
  demanded : a.tool.requireToolCall = true → a.outputTokens.length ≤ 512

theorem armEnd_inside (think : ThinkState) : think.armEnd.insideThinking = think.insideThinking := by
  unfold ThinkState.armEnd
  split <;> rfl

variable [GrammarState Grammar]

theorem emitPush_inside (inside : a.think.insideThinking = true) :
    a.emitPush tok logprobs = ((a.resetSkipCount.pushLogprobs logprobs).pushOutput tok).countPostThink := by
  have still : a.resetSkipCount.think.insideThinking = true := inside
  have opens : a.resetSkipCount.opensTool tok = false := by simp [ActiveSeq.opensTool, still]
  have closes : a.resetSkipCount.closesTool tok = false := by simp [ActiveSeq.closesTool, still]
  have satisfied : a.resetSkipCount.satisfyToolCall tok = a.resetSkipCount := by
    simp [ActiveSeq.satisfyToolCall, opens]
  have completed : a.resetSkipCount.completeToolCall tok = a.resetSkipCount := by
    simp [ActiveSeq.completeToolCall, closes]
  have prose : a.resetSkipCount.resetProse tok = a.resetSkipCount := by simp [ActiveSeq.resetProse, opens]
  have unmatched : a.resetSkipCount.advanceGrammarOrDrop tok = a.resetSkipCount := by
    simp [ActiveSeq.advanceGrammarOrDrop, still]
  unfold ActiveSeq.emitPush
  rw [satisfied, updateToolParamState_inside still, completed, prose, unmatched]

theorem emitThinking_same (inside : a.think.insideThinking = true) :
    Same ((a.emitPush tok logprobs).emitCount tok sched)
      (((a.resetSkipCount.pushLogprobs logprobs).pushOutput tok).emitThinking tok) := by
  rw [emitPush_inside inside]
  have counted : Same (((a.resetSkipCount.pushLogprobs logprobs).pushOutput tok).emitCount tok sched)
      (((a.resetSkipCount.pushLogprobs logprobs).pushOutput tok).countPostThink.emitCount tok sched) :=
    emitCount_blind tok sched countPostThink_same
  have thinks : ((a.resetSkipCount.pushLogprobs logprobs).pushOutput tok).emitCount tok sched =
      ((a.resetSkipCount.pushLogprobs logprobs).pushOutput tok).emitThinking tok := if_pos inside
  rw [thinks] at counted
  exact counted.symm

theorem decodeCount_inside (inside : a.think.insideThinking = true) : a.decodeCount tok tags sched answers =
    ((a.resetSkipCount.decodeThinking tok tags sched).decodeSatisfyToolCall tok tags).decodeToolStart tok tags := by
  have still : a.resetSkipCount.think.insideThinking = true := inside
  unfold ActiveSeq.decodeCount ActiveSeq.advanceGrammar
  simp only [if_pos still]

omit [GrammarState Grammar] in
theorem untagged_eq (plain : a.atToolStart tok tags = false) :
    (a.decodeSatisfyToolCall tok tags).decodeToolStart tok tags = a := by
  have satisfied : a.decodeSatisfyToolCall tok tags = a := by simp [ActiveSeq.decodeSatisfyToolCall, plain]
  rw [satisfied]
  simp [ActiveSeq.decodeToolStart, plain]

theorem thinkEnd_same (tagged : TagsOf tags a.request) (inside : a.think.insideThinking = true)
    (course : ThinkCourse a tok tags sched) (ends : a.request.thinkEndToken = some tok) :
    Same ((a.emitPush tok logprobs).emitCount tok sched) (a.recorded tok logprobs tags sched answers) := by
  obtain ⟨prose, start, stop⟩ := course.endsOutside ends
  have closed : a.resetSkipCount.decodeThinking tok tags sched =
      { a.resetSkipCount.consumeGenerationBudget with
        think := a.resetSkipCount.consumeGenerationBudget.think.close } := if_pos (tagged.thinkEnd.trans ends)
  have thought : ((a.resetSkipCount.pushLogprobs logprobs).pushOutput tok).emitThinking tok = _ := if_pos ends
  unfold ActiveSeq.recorded ActiveSeq.kept
  refine (emitThinking_same inside).trans ?_
  rw [decodeCount_inside inside, untagged_eq, closed, thought, ActiveSeq.consumeGenerationBudget_eq,
    ActiveSeq.consumeGenerationBudget_eq, dropToolDemand_eq, updateToolParamState_prose]
  · rfl
  · exact start
  · exact stop
  · exact prose
  · exact course.demanded
  · simp [ActiveSeq.atToolStart, tagged.toolCallStart, start]

theorem thought_same (tagged : TagsOf tags a.request) (inside : a.think.insideThinking = true)
    (course : ThinkCourse a tok tags sched) (goesOn : a.request.thinkEndToken ≠ some tok) :
    Same ((a.emitPush tok logprobs).emitCount tok sched) (a.recorded tok logprobs tags sched answers) := by
  have still : a.resetSkipCount.think.insideThinking = true := inside
  have quiet := course.noThinkLoop goesOn
  have thought : a.resetSkipCount.decodeThinking tok tags sched = a.resetSkipCount.thoughtOn tok tags := by
    unfold ActiveSeq.decodeThinking
    simp only [if_neg fun ends => goesOn (tagged.thinkEnd.symm.trans ends)]
    exact if_neg (by rw [← ActiveSeq.thoughtOn, quiet]; exact Bool.false_ne_true)
  have emitted : ((a.resetSkipCount.pushLogprobs logprobs).pushOutput tok).emitThinking tok = _ := if_neg goesOn
  have thinking : (a.resetSkipCount.thoughtOn tok tags).think.insideThinking = true := by
    rw [ActiveSeq.thoughtOn, ActiveSeq.consumeGenerationBudget_eq]
    exact (armEnd_inside _).trans still
  unfold ActiveSeq.recorded ActiveSeq.kept
  refine (emitThinking_same inside).trans ?_
  rw [decodeCount_inside inside, thought, untagged_eq, emitted, dropToolDemand_eq, updateToolParamState_inside]
  · unfold ActiveSeq.thoughtOn
    rw [ActiveSeq.consumeGenerationBudget_eq, ActiveSeq.consumeGenerationBudget_eq]
    let pushed := (a.resetSkipCount.pushLogprobs logprobs).pushOutput tok
    have counted : Same
        { pushed with
          remaining := pushed.remaining - 1
          finished := pushed.finished || decide (pushed.remaining = 0)
          think := { pushed.think with thinkingTokens := pushed.think.thinkingTokens + 1 } }
        { pushed with
          remaining := pushed.remaining - 1
          finished := pushed.finished || decide (pushed.remaining = 0)
          think := { pushed.think with
            thinkingTokens := pushed.think.thinkingTokens + 1
            inCodeFence := toggleCodeFence pushed.think.inCodeFence tok tags.codeFence } } := rfl
    exact armEnd_blind counted
  · exact thinking
  · rw [ActiveSeq.thoughtOn, ActiveSeq.consumeGenerationBudget_eq]
    exact course.demanded
  · simp [ActiveSeq.atToolStart, thinking]

end Thinking

end Metrale.Scheduler
