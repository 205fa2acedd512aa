import Metrale.Scheduler.EmitToken

/-! # What the speculative path does not look at

Each path keeps some notes that the other does not: when the last token came, whether the end of thinking was forced,
whether a fence is open, the snapshots of a rollback.  No stage of `emit_token` reads a note, so two sequences that
differ in their notes only stay so. -/

namespace Metrale.Scheduler

variable {Device Grammar : Type*}

structure Notes where
  lastToken : Token
  lastTokenTime : Nat
  thinkForceClosed : Bool
  consecutiveConfident : Nat
  inCodeFence : Bool
  postThinkEmitted : Nat
  thinkWatchdogFires : Nat
  postCompletionToolOpens : Nat
  contentStarted : Bool
  ring : SsmDecodeRing

def ActiveSeq.notes (a : ActiveSeq Device Grammar) : Notes where
  lastToken := a.lastToken
  lastTokenTime := a.lastTokenTime
  thinkForceClosed := a.think.thinkForceClosed
  consecutiveConfident := a.think.consecutiveConfident
  inCodeFence := a.think.inCodeFence
  postThinkEmitted := a.think.postThinkEmitted
  thinkWatchdogFires := a.think.thinkWatchdogFires
  postCompletionToolOpens := a.tool.postCompletionToolOpens
  contentStarted := a.content.contentStarted
  ring := a.ssmRollbackRing

def ActiveSeq.withNotes (a : ActiveSeq Device Grammar) (notes : Notes) : ActiveSeq Device Grammar :=
  { a with
    lastToken := notes.lastToken
    lastTokenTime := notes.lastTokenTime
    think := { a.think with
      thinkForceClosed := notes.thinkForceClosed
      consecutiveConfident := notes.consecutiveConfident
      inCodeFence := notes.inCodeFence
      postThinkEmitted := notes.postThinkEmitted
      thinkWatchdogFires := notes.thinkWatchdogFires }
    tool := { a.tool with postCompletionToolOpens := notes.postCompletionToolOpens }
    content := { a.content with contentStarted := notes.contentStarted }
    ssmRollbackRing := notes.ring }

def Same (a b : ActiveSeq Device Grammar) : Prop := b = a.withNotes b.notes

namespace Same

variable {a b c : ActiveSeq Device Grammar}

theorem refl (a : ActiveSeq Device Grammar) : Same a a := rfl

theorem withNotes (a : ActiveSeq Device Grammar) (notes : Notes) : Same a (a.withNotes notes) := rfl

theorem of_eq {notes : Notes} (same : b = a.withNotes notes) : Same a b := by
  rw [same]
  rfl

theorem symm (same : Same a b) : Same b a := by
  unfold Same at same
  rw [same]
  rfl

theorem trans (first : Same a b) (second : Same b c) : Same a c := by
  unfold Same at first second
  rw [second, first]
  rfl

end Same

def Blind (f : ActiveSeq Device Grammar → ActiveSeq Device Grammar) : Prop :=
  ∀ ⦃a b⦄, Same a b → Same (f a) (f b)

namespace Blind

variable {f g : ActiveSeq Device Grammar → ActiveSeq Device Grammar}

theorem ofNotes (blind : ∀ a notes, Same (f a) (f (a.withNotes notes))) : Blind f := by
  intro a b same
  unfold Same at same
  rw [same]
  exact blind a _

theorem id : Blind fun a : ActiveSeq Device Grammar => a := fun _ _ same => same

theorem comp (first : Blind f) (second : Blind g) : Blind fun a => g (f a) := fun _ _ same => second (first same)

theorem ite {condition : ActiveSeq Device Grammar → Prop} [∀ a, Decidable (condition a)] (left : Blind f)
    (right : Blind g) (same : ∀ a notes, condition (ActiveSeq.withNotes a notes) = condition a) :
    Blind fun a => if condition a then f a else g a := by
  refine ofNotes fun a notes => ?_
  by_cases holds : condition a
  · simp only [if_pos holds, if_pos (same a notes ▸ holds)]
    exact left (.withNotes a notes)
  · simp only [if_neg holds, if_neg (same a notes ▸ holds)]
    exact right (.withNotes a notes)

end Blind

/-! ## The stages of `emit_token` -/

section Stages

theorem consumeGenerationBudget_blind :
    Blind (ActiveSeq.consumeGenerationBudget : ActiveSeq Device Grammar → ActiveSeq Device Grammar) :=
  .ite (.ofNotes fun _ _ => rfl) (.ofNotes fun _ _ => rfl) fun _ _ => rfl

theorem stopFor_blind (guard : GuardStop) : Blind fun a : ActiveSeq Device Grammar => a.stopFor guard :=
  .ofNotes fun _ _ => rfl

theorem resetSkipCount_blind : Blind (ActiveSeq.resetSkipCount : ActiveSeq Device Grammar → ActiveSeq Device Grammar) :=
  .ofNotes fun _ _ => rfl

/-- A token inside a tool call's body, and whether the body's envelope is stuck. -/
def ToolState.bodyStep (tool : ToolState) (tok : Token) (opens : Bool) : ToolState × Bool :=
  let streak := advanceEnvelopeStreak tool.insideParameterBody tool.toolBodyStreakTokens
  let counted := { tool with toolBodyStreakTokens := streak.1 }
  (if tool.insideParameterBody then counted.parameterToken tok
    else if tok = tokGt && opens then { counted with insideParameterBody := true, paramBodyCharsEmitted := 0 }
    else counted, streak.2)

def ActiveSeq.stopIf (a : ActiveSeq Device Grammar) (fires : Bool) (guard : GuardStop) : ActiveSeq Device Grammar :=
  { a with
    guardStop := if fires then some guard else a.guardStop
    finished := a.finished || fires }

theorem toolBodyToken_eq (a : ActiveSeq Device Grammar) (tok : Token) : a.toolBodyToken tok =
    ActiveSeq.stopIf { a with tool := (a.tool.bodyStep tok (parameterOpens a.outputTokens tok)).1 }
      (a.tool.bodyStep tok (parameterOpens a.outputTokens tok)).2 .toolEnvelopeStuck := by
  simp only [ActiveSeq.toolBodyToken, ToolState.bodyStep, ActiveSeq.stopIf]
  split_ifs <;> rfl

theorem parameterToken_opens (tool : ToolState) (tok : Token) (opens : Nat) :
    ({ tool with postCompletionToolOpens := opens } : ToolState).parameterToken tok =
      { tool.parameterToken tok with postCompletionToolOpens := opens } := by
  unfold ToolState.parameterToken
  split_ifs <;> rfl

theorem bodyStep_opens (tool : ToolState) (tok : Token) (ends : Bool) (opens : Nat) :
    ({ tool with postCompletionToolOpens := opens } : ToolState).bodyStep tok ends =
      ({ (tool.bodyStep tok ends).1 with postCompletionToolOpens := opens }, (tool.bodyStep tok ends).2) := by
  have same := parameterToken_opens { tool with
    toolBodyStreakTokens := (advanceEnvelopeStreak tool.insideParameterBody tool.toolBodyStreakTokens).1 } tok opens
  simp only [ToolState.bodyStep]
  split_ifs
  · exact congrArg (fun inside => (inside, _)) same
  · rfl
  · rfl

theorem toolBodyToken_blind (tok : Token) : Blind fun a : ActiveSeq Device Grammar => a.toolBodyToken tok := by
  refine .ofNotes fun a notes => ?_
  have same := bodyStep_opens a.tool tok (parameterOpens a.outputTokens tok) notes.postCompletionToolOpens
  have moved : (a.withNotes notes).toolBodyToken tok = (a.toolBodyToken tok).withNotes notes := by
    rw [toolBodyToken_eq, toolBodyToken_eq]
    simp only [ActiveSeq.withNotes, same]
    rfl
  exact .of_eq moved

theorem updateToolParamState_blind (tok : Token) :
    Blind fun a : ActiveSeq Device Grammar => a.updateToolParamState tok :=
  .ite .id (.ite (.ofNotes fun _ _ => rfl) (.ite (.ofNotes fun _ _ => rfl) (.ite (toolBodyToken_blind tok) .id
    fun _ _ => rfl) fun _ _ => rfl) fun _ _ => rfl) fun _ _ => rfl

theorem satisfyToolCall_blind (tok : Token) : Blind fun a : ActiveSeq Device Grammar => a.satisfyToolCall tok :=
  .ite (.ofNotes fun _ _ => rfl) .id fun _ _ => rfl

theorem completeToolCall_blind (tok : Token) : Blind fun a : ActiveSeq Device Grammar => a.completeToolCall tok :=
  .ite (.ofNotes fun _ _ => rfl) .id fun _ _ => rfl

theorem resetProse_blind (tok : Token) : Blind fun a : ActiveSeq Device Grammar => a.resetProse tok :=
  .ite (.ofNotes fun _ _ => rfl) .id fun _ _ => rfl

theorem pushLogprobs_blind (logprobs : Option TokenLogprobs) :
    Blind fun a : ActiveSeq Device Grammar => a.pushLogprobs logprobs :=
  .ofNotes fun _ _ => rfl

theorem pushOutput_blind (tok : Token) : Blind fun a : ActiveSeq Device Grammar => a.pushOutput tok :=
  .ofNotes fun _ _ => rfl

theorem countPostThink_blind :
    Blind (ActiveSeq.countPostThink : ActiveSeq Device Grammar → ActiveSeq Device Grammar) :=
  .ite (.ofNotes fun _ _ => rfl) .id fun _ _ => rfl

theorem armEnd_blind :
    Blind fun a : ActiveSeq Device Grammar => { a with think := a.think.armEnd } := by
  refine .ofNotes fun a notes => ?_
  by_cases exhausted : a.think.exhausted = true
  · have noted : (a.withNotes notes).think.exhausted = true := exhausted
    simp only [ThinkState.armEnd, if_pos exhausted, if_pos noted]
    rfl
  · have noted : ¬(a.withNotes notes).think.exhausted = true := exhausted
    simp only [ThinkState.armEnd, if_neg exhausted, if_neg noted]
    rfl

theorem emitThinking_blind (tok : Token) : Blind fun a : ActiveSeq Device Grammar => a.emitThinking tok := by
  have closes : Blind fun a : ActiveSeq Device Grammar => { a with think := { a.think with
      insideThinking := false
      thinkForceClosed := a.think.forceEndThinking
      forceEndThinking := false
      sentenceDeferCount := 0
      thinkEnded := true
      thinkJustEnded := true } } := .ofNotes fun _ _ => rfl
  have counts : Blind fun a : ActiveSeq Device Grammar =>
      { a with think := { a.think with thinkingTokens := a.think.thinkingTokens + 1 } } := .ofNotes fun _ _ => rfl
  exact .ite (consumeGenerationBudget_blind.comp closes) (consumeGenerationBudget_blind.comp (counts.comp armEnd_blind))
    fun _ _ => rfl

theorem clearThinkJustEnded_blind :
    Blind (ActiveSeq.clearThinkJustEnded : ActiveSeq Device Grammar → ActiveSeq Device Grammar) :=
  .ofNotes fun _ _ => rfl

theorem countContent_blind : Blind (ActiveSeq.countContent : ActiveSeq Device Grammar → ActiveSeq Device Grammar) :=
  .ofNotes fun _ _ => rfl

theorem stopAtContentCap_blind (sched : SchedCtx) :
    Blind fun a : ActiveSeq Device Grammar => a.stopAtContentCap sched :=
  .ite (stopFor_blind _) .id fun _ _ => rfl

theorem emitContentLoopStop_blind (sched : SchedCtx) :
    Blind fun a : ActiveSeq Device Grammar => a.emitContentLoopStop sched :=
  .ite (stopFor_blind _) .id fun _ _ => rfl

theorem countProse_blind : Blind (ActiveSeq.countProse : ActiveSeq Device Grammar → ActiveSeq Device Grammar) :=
  .ofNotes fun _ _ => rfl

theorem emitProse_blind (sched : SchedCtx) : Blind fun a : ActiveSeq Device Grammar => a.emitProse sched :=
  .ite (.ite (countProse_blind.comp (stopFor_blind _)) countProse_blind fun _ _ => rfl) .id fun _ _ => rfl

theorem emitContent_blind (sched : SchedCtx) : Blind fun a : ActiveSeq Device Grammar => a.emitContent sched := by
  have counted : Blind fun a : ActiveSeq Device Grammar => a.consumeGenerationBudget.clearThinkJustEnded.countContent :=
    consumeGenerationBudget_blind.comp (clearThinkJustEnded_blind.comp countContent_blind)
  exact counted.comp ((stopAtContentCap_blind sched).comp ((emitContentLoopStop_blind sched).comp
    (emitProse_blind sched)))

theorem emitCount_blind (tok : Token) (sched : SchedCtx) :
    Blind fun a : ActiveSeq Device Grammar => a.emitCount tok sched :=
  .ite (emitThinking_blind tok) (emitContent_blind sched) fun _ _ => rfl

theorem Same.stream {a b : ActiveSeq Device Grammar} (same : Same a b) (event : StreamEvent)
    (request : RequestAnswers) : Same (a.stream event request).1 (b.stream event request).1 ∧
      (b.stream event request).2 = (a.stream event request).2 := by
  unfold Same at same
  rw [same]
  exact ⟨rfl, rfl⟩

theorem emitThinkStart_blind :
    Blind (ActiveSeq.emitThinkStart : ActiveSeq Device Grammar → ActiveSeq Device Grammar) :=
  .ofNotes fun _ _ => rfl

theorem strayThinkEnd_blind :
    Blind (ActiveSeq.strayThinkEnd : ActiveSeq Device Grammar → ActiveSeq Device Grammar) :=
  .ofNotes fun _ _ => rfl

theorem pushClose_blind (request : RequestAnswers) (close : List Token) :
    Blind fun a : ActiveSeq Device Grammar => ActiveSeq.pushClose request close a := by
  induction close with
  | nil => exact .id
  | cons tok close ih =>
    intro a b same
    have streamed := (pushOutput_blind tok same).stream (.token tok) request
    simp only [ActiveSeq.pushClose, streamed.2]
    split
    · exact ih streamed.1
    · exact streamed.1

variable [GrammarState Grammar]

theorem advanceGrammarOrDrop_blind (tok : Token) :
    Blind fun a : ActiveSeq Device Grammar => a.advanceGrammarOrDrop tok :=
  .ite .id (.ofNotes fun _ _ => rfl) fun _ _ => rfl

theorem emitPush_blind (tok : Token) (logprobs : Option TokenLogprobs) :
    Blind fun a : ActiveSeq Device Grammar => a.emitPush tok logprobs := by
  have tagged : Blind fun a : ActiveSeq Device Grammar =>
      (((a.resetSkipCount.satisfyToolCall tok).updateToolParamState tok).completeToolCall tok).resetProse tok :=
    resetSkipCount_blind.comp ((satisfyToolCall_blind tok).comp ((updateToolParamState_blind tok).comp
      ((completeToolCall_blind tok).comp (resetProse_blind tok))))
  exact tagged.comp ((advanceGrammarOrDrop_blind tok).comp ((pushLogprobs_blind logprobs).comp
    ((pushOutput_blind tok).comp countPostThink_blind)))

theorem emitLengthStop_blind (sched : SchedCtx) (request : RequestAnswers) :
    Blind fun a : ActiveSeq Device Grammar => a.emitLengthStop sched request := by
  have closes : Blind fun a : ActiveSeq Device Grammar =>
      { a.emitGrammarClose request sched.levers.grammarBudgetClose with finished := true } := by
    intro a b same
    have tokens : b.closeTokens sched.levers.grammarBudgetClose = a.closeTokens sched.levers.grammarBudgetClose := by
      unfold Same at same
      rw [same]
      rfl
    have closed := pushClose_blind request (a.closeTokens sched.levers.grammarBudgetClose) same
    have ends : Blind fun c : ActiveSeq Device Grammar => { c with finished := true } := .ofNotes fun _ _ => rfl
    simp only [ActiveSeq.emitGrammarClose, tokens]
    exact ends closed
  exact .ite closes .id fun _ _ => rfl

theorem emitStream_blind (tok : Token) (sched : SchedCtx) (request : RequestAnswers) :
    Blind fun a : ActiveSeq Device Grammar => a.emitStream tok sched request := by
  refine .ite (emitLengthStop_blind sched request) ?_ fun _ _ => rfl
  intro a b same
  have event : b.tokenEvent tok = a.tokenEvent tok := by
    unfold Same at same
    rw [same]
    rfl
  have streamed := same.stream (a.tokenEvent tok) request
  have ends : Blind fun c : ActiveSeq Device Grammar => { c with finished := true } := .ofNotes fun _ _ => rfl
  simp only [event, streamed.2]
  split
  · exact emitLengthStop_blind sched request streamed.1
  · exact ends streamed.1

theorem emitToken_blind (tok : Token) (logprobs : Option TokenLogprobs) (sched : SchedCtx)
    (request : RequestAnswers) : Blind fun a : ActiveSeq Device Grammar => a.emitToken tok logprobs sched request := by
  have ends : Blind fun c : ActiveSeq Device Grammar => { c with finished := true } := .ofNotes fun _ _ => rfl
  have counted : Blind fun a : ActiveSeq Device Grammar => (a.emitPush tok logprobs).emitCount tok sched :=
    (emitPush_blind tok logprobs).comp (emitCount_blind tok sched)
  have stops : Blind fun a : ActiveSeq Device Grammar =>
      if a.emitSuppressesEos sched then a else { a with finished := true } := .ite .id ends fun _ _ => rfl
  refine .ite ends (.ite ((pushOutput_blind tok).comp ends) (.ite ((pushOutput_blind tok).comp (stopFor_blind _))
    (.ite emitThinkStart_blind (.ite strayThinkEnd_blind (.ite (counted.comp stops)
      (counted.comp (emitStream_blind tok sched request)) ?_) ?_) ?_) ?_) ?_) ?_
  all_goals exact fun _ _ => rfl

end Stages

end Metrale.Scheduler
