import Metrale.Foundation.Runs
import Metrale.Scheduler.Promote
import Metrale.Scheduler.Stages

/-! # What the client has seen

Tokens reach the client one at a time, each behind its entry in the output, and some entries never reach it.  A step is
followed by what it adds to the output, what it adds to the channel, and the token that is recorded but not yet
offered. -/

namespace Metrale.Scheduler

variable {Device Grammar : Type*} {a b c : ActiveSeq Device Grammar}

/-! ## Steps -/

/-- From `a` to `b` tokens were added to the output and some of them, in that order, to the channel; the tokens of
`unsent` came last and are not offered yet. -/
structure Extends (a b : ActiveSeq Device Grammar) (unsent : List Token) : Prop where
  cancelFlag : b.cancelFlag = a.cancelFlag
  rollbackCount : b.rollbackCount = a.rollbackCount
  grows : ∃ new sent, b.outputTokens = a.outputTokens ++ new ++ unsent ∧ b.sink.sent = a.sink.sent ++ sent ∧
    sent.Sublist new

namespace Extends

variable {unsent : List Token}

theorem ofUndelivered (unheard : Undelivered a b) : Extends a b [] where
  cancelFlag := unheard.cancelFlag
  rollbackCount := unheard.rollbackCount
  grows := ⟨[], [], by simp [unheard.outputTokens], by simp [unheard.sink], .slnil⟩

theorem ofQuiet (quiet : Quiet a b) : Extends a b [] := .ofUndelivered quiet.toUndelivered

theorem refl (a : ActiveSeq Device Grammar) : Extends a a [] := .ofQuiet (.refl a)

theorem trans (first : Extends a b []) (second : Extends b c unsent) : Extends a c unsent where
  cancelFlag := second.cancelFlag.trans first.cancelFlag
  rollbackCount := second.rollbackCount.trans first.rollbackCount
  grows := by
    obtain ⟨new, sent, output, channel, ordered⟩ := first.grows
    obtain ⟨new', sent', output', channel', ordered'⟩ := second.grows
    refine ⟨new ++ new', sent ++ sent', ?_, ?_, ordered.append ordered'⟩
    · rw [output', output]
      simp only [List.append_nil, List.append_assoc]
    · rw [channel', channel, List.append_assoc]

theorem unheard (first : Extends a b unsent) (second : Undelivered b c) : Extends a c unsent where
  cancelFlag := second.cancelFlag.trans first.cancelFlag
  rollbackCount := second.rollbackCount.trans first.rollbackCount
  grows := by
    obtain ⟨new, sent, output, channel, ordered⟩ := first.grows
    have channel' := (congrArg ResponseSink.sent second.sink).trans channel
    exact ⟨new, sent, second.outputTokens.trans output, channel', ordered⟩

theorem quiet (first : Extends a b unsent) (second : Quiet b c) : Extends a c unsent :=
  first.unheard second.toUndelivered

theorem keepBack (first : Extends a b unsent) : Extends a b [] where
  cancelFlag := first.cancelFlag
  rollbackCount := first.rollbackCount
  grows := by
    obtain ⟨new, sent, output, channel, ordered⟩ := first.grows
    refine ⟨new ++ unsent, sent, ?_, channel, ordered.trans (List.sublist_append_left new unsent)⟩
    rw [output, List.append_nil, List.append_assoc]

theorem ite {condition : Prop} [Decidable condition] (left : Extends a b unsent) (right : Extends a c unsent) :
    Extends a (if condition then b else c) unsent := by
  split
  · exact left
  · exact right

theorem push (tok : Token) : Extends a (a.pushOutput tok) [tok] where
  cancelFlag := rfl
  rollbackCount := rfl
  grows := ⟨[], [], by simp [ActiveSeq.pushOutput], (List.append_nil _).symm, .slnil⟩

end Extends

theorem emit_sent (sink : ResponseSink) (event : StreamEvent) (request : RequestAnswers) :
    ∃ sent, (sink.emit event request).1.sent = sink.sent ++ sent ∧ sent.Sublist [event.id] := by
  unfold ResponseSink.emit
  split
  · exact ⟨[], (List.append_nil _).symm, List.nil_sublist _⟩
  split
  · exact ⟨[event.id], by simp [ResponseSink.sent], .refl _⟩
  · exact ⟨[], (List.append_nil _).symm, List.nil_sublist _⟩

theorem tokenEvent_id (tok : Token) : (a.tokenEvent tok).id = tok := by
  unfold ActiveSeq.tokenEvent
  split <;> rfl

theorem Extends.stream {event : StreamEvent} (first : Extends a b [event.id]) (request : RequestAnswers) :
    Extends a (b.stream event request).1 [] where
  cancelFlag := first.cancelFlag
  rollbackCount := first.rollbackCount
  grows := by
    obtain ⟨new, sent, output, channel, ordered⟩ := first.grows
    obtain ⟨offered, reached, single⟩ := emit_sent b.sink event request
    refine ⟨new ++ [event.id], sent ++ offered, ?_, ?_, ordered.append single⟩
    · rw [List.append_nil, ← List.append_assoc]
      exact output
    · rw [← List.append_assoc, ← channel]
      exact reached

theorem Extends.streamToken {tok : Token} (first : Extends a b [tok]) (request : RequestAnswers) :
    Extends a (b.stream (b.tokenEvent tok) request).1 [] := by
  rw [← tokenEvent_id (a := b) tok] at first
  exact first.stream request

theorem pushClose_extends (request : RequestAnswers) (close : List Token) :
    Extends a (ActiveSeq.pushClose request close a) [] := by
  induction close generalizing a with
  | nil => exact .refl a
  | cons tok close ih =>
    have pushed : Extends a ((a.pushOutput tok).stream (.token tok) request).1 [] :=
      (Extends.push tok).stream request
    rw [ActiveSeq.pushClose]
    exact .ite (pushed.trans ih) pushed

structure RolledBack (a b : ActiveSeq Device Grammar) : Prop where
  noFlag : a.cancelFlag = none
  stillNone : b.cancelFlag = none
  counted : a.rollbackCount < b.rollbackCount

def Advances (a b : ActiveSeq Device Grammar) : Prop := Extends a b [] ∨ RolledBack a b

namespace Advances

theorem ofExtends (extended : Extends a b []) : Advances a b := .inl extended

theorem ofUndelivered (unheard : Undelivered a b) : Advances a b := .inl (.ofUndelivered unheard)

theorem ofQuiet (quiet : Quiet a b) : Advances a b := .inl (.ofQuiet quiet)

theorem refl (a : ActiveSeq Device Grammar) : Advances a a := .inl (.refl a)

theorem trans (first : Advances a b) (second : Advances b c) : Advances a c := by
  rcases first with extended | rolledBack
  · rcases second with extended' | rolledBack
    · exact .inl (extended.trans extended')
    · exact .inr ⟨extended.cancelFlag.symm.trans rolledBack.noFlag, rolledBack.stillNone,
        extended.rollbackCount ▸ rolledBack.counted⟩
  · rcases second with extended | rolledBack'
    · exact .inr ⟨rolledBack.noFlag, extended.cancelFlag.trans rolledBack.stillNone,
        extended.rollbackCount ▸ rolledBack.counted⟩
    · exact .inr ⟨rolledBack.noFlag, rolledBack'.stillNone, rolledBack.counted.trans rolledBack'.counted⟩

theorem quiet (first : Advances a b) (second : Quiet b c) : Advances a c := first.trans (.ofQuiet second)

theorem ite {condition : Prop} [Decidable condition] (left : Advances a b) (right : Advances a c) :
    Advances a (if condition then b else c) := by
  split
  · exact left
  · exact right

end Advances

section Paths

variable [GrammarState Grammar]

theorem emitGrammarClose_extends (request : RequestAnswers) (budgetClose : Bool) :
    Extends a (a.emitGrammarClose request budgetClose) [] := pushClose_extends request _

theorem rollbackOrStop_advances (guard : GuardStop) (minKeep : Nat) (sched : SchedCtx) (snapshots : SnapshotAnswers) :
    Advances a (a.rollbackOrStop guard minKeep sched snapshots) := by
  cases rollbackOrStop_cases a minKeep sched snapshots guard with
  | inl stopped =>
    rw [stopped]
    exact .ofQuiet (stopFor_quiet guard)
  | inr done =>
    obtain ⟨keepLen, rolls, done⟩ := done
    rw [done]
    have counted := rolledBackTo_count keepLen (ringBehind a sched keepLen) rolls.underCap
    exact .inr ⟨rolls.noFlag, rolls.noFlag, by omega⟩

/-! ## `emit_token` -/

theorem emitPush_extends (tok : Token) (logprobs : Option TokenLogprobs) :
    Extends a (a.emitPush tok logprobs) [tok] := by
  have tagged := (resetSkipCount_quiet (a := a)).trans (satisfyToolCall_quiet tok)
  have tracked := (tagged.trans (updateToolParamState_quiet tok)).trans (completeToolCall_quiet tok)
  have advanced := (tracked.trans (resetProse_quiet tok)).trans (advanceGrammarOrDrop_quiet tok)
  have recorded := advanced.trans (pushLogprobs_quiet logprobs)
  exact ((Extends.ofQuiet recorded).trans (.push tok)).quiet countPostThink_quiet

theorem emitLengthStop_extends (sched : SchedCtx) (request : RequestAnswers) :
    Extends a (a.emitLengthStop sched request) [] :=
  .ite ((emitGrammarClose_extends request _).unheard ⟨rfl, rfl, rfl, rfl⟩) (.refl a)

theorem emitStream_extends {tok : Token} (recorded : Extends a b [tok]) (sched : SchedCtx)
    (request : RequestAnswers) : Extends a (b.emitStream tok sched request) [] := by
  have offered := recorded.streamToken request
  exact .ite (recorded.keepBack.trans (emitLengthStop_extends sched request))
    (.ite (offered.trans (emitLengthStop_extends sched request)) (offered.unheard ⟨rfl, rfl, rfl, rfl⟩))

theorem emitToken_extends (a : ActiveSeq Device Grammar) (tok : Token) (logprobs : Option TokenLogprobs)
    (sched : SchedCtx) (request : RequestAnswers) : Extends a (a.emitToken tok logprobs sched request) [] := by
  have stopped : Extends a (a.pushOutput tok) [] := (Extends.push tok).keepBack
  have recorded : Extends a ((a.emitPush tok logprobs).emitCount tok sched) [tok] :=
    (emitPush_extends tok logprobs).quiet (emitCount_quiet tok sched)
  have imStart := stopped.unheard (c := { a.pushOutput tok with finished := true }) ⟨rfl, rfl, rfl, rfl⟩
  refine .ite (.ofUndelivered ⟨rfl, rfl, rfl, rfl⟩) (.ite imStart (.ite ?_ (.ite ?_ (.ite ?_ ?_))))
  · exact stopped.quiet (stopFor_quiet _)
  · exact .ofUndelivered ⟨rfl, rfl, rfl, rfl⟩
  · exact .ofQuiet strayThinkEnd_quiet
  · refine .ite (.ite recorded.keepBack (recorded.keepBack.unheard ⟨rfl, rfl, rfl, rfl⟩)) ?_
    exact emitStream_extends recorded sched request

/-! ## `process_decoded_token` -/

theorem decodeContentLoop_advances (sched : SchedCtx) (snapshots : SnapshotAnswers) :
    Advances a (a.decodeContentLoop sched snapshots) :=
  .ite (rollbackOrStop_advances _ _ sched snapshots) (.refl a)

theorem decodeProse_advances (sched : SchedCtx) (snapshots : SnapshotAnswers) :
    Advances a (a.decodeProse sched snapshots) := by
  have counted : Advances a a.countProse := .ofQuiet countProse_quiet
  exact .ite (.ite (counted.trans (rollbackOrStop_advances _ _ sched snapshots)) counted) (.refl a)

theorem handleContentToken_advances (sched : SchedCtx) (answers : DecodeAnswers) :
    Advances a (a.handleContentToken sched answers) := by
  have counted : Quiet a a.consumeGenerationBudget.startContent.countContent :=
    consumeGenerationBudget_quiet.trans (.unchanged rfl)
  have capped := counted.trans (stopAtContentCap_quiet sched)
  have cleared := Advances.ofQuiet (capped.trans (.unchanged rfl) :
    Quiet a (a.consumeGenerationBudget.startContent.countContent.stopAtContentCap sched).clearThinkJustEnded)
  have unlooped := cleared.trans (decodeContentLoop_advances sched answers.contentLoop)
  exact unlooped.trans (decodeProse_advances sched answers.interToolProse)

theorem decodeCount_advances (tok : Token) (tags : TagTokens) (sched : SchedCtx) (answers : DecodeAnswers) :
    Advances a (a.decodeCount tok tags sched answers) := by
  have advanced : Quiet a (a.resetSkipCount.advanceGrammar tok) :=
    resetSkipCount_quiet.trans (advanceGrammar_quiet tok)
  have counted : Advances a (if (a.resetSkipCount.advanceGrammar tok).think.insideThinking
      then (a.resetSkipCount.advanceGrammar tok).decodeThinking tok tags sched
      else (a.resetSkipCount.advanceGrammar tok).handleContentToken sched answers) :=
    (Advances.ofQuiet advanced).trans
      (.ite (.ofQuiet (decodeThinking_quiet tok tags sched)) (handleContentToken_advances sched answers))
  exact (counted.quiet (decodeSatisfyToolCall_quiet tok tags)).quiet (decodeToolStart_quiet tok tags)

theorem decodeToolEnd_extends (tok : Token) (request : RequestAnswers) :
    Extends a (a.decodeToolEnd tok request) [] := by
  have completed : Extends a { a.pushOutput tok with
      tool := { (a.pushOutput tok).tool with toolCallCompleted := true } } [tok] :=
    (Extends.push tok).unheard ⟨rfl, rfl, rfl, rfl⟩
  have offered := completed.streamToken request
  exact .ite (offered.quiet (leaveToolCall_quiet tok)) (offered.unheard ⟨rfl, rfl, rfl, rfl⟩)

omit [GrammarState Grammar] in
theorem decodeStream_extends {tok : Token} (recorded : Extends a b [tok]) (request : RequestAnswers) :
    Extends a (b.decodeStream tok request) [] :=
  .ite recorded.keepBack ((recorded.streamToken request).unheard ⟨rfl, rfl, rfl, rfl⟩)

theorem decodeBudgetStop_extends (sched : SchedCtx) (request : RequestAnswers) :
    Extends a (a.decodeBudgetStop sched request) [] :=
  .ite ((emitGrammarClose_extends request _).unheard ⟨rfl, rfl, rfl, rfl⟩) (.refl a)

theorem decodeFuzzy_advances (sched : SchedCtx) (snapshots : SnapshotAnswers) :
    Advances a (a.decodeFuzzy sched snapshots) := by
  refine .ite ?_ (.refl a)
  split
  · exact .refl a
  · exact rollbackOrStop_advances _ _ sched snapshots

theorem emitContentToken_advances (tok : Token) (sched : SchedCtx) (request : RequestAnswers)
    (answers : DecodeAnswers) : Advances a (a.emitContentToken tok sched request answers) := by
  have recorded := ((Extends.push (a := a) tok).quiet (updateToolParamState_quiet tok)).quiet
    (snapshotContent_quiet sched answers.boundary)
  have offered := decodeStream_extends recorded request
  have budgeted := offered.trans (decodeBudgetStop_extends sched request)
  have stopped := (budgeted.quiet (decodeCeilingStop_quiet sched)).quiet decodeGrammarStop_quiet
  exact (Advances.ofExtends stopped).trans (decodeFuzzy_advances sched answers.fuzzy)

theorem decodeKeep_advances (tok : Token) (sched : SchedCtx) (request : RequestAnswers) (answers : DecodeAnswers) :
    Advances a (a.decodeKeep tok sched request answers) := by
  refine .ite (.ite (.ofQuiet (dropEos_quiet sched)) ?_) (emitContentToken_advances tok sched request answers)
  have tracked := (Extends.push (a := a) tok).keepBack.quiet (updateToolParamState_quiet tok)
  exact .ofExtends (tracked.unheard ⟨rfl, rfl, rfl, rfl⟩)

theorem processDecodedToken_advances (a : ActiveSeq Device Grammar) (tok : Token) (logprobs : Option TokenLogprobs)
    (now : Nat) (tags : TagTokens) (sched : SchedCtx) (request : RequestAnswers) (answers : DecodeAnswers) :
    Advances a (a.processDecodedToken tok logprobs now tags sched request answers) := by
  have stamped : Quiet a { a with lastToken := tok, lastTokenTime := now } := .unchanged rfl
  refine (Advances.ofQuiet stamped).trans (.ite ?_ (.ite ?_ (.ite ?_ ?_)))
  · exact .ofExtends ((Extends.push tok).keepBack.quiet (stopFor_quiet _))
  · exact .ofUndelivered ⟨rfl, rfl, rfl, rfl⟩
  · exact .ofQuiet strayThinkEnd_quiet
  · refine (decodeCount_advances tok tags sched answers).trans (.ite ?_ ?_)
    · exact .ofExtends ((Extends.push tok).keepBack.unheard ⟨rfl, rfl, rfl, rfl⟩)
    · refine (Advances.ofQuiet (dropToolDemand_quiet.trans (pushLogprobs_quiet logprobs))).trans ?_
      exact .ite (.ofExtends (decodeToolEnd_extends tok request)) (decodeKeep_advances tok sched request answers)

end Paths

/-! ## Runs of a request -/

inductive RequestLabel (Device Grammar Image : Type*) where
  | emitted (tok : Token) (logprobs : Option TokenLogprobs) (sched : SchedCtx) (request : RequestAnswers)
  | decoded (tok : Token) (logprobs : Option TokenLogprobs) (now : Nat) (tags : TagTokens) (sched : SchedCtx)
      (request : RequestAnswers) (answers : DecodeAnswers)
  | swapped (swapId : Nat) (image : Image) (answers : ResumeAnswers Device)
  | preempted (answers : ResumeAnswers Device)
  | other (b : ActiveSeq Device Grammar)

section Runs

open Metrale.Foundation

variable [GrammarState Grammar] {Image : Type*} [DeviceImage Device Image]

/-- `other` is all that records and sends no token: launches, drafts, timers, moves between slots. -/
inductive RequestStep :
    ActiveSeq Device Grammar → RequestLabel Device Grammar Image → ActiveSeq Device Grammar → Prop where
  | emitted {a : ActiveSeq Device Grammar} {tok : Token} {logprobs : Option TokenLogprobs} {sched : SchedCtx}
      {request : RequestAnswers} :
      RequestStep a (.emitted tok logprobs sched request) (a.emitToken tok logprobs sched request)
  | decoded {a : ActiveSeq Device Grammar} {tok : Token} {logprobs : Option TokenLogprobs} {now : Nat}
      {tags : TagTokens} {sched : SchedCtx} {request : RequestAnswers} {answers : DecodeAnswers} :
      RequestStep a (.decoded tok logprobs now tags sched request answers)
        (a.processDecodedToken tok logprobs now tags sched request answers)
  | swapped {a : ActiveSeq Device Grammar} {swapId : Nat} {image : Image} {answers : ResumeAnswers Device} :
      RequestStep a (.swapped swapId image answers) (resumeSwappedSeq (spillOutSequence a swapId) image answers)
  | preempted {a : ActiveSeq Device Grammar} {answers : ResumeAnswers Device} :
      RequestStep a (.preempted answers) (resumePreemptedSeq (preemptRequeue a) answers)
  | other {a b : ActiveSeq Device Grammar} (unheard : Undelivered a b) : RequestStep a (.other b) b

def Unrolled (a : ActiveSeq Device Grammar) (label : RequestLabel Device Grammar Image) : Prop :=
  match label with
  | .decoded tok logprobs now tags sched request answers => a.cancelFlag.isSome ∨
      (a.processDecodedToken tok logprobs now tags sched request answers).rollbackCount = a.rollbackCount
  | _ => True

/-- Tokens are added to the output, and some of them, in that order, to the channel. -/
def Grows (a b : ActiveSeq Device Grammar) : Prop :=
  ∃ new sent, b.outputTokens = a.outputTokens ++ new ∧ b.sink.sent = a.sink.sent ++ sent ∧ sent.Sublist new

omit [GrammarState Grammar] in
theorem Grows.refl (a : ActiveSeq Device Grammar) : Grows a a :=
  ⟨[], [], (List.append_nil _).symm, (List.append_nil _).symm, .slnil⟩

omit [GrammarState Grammar] in
theorem Grows.trans (first : Grows a b) (second : Grows b c) : Grows a c := by
  obtain ⟨new, sent, output, channel, ordered⟩ := first
  obtain ⟨new', sent', output', channel', ordered'⟩ := second
  refine ⟨new ++ new', sent ++ sent', ?_, ?_, ordered.append ordered'⟩
  · rw [output', output, List.append_assoc]
  · rw [channel', channel, List.append_assoc]

omit [GrammarState Grammar] in
theorem Extends.grown (extended : Extends a b []) : Grows a b := by
  obtain ⟨new, sent, output, channel, ordered⟩ := extended.grows
  exact ⟨new, sent, by rw [output, List.append_nil], channel, ordered⟩

omit [GrammarState Grammar] in
theorem Advances.grown (advances : Advances a b)
    (unrolled : a.cancelFlag.isSome ∨ b.rollbackCount = a.rollbackCount) : Grows a b := by
  rcases advances with extended | rolledBack
  · exact extended.grown
  · rcases unrolled with flagged | same
    · rw [rolledBack.noFlag] at flagged
      cases flagged
    · exact absurd same rolledBack.counted.ne'

theorem RequestStep.grows {label : RequestLabel Device Grammar Image} (unrolled : Unrolled a label)
    (taken : RequestStep a label b) : Grows a b := by
  cases taken with
  | @emitted tok logprobs sched request =>
    exact (emitToken_extends a tok logprobs sched request).grown
  | @decoded tok logprobs now tags sched request answers =>
    exact (processDecodedToken_advances a tok logprobs now tags sched request answers).grown unrolled
  | swapped => exact ⟨[], [], (List.append_nil _).symm, (List.append_nil _).symm, .slnil⟩
  | preempted => exact ⟨[], [], (List.append_nil _).symm, (List.append_nil _).symm, .slnil⟩
  | other unheard => exact (Extends.ofUndelivered unheard).grown

theorem run_grows {labels : List (RequestLabel Device Grammar Image)}
    (run : Run (Guarded Unrolled RequestStep) a labels b) : Grows a b := by
  induction run with
  | start => exact .refl a
  | extend _ taken ih => exact ih.trans (taken.2.grows taken.1)

omit [GrammarState Grammar] in
theorem buildActiveSeq_sent (p : PrefillInProgress Device Grammar) (route : FirstTokenRoute) (first : Token)
    (tags : TagTokens) (answers : RequestAnswers) (now cachedPromptTokens ringSlots : Nat) (fresh : p.sink.sent = []) :
    (p.buildActiveSeq route first tags answers now cachedPromptTokens ringSlots).sink.sent.Sublist
      (p.buildActiveSeq route first tags answers now cachedPromptTokens ringSlots).outputTokens := by
  simp only [PrefillInProgress.buildActiveSeq, PrefillInProgress.firstSent]
  split
  · rename_i sends
    simp only [PrefillInProgress.sendsFirst, Bool.and_eq_true, Bool.not_eq_true', decide_eq_true_eq] at sends
    obtain ⟨⟨asked, positive⟩, -⟩ := sends
    have budget : (p.maxTokens == 0) = false := beq_eq_false_iff_ne.mpr positive.ne'
    obtain ⟨sent, reached, single⟩ := emit_sent p.sink (.token first) answers
    rw [reached, fresh, asked, budget]
    exact single
  · rw [fresh]
    exact List.nil_sublist _

end Runs

end Metrale.Scheduler
