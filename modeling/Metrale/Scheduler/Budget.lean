import Metrale.Scheduler.Stages

/-! # The budget of a plain decode step

A step of the plain path feeds the last token to the model and processes the one it answers.  The sequence is then one
token longer and has one token less to come: what it may ever hold does not grow.  Tokens that leave `remaining` as it
is, a `<think>` or a `</think>` outside thinking, are the exception. -/

namespace Metrale.Scheduler

variable {Device Grammar : Type*} {a b : ActiveSeq Device Grammar} {top total slack : Nat}

/-- `total` tokens are all the sequence can come to hold, and all but `slack` of its output is among its tokens. -/
structure Funded (total slack : Nat) (a : ActiveSeq Device Grammar) : Prop where
  tokens : a.seq.tokens.length = a.seq.seqLen
  recorded : a.outputTokens.length ≤ a.seq.seqLen + slack
  funded : a.seq.seqLen + a.remaining ≤ total

/-- The sequence holds at most `top` tokens now, and unless it is finished its future is funded. -/
structure Within (top total slack : Nat) (a : ActiveSeq Device Grammar) : Prop where
  reached : a.seq.seqLen ≤ top
  live : a.finished = false → Funded total slack a

theorem Quiet.within (quiet : Quiet a b) (within : Within top total slack a) : Within top total slack b where
  reached := by rw [quiet.seq]; exact within.reached
  live unfinished := by
    have before : a.finished = false := by
      cases done : a.finished with
      | false => rfl
      | true => exact absurd (quiet.finished done) (by rw [unfinished]; exact Bool.false_ne_true)
    have funded := within.live before
    exact {
      tokens := by rw [quiet.seq]; exact funded.tokens
      recorded := by rw [quiet.seq, quiet.outputTokens]; exact funded.recorded
      funded := by rw [quiet.seq]; exact (Nat.add_le_add_left quiet.remaining _).trans funded.funded }

namespace Within

theorem done (reached : a.seq.seqLen ≤ top) (finished : a.finished = true) : Within top total slack a where
  reached
  live unfinished := by rw [finished] at unfinished; cases unfinished

theorem ite {condition : Prop} [Decidable condition] (left : Within top total slack a)
    (right : Within top total slack b) : Within top total slack (if condition then a else b) := by
  split
  · exact left
  · exact right

theorem recorded (within : Within top total 0 a) : Within top total 1 a where
  reached := within.reached
  live unfinished :=
    { within.live unfinished with recorded := Nat.le_succ_of_le (within.live unfinished).recorded }

theorem push (within : Within top total 0 a) (tok : Token) : Within top total 1 (a.pushOutput tok) where
  reached := within.reached
  live unfinished := by
    have funded := within.live unfinished
    refine ⟨funded.tokens, ?_, funded.funded⟩
    simpa [ActiveSeq.pushOutput] using funded.recorded

theorem stream (within : Within top total slack a) (event : StreamEvent) (request : RequestAnswers) :
    Within top total slack (a.stream event request).1 where
  reached := within.reached
  live unfinished := ⟨(within.live unfinished).tokens, (within.live unfinished).recorded,
    (within.live unfinished).funded⟩

theorem consume (within : Within top (total + 1) slack a) : Within top total slack a.consumeGenerationBudget := by
  unfold ActiveSeq.consumeGenerationBudget
  split
  · exact .done within.reached rfl
  · rename_i positive
    refine ⟨within.reached, fun unfinished => ?_⟩
    have funded := within.live unfinished
    refine ⟨funded.tokens, funded.recorded, ?_⟩
    have spent := funded.funded
    simp only
    omega

variable [GrammarState Grammar]

/-- Tokens that leave the output leave the sequence too, and their budget comes back. -/
theorem rolledBack (within : Within top total slack a) (narrow : slack ≤ 1) {keepLen : Nat} (kept : 0 < keepLen)
    (ring : SsmDecodeRing) : Within top total slack (rolledBackTo a keepLen ring) where
  reached := (Nat.sub_le _ _).trans within.reached
  live unfinished := by
    obtain ⟨tokens, recorded, funded⟩ := within.live unfinished
    constructor
    · simp only [rolledBackTo, applyRollback, rewindSeq, List.length_take]
      omega
    · simp only [rolledBackTo, applyRollback, rewindSeq, List.length_take]
      omega
    · simp only [rolledBackTo, applyRollback, rewindSeq]
      omega

theorem rollbackOrStop (within : Within top total slack a) (narrow : slack ≤ 1) (guard : GuardStop) (minKeep : Nat)
    (sched : SchedCtx) (snapshots : SnapshotAnswers) :
    Within top total slack (a.rollbackOrStop guard minKeep sched snapshots) := by
  cases rollbackOrStop_cases a minKeep sched snapshots guard with
  | inl stopped =>
    rw [stopped]
    exact (stopFor_quiet guard).within within
  | inr done =>
    obtain ⟨keepLen, rolls, done⟩ := done
    rw [done]
    exact within.rolledBack narrow rolls.some _

end Within

theorem pushClose_seq (request : RequestAnswers) (close : List Token) :
    (ActiveSeq.pushClose request close a).seq = a.seq := by
  induction close generalizing a with
  | nil => rfl
  | cons tok close ih =>
    rw [ActiveSeq.pushClose]
    split
    · exact ih
    · rfl

/-! ## The stages of a step -/

theorem decodeThinking_within (within : Within top (total + 1) slack a) (tok : Token) (tags : TagTokens)
    (sched : SchedCtx) : Within top total slack (a.decodeThinking tok tags sched) := by
  have counted : Quiet a.consumeGenerationBudget (a.decodeThinking tok tags sched) :=
    .ite (.unchanged rfl) (.ite (.unchanged rfl) (.unchanged rfl))
  exact counted.within within.consume

theorem decodeStream_within (within : Within top total 1 a) (tok : Token) (request : RequestAnswers) :
    Within top total 1 (a.decodeStream tok request) := by
  have ended : Quiet (a.stream (a.tokenEvent tok) request).1 { (a.stream (a.tokenEvent tok) request).1 with
      finished := a.finished || !(a.stream (a.tokenEvent tok) request).2 } := .mayEnd rfl rfl
  exact .ite within (ended.within (within.stream _ request))

variable [GrammarState Grammar]

theorem decodeContentLoop_within (within : Within top total 0 a) (sched : SchedCtx) (snapshots : SnapshotAnswers) :
    Within top total 0 (a.decodeContentLoop sched snapshots) :=
  .ite (within.rollbackOrStop (Nat.zero_le 1) _ _ sched snapshots) within

theorem decodeProse_within (within : Within top total 0 a) (sched : SchedCtx) (snapshots : SnapshotAnswers) :
    Within top total 0 (a.decodeProse sched snapshots) := by
  have counted := countProse_quiet.within within
  exact .ite (.ite (counted.rollbackOrStop (Nat.zero_le 1) _ _ sched snapshots) counted) within

theorem handleContentToken_within (within : Within top (total + 1) 0 a) (sched : SchedCtx) (answers : DecodeAnswers) :
    Within top total 0 (a.handleContentToken sched answers) := by
  have counted : Quiet a.consumeGenerationBudget a.consumeGenerationBudget.startContent.countContent := .unchanged rfl
  have capped := counted.trans (stopAtContentCap_quiet sched)
  have cleared : Quiet (a.consumeGenerationBudget.startContent.countContent.stopAtContentCap sched)
      (a.consumeGenerationBudget.startContent.countContent.stopAtContentCap sched).clearThinkJustEnded := .unchanged rfl
  have ready := (capped.trans cleared).within within.consume
  exact decodeProse_within (decodeContentLoop_within ready sched _) sched _

theorem decodeCount_within (within : Within top (total + 1) 0 a) (tok : Token) (tags : TagTokens) (sched : SchedCtx)
    (answers : DecodeAnswers) : Within top total 0 (a.decodeCount tok tags sched answers) := by
  have advanced := (resetSkipCount_quiet.trans (advanceGrammar_quiet tok)).within within
  have counted : Within top total 0
      (if (a.resetSkipCount.advanceGrammar tok).think.insideThinking then
        (a.resetSkipCount.advanceGrammar tok).decodeThinking tok tags sched
      else (a.resetSkipCount.advanceGrammar tok).handleContentToken sched answers) :=
    .ite (decodeThinking_within advanced tok tags sched) (handleContentToken_within advanced sched answers)
  exact ((decodeSatisfyToolCall_quiet tok tags).trans (decodeToolStart_quiet tok tags)).within counted

theorem decodeToolEnd_within (within : Within top total 0 a) (tok : Token) (request : RequestAnswers) :
    Within top total 1 (a.decodeToolEnd tok request) := by
  have completes : Quiet (a.pushOutput tok) { a.pushOutput tok with
      tool := { (a.pushOutput tok).tool with toolCallCompleted := true } } := .unchanged rfl
  have streamed := (completes.within (within.push tok)).stream (ActiveSeq.tokenEvent { a.pushOutput tok with
    tool := { (a.pushOutput tok).tool with toolCallCompleted := true } } tok) request
  exact .ite ((leaveToolCall_quiet tok).within streamed) (.done streamed.reached rfl)

theorem decodeBudgetStop_within (within : Within top total 1 a) (sched : SchedCtx) (request : RequestAnswers) :
    Within top total 1 (a.decodeBudgetStop sched request) := by
  have closed : (a.emitGrammarClose request sched.levers.grammarBudgetClose).seq = a.seq := pushClose_seq request _
  refine .ite (.done ?_ rfl) within
  rw [closed]
  exact within.reached

theorem decodeFuzzy_within (within : Within top total 1 a) (sched : SchedCtx) (snapshots : SnapshotAnswers) :
    Within top total 1 (a.decodeFuzzy sched snapshots) := by
  refine .ite ?_ within
  split
  · exact within
  · exact within.rollbackOrStop (Nat.le_refl 1) _ _ sched snapshots

theorem emitContentToken_within (within : Within top total 0 a) (tok : Token) (sched : SchedCtx)
    (request : RequestAnswers) (answers : DecodeAnswers) :
    Within top total 1 (a.emitContentToken tok sched request answers) := by
  have recorded := ((updateToolParamState_quiet tok).trans (snapshotContent_quiet sched answers.boundary)).within
    (within.push tok)
  have budgeted := decodeBudgetStop_within (decodeStream_within recorded tok request) sched request
  exact decodeFuzzy_within (((decodeCeilingStop_quiet sched).trans decodeGrammarStop_quiet).within budgeted) sched _

theorem decodeKeep_within (within : Within top total 0 a) (tok : Token) (sched : SchedCtx) (request : RequestAnswers)
    (answers : DecodeAnswers) : Within top total 1 (a.decodeKeep tok sched request answers) := by
  have ended := (updateToolParamState_quiet tok).within (within.push tok)
  exact .ite (.ite ((dropEos_quiet sched).within within).recorded (.done ended.reached rfl))
    (emitContentToken_within within tok sched request answers)

def ActiveSeq.entersThinking (a : ActiveSeq Device Grammar) (tok : Token) (tags : TagTokens) : Prop :=
  a.think.insideThinking = false ∧ (tags.thinkStart = some tok ∨ tags.thinkEnd = some tok)

theorem processDecodedToken_within (within : Within top (total + 1) 0 a) (tok : Token)
    (logprobs : Option TokenLogprobs) (now : Nat) (tags : TagTokens) (sched : SchedCtx) (request : RequestAnswers)
    (answers : DecodeAnswers) (counted : ¬a.entersThinking tok tags) :
    Within top total 1 (a.processDecodedToken tok logprobs now tags sched request answers) := by
  have stamped : Quiet a { a with lastToken := tok, lastTokenTime := now } := .unchanged rfl
  have start := stamped.within within
  have content := decodeCount_within start tok tags sched answers
  have kept := (dropToolDemand_quiet.trans (pushLogprobs_quiet logprobs)).within content
  unfold ActiveSeq.processDecodedToken
  refine .ite (.done within.reached rfl) ?_
  rw [if_neg fun starts => counted ⟨starts.1, .inl starts.2⟩, if_neg fun ends => counted ⟨ends.1, .inr ends.2⟩]
  exact .ite (.done content.reached rfl) (.ite (decodeToolEnd_within kept tok request)
    (decodeKeep_within kept tok sched request answers))

/-! ## The ceiling

A token that is streamed ends a sequence that has reached the served length. -/

def BelowCeiling (maxSeqLen : Nat) (a : ActiveSeq Device Grammar) : Prop :=
  a.finished = false → seqlenForceStop a.seq.seqLen maxSeqLen = false

theorem seqlenForceStop_mono {low high maxSeqLen : Nat} (less : low ≤ high)
    (below : seqlenForceStop high maxSeqLen = false) : seqlenForceStop low maxSeqLen = false := by
  simp only [seqlenForceStop, Bool.and_eq_false_iff, bne_eq_false_iff_eq, decide_eq_false_iff_not] at below ⊢
  omega

omit [GrammarState Grammar] in
theorem decodeCeilingStop_below (sched : SchedCtx) :
    BelowCeiling sched.limits.maxSeqLen (a.decodeCeilingStop sched) := by
  unfold ActiveSeq.decodeCeilingStop
  split
  · intro unfinished
    cases unfinished
  · rename_i passes
    intro unfinished
    rw [unfinished] at passes
    simpa using passes

omit [GrammarState Grammar] in
theorem Quiet.below {maxSeqLen : Nat} (quiet : Quiet a b) (below : BelowCeiling maxSeqLen a) :
    BelowCeiling maxSeqLen b := by
  intro unfinished
  rw [quiet.seq]
  refine below ?_
  cases done : a.finished with
  | false => rfl
  | true => exact (quiet.finished done).symm.trans unfinished

theorem rollbackOrStop_below (guard : GuardStop) (minKeep : Nat) (sched : SchedCtx) (snapshots : SnapshotAnswers)
    {maxSeqLen : Nat} (below : BelowCeiling maxSeqLen a) :
    BelowCeiling maxSeqLen (a.rollbackOrStop guard minKeep sched snapshots) := by
  cases rollbackOrStop_cases a minKeep sched snapshots guard with
  | inl stopped =>
    rw [stopped]
    exact (stopFor_quiet guard).below below
  | inr done =>
    obtain ⟨keepLen, -, done⟩ := done
    rw [done]
    exact fun unfinished => seqlenForceStop_mono (Nat.sub_le _ _) (below unfinished)

theorem emitContentToken_below (tok : Token) (sched : SchedCtx) (request : RequestAnswers) (answers : DecodeAnswers) :
    BelowCeiling sched.limits.maxSeqLen (a.emitContentToken tok sched request answers) := by
  have stopped := decodeGrammarStop_quiet.below (decodeCeilingStop_below (a :=
    ((((a.pushOutput tok).updateToolParamState tok).snapshotContent sched answers.boundary).decodeStream tok
      request).decodeBudgetStop sched request) sched)
  unfold ActiveSeq.emitContentToken ActiveSeq.decodeFuzzy
  simp only
  split
  · split
    · exact stopped
    · exact rollbackOrStop_below _ _ sched _ stopped
  · exact stopped

theorem rollbackOrStop_request (guard : GuardStop) (minKeep : Nat) (sched : SchedCtx) (snapshots : SnapshotAnswers) :
    (a.rollbackOrStop guard minKeep sched snapshots).request = a.request := by
  cases rollbackOrStop_cases a minKeep sched snapshots guard with
  | inl stopped => rw [stopped]; rfl
  | inr done =>
    obtain ⟨keepLen, -, done⟩ := done
    rw [done]
    rfl

theorem decodeContentLoop_request (sched : SchedCtx) (snapshots : SnapshotAnswers) :
    (a.decodeContentLoop sched snapshots).request = a.request := by
  unfold ActiveSeq.decodeContentLoop
  split
  · exact rollbackOrStop_request _ _ sched snapshots
  · rfl

theorem decodeProse_request (sched : SchedCtx) (snapshots : SnapshotAnswers) :
    (a.decodeProse sched snapshots).request = a.request := by
  unfold ActiveSeq.decodeProse
  split
  · split
    · exact rollbackOrStop_request _ _ sched snapshots
    · rfl
  · rfl

theorem handleContentToken_request (sched : SchedCtx) (answers : DecodeAnswers) :
    (a.handleContentToken sched answers).request = a.request := by
  have counted : Quiet a.consumeGenerationBudget a.consumeGenerationBudget.startContent.countContent := .unchanged rfl
  have capped := consumeGenerationBudget_quiet.trans (counted.trans (stopAtContentCap_quiet sched))
  rw [ActiveSeq.handleContentToken, decodeProse_request, decodeContentLoop_request]
  exact capped.request

theorem decodeCount_request (tok : Token) (tags : TagTokens) (sched : SchedCtx) (answers : DecodeAnswers) :
    (a.decodeCount tok tags sched answers).request = a.request := by
  have advanced : Quiet a (a.resetSkipCount.advanceGrammar tok) :=
    resetSkipCount_quiet.trans (advanceGrammar_quiet tok)
  unfold ActiveSeq.decodeCount
  simp only
  rw [(decodeToolStart_quiet tok tags).request, (decodeSatisfyToolCall_quiet tok tags).request]
  split
  · rw [(decodeThinking_quiet tok tags sched).request, advanced.request]
  · rw [handleContentToken_request, advanced.request]

theorem processDecodedToken_below (tok : Token) (logprobs : Option TokenLogprobs) (now : Nat) (tags : TagTokens)
    (sched : SchedCtx) (request : RequestAnswers) (answers : DecodeAnswers) (counted : ¬a.entersThinking tok tags)
    (content : tok ∉ a.request.eosTokens) (inside : tags.toolCallEnd ≠ some tok) :
    BelowCeiling sched.limits.maxSeqLen (a.processDecodedToken tok logprobs now tags sched request answers) := by
  have ended (b : ActiveSeq Device Grammar) (finished : b.finished = true) :
      BelowCeiling sched.limits.maxSeqLen b := fun unfinished => by rw [finished] at unfinished; cases unfinished
  unfold ActiveSeq.processDecodedToken
  simp only
  split
  · exact ended _ rfl
  rw [if_neg fun starts => counted ⟨starts.1, .inl starts.2⟩, if_neg fun ends => counted ⟨ends.1, .inr ends.2⟩]
  split
  · exact ended _ rfl
  split
  · rename_i toolEnd
    simp only [ActiveSeq.atToolEnd, Bool.and_eq_true, beq_iff_eq] at toolEnd
    exact absurd toolEnd.2 inside
  · unfold ActiveSeq.decodeKeep
    have sameRequest := ((dropToolDemand_quiet.trans (pushLogprobs_quiet logprobs)).request).trans
      (decodeCount_request (a := { a with lastToken := tok, lastTokenTime := now }) tok tags sched answers)
    rw [sameRequest, if_neg content]
    exact emitContentToken_below tok sched request answers

end Metrale.Scheduler
