import Metrale.Scheduler.DecodedToken

/-! # What the stages of a token leave alone

Both token paths are sequences of stages.  Most of them neither record nor send anything and leave the sequence's
length; the module says so of each, and what the two exceptions, a rollback and a recorded token, do. -/

namespace Metrale.Scheduler

variable {Device Grammar : Type*} {a b c : ActiveSeq Device Grammar}

structure Undelivered (a b : ActiveSeq Device Grammar) : Prop where
  outputTokens : b.outputTokens = a.outputTokens
  sink : b.sink = a.sink
  cancelFlag : b.cancelFlag = a.cancelFlag
  rollbackCount : b.rollbackCount = a.rollbackCount

/-- A stage that delivers nothing, leaves the sequence's tokens, and gives no budget back. -/
structure Quiet (a b : ActiveSeq Device Grammar) : Prop extends Undelivered a b where
  request : b.request = a.request
  seq : b.seq = a.seq
  remaining : b.remaining ≤ a.remaining
  finished : a.finished = true → b.finished = true

def ActiveSeq.progress (a : ActiveSeq Device Grammar) :
    RequestParams × List Token × ResponseSink × Option CancelFlag × Nat × SequenceState Device :=
  (a.request, a.outputTokens, a.sink, a.cancelFlag, a.rollbackCount, a.seq)

namespace Undelivered

theorem refl (a : ActiveSeq Device Grammar) : Undelivered a a := ⟨rfl, rfl, rfl, rfl⟩

theorem trans (first : Undelivered a b) (second : Undelivered b c) : Undelivered a c where
  outputTokens := second.outputTokens.trans first.outputTokens
  sink := second.sink.trans first.sink
  cancelFlag := second.cancelFlag.trans first.cancelFlag
  rollbackCount := second.rollbackCount.trans first.rollbackCount

end Undelivered

namespace Quiet

theorem refl (a : ActiveSeq Device Grammar) : Quiet a a := ⟨.refl a, rfl, rfl, Nat.le_refl _, id⟩

theorem trans (first : Quiet a b) (second : Quiet b c) : Quiet a c where
  toUndelivered := first.toUndelivered.trans second.toUndelivered
  request := second.request.trans first.request
  seq := second.seq.trans first.seq
  remaining := second.remaining.trans first.remaining
  finished done := second.finished (first.finished done)

theorem ofProgress (same : b.progress = a.progress) (remaining : b.remaining ≤ a.remaining)
    (finished : a.finished = true → b.finished = true) : Quiet a b := by
  simp only [ActiveSeq.progress, Prod.mk.injEq] at same
  obtain ⟨request, outputTokens, sink, cancelFlag, rollbackCount, seq⟩ := same
  exact ⟨⟨outputTokens, sink, cancelFlag, rollbackCount⟩, request, seq, remaining, finished⟩

theorem unchanged (same : (b.progress, b.remaining, b.finished) = (a.progress, a.remaining, a.finished)) :
    Quiet a b := by
  simp only [Prod.mk.injEq] at same
  exact ofProgress same.1 same.2.1.le fun done => same.2.2.trans done

theorem ending (same : (b.progress, b.remaining) = (a.progress, a.remaining)) (finished : b.finished = true) :
    Quiet a b := by
  simp only [Prod.mk.injEq] at same
  exact ofProgress same.1 same.2.le fun _ => finished

theorem mayEnd {ends : Bool} (same : (b.progress, b.remaining) = (a.progress, a.remaining))
    (finished : b.finished = (a.finished || ends)) : Quiet a b := by
  simp only [Prod.mk.injEq] at same
  exact ofProgress same.1 same.2.le fun done => by rw [finished, done, Bool.true_or]

theorem ite {condition : Prop} [Decidable condition] (left : Quiet a b) (right : Quiet a c) :
    Quiet a (if condition then b else c) := by
  split
  · exact left
  · exact right

end Quiet

theorem consumeGenerationBudget_quiet : Quiet a a.consumeGenerationBudget :=
  .ite (.ending rfl rfl) (.ofProgress rfl (Nat.sub_le _ _) id)

theorem stopFor_quiet (guard : GuardStop) : Quiet a (a.stopFor guard) :=
  .ending rfl rfl

theorem strayThinkEnd_quiet : Quiet a a.strayThinkEnd :=
  .mayEnd rfl rfl

theorem resetSkipCount_quiet : Quiet a a.resetSkipCount := .unchanged rfl

theorem pushLogprobs_quiet (logprobs : Option TokenLogprobs) : Quiet a (a.pushLogprobs logprobs) :=
  .unchanged rfl

theorem toolBodyToken_quiet (tok : Token) : Quiet a (a.toolBodyToken tok) :=
  .ite (.mayEnd rfl rfl) (.ite (.mayEnd rfl rfl) (.mayEnd rfl rfl))

theorem updateToolParamState_quiet (tok : Token) : Quiet a (a.updateToolParamState tok) :=
  .ite (.refl a) (.ite (.unchanged rfl) (.ite (.unchanged rfl) (.ite (toolBodyToken_quiet tok) (.refl a))))

theorem stopAtContentCap_quiet (sched : SchedCtx) : Quiet a (a.stopAtContentCap sched) :=
  .ite (stopFor_quiet _) (.refl a)

/-! ## The speculative path -/

theorem satisfyToolCall_quiet (tok : Token) : Quiet a (a.satisfyToolCall tok) := .ite (.unchanged rfl) (.refl a)

theorem completeToolCall_quiet (tok : Token) : Quiet a (a.completeToolCall tok) := .ite (.unchanged rfl) (.refl a)

theorem resetProse_quiet (tok : Token) : Quiet a (a.resetProse tok) := .ite (.unchanged rfl) (.refl a)

theorem advanceGrammarOrDrop_quiet [GrammarState Grammar] (tok : Token) : Quiet a (a.advanceGrammarOrDrop tok) :=
  .ite (.refl a) (.unchanged rfl)

theorem countPostThink_quiet : Quiet a a.countPostThink := .ite (.unchanged rfl) (.refl a)

theorem emitThinking_quiet (tok : Token) : Quiet a (a.emitThinking tok) :=
  consumeGenerationBudget_quiet.trans (.ite (.unchanged rfl) (.unchanged rfl))

theorem emitContentLoopStop_quiet (sched : SchedCtx) : Quiet a (a.emitContentLoopStop sched) :=
  .ite (stopFor_quiet _) (.refl a)

theorem countProse_quiet : Quiet a a.countProse := .unchanged rfl

theorem emitProse_quiet (sched : SchedCtx) : Quiet a (a.emitProse sched) :=
  .ite (.ite (countProse_quiet.trans (stopFor_quiet _)) countProse_quiet) (.refl a)

theorem emitContent_quiet (sched : SchedCtx) : Quiet a (a.emitContent sched) := by
  have counted : Quiet a a.consumeGenerationBudget.clearThinkJustEnded.countContent :=
    consumeGenerationBudget_quiet.trans (.unchanged rfl)
  have capped := counted.trans (stopAtContentCap_quiet sched)
  exact (capped.trans (emitContentLoopStop_quiet sched)).trans (emitProse_quiet sched)

theorem emitCount_quiet (tok : Token) (sched : SchedCtx) : Quiet a (a.emitCount tok sched) :=
  .ite (emitThinking_quiet tok) (emitContent_quiet sched)

/-! ## The plain path -/

theorem decodeThinking_quiet (tok : Token) (tags : TagTokens) (sched : SchedCtx) :
    Quiet a (a.decodeThinking tok tags sched) :=
  consumeGenerationBudget_quiet.trans (.ite (.unchanged rfl) (.ite (.unchanged rfl) (.unchanged rfl)))

theorem feedGrammar_quiet [GrammarState Grammar] (tok : Token) : Quiet a (a.feedGrammar tok) := .unchanged rfl

theorem advanceGrammar_quiet [GrammarState Grammar] (tok : Token) : Quiet a (a.advanceGrammar tok) :=
  .ite (.refl a) (feedGrammar_quiet tok)

theorem decodeSatisfyToolCall_quiet (tok : Token) (tags : TagTokens) : Quiet a (a.decodeSatisfyToolCall tok tags) :=
  .ite (.unchanged rfl) (.refl a)

theorem decodeToolStart_quiet (tok : Token) (tags : TagTokens) : Quiet a (a.decodeToolStart tok tags) :=
  .ite (.unchanged rfl) (.refl a)

theorem dropToolDemand_quiet : Quiet a a.dropToolDemand := .ite (.unchanged rfl) (.refl a)

theorem leaveToolCall_quiet [GrammarState Grammar] (tok : Token) : Quiet a (a.leaveToolCall tok) :=
  .mayEnd rfl rfl

theorem snapshotContent_quiet (sched : SchedCtx) (snapshots : SnapshotAnswers) :
    Quiet a (a.snapshotContent sched snapshots) := by
  refine .ite (.refl a) (.ite (.refl a) ?_)
  split
  · refine .ite (.refl a) ?_
    split
    · exact .refl a
    · exact .unchanged rfl
  · exact .refl a

theorem decodeCeilingStop_quiet (sched : SchedCtx) : Quiet a (a.decodeCeilingStop sched) :=
  .ite (.ending rfl rfl) (.refl a)

theorem decodeGrammarStop_quiet [GrammarState Grammar] : Quiet a a.decodeGrammarStop :=
  .ite (.ending rfl rfl) (.refl a)

theorem dropEos_quiet [GrammarState Grammar] (sched : SchedCtx) : Quiet a (a.dropEos sched) :=
  .ite (.unchanged rfl) (.refl a)

/-! ## Rollbacks -/

section Rollbacks

variable [GrammarState Grammar] (a : ActiveSeq Device Grammar) (minKeep : Nat) (sched : SchedCtx)
  (snapshots : SnapshotAnswers)

/-- A rolled-back sequence, as `rollback_to_boundary` leaves it. -/
def rolledBackTo (a : ActiveSeq Device Grammar) (keepLen : Nat) (ring : SsmDecodeRing) : ActiveSeq Device Grammar :=
  { applyRollback a keepLen with
    rollbackCount := saturatingAdd a.rollbackCount 1
    ssmRollbackRing := ring }

/-- The ring of a sequence that was rolled back to `keepLen` tokens. -/
def ringBehind (a : ActiveSeq Device Grammar) (sched : SchedCtx) (keepLen : Nat) : SsmDecodeRing :=
  if sched.model.hasSsmLayers then a.ssmRollbackRing.truncateAfter keepLen else a.ssmRollbackRing

structure RollsBack (a : ActiveSeq Device Grammar) (keepLen : Nat) : Prop where
  some : 0 < keepLen
  within : keepLen ≤ a.outputTokens.length
  noFlag : a.cancelFlag = none
  underCap : a.rollbackCount < rollbackResteerCap

theorem lastIndex_lt {accepts : Nat → Bool} {bound index : Nat} (found : lastIndex accepts bound = some index) : index < bound := by
  induction bound with
  | zero => cases found
  | succ bound ih =>
    rw [lastIndex] at found
    split at found
    · cases found
      exact Nat.lt_succ_self _
    · exact Nat.lt_succ_of_lt (ih found)

omit [GrammarState Grammar] in
variable {a minKeep} in
theorem rollbackTarget_lt {index : Nat} {mask : List Bool} {model : ModelFacts}
    (target : rollbackTarget a minKeep mask model = .ok index) : index < a.outputTokens.length := by
  have below {accepts : Nat → Bool} (found : lastIndex accepts (a.outputTokens.length - minKeep) = some index) :
      index < a.outputTokens.length :=
    Nat.lt_of_lt_of_le (lastIndex_lt found) (Nat.sub_le _ _)
  unfold rollbackTarget at target
  split at target
  · split at target
    · cases target
    · split at target
      · next found =>
        cases target
        exact below found
      · split at target <;> cases target
  · split at target
    · next found =>
      cases target
      exact below found
    · cases target

/-- A call is declined and leaves the sequence as it is, or it keeps a part of the output. -/
theorem rollbackToBoundary_cases :
    (∃ reason, rollbackToBoundary a minKeep sched snapshots = (a, .fallback reason)) ∨
      ∃ keepLen, RollsBack a keepLen ∧ rollbackToBoundary a minKeep sched snapshots =
        (rolledBackTo a keepLen (ringBehind a sched keepLen), .rolledBack (a.outputTokens.length - keepLen)) := by
  unfold rollbackToBoundary
  split
  · exact .inl ⟨_, rfl⟩
  split
  · exact .inl ⟨_, rfl⟩
  rename_i unguarded
  split
  · exact .inl ⟨_, rfl⟩
  split
  · exact .inl ⟨_, rfl⟩
  rename_i underCap
  have noFlag : a.cancelFlag = none := Option.not_isSome_iff_eq_none.mp unguarded
  split
  · exact .inl ⟨_, rfl⟩
  split
  · exact .inl ⟨_, rfl⟩
  · next boundaryIdx target =>
    have rolls : RollsBack a (boundaryIdx + 1) :=
      ⟨Nat.succ_pos boundaryIdx, rollbackTarget_lt target, noFlag, Nat.lt_of_not_le underCap⟩
    unfold ringBehind
    cases recurrent : sched.model.hasSsmLayers with
    | false => exact .inr ⟨_, rolls, rfl⟩
    | true =>
      by_cases restored : snapshots.restored (boundaryIdx + 1) = true
      · exact .inr ⟨_, rolls, if_pos restored⟩
      · exact .inl ⟨_, if_neg restored⟩

theorem rollbackOrStop_cases (guard : GuardStop) :
    a.rollbackOrStop guard minKeep sched snapshots = a.stopFor guard ∨
      ∃ keepLen, RollsBack a keepLen ∧
        a.rollbackOrStop guard minKeep sched snapshots = rolledBackTo a keepLen (ringBehind a sched keepLen) := by
  unfold ActiveSeq.rollbackOrStop
  cases rollbackToBoundary_cases a minKeep sched snapshots with
  | inl declined =>
    obtain ⟨reason, declined⟩ := declined
    rw [declined]
    exact .inl rfl
  | inr done =>
    obtain ⟨keepLen, rolls, done⟩ := done
    rw [done]
    exact .inr ⟨keepLen, rolls, rfl⟩

variable {a} in
theorem rolledBackTo_count (keepLen : Nat) (ring : SsmDecodeRing) (underCap : a.rollbackCount < rollbackResteerCap) :
    (rolledBackTo a keepLen ring).rollbackCount = a.rollbackCount + 1 := by
  unfold rolledBackTo saturatingAdd rollbackResteerCap at *
  simp only
  omega

end Rollbacks

end Metrale.Scheduler
