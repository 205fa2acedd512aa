import Metrale.Scheduler.TokenPaths

/-! # The budget of tokens (`active.rs`, `emit_step/token.rs`, `decode_logits_step/per_token.rs`)

Every sequence ends: a token spends some budget, or it is one of the few tags of thinking between two that do, and a
rollback, which gives budget back, is granted twice.  The output keeps within the budget as long as the token that
fills it is not one after which the length stop is skipped. -/

namespace Metrale.Scheduler

variable {Device Grammar : Type*} {a b c : ActiveSeq Device Grammar}

/-! ## What a stage records and spends -/

/-- At most `pushed` tokens are recorded, and at least `spent` tokens of budget are spent unless the sequence is
finished or rolled back. -/
structure Moves (pushed spent : Nat) (a b : ActiveSeq Device Grammar) : Prop where
  finished : a.finished = true → b.finished = true
  recorded : b.outputTokens.length ≤ a.outputTokens.length + pushed
  balance : b.finished = false →
    b.outputTokens.length + b.remaining + spent ≤ a.outputTokens.length + a.remaining + pushed
  spends : b.finished = false →
    b.rollbackCount = a.rollbackCount ∧ b.remaining + spent ≤ a.remaining ∨
      a.rollbackCount < b.rollbackCount ∧ b.rollbackCount ≤ rollbackResteerCap

theorem Quiet.moves (quiet : Quiet a b) : Moves 0 0 a b where
  finished := quiet.finished
  recorded := by rw [quiet.outputTokens]; exact Nat.le_refl _
  balance _ := by
    have less := quiet.remaining
    rw [quiet.outputTokens]
    omega
  spends _ := .inl ⟨quiet.rollbackCount, quiet.remaining⟩

namespace Moves

variable {pushed spent morePushed moreSpent : Nat}

theorem refl (a : ActiveSeq Device Grammar) : Moves 0 0 a a := (Quiet.refl a).moves

theorem trans (first : Moves pushed spent a b) (second : Moves morePushed moreSpent b c) :
    Moves (pushed + morePushed) (spent + moreSpent) a c where
  finished done := second.finished (first.finished done)
  recorded := by
    have early := first.recorded
    have late := second.recorded
    omega
  balance unfinished := by
    have before : b.finished = false := Bool.eq_false_iff.mpr fun done => by
      rw [second.finished done] at unfinished
      cases unfinished
    have early := first.balance before
    have late := second.balance unfinished
    omega
  spends unfinished := by
    have before : b.finished = false := Bool.eq_false_iff.mpr fun done => by
      rw [second.finished done] at unfinished
      cases unfinished
    have early := first.spends before
    have late := second.spends unfinished
    omega

theorem ite {condition : Prop} [Decidable condition] (left : Moves pushed spent a b) (right : Moves pushed spent a c) :
    Moves pushed spent a (if condition then b else c) := by
  split
  · exact left
  · exact right

theorem ending (recorded : b.outputTokens.length ≤ a.outputTokens.length + pushed) (finished : b.finished = true) :
    Moves pushed spent a b where
  finished _ := finished
  recorded
  balance unfinished := by rw [finished] at unfinished; cases unfinished
  spends unfinished := by rw [finished] at unfinished; cases unfinished

theorem push (a : ActiveSeq Device Grammar) (tok : Token) : Moves 1 0 a (a.pushOutput tok) where
  finished := id
  recorded := by simp [ActiveSeq.pushOutput]
  balance _ := by simp [ActiveSeq.pushOutput]; omega
  spends _ := .inl ⟨rfl, Nat.le_refl _⟩

theorem stream (a : ActiveSeq Device Grammar) (event : StreamEvent) (request : RequestAnswers) :
    Moves 0 0 a (a.stream event request).1 where
  finished := id
  recorded := Nat.le_refl _
  balance _ := Nat.le_refl _
  spends _ := .inl ⟨rfl, Nat.le_refl _⟩

theorem consume (a : ActiveSeq Device Grammar) : Moves 0 1 a a.consumeGenerationBudget := by
  rw [ActiveSeq.consumeGenerationBudget]
  split
  · exact .ending (Nat.le_refl _) rfl
  · next positive =>
    have spent : a.remaining - 1 + 1 = a.remaining := by omega
    refine ⟨id, Nat.le_refl _, fun _ => ?_, fun _ => .inl ⟨rfl, spent.le⟩⟩
    dsimp only
    omega

theorem rollbackOrStop [GrammarState Grammar] (a : ActiveSeq Device Grammar) (guard : GuardStop) (minKeep : Nat)
    (sched : SchedCtx) (snapshots : SnapshotAnswers) : Moves 0 0 a (a.rollbackOrStop guard minKeep sched snapshots) := by
  cases rollbackOrStop_cases a minKeep sched snapshots guard with
  | inl stopped =>
    rw [stopped]
    exact (stopFor_quiet guard).moves
  | inr done =>
    obtain ⟨keepLen, rolls, done⟩ := done
    have count := rolledBackTo_count keepLen (ringBehind a sched keepLen) rolls.underCap
    have kept : (rolledBackTo a keepLen (ringBehind a sched keepLen)).outputTokens.length = keepLen := by
      simp [rolledBackTo, applyRollback, rolls.within]
    have returned : (rolledBackTo a keepLen (ringBehind a sched keepLen)).remaining =
        a.remaining + (a.outputTokens.length - keepLen) := rfl
    have within := rolls.within
    have underCap := rolls.underCap
    rw [done]
    exact ⟨id, by omega, fun _ => by omega, fun _ => .inr (by omega)⟩

end Moves

/-! ## The close -/

def Closes [GrammarState Grammar] (sched : SchedCtx) (a b : ActiveSeq Device Grammar) : Prop :=
  b.finished = true ∧ ∃ close, b.outputTokens = a.outputTokens ++ close ∧
    close <+: a.closeTokens sched.levers.grammarBudgetClose

theorem pushClose_outputTokens (request : RequestAnswers) (close : List Token) (a : ActiveSeq Device Grammar) :
    ∃ sent, (ActiveSeq.pushClose request close a).outputTokens = a.outputTokens ++ sent ∧ sent <+: close := by
  induction close generalizing a with
  | nil => exact ⟨[], (List.append_nil _).symm, List.nil_prefix⟩
  | cons tok close ih =>
    rw [ActiveSeq.pushClose]
    split
    · obtain ⟨sent, recorded, first⟩ := ih ((a.pushOutput tok).stream (.token tok) request).1
      refine ⟨tok :: sent, ?_, List.cons_prefix_cons.mpr ⟨rfl, first⟩⟩
      rw [recorded]
      exact List.append_cons _ _ _ ▸ rfl
    · exact ⟨[tok], rfl, List.cons_prefix_cons.mpr ⟨rfl, List.nil_prefix⟩⟩

variable [GrammarState Grammar]

theorem closes_ended (sched : SchedCtx) (request : RequestAnswers) (a : ActiveSeq Device Grammar) :
    Closes sched a { a.emitGrammarClose request sched.levers.grammarBudgetClose with finished := true } :=
  ⟨rfl, pushClose_outputTokens request _ a⟩

theorem Closes.quiet {sched : SchedCtx} (closes : Closes sched a b) (quiet : Quiet b c) : Closes sched a c :=
  ⟨quiet.finished closes.1, by rw [quiet.outputTokens]; exact closes.2⟩

def Spends (sched : SchedCtx) (pushed spent : Nat) (a b : ActiveSeq Device Grammar) : Prop :=
  ∃ c, Moves pushed spent a c ∧ (b = c ∨ Closes sched c b)

section Spends

variable {sched : SchedCtx} {pushed spent morePushed moreSpent : Nat}

theorem Moves.asSpends (moves : Moves pushed spent a b) : Spends sched pushed spent a b := ⟨b, moves, .inl rfl⟩

theorem Moves.thenSpends (moves : Moves pushed spent a b) (outcome : Spends sched morePushed moreSpent b c) :
    Spends sched (pushed + morePushed) (spent + moreSpent) a c := by
  obtain ⟨last, later, closes⟩ := outcome
  exact ⟨last, moves.trans later, closes⟩

theorem Spends.ended (recorded : b.outputTokens.length ≤ a.outputTokens.length + pushed) (finished : b.finished = true) :
    Spends sched pushed spent a b := ⟨b, .ending recorded finished, .inl rfl⟩

theorem Spends.moves (outcome : Spends sched pushed spent a b) (unfinished : b.finished = false) : Moves pushed spent a b := by
  obtain ⟨last, moves, rfl | closes⟩ := outcome
  · exact moves
  · rw [closes.1] at unfinished
    cases unfinished

end Spends

/-! ## The speculative path -/

section Emit

variable (tok : Token) (logprobs : Option TokenLogprobs) (sched : SchedCtx) (request : RequestAnswers)

theorem emitPush_moves (a : ActiveSeq Device Grammar) : Moves 1 0 a (a.emitPush tok logprobs) := by
  have before : Quiet a ((((((a.resetSkipCount.satisfyToolCall tok).updateToolParamState tok).completeToolCall
      tok).resetProse tok).advanceGrammarOrDrop tok).pushLogprobs logprobs) :=
    (((((resetSkipCount_quiet.trans (satisfyToolCall_quiet tok)).trans (updateToolParamState_quiet tok)).trans
      (completeToolCall_quiet tok)).trans (resetProse_quiet tok)).trans (advanceGrammarOrDrop_quiet tok)).trans
      (pushLogprobs_quiet logprobs)
  exact (before.moves.trans (.push _ tok)).trans countPostThink_quiet.moves

omit [GrammarState Grammar] in
theorem emitThinking_moves (a : ActiveSeq Device Grammar) : Moves 0 1 a (a.emitThinking tok) := by
  have counted : Quiet a.consumeGenerationBudget (a.emitThinking tok) := .ite (.unchanged rfl) (.unchanged rfl)
  exact (Moves.consume a).trans counted.moves

omit [GrammarState Grammar] in
theorem emitContent_moves (a : ActiveSeq Device Grammar) : Moves 0 1 a (a.emitContent sched) := by
  have counted : Quiet a.consumeGenerationBudget a.consumeGenerationBudget.clearThinkJustEnded.countContent := .unchanged rfl
  have watched := ((counted.trans (stopAtContentCap_quiet sched)).trans (emitContentLoopStop_quiet sched)).trans
    (emitProse_quiet sched)
  exact (Moves.consume a).trans watched.moves

def ActiveSeq.emitCounted (a : ActiveSeq Device Grammar) : ActiveSeq Device Grammar :=
  (a.emitPush tok logprobs).emitCount tok sched

theorem emitCounted_moves (a : ActiveSeq Device Grammar) : Moves 1 1 a (a.emitCounted tok logprobs sched) :=
  (emitPush_moves tok logprobs a).trans (.ite (emitThinking_moves tok _) (emitContent_moves sched _))

theorem emitLengthStop_spent (a : ActiveSeq Device Grammar) : Spends sched 0 0 a (a.emitLengthStop sched request) := by
  rw [ActiveSeq.emitLengthStop]
  split
  · exact ⟨a, .refl a, .inr (closes_ended sched request a)⟩
  · exact (Moves.refl a).asSpends

theorem emitLengthStop_left (a : ActiveSeq Device Grammar) (unfinished : (a.emitLengthStop sched request).finished = false) :
    (a.emitLengthStop sched request).remaining ≠ 0 := by
  rw [ActiveSeq.emitLengthStop] at unfinished ⊢
  split at unfinished
  · cases unfinished
  · next budget =>
    rw [if_neg budget]
    intro spent
    exact budget (by simp [spent])

theorem emitStream_spent (a : ActiveSeq Device Grammar) : Spends sched 0 0 a (a.emitStream tok sched request) := by
  rw [ActiveSeq.emitStream]
  split
  · exact emitLengthStop_spent sched request a
  · dsimp only
    split
    · exact (Moves.stream a _ request).thenSpends (emitLengthStop_spent sched request _)
    · exact (Moves.ending (Nat.le_refl _) rfl).asSpends

theorem emitStream_left (a : ActiveSeq Device Grammar) (unfinished : (a.emitStream tok sched request).finished = false) :
    (a.emitStream tok sched request).remaining ≠ 0 := by
  rw [ActiveSeq.emitStream] at unfinished ⊢
  split at unfinished
  · next unsent =>
    rw [if_pos unsent]
    exact emitLengthStop_left sched request a unfinished
  · next sends =>
    rw [if_neg sends]
    dsimp only at unfinished ⊢
    split at unfinished
    · next sent =>
      rw [if_pos sent]
      exact emitLengthStop_left sched request _ unfinished
    · cases unfinished

end Emit

/-! ## The plain path -/

section Decode

variable (tok : Token) (logprobs : Option TokenLogprobs) (tags : TagTokens) (sched : SchedCtx) (request : RequestAnswers)
  (answers : DecodeAnswers)

omit [GrammarState Grammar] in
theorem decodeThinking_moves (a : ActiveSeq Device Grammar) : Moves 0 1 a (a.decodeThinking tok tags sched) := by
  have counted : Quiet a.consumeGenerationBudget (a.decodeThinking tok tags sched) :=
    .ite (.unchanged rfl) (.ite (.unchanged rfl) (.unchanged rfl))
  exact (Moves.consume a).trans counted.moves

theorem handleContentToken_moves (a : ActiveSeq Device Grammar) : Moves 0 1 a (a.handleContentToken sched answers) := by
  have counted : Quiet a.consumeGenerationBudget a.consumeGenerationBudget.startContent.countContent := .unchanged rfl
  have cleared : Quiet (a.consumeGenerationBudget.startContent.countContent.stopAtContentCap sched)
      (a.consumeGenerationBudget.startContent.countContent.stopAtContentCap sched).clearThinkJustEnded := .unchanged rfl
  have ready := (Moves.consume a).trans ((counted.trans (stopAtContentCap_quiet sched)).trans cleared).moves
  have looped (b : ActiveSeq Device Grammar) : Moves 0 0 b (b.decodeContentLoop sched answers.contentLoop) :=
    .ite (.rollbackOrStop b _ _ sched _) (.refl b)
  have prosed (b : ActiveSeq Device Grammar) : Moves 0 0 b (b.decodeProse sched answers.interToolProse) :=
    .ite (.ite (countProse_quiet.moves.trans (.rollbackOrStop _ _ _ sched _)) countProse_quiet.moves) (.refl b)
  exact (ready.trans (looped _)).trans (prosed _)

theorem decodeCount_moves (a : ActiveSeq Device Grammar) : Moves 0 1 a (a.decodeCount tok tags sched answers) := by
  have advanced : Quiet a (a.resetSkipCount.advanceGrammar tok) := resetSkipCount_quiet.trans (advanceGrammar_quiet tok)
  have counted : Moves 0 1 a
      (if (a.resetSkipCount.advanceGrammar tok).think.insideThinking then
        (a.resetSkipCount.advanceGrammar tok).decodeThinking tok tags sched
      else (a.resetSkipCount.advanceGrammar tok).handleContentToken sched answers) :=
    .ite (advanced.moves.trans (decodeThinking_moves tok tags sched _))
      (advanced.moves.trans (handleContentToken_moves sched answers _))
  exact counted.trans ((decodeSatisfyToolCall_quiet tok tags).trans (decodeToolStart_quiet tok tags)).moves

def ActiveSeq.decodeKept (a : ActiveSeq Device Grammar) (now : Nat) : ActiveSeq Device Grammar :=
  ({ a with lastToken := tok, lastTokenTime := now }.decodeCount tok tags sched answers).dropToolDemand.pushLogprobs logprobs

theorem decodeKept_moves (a : ActiveSeq Device Grammar) (now : Nat) :
    Moves 0 1 a (a.decodeKept tok logprobs tags sched answers now) := by
  have stamped : Quiet a { a with lastToken := tok, lastTokenTime := now } := .unchanged rfl
  exact (stamped.moves.trans (decodeCount_moves tok tags sched answers _)).trans
    (dropToolDemand_quiet.trans (pushLogprobs_quiet logprobs)).moves

theorem decodeToolEnd_moves (a : ActiveSeq Device Grammar) : Moves 1 0 a (a.decodeToolEnd tok request) := by
  have completes : Quiet (a.pushOutput tok) { a.pushOutput tok with
      tool := { (a.pushOutput tok).tool with toolCallCompleted := true } } := .unchanged rfl
  have streamed (event : StreamEvent) := ((Moves.push a tok).trans completes.moves).trans (.stream _ event request)
  exact .ite ((streamed _).trans (leaveToolCall_quiet tok).moves) (.ending (streamed (.token tok)).recorded rfl)

omit [GrammarState Grammar] in
theorem decodeStream_moves (a : ActiveSeq Device Grammar) : Moves 0 0 a (a.decodeStream tok request) := by
  have ended : Moves 0 0 a { (a.stream (a.tokenEvent tok) request).1 with
      finished := a.finished || !(a.stream (a.tokenEvent tok) request).2 } :=
    ⟨fun done => by simp [done], Nat.le_refl _, fun _ => Nat.le_refl _, fun _ => .inl ⟨rfl, Nat.le_refl _⟩⟩
  exact .ite (.refl a) ended

theorem decodeFuzzy_moves (a : ActiveSeq Device Grammar) (snapshots : SnapshotAnswers) :
    Moves 0 0 a (a.decodeFuzzy sched snapshots) := by
  refine .ite ?_ (.refl a)
  split
  · exact .refl a
  · exact .rollbackOrStop a _ _ sched snapshots

theorem decodeFuzzy_left (a : ActiveSeq Device Grammar) (snapshots : SnapshotAnswers) (budget : a.remaining ≠ 0)
    (unfinished : (a.decodeFuzzy sched snapshots).finished = false) : (a.decodeFuzzy sched snapshots).remaining ≠ 0 := by
  rw [ActiveSeq.decodeFuzzy] at unfinished ⊢
  split
  · next due =>
    rw [if_pos due] at unfinished
    split
    · exact budget
    · next found copies =>
      rw [copies] at unfinished
      cases rollbackOrStop_cases a (found.1 * 3) sched snapshots .fuzzyRepetition with
      | inl stopped =>
        dsimp only at unfinished
        rw [stopped] at unfinished
        cases unfinished
      | inr done =>
        obtain ⟨keepLen, -, done⟩ := done
        rw [done]
        exact fun spent => budget (Nat.eq_zero_of_add_eq_zero_right spent)
  · exact budget

def ActiveSeq.decodeSent (a : ActiveSeq Device Grammar) : ActiveSeq Device Grammar :=
  (((a.pushOutput tok).updateToolParamState tok).snapshotContent sched answers.boundary).decodeStream tok request

omit [GrammarState Grammar] in
theorem decodeSent_moves (a : ActiveSeq Device Grammar) : Moves 1 0 a (a.decodeSent tok sched request answers) :=
  ((Moves.push a tok).trans ((updateToolParamState_quiet tok).trans (snapshotContent_quiet sched answers.boundary)).moves).trans
    (decodeStream_moves tok request _)

theorem emitContentToken_eq (a : ActiveSeq Device Grammar) : a.emitContentToken tok sched request answers =
    ((((a.decodeSent tok sched request answers).decodeBudgetStop sched request).decodeCeilingStop
      sched).decodeGrammarStop).decodeFuzzy sched answers.fuzzy := rfl

theorem emitContentToken_spent (a : ActiveSeq Device Grammar) :
    Spends sched 1 0 a (a.emitContentToken tok sched request answers) ∧
    ((a.emitContentToken tok sched request answers).finished = false →
      (a.emitContentToken tok sched request answers).remaining ≠ 0) := by
  rw [emitContentToken_eq]
  generalize sent : a.decodeSent tok sched request answers = b
  have moves : Moves 1 0 a b := sent ▸ decodeSent_moves tok sched request answers a
  have stops (c : ActiveSeq Device Grammar) : Quiet c (c.decodeCeilingStop sched).decodeGrammarStop :=
    (decodeCeilingStop_quiet sched).trans decodeGrammarStop_quiet
  rw [ActiveSeq.decodeBudgetStop]
  split
  · have closes := (closes_ended sched request b).quiet (stops _)
    rw [decodeFuzzy_finished closes.1]
    exact ⟨⟨b, moves, .inr closes⟩, fun unfinished => by rw [closes.1] at unfinished; cases unfinished⟩
  · next budget =>
    refine ⟨((moves.trans (stops b).moves).trans (decodeFuzzy_moves sched _ answers.fuzzy)).asSpends, ?_⟩
    apply decodeFuzzy_left
    -- the two stops leave the budget
    rw [ActiveSeq.decodeGrammarStop, ActiveSeq.decodeCeilingStop]
    split <;> split <;> exact budget

theorem decodeKeep_spent (a : ActiveSeq Device Grammar) :
    Spends sched 1 0 a (a.decodeKeep tok sched request answers) ∧
    ((a.decodeKeep tok sched request answers).finished = false →
      (a.decodeKeep tok sched request answers).remaining ≠ 0 ∨ Quiet a (a.decodeKeep tok sched request answers)) := by
  rw [ActiveSeq.decodeKeep]
  split
  · split
    · have dropped := dropEos_quiet (a := a) sched
      refine ⟨⟨_, ?_, .inl rfl⟩, fun _ => .inr dropped⟩
      exact ⟨dropped.moves.finished, Nat.le_succ_of_le dropped.moves.recorded,
        fun live => Nat.le_succ_of_le (dropped.moves.balance live), dropped.moves.spends⟩
    · have pushed := (Moves.push a tok).trans (updateToolParamState_quiet tok).moves
      have ended : Moves 1 0 a { (a.pushOutput tok).updateToolParamState tok with finished := true } :=
        .ending pushed.recorded rfl
      exact ⟨ended.asSpends, fun unfinished => (Bool.false_ne_true unfinished.symm).elim⟩
  · obtain ⟨outcome, left⟩ := emitContentToken_spent tok sched request answers a
    exact ⟨outcome, fun unfinished => .inl (left unfinished)⟩

end Decode

/-! ## One token -/

/-- A tag of thinking outside thinking records and spends nothing, but there are only so many of them in a row. -/
structure Lingers (a b : ActiveSeq Device Grammar) : Prop where
  undelivered : Undelivered a b
  remaining : b.remaining = a.remaining
  outside : a.think.insideThinking = false
  waits : b.finished = false → b.think.insideThinking = true ∨
    b.think.insideThinking = false ∧ a.think.thinkSkipCount < b.think.thinkSkipCount ∧ b.think.thinkSkipCount < 50

omit [GrammarState Grammar] in
theorem strayThinkEnd_lingers (outside : a.think.insideThinking = false) : Lingers a a.strayThinkEnd := by
  refine ⟨strayThinkEnd_quiet.toUndelivered, rfl, outside, fun unfinished => .inr ⟨outside, Nat.lt_succ_self _, ?_⟩⟩
  simp only [ActiveSeq.strayThinkEnd, Bool.or_eq_false_iff, decide_eq_false_iff_not] at unfinished ⊢
  omega

/-- The stop token with which the speculative path fills the budget, but holds it back and looks at no length. -/
structure HeldBackAtEnd (limit : Nat) (a : ActiveSeq Device Grammar) (tok : Token) (logprobs : Option TokenLogprobs)
    (sched : SchedCtx) (request : RequestAnswers) : Prop where
  live : a.isCancelled request = false
  noHardStop : sched.limits.imStartHardStop ≠ some tok ∧
    ¬ (sched.levers.toolResponseStop = true ∧ sched.limits.toolResponseHardStop = some tok)
  counted : ¬ (a.think.insideThinking = false ∧ a.request.thinkStartToken = some tok) ∧
    ¬ (a.think.insideThinking = false ∧ a.request.thinkEndToken = some tok)
  stop : tok ∈ a.request.eosTokens
  held : (a.emitCounted tok logprobs sched).emitSuppressesEos sched = true
  unfinished : (a.emitCounted tok logprobs sched).finished = false
  spent : (a.emitCounted tok logprobs sched).remaining = 0
  full : limit ≤ a.outputTokens.length + 1

/-- The `</tool_call>` with which the plain path fills the budget, but keeps the turn going and looks at no length. -/
structure ToolEndAtEnd (limit : Nat) (a : ActiveSeq Device Grammar) (tok : Token) (logprobs : Option TokenLogprobs)
    (now : Nat) (tags : TagTokens) (sched : SchedCtx) (request : RequestAnswers) (answers : DecodeAnswers) : Prop where
  noHardStop : ¬ (sched.levers.toolResponseStop = true ∧ sched.limits.toolResponseHardStop = some tok)
  counted : ¬ (a.think.insideThinking = false ∧ tags.thinkStart = some tok) ∧
    ¬ (a.think.insideThinking = false ∧ tags.thinkEnd = some tok)
  noRunaway : ({ a with lastToken := tok, lastTokenTime := now }.decodeCount tok tags sched answers).runsAway tok tags = false
  ends : (a.decodeKept tok logprobs tags sched answers now).atToolEnd tok tags = true
  unfinished : (a.decodeKept tok logprobs tags sched answers now).finished = false
  goesOn : (a.decodeKept tok logprobs tags sched answers now).grammarState.isSome = true ∨
    (a.decodeKept tok logprobs tags sched answers now).request.toolsPresent = true
  taken : ∀ event, ((a.decodeKept tok logprobs tags sched answers now).stream event request).2 = true
  spent : (a.decodeKept tok logprobs tags sched answers now).remaining = 0
  full : limit ≤ (a.decodeKept tok logprobs tags sched answers now).outputTokens.length + 1

def InBudget (limit : Nat) (a : ActiveSeq Device Grammar) : Prop := a.outputTokens.length + a.remaining ≤ limit

/-- One token of either path.  `Skips` is what leaves a sequence unfinished with its budget used up. -/
inductive Steps (sched : SchedCtx) (limit : Nat) (Skips : Prop) (a b : ActiveSeq Device Grammar) : Prop where
  | lingers : Lingers a b → Steps sched limit Skips a b
  | spends : Spends sched 1 1 a b → (b.finished = false → b.remaining = 0 → limit ≤ b.outputTokens.length → Skips) →
      Steps sched limit Skips a b

variable {limit : Nat}

theorem emitToken_steps (tok : Token) (logprobs : Option TokenLogprobs) (sched : SchedCtx) (request : RequestAnswers)
    (a : ActiveSeq Device Grammar) : Steps sched limit (HeldBackAtEnd limit a tok logprobs sched request) a
      (a.emitToken tok logprobs sched request) := by
  have counted := emitCounted_moves tok logprobs sched a
  have pushed : (a.pushOutput tok).outputTokens.length ≤ a.outputTokens.length + 1 := by simp [ActiveSeq.pushOutput]
  rw [ActiveSeq.emitToken]
  split
  · exact .spends (Spends.ended (Nat.le_succ _) rfl) fun unfinished => (Bool.false_ne_true unfinished.symm).elim
  next live =>
  split
  · exact .spends (Spends.ended pushed rfl) fun unfinished => (Bool.false_ne_true unfinished.symm).elim
  next noStart =>
  split
  · exact .spends (Spends.ended pushed rfl) fun unfinished => (Bool.false_ne_true unfinished.symm).elim
  next noResponse =>
  split
  · next starts => exact .lingers ⟨⟨rfl, rfl, rfl, rfl⟩, rfl, starts.1, fun _ => .inl rfl⟩
  next noThink =>
  split
  · next ends => exact .lingers (strayThinkEnd_lingers ends.1)
  next noThinkEnd =>
  dsimp only
  split
  · next stop =>
    split
    · next held =>
      refine .spends counted.asSpends fun unfinished spent full => ?_
      exact ⟨Bool.eq_false_iff.mpr live, ⟨noStart, noResponse⟩, ⟨noThink, noThinkEnd⟩, stop, held, unfinished, spent,
        full.trans counted.recorded⟩
    · exact .spends (Spends.ended counted.recorded rfl) fun unfinished => (Bool.false_ne_true unfinished.symm).elim
  · refine .spends (counted.thenSpends (emitStream_spent tok sched request _)) fun unfinished spent => ?_
    exact absurd spent (emitStream_left tok sched request _ unfinished)

omit [GrammarState Grammar] in
theorem emit_taken (sink : ResponseSink) (event other : StreamEvent) (request : RequestAnswers) :
    (sink.emit event request).2 = (sink.emit other request).2 := by
  rw [ResponseSink.emit, ResponseSink.emit]
  split
  · rfl
  · split
    · rfl
    · rfl

/-- A turn goes on behind a `</tool_call>` that was taken, for the grammar or for more calls. -/
theorem decodeToolEnd_unfinished {tok : Token} {request : RequestAnswers}
    (unfinished : (a.decodeToolEnd tok request).finished = false) :
    (∀ event, (a.stream event request).2 = true) ∧ a.finished = false ∧
      (a.grammarState.isSome = true ∨ a.request.toolsPresent = true) ∧
      (a.decodeToolEnd tok request).remaining = a.remaining ∧
      (a.decodeToolEnd tok request).outputTokens.length = a.outputTokens.length + 1 := by
  rw [ActiveSeq.decodeToolEnd] at unfinished ⊢
  dsimp only at unfinished ⊢
  split at unfinished
  · next taken =>
    rw [if_pos taken]
    have state : a.finished = false ∧ (a.grammarState.isNone && !a.request.toolsPresent) = false :=
      Bool.or_eq_false_iff.mp unfinished
    refine ⟨fun event => (emit_taken a.sink event _ request).trans taken, state.1, ?_, rfl, ?_⟩
    · cases grammar : a.grammarState with
      | none =>
        rw [grammar] at state
        exact .inr (by simpa using state.2)
      | some => exact .inl rfl
    · simp [ActiveSeq.leaveToolCall, ActiveSeq.feedGrammar, ActiveSeq.stream, ActiveSeq.pushOutput]
  · cases unfinished

theorem processDecodedToken_steps (tok : Token) (logprobs : Option TokenLogprobs) (now : Nat) (tags : TagTokens)
    (sched : SchedCtx) (request : RequestAnswers) (answers : DecodeAnswers) (a : ActiveSeq Device Grammar)
    (inBudget : InBudget limit a) :
    Steps sched limit (ToolEndAtEnd limit a tok logprobs now tags sched request answers) a
      (a.processDecodedToken tok logprobs now tags sched request answers) := by
  have kept := decodeKept_moves tok logprobs tags sched answers a now
  have pushed : (a.pushOutput tok).outputTokens.length ≤ a.outputTokens.length + 1 := by simp [ActiveSeq.pushOutput]
  rw [ActiveSeq.processDecodedToken]
  dsimp only
  split
  · exact .spends (Spends.ended pushed rfl) fun unfinished => (Bool.false_ne_true unfinished.symm).elim
  next noResponse =>
  split
  · next starts => exact .lingers ⟨⟨rfl, rfl, rfl, rfl⟩, rfl, starts.1, fun _ => .inl rfl⟩
  next noThink =>
  split
  · next ends =>
    have stray := strayThinkEnd_lingers (a := { a with lastToken := tok, lastTokenTime := now }) ends.1
    exact .lingers ⟨⟨rfl, rfl, rfl, rfl⟩, rfl, ends.1, stray.waits⟩
  next noThinkEnd =>
  split
  · have stamped : Quiet a { a with lastToken := tok, lastTokenTime := now } := .unchanged rfl
    have counted := (stamped.moves.trans (decodeCount_moves tok tags sched answers _)).recorded
    refine .spends (Spends.ended ?_ rfl) fun unfinished => (Bool.false_ne_true unfinished.symm).elim
    simp only [ActiveSeq.stopRunaway, ActiveSeq.feedGrammar, ActiveSeq.pushOutput, List.length_append, List.length_singleton]
    omega
  next noRunaway =>
  change Steps sched limit _ a (if (a.decodeKept tok logprobs tags sched answers now).atToolEnd tok tags then
    (a.decodeKept tok logprobs tags sched answers now).decodeToolEnd tok request
    else (a.decodeKept tok logprobs tags sched answers now).decodeKeep tok sched request answers)
  split
  · next ends =>
    refine .spends (kept.trans (decodeToolEnd_moves tok request _)).asSpends fun unfinished spent full => ?_
    obtain ⟨taken, live, goesOn, budget, recorded⟩ := decodeToolEnd_unfinished unfinished
    exact ⟨noResponse, ⟨noThink, noThinkEnd⟩, Bool.eq_false_iff.mpr noRunaway, ends, live, goesOn, taken, budget ▸ spent,
      full.trans recorded.le⟩
  · obtain ⟨outcome, left⟩ := decodeKeep_spent tok sched request answers (a.decodeKept tok logprobs tags sched answers now)
    refine .spends (kept.thenSpends outcome) fun unfinished spent full => ?_
    cases left unfinished with
    | inl budget => exact absurd spent budget
    | inr dropped =>
      -- a stop token that is dropped leaves a token unrecorded
      have balance := (kept.trans dropped.moves).balance unfinished
      rw [InBudget] at inBudget
      omega

/-! ## Runs -/

def ActiveSeq.patience (a : ActiveSeq Device Grammar) : Nat :=
  if a.think.insideThinking then 0 else 51 + (50 - a.think.thinkSkipCount)

/-- It falls with every token, and bounds how many there are. -/
def ActiveSeq.potential (limit : Nat) (a : ActiveSeq Device Grammar) : Nat :=
  (rollbackResteerCap - a.rollbackCount) * (102 * (limit + 1)) + 102 * a.remaining + a.patience

omit [GrammarState Grammar] in
theorem patience_le (a : ActiveSeq Device Grammar) : a.patience ≤ 101 := by
  rw [ActiveSeq.patience]
  split
  · omega
  · omega

omit [GrammarState Grammar] in
theorem Lingers.potential_lt (lingers : Lingers a b) (goesOn : b.finished = false) : b.potential limit < a.potential limit := by
  have patience : b.patience < a.patience := by
    rw [ActiveSeq.patience, ActiveSeq.patience, lingers.outside]
    rcases lingers.waits goesOn with thinks | ⟨outside, more, few⟩
    · rw [if_pos thinks, if_neg Bool.false_ne_true]
      omega
    · simp only [outside, Bool.false_eq_true, if_false]
      omega
  rw [ActiveSeq.potential, ActiveSeq.potential, lingers.undelivered.rollbackCount, lingers.remaining]
  omega

omit [GrammarState Grammar] in
theorem Moves.potential_lt (moves : Moves 1 1 a b) (inBudget : InBudget limit b) (goesOn : b.finished = false) :
    b.potential limit < a.potential limit := by
  have patience := patience_le b
  rw [InBudget] at inBudget
  rw [ActiveSeq.potential, ActiveSeq.potential]
  rcases moves.spends goesOn with ⟨same, spent⟩ | ⟨more, few⟩
  · rw [same]
    omega
  · -- a rollback is worth more than any budget
    have granted : rollbackResteerCap - b.rollbackCount + 1 ≤ rollbackResteerCap - a.rollbackCount := by omega
    have worth := Nat.mul_le_mul_right (102 * (limit + 1)) granted
    rw [Nat.add_mul] at worth
    omega

variable {sched : SchedCtx} {Skips : Prop}

theorem Steps.inBudget (steps : Steps sched limit Skips a b) (inBudget : InBudget limit a) (goesOn : b.finished = false) :
    InBudget limit b := by
  rw [InBudget] at inBudget ⊢
  cases steps with
  | lingers lingers => rwa [lingers.undelivered.outputTokens, lingers.remaining]
  | spends outcome =>
    have balance := (outcome.moves goesOn).balance goesOn
    omega

theorem Steps.potential_lt (steps : Steps sched limit Skips a b) (inBudget : InBudget limit a) (goesOn : b.finished = false) :
    b.potential limit < a.potential limit := by
  have later := steps.inBudget inBudget goesOn
  cases steps with
  | lingers lingers => exact lingers.potential_lt goesOn
  | spends outcome => exact (outcome.moves goesOn).potential_lt later goesOn

structure Admitted (limit : Nat) (a : ActiveSeq Device Grammar) : Prop where
  inBudget : InBudget limit a
  room : a.finished = false → a.remaining = 0 → a.outputTokens.length < limit

/-- The output keeps within the limit, but for the tokens that close the grammar of a sequence that is over. -/
def WithinLimit (sched : SchedCtx) (limit : Nat) (a : ActiveSeq Device Grammar) : Prop :=
  ∃ kept close, a.outputTokens = kept ++ close ∧ kept.length ≤ limit ∧
    (close ≠ [] → a.finished = true ∧ ∃ c : ActiveSeq Device Grammar, c.outputTokens = kept ∧
      close <+: c.closeTokens sched.levers.grammarBudgetClose)

theorem withinLimit_of_length (within : a.outputTokens.length ≤ limit) : WithinLimit sched limit a :=
  ⟨a.outputTokens, [], (List.append_nil _).symm, within, fun some => absurd rfl some⟩

theorem Steps.withinLimit (steps : Steps sched limit Skips a b) (admitted : Admitted limit a) (unfinished : a.finished = false) :
    WithinLimit sched limit b := by
  have inBudget := admitted.inBudget
  have room := admitted.room unfinished
  rw [InBudget] at inBudget
  cases steps with
  | lingers lingers =>
    apply withinLimit_of_length
    rw [lingers.undelivered.outputTokens]
    omega
  | spends outcome =>
    obtain ⟨c, moves, closed⟩ := outcome
    have recorded := moves.recorded
    have within : c.outputTokens.length ≤ limit := by omega
    cases closed with
    | inl same => exact withinLimit_of_length (same ▸ within)
    | inr closes =>
      obtain ⟨finished, close, output, first⟩ := closes
      exact ⟨c.outputTokens, close, output, within, fun _ => ⟨finished, c, rfl, first⟩⟩

theorem Steps.admitted (steps : Steps sched limit Skips a b) (admitted : Admitted limit a) (unfinished : a.finished = false)
    (goesOn : b.finished = false) (stops : ¬ Skips) : Admitted limit b := by
  refine ⟨steps.inBudget admitted.inBudget goesOn, fun _ spent => ?_⟩
  cases steps with
  | lingers lingers =>
    rw [lingers.undelivered.outputTokens]
    exact admitted.room unfinished (lingers.remaining ▸ spent)
  | spends outcome skips => exact Nat.lt_of_not_le fun full => stops (skips goesOn spent full)

structure PathInput (Device : Type*) where
  speculative : Bool
  input : TokenInput Device

def ActiveSeq.process (tags : TagTokens) (sched : SchedCtx) (a : ActiveSeq Device Grammar) (next : PathInput Device) :
    ActiveSeq Device Grammar :=
  if a.finished then a
  else if next.speculative then a.emitInput sched next.input
  else a.decodeInput tags sched next.input

def SkipsLengthStop (limit : Nat) (tags : TagTokens) (sched : SchedCtx) (a : ActiveSeq Device Grammar) (next : PathInput Device) :
    Prop :=
  if next.speculative then
    HeldBackAtEnd limit (a.advanced next.input) next.input.tok next.input.logprobs sched next.input.request
  else
    ToolEndAtEnd limit (a.advanced next.input) next.input.tok next.input.logprobs next.input.now tags sched
      next.input.request next.input.answers

theorem process_steps (tags : TagTokens) (sched : SchedCtx) (next : PathInput Device) (unfinished : a.finished = false)
    (inBudget : InBudget limit a) :
    Steps sched limit (SkipsLengthStop limit tags sched a next) a (a.process tags sched next) := by
  have same : Steps sched limit (SkipsLengthStop limit tags sched a next) (a.advanced next.input) (a.process tags sched next) := by
    rw [ActiveSeq.process, unfinished, if_neg Bool.false_ne_true, SkipsLengthStop]
    split
    · exact emitToken_steps _ _ sched _ _
    · exact processDecodedToken_steps _ _ _ tags sched _ _ _ inBudget
  -- what the model does in between is no part of the budget
  have advanced : Moves 0 0 a (a.advanced next.input) :=
    ⟨id, Nat.le_refl _, fun _ => Nat.le_refl _, fun _ => .inl ⟨rfl, Nat.le_refl _⟩⟩
  cases same with
  | lingers lingers =>
    obtain ⟨outputTokens, sink, cancelFlag, rollbackCount⟩ := lingers.undelivered
    exact .lingers ⟨⟨outputTokens, sink, cancelFlag, rollbackCount⟩, lingers.remaining, lingers.outside, lingers.waits⟩
  | spends outcome skips => exact .spends (advanced.thenSpends outcome) skips

def ActiveSeq.after (tags : TagTokens) (sched : SchedCtx) (a : ActiveSeq Device Grammar) (stream : Nat → PathInput Device) :
    Nat → ActiveSeq Device Grammar
  | 0 => a
  | n + 1 => (a.after tags sched stream n).process tags sched (stream n)

theorem process_finished (tags : TagTokens) (sched : SchedCtx) (next : PathInput Device) (finished : a.finished = true) :
    a.process tags sched next = a := by
  rw [ActiveSeq.process, if_pos finished]

theorem after_potential (tags : TagTokens) (sched : SchedCtx) (stream : Nat → PathInput Device) (inBudget : InBudget limit a)
    (n : Nat) (goesOn : (a.after tags sched stream n).finished = false) :
    InBudget limit (a.after tags sched stream n) ∧
      (a.after tags sched stream n).potential limit + n ≤ a.potential limit := by
  induction n with
  | zero => exact ⟨inBudget, Nat.le_refl _⟩
  | succ n ih =>
    have before : (a.after tags sched stream n).finished = false := Bool.eq_false_iff.mpr fun finished => by
      rw [ActiveSeq.after, process_finished tags sched _ finished, finished] at goesOn
      cases goesOn
    obtain ⟨earlier, falls⟩ := ih before
    have steps := process_steps tags sched (stream n) before earlier
    have less := steps.potential_lt earlier goesOn
    rw [ActiveSeq.after]
    exact ⟨steps.inBudget earlier goesOn, by omega⟩

/-- Every sequence ends, and in a run that skips the length stop at no token that fills the budget the output keeps within
it, but for the tokens that close a grammar. -/
theorem budget_stops (tags : TagTokens) (sched : SchedCtx) (limit : Nat) (a : ActiveSeq Device Grammar)
    (admitted : Admitted limit a) (stream : Nat → PathInput Device) :
    (∃ n, (a.after tags sched stream n).finished = true) ∧
    ((∀ n, (a.after tags sched stream n).finished = false →
        ¬ SkipsLengthStop limit tags sched (a.after tags sched stream n) (stream n)) →
      ∀ n, WithinLimit sched limit (a.after tags sched stream n)) := by
  constructor
  · by_contra endless
    rw [not_exists] at endless
    have goesOn := Bool.eq_false_iff.mpr (endless (a.potential limit + 1))
    have spent := (after_potential tags sched stream admitted.inBudget _ goesOn).2
    omega
  · intro stops n
    have start : WithinLimit sched limit a := withinLimit_of_length ((Nat.le_add_right _ _).trans admitted.inBudget)
    have invariant (n : Nat) : WithinLimit sched limit (a.after tags sched stream n) ∧
        ((a.after tags sched stream n).finished = false → Admitted limit (a.after tags sched stream n)) := by
      induction n with
      | zero => exact ⟨start, fun _ => admitted⟩
      | succ n ih =>
        obtain ⟨within, earlier⟩ := ih
        rw [ActiveSeq.after]
        cases live : (a.after tags sched stream n).finished with
        | true =>
          rw [process_finished tags sched _ live]
          exact ⟨within, earlier⟩
        | false =>
          have steps := process_steps tags sched (stream n) live (earlier live).inBudget
          exact ⟨steps.withinLimit (earlier live) live, fun goesOn => steps.admitted (earlier live) live goesOn (stops n live)⟩
    exact (invariant n).1

omit [GrammarState Grammar] in
theorem buildActiveSeq_admitted (p : PrefillInProgress Device Grammar) (route : FirstTokenRoute) (first : Token)
    (tags : TagTokens) (answers : RequestAnswers) (now cachedPromptTokens ringSlots : Nat) (some : 0 < p.maxTokens) :
    Admitted p.maxTokens (p.buildActiveSeq route first tags answers now cachedPromptTokens ringSlots) := by
  have budget : wrappingPred p.maxTokens = p.maxTokens - 1 := if_neg (Nat.pos_iff_ne_zero.mp some)
  have outputs : (p.buildActiveSeq route first tags answers now cachedPromptTokens ringSlots).outputTokens =
      if p.spontaneousThink first tags || p.maxTokens == 0 then [] else [first] := rfl
  have remaining : (p.buildActiveSeq route first tags answers now cachedPromptTokens ringSlots).remaining =
      if p.immediateFinish first tags then 0 else wrappingPred p.maxTokens := rfl
  have nonzero : (p.maxTokens == 0) = false := by simp; omega
  rw [nonzero, Bool.or_false] at outputs
  cases done : p.immediateFinish first tags with
  | true =>
    rw [done, if_pos rfl] at remaining
    refine ⟨?_, fun unfinished => ?_⟩
    · rw [InBudget, outputs, remaining]
      split
      · simp
      · exact some
    · exact absurd (done.symm.trans unfinished) (by decide)
  | false =>
    rw [done, if_neg Bool.false_ne_true, budget] at remaining
    constructor
    · rw [InBudget, outputs, remaining]
      split
      · simp
      · simp
        omega
    · intro _ spent
      rw [outputs]
      split
      · exact some
      · next spoken =>
        -- one token asked for is done with the first
        simp only [PrefillInProgress.immediateFinish, Bool.not_eq_true] at done spoken
        simp [spoken] at done
        omega

def PrefillInProgress.atLeastFive : PrefillInProgress Unit Empty :=
  { PrefillInProgress.plain 2 with request := { RequestParams.plain with minTokens := 5 } }

def ActiveSeq.atLeastFive : ActiveSeq Unit Empty :=
  PrefillInProgress.atLeastFive.buildActiveSeq .promoted 7 .plain .all 0 0 0

/-- On the speculative path first the one token, then the other over and over. -/
def firstThen (first rest : Token) (n : Nat) : PathInput Unit := ⟨true, .plain (if n = 0 then first else rest)⟩

/-- Two tokens of text end the request. -/
theorem budget_stops_text :
    ((∃ n, (ActiveSeq.atLeastFive.after .plain .quiet (firstThen 8 8) n).finished = true) ∧
      ((∀ n, (ActiveSeq.atLeastFive.after .plain .quiet (firstThen 8 8) n).finished = false →
          ¬ SkipsLengthStop 2 .plain .quiet (ActiveSeq.atLeastFive.after .plain .quiet (firstThen 8 8) n) (firstThen 8 8 n)) →
        ∀ n, WithinLimit .quiet 2 (ActiveSeq.atLeastFive.after .plain .quiet (firstThen 8 8) n))) ∧
    (ActiveSeq.atLeastFive.after .plain .quiet (firstThen 8 8) 1).outputTokens = [7, 8] ∧
    (ActiveSeq.atLeastFive.after .plain .quiet (firstThen 8 8) 1).finished = true :=
  ⟨budget_stops .plain .quiet 2 .atLeastFive (buildActiveSeq_admitted .atLeastFive _ _ _ _ _ _ _ (by decide)) (firstThen 8 8),
    by decide, by decide⟩

/-- A stop token that is held back fills the budget, and the next token is recorded beyond it. -/
theorem held_back_overruns : ¬ ∀ (tags : TagTokens) (sched : SchedCtx) (limit : Nat) (a : ActiveSeq Unit Empty),
    Admitted limit a → ∀ stream : Nat → PathInput Unit,
    (∃ n, (a.after tags sched stream n).finished = true) ∧ ∀ n, WithinLimit sched limit (a.after tags sched stream n) := by
  intro always
  have admitted : Admitted 2 ActiveSeq.atLeastFive :=
    buildActiveSeq_admitted .atLeastFive .promoted 7 .plain .all 0 0 0 (by decide)
  obtain ⟨kept, close, output, within, closed⟩ := (always .plain .quiet 2 .atLeastFive admitted (firstThen 3 8)).2 2
  have three : (ActiveSeq.atLeastFive.after .plain .quiet (firstThen 3 8) 2).outputTokens = [7, 3, 8] := by decide
  have lengths := congrArg List.length (three.symm.trans output)
  rw [List.length_append] at lengths
  cases close with
  | nil =>
    simp at lengths
    omega
  | cons tok close =>
    -- there is no grammar to close
    obtain ⟨-, c, -, first⟩ := closed (List.cons_ne_nil tok close)
    have none : c.closeTokens SchedCtx.quiet.levers.grammarBudgetClose = [] := by
      rw [ActiveSeq.closeTokens]
      cases c.grammarState with
      | none => simp
      | some grammar => exact grammar.elim
    rw [none] at first
    exact absurd (List.prefix_nil.mp first) (List.cons_ne_nil tok close)

end Metrale.Scheduler
