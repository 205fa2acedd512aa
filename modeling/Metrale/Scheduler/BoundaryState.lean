import Metrale.Scheduler.MatcherState
import Metrale.Scheduler.Overcommit
import Metrale.Scheduler.TokenPaths

/-! # What a rollback brings back (`rollback.rs`, `rollback/rewind.rs`)

A rollback counts the tokens that leave the output, and takes as many from the sequence and as many steps from the
matcher.  It reaches the state behind the boundary token where every token since was counted alike by all three, and the
lists and flags that it leaves alone have not changed. -/

namespace Metrale.Scheduler

structure ThinkFlags where
  insideThinking : Bool
  forceEndThinking : Bool
  thinkForceClosed : Bool
  inCodeFence : Bool
  thinkEnded : Bool
  thinkJustEnded : Bool
deriving DecidableEq

structure ToolFlags where
  requireToolCall : Bool
  toolCallOpened : Bool
  insideToolBody : Bool
  toolCallCompleted : Bool
  insideParameterBody : Bool
deriving DecidableEq

def ThinkState.flags (think : ThinkState) : ThinkFlags :=
  ⟨think.insideThinking, think.forceEndThinking, think.thinkForceClosed, think.inCodeFence, think.thinkEnded, think.thinkJustEnded⟩

def ToolState.flags (tool : ToolState) : ToolFlags :=
  ⟨tool.requireToolCall, tool.toolCallOpened, tool.insideToolBody, tool.toolCallCompleted, tool.insideParameterBody⟩

structure BoundaryState (Grammar : Type*) where
  outputTokens : List Token
  tokens : List Token
  seqLen : Nat
  lastToken : Token
  logprobsData : List TokenLogprobs
  grammarState : Option Grammar
  think : ThinkFlags
  tool : ToolFlags
deriving DecidableEq

variable {Device Grammar : Type*} {a b c : ActiveSeq Device Grammar} {tok : Token} {sched : SchedCtx} {tags : TagTokens}
  {request : RequestAnswers} {logprobs : Option TokenLogprobs} {answers : DecodeAnswers} {input : TokenInput Device}

def ActiveSeq.boundaryState (a : ActiveSeq Device Grammar) : BoundaryState Grammar :=
  ⟨a.outputTokens, a.seq.tokens, a.seq.seqLen, a.lastToken, a.logprobsData, a.grammarState, a.think.flags, a.tool.flags⟩

def ActiveSeq.flags (a : ActiveSeq Device Grammar) : ThinkFlags × ToolFlags := (a.think.flags, a.tool.flags)

/-! ## What a token adds -/

def ActiveSeq.ledger (a : ActiveSeq Device Grammar) :
    List Token × SequenceState Device × Token × List TokenLogprobs × Option Grammar :=
  (a.outputTokens, a.seq, a.lastToken, a.logprobsData, a.grammarState)

theorem consumeGenerationBudget_ledger : a.consumeGenerationBudget.ledger = a.ledger := by
  rw [ActiveSeq.consumeGenerationBudget_eq]
  rfl

theorem decodeThinkLoop_ledger : (a.decodeThinkLoop sched).ledger = a.ledger := by
  unfold ActiveSeq.decodeThinkLoop
  split <;> rfl

theorem decodeThinking_ledger : (a.decodeThinking tok tags sched).ledger = a.ledger := by
  unfold ActiveSeq.decodeThinking
  rw [← consumeGenerationBudget_ledger (a := a)]
  dsimp only
  split
  · rfl
  · exact decodeThinkLoop_ledger

theorem decodeSatisfyToolCall_ledger : (a.decodeSatisfyToolCall tok tags).ledger = a.ledger := by
  unfold ActiveSeq.decodeSatisfyToolCall
  split <;> rfl

theorem decodeToolStart_ledger : (a.decodeToolStart tok tags).ledger = a.ledger := by
  unfold ActiveSeq.decodeToolStart
  split <;> rfl

theorem dropToolDemand_ledger : a.dropToolDemand.ledger = a.ledger := by
  unfold ActiveSeq.dropToolDemand
  split <;> rfl

theorem updateToolParamState_ledger : (a.updateToolParamState tok).ledger = a.ledger := by
  unfold ActiveSeq.updateToolParamState ActiveSeq.toolBodyToken
  dsimp only
  split_ifs <;> rfl

theorem snapshotContent_ledger (snapshots : SnapshotAnswers) : (a.snapshotContent sched snapshots).ledger = a.ledger := by
  unfold ActiveSeq.snapshotContent snapshotBoundaryIfSsm
  repeat' split
  all_goals rfl

theorem decodeStream_ledger : (a.decodeStream tok request).ledger = a.ledger := by
  unfold ActiveSeq.decodeStream
  split <;> rfl

theorem decodeCeilingStop_ledger : (a.decodeCeilingStop sched).ledger = a.ledger := by
  unfold ActiveSeq.decodeCeilingStop
  split <;> rfl

section Steps

variable [GrammarState Grammar]

theorem decodeGrammarStop_ledger : a.decodeGrammarStop.ledger = a.ledger := by
  unfold ActiveSeq.decodeGrammarStop
  split <;> rfl

theorem decodeCount_thinking (inside : a.think.insideThinking = true) : (a.decodeCount tok tags sched answers).ledger = a.ledger := by
  rw [decodeCount_inside inside, decodeToolStart_ledger, decodeSatisfyToolCall_ledger, decodeThinking_ledger]
  rfl

/-- The content watchdogs roll back before the token is recorded; here they do not fire. -/
theorem decodeCount_content (outside : a.think.insideThinking = false)
    (noLoop : (a.countContent.contentLoopDue sched && a.countContent.contentLoops sched) = false) (noProse : a.proseFires sched = false) :
    a.decodeCount tok tags sched answers =
      ((((a.resetSkipCount.feedGrammar tok).contentForm sched).startContent).decodeSatisfyToolCall tok tags).decodeToolStart tok tags := by
  have stays : ¬ a.resetSkipCount.think.insideThinking = true := by simp [ActiveSeq.resetSkipCount, outside]
  have still : ¬ (a.resetSkipCount.feedGrammar tok).think.insideThinking = true := stays
  unfold ActiveSeq.decodeCount ActiveSeq.advanceGrammar
  simp only [if_neg stays, if_neg still]
  rw [ActiveSeq.handleContentToken_eq]
  · exact noLoop
  · intro fires
    exact absurd (fires.symm.trans noProse) Bool.noConfusion

omit [GrammarState Grammar] in
theorem toolTags_outside (outside : a.think.insideThinking = false) :
    ((a.decodeSatisfyToolCall tok tags).decodeToolStart tok tags).think.insideThinking = false := by
  unfold ActiveSeq.decodeToolStart ActiveSeq.decodeSatisfyToolCall
  split_ifs <;> exact outside

/-- What the matcher makes of a token: a `</tool_call>` is fed to it twice. -/
def ActiveSeq.fedGrammar (a : ActiveSeq Device Grammar) (tok : Token) (tags : TagTokens) (grammar : Grammar) : Grammar :=
  if a.think.insideThinking then grammar
  else
    let fed := (GrammarState.acceptToken grammar tok).1
    if tags.toolCallEnd = some tok then (GrammarState.acceptToken fed tok).1 else fed

structure ActiveSeq.Counted (a : ActiveSeq Device Grammar) (input : TokenInput Device) (tags : TagTokens) (sched : SchedCtx) : Prop where
  /-- The model was fed with the token before. -/
  feeds : Fed a (a.advanced input)
  /-- A tag of thinking outside thinking leaves no output. -/
  kept : ¬ a.entersThinking input.tok tags
  /-- Nor does a stop token that is held back. -/
  content : input.tok ∉ a.request.eosTokens
  /-- No probabilities were asked for. -/
  unrecorded : input.logprobs = none
  /-- The watchdogs that roll back before the token is recorded do not fire. -/
  noLoop : a.think.insideThinking = false → (a.countContent.contentLoopDue sched && a.countContent.contentLoops sched) = false
  noProse : a.think.insideThinking = false → a.proseFires sched = false
  /-- The matcher records one step. -/
  step : ∀ grammar, a.grammarState = some grammar →
    GrammarState.numHistorySteps (a.fedGrammar input.tok tags grammar) = GrammarState.numHistorySteps grammar + 1

def StepsBack (n : Nat) : Option Grammar → Option Grammar → Prop
  | none, none => True
  | some later, some earlier =>
    GrammarState.numHistorySteps later = GrammarState.numHistorySteps earlier + n ∧ GrammarState.rollback later n = earlier
  | _, _ => False

theorem fedGrammar_back [LawfulGrammarState Grammar] (counted : a.Counted input tags sched) :
    StepsBack 1 (a.grammarState.map (a.fedGrammar input.tok tags)) a.grammarState := by
  cases armed : a.grammarState with
  | none => exact trivial
  | some grammar =>
    have one := counted.step grammar armed
    refine ⟨one, ?_⟩
    dsimp only [ActiveSeq.fedGrammar] at one ⊢
    split at one
    · omega
    next outside =>
    rw [if_neg outside]
    have first := LawfulGrammarState.acceptToken_steps grammar input.tok
    split at one
    · next closes =>
      -- Of the two feeds of a `</tool_call>` one recorded a step.
      rw [if_pos closes]
      have second := LawfulGrammarState.acceptToken_steps (GrammarState.acceptToken grammar input.tok).1 input.tok
      rcases first with same | ⟨counts, back⟩
      · rw [same] at one second ⊢
        rcases second with same | ⟨counts, back⟩
        · rw [same] at one
          omega
        · exact back
      · rcases second with same | ⟨countsAgain, -⟩
        · rw [same]
          exact back
        · omega
    · next content =>
      rw [if_neg content]
      rcases first with same | ⟨-, back⟩
      · rw [same] at one
        omega
      · exact back

structure Added (a b : ActiveSeq Device Grammar) (tok : Token) : Prop where
  outputTokens : b.outputTokens = a.outputTokens ++ [tok]
  tokens : b.seq.tokens = a.seq.tokens ++ [a.lastToken]
  seqLen : b.seq.seqLen = a.seq.seqLen + 1
  lastToken : b.lastToken = tok
  logprobsData : b.logprobsData = a.logprobsData
  grammarState : StepsBack 1 b.grammarState a.grammarState

def ActiveSeq.asked (tags : TagTokens) (sched : SchedCtx) (a : ActiveSeq Device Grammar) (input : TokenInput Device) :
    ActiveSeq Device Grammar :=
  let recorded := ((a.advanced input).stamped input.tok input.now).recorded input.tok input.logprobs tags sched input.answers
  ((((recorded.snapshotContent sched input.answers.boundary).decodeStream input.tok input.request).decodeBudgetStop sched
    input.request).decodeCeilingStop sched).decodeGrammarStop

def ActiveSeq.keptBy (tags : TagTokens) (sched : SchedCtx) (a : ActiveSeq Device Grammar) (input : TokenInput Device) :
    ActiveSeq Device Grammar :=
  ((a.advanced input).stamped input.tok input.now).kept input.tok input.logprobs tags sched input.answers

omit [GrammarState Grammar] in
theorem pushLogprobs_none : (a.pushLogprobs none).ledger = a.ledger := by
  simp [ActiveSeq.pushLogprobs, ActiveSeq.ledger]

/-- Behind the tool tags the token is not recorded yet, and was fed to the matcher once, if at all. -/
theorem keptBy_ledger (counted : a.Counted input tags sched) : (a.keptBy tags sched input).ledger =
    (a.outputTokens, (a.advanced input).seq, input.tok, a.logprobsData,
      if a.think.insideThinking then a.grammarState
      else a.grammarState.map fun grammar => (GrammarState.acceptToken grammar input.tok).1) := by
  unfold ActiveSeq.keptBy ActiveSeq.kept
  rw [counted.unrecorded, pushLogprobs_none, dropToolDemand_ledger]
  cases inside : a.think.insideThinking with
  | true =>
    rw [decodeCount_thinking]
    · rfl
    · exact inside
  | false =>
    rw [decodeCount_content, decodeToolStart_ledger, decodeSatisfyToolCall_ledger]
    · rfl
    · exact inside
    · exact counted.noLoop inside
    · exact counted.noProse inside

theorem keptBy_outside (counted : a.Counted input tags sched) (outside : a.think.insideThinking = false) :
    (a.keptBy tags sched input).think.insideThinking = false := by
  have demand (b : ActiveSeq Device Grammar) : b.dropToolDemand.think = b.think := by
    unfold ActiveSeq.dropToolDemand
    split <;> rfl
  change ((((a.advanced input).stamped input.tok input.now).decodeCount input.tok tags sched
    input.answers).dropToolDemand).think.insideThinking = false
  rw [demand, decodeCount_content]
  · exact toolTags_outside outside
  · exact outside
  · exact counted.noLoop outside
  · exact counted.noProse outside

theorem Counted.unarmed (counted : a.Counted input tags sched) (inside : a.think.insideThinking = true) : a.grammarState = none := by
  cases armed : a.grammarState with
  | none => rfl
  | some grammar =>
    have one := counted.step grammar armed
    rw [ActiveSeq.fedGrammar, if_pos inside] at one
    omega

theorem keptBy_back [LawfulGrammarState Grammar] (counted : a.Counted input tags sched) :
    StepsBack 1 (if (a.keptBy tags sched input).atToolEnd input.tok tags then
        ((a.keptBy tags sched input).feedGrammar input.tok).grammarState
      else (a.keptBy tags sched input).grammarState) a.grammarState := by
  have known : (a.keptBy tags sched input).grammarState = if a.think.insideThinking then a.grammarState
      else a.grammarState.map fun grammar => (GrammarState.acceptToken grammar input.tok).1 :=
    congrArg (·.2.2.2.2) (keptBy_ledger counted)
  cases inside : a.think.insideThinking with
  | true =>
    rw [inside, if_pos rfl, Counted.unarmed counted inside] at known
    have fed : ((a.keptBy tags sched input).feedGrammar input.tok).grammarState = none := by
      rw [ActiveSeq.feedGrammar, known]
      rfl
    rw [fed, known, ite_self, Counted.unarmed counted inside]
    trivial
  | false =>
    rw [inside, if_neg Bool.false_ne_true] at known
    have back := fedGrammar_back counted
    unfold ActiveSeq.atToolEnd
    have fed : ((a.keptBy tags sched input).feedGrammar input.tok).grammarState =
        (a.keptBy tags sched input).grammarState.map fun grammar => (GrammarState.acceptToken grammar input.tok).1 := rfl
    rw [keptBy_outside counted inside, fed, known]
    convert back using 1
    by_cases closes : tags.toolCallEnd = some input.tok
    · rw [if_pos (by simp [closes]), Option.map_map]
      congr 1
      funext grammar
      simp [ActiveSeq.fedGrammar, inside, closes]
    · rw [if_neg (by simp [closes])]
      congr 1
      funext grammar
      simp [ActiveSeq.fedGrammar, inside, closes]

theorem keptBy_request (a : ActiveSeq Device Grammar) (input : TokenInput Device) :
    (a.keptBy tags sched input).request = a.request :=
  ((dropToolDemand_quiet.trans (pushLogprobs_quiet input.logprobs)).request).trans
    (decodeCount_request (a := (a.advanced input).stamped input.tok input.now) input.tok tags sched input.answers)

theorem asked_ledger (unfinished : (a.asked tags sched input).finished = false) :
    (a.asked tags sched input).ledger = ((a.keptBy tags sched input).pushOutput input.tok).ledger := by
  have stays : ((((((a.advanced input).stamped input.tok input.now).recorded input.tok input.logprobs tags sched
      input.answers).snapshotContent sched input.answers.boundary).decodeStream input.tok input.request).decodeBudgetStop sched
        input.request).finished = false := by
    by_contra ended
    rw [Bool.not_eq_false] at ended
    have still := (decodeGrammarStop_quiet).finished ((decodeCeilingStop_quiet sched).finished ended)
    exact absurd (still.symm.trans unfinished) Bool.noConfusion
  unfold ActiveSeq.asked
  rw [decodeGrammarStop_ledger, decodeCeilingStop_ledger]
  unfold ActiveSeq.decodeBudgetStop at stays ⊢
  split at stays
  · cases stays
  · next budget =>
    rw [if_neg budget, decodeStream_ledger, snapshotContent_ledger, ActiveSeq.recorded, updateToolParamState_ledger]
    rfl

theorem added_of_ledger [LawfulGrammarState Grammar] (counted : a.Counted input tags sched) {after : Option Grammar}
    (back : StepsBack 1 after a.grammarState)
    (ledger : b.ledger = (a.outputTokens ++ [input.tok], (a.advanced input).seq, input.tok, a.logprobsData, after)) :
    Added a b input.tok := by
  simp only [ActiveSeq.ledger, Prod.mk.injEq] at ledger
  obtain ⟨outputTokens, seq, lastToken, logprobsData, grammarState⟩ := ledger
  exact ⟨outputTokens, seq ▸ counted.feeds.tokens, seq ▸ counted.feeds.seqLen, lastToken, logprobsData, grammarState ▸ back⟩

theorem asked_added [LawfulGrammarState Grammar] (counted : a.Counted input tags sched)
    (content : (a.keptBy tags sched input).atToolEnd input.tok tags = false) (unfinished : (a.asked tags sched input).finished = false) :
    Added a (a.asked tags sched input) input.tok := by
  have back := keptBy_back counted
  rw [content, if_neg Bool.false_ne_true] at back
  refine added_of_ledger counted back ?_
  have known := keptBy_ledger counted
  rw [asked_ledger unfinished]
  simp only [ActiveSeq.ledger, ActiveSeq.pushOutput, Prod.mk.injEq] at known ⊢
  exact ⟨by rw [known.1], known.2.1, known.2.2.1, known.2.2.2.1, trivial⟩

theorem toolEnd_added [LawfulGrammarState Grammar] (counted : a.Counted input tags sched)
    (closes : (a.keptBy tags sched input).atToolEnd input.tok tags = true)
    (unfinished : ((a.keptBy tags sched input).decodeToolEnd input.tok input.request).finished = false) :
    Added a ((a.keptBy tags sched input).decodeToolEnd input.tok input.request) input.tok := by
  have back := keptBy_back counted
  rw [closes, if_pos rfl] at back
  refine added_of_ledger counted back ?_
  have known := keptBy_ledger counted
  unfold ActiveSeq.decodeToolEnd at unfinished ⊢
  dsimp only at unfinished ⊢
  split at unfinished
  · next sent =>
    rw [if_pos sent]
    simp only [ActiveSeq.ledger, Prod.mk.injEq] at known ⊢
    exact ⟨congrArg (· ++ [input.tok]) known.1, known.2.1, known.2.2.1, known.2.2.2.1, rfl⟩
  · cases unfinished

/-- A counted token that the sequence goes on behind was recorded, and then asked about, or ended a tool call. -/
theorem decodeInput_cases (counted : a.Counted input tags sched) (unfinished : (a.decodeInput tags sched input).finished = false) :
    ((a.keptBy tags sched input).atToolEnd input.tok tags = true ∧
      a.decodeInput tags sched input = (a.keptBy tags sched input).decodeToolEnd input.tok input.request) ∨
    ((a.keptBy tags sched input).atToolEnd input.tok tags = false ∧ (a.asked tags sched input).finished = false ∧
      a.decodeInput tags sched input = (a.asked tags sched input).decodeFuzzy sched input.answers.fuzzy) := by
  unfold ActiveSeq.decodeInput at unfinished ⊢
  rw [processDecodedToken_eq] at unfinished ⊢
  dsimp only at unfinished ⊢
  split at unfinished
  · cases unfinished
  next goesOn =>
  rw [if_neg goesOn]
  rw [if_neg fun starts => counted.kept ⟨starts.1, .inl starts.2⟩, if_neg fun ends => counted.kept ⟨ends.1, .inr ends.2⟩]
    at unfinished ⊢
  split at unfinished
  · cases unfinished
  next stays =>
  rw [if_neg stays]
  cases closes : (a.keptBy tags sched input).atToolEnd input.tok tags with
  | true => exact .inl ⟨rfl, if_pos closes⟩
  | false =>
    have still : ¬ (a.keptBy tags sched input).atToolEnd input.tok tags = true := Bool.eq_false_iff.mp closes
    have recorded : (a.keptBy tags sched input).decodeKeep input.tok sched input.request input.answers =
        (a.asked tags sched input).decodeFuzzy sched input.answers.fuzzy := by
      unfold ActiveSeq.decodeKeep
      rw [keptBy_request, if_neg counted.content]
      rfl
    change (if (a.keptBy tags sched input).atToolEnd input.tok tags = true then _ else
      (a.keptBy tags sched input).decodeKeep input.tok sched input.request input.answers).finished = false at unfinished
    rw [if_neg still, recorded] at unfinished
    refine .inr ⟨rfl, ?_, (if_neg still).trans recorded⟩
    by_contra ended
    rw [Bool.not_eq_false] at ended
    rw [decodeFuzzy_finished ended] at unfinished
    exact absurd (ended.symm.trans unfinished) Bool.noConfusion

/-! ## What a rollback takes -/

structure Grown (n : Nat) (b a : ActiveSeq Device Grammar) : Prop where
  output : b.outputTokens <+: a.outputTokens
  added : a.outputTokens.length = b.outputTokens.length + n
  last : a.outputTokens.getLast? = some a.lastToken
  tokens : b.seq.tokens <+: a.seq.tokens
  fed : a.seq.tokens.length = b.seq.tokens.length + n
  seqLen : a.seq.seqLen = b.seq.seqLen + n
  logprobsData : a.logprobsData = b.logprobsData
  grammarState : StepsBack n a.grammarState b.grammarState

theorem StepsBack.refl [LawfulGrammarState Grammar] (grammar : Option Grammar) : StepsBack 0 grammar grammar := by
  cases grammar with
  | none => trivial
  | some grammar => exact ⟨rfl, LawfulGrammarState.rollback_zero grammar⟩

theorem StepsBack.trans [LawfulGrammarState Grammar] {n m : Nat} {last middle first : Option Grammar} (later : StepsBack m last middle)
    (earlier : StepsBack n middle first) : StepsBack (n + m) last first := by
  cases last with
  | none =>
    cases middle with
    | none =>
      cases first with
      | none => trivial
      | some => cases earlier
    | some => cases later
  | some last =>
    cases middle with
    | none => cases later
    | some middle =>
      cases first with
      | none => cases earlier
      | some first =>
        obtain ⟨counts, rfl⟩ := later
        obtain ⟨countsFirst, rfl⟩ := earlier
        refine ⟨by omega, ?_⟩
        rw [Nat.add_comm, LawfulGrammarState.rollback_rollback]
        omega

theorem StepsBack.rewind [LawfulGrammarState Grammar] {n dropped : Nat} {later earlier : Option Grammar} (back : StepsBack n later earlier)
    (within : dropped ≤ n) : StepsBack (n - dropped) (later.map (grammarRewind dropped)) earlier := by
  cases later with
  | none =>
    cases earlier with
    | none => trivial
    | some => cases back
  | some later =>
    cases earlier with
    | none => cases back
    | some earlier =>
      obtain ⟨counts, rfl⟩ := back
      have there : dropped ≤ GrammarState.numHistorySteps later := by omega
      rw [Option.map_some, grammarRewind, if_pos there]
      refine ⟨?_, ?_⟩
      · rw [LawfulGrammarState.numHistorySteps_rollback _ _ there]
        omega
      · rw [LawfulGrammarState.rollback_rollback]
        · rw [Nat.add_sub_cancel' within]
        · omega

theorem Grown.refl [LawfulGrammarState Grammar] (recorded : b.outputTokens.getLast? = some b.lastToken) : Grown 0 b b :=
  ⟨List.prefix_rfl, rfl, recorded, List.prefix_rfl, rfl, rfl, rfl, .refl _⟩

theorem Grown.add [LawfulGrammarState Grammar] {n : Nat} (grown : Grown n b a) (added : Added a c tok) : Grown (n + 1) b c where
  output := grown.output.trans (added.outputTokens ▸ List.prefix_append _ _)
  added := by rw [added.outputTokens, List.length_append, grown.added, List.length_singleton, Nat.add_assoc]
  last := by rw [added.outputTokens, List.getLast?_concat, added.lastToken]
  tokens := grown.tokens.trans (added.tokens ▸ List.prefix_append _ _)
  fed := by rw [added.tokens, List.length_append, grown.fed, List.length_singleton, Nat.add_assoc]
  seqLen := by rw [added.seqLen, grown.seqLen, Nat.add_assoc]
  logprobsData := added.logprobsData.trans grown.logprobsData
  grammarState := added.grammarState.trans grown.grammarState

theorem Grown.rolledBack [LawfulGrammarState Grammar] {n keepLen : Nat} (grown : Grown n b a) (some : 0 < keepLen)
    (kept : b.outputTokens.length ≤ keepLen) (within : keepLen ≤ a.outputTokens.length) (ring : SsmDecodeRing) :
    Grown (n - (a.outputTokens.length - keepLen)) b (rolledBackTo a keepLen ring) := by
  have added := grown.added
  have fed := grown.fed
  constructor
  · exact List.prefix_take_iff.mpr ⟨grown.output, kept⟩
  · change (a.outputTokens.take keepLen).length = _
    rw [List.length_take]
    omega
  · change (a.outputTokens.take keepLen).getLast? = Option.some ((a.outputTokens.take keepLen).getLast?.getD a.lastToken)
    cases last : (a.outputTokens.take keepLen).getLast? with
    | none =>
      have nothing := congrArg List.length (List.getLast?_eq_none_iff.mp last)
      rw [List.length_take, List.length_nil] at nothing
      omega
    | some token => rfl
  · exact List.prefix_take_iff.mpr ⟨grown.tokens, by omega⟩
  · change (a.seq.tokens.take (a.seq.tokens.length - (a.outputTokens.length - keepLen))).length = _
    rw [List.length_take]
    omega
  · change a.seq.seqLen - min (a.outputTokens.length - keepLen) a.seq.tokens.length = _
    rw [grown.seqLen]
    omega
  · exact grown.logprobsData
  · exact grown.grammarState.rewind (by omega)

theorem Grown.boundaryState [LawfulGrammarState Grammar] (grown : Grown 0 b a)
    (recorded : b.outputTokens.getLast? = some b.lastToken) (flags : a.flags = b.flags) : a.boundaryState = b.boundaryState := by
  have outputTokens : a.outputTokens = b.outputTokens := (grown.output.eq_of_length grown.added.symm).symm
  have tokens : a.seq.tokens = b.seq.tokens := (grown.tokens.eq_of_length grown.fed.symm).symm
  have lastToken : a.lastToken = b.lastToken := by
    have last := grown.last
    rw [outputTokens, recorded] at last
    exact (Option.some.inj last).symm
  have grammarState : a.grammarState = b.grammarState := by
    have back := grown.grammarState
    cases armed : a.grammarState with
    | none =>
      rw [armed] at back
      cases before : b.grammarState with
      | none => rfl
      | some => rw [before] at back; cases back
    | some later =>
      rw [armed] at back
      cases before : b.grammarState with
      | none => rw [before] at back; cases back
      | some earlier =>
        rw [before] at back
        rw [← back.2, LawfulGrammarState.rollback_zero]
  simp only [ActiveSeq.flags, Prod.mk.injEq] at flags
  simp only [ActiveSeq.boundaryState, outputTokens, tokens, grown.seqLen, lastToken, grown.logprobsData, grammarState, flags.1,
    flags.2, Nat.add_zero]

/-- The steps since the boundary token: every token was counted, and the boundary token itself was not rolled back. -/
inductive Since (tags : TagTokens) (sched : SchedCtx) (b : ActiveSeq Device Grammar) : ActiveSeq Device Grammar → Prop where
  | boundary : Since tags sched b b
  | step {a : ActiveSeq Device Grammar} {input : TokenInput Device} : Since tags sched b a → a.Counted input tags sched →
      (a.decodeInput tags sched input).finished = false →
      b.outputTokens.length ≤ (a.decodeInput tags sched input).outputTokens.length →
      Since tags sched b (a.decodeInput tags sched input)

/-- The watchdog for near-copies leaves the sequence, or rolls it back behind the boundary. -/
theorem decodeFuzzy_grown [LawfulGrammarState Grammar] {n : Nat} {snapshots : SnapshotAnswers} (grown : Grown n b a)
    (unfinished : (a.decodeFuzzy sched snapshots).finished = false)
    (kept : b.outputTokens.length ≤ (a.decodeFuzzy sched snapshots).outputTokens.length) :
    ∃ m, Grown m b (a.decodeFuzzy sched snapshots) := by
  unfold ActiveSeq.decodeFuzzy at unfinished kept ⊢
  split
  · next due =>
    rw [if_pos due] at unfinished kept
    cases found : detectFuzzyRepetition a.outputTokens sched.watchdog.fuzzyRepeatToleranceDiv with
    | none => exact ⟨n, grown⟩
    | some pattern =>
      simp only [found] at unfinished kept
      dsimp only
      unfold ActiveSeq.rollbackOrStop at unfinished kept ⊢
      rcases rollbackToBoundary_cases a (pattern.1 * 3) sched snapshots with ⟨reason, declined⟩ | ⟨keepLen, rolls, rolled⟩
      · rw [declined] at unfinished
        cases unfinished
      · rw [rolled] at kept ⊢
        have left : (rolledBackTo a keepLen (ringBehind a sched keepLen)).outputTokens.length ≤ keepLen :=
          List.length_take_le _ _
        exact ⟨_, grown.rolledBack rolls.some (kept.trans left) rolls.within _⟩
  · exact ⟨n, grown⟩

theorem Since.grown [LawfulGrammarState Grammar] (since : Since tags sched b a) (recorded : b.outputTokens.getLast? = some b.lastToken) :
    ∃ n, Grown n b a := by
  induction since with
  | boundary => exact ⟨0, .refl recorded⟩
  | step _ counted unfinished kept ih =>
    obtain ⟨n, grown⟩ := ih
    rcases decodeInput_cases counted unfinished with ⟨closes, same⟩ | ⟨content, goesOn, same⟩
    · rw [same] at unfinished ⊢
      exact ⟨n + 1, grown.add (toolEnd_added counted closes unfinished)⟩
    · rw [same] at unfinished kept ⊢
      exact decodeFuzzy_grown (grown.add (asked_added counted content goesOn)) unfinished kept

end Steps

def TokenInput.behind (last tok : Token) (logprobs : Option TokenLogprobs) : TokenInput Unit :=
  { TokenInput.plain tok with
    logprobs
    advance := fun seq => { seq with tokens := seq.tokens ++ [last], seqLen := seq.seqLen + 1 } }

/-- The token `7` is a boundary. -/
def SchedCtx.boundarySeven : SchedCtx :=
  { SchedCtx.quiet with masks := ⟨none, some [false, false, false, false, false, false, false, true]⟩ }

def ActiveSeq.unstreamed {Grammar : Type} (grammarState : Option Grammar) : ActiveSeq Unit Grammar :=
  { ActiveSeq.plain 7 with
    sink := ⟨false, []⟩
    cancelFlag := none
    grammarState }

end Metrale.Scheduler
