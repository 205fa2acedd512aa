import Metrale.Scheduler.Agreement
import Metrale.Scheduler.Budget
import Metrale.Scheduler.Promote

/-! # The two token paths over a stream

Both paths record and count a token alike; the module compares what they do behind that, a stop token or a streamed one
with its length stops, and then whole streams of tokens.  A step takes the same course on both paths where it meets none
of the things that only one of them does. -/

namespace Metrale.Scheduler

variable {Device Grammar : Type*} [GrammarState Grammar] {a b : ActiveSeq Device Grammar} {tok : Token}
  {sched : SchedCtx} {tags : TagTokens} {request : RequestAnswers} {logprobs : Option TokenLogprobs}
  {answers : DecodeAnswers}

/-! ## A streamed token -/

structure StreamCourse (a : ActiveSeq Device Grammar) (tok : Token) (sched : SchedCtx) (request : RequestAnswers) :
    Prop where
  /-- A client that has gone is not met with the last token of the budget. -/
  sends : a.suppressStream = false → (a.stream (a.tokenEvent tok) request).2 = false → a.remaining ≠ 0
  /-- At the served length, with budget left, there is no grammar to close. -/
  noClose : a.remaining ≠ 0 → seqlenForceStop a.seq.seqLen sched.limits.maxSeqLen = true →
    a.closeTokens sched.levers.grammarBudgetClose = []
  /-- The grammar is not at its end. -/
  goesOn : a.grammarDone = false
  /-- The output does not end in near-copies. -/
  noCopies : a.fuzzyDue sched = true →
    detectFuzzyRepetition a.outputTokens sched.watchdog.fuzzyRepeatToleranceDiv = none

def ActiveSeq.decodeStops (a : ActiveSeq Device Grammar) (sched : SchedCtx) (request : RequestAnswers)
    (fuzzy : SnapshotAnswers) : ActiveSeq Device Grammar :=
  (((a.decodeBudgetStop sched request).decodeCeilingStop sched).decodeGrammarStop).decodeFuzzy sched fuzzy

theorem decodeFuzzy_finished (finished : a.finished = true) (snapshots : SnapshotAnswers) :
    a.decodeFuzzy sched snapshots = a := by
  unfold ActiveSeq.decodeFuzzy
  rw [if_neg (by simp [ActiveSeq.fuzzyDue, finished])]

theorem decodeGrammarStop_goesOn (goesOn : a.grammarDone = false) : a.decodeGrammarStop = a := by
  unfold ActiveSeq.decodeGrammarStop
  rw [goesOn, if_neg Bool.false_ne_true]

omit [GrammarState Grammar] in
theorem decodeCeilingStop_finished (finished : a.finished = true) : a.decodeCeilingStop sched = a := by
  simp [ActiveSeq.decodeCeilingStop, finished]

omit [GrammarState Grammar] in
theorem pushClose_grammarState (close : List Token) :
    (ActiveSeq.pushClose request close a).grammarState = a.grammarState := by
  induction close generalizing a with
  | nil => rfl
  | cons tok close ih =>
    rw [ActiveSeq.pushClose]
    split
    · exact ih
    · rfl

theorem decodeStops_finished (finished : a.finished = true) (budget : a.remaining ≠ 0) (goesOn : a.grammarDone = false)
    (fuzzy : SnapshotAnswers) : a.decodeStops sched request fuzzy = a := by
  unfold ActiveSeq.decodeStops ActiveSeq.decodeBudgetStop
  rw [if_neg budget, decodeCeilingStop_finished finished, decodeGrammarStop_goesOn goesOn,
    decodeFuzzy_finished finished]

theorem decodeStops_eq (fuzzy : SnapshotAnswers)
    (noClose : a.remaining ≠ 0 → seqlenForceStop a.seq.seqLen sched.limits.maxSeqLen = true →
      a.closeTokens sched.levers.grammarBudgetClose = [])
    (goesOn : a.grammarDone = false)
    (noCopies : a.fuzzyDue sched = true →
      detectFuzzyRepetition a.outputTokens sched.watchdog.fuzzyRepeatToleranceDiv = none) :
    a.decodeStops sched request fuzzy = a.emitLengthStop sched request := by
  unfold ActiveSeq.emitLengthStop
  by_cases spent : a.remaining = 0
  · have closed : ({ a.emitGrammarClose request sched.levers.grammarBudgetClose with
        finished := true } : ActiveSeq Device Grammar).grammarDone = false := by
      have same : (a.emitGrammarClose request sched.levers.grammarBudgetClose).grammarState = a.grammarState :=
        pushClose_grammarState _
      simpa only [ActiveSeq.grammarDone, same] using goesOn
    unfold ActiveSeq.decodeStops ActiveSeq.decodeBudgetStop
    rw [if_pos spent, decodeCeilingStop_finished rfl, decodeGrammarStop_goesOn closed, decodeFuzzy_finished rfl,
      if_pos (by simp [spent])]
  · have unspent : a.decodeBudgetStop sched request = a := if_neg spent
    unfold ActiveSeq.decodeStops
    rw [unspent]
    cases ceiling : seqlenForceStop a.seq.seqLen sched.limits.maxSeqLen with
    | true =>
      have unclosed : a.emitGrammarClose request sched.levers.grammarBudgetClose = a := by
        rw [ActiveSeq.emitGrammarClose, noClose spent ceiling, ActiveSeq.pushClose]
      have stopped : a.decodeCeilingStop sched = { a with finished := true } := by
        unfold ActiveSeq.decodeCeilingStop
        cases done : a.finished with
        | false => simp [ceiling]
        | true => simp [← done]
      have still : ({ a with finished := true } : ActiveSeq Device Grammar).grammarDone = false := goesOn
      rw [if_pos (by simp), unclosed, stopped, decodeGrammarStop_goesOn still, decodeFuzzy_finished rfl]
    | false =>
      have below : a.decodeCeilingStop sched = a := by simp [ActiveSeq.decodeCeilingStop, ceiling]
      rw [if_neg (by simp [spent]), below, decodeGrammarStop_goesOn goesOn]
      unfold ActiveSeq.decodeFuzzy
      split
      · rename_i due
        rw [noCopies due]
      · rfl

omit [GrammarState Grammar] in
theorem decodeStream_unsent (unsent : a.suppressStream = true) : a.decodeStream tok request = a := if_pos unsent

omit [GrammarState Grammar] in
theorem decodeStream_delivered (sent : a.suppressStream = false)
    (delivered : (a.stream (a.tokenEvent tok) request).2 = true) :
    a.decodeStream tok request = (a.stream (a.tokenEvent tok) request).1 := by
  unfold ActiveSeq.decodeStream
  rw [sent, if_neg Bool.false_ne_true]
  simp only [delivered, Bool.not_true, Bool.or_false]
  rfl

omit [GrammarState Grammar] in
theorem decodeStream_refused (sent : a.suppressStream = false)
    (refused : (a.stream (a.tokenEvent tok) request).2 = false) :
    a.decodeStream tok request = { (a.stream (a.tokenEvent tok) request).1 with finished := true } := by
  unfold ActiveSeq.decodeStream
  rw [sent, if_neg Bool.false_ne_true]
  simp only [refused, Bool.not_false, Bool.or_true]

/-- Behind the record of a token that is no stop token, the two paths stream and stop alike. -/
theorem streamed_eq (course : StreamCourse a tok sched request) (fuzzy : SnapshotAnswers) :
    (a.decodeStream tok request).decodeStops sched request fuzzy = a.emitStream tok sched request := by
  unfold ActiveSeq.emitStream
  cases unsent : a.suppressStream with
  | true =>
    rw [decodeStream_unsent unsent, if_pos rfl]
    exact decodeStops_eq fuzzy course.noClose course.goesOn course.noCopies
  | false =>
    obtain ⟨sink, sent⟩ : ∃ sink, (a.stream (a.tokenEvent tok) request).1 = { a with sink } := ⟨_, rfl⟩
    rw [if_neg Bool.false_ne_true]
    cases delivered : (a.stream (a.tokenEvent tok) request).2 with
    | true =>
      rw [decodeStream_delivered unsent delivered, sent]
      simp only [delivered, if_true, sent]
      exact decodeStops_eq (a := { a with sink }) fuzzy course.noClose course.goesOn course.noCopies
    | false =>
      rw [decodeStream_refused unsent delivered, sent]
      simp only [delivered, Bool.false_eq_true, if_false, sent]
      exact decodeStops_finished (a := { a with sink, finished := true }) rfl (course.sends unsent delivered)
        course.goesOn fuzzy

omit [GrammarState Grammar] in
theorem snapshotContent_same (snapshots : SnapshotAnswers) : Same a (a.snapshotContent sched snapshots) := by
  unfold ActiveSeq.snapshotContent snapshotBoundaryIfSsm
  repeat' split
  all_goals first | exact .refl a | rfl

theorem StreamCourse.ofSame (same : Same a b) (course : StreamCourse a tok sched request) :
    StreamCourse b tok sched request := by
  unfold Same at same
  rw [same]
  exact ⟨course.sends, course.noClose, course.goesOn, course.noCopies⟩

theorem emitStream_same (course : StreamCourse a tok sched request) (answers : DecodeAnswers) :
    Same (a.emitStream tok sched request)
      (((a.snapshotContent sched answers.boundary).decodeStream tok request).decodeStops sched request
        answers.fuzzy) := by
  have noted : Same a (a.snapshotContent sched answers.boundary) := snapshotContent_same answers.boundary
  rw [streamed_eq (course.ofSame noted)]
  exact emitStream_blind tok sched request noted

/-! ## A stop token -/

/-- What a stop token must not meet: the plain path holds it back, or the speculative one does for a grammar that thinking
keeps from it, or it is a tag of a tool. -/
structure StopCourse (kept : ActiveSeq Device Grammar) (tok : Token) (sched : SchedCtx) : Prop where
  ends : kept.decodeSuppressesEos sched = false
  unarmed : kept.think.insideThinking = true → kept.grammarState = none
  noStart : kept.request.toolCallStartToken ≠ some tok
  noStop : kept.request.toolCallEndToken ≠ some tok

theorem bodyStep_frame (tool : ToolState) (tok : Token) (opens : Bool) : (tool.bodyStep tok opens).1 =
    { tool with
      toolBodyStreakTokens := (tool.bodyStep tok opens).1.toolBodyStreakTokens
      insideParameterBody := (tool.bodyStep tok opens).1.insideParameterBody
      paramBodyCharsEmitted := (tool.bodyStep tok opens).1.paramBodyCharsEmitted
      paramClosePending := (tool.bodyStep tok opens).1.paramClosePending } := by
  simp only [ToolState.bodyStep, ToolState.parameterToken]
  split_ifs <;> rfl

theorem updateToolParamState_suppresses (start : a.request.toolCallStartToken ≠ some tok)
    (stop : a.request.toolCallEndToken ≠ some tok) :
    (a.updateToolParamState tok).emitSuppressesEos sched = a.emitSuppressesEos sched := by
  cases inside : a.think.insideThinking with
  | true => rw [updateToolParamState_inside inside]
  | false =>
    cases body : a.tool.insideToolBody with
    | false => rw [updateToolParamState_prose start stop body]
    | true =>
      rw [updateToolParamState_body inside start stop body, toolBodyToken_eq, bodyStep_frame]
      rfl

theorem StopCourse.emits (course : StopCourse a tok sched) :
    ((a.pushOutput tok).updateToolParamState tok).emitSuppressesEos sched = false := by
  rw [updateToolParamState_suppresses (a := a.pushOutput tok) course.noStart course.noStop]
  have ends := course.ends
  simp only [ActiveSeq.decodeSuppressesEos, ActiveSeq.otherwiseSuppressesEos, ActiveSeq.grammarSuppressesEos,
    Bool.or_eq_false_iff, decide_eq_false_iff_not] at ends
  obtain ⟨⟨⟨⟨grammar, demand⟩, long⟩, -⟩, thinking⟩ := ends
  have unarmed : (a.think.insideThinking && a.grammarState.isSome) = false := by
    cases inside : a.think.insideThinking with
    | false => rfl
    | true => rw [course.unarmed inside]; rfl
  simp only [ActiveSeq.emitSuppressesEos, Bool.or_eq_false_iff, decide_eq_false_iff_not]
  refine ⟨⟨⟨?_, demand⟩, ?_⟩, thinking⟩
  · have armed : (!a.eosEscape sched && ((a.think.insideThinking && a.grammarState.isSome) ||
        grammarBlocksStop a.grammarState a.request.eosTokens)) = false := by rw [unarmed, Bool.false_or, grammar]
    exact armed
  · have pushed : (a.pushOutput tok).outputTokens.length = a.outputTokens.length + 1 := List.length_append
    rw [pushed]
    exact fun short => long (Nat.lt_of_succ_lt short)

/-! ## One token -/

def ActiveSeq.stamped (a : ActiveSeq Device Grammar) (tok : Token) (now : Nat) : ActiveSeq Device Grammar :=
  { a with lastToken := tok, lastTokenTime := now }

theorem processDecodedToken_eq (a : ActiveSeq Device Grammar) (now : Nat) :
    a.processDecodedToken tok logprobs now tags sched request answers =
      let stamped := a.stamped tok now
      if sched.levers.toolResponseStop = true ∧ sched.limits.toolResponseHardStop = some tok then
        (stamped.pushOutput tok).stopFor .toolResponseHardStop
      else if stamped.think.insideThinking = false ∧ tags.thinkStart = some tok then stamped.decodeThinkStart
      else if stamped.think.insideThinking = false ∧ tags.thinkEnd = some tok then stamped.strayThinkEnd
      else if (stamped.decodeCount tok tags sched answers).runsAway tok tags then
        (stamped.decodeCount tok tags sched answers).stopRunaway tok
      else if (stamped.kept tok logprobs tags sched answers).atToolEnd tok tags then
        (stamped.kept tok logprobs tags sched answers).decodeToolEnd tok request
      else (stamped.kept tok logprobs tags sched answers).decodeKeep tok sched request answers := rfl

/-- Neither the hard stop of a tool's response nor a tag of thinking outside thinking. -/
structure Ordinary (a : ActiveSeq Device Grammar) (tok : Token) (sched : SchedCtx) : Prop where
  noHardStop : ¬(sched.levers.toolResponseStop = true ∧ sched.limits.toolResponseHardStop = some tok)
  noThinkStart : ¬(a.think.insideThinking = false ∧ a.request.thinkStartToken = some tok)
  noStray : ¬(a.think.insideThinking = false ∧ a.request.thinkEndToken = some tok)

structure SameCourse (a : ActiveSeq Device Grammar) (tok : Token) (logprobs : Option TokenLogprobs) (tags : TagTokens)
    (sched : SchedCtx) (request : RequestAnswers) (answers : DecodeAnswers) : Prop where
  tagged : TagsOf tags a.request
  notCancelled : a.isCancelled request = false
  noRoleTag : sched.limits.imStartHardStop ≠ some tok
  /-- The budget of a `<think>` is not halved. -/
  wholeBudget : a.think.insideThinking = false → a.request.thinkStartToken = some tok →
    a.decayedThinkBudget = a.request.spontaneousThinkBudget
  thinks : Ordinary a tok sched → a.think.insideThinking = true → ThinkCourse a tok tags sched
  content : Ordinary a tok sched → a.think.insideThinking = false → ContentCourse a tok sched answers
  /-- The model does not open call after call behind a complete one. -/
  noRunaway : Ordinary a tok sched → (a.decodeCount tok tags sched answers).runsAway tok tags = false
  noToolEnd : Ordinary a tok sched → (a.kept tok logprobs tags sched answers).atToolEnd tok tags = false
  stops : Ordinary a tok sched → tok ∈ a.request.eosTokens →
    StopCourse (a.kept tok logprobs tags sched answers) tok sched
  streams : Ordinary a tok sched → tok ∉ a.request.eosTokens →
    StreamCourse (a.recorded tok logprobs tags sched answers) tok sched request

namespace SameCourse

theorem recorded (course : SameCourse a tok logprobs tags sched request answers) (ordinary : Ordinary a tok sched) :
    Same ((a.emitPush tok logprobs).emitCount tok sched) (a.recorded tok logprobs tags sched answers) := by
  cases inside : a.think.insideThinking with
  | false => exact content_same course.tagged inside (course.content ordinary inside)
  | true =>
    have thinks := course.thinks ordinary inside
    by_cases ends : a.request.thinkEndToken = some tok
    · exact thinkEnd_same course.tagged inside thinks ends
    · exact thought_same course.tagged inside thinks ends

omit [GrammarState Grammar] in
theorem ends_blind : Blind fun a : ActiveSeq Device Grammar => { a with finished := true } := .ofNotes fun _ _ => rfl

theorem kept_request (a : ActiveSeq Device Grammar) :
    (a.kept tok logprobs tags sched answers).request = a.request :=
  ((dropToolDemand_quiet.trans (pushLogprobs_quiet logprobs)).request).trans (decodeCount_request tok tags sched answers)

/-- What the two paths do with a recorded token: a stop token ends the response, any other is streamed. -/
theorem keep (course : SameCourse a tok logprobs tags sched request answers) (ordinary : Ordinary a tok sched) :
    Same
      (if tok ∈ a.request.eosTokens then
        if ((a.emitPush tok logprobs).emitCount tok sched).emitSuppressesEos sched then
          (a.emitPush tok logprobs).emitCount tok sched
        else { (a.emitPush tok logprobs).emitCount tok sched with finished := true }
      else ((a.emitPush tok logprobs).emitCount tok sched).emitStream tok sched request)
      ((a.kept tok logprobs tags sched answers).decodeKeep tok sched request answers) := by
  have recorded := course.recorded ordinary
  unfold ActiveSeq.decodeKeep
  rw [kept_request]
  by_cases stop : tok ∈ a.request.eosTokens
  · have stops := course.stops ordinary stop
    have lets : ((a.emitPush tok logprobs).emitCount tok sched).emitSuppressesEos sched = false := by
      have emits := stops.emits
      unfold Same at recorded
      rw [← ActiveSeq.recorded, recorded] at emits
      exact emits
    rw [if_pos stop, if_pos stop, lets, stops.ends, if_neg Bool.false_ne_true, if_neg Bool.false_ne_true]
    exact ends_blind recorded
  · rw [if_neg stop, if_neg stop]
    exact (emitStream_blind tok sched request recorded).trans (emitStream_same (course.streams ordinary stop) answers)

theorem step (now : Nat) (course : SameCourse (a.stamped tok now) tok logprobs tags sched request answers) :
    Same (a.emitToken tok logprobs sched request)
      (a.processDecodedToken tok logprobs now tags sched request answers) := by
  have stamped : Same (a.emitToken tok logprobs sched request)
      ((a.stamped tok now).emitToken tok logprobs sched request) := emitToken_blind tok logprobs sched request rfl
  refine stamped.trans ?_
  rw [processDecodedToken_eq, ActiveSeq.emitToken]
  simp only [course.notCancelled, Bool.false_eq_true, if_false, if_neg course.noRoleTag, course.tagged.thinkStart,
    course.tagged.thinkEnd]
  by_cases hard : sched.levers.toolResponseStop = true ∧ sched.limits.toolResponseHardStop = some tok
  · rw [if_pos hard, if_pos hard]
    exact .refl _
  rw [if_neg hard, if_neg hard]
  by_cases starts : (a.stamped tok now).think.insideThinking = false ∧
      (a.stamped tok now).request.thinkStartToken = some tok
  · have whole := course.wholeBudget starts.1 starts.2
    rw [if_pos starts, if_pos starts, ActiveSeq.decodeThinkStart, whole]
    rfl
  rw [if_neg starts, if_neg starts]
  by_cases stray : (a.stamped tok now).think.insideThinking = false ∧
      (a.stamped tok now).request.thinkEndToken = some tok
  · rw [if_pos stray, if_pos stray]
    exact .refl _
  rw [if_neg stray, if_neg stray]
  have ordinary : Ordinary (a.stamped tok now) tok sched := ⟨hard, starts, stray⟩
  rw [course.noRunaway ordinary, course.noToolEnd ordinary, if_neg Bool.false_ne_true, if_neg Bool.false_ne_true]
  exact course.keep ordinary

end SameCourse

/-! ## The finish reason (`lifecycle.rs`) -/

def guardStopWireReason : GuardStop → String
  | .requestTimeout => "timeout"
  | _ => "length"

def deriveFinishReason (guardStop : Option GuardStop) (lastTok : Option Token) (eosTokens : List Token)
    (toolCallEndToken : Option Token) (remaining seqLen maxSeqLen : Nat) : String :=
  if guardStop = some .requestTimeout then "timeout"
  else if lastTok.any (eosTokens.contains ·) then "stop"
  else if lastTok.any (fun t => toolCallEndToken == some t) then "tool_calls"
  else
    match guardStop with
    | some guard => guardStopWireReason guard
    | none => if hardCeilingHit remaining seqLen maxSeqLen then "length" else "stop"

def ActiveSeq.finishReason (a : ActiveSeq Device Grammar) (maxSeqLen : Nat) : String :=
  deriveFinishReason a.guardStop a.outputTokens.getLast? a.request.eosTokens a.request.toolCallEndToken a.remaining
    a.seq.seqLen maxSeqLen

/-- What a client, the loop and the next token see of two sequences is the same. -/
structure PathsAgree (a b : ActiveSeq Device Grammar) : Prop where
  outputTokens : b.outputTokens = a.outputTokens
  sink : b.sink = a.sink
  finished : b.finished = a.finished
  finishReason : ∀ maxSeqLen, b.finishReason maxSeqLen = a.finishReason maxSeqLen
  remaining : b.remaining = a.remaining
  think : { b.think with
    thinkForceClosed := a.think.thinkForceClosed
    consecutiveConfident := a.think.consecutiveConfident
    inCodeFence := a.think.inCodeFence
    postThinkEmitted := a.think.postThinkEmitted
    thinkWatchdogFires := a.think.thinkWatchdogFires } = a.think
  tool : { b.tool with postCompletionToolOpens := a.tool.postCompletionToolOpens } = a.tool
  grammarState : b.grammarState = a.grammarState

omit [GrammarState Grammar] in
theorem Same.agree (same : Same a b) : PathsAgree a b := by
  unfold Same at same
  rw [same]
  constructor <;> intros <;> rfl

/-! ## A stream of tokens -/

/-- A token of the stream, what the model does to the sequence before it, and what is answered. -/
structure TokenInput (Device : Type*) where
  advance : SequenceState Device → SequenceState Device
  tok : Token
  logprobs : Option TokenLogprobs
  now : Nat
  request : RequestAnswers
  answers : DecodeAnswers

def ActiveSeq.advanced (a : ActiveSeq Device Grammar) (input : TokenInput Device) : ActiveSeq Device Grammar :=
  { a with seq := input.advance a.seq }

def ActiveSeq.emitInput (sched : SchedCtx) (a : ActiveSeq Device Grammar) (input : TokenInput Device) :
    ActiveSeq Device Grammar :=
  (a.advanced input).emitToken input.tok input.logprobs sched input.request

def ActiveSeq.decodeInput (tags : TagTokens) (sched : SchedCtx) (a : ActiveSeq Device Grammar)
    (input : TokenInput Device) : ActiveSeq Device Grammar :=
  (a.advanced input).processDecodedToken input.tok input.logprobs input.now tags sched input.request input.answers

/-- No token of the stream meets, on the plain path, what only one of the paths does. -/
def Courses (tags : TagTokens) (sched : SchedCtx) : ActiveSeq Device Grammar → List (TokenInput Device) → Prop
  | _, [] => True
  | a, input :: inputs =>
    SameCourse ((a.advanced input).stamped input.tok input.now) input.tok input.logprobs tags sched input.request
      input.answers ∧ Courses tags sched (a.decodeInput tags sched input) inputs

theorem Courses.take {inputs : List (TokenInput Device)} (courses : Courses tags sched a inputs) (count : Nat) :
    Courses tags sched a (inputs.take count) := by
  induction inputs generalizing a count with
  | nil => simpa using courses
  | cons input inputs ih =>
    cases count with
    | zero => trivial
    | succ count => exact ⟨courses.1, ih courses.2 count⟩

theorem run_same {inputs : List (TokenInput Device)} (same : Same a b) (courses : Courses tags sched b inputs) :
    Same (inputs.foldl (ActiveSeq.emitInput sched) a) (inputs.foldl (ActiveSeq.decodeInput tags sched) b) := by
  induction inputs generalizing a b with
  | nil => exact same
  | cons input inputs ih =>
    refine ih ?_ courses.2
    have advanced : Blind fun a : ActiveSeq Device Grammar => a.advanced input := .ofNotes fun _ _ => rfl
    exact (emitToken_blind input.tok input.logprobs sched input.request (advanced same)).trans
      (courses.1.step input.now)

/-- Fed with one stream, the two paths agree behind every token, as long as none takes another course on one of them. -/
theorem paths_agree (a : ActiveSeq Device Grammar) (tags : TagTokens) (sched : SchedCtx)
    (inputs : List (TokenInput Device)) (courses : Courses tags sched a inputs) (count : Nat) :
    PathsAgree ((inputs.take count).foldl (ActiveSeq.emitInput sched) a)
      ((inputs.take count).foldl (ActiveSeq.decodeInput tags sched) a) :=
  (run_same (.refl a) (courses.take count)).agree

def TokenInput.plain (tok : Token) : TokenInput Unit where
  advance seq := seq
  tok
  logprobs := none
  now := 0
  request := .all
  answers := ⟨⟨true, fun _ => true⟩, ⟨true, fun _ => true⟩, ⟨true, fun _ => true⟩, ⟨true, fun _ => true⟩⟩

/-- A token of text, and the token that ends it. -/
theorem paths_agree_plain :
    PathsAgree ([TokenInput.plain 8, .plain 3].foldl (ActiveSeq.emitInput .quiet) (ActiveSeq.plain 7))
      ([TokenInput.plain 8, .plain 3].foldl (ActiveSeq.decodeInput .plain .quiet) (ActiveSeq.plain 7)) := by
  refine paths_agree (ActiveSeq.plain 7) .plain .quiet [.plain 8, .plain 3] ⟨?_, ?_, trivial⟩ 2
  · exact {
      tagged := ⟨rfl, rfl, rfl, rfl⟩
      notCancelled := rfl
      noRoleTag := by decide
      wholeBudget := fun _ starts => absurd starts (by decide)
      thinks := fun _ inside => absurd inside (by decide)
      content := fun _ _ => ⟨fun grammar => grammar.elim, by decide, by decide, by decide,
        fun fires => absurd fires (by decide), fun body => absurd body (by decide),
        fun body => absurd body (by decide), fun demanded => absurd demanded (by decide)⟩
      noRunaway := fun _ => by decide
      noToolEnd := fun _ => by decide
      stops := fun _ stop => absurd stop (by decide)
      streams := fun _ _ => ⟨fun _ refused => absurd refused (by decide), fun _ ceiling => absurd ceiling (by decide),
        by decide, fun due => absurd due (by decide)⟩ }
  · exact {
      tagged := ⟨rfl, rfl, rfl, rfl⟩
      notCancelled := rfl
      noRoleTag := by decide
      wholeBudget := fun _ starts => absurd starts (by decide)
      thinks := fun _ inside => absurd inside (by decide)
      content := fun _ _ => ⟨fun grammar => grammar.elim, by decide, by decide, by decide,
        fun fires => absurd fires (by decide), fun body => absurd body (by decide),
        fun body => absurd body (by decide), fun demanded => absurd demanded (by decide)⟩
      noRunaway := fun _ => by decide
      noToolEnd := fun _ => by decide
      stops := fun _ _ => ⟨by decide, fun inside => absurd inside (by decide), by decide, by decide⟩
      streams := fun _ content => absurd (by decide) content }

/-- A `</tool_call>` ends the turn of a request without tools on the plain path only. -/
theorem toolEnd_diverges :
    ¬∀ (a : ActiveSeq Unit Empty) (tags : TagTokens) (sched : SchedCtx) (inputs : List (TokenInput Unit)),
      PathsAgree (inputs.foldl (ActiveSeq.emitInput sched) a) (inputs.foldl (ActiveSeq.decodeInput tags sched) a) := by
  intro agrees
  have finished := (agrees (.plain 7) .plain .quiet [.plain 6]).finished
  revert finished
  decide

end Metrale.Scheduler
