import Metrale.Foundation.Runs
import Metrale.Grammar.Matcher.Rows

/-! # Atomicity and rollback

Whatever a matcher is asked, and whatever it refuses, it stays the very same; and rolling steps back leads to the
matchers that there were before them. -/

namespace Metrale.Grammar

open Metrale.Foundation

variable {grammar : GrammarData} {info : TokenizerInfo} {masks : MaskCache}

/-! ## The fill -/

namespace Trial

variable {base : EarleyParser} {trial : Trial}

def Tracked (base : EarleyParser) (trial : Trial) : Prop := EarleyParser.Over (1 + trial.prevMatched) base trial.parser

theorem reuse_tracked (index : Nat) (token : List UInt8) (tracked : trial.Tracked base) :
    Answers (trial.reuse info index token) fun answer => answer.2.Tracked base := by
  rw [reuse]
  split
  · exact .intro tracked
  · next prev _ =>
    dsimp only
    split
    · exact .intro tracked
    · split
      · next shorter =>
        have split : 1 + trial.prevMatched =
            1 + commonPrefix token prev + (trial.prevMatched - commonPrefix token prev) := by omega
        rw [Tracked, split] at tracked
        apply Answers.map
        exact tracked.popRows
      · exact .intro tracked

theorem advance_tracked (index : Nat) (token : List UInt8) (tracked : trial.Tracked base) :
    (trial.advance grammar info index token).2.Tracked base := by
  rw [Trial.advance]
  split
  · next answered => exact (EarleyParser.Over.advanceBytes tracked answered).1
  · next answered => exact (EarleyParser.Over.advanceBytes tracked answered).1

theorem record_keeps (storeType : StoreType) (index id : Nat) (isAccepted : Bool) :
    (trial.record storeType index id isAccepted).parser = trial.parser ∧
      (trial.record storeType index id isAccepted).prevMatched = trial.prevMatched := by
  cases storeType <;> cases isAccepted <;> exact ⟨rfl, rfl⟩

theorem step_tracked (storeType : StoreType) (index : Nat) (tracked : trial.Tracked base) :
    Answers (trial.step grammar info storeType index) (Tracked base) := by
  rw [step]
  dsimp only
  split
  · exact .intro tracked
  · split
    · apply Answers.intro
      split
      · exact tracked
      · exact tracked
    · apply (reuse_tracked index (info.sortedToken index).2 tracked).bind
      intro (shared, reused) keeps
      have advanced : (if shared then reused.advance grammar info index (info.sortedToken index).2
          else (false, reused)).2.Tracked base := by
        split
        · exact advance_tracked index _ keeps
        · exact keeps
      apply Answers.intro
      obtain ⟨sameParser, sameMatched⟩ := record_keeps storeType index (info.sortedToken index).1 _
      rw [Tracked, sameParser, sameMatched]
      exact advanced

end Trial

theorem resolveState_restores {parser : EarleyParser} (seeded : parser.Seeded) (accepted : List Bool)
    (rejected : Option (List Nat)) (state : ParserState) (mask : AdaptiveTokenMask) :
    Answers (resolveState grammar info parser accepted rejected state mask) fun answer => answer.1 = parser := by
  rw [resolveState]
  have first : Trial.Tracked parser ⟨parser.pushOneStateToCheck state, accepted, [], none, 0, 0⟩ :=
    (EarleyParser.Over.refl seeded).pushOneStateToCheck state
  apply (Answers.foldlM first fun trial tracked index _ => Trial.step_tracked mask.storeType index tracked).bind
  intro trial tracked
  rw [Trial.Tracked, Nat.add_comm] at tracked
  rw [tracked.popAll]
  exact .intro rfl

theorem resolveStates_restores {parser : EarleyParser} (seeded : parser.Seeded)
    (states : List (ParserState × AdaptiveTokenMask)) (accepted : List Bool) (rejected : Option (List Nat)) :
    Answers (resolveStates grammar info states parser accepted rejected) fun answer => answer.1 = parser := by
  induction states generalizing accepted rejected with
  | nil => exact .intro rfl
  | cons first states ih =>
    obtain ⟨state, mask⟩ := first
    rw [resolveStates]
    apply (resolveState_restores seeded accepted rejected state mask).bind
    rintro ⟨_, accepted, rejected⟩ rfl
    exact ih accepted rejected

namespace GrammarMatcher

variable {matcher after : GrammarMatcher}

theorem computePartitions_restores (seeded : matcher.parser.Seeded) :
    Answers (matcher.computePartitions masks) fun answer => answer.2 = matcher := by
  rw [computePartitions]
  apply (resolveStates_restores seeded _ _ none).bind
  rintro ⟨parser, accepted, rejected⟩ same
  apply Answers.intro
  cases matcher
  cases same
  rfl

theorem fillNextTokenBitmask_unchanged (seeded : matcher.parser.Seeded) (bitmask : List Bool) (index : Nat) :
    Whenever (matcher.fillNextTokenBitmask masks bitmask index) fun answer => answer.2 = matcher := by
  rw [fillNextTokenBitmask]
  split
  · exact .intro rfl
  · dsimp only
    split
    · exact .intro rfl
    · split
      · exact .intro rfl
      · refine Whenever.bind (computePartitions_restores seeded).whenever ?_
        rintro ⟨partitions, filled⟩ same
        intro answer answered
        obtain ⟨bits, -, rest⟩ := Option.bind_eq_some_iff.mp answered
        cases rest
        exact same

theorem setBits_length {value : Bool} {ids : List Int} {bits filled : List Bool}
    (set : setBits value ids bits = some filled) : filled.length = bits.length := by
  induction ids generalizing bits with
  | nil =>
    cases set
    rfl
  | cons id ids ih =>
    rw [setBits, List.foldlM_cons] at set
    obtain ⟨first, one, rest⟩ := Option.bind_eq_some_iff.mp set
    rw [setBit] at one
    split at one
    · cases one
      rw [ih rest, List.length_set]
    · cases one

theorem clearBits_length (vocabSize : Nat) : (clearBits vocabSize).length = bitmaskSize vocabSize * bitsPerWord :=
  List.length_replicate

theorem fillBits_length (vocabSize : Nat) : (fillBits vocabSize).length = bitmaskSize vocabSize * bitsPerWord := by
  rw [fillBits, List.length_append, List.length_replicate, List.length_replicate, bitmaskSize, bitsPerWord]
  omega

theorem setTokenBitmask_length {partitions : Partitions} {bits : List Bool}
    (set : matcher.setTokenBitmask partitions = some bits) :
    bits.length = bitmaskSize matcher.tokenizerInfo.vocabSize * bitsPerWord := by
  rw [setTokenBitmask] at set
  dsimp only at set
  split at set
  · obtain ⟨accepted, first, set⟩ := Option.bind_eq_some_iff.mp set
    have whole := (setBits_length first).trans (clearBits_length _)
    split at set
    · exact (setBits_length set).trans whole
    · cases set
      exact whole
  · obtain ⟨accepted, first, set⟩ := Option.bind_eq_some_iff.mp set
    obtain ⟨special, second, set⟩ := Option.bind_eq_some_iff.mp set
    have whole := (setBits_length second).trans ((setBits_length first).trans (fillBits_length _))
    split at set
    · cases set
      exact whole
    · exact (setBits_length set).trans whole

theorem fillNextTokenBitmask_length {bitmask bits : List Bool} {index : Nat} {filled : Bool}
    (answered : matcher.fillNextTokenBitmask masks bitmask index = some (.ok (filled, bits), after)) :
    bits.length = bitmask.length := by
  rw [fillNextTokenBitmask] at answered
  split at answered
  · cases answered
  · dsimp only at answered
    split at answered
    · cases answered
    · split at answered
      · cases answered
      · next enough =>
        obtain ⟨⟨partitions, filled⟩, -, answered⟩ := Option.bind_eq_some_iff.mp answered
        obtain ⟨written, set, answered⟩ := Option.bind_eq_some_iff.mp answered
        cases answered
        have words := setTokenBitmask_length set
        simp only [List.length_append, List.length_take, List.length_drop, words, Nat.add_mul] at enough ⊢
        omega

/-! ## The other queries -/

theorem findJumpForwardString_unchanged (seeded : matcher.parser.Seeded) (rounds : Nat) :
    Whenever (matcher.findJumpForwardString rounds) fun answer => answer.2 = matcher := by
  rw [findJumpForwardString]
  split
  · exact .intro rfl
  · refine Whenever.bind (EarleyParser.Over.refl seeded).jumpForward ?_
    intro (result, last) above
    dsimp only at above ⊢
    rw [Nat.zero_add] at above
    cases result with
    | nil =>
      rw [above.eq]
      exact .intro rfl
    | cons byte rest =>
      rw [above.popAll]
      exact .intro rfl

theorem findCompletionToAccept_unchanged (seeded : matcher.parser.Seeded) (maxBytes : Nat) :
    Answers (matcher.findCompletionToAccept maxBytes) fun answer => answer.2 = matcher := by
  rw [findCompletionToAccept]
  split
  · exact .intro rfl
  · split
    · exact .intro rfl
    · have tracked : Search.Tracked matcher.parser ⟨matcher.parser, [], completionNodeBudget⟩ := .refl seeded
      apply (Search.closeDfs_returns maxBytes tracked).bind
      intro (found, ⟨parser, out, budget⟩) returned
      have above : EarleyParser.Over out.length matcher.parser parser := returned.1
      cases found with
      | true =>
        cases out with
        | nil =>
          cases above.eq
          exact .intro rfl
        | cons byte rest =>
          dsimp only [List.isEmpty_cons]
          rw [above.popAll]
          exact .intro rfl
      | false =>
        have none : out = [] := returned.2 rfl
        cases none
        cases above.eq
        exact .intro rfl

theorem findCompletionTokenIds_unchanged (seeded : matcher.parser.Seeded) (maxBytes : Nat) :
    Answers (matcher.findCompletionTokenIds maxBytes) fun answer => answer.2 = matcher := by
  rw [findCompletionTokenIds]
  apply (findCompletionToAccept_unchanged seeded maxBytes).bind
  rintro ⟨found, searched⟩ same
  dsimp only
  split
  · exact .intro same
  · exact .intro same
  · exact .intro same

theorem forcedToken_unchanged (seeded : matcher.parser.Seeded) :
    Whenever (matcher.forcedToken masks) fun answer => answer.2 = matcher := by
  rw [forcedToken]
  split
  · exact .intro rfl
  · refine Whenever.bind (fillNextTokenBitmask_unchanged seeded _ 0) ?_
    rintro ⟨filled, after⟩ same
    cases filled with
    | ok => exact .intro same
    | error => exact .intro same

/-! ## Steps -/

inductive Stepped (matcher : GrammarMatcher) : Bool × GrammarMatcher → Prop where
  | accepted {next : GrammarMatcher} : next.parser.Seeded → next.rollbackStep = some matcher → Stepped matcher (true, next)
  | refused : Stepped matcher (false, matcher)

theorem acceptStopToken_stepped (seeded : matcher.parser.Seeded) (running : matcher.stopTokenAccepted = false) :
    matcher.Stepped matcher.acceptStopToken := by
  rw [acceptStopToken]
  split
  · exact .refused
  · split
    · exact .refused
    · refine .accepted seeded ?_
      cases matcher
      cases running
      rfl

theorem advanceBytesAsStep_stepped (seeded : matcher.parser.Seeded) (running : matcher.stopTokenAccepted = false)
    (bytes : List UInt8) : Answers (matcher.advanceBytesAsStep bytes) matcher.Stepped := by
  have start : EarleyParser.Over (0 + 0) matcher.parser matcher.parser := .refl seeded
  rw [advanceBytesAsStep]
  split
  · next consumed advanced answered =>
    obtain ⟨above, whole⟩ := start.advanceBytes answered
    rw [whole rfl, Nat.zero_add, Nat.zero_add] at above
    refine .intro (.accepted above.parserSeeded ?_)
    cases bytes with
    | nil =>
      cases above.eq
      cases matcher
      cases running
      rfl
    | cons byte rest =>
      rw [rollbackStep]
      dsimp only
      rw [if_neg (List.length_eq_zero_iff.not.mpr (List.cons_ne_nil byte rest)), above.popAll]
      rfl
  · next consumed advanced answered =>
    obtain ⟨above, -⟩ := start.advanceBytes answered
    rw [Nat.zero_add] at above
    split
    · rw [above.popAll]
      exact .intro .refused
    · next none =>
      cases Nat.eq_zero_of_not_pos none
      cases above.eq
      exact .intro .refused

theorem acceptBytes_stepped (seeded : matcher.parser.Seeded) (bytes : List UInt8) :
    Answers (matcher.acceptBytes bytes) matcher.Stepped := by
  rw [acceptBytes]
  split
  · exact .intro .refused
  · next running => exact advanceBytesAsStep_stepped seeded (Bool.eq_false_iff.mpr running) bytes

theorem acceptToken_stepped (seeded : matcher.parser.Seeded) (tokenId : Int) :
    Answers (matcher.acceptToken tokenId) matcher.Stepped := by
  rw [acceptToken]
  split
  · exact .intro .refused
  · next running =>
    have running := Bool.eq_false_iff.mpr running
    split
    · exact .intro .refused
    · split
      · exact .intro (acceptStopToken_stepped seeded running)
      · split
        · exact .intro .refused
        · exact advanceBytesAsStep_stepped seeded running _

/-! ## Rollback -/

theorem rollbackStep_length {previous : GrammarMatcher} (rolled : matcher.rollbackStep = some previous) :
    matcher.tokenLengthHistory.length = previous.tokenLengthHistory.length + 1 := by
  rw [rollbackStep] at rolled
  split at rolled
  · cases rolled
  · next steps earlier recorded =>
    rw [recorded, List.length_cons]
    dsimp only at rolled
    split at rolled
    · cases rolled
      rfl
    · obtain ⟨parser, -, rfl⟩ := Option.map_eq_some_iff.mp rolled
      rfl

theorem rollbackLoop_length {steps : Nat} {first : GrammarMatcher} (rolled : rollbackLoop steps matcher = some first) :
    matcher.tokenLengthHistory.length = first.tokenLengthHistory.length + steps := by
  induction steps generalizing matcher with
  | zero =>
    cases rolled
    rfl
  | succ steps ih =>
    obtain ⟨previous, stepped, rest⟩ := Option.bind_eq_some_iff.mp rolled
    rw [rollbackStep_length stepped, ih rest, Nat.add_assoc]

theorem rollback_of_loop {steps : Nat} {first : GrammarMatcher} (rolled : rollbackLoop steps matcher = some first) :
    matcher.rollback steps = some first := by
  have enough : steps ≤ matcher.tokenLengthHistory.length := by
    rw [rollbackLoop_length rolled]
    exact Nat.le_add_left _ _
  rw [rollback, Int.toNat_natCast, if_pos enough, rolled]

theorem rollbackLoop_append {last middle first : GrammarMatcher} {steps more : Nat}
    (later : rollbackLoop steps last = some middle) (earlier : rollbackLoop more middle = some first) :
    rollbackLoop (steps + more) last = some first := by
  induction steps generalizing last with
  | zero =>
    cases later
    rwa [Nat.zero_add]
  | succ steps ih =>
    obtain ⟨previous, stepped, rest⟩ := Option.bind_eq_some_iff.mp later
    rw [Nat.add_right_comm, rollbackLoop, stepped]
    exact ih rest

theorem rollbackLoop_one {previous : GrammarMatcher} (rolled : matcher.rollbackStep = some previous) :
    rollbackLoop 1 matcher = some previous := by
  rw [rollbackLoop, rolled]
  rfl

/-! ## Forced chains -/

theorem acceptForced_undone (more : Nat) (seeded : matcher.parser.Seeded) :
    Whenever (matcher.acceptForced masks more) fun (chain, last) =>
      last.parser.Seeded ∧ rollbackLoop chain.length last = some matcher := by
  induction more generalizing matcher with
  | zero => exact .intro ⟨seeded, rfl⟩
  | succ more ih =>
    rw [acceptForced]
    refine Whenever.bind (forcedToken_unchanged seeded) ?_
    rintro ⟨forced, peeked⟩ same
    cases same
    cases forced with
    | none => exact .intro ⟨seeded, rfl⟩
    | some token =>
      refine Whenever.bind (acceptToken_stepped seeded token).whenever ?_
      rintro ⟨accepted, next⟩ stepped
      cases stepped with
      | refused => exact .intro ⟨seeded, rfl⟩
      | accepted nextSeeded undone =>
        dsimp only
        rw [if_pos rfl]
        split
        · exact .intro ⟨nextSeeded, rollbackLoop_one undone⟩
        · refine Whenever.bind (ih nextSeeded) ?_
          rintro ⟨chain, last⟩ ⟨lastSeeded, rolled⟩
          exact .intro ⟨lastSeeded, rollbackLoop_append rolled (rollbackLoop_one undone)⟩

theorem nextForcedTokens_unchanged (seeded : matcher.parser.Seeded) (max : Nat) :
    Whenever (matcher.nextForcedTokens masks max) fun answer => answer.2 = matcher := by
  rw [nextForcedTokens]
  split
  · exact .intro rfl
  · refine Whenever.bind (acceptForced_undone max seeded) ?_
    rintro ⟨chain, last⟩ ⟨-, rolled⟩
    cases chain with
    | nil =>
      cases rolled
      exact .intro rfl
    | cons token chain =>
      dsimp only [List.isEmpty_cons]
      rw [if_neg Bool.false_ne_true, rollback_of_loop rolled]
      exact .intro rfl

theorem acceptForcedChain_foretold (seeded : matcher.parser.Seeded) (max : Nat) :
    Whenever (matcher.acceptForcedChain masks max) fun (chain, last) =>
      last.rollback chain.length = some matcher ∧ matcher.nextForcedTokens masks max = some (chain, matcher) := by
  rw [acceptForcedChain, nextForcedTokens]
  split
  · exact .intro ⟨rollback_of_loop rfl, rfl⟩
  · rintro ⟨chain, last⟩ answered
    obtain ⟨-, rolled⟩ := acceptForced_undone max seeded _ answered
    refine ⟨rollback_of_loop rolled, ?_⟩
    rw [answered]
    cases chain with
    | nil =>
      cases rolled
      rfl
    | cons token chain =>
      dsimp only [Option.bind_eq_bind, Option.bind_some, List.isEmpty_cons]
      rw [if_neg Bool.false_ne_true, rollback_of_loop rolled]
      rfl

/-! ## Runs -/

inductive Call where
  | acceptToken (tokenId : Int) (accepted : Bool)
  | acceptBytes (bytes : List UInt8) (accepted : Bool)
  | fillNextTokenBitmask (bitmask : List Bool) (index : Nat) (filled : Except FillError (Bool × List Bool))
  | findJumpForwardString (result : List UInt8)
  | findCompletionToAccept (maxBytes : Nat) (found : Option (List UInt8))
  | findCompletionTokenIds (maxBytes : Nat) (found : Option (List Nat))
  | forcedToken (forced : Option Nat)
  | nextForcedTokens (max : Nat) (chain : List Nat)
  | rollback (n : Int)

inductive Performs : GrammarMatcher → Call → GrammarMatcher → Prop where
  | acceptToken {before after : GrammarMatcher} {tokenId : Int} {accepted : Bool} :
      before.acceptToken tokenId = some (accepted, after) → Performs before (.acceptToken tokenId accepted) after
  | acceptBytes {before after : GrammarMatcher} {bytes : List UInt8} {accepted : Bool} :
      before.acceptBytes bytes = some (accepted, after) → Performs before (.acceptBytes bytes accepted) after
  | fillNextTokenBitmask {masks : MaskCache} {before after : GrammarMatcher} {bitmask : List Bool} {index : Nat}
      {filled : Except FillError (Bool × List Bool)} :
      before.fillNextTokenBitmask masks bitmask index = some (filled, after) →
      Performs before (.fillNextTokenBitmask bitmask index filled) after
  | findJumpForwardString {rounds : Nat} {before after : GrammarMatcher} {result : List UInt8} :
      before.findJumpForwardString rounds = some (result, after) → Performs before (.findJumpForwardString result) after
  | findCompletionToAccept {before after : GrammarMatcher} {maxBytes : Nat} {found : Option (List UInt8)} :
      before.findCompletionToAccept maxBytes = some (found, after) →
      Performs before (.findCompletionToAccept maxBytes found) after
  | findCompletionTokenIds {before after : GrammarMatcher} {maxBytes : Nat} {found : Option (List Nat)} :
      before.findCompletionTokenIds maxBytes = some (found, after) →
      Performs before (.findCompletionTokenIds maxBytes found) after
  | forcedToken {masks : MaskCache} {before after : GrammarMatcher} {forced : Option Nat} :
      before.forcedToken masks = some (forced, after) → Performs before (.forcedToken forced) after
  | nextForcedTokens {masks : MaskCache} {before after : GrammarMatcher} {max : Nat} {chain : List Nat} :
      before.nextForcedTokens masks max = some (chain, after) → Performs before (.nextForcedTokens max chain) after
  | rollback {before after : GrammarMatcher} {n : Int} : before.rollback n = some after → Performs before (.rollback n) after

def Call.IsSilent : Call → Prop
  | .acceptToken _ accepted => accepted = false
  | .acceptBytes _ accepted => accepted = false
  | .rollback _ => False
  | _ => True

/-- The matchers before the accepted steps that are not rolled back, the latest first. -/
def Call.trace (before : GrammarMatcher) (trace : List GrammarMatcher) : Call → List GrammarMatcher
  | .acceptToken _ true => before :: trace
  | .acceptBytes _ true => before :: trace
  | .rollback n => trace.drop n.toNat
  | _ => trace

def Traces (before : GrammarMatcher × List GrammarMatcher) (call : Call)
    (after : GrammarMatcher × List GrammarMatcher) : Prop :=
  before.1.Performs call after.1 ∧ after.2 = call.trace before.1 before.2

theorem Performs.unchanged {call : Call} (performs : matcher.Performs call after) (seeded : matcher.parser.Seeded)
    (silent : call.IsSilent) : after = matcher := by
  cases performs with
  | acceptToken answered =>
    have stepped := (acceptToken_stepped seeded _).whenever _ answered
    cases silent
    cases stepped
    rfl
  | acceptBytes answered =>
    have stepped := (acceptBytes_stepped seeded _).whenever _ answered
    cases silent
    cases stepped
    rfl
  | fillNextTokenBitmask answered => exact fillNextTokenBitmask_unchanged seeded _ _ _ answered
  | findJumpForwardString answered => exact findJumpForwardString_unchanged seeded _ _ answered
  | findCompletionToAccept answered => exact (findCompletionToAccept_unchanged seeded _).whenever _ answered
  | findCompletionTokenIds answered => exact (findCompletionTokenIds_unchanged seeded _).whenever _ answered
  | forcedToken answered => exact forcedToken_unchanged seeded _ answered
  | nextForcedTokens answered => exact nextForcedTokens_unchanged seeded _ _ answered
  | rollback => cases silent

/-- Every matcher of the trace is what one step of rollback makes of the one after it. -/
inductive Undone : GrammarMatcher × List GrammarMatcher → Prop where
  | first {matcher : GrammarMatcher} : matcher.parser.Seeded → matcher.tokenLengthHistory = [] → Undone (matcher, [])
  | step {previous next : GrammarMatcher} {trace : List GrammarMatcher} : next.parser.Seeded →
      next.rollbackStep = some previous → Undone (previous, trace) → Undone (next, previous :: trace)

namespace Undone

variable {trace : List GrammarMatcher}

theorem seeded (undone : Undone (matcher, trace)) : matcher.parser.Seeded := by
  cases undone with
  | first seeded => exact seeded
  | step seeded => exact seeded

theorem length (undone : Undone (matcher, trace)) : matcher.tokenLengthHistory.length = trace.length := by
  induction trace generalizing matcher with
  | nil =>
    cases undone with
    | first _ none => exact congrArg List.length none
  | cons previous trace ih =>
    cases undone with
    | step _ rolled earlier => rw [rollbackStep_length rolled, ih earlier, List.length_cons]

theorem rollbackLoop (undone : Undone (matcher, trace)) {steps : Nat} (within : steps ≤ trace.length) :
    Answers (GrammarMatcher.rollbackLoop steps matcher) fun first =>
      (matcher :: trace)[steps]? = some first ∧ Undone (first, trace.drop steps) := by
  induction steps generalizing matcher trace with
  | zero => exact .intro ⟨rfl, undone⟩
  | succ steps ih =>
    cases undone with
    | first => exact absurd within (Nat.not_succ_le_zero steps)
    | step _ rolled earlier =>
      rw [GrammarMatcher.rollbackLoop, rolled]
      exact ih earlier (Nat.le_of_succ_le_succ within)

theorem rollback (undone : Undone (matcher, trace)) {n : Int} (within : n.toNat ≤ trace.length) :
    Answers (matcher.rollback n) fun first =>
      (matcher :: trace)[n.toNat]? = some first ∧ Undone (first, trace.drop n.toNat) := by
  rw [GrammarMatcher.rollback, undone.length, if_pos within]
  exact undone.rollbackLoop within

theorem traces {before after : GrammarMatcher × List GrammarMatcher} {call : Call} (undone : Undone before)
    (traced : Traces before call after) : Undone after := by
  obtain ⟨matcher, trace⟩ := before
  obtain ⟨next, later⟩ := after
  obtain ⟨performs, rfl⟩ := traced
  by_cases silent : call.IsSilent
  · have same : next = matcher := performs.unchanged undone.seeded silent
    have untraced : call.trace matcher trace = trace := by
      cases call <;> first | rfl | cases silent <;> rfl
    dsimp only
    rw [same, untraced]
    exact undone
  · cases performs with
    | @acceptToken _ _ _ accepted answered =>
      have stepped := (acceptToken_stepped undone.seeded _).whenever _ answered
      cases accepted with
      | false => exact absurd rfl silent
      | true => cases stepped with | accepted seeded rolled => exact .step seeded rolled undone
    | @acceptBytes _ _ _ accepted answered =>
      have stepped := (acceptBytes_stepped undone.seeded _).whenever _ answered
      cases accepted with
      | false => exact absurd rfl silent
      | true => cases stepped with | accepted seeded rolled => exact .step seeded rolled undone
    | rollback answered =>
      have within := answered
      rw [GrammarMatcher.rollback] at within
      split at within
      · next enough =>
        rw [undone.length] at enough
        exact ((undone.rollback enough).whenever _ answered).2
      · cases within
    | _ => exact absurd trivial silent

end Undone

theorem new_seeded {override : Option (List Int)} {terminate : Bool} (made : new grammar info override terminate = some matcher) :
    matcher.parser.Seeded ∧ matcher.tokenLengthHistory = [] := by
  rw [new] at made
  split at made
  · cases made
  · cases made
    exact ⟨EarleyParser.fromGrammar_seeded grammar, rfl⟩

/-- In every run a refused call and a query leave the matcher as it is, and rolling `n` steps back leads to the
matcher before the last `n` accepted ones. -/
theorem run_atomic {override : Option (List Int)} {terminate : Bool} {first last : GrammarMatcher}
    {trace : List GrammarMatcher} {calls : List Call} (made : new grammar info override terminate = some first)
    (run : Run Traces (first, []) calls (last, trace)) :
    (∀ call after, last.Performs call after → call.IsSilent → after = last) ∧
    last.numHistorySteps = trace.length ∧
    ∀ n : Int, n.toNat ≤ trace.length → last.rollback n = (last :: trace)[n.toNat]? := by
  obtain ⟨seeded, none⟩ := new_seeded made
  have undone : Undone (last, trace) :=
    run.invariant Undone (.first seeded none) fun _ _ _ undone traced => undone.traces traced
  refine ⟨fun call after performs silent => performs.unchanged undone.seeded silent, undone.length, ?_⟩
  intro n within
  obtain ⟨before, answered, traced, -⟩ := undone.rollback within
  rw [answered, traced]

/-- In every run the chain that is accepted is the one that was foretold, and rolling it back leads to the same
matcher. -/
theorem run_forced_chain {override : Option (List Int)} {terminate : Bool} {first last : GrammarMatcher}
    {trace : List GrammarMatcher} {calls : List Call} (made : new grammar info override terminate = some first)
    (run : Run Traces (first, []) calls (last, trace)) (masks : MaskCache) (max : Nat) :
    Whenever (last.acceptForcedChain masks max) fun (chain, after) =>
      after.rollback chain.length = some last ∧ last.nextForcedTokens masks max = some (chain, last) := by
  obtain ⟨seeded, none⟩ := new_seeded made
  have undone : Undone (last, trace) :=
    run.invariant Undone (.first seeded none) fun _ _ _ undone traced => undone.traces traced
  exact acceptForcedChain_foretold undone.seeded max

/-- `root ::= "ab"`, with the tokens `ab`, `ax` and a stop token. -/
def spelled : GrammarMatcher where
  grammar :=
    { rules := [⟨0⟩]
      rootRuleId := 0
      allowEmptyRuleIds := []
      completeFsm := ⟨[], []⟩
      perRuleFsms := [⟨⟨[[⟨.charRange 97 97, 1⟩], [⟨.charRange 98 98, 2⟩], []], []⟩, 0, [false, false, true]⟩] }
  tokenizerInfo := ⟨3, [[97, 98], [97, 120], []], [(0, [97, 98]), (1, [97, 120])], [1, 2], [2], []⟩
  parser := ⟨[false], [[]], [[⟨0, 0, 0, none, 0⟩]], false⟩
  stopTokenIds := [2]
  terminateWithoutStopToken := false
  stopTokenAccepted := false
  tokenLengthHistory := []

def spelledAb : GrammarMatcher :=
  { spelled with
    parser := ⟨[false, false, true], [[], [], []], [[⟨0, 0, 0, none, 0⟩], [⟨0, 0, 1, none, 0⟩], []], false⟩
    tokenLengthHistory := [2] }

def spelledStop : GrammarMatcher := { spelledAb with stopTokenAccepted := true, tokenLengthHistory := [0, 2] }

/-- A refused token, an accepted one and the stop token, and the last two rolled back. -/
theorem spelledStop_rollback : spelledStop.rollback 2 = some spelled := by
  have refused : Traces (spelled, []) (.acceptToken 1 false) (spelled, []) := ⟨.acceptToken (by rfl), rfl⟩
  have accepted : Traces (spelled, []) (.acceptToken 0 true) (spelledAb, [spelled]) := ⟨.acceptToken (by rfl), rfl⟩
  have stopped : Traces (spelledAb, [spelled]) (.acceptToken 2 true) (spelledStop, [spelledAb, spelled]) :=
    ⟨.acceptToken (by rfl), rfl⟩
  have made : new spelled.grammar spelled.tokenizerInfo none false = some spelled := by rfl
  have run := ((Run.single refused).extend accepted).extend stopped
  exact (run_atomic made run).2.2 2 (by decide)

def spelledMasks : MaskCache := fun _ _ => ⟨.accepted, [0], [], [], []⟩

/-- The token `ab` is forced, and the stop token after it. -/
theorem run_forced_chain_spelled : ∃ after, spelled.acceptForcedChain spelledMasks 3 = some ([0, 2], after) ∧
    after.rollback 2 = some spelled ∧ spelled.nextForcedTokens spelledMasks 3 = some ([0, 2], spelled) := by
  have made : new spelled.grammar spelled.tokenizerInfo none false = some spelled := by rfl
  have chained : spelled.acceptForcedChain spelledMasks 3 = some ([0, 2], spelledStop) := by rfl
  exact ⟨_, chained, run_forced_chain made .start spelledMasks 3 _ chained⟩

end GrammarMatcher

end Metrale.Grammar
