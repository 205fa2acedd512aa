import Metrale.Scheduler.MatcherState

/-! # The cached bitmask and the drafts it cannot judge (`grammar/state.rs`, `spec_step.rs`)

A grammar state fills its bitmask once for each position.  All drafts are masked with the bitmask of the first, so
that a later one may be illegal after the others; `truncate_drafts_at_grammar_boundary` tries them one after another
and rolls the matcher back to where it was. -/

namespace Metrale.Scheduler

open Foundation Grammar GrammarMatcher

def allocateTokenBitmask (vocabSize : Nat) : List Bool := List.replicate (bitmaskSize vocabSize * bitsPerWord) true

def resetTokenBitmask (bitmask : List Bool) : List Bool := List.replicate bitmask.length true

/-- The state of a request before its first token.  The matcher ends only on a stop token. -/
def MatcherState.new (grammar : GrammarData) (info : TokenizerInfo) (masks : MaskCache) (stopTokens : List Token) :
    MatcherState :=
  ⟨(GrammarMatcher.new grammar info none false).get rfl, masks, stopTokens,
    [], .first (EarleyParser.fromGrammar_seeded grammar) rfl⟩

/-- The fill of a buffer: whether some token is ruled out, and the bits.  The matcher stays the same
(`fillNextTokenBitmask_unchanged`); `none` is the panic at its end or on a buffer that is too small. -/
def MatcherState.refill (s : MatcherState) (bitmask : List Bool) : Option (Bool × List Bool) :=
  match s.matcher.fillNextTokenBitmask s.masks bitmask 0 with
  | some (.ok filled, _) => some filled
  | _ => none

theorem MatcherState.refill_length {s : MatcherState} {bitmask bits : List Bool} {filled : Bool}
    (answered : s.refill bitmask = some (filled, bits)) : bits.length = bitmask.length := by
  rw [refill] at answered
  split at answered
  · next known =>
    cases answered
    exact fillNextTokenBitmask_length known
  · cases answered

theorem MatcherState.fillBitmask_of_refill {s : MatcherState} {answer : Bool × List Bool}
    (answered : s.refill (clearBits s.matcher.tokenizerInfo.vocabSize) = some answer) : s.fillBitmask = answer := by
  rw [refill] at answered
  rw [fillBitmask]
  generalize s.matcher.fillNextTokenBitmask s.masks (clearBits s.matcher.tokenizerInfo.vocabSize) 0 = fill at *
  match fill with
  | none => cases answered
  | some (.error _, _) => cases answered
  | some (.ok _, _) => exact Option.some.inj answered

/-- The `GrammarState` of the source: `bitmaskValid` says that the buffer is the fill of this position. -/
structure CachedGrammarState where
  grammar : MatcherState
  bitmaskData : List Bool
  bitmaskValid : Bool
  bitmaskFillResult : Bool

namespace CachedGrammarState

/-- `vocab_size` is the engine's. -/
def new (grammar : MatcherState) (vocabSize : Nat) : CachedGrammarState :=
  ⟨grammar, allocateTokenBitmask vocabSize, false, false⟩

variable (s : CachedGrammarState)

def isTerminated : Bool := s.grammar.matcher.isTerminated

def fillBitmask : Option (Bool × CachedGrammarState) :=
  if s.isTerminated then some (false, s)
  else if s.bitmaskValid then some (s.bitmaskFillResult, s)
  else do
    let (filled, bits) ← s.grammar.refill (resetTokenBitmask s.bitmaskData)
    return (filled, { s with bitmaskData := bits, bitmaskValid := true, bitmaskFillResult := filled })

def isTokenAllowed (tok : Token) : Bool := s.bitmaskData.getD tok.toNat false

def acceptToken (tok : Token) : Bool × CachedGrammarState :=
  ((s.grammar.acceptToken tok).2, { s with grammar := (s.grammar.acceptToken tok).1, bitmaskValid := false })

/-- `forced_from_bitmask`: the one token that the bits allow, if they cover the vocabulary. -/
def forcedFromBitmask : Option Nat :=
  let vocabSize := s.grammar.matcher.tokenizerInfo.vocabSize
  if s.bitmaskData.length < bitmaskSize vocabSize * bitsPerWord then none
  else (analyzeBitmask vocabSize s.bitmaskData).tokenId

/-- A question to the bits of this position, with its answer where every token is legal or the matcher is at its
end. -/
def consult {Answer : Type} (unmasked : Answer) (read : CachedGrammarState → Answer) : Option (Answer × CachedGrammarState) :=
  if s.isTerminated then some (unmasked, s)
  else do
    let (filled, after) ← s.fillBitmask
    return (if filled then read after else unmasked, after)

def forcedToken : Option (Option Nat × CachedGrammarState) := s.consult none forcedFromBitmask

def stopLegal (eosTokens : List Token) : Option (Bool × CachedGrammarState) :=
  s.consult true fun after => eosTokens.any after.isTokenAllowed

def completionTokenIds (maxBytes : Nat) : Option (List Token) := s.grammar.completionTokenIds maxBytes

def numHistorySteps : Nat := s.grammar.numHistorySteps

def rollback (n : Nat) : CachedGrammarState := { s with grammar := s.grammar.rollback n, bitmaskValid := false }

def reset : CachedGrammarState := { s with grammar := s.grammar.reset, bitmaskValid := false }

/-- The loop over the drafts: how many are accepted before the first rejection, and the state after it. -/
def acceptDrafts (s : CachedGrammarState) : List Token → Nat × CachedGrammarState
  | [] => (0, s)
  | tok :: drafts =>
    let answer := s.acceptToken tok
    if answer.1 then
      let rest := answer.2.acceptDrafts drafts
      (rest.1 + 1, rest.2)
    else (0, answer.2)

/-- `truncate_drafts_at_grammar_boundary` -/
def truncateDrafts (drafts : List Token) : Nat × CachedGrammarState :=
  if drafts.length < 2 ∨ s.isTerminated then (drafts.length, s)
  else
    let tried := s.acceptDrafts drafts
    -- the steps of the matcher, not the tokens: a stop token is accepted without one
    let advanced := tried.2.numHistorySteps - s.numHistorySteps
    (tried.1, if 0 < advanced then tried.2.rollback advanced else tried.2)

/-! ## The cached bits -/

def Fresh : Prop :=
  s.bitmaskValid = true → s.grammar.refill (resetTokenBitmask s.bitmaskData) = some (s.bitmaskFillResult, s.bitmaskData)

def filledWith (answer : Bool × List Bool) : CachedGrammarState :=
  { s with bitmaskData := answer.2, bitmaskValid := true, bitmaskFillResult := answer.1 }

variable {s} {t : CachedGrammarState}

theorem resetTokenBitmask_eq {bitmask bits : List Bool} (length : bits.length = bitmask.length) :
    resetTokenBitmask bits = resetTokenBitmask bitmask := by rw [resetTokenBitmask, length, resetTokenBitmask]

theorem fillBitmask_eq (fresh : s.Fresh) (running : s.isTerminated = false) :
    s.fillBitmask = (s.grammar.refill (resetTokenBitmask s.bitmaskData)).map
      fun answer => (answer.1, s.filledWith answer) := by
  rw [fillBitmask, running, if_neg Bool.false_ne_true]
  split
  · next valid =>
    rw [fresh valid]
    cases s
    cases valid
    rfl
  · cases s.grammar.refill (resetTokenBitmask s.bitmaskData) with
    | none => rfl
    | some answer => rfl

theorem filledWith_fresh {answer : Bool × List Bool}
    (known : s.grammar.refill (resetTokenBitmask s.bitmaskData) = some answer) : (s.filledWith answer).Fresh := by
  intro _
  obtain ⟨filled, bits⟩ := answer
  change s.grammar.refill (resetTokenBitmask bits) = some (filled, bits)
  have length := MatcherState.refill_length known
  rw [resetTokenBitmask, List.length_replicate] at length
  rwa [resetTokenBitmask_eq length]

theorem fresh_of_invalid (invalid : s.bitmaskValid = false) : s.Fresh := by
  intro valid
  rw [invalid] at valid
  cases valid

theorem fillBitmask_fresh {filled : Bool} {after : CachedGrammarState} (fresh : s.Fresh)
    (answered : s.fillBitmask = some (filled, after)) : after.Fresh := by
  cases terminated : s.isTerminated with
  | true =>
    rw [fillBitmask, terminated, if_pos rfl] at answered
    cases answered
    exact fresh
  | false =>
    rw [fillBitmask_eq fresh terminated] at answered
    obtain ⟨answer, known, same⟩ := Option.map_eq_some_iff.mp answered
    cases same
    exact filledWith_fresh known

theorem refill_sized {bitmask : List Bool}
    (sized : bitmask.length = bitmaskSize s.grammar.matcher.tokenizerInfo.vocabSize * bitsPerWord) :
    s.grammar.refill bitmask = s.grammar.refill (clearBits s.grammar.matcher.tokenizerInfo.vocabSize) := by
  rw [MatcherState.refill, MatcherState.refill, fillNextTokenBitmask, fillNextTokenBitmask]
  simp [sized, clearBits_length, List.drop_eq_nil_of_le sized.le, List.drop_eq_nil_of_le (clearBits_length _).le]

theorem stopLegal_refines {eosTokens : List Token} {legal : Bool} {after : CachedGrammarState} (fresh : s.Fresh)
    (sized : s.bitmaskData.length = bitmaskSize s.grammar.matcher.tokenizerInfo.vocabSize * bitsPerWord)
    (answered : s.stopLegal eosTokens = some (legal, after)) : legal = s.grammar.stopLegal eosTokens := by
  rw [stopLegal, consult] at answered
  split at answered
  · next terminated =>
    cases answered
    rw [MatcherState.stopLegal, show s.grammar.matcher.isTerminated = true from terminated]
    rfl
  · next running =>
    have running := Bool.eq_false_iff.mpr running
    obtain ⟨⟨filled, masked⟩, known, same⟩ := Option.bind_eq_some_iff.mp answered
    rw [fillBitmask_eq fresh running, refill_sized (by rwa [resetTokenBitmask, List.length_replicate])] at known
    obtain ⟨answer, uncached, masks⟩ := Option.map_eq_some_iff.mp known
    have fill := MatcherState.fillBitmask_of_refill uncached
    cases masks
    cases same
    rw [MatcherState.stopLegal, fill, show s.grammar.matcher.isTerminated = false from running]
    cases answer.1 with
    | true => rfl
    | false => rfl

/-! ## Positions -/

structure Alike (s t : CachedGrammarState) : Prop where
  grammar : s.grammar = t.grammar
  length : s.bitmaskData.length = t.bitmaskData.length

theorem Alike.symm (alike : Alike s t) : Alike t s := ⟨alike.grammar.symm, alike.length.symm⟩

theorem Alike.trans {u : CachedGrammarState} (first : Alike s t) (second : Alike t u) : Alike s u :=
  ⟨first.grammar.trans second.grammar, first.length.trans second.length⟩

theorem Alike.isTerminated (alike : Alike s t) : s.isTerminated = t.isTerminated := by
  rw [CachedGrammarState.isTerminated, alike.grammar, CachedGrammarState.isTerminated]

theorem fillBitmask_alike {filled : Bool} {after : CachedGrammarState} (alike : Alike s t) (fresh : s.Fresh)
    (other : t.Fresh) (answered : s.fillBitmask = some (filled, after)) :
    ∃ after', t.fillBitmask = some (filled, after') ∧ Alike after after' ∧
      (filled = true → after.bitmaskData = after'.bitmaskData) := by
  cases terminated : s.isTerminated with
  | true =>
    rw [fillBitmask, terminated, if_pos rfl] at answered
    cases answered
    rw [fillBitmask, ← alike.isTerminated, terminated, if_pos rfl]
    exact ⟨t, rfl, alike, fun masked => nomatch masked⟩
  | false =>
    rw [fillBitmask_eq fresh terminated] at answered
    obtain ⟨answer, known, same⟩ := Option.map_eq_some_iff.mp answered
    cases same
    rw [fillBitmask_eq other (alike.isTerminated ▸ terminated), ← alike.grammar, ← resetTokenBitmask_eq alike.length, known]
    exact ⟨t.filledWith answer, rfl, ⟨alike.grammar, rfl⟩, fun _ => rfl⟩

def Reads {Answer : Type} (read : CachedGrammarState → Answer) : Prop :=
  ∀ s t, Alike s t → s.bitmaskData = t.bitmaskData → read s = read t

theorem consult_alike {Answer : Type} {unmasked answer : Answer} {read : CachedGrammarState → Answer}
    {after : CachedGrammarState} (reads : Reads read) (alike : Alike s t) (fresh : s.Fresh) (other : t.Fresh)
    (answered : s.consult unmasked read = some (answer, after)) :
    ∃ after', t.consult unmasked read = some (answer, after') ∧ Alike after after' := by
  rw [consult] at answered ⊢
  rw [← alike.isTerminated]
  split at answered
  · next terminated =>
    cases answered
    rw [if_pos terminated]
    exact ⟨t, rfl, alike⟩
  · next running =>
    obtain ⟨⟨filled, masked⟩, known, same⟩ := Option.bind_eq_some_iff.mp answered
    obtain ⟨masked', known', alike', bits⟩ := fillBitmask_alike alike fresh other known
    cases same
    rw [if_neg running, known']
    refine ⟨masked', ?_, alike'⟩
    cases filled with
    | false => rfl
    | true => exact congrArg (fun answer => some (answer, masked')) (reads _ _ alike' (bits rfl)).symm

theorem consult_fresh {Answer : Type} {unmasked answer : Answer} {read : CachedGrammarState → Answer}
    {after : CachedGrammarState} (fresh : s.Fresh) (answered : s.consult unmasked read = some (answer, after)) :
    after.Fresh := by
  rw [consult] at answered
  split at answered
  · cases answered
    exact fresh
  · obtain ⟨⟨filled, masked⟩, known, same⟩ := Option.bind_eq_some_iff.mp answered
    cases same
    exact fillBitmask_fresh fresh known

/-! ## The drafts -/

def Accepts : CachedGrammarState → List Token → Prop
  | _, [] => True
  | s, tok :: rest => (s.acceptToken tok).1 = true ∧ (s.acceptToken tok).2.Accepts rest

structure LongestAccepted (s : CachedGrammarState) (drafts : List Token) (kept : Nat) : Prop where
  within : kept ≤ drafts.length
  accepted : s.Accepts (drafts.take kept)
  longest : ∀ more ≤ drafts.length, s.Accepts (drafts.take more) → more ≤ kept

theorem acceptDrafts_longest (s : CachedGrammarState) (drafts : List Token) :
    s.LongestAccepted drafts (s.acceptDrafts drafts).1 := by
  induction drafts generalizing s with
  | nil => exact ⟨Nat.zero_le _, trivial, fun _ within _ => within⟩
  | cons tok drafts ih =>
    have rest := ih (s.acceptToken tok).2
    rw [acceptDrafts]
    dsimp only
    split
    · next accepted =>
      refine ⟨Nat.succ_le_succ rest.within, ⟨accepted, rest.accepted⟩, ?_⟩
      intro more within accepts
      cases more with
      | zero => exact Nat.zero_le _
      | succ more => exact Nat.succ_le_succ (rest.longest more (Nat.le_of_succ_le_succ within) accepts.2)
    · next refused =>
      refine ⟨Nat.zero_le _, trivial, ?_⟩
      intro more within accepts
      cases more with
      | zero => exact Nat.le_refl _
      | succ more => exact absurd accepts.1 refused

theorem accepts_of_terminated (terminated : s.isTerminated = true) (drafts : List Token) : s.Accepts drafts := by
  induction drafts generalizing s with
  | nil => trivial
  | cons tok drafts ih =>
    have kept : s.grammar.acceptToken tok = (s.grammar, true) := by
      rw [MatcherState.acceptToken]
      exact if_pos terminated
    rw [Accepts, acceptToken, kept]
    exact ⟨rfl, ih terminated⟩

theorem acceptDrafts_undone (s : CachedGrammarState) (drafts : List Token) : ∃ advanced,
    (s.acceptDrafts drafts).2.numHistorySteps = s.numHistorySteps + advanced ∧
    (s.acceptDrafts drafts).2.grammar.rollback advanced = s.grammar := by
  induction drafts generalizing s with
  | nil => exact ⟨0, rfl, LawfulGrammarState.rollback_zero s.grammar⟩
  | cons tok drafts ih =>
    have stepped := LawfulGrammarState.acceptToken_steps s.grammar tok
    obtain ⟨advanced, steps, undone⟩ : ∃ advanced,
        (s.acceptDrafts (tok :: drafts)).2.numHistorySteps = (s.acceptToken tok).2.numHistorySteps + advanced ∧
        (s.acceptDrafts (tok :: drafts)).2.grammar.rollback advanced = (s.acceptToken tok).2.grammar := by
      rw [acceptDrafts]
      dsimp only
      split
      · exact ih (s.acceptToken tok).2
      · exact ⟨0, rfl, LawfulGrammarState.rollback_zero (s.acceptToken tok).2.grammar⟩
    cases stepped with
    | inl same => exact ⟨advanced, steps.trans (congrArg (·.numHistorySteps + advanced) same), undone.trans same⟩
    | inr moved =>
      have one : (s.acceptToken tok).2.numHistorySteps = s.numHistorySteps + 1 := moved.1
      have all : (s.acceptDrafts (tok :: drafts)).2.numHistorySteps = s.numHistorySteps + (advanced + 1) := by omega
      refine ⟨advanced + 1, all, ?_⟩
      have within : advanced + 1 ≤ GrammarState.numHistorySteps (s.acceptDrafts (tok :: drafts)).2.grammar :=
        Nat.le_trans (Nat.le_add_left _ _) (Nat.le_of_eq all.symm)
      calc (s.acceptDrafts (tok :: drafts)).2.grammar.rollback (advanced + 1)
          = ((s.acceptDrafts (tok :: drafts)).2.grammar.rollback advanced).rollback 1 :=
            (LawfulGrammarState.rollback_rollback _ advanced 1 within).symm
        _ = (s.acceptToken tok).2.grammar.rollback 1 := congrArg (MatcherState.rollback · 1) undone
        _ = s.grammar := moved.2

theorem acceptDrafts_bitmaskData (s : CachedGrammarState) (drafts : List Token) :
    (s.acceptDrafts drafts).2.bitmaskData = s.bitmaskData := by
  induction drafts generalizing s with
  | nil => rfl
  | cons tok drafts ih =>
    rw [acceptDrafts]
    dsimp only
    split
    · exact ih (s.acceptToken tok).2
    · rfl

theorem acceptDrafts_fresh (fresh : s.Fresh) (drafts : List Token) : (s.acceptDrafts drafts).2.Fresh := by
  induction drafts generalizing s with
  | nil => exact fresh
  | cons tok drafts ih =>
    have first : (s.acceptToken tok).2.Fresh := fresh_of_invalid rfl
    rw [acceptDrafts]
    dsimp only
    split
    · exact ih first
    · exact first

theorem truncateDrafts_alike (s : CachedGrammarState) (drafts : List Token) : Alike (s.truncateDrafts drafts).2 s := by
  rw [truncateDrafts]
  split
  · exact ⟨rfl, rfl⟩
  · obtain ⟨advanced, steps, undone⟩ := acceptDrafts_undone s drafts
    dsimp only
    rw [steps, Nat.add_sub_cancel_left]
    have bits := congrArg List.length (acceptDrafts_bitmaskData s drafts)
    split
    · exact ⟨undone, bits⟩
    · next none =>
      cases Nat.eq_zero_of_not_pos none
      exact ⟨(LawfulGrammarState.rollback_zero _).symm.trans undone, bits⟩

theorem truncateDrafts_fresh (fresh : s.Fresh) (drafts : List Token) : (s.truncateDrafts drafts).2.Fresh := by
  rw [truncateDrafts]
  split
  · exact fresh
  · dsimp only
    split
    · exact fresh_of_invalid rfl
    · exact acceptDrafts_fresh fresh drafts

theorem truncateDrafts_longest (s : CachedGrammarState) {drafts : List Token} (several : drafts.length ≠ 1) :
    s.LongestAccepted drafts (s.truncateDrafts drafts).1 := by
  rw [truncateDrafts]
  split
  · next skipped =>
    refine ⟨Nat.le_refl _, ?_, fun _ within _ => within⟩
    rw [List.take_length]
    cases skipped with
    | inl few =>
      have none : drafts = [] := List.eq_nil_of_length_eq_zero (by omega)
      rw [none]
      trivial
    | inr terminated => exact accepts_of_terminated terminated drafts
  · exact acceptDrafts_longest s drafts

/-! ## Runs -/

theorem acceptToken_alike (alike : Alike s t) (tok : Token) :
    (s.acceptToken tok).1 = (t.acceptToken tok).1 ∧ Alike (s.acceptToken tok).2 (t.acceptToken tok).2 := by
  rw [acceptToken, alike.grammar]
  exact ⟨rfl, rfl, alike.length⟩

theorem acceptDrafts_alike (alike : Alike s t) (drafts : List Token) : (s.acceptDrafts drafts).1 = (t.acceptDrafts drafts).1 := by
  induction drafts generalizing s t with
  | nil => rfl
  | cons tok drafts ih =>
    obtain ⟨same, next⟩ := acceptToken_alike alike tok
    rw [acceptDrafts, acceptDrafts]
    dsimp only
    rw [same]
    split
    · exact congrArg (· + 1) (ih next)
    · rfl

theorem truncateDrafts_kept (alike : Alike s t) (drafts : List Token) :
    (s.truncateDrafts drafts).1 = (t.truncateDrafts drafts).1 := by
  rw [truncateDrafts, truncateDrafts, alike.isTerminated]
  split
  · rfl
  · exact acceptDrafts_alike alike drafts

/-- The calls on a grammar state, with what they answered.  A mask without a token ruled out is not looked at. -/
inductive Call where
  | fillBitmask (filled : Bool) (mask : List Bool)
  | acceptToken (tok : Token) (accepted : Bool)
  | forcedToken (forced : Option Nat)
  | stopLegal (eosTokens : List Token) (legal : Bool)
  | completionTokenIds (maxBytes : Nat) (found : Option (List Token))
  | numHistorySteps (steps : Nat)
  | rollback (n : Nat)
  | reset
  | truncateDrafts (drafts : List Token) (kept : Nat)

inductive Performs : CachedGrammarState → Call → CachedGrammarState → Prop where
  | fillBitmask {before after : CachedGrammarState} {filled : Bool} : before.fillBitmask = some (filled, after) →
      Performs before (.fillBitmask filled (if filled then after.bitmaskData else [])) after
  | acceptToken {before : CachedGrammarState} {tok : Token} :
      Performs before (.acceptToken tok (before.acceptToken tok).1) (before.acceptToken tok).2
  | forcedToken {before after : CachedGrammarState} {forced : Option Nat} : before.forcedToken = some (forced, after) →
      Performs before (.forcedToken forced) after
  | stopLegal {before after : CachedGrammarState} {eosTokens : List Token} {legal : Bool} :
      before.stopLegal eosTokens = some (legal, after) → Performs before (.stopLegal eosTokens legal) after
  | completionTokenIds {before : CachedGrammarState} {maxBytes : Nat} :
      Performs before (.completionTokenIds maxBytes (before.completionTokenIds maxBytes)) before
  | numHistorySteps {before : CachedGrammarState} : Performs before (.numHistorySteps before.numHistorySteps) before
  | rollback {before : CachedGrammarState} {n : Nat} : n ≤ before.numHistorySteps →
      Performs before (.rollback n) (before.rollback n)
  | reset {before : CachedGrammarState} : Performs before .reset before.reset
  | truncateDrafts {before : CachedGrammarState} {drafts : List Token} :
      Performs before (.truncateDrafts drafts (before.truncateDrafts drafts).1) (before.truncateDrafts drafts).2

theorem Performs.fresh {call : Call} (performs : Performs s call t) (fresh : s.Fresh) : t.Fresh := by
  cases performs with
  | fillBitmask answered => exact fillBitmask_fresh fresh answered
  | acceptToken => exact fresh_of_invalid rfl
  | forcedToken answered => exact consult_fresh fresh answered
  | stopLegal answered => exact consult_fresh fresh answered
  | completionTokenIds => exact fresh
  | numHistorySteps => exact fresh
  | rollback => exact fresh_of_invalid rfl
  | reset => exact fresh_of_invalid rfl
  | truncateDrafts => exact truncateDrafts_fresh fresh _

theorem reads_forcedFromBitmask : Reads forcedFromBitmask := by
  intro s t alike bits
  rw [forcedFromBitmask, alike.grammar, bits, forcedFromBitmask]

theorem reads_isTokenAllowed (eosTokens : List Token) : Reads fun after => eosTokens.any after.isTokenAllowed := by
  intro s t _ bits
  have allowed : s.isTokenAllowed = t.isTokenAllowed := by
    funext tok
    rw [isTokenAllowed, bits, isTokenAllowed]
  dsimp only
  rw [allowed]

theorem Performs.alike {call : Call} {after : CachedGrammarState} (performs : Performs s call after) (alike : Alike s t)
    (fresh : s.Fresh) (other : t.Fresh) : ∃ after', Performs t call after' ∧ Alike after after' := by
  cases performs with
  | @fillBitmask _ filled answered =>
    obtain ⟨after', known, alike', bits⟩ := fillBitmask_alike alike fresh other answered
    have masks : (if filled then after.bitmaskData else []) = if filled then after'.bitmaskData else [] := by
      split
      · next masked => exact bits masked
      · rfl
    rw [masks]
    exact ⟨after', .fillBitmask known, alike'⟩
  | @acceptToken tok =>
    obtain ⟨same, next⟩ := acceptToken_alike alike tok
    rw [same]
    exact ⟨_, .acceptToken, next⟩
  | forcedToken answered =>
    obtain ⟨after', known, alike'⟩ := consult_alike reads_forcedFromBitmask alike fresh other answered
    exact ⟨after', .forcedToken known, alike'⟩
  | @stopLegal _ eosTokens _ answered =>
    obtain ⟨after', known, alike'⟩ := consult_alike (reads_isTokenAllowed eosTokens) alike fresh other answered
    exact ⟨after', .stopLegal known, alike'⟩
  | completionTokenIds =>
    rw [CachedGrammarState.completionTokenIds, alike.grammar]
    exact ⟨t, .completionTokenIds, alike⟩
  | numHistorySteps =>
    rw [CachedGrammarState.numHistorySteps, alike.grammar]
    exact ⟨t, .numHistorySteps, alike⟩
  | @rollback n within =>
    rw [CachedGrammarState.numHistorySteps, alike.grammar] at within
    exact ⟨t.rollback n, .rollback within, congrArg (MatcherState.rollback · n) alike.grammar, alike.length⟩
  | reset => exact ⟨t.reset, .reset, congrArg MatcherState.reset alike.grammar, alike.length⟩
  | @truncateDrafts drafts =>
    rw [truncateDrafts_kept alike]
    exact ⟨_, .truncateDrafts, (truncateDrafts_alike s drafts).trans (alike.trans (truncateDrafts_alike t drafts).symm)⟩

structure Interchangeable (s t : CachedGrammarState) : Prop where
  alike : Alike s t
  fresh : s.Fresh
  other : t.Fresh

theorem run_alike {calls : List Call} {last : CachedGrammarState} (initial : Interchangeable s t)
    (run : Run Performs s calls last) : ∃ last', Run Performs t calls last' := by
  have forward : ∀ before call after spec, Interchangeable before spec → Performs before call after →
      ∃ after', Performs spec call after' ∧ Interchangeable after after' := by
    intro before call after spec related performs
    obtain ⟨after', performed, alike⟩ := performs.alike related.alike related.fresh related.other
    exact ⟨after', performed, alike, performs.fresh related.fresh, performed.fresh related.other⟩
  obtain ⟨last', matched, -⟩ := run.simulates initial forward
  exact ⟨last', matched⟩

/-- In every run the cached bits are those of a fresh fill, and the drafts are cut after the longest run of accepted
ones, or not at all when there is one, with the same answers to every later call. -/
theorem truncate_drafts_sound (grammar : GrammarData) (info : TokenizerInfo) (masks : MaskCache) (stopTokens : List Token)
    (vocabSize : Nat) {calls : List Call} {s : CachedGrammarState}
    (run : Run Performs (.new (.new grammar info masks stopTokens) vocabSize) calls s) (drafts : List Token) :
    s.Fresh ∧
    (drafts.length = 1 ∧ (s.truncateDrafts drafts).1 = 1 ∨ s.LongestAccepted drafts (s.truncateDrafts drafts).1) ∧
    ∀ later, (∃ last, Run Performs (s.truncateDrafts drafts).2 later last) ↔ ∃ last, Run Performs s later last := by
  have fresh : s.Fresh := run.invariant Fresh (fresh_of_invalid rfl) fun _ _ _ fresh performs => performs.fresh fresh
  have alike := truncateDrafts_alike s drafts
  have cut := truncateDrafts_fresh fresh drafts
  refine ⟨fresh, ?_, fun later => ⟨?_, ?_⟩⟩
  · by_cases single : drafts.length = 1
    · have untried : s.truncateDrafts drafts = (drafts.length, s) := by
        rw [truncateDrafts, if_pos (.inl (single ▸ Nat.one_lt_two))]
      exact .inl ⟨single, by rw [untried, single]⟩
    · exact .inr (truncateDrafts_longest s single)
  · intro ⟨last, continued⟩
    exact run_alike ⟨alike, cut, fresh⟩ continued
  · intro ⟨last, continued⟩
    exact run_alike ⟨alike.symm, fresh, cut⟩ continued

/-- Of the drafts `ab` and `ax` the grammar of `ab` accepts the first. -/
theorem truncate_drafts_sound_spelled :
    let s : CachedGrammarState := .new (.new spelled.grammar spelled.tokenizerInfo MatcherState.spelled.masks [2]) 3
    s.Fresh ∧
    (([0, 1] : List Token).length = 1 ∧ (s.truncateDrafts [0, 1]).1 = 1 ∨
      s.LongestAccepted [0, 1] (s.truncateDrafts [0, 1]).1) ∧
    (∀ later, (∃ last, Run Performs (s.truncateDrafts [0, 1]).2 later last) ↔ ∃ last, Run Performs s later last) ∧
    (s.truncateDrafts [0, 1]).1 = 1 := by
  obtain ⟨fresh, kept, later⟩ := truncate_drafts_sound spelled.grammar spelled.tokenizerInfo MatcherState.spelled.masks [2]
    3 .start [0, 1]
  exact ⟨fresh, kept, later, by rfl⟩

/-- The draft `ax` alone is kept, which the grammar of `ab` rejects. -/
theorem single_draft_untried : ¬ ∀ (grammar : GrammarData) (info : TokenizerInfo) (masks : MaskCache)
    (stopTokens : List Token) (vocabSize : Nat) (calls : List Call) (s : CachedGrammarState),
    Run Performs (.new (.new grammar info masks stopTokens) vocabSize) calls s → ∀ drafts,
    s.LongestAccepted drafts (s.truncateDrafts drafts).1 := by
  intro always
  have kept := (always spelled.grammar spelled.tokenizerInfo MatcherState.spelled.masks [2] 3 [] _ .start [1]).accepted
  exact Bool.noConfusion kept.1

end CachedGrammarState

end Metrale.Scheduler
