import Metrale.Grammar.Matcher.Atomicity
import Metrale.Scheduler.ActiveSeq

/-! # The grammar of a sequence (`grammar/state.rs`)

The matcher with the stop tokens that never reach it.  Its steps can be rolled back, which is all that the decode loop
knows of it. -/

namespace Metrale.Scheduler

open Foundation Grammar GrammarMatcher

/-- A token adds one step or none, and steps are rolled back one by one. -/
class LawfulGrammarState (Grammar : Type*) [GrammarState Grammar] : Prop where
  rollback_zero : ∀ grammar : Grammar, GrammarState.rollback grammar 0 = grammar
  numHistorySteps_rollback : ∀ (grammar : Grammar) (n : Nat), n ≤ GrammarState.numHistorySteps grammar →
    GrammarState.numHistorySteps (GrammarState.rollback grammar n) = GrammarState.numHistorySteps grammar - n
  rollback_rollback : ∀ (grammar : Grammar) (n m : Nat), n + m ≤ GrammarState.numHistorySteps grammar →
    GrammarState.rollback (GrammarState.rollback grammar n) m = GrammarState.rollback grammar (n + m)
  acceptToken_steps : ∀ (grammar : Grammar) (tok : Token), (GrammarState.acceptToken grammar tok).1 = grammar ∨
    GrammarState.numHistorySteps (GrammarState.acceptToken grammar tok).1 = GrammarState.numHistorySteps grammar + 1 ∧
      GrammarState.rollback (GrammarState.acceptToken grammar tok).1 1 = grammar

instance : LawfulGrammarState Empty where
  rollback_zero grammar := grammar.elim
  numHistorySteps_rollback grammar := grammar.elim
  rollback_rollback grammar := grammar.elim
  acceptToken_steps grammar := grammar.elim

theorem stepped_cases {matcher : GrammarMatcher} {answer : Bool × GrammarMatcher} (stepped : matcher.Stepped answer) :
    answer.2 = matcher ∨ answer.2.parser.Seeded ∧ answer.2.rollbackStep = some matcher := by
  cases stepped with
  | accepted seeded rolled => exact .inr ⟨seeded, rolled⟩
  | refused => exact .inl rfl

structure MatcherState where
  matcher : GrammarMatcher
  masks : MaskCache
  stopTokens : List Token
  undone : ∃ trace, Undone (matcher, trace)

namespace MatcherState

variable (s : MatcherState)

theorem seeded : s.matcher.parser.Seeded := by
  obtain ⟨trace, undone⟩ := s.undone
  exact undone.seeded

/-- `tok as i32` -/
def matched (tok : Token) : Bool × GrammarMatcher :=
  (s.matcher.acceptToken tok.toInt32.toInt).get <| by
    obtain ⟨answer, known, -⟩ := acceptToken_stepped s.seeded tok.toInt32.toInt
    rw [known]
    rfl

theorem matched_stepped (tok : Token) : s.matcher.Stepped (s.matched tok) :=
  (acceptToken_stepped s.seeded tok.toInt32.toInt).whenever _ (Option.some_get _).symm

theorem matched_cases (tok : Token) : (s.matched tok).2 = s.matcher ∨
    (s.matched tok).2.parser.Seeded ∧ (s.matched tok).2.rollbackStep = some s.matcher :=
  stepped_cases (s.matched_stepped tok)

theorem matched_undone (tok : Token) : ∃ trace, Undone ((s.matched tok).2, trace) := by
  obtain ⟨trace, undone⟩ := s.undone
  rcases s.matched_cases tok with refused | ⟨seeded, rolled⟩
  · exact ⟨trace, by rwa [refused]⟩
  · exact ⟨_, .step seeded rolled undone⟩

def acceptToken (tok : Token) : MatcherState × Bool :=
  if s.matcher.isTerminated then (s, true)
  else if tok ∈ s.stopTokens then (s, true)
  else ({ s with matcher := (s.matched tok).2, undone := s.matched_undone tok }, (s.matched tok).1)

/-- Whether some token is ruled out, and the bits of the rest. -/
def fillBitmask : Bool × List Bool :=
  match s.matcher.fillNextTokenBitmask s.masks (clearBits s.matcher.tokenizerInfo.vocabSize) 0 with
  | some (.ok filled, _) => filled
  | _ => (false, [])

def stopLegal (eosTokens : List Token) : Bool :=
  s.matcher.isTerminated || !s.fillBitmask.1 || eosTokens.any fun tok => s.fillBitmask.2.getD tok.toNat false

def completionTokenIds (maxBytes : Nat) : Option (List Token) :=
  match s.matcher.findCompletionTokenIds maxBytes with
  | some (some ids, _) => some (ids.map UInt32.ofNat)
  | _ => none

def numHistorySteps : Nat := s.matcher.numHistorySteps

theorem rollback_answers {n : Nat} (within : n ≤ s.numHistorySteps) :
    Answers (s.matcher.rollback n) fun first => ∃ trace, Undone (first, trace) := by
  obtain ⟨trace, undone⟩ := s.undone
  rw [numHistorySteps, GrammarMatcher.numHistorySteps, undone.length] at within
  exact (undone.rollback (n := (n : Int)) (by simpa using within)).imp fun first known => ⟨_, known.2⟩

/-- More steps than there are panic in the source; no caller asks for them. -/
def rollback (n : Nat) : MatcherState :=
  if within : n ≤ s.numHistorySteps then
    { s with
      matcher := (s.matcher.rollback n).get (by obtain ⟨first, known, -⟩ := s.rollback_answers within; rw [known]; rfl)
      undone := (s.rollback_answers within).whenever _ (Option.some_get _).symm }
  else s

def reset : MatcherState :=
  { s with
    matcher := s.matcher.reset
    undone := ⟨[], .first (EarleyParser.fromGrammar_seeded s.matcher.grammar) rfl⟩ }

theorem rollbackLoop_rollback {n : Nat} (within : n ≤ s.numHistorySteps) :
    rollbackLoop n s.matcher = some (s.rollback n).matcher := by
  have known : s.matcher.rollback n = some (s.rollback n).matcher := by
    rw [rollback, dif_pos within]
    exact (Option.some_get _).symm
  rw [GrammarMatcher.rollback] at known
  split at known
  · exact known
  · cases known

variable {s} in
theorem eq_of_matcher {other : MatcherState} (matcher : other.matcher = s.matcher) (masks : other.masks = s.masks)
    (stopTokens : other.stopTokens = s.stopTokens) : other = s := by
  cases s
  cases other
  cases matcher
  cases masks
  cases stopTokens
  rfl

theorem rollback_masks (n : Nat) : (s.rollback n).masks = s.masks := by
  rw [rollback]
  split
  · rfl
  · rfl

theorem rollback_stopTokens (n : Nat) : (s.rollback n).stopTokens = s.stopTokens := by
  rw [rollback]
  split
  · rfl
  · rfl

theorem rollback_eq {n : Nat} {first : MatcherState} (rolled : rollbackLoop n s.matcher = some first.matcher)
    (masks : first.masks = s.masks) (stopTokens : first.stopTokens = s.stopTokens) : s.rollback n = first := by
  have within : n ≤ s.numHistorySteps := by
    rw [numHistorySteps, GrammarMatcher.numHistorySteps, rollbackLoop_length rolled]
    exact Nat.le_add_left _ _
  have known := s.rollbackLoop_rollback within
  rw [rolled] at known
  exact eq_of_matcher (Option.some.inj known).symm ((s.rollback_masks n).trans masks.symm)
    ((s.rollback_stopTokens n).trans stopTokens.symm)

end MatcherState

instance : GrammarState MatcherState where
  acceptToken := MatcherState.acceptToken
  isTerminated s := s.matcher.isTerminated
  stopLegal := MatcherState.stopLegal
  completionTokenIds := MatcherState.completionTokenIds
  numHistorySteps := MatcherState.numHistorySteps
  rollback := MatcherState.rollback

instance : LawfulGrammarState MatcherState where
  rollback_zero s := s.rollback_eq rfl rfl rfl
  numHistorySteps_rollback s n within := by
    have rolled := rollbackLoop_length (s.rollbackLoop_rollback within)
    change (s.rollback n).matcher.tokenLengthHistory.length = s.matcher.tokenLengthHistory.length - n
    omega
  rollback_rollback s n m within := by
    have first : n ≤ s.numHistorySteps := Nat.le_trans (Nat.le_add_right n m) within
    have rolled := s.rollbackLoop_rollback first
    have second : m ≤ (s.rollback n).numHistorySteps := by
      have lengths := rollbackLoop_length rolled
      change n + m ≤ s.matcher.tokenLengthHistory.length at within
      change m ≤ (s.rollback n).matcher.tokenLengthHistory.length
      omega
    refine (s.rollback_eq (rollbackLoop_append rolled ((s.rollback n).rollbackLoop_rollback second)) ?_ ?_).symm
    · exact ((s.rollback n).rollback_masks m).trans (s.rollback_masks n)
    · exact ((s.rollback n).rollback_stopTokens m).trans (s.rollback_stopTokens n)
  acceptToken_steps s tok := by
    change (s.acceptToken tok).1 = s ∨ (s.acceptToken tok).1.numHistorySteps = s.numHistorySteps + 1 ∧
      (s.acceptToken tok).1.rollback 1 = s
    rw [MatcherState.acceptToken]
    split
    · exact .inl rfl
    · split
      · exact .inl rfl
      · cases s.matched_cases tok with
        | inl refused => exact .inl (MatcherState.eq_of_matcher refused rfl rfl)
        | inr accepted =>
          have rolled := accepted.2
          exact .inr ⟨rollbackStep_length rolled, MatcherState.rollback_eq _ (rollbackLoop_one rolled) rfl rfl⟩

theorem spelled_undone : ∃ trace, Undone (spelled, trace) :=
  ⟨[], .first (new_seeded (by rfl : new spelled.grammar spelled.tokenizerInfo none false = some spelled)).1 rfl⟩

/-- Nothing is read yet of `ab`, whose stop token never reaches the matcher. -/
def MatcherState.spelled : MatcherState := ⟨GrammarMatcher.spelled, fun _ _ => ⟨.accepted, [], [], [], []⟩, [2], spelled_undone⟩

end Metrale.Scheduler
