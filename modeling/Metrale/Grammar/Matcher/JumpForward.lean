import Metrale.Grammar.Matcher.Completion

/-! # Where the jump-forward search ends

The search follows the only byte there is.  It has no bound, so it ends exactly where its text meets a state that rests:
one that is completed or leaves a choice. -/

namespace Metrale.Grammar

open Metrale.Foundation

namespace EarleyParser

variable {grammar : GrammarData} {parser advanced last : EarleyParser} {bytes : List UInt8} {byte : UInt8}

/-- The root is completed, or there is no only byte that is accepted. -/
def Rests (grammar : GrammarData) (parser : EarleyParser) : Prop :=
  parser.completed = true ∨
    ∀ byte, allBytes.filter (parser.acceptableByteMask grammar) = [byte] → (parser.advance grammar byte).1 = false

inductive Offers (grammar : GrammarData) : EarleyParser → List UInt8 → EarleyParser → Prop where
  | nil {parser : EarleyParser} : Offers grammar parser [] parser
  | cons {parser advanced last : EarleyParser} {byte : UInt8} {bytes : List UInt8} :
      parser.acceptableByteMask grammar byte = true → parser.advance grammar byte = (true, advanced) →
      Offers grammar advanced bytes last → Offers grammar parser (byte :: bytes) last

theorem mem_allBytes (byte : UInt8) : byte ∈ allBytes := by
  refine List.mem_map.mpr ⟨byte.toNat, List.mem_range.mpr byte.toNat_lt, ?_⟩
  exact UInt8.ofNat_toNat

theorem advance_refused {kept : EarleyParser} (answered : parser.advance grammar byte = (false, kept)) : kept = parser := by
  simp only [advance] at answered
  split at answered
  · cases answered
    rfl
  · cases answered

theorem jumpForward_offers {rounds : Nat} {result : List UInt8} (ended : parser.jumpForward grammar rounds = some (result, last)) :
    Offers grammar parser result last ∧ last.Rests grammar := by
  induction rounds generalizing parser result with
  | zero => cases ended
  | succ rounds ih =>
    rw [jumpForward] at ended
    split at ended
    · next completed =>
      cases ended
      exact ⟨.nil, .inl completed⟩
    · split at ended
      · next byte only =>
        have masked : parser.acceptableByteMask grammar byte = true := by
          have listed : byte ∈ allBytes.filter (parser.acceptableByteMask grammar) := by
            rw [only]
            exact List.mem_singleton_self byte
          exact (List.mem_filter.mp listed).2
        split at ended
        · next answered =>
          obtain ⟨⟨rest, end_⟩, later, same⟩ := Option.bind_eq_some_iff.mp ended
          cases same
          obtain ⟨offers, rests⟩ := ih later
          exact ⟨.cons masked answered offers, rests⟩
        · next answered =>
          cases ended
          rw [advance_refused answered]
          refine ⟨.nil, .inr fun other same => ?_⟩
          rw [only] at same
          cases same
          rw [answered]
      · next several =>
        cases ended
        exact ⟨.nil, .inr fun byte only => absurd only (several byte)⟩

theorem jumpForward_ends (offers : Offers grammar parser bytes last) (rests : last.Rests grammar) :
    ∃ answer, parser.jumpForward grammar (bytes.length + 1) = some answer := by
  induction offers with
  | @nil parser =>
    rw [jumpForward]
    split
    · exact ⟨_, rfl⟩
    · next running =>
      split
      · next byte only =>
        obtain completed | refuses := rests
        · exact absurd completed running
        · have refused := refuses byte only
          split
          · next answered =>
            rw [answered] at refused
            cases refused
          · exact ⟨_, rfl⟩
      · exact ⟨_, rfl⟩
  | @cons parser advanced last byte bytes masked accepted _ ih =>
    rw [jumpForward]
    split
    · exact ⟨_, rfl⟩
    · split
      · next next only =>
        -- the byte is in the mask, which has one byte
        have listed : byte ∈ allBytes.filter (parser.acceptableByteMask grammar) :=
          List.mem_filter.mpr ⟨mem_allBytes byte, masked⟩
        rw [only, List.mem_singleton] at listed
        subst listed
        obtain ⟨answer, ended⟩ := ih rests
        rw [accepted]
        dsimp only
        rw [List.length_cons, ended]
        exact ⟨_, rfl⟩
      · exact ⟨_, rfl⟩

end EarleyParser

namespace GrammarMatcher

variable {grammar : GrammarData} {info : TokenizerInfo} {matcher : GrammarMatcher}

theorem findJumpForwardString_ends_iff (seeded : matcher.parser.Seeded) :
    (∃ rounds answer, matcher.findJumpForwardString rounds = some answer) ↔
      matcher.stopTokenAccepted = true ∨
        ∃ bytes last, EarleyParser.Offers matcher.grammar matcher.parser bytes last ∧ last.Rests matcher.grammar := by
  constructor
  · rintro ⟨rounds, answer, ended⟩
    rw [findJumpForwardString] at ended
    split at ended
    · next stopped => exact .inl stopped
    · obtain ⟨⟨result, last⟩, searched, -⟩ := Option.bind_eq_some_iff.mp ended
      exact .inr ⟨result, last, EarleyParser.jumpForward_offers searched⟩
  · intro condition
    by_cases stopped : matcher.stopTokenAccepted = true
    · refine ⟨0, ([], matcher), ?_⟩
      rw [findJumpForwardString, if_pos stopped]
    · obtain ⟨bytes, last, offers, rests⟩ := condition.resolve_left stopped
      obtain ⟨⟨result, reached⟩, ended⟩ := EarleyParser.jumpForward_ends offers rests
      refine ⟨bytes.length + 1, (result, matcher), ?_⟩
      have above := (EarleyParser.Over.refl seeded).jumpForward _ ended
      dsimp only at above
      rw [Nat.zero_add] at above
      rw [findJumpForwardString, if_neg stopped, ended]
      cases result with
      | nil =>
        cases above.eq
        rfl
      | cons byte rest =>
        change (do
          let parser ← reached.popRows (byte :: rest).length
          pure (byte :: rest, { matcher with parser })) = _
        rw [above.popAll]
        rfl

theorem acceptForced_short (masks : MaskCache) (max : Nat) (matcher : GrammarMatcher) :
    Whenever (matcher.acceptForced masks max) fun answer => answer.1.length ≤ max := by
  induction max generalizing matcher with
  | zero => exact .intro (Nat.le_refl _)
  | succ max ih =>
    rw [acceptForced]
    refine Whenever.bind (fun value _ => trivial) ?_
    rintro ⟨forced, peeked⟩ -
    cases forced with
    | none => exact .intro (Nat.zero_le _)
    | some token =>
      refine Whenever.bind (fun value _ => trivial) ?_
      rintro ⟨accepted, next⟩ -
      dsimp only
      split
      · split
        · exact .intro (Nat.succ_le_succ (Nat.zero_le _))
        · refine Whenever.bind (ih next) ?_
          rintro ⟨chain, last⟩ short
          exact .intro (Nat.succ_le_succ short)
      · exact .intro (Nat.zero_le _)

end GrammarMatcher

/-! ## An endless text -/

/-- `root ::= "a" root` -/
def endlessGrammar : GrammarData where
  rules := [⟨0⟩]
  rootRuleId := 0
  allowEmptyRuleIds := []
  completeFsm := ⟨[], []⟩
  perRuleFsms := [⟨⟨[[⟨.charRange 97 97, 1⟩], [⟨.ruleRef 0, 2⟩], []], []⟩, 0, [false, false, true]⟩]

def endlessCompiled : CompiledGrammar where
  toGrammarData := endlessGrammar
  rootInRange := by decide
  startInRange := by decide
  targetInRange := by decide
  refereeInRange := by decide

def endlessStart : ParserState := ⟨0, 0, 0, none, 0⟩

namespace EarleyParser

variable {parser : EarleyParser}

structure Endless (parser : EarleyParser) : Prop where
  waits : parser.latestScanableStates = [endlessStart]
  running : parser.completed = false

theorem endless_drain (earlier : List (List CompletableEntry)) (items : Nat) :
    endlessGrammar.drain earlier (items + 3)
        ⟨[], [⟨0, 0, 1, none, 0⟩], [⟨0, 0, 1, none, 0⟩], [], false⟩ =
      ⟨[], [], [endlessStart, ⟨0, 0, 1, none, 0⟩], [endlessStart], false⟩ := rfl

theorem Endless.advance (endless : parser.Endless) :
    ∃ advanced, parser.advance endlessGrammar 97 = (true, advanced) ∧ advanced.Endless := by
  have scanned : parser.scanned endlessGrammar 97 = ⟨[], [⟨0, 0, 1, none, 0⟩], [⟨0, 0, 1, none, 0⟩], [], false⟩ := by
    rw [EarleyParser.scanned, endless.waits]
    rfl
  have bound : ∃ items, endlessGrammar.itemBound parser.completable.length = items + 3 := by
    refine ⟨endlessGrammar.itemBound parser.completable.length - 3, ?_⟩
    have total : endlessGrammar.itemBound parser.completable.length = 1 * (3 * ((parser.completable.length + 2) * 1)) := rfl
    omega
  obtain ⟨items, bound⟩ := bound
  refine ⟨parser.pushRound endlessGrammar ⟨[], [], [endlessStart, ⟨0, 0, 1, none, 0⟩], [endlessStart], false⟩, ?_, ?_, ?_⟩
  · rw [EarleyParser.advance, scanned]
    dsimp only
    rw [GrammarData.drained, bound, endless_drain]
    rfl
  · rw [latestScanableStates, pushRound, List.getLastD_concat]
    decide
  · rw [completed, pushRound, List.getLastD_concat]

theorem Endless.jumpForward (endless : parser.Endless) (rounds : Nat) : parser.jumpForward endlessGrammar rounds = none := by
  induction rounds generalizing parser with
  | zero => rfl
  | succ rounds ih =>
    obtain ⟨advanced, answered, later⟩ := endless.advance
    have only : allBytes.filter (parser.acceptableByteMask endlessGrammar) = [97] := by
      unfold acceptableByteMask
      rw [endless.waits]
      decide +kernel
    rw [EarleyParser.jumpForward, if_neg (by rw [endless.running]; exact Bool.false_ne_true), only]
    dsimp only
    rw [answered]
    dsimp only
    rw [ih later]
    rfl

end EarleyParser

namespace GrammarMatcher

def endlessMatcher : GrammarMatcher where
  grammar := endlessGrammar
  tokenizerInfo := ⟨1, [[97]], [(0, [97])], [1], [], []⟩
  parser := ⟨[false], [[]], [[endlessStart]], false⟩
  stopTokenIds := []
  terminateWithoutStopToken := false
  stopTokenAccepted := false
  tokenLengthHistory := []

theorem endlessMatcher_made : new endlessGrammar endlessMatcher.tokenizerInfo none false = some endlessMatcher := rfl

end GrammarMatcher

end Metrale.Grammar
