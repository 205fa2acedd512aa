import Metrale.Grammar.Earley.Repeats
import Metrale.Grammar.Matcher.JumpForward

/-! # What a matcher has read

A matcher is a stack of byte strings: an accepted step pushes the bytes of its token, and a rollback pops as many as it
rolls back.  Its parser is the one that has read them, whatever was asked, refused or rolled back in between. -/

namespace Metrale.Grammar

open Metrale.Foundation EarleyParser

variable {grammar : GrammarData} {compiled : CompiledGrammar} {info : TokenizerInfo} {override : Option (List Int)}
  {terminate : Bool}

theorem EarleyParser.advanceAll_eq (grammar : GrammarData) (consumed : Nat) (parser : EarleyParser)
    (bytes : List UInt8) :
    parser.advanceAll grammar bytes = if (parser.advanceBytes grammar consumed bytes).1
      then some (parser.advanceBytes grammar consumed bytes).2.2 else none := by
  induction bytes generalizing consumed parser with
  | nil => rfl
  | cons byte rest ih =>
    rw [advanceAll, advanceBytes]
    obtain ⟨accepted, advanced⟩ := parser.advance grammar byte
    cases accepted with
    | true => exact ih (consumed + 1) advanced
    | false => rfl

def GrammarData.RangesInBytes (grammar : GrammarData) : Prop :=
  ∀ ruleId source, ∀ edge ∈ (grammar.fsmOf ruleId).edges source, ∀ min max, edge.edgeType = .charRange min max → max < 256

theorem EarleyParser.acceptableByteMask_of_advanceAll (inBytes : grammar.RangesInBytes) {parser after : EarleyParser}
    {byte : UInt8} (reads : parser.advanceAll grammar [byte] = some after) :
    parser.acceptableByteMask grammar byte = true := by
  by_cases readable : parser.CanRead grammar byte
  · obtain ⟨state, scanable, edge, leads, min, max, kind, low, high⟩ := readable
    have top := inBytes _ _ edge leads min max kind
    refine List.any_eq_true.mpr ⟨state, scanable, List.any_eq_true.mpr ⟨edge, leads, ?_⟩⟩
    rw [kind]
    dsimp only
    rw [Nat.mod_eq_of_lt top, Nat.mod_eq_of_lt (by omega : min < 256), Bool.and_eq_true, decide_eq_true_eq, decide_eq_true_eq]
    exact ⟨low, high⟩
  · rw [advanceAll, advance_of_not_canRead readable] at reads
    cases reads

namespace GrammarMatcher

variable {matcher after first last : GrammarMatcher} {trace : List GrammarMatcher} {chunks : List (List UInt8)}
  {calls : List Call} {bytes more rest : List UInt8} {tokenId : Int}

/-! ## The stack -/

def tokenBytes (matcher : GrammarMatcher) (tokenId : Int) : List UInt8 :=
  if tokenId ∈ matcher.stopTokenIds then [] else matcher.tokenizerInfo.decodedVocab.getD tokenId.toNat []

/-- The bytes of the accepted steps that are not rolled back, the latest first. -/
def Call.written (before : GrammarMatcher) (chunks : List (List UInt8)) : Call → List (List UInt8)
  | .acceptToken tokenId true => before.tokenBytes tokenId :: chunks
  | .acceptBytes bytes true => bytes :: chunks
  | .rollback n => chunks.drop n.toNat
  | _ => chunks

def Writes (before : GrammarMatcher × List (List UInt8)) (call : Call)
    (after : GrammarMatcher × List (List UInt8)) : Prop :=
  before.1.Performs call after.1 ∧ after.2 = call.written before.1 before.2

/-- A stop token was accepted only where the root is completed. -/
structure HasRead (grammar : GrammarData) (chunks : List (List UInt8)) (matcher : GrammarMatcher) : Prop where
  parsed : (fromGrammar grammar).advanceAll grammar chunks.reverse.flatten = some matcher.parser
  stopped : matcher.stopTokenAccepted = true → matcher.parser.completed = true

theorem HasRead.advanceBytesAsStep (read : matcher.HasRead grammar chunks) (same : matcher.grammar = grammar)
    (running : matcher.stopTokenAccepted = false) (answered : matcher.advanceBytesAsStep bytes = some (true, after)) :
    after.HasRead grammar (bytes :: chunks) := by
  rw [GrammarMatcher.advanceBytesAsStep, same] at answered
  split at answered
  · next reached =>
    cases answered
    refine ⟨?_, fun stopped => absurd stopped (by rw [running]; exact Bool.false_ne_true)⟩
    rw [List.reverse_cons, List.flatten_append, List.flatten_singleton, advanceAll_append, read.parsed, Option.bind_some,
      advanceAll_eq grammar 0, reached]
    rfl
  · split at answered
    · obtain ⟨parser, -, absurd⟩ := Option.map_eq_some_iff.mp answered
      cases absurd
    · cases answered

theorem HasRead.acceptBytes (read : matcher.HasRead grammar chunks) (same : matcher.grammar = grammar)
    (answered : matcher.acceptBytes bytes = some (true, after)) : after.HasRead grammar (bytes :: chunks) := by
  rw [GrammarMatcher.acceptBytes] at answered
  split at answered
  · cases answered
  · next running => exact read.advanceBytesAsStep same (Bool.eq_false_iff.mpr running) answered

theorem HasRead.acceptToken (read : matcher.HasRead grammar chunks) (same : matcher.grammar = grammar)
    (answered : matcher.acceptToken tokenId = some (true, after)) :
    after.HasRead grammar (matcher.tokenBytes tokenId :: chunks) := by
  rw [GrammarMatcher.acceptToken] at answered
  split at answered
  · cases answered
  · next running =>
    split at answered
    · cases answered
    · split at answered
      · next stops =>
        rw [acceptStopToken] at answered
        split at answered
        · cases answered
        · split at answered
          · cases answered
          · next completed =>
            cases answered
            rw [tokenBytes, if_pos stops]
            refine ⟨?_, fun _ => by simpa using completed⟩
            rw [List.reverse_cons, List.flatten_append, List.flatten_singleton, List.append_nil]
            exact read.parsed
      · next goesOn =>
        split at answered
        · cases answered
        · rw [tokenBytes, if_neg goesOn]
          exact read.advanceBytesAsStep same (Bool.eq_false_iff.mpr running) answered

/-- The matchers have read the chunks, and each one after the first one chunk less. -/
inductive Recorded (grammar : GrammarData) : List GrammarMatcher → List (List UInt8) → Prop where
  | first {matcher : GrammarMatcher} : matcher.HasRead grammar [] → Recorded grammar [matcher] []
  | step {next : GrammarMatcher} {trace : List GrammarMatcher} {chunk : List UInt8} {chunks : List (List UInt8)} :
      next.HasRead grammar (chunk :: chunks) → Recorded grammar trace chunks →
      Recorded grammar (next :: trace) (chunk :: chunks)

theorem Recorded.hasRead (recorded : Recorded grammar (matcher :: trace) chunks) : matcher.HasRead grammar chunks := by
  cases recorded with
  | first read => exact read
  | step read => exact read

theorem Recorded.drop (recorded : Recorded grammar trace chunks) {steps : Nat} (within : steps < trace.length) :
    Recorded grammar (trace.drop steps) (chunks.drop steps) := by
  induction recorded generalizing steps with
  | first read =>
    obtain rfl := Nat.lt_one_iff.mp within
    exact .first read
  | step read earlier ih =>
    cases steps with
    | zero => exact .step read earlier
    | succ steps => exact ih (Nat.lt_of_succ_lt_succ within)

structure Spelled (grammar : GrammarData) (info : TokenizerInfo) (terminate : Bool)
    (state : GrammarMatcher × List (List UInt8)) : Prop where
  configured : state.1.Configured grammar info terminate
  recorded : ∃ trace, Undone (state.1, trace) ∧ Recorded grammar (state.1 :: trace) state.2

theorem Spelled.writes {before after : GrammarMatcher × List (List UInt8)} {call : Call}
    (spelled : Spelled grammar info terminate before) (written : Writes before call after) :
    Spelled grammar info terminate after := by
  obtain ⟨matcher, chunks⟩ := before
  obtain ⟨next, later⟩ := after
  obtain ⟨performs, rfl⟩ := written
  obtain ⟨configured, trace, undone, recorded⟩ := spelled
  refine ⟨configured.performs undone.seeded performs, call.trace matcher trace, undone.traces ⟨performs, rfl⟩, ?_⟩
  by_cases silent : call.IsSilent
  · have same : next = matcher := performs.unchanged undone.seeded silent
    have unwritten : call.trace matcher trace = trace ∧ call.written matcher chunks = chunks := by
      cases call <;> first | exact ⟨rfl, rfl⟩ | cases silent <;> exact ⟨rfl, rfl⟩
    dsimp only
    rw [same, unwritten.1, unwritten.2]
    exact recorded
  · cases performs with
    | @acceptToken _ _ _ accepted answered =>
      cases accepted with
      | false => exact absurd rfl silent
      | true => exact .step (recorded.hasRead.acceptToken configured.ofGrammar answered) recorded
    | @acceptBytes _ _ _ accepted answered =>
      cases accepted with
      | false => exact absurd rfl silent
      | true => exact .step (recorded.hasRead.acceptBytes configured.ofGrammar answered) recorded
    | @rollback _ _ n answered =>
      have within := answered
      rw [GrammarMatcher.rollback] at within
      split at within
      · next enough =>
        rw [undone.length] at enough
        obtain ⟨found, -⟩ := (undone.rollback enough).whenever _ answered
        obtain ⟨inside, same⟩ := List.getElem?_eq_some_iff.mp found
        have dropped := recorded.drop inside
        rw [List.drop_eq_getElem_cons inside, same, List.drop_succ_cons] at dropped
        exact dropped
      · cases within
    | _ => exact absurd trivial silent

theorem run_spells (made : new grammar info override terminate = some first)
    (run : Run Writes (first, []) calls (last, chunks)) :
    last.Configured grammar info terminate ∧ last.parser.Seeded ∧ last.HasRead grammar chunks := by
  obtain ⟨seeded, none⟩ := new_seeded made
  have read : first.HasRead grammar [] := by
    rw [new] at made
    split at made
    · cases made
    · cases made
      exact ⟨rfl, fun stopped => by cases stopped⟩
  have spelled : Spelled grammar info terminate (last, chunks) :=
    run.invariant (Spelled grammar info terminate) ⟨new_configured made, [], .first seeded none, .first read⟩
      fun _ _ _ spelled written => spelled.writes written
  obtain ⟨configured, trace, undone, recorded⟩ := spelled
  exact ⟨configured, undone.seeded, recorded.hasRead⟩

/-! ## The language -/

/-- A matcher for `root ::= r{2,3}`, `r ::= "a"` with the tokens `a` and a stop token. -/
def counting : GrammarMatcher where
  grammar := counted.toGrammarData
  tokenizerInfo := ⟨2, [[97], []], [(0, [97])], [1], [1], []⟩
  parser := .fromGrammar counted.toGrammarData
  stopTokenIds := [1]
  terminateWithoutStopToken := false
  stopTokenAccepted := false
  tokenLengthHistory := []

section language

variable (safe : compiled.SafeRepeats) (nullable : compiled.ExactNullable)

include safe nullable

theorem completed_iff_generates {parser : EarleyParser}
    (parsed : (fromGrammar compiled.toGrammarData).advanceAll compiled.toGrammarData bytes = some parser) :
    parser.completed = true ↔ compiled.Generates compiled.rootRuleId bytes := by
  have answer : acceptsBytes compiled.toGrammarData bytes = parser.completed := by rw [acceptsBytes, parsed]
  rw [← answer]
  exact ⟨generates_of_acceptsBytes nullable (safe.countsKept _), acceptsBytes_of_generates nullable (safe.countsKept _)⟩

theorem advanceAll_of_generates {parser : EarleyParser}
    (parsed : (fromGrammar compiled.toGrammarData).advanceAll compiled.toGrammarData bytes = some parser)
    (derived : compiled.Generates compiled.rootRuleId (bytes ++ more ++ rest)) :
    ∃ after, parser.advanceAll compiled.toGrammarData more = some after := by
  have within : (bytes ++ more).length ≤ (bytes ++ more ++ rest).length := by
    simp only [List.length_append]
    omega
  obtain ⟨rounds, history⟩ := history_of_generates nullable (safe.countsKept _) derived within
  rw [List.take_left] at history
  have reached := advanceAll_iff.mpr ⟨rounds, history, rfl⟩
  rw [advanceAll_append, parsed, Option.bind_some] at reached
  exact ⟨_, reached⟩

theorem jumpForward_forced (inBytes : compiled.RangesInBytes) {rounds : Nat} {parser rested : EarleyParser}
    {result : List UInt8}
    (parsed : (fromGrammar compiled.toGrammarData).advanceAll compiled.toGrammarData bytes = some parser)
    (jumped : parser.jumpForward compiled.toGrammarData rounds = some (result, rested))
    (derived : compiled.Generates compiled.rootRuleId (bytes ++ rest)) : result <+: rest := by
  induction rounds generalizing parser bytes rest result with
  | zero => cases jumped
  | succ rounds ih =>
    rw [jumpForward] at jumped
    split at jumped
    · cases jumped
      exact List.nil_prefix
    · next running =>
      split at jumped
      · next next only =>
        split at jumped
        · next advanced answered =>
          obtain ⟨⟨later, _⟩, jumps, same⟩ := Option.bind_eq_some_iff.mp jumped
          cases same
          cases rest with
          | nil =>
            rw [List.append_nil] at derived
            exact absurd ((completed_iff_generates safe nullable parsed).mpr derived) running
          | cons byte rest =>
            rw [← List.singleton_append, ← List.append_assoc] at derived
            obtain ⟨after, reads⟩ := advanceAll_of_generates safe nullable parsed derived
            have listed : byte ∈ allBytes.filter (parser.acceptableByteMask compiled.toGrammarData) :=
              List.mem_filter.mpr ⟨mem_allBytes byte, acceptableByteMask_of_advanceAll inBytes reads⟩
            rw [only, List.mem_singleton] at listed
            subst listed
            refine List.cons_prefix_cons.mpr ⟨rfl, ih ?_ jumps derived⟩
            rw [advanceAll_append, parsed, Option.bind_some, advanceAll, answered]
            rfl
        · cases jumped
          exact List.nil_prefix
      · cases jumped
        exact List.nil_prefix

end language

end GrammarMatcher

end Metrale.Grammar
