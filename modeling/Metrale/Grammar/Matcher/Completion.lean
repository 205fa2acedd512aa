import Metrale.Grammar.Matcher.Atomicity
import Metrale.Grammar.Matcher.TrieRanges

/-! # What the completion search finds

The search keeps the bytes that it has advanced the parser through.  What it answers is read from the state that it
began in, and completes the root. -/

namespace Metrale.Grammar

open Metrale.Foundation

/-! ## Reading bytes -/

theorem EarleyParser.advanceBytes_shift (grammar : GrammarData) (consumed : Nat) (parser : EarleyParser)
    (bytes : List UInt8) :
    parser.advanceBytes grammar consumed bytes =
      ((parser.advanceBytes grammar 0 bytes).1, consumed + (parser.advanceBytes grammar 0 bytes).2.1,
        (parser.advanceBytes grammar 0 bytes).2.2) := by
  induction bytes generalizing consumed parser with
  | nil => rfl
  | cons byte rest ih =>
    rw [advanceBytes, advanceBytes]
    split
    · rw [ih, ih (0 + 1)]
      simp only [Nat.zero_add, Nat.add_assoc]
    · rfl

def EarleyParser.Spells (grammar : GrammarData) (parser : EarleyParser) (bytes : List UInt8) (last : EarleyParser) : Prop :=
  parser.advanceBytes grammar 0 bytes = (true, bytes.length, last)

theorem EarleyParser.Spells.cons {grammar : GrammarData} {parser advanced last : EarleyParser} {byte : UInt8}
    {bytes : List UInt8} (answered : parser.advance grammar byte = (true, advanced))
    (spells : advanced.Spells grammar bytes last) : parser.Spells grammar (byte :: bytes) last := by
  unfold Spells at spells ⊢
  rw [advanceBytes, answered]
  dsimp only
  rw [advanceBytes_shift, spells, List.length_cons, Nat.zero_add, Nat.add_comm]

namespace Search

variable {grammar : GrammarData} {descend : Search → Option (Bool × Search)} {search : Search} {remaining : Nat}

/-- A search that fails has changed nothing but the budget, and one that succeeds has read a path to a completed
state. -/
inductive Explored (grammar : GrammarData) (remaining : Nat) (before : Search) : Bool × Search → Prop where
  | failed {budget : Nat} : Explored grammar remaining before (false, { before with budget })
  | found {path : List UInt8} {parser : EarleyParser} {budget : Nat} (spells : before.parser.Spells grammar path parser)
      (completed : parser.completed = true) (short : path.length ≤ remaining) :
      Explored grammar remaining before (true, ⟨parser, before.out ++ path, budget⟩)

theorem Explored.budget {answer : Bool × Search} {left : Nat}
    (explored : Explored grammar remaining { search with budget := left } answer) :
    Explored grammar remaining search answer := by
  cases explored with
  | failed => exact .failed
  | found spells completed short => exact .found spells completed short

theorem Explored.here (completed : search.parser.completed = true) : Explored grammar remaining search (true, search) := by
  have path : Explored grammar remaining search (true, ⟨search.parser, search.out ++ [], search.budget⟩) :=
    .found rfl completed (Nat.zero_le _)
  rw [List.append_nil] at path
  exact path

theorem tryByte_explores (descends : ∀ search, search.parser.Seeded →
      Answers (descend search) (Explored grammar remaining search))
    (byte : UInt8) (seeded : search.parser.Seeded) :
    Answers (tryByte grammar descend byte search) (Explored grammar (remaining + 1) search) := by
  rw [tryByte]
  dsimp only
  split
  · next answered =>
    rw [(EarleyParser.Over.refl seeded).rejects answered]
    exact .intro .failed
  · next advanced answered =>
    have above := (EarleyParser.Over.refl seeded).accepts answered
    apply (descends _ above.parserSeeded).bind
    rintro ⟨found, after⟩ explored
    cases explored with
    | failed =>
      dsimp only
      rw [above.popAll, List.dropLast_concat]
      exact .intro .failed
    | found spells completed short =>
      rw [List.append_assoc, List.singleton_append]
      exact .intro (.found (spells.cons answered) completed (Nat.succ_le_succ short))

theorem tryAcceptable_explores (descends : ∀ search, search.parser.Seeded →
      Answers (descend search) (Explored grammar remaining search))
    (mask : UInt8 → Bool) (byte : UInt8) (seeded : search.parser.Seeded) :
    Answers (tryAcceptable grammar descend mask byte search) (Explored grammar (remaining + 1) search) := by
  rw [tryAcceptable]
  split
  · exact tryByte_explores descends byte seeded
  · exact .intro .failed

theorem tryClosers_explores (descends : ∀ search, search.parser.Seeded →
      Answers (descend search) (Explored grammar remaining search))
    (mask : UInt8 → Bool) (bytes : List UInt8) (seeded : search.parser.Seeded) :
    Answers (tryClosers grammar descend mask bytes search) fun result =>
      Explored grammar (remaining + 1) search (result.1.getD false, result.2) := by
  induction bytes generalizing search with
  | nil => exact .intro .failed
  | cons byte rest ih =>
    rw [tryClosers]
    apply (tryAcceptable_explores descends mask byte seeded).bind
    rintro ⟨found, after⟩ explored
    cases explored with
    | found spells completed short => exact .intro (.found spells completed short)
    | @failed budget =>
      dsimp only
      split
      · next absurd => cases absurd
      · split
        · exact .intro .failed
        · apply (@ih { search with budget } seeded).imp
          intro _ rested
          exact rested.budget

theorem tryContent_explores (descends : ∀ search, search.parser.Seeded →
      Answers (descend search) (Explored grammar remaining search))
    (mask : UInt8 → Bool) (bytes : List UInt8) (content : Nat) (seeded : search.parser.Seeded) :
    Answers (tryContent grammar descend mask bytes content search) (Explored grammar (remaining + 1) search) := by
  induction bytes generalizing search content with
  | nil => exact .intro .failed
  | cons byte rest ih =>
    rw [tryContent]
    split
    · exact ih content seeded
    · split
      · exact .intro .failed
      · apply (tryByte_explores descends byte seeded).bind
        rintro ⟨found, after⟩ explored
        cases explored with
        | found spells completed short => exact .intro (.found spells completed short)
        | @failed budget =>
          apply (@ih { search with budget } (content + 1) seeded).imp
          intro _ rested
          exact rested.budget

theorem closeDfs_explores (remaining : Nat) (seeded : search.parser.Seeded) :
    Answers (closeDfs grammar remaining search) (Explored grammar remaining search) := by
  induction remaining generalizing search with
  | zero =>
    rw [closeDfs]
    split
    · next completed => exact .intro (.here completed)
    · exact .intro .failed
  | succ remaining ih =>
    rw [closeDfs]
    split
    · next completed => exact .intro (.here completed)
    · dsimp only
      split
      · exact .intro .failed
      · apply (tryClosers_explores (fun _ seeded => ih seeded) _ closePriority seeded).bind
        rintro ⟨answer, after⟩ explored
        cases answer with
        | some found => exact .intro explored
        | none =>
          cases explored with
          | @failed budget =>
            apply (@tryContent_explores _ _ { search with budget } _ (fun _ seeded => ih seeded) _ allBytes 0 seeded).imp
            intro _ rested
            exact rested.budget

end Search

/-! ## Greedy encoding -/

namespace TokenizerInfo

variable {info : TokenizerInfo} {bytes : List UInt8}

theorem longestToken_listed {id length : Nat} (longest : info.longestToken bytes = some (id, length)) :
    ∃ token, (id, token) ∈ info.sortedDecodedVocab ∧ token.length = length ∧ token <+: bytes := by
  refine List.foldlRecOn (motive := fun best => ∀ id length, best = some (id, length) →
      ∃ token, (id, token) ∈ info.sortedDecodedVocab ∧ token.length = length ∧ token <+: bytes)
    _ _ ?_ ?_ id length longest
  · intro _ _ absurd
    cases absurd
  · rintro best earlier ⟨next, token⟩ listed id length found
    dsimp only at found
    split at found
    · exact earlier id length found
    · next begins =>
      rw [Bool.or_eq_true, not_or, Bool.not_eq_true', Bool.not_eq_false, List.isPrefixOf_iff_prefix] at begins
      split at found
      · cases found
        exact ⟨token, listed, rfl, begins.2⟩
      · split at found
        · cases found
          exact ⟨token, listed, rfl, begins.2⟩
        · exact earlier id length found

theorem encodeGreedy_flatten {tokenOf : Nat → List UInt8} {rounds : Nat} {ids : List Nat}
    (named : ∀ entry ∈ info.sortedDecodedVocab, tokenOf entry.1 = entry.2)
    (encoded : info.encodeGreedy rounds bytes = some ids) : (ids.map tokenOf).flatten = bytes := by
  induction rounds generalizing bytes ids with
  | zero =>
    cases bytes with
    | nil =>
      cases encoded
      rfl
    | cons => cases encoded
  | succ rounds ih =>
    cases bytes with
    | nil =>
      cases encoded
      rfl
    | cons byte rest =>
      obtain ⟨⟨id, length⟩, longest, answered⟩ := Option.bind_eq_some_iff.mp encoded
      obtain ⟨later, encodedRest, same⟩ := Option.bind_eq_some_iff.mp answered
      cases same
      obtain ⟨token, listed, rfl, begins⟩ := longestToken_listed longest
      rw [List.map_cons, List.flatten_cons, ih encodedRest, named _ listed]
      exact List.prefix_iff_eq_append.mp begins

end TokenizerInfo

namespace GrammarMatcher

variable {grammar : GrammarData} {info : TokenizerInfo} {terminate : Bool} {matcher after : GrammarMatcher}

/-! ## Reachable matchers -/

/-- What a matcher was made with.  One that ends without a stop token accepts none. -/
structure Configured (grammar : GrammarData) (info : TokenizerInfo) (terminate : Bool) (matcher : GrammarMatcher) :
    Prop where
  ofGrammar : matcher.grammar = grammar
  ofInfo : matcher.tokenizerInfo = info
  flag : matcher.terminateWithoutStopToken = terminate
  noStop : terminate = true → matcher.stopTokenAccepted = false

theorem new_configured {override : Option (List Int)} (made : new grammar info override terminate = some matcher) :
    matcher.Configured grammar info terminate := by
  rw [new] at made
  split at made
  · cases made
  · cases made
    exact ⟨rfl, rfl, rfl, fun _ => rfl⟩

theorem Configured.advanceBytesAsStep {bytes : List UInt8} {accepted : Bool}
    (configured : matcher.Configured grammar info terminate)
    (answered : matcher.advanceBytesAsStep bytes = some (accepted, after)) : after.Configured grammar info terminate := by
  rw [GrammarMatcher.advanceBytesAsStep] at answered
  split at answered
  · cases answered
    exact { configured with }
  · split at answered
    · obtain ⟨parser, -, same⟩ := Option.map_eq_some_iff.mp answered
      cases same
      exact { configured with }
    · cases answered
      exact { configured with }

theorem Configured.acceptBytes {bytes : List UInt8} {accepted : Bool} (configured : matcher.Configured grammar info terminate)
    (answered : matcher.acceptBytes bytes = some (accepted, after)) : after.Configured grammar info terminate := by
  rw [GrammarMatcher.acceptBytes] at answered
  split at answered
  · cases answered
    exact configured
  · exact configured.advanceBytesAsStep answered

theorem Configured.acceptStopToken (configured : matcher.Configured grammar info terminate) :
    matcher.acceptStopToken.2.Configured grammar info terminate := by
  rw [GrammarMatcher.acceptStopToken]
  split
  · exact configured
  · next off =>
    split
    · exact configured
    · exact ⟨configured.ofGrammar, configured.ofInfo, configured.flag, fun on =>
        absurd (configured.flag.trans on) off⟩

theorem Configured.acceptToken {tokenId : Int} {accepted : Bool} (configured : matcher.Configured grammar info terminate)
    (answered : matcher.acceptToken tokenId = some (accepted, after)) : after.Configured grammar info terminate := by
  rw [GrammarMatcher.acceptToken] at answered
  split at answered
  · cases answered
    exact configured
  · split at answered
    · cases answered
      exact configured
    · split at answered
      · have stopped := configured.acceptStopToken
        rw [Option.some.inj answered] at stopped
        exact stopped
      · split at answered
        · cases answered
          exact configured
        · exact configured.advanceBytesAsStep answered

theorem Configured.rollbackStep (configured : matcher.Configured grammar info terminate)
    (rolled : matcher.rollbackStep = some after) : after.Configured grammar info terminate := by
  rw [GrammarMatcher.rollbackStep] at rolled
  split at rolled
  · cases rolled
  · dsimp only at rolled
    split at rolled
    · cases rolled
      exact ⟨configured.ofGrammar, configured.ofInfo, configured.flag, fun _ => rfl⟩
    · obtain ⟨parser, -, same⟩ := Option.map_eq_some_iff.mp rolled
      cases same
      exact { configured with }

theorem Configured.rollbackLoop {steps : Nat} (configured : matcher.Configured grammar info terminate)
    (rolled : GrammarMatcher.rollbackLoop steps matcher = some after) : after.Configured grammar info terminate := by
  induction steps generalizing matcher with
  | zero =>
    cases rolled
    exact configured
  | succ steps ih =>
    obtain ⟨previous, stepped, later⟩ := Option.bind_eq_some_iff.mp rolled
    exact ih (configured.rollbackStep stepped) later

theorem Configured.rollback {n : Int} (configured : matcher.Configured grammar info terminate)
    (rolled : matcher.rollback n = some after) : after.Configured grammar info terminate := by
  rw [GrammarMatcher.rollback] at rolled
  split at rolled
  · exact configured.rollbackLoop rolled
  · cases rolled

theorem Configured.performs {call : Call} (configured : matcher.Configured grammar info terminate)
    (seeded : matcher.parser.Seeded) (performs : matcher.Performs call after) : after.Configured grammar info terminate := by
  by_cases silent : call.IsSilent
  · rw [performs.unchanged seeded silent]
    exact configured
  · cases performs with
    | acceptToken answered => exact configured.acceptToken answered
    | acceptBytes answered => exact configured.acceptBytes answered
    | rollback answered => exact configured.rollback answered
    | _ => exact absurd trivial silent

theorem run_configured {override : Option (List Int)} {first last : GrammarMatcher} {trace : List GrammarMatcher}
    {calls : List Call} (made : new grammar info override terminate = some first)
    (run : Run Traces (first, []) calls (last, trace)) :
    last.parser.Seeded ∧ last.Configured grammar info terminate := by
  obtain ⟨seeded, none⟩ := new_seeded made
  have reached := run.invariant (fun state => Undone state ∧ state.1.Configured grammar info terminate)
    ⟨.first seeded none, new_configured made⟩ fun _ _ _ kept traced =>
      ⟨kept.1.traces traced, kept.2.performs kept.1.seeded traced.1⟩
  exact ⟨reached.1.seeded, reached.2⟩

/-! ## The search -/

theorem Configured.running (configured : matcher.Configured grammar info terminate)
    (goesOn : matcher.isTerminated = false) : matcher.stopTokenAccepted = false := by
  rw [isTerminated, configured.flag] at goesOn
  cases terminate with
  | true => exact configured.noStop rfl
  | false => exact goesOn

structure Completes (matcher : GrammarMatcher) (maxBytes : Nat) (bytes : List UInt8) : Prop where
  short : bytes.length ≤ maxBytes
  accepted : ∃ after, matcher.acceptBytes bytes = some (true, after) ∧ after.parser.completed = true

theorem completes_of_spells {maxBytes : Nat} {bytes : List UInt8} {last : EarleyParser}
    (running : matcher.stopTokenAccepted = false) (spells : matcher.parser.Spells matcher.grammar bytes last)
    (completed : last.completed = true) (short : bytes.length ≤ maxBytes) : matcher.Completes maxBytes bytes := by
  have accepted : matcher.acceptBytes bytes = some (true, { matcher with
      parser := last
      tokenLengthHistory := bytes.length :: matcher.tokenLengthHistory }) := by
    unfold EarleyParser.Spells at spells
    rw [GrammarMatcher.acceptBytes, if_neg (by rw [running]; exact Bool.false_ne_true), GrammarMatcher.advanceBytesAsStep,
      spells]
  exact ⟨short, _, accepted, completed⟩

theorem findCompletionToAccept_completes (seeded : matcher.parser.Seeded)
    (configured : matcher.Configured grammar info terminate) (maxBytes : Nat) :
    Answers (matcher.findCompletionToAccept maxBytes) fun result =>
      result.2 = matcher ∧ ∀ bytes, result.1 = some bytes → matcher.Completes maxBytes bytes := by
  rw [findCompletionToAccept]
  split
  · exact .intro ⟨rfl, by simp⟩
  · next goesOn =>
    have running := configured.running ((Bool.not_eq_true _).mp goesOn)
    split
    · next completed =>
      refine .intro ⟨rfl, fun bytes found => ?_⟩
      cases found
      exact completes_of_spells running rfl completed (Nat.zero_le _)
    · have search : (⟨matcher.parser, [], completionNodeBudget⟩ : Search).parser.Seeded := seeded
      apply (Search.closeDfs_explores maxBytes search).bind
      rintro ⟨found, after⟩ explored
      cases explored with
      | failed => exact .intro ⟨rfl, by simp⟩
      | @found path parser budget spells completed short =>
        have completes := completes_of_spells running spells completed short
        dsimp only [List.nil_append]
        cases path with
        | nil =>
          cases spells
          refine .intro ⟨rfl, fun bytes found => ?_⟩
          cases found
          exact completes
        | cons byte rest =>
          have above := ((EarleyParser.Over.refl seeded).advanceBytes spells).1
          rw [Nat.zero_add] at above
          dsimp only [List.isEmpty_cons]
          rw [above.popAll]
          refine .intro ⟨rfl, fun bytes found => ?_⟩
          cases found
          exact completes

/-- In every run the completion search leaves the matcher as it is.  The bytes that it finds are within the limit, are
accepted and complete the root, and the token ids stand for just those bytes. -/
theorem completion_search_sound {decode : String → List UInt8} {encodedVocab : List String} {vocabSize : Option Nat}
    {stopTokenIds override : Option (List Int)} {first last : GrammarMatcher} {trace : List GrammarMatcher}
    {calls : List Call}
    (made : new grammar (.new decode encodedVocab vocabSize stopTokenIds) override terminate = some first)
    (run : Run Traces (first, []) calls (last, trace)) (maxBytes : Nat) :
    ∃ found ids, last.findCompletionToAccept maxBytes = some (found, last) ∧
      last.findCompletionTokenIds maxBytes = some (ids, last) ∧
      (∀ bytes, found = some bytes → bytes.length ≤ maxBytes ∧
        ∃ after, last.acceptBytes bytes = some (true, after) ∧ after.parser.completed = true) ∧
      ∀ chosen, ids = some chosen →
        found = some (chosen.map fun id => (encodedVocab[id]?.map decode).getD []).flatten := by
  obtain ⟨seeded, configured⟩ := run_configured made run
  obtain ⟨⟨found, after⟩, searched, rfl, completes⟩ := findCompletionToAccept_completes seeded configured maxBytes
  have accepted : ∀ bytes, found = some bytes → bytes.length ≤ maxBytes ∧
      ∃ next, after.acceptBytes bytes = some (true, next) ∧ next.parser.completed = true :=
    fun bytes found => ⟨(completes bytes found).short, (completes bytes found).accepted⟩
  have named : ∀ entry ∈ after.tokenizerInfo.sortedDecodedVocab,
      (encodedVocab[entry.1]?.map decode).getD [] = entry.2 := by
    intro entry listed
    rw [configured.ofInfo] at listed
    rw [TokenizerInfo.sorted_token listed, Option.getD_some]
  have encodes : after.findCompletionTokenIds maxBytes = some (found.bind fun bytes =>
      if bytes = [] then some [] else after.tokenizerInfo.encodeBytesGreedy bytes, after) := by
    rw [findCompletionTokenIds, searched]
    cases found with
    | none => rfl
    | some bytes =>
      cases bytes with
      | nil => rfl
      | cons => rfl
  refine ⟨found, _, searched, encodes, accepted, fun chosen chose => ?_⟩
  obtain ⟨bytes, found, encoded⟩ := Option.bind_eq_some_iff.mp chose
  rw [found]
  split at encoded
  · next empty =>
    cases encoded
    rw [empty]
    rfl
  · exact congrArg some (TokenizerInfo.encodeGreedy_flatten named encoded).symm

/-- A matcher for `root ::= "ab"` with the tokens `ab` and `b`. -/
def spelling : GrammarMatcher :=
  { spelled with
    tokenizerInfo := .new (fun text => text.toUTF8.toList) ["ab", "b"] none (some [])
    stopTokenIds := [] }

theorem completion_search_sound_spelling :
    ∃ found ids, spelling.findCompletionToAccept 2 = some (found, spelling) ∧
      spelling.findCompletionTokenIds 2 = some (ids, spelling) ∧
      (∀ bytes, found = some bytes → bytes.length ≤ 2 ∧
        ∃ after, spelling.acceptBytes bytes = some (true, after) ∧ after.parser.completed = true) ∧
      ∀ chosen, ids = some chosen →
        found = some (chosen.map fun id => (["ab", "b"][id]?.map fun text => text.toUTF8.toList).getD []).flatten := by
  have made : new spelled.grammar (.new (fun text => text.toUTF8.toList) ["ab", "b"] none (some [])) none false =
      some spelling := by rfl
  exact completion_search_sound made .start 2

end GrammarMatcher

end Metrale.Grammar
