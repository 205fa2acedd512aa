import Metrale.Grammar.Earley.Productivity
import Metrale.Grammar.Earley.Soundness

/-! # Every derivation is followed by the rounds

The induction is on the derivation: an item at the start of a path is in some round, and at the end of the path the
item's rule is complete there.  A path that goes on after the last round is read one byte further. -/

namespace Metrale.Grammar

open Metrale.Foundation GrammarData Round EarleyParser

variable {compiled : CompiledGrammar} {input word : List UInt8} {rounds : List Round} {position : Nat}
  {state : ParserState} {edge : FsmEdge}

def At (rounds : List Round) (position : Nat) (state : ParserState) : Prop :=
  ∃ round, rounds[position]? = some round ∧ state ∈ round.visited

def Completes (grammar : GrammarData) (rounds : List Round) (ruleId : Nat) (ruleStartPos : Option Nat)
    (position : Nat) : Prop :=
  match ruleStartPos with
  | none => ∃ round, rounds[position]? = some round ∧ round.acceptStopToken = true
  | some start => start < position → ∀ origin, rounds[start]? = some origin → ∀ parent,
      (ruleId, parent) ∈ origin.latest → ∀ advanced, Advanced grammar parent ruleId advanced →
      At rounds position advanced

def NextRead (grammar : GrammarData) (input : List UInt8) (rounds : List Round) : Prop :=
  ∃ ch, input[rounds.length - 1]? = some ch ∧ (ofRounds grammar rounds).CanRead grammar ch

/-- The rounds are those of a beginning of the input, and no count goes wrong in them. -/
structure Parsing (compiled : CompiledGrammar) (input : List UInt8) (rounds : List Round) : Prop where
  nullable : compiled.ExactNullable
  done : RoundsDone compiled rounds
  kept : KeptRounds compiled.toGrammarData rounds
  scanned : ∀ position round ch, rounds[position]? = some round → input[position]? = some ch →
    position + 1 < rounds.length → ∀ state ∈ compiled.prune round.toBeAdded, ∀ next,
    Successor compiled.toGrammarData ch state next → At rounds (position + 1) next

def Followed (compiled : CompiledGrammar) (input : List UInt8) (rounds : List Round) :
    Network.Goal Nat Nat → List UInt8 → Prop
  | .path ruleId source target, word => ∀ position state, At rounds position state → state.ruleId = ruleId →
      state.elementId = source → state.repeatCount = 0 → compiled.network.final ruleId target →
      word <+: input.drop position → NextRead compiled.toGrammarData input rounds ∨
        position + word.length < rounds.length ∧
          Completes compiled.toGrammarData rounds ruleId state.ruleStartPos (position + word.length)
  | .rule ruleId, word => ∀ position start, At rounds position (compiled.ruleStart ruleId start) →
      word <+: input.drop position → NextRead compiled.toGrammarData input rounds ∨
        position + word.length < rounds.length ∧
          Completes compiled.toGrammarData rounds ruleId start (position + word.length)
  | .pieces ruleId count, word => ∀ position state edge auxIndex, At rounds position state →
      edge ∈ compiled.edgesOf state → edge.edgeType = .repeatRef auxIndex →
      (compiled.repeatEdgeInfo auxIndex).ruleId = ruleId →
      (compiled.repeatEdgeInfo auxIndex).lower ≤ state.repeatCount + count →
      state.repeatCount + count ≤ (compiled.repeatEdgeInfo auxIndex).upper →
      word <+: input.drop position → NextRead compiled.toGrammarData input rounds ∨
        At rounds (position + word.length) (state.atElement edge.target)

theorem At.lt_length (item : At rounds position state) : position < rounds.length := by
  obtain ⟨round, stored, -⟩ := item
  exact (List.getElem?_eq_some_iff.mp stored).1

theorem At.earlier_length (item : At rounds position state) :
    ((rounds.take position).map Round.latest).length = position := by
  rw [List.length_map, List.length_take, Nat.min_eq_left item.lt_length.le]

theorem earlier_getD {start : Nat} (before : start < position) {origin : Round} (stored : rounds[start]? = some origin) :
    ((rounds.take position).map Round.latest).getD start [] = origin.latest := by
  rw [List.getD_eq_getElem?_getD, List.getElem?_map, List.getElem?_take_of_lt before, stored]
  rfl

namespace Parsing

variable (parsing : Parsing compiled input rounds)

include parsing

theorem adds (item : At rounds position state) {fact : Fact}
    (added : Adds compiled.toGrammarData ((rounds.take position).map Round.latest) [] state fact) :
    ∃ round, rounds[position]? = some round ∧ round.Holds fact := by
  obtain ⟨round, stored, member⟩ := item
  exact ⟨round, stored, (parsing.done position round stored).processed member fact added⟩

theorem item (item : At rounds position state) (leads : edge ∈ compiled.edgesOf state) {next : ParserState}
    (added : EdgeAdds compiled.toGrammarData ((rounds.take position).map Round.latest) state edge (.item next)) :
    At rounds position next :=
  parsing.adds item (.edge leads added)

theorem keeps (item : At rounds position state) :
    Kept compiled.toGrammarData ((rounds.take position).map Round.latest) state := by
  obtain ⟨round, stored, member⟩ := item
  exact parsing.kept position round stored state member

theorem completes_here (item : At rounds position state) (ends : compiled.isEnd state = true) :
    Completes compiled.toGrammarData rounds state.ruleId state.ruleStartPos position := by
  cases starts : state.ruleStartPos with
  | none =>
    obtain ⟨round, stored, accepted⟩ := parsing.adds item (.accepts ends starts)
    exact ⟨round, stored, accepted⟩
  | some start =>
    intro before origin stored parent member advanced follows
    have inside : start < ((rounds.take position).map Round.latest).length := by
      rw [item.earlier_length]
      exact before
    have waiting : (state.ruleId, parent) ∈ ((rounds.take position).map Round.latest).getD start [] := by
      rw [earlier_getD before stored]
      exact member
    have added : Adds compiled.toGrammarData ((rounds.take position).map Round.latest) [] state (.item advanced) :=
      .completes ends starts inside waiting follows
    exact parsing.adds item added

theorem reads (item : At rounds position state) (uncounted : state.repeatCount = 0)
    (leads : edge ∈ compiled.edgesOf state) {ch : UInt8} (reads : Reads edge ch) (next : input[position]? = some ch)
    (accessible : compiled.network.CoAccessible state.ruleId state.elementId) :
    NextRead compiled.toGrammarData input rounds ∨ At rounds (position + 1) (state.atElement edge.target) := by
  obtain ⟨min, max, kind, low, high⟩ := id reads
  have scanable : (compiled.fsmOf state.ruleId).isScanableState state.elementId = true :=
    List.any_eq_true.mpr ⟨edge, leads, by rw [FsmEdge.isCharRange, kind]⟩
  obtain ⟨round, stored, scan⟩ := parsing.adds item (.scans scanable)
  have live := compiled.mem_prune scan accessible
  have bound := item.lt_length
  by_cases last : position + 1 < rounds.length
  · right
    have same : state.atElement edge.target = { state with elementId := edge.target } := by
      rw [ParserState.atElement, ← uncounted]
    exact same ▸ parsing.scanned position round ch stored next last state live _ ⟨edge, leads, reads, rfl⟩
  · left
    have final : rounds.length - 1 = position := by omega
    refine ⟨ch, final ▸ next, state, ?_, edge, leads, reads⟩
    rw [latestScanableStates, ofRounds, List.getLastD_eq_getLast?, List.getLast?_map, List.getLast?_eq_getElem?, final,
      stored]
    exact live

theorem passes_nullable (item : At rounds position state) (leads : edge ∈ compiled.edgesOf state) {ruleId : Nat}
    (kind : edge.edgeType = .ruleRef ruleId) (empty : compiled.Generates ruleId []) :
    At rounds position (state.atElement edge.target) :=
  parsing.item item leads (.nullable kind ((parsing.nullable ruleId).mpr empty))

theorem passes_waiting (item : At rounds position state) (leads : edge ∈ compiled.edgesOf state) {ruleId : Nat}
    (kind : edge.edgeType = .ruleRef ruleId) (long : compiled.shortcut position state edge.target = false)
    (read : word ≠ []) (complete : Completes compiled.toGrammarData rounds ruleId (some position)
      (position + word.length)) : At rounds (position + word.length) (state.atElement edge.target) := by
  rw [← item.earlier_length] at long
  obtain ⟨round, stored, waits⟩ := parsing.adds item (.edge leads (.waits kind long))
  have later : position < position + word.length := Nat.lt_add_of_pos_right (List.length_pos_iff.mpr read)
  exact complete later round stored _ waits _ (.passes ((parsing.keeps item).plain edge leads ruleId kind long))

theorem completes_shortcut (item : At rounds position state) (leads : edge ∈ compiled.edgesOf state) {ruleId : Nat}
    (kind : edge.edgeType = .ruleRef ruleId) (short : compiled.shortcut position state edge.target = true)
    {ruleStartPos : Nat} (starts : state.ruleStartPos = some ruleStartPos) (read : word ≠ [])
    (complete : Completes compiled.toGrammarData rounds ruleId (some position) (position + word.length)) :
    Completes compiled.toGrammarData rounds state.ruleId state.ruleStartPos (position + word.length) := by
  have before : ruleStartPos < position := by
    obtain ⟨round, stored, member⟩ := item
    have ranged : compiled.RangedFact position (.item state) := parsing.done.ranged stored member
    have started := ranged.start ruleStartPos starts
    simp only [shortcut, starts, Bool.and_eq_true, bne_iff_ne, ne_eq, Option.some_inj] at short
    omega
  rw [← item.earlier_length] at short
  have later : position < position + word.length := Nat.lt_add_of_pos_right (List.length_pos_iff.mpr read)
  rw [starts]
  intro _ origin stored parent waiting advanced follows
  have present : (state.ruleId, parent) ∈ ((rounds.take position).map Round.latest).getD ruleStartPos [] := by
    rw [earlier_getD before stored]
    exact waiting
  obtain ⟨round, here, copied⟩ := parsing.adds item (.edge leads (.copied kind short starts present))
  have same := (parsing.keeps item).copied edge leads ruleId kind short ruleStartPos starts parent present
  refine complete later round here parent copied advanced ?_
  cases follows with
  | passes absent => exact .passes (same.trans absent)
  | leaves found reached => exact .leaves (same.trans found) reached
  | again found below => exact .again (same.trans found) below

theorem counts (item : At rounds position state) (leads : edge ∈ compiled.edgesOf state) {auxIndex : Nat}
    (kind : edge.edgeType = .repeatRef auxIndex) (below : ¬ (compiled.repeatEdgeInfo auxIndex).upper ≤ state.repeatCount)
    (read : word ≠ []) (complete : Completes compiled.toGrammarData rounds (compiled.repeatEdgeInfo auxIndex).ruleId
      (some position) (position + word.length)) :
    ((compiled.repeatEdgeInfo auxIndex).lower ≤ state.repeatCount + 1 →
      At rounds (position + word.length) (state.atElement edge.target)) ∧
    (state.repeatCount + 1 < (compiled.repeatEdgeInfo auxIndex).upper →
      At rounds (position + word.length) (state.counted (state.repeatCount + 1))) := by
  obtain ⟨round, stored, waits⟩ := parsing.adds item (.edge leads (.waitsAgain kind below))
  have later : position < position + word.length := Nat.lt_add_of_pos_right (List.length_pos_iff.mpr read)
  have found := (parsing.keeps item).first edge leads auxIndex kind
  exact ⟨fun reached => complete later round stored _ waits _ (.leaves found reached),
    fun more => complete later round stored _ waits _ (.again found more)⟩

end Parsing

/-! ## Derivations -/

theorem prefix_left {first second : List UInt8} (begins : first ++ second <+: input.drop position) :
    first <+: input.drop position :=
  (List.prefix_append first second).trans begins

theorem prefix_right {first second : List UInt8} (begins : first ++ second <+: input.drop position) :
    second <+: input.drop (position + first.length) := by
  obtain ⟨rest, split⟩ := begins
  refine ⟨rest, ?_⟩
  rw [← List.drop_drop, ← split, List.append_assoc, List.drop_left]

theorem path_terminal {grammar : GrammarData} {ruleId source target : Nat}
    (terminal : (grammar.fsmOf ruleId).edges source = [])
    (path : grammar.network.Derives (.path ruleId source target) word) : source = target ∧ word = [] := by
  have none : ∀ label middle, ¬ grammar.network.edge ruleId source label middle := by
    rintro label middle ⟨edge, leads, -⟩
    rw [terminal] at leads
    cases leads
  cases path with
  | here => exact ⟨rfl, rfl⟩
  | epsilon edge => exact absurd edge (none _ _)
  | symbol edge => exact absurd edge (none _ _)
  | call edge => exact absurd edge (none _ _)
  | repeated edge => exact absurd edge (none _ _)

section Followed

variable (parsing : Parsing compiled input rounds) {ruleId callee source middle target count auxIndex : Nat}
  {inner : List UInt8}

include parsing

theorem followed_call (leads : edge ∈ (compiled.fsmOf ruleId).edges source) (kind : edge.edgeType = .ruleRef callee)
    (string : compiled.Generates callee inner)
    (path : compiled.network.Derives (.path ruleId edge.target target) word)
    (followedInner : Followed compiled input rounds (.rule callee) inner)
    (followedRest : Followed compiled input rounds (.path ruleId edge.target target) word) :
    Followed compiled input rounds (.path ruleId source target) (inner ++ word) := by
  rintro position state item rfl rfl uncounted final begins
  rw [List.length_append, ← Nat.add_assoc]
  have rest : ∀ read, At rounds (position + read) (state.atElement edge.target) → inner.length = read →
      NextRead compiled.toGrammarData input rounds ∨ position + inner.length + word.length < rounds.length ∧
        Completes compiled.toGrammarData rounds state.ruleId state.ruleStartPos
          (position + inner.length + word.length) := by
    rintro _ later rfl
    exact followedRest _ (state.atElement edge.target) later rfl rfl rfl final (prefix_right begins)
  by_cases empty : inner = []
  · subst empty
    exact rest 0 (parsing.passes_nullable item leads kind string) rfl
  have start := parsing.item item leads (.start kind)
  rw [item.earlier_length] at start
  cases short : compiled.shortcut position state edge.target with
  | false =>
    simp only [refStart, short, Bool.and_false, Bool.false_and, Bool.false_eq_true, if_false] at start
    obtain next | ⟨bound, complete⟩ := followedInner _ _ start (prefix_left begins)
    · exact .inl next
    · exact rest _ (parsing.passes_waiting item leads kind short empty complete) rfl
  | true =>
    obtain ⟨terminal, -⟩ := Bool.and_eq_true_iff.mp (Bool.and_eq_true_iff.mp short).1
    obtain ⟨-, rfl⟩ := path_terminal (List.isEmpty_iff.mp terminal) path
    cases starts : state.ruleStartPos with
    | none =>
      simp only [refStart, short, starts, Bool.not_false, Bool.true_and, beq_self_eq_true, if_true] at start
      obtain next | ⟨bound, complete⟩ := followedInner _ _ start (prefix_left begins)
      · exact .inl next
      · exact .inr ⟨bound, complete⟩
    | some ruleStartPos =>
      have later : (some ruleStartPos == none) = false := rfl
      simp only [refStart, short, starts, later, Bool.and_false, Bool.false_eq_true, if_false] at start
      obtain next | ⟨bound, complete⟩ := followedInner _ _ start (prefix_left begins)
      · exact .inl next
      · right
        have completed : Completes compiled.toGrammarData rounds state.ruleId state.ruleStartPos
            (position + inner.length) :=
          parsing.completes_shortcut item leads kind short starts empty complete
        rw [starts] at completed
        exact ⟨bound, completed⟩

theorem followed_more (string : compiled.Generates callee inner)
    (strings : compiled.network.Derives (.pieces callee count) word)
    (followedInner : Followed compiled input rounds (.rule callee) inner)
    (followedRest : Followed compiled input rounds (.pieces callee count) word) :
    Followed compiled input rounds (.pieces callee (count + 1)) (inner ++ word) := by
  rintro position state edge auxIndex item leads kind rfl lower upper begins
  rw [List.length_append, ← Nat.add_assoc]
  push_cast at lower upper
  have kept := parsing.keeps item
  by_cases empty : inner = []
  · -- An empty string need not be counted, since the lower bound is zero.
    subst empty
    have zero := kept.nullable edge leads auxIndex kind ((parsing.nullable _).mpr string)
    exact followedRest position state edge auxIndex item leads kind rfl (by omega) (by omega) (prefix_right begins)
  have below : ¬ (compiled.repeatEdgeInfo auxIndex).upper ≤ state.repeatCount := by omega
  have start := parsing.item item leads (.again kind below)
  rw [item.earlier_length] at start
  obtain next | ⟨bound, complete⟩ := followedInner _ _ start (prefix_left begins)
  · exact .inl next
  obtain ⟨leaves, again⟩ := parsing.counts item leads kind below empty complete
  cases count with
  | zero =>
    cases strings
    exact .inr (leaves (by push_cast at lower; omega))
  | succ count =>
    push_cast at lower upper
    have counted := again (by omega)
    refine followedRest _ (state.counted (state.repeatCount + 1)) edge auxIndex counted leads kind rfl ?_ ?_
      (prefix_right begins)
    · simp only [ParserState.counted]
      omega
    · simp only [ParserState.counted]
      omega

theorem followed {goal : Network.Goal Nat Nat} (derived : compiled.network.Derives goal word) :
    Followed compiled input rounds goal word := by
  induction derived with
  | here =>
    rintro position state item rfl rfl uncounted final -
    exact .inr ⟨item.lt_length, parsing.completes_here item final⟩
  | epsilon step _ ih =>
    rintro position state item rfl rfl uncounted final begins
    obtain ⟨edge, leads, labelled, rfl⟩ := step
    generalize kind : edge.edgeType = edgeType at labelled
    cases labelled
    exact ih _ (state.atElement edge.target) (parsing.item item leads (.epsilon kind)) rfl rfl rfl final begins
  | @symbol ruleId source middle target accepts head word step accepted path ih =>
    rintro position state item rfl rfl uncounted final begins
    have accessible : compiled.network.CoAccessible state.ruleId state.elementId :=
      ⟨target, (Network.Derives.symbol step accepted path).reaches, final⟩
    obtain ⟨edge, leads, labelled, rfl⟩ := step
    generalize kind : edge.edgeType = edgeType at labelled
    cases labelled with
    | charRange =>
      obtain ⟨rest, split⟩ := begins
      have next : input[position]? = some head := by
        rw [← Nat.add_zero position, ← List.getElem?_drop, ← split]
        rfl
      obtain read | later := parsing.reads item uncounted leads ⟨_, _, kind, accepted⟩ next accessible
      · exact .inl read
      · rw [List.length_cons, Nat.add_comm word.length, ← Nat.add_assoc]
        have begins : [head] ++ word <+: input.drop position := ⟨rest, split⟩
        exact ih _ (state.atElement edge.target) later rfl rfl rfl final (prefix_right begins)
  | call step string path ihInner ihRest =>
    obtain ⟨edge, leads, labelled, rfl⟩ := step
    generalize kind : edge.edgeType = edgeType at labelled
    cases labelled
    exact followed_call parsing leads kind string path ihInner ihRest
  | repeated step allowed strings path ihPieces ihRest =>
    rintro position state item rfl rfl uncounted final begins
    obtain ⟨edge, leads, labelled, rfl⟩ := step
    generalize kind : edge.edgeType = edgeType at labelled
    cases labelled
    have bounded := (parsing.keeps item).bounded edge leads _ kind
    obtain ⟨lower, unbounded | upper⟩ := allowed
    · omega
    rw [List.length_append, ← Nat.add_assoc]
    obtain next | later := ihPieces position state edge _ item leads kind rfl (by omega) (by omega) (prefix_left begins)
    · exact .inl next
    · exact ihRest _ (state.atElement edge.target) later rfl rfl rfl final (prefix_right begins)
  | rule final _ ih =>
    intro position start item begins
    exact ih position _ item rfl rfl rfl final begins
  | none =>
    rintro position state edge auxIndex item leads kind - lower - -
    exact .inr (parsing.item item leads (.leaves kind (by push_cast at lower; omega)))
  | more string strings ihInner ihRest => exact followed_more parsing string strings ihInner ihRest

end Followed

end Metrale.Grammar
