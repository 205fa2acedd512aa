import Metrale.Grammar.Earley.Recognition

/-! # Grammars whose repetitions are counted

A repetition is safe where it stands alone at its state, its rule does not end with a reference to another rule, and
no reference to its rule leads to its state.  In a grammar whose repetitions are all safe no count goes wrong, for
any input; one without repetitions is such a grammar. -/

namespace Metrale.Grammar

open Metrale.Foundation GrammarData Round EarleyParser

namespace GrammarData

variable {grammar : GrammarData} {earlier : List (List CompletableEntry)} {state : ParserState} {edge : FsmEdge}

def EndsWith (grammar : GrammarData) (ruleId refId : Nat) : Prop :=
  ∃ source, ∃ edge ∈ (grammar.fsmOf ruleId).edges source, edge.edgeType = .ruleRef refId ∧
    grammar.targetIsTerminalEnd ruleId edge.target = true

def Tails (grammar : GrammarData) : Nat → Nat → Prop := Relation.ReflTransGen grammar.EndsWith

structure SafeRepeats (grammar : GrammarData) : Prop where
  alone : ∀ ruleId source, ∀ edge ∈ (grammar.fsmOf ruleId).edges source, edge.isRepeatRef = true →
    (grammar.fsmOf ruleId).isEndState source = false ∧ (grammar.fsmOf ruleId).edges source = [edge]
  bounded : ∀ ruleId source, ∀ edge ∈ (grammar.fsmOf ruleId).edges source, ∀ auxIndex,
    edge.edgeType = .repeatRef auxIndex → 0 ≤ (grammar.repeatEdgeInfo auxIndex).upper ∧
      (grammar.ruleAllowsEmpty (grammar.repeatEdgeInfo auxIndex).ruleId = true →
        (grammar.repeatEdgeInfo auxIndex).lower ≤ 0)
  tails : ∀ ruleId source, ∀ edge ∈ (grammar.fsmOf ruleId).edges source, ∀ auxIndex,
    edge.edgeType = .repeatRef auxIndex → ∀ refId,
    grammar.Tails (grammar.repeatEdgeInfo auxIndex).ruleId refId → refId = (grammar.repeatEdgeInfo auxIndex).ruleId
  apart : ∀ ruleId source, ∀ edge ∈ (grammar.fsmOf ruleId).edges source, ∀ refId, edge.edgeType = .ruleRef refId →
    ∀ other ∈ (grammar.fsmOf ruleId).edges edge.target, ∀ auxIndex, other.edgeType = .repeatRef auxIndex →
    ¬ grammar.Tails refId (grammar.repeatEdgeInfo auxIndex).ruleId

def WaitsFor (grammar : GrammarData) (ruleId : Nat) (parent : ParserState) : Prop :=
  (∃ source, ∃ edge ∈ (grammar.fsmOf parent.ruleId).edges source, edge.edgeType = .ruleRef ruleId ∧
    parent.elementId = edge.target) ∨
  ∃ edge ∈ grammar.edgesOf parent, ∃ auxIndex, edge.edgeType = .repeatRef auxIndex ∧
    (grammar.repeatEdgeInfo auxIndex).ruleId = ruleId

def Counting (grammar : GrammarData) (state : ParserState) : Prop :=
  0 < state.repeatCount → ∃ edge ∈ grammar.edgesOf state, edge.isRepeatRef = true

/-- An entry is for the rule its item waits for, or for one that this rule ends with. -/
def CountingFact (grammar : GrammarData) : Fact → Prop
  | .item state | .scan state => grammar.Counting state
  | .entry (refId, parent) => grammar.Counting parent ∧
      ∃ ruleId, grammar.WaitsFor ruleId parent ∧ grammar.Tails ruleId refId
  | .accept => True

theorem counting_of_zero (uncounted : state.repeatCount = 0) : grammar.Counting state :=
  fun counted => absurd uncounted (Nat.ne_of_gt counted)

theorem repeatEdgeFor_eq_none {refId : Nat} (none : ∀ edge ∈ grammar.edgesOf state, ∀ auxIndex,
    edge.edgeType = .repeatRef auxIndex → (grammar.repeatEdgeInfo auxIndex).ruleId ≠ refId) :
    grammar.repeatEdgeFor state refId = .none := by
  rw [repeatEdgeFor, List.findSome?_eq_none_iff]
  intro edge leads
  cases kind : edge.edgeType with
  | repeatRef auxIndex => exact if_neg (none edge leads auxIndex kind)
  | _ => rfl

/-- A waiting item is advanced in the same way for its rule and for the rules that this one ends with. -/
theorem SafeRepeats.advances (safe : grammar.SafeRepeats) {ruleId refId otherId : Nat} {parent : ParserState}
    (waits : grammar.WaitsFor ruleId parent) (tail : grammar.Tails ruleId refId) (other : grammar.Tails ruleId otherId) :
    grammar.repeatEdgeFor parent refId = grammar.repeatEdgeFor parent otherId := by
  obtain ⟨source, edge, leads, kind, here⟩ | ⟨edge, leads, auxIndex, kind, rfl⟩ := waits
  · have absent : ∀ refId, grammar.Tails ruleId refId → grammar.repeatEdgeFor parent refId = none := by
      intro refId tail
      refine repeatEdgeFor_eq_none fun other leads' auxIndex kind' same => ?_
      rw [edgesOf, here] at leads'
      exact safe.apart _ source edge leads ruleId kind other leads' auxIndex kind' (same ▸ tail)
    rw [absent refId tail, absent otherId other]
  · rw [safe.tails _ _ edge leads auxIndex kind refId tail, safe.tails _ _ edge leads auxIndex kind otherId other]

theorem counting_advanced {refId : Nat} {parent advanced : ParserState}
    (counting : grammar.Counting parent) (follows : Advanced grammar parent refId advanced) :
    grammar.Counting advanced := by
  cases follows with
  | passes => exact counting
  | leaves => exact counting_of_zero rfl
  | again found =>
    obtain ⟨leads, auxIndex, kind, -⟩ := repeatEdgeFor_spec found
    exact fun _ => ⟨_, leads, by rw [FsmEdge.isRepeatRef, kind]⟩

/-- What follows from an edge, where each row's entries are for the rules that their items wait for. -/
theorem edgeAdds_counting (rows : ∀ position, ∀ entry ∈ earlier.getD position [], grammar.CountingFact (.entry entry))
    (counting : grammar.Counting state) (leads : edge ∈ grammar.edgesOf state) {fact : Fact}
    (added : EdgeAdds grammar earlier state edge fact) : grammar.CountingFact fact := by
  cases added with
  | epsilon => exact counting_of_zero rfl
  | nullable => exact counting_of_zero rfl
  | start => exact counting_of_zero rfl
  | leaves => exact counting_of_zero rfl
  | again => exact counting_of_zero rfl
  | waits kind => exact ⟨counting_of_zero rfl, _, .inl ⟨_, edge, leads, kind, rfl⟩, .refl⟩
  | waitsAgain kind => exact ⟨counting, _, .inr ⟨edge, leads, _, kind, rfl⟩, .refl⟩
  | copied kind short _ member =>
    obtain ⟨parentCounting, ruleId, waits, tail⟩ := rows _ _ member
    refine ⟨parentCounting, ruleId, waits, tail.tail ⟨_, edge, leads, kind, ?_⟩⟩
    exact (Bool.and_eq_true_iff.mp short).1

end GrammarData

/-! ## No count goes wrong -/

variable {compiled : CompiledGrammar} {bytes input : List UInt8} {rounds : List Round}

/-- What is known of the facts of a round: they are in range, and entries are for the rules that their items wait
for. -/
def CompiledGrammar.TrackedFact (compiled : CompiledGrammar) (bytes : List UInt8) (fact : Fact) : Prop :=
  compiled.RangedFact bytes.length fact ∧ compiled.CountingFact fact

theorem CompiledGrammar.closed_tracked (compiled : CompiledGrammar) (earlier : List (List CompletableEntry))
    (now : earlier.length = bytes.length) (rows : ∀ position < bytes.length, ∀ entry ∈ earlier.getD position [],
      compiled.TrackedFact (bytes.take position) (.entry entry)) :
    Closed compiled.toGrammarData earlier (fun _ => True) (compiled.TrackedFact bytes) := by
  have entries : ∀ position, ∀ entry ∈ earlier.getD position [], position < bytes.length := by
    intro position entry member
    by_contra outside
    rw [List.getD_eq_default _ _ (by omega)] at member
    cases member
  have ranged := compiled.closed_ranged fun row member entry present => by
    obtain ⟨position, stored⟩ := List.getElem?_of_mem member
    have bound := (List.getElem?_eq_some_iff.mp stored).1
    have here : entry ∈ earlier.getD position [] := by
      rw [List.getD_eq_getElem?_getD, stored]
      exact present
    have inside : compiled.InRange (bytes.take position).length entry.2 := (rows position (now ▸ bound) entry here).1
    exact inside.mono (by rw [List.length_take]; omega)
  rw [now] at ranged
  have counting : ∀ position, ∀ entry ∈ earlier.getD position [], compiled.CountingFact (.entry entry) :=
    fun position entry member => (rows position (entries position entry member) entry member).2
  refine ⟨fun state tracked => ranged.started state tracked.1, fun latest state fact tracked _ held added => ?_⟩
  refine ⟨ranged.adds latest state fact tracked.1 trivial (fun entry member => (held entry member).1) added, ?_⟩
  cases added with
  | edge leads added => exact edgeAdds_counting counting tracked.2 leads added
  | accepts => trivial
  | completes _ _ _ member follows => exact counting_advanced (counting _ _ member).1 follows
  | completesHere _ _ member follows => exact counting_advanced (held _ member).2.1 follows
  | scans => exact tracked.2

theorem GrammarData.SafeRepeats.alone_of_counting {grammar : GrammarData} (safe : grammar.SafeRepeats)
    {state : ParserState} (counting : grammar.Counting state) (counted : 0 < state.repeatCount) :
    grammar.isEnd state = false ∧ ∃ edge, grammar.edgesOf state = [edge] ∧ edge.isRepeatRef = true := by
  obtain ⟨edge, leads, repeats⟩ := counting counted
  obtain ⟨inside, only⟩ := safe.alone _ _ edge leads repeats
  exact ⟨inside, edge, only, repeats⟩

theorem History.tracked (safe : compiled.SafeRepeats) (history : History compiled.toGrammarData bytes rounds) :
    ∀ position round, rounds[position]? = some round → ∀ fact, round.Holds fact →
      compiled.TrackedFact (bytes.take position) fact := by
  refine History.facts (fun _ _ => True)
    (fun bytes earlier now rows => compiled.closed_tracked earlier now rows) ?_ ?_ history fun _ _ _ _ _ => trivial
  · exact ⟨compiled.ruleStart_inRange compiled.rootInRange fun _ absent => (nomatch absent), counting_of_zero rfl⟩
  · rintro bytes - ch state next ⟨ranged, counting⟩ - ⟨edge, leads, ⟨min, max, kind, -, -⟩, rfl⟩
    have later : compiled.InRange (bytes ++ [ch]).length { state with elementId := edge.target } :=
      { ranged.mono (by rw [List.length_append]; omega) with element := compiled.target_lt ranged.rule leads }
    have uncounted : compiled.Counting { state with elementId := edge.target } := by
      intro counted
      obtain ⟨-, only, edges, repeats⟩ := safe.alone_of_counting counting counted
      rw [edges, List.mem_singleton] at leads
      rw [← leads, FsmEdge.isRepeatRef, kind] at repeats
      cases repeats
    exact ⟨⟨later, uncounted⟩, later, uncounted⟩

theorem repeatEdgeFor_alone {grammar : GrammarData} {state : ParserState} {edge : FsmEdge} {auxIndex : Nat}
    (only : grammar.edgesOf state = [edge]) (kind : edge.edgeType = .repeatRef auxIndex) :
    grammar.repeatEdgeFor state (grammar.repeatEdgeInfo auxIndex).ruleId =
      some (edge, grammar.repeatEdgeInfo auxIndex) := by
  rw [repeatEdgeFor, only, List.findSome?_singleton]
  simp only [kind, if_true]

theorem GrammarData.SafeRepeats.countsKept (safe : compiled.SafeRepeats) (input : List UInt8) :
    CountsKept compiled.toGrammarData input := by
  intro bytes rounds _ history position round stored state member
  have bound := (List.getElem?_eq_some_iff.mp stored).1
  have counting : compiled.Counting state := (history.tracked safe position round stored (.item state) member).2
  refine ⟨safe.alone_of_counting counting, ?_, ?_, ?_, ?_, ?_⟩
  · exact fun edge leads auxIndex kind => (safe.bounded _ _ edge leads auxIndex kind).1
  · exact fun edge leads auxIndex kind => (safe.bounded _ _ edge leads auxIndex kind).2
  · intro edge leads auxIndex kind
    have repeats : edge.isRepeatRef = true := by rw [FsmEdge.isRepeatRef, kind]
    exact repeatEdgeFor_alone (safe.alone _ _ edge leads repeats).2 kind
  · intro edge leads ruleId kind _
    refine repeatEdgeFor_eq_none fun other leads' auxIndex kind' same => ?_
    exact safe.apart _ _ edge leads ruleId kind other leads' auxIndex kind' (same ▸ .refl)
  · intro edge leads ruleId kind short ruleStartPos starts parent waiting
    have earlier : ruleStartPos < rounds.length := by
      have started : compiled.InRange _ state := (history.tracked safe position round stored (.item state) member).1
      have before := started.start ruleStartPos starts
      rw [List.length_take] at before
      omega
    rw [List.getD_eq_getElem?_getD, List.getElem?_map] at waiting
    cases origin : (rounds.take position)[ruleStartPos]? with
    | none => rw [origin] at waiting; cases waiting
    | some originRound =>
      rw [origin] at waiting
      rw [List.getElem?_take] at origin
      split at origin
      · obtain ⟨-, -, waited, waits, tail⟩ := history.tracked safe ruleStartPos originRound origin
          (.entry (state.ruleId, parent)) waiting
        exact safe.advances waits (tail.tail ⟨_, edge, leads, kind, (Bool.and_eq_true_iff.mp short).1⟩) tail
      · cases origin

theorem GrammarData.NoRepeats.safeRepeats {grammar : GrammarData} (none : grammar.NoRepeats) : grammar.SafeRepeats := by
  have absent : ∀ ruleId source, ∀ edge ∈ (grammar.fsmOf ruleId).edges source, ∀ auxIndex,
      edge.edgeType ≠ .repeatRef auxIndex := by
    intro ruleId source edge leads auxIndex kind
    have plain := none ruleId source edge leads
    rw [FsmEdge.isRepeatRef, kind] at plain
    cases plain
  refine ⟨fun ruleId source edge leads repeats => ?_, fun ruleId source edge leads auxIndex kind => ?_,
    fun ruleId source edge leads auxIndex kind => ?_, fun ruleId _ edge _ _ _ other leads auxIndex kind => ?_⟩
  · rw [none ruleId source edge leads] at repeats
    cases repeats
  · exact absurd kind (absent ruleId source edge leads auxIndex)
  · exact absurd kind (absent ruleId source edge leads auxIndex)
  · exact absurd kind (absent ruleId _ other leads auxIndex)

/-- Without repetitions, the parser accepts exactly the byte strings that the root rule derives. -/
theorem acceptsBytes_iff_of_noRepeats (compiled : CompiledGrammar) (none : compiled.NoRepeats)
    (nullable : compiled.ExactNullable) (input : List UInt8) :
    acceptsBytes compiled.toGrammarData input = true ↔ compiled.Generates compiled.rootRuleId input :=
  ⟨generates_of_acceptsBytes nullable (none.safeRepeats.countsKept input),
    acceptsBytes_of_generates nullable (none.safeRepeats.countsKept input)⟩

/-- `s ::= s "a" | ""`. -/
def leftRecursive : CompiledGrammar where
  rules := [⟨0⟩]
  rootRuleId := 0
  allowEmptyRuleIds := [0]
  completeFsm := ⟨[], []⟩
  perRuleFsms := [⟨⟨[[⟨.ruleRef 0, 1⟩], [⟨.charRange 97 97, 2⟩], []], []⟩, 0, [true, false, true]⟩]
  rootInRange := by decide
  startInRange := by decide
  targetInRange := by decide
  refereeInRange := by decide

theorem leftRecursive_noRepeats : leftRecursive.NoRepeats := by
  intro ruleId state edge leads
  obtain _ | ruleId := ruleId
  · obtain _ | _ | state := state
    · obtain rfl := List.mem_singleton.mp leads
      rfl
    · obtain rfl := List.mem_singleton.mp leads
      rfl
    · cases state <;> cases leads
  · cases leads

theorem leftRecursive_exactNullable : leftRecursive.ExactNullable := by
  intro ruleId
  obtain _ | ruleId := ruleId
  · have final : leftRecursive.network.final 0 0 := rfl
    exact iff_of_true rfl (.rule final .here)
  · refine iff_of_false nofun fun derived => ?_
    cases derived with
    | rule final => cases final

theorem leftRecursive_acceptsBytes : acceptsBytes leftRecursive.toGrammarData [97, 97] = true ↔
    leftRecursive.Generates 0 [97, 97] :=
  acceptsBytes_iff_of_noRepeats leftRecursive leftRecursive_noRepeats leftRecursive_exactNullable [97, 97]

/-! ## Counts that go wrong -/

/-- In every parse in which no count goes wrong, the repetitions are those that the bounds allow: the parser accepts
exactly the byte strings that the root rule derives. -/
theorem acceptsBytes_iff_of_countsKept (compiled : CompiledGrammar) (nullable : compiled.ExactNullable)
    (input : List UInt8) (kept : CountsKept compiled.toGrammarData input) :
    acceptsBytes compiled.toGrammarData input = true ↔ compiled.Generates compiled.rootRuleId input :=
  ⟨generates_of_acceptsBytes nullable kept, acceptsBytes_of_generates nullable kept⟩

/-- `root ::= r{2,3}`, `r ::= "a"`. -/
def counted : CompiledGrammar where
  rules := [⟨0⟩, ⟨1⟩]
  rootRuleId := 0
  allowEmptyRuleIds := []
  completeFsm := ⟨[], [1, 2, 3]⟩
  perRuleFsms := [⟨⟨[[⟨.repeatRef 0, 1⟩], []], []⟩, 0, [false, true]⟩,
    ⟨⟨[[⟨.charRange 97 97, 1⟩], []], []⟩, 0, [false, true]⟩]
  rootInRange := by decide
  startInRange := by decide
  targetInRange := by decide
  refereeInRange := by decide

/-- `root ::= r{2,2}`, `r ::= "a" b`, `b ::= "b"`. -/
def tailCounted : CompiledGrammar where
  rules := [⟨0⟩, ⟨1⟩, ⟨2⟩]
  rootRuleId := 0
  allowEmptyRuleIds := []
  completeFsm := ⟨[], [1, 2, 2]⟩
  perRuleFsms := [⟨⟨[[⟨.repeatRef 0, 1⟩], []], []⟩, 0, [false, true]⟩,
    ⟨⟨[[⟨.charRange 97 97, 1⟩], [⟨.ruleRef 2, 2⟩], []], []⟩, 0, [false, false, true]⟩,
    ⟨⟨[[⟨.charRange 98 98, 1⟩], []], []⟩, 0, [false, true]⟩]
  rootInRange := by decide
  startInRange := by decide
  targetInRange := by decide
  refereeInRange := by decide

theorem counted_edges (ruleId source : Nat) (edge : FsmEdge) (leads : edge ∈ (counted.fsmOf ruleId).edges source) :
    ruleId = 0 ∧ source = 0 ∧ edge = ⟨.repeatRef 0, 1⟩ ∨ edge = ⟨.charRange 97 97, 1⟩ := by
  obtain _ | _ | ruleId := ruleId
  · obtain _ | _ | source := source
    · exact .inl ⟨rfl, rfl, List.mem_singleton.mp leads⟩
    · cases leads
    · cases leads
  · obtain _ | _ | source := source
    · exact .inr (List.mem_singleton.mp leads)
    · cases leads
    · cases leads
  · cases leads

theorem counted_safeRepeats : counted.SafeRepeats := by
  have plain : ∀ ruleId refId, ¬ counted.EndsWith ruleId refId := by
    rintro ruleId refId ⟨source, edge, leads, kind, -⟩
    obtain ⟨-, -, rfl⟩ | rfl := counted_edges ruleId source edge leads
    · cases kind
    · cases kind
  refine ⟨fun ruleId source edge leads repeats => ?_, fun ruleId source edge leads auxIndex kind => ?_,
    fun ruleId source edge leads auxIndex kind refId tail => ?_, fun ruleId source edge leads refId kind => ?_⟩
  · obtain ⟨rfl, rfl, rfl⟩ | rfl := counted_edges ruleId source edge leads
    · exact ⟨rfl, rfl⟩
    · cases repeats
  · obtain ⟨rfl, rfl, rfl⟩ | rfl := counted_edges ruleId source edge leads
    · cases kind
      exact ⟨by decide, nofun⟩
    · cases kind
  · obtain same | ⟨other, step, -⟩ := Relation.ReflTransGen.cases_head tail
    · exact same.symm
    · exact absurd step (plain _ _)
  · obtain ⟨rfl, rfl, rfl⟩ | rfl := counted_edges ruleId source edge leads
    · cases kind
    · cases kind

/-! ## Nullable rules -/

namespace GrammarData

/-- The edge can be followed without reading, where those rules are nullable. -/
def Silent (grammar : GrammarData) (nullable : List Nat) (edge : FsmEdge) : Prop :=
  match edge.edgeType with
  | .epsilon => True
  | .ruleRef ruleId => ruleId ∈ nullable
  | .repeatRef auxIndex => (grammar.repeatEdgeInfo auxIndex).ruleId ∈ nullable ∨
      (grammar.repeatEdgeInfo auxIndex).lower ≤ 0
  | .charRange .. | .eos => False

/-- Where every silent way to an end starts at a state of the list, only rules that start at one are nullable. -/
theorem nullable_of_silent {grammar : GrammarData} {nullable : List Nat} (idle : Nat → List Nat)
    (ends : ∀ ruleId state, (grammar.fsmOf ruleId).isEndState state = true → state ∈ idle ruleId)
    (edges : ∀ ruleId state, ∀ edge ∈ (grammar.fsmOf ruleId).edges state, grammar.Silent nullable edge →
      edge.target ∈ idle ruleId → state ∈ idle ruleId)
    (starts : ∀ ruleId, (grammar.fsmOf ruleId).start ∈ idle ruleId → ruleId ∈ nullable) {ruleId : Nat}
    (derived : grammar.Generates ruleId []) : ruleId ∈ nullable := by
  have silent : ∀ {goal word}, grammar.network.Derives goal word → word = [] →
      match goal with
      | .path ruleId source target => target ∈ idle ruleId → source ∈ idle ruleId
      | .rule ruleId => ruleId ∈ nullable
      | .pieces ruleId count => 0 < count → ruleId ∈ nullable := by
    intro goal word derived
    induction derived with
    | here => exact fun _ => id
    | epsilon step _ ih =>
      intro empty idleTarget
      obtain ⟨edge, leads, labelled, rfl⟩ := step
      generalize kind : edge.edgeType = edgeType at labelled
      cases labelled
      exact edges _ _ edge leads (by rw [Silent, kind]; trivial) (ih empty idleTarget)
    | symbol => exact nofun
    | call step _ _ ihString ih =>
      intro empty idleTarget
      obtain ⟨edge, leads, labelled, rfl⟩ := step
      obtain ⟨first, second⟩ := List.append_eq_nil_iff.mp empty
      generalize kind : edge.edgeType = edgeType at labelled
      cases labelled
      exact edges _ _ edge leads (by rw [Silent, kind]; exact ihString first) (ih second idleTarget)
    | @repeated _ _ _ _ _ _ count _ _ step allowed _ _ ihPieces ih =>
      intro empty idleTarget
      obtain ⟨edge, leads, labelled, rfl⟩ := step
      obtain ⟨first, second⟩ := List.append_eq_nil_iff.mp empty
      generalize kind : edge.edgeType = edgeType at labelled
      cases labelled
      refine edges _ _ edge leads ?_ (ih second idleTarget)
      rw [Silent, kind]
      obtain rfl | counted := Nat.eq_zero_or_pos count
      · exact .inr allowed.1
      · exact .inl (ihPieces first counted)
    | rule final _ ih => exact fun empty => starts _ (ih empty (ends _ _ final))
    | none => exact fun _ absent => absurd absent (Nat.lt_irrefl 0)
    | more _ _ ihString _ => exact fun empty _ => ihString (List.append_eq_nil_iff.mp empty).1
  exact silent derived rfl

end GrammarData

theorem counted_exactNullable : counted.ExactNullable := by
  intro ruleId
  refine iff_of_false nofun fun derived => ?_
  have absent : ruleId ∈ [] := by
    refine nullable_of_silent (fun _ => [1]) ?_ ?_ (fun ruleId idle => ?_) derived
    · intro ruleId state ends
      obtain _ | _ | ruleId := ruleId
      · obtain _ | _ | state := state
        · cases ends
        · exact List.mem_singleton.mpr rfl
        · cases ends
      · obtain _ | _ | state := state
        · cases ends
        · exact List.mem_singleton.mpr rfl
        · cases ends
      · cases ends
    · intro ruleId state edge leads silent
      obtain ⟨-, -, rfl⟩ | rfl := counted_edges ruleId state edge leads
      · obtain member | low := silent
        · cases member
        · exact absurd low (by decide)
      · exact silent.elim
    · obtain _ | _ | ruleId := ruleId
      · cases List.mem_singleton.mp idle
      · cases List.mem_singleton.mp idle
      · cases List.mem_singleton.mp idle
  cases absent

theorem counted_acceptsBytes : acceptsBytes counted.toGrammarData [97, 97] = true ↔ counted.Generates 0 [97, 97] :=
  acceptsBytes_iff_of_countsKept counted counted_exactNullable [97, 97] (counted_safeRepeats.countsKept [97, 97])

theorem tailCounted_exactNullable : tailCounted.ExactNullable := by
  intro ruleId
  refine iff_of_false nofun fun derived => ?_
  have absent : ruleId ∈ [] := by
    refine nullable_of_silent (fun ruleId => if ruleId = 1 then [2] else [1]) ?_ ?_ (fun ruleId idle => ?_)
      derived
    · intro ruleId state ends
      obtain _ | _ | _ | ruleId := ruleId
      · obtain _ | _ | state := state
        · cases ends
        · exact List.mem_singleton.mpr rfl
        · cases ends
      · obtain _ | _ | _ | state := state
        · cases ends
        · cases ends
        · exact List.mem_singleton.mpr rfl
        · cases ends
      · obtain _ | _ | state := state
        · cases ends
        · exact List.mem_singleton.mpr rfl
        · cases ends
      · cases ends
    · intro ruleId state edge leads silent
      obtain _ | _ | _ | ruleId := ruleId
      · obtain _ | _ | state := state
        · obtain rfl := List.mem_singleton.mp leads
          obtain member | low := silent
          · cases member
          · exact absurd low (by decide)
        · cases leads
        · cases leads
      · obtain _ | _ | _ | state := state
        · obtain rfl := List.mem_singleton.mp leads
          exact silent.elim
        · obtain rfl := List.mem_singleton.mp leads
          cases silent
        · cases leads
        · cases leads
      · obtain _ | _ | state := state
        · obtain rfl := List.mem_singleton.mp leads
          exact silent.elim
        · cases leads
        · cases leads
      · cases leads
    · obtain _ | _ | _ | ruleId := ruleId
      · cases List.mem_singleton.mp idle
      · cases List.mem_singleton.mp idle
      · cases List.mem_singleton.mp idle
      · cases List.mem_singleton.mp idle
  cases absent

theorem tailCounted_generates : tailCounted.Generates 0 [97, 98, 97, 98] := by
  have finalRoot : tailCounted.network.final 0 1 := rfl
  have finalTail : tailCounted.network.final 1 2 := rfl
  have finalLast : tailCounted.network.final 2 1 := rfl
  have last : tailCounted.network.Derives (.path 2 0 1) [98] :=
    .symbol ⟨⟨.charRange 98 98, 1⟩, List.mem_singleton.mpr rfl, .charRange, rfl⟩ (by decide) .here
  have reference : tailCounted.network.Derives (.path 1 1 2) ([98] ++ []) :=
    .call ⟨⟨.ruleRef 2, 2⟩, List.mem_singleton.mpr rfl, .ruleRef, rfl⟩ (.rule finalLast last) .here
  have string : tailCounted.network.Derives (.path 1 0 2) [97, 98] :=
    .symbol ⟨⟨.charRange 97 97, 1⟩, List.mem_singleton.mpr rfl, .charRange, rfl⟩ (by decide) reference
  have strings : tailCounted.network.Derives (.pieces 1 2) ([97, 98] ++ ([97, 98] ++ [])) :=
    .more (.rule finalTail string) (.more (.rule finalTail string) .none)
  have repetition : tailCounted.network.Derives (.path 0 0 1) ([97, 98, 97, 98] ++ []) :=
    .repeated ⟨⟨.repeatRef 0, 1⟩, List.mem_singleton.mpr rfl, .repeatRef, rfl⟩ ⟨by decide, .inr (by decide)⟩ strings .here
  exact .rule finalRoot repetition

theorem repeats_not_always_counted : ¬ ∀ compiled : CompiledGrammar, compiled.ExactNullable → ∀ input,
    (acceptsBytes compiled.toGrammarData input = true ↔ compiled.Generates compiled.rootRuleId input) := by
  intro counted
  have accepted := (counted tailCounted tailCounted_exactNullable [97, 98, 97, 98]).mpr tailCounted_generates
  revert accepted
  decide

end Metrale.Grammar
