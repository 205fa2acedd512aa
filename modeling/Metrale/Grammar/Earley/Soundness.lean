import Metrale.Grammar.Earley.History

/-! # Every item of a round is justified by the bytes read

The count of an item is kept apart from its path: the machine has come to the item's state, and then so many
strings of the repeated rule have been read.  Five things can break this, all of them about repetitions; `Kept` says
that an item does none of them. -/

namespace Metrale.Grammar

open Metrale.Foundation Round

namespace GrammarData

variable {grammar : GrammarData} {earlier : List (List CompletableEntry)} {state : ParserState} {edge : FsmEdge}
  {consumed word : List UInt8} {ruleId : Nat}

/-- No count of repetitions goes wrong at the item: one with a count has nowhere to go but on; a repeated rule has
bounds, the lower one zero if it is nullable, and its edge is the one that completion finds; completion finds none
for a plain reference; and a copied entry is completed as the entry that it is copied from. -/
structure Kept (grammar : GrammarData) (earlier : List (List CompletableEntry)) (state : ParserState) : Prop where
  alone : 0 < state.repeatCount → grammar.isEnd state = false ∧
    ∃ edge, grammar.edgesOf state = [edge] ∧ edge.isRepeatRef = true
  bounded : ∀ edge ∈ grammar.edgesOf state, ∀ auxIndex, edge.edgeType = .repeatRef auxIndex →
    0 ≤ (grammar.repeatEdgeInfo auxIndex).upper
  nullable : ∀ edge ∈ grammar.edgesOf state, ∀ auxIndex, edge.edgeType = .repeatRef auxIndex →
    grammar.ruleAllowsEmpty (grammar.repeatEdgeInfo auxIndex).ruleId = true →
    (grammar.repeatEdgeInfo auxIndex).lower ≤ 0
  first : ∀ edge ∈ grammar.edgesOf state, ∀ auxIndex, edge.edgeType = .repeatRef auxIndex →
    grammar.repeatEdgeFor state (grammar.repeatEdgeInfo auxIndex).ruleId = some (edge, grammar.repeatEdgeInfo auxIndex)
  plain : ∀ edge ∈ grammar.edgesOf state, ∀ ruleId, edge.edgeType = .ruleRef ruleId →
    grammar.shortcut earlier.length state edge.target = false →
    grammar.repeatEdgeFor (state.atElement edge.target) ruleId = none
  copied : ∀ edge ∈ grammar.edgesOf state, ∀ ruleId, edge.edgeType = .ruleRef ruleId →
    grammar.shortcut earlier.length state edge.target = true → ∀ ruleStartPos, state.ruleStartPos = some ruleStartPos →
    ∀ parent, (state.ruleId, parent) ∈ earlier.getD ruleStartPos [] →
    grammar.repeatEdgeFor parent ruleId = grammar.repeatEdgeFor parent state.ruleId

/-- The machine reads the word up to the item's state, and then as many strings as the item counts. -/
def Reaches (grammar : GrammarData) (state : ParserState) (word : List UInt8) : Prop :=
  ∃ path pieces, word = path ++ pieces ∧
    grammar.network.Derives (.path state.ruleId (grammar.fsmOf state.ruleId).start state.elementId) path ∧
    (state.repeatCount = 0 ∧ pieces = [] ∨ ∃ edge ∈ grammar.edgesOf state, ∃ auxIndex,
      edge.edgeType = .repeatRef auxIndex ∧ state.repeatCount < (grammar.repeatEdgeInfo auxIndex).upper ∧
      grammar.network.Derives (.pieces (grammar.repeatEdgeInfo auxIndex).ruleId state.repeatCount) pieces)

/-- The item's rule began there.  What completes a rule at the root completes the root. -/
def Origin (grammar : GrammarData) (consumed : List UInt8) (state : ParserState) (position : Nat) : Prop :=
  match state.ruleStartPos with
  | some ruleStartPos => position = ruleStartPos
  | none => ∀ word, grammar.Generates state.ruleId word →
      grammar.Generates grammar.rootRuleId (consumed.take position ++ word)

def Valid (grammar : GrammarData) (consumed : List UInt8) (state : ParserState) : Prop :=
  ∃ position ≤ consumed.length, grammar.Origin consumed state position ∧ grammar.Reaches state (consumed.drop position)

def ValidEntry (grammar : GrammarData) (consumed : List UInt8) (entry : CompletableEntry) : Prop :=
  ∀ word, grammar.Generates entry.1 word → ∀ advanced, Advanced grammar entry.2 entry.1 advanced →
    grammar.Valid (consumed ++ word) advanced

def ValidFact (grammar : GrammarData) (consumed : List UInt8) : Fact → Prop
  | .item state | .scan state => grammar.Valid consumed state
  | .entry entry => grammar.ValidEntry consumed entry
  | .accept => grammar.Generates grammar.rootRuleId consumed

/-! ## Steps -/

theorem edge_network (leads : edge ∈ grammar.edgesOf state) {label : EdgeLabel Nat UInt8}
    (labelled : grammar.Labelled edge.edgeType label) :
    grammar.network.edge state.ruleId state.elementId label edge.target :=
  ⟨edge, leads, labelled, rfl⟩

theorem edge_repeated (leads : edge ∈ grammar.edgesOf state) {auxIndex : Nat}
    (kind : edge.edgeType = .repeatRef auxIndex) : grammar.network.edge state.ruleId state.elementId
      (.repeated (grammar.repeatEdgeInfo auxIndex).ruleId (grammar.repeatEdgeInfo auxIndex).allows) edge.target :=
  edge_network leads (kind ▸ .repeatRef)

theorem Kept.uncounted (kept : Kept grammar earlier state) (leads : edge ∈ grammar.edgesOf state)
    (plain : edge.isRepeatRef = false) : state.repeatCount = 0 := by
  by_contra counted
  obtain ⟨-, only, edges, repeats⟩ := kept.alone (Nat.pos_of_ne_zero counted)
  rw [edges, List.mem_singleton] at leads
  rw [← leads, plain] at repeats
  cases repeats

theorem Kept.uncounted_of_end (kept : Kept grammar earlier state) (ends : grammar.isEnd state = true) :
    state.repeatCount = 0 := by
  by_contra counted
  rw [(kept.alone (Nat.pos_of_ne_zero counted)).1] at ends
  cases ends

theorem Reaches.path (reaches : grammar.Reaches state word) (uncounted : state.repeatCount = 0) :
    grammar.network.Derives (.path state.ruleId (grammar.fsmOf state.ruleId).start state.elementId) word := by
  obtain ⟨path, pieces, rfl, derived, ⟨-, rfl⟩ | ⟨edge, -, auxIndex, -, -, counted⟩⟩ := reaches
  · rw [List.append_nil]
    exact derived
  · rw [uncounted] at counted
    cases counted
    rw [List.append_nil]
    exact derived

theorem Reaches.pieces (reaches : grammar.Reaches state word) (kept : Kept grammar earlier state)
    (leads : edge ∈ grammar.edgesOf state) {auxIndex : Nat} (kind : edge.edgeType = .repeatRef auxIndex) :
    ∃ path pieces, word = path ++ pieces ∧
      grammar.network.Derives (.path state.ruleId (grammar.fsmOf state.ruleId).start state.elementId) path ∧
      grammar.network.Derives (.pieces (grammar.repeatEdgeInfo auxIndex).ruleId state.repeatCount) pieces ∧
      state.repeatCount ≤ (grammar.repeatEdgeInfo auxIndex).upper := by
  obtain ⟨path, pieces, rfl, derived, ⟨uncounted, rfl⟩ | ⟨edge', leads', auxIndex', kind', below, counted⟩⟩ := reaches
  · refine ⟨path, [], rfl, derived, ?_, ?_⟩
    · rw [uncounted]
      exact .none
    · rw [uncounted]
      exact kept.bounded edge leads auxIndex kind
  · by_cases zero : state.repeatCount = 0
    · refine ⟨path, pieces, rfl, derived, ?_, ?_⟩
      · rw [zero] at counted ⊢
        cases counted
        exact .none
      · rw [zero]
        exact kept.bounded edge leads auxIndex kind
    · obtain ⟨-, only, edges, -⟩ := kept.alone (Nat.pos_of_ne_zero zero)
      rw [edges, List.mem_singleton] at leads leads'
      rw [leads'] at kind'
      rw [leads, kind'] at kind
      cases kind
      exact ⟨path, pieces, rfl, derived, counted, below.le⟩

theorem Valid.append {next : ParserState} {position : Nat} (inside : position ≤ consumed.length)
    (origin : grammar.Origin consumed state position) (rule : next.ruleId = state.ruleId)
    (start : next.ruleStartPos = state.ruleStartPos) (reaches : grammar.Reaches next (consumed.drop position ++ word)) :
    grammar.Valid (consumed ++ word) next := by
  refine ⟨position, inside.trans (by rw [List.length_append]; omega), ?_, ?_⟩
  · simp only [Origin, rule, start] at origin ⊢
    rw [List.take_append_of_le_length inside]
    exact origin
  · rw [List.drop_append_of_le_length inside]
    exact reaches

theorem reaches_of_path {elementId : Nat} (path : grammar.network.Derives
    (.path state.ruleId (grammar.fsmOf state.ruleId).start elementId) word) :
    grammar.Reaches (state.atElement elementId) word :=
  ⟨word, [], (List.append_nil _).symm, path, .inl ⟨rfl, rfl⟩⟩

/-- Where an uncounted item can go on by reading a word, it is valid after the word. -/
theorem Valid.atElement (valid : grammar.Valid consumed state) (uncounted : state.repeatCount = 0) {target : Nat}
    (step : ∀ word', grammar.network.Derives (.path state.ruleId (grammar.fsmOf state.ruleId).start state.elementId) word' →
      grammar.network.Derives (.path state.ruleId (grammar.fsmOf state.ruleId).start target) (word' ++ word)) :
    grammar.Valid (consumed ++ word) (state.atElement target) := by
  obtain ⟨position, inside, origin, reaches⟩ := valid
  exact Valid.append inside origin rfl rfl (reaches_of_path (step _ (reaches.path uncounted)))

theorem valid_ruleStart (ruleId : Nat) : grammar.Valid consumed (grammar.ruleStart ruleId (some consumed.length)) := by
  refine ⟨consumed.length, le_rfl, rfl, ?_⟩
  rw [List.drop_length]
  exact ⟨[], [], rfl, .here, .inl ⟨rfl, rfl⟩⟩

theorem Valid.generates (valid : grammar.Valid consumed state) (uncounted : state.repeatCount = 0)
    (ends : grammar.isEnd state = true) : ∃ position ≤ consumed.length, grammar.Origin consumed state position ∧
      grammar.Generates state.ruleId (consumed.drop position) := by
  obtain ⟨position, inside, origin, reaches⟩ := valid
  exact ⟨position, inside, origin, .rule ends (reaches.path uncounted)⟩

theorem Valid.start_le (valid : grammar.Valid consumed state) :
    ∀ ruleStartPos ∈ state.ruleStartPos, ruleStartPos ≤ consumed.length := by
  intro ruleStartPos starts
  obtain ⟨position, inside, origin, -⟩ := valid
  rw [Option.mem_def] at starts
  simp only [Origin, starts] at origin
  exact origin ▸ inside

/-! ## Edges -/

theorem valid_epsilon (valid : grammar.Valid consumed state) (uncounted : state.repeatCount = 0)
    (leads : edge ∈ grammar.edgesOf state) (kind : edge.edgeType = .epsilon) :
    grammar.Valid consumed (state.atElement edge.target) := by
  have step : grammar.Valid (consumed ++ []) (state.atElement edge.target) := valid.atElement uncounted fun word' path => by
    rw [List.append_nil]
    exact path.append_epsilon (edge_network leads (kind ▸ .epsilon))
  rwa [List.append_nil] at step

theorem valid_call (valid : grammar.Valid consumed state) (uncounted : state.repeatCount = 0)
    (leads : edge ∈ grammar.edgesOf state) (kind : edge.edgeType = .ruleRef ruleId)
    (string : grammar.Generates ruleId word) : grammar.Valid (consumed ++ word) (state.atElement edge.target) :=
  valid.atElement uncounted fun _ path => path.append_call (edge_network leads (kind ▸ .ruleRef)) string

theorem valid_leaves (valid : grammar.Valid consumed state) (kept : Kept grammar earlier state)
    (leads : edge ∈ grammar.edgesOf state) {auxIndex : Nat} (kind : edge.edgeType = .repeatRef auxIndex)
    (reached : (grammar.repeatEdgeInfo auxIndex).lower ≤ state.repeatCount) :
    grammar.Valid consumed (state.atElement edge.target) := by
  obtain ⟨position, inside, origin, reaches⟩ := valid
  obtain ⟨path, pieces, split, derived, strings, below⟩ := reaches.pieces kept leads kind
  refine ⟨position, inside, origin, ?_⟩
  rw [split]
  exact reaches_of_path (derived.append_repeated (edge_repeated leads kind) ⟨reached, .inr below⟩ strings)

theorem validEntry_again (valid : grammar.Valid consumed state) (kept : Kept grammar earlier state)
    (leads : edge ∈ grammar.edgesOf state) {auxIndex : Nat} (kind : edge.edgeType = .repeatRef auxIndex)
    (below : ¬ (grammar.repeatEdgeInfo auxIndex).upper ≤ state.repeatCount) :
    grammar.ValidEntry consumed ((grammar.repeatEdgeInfo auxIndex).ruleId, state) := by
  intro word string advanced follows
  obtain ⟨position, inside, origin, reaches⟩ := valid
  obtain ⟨path, pieces, split, derived, strings, -⟩ := reaches.pieces kept leads kind
  have more := strings.more_last string
  have found := kept.first edge leads auxIndex kind
  cases follows with
  | passes absent => cases found.symm.trans absent
  | leaves same reached =>
    cases found.symm.trans same
    refine Valid.append inside origin rfl rfl ?_
    rw [split, List.append_assoc]
    refine reaches_of_path (derived.append_repeated (edge_repeated leads kind) ⟨?_, .inr ?_⟩ more)
    · push_cast
      exact reached
    · push_cast
      omega
  | again same more' =>
    cases found.symm.trans same
    refine Valid.append inside origin rfl rfl ⟨path, pieces ++ word, ?_, derived, .inr ⟨edge, leads, auxIndex, kind, ?_, more⟩⟩
    · rw [split, List.append_assoc]
    · exact more'

/-- A string of the referenced rule completes the rule that ends with the reference. -/
theorem generates_shortcut {position : Nat} (reaches : grammar.Reaches state (consumed.drop position))
    (uncounted : state.repeatCount = 0) (leads : edge ∈ grammar.edgesOf state) (kind : edge.edgeType = .ruleRef ruleId)
    (short : grammar.shortcut earlier.length state edge.target = true) (string : grammar.Generates ruleId word) :
    grammar.Generates state.ruleId (consumed.drop position ++ word) := by
  simp only [shortcut, targetIsTerminalEnd, Bool.and_eq_true] at short
  exact .rule short.1.2 ((reaches.path uncounted).append_call (edge_network leads (kind ▸ .ruleRef)) string)

theorem edgeAdds_valid (rows : ∀ position < consumed.length, ∀ entry ∈ earlier.getD position [],
      grammar.ValidEntry (consumed.take position) entry)
    (now : earlier.length = consumed.length) (nullable : grammar.ExactNullable) (valid : grammar.Valid consumed state)
    (kept : Kept grammar earlier state) (leads : edge ∈ grammar.edgesOf state) {fact : Fact}
    (added : EdgeAdds grammar earlier state edge fact) : grammar.ValidFact consumed fact := by
  have uncounted : ∀ {ruleId}, edge.edgeType = .ruleRef ruleId → state.repeatCount = 0 :=
    fun kind => kept.uncounted leads (by rw [FsmEdge.isRepeatRef, kind])
  cases added with
  | epsilon kind => exact valid_epsilon valid (kept.uncounted leads (by rw [FsmEdge.isRepeatRef, kind])) leads kind
  | nullable kind empty =>
    have step := valid_call valid (uncounted kind) leads kind ((nullable _).mp empty)
    rwa [List.append_nil] at step
  | @start ruleId kind =>
    simp only [refStart, Bool.not_false, Bool.true_and]
    split
    · next root =>
      rw [Bool.and_eq_true, beq_iff_eq] at root
      obtain ⟨position, inside, origin, reaches⟩ := valid
      refine ⟨consumed.length, le_rfl, fun word string => ?_, ?_⟩
      · simp only [Origin, root.2] at origin
        rw [List.take_length]
        have complete := origin _ (generates_shortcut reaches (uncounted kind) leads kind root.1 string)
        rwa [← List.append_assoc, List.take_append_drop] at complete
      · rw [List.drop_length]
        exact ⟨[], [], rfl, .here, .inl ⟨rfl, rfl⟩⟩
    · rw [now]
      exact valid_ruleStart ruleId
  | waits kind long =>
    intro word string advanced follows
    have absent := kept.plain edge leads _ kind long
    cases follows with
    | passes => exact valid_call valid (uncounted kind) leads kind string
    | leaves found => cases absent.symm.trans found
    | again found => cases absent.symm.trans found
  | @copied ruleId ruleStartPos parent kind short starts present =>
    intro word string advanced follows
    have same := kept.copied edge leads ruleId kind short ruleStartPos starts parent present
    have before : ruleStartPos < consumed.length := by
      have bound := valid.start_le ruleStartPos starts
      simp only [shortcut, starts, Bool.and_eq_true, bne_iff_ne, ne_eq, Option.some_inj] at short
      omega
    obtain ⟨position, inside, origin, reaches⟩ := valid
    simp only [Origin, starts] at origin
    subst origin
    have entry := rows position before _ present _
      (generates_shortcut reaches (uncounted kind) leads kind short string) advanced ?_
    · rwa [← List.append_assoc, List.take_append_drop] at entry
    · cases follows with
      | passes absent => exact .passes (same ▸ absent)
      | leaves found reached => exact .leaves (same ▸ found) reached
      | again found below => exact .again (same ▸ found) below
  | leaves kind reached => exact valid_leaves valid kept leads kind reached
  | again =>
    rw [now]
    exact valid_ruleStart _
  | waitsAgain kind below => exact validEntry_again valid kept leads kind below

theorem closed_valid (rows : ∀ position < consumed.length, ∀ entry ∈ earlier.getD position [],
      grammar.ValidEntry (consumed.take position) entry)
    (now : earlier.length = consumed.length) (nullable : grammar.ExactNullable) :
    Closed grammar earlier (Kept grammar earlier) (grammar.ValidFact consumed) where
  started state valid ruleStartPos starts := now ▸ Valid.start_le valid ruleStartPos starts
  adds latest state fact valid kept entries added := by
    cases added with
    | edge leads added => exact edgeAdds_valid rows now nullable valid kept leads added
    | accepts ends root =>
      obtain ⟨position, -, origin, string⟩ := Valid.generates valid (kept.uncounted_of_end ends) ends
      simp only [Origin, root] at origin
      have complete := origin _ string
      rwa [List.take_append_drop] at complete
    | completes ends starts before present follows =>
      obtain ⟨position, -, origin, string⟩ := Valid.generates valid (kept.uncounted_of_end ends) ends
      simp only [Origin, starts] at origin
      subst origin
      have advanced := rows position (now ▸ before) _ present _ string _ follows
      rwa [List.take_append_drop] at advanced
    | completesHere ends starts present follows =>
      obtain ⟨position, -, origin, string⟩ := Valid.generates valid (kept.uncounted_of_end ends) ends
      simp only [Origin, starts] at origin
      subst origin
      rw [now, List.drop_length] at string
      have advanced := entries _ present _ string _ follows
      rwa [List.append_nil] at advanced
    | scans => exact valid

end GrammarData

/-! ## Histories -/

open GrammarData EarleyParser

variable {compiled : CompiledGrammar} {bytes : List UInt8} {rounds : List Round} {ch : UInt8} {round : Round}

def KeptRounds (grammar : GrammarData) (rounds : List Round) : Prop := RoundsAllow (Kept grammar) rounds

theorem successor_valid {grammar : GrammarData} {earlier : List (List CompletableEntry)} {state next : ParserState}
    (valid : grammar.Valid bytes state) (kept : Kept grammar earlier state)
    (successor : Successor grammar ch state next) : grammar.Valid (bytes ++ [ch]) next := by
  obtain ⟨edge, leads, ⟨min, max, kind, low, high⟩, rfl⟩ := successor
  have uncounted := kept.uncounted leads (by rw [FsmEdge.isRepeatRef, kind])
  have symbol : grammar.network.edge state.ruleId state.elementId
      (.symbol fun byte => min ≤ byte.toNat ∧ byte.toNat ≤ max) edge.target := edge_network leads (kind ▸ .charRange)
  have step : grammar.Valid (bytes ++ [ch]) (state.atElement edge.target) :=
    valid.atElement uncounted fun _ path => path.append_symbol symbol ⟨low, high⟩
  have same : state.atElement edge.target = { state with elementId := edge.target } := by
    rw [ParserState.atElement, ← uncounted]
  rwa [same] at step

theorem History.valid (history : History compiled.toGrammarData bytes rounds) (nullable : compiled.ExactNullable)
    (kept : KeptRounds compiled.toGrammarData rounds) :
    ∀ position round, rounds[position]? = some round → ∀ fact, round.Holds fact →
      compiled.ValidFact (bytes.take position) fact := by
  refine History.facts _ (fun bytes earlier now rows => closed_valid rows now nullable) ?_ ?_ history kept
  · exact ⟨0, le_rfl, fun _ string => string, [], [], rfl, .here, .inl ⟨rfl, rfl⟩⟩
  · intro bytes earlier ch state next valid kept successor
    have later := successor_valid valid kept successor
    exact ⟨later, later⟩

end Metrale.Grammar
