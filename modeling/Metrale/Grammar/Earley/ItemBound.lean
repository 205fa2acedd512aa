import Mathlib.Data.Finset.Prod
import Mathlib.Data.List.GetD
import Mathlib.Data.List.MinMax
import Metrale.Grammar.Earley.Drain

/-! # The items of a round are bounded

Every item of a round is at a state of its rule's machine, started no later than now, and has repeated no more often
than some repetition allows.  There are `itemBound` of these, so the loop over the queue ends. -/

namespace Metrale.Grammar

open GrammarData Round

structure GrammarData.InRange (grammar : GrammarData) (position : Nat) (state : ParserState) : Prop where
  rule : state.ruleId < grammar.perRuleFsms.length
  sequence : state.sequenceId = grammar.bodyExprId state.ruleId
  element : state.elementId < grammar.numStates
  start : ∀ ruleStartPos ∈ state.ruleStartPos, ruleStartPos ≤ position
  count : state.repeatCount ≤ grammar.maxRepeat

def GrammarData.RangedFact (grammar : GrammarData) (position : Nat) : Fact → Prop
  | .item state | .scan state => grammar.InRange position state
  | .entry (_, parent) => grammar.InRange position parent
  | .accept => True

variable {grammar : GrammarData} {position later : Nat} {state : ParserState}

theorem GrammarData.InRange.mono (ranged : grammar.InRange position state) (before : position ≤ later) :
    grammar.InRange later state :=
  { ranged with start := fun ruleStartPos starts => (ranged.start ruleStartPos starts).trans before }

theorem GrammarData.InRange.atElement (ranged : grammar.InRange position state) {elementId : Nat}
    (bound : elementId < grammar.numStates) : grammar.InRange position (state.atElement elementId) :=
  { ranged with element := bound, count := Nat.zero_le _ }

theorem GrammarData.length_le_itemBound (states : List ParserState) (distinct : states.Nodup)
    (ranged : ∀ state ∈ states, grammar.InRange position state) : states.length ≤ grammar.itemBound position := by
  let key : ParserState → Nat × Nat × Nat × Nat := fun state =>
    (state.ruleId, state.elementId, state.ruleStartPos.elim 0 (· + 1), state.repeatCount)
  let keys := Finset.range grammar.perRuleFsms.length ×ˢ Finset.range grammar.numStates ×ˢ
    Finset.range (position + 2) ×ˢ Finset.range (grammar.maxRepeat + 1)
  have size : keys.card = grammar.itemBound position := by
    simp only [keys, Finset.card_product, Finset.card_range, itemBound]
  rw [← List.toFinset_card_of_nodup distinct, ← size]
  refine Finset.card_le_card_of_injOn key (fun state member => ?_) fun first member second member' same => ?_
  · have range := ranged state (List.mem_toFinset.mp member)
    simp only [key, keys, Finset.coe_product, Set.mem_prod, Finset.coe_range, Set.mem_Iio]
    refine ⟨range.rule, range.element, ?_, Nat.lt_succ_of_le range.count⟩
    cases starts : state.ruleStartPos with
    | none => exact Nat.succ_pos _
    | some ruleStartPos => exact Nat.succ_lt_succ (Nat.lt_succ_of_le (range.start ruleStartPos starts))
  · have sequence := (ranged first (List.mem_toFinset.mp member)).sequence
    have sequence' := (ranged second (List.mem_toFinset.mp member')).sequence
    obtain ⟨rule, ruleSeq, element, start, count⟩ := first
    obtain ⟨rule', ruleSeq', element', start', count'⟩ := second
    simp only [key, Prod.mk.injEq] at same
    obtain ⟨rfl, rfl, starts, rfl⟩ := same
    have start_eq : start = start' := by
      cases start <;> cases start' <;> simp_all
    rw [start_eq]
    simp only at sequence sequence'
    rw [sequence, sequence']

/-! ## Compiled grammars -/

namespace CompiledGrammar

variable (compiled : CompiledGrammar)

theorem fsmOf_mem {ruleId : Nat} (bound : ruleId < compiled.perRuleFsms.length) :
    compiled.fsmOf ruleId ∈ compiled.perRuleFsms := by
  rw [fsmOf, List.getD_eq_getElem _ _ bound]
  exact List.getElem_mem bound

theorem backingNumStates_le {ruleId : Nat} (bound : ruleId < compiled.perRuleFsms.length) :
    (compiled.fsmOf ruleId).backingNumStates ≤ compiled.numStates :=
  List.le_max_of_le' 0 (List.mem_map_of_mem (compiled.fsmOf_mem bound)) le_rfl

theorem start_lt {ruleId : Nat} (bound : ruleId < compiled.perRuleFsms.length) :
    (compiled.fsmOf ruleId).start < compiled.numStates :=
  (compiled.startInRange _ (compiled.fsmOf_mem bound)).trans_le (compiled.backingNumStates_le bound)

theorem row_of_edge {fsm : CompactFsmWithStartEnd} {state : Nat} {edge : FsmEdge} (member : edge ∈ fsm.edges state) :
    ∃ row ∈ fsm.fsm.edges, edge ∈ row := by
  rw [CompactFsmWithStartEnd.edges, List.getD_eq_getElem?_getD] at member
  cases stored : fsm.fsm.edges[state]? with
  | none => rw [stored] at member; cases member
  | some row => rw [stored] at member; exact ⟨row, List.mem_of_getElem? stored, member⟩

theorem target_lt {state : ParserState} (rule : state.ruleId < compiled.perRuleFsms.length) {edge : FsmEdge}
    (member : edge ∈ compiled.edgesOf state) : edge.target < compiled.numStates := by
  obtain ⟨row, rowMember, edgeMember⟩ := row_of_edge member
  exact (compiled.targetInRange _ (compiled.fsmOf_mem rule) row rowMember edge edgeMember).trans_le
    (compiled.backingNumStates_le rule)

theorem referee_lt {state : ParserState} (rule : state.ruleId < compiled.perRuleFsms.length) {edge : FsmEdge}
    (member : edge ∈ compiled.edgesOf state) {ruleId : Nat} (refers : compiled.referee edge = some ruleId) :
    ruleId < compiled.perRuleFsms.length := by
  obtain ⟨row, rowMember, edgeMember⟩ := row_of_edge member
  exact compiled.refereeInRange _ (compiled.fsmOf_mem rule) row rowMember edge edgeMember ruleId refers

theorem upper_le_maxRepeat (grammar : GrammarData) (auxIndex : Nat) :
    (grammar.repeatEdgeInfo auxIndex).upper ≤ grammar.maxRepeat := by
  simp only [repeatEdgeInfo, RepeatEdgeRef.fromAux]
  rw [List.getD_eq_getElem?_getD]
  cases stored : grammar.completeFsm.edgeAuxData[auxIndex + 2]? with
  | none => exact Int.natCast_nonneg _
  | some upper =>
    have bound : upper.toNat ≤ grammar.maxRepeat :=
      List.le_max_of_le' 0 (List.mem_map_of_mem (List.mem_of_getElem? stored)) le_rfl
    rw [Option.getD_some]
    omega

theorem ruleStart_inRange {ruleId position : Nat} (bound : ruleId < compiled.perRuleFsms.length)
    {ruleStartPos : Option Nat} (starts : ∀ pos ∈ ruleStartPos, pos ≤ position) :
    compiled.InRange position (compiled.ruleStart ruleId ruleStartPos) :=
  ⟨bound, rfl, compiled.start_lt bound, starts, Nat.zero_le _⟩

theorem advanced_inRange {position : Nat} {parent advanced : ParserState} (ranged : compiled.InRange position parent)
    {refId : Nat} (follows : Advanced compiled.toGrammarData parent refId advanced) :
    compiled.InRange position advanced := by
  cases follows with
  | passes => exact ranged
  | leaves found => exact ranged.atElement (compiled.target_lt ranged.rule (repeatEdgeFor_spec found).1)
  | again found below =>
    obtain ⟨-, auxIndex, -, rfl, -⟩ := repeatEdgeFor_spec found
    have bound := upper_le_maxRepeat compiled.toGrammarData auxIndex
    exact { ranged with count := by dsimp only [ParserState.counted]; omega }

theorem edgeAdds_ranged {earlier : List (List CompletableEntry)}
    (rows : ∀ row ∈ earlier, ∀ entry ∈ row, compiled.InRange earlier.length entry.2) {state : ParserState}
    (ranged : compiled.InRange earlier.length state) {edge : FsmEdge} (member : edge ∈ compiled.edgesOf state)
    {fact : Fact} (added : EdgeAdds compiled.toGrammarData earlier state edge fact) :
    compiled.RangedFact earlier.length fact := by
  have passed : compiled.InRange earlier.length (state.atElement edge.target) :=
    ranged.atElement (compiled.target_lt ranged.rule member)
  have now : ∀ pos ∈ some earlier.length, pos ≤ earlier.length :=
    fun pos same => (Option.mem_some_iff.mp same).ge
  cases added with
  | epsilon => exact passed
  | nullable => exact passed
  | waits => exact passed
  | leaves => exact passed
  | start kind =>
    refine compiled.ruleStart_inRange (compiled.referee_lt ranged.rule member (by rw [referee, kind])) ?_
    simp only [refStart]
    split
    · exact fun pos absent => absurd absent (Option.not_mem_none pos)
    · exact now
  | again kind =>
    exact compiled.ruleStart_inRange (compiled.referee_lt ranged.rule member (by rw [referee, kind])) now
  | waitsAgain => exact ranged
  | @copied _ ruleStartPos _ _ _ _ present =>
    rw [List.getD_eq_getElem?_getD] at present
    cases stored : earlier[ruleStartPos]? with
    | none => rw [stored] at present; cases present
    | some row =>
      rw [stored] at present
      exact rows row (List.mem_of_getElem? stored) _ present

theorem closed_ranged {earlier : List (List CompletableEntry)}
    (rows : ∀ row ∈ earlier, ∀ entry ∈ row, compiled.InRange earlier.length entry.2) :
    Closed compiled.toGrammarData earlier (fun _ => True) (compiled.RangedFact earlier.length) where
  started _ ranged := ranged.start
  adds latest state fact ranged _ entries added := by
    cases added with
    | edge member added => exact compiled.edgeAdds_ranged rows ranged member added
    | accepts => trivial
    | completes _ _ before present follows =>
      rw [List.getD_eq_getElem _ _ before] at present
      exact compiled.advanced_inRange (rows _ (List.getElem_mem before) _ present) follows
    | completesHere _ _ present follows => exact compiled.advanced_inRange (entries _ present) follows
    | scans => exact ranged

theorem drained_queue {earlier : List (List CompletableEntry)}
    (rows : ∀ row ∈ earlier, ∀ entry ∈ row, compiled.InRange earlier.length entry.2) {round : Round}
    (pending : Pending compiled.toGrammarData earlier round)
    (facts : ∀ fact, round.Holds fact → compiled.RangedFact earlier.length fact) :
    (compiled.drained earlier round).queue = [] := by
  refine drain_empties (compiled.closed_ranged rows) length_le_itemBound _ round pending facts ?_
  have waiting : round.queue.length ≤ round.visited.length := (pending.queueNodup.subperm pending.queue).length_le
  omega

end CompiledGrammar

end Metrale.Grammar
