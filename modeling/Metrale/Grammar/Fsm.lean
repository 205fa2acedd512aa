import Metrale.Foundation.TransitionNetwork

/-! # Compiled grammars (`fsm/edge.rs`, `fsm/compact.rs`, `grammar/data.rs`, `earley/fsm_view.rs`)

Every rule of a compiled grammar has a finite-state machine.  The source keeps what an edge reads in two 16-bit
numbers, the negative ones naming the special edges; here it is a type of its own. -/

namespace Metrale.Grammar

open Metrale.Foundation

/-- What `min` and `max` of an `FsmEdge` encode. -/
inductive EdgeType where
  | charRange (min max : Nat)
  | epsilon
  | ruleRef (ruleId : Nat)
  | eos
  | repeatRef (auxIndex : Nat)
deriving DecidableEq

structure FsmEdge where
  edgeType : EdgeType
  target : Nat
deriving DecidableEq

def FsmEdge.isCharRange (edge : FsmEdge) : Bool := match edge.edgeType with | .charRange .. => true | _ => false

def FsmEdge.isEpsilon (edge : FsmEdge) : Bool := edge.edgeType == .epsilon

def FsmEdge.isRuleRef (edge : FsmEdge) : Bool := match edge.edgeType with | .ruleRef _ => true | _ => false

def FsmEdge.isRepeatRef (edge : FsmEdge) : Bool := match edge.edgeType with | .repeatRef _ => true | _ => false

/-- `upper` is `-1` for an unbounded repetition. -/
structure RepeatEdgeRef where
  ruleId : Nat
  lower : Int
  upper : Int
deriving DecidableEq

/-- The rule is read as a 16-bit number. -/
def RepeatEdgeRef.fromAux (data : List Int) (index : Nat) : RepeatEdgeRef :=
  ⟨((data.getD index 0).bmod 65536).toNat, data.getD (index + 1) 0, data.getD (index + 2) 0⟩

structure CompactFsm where
  edges : List (List FsmEdge)
  edgeAuxData : List Int

structure CompactFsmWithStartEnd where
  fsm : CompactFsm
  start : Nat
  ends : List Bool

def CompactFsmWithStartEnd.edges (fsm : CompactFsmWithStartEnd) (state : Nat) : List FsmEdge :=
  fsm.fsm.edges.getD state []

def CompactFsmWithStartEnd.isEndState (fsm : CompactFsmWithStartEnd) (state : Nat) : Bool :=
  fsm.ends.getD state false

def CompactFsmWithStartEnd.backingNumStates (fsm : CompactFsmWithStartEnd) : Nat := fsm.fsm.edges.length

def CompactFsmWithStartEnd.isScanableState (fsm : CompactFsmWithStartEnd) (state : Nat) : Bool :=
  (fsm.edges state).any FsmEdge.isCharRange

def CompactFsmWithStartEnd.isNonTerminalState (fsm : CompactFsmWithStartEnd) (state : Nat) : Bool :=
  (fsm.edges state).any fun edge => edge.isRuleRef || edge.isEpsilon || edge.isRepeatRef

structure Rule where
  bodyExprId : Nat

/-- What parsing reads of a grammar: the machine of each rule, and the shared one for its auxiliary data.  The
nullable rules are sorted, and a binary search finds them. -/
structure GrammarData where
  rules : List Rule
  rootRuleId : Nat
  allowEmptyRuleIds : List Nat
  completeFsm : CompactFsm
  perRuleFsms : List CompactFsmWithStartEnd

namespace GrammarData

def fsmOf (grammar : GrammarData) (ruleId : Nat) : CompactFsmWithStartEnd :=
  grammar.perRuleFsms.getD ruleId ⟨⟨[], []⟩, 0, []⟩

def bodyExprId (grammar : GrammarData) (ruleId : Nat) : Nat := (grammar.rules.getD ruleId ⟨0⟩).bodyExprId

def ruleAllowsEmpty (grammar : GrammarData) (ruleId : Nat) : Bool := grammar.allowEmptyRuleIds.contains ruleId

def repeatEdgeInfo (grammar : GrammarData) (auxIndex : Nat) : RepeatEdgeRef :=
  .fromAux grammar.completeFsm.edgeAuxData auxIndex

def referee (grammar : GrammarData) (edge : FsmEdge) : Option Nat :=
  match edge.edgeType with
  | .ruleRef ruleId => some ruleId
  | .repeatRef auxIndex => some (grammar.repeatEdgeInfo auxIndex).ruleId
  | _ => none

end GrammarData

/-- A grammar whose rules and states are all there. -/
structure CompiledGrammar extends GrammarData where
  rootInRange : rootRuleId < perRuleFsms.length
  startInRange : ∀ fsm ∈ perRuleFsms, fsm.start < fsm.backingNumStates
  targetInRange : ∀ fsm ∈ perRuleFsms, ∀ row ∈ fsm.fsm.edges, ∀ edge ∈ row, edge.target < fsm.backingNumStates
  refereeInRange : ∀ fsm ∈ perRuleFsms, ∀ row ∈ fsm.fsm.edges, ∀ edge ∈ row,
    ∀ ruleId ∈ toGrammarData.referee edge, ruleId < perRuleFsms.length

/-! ## The language -/

def RepeatEdgeRef.allows (info : RepeatEdgeRef) (count : Nat) : Prop :=
  info.lower ≤ count ∧ (info.upper = -1 ∨ count ≤ info.upper)

inductive GrammarData.Labelled (grammar : GrammarData) : EdgeType → EdgeLabel Nat UInt8 → Prop where
  | charRange {min max} : Labelled grammar (.charRange min max) (.symbol fun byte => min ≤ byte.toNat ∧ byte.toNat ≤ max)
  | epsilon : Labelled grammar .epsilon .epsilon
  | ruleRef {ruleId} : Labelled grammar (.ruleRef ruleId) (.call ruleId)
  | repeatRef {auxIndex} : Labelled grammar (.repeatRef auxIndex)
      (.repeated (grammar.repeatEdgeInfo auxIndex).ruleId (grammar.repeatEdgeInfo auxIndex).allows)

/-- The machines of a grammar as a network.  An end-of-sequence edge reads no byte string. -/
def GrammarData.network (grammar : GrammarData) : Network Nat Nat UInt8 where
  start ruleId := (grammar.fsmOf ruleId).start
  final ruleId state := (grammar.fsmOf ruleId).isEndState state = true
  edge ruleId source label target :=
    ∃ edge ∈ (grammar.fsmOf ruleId).edges source, grammar.Labelled edge.edgeType label ∧ edge.target = target

def GrammarData.Generates (grammar : GrammarData) (ruleId : Nat) (bytes : List UInt8) : Prop :=
  grammar.network.Derives (.rule ruleId) bytes

def GrammarData.ExactNullable (grammar : GrammarData) : Prop :=
  ∀ ruleId, grammar.ruleAllowsEmpty ruleId = true ↔ grammar.Generates ruleId []

def GrammarData.NoRepeats (grammar : GrammarData) : Prop :=
  ∀ ruleId state, ∀ edge ∈ (grammar.fsmOf ruleId).edges state, edge.isRepeatRef = false

end Metrale.Grammar
