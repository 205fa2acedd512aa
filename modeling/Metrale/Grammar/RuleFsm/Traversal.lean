import Metrale.Foundation.Worklist
import Metrale.Grammar.RuleFsm.Machine

/-! # Traversal (`fsm/traversal.rs`, `fsm/fsm_traversal.rs`, `fsm/with_start_end.rs`)

A hash set of states is a finite set.  The order of a queue that a set fills is of no account, since what the searches
gather is a set again. -/

namespace Metrale.Grammar

open Metrale.Foundation

namespace Fsm

def epsilonTargets (fsm : Fsm) (state : Nat) : List Nat :=
  ((fsm.edgesOf state).filter FsmEdge.isEpsilon).map FsmEdge.target

def epsilonClosure (fsm : Fsm) (states : Finset Nat) : Finset Nat :=
  saturate fsm.epsilonTargets fsm.numStates ⟨states.sort (· ≤ ·), states⟩

def targets (fsm : Fsm) (state : Nat) : List Nat := (fsm.edgesOf state).map FsmEdge.target

def reachableStates (fsm : Fsm) (states : Finset Nat) : Finset Nat :=
  saturate fsm.targets fsm.numStates ⟨states.sort (· ≤ ·), states⟩

/-- `edge_matches` for a byte. -/
def edgeMatches (edge : FsmEdge) (byte : UInt8) : Bool := match edge.edgeType with
  | .charRange min max => min ≤ byte.toNat && byte.toNat ≤ max
  | _ => false

/-- `advance` by a byte, from states whose closure is still to be taken. -/
def advance (fsm : Fsm) (states : Finset Nat) (byte : UInt8) : Finset Nat :=
  fsm.epsilonClosure ((fsm.epsilonClosure states).biUnion fun state =>
    (((fsm.edgesOf state).filter (edgeMatches · byte)).map FsmEdge.target).toFinset)

end Fsm

namespace FsmWithStartEnd

def acceptFrom (machine : FsmWithStartEnd) (states : Finset Nat) : List UInt8 → Bool
  | [] => decide (∃ state ∈ states, machine.isEndState state = true)
  | byte :: bytes =>
    let result := machine.fsm.advance states byte
    if result = ∅ then false else machine.acceptFrom result bytes

def acceptString (machine : FsmWithStartEnd) (bytes : List UInt8) : Bool :=
  machine.acceptFrom (machine.fsm.epsilonClosure {machine.start}) bytes

def isLeaf (machine : FsmWithStartEnd) : Bool :=
  decide (∀ state ∈ machine.fsm.reachableStates {machine.start},
    (machine.fsm.edgesOf state).all fun edge => !(edge.isRuleRef || edge.isRepeatRef))

end FsmWithStartEnd

/-! ## What the searches gather -/

namespace Fsm

variable {fsm : Fsm} {state next last : Nat} {states : Finset Nat} {byte : UInt8}

theorem mem_epsilonTargets : next ∈ fsm.epsilonTargets state ↔ next ∈ fsm.step state none := by
  simp only [epsilonTargets, List.mem_map, List.mem_filter]
  constructor
  · rintro ⟨edge, ⟨found, silent⟩, rfl⟩
    refine ⟨edge, found, ?_, rfl⟩
    rw [beq_iff_eq.mp silent]
    exact .epsilon
  · rintro ⟨edge, found, carries, rfl⟩
    refine ⟨edge, ⟨found, ?_⟩, rfl⟩
    obtain ⟨edgeType, target⟩ := edge
    cases carries
    rfl

theorem WellFormed.mem_epsilonClosure_iff (formed : fsm.WellFormed) (inside : ∀ state ∈ states, state < fsm.numStates) :
    last ∈ fsm.epsilonClosure states ↔ ∃ first ∈ states, Walk fsm.step first [] last := by
  have settled : Gathering.Settled fsm.epsilonTargets ⟨states.sort (· ≤ ·), states⟩ :=
    ⟨fun key waits => (Finset.mem_sort _).mp waits, fun key seen idle => absurd ((Finset.mem_sort _).mpr seen) idle⟩
  rw [epsilonClosure, Gathering.mem_saturate_iff (Finset.range fsm.numStates) settled]
  · simp only [mem_epsilonTargets, Walk.nil_iff]
  · exact fun state among => Finset.mem_range.mpr (inside state among)
  · intro state _ found leads
    exact Finset.mem_range.mpr (formed.step_lt (mem_epsilonTargets.mp leads))
  · simp

theorem WellFormed.lt_of_mem_epsilonClosure (formed : fsm.WellFormed) (inside : ∀ state ∈ states, state < fsm.numStates)
    (found : state ∈ fsm.epsilonClosure states) : state < fsm.numStates := by
  obtain ⟨first, among, walk⟩ := (formed.mem_epsilonClosure_iff inside).mp found
  exact formed.walk_lt walk (inside first among)

theorem edgeMatches_iff (aux : List Int) {edge : FsmEdge} :
    edgeMatches edge byte = true ↔ edge.edgeType.Carries aux (some (.byte byte)) := by
  obtain ⟨edgeType, target⟩ := edge
  cases edgeType with
  | charRange min max =>
    simp only [edgeMatches, Bool.and_eq_true, decide_eq_true_eq]
    constructor
    · rintro ⟨above, below⟩
      exact .charRange above below
    · rintro ⟨above, below⟩
      exact ⟨above, below⟩
  | epsilon | ruleRef | eos | repeatRef =>
    constructor
    · intro absurd
      cases absurd
    · rintro ⟨⟩

theorem WellFormed.mem_advance_iff (formed : fsm.WellFormed) (inside : ∀ state ∈ states, state < fsm.numStates) :
    last ∈ fsm.advance states byte ↔ ∃ first ∈ states, Walk fsm.step first [.byte byte] last := by
  have read : ∀ target, target ∈ (fsm.epsilonClosure states).biUnion (fun state =>
      (((fsm.edgesOf state).filter (edgeMatches · byte)).map FsmEdge.target).toFinset) ↔
      ∃ first ∈ states, ∃ source, Walk fsm.step first [] source ∧ target ∈ fsm.step source (some (.byte byte)) := by
    intro target
    simp only [Finset.mem_biUnion, formed.mem_epsilonClosure_iff inside, List.mem_toFinset, List.mem_map, List.mem_filter,
      edgeMatches_iff fsm.edgeAuxData]
    constructor
    · rintro ⟨source, ⟨first, among, walk⟩, edge, ⟨found, carries⟩, rfl⟩
      exact ⟨first, among, source, walk, edge, found, carries, rfl⟩
    · rintro ⟨first, among, source, walk, edge, found, carries, rfl⟩
      exact ⟨source, ⟨first, among, walk⟩, edge, ⟨found, carries⟩, rfl⟩
  rw [advance, formed.mem_epsilonClosure_iff]
  · constructor
    · rintro ⟨target, entered, rest⟩
      obtain ⟨first, among, source, walk, taken⟩ := (read target).mp entered
      exact ⟨first, among, Walk.singleton_iff.mpr ⟨source, walk, target, taken, rest⟩⟩
    · rintro ⟨first, among, walk⟩
      obtain ⟨source, before, target, taken, rest⟩ := Walk.singleton_iff.mp walk
      exact ⟨target, (read target).mpr ⟨first, among, source, before, taken⟩, rest⟩
  · intro target entered
    obtain ⟨_, _, _, _, taken⟩ := (read target).mp entered
    exact formed.step_lt taken

end Fsm

namespace RuleFsm

variable {machine : RuleFsm} {bytes : List UInt8} {states : Finset Nat}

theorem acceptFrom_iff (inside : ∀ state ∈ states, state < machine.fsm.numStates) (bytes : List UInt8)
    (closed : ∀ first ∈ states, ∀ last, Walk machine.fsm.step first [] last → last ∈ states) :
    machine.acceptFrom states bytes = true ↔ ∃ first ∈ states, ∃ last, machine.isEndState last = true ∧
      Walk machine.fsm.step first (bytes.map .byte) last := by
  induction bytes generalizing states with
  | nil =>
    rw [FsmWithStartEnd.acceptFrom, decide_eq_true_eq]
    constructor
    · rintro ⟨state, among, accepting⟩
      exact ⟨state, among, state, accepting, .nil⟩
    · rintro ⟨first, among, last, accepting, walk⟩
      exact ⟨last, closed first among last walk, accepting⟩
  | cons byte bytes ih =>
    have read : ∀ {last}, last ∈ machine.fsm.advance states byte ↔ ∃ first ∈ states, Walk machine.fsm.step first [.byte byte] last :=
      machine.wellFormed.mem_advance_iff inside
    rw [FsmWithStartEnd.acceptFrom]
    split
    · next nothing =>
      simp only [Bool.false_eq_true, false_iff]
      rintro ⟨first, among, last, accepting, walk⟩
      obtain ⟨middle, head, _⟩ := Walk.cons_iff.mp walk
      have found := read.mpr ⟨first, among, head⟩
      rw [nothing] at found
      cases found
    · rw [ih]
      · constructor
        · rintro ⟨middle, entered, last, accepting, walk⟩
          obtain ⟨first, among, head⟩ := read.mp entered
          exact ⟨first, among, last, accepting, head.append walk⟩
        · rintro ⟨first, among, last, accepting, walk⟩
          obtain ⟨middle, head, rest⟩ := Walk.cons_iff.mp walk
          exact ⟨middle, read.mpr ⟨first, among, head⟩, last, accepting, rest⟩
      · intro state entered
        obtain ⟨first, among, head⟩ := read.mp entered
        exact machine.wellFormed.walk_lt head (inside first among)
      · intro middle entered last rest
        obtain ⟨first, among, head⟩ := read.mp entered
        exact read.mpr ⟨first, among, by simpa using head.append rest⟩

theorem acceptString_iff (machine : RuleFsm) : machine.acceptString bytes = true ↔ bytes.map .byte ∈ machine.language := by
  have start : ∀ state ∈ ({machine.start} : Finset Nat), state < machine.fsm.numStates := by
    simpa using machine.startInRange
  have known : ∀ {last}, last ∈ machine.fsm.epsilonClosure {machine.start} ↔ Walk machine.fsm.step machine.start [] last := by
    intro last
    simp [machine.wellFormed.mem_epsilonClosure_iff start]
  rw [FsmWithStartEnd.acceptString, acceptFrom_iff, FsmWithStartEnd.mem_language_iff]
  · constructor
    · rintro ⟨first, entered, last, accepting, walk⟩
      exact ⟨last, accepting, (known.mp entered).append walk⟩
    · rintro ⟨last, accepting, walk⟩
      exact ⟨machine.start, known.mpr .nil, last, accepting, walk⟩
  · exact fun state entered => machine.wellFormed.lt_of_mem_epsilonClosure start entered
  · exact fun first entered last walk => known.mpr ((known.mp entered).append walk)

end RuleFsm

end Metrale.Grammar
