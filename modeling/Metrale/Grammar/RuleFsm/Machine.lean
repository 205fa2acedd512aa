import Mathlib.Data.List.GetD
import Metrale.Foundation.Automaton
import Metrale.Foundation.VecOps
import Metrale.Grammar.Fsm

/-! # The machine of a rule (`fsm/fsm.rs`, `fsm/with_start_end.rs`)

A machine has an edge list for each state, and the numbers of its repeat edges in a list beside.  Its language is over
labels: a byte, a rule, the end of the sequence or a repetition of a rule. -/

namespace Metrale.Grammar

open Metrale.Foundation

structure Fsm where
  edges : List (List FsmEdge)
  edgeAuxData : List Int
deriving DecidableEq

namespace Fsm

def withStates (numStates : Nat) : Fsm := ⟨List.replicate numStates [], []⟩

def numStates (fsm : Fsm) : Nat := fsm.edges.length

def edgesOf (fsm : Fsm) (state : Nat) : List FsmEdge := fsm.edges.getD state []

def addState (fsm : Fsm) : Fsm × Nat := ({ fsm with edges := fsm.edges ++ [[]] }, fsm.numStates)

def addEdge (fsm : Fsm) (source target : Nat) (edgeType : EdgeType) : Fsm :=
  { fsm with edges := fsm.edges.modify source (· ++ [⟨edgeType, target⟩]) }

def addEpsilonEdge (fsm : Fsm) (source target : Nat) : Fsm := fsm.addEdge source target .epsilon

/-- The offset of the auxiliary data is read as a 16-bit number. -/
def auxOffset (fsm : Fsm) : Int := (fsm.edgeAuxData.length : Int).bmod 65536

def splicedEdge (fsm : Fsm) (edge : FsmEdge) : FsmEdge where
  edgeType := match edge.edgeType with
    | .repeatRef auxIndex => .repeatRef (if 0 < fsm.auxOffset then auxIndex + fsm.auxOffset.toNat else auxIndex)
    | other => other
  target := edge.target + fsm.numStates

/-- Answers where the states of the other machine went. -/
def addFsm (fsm other : Fsm) : Fsm × List Nat :=
  (⟨fsm.edges ++ other.edges.map (·.map fsm.splicedEdge), fsm.edgeAuxData ++ other.edgeAuxData⟩,
    (List.range other.numStates).map (· + fsm.numStates))

end Fsm

structure FsmWithStartEnd where
  fsm : Fsm
  start : Nat
  ends : List Bool
  isDfa : Bool
deriving DecidableEq

namespace FsmWithStartEnd

def numStates (machine : FsmWithStartEnd) : Nat := machine.fsm.numStates

def isEndState (machine : FsmWithStartEnd) (state : Nat) : Bool := machine.ends.getD state false

def endStates (machine : FsmWithStartEnd) : List Nat := (List.range machine.numStates).filter machine.isEndState

end FsmWithStartEnd

/-! ## The language -/

inductive Label where
  | byte (byte : UInt8)
  | rule (ruleId : Nat)
  | eos
  | repeated (info : RepeatEdgeRef)
deriving DecidableEq

/-- What an edge may read, where the auxiliary data says what a repeat edge repeats. -/
inductive EdgeType.Carries (aux : List Int) : EdgeType → Option Label → Prop where
  | charRange {min max byte} : min ≤ byte.toNat → byte.toNat ≤ max → Carries aux (.charRange min max) (some (.byte byte))
  | epsilon : Carries aux .epsilon none
  | ruleRef {ruleId} : Carries aux (.ruleRef ruleId) (some (.rule ruleId))
  | eos : Carries aux .eos (some .eos)
  | repeatRef {auxIndex} : Carries aux (.repeatRef auxIndex) (some (.repeated (.fromAux aux auxIndex)))

def Fsm.step (fsm : Fsm) (state : Nat) (label : Option Label) : Set Nat :=
  {next | ∃ edge ∈ fsm.edgesOf state, edge.edgeType.Carries fsm.edgeAuxData label ∧ edge.target = next}

def FsmWithStartEnd.automaton (machine : FsmWithStartEnd) : εNFA Label Nat where
  step := machine.fsm.step
  start := {machine.start}
  accept := {state | machine.isEndState state = true}

def FsmWithStartEnd.language (machine : FsmWithStartEnd) : Language Label := machine.automaton.accepts

def Label.Plain : Label → Prop
  | .byte _ | .rule _ => True
  | .eos | .repeated _ => False

def Fsm.Deterministic (fsm : Fsm) : Prop :=
  ∀ state, ∀ first ∈ fsm.edgesOf state, first.edgeType ≠ .epsilon ∧ ∀ second ∈ fsm.edgesOf state, ∀ label : Label, label.Plain →
    first.edgeType.Carries fsm.edgeAuxData label → second.edgeType.Carries fsm.edgeAuxData label → first = second

/-- The states and the auxiliary data of every edge are there.  A repeat edge finds its data by a 16-bit number. -/
structure Fsm.WellFormed (fsm : Fsm) : Prop where
  targetInRange : ∀ state, ∀ edge ∈ fsm.edgesOf state, edge.target < fsm.numStates
  rangeInBytes : ∀ state, ∀ edge ∈ fsm.edgesOf state, ∀ min max, edge.edgeType = .charRange min max → min ≤ max ∧ max ≤ 255
  auxInRange : ∀ state, ∀ edge ∈ fsm.edgesOf state, ∀ auxIndex, edge.edgeType = .repeatRef auxIndex →
    auxIndex + 2 < fsm.edgeAuxData.length
  auxShort : fsm.edgeAuxData.length ≤ 32768

/-- Whether every edge is as `WellFormed` asks. -/
def Fsm.isWellFormed (fsm : Fsm) : Bool :=
  (fsm.edges.all fun row => row.all fun edge => edge.target < fsm.numStates && match edge.edgeType with
    | .charRange min max => min ≤ max && max ≤ 255
    | .repeatRef auxIndex => auxIndex + 2 < fsm.edgeAuxData.length
    | _ => true) && fsm.edgeAuxData.length ≤ 32768

theorem Fsm.wellFormed_of_isWellFormed {fsm : Fsm} (checked : fsm.isWellFormed = true) : fsm.WellFormed := by
  rw [isWellFormed, Bool.and_eq_true, List.all_eq_true, decide_eq_true_eq] at checked
  have known : ∀ {state edge}, edge ∈ fsm.edgesOf state → edge.target < fsm.numStates ∧ (match edge.edgeType with
      | .charRange min max => decide (min ≤ max) && decide (max ≤ 255)
      | .repeatRef auxIndex => decide (auxIndex + 2 < fsm.edgeAuxData.length)
      | _ => true) = true := by
    intro state edge found
    rcases Nat.lt_or_ge state fsm.edges.length with inside | beyond
    · rw [edgesOf, List.getD_eq_getElem _ _ inside] at found
      have checkedEdge := List.all_eq_true.mp (checked.1 _ (List.getElem_mem inside)) edge found
      rw [Bool.and_eq_true, decide_eq_true_eq] at checkedEdge
      exact checkedEdge
    · rw [edgesOf, List.getD_eq_default _ _ beyond] at found
      cases found
  refine ⟨fun state edge found => (known found).1, fun state edge found min max shape => ?_,
    fun state edge found auxIndex shape => ?_, checked.2⟩
  · have inside := (known found).2
    rw [shape] at inside
    simpa using inside
  · have inside := (known found).2
    rw [shape] at inside
    simpa using inside

structure RuleFsm extends FsmWithStartEnd where
  wellFormed : fsm.WellFormed
  startInRange : start < fsm.numStates
  endsTotal : ends.length = fsm.numStates
  flagged : isDfa = true → fsm.Deterministic

/-! ## Edges and steps -/

namespace Fsm

variable {fsm other : Fsm} {state source target next : Nat} {edge : FsmEdge} {edgeType : EdgeType} {label : Option Label}

theorem edgesOf_of_le (beyond : fsm.numStates ≤ state) : fsm.edgesOf state = [] :=
  List.getD_eq_default _ _ beyond

theorem lt_of_mem_edgesOf (found : edge ∈ fsm.edgesOf state) : state < fsm.numStates := by
  by_contra beyond
  rw [edgesOf_of_le (Nat.le_of_not_lt beyond)] at found
  cases found

@[simp]
theorem numStates_addEdge : (fsm.addEdge source target edgeType).numStates = fsm.numStates :=
  List.length_modify ..

theorem mem_edgesOf_addEdge :
    edge ∈ (fsm.addEdge source target edgeType).edgesOf state ↔
      edge ∈ fsm.edgesOf state ∨ state = source ∧ source < fsm.numStates ∧ edge = ⟨edgeType, target⟩ :=
  mem_getD_modify_append

@[simp]
theorem addState_snd : fsm.addState.2 = fsm.numStates := rfl

@[simp]
theorem edgesOf_addState : fsm.addState.1.edgesOf state = fsm.edgesOf state := by
  simp only [addState, edgesOf, List.getD_eq_getElem?_getD]
  rcases Nat.lt_trichotomy state fsm.edges.length with inside | here | beyond
  · rw [List.getElem?_append_left inside]
  · simp [here]
  · have outside : (fsm.edges ++ [[]]).length ≤ state := by
      rw [List.length_append]
      exact beyond
    rw [List.getElem?_eq_none outside, List.getElem?_eq_none (Nat.le_of_lt beyond)]

@[simp]
theorem numStates_addState : fsm.addState.1.numStates = fsm.numStates + 1 := by
  simp [addState, numStates]

theorem step_addState : fsm.addState.1.step = fsm.step := by
  funext state label
  unfold step
  rw [edgesOf_addState]
  rfl

theorem mem_step_addEpsilonEdge :
    next ∈ (fsm.addEpsilonEdge source target).step state label ↔
      next ∈ fsm.step state label ∨ label = none ∧ state = source ∧ source < fsm.numStates ∧ next = target := by
  constructor
  · rintro ⟨edge, found, carries, rfl⟩
    rcases mem_edgesOf_addEdge.mp found with old | ⟨rfl, inside, rfl⟩
    · exact .inl ⟨edge, old, carries, rfl⟩
    · cases carries
      exact .inr ⟨rfl, rfl, inside, rfl⟩
  · rintro (⟨edge, found, carries, rfl⟩ | ⟨rfl, rfl, inside, rfl⟩)
    · exact ⟨edge, mem_edgesOf_addEdge.mpr (.inl found), carries, rfl⟩
    · exact ⟨_, mem_edgesOf_addEdge.mpr (.inr ⟨rfl, inside, rfl⟩), .epsilon, rfl⟩

theorem mem_step_foldl_addEpsilonEdge (sources : List Nat) :
    next ∈ (sources.foldl (fun fsm source => fsm.addEpsilonEdge source target) fsm).step state label ↔
      next ∈ fsm.step state label ∨ label = none ∧ state ∈ sources ∧ state < fsm.numStates ∧ next = target := by
  induction sources generalizing fsm with
  | nil => simp
  | cons source sources ih =>
    rw [List.foldl_cons, ih, mem_step_addEpsilonEdge, addEpsilonEdge, numStates_addEdge, List.mem_cons]
    constructor
    · rintro ((old | ⟨silent, rfl, inside, rfl⟩) | ⟨silent, among, inside, rfl⟩)
      · exact .inl old
      · exact .inr ⟨silent, .inl rfl, inside, rfl⟩
      · exact .inr ⟨silent, .inr among, inside, rfl⟩
    · rintro (old | ⟨silent, rfl | among, inside, rfl⟩)
      · exact .inl (.inl old)
      · exact .inl (.inr ⟨silent, rfl, inside, rfl⟩)
      · exact .inr ⟨silent, among, inside, rfl⟩

@[simp]
theorem numStates_foldl_addEpsilonEdge (sources : List Nat) :
    (sources.foldl (fun fsm source => fsm.addEpsilonEdge source target) fsm).numStates = fsm.numStates := by
  induction sources generalizing fsm with
  | nil => rfl
  | cons source sources ih => rw [List.foldl_cons, ih, addEpsilonEdge, numStates_addEdge]

@[simp]
theorem edgeAuxData_foldl_addEpsilonEdge (sources : List Nat) :
    (sources.foldl (fun fsm source => fsm.addEpsilonEdge source target) fsm).edgeAuxData = fsm.edgeAuxData := by
  induction sources generalizing fsm with
  | nil => rfl
  | cons source sources ih => rw [List.foldl_cons, ih, addEpsilonEdge, addEdge]

@[simp]
theorem edgesOf_withStates (count : Nat) : (withStates count).edgesOf state = [] := by
  simp [edgesOf, withStates, List.getD_eq_getElem?_getD, List.getElem?_replicate]
  split <;> rfl

theorem wellFormed_withStates (count : Nat) : (withStates count).WellFormed where
  targetInRange state edge found := by simp at found
  rangeInBytes state edge found := by simp at found
  auxInRange state edge found := by simp at found
  auxShort := by simp [withStates]

theorem step_eq_empty (beyond : fsm.numStates ≤ state) : fsm.step state label = ∅ := by
  rw [step, edgesOf_of_le beyond]
  simp

/-! ### Another machine beside -/

theorem auxOffset_eq (fsm : Fsm) (short : fsm.edgeAuxData.length < 32768) : fsm.auxOffset = fsm.edgeAuxData.length :=
  Int.bmod_eq_of_le (by omega) (by omega)

@[simp]
theorem numStates_addFsm : (fsm.addFsm other).1.numStates = fsm.numStates + other.numStates := by
  simp [addFsm, numStates]

theorem getD_addFsm_snd (inside : state < other.numStates) : (fsm.addFsm other).2.getD state 0 = state + fsm.numStates := by
  simp [addFsm, List.getD_eq_getElem?_getD, inside]

theorem edgesOf_addFsm_left (inside : state < fsm.numStates) : (fsm.addFsm other).1.edgesOf state = fsm.edgesOf state :=
  List.getD_append _ _ _ _ inside

theorem edgesOf_addFsm_right :
    (fsm.addFsm other).1.edgesOf (state + fsm.numStates) = (other.edgesOf state).map fsm.splicedEdge := by
  simp only [edgesOf, addFsm, List.getD_eq_getElem?_getD, numStates]
  rw [List.getElem?_append_right (Nat.le_add_left ..), Nat.add_sub_cancel, List.getElem?_map]
  cases other.edges[state]? with
  | none => rfl
  | some row => rfl

theorem carries_append_left {aux : List Int} (more : List Int)
    (inside : ∀ auxIndex, edgeType = .repeatRef auxIndex → auxIndex + 2 < aux.length) :
    edgeType.Carries (aux ++ more) label ↔ edgeType.Carries aux label := by
  cases edgeType with
  | repeatRef index =>
    have short := inside index rfl
    have same : RepeatEdgeRef.fromAux (aux ++ more) index = .fromAux aux index := by
      unfold RepeatEdgeRef.fromAux
      rw [List.getD_append _ _ _ _ (by omega), List.getD_append _ _ _ _ (by omega), List.getD_append _ _ _ _ (by omega)]
    constructor
    · rintro ⟨⟩
      rw [same]
      exact .repeatRef
    · rintro ⟨⟩
      rw [← same]
      exact .repeatRef
  | charRange | epsilon | ruleRef | eos => constructor <;> rintro ⟨⟩ <;> constructor <;> assumption

theorem carries_append_right {aux : List Int} (more : List Int) {index : Nat} :
    (EdgeType.repeatRef (index + aux.length)).Carries (aux ++ more) label ↔ (EdgeType.repeatRef index).Carries more label := by
  have second : index + aux.length + 1 - aux.length = index + 1 := by omega
  have third : index + aux.length + 2 - aux.length = index + 2 := by omega
  have same : RepeatEdgeRef.fromAux (aux ++ more) (index + aux.length) = .fromAux more index := by
    unfold RepeatEdgeRef.fromAux
    rw [List.getD_append_right _ _ _ _ (by omega), List.getD_append_right _ _ _ _ (by omega),
      List.getD_append_right _ _ _ _ (by omega), Nat.add_sub_cancel, second, third]
  constructor
  · rintro ⟨⟩
    rw [same]
    exact .repeatRef
  · rintro ⟨⟩
    rw [← same]
    exact .repeatRef

theorem carries_splicedEdge (inside : ∀ auxIndex, edge.edgeType = .repeatRef auxIndex → auxIndex + 2 < other.edgeAuxData.length)
    (fits : fsm.edgeAuxData.length + other.edgeAuxData.length ≤ 32768) :
    (fsm.splicedEdge edge).edgeType.Carries (fsm.edgeAuxData ++ other.edgeAuxData) label ↔
      edge.edgeType.Carries other.edgeAuxData label := by
  obtain ⟨edgeType, target⟩ := edge
  cases edgeType with
  | repeatRef index =>
    have short := inside index rfl
    have offset := auxOffset_eq fsm (by omega)
    have shifted : (if 0 < fsm.auxOffset then index + fsm.auxOffset.toNat else index) = index + fsm.edgeAuxData.length := by
      rw [offset]
      split <;> omega
    simp only [splicedEdge, shifted]
    exact carries_append_right _
  | charRange | epsilon | ruleRef | eos => constructor <;> rintro ⟨⟩ <;> constructor <;> assumption

theorem WellFormed.mem_step_addFsm_left (formed : fsm.WellFormed) (inside : state < fsm.numStates) :
    next ∈ (fsm.addFsm other).1.step state label ↔ next ∈ fsm.step state label := by
  simp only [step, edgesOf_addFsm_left inside, Set.mem_ofPred_eq]
  constructor
  · rintro ⟨edge, found, carries, there⟩
    exact ⟨edge, found, (carries_append_left _ (formed.auxInRange state edge found)).mp carries, there⟩
  · rintro ⟨edge, found, carries, there⟩
    exact ⟨edge, found, (carries_append_left _ (formed.auxInRange state edge found)).mpr carries, there⟩

theorem WellFormed.mem_step_addFsm_right (formed : other.WellFormed)
    (fits : fsm.edgeAuxData.length + other.edgeAuxData.length ≤ 32768) :
    next ∈ (fsm.addFsm other).1.step (state + fsm.numStates) label ↔
      ∃ inner, inner + fsm.numStates = next ∧ inner ∈ other.step state label := by
  simp only [step, edgesOf_addFsm_right, Set.mem_ofPred_eq, List.mem_map]
  constructor
  · rintro ⟨_, ⟨edge, found, rfl⟩, carries, rfl⟩
    exact ⟨edge.target, rfl, edge, found, (carries_splicedEdge (formed.auxInRange state edge found) fits).mp carries, rfl⟩
  · rintro ⟨_, rfl, edge, found, carries, rfl⟩
    exact ⟨_, ⟨edge, found, rfl⟩, (carries_splicedEdge (formed.auxInRange state edge found) fits).mpr carries, rfl⟩

theorem WellFormed.addEpsilonEdge (formed : fsm.WellFormed) (inside : target < fsm.numStates) :
    (fsm.addEpsilonEdge source target).WellFormed where
  targetInRange state edge found := by
    rw [Fsm.addEpsilonEdge, numStates_addEdge]
    rcases mem_edgesOf_addEdge.mp found with old | ⟨_, _, rfl⟩
    · exact formed.targetInRange state edge old
    · exact inside
  rangeInBytes state edge found min max shape := by
    rcases mem_edgesOf_addEdge.mp found with old | ⟨_, _, rfl⟩
    · exact formed.rangeInBytes state edge old min max shape
    · cases shape
  auxInRange state edge found auxIndex shape := by
    rcases mem_edgesOf_addEdge.mp found with old | ⟨_, _, rfl⟩
    · exact formed.auxInRange state edge old auxIndex shape
    · cases shape
  auxShort := formed.auxShort

theorem WellFormed.foldl_addEpsilonEdge (formed : fsm.WellFormed) (inside : target < fsm.numStates) (sources : List Nat) :
    (sources.foldl (fun fsm source => fsm.addEpsilonEdge source target) fsm).WellFormed := by
  induction sources generalizing fsm with
  | nil => exact formed
  | cons source sources ih =>
    apply ih (formed.addEpsilonEdge inside)
    rw [Fsm.addEpsilonEdge, numStates_addEdge]
    exact inside

theorem WellFormed.addFsm (formed : fsm.WellFormed) (otherFormed : other.WellFormed)
    (fits : fsm.edgeAuxData.length + other.edgeAuxData.length ≤ 32768) : (fsm.addFsm other).1.WellFormed := by
  have known : ∀ {state edge}, edge ∈ (fsm.addFsm other).1.edgesOf state →
      edge ∈ fsm.edgesOf state ∨ ∃ inner original, original ∈ other.edgesOf inner ∧ fsm.splicedEdge original = edge := by
    intro state edge found
    rcases Nat.lt_or_ge state fsm.numStates with inside | beyond
    · exact .inl (edgesOf_addFsm_left inside ▸ found)
    · rw [← Nat.sub_add_cancel beyond, edgesOf_addFsm_right] at found
      obtain ⟨original, there, same⟩ := List.mem_map.mp found
      exact .inr ⟨_, original, there, same⟩
  constructor
  · intro state edge found
    rw [numStates_addFsm]
    rcases known found with left | ⟨inner, original, there, rfl⟩
    · exact Nat.lt_add_right _ (formed.targetInRange state edge left)
    · have := otherFormed.targetInRange inner original there
      simp only [splicedEdge]
      omega
  · intro state edge found min max shape
    rcases known found with left | ⟨inner, original, there, rfl⟩
    · exact formed.rangeInBytes state edge left min max shape
    · apply otherFormed.rangeInBytes inner original there min max
      simp only [splicedEdge] at shape
      split at shape
      · cases shape
      · exact shape
  · intro state edge found auxIndex shape
    simp only [Fsm.addFsm, List.length_append]
    rcases known found with left | ⟨inner, original, there, rfl⟩
    · exact Nat.lt_add_right _ (formed.auxInRange state edge left auxIndex shape)
    · simp only [splicedEdge] at shape
      split at shape
      · next index original_shape =>
        have short := otherFormed.auxInRange inner original there index original_shape
        have offset := auxOffset_eq fsm (by omega)
        have same := EdgeType.repeatRef.inj shape
        rw [offset] at same
        split at same <;> omega
      · next other => exact (other _ shape).elim
  · simp only [Fsm.addFsm, List.length_append]
    exact fits

theorem WellFormed.step_lt (formed : fsm.WellFormed) (taken : next ∈ fsm.step state label) : next < fsm.numStates := by
  obtain ⟨edge, found, _, rfl⟩ := taken
  exact formed.targetInRange state edge found

theorem WellFormed.walk_lt (formed : fsm.WellFormed) {word : List Label} (walk : Walk fsm.step state word next)
    (inside : state < fsm.numStates) : next < fsm.numStates := by
  induction walk with
  | nil => exact inside
  | silent taken _ ih => exact ih (formed.step_lt taken)
  | reads taken _ ih => exact ih (formed.step_lt taken)

end Fsm

theorem FsmWithStartEnd.mem_language_iff {machine : FsmWithStartEnd} {word : List Label} :
    word ∈ machine.language ↔
      ∃ last, machine.isEndState last = true ∧ Walk machine.fsm.step machine.start word last := by
  rw [language, mem_accepts_iff]
  simp [automaton]

theorem RuleFsm.isEndState_lt (machine : RuleFsm) {state : Nat} (accepting : machine.isEndState state = true) :
    state < machine.fsm.numStates := by
  by_contra beyond
  rw [FsmWithStartEnd.isEndState, List.getD_eq_default _ _ (machine.endsTotal ▸ Nat.le_of_not_lt beyond)] at accepting
  cases accepting

theorem RuleFsm.mem_endStates (machine : RuleFsm) {state : Nat} :
    state ∈ machine.endStates ↔ machine.isEndState state = true := by
  rw [FsmWithStartEnd.endStates, List.mem_filter, List.mem_range]
  exact ⟨fun found => found.2, fun accepting => ⟨machine.isEndState_lt accepting, accepting⟩⟩

end Metrale.Grammar
