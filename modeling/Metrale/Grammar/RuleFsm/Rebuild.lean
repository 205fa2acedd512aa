import Metrale.Grammar.RuleFsm.Machine

/-! # Rebuilding with merged states (`fsm/fsm.rs`, `fsm/with_start_end.rs`)

The states that a mapping gives one number become one state.  A walk of the rebuilt machine is a walk of the old one
that may jump between merged states. -/

namespace Metrale.Grammar

open Metrale.Foundation

/-- `min` and `max` as they stand in the source. -/
def EdgeType.code : EdgeType → Int × Int
  | .charRange min max => (min, max)
  | .epsilon => (-1, 0)
  | .ruleRef ruleId => (-2, ruleId)
  | .eos => (-3, 0)
  | .repeatRef auxIndex => (-4, auxIndex)

/-- The order of the source: by `min`, then `max`, then the target. -/
def FsmEdge.le (first second : FsmEdge) : Bool :=
  let (firstMin, firstMax) := first.edgeType.code
  let (secondMin, secondMax) := second.edgeType.code
  firstMin < secondMin || firstMin == secondMin &&
    (firstMax < secondMax || firstMax == secondMax && first.target ≤ second.target)

def dedupRow : List FsmEdge → List FsmEdge
  | [] => []
  | [edge] => [edge]
  | first :: second :: rest => if first = second then dedupRow (second :: rest) else first :: dedupRow (second :: rest)

def sortRow (row : List FsmEdge) : List FsmEdge := row.insertionSort fun first second => first.le second = true

def Fsm.sortEdges (fsm : Fsm) : Fsm := { fsm with edges := fsm.edges.map sortRow }

/-- Takes an edge over into the new rows, unless it has become a silent step that stays where it is. -/
def pushMapped (stateMapping : List Nat) (source : Nat) (newEdges : List (List FsmEdge)) (edge : FsmEdge) : List (List FsmEdge) :=
  if edge.isEpsilon ∧ stateMapping.getD source 0 = stateMapping.getD edge.target 0 then newEdges
  else newEdges.modify (stateMapping.getD source 0) (· ++ [{ edge with target := stateMapping.getD edge.target 0 }])

def Fsm.rebuildWithMapping (fsm : Fsm) (stateMapping : List Nat) (newNumStates : Nat) : Fsm :=
  let newEdges := fsm.edges.zipIdx.foldl (fun newEdges entry => entry.1.foldl (pushMapped stateMapping entry.2) newEdges)
    (List.replicate newNumStates [])
  ⟨newEdges.map fun row => dedupRow (sortRow row), fsm.edgeAuxData⟩

def FsmWithStartEnd.rebuildWithMapping (machine : FsmWithStartEnd) (stateMapping : List Nat) (newNumStates : Nat) :
    FsmWithStartEnd :=
  ⟨machine.fsm.rebuildWithMapping stateMapping newNumStates, stateMapping.getD machine.start 0,
    machine.endStates.foldl (fun newEnds state => newEnds.set (stateMapping.getD state 0) true) (List.replicate newNumStates false),
    false⟩

variable {row : List FsmEdge} {edge : FsmEdge} {stateMapping : List Nat} {newNumStates source state : Nat}

@[simp]
theorem mem_dedupRow : edge ∈ dedupRow row ↔ edge ∈ row := by
  fun_induction dedupRow row with
  | case1 => rfl
  | case2 => rfl
  | case3 second rest ih =>
    rw [ih]
    simp
  | case4 first second rest differs ih => 
    rw [List.mem_cons, ih]
    simp

@[simp]
theorem mem_sortRow : edge ∈ sortRow row ↔ edge ∈ row := List.mem_insertionSort _

/-! ## The edges of the rebuilt machine -/

/-- The edge stays, and goes from one new state to another. -/
def MapsTo (stateMapping : List Nat) (source : Nat) (edge : FsmEdge) (state : Nat) (mapped : FsmEdge) : Prop :=
  ¬ (edge.isEpsilon = true ∧ stateMapping.getD source 0 = stateMapping.getD edge.target 0) ∧
    stateMapping.getD source 0 = state ∧ { edge with target := stateMapping.getD edge.target 0 } = mapped

theorem mem_pushMapped {newEdges : List (List FsmEdge)} {mapped : FsmEdge} :
    mapped ∈ (pushMapped stateMapping source newEdges edge).getD state [] ↔
      mapped ∈ newEdges.getD state [] ∨ state < newEdges.length ∧ MapsTo stateMapping source edge state mapped := by
  rw [pushMapped]
  split
  · next loop =>
    constructor
    · exact .inl
    · rintro (old | ⟨_, stays, _⟩)
      · exact old
      · exact absurd loop stays
  · next stays =>
    rw [mem_getD_modify_append]
    simp only [MapsTo, stays, not_false_eq_true, true_and]
    constructor
    · rintro (old | ⟨rfl, inside, rfl⟩)
      · exact .inl old
      · exact .inr ⟨inside, rfl, rfl⟩
    · rintro (old | ⟨inside, rfl, rfl⟩)
      · exact .inl old
      · exact .inr ⟨rfl, inside, rfl⟩

@[simp]
theorem length_pushMapped {newEdges : List (List FsmEdge)} :
    (pushMapped stateMapping source newEdges edge).length = newEdges.length := by
  rw [pushMapped]
  split
  · rfl
  · exact List.length_modify ..

theorem length_foldl_pushMapped (row : List FsmEdge) (newEdges : List (List FsmEdge)) :
    (row.foldl (pushMapped stateMapping source) newEdges).length = newEdges.length := by
  induction row generalizing newEdges with
  | nil => rfl
  | cons edge row ih => rw [List.foldl_cons, ih, length_pushMapped]

theorem mem_foldl_pushMapped (row : List FsmEdge) (newEdges : List (List FsmEdge)) {mapped : FsmEdge} :
    mapped ∈ (row.foldl (pushMapped stateMapping source) newEdges).getD state [] ↔
      mapped ∈ newEdges.getD state [] ∨ state < newEdges.length ∧ ∃ edge ∈ row, MapsTo stateMapping source edge state mapped := by
  induction row generalizing newEdges with
  | nil => simp
  | cons edge row ih =>
    rw [List.foldl_cons, ih, mem_pushMapped, length_pushMapped]
    simp only [List.mem_cons, exists_eq_or_imp, and_or_left, or_assoc]

theorem mem_foldl_rows (entries : List (List FsmEdge × Nat)) (newEdges : List (List FsmEdge)) {mapped : FsmEdge} :
    mapped ∈ (entries.foldl (fun newEdges entry => entry.1.foldl (pushMapped stateMapping entry.2) newEdges) newEdges).getD state [] ↔
      mapped ∈ newEdges.getD state [] ∨ state < newEdges.length ∧
        ∃ entry ∈ entries, ∃ edge ∈ entry.1, MapsTo stateMapping entry.2 edge state mapped := by
  induction entries generalizing newEdges with
  | nil => simp
  | cons entry entries ih =>
    rw [List.foldl_cons, ih, mem_foldl_pushMapped, length_foldl_pushMapped]
    simp only [List.mem_cons, exists_eq_or_imp, and_or_left, or_assoc]

namespace Fsm

variable {fsm : Fsm}

theorem mem_edgesOf_rebuild {mapped : FsmEdge} : mapped ∈ (fsm.rebuildWithMapping stateMapping newNumStates).edgesOf state ↔
    state < newNumStates ∧ ∃ source, ∃ edge ∈ fsm.edgesOf source, MapsTo stateMapping source edge state mapped := by
  have row : ∀ rows : List (List FsmEdge),
      (rows.map fun row => dedupRow (sortRow row)).getD state [] = dedupRow (sortRow (rows.getD state [])) := by
    intro rows
    rw [List.getD_eq_getElem?_getD, List.getElem?_map, List.getD_eq_getElem?_getD]
    cases rows[state]? <;> rfl
  have whole : ∀ (source : Nat) (edge : FsmEdge), edge ∈ fsm.edgesOf source ↔ ∃ row, (row, source) ∈ fsm.edges.zipIdx ∧ edge ∈ row := by
    intro source edge
    simp only [List.mem_zipIdx_iff_getElem?, edgesOf, List.getD_eq_getElem?_getD]
    cases fsm.edges[source]? <;> simp
  simp only [edgesOf, rebuildWithMapping, row, mem_dedupRow, mem_sortRow, mem_foldl_rows, List.length_replicate]
  have empty : (List.replicate newNumStates ([] : List FsmEdge)).getD state [] = [] := edgesOf_withStates newNumStates
  rw [empty]
  constructor
  · rintro (absurd | ⟨inside, ⟨row, source⟩, listed, edge, found, maps⟩)
    · cases absurd
    · exact ⟨inside, source, edge, (whole source edge).mpr ⟨row, listed, found⟩, maps⟩
  · rintro ⟨inside, source, edge, found, maps⟩
    obtain ⟨row, listed, among⟩ := (whole source edge).mp found
    exact .inr ⟨inside, (row, source), listed, edge, among, maps⟩

theorem step_rebuild (inside : ∀ state, state < fsm.numStates → stateMapping.getD state 0 < newNumStates) :
    (fsm.rebuildWithMapping stateMapping newNumStates).step = withoutLoops (quotient fsm.step (stateMapping.getD · 0)) := by
  funext state label
  ext next
  constructor
  · rintro ⟨mapped, found, carries, rfl⟩
    obtain ⟨_, source, edge, there, stays, rfl, rfl⟩ := mem_edgesOf_rebuild.mp found
    refine ⟨⟨source, edge.target, ⟨edge, there, carries, rfl⟩, rfl, rfl⟩, ?_⟩
    rintro ⟨rfl, same⟩
    refine stays ⟨?_, same⟩
    obtain ⟨edgeType, target⟩ := edge
    cases carries
    rfl
  · rintro ⟨⟨source, target, ⟨edge, there, carries, rfl⟩, rfl, rfl⟩, stays⟩
    refine ⟨{ edge with target := stateMapping.getD edge.target 0 }, mem_edgesOf_rebuild.mpr
      ⟨inside source (lt_of_mem_edgesOf there), source, edge, there, ?_, rfl, rfl⟩, carries, rfl⟩
    rintro ⟨silent, same⟩
    refine stays ⟨?_, same⟩
    rw [beq_iff_eq.mp silent] at carries
    cases carries
    rfl

end Fsm

namespace RuleFsm

variable {machine : RuleFsm} {word : List Label}

/-- What the mapping must do: every state has a number, and there are no more numbers than states of the new machine. -/
def Renumbers (machine : RuleFsm) (stateMapping : List Nat) (newNumStates : Nat) : Prop :=
  ∀ state, state < machine.fsm.numStates → stateMapping.getD state 0 < newNumStates

theorem ends_rebuild : (machine.rebuildWithMapping stateMapping newNumStates).ends =
    (machine.endStates.map (stateMapping.getD · 0)).foldl (fun bits position => bits.set position true)
      (List.replicate newNumStates false) := by
  rw [List.foldl_map]
  rfl

theorem isEndState_rebuild (renumbers : machine.Renumbers stateMapping newNumStates) :
    (machine.rebuildWithMapping stateMapping newNumStates).isEndState state = true ↔
      ∃ last, machine.isEndState last = true ∧ stateMapping.getD last 0 = state := by
  rw [FsmWithStartEnd.isEndState, ends_rebuild, getD_foldl_set_replicate, List.mem_map]
  simp only [machine.mem_endStates]
  constructor
  · rintro ⟨found, _⟩
    exact found
  · rintro ⟨last, accepting, rfl⟩
    exact ⟨⟨last, accepting, rfl⟩, renumbers last (machine.isEndState_lt accepting)⟩

theorem mem_language_rebuild (renumbers : machine.Renumbers stateMapping newNumStates) :
    word ∈ (machine.rebuildWithMapping stateMapping newNumStates).language ↔
      ∃ last, machine.isEndState last = true ∧
        Walk (jumping machine.fsm.step (stateMapping.getD · 0)) machine.start word last := by
  have walks : ∀ {state}, Walk (machine.rebuildWithMapping stateMapping newNumStates).fsm.step
      (stateMapping.getD machine.start 0) word (stateMapping.getD state 0) ↔
      Walk (jumping machine.fsm.step (stateMapping.getD · 0)) machine.start word state := by
    intro state
    rw [FsmWithStartEnd.rebuildWithMapping, Fsm.step_rebuild renumbers, walk_withoutLoops_iff, ← walk_quotient_iff]
  rw [FsmWithStartEnd.mem_language_iff]
  constructor
  · rintro ⟨state, accepting, walk⟩
    obtain ⟨last, ends, rfl⟩ := (isEndState_rebuild renumbers).mp accepting
    exact ⟨last, ends, walks.mp walk⟩
  · rintro ⟨last, ends, walk⟩
    exact ⟨_, (isEndState_rebuild renumbers).mpr ⟨last, ends, rfl⟩, walks.mpr walk⟩

end RuleFsm

end Metrale.Grammar
