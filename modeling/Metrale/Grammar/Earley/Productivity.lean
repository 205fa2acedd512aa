import Mathlib.Data.List.Forall2
import Mathlib.Data.List.GetD
import Metrale.Grammar.Earley.Parser

/-! # Dead-state pruning (`prune.rs`)

The marking passes end with every state marked that an end can be reached from, so pruning drops no state on a path
to an end. -/

namespace Metrale.Grammar

open Metrale.Foundation

variable {fsm : CompactFsmWithStartEnd} {productive marked later : List Bool} {node : Nat}

def MarksLe (productive marked : List Bool) : Prop :=
  List.Forall₂ (fun before after => before = true → after = true) productive marked

theorem MarksLe.refl : ∀ productive, MarksLe productive productive
  | [] => .nil
  | _ :: rest => .cons id (MarksLe.refl rest)

theorem MarksLe.trans (before : MarksLe productive marked) (after : MarksLe marked later) :
    MarksLe productive later := by
  induction before generalizing later with
  | nil => exact after
  | cons head _ ih =>
    cases after with
    | cons head' tail' => exact .cons (head' ∘ head) (ih tail')

theorem MarksLe.length (marks : MarksLe productive marked) : productive.length = marked.length :=
  List.Forall₂.length_eq marks

theorem MarksLe.getD (marks : MarksLe productive marked) (node : Nat) (set : productive.getD node false = true) :
    marked.getD node false = true := by
  induction marks generalizing node with
  | nil => exact set
  | cons head _ ih =>
    cases node with
    | zero => exact head set
    | succ node => exact ih node set

theorem marksLe_set (productive : List Bool) (node : Nat) : MarksLe productive (productive.set node true) := by
  induction productive generalizing node with
  | nil => exact .nil
  | cons head tail ih =>
    cases node with
    | zero => exact .cons (fun _ => rfl) (MarksLe.refl tail)
    | succ node => exact .cons id (ih node)

theorem MarksLe.count_lt (marks : MarksLe productive marked) :
    marked = productive ∨ marked.count false < productive.count false := by
  induction marks with
  | nil => exact .inl rfl
  | @cons before after _ _ head _ ih =>
    cases before with
    | true =>
      cases head rfl
      obtain same | fewer := ih
      · exact .inl (congrArg _ same)
      · exact .inr (by simpa using fewer)
    | false =>
      cases after with
      | false =>
        obtain same | fewer := ih
        · exact .inl (congrArg _ same)
        · exact .inr (by simpa using fewer)
      | true =>
        right
        obtain same | fewer := ih
        · simp [same]
        · simp only [List.count_cons_self, List.count_cons, beq_iff_eq, Bool.true_eq_false, if_false]
          omega

def markStep (fsm : CompactFsmWithStartEnd) (productive : List Bool) (node : Nat) : List Bool :=
  if productive.getD node false then productive
  else if (fsm.edges node).any fun edge => productive.getD edge.target false then productive.set node true
  else productive

theorem coAccessiblePass_eq :
    coAccessiblePass fsm productive = (List.range fsm.backingNumStates).foldl (markStep fsm) productive := rfl

theorem markStep_marksLe (productive : List Bool) (node : Nat) : MarksLe productive (markStep fsm productive node) := by
  simp only [markStep]
  split
  · exact .refl _
  · split
    · exact marksLe_set _ _
    · exact .refl _

theorem foldl_marksLe (nodes : List Nat) (productive : List Bool) :
    MarksLe productive (nodes.foldl (markStep fsm) productive) := by
  induction nodes generalizing productive with
  | nil => exact .refl _
  | cons head tail ih => exact (markStep_marksLe productive head).trans (ih _)

theorem coAccessiblePass_marksLe : MarksLe productive (coAccessiblePass fsm productive) := by
  rw [coAccessiblePass_eq]
  exact foldl_marksLe _ _

theorem foldl_marks (nodes : List Nat) (productive : List Bool) (member : node ∈ nodes)
    (bound : node < productive.length) {edge : FsmEdge} (leads : edge ∈ fsm.edges node)
    (target : productive.getD edge.target false = true) :
    (nodes.foldl (markStep fsm) productive).getD node false = true := by
  induction nodes generalizing productive with
  | nil => cases member
  | cons head tail ih =>
    rw [List.foldl_cons]
    obtain rfl | member := List.mem_cons.mp member
    · refine (foldl_marksLe tail _).getD node ?_
      simp only [markStep]
      split
      · next set => exact set
      · rw [if_pos (List.any_eq_true.mpr ⟨edge, leads, target⟩)]
        rw [List.getD_eq_getElem _ _ (by rw [List.length_set]; exact bound), List.getElem_set_self]
    · have step : MarksLe productive (markStep fsm productive head) := markStep_marksLe productive head
      exact ih _ member (step.length ▸ bound) (step.getD _ target)

theorem coAccessiblePass_marks (bound : node < fsm.backingNumStates) (size : productive.length = fsm.backingNumStates)
    {edge : FsmEdge} (leads : edge ∈ fsm.edges node) (target : productive.getD edge.target false = true) :
    (coAccessiblePass fsm productive).getD node false = true := by
  rw [coAccessiblePass_eq]
  exact foldl_marks _ _ (List.mem_range.mpr bound) (size ▸ bound) leads target

theorem coAccessibleLoop_spec (passes : Nat) (productive : List Bool) (enough : productive.count false < passes) :
    MarksLe productive (coAccessibleLoop fsm passes productive) ∧
      coAccessiblePass fsm (coAccessibleLoop fsm passes productive) = coAccessibleLoop fsm passes productive := by
  induction passes generalizing productive with
  | zero => cases enough
  | succ passes ih =>
    simp only [coAccessibleLoop]
    split
    · next same => exact ⟨.refl _, same⟩
    · next changed =>
      have marks : MarksLe productive (coAccessiblePass fsm productive) := coAccessiblePass_marksLe
      have fewer := marks.count_lt.resolve_left changed
      obtain ⟨later, fixed⟩ := ih (coAccessiblePass fsm productive) (by omega)
      exact ⟨marks.trans later, fixed⟩

theorem coAccessibleNodes_spec :
    MarksLe ((List.range fsm.backingNumStates).map fsm.isEndState) (coAccessibleNodes fsm) ∧
      coAccessiblePass fsm (coAccessibleNodes fsm) = coAccessibleNodes fsm := by
  refine coAccessibleLoop_spec _ _ (Nat.lt_succ_of_le ?_)
  calc _ ≤ _ := List.count_le_length
    _ = fsm.backingNumStates := by rw [List.length_map, List.length_range]
    _ ≤ _ := Nat.le_refl _

theorem coAccessibleNodes_length : (coAccessibleNodes fsm).length = fsm.backingNumStates := by
  rw [← coAccessibleNodes_spec.1.length, List.length_map, List.length_range]

theorem coAccessibleNodes_end (bound : node < fsm.backingNumStates) (ends : fsm.isEndState node = true) :
    (coAccessibleNodes fsm).getD node false = true := by
  refine coAccessibleNodes_spec.1.getD node ?_
  rw [List.getD_eq_getElem _ _ (by rw [List.length_map, List.length_range]; exact bound), List.getElem_map,
    List.getElem_range]
  exact ends

theorem coAccessibleNodes_edge (bound : node < fsm.backingNumStates) {edge : FsmEdge} (leads : edge ∈ fsm.edges node)
    (target : (coAccessibleNodes fsm).getD edge.target false = true) :
    (coAccessibleNodes fsm).getD node false = true := by
  rw [← coAccessibleNodes_spec.2]
  exact coAccessiblePass_marks bound coAccessibleNodes_length leads target

theorem CompiledGrammar.isNodeProductive (compiled : CompiledGrammar) {ruleId : Nat}
    (accessible : compiled.network.CoAccessible ruleId node) : compiled.isNodeProductive ruleId node = true := by
  simp only [GrammarData.isNodeProductive]
  cases stored : compiled.perRuleFsms[ruleId]? with
  | none => rfl
  | some fsm =>
    have same : compiled.fsmOf ruleId = fsm := by
      rw [GrammarData.fsmOf, List.getD_eq_getElem?_getD, stored, Option.getD_some]
    have present := List.mem_of_getElem? stored
    obtain ⟨target, reaches, final⟩ := accessible
    have marked : node < fsm.backingNumStates → (coAccessibleNodes fsm).getD node false = true := by
      induction reaches using Relation.ReflTransGen.head_induction_on with
      | refl => exact fun bound => coAccessibleNodes_end bound (same ▸ final)
      | head step _ ih =>
        intro bound
        obtain ⟨label, edge, leads, -, rfl⟩ := step
        rw [same] at leads
        refine coAccessibleNodes_edge bound leads (ih ?_)
        rw [CompactFsmWithStartEnd.edges, List.getD_eq_getElem _ _ bound] at leads
        exact compiled.targetInRange fsm present _ (List.getElem_mem _) edge leads
    dsimp only
    by_cases bound : node < fsm.backingNumStates
    · have found := marked bound
      rw [List.getD_eq_getElem _ _ (coAccessibleNodes_length ▸ bound)] at found ⊢
      exact found
    · exact List.getD_eq_default _ _ (by rw [coAccessibleNodes_length]; omega)

theorem CompiledGrammar.mem_prune (compiled : CompiledGrammar) {states : List ParserState} {state : ParserState}
    (member : state ∈ states) (accessible : compiled.network.CoAccessible state.ruleId state.elementId) :
    state ∈ compiled.prune states := by
  refine List.mem_filter.mpr ⟨member, ?_⟩
  rw [GrammarData.isStateDead, compiled.isNodeProductive accessible]
  rfl

end Metrale.Grammar
