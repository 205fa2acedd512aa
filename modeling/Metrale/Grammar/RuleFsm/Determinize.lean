import Metrale.Grammar.RuleFsm.Intervals
import Metrale.Grammar.RuleFsm.Traversal

/-! # Determinisation (`fsm/algorithms.rs`)

A state of the deterministic machine stands for a set of states, closed under silent steps.  The edges of such a set
read the intervals that its ranges are cut into, its rules and its repetitions. -/

namespace Metrale.Grammar

open Metrale.Foundation

def defaultMaxStates : Nat := 1000000

namespace FsmWithStartEnd

def edgeTypes (machine : FsmWithStartEnd) (closure : Finset Nat) : List EdgeType :=
  ((closure.sort (· ≤ ·)).flatMap machine.fsm.edgesOf).map FsmEdge.edgeType

def rangesOf (machine : FsmWithStartEnd) (closure : Finset Nat) : List (Nat × Nat) :=
  (machine.edgeTypes closure).filterMap fun edgeType => match edgeType with
    | .charRange min max => some (min, max)
    | _ => none

def rulesOf (machine : FsmWithStartEnd) (closure : Finset Nat) : Finset Nat :=
  ((machine.edgeTypes closure).filterMap fun edgeType => match edgeType with
    | .ruleRef ruleId => some ruleId
    | _ => none).toFinset

def repeatAuxOf (machine : FsmWithStartEnd) (closure : Finset Nat) : Finset Nat :=
  ((machine.edgeTypes closure).filterMap fun edgeType => match edgeType with
    | .repeatRef auxIndex => some auxIndex
    | _ => none).toFinset

/-- The closures of the targets of the wanted edges.  A target that is there already is passed by. -/
def targetClosure (machine : FsmWithStartEnd) (wanted : EdgeType → Bool) (closure : Finset Nat) : Finset Nat :=
  ((closure.sort (· ≤ ·)).flatMap machine.fsm.edgesOf).foldl (fun next edge =>
    if wanted edge.edgeType ∧ edge.target ∉ next then next ∪ machine.fsm.epsilonClosure {edge.target} else next) ∅

def coversInterval (low high : Nat) : EdgeType → Bool
  | .charRange min max => min ≤ low && high ≤ max
  | _ => false

def ruleTargetClosure (machine : FsmWithStartEnd) (ruleId : Nat) : Finset Nat → Finset Nat :=
  machine.targetClosure (· == .ruleRef ruleId)

def repeatTargetClosure (machine : FsmWithStartEnd) (auxIndex : Nat) : Finset Nat → Finset Nat :=
  machine.targetClosure (· == .repeatRef auxIndex)

def dfaRow (machine : FsmWithStartEnd) (order : HashOrder Nat) (closure : Finset Nat) : List (EdgeType × Finset Nat) :=
  (intervals (machine.rangesOf closure)).map (fun interval =>
    (.charRange interval.1 interval.2, machine.targetClosure (coversInterval interval.1 interval.2) closure)) ++
  (order.toList (machine.rulesOf closure)).map (fun ruleId => (.ruleRef ruleId, machine.ruleTargetClosure ruleId closure)) ++
  (order.toList (machine.repeatAuxOf closure)).map fun auxIndex =>
    (.repeatRef auxIndex, machine.repeatTargetClosure auxIndex closure)

/-- There are no more closures than sets of states, which bounds the rounds. -/
def closures (machine : FsmWithStartEnd) (order : Nat → HashOrder Nat) : Numbering (Finset Nat) EdgeType :=
  explore (fun round closure => machine.dfaRow (order round) closure) (2 ^ machine.numStates)
    ⟨[machine.fsm.epsilonClosure {machine.start}], []⟩

/-- What `to_dfa` builds below the limit. -/
def dfaOf (machine : FsmWithStartEnd) (order : Nat → HashOrder Nat) : FsmWithStartEnd :=
  let found := machine.closures order
  ⟨⟨found.rows.map (·.map fun cell => ⟨cell.1, cell.2⟩), machine.fsm.edgeAuxData⟩, 0,
    found.keys.map fun closure => decide (∃ state ∈ closure, machine.isEndState state = true), true⟩

def toDfa (machine : FsmWithStartEnd) (order : Nat → HashOrder Nat) (maxNumStates : Nat) : Except String FsmWithStartEnd :=
  if machine.numStates > maxNumStates then .error "The number of states exceeds the limit."
  else .ok (machine.dfaOf order)

end FsmWithStartEnd

/-! ## One closure -/

namespace RuleFsm

variable {machine : RuleFsm} {closure next : Finset Nat} {wanted : EdgeType → Bool} {last state low high ruleId : Nat}
  {label : Label} {edge : FsmEdge} {order : HashOrder Nat} {edgeType other : EdgeType}

theorem mem_edges_closure : edge ∈ (closure.sort (· ≤ ·)).flatMap machine.fsm.edgesOf ↔
    ∃ state ∈ closure, edge ∈ machine.fsm.edgesOf state := by
  simp

theorem mem_epsilonClosure_singleton (inside : state < machine.fsm.numStates) :
    last ∈ machine.fsm.epsilonClosure {state} ↔ Walk machine.fsm.step state [] last := by
  rw [machine.wellFormed.mem_epsilonClosure_iff (by simpa using inside)]
  simp

theorem mem_targetClosure : last ∈ machine.targetClosure wanted closure ↔ ∃ state ∈ closure, ∃ edge ∈ machine.fsm.edgesOf state,
    wanted edge.edgeType = true ∧ Walk machine.fsm.step edge.target [] last := by
  have general : ∀ edges : List FsmEdge, (∀ edge ∈ edges, edge.target < machine.fsm.numStates) → ∀ next : Finset Nat,
      (∀ first ∈ next, ∀ last, Walk machine.fsm.step first [] last → last ∈ next) → ∀ last,
      last ∈ edges.foldl (fun next edge => if wanted edge.edgeType ∧ edge.target ∉ next then
        next ∪ machine.fsm.epsilonClosure {edge.target} else next) next ↔
      last ∈ next ∨ ∃ edge ∈ edges, wanted edge.edgeType = true ∧ Walk machine.fsm.step edge.target [] last := by
    intro edges inside
    induction edges with
    | nil => simp
    | cons edge edges ih =>
      intro next closed last
      have here := inside edge List.mem_cons_self
      have rest := ih fun edge found => inside edge (List.mem_cons_of_mem _ found)
      rw [List.foldl_cons]
      split
      · next added =>
        rw [rest]
        · simp only [Finset.mem_union, mem_epsilonClosure_singleton here, List.mem_cons, exists_eq_or_imp, added.1, true_and, or_assoc]
        · intro first among last walk
          rcases Finset.mem_union.mp among with old | new
          · exact Finset.mem_union_left _ (closed first old last walk)
          · refine Finset.mem_union_right _ ((mem_epsilonClosure_singleton here).mpr ?_)
            exact ((mem_epsilonClosure_singleton here).mp new).append walk
      · next passed =>
        rw [rest next closed]
        simp only [List.mem_cons, exists_eq_or_imp]
        constructor
        · rintro (old | new)
          · exact .inl old
          · exact .inr (.inr new)
        · rintro (old | ⟨want, walk⟩ | new)
          · exact .inl old
          · by_cases known : edge.target ∈ next
            · exact .inl (closed _ known last walk)
            · exact absurd ⟨want, known⟩ passed
          · exact .inr new
  rw [FsmWithStartEnd.targetClosure, general]
  · simp only [Finset.notMem_empty, false_or]
    constructor
    · rintro ⟨edge, found, want, walk⟩
      obtain ⟨state, among, there⟩ := mem_edges_closure.mp found
      exact ⟨state, among, edge, there, want, walk⟩
    · rintro ⟨state, among, edge, there, want, walk⟩
      exact ⟨edge, mem_edges_closure.mpr ⟨state, among, there⟩, want, walk⟩
  · intro edge found
    obtain ⟨state, _, there⟩ := mem_edges_closure.mp found
    exact machine.wellFormed.targetInRange state edge there
  · simp

theorem mem_edgeTypes : edgeType ∈ machine.edgeTypes closure ↔
    ∃ state ∈ closure, ∃ edge ∈ machine.fsm.edgesOf state, edge.edgeType = edgeType := by
  rw [FsmWithStartEnd.edgeTypes, List.mem_map]
  constructor
  · rintro ⟨edge, found, shape⟩
    obtain ⟨state, among, there⟩ := mem_edges_closure.mp found
    exact ⟨state, among, edge, there, shape⟩
  · rintro ⟨state, among, edge, there, shape⟩
    exact ⟨edge, mem_edges_closure.mpr ⟨state, among, there⟩, shape⟩

theorem mem_rangesOf {min max : Nat} :
    (min, max) ∈ machine.rangesOf closure ↔ .charRange min max ∈ machine.edgeTypes closure := by
  rw [FsmWithStartEnd.rangesOf, List.mem_filterMap]
  constructor
  · rintro ⟨edgeType, found, shape⟩
    split at shape
    · cases shape
      exact found
    · cases shape
  · intro found
    exact ⟨_, found, rfl⟩

theorem mem_rulesOf : ruleId ∈ machine.rulesOf closure ↔ .ruleRef ruleId ∈ machine.edgeTypes closure := by
  rw [FsmWithStartEnd.rulesOf, List.mem_toFinset, List.mem_filterMap]
  constructor
  · rintro ⟨edgeType, found, shape⟩
    split at shape
    · cases shape
      exact found
    · cases shape
  · intro found
    exact ⟨_, found, rfl⟩

theorem mem_repeatAuxOf {auxIndex : Nat} :
    auxIndex ∈ machine.repeatAuxOf closure ↔ .repeatRef auxIndex ∈ machine.edgeTypes closure := by
  rw [FsmWithStartEnd.repeatAuxOf, List.mem_toFinset, List.mem_filterMap]
  constructor
  · rintro ⟨edgeType, found, shape⟩
    split at shape
    · cases shape
      exact found
    · cases shape
  · intro found
    exact ⟨_, found, rfl⟩

theorem mem_dfaRow : (edgeType, next) ∈ machine.dfaRow order closure ↔
    (∃ low high, (low, high) ∈ intervals (machine.rangesOf closure) ∧ edgeType = .charRange low high ∧
      next = machine.targetClosure (FsmWithStartEnd.coversInterval low high) closure) ∨
    (∃ ruleId, .ruleRef ruleId ∈ machine.edgeTypes closure ∧ edgeType = .ruleRef ruleId ∧
      next = machine.targetClosure (· == .ruleRef ruleId) closure) ∨
    ∃ auxIndex, .repeatRef auxIndex ∈ machine.edgeTypes closure ∧ edgeType = .repeatRef auxIndex ∧
      next = machine.targetClosure (· == .repeatRef auxIndex) closure := by
  simp only [FsmWithStartEnd.dfaRow, List.mem_append, List.mem_map, order.mem_toList, mem_rulesOf, mem_repeatAuxOf, or_assoc]
  constructor
  · rintro (⟨⟨low, high⟩, found, shape⟩ | ⟨ruleId, found, shape⟩ | ⟨auxIndex, found, shape⟩) <;> cases shape
    · exact .inl ⟨low, high, found, rfl, rfl⟩
    · exact .inr (.inl ⟨ruleId, found, rfl, rfl⟩)
    · exact .inr (.inr ⟨auxIndex, found, rfl, rfl⟩)
  · rintro (⟨low, high, found, rfl, rfl⟩ | ⟨ruleId, found, rfl, rfl⟩ | ⟨auxIndex, found, rfl, rfl⟩)
    · exact .inl ⟨(low, high), found, rfl⟩
    · exact .inr (.inl ⟨ruleId, found, rfl⟩)
    · exact .inr (.inr ⟨auxIndex, found, rfl⟩)

/-- The edge that reads a byte or a rule leads to all states that the label leads to. -/
theorem mem_of_dfaRow (plain : label.Plain) (entry : (edgeType, next) ∈ machine.dfaRow order closure)
    (carries : edgeType.Carries machine.fsm.edgeAuxData (some label)) :
    last ∈ next ↔ ∃ state ∈ closure, ∃ target ∈ machine.fsm.step state (some label), Walk machine.fsm.step target [] last := by
  have through : ∀ wanted : EdgeType → Bool, (∀ edgeType ∈ machine.edgeTypes closure,
      wanted edgeType = true ↔ edgeType.Carries machine.fsm.edgeAuxData (some label)) →
      (last ∈ machine.targetClosure wanted closure ↔
        ∃ state ∈ closure, ∃ target ∈ machine.fsm.step state (some label), Walk machine.fsm.step target [] last) := by
    intro wanted same
    rw [mem_targetClosure]
    constructor
    · rintro ⟨state, among, edge, found, want, walk⟩
      exact ⟨state, among, edge.target, ⟨edge, found, (same _ (mem_edgeTypes.mpr ⟨state, among, edge, found, rfl⟩)).mp want, rfl⟩, walk⟩
    · rintro ⟨state, among, _, ⟨edge, found, reads, rfl⟩, walk⟩
      exact ⟨state, among, edge, found, (same _ (mem_edgeTypes.mpr ⟨state, among, edge, found, rfl⟩)).mpr reads, walk⟩
  rcases mem_dfaRow.mp entry with ⟨low, high, found, rfl, rfl⟩ | ⟨ruleId, found, rfl, rfl⟩ | ⟨auxIndex, found, rfl, rfl⟩
  · cases carries with
    | charRange above below =>
      apply through
      intro other listed
      cases other with
      | charRange min max =>
        have covers := interval_covers_iff found above below (mem_rangesOf.mpr listed)
        simp only [FsmWithStartEnd.coversInterval, Bool.and_eq_true, decide_eq_true_eq]
        constructor
        · intro held
          exact .charRange (covers.mp held).1 (covers.mp held).2
        · rintro ⟨above, below⟩
          exact covers.mpr ⟨above, below⟩
      | epsilon | ruleRef | eos | repeatRef =>
        constructor
        · intro absurd
          cases absurd
        · rintro ⟨⟩
  · cases carries
    apply through
    intro other _
    constructor
    · intro same
      rw [beq_iff_eq.mp same]
      exact .ruleRef
    · rintro ⟨⟩
      exact beq_self_eq_true _
  · cases carries
    cases plain

theorem exists_taken_of_dfaRow (plain : label.Plain) (entry : (edgeType, next) ∈ machine.dfaRow order closure)
    (carries : edgeType.Carries machine.fsm.edgeAuxData (some label)) :
    ∃ state ∈ closure, ∃ target, target ∈ machine.fsm.step state (some label) := by
  rcases mem_dfaRow.mp entry with ⟨low, high, found, rfl, rfl⟩ | ⟨ruleId, found, rfl, rfl⟩ | ⟨auxIndex, found, rfl, rfl⟩
  · cases carries with
    | charRange above below =>
      obtain ⟨_, range, inRange, start, stop⟩ := exists_range_of_interval found
      obtain ⟨state, among, edge, there, shape⟩ := mem_edgeTypes.mp (mem_rangesOf.mp inRange)
      exact ⟨state, among, edge.target, edge, there, shape ▸ .charRange (start.trans above) (below.trans stop), rfl⟩
  · cases carries
    obtain ⟨state, among, edge, there, shape⟩ := mem_edgeTypes.mp found
    exact ⟨state, among, edge.target, edge, there, shape ▸ .ruleRef, rfl⟩
  · cases carries
    cases plain

theorem exists_dfaRow (plain : label.Plain) (order : HashOrder Nat) (among : state ∈ closure) (taken : last ∈ machine.fsm.step state (some label)) :
    ∃ edgeType next, (edgeType, next) ∈ machine.dfaRow order closure ∧
      edgeType.Carries machine.fsm.edgeAuxData (some label) := by
  obtain ⟨edge, found, carries, rfl⟩ := taken
  have listed := mem_edgeTypes.mpr ⟨state, among, edge, found, rfl⟩
  generalize edge.edgeType = edgeType at carries listed
  cases carries with
  | @charRange min max byte above below =>
    obtain ⟨low, high, there, aboveLow, belowHigh⟩ := exists_interval (mem_rangesOf.mpr listed) above below
    exact ⟨_, _, mem_dfaRow.mpr (.inl ⟨low, high, there, rfl, rfl⟩), .charRange aboveLow belowHigh⟩
  | @ruleRef ruleId => exact ⟨_, _, mem_dfaRow.mpr (.inr (.inl ⟨ruleId, listed, rfl, rfl⟩)), .ruleRef⟩
  | eos | repeatRef => cases plain

theorem dfaRow_unique {otherNext : Finset Nat} (plain : label.Plain) (entry : (edgeType, next) ∈ machine.dfaRow order closure)
    (otherEntry : (other, otherNext) ∈ machine.dfaRow order closure) (aux : List Int) (carries : edgeType.Carries aux (some label))
    (otherCarries : other.Carries aux (some label)) : edgeType = other ∧ next = otherNext := by
  rcases mem_dfaRow.mp entry with ⟨low, high, found, rfl, rfl⟩ | ⟨ruleId, found, rfl, rfl⟩ | ⟨auxIndex, found, rfl, rfl⟩
  · cases carries with
    | charRange above below =>
      rcases mem_dfaRow.mp otherEntry with ⟨otherLow, otherHigh, otherFound, rfl, rfl⟩ | ⟨_, _, rfl, _⟩ | ⟨_, _, rfl, _⟩
      · cases otherCarries with
        | charRange aboveOther belowOther =>
          obtain ⟨rfl, rfl⟩ := interval_unique found otherFound above below aboveOther belowOther
          exact ⟨rfl, rfl⟩
      · cases otherCarries
      · cases otherCarries
  · cases carries
    rcases mem_dfaRow.mp otherEntry with ⟨_, _, _, rfl, _⟩ | ⟨_, _, rfl, rfl⟩ | ⟨_, _, rfl, _⟩
    · cases otherCarries
    · cases otherCarries
      exact ⟨rfl, rfl⟩
    · cases otherCarries
  · cases carries
    cases plain

/-! ## The deterministic machine -/

end RuleFsm

theorem Fsm.mem_edgesOf_numbered {Key : Type*} [DecidableEq Key] {next : Nat → Key → List (EdgeType × Key)}
    {found : Numbering Key EdgeType} (faithful : Numbering.Faithful next found) (same : found.rows.length = found.keys.length)
    (aux : List Int) {edge : FsmEdge} {number : Nat} :
    edge ∈ Fsm.edgesOf ⟨found.rows.map (·.map fun cell => ⟨cell.1, cell.2⟩), aux⟩ number ↔
      ∃ key, found.keys[number]? = some key ∧
        ∃ target, (edge.edgeType, target) ∈ next number key ∧ found.keys[edge.target]? = some target := by
  have row : Fsm.edgesOf ⟨found.rows.map (·.map fun cell => ⟨cell.1, cell.2⟩), aux⟩ number =
      ((found.rows[number]?).getD []).map fun cell => ⟨cell.1, cell.2⟩ := by
    simp only [Fsm.edgesOf, List.getD_eq_getElem?_getD, List.getElem?_map]
    cases found.rows[number]? <;> rfl
  rw [row, List.mem_map]
  constructor
  · rintro ⟨cell, among, rfl⟩
    cases written : found.rows[number]? with
    | none =>
      rw [written] at among
      cases among
    | some cells =>
      rw [written] at among
      obtain ⟨key, there, lists⟩ := faithful.lists number cells written
      obtain ⟨target, listed, leads⟩ := (lists.mem_iff faithful.nodup).mp among
      exact ⟨key, there, target, listed, leads⟩
  · rintro ⟨key, there, target, listed, leads⟩
    have inside := (List.getElem?_eq_some_iff.mp there).1
    have written := List.getElem?_eq_getElem (same ▸ inside)
    obtain ⟨key', there', lists⟩ := faithful.lists number _ written
    cases there.symm.trans there'
    refine ⟨(edge.edgeType, edge.target), ?_, rfl⟩
    rw [written]
    exact (lists.mem_iff faithful.nodup).mpr ⟨target, listed, leads⟩

namespace RuleFsm

variable {machine : RuleFsm} {closure next : Finset Nat} {last state : Nat} {label : Label} {edge : FsmEdge} {edgeType : EdgeType}

section DfaOf

variable {orders : Nat → HashOrder Nat} {number : Nat} {word : List Label}

theorem closures_spec (machine : RuleFsm) (orders : Nat → HashOrder Nat) :
    Numbering.Faithful (fun round closure => machine.dfaRow (orders round) closure) (machine.closures orders) ∧
      (machine.closures orders).keys[0]? = some (machine.fsm.epsilonClosure {machine.start}) ∧
      (machine.closures orders).rows.length = (machine.closures orders).keys.length ∧
      ∀ closure ∈ (machine.closures orders).keys, closure ∈ (Finset.range machine.fsm.numStates).powerset := by
  apply Numbering.explore_spec
  · rw [Finset.mem_powerset]
    intro state found
    have inside := machine.startInRange
    exact Finset.mem_range.mpr (machine.wellFormed.walk_lt ((mem_epsilonClosure_singleton inside).mp found) inside)
  · rintro round closure - ⟨edgeType, next⟩ listed
    rw [Finset.mem_powerset]
    have within : ∀ wanted, machine.targetClosure wanted closure ⊆ Finset.range machine.fsm.numStates := by
      intro wanted state found
      obtain ⟨source, _, edge, there, _, walk⟩ := mem_targetClosure.mp found
      exact Finset.mem_range.mpr (machine.wellFormed.walk_lt walk (machine.wellFormed.targetInRange source edge there))
    rcases mem_dfaRow.mp listed with ⟨_, _, _, _, rfl⟩ | ⟨_, _, _, rfl⟩ | ⟨_, _, _, rfl⟩ <;> exact within _
  · rw [Finset.card_powerset, Finset.card_range]
    exact Nat.le_refl _

theorem mem_edgesOf_dfaOf : edge ∈ (machine.dfaOf orders).fsm.edgesOf number ↔
    ∃ closure, (machine.closures orders).keys[number]? = some closure ∧
      ∃ next, (edge.edgeType, next) ∈ machine.dfaRow (orders number) closure ∧
        (machine.closures orders).keys[edge.target]? = some next := by
  obtain ⟨faithful, _, same, _⟩ := closures_spec machine orders
  exact Fsm.mem_edgesOf_numbered faithful same _

theorem isEndState_dfaOf : (machine.dfaOf orders).isEndState number = true ↔
    ∃ closure, (machine.closures orders).keys[number]? = some closure ∧
      ∃ state ∈ closure, machine.isEndState state = true := by
  simp only [FsmWithStartEnd.isEndState, FsmWithStartEnd.dfaOf, List.getD_eq_getElem?_getD, List.getElem?_map]
  cases (machine.closures orders).keys[number]? with
  | none => simp
  | some closure => simp

theorem deterministic_dfaOf : (machine.dfaOf orders).fsm.Deterministic := by
  intro number first found
  obtain ⟨closure, there, next, listed, target⟩ := mem_edgesOf_dfaOf.mp found
  constructor
  · intro silent
    rw [silent] at listed
    rcases mem_dfaRow.mp listed with ⟨_, _, _, shape, _⟩ | ⟨_, _, shape, _⟩ | ⟨_, _, shape, _⟩ <;> cases shape
  · intro second foundSecond label plain carries carriesSecond
    obtain ⟨closure', there', next', listed', target'⟩ := mem_edgesOf_dfaOf.mp foundSecond
    cases there.symm.trans there'
    obtain ⟨sameType, rfl⟩ := dfaRow_unique plain listed listed' _ carries carriesSecond
    obtain ⟨inside, here⟩ := List.getElem?_eq_some_iff.mp target
    obtain ⟨inside', here'⟩ := List.getElem?_eq_some_iff.mp target'
    have sameTarget := (closures_spec machine orders).1.nodup.getElem_inj_iff.mp (here.trans here'.symm)
    obtain ⟨edgeType, target⟩ := first
    obtain ⟨edgeType', target'⟩ := second
    cases sameType
    cases sameTarget
    rfl

theorem wellFormed_dfaOf : (machine.dfaOf orders).fsm.WellFormed := by
  have count : (machine.dfaOf orders).fsm.numStates = (machine.closures orders).keys.length := by
    rw [← (closures_spec machine orders).2.2.1]
    exact List.length_map _
  constructor
  · intro number edge found
    obtain ⟨closure, _, next, _, target⟩ := mem_edgesOf_dfaOf.mp found
    rw [count]
    exact (List.getElem?_eq_some_iff.mp target).1
  · intro number edge found min max shape
    obtain ⟨closure, _, next, listed, _⟩ := mem_edgesOf_dfaOf.mp found
    rw [shape] at listed
    rcases mem_dfaRow.mp listed with ⟨low, high, found, same, _⟩ | ⟨_, _, absurd, _⟩ | ⟨_, _, absurd, _⟩
    · cases same
      obtain ⟨ordered, range, inRange, _, below⟩ := exists_range_of_interval found
      obtain ⟨state, _, edge, there, shape⟩ := mem_edgeTypes.mp (mem_rangesOf.mp inRange)
      exact ⟨ordered, below.trans (machine.wellFormed.rangeInBytes state edge there _ _ shape).2⟩
    · cases absurd
    · cases absurd
  · intro number edge found auxIndex shape
    obtain ⟨closure, _, next, listed, _⟩ := mem_edgesOf_dfaOf.mp found
    rw [shape] at listed
    rcases mem_dfaRow.mp listed with ⟨_, _, _, absurd, _⟩ | ⟨_, _, absurd, _⟩ | ⟨_, inRow, same, _⟩
    · cases absurd
    · cases absurd
    · cases same
      obtain ⟨state, _, edge, there, shape⟩ := mem_edgeTypes.mp inRow
      exact machine.wellFormed.auxInRange state edge there _ shape
  · exact machine.wellFormed.auxShort

def dfa (machine : RuleFsm) (orders : Nat → HashOrder Nat) : RuleFsm where
  toFsmWithStartEnd := machine.dfaOf orders
  wellFormed := wellFormed_dfaOf
  startInRange := by
    obtain ⟨_, first, same, _⟩ := closures_spec machine orders
    have inside := (List.getElem?_eq_some_iff.mp first).1
    simpa [FsmWithStartEnd.dfaOf, Fsm.numStates, same] using inside
  endsTotal := by simp [FsmWithStartEnd.dfaOf, Fsm.numStates, (closures_spec machine orders).2.2.1]
  flagged _ := deterministic_dfaOf

/-- What a plain string leads to in the deterministic machine is all that it leads to. -/
theorem mem_of_walk_dfa (walk : Walk (machine.dfa orders).fsm.step 0 word number) (plain : ∀ label ∈ word, label.Plain) :
    ∃ closure, (machine.closures orders).keys[number]? = some closure ∧
      ∀ state, state ∈ closure ↔ Walk machine.fsm.step machine.start word state := by
  refine walk.invariant (fun word number => (∀ label ∈ word, label.Plain) →
    ∃ closure, (machine.closures orders).keys[number]? = some closure ∧
      ∀ state, state ∈ closure ↔ Walk machine.fsm.step machine.start word state) ?_ ?_ plain
  · rintro word number letter target held ⟨edge, found, carries, rfl⟩ plain
    obtain ⟨closure, there, next, listed, target⟩ := mem_edgesOf_dfaOf.mp found
    cases letter with
    | none =>
      have loud := (deterministic_dfaOf number edge found).1
      generalize edge.edgeType = edgeType at carries loud
      cases carries
      exact absurd rfl loud
    | some label =>
      obtain ⟨closure', there', reached⟩ := held fun label among => plain label (List.mem_append_left _ among)
      cases there.symm.trans there'
      refine ⟨next, target, fun state => ?_⟩
      rw [Option.toList_some, Walk.concat_iff, mem_of_dfaRow (plain label (by simp)) listed carries]
      exact exists_congr fun source => and_congr_left fun _ => reached source
  · intro _
    refine ⟨_, (closures_spec machine orders).2.1, fun state => mem_epsilonClosure_singleton machine.startInRange⟩

theorem exists_walk_dfa (plain : ∀ label ∈ word, label.Plain) (walk : Walk machine.fsm.step machine.start word state) :
    ∃ number, Walk (machine.dfa orders).fsm.step 0 word number := by
  induction word using List.reverseRecOn generalizing state with
  | nil => exact ⟨0, .nil⟩
  | append_singleton word label ih =>
    obtain ⟨source, before, target, taken, _⟩ := Walk.concat_iff.mp walk
    have plainBefore : ∀ label ∈ word, label.Plain := fun label among => plain label (List.mem_append_left _ among)
    obtain ⟨number, reaches⟩ := ih plainBefore before
    obtain ⟨closure, there, reached⟩ := mem_of_walk_dfa reaches plainBefore
    obtain ⟨edgeType, next, listed, carries⟩ :=
      exists_dfaRow (plain label (by simp)) (orders number) ((reached source).mpr before) taken
    obtain ⟨faithful, _, same, _⟩ := closures_spec machine orders
    have inside := (List.getElem?_eq_some_iff.mp there).1
    obtain ⟨_, there', lists⟩ := faithful.lists number _ (List.getElem?_eq_getElem (same ▸ inside))
    cases there.symm.trans there'
    obtain ⟨cell, target'⟩ := lists.known listed
    have step : cell ∈ (machine.dfa orders).fsm.step number (some label) :=
      ⟨⟨edgeType, cell⟩, mem_edgesOf_dfaOf.mpr ⟨closure, there, next, listed, target'⟩, carries, rfl⟩
    exact ⟨cell, reaches.concat step⟩

theorem exists_walk_of_dfa (plain : ∀ label ∈ word, label.Plain) (walk : Walk (machine.dfa orders).fsm.step 0 word number) :
    ∃ state, Walk machine.fsm.step machine.start word state := by
  induction word using List.reverseRecOn with
  | nil => exact ⟨machine.start, .nil⟩
  | append_singleton word label =>
    obtain ⟨source, before, target, ⟨edge, found, carries, rfl⟩, _⟩ := Walk.concat_iff.mp walk
    obtain ⟨closure, there, reached⟩ := mem_of_walk_dfa before fun label among => plain label (List.mem_append_left _ among)
    obtain ⟨closure', there', next, listed, _⟩ := mem_edgesOf_dfaOf.mp found
    cases there.symm.trans there'
    obtain ⟨state, among, target, taken⟩ := exists_taken_of_dfaRow (plain label (by simp)) listed carries
    exact ⟨target, ((reached state).mp among).concat taken⟩

theorem mem_language_dfa (plain : ∀ label ∈ word, label.Plain) :
    word ∈ (machine.dfa orders).language ↔ word ∈ machine.language := by
  rw [FsmWithStartEnd.mem_language_iff, FsmWithStartEnd.mem_language_iff]
  constructor
  · rintro ⟨number, accepting, walk⟩
    obtain ⟨closure, there, reached⟩ := mem_of_walk_dfa walk plain
    obtain ⟨closure', there', state, among, ends⟩ := isEndState_dfaOf.mp accepting
    cases there.symm.trans there'
    exact ⟨state, ends, (reached state).mp among⟩
  · rintro ⟨state, ends, walk⟩
    obtain ⟨number, reaches⟩ := exists_walk_dfa plain walk
    obtain ⟨closure, there, reached⟩ := mem_of_walk_dfa reaches plain
    exact ⟨number, isEndState_dfaOf.mpr ⟨closure, there, state, (reached state).mpr walk, ends⟩, reaches⟩

end DfaOf

end RuleFsm

end Metrale.Grammar
