import Metrale.Foundation.PartitionRefinement
import Metrale.Grammar.RuleFsm.Determinize
import Metrale.Grammar.RuleFsm.Rebuild

/-! # Minimisation (`fsm/dfa_ops.rs`)

The label of an edge is its whole range, so two states are kept apart already when they cut the bytes up differently. -/

namespace Metrale.Grammar

open Metrale.Foundation

namespace Fsm

/-- The edges into a state: what they read, and where they come from. -/
def precursors (fsm : Fsm) (target : Nat) : List (EdgeType × Nat) :=
  (List.range fsm.numStates).flatMap fun source =>
    ((fsm.edgesOf source).filter (·.target = target)).map fun edge => (edge.edgeType, source)

def possible (fsm : Fsm) (current : Finset Nat) : List (EdgeType × Nat) :=
  (current.sort (· ≤ ·)).flatMap fsm.precursors

def possibleLabels (fsm : Fsm) (current : Finset Nat) : Finset EdgeType := ((fsm.possible current).map Prod.fst).toFinset

def precs (fsm : Fsm) (label : EdgeType) (current : Finset Nat) : Finset Nat :=
  (((fsm.possible current).filter (·.1 = label)).map Prod.snd).toFinset

end Fsm

namespace FsmWithStartEnd

/-- The blocks that the loop of `minimize_dfa` ends with. -/
def stateClasses (machine : FsmWithStartEnd) (order : Nat → HashOrder EdgeType) : List (Finset Nat) :=
  let finalStates := (Finset.range machine.numStates).filter fun state => machine.isEndState state = true
  let nonFinal := (Finset.range machine.numStates).filter fun state => ¬ machine.isEndState state = true
  refine (fun round current => (order round).toList (machine.fsm.possibleLabels current)) machine.fsm.precs
    (machine.numStates + 2) ⟨[finalStates, nonFinal], [finalStates, nonFinal]⟩

end FsmWithStartEnd

def classMapping (numStates : Nat) (classes : List (Finset Nat)) : List Nat :=
  classes.zipIdx.foldl (fun mapping entry => (entry.1.sort (· ≤ ·)).foldl (fun mapping state => mapping.set state entry.2) mapping)
    (List.replicate numStates 0)

def FsmWithStartEnd.minimizeDfa (machine : FsmWithStartEnd) (rules : Nat → HashOrder Nat) (labels : Nat → HashOrder EdgeType)
    (maxNumStates : Nat) : Except String FsmWithStartEnd :=
  if machine.numStates > maxNumStates then .error "The number of states exceeds the limit."
  else do
    let nowFsm ← if machine.isDfa then pure machine else machine.toDfa rules maxNumStates
    let classes := nowFsm.stateClasses labels
    pure (nowFsm.rebuildWithMapping (classMapping nowFsm.numStates classes) classes.length)

/-! ## Where labels lead from -/

namespace RuleFsm

variable {machine : RuleFsm} {label : EdgeType} {current : Finset Nat} {state : Nat}

theorem mem_possible : (label, state) ∈ machine.fsm.possible current ↔
    ∃ edge ∈ machine.fsm.edgesOf state, edge.edgeType = label ∧ edge.target ∈ current := by
  simp only [Fsm.possible, Fsm.precursors, List.mem_flatMap, Finset.mem_sort, List.mem_range, List.mem_map, List.mem_filter,
    decide_eq_true_eq, Prod.mk.injEq]
  constructor
  · rintro ⟨target, among, source, _, edge, ⟨found, rfl⟩, rfl, rfl⟩
    exact ⟨edge, found, rfl, among⟩
  · rintro ⟨edge, found, rfl, among⟩
    exact ⟨edge.target, among, state, Fsm.lt_of_mem_edgesOf found, edge, ⟨found, rfl⟩, rfl, rfl⟩

theorem mem_precs : state ∈ machine.fsm.precs label current ↔
    ∃ edge ∈ machine.fsm.edgesOf state, edge.edgeType = label ∧ edge.target ∈ current := by
  rw [← mem_possible, Fsm.precs, List.mem_toFinset, List.mem_map]
  constructor
  · rintro ⟨⟨_, _⟩, found, rfl⟩
    obtain ⟨among, same⟩ := List.mem_filter.mp found
    cases of_decide_eq_true same
    exact among
  · intro among
    exact ⟨(label, state), List.mem_filter.mpr ⟨among, by simp⟩, rfl⟩

def OverBytesAndRules (machine : RuleFsm) : Prop :=
  ∀ state, ∀ edge ∈ machine.fsm.edgesOf state, edge.edgeType ≠ .eos ∧ ∀ auxIndex, edge.edgeType ≠ .repeatRef auxIndex

theorem target_unique (plain : machine.OverBytesAndRules) (deterministic : machine.fsm.Deterministic) {first second : FsmEdge}
    (found : first ∈ machine.fsm.edgesOf state) (foundSecond : second ∈ machine.fsm.edgesOf state)
    (same : first.edgeType = second.edgeType) : first = second := by
  obtain ⟨loud, unique⟩ := deterministic state first found
  obtain ⟨noEos, noRepeat⟩ := plain state first found
  cases shape : first.edgeType with
  | charRange min max =>
    obtain ⟨ordered, small⟩ := machine.wellFormed.rangeInBytes state first found min max shape
    have smallest : (UInt8.ofNat min).toNat = min := by
      rw [UInt8.toNat_ofNat']
      omega
    have reads : first.edgeType.Carries machine.fsm.edgeAuxData (some (.byte (UInt8.ofNat min))) := by
      rw [shape]
      exact .charRange (by omega) (by omega)
    exact unique second foundSecond (.byte (UInt8.ofNat min)) trivial reads (same ▸ reads)
  | epsilon => exact absurd shape loud
  | ruleRef ruleId =>
    have reads : first.edgeType.Carries machine.fsm.edgeAuxData (some (.rule ruleId)) := shape ▸ .ruleRef
    exact unique second foundSecond (.rule ruleId) trivial reads (same ▸ reads)
  | eos => exact absurd shape noEos
  | repeatRef auxIndex => exact absurd shape (noRepeat auxIndex)

theorem preimages_precs (plain : machine.OverBytesAndRules) (deterministic : machine.fsm.Deterministic) :
    Preimages machine.fsm.precs where
  empty label := by
    ext state
    simp [mem_precs]
  sdiff label first second := by
    ext state
    simp only [mem_precs, Finset.mem_sdiff]
    constructor
    · rintro ⟨edge, found, rfl, inside, outside⟩
      refine ⟨⟨edge, found, rfl, inside⟩, ?_⟩
      rintro ⟨other, foundOther, same, absurd⟩
      exact outside (target_unique plain deterministic foundOther found same ▸ absurd)
    · rintro ⟨⟨edge, found, rfl, inside⟩, outside⟩
      exact ⟨edge, found, rfl, inside, fun absurd => outside ⟨edge, found, rfl, absurd⟩⟩

theorem refined_stateClasses (plain : machine.OverBytesAndRules) (deterministic : machine.fsm.Deterministic)
    (labels : Nat → HashOrder EdgeType) :
    Refined machine.fsm.precs (Finset.range machine.numStates)
      ((Finset.range machine.numStates).filter fun state => machine.isEndState state = true) ∅ (fun _ => True)
      (machine.stateClasses labels) [] := by
  have complete : ∀ (round : Nat) (splitter : Finset Nat) (label : EdgeType),
      label ∈ (labels round).toList (machine.fsm.possibleLabels splitter) ∨ machine.fsm.precs label splitter = ∅ := by
    intro round splitter label
    by_cases nothing : machine.fsm.precs label splitter = ∅
    · exact .inr nothing
    · obtain ⟨state, inside⟩ := Finset.nonempty_iff_ne_empty.mpr nothing
      refine .inl (((labels round).mem_toList _ _).mpr ?_)
      exact List.mem_toFinset.mpr (List.mem_map.mpr ⟨(label, state), mem_possible.mpr (mem_precs.mp inside), rfl⟩)
  have refined := refined_refine (preimages_precs plain deterministic) complete
    (Finset.filter_subset (fun state => machine.isEndState state = true) (Finset.range machine.numStates))
    (show (Finset.range machine.numStates).card + 2 ≤ machine.numStates + 2 by simp)
  rw [← Finset.filter_not] at refined
  exact refined

/-! ## The numbers of the blocks -/

theorem getD_foldl_class (state : Nat) (states : List Nat) (mapping : List Nat) (number : Nat) :
    (states.foldl (fun mapping state => mapping.set state number) mapping).length = mapping.length ∧
    (states.foldl (fun mapping state => mapping.set state number) mapping).getD state 0 =
      if state ∈ states ∧ state < mapping.length then number else mapping.getD state 0 := by
  induction states generalizing mapping with
  | nil => simp
  | cons head states ih =>
    obtain ⟨length, value⟩ := ih (mapping.set head number)
    rw [List.foldl_cons]
    refine ⟨length.trans List.length_set, value.trans ?_⟩
    rw [List.length_set, getD_set]
    by_cases among : state ∈ states
    · by_cases inside : state < mapping.length
      · simp [among, inside]
      · simp only [inside, and_false, if_false, ite_eq_right_iff]
        rintro ⟨rfl, absurd⟩
        exact (inside absurd).elim
    · by_cases here : state = head
      · subst here
        simp [among]
      · simp [among, here]

theorem getD_foldl_classes (entries : List (Finset Nat × Nat)) (apart : entries.Pairwise fun one other => Disjoint one.1 other.1)
    (mapping : List Nat) (inside : state < mapping.length) :
    (∀ entry ∈ entries, state ∈ entry.1 → (entries.foldl (fun mapping entry =>
      (entry.1.sort (· ≤ ·)).foldl (fun mapping state => mapping.set state entry.2) mapping) mapping).getD state 0 = entry.2) ∧
    ((∀ entry ∈ entries, state ∉ entry.1) → (entries.foldl (fun mapping entry =>
      (entry.1.sort (· ≤ ·)).foldl (fun mapping state => mapping.set state entry.2) mapping) mapping).getD state 0 =
        mapping.getD state 0) := by
  induction entries generalizing mapping with
  | nil => simp
  | cons entry entries ih =>
    obtain ⟨first, rest⟩ := List.pairwise_cons.mp apart
    obtain ⟨length, value⟩ := getD_foldl_class state (entry.1.sort (· ≤ ·)) mapping entry.2
    obtain ⟨there, elsewhere⟩ := ih rest
      ((entry.1.sort (· ≤ ·)).foldl (fun mapping state => mapping.set state entry.2) mapping) (length.symm ▸ inside)
    rw [List.foldl_cons]
    constructor
    · intro other among member
      rcases List.mem_cons.mp among with rfl | later
      · rw [elsewhere fun later among absurd => Finset.disjoint_left.mp (first later among) member absurd, value,
          if_pos ⟨(Finset.mem_sort _).mpr member, inside⟩]
      · exact there other later member
    · intro nowhere
      rw [elsewhere fun later among => nowhere later (List.mem_cons_of_mem _ among), value, if_neg]
      exact fun absurd => nowhere entry List.mem_cons_self ((Finset.mem_sort _).mp absurd.1)

theorem getD_classMapping {classes : List (Finset Nat)} (apart : classes.Pairwise Disjoint) {count number : Nat} (inside : state < count)
    {block : Finset Nat} (there : classes[number]? = some block) (member : state ∈ block) :
    (classMapping count classes).getD state 0 = number := by
  have apart' : classes.zipIdx.Pairwise fun one other => Disjoint one.1 other.1 := by
    rw [← List.pairwise_map (f := Prod.fst) (R := Disjoint), List.zipIdx_map_fst]
    exact apart
  exact (getD_foldl_classes classes.zipIdx apart' (List.replicate count 0) (by simpa using inside)).1 (block, number)
    (List.mem_zipIdx_iff_getElem?.mpr there) member

/-! ## States of one block -/

def residual (machine : RuleFsm) (state : Nat) : Language Label :=
  {word | ∃ last, machine.isEndState last = true ∧ Walk machine.fsm.step state word last}

def minimizeMapping (machine : RuleFsm) (labels : Nat → HashOrder EdgeType) : List Nat :=
  classMapping machine.numStates (machine.stateClasses labels)

/-- Both states are there, and they are merged. -/
def Merged (machine : RuleFsm) (labels : Nat → HashOrder EdgeType) (one other : Nat) : Prop :=
  one < machine.numStates ∧ other < machine.numStates ∧
    (machine.minimizeMapping labels).getD one 0 = (machine.minimizeMapping labels).getD other 0

section Blocks

variable (plain : machine.OverBytesAndRules) (deterministic : machine.fsm.Deterministic) {labels : Nat → HashOrder EdgeType}
  {one other next last : Nat} {word : List Label}

include plain deterministic

theorem exists_block (labels : Nat → HashOrder EdgeType) (inside : state < machine.numStates) : ∃ block ∈ machine.stateClasses labels, state ∈ block ∧
    (machine.stateClasses labels)[(machine.minimizeMapping labels).getD state 0]? = some block := by
  have refined := refined_stateClasses plain deterministic labels
  obtain ⟨block, among, member⟩ := (refined.covered state).mp (Finset.mem_range.mpr inside)
  obtain ⟨number, there⟩ := List.getElem?_of_mem among
  refine ⟨block, among, member, ?_⟩
  rw [minimizeMapping, getD_classMapping refined.apart inside there member]
  exact there

theorem merged_iff : machine.Merged labels one other ↔ ∃ block ∈ machine.stateClasses labels, one ∈ block ∧ other ∈ block := by
  have refined := refined_stateClasses plain deterministic labels
  constructor
  · rintro ⟨insideOne, insideOther, same⟩
    obtain ⟨block, among, member, there⟩ := exists_block plain deterministic labels insideOne
    obtain ⟨block', _, member', there'⟩ := exists_block plain deterministic labels insideOther
    rw [← same] at there'
    cases there.symm.trans there'
    exact ⟨block, among, member, member'⟩
  · rintro ⟨block, among, memberOne, memberOther⟩
    have insideOne := Finset.mem_range.mp ((refined.covered one).mpr ⟨block, among, memberOne⟩)
    have insideOther := Finset.mem_range.mp ((refined.covered other).mpr ⟨block, among, memberOther⟩)
    obtain ⟨number, there⟩ := List.getElem?_of_mem among
    refine ⟨insideOne, insideOther, ?_⟩
    rw [minimizeMapping, getD_classMapping refined.apart insideOne there memberOne,
      getD_classMapping refined.apart insideOther there memberOther]

theorem Merged.accepting (merged : machine.Merged labels one other) (accepts : machine.isEndState one = true) :
    machine.isEndState other = true := by
  have refined := refined_stateClasses plain deterministic labels
  obtain ⟨block, among, memberOne, memberOther⟩ := (merged_iff plain deterministic).mp merged
  rcases refined.uniform block among with within | apart
  · exact (Finset.mem_filter.mp (within memberOther)).2
  · have outside := Finset.disjoint_left.mp apart memberOne
    rw [Finset.mem_filter, Finset.mem_range] at outside
    exact absurd ⟨merged.1, accepts⟩ outside

theorem Merged.follows {letter : Option Label} (merged : machine.Merged labels one other) (taken : next ∈ machine.fsm.step one letter) :
    ∃ otherNext, machine.Merged labels next otherNext ∧ otherNext ∈ machine.fsm.step other letter := by
  have refined := refined_stateClasses plain deterministic labels
  obtain ⟨block, among, memberOne, memberOther⟩ := (merged_iff plain deterministic).mp merged
  obtain ⟨edge, found, carries, rfl⟩ := taken
  obtain ⟨target, amongTarget, memberTarget⟩ :=
    (refined.covered edge.target).mp (Finset.mem_range.mpr (machine.wellFormed.targetInRange one edge found))
  have leads : one ∈ machine.fsm.precs edge.edgeType target := mem_precs.mpr ⟨edge, found, rfl, memberTarget⟩
  have stable := refined.stable_of_idle (preimages_precs plain deterministic) amongTarget block among edge.edgeType
  rcases stable with within | apart
  · obtain ⟨otherEdge, otherFound, same, otherTarget⟩ := mem_precs.mp (within memberOther)
    refine ⟨otherEdge.target, (merged_iff plain deterministic).mpr ⟨target, amongTarget, memberTarget, otherTarget⟩,
      otherEdge, otherFound, ?_, rfl⟩
    rw [same]
    exact carries
  · exact absurd leads (Finset.disjoint_left.mp apart memberOne)

theorem Merged.walk (merged : machine.Merged labels one other) (walk : Walk machine.fsm.step one word last) :
    ∃ otherLast, machine.Merged labels last otherLast ∧ Walk machine.fsm.step other word otherLast := by
  refine walk.followed (machine.Merged labels) (fun held taken => ?_) merged
  obtain ⟨otherNext, stays, step⟩ := held.follows plain deterministic taken
  exact ⟨otherNext, stays, .single step⟩

theorem Merged.residual_eq (merged : machine.Merged labels one other) : machine.residual one = machine.residual other := by
  have within : ∀ {one other word}, machine.Merged labels one other → word ∈ machine.residual one → word ∈ machine.residual other := by
    rintro one other word merged ⟨last, accepts, walk⟩
    obtain ⟨otherLast, ends, reads⟩ := merged.walk plain deterministic walk
    exact ⟨otherLast, ends.accepting plain deterministic accepts, reads⟩
  ext word
  exact ⟨within merged, within ⟨merged.2.1, merged.1, merged.2.2.symm⟩⟩

theorem renumbers_minimizeMapping :
    machine.Renumbers (machine.minimizeMapping labels) (machine.stateClasses labels).length := by
  intro state inside
  obtain ⟨block, _, _, there⟩ := exists_block plain deterministic labels inside
  exact (List.getElem?_eq_some_iff.mp there).1

/-- A walk of the minimised machine may jump within a block, and leads where a walk without jumps does. -/
theorem mem_language_minimized :
    word ∈ (machine.rebuildWithMapping (machine.minimizeMapping labels) (machine.stateClasses labels).length).language ↔
      word ∈ machine.language := by
  rw [mem_language_rebuild (renumbers_minimizeMapping plain deterministic), FsmWithStartEnd.mem_language_iff]
  constructor
  · rintro ⟨last, accepts, walk⟩
    have first : machine.start < machine.numStates ∧
      (machine.minimizeMapping labels).getD machine.start 0 = (machine.minimizeMapping labels).getD machine.start 0 :=
      ⟨machine.startInRange, rfl⟩
    obtain ⟨otherLast, ⟨inside, same⟩, reads⟩ := walk.followed
      (fun state image => image < machine.numStates ∧
        (machine.minimizeMapping labels).getD state 0 = (machine.minimizeMapping labels).getD image 0)
      (fun {state image letter next} held taken => by
        rcases taken with inner | ⟨rfl, jump⟩
        · have merged : machine.Merged labels state image := by
            obtain ⟨edge, found, _, _⟩ := inner
            exact ⟨Fsm.lt_of_mem_edgesOf found, held⟩
          obtain ⟨imageNext, stays, step⟩ := merged.follows plain deterministic inner
          exact ⟨imageNext, stays.2, .single step⟩
        · exact ⟨image, ⟨held.1, jump.symm.trans held.2⟩, .nil⟩) first
    have merged : machine.Merged labels last otherLast := ⟨machine.isEndState_lt accepts, inside, same⟩
    exact ⟨otherLast, merged.accepting plain deterministic accepts, reads⟩
  · rintro ⟨last, accepts, walk⟩
    exact ⟨last, accepts, walk.mono (fun _ => True) (fun _ taken => ⟨trivial, .inl taken⟩) trivial⟩

end Blocks

/-! ## Both operations -/

theorem plain_of_walk (plain : machine.OverBytesAndRules) {word : List Label} {last : Nat} (walk : Walk machine.fsm.step state word last) :
    ∀ label ∈ word, label.Plain := by
  induction walk with
  | nil => simp
  | silent _ _ ih => exact ih
  | @reads source next letter word last taken _ ih =>
    intro label among
    rcases List.mem_cons.mp among with rfl | rest
    · obtain ⟨edge, found, carries, _⟩ := taken
      obtain ⟨noEos, noRepeat⟩ := plain source edge found
      generalize edge.edgeType = edgeType at carries noEos noRepeat
      cases carries with
      | charRange | ruleRef => trivial
      | eos => exact absurd rfl noEos
      | repeatRef => exact absurd rfl (noRepeat _)
    · exact ih label rest

theorem OverBytesAndRules.dfa (plain : machine.OverBytesAndRules) (rules : Nat → HashOrder Nat) :
    (machine.dfa rules).OverBytesAndRules := by
  intro number edge found
  obtain ⟨closure, _, next, listed, _⟩ := mem_edgesOf_dfaOf.mp found
  rcases mem_dfaRow.mp listed with ⟨_, _, _, shape, _⟩ | ⟨_, _, shape, _⟩ | ⟨auxIndex, inRow, _, _⟩
  · rw [shape]
    simp
  · rw [shape]
    simp
  · obtain ⟨state, _, original, there, repeats⟩ := mem_edgeTypes.mp inRow
    exact absurd repeats ((plain state original there).2 auxIndex)

theorem language_dfa (plain : machine.OverBytesAndRules) (rules : Nat → HashOrder Nat) :
    (machine.dfa rules).language = machine.language := by
  ext word
  by_cases plainWord : ∀ label ∈ word, label.Plain
  · exact mem_language_dfa plainWord
  · rw [FsmWithStartEnd.mem_language_iff, FsmWithStartEnd.mem_language_iff]
    constructor
    · rintro ⟨_, _, walk⟩
      exact absurd (plain_of_walk (plain.dfa rules) walk) plainWord
    · rintro ⟨_, _, walk⟩
      exact absurd (plain_of_walk plain walk) plainWord

def nowFsm (machine : RuleFsm) (rules : Nat → HashOrder Nat) : RuleFsm := if machine.isDfa then machine else machine.dfa rules

theorem nowFsm_spec (plain : machine.OverBytesAndRules) (rules : Nat → HashOrder Nat) :
    (machine.nowFsm rules).OverBytesAndRules ∧ (machine.nowFsm rules).fsm.Deterministic ∧
      (machine.nowFsm rules).language = machine.language := by
  rw [nowFsm]
  split
  · next flag => exact ⟨plain, machine.flagged flag, rfl⟩
  · exact ⟨plain.dfa rules, deterministic_dfaOf, language_dfa plain rules⟩

theorem minimizeDfa_eq {limit : Nat} (below : machine.numStates ≤ limit) (rules : Nat → HashOrder Nat)
    (labels : Nat → HashOrder EdgeType) : machine.minimizeDfa rules labels limit =
      .ok ((machine.nowFsm rules).rebuildWithMapping ((machine.nowFsm rules).minimizeMapping labels)
        ((machine.nowFsm rules).stateClasses labels).length) := by
  rw [FsmWithStartEnd.minimizeDfa, if_neg (Nat.not_lt.mpr below), nowFsm]
  split
  · rfl
  · rw [FsmWithStartEnd.toDfa, if_neg (Nat.not_lt.mpr below)]
    rfl

theorem determinize_minimize (machine : RuleFsm) (plain : machine.OverBytesAndRules) {limit : Nat} (below : machine.numStates ≤ limit)
    (rules : Nat → HashOrder Nat) (labels : Nat → HashOrder EdgeType) :
    (∃ dfa : RuleFsm, machine.toDfa rules limit = .ok dfa.toFsmWithStartEnd ∧ dfa.fsm.Deterministic ∧
      dfa.language = machine.language) ∧
    ∃ minimal, machine.minimizeDfa rules labels limit = .ok minimal ∧ minimal.language = machine.language ∧
      ∃ mapping numClasses, minimal = (machine.nowFsm rules).rebuildWithMapping mapping numClasses ∧
        ∀ one other, one < (machine.nowFsm rules).numStates → other < (machine.nowFsm rules).numStates →
          mapping.getD one 0 = mapping.getD other 0 → (machine.nowFsm rules).residual one = (machine.nowFsm rules).residual other := by
  constructor
  · refine ⟨machine.dfa rules, ?_, deterministic_dfaOf, language_dfa plain rules⟩
    rw [FsmWithStartEnd.toDfa, if_neg (Nat.not_lt.mpr below)]
    rfl
  · obtain ⟨plainNow, deterministic, same⟩ := nowFsm_spec plain rules
    refine ⟨_, minimizeDfa_eq below rules labels, ?_, _, _, rfl, fun one other insideOne insideOther merged => ?_⟩
    · rw [← same]
      ext word
      exact mem_language_minimized plainNow deterministic
    · exact Merged.residual_eq plainNow deterministic ⟨insideOne, insideOther, merged⟩

/-- An `a` or a `b`, by two edges to two end states that nothing leaves. -/
def twinEnds : RuleFsm where
  fsm := ⟨[[⟨.charRange 97 97, 1⟩, ⟨.charRange 98 98, 2⟩], [], []], []⟩
  start := 0
  ends := [false, true, true]
  isDfa := false
  wellFormed := Fsm.wellFormed_of_isWellFormed (by decide)
  startInRange := by decide
  endsTotal := rfl
  flagged := by
    intro absurd
    cases absurd

theorem overBytesAndRules_twinEnds : twinEnds.OverBytesAndRules := by
  intro state edge found
  match state with
  | 0 =>
    rcases List.mem_cons.mp found with rfl | found
    · simp
    · cases List.mem_singleton.mp found
      simp
  | 1 => cases found
  | 2 => cases found
  | _ + 3 => cases found

theorem determinize_minimize_twinEnds :
    (∃ dfa : RuleFsm, twinEnds.toDfa (fun _ => .listed) 3 = .ok dfa.toFsmWithStartEnd ∧ dfa.fsm.Deterministic ∧
      dfa.language = twinEnds.language) ∧
    ∃ minimal, twinEnds.minimizeDfa (fun _ => .listed) (fun _ => .listed) 3 = .ok minimal ∧ minimal.language = twinEnds.language ∧
      ∃ mapping numClasses, minimal = (twinEnds.nowFsm fun _ => .listed).rebuildWithMapping mapping numClasses ∧
        ∀ one other, one < (twinEnds.nowFsm fun _ => .listed).numStates → other < (twinEnds.nowFsm fun _ => .listed).numStates →
          mapping.getD one 0 = mapping.getD other 0 →
            (twinEnds.nowFsm fun _ => .listed).residual one = (twinEnds.nowFsm fun _ => .listed).residual other :=
  determinize_minimize twinEnds overBytesAndRules_twinEnds (Nat.le_refl 3) _ _

end RuleFsm

end Metrale.Grammar
