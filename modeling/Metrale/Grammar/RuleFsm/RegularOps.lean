import Metrale.Grammar.RuleFsm.Machine

/-! # Regular operations (`fsm/fsm_ops.rs`)

The star has a start state of its own; the other operations keep the states of their operands, and link them with
silent edges. -/

namespace Metrale.Grammar

open Metrale.Foundation
open scoped Computability

namespace FsmWithStartEnd

def star (machine : FsmWithStartEnd) : FsmWithStartEnd :=
  let (fsm, newStart) := machine.fsm.addState
  let fsm := machine.endStates.foldl (fun fsm state => fsm.addEpsilonEdge state newStart) fsm
  let fsm := fsm.addEpsilonEdge newStart machine.start
  ⟨fsm, newStart, (List.replicate (machine.numStates + 1) false).set newStart true, false⟩

def plus (machine : FsmWithStartEnd) : FsmWithStartEnd :=
  let fsm := machine.endStates.foldl (fun fsm state => fsm.addEpsilonEdge state machine.start) machine.fsm
  ⟨fsm, machine.start, machine.ends, false⟩

def optional (machine : FsmWithStartEnd) : FsmWithStartEnd :=
  let fsm := match machine.endStates.head? with
    | some state => machine.fsm.addEpsilonEdge machine.start state
    | none => machine.fsm
  ⟨fsm, machine.start, machine.ends, false⟩

/-- A round of the loop in `union`, where `machine` holds what the loop has built. -/
def beside (machine sub : FsmWithStartEnd) : FsmWithStartEnd :=
  let (fsm, mapping) := machine.fsm.addFsm sub.fsm
  { machine with
    fsm := fsm.addEpsilonEdge machine.start (mapping.getD sub.start 0)
    ends := machine.ends ++ (List.range sub.numStates).map sub.isEndState }

def union (machines : List FsmWithStartEnd) : FsmWithStartEnd :=
  match machines with
  | [machine] => machine
  | _ => machines.foldl beside ⟨.withStates 1, 0, [false], false⟩

end FsmWithStartEnd

/-- What the loop in `concat` has built. -/
structure Chain where
  fsm : Fsm
  start : Nat
  ends : List Bool
  previousEnds : List Nat

def Chain.round (last : Nat) (chain : Chain) (entry : FsmWithStartEnd × Nat) : Chain :=
  let (sub, i) := entry
  let (fsm, mapping) := chain.fsm.addFsm sub.fsm
  let thisStart := mapping.getD sub.start 0
  let stops := sub.endStates.map (mapping.getD · 0)
  let (fsm, start) :=
    if i = 0 then (fsm, thisStart)
    else (chain.previousEnds.foldl (fun fsm state => fsm.addEpsilonEdge state thisStart) fsm, chain.start)
  if i = last then
    ⟨fsm, start, stops.foldl (fun ends state => ends.set state true) (List.replicate fsm.numStates false), chain.previousEnds⟩
  else ⟨fsm, start, chain.ends, stops⟩

def FsmWithStartEnd.concat (machines : List FsmWithStartEnd) : FsmWithStartEnd :=
  match machines with
  | [machine] => machine
  | _ =>
    let chain := machines.zipIdx.foldl (Chain.round (machines.length - 1)) ⟨.withStates 0, 0, [], []⟩
    ⟨chain.fsm, chain.start, chain.ends, false⟩

/-! ## Star and plus -/

namespace RuleFsm

variable {machine sub : RuleFsm} {state next : Nat} {label : Option Label} {word : List Label}

theorem mem_step_star : next ∈ machine.star.fsm.step state label ↔ next ∈ machine.fsm.step state label ∨
    label = none ∧ (machine.isEndState state = true ∧ next = machine.fsm.numStates ∨
      state = machine.fsm.numStates ∧ next = machine.start) := by
  simp only [FsmWithStartEnd.star, Fsm.mem_step_addEpsilonEdge, Fsm.mem_step_foldl_addEpsilonEdge, Fsm.step_addState,
    Fsm.numStates_foldl_addEpsilonEdge, Fsm.numStates_addState, mem_endStates, Fsm.addState_snd]
  constructor
  · rintro ((old | ⟨rfl, accepting, _, rfl⟩) | ⟨rfl, rfl, _, rfl⟩)
    · exact .inl old
    · exact .inr ⟨rfl, .inl ⟨accepting, rfl⟩⟩
    · exact .inr ⟨rfl, .inr ⟨rfl, rfl⟩⟩
  · rintro (old | ⟨rfl, ⟨accepting, rfl⟩ | ⟨rfl, rfl⟩⟩)
    · exact .inl (.inl old)
    · exact .inl (.inr ⟨rfl, accepting, Nat.lt_succ_of_lt (machine.isEndState_lt accepting), rfl⟩)
    · exact .inr ⟨rfl, rfl, Nat.lt_succ_self _, rfl⟩

theorem isEndState_star : machine.star.isEndState state = true ↔ state = machine.fsm.numStates := by
  simp only [FsmWithStartEnd.isEndState, FsmWithStartEnd.star, Fsm.addState_snd, FsmWithStartEnd.numStates,
    List.getD_eq_getElem?_getD, List.getElem?_set, List.length_replicate, List.getElem?_replicate]
  split
  · next same => simp [same]
  · next other =>
    constructor
    · intro accepting
      split at accepting <;> cases accepting
    · intro same
      exact absurd same.symm other

theorem not_walk_beyond : ¬ Walk machine.fsm.step machine.start word machine.fsm.numStates :=
  fun walk => Nat.lt_irrefl _ (machine.wellFormed.walk_lt walk machine.startInRange)

theorem mem_language_of_walk (walk : Walk machine.fsm.step machine.start word state)
    (accepting : machine.isEndState state = true) : word ∈ machine.language :=
  FsmWithStartEnd.mem_language_iff.mpr ⟨state, accepting, walk⟩

theorem star_language : machine.star.language = machine.language∗ := by
  ext word
  rw [FsmWithStartEnd.mem_language_iff]
  constructor
  · rintro ⟨last, accepting, walk⟩
    cases isEndState_star.mp accepting
    -- what was read is a finished part and a part still open
    have known := walk.invariant (fun word state => (state = machine.fsm.numStates ∧ word ∈ machine.language∗) ∨
      ∃ done ∈ machine.language∗, ∃ rest, done ++ rest = word ∧ Walk machine.fsm.step machine.start rest state)
      ?_ (.inl ⟨rfl, Language.nil_mem_kstar _⟩)
    · rcases known with ⟨_, starred⟩ | ⟨_, _, _, _, beyond⟩
      · exact starred
      · exact (not_walk_beyond beyond).elim
    · rintro word state letter next (⟨rfl, starred⟩ | ⟨done, starred, rest, rfl, open_⟩) taken
      · rcases mem_step_star.mp taken with old | ⟨rfl, ⟨accepting, _⟩ | ⟨_, rfl⟩⟩
        · rw [Fsm.step_eq_empty (Nat.le_refl _)] at old
          cases old
        · exact absurd (machine.isEndState_lt accepting) (Nat.lt_irrefl _)
        · exact .inr ⟨word, starred, [], rfl, .nil⟩
      · rcases mem_step_star.mp taken with old | ⟨rfl, ⟨accepting, rfl⟩ | ⟨rfl, _⟩⟩
        · exact .inr ⟨done, starred, _, (List.append_assoc ..).symm, open_.concat old⟩
        · rw [Option.toList_none, List.append_nil]
          exact .inl ⟨rfl, kstar_append starred (mem_language_of_walk open_ accepting)⟩
        · exact (not_walk_beyond open_).elim
  · intro starred
    refine ⟨machine.fsm.numStates, isEndState_star.mpr rfl, Walk.kstar (fun word accepted => ?_) starred⟩
    obtain ⟨last, accepting, walk⟩ := FsmWithStartEnd.mem_language_iff.mp accepted
    have whole := (Walk.single (mem_step_star.mpr (.inr ⟨rfl, .inr ⟨rfl, rfl⟩⟩))).append
      ((walk.map fun taken => mem_step_star.mpr (.inl taken)).append
        (Walk.single (mem_step_star.mpr (.inr ⟨rfl, .inl ⟨accepting, rfl⟩⟩))))
    simpa [FsmWithStartEnd.star] using whole

theorem mem_step_plus : next ∈ machine.plus.fsm.step state label ↔ next ∈ machine.fsm.step state label ∨
    label = none ∧ machine.isEndState state = true ∧ next = machine.start := by
  simp only [FsmWithStartEnd.plus, Fsm.mem_step_foldl_addEpsilonEdge, mem_endStates]
  constructor
  · rintro (old | ⟨rfl, accepting, _, rfl⟩)
    · exact .inl old
    · exact .inr ⟨rfl, accepting, rfl⟩
  · rintro (old | ⟨rfl, accepting, rfl⟩)
    · exact .inl old
    · exact .inr ⟨rfl, accepting, machine.isEndState_lt accepting, rfl⟩

theorem plus_language : machine.plus.language = machine.language * machine.language∗ := by
  rw [← Language.mul_self_kstar_comm]
  ext word
  rw [FsmWithStartEnd.mem_language_iff]
  constructor
  · rintro ⟨last, accepting, walk⟩
    have known := walk.invariant (fun word state =>
      ∃ done ∈ machine.language∗, ∃ rest, done ++ rest = word ∧ Walk machine.fsm.step machine.start rest state)
      ?_ ⟨[], Language.nil_mem_kstar _, [], rfl, .nil⟩
    · obtain ⟨done, starred, rest, rfl, open_⟩ := known
      exact ⟨done, starred, rest, mem_language_of_walk open_ accepting, rfl⟩
    · rintro word state letter next ⟨done, starred, rest, rfl, open_⟩ taken
      rcases mem_step_plus.mp taken with old | ⟨rfl, accepting, rfl⟩
      · exact ⟨done, starred, _, (List.append_assoc ..).symm, open_.concat old⟩
      · exact ⟨done ++ rest, kstar_append starred (mem_language_of_walk open_ accepting), [], by simp, .nil⟩
  · rintro ⟨done, starred, rest, accepted, rfl⟩
    have kept : ∀ {word first last}, Walk machine.fsm.step first word last → Walk machine.plus.fsm.step first word last :=
      fun walk => walk.map fun taken => mem_step_plus.mpr (.inl taken)
    obtain ⟨last, accepting, walk⟩ := FsmWithStartEnd.mem_language_iff.mp accepted
    refine ⟨last, accepting, (Walk.kstar (fun word accepted => ?_) starred).append (kept walk)⟩
    obtain ⟨last, accepting, walk⟩ := FsmWithStartEnd.mem_language_iff.mp accepted
    simpa [FsmWithStartEnd.plus] using (kept walk).append (Walk.single (mem_step_plus.mpr (.inr ⟨rfl, accepting, rfl⟩)))

/-! ## Optional -/

/-- Whatever leads from the start back to it, or from the first end state to the start or to an end state, is empty or
accepted. -/
def SkipsSafely (machine : RuleFsm) : Prop :=
  ∃ first, machine.endStates.head? = some first ∧ ∀ word : List Label,
    (Walk machine.fsm.step machine.start word machine.start ∨ Walk machine.fsm.step first word machine.start ∨
      ∃ last, machine.isEndState last = true ∧ Walk machine.fsm.step first word last) →
    word = [] ∨ word ∈ machine.language

theorem mem_step_optional {first : Nat} (head : machine.endStates.head? = some first) :
    next ∈ machine.optional.fsm.step state label ↔ next ∈ machine.fsm.step state label ∨
      label = none ∧ state = machine.start ∧ next = first := by
  simp only [FsmWithStartEnd.optional, head, Fsm.mem_step_addEpsilonEdge]
  constructor
  · rintro (old | ⟨rfl, rfl, _, rfl⟩)
    · exact .inl old
    · exact .inr ⟨rfl, rfl, rfl⟩
  · rintro (old | ⟨rfl, rfl, rfl⟩)
    · exact .inl old
    · exact .inr ⟨rfl, rfl, machine.startInRange, rfl⟩

theorem mem_one_add_iff {language : Language Label} : word ∈ 1 + language ↔ word = [] ∨ word ∈ language := by
  rw [Language.mem_add, Language.mem_one]

theorem mem_of_mem_optional (safe : machine.SkipsSafely) (accepted : word ∈ machine.optional.language) :
    word ∈ 1 + machine.language := by
  obtain ⟨first, head, safe⟩ := safe
  obtain ⟨last, accepting, walk⟩ := FsmWithStartEnd.mem_language_iff.mp accepted
  -- what was done before the last jump leaves an accepted word accepted
  have known := walk.invariant (fun word state => Walk machine.fsm.step machine.start word state ∨
    ∃ done rest, done ++ rest = word ∧ Walk machine.fsm.step first rest state ∧
      ∀ more, more = [] ∨ more ∈ machine.language → done ++ more = [] ∨ done ++ more ∈ machine.language)
    ?_ (.inl .nil)
  · rw [mem_one_add_iff]
    rcases known with plain | ⟨done, rest, rfl, jumped, kept⟩
    · exact .inr (mem_language_of_walk plain accepting)
    · exact kept rest (safe rest (.inr (.inr ⟨last, accepting, jumped⟩)))
  · rintro word state letter next held taken
    rcases (mem_step_optional head).mp taken with old | ⟨rfl, rfl, rfl⟩
    · rcases held with plain | ⟨done, rest, rfl, jumped, kept⟩
      · exact .inl (plain.concat old)
      · exact .inr ⟨done, _, (List.append_assoc ..).symm, jumped.concat old, kept⟩
    · rw [Option.toList_none, List.append_nil]
      refine .inr ⟨word, [], by simp, .nil, ?_⟩
      rcases held with plain | ⟨done, rest, rfl, jumped, kept⟩
      · rintro more (rfl | accepted)
        · rw [List.append_nil]
          exact safe word (.inl plain)
        · obtain ⟨last, accepting, walk⟩ := FsmWithStartEnd.mem_language_iff.mp accepted
          exact .inr (mem_language_of_walk (plain.append walk) accepting)
      · rintro more (rfl | accepted)
        · rw [List.append_nil]
          exact kept rest (safe rest (.inr (.inl jumped)))
        · obtain ⟨last, accepting, walk⟩ := FsmWithStartEnd.mem_language_iff.mp accepted
          rw [List.append_assoc]
          exact kept _ (safe _ (.inr (.inr ⟨last, accepting, jumped.append walk⟩)))

theorem optional_language_iff : machine.optional.language = 1 + machine.language ↔ machine.SkipsSafely := by
  cases head : machine.endStates.head? with
  | none =>
    have nowhere : ∀ state, machine.isEndState state ≠ true := by
      intro state accepting
      have found := machine.mem_endStates.mpr accepting
      rw [List.head?_eq_none_iff.mp head] at found
      cases found
    constructor
    · intro same
      have empty : [] ∈ machine.optional.language := by
        rw [same, mem_one_add_iff]
        exact .inl rfl
      obtain ⟨last, accepting, _⟩ := FsmWithStartEnd.mem_language_iff.mp empty
      exact absurd accepting (nowhere last)
    · rintro ⟨first, found, _⟩
      rw [head] at found
      cases found
  | some first =>
    have accepting := machine.mem_endStates.mp (List.mem_of_mem_head? head)
    have old : ∀ {word first last}, Walk machine.fsm.step first word last → Walk machine.optional.fsm.step first word last :=
      fun walk => walk.map fun taken => (mem_step_optional head).mpr (.inl taken)
    have jump : Walk machine.optional.fsm.step machine.start [] first :=
      Walk.single ((mem_step_optional head).mpr (.inr ⟨rfl, rfl, rfl⟩))
    constructor
    · intro same
      refine ⟨first, head, fun word leads => ?_⟩
      rw [← mem_one_add_iff, ← same, FsmWithStartEnd.mem_language_iff]
      rcases leads with plain | back | ⟨last, ends, walk⟩
      · exact ⟨first, accepting, by simpa [FsmWithStartEnd.optional] using (old plain).append jump⟩
      · exact ⟨first, accepting, by simpa [FsmWithStartEnd.optional] using jump.append ((old back).append jump)⟩
      · exact ⟨last, ends, jump.append (old walk)⟩
    · intro safe
      ext word
      constructor
      · exact mem_of_mem_optional safe
      · intro either
        rw [FsmWithStartEnd.mem_language_iff]
        rcases mem_one_add_iff.mp either with rfl | accepted
        · exact ⟨first, accepting, jump⟩
        · obtain ⟨last, ends, walk⟩ := FsmWithStartEnd.mem_language_iff.mp accepted
          exact ⟨last, ends, old walk⟩

/-! ## Union -/

theorem getD_addFsm_start (fsm : Fsm) : (fsm.addFsm sub.fsm).2.getD sub.start 0 = sub.start + fsm.numStates :=
  Fsm.getD_addFsm_snd sub.startInRange

theorem mem_step_beside_left {machine : FsmWithStartEnd} (formed : machine.fsm.WellFormed) (inside : state < machine.fsm.numStates) :
    next ∈ (machine.beside sub.toFsmWithStartEnd).fsm.step state label ↔ next ∈ machine.fsm.step state label ∨
      label = none ∧ state = machine.start ∧ next = sub.start + machine.fsm.numStates := by
  simp only [FsmWithStartEnd.beside, getD_addFsm_start, Fsm.mem_step_addEpsilonEdge, formed.mem_step_addFsm_left inside,
    Fsm.numStates_addFsm]
  constructor
  · rintro (old | ⟨rfl, rfl, _, rfl⟩)
    · exact .inl old
    · exact .inr ⟨rfl, rfl, rfl⟩
  · rintro (old | ⟨rfl, rfl, rfl⟩)
    · exact .inl old
    · exact .inr ⟨rfl, rfl, Nat.lt_add_right _ inside, rfl⟩

theorem mem_step_beside_right {machine : FsmWithStartEnd} (inside : machine.start < machine.fsm.numStates)
    (fits : machine.fsm.edgeAuxData.length + sub.fsm.edgeAuxData.length ≤ 32768) :
    next ∈ (machine.beside sub.toFsmWithStartEnd).fsm.step (state + machine.fsm.numStates) label ↔
      ∃ inner, inner + machine.fsm.numStates = next ∧ inner ∈ sub.fsm.step state label := by
  simp only [FsmWithStartEnd.beside, getD_addFsm_start, Fsm.mem_step_addEpsilonEdge,
    sub.wellFormed.mem_step_addFsm_right fits]
  constructor
  · rintro (old | ⟨_, same, _⟩)
    · exact old
    · omega
  · exact .inl

/-- What the loop in `union` has built of the operands before. -/
structure Gathered (machine : FsmWithStartEnd) (subs : List RuleFsm) : Prop where
  formed : machine.fsm.WellFormed
  startInRange : machine.start < machine.fsm.numStates
  endsTotal : machine.ends.length = machine.fsm.numStates
  fresh : ∀ state label, machine.start ∉ machine.fsm.step state label
  auxTotal : machine.fsm.edgeAuxData.length = (subs.map (·.fsm.edgeAuxData.length)).sum
  accepts : machine.language = (subs.map (·.language)).sum

theorem isEndState_beside_left {machine : FsmWithStartEnd} (endsTotal : machine.ends.length = machine.fsm.numStates)
    (inside : state < machine.fsm.numStates) :
    (machine.beside sub.toFsmWithStartEnd).isEndState state = machine.isEndState state :=
  List.getD_append _ _ _ _ (endsTotal ▸ inside)

theorem isEndState_beside_right {machine : FsmWithStartEnd} (endsTotal : machine.ends.length = machine.fsm.numStates) :
    (machine.beside sub.toFsmWithStartEnd).isEndState (state + machine.fsm.numStates) = sub.isEndState state := by
  simp only [FsmWithStartEnd.isEndState, FsmWithStartEnd.beside]
  rw [List.getD_append_right _ _ _ _ (by omega), endsTotal, Nat.add_sub_cancel]
  rcases Nat.lt_or_ge state sub.fsm.numStates with inside | beyond
  · simp [List.getD_eq_getElem?_getD, FsmWithStartEnd.numStates, FsmWithStartEnd.isEndState, inside]
  · have short := sub.endsTotal
    simp [List.getD_eq_getElem?_getD, FsmWithStartEnd.numStates, beyond, short]

theorem Gathered.beside_language {machine : FsmWithStartEnd} {subs : List RuleFsm} (gathered : Gathered machine subs)
    (fits : machine.fsm.edgeAuxData.length + sub.fsm.edgeAuxData.length ≤ 32768) :
    (machine.beside sub.toFsmWithStartEnd).language = machine.language + sub.language := by
  have inner : ∀ {state word last}, Walk (machine.beside sub.toFsmWithStartEnd).fsm.step (state + machine.fsm.numStates) word last ↔
      ∃ there, there + machine.fsm.numStates = last ∧ Walk sub.fsm.step state word there :=
    Walk.embedded_iff (mem_step_beside_right gathered.startInRange fits)
  ext word
  rw [Language.mem_add, FsmWithStartEnd.mem_language_iff, FsmWithStartEnd.mem_language_iff, FsmWithStartEnd.mem_language_iff]
  constructor
  · rintro ⟨last, accepting, walk⟩
    have known := walk.invariant (fun word state => Walk machine.fsm.step machine.start word state ∨
      ∃ there, there + machine.fsm.numStates = state ∧ Walk sub.fsm.step sub.start word there) ?_ (.inl .nil)
    · rcases known with left | ⟨there, rfl, right⟩
      · have inside := gathered.formed.walk_lt left gathered.startInRange
        exact .inl ⟨last, isEndState_beside_left gathered.endsTotal inside ▸ accepting, left⟩
      · exact .inr ⟨there, isEndState_beside_right gathered.endsTotal ▸ accepting, right⟩
    · rintro word state letter next (left | ⟨there, rfl, right⟩) taken
      · have inside := gathered.formed.walk_lt left gathered.startInRange
        rcases (mem_step_beside_left gathered.formed inside).mp taken with old | ⟨rfl, rfl, rfl⟩
        · exact .inl (left.concat old)
        · obtain ⟨_, rfl⟩ := left.eq_of_never_entered gathered.fresh
          exact .inr ⟨sub.start, rfl, .nil⟩
      · obtain ⟨after, rfl, within⟩ := (mem_step_beside_right gathered.startInRange fits).mp taken
        exact .inr ⟨after, rfl, right.concat within⟩
  · rintro (⟨last, accepting, walk⟩ | ⟨last, accepting, walk⟩)
    · have inside := gathered.formed.walk_lt walk gathered.startInRange
      refine ⟨last, isEndState_beside_left gathered.endsTotal inside ▸ accepting,
        walk.mono (· < machine.fsm.numStates) (fun here taken => ?_) gathered.startInRange⟩
      exact ⟨gathered.formed.step_lt taken, (mem_step_beside_left gathered.formed here).mpr (.inl taken)⟩
    · refine ⟨last + machine.fsm.numStates, isEndState_beside_right gathered.endsTotal ▸ accepting, .silent ?_
        (inner.mpr ⟨last, rfl, walk⟩)⟩
      exact (mem_step_beside_left gathered.formed gathered.startInRange).mpr (.inr ⟨rfl, rfl, rfl⟩)

theorem Gathered.beside {machine : FsmWithStartEnd} {subs : List RuleFsm} (gathered : Gathered machine subs)
    (fits : machine.fsm.edgeAuxData.length + sub.fsm.edgeAuxData.length ≤ 32768) :
    Gathered (machine.beside sub.toFsmWithStartEnd) (subs ++ [sub]) := by
  have numStates : (machine.beside sub.toFsmWithStartEnd).fsm.numStates = machine.fsm.numStates + sub.fsm.numStates := by
    simp only [FsmWithStartEnd.beside, Fsm.addEpsilonEdge, Fsm.numStates_addEdge, Fsm.numStates_addFsm]
  constructor
  · simp only [FsmWithStartEnd.beside, getD_addFsm_start]
    apply (gathered.formed.addFsm sub.wellFormed fits).addEpsilonEdge
    have := sub.startInRange
    rw [Fsm.numStates_addFsm]
    omega
  · exact numStates ▸ Nat.lt_add_right _ gathered.startInRange
  · rw [numStates]
    simp [FsmWithStartEnd.beside, gathered.endsTotal, FsmWithStartEnd.numStates]
  · intro state label entered
    rcases Nat.lt_or_ge state machine.fsm.numStates with inside | beyond
    · rcases (mem_step_beside_left gathered.formed inside).mp entered with old | ⟨_, _, same⟩
      · exact gathered.fresh state label old
      · have := gathered.startInRange
        simp only [FsmWithStartEnd.beside] at same
        omega
    · rw [← Nat.sub_add_cancel beyond] at entered
      obtain ⟨_, same, _⟩ := (mem_step_beside_right gathered.startInRange fits).mp entered
      have := gathered.startInRange
      simp only [FsmWithStartEnd.beside] at same
      omega
  · simp [FsmWithStartEnd.beside, Fsm.addEpsilonEdge, Fsm.addEdge, Fsm.addFsm, gathered.auxTotal]
  · rw [gathered.beside_language fits, gathered.accepts]
    simp

def AuxFits (machines : List RuleFsm) : Prop :=
  (machines.map (·.fsm.edgeAuxData.length)).sum ≤ 32768

theorem Gathered.foldl {machine : FsmWithStartEnd} {subs : List RuleFsm} (gathered : Gathered machine subs)
    (rest : List RuleFsm) (fits : AuxFits (subs ++ rest)) :
    Gathered ((rest.map toFsmWithStartEnd).foldl FsmWithStartEnd.beside machine) (subs ++ rest) := by
  induction rest generalizing machine subs with
  | nil => simpa using gathered
  | cons sub rest ih =>
    have short : machine.fsm.edgeAuxData.length + sub.fsm.edgeAuxData.length ≤ 32768 := by
      simp only [AuxFits, List.map_append, List.map_cons, List.sum_append, List.sum_cons] at fits
      have := gathered.auxTotal
      omega
    have whole := ih (gathered.beside short)
    simp only [List.append_assoc, List.singleton_append] at whole
    exact whole fits

theorem gathered_nil : Gathered ⟨.withStates 1, 0, [false], false⟩ [] := by
  constructor
  · exact Fsm.wellFormed_withStates 1
  · exact Nat.one_pos
  · rfl
  · rintro state label ⟨edge, found, _⟩
    simp at found
  · rfl
  · ext word
    rw [FsmWithStartEnd.mem_language_iff]
    constructor
    · rintro ⟨last, accepting, _⟩
      cases last <;> cases accepting
    · intro absurd
      cases absurd

theorem union_language {machines : List RuleFsm} (fits : AuxFits machines) :
    (FsmWithStartEnd.union (machines.map toFsmWithStartEnd)).language = (machines.map (·.language)).sum := by
  match machines with
  | [machine] => simp [FsmWithStartEnd.union]
  | [] => exact (gathered_nil.foldl [] fits).accepts
  | _ :: _ :: _ => exact (gathered_nil.foldl _ fits).accepts

/-! ## Concatenation -/

def leading (fsm : Fsm) (start : Nat) (stops : List Nat) : Language Label :=
  {word | ∃ last ∈ stops, Walk fsm.step start word last}

def linked (fsm : Fsm) (stops : List Nat) (sub : RuleFsm) : Fsm :=
  stops.foldl (fun fsm' state => fsm'.addEpsilonEdge state (sub.start + fsm.numStates)) (fsm.addFsm sub.fsm).1

section Linked

variable {fsm : Fsm} {start : Nat} {stops : List Nat}

theorem mem_step_linked_left (formed : fsm.WellFormed) (inside : state < fsm.numStates) :
    next ∈ (linked fsm stops sub).step state label ↔
      next ∈ fsm.step state label ∨ label = none ∧ state ∈ stops ∧ next = sub.start + fsm.numStates := by
  simp only [linked, Fsm.mem_step_foldl_addEpsilonEdge, formed.mem_step_addFsm_left inside, Fsm.numStates_addFsm]
  constructor
  · rintro (old | ⟨silent, among, _, same⟩)
    · exact .inl old
    · exact .inr ⟨silent, among, same⟩
  · rintro (old | ⟨silent, among, same⟩)
    · exact .inl old
    · exact .inr ⟨silent, among, Nat.lt_add_right _ inside, same⟩

theorem mem_step_linked_right (inside : ∀ state ∈ stops, state < fsm.numStates)
    (fits : fsm.edgeAuxData.length + sub.fsm.edgeAuxData.length ≤ 32768) :
    next ∈ (linked fsm stops sub).step (state + fsm.numStates) label ↔
      ∃ inner, inner + fsm.numStates = next ∧ inner ∈ sub.fsm.step state label := by
  simp only [linked, Fsm.mem_step_foldl_addEpsilonEdge, sub.wellFormed.mem_step_addFsm_right fits]
  constructor
  · rintro (old | ⟨_, among, _⟩)
    · exact old
    · have := inside _ among
      omega
  · exact .inl

theorem leading_linked (formed : fsm.WellFormed) (startInRange : start < fsm.numStates)
    (inside : ∀ state ∈ stops, state < fsm.numStates)
    (fits : fsm.edgeAuxData.length + sub.fsm.edgeAuxData.length ≤ 32768) :
    leading (linked fsm stops sub) start (sub.endStates.map (· + fsm.numStates)) = leading fsm start stops * sub.language := by
  have inner : ∀ {state word last}, Walk (linked fsm stops sub).step (state + fsm.numStates) word last ↔
      ∃ there, there + fsm.numStates = last ∧ Walk sub.fsm.step state word there :=
    Walk.embedded_iff (mem_step_linked_right inside fits)
  ext word
  constructor
  · rintro ⟨last, among, walk⟩
    obtain ⟨stop, accepting, rfl⟩ := List.mem_map.mp among
    have known := walk.invariant (fun word state => Walk fsm.step start word state ∨
      ∃ before ∈ leading fsm start stops, ∃ after there, before ++ after = word ∧ there + fsm.numStates = state ∧
        Walk sub.fsm.step sub.start after there) ?_ (.inl .nil)
    · rcases known with left | ⟨before, led, after, there, rfl, same, right⟩
      · have := formed.walk_lt left startInRange
        omega
      · cases Nat.add_right_cancel same
        exact ⟨before, led, after, mem_language_of_walk right (sub.mem_endStates.mp accepting), rfl⟩
    · rintro word state letter next (left | ⟨before, led, after, there, rfl, rfl, right⟩) taken
      · rcases (mem_step_linked_left formed (formed.walk_lt left startInRange)).mp taken with old | ⟨rfl, among, rfl⟩
        · exact .inl (left.concat old)
        · exact .inr ⟨word, ⟨state, among, left⟩, [], sub.start, by simp, rfl, .nil⟩
      · obtain ⟨further, rfl, within⟩ := (mem_step_linked_right inside fits).mp taken
        exact .inr ⟨before, led, _, further, (List.append_assoc ..).symm, rfl, right.concat within⟩
  · rintro ⟨before, ⟨stop, among, left⟩, after, accepted, rfl⟩
    obtain ⟨last, accepting, right⟩ := FsmWithStartEnd.mem_language_iff.mp accepted
    refine ⟨last + fsm.numStates, List.mem_map_of_mem (sub.mem_endStates.mpr accepting), ?_⟩
    have first : Walk (linked fsm stops sub).step start before stop :=
      left.mono (· < fsm.numStates) (fun here taken =>
        ⟨formed.step_lt taken, (mem_step_linked_left formed here).mpr (.inl taken)⟩) startInRange
    have jump : sub.start + fsm.numStates ∈ (linked fsm stops sub).step stop none :=
      (mem_step_linked_left formed (inside stop among)).mpr (.inr ⟨rfl, among, rfl⟩)
    exact first.append (.silent jump (inner.mpr ⟨last, rfl, right⟩))

end Linked

/-- What the loop in `concat` has built of the operands before the last. -/
structure Chained (chain : Chain) (subs : List RuleFsm) : Prop where
  formed : chain.fsm.WellFormed
  startInRange : chain.start < chain.fsm.numStates
  stopsInRange : ∀ state ∈ chain.previousEnds, state < chain.fsm.numStates
  auxTotal : chain.fsm.edgeAuxData.length = (subs.map (·.fsm.edgeAuxData.length)).sum
  leads : leading chain.fsm chain.start chain.previousEnds = (subs.map (·.language)).prod

theorem map_getD_endStates (fsm : Fsm) :
    sub.endStates.map ((fsm.addFsm sub.fsm).2.getD · 0) = sub.endStates.map (· + fsm.numStates) :=
  List.map_congr_left fun _ found => Fsm.getD_addFsm_snd (sub.isEndState_lt (sub.mem_endStates.mp found))

theorem endState_inside (fsm : Fsm) {stop : Nat} (found : stop ∈ sub.endStates.map (· + fsm.numStates)) :
    stop < fsm.numStates + sub.fsm.numStates := by
  obtain ⟨inner, accepting, rfl⟩ := List.mem_map.mp found
  have := sub.isEndState_lt (sub.mem_endStates.mp accepting)
  omega

section Round

variable {chain : Chain} {subs : List RuleFsm} {last i : Nat}

theorem numStates_linked (fsm : Fsm) (stops : List Nat) : (linked fsm stops sub).numStates = fsm.numStates + sub.fsm.numStates := by
  rw [linked, Fsm.numStates_foldl_addEpsilonEdge, Fsm.numStates_addFsm]

theorem length_edgeAuxData_linked (fsm : Fsm) (stops : List Nat) :
    (linked fsm stops sub).edgeAuxData.length = fsm.edgeAuxData.length + sub.fsm.edgeAuxData.length := by
  rw [linked, Fsm.edgeAuxData_foldl_addEpsilonEdge]
  exact List.length_append

theorem leading_addFsm {fsm : Fsm} (fits : fsm.edgeAuxData.length + sub.fsm.edgeAuxData.length ≤ 32768) :
    leading (fsm.addFsm sub.fsm).1 (sub.start + fsm.numStates) (sub.endStates.map (· + fsm.numStates)) = sub.language := by
  ext word
  rw [FsmWithStartEnd.mem_language_iff]
  constructor
  · rintro ⟨_, among, walk⟩
    obtain ⟨stop, accepting, rfl⟩ := List.mem_map.mp among
    obtain ⟨there, same, inner⟩ := (Walk.embedded_iff (sub.wellFormed.mem_step_addFsm_right fits)).mp walk
    cases Nat.add_right_cancel same
    exact ⟨_, sub.mem_endStates.mp accepting, inner⟩
  · rintro ⟨stop, accepting, walk⟩
    exact ⟨_, List.mem_map_of_mem (sub.mem_endStates.mpr accepting),
      (Walk.embedded_iff (sub.wellFormed.mem_step_addFsm_right fits)).mpr ⟨stop, rfl, walk⟩⟩

theorem round_first (more : last ≠ 0) :
    Chained (Chain.round last ⟨.withStates 0, 0, [], []⟩ (machine.toFsmWithStartEnd, 0)) [machine] := by
  have fits : (Fsm.withStates 0).edgeAuxData.length + machine.fsm.edgeAuxData.length ≤ 32768 :=
    (Nat.zero_add _).symm ▸ machine.wellFormed.auxShort
  have numStates : ((Fsm.withStates 0).addFsm machine.fsm).1.numStates = machine.fsm.numStates := by
    rw [Fsm.numStates_addFsm]
    exact Nat.zero_add _
  have same : Chain.round last ⟨.withStates 0, 0, [], []⟩ (machine.toFsmWithStartEnd, 0) =
      ⟨((Fsm.withStates 0).addFsm machine.fsm).1, machine.start + (Fsm.withStates 0).numStates, [],
        machine.endStates.map (· + (Fsm.withStates 0).numStates)⟩ := by
    simp only [Chain.round, if_true, Ne.symm more, if_false, map_getD_endStates, getD_addFsm_start]
  rw [same]
  constructor
  · exact (Fsm.wellFormed_withStates 0).addFsm machine.wellFormed fits
  · exact numStates ▸ machine.startInRange
  · intro state among
    have := endState_inside _ among
    rw [numStates]
    exact Nat.lt_of_lt_of_eq this (Nat.zero_add _)
  · simp [Fsm.addFsm, Fsm.withStates]
  · rw [leading_addFsm fits, List.map_singleton, List.prod_singleton]

theorem Chained.round_between (chained : Chained chain subs) (later : i ≠ 0) (between : i ≠ last)
    (fits : chain.fsm.edgeAuxData.length + sub.fsm.edgeAuxData.length ≤ 32768) :
    Chained (chain.round last (sub.toFsmWithStartEnd, i)) (subs ++ [sub]) := by
  have same : chain.round last (sub.toFsmWithStartEnd, i) =
      ⟨linked chain.fsm chain.previousEnds sub, chain.start, chain.ends, sub.endStates.map (· + chain.fsm.numStates)⟩ := by
    simp only [Chain.round, later, between, if_false, map_getD_endStates, getD_addFsm_start]
    rfl
  rw [same]
  constructor
  · apply (chained.formed.addFsm sub.wellFormed fits).foldl_addEpsilonEdge
    have := sub.startInRange
    rw [Fsm.numStates_addFsm]
    omega
  · rw [numStates_linked]
    exact Nat.lt_add_right _ chained.startInRange
  · intro state among
    rw [numStates_linked]
    exact endState_inside _ among
  · rw [length_edgeAuxData_linked, chained.auxTotal]
    simp
  · rw [leading_linked chained.formed chained.startInRange chained.stopsInRange fits, chained.leads]
    simp

theorem Chained.round_last (chained : Chained chain subs) (later : last ≠ 0)
    (fits : chain.fsm.edgeAuxData.length + sub.fsm.edgeAuxData.length ≤ 32768) :
    (⟨(chain.round last (sub.toFsmWithStartEnd, last)).fsm, (chain.round last (sub.toFsmWithStartEnd, last)).start,
      (chain.round last (sub.toFsmWithStartEnd, last)).ends, false⟩ : FsmWithStartEnd).language =
      ((subs ++ [sub]).map (·.language)).prod := by
  have same : chain.round last (sub.toFsmWithStartEnd, last) =
      ⟨linked chain.fsm chain.previousEnds sub, chain.start,
        (sub.endStates.map (· + chain.fsm.numStates)).foldl (fun ends state => ends.set state true)
          (List.replicate (linked chain.fsm chain.previousEnds sub).numStates false), chain.previousEnds⟩ := by
    simp only [Chain.round, later, if_true, if_false, map_getD_endStates, getD_addFsm_start]
    rfl
  rw [same, List.map_append, List.prod_append, ← chained.leads, List.map_singleton, List.prod_singleton,
    ← leading_linked chained.formed chained.startInRange chained.stopsInRange fits]
  ext word
  rw [FsmWithStartEnd.mem_language_iff]
  refine exists_congr fun state => and_congr_left fun _ => ?_
  simp only [FsmWithStartEnd.isEndState]
  rw [getD_foldl_set_replicate, numStates_linked]
  exact and_iff_left_of_imp fun among => endState_inside _ among

theorem Chained.foldl (chained : Chained chain subs) (rest : List RuleFsm) (some : rest ≠ []) (fits : AuxFits (subs ++ rest))
    (started : subs ≠ []) (ends : subs.length + rest.length = last + 1) :
    (⟨(((rest.map toFsmWithStartEnd).zipIdx subs.length).foldl (Chain.round last) chain).fsm,
      (((rest.map toFsmWithStartEnd).zipIdx subs.length).foldl (Chain.round last) chain).start,
      (((rest.map toFsmWithStartEnd).zipIdx subs.length).foldl (Chain.round last) chain).ends, false⟩ :
        FsmWithStartEnd).language = ((subs ++ rest).map (·.language)).prod := by
  induction rest generalizing chain subs with
  | nil => exact absurd rfl some
  | cons sub rest ih =>
    have short : chain.fsm.edgeAuxData.length + sub.fsm.edgeAuxData.length ≤ 32768 := by
      simp only [AuxFits, List.map_append, List.map_cons, List.sum_append, List.sum_cons] at fits
      have := chained.auxTotal
      omega
    have later : subs.length ≠ 0 := fun none => started (List.length_eq_zero_iff.mp none)
    simp only [List.map_cons, List.zipIdx_cons, List.foldl_cons]
    cases rest with
    | nil =>
      have here : subs.length = last := by simpa using ends
      rw [here] at later ⊢
      exact chained.round_last later short
    | cons following rest =>
      have between : subs.length ≠ last := by
        simp only [List.length_cons] at ends
        omega
      have whole := ih (chained.round_between later between short) (by simp) (by simpa using fits) (by simp)
        (by simp only [List.length_append, List.length_cons, List.length_nil] at ends ⊢; omega)
      simpa using whole

theorem concat_language {machines : List RuleFsm} (some : machines ≠ []) (fits : AuxFits machines) :
    (FsmWithStartEnd.concat (machines.map toFsmWithStartEnd)).language = (machines.map (·.language)).prod := by
  match machines with
  | [machine] => simp [FsmWithStartEnd.concat]
  | [] => exact absurd rfl some
  | first :: second :: rest =>
    exact (round_first (by simp)).foldl (second :: rest) (by simp) fits (by simp) (by simp; omega)

end Round

/-- The star, the positive closure, the union and the concatenation are right for all operands; the optional one is if
and only if its operand skips safely. -/
theorem regular_operations (machine : RuleFsm) (machines : List RuleFsm) (some : machines ≠ []) (fits : AuxFits machines) :
    machine.star.language = machine.language∗ ∧ machine.plus.language = machine.language * machine.language∗ ∧
      (FsmWithStartEnd.union (machines.map toFsmWithStartEnd)).language = (machines.map (·.language)).sum ∧
      (FsmWithStartEnd.concat (machines.map toFsmWithStartEnd)).language = (machines.map (·.language)).prod ∧
      (machine.optional.language = 1 + machine.language ↔ machine.SkipsSafely) :=
  ⟨star_language, plus_language, union_language fits, concat_language some fits, optional_language_iff⟩

/-- Any number of the byte `b`, and then an `a`. -/
def loopedStart : RuleFsm where
  fsm := ⟨[[⟨.charRange 98 98, 0⟩, ⟨.charRange 97 97, 1⟩], []], []⟩
  start := 0
  ends := [false, true]
  isDfa := false
  wellFormed := Fsm.wellFormed_of_isWellFormed (by decide)
  startInRange := by decide
  endsTotal := rfl
  flagged := by
    intro absurd
    cases absurd

theorem regular_operations_looped :
    loopedStart.star.language = loopedStart.language∗ ∧ loopedStart.plus.language = loopedStart.language * loopedStart.language∗ ∧
      (FsmWithStartEnd.union ([loopedStart, loopedStart].map toFsmWithStartEnd)).language =
        ([loopedStart, loopedStart].map (·.language)).sum ∧
      (FsmWithStartEnd.concat ([loopedStart, loopedStart].map toFsmWithStartEnd)).language =
        ([loopedStart, loopedStart].map (·.language)).prod ∧
      (loopedStart.optional.language = 1 + loopedStart.language ↔ loopedStart.SkipsSafely) :=
  regular_operations loopedStart [loopedStart, loopedStart] (by simp) (by simp [AuxFits, loopedStart])

/-- The optional machine of `b*a` accepts `b`. -/
theorem optional_accepts_more : [Label.byte 98] ∈ loopedStart.optional.language ∧ [Label.byte 98] ∉ 1 + loopedStart.language := by
  constructor
  · have loop : 0 ∈ loopedStart.optional.fsm.step 0 (some (.byte 98)) :=
      ⟨⟨.charRange 98 98, 0⟩, by decide, .charRange (by decide) (by decide), rfl⟩
    have skip : 1 ∈ loopedStart.optional.fsm.step 0 none := ⟨⟨.epsilon, 1⟩, by decide, .epsilon, rfl⟩
    exact FsmWithStartEnd.mem_language_iff.mpr ⟨1, rfl, .reads loop (.silent skip .nil)⟩
  · intro either
    rcases mem_one_add_iff.mp either with empty | accepted
    · cases empty
    · obtain ⟨last, accepting, walk⟩ := FsmWithStartEnd.mem_language_iff.mp accepted
      -- the end state is entered by an `a` alone
      have known := walk.invariant (fun word state => state = 1 → word.getLast? = some (Label.byte 97)) ?_ (by simp [loopedStart])
      · match last with
        | 0 => cases accepting
        | 1 => simp at known
        | _ + 2 => cases accepting
      · rintro word state letter next - ⟨edge, found, carries, rfl⟩ entered
        match state with
        | 0 =>
          rcases List.mem_cons.mp found with rfl | found
          · cases entered
          · cases List.mem_singleton.mp found
            cases carries with
            | @charRange _ _ byte above below =>
              have same : byte = 97 := UInt8.toNat_inj.mp (Nat.le_antisymm below above)
              simp [same]
        | 1 => cases found
        | _ + 2 => cases found

end RuleFsm

end Metrale.Grammar
