import Mathlib

/-! # Partition refinement

Blocks of states are split until no label tells the states of a block apart by the block that it leads to.  Of two parts
of a block that was split before, the smaller one is enough: what the larger would split is known from both. -/

namespace Metrale.Foundation

open scoped List

variable {State Mark : Type*}

/-- The blocks, and those of them that others are still to be split by. -/
structure Refining (State : Type*) where
  partitions : List (Finset State)
  working : List (Finset State)

section Loop

variable [DecidableEq State]

/-- What waits after `part` was split in two. -/
def splitWorking (part intersection difference : Finset State) (working : List (Finset State)) : List (Finset State) :=
  match working.idxOf? part with
  | some position => working.set position intersection ++ [difference]
  | none => working ++ [if difference.card < intersection.card then difference else intersection]

/-- One pass over the blocks: those that it has been at, those that it has added behind, and those that wait. -/
structure Pass (State : Type*) where
  visited : List (Finset State)
  added : List (Finset State)
  working : List (Finset State)

def Pass.split (precs : Finset State) (pass : Pass State) (part : Finset State) : Pass State :=
  let intersection := part.filter (· ∈ precs)
  let difference := part.filter (· ∉ precs)
  if intersection ≠ ∅ ∧ difference ≠ ∅ then
    ⟨pass.visited ++ [intersection], pass.added ++ [difference], splitWorking part intersection difference pass.working⟩
  else { pass with visited := pass.visited ++ [part] }

/-- The loop also passes over what it has added, but no state of that is in `precs`. -/
def Refining.splitBy (refining : Refining State) (precs : Finset State) : Refining State :=
  let pass := refining.partitions.foldl (Pass.split precs) ⟨[], [], refining.working⟩
  ⟨pass.visited ++ pass.added, pass.working⟩

/-- `pre` gives the states that a label leads from into a set, and `marks` the labels by which anything leads there. -/
def refine (marks : Nat → Finset State → List Mark) (pre : Mark → Finset State → Finset State) :
    Nat → Refining State → List (Finset State)
  | 0, refining => refining.partitions
  | fuel + 1, refining => match refining.working.getLast? with
    | none => refining.partitions
    | some current => refine marks pre fuel ((marks fuel current).foldl (fun refining mark => refining.splitBy (pre mark current))
        { refining with working := refining.working.dropLast })

end Loop

/-! ## Blocks that nothing tells apart -/

/-- All of a block is in the set, or nothing. -/
def Uniform (set block : Finset State) : Prop := block ⊆ set ∨ Disjoint block set

theorem Uniform.mono {set block part : Finset State} (uniform : Uniform set block) (within : part ⊆ block) : Uniform set part :=
  uniform.imp within.trans (Finset.disjoint_of_subset_left within)

def Stable (pre : Mark → Finset State → Finset State) (blocks : List (Finset State)) (splitter : Finset State) : Prop :=
  ∀ block ∈ blocks, ∀ mark, Uniform (pre mark splitter) block

/-- The preimages of a partial function. -/
structure Preimages [DecidableEq State] (pre : Mark → Finset State → Finset State) : Prop where
  empty : ∀ mark, pre mark ∅ = ∅
  sdiff : ∀ mark first second, pre mark (first \ second) = pre mark first \ pre mark second

variable {pre : Mark → Finset State → Finset State} {blocks working others : List (Finset State)}
  {current part intersection difference every accepting : Finset State} {handled : Mark → Prop}

theorem Stable.sdiff [DecidableEq State] (laws : Preimages pre) {first second : Finset State} (one : Stable pre blocks first)
    (two : Stable pre blocks second) : Stable pre blocks (first \ second) := by
  intro block among mark
  rw [Uniform, laws.sdiff]
  rcases one block among mark with within | apart
  · rcases two block among mark with both | only
    · exact .inr (Finset.disjoint_sdiff.mono_left both)
    · exact .inl (Finset.subset_sdiff.mpr ⟨within, only⟩)
  · exact .inr (apart.mono_right Finset.sdiff_subset)

theorem Stable.empty [DecidableEq State] (laws : Preimages pre) (blocks : List (Finset State)) : Stable pre blocks ∅ := by
  intro block _ mark
  rw [laws.empty]
  exact .inr (Finset.disjoint_empty_right _)

/-- The state is in something that waits. -/
def Waits (working : List (Finset State)) (state : State) : Prop := ∃ splitter ∈ working, state ∈ splitter

/-- Why a block needs not wait.  Either it is what is left of the current splitter, or of a set by which all blocks are
stable; the rest waits. -/
def Justified (pre : Mark → Finset State → Finset State) (blocks working : List (Finset State)) (current block : Finset State) :
    Prop :=
  block ∈ working ∨ (block ⊆ current ∧ ∀ state ∈ current, state ∈ block ∨ Waits working state) ∨
    ∃ splitter, Stable pre blocks splitter ∧ block ⊆ splitter ∧ Disjoint block current ∧
      ∀ state ∈ splitter, state ∈ block ∨ Waits working state ∨ state ∈ current

/-- What the loop keeps while it splits by `current`, for whose `handled` labels it has been at all blocks. -/
structure Refined (pre : Mark → Finset State → Finset State) (every accepting current : Finset State) (handled : Mark → Prop)
    (blocks working : List (Finset State)) : Prop where
  apart : blocks.Pairwise Disjoint
  covered : ∀ state, state ∈ every ↔ ∃ block ∈ blocks, state ∈ block
  uniform : ∀ block ∈ blocks, Uniform accepting block
  workingApart : working.Pairwise Disjoint
  workingAmong : ∀ splitter ∈ working, splitter ∈ blocks
  whole : ∀ block ∈ blocks, Uniform current block
  stable : ∀ mark, handled mark → ∀ block ∈ blocks, Uniform (pre mark current) block
  justified : ∀ block ∈ blocks, Justified pre blocks working current block

/-! ## Splitting a block -/

/-- The parts of a block that is split. -/
structure SplitIn (part intersection difference : Finset State) : Prop where
  first : intersection ⊆ part
  second : difference ⊆ part
  apart : Disjoint intersection difference
  all : ∀ state ∈ part, state ∈ intersection ∨ state ∈ difference
  firstSome : intersection.Nonempty
  secondSome : difference.Nonempty

theorem splitIn_filter [DecidableEq State] {precs : Finset State} (both : part.filter (· ∈ precs) ≠ ∅ ∧ part.filter (· ∉ precs) ≠ ∅) :
    SplitIn part (part.filter (· ∈ precs)) (part.filter (· ∉ precs)) where
  first := Finset.filter_subset _ _
  second := Finset.filter_subset _ _
  apart := Finset.disjoint_filter_filter_not part part (· ∈ precs)
  all state inside := by
    simp only [Finset.mem_filter, inside, true_and]
    exact em _
  firstSome := Finset.nonempty_iff_ne_empty.mpr both.1
  secondSome := Finset.nonempty_iff_ne_empty.mpr both.2

/-- A part that waits is replaced by its two parts; else one of them is to wait. -/
theorem splitWorking_cases [DecidableEq State] (part intersection difference : Finset State) (working : List (Finset State)) :
    (∃ rest, working.Perm (part :: rest) ∧
      (splitWorking part intersection difference working).Perm (intersection :: difference :: rest)) ∨
    part ∉ working ∧ ∃ small, (small = intersection ∨ small = difference) ∧
      (splitWorking part intersection difference working).Perm (small :: working) := by
  rw [splitWorking]
  split
  · next position found =>
    obtain ⟨inside, same, _⟩ := List.idxOf?_eq_some_iff.mp found
    refine .inl ⟨working.take position ++ working.drop (position + 1), ?_, ?_⟩
    · calc working = working.take position ++ working[position] :: working.drop (position + 1) := by
            rw [List.getElem_cons_drop, List.take_append_drop]
        _ ~ working[position] :: (working.take position ++ working.drop (position + 1)) := List.perm_middle
        _ = part :: (working.take position ++ working.drop (position + 1)) := by rw [same]
    · rw [List.set_eq_take_append_cons_drop, if_pos inside]
      refine (List.perm_append_singleton _ _).trans ?_
      exact (List.perm_middle.cons difference).trans (List.Perm.swap ..)
  · next missing =>
    refine .inr ⟨List.idxOf?_eq_none_iff.mp missing, _, ?_, List.perm_append_singleton _ _⟩
    split
    · exact .inr rfl
    · exact .inl rfl

theorem Refined.perm {blocks' working' : List (Finset State)} (refined : Refined pre every accepting current handled blocks working)
    (sameBlocks : blocks.Perm blocks') (sameWorking : working.Perm working') :
    Refined pre every accepting current handled blocks' working' := by
  have waits : ∀ {state}, Waits working state → Waits working' state :=
    fun ⟨splitter, among, inside⟩ => ⟨splitter, sameWorking.mem_iff.mp among, inside⟩
  constructor
  · exact (sameBlocks.pairwise_iff fun apart => apart.symm).mp refined.apart
  · intro state
    simp only [refined.covered, sameBlocks.mem_iff]
  · exact fun block among => refined.uniform block (sameBlocks.mem_iff.mpr among)
  · exact (sameWorking.pairwise_iff fun apart => apart.symm).mp refined.workingApart
  · exact fun splitter among => sameBlocks.mem_iff.mp (refined.workingAmong splitter (sameWorking.mem_iff.mpr among))
  · exact fun block among => refined.whole block (sameBlocks.mem_iff.mpr among)
  · exact fun mark done block among => refined.stable mark done block (sameBlocks.mem_iff.mpr among)
  · intro block among
    rcases refined.justified block (sameBlocks.mem_iff.mpr among) with waiting | ⟨within, rest⟩ | ⟨splitter, stable, within, apart, rest⟩
    · exact .inl (sameWorking.mem_iff.mp waiting)
    · exact .inr (.inl ⟨within, fun state inside => (rest state inside).imp_right waits⟩)
    · exact .inr (.inr ⟨splitter, fun block among => stable block (sameBlocks.mem_iff.mpr among), within, apart,
        fun state inside => (rest state inside).imp_right (Or.imp_left waits)⟩)

/-- A block that was not split stays justified while no less waits. -/
theorem Justified.mono {blocks' working' : List (Finset State)} {block : Finset State}
    (justified : Justified pre blocks working current block) (finer : ∀ splitter, Stable pre blocks splitter → Stable pre blocks' splitter)
    (stays : block ∈ working → block ∈ working') (waits : ∀ state, Waits working state → Waits working' state) :
    Justified pre blocks' working' current block := by
  rcases justified with waiting | ⟨within, rest⟩ | ⟨splitter, stable, within, apart, rest⟩
  · exact .inl (stays waiting)
  · exact .inr (.inl ⟨within, fun state inside => (rest state inside).imp_right (waits state)⟩)
  · exact .inr (.inr ⟨splitter, finer splitter stable, within, apart,
      fun state inside => (rest state inside).imp_right (Or.imp_left (waits state))⟩)

/-- What is left of a block when another part of it waits. -/
theorem Justified.ofPart {blocks' working' : List (Finset State)} {small big : Finset State}
    (justified : Justified pre blocks working current part) (idle : part ∉ working)
    (finer : ∀ splitter, Stable pre blocks splitter → Stable pre blocks' splitter) (within : big ⊆ part)
    (both : ∀ state ∈ part, state ∈ big ∨ state ∈ small) (smallWaits : small ∈ working')
    (waits : ∀ state, Waits working state → Waits working' state) : Justified pre blocks' working' current big := by
  have known : ∀ state ∈ part, state ∈ big ∨ Waits working' state :=
    fun state inside => (both state inside).imp_right fun here => ⟨small, smallWaits, here⟩
  rcases justified with waiting | ⟨inCurrent, rest⟩ | ⟨splitter, stable, inSplitter, apart, rest⟩
  · exact absurd waiting idle
  · refine .inr (.inl ⟨within.trans inCurrent, fun state inside => ?_⟩)
    rcases rest state inside with here | waiting
    · exact known state here
    · exact .inr (waits state waiting)
  · refine .inr (.inr ⟨splitter, finer splitter stable, within.trans inSplitter, Finset.disjoint_of_subset_left within apart,
      fun state inside => ?_⟩)
    rcases rest state inside with here | waiting | inCurrent
    · exact (known state here).imp_right .inl
    · exact .inr (.inl (waits state waiting))
    · exact .inr (.inr inCurrent)

section Split

variable (refined : Refined pre every accepting current handled (part :: others) working)
  (parts : SplitIn part intersection difference)

include refined parts

theorem Refined.not_mem_others {block : Finset State} (among : block ∈ others) : block ≠ part := by
  rintro rfl
  have apart := List.rel_of_pairwise_cons refined.apart among
  obtain ⟨state, inside⟩ := parts.firstSome
  exact Finset.disjoint_left.mp apart (parts.first inside) (parts.first inside)

theorem Refined.of_splitWorking {working' : List (Finset State)} (workingApart : working'.Pairwise Disjoint)
    (workingAmong : ∀ splitter ∈ working', splitter ∈ intersection :: difference :: others)
    (justified : ∀ block ∈ intersection :: difference :: others,
      Justified pre (intersection :: difference :: others) working' current block) :
    Refined pre every accepting current handled (intersection :: difference :: others) working' := by
  have smaller : ∀ {set : Finset State}, (∀ block ∈ part :: others, Uniform set block) →
      ∀ block ∈ intersection :: difference :: others, Uniform set block := by
    intro set uniform block among
    rcases List.mem_cons.mp among with rfl | among
    · exact (uniform part List.mem_cons_self).mono parts.first
    · rcases List.mem_cons.mp among with rfl | among
      · exact (uniform part List.mem_cons_self).mono parts.second
      · exact uniform block (List.mem_cons_of_mem _ among)
  have others_ := List.pairwise_cons.mp refined.apart
  refine ⟨?_, fun state => ?_, smaller refined.uniform, workingApart, workingAmong, smaller refined.whole,
    fun mark done => smaller (refined.stable mark done), justified⟩
  · refine List.pairwise_cons.mpr ⟨fun block among => ?_, List.pairwise_cons.mpr ⟨fun block among => ?_, others_.2⟩⟩
    · rcases List.mem_cons.mp among with rfl | among
      · exact parts.apart
      · exact (others_.1 block among).mono_left parts.first
    · exact (others_.1 block among).mono_left parts.second
  · rw [refined.covered]
    simp only [List.mem_cons, exists_eq_or_imp]
    constructor
    · rintro (inside | rest)
      · rcases parts.all state inside with first | second
        · exact .inl first
        · exact .inr (.inl second)
      · exact .inr (.inr rest)
    · rintro (first | second | rest)
      · exact .inl (parts.first first)
      · exact .inl (parts.second second)
      · exact .inr rest

/-- A block is split in two, and what waits with it. -/
theorem Refined.split [DecidableEq State] : Refined pre every accepting current handled (intersection :: difference :: others)
    (splitWorking part intersection difference working) := by
  have finer : ∀ splitter, Stable pre (part :: others) splitter → Stable pre (intersection :: difference :: others) splitter := by
    intro splitter stable block among mark
    rcases List.mem_cons.mp among with rfl | among
    · exact (stable part List.mem_cons_self mark).mono parts.first
    · rcases List.mem_cons.mp among with rfl | among
      · exact (stable part List.mem_cons_self mark).mono parts.second
      · exact stable block (List.mem_cons_of_mem _ among) mark
  have elsewhere : ∀ splitter ∈ working, splitter ≠ part → splitter ∈ intersection :: difference :: others := by
    intro splitter among other
    rcases List.mem_cons.mp (refined.workingAmong splitter among) with same | rest
    · exact absurd same other
    · exact List.mem_cons_of_mem _ (List.mem_cons_of_mem _ rest)
  rcases splitWorking_cases part intersection difference working with ⟨rest, before, after⟩ | ⟨idle, small, which, after⟩
  · -- both parts wait where the block did
    have apart := List.pairwise_cons.mp ((before.pairwise_iff fun apart => apart.symm).mp refined.workingApart)
    have unlike : ∀ splitter ∈ rest, splitter ≠ part := by
      rintro splitter among rfl
      obtain ⟨state, inside⟩ := parts.firstSome
      exact Finset.disjoint_left.mp (apart.1 splitter among) (parts.first inside) (parts.first inside)
    refine Refined.perm (refined.of_splitWorking parts ?_ ?_ ?_) (List.Perm.refl _) after.symm
    · refine List.pairwise_cons.mpr ⟨fun splitter among => ?_, List.pairwise_cons.mpr ⟨fun splitter among => ?_, apart.2⟩⟩
      · rcases List.mem_cons.mp among with rfl | among
        · exact parts.apart
        · exact (apart.1 splitter among).mono_left parts.first
      · exact (apart.1 splitter among).mono_left parts.second
    · intro splitter among
      rcases List.mem_cons.mp among with rfl | among
      · exact List.mem_cons_self
      · rcases List.mem_cons.mp among with rfl | among
        · exact List.mem_cons_of_mem _ List.mem_cons_self
        · exact elsewhere splitter (before.mem_iff.mpr (List.mem_cons_of_mem _ among)) (unlike splitter among)
    · intro block among
      rcases List.mem_cons.mp among with rfl | among
      · exact .inl List.mem_cons_self
      · rcases List.mem_cons.mp among with rfl | among
        · exact .inl (List.mem_cons_of_mem _ List.mem_cons_self)
        · refine (refined.justified block (List.mem_cons_of_mem _ among)).mono finer (fun waiting => ?_) ?_
          · rcases List.mem_cons.mp (before.mem_iff.mp waiting) with same | waiting
            · exact absurd same (refined.not_mem_others parts among)
            · exact List.mem_cons_of_mem _ (List.mem_cons_of_mem _ waiting)
          · rintro state ⟨splitter, waiting, inside⟩
            rcases List.mem_cons.mp (before.mem_iff.mp waiting) with rfl | waiting
            · rcases parts.all state inside with first | second
              · exact ⟨intersection, List.mem_cons_self, first⟩
              · exact ⟨difference, List.mem_cons_of_mem _ List.mem_cons_self, second⟩
            · exact ⟨splitter, List.mem_cons_of_mem _ (List.mem_cons_of_mem _ waiting), inside⟩
  · -- one part is to wait, and the other is what is left of the block
    have smaller : small ⊆ part ∧ small ∈ intersection :: difference :: others := by
      rcases which with rfl | rfl
      · exact ⟨parts.first, List.mem_cons_self⟩
      · exact ⟨parts.second, List.mem_cons_of_mem _ List.mem_cons_self⟩
    have unlike : ∀ splitter ∈ working, splitter ≠ part := fun splitter among same => idle (same ▸ among)
    have waits : ∀ state, Waits working state → Waits (small :: working) state :=
      fun state ⟨splitter, waiting, inside⟩ => ⟨splitter, List.mem_cons_of_mem _ waiting, inside⟩
    refine Refined.perm (refined.of_splitWorking parts ?_ ?_ ?_) (List.Perm.refl _) after.symm
    · refine List.pairwise_cons.mpr ⟨fun splitter among => ?_, refined.workingApart⟩
      rcases List.mem_cons.mp (refined.workingAmong splitter among) with same | rest
      · exact absurd same (unlike splitter among)
      · exact (List.rel_of_pairwise_cons refined.apart rest).mono_left smaller.1
    · intro splitter among
      rcases List.mem_cons.mp among with rfl | among
      · exact smaller.2
      · exact elsewhere splitter among (unlike splitter among)
    · intro block among
      have whole := refined.justified part List.mem_cons_self
      rcases List.mem_cons.mp among with rfl | among
      · rcases which with rfl | rfl
        · exact .inl List.mem_cons_self
        · exact whole.ofPart idle finer parts.first parts.all List.mem_cons_self waits
      · rcases List.mem_cons.mp among with rfl | among
        · rcases which with rfl | rfl
          · exact whole.ofPart idle finer parts.second (fun state inside => (parts.all state inside).symm) List.mem_cons_self waits
          · exact .inl List.mem_cons_self
        · exact (refined.justified block (List.mem_cons_of_mem _ among)).mono finer (List.mem_cons_of_mem _) waits

end Split

/-! ## A pass over the blocks -/

section Runs

variable [DecidableEq State]

/-- How often something may still be taken to split by: what waits, and the splits that are left. -/
def remaining (blocks working : List (Finset State)) : Nat :=
  working.length + (blocks.map fun block => block.card - 1).sum

omit [DecidableEq State] in
theorem remaining_perm {blocks' : List (Finset State)} (same : blocks.Perm blocks') :
    remaining blocks working = remaining blocks' working := by
  rw [remaining, remaining, (same.map _).sum_eq]

theorem length_splitWorking : (splitWorking part intersection difference working).length = working.length + 1 := by
  rw [splitWorking]
  split <;> simp

theorem SplitIn.remaining_eq (parts : SplitIn part intersection difference) :
    remaining (intersection :: difference :: others) (splitWorking part intersection difference working) =
      remaining (part :: others) working := by
  have whole : part = intersection ∪ difference := by
    ext state
    rw [Finset.mem_union]
    exact ⟨parts.all state, fun either => either.elim (fun inside => parts.first inside) fun inside => parts.second inside⟩
  have count : part.card = intersection.card + difference.card := by
    rw [whole, Finset.card_union_of_disjoint parts.apart]
  have := parts.firstSome.card_pos
  have := parts.secondSome.card_pos
  simp only [remaining, length_splitWorking, List.map_cons, List.sum_cons]
  omega

/-- What a pass has been at is uniform, and what it has still to be at is among the blocks. -/
theorem Refined.foldl_split (precs : Finset State) (todo : List (Finset State)) (pass : Pass State)
    (refined : Refined pre every accepting current handled (pass.visited ++ todo ++ pass.added) pass.working)
    (been : ∀ block ∈ pass.visited ++ pass.added, Uniform precs block) :
    Refined pre every accepting current handled
        ((todo.foldl (Pass.split precs) pass).visited ++ (todo.foldl (Pass.split precs) pass).added)
        (todo.foldl (Pass.split precs) pass).working ∧
      (∀ block ∈ (todo.foldl (Pass.split precs) pass).visited ++ (todo.foldl (Pass.split precs) pass).added,
        Uniform precs block) ∧
      remaining ((todo.foldl (Pass.split precs) pass).visited ++ (todo.foldl (Pass.split precs) pass).added)
        (todo.foldl (Pass.split precs) pass).working = remaining (pass.visited ++ todo ++ pass.added) pass.working := by
  induction todo generalizing pass with
  | nil =>
    rw [List.append_nil] at refined ⊢
    exact ⟨refined, been, rfl⟩
  | cons part todo ih =>
    rw [List.foldl_cons, Pass.split]
    split
    · next both =>
      have parts := splitIn_filter both
      have front : (pass.visited ++ part :: todo ++ pass.added).Perm (part :: (pass.visited ++ todo ++ pass.added)) := by
        rw [List.append_assoc, List.cons_append, List.append_assoc]
        exact List.perm_middle
      have back : (part.filter (· ∈ precs) :: part.filter (· ∉ precs) :: (pass.visited ++ todo ++ pass.added)).Perm
          (pass.visited ++ [part.filter (· ∈ precs)] ++ todo ++ (pass.added ++ [part.filter (· ∉ precs)])) := by
        simp only [List.append_assoc, List.cons_append, List.nil_append]
        refine List.Perm.trans (List.Perm.cons _ ?_) List.perm_middle.symm
        rw [← List.append_assoc, ← List.append_assoc, ← List.append_assoc]
        exact (List.perm_append_singleton _ _).symm
      have split := ((refined.perm front (List.Perm.refl _)).split parts).perm back (List.Perm.refl _)
      have rest := ih
        ⟨pass.visited ++ [part.filter (· ∈ precs)], pass.added ++ [part.filter (· ∉ precs)],
          splitWorking part (part.filter (· ∈ precs)) (part.filter (· ∉ precs)) pass.working⟩ split ?_
      · obtain ⟨after, uniform, count⟩ := rest
        refine ⟨after, uniform, count.trans ?_⟩
        rw [← remaining_perm back, parts.remaining_eq, remaining_perm front]
      · intro block among
        simp only [List.mem_append, List.mem_singleton] at among
        rcases among with (old | rfl) | (old | rfl)
        · exact been block (List.mem_append_left _ old)
        · exact .inl fun state inside => (Finset.mem_filter.mp inside).2
        · exact been block (List.mem_append_right _ old)
        · exact .inr (Finset.disjoint_left.mpr fun state inside => (Finset.mem_filter.mp inside).2)
    · next one =>
      have same : pass.visited ++ part :: todo = pass.visited ++ [part] ++ todo := by simp
      rw [same] at refined ⊢
      refine ih { pass with visited := pass.visited ++ [part] } refined fun block among => ?_
      simp only [List.mem_append, List.mem_singleton] at among
      rcases among with (old | rfl) | old
      · exact been block (List.mem_append_left _ old)
      · by_cases nothing : block.filter (· ∈ precs) = ∅
        · exact .inr (Finset.disjoint_left.mpr fun state inside there => Finset.notMem_empty state
            (nothing ▸ Finset.mem_filter.mpr ⟨inside, there⟩))
        · have all : block.filter (· ∉ precs) = ∅ := by
            by_contra some
            exact one ⟨nothing, some⟩
          refine .inl fun state inside => ?_
          by_contra missing
          exact Finset.notMem_empty state (all ▸ Finset.mem_filter.mpr ⟨inside, missing⟩)
      · exact been block (List.mem_append_right _ old)

/-- A pass leaves every block with all of its states in `precs`, or none. -/
theorem Refined.splitBy {refining : Refining State} (mark : Mark)
    (refined : Refined pre every accepting current handled refining.partitions refining.working) :
    Refined pre every accepting current (fun other => handled other ∨ other = mark)
        (refining.splitBy (pre mark current)).partitions (refining.splitBy (pre mark current)).working ∧
      remaining (refining.splitBy (pre mark current)).partitions (refining.splitBy (pre mark current)).working =
        remaining refining.partitions refining.working := by
  obtain ⟨after, uniform, count⟩ := Refined.foldl_split (pre mark current) refining.partitions ⟨[], [], refining.working⟩
    (by simpa using refined) (by simp)
  refine ⟨{ after with stable := ?_ }, by simpa [Refining.splitBy] using count⟩
  rintro other (done | rfl) block among
  · exact after.stable other done block among
  · exact uniform block among

theorem Refined.foldl_splitBy (marks : List Mark) (refining : Refining State)
    (refined : Refined pre every accepting current handled refining.partitions refining.working) :
    Refined pre every accepting current (fun mark => handled mark ∨ mark ∈ marks)
        (marks.foldl (fun refining mark => refining.splitBy (pre mark current)) refining).partitions
        (marks.foldl (fun refining mark => refining.splitBy (pre mark current)) refining).working ∧
      remaining (marks.foldl (fun refining mark => refining.splitBy (pre mark current)) refining).partitions
          (marks.foldl (fun refining mark => refining.splitBy (pre mark current)) refining).working =
        remaining refining.partitions refining.working := by
  induction marks generalizing refining handled with
  | nil => simpa using refined
  | cons mark marks ih =>
    obtain ⟨after, count⟩ := refined.splitBy mark
    obtain ⟨last, rest⟩ := ih _ after
    rw [List.foldl_cons]
    refine ⟨{ last with stable := fun other done => last.stable other ?_ }, rest.trans count⟩
    rcases done with done | among
    · exact .inl (.inl done)
    · rcases List.mem_cons.mp among with rfl | among
      · exact .inl (.inr rfl)
      · exact .inr among

/-- A splitter is taken: it is what is left of itself. -/
theorem Refined.take (laws : Preimages pre) (refined : Refined pre every accepting ∅ (fun _ => True) blocks (working ++ [current])) :
    Refined pre every accepting current (fun _ => False) blocks working := by
  have among := refined.workingAmong current (List.mem_append_right _ List.mem_cons_self)
  have either : ∀ block ∈ blocks, block = current ∨ Disjoint block current := by
    intro block there
    by_cases same : block = current
    · exact .inl same
    · exact .inr (refined.apart.forall there among same)
  refine ⟨refined.apart, refined.covered, refined.uniform, (List.pairwise_append.mp refined.workingApart).1,
    fun splitter waiting => refined.workingAmong splitter (List.mem_append_left _ waiting), fun block there => ?_,
    fun _ absurd => absurd.elim, fun block there => ?_⟩
  · rcases either block there with rfl | apart
    · exact .inl (Finset.Subset.refl _)
    · exact .inr apart
  · rcases either block there with rfl | apart
    · exact .inr (.inl ⟨Finset.Subset.refl _, fun state inside => .inl inside⟩)
    · rcases refined.justified block there with waiting | ⟨nothing, _⟩ | ⟨splitter, stable, within, _, rest⟩
      · rcases List.mem_append.mp waiting with waiting | same
        · exact .inl waiting
        · cases List.mem_singleton.mp same
          exact .inr (.inl ⟨Finset.Subset.refl _, fun state inside => .inl inside⟩)
      · exact .inr (.inr ⟨∅, Stable.empty laws _, nothing, apart, fun state inside => absurd inside (Finset.notMem_empty _)⟩)
      · refine .inr (.inr ⟨splitter, stable, within, apart, fun state inside => ?_⟩)
        rcases rest state inside with here | ⟨other, waiting, there⟩ | absurd
        · exact .inl here
        · rcases List.mem_append.mp waiting with waiting | same
          · exact .inr (.inl ⟨other, waiting, there⟩)
          · cases List.mem_singleton.mp same
            exact .inr (.inr there)
        · exact (Finset.notMem_empty _ absurd).elim

/-- All labels were handled: the blocks are stable by the splitter. -/
theorem Refined.finish (laws : Preimages pre) (refined : Refined pre every accepting current handled blocks working)
    (all : ∀ mark, handled mark ∨ pre mark current = ∅) :
    Refined pre every accepting ∅ (fun _ => True) blocks working := by
  have settled : Stable pre blocks current := by
    intro block among mark
    rcases all mark with done | nothing
    · exact refined.stable mark done block among
    · exact .inr (nothing ▸ Finset.disjoint_empty_right _)
  refine ⟨refined.apart, refined.covered, refined.uniform, refined.workingApart, refined.workingAmong,
    fun block _ => .inr (Finset.disjoint_empty_right _), fun mark _ block among => Stable.empty laws blocks block among mark,
    fun block among => ?_⟩
  rcases refined.justified block among with waiting | ⟨within, rest⟩ | ⟨splitter, stable, within, apart, rest⟩
  · exact .inl waiting
  · exact .inr (.inr ⟨current, settled, within, Finset.disjoint_empty_right _, fun state inside => (rest state inside).imp_right .inl⟩)
  · refine .inr (.inr ⟨splitter \ current, stable.sdiff laws settled, Finset.subset_sdiff.mpr ⟨within, apart⟩,
      Finset.disjoint_empty_right _, fun state inside => ?_⟩)
    obtain ⟨there, outside⟩ := Finset.mem_sdiff.mp inside
    rcases rest state there with here | waiting | absurd
    · exact .inl here
    · exact .inr (.inl waiting)
    · exact (outside absurd).elim

/-- What the loop ends with: blocks that nothing tells apart, and by which all blocks are stable. -/
theorem Refined.refine (laws : Preimages pre) {marks : Nat → Finset State → List Mark}
    (complete : ∀ round splitter mark, mark ∈ marks round splitter ∨ pre mark splitter = ∅) (fuel : Nat) {refining : Refining State}
    (refined : Refined pre every accepting ∅ (fun _ => True) refining.partitions refining.working)
    (enough : remaining refining.partitions refining.working ≤ fuel) :
    Refined pre every accepting ∅ (fun _ => True) (Foundation.refine marks pre fuel refining) [] := by
  induction fuel generalizing refining with
  | zero =>
    have idle : refining.working = [] := by
      apply List.length_eq_zero_iff.mp
      unfold remaining at enough
      omega
    exact idle ▸ refined
  | succ fuel ih =>
    rw [Foundation.refine]
    split
    · next idle => exact List.getLast?_eq_none_iff.mp idle ▸ refined
    · next current last =>
      have whole : refining.working = refining.working.dropLast ++ [current] :=
        (List.dropLast_append_getLast? current last).symm
      obtain ⟨after, count⟩ := Refined.foldl_splitBy (marks fuel current)
        { refining with working := refining.working.dropLast } (Refined.take laws (whole ▸ refined))
      refine ih (after.finish laws fun mark => ?_) ?_
      · exact (complete fuel current mark).imp_left .inr
      · have shorter := congrArg List.length whole
        simp only [List.length_append, List.length_singleton] at shorter
        simp only [remaining] at count enough ⊢
        omega

/-- When nothing waits, all blocks are stable by each. -/
theorem Refined.stable_of_idle (refined : Refined pre every accepting ∅ handled blocks []) (laws : Preimages pre)
    {block : Finset State} (among : block ∈ blocks) : Stable pre blocks block := by
  rcases refined.justified block among with absurd | ⟨nothing, _⟩ | ⟨splitter, stable, within, _, rest⟩
  · cases absurd
  · rw [Finset.subset_empty.mp nothing]
    exact Stable.empty laws blocks
  · have same : splitter = block := by
      refine Finset.Subset.antisymm (fun state inside => ?_) within
      rcases rest state inside with here | ⟨_, waiting, _⟩ | absurd
      · exact here
      · cases waiting
      · exact (Finset.notMem_empty _ absurd).elim
    exact same ▸ stable

/-- The loop from the accepting states and the others. -/
theorem refined_refine (laws : Preimages pre) {marks : Nat → Finset State → List Mark}
    (complete : ∀ round splitter mark, mark ∈ marks round splitter ∨ pre mark splitter = ∅)
    {fuel : Nat} (within : accepting ⊆ every) (enough : every.card + 2 ≤ fuel) :
    Refined pre every accepting ∅ (fun _ => True)
      (Foundation.refine marks pre fuel ⟨[accepting, every \ accepting], [accepting, every \ accepting]⟩) [] := by
  apply Refined.refine laws complete
  · have apart : [accepting, every \ accepting].Pairwise Disjoint := by
      simpa using Finset.disjoint_sdiff
    refine ⟨apart, fun state => ?_, fun block among => ?_, apart, fun _ => id, fun block _ => .inr (Finset.disjoint_empty_right _),
      fun mark _ block among => Stable.empty laws _ block among mark, fun block among => .inl among⟩
    · simp only [List.mem_cons, List.not_mem_nil, or_false, exists_eq_or_imp, exists_eq_left, Finset.mem_sdiff]
      constructor
      · intro inside
        by_cases accepts : state ∈ accepting
        · exact .inl accepts
        · exact .inr ⟨inside, accepts⟩
      · rintro (accepts | ⟨inside, _⟩)
        · exact within accepts
        · exact inside
    · rcases List.mem_cons.mp among with rfl | among
      · exact .inl (Finset.Subset.refl _)
      · cases List.mem_singleton.mp among
        exact .inr Finset.sdiff_disjoint
  · have count := Finset.card_sdiff_add_card_eq_card within
    simp only [remaining, List.length_cons, List.length_nil, List.map_cons, List.map_nil, List.sum_cons, List.sum_nil]
    omega

end Runs

end Metrale.Foundation
