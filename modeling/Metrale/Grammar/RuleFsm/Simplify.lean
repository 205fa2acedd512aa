import Metrale.Grammar.RuleFsm.Rebuild
import Metrale.Grammar.RuleFsm.UnionFind

/-! # Epsilon simplification (`fsm/simplify.rs`)

A silent edge goes where it is all that its source does, or all that leads to its target.  The machine that is left
reads a word up to a state where the old one does, or up to one from which a state goes on by itself: so it loses no
word, and gains those of an accepting state that a silent step leaves. -/

namespace Metrale.Grammar

open Metrale.Foundation

/-! ## The new numbers -/

/-- Numbers the states that are in no class from `count` on. -/
def numberStates (count : Nat) : List (Option Nat) → List Nat
  | [] => []
  | some index :: slots => index :: numberStates count slots
  | none :: slots => count :: numberStates (count + 1) slots

variable {slots : List (Option Nat)} {count position other : Nat}

theorem numberStates_some {index : Nat} (slot : slots[position]? = some (some index)) :
    (numberStates count slots).getD position 0 = index := by
  induction slots generalizing count position with
  | nil => simp at slot
  | cons head slots ih =>
    cases position with
    | zero =>
      cases slot
      rfl
    | succ position => cases head <;> exact ih slot

theorem numberStates_none (slot : slots[position]? = some none) :
    (numberStates count slots).getD position 0 = count + (slots.take position).countP (·.isNone) := by
  induction slots generalizing count position with
  | nil => simp at slot
  | cons head slots ih =>
    cases position with
    | zero =>
      cases slot
      rfl
    | succ position =>
      cases head with
      | none =>
        rw [List.take_succ_cons, List.countP_cons_of_pos rfl, ← Nat.add_assoc, Nat.add_right_comm]
        exact ih slot
      | some index =>
        rw [List.take_succ_cons, List.countP_cons_of_neg (by simp)]
        exact ih slot

/-- A state in no class adds to what is counted before a later one. -/
theorem countP_take_lt (slot : slots[position]? = some none) (later : position < other) :
    (slots.take position).countP (·.isNone) < (slots.take other).countP (·.isNone) := by
  have upTo : (slots.take (position + 1)).countP (·.isNone) = (slots.take position).countP (·.isNone) + 1 := by
    rw [List.take_add_one, slot, List.countP_append]
    rfl
  have within : (slots.take (position + 1)).countP (·.isNone) ≤ (slots.take other).countP (·.isNone) :=
    (List.take_sublist_take_left later).countP_le
  omega

theorem numberStates_lt (below : ∀ index, some index ∈ slots → index < count) (inside : position < slots.length) :
    (numberStates count slots).getD position 0 < count + slots.countP (·.isNone) := by
  cases slot : slots[position]? with
  | none => simp at slot; omega
  | some slot' =>
    cases slot' with
    | some index =>
      rw [numberStates_some slot]
      exact Nat.lt_add_right _ (below index (List.mem_of_getElem? slot))
    | none =>
      have := countP_take_lt slot inside
      rw [List.take_length] at this
      rw [numberStates_none slot]
      omega

/-- States of one number are in one class, or one state. -/
theorem eq_of_numberStates_eq (below : ∀ index, some index ∈ slots → index < count) (inside : position < slots.length)
    (inside' : other < slots.length)
    (same : (numberStates count slots).getD position 0 = (numberStates count slots).getD other 0) :
    position = other ∨ ∃ index, slots[position]? = some (some index) ∧ slots[other]? = some (some index) := by
  have far : ∀ {position other index}, slots[position]? = some (some index) → slots[other]? = some none →
      (numberStates count slots).getD position 0 ≠ (numberStates count slots).getD other 0 := by
    intro position other index slot slot'
    rw [numberStates_some slot, numberStates_none slot']
    have := below index (List.mem_of_getElem? slot)
    omega
  cases slot : slots[position]? with
  | none => simp at slot; omega
  | some first =>
    cases slot' : slots[other]? with
    | none => simp at slot'; omega
    | some second =>
      cases first <;> cases second
      · left
        rw [numberStates_none slot, numberStates_none slot'] at same
        rcases Nat.lt_trichotomy position other with before | here | after
        · have := countP_take_lt slot before
          omega
        · exact here
        · have := countP_take_lt slot' after
          omega
      · exact absurd same.symm (far slot' slot)
      · exact absurd same (far slot slot')
      · right
        rw [numberStates_some slot, numberStates_some slot'] at same
        exact ⟨_, rfl, by rw [same]⟩

/-! ## Epsilon simplification -/

/-- The locals of the first loop of `simplify_epsilon`. -/
structure EpsilonScan where
  sets : UnionFindSet
  inDegree : List Nat
  epsilonEdges : List (Nat × Nat)

namespace Fsm

/-- The edges in the order of the loop, each with its source. -/
def entries (fsm : Fsm) : List (Nat × FsmEdge) :=
  (List.range fsm.numStates).flatMap fun source => (fsm.edgesOf source).map (source, ·)

/-- The edge is silent, and the only one of its source. -/
def isLone (fsm : Fsm) (entry : Nat × FsmEdge) : Bool := entry.2.isEpsilon && (fsm.edgesOf entry.1).length == 1

def scanEntry (fsm : Fsm) (scan : EpsilonScan) (entry : Nat × FsmEdge) : EpsilonScan :=
  let inDegree := scan.inDegree.modify entry.2.target (· + 1)
  if fsm.isLone entry then
    -- The edge disappears, so it is not counted.
    { scan with sets := scan.sets.join entry.1 entry.2.target, inDegree := inDegree.modify entry.2.target (· - 1) }
  else if entry.2.isEpsilon then
    { scan with inDegree, epsilonEdges := scan.epsilonEdges ++ [(entry.1, entry.2.target)] }
  else { scan with inDegree }

def scanEpsilon (fsm : Fsm) : EpsilonScan :=
  fsm.entries.foldl fsm.scanEntry ⟨.empty, List.replicate fsm.numStates 0, []⟩

end Fsm

namespace EpsilonScan

/-- The root takes over what is counted at the state. -/
def gatherState (scan : EpsilonScan) (inDegree : List Nat) (state : Nat) : List Nat :=
  if scan.sets.find state = state then inDegree
  else inDegree.modify (scan.sets.find state) (· + inDegree.getD state 0)

def gathered (scan : EpsilonScan) : List Nat := (List.range scan.inDegree.length).foldl scan.gatherState scan.inDegree

end EpsilonScan

namespace FsmWithStartEnd

/-- Joins the ends of a silent edge, if no other edge leads to the target's set. -/
def joinSole (machine : FsmWithStartEnd) (scan : EpsilonScan) (sets : UnionFindSet) (edge : Nat × Nat) : UnionFindSet :=
  if scan.gathered.getD (scan.sets.find edge.2) 0 = 1 ∧ scan.sets.find machine.start ≠ scan.sets.find edge.2 then
    sets.join (scan.sets.find edge.1) (scan.sets.find edge.2)
  else sets

def epsilonSets (machine : FsmWithStartEnd) : UnionFindSet :=
  machine.fsm.scanEpsilon.epsilonEdges.foldl (machine.joinSole machine.fsm.scanEpsilon) machine.fsm.scanEpsilon.sets

def simplifyEpsilon (machine : FsmWithStartEnd) : FsmWithStartEnd :=
  if machine.isDfa then machine
  else
    let classes := machine.epsilonSets.allSets
    if classes.isEmpty then machine
    else
      let slots := (List.range machine.numStates).map (UnionFindSet.classIndex classes)
      machine.rebuildWithMapping (numberStates classes.length slots) (classes.length + slots.countP (·.isNone))

end FsmWithStartEnd

/-! ### What the loops leave -/

namespace Fsm

variable {fsm : Fsm} {entry : Nat × FsmEdge} {scan : EpsilonScan} {seen : List (Nat × FsmEdge)}

/-- All that the state can do is a silent step to the next. -/
def Lone (fsm : Fsm) (state next : Nat) : Prop := fsm.edgesOf state = [⟨.epsilon, next⟩]

theorem mem_entries : entry ∈ fsm.entries ↔ entry.2 ∈ fsm.edgesOf entry.1 := by
  obtain ⟨source, edge⟩ := entry
  simp only [entries, List.mem_flatMap, List.mem_range, List.mem_map]
  constructor
  · rintro ⟨state, _, edge, found, same⟩
    cases same
    exact found
  · intro found
    exact ⟨source, lt_of_mem_edgesOf found, edge, found, rfl⟩

theorem lone_of_isLone (found : entry ∈ fsm.entries) (lone : fsm.isLone entry = true) : fsm.Lone entry.1 entry.2.target := by
  obtain ⟨source, edgeType, target⟩ := entry
  simp only [isLone, FsmEdge.isEpsilon, Bool.and_eq_true, beq_iff_eq] at lone
  obtain ⟨rfl, one⟩ := lone
  obtain ⟨edge, alone⟩ := List.length_eq_one_iff.mp one
  have among := mem_entries.mp found
  rw [alone, List.mem_singleton] at among
  rw [Lone, alone, ← among]

theorem isLone_of_lone {state next : Nat} (lone : fsm.Lone state next) :
    (state, ⟨.epsilon, next⟩) ∈ fsm.entries ∧ fsm.isLone (state, ⟨.epsilon, next⟩) = true := by
  rw [Lone] at lone
  constructor
  · exact mem_entries.mpr (by rw [lone]; exact List.mem_cons_self)
  · simp [isLone, lone, FsmEdge.isEpsilon]

theorem loneSteps : LoneSteps fsm.step fsm.Lone where
  silent lone := ⟨_, by rw [lone]; exact List.mem_cons_self, .epsilon, rfl⟩
  only lone taken := by
    obtain ⟨edge, found, carries, rfl⟩ := taken
    rw [lone, List.mem_singleton] at found
    subst found
    cases carries
    exact ⟨rfl, rfl⟩

end Fsm

namespace Fsm

variable {fsm : Fsm} {scan : EpsilonScan} {seen : List (Nat × FsmEdge)} {bound state : Nat} {degrees : List Nat}

/-- The edges but lone ones whose targets are among those. -/
def countInto (fsm : Fsm) (seen : List (Nat × FsmEdge)) (among : Nat → Bool) : Nat :=
  seen.countP fun entry => !fsm.isLone entry && among entry.2.target

/-- What the first loop has found in the edges seen. -/
structure Scanned (fsm : Fsm) (seen : List (Nat × FsmEdge)) (scan : EpsilonScan) : Prop where
  within : scan.sets.Within fsm.Lone
  joined : ∀ entry ∈ seen, fsm.isLone entry = true → scan.sets.contains entry.1 = true ∧
    scan.sets.contains entry.2.target = true ∧ scan.sets.find entry.1 = scan.sets.find entry.2.target
  length : scan.inDegree.length = fsm.numStates
  counted : ∀ state < fsm.numStates, scan.inDegree.getD state 0 = fsm.countInto seen (· == state)
  silent : ∀ edge ∈ scan.epsilonEdges, (edge.1, ⟨.epsilon, edge.2⟩) ∈ seen ∧ fsm.isLone (edge.1, ⟨.epsilon, edge.2⟩) = false

theorem countInto_concat (entry : Nat × FsmEdge) (among : Nat → Bool) : fsm.countInto (seen ++ [entry]) among =
    fsm.countInto seen among + if fsm.isLone entry = false ∧ among entry.2.target = true then 1 else 0 := by
  rw [countInto, List.countP_append, List.countP_singleton]
  simp [countInto]

theorem Scanned.scanEntry {entry : Nat × FsmEdge} (scanned : fsm.Scanned seen scan) (found : entry ∈ fsm.entries) :
    fsm.Scanned (seen ++ [entry]) (fsm.scanEntry scan entry) := by
  have counted : ∀ state < fsm.numStates, (scan.inDegree.modify entry.2.target (· + 1)).getD state 0 =
      fsm.countInto seen (· == state) + if entry.2.target = state then 1 else 0 := by
    intro state inside
    rw [getD_modify (scanned.length ▸ inside), scanned.counted state inside]
    split <;> rfl
  cases lone : fsm.isLone entry with
  | true =>
    rw [Fsm.scanEntry, if_pos lone]
    refine ⟨scanned.within.join (.rel _ _ (lone_of_isLone found lone)), ?_, ?_, ?_, ?_⟩
    · intro other among isLone
      rcases List.mem_append.mp among with old | new
      · obtain ⟨source, target, same⟩ := scanned.joined other old isLone
        simp [source, target, UnionFindSet.find_join_of_eq same]
      · cases List.mem_singleton.mp new
        exact ⟨by simp, by simp, UnionFindSet.find_join_self⟩
    · simp [scanned.length]
    · intro state inside
      rw [getD_modify (by rw [List.length_modify, scanned.length]; exact inside), counted state inside, countInto_concat, lone]
      split <;> simp [*]
    · intro edge among
      obtain ⟨old, busy⟩ := scanned.silent edge among
      exact ⟨List.mem_append_left _ old, busy⟩
  | false =>
    have joined : ∀ other ∈ seen ++ [entry], fsm.isLone other = true → scan.sets.contains other.1 = true ∧
        scan.sets.contains other.2.target = true ∧ scan.sets.find other.1 = scan.sets.find other.2.target := by
      intro other among isLone
      rcases List.mem_append.mp among with old | new
      · exact scanned.joined other old isLone
      · rw [List.mem_singleton.mp new, lone] at isLone
        cases isLone
    have concat : ∀ state < fsm.numStates, (scan.inDegree.modify entry.2.target (· + 1)).getD state 0 =
        fsm.countInto (seen ++ [entry]) (· == state) := by
      intro state inside
      rw [counted state inside, countInto_concat, lone]
      simp
    have silent : ∀ edge ∈ scan.epsilonEdges, (edge.1, ⟨.epsilon, edge.2⟩) ∈ seen ++ [entry] ∧
        fsm.isLone (edge.1, ⟨.epsilon, edge.2⟩) = false := by
      intro edge among
      obtain ⟨old, busy⟩ := scanned.silent edge among
      exact ⟨List.mem_append_left _ old, busy⟩
    rw [Fsm.scanEntry, if_neg (by simp [lone])]
    split
    · next isEpsilon =>
      refine ⟨scanned.within, joined, by simp [scanned.length], concat, fun edge among => ?_⟩
      rcases List.mem_append.mp among with old | new
      · exact silent edge old
      · cases List.mem_singleton.mp new
        obtain ⟨source, edgeType, target⟩ := entry
        cases beq_iff_eq.mp isEpsilon
        exact ⟨List.mem_append_right _ (List.mem_singleton.mpr rfl), lone⟩
    · exact ⟨scanned.within, joined, by simp [scanned.length], concat, silent⟩

theorem scanned_foldl {rest : List (Nat × FsmEdge)} (scanned : fsm.Scanned seen scan) (found : ∀ entry ∈ rest, entry ∈ fsm.entries) :
    fsm.Scanned (seen ++ rest) (rest.foldl fsm.scanEntry scan) := by
  induction rest generalizing seen scan with
  | nil => rwa [List.append_nil]
  | cons entry rest ih =>
    rw [List.foldl_cons, List.append_cons]
    exact ih (scanned.scanEntry (found entry List.mem_cons_self)) fun other among => found other (List.mem_cons_of_mem _ among)

theorem scanned_scanEpsilon : fsm.Scanned fsm.entries fsm.scanEpsilon := by
  have start : fsm.Scanned [] ⟨.empty, List.replicate fsm.numStates 0, []⟩ := by
    refine ⟨UnionFindSet.within_empty, by simp, by simp, fun state inside => ?_, by simp⟩
    simp [countInto, inside]
  exact scanned_foldl start fun entry among => among

theorem countInto_or {among others : Nat → Bool} (apart : ∀ state, among state = true → others state = false) :
    fsm.countInto seen (fun state => among state || others state) = fsm.countInto seen among + fsm.countInto seen others := by
  induction seen with
  | nil => rfl
  | cons entry seen ih =>
    have here := apart entry.2.target
    simp only [countInto, List.countP_cons] at ih ⊢
    rw [ih]
    cases fsm.isLone entry <;> cases first : among entry.2.target <;> cases second : others entry.2.target <;> simp_all <;> omega

/-- Counted at the state, once the states below the bound have been gathered at their roots. -/
def landed (sets : UnionFindSet) (bound state target : Nat) : Bool :=
  target == state || sets.find target == state && decide (target < bound)

theorem landed_zero {sets : UnionFindSet} : landed sets 0 state = (· == state) := by
  funext target
  simp [landed]

theorem landed_succ {sets : UnionFindSet} : landed sets (bound + 1) state =
    fun target => landed sets bound state target || sets.find bound == state && target == bound := by
  funext target
  by_cases here : target = bound
  · simp [landed, here]
  · have later : target < bound + 1 ↔ target < bound := by omega
    simp [landed, here, later]

/-- Nothing lands at a state that is not a root. -/
theorem landed_of_ne {sets : UnionFindSet} (below : sets.find state ≠ state) : landed sets bound state = (· == state) := by
  funext target
  have elsewhere : sets.find target ≠ state := by
    rintro rfl
    exact below UnionFindSet.find_find
  simp [landed, elsewhere]

/-- The counts, once the states below the bound have been gathered. -/
structure Gathered (fsm : Fsm) (seen : List (Nat × FsmEdge)) (sets : UnionFindSet) (bound : Nat) (degrees : List Nat) : Prop where
  length : degrees.length = fsm.numStates
  counted : ∀ state < fsm.numStates, degrees.getD state 0 = fsm.countInto seen (landed sets bound state)

theorem Gathered.step (gathered : fsm.Gathered seen scan.sets bound degrees) (inside : bound < fsm.numStates) :
    fsm.Gathered seen scan.sets (bound + 1) (scan.gatherState degrees bound) := by
  rw [EpsilonScan.gatherState]
  split
  · next isRoot =>
    refine ⟨gathered.length, fun state there => ?_⟩
    have kept : landed scan.sets (bound + 1) state = landed scan.sets bound state := by
      rw [landed_succ, isRoot]
      funext target
      by_cases same : target = bound <;> simp [landed, same]
    rw [gathered.counted state there, kept]
  · next below =>
    refine ⟨by rw [List.length_modify, gathered.length], fun state there => ?_⟩
    rw [getD_modify (gathered.length ▸ there), gathered.counted state there, gathered.counted bound inside, landed_of_ne below,
      landed_succ]
    split
    · next here =>
      subst here
      simp only [beq_self_eq_true, Bool.true_and]
      refine (countInto_or fun target among => ?_).symm
      rw [beq_eq_false_iff_ne]
      rintro rfl
      simp [landed, Ne.symm below] at among
    · next elsewhere =>
      simp only [beq_false_of_ne elsewhere, Bool.false_and, Bool.or_false]

theorem Scanned.gathered_range (scanned : fsm.Scanned seen scan) (below : bound ≤ fsm.numStates) :
    fsm.Gathered seen scan.sets bound ((List.range bound).foldl scan.gatherState scan.inDegree) := by
  induction bound with
  | zero => exact ⟨scanned.length, fun state inside => by rw [landed_zero]; exact scanned.counted state inside⟩
  | succ bound ih =>
    rw [List.range_succ, List.foldl_append, List.foldl_cons, List.foldl_nil]
    exact (ih (Nat.le_of_succ_le below)).step below

/-- A root has the count of its whole set. -/
theorem Scanned.gathered_eq (scanned : fsm.Scanned seen scan) (inRange : ∀ entry ∈ seen, entry.2.target < fsm.numStates)
    (isRoot : scan.sets.find state = state) (inside : state < fsm.numStates) :
    scan.gathered.getD state 0 = fsm.countInto seen (scan.sets.find · == state) := by
  have length : scan.inDegree.length = fsm.numStates := scanned.length
  rw [EpsilonScan.gathered, length, (scanned.gathered_range (Nat.le_refl _)).counted state inside]
  refine List.countP_congr fun entry among => ?_
  by_cases same : entry.2.target = state <;> simp [landed, same, isRoot, inRange entry among]

end Fsm

/-! ### The language -/

namespace RuleFsm

variable {machine : RuleFsm} {scan : EpsilonScan} {state next : Nat} {word : List Label}

/-- One set after the first loop. -/
theorem find_eq_of_lone (scanned : machine.fsm.Scanned machine.fsm.entries scan) (lone : machine.fsm.Lone state next) :
    scan.sets.contains state = true ∧ scan.sets.contains next = true ∧ scan.sets.find state = scan.sets.find next := by
  obtain ⟨listed, isLone⟩ := Fsm.isLone_of_lone lone
  exact scanned.joined _ listed isLone

theorem find_eq_of_meet (scanned : machine.fsm.Scanned machine.fsm.entries scan)
    (met : Relation.Join (Relation.ReflTransGen machine.fsm.Lone) state next) : scan.sets.find state = scan.sets.find next := by
  have along : ∀ {state next}, Relation.ReflTransGen machine.fsm.Lone state next → scan.sets.find state = scan.sets.find next := by
    intro state next goes
    induction goes with
    | refl => rfl
    | tail _ lone ih => exact ih.trans (find_eq_of_lone scanned lone).2.2
  obtain ⟨meet, goes, comes⟩ := met
  exact (along goes).trans (along comes).symm

theorem find_lt (scanned : machine.fsm.Scanned machine.fsm.entries scan) (inside : state < machine.fsm.numStates) :
    scan.sets.find state < machine.fsm.numStates := by
  have both : ∀ {state next}, Relation.EqvGen machine.fsm.Lone state next →
      (state < machine.fsm.numStates ↔ next < machine.fsm.numStates) := by
    intro state next joined
    induction joined with
    | rel state next lone =>
      have among := Fsm.mem_entries.mp (Fsm.isLone_of_lone lone).1
      simp [Fsm.lt_of_mem_edgesOf among, machine.wellFormed.targetInRange state _ among]
    | refl => rfl
    | symm _ _ _ ih => exact ih.symm
    | trans _ _ _ _ _ ih ih' => exact ih.trans ih'
  exact (both (scanned.within state)).mp inside

/-- The edge that the second loop joins is the only way into the target's set. -/
theorem onlyWay_of_gathered (scanned : machine.fsm.Scanned machine.fsm.entries scan)
    (listed : (state, ⟨.epsilon, next⟩) ∈ machine.fsm.entries) (busy : machine.fsm.isLone (state, ⟨.epsilon, next⟩) = false)
    (sole : scan.gathered.getD (scan.sets.find next) 0 = 1) (outside : scan.sets.find machine.start ≠ scan.sets.find next) :
    OnlyWay machine.fsm.step machine.fsm.Lone machine.start state next where
  silent := ⟨_, Fsm.mem_entries.mp listed, .epsilon, rfl⟩
  outside met := outside (find_eq_of_meet scanned met)
  entered := by
    rintro source letter target ⟨edge, found, carries, rfl⟩ met
    have entry := Fsm.mem_entries.mpr (show (source, edge).2 ∈ machine.fsm.edgesOf (source, edge).1 from found)
    cases lone : machine.fsm.isLone (source, edge) with
    | true => exact .inl (Fsm.lone_of_isLone entry lone)
    | false =>
      have inRange : ∀ entry ∈ machine.fsm.entries, entry.2.target < machine.fsm.numStates := fun entry among =>
        machine.wellFormed.targetInRange _ _ (Fsm.mem_entries.mp among)
      have one : machine.fsm.countInto machine.fsm.entries (scan.sets.find · == scan.sets.find next) = 1 := by
        rw [← scanned.gathered_eq inRange UnionFindSet.find_find (find_lt scanned (inRange _ listed)), sole]
      rw [Fsm.countInto, List.countP_eq_length_filter] at one
      obtain ⟨only, alone⟩ := List.length_eq_one_iff.mp one
      have here : (source, edge) ∈ [only] := by
        rw [← alone]
        simp [entry, lone, find_eq_of_meet scanned met]
      have joined : (state, ⟨.epsilon, next⟩) ∈ [only] := by
        rw [← alone]
        simp [listed, busy]
      cases (List.mem_singleton.mp here).trans (List.mem_singleton.mp joined).symm
      cases carries
      exact .inr ⟨rfl, rfl⟩

/-- What the two loops join. -/
def Joined (machine : RuleFsm) (state next : Nat) : Prop :=
  machine.fsm.Lone state next ∨ OnlyWay machine.fsm.step machine.fsm.Lone machine.start state next

theorem within_epsilonSets : machine.epsilonSets.Within machine.Joined := by
  have scanned := machine.fsm.scanned_scanEpsilon
  have lones : ∀ {state next}, Relation.EqvGen machine.fsm.Lone state next → Relation.EqvGen machine.Joined state next :=
    fun joined => joined.mono fun _ _ => .inl
  refine List.foldlRecOn _ _ (motive := fun sets : UnionFindSet => sets.Within machine.Joined) (fun element => lones (scanned.within element)) fun sets within edge among => ?_
  rw [FsmWithStartEnd.joinSole]
  split
  · next sole =>
    obtain ⟨listed, busy⟩ := scanned.silent edge among
    have way : Relation.EqvGen machine.Joined edge.1 edge.2 :=
      .rel _ _ (.inr (onlyWay_of_gathered scanned listed busy sole.1 sole.2))
    exact within.join (((lones (scanned.within edge.1)).symm.trans _ _ _ way).trans _ _ _ (lones (scanned.within edge.2)))
  · exact within

theorem epsilonSets_of_lone (lone : machine.fsm.Lone state next) : machine.epsilonSets.contains state = true ∧
    machine.epsilonSets.contains next = true ∧ machine.epsilonSets.find state = machine.epsilonSets.find next := by
  refine List.foldlRecOn _ _ (motive := fun sets : UnionFindSet => sets.contains state = true ∧ sets.contains next = true ∧
    sets.find state = sets.find next) (find_eq_of_lone machine.fsm.scanned_scanEpsilon lone) ?_
  rintro sets ⟨first, second, same⟩ edge -
  rw [FsmWithStartEnd.joinSole]
  split
  · simp [first, second, UnionFindSet.find_join_of_eq same]
  · exact ⟨first, second, same⟩

theorem awaited_iff_of_loud (loud : ∀ state next, ¬ machine.fsm.Lone state next) :
    Awaited machine.fsm.step machine.fsm.Lone machine.start word state ↔ Walk machine.fsm.step machine.start word state := by
  constructor
  · rintro ⟨meet, goes, walk⟩
    cases goes using Relation.ReflTransGen.head_induction_on with
    | refl => exact walk
    | head lone => exact absurd lone (loud _ _)
  · exact fun walk => ⟨state, .refl, walk⟩

/-- The simplified machine accepts the words that lead to where an accepting state goes on to by itself. -/
theorem mem_language_simplifyEpsilon : word ∈ machine.simplifyEpsilon.language ↔
    ∃ last, machine.isEndState last = true ∧ Awaited machine.fsm.step machine.fsm.Lone machine.start word last := by
  have plain (loud : ∀ state next, ¬ machine.fsm.Lone state next) : word ∈ machine.language ↔
      ∃ last, machine.isEndState last = true ∧ Awaited machine.fsm.step machine.fsm.Lone machine.start word last := by
    simp only [FsmWithStartEnd.mem_language_iff, awaited_iff_of_loud loud]
  rw [FsmWithStartEnd.simplifyEpsilon]
  split
  · next flagged =>
    refine plain fun state next lone => ?_
    exact (machine.flagged flagged state ⟨.epsilon, next⟩ (by rw [lone]; exact List.mem_cons_self)).1 rfl
  dsimp only
  split
  · next empty =>
    refine plain fun state next lone => ?_
    obtain ⟨states, listed, -⟩ := UnionFindSet.exists_mem_allSets (epsilonSets_of_lone lone).1
    rw [List.isEmpty_iff.mp empty] at listed
    cases listed
  · generalize slotsOf : (List.range machine.numStates).map (UnionFindSet.classIndex machine.epsilonSets.allSets) = slots
    have slot : ∀ {state}, state < machine.numStates → slots[state]? = some (UnionFindSet.classIndex machine.epsilonSets.allSets state) := by
      intro state inside
      rw [← slotsOf, List.getElem?_map, List.getElem?_range inside, Option.map_some]
    have length : slots.length = machine.numStates := by simp [← slotsOf]
    have below : ∀ index, some index ∈ slots → index < machine.epsilonSets.allSets.length := by
      intro index listed
      rw [← slotsOf] at listed
      obtain ⟨state, -, found⟩ := List.mem_map.mp listed
      exact (List.findIdx?_eq_some_iff_getElem.mp found).1
    rw [mem_language_rebuild fun state inside => numberStates_lt below (length ▸ inside)]
    refine exists_congr fun last => and_congr_right fun accepting => ?_
    refine walk_jumping_iff_awaited (· < machine.numStates) machine.fsm.loneSteps ?_ ?_ ?_ machine.startInRange
      (machine.isEndState_lt accepting)
    · rintro state letter next ⟨edge, found, -, rfl⟩
      exact ⟨Fsm.lt_of_mem_edgesOf found, machine.wellFormed.targetInRange state edge found⟩
    · intro state next lone
      obtain ⟨first, second, same⟩ := epsilonSets_of_lone lone
      obtain ⟨index, -, found⟩ := UnionFindSet.classIndex_of_contains first
      have there : next < machine.numStates := machine.wellFormed.step_lt (machine.fsm.loneSteps.silent lone)
      have here : state < machine.numStates := Fsm.lt_of_mem_edgesOf (Fsm.mem_entries.mp (Fsm.isLone_of_lone lone).1)
      rw [numberStates_some ((slot here).trans (congrArg some found)),
        numberStates_some ((slot there).trans (congrArg some ((UnionFindSet.classIndex_eq first second same).symm.trans found)))]
    · intro state next here there same
      rcases eq_of_numberStates_eq below (length ▸ here) (length ▸ there) same with rfl | ⟨index, found, found'⟩
      · exact .refl _
      · rw [slot here, Option.some.injEq] at found
        rw [slot there, Option.some.injEq] at found'
        exact within_epsilonSets.of_find_eq (UnionFindSet.find_eq_of_classIndex found found')

theorem mem_simplifyEpsilon_of_mem (accepted : word ∈ machine.language) : word ∈ machine.simplifyEpsilon.language := by
  obtain ⟨last, accepting, walk⟩ := FsmWithStartEnd.mem_language_iff.mp accepted
  exact mem_language_simplifyEpsilon.mpr ⟨last, accepting, last, .refl, walk⟩

theorem isEndState_meet (kept : ∀ state next, machine.fsm.Lone state next → machine.isEndState state = true →
    machine.isEndState next = true) (goes : Relation.ReflTransGen machine.fsm.Lone state next)
    (accepting : machine.isEndState state = true) : machine.isEndState next = true := by
  induction goes with
  | refl => exact accepting
  | tail _ lone ih => exact kept _ _ lone ih

/-- The pass loses no word, and adds none where no accepting state is left by itself for one that is not. -/
theorem simplifyEpsilon_language (machine : RuleFsm) :
    (∀ word, word ∈ machine.simplifyEpsilon.language ↔
      ∃ last, machine.isEndState last = true ∧ Awaited machine.fsm.step machine.fsm.Lone machine.start word last) ∧
    (∀ word ∈ machine.language, word ∈ machine.simplifyEpsilon.language) ∧
    ((∀ state next, machine.fsm.Lone state next → machine.isEndState state = true → machine.isEndState next = true) →
      machine.simplifyEpsilon.language = machine.language) := by
  refine ⟨fun word => mem_language_simplifyEpsilon, fun word => mem_simplifyEpsilon_of_mem, fun kept => ?_⟩
  ext word
  constructor
  · intro accepted
    obtain ⟨last, accepting, meet, goes, walk⟩ := mem_language_simplifyEpsilon.mp accepted
    exact FsmWithStartEnd.mem_language_iff.mpr ⟨meet, isEndState_meet kept goes accepting, walk⟩
  · exact mem_simplifyEpsilon_of_mem

end RuleFsm

end Metrale.Grammar
