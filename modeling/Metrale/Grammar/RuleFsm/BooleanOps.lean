import Metrale.Grammar.RuleFsm.Minimize

/-! # Complement and intersection (`fsm/dfa_ops.rs`)

The complement gives every state edges to a sink for the bytes that it does not read.  The sink accepts, and has no edges:
a string is accepted there when its last byte is the first that cannot be read. -/

namespace Metrale.Grammar

open Metrale.Foundation

namespace Fsm

/-- `char_set`: whether a state reads a byte. -/
def charSet (fsm : Fsm) (state byte : Nat) : Bool := (fsm.edgesOf state).any fun edge =>
  FsmWithStartEnd.coversInterval byte byte edge.edgeType

end Fsm

/-- The first byte from `right` on that is read, or 256. -/
def gapEnd (charSet : Nat → Bool) : Nat → Nat → Nat
  | 0, right => right
  | fuel + 1, right => if right < 256 ∧ charSet right = false then gapEnd charSet fuel (right + 1) else right

/-- The stretches of bytes from `left` on that are not read. -/
def gaps (charSet : Nat → Bool) : Nat → Nat → List (Nat × Nat)
  | 0, _ => []
  | fuel + 1, left =>
    if left < 256 then
      if charSet left then gaps charSet fuel (left + 1)
      else
        let right := gapEnd charSet 256 (left + 1)
        (left, right - 1) :: gaps charSet fuel right
    else []

namespace Fsm

def addGaps (acceptAll : Nat) (fsm : Fsm) (state : Nat) : Fsm :=
  (gaps (fsm.charSet state) 256 0).foldl (fun fsm gap => fsm.addEdge state acceptAll (.charRange gap.1 gap.2)) fsm

end Fsm

namespace FsmWithStartEnd

def completed (machine : FsmWithStartEnd) : FsmWithStartEnd :=
  ⟨(List.range machine.numStates).foldl (Fsm.addGaps machine.numStates) machine.fsm.addState.1, machine.start,
    (List.range machine.numStates).map (fun state => !machine.isEndState state) ++ [true], machine.isDfa⟩

def not (machine : FsmWithStartEnd) (order : Nat → HashOrder Nat) (maxResultNumStates : Nat) : Except String FsmWithStartEnd :=
  if machine.isLeaf = false then .error "Not operation is not supported for FSM with rule references."
  else do
    let result ← if machine.isDfa then pure machine else machine.toDfa order maxResultNumStates
    pure result.completed

def productEdges (left right : FsmWithStartEnd) (pair : Nat × Nat) : List (EdgeType × (Nat × Nat)) :=
  (left.fsm.edgesOf pair.1).flatMap fun leftEdge => (right.fsm.edgesOf pair.2).filterMap fun rightEdge =>
    match leftEdge.edgeType, rightEdge.edgeType with
    | .charRange leftMin leftMax, .charRange rightMin rightMax =>
      if leftMin > rightMax ∨ rightMin > leftMax then none
      else some (.charRange (max leftMin rightMin) (min leftMax rightMax), (leftEdge.target, rightEdge.target))
    | _, _ => none

def pairs (left right : FsmWithStartEnd) : Numbering (Nat × Nat) EdgeType :=
  explore (fun _ pair => productEdges left right pair) (left.numStates * right.numStates) ⟨[(left.start, right.start)], []⟩

def product (left right : FsmWithStartEnd) : FsmWithStartEnd :=
  let found := pairs left right
  ⟨⟨found.rows.map (·.map fun cell => ⟨cell.1, cell.2⟩), []⟩, 0,
    found.keys.map fun pair => left.isEndState pair.1 && right.isEndState pair.2, true⟩

def intersect (left right : FsmWithStartEnd) (leftOrder rightOrder : Nat → HashOrder Nat) : Except String FsmWithStartEnd :=
  if left.isLeaf = false ∨ right.isLeaf = false then .error "Intersect only support leaf fsm!"
  else do
    let leftDfa ← left.toDfa leftOrder defaultMaxStates
    let rightDfa ← right.toDfa rightOrder defaultMaxStates
    pure (product leftDfa rightDfa)

end FsmWithStartEnd

/-! ## The bytes that a state does not read -/

section Gaps

variable {charSet : Nat → Bool} {fuel left right byte : Nat}

theorem le_gapEnd : right ≤ gapEnd charSet fuel right := by
  induction fuel generalizing right with
  | zero => exact Nat.le_refl _
  | succ fuel ih =>
    rw [gapEnd]
    split
    · exact (Nat.le_succ right).trans ih
    · exact Nat.le_refl _

theorem gapEnd_le (inside : right ≤ 256) : gapEnd charSet fuel right ≤ 256 := by
  induction fuel generalizing right with
  | zero => exact inside
  | succ fuel ih =>
    rw [gapEnd]
    split
    · next more => exact ih more.1
    · exact inside

theorem gapEnd_spec (charSet : Nat → Bool) (fuel right : Nat) (enough : 256 ≤ fuel + right) :
    (∀ byte, right ≤ byte → byte < gapEnd charSet fuel right → charSet byte = false) ∧
      (gapEnd charSet fuel right < 256 → charSet (gapEnd charSet fuel right) = true) := by
  induction fuel generalizing right with
  | zero =>
    rw [gapEnd]
    exact ⟨fun byte above below => by omega, fun below => by omega⟩
  | succ fuel ih =>
    rw [gapEnd]
    split
    · next more =>
      obtain ⟨unread, stops⟩ := ih (right + 1) (by omega)
      refine ⟨fun byte above below => ?_, stops⟩
      by_cases here : byte = right
      · exact here ▸ more.2
      · exact unread byte (by omega) below
    · next stop =>
      refine ⟨fun byte above below => by omega, fun below => ?_⟩
      by_contra unread
      exact stop ⟨below, by simpa using unread⟩

theorem gap_bounds {gap : Nat × Nat} (found : gap ∈ gaps charSet fuel left) : left ≤ gap.1 ∧ gap.1 ≤ gap.2 ∧ gap.2 < 256 := by
  induction fuel generalizing left with
  | zero => cases found
  | succ fuel ih =>
    rw [gaps] at found
    split at found
    · next inside =>
      split at found
      · have later := ih found
        omega
      · have after : left + 1 ≤ gapEnd charSet 256 (left + 1) := le_gapEnd
        have before : gapEnd charSet 256 (left + 1) ≤ 256 := gapEnd_le inside
        rcases List.mem_cons.mp found with rfl | found
        · dsimp only
          omega
        · have later := ih found
          omega
    · cases found

theorem exists_gap_iff (inside : byte < 256) (after : left ≤ byte) (enough : 256 ≤ fuel + left) :
    (∃ gap ∈ gaps charSet fuel left, gap.1 ≤ byte ∧ byte ≤ gap.2) ↔ charSet byte = false := by
  induction fuel generalizing left with
  | zero => omega
  | succ fuel ih =>
    rw [gaps, if_pos (by omega)]
    split
    · next read =>
      by_cases here : byte = left
      · subst here
        simp only [read, Bool.true_eq_false, iff_false]
        rintro ⟨gap, found, above, _⟩
        have later := gap_bounds found
        omega
      · exact ih (by omega) (by omega)
    · next unread =>
      have known := gapEnd_spec charSet 256 (left + 1) (by omega)
      have start : left + 1 ≤ gapEnd charSet 256 (left + 1) := le_gapEnd
      simp only [List.mem_cons, exists_eq_or_imp]
      by_cases within : byte < gapEnd charSet 256 (left + 1)
      · have free : charSet byte = false := by
          by_cases here : byte = left
          · simpa [here] using unread
          · exact known.1 byte (by omega) within
        simp only [free, iff_true]
        exact .inl ⟨after, by omega⟩
      · have rest : (∃ gap ∈ gaps charSet fuel (gapEnd charSet 256 (left + 1)), gap.1 ≤ byte ∧ byte ≤ gap.2) ↔
            charSet byte = false := ih (by omega) (by omega)
        rw [← rest]
        constructor
        · rintro (⟨_, below⟩ | later)
          · omega
          · exact later
        · exact .inr

theorem gap_unique {first second : Nat × Nat} (foundFirst : first ∈ gaps charSet fuel left) (foundSecond : second ∈ gaps charSet fuel left)
    (inFirst : first.1 ≤ byte ∧ byte ≤ first.2) (inSecond : second.1 ≤ byte ∧ byte ≤ second.2) : first = second := by
  induction fuel generalizing left with
  | zero => cases foundFirst
  | succ fuel ih =>
    rw [gaps] at foundFirst foundSecond
    split at foundFirst
    · next inside =>
      rw [if_pos inside] at foundSecond
      split at foundFirst
      · next read =>
        rw [if_pos read] at foundSecond
        exact ih foundFirst foundSecond
      · next unread =>
        rw [if_neg unread] at foundSecond
        have start : left + 1 ≤ gapEnd charSet 256 (left + 1) := le_gapEnd
        rcases List.mem_cons.mp foundFirst with rfl | laterFirst
        · rcases List.mem_cons.mp foundSecond with rfl | laterSecond
          · rfl
          · have later := gap_bounds laterSecond
            omega
        · rcases List.mem_cons.mp foundSecond with rfl | laterSecond
          · have later := gap_bounds laterFirst
            omega
          · exact ih laterFirst laterSecond
    · cases foundFirst

end Gaps

namespace Fsm

variable {fsm : Fsm} {state source acceptAll next : Nat} {edge : FsmEdge} {byte : UInt8}

theorem charSet_iff : fsm.charSet state byte.toNat = true ↔ ∃ next, next ∈ fsm.step state (some (.byte byte)) := by
  rw [charSet, List.any_eq_true]
  constructor
  · rintro ⟨edge, found, covers⟩
    refine ⟨edge.target, edge, found, ?_, rfl⟩
    generalize edge.edgeType = edgeType at covers
    cases edgeType with
    | charRange min max =>
      simp only [FsmWithStartEnd.coversInterval, Bool.and_eq_true, decide_eq_true_eq] at covers
      exact .charRange covers.1 covers.2
    | epsilon | ruleRef | eos | repeatRef => cases covers
  · rintro ⟨_, edge, found, carries, _⟩
    refine ⟨edge, found, ?_⟩
    generalize edge.edgeType = edgeType at carries
    cases carries with
    | charRange above below => simp [FsmWithStartEnd.coversInterval, above, below]

theorem mem_edgesOf_foldl_addEdge (entries : List (Nat × Nat)) :
    edge ∈ (entries.foldl (fun fsm gap => fsm.addEdge source acceptAll (.charRange gap.1 gap.2)) fsm).edgesOf state ↔
      edge ∈ fsm.edgesOf state ∨
        state = source ∧ source < fsm.numStates ∧ ∃ gap ∈ entries, edge = ⟨.charRange gap.1 gap.2, acceptAll⟩ := by
  induction entries generalizing fsm with
  | nil => simp
  | cons entry entries ih =>
    rw [List.foldl_cons, ih, mem_edgesOf_addEdge, numStates_addEdge]
    simp only [List.mem_cons, exists_eq_or_imp, and_or_left, or_assoc]

@[simp]
theorem numStates_addGaps : (fsm.addGaps acceptAll source).numStates = fsm.numStates := by
  have general : ∀ (entries : List (Nat × Nat)) (fsm : Fsm),
      (entries.foldl (fun fsm gap => fsm.addEdge source acceptAll (.charRange gap.1 gap.2)) fsm).numStates = fsm.numStates := by
    intro entries
    induction entries with
    | nil => simp
    | cons entry entries ih => simp [ih]
  exact general _ _

@[simp]
theorem edgeAuxData_addGaps : (fsm.addGaps acceptAll source).edgeAuxData = fsm.edgeAuxData := by
  have general : ∀ (entries : List (Nat × Nat)) (fsm : Fsm),
      (entries.foldl (fun fsm gap => fsm.addEdge source acceptAll (.charRange gap.1 gap.2)) fsm).edgeAuxData = fsm.edgeAuxData := by
    intro entries
    induction entries with
    | nil => simp
    | cons entry entries ih =>
      intro fsm
      rw [List.foldl_cons, ih, addEdge]
  exact general _ _

theorem mem_edgesOf_addGaps : edge ∈ (fsm.addGaps acceptAll source).edgesOf state ↔
    edge ∈ fsm.edgesOf state ∨ state = source ∧ source < fsm.numStates ∧
      ∃ gap ∈ gaps (fsm.charSet source) 256 0, edge = ⟨.charRange gap.1 gap.2, acceptAll⟩ :=
  mem_edgesOf_foldl_addEdge _

theorem charSet_addGaps (other : state ≠ source) : (fsm.addGaps acceptAll source).charSet state = fsm.charSet state := by
  funext byte
  rw [Bool.eq_iff_iff, charSet, charSet, List.any_eq_true, List.any_eq_true]
  simp [mem_edgesOf_addGaps, other]

theorem mem_edgesOf_foldl_addGaps (states : List Nat) (nodup : states.Nodup) :
    edge ∈ (states.foldl (addGaps acceptAll) fsm).edgesOf state ↔
      edge ∈ fsm.edgesOf state ∨ state ∈ states ∧ state < fsm.numStates ∧
        ∃ gap ∈ gaps (fsm.charSet state) 256 0, edge = ⟨.charRange gap.1 gap.2, acceptAll⟩ := by
  induction states generalizing fsm with
  | nil => simp
  | cons source states ih =>
    obtain ⟨fresh, rest⟩ := List.nodup_cons.mp nodup
    rw [List.foldl_cons, ih rest, mem_edgesOf_addGaps, numStates_addGaps, List.mem_cons]
    by_cases here : state = source
    · subst here
      simp [fresh]
    · rw [charSet_addGaps here]
      simp [here]

@[simp]
theorem numStates_foldl_addGaps (states : List Nat) : (states.foldl (addGaps acceptAll) fsm).numStates = fsm.numStates := by
  induction states generalizing fsm with
  | nil => simp
  | cons source states ih => simp [ih]

@[simp]
theorem edgeAuxData_foldl_addGaps (states : List Nat) : (states.foldl (addGaps acceptAll) fsm).edgeAuxData = fsm.edgeAuxData := by
  induction states generalizing fsm with
  | nil => simp
  | cons source states ih => simp [ih]

end Fsm

/-! ## The complement -/

namespace RuleFsm

variable {machine : RuleFsm} {state next last : Nat} {edge : FsmEdge} {byte : UInt8} {bytes : List UInt8} {label : Option Label}

def OverBytes (machine : RuleFsm) : Prop :=
  ∀ state, ∀ edge ∈ machine.fsm.edgesOf state, edge.edgeType = .epsilon ∨ ∃ min max, edge.edgeType = .charRange min max

theorem OverBytes.overBytesAndRules (onBytes : machine.OverBytes) : machine.OverBytesAndRules := by
  intro state edge found
  rcases onBytes state edge found with shape | ⟨min, max, shape⟩
  · simp [shape]
  · simp [shape]

theorem OverBytes.isLeaf (onBytes : machine.OverBytes) : machine.isLeaf = true := by
  rw [FsmWithStartEnd.isLeaf, decide_eq_true_eq]
  intro state _
  rw [List.all_eq_true]
  intro edge found
  rcases onBytes state edge found with shape | ⟨min, max, shape⟩
  · simp [FsmEdge.isRuleRef, FsmEdge.isRepeatRef, shape]
  · simp [FsmEdge.isRuleRef, FsmEdge.isRepeatRef, shape]

theorem mem_edgesOf_completed : edge ∈ machine.completed.fsm.edgesOf state ↔
    edge ∈ machine.fsm.edgesOf state ∨ state < machine.numStates ∧
      ∃ gap ∈ gaps (machine.fsm.charSet state) 256 0, edge = ⟨.charRange gap.1 gap.2, machine.numStates⟩ := by
  have same : machine.fsm.addState.1.charSet state = machine.fsm.charSet state := by
    funext byte
    rw [Fsm.charSet, Fsm.charSet, Fsm.edgesOf_addState]
  rw [FsmWithStartEnd.completed, Fsm.mem_edgesOf_foldl_addGaps _ List.nodup_range, Fsm.edgesOf_addState, same, Fsm.numStates_addState,
    List.mem_range]
  constructor
  · rintro (old | ⟨inside, _, gap⟩)
    · exact .inl old
    · exact .inr ⟨inside, gap⟩
  · rintro (old | ⟨inside, gap⟩)
    · exact .inl old
    · exact .inr ⟨inside, Nat.lt_succ_of_lt inside, gap⟩

@[simp]
theorem numStates_completed : machine.completed.fsm.numStates = machine.numStates + 1 := by
  rw [FsmWithStartEnd.completed, Fsm.numStates_foldl_addGaps, Fsm.numStates_addState]
  rfl

theorem mem_step_completed (inside : state < machine.numStates) : next ∈ machine.completed.fsm.step state (some (.byte byte)) ↔
    next ∈ machine.fsm.step state (some (.byte byte)) ∨
      next = machine.numStates ∧ ∀ target, target ∉ machine.fsm.step state (some (.byte byte)) := by
  have aux : machine.completed.fsm.edgeAuxData = machine.fsm.edgeAuxData := by
    rw [FsmWithStartEnd.completed, Fsm.edgeAuxData_foldl_addGaps]
    rfl
  have unread : (∃ gap ∈ gaps (machine.fsm.charSet state) 256 0, gap.1 ≤ byte.toNat ∧ byte.toNat ≤ gap.2) ↔
      ∀ target, target ∉ machine.fsm.step state (some (.byte byte)) := by
    rw [exists_gap_iff byte.toNat_lt (Nat.zero_le _) (by simp), ← Bool.not_eq_true, Fsm.charSet_iff, not_exists]
  rw [← unread]
  constructor
  · rintro ⟨edge, found, carries, rfl⟩
    rw [aux] at carries
    rcases mem_edgesOf_completed.mp found with old | ⟨_, gap, among, rfl⟩
    · exact .inl ⟨edge, old, carries, rfl⟩
    · cases carries with
      | charRange above below => exact .inr ⟨rfl, gap, among, above, below⟩
  · rintro (⟨edge, found, carries, rfl⟩ | ⟨rfl, gap, among, above, below⟩)
    · exact ⟨edge, mem_edgesOf_completed.mpr (.inl found), aux ▸ carries, rfl⟩
    · exact ⟨⟨.charRange gap.1 gap.2, machine.numStates⟩, mem_edgesOf_completed.mpr (.inr ⟨inside, gap, among, rfl⟩),
        .charRange above below, rfl⟩

theorem isEndState_completed : machine.completed.isEndState state = true ↔
    state = machine.numStates ∨ state < machine.numStates ∧ machine.isEndState state = false := by
  simp only [FsmWithStartEnd.isEndState, FsmWithStartEnd.completed, List.getD_eq_getElem?_getD]
  rcases Nat.lt_trichotomy state machine.numStates with inside | here | beyond
  · rw [List.getElem?_append_left (by simpa using inside)]
    simp [inside, Nat.ne_of_lt inside]
  · subst here
    simp
  · rw [List.getElem?_eq_none (by simp; omega)]
    simp [Nat.ne_of_gt beyond, Nat.not_lt.mpr (Nat.le_of_lt beyond)]

/-! ### What the complement reads -/

theorem loud_of_deterministic (deterministic : machine.fsm.Deterministic) (state next : Nat) : next ∉ machine.fsm.step state none := by
  rintro ⟨edge, found, carries, _⟩
  have loud := (deterministic state edge found).1
  generalize edge.edgeType = edgeType at carries loud
  cases carries
  exact loud rfl

theorem loud_completed (deterministic : machine.fsm.Deterministic) (state next : Nat) :
    next ∉ machine.completed.fsm.step state none := by
  rintro ⟨edge, found, carries, _⟩
  rcases mem_edgesOf_completed.mp found with old | ⟨_, gap, _, rfl⟩
  · have loud := (deterministic state edge old).1
    generalize edge.edgeType = edgeType at carries loud
    cases carries
    exact loud rfl
  · cases carries

theorem step_unique (deterministic : machine.fsm.Deterministic) (first : next ∈ machine.fsm.step state (some (.byte byte)))
    (second : last ∈ machine.fsm.step state (some (.byte byte))) : next = last := by
  obtain ⟨edge, found, carries, rfl⟩ := first
  obtain ⟨other, foundOther, carriesOther, rfl⟩ := second
  rw [(deterministic state edge found).2 other foundOther (.byte byte) trivial carries carriesOther]

theorem walk_unique (deterministic : machine.fsm.Deterministic) (first : Walk machine.fsm.step machine.start (bytes.map .byte) next)
    (second : Walk machine.fsm.step machine.start (bytes.map .byte) last) : next = last := by
  induction bytes using List.reverseRecOn generalizing next last with
  | nil =>
    rw [List.map_nil, Walk.nil_iff_of_loud (loud_of_deterministic deterministic)] at first second
    exact first.symm.trans second
  | append_singleton bytes byte ih =>
    rw [List.map_append, List.map_singleton, Walk.concat_iff_of_loud (loud_of_deterministic deterministic)] at first second
    obtain ⟨source, before, taken⟩ := first
    obtain ⟨other, beforeOther, takenOther⟩ := second
    cases ih before beforeOther
    exact step_unique deterministic taken takenOther

theorem walk_completed_iff (deterministic : machine.fsm.Deterministic) :
    Walk machine.completed.fsm.step machine.start (bytes.map .byte) last ↔
      last < machine.numStates ∧ Walk machine.fsm.step machine.start (bytes.map .byte) last ∨
        last = machine.numStates ∧ ∃ before byte source, bytes = before ++ [byte] ∧
          Walk machine.fsm.step machine.start (before.map .byte) source ∧ ∀ target, target ∉ machine.fsm.step source (some (.byte byte)) := by
  have loud := loud_of_deterministic deterministic
  induction bytes using List.reverseRecOn generalizing last with
  | nil =>
    rw [List.map_nil, Walk.nil_iff_of_loud (loud_completed deterministic), Walk.nil_iff_of_loud loud]
    constructor
    · rintro rfl
      exact .inl ⟨machine.startInRange, rfl⟩
    · rintro (⟨_, same⟩ | ⟨_, before, byte, _, absurd, _⟩)
      · exact same
      · simp at absurd
  | append_singleton bytes byte ih =>
    rw [List.map_append, List.map_singleton, Walk.concat_iff_of_loud (loud_completed deterministic), Walk.concat_iff_of_loud loud]
    constructor
    · rintro ⟨source, before, taken⟩
      rcases ih.mp before with ⟨inside, walk⟩ | ⟨rfl, _⟩
      · rcases (mem_step_completed inside).mp taken with read | ⟨here, unread⟩
        · exact .inl ⟨machine.wellFormed.step_lt read, source, walk, read⟩
        · exact .inr ⟨here, bytes, byte, source, rfl, walk, unread⟩
      · -- nothing leaves the sink
        obtain ⟨edge, found, _⟩ := taken
        rcases mem_edgesOf_completed.mp found with old | ⟨absurd, _⟩
        · exact absurd (Fsm.lt_of_mem_edgesOf old) (Nat.lt_irrefl _)
        · exact (Nat.lt_irrefl _ absurd).elim
    · rintro (⟨inside, source, walk, read⟩ | ⟨rfl, before, letter, source, same, walk, unread⟩)
      · have there := machine.wellFormed.walk_lt walk machine.startInRange
        exact ⟨source, ih.mpr (.inl ⟨there, walk⟩), (mem_step_completed there).mpr (.inl read)⟩
      · obtain ⟨rfl, letters⟩ := List.append_inj' same rfl
        cases letters
        have there := machine.wellFormed.walk_lt walk machine.startInRange
        exact ⟨source, ih.mpr (.inl ⟨there, walk⟩), (mem_step_completed there).mpr (.inr ⟨rfl, unread⟩)⟩

def Reads (machine : RuleFsm) (bytes : List UInt8) : Prop := ∃ state, Walk machine.fsm.step machine.start (bytes.map .byte) state

/-- The complement of a deterministic machine is right for what can be read but for the last byte. -/
theorem mem_language_completed (deterministic : machine.fsm.Deterministic) :
    (bytes.map .byte ∈ machine.completed.language ↔ bytes.map .byte ∉ machine.language) ↔ machine.Reads bytes.dropLast := by
  have start : machine.completed.start = machine.start := rfl
  have reads_dropLast : machine.Reads bytes → machine.Reads bytes.dropLast := by
    rintro ⟨state, walk⟩
    rcases List.eq_nil_or_concat bytes with rfl | ⟨before, byte, rfl⟩
    · exact ⟨state, walk⟩
    · rw [List.concat_eq_append, List.map_append] at walk
      obtain ⟨source, first, _⟩ := walk.split
      exact ⟨source, by simpa using first⟩
  rw [FsmWithStartEnd.mem_language_iff, FsmWithStartEnd.mem_language_iff, start]
  by_cases readable : machine.Reads bytes
  · obtain ⟨state, walk⟩ := readable
    refine iff_of_true ?_ (reads_dropLast ⟨state, walk⟩)
    constructor
    · rintro ⟨last, accepting, reached⟩ ⟨other, ends, walkOther⟩
      rcases (walk_completed_iff deterministic).mp reached with ⟨inside, walkLast⟩ | ⟨_, before, byte, source, rfl, first, unread⟩
      · cases walk_unique deterministic walkLast walkOther
        rcases isEndState_completed.mp accepting with here | ⟨_, rejecting⟩
        · exact Nat.ne_of_lt inside here
        · rw [ends] at rejecting
          cases rejecting
      · rw [List.map_append, List.map_singleton, Walk.concat_iff_of_loud (loud_of_deterministic deterministic)] at walk
        obtain ⟨other, walkOther, taken⟩ := walk
        cases walk_unique deterministic first walkOther
        exact unread state taken
    · intro rejected
      have inside := machine.wellFormed.walk_lt walk machine.startInRange
      have rejecting : machine.isEndState state = false := by
        by_contra accepting
        exact rejected ⟨state, by simpa using accepting, walk⟩
      exact ⟨state, isEndState_completed.mpr (.inr ⟨inside, rejecting⟩), (walk_completed_iff deterministic).mpr (.inl ⟨inside, walk⟩)⟩
  · have rejected : ¬ ∃ last, machine.isEndState last = true ∧ Walk machine.fsm.step machine.start (bytes.map .byte) last := by
      rintro ⟨last, _, walk⟩
      exact readable ⟨last, walk⟩
    simp only [rejected, not_false_eq_true, iff_true]
    constructor
    · rintro ⟨last, _, reached⟩
      rcases (walk_completed_iff deterministic).mp reached with ⟨_, walk⟩ | ⟨_, before, byte, source, rfl, first, _⟩
      · exact absurd ⟨last, walk⟩ readable
      · exact ⟨source, by simpa using first⟩
    · rintro ⟨source, first⟩
      rcases List.eq_nil_or_concat bytes with rfl | ⟨before, byte, rfl⟩
      · exact absurd ⟨source, first⟩ readable
      · rw [List.concat_eq_append, List.dropLast_concat] at first
        rw [List.concat_eq_append] at readable ⊢
        refine ⟨machine.numStates, isEndState_completed.mpr (.inl rfl), (walk_completed_iff deterministic).mpr
          (.inr ⟨rfl, before, byte, source, rfl, first, fun target taken => readable ⟨target, ?_⟩⟩)⟩
        simpa using first.concat taken

theorem deterministic_completed (deterministic : machine.fsm.Deterministic) : machine.completed.fsm.Deterministic := by
  have aux : machine.completed.fsm.edgeAuxData = machine.fsm.edgeAuxData := by
    rw [FsmWithStartEnd.completed, Fsm.edgeAuxData_foldl_addGaps]
    rfl
  have unread : ∀ {state gap}, gap ∈ gaps (machine.fsm.charSet state) 256 0 → ∀ {byte : UInt8}, gap.1 ≤ byte.toNat → byte.toNat ≤ gap.2 →
      ∀ edge ∈ machine.fsm.edgesOf state, ¬ edge.edgeType.Carries machine.fsm.edgeAuxData (some (.byte byte)) := by
    intro state gap among byte above below edge found carries
    have free := (exists_gap_iff byte.toNat_lt (Nat.zero_le _) (by simp)).mp ⟨gap, among, above, below⟩
    rw [Fsm.charSet_iff.mpr ⟨edge.target, edge, found, carries, rfl⟩] at free
    cases free
  intro state first found
  constructor
  · rcases mem_edgesOf_completed.mp found with old | ⟨_, gap, _, rfl⟩
    · exact (deterministic state first old).1
    · simp
  · intro second foundSecond label plain carries carriesSecond
    rw [aux] at carries carriesSecond
    rcases mem_edgesOf_completed.mp found with old | ⟨_, gap, among, rfl⟩
    · rcases mem_edgesOf_completed.mp foundSecond with oldSecond | ⟨_, gap, among, rfl⟩
      · exact (deterministic state first old).2 second oldSecond label plain carries carriesSecond
      · cases carriesSecond with
        | charRange above below => exact absurd carries (unread among above below first old)
    · cases carries with
      | charRange above below =>
        rcases mem_edgesOf_completed.mp foundSecond with oldSecond | ⟨_, gapSecond, amongSecond, rfl⟩
        · exact absurd carriesSecond (unread among above below second oldSecond)
        · cases carriesSecond with
          | charRange aboveSecond belowSecond =>
            rw [gap_unique among amongSecond ⟨above, below⟩ ⟨aboveSecond, belowSecond⟩]

def complement (machine : RuleFsm) (deterministic : machine.fsm.Deterministic) : RuleFsm where
  toFsmWithStartEnd := machine.completed
  wellFormed := by
    have aux : machine.completed.fsm.edgeAuxData = machine.fsm.edgeAuxData := by
      rw [FsmWithStartEnd.completed, Fsm.edgeAuxData_foldl_addGaps]
      rfl
    constructor
    · intro state edge found
      rw [numStates_completed]
      rcases mem_edgesOf_completed.mp found with old | ⟨_, gap, _, rfl⟩
      · exact Nat.lt_succ_of_lt (machine.wellFormed.targetInRange state edge old)
      · exact Nat.lt_succ_self _
    · intro state edge found min max shape
      rcases mem_edgesOf_completed.mp found with old | ⟨_, gap, among, rfl⟩
      · exact machine.wellFormed.rangeInBytes state edge old min max shape
      · obtain ⟨_, ordered, small⟩ := gap_bounds among
        cases shape
        omega
    · intro state edge found auxIndex shape
      rw [aux]
      rcases mem_edgesOf_completed.mp found with old | ⟨_, gap, among, rfl⟩
      · exact machine.wellFormed.auxInRange state edge old auxIndex shape
      · cases shape
    · rw [aux]
      exact machine.wellFormed.auxShort
  startInRange := by
    rw [numStates_completed]
    exact Nat.lt_succ_of_lt machine.startInRange
  endsTotal := by
    rw [numStates_completed]
    simp [FsmWithStartEnd.completed]
  flagged _ := deterministic_completed deterministic

/-! ## The product -/

section Product

variable {left right : RuleFsm} {pair target : Nat × Nat} {edgeType : EdgeType} {number : Nat}

theorem mem_productEdges : (edgeType, target) ∈ FsmWithStartEnd.productEdges left.toFsmWithStartEnd right.toFsmWithStartEnd pair ↔
    ∃ leftEdge ∈ left.fsm.edgesOf pair.1, ∃ rightEdge ∈ right.fsm.edgesOf pair.2, ∃ leftMin leftMax rightMin rightMax,
      leftEdge.edgeType = .charRange leftMin leftMax ∧ rightEdge.edgeType = .charRange rightMin rightMax ∧
      leftMin ≤ rightMax ∧ rightMin ≤ leftMax ∧ edgeType = .charRange (max leftMin rightMin) (min leftMax rightMax) ∧
      target = (leftEdge.target, rightEdge.target) := by
  rw [FsmWithStartEnd.productEdges, List.mem_flatMap]
  constructor
  · rintro ⟨leftEdge, found, among⟩
    obtain ⟨rightEdge, foundRight, result⟩ := List.mem_filterMap.mp among
    split at result
    · next leftMin leftMax rightMin rightMax shapeLeft shapeRight =>
      split at result
      · cases result
      · cases result
        exact ⟨leftEdge, found, rightEdge, foundRight, leftMin, leftMax, rightMin, rightMax, shapeLeft, shapeRight, by omega,
          by omega, rfl, rfl⟩
    · cases result
  · rintro ⟨leftEdge, found, rightEdge, foundRight, leftMin, leftMax, rightMin, rightMax, shapeLeft, shapeRight, low, high, rfl, rfl⟩
    refine ⟨leftEdge, found, List.mem_filterMap.mpr ⟨rightEdge, foundRight, ?_⟩⟩
    rw [shapeLeft, shapeRight]
    exact if_neg (by omega)

theorem exists_productEdge (aux : List Int) (takenLeft : target.1 ∈ left.fsm.step pair.1 (some (.byte byte)))
    (takenRight : target.2 ∈ right.fsm.step pair.2 (some (.byte byte))) :
    ∃ edgeType, (edgeType, target) ∈ FsmWithStartEnd.productEdges left.toFsmWithStartEnd right.toFsmWithStartEnd pair ∧
      edgeType.Carries aux (some (.byte byte)) := by
  obtain ⟨⟨leftType, leftTarget⟩, foundLeft, carriesLeft, sameLeft⟩ := takenLeft
  obtain ⟨⟨rightType, rightTarget⟩, foundRight, carriesRight, sameRight⟩ := takenRight
  cases carriesLeft with
  | @charRange leftMin leftMax _ aboveLeft belowLeft =>
    cases carriesRight with
    | @charRange rightMin rightMax _ aboveRight belowRight =>
      refine ⟨.charRange (max leftMin rightMin) (min leftMax rightMax), mem_productEdges.mpr ⟨_, foundLeft, _, foundRight,
        leftMin, leftMax, rightMin, rightMax, rfl, rfl, by omega, by omega, rfl, Prod.ext sameLeft.symm sameRight.symm⟩, ?_⟩
      exact .charRange (by omega) (by omega)

theorem pairs_spec (left right : RuleFsm) :
    Numbering.Faithful (fun _ pair => FsmWithStartEnd.productEdges left.toFsmWithStartEnd right.toFsmWithStartEnd pair)
        (FsmWithStartEnd.pairs left.toFsmWithStartEnd right.toFsmWithStartEnd) ∧
      (FsmWithStartEnd.pairs left.toFsmWithStartEnd right.toFsmWithStartEnd).keys[0]? = some (left.start, right.start) ∧
      (FsmWithStartEnd.pairs left.toFsmWithStartEnd right.toFsmWithStartEnd).rows.length =
        (FsmWithStartEnd.pairs left.toFsmWithStartEnd right.toFsmWithStartEnd).keys.length ∧
      ∀ pair ∈ (FsmWithStartEnd.pairs left.toFsmWithStartEnd right.toFsmWithStartEnd).keys,
        pair ∈ Finset.range left.numStates ×ˢ Finset.range right.numStates := by
  apply Numbering.explore_spec
  · exact Finset.mem_product.mpr ⟨Finset.mem_range.mpr left.startInRange, Finset.mem_range.mpr right.startInRange⟩
  · rintro _ pair - ⟨edgeType, target⟩ listed
    obtain ⟨leftEdge, found, rightEdge, foundRight, _, _, _, _, _, _, _, _, _, rfl⟩ := mem_productEdges.mp listed
    exact Finset.mem_product.mpr ⟨Finset.mem_range.mpr (left.wellFormed.targetInRange _ _ found),
      Finset.mem_range.mpr (right.wellFormed.targetInRange _ _ foundRight)⟩
  · simp

theorem mem_edgesOf_product : edge ∈ (FsmWithStartEnd.product left.toFsmWithStartEnd right.toFsmWithStartEnd).fsm.edgesOf number ↔
    ∃ pair, (FsmWithStartEnd.pairs left.toFsmWithStartEnd right.toFsmWithStartEnd).keys[number]? = some pair ∧
      ∃ target, (edge.edgeType, target) ∈ FsmWithStartEnd.productEdges left.toFsmWithStartEnd right.toFsmWithStartEnd pair ∧
        (FsmWithStartEnd.pairs left.toFsmWithStartEnd right.toFsmWithStartEnd).keys[edge.target]? = some target := by
  obtain ⟨faithful, _, same, _⟩ := pairs_spec left right
  exact Fsm.mem_edgesOf_numbered faithful same _

theorem mem_step_product : next ∈ (FsmWithStartEnd.product left.toFsmWithStartEnd right.toFsmWithStartEnd).fsm.step number
      (some (.byte byte)) ↔
    ∃ pair, (FsmWithStartEnd.pairs left.toFsmWithStartEnd right.toFsmWithStartEnd).keys[number]? = some pair ∧
      ∃ target, (FsmWithStartEnd.pairs left.toFsmWithStartEnd right.toFsmWithStartEnd).keys[next]? = some target ∧
        target.1 ∈ left.fsm.step pair.1 (some (.byte byte)) ∧ target.2 ∈ right.fsm.step pair.2 (some (.byte byte)) := by
  constructor
  · rintro ⟨edge, found, carries, rfl⟩
    obtain ⟨pair, there, target, listed, leads⟩ := mem_edgesOf_product.mp found
    obtain ⟨leftEdge, foundLeft, rightEdge, foundRight, leftMin, leftMax, rightMin, rightMax, shapeLeft, shapeRight, _, _, shape, rfl⟩ :=
      mem_productEdges.mp listed
    rw [shape] at carries
    cases carries with
    | charRange above below =>
      refine ⟨pair, there, _, leads, ⟨leftEdge, foundLeft, ?_, rfl⟩, ⟨rightEdge, foundRight, ?_, rfl⟩⟩
      · rw [shapeLeft]
        exact .charRange (by omega) (by omega)
      · rw [shapeRight]
        exact .charRange (by omega) (by omega)
  · rintro ⟨pair, there, target, leads, takenLeft, takenRight⟩
    obtain ⟨edgeType, listed, carries⟩ := exists_productEdge
      (FsmWithStartEnd.product left.toFsmWithStartEnd right.toFsmWithStartEnd).fsm.edgeAuxData takenLeft takenRight
    exact ⟨⟨edgeType, next⟩, mem_edgesOf_product.mpr ⟨pair, there, target, listed, leads⟩, carries, rfl⟩

theorem loud_product (state next : Nat) :
    next ∉ (FsmWithStartEnd.product left.toFsmWithStartEnd right.toFsmWithStartEnd).fsm.step state none := by
  rintro ⟨edge, found, carries, _⟩
  obtain ⟨_, _, _, listed, _⟩ := mem_edgesOf_product.mp found
  obtain ⟨_, _, _, _, _, _, _, _, _, _, _, _, shape, _⟩ := mem_productEdges.mp listed
  rw [shape] at carries
  cases carries

theorem walk_product_iff (deterministicLeft : left.fsm.Deterministic) (deterministicRight : right.fsm.Deterministic) :
    (∃ number, (FsmWithStartEnd.pairs left.toFsmWithStartEnd right.toFsmWithStartEnd).keys[number]? = some pair ∧
      Walk (FsmWithStartEnd.product left.toFsmWithStartEnd right.toFsmWithStartEnd).fsm.step 0 (bytes.map .byte) number) ↔
    Walk left.fsm.step left.start (bytes.map .byte) pair.1 ∧ Walk right.fsm.step right.start (bytes.map .byte) pair.2 := by
  obtain ⟨faithful, first, same, _⟩ := pairs_spec left right
  have loudLeft := loud_of_deterministic deterministicLeft
  have loudRight := loud_of_deterministic deterministicRight
  induction bytes using List.reverseRecOn generalizing pair with
  | nil =>
    rw [List.map_nil, Walk.nil_iff_of_loud loudLeft, Walk.nil_iff_of_loud loudRight]
    simp only [Walk.nil_iff_of_loud loud_product]
    constructor
    · rintro ⟨_, there, rfl⟩
      cases first.symm.trans there
      exact ⟨rfl, rfl⟩
    · rintro ⟨sameLeft, sameRight⟩
      exact ⟨0, first.trans (congrArg some (Prod.ext sameLeft sameRight)), rfl⟩
  | append_singleton bytes byte ih =>
    rw [List.map_append, List.map_singleton, Walk.concat_iff_of_loud loudLeft, Walk.concat_iff_of_loud loudRight]
    simp only [Walk.concat_iff_of_loud loud_product, mem_step_product]
    constructor
    · rintro ⟨number, there, source, before, old, thereOld, target, leads, takenLeft, takenRight⟩
      cases there.symm.trans leads
      obtain ⟨beforeLeft, beforeRight⟩ := ih.mp ⟨source, thereOld, before⟩
      exact ⟨⟨old.1, beforeLeft, takenLeft⟩, old.2, beforeRight, takenRight⟩
    · rintro ⟨⟨sourceLeft, beforeLeft, takenLeft⟩, sourceRight, beforeRight, takenRight⟩
      have both : Walk left.fsm.step left.start (bytes.map .byte) (sourceLeft, sourceRight).1 ∧
        Walk right.fsm.step right.start (bytes.map .byte) (sourceLeft, sourceRight).2 := ⟨beforeLeft, beforeRight⟩
      obtain ⟨source, there, before⟩ := ih.mpr both
      obtain ⟨inside, _⟩ := List.getElem?_eq_some_iff.mp there
      obtain ⟨_, there', lists⟩ := faithful.lists source _ (List.getElem?_eq_getElem (same ▸ inside))
      cases there.symm.trans there'
      have edge : ∃ edgeType, (edgeType, pair) ∈
          FsmWithStartEnd.productEdges left.toFsmWithStartEnd right.toFsmWithStartEnd (sourceLeft, sourceRight) ∧
          edgeType.Carries [] (some (.byte byte)) := exists_productEdge [] takenLeft takenRight
      obtain ⟨edgeType, listed, _⟩ := edge
      obtain ⟨number, leads⟩ := lists.known listed
      exact ⟨number, leads, source, before, _, there, pair, leads, takenLeft, takenRight⟩

theorem isEndState_product : (FsmWithStartEnd.product left.toFsmWithStartEnd right.toFsmWithStartEnd).isEndState number = true ↔
    ∃ pair, (FsmWithStartEnd.pairs left.toFsmWithStartEnd right.toFsmWithStartEnd).keys[number]? = some pair ∧
      left.isEndState pair.1 = true ∧ right.isEndState pair.2 = true := by
  simp only [FsmWithStartEnd.isEndState, FsmWithStartEnd.product, List.getD_eq_getElem?_getD, List.getElem?_map]
  cases (FsmWithStartEnd.pairs left.toFsmWithStartEnd right.toFsmWithStartEnd).keys[number]? with
  | none => simp
  | some pair => simp

theorem mem_language_product (deterministicLeft : left.fsm.Deterministic) (deterministicRight : right.fsm.Deterministic) :
    bytes.map .byte ∈ (FsmWithStartEnd.product left.toFsmWithStartEnd right.toFsmWithStartEnd).language ↔
      bytes.map .byte ∈ left.language ∧ bytes.map .byte ∈ right.language := by
  have start : (FsmWithStartEnd.product left.toFsmWithStartEnd right.toFsmWithStartEnd).start = 0 := rfl
  rw [FsmWithStartEnd.mem_language_iff, FsmWithStartEnd.mem_language_iff, FsmWithStartEnd.mem_language_iff, start]
  constructor
  · rintro ⟨number, accepting, walk⟩
    obtain ⟨pair, there, endsLeft, endsRight⟩ := isEndState_product.mp accepting
    obtain ⟨walkLeft, walkRight⟩ := (walk_product_iff deterministicLeft deterministicRight).mp ⟨number, there, walk⟩
    exact ⟨⟨pair.1, endsLeft, walkLeft⟩, pair.2, endsRight, walkRight⟩
  · rintro ⟨⟨lastLeft, endsLeft, walkLeft⟩, lastRight, endsRight, walkRight⟩
    have both : Walk left.fsm.step left.start (bytes.map .byte) (lastLeft, lastRight).1 ∧
      Walk right.fsm.step right.start (bytes.map .byte) (lastLeft, lastRight).2 := ⟨walkLeft, walkRight⟩
    obtain ⟨number, there, walk⟩ := (walk_product_iff deterministicLeft deterministicRight).mpr both
    exact ⟨number, isEndState_product.mpr ⟨_, there, endsLeft, endsRight⟩, walk⟩

theorem deterministic_product (deterministicLeft : left.fsm.Deterministic) (deterministicRight : right.fsm.Deterministic) :
    (FsmWithStartEnd.product left.toFsmWithStartEnd right.toFsmWithStartEnd).fsm.Deterministic := by
  intro number first found
  obtain ⟨pair, there, target, listed, leads⟩ := mem_edgesOf_product.mp found
  obtain ⟨leftEdge, foundLeft, rightEdge, foundRight, leftMin, leftMax, rightMin, rightMax, shapeLeft, shapeRight, _, _, shape, rfl⟩ :=
    mem_productEdges.mp listed
  constructor
  · simp [shape]
  · intro second foundSecond label plain carries carriesSecond
    obtain ⟨pair', there', target', listed', leads'⟩ := mem_edgesOf_product.mp foundSecond
    cases there.symm.trans there'
    obtain ⟨leftOther, foundLeft', rightOther, foundRight', _, _, _, _, shapeLeft', shapeRight', _, _, shape', rfl⟩ :=
      mem_productEdges.mp listed'
    obtain ⟨firstType, firstTarget⟩ := first
    obtain ⟨secondType, secondTarget⟩ := second
    cases shape
    cases shape'
    cases carries with
    | @charRange _ _ byte above below =>
      cases carriesSecond with
      | charRange above' below' =>
        have sameLeft : leftEdge = leftOther := (deterministicLeft pair.1 leftEdge foundLeft).2 leftOther foundLeft' (.byte byte) plain
          (shapeLeft ▸ .charRange (by omega) (by omega)) (shapeLeft' ▸ .charRange (by omega) (by omega))
        have sameRight : rightEdge = rightOther := (deterministicRight pair.2 rightEdge foundRight).2 rightOther foundRight'
          (.byte byte) plain (shapeRight ▸ .charRange (by omega) (by omega)) (shapeRight' ▸ .charRange (by omega) (by omega))
        subst sameLeft sameRight
        cases shapeLeft.symm.trans shapeLeft'
        cases shapeRight.symm.trans shapeRight'
        obtain ⟨inside, here⟩ := List.getElem?_eq_some_iff.mp leads
        obtain ⟨inside', here'⟩ := List.getElem?_eq_some_iff.mp leads'
        cases (pairs_spec left right).1.nodup.getElem_inj_iff.mp (here.trans here'.symm)
        rfl

def intersection (left right : RuleFsm) (deterministicLeft : left.fsm.Deterministic) (deterministicRight : right.fsm.Deterministic) :
    RuleFsm where
  toFsmWithStartEnd := FsmWithStartEnd.product left.toFsmWithStartEnd right.toFsmWithStartEnd
  wellFormed := by
    have count : (FsmWithStartEnd.product left.toFsmWithStartEnd right.toFsmWithStartEnd).fsm.numStates =
        (FsmWithStartEnd.pairs left.toFsmWithStartEnd right.toFsmWithStartEnd).keys.length := by
      rw [← (pairs_spec left right).2.2.1]
      exact List.length_map _
    constructor
    · intro number edge found
      obtain ⟨_, _, _, _, leads⟩ := mem_edgesOf_product.mp found
      rw [count]
      exact (List.getElem?_eq_some_iff.mp leads).1
    · intro number edge found min max shape
      obtain ⟨pair, _, _, listed, _⟩ := mem_edgesOf_product.mp found
      obtain ⟨leftEdge, foundLeft, rightEdge, foundRight, _, _, _, _, shapeLeft, shapeRight, _, _, same, _⟩ := mem_productEdges.mp listed
      have boundsLeft := left.wellFormed.rangeInBytes _ _ foundLeft _ _ shapeLeft
      have boundsRight := right.wellFormed.rangeInBytes _ _ foundRight _ _ shapeRight
      cases shape.symm.trans same
      omega
    · intro number edge found auxIndex shape
      obtain ⟨pair, _, _, listed, _⟩ := mem_edgesOf_product.mp found
      obtain ⟨_, _, _, _, _, _, _, _, _, _, _, _, same, _⟩ := mem_productEdges.mp listed
      cases shape.symm.trans same
    · simp [FsmWithStartEnd.product]
  startInRange := by
    obtain ⟨_, first, same, _⟩ := pairs_spec left right
    have inside := (List.getElem?_eq_some_iff.mp first).1
    simpa [FsmWithStartEnd.product, Fsm.numStates, same] using inside
  endsTotal := by simp [FsmWithStartEnd.product, Fsm.numStates, (pairs_spec left right).2.2.1]
  flagged _ := deterministic_product deterministicLeft deterministicRight

end Product

/-! ## Both operations -/

theorem plain_bytes (bytes : List UInt8) : ∀ label ∈ bytes.map Label.byte, label.Plain := by
  intro label among
  obtain ⟨byte, _, rfl⟩ := List.mem_map.mp among
  trivial

theorem reads_nowFsm (order : Nat → HashOrder Nat) : (machine.nowFsm order).Reads bytes ↔ machine.Reads bytes := by
  rw [nowFsm]
  split
  · rfl
  · constructor
    · rintro ⟨number, walk⟩
      exact exists_walk_of_dfa (plain_bytes bytes) walk
    · rintro ⟨state, walk⟩
      exact exists_walk_dfa (plain_bytes bytes) walk

/-- The complement is right for the strings that the machine can read but for their last byte, and for no others. -/
theorem not_exact (onBytes : machine.OverBytes) (order : Nat → HashOrder Nat) (limit : Nat) (bytes : List UInt8) :
    (∃ negated, machine.not order limit = .ok negated ∧
      (negated.acceptString bytes = true ↔ ¬ machine.acceptString bytes = true)) ↔
    (machine.isDfa = true ∨ machine.numStates ≤ limit) ∧ machine.Reads bytes.dropLast := by
  obtain ⟨_, deterministic, language⟩ := nowFsm_spec onBytes.overBytesAndRules order
  have accepts : ((machine.nowFsm order).completed.acceptString bytes = true ↔ ¬ machine.acceptString bytes = true) ↔
      machine.Reads bytes.dropLast := by
    have complement : (machine.nowFsm order).completed.acceptString bytes = true ↔
        bytes.map .byte ∈ (machine.nowFsm order).completed.language := ((machine.nowFsm order).complement deterministic).acceptString_iff
    rw [← reads_nowFsm order, ← mem_language_completed deterministic, language, complement, acceptString_iff]
  rw [FsmWithStartEnd.not, if_neg (by simp [onBytes.isLeaf])]
  by_cases allowed : machine.isDfa = true ∨ machine.numStates ≤ limit
  · have result : (do
        let result ← if machine.isDfa then pure machine.toFsmWithStartEnd else machine.toDfa order limit
        pure result.completed : Except String FsmWithStartEnd) = .ok (machine.nowFsm order).completed := by
      rw [nowFsm]
      split
      · rfl
      · next unflagged =>
        have below := allowed.resolve_left unflagged
        rw [FsmWithStartEnd.toDfa, if_neg (Nat.not_lt.mpr below)]
        rfl
    rw [result]
    simp only [allowed, true_and, ← accepts]
    constructor
    · rintro ⟨_, same, right⟩
      cases same
      exact right
    · intro right
      exact ⟨_, rfl, right⟩
  · obtain ⟨unflagged, above⟩ := not_or.mp allowed
    rw [if_neg unflagged, FsmWithStartEnd.toDfa, if_pos (Nat.lt_of_not_le above)]
    simp only [allowed, false_and, iff_false]
    rintro ⟨_, absurd, _⟩
    cases absurd

theorem intersect_exact {left right : RuleFsm} (overLeft : left.OverBytes) (overRight : right.OverBytes)
    (leftOrder rightOrder : Nat → HashOrder Nat) (bytes : List UInt8) :
    (∃ both, FsmWithStartEnd.intersect left.toFsmWithStartEnd right.toFsmWithStartEnd leftOrder rightOrder = .ok both ∧
      (both.acceptString bytes = true ↔ left.acceptString bytes = true ∧ right.acceptString bytes = true)) ↔
    left.numStates ≤ defaultMaxStates ∧ right.numStates ≤ defaultMaxStates := by
  rw [FsmWithStartEnd.intersect, if_neg (by simp [overLeft.isLeaf, overRight.isLeaf]), FsmWithStartEnd.toDfa, FsmWithStartEnd.toDfa]
  by_cases belowLeft : left.numStates ≤ defaultMaxStates
  · rw [if_neg (Nat.not_lt.mpr belowLeft)]
    by_cases belowRight : right.numStates ≤ defaultMaxStates
    · rw [if_neg (Nat.not_lt.mpr belowRight)]
      refine iff_of_true ⟨_, rfl, ?_⟩ ⟨belowLeft, belowRight⟩
      have product : bytes.map .byte ∈ (FsmWithStartEnd.product (left.dfa leftOrder).toFsmWithStartEnd
          (right.dfa rightOrder).toFsmWithStartEnd).language ↔
          bytes.map .byte ∈ (left.dfa leftOrder).language ∧ bytes.map .byte ∈ (right.dfa rightOrder).language :=
        mem_language_product deterministic_dfaOf deterministic_dfaOf
      rw [mem_language_dfa (plain_bytes bytes), mem_language_dfa (plain_bytes bytes)] at product
      rw [left.acceptString_iff, right.acceptString_iff, ← product]
      exact ((left.dfa leftOrder).intersection (right.dfa rightOrder) deterministic_dfaOf deterministic_dfaOf).acceptString_iff
    · rw [if_pos (Nat.lt_of_not_le belowRight)]
      simp only [belowRight, and_false, iff_false]
      rintro ⟨_, absurd, _⟩
      cases absurd
  · rw [if_pos (Nat.lt_of_not_le belowLeft)]
    simp only [belowLeft, false_and, iff_false]
    rintro ⟨_, absurd, _⟩
    cases absurd

theorem boolean_operations (left right : RuleFsm) (overLeft : left.OverBytes) (overRight : right.OverBytes)
    (leftOrder rightOrder : Nat → HashOrder Nat) (limit : Nat) (bytes : List UInt8) :
    ((∃ both, FsmWithStartEnd.intersect left.toFsmWithStartEnd right.toFsmWithStartEnd leftOrder rightOrder = .ok both ∧
        (both.acceptString bytes = true ↔ left.acceptString bytes = true ∧ right.acceptString bytes = true)) ↔
      left.numStates ≤ defaultMaxStates ∧ right.numStates ≤ defaultMaxStates) ∧
    ((∃ negated, left.not leftOrder limit = .ok negated ∧
        (negated.acceptString bytes = true ↔ ¬ left.acceptString bytes = true)) ↔
      (left.isDfa = true ∨ left.numStates ≤ limit) ∧ left.Reads bytes.dropLast) :=
  ⟨intersect_exact overLeft overRight leftOrder rightOrder bytes, not_exact overLeft leftOrder limit bytes⟩

theorem deterministic_literal (byte : Nat) : Fsm.Deterministic ⟨[[⟨.charRange byte byte, 1⟩], []], []⟩ := by
  intro state first found
  match state with
  | 0 =>
    cases List.mem_singleton.mp found
    refine ⟨by simp, fun second foundSecond _ _ _ _ => ?_⟩
    exact (List.mem_singleton.mp foundSecond).symm
  | 1 => cases found
  | _ + 2 => cases found

theorem wellFormed_literal : (⟨[[⟨.charRange 97 97, 1⟩], []], []⟩ : Fsm).WellFormed := Fsm.wellFormed_of_isWellFormed (by decide)

theorem ends_literal : [false, true].length = Fsm.numStates ⟨[[⟨.charRange 97 97, 1⟩], []], []⟩ := rfl

/-- An `a`, by a machine that is flagged as deterministic. -/
def literalA : RuleFsm where
  fsm := ⟨[[⟨.charRange 97 97, 1⟩], []], []⟩
  start := 0
  ends := [false, true]
  isDfa := true
  wellFormed := wellFormed_literal
  startInRange := Nat.zero_lt_succ 1
  endsTotal := ends_literal
  flagged _ := deterministic_literal 97

theorem overBytes_literalA : literalA.OverBytes := by
  intro state edge found
  match state with
  | 0 => exact .inr ⟨97, 97, by rw [List.mem_singleton.mp found]⟩
  | 1 => cases found
  | _ + 2 => cases found

theorem boolean_operations_literalA :
    ((∃ both, FsmWithStartEnd.intersect literalA.toFsmWithStartEnd literalA.toFsmWithStartEnd (fun _ => .listed) (fun _ => .listed) =
          .ok both ∧ (both.acceptString [97] = true ↔ literalA.acceptString [97] = true ∧ literalA.acceptString [97] = true)) ↔
      literalA.numStates ≤ defaultMaxStates ∧ literalA.numStates ≤ defaultMaxStates) ∧
    ((∃ negated, literalA.not (fun _ => .listed) 2 = .ok negated ∧
        (negated.acceptString [97] = true ↔ ¬ literalA.acceptString [97] = true)) ↔
      (literalA.isDfa = true ∨ literalA.numStates ≤ 2) ∧ literalA.Reads [97].dropLast) :=
  boolean_operations literalA literalA overBytes_literalA overBytes_literalA _ _ 2 [97]

/-- The complement of `a` misses `bb`. -/
theorem not_misses_bb : ¬ ∃ negated, literalA.not (fun _ => .listed) 2 = .ok negated ∧
    (negated.acceptString [98, 98] = true ↔ ¬ literalA.acceptString [98, 98] = true) := by
  intro right
  obtain ⟨_, last, walk⟩ := (not_exact overBytes_literalA (fun _ => .listed) 2 [98, 98]).mp right
  obtain ⟨source, before, target, ⟨edge, found, carries, _⟩, _⟩ := Walk.singleton_iff.mp walk
  match source with
  | 0 =>
    cases List.mem_singleton.mp found
    cases carries with
    | charRange above below => exact absurd below (by decide)
  | 1 => cases found
  | _ + 2 => cases found

end RuleFsm

end Metrale.Grammar
