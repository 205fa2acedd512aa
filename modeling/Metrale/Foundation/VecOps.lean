import Mathlib.Data.List.Perm.Basic

/-! # Vector operations that move cells

`swapRemove` takes a cell out by moving the last one into its place; `sweep` is the loop that takes
out every picked cell that way; `modifyFirst` changes the first picked cell in place.  Each moves
cells about, so each is specified up to a permutation or by a split of the list. -/

namespace Metrale.Foundation

open scoped List

variable {Cell : Type*}

theorem getD_set (cells : List Cell) (position other : Nat) (value default : Cell) :
    (cells.set position value).getD other default =
      if other = position ∧ position < cells.length then value else cells.getD other default := by
  rw [List.getD_eq_getElem?_getD, List.getD_eq_getElem?_getD, List.getElem?_set]
  by_cases same : position = other
  · subst same
    by_cases inside : position < cells.length
    · simp [inside]
    · simp [inside]
  · rw [if_neg same, if_neg fun here => same here.1.symm]

theorem getD_set_self {cells : List Cell} {position : Nat} (inside : position < cells.length) (value default : Cell) :
    (cells.set position value).getD position default = value := by
  rw [getD_set, if_pos ⟨rfl, inside⟩]

theorem getD_set_of_ne (cells : List Cell) {position other : Nat} (differs : other ≠ position)
    (value default : Cell) : (cells.set position value).getD other default = cells.getD other default := by
  rw [getD_set, if_neg fun here => differs here.1]

theorem getD_modify {cells : List Cell} {position other : Nat} {change : Cell → Cell} {default : Cell} (inside : other < cells.length) :
    (cells.modify position change).getD other default =
      if position = other then change (cells.getD other default) else cells.getD other default := by
  rw [List.getD_eq_getElem?_getD, List.getD_eq_getElem?_getD, List.getElem?_modify, List.getElem?_eq_getElem inside]
  split <;> rfl

/-- Several bits are set. -/
theorem getD_foldl_set (positions : List Nat) (bits : List Bool) {other : Nat} :
    (positions.foldl (fun bits position => bits.set position true) bits).getD other false = true ↔
      bits.getD other false = true ∨ other ∈ positions ∧ other < bits.length := by
  induction positions generalizing bits with
  | nil => simp
  | cons position positions ih =>
    rw [List.foldl_cons, ih, List.length_set, List.mem_cons, getD_set]
    by_cases here : other = position
    · subst here
      by_cases inside : other < bits.length
      · simp [inside]
      · simp [inside]
    · simp [here]

theorem getD_foldl_set_replicate (positions : List Nat) (count : Nat) {other : Nat} :
    (positions.foldl (fun bits position => bits.set position true) (List.replicate count false)).getD other false = true ↔
      other ∈ positions ∧ other < count := by
  have nothing : ¬ (List.replicate count false).getD other false = true := by
    rw [List.getD_eq_getElem?_getD, List.getElem?_replicate]
    split <;> simp
  rw [getD_foldl_set, List.length_replicate, or_iff_right nothing]

/-- A cell is added to the end of one row. -/
theorem mem_getD_modify_append {rows : List (List Cell)} {position other : Nat} {value cell : Cell} :
    cell ∈ (rows.modify position (· ++ [value])).getD other [] ↔
      cell ∈ rows.getD other [] ∨ other = position ∧ position < rows.length ∧ cell = value := by
  simp only [List.getD_eq_getElem?_getD, List.getElem?_modify]
  by_cases here : position = other
  · subst here
    by_cases inside : position < rows.length
    · simp [inside]
    · simp [inside]
  · simp [here, Ne.symm here]

/-- The cells without the one at `position`, whose place the last cell takes. -/
def swapRemove (cells : List Cell) (position : Nat) : List Cell :=
  match cells.getLast? with
  | none => []
  | some last => cells.dropLast.set position last

theorem swapRemove_concat (front : List Cell) (last : Cell) (position : Nat) :
    swapRemove (front ++ [last]) position = front.set position last := by
  simp [swapRemove]

theorem swapRemove_perm {cells : List Cell} {position : Nat} {cell : Cell}
    (present : cells[position]? = some cell) : cell :: swapRemove cells position ~ cells := by
  obtain rfl | ⟨front, last, rfl⟩ := cells.eq_nil_or_concat
  · cases present
  rw [List.concat_eq_append] at present ⊢
  rw [swapRemove_concat]
  by_cases inFront : position < front.length
  · rw [List.getElem?_append_left inFront, List.getElem?_eq_getElem inFront] at present
    cases present
    calc front[position] :: front.set position last
        ~ front[position] :: last :: front.eraseIdx position :=
          (List.set_perm_cons_eraseIdx inFront last).cons _
      _ ~ last :: front[position] :: front.eraseIdx position := .swap ..
      _ ~ last :: front := (List.getElem_cons_eraseIdx_perm inFront).cons last
      _ ~ front ++ [last] := (List.perm_append_singleton last front).symm
  · have atEnd : position = front.length := by
      have bound := (List.getElem?_eq_some_iff.mp present).1
      rw [List.length_append, List.length_singleton] at bound
      omega
    subst atEnd
    rw [List.getElem?_concat_length] at present
    cases present
    rw [List.set_eq_of_length_le (Nat.le_refl _)]
    exact (List.perm_append_singleton _ front).symm

theorem length_swapRemove {cells : List Cell} {position : Nat} {cell : Cell}
    (present : cells[position]? = some cell) :
    (swapRemove cells position).length + 1 = cells.length :=
  (swapRemove_perm present).length_eq

/-- The cells before the removed one stay where they are. -/
theorem take_swapRemove {cells : List Cell} {position : Nat} {cell : Cell}
    (present : cells[position]? = some cell) :
    (swapRemove cells position).take position = cells.take position := by
  obtain rfl | ⟨front, last, rfl⟩ := cells.eq_nil_or_concat
  · cases present
  rw [List.concat_eq_append] at present ⊢
  have bound := (List.getElem?_eq_some_iff.mp present).1
  rw [List.length_append, List.length_singleton] at bound
  rw [swapRemove_concat, List.take_set_of_le (Nat.le_refl _),
    List.take_append_of_le_length (by omega)]

/-- One pass of the loop: at `position`, a picked cell is taken out by `swapRemove` and the cell
moved there is looked at next; any other cell is stepped over.  Answers what was taken out, in
order, and what is left. -/
def sweep (picked : Cell → Bool) : Nat → List Cell → Nat → List Cell × List Cell
  | 0, cells, _ => ([], cells)
  | rounds + 1, cells, position =>
    match cells[position]? with
    | none => ([], cells)
    | some cell =>
      if picked cell then
        ((cell :: (sweep picked rounds (swapRemove cells position) position).1),
          (sweep picked rounds (swapRemove cells position) position).2)
      else
        sweep picked rounds cells (position + 1)

/-- With a round for each cell not yet looked at, nothing picked is left and nothing else is gone. -/
theorem sweep_spec {picked : Cell → Bool} {rounds position : Nat} {cells : List Cell}
    (enough : cells.length ≤ rounds + position)
    (passed : ∀ cell ∈ cells.take position, picked cell = false) :
    (sweep picked rounds cells position).1 ++ (sweep picked rounds cells position).2 ~ cells ∧
      (∀ cell ∈ (sweep picked rounds cells position).1, picked cell = true) ∧
      ∀ cell ∈ (sweep picked rounds cells position).2, picked cell = false := by
  induction rounds generalizing cells position with
  | zero =>
    rw [List.take_of_length_le (by omega)] at passed
    exact ⟨.refl _, fun cell impossible => absurd impossible List.not_mem_nil, passed⟩
  | succ rounds ih =>
    rw [sweep]
    cases present : cells[position]? with
    | none =>
      rw [List.take_of_length_le (List.getElem?_eq_none_iff.mp present)] at passed
      exact ⟨.refl _, fun cell impossible => absurd impossible List.not_mem_nil, passed⟩
    | some cell =>
      by_cases taken : picked cell = true
      · simp only [taken, if_true]
        -- A cell is gone, so that the rounds last although the position stays.
        have shorter := length_swapRemove present
        have enough' : (swapRemove cells position).length ≤ rounds + position := by omega
        rw [← take_swapRemove present] at passed
        obtain ⟨same, picks, keeps⟩ := ih enough' passed
        refine ⟨(same.cons cell).trans (swapRemove_perm present), ?_, keeps⟩
        exact List.forall_mem_cons.mpr ⟨taken, picks⟩
      · simp only [taken, Bool.false_eq_true, if_false]
        refine ih (by omega) fun other member => ?_
        rw [List.take_add_one, present, List.mem_append] at member
        cases member with
        | inl before => exact passed other before
        | inr here =>
          rw [Option.mem_toList] at here
          cases here
          exact Bool.eq_false_iff.mpr taken

/-- Changes the first picked cell in place.  Answers it as it was, and the cells after the change. -/
def modifyFirst (picked : Cell → Bool) (change : Cell → Cell) : List Cell → Option (Cell × List Cell)
  | [] => none
  | cell :: rest =>
    if picked cell then some (cell, change cell :: rest)
    else (modifyFirst picked change rest).map fun found => (found.1, cell :: found.2)

theorem modifyFirst_eq_none {picked : Cell → Bool} {change : Cell → Cell} {cells : List Cell} :
    modifyFirst picked change cells = none ↔ ∀ cell ∈ cells, picked cell = false := by
  induction cells with
  | nil => simp [modifyFirst]
  | cons cell rest ih =>
    by_cases taken : picked cell = true
    · simp [modifyFirst, taken]
    · simp [modifyFirst, taken, ih]

theorem modifyFirst_eq_some {picked : Cell → Bool} {change : Cell → Cell} {cells after : List Cell}
    {old : Cell} (found : modifyFirst picked change cells = some (old, after)) :
    picked old = true ∧ ∃ before rest, cells = before ++ old :: rest ∧
      after = before ++ change old :: rest := by
  induction cells generalizing after with
  | nil => cases found
  | cons cell rest ih =>
    rw [modifyFirst] at found
    split at found
    · next taken =>
      cases found
      exact ⟨taken, [], rest, rfl, rfl⟩
    · obtain ⟨⟨inner, tail⟩, deeper, same⟩ := Option.map_eq_some_iff.mp found
      cases same
      obtain ⟨taken, before, remaining, split, changed⟩ := ih deeper
      exact ⟨taken, cell :: before, remaining, by rw [split]; rfl, by rw [changed]; rfl⟩

end Metrale.Foundation
