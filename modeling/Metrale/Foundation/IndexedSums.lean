import Mathlib.Algebra.BigOperators.Group.List.Basic
import Mathlib.Algebra.Order.Group.Multiset

/-! # Sums over a list with one position changed

An account of what a list of cells holds is a sum over its positions.  Changing one cell moves the
account by that cell's old and new share; the equations are stated without subtraction, so that
they hold in any commutative monoid, multisets included. -/

namespace Metrale.Foundation

variable {Cell Amount : Type*} [AddCommMonoid Amount] (share : Cell → Amount)

theorem sum_map_modify (cells : List Cell) (position : Nat) (change : Cell → Cell) (old : Cell)
    (present : cells[position]? = some old) :
    ((cells.modify position change).map share).sum + share old =
      (cells.map share).sum + share (change old) := by
  induction cells generalizing position with
  | nil => simp at present
  | cons cell cells ih =>
    cases position with
    | zero =>
      simp only [List.getElem?_cons_zero, Option.some.injEq] at present
      subst present
      simp only [List.modify_zero_cons, List.map_cons, List.sum_cons]
      rw [add_right_comm, add_comm (share (change cell)), add_right_comm]
    | succ position =>
      simp only [List.getElem?_cons_succ] at present
      simp only [List.modify_succ_cons, List.map_cons, List.sum_cons, add_assoc,
        ih position present]

theorem sum_map_set (cells : List Cell) (position : Nat) (old new : Cell)
    (present : cells[position]? = some old) :
    ((cells.set position new).map share).sum + share old = (cells.map share).sum + share new := by
  rw [List.set_eq_modify]
  exact sum_map_modify share cells position _ old present

omit [AddCommMonoid Amount] in
theorem countP_set_add (counted : Cell → Bool) (cells : List Cell) (position : Nat) (old new : Cell)
    (present : cells[position]? = some old) :
    (cells.set position new).countP counted + (if counted old then 1 else 0) =
      cells.countP counted + (if counted new then 1 else 0) := by
  obtain ⟨bound, rfl⟩ := List.getElem?_eq_some_iff.mp present
  have included := @List.boole_getElem_le_countP _ counted cells position bound
  rw [List.countP_set bound]
  omega

end Metrale.Foundation
