import Mathlib.Logic.Basic

/-! # Postconditions of partial computations

A computation in `Option` answers `none` where it fails.  `Answers` is total correctness: it answers, and what it
answers meets the postcondition.  `Whenever` is partial correctness. -/

namespace Metrale.Foundation

universe u v

variable {Value Result : Type u} {Item : Type v}

def Answers (outcome : Option Value) (Post : Value → Prop) : Prop := ∃ value, outcome = some value ∧ Post value

def Whenever (outcome : Option Value) (Post : Value → Prop) : Prop := ∀ value, outcome = some value → Post value

variable {outcome : Option Value} {Post Weaker : Value → Prop} {continuation : Value → Option Result}
  {Final : Result → Prop}

namespace Answers

theorem intro {value : Value} (met : Post value) : Answers (some value) Post := ⟨value, rfl, met⟩

theorem whenever (answers : Answers outcome Post) : Whenever outcome Post := by
  intro value answered
  obtain ⟨other, same, met⟩ := answers
  cases answered.symm.trans same
  exact met

theorem imp (answers : Answers outcome Post) (weaker : ∀ value, Post value → Weaker value) :
    Answers outcome Weaker := by
  obtain ⟨value, answered, met⟩ := answers
  exact ⟨value, answered, weaker value met⟩

theorem bind (answers : Answers outcome Post) (next : ∀ value, Post value → Answers (continuation value) Final) :
    Answers (outcome >>= continuation) Final := by
  obtain ⟨value, rfl, met⟩ := answers
  exact next value met

theorem map {change : Value → Result} (answers : Answers outcome fun value => Final (change value)) :
    Answers (outcome.map change) Final := by
  obtain ⟨value, rfl, met⟩ := answers
  exact intro met

/-- The loop rule. -/
theorem foldlM {step : Value → Item → Option Value} {items : List Item} {first : Value} (initial : Post first)
    (preserved : ∀ value, Post value → ∀ item ∈ items, Answers (step value item) Post) :
    Answers (items.foldlM step first) Post := by
  induction items generalizing first with
  | nil => exact intro initial
  | cons item items ih =>
    rw [List.foldlM_cons]
    apply Answers.bind (preserved first initial item List.mem_cons_self)
    intro value met
    exact ih met fun value met other member =>
      preserved value met other (List.mem_cons_of_mem item member)

end Answers

namespace Whenever

theorem intro {value : Value} (met : Post value) : Whenever (some value) Post := by
  intro other same
  cases same
  exact met

theorem imp (whenever : Whenever outcome Post) (weaker : ∀ value, Post value → Weaker value) :
    Whenever outcome Weaker := fun value answered => weaker value (whenever value answered)

theorem bind (whenever : Whenever outcome Post) (next : ∀ value, Post value → Whenever (continuation value) Final) :
    Whenever (outcome >>= continuation) Final := by
  intro result answered
  obtain ⟨value, found, continued⟩ := Option.bind_eq_some_iff.mp answered
  exact next value (whenever value found) result continued

end Whenever

/-! ## Computations with an error -/

section errors

variable {Error : Type u} {first : Except Error Value} {next : Value → Except Error Result}

theorem bind_eq_ok {result : Result} :
    first >>= next = .ok result ↔ ∃ value, first = .ok value ∧ next value = .ok result := by
  cases first with
  | error error => simp [Bind.bind, Except.bind]
  | ok value => simp [Bind.bind, Except.bind]

theorem bind_eq_error {error : Error} :
    first >>= next = .error error ↔ first = .error error ∨ ∃ value, first = .ok value ∧ next value = .error error := by
  cases first with
  | error other => simp [Bind.bind, Except.bind]
  | ok value => simp [Bind.bind, Except.bind]

end errors

end Metrale.Foundation
