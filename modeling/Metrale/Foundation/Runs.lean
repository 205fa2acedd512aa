import Mathlib.Algebra.BigOperators.Group.List.Basic

/-! # Runs of labelled transition systems

A transition system is a step relation `State → Label → State → Prop`.  A label carries the call
and everything the call answered, so a property of "what a run reported" is a property of its
labels.  The module holds the induction principles every later invariant uses:

* `Run.invariant`: a property kept by each step holds of every state a run reaches.
* `Run.guarded_invariant`: the same, when each step of the run also meets a side condition.
* `Run.ledger`: an account kept exactly by each step is kept exactly over the run.
* `Run.simulates`: a forward simulation lifts from steps to runs.
* `always_iff`: over a run of a function, a property holds throughout exactly when each step meets a condition.

`latest` is what the labels of a run last reported. -/

namespace Metrale.Foundation

variable {State Spec Label : Type*}

/-- A run from `first`: the labels of its steps, oldest first, and the state it ends in. -/
inductive Run (step : State → Label → State → Prop) (first : State) : List Label → State → Prop where
  | start : Run step first [] first
  | extend {labels : List Label} {label : Label} {middle last : State} :
      Run step first labels middle → step middle label last →
      Run step first (labels ++ [label]) last

/-- The steps whose state before the step, and whose label, meet `guard`. -/
def Guarded (guard : State → Label → Prop) (step : State → Label → State → Prop) :
    State → Label → State → Prop :=
  fun before label after => guard before label ∧ step before label after

/-- The balances of two changes, one after the other, add up. -/
theorem balance_trans {Amount : Type*} [AddCommMonoid Amount]
    {first middle last gained lost moreGained moreLost : Amount} (earlier : middle + lost = first + gained)
    (later : last + moreLost = middle + moreGained) :
    last + (lost + moreLost) = first + (gained + moreGained) := by
  calc last + (lost + moreLost)
      = last + moreLost + lost := by rw [add_comm lost, add_assoc]
    _ = middle + lost + moreGained := by rw [later, add_right_comm]
    _ = first + (gained + moreGained) := by rw [earlier, add_assoc]

namespace Run

variable {step : State → Label → State → Prop} {first last : State} {labels : List Label}

theorem single {label : Label} (taken : step first label last) : Run step first [label] last :=
  @Run.extend _ _ _ _ [] _ _ _ .start taken

theorem trans {middle : State} {later : List Label} (earlier : Run step first labels middle)
    (rest : Run step middle later last) : Run step first (labels ++ later) last := by
  induction rest with
  | start => simpa using earlier
  | extend _ taken ih =>
    rw [← List.append_assoc]
    exact .extend ih taken

/-- A run may also be built from its first step. -/
theorem prepend {label : Label} {middle : State} {later : List Label} (taken : step first label middle)
    (rest : Run step middle later last) : Run step first (label :: later) last :=
  (single taken).trans rest

theorem weaken {weaker : State → Label → State → Prop}
    (allowed : ∀ before label after, step before label after → weaker before label after)
    (run : Run step first labels last) : Run weaker first labels last := by
  induction run with
  | start => exact .start
  | extend _ taken ih => exact .extend ih (allowed _ _ _ taken)

theorem unguarded {guard : State → Label → Prop} (run : Run (Guarded guard step) first labels last) :
    Run step first labels last :=
  run.weaken fun _ _ _ taken => taken.2

/-- The invariant rule. -/
theorem invariant (Good : State → Prop) (initial : Good first)
    (preserved : ∀ before label after, Good before → step before label after → Good after)
    (run : Run step first labels last) : Good last := by
  induction run with
  | start => exact initial
  | extend _ taken ih => exact preserved _ _ _ ih taken

theorem guarded_invariant {guard : State → Label → Prop} (Good : State → Prop) (initial : Good first)
    (preserved : ∀ before label after, Good before → guard before label →
      step before label after → Good after)
    (run : Run (Guarded guard step) first labels last) : Good last :=
  run.invariant Good initial fun _ _ _ good taken => preserved _ _ _ good taken.1 taken.2

/-- Bookkeeping over a run.  If every step from a good state balances what it stores against what
its label says was gained and lost, then so does the whole run. -/
theorem ledger {Amount : Type*} [AddCommMonoid Amount] {Good : State → Prop}
    {stored : State → Amount} {gained lost : Label → Amount} (initial : Good first)
    (preserved : ∀ before label after, Good before → step before label after → Good after)
    (balanced : ∀ before label after, Good before → step before label after →
      stored after + lost label = stored before + gained label)
    (run : Run step first labels last) :
    stored last + (labels.map lost).sum = stored first + (labels.map gained).sum := by
  induction run with
  | start => simp
  | @extend labels label middle last earlier taken ih =>
    have stepBalance := balanced _ _ _ (earlier.invariant Good initial preserved) taken
    simp only [List.map_append, List.sum_append, List.map_cons, List.map_nil, List.sum_cons,
      List.sum_nil, add_zero]
    exact balance_trans ih stepBalance

/-- Forward simulation: each step is matched by a step of the specification with the same label. -/
theorem simulates {specStep : Spec → Label → Spec → Prop} {Related : State → Spec → Prop}
    {initialSpec : Spec} (initial : Related first initialSpec)
    (forward : ∀ before label after spec, Related before spec → step before label after →
      ∃ spec', specStep spec label spec' ∧ Related after spec')
    (run : Run step first labels last) :
    ∃ spec, Run specStep initialSpec labels spec ∧ Related last spec := by
  induction run with
  | start => exact ⟨initialSpec, .start, initial⟩
  | extend _ taken ih =>
    obtain ⟨spec, specRun, related⟩ := ih
    obtain ⟨spec', specTaken, related'⟩ := forward _ _ _ _ related taken
    exact ⟨spec', .extend specRun specTaken, related'⟩

end Run

/-! ## Runs of a function -/

/-- `Seen` holds in every state of a run exactly when `guard` holds at every step.  It is enough that `guard`
keeps an invariant `Good` that implies `Seen`, and that a step from a good state loses `Seen` without `guard`. -/
theorem always_iff {advance : State → Label → State} {first : State} {labels : List Label}
    {Good Seen : State → Prop} {guard : State → Label → Prop} (initial : Good first)
    (seen : ∀ state, Good state → Seen state)
    (kept : ∀ state label, Good state → guard state label → Good (advance state label))
    (needed : ∀ state label, Good state → Seen (advance state label) → guard state label) :
    (∀ earlier later, labels = earlier ++ later → Seen (earlier.foldl advance first)) ↔
      ∀ earlier label later, labels = earlier ++ label :: later → guard (earlier.foldl advance first) label := by
  induction labels generalizing first with
  | nil => simpa using seen first initial
  | cons label labels ih =>
    constructor
    · intro always
      have guarded : guard first label := needed first label initial (always [label] labels rfl)
      have rest := (ih (kept first label initial guarded)).mp fun earlier later split =>
        always (label :: earlier) later (by rw [split, List.cons_append])
      intro earlier other later split
      cases earlier with
      | nil =>
        obtain ⟨rfl, -⟩ := List.cons.inj split
        exact guarded
      | cons head earlier =>
        obtain ⟨rfl, splitTail⟩ := List.cons.inj split
        exact rest earlier other later splitTail
    · intro guarded
      have rest := (ih (kept first label initial (guarded [] label labels rfl))).mpr
        fun earlier other later split => guarded (label :: earlier) other later (by rw [split, List.cons_append])
      intro earlier later split
      cases earlier with
      | nil => exact seen first initial
      | cons head earlier =>
        obtain ⟨rfl, splitTail⟩ := List.cons.inj split
        exact rest earlier later splitTail

/-! ## The last report -/

variable {Value : Type*} {reports : Label → Option Value} {earlier later labels : List Label}

def latest (reports : Label → Option Value) (labels : List Label) : Option Value :=
  (labels.filterMap reports).getLast?

theorem latest_append : latest reports (earlier ++ later) = (latest reports later).or (latest reports earlier) := by
  rw [latest, List.filterMap_append, List.getLast?_append]
  rfl

theorem latest_concat (label : Label) :
    latest reports (labels ++ [label]) = (reports label).or (latest reports labels) := by
  rw [latest_append]
  cases reported : reports label <;> simp [latest, reported]

theorem latest_silent (silent : ∀ label ∈ labels, reports label = none) : latest reports labels = none := by
  rw [latest, List.filterMap_eq_nil_iff.mpr silent]
  rfl

end Metrale.Foundation
