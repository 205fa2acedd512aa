import Mathlib.Logic.Relation
import Mathlib.Tactic.Common

/-! # Maps over paths

A forest, seen through its paths only: what is stored at each path under each root.  A path lists
its keys innermost first, so `key :: path` is a child of `path`, and nothing is stored at `[]`, the
root itself.

* `alter`: change what is stored along some of a root's paths.
* `Pruned`: the outcome of removing leaves, one at a time, while their values are `removable`.
* `Longest`: how far a chain of paths is stored with `usable` values. -/

namespace Metrale.Foundation

abbrev PathMap (Root Key Value : Type*) := Root → List Key → Option Value

namespace PathMap

variable {Root Key Value : Type*}

/-- A stored path's parent is stored, or is the root. -/
def Closed (map : PathMap Root Key Value) : Prop :=
  ∀ {root key path}, (map root (key :: path)).isSome → path ≠ [] → (map root path).isSome

theorem Closed.child_of_below {map : PathMap Root Key Value} (closed : map.Closed) {root : Root}
    {below path : List Key} (proper : below ≠ []) (stored : (map root (below ++ path)).isSome) :
    ∃ key, (map root (key :: path)).isSome := by
  induction below with
  | nil => exact absurd rfl proper
  | cons key below ih =>
    by_cases last : below = []
    · subst last
      exact ⟨key, stored⟩
    · exact ih last (closed stored (by simp [last]))

section Alter

variable [DecidableEq Root]

/-- Change what is stored at the paths of `root` that meet `on`. -/
def alter (map : PathMap Root Key Value) (root : Root) (on : List Key → Prop) [DecidablePred on]
    (change : List Key → Option Value → Option Value) : PathMap Root Key Value :=
  fun other path => if other = root ∧ on path then change path (map other path) else map other path

variable (map : PathMap Root Key Value) {root : Root} {on : List Key → Prop} [DecidablePred on]
  {change : List Key → Option Value → Option Value}

theorem alter_of_on {path : List Key} (member : on path) :
    map.alter root on change root path = change path (map root path) := by
  simp [alter, member]

theorem alter_of_not_on (other : Root) {path : List Key} (outside : ¬ on path) :
    map.alter root on change other path = map other path := by
  simp [alter, outside]

end Alter

/-! ## Pruning -/

section Prune

variable [DecidableEq Root] [DecidableEq Key]

/-- The map with nothing at one path. -/
def without (map : PathMap Root Key Value) (root : Root) (path : List Key) : PathMap Root Key Value :=
  fun other otherPath => if other = root ∧ otherPath = path then none else map other otherPath

/-- Remove one leaf. -/
inductive Prune (removable : Value → Prop) : PathMap Root Key Value → PathMap Root Key Value → Prop where
  | remove {map : PathMap Root Key Value} {root : Root} {path : List Key} {value : Value} :
      map root path = some value → removable value → (∀ key, map root (key :: path) = none) →
      Prune removable map (map.without root path)

abbrev Pruned (removable : Value → Prop) : PathMap Root Key Value → PathMap Root Key Value → Prop :=
  Relation.ReflTransGen (Prune removable)

variable {removable : Value → Prop} {before after : PathMap Root Key Value} {root : Root}
  {path below : List Key} {value : Value}

theorem without_eq_some (map : PathMap Root Key Value) (removed : List Key) (other : Root)
    (stored : map.without other removed root path = some value) : map root path = some value := by
  simp only [without] at stored
  split at stored
  · cases stored
  · exact stored

namespace Prune

theorem restricts (step : Prune removable before after) (stored : after root path = some value) :
    before root path = some value := by
  cases step with
  | remove _ _ _ => exact without_eq_some _ _ _ stored

theorem closed (step : Prune removable before after) (closed : before.Closed) : after.Closed := by
  cases step with
  | @remove other removed gone stored allowed leaf =>
    intro root key path kept proper
    obtain ⟨value, kept⟩ := Option.isSome_iff_exists.mp kept
    have old := without_eq_some _ _ _ kept
    have parent := closed (by rw [old]; rfl) proper
    simp only [without]
    split
    · next same =>
      obtain ⟨rfl, rfl⟩ := same
      rw [leaf key] at old
      cases old
    · exact parent

/-- A value that may not be removed protects its path and every path above it. -/
theorem keeps (step : Prune removable before after) (closed : before.Closed)
    (stored : before root (below ++ path) = some value) (needed : ¬ removable value) :
    after root path = before root path := by
  cases step with
  | @remove other removed gone found allowed leaf =>
    simp only [without]
    split
    · next same =>
      obtain ⟨rfl, rfl⟩ := same
      by_cases top : below = []
      · subst top
        rw [List.nil_append, found] at stored
        cases stored
        exact absurd allowed needed
      · obtain ⟨key, child⟩ := closed.child_of_below top (by rw [stored]; rfl)
        rw [leaf key] at child
        cases child
    · rfl

theorem keeps_stored (step : Prune removable before after) (closed : before.Closed)
    (stored : before root path = some value) (needed : ¬ removable value) :
    after root path = some value := by
  rw [@keeps _ _ _ _ _ _ _ _ _ _ [] _ step closed stored needed, stored]

end Prune

theorem Pruned.restricts (steps : Pruned removable before after)
    (stored : after root path = some value) : before root path = some value := by
  induction steps with
  | refl => exact stored
  | tail _ step ih => exact ih (step.restricts stored)

theorem Pruned.closed (steps : Pruned removable before after) (closed : before.Closed) :
    after.Closed := by
  induction steps with
  | refl => exact closed
  | tail _ step ih => exact step.closed ih

theorem Pruned.keeps_stored (steps : Pruned removable before after) (closed : before.Closed)
    (stored : before root path = some value) (needed : ¬ removable value) :
    after root path = some value := by
  induction steps with
  | refl => exact stored
  | tail earlier step ih =>
    have kept := step.keeps_stored (Pruned.closed earlier closed) ih needed
    exact kept

end Prune

/-! ## Values with more detail

A map may carry values of which another map shows only a part. -/

section MapValues

variable {Detail : Type*} (part : Detail → Value)

def mapValues (map : PathMap Root Key Detail) : PathMap Root Key Value :=
  fun root path => (map root path).map part

theorem mapValues_alter [DecidableEq Root] (map : PathMap Root Key Detail) (root : Root)
    (on : List Key → Prop) [DecidablePred on] {detailed : List Key → Option Detail → Option Detail}
    {change : List Key → Option Value → Option Value}
    (agree : ∀ path stored, (detailed path stored).map part = change path (stored.map part)) :
    (map.alter root on detailed).mapValues part = (map.mapValues part).alter root on change := by
  funext other path
  simp only [mapValues, alter]
  split
  · exact agree path _
  · rfl

variable [DecidableEq Root] [DecidableEq Key] {part}

/-- Pruning what a map shows of its values prunes the map. -/
theorem Pruned.lift {removable : Value → Prop} {map : PathMap Root Key Detail}
    {after : PathMap Root Key Value} (steps : Pruned removable (map.mapValues part) after) :
    ∃ detailed, Pruned (fun value => removable (part value)) map detailed ∧
      detailed.mapValues part = after := by
  induction steps with
  | refl => exact ⟨map, .refl, rfl⟩
  | tail _ step ih =>
    obtain ⟨middle, earlier, rfl⟩ := ih
    cases step with
    | @remove root path value stored allowed leaf =>
      obtain ⟨detail, found, rfl⟩ := Option.map_eq_some_iff.mp stored
      refine ⟨middle.without root path, earlier.tail (.remove found allowed ?_), ?_⟩
      · exact fun key => Option.map_eq_none_iff.mp (leaf key)
      · funext other otherPath
        simp only [mapValues, without]
        split
        · rfl
        · rfl

end MapValues

/-! ## Longest usable chains -/

def Usable (map : PathMap Root Key Value) (usable : Value → Prop) (root : Root) (path : List Key) : Prop :=
  ∃ value, map root path = some value ∧ usable value

/-- `depth` is how many of the first `bound` paths of a chain are usable without a gap. -/
structure Longest (map : PathMap Root Key Value) (usable : Value → Prop) (root : Root)
    (chain : Nat → List Key) (bound depth : Nat) : Prop where
  le_bound : depth ≤ bound
  reached : ∀ i, i < depth → map.Usable usable root (chain (i + 1))
  stopped : depth < bound → ¬ map.Usable usable root (chain (depth + 1))

namespace Longest

variable {map : PathMap Root Key Value} {usable : Value → Prop} {root : Root}
  {chain : Nat → List Key} {bound depth other : Nat}

theorem le_of_reached (longest : Longest map usable root chain bound depth) (le : other ≤ bound)
    (reached : ∀ i, i < other → map.Usable usable root (chain (i + 1))) : other ≤ depth := by
  by_contra beyond
  have strict : depth < other := Nat.lt_of_not_le beyond
  exact longest.stopped (Nat.lt_of_lt_of_le strict le) (reached depth strict)

end Longest

end PathMap

end Metrale.Foundation
