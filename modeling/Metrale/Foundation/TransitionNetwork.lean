import Mathlib.Data.List.Basic
import Mathlib.Logic.Relation

/-! # Recursive transition networks

Each rule has an automaton, whose edges read nothing, one symbol, a string of another rule, or a number of such
strings one after another.  A rule derives the strings that its automaton reads from its start to a final
node. -/

namespace Metrale.Foundation

/-- What an edge reads. -/
inductive EdgeLabel (Rule Symbol : Type) where
  | epsilon
  | symbol (accepts : Symbol → Prop)
  | call (rule : Rule)
  | repeated (rule : Rule) (allowed : Nat → Prop)

structure Network (Rule Node Symbol : Type) where
  start : Rule → Node
  final : Rule → Node → Prop
  edge : Rule → Node → EdgeLabel Rule Symbol → Node → Prop

namespace Network

/-- What a derivation is of: a path of one automaton, a string of a rule, or several strings of a rule. -/
inductive Goal (Rule Node : Type) where
  | path (rule : Rule) (source target : Node)
  | rule (rule : Rule)
  | pieces (rule : Rule) (count : Nat)

inductive Derives {Rule Node Symbol : Type} (net : Network Rule Node Symbol) : Goal Rule Node → List Symbol → Prop where
  | here {rule node} : Derives net (.path rule node node) []
  | epsilon {rule source middle target word} : net.edge rule source .epsilon middle →
      Derives net (.path rule middle target) word → Derives net (.path rule source target) word
  | symbol {rule source middle target accepts head word} : net.edge rule source (.symbol accepts) middle →
      accepts head → Derives net (.path rule middle target) word →
      Derives net (.path rule source target) (head :: word)
  | call {rule source middle target callee inner word} : net.edge rule source (.call callee) middle →
      Derives net (.rule callee) inner → Derives net (.path rule middle target) word →
      Derives net (.path rule source target) (inner ++ word)
  | repeated {rule source middle target callee allowed count inner word} :
      net.edge rule source (.repeated callee allowed) middle → allowed count →
      Derives net (.pieces callee count) inner → Derives net (.path rule middle target) word →
      Derives net (.path rule source target) (inner ++ word)
  | rule {rule target word} : net.final rule target → Derives net (.path rule (net.start rule) target) word →
      Derives net (.rule rule) word
  | none {rule} : Derives net (.pieces rule 0) []
  | more {rule count inner word} : Derives net (.rule rule) inner → Derives net (.pieces rule count) word →
      Derives net (.pieces rule (count + 1)) (inner ++ word)

variable {Rule Node Symbol : Type} {net : Network Rule Node Symbol} {rule callee : Rule}
  {source middle target : Node} {first second inner : List Symbol} {count : Nat}

theorem Derives.append (before : net.Derives (.path rule source middle) first)
    (after : net.Derives (.path rule middle target) second) :
    net.Derives (.path rule source target) (first ++ second) := by
  generalize shape : Goal.path rule source middle = goal at before
  induction before generalizing source with
  | here =>
    cases shape
    exact after
  | epsilon edge _ ih =>
    cases shape
    exact .epsilon edge (ih rfl)
  | symbol edge accepted _ ih =>
    cases shape
    exact .symbol edge accepted (ih rfl)
  | call edge string _ _ ih =>
    cases shape
    rw [List.append_assoc]
    exact .call edge string (ih rfl)
  | repeated edge allowed strings _ _ ih =>
    cases shape
    rw [List.append_assoc]
    exact .repeated edge allowed strings (ih rfl)
  | rule => cases shape
  | none => cases shape
  | more => cases shape

theorem Derives.append_epsilon (before : net.Derives (.path rule source middle) first)
    (edge : net.edge rule middle .epsilon target) : net.Derives (.path rule source target) first := by
  have step : net.Derives (.path rule middle target) [] := .epsilon edge .here
  simpa only [List.append_nil] using before.append step

theorem Derives.append_symbol {accepts : Symbol → Prop} {last : Symbol}
    (before : net.Derives (.path rule source middle) first) (edge : net.edge rule middle (.symbol accepts) target)
    (accepted : accepts last) : net.Derives (.path rule source target) (first ++ [last]) :=
  before.append (.symbol edge accepted .here)

theorem Derives.append_call (before : net.Derives (.path rule source middle) first)
    (edge : net.edge rule middle (.call callee) target) (string : net.Derives (.rule callee) inner) :
    net.Derives (.path rule source target) (first ++ inner) := by
  have step : net.Derives (.path rule middle target) (inner ++ []) := .call edge string .here
  simpa only [List.append_nil] using before.append step

theorem Derives.append_repeated {allowed : Nat → Prop} (before : net.Derives (.path rule source middle) first)
    (edge : net.edge rule middle (.repeated callee allowed) target) (counted : allowed count)
    (strings : net.Derives (.pieces callee count) inner) :
    net.Derives (.path rule source target) (first ++ inner) := by
  have step : net.Derives (.path rule middle target) (inner ++ []) := .repeated edge counted strings .here
  simpa only [List.append_nil] using before.append step

theorem Derives.more_last (strings : net.Derives (.pieces callee count) first)
    (last : net.Derives (.rule callee) second) : net.Derives (.pieces callee (count + 1)) (first ++ second) := by
  generalize shape : Goal.pieces callee count = goal at strings
  induction strings generalizing count with
  | none =>
    cases shape
    have single : net.Derives (.pieces callee 1) (second ++ []) := .more last .none
    simpa only [List.append_nil, List.nil_append] using single
  | more head _ _ ih =>
    cases shape
    rw [List.append_assoc]
    exact .more head (ih rfl)
  | here => cases shape
  | epsilon => cases shape
  | symbol => cases shape
  | call => cases shape
  | repeated => cases shape
  | rule => cases shape

/-- Some edge leads from one node of the automaton to the other. -/
def Adjacent (net : Network Rule Node Symbol) (rule : Rule) (source target : Node) : Prop :=
  ∃ label, net.edge rule source label target

/-- A final node can be reached from the node. -/
def CoAccessible (net : Network Rule Node Symbol) (rule : Rule) (node : Node) : Prop :=
  ∃ target, Relation.ReflTransGen (net.Adjacent rule) node target ∧ net.final rule target

theorem Derives.reaches (path : net.Derives (.path rule source target) first) :
    Relation.ReflTransGen (net.Adjacent rule) source target := by
  generalize shape : Goal.path rule source target = goal at path
  induction path generalizing source with
  | here =>
    cases shape
    exact .refl
  | epsilon edge _ ih =>
    cases shape
    exact .head ⟨_, edge⟩ (ih rfl)
  | symbol edge _ _ ih =>
    cases shape
    exact .head ⟨_, edge⟩ (ih rfl)
  | call edge _ _ _ ih =>
    cases shape
    exact .head ⟨_, edge⟩ (ih rfl)
  | repeated edge _ _ _ _ ih =>
    cases shape
    exact .head ⟨_, edge⟩ (ih rfl)
  | rule => cases shape
  | none => cases shape
  | more => cases shape

end Network

end Metrale.Foundation
