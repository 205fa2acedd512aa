import Mathlib
import Metrale.Foundation.RuleScript

/-! # The grammar builder (`grammar/builder.rs`, `grammar/builder_rules.rs`)

An expression is the body itself instead of its place in the table of expressions. -/

namespace Metrale.Grammar.Ebnf

open Foundation Foundation.RuleScript

/-- A byte string is one symbol, and so is a character class; `other` is any element that the parser of quantifiers does
not look into. -/
inductive Terminal (Leaf : Type) where
  | characterClass (isNegative : Bool) (ranges : List (Int × Int))
  | other (leaf : Leaf)
deriving DecidableEq

variable {Leaf : Type}

abbrev Expr (Leaf : Type) := RuleBody (Terminal Leaf)

/-- `body` is `none` for `-1`: a rule that has no body yet. -/
structure Rule (Leaf : Type) where
  name : String
  body : Option (Expr Leaf)
  lookaheadAssertion : Option (Expr Leaf)
deriving DecidableEq

inductive BuilderError where
  | duplicateRule (name : String)
  | ruleIdOutOfRange (rule : Nat)
deriving DecidableEq

abbrev Builder (Leaf : Type) := List (Rule Leaf)

namespace Builder

/-- The `CharacterClassStar` of a class, which is the class any number of times. -/
def characterClassStar (isNegative : Bool) (ranges : List (Int × Int)) : Expr Leaf :=
  .repeated (.atom (.characterClass isNegative ranges)) 0 none

/-- `Repeat`, as the parser counts (`earley/complete.rs`): the rule is always read a first time, once more while the
count is below `max`, and it may end at each count from `min` on. -/
def addRepeat (rule : Nat) (minRepeat maxRepeat : Int) : Expr Leaf :=
  .repeated (.ref rule) minRepeat.toNat (some (max 1 maxRepeat).toNat)

variable (builder : Builder Leaf)

def names : List String := builder.map Rule.name

def candidates (hint : String) : List String :=
  (List.range (builder.length + 1)).map fun count => s!"{hint}_{count + 1}"

def getNewRuleName (hint : String) : String :=
  if hint ∉ builder.names then hint
  else ((builder.candidates hint).find? fun candidate => candidate ∉ builder.names).getD hint

def addRule (rule : Rule Leaf) : Except BuilderError (Nat × Builder Leaf) :=
  if rule.name ∈ builder.names then .error (.duplicateRule rule.name)
  else .ok (builder.length, builder ++ [rule])

def addEmptyRule (name : String) : Except BuilderError (Nat × Builder Leaf) := builder.addRule ⟨name, none, none⟩

def addRuleWithHint (hint : String) (body : Expr Leaf) : Except BuilderError (Nat × Builder Leaf) :=
  builder.addRule ⟨builder.getNewRuleName hint, some body, none⟩

def updateRuleBody (rule : Nat) (body : Expr Leaf) : Except BuilderError (Builder Leaf) :=
  if rule < builder.length then .ok (builder.modify rule fun old => { old with body := some body })
  else .error (.ruleIdOutOfRange rule)

def updateLookaheadAssertion (rule : Nat) (assertion : Expr Leaf) : Except BuilderError (Builder Leaf) :=
  if rule < builder.length then .ok (builder.modify rule fun old => { old with lookaheadAssertion := some assertion })
  else .error (.ruleIdOutOfRange rule)

variable {builder}

theorem candidates_nodup (hint : String) : (builder.candidates hint).Nodup := by
  refine List.Nodup.map (fun left right same => ?_) List.nodup_range
  have suffixes := congrArg String.toList same
  simp only [String.toList_append] at suffixes
  have digits := String.toList_inj.mp (List.append_cancel_left suffixes)
  have equal := Nat.repr_inj.mp digits
  omega

theorem getNewRuleName_fresh (hint : String) : builder.getNewRuleName hint ∉ builder.names := by
  unfold getNewRuleName
  split
  · next fresh => exact fresh
  · next taken =>
    cases found : (builder.candidates hint).find? fun candidate => candidate ∉ builder.names with
    | some candidate => simpa using List.find?_some found
    | none =>
      have all : builder.candidates hint ⊆ builder.names := fun candidate member => by
        simpa using List.find?_eq_none.mp found candidate member
      have short := ((candidates_nodup hint).subperm all).length_le
      simp [candidates, names] at short

theorem addEmptyRule_fresh (hint : String) : builder.addEmptyRule (builder.getNewRuleName hint) =
    .ok (builder.length, builder ++ [⟨builder.getNewRuleName hint, none, none⟩]) :=
  if_neg (getNewRuleName_fresh hint)

theorem addRuleWithHint_fresh (hint : String) (body : Expr Leaf) : ∃ rule : Rule Leaf, rule.body = some body ∧
    builder.addRuleWithHint hint body = .ok (builder.length, builder ++ [rule]) :=
  ⟨⟨builder.getNewRuleName hint, some body, none⟩, rfl, if_neg (getNewRuleName_fresh hint)⟩

end Builder

end Metrale.Grammar.Ebnf
