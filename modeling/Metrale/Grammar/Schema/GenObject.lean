import Metrale.Foundation.RuleScript

/-! # Rules for objects (`schema/gen_object.rs`, `gen_object_props.rs`, `gen_object_props_constrained.rs`)

The converter writes the rules of an object in JSON format.  What a named property, another property or a separator
looks like is a fragment of its own here, and a rule body is the tree of what the source writes as text.  `none` is
an index out of range. -/

namespace Metrale.Grammar

open Metrale.Foundation

/-- Where the schema of the other properties comes from. -/
inductive AdditionalProperty where
  | addl
  | uneval
  | any
deriving DecidableEq

inductive Fragment where
  | openBrace
  | closeBrace
  | whitespace
  | firstSep
  | midSep
  | lastSep
  | property (index : Nat)
  | other (additional : AdditionalProperty)
deriving DecidableEq

abbrev Body := RuleBody Fragment

abbrev Script := RuleScript Fragment

/-- Of the schemas only whether they are there.  `maxProperties` is `-1` where there is no bound. -/
structure ObjectSpec where
  properties : List String
  required : List String
  allowAdditionalProperties : Bool
  additionalPropertiesSchema : Bool
  allowUnevaluatedProperties : Bool
  unevaluatedPropertiesSchema : Bool
  minProperties : Int
  maxProperties : Int

/-- The cast to `i32` wraps. -/
def asI32 (value : Int) : Int := value.bmod 4294967296

theorem asI32_exact {value : Int} (lower : -2147483648 ≤ value) (upper : value < 2147483648) : asI32 value = value :=
  Int.bmod_eq_of_le (by omega) (by omega)

theorem asI32_lt (value : Int) : asI32 value < 2147483648 := by
  have bound := @Int.bmod_lt value 4294967296 (by omega)
  rw [asI32]
  omega

def ObjectSpec.additionalProperty (spec : ObjectSpec) : Option AdditionalProperty :=
  if spec.allowAdditionalProperties && spec.additionalPropertiesSchema then some .addl
  else if spec.allowUnevaluatedProperties && spec.unevaluatedPropertiesSchema then some .uneval
  else if spec.allowAdditionalProperties || spec.allowUnevaluatedProperties then some .any
  else none

/-- `pattern`, as often as the bounds leave after some properties. -/
def propertyWithNumberConstraints (pattern : Body) (minProperties maxProperties alreadyRepeated : Int) : Body :=
  if maxProperties ≠ -1 ∧ maxProperties = alreadyRepeated then .empty
  else
    let lower := max 0 (minProperties - alreadyRepeated)
    let upper := if maxProperties = -1 then -1 else max (-1) (maxProperties - alreadyRepeated)
    if lower = 0 ∧ upper = -1 then .repeated pattern 0 none
    else if lower = 0 ∧ upper = 1 then .repeated pattern 0 (some 1)
    else if lower = 1 ∧ upper = 1 then pattern
    else .repeated pattern lower.toNat (if upper = -1 then none else some upper.toNat)

def further (fragment : Fragment) : Body := .seq (.atom .midSep) (.atom fragment)

def furtherThen (fragment : Fragment) (rest : Body) : Body := .seq (.atom .midSep) (.seq (.atom fragment) rest)

namespace ObjectSpec

variable (spec : ObjectSpec)

def isRequired (name : String) : Bool := spec.required.contains name

def requiredFlags : List Bool := spec.properties.map spec.isRequired

/-! ## Without bounds -/

/-- The rules for what follows property `i`, and every later one, before the last. -/
def partRules (script : Script) (lastName : Body) : Nat → List Bool → Script × List Body
  | _, [] => (script, [lastName])
  | i, isRequired :: later =>
    let (script, names) := partRules script lastName (i + 1) later
    let next := names.headD lastName
    let taken := furtherThen (.property (i + 1)) next
    let body := if isRequired then taken else .alt next taken
    (script ++ [body], .ref script.length :: names)

def rootAlternatives : Nat → List (Bool × Body) → List Body
  | _, [] => []
  | i, (isRequired, name) :: rest =>
    .seq (.atom (.property i)) name :: if isRequired then [] else rootAlternatives (i + 1) rest

def lastRule (script : Script) : Script × Body :=
  match spec.additionalProperty with
  | some additional => (script ++ [.repeated (further (.other additional)) 0 none], .ref script.length)
  | none => (script, .empty)

def partialRuleCase1 (script : Script) : Script × Body :=
  let (script, lastName) := spec.lastRule script
  let (script, names) := partRules script lastName 0 spec.requiredFlags.tail
  let named := rootAlternatives 0 (spec.requiredFlags.zip names)
  let others :=
    match spec.additionalProperty with
    | some additional => if spec.required.isEmpty then [.seq (.atom (.other additional)) (names.getLastD .empty)] else []
    | none => []
  (script, .seq (.atom .firstSep) (.seq (.choice (named ++ others)) (.atom .lastSep)))

/-! ## With bounds -/

/-- How many keys there may be up to a property: `key_matched_min`, `key_matched_max` and `is_required`. -/
structure KeyRange where
  min : Int
  max : Int
  isRequired : Bool

/-- The pass from the first property on.  Before the first required one, some key is enough. -/
def forwardRanges (getFirstRequired : Bool) (previous : KeyRange) : List Bool → List KeyRange
  | [] => []
  | isRequired :: later =>
    let matched := if isRequired then previous.min + 1 else previous.min
    let range : KeyRange := ⟨if getFirstRequired then matched else 1, previous.max + 1, isRequired⟩
    range :: forwardRanges (getFirstRequired || isRequired) range later

def hasMax : Bool := spec.maxProperties != -1

def boundLast (range : KeyRange) : KeyRange :=
  { range with
    min := if spec.additionalProperty.isSome then max 1 range.min else max (asI32 spec.minProperties) range.min
    max := if spec.hasMax then min (asI32 spec.maxProperties) range.max else range.max }

def boundBefore (range next : KeyRange) : KeyRange :=
  { range with
    min := max range.min (next.min - 1)
    max :=
      if spec.hasMax then min range.max (if next.isRequired then asI32 (next.max - 1) else next.max) else range.max }

def backwardRanges : List KeyRange → List KeyRange
  | [] => []
  | range :: later =>
    match backwardRanges later with
    | [] => [spec.boundLast range]
    | next :: rest => spec.boundBefore range next :: next :: rest

def keyRanges : List KeyRange :=
  match spec.requiredFlags with
  | [] => []
  | isRequired :: later => spec.backwardRanges (⟨1, 1, isRequired⟩ :: forwardRanges isRequired ⟨1, 1, isRequired⟩ later)

def upperFor (i : Nat) (range : KeyRange) : Int := if spec.hasMax then range.max else i + 1

/-- `lo..=hi`. -/
def inclusive (lo hi : Int) : List Int := (List.range (hi + 1 - lo).toNat).map fun (offset : Nat) => lo + offset

def nameAt (names : List Body) (index : Int) : Option Body := if 0 ≤ index then names[index.toNat]? else none

/-- What follows property `i` when so many keys are matched. -/
def partBody (i : Nat) (next : KeyRange) (nextNames : List Body) (matched : Int) : Option Body :=
  if spec.hasMax ∧ matched = next.max then nameAt nextNames (matched - next.min)
  else if next.isRequired ∨ matched = next.min - 1 then do
    let name ← nameAt nextNames (matched + 1 - next.min)
    return furtherThen (.property (i + 1)) name
  else do
    let skipped ← nameAt nextNames (matched - next.min)
    let taken ← nameAt nextNames (matched - next.min + 1)
    return .alt skipped (furtherThen (.property (i + 1)) taken)

def lastNames (script : Script) (i : Nat) (range : KeyRange) : Script × List Body :=
  let counts := inclusive range.min (spec.upperFor i range)
  match spec.additionalProperty with
  | some additional => script.addRules (counts.map fun matched =>
      propertyWithNumberConstraints (further (.other additional)) spec.minProperties spec.maxProperties matched)
  | none => (script, counts.map fun _ => .empty)

/-- The names for property `i` and every later one. -/
def partNames (script : Script) : Nat → List KeyRange → Option (Script × List (List Body))
  | _, [] => some (script, [])
  | i, [range] =>
    let (script, names) := spec.lastNames script i range
    some (script, [names])
  | i, range :: next :: later => do
    let (script, names) ← partNames script (i + 1) (next :: later)
    let nextNames ← names.head?
    let bodies ← (inclusive range.min (spec.upperFor i range)).mapM (spec.partBody i next nextNames)
    let (script, current) := script.addRules bodies
    return (script, current :: names)

def boundedAlternatives : Nat → List (KeyRange × List Body) → Option (List Body)
  | _, [] => some []
  | i, (range, names) :: rest =>
    if spec.hasMax ∧ range.max < range.min then boundedAlternatives (i + 1) rest
    else if 1 < range.min then some []
    else do
      let name ← nameAt names (1 - range.min)
      let later ← if range.isRequired then some [] else boundedAlternatives (i + 1) rest
      return .seq (.atom (.property i)) name :: later

def partialRuleConstrained (script : Script) : Option (Script × Body) := do
  let (script, names) ← spec.partNames script 0 spec.keyRanges
  let named ← spec.boundedAlternatives 0 (spec.keyRanges.zip names)
  let others :=
    match spec.additionalProperty with
    | some additional =>
      if spec.required.isEmpty then
        [.seq (.atom (.other additional))
          (propertyWithNumberConstraints (further (.other additional)) spec.minProperties spec.maxProperties 1)]
      else []
    | none => []
  return (script, .seq (.atom .firstSep) (.seq (.choice (named ++ others)) (.atom .lastSep)))

/-! ## Objects -/

/-- The named properties.  Without a key nothing is written. -/
def partialRuleForProperties (script : Script) : Option (Script × Option Body) :=
  if spec.maxProperties = 0 then some (script, none)
  else if spec.minProperties = 0 ∧ spec.maxProperties = -1 then
    let (script, body) := spec.partialRuleCase1 script
    some (script, some body)
  else (spec.partialRuleConstrained script).map fun (script, body) => (script, some body)

def braces (inner : Option Body) : Body :=
  .seq (.atom .openBrace)
    (match inner with
    | some inner => .seq inner (.atom .closeBrace)
    | none => .atom .closeBrace)

def emptyObject (anyWhitespace : Bool) : Body :=
  if anyWhitespace then .seq (.atom .openBrace) (.seq (.atom .whitespace) (.atom .closeBrace)) else braces none

def otherProperties (additional : AdditionalProperty) : Body :=
  .seq (.atom .firstSep)
    (.seq (.atom (.other additional))
      (.seq
        (propertyWithNumberConstraints (further (.other additional)) spec.minProperties spec.maxProperties 1)
        (.atom .lastSep)))

/-- `generate_object`, for schemas without patterns for the keys. -/
def generateObject (anyWhitespace : Bool) (script : Script) : Option (Script × Body) :=
  if !spec.properties.isEmpty then do
    let (script, inner) ← spec.partialRuleForProperties script
    let couldBeEmpty := spec.required.isEmpty && spec.minProperties == 0
    return (script,
      if !couldBeEmpty then braces inner
      else if inner.isNone then emptyObject anyWhitespace
      else .alt (braces inner) (emptyObject anyWhitespace))
  else
    match spec.additionalProperty with
    | some additional =>
      let body := braces (if spec.maxProperties ≠ 0 then some (spec.otherProperties additional) else none)
      some (script, if spec.minProperties = 0 then .alt body (emptyObject anyWhitespace) else body)
    | none => some (script, braces none)

end ObjectSpec

end Metrale.Grammar
