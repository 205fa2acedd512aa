import Metrale.Grammar.Schema.ObjectRules

/-! # The grammar of an object

The rules that the converter writes have the texts of exactly the objects that the schema describes, unless its
largest number of properties is lost in the cast to `i32`. -/

namespace Metrale.Grammar

open Metrale.Foundation Metrale.Foundation.RuleScript

namespace ObjectSpec

inductive LaidOut : List Fragment → List Fragment → Prop where
  | empty : LaidOut [] [.openBrace, .closeBrace]
  | blank : LaidOut [] [.openBrace, .whitespace, .closeBrace]
  | keys (key : Fragment) (rest : List Fragment) :
      LaidOut (key :: rest) (.openBrace :: .firstSep :: key :: (furtherText rest ++ [.lastSep, .closeBrace]))

variable {spec : ObjectSpec} {script : Script} {body : Body} {word : List Fragment} {anyWhitespace : Bool}

structure DerivesObjects (spec : ObjectSpec) (script : Script) (body : Body) : Prop where
  sound : ∀ word ∈ words script body, ∃ keys, spec.Object keys ∧ LaidOut keys word
  complete : ∀ keys, spec.Object keys → ∃ word ∈ words script body, LaidOut keys word

/-- No index is out of range, and the rules have the texts of the objects, whatever rules come later. -/
def Generates (spec : ObjectSpec) (anyWhitespace : Bool) (script : Script) : Prop :=
  ∃ rules body, spec.generateObject anyWhitespace script = some (rules, body) ∧
    ∀ more, spec.DerivesObjects (rules ++ more) body

/-! ## Objects with and without a key -/

def withKey (spec : ObjectSpec) : Language Fragment := {[.openBrace]} * (spec.inner * {[.closeBrace]})

theorem mem_withKey : word ∈ spec.withKey ↔ ∃ key rest, spec.Object (key :: rest) ∧
    word = .openBrace :: .firstSep :: key :: (furtherText rest ++ [.lastSep, .closeBrace]) := by
  rw [withKey, inner, mul_assoc, mul_assoc, mem_singleton_mul]
  constructor
  · rintro ⟨_, opening, rfl⟩
    obtain ⟨_, keyed, rfl⟩ := mem_singleton_mul.mp opening
    obtain ⟨_, ⟨key, rest, arranged, counts, rfl⟩, _, closing, rfl⟩ := Language.mem_mul.mp keyed
    obtain ⟨_, rfl, rfl⟩ := mem_singleton_mul.mp closing
    exact ⟨key, rest, ⟨arranged, counts⟩, rfl⟩
  · rintro ⟨key, rest, ⟨arranged, counts⟩, rfl⟩
    refine ⟨_, mem_singleton_mul.mpr ⟨_, Language.mem_mul.mpr ⟨_, ⟨key, rest, arranged, counts, rfl⟩, _, ?_, rfl⟩, rfl⟩, rfl⟩
    exact mem_singleton_mul.mpr ⟨_, rfl, rfl⟩

theorem object_nil (feasible : spec.Feasible) : spec.Object [] ↔ spec.required.isEmpty = true ∧ spec.minProperties = 0 := by
  rw [feasible.required_isEmpty]
  constructor
  · rintro ⟨arranged, ⟨lower, -⟩⟩
    have enough := (arranged.length (Nat.zero_add _)).1
    have positive := feasible.lower
    exact ⟨Nat.le_zero.mp enough, by simpa using le_antisymm lower positive⟩
  · rintro ⟨none, lower⟩
    refine ⟨⟨[], [], rfl, List.nil_sublist _, fun i _ required => ?_, fun _ member => by cases member⟩, ?_, ?_⟩
    · rw [requiredFrom, List.drop_zero, List.count_eq_zero] at none
      exact absurd (List.mem_of_getElem? required) none
    · exact lower.le
    · have := feasible.upper
      rw [List.length_nil]
      omega

theorem derivesObjects {blank : Language Fragment} (means : Means script body (spec.withKey + blank))
    (blankWords : ∀ word ∈ blank, spec.Object [] ∧ LaidOut [] word) (some : spec.Object [] → ∃ word, word ∈ blank)
    (more : Script) : spec.DerivesObjects (script ++ more) body := by
  constructor
  · intro word derives
    rw [means more, Language.mem_add] at derives
    obtain keyed | empty := derives
    · obtain ⟨key, rest, object, rfl⟩ := mem_withKey.mp keyed
      exact ⟨key :: rest, object, .keys key rest⟩
    · obtain ⟨object, laidOut⟩ := blankWords word empty
      exact ⟨[], object, laidOut⟩
  · intro keys object
    rw [means more]
    cases keys with
    | nil =>
      obtain ⟨word, member⟩ := some object
      exact ⟨word, (Language.mem_add ..).mpr (.inr member), (blankWords word member).2⟩
    | cons key rest =>
      exact ⟨_, (Language.mem_add ..).mpr (.inl (mem_withKey.mpr ⟨key, rest, object, rfl⟩)), .keys key rest⟩

/-! ## The braces -/

theorem braces_means (means : Means script body spec.inner) : Means script (braces (some body)) spec.withKey :=
  (Means.atom _).seq (means.seq (Means.atom _))

def emptyText (anyWhitespace : Bool) : List Fragment :=
  if anyWhitespace then [.openBrace, .whitespace, .closeBrace] else [.openBrace, .closeBrace]

theorem LaidOut.emptyText : (anyWhitespace : Bool) → LaidOut [] (emptyText anyWhitespace)
  | true => .blank
  | false => .empty

theorem braces_none_means : Means script (braces none) {[.openBrace, .closeBrace]} := by
  intro more
  rw [braces, words_seq, words_atom, words_atom]
  ext word
  rw [mem_singleton_mul]
  constructor
  · rintro ⟨_, rfl, rfl⟩
    rfl
  · rintro rfl
    exact ⟨_, rfl, rfl⟩

theorem emptyObject_means : Means script (emptyObject anyWhitespace) {emptyText anyWhitespace} := by
  cases anyWhitespace with
  | false => exact braces_none_means
  | true =>
    intro more
    rw [emptyObject, if_pos rfl, words_seq, words_seq, words_atom, words_atom, words_atom]
    ext word
    rw [mem_singleton_mul]
    constructor
    · rintro ⟨_, blank, rfl⟩
      obtain ⟨_, rfl, rfl⟩ := mem_singleton_mul.mp blank
      rfl
    · rintro rfl
      exact ⟨_, mem_singleton_mul.mpr ⟨_, rfl, rfl⟩, rfl⟩

theorem withKey_eq_zero (full : spec.maxProperties = 0) : spec.withKey = 0 := by
  ext word
  refine iff_of_false ?_ (Language.notMem_zero word)
  intro member
  obtain ⟨key, rest, ⟨-, -, upper⟩, -⟩ := mem_withKey.mp member
  rw [List.length_cons, full] at upper
  omega

theorem derives_with_empty (object : spec.Object []) {text : List Fragment} (laidOut : LaidOut [] text)
    (means : Means script body (spec.withKey + {text})) (more : Script) : spec.DerivesObjects (script ++ more) body :=
  derivesObjects means (fun _ same => ⟨object, Set.mem_singleton_iff.mp same ▸ laidOut⟩) (fun _ => ⟨text, rfl⟩) more

theorem derives_without_empty (object : ¬ spec.Object []) (means : Means script body spec.withKey) (more : Script) :
    spec.DerivesObjects (script ++ more) body :=
  derivesObjects (by rwa [add_zero]) (fun word member => absurd member (Language.notMem_zero word))
    (fun empty => absurd empty object) more

/-! ## All of the object -/

theorem partialRuleForProperties_means (feasible : spec.Feasible) (fits : spec.UpperFits) (named : spec.properties ≠ [])
    (open' : spec.maxProperties ≠ 0) :
    ∃ more body, spec.partialRuleForProperties script = some (script ++ more, some body) ∧
      Means (script ++ more) body spec.inner := by
  rw [partialRuleForProperties, if_neg open']
  by_cases unbounded : spec.minProperties = 0 ∧ spec.maxProperties = -1
  · obtain ⟨more, body, written, means⟩ := @partialRuleCase1_means spec script unbounded feasible named
    refine ⟨more, body, ?_, means⟩
    rw [if_pos unbounded, written]
  · obtain ⟨more, body, written, means⟩ := @partialRuleConstrained_means spec script feasible fits named open'
    refine ⟨more, body, ?_, means⟩
    rw [if_neg unbounded, written]
    rfl

theorem generates_named (feasible : spec.Feasible) (fits : spec.UpperFits) (named : spec.properties ≠ []) :
    spec.Generates anyWhitespace script := by
  have listed : (!spec.properties.isEmpty) = true := by simpa using named
  have couldBeEmpty : spec.Object [] ↔ (spec.required.isEmpty && spec.minProperties == 0) = true := by
    rw [object_nil feasible, Bool.and_eq_true, beq_iff_eq]
  rw [Generates, generateObject, if_pos listed]
  by_cases full : spec.maxProperties = 0
  · have object : spec.Object [] := by
      have bounds := feasible.upper
      have lower := feasible.lower
      have enough := feasible.required_le (by omega) 0
      exact (object_nil feasible).mpr ⟨feasible.required_isEmpty.mpr (by omega), by omega⟩
    have means : Means script (emptyObject anyWhitespace) (spec.withKey + {emptyText anyWhitespace}) := by
      rw [withKey_eq_zero full, zero_add]
      exact emptyObject_means
    refine ⟨script, emptyObject anyWhitespace, ?_, derives_with_empty object (.emptyText anyWhitespace) means⟩
    rw [partialRuleForProperties, if_pos full, couldBeEmpty.mp object]
    rfl
  · obtain ⟨more, body, written, means⟩ := @partialRuleForProperties_means spec script feasible fits named full
    rw [written]
    by_cases object : spec.Object []
    · rw [couldBeEmpty.mp object]
      exact ⟨_, _, rfl, derives_with_empty object (.emptyText anyWhitespace) ((braces_means means).alt emptyObject_means)⟩
    · rw [Bool.eq_false_iff.mpr (mt couldBeEmpty.mpr object)]
      exact ⟨_, _, rfl, derives_without_empty object (braces_means means)⟩

theorem otherProperties_inner {additional : AdditionalProperty} (feasible : spec.Feasible)
    (some : spec.additionalProperty = some additional) (unnamed : spec.properties.length = 0)
    (open' : spec.maxProperties ≠ 0) : Means script (spec.otherProperties additional) spec.inner := by
  have within : spec.maxProperties = -1 ∨ ((1 : Nat) : Int) ≤ spec.maxProperties := by
    have bounds := feasible.upper
    have lower := feasible.lower
    omega
  have rest := @otherProperties_means spec script additional 1 feasible some within
  rw [inner, ← unnamed, opened_end some, openedBy, mul_assoc]
  exact (Means.atom _).seq ((Means.atom _).seq (rest.seq (Means.atom _)))

theorem generates_unnamed (feasible : spec.Feasible) (unnamed : spec.properties = []) :
    spec.Generates anyWhitespace script := by
  have none : spec.required = [] := List.subset_nil.mp (unnamed ▸ feasible.requiredListed)
  have lower := feasible.lower
  have object : spec.Object [] ↔ spec.minProperties = 0 := by
    rw [object_nil feasible, none]
    exact and_iff_right rfl
  have listed : ¬ (!spec.properties.isEmpty) = true := by simp [unnamed]
  have last : spec.properties.length = 0 := by rw [unnamed]; rfl
  rw [Generates, generateObject, if_neg listed]
  cases additional : spec.additionalProperty with
  | none =>
    have reachable := feasible.reachable additional
    have means : Means script (braces .none) (spec.withKey + {[.openBrace, .closeBrace]}) := by
      rw [withKey, inner, ← last, opened_eq_zero (Nat.add_zero _) additional (.inr rfl), zero_mul, mul_zero, zero_mul,
        mul_zero, zero_add]
      exact braces_none_means
    exact ⟨script, _, rfl, derives_with_empty (object.mpr (by omega)) .empty means⟩
  | some other =>
    dsimp only
    by_cases full : spec.maxProperties = 0
    · have zero : spec.minProperties = 0 := by
        have bounds := feasible.upper
        omega
      have means : Means script (.alt (braces .none) (emptyObject anyWhitespace))
          (spec.withKey + ({[.openBrace, .closeBrace]} + {emptyText anyWhitespace})) := by
        rw [withKey_eq_zero full, zero_add]
        exact braces_none_means.alt emptyObject_means
      rw [if_neg (not_not.mpr full), if_pos zero]
      refine ⟨script, _, rfl, derivesObjects means (fun word member => ⟨object.mpr zero, ?_⟩) fun _ =>
        ⟨_, (Language.mem_add ..).mpr (.inl rfl)⟩⟩
      obtain same | same := (Language.mem_add ..).mp member
      · exact Set.mem_singleton_iff.mp same ▸ .empty
      · exact Set.mem_singleton_iff.mp same ▸ .emptyText anyWhitespace
    · have means := braces_means (@otherProperties_inner spec script other feasible additional last full)
      rw [if_pos full]
      by_cases zero : spec.minProperties = 0
      · rw [if_pos zero]
        exact ⟨script, _, rfl, derives_with_empty (object.mpr zero) (.emptyText anyWhitespace) (means.alt emptyObject_means)⟩
      · rw [if_neg zero]
        exact ⟨script, _, rfl, derives_without_empty (mt object.mp zero) means⟩

theorem generates_of_fits (feasible : spec.Feasible) (fits : spec.UpperFits) : spec.Generates anyWhitespace script := by
  by_cases unnamed : spec.properties = []
  · exact generates_unnamed feasible unnamed
  · exact generates_named feasible fits unnamed

end ObjectSpec

end Metrale.Grammar
