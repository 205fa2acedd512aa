import Metrale.Grammar.Schema.NamedProperties

/-! # The rules of an object

The first rule of an object chooses its first key.  With the rules of the named properties behind it the choice has
the texts of all objects with a key; the braces and the empty object make up the rest. -/

namespace Metrale.Grammar

open Metrale.Foundation Metrale.Foundation.RuleScript

namespace ObjectSpec

variable {spec : ObjectSpec} {script : Script} {i room : Nat}

/-! ## The first key -/

theorem openedBy_means {key : Fragment} {name : Body} (means : Means script name (spec.following i 1)) :
    Means script (.seq (.atom key) name) (spec.openedBy key i) :=
  (Means.atom key).seq means

/-- Before a required property the least count is one, or what the later properties leave over. -/
theorem least_count (whole : i + 1 + room = spec.properties.length) (before : spec.requiredBefore i = 0) :
    (spec.keyRange i).min = 1 ∨
      (spec.additionalProperty = none ∧ 1 < (spec.keyRange i).min ∧ (spec.keyRange i).min + room = spec.minProperties) := by
  obtain ⟨isRequired, flag⟩ := @flag_of_lt spec i (by omega)
  have passed := requiredBefore_step flag
  have few : spec.requiredBefore (i + 1) ≤ 1 := by split at passed <;> omega
  obtain ⟨least, same⟩ : ∃ least : Nat, (spec.keyRange i).min = least := by
    have one : 1 ≤ (spec.keyRange i).min := (le_max_left _ _).trans (le_max_left _ _)
    exact Int.eq_ofNat_of_zero_le (by omega)
  rw [same]
  obtain ⟨one, -, reach⟩ := (keyRange_min_le whole).mp same.le
  by_cases single : least = 1
  · exact .inl (by omega)
  · have fewer := mt (@keyRange_min_le spec (least - 1) i room whole).mpr (by omega)
    have closed : ¬ (spec.additionalProperty = none → spec.minProperties ≤ (least - 1 : Nat) + room) :=
      fun enough => fewer ⟨by omega, by omega, enough⟩
    obtain ⟨none, short⟩ := not_forall.mp closed
    have := reach none
    exact .inr ⟨none, by omega, by omega⟩

/-- The range of a property that may come first has no count in it: too many required ones are still to come. -/
theorem empty_range (feasible : spec.Feasible) (whole : i + 1 + room = spec.properties.length)
    (before : spec.requiredBefore i = 0) (bounded : spec.maxProperties ≠ -1)
    (empty : (spec.keyRange i).max < (spec.keyRange i).min) :
    spec.requiredFlags[i]? = some false ∧ spec.maxProperties = spec.requiredFrom (i + 1) := by
  obtain ⟨isRequired, flag⟩ := @flag_of_lt spec i (by omega)
  have left := requiredFrom_step flag
  have fits := feasible.required_le bounded i
  have fewer := @requiredFrom_le spec (i + 1)
  have bounds := feasible.upper.resolve_left bounded
  have most := keyRange_bounded (i := i) bounded
  obtain one | ⟨none, -, late⟩ := least_count whole before
  · cases isRequired with
    | true =>
      rw [if_pos rfl] at left
      omega
    | false =>
      rw [if_neg Bool.false_ne_true] at left
      exact ⟨flag, by omega⟩
  · have reachable := feasible.reachable none
    omega

theorem boundedAlternatives_means (feasible : spec.Feasible) {names : List (List Body)}
    (whole : i + room = spec.properties.length) (before : spec.requiredBefore i = 0)
    (named : List.Forall₂ (spec.Named script) (List.range' i room) names) :
    ∃ bodies languages, spec.boundedAlternatives i (((List.range' i room).map spec.keyRange).zip names) = some bodies ∧
      List.Forall₂ (Means script) bodies languages ∧
      (0 < room → spec.maxProperties ≠ 0 → (spec.additionalProperty = none → spec.minProperties ≤ room) → languages ≠ []) ∧
      spec.opened i = languages.sum + (if spec.requiredFrom i = 0 then spec.opened spec.properties.length else 0) := by
  induction room generalizing i names with
  | zero =>
    cases whole
    cases named
    refine ⟨[], [], rfl, .nil, fun some => absurd some (Nat.lt_irrefl 0), ?_⟩
    rw [requiredFrom_end, if_pos rfl, List.sum_nil, zero_add]
  | succ room ih =>
    have rest : i + 1 + room = spec.properties.length := by omega
    have present : i < spec.properties.length := by omega
    obtain ⟨isRequired, flag⟩ := flag_of_lt present
    have left := requiredFrom_step flag
    have passed := requiredBefore_step flag
    rw [List.range'_succ] at named ⊢
    cases named with
    | @cons _ here _ names hereNamed others =>
      rw [List.map_cons, List.zip_cons_cons, boundedAlternatives]
      split
      · next empty =>
        have bounded : spec.maxProperties ≠ -1 := bne_iff_ne.mp empty.1
        obtain ⟨optional, full⟩ := empty_range feasible rest before bounded empty.2
        cases flag.symm.trans optional
        rw [if_neg Bool.false_ne_true, Nat.add_zero] at left passed
        obtain ⟨bodies, languages, written, means, more, same⟩ := ih rest (passed.trans before) others
        have fewer := @requiredFrom_le spec (i + 1)
        have bounds := feasible.upper
        refine ⟨bodies, languages, written, means, fun _ some _ => more (by omega) some fun _ => by omega, ?_⟩
        rw [opened_optional present (fun required => by cases flag.symm.trans required), openedBy,
          following_eq_zero rest (.inl ⟨bounded, by omega⟩), mul_zero, zero_add, same, left]
      · next some' =>
        split
        · next late =>
          obtain one | ⟨none, -, few⟩ := least_count rest before
          · omega
          refine ⟨[], [], rfl, .nil, fun _ _ enough => absurd (enough none) (by omega), ?_⟩
          rw [opened_eq_zero whole none (.inl (by omega)), opened_eq_zero (Nat.add_zero _) none (.inr rfl), ite_self,
            List.sum_nil, add_zero]
        · next early =>
          have one : (spec.keyRange i).min = 1 := (least_count rest before).resolve_right fun late => early late.2.1
          have within : ((1 : Nat) : Int) ≤ (spec.keyRange i).max := by
            by_cases unbounded : spec.maxProperties = -1
            · rw [keyRange_unbounded unbounded]
              omega
            · have some' : ¬ (spec.keyRange i).max < (spec.keyRange i).min :=
                fun empty => some' ⟨bne_iff_ne.mpr unbounded, empty⟩
              omega
          have index : 1 - (spec.keyRange i).min = (1 : Nat) - (spec.keyRange i).min := by rw [Nat.cast_one]
          obtain ⟨name, found, nameMeans⟩ := hereNamed.nameAt index one.le within
          have first : Means script (.seq (.atom (.property i)) name) (spec.openedBy (.property i) (i + 1)) :=
            openedBy_means nameMeans
          rw [found, keyRange_isRequired flag]
          cases isRequired with
          | true =>
            rw [if_pos rfl] at left
            refine ⟨_, [_], rfl, .cons first .nil, fun _ _ _ => List.cons_ne_nil _ _, ?_⟩
            rw [opened_required flag, if_neg (by omega), add_zero, List.sum_singleton]
          | false =>
            rw [if_neg Bool.false_ne_true, Nat.add_zero] at left passed
            obtain ⟨bodies, languages, written, means, -, same⟩ := ih rest (passed.trans before) others
            refine ⟨_ :: bodies, _ :: languages, ?_, .cons first means,
              fun _ _ _ => List.cons_ne_nil _ _, ?_⟩
            · rw [written]
              rfl
            · rw [opened_optional present (fun required => by cases flag.symm.trans required), same, left, List.sum_cons,
                add_assoc]

def inner (spec : ObjectSpec) : Language Fragment := {[.firstSep]} * (spec.opened 0 * {[.lastSep]})

theorem Feasible.required_isEmpty (feasible : spec.Feasible) : spec.required.isEmpty = true ↔ spec.requiredFrom 0 = 0 := by
  rw [requiredFrom, List.drop_zero, feasible.count_required, List.isEmpty_iff, List.length_eq_zero_iff]

theorem others_means (feasible : spec.Feasible) {rest : AdditionalProperty → Body}
    (means : ∀ additional ∈ spec.additionalProperty,
      Means script (rest additional) (spec.following spec.properties.length 1)) :
    ∃ languages, List.Forall₂ (Means script)
        (match spec.additionalProperty with
          | some additional => if spec.required.isEmpty then [.seq (.atom (.other additional)) (rest additional)] else []
          | none => [])
        languages ∧
      languages.sum = if spec.requiredFrom 0 = 0 then spec.opened spec.properties.length else 0 := by
  cases additional : spec.additionalProperty with
  | none =>
    refine ⟨[], .nil, ?_⟩
    rw [opened_eq_zero (Nat.add_zero _) additional (.inr rfl), ite_self, List.sum_nil]
  | some other =>
    dsimp only
    by_cases optional : spec.requiredFrom 0 = 0
    · rw [if_pos (feasible.required_isEmpty.mpr optional), if_pos optional]
      refine ⟨[_], .cons (openedBy_means (means other additional)) .nil, ?_⟩
      rw [List.sum_singleton, opened_end additional]
    · rw [if_neg (mt feasible.required_isEmpty.mp optional), if_neg optional]
      exact ⟨[], .nil, List.sum_nil⟩

theorem inner_means {named others : List Body} {languages otherLanguages : List (Language Fragment)}
    (means : List.Forall₂ (Means script) named languages) (otherMeans : List.Forall₂ (Means script) others otherLanguages)
    (some : languages ≠ []) (same : spec.opened 0 = languages.sum + otherLanguages.sum) :
    Means script (.seq (.atom .firstSep) (.seq (.choice (named ++ others)) (.atom .lastSep))) spec.inner := by
  rw [inner, same, ← List.sum_append]
  exact (Means.atom _).seq ((Means.choice (List.rel_append means otherMeans)
    (fun empty => some (List.append_eq_nil_iff.mp empty).1)).seq (Means.atom _))

/-- With bounds that fit, no index is out of range, and the rules have the texts of the objects with a key. -/
theorem partialRuleConstrained_means (feasible : spec.Feasible) (fits : spec.UpperFits) (named : spec.properties ≠ [])
    (open' : spec.maxProperties ≠ 0) :
    ∃ more body, spec.partialRuleConstrained script = some (script ++ more, body) ∧ Means (script ++ more) body spec.inner := by
  obtain ⟨room, whole⟩ := Nat.exists_eq_succ_of_ne_zero (mt List.length_eq_zero_iff.mp named)
  obtain ⟨more, names, written, means⟩ := @partNames_named spec script 0 room feasible (by omega)
  have none : spec.requiredBefore 0 = 0 := Nat.le_zero.mp (requiredBefore_le 0)
  obtain ⟨bodies, languages, alternatives, bodiesMeans, start, same⟩ :=
    @boundedAlternatives_means spec (script ++ more) 0 (room + 1) feasible names (by omega) none means
  have reachable (closed : spec.additionalProperty = .none) : spec.minProperties ≤ (room + 1 : Nat) := by
    have := feasible.reachable closed
    omega
  have within : spec.maxProperties = -1 ∨ ((1 : Nat) : Int) ≤ spec.maxProperties := by
    have := feasible.upper
    have := feasible.lower
    omega
  obtain ⟨otherLanguages, othersMeans, others⟩ := others_means feasible fun additional some =>
    @otherProperties_means spec (script ++ more) additional 1 feasible some within
  refine ⟨more, _, ?_, inner_means bodiesMeans othersMeans (start (Nat.succ_pos room) open' reachable) (others ▸ same)⟩
  rw [partialRuleConstrained, keyRanges_eq feasible fits whole.symm, written]
  simp only [Option.bind_eq_bind, Option.bind_some, alternatives]
  rfl

/-! ## Without bounds -/

def Unbounded (spec : ObjectSpec) : Prop := spec.minProperties = 0 ∧ spec.maxProperties = -1

section unbounded

variable (unbounded : spec.Unbounded)

include unbounded in
theorem Unbounded.counts (total : Nat) : spec.Counts total :=
  ⟨by rw [unbounded.1]; exact Int.natCast_nonneg total, .inl unbounded.2⟩

include unbounded in
theorem Unbounded.following (matched other : Nat) : spec.following i matched = spec.following i other := by
  ext word
  constructor
  · rintro ⟨keys, arranged, -, rfl⟩
    exact ⟨keys, arranged, unbounded.counts _, rfl⟩
  · rintro ⟨keys, arranged, -, rfl⟩
    exact ⟨keys, arranged, unbounded.counts _, rfl⟩

include unbounded in
theorem lastRule_means (feasible : spec.Feasible) : ∃ more lastName, spec.lastRule script = (script ++ more, lastName) ∧
    Means (script ++ more) lastName (spec.following spec.properties.length 1) := by
  rw [lastRule]
  cases additional : spec.additionalProperty with
  | some other =>
    have repeats := @otherProperties_means spec script other 1 feasible additional (.inl unbounded.2)
    rw [unbounded.1, unbounded.2] at repeats
    exact ⟨[_], _, rfl, repeats.rule⟩
  | none =>
    refine ⟨[], .empty, by rw [List.append_nil], ?_⟩
    rw [following_end_none additional (unbounded.counts 1)]
    exact .empty

include unbounded in
theorem partRules_means {lastName : Body} (whole : i + 1 + room = spec.properties.length)
    (last : Means script lastName (spec.following spec.properties.length 1)) :
    ∃ more names, partRules script lastName i (spec.requiredFlags.drop (i + 1)) = (script ++ more, names) ∧
      List.Forall₂ (fun i name => Means (script ++ more) name (spec.following (i + 1) 1)) (List.range' i (room + 1)) names ∧
      names.getLastD .empty = lastName := by
  induction room generalizing i with
  | zero =>
    rw [List.drop_of_length_le (by rw [length_requiredFlags]; omega)]
    refine ⟨[], [lastName], by rw [partRules, List.append_nil], .cons ?_ .nil, rfl⟩
    rw [List.append_nil, show i + 1 = spec.properties.length from whole]
    exact last
  | succ room ih =>
    have present : i + 1 < spec.properties.length := by omega
    obtain ⟨isRequired, flag⟩ := flag_of_lt present
    obtain ⟨more, names, written, means, final⟩ := @ih (i + 1) (by omega)
    rw [List.range'_succ] at means
    cases means with
    | @cons _ next _ names nextMeans others =>
      rw [drop_requiredFlags flag, partRules, written]
      have body : Means (script ++ more)
          (if isRequired then furtherThen (.property (i + 1)) next else .alt next (furtherThen (.property (i + 1)) next))
          (spec.following (i + 1) 1) := by
        have taken := furtherThen_means (i := i + 1) (unbounded.following 1 (1 + 1) ▸ nextMeans)
        cases isRequired with
        | true =>
          rw [if_pos rfl, following_required flag]
          exact taken
        | false =>
          rw [if_neg Bool.false_ne_true, following_optional present fun required => by cases flag.symm.trans required]
          exact nextMeans.alt taken
      refine ⟨more ++ [_], _, Prod.ext (List.append_assoc _ _ _) rfl, ?_, final⟩
      rw [← List.append_assoc, List.range'_succ, List.range'_succ]
      exact .cons body.rule (.cons (nextMeans.extend _) (others.imp fun _ _ means => means.extend _))

theorem rootAlternatives_means {names : List Body} (whole : i + room = spec.properties.length)
    (means : List.Forall₂ (fun i name => Means script name (spec.following (i + 1) 1)) (List.range' i room) names) :
    ∃ languages, List.Forall₂ (Means script) (rootAlternatives i ((spec.requiredFlags.drop i).zip names)) languages ∧
      (0 < room → languages ≠ []) ∧
      spec.opened i = languages.sum + (if spec.requiredFrom i = 0 then spec.opened spec.properties.length else 0) := by
  induction room generalizing i names with
  | zero =>
    cases whole
    cases means
    refine ⟨[], ?_, fun some => absurd some (Nat.lt_irrefl 0), ?_⟩
    · rw [List.zip_nil_right]
      exact .nil
    · rw [requiredFrom_end, if_pos rfl, List.sum_nil, zero_add]
  | succ room ih =>
    have present : i < spec.properties.length := by omega
    obtain ⟨isRequired, flag⟩ := flag_of_lt present
    have left := requiredFrom_step flag
    rw [List.range'_succ] at means
    cases means with
    | @cons _ name _ names nameMeans others =>
      have first : Means script (.seq (.atom (.property i)) name) (spec.openedBy (.property i) (i + 1)) :=
        openedBy_means nameMeans
      rw [drop_requiredFlags flag, List.zip_cons_cons, rootAlternatives]
      cases isRequired with
      | true =>
        rw [if_pos rfl] at left ⊢
        refine ⟨[_], .cons first .nil, fun _ => List.cons_ne_nil _ _, ?_⟩
        rw [opened_required flag, if_neg (by omega), add_zero, List.sum_singleton]
      | false =>
        rw [if_neg Bool.false_ne_true]
        rw [if_neg Bool.false_ne_true, Nat.add_zero] at left
        obtain ⟨languages, laterMeans, -, same⟩ := @ih (i + 1) names (by omega) others
        refine ⟨_ :: languages, .cons first laterMeans, fun _ => List.cons_ne_nil _ _, ?_⟩
        rw [opened_optional present (fun required => by cases flag.symm.trans required), same, left,
          List.sum_cons, add_assoc]

include unbounded in
theorem partialRuleCase1_means (feasible : spec.Feasible) (named : spec.properties ≠ []) :
    ∃ more body, spec.partialRuleCase1 script = (script ++ more, body) ∧ Means (script ++ more) body spec.inner := by
  obtain ⟨room, whole⟩ := Nat.exists_eq_succ_of_ne_zero (mt List.length_eq_zero_iff.mp named)
  obtain ⟨more, lastName, lastWritten, last⟩ := @lastRule_means spec script unbounded feasible
  obtain ⟨later, names, written, means, final⟩ := @partRules_means spec (script ++ more) 0 room unbounded _ (by omega) last
  obtain ⟨languages, bodiesMeans, start, same⟩ := @rootAlternatives_means spec (script ++ more ++ later) 0 (room + 1) names
    (by omega) means
  obtain ⟨otherLanguages, othersMeans, others⟩ := @others_means spec (script ++ more ++ later) feasible
    (fun _ => names.getLastD .empty) fun _ _ => final ▸ last.extend later
  refine ⟨more ++ later, _, ?_, List.append_assoc _ _ _ ▸ inner_means bodiesMeans othersMeans (start (Nat.succ_pos room))
    (others ▸ same)⟩
  rw [List.drop_one] at written
  rw [partialRuleCase1, lastWritten]
  dsimp only
  rw [written, ← List.append_assoc]
  rfl

end unbounded

end ObjectSpec

end Metrale.Grammar
