import Metrale.Grammar.Schema.KeyCounts

/-! # The rules of the named properties

The rules are written from the last property back.  A property has one for each number of keys that there can be up
to it, and that rule has the texts which may follow then. -/

namespace Metrale.Grammar

open Metrale.Foundation Metrale.Foundation.RuleScript

namespace ObjectSpec

variable {spec : ObjectSpec} {script : Script} {names : List Body} {i room matched : Nat} {lower upper count : Int}

/-! ## Names by count -/

theorem mem_inclusive : count ∈ inclusive lower upper ↔ lower ≤ count ∧ count ≤ upper := by
  rw [inclusive, List.mem_map]
  constructor
  · rintro ⟨offset, member, rfl⟩
    have bound := List.mem_range.mp member
    omega
  · rintro ⟨enough, within⟩
    exact ⟨(count - lower).toNat, List.mem_range.mpr (by omega), by omega⟩

theorem getElem?_inclusive (enough : lower ≤ count) (within : count ≤ upper) :
    (inclusive lower upper)[(count - lower).toNat]? = some count := by
  rw [inclusive, List.getElem?_map, List.getElem?_range (by omega)]
  simp only [Option.map_some, Option.some.injEq]
  omega

def Named (spec : ObjectSpec) (script : Script) (i : Nat) (names : List Body) : Prop :=
  List.Forall₂ (Means script) names
    ((inclusive (spec.keyRange i).min (spec.keyRange i).max).map fun matched => spec.following (i + 1) matched.toNat)

theorem Named.extend (named : spec.Named script i names) (more : Script) : spec.Named (script ++ more) i names :=
  named.imp fun _ _ means => means.extend more

theorem Named.nameAt (named : spec.Named script i names) {index : Int} (at' : index = matched - (spec.keyRange i).min)
    (enough : (spec.keyRange i).min ≤ matched) (within : (matched : Int) ≤ (spec.keyRange i).max) :
    ∃ name, nameAt names index = some name ∧ Means script name (spec.following (i + 1) matched) := by
  have found := getElem?_inclusive enough within
  rw [← at'] at found
  obtain ⟨sizes, each⟩ := List.forall₂_iff_get.mp named
  obtain ⟨present, same⟩ := List.getElem?_eq_some_iff.mp found
  have listed : index.toNat < names.length := by
    rw [sizes, List.length_map]
    exact present
  refine ⟨names[index.toNat], ?_, ?_⟩
  · rw [ObjectSpec.nameAt, if_pos (by omega), List.getElem?_eq_getElem listed]
  · have means := each index.toNat listed (sizes ▸ listed)
    simp only [List.get_eq_getElem, List.getElem_map, same, Int.toNat_natCast] at means
    exact means

/-! ## What follows a property -/

theorem furtherThen_means {name : Body} {language : Language Fragment} (means : Means script name language) :
    Means script (furtherThen (.property i) name) (withProperty i language) :=
  (Means.atom _).seq ((Means.atom _).seq means)

theorem withProperty_zero : withProperty i 0 = 0 := by rw [withProperty, mul_zero, mul_zero]

section step

variable (feasible : spec.Feasible) (whole : i + 1 + 1 + room = spec.properties.length)
  (named : spec.Named script (i + 1) names) (enough : (spec.keyRange i).min ≤ matched)
  (within : (matched : Int) ≤ (spec.keyRange i).max)

include whole enough in
theorem next_min_le : (spec.keyRange (i + 1)).min ≤ (matched + 1 : Nat) := by
  obtain ⟨isRequired, flag⟩ := @flag_of_lt spec (i + 1) (by omega)
  have before := requiredBefore_step flag
  obtain ⟨one, required, reach⟩ := (@keyRange_min_le spec matched i (room + 1) (by omega)).mp enough
  refine (keyRange_min_le whole).mpr ⟨by omega, ?_, fun none => ?_⟩
  · split at before <;> omega
  · have := reach none
    omega

include whole named enough within in
theorem partBody_required (flag : spec.requiredFlags[i + 1]? = some true) :
    ∃ body, spec.partBody i (spec.keyRange (i + 1)) names matched = some body ∧
      Means script body (spec.following (i + 1) matched) := by
  have after := requiredFrom_step flag
  rw [if_pos rfl] at after
  obtain ⟨few, fit⟩ := le_keyRange_max.mp within
  have withinTaken : ((matched + 1 : Nat) : Int) ≤ (spec.keyRange (i + 1)).max :=
    le_keyRange_max.mpr ⟨by omega, fun bounded => by have := fit bounded; omega⟩
  have index : (matched : Int) + 1 - (spec.keyRange (i + 1)).min = (matched + 1 : Nat) - (spec.keyRange (i + 1)).min := by
    omega
  obtain ⟨name, found, means⟩ := named.nameAt index (next_min_le whole enough) withinTaken
  refine ⟨furtherThen (.property (i + 1)) name, ?_, ?_⟩
  · rw [partBody, if_neg (by omega), if_pos (.inl (keyRange_isRequired flag)), found]
    rfl
  · rw [following_required flag]
    exact furtherThen_means means

include feasible whole named enough within in
/-- An optional property is passed by or taken, where there are then not too few or too many keys. -/
theorem partBody_optional (flag : spec.requiredFlags[i + 1]? = some false) :
    ∃ body, spec.partBody i (spec.keyRange (i + 1)) names matched = some body ∧
      Means script body (spec.following (i + 1) matched) := by
  have present : i + 1 < spec.properties.length := by omega
  have before := requiredBefore_step flag
  have after := requiredFrom_step flag
  rw [if_neg Bool.false_ne_true] at before after
  have fewer := @requiredFrom_le spec (i + 1 + 1)
  have bounds := feasible.upper
  obtain ⟨one, required, reach⟩ := (@keyRange_min_le spec matched i (room + 1) (by omega)).mp enough
  obtain ⟨few, fit⟩ := le_keyRange_max.mp within
  have optional : ¬ spec.RequiredAt (i + 1) := fun required => by cases flag.symm.trans required
  have enoughTaken := next_min_le whole enough
  have index : (matched : Int) + 1 - (spec.keyRange (i + 1)).min = (matched + 1 : Nat) - (spec.keyRange (i + 1)).min := by
    omega
  rw [following_optional present optional, partBody, keyRange_isRequired flag]
  split
  · next full =>
    obtain ⟨bounded, last⟩ := full
    have bounded : spec.maxProperties ≠ -1 := bne_iff_ne.mp bounded
    have fit := fit bounded
    have excess : spec.maxProperties < (matched + 1 : Nat) + spec.requiredFrom (i + 1 + 1) := by
      by_contra room
      have more := (@le_keyRange_max spec (matched + 1) (i + 1)).mpr ⟨by omega, fun _ => by omega⟩
      omega
    have skipped : (spec.keyRange (i + 1)).min ≤ matched :=
      (keyRange_min_le whole).mpr ⟨one, by omega, fun _ => by omega⟩
    obtain ⟨name, found, means⟩ := named.nameAt rfl skipped last.le
    refine ⟨name, found, ?_⟩
    rw [following_eq_zero whole (.inl ⟨bounded, excess⟩), withProperty_zero, add_zero]
    exact means
  · next open' =>
    split
    · next forced =>
      have low : (matched : Int) = (spec.keyRange (i + 1)).min - 1 := forced.resolve_left Bool.false_ne_true
      obtain ⟨none, short⟩ : spec.additionalProperty = none ∧ (matched : Int) + room < spec.minProperties := by
        by_contra reachable
        have skipped : (spec.keyRange (i + 1)).min ≤ matched :=
          (keyRange_min_le whole).mpr ⟨one, by omega, fun none => not_lt.mp fun short => reachable ⟨none, short⟩⟩
        omega
      have withinTaken : ((matched + 1 : Nat) : Int) ≤ (spec.keyRange (i + 1)).max :=
        le_keyRange_max.mpr ⟨by omega, fun bounded => by omega⟩
      obtain ⟨name, found, means⟩ := named.nameAt index enoughTaken withinTaken
      refine ⟨furtherThen (.property (i + 1)) name, by rw [found]; rfl, ?_⟩
      rw [following_eq_zero whole (.inr ⟨none, short⟩), zero_add]
      exact furtherThen_means means
    · next free =>
      have skipped : (spec.keyRange (i + 1)).min ≤ matched := by omega
      have withinSkipped : (matched : Int) ≤ (spec.keyRange (i + 1)).max :=
        le_keyRange_max.mpr ⟨by omega, fun bounded => by have := fit bounded; omega⟩
      have withinTaken : ((matched + 1 : Nat) : Int) ≤ (spec.keyRange (i + 1)).max := by
        by_cases unbounded : spec.maxProperties = -1
        · exact le_keyRange_max.mpr ⟨by omega, fun bounded => absurd unbounded bounded⟩
        · have notLast : (matched : Int) ≠ (spec.keyRange (i + 1)).max :=
            fun last => open' ⟨bne_iff_ne.mpr unbounded, last⟩
          omega
      obtain ⟨skippedName, skippedFound, skippedMeans⟩ := named.nameAt rfl skipped withinSkipped
      have indexTaken : (matched : Int) - (spec.keyRange (i + 1)).min + 1 =
          (matched + 1 : Nat) - (spec.keyRange (i + 1)).min := by omega
      obtain ⟨takenName, takenFound, takenMeans⟩ := named.nameAt indexTaken enoughTaken withinTaken
      refine ⟨.alt skippedName (furtherThen (.property (i + 1)) takenName), ?_, skippedMeans.alt (furtherThen_means takenMeans)⟩
      rw [skippedFound, takenFound]
      rfl

end step

/-! ## All of the rules -/

theorem exists_matched (member : count ∈ inclusive (spec.keyRange i).min (spec.keyRange i).max) :
    ∃ matched : Nat, count = matched ∧ (spec.keyRange i).min ≤ matched ∧ (matched : Int) ≤ (spec.keyRange i).max := by
  obtain ⟨enough, within⟩ := mem_inclusive.mp member
  have one : 1 ≤ (spec.keyRange i).min := (le_max_left _ _).trans (le_max_left _ _)
  obtain ⟨matched, rfl⟩ := Int.eq_ofNat_of_zero_le (show 0 ≤ count by omega)
  exact ⟨matched, rfl, enough, within⟩

theorem lastNames_named (feasible : spec.Feasible) (last : i + 1 = spec.properties.length) :
    ∃ more names, spec.lastNames script i (spec.keyRange i) = (script ++ more, names) ∧
      spec.Named (script ++ more) i names := by
  rw [lastNames, upperFor_keyRange]
  cases additional : spec.additionalProperty with
  | some additional =>
    refine ⟨_, _, Prod.ext (addRules_extends _ _) rfl, addRules_means ?_⟩
    refine List.forall₂_map_left_iff.mpr (List.forall₂_map_right_iff.mpr (List.forall₂_same.mpr fun count member => ?_))
    obtain ⟨matched, rfl, -, within⟩ := exists_matched member
    obtain ⟨-, fit⟩ := le_keyRange_max.mp within
    rw [last]
    refine otherProperties_means feasible additional ?_
    by_cases unbounded : spec.maxProperties = -1
    · exact .inl unbounded
    · have := fit unbounded
      exact .inr (by omega)
  | none =>
    refine ⟨[], _, by rw [List.append_nil], ?_⟩
    refine List.forall₂_map_left_iff.mpr (List.forall₂_map_right_iff.mpr (List.forall₂_same.mpr fun count member => ?_))
    obtain ⟨matched, rfl, enough, within⟩ := exists_matched member
    obtain ⟨-, -, reach⟩ := (@keyRange_min_le spec matched i 0 last).mp enough
    obtain ⟨-, fit⟩ := le_keyRange_max.mp within
    rw [last, Int.toNat_natCast, following_end_none additional]
    · exact .empty
    · refine ⟨reach additional, ?_⟩
      by_cases unbounded : spec.maxProperties = -1
      · exact .inl unbounded
      · have := fit unbounded
        exact .inr (by omega)

theorem partNames_named (feasible : spec.Feasible) (whole : i + (room + 1) = spec.properties.length) :
    ∃ more names, spec.partNames script i ((List.range' i (room + 1)).map spec.keyRange) = some (script ++ more, names) ∧
      List.Forall₂ (spec.Named (script ++ more)) (List.range' i (room + 1)) names := by
  induction room generalizing i with
  | zero =>
    obtain ⟨more, names, written, named⟩ := @lastNames_named spec script i feasible whole
    refine ⟨more, [names], ?_, .cons named .nil⟩
    rw [List.range'_one, List.map_singleton, partNames, written]
  | succ room ih =>
    obtain ⟨more, names, written, named⟩ := @ih (i + 1) (by omega)
    have later : i + 1 + 1 + room = spec.properties.length := by omega
    rw [List.range'_succ] at written named
    cases named with
    | @cons _ next _ names nextNamed others =>
      have bodies : ∃ bodies, (inclusive (spec.keyRange i).min (spec.upperFor i (spec.keyRange i))).mapM
            (spec.partBody i (spec.keyRange (i + 1)) next) = some bodies ∧
          List.Forall₂ (fun count body => Means (script ++ more) body (spec.following (i + 1) count.toNat))
            (inclusive (spec.keyRange i).min (spec.keyRange i).max) bodies := by
        rw [upperFor_keyRange]
        refine exists_mapM fun count member => ?_
        obtain ⟨matched, rfl, enough, within⟩ := exists_matched member
        obtain ⟨isRequired, flag⟩ := @flag_of_lt spec (i + 1) (by omega)
        cases isRequired with
        | true => exact partBody_required later nextNamed enough within flag
        | false => exact partBody_optional feasible later nextNamed enough within flag
      obtain ⟨bodies, writtenHere, means⟩ := bodies
      have current : spec.Named (script ++ more ++ bodies) i (addRules (script ++ more) bodies).2 :=
        addRules_means (List.forall₂_map_right_iff.mpr means.flip)
      refine ⟨more ++ bodies, (addRules (script ++ more) bodies).2 :: next :: names, ?_, ?_⟩
      · rw [List.range'_succ, List.range'_succ, List.map_cons, List.map_cons, partNames, ← List.map_cons, written]
        simp only [Option.bind_eq_bind, Option.bind_some, List.head?_cons, writtenHere, pure, addRules_extends,
          List.append_assoc]
      · rw [← List.append_assoc, List.range'_succ, List.range'_succ]
        exact .cons current (.cons (nextNamed.extend bodies) (others.imp fun _ _ named => named.extend bodies))

end ObjectSpec

end Metrale.Grammar
