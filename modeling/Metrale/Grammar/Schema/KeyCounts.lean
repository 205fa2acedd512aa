import Metrale.Grammar.Schema.ObjectLanguage

/-! # The counts of the keys

Other properties are repeated as often as the bounds leave.  For the named ones the converter keeps, at each
property, the least and the largest number of keys that there can be up to it: its two passes over the properties
come to a closed form. -/

namespace Metrale.Grammar

open Metrale.Foundation Metrale.Foundation.RuleScript

/-! ## Other properties -/

section repetition

variable {script : Script} {pattern : Body} {language : Language Fragment} {minProperties maxProperties already : Int}

theorem repetitions_none : repetitions language 0 (some 0) = 1 := by
  ext word
  rw [Language.mem_one]
  constructor
  · rintro ⟨count, -, within, member⟩
    cases Nat.le_zero.mp (within 0 rfl)
    rwa [pow_zero, Language.mem_one] at member
  · rintro rfl
    refine ⟨0, Nat.le_refl 0, fun _ _ => Nat.zero_le _, ?_⟩
    rw [pow_zero, Language.mem_one]

theorem repetitions_once : repetitions language 1 (some 1) = language := by
  ext word
  constructor
  · rintro ⟨count, enough, within, member⟩
    cases Nat.le_antisymm (within 1 rfl) enough
    rwa [pow_one] at member
  · intro member
    refine ⟨1, Nat.le_refl 1, fun bound same => ?_, ?_⟩
    · cases same
      exact Nat.le_refl 1
    · rwa [pow_one]

/-- The pattern, from the lower bound less what is there to the upper one less what is there. -/
theorem propertyWithNumberConstraints_means (means : Means script pattern language) (lower : 0 ≤ minProperties)
    (bounds : maxProperties = -1 ∨ minProperties ≤ maxProperties) (within : maxProperties = -1 ∨ already ≤ maxProperties) :
    Means script (propertyWithNumberConstraints pattern minProperties maxProperties already)
      (repetitions language (minProperties - already).toNat
        (if maxProperties = -1 then none else some (maxProperties - already).toNat)) := by
  rw [propertyWithNumberConstraints]
  split
  · next full =>
    have none : (minProperties - already).toNat = 0 := by omega
    have nothing : (maxProperties - already).toNat = 0 := by omega
    rw [none, if_neg full.1, nothing, repetitions_none]
    exact .empty
  · next open' =>
    have least : (max 0 (minProperties - already)).toNat = (minProperties - already).toNat := by omega
    dsimp only
    by_cases unbounded : maxProperties = -1
    · simp only [if_pos unbounded]
      split
      · next star =>
        have none : (minProperties - already).toNat = 0 := by omega
        rw [none]
        exact means.repeated
      · split
        · next impossible => exact absurd impossible.2 (by decide)
        · split
          · next impossible => exact absurd impossible.2 (by decide)
          · rw [least]
            exact means.repeated
    · have most : max (-1) (maxProperties - already) = maxProperties - already := by omega
      simp only [if_neg unbounded, most]
      split
      · next impossible => omega
      · split
        · next optional =>
          have none : (minProperties - already).toNat = 0 := by omega
          rw [none, optional.2]
          exact means.repeated
        · split
          · next once =>
            have one : (minProperties - already).toNat = 1 := by omega
            rw [one, once.2]
            exact repetitions_once ▸ means
          · have bounded : maxProperties - already ≠ -1 := by omega
            rw [least, if_neg bounded]
            exact means.repeated

end repetition

namespace ObjectSpec

variable {spec : ObjectSpec} {script : Script} {additional : AdditionalProperty} {matched : Nat} {word : List Fragment}

theorem further_means (fragment : Fragment) : Means script (further fragment) {[.midSep, fragment]} := by
  intro more
  ext word
  rw [further, words_seq, words_atom, words_atom, mem_singleton_mul]
  constructor
  · rintro ⟨_, rfl, rfl⟩
    rfl
  · rintro rfl
    exact ⟨_, rfl, rfl⟩

theorem mem_following_end (some : spec.additionalProperty = some additional) :
    word ∈ spec.following spec.properties.length matched ↔
      ∃ count : Nat, spec.Counts (matched + count) ∧ word ∈ ({[.midSep, .other additional]} : Language Fragment) ^ count := by
  have text (count : Nat) : furtherText (List.replicate count (.other additional)) =
      (List.replicate count [.midSep, .other additional]).flatten := by
    rw [furtherText, List.flatMap_replicate]
  constructor
  · rintro ⟨keys, arranged, counts, rfl⟩
    refine ⟨keys.length, counts, mem_singleton_pow.mpr ?_⟩
    have all : keys = List.replicate keys.length (.other additional) := by
      refine List.eq_replicate_iff.mpr ⟨rfl, fun key member => ?_⟩
      obtain ⟨_, same, rfl⟩ := arranged_end.mp arranged key member
      rw [some] at same
      cases same
      rfl
    rw [← text, ← all]
  · rintro ⟨count, counts, member⟩
    refine ⟨List.replicate count (.other additional), arranged_end.mpr fun key member => ?_, ?_, ?_⟩
    · exact ⟨additional, some, List.eq_of_mem_replicate member⟩
    · rwa [List.length_replicate]
    · rw [text, mem_singleton_pow.mp member]

theorem following_end_none (none : spec.additionalProperty = none) (counts : spec.Counts matched) :
    spec.following spec.properties.length matched = 1 := by
  ext word
  rw [Language.mem_one]
  constructor
  · rintro ⟨keys, arranged, -, rfl⟩
    cases keys with
    | nil => rfl
    | cons key keys =>
      obtain ⟨_, some, -⟩ := arranged_end.mp arranged key List.mem_cons_self
      rw [none] at some
      cases some
  · rintro rfl
    exact ⟨[], arranged_end.mpr nofun, counts, rfl⟩

theorem otherProperties_means (feasible : spec.Feasible) (some : spec.additionalProperty = some additional)
    (within : spec.maxProperties = -1 ∨ (matched : Int) ≤ spec.maxProperties) :
    Means script (propertyWithNumberConstraints (further (.other additional)) spec.minProperties spec.maxProperties matched)
      (spec.following spec.properties.length matched) := by
  have means := propertyWithNumberConstraints_means (@further_means script (.other additional)) feasible.lower
    feasible.upper within
  have same : spec.following spec.properties.length matched = repetitions {[.midSep, .other additional]}
      (spec.minProperties - matched).toNat
      (if spec.maxProperties = -1 then .none else .some (spec.maxProperties - matched).toNat) := by
    ext word
    rw [mem_following_end some]
    constructor
    · rintro ⟨count, ⟨lower, upper⟩, member⟩
      refine ⟨count, by omega, fun bound most => ?_, member⟩
      split at most
      · cases most
      · cases most
        omega
    · rintro ⟨count, lower, upper, member⟩
      refine ⟨count, ⟨by omega, ?_⟩, member⟩
      by_cases unbounded : spec.maxProperties = -1
      · exact .inl unbounded
      · have most := upper _ (if_neg unbounded)
        omega
  rw [same]
  exact means

/-! ## The ranges -/

def rawRange (spec : ObjectSpec) (i : Nat) : KeyRange :=
  ⟨max 1 (spec.requiredBefore (i + 1)), i + 1, spec.requiredFlags.getD i false⟩

/-- The fewest keys that there must be among the named ones. -/
def namedLower (spec : ObjectSpec) : Int := if spec.additionalProperty.isSome then 1 else spec.minProperties

def keyRange (spec : ObjectSpec) (i : Nat) : KeyRange :=
  ⟨max (max 1 (spec.requiredBefore (i + 1))) (spec.namedLower - ((spec.properties.length : Int) - 1 - i)),
    if spec.hasMax then min (i + 1) (spec.maxProperties - spec.requiredFrom (i + 1)) else i + 1,
    spec.requiredFlags.getD i false⟩

theorem forwardRanges_eq {i room : Nat} (whole : i + 1 + room = spec.properties.length) :
    forwardRanges (decide (0 < spec.requiredBefore (i + 1))) (spec.rawRange i) (spec.requiredFlags.drop (i + 1)) =
      (List.range' (i + 1) room).map spec.rawRange := by
  induction room generalizing i with
  | zero =>
    rw [List.drop_of_length_le (by rw [length_requiredFlags]; omega)]
    rfl
  | succ room ih =>
    obtain ⟨isRequired, flag⟩ := @flag_of_lt spec (i + 1) (by omega)
    have step := requiredBefore_step flag
    have getFirst : (decide (0 < spec.requiredBefore (i + 1)) || isRequired) =
        decide (0 < spec.requiredBefore (i + 1 + 1)) := by
      rw [step]
      cases isRequired with
      | true => simp
      | false => simp
    have range : (⟨if decide (0 < spec.requiredBefore (i + 1)) = true then
          if isRequired = true then (spec.rawRange i).min + 1 else (spec.rawRange i).min else 1,
        (spec.rawRange i).max + 1, isRequired⟩ : KeyRange) = spec.rawRange (i + 1) := by
      have flagged : spec.requiredFlags.getD (i + 1) false = isRequired := by
        rw [List.getD_eq_getElem?_getD, flag]
        rfl
      rw [rawRange, rawRange, step, flagged]
      congr 1
      cases isRequired with
      | true =>
        simp only [decide_eq_true_eq, if_true]
        split <;> omega
      | false =>
        simp only [decide_eq_true_eq, Bool.false_eq_true, if_false]
        split <;> omega
    rw [drop_requiredFlags flag, forwardRanges, List.range'_succ, List.map_cons, ← ih (by omega)]
    rw [← range, ← getFirst]

theorem Feasible.count_required (feasible : spec.Feasible) : spec.requiredFlags.count true = spec.required.length := by
  have positive : spec.requiredFlags.count true = (spec.properties.filter spec.isRequired).length := by
    rw [requiredFlags, List.count_eq_countP, List.countP_map, List.countP_eq_length_filter]
    congr 2
    funext name
    exact beq_true _
  have same : (spec.properties.filter spec.isRequired).Perm spec.required := by
    refine (List.perm_ext_iff_of_nodup (feasible.distinct.filter _) feasible.requiredDistinct).mpr fun name => ?_
    rw [List.mem_filter, isRequired, List.contains_iff_mem]
    exact and_iff_right_of_imp fun member => feasible.requiredListed member
  rw [positive, same.length_eq]

theorem Feasible.required_le (feasible : spec.Feasible) (bounded : spec.maxProperties ≠ -1) (first : Nat) :
    (spec.requiredBefore first + spec.requiredFrom first : Int) ≤ spec.maxProperties := by
  have flags := feasible.count_required
  have split := @required_split spec first
  have enough := feasible.requiredUpper.resolve_left bounded
  omega

theorem UpperFits.cast (feasible : spec.Feasible) (fits : spec.UpperFits) (present : 0 < spec.properties.length)
    (bounded : spec.maxProperties ≠ -1) : asI32 spec.maxProperties = spec.maxProperties ∨
      ((spec.properties.length : Int) ≤ asI32 spec.maxProperties ∧ (spec.properties.length : Int) ≤ spec.maxProperties) := by
  have enough := feasible.required_le bounded 0
  by_cases small : spec.maxProperties < 2147483648
  · exact .inl (asI32_exact (by omega) small)
  · have countable := feasible.countable
    obtain empty | unbounded | small' | wide := fits
    · rw [empty] at present
      cases present
    · exact absurd unbounded bounded
    · exact absurd small' small
    · exact .inr ⟨wide, by omega⟩

variable {i : Nat}

theorem keyRange_bounded (bounded : spec.maxProperties ≠ -1) :
    (spec.keyRange i).max = min ((i : Int) + 1) (spec.maxProperties - spec.requiredFrom (i + 1)) :=
  if_pos (bne_iff_ne.mpr bounded)

theorem keyRange_unbounded (unbounded : spec.maxProperties = -1) : (spec.keyRange i).max = i + 1 :=
  if_neg (fun bounded => bne_iff_ne.mp bounded unbounded)

theorem boundLast_eq (feasible : spec.Feasible) (fits : spec.UpperFits) (last : i + 1 = spec.properties.length) :
    spec.boundLast (spec.rawRange i) = spec.keyRange i := by
  have countable := feasible.countable
  have lower : (if spec.additionalProperty.isSome = true then max 1 (spec.rawRange i).min
      else max (asI32 spec.minProperties) (spec.rawRange i).min) = (spec.keyRange i).min := by
    simp only [keyRange, namedLower, rawRange]
    split
    · omega
    · next closed =>
      have reachable := feasible.reachable (Option.not_isSome_iff_eq_none.mp closed)
      have lower := feasible.lower
      rw [asI32_exact (by omega) (by omega)]
      omega
  have upper : (if spec.hasMax = true then min (asI32 spec.maxProperties) (spec.rawRange i).max
      else (spec.rawRange i).max) = (spec.keyRange i).max := by
    split
    · next bounded =>
      have bounded : spec.maxProperties ≠ -1 := bne_iff_ne.mp bounded
      have none : (spec.requiredFrom (i + 1) : Int) = 0 := by rw [last, requiredFrom_end, Nat.cast_zero]
      have enough := feasible.required_le bounded (i + 1)
      rw [keyRange_bounded bounded, none]
      change min _ ((i : Int) + 1) = _
      obtain exact | ⟨cast, wide⟩ := fits.cast feasible (by omega) bounded <;> omega
    · next unbounded => rw [keyRange_unbounded (by simpa [hasMax] using unbounded), rawRange]
  rw [boundLast, lower, upper]
  rfl

theorem keyRange_isRequired {isRequired : Bool} (flag : spec.requiredFlags[i]? = some isRequired) :
    (spec.keyRange i).isRequired = isRequired := by
  rw [keyRange, List.getD_eq_getElem?_getD, flag]
  rfl

theorem boundBefore_eq (feasible : spec.Feasible) (present : i + 1 < spec.properties.length) :
    spec.boundBefore (spec.rawRange i) (spec.keyRange (i + 1)) = spec.keyRange i := by
  have countable := feasible.countable
  obtain ⟨isRequired, flag⟩ := flag_of_lt present
  have flagged := keyRange_isRequired flag
  have before := requiredBefore_step flag
  have after := requiredFrom_step flag
  have few := @requiredBefore_le spec (i + 1)
  have fewer := @requiredFrom_le spec (i + 1)
  have lower : max (spec.rawRange i).min ((spec.keyRange (i + 1)).min - 1) = (spec.keyRange i).min := by
    simp only [keyRange, rawRange]
    cases isRequired <;> simp only [if_true, Bool.false_eq_true, if_false] at before <;> omega
  have upper : (if spec.hasMax = true then min (spec.rawRange i).max
        (if (spec.keyRange (i + 1)).isRequired = true then asI32 ((spec.keyRange (i + 1)).max - 1)
          else (spec.keyRange (i + 1)).max)
      else (spec.rawRange i).max) = (spec.keyRange i).max := by
    split
    · next bounded =>
      have bounded : spec.maxProperties ≠ -1 := bne_iff_ne.mp bounded
      have enough := feasible.required_le bounded (i + 1)
      rw [flagged, keyRange_bounded bounded, keyRange_bounded bounded]
      change min ((i : Int) + 1) _ = _
      cases isRequired with
      | true =>
        simp only [if_true] at after ⊢
        rw [asI32_exact (by omega) (by omega)]
        omega
      | false =>
        simp only [Bool.false_eq_true, if_false] at after ⊢
        omega
    · next unbounded => rw [keyRange_unbounded (by simpa [hasMax] using unbounded), rawRange]
  rw [boundBefore, lower, upper]
  rfl

theorem backwardRanges_eq (feasible : spec.Feasible) (fits : spec.UpperFits) {room : Nat}
    (whole : i + (room + 1) = spec.properties.length) :
    spec.backwardRanges ((List.range' i (room + 1)).map spec.rawRange) = (List.range' i (room + 1)).map spec.keyRange := by
  induction room generalizing i with
  | zero => exact congrArg (fun range => [range]) (boundLast_eq feasible fits whole)
  | succ room ih =>
    rw [List.range'_succ, List.map_cons, backwardRanges, ih (by omega), List.range'_succ]
    simp only [List.map_cons]
    rw [boundBefore_eq feasible (by omega)]

theorem keyRanges_eq (feasible : spec.Feasible) (fits : spec.UpperFits) {room : Nat}
    (whole : room + 1 = spec.properties.length) : spec.keyRanges = (List.range' 0 (room + 1)).map spec.keyRange := by
  obtain ⟨isRequired, flag⟩ := @flag_of_lt spec 0 (by omega)
  have flags := drop_requiredFlags flag
  rw [List.drop_zero] at flags
  have step := requiredBefore_step flag
  have none : spec.requiredBefore 0 = 0 := Nat.le_zero.mp (requiredBefore_le 0)
  have getFirst : isRequired = decide (0 < spec.requiredBefore (0 + 1)) := by
    rw [step, none]
    cases isRequired <;> rfl
  have range : (⟨1, 1, isRequired⟩ : KeyRange) = spec.rawRange 0 := by
    rw [rawRange, step, none, List.getD_eq_getElem?_getD, flag]
    cases isRequired <;> rfl
  have forward := @forwardRanges_eq spec 0 room (by omega)
  rw [← getFirst, ← range] at forward
  rw [keyRanges, flags]
  dsimp only
  rw [forward, range, ← List.map_cons, ← List.range'_succ, backwardRanges_eq feasible fits (by omega)]

/-! ## What a range says -/

/-- Enough keys: the required ones, and so many that the later properties can make up the rest. -/
theorem keyRange_min_le {room : Nat} (whole : i + 1 + room = spec.properties.length) :
    (spec.keyRange i).min ≤ matched ↔ 1 ≤ matched ∧ spec.requiredBefore (i + 1) ≤ matched ∧
      (spec.additionalProperty = none → spec.minProperties ≤ matched + room) := by
  have later : (spec.properties.length : Int) - 1 - i = room := by omega
  rw [keyRange, later, namedLower]
  cases additional : spec.additionalProperty with
  | none =>
    simp only [Option.isSome_none, Bool.false_eq_true, if_false, forall_const]
    omega
  | some additional =>
    simp only [Option.isSome_some, if_true, reduceCtorEq, false_imp_iff, and_true]
    omega

/-- Not too many: no more than there are properties, and the required ones still to come fit. -/
theorem le_keyRange_max : (matched : Int) ≤ (spec.keyRange i).max ↔ matched ≤ i + 1 ∧
    (spec.maxProperties ≠ -1 → (matched + spec.requiredFrom (i + 1) : Int) ≤ spec.maxProperties) := by
  by_cases unbounded : spec.maxProperties = -1
  · rw [keyRange_unbounded unbounded, and_iff_left fun bounded => absurd unbounded bounded]
    omega
  · rw [keyRange_bounded unbounded, and_congr_right_iff.mpr fun _ => forall_prop_of_true unbounded]
    omega

theorem upperFor_keyRange : spec.upperFor i (spec.keyRange i) = (spec.keyRange i).max := by
  rw [upperFor, keyRange]
  split <;> rfl

end ObjectSpec

end Metrale.Grammar
