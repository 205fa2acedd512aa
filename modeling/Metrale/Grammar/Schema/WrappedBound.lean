import Metrale.Grammar.Schema.ObjectGrammar

/-! # When the upper bound is lost

The largest number of properties is cast to `i32` where the ranges of the named ones are computed.  A bound of 2^31
or more may come out below the number of properties; then no rule has a text with all of them in it. -/

namespace Metrale.Grammar

open Metrale.Foundation Metrale.Foundation.RuleScript

namespace ObjectSpec

variable {spec : ObjectSpec} {script : Script} {body name first second : Body} {names : List Body} {word : List Fragment}
  {fragment : Fragment} {i : Nat} {range next : KeyRange} {matched : Int}

/-! ## Counting named properties -/

def isNamed : Fragment → Bool
  | .property _ => true
  | _ => false

def namedCount (word : List Fragment) : Nat := word.countP isNamed

theorem namedCount_append (word rest : List Fragment) : namedCount (word ++ rest) = namedCount word + namedCount rest :=
  List.countP_append

/-- After so many keys, no text of the body has the named properties that are missing. -/
def Short (spec : ObjectSpec) (script : Script) (body : Body) (matched : Int) : Prop :=
  ∃ language, Means script body language ∧ ∀ word ∈ language, (namedCount word : Int) + matched < spec.properties.length

theorem Short.extend (short : spec.Short script body matched) (more : Script) : spec.Short (script ++ more) body matched := by
  obtain ⟨language, means, few⟩ := short
  exact ⟨language, means.extend more, few⟩

theorem Short.lt (short : spec.Short script body 0) (derived : word ∈ words script body) :
    namedCount word < spec.properties.length := by
  obtain ⟨language, means, few⟩ := short
  rw [means.words] at derived
  have := few word derived
  omega

theorem Short.rule (short : spec.Short script body matched) :
    spec.Short (script ++ [body]) (.ref script.length) matched := by
  obtain ⟨language, means, few⟩ := short
  exact ⟨language, means.rule, few⟩

theorem short_empty (few : matched < spec.properties.length) : spec.Short script .empty matched := by
  refine ⟨1, .empty, fun word member => ?_⟩
  rw [(Language.mem_one word).mp member]
  exact (zero_add matched).symm ▸ few

theorem Short.alt (left : spec.Short script first matched) (right : spec.Short script second matched) :
    spec.Short script (.alt first second) matched := by
  obtain ⟨language, means, few⟩ := left
  obtain ⟨other, otherMeans, otherFew⟩ := right
  refine ⟨language + other, means.alt otherMeans, fun word member => ?_⟩
  obtain member | member := (Language.mem_add ..).mp member
  · exact few word member
  · exact otherFew word member

theorem Short.after (short : spec.Short script body (matched + namedCount [fragment])) :
    spec.Short script (.seq (.atom fragment) body) matched := by
  obtain ⟨language, means, few⟩ := short
  refine ⟨_, (Means.atom fragment).seq means, fun word member => ?_⟩
  obtain ⟨rest, restMember, rfl⟩ := mem_singleton_mul.mp member
  have count := namedCount_append [fragment] rest
  have := few rest restMember
  rw [List.singleton_append] at count
  omega

theorem Short.before (short : spec.Short script body matched) (unnamed : isNamed fragment = false) :
    spec.Short script (.seq body (.atom fragment)) matched := by
  obtain ⟨language, means, few⟩ := short
  refine ⟨_, means.seq (Means.atom fragment), fun word member => ?_⟩
  obtain ⟨rest, restMember, _, rfl, rfl⟩ := Language.mem_mul.mp member
  have := few rest restMember
  have none : namedCount [fragment] = 0 := by simp [namedCount, unnamed]
  rw [namedCount_append, none]
  exact this

theorem Short.choice {bodies : List Body} (short : ∀ body ∈ bodies, spec.Short script body matched)
    (few : matched < spec.properties.length) : spec.Short script (.choice bodies) matched := by
  induction bodies with
  | nil => exact short_empty few
  | cons body rest ih =>
    have first := short body List.mem_cons_self
    cases rest with
    | nil => exact first
    | cons next rest => exact first.alt (ih fun body member => short body (List.mem_cons_of_mem _ member))

theorem short_others {additional : AdditionalProperty} {already : Int} (feasible : spec.Feasible)
    (few : matched < spec.properties.length) (within : already ≤ spec.maxProperties) :
    spec.Short script
      (propertyWithNumberConstraints (further (.other additional)) spec.minProperties spec.maxProperties already)
      matched := by
  refine ⟨_, propertyWithNumberConstraints_means (further_means (.other additional)) feasible.lower feasible.upper
    (.inr within), ?_⟩
  rintro word ⟨count, -, -, member⟩
  have none : namedCount word = 0 := by
    rw [mem_singleton_pow.mp member, namedCount, List.countP_eq_zero]
    intro fragment listed
    obtain ⟨piece, pieces, inside⟩ := List.mem_flatten.mp listed
    cases List.eq_of_mem_replicate pieces
    obtain rfl | inside := List.mem_cons.mp inside
    · exact Bool.false_ne_true
    · cases List.mem_singleton.mp inside
      exact Bool.false_ne_true
  rw [none]
  exact (zero_add matched).symm ▸ few

/-! ## Names by count -/

def Shorts (spec : ObjectSpec) (script : Script) (names : List Body) (range : KeyRange) : Prop :=
  List.Forall₂ (spec.Short script) names (inclusive range.min range.max)

theorem Shorts.extend (shorts : spec.Shorts script names range) (more : Script) : spec.Shorts (script ++ more) names range :=
  shorts.imp fun _ _ short => short.extend more

theorem Shorts.nameAt {index : Int} (shorts : spec.Shorts script names range) (found : nameAt names index = some name)
    (at' : matched = range.min + index) : spec.Short script name matched := by
  rw [ObjectSpec.nameAt] at found
  split at found
  · next positive =>
    obtain ⟨present, rfl⟩ := List.getElem?_eq_some_iff.mp found
    obtain ⟨sizes, each⟩ := List.forall₂_iff_get.mp shorts
    have short := each index.toNat present (sizes ▸ present)
    have count : (inclusive range.min range.max).get ⟨index.toNat, sizes ▸ present⟩ = matched := by
      rw [List.get_eq_getElem]
      simp only [inclusive, List.getElem_map, List.getElem_range]
      omega
    rw [count] at short
    exact short
  · cases found

theorem furtherThen_short (short : spec.Short script name (matched + 1)) :
    spec.Short script (furtherThen (.property i) name) matched := by
  refine Short.after ?_
  have none : matched + (namedCount [.midSep] : Nat) = matched := add_zero matched
  rw [none]
  exact Short.after short

theorem partBody_short (shorts : spec.Shorts script names next) (written : spec.partBody i next names matched = some body) :
    spec.Short script body matched := by
  rw [partBody] at written
  split at written
  · exact shorts.nameAt written (by omega)
  · split at written
    · obtain ⟨name, found, written⟩ := Option.bind_eq_some_iff.mp written
      cases written
      exact furtherThen_short (shorts.nameAt found (by omega))
    · obtain ⟨skipped, skippedFound, written⟩ := Option.bind_eq_some_iff.mp written
      obtain ⟨taken, takenFound, written⟩ := Option.bind_eq_some_iff.mp written
      cases written
      exact (shorts.nameAt skippedFound (by omega)).alt (furtherThen_short (shorts.nameAt takenFound (by omega)))

theorem lastNames_short (feasible : spec.Feasible) (bounded : spec.hasMax = true)
    (few : range.max < spec.properties.length) (within : range.max ≤ spec.maxProperties) :
    ∃ more, (spec.lastNames script i range).1 = script ++ more ∧
      spec.Shorts (script ++ more) (spec.lastNames script i range).2 range := by
  rw [lastNames, upperFor, if_pos bounded]
  cases spec.additionalProperty with
  | some additional =>
    refine ⟨_, addRules_extends _ _, addRules_related (fun _ _ _ short => short.extend) (fun _ _ _ short => short.rule) ?_⟩
    refine List.forall₂_map_left_iff.mpr (List.forall₂_same.mpr fun matched member => ?_)
    have inside := (mem_inclusive.mp member).2
    exact short_others feasible (by omega) (by omega)
  | none =>
    refine ⟨[], (List.append_nil script).symm, ?_⟩
    refine List.forall₂_map_left_iff.mpr (List.forall₂_same.mpr fun matched member => ?_)
    have inside := (mem_inclusive.mp member).2
    exact short_empty (by omega)

theorem partNames_short (feasible : spec.Feasible) (bounded : spec.hasMax = true) {ranges : List KeyRange}
    {rules : Script} {names : List (List Body)} (written : spec.partNames script i ranges = some (rules, names))
    (last : ∀ range ∈ ranges.getLast?, range.max < spec.properties.length ∧ range.max ≤ spec.maxProperties) :
    ∃ more, rules = script ++ more ∧ List.Forall₂ (spec.Shorts rules) names ranges := by
  induction ranges generalizing i rules names with
  | nil =>
    cases written
    exact ⟨[], (List.append_nil script).symm, .nil⟩
  | cons range later ih =>
    cases later with
    | nil =>
      obtain ⟨few, within⟩ := last range rfl
      obtain ⟨more, extends', shorts⟩ := @lastNames_short spec script i range feasible bounded few within
      cases written
      exact ⟨more, extends', .cons (extends' ▸ shorts) .nil⟩
    | cons next later =>
      rw [partNames] at written
      obtain ⟨⟨rules', names'⟩, laterWritten, written⟩ := Option.bind_eq_some_iff.mp written
      obtain ⟨nextNames, found, written⟩ := Option.bind_eq_some_iff.mp written
      obtain ⟨bodies, bodiesWritten, written⟩ := Option.bind_eq_some_iff.mp written
      obtain ⟨more, rfl, shorts⟩ := ih laterWritten last
      cases written
      cases shorts with
      | cons nextShorts others =>
        cases found
        have current : List.Forall₂ (spec.Short (script ++ more)) bodies (inclusive range.min range.max) := by
          rw [upperFor, if_pos bounded] at bodiesWritten
          exact ((mapM_forall₂ bodiesWritten).imp fun _ _ written => partBody_short nextShorts written).flip
        refine ⟨more ++ bodies, ?_, ?_⟩
        · rw [addRules_extends, List.append_assoc]
        · rw [addRules_extends]
          refine .cons ?_ (.cons (nextShorts.extend bodies) (others.imp fun _ _ shorts => shorts.extend bodies))
          exact addRules_related (fun _ _ _ short => short.extend) (fun _ _ _ short => short.rule) current

/-! ## The object -/

theorem backwardRanges_last (bounded : spec.hasMax = true) (ranges : List KeyRange) :
    ∀ range ∈ (spec.backwardRanges ranges).getLast?, range.max ≤ asI32 spec.maxProperties := by
  induction ranges with
  | nil =>
    intro range member
    cases member
  | cons first later ih =>
    rw [backwardRanges]
    cases back : spec.backwardRanges later with
    | nil =>
      intro range member
      cases member
      rw [boundLast, if_pos bounded]
      exact min_le_left _ _
    | cons next rest =>
      rw [back] at ih
      exact ih

theorem keyRanges_last (bounded : spec.hasMax = true) :
    ∀ range ∈ spec.keyRanges.getLast?, range.max ≤ asI32 spec.maxProperties := by
  rw [keyRanges]
  split
  · intro range member
    cases member
  · exact backwardRanges_last bounded _

theorem boundedAlternatives_short {ranges : List KeyRange} {names : List (List Body)} {bodies : List Body}
    (shorts : List.Forall₂ (spec.Shorts script) names ranges)
    (written : spec.boundedAlternatives i (ranges.zip names) = some bodies) : ∀ body ∈ bodies, spec.Short script body 0 := by
  induction shorts generalizing i bodies with
  | nil =>
    cases written
    intro body member
    cases member
  | @cons here range names ranges hereShorts others ih =>
    rw [List.zip_cons_cons, boundedAlternatives] at written
    split at written
    · exact ih written
    · split at written
      · cases written
        intro body member
        cases member
      · obtain ⟨name, found, written⟩ := Option.bind_eq_some_iff.mp written
        have first : spec.Short script (.seq (.atom (.property i)) name) 0 :=
          Short.after (hereShorts.nameAt found (by simp [namedCount, isNamed]))
        dsimp only at written
        split at written
        · cases written
          exact List.forall_mem_singleton.mpr first
        · obtain ⟨later, laterWritten, written⟩ := Option.bind_eq_some_iff.mp written
          cases written
          exact List.forall_mem_cons.mpr ⟨first, ih laterWritten⟩

/-- Without room for all named properties in the cast bound, no text has all of them. -/
theorem partialRuleConstrained_short (feasible : spec.Feasible) (bounded : spec.hasMax = true)
    (named : spec.properties ≠ []) (lost : asI32 spec.maxProperties < spec.properties.length)
    (wide : (spec.properties.length : Int) ≤ spec.maxProperties) {rules : Script}
    (written : spec.partialRuleConstrained script = some (rules, body)) : spec.Short rules body 0 := by
  have some' : (0 : Int) < spec.properties.length := Int.natCast_pos.mpr (List.length_pos_iff.mpr named)
  obtain ⟨⟨rules, names⟩, namesWritten, written⟩ := Option.bind_eq_some_iff.mp written
  obtain ⟨alternatives, alternativesWritten, written⟩ := Option.bind_eq_some_iff.mp written
  cases written
  obtain ⟨more, rfl, shorts⟩ := partNames_short feasible bounded namesWritten fun range member => by
    have := keyRanges_last bounded range member
    omega
  have alternativesShort := boundedAlternatives_short shorts alternativesWritten
  refine Short.after (Short.before (Short.choice (fun body member => ?_) some') rfl)
  obtain member | member := List.mem_append.mp member
  · exact alternativesShort body member
  · split at member
    · split at member
      · cases List.mem_singleton.mp member
        exact Short.after (short_others feasible some' (by omega))
      · cases member
    · cases member

theorem exists_full_object (feasible : spec.Feasible) (wide : (spec.properties.length : Int) ≤ spec.maxProperties) :
    ∃ keys, spec.Object keys ∧ namedCount keys = spec.properties.length := by
  have everyNamed : namedCount ((List.range' 0 spec.properties.length).map .property) = spec.properties.length := by
    rw [namedCount, List.countP_map, List.countP_eq_length.mpr fun i _ => ?_, List.length_range']
    rfl
  have bounds := feasible.upper
  obtain ⟨others, other, enough, fits, none⟩ : ∃ others : List Fragment, (∀ key ∈ others, spec.IsOther key) ∧
      spec.minProperties ≤ (spec.properties.length + others.length : Nat) ∧
      ((spec.properties.length + others.length : Nat) : Int) ≤ spec.maxProperties ∧ namedCount others = 0 := by
    cases additional : spec.additionalProperty with
    | none =>
      have reachable := feasible.reachable additional
      exact ⟨[], List.forall_mem_nil _, by simpa using reachable, by simpa using wide, rfl⟩
    | some additional' =>
      refine ⟨List.replicate (spec.minProperties - spec.properties.length).toNat (.other additional'),
        fun key member => ⟨additional', additional, List.eq_of_mem_replicate member⟩, ?_, ?_, ?_⟩
      · rw [List.length_replicate]
        omega
      · rw [List.length_replicate]
        omega
      · rw [namedCount, List.countP_replicate]
        rfl
  refine ⟨(List.range' 0 spec.properties.length).map .property ++ others,
    ⟨⟨List.range' 0 spec.properties.length, others, rfl, List.Sublist.refl _, fun i _ required => ?_, other⟩, ?_, ?_⟩, ?_⟩
  · exact List.mem_range'_1.mpr ⟨Nat.zero_le i, by have := required.lt; omega⟩
  · rw [List.length_append, List.length_map, List.length_range']
    exact enough
  · rw [List.length_append, List.length_map, List.length_range']
    exact .inr fits
  · rw [namedCount_append, everyNamed, none, Nat.add_zero]

theorem namedCount_furtherText (keys : List Fragment) : namedCount (furtherText keys) = namedCount keys := by
  induction keys with
  | nil => rfl
  | cons key rest ih =>
    have step : furtherText (key :: rest) = [.midSep] ++ ([key] ++ furtherText rest) := rfl
    have parts : key :: rest = [key] ++ rest := rfl
    rw [step, parts, namedCount_append, namedCount_append, namedCount_append, ih]
    exact Nat.zero_add _

theorem LaidOut.namedCount {keys : List Fragment} (laidOut : LaidOut keys word) : namedCount word = namedCount keys := by
  cases laidOut with
  | empty => rfl
  | blank => rfl
  | keys key rest =>
    have whole : .openBrace :: .firstSep :: key :: (furtherText rest ++ [.lastSep, .closeBrace]) =
        [.openBrace, .firstSep] ++ ([key] ++ (furtherText rest ++ [.lastSep, .closeBrace])) := rfl
    have parts : key :: rest = [key] ++ rest := rfl
    rw [whole, parts, namedCount_append, namedCount_append, namedCount_append, namedCount_append, namedCount_furtherText]
    exact Nat.zero_add _

theorem not_generates (feasible : spec.Feasible) (lost : ¬ spec.UpperFits) {anyWhitespace : Bool} :
    ¬ spec.Generates anyWhitespace script := by
  simp only [UpperFits, not_or, not_lt, not_le] at lost
  obtain ⟨named, bounded, wide, lost⟩ := lost
  have countable := feasible.countable
  rintro ⟨rules, body, written, derives⟩
  have listed : (!spec.properties.isEmpty) = true := by simpa using named
  have hasMax : spec.hasMax = true := bne_iff_ne.mpr bounded
  rw [generateObject, if_pos listed, partialRuleForProperties, if_neg (by omega), if_neg (fun unbounded => bounded unbounded.2)]
    at written
  obtain ⟨_, innerWritten, written⟩ := Option.bind_eq_some_iff.mp written
  obtain ⟨⟨_, inner⟩, constrained, same⟩ := Option.map_eq_some_iff.mp innerWritten
  cases same
  cases written
  have innerShort := partialRuleConstrained_short feasible hasMax named lost (by omega) constrained
  have keyed : spec.Short rules (braces (some inner)) 0 := Short.after (Short.before innerShort rfl)
  have empty : spec.Short rules (emptyObject anyWhitespace) 0 := by
    refine ⟨_, emptyObject_means, fun word same => ?_⟩
    rw [Set.mem_singleton_iff.mp same, (LaidOut.emptyText anyWhitespace).namedCount]
    exact Int.natCast_pos.mpr (List.length_pos_iff.mpr named)
  obtain ⟨keys, object, all⟩ := exists_full_object feasible (by omega)
  obtain ⟨word, derived, laidOut⟩ := (derives []).complete keys object
  have fewer : namedCount word < spec.properties.length := by
    split at derived
    · exact (keyed.extend []).lt derived
    · exact ((keyed.alt empty).extend []).lt derived
  rw [laidOut.namedCount, all] at fewer
  exact Nat.lt_irrefl _ fewer

/-- The rules have the texts of exactly the objects that the schema describes, just when the bound is not lost. -/
theorem generates_iff (feasible : spec.Feasible) {anyWhitespace : Bool} :
    spec.Generates anyWhitespace script ↔ spec.UpperFits :=
  ⟨fun generates => by_contra fun lost => not_generates feasible lost generates, generates_of_fits feasible⟩

def optionalSpec : ObjectSpec := ⟨["a"], [], false, false, false, false, 0, 4294967296⟩

def requiredSpec : ObjectSpec := ⟨["a", "b"], ["b"], false, false, false, false, 0, 2147483648⟩

/-- The bound is lost, or an index is out of range. -/
theorem bound_lost : (optionalSpec.Feasible ∧ ¬ optionalSpec.Generates false []) ∧
    (requiredSpec.Feasible ∧ requiredSpec.generateObject false [] = none) := by
  have feasible : optionalSpec.Feasible :=
    ⟨by decide, by decide, by decide, by decide, by decide, by decide, by decide, by decide⟩
  refine ⟨⟨feasible, not_generates feasible ?_⟩,
    ⟨by decide, by decide, by decide, by decide, by decide, by decide, by decide, by decide⟩, ?_⟩
  · rintro (empty | unbounded | small | wide)
    · cases empty
    · exact absurd unbounded (by decide)
    · exact absurd small (by decide)
    · exact absurd wide (by decide)
  · decide

/-- Two to three keys, of an optional property, a required one and others. -/
def mixedSpec : ObjectSpec := ⟨["a", "b"], ["b"], true, true, false, false, 2, 3⟩

theorem mixedSpec_generates : mixedSpec.Generates true [] :=
  (generates_iff ⟨by decide, by decide, by decide, by decide, by decide, by decide, by decide, by decide⟩).mpr
    (.inr (.inr (.inl (by decide))))

end ObjectSpec

end Metrale.Grammar
