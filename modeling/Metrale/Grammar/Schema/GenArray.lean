import Metrale.Grammar.Schema.GenObject

/-! # Rules for arrays (`schema/parser_collections.rs`, `schema/gen_array.rs`, `schema/script.rs`)

What an item or a separator looks like is a fragment.  The number of further items is written as a repetition behind a
separator, whose bounds are the array's less the items before it, cast to `i32`, with `-1` for no bound. -/

namespace Metrale.Grammar

open Foundation Foundation.RuleScript

/-! ## Parsing -/

inductive SchemaError where
  | invalid (message : String)
  | unsatisfiable (message : String)
deriving DecidableEq

/-- The array keywords of a schema: the number of `prefixItems`, whether further items have a schema by `items`,
`unevaluatedItems` or the mode, and the integers. -/
structure ArrayKeywords where
  prefixItems : Nat
  additionalItems : Bool
  minItems : Option Int
  minContains : Option Int
  maxItems : Option Int

structure ArraySpec where
  prefixItems : Nat
  allowAdditionalItems : Bool
  minItems : Int
  maxItems : Int
deriving DecidableEq

def ArrayKeywords.lower (keywords : ArrayKeywords) : Int :=
  let minItems := match keywords.minItems with
    | some i => max i 0
    | none => 0
  match keywords.minContains with
  | some i => max minItems i
  | none => minItems

/-- The largest number of items, `-1` for none. -/
def ArrayKeywords.upper (keywords : ArrayKeywords) : Except SchemaError Int :=
  match keywords.maxItems with
  | some i => if i < 0 then .error (.invalid "maxItems must be a non-negative integer") else .ok i
  | none => .ok (-1)

/-- `parse_array` from its integers on. -/
def parseArray (keywords : ArrayKeywords) : Except SchemaError ArraySpec := do
  let minItems := keywords.lower
  let maxItems ← keywords.upper
  let prefixSize : Int := keywords.prefixItems
  if maxItems ≠ -1 ∧ maxItems < minItems then
    .error (.unsatisfiable s!"minItems is greater than maxItems: {minItems} > {maxItems}")
  else if maxItems ≠ -1 ∧ maxItems < prefixSize then
    .error (.unsatisfiable s!"maxItems is less than the number of prefixItems: {maxItems} < {prefixSize}")
  else if !keywords.additionalItems ∧ prefixSize < minItems then
    .error (.unsatisfiable
      "minItems is greater than the number of prefixItems, but additional items are not allowed")
  else if !keywords.additionalItems ∧ maxItems ≠ -1 ∧ maxItems < prefixSize then
    .error (.unsatisfiable
      "maxItems is less than the number of prefixItems, but additional items are not allowed")
  else .ok ⟨keywords.prefixItems, keywords.additionalItems, minItems, maxItems⟩

/-! ## Generating -/

inductive ArrayFragment where
  | openBracket
  | closeBracket
  | startSep
  | midSep
  | endSep
  | emptySep
  | item (index : Nat)
  | additional
deriving DecidableEq

abbrev ArrayBody := RuleBody ArrayFragment

/-- The suffix that `repeat` writes behind an item; `dropped` leaves not even the item. -/
inductive RepeatSuffix where
  | question
  | star
  | plus
  | dropped
  | exactly (count : Int)
  | atLeast (lower : Int)
  | between (lower upper : Int)

/-- `EbnfScriptCreator::repeat` -/
def RepeatSuffix.of (lower upper : Int) : RepeatSuffix :=
  if lower = 0 ∧ upper = 1 then .question
  else if lower = 0 ∧ upper = -1 then .star
  else if lower = 1 ∧ upper = -1 then .plus
  else if lower = 0 ∧ upper = 0 then .dropped
  else if lower = upper then .exactly lower
  else if upper = -1 then .atLeast lower
  else .between lower upper

/-- The bounds that the EBNF parser reads, if it takes them (`parse_repetition_range`). -/
def RepeatSuffix.bounds : RepeatSuffix → Option (Nat × Option Nat)
  | question => some (0, some 1)
  | star => some (0, none)
  | plus => some (1, none)
  | dropped => some (0, some 0)
  | exactly count => if count < 0 then none else some (count.toNat, some count.toNat)
  | atLeast lower => if lower < 0 then none else some (lower.toNat, none)
  | between lower upper => if lower < 0 then none else if upper < lower then none else some (lower.toNat, some upper.toNat)

def repeatBody (item : ArrayBody) (lower upper : Int) : Option ArrayBody :=
  (RepeatSuffix.of lower upper).bounds.map fun bounds => .repeated item bounds.1 bounds.2

namespace ArraySpec

variable (spec : ArraySpec)

def emptyPart : ArrayBody := .seq (.atom .openBracket) (.seq (.atom .emptySep) (.atom .closeBracket))

def furtherItem : ArrayBody := .seq (.atom .midSep) (.atom .additional)

/-- The `-1` of no bound stays. -/
def shiftedMax (shift : Int) : Int := if spec.maxItems = -1 then -1 else asI32 (spec.maxItems - shift)

def prefixPart : Nat → ArrayBody
  | 0 => .empty
  | 1 => .atom (.item 0)
  | count + 2 => .seq (prefixPart (count + 1)) (.seq (.atom .midSep) (.atom (.item (count + 1))))

def filled (inner : ArrayBody) : ArrayBody :=
  .seq (.atom .openBracket) (.seq (.atom .startSep) (.seq inner (.seq (.atom .endSep) (.atom .closeBracket))))

/-- `generate_array`, read by the EBNF parser. -/
def generateArray : Option ArrayBody :=
  if spec.prefixItems = 0 then
    if !spec.allowAdditionalItems then some emptyPart
    else if spec.minItems = 0 ∧ spec.maxItems = 0 then some emptyPart
    else if spec.minItems = 0 ∧ spec.maxItems ≠ 0 then do
      let repeated ← repeatBody furtherItem 0 (spec.shiftedMax 1)
      return .alt (filled (.seq (.atom .additional) repeated)) emptyPart
    else do
      let repeated ← repeatBody furtherItem (asI32 (spec.minItems - 1)) (spec.shiftedMax 1)
      return filled (.seq (.atom .additional) repeated)
  else if !spec.allowAdditionalItems then some (filled (prefixPart spec.prefixItems))
  else do
    let minItems := max 0 (spec.minItems - spec.prefixItems)
    let repeated ← repeatBody furtherItem (asI32 minItems) (spec.shiftedMax spec.prefixItems)
    return filled (.seq (prefixPart spec.prefixItems) repeated)

/-! ## Texts of arrays -/

def separated : List ArrayFragment → List ArrayFragment
  | [] => []
  | first :: rest => first :: rest.flatMap fun item => [.midSep, item]

def arrayText (items : List ArrayFragment) : List ArrayFragment :=
  if items = [] then [.openBracket, .emptySep, .closeBracket]
  else [.openBracket, .startSep] ++ separated items ++ [.endSep, .closeBracket]

def items (further : Nat) : List ArrayFragment :=
  (List.range spec.prefixItems).map .item ++ List.replicate further .additional

/-- The arrays within the bounds, of the prefix items and then of further ones if they have a schema. -/
def arrays : Language ArrayFragment :=
  {text | ∃ further : Nat, text = arrayText (spec.items further) ∧ spec.minItems ≤ spec.prefixItems + further ∧
    (spec.maxItems ≠ -1 → (spec.prefixItems + further : Int) ≤ spec.maxItems) ∧
    (spec.allowAdditionalItems = false → further = 0)}

def shift : Nat := max 1 spec.prefixItems

def Fits : Prop := spec.allowAdditionalItems = true →
  spec.minItems - spec.shift < 2147483648 ∧ (spec.maxItems = -1 ∨ spec.maxItems - spec.shift < 2147483648)

structure Admitted : Prop where
  minItems : 0 ≤ spec.minItems
  maxItems : spec.maxItems = -1 ∨ spec.minItems ≤ spec.maxItems ∧ (spec.prefixItems : Int) ≤ spec.maxItems
  fixed : spec.allowAdditionalItems = false → spec.minItems ≤ spec.prefixItems

theorem ArrayKeywords.lower_nonneg (keywords : ArrayKeywords) : 0 ≤ keywords.lower := by
  unfold ArrayKeywords.lower
  split <;> split <;> dsimp only <;> omega

variable {spec}

theorem ArrayKeywords.upper_cases {keywords : ArrayKeywords} {maxItems : Int} (bound : keywords.upper = .ok maxItems) :
    maxItems = -1 ∨ 0 ≤ maxItems := by
  unfold ArrayKeywords.upper at bound
  split at bound
  · split at bound
    · cases bound
    · cases bound
      omega
  · cases bound
    exact .inl rfl

theorem admitted_of_parseArray {keywords : ArrayKeywords} (parsed : parseArray keywords = .ok spec) : spec.Admitted := by
  have lower := ArrayKeywords.lower_nonneg keywords
  unfold parseArray at parsed
  cases bound : keywords.upper with
  | error error =>
    rw [bound] at parsed
    cases parsed
  | ok maxItems =>
    have upper := ArrayKeywords.upper_cases bound
    simp only [bound, bind, Except.bind] at parsed
    split at parsed
    · cases parsed
    · split at parsed
      · cases parsed
      · split at parsed
        · cases parsed
        · split at parsed
          · cases parsed
          · cases parsed
            next ordered enough fixed _ =>
            have counted : maxItems = -1 ∨ keywords.lower ≤ maxItems ∧ (keywords.prefixItems : Int) ≤ maxItems := by omega
            refine ⟨lower, counted, fun none => ?_⟩
            exact not_lt.mp fun short => fixed ⟨by rw [Bool.not_eq_true']; exact none, short⟩

variable {text : List ArrayFragment} {first : ArrayFragment} {rest : List ArrayFragment} {further : Nat}

theorem length_separated (items : List ArrayFragment) : (separated items).length = 2 * items.length - 1 := by
  cases items with
  | nil => rfl
  | cons first rest =>
    have pairs : (rest.flatMap fun item => [.midSep, item]).length = 2 * rest.length := by
      induction rest with
      | nil => rfl
      | cons item rest ih =>
        rw [List.flatMap_cons, List.length_append, ih, List.length_cons]
        simp only [List.length_cons, List.length_nil]
        omega
    rw [separated, List.length_cons, pairs, List.length_cons]
    omega

theorem length_arrayText (items : List ArrayFragment) : (arrayText items).length = 2 * items.length + 3 := by
  unfold arrayText
  split
  · next none =>
    rw [none]
    rfl
  · next some =>
    have positive : 0 < items.length := List.length_pos_iff.mpr some
    simp only [List.length_append, length_separated, List.length_cons, List.length_nil]
    omega

theorem length_items : (spec.items further).length = spec.prefixItems + further := by simp [items]

theorem separated_append {front : List ArrayFragment} (some : front ≠ []) (back : List ArrayFragment) :
    separated (front ++ back) = separated front ++ back.flatMap fun item => [.midSep, item] := by
  cases front with
  | nil => exact absurd rfl some
  | cons first rest => simp [separated]

theorem flatMap_replicate (count : Nat) : ((List.replicate count ArrayFragment.additional).flatMap fun item => [.midSep, item]) =
    (List.replicate count [ArrayFragment.midSep, .additional]).flatten := by
  induction count with
  | zero => rfl
  | succ count ih =>
    rw [List.replicate_succ, List.flatMap_cons, ih, List.replicate_succ, List.flatten_cons]

/-! ## What is derived -/

theorem singleton_mul_singleton (front back : List ArrayFragment) :
    ({front} : Language ArrayFragment) * {back} = {front ++ back} :=
  Set.image2_singleton

theorem words_furtherItem : words [] furtherItem = {[ArrayFragment.midSep, .additional]} := by
  rw [furtherItem, words_seq, words_atom, words_atom, singleton_mul_singleton]
  rfl

theorem words_emptyPart : words [] emptyPart = {[ArrayFragment.openBracket, .emptySep, .closeBracket]} := by
  rw [emptyPart, words_seq, words_seq, words_atom, words_atom, words_atom, singleton_mul_singleton, singleton_mul_singleton]
  rfl

theorem mem_filled {inner : ArrayBody} : text ∈ words [] (filled inner) ↔
    ∃ word ∈ words [] inner, text = [.openBracket, .startSep] ++ word ++ [.endSep, .closeBracket] := by
  rw [filled, words_seq, words_seq, words_seq, words_seq, words_atom, words_atom, words_atom, words_atom,
    singleton_mul_singleton, mem_singleton_mul]
  constructor
  · rintro ⟨_, started, rfl⟩
    obtain ⟨_, inside, rfl⟩ := mem_singleton_mul.mp started
    obtain ⟨word, member, _, rfl, rfl⟩ := Language.mem_mul.mp inside
    exact ⟨word, member, rfl⟩
  · rintro ⟨word, member, rfl⟩
    exact ⟨_, mem_singleton_mul.mpr ⟨_, Language.mem_mul.mpr ⟨word, member, _, rfl, rfl⟩, rfl⟩, rfl⟩

theorem words_prefixPart (count : Nat) :
    words [] (prefixPart (count + 1)) = {separated ((List.range (count + 1)).map .item)} := by
  induction count with
  | zero => exact words_atom _
  | succ count ih =>
    have some : (List.range (count + 1)).map ArrayFragment.item ≠ [] := by simp
    rw [prefixPart, words_seq, ih, words_seq, words_atom, words_atom, singleton_mul_singleton,
      singleton_mul_singleton, List.range_succ (n := count + 1), List.map_append, separated_append some]
    rfl

/-- The items before the repetition: all prefix items, or one further item. -/
def beforeRepetition (spec : ArraySpec) : ArrayBody :=
  if spec.prefixItems = 0 then .atom .additional else prefixPart spec.prefixItems

theorem words_beforeRepetition : words [] (beforeRepetition spec) = {separated (spec.items (spec.shift - spec.prefixItems))} := by
  unfold beforeRepetition items shift
  split
  · next none =>
    rw [none]
    exact words_atom _
  · next some =>
    obtain ⟨count, prefixed⟩ := Nat.exists_eq_succ_of_ne_zero some
    have all : max 1 spec.prefixItems - spec.prefixItems = 0 := by omega
    rw [all, prefixed, words_prefixPart]
    simp

/-- So many further items are derived as the repetition has, and those that were written before it. -/
theorem mem_filled_repeated {lower : Nat} {upper : Option Nat} :
    text ∈ words [] (filled (.seq (beforeRepetition spec) (.repeated furtherItem lower upper))) ↔
      ∃ count, lower ≤ count ∧ (∀ bound ∈ upper, count ≤ bound) ∧
        text = arrayText (spec.items (spec.shift - spec.prefixItems + count)) := by
  have whole (count : Nat) : arrayText (spec.items (spec.shift - spec.prefixItems + count)) =
      [.openBracket, .startSep] ++ (separated (spec.items (spec.shift - spec.prefixItems)) ++
        (List.replicate count [ArrayFragment.midSep, .additional]).flatten) ++ [.endSep, .closeBracket] := by
    have some : spec.items (spec.shift - spec.prefixItems) ≠ [] := by
      rw [← List.length_pos_iff, length_items, shift]
      omega
    have split : spec.items (spec.shift - spec.prefixItems + count) =
        spec.items (spec.shift - spec.prefixItems) ++ List.replicate count .additional := by
      rw [items, items, List.replicate_add, List.append_assoc]
    rw [split, arrayText, if_neg (List.append_ne_nil_of_left_ne_nil some _), separated_append some, flatMap_replicate]
  rw [mem_filled]
  simp only [words_seq, words_beforeRepetition, words_repeated, words_furtherItem]
  constructor
  · rintro ⟨word, member, rfl⟩
    obtain ⟨_, rfl, _, ⟨count, enough, within, power⟩, rfl⟩ := Language.mem_mul.mp member
    exact ⟨count, enough, within, by rw [whole, mem_singleton_pow.mp power]⟩
  · rintro ⟨count, enough, within, rfl⟩
    exact ⟨_, Language.mem_mul.mpr ⟨_, rfl, _, ⟨count, enough, within, mem_singleton_pow.mpr rfl⟩, rfl⟩, whole count⟩

theorem repeatBody_eq (item : ArrayBody) (lower upper : Int) : repeatBody item lower upper =
    if lower < 0 then none
    else if upper = -1 then some (.repeated item lower.toNat none)
    else if upper < lower then none
    else some (.repeated item lower.toNat (some upper.toNat)) := by
  unfold repeatBody RepeatSuffix.of
  repeat' split
  all_goals simp only [RepeatSuffix.bounds, Option.map_some]
  all_goals first | omega | skip
  all_goals repeat' split
  all_goals simp_all
  omega

/-! ## Arrays within the bounds -/

/-- The further items behind `shift` items that the bounds ask for at least. -/
def required (spec : ArraySpec) : Int := max 0 (spec.minItems - spec.shift)

theorem Admitted.shift_le (admitted : spec.Admitted) (some : ¬(spec.prefixItems = 0 ∧ spec.minItems = 0 ∧ spec.maxItems = 0)) :
    spec.maxItems = -1 ∨ spec.required ≤ spec.maxItems - spec.shift := by
  have lower := admitted.minItems
  have upper := admitted.maxItems
  unfold required shift
  omega

theorem arrayText_items_injective {left right : Nat} (same : arrayText (spec.items left) = arrayText (spec.items right)) :
    left = right := by
  have lengths := congrArg List.length same
  rw [length_arrayText, length_arrayText, length_items, length_items] at lengths
  omega

/-- The empty array, where the bounds leave it, and those that have the items before the repetition. -/
theorem mem_arrays (admitted : spec.Admitted) (additional : spec.allowAdditionalItems = true) : text ∈ spec.arrays ↔
    spec.prefixItems = 0 ∧ spec.minItems = 0 ∧ text = arrayText [] ∨
      ∃ count : Nat, spec.required ≤ count ∧ (spec.maxItems ≠ -1 → (count : Int) ≤ spec.maxItems - spec.shift) ∧
        text = arrayText (spec.items (spec.shift - spec.prefixItems + count)) := by
  have lower := admitted.minItems
  have upper := admitted.maxItems
  constructor
  · rintro ⟨further, rfl, enough, within, -⟩
    by_cases none : spec.prefixItems + further = 0
    · refine .inl ⟨by omega, by omega, ?_⟩
      rw [List.length_eq_zero_iff.mp (length_items.trans none)]
    · refine .inr ⟨spec.prefixItems + further - spec.shift, ?_, fun bounded => ?_, ?_⟩
      · unfold required shift
        omega
      · have most := within bounded
        unfold shift
        omega
      · have same : spec.shift - spec.prefixItems + (spec.prefixItems + further - spec.shift) = further := by
          unfold shift
          omega
        rw [same]
  · rintro (⟨none, zero, rfl⟩ | ⟨count, enough, within, rfl⟩)
    · refine ⟨0, ?_, by omega, by omega, fun _ => rfl⟩
      rw [List.length_eq_zero_iff.mp (length_items.trans (by omega : spec.prefixItems + 0 = 0))]
    · unfold required shift at *
      refine ⟨_, rfl, by omega, fun bounded => ?_, by simp [additional]⟩
      have most := within bounded
      omega

/-- Both bounds after the casts let through the counts of the bounds before them just if neither cast changes its number. -/
theorem counts_agree {lower upper : Int} {bounded : Prop} (nonneg : 0 ≤ lower) (ordered : bounded → lower ≤ upper) :
    (0 ≤ asI32 lower ∧ (bounded → asI32 upper ≠ -1 → asI32 lower ≤ asI32 upper) ∧
      ∀ count : Nat, (lower ≤ count ∧ (bounded → (count : Int) ≤ upper)) ↔
        (asI32 lower ≤ count ∧ (bounded → asI32 upper ≠ -1 → (count : Int) ≤ asI32 upper))) ↔
      lower < 2147483648 ∧ (bounded → upper < 2147483648) := by
  have below := asI32_lt lower
  constructor
  · rintro ⟨positive, nonempty, agree⟩
    -- the least count that is derived
    have least : lower ≤ asI32 lower := by
      have member := (agree (asI32 lower).toNat).mpr ⟨by omega, fun isBounded proper => by
        have := nonempty isBounded proper
        omega⟩
      omega
    refine ⟨by omega, fun isBounded => ?_⟩
    have kept : asI32 lower = lower := asI32_exact (by omega) (by omega)
    have ordered := ordered isBounded
    by_cases unbounded : asI32 upper = -1
    · have member := (agree (upper + 1).toNat).mpr ⟨by omega, fun _ proper => absurd unbounded proper⟩
      have most := member.2 isBounded
      omega
    · have member := (agree upper.toNat).mp ⟨by omega, fun _ => by omega⟩
      have most := member.2 isBounded unbounded
      have below := asI32_lt upper
      omega
  · rintro ⟨lowerFits, upperFits⟩
    rw [asI32_exact (by omega) lowerFits]
    have same (isBounded : bounded) : asI32 upper = upper := by
      have := ordered isBounded
      exact asI32_exact (by omega) (upperFits isBounded)
    refine ⟨nonneg, fun isBounded _ => ?_, fun count => and_congr_right fun _ => forall_congr' fun isBounded => ?_⟩
    · rw [same isBounded]
      exact ordered isBounded
    · have ordered := ordered isBounded
      rw [same isBounded]
      exact ⟨fun most _ => most, fun most => most (by omega)⟩

/-! ## The generated rule -/

/-- The items before the repetition and the repetition; the empty array too if the bounds leave it. -/
def assembled (spec : ArraySpec) (repeated : ArrayBody) : ArrayBody :=
  if spec.prefixItems = 0 ∧ spec.minItems = 0 then .alt (filled (.seq (beforeRepetition spec) repeated)) emptyPart
  else filled (.seq (beforeRepetition spec) repeated)

theorem generateArray_additional (admitted : spec.Admitted) (additional : spec.allowAdditionalItems = true)
    (some : ¬(spec.prefixItems = 0 ∧ spec.minItems = 0 ∧ spec.maxItems = 0)) :
    spec.generateArray = (repeatBody furtherItem (asI32 spec.required) (spec.shiftedMax spec.shift)).map spec.assembled := by
  have lower := admitted.minItems
  unfold generateArray assembled beforeRepetition
  by_cases none : spec.prefixItems = 0
  · have first : spec.shift = 1 := by simp [shift, none]
    simp only [none, additional, Bool.not_true, Bool.false_eq_true, if_true, if_false, true_and, first]
    by_cases zero : spec.minItems = 0
    · have nonzero : spec.maxItems ≠ 0 := fun isZero => some ⟨none, zero, isZero⟩
      have required : asI32 spec.required = 0 := by
        have noItem : spec.required = 0 := by
          unfold required
          omega
        rw [noItem]
        rfl
      simp only [zero, nonzero, required, and_false, if_false, true_and, if_true, ne_eq, not_false_eq_true]
      exact Option.map_eq_bind.symm
    · have required : spec.required = spec.minItems - 1 := by
        unfold required
        omega
      simp only [zero, required, false_and, if_false]
      exact Option.map_eq_bind.symm
  · have all : (spec.shift : Int) = spec.prefixItems := by
      unfold shift
      omega
    simp only [none, additional, Bool.not_true, Bool.false_eq_true, if_false, false_and, required, all]
    exact Option.map_eq_bind.symm

theorem generateArray_empty (additional : spec.allowAdditionalItems = true)
    (none : spec.prefixItems = 0 ∧ spec.minItems = 0 ∧ spec.maxItems = 0) : spec.generateArray = some emptyPart := by
  simp [generateArray, none, additional]

theorem mem_assembled {repeated : ArrayBody} : text ∈ words [] (spec.assembled repeated) ↔
    spec.prefixItems = 0 ∧ spec.minItems = 0 ∧ text = arrayText [] ∨
      text ∈ words [] (filled (.seq (beforeRepetition spec) repeated)) := by
  unfold assembled
  split
  · next none =>
    rw [words_alt, words_emptyPart]
    exact or_comm.trans (or_congr_left ⟨fun same => ⟨none.1, none.2, same⟩, fun same => same.2.2⟩)
  · next some => exact ⟨.inr, fun member => member.resolve_left fun isEmpty => some ⟨isEmpty.1, isEmpty.2.1⟩⟩

theorem derives_arrays_of_fixed (admitted : spec.Admitted) (fixed : spec.allowAdditionalItems = false) :
    ∃ body, spec.generateArray = some body ∧ words [] body = spec.arrays := by
  have enough := admitted.fixed fixed
  have upper := admitted.maxItems
  have only : spec.arrays = {arrayText (spec.items 0)} := by
    ext text
    constructor
    · rintro ⟨further, rfl, -, -, none⟩
      rw [none fixed]
      rfl
    · rintro rfl
      exact ⟨0, rfl, by omega, by omega, fun _ => rfl⟩
  rw [only]
  unfold generateArray
  split
  · next none =>
    refine ⟨emptyPart, by simp [fixed], ?_⟩
    rw [words_emptyPart, List.length_eq_zero_iff.mp (length_items.trans (by omega : spec.prefixItems + 0 = 0))]
    rfl
  · next some =>
    refine ⟨filled (prefixPart spec.prefixItems), by simp [fixed], ?_⟩
    obtain ⟨count, prefixed⟩ := Nat.exists_eq_succ_of_ne_zero some
    have someItems : spec.items 0 ≠ [] := by
      rw [← List.length_pos_iff, length_items]
      omega
    ext text
    rw [mem_filled, prefixed, words_prefixPart, ← Nat.succ_eq_add_one, ← prefixed, arrayText, if_neg someItems]
    simp only [items, List.replicate_zero, List.append_nil]
    exact ⟨by rintro ⟨_, rfl, rfl⟩; rfl, by rintro rfl; exact ⟨_, rfl, rfl⟩⟩

theorem words_assembled (admitted : spec.Admitted) (additional : spec.allowAdditionalItems = true) {lower : Nat}
    {upper : Option Nat} : words [] (spec.assembled (.repeated furtherItem lower upper)) = spec.arrays ↔
      ∀ count : Nat, (spec.required ≤ count ∧ (spec.maxItems ≠ -1 → (count : Int) ≤ spec.maxItems - spec.shift)) ↔
        (lower ≤ count ∧ ∀ bound ∈ upper, count ≤ bound) := by
  have notEmpty (count : Nat) : arrayText (spec.items (spec.shift - spec.prefixItems + count)) ≠ arrayText [] := by
    intro same
    have lengths := congrArg List.length same
    rw [length_arrayText, length_arrayText, length_items] at lengths
    simp only [List.length_nil, shift] at lengths
    omega
  constructor
  · intro same count
    have member := iff_of_eq (congrArg (arrayText (spec.items (spec.shift - spec.prefixItems + count)) ∈ ·) same)
    rw [mem_assembled, mem_arrays admitted additional, mem_filled_repeated] at member
    constructor
    · rintro ⟨enough, within⟩
      have derived := member.mpr (.inr ⟨count, enough, within, rfl⟩)
      obtain ⟨other, enough, within, equal⟩ := derived.resolve_left fun isEmpty => notEmpty count isEmpty.2.2
      have one : count = other := by
        have := arrayText_items_injective equal
        omega
      exact one ▸ ⟨enough, within⟩
    · rintro ⟨enough, within⟩
      have derived := member.mp (.inr ⟨count, enough, within, rfl⟩)
      obtain ⟨other, enough, within, equal⟩ := derived.resolve_left fun isEmpty => notEmpty count isEmpty.2.2
      have one : count = other := by
        have := arrayText_items_injective equal
        omega
      exact one ▸ ⟨enough, within⟩
  · intro agree
    ext text
    rw [mem_assembled, mem_arrays admitted additional, mem_filled_repeated]
    refine or_congr_right (exists_congr fun count => ?_)
    rw [← and_assoc, ← and_assoc, agree count]

theorem arrays_of_empty (admitted : spec.Admitted) (additional : spec.allowAdditionalItems = true)
    (none : spec.prefixItems = 0 ∧ spec.minItems = 0 ∧ spec.maxItems = 0) : words [] emptyPart = spec.arrays := by
  obtain ⟨noPrefix, zero, most⟩ := none
  ext text
  rw [words_emptyPart, mem_arrays admitted additional]
  constructor
  · exact fun same => .inl ⟨noPrefix, zero, same⟩
  · rintro (⟨-, -, rfl⟩ | ⟨count, -, within, -⟩)
    · rfl
    · have few := within (by omega)
      unfold shift at few
      omega

theorem derives_arrays (admitted : spec.Admitted) :
    (∃ body, spec.generateArray = some body ∧ words [] body = spec.arrays) ↔ spec.Fits := by
  cases additional : spec.allowAdditionalItems with
  | false =>
    refine iff_of_true (derives_arrays_of_fixed admitted additional) fun isTrue => ?_
    rw [additional] at isTrue
    cases isTrue
  | true =>
    by_cases none : spec.prefixItems = 0 ∧ spec.minItems = 0 ∧ spec.maxItems = 0
    · refine iff_of_true ⟨_, generateArray_empty additional none, arrays_of_empty admitted additional none⟩ fun _ => ?_
      unfold shift
      omega
    · have ordered := admitted.shift_le none
      have agree := @counts_agree spec.required (spec.maxItems - spec.shift) (spec.maxItems ≠ -1) (le_max_left _ _)
        fun isBounded => ordered.resolve_left isBounded
      have fits : spec.Fits ↔ spec.required < 2147483648 ∧ (spec.maxItems ≠ -1 → spec.maxItems - spec.shift < 2147483648) := by
        rw [Fits, required, additional]
        simp only [forall_const]
        omega
      rw [fits, ← agree, generateArray_additional admitted additional none, repeatBody_eq, shiftedMax]
      have below := asI32_lt spec.required
      by_cases positive : asI32 spec.required < 0
      · rw [if_pos positive]
        exact iff_of_false (by simp) fun all => absurd all.1 (by omega)
      · rw [if_neg positive]
        by_cases unbounded : spec.maxItems = -1
        · rw [if_pos unbounded, if_pos rfl]
          simp only [Option.map_some, Option.some.injEq, exists_eq_left', words_assembled admitted additional]
          simp [unbounded]
          omega
        · rw [if_neg unbounded]
          by_cases marker : asI32 (spec.maxItems - spec.shift) = -1
          · rw [if_pos marker]
            simp only [Option.map_some, Option.some.injEq, exists_eq_left', words_assembled admitted additional]
            simp [unbounded, marker]
            omega
          · rw [if_neg marker]
            by_cases crossed : asI32 (spec.maxItems - spec.shift) < asI32 spec.required
            · rw [if_pos crossed]
              exact iff_of_false (by simp) fun all => absurd (all.2.1 unbounded marker) (not_le.mpr crossed)
            · rw [if_neg crossed]
              simp only [Option.map_some, Option.some.injEq, exists_eq_left', words_assembled admitted additional]
              have least (count : Nat) : (asI32 spec.required).toNat ≤ count ↔ asI32 spec.required ≤ count := Int.toNat_le
              have most (count : Nat) : count ≤ (asI32 (spec.maxItems - spec.shift)).toNat ↔
                  (count : Int) ≤ asI32 (spec.maxItems - spec.shift) := Int.le_toNat (by omega)
              simp [unbounded, marker, least, most, not_lt.mp positive, not_lt.mp crossed]

/-- The generated rule derives the arrays within the bounds just if the bounds of its repetition are numbers of 32 bits. -/
theorem generateArray_arrays {keywords : ArrayKeywords} (parsed : parseArray keywords = .ok spec) :
    (∃ body, spec.generateArray = some body ∧ words [] body = spec.arrays) ↔ spec.Fits :=
  derives_arrays (admitted_of_parseArray parsed)

theorem generateArray_arrays_two : (∃ body, ArraySpec.generateArray ⟨2, true, 3, 5⟩ = some body ∧
    words [] body = ArraySpec.arrays ⟨2, true, 3, 5⟩) ↔ ArraySpec.Fits ⟨2, true, 3, 5⟩ :=
  @generateArray_arrays ⟨2, true, 3, 5⟩ ⟨2, true, some 3, none, some 5⟩ rfl

/-- The largest number of items after the first is cast to `-1`, which stands for no bound. -/
theorem generateArray_unbounded : parseArray ⟨0, true, none, none, some 4294967296⟩ = .ok ⟨0, true, 0, 4294967296⟩ ∧
    ¬∃ body, ArraySpec.generateArray ⟨0, true, 0, 4294967296⟩ = some body ∧
      words [] body = ArraySpec.arrays ⟨0, true, 0, 4294967296⟩ := by
  have parsed : parseArray ⟨0, true, none, none, some 4294967296⟩ = .ok ⟨0, true, 0, 4294967296⟩ := rfl
  refine ⟨parsed, fun derived => ?_⟩
  have fits := (derives_arrays (admitted_of_parseArray parsed)).mp derived rfl
  simp [shift] at fits

end ArraySpec

end Metrale.Grammar
