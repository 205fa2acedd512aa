import Metrale.Foundation.Outcome
import Metrale.Grammar.Ebnf.Builder
import Metrale.Grammar.Schema.GenObject

/-! # Repetitions (`grammar/parser_quant.rs`, `grammar/parser_repeat.rs`)

A repetition with bounds becomes copies of the element and helper rules, and from `UNZIP_THRESHOLD` on a `Repeat`, whose
bounds are cast to `i32`. -/

namespace Metrale.Grammar.Ebnf

open Foundation Foundation.RuleScript

/-! ## Parsing the bounds -/

inductive TokenType where
  | lBrace
  | rBrace
  | comma
  | integerLiteral (value : Int)
  | other
deriving DecidableEq

structure Token where
  type : TokenType
  lexeme : String
deriving DecidableEq

def peek (tokens : List Token) : Token := tokens.headD ⟨.other, ""⟩

def peekAndConsume (expected : TokenType) (message : String) (tokens : List Token) : Except String (List Token) :=
  if (peek tokens).type = expected then .ok tokens.tail else .error message

def parseInteger (tokens : List Token) : Except String (Int × List Token) :=
  match (peek tokens).type with
  | .integerLiteral value => .ok (value, tokens.tail)
  | _ =>
    let lexeme := (peek tokens).lexeme
    .error s!"Expect integer, but got {lexeme}"

/-- The bounds behind an element; an upper bound of `-1` is none. -/
def parseRepetitionRange (tokens : List Token) : Except String ((Int × Int) × List Token) := do
  let tokens ← peekAndConsume .lBrace "Expect \x7b" tokens
  let (lower, tokens) ← parseInteger tokens
  if lower < 0 then .error "Lower bound cannot be negative"
  else if (peek tokens).type = .comma then
    if (peek tokens.tail).type = .rBrace then .ok ((lower, -1), tokens.tail.tail)
    else do
      let (upper, tokens) ← parseInteger tokens.tail
      if upper < lower then .error s!"Lower bound is larger than upper bound: {lower} > {upper}"
      else do
        let tokens ← peekAndConsume .rBrace "Expect \x7d" tokens
        return ((lower, upper), tokens)
  else if (peek tokens).type = .rBrace then .ok ((lower, lower), tokens.tail)
  else .error "Expect ',' or '\x7d' in repetition range"

/-! ## Writing the rules -/

def unzipThreshold : Nat := 128

variable {Leaf : Type}

section writing

variable (curRuleName : String) (element : Expr Leaf)

def addEmptyRules : Nat → Builder Leaf → Except BuilderError (List Nat × Builder Leaf)
  | 0, builder => .ok ([], builder)
  | span + 1, builder => do
    let (rule, builder) ← builder.addEmptyRule (builder.getNewRuleName curRuleName)
    let (rules, builder) ← addEmptyRules span builder
    return (rule :: rules, builder)

/-- Each rule is the empty string, or the element and the next rule; the last one is the empty string or the element. -/
def fillRest : List Nat → Builder Leaf → Except BuilderError (Builder Leaf)
  | [], builder => .ok builder
  | [last], builder => builder.updateRuleBody last (.choice [.empty, element])
  | rule :: next :: rest, builder => do
    let builder ← builder.updateRuleBody rule (.choice [.empty, .sequence [element, .ref next]])
    fillRest (next :: rest) builder

def legacyHandleRepetitionRange (lower upper : Int) (builder : Builder Leaf) : Except BuilderError (Expr Leaf × Builder Leaf) :=
  let elements := List.replicate (max lower 0).toNat element
  if upper = lower then .ok (.sequence elements, builder)
  else if upper = -1 then do
    let (rule, builder) ← builder.addEmptyRule (builder.getNewRuleName curRuleName)
    let builder ← builder.updateRuleBody rule (.choice [.empty, .sequence [element, .ref rule]])
    return (.sequence (elements ++ [.ref rule]), builder)
  else do
    let (rest, builder) ← addEmptyRules curRuleName (upper - lower).toNat builder
    let builder ← fillRest element rest builder
    return (.sequence (elements ++ [.ref (rest.headD 0)]), builder)

def buildInfiniteRepetition (builder : Builder Leaf) : Except BuilderError (Expr Leaf × Builder Leaf) :=
  match element with
  | .atom (.characterClass isNegative ranges) => .ok (Builder.characterClassStar isNegative ranges, builder)
  | _ => do
    let (rule, builder) ← builder.addEmptyRule (builder.getNewRuleName s!"{curRuleName}_repeat_inf")
    let builder ← builder.updateRuleBody rule (.choice [.empty, .sequence [element, .ref rule]])
    return (.ref rule, builder)

def buildLargeRepeat (lower upper : Int) (builder : Builder Leaf) : Except BuilderError (Expr Leaf × Builder Leaf) := do
  let repeatName := s!"{curRuleName}_repeat_1"
  let (rule, builder) ← builder.addRuleWithHint repeatName (.choice [.sequence [element]])
  let repeated := Builder.addRepeat rule (asI32 (lower - unzipThreshold)) (asI32 (upper - unzipThreshold))
  let (inner, builder) ← builder.addRuleWithHint s!"{repeatName}_inner" (.choice [.sequence [repeated]])
  let builder ← builder.updateLookaheadAssertion rule (.sequence (List.replicate unzipThreshold element))
  return (.ref inner, builder)

/-- The part of a repetition from `unzipThreshold` on: what repeats without end, the `Repeat`, and the copies. -/
def repeatedSequence (lower upper : Int) (builder : Builder Leaf) : Except BuilderError (Expr Leaf × Builder Leaf) := do
  let copies := List.replicate unzipThreshold element
  if upper = -1 then
    let (infinite, builder) ← buildInfiniteRepetition curRuleName element builder
    if lower = unzipThreshold then return (.sequence (infinite :: copies), builder)
    else
      let (repeated, builder) ← buildLargeRepeat curRuleName element lower lower builder
      return (.sequence (infinite :: repeated :: copies), builder)
  else if upper = unzipThreshold then return (.sequence copies, builder)
  else
    let (repeated, builder) ← buildLargeRepeat curRuleName element lower upper builder
    return (.sequence (repeated :: copies), builder)

def handleRepetitionRange (lower upper : Int) (builder : Builder Leaf) : Except BuilderError (Expr Leaf × Builder Leaf) :=
  if upper ≠ -1 ∧ upper ≤ unzipThreshold ∨ upper = -1 ∧ lower ≤ unzipThreshold then
    legacyHandleRepetitionRange curRuleName element lower upper builder
  else if lower < unzipThreshold then do
    let (few, builder) ← legacyHandleRepetitionRange curRuleName element lower (unzipThreshold - 1) builder
    let (many, builder) ← repeatedSequence curRuleName element unzipThreshold upper builder
    return (.choice [few, many], builder)
  else do
    let (many, builder) ← repeatedSequence curRuleName element lower upper builder
    return (.choice [many], builder)

end writing

/-! ## What is derived -/

def Kept (before after : Builder Leaf) (script : RuleScript (Terminal Leaf)) : Prop :=
  ∀ rule added body, before.length ≤ rule → after[rule]? = some added → added.body = some body → script[rule]? = some body

/-- The rules there were stay, and each rule behind them has a body. -/
structure Grown (before after : Builder Leaf) : Prop where
  kept : before <+: after
  complete : ∀ rule added, before.length ≤ rule → after[rule]? = some added → ∃ body, added.body = some body

/-- The counts within the bounds, of which `-1` is no upper bound. -/
def between (lower upper : Int) : Set Nat := {count | lower ≤ count ∧ (upper ≠ -1 → (count : Int) ≤ upper)}

/-- The counts of a `Repeat` after the casts of its bounds. -/
def castCounts (lower upper : Int) : Set Nat :=
  {count | (asI32 (lower - unzipThreshold)).toNat ≤ count ∧ count ≤ (max 1 (asI32 (upper - unzipThreshold))).toNat}

/-- The counts from `unzipThreshold` on. -/
def manyCounts (lower upper : Int) : Set Nat :=
  if upper = -1 then
    if lower = unzipThreshold then sums Set.univ {unzipThreshold}
    else sums Set.univ (sums (castCounts lower lower) {unzipThreshold})
  else if upper = unzipThreshold then {unzipThreshold}
  else sums (castCounts lower upper) {unzipThreshold}

def derivedCounts (lower upper : Int) : Set Nat :=
  if upper ≠ -1 ∧ upper ≤ unzipThreshold ∨ upper = -1 ∧ lower ≤ unzipThreshold then between lower upper
  else if lower < unzipThreshold then between lower (unzipThreshold - 1) ∪ manyCounts unzipThreshold upper
  else manyCounts lower upper

/-- The written expression derives, wherever the new rules are kept, so many strings of the element one after another as one
of the counts says. -/
def Derives (element : Expr Leaf) (before : Builder Leaf) (written : Except BuilderError (Expr Leaf × Builder Leaf))
    (counts : Set Nat) : Prop :=
  ∃ body after, written = .ok (body, after) ∧ Grown before after ∧
    ∀ script, Kept before after script → words script body = countedWords (words script element) counts

section derived

variable {curRuleName hint : String} {element body : Expr Leaf} {before middle after builder : Builder Leaf}
  {script : RuleScript (Terminal Leaf)} {counts more : Set Nat} {rule start count : Nat}

theorem present_of_grown {found : Rule Leaf} (kept : before <+: after) (present : before[rule]? = some found) :
    after[rule]? = some found := by
  obtain ⟨rest, rfl⟩ := kept
  obtain ⟨inside, -⟩ := List.getElem?_eq_some_iff.mp present
  rwa [List.getElem?_append_left inside]

theorem Grown.refl (builder : Builder Leaf) : Grown builder builder where
  kept := List.prefix_rfl
  complete := fun _ _ new found => by
    rw [List.getElem?_eq_none new] at found
    cases found

theorem Grown.trans (first : Grown before middle) (second : Grown middle after) : Grown before after where
  kept := first.kept.trans second.kept
  complete := fun rule added new found => by
    by_cases later : middle.length ≤ rule
    · exact second.complete rule added later found
    · refine first.complete rule added new ?_
      rw [List.getElem?_eq_getElem (not_le.mp later)]
      rw [present_of_grown second.kept (List.getElem?_eq_getElem (not_le.mp later))] at found
      exact found

theorem Kept.first (kept : Kept before after script) (grown : Grown middle after) : Kept before middle script :=
  fun rule added body new found => kept rule added body new (present_of_grown grown.kept found)

theorem Kept.second (kept : Kept before after script) (grown : Grown before middle) : Kept middle after script :=
  fun rule added body new found => kept rule added body (grown.kept.length_le.trans new) found

theorem exists_kept (before after : Builder Leaf) : ∃ script, Kept before after script := by
  refine ⟨after.map fun rule => rule.body.getD .empty, fun rule added body _ found isBody => ?_⟩
  rw [List.getElem?_map, found, Option.map_some, isBody]
  rfl

theorem prefix_modify {update : Rule Leaf → Rule Leaf} (kept : before <+: after) (new : before.length ≤ rule) :
    before <+: after.modify rule update := by
  rw [List.prefix_iff_getElem?] at kept ⊢
  intro index inside
  rw [List.getElem?_modify, kept index inside]
  simp only [Option.map_eq_map, Option.map_some, Option.some.injEq, ite_eq_right_iff]
  omega

/-! ### Copies, and the rules behind them -/

theorem words_copies : words script (.sequence (List.replicate count element)) = countedWords (words script element) {count} := by
  rw [words_sequence, List.map_replicate, List.prod_replicate, pow_eq_counted]

theorem words_copies_ref : words script (.sequence (List.replicate count element ++ [.ref rule])) =
    countedWords (words script element) {count} * words script (.ref rule) := by
  rw [words_sequence, List.map_append, List.prod_append, List.map_replicate, List.prod_replicate, pow_eq_counted]
  simp

/-- The body of a rule that `fillRest` fills, of which `later` come after it. -/
def restBody (element : Expr Leaf) (rule : Nat) : Nat → Expr Leaf
  | 0 => .choice [.empty, element]
  | _ + 1 => .choice [.empty, .sequence [element, .ref (rule + 1)]]

theorem one_more (most : Nat) : {times | times = 0 ∨ ∃ less ∈ {times | times ≤ most}, times = less + 1} = {times | times ≤ most + 1} := by
  ext times
  constructor
  · rintro (rfl | ⟨less, within, rfl⟩)
    · exact Nat.zero_le _
    · exact Nat.add_le_add_right within 1
  · intro within
    cases times with
    | zero => exact .inl rfl
    | succ less => exact .inr ⟨less, Nat.le_of_add_le_add_right within, rfl⟩

theorem words_rest (bodies : ∀ index ≤ count, script[start + index]? = some (restBody element (start + index) (count - index))) :
    words script (.ref start) = countedWords (words script element) {times | times ≤ count + 1} := by
  have body : script[start]? = some (restBody element start count) := bodies 0 (Nat.zero_le _)
  rw [words_ref body]
  induction count generalizing start with
  | zero =>
    have none : ({0} : Set Nat) = {times | times ≤ 0} := by
      ext times
      exact Nat.le_zero.symm
    have once : words script (restBody element start 0) = 1 + words script element * countedWords (words script element) {0} := by
      rw [counted_zero, mul_one]
      exact words_alt.trans (congrArg (· + _) words_empty)
    rw [once, one_add_mul_counted, none, one_more]
  | succ count ih =>
    have next : script[start + 1]? = some (restBody element (start + 1) count) := bodies 1 (by omega)
    have later := @ih (start + 1) (fun index inside => by
      have next := bodies (index + 1) (by omega)
      have place : start + (index + 1) = start + 1 + index := by omega
      have left : count + 1 - (index + 1) = count - index := by omega
      rwa [place, left] at next) next
    have more : words script (restBody element start (count + 1)) =
        1 + words script element * countedWords (words script element) {times | times ≤ count + 1} := by
      rw [← later, ← words_ref next, ← @words_empty _ script, ← words_seq, ← words_alt]
      rfl
    rw [more, one_add_mul_counted, one_more]

theorem addEmptyRules_fresh (span : Nat) : ∃ after, addEmptyRules hint span builder = .ok (List.range' builder.length span, after) ∧
    builder <+: after ∧ after.length = builder.length + span := by
  induction span generalizing builder with
  | zero => exact ⟨builder, rfl, List.prefix_rfl, rfl⟩
  | succ span ih =>
    obtain ⟨after, added, grown, size⟩ := @ih (builder ++ [⟨builder.getNewRuleName hint, none, none⟩])
    refine ⟨after, ?_, (List.prefix_append _ _).trans grown, ?_⟩
    · rw [addEmptyRules, Builder.addEmptyRule_fresh]
      change (addEmptyRules hint span _ >>= _) = _
      rw [added, List.length_append]
      rfl
    · rw [size, List.length_append, List.length_singleton]
      omega

theorem updateRuleBody_present (present : rule < builder.length) : builder.updateRuleBody rule body =
    .ok (builder.modify rule fun old => { old with body := some body }) :=
  if_pos present

theorem fillRest_fills (inside : start + count < builder.length) : ∃ after,
    fillRest element (List.range' start (count + 1)) builder = .ok after ∧ after.length = builder.length ∧
      (∀ rule < start, after[rule]? = builder[rule]?) ∧
      ∀ index ≤ count, ∃ filled, after[start + index]? = some filled ∧
        filled.body = some (restBody element (start + index) (count - index)) := by
  induction count generalizing start builder with
  | zero =>
    refine ⟨_, updateRuleBody_present inside, List.length_modify _ _ _, fun rule before => ?_, fun index none => ?_⟩
    · exact List.getElem?_modify_ne _ _ (by omega)
    · obtain rfl := Nat.le_zero.mp none
      rw [Nat.add_zero, List.getElem?_modify_eq, List.getElem?_eq_getElem (by omega)]
      exact ⟨_, rfl, rfl⟩
  | succ count ih =>
    obtain ⟨after, filled, size, before, bodies⟩ := @ih (builder.modify start fun old =>
      { old with body := some (.choice [.empty, .sequence [element, .ref (start + 1)]]) }) (start + 1) (by
        rw [List.length_modify]
        omega)
    rw [List.length_modify] at size
    refine ⟨after, ?_, size, fun rule earlier => ?_, fun index within => ?_⟩
    · rw [List.range'_succ, List.range'_succ, fillRest, updateRuleBody_present (by omega), ← List.range'_succ]
      exact filled
    · rw [before rule (by omega), List.getElem?_modify_ne _ _ (by omega)]
    · cases index with
      | zero =>
        rw [Nat.add_zero, before start (by omega), List.getElem?_modify_eq, List.getElem?_eq_getElem (by omega)]
        exact ⟨_, rfl, rfl⟩
      | succ index =>
        have place : start + (index + 1) = start + 1 + index := by omega
        have left : count + 1 - (index + 1) = count - index := by omega
        rw [place, left]
        exact bodies index (by omega)

theorem recursive_rule (element : Expr Leaf) (name : String) : ∃ after,
    Builder.updateRuleBody (before ++ [⟨name, none, none⟩]) before.length
      (.choice [.empty, .sequence [element, .ref before.length]]) = .ok after ∧ Grown before after ∧
      ∀ script, Kept before after script → words script (.ref before.length) = countedWords (words script element) Set.univ := by
  have size : (before ++ [(⟨name, none, none⟩ : Rule Leaf)]).length = before.length + 1 := List.length_append
  have found : ∃ filled, (List.modify (before ++ [(⟨name, none, none⟩ : Rule Leaf)]) before.length fun old =>
      { old with body := some (.choice [.empty, .sequence [element, .ref before.length]]) })[before.length]? = some filled ∧
      filled.body = some (.choice [.empty, .sequence [element, .ref before.length]]) := by
    rw [List.getElem?_modify_eq, List.getElem?_concat_length]
    exact ⟨_, rfl, rfl⟩
  obtain ⟨filled, present, isFilled⟩ := found
  refine ⟨_, updateRuleBody_present (by omega), ⟨prefix_modify (List.prefix_append _ _) (Nat.le_refl _), fun rule added new found => ?_⟩,
    fun script kept => words_recursive (kept _ filled _ (Nat.le_refl _) present isFilled)⟩
  obtain ⟨inside, -⟩ := List.getElem?_eq_some_iff.mp found
  rw [List.length_modify, size] at inside
  obtain rfl : rule = before.length := by omega
  cases found.symm.trans present
  exact ⟨_, isFilled⟩

theorem copies_unbounded {lower : Int} (nonneg : 0 ≤ lower) :
    sums {lower.toNat} Set.univ = between lower (-1) := by
  ext count
  constructor
  · rintro ⟨_, rfl, times, -, rfl⟩
    exact ⟨by omega, fun bounded => absurd rfl bounded⟩
  · rintro ⟨enough, -⟩
    exact ⟨_, rfl, count - lower.toNat, trivial, by omega⟩

theorem copies_bounded {lower upper : Int} (nonneg : 0 ≤ lower) (ordered : lower ≤ upper) :
    sums {lower.toNat} {times | times ≤ (upper - lower).toNat} = between lower upper := by
  ext count
  constructor
  · rintro ⟨_, rfl, times, few, rfl⟩
    have few : times ≤ (upper - lower).toNat := few
    exact ⟨by omega, fun _ => by omega⟩
  · rintro ⟨enough, within⟩
    have within := within (by omega)
    have few : count - lower.toNat ≤ (upper - lower).toNat := by omega
    exact ⟨_, rfl, count - lower.toNat, few, by omega⟩

theorem legacyHandleRepetitionRange_derives {lower upper : Int} (nonneg : 0 ≤ lower) (ordered : upper = -1 ∨ lower ≤ upper) :
    Derives element before (legacyHandleRepetitionRange curRuleName element lower upper before) (between lower upper) := by
  have copies : max lower 0 = lower := max_eq_left nonneg
  unfold legacyHandleRepetitionRange
  rw [copies]
  by_cases equal : upper = lower
  · refine ⟨_, before, if_pos equal, .refl before, fun script _ => words_copies.trans ?_⟩
    congr 1
    ext count
    simp only [between, Set.mem_singleton_iff, Set.mem_ofPred_eq]
    omega
  · by_cases unbounded : upper = -1
    · obtain ⟨after, updated, grown, means⟩ := @recursive_rule _ before element (before.getNewRuleName curRuleName)
      refine ⟨.sequence (List.replicate lower.toNat element ++ [.ref before.length]), after, ?_, grown, fun script kept => ?_⟩
      · rw [if_neg equal, if_pos unbounded, Builder.addEmptyRule_fresh]
        change (Builder.updateRuleBody _ _ _ >>= _) = _
        rw [updated]
        rfl
      · rw [words_copies_ref, means script kept, counted_mul, copies_unbounded nonneg, unbounded]
    · have less : lower ≤ upper := ordered.resolve_left unbounded
      obtain ⟨middle, added, grown, size⟩ := @addEmptyRules_fresh _ curRuleName before (upper - lower).toNat
      obtain ⟨count, span⟩ : ∃ count, (upper - lower).toNat = count + 1 := ⟨(upper - lower).toNat - 1, by omega⟩
      obtain ⟨after, filled, sameSize, old, bodies⟩ :=
        @fillRest_fills _ element middle before.length count (by omega)
      have kept : before <+: after := by
        rw [List.prefix_iff_getElem?] at grown ⊢
        exact fun index inside => (old index inside).trans (grown index inside)
      have complete : ∀ rule added, before.length ≤ rule → after[rule]? = some added → ∃ body, added.body = some body := by
        intro rule added new found
        obtain ⟨inside, -⟩ := List.getElem?_eq_some_iff.mp found
        obtain ⟨index, rfl⟩ := Nat.exists_eq_add_of_le new
        obtain ⟨other, present, isFilled⟩ := bodies index (by omega)
        cases found.symm.trans present
        exact ⟨_, isFilled⟩
      refine ⟨.sequence (List.replicate lower.toNat element ++ [.ref before.length]), after, ?_, ⟨kept, complete⟩, fun script kept => ?_⟩
      · rw [if_neg equal, if_neg unbounded, added]
        change (fillRest element _ middle >>= _) = _
        rw [span, filled]
        rfl
      · have rest := @words_rest _ element script before.length count fun index within => by
          obtain ⟨rule, found, isFilled⟩ := bodies index within
          exact kept _ rule _ (Nat.le_add_right _ _) found isFilled
        rw [words_copies_ref, rest, counted_mul, ← span, copies_bounded nonneg less]

/-! ### The three kinds of repetition -/

theorem buildInfiniteRepetition_derives :
    Derives element before (buildInfiniteRepetition curRuleName element before) Set.univ := by
  unfold buildInfiniteRepetition
  split
  · refine ⟨_, before, rfl, .refl before, fun script _ => ?_⟩
    rw [Builder.characterClassStar, words_repeated, repetitions_eq_counted]
    congr 1
    ext count
    simp
  · obtain ⟨after, updated, grown, means⟩ :=
      @recursive_rule _ before element (before.getNewRuleName s!"{curRuleName}_repeat_inf")
    refine ⟨.ref before.length, after, ?_, grown, means⟩
    rw [Builder.addEmptyRule_fresh]
    change (Builder.updateRuleBody _ _ _ >>= _) = _
    rw [updated]
    rfl

theorem buildLargeRepeat_derives (lower upper : Int) :
    Derives element before (buildLargeRepeat curRuleName element lower upper before) (castCounts lower upper) := by
  -- the rule of the element, which gets an assertion only, and behind it the rule of the `Repeat`
  unfold buildLargeRepeat
  extract_lets repeatName
  obtain ⟨inner, innerBody, innerAdded⟩ :=
    @Builder.addRuleWithHint_fresh _ before repeatName (.choice [.sequence [element]])
  rw [innerAdded]
  change Derives element before (Builder.addRuleWithHint _ _ _ >>= _) _
  obtain ⟨outer, outerBody, outerAdded⟩ := @Builder.addRuleWithHint_fresh _ (before ++ [inner]) s!"{repeatName}_inner"
    (.choice [.sequence [Builder.addRepeat before.length (asI32 (lower - unzipThreshold)) (asI32 (upper - unzipThreshold))]])
  rw [outerAdded]
  have place : (before ++ [inner]).length = before.length + 1 := List.length_append
  have size : (before ++ [inner] ++ [outer]).length = before.length + 2 := by rw [List.length_append, place]; rfl
  have present : before.length < (before ++ [inner] ++ [outer]).length := by omega
  change Derives element before (Builder.updateLookaheadAssertion _ _ _ >>= _) _
  rw [Builder.updateLookaheadAssertion, if_pos present]
  have innerPresent : ∃ asserted : Rule Leaf, (List.modify (before ++ [inner] ++ [outer]) before.length fun old =>
      { old with lookaheadAssertion := some (.sequence (List.replicate unzipThreshold element)) })[before.length]? =
        some asserted ∧ asserted.body = some (.choice [.sequence [element]]) := by
    rw [List.getElem?_modify_eq, List.getElem?_append_left (by omega), List.getElem?_concat_length]
    exact ⟨_, rfl, innerBody⟩
  have outerPresent : (List.modify (before ++ [inner] ++ [outer]) before.length fun old =>
      { old with lookaheadAssertion := some (.sequence (List.replicate unzipThreshold element)) })[(before ++ [inner]).length]? =
        some outer := by
    rw [List.getElem?_modify_ne _ _ (by omega), List.getElem?_concat_length]
  obtain ⟨asserted, innerPresent, isAsserted⟩ := innerPresent
  refine ⟨_, _, rfl, ⟨prefix_modify ((List.prefix_append _ _).trans (List.prefix_append _ _)) (Nat.le_refl _), ?_⟩, fun script kept => ?_⟩
  · intro rule added new found
    obtain ⟨inside, -⟩ := List.getElem?_eq_some_iff.mp found
    rw [List.length_modify, size] at inside
    obtain rfl | rfl : rule = before.length ∨ rule = (before ++ [inner]).length := by omega
    · cases found.symm.trans innerPresent
      exact ⟨_, isAsserted⟩
    · cases found.symm.trans outerPresent
      exact ⟨_, outerBody⟩
  · rw [words_ref (kept _ outer _ (by omega) outerPresent outerBody)]
    change words script (.repeated (.ref before.length) _ _) = _
    rw [words_repeated, words_ref (kept _ asserted _ (Nat.le_refl _) innerPresent isAsserted), repetitions_eq_counted]
    congr 1
    ext count
    simp [castCounts]

theorem repeatedSequence_derives (lower upper : Int) :
    Derives element before (repeatedSequence curRuleName element lower upper before) (manyCounts lower upper) := by
  unfold repeatedSequence manyCounts
  by_cases unbounded : upper = -1
  · simp only [if_pos unbounded]
    obtain ⟨infinite, middle, infiniteWritten, infiniteGrown, infiniteMeans⟩ :=
      @buildInfiniteRepetition_derives _ curRuleName element before
    rw [infiniteWritten]
    change Derives element before (if _ then _ else _) _
    by_cases least : lower = unzipThreshold
    · rw [if_pos least, if_pos least]
      refine ⟨_, middle, rfl, infiniteGrown, fun script kept => ?_⟩
      rw [words_sequence, List.map_cons, List.prod_cons, ← words_sequence, words_copies, infiniteMeans script kept, counted_mul]
    · rw [if_neg least, if_neg least]
      obtain ⟨repeated, after, repeatedWritten, repeatedGrown, repeatedMeans⟩ :=
        @buildLargeRepeat_derives _ curRuleName element middle lower lower
      rw [repeatedWritten]
      refine ⟨_, after, rfl, infiniteGrown.trans repeatedGrown, fun script kept => ?_⟩
      rw [words_sequence, List.map_cons, List.prod_cons, List.map_cons, List.prod_cons, ← words_sequence, words_copies,
        infiniteMeans script (kept.first repeatedGrown), repeatedMeans script (kept.second infiniteGrown), counted_mul, counted_mul]
  · simp only [if_neg unbounded]
    by_cases least : upper = unzipThreshold
    · rw [if_pos least, if_pos least]
      exact ⟨_, before, rfl, .refl before, fun script _ => words_copies⟩
    · rw [if_neg least, if_neg least]
      obtain ⟨repeated, after, repeatedWritten, repeatedGrown, repeatedMeans⟩ :=
        @buildLargeRepeat_derives _ curRuleName element before lower upper
      rw [repeatedWritten]
      refine ⟨_, after, rfl, repeatedGrown, fun script kept => ?_⟩
      rw [words_sequence, List.map_cons, List.prod_cons, ← words_sequence, words_copies, repeatedMeans script kept, counted_mul]

theorem handleRepetitionRange_derives {lower upper : Int} (nonneg : 0 ≤ lower) (ordered : upper = -1 ∨ lower ≤ upper) :
    Derives element before (handleRepetitionRange curRuleName element lower upper before) (derivedCounts lower upper) := by
  unfold handleRepetitionRange derivedCounts
  by_cases legacy : upper ≠ -1 ∧ upper ≤ unzipThreshold ∨ upper = -1 ∧ lower ≤ unzipThreshold
  · rw [if_pos legacy, if_pos legacy]
    exact legacyHandleRepetitionRange_derives nonneg ordered
  · rw [if_neg legacy, if_neg legacy]
    by_cases few : lower < unzipThreshold
    · rw [if_pos few, if_pos few]
      obtain ⟨first, middle, firstWritten, firstGrown, firstMeans⟩ :=
        @legacyHandleRepetitionRange_derives _ curRuleName element before lower (unzipThreshold - 1) nonneg (.inr (by omega))
      obtain ⟨second, after, secondWritten, secondGrown, secondMeans⟩ :=
        @repeatedSequence_derives _ curRuleName element middle unzipThreshold upper
      rw [firstWritten]
      change Derives element before (repeatedSequence _ _ _ _ _ >>= _) _
      rw [secondWritten]
      refine ⟨_, after, rfl, firstGrown.trans secondGrown, fun script kept => ?_⟩
      change words script (.alt first second) = _
      rw [words_alt, firstMeans script (kept.first secondGrown), secondMeans script (kept.second firstGrown), counted_add]
    · rw [if_neg few, if_neg few]
      obtain ⟨many, after, written, grown, means⟩ := @repeatedSequence_derives _ curRuleName element before lower upper
      rw [written]
      exact ⟨_, after, rfl, grown, means⟩

end derived

/-! ## The bounds that the casts keep -/

def Fits (lower upper : Int) : Prop := (if upper = -1 then lower else upper) - unzipThreshold < 2147483648

section counts

variable {lower upper : Int} {count : Nat}

theorem mem_manyCounts_unbounded (many : (unzipThreshold : Int) < lower) : count ∈ manyCounts lower (-1) ↔
    unzipThreshold + (asI32 (lower - unzipThreshold)).toNat ≤ count := by
  unfold manyCounts
  rw [if_pos rfl, if_neg (by omega)]
  constructor
  · rintro ⟨times, -, _, ⟨repeated, ⟨least, -⟩, _, rfl, rfl⟩, rfl⟩
    omega
  · intro enough
    refine ⟨count - (unzipThreshold + (asI32 (lower - unzipThreshold)).toNat), trivial, _,
      ⟨(asI32 (lower - unzipThreshold)).toNat, ⟨Nat.le_refl _, ?_⟩, _, rfl, rfl⟩, ?_⟩ <;> omega

theorem mem_manyCounts (many : (unzipThreshold : Int) < upper) : count ∈ manyCounts lower upper ↔
    unzipThreshold + (asI32 (lower - unzipThreshold)).toNat ≤ count ∧
      count ≤ unzipThreshold + (max 1 (asI32 (upper - unzipThreshold))).toNat := by
  unfold manyCounts
  rw [if_neg (by omega), if_neg (by omega)]
  constructor
  · rintro ⟨repeated, ⟨least, most⟩, _, rfl, rfl⟩
    omega
  · rintro ⟨least, most⟩
    exact ⟨count - unzipThreshold, ⟨by omega, by omega⟩, _, rfl, by omega⟩

theorem derivedCounts_unbounded (many : (unzipThreshold : Int) < lower) :
    derivedCounts lower (-1) = between lower (-1) ↔ Fits lower (-1) := by
  have below := asI32_lt (lower - unzipThreshold)
  have counts : derivedCounts lower (-1) = manyCounts lower (-1) := by
    rw [derivedCounts, if_neg (by omega), if_neg (by omega)]
  rw [counts, Fits, if_pos rfl]
  constructor
  · intro same
    have least := (mem_manyCounts_unbounded many).mpr (Nat.le_refl _)
    rw [same] at least
    have enough := least.1
    omega
  · intro fits
    ext count
    rw [mem_manyCounts_unbounded many, asI32_exact (by omega) fits]
    simp only [between, Set.mem_ofPred_eq]
    omega

theorem derivedCounts_bounded (ordered : lower ≤ upper) (nonneg : 0 ≤ lower) (many : (unzipThreshold : Int) < upper) :
    derivedCounts lower upper = between lower upper ↔ Fits lower upper := by
  have below := asI32_lt (upper - unzipThreshold)
  have unfolded : derivedCounts lower upper =
      if lower < unzipThreshold then between lower (unzipThreshold - 1) ∪ manyCounts unzipThreshold upper
      else manyCounts lower upper := if_neg (by omega)
  have proper : upper ≠ -1 := by omega
  rw [unfolded, Fits, if_neg proper]
  constructor
  · intro same
    -- the last count
    have last : upper.toNat ∈ between lower upper := ⟨by omega, fun _ => by omega⟩
    rw [← same] at last
    split at last
    · obtain few | later := last
      · have few := few.2 (by omega)
        omega
      · have most := ((mem_manyCounts many).mp later).2
        omega
    · have most := ((mem_manyCounts many).mp last).2
      omega
  · intro fits
    ext count
    have exactUpper := asI32_exact (by omega) fits
    split
    · rw [Set.mem_union, mem_manyCounts many, exactUpper, Int.sub_self]
      simp only [between, Set.mem_ofPred_eq]
      have zero : asI32 0 = 0 := rfl
      omega
    · rw [mem_manyCounts many, exactUpper, asI32_exact (by omega) (by omega)]
      simp only [between, Set.mem_ofPred_eq]
      omega

theorem derivedCounts_eq (nonneg : 0 ≤ lower) (ordered : upper = -1 ∨ lower ≤ upper) :
    derivedCounts lower upper = between lower upper ↔ Fits lower upper := by
  by_cases legacy : upper ≠ -1 ∧ upper ≤ unzipThreshold ∨ upper = -1 ∧ lower ≤ unzipThreshold
  · refine iff_of_true (if_pos legacy) ?_
    unfold Fits
    split <;> omega
  · by_cases unbounded : upper = -1
    · subst unbounded
      exact derivedCounts_unbounded (by omega)
    · exact derivedCounts_bounded (ordered.resolve_left unbounded) nonneg (by omega)

end counts

/-- The call adds complete rules, and what it writes derives the repetitions of the element within the bounds. -/
def Repeats (element : Expr Leaf) (lower upper : Int) (before : Builder Leaf)
    (written : Except BuilderError (Expr Leaf × Builder Leaf)) : Prop :=
  ∃ body after, written = .ok (body, after) ∧ Grown before after ∧ ∀ script, Kept before after script →
    words script body = repetitions (words script element) lower.toNat (if upper = -1 then none else some upper.toNat)

theorem repetitions_between {lower upper : Int} (nonneg : 0 ≤ lower) (ordered : upper = -1 ∨ lower ≤ upper)
    (language : Language (Terminal Leaf)) :
    repetitions language lower.toNat (if upper = -1 then none else some upper.toNat) = countedWords language (between lower upper) := by
  rw [repetitions_eq_counted]
  congr 1
  ext count
  by_cases unbounded : upper = -1
  · simp [between, unbounded]
  · have least : lower.toNat ≤ count ↔ lower ≤ count := Int.toNat_le
    have most : count ≤ upper.toNat ↔ (count : Int) ≤ upper := Int.le_toNat (by omega)
    simp [between, unbounded, most]

theorem repeats_all {lower upper : Int} (nonneg : 0 ≤ lower) (ordered : upper = -1 ∨ lower ≤ upper) :
    (∀ (curRuleName : String) (element : Expr Leaf) (before : Builder Leaf),
      Repeats element lower upper before (handleRepetitionRange curRuleName element lower upper before)) ↔ Fits lower upper := by
  rw [← derivedCounts_eq nonneg ordered]
  constructor
  · intro all
    -- of a single symbol the counts can be read off
    obtain ⟨body, after, written, -, means⟩ := all "" (.atom (.characterClass false [])) []
    obtain ⟨body, after, same, -, derives⟩ := @handleRepetitionRange_derives _ "" (.atom (.characterClass false [])) [] _ _ nonneg ordered
    cases written.symm.trans same
    obtain ⟨script, kept⟩ := exists_kept [] after
    have equal := (derives script kept).symm.trans (means script kept)
    rw [repetitions_between nonneg ordered, words_atom] at equal
    exact counted_singleton equal
  · intro exact curRuleName element before
    obtain ⟨body, after, written, grown, means⟩ := @handleRepetitionRange_derives _ curRuleName element before _ _ nonneg ordered
    refine ⟨body, after, written, grown, fun script kept => ?_⟩
    rw [means script kept, exact, repetitions_between nonneg ordered]

/-! ## The bounds that the parser reads -/

theorem parseRepetitionRange_ordered {tokens rest : List Token} {lower upper : Int}
    (parsed : parseRepetitionRange tokens = .ok ((lower, upper), rest)) : 0 ≤ lower ∧ (upper = -1 ∨ lower ≤ upper) := by
  unfold parseRepetitionRange at parsed
  obtain ⟨tokens, -, parsed⟩ := bind_eq_ok.mp parsed
  obtain ⟨⟨read, tokens⟩, -, parsed⟩ := bind_eq_ok.mp parsed
  dsimp only at parsed
  split at parsed
  · cases parsed
  · split at parsed
    · split at parsed
      · cases parsed
        exact ⟨by omega, .inl rfl⟩
      · obtain ⟨⟨last, tokens⟩, -, parsed⟩ := bind_eq_ok.mp parsed
        dsimp only at parsed
        split at parsed
        · cases parsed
        · obtain ⟨tokens, -, parsed⟩ := bind_eq_ok.mp parsed
          cases parsed
          exact ⟨by omega, .inr (by omega)⟩
    · split at parsed
      · cases parsed
        exact ⟨by omega, .inr (Int.le_refl _)⟩
      · cases parsed

/-- What is written for an element derives its repetitions within the bounds that were read just if the last bound less
`unzipThreshold` is a number of 32 bits. -/
theorem handleRepetitionRange_repeats {tokens rest : List Token} {lower upper : Int}
    (parsed : parseRepetitionRange tokens = .ok ((lower, upper), rest)) :
    (∀ (curRuleName : String) (element : Expr Leaf) (before : Builder Leaf),
      Repeats element lower upper before (handleRepetitionRange curRuleName element lower upper before)) ↔ Fits lower upper :=
  repeats_all (parseRepetitionRange_ordered parsed).1 (parseRepetitionRange_ordered parsed).2

theorem handleRepetitionRange_repeats_some : (∀ (curRuleName : String) (element : Expr Unit) (before : Builder Unit),
    Repeats element 2 200 before (handleRepetitionRange curRuleName element 2 200 before)) ↔ Fits 2 200 :=
  @handleRepetitionRange_repeats Unit [⟨.lBrace, "\x7b"⟩, ⟨.integerLiteral 2, "2"⟩, ⟨.comma, ","⟩, ⟨.integerLiteral 200, "200"⟩,
    ⟨.rBrace, "\x7d"⟩] [] 2 200 rfl

/-- For the bounds `2147483776` the `Repeat` has `-2147483648` as its bounds. -/
theorem handleRepetitionRange_wraps :
    parseRepetitionRange [⟨.lBrace, "\x7b"⟩, ⟨.integerLiteral 2147483776, "2147483776"⟩, ⟨.rBrace, "\x7d"⟩] =
      .ok ((2147483776, 2147483776), []) ∧
    ¬∀ (curRuleName : String) (element : Expr Unit) (before : Builder Unit), Repeats element 2147483776 2147483776 before
      (handleRepetitionRange curRuleName element 2147483776 2147483776 before) := by
  refine ⟨rfl, fun all => ?_⟩
  have fits := (repeats_all (by decide) (.inr (Int.le_refl _))).mp all
  simp [Fits, unzipThreshold] at fits

end Metrale.Grammar.Ebnf
