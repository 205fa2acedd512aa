import Mathlib.Data.Nat.Find
import Metrale.Grammar.Matcher.Fill

/-! # Subtree ranges of the sorted vocabulary (`tokenizer/info.rs`)

One pass with a stack gives each entry of the sorted vocabulary the end of its subtree.  An entry stays on the stack
while the next token contains it. -/

namespace Metrale.Grammar

def containsSubslice (haystack needle : List UInt8) : Bool :=
  if needle.isEmpty then true
  else if haystack.length < needle.length then false
  else (List.range (haystack.length - needle.length + 1)).any fun start =>
    (haystack.drop start).take needle.length == needle

abbrev SortedVocab := List (Nat × List UInt8)

/-- `sort_by` on the bytes.  Equal tokens keep their order. -/
def sortVocab (vocab : SortedVocab) : SortedVocab := vocab.mergeSort fun left right => decide (left.2 ≤ right.2)

def tokenAt (sorted : SortedVocab) (index : Nat) : List UInt8 := (sorted.getD index (0, [])).2

def unwindPrefixes (sorted : SortedVocab) (next : Nat) (token : List UInt8) :
    List Nat → List Nat → List Nat × List Nat
  | [], ranges => ([], ranges)
  | top :: stack, ranges =>
    if containsSubslice token (tokenAt sorted top) then (top :: stack, ranges)
    else unwindPrefixes sorted next token stack (ranges.set top next)

def trieStep (sorted : SortedVocab) (state : List Nat × List Nat) (entry : (Nat × List UInt8) × Nat) :
    List Nat × List Nat :=
  let unwound := unwindPrefixes sorted entry.2 entry.1.2 state.1 state.2
  (entry.2 :: unwound.1, unwound.2)

def buildTrieRanges (sorted : SortedVocab) : List Nat :=
  let scanned := sorted.zipIdx.foldl (trieStep sorted) ([], List.replicate sorted.length 0)
  scanned.1.foldl (fun ranges top => ranges.set top sorted.length) scanned.2

/-! ## The tokenizer -/

def detectionStopTokens : List (List UInt8) :=
  ["</s>", "<|end_of_text|>", "<|eot_id|>", "<|endoftext|>", "<eos>", "<|eos|>", "<end_of_turn>",
    "<｜end▁of▁sentence｜>"].map fun text => text.toUTF8.toList

/-- `TokenizerInfo::new`, with the decoding of a vocabulary entry as a parameter.  Ids beyond the vocabulary are
padding. -/
def TokenizerInfo.new (decode : String → List UInt8) (encodedVocab : List String) (vocabSize : Option Nat)
    (stopTokenIds : Option (List Int)) : TokenizerInfo :=
  let vocabSize := vocabSize.getD encodedVocab.length
  let decoded := encodedVocab.map decode
  let isStop := fun entry : List UInt8 × Nat =>
    match stopTokenIds with
    | some ids => ids.contains (entry.2 : Int)
    | none => detectionStopTokens.contains entry.1
  let others := decoded.zipIdx.filter fun entry => !isStop entry
  let sorted := sortVocab ((others.filter fun entry => !entry.1.isEmpty).map fun entry => (entry.2, entry.1))
  { vocabSize
    decodedVocab := (decoded ++ List.replicate (vocabSize - decoded.length) []).take vocabSize
    sortedDecodedVocab := sorted
    trieSubtreeNodesRange := buildTrieRanges sorted
    stopTokenIds := (decoded.zipIdx.filter isStop).map fun entry => (entry.2 : Int)
    specialTokenIds := (others.filter fun entry => entry.1.isEmpty).map (fun entry => (entry.2 : Int)) ++
      (List.range' encodedVocab.length (vocabSize - encodedVocab.length)).map Int.ofNat }

theorem TokenizerInfo.sorted_token {decode : String → List UInt8} {encodedVocab : List String} {vocabSize : Option Nat}
    {stopTokenIds : Option (List Int)} {entry : Nat × List UInt8}
    (listed : entry ∈ (TokenizerInfo.new decode encodedVocab vocabSize stopTokenIds).sortedDecodedVocab) :
    encodedVocab[entry.1]?.map decode = some entry.2 := by
  have unsorted := (List.mergeSort_perm _ _).mem_iff.mp listed
  obtain ⟨⟨token, id⟩, kept, rfl⟩ := List.mem_map.mp unsorted
  have decoded := List.mk_mem_zipIdx_iff_getElem?.mp (List.mem_of_mem_filter (List.mem_of_mem_filter kept))
  rw [List.getElem?_map] at decoded
  exact decoded

theorem containsSubslice_iff {haystack needle : List UInt8} :
    containsSubslice haystack needle = true ↔ needle <:+: haystack := by
  unfold containsSubslice
  split
  · next empty =>
    rw [List.isEmpty_iff.mp empty]
    exact ⟨fun _ => List.nil_infix, fun _ => rfl⟩
  · split
    · next long =>
      refine ⟨fun absurd => (by cases absurd), fun inside => ?_⟩
      have short := inside.length_le
      omega
    · next short =>
      rw [List.any_eq_true]
      constructor
      · rintro ⟨start, -, same⟩
        rw [← beq_iff_eq.mp same]
        exact (List.take_prefix _ _).isInfix.trans (List.drop_suffix _ _).isInfix
      · rintro ⟨before, after, rfl⟩
        refine ⟨before.length, ?_, ?_⟩
        · rw [List.mem_range]
          simp only [List.length_append]
          omega
        · simp

/-! ## Runs -/

section Runs

variable {related : List UInt8 → List UInt8 → Prop} {sorted : SortedVocab} {index stop other : Nat}

/-- The entries from `index` to `stop` are related to the token at `index`, and the one at `stop` is not. -/
structure RunEnd (related : List UInt8 → List UInt8 → Prop) (sorted : SortedVocab) (index stop : Nat) : Prop where
  start : index < stop
  within : stop ≤ sorted.length
  inside : ∀ j, index < j → j < stop → related (tokenAt sorted index) (tokenAt sorted j)
  ended : stop < sorted.length → ¬ related (tokenAt sorted index) (tokenAt sorted stop)

theorem RunEnd.unique (run : RunEnd related sorted index stop) (same : RunEnd related sorted index other) :
    stop = other := by
  obtain below | same | above := Nat.lt_trichotomy stop other
  · exact absurd (same.inside stop run.start below) (run.ended (Nat.lt_of_lt_of_le below same.within))
  · exact same
  · exact absurd (run.inside other same.start above) (same.ended (Nat.lt_of_lt_of_le above run.within))

theorem exists_runEnd (related : List UInt8 → List UInt8 → Prop) (inside : index < sorted.length) :
    ∃ stop, RunEnd related sorted index stop := by
  classical
  have stops : ∃ stop, index < stop ∧ (stop < sorted.length → ¬ related (tokenAt sorted index) (tokenAt sorted stop)) :=
    ⟨sorted.length, inside, fun absurd => (Nat.lt_irrefl _ absurd).elim⟩
  obtain ⟨after, ended⟩ := Nat.find_spec stops
  have within : Nat.find stops ≤ sorted.length :=
    Nat.find_min' stops ⟨inside, fun absurd => (Nat.lt_irrefl _ absurd).elim⟩
  refine ⟨Nat.find stops, after, within, fun j later below => ?_, ended⟩
  have goesOn := Nat.find_min stops below
  push Not at goesOn
  exact (goesOn later).2

theorem RunEnd.weaken {weaker : List UInt8 → List UInt8 → Prop} (run : RunEnd related sorted index stop)
    (implied : ∀ left right, related left right → weaker left right)
    (ended : stop < sorted.length → ¬ weaker (tokenAt sorted index) (tokenAt sorted stop)) :
    RunEnd weaker sorted index stop where
  start := run.start
  within := run.within
  inside := fun j later below => implied _ _ (run.inside j later below)
  ended := ended

end Runs

/-! ## The pass -/

/-- What the pass knows after `next` entries: a range is closed at the end of its run, or its entry is on the
stack. -/
structure TrieScanned (sorted : SortedVocab) (next : Nat) (stack ranges : List Nat) : Prop where
  total : ranges.length = sorted.length
  below : ∀ top ∈ stack, top < next
  descending : stack.Pairwise fun top deeper => deeper < top
  running : ∀ top ∈ stack, ∀ j, top < j → j < next → tokenAt sorted top <:+: tokenAt sorted j
  closed : ∀ index < next, index ∉ stack → ∃ stop, ranges[index]? = some stop ∧ RunEnd List.IsInfix sorted index stop

section Pass

variable {sorted : SortedVocab} {next : Nat} {top : Nat} {stack ranges : List Nat}

theorem TrieScanned.close (scanned : TrieScanned sorted next (top :: stack) ranges) (within : next ≤ sorted.length)
    (ended : next < sorted.length → ¬ tokenAt sorted top <:+: tokenAt sorted next) :
    TrieScanned sorted next stack (ranges.set top next) where
  total := by rw [List.length_set, scanned.total]
  below := fun deeper listed => scanned.below deeper (List.mem_cons_of_mem _ listed)
  descending := (List.pairwise_cons.mp scanned.descending).2
  running := fun deeper listed => scanned.running deeper (List.mem_cons_of_mem _ listed)
  closed := by
    intro index early absent
    have topBelow : top < next := scanned.below top List.mem_cons_self
    by_cases isTop : index = top
    · subst isTop
      refine ⟨next, ?_, early, within, scanned.running index List.mem_cons_self, ended⟩
      rw [List.getElem?_set_self (by rw [scanned.total]; omega)]
    · obtain ⟨stop, stored, run⟩ := scanned.closed index early fun listed => by
        obtain same | deeper := List.mem_cons.mp listed
        · exact isTop same
        · exact absent deeper
      exact ⟨stop, by rw [List.getElem?_set_ne (Ne.symm isTop), stored], run⟩

theorem TrieScanned.unwind (scanned : TrieScanned sorted next stack ranges) (within : next < sorted.length) :
    TrieScanned sorted next (unwindPrefixes sorted next (tokenAt sorted next) stack ranges).1
        (unwindPrefixes sorted next (tokenAt sorted next) stack ranges).2 ∧
      ∀ top ∈ (unwindPrefixes sorted next (tokenAt sorted next) stack ranges).1,
        tokenAt sorted top <:+: tokenAt sorted next := by
  induction stack generalizing ranges with
  | nil => exact ⟨scanned, fun _ listed => absurd listed List.not_mem_nil⟩
  | cons top stack ih =>
    rw [unwindPrefixes]
    split
    · next contained =>
      refine ⟨scanned, fun deeper listed => ?_⟩
      have topInside := containsSubslice_iff.mp contained
      obtain rfl | below := List.mem_cons.mp listed
      · exact topInside
      · have order := (List.pairwise_cons.mp scanned.descending).1 deeper below
        have topBelow := scanned.below top List.mem_cons_self
        exact (scanned.running deeper listed top order topBelow).trans topInside
    · next apart =>
      exact ih (scanned.close (Nat.le_of_lt within) fun _ inside => apart (containsSubslice_iff.mpr inside))

theorem TrieScanned.step (scanned : TrieScanned sorted next stack ranges) (within : next < sorted.length) :
    TrieScanned sorted (next + 1) (trieStep sorted (stack, ranges) (sorted[next], next)).1
      (trieStep sorted (stack, ranges) (sorted[next], next)).2 := by
  have token : sorted[next].2 = tokenAt sorted next := by
    rw [tokenAt, List.getD_eq_getElem?_getD, List.getElem?_eq_getElem within, Option.getD_some]
  rw [trieStep]
  dsimp only
  rw [token]
  obtain ⟨unwound, contained⟩ := scanned.unwind within
  refine ⟨unwound.total, fun top listed => ?_, ?_, fun top listed j later early => ?_, fun index early absent => ?_⟩
  · obtain rfl | older := List.mem_cons.mp listed
    · exact Nat.lt_succ_self _
    · exact Nat.lt_succ_of_lt (unwound.below top older)
  · exact List.pairwise_cons.mpr ⟨unwound.below, unwound.descending⟩
  · obtain rfl | older := List.mem_cons.mp listed
    · omega
    · obtain before | rfl := Nat.lt_succ_iff_lt_or_eq.mp early
      · exact unwound.running top older j later before
      · exact contained top older
  · rw [List.mem_cons, not_or] at absent
    exact unwound.closed index (Nat.lt_of_le_of_ne (Nat.lt_succ_iff.mp early) absent.1) absent.2

theorem trieScanned_foldl (sorted : SortedVocab) (count : Nat) (within : count ≤ sorted.length) :
    TrieScanned sorted count
      ((sorted.zipIdx.take count).foldl (trieStep sorted) ([], List.replicate sorted.length 0)).1
      ((sorted.zipIdx.take count).foldl (trieStep sorted) ([], List.replicate sorted.length 0)).2 := by
  induction count with
  | zero =>
    refine ⟨List.length_replicate, fun _ none => (by cases none), .nil, fun _ none => (by cases none), fun index early => ?_⟩
    omega
  | succ count ih =>
    have inside : count < sorted.zipIdx.length := by
      rw [List.length_zipIdx]
      omega
    rw [List.take_succ_eq_append_getElem inside, List.foldl_append, List.foldl_cons, List.foldl_nil, List.getElem_zipIdx,
      Nat.zero_add]
    exact (ih (by omega)).step (by omega)

theorem TrieScanned.finish (scanned : TrieScanned sorted sorted.length stack ranges) :
    TrieScanned sorted sorted.length [] (stack.foldl (fun ranges top => ranges.set top sorted.length) ranges) := by
  induction stack generalizing ranges with
  | nil => exact scanned
  | cons top stack ih =>
    exact ih (scanned.close (Nat.le_refl _) fun absurd => (Nat.lt_irrefl _ absurd).elim)

theorem buildTrieRanges_closed (sorted : SortedVocab) :
    TrieScanned sorted sorted.length [] (buildTrieRanges sorted) := by
  have scanned := trieScanned_foldl sorted sorted.length (Nat.le_refl _)
  have all : sorted.zipIdx.take sorted.length = sorted.zipIdx := by
    rw [List.take_of_length_le (Nat.le_of_eq List.length_zipIdx)]
  rw [all] at scanned
  exact scanned.finish

theorem buildTrieRanges_run {index stop : Nat} (stored : (buildTrieRanges sorted)[index]? = some stop) :
    RunEnd List.IsInfix sorted index stop := by
  have pass := buildTrieRanges_closed sorted
  have inside : index < sorted.length := by
    rw [← pass.total]
    exact (List.getElem?_eq_some_iff.mp stored).1
  obtain ⟨closed, found, run⟩ := pass.closed index inside List.not_mem_nil
  rw [stored] at found
  cases found
  exact run

end Pass

/-! ## Prefix ranges -/

/-- Each range is the maximal run of the entries that the entry is a prefix of, so that skipping it skips only those. -/
structure PrefixRanges (sorted : SortedVocab) (ranges : List Nat) : Prop where
  total : ranges.length = sorted.length
  run : ∀ index stop, ranges[index]? = some stop → RunEnd List.IsPrefix sorted index stop

def RunsApart (sorted : SortedVocab) : Prop :=
  ∀ index stop, index < sorted.length → RunEnd List.IsPrefix sorted index stop → stop < sorted.length →
    ¬ tokenAt sorted index <:+: tokenAt sorted stop

theorem prefixRanges_iff (sorted : SortedVocab) : PrefixRanges sorted (buildTrieRanges sorted) ↔ RunsApart sorted := by
  have total := (buildTrieRanges_closed sorted).total
  constructor
  · intro exactRanges index stop inside run within contained
    obtain ⟨stored, found⟩ : ∃ stored, (buildTrieRanges sorted)[index]? = some stored :=
      ⟨_, List.getElem?_eq_getElem (by rw [total]; exact inside)⟩
    rw [run.unique (exactRanges.run index stored found)] at within contained
    exact (buildTrieRanges_run found).ended within contained
  · intro apart
    refine ⟨total, fun index stop stored => ?_⟩
    have inside : index < sorted.length := by
      rw [← total]
      exact (List.getElem?_eq_some_iff.mp stored).1
    obtain ⟨last, run⟩ := exists_runEnd List.IsPrefix inside
    have contained := run.weaken (fun _ _ => List.IsPrefix.isInfix) (apart index last inside run)
    rw [(buildTrieRanges_run stored).unique contained]
    exact run

/-- The ranges of a vocabulary are its prefix ranges exactly when no token directly after the run of another contains
the other. -/
theorem trie_ranges_prefix (vocab : SortedVocab) :
    PrefixRanges (sortVocab vocab) (buildTrieRanges (sortVocab vocab)) ↔ RunsApart (sortVocab vocab) :=
  prefixRanges_iff _

/-- `a` and `ba`: the range of the first takes in the second. -/
theorem trie_ranges_overrun :
    ¬ ∀ vocab, PrefixRanges (sortVocab vocab) (buildTrieRanges (sortVocab vocab)) := by
  intro always
  have sorted : sortVocab [(0, [97]), (1, [98, 97])] = [(0, [97]), (1, [98, 97])] := by
    rw [sortVocab, List.mergeSort_of_pairwise (by decide)]
  have exactRanges := always [(0, [97]), (1, [98, 97])]
  rw [sorted] at exactRanges
  have run := exactRanges.run 0 2 (by decide)
  exact absurd (run.inside 1 (by decide) (by decide)) (by decide)

end Metrale.Grammar
