import Metrale.Engine.Sequence

/-! # Finding a finished turn again

One turn from its prompt lookup to its free, on whatever tree earlier calls left.  The insert at
finish passes `prompt_len` as `matched_tokens`, so it counts for the sequence only the chunks that
start at or after the prompt's end; the free releases every full chunk.  The chunk in which the prompt
ends is released uncounted unless the prompt ends at a block boundary. -/

namespace Metrale.Engine

open Metrale.Foundation Metrale.Cache
open RadixTreeInner (InsertArgs InsertAcquired)
open RadixTree (refsAt)

/-- A turn served from `before`, up to its insert at finish. -/
structure FinishedTurn (model : TransformerModel) (before : RadixTreeInner)
    (prompt generated : List Token) where
  fresh : SequenceState
  otherRanks : Nat
  prefilled : SequenceState
  finished : SequenceState
  promptArgs : InsertArgs
  finishArgs : InsertArgs
  promptAcquired : InsertAcquired
  finishAcquired : InsertAcquired
  afterPrompt : RadixTreeInner
  stored : RadixTreeInner
  unapplied : fresh.prefixLookupApplied = false
  /-- No other rank matched less. -/
  agreed : (model.localMatch before prompt fresh none).1.matchedTokens ≤ otherRanks
  prefilledMatch : prefilled.cachedPrefixTokens =
    (model.prefixLookup before prompt fresh none otherRanks).1.cachedPrefixTokens
  prefilledAdapter : prefilled.adapterId = fresh.adapterId
  promptInserted : model.finalizeLastArgs prompt prefilled = some promptArgs
  /-- The K/V of the whole prompt is valid, and has blocks. -/
  promptValid : prompt.length / model.blockSize ≤ prefilled.kvValidTokens / model.blockSize
  promptCovered : prompt.length / model.blockSize ≤ prefilled.blockTable.length
  promptStored : RadixTree.insert (model.prefixLookup before prompt fresh none otherRanks).2 promptArgs =
    some (promptAcquired, afterPrompt)
  finishedTokens : finished.tokens = prompt ++ generated
  finishedPrompt : finished.promptLen = prompt.length
  finishedMatch : finished.cachedPrefixTokens = prefilled.cachedPrefixTokens
  finishedAdapter : finished.adapterId = fresh.adapterId
  tableGrew : prefilled.blockTable.length ≤ finished.blockTable.length
  finishInserted : model.cacheSequenceArgs finished = some finishArgs
  finishStored : RadixTree.insert afterPrompt finishArgs = some (finishAcquired, stored)

namespace FinishedTurn

variable {model : TransformerModel} {before : RadixTreeInner} {prompt generated : List Token}
  (turn : FinishedTurn model before prompt generated)

def storedBlocks : Nat :=
  min ((prompt ++ generated).length / model.blockSize) turn.finished.blockTable.length

def freed : RadixTreeInner := model.freeSequence turn.stored turn.finished

/-- A later lookup of the turn's tokens matches every block that the insert at finish stored. -/
def Found : Prop :=
  let answer := (RadixTree.lookup turn.freed (prompt ++ generated) model.blockSize
    turn.fresh.adapterId).1
  turn.storedBlocks * model.blockSize ≤ answer.matchedTokens ∧
  ∀ i, i < turn.storedBlocks → ∃ value,
    turn.stored.cached turn.fresh.adapterId (trail (prompt ++ generated) model.blockSize (i + 1)) =
      some value ∧
    answer.matchedBlocks[i]? = some value.block

/-- The prompt ends at a block boundary, or no stored chunk has its end inside, or the tree the turn
started from already had that chunk, held by someone besides the cache. -/
def PromptEndCounted : Prop :=
  prompt.length % model.blockSize = 0 ∨ turn.storedBlocks ≤ prompt.length / model.blockSize ∨
  2 ≤ refsAt before.cached turn.fresh.adapterId
    (trail (prompt ++ generated) model.blockSize (prompt.length / model.blockSize + 1))

/-! ## The two inserts -/

theorem promptArgs_eq : turn.promptArgs =
    { tokens := prompt
      blockTable := turn.prefilled.blockTable
      diskBlockIds := turn.prefilled.diskBlockIds
      blockSize := model.blockSize
      matchedTokens := turn.prefilled.cachedPrefixTokens
      adapterId := turn.prefilled.adapterId } := by
  have inserted := turn.promptInserted
  simp only [TransformerModel.finalizeLastArgs] at inserted
  simp only [Nat.min_eq_left turn.promptValid, Nat.lt_irrefl, if_false] at inserted
  split at inserted
  · cases inserted
  · split at inserted
    · cases inserted
    · exact (Option.some.inj inserted).symm

theorem finishArgs_eq : turn.finishArgs =
    { tokens := prompt ++ generated
      blockTable := turn.finished.blockTable
      diskBlockIds := turn.finished.diskBlockIds
      blockSize := model.blockSize
      matchedTokens := prompt.length
      adapterId := turn.fresh.adapterId } := by
  have inserted := turn.finishInserted
  simp only [TransformerModel.cacheSequenceArgs] at inserted
  split at inserted
  · rw [← Option.some.inj inserted, turn.finishedTokens, turn.finishedPrompt, turn.finishedAdapter]
  · cases inserted

include turn in
-- An insert with blocks of no tokens divides by zero.
theorem positive : 0 < model.blockSize := by
  have stored := turn.promptStored
  simp only [RadixTree.insert, RadixTreeInner.insert] at stored
  split at stored
  · cases stored
  · next returns =>
    rw [turn.promptArgs_eq, InsertArgs.panics, Bool.or_eq_true, not_or] at returns
    exact Nat.pos_of_ne_zero fun zero => returns.1 (by rw [zero]; rfl)

theorem promptArgs_numBlocks : turn.promptArgs.numBlocks = prompt.length / model.blockSize := by
  rw [turn.promptArgs_eq]
  exact Nat.min_eq_left turn.promptCovered

theorem finishArgs_numBlocks : turn.finishArgs.numBlocks = turn.storedBlocks := by
  rw [turn.finishArgs_eq]
  rfl

/-! ## Counts along the turn -/

section

variable (wf : before.WellFormed)
include wf

/-- The prompt's insert leaves every full block of the prompt counted for the cache and the sequence,
and does not reach the blocks after it. -/
theorem afterPrompt_spec : turn.afterPrompt.WellFormed ∧
    (∀ i, i < prompt.length / model.blockSize → 2 ≤ refsAt turn.afterPrompt.cached turn.fresh.adapterId
      (trail prompt model.blockSize (i + 1))) ∧
    ∀ path, prompt.length / model.blockSize < path.length →
      refsAt turn.afterPrompt.cached turn.fresh.adapterId path =
        refsAt before.cached turn.fresh.adapterId path := by
  have positive := turn.positive
  obtain ⟨depth, found⟩ :=
    model.prefixLookup_matches wf positive prompt turn.unapplied turn.agreed
  obtain ⟨wfAfter, cached⟩ := RadixTree.insert_spec found.wellFormed turn.promptStored
  have args := turn.promptArgs_eq
  have adapter : turn.promptArgs.adapterId = turn.fresh.adapterId := by
    rw [args]
    exact turn.prefilledAdapter
  have onPath : ∀ path, OnPath turn.promptArgs.tokens turn.promptArgs.blockSize
      turn.promptArgs.numBlocks path ↔
      OnPath prompt model.blockSize (prompt.length / model.blockSize) path := by
    intro path
    rw [turn.promptArgs_numBlocks, args]
  refine ⟨wfAfter, ?_, ?_⟩
  · intro i below
    have stored : i < turn.promptArgs.numBlocks := by rwa [turn.promptArgs_numBlocks]
    have refs := RadixTree.refsAt_inserted_trail
      (model.prefixLookup before prompt turn.fresh none turn.otherRanks).2.cached stored
    have owned := owned_iff positive (found.whole.imp_right fun le => found.aligned.symm ▸ le) below
    rw [found.aligned, ← turn.prefilledMatch] at owned
    rw [← cached, adapter, args, found.cached] at refs
    rw [refs]
    -- A matched block has the lookup's count, an owned one the insert's.
    by_cases matched : i < depth
    · rw [RadixTree.refsAt_acquired _ (onPath_of_lt matched) (found.referenced i matched)]
      have referenced := found.referenced i matched
      omega
    · rw [if_pos (owned.mpr (Nat.le_of_not_lt matched))]
      omega
  · intro path long
    have outside : ∀ blocks, blocks ≤ prompt.length / model.blockSize →
        ¬ OnPath prompt model.blockSize blocks path := by
      rintro blocks le ⟨_, short, _⟩
      omega
    rw [cached, RadixTree.refsAt_inserted_of_not _ fun member =>
        outside _ (Nat.le_refl _) ((onPath path).mp member), found.cached,
      RadixTree.refsAt_acquired_of_not _ (outside _ found.le)]

theorem freed_spec : turn.stored.WellFormed ∧ turn.freed.WellFormed ∧
    turn.freed.cached = RadixTree.released turn.stored.cached turn.fresh.adapterId (prompt ++ generated)
      model.blockSize ((prompt ++ generated).length / model.blockSize) ∧
    ∀ i, i < turn.storedBlocks →
      refsAt turn.freed.cached turn.fresh.adapterId (trail (prompt ++ generated) model.blockSize (i + 1)) =
        max 1 (refsAt turn.afterPrompt.cached turn.fresh.adapterId
          (trail (prompt ++ generated) model.blockSize (i + 1))) +
        (if prompt.length ≤ i * model.blockSize then 1 else 0) - 1 := by
  obtain ⟨wfPrompt, _, _⟩ := afterPrompt_spec turn wf
  obtain ⟨wfStored, cached⟩ := RadixTree.insert_spec wfPrompt turn.finishStored
  have args := turn.finishArgs_eq
  have adapter : turn.finishArgs.adapterId = turn.fresh.adapterId := by rw [args]
  -- The sequence has all its tokens, so the free releases by these.
  have tokens : turn.finished.releaseTokens = prompt ++ generated := by
    obtain ⟨depth, found⟩ :=
      model.prefixLookup_matches wf turn.positive prompt turn.unapplied turn.agreed
    have within := found.within
    rw [SequenceState.releaseTokens, turn.finishedTokens, turn.finishedMatch, turn.prefilledMatch, if_pos]
    rw [List.length_append]
    omega
  obtain ⟨wfFreed, freed⟩ := @RadixTree.release_spec _ wfStored turn.finished.releaseTokens model.blockSize
    turn.finished.adapterId
  rw [tokens, turn.finishedAdapter] at wfFreed freed
  have same : turn.freed = RadixTree.release turn.stored (prompt ++ generated) model.blockSize
      turn.fresh.adapterId := by
    rw [FinishedTurn.freed, TransformerModel.freeSequence, tokens, turn.finishedAdapter]
  rw [same]
  refine ⟨wfStored, wfFreed, freed, ?_⟩
  intro i below
  have full : i < (prompt ++ generated).length / model.blockSize :=
    Nat.lt_of_lt_of_le below (Nat.min_le_left _ _)
  have covered : i < turn.finishArgs.numBlocks := by rwa [turn.finishArgs_numBlocks]
  have refs := RadixTree.refsAt_inserted_trail turn.afterPrompt.cached covered
  rw [← cached, adapter, args] at refs
  rw [freed, RadixTree.refsAt_released _ (onPath_of_lt full), refs]

theorem freed_pos_iff {i : Nat} (below : i < turn.storedBlocks) :
    0 < refsAt turn.freed.cached turn.fresh.adapterId
        (trail (prompt ++ generated) model.blockSize (i + 1)) ↔
      (i = prompt.length / model.blockSize → prompt.length % model.blockSize = 0 ∨
        2 ≤ refsAt before.cached turn.fresh.adapterId
          (trail (prompt ++ generated) model.blockSize (i + 1))) := by
  obtain ⟨_, counted, beyond⟩ := afterPrompt_spec turn wf
  obtain ⟨_, _, _, freed⟩ := freed_spec turn wf
  have positive := turn.positive
  have division := Nat.div_add_mod prompt.length model.blockSize
  have remainder := Nat.mod_lt prompt.length positive
  rw [freed i below]
  -- Blocks before the prompt's end are counted by the first insert, and those behind it by the second.
  rcases Nat.lt_trichotomy i (prompt.length / model.blockSize) with inside | ends | after
  · have starts : (i + 1) * model.blockSize ≤ prompt.length :=
      (Nat.le_div_iff_mul_le positive).mp inside
    have enough := counted i inside
    rw [trail_of_starts (List.prefix_append prompt generated) starts]
    constructor
    · intro _ ends
      omega
    · intro _
      omega
  · have unchanged := beyond (trail (prompt ++ generated) model.blockSize (i + 1)) (by
      rw [length_trail]
      omega)
    rw [unchanged]
    -- The block in which the prompt ends starts at the prompt's end only where that is a boundary.
    have boundary : prompt.length ≤ i * model.blockSize ↔ prompt.length % model.blockSize = 0 := by
      rw [ends, Nat.mul_comm]
      omega
    rw [if_congr boundary rfl rfl]
    constructor
    · intro referenced _
      by_cases aligned : prompt.length % model.blockSize = 0
      · exact .inl aligned
      · rw [if_neg aligned] at referenced
        exact .inr (by omega)
    · intro either
      rcases either ends with aligned | twice
      · rw [if_pos aligned]
        omega
      · omega
  · have later : prompt.length ≤ i * model.blockSize := by
      have whole := Nat.mul_le_mul_left model.blockSize (Nat.succ_le_of_lt after)
      rw [Nat.mul_succ] at whole
      rw [Nat.mul_comm i]
      omega
    rw [if_pos later]
    constructor
    · intro _ ends
      omega
    · intro _
      omega

end

/-- A finished turn is found again exactly when the block in which its prompt ends was counted. -/
theorem turn_found_iff {sharing : Bool} {calls : List RadixTree.Call}
    (reached : Run RadixTree.Step (RadixTreeInner.new sharing) calls before)
    (turn : FinishedTurn model before prompt generated) : turn.Found ↔ turn.PromptEndCounted := by
  have wf := RadixTree.run_wellFormed reached
  have positive := turn.positive
  obtain ⟨_, wfFreed, freed, _⟩ := freed_spec turn wf
  obtain ⟨depth, answers⟩ := RadixTreeInner.walk_longest wfFreed (prompt ++ generated) positive
    turn.fresh.adapterId
  constructor
  · rintro ⟨matched, _⟩
    by_cases short : turn.storedBlocks ≤ prompt.length / model.blockSize
    · exact .inr (.inl short)
    · have below : prompt.length / model.blockSize < turn.storedBlocks := Nat.lt_of_not_le short
      -- A match of all stored blocks goes through the block in which the prompt ends.
      have deep : turn.storedBlocks ≤ depth := by
        rw [← answers.aligned]
        exact (Nat.le_div_iff_mul_le positive).mpr matched
      have referenced := RadixTree.refsAt_pos_iff.mpr
        (answers.longest.reached _ (Nat.lt_of_lt_of_le below deep))
      exact ((freed_pos_iff turn wf below).mp referenced rfl).imp_right .inr
  · intro counted
    have referenced : ∀ i, i < turn.storedBlocks → turn.freed.cached.Usable (fun value => 0 < value.refs)
        turn.fresh.adapterId (trail (prompt ++ generated) model.blockSize (i + 1)) := by
      intro i below
      refine RadixTree.refsAt_pos_iff.mp ((freed_pos_iff turn wf below).mpr fun ends => ?_)
      subst ends
      rcases counted with aligned | short | twice
      · exact .inl aligned
      · exact absurd below (Nat.not_lt_of_le short)
      · exact .inr twice
    have deep : turn.storedBlocks ≤ depth :=
      answers.longest.le_of_reached (Nat.min_le_left _ _) referenced
    refine ⟨?_, ?_⟩
    · refine Nat.le_trans (Nat.mul_le_mul_right _ deep) ?_
      rw [← answers.aligned]
      exact Nat.div_mul_le_self _ _
    · intro i below
      obtain ⟨value, cached, _, answered⟩ := answers.block i (Nat.lt_of_lt_of_le below deep)
      have full : i < (prompt ++ generated).length / model.blockSize :=
        Nat.lt_of_lt_of_le below (Nat.min_le_left _ _)
      rw [freed, RadixTree.released, PathMap.alter_of_on _ (onPath_of_lt full)] at cached
      obtain ⟨old, kept, rfl⟩ := Option.map_eq_some_iff.mp cached
      exact ⟨old, kept, answered⟩

/-- A prompt of one block, with one block generated. -/
theorem turn_found_iff_aligned : ∃ turn : FinishedTurn ⟨2, 900, 901, false, false, false⟩
    (RadixTreeInner.new false) [1, 2] [3, 4], turn.PromptEndCounted ∧ turn.Found := by
  let turn : FinishedTurn ⟨2, 900, 901, false, false, false⟩ (RadixTreeInner.new false) [1, 2] [3, 4] :=
    { fresh := SequenceState.new 0
      otherRanks := 0
      prefilled := ⟨[1, 2], [10], [], 0, 0, [], true, 2, 2, false, false⟩
      finished := ⟨[1, 2, 3, 4], [10, 11], [], 0, 0, [], true, 2, 2, false, false⟩
      promptArgs := ⟨[1, 2], [10], [], 2, 0, 0⟩
      finishArgs := ⟨[1, 2, 3, 4], [10, 11], [], 2, 2, 0⟩
      promptAcquired := ⟨[], [10], []⟩
      finishAcquired := ⟨[], [11], []⟩
      afterPrompt := _
      stored := _
      unapplied := rfl
      agreed := by decide
      prefilledMatch := rfl
      prefilledAdapter := rfl
      promptInserted := rfl
      promptValid := by decide
      promptCovered := by decide
      promptStored := rfl
      finishedTokens := rfl
      finishedPrompt := rfl
      finishedMatch := rfl
      finishedAdapter := rfl
      tableGrew := by decide
      finishInserted := rfl
      finishStored := rfl }
  exact ⟨turn, .inl rfl, (turn_found_iff .start turn).mpr (.inl rfl)⟩

/-- A prompt that ends inside a block: the free drops the cache's own count on that block. -/
theorem unaligned_prompt_lost : ∃ turn : FinishedTurn ⟨2, 900, 901, false, false, false⟩
    (RadixTreeInner.new false) [1, 2, 3] [4, 5], turn.storedBlocks = 2 ∧
    (RadixTree.lookup turn.freed [1, 2, 3, 4, 5] 2 0).1.matchedTokens = 2 ∧ ¬ turn.Found := by
  have served : ∃ turn : FinishedTurn ⟨2, 900, 901, false, false, false⟩ (RadixTreeInner.new false)
      [1, 2, 3] [4, 5], turn.storedBlocks = 2 ∧ turn.fresh.adapterId = 0 ∧
      (RadixTree.lookup turn.freed [1, 2, 3, 4, 5] 2 0).1.matchedTokens = 2 := ⟨
    { fresh := SequenceState.new 0
      otherRanks := 0
      prefilled := ⟨[1, 2, 3], [10, 11], [], 0, 0, [], true, 3, 3, false, false⟩
      finished := ⟨[1, 2, 3, 4, 5], [10, 11, 12], [], 0, 0, [], true, 3, 3, false, false⟩
      promptArgs := ⟨[1, 2, 3], [10, 11], [], 2, 0, 0⟩
      finishArgs := ⟨[1, 2, 3, 4, 5], [10, 11, 12], [], 2, 3, 0⟩
      promptAcquired := ⟨[], [10, 11], []⟩
      finishAcquired := ⟨[], [11, 12], [11]⟩
      afterPrompt := _
      stored := _
      unapplied := rfl
      agreed := by decide
      prefilledMatch := rfl
      prefilledAdapter := rfl
      promptInserted := rfl
      promptValid := by decide
      promptCovered := by decide
      promptStored := rfl
      finishedTokens := rfl
      finishedPrompt := rfl
      finishedMatch := rfl
      finishedAdapter := rfl
      tableGrew := by decide
      finishInserted := rfl
      finishStored := rfl }, rfl, rfl, rfl⟩
  obtain ⟨turn, blocks, adapter, matched⟩ := served
  refine ⟨turn, blocks, matched, ?_⟩
  rintro ⟨all, _⟩
  rw [blocks, adapter] at all
  exact absurd (all.trans_eq matched) (by decide)

end FinishedTurn

end Metrale.Engine
