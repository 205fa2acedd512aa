import Metrale.Cache.RadixTree.Counted

/-! # What a sequence asks of the prefix cache (`model-engine/src/model/trait_impl`)

A sequence looks its prompt up when its first chunk is prefilled (`prefix_lookup.rs`), may store
checkpoints while it prefills (`save_checkpoint.rs`), stores its prompt after the last chunk
(`finalize_last.rs`), stores prompt and generated tokens when it finishes, and releases by its tokens
when it is freed (`sequence.rs`).  The pool references of its block table are
`Metrale.Engine.BlockMgmt`'s. -/

namespace Metrale.Engine

open Metrale.Foundation Metrale.Cache
open RadixTreeInner (InsertArgs InsertAcquired)

/-- What these steps read of `TransformerModel`. -/
structure TransformerModel where
  blockSize : Nat
  imagePad : Token
  videoPad : Token
  mlaPrefillNeedsFullRecompute : Bool
  multiRankProtocolActive : Bool
  highSpeedSwap : Bool

structure SequenceState where
  tokens : List Token
  blockTable : List BlockId
  diskBlockIds : List DiskId
  adapterId : AdapterId
  cachedPrefixTokens : Nat
  prefixRefTokens : List Token
  prefixLookupApplied : Bool
  promptLen : Nat
  kvValidTokens : Nat
  collectPromptLogprobs : Bool
  marconiExactSnap : Bool
  deriving DecidableEq

namespace SequenceState

def new (adapterId : AdapterId) : SequenceState where
  tokens := []
  blockTable := []
  diskBlockIds := []
  adapterId
  cachedPrefixTokens := 0
  prefixRefTokens := []
  prefixLookupApplied := false
  promptLen := 0
  kvValidTokens := 0
  collectPromptLogprobs := false
  marconiExactSnap := false

/-- Logical block index of `block_table[0]`. -/
def hssWindowStart (seq : SequenceState) : Nat := seq.diskBlockIds.length - seq.blockTable.length

/-- The tokens `free_sequence` releases: a prefill that failed early has fewer tokens than it
matched. -/
def releaseTokens (seq : SequenceState) : List Token :=
  if seq.cachedPrefixTokens ≤ seq.tokens.length then seq.tokens else seq.prefixRefTokens

end SequenceState

def emptyMatch : PrefixMatch where
  matchedBlocks := []
  matchedDiskBlockIds := []
  matchedTokens := 0

namespace TransformerModel

variable (model : TransformerModel)

def tokensHaveVisionPad (tokens : List Token) : Bool :=
  tokens.any fun token => token == model.imagePad || token == model.videoPad

def reusePrefixMatchDiskIds (matchedDiskBlockIds seqDiskBlockIds : List DiskId) : List DiskId :=
  if model.highSpeedSwap then seqDiskBlockIds ++ matchedDiskBlockIds.filter (· != u32Max)
  else seqDiskBlockIds

def forcedEmpty (tokens : List Token) (seq : SequenceState) : Bool :=
  model.tokensHaveVisionPad tokens || seq.collectPromptLogprobs || model.mlaPrefillNeedsFullRecompute

def localMatch (tree : RadixTreeInner) (tokens : List Token) (seq : SequenceState)
    (reservedMatch : Option PrefixMatch) : PrefixMatch × RadixTreeInner :=
  if model.forcedEmpty tokens seq then (emptyMatch, tree)
  else
    match reservedMatch with
    | some prefixMatch => (prefixMatch, tree)
    | none => RadixTree.lookup tree tokens model.blockSize seq.adapterId

/-- A rank that matched more than the others gives its match back and looks the agreed prefix up. -/
def agreedMatch (tree : RadixTreeInner) (tokens : List Token) (seq : SequenceState) (reserved : Bool)
    (otherRanks : Nat) (prefixMatch : PrefixMatch) : PrefixMatch × RadixTreeInner :=
  let agreed := min prefixMatch.matchedTokens otherRanks
  if model.multiRankProtocolActive && !reserved && agreed < prefixMatch.matchedTokens then
    let tree := RadixTree.release tree tokens model.blockSize seq.adapterId
    if agreed > 0 then RadixTree.lookup tree (tokens.take agreed) model.blockSize seq.adapterId
    else (emptyMatch, tree)
  else (prefixMatch, tree)

def applyMatch (tokens : List Token) (seq : SequenceState) (prefixMatch : PrefixMatch) :
    SequenceState :=
  { seq with
    cachedPrefixTokens := prefixMatch.matchedTokens
    prefixRefTokens :=
      if prefixMatch.matchedTokens > 0 then tokens.take prefixMatch.matchedTokens else []
    promptLen := tokens.length
    blockTable := seq.blockTable ++ prefixMatch.matchedBlocks
    diskBlockIds := model.reusePrefixMatchDiskIds prefixMatch.matchedDiskBlockIds seq.diskBlockIds
    prefixLookupApplied := true }

/-- `prefill_b_prefix_lookup` at chunk 0.  A retried prefill replays the first decision. -/
def prefixLookup (tree : RadixTreeInner) (tokens : List Token) (seq : SequenceState)
    (reservedMatch : Option PrefixMatch) (otherRanks : Nat) : SequenceState × RadixTreeInner :=
  if seq.prefixLookupApplied then (seq, tree)
  else
    let (prefixMatch, tree) := model.localMatch tree tokens seq reservedMatch
    let (prefixMatch, tree) :=
      model.agreedMatch tree tokens seq reservedMatch.isSome otherRanks prefixMatch
    (model.applyMatch tokens seq prefixMatch, tree)

/-- `release_batched_prefix_reservations`, for one reservation. -/
def releaseReservation (tree : RadixTreeInner) (tokens : List Token) (adapterId : AdapterId)
    (matchedTokens : Nat) : RadixTreeInner :=
  if matchedTokens > 0 then
    RadixTree.releaseMatched tree tokens model.blockSize matchedTokens adapterId
  else tree

/-- The insert of `finalize_last`: the whole prompt, or the complete blocks whose K/V is valid. -/
def finalizeLastArgs (tokens : List Token) (seq : SequenceState) : Option InsertArgs :=
  let fullBlocks := tokens.length / model.blockSize
  let cacheBlocks := min fullBlocks (seq.kvValidTokens / model.blockSize)
  let cacheTokens := tokens.take (cacheBlocks * model.blockSize)
  if seq.marconiExactSnap || cacheBlocks == 0 then none
  else if cacheBlocks < fullBlocks then
    if model.tokensHaveVisionPad cacheTokens || seq.hssWindowStart > 0 then none
    else some
      { tokens := cacheTokens
        blockTable := seq.blockTable.take cacheBlocks
        diskBlockIds := seq.diskBlockIds.take cacheBlocks
        blockSize := model.blockSize
        matchedTokens := min seq.cachedPrefixTokens (cacheBlocks * model.blockSize)
        adapterId := seq.adapterId }
  else if model.tokensHaveVisionPad tokens || seq.hssWindowStart > 0 then none
  else some
    { tokens
      blockTable := seq.blockTable
      diskBlockIds := seq.diskBlockIds
      blockSize := model.blockSize
      matchedTokens := seq.cachedPrefixTokens
      adapterId := seq.adapterId }

/-- The insert of `prefill_b_register_checkpoint`: no block of it is the sequence's. -/
def registerCheckpointArgs (tokens : List Token) (seq : SequenceState) (endToken : Nat) :
    Option InsertArgs :=
  let endBlock := endToken / model.blockSize
  let boundaryTokens := tokens.take endToken
  if seq.hssWindowStart > 0 || endBlock > seq.blockTable.length ||
      model.tokensHaveVisionPad boundaryTokens then none
  else some
    { tokens := boundaryTokens
      blockTable := seq.blockTable.take endBlock
      diskBlockIds := if endBlock ≤ seq.diskBlockIds.length then seq.diskBlockIds.take endBlock else []
      blockSize := model.blockSize
      matchedTokens := endToken
      adapterId := seq.adapterId }

/-- The insert of `cache_sequence_dispatch`. -/
def cacheSequenceArgs (seq : SequenceState) : Option InsertArgs :=
  if seq.tokens.length ≥ model.blockSize && !seq.blockTable.isEmpty &&
      !model.tokensHaveVisionPad seq.tokens && seq.hssWindowStart == 0 then
    some
      { tokens := seq.tokens
        blockTable := seq.blockTable
        diskBlockIds := seq.diskBlockIds
        blockSize := model.blockSize
        matchedTokens := seq.promptLen
        adapterId := seq.adapterId }
  else none

/-- The tree half of `free_sequence_dispatch`. -/
def freeSequence (tree : RadixTreeInner) (seq : SequenceState) : RadixTreeInner :=
  RadixTree.release tree seq.releaseTokens model.blockSize seq.adapterId

end TransformerModel

/-! ## What a match holds -/

structure Matches (tree : RadixTreeInner) (tokens : List Token) (blockSize : Nat)
    (adapterId : AdapterId) (matchedTokens : Nat) (after : RadixTreeInner) (depth : Nat) : Prop where
  le : depth ≤ tokens.length / blockSize
  referenced : ∀ i, i < depth →
    0 < RadixTree.refsAt tree.cached adapterId (trail tokens blockSize (i + 1))
  aligned : matchedTokens / blockSize = depth
  whole : matchedTokens % blockSize = 0 ∨ tokens.length / blockSize ≤ depth
  within : matchedTokens ≤ tokens.length
  wellFormed : after.WellFormed
  cached : after.cached = RadixTree.acquired tree.cached adapterId tokens blockSize depth

namespace Matches

theorem nothing {tree : RadixTreeInner} (wf : tree.WellFormed) (tokens : List Token) (blockSize : Nat)
    (adapterId : AdapterId) : Matches tree tokens blockSize adapterId 0 tree 0 where
  le := Nat.zero_le _
  referenced := fun i below => absurd below (Nat.not_lt_zero i)
  aligned := Nat.zero_div _
  whole := .inl (Nat.zero_mod _)
  within := Nat.zero_le _
  wellFormed := wf
  cached := (RadixTree.acquired_zero _ _ _ _).symm

theorem lookup {tree : RadixTreeInner} (wf : tree.WellFormed) (tokens : List Token) {blockSize : Nat}
    (positive : 0 < blockSize) (adapterId : AdapterId) :
    ∃ depth, Matches tree tokens blockSize adapterId
      (RadixTree.lookup tree tokens blockSize adapterId).1.matchedTokens
      (RadixTree.lookup tree tokens blockSize adapterId).2 depth := by
  obtain ⟨depth, answers, wfAfter, cached⟩ := RadixTree.lookup_spec wf tokens adapterId positive
  have whole : (RadixTree.lookup tree tokens blockSize adapterId).1.matchedTokens % blockSize = 0 ∨
      tokens.length / blockSize ≤ depth := by
    by_cases short : depth < tokens.length / blockSize
    · refine .inl ?_
      show (tree.walk tokens blockSize adapterId).matchedTokens % blockSize = 0
      rw [answers.stoppedShort short, Nat.mul_mod_left]
    · exact .inr (Nat.le_of_not_lt short)
  exact ⟨depth, answers.longest.le_bound,
    fun i below => RadixTree.refsAt_pos_iff.mpr (answers.longest.reached i below),
    answers.aligned, whole, answers.within, wfAfter, cached⟩

end Matches

/-- Of the first `blocks` blocks, an insert counts those that `matchedTokens` does not cover, unless
`matchedTokens` ends inside one of them. -/
theorem owned_iff {matchedTokens blockSize blocks i : Nat} (positive : 0 < blockSize)
    (whole : matchedTokens % blockSize = 0 ∨ blocks ≤ matchedTokens / blockSize) (below : i < blocks) :
    matchedTokens ≤ i * blockSize ↔ matchedTokens / blockSize ≤ i := by
  rcases whole with aligned | covered
  · have exact : matchedTokens / blockSize * blockSize = matchedTokens :=
      Nat.div_mul_cancel (Nat.dvd_of_mod_eq_zero aligned)
    have scaled : matchedTokens / blockSize * blockSize ≤ i * blockSize ↔ matchedTokens / blockSize ≤ i :=
      Nat.mul_le_mul_right_iff positive
    rwa [exact] at scaled
  · have inside : i < matchedTokens / blockSize := Nat.lt_of_lt_of_le below covered
    have beyond : i * blockSize < matchedTokens :=
      Nat.lt_of_lt_of_le (Nat.mul_lt_mul_of_pos_right inside positive) (Nat.div_mul_le_self _ _)
    omega

namespace TransformerModel

variable (model : TransformerModel)

theorem localMatch_matches {tree : RadixTreeInner} (wf : tree.WellFormed) (positive : 0 < model.blockSize)
    (tokens : List Token) (seq : SequenceState) :
    ∃ depth, Matches tree tokens model.blockSize seq.adapterId
      (model.localMatch tree tokens seq none).1.matchedTokens
      (model.localMatch tree tokens seq none).2 depth := by
  simp only [localMatch]
  split
  · exact ⟨0, Matches.nothing wf tokens model.blockSize seq.adapterId⟩
  · exact Matches.lookup wf tokens positive seq.adapterId

theorem agreedMatch_of_le (tree : RadixTreeInner) (tokens : List Token) (seq : SequenceState)
    (reserved : Bool) {otherRanks : Nat} {prefixMatch : PrefixMatch}
    (agreed : prefixMatch.matchedTokens ≤ otherRanks) :
    model.agreedMatch tree tokens seq reserved otherRanks prefixMatch = (prefixMatch, tree) := by
  simp only [agreedMatch]
  simp [Nat.min_eq_left agreed]

theorem prefixLookup_of_unapplied (tree : RadixTreeInner) (tokens : List Token) {seq : SequenceState}
    (unapplied : seq.prefixLookupApplied = false) (reservedMatch : Option PrefixMatch)
    (otherRanks : Nat) :
    model.prefixLookup tree tokens seq reservedMatch otherRanks =
      let looked := model.localMatch tree tokens seq reservedMatch
      let agreed := model.agreedMatch looked.2 tokens seq reservedMatch.isSome otherRanks looked.1
      (model.applyMatch tokens seq agreed.1, agreed.2) := by
  simp only [prefixLookup]
  rw [unapplied]
  rfl

theorem prefixLookup_reserved (tree : RadixTreeInner) (tokens : List Token) {seq : SequenceState}
    (unapplied : seq.prefixLookupApplied = false) (prefixMatch : PrefixMatch) (otherRanks : Nat) :
    model.prefixLookup tree tokens seq (some prefixMatch) otherRanks =
      (model.applyMatch tokens seq (if model.forcedEmpty tokens seq then emptyMatch else prefixMatch), tree) := by
  have looked : model.localMatch tree tokens seq (some prefixMatch) =
      (if model.forcedEmpty tokens seq then emptyMatch else prefixMatch, tree) := by
    simp only [localMatch]
    split <;> rfl
  rw [model.prefixLookup_of_unapplied tree tokens unapplied]
  simp [looked, agreedMatch]

structure Along (seq : SequenceState) (tokens : List Token) (args : InsertArgs) : Prop where
  blockSize : args.blockSize = model.blockSize
  adapterId : args.adapterId = seq.adapterId
  starts : args.tokens <+: tokens

theorem along_finalizeLast {tokens : List Token} {seq : SequenceState} {args : InsertArgs}
    (inserts : model.finalizeLastArgs tokens seq = some args) : model.Along seq tokens args := by
  simp only [finalizeLastArgs] at inserts
  split at inserts
  · cases inserts
  · split at inserts
    · split at inserts
      · cases inserts
      · cases inserts
        exact ⟨rfl, rfl, List.take_prefix _ _⟩
    · split at inserts
      · cases inserts
      · cases inserts
        exact ⟨rfl, rfl, List.prefix_rfl⟩

theorem along_cacheSequence {seq : SequenceState} {args : InsertArgs}
    (inserts : model.cacheSequenceArgs seq = some args) : model.Along seq seq.tokens args := by
  simp only [cacheSequenceArgs] at inserts
  split at inserts
  · cases inserts
    exact ⟨rfl, rfl, List.prefix_rfl⟩
  · cases inserts

theorem registerCheckpoint_unowned {tokens : List Token} {seq : SequenceState} {endToken : Nat}
    {args : InsertArgs} (inserts : model.registerCheckpointArgs tokens seq endToken = some args) :
    args.adapterId = seq.adapterId ∧
    ∀ i, i < args.numBlocks → i * args.blockSize < args.matchedTokens := by
  simp only [registerCheckpointArgs] at inserts
  split at inserts
  · cases inserts
  · cases inserts
    refine ⟨rfl, ?_⟩
    intro i below
    have full : i < (tokens.take endToken).length / model.blockSize :=
      Nat.lt_of_lt_of_le below (Nat.min_le_left _ _)
    have positive : 0 < model.blockSize := by
      by_contra zero
      rw [Nat.eq_zero_of_not_pos zero, Nat.div_zero] at full
      exact Nat.not_lt_zero i full
    have inside := (Nat.le_div_iff_mul_le positive).mp (Nat.succ_le_of_lt full)
    rw [Nat.succ_mul] at inside
    have short : (tokens.take endToken).length ≤ endToken := List.length_take_le _ _
    show i * model.blockSize < endToken
    omega

theorem prefixLookup_matches {tree : RadixTreeInner} (wf : tree.WellFormed)
    (positive : 0 < model.blockSize) (tokens : List Token) {seq : SequenceState}
    (unapplied : seq.prefixLookupApplied = false) {otherRanks : Nat}
    (agreed : (model.localMatch tree tokens seq none).1.matchedTokens ≤ otherRanks) :
    ∃ depth, Matches tree tokens model.blockSize seq.adapterId
      (model.prefixLookup tree tokens seq none otherRanks).1.cachedPrefixTokens
      (model.prefixLookup tree tokens seq none otherRanks).2 depth := by
  have looked : model.prefixLookup tree tokens seq none otherRanks =
      (model.applyMatch tokens seq (model.localMatch tree tokens seq none).1,
        (model.localMatch tree tokens seq none).2) := by
    rw [model.prefixLookup_of_unapplied tree tokens unapplied]
    simp only [model.agreedMatch_of_le _ tokens seq _ agreed]
  rw [looked]
  exact model.localMatch_matches wf positive tokens seq

end TransformerModel

end Metrale.Engine
