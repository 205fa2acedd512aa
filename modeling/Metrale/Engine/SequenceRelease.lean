import Metrale.Engine.Sequence

/-! # What sequences release

Any number of sequences in any interleaving: their matches reserved, given back or admitted, capped to
what other ranks matched, or forced empty; their prompts, checkpoints and finished turns stored; their
frees; and evictions.  A free releases by content, every full block of the sequence's tokens that has a
node, whoever counted it.  `held` records what each sequence counted itself; it is bookkeeping of the
model, and no step reads it. -/

namespace Metrale.Engine

open Metrale.Foundation Metrale.Cache
open RadixTreeInner (InsertArgs InsertAcquired)

structure Reservation where
  tokens : List Token
  adapterId : AdapterId
  prefixMatch : PrefixMatch

inductive Stage where
  | prefilling
  | decoding
  | cached

structure LiveSequence where
  seq : SequenceState
  prompt : List Token
  stage : Stage
  /-- Where the sequence's own steps took counts. -/
  held : HeldPath

namespace SequenceRelease

variable (model : TransformerModel)

structure State where
  tree : RadixTreeInner
  reserved : Multiset Reservation
  live : Multiset LiveSequence

inductive Event where
  | reserve (reservation : Reservation)
  | giveBack (reservation : Reservation)
  | enter (sequence : LiveSequence)
  | admitReserved (reservation : Reservation) (seq : SequenceState)
  | resume (sequence : LiveSequence)
  | grow (sequence : LiveSequence) (seq : SequenceState)
  | checkpoint (sequence : LiveSequence) (args : InsertArgs)
  | storePrompt (sequence : LiveSequence) (args : Option InsertArgs)
  | storeFinished (sequence : LiveSequence) (args : Option InsertArgs)
  | free (sequence : LiveSequence)
  | evict (numBlocks : Nat)

def reservationHeld (reservation : Reservation) : HeldPath where
  adapterId := reservation.adapterId
  tokens := reservation.tokens
  blockSize := model.blockSize
  blocks := reservation.prefixMatch.matchedTokens / model.blockSize

def admitted (prompt : List Token) (seq : SequenceState) : LiveSequence where
  seq
  prompt
  stage := .prefilling
  held := ⟨seq.adapterId, prompt, model.blockSize, seq.cachedPrefixTokens / model.blockSize⟩

/-- Prefill fills the tokens up with the prompt; decode adds to it, and may take back what it added. -/
def Grows (sequence : LiveSequence) (tokens : List Token) : Prop :=
  match sequence.stage with
  | .prefilling => tokens <+: sequence.prompt
  | .decoding => sequence.prompt <+: tokens
  | .cached => tokens = sequence.seq.tokens

structure SameMatch (seq grown : SequenceState) : Prop where
  adapterId : grown.adapterId = seq.adapterId
  cachedPrefixTokens : grown.cachedPrefixTokens = seq.cachedPrefixTokens
  prefixRefTokens : grown.prefixRefTokens = seq.prefixRefTokens
  promptLen : grown.promptLen = seq.promptLen

/-- The sequence after an insert along `tokens`. -/
def stored (sequence : LiveSequence) (stage : Stage) (tokens : List Token) :
    Option InsertArgs → LiveSequence
  | none => { sequence with stage }
  | some args => { sequence with
      stage
      held := ⟨sequence.held.adapterId, tokens, model.blockSize,
        max sequence.held.blocks args.numBlocks⟩ }

/-- The tree after an insert, if there is one. -/
inductive Inserted : RadixTreeInner → Option InsertArgs → RadixTreeInner → Prop where
  | skipped {tree : RadixTreeInner} : Inserted tree none tree
  | stored {tree after : RadixTreeInner} {args : InsertArgs} {acquired : InsertAcquired} :
      RadixTree.insert tree args = some (acquired, after) → Inserted tree (some args) after

def heldPaths (reserved : Multiset Reservation) (live : Multiset LiveSequence) : Multiset HeldPath :=
  reserved.map (reservationHeld model) + live.map LiveSequence.held

inductive Step : State → Event → State → Prop where
  | reserve {tree : RadixTreeInner} {reserved : Multiset Reservation} {live : Multiset LiveSequence}
      {reservation : Reservation} : 0 < model.blockSize →
      reservation.prefixMatch =
        (RadixTree.lookup tree reservation.tokens model.blockSize reservation.adapterId).1 →
      Step ⟨tree, reserved, live⟩ (.reserve reservation)
        ⟨(RadixTree.lookup tree reservation.tokens model.blockSize reservation.adapterId).2,
          reservation ::ₘ reserved, live⟩
  | giveBack {tree : RadixTreeInner} {reserved : Multiset Reservation} {live : Multiset LiveSequence}
      {reservation : Reservation} :
      Step ⟨tree, reservation ::ₘ reserved, live⟩ (.giveBack reservation)
        ⟨model.releaseReservation tree reservation.tokens reservation.adapterId
          reservation.prefixMatch.matchedTokens, reserved, live⟩
  | enter {tree : RadixTreeInner} {reserved : Multiset Reservation} {live : Multiset LiveSequence}
      {prompt : List Token} {seq : SequenceState} {otherRanks : Nat} : 0 < model.blockSize →
      seq.prefixLookupApplied = false → seq.tokens = [] →
      Step ⟨tree, reserved, live⟩
        (.enter (admitted model prompt (model.prefixLookup tree prompt seq none otherRanks).1))
        ⟨(model.prefixLookup tree prompt seq none otherRanks).2, reserved,
          admitted model prompt (model.prefixLookup tree prompt seq none otherRanks).1 ::ₘ live⟩
  | admitReserved {tree : RadixTreeInner} {reserved : Multiset Reservation}
      {live : Multiset LiveSequence} {reservation : Reservation} {seq : SequenceState}
      {otherRanks : Nat} : seq.prefixLookupApplied = false → seq.tokens = [] →
      seq.adapterId = reservation.adapterId →
      Step ⟨tree, reservation ::ₘ reserved, live⟩ (.admitReserved reservation seq)
        ⟨(model.prefixLookup tree reservation.tokens seq (some reservation.prefixMatch) otherRanks).2,
          reserved,
          admitted model reservation.tokens
            (model.prefixLookup tree reservation.tokens seq (some reservation.prefixMatch)
              otherRanks).1 ::ₘ live⟩
  | /-- A swapped-out sequence comes back without a lookup. -/
    resume {tree : RadixTreeInner} {reserved : Multiset Reservation} {live : Multiset LiveSequence}
      {seq : SequenceState} : 0 < model.blockSize → seq.cachedPrefixTokens = 0 →
      Step ⟨tree, reserved, live⟩
        (.resume ⟨seq, seq.tokens, .decoding, ⟨seq.adapterId, seq.tokens, model.blockSize, 0⟩⟩)
        ⟨tree, reserved,
          ⟨seq, seq.tokens, .decoding, ⟨seq.adapterId, seq.tokens, model.blockSize, 0⟩⟩ ::ₘ live⟩
  | grow {tree : RadixTreeInner} {reserved : Multiset Reservation} {live : Multiset LiveSequence}
      {sequence : LiveSequence} {grown : SequenceState} :
      SameMatch sequence.seq grown → Grows sequence grown.tokens →
      Step ⟨tree, reserved, sequence ::ₘ live⟩ (.grow sequence grown)
        ⟨tree, reserved, { sequence with seq := grown } ::ₘ live⟩
  | checkpoint {tree after : RadixTreeInner} {reserved : Multiset Reservation}
      {live : Multiset LiveSequence} {sequence : LiveSequence} {endToken : Nat} {args : InsertArgs}
      {acquired : InsertAcquired} : sequence.stage = .prefilling →
      model.registerCheckpointArgs sequence.prompt sequence.seq endToken = some args →
      RadixTree.insert tree args = some (acquired, after) →
      Step ⟨tree, reserved, sequence ::ₘ live⟩ (.checkpoint sequence args)
        ⟨after, reserved, sequence ::ₘ live⟩
  | storePrompt {tree after : RadixTreeInner} {reserved : Multiset Reservation}
      {live : Multiset LiveSequence} {sequence : LiveSequence} :
      sequence.stage = .prefilling → sequence.seq.tokens = sequence.prompt →
      Inserted tree (model.finalizeLastArgs sequence.prompt sequence.seq) after →
      Step ⟨tree, reserved, sequence ::ₘ live⟩
        (.storePrompt sequence (model.finalizeLastArgs sequence.prompt sequence.seq))
        ⟨after, reserved, stored model sequence .decoding sequence.prompt
          (model.finalizeLastArgs sequence.prompt sequence.seq) ::ₘ live⟩
  | storeFinished {tree after : RadixTreeInner} {reserved : Multiset Reservation}
      {live : Multiset LiveSequence} {sequence : LiveSequence} :
      sequence.stage = .decoding → Inserted tree (model.cacheSequenceArgs sequence.seq) after →
      Step ⟨tree, reserved, sequence ::ₘ live⟩
        (.storeFinished sequence (model.cacheSequenceArgs sequence.seq))
        ⟨after, reserved, stored model sequence .cached sequence.seq.tokens
          (model.cacheSequenceArgs sequence.seq) ::ₘ live⟩
  | free {tree : RadixTreeInner} {reserved : Multiset Reservation} {live : Multiset LiveSequence}
      {sequence : LiveSequence} :
      Step ⟨tree, reserved, sequence ::ₘ live⟩ (.free sequence)
        ⟨model.freeSequence tree sequence.seq, reserved, live⟩
  | evict {tree : RadixTreeInner} {reserved : Multiset Reservation} {live : Multiset LiveSequence}
      {numBlocks : Nat} :
      Step ⟨tree, reserved, live⟩ (.evict numBlocks)
        ⟨(RadixTree.evict tree numBlocks).2, reserved, live⟩

/-! ## The steps that release what they took -/

/-- The insert's `matched_tokens` parts the blocks that the sequence holds from those it does not. -/
def CountsRest (sequence : LiveSequence) (args : InsertArgs) : Prop :=
  ∀ i, i < args.numBlocks → (args.matchedTokens ≤ i * args.blockSize ↔ sequence.held.blocks ≤ i)

/-- The released tokens have no full block past those held, or the first such block has no node. -/
def ReleasesHeld (tree : RadixTreeInner) (sequence : LiveSequence) : Prop :=
  sequence.seq.releaseTokens.length / model.blockSize ≤ sequence.held.blocks ∨
  tree.cached sequence.seq.adapterId
    (trail sequence.seq.releaseTokens model.blockSize (sequence.held.blocks + 1)) = none

/-- The condition on a step.  Nothing is asked of the steps that reserve, give back, look up, grow,
store a checkpoint or evict. -/
def Keeps (state : State) : Event → Prop
  | .admitReserved reservation seq =>
      model.forcedEmpty reservation.tokens seq = false ∨ reservation.prefixMatch.matchedTokens = 0
  | .storePrompt sequence (some args) => CountsRest sequence args
  | .storeFinished sequence (some args) => CountsRest sequence args
  | .free sequence => ReleasesHeld model state.tree sequence
  | _ => True

/-! ## Matches -/

theorem heldPaths_cons_reserved (reservation : Reservation) (reserved : Multiset Reservation)
    (live : Multiset LiveSequence) :
    heldPaths model (reservation ::ₘ reserved) live =
      reservationHeld model reservation ::ₘ heldPaths model reserved live := by
  simp [heldPaths]

theorem heldPaths_cons_live (reserved : Multiset Reservation) (sequence : LiveSequence)
    (live : Multiset LiveSequence) :
    heldPaths model reserved (sequence ::ₘ live) = sequence.held ::ₘ heldPaths model reserved live := by
  simp [heldPaths]

variable {model} {tree : RadixTreeInner} {held : Multiset HeldPath}

theorem counted_capped {prompt : List Token} {adapterId : AdapterId} (positive : 0 < model.blockSize)
    (wf : tree.WellFormed) (counted : Counted tree.cached held) (agreed : Nat)
    (within : agreed ≤ prompt.length) :
    let looked := (RadixTree.lookup tree prompt model.blockSize adapterId).2
    let released := RadixTree.release looked prompt model.blockSize adapterId
    let again := RadixTree.lookup released (prompt.take agreed) model.blockSize adapterId
    (released.WellFormed ∧ Counted released.cached held) ∧
    again.2.WellFormed ∧ again.1.matchedTokens ≤ agreed ∧
    Counted again.2.cached
      (⟨adapterId, prompt, model.blockSize, again.1.matchedTokens / model.blockSize⟩ ::ₘ held) := by
  obtain ⟨wfLooked, countedLooked⟩ :=
    RadixTreeInner.counted_pinPrefix wf counted prompt positive adapterId
  -- The lookup matched as far as there are nodes, so the release drops no count of another holder.
  have ends := RadixTreeInner.lookup_ends wf counted prompt positive adapterId
  have inside := (countedLooked.fits _ (Multiset.mem_cons_self _ _)).2
  obtain ⟨wfReleased, _, countedReleased⟩ :=
    RadixTreeInner.counted_release wfLooked countedLooked (fun _ _ => rfl) inside ends
  obtain ⟨wfAgain, countedAgain⟩ :=
    RadixTreeInner.counted_pinPrefix wfReleased countedReleased (prompt.take agreed) positive adapterId
  obtain ⟨depth, found⟩ := Matches.lookup wfReleased (prompt.take agreed) positive adapterId
  have short := found.within
  rw [List.length_take, Nat.min_eq_left within] at short
  refine ⟨⟨wfReleased, countedReleased⟩, wfAgain, short, ?_⟩
  -- The prompt and its first tokens have the same trails that far.
  refine countedAgain.replace ?_ ?_
  · intro i le
    have covered : i * model.blockSize ≤ agreed :=
      Nat.le_trans ((Nat.le_div_iff_mul_le positive).mp le) short
    exact (trail_take covered).symm
  · exact Nat.le_trans (Nat.div_le_div_right short) (Nat.div_le_div_right within)

theorem counted_agreedMatch {prompt : List Token} {seq : SequenceState} (positive : 0 < model.blockSize)
    (wf : tree.WellFormed) (counted : Counted tree.cached held) (otherRanks : Nat) :
    let looked := model.localMatch tree prompt seq none
    let agreed := model.agreedMatch looked.2 prompt seq false otherRanks looked.1
    agreed.2.WellFormed ∧ agreed.1.matchedTokens ≤ prompt.length ∧
    Counted agreed.2.cached
      (⟨seq.adapterId, prompt, model.blockSize, agreed.1.matchedTokens / model.blockSize⟩ ::ₘ held) := by
  intro looked agreed
  by_cases forced : model.forcedEmpty prompt seq = true
  · have nothing : looked = (emptyMatch, tree) := by simp only [looked, TransformerModel.localMatch, forced, if_true]
    have same : agreed = (emptyMatch, tree) := by
      simp only [agreed, nothing]
      exact model.agreedMatch_of_le tree prompt seq false (Nat.zero_le _)
    rw [same]
    refine ⟨wf, Nat.zero_le _, ?_⟩
    have idle := counted.idle seq.adapterId prompt positive
    rwa [← Nat.zero_div model.blockSize] at idle
  · have found : looked = RadixTree.lookup tree prompt model.blockSize seq.adapterId := by
      simp only [looked, TransformerModel.localMatch, forced, if_false, Bool.false_eq_true]
    obtain ⟨depth, prefixMatched⟩ := Matches.lookup wf prompt positive seq.adapterId
    have within : looked.1.matchedTokens ≤ prompt.length := by
      rw [found]
      exact prefixMatched.within
    simp only [agreed, TransformerModel.agreedMatch]
    -- Ranks agreed on less: what this one matched goes back, and the shorter prompt is looked up.
    split
    · next capped =>
      have least : min looked.1.matchedTokens otherRanks ≤ prompt.length :=
        Nat.le_trans (Nat.min_le_left _ _) within
      have shorter := @counted_capped _ _ _ _ seq.adapterId positive wf counted _ least
      rw [← found] at shorter
      obtain ⟨⟨wfReleased, countedReleased⟩, wfAgain, le, countedAgain⟩ := shorter
      split
      · exact ⟨wfAgain, Nat.le_trans le least, countedAgain⟩
      · refine ⟨wfReleased, Nat.zero_le _, ?_⟩
        have idle := countedReleased.idle seq.adapterId prompt positive
        rwa [← Nat.zero_div model.blockSize] at idle
    · obtain ⟨wfLooked, countedLooked⟩ :=
        RadixTreeInner.counted_pinPrefix wf counted prompt positive seq.adapterId
      refine ⟨?_, within, ?_⟩
      · rw [found]
        exact wfLooked
      · rw [found]
        exact countedLooked

/-! ## What a live sequence's tokens say of its path -/

structure Tracks (model : TransformerModel) (sequence : LiveSequence) : Prop where
  adapter : sequence.held.adapterId = sequence.seq.adapterId
  size : sequence.held.blockSize = model.blockSize
  path : match sequence.stage with
    | .prefilling =>
      sequence.held.tokens = sequence.prompt ∧ sequence.seq.tokens <+: sequence.prompt ∧
      sequence.held.blocks = sequence.seq.cachedPrefixTokens / model.blockSize ∧
      sequence.seq.cachedPrefixTokens ≤ sequence.prompt.length ∧
      sequence.seq.prefixRefTokens = sequence.prompt.take sequence.seq.cachedPrefixTokens
    | .decoding =>
      sequence.held.tokens = sequence.prompt ∧ sequence.prompt <+: sequence.seq.tokens ∧
      sequence.seq.cachedPrefixTokens ≤ sequence.prompt.length
    | .cached =>
      sequence.held.tokens <+: sequence.seq.tokens ∧
      sequence.seq.cachedPrefixTokens ≤ sequence.seq.tokens.length

theorem Tracks.released {sequence : LiveSequence} (tracks : Tracks model sequence)
    (fits : sequence.held.Fits) :
    (∀ i, i ≤ sequence.held.blocks → trail sequence.seq.releaseTokens model.blockSize i =
      trail sequence.held.tokens model.blockSize i) ∧
    sequence.held.blocks ≤ sequence.seq.releaseTokens.length / model.blockSize := by
  obtain ⟨adapter, size, path⟩ := tracks
  obtain ⟨positive, inside⟩ := fits
  rw [size] at positive inside
  -- Tokens that start with those of the path have its trails.
  have longer : sequence.held.tokens <+: sequence.seq.tokens →
      sequence.seq.cachedPrefixTokens ≤ sequence.seq.tokens.length →
      (∀ i, i ≤ sequence.held.blocks → trail sequence.seq.releaseTokens model.blockSize i =
        trail sequence.held.tokens model.blockSize i) ∧
      sequence.held.blocks ≤ sequence.seq.releaseTokens.length / model.blockSize := by
    intro starts covers
    rw [SequenceState.releaseTokens, if_pos covers]
    refine ⟨?_, Nat.le_trans inside (Nat.div_le_div_right starts.length_le)⟩
    intro i le
    exact trail_of_starts starts ((Nat.le_div_iff_mul_le positive).mp (Nat.le_trans le inside))
  -- While it prefills, the sequence may have fewer tokens than it matched.
  cases stage : sequence.stage with
  | prefilling =>
    rw [stage] at path
    obtain ⟨same, starts, blocks, within, kept⟩ := path
    rw [SequenceState.releaseTokens, same]
    have covered : ∀ i, i ≤ sequence.held.blocks →
        i * model.blockSize ≤ sequence.seq.cachedPrefixTokens := by
      intro i le
      rw [blocks] at le
      exact (Nat.le_div_iff_mul_le positive).mp le
    split
    · next covers =>
      refine ⟨?_, ?_⟩
      · intro i le
        exact (trail_of_starts starts (Nat.le_trans (covered i le) covers)).symm
      · rw [blocks]
        exact Nat.div_le_div_right covers
    · rw [kept]
      refine ⟨?_, ?_⟩
      · intro i le
        exact trail_take (covered i le)
      · rw [List.length_take, Nat.min_eq_left within, blocks]
  | decoding =>
    rw [stage] at path
    obtain ⟨same, starts, within⟩ := path
    exact longer (same ▸ starts) (Nat.le_trans within starts.length_le)
  | cached =>
    rw [stage] at path
    exact longer path.1 path.2

theorem tracks_admitted {prompt : List Token} {seq : SequenceState} (fresh : seq.tokens = [])
    {prefixMatch : PrefixMatch} (within : prefixMatch.matchedTokens ≤ prompt.length) :
    Tracks model (admitted model prompt (model.applyMatch prompt seq prefixMatch)) where
  adapter := rfl
  size := rfl
  path := by
    refine ⟨rfl, ?_, rfl, within, ?_⟩
    · show seq.tokens <+: prompt
      rw [fresh]
      exact List.nil_prefix
    · show (if prefixMatch.matchedTokens > 0 then prompt.take prefixMatch.matchedTokens else []) =
        prompt.take prefixMatch.matchedTokens
      split
      · rfl
      · next none => rw [Nat.eq_zero_of_not_pos none, List.take_zero]

/-- Along a path that starts as the sequence's does, an insert holds what it counts. -/
theorem counted_stored {after : RadixTreeInner} {sequence : LiveSequence} {stage : Stage}
    {tokens : List Token} {args : Option InsertArgs} (wf : tree.WellFormed)
    (counted : Counted tree.cached (sequence.held ::ₘ held)) (tracks : Tracks model sequence)
    (starts : sequence.held.tokens <+: tokens)
    (along : ∀ inserted, args = some inserted → model.Along sequence.seq tokens inserted)
    (rest : ∀ inserted, args = some inserted → CountsRest sequence inserted)
    (inserted : Inserted tree args after) :
    after.WellFormed ∧
    Counted after.cached ((stored model sequence stage tokens args).held ::ₘ held) := by
  cases inserted with
  | skipped => exact ⟨wf, counted⟩
  | @stored _ args _ kept =>
    obtain ⟨wfAfter, cached⟩ := RadixTree.insert_spec wf kept
    obtain ⟨size, adapter, prefixes⟩ := along _ rfl
    obtain ⟨positive, inside⟩ := counted.fits _ (Multiset.mem_cons_self _ _)
    rw [tracks.size] at positive inside
    have full : args.numBlocks ≤ args.tokens.length / model.blockSize := by
      rw [← size]
      exact Nat.min_le_left _ _
    refine ⟨wfAfter, ?_⟩
    rw [cached]
    -- The held path and the stored one are both starts of `tokens`, so the longer one contains the other.
    have longer := @Counted.insert_rest _ _ _ counted args tokens (tracks.adapter.trans adapter.symm)
      (tracks.size.trans size.symm) ?_ ?_ ?_ (rest _ rfl)
    · rw [adapter, size, ← tracks.adapter] at longer
      exact longer
    · intro i le
      rw [size]
      exact trail_of_starts starts ((Nat.le_div_iff_mul_le positive).mp (Nat.le_trans le inside))
    · intro i le
      rw [size]
      exact trail_of_starts prefixes ((Nat.le_div_iff_mul_le positive).mp (Nat.le_trans le full))
    · rw [size]
      exact max_le (Nat.le_trans inside (Nat.div_le_div_right starts.length_le))
        (Nat.le_trans full (Nat.div_le_div_right prefixes.length_le))

theorem counted_freeSequence {sequence : LiveSequence} (wf : tree.WellFormed)
    (counted : Counted tree.cached (sequence.held ::ₘ held)) (tracks : Tracks model sequence)
    (keeps : ReleasesHeld model tree sequence) :
    (model.freeSequence tree sequence.seq).WellFormed ∧
    (model.freeSequence tree sequence.seq).cached =
      RadixTree.released tree.cached sequence.held.adapterId sequence.held.tokens
        sequence.held.blockSize sequence.held.blocks ∧
    Counted (model.freeSequence tree sequence.seq).cached held := by
  obtain ⟨agree, inside⟩ := tracks.released (counted.fits _ (Multiset.mem_cons_self _ _))
  rw [← tracks.size] at agree inside
  simp only [ReleasesHeld] at keeps
  rw [← tracks.size, ← tracks.adapter] at keeps
  have released := RadixTreeInner.counted_release wf counted agree inside keeps
  rw [TransformerModel.freeSequence, ← tracks.size, ← tracks.adapter]
  exact released

/-- A match given back drops the counts of its path; an empty match holds no block. -/
theorem counted_releaseReservation {reservation : Reservation} (wf : tree.WellFormed)
    (counted : Counted tree.cached (reservationHeld model reservation ::ₘ held)) :
    let after := model.releaseReservation tree reservation.tokens reservation.adapterId
      reservation.prefixMatch.matchedTokens
    after.WellFormed ∧
    after.cached = RadixTree.released tree.cached reservation.adapterId reservation.tokens
      model.blockSize (reservation.prefixMatch.matchedTokens / model.blockSize) ∧
    Counted after.cached held := by
  intro after
  have inside : reservation.prefixMatch.matchedTokens / model.blockSize ≤
      reservation.tokens.length / model.blockSize := (counted.fits _ (Multiset.mem_cons_self _ _)).2
  have released : after.WellFormed ∧ after.cached = RadixTree.released tree.cached
      reservation.adapterId reservation.tokens model.blockSize
      (reservation.prefixMatch.matchedTokens / model.blockSize) := by
    simp only [after, TransformerModel.releaseReservation]
    split
    · have spec := @RadixTree.releaseMatched_spec _ wf reservation.tokens model.blockSize
        reservation.adapterId reservation.prefixMatch.matchedTokens
      rwa [Nat.min_eq_left inside] at spec
    · next none =>
      rw [Nat.eq_zero_of_not_pos none, Nat.zero_div, RadixTree.released_zero]
      exact ⟨wf, rfl⟩
  refine ⟨released.1, released.2, ?_⟩
  rw [released.2]
  exact counted.release

/-! ## Runs -/

variable (model)

structure Safe (state : State) : Prop where
  wellFormed : state.tree.WellFormed
  counted : Counted state.tree.cached (heldPaths model state.reserved state.live)
  within : ∀ reservation ∈ state.reserved,
    reservation.prefixMatch.matchedTokens ≤ reservation.tokens.length
  tracks : ∀ sequence ∈ state.live, Tracks model sequence

variable {model}

theorem safe_new (sharing : Bool) : Safe model ⟨RadixTreeInner.new sharing, 0, 0⟩ where
  wellFormed := RadixTreeInner.WellFormed.new sharing
  counted := by
    rw [RadixTreeInner.cached_new]
    exact Counted.empty
  within := fun reservation member => absurd member (Multiset.notMem_zero reservation)
  tracks := fun sequence member => absurd member (Multiset.notMem_zero sequence)

theorem tracks_grow {sequence : LiveSequence} {grown : SequenceState} (tracks : Tracks model sequence)
    (same : SameMatch sequence.seq grown) (grows : Grows sequence grown.tokens) :
    Tracks model { sequence with seq := grown } := by
  obtain ⟨adapter, size, path⟩ := tracks
  simp only [Grows] at grows
  refine ⟨adapter.trans same.adapterId.symm, size, ?_⟩
  simp only [same.cachedPrefixTokens, same.prefixRefTokens]
  cases stage : sequence.stage with
  | prefilling =>
    simp only [stage] at path grows
    exact ⟨path.1, grows, path.2.2⟩
  | decoding =>
    simp only [stage] at path grows
    exact ⟨path.1, grows, path.2.2⟩
  | cached =>
    simp only [stage] at path grows
    rw [grows]
    exact path

theorem tracks_storePrompt {sequence : LiveSequence} (tracks : Tracks model sequence)
    (prefilling : sequence.stage = .prefilling) (filled : sequence.seq.tokens = sequence.prompt)
    (args : Option InsertArgs) :
    Tracks model (stored model sequence .decoding sequence.prompt args) := by
  obtain ⟨adapter, size, path⟩ := tracks
  simp only [prefilling] at path
  have starts : sequence.prompt <+: sequence.seq.tokens := ⟨[], by rw [List.append_nil, filled]⟩
  cases args with
  | none => exact ⟨adapter, size, path.1, starts, path.2.2.2.1⟩
  | some args => exact ⟨adapter, rfl, rfl, starts, path.2.2.2.1⟩

theorem tracks_storeFinished {sequence : LiveSequence} (tracks : Tracks model sequence)
    (decoding : sequence.stage = .decoding) (args : Option InsertArgs) :
    Tracks model (stored model sequence .cached sequence.seq.tokens args) := by
  obtain ⟨adapter, size, path⟩ := tracks
  simp only [decoding] at path
  obtain ⟨same, starts, within⟩ := path
  have covers := Nat.le_trans within starts.length_le
  cases args with
  | none => exact ⟨adapter, size, same ▸ starts, covers⟩
  | some args => exact ⟨adapter, rfl, List.prefix_rfl, covers⟩

theorem Safe.step {state after : State} {event : Event} (safe : Safe model state)
    (keeps : Keeps model state event) (step : Step model state event after) : Safe model after := by
  obtain ⟨wf, counted, within, tracks⟩ := safe
  cases step with
  | @reserve tree reserved live reservation positive made =>
    obtain ⟨wfAfter, countedAfter⟩ := RadixTreeInner.counted_pinPrefix wf counted reservation.tokens
      positive reservation.adapterId
    obtain ⟨depth, found⟩ := Matches.lookup wf reservation.tokens positive reservation.adapterId
    refine ⟨wfAfter, ?_, Multiset.forall_mem_cons.mpr ⟨?_, within⟩, tracks⟩
    · rw [heldPaths_cons_reserved, reservationHeld, made]
      exact countedAfter
    · rw [made]
      exact found.within
  | @giveBack tree reserved live reservation =>
    rw [heldPaths_cons_reserved] at counted
    have rest := (Multiset.forall_mem_cons.mp within).2
    obtain ⟨wfAfter, _, countedAfter⟩ := counted_releaseReservation wf counted
    exact ⟨wfAfter, countedAfter, rest, tracks⟩
  | @enter tree reserved live prompt seq otherRanks positive unapplied fresh =>
    obtain ⟨wfAfter, le, countedAfter⟩ := @counted_agreedMatch _ _ _ prompt seq positive wf counted otherRanks
    rw [model.prefixLookup_of_unapplied tree prompt unapplied]
    refine ⟨wfAfter, ?_, within, Multiset.forall_mem_cons.mpr ⟨tracks_admitted fresh le, tracks⟩⟩
    rw [heldPaths_cons_live]
    exact countedAfter
  | @admitReserved tree reserved live reservation seq otherRanks unapplied fresh adapter =>
    obtain ⟨le, rest⟩ := Multiset.forall_mem_cons.mp within
    -- A match that is reserved and then refused would stay counted.
    have matched : (if model.forcedEmpty reservation.tokens seq then emptyMatch
        else reservation.prefixMatch).matchedTokens = reservation.prefixMatch.matchedTokens := by
      rcases keeps with unforced | empty
      · simp [unforced]
      · split
        · exact empty.symm
        · rfl
    rw [model.prefixLookup_reserved tree reservation.tokens unapplied]
    refine ⟨wf, ?_, rest, Multiset.forall_mem_cons.mpr ⟨tracks_admitted fresh (matched ▸ le), tracks⟩⟩
    rw [heldPaths_cons_reserved] at counted
    rw [heldPaths_cons_live]
    simp only [admitted, TransformerModel.applyMatch, matched, adapter]
    exact counted
  | @resume tree reserved live seq positive unmatched =>
    refine ⟨wf, ?_, within, Multiset.forall_mem_cons.mpr ⟨⟨rfl, rfl, rfl, List.prefix_rfl, ?_⟩, tracks⟩⟩
    · rw [heldPaths_cons_live]
      exact counted.idle seq.adapterId seq.tokens positive
    · simp [unmatched]
  | @grow tree reserved live sequence grown same grows =>
    obtain ⟨one, rest⟩ := Multiset.forall_mem_cons.mp tracks
    refine ⟨wf, ?_, within, Multiset.forall_mem_cons.mpr ⟨tracks_grow one same grows, rest⟩⟩
    rw [heldPaths_cons_live] at counted ⊢
    exact counted
  -- A checkpoint counts no block for its sequence.
  | @checkpoint tree after reserved live sequence endToken args acquired prefilling inserts stored =>
    obtain ⟨one, _⟩ := Multiset.forall_mem_cons.mp tracks
    obtain ⟨adapter, unowned⟩ := model.registerCheckpoint_unowned inserts
    obtain ⟨wfAfter, cached⟩ := RadixTree.insert_spec wf stored
    refine ⟨wfAfter, ?_, within, tracks⟩
    rw [heldPaths_cons_live] at counted ⊢
    rw [cached]
    exact counted.insert_unowned (one.adapter.trans adapter.symm) unowned
  | @storePrompt tree after reserved live sequence prefilling filled inserted =>
    obtain ⟨one, rest⟩ := Multiset.forall_mem_cons.mp tracks
    rw [heldPaths_cons_live] at counted
    have path := one.path
    simp only [prefilling] at path
    obtain ⟨wfAfter, countedAfter⟩ := @counted_stored _ _ _ _ sequence .decoding sequence.prompt _ wf counted
      one (path.1.symm ▸ List.prefix_rfl) (fun args inserts => model.along_finalizeLast inserts)
      (fun args inserts => by rw [inserts] at keeps; exact keeps) inserted
    refine ⟨wfAfter, ?_, within, Multiset.forall_mem_cons.mpr
      ⟨tracks_storePrompt one prefilling filled _, rest⟩⟩
    rw [heldPaths_cons_live]
    exact countedAfter
  | @storeFinished tree after reserved live sequence decoding inserted =>
    obtain ⟨one, rest⟩ := Multiset.forall_mem_cons.mp tracks
    rw [heldPaths_cons_live] at counted
    have path := one.path
    simp only [decoding] at path
    obtain ⟨wfAfter, countedAfter⟩ := @counted_stored _ _ _ _ sequence .cached sequence.seq.tokens _ wf
      counted one (by rw [path.1]; exact path.2.1) (fun args inserts => model.along_cacheSequence inserts)
      (fun args inserts => by rw [inserts] at keeps; exact keeps) inserted
    refine ⟨wfAfter, ?_, within, Multiset.forall_mem_cons.mpr
      ⟨tracks_storeFinished one decoding _, rest⟩⟩
    rw [heldPaths_cons_live]
    exact countedAfter
  | @free tree reserved live sequence =>
    obtain ⟨one, rest⟩ := Multiset.forall_mem_cons.mp tracks
    rw [heldPaths_cons_live] at counted
    obtain ⟨wfAfter, _, countedAfter⟩ := counted_freeSequence wf counted one keeps
    exact ⟨wfAfter, countedAfter, within, rest⟩
  | @evict tree reserved live numBlocks =>
    obtain ⟨wfAfter, pruned⟩ := RadixTree.evict_spec wf numBlocks
    exact ⟨wfAfter, counted.prune tree.cached_closed pruned, within, tracks⟩

variable (model)

/-- No count is missing and none is left over, and what someone holds stays where it is. -/
structure Exact (state : State) : Prop where
  /-- A live node's count is the cache's own and one for each path that contains it. -/
  counts : ∀ id, (state.tree.node id).parent ≠ none →
    ∃ adapterId path, state.tree.find adapterId path = some id ∧
      (state.tree.node id).refCount = 1 + holders (heldPaths model state.reserved state.live) adapterId path
  kept : ∀ one ∈ heldPaths model state.reserved state.live, ∀ i, i < one.blocks → ∀ numBlocks, ∃ id,
    state.tree.find one.adapterId (trail one.tokens one.blockSize (i + 1)) = some id ∧
    (RadixTree.evict state.tree numBlocks).2.find one.adapterId
      (trail one.tokens one.blockSize (i + 1)) = some id
  matched : ∀ one ∈ heldPaths model state.reserved state.live, one.blocks * one.blockSize ≤
    (state.tree.walk one.tokens one.blockSize one.adapterId).matchedTokens

variable {model}

def Drops (before after : PrefixMap) (one : HeldPath) : Prop :=
  ∀ adapterId path value, before adapterId path = some value → ∃ left, after adapterId path = some left ∧
    left.refs + (if one.Covers adapterId path then 1 else 0) = value.refs

theorem Safe.exact {state : State} (safe : Safe model state) : Exact model state where
  counts := fun _ linked => RadixTreeInner.refCount_eq safe.wellFormed safe.counted linked
  kept := fun _ member _ below numBlocks =>
    RadixTreeInner.find_held_evict safe.wellFormed safe.counted member numBlocks below
  matched := fun _ member => RadixTreeInner.walk_held safe.wellFormed safe.counted member

theorem drops_released {map : PrefixMap} {held : Multiset HeldPath} {one : HeldPath}
    (counted : Counted map held) :
    Drops map (RadixTree.released map one.adapterId one.tokens one.blockSize one.blocks) one := by
  intro adapterId path value stored
  have count := counted.count adapterId path value stored
  by_cases covers : one.Covers adapterId path
  · obtain ⟨rfl, member⟩ := covers
    refine ⟨value.release, ?_, ?_⟩
    · rw [RadixTree.released, PathMap.alter_of_on _ member, stored]
      rfl
    · rw [if_pos ⟨rfl, member⟩]
      show value.refs - 1 + 1 = value.refs
      omega
  · refine ⟨value, ?_, by rw [if_neg covers, Nat.add_zero]⟩
    rw [RadixTree.released, PathMap.alter, if_neg (fun both => covers ⟨both.1.symm, both.2⟩), stored]

theorem Safe.free_drops {state after : State} {sequence : LiveSequence} (safe : Safe model state)
    (keeps : Keeps model state (.free sequence)) (step : Step model state (.free sequence) after) :
    Drops state.tree.cached after.tree.cached sequence.held := by
  cases step with
  | @free tree reserved live sequence =>
    have counted := safe.counted
    rw [heldPaths_cons_live] at counted
    obtain ⟨_, cached, _⟩ := counted_freeSequence safe.wellFormed counted
      (safe.tracks _ (Multiset.mem_cons_self _ _)) keeps
    show Drops tree.cached (model.freeSequence tree sequence.seq).cached sequence.held
    rw [cached]
    exact drops_released counted

theorem Safe.giveBack_drops {state after : State} {reservation : Reservation} (safe : Safe model state)
    (step : Step model state (.giveBack reservation) after) :
    Drops state.tree.cached after.tree.cached (reservationHeld model reservation) := by
  cases step with
  | @giveBack tree reserved live reservation =>
    have counted := safe.counted
    rw [heldPaths_cons_reserved] at counted
    obtain ⟨_, cached, _⟩ := counted_releaseReservation safe.wellFormed counted
    show Drops tree.cached (model.releaseReservation tree reservation.tokens reservation.adapterId
      reservation.prefixMatch.matchedTokens).cached (reservationHeld model reservation)
    rw [cached]
    exact @drops_released _ _ (reservationHeld model reservation) counted

/-- A text sequence stores its one block.  A sequence with a vision pad, which starts with the same
block and looked nothing up, is freed; the text sequence's block can then be evicted under it. -/
theorem stranger_released : ∃ events state, Run (Step ⟨2, 900, 901, false, false, false⟩)
    ⟨RadixTreeInner.new false, 0, 0⟩ events state ∧
    state.live.map LiveSequence.held = {⟨0, [1, 2], 2, 1⟩} ∧
    (RadixTree.evict state.tree 1).1.physical = [10] ∧
    ¬ Exact ⟨2, 900, 901, false, false, false⟩ state := by
  have run : ∃ events state, Run (Step ⟨2, 900, 901, false, false, false⟩)
      ⟨RadixTreeInner.new false, 0, 0⟩ events state ∧
      state.reserved = 0 ∧ state.live.map LiveSequence.held = {⟨0, [1, 2], 2, 1⟩} ∧
      (RadixTree.evict state.tree 1).1.physical = [10] ∧
      (RadixTree.evict state.tree 1).2.find 0 (trail [1, 2] 2 1) = none := by
    -- The second prompt has the pad token 900, so that it looks nothing up.
    refine ⟨_, _, .prepend (@Step.enter _ _ _ _ [1, 2] (SequenceState.new 0) 0 (by decide) rfl rfl) <|
      .prepend (@Step.grow _ _ _ _ _ ⟨[1, 2], [10], [], 0, 0, [], true, 2, 2, false, false⟩
        ⟨rfl, rfl, rfl, rfl⟩ List.prefix_rfl) <|
      .prepend (@Step.storePrompt _ _ _ _ _ _ rfl rfl (.stored rfl)) <|
      .prepend (@Step.enter _ _ _ _ [1, 2, 900] (SequenceState.new 0) 0 (by decide) rfl rfl) <|
      .prepend (@Step.grow _ _ _ _ _ ⟨[1, 2, 900], [11, 12], [], 0, 0, [], true, 3, 3, false, false⟩
        ⟨rfl, rfl, rfl, rfl⟩ List.prefix_rfl) <|
      .single .free, rfl, rfl, rfl, rfl⟩
  obtain ⟨events, state, run, none, one, evicted, lost⟩ := run
  refine ⟨events, state, run, one, evicted, ?_⟩
  intro exact
  have member : (⟨0, [1, 2], 2, 1⟩ : HeldPath) ∈ heldPaths ⟨2, 900, 901, false, false, false⟩
      state.reserved state.live := by
    rw [heldPaths, none, one]
    simp
  obtain ⟨id, _, found⟩ := exact.kept _ member 0 (by decide) 1
  rw [lost] at found
  cases found

/-- In every run whose steps meet the condition, each node's count is its holders' and the cache's own;
a free and a match given back drop exactly the counts of their own path; and no live sequence's path can
be evicted or is left unmatched. -/
theorem releases_exact {sharing : Bool} {events : List Event} {state : State}
    (run : Run (Guarded (Keeps model) (Step model)) ⟨RadixTreeInner.new sharing, 0, 0⟩ events state) :
    Exact model state ∧ ∀ event after, Keeps model state event → Step model state event after →
      Exact model after ∧
      (∀ sequence, event = .free sequence → Drops state.tree.cached after.tree.cached sequence.held) ∧
      (∀ reservation, event = .giveBack reservation →
        Drops state.tree.cached after.tree.cached (reservationHeld model reservation)) := by
  have safe := run.guarded_invariant (Safe model) (safe_new sharing)
    fun _ _ _ safe keeps step => safe.step keeps step
  refine ⟨safe.exact, ?_⟩
  intro event after keeps step
  refine ⟨(safe.step keeps step).exact, ?_, ?_⟩
  · rintro sequence rfl
    exact safe.free_drops keeps step
  · rintro reservation rfl
    exact safe.giveBack_drops step

/-- A sequence stores its block; another matches it, is freed before its prefill, and drops its own
count only. -/
theorem releases_exact_shared : ∃ events state,
    Run (Guarded (Keeps ⟨2, 900, 901, false, false, false⟩) (Step ⟨2, 900, 901, false, false, false⟩))
      ⟨RadixTreeInner.new false, 0, 0⟩ events state ∧
    state.live.map LiveSequence.held = {⟨0, [1, 2], 2, 1⟩} ∧
    Exact ⟨2, 900, 901, false, false, false⟩ state := by
  have run : ∃ events state,
      Run (Guarded (Keeps ⟨2, 900, 901, false, false, false⟩) (Step ⟨2, 900, 901, false, false, false⟩))
        ⟨RadixTreeInner.new false, 0, 0⟩ events state ∧
      state.live.map LiveSequence.held = {⟨0, [1, 2], 2, 1⟩} := by
    refine ⟨_, _, .prepend ⟨?_, @Step.enter _ _ _ _ [1, 2] (SequenceState.new 0) 0 (by decide) rfl rfl⟩ <|
      .prepend ⟨?_, @Step.grow _ _ _ _ _ ⟨[1, 2], [10], [], 0, 0, [], true, 2, 2, false, false⟩
        ⟨rfl, rfl, rfl, rfl⟩ List.prefix_rfl⟩ <|
      .prepend ⟨?_, @Step.storePrompt _ _ _ _ _ _ rfl rfl (.stored rfl)⟩ <|
      .prepend ⟨?_, @Step.enter _ _ _ _ [1, 2, 5] (SequenceState.new 0) 0 (by decide) rfl rfl⟩ <|
      .single ⟨?_, .free⟩, rfl⟩
    · exact trivial
    · exact trivial
    · intro i below
      exact iff_of_true (Nat.zero_le _) (Nat.zero_le _)
    · exact trivial
    · left
      decide
  obtain ⟨events, state, run, one⟩ := run
  exact ⟨events, state, run, one, (releases_exact run).1⟩

end SequenceRelease

end Metrale.Engine
