import Metrale.Cache.RadixTree.Counted

/-! # Sequences that hold prefixes

A sequence looks its tokens up, inserts them with the block-aligned length it matched, and releases
them; or it gives its match back before it inserts.  Any number of them and any evictions
interleave. -/

namespace Metrale.Cache

open Metrale.Foundation
open RadixTreeInner (InsertArgs InsertAcquired)

structure Holder where
  tokens : List Token
  blockSize : Nat
  adapterId : AdapterId
  matchedTokens : Nat
  inserted : Bool

namespace Holder

def blocks (holder : Holder) : Nat :=
  if holder.inserted then holder.tokens.length / holder.blockSize
  else holder.matchedTokens / holder.blockSize

def held (holder : Holder) : HeldPath where
  adapterId := holder.adapterId
  tokens := holder.tokens
  blockSize := holder.blockSize
  blocks := holder.blocks

/-- The insert's arguments.  The block table covers every full chunk of the tokens. -/
structure Inserts (holder : Holder) (args : InsertArgs) : Prop where
  tokens : args.tokens = holder.tokens
  blockSize : args.blockSize = holder.blockSize
  adapterId : args.adapterId = holder.adapterId
  matchedTokens : args.matchedTokens = holder.matchedTokens / holder.blockSize * holder.blockSize
  covered : args.numFullBlocks ≤ args.blockTable.length

end Holder

namespace Holders

structure State where
  tree : RadixTreeInner
  live : Multiset Holder

inductive Event where
  | lookup (holder : Holder)
  | insert (holder : Holder) (args : InsertArgs) (acquired : InsertAcquired)
  | release (holder : Holder)
  | releaseMatched (holder : Holder)
  | evict (numBlocks : Nat)

inductive Step : State → Event → State → Prop where
  | lookup {tree : RadixTreeInner} {live : Multiset Holder} {tokens : List Token} {blockSize : Nat}
      {adapterId : AdapterId} {holder : Holder} : 0 < blockSize →
      holder = ⟨tokens, blockSize, adapterId,
        (RadixTree.lookup tree tokens blockSize adapterId).1.matchedTokens, false⟩ →
      Step ⟨tree, live⟩ (.lookup holder)
        ⟨(RadixTree.lookup tree tokens blockSize adapterId).2, holder ::ₘ live⟩
  | insert {tree after : RadixTreeInner} {live : Multiset Holder} {holder : Holder} {args : InsertArgs}
      {acquired : InsertAcquired} : holder.inserted = false → holder.Inserts args →
      RadixTree.insert tree args = some (acquired, after) →
      Step ⟨tree, holder ::ₘ live⟩ (.insert holder args acquired)
        ⟨after, { holder with inserted := true } ::ₘ live⟩
  | release {tree : RadixTreeInner} {live : Multiset Holder} {holder : Holder} :
      holder.inserted = true →
      Step ⟨tree, holder ::ₘ live⟩ (.release holder)
        ⟨RadixTree.release tree holder.tokens holder.blockSize holder.adapterId, live⟩
  | releaseMatched {tree : RadixTreeInner} {live : Multiset Holder} {holder : Holder} :
      holder.inserted = false →
      Step ⟨tree, holder ::ₘ live⟩ (.releaseMatched holder)
        ⟨RadixTree.releaseMatched tree holder.tokens holder.blockSize holder.matchedTokens
          holder.adapterId, live⟩
  | evict {tree : RadixTreeInner} {live : Multiset Holder} {numBlocks : Nat} :
      Step ⟨tree, live⟩ (.evict numBlocks) ⟨(RadixTree.evict tree numBlocks).2, live⟩

theorem counted_insert {map : PrefixMap} {live : Multiset Holder} {holder : Holder}
    (counted : Counted map ((holder ::ₘ live).map Holder.held)) (waiting : holder.inserted = false)
    {args : InsertArgs} (inserts : holder.Inserts args) :
    Counted (RadixTree.inserted map args)
      (({ holder with inserted := true } ::ₘ live).map Holder.held) := by
  obtain ⟨tokens, blockSize, adapter, matched, covered⟩ := inserts
  rw [Multiset.map_cons] at counted ⊢
  obtain ⟨positive, inside⟩ := counted.fits holder.held (Multiset.mem_cons_self _ _)
  change holder.blocks ≤ holder.tokens.length / holder.blockSize at inside
  have before : holder.blocks = holder.matchedTokens / holder.blockSize := by
    simp only [Holder.blocks, waiting, Bool.false_eq_true, if_false]
  have full : args.numBlocks = holder.tokens.length / holder.blockSize := by
    rw [InsertArgs.numBlocks, Nat.min_eq_left covered, InsertArgs.numFullBlocks, tokens, blockSize]
  -- The blocks behind the lookup's match are the sequence's own.
  have owned : ∀ i, args.isSeqOwned i = true ↔ holder.blocks ≤ i := by
    intro i
    rw [InsertArgs.isSeqOwned, decide_eq_true_eq, matched, blockSize, before]
    exact Nat.mul_le_mul_right_iff positive
  refine counted.insert adapter.symm adapter.symm ⟨positive, Nat.le_refl _⟩ ?_ ?_
  -- The new path is the held one and, behind it, the blocks that the insert counts.
  · intro path
    show OnPath holder.tokens holder.blockSize (holder.tokens.length / holder.blockSize) path ↔
      OnPath holder.tokens holder.blockSize holder.blocks path ∨ _
    rw [owned, full, tokens, blockSize]
    constructor
    · rintro ⟨proper, le, same⟩
      have pos : 0 < path.length := List.length_pos_iff.mpr proper
      by_cases short : path.length ≤ holder.blocks
      · exact .inl ⟨proper, short, same⟩
      · exact .inr ⟨⟨proper, le, same⟩, by omega⟩
    · rintro (⟨proper, le, same⟩ | ⟨reached, _⟩)
      · exact ⟨proper, Nat.le_trans le inside, same⟩
      · exact reached
  · rintro path ⟨proper, le, _⟩ isOwned _
    have pos : 0 < path.length := List.length_pos_iff.mpr proper
    rw [owned] at isOwned
    change path.length ≤ holder.blocks at le
    omega

/-! ## Runs -/

structure Safe (state : State) : Prop where
  wellFormed : state.tree.WellFormed
  counted : Counted state.tree.cached (state.live.map Holder.held)

theorem safe_new (sharing : Bool) : Safe ⟨RadixTreeInner.new sharing, 0⟩ where
  wellFormed := RadixTreeInner.WellFormed.new sharing
  counted := by
    rw [RadixTreeInner.cached_new]
    exact Counted.empty

theorem Safe.step {state after : State} {event : Event} (safe : Safe state)
    (step : Step state event after) : Safe after := by
  obtain ⟨wf, counted⟩ := safe
  cases step with
  | @lookup tree live tokens blockSize adapterId holder positive made =>
    obtain ⟨wfAfter, countedAfter⟩ :=
      RadixTreeInner.counted_pinPrefix wf counted tokens positive adapterId
    subst made
    refine ⟨wfAfter, ?_⟩
    rw [Multiset.map_cons]
    exact countedAfter
  | insert waiting inserts stored =>
    obtain ⟨wfAfter, cached⟩ := RadixTree.insert_spec wf stored
    refine ⟨wfAfter, ?_⟩
    rw [cached]
    exact counted_insert counted waiting inserts
  | @release tree live holder inserted =>
    rw [Multiset.map_cons] at counted
    -- An inserted sequence releases all its full blocks, a waiting one those it matched.
    have blocks : holder.held.blocks = holder.tokens.length / holder.blockSize := if_pos inserted
    obtain ⟨wfAfter, countedAfter⟩ :=
      RadixTreeInner.counted_releaseMatched wf counted holder.tokens.length blocks.symm
    exact ⟨wfAfter, countedAfter⟩
  | @releaseMatched tree live holder waiting =>
    rw [Multiset.map_cons] at counted
    have blocks : holder.held.blocks = holder.matchedTokens / holder.blockSize := by
      simp only [Holder.held, Holder.blocks, waiting, Bool.false_eq_true, if_false]
    obtain ⟨wfAfter, countedAfter⟩ :=
      RadixTreeInner.counted_releaseMatched wf counted holder.matchedTokens blocks.symm
    exact ⟨wfAfter, countedAfter⟩
  | @evict tree live numBlocks =>
    obtain ⟨wfAfter, pruned⟩ := RadixTree.evict_spec wf numBlocks
    exact ⟨wfAfter, counted.prune tree.cached_closed pruned⟩

structure Promises (state : State) : Prop where
  /-- A live node's count is the cache's own and one for each sequence whose path contains it. -/
  counts : ∀ id, (state.tree.node id).parent ≠ none →
    ∃ adapterId path, state.tree.find adapterId path = some id ∧
      (state.tree.node id).refCount = 1 + holders (state.live.map Holder.held) adapterId path
  /-- Eviction removes no node of a held path, and a held path contains the ancestors of its nodes. -/
  kept : ∀ holder ∈ state.live, ∀ i, i < holder.blocks → ∀ numBlocks, ∃ id,
    state.tree.find holder.adapterId (trail holder.tokens holder.blockSize (i + 1)) = some id ∧
    (RadixTree.evict state.tree numBlocks).2.find holder.adapterId
      (trail holder.tokens holder.blockSize (i + 1)) = some id
  matched : ∀ holder ∈ state.live, holder.blocks * holder.blockSize ≤
    (state.tree.walk holder.tokens holder.blockSize holder.adapterId).matchedTokens

theorem Safe.promises {state : State} (safe : Safe state) : Promises state := by
  obtain ⟨wf, counted⟩ := safe
  constructor
  case counts => exact fun id linked => RadixTreeInner.refCount_eq wf counted linked
  case kept =>
    intro holder member i below numBlocks
    exact RadixTreeInner.find_held_evict wf counted (Multiset.mem_map_of_mem _ member) numBlocks below
  case matched =>
    intro holder member
    exact RadixTreeInner.walk_held wf counted (Multiset.mem_map_of_mem Holder.held member)

/-- Every node's count is one more than its holders, whatever the sequences and evictions did; so no
eviction takes a held node or its ancestors, and a held prefix stays matched until its release. -/
theorem holders_safe {sharing : Bool} {events : List Event} {state : State}
    (run : Run Step ⟨RadixTreeInner.new sharing, 0⟩ events state) : Promises state :=
  (run.invariant Safe (safe_new sharing) fun _ _ _ safe step => safe.step step).promises

/-- One sequence looks up and inserts two blocks, another then holds the first of them. -/
theorem holders_safe_shared : ∃ events state, Run Step ⟨RadixTreeInner.new false, 0⟩ events state ∧
    state.live = {⟨[1, 2, 9], 2, 0, 2, false⟩, ⟨[1, 2, 3, 4], 2, 0, 0, true⟩} ∧ Promises state := by
  have run : ∃ tree, Run Step ⟨RadixTreeInner.new false, 0⟩
      [.lookup ⟨[1, 2, 3, 4], 2, 0, 0, false⟩,
        .insert ⟨[1, 2, 3, 4], 2, 0, 0, false⟩ ⟨[1, 2, 3, 4], [10, 11], [], 2, 0, 0⟩ ⟨[], [10, 11], []⟩,
        .lookup ⟨[1, 2, 9], 2, 0, 2, false⟩]
      ⟨tree, {⟨[1, 2, 9], 2, 0, 2, false⟩, ⟨[1, 2, 3, 4], 2, 0, 0, true⟩}⟩ :=
    ⟨_, .prepend (.lookup (by decide) rfl)
      (.prepend (.insert rfl ⟨rfl, rfl, rfl, rfl, by decide⟩ rfl) (.single (.lookup (by decide) rfl)))⟩
  obtain ⟨tree, run⟩ := run
  exact ⟨_, _, run, rfl, holders_safe run⟩

end Holders

end Metrale.Cache
