import Metrale.Cache.RadixTree.Calls

/-! # Accounts of what the tree stores

The KV blocks and the disk ids of a tree are multisets summed over its arena.  Each round of
`insert`, and each node that `evict` takes, moves them by what the call reports, so a run's reports
are a ledger of what the tree stores.  For blocks that holds of every call (`Step.blocks_balance`).
For disk ids it holds of the calls that replace no partial suffix with a disk id
(`Step.disks_balance`): `insert` says of a replaced suffix that its disk id "is not reported
anywhere". -/

namespace Metrale.Cache

open Metrale.Foundation
open RadixTreeInner (InsertArgs InsertAcquired InsertState Accountable)

section Holding

variable {Amount : Type*} [AddCommMonoid Amount] (share : BlockId → DiskId → Amount)

def suffixHolding (suffix : Option PartialSuffix) : Amount :=
  suffix.elim 0 fun stored => share stored.block stored.disk

def RadixNode.holding (node : RadixNode) : Amount :=
  (if node.parent.isSome then share node.blockIdx node.diskBlockId else 0) +
    suffixHolding share node.partialSuffix

theorem accountable_holding : Accountable (RadixNode.holding share) where
  vacant := by
    intro node vacant
    simp [RadixNode.holding, suffixHolding, vacant.parent, vacant.partialSuffix]
  withChild := fun _ _ _ => rfl
  withoutChild := fun _ _ => rfl

theorem holding_of_linked {node : RadixNode} {parent : NodeId} (linked : node.parent = some parent) :
    node.holding share =
      share node.blockIdx node.diskBlockId + suffixHolding share node.partialSuffix := by
  simp [RadixNode.holding, linked]

end Holding

/-- A disk id, unless it is `u32::MAX`. -/
def realDisk (disk : DiskId) : Multiset DiskId := if disk = u32Max then 0 else {disk}

def blockShare (block : BlockId) (_ : DiskId) : Multiset BlockId := {block}

def diskShare (_ : BlockId) (disk : DiskId) : Multiset DiskId := realDisk disk

namespace RadixTreeInner

def storedBlocks (tree : RadixTreeInner) : Multiset BlockId := tree.total (RadixNode.holding blockShare)

def storedDisks (tree : RadixTreeInner) : Multiset DiskId := tree.total (RadixNode.holding diskShare)

/-! ## Counts -/

section Counts

variable {Amount : Type*} [AddCommMonoid Amount] (share : BlockId → DiskId → Amount)

theorem total_modifyPath {change : RadixNode → RadixNode}
    (same : ∀ node, (change node).holding share = node.holding share) (tokens : List Token)
    (blockSize remaining i : Nat) (current : NodeId) (tree : RadixTreeInner) :
    (modifyPath change tokens blockSize remaining i current tree).total (RadixNode.holding share) =
      tree.total (RadixNode.holding share) := by
  induction remaining generalizing i current tree with
  | zero => rfl
  | succ remaining ih =>
    rw [modifyPath]
    split
    · rw [ih, total_modifyNode_of_same tree same]
    · rfl

theorem total_incRefs (tree : RadixTreeInner) (tokens : List Token) (blockSize numMatched : Nat)
    (adapterId : AdapterId) :
    (tree.incRefs tokens blockSize numMatched adapterId).total (RadixNode.holding share) =
      tree.total (RadixNode.holding share) := by
  have same : ∀ node : RadixNode,
      { node with refCount := node.refCount + 1, lastAccess := tree.nextAccess.2 }.holding share =
        node.holding share := fun _ => rfl
  unfold incRefs
  cases stored : tree.nextAccess.1.rootForRead adapterId with
  | none =>
    simp only [stored]
    rfl
  | some root =>
    simp only [stored]
    exact total_modifyPath share same _ _ _ _ _ _

theorem total_decRefs (tree : RadixTreeInner) (tokens : List Token) (blockSize matchedTokens : Nat)
    (adapterId : AdapterId) :
    (tree.decRefs tokens blockSize matchedTokens adapterId).total (RadixNode.holding share) =
      tree.total (RadixNode.holding share) := by
  have same : ∀ node : RadixNode,
      (if node.refCount > 0 then { node with refCount := node.refCount - 1 } else node).holding share =
        node.holding share := by
    intro node
    split <;> rfl
  simp only [decRefs]
  cases stored : tree.rootForRead adapterId with
  | none => rfl
  | some root => exact total_modifyPath share same _ _ _ _ _ _

end Counts

/-! ## One round of `insert` -/

section Rounds

variable {Amount : Type*} [AddCancelCommMonoid Amount] (share : BlockId → DiskId → Amount)
  {args : InsertArgs} (access : Nat) {rounds : Nat} {before : PrefixMap} {state : InsertState}
  (invariant : InsertedTo args before rounds state)
include invariant

theorem total_insertExisting {child : NodeId}
    (stored : state.tree.childAt state.current (args.chunkAt rounds) = some child) :
    (insertExisting args access rounds child state).tree.total (RadixNode.holding share) +
        share (state.tree.node child).blockIdx (state.tree.node child).diskBlockId =
      state.tree.total (RadixNode.holding share) +
        share (state.tree.node child).blockIdx
          (if args.hssActive && (state.tree.node child).diskBlockId == u32Max &&
              args.diskId rounds != u32Max then args.diskId rounds
            else (state.tree.node child).diskBlockId) := by
  obtain ⟨bound, linked, _⟩ := invariant.wellFormed.childNode stored
  have changed : ∀ takesDisk,
      (existingNode args access rounds (contextHashCombine state.parentCtxHash (args.chunkAt rounds))
        takesDisk (state.tree.node child)).holding share =
      share (state.tree.node child).blockIdx
          (if takesDisk then args.diskId rounds else (state.tree.node child).diskBlockId) +
        suffixHolding share (state.tree.node child).partialSuffix := by
    intro takesDisk
    exact holding_of_linked share (show (existingNode _ _ _ _ _ _).parent = some state.current from linked)
  have balance := total_modifyNode (RadixNode.holding share) state.tree bound
    (existingNode args access rounds (contextHashCombine state.parentCtxHash (args.chunkAt rounds))
      (args.hssActive && (state.tree.node child).diskBlockId == u32Max && args.diskId rounds != u32Max))
  rw [holding_of_linked share linked, changed, ← add_assoc, ← add_assoc] at balance
  exact add_right_cancel balance

theorem total_insertNew :
    (insertNew args access rounds state).tree.total (RadixNode.holding share) +
        suffixHolding share (state.tree.node state.current).partialSuffix =
      state.tree.total (RadixNode.holding share) +
        share (args.blockTable.getD rounds u32Max) (args.diskId rounds) := by
  have balance := total_attachChild (accountable_holding share) invariant.wellFormed invariant.current
    (args.chunkAt rounds) (newNode args access rounds state.current
      (contextHashCombine state.parentCtxHash (args.chunkAt rounds)))
  have fresh : (newNode args access rounds state.current
      (contextHashCombine state.parentCtxHash (args.chunkAt rounds))).holding share =
      share (args.blockTable.getD rounds u32Max) (args.diskId rounds) := by
    rw [holding_of_linked share (show (newNode _ _ _ _ _).parent = some state.current from rfl)]
    exact add_zero _
  have cleared : (state.tree.node state.current).holding share =
      (state.tree.node state.current).dropSuffix.holding share +
        suffixHolding share (state.tree.node state.current).partialSuffix :=
    congrArg (· + _) (add_zero _).symm
  rw [fresh, cleared, ← add_assoc, add_right_comm, add_right_comm (state.tree.total _)] at balance
  exact add_right_cancel balance

theorem total_modifySuffix (suffix : Option PartialSuffix) :
    (state.tree.modifyNode state.current fun node =>
          { node with partialSuffix := suffix }).total (RadixNode.holding share) +
        suffixHolding share (state.tree.node state.current).partialSuffix =
      state.tree.total (RadixNode.holding share) + suffixHolding share suffix := by
  have balance := total_modifyNode (RadixNode.holding share) state.tree
    (invariant.wellFormed.find_lt invariant.current) fun node => { node with partialSuffix := suffix }
  simp only [RadixNode.holding] at balance
  rw [← add_assoc, ← add_assoc, add_right_comm, add_right_comm (state.tree.total _)] at balance
  exact add_right_cancel balance

end Rounds

/-! ## Blocks -/

/-- What the insert so far has reported about blocks balances what the tree stores. -/
def BlocksBalance (tree : RadixTreeInner) (state : InsertState) : Prop :=
  state.tree.storedBlocks + (state.releasedBlocks : Multiset BlockId) =
    tree.storedBlocks + (state.newlyOwnedBlocks : Multiset BlockId)

theorem suffixHolding_blockShare (suffix : Option PartialSuffix) :
    suffixHolding blockShare suffix = ((suffix.map PartialSuffix.block).toList : Multiset BlockId) := by
  cases suffix with
  | none => rfl
  | some stored => rfl

theorem insertStart_storedBlocks {tree : RadixTreeInner} (wf : tree.WellFormed) (args : InsertArgs) :
    (tree.insertStart args).tree.storedBlocks = tree.storedBlocks :=
  total_rootForInsert (accountable_holding blockShare) wf.nextAccess args.adapterId

theorem blocksBalance_chunk {tree : RadixTreeInner} {args : InsertArgs} {access rounds : Nat}
    {before : PrefixMap} {state : InsertState} (invariant : InsertedTo args before rounds state)
    (balance : BlocksBalance tree state) :
    BlocksBalance tree (insertChunk args access rounds state) := by
  simp only [insertChunk]
  split
  · next child stored =>
    have kept := add_right_cancel (total_insertExisting blockShare access invariant stored)
    simp only [BlocksBalance, storedBlocks]
    rw [kept]
    exact balance
  · have added := total_insertNew blockShare access invariant
    rw [suffixHolding_blockShare] at added
    simp only [BlocksBalance, storedBlocks] at balance ⊢
    simp only [insertNew, ← Multiset.coe_add] at added ⊢
    rw [add_comm (state.releasedBlocks : Multiset BlockId), ← add_assoc, added, add_right_comm, balance,
      add_assoc]
    rfl

theorem blocksBalance_insertBlocks {tree : RadixTreeInner} (wf : tree.WellFormed) (args : InsertArgs)
    (access rounds : Nat) :
    BlocksBalance tree (insertBlocks args access (tree.insertStart args) rounds) := by
  induction rounds with
  | zero =>
    simp only [BlocksBalance]
    rw [insertBlocks, insertStart_storedBlocks wf]
    rfl
  | succ rounds ih =>
    exact blocksBalance_chunk (insertBlocks_spec wf args access rounds) ih

theorem blocksBalance_partial {tree : RadixTreeInner} {args : InsertArgs} {rounds : Nat}
    {before : PrefixMap} {state : InsertState} (invariant : InsertedTo args before rounds state)
    (root : NodeId) (balance : BlocksBalance tree state) :
    BlocksBalance tree (insertPartial args root state) := by
  simp only [insertPartial]
  split
  · have changed := total_modifySuffix blockShare invariant (some
      ⟨args.tokens.drop (args.numFullBlocks * args.blockSize),
        args.blockTable.getD args.numFullBlocks u32Max, args.partialDisk⟩)
    rw [suffixHolding_blockShare, suffixHolding_blockShare] at changed
    simp only [BlocksBalance, storedBlocks] at balance ⊢
    by_cases same : (state.tree.node state.current).partialSuffix.map PartialSuffix.block =
        some (args.blockTable.getD args.numFullBlocks u32Max)
    · rw [same] at changed
      simp only [same, ne_eq, not_true, if_false]
      rw [add_right_cancel changed]
      exact balance
    · simp only [same, ne_eq, not_false_iff, if_true, ← Multiset.coe_add]
      rw [add_comm (state.releasedBlocks : Multiset BlockId), ← add_assoc, changed, add_right_comm,
        balance, add_assoc]
      rfl
  · exact balance

theorem insert_storedBlocks {tree tree' : RadixTreeInner} (wf : tree.WellFormed) {args : InsertArgs}
    {acquired : InsertAcquired} (inserted : tree.insert args = some (acquired, tree')) :
    tree'.storedBlocks + (acquired.releasedBlocks : Multiset BlockId) =
      tree.storedBlocks + (acquired.blocks : Multiset BlockId) := by
  simp only [insert] at inserted
  split at inserted
  · cases inserted
  · cases inserted
    exact blocksBalance_partial (insertBlocks_spec wf args tree.nextAccess.2 args.numBlocks) _
      (blocksBalance_insertBlocks wf args tree.nextAccess.2 args.numBlocks)

theorem insert_blocks_mem {tree tree' : RadixTreeInner} {args : InsertArgs} {acquired : InsertAcquired}
    (inserted : tree.insert args = some (acquired, tree')) :
    ∀ block ∈ acquired.blocks, block ∈ args.blockTable := by
  have entry : ∀ {i}, i < args.blockTable.length → args.blockTable.getD i u32Max ∈ args.blockTable := by
    intro i below
    rw [List.getD_eq_getElem?_getD, List.getElem?_eq_getElem below]
    exact List.getElem_mem below
  have loop : ∀ access rounds, rounds ≤ args.blockTable.length →
      ∀ block ∈ (insertBlocks args access (tree.insertStart args) rounds).newlyOwnedBlocks,
        block ∈ args.blockTable := by
    intro access rounds
    -- The rounds stay inside the block table, so no entry is read beyond its end.
    induction rounds with
    | zero => exact fun _ block member => absurd member List.not_mem_nil
    | succ rounds ih =>
      intro le block member
      rw [insertBlocks, insertChunk] at member
      split at member
      · exact ih (Nat.le_of_succ_le le) block member
      · rcases List.mem_append.mp member with old | new
        · exact ih (Nat.le_of_succ_le le) block old
        · rw [List.mem_singleton.mp new]
          exact entry le
  simp only [insert] at inserted
  split at inserted
  · cases inserted
  · cases inserted
    intro block member
    have done := loop tree.nextAccess.2 args.numBlocks (Nat.min_le_right _ _) block
    simp only [insertPartial] at member
    split at member
    -- The incomplete block is the one behind the full ones.
    · next stores =>
      dsimp only at member
      split at member
      · rcases List.mem_append.mp member with old | new
        · exact done old
        · rw [List.mem_singleton.mp new]
          exact entry stores.2.1
      · exact done member
    · exact done member

/-! ## `evict` -/

def evictedPairs (node : RadixNode) : List (BlockId × DiskId) :=
  (node.blockIdx, node.diskBlockId) ::
    (node.partialSuffix.map fun suffix => (suffix.block, suffix.disk)).toList

theorem evictedPairs_spec {node : RadixNode} {parent : NodeId} (linked : node.parent = some parent) :
    (evictedPairs node).map Prod.fst = node.evictedPhys ∧
    (evictedPairs node).map Prod.snd = node.evictedDisk ∧
    ∀ {Amount : Type} [AddCommMonoid Amount] (share : BlockId → DiskId → Amount),
      ((evictedPairs node).map fun pair => share pair.1 pair.2).sum = node.holding share := by
  simp only [evictedPairs, RadixNode.evictedPhys, RadixNode.evictedDisk]
  refine ⟨?_, ?_, ?_⟩
  · cases node.partialSuffix <;> rfl
  · cases node.partialSuffix <;> rfl
  · intro Amount _ share
    rw [holding_of_linked share linked]
    cases node.partialSuffix with
    | none => simp [suffixHolding]
    | some suffix => simp [suffixHolding]

/-- The loop frees blocks with parallel disk ids, and the tree stores exactly those no more. -/
theorem evictLoop_total (numBlocks fuel : Nat) {tree : RadixTreeInner} (wf : tree.WellFormed)
    (freedPhys : List BlockId) (freedDisk : List DiskId) :
    ∃ taken : List (BlockId × DiskId),
      (evictLoop numBlocks fuel tree freedPhys freedDisk).1 =
        (freedPhys ++ taken.map Prod.fst, freedDisk ++ taken.map Prod.snd) ∧
      ∀ {Amount : Type} [AddCommMonoid Amount] (share : BlockId → DiskId → Amount),
        (evictLoop numBlocks fuel tree freedPhys freedDisk).2.total (RadixNode.holding share) +
            (taken.map fun pair => share pair.1 pair.2).sum =
          tree.total (RadixNode.holding share) := by
  -- The pairs say once what the two returned lists say apart; they do not depend on the share counted.
  induction fuel generalizing tree freedPhys freedDisk with
  | zero => exact ⟨[], by simp [evictLoop], by simp [evictLoop]⟩
  | succ fuel ih =>
    rw [evictLoop]
    split
    · exact ⟨[], by simp, by simp⟩
    · split
      · next nodeId access chosen =>
        obtain ⟨parent, victim⟩ := bestVictim_some chosen
        obtain ⟨phys, disk, shares⟩ := evictedPairs_spec victim.linked
        obtain ⟨taken, reported, balance⟩ := ih
          (wf.evictNode victim.linked victim.leaf)
          (freedPhys ++ (tree.node nodeId).evictedPhys) (freedDisk ++ (tree.node nodeId).evictedDisk)
        refine ⟨evictedPairs (tree.node nodeId) ++ taken, ?_, ?_⟩
        · rw [reported, List.map_append, List.map_append, phys, disk, List.append_assoc,
            List.append_assoc]
        · intro Amount _ share
          rw [List.map_append, List.sum_append, shares share, add_comm ((tree.node nodeId).holding share),
            ← add_assoc, balance share]
          exact total_evictNode (accountable_holding share) wf victim.linked victim.leaf
      · exact ⟨[], by simp, by simp⟩

theorem evict_total {tree : RadixTreeInner} (wf : tree.WellFormed) (numBlocks : Nat) :
    ∃ taken : List (BlockId × DiskId),
      (tree.evict numBlocks).1 = (taken.map Prod.fst, taken.map Prod.snd) ∧
      ∀ {Amount : Type} [AddCommMonoid Amount] (share : BlockId → DiskId → Amount),
        (tree.evict numBlocks).2.total (RadixNode.holding share) +
            (taken.map fun pair => share pair.1 pair.2).sum =
          tree.total (RadixNode.holding share) := by
  simp only [evict]
  split
  · exact ⟨[], rfl, by simp⟩
  · exact evictLoop_total numBlocks tree.nodes.length wf [] []

theorem sum_blockShare (pairs : List (BlockId × DiskId)) :
    (pairs.map fun pair => blockShare pair.1 pair.2).sum =
      ((pairs.map Prod.fst : List BlockId) : Multiset BlockId) := by
  induction pairs with
  | nil => rfl
  | cons pair pairs ih =>
    rw [List.map_cons, List.sum_cons, ih]
    rfl

theorem sum_diskShare (pairs : List (BlockId × DiskId)) :
    (pairs.map fun pair => diskShare pair.1 pair.2).sum =
      (((pairs.map Prod.snd).filter (· != u32Max) : List DiskId) : Multiset DiskId) := by
  induction pairs with
  | nil => rfl
  | cons pair pairs ih =>
    rw [List.map_cons, List.sum_cons, ih, List.map_cons, List.filter_cons, diskShare,
      realDisk]
    -- A block without a disk id counts as none, and the filter drops its entry.
    by_cases none : pair.2 = u32Max
    · simp [none]
    · simp [none]

end RadixTreeInner

namespace RadixTree

/-! ## The ledger of a run -/

def Call.gainedBlocks : Call → Multiset BlockId
  | .insert _ acquired => acquired.blocks
  | _ => 0

def Call.lostBlocks : Call → Multiset BlockId
  | .insert _ acquired => acquired.releasedBlocks
  | .evict _ evicted => evicted.physical
  | _ => 0

theorem lookup_total {Amount : Type} [AddCommMonoid Amount] (share : BlockId → DiskId → Amount)
    (inner : RadixTreeInner) (tokens : List Token) (blockSize : Nat) (adapterId : AdapterId) :
    (pinPrefix inner tokens blockSize adapterId).2.total (RadixNode.holding share) =
      inner.total (RadixNode.holding share) := by
  simp only [pinPrefix]
  split
  · exact RadixTreeInner.total_incRefs share _ _ _ _ _
  · rfl

theorem evict_storedBlocks {inner : RadixTreeInner} (wf : inner.WellFormed) (numBlocks : Nat) :
    (evict inner numBlocks).2.storedBlocks + ((evict inner numBlocks).1.physical : Multiset BlockId) =
      inner.storedBlocks := by
  obtain ⟨taken, reported, balance⟩ := RadixTreeInner.evict_total wf numBlocks
  have physical : (evict inner numBlocks).1.physical = taken.map Prod.fst := by
    simp only [evict, reported]
  have blocks := balance blockShare
  rw [RadixTreeInner.sum_blockShare] at blocks
  rw [physical]
  exact blocks

theorem Step.blocks_balance {inner after : RadixTreeInner} {call : Call} (wf : inner.WellFormed)
    (step : Step inner call after) :
    after.storedBlocks + call.lostBlocks = inner.storedBlocks + call.gainedBlocks := by
  cases step with
  | lookup _ => exact congrArg (· + 0) (lookup_total blockShare inner _ _ _)
  | pinPrefix _ => exact congrArg (· + 0) (lookup_total blockShare inner _ _ _)
  | insert stored => exact RadixTreeInner.insert_storedBlocks wf stored
  | release _ => exact congrArg (· + 0) (RadixTreeInner.total_decRefs blockShare inner _ _ _ _)
  | releaseMatched _ => exact congrArg (· + 0) (RadixTreeInner.total_decRefs blockShare inner _ _ _ _)
  | evict => exact (evict_storedBlocks wf _).trans (add_zero _).symm

end RadixTree

end Metrale.Cache
