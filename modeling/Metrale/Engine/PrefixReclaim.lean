import Metrale.Engine.AllocEvicting

/-! # Reclaiming for one prompt (`model-engine/src/model/prefix_reclaim.rs`)

The full blocks of the prompt's cached prefix are pinned while other leaves are evicted.  A pinned path counts
one more than before, so no eviction prunes it, and giving the pin back restores the counts.  A partial tail
is not pinned. -/

namespace Metrale.Cache

open Metrale.Foundation

namespace RadixTreeInner

variable {tree : RadixTreeInner} {change : RadixNode → RadixNode} {tokens : List Token} {blockSize : Nat}
  {adapterId : AdapterId}

theorem SameLinks.trans {first middle last : RadixNode} (earlier : SameLinks first middle)
    (later : SameLinks middle last) : SameLinks first last where
  children := later.children.trans earlier.children
  parent := later.parent.trans earlier.parent
  parentKey := later.parentKey.trans earlier.parentKey
  blockIdx := later.blockIdx.trans earlier.blockIdx
  contextHash := later.contextHash.trans earlier.contextHash

theorem links_modifyPath (counts : CountChange change) (wf : tree.WellFormed) (remaining i : Nat) (current id : NodeId) :
    SameLinks (tree.node id) ((modifyPath change tokens blockSize remaining i current tree).node id) := by
  induction remaining generalizing i current tree with
  | zero => exact ⟨rfl, rfl, rfl, rfl, rfl⟩
  | succ remaining ih =>
    rw [modifyPath]
    split
    · next child stored =>
      have bound := (wf.childNode stored).1
      exact (sameLinks_modifyNode bound (counts.links _) id).trans
        (ih (counts.modifyNode wf bound) (i + 1) child)
    · exact ⟨rfl, rfl, rfl, rfl, rfl⟩

theorem find_of_links {after : RadixTreeInner} (roots : after.roots = tree.roots)
    (links : ∀ id, SameLinks (tree.node id) (after.node id)) (path : List Chunk) :
    after.find adapterId path = tree.find adapterId path :=
  find_congr roots (fun id key => by simp only [childAt, (links id).children]) adapterId path

theorem roots_modifyPath (remaining i : Nat) (current : NodeId) :
    (modifyPath change tokens blockSize remaining i current tree).roots = tree.roots := by
  induction remaining generalizing i current tree with
  | zero => rfl
  | succ remaining ih =>
    rw [modifyPath]
    split
    · exact ih _ _
    · rfl

end RadixTreeInner

namespace RadixTree

open RadixTreeInner

variable {inner : RadixTreeInner} (wf : inner.WellFormed) (tokens : List Token) (blockSize : Nat) (adapterId : AdapterId)
include wf

theorem find_pinPrefix (other : AdapterId) (path : List Chunk) :
    (pinPrefix inner tokens blockSize adapterId).2.find other path = inner.find other path := by
  have counts : CountChange fun node =>
      { node with refCount := node.refCount + 1, lastAccess := inner.nextAccess.2 } :=
    ⟨fun _ => ⟨rfl, rfl, rfl, rfl, rfl⟩, fun _ => rfl⟩
  have counted : ∀ path, inner.nextAccess.1.find other path = inner.find other path :=
    fun path => @find_congr inner inner.nextAccess.1 rfl (fun _ _ => rfl) other path
  simp only [pinPrefix]
  split
  · unfold incRefs
    cases stored : inner.nextAccess.1.rootForRead adapterId with
    | none =>
      simp only [stored]
      exact counted path
    | some root =>
      simp only [stored]
      refine Eq.trans ?_ (counted path)
      exact find_of_links (roots_modifyPath _ _ _) (links_modifyPath counts wf.nextAccess _ _ _) path
  · rfl

theorem links_releaseMatched (matchedTokens : Nat) (id : NodeId) :
    SameLinks (inner.node id) ((releaseMatched inner tokens blockSize matchedTokens adapterId).node id) ∧
    (releaseMatched inner tokens blockSize matchedTokens adapterId).roots = inner.roots := by
  have counts : CountChange fun node =>
      if node.refCount > 0 then { node with refCount := node.refCount - 1 } else node := by
    constructor
    · intro node
      split <;> exact ⟨rfl, rfl, rfl, rfl, rfl⟩
    · intro node
      split <;> rfl
  simp only [releaseMatched, decRefs]
  cases stored : inner.rootForRead adapterId with
  | none => exact ⟨⟨rfl, rfl, rfl, rfl, rfl⟩, rfl⟩
  | some root => exact ⟨links_modifyPath counts wf _ _ _ id, roots_modifyPath _ _ _⟩

end RadixTree

end Metrale.Cache

namespace Metrale.Engine

open Metrale.Foundation Metrale.Cache
open RadixTreeInner (Evictable)

structure PrefixReclaim where
  target : Nat
  free : Nat

/-- The `while` of `reclaim_for_prompt`.  None is a panic, or that the rounds are used up
(`reclaimUntil_spec` says that neither happens). -/
def reclaimUntil (target : Nat) : Nat → RadixTreeInner → PagedKvCache → Option (RadixTreeInner × PagedKvCache)
  | 0, _, _ => none
  | rounds + 1, tree, pool =>
    if pool.freeBlocks.length < target then
      match RadixTree.evict tree (target - pool.freeBlocks.length) with
      | (evicted, tree) =>
        if evicted.physical.isEmpty then some (tree, pool)
        else do reclaimUntil target rounds tree (← applyEvictedBlocks evicted pool)
    else some (tree, pool)

/-- `blockSize` is `kv.block_size()`. -/
def reclaimForPrompt (tree : RadixTreeInner) (pool : PagedKvCache) (blockSize : Nat) (prompt : List Token)
    (adapterId : AdapterId) (blocksNeeded : Nat) : Option (PrefixReclaim × RadixTreeInner × PagedKvCache) := do
  let (pinned, tree) := RadixTree.pinPrefix tree prompt blockSize adapterId
  let target := blocksNeeded - pinned / blockSize
  let (tree, pool) ← reclaimUntil target (tree.nodes.length + 1) tree pool
  let tree := if pinned > 0 then RadixTree.releaseMatched tree prompt blockSize pinned adapterId else tree
  return (⟨target, pool.freeBlocks.length⟩, tree, pool)

namespace KvSystem

variable {numBlocks target : Nat} {system : KvSystem}

theorem reclaimUntil_spec {rounds : Nat} (accounted : Accounted numBlocks system)
    (enough : system.tree.linkedNodes < rounds) :
    ∃ tree pool, reclaimUntil target rounds system.tree system.pool = some (tree, pool) ∧
      Accounted numBlocks { system with tree, pool } ∧
      PathMap.Pruned RadixTree.Unheld system.tree.cached tree.cached ∧
      tree.partialTailSharing = system.tree.partialTailSharing ∧
      (∀ adapterId path id, tree.find adapterId path = some id → system.tree.find adapterId path = some id) ∧
      (target ≤ pool.freeBlocks.length ∨ ∀ id parent, ¬ Evictable (tree.node id) parent) := by
  induction rounds generalizing system with
  | zero => exact absurd enough (Nat.not_lt_zero _)
  | succ rounds ih =>
    simp only [reclaimUntil]
    split
    · next short =>
      have wanted : 0 < target - system.pool.freeBlocks.length := Nat.sub_pos_of_lt short
      generalize target - system.pool.freeBlocks.length = pages at wanted
      obtain ⟨returned, applied, kept⟩ := accounted.evict_returns pages
      have pruned := (RadixTree.evict_spec accounted.tree pages).2
      have sharing := RadixTree.sharing_evict system.tree pages
      have trails : ∀ adapterId path id, (RadixTree.evict system.tree pages).2.find adapterId path = some id →
          system.tree.find adapterId path = some id :=
        fun _ _ _ found => RadixTreeInner.find_of_find_evict accounted.tree pages found
      obtain ⟨nothing, stuck⟩ | ⟨taken, fewer⟩ := RadixTree.evict_progress accounted.tree pages wanted
      · have same : returned = system.pool := by
          rw [applyEvictedBlocks, nothing] at applied
          exact (Option.some.inj applied).symm
        rw [same] at kept
        refine ⟨_, _, ?_, kept, pruned, sharing, trails, .inr stuck⟩
        simp [nothing]
      · have nonempty : (RadixTree.evict system.tree pages).1.physical.isEmpty = false := by
          simpa [List.isEmpty_iff] using taken
        obtain ⟨tree, pool, looped, accountedLast, prunedLast, sharingLast, trailsLast, ended⟩ :=
          ih kept (by dsimp only; omega)
        refine ⟨tree, pool, ?_, accountedLast, pruned.trans prunedLast, sharingLast.trans sharing, ?_, ended⟩
        · simp only [nonempty, applied]
          exact looped
        · intro adapterId path id found
          exact trails _ _ _ (trailsLast _ _ _ found)
    · next satisfied => exact ⟨_, _, rfl, accounted, .refl, rfl, fun _ _ _ found => found, .inl (Nat.le_of_not_lt satisfied)⟩

/-! ## What the prompt's path keeps -/

variable {before pinned evicted after : RadixTreeInner} {tokens : List Token} {blockSize depth : Nat}
  {adapterId : AdapterId}

/-- The path keeps its entries, and elsewhere entries are at most lost. -/
structure Reclaimed (before after : RadixTreeInner) (tokens : List Token) (blockSize : Nat) (adapterId : AdapterId)
    (depth : Nat) : Prop where
  wellFormed : after.WellFormed
  sharing : after.partialTailSharing = before.partialTailSharing
  trails : ∀ other path id, after.find other path = some id → before.find other path = some id
  path : ∀ path, OnPath tokens blockSize depth path → after.cached adapterId path = before.cached adapterId path
  rest : ∀ other path value, after.cached other path = some value → before.cached other path = some value

theorem reclaimed_cached (used : ∀ path, OnPath tokens blockSize depth path →
      ∃ value, before.cached adapterId path = some value ∧ 0 < value.refs)
    (pin : pinned.cached = RadixTree.acquired before.cached adapterId tokens blockSize depth)
    (pruned : PathMap.Pruned RadixTree.Unheld pinned.cached evicted.cached)
    (release : after.cached = RadixTree.released evicted.cached adapterId tokens blockSize depth) :
    (∀ path, OnPath tokens blockSize depth path → after.cached adapterId path = before.cached adapterId path) ∧
    ∀ other path value, after.cached other path = some value → before.cached other path = some value := by
  have path : ∀ path, OnPath tokens blockSize depth path →
      after.cached adapterId path = before.cached adapterId path := by
    intro path member
    obtain ⟨value, stored, positive⟩ := used path member
    have held : pinned.cached adapterId path = some value.acquire := by
      rw [pin, RadixTree.acquired, PathMap.alter_of_on _ member, stored]
      rfl
    have kept : evicted.cached adapterId path = some value.acquire :=
      pruned.keeps_stored pinned.cached_closed held fun unheld => by
        simp only [RadixTree.Unheld, Cached.acquire] at unheld
        omega
    rw [release, RadixTree.released, PathMap.alter_of_on _ member, kept, stored]
    rfl
  refine ⟨path, fun other trail value stored => ?_⟩
  by_cases member : other = adapterId ∧ OnPath tokens blockSize depth trail
  · obtain ⟨rfl, member⟩ := member
    rw [← path trail member]
    exact stored
  · have unreleased : after.cached other trail = evicted.cached other trail := by
      rw [release, RadixTree.released, PathMap.alter, if_neg member]
    have unpinned : pinned.cached other trail = before.cached other trail := by
      rw [pin, RadixTree.acquired, PathMap.alter, if_neg member]
    rw [unreleased] at stored
    rw [← unpinned]
    exact pruned.restricts stored

namespace Reclaimed

variable (reclaimed : Reclaimed before after tokens blockSize adapterId depth)
include reclaimed

/-- The prompt's match has the same full blocks, and without tail sharing it is the same. -/
theorem walk (positive : 0 < blockSize) (answers : before.Answers tokens blockSize adapterId depth) :
    (after.walk tokens blockSize adapterId).matchedTokens / blockSize = depth ∧
    (after.walk tokens blockSize adapterId).matchedBlocks.take depth =
      (before.walk tokens blockSize adapterId).matchedBlocks.take depth ∧
    (before.partialTailSharing = false →
      (after.walk tokens blockSize adapterId).matchedBlocks = (before.walk tokens blockSize adapterId).matchedBlocks ∧
      (after.walk tokens blockSize adapterId).matchedTokens = (before.walk tokens blockSize adapterId).matchedTokens) := by
  obtain ⟨depthAfter, answersAfter⟩ := RadixTreeInner.walk_longest reclaimed.wellFormed tokens positive adapterId
  have same : depthAfter = depth := by
    apply Nat.le_antisymm
    · refine answers.longest.le_of_reached answersAfter.longest.le_bound fun i below => ?_
      obtain ⟨value, stored, used⟩ := answersAfter.longest.reached i below
      exact ⟨value, reclaimed.rest _ _ _ stored, used⟩
    · refine answersAfter.longest.le_of_reached answers.longest.le_bound fun i below => ?_
      obtain ⟨value, stored, used⟩ := answers.longest.reached i below
      exact ⟨value, (reclaimed.path _ (onPath_of_lt below)).trans stored, used⟩
  subst same
  have blocks : (after.walk tokens blockSize adapterId).matchedBlocks.take depthAfter =
      (before.walk tokens blockSize adapterId).matchedBlocks.take depthAfter := by
    apply List.ext_getElem?
    intro i
    by_cases below : i < depthAfter
    · obtain ⟨value, stored, -, block⟩ := answers.block i below
      obtain ⟨valueAfter, storedAfter, -, blockAfter⟩ := answersAfter.block i below
      rw [reclaimed.path _ (onPath_of_lt below), stored] at storedAfter
      obtain rfl := Option.some.inj storedAfter
      rw [List.getElem?_take_of_lt below, List.getElem?_take_of_lt below, block, blockAfter]
    · rw [List.getElem?_take_eq_none (Nat.le_of_not_lt below), List.getElem?_take_eq_none (Nat.le_of_not_lt below)]
  refine ⟨answersAfter.aligned, blocks, fun plain => ?_⟩
  obtain ⟨tokensBefore, lengthBefore⟩ := answers.exact plain
  obtain ⟨tokensAfter, lengthAfter⟩ := answersAfter.exact (reclaimed.sharing.trans plain)
  rw [List.take_of_length_le (Nat.le_of_eq lengthAfter), List.take_of_length_le (Nat.le_of_eq lengthBefore)] at blocks
  exact ⟨blocks, tokensAfter.trans tokensBefore.symm⟩

theorem refCount {id : NodeId} (linked : (after.node id).parent ≠ none) :
    (after.node id).refCount = (before.node id).refCount := by
  obtain ⟨other, path, found⟩ := reclaimed.wellFormed.reached linked
  have proper := (reclaimed.wellFormed.find_isSome_parent found).mp linked
  have stored := reclaimed.rest _ _ _ (RadixTreeInner.cached_of_find found proper)
  rw [RadixTreeInner.cached_of_find (reclaimed.trails _ _ _ found) proper] at stored
  exact congrArg Cached.refs (Option.some.inj stored).symm

end Reclaimed

theorem release_pin (wf : evicted.WellFormed) (tokens : List Token) (blockSize : Nat) (adapterId : AdapterId)
    {pinned : Nat} (within : pinned ≤ tokens.length) :
    let after := if pinned > 0 then RadixTree.releaseMatched evicted tokens blockSize pinned adapterId else evicted
    after.WellFormed ∧ after.partialTailSharing = evicted.partialTailSharing ∧
    after.cached = RadixTree.released evicted.cached adapterId tokens blockSize (pinned / blockSize) ∧
    (∀ id, RadixTreeInner.SameLinks (evicted.node id) (after.node id)) ∧
    ∀ other path, after.find other path = evicted.find other path := by
  intro after
  by_cases some : pinned > 0
  · have taken : after = RadixTree.releaseMatched evicted tokens blockSize pinned adapterId := if_pos some
    rw [taken]
    obtain ⟨wfAfter, cached⟩ := @RadixTree.releaseMatched_spec _ wf tokens blockSize adapterId pinned
    rw [Nat.min_eq_left (Nat.div_le_div_right within)] at cached
    have links := RadixTree.links_releaseMatched wf tokens blockSize adapterId pinned
    refine ⟨wfAfter, RadixTree.sharing_releaseMatched _ _ _ _ _, cached, fun id => (links id).1, fun other path => ?_⟩
    exact RadixTreeInner.find_of_links (links 0).2 (fun id => (links id).1) path
  · have taken : after = evicted := if_neg some
    rw [taken, Nat.eq_zero_of_not_pos some, Nat.zero_div, RadixTree.released_zero]
    exact ⟨wf, rfl, rfl, fun _ => ⟨rfl, rfl, rfl, rfl, rfl⟩, fun _ _ => rfl⟩

/-- From every reachable state the reclaim returns: the prompt's cached blocks and the counts of the nodes that
are left are as before, and there are blocks enough or only the prompt's own path could still be evicted. -/
theorem reclaim_keeps_prefix {sharing : Bool} {events : List Event} (positive : 0 < blockSize)
    (run : Run Step (new sharing numBlocks) events system) (prompt : List Token) (adapterId : AdapterId)
    (blocksNeeded : Nat) :
    let depth := (system.tree.walk prompt blockSize adapterId).matchedTokens / blockSize
    ∃ reply tree pool,
      reclaimForPrompt system.tree system.pool blockSize prompt adapterId blocksNeeded = some (reply, tree, pool) ∧
      reply.target = blocksNeeded - depth ∧ reply.free = pool.freeBlocks.length ∧
      (tree.walk prompt blockSize adapterId).matchedTokens / blockSize = depth ∧
      (tree.walk prompt blockSize adapterId).matchedBlocks.take depth =
        (system.tree.walk prompt blockSize adapterId).matchedBlocks.take depth ∧
      (system.tree.partialTailSharing = false →
        (tree.walk prompt blockSize adapterId).matchedBlocks =
          (system.tree.walk prompt blockSize adapterId).matchedBlocks ∧
        (tree.walk prompt blockSize adapterId).matchedTokens =
          (system.tree.walk prompt blockSize adapterId).matchedTokens) ∧
      (∀ id, (tree.node id).parent ≠ none → (tree.node id).refCount = (system.tree.node id).refCount) ∧
      (reply.target ≤ reply.free ∨ ∀ id parent, Evictable (tree.node id) parent →
        ∃ i < depth, tree.find adapterId (trail prompt blockSize (i + 1)) = some id) := by
  intro matched
  have accounted := Accounted.of_run run
  obtain ⟨depth, answers, wfPinned, pin⟩ := RadixTree.pinPrefix_spec accounted.tree prompt adapterId positive
  have aligned : matched = depth := answers.aligned
  rw [aligned]
  have accountedPinned := accounted.step
    (.counts (RadixTree.Step.pinPrefix positive) (fun _ _ same => (by cases same)) (fun _ _ same => (by cases same)) :
      Step system (.call (.pinPrefix prompt blockSize adapterId _)) _)
  obtain ⟨evicted, pool, looped, accountedLast, pruned, sharing, trails, ended⟩ :=
    @reclaimUntil_spec numBlocks (blocksNeeded - depth) _ _ accountedPinned
      (Nat.lt_succ_of_le (RadixTreeInner.linkedNodes_le _))
  obtain ⟨wf, sharingAfter, release, links, finds⟩ := release_pin accountedLast.tree prompt blockSize adapterId answers.within
  rw [answers.aligned] at release
  have used : ∀ path, OnPath prompt blockSize depth path →
      ∃ value, system.tree.cached adapterId path = some value ∧ 0 < value.refs := by
    intro path member
    obtain ⟨i, below, rfl⟩ := onPath_iff.mp member
    exact answers.longest.reached i below
  obtain ⟨path, rest⟩ := reclaimed_cached used pin pruned release
  have reclaimed : Reclaimed system.tree _ prompt blockSize adapterId depth :=
    { wellFormed := wf
      sharing := (sharingAfter.trans sharing).trans (RadixTree.sharing_pinPrefix _ _ _ _)
      trails := fun other path id found => by
        rw [finds] at found
        rw [← RadixTree.find_pinPrefix accounted.tree prompt blockSize adapterId]
        exact trails _ _ _ found
      path, rest }
  obtain ⟨alignedAfter, blocks, plain⟩ := reclaimed.walk positive answers
  refine ⟨⟨blocksNeeded - depth, pool.freeBlocks.length⟩, _, pool, ?_, rfl, rfl, alignedAfter, blocks, plain,
    fun id linked => reclaimed.refCount linked, ?_⟩
  · have pinnedTo : (RadixTree.pinPrefix system.tree prompt blockSize adapterId).1 / blockSize = depth := aligned
    simp only [reclaimForPrompt, pinnedTo]
    rw [looped]
    rfl
  · obtain enough | stuck := ended
    · exact .inl enough
    · right
      intro id parent leaf
      obtain ⟨other, trail, found⟩ := wf.reached_of_linked leaf.linked
      have proper := (wf.find_isSome_parent found).mp (by rw [leaf.linked]; exact Option.some_ne_none _)
      by_cases member : other = adapterId ∧ OnPath prompt blockSize depth trail
      · obtain ⟨rfl, member⟩ := member
        obtain ⟨i, below, rfl⟩ := onPath_iff.mp member
        exact ⟨i, below, found⟩
      · -- Off the path the release changes nothing, so the node was a leaf to evict before it.
        exfalso
        have count := RadixTreeInner.cached_of_find found proper
        rw [release, RadixTree.released, PathMap.alter, if_neg member] at count
        rw [finds] at found
        rw [RadixTreeInner.cached_of_find found proper] at count
        have refs := congrArg Cached.refs (Option.some.inj count)
        refine stuck id parent ⟨?_, ?_, ?_, ?_⟩
        · rw [← (links id).parent]
          exact leaf.linked
        · exact (Nat.le_of_eq refs).trans leaf.cold
        · rw [← (links id).children]
          exact leaf.leaf
        · rw [← (links id).blockIdx]
          exact leaf.block

/-- Two prompts of one block are cached, and a third prompt starts with the first of them. -/
theorem reclaim_keeps_prefix_warm : ∃ events system, Run Step (new false 3) events system ∧
    ∃ reply tree pool, reclaimForPrompt system.tree system.pool 2 [1, 2, 9, 9] 0 3 = some (reply, tree, pool) ∧
      (tree.walk [1, 2, 9, 9] 2 0).matchedBlocks = (system.tree.walk [1, 2, 9, 9] 2 0).matchedBlocks ∧
      system.pool.freeBlocks.length < reply.target := by
  have run : ∃ system, Run Step (new false 3)
      [.alloc 0, .call (.insert ⟨[1, 2], [0], [], 2, 2, 0⟩ ⟨[], [0], []⟩), .drop 0,
        .alloc 1, .call (.insert ⟨[5, 6], [1], [], 2, 2, 0⟩ ⟨[], [1], []⟩), .drop 1] system ∧
      system.tree.partialTailSharing = false ∧ system.pool.freeBlocks.length = 1 ∧
      (system.tree.walk [1, 2, 9, 9] 2 0).matchedTokens / 2 = 1 := by
    refine ⟨_, .prepend (.alloc rfl) (.prepend (.insert ?_ rfl ?_ rfl) (.prepend (.drop ?_ rfl)
      (.prepend (.alloc rfl) (.prepend (.insert ?_ rfl ?_ rfl) (.single (.drop ?_ rfl)))))), rfl, rfl, rfl⟩
    · simp [new]
    · decide
    · simp
    · simp
    · decide
    · simp
  obtain ⟨system, run, plain, free, depth⟩ := run
  obtain ⟨reply, tree, pool, returned, target, -, -, -, same, -⟩ :=
    reclaim_keeps_prefix (by decide : 0 < 2) run [1, 2, 9, 9] 0 3
  refine ⟨_, system, run, reply, tree, pool, returned, (same plain).1, ?_⟩
  rw [target, depth, free]
  decide

/-- With tail sharing a prompt may match a part of a leaf, which is not pinned. -/
theorem reclaim_loses_tail : ∃ events system, Run Step (new true 2) events system ∧
    ∃ reply tree pool, reclaimForPrompt system.tree system.pool 2 [1, 2, 3] 0 2 = some (reply, tree, pool) ∧
      (tree.walk [1, 2, 3] 2 0).matchedBlocks ≠ (system.tree.walk [1, 2, 3] 2 0).matchedBlocks := by
  refine ⟨[.alloc 0, .alloc 1, .call (.insert ⟨[1, 2, 3, 4], [0, 1], [], 2, 4, 0⟩ ⟨[], [0, 1], []⟩),
    .drop 0, .drop 1], _, .prepend (.alloc rfl) (.prepend (.alloc rfl) (.prepend (.insert ?_ rfl ?_ rfl)
      (.prepend (.drop ?_ rfl) (.single (.drop ?_ rfl))))), _, _, _, rfl, ?_⟩
  · simp [new]
  · decide
  · simp
  · simp
  · decide

end KvSystem

end Metrale.Engine
