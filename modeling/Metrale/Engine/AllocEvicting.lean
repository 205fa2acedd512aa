import Metrale.Cache.RadixTree.Eviction
import Metrale.Engine.BlockMgmt

/-! # Allocation that evicts (`alloc_block_evicting` in `model-engine/src/model/block_mgmt.rs`)

An eviction gives up the cache's references only, so it may free no block; the loop goes on while a leaf is
left to take.  The log lines and the disk references are left out. -/

namespace Metrale.Engine

open Metrale.Foundation Metrale.Cache
open RadixTreeInner (Evictable Remains)

/-- The `loop` of `alloc_block_evicting`.  None is a panic, or that the rounds are used up
(`allocBlockEvicting_spec` says that neither happens). -/
def evictUntilAlloc : Nat → RadixTreeInner → PagedKvCache → Option (Option BlockId × RadixTreeInner × PagedKvCache)
  | 0, _, _ => none
  | rounds + 1, tree, pool =>
    match RadixTree.evict tree 1 with
    | (evicted, tree) =>
      if evicted.physical.isEmpty then some (none, tree, pool)
      else do
        let pool ← applyEvictedBlocks evicted pool
        match ← pool.tryAllocBlock with
        | (some block, pool) => some (some block, tree, pool)
        | (none, pool) => evictUntilAlloc rounds tree pool

def allocBlockEvicting (tree : RadixTreeInner) (pool : PagedKvCache) :
    Option (Option BlockId × RadixTreeInner × PagedKvCache) := do
  match ← pool.tryAllocBlock with
  | (some block, pool) => some (some block, tree, pool)
  | (none, pool) => evictUntilAlloc (tree.nodes.length + 1) tree pool

namespace KvSystem

theorem dropRefs_some {pool : PagedKvCache} (consistent : pool.Consistent) {blocks : List BlockId}
    (inRange : ∀ block ∈ blocks, pool.InRange block) : ∃ after, blocks.foldlM PagedKvCache.freeBlock pool = some after := by
  induction blocks generalizing pool with
  | nil => exact ⟨pool, rfl⟩
  | cons block blocks ih =>
    obtain ⟨answer, middle, dropped, consistentMiddle, numBlocks, -⟩ :=
      consistent.dropRef (inRange block List.mem_cons_self)
    have inRangeMiddle : ∀ other ∈ blocks, middle.InRange other := by
      intro other member
      have bound := inRange other (List.mem_cons_of_mem _ member)
      unfold PagedKvCache.InRange at bound ⊢
      rw [consistentMiddle.counted, numBlocks, ← consistent.counted]
      exact bound
    obtain ⟨after, rest⟩ := ih consistentMiddle inRangeMiddle
    refine ⟨after, ?_⟩
    have first : pool.freeBlock block = some middle := by
      simp only [PagedKvCache.freeBlock, PagedKvCache.decRef, dropped, Option.map_some]
    rw [List.foldlM_cons, first]
    exact rest

variable {numBlocks pages : Nat} {system : KvSystem}

theorem Accounted.evict_returns (accounted : Accounted numBlocks system) (pages : Nat) :
    ∃ pool, applyEvictedBlocks (RadixTree.evict system.tree pages).1 system.pool = some pool ∧
      Accounted numBlocks { system with tree := (RadixTree.evict system.tree pages).2, pool } := by
  have balance := RadixTree.evict_storedBlocks accounted.tree pages
  have inRange : ∀ block ∈ (RadixTree.evict system.tree pages).1.physical, system.pool.InRange block := by
    intro block member
    apply PagedKvCache.Consistent.inRange_of_used
    intro unused
    have count := accounted.count block
    have stored := congrArg (Multiset.count block) balance
    have positive := List.count_pos_iff.mpr member
    rw [Multiset.count_add, Multiset.coe_count] at stored
    rw [unused, UInt32.toNat_zero] at count
    omega
  obtain ⟨pool, returned⟩ := dropRefs_some accounted.pool inRange
  exact ⟨pool, returned, accounted.evict returned⟩

/-- The loop's two ends: a block without a reference, or no leaf left. -/
structure Ended (numBlocks : Nat) (system : KvSystem) (answer : Option BlockId) (tree : RadixTreeInner)
    (pool : PagedKvCache) : Prop where
  less : tree.storedBlocks ≤ system.tree.storedBlocks
  found : ∀ block, answer = some block → ∃ before,
    Accounted numBlocks { system with tree, pool := before } ∧ before.tryAllocBlock = some (some block, pool)
  missed : answer = none → Accounted numBlocks { system with tree, pool } ∧ pool.freeBlocks = [] ∧
    (∀ id parent, ¬ Evictable (tree.node id) parent) ∧
    ∀ id parent, Evictable (system.tree.node id) parent →
      tree.storedBlocks + ((system.tree.node id).evictedPhys : Multiset BlockId) ≤ system.tree.storedBlocks

theorem evictUntilAlloc_spec {rounds : Nat} (accounted : Accounted numBlocks system)
    (dry : system.pool.freeBlocks = []) (enough : system.tree.linkedNodes < rounds) :
    ∃ answer tree pool, evictUntilAlloc rounds system.tree system.pool = some (answer, tree, pool) ∧
      Ended numBlocks system answer tree pool := by
  induction rounds generalizing system with
  | zero => exact absurd enough (Nat.not_lt_zero _)
  | succ rounds ih =>
    obtain ⟨returned, applied, kept⟩ := accounted.evict_returns 1
    have lessFirst : (RadixTree.evict system.tree 1).2.storedBlocks ≤ system.tree.storedBlocks := by
      rw [← RadixTree.evict_storedBlocks accounted.tree 1]
      exact Multiset.le_add_right _ _
    obtain ⟨nothing, stuck⟩ | ⟨taken, fewer⟩ := RadixTree.evict_progress accounted.tree 1 Nat.one_pos
    · refine ⟨none, (RadixTree.evict system.tree 1).2, system.pool, ?_, lessFirst, fun _ found => (by cases found), fun _ => ?_⟩
      · simp [evictUntilAlloc, nothing]
      · have same : returned = system.pool := by
          rw [applyEvictedBlocks, nothing] at applied
          exact (Option.some.inj applied).symm
        rw [same] at kept
        refine ⟨kept, dry, stuck, fun id parent leaf => ?_⟩
        obtain ⟨still, -⟩ | gone := RadixTree.evict_remains accounted.tree 1 leaf
        · exact absurd still (stuck id parent)
        · exact gone
    · have nonempty : (RadixTree.evict system.tree 1).1.physical.isEmpty = false := by
        simpa [List.isEmpty_iff] using taken
      obtain ⟨dryMiddle, answered⟩ | ⟨block, after, allocated, -⟩ := kept.pool.tryAllocBlock
      · obtain ⟨answer, tree, pool, looped, ended⟩ := ih kept dryMiddle (by dsimp only; omega)
        refine ⟨answer, tree, pool, ?_, ended.less.trans lessFirst, ended.found, fun missed => ?_⟩
        · have missing : returned.tryAllocBlock = some (none, returned) := answered
          simp only [evictUntilAlloc, nonempty, applied, Option.bind_eq_bind, Option.bind_some, missing]
          exact looped
        · obtain ⟨accountedLast, dryLast, stuck, handed⟩ := ended.missed missed
          refine ⟨accountedLast, dryLast, stuck, fun id parent leaf => ?_⟩
          obtain ⟨still, phys⟩ | gone := RadixTree.evict_remains accounted.tree 1 leaf
          · have later := handed id parent still
            rw [phys] at later
            exact later.trans lessFirst
          · exact (Multiset.add_le_add_right ended.less).trans gone
      · refine ⟨block, (RadixTree.evict system.tree 1).2, after, ?_, lessFirst, fun _ found => ?_, fun missed => (by cases missed)⟩
        · have given : returned.tryAllocBlock = some (some block, after) := allocated
          simp only [evictUntilAlloc, nonempty, applied, Option.bind_eq_bind, Option.bind_some, given]
          rfl
        · obtain rfl := Option.some.inj found
          exact ⟨returned, kept, allocated⟩

/-- Removing a leaf's references frees no block of it when the pool is dry once all leaves are removed. -/
theorem leaf_frees_nothing {tree : RadixTreeInner} {pool returned : PagedKvCache} {id : NodeId}
    (accounted : Accounted numBlocks system) (last : Accounted numBlocks { system with tree, pool })
    (dryFirst : system.pool.freeBlocks = []) (dry : pool.freeBlocks = [])
    (handed : tree.storedBlocks + ((system.tree.node id).evictedPhys : Multiset BlockId) ≤ system.tree.storedBlocks)
    (dropped : (system.tree.node id).evictedPhys.foldlM PagedKvCache.returnEvictedBlock system.pool = some returned) :
    returned.freeBlocks = [] := by
  obtain ⟨consistent, blocks, counts⟩ := dropRefs_count accounted.pool dropped
  apply List.eq_nil_iff_forall_not_mem.mpr
  intro block free
  obtain ⟨below, unused⟩ := (consistent.free_iff block).mp free
  have first := accounted.count block
  have final := last.count block
  have dropCount := counts block
  have handedCount := Multiset.count_le_of_le block handed
  rw [Multiset.count_add, Multiset.coe_count] at handedCount
  rw [unused, UInt32.toNat_zero] at dropCount
  -- What the leaf gives up is all that the block has, so at the end it had nothing either.
  have zero : pool.refCount block = 0 := by
    apply UInt32.toNat_inj.mp
    dsimp only at final
    rw [UInt32.toNat_zero]
    omega
  have addressable : block.toNat < pool.addressable := by
    unfold PagedKvCache.addressable at below ⊢
    rw [blocks, accounted.blocks] at below
    rw [last.blocks]
    exact below
  have member := (last.pool.free_iff block).mpr ⟨addressable, zero⟩
  rw [show ({ system with tree, pool } : KvSystem).pool.freeBlocks = [] from dry] at member
  cases member

/-- A block that is handed out has no reference, neither the tree's nor a sequence's. -/
theorem Accounted.handed_out {block : BlockId} {pool : PagedKvCache} (accounted : Accounted numBlocks system)
    (allocated : system.pool.tryAllocBlock = some (some block, pool)) :
    block ∉ system.tree.storedBlocks ∧ block ∉ system.held ∧ system.pool.refCount block = 0 := by
  obtain ⟨-, missing⟩ | ⟨given, after, same, -, -, unused, -⟩ := accounted.pool.tryAllocBlock
  · rw [allocated] at missing
    cases missing
  rw [allocated] at same
  obtain ⟨rfl, rfl⟩ : block = given ∧ pool = after := by simpa using same
  have count := accounted.count block
  rw [unused, UInt32.toNat_zero] at count
  refine ⟨?_, ?_, unused⟩
  · exact Multiset.count_eq_zero.mp (by omega)
  · exact Multiset.count_eq_zero.mp (by omega)

theorem Accounted.allocEvicting (accounted : Accounted numBlocks system) :
    ∃ answer tree pool, allocBlockEvicting system.tree system.pool = some (answer, tree, pool) ∧
      tree.storedBlocks ≤ system.tree.storedBlocks ∧
      (answer = none → Accounted numBlocks { system with tree, pool }) ∧
      ∀ block, answer = some block → Accounted numBlocks { tree, pool, held := block ::ₘ system.held } ∧
        block ∉ tree.storedBlocks ∧ block ∉ system.held := by
  obtain ⟨dry, answered⟩ | ⟨block, after, allocated, -⟩ := accounted.pool.tryAllocBlock
  · obtain ⟨answer, tree, pool, looped, ended⟩ := evictUntilAlloc_spec accounted dry
      (Nat.lt_succ_of_le system.tree.linkedNodes_le)
    refine ⟨answer, tree, pool, ?_, ended.less, fun missed => (ended.missed missed).1, fun block found => ?_⟩
    · simp only [allocBlockEvicting, answered, Option.bind_eq_bind, Option.bind_some]
      exact looped
    · obtain ⟨before, last, allocated⟩ := ended.found block found
      obtain ⟨unstored, unheld, -⟩ := last.handed_out allocated
      exact ⟨last.alloc allocated, unstored, unheld⟩
  · refine ⟨block, system.tree, after, ?_, le_refl _, fun missed => (by cases missed), fun other found => ?_⟩
    · simp only [allocBlockEvicting, allocated, Option.bind_eq_bind, Option.bind_some]
    · obtain rfl := Option.some.inj found
      obtain ⟨unstored, unheld, -⟩ := accounted.handed_out allocated
      exact ⟨accounted.alloc allocated, unstored, unheld⟩

/-- From every reachable state the allocation returns.  It fails only when no block is free and no leaf would
free one, and the block it returns had no reference and is not stored. -/
theorem alloc_evicting_exact {sharing : Bool} {events : List Event}
    (run : Run Step (new sharing numBlocks) events system) :
    ∃ answer tree pool, allocBlockEvicting system.tree system.pool = some (answer, tree, pool) ∧
      (answer = none → system.pool.freeBlocks = [] ∧ pool.freeBlocks = [] ∧
        (∀ id parent, ¬ Evictable (tree.node id) parent) ∧
        ∀ id parent, Evictable (system.tree.node id) parent → ∀ returned,
          (system.tree.node id).evictedPhys.foldlM PagedKvCache.returnEvictedBlock system.pool = some returned →
          returned.freeBlocks = []) ∧
      ∀ block, answer = some block → block ∉ tree.storedBlocks ∧ block ∉ system.held ∧
        ∃ before : PagedKvCache, before.refCount block = 0 ∧ before.tryAllocBlock = some (some block, pool) := by
  have accounted := Accounted.of_run run
  obtain ⟨dry, answered⟩ | ⟨block, after, allocated, -, -, unused, -⟩ := accounted.pool.tryAllocBlock
  · obtain ⟨answer, tree, pool, looped, ended⟩ := evictUntilAlloc_spec accounted dry
      (Nat.lt_succ_of_le system.tree.linkedNodes_le)
    refine ⟨answer, tree, pool, ?_, fun missed => ?_, fun block found => ?_⟩
    · simp only [allocBlockEvicting, answered, Option.bind_eq_bind, Option.bind_some]
      exact looped
    · obtain ⟨last, dryLast, stuck, handed⟩ := ended.missed missed
      refine ⟨dry, dryLast, stuck, fun id parent leaf returned dropped => ?_⟩
      exact leaf_frees_nothing accounted last dry dryLast (handed id parent leaf) dropped
    · obtain ⟨before, last, allocated⟩ := ended.found block found
      obtain ⟨unstored, unheld, unused⟩ := last.handed_out allocated
      exact ⟨unstored, unheld, before, unused, allocated⟩
  · refine ⟨block, system.tree, after, ?_, fun missed => (by cases missed), fun other found => ?_⟩
    · simp only [allocBlockEvicting, allocated, Option.bind_eq_bind, Option.bind_some]
    · obtain rfl := Option.some.inj found
      obtain ⟨unstored, unheld, -⟩ := accounted.handed_out allocated
      exact ⟨unstored, unheld, system.pool, unused, allocated⟩

/-- The only block is cached and its sequence has ended, so the allocation evicts it. -/
theorem alloc_evicting_exact_cached : ∃ events system, Run Step (new false 1) events system ∧
    (0 : BlockId) ∈ system.tree.storedBlocks ∧
    ∃ tree pool, allocBlockEvicting system.tree system.pool = some (some 0, tree, pool) ∧
      (0 : BlockId) ∉ tree.storedBlocks := by
  have run : ∃ system, Run Step (new false 1)
      [.alloc 0, .call (.insert ⟨[7, 8], [0], [], 2, 2, 0⟩ ⟨[], [0], []⟩), .drop 0] system ∧
      (0 : BlockId) ∈ system.tree.storedBlocks ∧
      (allocBlockEvicting system.tree system.pool).map Prod.fst = some (some 0) := by
    refine ⟨_, .prepend (.alloc rfl) (.prepend (.insert ?_ rfl ?_ rfl) (.single (.drop ?_ rfl))), ?_, rfl⟩
    · simp [new]
    · decide
    · simp
    · decide
  obtain ⟨system, run, stored, given⟩ := run
  obtain ⟨answer, tree, pool, returned, -, found⟩ := alloc_evicting_exact run
  rw [returned] at given
  obtain rfl := Option.some.inj given
  exact ⟨_, system, run, stored, tree, pool, returned, (found 0 rfl).1⟩

end KvSystem

end Metrale.Engine
