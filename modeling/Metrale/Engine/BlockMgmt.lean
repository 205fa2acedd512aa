import Metrale.Cache.KvPool
import Metrale.Cache.RadixTree.Conservation

/-! # The tree and the block pool together (`model-engine/src/model/block_mgmt.rs`)

The engine turns what the tree reports into pool references: `cache_acquires_refs` after an insert,
`apply_evicted_blocks` after an eviction.  `held` are the references that sequences own, one for each
entry of their block tables.  The invariant is an account: each block's count is the references the
tree stores it for, and those that are held. -/

namespace Metrale.Engine

open Metrale.Foundation Metrale.Cache
open RadixTreeInner (InsertArgs InsertAcquired)

/-- The pool half of `cache_acquires_refs`: acquire before release. -/
def cacheAcquiresRefs (acquired : InsertAcquired) (pool : PagedKvCache) : Option PagedKvCache := do
  let pool ← acquired.blocks.foldlM PagedKvCache.incRef pool
  acquired.releasedBlocks.foldlM PagedKvCache.freeBlock pool

/-- The pool half of `apply_evicted_blocks`. -/
def applyEvictedBlocks (evicted : EvictedBlocks) (pool : PagedKvCache) : Option PagedKvCache :=
  evicted.physical.foldlM PagedKvCache.returnEvictedBlock pool

structure KvSystem where
  tree : RadixTreeInner
  pool : PagedKvCache
  held : Multiset BlockId

namespace KvSystem

def new (sharing : Bool) (numBlocks : Nat) : KvSystem where
  tree := RadixTreeInner.new sharing
  pool := PagedKvCache.new numBlocks
  held := 0

/-- Taking the references in `blocks` wraps no count. -/
def Room (pool : PagedKvCache) (blocks : List BlockId) : Prop :=
  ∀ block ∈ blocks, (pool.refCount block).toNat + blocks.count block < 2 ^ 32

instance (pool : PagedKvCache) (blocks : List BlockId) : Decidable (Room pool blocks) :=
  List.decidableBAll _ blocks

inductive Event where
  | alloc (block : BlockId)
  | share (block : BlockId)
  | drop (block : BlockId)
  | call (call : RadixTree.Call)

/-- The engine's steps.  A sequence shares and gives back blocks it holds, and inserts a block table
it holds; the cache's references are taken and dropped as the tree reports. -/
inductive Step : KvSystem → Event → KvSystem → Prop where
  | alloc {system : KvSystem} {block : BlockId} {pool : PagedKvCache} :
      system.pool.tryAllocBlock = some (some block, pool) →
      Step system (.alloc block) { system with pool, held := block ::ₘ system.held }
  | share {system : KvSystem} {block : BlockId} {pool : PagedKvCache} :
      block ∈ system.held → Room system.pool [block] → system.pool.incRef block = some pool →
      Step system (.share block) { system with pool, held := block ::ₘ system.held }
  | drop {system : KvSystem} {block : BlockId} {pool : PagedKvCache} :
      block ∈ system.held → system.pool.freeBlock block = some pool →
      Step system (.drop block) { system with pool, held := system.held.erase block }
  | insert {system : KvSystem} {args : InsertArgs} {acquired : InsertAcquired} {tree : RadixTreeInner}
      {pool : PagedKvCache} :
      (∀ block ∈ args.blockTable, block ∈ system.held) →
      RadixTree.insert system.tree args = some (acquired, tree) → Room system.pool acquired.blocks →
      cacheAcquiresRefs acquired system.pool = some pool →
      Step system (.call (.insert args acquired)) { system with tree, pool }
  | evict {system : KvSystem} {numBlocks : Nat} {pool : PagedKvCache} :
      applyEvictedBlocks (RadixTree.evict system.tree numBlocks).1 system.pool = some pool →
      Step system (.call (.evict numBlocks (RadixTree.evict system.tree numBlocks).1))
        { system with tree := (RadixTree.evict system.tree numBlocks).2, pool }
  | counts {system : KvSystem} {call : RadixTree.Call} {tree : RadixTreeInner} :
      RadixTree.Step system.tree call tree →
      (∀ args acquired, call ≠ .insert args acquired) →
      (∀ numBlocks evicted, call ≠ .evict numBlocks evicted) →
      Step system (.call call) { system with tree }

structure Accounted (numBlocks : Nat) (system : KvSystem) : Prop where
  tree : system.tree.WellFormed
  pool : system.pool.Consistent
  blocks : system.pool.numBlocks = numBlocks
  count : ∀ block, (system.pool.refCount block).toNat =
    system.tree.storedBlocks.count block + system.held.count block

/-! ## Folding references -/

theorem incRefs_count {pool after : PagedKvCache} (consistent : pool.Consistent) {blocks : List BlockId}
    (used : ∀ block ∈ blocks, pool.refCount block ≠ 0) (room : Room pool blocks)
    (taken : blocks.foldlM PagedKvCache.incRef pool = some after) :
    after.Consistent ∧ after.numBlocks = pool.numBlocks ∧
      ∀ block, (after.refCount block).toNat = (pool.refCount block).toNat + blocks.count block := by
  induction blocks generalizing pool with
  | nil =>
    cases taken
    exact ⟨consistent, rfl, fun _ => rfl⟩
  | cons block blocks ih =>
    rw [List.foldlM_cons] at taken
    obtain ⟨middle, first, rest⟩ := Option.bind_eq_some_iff.mp taken
    have notMax : pool.refCount block ≠ u32Max := by
      intro max
      have limit := room block List.mem_cons_self
      rw [max, List.count_cons_self] at limit
      have value : u32Max.toNat = 4294967295 := rfl
      omega
    obtain ⟨_, same, consistentMiddle, blocksMiddle, counts⟩ :=
      consistent.incRef (used block List.mem_cons_self) notMax
    rw [first] at same
    cases same
    have summed : ∀ other, (middle.refCount other).toNat + blocks.count other =
        (pool.refCount other).toNat + (block :: blocks).count other := by
      intro other
      rw [counts, List.count_cons]
      by_cases equal : other = block
      · simp only [equal, if_true, beq_self_eq_true]
        omega
      · simp only [equal, Ne.symm equal, if_false, beq_iff_eq]
        omega
    have usedMiddle : ∀ other ∈ blocks, middle.refCount other ≠ 0 := by
      intro other member zero
      have old := used other (List.mem_cons_of_mem _ member)
      have value := counts other
      rw [zero] at value
      exact old (UInt32.toNat_inj.mp (Nat.eq_zero_of_add_eq_zero_right value.symm))
    have roomMiddle : Room middle blocks := by
      intro other member
      rw [summed]
      exact room other (List.mem_cons_of_mem _ member)
    obtain ⟨consistentAfter, blocksAfter, countsAfter⟩ :=
      ih consistentMiddle usedMiddle roomMiddle rest
    refine ⟨consistentAfter, blocksAfter.trans blocksMiddle, ?_⟩
    intro other
    rw [countsAfter, summed]

theorem dropRefs_count {pool after : PagedKvCache} (consistent : pool.Consistent) {blocks : List BlockId}
    (dropped : blocks.foldlM PagedKvCache.freeBlock pool = some after) :
    after.Consistent ∧ after.numBlocks = pool.numBlocks ∧
      ∀ block, (after.refCount block).toNat = (pool.refCount block).toNat - blocks.count block := by
  induction blocks generalizing pool with
  | nil =>
    cases dropped
    exact ⟨consistent, rfl, fun _ => rfl⟩
  | cons block blocks ih =>
    rw [List.foldlM_cons] at dropped
    obtain ⟨middle, first, rest⟩ := Option.bind_eq_some_iff.mp dropped
    obtain ⟨⟨answer, _⟩, one, rfl⟩ := Option.map_eq_some_iff.mp first
    obtain ⟨_, _, same, consistentMiddle, blocksMiddle, counts⟩ :=
      consistent.dropRef (PagedKvCache.inRange_of_dropRef one)
    rw [PagedKvCache.decRef] at one
    rw [one] at same
    cases same
    obtain ⟨consistentAfter, blocksAfter, countsAfter⟩ := ih consistentMiddle rest
    refine ⟨consistentAfter, blocksAfter.trans blocksMiddle, ?_⟩
    intro other
    rw [countsAfter, counts, List.count_cons]
    by_cases equal : other = block
    · simp only [equal, if_true, beq_self_eq_true]
      omega
    · simp only [equal, Ne.symm equal, if_false, beq_iff_eq]
      omega

/-! ## Steps -/

theorem storedBlocks_of_counts {tree after : RadixTreeInner} {call : RadixTree.Call}
    (wf : tree.WellFormed) (step : RadixTree.Step tree call after)
    (noInsert : ∀ args acquired, call ≠ .insert args acquired)
    (noEvict : ∀ numBlocks evicted, call ≠ .evict numBlocks evicted) :
    after.storedBlocks = tree.storedBlocks := by
  have balance := step.blocks_balance wf
  cases call with
  | insert args acquired => exact absurd rfl (noInsert args acquired)
  | evict numBlocks evicted => exact absurd rfl (noEvict numBlocks evicted)
  | lookup => simpa [RadixTree.Call.lostBlocks, RadixTree.Call.gainedBlocks] using balance
  | pinPrefix => simpa [RadixTree.Call.lostBlocks, RadixTree.Call.gainedBlocks] using balance
  | release => simpa [RadixTree.Call.lostBlocks, RadixTree.Call.gainedBlocks] using balance
  | releaseMatched => simpa [RadixTree.Call.lostBlocks, RadixTree.Call.gainedBlocks] using balance

namespace Accounted

variable {numBlocks : Nat} {system : KvSystem} (accounted : Accounted numBlocks system)
include accounted

theorem used {block : BlockId} (held : block ∈ system.held) : system.pool.refCount block ≠ 0 := by
  intro zero
  have value := accounted.count block
  have positive := Multiset.count_pos.mpr held
  rw [zero, UInt32.toNat_zero] at value
  omega

theorem alloc {block : BlockId} {pool : PagedKvCache}
    (allocated : system.pool.tryAllocBlock = some (some block, pool)) :
    Accounted numBlocks { system with pool, held := block ::ₘ system.held } := by
  obtain ⟨wf, consistent, blocks, count⟩ := accounted
  obtain ⟨_, same⟩ | ⟨_, _, same, consistentAfter, blocksAfter, unused, counts⟩ := consistent.tryAllocBlock
  · rw [allocated] at same
    cases same
  rw [allocated] at same
  cases same
  refine ⟨wf, consistentAfter, blocksAfter.trans blocks, fun other => ?_⟩
  rw [counts, Multiset.count_cons]
  by_cases equal : other = block
  · have value := count other
    rw [equal, unused] at value
    simp only [equal, if_true]
    rw [← Nat.add_assoc, ← value]
    rfl
  · simp only [equal, if_false]
    exact count other

theorem share {block : BlockId} {pool : PagedKvCache} (held : block ∈ system.held)
    (room : Room system.pool [block]) (increased : system.pool.incRef block = some pool) :
    Accounted numBlocks { system with pool, held := block ::ₘ system.held } := by
  have single : [block].foldlM PagedKvCache.incRef system.pool = some pool := by
    rw [List.foldlM_cons, increased]
    rfl
  obtain ⟨consistentAfter, blocksAfter, counts⟩ := incRefs_count accounted.pool
    (fun other member => by rw [List.mem_singleton.mp member]; exact accounted.used held) room single
  refine ⟨accounted.tree, consistentAfter, blocksAfter.trans accounted.blocks, fun other => ?_⟩
  rw [counts, accounted.count, Multiset.count_cons, List.count_singleton]
  by_cases equal : other = block
  · simp only [equal, beq_self_eq_true, if_true, Nat.add_assoc]
  · simp only [equal, beq_iff_eq, Ne.symm equal, if_false, Nat.add_zero]

theorem drop {block : BlockId} {pool : PagedKvCache} (held : block ∈ system.held)
    (dropped : system.pool.freeBlock block = some pool) :
    Accounted numBlocks { system with pool, held := system.held.erase block } := by
  have single : [block].foldlM PagedKvCache.freeBlock system.pool = some pool := by
    rw [List.foldlM_cons, dropped]
    rfl
  obtain ⟨consistentAfter, blocksAfter, counts⟩ := dropRefs_count accounted.pool single
  refine ⟨accounted.tree, consistentAfter, blocksAfter.trans accounted.blocks, fun other => ?_⟩
  have positive := Multiset.count_pos.mpr held
  rw [counts, accounted.count, List.count_singleton]
  by_cases equal : other = block
  · simp only [equal, beq_self_eq_true, if_true, Multiset.count_erase_self]
    omega
  · simp only [Multiset.count_erase_of_ne equal, beq_iff_eq, Ne.symm equal, if_false]
    rfl

/-- What the tree gains in an insert, the pool has counted before it drops what the tree lost. -/
theorem insert {args : InsertArgs} {acquired : InsertAcquired} {tree : RadixTreeInner} {pool : PagedKvCache}
    (tableHeld : ∀ block ∈ args.blockTable, block ∈ system.held)
    (inserted : RadixTree.insert system.tree args = some (acquired, tree))
    (room : Room system.pool acquired.blocks) (referenced : cacheAcquiresRefs acquired system.pool = some pool) :
    Accounted numBlocks { system with tree, pool } := by
  obtain ⟨middle, taken, dropped⟩ := Option.bind_eq_some_iff.mp referenced
  have balance := RadixTreeInner.insert_storedBlocks accounted.tree inserted
  obtain ⟨consistentMiddle, blocksMiddle, countsMiddle⟩ := incRefs_count accounted.pool
    (fun block member =>
      accounted.used (tableHeld block (RadixTreeInner.insert_blocks_mem inserted block member)))
    room taken
  obtain ⟨consistentAfter, blocksAfter, countsAfter⟩ := dropRefs_count consistentMiddle dropped
  refine ⟨(RadixTree.insert_spec accounted.tree inserted).1, consistentAfter,
    (blocksAfter.trans blocksMiddle).trans accounted.blocks, fun block => ?_⟩
  have balanced := congrArg (Multiset.count block) balance
  rw [Multiset.count_add, Multiset.count_add, Multiset.coe_count, Multiset.coe_count] at balanced
  rw [countsAfter, countsMiddle, accounted.count]
  dsimp only
  omega

theorem evict {pages : Nat} {pool : PagedKvCache}
    (returned : applyEvictedBlocks (RadixTree.evict system.tree pages).1 system.pool = some pool) :
    Accounted numBlocks { system with tree := (RadixTree.evict system.tree pages).2, pool } := by
  have balance := RadixTree.evict_storedBlocks accounted.tree pages
  obtain ⟨consistentAfter, blocksAfter, counts⟩ := dropRefs_count accounted.pool returned
  refine ⟨(RadixTree.evict_spec accounted.tree pages).1, consistentAfter,
    blocksAfter.trans accounted.blocks, fun block => ?_⟩
  have balanced := congrArg (Multiset.count block) balance
  rw [Multiset.count_add, Multiset.coe_count] at balanced
  rw [counts, accounted.count]
  dsimp only
  omega

theorem step {event : Event} {after : KvSystem} (step : Step system event after) :
    Accounted numBlocks after := by
  cases step with
  | alloc allocated => exact accounted.alloc allocated
  | share held room increased => exact accounted.share held room increased
  | drop held dropped => exact accounted.drop held dropped
  | insert tableHeld inserted room referenced => exact accounted.insert tableHeld inserted room referenced
  | evict returned => exact accounted.evict returned
  | counts called noInsert noEvict =>
    refine ⟨called.wellFormed accounted.tree, accounted.pool, accounted.blocks, ?_⟩
    dsimp only
    rw [storedBlocks_of_counts accounted.tree called noInsert noEvict]
    exact accounted.count

end Accounted

theorem accounted_new (sharing : Bool) (numBlocks : Nat) : Accounted numBlocks (new sharing numBlocks) where
  tree := RadixTreeInner.WellFormed.new sharing
  pool := PagedKvCache.consistent_new numBlocks
  blocks := rfl
  count := by
    intro block
    rw [new, PagedKvCache.refCount_new]
    rfl

theorem Accounted.of_run {sharing : Bool} {numBlocks : Nat} {events : List Event} {system : KvSystem}
    (run : Run Step (new sharing numBlocks) events system) : Accounted numBlocks system :=
  run.invariant _ (accounted_new sharing numBlocks) fun _ _ _ accounted step => accounted.step step

/-- A block the tree stores carries the cache's references beside those that are held, and is not on
the free list. -/
theorem Accounted.stored {numBlocks : Nat} {system : KvSystem} (accounted : Accounted numBlocks system)
    {block : BlockId} (stored : block ∈ system.tree.storedBlocks) :
    system.held.count block < (system.pool.refCount block).toNat ∧ block ∉ system.pool.freeBlocks := by
  have positive := Multiset.count_pos.mpr stored
  have count := accounted.count block
  refine ⟨by omega, ?_⟩
  intro free
  have unused := ((accounted.pool.free_iff block).mp free).2
  rw [unused, UInt32.toNat_zero] at count
  omega

/-- KV blocks are conserved: each call moves what the tree stores by what it reports, and over any
run of the engine's steps each stored block carries one reference for each time it is stored. -/
theorem kvBlocks_conserved :
    (∀ sharing calls tree call after, Run RadixTree.Step (RadixTreeInner.new sharing) calls tree →
      RadixTree.Step tree call after →
      after.storedBlocks + call.lostBlocks = tree.storedBlocks + call.gainedBlocks) ∧
    (∀ sharing numBlocks events system, Run Step (new sharing numBlocks) events system →
      ∀ block ∈ system.tree.storedBlocks,
        (system.pool.refCount block).toNat =
          system.tree.storedBlocks.count block + system.held.count block ∧
        system.held.count block < (system.pool.refCount block).toNat ∧
        block ∉ system.pool.freeBlocks) := by
  constructor
  · intro sharing calls tree call after run step
    exact step.blocks_balance (RadixTree.run_wellFormed run)
  · intro sharing numBlocks events system run block stored
    have accounted := Accounted.of_run run
    exact ⟨accounted.count block, accounted.stored stored⟩

/-- A sequence caches its one block and ends. -/
theorem kvBlocks_conserved_cached : ∃ events system, Run Step (new false 2) events system ∧
    system.held = 0 ∧ (0 : BlockId) ∈ system.tree.storedBlocks ∧
    (0 : BlockId) ∉ system.pool.freeBlocks := by
  have run : ∃ system, Run Step (new false 2)
      [.alloc 0, .call (.insert ⟨[7, 8], [0], [], 2, 0, 0⟩ ⟨[], [0], []⟩), .drop 0] system ∧
      system.held = 0 ∧ (0 : BlockId) ∈ system.tree.storedBlocks := by
    refine ⟨_, .prepend (.alloc rfl) (.prepend (.insert ?_ rfl ?_ rfl)
      (.single (.drop ?_ rfl))), ?_, ?_⟩
    · simp [new]
    · decide
    · simp
    · simp [new]
    · decide
  obtain ⟨system, run, held, stored⟩ := run
  exact ⟨_, system, run, held, stored, (kvBlocks_conserved.2 _ _ _ _ run 0 stored).2.2⟩

end KvSystem

end Metrale.Engine
