import Metrale.Cache.RadixTree.Inner
import Metrale.Foundation.Runs

/-! # The KV block pool (`kv_cache/paged_impl.rs`)

The reference counts and the free list of `PagedKvCache`.  Counts are `u32` and wrap on addition, as
they do in a release build; an index out of range panics, which is `none`.  The free list's head is
the vector's last element. -/

namespace Metrale.Cache

open Metrale.Foundation

structure PagedKvCache where
  numBlocks : Nat
  freeBlocks : List BlockId
  blockRefCounts : List UInt32

namespace PagedKvCache

/-- `(0..num_blocks as u32).rev().collect()`, with every count at 0. -/
def new (numBlocks : Nat) : PagedKvCache where
  numBlocks := numBlocks
  freeBlocks := (List.range (numBlocks % 2 ^ 32)).map UInt32.ofNat
  blockRefCounts := List.replicate numBlocks 0

def refCount (pool : PagedKvCache) (block : BlockId) : UInt32 :=
  pool.blockRefCounts.getD block.toNat 0

/-- `self.block_ref_counts[block_idx] = count`. -/
def setCount (pool : PagedKvCache) (block : BlockId) (count : UInt32) : PagedKvCache :=
  { pool with blockRefCounts := pool.blockRefCounts.set block.toNat count }

def InRange (pool : PagedKvCache) (block : BlockId) : Prop :=
  block.toNat < pool.blockRefCounts.length

instance (pool : PagedKvCache) (block : BlockId) : Decidable (pool.InRange block) :=
  inferInstanceAs (Decidable (_ < _))

def tryAllocBlock (pool : PagedKvCache) : Option (Option BlockId × PagedKvCache) :=
  match pool.freeBlocks with
  | [] => some (none, pool)
  | block :: freeBlocks =>
    if pool.InRange block then some (some block, { pool.setCount block 1 with freeBlocks }) else none

def allocBlock (pool : PagedKvCache) : Option (Except String BlockId × PagedKvCache) :=
  pool.tryAllocBlock.map fun (answer, pool) =>
    (answer.elim (.error "KV cache exhausted: no free blocks") .ok, pool)

def incRef (pool : PagedKvCache) (block : BlockId) : Option PagedKvCache :=
  if pool.InRange block then some (pool.setCount block (pool.refCount block + 1)) else none

/-- The decrement that `dec_ref` and `return_evicted_block` share: refused at 0, with a push onto the
free list on a 1 to 0 transition. -/
def dropRef (pool : PagedKvCache) (block : BlockId) : Option (Bool × PagedKvCache) :=
  if pool.InRange block then
    if pool.refCount block = 0 then some (false, pool)
    else
      let pool := pool.setCount block (pool.refCount block - 1)
      if pool.refCount block = 0 then
        some (true, { pool with freeBlocks := block :: pool.freeBlocks })
      else some (false, pool)
  else none

def decRef (pool : PagedKvCache) (block : BlockId) : Option (Bool × PagedKvCache) :=
  pool.dropRef block

def freeBlock (pool : PagedKvCache) (block : BlockId) : Option PagedKvCache :=
  (pool.decRef block).map Prod.snd

def freeBlocksOf (pool : PagedKvCache) (blockTable : List BlockId) : Option PagedKvCache :=
  blockTable.foldlM freeBlock pool

def returnEvictedBlock (pool : PagedKvCache) (block : BlockId) : Option PagedKvCache :=
  (pool.dropRef block).map Prod.snd

/-! ## The invariant -/

/-- The blocks that `new` puts on the free list: all of them, below 2^32. -/
def addressable (pool : PagedKvCache) : Nat := pool.numBlocks % 2 ^ 32

structure Consistent (pool : PagedKvCache) : Prop where
  counted : pool.blockRefCounts.length = pool.numBlocks
  freeNodup : pool.freeBlocks.Nodup
  free_iff : ∀ block, block ∈ pool.freeBlocks ↔ block.toNat < pool.addressable ∧ pool.refCount block = 0
  used_lt : ∀ block, pool.refCount block ≠ 0 → block.toNat < pool.addressable
  accounted : pool.freeBlocks.length + pool.blockRefCounts.countP (· != 0) = pool.addressable

theorem refCount_setCount {pool : PagedKvCache} {block : BlockId} (bound : pool.InRange block)
    (count : UInt32) (other : BlockId) :
    (pool.setCount block count).refCount other = if other = block then count else pool.refCount other := by
  simp only [refCount, setCount]
  rw [List.getD_eq_getElem?_getD, List.getD_eq_getElem?_getD]
  by_cases same : other = block
  · rw [same, if_pos rfl, List.getElem?_set_self bound, Option.getD_some]
  · have apart : block.toNat ≠ other.toNat := fun equal => same (UInt32.toNat_inj.mp equal).symm
    rw [if_neg same, List.getElem?_set_ne apart]

theorem countP_setCount {pool : PagedKvCache} {block : BlockId} (bound : pool.InRange block)
    (count : UInt32) :
    (pool.setCount block count).blockRefCounts.countP (· != 0) +
        (if pool.refCount block = 0 then 0 else 1) =
      pool.blockRefCounts.countP (· != 0) + (if count = 0 then 0 else 1) := by
  have stored : pool.refCount block = pool.blockRefCounts.get ⟨block.toNat, bound⟩ := by
    rw [refCount, List.getD_eq_getElem?_getD, List.getElem?_eq_getElem bound]
    rfl
  have member := List.boole_getElem_le_countP (p := fun count : UInt32 => count != 0) bound
  have changed := List.countP_set (p := fun count : UInt32 => count != 0) (a := count) bound
  change (if (pool.blockRefCounts.get ⟨block.toNat, bound⟩ != 0) = true then 1 else 0) ≤ _ at member
  change _ = _ - (if (pool.blockRefCounts.get ⟨block.toNat, bound⟩ != 0) = true then 1 else 0) + _
    at changed
  rw [← stored] at member changed
  rw [setCount, changed]
  by_cases old : pool.refCount block = 0
  · by_cases fresh : count = 0 <;> simp [old, fresh]
  · have live : (pool.refCount block != 0) = true := by simpa using old
    rw [if_pos live] at member ⊢
    by_cases fresh : count = 0
    · simp only [old, fresh, bne_self_eq_false, Bool.false_eq_true, if_true, if_false]
      omega
    · have stays : (count != 0) = true := by simpa using fresh
      simp only [old, fresh, stays, if_true, if_false]
      omega

theorem refCount_new (numBlocks : Nat) (block : BlockId) : (new numBlocks).refCount block = 0 := by
  rw [refCount, List.getD_eq_getElem?_getD]
  by_cases below : block.toNat < numBlocks <;> simp [new, below]

theorem consistent_new (numBlocks : Nat) : (new numBlocks).Consistent where
  counted := by simp [new]
  freeNodup := by
    refine List.Nodup.map_on ?_ List.nodup_range
    intro i below j belowToo same
    rw [List.mem_range] at below belowToo
    have limit : numBlocks % 2 ^ 32 < UInt32.size := Nat.mod_lt _ (by decide)
    have values := congrArg UInt32.toNat same
    rwa [UInt32.toNat_ofNat_of_lt' (Nat.lt_trans below limit),
      UInt32.toNat_ofNat_of_lt' (Nat.lt_trans belowToo limit)] at values
  free_iff := by
    intro block
    have limit : numBlocks % 2 ^ 32 < UInt32.size := Nat.mod_lt _ (by decide)
    rw [refCount_new]
    simp only [and_true, new, addressable, List.mem_map, List.mem_range]
    constructor
    · rintro ⟨i, below, rfl⟩
      rwa [UInt32.toNat_ofNat_of_lt' (Nat.lt_trans below limit)]
    · intro below
      exact ⟨block.toNat, below, UInt32.ofNat_toNat⟩
  used_lt := fun block used => absurd (refCount_new numBlocks block) used
  accounted := by
    rw [new, List.length_map, List.length_range, List.countP_replicate]
    rfl

namespace Consistent

variable {pool : PagedKvCache} (consistent : pool.Consistent)
include consistent

theorem inRange_of_lt {block : BlockId} (below : block.toNat < pool.addressable) : pool.InRange block := by
  rw [InRange, consistent.counted]
  exact Nat.lt_of_lt_of_le below (Nat.mod_le _ _)

omit consistent in
theorem inRange_of_used {block : BlockId} (used : pool.refCount block ≠ 0) : pool.InRange block := by
  by_contra beyond
  apply used
  rw [refCount, List.getD_eq_getElem?_getD, List.getElem?_eq_none (Nat.le_of_not_lt beyond)]
  rfl

theorem setCount {block : BlockId} (used : pool.refCount block ≠ 0) {count : UInt32}
    (stays : count ≠ 0) : (pool.setCount block count).Consistent where
  counted := by simpa [PagedKvCache.setCount] using consistent.counted
  freeNodup := consistent.freeNodup
  free_iff := by
    intro other
    refine (consistent.free_iff other).trans ?_
    rw [refCount_setCount (inRange_of_used used)]
    by_cases same : other = block
    · simp [same, used, stays]
    · rw [if_neg same]
      rfl
  used_lt := by
    intro other usedNow
    rw [refCount_setCount (inRange_of_used used)] at usedNow
    split at usedNow
    · next same => rw [same]; exact consistent.used_lt block used
    · exact consistent.used_lt other usedNow
  accounted := by
    have live := countP_setCount (inRange_of_used used) count
    rw [if_neg used, if_neg stays] at live
    have accounted := consistent.accounted
    simp only [PagedKvCache.setCount, PagedKvCache.addressable] at live accounted ⊢
    omega

theorem popFree {block : BlockId} {freeBlocks : List BlockId} (free : pool.freeBlocks = block :: freeBlocks)
    (below : block.toNat < pool.addressable) (unused : pool.refCount block = 0) :
    ({ pool.setCount block 1 with freeBlocks } : PagedKvCache).Consistent := by
  have bound := consistent.inRange_of_lt below
  have counts := refCount_setCount bound 1
  have nodup := consistent.freeNodup
  rw [free, List.nodup_cons] at nodup
  constructor
  case counted => simpa [PagedKvCache.setCount] using consistent.counted
  case freeNodup => exact nodup.2
  case free_iff =>
    intro other
    have old := consistent.free_iff other
    rw [free, List.mem_cons] at old
    show other ∈ freeBlocks ↔
      other.toNat < pool.addressable ∧ (pool.setCount block 1).refCount other = 0
    rw [counts]
    by_cases same : other = block
    · rw [same, if_pos rfl]
      exact ⟨fun member => absurd member nodup.1, fun fact => absurd fact.2 (by decide)⟩
    · rw [if_neg same]
      simpa [same] using old
  case used_lt =>
    intro other usedNow
    change (pool.setCount block 1).refCount other ≠ 0 at usedNow
    by_cases same : other = block
    · rw [same]; exact below
    · exact consistent.used_lt other (by rwa [counts, if_neg same] at usedNow)
  case accounted =>
    have live := countP_setCount bound 1
    have accounted := consistent.accounted
    rw [if_pos unused, if_neg (by decide)] at live
    rw [free, List.length_cons] at accounted
    simp only [PagedKvCache.setCount, PagedKvCache.addressable] at live accounted ⊢
    omega

theorem pushFree {block : BlockId} (used : pool.refCount block ≠ 0) :
    ({ pool.setCount block 0 with freeBlocks := block :: pool.freeBlocks } : PagedKvCache).Consistent := by
  have bound := inRange_of_used used
  have counts := refCount_setCount bound 0
  have notFree : block ∉ pool.freeBlocks := fun free => used ((consistent.free_iff block).mp free).2
  constructor
  case counted => simpa [PagedKvCache.setCount] using consistent.counted
  case freeNodup => exact List.nodup_cons.mpr ⟨notFree, consistent.freeNodup⟩
  case free_iff =>
    intro other
    have old := consistent.free_iff other
    show other ∈ block :: pool.freeBlocks ↔
      other.toNat < pool.addressable ∧ (pool.setCount block 0).refCount other = 0
    rw [counts, List.mem_cons]
    by_cases same : other = block
    · rw [same, if_pos rfl]
      exact ⟨fun _ => ⟨consistent.used_lt block used, rfl⟩, fun _ => .inl rfl⟩
    · simpa [same] using old
  case used_lt =>
    intro other usedNow
    change (pool.setCount block 0).refCount other ≠ 0 at usedNow
    by_cases same : other = block
    · rw [same]; exact consistent.used_lt block used
    · exact consistent.used_lt other (by rwa [counts, if_neg same] at usedNow)
  case accounted =>
    have live := countP_setCount bound 0
    have accounted := consistent.accounted
    rw [if_neg used, if_pos rfl] at live
    simp only [PagedKvCache.setCount, PagedKvCache.addressable, List.length_cons] at live accounted ⊢
    omega

/-- `alloc_block` and `try_alloc_block` hand out a block without a reference, and only fail on an
empty free list. -/
theorem tryAllocBlock : (pool.freeBlocks = [] ∧ pool.tryAllocBlock = some (none, pool)) ∨
    ∃ block after, pool.tryAllocBlock = some (some block, after) ∧ after.Consistent ∧
      after.numBlocks = pool.numBlocks ∧ pool.refCount block = 0 ∧
      ∀ other, after.refCount other = if other = block then 1 else pool.refCount other := by
  simp only [PagedKvCache.tryAllocBlock]
  cases free : pool.freeBlocks with
  | nil => exact .inl ⟨rfl, rfl⟩
  | cons block freeBlocks =>
    right
    obtain ⟨below, unused⟩ := (consistent.free_iff block).mp (by rw [free]; exact List.mem_cons_self)
    have bound := consistent.inRange_of_lt below
    exact ⟨block, { pool.setCount block 1 with freeBlocks }, if_pos bound,
      consistent.popFree free below unused, rfl, unused, refCount_setCount bound 1⟩

theorem incRef {block : BlockId} (used : pool.refCount block ≠ 0)
    (room : pool.refCount block ≠ u32Max) :
    ∃ after, pool.incRef block = some after ∧ after.Consistent ∧ after.numBlocks = pool.numBlocks ∧
      ∀ other, (after.refCount other).toNat =
        (pool.refCount other).toNat + if other = block then 1 else 0 := by
  have bound := inRange_of_used used
  have grown : (pool.refCount block + 1).toNat = (pool.refCount block).toNat + 1 := by
    have below := UInt32.toNat_lt (pool.refCount block)
    have notMax : (pool.refCount block).toNat ≠ u32Max.toNat := fun same => room (UInt32.toNat_inj.mp same)
    have max : u32Max.toNat = 4294967295 := rfl
    rw [UInt32.toNat_add, UInt32.toNat_one, Nat.mod_eq_of_lt (by omega)]
  refine ⟨_, if_pos bound, consistent.setCount used ?_, rfl, ?_⟩
  · intro zero
    rw [zero] at grown
    cases grown
  · intro other
    rw [refCount_setCount bound]
    split
    · next same => rw [same, grown]
    · rfl

/-- A decrement never puts a block on the free list twice, nor one that is still referenced. -/
theorem dropRef {block : BlockId} (bound : pool.InRange block) :
    ∃ answer after, pool.dropRef block = some (answer, after) ∧ after.Consistent ∧
      after.numBlocks = pool.numBlocks ∧
      ∀ other, (after.refCount other).toNat =
        (pool.refCount other).toNat - if other = block then 1 else 0 := by
  simp only [PagedKvCache.dropRef]
  rw [if_pos bound]
  by_cases unused : pool.refCount block = 0
  · refine ⟨false, pool, if_pos unused, consistent, rfl, ?_⟩
    intro other
    split
    · next same => rw [same, unused]; rfl
    · rfl
  · rw [if_neg unused]
    have counts := refCount_setCount bound (pool.refCount block - 1)
    have shrunk : (pool.refCount block - 1).toNat = (pool.refCount block).toNat - 1 := by
      have positive : (pool.refCount block).toNat ≠ 0 := fun zero => unused (UInt32.toNat_inj.mp zero)
      rw [UInt32.toNat_sub_of_le _ _ (UInt32.le_iff_toNat_le.mpr (by rw [UInt32.toNat_one]; omega)),
        UInt32.toNat_one]
    have values : ∀ other, ((pool.setCount block (pool.refCount block - 1)).refCount other).toNat =
        (pool.refCount other).toNat - if other = block then 1 else 0 := by
      intro other
      rw [counts]
      split
      · next same => rw [same, shrunk]
      · rfl
    by_cases last : pool.refCount block - 1 = 0
    · have decided : (pool.setCount block (pool.refCount block - 1)).refCount block = 0 := by
        rw [counts, if_pos rfl, last]
      exact ⟨true, _, if_pos decided, by rw [last]; exact consistent.pushFree unused, rfl, values⟩
    · have decided : (pool.setCount block (pool.refCount block - 1)).refCount block ≠ 0 := by
        rw [counts, if_pos rfl]
        exact last
      exact ⟨false, _, if_neg decided, consistent.setCount unused last, rfl, values⟩

end Consistent

/-! ## Runs of calls -/

inductive Call where
  | allocBlock (answer : Except String BlockId)
  | tryAllocBlock (answer : Option BlockId)
  | incRef (block : BlockId)
  | decRef (block : BlockId) (answer : Bool)
  | freeBlocks (blockTable : List BlockId)
  | returnEvictedBlock (block : BlockId)

inductive Step : PagedKvCache → Call → PagedKvCache → Prop where
  | allocBlock {pool after : PagedKvCache} {answer : Except String BlockId} :
      pool.allocBlock = some (answer, after) → Step pool (.allocBlock answer) after
  | tryAllocBlock {pool after : PagedKvCache} {answer : Option BlockId} :
      pool.tryAllocBlock = some (answer, after) → Step pool (.tryAllocBlock answer) after
  | incRef {pool after : PagedKvCache} {block : BlockId} :
      pool.refCount block ≠ 0 → pool.incRef block = some after → Step pool (.incRef block) after
  | decRef {pool after : PagedKvCache} {block : BlockId} {answer : Bool} :
      pool.decRef block = some (answer, after) → Step pool (.decRef block answer) after
  | freeBlocks {pool after : PagedKvCache} {blockTable : List BlockId} :
      pool.freeBlocksOf blockTable = some after → Step pool (.freeBlocks blockTable) after
  | returnEvictedBlock {pool after : PagedKvCache} {block : BlockId} :
      pool.returnEvictedBlock block = some after → Step pool (.returnEvictedBlock block) after

/-- The increments that do not wrap. -/
def NoWrap (pool : PagedKvCache) (call : Call) : Prop :=
  ∀ block, call = .incRef block → pool.refCount block ≠ u32Max

theorem noWrap_incRef {pool : PagedKvCache} {block : BlockId} (room : pool.refCount block ≠ u32Max) :
    NoWrap pool (.incRef block) := by
  rintro _ ⟨⟩
  exact room

theorem inRange_of_dropRef {pool after : PagedKvCache} {block : BlockId} {answer : Bool}
    (dropped : pool.dropRef block = some (answer, after)) : pool.InRange block := by
  by_contra beyond
  rw [PagedKvCache.dropRef, if_neg beyond] at dropped
  cases dropped

theorem Consistent.of_dropRef {pool after : PagedKvCache} (consistent : pool.Consistent)
    {block : BlockId} {answer : Bool} (dropped : pool.dropRef block = some (answer, after)) :
    after.Consistent ∧ after.numBlocks = pool.numBlocks := by
  obtain ⟨_, _, same, consistentAfter, blocks, _⟩ := consistent.dropRef (inRange_of_dropRef dropped)
  rw [dropped] at same
  cases same
  exact ⟨consistentAfter, blocks⟩

theorem Consistent.of_tryAllocBlock {pool after : PagedKvCache} (consistent : pool.Consistent)
    {answer : Option BlockId} (allocated : pool.tryAllocBlock = some (answer, after)) :
    after.Consistent ∧ after.numBlocks = pool.numBlocks ∧
      ∀ block, answer = some block → pool.refCount block = 0 := by
  rcases consistent.tryAllocBlock with ⟨_, same⟩ | ⟨block, _, same, consistentAfter, blocks, unused, _⟩
  · rw [allocated] at same
    cases same
    exact ⟨consistent, rfl, fun _ none => by cases none⟩
  · rw [allocated] at same
    cases same
    refine ⟨consistentAfter, blocks, ?_⟩
    rintro _ same
    cases same
    exact unused

theorem Consistent.of_freeBlocksOf {pool after : PagedKvCache} (consistent : pool.Consistent)
    {blockTable : List BlockId} (freed : pool.freeBlocksOf blockTable = some after) :
    after.Consistent ∧ after.numBlocks = pool.numBlocks := by
  induction blockTable generalizing pool with
  | nil =>
    cases freed
    exact ⟨consistent, rfl⟩
  | cons block blockTable ih =>
    rw [freeBlocksOf, List.foldlM_cons] at freed
    obtain ⟨middle, freedOne, rest⟩ := Option.bind_eq_some_iff.mp freed
    obtain ⟨⟨answer, _⟩, dropped, rfl⟩ := Option.map_eq_some_iff.mp freedOne
    obtain ⟨consistentMiddle, blocks⟩ := consistent.of_dropRef dropped
    obtain ⟨consistentAfter, sameBlocks⟩ := ih consistentMiddle rest
    exact ⟨consistentAfter, sameBlocks.trans blocks⟩

theorem Consistent.step {pool after : PagedKvCache} {call : Call} (consistent : pool.Consistent)
    (noWrap : NoWrap pool call) (step : Step pool call after) :
    after.Consistent ∧ after.numBlocks = pool.numBlocks := by
  cases step with
  | allocBlock allocated =>
    obtain ⟨⟨answer, _⟩, allocated, same⟩ := Option.map_eq_some_iff.mp allocated
    cases same
    exact ⟨(consistent.of_tryAllocBlock allocated).1, (consistent.of_tryAllocBlock allocated).2.1⟩
  | tryAllocBlock allocated =>
    exact ⟨(consistent.of_tryAllocBlock allocated).1, (consistent.of_tryAllocBlock allocated).2.1⟩
  | incRef used increased =>
    obtain ⟨_, same, consistentAfter, blocks, _⟩ := consistent.incRef used (noWrap _ rfl)
    rw [increased] at same
    cases same
    exact ⟨consistentAfter, blocks⟩
  | decRef dropped => exact consistent.of_dropRef dropped
  | freeBlocks freed => exact consistent.of_freeBlocksOf freed
  | returnEvictedBlock returned =>
    obtain ⟨⟨answer, _⟩, dropped, rfl⟩ := Option.map_eq_some_iff.mp returned
    exact consistent.of_dropRef dropped

/-- What the pool promises: the free list and the counts describe one partition of the blocks, and
`alloc_block` and `try_alloc_block` answer blocks that nothing references. -/
structure Sound (numBlocks : Nat) (pool : PagedKvCache) : Prop where
  freeNodup : pool.freeBlocks.Nodup
  free_iff : ∀ block, block ∈ pool.freeBlocks ↔ block.toNat < numBlocks ∧ pool.refCount block = 0
  accounted : pool.freeBlocks.length + pool.blockRefCounts.countP (· != 0) = numBlocks
  allocated : ∀ block after, pool.allocBlock = some (.ok block, after) → pool.refCount block = 0
  tryAllocated : ∀ block after, pool.tryAllocBlock = some (some block, after) → pool.refCount block = 0

theorem Consistent.sound {pool : PagedKvCache} (consistent : pool.Consistent) :
    Sound pool.addressable pool where
  freeNodup := consistent.freeNodup
  free_iff := consistent.free_iff
  accounted := consistent.accounted
  allocated := by
    intro block after allocated
    obtain ⟨⟨answer, _⟩, popped, same⟩ := Option.map_eq_some_iff.mp allocated
    cases answer with
    | none => cases same
    | some other =>
      cases same
      exact (consistent.of_tryAllocBlock popped).2.2 block rfl
  tryAllocated := by
    intro block after allocated
    exact (consistent.of_tryAllocBlock allocated).2.2 block rfl

theorem incRef_single (count : UInt32) :
    (PagedKvCache.mk 1 [] [count]).incRef 0 = some ⟨1, [], [count + 1]⟩ := rfl

theorem run_incRefs (times : Nat) (bound : times < 2 ^ 32) :
    Run Step ⟨1, [], [1]⟩ (List.replicate times (.incRef 0)) ⟨1, [], [UInt32.ofNat (times + 1)]⟩ := by
  induction times with
  | zero => exact .start
  | succ times ih =>
    have used : UInt32.ofNat (times + 1) ≠ 0 := by
      intro zero
      have values := congrArg UInt32.toNat zero
      rw [UInt32.toNat_ofNat_of_lt' bound] at values
      cases values
    rw [List.replicate_succ', UInt32.ofNat_add (times + 1)]
    exact .extend (ih (Nat.lt_of_succ_lt bound)) (.incRef used (incRef_single _))

/-- One block, taken and then shared 2^32 - 1 times: its count wraps to 0 and it is on no free list.
Nor is a fresh pool of 2^32 blocks sound: its free list is empty. -/
theorem wrapped_count_unsound : (∃ pool,
    Run Step (new 1) (.allocBlock (.ok 0) :: List.replicate 4294967295 (.incRef 0)) pool ∧
    pool.refCount 0 = 0 ∧ 0 ∉ pool.freeBlocks ∧ ¬ Sound 1 pool) ∧
    ¬ Sound (2 ^ 32) (new (2 ^ 32)) := by
  constructor
  case right =>
    intro sound
    have accounted := sound.accounted
    rw [(consistent_new (2 ^ 32)).accounted] at accounted
    exact absurd accounted (by decide)
  have zero : (PagedKvCache.mk 1 [] [UInt32.ofNat (4294967295 + 1)]).refCount 0 = 0 := by decide
  have absent : (0 : BlockId) ∉ ([] : List BlockId) := List.not_mem_nil
  refine ⟨_, .prepend (.allocBlock rfl) (run_incRefs 4294967295 (by decide)), zero, absent, ?_⟩
  intro sound
  exact absent ((sound.free_iff 0).mpr ⟨by decide, zero⟩)

/-- Every run from a fresh pool whose increments do not wrap keeps the pool sound. -/
theorem run_sound {numBlocks : Nat} (addressable : numBlocks < 2 ^ 32) {calls : List Call}
    {pool : PagedKvCache} (run : Run (Guarded NoWrap Step) (new numBlocks) calls pool) :
    Sound numBlocks pool := by
  have kept := by
    refine run.guarded_invariant (fun pool => pool.Consistent ∧ pool.numBlocks = numBlocks)
      ⟨consistent_new numBlocks, rfl⟩ ?_
    rintro before call after ⟨consistent, blocks⟩ noWrap step
    obtain ⟨consistentAfter, sameBlocks⟩ := consistent.step noWrap step
    exact ⟨consistentAfter, sameBlocks.trans blocks⟩
  have sound := kept.1.sound
  rwa [PagedKvCache.addressable, kept.2, Nat.mod_eq_of_lt addressable] at sound

/-- A pool of two blocks: one is shared, given back twice, and taken again. -/
theorem run_sound_shared : ∃ calls pool, calls.length = 5 ∧
    Run (Guarded NoWrap Step) (new 2) calls pool ∧ Sound 2 pool := by
  have run : Run (Guarded NoWrap Step) (new 2)
      [.allocBlock (.ok 0), .incRef 0, .decRef 0 false, .returnEvictedBlock 0, .tryAllocBlock (some 0)]
      ⟨2, [1], [1, 0]⟩ :=
    .prepend ⟨by simp [NoWrap], .allocBlock rfl⟩ <|
    .prepend ⟨noWrap_incRef (by decide), .incRef (by decide) rfl⟩ <|
    .prepend ⟨by simp [NoWrap], .decRef rfl⟩ <|
    .prepend ⟨by simp [NoWrap], .returnEvictedBlock rfl⟩ <|
    .single ⟨by simp [NoWrap], .tryAllocBlock rfl⟩
  exact ⟨_, _, rfl, run, run_sound (by decide) run⟩

end PagedKvCache

end Metrale.Cache
