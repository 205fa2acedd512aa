import Metrale.Foundation.ByteMemory
import Metrale.Foundation.SlotTable
import Metrale.Storage.Tier

/-! # The scratch pool and its eviction order (`scratch_pool.rs`, `eviction.rs`)

A slot of the pool holds one block's K and V stripes for every KV head.  The front of the free list is the
head here, and pointers are offsets from the pool's.  Predictor scores are of any type that may fail to
compare two of them. -/

namespace Metrale.Storage

open Metrale.Foundation

structure ResidentKey where
  layer : UInt32
  block : UInt32
deriving DecidableEq

structure ScratchDims where
  numSlots : Nat
  numKvHeads : Nat
  groupStride : Nat

def ScratchDims.slotBytes (dims : ScratchDims) : Nat := 2 * dims.numKvHeads * dims.groupStride

structure ScratchPool where
  dims : ScratchDims
  pool : Memory UInt8
  residents : List (Option ResidentKey)
  lookup : HashMap ResidentKey Nat
  freeList : List Nat

namespace ScratchPool

def new (dims : ScratchDims) (pool : Memory UInt8) : Except Error ScratchPool :=
  if dims.numSlots = 0 then .error "ScratchPool requires at least one slot"
  else .ok
    { dims, pool
      residents := .replicate dims.numSlots none
      lookup := ∅
      freeList := List.range dims.numSlots }

def slotDevPtr (pool : ScratchPool) (slot : Nat) : Nat := slot * pool.dims.slotBytes

def slotKPtr (pool : ScratchPool) (slot kvHead : Nat) : Nat :=
  pool.slotDevPtr slot + kvHead * pool.dims.groupStride

def slotVPtr (pool : ScratchPool) (slot kvHead : Nat) : Nat :=
  pool.slotDevPtr slot + (pool.dims.numKvHeads + kvHead) * pool.dims.groupStride

def invalidate (pool : ScratchPool) (key : ResidentKey) : ScratchPool :=
  match pool.lookup.lookup key with
  | some slot =>
    { pool with
      lookup := pool.lookup.erase key
      residents := pool.residents.set slot none
      freeList := pool.freeList ++ [slot] }
  | none => pool

def assign (pool : ScratchPool) (key : ResidentKey) (evictCandidates : List Nat) :
    Except Error Nat × ScratchPool :=
  match pool.lookup.lookup key with
  | some slot => (.ok slot, pool)
  | none =>
    match pool.freeList with
    | slot :: freeList =>
      (.ok slot,
        { pool with
          freeList
          residents := pool.residents.set slot (some key)
          lookup := pool.lookup.insert key slot })
    | [] =>
      match evictCandidates.find? fun candidate => (pool.residents.getD candidate none).isSome with
      | none => (.error "no slot available and no eviction candidate is resident", pool)
      | some slot =>
        let lookup :=
          match pool.residents.getD slot none with
          | some prev => pool.lookup.erase prev
          | none => pool.lookup
        (.ok slot,
          { pool with
            residents := pool.residents.set slot (some key)
            lookup := lookup.insert key slot })

/-! ## The slots and their keys -/

/-- `lookup[k] == s` exactly when `residents[s] == Some(k)`, and the other slots are free. -/
def table (pool : ScratchPool) : SlotTable ResidentKey :=
  { bound := pool.dims.numSlots, lookup := pool.lookup, keys := pool.residents, free := pool.freeList }

abbrev Consistent (pool : ScratchPool) : Prop := pool.table.Consistent none

variable {pool after : ScratchPool} {key other : ResidentKey} {slot : Nat} {candidates : List Nat}

theorem new_consistent {dims : ScratchDims} {memory : Memory UInt8} (created : new dims memory = .ok pool) :
    pool.Consistent ∧ pool.lookup = ∅ ∧ pool.dims = dims := by
  simp only [new] at created
  split at created
  · cases created
  · cases created
    exact ⟨SlotTable.start_consistent dims.numSlots, rfl, rfl⟩

theorem invalidate_consistent (consistent : pool.Consistent) : (pool.invalidate key).Consistent := by
  simp only [invalidate]
  split
  · next slot resident =>
    exact (consistent.evict resident).put.reorder (List.perm_append_singleton slot pool.freeList).symm
  · exact consistent

theorem invalidate_lookup : (pool.invalidate key).lookup.lookup other =
    if other = key then none else pool.lookup.lookup other := by
  simp only [invalidate]
  split
  · exact HashMap.lookup_erase_if ..
  · next absent =>
    split
    · next same => rw [same, absent]
    · rfl

theorem invalidate_memory : (pool.invalidate key).pool = pool.pool ∧ (pool.invalidate key).dims = pool.dims := by
  simp only [invalidate]
  split <;> exact ⟨rfl, rfl⟩

structure Assigned (before : ScratchPool) (key : ResidentKey) (slot : Nat) (after : ScratchPool) : Prop where
  consistent : after.Consistent
  memory : after.pool = before.pool
  dims : after.dims = before.dims
  lookup : SlotTable.Moved before.lookup key slot after.lookup

theorem assign_cases {answer : Except Error Nat} (consistent : pool.Consistent)
    (assigned : pool.assign key candidates = (answer, after)) :
    (∃ slot, pool.lookup.lookup key = some slot ∧ answer = .ok slot ∧ after = pool) ∨
    (∃ slot, pool.lookup.lookup key = none ∧ answer = .ok slot ∧ Assigned pool key slot after ∧
      (slot ∈ candidates ∨ ∀ other, pool.lookup.lookup other ≠ some slot)) ∨
    (∃ error, pool.lookup.lookup key = none ∧ answer = .error error ∧ after = pool ∧
      ∀ slot < pool.dims.numSlots, slot ∉ candidates) := by
  simp only [assign] at assigned
  split at assigned
  · next slot resident =>
    cases assigned
    exact .inl ⟨slot, resident, rfl, rfl⟩
  next absent =>
  split at assigned
  · next slot freeList free =>
    cases assigned
    have unowned := consistent.unowned (free ▸ List.mem_cons_self : slot ∈ pool.freeList)
    exact .inr (.inl ⟨slot, absent, rfl,
      ⟨(consistent.take free).fill absent, rfl, rfl, SlotTable.moved_insert unowned⟩, .inr unowned⟩)
  · next full =>
    split at assigned
    · next missing =>
      cases assigned
      refine .inr (.inr ⟨_, absent, rfl, rfl, fun slot bound candidate => ?_⟩)
      -- With no free slot, every slot is resident.
      obtain free | transit | ⟨other, resident⟩ := (consistent.slots.accounted slot).mp bound
      · change slot ∈ pool.freeList at free
        rw [full] at free
        cases free
      · cases transit
      · have vacant := List.find?_eq_none.mp missing slot candidate
        have stored := (consistent.keys other slot).mp resident
        change pool.residents.getD slot none = some other at stored
        rw [stored] at vacant
        exact vacant rfl
    · next slot found =>
      have occupied := List.find?_some found
      obtain ⟨prev, stored⟩ := Option.isSome_iff_exists.mp occupied
      rw [stored] at assigned
      cases assigned
      have held : pool.lookup.lookup prev = some slot := (consistent.keys prev slot).mpr stored
      have vacated : (pool.lookup.erase prev).lookup key = none := by
        rw [HashMap.lookup_erase_if, absent, ite_self]
      have filled := (consistent.evict held).fill vacated
      dsimp only [table] at filled
      rw [List.set_set] at filled
      exact .inr (.inl ⟨slot, absent, rfl, ⟨filled, rfl, rfl, SlotTable.moved_evict consistent held⟩,
        .inl (List.mem_of_find?_eq_some found)⟩)

end ScratchPool

/-! ## Eviction order -/

/-- Scores as `f32` compares them: some pairs do not compare. -/
class PartialCmp (Score : Type*) where
  partialCmp : Score → Score → Option Ordering
  negInfinity : Score

structure EvictionPolicy (Score : Type*) where
  lastAccess : List UInt64
  lastScore : List Score
  epoch : UInt64

namespace EvictionPolicy

variable {Score : Type*} [PartialCmp Score]

def new (numSlots : Nat) : EvictionPolicy Score :=
  { lastAccess := .replicate numSlots 0
    lastScore := .replicate numSlots PartialCmp.negInfinity
    epoch := 1 }

def capacity (policy : EvictionPolicy Score) : Nat := policy.lastAccess.length

def touch (policy : EvictionPolicy Score) (slot : Nat) : EvictionPolicy Score :=
  { policy with lastAccess := policy.lastAccess.set slot policy.epoch, epoch := policy.epoch + 1 }

def recordScore (policy : EvictionPolicy Score) (slot : Nat) (score : Score) : EvictionPolicy Score :=
  { policy with lastScore := policy.lastScore.set slot score }

/-- By score, then by epoch; scores that do not compare count as equal. -/
def order (policy : EvictionPolicy Score) (a b : Nat) : Ordering :=
  let score := fun slot => policy.lastScore.getD slot PartialCmp.negInfinity
  ((PartialCmp.partialCmp (score a) (score b)).getD .eq).then
    (compare (policy.lastAccess.getD a 0) (policy.lastAccess.getD b 0))

def rank (policy : EvictionPolicy Score) (pinned : List Nat) : List Nat :=
  ((List.range policy.capacity).filter fun slot => slot ∉ pinned).mergeSort fun a b => policy.order a b != .gt

theorem mem_rank {policy : EvictionPolicy Score} {pinned : List Nat} {slot : Nat} :
    slot ∈ policy.rank pinned ↔ slot < policy.capacity ∧ slot ∉ pinned := by
  rw [rank, List.mem_mergeSort, List.mem_filter, List.mem_range, decide_eq_true_iff]

omit [PartialCmp Score] in
@[simp] theorem capacity_touch (policy : EvictionPolicy Score) (slot : Nat) :
    (policy.touch slot).capacity = policy.capacity :=
  List.length_set

omit [PartialCmp Score] in
@[simp] theorem capacity_recordScore (policy : EvictionPolicy Score) (slot : Nat) (score : Score) :
    (policy.recordScore slot score).capacity = policy.capacity :=
  rfl

end EvictionPolicy

end Metrale.Storage
