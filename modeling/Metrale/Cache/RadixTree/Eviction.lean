import Metrale.Cache.RadixTree.Conservation

/-! # What an eviction takes (`radix_tree/inner/evict.rs`)

A leaf that only the cache holds stays one until it is taken, so an eviction that leaves none has handed back
the blocks of every such leaf there was. -/

namespace Metrale.Cache

open Metrale.Foundation

namespace RadixTreeInner

variable {tree : RadixTreeInner} {id victim parent other : NodeId} {numBlocks : Nat}

theorem holding_evicted (leaf : Evictable (tree.node id) parent) :
    (tree.node id).holding blockShare = ((tree.node id).evictedPhys : Multiset BlockId) := by
  rw [holding_of_linked blockShare leaf.linked, RadixNode.evictedPhys]
  cases (tree.node id).partialSuffix <;> rfl

theorem storedBlocks_evictNode (wf : tree.WellFormed) (leaf : Evictable (tree.node victim) parent) :
    (tree.evictNode victim).storedBlocks + ((tree.node victim).evictedPhys : Multiset BlockId) = tree.storedBlocks := by
  have balance := total_evictNode (accountable_holding blockShare) wf leaf.linked leaf.leaf
  rw [holding_evicted leaf] at balance
  exact balance

theorem Evictable.evictNode (wf : tree.WellFormed) (leaf : Evictable (tree.node id) parent)
    (taken : Evictable (tree.node victim) other) (differs : id ≠ victim) :
    Evictable ((tree.evictNode victim).node id) parent ∧
      ((tree.evictNode victim).node id).evictedPhys = (tree.node id).evictedPhys := by
  rw [node_evictNode wf taken.linked taken.leaf, if_neg differs]
  split
  · next same =>
    subst same
    refine ⟨⟨leaf.linked, leaf.cold, ?_, leaf.block⟩, rfl⟩
    simp only [RadixNode.withoutChild, leaf.leaf]
    rfl
  · exact ⟨leaf, rfl⟩

/-- What becomes of a leaf while others are taken: it stays, or its blocks are handed back. -/
def Remains (before after : RadixTreeInner) (id : NodeId) (parent : NodeId) : Prop :=
  (Evictable (after.node id) parent ∧ (after.node id).evictedPhys = (before.node id).evictedPhys) ∨
    after.storedBlocks + ((before.node id).evictedPhys : Multiset BlockId) ≤ before.storedBlocks

theorem evictLoop_remains (wf : tree.WellFormed) (leaf : Evictable (tree.node id) parent) (fuel : Nat)
    (freedPhys : List BlockId) (freedDisk : List DiskId) :
    Remains tree (evictLoop numBlocks fuel tree freedPhys freedDisk).2 id parent := by
  induction fuel generalizing tree freedPhys freedDisk with
  | zero => exact .inl ⟨leaf, rfl⟩
  | succ fuel ih =>
    rw [evictLoop]
    split
    · exact .inl ⟨leaf, rfl⟩
    · split
      · next victim access chosen =>
        obtain ⟨other, taken⟩ := bestVictim_some chosen
        have wfNext := wf.evictNode taken.linked taken.leaf
        have balance := storedBlocks_evictNode wf taken
        by_cases same : id = victim
        · subst same
          right
          obtain ⟨pairs, -, later⟩ := evictLoop_total numBlocks fuel wfNext
            (freedPhys ++ (tree.node id).evictedPhys) (freedDisk ++ (tree.node id).evictedDisk)
          rw [← balance]
          have fewer := later blockShare
          exact Multiset.add_le_add_right (le_of_le_of_eq (Multiset.le_add_right _ _) fewer)
        · obtain ⟨kept, phys⟩ := leaf.evictNode wf taken same
          obtain ⟨still, physLast⟩ | gone := ih wfNext kept
            (freedPhys ++ (tree.node victim).evictedPhys) (freedDisk ++ (tree.node victim).evictedDisk)
          · exact .inl ⟨still, physLast.trans phys⟩
          · right
            rw [phys] at gone
            refine gone.trans ?_
            rw [← balance]
            exact Multiset.le_add_right _ _
      · exact .inl ⟨leaf, rfl⟩

theorem linkedNodes_evictLoop (wf : tree.WellFormed) (fuel : Nat) (freedPhys : List BlockId)
    (freedDisk : List DiskId) :
    (evictLoop numBlocks fuel tree freedPhys freedDisk).2.linkedNodes ≤ tree.linkedNodes ∧
    ((evictLoop numBlocks fuel tree freedPhys freedDisk).1.1 = freedPhys ∨
      (evictLoop numBlocks fuel tree freedPhys freedDisk).2.linkedNodes < tree.linkedNodes) := by
  induction fuel generalizing tree freedPhys freedDisk with
  | zero => exact ⟨Nat.le_refl _, .inl rfl⟩
  | succ fuel ih =>
    rw [evictLoop]
    split
    · exact ⟨Nat.le_refl _, .inl rfl⟩
    · split
      · next victim access chosen =>
        obtain ⟨other, taken⟩ := bestVictim_some chosen
        have fewer := linkedNodes_evictNode wf taken
        have rest := (ih (wf.evictNode taken.linked taken.leaf)
          (freedPhys ++ (tree.node victim).evictedPhys) (freedDisk ++ (tree.node victim).evictedDisk)).1
        exact ⟨by omega, .inr (by omega)⟩
      · exact ⟨Nat.le_refl _, .inl rfl⟩

end RadixTreeInner

namespace RadixTree

open RadixTreeInner (Evictable Remains)

variable {inner : RadixTreeInner} (wf : inner.WellFormed) (numBlocks : Nat)
include wf

theorem evict_remains {id parent : NodeId} (leaf : Evictable (inner.node id) parent) :
    Remains inner (evict inner numBlocks).2 id parent := by
  simp only [evict, RadixTreeInner.evict]
  split
  · exact .inl ⟨leaf, rfl⟩
  · exact RadixTreeInner.evictLoop_remains wf leaf _ _ _

/-- An eviction that hands back a block has taken a node, and one that hands back none found none. -/
theorem evict_progress (some : 0 < numBlocks) :
    ((evict inner numBlocks).1.physical = [] ∧ ∀ id parent, ¬ Evictable ((evict inner numBlocks).2.node id) parent) ∨
    ((evict inner numBlocks).1.physical ≠ [] ∧ (evict inner numBlocks).2.linkedNodes < inner.linkedNodes) := by
  have fewer := @RadixTreeInner.linkedNodes_evictLoop inner numBlocks wf inner.nodes.length [] []
  have exhausted := RadixTreeInner.evict_exhausts wf numBlocks
  simp only [evict]
  simp only [RadixTreeInner.evict, if_neg (Nat.ne_of_gt some)] at exhausted ⊢
  by_cases none : (RadixTreeInner.evictLoop numBlocks inner.nodes.length inner [] []).1.1 = []
  · left
    rw [none] at exhausted
    exact ⟨none, exhausted.resolve_left (Nat.not_le_of_lt some)⟩
  · exact .inr ⟨none, fewer.2.resolve_left none⟩

end RadixTree

end Metrale.Cache
