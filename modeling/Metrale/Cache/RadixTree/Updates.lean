import Metrale.Cache.RadixTree.WellFormed
import Metrale.Foundation.IndexedSums

/-! # How the arena's operations move nodes

`attachChild` adds exactly one trail, `rootForInsert` at most an adapter's empty trail, `evictNode`
removes exactly the victim's trail, and each keeps the arena well formed.  `total` adds up what the
slots hold, for the accounts of blocks and disk ids. -/

namespace Metrale.Cache.RadixTreeInner

open Metrale.Foundation

/-! ## `attachChild` -/

theorem roots_attachChild (tree : RadixTreeInner) (current : NodeId) (key : Chunk) (new : RadixNode) :
    (tree.attachChild current key new).1.roots = tree.roots := by
  simp [attachChild]

theorem freeNodes_attachChild (tree : RadixTreeInner) (current : NodeId) (key : Chunk)
    (new : RadixNode) : (tree.attachChild current key new).1.freeNodes = tree.freeNodes.tail := by
  simp [attachChild]

theorem length_le_attachChild (tree : RadixTreeInner) (current : NodeId) (key : Chunk)
    (new : RadixNode) : tree.nodes.length ≤ (tree.attachChild current key new).1.nodes.length := by
  simpa [attachChild] using length_le_allocNode (tree.modifyNode current RadixNode.dropSuffix) new

section Attach

variable {tree : RadixTreeInner} (wf : tree.WellFormed) {adapterId : AdapterId} {outer : List Chunk}
  {current : NodeId} (found : tree.find adapterId outer = some current)
include wf found

theorem clearSuffix_wellFormed :
    (tree.modifyNode current RadixNode.dropSuffix).WellFormed :=
  wf.modifyNode (wf.find_lt found) ⟨rfl, rfl, rfl, rfl, rfl⟩ (fun stored => absurd rfl stored)

variable (key : Chunk)

theorem attachChild_ne (new : RadixNode) : current ≠ (tree.attachChild current key new).2 :=
  allocNode_not_used _ new (by simpa using wf.find_lt found) (by simpa using wf.find_not_free found)

theorem node_attachChild (new : RadixNode) (other : NodeId) :
    (tree.attachChild current key new).1.node other =
      if other = (tree.attachChild current key new).2 then new
      else if other = current then
        ((tree.node current).dropSuffix).withChild key (tree.attachChild current key new).2
      else tree.node other := by
  have cleared := clearSuffix_wellFormed wf found
  have different := attachChild_ne wf found key new
  have bound := Nat.lt_of_lt_of_le (by simpa using wf.find_lt found) (length_le_allocNode
    (tree.modifyNode current RadixNode.dropSuffix) new)
  simp only [attachChild] at different ⊢
  rw [node_modifyNode _ bound, cleared.node_allocNode new other]
  by_cases atCurrent : other = current
  · subst atCurrent
    simp only [if_true, if_neg different, node_modifyNode tree (wf.find_lt found)]
  · simp only [if_neg atCurrent]
    rw [node_modifyNode tree (wf.find_lt found), if_neg atCurrent]

theorem attachChild_vacant (new : RadixNode) :
    Vacant (tree.node (tree.attachChild current key new).2) := by
  have vacant := (clearSuffix_wellFormed wf found).allocNode_vacant new
  have different : ((tree.modifyNode current RadixNode.dropSuffix).allocNode new).2 ≠ current :=
    Ne.symm (attachChild_ne wf found key new)
  rw [node_modifyNode tree (wf.find_lt found), if_neg different] at vacant
  exact vacant

theorem attachChild_not_found (new : RadixNode) (other : AdapterId) (path : List Chunk) :
    tree.find other path ≠ some (tree.attachChild current key new).2 := by
  intro stored
  cases path with
  | nil => exact (clearSuffix_wellFormed wf found).allocNode_not_root new stored
  | cons inner path =>
    obtain ⟨parent, _, _, linked⟩ := wf.find_parent stored
    rw [(attachChild_vacant wf found key new).parent] at linked
    cases linked

theorem childAt_attachChild {new : RadixNode} (leaf : new.children = ∅) (id : NodeId)
    (other : Chunk) :
    (tree.attachChild current key new).1.childAt id other =
      if id = current ∧ other = key then some (tree.attachChild current key new).2
      else tree.childAt id other := by
  have different := attachChild_ne wf found key new
  simp only [childAt, node_attachChild wf found key new id]
  by_cases fresh : id = (tree.attachChild current key new).2
  · have notCurrent : ¬ (id = current ∧ other = key) := fun same =>
      different (same.1.symm.trans fresh)
    rw [if_pos fresh, if_neg notCurrent, leaf, fresh, (attachChild_vacant wf found key new).children]
  · rw [if_neg fresh]
    by_cases atCurrent : id = current
    · subst atCurrent
      simp only [if_true, true_and]
      exact HashMap.lookup_insert_if _ _ _ _
    · simp only [atCurrent, if_false, false_and]

variable (absent : tree.childAt current key = none) {new : RadixNode} (leaf : new.children = ∅)
include absent leaf

theorem find_attachChild (other : AdapterId) (path : List Chunk) :
    (tree.attachChild current key new).1.find other path =
      if other = adapterId ∧ path = key :: outer then some (tree.attachChild current key new).2
      else tree.find other path := by
  induction path with
  | nil => simp [find, rootForRead, roots_attachChild]
  | cons inner path ih =>
    simp only [find, ih]
    by_cases fresh : other = adapterId ∧ path = key :: outer
    · obtain ⟨rfl, rfl⟩ := fresh
      -- Below the new leaf there is nothing, before and after.
      have below : (key :: outer : List Chunk) ≠ outer := fun same => by
        simpa using congrArg List.length same
      simp only [true_and, if_true, Option.bind_some, List.cons.injEq, find, found, absent,
        Option.bind_none, below, and_false, if_false, childAt_attachChild wf found key leaf,
        if_neg (fun same => attachChild_ne wf found key new (And.left same).symm :
          ¬ ((tree.attachChild current key new).2 = current ∧ inner = key))]
      exact childAt_leaf (attachChild_vacant wf found key new).children _
    · rw [if_neg fresh]
      cases parent : tree.find other path with
      | none =>
        have apart : ¬ (other = adapterId ∧ inner :: path = key :: outer) := by
          rintro ⟨rfl, same⟩
          cases same
          rw [found] at parent
          cases parent
        rw [if_neg apart]
        rfl
      | some id =>
        simp only [Option.bind_some, childAt_attachChild wf found key leaf]
        have agree : (id = current ∧ inner = key) ↔
            (other = adapterId ∧ inner :: path = key :: outer) := by
          constructor
          · rintro ⟨rfl, rfl⟩
            obtain ⟨rfl, rfl⟩ := wf.find_injective parent found
            exact ⟨rfl, rfl⟩
          · rintro ⟨rfl, same⟩
            cases same
            rw [found] at parent
            exact ⟨(Option.some.inj parent).symm, rfl⟩
        simp only [agree]

theorem WellFormed.attachChild (parent : new.parent = some current) (keyed : new.parentKey = some key)
    (hash : new.contextHash = contextHashCombine (tree.node current).contextHash key) :
    (tree.attachChild current key new).1.WellFormed := by
  have vacant := attachChild_vacant wf found key new
  have different := attachChild_ne wf found key new
  have nodes := node_attachChild wf found key new
  have cleared := clearSuffix_wellFormed wf found
  have longer := length_le_attachChild tree current key new
  -- Every old node of the forest keeps all but `current`'s suffix and children.
  have kept : ∀ id, id ≠ (tree.attachChild current key new).2 →
      ((tree.attachChild current key new).1.node id).parent = (tree.node id).parent ∧
      ((tree.attachChild current key new).1.node id).parentKey = (tree.node id).parentKey ∧
      ((tree.attachChild current key new).1.node id).contextHash = (tree.node id).contextHash ∧
      ((tree.attachChild current key new).1.node id).blockIdx = (tree.node id).blockIdx := by
    intro id old
    rw [nodes id, if_neg old]
    split
    · next same => subst same; exact ⟨rfl, rfl, rfl, rfl⟩
    · exact ⟨rfl, rfl, rfl, rfl⟩
  have fresh : (tree.attachChild current key new).1.node (tree.attachChild current key new).2 = new := by
    rw [nodes, if_pos rfl]
  have oldChild : ∀ {id other child}, tree.childAt id other = some child →
      child ≠ (tree.attachChild current key new).2 := by
    rintro id other child stored rfl
    have linked := (wf.childNode stored).2.1
    rw [vacant.parent] at linked
    cases linked
  have oldParent : ∀ {id other child}, tree.childAt id other = some child →
      id ≠ (tree.attachChild current key new).2 := by
    rintro id other child stored rfl
    rw [childAt, vacant.children] at stored
    cases stored
  constructor
  case rootNode =>
    intro other root stored
    rw [roots_attachChild] at stored
    obtain ⟨bound, used, noParent, block, rootHash⟩ := wf.rootNode stored
    have old : root ≠ (tree.attachChild current key new).2 := fun same =>
      attachChild_not_found wf found key new other [] (by rw [← same]; exact stored)
    obtain ⟨sameParent, _, sameHash, sameBlock⟩ := kept root old
    refine ⟨Nat.lt_of_lt_of_le bound longer, ?_, ?_, ?_, ?_⟩
    · rw [freeNodes_attachChild]
      exact fun free => used (List.mem_of_mem_tail free)
    · rw [sameParent, noParent]
    · rw [sameBlock, block]
    · rw [sameHash, rootHash]
  case rootsInjective =>
    intro other another root stored storedAgain
    rw [roots_attachChild] at stored storedAgain
    exact wf.rootsInjective stored storedAgain
  case childNode =>
    intro id other child stored
    rw [childAt_attachChild wf found key leaf] at stored
    split at stored
    · next same =>
      obtain ⟨rfl, rfl⟩ := same
      cases stored
      refine ⟨?_, ?_, ?_, ?_⟩
      · simpa [RadixTreeInner.attachChild] using cleared.allocNode_bound new
      · rw [fresh, parent]
      · rw [fresh, keyed]
      · rw [fresh, hash, (kept id different).2.2.1]
    · obtain ⟨bound, linked, keyedChild, childHash⟩ := wf.childNode stored
      obtain ⟨sameParent, sameKey, sameHash, _⟩ := kept child (oldChild stored)
      refine ⟨Nat.lt_of_lt_of_le bound longer, ?_, ?_, ?_⟩
      · rw [sameParent, linked]
      · rw [sameKey, keyedChild]
      · rw [sameHash, childHash, (kept id (oldParent stored)).2.2.1]
  case parentNode =>
    intro child id linked
    by_cases isNew : child = (tree.attachChild current key new).2
    · subst isNew
      rw [fresh] at linked ⊢
      rw [parent] at linked
      cases linked
      exact ⟨key, keyed, by rw [childAt_attachChild wf found key leaf, if_pos ⟨rfl, rfl⟩]⟩
    · rw [(kept child isNew).1] at linked
      obtain ⟨other, keyedChild, stored⟩ := wf.parentNode linked
      refine ⟨other, by rw [(kept child isNew).2.1, keyedChild], ?_⟩
      rw [childAt_attachChild wf found key leaf, if_neg, stored]
      rintro ⟨rfl, rfl⟩
      rw [absent] at stored
      cases stored
  case freeNodup =>
    rw [freeNodes_attachChild]
    exact wf.freeNodup.tail
  case freeNode =>
    intro id free
    rw [freeNodes_attachChild] at free
    have stillFree := List.mem_of_mem_tail free
    obtain ⟨bound, idVacant⟩ := wf.freeNode stillFree
    have old : id ≠ (tree.attachChild current key new).2 := by
      rintro rfl
      exact cleared.allocNode_not_free new free
    have notCurrent : id ≠ current := fun same => wf.find_not_free found (same ▸ stillFree)
    refine ⟨Nat.lt_of_lt_of_le bound longer, ?_⟩
    rw [nodes id, if_neg old, if_neg notCurrent]
    exact idVacant
  case suffixNode =>
    intro id stored
    by_cases isNew : id = (tree.attachChild current key new).2
    · rw [isNew, fresh, parent]
      exact Option.some_ne_none _
    · rw [(kept id isNew).1]
      rw [nodes id, if_neg isNew] at stored
      split at stored
      · exact absurd rfl stored
      · exact wf.suffixNode stored
  case reached =>
    intro id linked
    by_cases isNew : id = (tree.attachChild current key new).2
    · refine ⟨adapterId, key :: outer, ?_⟩
      rw [find_attachChild wf found key absent leaf, if_pos ⟨rfl, rfl⟩, isNew]
    · rw [(kept id isNew).1] at linked
      obtain ⟨other, path, foundId⟩ := wf.reached linked
      refine ⟨other, path, ?_⟩
      rw [find_attachChild wf found key absent leaf, if_neg, foundId]
      rintro ⟨rfl, rfl⟩
      rw [find, found, Option.bind_some, absent] at foundId
      cases foundId

end Attach

/-! ## `rootForInsert` -/

section Root

variable {tree : RadixTreeInner} (wf : tree.WellFormed) (adapterId : AdapterId)

theorem rootForInsert_of_some {root : NodeId} (stored : tree.roots.lookup adapterId = some root) :
    tree.rootForInsert adapterId = (tree, root) := by
  simp only [rootForInsert, stored]

theorem rootForInsert_of_none (absent : tree.roots.lookup adapterId = none) :
    tree.rootForInsert adapterId =
      ({ (tree.allocNode RadixNode.root).1 with
          roots := tree.roots.insert adapterId (tree.allocNode RadixNode.root).2 },
        (tree.allocNode RadixNode.root).2) := by
  simp only [rootForInsert, absent, roots_allocNode]

theorem roots_rootForInsert (tree : RadixTreeInner) (other : AdapterId) :
    (tree.rootForInsert adapterId).1.roots.lookup other =
      if other = adapterId then some (tree.rootForInsert adapterId).2 else tree.roots.lookup other := by
  cases stored : tree.roots.lookup adapterId with
  | some root =>
    rw [rootForInsert_of_some adapterId stored]
    split
    · next same => rw [same, stored]
    · rfl
  | none =>
    rw [rootForInsert_of_none adapterId stored]
    exact HashMap.lookup_insert_if _ _ _ _

include wf

theorem node_rootForInsert (id : NodeId) :
    (tree.rootForInsert adapterId).1.node id =
      if tree.roots.lookup adapterId = none ∧ id = (tree.rootForInsert adapterId).2 then RadixNode.root
      else tree.node id := by
  cases stored : tree.roots.lookup adapterId with
  | some root => simp [rootForInsert_of_some adapterId stored]
  | none =>
    rw [rootForInsert_of_none adapterId stored]
    simp only [true_and]
    exact wf.node_allocNode RadixNode.root id

theorem node_rootForInsert_of_found {other : AdapterId} {path : List Chunk} {id : NodeId}
    (found : tree.find other path = some id) :
    (tree.rootForInsert adapterId).1.node id = tree.node id := by
  rw [node_rootForInsert wf, if_neg]
  rintro ⟨absent, same⟩
  rw [rootForInsert_of_none adapterId absent] at same
  exact allocNode_not_used tree RadixNode.root (wf.find_lt found) (wf.find_not_free found) same

theorem childAt_rootForInsert (id : NodeId) (key : Chunk) :
    (tree.rootForInsert adapterId).1.childAt id key = tree.childAt id key := by
  simp only [childAt, node_rootForInsert wf adapterId id]
  split
  · next fresh =>
    obtain ⟨absent, rfl⟩ := fresh
    rw [rootForInsert_of_none adapterId absent, (wf.allocNode_vacant RadixNode.root).children]
    rfl
  · rfl

theorem find_rootForInsert (other : AdapterId) (path : List Chunk) :
    (tree.rootForInsert adapterId).1.find other path =
      if other = adapterId ∧ path = [] then some (tree.rootForInsert adapterId).2
      else tree.find other path := by
  induction path with
  | nil => simp only [find, rootForRead, roots_rootForInsert, and_true]
  | cons key path ih =>
    simp only [find, ih, childAt_rootForInsert wf, reduceCtorEq, and_false, if_false]
    by_cases fresh : other = adapterId ∧ path = []
    · obtain ⟨rfl, rfl⟩ := fresh
      simp only [and_self, if_true, Option.bind_some, find, rootForRead]
      cases stored : tree.roots.lookup other with
      | some root => rw [rootForInsert_of_some other stored, Option.bind_some]
      | none =>
        rw [rootForInsert_of_none other stored, Option.bind_none, childAt,
          (wf.allocNode_vacant RadixNode.root).children, AList.lookup_empty]
    · rw [if_neg fresh]

theorem WellFormed.rootForInsert : (tree.rootForInsert adapterId).1.WellFormed := by
  cases stored : tree.roots.lookup adapterId with
  | some root => rw [rootForInsert_of_some adapterId stored]; exact wf
  | none =>
    have nodes : ∀ id, (tree.rootForInsert adapterId).1.node id =
        if id = (tree.rootForInsert adapterId).2 then RadixNode.root else tree.node id := by
      intro id
      rw [node_rootForInsert wf, stored]
      simp only [true_and]
    have vacant : Vacant (tree.node (tree.rootForInsert adapterId).2) := by
      rw [rootForInsert_of_none adapterId stored]
      exact wf.allocNode_vacant RadixNode.root
    have parents : ∀ id, ((tree.rootForInsert adapterId).1.node id).parent = (tree.node id).parent := by
      intro id
      rw [nodes]
      split
      · next same => rw [same, vacant.parent]; rfl
      · rfl
    have free : (tree.rootForInsert adapterId).1.freeNodes = tree.freeNodes.tail := by
      rw [rootForInsert_of_none adapterId stored]
      simp
    have longer : tree.nodes.length ≤ (tree.rootForInsert adapterId).1.nodes.length := by
      rw [rootForInsert_of_none adapterId stored]
      exact length_le_allocNode tree RadixNode.root
    have notFree : (tree.rootForInsert adapterId).2 ∉ (tree.rootForInsert adapterId).1.freeNodes := by
      rw [free, rootForInsert_of_none adapterId stored]
      exact wf.allocNode_not_free RadixNode.root
    have notRoot : ∀ {other}, tree.roots.lookup other ≠ some (tree.rootForInsert adapterId).2 := by
      intro other
      rw [rootForInsert_of_none adapterId stored]
      exact wf.allocNode_not_root RadixNode.root
    have apart : ∀ id, (tree.node id).parent ≠ none → id ≠ (tree.rootForInsert adapterId).2 := by
      rintro id linked rfl
      exact linked vacant.parent
    -- The slot taken was vacant, so the only new facts are about the new root.
    constructor
    case rootNode =>
      intro other root rootStored
      rw [roots_rootForInsert] at rootStored
      split at rootStored
      · cases rootStored
        refine ⟨?_, notFree, ?_⟩
        · rw [rootForInsert_of_none adapterId stored]
          exact wf.allocNode_bound RadixNode.root
        · rw [nodes, if_pos rfl]
          exact ⟨rfl, rfl, rfl⟩
      · obtain ⟨bound, used, facts⟩ := wf.rootNode rootStored
        refine ⟨Nat.lt_of_lt_of_le bound longer, ?_, ?_⟩
        · rw [free]
          exact fun member => used (List.mem_of_mem_tail member)
        · rw [nodes, if_neg (fun same => notRoot (same ▸ rootStored))]
          exact facts
    case rootsInjective =>
      intro other another root left right
      rw [roots_rootForInsert] at left right
      by_cases atLeft : other = adapterId
      · by_cases atRight : another = adapterId
        · rw [atLeft, atRight]
        · rw [if_pos atLeft] at left
          rw [if_neg atRight] at right
          cases left
          exact absurd right notRoot
      · rw [if_neg atLeft] at left
        by_cases atRight : another = adapterId
        · rw [if_pos atRight] at right
          cases right
          exact absurd left notRoot
        · rw [if_neg atRight] at right
          exact wf.rootsInjective left right
    -- No child link of the old forest starts or ends in the slot taken.
    case childNode =>
      intro id key child member
      rw [childAt_rootForInsert wf] at member
      obtain ⟨bound, linked, keyed, hash⟩ := wf.childNode member
      have childOld := apart child (by rw [linked]; exact Option.some_ne_none _)
      have parentOld : id ≠ (tree.rootForInsert adapterId).2 := by
        rintro rfl
        rw [childAt_leaf vacant.children] at member
        cases member
      refine ⟨Nat.lt_of_lt_of_le bound longer, ?_⟩
      rw [nodes child, if_neg childOld, nodes id, if_neg parentOld]
      exact ⟨linked, keyed, hash⟩
    case parentNode =>
      intro child id linked
      rw [parents] at linked
      obtain ⟨key, keyed, member⟩ := wf.parentNode linked
      have childOld := apart child (by rw [linked]; exact Option.some_ne_none _)
      exact ⟨key, by rw [nodes, if_neg childOld, keyed], by rw [childAt_rootForInsert wf, member]⟩
    case freeNodup => rw [free]; exact wf.freeNodup.tail
    case freeNode =>
      intro id member
      have old : id ≠ (tree.rootForInsert adapterId).2 := fun same => notFree (same ▸ member)
      rw [free] at member
      obtain ⟨bound, idVacant⟩ := wf.freeNode (List.mem_of_mem_tail member)
      refine ⟨Nat.lt_of_lt_of_le bound longer, ?_⟩
      rw [nodes, if_neg old]
      exact idVacant
    case suffixNode =>
      intro id suffix
      rw [parents]
      rw [nodes] at suffix
      split at suffix
      · exact absurd rfl suffix
      · exact wf.suffixNode suffix
    case reached =>
      intro id linked
      rw [parents] at linked
      obtain ⟨other, path, found⟩ := wf.reached linked
      refine ⟨other, path, ?_⟩
      rw [find_rootForInsert wf, if_neg, found]
      rintro ⟨rfl, rfl⟩
      exact linked (wf.rootNode found).2.2.1

end Root

/-! ## `evictNode` -/

section Evict

variable {tree : RadixTreeInner} (wf : tree.WellFormed) {victim parent : NodeId}
  (linked : (tree.node victim).parent = some parent)
include wf linked

theorem victim_lt : victim < tree.nodes.length := by
  obtain ⟨adapterId, path, found⟩ := wf.reached_of_linked linked
  exact wf.find_lt found

theorem parent_lt : parent < tree.nodes.length := by
  obtain ⟨key, _, stored⟩ := wf.parentNode linked
  by_contra beyond
  rw [childAt, node_of_length_le tree (Nat.le_of_not_lt beyond)] at stored
  cases stored

theorem roots_evictNode : (tree.evictNode victim).roots = tree.roots := by
  obtain ⟨key, keyed, _⟩ := wf.parentNode linked
  simp only [evictNode, unlinkFromParent, linked, keyed, roots_modifyNode]

theorem freeNodes_evictNode : (tree.evictNode victim).freeNodes = victim :: tree.freeNodes := by
  obtain ⟨key, keyed, _⟩ := wf.parentNode linked
  simp only [evictNode, unlinkFromParent, linked, keyed, freeNodes_modifyNode]

theorem length_evictNode : (tree.evictNode victim).nodes.length = tree.nodes.length := by
  obtain ⟨key, keyed, _⟩ := wf.parentNode linked
  simp only [evictNode, unlinkFromParent, linked, keyed, length_modifyNode]

variable (leaf : (tree.node victim).children = ∅)
include leaf

theorem victim_ne_parent : parent ≠ victim := by
  rintro rfl
  obtain ⟨key, _, stored⟩ := wf.parentNode linked
  rw [childAt_leaf leaf] at stored
  cases stored

theorem node_evictNode (id : NodeId) :
    (tree.evictNode victim).node id =
      if id = victim then (tree.node victim).freed
      else if id = parent then
        RadixNode.withoutChild (((tree.node victim).parentKey).getD []) (tree.node parent)
      else tree.node id := by
  obtain ⟨key, keyed, stored⟩ := wf.parentNode linked
  have different := victim_ne_parent wf linked leaf
  have unlinked : tree.unlinkFromParent (tree.node victim) =
      tree.modifyNode parent (RadixNode.withoutChild key) := by
    simp only [unlinkFromParent, linked, keyed]
  show ((tree.unlinkFromParent (tree.node victim)).modifyNode victim RadixNode.freed).node id = _
  rw [unlinked, node_modifyNode _ (by simpa using victim_lt wf linked),
    node_modifyNode _ (parent_lt wf linked), keyed]
  by_cases atVictim : id = victim
  · subst atVictim
    simp [Ne.symm different]
  · simp only [if_neg atVictim, Option.getD_some]
    split
    · next same => subst same; rfl
    · rfl

theorem childAt_evictNode (id : NodeId) (key : Chunk) :
    (tree.evictNode victim).childAt id key =
      if tree.childAt id key = some victim then none else tree.childAt id key := by
  obtain ⟨victimKey, keyed, stored⟩ := wf.parentNode linked
  show ((tree.evictNode victim).node id).children.lookup key = _
  rw [node_evictNode wf linked leaf, keyed, Option.getD_some]
  by_cases atVictim : id = victim
  · subst atVictim
    have below := childAt_leaf leaf key
    rw [if_pos rfl, below]
    rfl
  · rw [if_neg atVictim]
    by_cases atParent : id = parent
    · subst atParent
      rw [if_pos rfl]
      refine (HashMap.lookup_erase_if _ _ _).trans ?_
      by_cases same : key = victimKey
      · subst same
        rw [if_pos rfl, if_pos stored]
      · rw [if_neg same, if_neg]
        · rfl
        intro other
        have keyedOther := (wf.childNode other).2.2.1
        rw [keyed] at keyedOther
        cases keyedOther
        exact same rfl
    · rw [if_neg atParent, if_neg]
      · rfl
      intro other
      have linkedOther := (wf.childNode other).2.1
      rw [linked] at linkedOther
      cases linkedOther
      exact atParent rfl

theorem root_ne_victim {adapterId : AdapterId} {root : NodeId}
    (stored : tree.roots.lookup adapterId = some root) : root ≠ victim := by
  rintro rfl
  rw [(wf.rootNode stored).2.2.1] at linked
  cases linked

theorem find_evictNode (adapterId : AdapterId) (path : List Chunk) :
    (tree.evictNode victim).find adapterId path =
      if tree.find adapterId path = some victim then none else tree.find adapterId path := by
  induction path with
  | nil =>
    have notVictim : tree.find adapterId [] ≠ some victim := fun stored =>
      root_ne_victim wf linked leaf stored rfl
    rw [if_neg notVictim]
    simp only [find, rootForRead, roots_evictNode wf linked]
  | cons key path ih =>
    have unfolded : (tree.evictNode victim).find adapterId (key :: path) =
        ((tree.evictNode victim).find adapterId path).bind fun id =>
          (tree.evictNode victim).childAt id key := rfl
    rw [unfolded, ih]
    -- The trail is cut at the victim: it has no child to go on to.
    by_cases found : ∃ id, tree.find adapterId path = some id
    · obtain ⟨id, found⟩ := found
      have step : tree.find adapterId (key :: path) = tree.childAt id key := by
        rw [find, found, Option.bind_some]
      rw [step, found]
      by_cases atVictim : id = victim
      · subst atVictim
        have below := childAt_leaf leaf key
        simp [below]
      · have notVictim : some id ≠ some victim := fun same => atVictim (Option.some.inj same)
        rw [if_neg notVictim, Option.bind_some, childAt_evictNode wf linked leaf]
    · have missing : tree.find adapterId path = none := by
        simpa [Option.eq_none_iff_forall_ne_some] using found
      have step : tree.find adapterId (key :: path) = none := by
        rw [find, missing, Option.bind_none]
      simp [step, missing]

theorem WellFormed.evictNode : (tree.evictNode victim).WellFormed := by
  have nodes := node_evictNode wf linked leaf
  -- The parent loses an entry of its children and nothing else; the other nodes stay.
  have kept : ∀ id, id ≠ victim →
      ((tree.evictNode victim).node id).parent = (tree.node id).parent ∧
      ((tree.evictNode victim).node id).parentKey = (tree.node id).parentKey ∧
      ((tree.evictNode victim).node id).contextHash = (tree.node id).contextHash ∧
      ((tree.evictNode victim).node id).blockIdx = (tree.node id).blockIdx ∧
      ((tree.evictNode victim).node id).partialSuffix = (tree.node id).partialSuffix := by
    intro id other
    rw [nodes id, if_neg other]
    split
    · next same => subst same; exact ⟨rfl, rfl, rfl, rfl, rfl⟩
    · exact ⟨rfl, rfl, rfl, rfl, rfl⟩
  have freed : (tree.evictNode victim).node victim = (tree.node victim).freed := by
    rw [nodes, if_pos rfl]
  have length := length_evictNode wf linked
  constructor
  case rootNode =>
    intro adapterId root stored
    rw [roots_evictNode wf linked] at stored
    obtain ⟨bound, used, noParent, block, hash⟩ := wf.rootNode stored
    have other := root_ne_victim wf linked leaf stored
    obtain ⟨sameParent, _, sameHash, sameBlock, _⟩ := kept root other
    refine ⟨by rw [length]; exact bound, ?_, ?_, ?_, ?_⟩
    · rw [freeNodes_evictNode wf linked]
      simp [other, used]
    · rw [sameParent, noParent]
    · rw [sameBlock, block]
    · rw [sameHash, hash]
  case rootsInjective =>
    intro adapterId other root left right
    rw [roots_evictNode wf linked] at left right
    exact wf.rootsInjective left right
  case childNode =>
    intro id key child stored
    rw [childAt_evictNode wf linked leaf] at stored
    split at stored
    · cases stored
    · next notVictim =>
      obtain ⟨bound, linkedChild, keyed, hash⟩ := wf.childNode stored
      have childOther : child ≠ victim := fun same => notVictim (same ▸ stored)
      have idOther : id ≠ victim := by
        rintro rfl
        rw [childAt_leaf leaf] at stored
        cases stored
      obtain ⟨sameParent, sameKey, sameHash, _⟩ := kept child childOther
      refine ⟨by rw [length]; exact bound, ?_, ?_, ?_⟩
      · rw [sameParent, linkedChild]
      · rw [sameKey, keyed]
      · rw [sameHash, hash, (kept id idOther).2.2.1]
  case parentNode =>
    intro child id linkedChild
    have childOther : child ≠ victim := by
      rintro rfl
      rw [freed] at linkedChild
      cases linkedChild
    rw [(kept child childOther).1] at linkedChild
    obtain ⟨key, keyed, stored⟩ := wf.parentNode linkedChild
    refine ⟨key, by rw [(kept child childOther).2.1, keyed], ?_⟩
    rw [childAt_evictNode wf linked leaf, if_neg, stored]
    rw [stored]
    exact fun same => childOther (Option.some.inj same)
  case freeNodup =>
    rw [freeNodes_evictNode wf linked]
    refine List.nodup_cons.mpr ⟨?_, wf.freeNodup⟩
    intro free
    rw [(wf.freeNode free).2.parent] at linked
    cases linked
  case freeNode =>
    intro id free
    rw [freeNodes_evictNode wf linked] at free
    rw [length]
    by_cases atVictim : id = victim
    · subst atVictim
      rw [freed]
      exact ⟨victim_lt wf linked, rfl, rfl, rfl, rfl⟩
    · obtain ⟨bound, vacant⟩ := wf.freeNode ((List.mem_cons.mp free).resolve_left atVictim)
      -- A free node has no children, and the parent has one.
      have notParent : id ≠ parent := by
        rintro rfl
        obtain ⟨key, _, stored⟩ := wf.parentNode linked
        rw [childAt_leaf vacant.children] at stored
        cases stored
      rw [nodes, if_neg atVictim, if_neg notParent]
      exact ⟨bound, vacant⟩
  case suffixNode =>
    intro id stored
    by_cases atVictim : id = victim
    · rw [atVictim, freed] at stored
      exact absurd rfl stored
    · rw [(kept id atVictim).1]
      rw [(kept id atVictim).2.2.2.2] at stored
      exact wf.suffixNode stored
  -- Only the trail of the victim is cut, and a node that is still linked is another one.
  case reached =>
    intro id linkedId
    have other : id ≠ victim := by
      rintro rfl
      rw [freed] at linkedId
      exact linkedId rfl
    rw [(kept id other).1] at linkedId
    obtain ⟨adapterId, path, found⟩ := wf.reached linkedId
    refine ⟨adapterId, path, ?_⟩
    rw [find_evictNode wf linked leaf, found, if_neg]
    exact fun same => other (Option.some.inj same)

end Evict

/-! ## Totals over the arena -/

section Total

variable {Amount : Type*} [AddCommMonoid Amount]

/-- What the arena's slots hold together, when `share` says what one holds. -/
def total (share : RadixNode → Amount) (tree : RadixTreeInner) : Amount := (tree.nodes.map share).sum

structure Accountable (share : RadixNode → Amount) : Prop where
  vacant : ∀ {node}, Vacant node → share node = 0
  withChild : ∀ key child node, share (RadixNode.withChild key child node) = share node
  withoutChild : ∀ key node, share (RadixNode.withoutChild key node) = share node

theorem total_modifyNode (share : RadixNode → Amount) (tree : RadixTreeInner) {id : NodeId}
    (bound : id < tree.nodes.length) (change : RadixNode → RadixNode) :
    (tree.modifyNode id change).total share + share (tree.node id) =
      tree.total share + share (change (tree.node id)) :=
  sum_map_modify share tree.nodes id change (tree.node id) (getElem?_nodes tree bound)

theorem total_modifyNode_of_same {share : RadixNode → Amount} (tree : RadixTreeInner) {id : NodeId}
    {change : RadixNode → RadixNode} (same : ∀ node, share (change node) = share node) :
    (tree.modifyNode id change).total share = tree.total share := by
  have cells : ∀ (cells : List RadixNode) position,
      (cells.modify position change).map share = cells.map share := by
    intro cells position
    induction cells generalizing position with
    | nil => simp
    | cons cell cells ih => cases position <;> simp [same, ih]
  simp only [total, modifyNode, cells]

section

variable {share : RadixNode → Amount} (account : Accountable share) {tree : RadixTreeInner}
  (wf : tree.WellFormed)
include account wf

theorem total_allocNode (new : RadixNode) :
    (tree.allocNode new).1.total share = tree.total share + share new := by
  have empty := account.vacant (wf.allocNode_vacant new)
  simp only [allocNode] at empty ⊢
  split
  · next id freeNodes free =>
    simp only [free] at empty
    have bound := (wf.head_free free).1
    have changed := sum_map_set share tree.nodes id (tree.node id) new (getElem?_nodes tree bound)
    rw [empty, add_zero] at changed
    exact changed
  · simp [total]

theorem total_attachChild {adapterId : AdapterId} {outer : List Chunk} {current : NodeId}
    (found : tree.find adapterId outer = some current) (key : Chunk) (new : RadixNode) :
    (tree.attachChild current key new).1.total share + share (tree.node current) =
      tree.total share + share (tree.node current).dropSuffix + share new := by
  have allocated := total_allocNode account (clearSuffix_wellFormed wf found) new
  have cleared := total_modifyNode share tree (wf.find_lt found) RadixNode.dropSuffix
  simp only [attachChild]
  rw [total_modifyNode_of_same _ (account.withChild _ _), allocated, add_right_comm, cleared]

theorem total_rootForInsert (adapterId : AdapterId) :
    (tree.rootForInsert adapterId).1.total share = tree.total share := by
  cases stored : tree.roots.lookup adapterId with
  | some root => rw [rootForInsert_of_some adapterId stored]
  | none =>
    rw [rootForInsert_of_none adapterId stored]
    refine (total_allocNode account wf RadixNode.root).trans ?_
    rw [account.vacant ⟨rfl, rfl, rfl, rfl⟩, add_zero]

theorem total_evictNode {victim parent : NodeId} (linked : (tree.node victim).parent = some parent)
    (leaf : (tree.node victim).children = ∅) :
    (tree.evictNode victim).total share + share (tree.node victim) = tree.total share := by
  obtain ⟨key, keyed, _⟩ := wf.parentNode linked
  have unlinked : tree.unlinkFromParent (tree.node victim) =
      tree.modifyNode parent (RadixNode.withoutChild key) := by
    simp only [unlinkFromParent, linked, keyed]
  have bound : victim < (tree.unlinkFromParent (tree.node victim)).nodes.length := by
    rw [unlinked, length_modifyNode]
    exact victim_lt wf linked
  have apart : (tree.unlinkFromParent (tree.node victim)).node victim = tree.node victim := by
    rw [unlinked, node_modifyNode _ (parent_lt wf linked),
      if_neg (Ne.symm (victim_ne_parent wf linked leaf))]
  have freed := total_modifyNode share _ bound RadixNode.freed
  have vacant : Vacant (tree.node victim).freed := ⟨rfl, rfl, rfl, rfl⟩
  rw [apart, account.vacant vacant, add_zero, unlinked,
    total_modifyNode_of_same _ (account.withoutChild key)] at freed
  rw [← freed, ← unlinked]
  rfl

end

end Total

end Metrale.Cache.RadixTreeInner
