import Metrale.Cache.RadixTree.Inner

/-! # The shape of the arena

A node is addressed by its *trail*: the adapter, and the chunks from the node back to the adapter's
root, innermost first.  `WellFormed` says that child keys, parent links, the free list, the roots
and the stored context hashes all describe one forest; it makes trails and nodes determine each
other (`WellFormed.find_injective`), whatever slots the arena reuses. -/

namespace Metrale.Cache

open Metrale.Foundation

/-- The chunks of the first `i` blocks of `tokens`, innermost first. -/
def trail (tokens : List Token) (blockSize : Nat) : Nat → List Chunk
  | 0 => []
  | i + 1 => chunk tokens blockSize i :: trail tokens blockSize i

@[simp] theorem length_trail (tokens : List Token) (blockSize i : Nat) :
    (trail tokens blockSize i).length = i := by
  induction i with
  | zero => rfl
  | succ i ih => simp [trail, ih]

theorem trail_injective {tokens : List Token} {blockSize i j : Nat}
    (same : trail tokens blockSize i = trail tokens blockSize j) : i = j := by
  simpa using congrArg List.length same

theorem trail_take {tokens : List Token} {blockSize i count : Nat} (inside : i * blockSize ≤ count) :
    trail (tokens.take count) blockSize i = trail tokens blockSize i := by
  induction i with
  | zero => rfl
  | succ i ih =>
    rw [Nat.succ_mul] at inside
    have room : blockSize ≤ count - i * blockSize := by omega
    rw [trail, trail, ih (by omega), chunk, chunk, List.drop_take,
      List.take_take, Nat.min_eq_left room]

theorem trail_of_starts {tokens longer : List Token} {blockSize i : Nat} (starts : tokens <+: longer)
    (inside : i * blockSize ≤ tokens.length) : trail longer blockSize i = trail tokens blockSize i := by
  rw [List.prefix_iff_eq_take.mp starts, trail_take inside]

/-- The context hash that `walk` and `insert` compute along a trail. -/
def trailHash : List Chunk → UInt64
  | [] => 0
  | key :: outer => contextHashCombine (trailHash outer) key

namespace RadixTreeInner

def childAt (tree : RadixTreeInner) (id : NodeId) (key : Chunk) : Option NodeId :=
  (tree.node id).children.lookup key

def find (tree : RadixTreeInner) (adapterId : AdapterId) : List Chunk → Option NodeId
  | [] => tree.rootForRead adapterId
  | key :: outer => (tree.find adapterId outer).bind fun id => tree.childAt id key

structure Vacant (node : RadixNode) : Prop where
  parent : node.parent = none
  children : node.children = ∅
  partialSuffix : node.partialSuffix = none
  blockIdx : node.blockIdx = u32Max

structure WellFormed (tree : RadixTreeInner) : Prop where
  rootNode : ∀ {adapterId root}, tree.roots.lookup adapterId = some root →
    root < tree.nodes.length ∧ root ∉ tree.freeNodes ∧ (tree.node root).parent = none ∧
      (tree.node root).blockIdx = u32Max ∧ (tree.node root).contextHash = 0
  rootsInjective : ∀ {adapterId other root}, tree.roots.lookup adapterId = some root →
    tree.roots.lookup other = some root → adapterId = other
  childNode : ∀ {parent key child}, tree.childAt parent key = some child →
    child < tree.nodes.length ∧ (tree.node child).parent = some parent ∧
      (tree.node child).parentKey = some key ∧
      (tree.node child).contextHash = contextHashCombine (tree.node parent).contextHash key
  parentNode : ∀ {child parent}, (tree.node child).parent = some parent →
    ∃ key, (tree.node child).parentKey = some key ∧ tree.childAt parent key = some child
  freeNodup : tree.freeNodes.Nodup
  freeNode : ∀ {id}, id ∈ tree.freeNodes → id < tree.nodes.length ∧ Vacant (tree.node id)
  suffixNode : ∀ {id}, (tree.node id).partialSuffix ≠ none → (tree.node id).parent ≠ none
  reached : ∀ {id}, (tree.node id).parent ≠ none → ∃ adapterId trail, tree.find adapterId trail = some id

/-! ## Reading an updated arena -/

theorem node_of_length_le (tree : RadixTreeInner) {id : NodeId} (beyond : tree.nodes.length ≤ id) :
    tree.node id = RadixNode.root := by
  simp [node, List.getD_eq_getElem?_getD, List.getElem?_eq_none beyond]

theorem getElem?_nodes (tree : RadixTreeInner) {id : NodeId} (bound : id < tree.nodes.length) :
    tree.nodes[id]? = some (tree.node id) := by
  simp [node, List.getD_eq_getElem?_getD, bound]

theorem childAt_leaf {tree : RadixTreeInner} {id : NodeId} (leaf : (tree.node id).children = ∅) (key : Chunk) :
    tree.childAt id key = none := by
  rw [childAt, leaf, AList.lookup_empty]

@[simp] theorem roots_modifyNode (tree : RadixTreeInner) (id : NodeId) (change : RadixNode → RadixNode) :
    (tree.modifyNode id change).roots = tree.roots := rfl

@[simp] theorem freeNodes_modifyNode (tree : RadixTreeInner) (id : NodeId)
    (change : RadixNode → RadixNode) : (tree.modifyNode id change).freeNodes = tree.freeNodes := rfl

@[simp] theorem length_modifyNode (tree : RadixTreeInner) (id : NodeId)
    (change : RadixNode → RadixNode) :
    (tree.modifyNode id change).nodes.length = tree.nodes.length := by
  simp [modifyNode]

theorem node_modifyNode (tree : RadixTreeInner) {id : NodeId} (bound : id < tree.nodes.length)
    (change : RadixNode → RadixNode) (other : NodeId) :
    (tree.modifyNode id change).node other =
      if other = id then change (tree.node other) else tree.node other := by
  by_cases same : other = id
  · subst same
    simp [modifyNode, node, List.getD_eq_getElem?_getD, bound]
  · simp [modifyNode, node, List.getD_eq_getElem?_getD, same, Ne.symm same]

@[simp] theorem freeNodes_allocNode (tree : RadixTreeInner) (new : RadixNode) :
    (tree.allocNode new).1.freeNodes = tree.freeNodes.tail := by
  simp only [allocNode]
  split
  · next free => simp [free]
  · next free => simp [free]

@[simp] theorem roots_allocNode (tree : RadixTreeInner) (new : RadixNode) :
    (tree.allocNode new).1.roots = tree.roots := by
  unfold allocNode; split <;> rfl

theorem length_le_allocNode (tree : RadixTreeInner) (new : RadixNode) :
    tree.nodes.length ≤ (tree.allocNode new).1.nodes.length := by
  unfold allocNode; split <;> simp

theorem allocNode_not_used (tree : RadixTreeInner) (new : RadixNode) {id : NodeId} (bound : id < tree.nodes.length)
    (used : id ∉ tree.freeNodes) : id ≠ (tree.allocNode new).2 := by
  simp only [allocNode]
  split
  · next free =>
    rw [free] at used
    exact List.ne_of_not_mem_cons used
  · exact Nat.ne_of_lt bound

namespace WellFormed

variable {tree : RadixTreeInner} (wf : tree.WellFormed)
include wf

theorem head_free {id : NodeId} {freeNodes : List NodeId} (free : tree.freeNodes = id :: freeNodes) :
    id < tree.nodes.length ∧ Vacant (tree.node id) :=
  wf.freeNode (by rw [free]; exact List.mem_cons_self)

theorem reached_of_linked {id parent : NodeId} (linked : (tree.node id).parent = some parent) :
    ∃ adapterId trail, tree.find adapterId trail = some id := by
  apply wf.reached
  rw [linked]
  exact Option.some_ne_none _

theorem allocNode_bound (new : RadixNode) :
    (tree.allocNode new).2 < (tree.allocNode new).1.nodes.length := by
  simp only [allocNode]
  split
  · next id freeNodes free =>
    have bound := (wf.head_free free).1
    simpa using bound
  · simp

theorem node_allocNode (new : RadixNode) (other : NodeId) :
    (tree.allocNode new).1.node other =
      if other = (tree.allocNode new).2 then new else tree.node other := by
  unfold allocNode
  split
  · next id freeNodes free =>
    have bound := (wf.head_free free).1
    by_cases same : other = id
    · subst same
      simp [node, List.getD_eq_getElem?_getD, bound]
    · simp [node, List.getD_eq_getElem?_getD, Ne.symm same, same]
  · by_cases same : other = tree.nodes.length
    · subst same
      simp [node, List.getD_eq_getElem?_getD]
    · rcases Nat.lt_or_gt_of_ne same with below | beyond
      · simp [node, List.getD_eq_getElem?_getD, List.getElem?_append_left below, same]
      · simp only [same, if_false]
        rw [node_of_length_le _ (Nat.le_of_lt beyond), node_of_length_le]
        simp only [List.length_append, List.length_singleton]
        omega

theorem allocNode_vacant (new : RadixNode) : Vacant (tree.node (tree.allocNode new).2) := by
  simp only [allocNode]
  split
  · next id freeNodes free =>
    exact (wf.head_free free).2
  · simp only [node_of_length_le tree (Nat.le_refl _)]
    exact ⟨rfl, rfl, rfl, rfl⟩

theorem allocNode_not_root (new : RadixNode) {adapterId : AdapterId} :
    tree.roots.lookup adapterId ≠ some (tree.allocNode new).2 := by
  intro stored
  have rootFacts := wf.rootNode stored
  simp only [allocNode] at rootFacts
  split at rootFacts
  · next free => exact rootFacts.2.1 (by rw [free]; exact List.mem_cons_self)
  · exact Nat.lt_irrefl _ rootFacts.1

theorem allocNode_not_free (new : RadixNode) : (tree.allocNode new).2 ∉ tree.freeNodes.tail := by
  have nodup := wf.freeNodup
  simp only [allocNode]
  split
  · next free =>
    rw [free] at nodup ⊢
    exact (List.nodup_cons.mp nodup).1
  · next free => simp [free]

/-! ## Trails and nodes -/

theorem find_lt {adapterId : AdapterId} {outer : List Chunk} {id : NodeId}
    (found : tree.find adapterId outer = some id) : id < tree.nodes.length := by
  cases outer with
  | nil => exact (wf.rootNode found).1
  | cons key outer =>
    obtain ⟨parent, _, child⟩ := Option.bind_eq_some_iff.mp found
    exact (wf.childNode child).1

theorem find_not_free {adapterId : AdapterId} {outer : List Chunk} {id : NodeId}
    (found : tree.find adapterId outer = some id) : id ∉ tree.freeNodes := by
  intro free
  cases outer with
  | nil => exact (wf.rootNode found).2.1 free
  | cons key outer =>
    obtain ⟨parent, _, child⟩ := Option.bind_eq_some_iff.mp found
    have linked := (wf.childNode child).2.1
    rw [(wf.freeNode free).2.parent] at linked
    cases linked

theorem find_parent {adapterId : AdapterId} {key : Chunk} {outer : List Chunk} {id : NodeId}
    (found : tree.find adapterId (key :: outer) = some id) :
    ∃ parent, tree.find adapterId outer = some parent ∧ tree.childAt parent key = some id ∧
      (tree.node id).parent = some parent := by
  obtain ⟨parent, foundParent, child⟩ := Option.bind_eq_some_iff.mp found
  exact ⟨parent, foundParent, child, (wf.childNode child).2.1⟩

theorem find_injective {adapterId other : AdapterId} {left right : List Chunk} {id : NodeId}
    (foundLeft : tree.find adapterId left = some id) (foundRight : tree.find other right = some id) :
    adapterId = other ∧ left = right := by
  induction left generalizing right id with
  -- A root has no parent and a child has one.
  | nil =>
    cases right with
    | nil => exact ⟨wf.rootsInjective foundLeft foundRight, rfl⟩
    | cons key right =>
      obtain ⟨parent, _, _, linked⟩ := wf.find_parent foundRight
      rw [(wf.rootNode foundLeft).2.2.1] at linked
      cases linked
  | cons key left ih =>
    cases right with
    | nil =>
      obtain ⟨parent, _, _, linked⟩ := wf.find_parent foundLeft
      rw [(wf.rootNode foundRight).2.2.1] at linked
      cases linked
    | cons otherKey right =>
      obtain ⟨parent, foundParent, child, linked⟩ := wf.find_parent foundLeft
      obtain ⟨otherParent, foundOther, otherChild, otherLinked⟩ := wf.find_parent foundRight
      rw [linked] at otherLinked
      cases otherLinked
      -- The parents agree, and with them the trails without the last chunk.
      obtain ⟨sameAdapter, sameOuter⟩ := ih foundParent foundOther
      have sameKey := (wf.childNode child).2.2.1.symm.trans (wf.childNode otherChild).2.2.1
      cases sameKey
      exact ⟨sameAdapter, by rw [sameOuter]⟩

theorem find_contextHash {adapterId : AdapterId} {outer : List Chunk} {id : NodeId}
    (found : tree.find adapterId outer = some id) : (tree.node id).contextHash = trailHash outer := by
  induction outer generalizing id with
  | nil => exact (wf.rootNode found).2.2.2.2
  | cons key outer ih =>
    obtain ⟨parent, foundParent, child, _⟩ := wf.find_parent found
    rw [(wf.childNode child).2.2.2, ih foundParent, trailHash]

theorem find_isSome_parent {adapterId : AdapterId} {outer : List Chunk} {id : NodeId}
    (found : tree.find adapterId outer = some id) :
    (tree.node id).parent ≠ none ↔ outer ≠ [] := by
  cases outer with
  | nil => simp [(wf.rootNode found).2.2.1]
  | cons key outer =>
    obtain ⟨parent, _, _, linked⟩ := wf.find_parent found
    simp [linked]

end WellFormed

/-! ## Updates that keep the links -/

structure SameLinks (before after : RadixNode) : Prop where
  children : after.children = before.children
  parent : after.parent = before.parent
  parentKey : after.parentKey = before.parentKey
  blockIdx : after.blockIdx = before.blockIdx
  contextHash : after.contextHash = before.contextHash

theorem find_congr {tree tree' : RadixTreeInner} (roots : tree'.roots = tree.roots)
    (children : ∀ id key, tree'.childAt id key = tree.childAt id key) (adapterId : AdapterId)
    (outer : List Chunk) : tree'.find adapterId outer = tree.find adapterId outer := by
  induction outer with
  | nil => simp only [find, rootForRead, roots]
  | cons key outer ih => simp only [find, ih, children]

section

variable {tree : RadixTreeInner} {id : NodeId} {change : RadixNode → RadixNode}
  (bound : id < tree.nodes.length) (links : SameLinks (tree.node id) (change (tree.node id)))
include bound links

theorem sameLinks_modifyNode (other : NodeId) :
    SameLinks (tree.node other) ((tree.modifyNode id change).node other) := by
  rw [node_modifyNode tree bound]
  split
  · next same => subst same; exact links
  · exact ⟨rfl, rfl, rfl, rfl, rfl⟩

theorem childAt_modifyNode (other : NodeId) (key : Chunk) :
    (tree.modifyNode id change).childAt other key = tree.childAt other key := by
  simp only [childAt, (sameLinks_modifyNode bound links other).children]

theorem find_modifyNode (adapterId : AdapterId) (outer : List Chunk) :
    (tree.modifyNode id change).find adapterId outer = tree.find adapterId outer :=
  find_congr (roots_modifyNode tree id change) (childAt_modifyNode bound links) adapterId outer

theorem WellFormed.modifyNode (wf : tree.WellFormed)
    (suffix : (change (tree.node id)).partialSuffix ≠ none → (tree.node id).parent ≠ none) :
    (tree.modifyNode id change).WellFormed := by
  have same := sameLinks_modifyNode bound links
  have suffixes : ∀ other, ((tree.modifyNode id change).node other).partialSuffix ≠ none →
      (tree.node other).parent ≠ none := by
    intro other stored
    rw [node_modifyNode tree bound] at stored
    split at stored
    · next equal => subst equal; exact suffix stored
    · exact wf.suffixNode stored
  constructor
  case rootNode =>
    intro adapterId root stored
    obtain ⟨rootBound, used, parent, block, hash⟩ := wf.rootNode stored
    refine ⟨by simpa using rootBound, used, ?_, ?_, ?_⟩
    · rw [(same root).parent, parent]
    · rw [(same root).blockIdx, block]
    · rw [(same root).contextHash, hash]
  case rootsInjective => exact wf.rootsInjective
  case childNode =>
    intro parent key child stored
    rw [childAt_modifyNode bound links] at stored
    obtain ⟨childBound, linked, keyed, hash⟩ := wf.childNode stored
    refine ⟨by simpa using childBound, ?_, ?_, ?_⟩
    · rw [(same child).parent, linked]
    · rw [(same child).parentKey, keyed]
    · rw [(same child).contextHash, (same parent).contextHash, hash]
  case parentNode =>
    intro child parent linked
    rw [(same child).parent] at linked
    obtain ⟨key, keyed, stored⟩ := wf.parentNode linked
    refine ⟨key, ?_, ?_⟩
    · rw [(same child).parentKey, keyed]
    · rw [childAt_modifyNode bound links, stored]
  case freeNodup => exact wf.freeNodup
  case freeNode =>
    intro other free
    obtain ⟨otherBound, vacant⟩ := wf.freeNode free
    refine ⟨by simpa using otherBound, ?_, ?_, ?_, ?_⟩
    · rw [(same other).parent, vacant.parent]
    · rw [(same other).children, vacant.children]
    -- A vacant node has no parent, and a suffix needs one.
    · by_contra stored
      exact suffixes other stored vacant.parent
    · rw [(same other).blockIdx, vacant.blockIdx]
  case suffixNode =>
    intro other stored
    rw [(same other).parent]
    exact suffixes other stored
  case reached =>
    intro other linked
    rw [(same other).parent] at linked
    obtain ⟨adapterId, outer, found⟩ := wf.reached linked
    exact ⟨adapterId, outer, by rw [find_modifyNode bound links, found]⟩

end

end RadixTreeInner

end Metrale.Cache
