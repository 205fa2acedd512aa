import Metrale.Cache.RadixTree.Updates
import Metrale.Foundation.PathMap

/-! # The tree as a map from prefixes to blocks

`cached` forgets the arena: what is left of the tree is, for each adapter and trail, a block and a
reference count.  Each operation of the tree is an operation of this map:

* `inc_refs` and `dec_refs` change the counts along a path (`cached_incRefs`, `cached_decRefs`);
* `insert` stores what is missing along a path and counts what is there (`cached_insert`);
* `evict` prunes leaves that only the cache holds (`evict_pruned`);
* `walk` finds the longest referenced path (`walk_longest`).
-/

namespace Metrale.Cache

open Metrale.Foundation

structure Cached where
  block : BlockId
  refs : Nat

def Cached.acquire (value : Cached) : Cached := { value with refs := value.refs + 1 }

def Cached.release (value : Cached) : Cached := { value with refs := value.refs - 1 }

abbrev PrefixMap := PathMap AdapterId Chunk Cached

def OnPath (tokens : List Token) (blockSize blocks : Nat) (path : List Chunk) : Prop :=
  path ≠ [] ∧ path.length ≤ blocks ∧ path = trail tokens blockSize path.length

instance (tokens : List Token) (blockSize blocks : Nat) :
    DecidablePred (OnPath tokens blockSize blocks) :=
  fun _ => inferInstanceAs (Decidable (_ ∧ _ ∧ _))

theorem onPath_trail {tokens : List Token} {blockSize blocks i : Nat} :
    OnPath tokens blockSize blocks (trail tokens blockSize i) ↔ 0 < i ∧ i ≤ blocks := by
  have empty : trail tokens blockSize i ≠ [] ↔ 0 < i := by
    rw [← List.length_pos_iff, length_trail]
  rw [OnPath, empty, length_trail]
  simp

theorem onPath_of_lt {tokens : List Token} {blockSize blocks i : Nat} (below : i < blocks) :
    OnPath tokens blockSize blocks (trail tokens blockSize (i + 1)) :=
  onPath_trail.mpr ⟨Nat.succ_pos i, below⟩

theorem onPath_iff {tokens : List Token} {blockSize blocks : Nat} {path : List Chunk} :
    OnPath tokens blockSize blocks path ↔ ∃ i, i < blocks ∧ path = trail tokens blockSize (i + 1) := by
  constructor
  · rintro ⟨nonempty, le, same⟩
    have pos : 0 < path.length := List.length_pos_iff.mpr nonempty
    refine ⟨path.length - 1, by omega, ?_⟩
    rw [Nat.sub_add_cancel pos]
    exact same
  · rintro ⟨i, below, rfl⟩
    exact onPath_trail.mpr ⟨Nat.succ_pos i, below⟩

theorem onPath_succ {tokens : List Token} {blockSize blocks : Nat} {path : List Chunk} :
    OnPath tokens blockSize (blocks + 1) path ↔
      OnPath tokens blockSize blocks path ∨ path = trail tokens blockSize (blocks + 1) := by
  simp only [onPath_iff, Nat.lt_succ_iff_lt_or_eq, or_and_right, exists_or, exists_eq_left]

/-- What `insert` leaves at a trail it passes: the last of its blocks is number
`path.length - 1`. -/
def insertedAt (args : RadixTreeInner.InsertArgs) (path : List Chunk) : Option Cached → Option Cached
  | some old => some
      { old with
        refs := (if old.refs = 0 then 1 else old.refs) +
          (if args.isSeqOwned (path.length - 1) then 1 else 0) }
  | none => some
      { block := args.blockTable.getD (path.length - 1) u32Max
        refs := if args.isSeqOwned (path.length - 1) then 2 else 1 }

def RadixNode.cached (node : RadixNode) : Cached := ⟨node.blockIdx, node.refCount⟩

namespace RadixTreeInner

def cached (tree : RadixTreeInner) : PrefixMap
  | _, [] => none
  | adapterId, key :: outer =>
    (tree.find adapterId (key :: outer)).map fun id => (tree.node id).cached

theorem cached_of_find {tree : RadixTreeInner} {adapterId : AdapterId} {path : List Chunk}
    {id : NodeId} (found : tree.find adapterId path = some id) (proper : path ≠ []) :
    tree.cached adapterId path = some ((tree.node id).cached) := by
  cases path with
  | nil => exact absurd rfl proper
  | cons key outer => rw [cached, found, Option.map_some]

theorem cached_eq_some_iff {tree : RadixTreeInner} {adapterId : AdapterId} {path : List Chunk}
    {value : Cached} :
    tree.cached adapterId path = some value ↔
      path ≠ [] ∧ ∃ id, tree.find adapterId path = some id ∧ (tree.node id).cached = value := by
  cases path with
  | nil => simp [cached]
  | cons key outer => simp [cached, Option.map_eq_some_iff]

theorem cached_eq_none_iff {tree : RadixTreeInner} {adapterId : AdapterId} {path : List Chunk} :
    tree.cached adapterId path = none ↔ path = [] ∨ tree.find adapterId path = none := by
  cases path with
  | nil => simp [cached]
  | cons key outer => simp [cached]

theorem cached_closed (tree : RadixTreeInner) : tree.cached.Closed := by
  intro adapterId key path stored proper
  obtain ⟨value, stored⟩ := Option.isSome_iff_exists.mp stored
  obtain ⟨_, id, found, _⟩ := cached_eq_some_iff.mp stored
  obtain ⟨parent, foundParent, _⟩ := Option.bind_eq_some_iff.mp found
  rw [cached_of_find foundParent proper]
  rfl

theorem cached_congr {tree tree' : RadixTreeInner}
    (trails : ∀ adapterId path, tree'.find adapterId path = tree.find adapterId path)
    (nodes : ∀ {adapterId path id}, tree.find adapterId path = some id →
      (tree'.node id).cached = (tree.node id).cached) :
    tree'.cached = tree.cached := by
  funext adapterId path
  cases path with
  | nil => rfl
  | cons key outer =>
    rw [cached, cached, trails]
    cases found : tree.find adapterId (key :: outer) with
    | none => rfl
    | some id => rw [Option.map_some, Option.map_some, nodes found]

theorem find_trail_of_le {tree : RadixTreeInner} {adapterId : AdapterId} {tokens : List Token}
    {blockSize i j : Nat} (le : i ≤ j)
    (found : (tree.find adapterId (trail tokens blockSize j)).isSome) :
    (tree.find adapterId (trail tokens blockSize i)).isSome := by
  induction j with
  | zero =>
    cases Nat.le_zero.mp le
    exact found
  | succ j ih =>
    rcases Nat.of_le_succ le with below | same
    · apply ih below
      rw [trail, find] at found
      exact Option.isSome_of_isSome_bind found
    · rw [same]
      exact found

/-! ## The access counter and the roots -/

@[simp] theorem find_nextAccess (tree : RadixTreeInner) (adapterId : AdapterId) (path : List Chunk) :
    tree.nextAccess.1.find adapterId path = tree.find adapterId path :=
  @find_congr tree tree.nextAccess.1 rfl (fun _ _ => rfl) adapterId path

@[simp] theorem cached_nextAccess (tree : RadixTreeInner) : tree.nextAccess.1.cached = tree.cached :=
  cached_congr (find_nextAccess tree) fun _ => rfl

theorem WellFormed.nextAccess {tree : RadixTreeInner} (wf : tree.WellFormed) :
    tree.nextAccess.1.WellFormed where
  rootNode := wf.rootNode
  rootsInjective := wf.rootsInjective
  childNode := wf.childNode
  parentNode := wf.parentNode
  freeNodup := wf.freeNodup
  freeNode := wf.freeNode
  suffixNode := wf.suffixNode
  reached := by
    intro id linked
    obtain ⟨adapterId, path, found⟩ := wf.reached linked
    exact ⟨adapterId, path, by rw [find_nextAccess, found]⟩

theorem WellFormed.new (partialTailSharing : Bool) : (new partialTailSharing).WellFormed := by
  have nodes : ∀ id, (RadixTreeInner.new partialTailSharing).node id = RadixNode.root := by
    intro id
    cases id with
    | zero => rfl
    | succ id => exact node_of_length_le _ (Nat.succ_le_succ (Nat.zero_le id))
  have rootOnly : ∀ {adapterId root}, (RadixTreeInner.new partialTailSharing).roots.lookup adapterId =
      some root → adapterId = 0 ∧ root = 0 := by
    intro adapterId root stored
    have inserted := (HashMap.lookup_insert_if (∅ : HashMap AdapterId NodeId) 0 adapterId 0).symm.trans stored
    split at inserted
    · next same => exact ⟨same, (Option.some.inj inserted).symm⟩
    · cases inserted
  constructor
  case rootNode =>
    intro adapterId root stored
    obtain ⟨_, rfl⟩ := rootOnly stored
    rw [nodes]
    exact ⟨Nat.zero_lt_one, List.not_mem_nil, rfl, rfl, rfl⟩
  case rootsInjective =>
    intro adapterId other root left right
    rw [(rootOnly left).1, (rootOnly right).1]
  case childNode =>
    intro parent key child stored
    rw [childAt, nodes] at stored
    cases stored
  case parentNode =>
    intro child parent linked
    rw [nodes] at linked
    cases linked
  case freeNodup => exact List.nodup_nil
  case freeNode => exact fun free => absurd free List.not_mem_nil
  case suffixNode =>
    intro id stored
    rw [nodes] at stored
    exact absurd rfl stored
  case reached =>
    intro id linked
    rw [nodes] at linked
    exact absurd rfl linked

theorem cached_new (partialTailSharing : Bool) :
    (RadixTreeInner.new partialTailSharing).cached = fun _ _ => none := by
  funext adapterId path
  rw [cached_eq_none_iff]
  cases path with
  | nil => exact .inl rfl
  | cons key outer =>
    refine .inr ?_
    cases found : (RadixTreeInner.new partialTailSharing).find adapterId (key :: outer) with
    | none => rfl
    | some id =>
      obtain ⟨parent, _, child, linked⟩ := (WellFormed.new partialTailSharing).find_parent found
      cases id with
      | zero => cases linked
      | succ id =>
        rw [node_of_length_le _ (Nat.succ_le_succ (Nat.zero_le id))] at linked
        cases linked

theorem cached_rootForInsert {tree : RadixTreeInner} (wf : tree.WellFormed) (adapterId : AdapterId) :
    (tree.rootForInsert adapterId).1.cached = tree.cached := by
  funext other path
  cases path with
  | nil => rfl
  | cons key outer =>
    rw [cached, cached, find_rootForInsert wf, if_neg (by simp)]
    cases found : tree.find other (key :: outer) with
    | none => rfl
    | some id => rw [Option.map_some, Option.map_some, node_rootForInsert_of_found wf adapterId found]

/-! ## `inc_refs`, `dec_refs` -/

structure CountChange (change : RadixNode → RadixNode) : Prop where
  links : ∀ node, SameLinks node (change node)
  suffix : ∀ node, (change node).partialSuffix = node.partialSuffix

theorem CountChange.modifyNode {change : RadixNode → RadixNode} (counts : CountChange change)
    {tree : RadixTreeInner} (wf : tree.WellFormed) {id : NodeId} (bound : id < tree.nodes.length) :
    (tree.modifyNode id change).WellFormed :=
  wf.modifyNode bound (counts.links _) fun stored => by
    rw [counts.suffix] at stored
    exact wf.suffixNode stored

section ModifyPath

variable {change : RadixNode → RadixNode} (counts : CountChange change) {adapterId : AdapterId}
  (tokens : List Token) (blockSize : Nat)
include counts

theorem modifyPath_spec (remaining i : Nat) {tree : RadixTreeInner} (wf : tree.WellFormed)
    {current : NodeId} (found : tree.find adapterId (trail tokens blockSize i) = some current) :
    (modifyPath change tokens blockSize remaining i current tree).WellFormed ∧
    (∀ other path, (modifyPath change tokens blockSize remaining i current tree).find other path =
      tree.find other path) ∧
    ∀ {other path id}, tree.find other path = some id →
      (modifyPath change tokens blockSize remaining i current tree).node id =
        if other = adapterId ∧ i < path.length ∧ OnPath tokens blockSize (i + remaining) path then
          change (tree.node id)
        else tree.node id := by
  induction remaining generalizing i current tree with
  | zero =>
    refine ⟨wf, fun _ _ => rfl, ?_⟩
    intro other path id foundId
    rw [if_neg]
    · rfl
    rintro ⟨_, beyond, _, le, _⟩
    omega
  | succ remaining ih =>
    rw [modifyPath]
    split
    · next child stored =>
      have foundChild : tree.find adapterId (trail tokens blockSize (i + 1)) = some child := by
        rw [trail, find, found]
        exact stored
      have bound := wf.find_lt foundChild
      have trails := find_modifyNode bound (counts.links (tree.node child))
      obtain ⟨wfLast, trailsLast, nodesLast⟩ := ih (i + 1) (counts.modifyNode wf bound)
        ((trails adapterId _).trans foundChild)
      refine ⟨wfLast, fun other path => (trailsLast other path).trans (trails other path), ?_⟩
      intro other path id foundId
      rw [nodesLast ((trails other path).trans foundId), node_modifyNode tree bound]
      by_cases atChild : id = child
      · subst atChild
        obtain ⟨rfl, rfl⟩ := wf.find_injective foundChild foundId
        have passed : ¬ i + 1 < (trail tokens blockSize (i + 1)).length := by simp
        have reached : i < (trail tokens blockSize (i + 1)).length ∧
            OnPath tokens blockSize (i + (remaining + 1)) (trail tokens blockSize (i + 1)) := by
          rw [length_trail, onPath_trail]
          omega
        simp only [passed, reached, false_and, and_false, if_false, if_true, and_self]
      · have notChild : ¬ (other = adapterId ∧ path = trail tokens blockSize (i + 1)) := by
          rintro ⟨rfl, rfl⟩
          rw [foundChild] at foundId
          exact atChild (Option.some.inj foundId).symm
        have agree : (other = adapterId ∧ i + 1 < path.length ∧
              OnPath tokens blockSize (i + 1 + remaining) path) ↔
            (other = adapterId ∧ i < path.length ∧
              OnPath tokens blockSize (i + (remaining + 1)) path) := by
          rw [show i + (remaining + 1) = i + 1 + remaining by omega]
          constructor
          · rintro ⟨same, beyond, member⟩
            exact ⟨same, by omega, member⟩
          · rintro ⟨same, beyond, member⟩
            refine ⟨same, ?_, member⟩
            by_contra le
            have length : path.length = i + 1 := by omega
            exact notChild ⟨same, by rw [← length]; exact member.2.2⟩
        simp only [agree, if_neg atChild]
    · next absent =>
      refine ⟨wf, fun _ _ => rfl, ?_⟩
      intro other path id foundId
      rw [if_neg]
      rintro ⟨rfl, beyond, _, _, same⟩
      -- The path would go through the chunk that has no node.
      have through : (tree.find other (trail tokens blockSize (i + 1))).isSome := by
        apply find_trail_of_le (j := path.length) beyond
        rw [← same, foundId]
        rfl
      rw [trail, find, found, Option.bind_some, childAt, absent] at through
      cases through

theorem cached_modifyPath {tree : RadixTreeInner} (wf : tree.WellFormed) {root : NodeId}
    (stored : tree.rootForRead adapterId = some root) {count : Cached → Cached}
    (effect : ∀ node, (change node).cached = count node.cached) (remaining : Nat) :
    (modifyPath change tokens blockSize remaining 0 root tree).cached =
      tree.cached.alter adapterId (OnPath tokens blockSize remaining) (fun _ value => value.map count) := by
  obtain ⟨_, trails, nodes⟩ := modifyPath_spec counts tokens blockSize
    remaining 0 wf stored
  funext other path
  cases path with
  | nil => simp [PathMap.alter, OnPath, cached]
  | cons key outer =>
    rw [cached, trails]
    cases found : tree.find other (key :: outer) with
    | none =>
      have absent := cached_eq_none_iff.mpr (.inr found)
      simp [PathMap.alter, absent]
    | some id =>
      have value := cached_of_find found (by simp)
      rw [Option.map_some, nodes found, PathMap.alter, value]
      simp only [List.length_cons, Nat.zero_lt_succ, true_and, Nat.zero_add]
      split
      · rw [effect, Option.map_some]
      · rfl

end ModifyPath

theorem cached_eq_none_of_no_root {tree : RadixTreeInner} {adapterId : AdapterId}
    (absent : tree.rootForRead adapterId = none) (path : List Chunk) :
    tree.cached adapterId path = none := by
  rw [cached_eq_none_iff]
  refine .inr ?_
  induction path with
  | nil => exact absent
  | cons key path ih => rw [find, ih, Option.bind_none]

theorem alter_map_of_no_root {tree : RadixTreeInner} {adapterId : AdapterId}
    (absent : tree.rootForRead adapterId = none) (on : List Chunk → Prop) [DecidablePred on]
    (count : Cached → Cached) :
    tree.cached.alter adapterId on (fun _ value => value.map count) = tree.cached := by
  funext other path
  simp only [PathMap.alter]
  split
  · next same => simp only [same.1, cached_eq_none_of_no_root absent, Option.map_none]
  · rfl

theorem incRefs_spec {tree : RadixTreeInner} (wf : tree.WellFormed) (tokens : List Token)
    (blockSize numMatched : Nat) (adapterId : AdapterId) :
    (tree.incRefs tokens blockSize numMatched adapterId).WellFormed ∧
    (tree.incRefs tokens blockSize numMatched adapterId).cached =
      tree.cached.alter adapterId (OnPath tokens blockSize (numMatched / blockSize))
        (fun _ value => value.map Cached.acquire) := by
  have wfNext := wf.nextAccess
  have counts : CountChange fun node =>
      { node with refCount := node.refCount + 1, lastAccess := tree.nextAccess.2 } :=
    ⟨fun _ => ⟨rfl, rfl, rfl, rfl, rfl⟩, fun _ => rfl⟩
  cases stored : tree.nextAccess.1.rootForRead adapterId with
  | none =>
    have unchanged : tree.incRefs tokens blockSize numMatched adapterId = tree.nextAccess.1 := by
      simp only [incRefs, stored]
    rw [unchanged, ← cached_nextAccess tree]
    exact ⟨wfNext, (alter_map_of_no_root stored _ _).symm⟩
  | some root =>
    have loop : tree.incRefs tokens blockSize numMatched adapterId =
        modifyPath (fun node =>
            { node with refCount := node.refCount + 1, lastAccess := tree.nextAccess.2 })
          tokens blockSize (numMatched / blockSize) 0 root tree.nextAccess.1 := by
      simp only [incRefs, stored]
    rw [loop, ← cached_nextAccess tree]
    exact ⟨(modifyPath_spec counts tokens blockSize _ 0 wfNext stored).1,
      cached_modifyPath counts tokens blockSize wfNext stored (fun _ => rfl) _⟩

theorem decRefs_spec {tree : RadixTreeInner} (wf : tree.WellFormed) (tokens : List Token)
    (blockSize matchedTokens : Nat) (adapterId : AdapterId) :
    (tree.decRefs tokens blockSize matchedTokens adapterId).WellFormed ∧
    (tree.decRefs tokens blockSize matchedTokens adapterId).cached =
      tree.cached.alter adapterId
        (OnPath tokens blockSize (min (matchedTokens / blockSize) (tokens.length / blockSize)))
        (fun _ value => value.map Cached.release) := by
  -- `saturating_sub`: a count of 0 stays.
  have counts : CountChange fun node =>
      if node.refCount > 0 then { node with refCount := node.refCount - 1 } else node := by
    constructor
    · intro node
      split <;> exact ⟨rfl, rfl, rfl, rfl, rfl⟩
    · intro node
      split <;> rfl
  have effect : ∀ node : RadixNode,
      (if node.refCount > 0 then { node with refCount := node.refCount - 1 } else node).cached =
        node.cached.release := by
    intro node
    split
    · rfl
    · next zero => simp [RadixNode.cached, Cached.release, Nat.eq_zero_of_not_pos zero]
  cases stored : tree.rootForRead adapterId with
  | none =>
    have unchanged : tree.decRefs tokens blockSize matchedTokens adapterId = tree := by
      simp only [decRefs, stored]
    rw [unchanged]
    exact ⟨wf, (alter_map_of_no_root stored _ _).symm⟩
  | some root =>
    have loop : tree.decRefs tokens blockSize matchedTokens adapterId =
        modifyPath (fun node =>
            if node.refCount > 0 then { node with refCount := node.refCount - 1 } else node)
          tokens blockSize (min (matchedTokens / blockSize) (tokens.length / blockSize)) 0 root tree := by
      simp only [decRefs, stored]
    rw [loop]
    exact ⟨(modifyPath_spec counts tokens blockSize _ 0 wf stored).1,
      cached_modifyPath counts tokens blockSize wf stored effect _⟩

/-! ## `insert` -/

/-- The invariant of `insert`'s loop: `current` is the node of the blocks done, and only their
trails have changed. -/
structure InsertedTo (args : InsertArgs) (before : PrefixMap) (rounds : Nat) (state : InsertState) :
    Prop where
  wellFormed : state.tree.WellFormed
  current : state.tree.find args.adapterId (trail args.tokens args.blockSize rounds) = some state.current
  hash : state.parentCtxHash = trailHash (trail args.tokens args.blockSize rounds)
  cached : state.tree.cached =
    before.alter args.adapterId (OnPath args.tokens args.blockSize rounds) (insertedAt args)

theorem alter_onPath_succ {args : InsertArgs} {before middle after : PrefixMap} {rounds : Nat}
    (done : middle =
      before.alter args.adapterId (OnPath args.tokens args.blockSize rounds) (insertedAt args))
    (here : after args.adapterId (trail args.tokens args.blockSize (rounds + 1)) =
      insertedAt args (trail args.tokens args.blockSize (rounds + 1))
        (middle args.adapterId (trail args.tokens args.blockSize (rounds + 1))))
    (apart : ∀ adapterId path,
      ¬ (adapterId = args.adapterId ∧ path = trail args.tokens args.blockSize (rounds + 1)) →
      after adapterId path = middle adapterId path) :
    after =
      before.alter args.adapterId (OnPath args.tokens args.blockSize (rounds + 1)) (insertedAt args) := by
  subst done
  funext adapterId path
  by_cases last : adapterId = args.adapterId ∧ path = trail args.tokens args.blockSize (rounds + 1)
  -- The trail of this round was not on the path of the rounds before.
  · obtain ⟨rfl, rfl⟩ := last
    have later : ¬ OnPath args.tokens args.blockSize rounds
        (trail args.tokens args.blockSize (rounds + 1)) := by
      rw [onPath_trail]; omega
    have now : OnPath args.tokens args.blockSize (rounds + 1)
        (trail args.tokens args.blockSize (rounds + 1)) := by
      rw [onPath_trail]; omega
    rw [here, PathMap.alter_of_not_on _ _ later, PathMap.alter_of_on _ now]
  · have agree : (adapterId = args.adapterId ∧ OnPath args.tokens args.blockSize (rounds + 1) path) ↔
        (adapterId = args.adapterId ∧ OnPath args.tokens args.blockSize rounds path) := by
      rw [onPath_succ]
      constructor
      · rintro ⟨same, member | equal⟩
        · exact ⟨same, member⟩
        · exact absurd ⟨same, equal⟩ last
      · rintro ⟨same, member⟩
        exact ⟨same, .inl member⟩
    simp only [apart adapterId path last, PathMap.alter, agree]

section InsertChunk

variable {args : InsertArgs} (access : Nat) {rounds : Nat} {before : PrefixMap} {state : InsertState}
  (invariant : InsertedTo args before rounds state)
include invariant

theorem InsertedTo.found_child {child : NodeId}
    (stored : state.tree.childAt state.current (args.chunkAt rounds) = some child) :
    state.tree.find args.adapterId (trail args.tokens args.blockSize (rounds + 1)) = some child := by
  rw [trail, find, invariant.current]
  exact stored

theorem InsertedTo.links {child : NodeId}
    (stored : state.tree.childAt state.current (args.chunkAt rounds) = some child) (takesDisk : Bool) :
    SameLinks (state.tree.node child)
      (existingNode args access rounds (contextHashCombine state.parentCtxHash (args.chunkAt rounds))
        takesDisk (state.tree.node child)) := by
  refine ⟨rfl, rfl, rfl, rfl, ?_⟩
  rw [invariant.wellFormed.find_contextHash (invariant.found_child stored), trail, trailHash,
    ← invariant.hash]
  rfl

theorem InsertedTo.existing {child : NodeId}
    (stored : state.tree.childAt state.current (args.chunkAt rounds) = some child) :
    InsertedTo args before (rounds + 1) (insertExisting args access rounds child state) := by
  have wf := invariant.wellFormed
  have found := invariant.found_child stored
  have bound := wf.find_lt found
  have linked := invariant.links access stored
  have hash : contextHashCombine state.parentCtxHash (args.chunkAt rounds) =
      trailHash (trail args.tokens args.blockSize (rounds + 1)) := by
    rw [invariant.hash, trail, trailHash, InsertArgs.chunkAt]
  refine ⟨?_, ?_, hash, ?_⟩
  · exact wf.modifyNode bound (linked _) wf.suffixNode
  · exact (find_modifyNode bound (linked _) args.adapterId _).trans found
  · apply alter_onPath_succ invariant.cached
    · rw [cached_of_find found (by simp [trail])]
      refine (cached_of_find ((find_modifyNode bound (linked _) _ _).trans found)
        (by simp [trail])).trans ?_
      rw [node_modifyNode _ bound, if_pos rfl, insertedAt, length_trail]
      rfl
    -- No other trail leads to the child, so no other value changes.
    · intro adapterId path apart
      cases path with
      | nil => rfl
      | cons key outer =>
        rw [RadixTreeInner.cached, RadixTreeInner.cached]
        refine (congrArg _ (find_modifyNode bound (linked _) _ _)).trans ?_
        cases foundOther : state.tree.find adapterId (key :: outer) with
        | none => rfl
        | some id =>
          have other : id ≠ child := by
            rintro rfl
            exact apart (wf.find_injective foundOther found)
          simp only [Option.map_some, insertExisting, node_modifyNode _ bound, if_neg other]

theorem InsertedTo.new (absent : state.tree.childAt state.current (args.chunkAt rounds) = none) :
    InsertedTo args before (rounds + 1) (insertNew args access rounds state) := by
  have wf := invariant.wellFormed
  have hash : contextHashCombine state.parentCtxHash (args.chunkAt rounds) =
      trailHash (trail args.tokens args.blockSize (rounds + 1)) := by
    rw [invariant.hash, trail, trailHash, InsertArgs.chunkAt]
  -- The hash that the loop carries is the one stored in the node it stands on.
  have keyedHash : contextHashCombine state.parentCtxHash (args.chunkAt rounds) =
      contextHashCombine (state.tree.node state.current).contextHash (args.chunkAt rounds) := by
    rw [invariant.hash, wf.find_contextHash invariant.current]
  have leaf : (newNode args access rounds state.current
      (contextHashCombine state.parentCtxHash (args.chunkAt rounds))).children = ∅ := rfl
  have trails := find_attachChild wf invariant.current (args.chunkAt rounds) absent leaf
  have nodes := node_attachChild wf invariant.current (args.chunkAt rounds)
    (newNode args access rounds state.current
      (contextHashCombine state.parentCtxHash (args.chunkAt rounds)))
  have fresh := attachChild_not_found wf invariant.current (args.chunkAt rounds)
    (newNode args access rounds state.current
      (contextHashCombine state.parentCtxHash (args.chunkAt rounds)))
  refine ⟨?_, ?_, hash, ?_⟩
  · exact wf.attachChild invariant.current _ absent rfl rfl rfl keyedHash
  · exact (trails _ _).trans (if_pos ⟨rfl, rfl⟩)
  · apply alter_onPath_succ invariant.cached
    · have missing : state.tree.cached args.adapterId
          (trail args.tokens args.blockSize (rounds + 1)) = none := by
        rw [cached_eq_none_iff, trail, find, invariant.current]
        exact .inr absent
      rw [missing]
      refine (cached_of_find ((trails _ _).trans (if_pos ⟨rfl, rfl⟩)) (by simp [trail])).trans ?_
      rw [nodes, if_pos rfl, insertedAt, length_trail]
      rfl
    -- The slot taken belongs to no trail, and the parent keeps its count and its block.
    · intro adapterId path apart
      cases path with
      | nil => rfl
      | cons key outer =>
        rw [RadixTreeInner.cached, RadixTreeInner.cached]
        refine (congrArg _ ((trails _ _).trans (if_neg apart))).trans ?_
        cases foundOther : state.tree.find adapterId (key :: outer) with
        | none => rfl
        | some id =>
          have other := fun same => fresh adapterId (key :: outer) (foundOther.trans (congrArg some same))
          simp only [Option.map_some, insertNew, nodes, if_neg other]
          split
          · next same => subst same; rfl
          · rfl

theorem InsertedTo.chunk : InsertedTo args before (rounds + 1) (insertChunk args access rounds state) := by
  simp only [insertChunk]
  split
  · next child stored => exact invariant.existing access stored
  · next absent => exact invariant.new access absent

end InsertChunk

theorem insertStart_spec {tree : RadixTreeInner} (wf : tree.WellFormed) (args : InsertArgs) :
    InsertedTo args tree.cached 0 (tree.insertStart args) where
  wellFormed := wf.nextAccess.rootForInsert args.adapterId
  current := by
    rw [trail, insertStart, find_rootForInsert wf.nextAccess, if_pos ⟨rfl, rfl⟩]
  hash := rfl
  cached := by
    refine (cached_rootForInsert wf.nextAccess args.adapterId).trans ?_
    rw [cached_nextAccess]
    funext adapterId path
    have outside : ¬ OnPath args.tokens args.blockSize 0 path := by
      rintro ⟨proper, le, _⟩
      exact proper (List.length_eq_zero_iff.mp (Nat.le_zero.mp le))
    rw [PathMap.alter_of_not_on _ _ outside]

theorem insertBlocks_spec {tree : RadixTreeInner} (wf : tree.WellFormed) (args : InsertArgs)
    (access rounds : Nat) :
    InsertedTo args tree.cached rounds (insertBlocks args access (tree.insertStart args) rounds) := by
  induction rounds with
  | zero => exact insertStart_spec wf args
  | succ rounds ih => exact ih.chunk access

theorem insertPartial_spec {args : InsertArgs} {before : PrefixMap} {rounds : Nat}
    {state : InsertState} (invariant : InsertedTo args before rounds state) {root : NodeId}
    (stored : state.tree.find args.adapterId [] = some root) :
    (insertPartial args root state).tree.WellFormed ∧
    (insertPartial args root state).tree.cached = state.tree.cached := by
  have wf := invariant.wellFormed
  simp only [insertPartial]
  split
  · next stores =>
    have bound := wf.find_lt invariant.current
    -- A suffix never goes to a root.
    have proper : trail args.tokens args.blockSize rounds ≠ [] := by
      intro top
      have current := invariant.current
      rw [top, stored] at current
      exact stores.2.2 (Option.some.inj current).symm
    have inner := (wf.find_isSome_parent invariant.current).mpr proper
    refine ⟨wf.modifyNode bound ⟨rfl, rfl, rfl, rfl, rfl⟩ fun _ => inner, ?_⟩
    refine cached_congr (find_modifyNode bound ⟨rfl, rfl, rfl, rfl, rfl⟩) ?_
    intro adapterId path id _
    rw [node_modifyNode _ bound]
    split
    · rfl
    · rfl
  · exact ⟨wf, rfl⟩

theorem find_root_insertBlocks {tree : RadixTreeInner} (wf : tree.WellFormed) (args : InsertArgs)
    (access rounds : Nat) :
    (insertBlocks args access (tree.insertStart args) rounds).tree.find args.adapterId [] =
      some (tree.insertStart args).current := by
  induction rounds with
  | zero => exact (insertStart_spec wf args).current
  | succ rounds ih =>
    rw [← ih, insertBlocks, insertChunk]
    split
    · rfl
    · show (RadixTreeInner.attachChild _ _ _ _).1.roots.lookup args.adapterId = _
      rw [roots_attachChild]
      rfl

theorem insert_spec {tree tree' : RadixTreeInner} (wf : tree.WellFormed) {args : InsertArgs}
    {acquired : InsertAcquired} (inserted : tree.insert args = some (acquired, tree')) :
    tree'.WellFormed ∧
    tree'.cached = tree.cached.alter args.adapterId
      (OnPath args.tokens args.blockSize args.numBlocks) (insertedAt args) := by
  simp only [insert] at inserted
  split at inserted
  · cases inserted
  · cases inserted
    have invariant := insertBlocks_spec wf args tree.nextAccess.2 args.numBlocks
    obtain ⟨wfLast, cachedLast⟩ := insertPartial_spec invariant
      (find_root_insertBlocks wf args tree.nextAccess.2 args.numBlocks)
    exact ⟨wfLast, cachedLast.trans invariant.cached⟩

/-! ## `evict` -/

structure Evictable (node : RadixNode) (parent : NodeId) : Prop where
  linked : node.parent = some parent
  cold : node.refCount ≤ 1
  leaf : node.children = ∅
  block : node.blockIdx ≠ u32Max

theorem evictable_iff (node : RadixNode) : evictable node = true ↔ ∃ parent, Evictable node parent := by
  simp only [evictable]
  constructor
  · intro test
    simp only [Bool.and_eq_true, decide_eq_true_eq, List.isEmpty_iff, bne_iff_ne, ne_eq] at test
    obtain ⟨⟨⟨linked, cold⟩, entries⟩, block⟩ := test
    obtain ⟨parent, linked⟩ := Option.isSome_iff_exists.mp linked
    exact ⟨parent, linked, cold, AList.ext (by rw [entries]; rfl), block⟩
  · rintro ⟨parent, linked, cold, leaf, block⟩
    simp [linked, cold, leaf, block, AList.empty_entries]

theorem foldl_betterVictim (entries : List (RadixNode × NodeId)) (best : Option (NodeId × Nat)) :
    (∀ id access, entries.foldl betterVictim best = some (id, access) →
      best = some (id, access) ∨ ∃ node, (node, id) ∈ entries ∧ evictable node = true) ∧
    (entries.foldl betterVictim best = none → best = none ∧
      ∀ entry ∈ entries, evictable entry.1 = false) := by
  induction entries generalizing best with
  | nil => exact ⟨fun _ _ same => .inl same, fun same => ⟨same, by simp⟩⟩
  | cons entry entries ih =>
    rw [List.foldl_cons]
    obtain ⟨someCase, noneCase⟩ := ih (betterVictim best entry)
    constructor
    · intro id access chosen
      rcases someCase id access chosen with here | ⟨node, member, test⟩
      · simp only [betterVictim] at here
        split at here
        · next test =>
          -- The entry at the head is taken only after it passed the test.
          have fresh : (some (entry.2, entry.1.lastAccess) : Option (NodeId × Nat)) = some (id, access) →
              ∃ node, (node, id) ∈ entry :: entries ∧ evictable node = true := by
            intro same
            cases same
            exact ⟨entry.1, List.mem_cons_self, test⟩
          split at here
          · exact .inr (fresh here)
          · split at here
            · exact .inr (fresh here)
            · exact .inl here
        · exact .inl here
      · exact .inr ⟨node, List.mem_cons_of_mem _ member, test⟩
    · intro chosen
      obtain ⟨here, later⟩ := noneCase chosen
      simp only [betterVictim] at here
      split at here
      · split at here
        · cases here
        · split at here <;> cases here
      · next test =>
        refine ⟨here, ?_⟩
        intro other member
        rcases List.mem_cons.mp member with same | member
        · rw [same]; simpa using test
        · exact later other member

theorem bestVictim_some {tree : RadixTreeInner} {id : NodeId} {access : Nat}
    (chosen : tree.bestVictim = some (id, access)) : ∃ parent, Evictable (tree.node id) parent := by
  rcases (foldl_betterVictim _ none).1 id access chosen with same | ⟨node, member, test⟩
  · cases same
  · have stored : tree.node id = node := by
      rw [RadixTreeInner.node, List.getD_eq_getElem?_getD,
        List.mk_mem_zipIdx_iff_getElem?.mp member, Option.getD_some]
    rw [stored]
    exact (evictable_iff node).mp test

theorem bestVictim_none {tree : RadixTreeInner} (chosen : tree.bestVictim = none) {id : NodeId}
    {parent : NodeId} : ¬ Evictable (tree.node id) parent := by
  intro victim
  have bound : id < tree.nodes.length := by
    by_contra beyond
    have linked := victim.linked
    rw [node_of_length_le tree (Nat.le_of_not_lt beyond)] at linked
    cases linked
  have member : (tree.node id, id) ∈ tree.nodes.zipIdx := by
    rw [List.mk_mem_zipIdx_iff_getElem?]
    exact getElem?_nodes tree bound
  have test := ((foldl_betterVictim _ none).2 chosen).2 _ member
  rw [(evictable_iff _).mpr ⟨parent, victim⟩] at test
  cases test

theorem evictNode_prune {tree : RadixTreeInner} (wf : tree.WellFormed) {victim parent : NodeId}
    (chosen : Evictable (tree.node victim) parent) :
    PathMap.Prune (fun value => value.refs ≤ 1) tree.cached (tree.evictNode victim).cached := by
  obtain ⟨linked, cold, leaf, _⟩ := chosen
  obtain ⟨adapterId, path, found⟩ := wf.reached_of_linked linked
  have proper : path ≠ [] := (wf.find_isSome_parent found).mp (by rw [linked]; exact Option.some_ne_none _)
  -- The victim is a leaf, so that the trails below it are not stored.
  have below : ∀ key, tree.cached adapterId (key :: path) = none := by
    intro key
    rw [cached_eq_none_iff, find, found, Option.bind_some, childAt, leaf, AList.lookup_empty]
    exact .inr rfl
  have pruned : (tree.evictNode victim).cached = tree.cached.without adapterId path := by
    funext other otherPath
    cases otherPath with
    | nil =>
      rw [PathMap.without, if_neg (fun same => proper same.2.symm)]
      rfl
    | cons key outer =>
      rw [cached, find_evictNode wf linked leaf, PathMap.without]
      by_cases here : other = adapterId ∧ key :: outer = path
      · rw [if_pos here, here.1, here.2, if_pos found, Option.map_none]
      · rw [if_neg here]
        cases foundOther : tree.find other (key :: outer) with
        | none =>
          rw [if_neg (by simp), cached, foundOther]
          rfl
        | some id =>
          have notVictim : id ≠ victim := by
            rintro rfl
            exact here (wf.find_injective foundOther found)
          rw [if_neg (by simpa using notVictim), cached, foundOther, Option.map_some, Option.map_some,
            node_evictNode wf linked leaf, if_neg notVictim]
          split
          · next same => subst same; rfl
          · rfl
  rw [pruned]
  exact .remove (cached_of_find found proper) cold below

/-- The nodes that `evict` may still take. -/
def linkedNodes (tree : RadixTreeInner) : Nat :=
  tree.total fun node => if node.parent.isSome then 1 else 0

theorem linkedNodes_evictNode {tree : RadixTreeInner} (wf : tree.WellFormed) {victim parent : NodeId}
    (chosen : Evictable (tree.node victim) parent) :
    (tree.evictNode victim).linkedNodes + 1 = tree.linkedNodes := by
  have account : Accountable fun node : RadixNode => if node.parent.isSome then 1 else 0 :=
    ⟨fun vacant => by simp [vacant.parent], fun _ _ _ => rfl, fun _ _ => rfl⟩
  have balance := total_evictNode account wf chosen.linked chosen.leaf
  simp only [chosen.linked, Option.isSome_some, if_true] at balance
  exact balance

theorem linkedNodes_pos {tree : RadixTreeInner} {id parent : NodeId}
    (linked : (tree.node id).parent = some parent) : 0 < tree.linkedNodes := by
  have bound : id < tree.nodes.length := by
    by_contra beyond
    rw [node_of_length_le tree (Nat.le_of_not_lt beyond)] at linked
    cases linked
  have balance := total_modifyNode (fun node => if node.parent.isSome then 1 else 0) tree bound
    fun _ => RadixNode.root
  simp only [linked, Option.isSome_some, if_true] at balance
  have root : (if RadixNode.root.parent.isSome then 1 else 0) = 0 := rfl
  rw [root] at balance
  exact Nat.lt_of_lt_of_eq (Nat.succ_pos _) balance

theorem linkedNodes_le (tree : RadixTreeInner) : tree.linkedNodes ≤ tree.nodes.length := by
  simp only [linkedNodes, total]
  induction tree.nodes with
  | nil => simp
  | cons node nodes ih =>
    simp only [List.map_cons, List.sum_cons, List.length_cons]
    split <;> omega

/-- The loop prunes leaves that only the cache holds; with a round for each linked node, it ends
because enough blocks are freed or because no victim is left. -/
theorem evictLoop_spec (numBlocks fuel : Nat) {tree : RadixTreeInner} (wf : tree.WellFormed)
    (freedPhys : List BlockId) (freedDisk : List DiskId) :
    (evictLoop numBlocks fuel tree freedPhys freedDisk).2.WellFormed ∧
    PathMap.Pruned (fun value => value.refs ≤ 1) tree.cached
      (evictLoop numBlocks fuel tree freedPhys freedDisk).2.cached ∧
    (tree.linkedNodes ≤ fuel →
      numBlocks ≤ (evictLoop numBlocks fuel tree freedPhys freedDisk).1.1.length ∨
      (evictLoop numBlocks fuel tree freedPhys freedDisk).2.bestVictim = none) := by
  induction fuel generalizing tree freedPhys freedDisk with
  -- Without a linked node there is nothing to take.
  | zero =>
    refine ⟨wf, .refl, ?_⟩
    intro enough
    right
    cases chosen : tree.bestVictim with
    | none => exact chosen
    | some entry =>
      obtain ⟨id, access⟩ := entry
      obtain ⟨parent, victim⟩ := bestVictim_some chosen
      exact absurd (linkedNodes_pos victim.linked) (by omega)
  | succ fuel ih =>
    rw [evictLoop]
    split
    · next done => exact ⟨wf, .refl, fun _ => .inl done⟩
    · split
      · next nodeId access chosen =>
        obtain ⟨parent, victim⟩ := bestVictim_some chosen
        have wfNext := wf.evictNode victim.linked victim.leaf
        obtain ⟨wfLast, pruned, ends⟩ := ih wfNext
          (freedPhys ++ (tree.node nodeId).evictedPhys) (freedDisk ++ (tree.node nodeId).evictedDisk)
        refine ⟨wfLast, .head (evictNode_prune wf victim) pruned, ?_⟩
        intro enough
        -- Each round unlinks one node, so the rounds last.
        have fewer := linkedNodes_evictNode wf victim
        exact ends (by omega)
      · next chosen => exact ⟨wf, .refl, fun _ => .inr chosen⟩

theorem evict_spec {tree : RadixTreeInner} (wf : tree.WellFormed) (numBlocks : Nat) :
    (tree.evict numBlocks).2.WellFormed ∧
    PathMap.Pruned (fun value => value.refs ≤ 1) tree.cached (tree.evict numBlocks).2.cached := by
  simp only [evict]
  split
  · exact ⟨wf, .refl⟩
  · obtain ⟨wfLast, pruned, _⟩ := evictLoop_spec numBlocks tree.nodes.length wf [] []
    exact ⟨wfLast, pruned⟩

theorem find_of_find_evictLoop (numBlocks fuel : Nat) {tree : RadixTreeInner} (wf : tree.WellFormed)
    (freedPhys : List BlockId) (freedDisk : List DiskId) {adapterId : AdapterId} {path : List Chunk}
    {id : NodeId}
    (found : (evictLoop numBlocks fuel tree freedPhys freedDisk).2.find adapterId path = some id) :
    tree.find adapterId path = some id := by
  induction fuel generalizing tree freedPhys freedDisk with
  | zero => exact found
  | succ fuel ih =>
    rw [evictLoop] at found
    split at found
    · exact found
    · split at found
      · next nodeId access chosen =>
        obtain ⟨parent, victim⟩ := bestVictim_some chosen
        have middle := ih (wf.evictNode victim.linked victim.leaf) _ _ found
        rw [find_evictNode wf victim.linked victim.leaf] at middle
        split at middle
        · cases middle
        · exact middle
      · exact found

theorem find_of_find_evict {tree : RadixTreeInner} (wf : tree.WellFormed) (numBlocks : Nat)
    {adapterId : AdapterId} {path : List Chunk} {id : NodeId}
    (found : (tree.evict numBlocks).2.find adapterId path = some id) :
    tree.find adapterId path = some id := by
  simp only [evict] at found
  split at found
  · exact found
  · exact find_of_find_evictLoop numBlocks tree.nodes.length wf [] [] found

/-- An eviction that falls short of `numBlocks` has left nothing to evict, so the fuel of `evict` never cuts
its loop short. -/
theorem evict_exhausts {tree : RadixTreeInner} (wf : tree.WellFormed) (numBlocks : Nat) :
    numBlocks ≤ (tree.evict numBlocks).1.1.length ∨
      ∀ id parent, ¬ Evictable ((tree.evict numBlocks).2.node id) parent := by
  simp only [evict]
  split
  · next none =>
    left
    rw [none]
    exact Nat.zero_le _
  · obtain enough | stuck := (evictLoop_spec numBlocks tree.nodes.length wf [] []).2.2 tree.linkedNodes_le
    · exact .inl enough
    · exact .inr fun _ _ => bestVictim_none stuck

/-! ## `walk` -/

/-- The invariant of `walk`'s loop: `depth` blocks matched, all of them referenced. -/
structure MatchedTo (tree : RadixTreeInner) (adapterId : AdapterId) (tokens : List Token)
    (blockSize depth : Nat) (state : WalkState) : Prop where
  current : tree.find adapterId (trail tokens blockSize depth) = some state.current
  hash : state.parentCtxHash = trailHash (trail tokens blockSize depth)
  matchedTokens : state.matchedTokens = depth * blockSize
  length : state.matchedBlocks.length = depth
  block : ∀ i, i < depth → ∃ value, tree.cached adapterId (trail tokens blockSize (i + 1)) = some value ∧
    0 < value.refs ∧ state.matchedBlocks[i]? = some value.block

/-- A node whose chunks equal the query's passes the hash check, so the loop stops only at a chunk
without a referenced node. -/
theorem walkBlocks_spec {tree : RadixTreeInner} (wf : tree.WellFormed) {adapterId : AdapterId}
    (tokens : List Token) (blockSize remaining depth : Nat) {state : WalkState}
    (invariant : MatchedTo tree adapterId tokens blockSize depth state) :
    ∃ last, last ≤ depth + remaining ∧
      MatchedTo tree adapterId tokens blockSize last
        (tree.walkBlocks tokens blockSize remaining depth state) ∧
      (last < depth + remaining →
        ¬ tree.cached.Usable (fun value => 0 < value.refs) adapterId
          (trail tokens blockSize (last + 1))) := by
  induction remaining generalizing depth state with
  | zero => exact ⟨depth, Nat.le_refl _, invariant, fun below => absurd below (Nat.lt_irrefl _)⟩
  | succ remaining ih =>
    have next : tree.find adapterId (trail tokens blockSize (depth + 1)) =
        tree.childAt state.current (chunk tokens blockSize depth) := by
      rw [trail, find, invariant.current, Option.bind_some]
    simp only [walkBlocks]
    split
    · next child stored =>
      have found := next.trans stored
      have value := cached_of_find found (by simp [trail])
      split
      · next test =>
        -- The child carries the hash expected of it and is referenced: one more block matches.
        have further : MatchedTo tree adapterId tokens blockSize (depth + 1)
            { matchedBlocks := state.matchedBlocks ++ [(tree.node child).blockIdx]
              matchedDisk := state.matchedDisk ++ [(tree.node child).diskBlockId]
              matchedTokens := state.matchedTokens + blockSize
              current := child
              parentCtxHash := contextHashCombine state.parentCtxHash (chunk tokens blockSize depth) } := by
          constructor
          case current => exact found
          case hash => simp only [trail, trailHash, invariant.hash]
          case matchedTokens => simp only [invariant.matchedTokens, Nat.succ_mul]
          case length => simp [invariant.length]
          case block =>
            intro i below
            by_cases last : i = depth
            · subst last
              refine ⟨_, value, test.2, ?_⟩
              rw [← invariant.length, List.getElem?_concat_length]
              rfl
            · obtain ⟨old, stored, used, block⟩ := invariant.block i (by omega)
              refine ⟨old, stored, used, ?_⟩
              rw [List.getElem?_append_left (by rw [invariant.length]; omega), block]
        obtain ⟨last, le, matched, stopped⟩ := ih (depth + 1) further
        exact ⟨last, by omega, matched, fun below => stopped (by omega)⟩
      · next test =>
        refine ⟨depth, by omega, invariant, ?_⟩
        -- With the hash as it must be, the test can only have failed on the count.
        rintro _ ⟨other, stored, used⟩
        rw [value] at stored
        cases stored
        apply test
        refine ⟨?_, used⟩
        rw [wf.find_contextHash found, trail, trailHash, invariant.hash]
    · next absent =>
      refine ⟨depth, by omega, invariant, ?_⟩
      rintro _ ⟨value, stored, _⟩
      rw [cached_eq_none_iff.mpr (.inr (next.trans absent))] at stored
      cases stored

theorem walkTail_spec (tree : RadixTreeInner) (suffix : List Token) (state : WalkState) :
    ((tree.walkTail suffix state).matchedTokens = state.matchedTokens ∨
      (tree.walkTail suffix state).matchedTokens = state.matchedTokens + suffix.length) ∧
    ∃ tail, (tree.walkTail suffix state).matchedBlocks = state.matchedBlocks ++ tail := by
  simp only [walkTail]
  split
  · exact ⟨.inr rfl, _, rfl⟩
  · split
    · split
      · exact ⟨.inr rfl, _, rfl⟩
      · exact ⟨.inl rfl, [], (List.append_nil _).symm⟩
    · exact ⟨.inl rfl, [], (List.append_nil _).symm⟩

structure Answers (tree : RadixTreeInner) (tokens : List Token) (blockSize : Nat)
    (adapterId : AdapterId) (depth : Nat) : Prop where
  longest : PathMap.Longest tree.cached (fun value => 0 < value.refs) adapterId
    (trail tokens blockSize) (tokens.length / blockSize) depth
  aligned : (tree.walk tokens blockSize adapterId).matchedTokens / blockSize = depth
  within : (tree.walk tokens blockSize adapterId).matchedTokens ≤ tokens.length
  exact : tree.partialTailSharing = false →
    (tree.walk tokens blockSize adapterId).matchedTokens = depth * blockSize ∧
    (tree.walk tokens blockSize adapterId).matchedBlocks.length = depth
  /-- A partial tail follows the last full block only. -/
  stoppedShort : depth < tokens.length / blockSize →
    (tree.walk tokens blockSize adapterId).matchedTokens = depth * blockSize
  block : ∀ i, i < depth →
    ∃ value, tree.cached adapterId (trail tokens blockSize (i + 1)) = some value ∧ 0 < value.refs ∧
      (tree.walk tokens blockSize adapterId).matchedBlocks[i]? = some value.block

theorem answers_of_no_root {tree : RadixTreeInner} {adapterId : AdapterId}
    (absent : tree.rootForRead adapterId = none) (tokens : List Token) (blockSize : Nat) :
    Answers tree tokens blockSize adapterId 0 := by
  have nothing : tree.walk tokens blockSize adapterId = ⟨[], [], 0⟩ := by simp only [walk, absent]
  constructor
  case longest =>
    refine ⟨Nat.zero_le _, fun i below => absurd below (Nat.not_lt_zero i), ?_⟩
    rintro _ ⟨value, present, _⟩
    rw [cached_eq_none_of_no_root absent] at present
    cases present
  case aligned => rw [nothing, Nat.zero_div]
  case within =>
    rw [nothing]
    exact Nat.zero_le _
  case exact =>
    rw [nothing]
    exact fun _ => ⟨(Nat.zero_mul _).symm, rfl⟩
  case stoppedShort =>
    rw [nothing]
    exact fun _ => (Nat.zero_mul _).symm
  case block => exact fun i below => absurd below (Nat.not_lt_zero i)

/-- The state that `walk`'s loop ends in. -/
def walkLoop (tree : RadixTreeInner) (tokens : List Token) (blockSize : Nat) (root : NodeId) : WalkState :=
  tree.walkBlocks tokens blockSize (tokens.length / blockSize) 0
    { matchedBlocks := [], matchedDisk := [], matchedTokens := 0
      current := root, parentCtxHash := 0 }

theorem walk_cases {tree : RadixTreeInner} {adapterId : AdapterId} {root : NodeId}
    (stored : tree.rootForRead adapterId = some root) (tokens : List Token) (blockSize : Nat) :
    tree.walk tokens blockSize adapterId = (tree.walkLoop tokens blockSize root).toWalked ∨
    (tree.partialTailSharing = true ∧
      tokens.length - (tree.walkLoop tokens blockSize root).matchedTokens < blockSize ∧
      (tree.walkLoop tokens blockSize root).matchedTokens = tokens.length / blockSize * blockSize ∧
      tree.walk tokens blockSize adapterId =
        tree.walkTail (tokens.drop (tree.walkLoop tokens blockSize root).matchedTokens)
          (tree.walkLoop tokens blockSize root)) := by
  simp only [walk, stored, walkLoop]
  split
  · next tail => exact .inr ⟨tail.1, tail.2.2.1, tail.2.2.2, rfl⟩
  · exact .inl rfl

theorem MatchedTo.longest {tree : RadixTreeInner} {adapterId : AdapterId} {tokens : List Token}
    {blockSize depth blocks : Nat} {state : WalkState}
    (matched : MatchedTo tree adapterId tokens blockSize depth state) (le : depth ≤ blocks)
    (stopped : depth < blocks → ¬ tree.cached.Usable (fun value => 0 < value.refs) adapterId
      (trail tokens blockSize (depth + 1))) :
    PathMap.Longest tree.cached (fun value => 0 < value.refs) adapterId (trail tokens blockSize) blocks depth := by
  refine ⟨le, fun i below => ?_, stopped⟩
  obtain ⟨value, present, used, _⟩ := matched.block i below
  exact ⟨value, present, used⟩

theorem walk_longest {tree : RadixTreeInner} (wf : tree.WellFormed) (tokens : List Token)
    {blockSize : Nat} (positive : 0 < blockSize) (adapterId : AdapterId) :
    ∃ depth, Answers tree tokens blockSize adapterId depth := by
  cases stored : tree.rootForRead adapterId with
  | none => exact ⟨0, answers_of_no_root stored tokens blockSize⟩
  | some root =>
    have start : MatchedTo tree adapterId tokens blockSize 0
        { matchedBlocks := [], matchedDisk := [], matchedTokens := 0
          current := root, parentCtxHash := 0 } :=
      ⟨stored, rfl, (Nat.zero_mul _).symm, rfl, fun i below => absurd below (Nat.not_lt_zero i)⟩
    obtain ⟨depth, le, matched, stopped⟩ :=
      walkBlocks_spec wf tokens blockSize (tokens.length / blockSize) 0 start
    rw [Nat.zero_add] at le stopped
    have longest := matched.longest le stopped
    have inside : depth * blockSize ≤ tokens.length :=
      Nat.le_trans (Nat.mul_le_mul_right _ le) (Nat.div_mul_le_self _ _)
    have counted := matched.matchedTokens
    refine ⟨depth, ?_⟩
    obtain plain | ⟨shared, short, whole, tailed⟩ := walk_cases stored tokens blockSize
    · have tokensOf : (tree.walk tokens blockSize adapterId).matchedTokens = depth * blockSize := by
        rw [plain]
        exact counted
      constructor
      case longest => exact longest
      case aligned => rw [tokensOf, Nat.mul_div_cancel _ positive]
      case within => exact tokensOf ▸ inside
      case exact =>
        rw [plain]
        exact fun _ => ⟨counted, matched.length⟩
      case stoppedShort => exact fun _ => tokensOf
      case block =>
        rw [plain]
        exact matched.block
    · -- Here every full block is matched, and what the tail adds is less than one.
      simp only [walkLoop, counted] at short whole tailed
      obtain ⟨tokensOf, tail, appended⟩ := walkTail_spec tree (tokens.drop (depth * blockSize))
        (tree.walkLoop tokens blockSize root)
      simp only [walkLoop, counted, List.length_drop] at tokensOf appended
      rw [← tailed] at tokensOf appended
      constructor
      case longest => exact longest
      case aligned =>
        obtain same | longer := tokensOf
        · rw [same, Nat.mul_div_cancel _ positive]
        · rw [longer, Nat.add_comm, Nat.add_mul_div_right _ _ positive, Nat.div_eq_of_lt short, Nat.zero_add]
      case within => omega
      case exact =>
        intro off
        rw [off] at shared
        cases shared
      case stoppedShort =>
        intro fewer
        exact absurd (Nat.eq_of_mul_eq_mul_right positive whole) (Nat.ne_of_lt fewer)
      case block =>
        intro i below
        obtain ⟨value, present, used, block⟩ := matched.block i below
        refine ⟨value, present, used, ?_⟩
        rw [appended, List.getElem?_append_left (by rw [matched.length]; exact below), block]

end RadixTreeInner

end Metrale.Cache
