import Metrale.Cache.RadixTree.Refinement
import Metrale.Foundation.Runs

/-! # The calls of the prefix cache (`radix_tree.rs`)

The tree half of `impl PrefixCache for RadixTree`, one call under the lock after another.  The
snapshot index is a separate object behind its own lock (`Metrale.Cache.SnapshotIndex`). -/

namespace Metrale.Cache

open Metrale.Foundation
open RadixTreeInner (InsertArgs InsertAcquired Walked)

/-- The block half of `PrefixMatch`. -/
structure PrefixMatch where
  matchedBlocks : List BlockId
  matchedDiskBlockIds : List DiskId
  matchedTokens : Nat

structure EvictedBlocks where
  physical : List BlockId
  diskBlockIds : List DiskId

namespace RadixTree

def lookup (inner : RadixTreeInner) (tokens : List Token) (blockSize : Nat) (adapterId : AdapterId) :
    PrefixMatch × RadixTreeInner :=
  let walked := inner.walk tokens blockSize adapterId
  let inner :=
    if walked.matchedTokens > 0 then inner.incRefs tokens blockSize walked.matchedTokens adapterId
    else inner
  ({ matchedBlocks := walked.matchedBlocks
     matchedDiskBlockIds :=
      if walked.matchedDisk.all (· == u32Max) then [] else walked.matchedDisk
     matchedTokens := walked.matchedTokens }, inner)

def pinPrefix (inner : RadixTreeInner) (tokens : List Token) (blockSize : Nat)
    (adapterId : AdapterId) : Nat × RadixTreeInner :=
  let matched := (inner.walk tokens blockSize adapterId).matchedTokens
  (matched, if matched > 0 then inner.incRefs tokens blockSize matched adapterId else inner)

def insert (inner : RadixTreeInner) (args : InsertArgs) : Option (InsertAcquired × RadixTreeInner) :=
  inner.insert args

def release (inner : RadixTreeInner) (tokens : List Token) (blockSize : Nat) (adapterId : AdapterId) :
    RadixTreeInner :=
  inner.decRefs tokens blockSize tokens.length adapterId

def releaseMatched (inner : RadixTreeInner) (tokens : List Token) (blockSize matchedTokens : Nat)
    (adapterId : AdapterId) : RadixTreeInner :=
  inner.decRefs tokens blockSize matchedTokens adapterId

def evict (inner : RadixTreeInner) (numBlocks : Nat) : EvictedBlocks × RadixTreeInner :=
  let ((physical, disk), inner) := inner.evict numBlocks
  ({ physical, diskBlockIds := disk.filter (· != u32Max) }, inner)

inductive Call where
  | lookup (tokens : List Token) (blockSize : Nat) (adapterId : AdapterId) (answer : PrefixMatch)
  | pinPrefix (tokens : List Token) (blockSize : Nat) (adapterId : AdapterId) (matched : Nat)
  | insert (args : InsertArgs) (acquired : InsertAcquired)
  | release (tokens : List Token) (blockSize : Nat) (adapterId : AdapterId)
  | releaseMatched (tokens : List Token) (blockSize matchedTokens : Nat) (adapterId : AdapterId)
  | evict (numBlocks : Nat) (evicted : EvictedBlocks)

/-- The calls that return.  A zero block size divides by zero. -/
inductive Step : RadixTreeInner → Call → RadixTreeInner → Prop where
  | lookup {inner : RadixTreeInner} {tokens : List Token} {blockSize : Nat} {adapterId : AdapterId} :
      0 < blockSize →
      Step inner (.lookup tokens blockSize adapterId (lookup inner tokens blockSize adapterId).1)
        (lookup inner tokens blockSize adapterId).2
  | pinPrefix {inner : RadixTreeInner} {tokens : List Token} {blockSize : Nat} {adapterId : AdapterId} :
      0 < blockSize →
      Step inner (.pinPrefix tokens blockSize adapterId (pinPrefix inner tokens blockSize adapterId).1)
        (pinPrefix inner tokens blockSize adapterId).2
  | insert {inner after : RadixTreeInner} {args : InsertArgs} {acquired : InsertAcquired} :
      insert inner args = some (acquired, after) → Step inner (.insert args acquired) after
  | release {inner : RadixTreeInner} {tokens : List Token} {blockSize : Nat} {adapterId : AdapterId} :
      0 < blockSize →
      Step inner (.release tokens blockSize adapterId) (release inner tokens blockSize adapterId)
  | releaseMatched {inner : RadixTreeInner} {tokens : List Token} {blockSize matchedTokens : Nat}
      {adapterId : AdapterId} : 0 < blockSize →
      Step inner (.releaseMatched tokens blockSize matchedTokens adapterId)
        (releaseMatched inner tokens blockSize matchedTokens adapterId)
  | evict {inner : RadixTreeInner} {numBlocks : Nat} :
      Step inner (.evict numBlocks (evict inner numBlocks).1) (evict inner numBlocks).2

/-! ## What a call does to the cached prefixes -/

/-- Taking and dropping a sequence's count along the first `blocks` blocks of `tokens`. -/
def acquired (map : PrefixMap) (adapterId : AdapterId) (tokens : List Token) (blockSize blocks : Nat) :
    PrefixMap :=
  map.alter adapterId (OnPath tokens blockSize blocks) fun _ value => value.map Cached.acquire

def released (map : PrefixMap) (adapterId : AdapterId) (tokens : List Token) (blockSize blocks : Nat) :
    PrefixMap :=
  map.alter adapterId (OnPath tokens blockSize blocks) fun _ value => value.map Cached.release

def inserted (map : PrefixMap) (args : InsertArgs) : PrefixMap :=
  map.alter args.adapterId (OnPath args.tokens args.blockSize args.numBlocks) (insertedAt args)

def Unheld (value : Cached) : Prop := value.refs ≤ 1

def Referenced (value : Cached) : Prop := 0 < value.refs

def refsAt (map : PrefixMap) (adapterId : AdapterId) (path : List Chunk) : Nat :=
  (map adapterId path).elim 0 Cached.refs

theorem refsAt_pos_iff {map : PrefixMap} {adapterId : AdapterId} {path : List Chunk} :
    0 < refsAt map adapterId path ↔ map.Usable (fun value => 0 < value.refs) adapterId path := by
  simp only [refsAt, PathMap.Usable]
  cases map adapterId path <;> simp

section RefsAt

variable (map : PrefixMap) {adapterId : AdapterId} {tokens : List Token} {blockSize blocks : Nat}
  {path : List Chunk}

theorem refsAt_acquired (member : OnPath tokens blockSize blocks path)
    (stored : 0 < refsAt map adapterId path) :
    refsAt (acquired map adapterId tokens blockSize blocks) adapterId path =
      refsAt map adapterId path + 1 := by
  obtain ⟨value, found, _⟩ := refsAt_pos_iff.mp stored
  rw [refsAt, acquired, PathMap.alter_of_on _ member, refsAt, found]
  rfl

theorem refsAt_acquired_of_not (outside : ¬ OnPath tokens blockSize blocks path) :
    refsAt (acquired map adapterId tokens blockSize blocks) adapterId path =
      refsAt map adapterId path := by
  rw [refsAt, acquired, PathMap.alter_of_not_on _ _ outside, refsAt]

theorem refsAt_released (member : OnPath tokens blockSize blocks path) :
    refsAt (released map adapterId tokens blockSize blocks) adapterId path =
      refsAt map adapterId path - 1 := by
  rw [refsAt, released, PathMap.alter_of_on _ member, refsAt]
  cases map adapterId path <;> rfl

theorem refsAt_inserted {args : InsertArgs} (member : OnPath args.tokens args.blockSize args.numBlocks path) :
    refsAt (inserted map args) args.adapterId path =
      max 1 (refsAt map args.adapterId path) +
        if args.isSeqOwned (path.length - 1) = true then 1 else 0 := by
  rw [refsAt, inserted, PathMap.alter_of_on _ member, refsAt]
  cases map args.adapterId path with
  | some old =>
    show (if old.refs = 0 then 1 else old.refs) + _ = max 1 old.refs + _
    congr 1
    split <;> omega
  | none =>
    show (if _ then 2 else 1) = max 1 0 + _
    split <;> rfl

theorem refsAt_inserted_trail {args : InsertArgs} {i : Nat} (below : i < args.numBlocks) :
    refsAt (inserted map args) args.adapterId (trail args.tokens args.blockSize (i + 1)) =
      max 1 (refsAt map args.adapterId (trail args.tokens args.blockSize (i + 1))) +
        if args.matchedTokens ≤ i * args.blockSize then 1 else 0 := by
  rw [refsAt_inserted map (onPath_of_lt below), length_trail, Nat.add_sub_cancel]
  simp only [InsertArgs.isSeqOwned, decide_eq_true_eq]

theorem refsAt_inserted_of_not {args : InsertArgs}
    (outside : ¬ OnPath args.tokens args.blockSize args.numBlocks path) :
    refsAt (inserted map args) adapterId path = refsAt map adapterId path := by
  rw [refsAt, inserted, PathMap.alter_of_not_on _ _ outside, refsAt]

end RefsAt

theorem not_onPath_zero {tokens : List Token} {blockSize : Nat} {path : List Chunk} :
    ¬ OnPath tokens blockSize 0 path := by
  rintro ⟨proper, le, _⟩
  exact proper (List.length_eq_zero_iff.mp (Nat.le_zero.mp le))

theorem acquired_zero (map : PrefixMap) (adapterId : AdapterId) (tokens : List Token)
    (blockSize : Nat) : acquired map adapterId tokens blockSize 0 = map := by
  funext other path
  exact PathMap.alter_of_not_on _ _ not_onPath_zero

theorem released_zero (map : PrefixMap) (adapterId : AdapterId) (tokens : List Token)
    (blockSize : Nat) : released map adapterId tokens blockSize 0 = map := by
  funext other path
  exact PathMap.alter_of_not_on _ _ not_onPath_zero

section

variable {inner : RadixTreeInner} (wf : inner.WellFormed) (tokens : List Token) {blockSize : Nat}
  (positive : 0 < blockSize) (adapterId : AdapterId)
include wf

/-- `pin_prefix` takes a count on the longest referenced prefix, and so does `lookup`. -/
theorem pinPrefix_spec (positive : 0 < blockSize) :
    ∃ depth, inner.Answers tokens blockSize adapterId depth ∧
      (pinPrefix inner tokens blockSize adapterId).2.WellFormed ∧
      (pinPrefix inner tokens blockSize adapterId).2.cached =
        acquired inner.cached adapterId tokens blockSize depth := by
  obtain ⟨depth, answers⟩ := RadixTreeInner.walk_longest wf tokens positive adapterId
  refine ⟨depth, answers, ?_⟩
  simp only [pinPrefix]
  split
  · have spec := RadixTreeInner.incRefs_spec wf tokens blockSize
      (inner.walk tokens blockSize adapterId).matchedTokens adapterId
    rw [answers.aligned] at spec
    exact spec
  · next missed =>
    have none : depth = 0 := by
      rw [← answers.aligned, Nat.eq_zero_of_not_pos missed, Nat.zero_div]
    rw [none, acquired_zero]
    exact ⟨wf, rfl⟩

theorem lookup_spec (positive : 0 < blockSize) :
    ∃ depth, inner.Answers tokens blockSize adapterId depth ∧
      (lookup inner tokens blockSize adapterId).2.WellFormed ∧
      (lookup inner tokens blockSize adapterId).2.cached =
        acquired inner.cached adapterId tokens blockSize depth :=
  pinPrefix_spec wf tokens adapterId positive

theorem releaseMatched_spec (matchedTokens : Nat) :
    (releaseMatched inner tokens blockSize matchedTokens adapterId).WellFormed ∧
    (releaseMatched inner tokens blockSize matchedTokens adapterId).cached =
      released inner.cached adapterId tokens blockSize
        (min (matchedTokens / blockSize) (tokens.length / blockSize)) :=
  RadixTreeInner.decRefs_spec wf tokens blockSize matchedTokens adapterId

theorem release_spec :
    (release inner tokens blockSize adapterId).WellFormed ∧
    (release inner tokens blockSize adapterId).cached =
      released inner.cached adapterId tokens blockSize (tokens.length / blockSize) := by
  have spec := RadixTreeInner.decRefs_spec wf tokens blockSize tokens.length adapterId
  rw [Nat.min_self] at spec
  exact spec

theorem insert_spec {after : RadixTreeInner} {args : InsertArgs} {acquired : InsertAcquired}
    (stored : insert inner args = some (acquired, after)) :
    after.WellFormed ∧ after.cached = inserted inner.cached args :=
  RadixTreeInner.insert_spec wf stored

theorem evict_spec (numBlocks : Nat) :
    (evict inner numBlocks).2.WellFormed ∧
    PathMap.Pruned Unheld inner.cached (evict inner numBlocks).2.cached :=
  RadixTreeInner.evict_spec wf numBlocks

end

theorem Step.wellFormed {inner after : RadixTreeInner} {call : Call} (wf : inner.WellFormed)
    (step : Step inner call after) : after.WellFormed := by
  cases step with
  | lookup positive =>
    obtain ⟨_, _, wfAfter, _⟩ := lookup_spec wf _ _ positive
    exact wfAfter
  | pinPrefix positive =>
    obtain ⟨_, _, wfAfter, _⟩ := pinPrefix_spec wf _ _ positive
    exact wfAfter
  | insert stored => exact (insert_spec wf stored).1
  | release _ => exact (release_spec wf _ _).1
  | releaseMatched _ => exact (releaseMatched_spec wf _ _ _).1
  | evict => exact (evict_spec wf _).1

/-! ## The sharing switch -/

section Sharing

open RadixTreeInner

theorem sharing_modifyPath (change : RadixNode → RadixNode) (tokens : List Token)
    (blockSize remaining i : Nat) (current : NodeId) (inner : RadixTreeInner) :
    (modifyPath change tokens blockSize remaining i current inner).partialTailSharing =
      inner.partialTailSharing := by
  induction remaining generalizing i current inner with
  | zero => rfl
  | succ remaining ih =>
    rw [modifyPath]
    split
    · rw [ih]
      rfl
    · rfl

theorem sharing_pinPrefix (inner : RadixTreeInner) (tokens : List Token) (blockSize : Nat)
    (adapterId : AdapterId) :
    (pinPrefix inner tokens blockSize adapterId).2.partialTailSharing = inner.partialTailSharing := by
  simp only [pinPrefix]
  split
  · unfold incRefs
    cases stored : inner.nextAccess.1.rootForRead adapterId with
    | none => simp only [stored]; rfl
    | some root => simp only [stored, sharing_modifyPath]; rfl
  · rfl

theorem sharing_releaseMatched (inner : RadixTreeInner) (tokens : List Token)
    (blockSize matchedTokens : Nat) (adapterId : AdapterId) :
    (releaseMatched inner tokens blockSize matchedTokens adapterId).partialTailSharing =
      inner.partialTailSharing := by
  simp only [releaseMatched, decRefs]
  cases stored : inner.rootForRead adapterId with
  | none => rfl
  | some root => exact sharing_modifyPath _ _ _ _ _ _ _

theorem sharing_allocNode (inner : RadixTreeInner) (node : RadixNode) :
    (inner.allocNode node).1.partialTailSharing = inner.partialTailSharing := by
  simp only [allocNode]
  split <;> rfl

theorem sharing_insertBlocks (inner : RadixTreeInner) (args : InsertArgs) (access rounds : Nat) :
    (insertBlocks args access (inner.insertStart args) rounds).tree.partialTailSharing =
      inner.partialTailSharing := by
  induction rounds with
  | zero =>
    rw [insertBlocks, insertStart]
    cases stored : inner.nextAccess.1.roots.lookup args.adapterId with
    | some root => rw [rootForInsert_of_some args.adapterId stored]; rfl
    | none =>
      rw [rootForInsert_of_none args.adapterId stored]
      exact sharing_allocNode _ _
  | succ rounds ih =>
    rw [← ih, insertBlocks, insertChunk]
    split
    · rfl
    · exact sharing_allocNode _ _

theorem sharing_insert {inner after : RadixTreeInner} {args : InsertArgs} {acquired : InsertAcquired}
    (stored : insert inner args = some (acquired, after)) :
    after.partialTailSharing = inner.partialTailSharing := by
  simp only [insert, RadixTreeInner.insert] at stored
  split at stored
  · cases stored
  · cases stored
    refine Eq.trans ?_ (sharing_insertBlocks inner args inner.nextAccess.2 args.numBlocks)
    simp only [insertPartial]
    split <;> rfl

theorem sharing_evictLoop (numBlocks fuel : Nat) (inner : RadixTreeInner) (freedPhys : List BlockId)
    (freedDisk : List DiskId) :
    (evictLoop numBlocks fuel inner freedPhys freedDisk).2.partialTailSharing =
      inner.partialTailSharing := by
  induction fuel generalizing inner freedPhys freedDisk with
  | zero => rfl
  | succ fuel ih =>
    rw [evictLoop]
    split
    · rfl
    · split
      · rw [ih, evictNode, unlinkFromParent]
        split <;> rfl
      · rfl

theorem sharing_evict (inner : RadixTreeInner) (numBlocks : Nat) :
    (evict inner numBlocks).2.partialTailSharing = inner.partialTailSharing := by
  show (inner.evict numBlocks).2.partialTailSharing = _
  simp only [RadixTreeInner.evict]
  split
  · rfl
  · exact sharing_evictLoop _ _ _ _ _

end Sharing

theorem Step.sharing {inner after : RadixTreeInner} {call : Call} (step : Step inner call after) :
    after.partialTailSharing = inner.partialTailSharing := by
  cases step with
  | lookup _ => exact sharing_pinPrefix _ _ _ _
  | pinPrefix _ => exact sharing_pinPrefix _ _ _ _
  | insert stored => exact sharing_insert stored
  | release _ => exact sharing_releaseMatched _ _ _ _ _
  | releaseMatched _ => exact sharing_releaseMatched _ _ _ _ _
  | evict => exact sharing_evict _ _

theorem run_wellFormed {sharing : Bool} {calls : List Call} {inner : RadixTreeInner}
    (run : Run Step (RadixTreeInner.new sharing) calls inner) : inner.WellFormed :=
  run.invariant _ (RadixTreeInner.WellFormed.new sharing) fun _ _ _ wf step => step.wellFormed wf

end RadixTree

end Metrale.Cache
