import Metrale.Cache.RadixTree.Conservation

/-! # Disk ids

`insert` reports the disk ids it starts to store, and nothing reports the one of a partial suffix that
it replaces.  `KeepsDiskIds` says, of the tree before the call, that the insert replaces no suffix
with a disk id of its own; the runs of such inserts conserve disk ids. -/

namespace Metrale.Cache

open Metrale.Foundation
open RadixTreeInner (InsertArgs InsertAcquired InsertState InsertedTo)

namespace RadixTreeInner

/-- No suffix with a disk id gives way to a new child, nor to a suffix with another disk id. -/
structure KeepsDiskIds (tree : RadixTreeInner) (args : InsertArgs) : Prop where
  newChild : ∀ {i id suffix}, i < args.numBlocks →
    tree.find args.adapterId (trail args.tokens args.blockSize i) = some id →
    tree.find args.adapterId (trail args.tokens args.blockSize (i + 1)) = none →
    (tree.node id).partialSuffix = some suffix → suffix.disk = u32Max
  newSuffix : ∀ {id suffix}, 0 < args.tokens.length % args.blockSize →
    args.numFullBlocks < args.blockTable.length →
    tree.find args.adapterId (trail args.tokens args.blockSize args.numFullBlocks) = some id →
    (tree.node id).partialSuffix = some suffix → suffix.disk = u32Max ∨ suffix.disk = args.partialDisk

/-! ## Suffixes that the insert has not reached yet -/

/-- After `rounds` rounds the suffixes from there on are as they were, and the current node has none
if the insert created it. -/
structure SuffixesKept (tree : RadixTreeInner) (args : InsertArgs) (rounds : Nat) (state : InsertState) :
    Prop where
  trails : ∀ {adapterId path id}, tree.find adapterId path = some id →
    state.tree.find adapterId path = some id
  suffix : ∀ {j id}, rounds ≤ j →
    tree.find args.adapterId (trail args.tokens args.blockSize j) = some id →
    (state.tree.node id).partialSuffix = (tree.node id).partialSuffix
  created : tree.find args.adapterId (trail args.tokens args.blockSize rounds) = none →
    (state.tree.node state.current).partialSuffix = none

variable {tree : RadixTreeInner} {args : InsertArgs} {access rounds : Nat} {state : InsertState}

theorem suffixesKept_start (wf : tree.WellFormed) (args : InsertArgs) :
    SuffixesKept tree args 0 (tree.insertStart args) where
  trails := by
    intro adapterId path id found
    refine (find_rootForInsert wf.nextAccess _ adapterId path).trans ?_
    split
    · next same =>
      obtain ⟨rfl, rfl⟩ := same
      have stored : tree.nextAccess.1.roots.lookup args.adapterId = some id := found
      rw [rootForInsert_of_some args.adapterId stored]
    · rw [find_nextAccess, found]
  suffix := by
    intro j id _ found
    have same := node_rootForInsert_of_found wf.nextAccess args.adapterId
      ((find_nextAccess tree _ _).trans found)
    exact congrArg RadixNode.partialSuffix same
  created := by
    intro absent
    have fresh := node_rootForInsert wf.nextAccess args.adapterId (tree.insertStart args).current
    rw [if_pos ⟨absent, rfl⟩] at fresh
    exact congrArg RadixNode.partialSuffix fresh

theorem SuffixesKept.chunk (kept : SuffixesKept tree args rounds state)
    (invariant : InsertedTo args tree.cached rounds state) :
    SuffixesKept tree args (rounds + 1) (insertChunk args access rounds state) := by
  have wf := invariant.wellFormed
  -- Beyond the rounds done, the same trails have nodes as before the insert.
  have same : state.tree.find args.adapterId (trail args.tokens args.blockSize (rounds + 1)) = none ↔
      tree.find args.adapterId (trail args.tokens args.blockSize (rounds + 1)) = none := by
    have later : ¬ OnPath args.tokens args.blockSize rounds
        (trail args.tokens args.blockSize (rounds + 1)) := by
      rw [onPath_trail]; omega
    have cached := congrFun (congrFun invariant.cached args.adapterId)
      (trail args.tokens args.blockSize (rounds + 1))
    rw [PathMap.alter_of_not_on _ _ later] at cached
    have absent : ∀ inner : RadixTreeInner,
        inner.cached args.adapterId (trail args.tokens args.blockSize (rounds + 1)) = none ↔
        inner.find args.adapterId (trail args.tokens args.blockSize (rounds + 1)) = none := by
      intro inner
      rw [cached_eq_none_iff]
      simp [trail]
    rw [← absent, ← absent, cached]
  simp only [insertChunk]
  split
  · next child stored =>
    have found := invariant.found_child stored
    have bound := wf.find_lt found
    have links := invariant.links access stored
    refine ⟨?_, ?_, ?_⟩
    · intro adapterId path id old
      exact (find_modifyNode bound (links _) adapterId path).trans (kept.trails old)
    · intro j id le old
      rw [← kept.suffix (Nat.le_of_succ_le le) old]
      simp only [insertExisting, node_modifyNode _ bound]
      split <;> rfl
    · intro absent
      rw [same.mpr absent] at found
      cases found
  · next absent =>
    have missing : state.tree.find args.adapterId (trail args.tokens args.blockSize (rounds + 1)) = none := by
      rw [trail, find, invariant.current]
      exact absent
    have leaf : (newNode args access rounds state.current
        (contextHashCombine state.parentCtxHash (args.chunkAt rounds))).children = ∅ := rfl
    have nodes := node_attachChild wf invariant.current (args.chunkAt rounds)
      (newNode args access rounds state.current
        (contextHashCombine state.parentCtxHash (args.chunkAt rounds)))
    refine ⟨?_, ?_, ?_⟩
    · intro adapterId path id old
      refine (find_attachChild wf invariant.current _ absent leaf adapterId path).trans ?_
      rw [if_neg, kept.trails old]
      rintro ⟨rfl, rfl⟩
      rw [show args.chunkAt rounds :: trail args.tokens args.blockSize rounds =
        trail args.tokens args.blockSize (rounds + 1) from rfl, same.mp missing] at old
      cases old
    · intro j id le old
      have now := kept.trails old
      have notNew : id ≠ _ := fun equal =>
        attachChild_not_found wf invariant.current (args.chunkAt rounds)
          (newNode args access rounds state.current
            (contextHashCombine state.parentCtxHash (args.chunkAt rounds))) _ _
          (now.trans (congrArg some equal))
      have notCurrent : id ≠ state.current := by
        rintro rfl
        have equal := trail_injective (wf.find_injective now invariant.current).2
        omega
      rw [← kept.suffix (Nat.le_of_succ_le le) old]
      simp only [insertNew, nodes, if_neg notNew, if_neg notCurrent]
    · intro _
      simp only [insertNew, nodes, if_true]
      rfl

theorem suffixesKept_insertBlocks (wf : tree.WellFormed) (args : InsertArgs) (access rounds : Nat) :
    SuffixesKept tree args rounds (insertBlocks args access (tree.insertStart args) rounds) := by
  induction rounds with
  | zero => exact suffixesKept_start wf args
  | succ rounds ih =>
    exact ih.chunk (insertBlocks_spec wf args access rounds)

/-- The suffix of the current node is the one its trail had before the insert, if any. -/
theorem SuffixesKept.current (kept : SuffixesKept tree args rounds state)
    (invariant : InsertedTo args tree.cached rounds state) {suffix : PartialSuffix}
    (stored : (state.tree.node state.current).partialSuffix = some suffix) :
    ∃ id, tree.find args.adapterId (trail args.tokens args.blockSize rounds) = some id ∧
      (tree.node id).partialSuffix = some suffix := by
  cases found : tree.find args.adapterId (trail args.tokens args.blockSize rounds) with
  | none =>
    rw [kept.created found] at stored
    cases stored
  | some id =>
    have now := kept.trails found
    rw [invariant.current] at now
    cases now
    exact ⟨_, rfl, by rw [← kept.suffix (Nat.le_refl _) found, stored]⟩

/-! ## The account of an insert -/

def DisksBalance (tree : RadixTreeInner) (state : InsertState) : Prop :=
  state.tree.storedDisks = tree.storedDisks + (state.newlyAcquired : Multiset DiskId)

/-- A disk id that is `u32::MAX` without the swap is stored exactly when it is reported. -/
theorem realDisk_eq {active : Bool} {disk : DiskId} (inactive : active = false → disk = u32Max) :
    realDisk disk = ((if active && disk != u32Max then [disk] else [] : List DiskId) : Multiset DiskId) := by
  by_cases none : disk = u32Max
  · simp [realDisk, none]
  · have on : active = true := by
      by_contra off
      exact none (inactive (Bool.eq_false_iff.mpr off))
    simp [realDisk, none, on]

theorem diskId_of_inactive {i : Nat} (inactive : args.hssActive = false) : args.diskId i = u32Max := by
  simp [InsertArgs.diskId, inactive]

theorem partialDisk_of_inactive (inactive : args.hssActive = false) : args.partialDisk = u32Max := by
  simp [InsertArgs.partialDisk, inactive]

theorem suffixHolding_diskShare_of_max {suffix : Option PartialSuffix}
    (none : ∀ stored, suffix = some stored → stored.disk = u32Max) :
    suffixHolding diskShare suffix = 0 := by
  cases suffix with
  | none => rfl
  | some stored =>
    show realDisk stored.disk = 0
    rw [none stored rfl, realDisk, if_pos rfl]

theorem append_if {acquired new : List DiskId} {reported : Bool} :
    ((if reported then acquired ++ new else acquired : List DiskId) : Multiset DiskId) =
      (acquired : Multiset DiskId) + ((if reported then new else [] : List DiskId) : Multiset DiskId) := by
  cases reported with
  | true => rfl
  | false => exact (add_zero _).symm

theorem disksBalance_chunk (keeps : KeepsDiskIds tree args) (below : rounds < args.numBlocks)
    (kept : SuffixesKept tree args rounds state) (invariant : InsertedTo args tree.cached rounds state)
    (balance : DisksBalance tree state) :
    DisksBalance tree (insertChunk args access rounds state) := by
  simp only [DisksBalance, storedDisks] at balance ⊢
  simp only [insertChunk]
  split
  · next child stored =>
    have changed := total_insertExisting diskShare access invariant stored
    -- A node that the swap knows nothing of takes the disk id that this insert brings.
    by_cases takes : (args.hssActive && (state.tree.node child).diskBlockId == u32Max &&
        args.diskId rounds != u32Max) = true
    · have facts := takes
      simp only [Bool.and_eq_true, beq_iff_eq, bne_iff_ne, ne_eq] at facts
      rw [if_pos takes, diskShare, diskShare, facts.1.2, realDisk, realDisk, if_pos rfl, if_neg facts.2,
        add_zero, balance, add_assoc] at changed
      rw [changed]
      simp only [insertExisting, takes, if_true]
      rfl
    · rw [if_neg takes] at changed
      rw [add_right_cancel changed, balance]
      simp only [insertExisting, if_neg takes]
  · next absent =>
    have changed := total_insertNew diskShare access invariant
    -- Attaching a child clears the suffix of its parent; one with a disk id of its own would be lost.
    have none : ∀ suffix, (state.tree.node state.current).partialSuffix = some suffix →
        suffix.disk = u32Max := by
      intro suffix stored
      obtain ⟨id, found, old⟩ := kept.current invariant stored
      refine keeps.newChild below found ?_ old
      by_contra present
      obtain ⟨other, present⟩ := Option.ne_none_iff_exists'.mp present
      have now := kept.trails present
      have missing : state.tree.childAt state.current (chunk args.tokens args.blockSize rounds) = none :=
        absent
      rw [trail, find, invariant.current, Option.bind_some, missing] at now
      cases now
    rw [suffixHolding_diskShare_of_max none, add_zero, balance, diskShare,
      realDisk_eq diskId_of_inactive, add_assoc] at changed
    rw [changed]
    simp only [insertNew, append_if]

theorem disksBalance_insertBlocks (wf : tree.WellFormed) (keeps : KeepsDiskIds tree args)
    (access : Nat) {rounds : Nat} (le : rounds ≤ args.numBlocks) :
    DisksBalance tree (insertBlocks args access (tree.insertStart args) rounds) := by
  induction rounds with
  | zero =>
    have start := total_rootForInsert (accountable_holding diskShare) wf.nextAccess args.adapterId
    exact start.trans (add_zero _).symm
  | succ rounds ih =>
    exact disksBalance_chunk keeps le (suffixesKept_insertBlocks wf args access rounds)
      (insertBlocks_spec wf args access rounds) (ih (Nat.le_of_succ_le le))

theorem disksBalance_partial (keeps : KeepsDiskIds tree args) (root : NodeId)
    (kept : SuffixesKept tree args args.numBlocks state)
    (invariant : InsertedTo args tree.cached args.numBlocks state) (balance : DisksBalance tree state) :
    DisksBalance tree (insertPartial args root state) := by
  simp only [insertPartial]
  split
  · next stores =>
    have full : args.numBlocks = args.numFullBlocks := Nat.min_eq_left (Nat.le_of_lt stores.2.1)
    have changed := total_modifySuffix diskShare invariant (some
      ⟨args.tokens.drop (args.numFullBlocks * args.blockSize),
        args.blockTable.getD args.numFullBlocks u32Max, args.partialDisk⟩)
    -- The suffix that is replaced has no disk id, or the one that comes.
    have prior : ∀ suffix, (state.tree.node state.current).partialSuffix = some suffix →
        suffix.disk = u32Max ∨ suffix.disk = args.partialDisk := by
      intro suffix stored
      obtain ⟨id, found, old⟩ := kept.current invariant stored
      rw [full] at found
      exact keeps.newSuffix stores.1 stores.2.1 found old
    simp only [DisksBalance, storedDisks] at balance ⊢
    have new : suffixHolding diskShare (some (PartialSuffix.mk
        (args.tokens.drop (args.numFullBlocks * args.blockSize))
        (args.blockTable.getD args.numFullBlocks u32Max) args.partialDisk)) =
        realDisk args.partialDisk := rfl
    rw [new, balance, realDisk] at changed
    by_cases reported : args.hssActive ∧ args.partialDisk ≠ u32Max ∧
        (state.tree.node state.current).partialSuffix.map PartialSuffix.disk ≠ some args.partialDisk
    · have facts := reported
      obtain ⟨_, real, other⟩ := facts
      have unstored : suffixHolding diskShare (state.tree.node state.current).partialSuffix = 0 := by
        refine suffixHolding_diskShare_of_max fun suffix stored => ?_
        refine (prior suffix stored).resolve_right fun same => other ?_
        rw [stored, Option.map_some, same]
      rw [unstored, add_zero, if_neg real, add_assoc] at changed
      simp only [if_pos reported]
      exact changed
    -- What is not reported was stored before.
    · have same : suffixHolding diskShare (state.tree.node state.current).partialSuffix =
          if args.partialDisk = u32Max then 0 else {args.partialDisk} := by
        by_cases none : args.partialDisk = u32Max
        · rw [if_pos none]
          refine suffixHolding_diskShare_of_max fun suffix stored => ?_
          rcases prior suffix stored with max | equal
          · exact max
          · exact equal.trans none
        · have active : args.hssActive = true := by
            by_contra off
            exact none (partialDisk_of_inactive (Bool.eq_false_iff.mpr off))
          have equal := not_not.mp fun other => reported ⟨active, none, other⟩
          obtain ⟨suffix, stored, disk⟩ := Option.map_eq_some_iff.mp equal
          rw [if_neg none, stored]
          show realDisk suffix.disk = _
          rw [disk, realDisk, if_neg none]
      rw [same] at changed
      simp only [if_neg reported]
      exact add_right_cancel changed
  · exact balance

theorem insert_storedDisks {tree' : RadixTreeInner} (wf : tree.WellFormed) (keeps : KeepsDiskIds tree args)
    {acquired : InsertAcquired} (inserted : tree.insert args = some (acquired, tree')) :
    tree'.storedDisks = tree.storedDisks + (acquired.diskBlockIds : Multiset DiskId) := by
  simp only [insert] at inserted
  split at inserted
  · cases inserted
  · cases inserted
    exact disksBalance_partial keeps _
      (suffixesKept_insertBlocks wf args tree.nextAccess.2 args.numBlocks)
      (insertBlocks_spec wf args tree.nextAccess.2 args.numBlocks)
      (disksBalance_insertBlocks wf keeps tree.nextAccess.2 (Nat.le_refl _))

end RadixTreeInner

namespace RadixTree

/-! ## The ledger of a run -/

def Call.gainedDisks : Call → Multiset DiskId
  | .insert _ acquired => acquired.diskBlockIds
  | _ => 0

def Call.lostDisks : Call → Multiset DiskId
  | .evict _ evicted => evicted.diskBlockIds
  | _ => 0

def KeepsDiskIds (inner : RadixTreeInner) (call : Call) : Prop :=
  ∀ args acquired, call = .insert args acquired → inner.KeepsDiskIds args

theorem evict_storedDisks {inner : RadixTreeInner} (wf : inner.WellFormed) (numBlocks : Nat) :
    (evict inner numBlocks).2.storedDisks + ((evict inner numBlocks).1.diskBlockIds : Multiset DiskId) =
      inner.storedDisks := by
  obtain ⟨taken, reported, balance⟩ := RadixTreeInner.evict_total wf numBlocks
  have disks : (evict inner numBlocks).1.diskBlockIds =
      (taken.map Prod.snd).filter (· != u32Max) := by
    simp only [evict, reported]
  have stored := balance diskShare
  rw [RadixTreeInner.sum_diskShare] at stored
  rw [disks]
  exact stored

theorem Step.disks_balance {inner after : RadixTreeInner} {call : Call} (wf : inner.WellFormed)
    (keeps : KeepsDiskIds inner call) (step : Step inner call after) :
    after.storedDisks + call.lostDisks = inner.storedDisks + call.gainedDisks := by
  cases step with
  | lookup _ => exact congrArg (· + 0) (lookup_total diskShare inner _ _ _)
  | pinPrefix _ => exact congrArg (· + 0) (lookup_total diskShare inner _ _ _)
  | insert stored =>
    exact (add_zero _).trans (RadixTreeInner.insert_storedDisks wf (keeps _ _ rfl) stored)
  | release _ => exact congrArg (· + 0) (RadixTreeInner.total_decRefs diskShare inner _ _ _ _)
  | releaseMatched _ => exact congrArg (· + 0) (RadixTreeInner.total_decRefs diskShare inner _ _ _ _)
  | evict => exact (evict_storedDisks wf _).trans (add_zero _).symm

/-- Two inserts of one sequence, the second after its incomplete block has filled up, and an eviction
of all it cached: disk id 101 is reported as acquired twice and reported back once. -/
theorem replaced_suffix_leaks : ∃ calls inner,
    Run Step (RadixTreeInner.new false) calls inner ∧ inner.storedDisks = 0 ∧
    (calls.map Call.gainedDisks).sum = {100, 101, 101} ∧
    (calls.map Call.lostDisks).sum = {100, 101} := by
  refine ⟨[.insert ⟨[1, 2, 3, 4, 5, 6], [10, 11], [100, 101], 4, 0, 0⟩ ⟨[100, 101], [10, 11], []⟩,
      .insert ⟨[1, 2, 3, 4, 5, 6, 7, 8], [10, 11], [100, 101], 4, 6, 0⟩ ⟨[101], [11], [11]⟩,
      .release [1, 2, 3, 4, 5, 6, 7, 8] 4 0, .evict 2 ⟨[11, 10], [101, 100]⟩], _,
    .prepend (.insert rfl) (.prepend (.insert rfl) (.prepend (.release (by decide)) (.single .evict))),
    ?_, ?_, ?_⟩ <;> decide

/-- In a run of such inserts, every disk id acquired is stored or was reported back, once for each
time it was acquired, and each call reports back what the tree stops storing. -/
theorem run_disks_balance {sharing : Bool} {calls : List Call} {inner : RadixTreeInner}
    (run : Run (Guarded KeepsDiskIds Step) (RadixTreeInner.new sharing) calls inner) :
    inner.storedDisks + (calls.map Call.lostDisks).sum = (calls.map Call.gainedDisks).sum ∧
    ∀ call after, KeepsDiskIds inner call → Step inner call after →
      after.storedDisks + call.lostDisks = inner.storedDisks + call.gainedDisks := by
  have balance := run.ledger (RadixTreeInner.WellFormed.new sharing)
    (fun _ _ _ wf step => step.2.wellFormed wf) (fun _ _ _ wf step => step.2.disks_balance wf step.1)
  have empty : (RadixTreeInner.new sharing).storedDisks = 0 := rfl
  rw [empty, zero_add] at balance
  refine ⟨balance, ?_⟩
  intro call after keeps step
  exact step.disks_balance (run_wellFormed run.unguarded) keeps

theorem keepsDiskIds_new (sharing : Bool) (args : InsertArgs) :
    (RadixTreeInner.new sharing).KeepsDiskIds args := by
  have none : ∀ id, ((RadixTreeInner.new sharing).node id).partialSuffix = none := by
    intro id
    cases id with
    | zero => rfl
    | succ id => rw [RadixTreeInner.node_of_length_le _ (Nat.succ_le_succ (Nat.zero_le id))]; rfl
  constructor
  · intro i id suffix _ _ _ stored
    rw [none] at stored
    cases stored
  · intro id suffix _ _ _ stored
    rw [none] at stored
    cases stored

/-- A sequence caches a full block and an incomplete one, ends, and both are evicted. -/
theorem run_disks_balance_evicted : ∃ calls inner,
    Run (Guarded KeepsDiskIds Step) (RadixTreeInner.new false) calls inner ∧
    (calls.map Call.gainedDisks).sum = {100, 101} ∧ inner.storedDisks = 0 ∧
    inner.storedDisks + (calls.map Call.lostDisks).sum = {100, 101} := by
  have run : ∃ inner, Run (Guarded KeepsDiskIds Step) (RadixTreeInner.new false)
      [.insert ⟨[1, 2, 3, 4, 5, 6], [10, 11], [100, 101], 4, 0, 0⟩ ⟨[100, 101], [10, 11], []⟩,
        .release [1, 2, 3, 4, 5, 6] 4 0, .evict 1 ⟨[10, 11], [100, 101]⟩] inner ∧
      inner.storedDisks = 0 := by
    refine ⟨_, .prepend ⟨?_, .insert rfl⟩ (.prepend ⟨?_, .release (by decide)⟩ (.single ⟨?_, .evict⟩)),
      by decide⟩
    · rintro args acquired ⟨⟩
      exact keepsDiskIds_new false _
    · rintro args acquired ⟨⟩
    · rintro args acquired ⟨⟩
  obtain ⟨inner, run, none⟩ := run
  exact ⟨_, inner, run, by decide, none, (run_disks_balance run).1.trans (by decide)⟩

end RadixTree

end Metrale.Cache
