import Metrale.Cache.RadixTree.Calls

/-! # `walk` answers from a map of token prefixes

`Records` is what the tree is for: under each adapter, each cached prefix has the block of the insert
that created its entry.  `Records.Step` says how the calls change it, without nodes, slots or hashes.
With partial-tail sharing off and one block size, every run of the tree is a run of `Records`
(`Related.step`), and `walk` answers the longest referenced prefix of its query from it. -/

namespace Metrale.Cache

open Metrale.Foundation
open RadixTreeInner (InsertArgs InsertAcquired)

/-- What is recorded for a cached prefix; `origin` is the insert that recorded it. -/
structure Entry where
  block : BlockId
  refs : Nat
  origin : InsertArgs

abbrev Records := PathMap AdapterId Chunk Entry

def Entry.cached (entry : Entry) : Cached := ⟨entry.block, entry.refs⟩

def recordedAt (args : InsertArgs) (path : List Chunk) : Option Entry → Option Entry
  | some old => some
      { old with
        refs := (if old.refs = 0 then 1 else old.refs) +
          (if args.isSeqOwned (path.length - 1) then 1 else 0) }
  | none => some
      { block := args.blockTable.getD (path.length - 1) u32Max
        refs := if args.isSeqOwned (path.length - 1) then 2 else 1
        origin := args }

namespace Records

/-- Change the counts of the first `blocks` blocks of `tokens`. -/
def counted (count : Nat → Nat) (records : Records) (adapterId : AdapterId) (tokens : List Token)
    (blockSize blocks : Nat) : Records :=
  records.alter adapterId (OnPath tokens blockSize blocks) fun _ stored =>
    stored.map fun entry => { entry with refs := count entry.refs }

def LongestMatch (records : Records) (adapterId : AdapterId) (tokens : List Token)
    (blockSize depth : Nat) : Prop :=
  PathMap.Longest records (fun entry => 0 < entry.refs) adapterId (trail tokens blockSize)
    (tokens.length / blockSize) depth

inductive Step : Records → RadixTree.Call → Records → Prop where
  | lookup {records : Records} {tokens : List Token} {blockSize depth : Nat} {adapterId : AdapterId}
      {answer : PrefixMatch} : records.LongestMatch adapterId tokens blockSize depth →
      Step records (.lookup tokens blockSize adapterId answer)
        (records.counted (· + 1) adapterId tokens blockSize depth)
  | pinPrefix {records : Records} {tokens : List Token} {blockSize depth matched : Nat}
      {adapterId : AdapterId} : records.LongestMatch adapterId tokens blockSize depth →
      Step records (.pinPrefix tokens blockSize adapterId matched)
        (records.counted (· + 1) adapterId tokens blockSize depth)
  | insert {records : Records} {args : InsertArgs} {acquired : InsertAcquired} :
      Step records (.insert args acquired)
        (records.alter args.adapterId (OnPath args.tokens args.blockSize args.numBlocks)
          (recordedAt args))
  | release {records : Records} {tokens : List Token} {blockSize : Nat} {adapterId : AdapterId} :
      Step records (.release tokens blockSize adapterId)
        (records.counted (· - 1) adapterId tokens blockSize (tokens.length / blockSize))
  | releaseMatched {records : Records} {tokens : List Token} {blockSize matchedTokens : Nat}
      {adapterId : AdapterId} :
      Step records (.releaseMatched tokens blockSize matchedTokens adapterId)
        (records.counted (· - 1) adapterId tokens blockSize
          (min (matchedTokens / blockSize) (tokens.length / blockSize)))
  | evict {records after : Records} {numBlocks : Nat} {evicted : EvictedBlocks} :
      PathMap.Pruned (fun entry => entry.refs ≤ 1) records after →
      Step records (.evict numBlocks evicted) after

def entryAt (records : Records) (blockSize : Nat) (adapterId : AdapterId) (tokens : List Token) :
    Option Entry :=
  if tokens.length % blockSize = 0 then
    records adapterId (trail tokens blockSize (tokens.length / blockSize))
  else none

end Records

/-! ## Trails and token prefixes -/

theorem take_of_trail {left right : List Token} {blockSize i : Nat}
    (same : trail left blockSize i = trail right blockSize i) :
    left.take (i * blockSize) = right.take (i * blockSize) := by
  induction i with
  | zero => simp
  | succ i ih =>
    rw [trail, trail, List.cons.injEq] at same
    rw [Nat.succ_mul, List.take_add, List.take_add, ih same.2]
    exact congrArg _ same.1

theorem entryAt_take (records : Records) {blockSize : Nat} (positive : 0 < blockSize)
    (adapterId : AdapterId) {tokens : List Token} {i : Nat} (inside : i * blockSize ≤ tokens.length) :
    records.entryAt blockSize adapterId (tokens.take (i * blockSize)) =
      records adapterId (trail tokens blockSize i) := by
  have length : (tokens.take (i * blockSize)).length = i * blockSize := by
    rw [List.length_take, Nat.min_eq_left inside]
  rw [Records.entryAt, length, Nat.mul_mod_left, if_pos rfl, Nat.mul_div_cancel _ positive,
    trail_take (Nat.le_refl _)]

/-! ## The simulation -/

def WithBlockSize (blockSize : Nat) : RadixTree.Call → Prop
  | .lookup _ size _ _ => size = blockSize
  | .pinPrefix _ size _ _ => size = blockSize
  | .insert args _ => args.blockSize = blockSize
  | .release _ size _ => size = blockSize
  | .releaseMatched _ size _ _ => size = blockSize
  | .evict _ _ => True

/-- What an entry says of its origin: the same adapter, the same prefix, and the block at its place. -/
structure Entry.Justified (blockSize : Nat) (adapterId : AdapterId) (path : List Chunk) (entry : Entry) :
    Prop where
  sameSize : entry.origin.blockSize = blockSize
  sameAdapter : entry.origin.adapterId = adapterId
  onPath : OnPath entry.origin.tokens entry.origin.blockSize entry.origin.numBlocks path
  sameBlock : entry.block = entry.origin.blockTable.getD (path.length - 1) u32Max

def Records.Justified (records : Records) (blockSize : Nat) : Prop :=
  ∀ adapterId path entry, records adapterId path = some entry →
    entry.Justified blockSize adapterId path

structure Related (blockSize : Nat) (inner : RadixTreeInner) (records : Records) : Prop where
  wellFormed : inner.WellFormed
  unshared : inner.partialTailSharing = false
  cached : inner.cached = records.mapValues Entry.cached
  justified : records.Justified blockSize

theorem Records.eq_some_of_counted {count : Nat → Nat} {records : Records} {adapterId other : AdapterId}
    {tokens : List Token} {blockSize blocks : Nat} {path : List Chunk} {entry : Entry}
    (stored : records.counted count adapterId tokens blockSize blocks other path = some entry) :
    ∃ old, records other path = some old ∧ old.block = entry.block ∧ old.origin = entry.origin := by
  simp only [counted, PathMap.alter] at stored
  split at stored
  · obtain ⟨old, found, rfl⟩ := Option.map_eq_some_iff.mp stored
    exact ⟨old, found, rfl, rfl⟩
  · exact ⟨entry, stored, rfl, rfl⟩

theorem Records.Justified.counted {records : Records} {blockSize : Nat}
    (justified : records.Justified blockSize) (count : Nat → Nat) (adapterId : AdapterId)
    (tokens : List Token) (size blocks : Nat) :
    (records.counted count adapterId tokens size blocks).Justified blockSize := by
  intro other path entry stored
  obtain ⟨old, found, block, origin⟩ := Records.eq_some_of_counted stored
  obtain ⟨sameSize, adapter, onPath, sameBlock⟩ := justified _ _ _ found
  rw [block] at sameBlock
  rw [origin] at sameSize adapter onPath sameBlock
  exact ⟨sameSize, adapter, onPath, sameBlock⟩

theorem Records.Justified.insert {records : Records} {blockSize : Nat}
    (justified : records.Justified blockSize) {args : InsertArgs} (size : args.blockSize = blockSize) :
    Records.Justified (records.alter args.adapterId
      (OnPath args.tokens args.blockSize args.numBlocks) (recordedAt args)) blockSize := by
  intro other path entry stored
  simp only [PathMap.alter] at stored
  split at stored
  · next reached =>
    obtain ⟨rfl, onPath⟩ := reached
    simp only [recordedAt] at stored
    split at stored
    · next old found =>
      cases stored
      obtain ⟨size, adapter, onPath, block⟩ := justified _ _ _ found
      exact ⟨size, adapter, onPath, block⟩
    · cases stored
      exact ⟨size, rfl, onPath, rfl⟩
  · exact justified _ _ _ stored

theorem Related.longestMatch {blockSize : Nat} {inner : RadixTreeInner} {records : Records}
    (related : Related blockSize inner records) {tokens : List Token} {size depth : Nat}
    {adapterId : AdapterId} (answers : inner.Answers tokens size adapterId depth) :
    records.LongestMatch adapterId tokens size depth := by
  -- The map keeps the counts of the tree, so the same paths are usable in both.
  have usable : ∀ path, inner.cached.Usable (fun value => 0 < value.refs) adapterId path ↔
      PathMap.Usable records (fun entry => 0 < entry.refs) adapterId path := by
    intro path
    rw [related.cached]
    constructor
    · rintro ⟨value, stored, used⟩
      obtain ⟨entry, found, rfl⟩ := Option.map_eq_some_iff.mp stored
      exact ⟨entry, found, used⟩
    · rintro ⟨entry, found, used⟩
      exact ⟨entry.cached, by rw [PathMap.mapValues, found, Option.map_some], used⟩
  obtain ⟨le, reached, stopped⟩ := answers.longest
  exact ⟨le, fun i below => (usable _).mp (reached i below),
    fun below next => stopped below ((usable _).mpr next)⟩

theorem Related.step {blockSize : Nat} {inner after : RadixTreeInner} {records : Records}
    {call : RadixTree.Call} (related : Related blockSize inner records)
    (size : WithBlockSize blockSize call) (step : RadixTree.Step inner call after) :
    ∃ records', Records.Step records call records' ∧ Related blockSize after records' := by
  have wf := step.wellFormed related.wellFormed
  have unshared := step.sharing.trans related.unshared
  cases step with
  | lookup positive =>
    obtain ⟨depth, answers, _, cached⟩ := RadixTree.lookup_spec related.wellFormed _ _ positive
    refine ⟨_, .lookup (related.longestMatch answers), wf, unshared, ?_, related.justified.counted _ _ _ _ _⟩
    rw [cached, related.cached]
    exact (PathMap.mapValues_alter _ _ _ _ fun path stored => by cases stored <;> rfl).symm
  | pinPrefix positive =>
    obtain ⟨depth, answers, _, cached⟩ := RadixTree.pinPrefix_spec related.wellFormed _ _ positive
    refine ⟨_, .pinPrefix (related.longestMatch answers), wf, unshared, ?_,
      related.justified.counted _ _ _ _ _⟩
    rw [cached, related.cached]
    exact (PathMap.mapValues_alter _ _ _ _ fun path stored => by cases stored <;> rfl).symm
  | insert stored =>
    obtain ⟨_, cached⟩ := RadixTree.insert_spec related.wellFormed stored
    refine ⟨_, .insert, wf, unshared, ?_, related.justified.insert size⟩
    rw [cached, related.cached]
    exact (PathMap.mapValues_alter _ _ _ _ fun path stored => by cases stored <;> rfl).symm
  | release positive =>
    obtain ⟨_, cached⟩ := RadixTree.release_spec related.wellFormed _ _
    refine ⟨_, .release, wf, unshared, ?_, related.justified.counted _ _ _ _ _⟩
    rw [cached, related.cached]
    exact (PathMap.mapValues_alter _ _ _ _ fun path stored => by cases stored <;> rfl).symm
  | releaseMatched positive =>
    obtain ⟨_, cached⟩ := RadixTree.releaseMatched_spec related.wellFormed _ _ _
    refine ⟨_, .releaseMatched, wf, unshared, ?_, related.justified.counted _ _ _ _ _⟩
    rw [cached, related.cached]
    exact (PathMap.mapValues_alter _ _ _ _ fun path stored => by cases stored <;> rfl).symm
  -- The map loses the paths that the tree lost, whichever leaves those were.
  | evict =>
    obtain ⟨_, pruned⟩ := RadixTree.evict_spec related.wellFormed _
    rw [related.cached] at pruned
    obtain ⟨records', prunedRecords, cached⟩ := pruned.lift
    refine ⟨records', .evict prunedRecords, wf, unshared, cached.symm, ?_⟩
    intro adapterId path entry stored
    exact related.justified _ _ _ (prunedRecords.restricts stored)

/-! ## The origins -/

theorem Records.origin_mem {calls : List RadixTree.Call} {records : Records}
    (run : Run Records.Step (fun _ _ => none) calls records) {adapterId : AdapterId}
    {path : List Chunk} {entry : Entry} (stored : records adapterId path = some entry) :
    ∃ acquired, .insert entry.origin acquired ∈ calls := by
  induction run generalizing adapterId path entry with
  | start => cases stored
  | @extend calls call middle last earlier step ih =>
    -- A call that creates no entry leaves the origins of those it keeps.
    have older : ∀ {old : Entry}, middle adapterId path = some old → old.origin = entry.origin →
        ∃ acquired, .insert entry.origin acquired ∈ calls ++ [call] := by
      intro old found same
      obtain ⟨acquired, member⟩ := ih found
      rw [same] at member
      exact ⟨acquired, List.mem_append_left _ member⟩
    cases step with
    | lookup _ =>
      obtain ⟨old, found, _, same⟩ := Records.eq_some_of_counted stored
      exact older found same
    | pinPrefix _ =>
      obtain ⟨old, found, _, same⟩ := Records.eq_some_of_counted stored
      exact older found same
    | release =>
      obtain ⟨old, found, _, same⟩ := Records.eq_some_of_counted stored
      exact older found same
    | releaseMatched =>
      obtain ⟨old, found, _, same⟩ := Records.eq_some_of_counted stored
      exact older found same
    | evict pruned => exact older (pruned.restricts stored) rfl
    | @insert args acquired =>
      simp only [PathMap.alter] at stored
      split at stored
      · simp only [recordedAt] at stored
        split at stored
        -- An insert over an entry only counts it: the block and its origin stay those of the first insert.
        · next old found =>
          cases stored
          exact older found rfl
        · cases stored
          exact ⟨acquired, List.mem_append_right _ List.mem_cons_self⟩
      · exact older stored rfl

/-! ## What `walk` answers -/

/-- Block `i` of an answer: recorded, under the query's adapter, by the insert that created the
entry of the query's first `i + 1` blocks. -/
def RecordedBlock (calls : List RadixTree.Call) (records : Records) (blockSize : Nat)
    (adapterId : AdapterId) (tokens : List Token) (i : Nat) (block : BlockId) : Prop :=
  ∃ entry acquired,
    records.entryAt blockSize adapterId (tokens.take ((i + 1) * blockSize)) = some entry ∧
    0 < entry.refs ∧ entry.block = block ∧ .insert entry.origin acquired ∈ calls ∧
    entry.origin.adapterId = adapterId ∧
    entry.origin.tokens.take ((i + 1) * blockSize) = tokens.take ((i + 1) * blockSize) ∧
    entry.origin.blockTable[i]? = some block

structure WalkAnswer (calls : List RadixTree.Call) (records : Records) (blockSize : Nat)
    (adapterId : AdapterId) (tokens : List Token) (walked : RadixTreeInner.Walked) (depth : Nat) :
    Prop where
  inside : depth * blockSize ≤ tokens.length
  matchedTokens : walked.matchedTokens = depth * blockSize
  length : walked.matchedBlocks.length = depth
  block : ∀ i block, walked.matchedBlocks[i]? = some block →
    RecordedBlock calls records blockSize adapterId tokens i block
  longest : (depth + 1) * blockSize ≤ tokens.length → ∀ entry,
    records.entryAt blockSize adapterId (tokens.take ((depth + 1) * blockSize)) = some entry →
    entry.refs = 0

theorem Related.new (blockSize : Nat) :
    Related blockSize (RadixTreeInner.new false) (fun _ _ => none) where
  wellFormed := RadixTreeInner.WellFormed.new false
  unshared := rfl
  cached := RadixTreeInner.cached_new false
  justified := by
    intro adapterId path entry stored
    cases stored

theorem Related.walkAnswer {blockSize : Nat} (positive : 0 < blockSize) {inner : RadixTreeInner}
    {records : Records} {calls : List RadixTree.Call} (related : Related blockSize inner records)
    (run : Run Records.Step (fun _ _ => none) calls records) (adapterId : AdapterId)
    (tokens : List Token) :
    ∃ depth, WalkAnswer calls records blockSize adapterId tokens
      (inner.walk tokens blockSize adapterId) depth := by
  obtain ⟨depth, answers⟩ := RadixTreeInner.walk_longest related.wellFormed tokens positive adapterId
  obtain ⟨matched, length⟩ := answers.exact related.unshared
  have longest := related.longestMatch answers
  have inside : depth * blockSize ≤ tokens.length :=
    Nat.le_trans (Nat.mul_le_mul_right _ longest.le_bound) (Nat.div_mul_le_self _ _)
  refine ⟨depth, inside, matched, length, ?_, ?_⟩
  · intro i block present
    have below : i < depth := by
      rw [← length]
      exact (List.getElem?_eq_some_iff.mp present).1
    obtain ⟨value, cached, used, answered⟩ := answers.block i below
    rw [answered] at present
    cases present
    rw [related.cached] at cached
    obtain ⟨entry, stored, rfl⟩ := Option.map_eq_some_iff.mp cached
    -- The answered block comes from the block table of the insert that created the entry.
    obtain ⟨acquired, member⟩ := Records.origin_mem run stored
    obtain ⟨size, adapter, onPath, sameBlock⟩ := related.justified _ _ _ stored
    obtain ⟨_, le, same⟩ := onPath
    rw [length_trail] at le same sameBlock
    rw [size] at same
    have within : (i + 1) * blockSize ≤ tokens.length :=
      Nat.le_trans (Nat.mul_le_mul_right _ below) inside
    refine ⟨entry, acquired, ?_, used, rfl, member, adapter, take_of_trail same.symm, ?_⟩
    · rw [entryAt_take records positive adapterId within, stored]
    · have bound : i < entry.origin.blockTable.length :=
        Nat.lt_of_lt_of_le le (Nat.min_le_right _ _)
      rw [Nat.add_sub_cancel, List.getD_eq_getElem?_getD, List.getElem?_eq_getElem bound,
        Option.getD_some] at sameBlock
      rw [List.getElem?_eq_getElem bound, ← sameBlock]
      rfl
  · intro within entry stored
    rw [entryAt_take records positive adapterId within] at stored
    by_contra used
    have below : depth < tokens.length / blockSize := (Nat.le_div_iff_mul_le positive).mpr within
    exact longest.stopped below ⟨entry, stored, Nat.pos_of_ne_zero used⟩

theorem contextHash_expected {inner : RadixTreeInner} (wf : inner.WellFormed) {adapterId : AdapterId}
    {tokens : List Token} {blockSize i : Nat} {id : NodeId}
    (found : inner.find adapterId (trail tokens blockSize (i + 1)) = some id) :
    (inner.node id).contextHash =
      contextHashCombine (trailHash (trail tokens blockSize i)) (chunk tokens blockSize i) := by
  rw [wf.find_contextHash found]
  rfl

/-- With partial-tail sharing off and one block size, the tree refines the map of token prefixes: the
run of the tree is a run of the map, which `walk` answers from, for every adapter and query. -/
theorem walk_refines_records {blockSize : Nat} (positive : 0 < blockSize)
    {calls : List RadixTree.Call} {inner : RadixTreeInner}
    (run : Run (Guarded (fun _ call => WithBlockSize blockSize call) RadixTree.Step)
      (RadixTreeInner.new false) calls inner) :
    ∃ records, Run Records.Step (fun _ _ => none) calls records ∧
      inner.cached = records.mapValues Entry.cached ∧
      ∀ adapterId tokens,
        (∃ depth, WalkAnswer calls records blockSize adapterId tokens
          (inner.walk tokens blockSize adapterId) depth) ∧
        ∀ i id, inner.find adapterId (trail tokens blockSize (i + 1)) = some id →
          (inner.node id).contextHash =
            contextHashCombine (trailHash (trail tokens blockSize i)) (chunk tokens blockSize i) := by
  obtain ⟨records, specRun, related⟩ := run.simulates (Related.new blockSize)
    fun _ _ _ _ related step => related.step step.1 step.2
  refine ⟨records, specRun, related.cached, ?_⟩
  intro adapterId tokens
  exact ⟨related.walkAnswer positive specRun adapterId tokens,
    fun i id found => contextHash_expected related.wellFormed found⟩

/-- A query that shares its first block with a cached sequence. -/
theorem walk_refines_records_shared :
    ∃ (calls : List RadixTree.Call) (inner : RadixTreeInner) (records : Records),
    Run Records.Step (fun _ _ => none) calls records ∧
    (inner.walk [1, 2, 9] 2 0).matchedBlocks = [10] ∧
    ∃ depth, WalkAnswer calls records 2 0 [1, 2, 9] (inner.walk [1, 2, 9] 2 0) depth := by
  have run : ∃ inner, Run (Guarded (fun _ call => WithBlockSize 2 call) RadixTree.Step)
      (RadixTreeInner.new false) [.insert ⟨[1, 2, 3, 4], [10, 11], [], 2, 0, 0⟩ ⟨[], [10, 11], []⟩] inner ∧
      (inner.walk [1, 2, 9] 2 0).matchedBlocks = [10] :=
    ⟨_, .single ⟨rfl, .insert rfl⟩, by decide⟩
  obtain ⟨inner, run, answer⟩ := run
  obtain ⟨records, specRun, _, answers⟩ := walk_refines_records (by decide) run
  exact ⟨_, inner, records, specRun, answer, (answers 0 [1, 2, 9]).1⟩

end Metrale.Cache
