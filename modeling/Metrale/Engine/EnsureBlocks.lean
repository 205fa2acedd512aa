import Metrale.Engine.AllocEvicting
import Metrale.Engine.Sequence

/-! # Growing a block table (`ensure_blocks_through_*` in `model-engine/src/model/block_mgmt.rs`)

A new block is handed out, filled and pushed, and under high-speed swap it also gets a disk id.  The device
and the swap store may fail at every block; what they answer is an input.  The decode path slides a full window. -/

namespace Metrale.Engine

open Metrale.Foundation Metrale.Cache

/-- None when the block has left the window or is past its end. -/
def SequenceState.physicalBlockFor (seq : SequenceState) (absBlockIdx : Nat) : Option BlockId :=
  if absBlockIdx < seq.hssWindowStart then none else seq.blockTable[absBlockIdx - seq.hssWindowStart]?

/-- What the device and the swap store answer for one new block.  `swap` is none without an installed
orchestrator, and `some none` when its ids are used up. -/
structure BlockAnswers where
  fill : Except String Unit
  swap : Option (Option DiskId)

/-- `with_local(|hss| hss.alloc_disk_block_id())`, with the errors the callers put on it. -/
def allocDiskBlockId : Option (Option DiskId) → Except String DiskId
  | none => .error "high-speed-swap: orchestrator not installed but cache_blocks_per_seq is set"
  | some none => .error ("high-speed-swap: disk-block-id pool exhausted; " ++
      "increase --high-speed-swap-bytes or shorten --max-seq-len")
  | some (some id) => .ok id

def checkSafeToEvict (diskLastOffloadedPerLayer : List UInt32) (evictPos : Nat) : Except String Unit :=
  match diskLastOffloadedPerLayer.zipIdx.find? fun entry => entry.1.toNat ≤ evictPos with
  | some (cursor, layerIdx) =>
    .error (s!"high-speed-swap: attempting to evict block at logical position {evictPos} from HBM, but " ++
      s!"attention layer {layerIdx} only offloaded up to position {cursor}. Eviction would lose K/V data. " ++
      s!"Per-layer cursors: {diskLastOffloadedPerLayer}")
  | none => .ok ()

/-- `new_window_start as u32`. -/
def advanceLayerCursorsAfterSlide (diskLastOffloadedPerLayer : List UInt32) (newWindowStart : Nat) : List UInt32 :=
  diskLastOffloadedPerLayer.map fun cursor => max cursor (UInt32.ofNat newWindowStart)

/-- The locals of the loop.  `allocated` are the blocks handed out so far. -/
structure GrowState where
  seq : SequenceState
  diskLastOffloadedPerLayer : List UInt32
  tree : RadixTreeInner
  pool : PagedKvCache
  slideCount : Nat
  allocCount : Nat
  allocated : List BlockId

namespace GrowState

def inWindow (state : GrowState) (absBlockIdx : Nat) : Bool :=
  0 < state.seq.blockTable.length && absBlockIdx < state.seq.hssWindowStart + state.seq.blockTable.length

def full (state : GrowState) (cap : Option Nat) : Bool :=
  cap.any fun c => c ≤ state.seq.blockTable.length

/-- `block_table.remove(0)` panics on an empty table. -/
def slide (state : GrowState) : Option (Except String GrowState) :=
  let windowStart := state.seq.hssWindowStart
  match checkSafeToEvict state.diskLastOffloadedPerLayer windowStart with
  | .error e =>
    let ids := state.seq.diskBlockIds.length
    let blocks := state.seq.blockTable.length
    let slid := state.slideCount
    let grown := state.allocCount
    some (.error (s!"{e} (decode path; disk_block_ids.len()={ids}, block_table.len()={blocks}, " ++
      s!"slid={slid}, alloc'd={grown})"))
  | .ok () =>
    match state.seq.blockTable with
    | [] => none
    | evicted :: blockTable => (state.pool.freeBlock evicted).map fun pool =>
      .ok { state with
        seq := { state.seq with blockTable }
        pool
        diskLastOffloadedPerLayer := advanceLayerCursorsAfterSlide state.diskLastOffloadedPerLayer (windowStart + 1)
        slideCount := state.slideCount + 1 }

def push (state : GrowState) (block : BlockId) : GrowState :=
  { state with
    seq := { state.seq with blockTable := state.seq.blockTable ++ [block] }
    allocCount := state.allocCount + 1 }

def pushId (state : GrowState) (id : DiskId) : GrowState :=
  { state with seq := { state.seq with diskBlockIds := state.seq.diskBlockIds ++ [id] } }

end GrowState

/-- A new block: it is filled, pushed and, under high-speed swap, given a disk id.  None goes on. -/
def GrowState.grow (state : GrowState) (cap : Option Nat) (block : BlockId) (answer : BlockAnswers) :
    Option String × GrowState :=
  match answer.fill with
  | .error e => (some e, state)
  | .ok () =>
    let state := state.push block
    if cap.isSome then
      match allocDiskBlockId answer.swap with
      | .error e => (some e, state)
      | .ok id => (none, state.pushId id)
    else (none, state)

/-- One round of the loop that both paths share; only the decode path slides, and `exhausted` is a path's error
when no block is to be had.  An answer is read for each block handed out.  The round returns a result or goes on;
none is a panic, or that the answers are too few. -/
def ensureBlocksRound (sliding : Bool) (cap : Option Nat) (exhausted : GrowState → String) (absBlockIdx : Nat)
    (state : GrowState) (answers : List BlockAnswers) :
    Option (Option (Except String Unit) × GrowState × List BlockAnswers) :=
  if state.inWindow absBlockIdx then some (some (.ok ()), state, answers)
  else if sliding && state.full cap then
    state.slide.map fun slid =>
      match slid with
      | .error e => (some (.error e), state, answers)
      | .ok state => (none, state, answers)
  else
    match allocBlockEvicting state.tree state.pool with
    | none => none
    | some (none, tree, pool) =>
      let state := { state with tree, pool }
      some (some (.error (exhausted state)), state, answers)
    | some (some block, tree, pool) =>
      match answers with
      | [] => none
      | answer :: answers =>
        let (failed, state) :=
          GrowState.grow { state with tree, pool, allocated := state.allocated ++ [block] } cap block answer
        some (failed.map .error, state, answers)

def ensureBlocksLoop (sliding : Bool) (cap : Option Nat) (exhausted : GrowState → String) (absBlockIdx : Nat) :
    Nat → GrowState → List BlockAnswers → Option (Except String Unit × GrowState × List BlockAnswers)
  | 0, _, _ => none
  | rounds + 1, state, answers =>
    match ensureBlocksRound sliding cap exhausted absBlockIdx state answers with
    | none => none
    | some (some result, state, answers) => some (result, state, answers)
    | some (none, state, answers) => ensureBlocksLoop sliding cap exhausted absBlockIdx rounds state answers

def growRounds (state : GrowState) (answers : List BlockAnswers) : Nat :=
  state.seq.blockTable.length + 2 * answers.length + 1

def GrowState.start (seq : SequenceState) (diskLastOffloadedPerLayer : List UInt32) (tree : RadixTreeInner)
    (pool : PagedKvCache) : GrowState :=
  { seq, diskLastOffloadedPerLayer, tree, pool, slideCount := 0, allocCount := 0, allocated := [] }

def ensureBlocksThroughDecode (cap : Option Nat) (absBlockIdx : Nat) (state : GrowState) (answers : List BlockAnswers) :
    Option (Except String Unit × GrowState × List BlockAnswers) :=
  let exhausted (state : GrowState) : String :=
    let windowStart := state.seq.hssWindowStart
    let blocks := state.seq.blockTable.length
    let capText := cap.elim "None" fun c => s!"Some({c})"
    let free := state.pool.freeBlocks.length
    let slid := state.slideCount
    let grown := state.allocCount
    s!"alloc failed in ensure_blocks_through_decode: abs={absBlockIdx} ws={windowStart} bt_len={blocks} " ++
      s!"cap={capText} free_blocks={free} slid={slid} alloc'd={grown}: KV cache exhausted: no free blocks"
  ensureBlocksLoop true cap exhausted absBlockIdx (growRounds state answers) state answers

def ensureBlocksThroughPrefill (cap : Option Nat) (absBlockIdx : Nat) (state : GrowState) (answers : List BlockAnswers) :
    Option (Except String Unit × GrowState × List BlockAnswers) :=
  ensureBlocksLoop false cap (fun _ => "KV cache exhausted: no free blocks") absBlockIdx (growRounds state answers)
    state answers

/-! ## One round -/

variable {sliding : Bool} {cap : Option Nat} {exhausted : GrowState → String} {absBlockIdx numBlocks : Nat}
  {state after : GrowState} {answers rest : List BlockAnswers} {result : Option (Except String Unit)}

def BlockAnswers.Succeeds (cap : Option Nat) (answer : BlockAnswers) : Prop :=
  answer.fill = .ok () ∧ (cap.isSome → ∃ id, answer.swap = some (some id))

theorem GrowState.slide_ok (slid : state.slide = some (.ok after)) :
    ∃ evicted blockTable pool, state.seq.blockTable = evicted :: blockTable ∧
      state.pool.freeBlock evicted = some pool ∧
      after = { state with
        seq := { state.seq with blockTable }
        pool
        diskLastOffloadedPerLayer :=
          advanceLayerCursorsAfterSlide state.diskLastOffloadedPerLayer (state.seq.hssWindowStart + 1)
        slideCount := state.slideCount + 1 } := by
  unfold slide at slid
  cases checked : checkSafeToEvict state.diskLastOffloadedPerLayer state.seq.hssWindowStart with
  | error e =>
    simp only [checked] at slid
    cases slid
  | ok _ =>
    simp only [checked] at slid
    cases table : state.seq.blockTable with
    | nil =>
      simp only [table] at slid
      cases slid
    | cons evicted blockTable =>
      simp only [table] at slid
      obtain ⟨pool, freed, same⟩ := Option.map_eq_some_iff.mp slid
      exact ⟨evicted, blockTable, pool, rfl, freed, (Except.ok.inj same).symm⟩

theorem GrowState.grow_cases (cap : Option Nat) (block : BlockId) (answer : BlockAnswers) :
    (answer.Succeeds cap ∧ ∃ ids : List DiskId, (ids.length = if cap.isSome then 1 else 0) ∧
      state.grow cap block answer = (none, { state.push block with
        seq := { (state.push block).seq with diskBlockIds := state.seq.diskBlockIds ++ ids } })) ∨
    (¬ answer.Succeeds cap ∧ ∃ e, state.grow cap block answer = (some e, state)) ∨
    (¬ answer.Succeeds cap ∧ cap.isSome ∧ ∃ e, state.grow cap block answer = (some e, state.push block)) := by
  unfold grow
  cases filled : answer.fill with
  | error e =>
    refine .inr (.inl ⟨fun served => ?_, e, rfl⟩)
    have met := served.1
    rw [filled] at met
    cases met
  | ok _ =>
    cases cap with
    | none => exact .inl ⟨⟨filled, fun set => (by cases set)⟩, [], rfl, by simp [push]⟩
    | some c =>
      cases given : allocDiskBlockId answer.swap with
      | error e =>
        refine .inr (.inr ⟨fun served => ?_, rfl, e, ?_⟩)
        · obtain ⟨id, swap⟩ := served.2 rfl
          rw [swap] at given
          cases given
        · simp [given]
      | ok id =>
        left
        refine ⟨⟨filled, fun _ => ⟨id, ?_⟩⟩, [id], rfl, ?_⟩
        · cases swap : answer.swap with
          | none =>
            rw [swap] at given
            cases given
          | some found =>
            rw [swap] at given
            cases found with
            | none => cases given
            | some found => rw [Except.ok.inj given]
        · simp [pushId, push]

inductive RoundCase (sliding : Bool) (cap : Option Nat) (absBlockIdx : Nat) (state : GrowState)
    (answers : List BlockAnswers) : Option (Except String Unit) → GrowState → List BlockAnswers → Prop where
  | served (inside : state.inWindow absBlockIdx = true) :
      RoundCase sliding cap absBlockIdx state answers (some (.ok ())) state answers
  | lagging {e : String} (outside : state.inWindow absBlockIdx = false)
      (full : (sliding && state.full cap) = true) (refused : state.slide = some (.error e)) :
      RoundCase sliding cap absBlockIdx state answers (some (.error e)) state answers
  | slide {after : GrowState} (outside : state.inWindow absBlockIdx = false)
      (full : (sliding && state.full cap) = true) (slid : state.slide = some (.ok after)) :
      RoundCase sliding cap absBlockIdx state answers none after answers
  | dry {e : String} {tree : RadixTreeInner} {pool : PagedKvCache} (outside : state.inWindow absBlockIdx = false)
      (room : (sliding && state.full cap) = false)
      (missed : allocBlockEvicting state.tree state.pool = some (none, tree, pool)) :
      RoundCase sliding cap absBlockIdx state answers (some (.error e)) { state with tree, pool } answers
  | grow {answer : BlockAnswers} {rest : List BlockAnswers} {block : BlockId} {tree : RadixTreeInner}
      {pool : PagedKvCache} {failed : Option String} {after : GrowState} (read : answers = answer :: rest)
      (outside : state.inWindow absBlockIdx = false) (room : (sliding && state.full cap) = false)
      (found : allocBlockEvicting state.tree state.pool = some (some block, tree, pool))
      (grown : GrowState.grow { state with tree, pool, allocated := state.allocated ++ [block] } cap block answer =
        (failed, after)) :
      RoundCase sliding cap absBlockIdx state answers (failed.map .error) after rest

theorem ensureBlocksRound_case
    (taken : ensureBlocksRound sliding cap exhausted absBlockIdx state answers = some (result, after, rest)) :
    RoundCase sliding cap absBlockIdx state answers result after rest := by
  unfold ensureBlocksRound at taken
  cases inside : state.inWindow absBlockIdx with
  | true =>
    rw [inside, if_pos rfl] at taken
    cases taken
    exact .served inside
  | false =>
    rw [inside, if_neg Bool.false_ne_true] at taken
    cases full : sliding && state.full cap with
    | true =>
      rw [full, if_pos rfl] at taken
      obtain ⟨slid, moved, same⟩ := Option.map_eq_some_iff.mp taken
      cases slid with
      | error e =>
        cases same
        exact .lagging inside full moved
      | ok next =>
        cases same
        exact .slide inside full moved
    | false =>
      rw [full, if_neg Bool.false_ne_true] at taken
      cases allocated : allocBlockEvicting state.tree state.pool with
      | none =>
        rw [allocated] at taken
        cases taken
      | some outcome =>
        obtain ⟨answered, tree, pool⟩ := outcome
        rw [allocated] at taken
        cases answered with
        | none =>
          cases taken
          exact .dry inside full allocated
        | some block =>
          cases answers with
          | nil => cases taken
          | cons answer answers =>
            cases grown : GrowState.grow
              { state with tree, pool, allocated := state.allocated ++ [block] } cap block answer with
            | mk failed next =>
              simp only [grown] at taken
              cases taken
              exact .grow rfl inside full allocated grown

theorem growRounds_round
    (taken : ensureBlocksRound sliding cap exhausted absBlockIdx state answers = some (none, after, rest)) :
    growRounds after rest < growRounds state answers := by
  generalize outcome : (none : Option (Except String Unit)) = result at taken
  cases ensureBlocksRound_case taken with
  | served => cases outcome
  | lagging => cases outcome
  | dry => cases outcome
  | slide outside full slid =>
    obtain ⟨evicted, blockTable, pool, table, -, rfl⟩ := GrowState.slide_ok slid
    simp only [growRounds, table, List.length_cons]
    omega
  | @grow answer _ block tree pool _ _ read outside room found grown =>
    obtain ⟨-, ids, -, served⟩ | ⟨-, e, unfilled⟩ | ⟨-, -, e, unswapped⟩ := GrowState.grow_cases cap block answer
    · rw [served] at grown
      cases grown
      simp only [growRounds, GrowState.push, read, List.length_append, List.length_cons, List.length_nil]
      omega
    · rw [unfilled] at grown
      cases grown
      cases outcome
    · rw [unswapped] at grown
      cases grown
      cases outcome

theorem ensureBlocksLoop_rounds (rounds more : Nat) (enough : growRounds state answers ≤ rounds)
    (enoughMore : growRounds state answers ≤ more) :
    ensureBlocksLoop sliding cap exhausted absBlockIdx rounds state answers =
      ensureBlocksLoop sliding cap exhausted absBlockIdx more state answers := by
  induction rounds generalizing more state answers with
  | zero => exact absurd enough (Nat.not_succ_le_zero _)
  | succ rounds ih =>
    obtain ⟨more, rfl⟩ : ∃ fewer, more = fewer + 1 :=
      ⟨more - 1, by simp only [growRounds] at enoughMore; omega⟩
    simp only [ensureBlocksLoop]
    split
    · rfl
    · rfl
    · next taken =>
      have fewer := growRounds_round taken
      exact ih more (by omega) (by omega)

/-! ## What the loop keeps -/

variable {entry : SequenceState} {others : Multiset BlockId}

/-- Each entry of the table has its own disk id: the table is what was there and what was pushed, less what has
left the window, and the ids have grown by one for each block pushed. -/
def GrowState.Parallel (cap : Option Nat) (entry : SequenceState) (state : GrowState) : Prop :=
  state.seq.blockTable = (entry.blockTable ++ state.allocated.take state.allocCount).drop state.slideCount ∧
  ∃ ids, state.seq.diskBlockIds = entry.diskBlockIds ++ ids ∧ ids.length = if cap.isSome then state.allocCount else 0

def GrowState.NoLeak (state : GrowState) : Prop :=
  ∀ block ∈ state.allocated, block ∈ state.seq.blockTable ∨ block ∈ state.pool.freeBlocks

/-- The invariant of the loop.  A block handed out has no reference but the table's. -/
structure Growing (numBlocks : Nat) (cap : Option Nat) (entry : SequenceState) (others : Multiset BlockId)
    (state : GrowState) : Prop where
  accounted : KvSystem.Accounted numBlocks ⟨state.tree, state.pool, state.seq.blockTable + others⟩
  count : state.allocated.length = state.allocCount
  slid : state.slideCount ≤ entry.blockTable.length + state.allocCount
  parallel : state.Parallel cap entry
  fresh : ∀ block ∈ state.allocated, block.toNat < state.pool.addressable ∧ block ∉ state.tree.storedBlocks ∧
    block ∉ others ∧ state.seq.blockTable.count block ≤ 1

theorem Growing.noLeak (growing : Growing numBlocks cap entry others state) : state.NoLeak := by
  intro block handed
  obtain ⟨below, unstored, unheld, -⟩ := growing.fresh block handed
  by_cases listed : block ∈ state.seq.blockTable
  · exact .inl listed
  · right
    have count := growing.accounted.count block
    simp only [Multiset.count_add, Multiset.coe_count, Multiset.count_eq_zero.mpr unstored,
      Multiset.count_eq_zero.mpr unheld, List.count_eq_zero.mpr listed] at count
    exact (growing.accounted.pool.free_iff block).mpr ⟨below, UInt32.toNat_inj.mp count⟩

theorem growing_start {tree : RadixTreeInner} {pool : PagedKvCache} {cursors : List UInt32}
    (accounted : KvSystem.Accounted numBlocks ⟨tree, pool, entry.blockTable + others⟩) :
    Growing numBlocks cap entry others (GrowState.start entry cursors tree pool) where
  accounted := accounted
  count := rfl
  slid := Nat.zero_le _
  parallel := ⟨by simp [GrowState.start], [], by simp [GrowState.start], by simp [GrowState.start]⟩
  fresh := fun block handed => (by simp [GrowState.start] at handed)

theorem addressable_eq {tree next : RadixTreeInner} {pool after : PagedKvCache} {held more : Multiset BlockId}
    (first : KvSystem.Accounted numBlocks ⟨tree, pool, held⟩)
    (last : KvSystem.Accounted numBlocks ⟨next, after, more⟩) : after.addressable = pool.addressable := by
  have blocks := first.blocks
  have blocksAfter := last.blocks
  dsimp only at blocks blocksAfter
  simp only [PagedKvCache.addressable, blocks, blocksAfter]

theorem Growing.slide (growing : Growing numBlocks cap entry others state) (slid : state.slide = some (.ok after)) :
    Growing numBlocks cap entry others after := by
  obtain ⟨evicted, blockTable, pool, table, freed, rfl⟩ := GrowState.slide_ok slid
  have held : evicted ∈ ((state.seq.blockTable : Multiset BlockId) + others) := by simp [table]
  have dropped := growing.accounted.drop held freed
  have left : ((state.seq.blockTable : Multiset BlockId) + others).erase evicted = (blockTable : Multiset BlockId) + others := by
    rw [table, ← Multiset.cons_coe, Multiset.cons_add, Multiset.erase_cons_head]
  dsimp only at dropped
  rw [left] at dropped
  obtain ⟨listed, ids, grown, sized⟩ := growing.parallel
  refine ⟨dropped, growing.count, ?_, ⟨?_, ids, grown, sized⟩, ?_⟩
  · have longer := congrArg List.length listed
    rw [table, List.length_drop, List.length_append, List.length_take, List.length_cons] at longer
    dsimp only
    omega
  · rw [table] at listed
    dsimp only
    rw [← List.drop_drop, ← listed]
    rfl
  · intro block handed
    obtain ⟨below, unstored, unheld, once⟩ := growing.fresh block handed
    refine ⟨?_, unstored, unheld, ?_⟩
    · dsimp only
      rw [addressable_eq growing.accounted dropped]
      exact below
    · rw [table, List.count_cons] at once
      exact (Nat.le_add_right _ _).trans once

variable {block : BlockId} {tree : RadixTreeInner} {pool : PagedKvCache}

theorem Growing.found (growing : Growing numBlocks cap entry others state)
    (found : allocBlockEvicting state.tree state.pool = some (some block, tree, pool)) :
    KvSystem.Accounted numBlocks ⟨tree, pool, block ::ₘ (state.seq.blockTable + others)⟩ ∧
    tree.storedBlocks ≤ state.tree.storedBlocks ∧ block.toNat < pool.addressable ∧
    block ∉ tree.storedBlocks ∧ block ∉ state.seq.blockTable ∧ block ∉ others := by
  obtain ⟨answer, treeAfter, poolAfter, same, less, -, taken⟩ := growing.accounted.allocEvicting
  rw [found] at same
  obtain ⟨rfl, rfl, rfl⟩ : some block = answer ∧ tree = treeAfter ∧ pool = poolAfter := by simpa using same
  obtain ⟨accounted, unstored, unheld⟩ := taken block rfl
  have used := accounted.used (Multiset.mem_cons_self block _)
  simp only [Multiset.mem_add, Multiset.mem_coe, not_or] at unheld
  exact ⟨accounted, less, accounted.pool.used_lt block used, unstored, unheld.1, unheld.2⟩

theorem Growing.dry (growing : Growing numBlocks cap entry others state)
    (missed : allocBlockEvicting state.tree state.pool = some (none, tree, pool)) :
    Growing numBlocks cap entry others { state with tree, pool } := by
  obtain ⟨answer, treeAfter, poolAfter, same, less, kept, -⟩ := growing.accounted.allocEvicting
  rw [missed] at same
  obtain ⟨rfl, rfl, rfl⟩ : none = answer ∧ tree = treeAfter ∧ pool = poolAfter := by simpa using same
  refine ⟨kept rfl, growing.count, growing.slid, growing.parallel, fun block handed => ?_⟩
  obtain ⟨below, unstored, unheld, once⟩ := growing.fresh block handed
  refine ⟨?_, fun stored => unstored (Multiset.mem_of_le less stored), unheld, once⟩
  dsimp only
  rw [addressable_eq growing.accounted (kept rfl)]
  exact below

theorem Growing.served {ids : List DiskId} (growing : Growing numBlocks cap entry others state)
    (found : allocBlockEvicting state.tree state.pool = some (some block, tree, pool))
    (sized : ids.length = if cap.isSome then 1 else 0) :
    Growing numBlocks cap entry others
      { state with
        tree, pool
        seq := { state.seq with
          blockTable := state.seq.blockTable ++ [block]
          diskBlockIds := state.seq.diskBlockIds ++ ids }
        allocCount := state.allocCount + 1
        allocated := state.allocated ++ [block] } := by
  obtain ⟨accounted, less, below, unstored, unlisted, unheld⟩ := growing.found found
  obtain ⟨listed, old, grown, oldSized⟩ := growing.parallel
  have pushed : block ::ₘ ((state.seq.blockTable : Multiset BlockId) + others) =
      ((state.seq.blockTable ++ [block] : List BlockId) : Multiset BlockId) + others := by
    rw [← Multiset.cons_add, Multiset.cons_coe, Multiset.coe_eq_coe.mpr (List.perm_append_singleton block _).symm]
  rw [pushed] at accounted
  refine ⟨accounted, ?_, ?_, ⟨?_, old ++ ids, ?_, ?_⟩, ?_⟩
  · simp [growing.count]
  · have slid := growing.slid
    dsimp only
    omega
  · have all : (state.allocated ++ [block]).take (state.allocCount + 1) = state.allocated ++ [block] :=
      List.take_of_length_le (by simp [growing.count])
    rw [List.take_of_length_le (Nat.le_of_eq growing.count)] at listed
    dsimp only
    rw [all, ← List.append_assoc, List.drop_append_of_le_length, ← listed]
    rw [List.length_append, growing.count]
    exact growing.slid
  · simp [grown]
  · rw [List.length_append, oldSized, sized]
    dsimp only
    split <;> rfl
  · intro other handed
    obtain old | new := List.mem_append.mp handed
    · obtain ⟨belowOld, unstoredOld, unheldOld, once⟩ := growing.fresh other old
      refine ⟨?_, fun stored => unstoredOld (Multiset.mem_of_le less stored), unheldOld, ?_⟩
      · dsimp only
        rw [addressable_eq growing.accounted accounted]
        exact belowOld
      · dsimp only
        rw [List.count_append, List.count_singleton]
        by_cases same : block = other
        · subst same
          simp [List.count_eq_zero.mpr unlisted]
        · simpa [same] using once
    · obtain rfl := List.mem_singleton.mp new
      refine ⟨below, unstored, unheld, ?_⟩
      simp [List.count_append, List.count_eq_zero.mpr unlisted]

theorem Growing.unfilled (growing : Growing numBlocks cap entry others state)
    (found : allocBlockEvicting state.tree state.pool = some (some block, tree, pool)) :
    ¬ GrowState.NoLeak { state with tree, pool, allocated := state.allocated ++ [block] } := by
  obtain ⟨accounted, -, -, -, unlisted, -⟩ := growing.found found
  intro kept
  obtain listed | free := kept block (List.mem_append_right _ (List.mem_singleton_self block))
  · exact unlisted listed
  · exact accounted.used (Multiset.mem_cons_self block _) ((accounted.pool.free_iff block).mp free).2

theorem Growing.unswapped (growing : Growing numBlocks cap entry others state) (capped : cap.isSome = true)
    {allocated : List BlockId} :
    ¬ GrowState.Parallel cap entry { state with tree, pool, allocated, allocCount := state.allocCount + 1, seq :=
        { state.seq with blockTable := state.seq.blockTable ++ [block] } } := by
  rintro ⟨-, ids, grown, sized⟩
  obtain ⟨-, old, oldGrown, oldSized⟩ := growing.parallel
  dsimp only at grown sized
  rw [oldGrown] at grown
  have same := List.append_cancel_left grown
  rw [← same, oldSized, capped] at sized
  simp at sized

/-! ## The whole loop -/

inductive Grown (numBlocks : Nat) (cap : Option Nat) (entry : SequenceState) (others : Multiset BlockId)
    (absBlockIdx : Nat) (state after : GrowState) (used : List BlockAnswers) (ok : Prop) : Prop where
  | clean (served : ∀ answer ∈ used, answer.Succeeds cap) (growing : Growing numBlocks cap entry others after)
      (inside : ok → after.inWindow absBlockIdx = true)
      (reached : state.seq.hssWindowStart ≤ absBlockIdx → after.seq.hssWindowStart ≤ absBlockIdx)
  | faulty (failed : ∃ answer ∈ used, ¬ answer.Succeeds cap) (broken : ¬ (after.Parallel cap entry ∧ after.NoLeak))
      (stopped : ¬ ok)

theorem GrowState.outside_le (outside : state.inWindow absBlockIdx = false) :
    state.seq.blockTable = [] ∨ state.seq.hssWindowStart + state.seq.blockTable.length ≤ absBlockIdx := by
  cases table : state.seq.blockTable with
  | nil => exact .inl rfl
  | cons block blockTable =>
    right
    simpa [GrowState.inWindow, table] using outside

theorem Growing.round (growing : Growing numBlocks cap entry others state)
    (taken : ensureBlocksRound sliding cap exhausted absBlockIdx state answers = some (result, after, rest)) :
    ∃ used, answers = used ++ rest ∧
      Grown numBlocks cap entry others absBlockIdx state after used (result = some (.ok ())) ∧
      (result = none → ∀ answer ∈ used, answer.Succeeds cap) := by
  have silent : ∀ answer ∈ ([] : List BlockAnswers), answer.Succeeds cap := fun _ member => (by cases member)
  cases ensureBlocksRound_case taken with
  | served inside => exact ⟨[], rfl, .clean silent growing (fun _ => inside) id, fun _ => silent⟩
  | lagging outside full refused =>
    exact ⟨[], rfl, .clean silent growing (fun ok => (by cases ok)) id, fun _ => silent⟩
  | slide outside full slid =>
    refine ⟨[], rfl, .clean silent (growing.slide slid) (fun ok => (by cases ok)) fun _ => ?_, fun _ => silent⟩
    obtain ⟨evicted, blockTable, pool, table, -, rfl⟩ := GrowState.slide_ok slid
    obtain empty | beyond := GrowState.outside_le outside
    · rw [table] at empty
      cases empty
    · simp only [SequenceState.hssWindowStart, table, List.length_cons] at beyond ⊢
      omega
  | dry outside room missed =>
    exact ⟨[], rfl, .clean silent (growing.dry missed) (fun ok => (by cases ok)) id, fun _ => silent⟩
  | @grow answer _ block tree pool _ _ read outside room found grown =>
    refine ⟨[answer], read, ?_⟩
    obtain ⟨succeeds, ids, sized, served⟩ | ⟨fails, e, unfilled⟩ | ⟨fails, capped, e, unswapped⟩ :=
      GrowState.grow_cases cap block answer
    · rw [served] at grown
      cases grown
      have all : ∀ other ∈ [answer], BlockAnswers.Succeeds cap other := by
        intro other member
        rw [List.mem_singleton.mp member]
        exact succeeds
      refine ⟨.clean all (growing.served found sized) (fun ok => (by cases ok)) fun low => ?_, fun _ => all⟩
      have short : ids.length ≤ 1 := by
        rw [sized]
        split <;> decide
      simp only [SequenceState.hssWindowStart, GrowState.push, List.length_append, List.length_singleton] at low ⊢
      omega
    · rw [unfilled] at grown
      cases grown
      refine ⟨.faulty ⟨answer, List.mem_singleton_self _, fails⟩ ?_ (fun ok => (by cases ok)), fun ok => (by cases ok)⟩
      exact fun kept => growing.unfilled found kept.2
    · rw [unswapped] at grown
      cases grown
      refine ⟨.faulty ⟨answer, List.mem_singleton_self _, fails⟩ ?_ (fun ok => (by cases ok)), fun ok => (by cases ok)⟩
      exact fun kept => growing.unswapped capped kept.1

/-- The loop keeps both tables and every block unless an answer fails, and then it does not. -/
theorem Growing.loop {rounds : Nat} {outcome : Except String Unit} (growing : Growing numBlocks cap entry others state)
    (looped : ensureBlocksLoop sliding cap exhausted absBlockIdx rounds state answers = some (outcome, after, rest)) :
    ∃ used, answers = used ++ rest ∧
      Grown numBlocks cap entry others absBlockIdx state after used (outcome = .ok ()) := by
  induction rounds generalizing state answers with
  | zero => cases looped
  | succ rounds ih =>
    simp only [ensureBlocksLoop] at looped
    split at looped
    · cases looped
    · next taken =>
      cases looped
      obtain ⟨used, read, grown, -⟩ := growing.round taken
      refine ⟨used, read, ?_⟩
      cases grown with
      | clean served growing inside reached => exact .clean served growing (fun ok => inside (congrArg some ok)) reached
      | faulty failed broken stopped => exact .faulty failed broken fun ok => stopped (congrArg some ok)
    · next taken =>
      obtain ⟨used, read, grown, on⟩ := growing.round taken
      have served := on rfl
      cases grown with
      | faulty failed =>
        obtain ⟨answer, member, fails⟩ := failed
        exact absurd (served answer member) fails
      | clean _ growingNext inside reached =>
        obtain ⟨later, readLater, grownLater⟩ := ih growingNext looped
        refine ⟨used ++ later, by rw [read, readLater, List.append_assoc], ?_⟩
        cases grownLater with
        | clean servedLater growingLast insideLast reachedLast =>
          refine .clean ?_ growingLast insideLast (reachedLast ∘ reached)
          intro answer member
          obtain early | late := List.mem_append.mp member
          · exact served answer early
          · exact servedLater answer late
        | faulty failed broken stopped =>
          obtain ⟨answer, member, fails⟩ := failed
          exact .faulty ⟨answer, List.mem_append_right _ member, fails⟩ broken stopped

/-! ## The two paths -/

/-- The tables stay parallel, no block is lost, and on success the requested block is in the table. -/
structure Atomic (cap : Option Nat) (entry : SequenceState) (absBlockIdx : Nat) (outcome : Except String Unit)
    (last : GrowState) : Prop where
  parallel : last.Parallel cap entry
  noLeak : last.NoLeak
  present : outcome = .ok () → (last.seq.physicalBlockFor absBlockIdx).isSome

/-- With nothing in the table, no first block is to be had: a window of no blocks is full, and else the
allocation fails. -/
def GrowState.Stuck (sliding : Bool) (cap : Option Nat) (state : GrowState) : Prop :=
  state.seq.blockTable = [] ∧
    (sliding = true ∧ cap = some 0 ∨ ∃ tree pool, allocBlockEvicting state.tree state.pool = some (none, tree, pool))

def Served (sliding : Bool) (cap : Option Nat) (absBlockIdx : Nat) (state : GrowState) (answers : List BlockAnswers) :
    Prop :=
  (∀ answer ∈ answers, answer.Succeeds cap) ∧
    (state.seq.hssWindowStart ≤ absBlockIdx ∨ state.Stuck sliding cap)

variable {rounds : Nat} {outcome : Except String Unit}

theorem stuck_fails (stuck : state.Stuck sliding cap)
    (looped : ensureBlocksLoop sliding cap exhausted absBlockIdx rounds state answers = some (outcome, after, rest)) :
    outcome ≠ .ok () := by
  obtain ⟨empty, stuck⟩ := stuck
  cases rounds with
  | zero => cases looped
  | succ rounds =>
    have outside : state.inWindow absBlockIdx = false := by simp [GrowState.inWindow, empty]
    simp only [ensureBlocksLoop] at looped
    cases taken : ensureBlocksRound sliding cap exhausted absBlockIdx state answers with
    | none =>
      rw [taken] at looped
      cases looped
    | some round =>
      obtain ⟨result, next, left⟩ := round
      rw [taken] at looped
      cases ensureBlocksRound_case taken with
      | served inside =>
        rw [outside] at inside
        cases inside
      | lagging =>
        cases looped
        exact fun ok => (by cases ok)
      | slide _ _ slid =>
        obtain ⟨evicted, blockTable, pool, table, -⟩ := GrowState.slide_ok slid
        rw [empty] at table
        cases table
      | dry =>
        cases looped
        exact fun ok => (by cases ok)
      | grow _ _ room found =>
        obtain ⟨sliding, zero⟩ | ⟨tree, pool, missed⟩ := stuck
        · simp [sliding, zero, GrowState.full] at room
        · rw [missed] at found
          cases found

/-- A request from before the window is answered at once, or after the first block, without the block. -/
theorem passed_by (unswapped : cap = none → state.seq.diskBlockIds = [])
    (passed : absBlockIdx < state.seq.hssWindowStart) (free : ¬ state.Stuck sliding cap)
    (served : ∀ answer ∈ answers, answer.Succeeds cap) (enough : growRounds state answers ≤ rounds)
    (looped : ensureBlocksLoop sliding cap exhausted absBlockIdx rounds state answers = some (outcome, after, [])) :
    outcome = .ok () ∧ after.seq.physicalBlockFor absBlockIdx = none := by
  have emptied : state.inWindow absBlockIdx = false → state.seq.blockTable = [] := by
    intro outside
    obtain empty | beyond := GrowState.outside_le outside
    · exact empty
    · omega
  cases rounds with
  | zero => exact absurd enough (Nat.not_succ_le_zero _)
  | succ rounds =>
    simp only [ensureBlocksLoop] at looped
    cases taken : ensureBlocksRound sliding cap exhausted absBlockIdx state answers with
    | none =>
      rw [taken] at looped
      cases looped
    | some round =>
      obtain ⟨result, next, left⟩ := round
      rw [taken] at looped
      cases ensureBlocksRound_case taken with
      | served inside =>
        cases looped
        exact ⟨rfl, if_pos passed⟩
      | lagging outside full =>
        have empty := emptied outside
        obtain ⟨slides, held⟩ := Bool.and_eq_true_iff.mp full
        have zero : cap = some 0 := by
          cases cap with
          | none => cases held
          | some c => simpa [GrowState.full, empty] using held
        exact absurd ⟨empty, .inl ⟨slides, zero⟩⟩ free
      | slide outside _ slid =>
        obtain ⟨evicted, blockTable, pool, table, -⟩ := GrowState.slide_ok slid
        rw [emptied outside] at table
        cases table
      | dry outside _ missed => exact absurd ⟨emptied outside, .inr ⟨_, _, missed⟩⟩ free
      | @grow answer _ block tree pool _ _ answersRead outside room found grown =>
        have empty := emptied outside
        have succeeds : answer.Succeeds cap := served answer (by simp [answersRead])
        obtain ⟨-, ids, sized, one⟩ | ⟨fails, -⟩ | ⟨fails, -⟩ := GrowState.grow_cases cap block answer
        · rw [one] at grown
          obtain ⟨rfl, same⟩ := Prod.mk.inj grown
          simp only [SequenceState.hssWindowStart, empty, List.length_nil, Nat.sub_zero] at passed
          have capped : cap.isSome = true := by
            cases cap with
            | some c => rfl
            | none =>
              rw [unswapped rfl] at passed
              cases passed
          rw [capped, if_pos rfl] at sized
          -- The first block has the next disk id, so the window is still past the request.
          obtain ⟨rounds, rfl⟩ : ∃ fewer, rounds = fewer + 1 := by
            refine ⟨rounds - 1, ?_⟩
            rw [answersRead] at enough
            simp only [growRounds, List.length_cons] at enough
            omega
          have table : next.seq.blockTable = [block] := by
            rw [← same]
            simp [GrowState.push, empty]
          have start : next.seq.hssWindowStart = state.seq.diskBlockIds.length := by
            rw [SequenceState.hssWindowStart, table, ← same]
            simp [sized]
          have within : next.inWindow absBlockIdx = true := by
            simp only [GrowState.inWindow, table, start, List.length_singleton, Bool.and_eq_true, decide_eq_true_eq]
            omega
          simp only [Option.map_none, ensureBlocksLoop, ensureBlocksRound, within, if_true] at looped
          cases looped
          exact ⟨rfl, by rw [SequenceState.physicalBlockFor, start, if_pos passed]⟩
        · exact absurd succeeds fails
        · exact absurd succeeds fails

/-- The growth is atomic exactly when every answer succeeds and the request is not from before the window. -/
theorem Growing.atomic_iff (growing : Growing numBlocks cap state.seq others state)
    (unswapped : cap = none → state.seq.diskBlockIds = []) (enough : growRounds state answers ≤ rounds)
    (looped : ensureBlocksLoop sliding cap exhausted absBlockIdx rounds state answers = some (outcome, after, [])) :
    Atomic cap state.seq absBlockIdx outcome after ↔ Served sliding cap absBlockIdx state answers := by
  obtain ⟨used, read, grown⟩ := growing.loop looped
  rw [List.append_nil] at read
  subst read
  constructor
  · intro atomic
    cases grown with
    | faulty _ broken => exact absurd ⟨atomic.parallel, atomic.noLeak⟩ broken
    | clean served =>
      refine ⟨served, ?_⟩
      by_contra unreached
      rw [not_or, Nat.not_le] at unreached
      obtain ⟨ok, gone⟩ := passed_by unswapped unreached.1 unreached.2 served enough looped
      have present := atomic.present ok
      rw [gone] at present
      cases present
  · rintro ⟨served, reach⟩
    cases grown with
    | faulty failed =>
      obtain ⟨answer, member, fails⟩ := failed
      exact absurd (served answer member) fails
    | clean _ growingLast inside reached =>
      refine ⟨growingLast.parallel, growingLast.noLeak, fun ok => ?_⟩
      obtain low | stuck := reach
      · have within := inside ok
        simp only [GrowState.inWindow, Bool.and_eq_true, decide_eq_true_eq] at within
        have start := reached low
        rw [SequenceState.physicalBlockFor, if_neg (Nat.not_lt.mpr start), List.getElem?_eq_getElem (by omega)]
        rfl
      · exact absurd ok (stuck_fails stuck looped)

/-- On either path, from every reachable state, the growth of a sequence's table is atomic exactly when every
fill and every disk id it asks for is granted and the request is not from before the window. -/
theorem ensure_blocks_atomic_iff {sharing : Bool} {events : List KvSystem.Event} {system : KvSystem}
    (run : Run KvSystem.Step (KvSystem.new sharing numBlocks) events system) {seq : SequenceState}
    (held : (seq.blockTable : Multiset BlockId) ≤ system.held) (unswapped : cap = none → seq.diskBlockIds = [])
    (diskLastOffloadedPerLayer : List UInt32) (absBlockIdx : Nat) (answers : List BlockAnswers) :
    let state := GrowState.start seq diskLastOffloadedPerLayer system.tree system.pool
    (∀ outcome last, ensureBlocksThroughDecode cap absBlockIdx state answers = some (outcome, last, []) →
      (Atomic cap seq absBlockIdx outcome last ↔ Served true cap absBlockIdx state answers)) ∧
    ∀ outcome last, ensureBlocksThroughPrefill cap absBlockIdx state answers = some (outcome, last, []) →
      (Atomic cap seq absBlockIdx outcome last ↔ Served false cap absBlockIdx state answers) := by
  intro state
  obtain ⟨others, split⟩ := Multiset.le_iff_exists_add.mp held
  have accounted := KvSystem.Accounted.of_run run
  have growing : Growing numBlocks cap seq others state := by
    apply growing_start
    rw [← split]
    exact accounted
  exact ⟨fun _ _ looped => growing.atomic_iff unswapped (Nat.le_refl _) looped,
    fun _ _ looped => growing.atomic_iff unswapped (Nat.le_refl _) looped⟩

/-- A window of one block slides to make room for the second, out of a pool of one block. -/
theorem ensure_blocks_atomic_iff_slides : ∃ outcome last,
    ensureBlocksThroughDecode (some 1) 1
      (GrowState.start (SequenceState.new 0) [5] (RadixTreeInner.new false) (PagedKvCache.new 1))
      [⟨.ok (), some (some 7)⟩, ⟨.ok (), some (some 8)⟩] = some (outcome, last, []) ∧
    last.slideCount = 1 ∧ Atomic (some 1) (SequenceState.new 0) 1 outcome last := by
  obtain ⟨outcome, last, looped, slid⟩ : ∃ outcome last, ensureBlocksThroughDecode (some 1) 1
      (GrowState.start (SequenceState.new 0) [5] (RadixTreeInner.new false) (PagedKvCache.new 1))
      [⟨.ok (), some (some 7)⟩, ⟨.ok (), some (some 8)⟩] = some (outcome, last, []) ∧ last.slideCount = 1 :=
    ⟨_, _, rfl, rfl⟩
  refine ⟨outcome, last, looped, slid, ?_⟩
  refine ((ensure_blocks_atomic_iff (.start : Run KvSystem.Step (KvSystem.new false 1) [] _)
    (Multiset.zero_le _) (fun none => (by cases none)) [5] 1 _).1 outcome last looped).mpr ⟨?_, .inl (by decide)⟩
  intro answer member
  simp only [List.mem_cons, List.not_mem_nil, or_false] at member
  obtain rfl | rfl := member
  · exact ⟨rfl, fun _ => ⟨7, rfl⟩⟩
  · exact ⟨rfl, fun _ => ⟨8, rfl⟩⟩

/-- A fill that fails loses the only block, and a disk id that is refused leaves a block without one. -/
theorem ensure_blocks_loses_block :
    (∃ outcome last, ensureBlocksThroughDecode none 0
        (GrowState.start (SequenceState.new 0) [] (RadixTreeInner.new false) (PagedKvCache.new 1))
        [⟨.error "memset", none⟩] = some (outcome, last, []) ∧ ¬ Atomic none (SequenceState.new 0) 0 outcome last) ∧
    ∃ outcome last, ensureBlocksThroughPrefill (some 4) 0
        (GrowState.start (SequenceState.new 0) [] (RadixTreeInner.new false) (PagedKvCache.new 1))
        [⟨.ok (), some none⟩] = some (outcome, last, []) ∧
      last.seq.blockTable = [0] ∧ last.seq.diskBlockIds = [] ∧ ¬ Atomic (some 4) (SequenceState.new 0) 0 outcome last := by
  refine ⟨⟨_, _, rfl, fun atomic => ?_⟩, _, _, rfl, rfl, rfl, fun atomic => ?_⟩
  · obtain listed | free := atomic.noLeak 0 (by decide)
    · cases listed
    · cases free
  · obtain ⟨-, ids, grown, sized⟩ := atomic.parallel
    have short : ids = [] := Eq.symm grown
    rw [short] at sized
    cases sized

end Metrale.Engine
