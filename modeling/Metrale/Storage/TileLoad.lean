import Mathlib.Data.Finset.Card
import Metrale.Storage.HighSpeedSwap

/-! # What a tile's load leaves in the pool

A slot that the tile has pinned is never assigned again, so that a tile's blocks end up in slots of their
own, and there is always one more.  As long as the reads fill them, a mapped slot holds its block; a read
that fails leaves the tile's new blocks mapped all the same. -/

namespace Metrale.Storage

open Metrale.Foundation

variable {Score : Type*}

namespace Tile

open ScratchPool (Assigned)

/-- What the two loops have done for the blocks they have passed. -/
structure Placed (before : ScratchPool) (layer : UInt32) (passed : List UInt32) (state : Tile Score) : Prop where
  consistent : state.pool.Consistent
  memory : state.pool.pool = before.pool
  dims : state.pool.dims = before.dims
  capacity : state.eviction.capacity = before.dims.numSlots
  pins : List.Forall₂ (fun blk slot => state.pool.lookup.lookup ⟨layer, blk⟩ = some slot) passed state.pinned
  /-- A mapped block was mapped before, or is about to be read. -/
  stays : ∀ key slot, state.pool.lookup.lookup key = some slot →
    before.lookup.lookup key = some slot ∨
      (key.layer = layer ∧ blockRequests before layer key.block slot ⊆ state.reqs)
  /-- Whole blocks are read. -/
  reqs : ∀ req ∈ state.reqs, ∃ blk slot, slot ∈ state.pinned ∧
    state.pool.lookup.lookup ⟨layer, blk⟩ = some slot ∧ req ∈ blockRequests before layer blk slot ∧
    blockRequests before layer blk slot ⊆ state.reqs

variable {before : ScratchPool} {layer blk : UInt32} {passed blks : List UInt32} {state after : Tile Score}
  {slot : Nat}

theorem blockRequests_dims {pool pool' : ScratchPool} (dims : pool'.dims = pool.dims) (layer blk : UInt32)
    (slot : Nat) : blockRequests pool' layer blk slot = blockRequests pool layer blk slot := by
  simp only [blockRequests, ScratchPool.slotKPtr, ScratchPool.slotVPtr, ScratchPool.slotDevPtr]
  rw [dims]

theorem scan_placed (blks : List UInt32) (i : Nat) (placed : Placed before layer passed state) (unassigned : state.pool = before)
    (unread : state.reqs = []) :
    Placed before layer (passed ++ blks.filter fun blk => (before.lookup.lookup ⟨layer, blk⟩).isSome)
        (state.scan layer blks i) ∧
      (state.scan layer blks i).pool = before ∧ (state.scan layer blks i).reqs = [] ∧
      (state.scan layer blks i).missing =
        state.missing ++ blks.filter fun blk => (before.lookup.lookup ⟨layer, blk⟩).isNone := by
  induction blks generalizing i passed state with
  | nil => simpa [scan] using ⟨placed, unassigned, unread⟩
  | cons blk rest ih =>
    simp only [scan]
    split
    · next slot resident =>
      have next : Placed before layer (passed ++ [blk])
          { state with
            blockTable := state.blockTable.set i slot
            pinned := state.pinned ++ [slot]
            eviction := state.eviction.touch slot } :=
        { placed with
          capacity := (EvictionPolicy.capacity_touch _ _).trans placed.capacity
          pins := List.rel_append placed.pins (.cons resident .nil)
          reqs := fun req member => by
            rw [unread] at member
            cases member }
      rw [unassigned] at resident
      have rest := ih (i + 1) next unassigned unread
      rw [List.filter_cons_of_pos (by rw [resident]; rfl), List.filter_cons_of_neg (by rw [resident]; nofun)]
      rwa [List.append_assoc] at rest
    · next absent =>
      rw [unassigned] at absent
      have next : Placed before layer passed { state with missing := state.missing ++ [blk] } := { placed with }
      have rest := ih (i + 1) next unassigned unread
      rw [List.filter_cons_of_neg (by rw [absent]; nofun), List.filter_cons_of_pos (by rw [absent]; rfl)]
      rwa [List.append_assoc] at rest

theorem Placed.pinned (placed : Placed before layer passed state) (held : slot ∈ state.pinned) :
    ∃ blk ∈ passed, state.pool.lookup.lookup ⟨layer, blk⟩ = some slot := by
  obtain ⟨position, bound, rfl⟩ := List.mem_iff_getElem.mp held
  have before : position < passed.length := placed.pins.length_eq.symm ▸ bound
  exact ⟨passed[position], List.getElem_mem before, List.forall₂_iff_get.mp placed.pins |>.2 position before bound⟩

/-- What `load` does with a slot, whether the block was found in it or is still to be read into it. -/
theorem Placed.pin {pool : ScratchPool} {eviction : EvictionPolicy Score} {blockTable : List Nat}
    (placed : Placed before layer passed state) (consistent : pool.Consistent) (memory : pool.pool = before.pool)
    (dims : pool.dims = before.dims) (capacity : eviction.capacity = before.dims.numSlots)
    (resident : pool.lookup.lookup ⟨layer, blk⟩ = some slot)
    (keeps : ∀ other, ∀ held ∈ state.pinned, state.pool.lookup.lookup ⟨layer, other⟩ = some held →
      pool.lookup.lookup ⟨layer, other⟩ = some held)
    (came : ∀ key mapped, pool.lookup.lookup key = some mapped →
      state.pool.lookup.lookup key = some mapped ∨ key = ⟨layer, blk⟩ ∧ mapped = slot) :
    Placed before layer (passed ++ [blk])
      { state with
        pool, eviction, blockTable
        pinned := state.pinned ++ [slot]
        reqs := state.reqs ++ blockRequests pool layer blk slot } := by
  rw [blockRequests_dims dims]
  refine ⟨consistent, memory, dims, capacity, ?_, ?_, ?_⟩
  · refine List.rel_append (List.forall₂_iff_get.mpr ⟨placed.pins.length_eq, ?_⟩) (.cons resident .nil)
    intro position bound bound'
    exact keeps _ _ (List.getElem_mem bound') (List.forall₂_iff_get.mp placed.pins |>.2 position bound bound')
  · intro key mapped resident'
    obtain earlier | ⟨rfl, rfl⟩ := came key mapped resident'
    · obtain earlier | ⟨same, requested⟩ := placed.stays key mapped earlier
      · exact .inl earlier
      · exact .inr ⟨same, fun req member => List.mem_append_left _ (requested member)⟩
    · exact .inr ⟨rfl, fun req member => List.mem_append_right _ member⟩
  · intro req member
    obtain member | member := List.mem_append.mp member
    · obtain ⟨other, held, pinned, resident', requested, whole⟩ := placed.reqs req member
      exact ⟨other, held, List.mem_append_left _ pinned, keeps other held pinned resident', requested,
        List.Subset.trans whole (List.subset_append_left _ _)⟩
    · exact ⟨blk, slot, List.mem_append_right _ (List.mem_singleton.mpr rfl), resident, member,
        List.subset_append_right _ _⟩

variable [PartialCmp Score]

theorem Placed.room (placed : Placed before layer passed state)
    (absent : state.pool.lookup.lookup ⟨layer, blk⟩ = none)
    (fits : (insert blk passed.toFinset).card ≤ before.dims.numSlots) :
    ∃ slot < state.pool.dims.numSlots, slot ∈ state.eviction.rank state.pinned := by
  by_contra full
  have all : ∀ slot < before.dims.numSlots, slot ∈ state.pinned := by
    intro slot bound
    by_contra free
    refine full ⟨slot, placed.dims ▸ bound, EvictionPolicy.mem_rank.mpr ⟨?_, free⟩⟩
    rw [placed.capacity]
    exact bound
  -- The blocks in the pinned slots are all different, and none is the one to come.
  have covered : Finset.range before.dims.numSlots ⊆
      (passed.toFinset.erase blk).image fun blk => (state.pool.lookup.lookup ⟨layer, blk⟩).getD 0 := by
    intro slot member
    obtain ⟨other, passedBefore, resident⟩ := placed.pinned (all slot (Finset.mem_range.mp member))
    refine Finset.mem_image.mpr ⟨other, Finset.mem_erase.mpr ⟨?_, List.mem_toFinset.mpr passedBefore⟩, ?_⟩
    · rintro rfl
      cases absent.symm.trans resident
    · rw [resident]
      rfl
  have slots := (Finset.card_le_card covered).trans Finset.card_image_le
  have fewer : (passed.toFinset.erase blk).card < (insert blk passed.toFinset).card :=
    Finset.card_lt_card <| (Finset.erase_ssubset (Finset.mem_insert_self blk _)).trans_le' <|
      Finset.erase_subset_erase blk (Finset.subset_insert blk _)
  rw [Finset.card_range] at slots
  omega

theorem load_placed {scores : UInt32 → Score} {tile : List UInt32} {answer : Except Error Unit}
    (placed : Placed before layer passed state) (fits : (insert blk passed.toFinset).card ≤ before.dims.numSlots)
    (loaded : state.load layer scores tile blk = (answer, after)) :
    answer = .ok () ∧ Placed before layer (passed ++ [blk]) after := by
  simp only [load] at loaded
  generalize assigned : state.pool.assign ⟨layer, blk⟩ (state.eviction.rank state.pinned) = outcome at loaded
  obtain ⟨assignment, pool⟩ := outcome
  have capacity : ∀ slot score, ((state.eviction.touch slot).recordScore slot score).capacity =
      before.dims.numSlots := by
    intro slot score
    rw [EvictionPolicy.capacity_recordScore, EvictionPolicy.capacity_touch, placed.capacity]
  obtain ⟨slot, resident, rfl, rfl⟩ | ⟨slot, absent, rfl, taken, vacant⟩ | ⟨error, absent, rfl, rfl, full⟩ :=
    ScratchPool.assign_cases placed.consistent assigned
  · cases loaded
    exact ⟨rfl, placed.pin placed.consistent placed.memory placed.dims (capacity slot _) resident
      (fun _ _ _ held => held) fun _ _ mapped => .inl mapped⟩
  · cases loaded
    -- A candidate is not pinned, and a slot from the free list holds no block at all.
    have unpinned : slot ∉ state.pinned := by
      intro held
      obtain candidate | unowned := vacant
      · exact (EvictionPolicy.mem_rank.mp candidate).2 held
      · obtain ⟨other, -, resident⟩ := placed.pinned held
        exact unowned _ resident
    refine ⟨rfl, placed.pin taken.consistent (taken.memory.trans placed.memory) (taken.dims.trans placed.dims)
      (capacity slot _) ((taken.lookup _ _).mpr (.inl ⟨rfl, rfl⟩)) ?_ ?_⟩
    · intro other held pinned resident
      refine (taken.lookup _ _).mpr (.inr ⟨?_, ?_, resident⟩)
      · intro same
        rw [same, absent] at resident
        cases resident
      · rintro rfl
        exact unpinned pinned
    · intro key mapped resident
      obtain now | ⟨-, -, earlier⟩ := (taken.lookup key mapped).mp resident
      · exact .inr now
      · exact .inl earlier
  · obtain ⟨slot, bound, candidate⟩ := placed.room absent fits
    exact absurd candidate (full slot bound)

theorem loadAll_placed {scores : UInt32 → Score} {tile : List UInt32} {answer : Except Error Unit}
    (placed : Placed before layer passed state)
    (fits : (passed ++ blks).toFinset.card ≤ before.dims.numSlots)
    (loaded : loadAll layer scores tile blks state = (answer, after)) :
    answer = .ok () ∧ Placed before layer (passed ++ blks) after := by
  induction blks generalizing passed state with
  | nil =>
    cases loaded
    rw [List.append_nil]
    exact ⟨rfl, placed⟩
  | cons blk rest ih =>
    have within : insert blk passed.toFinset ⊆ (passed ++ blk :: rest).toFinset := by
      intro other member
      simp only [Finset.mem_insert, List.mem_toFinset, List.mem_append, List.mem_cons] at member ⊢
      tauto
    simp only [loadAll] at loaded
    generalize first : state.load layer scores tile blk = outcome at loaded
    obtain ⟨firstAnswer, middle⟩ := outcome
    obtain ⟨rfl, next⟩ := load_placed placed ((Finset.card_le_card within).trans fits) first
    rw [List.append_cons] at fits ⊢
    exact ih next fits loaded

end Tile

/-! ## Slots in memory -/

theorem blockRequests_within {pool : ScratchPool} {layer blk : UInt32} {slot : Nat} {req : ReadRequest}
    (member : req ∈ blockRequests pool layer blk slot) :
    slot * pool.dims.slotBytes ≤ req.dstDevPtr ∧
      req.dstDevPtr + pool.dims.groupStride ≤ slot * pool.dims.slotBytes + pool.dims.slotBytes := by
  obtain ⟨kvHead, head, member⟩ := List.mem_flatMap.mp member
  have inside := List.mem_range.mp head
  have lane : ∀ lane < 2 * pool.dims.numKvHeads,
      lane * pool.dims.groupStride + pool.dims.groupStride ≤ pool.dims.slotBytes := by
    intro lane bound
    calc lane * pool.dims.groupStride + pool.dims.groupStride
        = (lane + 1) * pool.dims.groupStride := (Nat.succ_mul _ _).symm
      _ ≤ 2 * pool.dims.numKvHeads * pool.dims.groupStride := Nat.mul_le_mul_right _ bound
  have k := lane kvHead (by omega)
  have v := lane (pool.dims.numKvHeads + kvHead) (by omega)
  simp only [List.mem_cons, List.not_mem_nil, or_false] at member
  obtain rfl | rfl := member
  · simp only [ScratchPool.slotKPtr, ScratchPool.slotDevPtr]
    omega
  · simp only [ScratchPool.slotVPtr, ScratchPool.slotDevPtr]
    omega

theorem Touches.kept {pool : ScratchPool} {layer blk : UInt32} {slot : Nat} {reqs : List ReadRequest}
    {before after : Memory UInt8} {req : ReadRequest}
    (touches : Touches pool.dims.groupStride reqs before after) (member : req ∈ blockRequests pool layer blk slot)
    (apart : ∀ other ∈ reqs, ∃ layer blk slot', slot' ≠ slot ∧ other ∈ blockRequests pool layer blk slot') :
    after.slice req.dstDevPtr pool.dims.groupStride = before.slice req.dstDevPtr pool.dims.groupStride := by
  refine Memory.slice_congr fun offset inside => touches _ fun other written => ?_
  obtain ⟨_, _, slot', differs, member'⟩ := apart other written
  have here := blockRequests_within member
  have there := blockRequests_within member'
  obtain apart | apart := @Memory.cells_apart slot' slot pool.dims.slotBytes differs
  all_goals omega

namespace HighSpeedSwap

def Holds (swap : HighSpeedSwap Score) : Prop :=
  ∀ key slot, swap.pool.lookup.lookup key = some slot →
    ∀ req ∈ blockRequests swap.pool key.layer key.block slot,
      Filled swap.groups swap.pool.dims.groupStride swap.pool.pool req

structure Consistent (swap : HighSpeedSwap Score) : Prop where
  pool : swap.pool.Consistent
  capacity : swap.eviction.capacity = swap.pool.dims.numSlots

variable {swap last : HighSpeedSwap Score} {layer : UInt32} {tile ids : List UInt32} {scores : UInt32 → Score}
  {state : Tile Score} {memory : Memory UInt8}

theorem after_consistent {passed : List UInt32} (placed : Tile.Placed swap.pool layer passed state) :
    (swap.after state memory).Consistent ∧ (swap.after state memory).pool.dims = swap.pool.dims where
  left :=
    { pool := { placed.consistent with }
      capacity := placed.capacity.trans (congrArg ScratchDims.numSlots placed.dims).symm }
  right := placed.dims

/-- A read that fills what it was asked for leaves every mapped slot with its block. -/
theorem after_holds {passed : List UInt32} (placed : Tile.Placed swap.pool layer passed state)
    (holds : swap.Holds) (touches : Touches swap.pool.dims.groupStride state.reqs state.pool.pool memory)
    (filled : ∀ req ∈ state.reqs, Filled swap.groups swap.pool.dims.groupStride memory req) :
    (swap.after state memory).Holds := by
  intro key slot resident req member
  have dims : (swap.after state memory).pool.dims = swap.pool.dims := placed.dims
  rw [Tile.blockRequests_dims dims] at member
  rw [dims]
  show Filled swap.groups swap.pool.dims.groupStride memory req
  by_cases own : ∃ other ∈ state.reqs, other ∈ blockRequests swap.pool key.layer key.block slot ∧
      blockRequests swap.pool key.layer key.block slot ⊆ state.reqs
  · obtain ⟨_, _, _, whole⟩ := own
    exact filled req (whole member)
  obtain earlier | ⟨rfl, requested⟩ := placed.stays key slot resident
  · -- No read goes to the slot.
    refine Eq.trans (touches.kept member fun other written => ?_) ?_
    · obtain ⟨blk, slot', -, resident', requested, whole⟩ := placed.reqs other written
      refine ⟨layer, blk, slot', ?_, requested⟩
      rintro rfl
      obtain rfl := placed.consistent.injective resident resident'
      exact own ⟨other, written, requested, whole⟩
    · rw [placed.memory]
      exact holds key slot earlier req member
  · exact filled req (requested member)

variable [PartialCmp Score]

theorem placeTile_placed {answer : Except Error Unit} (consistent : swap.Consistent)
    (fits : tile.length ≤ swap.pool.dims.numSlots) (placed : swap.placeTile layer scores tile = (answer, state)) :
    answer = .ok () ∧ Tile.Placed swap.pool layer
      ((tile.filter fun blk => (swap.pool.lookup.lookup ⟨layer, blk⟩).isSome) ++
        tile.filter fun blk => (swap.pool.lookup.lookup ⟨layer, blk⟩).isNone) state := by
  simp only [placeTile] at placed
  generalize start : ({ pool := swap.pool, eviction := swap.eviction
                        blockTable := .replicate swap.pool.dims.numSlots 0, pinned := [], missing := [],
                        reqs := [] } : Tile Score) = first at placed
  have begins : Tile.Placed swap.pool layer [] first := by
    subst start
    exact ⟨consistent.pool, rfl, rfl, consistent.capacity, .nil, fun _ _ => .inl, nofun⟩
  obtain ⟨scanned, -, -, missing⟩ := Tile.scan_placed tile 0 begins (by rw [← start]) (by rw [← start])
  have none : first.missing = [] := by rw [← start]
  rw [none, List.nil_append] at missing
  rw [missing] at placed
  refine Tile.loadAll_placed scanned ?_ placed
  refine le_trans (Finset.card_le_card fun blk member => ?_) ((List.toFinset_card_le tile).trans fits)
  simp only [List.mem_toFinset, List.mem_append, List.mem_filter] at member ⊢
  tauto

/-! ## Runs -/

theorem attendTiles_holds {answer : Except Failure Unit} (consistent : swap.Consistent) (holds : swap.Holds)
    (read : answer ≠ .error .read) (tiles : AttendTiles layer scores ids swap answer last) :
    last.Consistent ∧ last.Holds := by
  have fits : ∀ (ids : List UInt32) (cap : Nat), (ids.take cap).length ≤ cap := fun ids cap =>
    (List.length_take_le cap ids)
  induction tiles with
  | done => exact ⟨consistent, holds⟩
  | refused more placed =>
    obtain ⟨⟨⟩, -⟩ := placeTile_placed consistent (fits _ _) placed
  | unread => exact absurd rfl read
  | unlaunched more placed touches filled =>
    obtain ⟨-, placed⟩ := placeTile_placed consistent (fits _ _) placed
    exact ⟨(after_consistent placed).1, after_holds placed holds touches filled⟩
  | next more placed touches filled rest ih =>
    obtain ⟨-, placed⟩ := placeTile_placed consistent (fits _ _) placed
    exact ih (after_consistent placed).1 (after_holds placed holds touches filled) read

/-- No read fails before its groups are in place, and no rewrite of a block that the pool has. -/
def Event.Completes (swap : HighSpeedSwap Score) : Event → Prop
  | .attend _ _ answer => answer ≠ .error .read
  | .offload layer block answer => answer = .error .write → swap.pool.lookup.lookup ⟨layer, block⟩ = none

omit [PartialCmp Score] in
theorem Holds.rewrite {pool : ScratchPool} {block : UInt32} {groups : Groups} (holds : swap.Holds)
    (memory : pool.pool = swap.pool.pool ∧ pool.dims = swap.pool.dims)
    (others : ∀ group, ¬ OfBlock layer block group → groups group = swap.groups group)
    (fewer : ∀ key slot, pool.lookup.lookup key = some slot →
      key ≠ ⟨layer, block⟩ ∧ swap.pool.lookup.lookup key = some slot) :
    Holds { swap with pool, groups } := by
  intro key slot resident req member
  obtain ⟨differs, earlier⟩ := fewer key slot resident
  dsimp only at member ⊢
  rw [Tile.blockRequests_dims memory.2] at member
  have ofKey : req.group.layer = key.layer ∧ req.group.block = key.block := by
    obtain ⟨kvHead, -, member⟩ := List.mem_flatMap.mp member
    simp only [List.mem_cons, List.not_mem_nil, or_false] at member
    obtain rfl | rfl := member <;> exact ⟨rfl, rfl⟩
  have same : groups req.group = swap.groups req.group := by
    refine others _ fun ofBlock => differs ?_
    obtain ⟨keyLayer, keyBlock⟩ := key
    simp only [ResidentKey.mk.injEq]
    exact ⟨ofKey.1.symm.trans ofBlock.1, ofKey.2.symm.trans ofBlock.2⟩
  simp only [Filled]
  rw [same, memory.1, memory.2]
  exact holds key slot earlier req member

theorem Step.holds {event : Event} (consistent : swap.Consistent) (holds : swap.Holds)
    (completes : event.Completes swap) (step : Step swap event last) : last.Consistent ∧ last.Holds := by
  cases step with
  | unprojected => exact ⟨consistent, holds⟩
  | unprojectedBlock => exact ⟨consistent, holds⟩
  | attend scores tiles => exact attendTiles_holds consistent holds completes tiles
  | @offload layer block groups others =>
    have memory := @ScratchPool.invalidate_memory swap.pool ⟨layer, block⟩
    refine ⟨⟨ScratchPool.invalidate_consistent consistent.pool, ?_⟩, holds.rewrite memory others ?_⟩
    · exact consistent.capacity.trans (congrArg ScratchDims.numSlots memory.2).symm
    · intro key slot resident
      rw [ScratchPool.invalidate_lookup] at resident
      split at resident
      · cases resident
      · next differs => exact ⟨differs, resident⟩
  | @unwritten layer block groups others =>
    refine ⟨⟨consistent.pool, consistent.capacity⟩, holds.rewrite ⟨rfl, rfl⟩ others fun key slot resident => ⟨?_, resident⟩⟩
    rintro rfl
    cases (completes rfl).symm.trans resident

theorem new_holds {dims : ScratchDims} {groups : Groups}
    (created : HighSpeedSwap.new dims memory groups = .ok swap) : swap.Consistent ∧ swap.Holds := by
  simp only [HighSpeedSwap.new] at created
  split at created
  · cases created
  · next pool made =>
    cases created
    obtain ⟨consistent, empty, sized⟩ := ScratchPool.new_consistent made
    refine ⟨⟨consistent, ?_⟩, fun key slot resident => ?_⟩
    · dsimp only
      rw [sized]
      exact List.length_replicate
    · dsimp only at resident
      rw [empty] at resident
      cases resident

/-- While no read fails, a mapped slot holds its block; and a tile of any state's pool gets a slot for each of
its blocks, none of which its own loads take away. -/
theorem run_holds {dims : ScratchDims} {groups : Groups} {first : HighSpeedSwap Score} {events : List Event}
    (created : HighSpeedSwap.new dims memory groups = .ok first)
    (run : Run (Guarded (fun swap event => event.Completes swap) Step) first events swap) :
    swap.Holds ∧ ∀ layer scores tile, tile.length ≤ swap.pool.dims.numSlots →
      ∃ state, swap.placeTile layer scores tile = (.ok (), state) ∧
        List.Forall₂ (fun blk slot => state.pool.lookup.lookup ⟨layer, blk⟩ = some slot)
          ((tile.filter fun blk => (swap.pool.lookup.lookup ⟨layer, blk⟩).isSome) ++
            tile.filter fun blk => (swap.pool.lookup.lookup ⟨layer, blk⟩).isNone) state.pinned := by
  obtain ⟨consistent, holds⟩ : swap.Consistent ∧ swap.Holds :=
    run.guarded_invariant (fun swap => swap.Consistent ∧ swap.Holds) (new_holds created)
      fun _ _ _ good completes step => step.holds good.1 good.2 completes
  refine ⟨holds, fun layer scores tile fits => ?_⟩
  generalize placing : swap.placeTile layer scores tile = outcome
  obtain ⟨answer, state⟩ := outcome
  obtain ⟨rfl, placed⟩ := placeTile_placed consistent fits placing
  exact ⟨state, rfl, placed.pins⟩

/-! ## Block 5 in a pool of one slot -/

instance : PartialCmp (Option Nat) where
  partialCmp a b := some (compare a b)
  negInfinity := none

def oneSlot : ScratchDims := { numSlots := 1, numKvHeads := 1, groupStride := 1 }

def bytesOfKind : Groups := fun group _ => if group.kind = .k then 1 else 2

theorem run_holds_read : ∃ (first swap : HighSpeedSwap (Option Nat)) (events : List Event),
    HighSpeedSwap.new oneSlot (fun _ => 0) bytesOfKind = .ok first ∧
    Run (Guarded (fun swap event => event.Completes swap) Step) first events swap ∧
    swap.pool.lookup.lookup ⟨0, 5⟩ = some 0 ∧ swap.Holds := by
  have run : ∃ (first swap : HighSpeedSwap (Option Nat)) (events : List Event),
      HighSpeedSwap.new oneSlot (fun _ => 0) bytesOfKind = .ok first ∧
      Run (Guarded (fun swap event => event.Completes swap) Step) first events swap ∧
      swap.pool.lookup.lookup ⟨0, 5⟩ = some 0 := by
    let read : Memory UInt8 := fun address => if address = 0 then 1 else if address = 1 then 2 else 0
    refine ⟨_, _, [.attend 0 [5] (.ok ())], rfl, .single ⟨nofun, .attend (fun _ => none) <|
      @AttendTiles.next _ _ _ _ _ _ _ read _ _ (List.cons_ne_nil _ _) rfl ?_ ?_ .done⟩, rfl⟩
    · intro address apart
      have k := apart ⟨⟨0, 5, 0, .k⟩, 0⟩ List.mem_cons_self
      have v := apart ⟨⟨0, 5, 0, .v⟩, 1⟩ (List.mem_cons_of_mem _ List.mem_cons_self)
      change address < 0 ∨ 0 + 1 ≤ address at k
      change address < 1 ∨ 1 + 1 ≤ address at v
      show (if address = 0 then 1 else if address = 1 then 2 else 0) = (0 : UInt8)
      rw [if_neg (by omega), if_neg (by omega)]
    · intro req member
      have requested : req ∈ [⟨⟨0, 5, 0, .k⟩, 0⟩, (⟨⟨0, 5, 0, .v⟩, 1⟩ : ReadRequest)] := member
      simp only [List.mem_cons, List.not_mem_nil, or_false] at requested
      obtain rfl | rfl := requested <;> rfl
  obtain ⟨first, swap, events, created, run, resident⟩ := run
  exact ⟨first, swap, events, created, run, resident, (run_holds created run).1⟩

/-- The read of block 5 fails, and the next attend finds the block mapped. -/
theorem failed_read_maps_block : ¬ ∀ (first swap : HighSpeedSwap (Option Nat)) (events : List Event) dims memory groups,
    HighSpeedSwap.new dims memory groups = .ok first → Run Step first events swap → swap.Holds := by
  intro holds
  have held := holds _ _ _ oneSlot (fun _ => 0) bytesOfKind rfl
    (.single (.attend (fun _ => none) <| .unread (List.cons_ne_nil _ _) rfl (fun _ _ => rfl)
      ⟨⟨⟨0, 5, 0, .k⟩, 0⟩, List.mem_cons_self, by unfold Filled; decide⟩ : Step _ (.attend 0 [5] (.error .read)) _))
    ⟨0, 5⟩ 0 rfl ⟨⟨0, 5, 0, .k⟩, 0⟩ List.mem_cons_self
  exact absurd held (by unfold Filled; decide)

end HighSpeedSwap

end Metrale.Storage
