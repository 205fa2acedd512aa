import Metrale.Storage.Cascade

/-! # The cascade as a store of groups

What the cascade holds of a group is in the group's slot, or in the backing.  A write that succeeds updates
that one group, whatever it evicts, and nothing else changes any; a write that fails after its plan may leave
its group mapped to another's bytes. -/

namespace Metrale.Storage

open Metrale.Foundation

namespace SlotCache

def table (cache : SlotCache) : SlotTable GroupKey :=
  { bound := cache.capSlots, lookup := cache.lookup, keys := cache.slotKey, free := cache.free }

structure Consistent (cache : SlotCache) : Prop where
  table : cache.table.Consistent none
  nodup : cache.lru.Nodup
  occupied : ∀ slot, slot ∈ cache.lru ↔ ∃ key, cache.lookup.lookup key = some slot

variable {cache after : SlotCache} {key other : GroupKey} {slot : Nat} {plan : WritePlan} {keys : List GroupKey}

theorem new_consistent (capSlots : Nat) : (new capSlots).Consistent where
  table := SlotTable.start_consistent capSlots
  nodup := List.nodup_nil
  occupied slot := iff_of_false List.not_mem_nil fun ⟨_, held⟩ => by cases held

theorem moveToBack_consistent (consistent : cache.Consistent) (held : cache.lookup.lookup key = some slot) :
    (cache.moveToBack slot).Consistent where
  table := consistent.table
  nodup := by
    refine List.nodup_append'.mpr ⟨consistent.nodup.erase slot, List.nodup_singleton slot, ?_⟩
    intro other member here
    rw [List.mem_singleton] at here
    exact (consistent.nodup.mem_erase_iff.mp member).1 here
  occupied other := by
    show other ∈ cache.lru.erase slot ++ [slot] ↔ ∃ key, cache.lookup.lookup key = some other
    rw [← consistent.occupied, List.mem_append, List.mem_singleton, consistent.nodup.mem_erase_iff]
    have present : slot ∈ cache.lru := (consistent.occupied slot).mpr ⟨key, held⟩
    constructor
    · rintro (⟨-, member⟩ | rfl)
      · exact member
      · exact present
    · intro member
      by_cases same : other = slot
      · exact .inr same
      · exact .inl ⟨same, member⟩

/-- A plan for the group's own slot, for one that no group has, or for one that its victim gives up. -/
structure Planned (before : SlotCache) (key : GroupKey) (plan : WritePlan) (after : SlotCache) : Prop where
  consistent : after.Consistent
  cases :
    (before.lookup.lookup key = some plan.slot ∧ plan.flushVictim = none ∧ after.lookup = before.lookup) ∨
    (before.lookup.lookup key = none ∧ SlotTable.Moved before.lookup key plan.slot after.lookup ∧
      ((plan.flushVictim = none ∧ ∀ other, before.lookup.lookup other ≠ some plan.slot) ∨
        ∃ victim, plan.flushVictim = some (victim, plan.slot) ∧ before.lookup.lookup victim = some plan.slot))

theorem planWrite_planned (consistent : cache.Consistent) (planned : cache.planWrite key = some (plan, after)) :
    Planned cache key plan after := by
  simp only [planWrite] at planned
  split at planned
  · next slot held =>
    cases planned
    exact ⟨moveToBack_consistent consistent held, .inl ⟨held, rfl, rfl⟩⟩
  next absent =>
  split at planned
  · next slot free head =>
    cases planned
    -- A slot from the free list goes to the back of the order, where it was not before.
    have unowned := consistent.table.unowned (head ▸ List.mem_cons_self : slot ∈ cache.free)
    have moved : SlotTable.Moved cache.lookup key slot (cache.lookup.insert key slot) := SlotTable.moved_insert unowned
    refine ⟨⟨(consistent.table.take head).fill absent, ?_, fun other => ?_⟩, .inr ⟨absent, moved, .inl ⟨rfl, unowned⟩⟩⟩
    · refine List.nodup_append'.mpr ⟨consistent.nodup, List.nodup_singleton slot, fun other member here => ?_⟩
      rw [List.mem_singleton] at here
      obtain ⟨key, held⟩ := (consistent.occupied other).mp member
      exact unowned key (here ▸ held)
    · show other ∈ cache.lru ++ [slot] ↔ ∃ third, (cache.lookup.insert key slot).lookup third = some other
      rw [moved.occupied absent, List.mem_append, List.mem_singleton, consistent.occupied, or_comm]
  next full =>
  split at planned
  · cases planned
  next victimSlot lru order =>
  split at planned
  · cases planned
  next victimKey stored =>
  cases planned
  have held : cache.lookup.lookup victimKey = some victimSlot := (consistent.table.keys victimKey victimSlot).mpr stored
  have moved : SlotTable.Moved cache.lookup key victimSlot ((cache.lookup.erase victimKey).insert key victimSlot) :=
    SlotTable.moved_evict consistent.table held
  have vacated : (cache.lookup.erase victimKey).lookup key = none := by
    rw [HashMap.lookup_erase_if, absent, ite_self]
  -- The victim's slot goes from the front to the back.
  have rotated : (lru ++ [victimSlot]).Perm cache.lru := by
    rw [order]
    exact List.perm_append_singleton victimSlot lru
  refine ⟨⟨(consistent.table.evict held).fill vacated, rotated.nodup_iff.mpr consistent.nodup, fun other => ?_⟩,
    .inr ⟨absent, moved, .inr ⟨victimKey, rfl, held⟩⟩⟩
  show other ∈ lru ++ [victimSlot] ↔
    ∃ third, ((cache.lookup.erase victimKey).insert key victimSlot).lookup third = some other
  rw [rotated.mem_iff, consistent.occupied]
  refine Iff.trans ⟨.inr, ?_⟩ (moved.occupied absent).symm
  rintro (rfl | occupied)
  · exact ⟨victimKey, held⟩
  · exact occupied

theorem planWrite_isSome (consistent : cache.Consistent) (positive : 0 < cache.capSlots) (key : GroupKey) :
    (cache.planWrite key).isSome := by
  simp only [planWrite]
  split
  · rfl
  split
  · rfl
  next full =>
  split
  · next empty =>
    -- With no free slot, slot 0 is some group's.
    obtain free | transit | held := (consistent.table.slots.accounted 0).mp positive
    · change 0 ∈ cache.free at free
      rw [full] at free
      cases free
    · cases transit
    · have member := (consistent.occupied 0).mpr held
      rw [empty] at member
      cases member
  next victimSlot lru order =>
  split
  · next unkeyed =>
    obtain ⟨key, held⟩ := (consistent.occupied victimSlot).mp (order ▸ List.mem_cons_self)
    have stored := (consistent.table.keys key victimSlot).mp held
    cases unkeyed.symm.trans stored
  · rfl

theorem planWrite_capSlots (planned : cache.planWrite key = some (plan, after)) : after.capSlots = cache.capSlots := by
  simp only [planWrite] at planned
  split at planned
  · cases planned
    rfl
  · split at planned
    · cases planned
      rfl
    · split at planned
      · cases planned
      · split at planned
        · cases planned
        · cases planned
          rfl

theorem mem_planRead_hits {i : Nat} : (i, slot) ∈ (cache.planRead keys).1 ↔
    ∃ key, keys[i]? = some key ∧ cache.lookup.lookup key = some slot := by
  simp only [planRead]
  simp only [List.mem_filterMap, List.mem_zipIdx_iff_getElem?, Prod.exists, Option.map_eq_some_iff, Prod.mk.injEq]
  constructor
  · rintro ⟨key, index, listed, _, held, rfl, rfl⟩
    exact ⟨key, listed, held⟩
  · rintro ⟨key, listed, held⟩
    exact ⟨key, i, listed, slot, held, rfl, rfl⟩

theorem mem_planRead_misses {i : Nat} : i ∈ (cache.planRead keys).2 ↔
    ∃ key, keys[i]? = some key ∧ cache.lookup.lookup key = none := by
  simp only [planRead]
  simp only [List.mem_filterMap, List.mem_zipIdx_iff_getElem?, Prod.exists, Option.isNone_iff_eq_none,
    Option.ite_none_right_eq_some, Option.some.injEq]
  constructor
  · rintro ⟨key, index, listed, absent, rfl⟩
    exact ⟨key, listed, absent⟩
  · rintro ⟨key, listed, absent⟩
    exact ⟨key, i, listed, absent, rfl⟩

end SlotCache

namespace CascadeBackend

variable {cascade after : CascadeBackend} {key group : GroupKey} {slot : Nat} {plan : WritePlan} {hot : SlotCache}
  {src bytes : Bytes} {hits : List (Nat × Nat)} {requests : List ReadRequest}

def contents (cascade : CascadeBackend) (group : GroupKey) : Bytes :=
  match cascade.hot.lookup.lookup group with
  | some slot => cascade.slotBytes slot
  | none => cascade.backing group

theorem touchAll_lookup (hot : SlotCache) (hits : List (Nat × Nat)) : (touchAll hot hits).lookup = hot.lookup := by
  simp only [touchAll]
  induction hits generalizing hot with
  | nil => rfl
  | cons hit rest ih => exact ih _

theorem touchAll_consistent (consistent : hot.Consistent)
    (held : ∀ hit ∈ hits, ∃ key, hot.lookup.lookup key = some hit.2) : (touchAll hot hits).Consistent := by
  simp only [touchAll]
  induction hits generalizing hot with
  | nil => exact consistent
  | cons hit rest ih =>
    obtain ⟨key, resident⟩ := held hit List.mem_cons_self
    exact ih (SlotCache.moveToBack_consistent consistent resident)
      fun other member => held other (List.mem_cons_of_mem hit member)

theorem mem_hitBytes : (group, bytes) ∈ cascade.hitBytes requests →
    ∃ slot, cascade.hot.lookup.lookup group = some slot ∧ bytes = cascade.slotBytes slot := by
  intro member
  obtain ⟨⟨i, slot⟩, hit, requested⟩ := List.mem_filterMap.mp member
  obtain ⟨key, listed, resident⟩ := SlotCache.mem_planRead_hits.mp hit
  obtain ⟨request, at_, same⟩ := Option.map_eq_some_iff.mp requested
  cases same
  rw [groupsOf, List.getElem?_map, at_] at listed
  cases listed
  exact ⟨slot, resident, rfl⟩

theorem mem_missBytes : (group, bytes) ∈ cascade.missBytes requests →
    cascade.hot.lookup.lookup group = none ∧ bytes = cascade.backing group := by
  intro member
  obtain ⟨i, miss, requested⟩ := List.mem_filterMap.mp member
  obtain ⟨key, listed, absent⟩ := SlotCache.mem_planRead_misses.mp miss
  obtain ⟨request, at_, same⟩ := Option.map_eq_some_iff.mp requested
  cases same
  rw [groupsOf, List.getElem?_map, at_] at listed
  cases listed
  exact ⟨absent, rfl⟩

theorem mem_hitCopies {stream : Stream} {copy : Copy} : copy ∈ cascade.hitCopies stream requests →
    cascade.hot.lookup.lookup copy.group = some copy.slot := by
  intro member
  obtain ⟨⟨i, slot⟩, hit, requested⟩ := List.mem_filterMap.mp member
  obtain ⟨key, listed, resident⟩ := SlotCache.mem_planRead_hits.mp hit
  obtain ⟨request, at_, rfl⟩ := Option.map_eq_some_iff.mp requested
  rw [groupsOf, List.getElem?_map, at_] at listed
  cases listed
  exact resident

theorem contents_write (consistent : cascade.hot.Consistent) (planned : SlotCache.Planned cascade.hot key plan hot)
    (sized : src.length = cascade.groupBytes) :
    contents { cascade with
      hot
      backing := cascade.flushed plan
      lastReadEvent := none
      store := cascade.store.copyFromSlice (plan.slot * cascade.groupBytes) src } =
      Function.update cascade.contents key src := by
  -- The slots lie apart, so that a write to one leaves the others.
  have written : ∀ slot, slot ≠ plan.slot →
      (cascade.store.copyFromSlice (plan.slot * cascade.groupBytes) src).slice (slot * cascade.groupBytes)
        cascade.groupBytes = cascade.slotBytes slot := by
    intro slot differs
    refine Memory.slice_copyFromSlice_apart ?_
    rw [sized]
    exact Memory.cells_apart differs
  have own : (cascade.store.copyFromSlice (plan.slot * cascade.groupBytes) src).slice
      (plan.slot * cascade.groupBytes) cascade.groupBytes = src := by
    rw [← sized]
    exact Memory.slice_copyFromSlice _ _ _
  funext group
  unfold contents slotBytes
  dsimp only
  by_cases same : group = key
  · subst same
    rw [Function.update_self]
    have placed : hot.lookup.lookup group = some plan.slot := by
      obtain ⟨held, -, unmoved⟩ | ⟨-, moved, -⟩ := planned.cases
      · rw [unmoved, held]
      · exact (moved group plan.slot).mpr (.inl ⟨rfl, rfl⟩)
    rw [placed]
    exact own
  rw [Function.update_of_ne same]
  obtain ⟨held, unflushed, unmoved⟩ | ⟨absent, moved, vacated⟩ := planned.cases
  · simp only [flushed]
    rw [unmoved, unflushed]
    split
    · next slot resident =>
      refine written slot ?_
      rintro rfl
      exact same (consistent.table.injective resident held)
    · rfl
  · simp only [flushed]
    -- The group is in the slot it was in, or in the backing: also the victim, which was in the planned slot.
    split
    · next slot resident =>
      obtain ⟨own, -⟩ | ⟨-, differs, before⟩ := (moved group slot).mp resident
      · exact absurd own same
      · rw [before]
        exact written slot differs
    -- A group without a slot had none before, or gave it up to the written one.
    · next gone =>
      have before : ∀ slot, cascade.hot.lookup.lookup group = some slot → slot = plan.slot := by
        intro slot resident
        by_contra differs
        cases gone.symm.trans ((moved group slot).mpr (.inr ⟨same, differs, resident⟩))
      obtain ⟨unflushed, unowned⟩ | ⟨victim, evicted, resident⟩ := vacated
      · rw [unflushed]
        split
        · next slot held => exact absurd (before slot held ▸ held) (unowned group)
        · rfl
      · rw [evicted]
        dsimp only
        by_cases own : group = victim
        · subst own
          rw [Function.update_self, resident]
          rfl
        · rw [Function.update_of_ne own]
          split
          · next slot held =>
            exact absurd (consistent.table.injective held (before slot held ▸ resident)) own
          · rfl

/-! ## Runs -/

def Event.wrote (group : GroupKey) : Event → Option Bytes
  | .write key src (.ok ()) => if key = group then some src else none
  | _ => none

def Event.returned : Event → List (GroupKey × Bytes)
  | .read _ _ (.ok groups) | .readAsync _ _ (.ok groups) => groups
  | .deliver copy bytes => [(copy.group, bytes)]
  | _ => []

def lastWrite (group : GroupKey) (events : List Event) : Option Bytes := latest (Event.wrote group) events

/-- No flush fails, no wait fails for a group that has no slot yet, and no write gets a slot that is still to
be copied from, but for the stream of the last event. -/
def Event.Completes (cascade : CascadeBackend) : Event → Prop
  | .write key _ answer =>
    answer ≠ .error .flush ∧ (answer = .error .sync → ∃ slot, cascade.hot.lookup.lookup key = some slot) ∧
      (answer = .ok () → ∀ plan hot, cascade.hot.planWrite key = some (plan, hot) →
        ∀ copy ∈ cascade.pending, copy.slot = plan.slot → cascade.lastReadEvent = some copy.stream)
  | _ => True

structure Consistent (cascade : CascadeBackend) : Prop where
  hot : cascade.hot.Consistent
  pending : ∀ copy ∈ cascade.pending, cascade.hot.lookup.lookup copy.group = some copy.slot

theorem touched_consistent (consistent : cascade.hot.Consistent)
    (found : hits ⊆ (cascade.hot.planRead (groupsOf requests)).1) : (touchAll cascade.hot hits).Consistent := by
  refine touchAll_consistent consistent fun hit member => ?_
  obtain ⟨key, -, held⟩ := SlotCache.mem_planRead_hits.mp (found member)
  exact ⟨key, held⟩

theorem Consistent.touch {hits : List (Nat × Nat)} {event : Option Stream} {pending : List Copy}
    (consistent : cascade.Consistent) (found : hits ⊆ (cascade.hot.planRead (groupsOf requests)).1)
    (queued : ∀ copy ∈ pending, cascade.hot.lookup.lookup copy.group = some copy.slot) :
    Consistent { cascade with hot := touchAll cascade.hot hits, lastReadEvent := event, pending } ∧
      contents { cascade with hot := touchAll cascade.hot hits, lastReadEvent := event, pending } =
        cascade.contents := by
  refine ⟨⟨touched_consistent consistent.hot found, fun copy member => ?_⟩, ?_⟩
  · exact (congrArg (·.lookup copy.group) (touchAll_lookup _ _)).trans (queued copy member)
  · funext group
    simp only [contents]
    rw [touchAll_lookup]
    rfl

/-- A step that completes keeps what the cascade holds, but for the group that it has written. -/
theorem Step.contents {event : Event} (consistent : cascade.Consistent) (completes : event.Completes cascade)
    (step : Step cascade event after) :
    after.Consistent ∧ ∀ group, after.contents group = (event.wrote group).getD (cascade.contents group) := by
  cases step with
  | @write key src plan hot planned sized synced =>
    have layout := SlotCache.planWrite_planned consistent.hot planned
    refine ⟨⟨layout.consistent, fun copy queued => ?_⟩, fun group => ?_⟩
    · -- The planned slot is not the copy's, which therefore keeps its group.
      have resident := consistent.pending copy queued
      have apart : copy.slot ≠ plan.slot := fun same =>
        synced copy.stream (completes.2.2 rfl plan hot planned copy queued same) copy queued rfl
      obtain ⟨-, -, unmoved⟩ | ⟨absent, moved, -⟩ := layout.cases
      · exact (congrArg (·.lookup copy.group) unmoved).trans resident
      · refine (moved copy.group copy.slot).mpr (.inr ⟨?_, apart, resident⟩)
        intro same
        rw [same, absent] at resident
        cases resident
    · rw [contents_write consistent.hot layout sized]
      show _ = (if key = group then some src else none).getD (cascade.contents group)
      by_cases same : key = group
      · rw [if_pos same, same, Function.update_self]
        rfl
      · rw [if_neg same, Function.update_of_ne (Ne.symm same)]
        rfl
  | unflushed => exact absurd rfl completes.1
  | @unsynced key src plan hot stream planned recorded =>
    -- The group has its slot, so that the plan moves nothing.
    obtain ⟨slot, held⟩ := completes.2.1 rfl
    have layout := SlotCache.planWrite_planned consistent.hot planned
    obtain ⟨-, unflushed, unmoved⟩ | ⟨absent, -⟩ := layout.cases
    · refine ⟨⟨layout.consistent, fun copy queued => ?_⟩, fun group => ?_⟩
      · exact (congrArg (·.lookup copy.group) unmoved).trans (consistent.pending copy queued)
      · show CascadeBackend.contents { cascade with hot, backing := cascade.flushed plan, lastReadEvent := none } group =
          cascade.contents group
        simp only [CascadeBackend.contents, flushed]
        rw [unmoved, unflushed]
        rfl
    · cases absent.symm.trans held
  | read synced =>
    obtain ⟨kept, same⟩ := consistent.touch (List.Subset.refl _) consistent.pending
    exact ⟨kept, congrFun same⟩
  | unread touched =>
    obtain ⟨kept, same⟩ := consistent.touch (List.take_subset touched _) consistent.pending
    exact ⟨kept, congrFun same⟩
  | @readAsync stream requests =>
    obtain ⟨kept, same⟩ := @Consistent.touch _ requests _ _ (cascade.pending ++ cascade.hitCopies stream requests)
      consistent (List.Subset.refl _) fun copy queued => (List.mem_append.mp queued).elim (consistent.pending copy) mem_hitCopies
    exact ⟨kept, congrFun same⟩
  | unrecorded touched =>
    obtain ⟨kept, same⟩ := consistent.touch (List.take_subset touched _) consistent.pending
    exact ⟨kept, congrFun same⟩
  | missed =>
    obtain ⟨kept, same⟩ := consistent.touch (List.Subset.refl _) consistent.pending
    exact ⟨kept, congrFun same⟩
  | deliver queued =>
    exact ⟨⟨consistent.hot, fun other member => consistent.pending other (List.mem_of_mem_erase member)⟩, fun _ => rfl⟩

theorem Step.returned {event : Event} (consistent : cascade.Consistent) (step : Step cascade event after)
    (member : (group, bytes) ∈ event.returned) : bytes = cascade.contents group := by
  have hit : ∀ slot, cascade.hot.lookup.lookup group = some slot → cascade.contents group = cascade.slotBytes slot := by
    intro slot resident
    simp only [CascadeBackend.contents]
    rw [resident]
  have miss : cascade.hot.lookup.lookup group = none → cascade.contents group = cascade.backing group := by
    intro absent
    simp only [CascadeBackend.contents]
    rw [absent]
  cases step with
  | write | unflushed | unsynced | unread | unrecorded | missed => cases member
  | read =>
    obtain fromSlot | fromBacking := List.mem_append.mp member
    · obtain ⟨slot, resident, rfl⟩ := mem_hitBytes fromSlot
      exact (hit slot resident).symm
    · obtain ⟨absent, rfl⟩ := mem_missBytes fromBacking
      exact (miss absent).symm
  | readAsync =>
    obtain ⟨absent, rfl⟩ := mem_missBytes member
    exact (miss absent).symm
  -- The copy is queued still, so that its group has not left its slot.
  | deliver queued =>
    cases List.mem_singleton.mp member
    exact (hit _ (consistent.pending _ queued)).symm

variable {capSlots groupBytes : Nat} {store : Memory UInt8} {backing : GroupKey → Bytes} {events : List Event}

theorem new_consistent (capSlots groupBytes : Nat) (store : Memory UInt8) (backing : GroupKey → Bytes) :
    (new capSlots groupBytes store backing).Consistent where
  hot := SlotCache.new_consistent capSlots
  pending := nofun

theorem run_contents
    (run : Run (Guarded (fun cascade event => event.Completes cascade) Step) (new capSlots groupBytes store backing)
      events cascade) :
    cascade.Consistent ∧ ∀ group, cascade.contents group = (lastWrite group events).getD (backing group) := by
  induction run with
  | start => exact ⟨new_consistent capSlots groupBytes store backing, fun _ => rfl⟩
  | extend _ taken ih =>
    obtain ⟨consistent, held⟩ := ih
    obtain ⟨kept, wrote⟩ := taken.2.contents consistent taken.1
    refine ⟨kept, fun group => ?_⟩
    simp only [lastWrite] at held ⊢
    rw [wrote group, held group, latest_concat, Option.getD_or]

/-- A read that succeeds delivers the bytes of the group's last write that did. -/
theorem run_returns {event : Event} {answer : Bytes}
    (run : Run (Guarded (fun cascade event => event.Completes cascade) Step) (new capSlots groupBytes store backing)
      events cascade)
    (step : Step cascade event after) (returned : (group, answer) ∈ event.returned)
    (written : lastWrite group events = some bytes) : answer = bytes := by
  obtain ⟨consistent, held⟩ := run_contents run
  rw [step.returned consistent returned, held group, written]
  rfl

theorem Step.slotTable {event : Event} (consistent : cascade.hot.Consistent) (step : Step cascade event after) :
    after.hot.Consistent ∧ after.hot.capSlots = cascade.hot.capSlots := by
  have touched (keys : List GroupKey) (hits : List (Nat × Nat)) (among : hits ⊆ (cascade.hot.planRead keys).1) :
      (touchAll cascade.hot hits).Consistent ∧ (touchAll cascade.hot hits).capSlots = cascade.hot.capSlots := by
    refine ⟨touchAll_consistent consistent fun hit member => ?_, ?_⟩
    · obtain ⟨key, -, held⟩ := SlotCache.mem_planRead_hits.mp (among member)
      exact ⟨key, held⟩
    · exact List.foldlRecOn (motive := fun hot : SlotCache => hot.capSlots = cascade.hot.capSlots) hits _ rfl fun _ same _ _ => same
  cases step with
  | write planned | unflushed planned | unsynced planned =>
    exact ⟨(SlotCache.planWrite_planned consistent planned).consistent, SlotCache.planWrite_capSlots planned⟩
  | read | readAsync | missed => exact touched _ _ (List.Subset.refl _)
  | unread count | unrecorded count => exact touched _ _ (List.take_subset count _)
  | deliver => exact ⟨consistent, rfl⟩

/-- In every run, failures among its events, no plan of a write panics. -/
theorem run_plans (positive : 0 < capSlots) (run : Run Step (new capSlots groupBytes store backing) events cascade)
    (key : GroupKey) : ∃ plan after, cascade.hot.planWrite key = some (plan, after) ∧ SlotCache.Planned cascade.hot key plan after := by
  obtain ⟨consistent, sized⟩ := run.invariant
    (fun cascade => cascade.hot.Consistent ∧ cascade.hot.capSlots = capSlots) ⟨SlotCache.new_consistent capSlots, rfl⟩
    fun _ _ _ kept step => ⟨(step.slotTable kept.1).1, (step.slotTable kept.1).2.trans kept.2⟩
  obtain ⟨⟨plan, after⟩, planned⟩ := Option.isSome_iff_exists.mp (SlotCache.planWrite_isSome consistent (sized ▸ positive) key)
  exact ⟨plan, after, planned, SlotCache.planWrite_planned consistent planned⟩

/-! ## Two groups and one slot -/

def firstKey : GroupKey := ⟨0, 0, 0, .k⟩

def secondKey : GroupKey := ⟨0, 1, 0, .k⟩

def oneSlot : CascadeBackend := new 1 1 (fun _ => 0) fun _ => [0]

theorem drained_idle (idle : cascade.pending = []) (stream : Stream) : cascade.Drained stream := by
  intro copy member
  rw [idle] at member
  cases member

theorem completes_idle (idle : cascade.pending = []) : Event.Completes cascade (.write key src (.ok ())) := by
  refine ⟨nofun, nofun, fun _ plan hot planned copy member => ?_⟩
  rw [idle] at member
  cases member

/-- The first group is flushed for the second, and read from the backing. -/
theorem run_returns_flushed : ∃ (cascade after : CascadeBackend) (events : List Event) (event : Event) (answer : Bytes),
    Run (Guarded (fun cascade event => event.Completes cascade) Step) oneSlot events cascade ∧
      Step cascade event after ∧ (firstKey, answer) ∈ event.returned ∧
      lastWrite firstKey events = some [1] ∧ answer = [1] := by
  have written : Run (Guarded (fun cascade event => event.Completes cascade) Step) oneSlot
      [.write firstKey [1] (.ok ())] _ :=
    .single ⟨completes_idle rfl, .write rfl rfl fun _ _ => drained_idle rfl _⟩
  have flushed := @Run.extend _ _ _ _ _ (.write secondKey [2] (.ok ())) _ _ written
    ⟨completes_idle rfl, .write rfl rfl fun _ _ => drained_idle rfl _⟩
  have run : ∃ cascade after : CascadeBackend,
      Run (Guarded (fun cascade event => event.Completes cascade) Step) oneSlot
        [.write firstKey [1] (.ok ()), .write secondKey [2] (.ok ())] cascade ∧
      Step cascade (.read 0 [⟨firstKey, 0⟩] (.ok [(firstKey, [1])])) after :=
    ⟨_, _, flushed, .read (drained_idle rfl 0)⟩
  obtain ⟨cascade, after, run, step⟩ := run
  have returned : (firstKey, [1]) ∈ (Event.read 0 [⟨firstKey, 0⟩] (.ok [(firstKey, [1])])).returned := List.mem_singleton.mpr rfl
  exact ⟨cascade, after, _, _, [1], run, step, returned, rfl, run_returns run step returned rfl⟩

theorem run_plans_unflushed : ∃ cascade : CascadeBackend,
    Run Step oneSlot [.write firstKey [1] (.ok ()), .write secondKey [2] (.error .flush)] cascade ∧
    ∃ plan after, cascade.hot.planWrite firstKey = some (plan, after) ∧ SlotCache.Planned cascade.hot firstKey plan after := by
  have written : Run Step oneSlot [.write firstKey [1] (.ok ())] _ := .single (.write rfl rfl fun _ _ => drained_idle rfl _)
  have run := @Run.extend _ _ _ _ _ (.write secondKey [2] (.error .flush)) _ _ written (.unflushed rfl rfl [0])
  exact ⟨_, run, run_plans Nat.one_pos run firstKey⟩

/-- The flush of the first group fails: it is gone, and the second is mapped to its bytes. -/
theorem failed_flush_loses_victim : ∃ cascade after : CascadeBackend,
    let events : List Event :=
      [.write secondKey [2] (.ok ()), .write firstKey [1] (.ok ()), .write secondKey [3] (.error .flush)]
    Run Step oneSlot events cascade ∧
      Step cascade (.read 0 [⟨firstKey, 0⟩, ⟨secondKey, 0⟩] (.ok [(secondKey, [1]), (firstKey, [0])])) after ∧
      lastWrite firstKey events = some [1] ∧ lastWrite secondKey events = some [2] := by
  have second : Run Step oneSlot [.write secondKey [2] (.ok ())] _ := .single (.write rfl rfl fun _ _ => drained_idle rfl _)
  have first := @Run.extend _ _ _ _ _ (.write firstKey [1] (.ok ())) _ _ second (.write rfl rfl fun _ _ => drained_idle rfl _)
  -- The plan has moved the slot from the first group to the second; neither group's bytes have followed.
  have failed := @Run.extend _ _ _ _ _ (.write secondKey [3] (.error .flush)) _ _ first (.unflushed rfl rfl [0])
  exact ⟨_, _, failed, .read (drained_idle rfl 0), rfl, rfl⟩

end CascadeBackend

end Metrale.Storage
