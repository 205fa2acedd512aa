import Metrale.Storage.NgramPlacement

/-! # What a mapped slot holds

A mapped slot holds its row as the files had it when it was last read.  A read that fails unmaps every row
of its batch; a batch that is refused at an id, after an earlier id of it missed, leaves that one mapped and
unread. -/

namespace Metrale.Storage

open Metrale.Foundation

namespace NgramRowCache

/-! ## Jobs -/

theorem inBlock_spec (byte : UInt64) :
    (inBlock byte).1.toNat + (inBlock byte).2 = byte.toNat ∧ (inBlock byte).2 = byte.toNat % block := by
  have size : (UInt64.ofNat block).toNat = 4096 := rfl
  have remainder : (byte % UInt64.ofNat block).toNat = byte.toNat % 4096 := by rw [UInt64.toNat_mod, size]
  have floor : (byte - byte % UInt64.ofNat block).toNat = byte.toNat - byte.toNat % 4096 := by
    rw [UInt64.toNat_sub_of_le, remainder]
    rw [UInt64.le_iff_toNat_le, remainder]
    exact Nat.mod_le _ _
  have within : (byte - (byte - byte % UInt64.ofNat block)).toNat = byte.toNat - (byte.toNat - byte.toNat % 4096) := by
    rw [UInt64.toNat_sub_of_le, floor]
    rw [UInt64.le_iff_toNat_le, floor]
    exact Nat.sub_le _ _
  have less := Nat.mod_le byte.toNat 4096
  constructor
  · show (byte - byte % UInt64.ofNat block).toNat + (byte - (byte - byte % UInt64.ofNat block)).toNat = byte.toNat
    omega
  · show (byte - (byte - byte % UInt64.ofNat block)).toNat = byte.toNat % 4096
    omega

def source (cache : NgramRowCache) (id : RowId) : Part → Option (Nat × Nat)
  | .row => some ((cache.rowByte id).1, (cache.rowByte id).2.toNat)
  | .scale =>
    match cache.scales with
    | some ⟨true⟩ => some (0, (id * 4).toNat)
    | some ⟨false⟩ | none => none

theorem SameTable.source {before after : NgramRowCache} (same : SameTable before after) (id : RowId) :
    after.source id = before.source id := by
  funext part
  simp only [NgramRowCache.source, rowByte]
  rw [same.segments, same.baseOffset, same.rowStride, same.scales]

def Event.reads : Event → List Read
  | .resolve _ _ reads => reads
  | .endBatch | .setConstantScale => []

variable {cache before middle after : NgramRowCache} {id other : RowId} {ids : List RowId} {slot : UInt32}
  {slots : List UInt32} {jobs : List FaultJob} {job : FaultJob} {reads log : List Read} {part : Part}

theorem faultJob_source (cache : NgramRowCache) (id : RowId) (slot : UInt32) (part : Part) :
    (cache.faultJob id slot).source part = cache.source id part := by
  cases part with
  | row =>
    rw [FaultJob.source, source]
    exact congrArg some (Prod.ext rfl (inBlock_spec _).1)
  | scale =>
    simp only [FaultJob.source, source, faultJob]
    rcases cache.scales with _ | ⟨_ | _⟩
    · rfl
    · rfl
    · exact congrArg some (Prod.ext rfl (inBlock_spec _).1)

theorem faultJob_fits (stride : cache.rowStride ≤ block) (id : RowId) (slot : UInt32) :
    (cache.faultJob id slot).Fits cache.rowStride where
  covered := by
    have within := (inBlock_spec (cache.rowByte id).2).2
    have less := Nat.mod_lt (cache.rowByte id).2.toNat (show 0 < block by decide)
    show (inBlock (cache.rowByte id).2).2 + cache.rowStride ≤
      nblocksFor (inBlock (cache.rowByte id).2).2 cache.rowStride * block
    simp only [nblocksFor]
    split <;> omega
  dst := rfl
  scale := by
    intro sblock swithin sdst scaled
    simp only [faultJob] at scaled
    split at scaled
    · cases scaled
      refine ⟨?_, rfl⟩
      -- A scale starts at a multiple of its four bytes.
      have within := (inBlock_spec (id * 4)).2
      have aligned : (id * 4).toNat = id.toNat * 4 % 18446744073709551616 := UInt64.toNat_mul id 4
      show (inBlock (id * 4)).2 + 4 ≤ 4096
      change (inBlock (id * 4)).2 = (id * 4).toNat % 4096 at within
      omega
    · cases scaled
    · cases scaled

theorem Placed.batch (placed : Placed before ids slots jobs after) : Batch after.rowStride jobs where
  fits job member := by
    rw [(placed.faults job member).1]
    exact faultJob_fits placed.consistent.stride _ _
  apart := placed.apart

/-! ## Rows in their slots -/

def Holds (cache : NgramRowCache) (log : List Read) : Prop :=
  ∀ part id slot, cache.map.lookup id = some slot → ∀ file position, cache.source id part = some (file, position) →
    ∃ files, lastRead part id log = some files ∧
      cache.arenas.cell cache.rowStride part slot.toNat =
        (files part file).slice position (width cache.rowStride part)

theorem Holds.shrink (holds : before.Holds log) (same : SameTable before after)
    (fewer : ∀ id slot, after.map.lookup id = some slot → before.map.lookup id = some slot) : after.Holds log := by
  intro part id slot stored file position source
  rw [same.source] at source
  rw [same.arenas, same.rowStride]
  exact holds part id slot (fewer id slot stored) file position source

theorem Placed.others {ok : Bool} {arenas : Arenas} (placed : Placed before ids slots jobs after)
    (holds : before.Holds log) (faulted : Faulted after.rowStride jobs after.arenas ok reads arenas)
    (stored : after.map.lookup id = some slot) (unfaulted : ∀ job ∈ jobs, job.rowId ≠ id) {file position : Nat}
    (source : after.source id part = some (file, position)) :
    ∃ files, lastRead part id (log ++ reads) = some files ∧
      arenas.cell after.rowStride part slot.toNat = (files part file).slice position (width after.rowStride part) := by
  have earlier : before.map.lookup id = some slot := by
    -- A row that is new in the map has a job of its own.
    obtain earlier | ⟨job, member, same, -⟩ := placed.stays id slot stored
    · exact earlier
    · exact absurd same (unfaulted job member)
  rw [placed.table.source] at source
  obtain ⟨files, last, held⟩ := holds part id slot earlier file position source
  refine ⟨files, ?_, ?_⟩
  · rw [lastRead_others fun read member => ?_, last]
    obtain ⟨job, own, same⟩ := faulted.logged read member
    rw [same]
    exact unfaulted job own
  -- A job for its slot would have put that job's row there.
  · rw [faulted.others part slot.toNat fun job member same => ?_, placed.table.arenas, placed.table.rowStride]
    · exact held
    · have taken := (placed.faults job member).2.1
      rw [← UInt32.toNat_inj.mp same] at taken
      exact unfaulted job member (placed.consistent.injective taken stored)

theorem Placed.faulted_holds {arenas : Arenas} (placed : Placed before ids slots jobs after)
    (holds : before.Holds log) (faulted : Faulted after.rowStride jobs after.arenas true reads arenas) :
    Holds { after with arenas } (log ++ reads) := by
  intro part id slot stored file position source
  by_cases own : ∃ job ∈ jobs, job.rowId = id
  · obtain ⟨job, member, rfl⟩ := own
    obtain ⟨same, taken, -, -⟩ := placed.faults job member
    obtain rfl : job.slot = slot := Option.some.inj (taken.symm.trans stored)
    have copied : job.source part = some (file, position) := by
      rw [same, faultJob_source]
      exact source
    exact (faulted.done rfl job member).prepend part file position copied
  · exact placed.others holds faulted stored (fun job member same => own ⟨job, member, same⟩) source

/-! ## Unmapping a failed batch -/

theorem unmap_consistent (consistent : cache.Consistent) (stored : cache.map.lookup job.rowId = some job.slot) :
    (cache.unmap job).Consistent where
  slotRow := List.length_set.trans consistent.slotRow
  refbit := List.length_set.trans consistent.refbit
  pinned := List.length_set.trans consistent.pinned
  hand := consistent.hand
  addressable := consistent.addressable
  stride := consistent.stride
  mapped id slot := by
    have inRange := consistent.toNat_lt stored
    have bound : job.slot.toNat < cache.slotRow.length := consistent.slotRow.symm ▸ inRange
    show (cache.map.erase job.rowId).lookup id = some slot ↔
      (cache.slotRow.set job.slot.toNat emptyRow).getD slot.toNat emptyRow = id ∧ id ≠ emptyRow
    rw [HashMap.lookup_erase_if]
    by_cases same : slot = job.slot
    · subst same
      -- The slot is the job's row's alone, so no other row loses its place.
      have taken : ∀ id, cache.map.lookup id = some job.slot → id = job.rowId :=
        fun id stored' => consistent.injective stored' stored
      rw [getD_set_self bound]
      refine iff_of_false ?_ fun row => row.2 row.1.symm
      split
      · nofun
      · next differs => exact fun stored' => differs (taken id stored')
    · rw [getD_set_of_ne _ fun here => same (UInt32.toNat_inj.mp here), ← consistent.mapped]
      split
      · next own =>
        rw [own, stored]
        exact iff_of_false nofun fun here => same (Option.some.inj here).symm
      · rfl
  occupied slot held := by
    change (cache.pinned.set job.slot.toNat false).getD slot false = true at held
    show (cache.slotRow.set job.slot.toNat emptyRow).getD slot emptyRow ≠ emptyRow
    have bound : job.slot.toNat < cache.pinned.length := consistent.pinned.symm ▸ consistent.toNat_lt stored
    rw [getD_set] at held
    split at held
    · cases held
    · next elsewhere =>
      rw [getD_set_of_ne _ fun same => elsewhere ⟨same, bound⟩]
      exact consistent.occupied slot held

theorem unmapAll (consistent : cache.Consistent)
    (stored : ∀ job ∈ jobs, cache.map.lookup job.rowId = some job.slot)
    (apart : jobs.Pairwise fun job other => job.slot ≠ other.slot ∧ job.rowId ≠ other.rowId) :
    (jobs.foldl unmap cache).Consistent ∧ SameTable cache (jobs.foldl unmap cache) ∧
      ∀ id slot, (jobs.foldl unmap cache).map.lookup id = some slot →
        cache.map.lookup id = some slot ∧ ∀ job ∈ jobs, job.rowId ≠ id := by
  induction jobs generalizing cache with
  | nil => exact ⟨consistent, .refl _, fun _ _ stored => ⟨stored, nofun⟩⟩
  | cons job rest ih =>
    obtain ⟨own, apart⟩ := List.pairwise_cons.mp apart
    have first := unmap_consistent consistent (stored job List.mem_cons_self)
    obtain ⟨consistent, table, unmapped⟩ := ih first (fun other member => by
      show (cache.map.erase job.rowId).lookup other.rowId = some other.slot
      rw [HashMap.lookup_erase_if, if_neg (own other member).2.symm]
      exact stored other (List.mem_cons_of_mem job member)) apart
    have kept : SameTable cache (cache.unmap job) := ⟨rfl, rfl, rfl, rfl, rfl, rfl, rfl, rfl⟩
    refine ⟨consistent, kept.trans table, fun id slot left => ?_⟩
    obtain ⟨held, others⟩ := unmapped id slot left
    change (cache.map.erase job.rowId).lookup id = some slot at held
    rw [HashMap.lookup_erase_if] at held
    split at held
    · cases held
    · next differs => exact ⟨held, List.forall_mem_cons.mpr ⟨Ne.symm differs, others⟩⟩

/-! ## Whole runs -/

/-- No id of the batch is refused after one that missed: once an id was not mapped, every later one is in the
table, and has its slot or leaves room for one more pinned slot. -/
def Completes (cache : NgramRowCache) (rowIds : List RowId) : Prop :=
  ∀ earlier id later, rowIds = earlier ++ id :: later → (∃ missed ∈ earlier, missed ∉ cache.map) →
    id < cache.rowsTotal ∧
      (id ∈ earlier ∨ cache.rowPinned id = true ∨
        cache.pinned.count true + (earlier.toFinset.filter fun id => ¬ cache.rowPinned id = true).card < cache.slots)

def Event.Completes (cache : NgramRowCache) : Event → Prop
  | .resolve rowIds _ _ => cache.Completes rowIds
  | .endBatch | .setConstantScale => True

theorem Completes.refused {error : Error} (completes : cache.Completes ids) (consistent : cache.Consistent)
    (placed : placeAll ids cache = (.error error, after)) :
    after.Consistent ∧ SameTable cache after ∧ after.map = cache.map := by
  obtain ⟨earlier, id, later, slots, jobs, middle, rfl, before, failed⟩ := placeAll_error placed
  obtain ⟨first, pins⟩ := placeAll_placed consistent before
  obtain ⟨left, table, map, reason⟩ := place_error first.consistent failed
  refine ⟨left, first.table.trans table, ?_⟩
  rw [map]
  by_cases mapped : ∀ id ∈ earlier, id ∈ cache.map
  · exact (placeAll_hits consistent mapped before).2
  -- An id before missed, so this one could not be refused.
  obtain ⟨missed, member, absent⟩ : ∃ missed ∈ earlier, missed ∉ cache.map := by
    by_contra none
    exact mapped fun id member => by_contra fun absent => none ⟨id, member, absent⟩
  obtain ⟨inTable, room⟩ := completes earlier id later rfl ⟨missed, member, absent⟩
  exfalso
  obtain outside | ⟨unmapped, full⟩ := reason
  · rw [first.table.rowsTotal] at outside
    exact absurd inTable (UInt64.not_lt.mpr outside)
  -- Refused for want of a slot, the id is not mapped, and every slot is pinned.
  have unpinned : ¬ middle.rowPinned id = true := by
    rw [rowPinned_iff]
    rintro ⟨slot, stored, -⟩
    cases unmapped.symm.trans stored
  rw [pins.rows] at unpinned
  obtain here | held | room := room
  · exact unpinned (.inr here)
  · exact unpinned (.inl held)
  · rw [← pins.counted] at room
    -- With all slots pinned there would be as many pins as slots.
    have every : ∀ held ∈ middle.pinned, true = held := by
      intro held member
      obtain ⟨position, bound, rfl⟩ := List.mem_iff_getElem.mp member
      have all := full position (first.consistent.pinned ▸ bound)
      rw [List.getD_eq_getElem _ _ bound] at all
      exact all.symm
    rw [List.count_eq_length.mpr every, first.consistent.pinned, first.table.slots] at room
    exact absurd room (Nat.lt_irrefl _)

theorem Resolve.holds {serialForced : Bool} {answer : Except Error (List UInt32)} (consistent : cache.Consistent)
    (holds : cache.Holds log) (completes : cache.Completes ids)
    (resolved : Resolve serialForced cache ids answer reads after) :
    after.Consistent ∧ after.Holds (log ++ reads) := by
  cases resolved with
  | refused placed =>
    obtain ⟨left, table, map⟩ := completes.refused consistent placed
    rw [List.append_nil]
    exact ⟨left, holds.shrink table fun id slot stored => map ▸ stored⟩
  | hit placed =>
    obtain ⟨placed, -⟩ := placeAll_placed consistent placed
    rw [List.append_nil]
    refine ⟨placed.consistent, holds.shrink placed.table fun id slot stored => ?_⟩
    obtain earlier | ⟨job, member, -⟩ := placed.stays id slot stored
    · exact earlier
    · exact absurd member List.not_mem_nil
  | faulted placed missed ran =>
    obtain ⟨placed, -⟩ := placeAll_placed consistent placed
    exact ⟨{ placed.consistent with }, placed.faulted_holds holds (faultAll_faulted placed.batch ran)⟩
  -- The rows of a batch that failed are unmapped again; what was read of them counts for nothing.
  | @failed slots jobs middle reads arenas error placed missed ran =>
    obtain ⟨placed, -⟩ := placeAll_placed consistent placed
    have faulted := faultAll_faulted placed.batch ran
    have start : Consistent { middle with arenas } := { placed.consistent with }
    obtain ⟨left, table, unmapped⟩ := unmapAll start (fun job member => (placed.faults job member).2.1) placed.apart
    refine ⟨left, fun part id slot stored file position source => ?_⟩
    obtain ⟨stored, others⟩ := unmapped id slot stored
    rw [table.source] at source
    rw [table.arenas, table.rowStride]
    exact placed.others holds faulted stored others source

theorem endBatch_consistent (consistent : cache.Consistent) : cache.endBatch.Consistent where
  slotRow := consistent.slotRow
  refbit := consistent.refbit
  pinned := List.length_map .. |>.trans consistent.pinned
  hand := consistent.hand
  addressable := consistent.addressable
  stride := consistent.stride
  mapped := consistent.mapped
  occupied slot held := by
    change (cache.pinned.map fun _ => false).getD slot false = true at held
    rw [List.getD_eq_getElem?_getD, List.getElem?_map] at held
    cases stored : cache.pinned[slot]? <;> simp [stored] at held

theorem Step.holds {serialForced : Bool} {event : Event} (consistent : cache.Consistent) (holds : cache.Holds log)
    (completes : event.Completes cache) (step : Step serialForced cache event after) :
    after.Consistent ∧ after.Holds (log ++ event.reads) := by
  cases step with
  | resolve resolved => exact resolved.holds consistent holds completes
  | endBatch =>
    rw [Event.reads, List.append_nil]
    exact ⟨endBatch_consistent consistent,
      holds.shrink ⟨rfl, rfl, rfl, rfl, rfl, rfl, rfl, rfl⟩ fun _ _ stored => stored⟩
  -- The scales are replaced, and a table with one scale for all has none to read.
  | setConstantScale fresh scale =>
    rw [Event.reads, List.append_nil]
    refine ⟨{ consistent with }, fun part id slot stored file position source => ?_⟩
    cases part with
    | row =>
      obtain ⟨files, last, held⟩ := holds .row id slot stored file position source
      refine ⟨files, last, Eq.trans ?_ held⟩
      have apart : Part.row ≠ Part.scale := nofun
      simp only [Arenas.cell, NgramRowCache.setConstantScale]
      rw [Function.update_of_ne apart]
    | scale => cases source

/-! ## From an opened cache -/

def Opened (cache : NgramRowCache) : Prop :=
  (∃ arenas baseOffset scaleFile rowsTotal rowStride slots,
    openAt arenas baseOffset scaleFile rowsTotal rowStride slots = .ok cache) ∨
  ∃ arenas shards rowsPerShard scaleFile rowStride slots,
    openSegmented arenas shards rowsPerShard scaleFile rowStride slots = .ok cache

theorem openAt_consistent {arenas : Arenas} {baseOffset rowsTotal : UInt64} {scaleFile : Bool}
    {rowStride slots : Nat} (opened : openAt arenas baseOffset scaleFile rowsTotal rowStride slots = .ok cache)
    (addressable : cache.slots ≤ 4294967296) : cache.Consistent ∧ cache.map = ∅ := by
  simp only [openAt] at opened
  split at opened
  · cases opened
  next geometry =>
  split at opened
  · cases opened
  next stride =>
  split at opened
  · cases opened
  cases opened
  refine ⟨?_, rfl⟩
  have empty : ∀ slot, (List.replicate slots emptyRow).getD slot emptyRow = emptyRow := by
    intro slot
    rw [List.getD_eq_getElem?_getD, List.getElem?_replicate]
    split <;> rfl
  exact {
    slotRow := List.length_replicate
    refbit := List.length_replicate
    pinned := List.length_replicate
    hand := Nat.pos_of_ne_zero fun none => geometry (.inr none)
    addressable := addressable
    stride := Nat.le_of_not_lt stride
    mapped := fun id slot => by
      rw [empty]
      exact iff_of_false nofun fun row => row.2 row.1.symm
    occupied := fun slot held => by
      dsimp only at held
      rw [List.getD_eq_getElem?_getD, List.getElem?_replicate] at held
      split at held <;> cases held }

theorem Opened.consistent (opened : cache.Opened) (addressable : cache.slots ≤ 4294967296) :
    cache.Consistent ∧ cache.map = ∅ := by
  obtain ⟨_, _, _, _, _, _, opened⟩ | ⟨_, _, _, _, _, _, opened⟩ := opened
  · exact openAt_consistent opened addressable
  · unfold openSegmented at opened
    split at opened
    · cases opened
    · dsimp only at opened
      split at opened
      · cases opened
      · next unsegmented =>
        cases opened
        obtain ⟨consistent, empty⟩ := openAt_consistent unsegmented addressable
        exact ⟨{ consistent with }, empty⟩

def rowBytes (cache : NgramRowCache) (files : Files) (id : RowId) : List UInt8 :=
  (files .row (cache.rowByte id).1).slice (cache.rowByte id).2.toNat cache.rowStride

def cachedRow (cache : NgramRowCache) (slot : UInt32) : List UInt8 :=
  (cache.arenas .row).slice (slot.toNat * cache.rowStride) cache.rowStride

variable {serialForced : Bool} {first : NgramRowCache} {events : List Event}

theorem run_contents_hold (opened : first.Opened) (addressable : first.slots ≤ 4294967296)
    (run : Run (Guarded (fun cache event => event.Completes cache) (Step serialForced)) first events cache) :
    cache.Consistent ∧ cache.Holds (events.flatMap Event.reads) := by
  induction run with
  | start =>
    obtain ⟨consistent, empty⟩ := opened.consistent addressable
    refine ⟨consistent, fun part id slot stored => ?_⟩
    rw [empty] at stored
    cases stored
  | @extend events event middle last earlier taken ih =>
    rw [List.flatMap_append, List.flatMap_singleton]
    exact taken.2.holds ih.1 ih.2 taken.1

/-- As long as no batch is refused after a miss, a mapped slot holds its row as it was last read. -/
theorem run_serves (opened : first.Opened) (addressable : first.slots ≤ 4294967296)
    (run : Run (Guarded (fun cache event => event.Completes cache) (Step serialForced)) first events cache)
    (stored : cache.map.lookup id = some slot) :
    ∃ files, lastRead .row id (events.flatMap Event.reads) = some files ∧
      cache.cachedRow slot = cache.rowBytes files id :=
  (run_contents_hold opened addressable run).2 .row id slot stored _ _ rfl

/-- Rows 0 and 1 are faulted into two slots by one batch. -/
theorem run_serves_faulted : ∃ (first cache : NgramRowCache) (events : List Event), first.Opened ∧
    first.slots ≤ 4294967296 ∧
    Run (Guarded (fun cache event => event.Completes cache) (Step false)) first events cache ∧
    cache.map.lookup 1 = some 1 ∧
    ∃ files, lastRead .row 1 (events.flatMap Event.reads) = some files ∧ cache.cachedRow 1 = cache.rowBytes files 1 := by
  have files : Files := fun _ _ position => UInt8.ofNat position
  have run : ∃ (first cache : NgramRowCache) (events : List Event),
      openAt (fun _ _ => 0) 0 false 2 1 2 = .ok first ∧
      Run (Guarded (fun cache event => event.Completes cache) (Step false)) first events cache ∧
      cache.map.lookup 1 = some 1 ∧ first.slots = 2 := by
    refine ⟨_, _, [.resolve [0, 1] _ _], rfl, .single ⟨?_, .resolve <| .faulted rfl nofun <| .serial (.inl (by decide)) <|
      @FaultSerial.next _ _ _ _ (some files) none _ _ _ _ _ _ (by decide) rfl <|
      @FaultSerial.next _ _ _ _ (some files) none _ _ _ _ _ _ (by decide) rfl .done⟩, rfl, rfl⟩
    intro earlier id later split ⟨missed, member, _⟩
    obtain _ | ⟨head, _ | ⟨next, rest⟩⟩ := earlier
    · cases member
    · cases split
      exact ⟨by decide, .inr (.inr (by decide))⟩
    · have length := congrArg List.length split
      simp at length
  obtain ⟨first, cache, events, opened, run, stored, two⟩ := run
  have opened : first.Opened := .inl ⟨_, _, _, _, _, _, opened⟩
  have addressable : first.slots ≤ 4294967296 := by rw [two]; decide
  exact ⟨first, cache, events, opened, addressable, run, stored, run_serves opened addressable run stored⟩

/-- Id 5 is out of range: the batch is refused, and row 0, which it missed before, stays mapped and unread. -/
theorem refused_batch_maps_unread : ¬ ∀ (arenas : Arenas) (first cache : NgramRowCache) (events : List Event) id slot,
    openAt arenas 0 false 1 1 1 = .ok first → Run (Step false) first events cache →
    cache.map.lookup id = some slot →
    ∃ files, lastRead .row id (events.flatMap Event.reads) = some files ∧ cache.cachedRow slot = cache.rowBytes files id := by
  intro serves
  obtain ⟨files, unread, -⟩ := serves (fun _ _ => 0) _ _ _ 0 0 rfl
    (.single (.resolve (.refused rfl) : Step false _ (.resolve [0, 5] _ []) _)) rfl
  cases unread

end NgramRowCache

end Metrale.Storage
