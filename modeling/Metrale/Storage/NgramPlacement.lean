import Mathlib.Data.Finset.Card
import Mathlib.Data.List.GetD
import Metrale.Foundation.IndexedSums
import Metrale.Foundation.VecOps
import Metrale.Storage.NgramVictim

/-! # Slots for the rows of a batch

The map and the slots name each other, and a pinned slot holds a row.  Placing a batch keeps both: its rows
end up mapped and pinned, each miss in a slot that was not pinned before. -/

namespace Metrale.Storage

open Metrale.Foundation

namespace NgramRowCache

structure Consistent (cache : NgramRowCache) : Prop where
  slotRow : cache.slotRow.length = cache.slots
  refbit : cache.refbit.length = cache.slots
  pinned : cache.pinned.length = cache.slots
  hand : cache.hand < cache.slots
  /-- A slot fits its `u32`. -/
  addressable : cache.slots ≤ 4294967296
  stride : cache.rowStride ≤ block
  /-- `map[id] == s` exactly when `slot_row[s] == id`. -/
  mapped : ∀ id slot, cache.map.lookup id = some slot ↔
    cache.slotRow.getD slot.toNat emptyRow = id ∧ id ≠ emptyRow
  occupied : ∀ slot, cache.pinned.getD slot false = true → cache.slotRow.getD slot emptyRow ≠ emptyRow

/-- Everything that says where rows lie, in the files and in the arena. -/
structure SameTable (before after : NgramRowCache) : Prop where
  arenas : after.arenas = before.arenas
  numFiles : after.numFiles = before.numFiles
  baseOffset : after.baseOffset = before.baseOffset
  segments : after.segments = before.segments
  scales : after.scales = before.scales
  rowStride : after.rowStride = before.rowStride
  slots : after.slots = before.slots
  rowsTotal : after.rowsTotal = before.rowsTotal

theorem SameTable.refl (cache : NgramRowCache) : SameTable cache cache := ⟨rfl, rfl, rfl, rfl, rfl, rfl, rfl, rfl⟩

theorem SameTable.trans {before middle after : NgramRowCache} (earlier : SameTable before middle)
    (later : SameTable middle after) : SameTable before after where
  arenas := later.arenas.trans earlier.arenas
  numFiles := later.numFiles.trans earlier.numFiles
  baseOffset := later.baseOffset.trans earlier.baseOffset
  segments := later.segments.trans earlier.segments
  scales := later.scales.trans earlier.scales
  rowStride := later.rowStride.trans earlier.rowStride
  slots := later.slots.trans earlier.slots
  rowsTotal := later.rowsTotal.trans earlier.rowsTotal

theorem SameTable.faultJob {before after : NgramRowCache} (same : SameTable before after) (id : RowId)
    (slot : UInt32) : after.faultJob id slot = before.faultJob id slot := by
  simp only [NgramRowCache.faultJob, rowByte]
  rw [same.segments, same.baseOffset, same.rowStride, same.scales]

def rowPinned (cache : NgramRowCache) (id : RowId) : Bool :=
  match cache.map.lookup id with
  | some slot => cache.pinned.getD slot.toNat false
  | none => false

section

variable {cache before middle after : NgramRowCache} {id other : RowId} {ids ids' : List RowId}
  {slot slot' : UInt32} {slots slots' : List UInt32} {jobs jobs' : List FaultJob} {job : FaultJob}

theorem rowPinned_iff : cache.rowPinned id = true ↔
    ∃ slot, cache.map.lookup id = some slot ∧ cache.pinned.getD slot.toNat false = true := by
  simp only [rowPinned]
  split
  · next slot stored =>
    rw [stored]
    simp
  · next absent =>
    rw [absent]
    simp

namespace Consistent

theorem toNat_lt (consistent : cache.Consistent) (stored : cache.map.lookup id = some slot) :
    slot.toNat < cache.slots := by
  obtain ⟨row, occupied⟩ := (consistent.mapped id slot).mp stored
  by_contra outside
  rw [List.getD_eq_default _ _ (by rw [consistent.slotRow]; omega)] at row
  exact occupied row.symm

theorem injective (consistent : cache.Consistent) (stored : cache.map.lookup id = some slot)
    (stored' : cache.map.lookup other = some slot) : id = other :=
  ((consistent.mapped id slot).mp stored).1.symm.trans ((consistent.mapped other slot).mp stored').1

end Consistent

/-- The victim's row is unmapped and its slot still names it, until the missing row is put there. -/
structure Vacated (before : NgramRowCache) (slot : UInt32) (after : NgramRowCache) : Prop where
  inRange : slot.toNat < before.slots
  free : before.pinned.getD slot.toNat false = false
  mapped : ∀ id slot', after.map.lookup id = some slot' ↔ before.map.lookup id = some slot' ∧ slot' ≠ slot

/-- Unmapping the row that a slot names, if it names one, leaves the slot to no row. -/
theorem Consistent.vacate (consistent : cache.Consistent) (inRange : slot.toNat < cache.slots)
    (free : cache.pinned.getD slot.toNat false = false)
    (map : after.map = if cache.slotRow.getD slot.toNat emptyRow ≠ emptyRow then
      cache.map.erase (cache.slotRow.getD slot.toNat emptyRow) else cache.map) : Vacated cache slot after where
  inRange := inRange
  free := free
  mapped id slot' := by
    rw [map]
    split
    · next occupied =>
      rw [HashMap.lookup_erase_if]
      split
      · next own =>
        refine ⟨nofun, fun ⟨stored, apart⟩ => ?_⟩
        have held : cache.map.lookup id = some slot := (consistent.mapped id slot).mpr ⟨own.symm, own ▸ occupied⟩
        exact absurd (Option.some.inj (stored.symm.trans held)) apart
      · next differs =>
        refine ⟨fun stored => ⟨stored, ?_⟩, And.left⟩
        rintro rfl
        exact differs ((consistent.mapped id slot').mp stored).1.symm
    · next empty =>
      refine ⟨fun stored => ⟨stored, ?_⟩, And.left⟩
      rintro rfl
      obtain ⟨row, occupied⟩ := (consistent.mapped id slot').mp stored
      exact occupied (row.symm.trans (not_not.mp empty))

theorem victimFrom_moves {rounds : Nat} {found : Option UInt32} (consistent : cache.Consistent)
    (search : victimFrom rounds cache = (found, after)) :
    ∃ hand refbit map evictions, after = { cache with hand, refbit, map, evictions } ∧
      hand < cache.slots ∧ refbit.length = cache.slots := by
  have frame := victimFrom_frame search
  have moved := victimFrom_hand consistent.hand search
  have sameSlots : after.slots = cache.slots := by rw [frame]
  exact ⟨_, _, _, _, frame, sameSlots ▸ moved.1, moved.2.trans consistent.refbit⟩

theorem victim_cases {answer : Except Error UInt32} (consistent : cache.Consistent)
    (found : cache.victim = (answer, after)) :
    (∃ hand refbit map evictions, after = { cache with hand, refbit, map, evictions } ∧
      hand < cache.slots ∧ refbit.length = cache.slots) ∧
    ((∃ error, answer = .error error ∧ after.map = cache.map ∧
        ∀ slot < cache.slots, cache.pinned.getD slot false = true) ∨
      ∃ slot, answer = .ok slot ∧ Vacated cache slot after) := by
  simp only [victim] at found
  split at found
  · next s after' search =>
    cases found
    refine ⟨victimFrom_moves consistent search, .inr ⟨s, rfl, ?_⟩⟩
    obtain ⟨⟨⟩, -⟩ | ⟨position, inRange, same, free, map⟩ := victimFrom_cases consistent.hand search
    -- `s as u32` is the position, as there are at most 2^32 slots.
    have named : s.toNat = position := by
      rw [Option.some.inj same, UInt32.toNat_ofNat_of_lt']
      exact Nat.lt_of_lt_of_le inRange consistent.addressable
    subst named
    exact consistent.vacate inRange free map
  · next after' search =>
    cases found
    refine ⟨victimFrom_moves consistent search, .inl ⟨_, rfl, ?_, ?_⟩⟩
    · obtain ⟨-, map⟩ | ⟨_, _, ⟨⟩, _⟩ := victimFrom_cases consistent.hand search
      exact map
    · exact fun slot bound => victimFrom_none consistent.hand search slot bound

/-- What the first loop of `resolve` leaves after the ids it has passed. -/
structure Placed (before : NgramRowCache) (ids : List RowId) (slots : List UInt32) (jobs : List FaultJob)
    (after : NgramRowCache) : Prop where
  consistent : after.Consistent
  table : SameTable before after
  located : List.Forall₂ (fun id slot =>
    after.map.lookup id = some slot ∧ after.pinned.getD slot.toNat false = true) ids slots
  pins : ∀ slot, before.pinned.getD slot false = true → after.pinned.getD slot false = true
  keeps : ∀ id slot, before.map.lookup id = some slot → before.pinned.getD slot.toNat false = true →
    after.map.lookup id = some slot
  stays : ∀ id slot, after.map.lookup id = some slot →
    before.map.lookup id = some slot ∨ ∃ job ∈ jobs, job.rowId = id ∧ job.slot = slot
  faults : ∀ job ∈ jobs, job = after.faultJob job.rowId job.slot ∧ after.map.lookup job.rowId = some job.slot ∧
    after.pinned.getD job.slot.toNat false = true ∧ before.pinned.getD job.slot.toNat false = false
  apart : jobs.Pairwise fun job other => job.slot ≠ other.slot ∧ job.rowId ≠ other.rowId

namespace Placed

theorem nil (consistent : cache.Consistent) : Placed cache [] [] [] cache where
  consistent := consistent
  table := .refl cache
  located := .nil
  pins _ := id
  keeps _ _ stored _ := stored
  stays _ _ := .inl
  faults _ member := absurd member List.not_mem_nil
  apart := .nil

theorem append (first : Placed before ids slots jobs middle) (rest : Placed middle ids' slots' jobs' after) :
    Placed before (ids ++ ids') (slots ++ slots') (jobs ++ jobs') after where
  consistent := rest.consistent
  table := first.table.trans rest.table
  located := by
    refine List.rel_append ?_ rest.located
    exact first.located.imp fun id slot ⟨stored, held⟩ => ⟨rest.keeps id slot stored held, rest.pins _ held⟩
  pins slot held := rest.pins slot (first.pins slot held)
  keeps id slot stored held := rest.keeps id slot (first.keeps id slot stored held) (first.pins _ held)
  stays id slot stored := by
    obtain earlier | ⟨job, member, same⟩ := rest.stays id slot stored
    · obtain before | ⟨job, member, same⟩ := first.stays id slot earlier
      · exact .inl before
      · exact .inr ⟨job, List.mem_append_left _ member, same⟩
    · exact .inr ⟨job, List.mem_append_right _ member, same⟩
  faults job member := by
    obtain member | member := List.mem_append.mp member
    · obtain ⟨same, stored, held, free⟩ := first.faults job member
      exact ⟨same.trans (rest.table.faultJob _ _).symm, rest.keeps _ _ stored held, rest.pins _ held, free⟩
    · obtain ⟨same, stored, held, free⟩ := rest.faults job member
      refine ⟨same, stored, held, Bool.eq_false_iff.mpr fun held => ?_⟩
      cases free.symm.trans (first.pins _ held)
  apart := by
    refine List.pairwise_append.mpr ⟨first.apart, rest.apart, fun job member other later => ?_⟩
    obtain ⟨-, stored, held, -⟩ := first.faults job member
    obtain ⟨-, stored', -, free⟩ := rest.faults other later
    -- The first job's slot was pinned when the second got its own.
    have slots : job.slot ≠ other.slot := by
      intro same
      rw [same] at held
      cases free.symm.trans held
    refine ⟨slots, fun same => slots ?_⟩
    have kept := rest.keeps _ _ stored held
    rw [same, stored'] at kept
    exact (Option.some.inj kept).symm

end Placed

structure Pins (before : NgramRowCache) (ids : List RowId) (after : NgramRowCache) : Prop where
  rows : ∀ id, after.rowPinned id = true ↔ before.rowPinned id = true ∨ id ∈ ids
  counted : after.pinned.count true =
    before.pinned.count true + (ids.toFinset.filter fun id => ¬ before.rowPinned id = true).card

theorem Pins.nil (cache : NgramRowCache) : Pins cache [] cache where
  rows id := by simp
  counted := by simp

theorem Pins.append (first : Pins before ids middle) (rest : Pins middle ids' after) :
    Pins before (ids ++ ids') after where
  rows id := by rw [rest.rows, first.rows, List.mem_append, or_assoc]
  counted := by
    -- An id of both batches is pinned by the first, and counted there.
    have split : ((ids ++ ids').toFinset.filter fun id => ¬ before.rowPinned id = true) =
        (ids.toFinset.filter fun id => ¬ before.rowPinned id = true) ∪
          (ids'.toFinset.filter fun id => ¬ middle.rowPinned id = true) := by
      ext id
      simp only [Finset.mem_filter, Finset.mem_union, List.mem_toFinset, List.mem_append, first.rows]
      tauto
    have disjoint : Disjoint (ids.toFinset.filter fun id => ¬ before.rowPinned id = true)
        (ids'.toFinset.filter fun id => ¬ middle.rowPinned id = true) := by
      refine Finset.disjoint_left.mpr fun id earlier later => ?_
      exact (Finset.mem_filter.mp later).2 <|
        (first.rows id).mpr (.inr (List.mem_toFinset.mp (Finset.mem_filter.mp earlier).1))
    rw [rest.counted, first.counted, split, Finset.card_union_of_disjoint disjoint, Nat.add_assoc]

theorem count_set_true {pinned : List Bool} {position : Nat} (inside : position < pinned.length) :
    (pinned.set position true).count true =
      pinned.count true + (if pinned.getD position false = true then 0 else 1) := by
  have counted := countP_set_add (· == true) pinned position pinned[position] true (List.getElem?_eq_getElem inside)
  rw [List.getD_eq_getElem?_getD, List.getElem?_eq_getElem inside, Option.getD_some, List.count_eq_countP,
    List.count_eq_countP]
  cases held : pinned[position] <;> simp_all

theorem getD_set_true {pinned : List Bool} {position : Nat} (inside : position < pinned.length) (other : Nat) :
    (pinned.set position true).getD other false = true ↔ other = position ∨ pinned.getD other false = true := by
  rw [getD_set]
  by_cases same : other = position
  · simp [same, inside]
  · simp [same]

/-- The row is in the slot and the slot is pinned; every other row that is still mapped is where it was. -/
structure Seats (before : NgramRowCache) (id : RowId) (slot : UInt32) (after : NgramRowCache) : Prop where
  inside : slot.toNat < before.pinned.length
  pinned : after.pinned = before.pinned.set slot.toNat true
  stored : after.map.lookup id = some slot
  held : before.rowPinned id = before.pinned.getD slot.toNat false
  others : ∀ other slot', other ≠ id → after.map.lookup other = some slot' →
    slot' ≠ slot ∧ before.map.lookup other = some slot'
  keeps : ∀ other slot', before.map.lookup other = some slot' →
    before.pinned.getD slot'.toNat false = true → after.map.lookup other = some slot'

namespace Seats

theorem pinned_iff (seats : Seats before id slot after) (other : Nat) :
    after.pinned.getD other false = true ↔ other = slot.toNat ∨ before.pinned.getD other false = true := by
  rw [seats.pinned]
  exact getD_set_true seats.inside other

theorem own (seats : Seats before id slot after) : after.pinned.getD slot.toNat false = true :=
  (seats.pinned_iff _).mpr (.inl rfl)

theorem pins (seats : Seats before id slot after) : Pins before [id] after where
  rows other := by
    rw [rowPinned_iff, rowPinned_iff, List.mem_singleton]
    constructor
    · rintro ⟨slot', stored, held⟩
      by_cases own : other = id
      · exact .inr own
      · obtain ⟨differs, before⟩ := seats.others other slot' own stored
        obtain same | heldBefore := (seats.pinned_iff _).mp held
        · exact absurd (UInt32.toNat_inj.mp same) differs
        · exact .inl ⟨slot', before, heldBefore⟩
    · rintro (⟨slot', stored, held⟩ | rfl)
      · exact ⟨slot', seats.keeps other slot' stored held, (seats.pinned_iff _).mpr (.inr held)⟩
      · exact ⟨slot, seats.stored, seats.own⟩
  counted := by
    rw [seats.pinned, count_set_true seats.inside, List.toFinset_cons, List.toFinset_nil,
      Finset.filter_insert, Finset.filter_empty, seats.held]
    split <;> simp_all

end Seats

theorem hit_placed (consistent : cache.Consistent) (stored : cache.map.lookup id = some slot) (hits : UInt64) :
    let after := { cache with
      hits, refbit := cache.refbit.set slot.toNat true, pinned := cache.pinned.set slot.toNat true }
    Placed cache [id] [slot] [] after ∧ Pins cache [id] after := by
  intro after
  have inRange := consistent.toNat_lt stored
  have row := (consistent.mapped id slot).mp stored
  have seats : Seats cache id slot after :=
    { inside := consistent.pinned.symm ▸ inRange
      pinned := rfl
      stored := stored
      held := by rw [rowPinned, stored]
      others := by
        intro other slot' differs stored'
        refine ⟨?_, stored'⟩
        -- A slot has one row.
        rintro rfl
        exact differs (consistent.injective stored' stored)
      keeps := fun _ _ stored _ => stored }
  have consistentAfter : after.Consistent :=
    { consistent with
      refbit := List.length_set.trans consistent.refbit
      pinned := List.length_set.trans consistent.pinned
      occupied := by
        intro other held
        obtain rfl | before := (seats.pinned_iff other).mp held
        · rw [row.1]
          exact row.2
        · exact consistent.occupied other before }
  refine ⟨?_, seats.pins⟩
  exact {
    consistent := consistentAfter
    table := ⟨rfl, rfl, rfl, rfl, rfl, rfl, rfl, rfl⟩
    located := .cons ⟨stored, seats.own⟩ .nil
    pins := fun other held => (seats.pinned_iff other).mpr (.inr held)
    keeps := seats.keeps
    stays := fun _ _ => .inl
    faults := fun _ member => absurd member List.not_mem_nil
    apart := .nil }

theorem miss_mapped (vacated : Vacated cache slot middle) (other : RowId) (slot' : UInt32) :
    (middle.map.insert id slot).lookup other = some slot' ↔
      (other = id ∧ slot' = slot) ∨ (other ≠ id ∧ slot' ≠ slot ∧ cache.map.lookup other = some slot') := by
  rw [HashMap.lookup_insert_if]
  by_cases own : other = id
  · simp [own, eq_comm]
  · simp [own, vacated.mapped, and_comm]

/-- The map and the slots still name each other once the missing row is in the vacated slot. -/
theorem miss_named (consistent : cache.Consistent) (vacated : Vacated cache slot middle)
    (absent : cache.map.lookup id = none) (real : id ≠ emptyRow) (other : RowId) (slot' : UInt32) :
    (middle.map.insert id slot).lookup other = some slot' ↔
      (cache.slotRow.set slot.toNat id).getD slot'.toNat emptyRow = other ∧ other ≠ emptyRow := by
  have inside : slot.toNat < cache.slotRow.length := consistent.slotRow.symm ▸ vacated.inRange
  rw [miss_mapped vacated, getD_set, consistent.mapped]
  by_cases same : slot' = slot
  · subst same
    simp only [ne_eq, not_true_eq_false, false_and, and_false, or_false, and_true, inside, if_true]
    exact ⟨fun own => ⟨own.symm, own ▸ real⟩, fun own => own.1.symm⟩
  · have apart : slot'.toNat ≠ slot.toNat := fun named => same (UInt32.toNat_inj.mp named)
    simp only [same, apart, and_false, false_or, ne_eq, not_false_eq_true, true_and, false_and, if_false]
    refine ⟨And.right, fun row => ⟨?_, row⟩⟩
    rintro rfl
    cases absent.symm.trans ((consistent.mapped other slot').mpr row)

theorem miss_placed (consistent : cache.Consistent) (vacated : Vacated cache slot middle)
    (absent : cache.map.lookup id = none) (real : id ≠ emptyRow) {hand : Nat} {refbit : List Bool}
    {map : HashMap RowId UInt32} {evictions misses : UInt64}
    (frame : middle = { cache with hand, refbit, map, evictions, misses }) (inRange : hand < cache.slots)
    (sized : refbit.length = cache.slots) :
    let after := { middle with
      map := middle.map.insert id slot
      slotRow := middle.slotRow.set slot.toNat id
      refbit := middle.refbit.set slot.toNat true
      pinned := middle.pinned.set slot.toNat true }
    Placed cache [id] [slot] [after.faultJob id slot] after ∧ Pins cache [id] after := by
  intro after
  have named := miss_named consistent vacated absent real
  have mapped := @miss_mapped _ _ id _ vacated
  have inside : slot.toNat < cache.slotRow.length := consistent.slotRow.symm ▸ vacated.inRange
  subst frame
  -- The vacated slot was not pinned, so every pinned row keeps its place.
  have seats : Seats cache id slot after :=
    { inside := consistent.pinned.symm ▸ vacated.inRange
      pinned := rfl
      stored := (mapped id slot).mpr (.inl ⟨rfl, rfl⟩)
      held := by rw [rowPinned, absent, vacated.free]
      others := by
        intro other slot' differs stored
        obtain ⟨own, -⟩ | ⟨-, before⟩ := (mapped other slot').mp stored
        · exact absurd own differs
        · exact before
      keeps := by
        intro other slot' stored held
        refine (mapped other slot').mpr (.inr ⟨?_, ?_, stored⟩)
        · rintro rfl
          cases absent.symm.trans stored
        · rintro rfl
          cases vacated.free.symm.trans held }
  have consistentAfter : after.Consistent :=
    { slotRow := List.length_set.trans consistent.slotRow
      refbit := List.length_set.trans sized
      pinned := List.length_set.trans consistent.pinned
      hand := inRange
      addressable := consistent.addressable
      stride := consistent.stride
      mapped := named
      occupied := by
        intro other held
        show (cache.slotRow.set slot.toNat id).getD other emptyRow ≠ emptyRow
        rw [getD_set]
        obtain rfl | before := (seats.pinned_iff other).mp held
        · rw [if_pos ⟨rfl, inside⟩]
          exact real
        · split
          · exact real
          · exact consistent.occupied other before }
  refine ⟨?_, seats.pins⟩
  exact {
    consistent := consistentAfter
    table := ⟨rfl, rfl, rfl, rfl, rfl, rfl, rfl, rfl⟩
    located := .cons ⟨seats.stored, seats.own⟩ .nil
    pins := fun other held => (seats.pinned_iff other).mpr (.inr held)
    keeps := seats.keeps
    stays := by
      intro other slot' stored
      obtain ⟨rfl, rfl⟩ | ⟨-, -, before⟩ := (mapped other slot').mp stored
      · exact .inr ⟨_, List.mem_singleton.mpr rfl, rfl, rfl⟩
      · exact .inl before
    faults := by
      intro job member
      cases List.mem_singleton.mp member
      exact ⟨rfl, seats.stored, seats.own, vacated.free⟩
    apart := List.pairwise_singleton _ _ }

theorem ne_emptyRow (inTable : id < cache.rowsTotal) : id ≠ emptyRow := by
  rintro rfl
  have bound := UInt64.toNat_lt cache.rowsTotal
  have less := UInt64.lt_iff_toNat_lt.mp inTable
  have largest : emptyRow.toNat = 18446744073709551615 := rfl
  omega

/-! ## The loop -/

theorem place_placed (consistent : cache.Consistent) (placed : cache.place id = (.ok (slot, jobs), after)) :
    Placed cache [id] [slot] jobs after ∧ Pins cache [id] after ∧
      (id ∈ cache.map → jobs = [] ∧ after.map = cache.map) := by
  simp only [place] at placed
  split at placed
  · cases placed
  next inTable =>
  split at placed
  · next s stored =>
    cases placed
    have hit := hit_placed consistent stored (cache.hits + 1)
    exact ⟨hit.1, hit.2, fun _ => ⟨rfl, rfl⟩⟩
  · next absent =>
    have start : Consistent { cache with misses := cache.misses + 1 } := { consistent with }
    split at placed
    · cases placed
    · next s middle search =>
      cases placed
      obtain ⟨⟨hand, refbit, map, evictions, frame, inRange, sized⟩, found⟩ := victim_cases start search
      obtain ⟨_, ⟨⟩, _⟩ | ⟨_, ⟨⟩, vacated⟩ := found
      have vacated : Vacated cache slot middle := ⟨vacated.inRange, vacated.free, vacated.mapped⟩
      have miss := miss_placed consistent vacated absent (ne_emptyRow (UInt64.not_le.mp inTable)) frame inRange sized
      refine ⟨miss.1, miss.2, fun present => ?_⟩
      rw [← AList.lookup_isSome, absent] at present
      cases present

theorem place_error {error : Error} (consistent : cache.Consistent)
    (placed : cache.place id = (.error error, after)) :
    after.Consistent ∧ SameTable cache after ∧ after.map = cache.map ∧
      (cache.rowsTotal ≤ id ∨
        (cache.map.lookup id = none ∧ ∀ slot < cache.slots, cache.pinned.getD slot false = true)) := by
  simp only [place] at placed
  split at placed
  · next outside =>
    cases placed
    exact ⟨consistent, .refl _, rfl, .inl outside⟩
  split at placed
  · cases placed
  · next absent =>
    have start : Consistent { cache with misses := cache.misses + 1 } := { consistent with }
    split at placed
    · next middle search =>
      cases placed
      obtain ⟨⟨hand, refbit, map, evictions, frame, inRange, sized⟩, found⟩ := victim_cases start search
      obtain ⟨_, _, same, full⟩ | ⟨_, ⟨⟩, _⟩ := found
      refine ⟨?_, ?_, same, .inr ⟨absent, full⟩⟩
      · subst frame
        dsimp only at same
        subst same
        exact { consistent with hand := inRange, refbit := sized }
      · subst frame
        exact ⟨rfl, rfl, rfl, rfl, rfl, rfl, rfl, rfl⟩
    · cases placed

theorem placeAll_placed (consistent : cache.Consistent) (placed : placeAll ids cache = (.ok (slots, jobs), after)) :
    Placed cache ids slots jobs after ∧ Pins cache ids after := by
  induction ids generalizing cache slots jobs with
  | nil =>
    cases placed
    exact ⟨.nil consistent, .nil _⟩
  | cons id rest ih =>
    simp only [placeAll] at placed
    split at placed
    · cases placed
    · next first =>
      split at placed
      · cases placed
      · next later =>
        cases placed
        obtain ⟨first, firstPins, -⟩ := place_placed consistent first
        obtain ⟨later, laterPins⟩ := ih first.consistent later
        exact ⟨first.append later, firstPins.append laterPins⟩

theorem placeAll_hits (consistent : cache.Consistent) (mapped : ∀ id ∈ ids, id ∈ cache.map)
    (placed : placeAll ids cache = (.ok (slots, jobs), after)) : jobs = [] ∧ after.map = cache.map := by
  induction ids generalizing cache slots jobs with
  | nil =>
    cases placed
    exact ⟨rfl, rfl⟩
  | cons id rest ih =>
    simp only [placeAll] at placed
    split at placed
    · cases placed
    · next middle first =>
      split at placed
      · cases placed
      · next later =>
        cases placed
        obtain ⟨first, -, hit⟩ := place_placed consistent first
        obtain ⟨rfl, same⟩ := hit (mapped id List.mem_cons_self)
        have rest := ih first.consistent
          (fun other member => same ▸ mapped other (List.mem_cons_of_mem id member)) later
        exact ⟨rest.1, rest.2.trans same⟩

theorem placeAll_error {error : Error} (placed : placeAll ids cache = (.error error, after)) :
    ∃ earlier id later slots jobs middle, ids = earlier ++ id :: later ∧
      placeAll earlier cache = (.ok (slots, jobs), middle) ∧ middle.place id = (.error error, after) := by
  induction ids generalizing cache with
  | nil => cases placed
  | cons id rest ih =>
    simp only [placeAll] at placed
    split at placed
    · next first =>
      cases placed
      exact ⟨[], id, rest, [], [], cache, rfl, rfl, first⟩
    · next slot jobs middle first =>
      split at placed
      · next failed =>
        cases placed
        obtain ⟨earlier, failing, later, slots, laterJobs, last, rfl, before, there⟩ := ih failed
        refine ⟨id :: earlier, failing, later, slot :: slots, jobs ++ laterJobs, last, rfl, ?_, there⟩
        rw [placeAll, first]
        dsimp only
        rw [before]
      · cases placed

end

end NgramRowCache

end Metrale.Storage
