import Metrale.Scheduler.Rollback
import Metrale.Foundation.Runs

/-! # The ring of snapshots over whole runs (`ssm_decode_ring.rs`)

`rollback.rs` makes two calls at a ring: `record`, with a save behind it that may fail, and `truncate_after`.  Beside the
ring stands what the device holds: for each slot the position whose recurrent state was saved there last.

Two invariants carry the results.  `Owned` holds after every call: no two entries share a slot.  `Cyclic` holds while the
recorded positions rise: the slots of the live entries are consecutive, and the cursor stands right behind the newest. -/

namespace Metrale.Scheduler

namespace SsmDecodeRing

def snapshotPositions (ring : SsmDecodeRing) : List Nat := ring.entries.map (·.1)

def snapshotSlots (ring : SsmDecodeRing) : List Nat := ring.entries.map (·.2)

variable {ring next : SsmDecodeRing} {position slot keepLen : Nat}

theorem record_eq_some (recorded : ring.record position = some (slot, next)) :
    0 < ring.capacity ∧ slot = ring.nextSlot ∧ next =
      { ring with
        nextSlot := (ring.nextSlot + 1) % ring.capacity
        entries := ring.entries.filter (·.2 != ring.nextSlot) ++ [(position, ring.nextSlot)] } := by
  unfold record at recorded
  split at recorded
  · cases recorded
  · next enabled =>
    simp only [Option.some.injEq, Prod.mk.injEq] at recorded
    exact ⟨Nat.pos_of_ne_zero enabled, recorded.1.symm, recorded.2.symm⟩

@[simp] theorem truncateAfter_capacity : (ring.truncateAfter keepLen).capacity = ring.capacity := rfl

@[simp] theorem truncateAfter_entries :
    (ring.truncateAfter keepLen).entries = ring.entries.filter fun entry => decide (entry.1 ≤ keepLen) := rfl

/-! ## One owner for each slot -/

structure Owned (ring : SsmDecodeRing) : Prop where
  distinct : ring.snapshotSlots.Nodup
  inRange : ∀ slot ∈ ring.snapshotSlots, slot < ring.capacity
  cursor : 0 < ring.capacity → ring.nextSlot < ring.capacity

namespace Owned

theorem new (capacity : Nat) : (new capacity).Owned where
  distinct := List.nodup_nil
  inRange := by simp [SsmDecodeRing.new, snapshotSlots]
  cursor := id

theorem length_le (owned : ring.Owned) : ring.entries.length ≤ ring.capacity := by
  have fits : ring.snapshotSlots ⊆ List.range ring.capacity := fun slot live => List.mem_range.mpr (owned.inRange slot live)
  have shorter := (owned.distinct.subperm fits).length_le
  simpa [snapshotSlots] using shorter

theorem filter_slots {kept : Nat × Nat → Bool} {slot : Nat} (live : slot ∈ (ring.entries.filter kept).map (·.2)) :
    slot ∈ ring.snapshotSlots :=
  (List.filter_sublist.map _).subset live

theorem record (owned : ring.Owned) (recorded : ring.record position = some (slot, next)) : next.Owned := by
  obtain ⟨enabled, rfl, rfl⟩ := record_eq_some recorded
  have apart : (ring.entries.filter (·.2 != ring.nextSlot)).map (·.2) |>.Nodup :=
    owned.distinct.sublist (List.filter_sublist.map _)
  constructor
  · simp only [snapshotSlots, List.map_append, List.map_cons, List.map_nil]
    refine apart.append (List.nodup_singleton _) ?_
    -- the entry that had the slot under the cursor is gone
    simp
  · intro slot live
    simp only [snapshotSlots, List.map_append, List.map_cons, List.map_nil, List.mem_append, List.mem_singleton] at live
    cases live with
    | inl old => exact owned.inRange slot (filter_slots old)
    | inr new => exact new ▸ owned.cursor enabled
  · exact fun _ => Nat.mod_lt _ enabled

theorem truncateAfter (owned : ring.Owned) (keepLen : Nat) : (ring.truncateAfter keepLen).Owned where
  distinct := owned.distinct.sublist (List.filter_sublist.map _)
  inRange slot live := owned.inRange slot (filter_slots live)
  cursor enabled := by
    simp only [SsmDecodeRing.truncateAfter]
    split
    · exact Nat.mod_lt _ enabled
    · exact (if_pos enabled).trans_lt enabled

end Owned

/-! ## Consecutive slots -/

/-- From the oldest entry on each takes the slot behind the last one, and the cursor is next. -/
def Cyclic (ring : SsmDecodeRing) : Prop :=
  ∃ oldest, ring.snapshotSlots = (List.range' oldest ring.entries.length).map (· % ring.capacity) ∧
    ring.nextSlot = (oldest + ring.entries.length) % ring.capacity

def EvictsOldest (ring : SsmDecodeRing) : Prop :=
  ∀ position slot next, ring.record position = some (slot, next) →
    next.entries =
      (if ring.entries.length = ring.capacity then ring.entries.tail else ring.entries) ++ [(position, slot)]

namespace Cyclic

theorem new (capacity : Nat) : (new capacity).Cyclic := ⟨0, rfl, (Nat.zero_mod _).symm⟩

theorem apart {oldest capacity first second : Nat} (less : first < second) (short : second < first + capacity) :
    (oldest + first) % capacity ≠ (oldest + second) % capacity := by
  intro same
  have divides := (Nat.modEq_iff_dvd' (by omega : oldest + first ≤ oldest + second)).mp same
  have := Nat.le_of_dvd (by omega) divides
  omega

theorem evictsOldest (cyclic : ring.Cyclic) (owned : ring.Owned) : ring.EvictsOldest := by
  intro position slot next recorded
  obtain ⟨enabled, rfl, rfl⟩ := record_eq_some recorded
  obtain ⟨oldest, slots, cursor⟩ := cyclic
  simp only [List.append_left_inj]
  split
  · next full =>
    -- all slots are taken, and the cursor has come round to the oldest entry
    cases entries : ring.entries with
    | nil => simp [entries] at full; omega
    | cons head rest =>
      simp only [snapshotSlots, entries, List.map_cons, List.length_cons, List.range'_succ, List.cons.injEq] at slots
      simp only [entries, List.length_cons] at full
      have atHead : ring.nextSlot = head.2 := by rw [cursor, slots.1, entries, List.length_cons, full, Nat.add_mod_right]
      have distinct := owned.distinct
      simp only [snapshotSlots, entries, List.map_cons, List.nodup_cons, List.mem_map, not_exists, not_and] at distinct
      simp only [List.tail_cons, atHead, List.filter_cons, bne_self_eq_false, Bool.false_eq_true, if_false]
      exact List.filter_eq_self.mpr fun entry live => bne_iff_ne.mpr (distinct.1 entry live)
  · next spare =>
    have room : ring.entries.length < ring.capacity := Nat.lt_of_le_of_ne owned.length_le spare
    refine List.filter_eq_self.mpr fun entry live => bne_iff_ne.mpr ?_
    have isSlot : entry.2 ∈ ring.snapshotSlots := List.mem_map_of_mem live
    rw [slots, List.mem_map] at isSlot
    obtain ⟨place, within, isSlot⟩ := isSlot
    rw [List.mem_range'_1] at within
    obtain ⟨steps, rfl⟩ := Nat.exists_eq_add_of_le within.1
    rw [← isSlot, cursor]
    exact apart (by omega) (by omega)

theorem record (cyclic : ring.Cyclic) (owned : ring.Owned) (recorded : ring.record position = some (slot, next)) :
    next.Cyclic := by
  have entries := evictsOldest cyclic owned position slot next recorded
  obtain ⟨enabled, rfl, rfl⟩ := record_eq_some recorded
  obtain ⟨oldest, slots, cursor⟩ := cyclic
  simp only at entries
  have capped := owned.length_le
  unfold Cyclic snapshotSlots
  simp only [entries]
  split
  · next full =>
    have tailSlots : ring.entries.tail.map (·.2) = (List.range' (oldest + 1) (ring.capacity - 1)).map (· % ring.capacity) := by
      rw [List.map_tail]
      simp only [snapshotSlots] at slots
      rw [slots, full, ← List.map_tail, List.tail_range']
    have length : (ring.entries.tail ++ [(position, ring.nextSlot)]).length = ring.capacity - 1 + 1 := by simp [full]
    refine ⟨oldest + 1, ?_, ?_⟩
    · rw [length, List.range'_1_concat, List.map_append, List.map_append, tailSlots, cursor, full]
      simp only [List.map_cons, List.map_nil]
      congr 3
      omega
    · rw [length, cursor, full, Nat.mod_add_mod]
      congr 1
      omega
  · refine ⟨oldest, ?_, ?_⟩
    · simp only [snapshotSlots] at slots
      rw [List.length_append, List.length_singleton, List.range'_1_concat, List.map_append, List.map_append, slots, cursor]
      rfl
    · rw [List.length_append, List.length_singleton, cursor, Nat.mod_add_mod, Nat.add_assoc]

theorem kept_front (rising : ring.snapshotPositions.Pairwise (· < ·)) (keepLen : Nat) :
    (ring.entries.filter fun entry => decide (entry.1 ≤ keepLen)) <+: ring.entries := by
  simp only [snapshotPositions] at rising
  generalize ring.entries = entries at rising
  induction entries with
  | nil => simp
  | cons entry entries ih =>
    simp only [List.map_cons, List.pairwise_cons, List.mem_map, forall_exists_index, and_imp, forall_apply_eq_imp_iff₂] at rising
    by_cases kept : entry.1 ≤ keepLen
    · rw [List.filter_cons_of_pos (by simpa using kept)]
      exact List.prefix_cons_inj entry |>.mpr (ih rising.2)
    · have none : (entries.filter fun entry => decide (entry.1 ≤ keepLen)) = [] := by
        simp only [List.filter_eq_nil_iff, decide_eq_true_eq]
        intro later live within
        have := rising.1 later live
        omega
      rw [List.filter_cons_of_neg (by simpa using kept), none]
      exact List.nil_prefix

theorem truncateAfter (cyclic : ring.Cyclic) (rising : ring.snapshotPositions.Pairwise (· < ·)) (keepLen : Nat) :
    (ring.truncateAfter keepLen).Cyclic := by
  obtain ⟨rest, split⟩ := kept_front rising keepLen
  obtain ⟨oldest, slots, cursor⟩ := cyclic
  have keptSlots : (ring.truncateAfter keepLen).snapshotSlots =
      (List.range' oldest (ring.truncateAfter keepLen).entries.length).map (· % ring.capacity) := by
    simp only [snapshotSlots] at slots
    rw [← split, List.map_append, List.length_append, ← List.range'_append_1, List.map_append] at slots
    exact (List.append_inj slots (by simp)).1
  cases kept : (ring.truncateAfter keepLen).entries.getLast? with
  | none =>
    have empty := List.getLast?_eq_none_iff.mp kept
    have cursorAt : (ring.truncateAfter keepLen).nextSlot = if 0 < ring.capacity then 0 else ring.nextSlot := by
      simp only [truncateAfter_entries] at kept
      simp only [SsmDecodeRing.truncateAfter, kept]
    by_cases enabled : 0 < ring.capacity
    · refine ⟨0, by simp only [snapshotSlots, empty]; rfl, ?_⟩
      rw [cursorAt, if_pos enabled, empty, List.length_nil, Nat.zero_mod]
    · refine ⟨ring.nextSlot, by simp only [snapshotSlots, empty]; rfl, ?_⟩
      rw [cursorAt, if_neg enabled, empty, truncateAfter_capacity, Nat.eq_zero_of_not_pos enabled, Nat.mod_zero]
      rfl
  | some newest =>
    refine ⟨oldest, keptSlots, ?_⟩
    have cursorAt : (ring.truncateAfter keepLen).nextSlot = (newest.2 + 1) % ring.capacity := by
      simp only [truncateAfter_entries] at kept
      simp only [SsmDecodeRing.truncateAfter, kept]
    have newestSlot : (ring.truncateAfter keepLen).snapshotSlots.getLast? = some newest.2 := by
      rw [snapshotSlots, List.getLast?_map, kept]
      rfl
    rw [keptSlots, List.getLast?_map, List.getLast?_range'] at newestSlot
    split at newestSlot
    · cases newestSlot
    · simp only [Option.map_some, Option.some.injEq] at newestSlot
      rw [cursorAt, ← newestSlot, Nat.mod_add_mod, truncateAfter_capacity]
      congr 1
      omega

end Cyclic

structure Rising (ring : SsmDecodeRing) : Prop where
  positions : ring.snapshotPositions.Pairwise (· < ·)
  cyclic : ring.Cyclic

namespace Rising

theorem new (capacity : Nat) : (new capacity).Rising := ⟨List.Pairwise.nil, .new capacity⟩

theorem record (rising : ring.Rising) (owned : ring.Owned) (above : ∀ earlier ∈ ring.snapshotPositions, earlier < position)
    (recorded : ring.record position = some (slot, next)) : next.Rising := by
  refine ⟨?_, rising.cyclic.record owned recorded⟩
  obtain ⟨enabled, rfl, rfl⟩ := record_eq_some recorded
  have kept : (ring.entries.filter (·.2 != ring.nextSlot)).map (·.1) |>.Sublist ring.snapshotPositions := List.filter_sublist.map _
  simp only [snapshotPositions, List.map_append, List.map_cons, List.map_nil]
  apply List.pairwise_append.mpr
  refine ⟨rising.positions.sublist kept, List.pairwise_singleton _ _, fun earlier live later new => ?_⟩
  rw [List.mem_singleton.mp new]
  exact above earlier (kept.subset live)

theorem truncateAfter (rising : ring.Rising) (keepLen : Nat) : (ring.truncateAfter keepLen).Rising where
  positions := rising.positions.sublist (List.filter_sublist.map _)
  cyclic := rising.cyclic.truncateAfter rising.positions keepLen

end Rising

end SsmDecodeRing

/-! ## Runs -/

/-- A call of `rollback.rs` at the ring; behind `record` stands what the device answers to the save. -/
inductive RingCall where
  | record (tokenPosition : Nat) (saved : Bool)
  | truncateAfter (keepLen : Nat)

/-- The ring, and for each slot of the device the position whose state it holds. -/
structure RingState where
  ring : SsmDecodeRing
  saved : Nat → Option Nat

namespace RingState

def new (capacity : Nat) : RingState := ⟨.new capacity, fun _ => none⟩

/-- A save that fails may have written part of the slot, and its entry is taken back. -/
def call (s : RingState) : RingCall → RingState
  | .record tokenPosition true =>
    match s.ring.record tokenPosition with
    | none => s
    | some (slot, ring) => ⟨ring, Function.update s.saved slot (some tokenPosition)⟩
  | .record tokenPosition false =>
    match s.ring.record tokenPosition with
    | none => s
    | some (slot, ring) => ⟨ring.truncateAfter (tokenPosition - 1), Function.update s.saved slot none⟩
  | .truncateAfter keepLen => { s with ring := s.ring.truncateAfter keepLen }

variable {s : RingState} {calls : List RingCall} {capacity : Nat}

theorem run_keeps {Good : RingState → Prop} {guard : RingCall → Prop} (good : Good s) (guarded : ∀ call ∈ calls, guard call)
    (kept : ∀ s call, Good s → guard call → Good (s.call call)) : Good (calls.foldl call s) := by
  induction calls generalizing s with
  | nil => exact good
  | cons first calls ih =>
    simp only [List.mem_cons, forall_eq_or_imp] at guarded
    exact ih (kept s first good guarded.1) guarded.2

/-! ### Every run -/

/-- The slots belong to one entry each, and the capacity is the one the ring was made with. -/
structure Tidy (capacity : Nat) (s : RingState) : Prop where
  owned : s.ring.Owned
  sized : s.ring.capacity = capacity

theorem Tidy.call (tidy : Tidy capacity s) (made : RingCall) : Tidy capacity (s.call made) := by
  cases made with
  | truncateAfter keepLen => exact ⟨tidy.owned.truncateAfter keepLen, tidy.sized⟩
  | record tokenPosition saved =>
    cases recorded : s.ring.record tokenPosition with
    | none => cases saved <;> simpa only [RingState.call, recorded] using tidy
    | some found =>
      have owned := tidy.owned.record recorded
      have sized : found.2.capacity = capacity := by
        obtain ⟨-, -, same⟩ := SsmDecodeRing.record_eq_some recorded
        rw [same, ← tidy.sized]
      cases saved <;> simp only [RingState.call, recorded]
      · exact ⟨owned.truncateAfter _, sized⟩
      · exact ⟨owned, sized⟩

theorem tidy_run (capacity : Nat) (calls : List RingCall) : Tidy capacity (calls.foldl RingState.call (new capacity)) :=
  run_keeps ⟨.new capacity, rfl⟩ (fun _ _ => trivial) fun _ call tidy _ => tidy.call call

/-! ### What the slots hold -/

def Holds (s : RingState) : Prop := ∀ entry ∈ s.ring.entries, s.saved entry.2 = some entry.1

/-- Whoever fails to save has a position before its own to go back to. -/
def Retractable : RingCall → Prop
  | .record tokenPosition saved => saved = true ∨ 0 < tokenPosition
  | .truncateAfter _ => True

theorem Holds.call (holds : Holds s) (made : RingCall) (retractable : Retractable made) : Holds (s.call made) := by
  cases made with
  | truncateAfter keepLen =>
    intro entry live
    exact holds entry (List.mem_filter.mp live).1
  | record tokenPosition saved =>
    cases recorded : s.ring.record tokenPosition with
    | none => cases saved <;> simpa only [RingState.call, recorded] using holds
    | some found =>
      obtain ⟨slot, next⟩ := found
      obtain ⟨enabled, rfl, rfl⟩ := SsmDecodeRing.record_eq_some recorded
      -- an entry that stays is in another slot than the one under the cursor
      have stays (content : Option Nat) (entry : Nat × Nat) (live : entry ∈ s.ring.entries.filter (·.2 != s.ring.nextSlot)) :
          Function.update s.saved s.ring.nextSlot content entry.2 = some entry.1 := by
        obtain ⟨live, other⟩ := List.mem_filter.mp live
        rw [Function.update_of_ne (bne_iff_ne.mp other)]
        exact holds entry live
      intro entry live
      cases saved with
      | true =>
        simp only [RingState.call, recorded, List.mem_append, List.mem_singleton] at live ⊢
        cases live with
        | inl old => exact stays _ entry old
        | inr new => rw [new, Function.update_self]
      | false =>
        simp only [RingState.call, recorded, SsmDecodeRing.truncateAfter_entries, List.mem_filter, List.mem_append,
          List.mem_singleton, decide_eq_true_eq] at live ⊢
        obtain ⟨old | new, within⟩ := live
        · exact stays _ entry (List.mem_filter.mpr old)
        · -- the new entry lies behind the position that is kept
          have later : 0 < tokenPosition := retractable.resolve_left Bool.false_ne_true
          rw [new] at within
          omega

/-! ### Rising positions -/

def Ahead (s : RingState) : RingCall → Prop
  | .record tokenPosition _ => ∀ earlier ∈ s.ring.snapshotPositions, earlier < tokenPosition
  | .truncateAfter _ => True

/-- Every call of the run is ahead where it is made. -/
def AllAhead : RingState → List RingCall → Prop
  | _, [] => True
  | s, made :: calls => s.Ahead made ∧ AllAhead (s.call made) calls

theorem rising_call (rising : s.ring.Rising) (owned : s.ring.Owned) (made : RingCall) (ahead : s.Ahead made) :
    (s.call made).ring.Rising := by
  cases made with
  | truncateAfter keepLen => exact rising.truncateAfter keepLen
  | record tokenPosition saved =>
    cases recorded : s.ring.record tokenPosition with
    | none => cases saved <;> simpa only [RingState.call, recorded] using rising
    | some found =>
      have next := rising.record owned ahead recorded
      cases saved <;> simp only [RingState.call, recorded]
      · exact next.truncateAfter _
      · exact next

theorem rising_run (rising : s.ring.Rising) (tidy : Tidy capacity s) (ahead : AllAhead s calls) :
    (calls.foldl RingState.call s).ring.Rising := by
  induction calls generalizing s with
  | nil => exact rising
  | cons made calls ih =>
    exact ih (rising_call rising tidy.owned made ahead.1) (tidy.call made) ahead.2

/-- After every run the slots of the live entries are distinct; they hold what was saved at the entries' positions
unless a save at position 0 fails; and while each recorded position is behind the live ones the positions rise and
only the oldest entry of a full ring is evicted. -/
theorem ring_sound (capacity : Nat) (calls : List RingCall) :
    let s := calls.foldl RingState.call (new capacity)
    s.ring.entries.length ≤ capacity ∧ s.ring.snapshotSlots.Nodup ∧ ((∀ made ∈ calls, Retractable made) → Holds s) ∧
      (AllAhead (new capacity) calls → s.ring.snapshotPositions.Pairwise (· < ·) ∧ s.ring.EvictsOldest) := by
  intro s
  have tidy := tidy_run capacity calls
  refine ⟨tidy.sized ▸ tidy.owned.length_le, tidy.owned.distinct, fun retractable => ?_, fun ahead => ?_⟩
  · have empty : Holds (new capacity) := fun entry live => absurd live List.not_mem_nil
    exact run_keeps empty retractable fun _ made holds retractable => holds.call made retractable
  · have rising := rising_run (.new capacity) ⟨.new capacity, rfl⟩ ahead
    exact ⟨rising.positions, rising.cyclic.evictsOldest tidy.owned⟩

/-- Two records at one position leave two entries at it. -/
theorem record_repeats : ¬ ∀ (capacity : Nat) (calls : List RingCall),
    (calls.foldl RingState.call (new capacity)).ring.snapshotPositions.Pairwise (· < ·) := by
  intro always
  have twice := always 2 [.record 5 true, .record 5 true]
  revert twice
  decide

end RingState

end Metrale.Scheduler
