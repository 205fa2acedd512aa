import Metrale.Engine.StateSlots
import Metrale.Foundation.IndexedSums

/-! # Slot ownership through compaction

A slot is owned by the sequence whose guard holds it.  A sequence that is being retired owns its slot until a
live one is moved into it; it is to be detached then.  `compact_sequence` keeps index, guard and free list
together on every exit but one: the index has moved when the wait for the copies fails, and the guard has
not. -/

namespace Metrale.Engine

open Metrale.Foundation

/-- The pool, the live sequences, and the sequences that are being retired. -/
structure StateSlots where
  pool : SsmStatePool
  live : List SlottedSequence
  retired : List SlottedSequence

def SlottedSequence.owns (slot : Nat) (seq : SlottedSequence) : Bool :=
  seq.ssmSlot.bind SlotGuard.idx == some slot

def SlottedSequence.Indexed (seq : SlottedSequence) : Prop := seq.ssmSlot = some ⟨some seq.slotIdx⟩

theorem SlottedSequence.Indexed.owns_iff {seq : SlottedSequence} (indexed : seq.Indexed) {slot : Nat} :
    seq.owns slot = true ↔ seq.slotIdx = slot := by
  rw [owns, indexed]
  exact beq_iff_eq.trans Option.some_inj

namespace StateSlots

open SlottedSequence

variable {slots : StateSlots} {seq : SlottedSequence} {id newSlot slot : Nat} {linearAttention : Nat → Bool}
  {gpu : GpuBackend}

def liveOwners (slots : StateSlots) (slot : Nat) : Nat := slots.live.countP (owns slot)

def retiredOwners (slots : StateSlots) (slot : Nat) : Nat := slots.retired.countP (owns slot)

structure Exclusive (slots : StateSlots) : Prop where
  indexed : ∀ seq ∈ slots.live, seq.Indexed
  conserved : ∀ slot, slots.pool.freeSlots.count slot + slots.liveOwners slot + slots.retiredOwners slot =
    if slot < slots.pool.maxSlots then 1 else 0

/-- The same on the return of a call that may have moved a live sequence into a retired one's slot. -/
structure Owned (slots : StateSlots) : Prop where
  indexed : ∀ seq ∈ slots.live, seq.Indexed
  liveOnce : ∀ slot, slots.liveOwners slot ≤ 1
  conserved : ∀ slot < slots.pool.maxSlots, slots.pool.freeSlots.count slot + slots.liveOwners slot +
    (if slots.liveOwners slot = 0 then slots.retiredOwners slot else 0) = 1

theorem Exclusive.liveOnce (exclusive : slots.Exclusive) (slot : Nat) : slots.liveOwners slot ≤ 1 := by
  have total := exclusive.conserved slot
  split at total <;> omega

theorem Exclusive.owned (exclusive : slots.Exclusive) : slots.Owned where
  indexed := exclusive.indexed
  liveOnce := exclusive.liveOnce
  conserved slot inPool := by
    have total := exclusive.conserved slot
    rw [if_pos inPool] at total
    split <;> omega

/-- `compact_sequence` on the live sequence `id`. -/
def compactSequence (slots : StateSlots) (linearAttention : Nat → Bool) (gpu : GpuBackend) (id : Nat)
    (seq : SlottedSequence) (newSlot : Nat) : Except GpuError Unit × StateSlots :=
  let (answer, moved, pool) := seq.compactSequence slots.pool linearAttention gpu newSlot
  (answer, { slots with pool, live := slots.live.set id moved })

/-- What is left of the retired sequence `id` when its slot has been taken over. -/
def detachSlotForReuse (slots : StateSlots) (id : Nat) : StateSlots :=
  { slots with retired := slots.retired.modify id SlottedSequence.detachSlotForReuse }

theorem compactSequence_snd (slots : StateSlots) (linearAttention : Nat → Bool) (gpu : GpuBackend) (id : Nat)
    (seq : SlottedSequence) (newSlot : Nat) :
    (slots.compactSequence linearAttention gpu id seq newSlot).2 =
      { slots with
        pool := (seq.compactSequence slots.pool linearAttention gpu newSlot).2.2
        live := slots.live.set id (seq.compactSequence slots.pool linearAttention gpu newSlot).2.1 } := rfl

/-! ## One call -/

def movedIndex (pool : SsmStatePool) (linearAttention : Nat → Bool) (newSlot : Nat) (seq : SlottedSequence) :
    SlottedSequence :=
  { seq with layerStates := repointLayers pool linearAttention newSlot 0 0 seq.layerStates, slotIdx := newSlot }

def migrated (pool : SsmStatePool) (linearAttention : Nat → Bool) (newSlot : Nat) (seq : SlottedSequence) :
    SlottedSequence :=
  { movedIndex pool linearAttention newSlot seq with ssmSlot := some ⟨some newSlot⟩ }

theorem migrated_owns (pool : SsmStatePool) (linearAttention : Nat → Bool) (newSlot : Nat) (seq : SlottedSequence)
    (slot : Nat) : (migrated pool linearAttention newSlot seq).owns slot = true ↔ newSlot = slot := by
  have indexed : (migrated pool linearAttention newSlot seq).Indexed := rfl
  exact indexed.owns_iff

/-- The move is begun: the slots differ, and neither the flush nor a copy fails. -/
structure Moves (pool : SsmStatePool) (gpu : GpuBackend) (oldSlot newSlot : Nat) : Prop where
  differs : oldSlot ≠ newSlot
  flushed : gpu.gdnCarryFlush = .ok ()
  copied : pool.copySlot oldSlot newSlot gpu = .ok ()

/-- A call that does not begin the move changes nothing, and one that does waits for its copies. -/
theorem compactSequence_cases (slots : StateSlots) (linearAttention : Nat → Bool) (gpu : GpuBackend) (newSlot : Nat)
    (indexed : seq.Indexed) :
    (¬ Moves slots.pool gpu seq.slotIdx newSlot ∧
      (seq.compactSequence slots.pool linearAttention gpu newSlot).2 = (seq, slots.pool)) ∨
    (Moves slots.pool gpu seq.slotIdx newSlot ∧ gpu.synchronize ≠ .ok () ∧
      (seq.compactSequence slots.pool linearAttention gpu newSlot).2 =
        (movedIndex slots.pool linearAttention newSlot seq, slots.pool)) ∨
    (Moves slots.pool gpu seq.slotIdx newSlot ∧ gpu.synchronize = .ok () ∧
      (seq.compactSequence slots.pool linearAttention gpu newSlot).2 =
        (migrated slots.pool linearAttention newSlot seq,
          (slots.pool.claimSpecific newSlot).2.releaseSlot seq.slotIdx)) := by
  simp only [SlottedSequence.compactSequence]
  cases flushed : gpu.gdnCarryFlush with
  | error error =>
    refine .inl ⟨fun moves => ?_, rfl⟩
    rw [moves.flushed] at flushed
    cases flushed
  | ok =>
    simp only [compactSequenceDispatch]
    by_cases same : seq.slotIdx = newSlot
    · rw [if_pos same]
      exact .inl ⟨fun moves => moves.differs same, rfl⟩
    rw [if_neg same]
    cases copied : slots.pool.copySlot seq.slotIdx newSlot gpu with
    | error error =>
      refine .inl ⟨fun moves => ?_, rfl⟩
      rw [moves.copied] at copied
      cases copied
    | ok =>
      have moves : Moves slots.pool gpu seq.slotIdx newSlot := ⟨same, flushed, copied⟩
      cases waited : gpu.synchronize with
      | error error => exact .inr (.inl ⟨moves, nofun, rfl⟩)
      | ok =>
        refine .inr (.inr ⟨moves, rfl, ?_⟩)
        rw [indexed]
        rfl

theorem count_claimSpecific (pool : SsmStatePool) (newSlot slot : Nat) :
    (pool.claimSpecific newSlot).2.freeSlots.count slot =
      if slot = newSlot then pool.freeSlots.count newSlot - 1 else pool.freeSlots.count slot := by
  simp only [SsmStatePool.claimSpecific]
  split
  · next position found =>
    obtain ⟨bound, here, -⟩ := List.findIdx?_eq_some_iff_getElem.mp found
    have same : pool.freeSlots[position] = newSlot := eq_of_beq here
    have total := (swapRemove_perm (List.getElem?_eq_getElem bound)).count_eq slot
    rw [List.count_cons, same] at total
    dsimp only
    by_cases own : slot = newSlot
    · subst own
      rw [if_pos rfl]
      rw [if_pos (beq_self_eq_true slot)] at total
      omega
    · rw [if_neg own]
      rw [if_neg fun equal => own (eq_of_beq equal).symm] at total
      exact total
  · next absent =>
    split
    · next own =>
      subst own
      have none : pool.freeSlots.count slot = 0 := by
        rw [List.count_eq_zero]
        intro member
        have differs := List.findIdx?_eq_none_iff.mp absent slot member
        exact absurd (beq_self_eq_true slot) (Bool.eq_false_iff.mp differs)
      rw [none]
    · rfl

theorem liveOwners_set (stored : slots.live[id]? = some seq) (moved : SlottedSequence) (pool : SsmStatePool)
    (slot : Nat) :
    liveOwners { slots with pool, live := slots.live.set id moved } slot +
        (if seq.owns slot then 1 else 0) = slots.liveOwners slot + (if moved.owns slot then 1 else 0) :=
  countP_set_add (owns slot) slots.live id seq moved stored

theorem liveOwners_others (indexed : ∀ seq ∈ slots.live, seq.Indexed) (stored : slots.live[id]? = some seq)
    (differs : seq.slotIdx ≠ newSlot) :
    slots.liveOwners newSlot = 0 ↔
      ∀ other seq', other ≠ id → slots.live[other]? = some seq' → seq'.slotIdx ≠ newSlot := by
  rw [liveOwners, List.countP_eq_zero]
  constructor
  · intro unowned other seq' _ stored' same
    have member := List.mem_of_getElem? stored'
    exact unowned seq' member ((indexed seq' member).owns_iff.mpr same)
  · intro others seq' member owned
    have same := (indexed seq' member).owns_iff.mp owned
    obtain ⟨other, stored'⟩ := List.getElem?_of_mem member
    by_cases own : other = id
    · subst own
      cases stored.symm.trans stored'
      exact differs same
    · exact others other seq' own stored' same

def afterMove (slots : StateSlots) (linearAttention : Nat → Bool) (id : Nat) (seq : SlottedSequence)
    (newSlot : Nat) : StateSlots :=
  { slots with
    pool := (slots.pool.claimSpecific newSlot).2.releaseSlot seq.slotIdx
    live := slots.live.set id (migrated slots.pool linearAttention newSlot seq) }

theorem afterMove_liveOwners (linearAttention : Nat → Bool) (newSlot : Nat) (indexed : seq.Indexed) (stored : slots.live[id]? = some seq) (slot : Nat) :
    (slots.afterMove linearAttention id seq newSlot).liveOwners slot + (if seq.slotIdx = slot then 1 else 0) =
      slots.liveOwners slot + (if newSlot = slot then 1 else 0) := by
  have total := liveOwners_set stored (migrated slots.pool linearAttention newSlot seq)
    ((slots.pool.claimSpecific newSlot).2.releaseSlot seq.slotIdx) slot
  simp only [indexed.owns_iff, migrated_owns] at total
  exact total

theorem afterMove_freeSlots (slots : StateSlots) (linearAttention : Nat → Bool) (id : Nat) (seq : SlottedSequence)
    (newSlot slot : Nat) :
    (slots.afterMove linearAttention id seq newSlot).pool.freeSlots.count slot =
      (if slot = newSlot then slots.pool.freeSlots.count newSlot - 1 else slots.pool.freeSlots.count slot) +
      (if seq.slotIdx = slot then 1 else 0) := by
  rw [afterMove, SsmStatePool.releaseSlot, List.count_append, count_claimSpecific, List.count_singleton]
  simp only [beq_iff_eq]

theorem afterMove_maxSlots (slots : StateSlots) (linearAttention : Nat → Bool) (id : Nat) (seq : SlottedSequence)
    (newSlot : Nat) :
    (slots.afterMove linearAttention id seq newSlot).pool.maxSlots = slots.pool.maxSlots := by
  simp only [afterMove, SsmStatePool.releaseSlot, SsmStatePool.claimSpecific]
  split <;> rfl

theorem afterMove_indexed (indexed : ∀ seq ∈ slots.live, seq.Indexed) :
    ∀ seq' ∈ (slots.afterMove linearAttention id seq newSlot).live, seq'.Indexed := by
  intro other member
  obtain member | rfl := List.mem_or_eq_of_mem_set member
  · exact indexed other member
  · rfl

theorem afterMove_owned (exclusive : slots.Exclusive) (stored : slots.live[id]? = some seq)
    (differs : seq.slotIdx ≠ newSlot) (unowned : slots.liveOwners newSlot = 0) :
    (slots.afterMove linearAttention id seq newSlot).Owned := by
  have before := exclusive.indexed seq (List.mem_of_getElem? stored)
  refine ⟨afterMove_indexed exclusive.indexed, fun slot => ?_, fun slot inPool => ?_⟩
  · have total := afterMove_liveOwners linearAttention newSlot before stored slot
    have once := exclusive.liveOnce slot
    by_cases target : newSlot = slot
    · subst target
      rw [unowned, if_pos rfl] at total
      omega
    · rw [if_neg target] at total
      omega
  · rw [afterMove_maxSlots] at inPool
    have total := afterMove_liveOwners linearAttention newSlot before stored slot
    have conserved := exclusive.conserved slot
    rw [if_pos inPool] at conserved
    rw [afterMove_freeSlots]
    have still : (slots.afterMove linearAttention id seq newSlot).retiredOwners slot = slots.retiredOwners slot := rfl
    rw [still]
    generalize (slots.afterMove linearAttention id seq newSlot).liveOwners slot = after at total ⊢
    by_cases target : slot = newSlot
    · subst target
      rw [if_neg differs, if_pos rfl, unowned] at total
      rw [if_pos rfl, if_neg differs, if_neg (by omega)]
      omega
    · rw [if_neg target]
      rw [if_neg (Ne.symm target)] at total
      by_cases source : seq.slotIdx = slot
      · rw [if_pos source] at total ⊢
        split <;> omega
      · rw [if_neg source] at total ⊢
        split <;> omega

/-- On the return of `compact_sequence`, index, guards and free list agree exactly if a move that is begun has
its copies waited for, and goes to a slot that no other live sequence has. -/
theorem compactSequence_owned_iff (exclusive : slots.Exclusive) (stored : slots.live[id]? = some seq)
    (linearAttention : Nat → Bool) (gpu : GpuBackend) (newSlot : Nat) :
    (slots.compactSequence linearAttention gpu id seq newSlot).2.Owned ↔
      (Moves slots.pool gpu seq.slotIdx newSlot → gpu.synchronize = .ok () ∧
        ∀ other seq', other ≠ id → slots.live[other]? = some seq' → seq'.slotIdx ≠ newSlot) := by
  have bound := (List.getElem?_eq_some_iff.mp stored).1
  have indexed := exclusive.indexed seq (List.mem_of_getElem? stored)
  rw [compactSequence_snd]
  obtain ⟨still, result⟩ | ⟨moves, failed, result⟩ | ⟨moves, waited, result⟩ :=
    compactSequence_cases slots linearAttention gpu newSlot indexed
  · rw [result]
    have same : slots.live.set id seq = slots.live := by
      rw [← (List.getElem?_eq_some_iff.mp stored).2, List.set_getElem_self]
    rw [same]
    exact iff_of_true exclusive.owned fun moves => absurd moves still
  · rw [result]
    refine iff_of_false (fun owned => ?_) fun kept => failed (kept moves).1
    have member : movedIndex slots.pool linearAttention newSlot seq ∈
        slots.live.set id (movedIndex slots.pool linearAttention newSlot seq) := List.mem_set bound _
    have guard : seq.ssmSlot = some ⟨some newSlot⟩ := owned.indexed _ member
    rw [indexed] at guard
    cases guard
    exact moves.differs rfl
  · rw [result]
    show (slots.afterMove linearAttention id seq newSlot).Owned ↔ _
    have others := liveOwners_others exclusive.indexed stored moves.differs
    constructor
    · intro owned _
      refine ⟨waited, others.mp ?_⟩
      have total := afterMove_liveOwners linearAttention newSlot indexed stored newSlot
      rw [if_pos rfl, if_neg moves.differs] at total
      have once := owned.liveOnce newSlot
      omega
    · intro kept
      exact afterMove_owned exclusive stored moves.differs (others.mpr (kept moves).2)

/-- Detaching the retired sequence whose slot the move took gives every slot its one owner again. -/
theorem afterMove_detachSlotForReuse (exclusive : slots.Exclusive) (stored : slots.live[id]? = some seq)
    (differs : seq.slotIdx ≠ newSlot) {donorId : Nat} {donor : SlottedSequence}
    (retiring : slots.retired[donorId]? = some donor) (donated : donor.owns newSlot = true) :
    ((slots.afterMove linearAttention id seq newSlot).detachSlotForReuse donorId).Exclusive := by
  have before := exclusive.indexed seq (List.mem_of_getElem? stored)
  refine ⟨afterMove_indexed exclusive.indexed, fun slot => ?_⟩
  have owner : ∀ slot, donor.owns slot = true ↔ slot = newSlot := by
    intro slot
    have guard := eq_of_beq donated
    rw [owns, guard]
    exact beq_iff_eq.trans (Option.some_inj.trans eq_comm)
  have detached : owns slot donor.detachSlotForReuse = false := by
    simp only [owns, SlottedSequence.detachSlotForReuse]
    cases donor.ssmSlot <;> rfl
  have retired : ((slots.afterMove linearAttention id seq newSlot).detachSlotForReuse donorId).retiredOwners slot +
      (if slot = newSlot then 1 else 0) = slots.retiredOwners slot := by
    have total := countP_set_add (owns slot) slots.retired donorId donor donor.detachSlotForReuse retiring
    rw [detached] at total
    simp only [owner] at total
    have modified : slots.retired.modify donorId SlottedSequence.detachSlotForReuse =
        slots.retired.set donorId donor.detachSlotForReuse := by
      rw [List.modify_eq_set_getElem?, retiring]
      rfl
    rw [retiredOwners, detachSlotForReuse, afterMove, modified]
    exact total
  have live := afterMove_liveOwners linearAttention newSlot before stored slot
  have free := afterMove_freeSlots slots linearAttention id seq newSlot slot
  have conserved := exclusive.conserved slot
  have capacity := afterMove_maxSlots slots linearAttention id seq newSlot
  show (slots.afterMove linearAttention id seq newSlot).pool.freeSlots.count slot +
    (slots.afterMove linearAttention id seq newSlot).liveOwners slot + _ =
    if slot < (slots.afterMove linearAttention id seq newSlot).pool.maxSlots then 1 else 0
  rw [free, capacity, ← conserved]
  by_cases target : slot = newSlot
  · subst target
    rw [if_pos rfl] at retired live ⊢
    rw [if_neg differs] at live ⊢
    have once : slots.pool.freeSlots.count slot + slots.liveOwners slot + slots.retiredOwners slot ≤ 1 := by
      rw [conserved]
      split <;> omega
    omega
  · rw [if_neg target] at retired ⊢
    rw [if_neg (Ne.symm target)] at live
    omega

/-- `gone` counts the owners that are no more after the move.  It has to be the target's, unless that is free. -/
theorem afterMove_exclusive_iff (indexed : ∀ seq ∈ slots.live, seq.Indexed) (stored : slots.live[id]? = some seq)
    {gone : Nat → Nat} (held : ∀ slot, slots.pool.freeSlots.count slot + slots.liveOwners slot + slots.retiredOwners slot +
      gone slot = if slot < slots.pool.maxSlots then 1 else 0) (inPool : newSlot < slots.pool.maxSlots) :
    (slots.afterMove linearAttention id seq newSlot).Exclusive ↔
      ∀ slot, gone slot = if slot = newSlot then 1 - slots.pool.freeSlots.count newSlot else 0 := by
  have each (slot : Nat) : (slots.afterMove linearAttention id seq newSlot).pool.freeSlots.count slot +
      (slots.afterMove linearAttention id seq newSlot).liveOwners slot + slots.retiredOwners slot =
      (if slot < slots.pool.maxSlots then 1 else 0) ↔
        gone slot = if slot = newSlot then 1 - slots.pool.freeSlots.count newSlot else 0 := by
    have total := afterMove_liveOwners linearAttention newSlot (indexed seq (List.mem_of_getElem? stored)) stored slot
    have before := held slot
    rw [afterMove_freeSlots, ← before]
    by_cases target : slot = newSlot
    · subst target
      rw [if_pos inPool] at before
      rw [if_pos rfl] at total ⊢
      rw [if_pos rfl]
      omega
    · rw [if_neg target, if_neg target]
      rw [if_neg (Ne.symm target)] at total
      omega
  constructor
  · intro exclusive slot
    rw [← each, ← afterMove_maxSlots slots linearAttention id seq newSlot]
    exact exclusive.conserved slot
  · intro gone
    refine ⟨afterMove_indexed indexed, fun slot => ?_⟩
    rw [afterMove_maxSlots]
    exact (each slot).mpr (gone slot)

def halfFull : StateSlots where
  pool := ⟨2, 0, 0, 0, 0, 0, false, 0, [], [], [], [], [], [], [], [], none, [1]⟩
  live := [⟨0, some ⟨some 0⟩, []⟩]
  retired := []

theorem halfFull_exclusive : halfFull.Exclusive where
  indexed seq member := by
    obtain rfl := List.mem_singleton.mp member
    rfl
  conserved slot := by
    obtain rfl | rfl | high := (by omega : slot = 0 ∨ slot = 1 ∨ 2 ≤ slot)
    · rfl
    · rfl
    · have outside : ¬ slot < halfFull.pool.maxSlots := Nat.not_lt.mpr high
      rw [if_neg outside]
      simp only [halfFull, liveOwners, retiredOwners, owns, List.count_singleton, List.countP_singleton,
        List.countP_nil, Option.bind_some, beq_iff_eq, Option.some_inj]
      rw [if_neg (by omega), if_neg (by omega)]

/-- The copies are queued, and the wait for them fails. -/
def unsynchronized : GpuBackend := ⟨.ok (), fun _ _ => .ok (), .error .call⟩

theorem compactSequence_not_always_owned :
    ¬ ∀ (slots : StateSlots) (id : Nat) (seq : SlottedSequence) (linearAttention : Nat → Bool) (gpu : GpuBackend)
      (newSlot : Nat), slots.Exclusive → slots.live[id]? = some seq → newSlot ∈ slots.pool.freeSlots →
        (slots.compactSequence linearAttention gpu id seq newSlot).2.Owned := by
  intro kept
  have owned := kept halfFull 0 ⟨0, some ⟨some 0⟩, []⟩ (fun _ => true) unsynchronized 1 halfFull_exclusive rfl
    (List.mem_singleton.mpr rfl)
  have guard : (some ⟨some 0⟩ : Option SlotGuard) = some ⟨some 1⟩ :=
    owned.indexed ⟨1, some ⟨some 0⟩, []⟩ (List.mem_singleton.mpr rfl)
  cases guard

theorem halfFull_compactSequence :
    (halfFull.compactSequence (fun _ => true) unsynchronized 0 ⟨0, some ⟨some 0⟩, []⟩ 1).2.Owned ↔
      (Moves halfFull.pool unsynchronized 0 1 → unsynchronized.synchronize = .ok () ∧
        ∀ other seq', other ≠ 0 → halfFull.live[other]? = some seq' → seq'.slotIdx ≠ 1) :=
  compactSequence_owned_iff halfFull_exclusive rfl _ _ _

end StateSlots

end Metrale.Engine
