import Metrale.Engine.Compaction

/-! # Retirement and slot compaction (`mod_helpers.rs`, `lifecycle.rs`)

Between two steps the scheduler finishes the sequences that are done and moves the survivors that stand outside the
first `n` slots onto free ones inside.  The device does the moves, and each may fail; what a move may do to the
sequence's index is a law of the device, and both models obey it.

The loop is followed by one invariant: the slots of all survivors and the targets that are left are distinct. -/

namespace Metrale.Scheduler

open Metrale.Engine Metrale.Foundation

/-- The calls of a model at its slots.  A move leaves the index or sets it to the target, and sets it when it works. -/
structure SlotDevice (Pool : Type) where
  freeSequence : Pool → SlottedSequence → Pool
  compactSequence : Pool → SlottedSequence → Nat → Except GpuError Unit × SlottedSequence × Pool
  indexed : ∀ pool seq target, (compactSequence pool seq target).2.1.slotIdx = seq.slotIdx ∨
    (compactSequence pool seq target).2.1.slotIdx = target
  moved : ∀ pool seq target, (compactSequence pool seq target).1 = .ok () →
    (compactSequence pool seq target).2.1.slotIdx = target

/-- What retirement reads of an `ActiveSeq`. -/
structure RetiringSeq where
  seq : SlottedSequence
  finished : Bool

structure SlotMove where
  occupied : List Nat
  target : Nat
  answer : Except GpuError Unit

structure Compacted (Pool : Type) where
  survivors : List SlottedSequence
  pool : Pool
  moves : List SlotMove

def slotsOf (sequences : List SlottedSequence) : List Nat := sequences.map (·.slotIdx)

variable {Pool : Type} (device : SlotDevice Pool)

/-- The loop over the survivors: `visited` stand before `rest`, and targets are taken from the end of the `Vec`. -/
def compactFrom (n : Nat) : List SlottedSequence → List SlottedSequence → List Nat → Pool → Compacted Pool
  | visited, [], _, pool => ⟨visited, pool, []⟩
  | visited, a :: rest, freeTargets, pool =>
    if n ≤ a.slotIdx then
      match freeTargets.getLast? with
      | some target =>
        let (answer, moved, pool) := device.compactSequence pool a target
        let later := compactFrom n (visited ++ [moved]) rest freeTargets.dropLast pool
        { later with moves := ⟨slotsOf (visited ++ a :: rest), target, answer⟩ :: later.moves }
      | none => compactFrom n (visited ++ [a]) rest freeTargets pool
    else compactFrom n (visited ++ [a]) rest freeTargets pool

/-- The slots below the number of survivors that none of them holds. -/
def freeTargets (survivors : List SlottedSequence) : List Nat :=
  (List.range survivors.length).filter fun slot => !(slotsOf survivors).contains slot

def compactSurvivorsIntoRange (survivors : List SlottedSequence) (pool : Pool) : Compacted Pool :=
  compactFrom device survivors.length [] survivors (freeTargets survivors) pool

/-- `retire_finished_sequences`: under the second protocol nothing is moved. -/
def retireFinishedSequences (epProtocolV2 : Bool) (active : List RetiringSeq) (pool : Pool) : Compacted Pool :=
  let release := fun pool (a : RetiringSeq) => device.freeSequence pool a.seq
  if epProtocolV2 then
    let swept := sweep (·.finished) active.length active 0
    ⟨swept.2.map (·.seq), swept.1.foldl release pool, []⟩
  else
    compactSurvivorsIntoRange device ((active.filter fun a => !a.finished).map (·.seq))
      ((active.filter (·.finished)).foldl release pool)

/-! ## The two models -/

/-- The slot's part of `free_sequence_dispatch`: a detached sequence gives nothing back. -/
def freeSlot (pool : SsmStatePool) (seq : SlottedSequence) : SsmStatePool :=
  match seq.ssmSlot.bind SlotGuard.idx with
  | some slot => if pool.maxSlots ≤ seq.slotIdx then pool else pool.releaseSlot slot
  | none => pool

/-- The transformer's pool, and the number of moves it has been asked for. -/
def transformerSlots (linearAttention : Nat → Bool) (gpu : Nat → GpuBackend) : SlotDevice (SsmStatePool × Nat) where
  freeSequence pool seq := (freeSlot pool.1 seq, pool.2)
  compactSequence pool seq target :=
    let (answer, moved, after) := seq.compactSequence pool.1 linearAttention (gpu pool.2) target
    (answer, moved, after, pool.2 + 1)
  indexed pool seq target := by
    simp only [SlottedSequence.compactSequence, SlottedSequence.compactSequenceDispatch]
    repeat' split
    all_goals simp
  moved pool seq target := by
    simp only [SlottedSequence.compactSequence, SlottedSequence.compactSequenceDispatch]
    repeat' split
    all_goals simp_all

/-- The translation model keeps its caches by slot, and its moves do not fail. -/
def translationSlots {Kv : Type} : SlotDevice ((Nat → Option Kv) × List Nat) where
  freeSequence pool seq :=
    if seq.slotIdx = usizeMax then pool
    else (Function.update pool.1 seq.slotIdx none, pool.2 ++ [seq.slotIdx])
  compactSequence pool seq target :=
    let kv := match pool.1 seq.slotIdx with
      | some cache => Function.update (Function.update pool.1 seq.slotIdx none) target (some cache)
      | none => pool.1
    (.ok (), { seq with slotIdx := target }, kv, pool.2)
  indexed _ _ _ := .inr rfl
  moved _ _ _ _ := rfl

/-! ## The loop -/

theorem slotsOf_append (first second : List SlottedSequence) : slotsOf (first ++ second) = slotsOf first ++ slotsOf second :=
  List.map_append

/-- Before each turn of the loop no slot is held twice and no target is held. -/
structure Compacting (n : Nat) (visited rest : List SlottedSequence) (targets : List Nat) : Prop where
  distinct : (slotsOf (visited ++ rest) ++ targets).Nodup
  inside : ∀ target ∈ targets, target < n
  enough : targets.length = (rest.filter fun a => decide (n ≤ a.slotIdx)).length

/-- What the loop leaves. -/
structure CompactedFrom (n : Nat) (visited rest : List SlottedSequence) (result : Compacted Pool) : Prop where
  length : result.survivors.length = visited.length + rest.length
  distinct : (slotsOf result.survivors).Nodup
  untaken : ∀ move ∈ result.moves, move.target ∉ move.occupied
  inside : (∀ a ∈ visited, a.slotIdx < n) → (∀ move ∈ result.moves, move.answer = .ok ()) →
    ∀ a ∈ result.survivors, a.slotIdx < n

section Loop

variable {device} {n : Nat} {visited rest : List SlottedSequence} {targets : List Nat} {a moved : SlottedSequence} {target : Nat}

namespace Compacting

theorem keep (compacting : Compacting n visited (a :: rest) targets) (inside : ¬ n ≤ a.slotIdx) :
    Compacting n (visited ++ [a]) rest targets where
  distinct := by simpa using compacting.distinct
  inside := compacting.inside
  enough := by
    have enough := compacting.enough
    rwa [List.filter_cons_of_neg (by simpa using inside)] at enough

theorem hasTarget (compacting : Compacting n visited (a :: rest) targets) (outside : n ≤ a.slotIdx) :
    ∃ target front, targets = front ++ [target] := by
  obtain rfl | ⟨front, target, rfl⟩ := targets.eq_nil_or_concat
  · have enough := compacting.enough
    rw [List.filter_cons_of_pos (by simpa using outside)] at enough
    cases enough
  · exact ⟨target, front, List.concat_eq_append⟩

theorem untaken (compacting : Compacting n visited (a :: rest) (targets ++ [target])) :
    target ∉ slotsOf (visited ++ a :: rest) := by
  have apart := List.disjoint_of_nodup_append compacting.distinct
  exact fun taken => apart taken (by simp)

theorem move (compacting : Compacting n visited (a :: rest) (targets ++ [target])) (outside : n ≤ a.slotIdx)
    (index : moved.slotIdx = a.slotIdx ∨ moved.slotIdx = target) : Compacting n (visited ++ [moved]) rest targets where
  distinct := by
    have middle (slot : Nat) : (slotsOf visited ++ slot :: slotsOf rest ++ targets).Perm
        (slot :: (slotsOf visited ++ slotsOf rest ++ targets)) := by
      rw [List.append_assoc, List.cons_append, List.append_assoc]
      exact List.perm_middle
    have before : (slotsOf (visited ++ a :: rest) ++ (targets ++ [target])).Perm
        (target :: a.slotIdx :: (slotsOf visited ++ slotsOf rest ++ targets)) := by
      rw [slotsOf_append, ← List.append_assoc]
      exact (List.perm_append_singleton target _).trans ((middle a.slotIdx).cons target)
    have nodup := before.nodup_iff.mp compacting.distinct
    have after : slotsOf (visited ++ [moved] ++ rest) = slotsOf visited ++ moved.slotIdx :: slotsOf rest := by
      simp [slotsOf]
    rw [after, (middle moved.slotIdx).nodup_iff]
    cases index with
    | inl stays => exact stays ▸ nodup.of_cons
    | inr follows => exact follows ▸ nodup.sublist ((List.sublist_cons_self _ _).cons_cons target)
  inside slot member := compacting.inside slot (List.mem_append_left _ member)
  enough := by
    have enough := compacting.enough
    rw [List.filter_cons_of_pos (by simpa using outside), List.length_append, List.length_singleton, List.length_cons] at enough
    exact Nat.succ_inj.mp enough

end Compacting

theorem compactFrom_spec (pool : Pool) (compacting : Compacting n visited rest targets) :
    CompactedFrom n visited rest (compactFrom device n visited rest targets pool) := by
  induction rest generalizing visited targets pool with
  | nil =>
    have distinct := compacting.distinct
    rw [List.append_nil] at distinct
    exact ⟨rfl, distinct.of_append_left, fun _ none => absurd none List.not_mem_nil, fun inside _ => inside⟩
  | cons a rest ih =>
    unfold compactFrom
    split
    · next outside =>
      obtain ⟨target, front, rfl⟩ := compacting.hasTarget outside
      simp only [List.getLast?_append, List.getLast?_singleton, Option.some_or, List.dropLast_concat]
      have later := ih (device.compactSequence pool a target).2.2
        (compacting.move outside (device.indexed pool a target))
      constructor
      · rw [later.length]
        simp
        omega
      · exact later.distinct
      · simp only [List.mem_cons, forall_eq_or_imp]
        exact ⟨compacting.untaken, later.untaken⟩
      · simp only [List.mem_cons, forall_eq_or_imp]
        intro inside worked
        refine later.inside ?_ worked.2
        simp only [List.mem_append, List.mem_singleton]
        rintro seq (old | rfl)
        · exact inside seq old
        · rw [device.moved pool a target worked.1]
          exact compacting.inside target (by simp)
    · next inside =>
      have later := ih pool (compacting.keep inside)
      refine ⟨?_, later.distinct, later.untaken, ?_⟩
      · rw [later.length]
        simp
        omega
      · intro before worked
        refine later.inside ?_ worked
        simp only [List.mem_append, List.mem_singleton]
        rintro seq (old | rfl)
        · exact before seq old
        · exact Nat.lt_of_not_le inside

end Loop

theorem compacting_start {survivors : List SlottedSequence} (distinct : (slotsOf survivors).Nodup) :
    Compacting survivors.length [] survivors (freeTargets survivors) where
  distinct := by
    refine distinct.append (List.nodup_range.filter _) fun slot held free => ?_
    simp only [freeTargets, List.mem_filter] at free
    simp [held] at free
  inside target free := by
    simp only [freeTargets, List.mem_filter, List.mem_range] at free
    exact free.1
  enough := by
    -- the targets are as many as the slots inside that nobody holds, and so many survivors stand outside
    have inside : ((List.range survivors.length).filter (slotsOf survivors).contains).Perm
        ((slotsOf survivors).filter fun slot => decide (slot < survivors.length)) := by
      refine (List.perm_ext_iff_of_nodup (List.nodup_range.filter _) (distinct.filter _)).mpr fun slot => ?_
      simp [and_comm]
    have held := inside.length_eq
    have ranged := List.length_eq_length_filter_add (slotsOf survivors).contains (l := List.range survivors.length)
    have standing := List.length_eq_length_filter_add (fun slot => decide (slot < survivors.length)) (l := slotsOf survivors)
    have outside : ((slotsOf survivors).filter fun slot => !decide (slot < survivors.length)).length =
        (survivors.filter fun a => decide (survivors.length ≤ a.slotIdx)).length := by
      rw [slotsOf, List.filter_map, List.length_map]
      congr 1
      refine List.filter_congr fun a _ => ?_
      rw [Function.comp_apply, ← decide_not]
      exact decide_eq_decide.mpr Nat.not_lt
    rw [List.length_range] at ranged
    rw [slotsOf, List.length_map, ← slotsOf] at standing
    unfold freeTargets
    omega

/-- With distinct slots before, the slots of the survivors are distinct behind every compaction, no move targets a slot
that a survivor holds at that moment, and where all moves work the `n` survivors stand inside the first `n` slots. -/
theorem retire_compacts (active : List RetiringSeq) (pool : Pool) (distinct : (slotsOf (active.map (·.seq))).Nodup) :
    let n := (active.filter fun a => !a.finished).length
    let result := retireFinishedSequences device false active pool
    result.survivors.length = n ∧ (slotsOf result.survivors).Nodup ∧ (∀ move ∈ result.moves, move.target ∉ move.occupied) ∧
      ((∀ move ∈ result.moves, move.answer = .ok ()) → ∀ slot ∈ slotsOf result.survivors, slot < n) := by
  intro n result
  have kept : (slotsOf ((active.filter fun a => !a.finished).map (·.seq))).Nodup :=
    distinct.sublist ((List.filter_sublist.map _).map _)
  have spec : CompactedFrom ((active.filter fun a => !a.finished).map (·.seq)).length []
      ((active.filter fun a => !a.finished).map (·.seq)) result :=
    compactFrom_spec _ (compacting_start kept)
  rw [List.length_map] at spec
  refine ⟨?_, spec.distinct, spec.untaken, fun worked slot member => ?_⟩
  · rw [spec.length, List.length_map]
    exact Nat.zero_add _
  · obtain ⟨a, survives, rfl⟩ := List.mem_map.mp member
    exact spec.inside (fun _ none => absurd none List.not_mem_nil) worked a survives

def retiringFour : List RetiringSeq :=
  [⟨⟨3, none, []⟩, false⟩, ⟨⟨0, none, []⟩, false⟩, ⟨⟨2, none, []⟩, true⟩, ⟨⟨1, none, []⟩, true⟩]

theorem retire_compacts_four :
    let result := retireFinishedSequences (@translationSlots Nat) false retiringFour (fun _ => none, [])
    result.survivors.length = 2 ∧ (slotsOf result.survivors).Nodup ∧
      (∀ move ∈ result.moves, move.target ∉ move.occupied) ∧
      ((∀ move ∈ result.moves, move.answer = .ok ()) → ∀ slot ∈ slotsOf result.survivors, slot < 2) :=
  retire_compacts translationSlots retiringFour (fun _ => none, []) (by decide)

/-- The survivor in slot 3 moves to slot 1, which a retired sequence had. -/
example : slotsOf (retireFinishedSequences (@translationSlots Nat) false retiringFour (fun _ => none, [])).survivors =
    [1, 0] := by decide

/-! ## The owners of the slots -/

section Owners

variable {pool : SsmStatePool} {live visited rest others : List SlottedSequence} {a : SlottedSequence} {n made target : Nat}
  {targets : List Nat} {linearAttention : Nat → Bool} {gpu : Nat → GpuBackend}

def Owners (pool : SsmStatePool) (live : List SlottedSequence) : Prop := StateSlots.Exclusive ⟨pool, live, []⟩

theorem owners_iff : Owners pool live ↔ (∀ a ∈ live, a.Indexed) ∧
    ∀ slot, pool.freeSlots.count slot + (slotsOf live).count slot = if slot < pool.maxSlots then 1 else 0 := by
  have held (indexed : ∀ a ∈ live, a.Indexed) (slot : Nat) : (slotsOf live).count slot = live.countP (SlottedSequence.owns slot) := by
    rw [slotsOf, List.count_eq_countP, List.countP_map]
    refine List.countP_congr fun a member => ?_
    rw [(indexed a member).owns_iff]
    exact beq_iff_eq
  constructor
  · intro owners
    refine ⟨owners.indexed, fun slot => ?_⟩
    rw [held owners.indexed]
    exact owners.conserved slot
  · rintro ⟨indexed, count⟩
    refine ⟨indexed, fun slot => ?_⟩
    rw [← count slot, held indexed]
    rfl

theorem Owners.perm {other : List SlottedSequence} (owners : Owners pool live) (same : live.Perm other) :
    Owners pool other := by
  obtain ⟨indexed, count⟩ := owners_iff.mp owners
  refine owners_iff.mpr ⟨fun a member => indexed a (same.mem_iff.mpr member), fun slot => ?_⟩
  rw [← count slot, slotsOf, slotsOf, (same.map _).count_eq]

theorem Owners.inPool (owners : Owners pool live) (member : a ∈ live) : a.slotIdx < pool.maxSlots := by
  have count := (owners_iff.mp owners).2 a.slotIdx
  have held : 0 < (slotsOf live).count a.slotIdx := List.count_pos_iff.mpr (List.mem_map_of_mem member)
  by_contra outside
  rw [if_neg outside] at count
  omega

theorem Owners.distinct (owners : Owners pool live) : (slotsOf live).Nodup := by
  refine List.nodup_iff_count_le_one.mpr fun slot => ?_
  have count := (owners_iff.mp owners).2 slot
  split at count <;> omega

theorem Owners.fits (owners : Owners pool live) : live.length ≤ pool.maxSlots := by
  have inside : slotsOf live ⊆ List.range pool.maxSlots := by
    intro slot held
    obtain ⟨a, member, rfl⟩ := List.mem_map.mp held
    exact List.mem_range.mpr (owners.inPool member)
  simpa [slotsOf] using (owners.distinct.subperm inside).length_le

theorem Owners.free (owners : Owners pool (a :: live)) : Owners (freeSlot pool a) live := by
  obtain ⟨indexed, count⟩ := owners_iff.mp owners
  have freed : freeSlot pool a = pool.releaseSlot a.slotIdx := by
    rw [freeSlot, indexed a List.mem_cons_self]
    exact if_neg (Nat.not_le.mpr (owners.inPool List.mem_cons_self))
  rw [freed]
  refine owners_iff.mpr ⟨fun other member => indexed other (List.mem_cons_of_mem a member), fun slot => ?_⟩
  rw [SsmStatePool.releaseSlot, List.count_append, List.count_singleton, ← count slot, slotsOf, slotsOf, List.map_cons,
    List.count_cons]
  omega

theorem Owners.freeAll {gone : List RetiringSeq} (owners : Owners pool (gone.map (·.seq) ++ live)) :
    ∃ freed, gone.foldl (fun pool a => (transformerSlots linearAttention gpu).freeSequence pool a.seq) (pool, made) =
      (freed, made) ∧ Owners freed live := by
  induction gone generalizing pool with
  | nil => exact ⟨pool, rfl, owners⟩
  | cons a gone ih => exact ih owners.free

theorem Owners.move (owners : Owners pool (visited ++ a :: rest)) {gpu : GpuBackend} (waited : gpu.synchronize = .ok ())
    (untaken : target ∉ slotsOf (visited ++ a :: rest)) (inPool : target < pool.maxSlots) :
    Owners (a.compactSequence pool linearAttention gpu target).2.2
      (visited ++ (a.compactSequence pool linearAttention gpu target).2.1 :: rest) := by
  have indexed := owners.indexed a (by simp)
  have free := (owners_iff.mp owners).2 target
  rw [List.count_eq_zero.mpr untaken, if_pos inPool] at free
  obtain ⟨-, result⟩ | ⟨-, failed, -⟩ | ⟨-, -, result⟩ :=
    StateSlots.compactSequence_cases ⟨pool, visited ++ a :: rest, []⟩ linearAttention gpu target indexed
  · rwa [result]
  · exact absurd waited failed
  · have stored : (visited ++ a :: rest)[visited.length]? = some a := by simp
    have moved := (@StateSlots.afterMove_exclusive_iff ⟨pool, visited ++ a :: rest, []⟩ a _ target linearAttention
      owners.indexed stored (fun _ => 0) owners.conserved inPool).mpr fun slot => by simp [Nat.add_zero _ ▸ free]
    rw [StateSlots.afterMove, List.set_append_right _ _ (Nat.le_refl _), Nat.sub_self] at moved
    rwa [result]

theorem compactSequence_maxSlots (pool : SsmStatePool) (gpu : GpuBackend) :
    (a.compactSequence pool linearAttention gpu target).2.2.maxSlots = pool.maxSlots := by
  simp only [SlottedSequence.compactSequence, SlottedSequence.compactSequenceDispatch, SsmStatePool.claimSpecific,
    SsmStatePool.releaseSlot]
  repeat' split
  all_goals rfl

theorem Owners.compactFrom (waited : ∀ move, (gpu move).synchronize = .ok ()) (compacting : Compacting n visited rest targets)
    (apart : ∀ slot ∈ targets, slot ∉ slotsOf others) (fits : n ≤ pool.maxSlots) (owners : Owners pool (visited ++ rest ++ others)) :
    Owners (Scheduler.compactFrom (transformerSlots linearAttention gpu) n visited rest targets (pool, made)).pool.1
      ((Scheduler.compactFrom (transformerSlots linearAttention gpu) n visited rest targets (pool, made)).survivors ++ others) := by
  induction rest generalizing visited targets pool made with
  | nil => rwa [List.append_nil] at owners
  | cons a rest ih =>
    unfold Scheduler.compactFrom
    split
    · next outside =>
      obtain ⟨target, front, rfl⟩ := compacting.hasTarget outside
      simp only [List.getLast?_append, List.getLast?_singleton, Option.some_or, List.dropLast_concat]
      have untaken : target ∉ slotsOf (visited ++ a :: (rest ++ others)) := by
        rw [← List.cons_append, ← List.append_assoc, slotsOf_append, List.mem_append]
        exact fun taken => taken.elim compacting.untaken (apart target (by simp))
      have inPool : target < pool.maxSlots := (compacting.inside target (by simp)).trans_le fits
      rw [List.append_assoc, List.cons_append] at owners
      have moved := @Owners.move _ _ _ _ _ linearAttention owners _ (waited made) untaken inPool
      refine ih (compacting.move outside ((transformerSlots linearAttention gpu).indexed (pool, made) a target))
        (fun slot among => apart slot (List.mem_append_left _ among)) ?_ ?_
      · exact fits.trans_eq (compactSequence_maxSlots pool _).symm
      · rwa [List.append_assoc, List.append_assoc]
    · next inside =>
      refine ih (compacting.keep inside) apart fits ?_
      rwa [List.append_assoc visited [a] rest]

end Owners

/-- Where no wait for copies fails and no target is a slot of the `others`, which are not in the batch, a retirement leaves
each slot free or with its one owner, whatever copies or flushes fail. -/
theorem retire_owners {linearAttention : Nat → Bool} {gpu : Nat → GpuBackend} (waited : ∀ move, (gpu move).synchronize = .ok ())
    (epProtocolV2 : Bool) {active : List RetiringSeq} {others : List SlottedSequence} {pool : SsmStatePool} (made : Nat)
    (owners : Owners pool (active.map (·.seq) ++ others))
    (apart : ∀ slot ∈ freeTargets ((active.filter fun a => !a.finished).map (·.seq)), slot ∉ slotsOf others) :
    let result := retireFinishedSequences (transformerSlots linearAttention gpu) epProtocolV2 active (pool, made)
    Owners result.pool.1 (result.survivors ++ others) := by
  cases epProtocolV2 with
  | true =>
    obtain ⟨all, -⟩ := @sweep_spec _ (·.finished) active.length 0 active (Nat.le_refl _) (by simp)
    have parted := owners.perm ((all.map _).symm.append_right others)
    rw [List.map_append, List.append_assoc] at parted
    obtain ⟨freed, released, kept⟩ := @Owners.freeAll _ _ made linearAttention gpu _ parted
    simp only [retireFinishedSequences, if_true, released]
    exact kept
  | false =>
    have parted := owners.perm (((List.filter_append_perm (·.finished) active).map _).symm.append_right others)
    rw [List.map_append, List.append_assoc] at parted
    obtain ⟨freed, released, kept⟩ := @Owners.freeAll _ _ made linearAttention gpu _ parted
    simp only [retireFinishedSequences, Bool.false_eq_true, if_false, released]
    have distinct := kept.distinct
    rw [slotsOf_append] at distinct
    have fits := kept.fits
    rw [List.length_append] at fits
    exact Owners.compactFrom waited (compacting_start distinct.of_append_left) apart (Nat.le_of_add_right_le fits) kept

def shuffled : List SlottedSequence := [1, 2, 0].map fun slot => ⟨slot, some ⟨some slot⟩, []⟩

def shuffledPool : SsmStatePool := { StateSlots.halfFull.pool with maxSlots := 3, freeSlots := [] }

theorem shuffled_owners : Owners shuffledPool shuffled := by
  refine owners_iff.mpr ⟨by simp [shuffled, SlottedSequence.Indexed], fun slot => ?_⟩
  obtain rfl | rfl | rfl | high := (by omega : slot = 0 ∨ slot = 1 ∨ slot = 2 ∨ 3 ≤ slot)
  · rfl
  · rfl
  · rfl
  · rw [if_neg (show ¬ slot < shuffledPool.maxSlots from Nat.not_lt.mpr high), Nat.add_eq_zero_iff]
    simp [shuffledPool, shuffled, slotsOf, List.count_eq_zero]
    omega

def works : GpuBackend := ⟨.ok (), fun _ _ => .ok (), .ok ()⟩

/-- The sequence in slot 2 moves into the retired one's, and the one in slot 1 is not in the batch. -/
theorem retire_owners_shuffled :
    let result := retireFinishedSequences (transformerSlots (fun _ => true) fun _ => works) false
      [⟨⟨0, some ⟨some 0⟩, []⟩, true⟩, ⟨⟨2, some ⟨some 2⟩, []⟩, false⟩] (shuffledPool, 0)
    Owners result.pool.1 (result.survivors ++ [⟨1, some ⟨some 1⟩, []⟩]) :=
  retire_owners (fun _ => rfl) false 0 (shuffled_owners.perm (List.reverse_perm shuffled).symm) (by decide)

/-! ## Swapping a sequence out (`lifecycle.rs`) -/

/-- The slots' part of `swap_out_sequence`.  The last row takes the victim's place in the batch, and with it the slot of
that number, unless it has it; the victim, detached then, is freed in every case. -/
def swapOutSequence (linearAttention : Nat → Bool) (gpu : GpuBackend) (active : List SlottedSequence) (pool : SsmStatePool)
    (victimIdx : Nat) : Option (Except GpuError Unit × List SlottedSequence × SsmStatePool) :=
  active[victimIdx]?.map fun a =>
    let active := swapRemove active victimIdx
    match active[victimIdx]? with
    | none => (.ok (), active, freeSlot pool a)
    | some row =>
      if row.slotIdx = victimIdx then (.ok (), active, freeSlot pool a)
      else
        let (answer, moved, pool) := row.compactSequence pool linearAttention gpu victimIdx
        match answer with
        | .error failed => (.error failed, active.set victimIdx moved, freeSlot pool a)
        | .ok () => (.ok (), active.set victimIdx moved, freeSlot pool a.detachSlotForReuse)

section SwapOut

variable {pool after : SsmStatePool} {active left live others : List SlottedSequence} {a row : SlottedSequence} {id target victimIdx : Nat}
  {linearAttention : Nat → Bool} {gpu : GpuBackend} {answer : Except GpuError Unit}

theorem compactSequence_ok_iff (differs : a.slotIdx ≠ target) :
    (a.compactSequence pool linearAttention gpu target).1 = .ok () ↔
      StateSlots.Moves pool gpu a.slotIdx target ∧ gpu.synchronize = .ok () := by
  have moves : StateSlots.Moves pool gpu a.slotIdx target ↔
      gpu.gdnCarryFlush = .ok () ∧ pool.copySlot a.slotIdx target gpu = .ok () :=
    ⟨fun moves => ⟨moves.flushed, moves.copied⟩, fun asked => ⟨differs, asked.1, asked.2⟩⟩
  rw [moves]
  simp only [SlottedSequence.compactSequence, SlottedSequence.compactSequenceDispatch, if_neg differs]
  cases gpu.gdnCarryFlush <;> cases pool.copySlot a.slotIdx target gpu <;> cases gpu.synchronize <;> cases a.ssmSlot <;> simp

theorem Owners.takeover (owners : Owners pool (a :: live)) (placed : live[id]? = some row) (inPool : target < pool.maxSlots) :
    Owners ((pool.claimSpecific target).2.releaseSlot row.slotIdx)
      (live.set id (StateSlots.migrated pool linearAttention target row)) ↔ a.slotIdx = target := by
  obtain ⟨indexed, count⟩ := owners_iff.mp owners
  have held (slot : Nat) : pool.freeSlots.count slot + StateSlots.liveOwners ⟨pool, live, []⟩ slot + 0 +
      (if a.slotIdx = slot then 1 else 0) = if slot < pool.maxSlots then 1 else 0 := by
    rw [← owners.conserved slot]
    simp [StateSlots.liveOwners, StateSlots.retiredOwners, List.countP_cons, (indexed a List.mem_cons_self).owns_iff, Nat.add_assoc]
  refine (@StateSlots.afterMove_exclusive_iff ⟨pool, live, []⟩ row id target linearAttention
    (fun seq member => indexed seq (List.mem_cons_of_mem a member)) placed _ held inPool).trans ⟨fun gone => ?_, fun own slot => ?_⟩
  · by_contra other
    have lost := gone a.slotIdx
    rw [if_pos rfl, if_neg other] at lost
    cases lost
  · subst own
    have free := held a.slotIdx
    rw [if_pos rfl, if_pos inPool] at free
    have none : pool.freeSlots.count a.slotIdx = 0 := by omega
    rw [none]
    exact if_congr eq_comm rfl rfl

/-- A swap-out leaves each slot free or with its one owner, exactly if a row that is moved has its copies waited for and
moves into the victim's own slot. -/
theorem swapOut_owners_iff (owners : Owners pool (active ++ others))
    (swapped : swapOutSequence linearAttention gpu active pool victimIdx = some (answer, left, after)) :
    Owners after (left ++ others) ↔ ∀ a, active[victimIdx]? = some a → ∀ row, (swapRemove active victimIdx)[victimIdx]? = some row →
      StateSlots.Moves pool gpu row.slotIdx victimIdx → gpu.synchronize = .ok () ∧ a.slotIdx = victimIdx := by
  obtain ⟨a, victim, swapped⟩ := Option.map_eq_some_iff.mp swapped
  have parted : Owners pool (a :: (swapRemove active victimIdx ++ others)) :=
    owners.perm ((swapRemove_perm victim).symm.append_right others)
  simp only [victim, Option.some_inj, forall_eq']
  generalize swapRemove active victimIdx = rest at *
  cases placed : rest[victimIdx]? with
  | none =>
    simp only [placed] at swapped
    cases swapped
    exact iff_of_true parted.free nofun
  | some row =>
    simp only [Option.some_inj, forall_eq']
    simp only [placed] at swapped
    split at swapped
    · next still =>
      cases swapped
      exact iff_of_true parted.free fun moves => absurd still moves.differs
    · next differs =>
      have indexed := parted.indexed row (List.mem_cons_of_mem a (List.mem_append_left others (List.mem_of_getElem? placed)))
      have answered := @compactSequence_ok_iff pool row victimIdx linearAttention gpu differs
      have bound := (List.getElem?_eq_some_iff.mp placed).1
      have cases_ := StateSlots.compactSequence_cases ⟨pool, rest, [a]⟩ linearAttention gpu victimIdx indexed
      rcases called : row.compactSequence pool linearAttention gpu victimIdx with ⟨answer', moved, pool'⟩
      simp only [called] at swapped answered cases_
      cases answer' with
      | error failed =>
        cases swapped
        obtain ⟨still, result⟩ | ⟨moves, unwaited, result⟩ | ⟨moves, waited, -⟩ := cases_
        · cases result
          have same : rest.set victimIdx row = rest := by
            rw [← (List.getElem?_eq_some_iff.mp placed).2, List.set_getElem_self]
          rw [same]
          exact iff_of_true parted.free fun moves => absurd moves still
        · cases result
          refine iff_of_false (fun owners => ?_) fun kept => unwaited (kept moves).1
          have guard : row.ssmSlot = some ⟨some victimIdx⟩ := owners.indexed _ (List.mem_append_left others (List.mem_set bound _))
          rw [indexed] at guard
          cases guard
          exact differs rfl
        · cases answered.mpr ⟨moves, waited⟩
      | ok =>
        obtain ⟨moves, waited⟩ := answered.mp rfl
        cases swapped
        obtain ⟨still, -⟩ | ⟨-, failed, -⟩ | ⟨-, -, result⟩ := cases_
        · exact absurd moves still
        · exact absurd waited failed
        · cases result
          have detached (pool : SsmStatePool) : freeSlot pool a.detachSlotForReuse = pool := by
            rw [freeSlot, SlottedSequence.detachSlotForReuse]
            cases a.ssmSlot <;> rfl
          rw [detached, ← List.set_append_left _ _ bound]
          rw [← List.getElem?_append_left bound] at placed
          have inPool : victimIdx < pool.maxSlots := by
            have fits := parted.fits
            rw [List.length_cons, List.length_append] at fits
            omega
          exact (parted.takeover placed inPool).trans ⟨fun own _ => ⟨waited, own⟩, fun kept => (kept moves).2⟩

end SwapOut

/-- The row in slot 0 moves into slot 1, which is the first one's.  Slot 2, the victim's own, is lost. -/
theorem swapOut_owners_shuffled :
    ∃ answer left after, swapOutSequence (fun _ => true) works shuffled shuffledPool 1 = some (answer, left, after) ∧
      ¬ Owners after (left ++ []) := by
  obtain ⟨answer, left, after, swapped⟩ : ∃ answer left after,
      swapOutSequence (fun _ => true) works shuffled shuffledPool 1 = some (answer, left, after) := ⟨_, _, _, rfl⟩
  refine ⟨answer, left, after, swapped, fun owners => ?_⟩
  have own := ((swapOut_owners_iff shuffled_owners swapped).mp owners _ rfl _ rfl ⟨by decide, rfl, rfl⟩).2
  cases own

end Metrale.Scheduler
