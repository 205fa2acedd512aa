import Metrale.Foundation.Runs
import Metrale.Foundation.VecOps
import Metrale.Scheduler.Promote

/-! # Parking and coming back (`core/tick.rs`, `core/end_tick.rs`, `decode_launch.rs`)

The live and the parked sequences of a run, each under the number of its request.  Sequences leave when blocks are
short, come back when there is room, and between the two the others decode, start and finish.  What a sequence is when
it comes back is a matter of what it was when it left: nothing that happens to the others reaches a parked one. -/

namespace Metrale.Scheduler

open Metrale.Foundation

variable {Device Grammar Image : Type*}

/-! ## Victims -/

/-- The cell that stays when each in turn may replace the best before it. -/
def pickFrom {Cell : Type*} (replaces : Cell → Cell → Bool) (best : Cell) : List Cell → Cell
  | [] => best
  | next :: cells => pickFrom replaces (if replaces best next then next else best) cells

def pickBy {Cell : Type*} (replaces : Cell → Cell → Bool) : List Cell → Option Cell
  | [] => none
  | cell :: cells => some (pickFrom replaces cell cells)

/-- `max_by_key` takes the last of the largest. -/
def admissionVictim (active : List (Nat × ActiveSeq Device Grammar)) : Option (Nat × ActiveSeq Device Grammar) :=
  pickBy (fun best next => decide (best.2.seq.numBlocks ≤ next.2.seq.numBlocks))
    (active.filter (·.2.grammarState.isNone))

/-- `min_by_key` takes the first of the smallest. -/
def leastProgress (active : List (Nat × ActiveSeq Device Grammar)) : Option (Nat × ActiveSeq Device Grammar) :=
  pickBy (fun best next => decide (next.2.outputTokens.length < best.2.outputTokens.length) ||
      (decide (next.2.outputTokens.length = best.2.outputTokens.length) &&
        decide (next.2.seq.slotIdx < best.2.seq.slotIdx)))
    active

/-- `choose_decode_victim`: a sequence with a grammar is none, nor, without a spill pool, one with an image in it. -/
def chooseDecodeVictim (hasVisionPad : List Token → Bool) (canSpill : Bool)
    (active : List (Nat × ActiveSeq Device Grammar)) : Option (Nat × ActiveSeq Device Grammar) :=
  let eligible := active.filter fun entry =>
    entry.2.grammarState.isNone && (canSpill || !hasVisionPad entry.2.seq.tokens)
  (leastProgress (eligible.filter fun entry =>
    decide (entry.2.preemptImmuneUntilTokens ≤ entry.2.outputTokens.length))).or (leastProgress eligible)

section Victims

variable {Cell : Type*} {replaces : Cell → Cell → Bool} {cells : List Cell}

theorem pickFrom_mem (best : Cell) : pickFrom replaces best cells ∈ best :: cells := by
  induction cells generalizing best with
  | nil => exact List.mem_cons_self
  | cons next cells ih =>
    rw [pickFrom]
    split
    · exact List.mem_cons_of_mem best (ih next)
    · cases List.mem_cons.mp (ih best) with
      | inl same =>
        rw [same]
        exact List.mem_cons_self
      | inr later => exact List.mem_cons_of_mem best (List.mem_cons_of_mem next later)

theorem pickBy_mem {cell : Cell} (picked : pickBy replaces cells = some cell) : cell ∈ cells := by
  cases cells with
  | nil => cases picked
  | cons best cells =>
    cases picked
    exact pickFrom_mem best

end Victims

theorem admissionVictim_spec {active : List (Nat × ActiveSeq Device Grammar)}
    {victim : Nat × ActiveSeq Device Grammar} (chosen : admissionVictim active = some victim) :
    victim ∈ active ∧ victim.2.grammarState = none := by
  have picked := List.mem_filter.mp (pickBy_mem chosen)
  exact ⟨picked.1, Option.isNone_iff_eq_none.mp picked.2⟩

theorem chooseDecodeVictim_spec {hasVisionPad : List Token → Bool} {canSpill : Bool}
    {active : List (Nat × ActiveSeq Device Grammar)} {victim : Nat × ActiveSeq Device Grammar}
    (chosen : chooseDecodeVictim hasVisionPad canSpill active = some victim) :
    victim ∈ active ∧ victim.2.grammarState = none := by
  have picked : victim ∈ active.filter fun entry =>
      entry.2.grammarState.isNone && (canSpill || !hasVisionPad entry.2.seq.tokens) := by
    cases Option.or_eq_some_iff.mp chosen with
    | inl ready => exact (List.mem_filter.mp (pickBy_mem ready)).1
    | inr immune => exact pickBy_mem immune.2
  have eligible := List.mem_filter.mp picked
  have free := (Bool.and_eq_true_iff.mp eligible.2).1
  exact ⟨eligible.1, Option.isNone_iff_eq_none.mp free⟩

/-! ## The lot -/

structure ParkingLot (Device Grammar Image : Type*) where
  active : List (Nat × ActiveSeq Device Grammar)
  swapped : List (Nat × SwappedSeq)
  preempted : List (Nat × PreemptedSeq Device Grammar)
  /-- The spill pool's files. -/
  files : Nat → Option Image
  nextId : Nat

namespace ParkingLot

def initial : ParkingLot Device Grammar Image := ⟨[], [], [], fun _ => none, 0⟩

def requests (lot : ParkingLot Device Grammar Image) : List Nat :=
  lot.active.map (·.1) ++ (lot.swapped.map (·.1) ++ lot.preempted.map (·.1))

/-- The request `number` is no longer live. -/
def withoutActive (lot : ParkingLot Device Grammar Image) (number : Nat) : ParkingLot Device Grammar Image :=
  { lot with active := lot.active.filter (·.1 != number) }

def spill [DeviceImage Device Image] (lot : ParkingLot Device Grammar Image)
    (victim : Nat × ActiveSeq Device Grammar) : ParkingLot Device Grammar Image :=
  { lot.withoutActive victim.1 with
    swapped := lot.swapped ++ [(victim.1, spillOutSequence victim.2 lot.nextId)]
    files := Function.update lot.files lot.nextId (some (DeviceImage.save victim.2.seq.device))
    nextId := lot.nextId + 1 }

/-- A save that fails leaves no file, and its number is used up. -/
def spillFails (lot : ParkingLot Device Grammar Image) : ParkingLot Device Grammar Image :=
  { lot with files := Function.update lot.files lot.nextId none, nextId := lot.nextId + 1 }

def requeue (lot : ParkingLot Device Grammar Image) (victim : Nat × ActiveSeq Device Grammar) :
    ParkingLot Device Grammar Image :=
  { lot.withoutActive victim.1 with preempted := lot.preempted ++ [(victim.1, preemptRequeue victim.2)] }

def withoutSwapped (lot : ParkingLot Device Grammar Image) (number : Nat) (swapId : Nat) :
    ParkingLot Device Grammar Image :=
  { lot with
    swapped := lot.swapped.filter (·.1 != number)
    files := Function.update lot.files swapId none }

def withoutPreempted (lot : ParkingLot Device Grammar Image) (number : Nat) : ParkingLot Device Grammar Image :=
  { lot with preempted := lot.preempted.filter (·.1 != number) }

def resume (lot : ParkingLot Device Grammar Image) (entry : Nat × ActiveSeq Device Grammar) :
    ParkingLot Device Grammar Image :=
  { lot with active := lot.active ++ [entry] }

end ParkingLot

inductive Way where
  | spill
  | requeue
deriving DecidableEq

inductive ParkLabel (Device : Type*) where
  | work
  | saveFails
  | leaves (number : Nat) (way : Way)
  | returns (number : Nat) (way : Way) (answers : ResumeAnswers Device)
  | lost (number : Nat)

def ParkLabel.subject : ParkLabel Device → Option Nat
  | work => none
  | saveFails => none
  | leaves number _ => some number
  | returns number _ _ => some number
  | lost number => some number

/-- `work` is whatever the live sequences do: decode, finish, move to another slot, start. -/
inductive ParkStep [DeviceImage Device Image] (hasVisionPad : List Token → Bool) :
    ParkingLot Device Grammar Image → ParkLabel Device → ParkingLot Device Grammar Image → Prop where
  | work {lot : ParkingLot Device Grammar Image} {active : List (Nat × ActiveSeq Device Grammar)}
      (apart : (active.map (·.1)).Nodup)
      (fresh : ∀ number ∈ active.map (·.1), number ∈ lot.active.map (·.1) ∨ number ∉ lot.requests) :
      ParkStep hasVisionPad lot .work { lot with active }
  | swapOut {lot : ParkingLot Device Grammar Image} {victim : Nat × ActiveSeq Device Grammar}
      (chosen : admissionVictim lot.active = some victim) :
      ParkStep hasVisionPad lot (.leaves victim.1 .spill) (lot.spill victim)
  | swapOutFails {lot : ParkingLot Device Grammar Image} {victim : Nat × ActiveSeq Device Grammar}
      (chosen : admissionVictim lot.active = some victim) :
      ParkStep hasVisionPad lot (.lost victim.1) (lot.spillFails.withoutActive victim.1)
  | preemptSpill {lot : ParkingLot Device Grammar Image} {victim : Nat × ActiveSeq Device Grammar}
      (chosen : chooseDecodeVictim hasVisionPad true lot.active = some victim) :
      ParkStep hasVisionPad lot (.leaves victim.1 .spill) (lot.spill victim)
  | preemptRequeue {lot : ParkingLot Device Grammar Image} {victim : Nat × ActiveSeq Device Grammar} {canSpill : Bool}
      (chosen : chooseDecodeVictim hasVisionPad canSpill lot.active = some victim) :
      ParkStep hasVisionPad lot (.leaves victim.1 .requeue) (lot.requeue victim)
  | saveFails {lot : ParkingLot Device Grammar Image} : ParkStep hasVisionPad lot .saveFails lot.spillFails
  | swapIn {lot : ParkingLot Device Grammar Image} {number : Nat} {s : SwappedSeq} {image : Image}
      {answers : ResumeAnswers Device} (parked : (number, s) ∈ lot.swapped)
      (saved : lot.files s.swapId = some image) :
      ParkStep hasVisionPad lot (.returns number .spill answers)
        ((lot.withoutSwapped number s.swapId).resume (number, resumeSwappedSeq s image answers))
  | swapInFails {lot : ParkingLot Device Grammar Image} {number : Nat} {s : SwappedSeq}
      (parked : (number, s) ∈ lot.swapped) :
      ParkStep hasVisionPad lot (.lost number) (lot.withoutSwapped number s.swapId)
  -- No sequence to be had: the file stays behind.
  | swapInRefused {lot : ParkingLot Device Grammar Image} {number : Nat} {s : SwappedSeq}
      (parked : (number, s) ∈ lot.swapped) :
      ParkStep hasVisionPad lot (.lost number) { lot with swapped := lot.swapped.filter (·.1 != number) }
  | resume {lot : ParkingLot Device Grammar Image} {number : Nat} {p : PreemptedSeq Device Grammar}
      {answers : ResumeAnswers Device} (parked : (number, p) ∈ lot.preempted) :
      ParkStep hasVisionPad lot (.returns number .requeue answers)
        ((lot.withoutPreempted number).resume (number, resumePreemptedSeq p answers))
  | resumeFails {lot : ParkingLot Device Grammar Image} {number : Nat} {p : PreemptedSeq Device Grammar}
      (parked : (number, p) ∈ lot.preempted) :
      ParkStep hasVisionPad lot (.lost number) (lot.withoutPreempted number)

namespace ParkingLot

variable {lot lot' : ParkingLot Device Grammar Image} {number : Nat} {a : ActiveSeq Device Grammar}

/-! ## The invariant -/

structure Sound (lot : ParkingLot Device Grammar Image) : Prop where
  requests : lot.requests.Nodup
  files : (lot.swapped.map (·.2.swapId)).Nodup
  numbered : ∀ entry ∈ lot.swapped, entry.2.swapId < lot.nextId

theorem initial_sound : Sound (initial : ParkingLot Device Grammar Image) where
  requests := List.nodup_nil
  files := List.nodup_nil
  numbered _ present := by cases present

theorem Sound.active_nodup (sound : Sound lot) : (lot.active.map (·.1)).Nodup := sound.requests.of_append_left

theorem Sound.swapped_nodup (sound : Sound lot) : (lot.swapped.map (·.1)).Nodup :=
  sound.requests.of_append_right.of_append_left

theorem Sound.preempted_nodup (sound : Sound lot) : (lot.preempted.map (·.1)).Nodup :=
  sound.requests.of_append_right.of_append_right

theorem Sound.unique_live (sound : Sound lot) {b : ActiveSeq Device Grammar} (left : (number, a) ∈ lot.active)
    (right : (number, b) ∈ lot.active) : a = b :=
  congrArg Prod.snd (List.inj_on_of_nodup_map sound.active_nodup left right rfl)

theorem Sound.unique_swapped (sound : Sound lot) {s t : SwappedSeq} (left : (number, s) ∈ lot.swapped)
    (right : (number, t) ∈ lot.swapped) : s = t :=
  congrArg Prod.snd (List.inj_on_of_nodup_map sound.swapped_nodup left right rfl)

theorem Sound.unique_preempted (sound : Sound lot) {p q : PreemptedSeq Device Grammar}
    (left : (number, p) ∈ lot.preempted) (right : (number, q) ∈ lot.preempted) : p = q :=
  congrArg Prod.snd (List.inj_on_of_nodup_map sound.preempted_nodup left right rfl)

theorem Sound.files_apart (sound : Sound lot) {other : Nat} {s t : SwappedSeq} (left : (number, s) ∈ lot.swapped)
    (right : (other, t) ∈ lot.swapped) (differs : number ≠ other) : s.swapId ≠ t.swapId :=
  fun same => differs (congrArg Prod.fst (List.inj_on_of_nodup_map sound.files left right same))

theorem notMem_map_filter {Cell : Type*} (cells : List (Nat × Cell)) (number : Nat) :
    number ∉ (cells.filter (·.1 != number)).map (·.1) := by
  intro present
  obtain ⟨entry, kept, same⟩ := List.mem_map.mp present
  have differs := (List.mem_filter.mp kept).2
  simp [same] at differs

theorem mem_filter_of_ne {Cell : Type*} {cells : List (Nat × Cell)} {entry : Nat × Cell} (present : entry ∈ cells)
    (differs : entry.1 ≠ number) : entry ∈ cells.filter (·.1 != number) :=
  List.mem_filter.mpr ⟨present, bne_iff_ne.mpr differs⟩

/-! ## Each request is in one place -/

theorem requests_withoutActive : List.Sublist (lot.withoutActive number).requests lot.requests :=
  (List.filter_sublist.map _).append_right _

theorem requests_withoutSwapped (swapId : Nat) :
    List.Sublist (lot.withoutSwapped number swapId).requests lot.requests :=
  ((List.filter_sublist.map _).append_right _).append_left _

theorem requests_withoutPreempted : List.Sublist (lot.withoutPreempted number).requests lot.requests :=
  ((List.filter_sublist.map _).append_left _).append_left _

theorem requests_resume (entry : Nat × ActiveSeq Device Grammar) :
    (lot.resume entry).requests.Perm (entry.1 :: lot.requests) := by
  simp only [resume, requests, List.map_append, List.map_cons, List.map_nil, List.append_assoc, List.singleton_append]
  exact List.perm_middle

theorem requests_spill [DeviceImage Device Image] (victim : Nat × ActiveSeq Device Grammar) :
    (lot.spill victim).requests.Perm (victim.1 :: (lot.withoutActive victim.1).requests) := by
  simp only [spill, withoutActive, requests, List.map_append, List.map_cons, List.map_nil, List.append_assoc,
    List.singleton_append]
  rw [← List.append_assoc, ← List.append_assoc]
  exact List.perm_middle

theorem requests_requeue (victim : Nat × ActiveSeq Device Grammar) :
    (lot.requeue victim).requests.Perm (victim.1 :: (lot.withoutActive victim.1).requests) := by
  simp only [requeue, withoutActive, requests, List.map_append, List.map_cons, List.map_nil]
  rw [← List.append_assoc, ← List.append_assoc, ← List.append_assoc]
  exact List.perm_append_singleton _ _

theorem Sound.notMem_withoutActive (sound : Sound lot) (live : (number, a) ∈ lot.active) :
    number ∉ (lot.withoutActive number).requests := by
  have apart := List.disjoint_of_nodup_append sound.requests (List.mem_map_of_mem live)
  intro present
  cases List.mem_append.mp present with
  | inl stillLive => exact notMem_map_filter _ _ stillLive
  | inr parked => exact apart parked

theorem Sound.notMem_withoutSwapped (sound : Sound lot) {s : SwappedSeq} (parked : (number, s) ∈ lot.swapped) :
    number ∉ (lot.withoutSwapped number s.swapId).requests := by
  have here : number ∈ lot.swapped.map (·.1) := List.mem_map_of_mem parked
  intro present
  cases List.mem_append.mp present with
  | inl live => exact List.disjoint_of_nodup_append sound.requests live (List.mem_append_left _ here)
  | inr rest =>
    cases List.mem_append.mp rest with
    | inl stillSwapped => exact notMem_map_filter _ _ stillSwapped
    | inr preempted => exact List.disjoint_of_nodup_append sound.requests.of_append_right here preempted

theorem Sound.notMem_withoutPreempted (sound : Sound lot) {p : PreemptedSeq Device Grammar}
    (parked : (number, p) ∈ lot.preempted) : number ∉ (lot.withoutPreempted number).requests := by
  have here : number ∈ lot.preempted.map (·.1) := List.mem_map_of_mem parked
  intro present
  cases List.mem_append.mp present with
  | inl live => exact List.disjoint_of_nodup_append sound.requests live (List.mem_append_right _ here)
  | inr rest =>
    cases List.mem_append.mp rest with
    | inl swapped => exact List.disjoint_of_nodup_append sound.requests.of_append_right swapped here
    | inr stillPreempted => exact notMem_map_filter _ _ stillPreempted

/-! ## Each step keeps the lot sound -/

theorem Sound.withoutActive (sound : Sound lot) (number : Nat) : Sound (lot.withoutActive number) :=
  ⟨sound.requests.sublist requests_withoutActive, sound.files, sound.numbered⟩

theorem Sound.spillFails (sound : Sound lot) : Sound lot.spillFails where
  requests := sound.requests
  files := sound.files
  numbered entry present := Nat.lt_succ_of_lt (sound.numbered entry present)

theorem Sound.spill [DeviceImage Device Image] (sound : Sound lot) (live : (number, a) ∈ lot.active) :
    Sound (lot.spill (number, a)) where
  requests := (requests_spill (number, a)).nodup_iff.mpr
    (List.nodup_cons.mpr ⟨sound.notMem_withoutActive live, (sound.withoutActive number).requests⟩)
  files := by
    simp only [ParkingLot.spill, List.map_append, List.map_cons, List.map_nil]
    refine List.nodup_append.mpr ⟨sound.files, List.nodup_singleton _, ?_⟩
    intro swapId present other fresh same
    obtain ⟨entry, parked, rfl⟩ := List.mem_map.mp present
    rw [List.mem_singleton.mp fresh] at same
    exact Nat.ne_of_lt (sound.numbered entry parked) same
  numbered entry present := by
    cases List.mem_append.mp present with
    | inl earlier => exact Nat.lt_succ_of_lt (sound.numbered entry earlier)
    | inr fresh =>
      rw [List.mem_singleton.mp fresh]
      exact Nat.lt_succ_self _

theorem Sound.requeue (sound : Sound lot) (live : (number, a) ∈ lot.active) : Sound (lot.requeue (number, a)) where
  requests := (requests_requeue (number, a)).nodup_iff.mpr
    (List.nodup_cons.mpr ⟨sound.notMem_withoutActive live, (sound.withoutActive number).requests⟩)
  files := sound.files
  numbered := sound.numbered

theorem Sound.withoutSwapped (sound : Sound lot) (number swapId : Nat) : Sound (lot.withoutSwapped number swapId) where
  requests := sound.requests.sublist (requests_withoutSwapped swapId)
  files := sound.files.sublist (List.filter_sublist.map _)
  numbered entry present := sound.numbered entry (List.mem_filter.mp present).1

theorem Sound.withoutPreempted (sound : Sound lot) (number : Nat) : Sound (lot.withoutPreempted number) :=
  ⟨sound.requests.sublist requests_withoutPreempted, sound.files, sound.numbered⟩

theorem Sound.resume (sound : Sound lot) {entry : Nat × ActiveSeq Device Grammar} (absent : entry.1 ∉ lot.requests) :
    Sound (lot.resume entry) :=
  ⟨(requests_resume entry).nodup_iff.mpr (List.nodup_cons.mpr ⟨absent, sound.requests⟩), sound.files, sound.numbered⟩

/-- The live sequences may change as they like, as long as they take no parked request's number. -/
theorem Sound.work (sound : Sound lot) {active : List (Nat × ActiveSeq Device Grammar)}
    (apart : (active.map (·.1)).Nodup)
    (fresh : ∀ number ∈ active.map (·.1), number ∈ lot.active.map (·.1) ∨ number ∉ lot.requests) :
    Sound { lot with active } where
  requests := by
    refine List.nodup_append.mpr ⟨apart, sound.requests.of_append_right, ?_⟩
    intro number live other parked same
    subst same
    cases fresh number live with
    | inl before => exact List.disjoint_of_nodup_append sound.requests before parked
    | inr absent => exact absent (List.mem_append_right _ parked)
  files := sound.files
  numbered := sound.numbered

variable [DeviceImage Device Image] {hasVisionPad : List Token → Bool} {label : ParkLabel Device}

theorem Sound.step (sound : Sound lot) (taken : ParkStep hasVisionPad lot label lot') : Sound lot' := by
  cases taken with
  | work apart fresh => exact sound.work apart fresh
  | swapOut chosen => exact sound.spill (admissionVictim_spec chosen).1
  | swapOutFails chosen => exact sound.spillFails.withoutActive _
  | preemptSpill chosen => exact sound.spill (chooseDecodeVictim_spec chosen).1
  | preemptRequeue chosen => exact sound.requeue (chooseDecodeVictim_spec chosen).1
  | saveFails => exact sound.spillFails
  | swapIn parked saved => exact (sound.withoutSwapped _ _).resume (sound.notMem_withoutSwapped parked)
  | swapInFails parked => exact sound.withoutSwapped _ _
  | swapInRefused parked => exact ⟨(sound.withoutSwapped _ 0).requests, (sound.withoutSwapped _ 0).files,
      (sound.withoutSwapped _ 0).numbered⟩
  | resume parked => exact (sound.withoutPreempted _).resume (sound.notMem_withoutPreempted parked)
  | resumeFails parked => exact sound.withoutPreempted _

/-! ## A parked sequence -/

def Parked (way : Way) (number : Nat) (a : ActiveSeq Device Grammar) (lot : ParkingLot Device Grammar Image) : Prop :=
  match way with
  | .spill => ∃ swapId, (number, spillOutSequence a swapId) ∈ lot.swapped ∧
      lot.files swapId = some (DeviceImage.save a.seq.device)
  | .requeue => (number, preemptRequeue a) ∈ lot.preempted

def Restores (Image : Type*) [DeviceImage Device Image] (way : Way) (a b : ActiveSeq Device Grammar)
    (answers : ResumeAnswers Device) : Prop :=
  match way with
  | .spill => SwapRestores a b (DeviceImage.save a.seq.device : Image) answers
  | .requeue => RequeueRestores a b answers

theorem parked_of_leaves (sound : Sound lot) {way : Way} (live : (number, a) ∈ lot.active)
    (taken : ParkStep hasVisionPad lot (.leaves number way) lot') :
    Parked way number a lot' ∧ a.grammarState = none := by
  cases taken with
  | @swapOut victim chosen =>
    obtain ⟨present, free⟩ := admissionVictim_spec chosen
    cases sound.unique_live live present
    exact ⟨⟨lot.nextId, List.mem_append_right _ (List.mem_singleton_self _), Function.update_self ..⟩, free⟩
  | @preemptSpill victim chosen =>
    obtain ⟨present, free⟩ := chooseDecodeVictim_spec chosen
    cases sound.unique_live live present
    exact ⟨⟨lot.nextId, List.mem_append_right _ (List.mem_singleton_self _), Function.update_self ..⟩, free⟩
  | @preemptRequeue victim _ chosen =>
    obtain ⟨present, free⟩ := chooseDecodeVictim_spec chosen
    cases sound.unique_live live present
    exact ⟨List.mem_append_right _ (List.mem_singleton_self _), free⟩

theorem Spilled.kept (sound : Sound lot) (parked : Parked .spill number a lot)
    (taken : ParkStep hasVisionPad lot label lot') (others : label.subject ≠ some number) :
    Parked .spill number a lot' := by
  obtain ⟨swapId, present, saved⟩ := parked
  have older : swapId ≠ lot.nextId := Nat.ne_of_lt (sound.numbered _ present)
  cases taken with
  | work apart fresh => exact ⟨swapId, present, saved⟩
  | swapOut chosen =>
    exact ⟨swapId, List.mem_append_left _ present, (Function.update_of_ne older ..).trans saved⟩
  | swapOutFails chosen => exact ⟨swapId, present, (Function.update_of_ne older ..).trans saved⟩
  | preemptSpill chosen =>
    exact ⟨swapId, List.mem_append_left _ present, (Function.update_of_ne older ..).trans saved⟩
  | preemptRequeue chosen => exact ⟨swapId, present, saved⟩
  | saveFails => exact ⟨swapId, present, (Function.update_of_ne older ..).trans saved⟩
  | swapIn parked image =>
    have differs : number ≠ _ := fun same => others (congrArg some same.symm)
    have apart := sound.files_apart present parked differs
    exact ⟨swapId, mem_filter_of_ne present differs, (Function.update_of_ne apart ..).trans saved⟩
  | swapInFails parked =>
    have differs : number ≠ _ := fun same => others (congrArg some same.symm)
    have apart := sound.files_apart present parked differs
    exact ⟨swapId, mem_filter_of_ne present differs, (Function.update_of_ne apart ..).trans saved⟩
  | swapInRefused parked =>
    have differs : number ≠ _ := fun same => others (congrArg some same.symm)
    exact ⟨swapId, mem_filter_of_ne present differs, saved⟩
  | resume parked => exact ⟨swapId, present, saved⟩
  | resumeFails parked => exact ⟨swapId, present, saved⟩

theorem Requeued.kept (parked : Parked .requeue number a lot) (taken : ParkStep hasVisionPad lot label lot')
    (others : label.subject ≠ some number) : Parked .requeue number a lot' := by
  cases taken with
  | preemptRequeue chosen => exact List.mem_append_left _ parked
  | resume back => exact mem_filter_of_ne parked fun same => others (congrArg some same.symm)
  | resumeFails back => exact mem_filter_of_ne parked fun same => others (congrArg some same.symm)
  | work apart fresh => exact parked
  | swapOut chosen => exact parked
  | swapOutFails chosen => exact parked
  | preemptSpill chosen => exact parked
  | saveFails => exact parked
  | swapIn back image => exact parked
  | swapInFails back => exact parked
  | swapInRefused back => exact parked

theorem Parked.kept (sound : Sound lot) {way : Way} (parked : Parked way number a lot)
    (taken : ParkStep hasVisionPad lot label lot') (others : label.subject ≠ some number) :
    Parked way number a lot' := by
  cases way with
  | spill => exact Spilled.kept sound parked taken others
  | requeue => exact Requeued.kept parked taken others

theorem restores_of_returns (sound : Sound lot) {way : Way} {answers : ResumeAnswers Device}
    (parked : Parked way number a lot) (taken : ParkStep hasVisionPad lot (.returns number way answers) lot') :
    ∃ b, (number, b) ∈ lot'.active ∧ Restores Image way a b answers := by
  cases taken with
  | @swapIn _ s image _ back read =>
    obtain ⟨swapId, present, saved⟩ := parked
    cases sound.unique_swapped back present
    cases Option.some.inj (read.symm.trans saved)
    exact ⟨_, List.mem_append_right _ (List.mem_singleton_self _), resumeSwappedSeq_restores a swapId _ answers⟩
  | @resume _ p _ back =>
    cases sound.unique_preempted back parked
    exact ⟨_, List.mem_append_right _ (List.mem_singleton_self _), resumePreemptedSeq_restores a answers⟩

theorem Parked.waits {labels : List (ParkLabel Device)} {way : Way} (sound : Sound lot) (parked : Parked way number a lot)
    (run : Run (ParkStep hasVisionPad) lot labels lot') (others : ∀ label ∈ labels, label.subject ≠ some number) :
    Sound lot' ∧ Parked way number a lot' := by
  induction run with
  | start => exact ⟨sound, parked⟩
  | @extend labels label middle last earlier taken ih =>
    have before := ih fun label early => others label (List.mem_append_left _ early)
    have other := others label (List.mem_append_right _ (List.mem_singleton_self label))
    exact ⟨before.1.step taken, before.2.kept before.1 taken other⟩

theorem sound_run {labels : List (ParkLabel Device)} (run : Run (ParkStep hasVisionPad) initial labels lot) :
    Sound lot :=
  run.invariant Sound initial_sound fun _ _ _ sound taken => sound.step taken

/-- A sequence that leaves and comes back, the others having done what they like meanwhile, comes back with what the
way keeps of it. -/
theorem parking_restores {before parked middle after : ParkingLot Device Grammar Image}
    {earlier between : List (ParkLabel Device)} {way : Way} {answers : ResumeAnswers Device}
    (run : Run (ParkStep hasVisionPad) initial earlier before) (live : (number, a) ∈ before.active)
    (leaves : ParkStep hasVisionPad before (.leaves number way) parked)
    (rest : Run (ParkStep hasVisionPad) parked between middle)
    (others : ∀ label ∈ between, label.subject ≠ some number)
    (returns : ParkStep hasVisionPad middle (.returns number way answers) after) :
    ∃ b, (number, b) ∈ after.active ∧ Restores Image way a b answers ∧ b.grammarState = a.grammarState := by
  have sound : Sound before := sound_run run
  obtain ⟨gone, noGrammar⟩ := parked_of_leaves sound live leaves
  obtain ⟨sound', waiting⟩ := gone.waits (sound.step leaves) rest others
  obtain ⟨b, back, restores⟩ := restores_of_returns sound' waiting returns
  refine ⟨b, back, restores, ?_⟩
  cases way with
  | spill => exact restores.grammarState.trans noGrammar.symm
  | requeue => exact restores.kept ▸ rfl

/-- A plain sequence is spilled, another starts, and the first comes back. -/
theorem parking_restores_plain : ∃ b : ActiveSeq Unit Empty,
    Restores Unit .spill (ActiveSeq.plain 4) b ⟨.host [], -1, 0, 1⟩ ∧ b.grammarState = none := by
  let live : ParkingLot Unit Empty Unit := { initial with active := [(0, .plain 4)] }
  let joined : ParkingLot Unit Empty Unit := { live.spill (0, .plain 4) with active := [(1, .plain 5)] }
  have starts : ParkStep (fun _ => false) initial .work live :=
    .work (List.nodup_singleton 0) fun _ _ => .inr List.not_mem_nil
  have chosen : admissionVictim live.active = some (0, .plain 4) := rfl
  have leaves : ParkStep (fun _ => false) live (.leaves 0 .spill) (live.spill (0, .plain 4)) := .swapOut chosen
  have joins : ParkStep (fun _ => false) (live.spill (0, .plain 4)) .work joined :=
    .work (List.nodup_singleton 1) (by decide)
  have returns : ParkStep (fun _ => false) joined (.returns 0 .spill ⟨.host [], -1, 0, 1⟩) _ :=
    .swapIn (List.mem_singleton_self _) rfl
  obtain ⟨b, -, restores, same⟩ := parking_restores (.single starts) (List.mem_singleton_self _) leaves (.single joins)
    (by decide) returns
  exact ⟨b, restores, same⟩

end ParkingLot

/-- A cancelled sequence that was spilled and resumed decodes on: it has no cancel flag any more. -/
theorem cancelled_decodes_on : ¬ ∀ (a : ActiveSeq Unit Empty) (answers : ResumeAnswers Unit) (tok : Token)
    (request : RequestAnswers),
    ((resumeSwappedSeq (spillOutSequence a 0) () answers : ActiveSeq Unit Empty).emitToken tok none .quiet
      request).outputTokens = (a.emitToken tok none .quiet request).outputTokens := by
  intro literal
  have same := literal (.plain 4) ⟨.host [], -1, 0, 1⟩ 7 ⟨true, fun _ => true⟩
  revert same
  decide

end Metrale.Scheduler
