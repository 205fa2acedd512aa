import Metrale.Foundation.HashMap
import Metrale.Foundation.Runs
import Metrale.Scheduler.Promote

/-! # Spill files (`kv_spill.rs`, `io/spill.rs`, `preempt.rs`, `lifecycle.rs`, `shutdown_drain.rs`)

The images of the spilled sequences, and the account of their sizes.  What a file operation does is up to its
answers; what a save leaves in its file is the number of bytes it wrote before it worked or failed. -/

namespace Metrale.Scheduler

open Metrale.Foundation

/-- `KvSpillManager`, with the sizes of the files of its directory. -/
structure KvSpillManager where
  files : HashMap Nat Nat
  nextId : Nat
  maxBytes : Nat
  usedBytes : Nat

/-- Whether a file's size is to be had, and whether the file can be removed. -/
structure RemoveAnswers where
  statted : Bool
  unlinked : Bool
deriving DecidableEq

namespace KvSpillManager

def new (maxBytes : Nat) : KvSpillManager := ⟨∅, 0, maxBytes, 0⟩

def createFile (manager : KvSpillManager) (created : Bool) : KvSpillManager × Option Nat :=
  let numbered := { manager with nextId := manager.nextId + 1 }
  if created then ({ numbered with files := manager.files.insert manager.nextId 0 }, some manager.nextId)
  else (numbered, none)

def write (manager : KvSpillManager) (id bytes : Nat) : KvSpillManager :=
  { manager with files := manager.files.insert id bytes }

def openFile (manager : KvSpillManager) (id : Nat) (opened : Bool) : Bool :=
  opened && (manager.files.lookup id).isSome

/-- What `metadata` says of a file. -/
def fileSize (manager : KvSpillManager) (id : Nat) (statted : Bool) : Nat :=
  if statted then (manager.files.lookup id).getD 0 else 0

def removeFile (manager : KvSpillManager) (id : Nat) (answers : RemoveAnswers) : KvSpillManager × Bool :=
  if answers.unlinked && (manager.files.lookup id).isSome then
    ({ manager with
      files := manager.files.erase id
      usedBytes := manager.usedBytes - manager.fileSize id answers.statted }, true)
  else (manager, false)

def recordUsage (manager : KvSpillManager) (id : Nat) (statted : Bool) : KvSpillManager :=
  { manager with usedBytes := manager.usedBytes + manager.fileSize id statted }

def hasSpace (manager : KvSpillManager) (estimatedBytes : Nat) : Bool :=
  decide (manager.usedBytes + estimatedBytes ≤ manager.maxBytes)

end KvSpillManager

/-! ## Out and in again -/

structure SpillLot where
  manager : KvSpillManager
  swapped : List SwappedSeq

structure SaveAnswers where
  created : Bool
  saved : Bool
  written : Nat
  recorded : Bool
  removal : RemoveAnswers

structure RestoreAnswers where
  allocated : Bool
  opened : Bool
  restored : Bool
  removal : RemoveAnswers

variable {Device Grammar : Type*}

namespace SpillLot

def start (maxBytes : Nat) : SpillLot := ⟨.new maxBytes, []⟩

/-- `spill_out_sequence`, and the push of what it returns.  A sequence that is handed back is not swapped. -/
def spillOut (lot : SpillLot) (a : ActiveSeq Device Grammar) (answers : SaveAnswers) : SpillLot :=
  match lot.manager.createFile answers.created with
  | (manager, none) => { lot with manager }
  | (manager, some swapId) =>
    let written := manager.write swapId answers.written
    if answers.saved then
      ⟨written.recordUsage swapId answers.recorded, lot.swapped ++ [spillOutSequence a swapId]⟩
    else { lot with manager := (written.removeFile swapId answers.removal).1 }

end SpillLot

/-- `restore_swapped_image`, and whether there is a sequence to resume. -/
def restoreSwappedImage (manager : KvSpillManager) (swapId : Nat) (answers : RestoreAnswers) :
    KvSpillManager × Bool :=
  if !answers.allocated then (manager, false)
  else if manager.openFile swapId answers.opened && answers.restored then manager.removeFile swapId answers.removal
  else ((manager.removeFile swapId answers.removal).1, false)

namespace SpillLot

/-- The request at this place is swapped in: it leaves the collection whether or not that works. -/
def swapIn (lot : SpillLot) (index : Nat) (answers : RestoreAnswers) : SpillLot :=
  match lot.swapped[index]? with
  | none => lot
  | some s => ⟨(restoreSwappedImage lot.manager s.swapId answers).1, lot.swapped.eraseIdx index⟩

/-- One request of `abort_in_flight_on_shutdown`. -/
def abort (lot : SpillLot) (answers : RemoveAnswers) : SpillLot :=
  match lot.swapped with
  | [] => lot
  | s :: swapped => ⟨(lot.manager.removeFile s.swapId answers).1, swapped⟩

end SpillLot

/-! ## The account -/

def totalSize : List (Sigma fun _ : Nat => Nat) → Nat
  | [] => 0
  | file :: files => file.2 + totalSize files

theorem totalSize_append (files others : List (Sigma fun _ : Nat => Nat)) :
    totalSize (files ++ others) = totalSize files + totalSize others := by
  induction files with
  | nil => simp [totalSize]
  | cons file files ih =>
    simp only [List.cons_append, totalSize, ih]
    omega

theorem totalSize_erase {files : HashMap Nat Nat} {id size : Nat} (found : files.lookup id = some size) :
    totalSize (files.erase id).entries + size = totalSize files.entries := by
  have listed : id ∈ files.entries.keys := by
    have present : id ∈ files := AList.lookup_isSome.mp (by rw [found]; rfl)
    exact AList.mem_keys.mp present
  obtain ⟨held, before, after, -, entries, erased⟩ := List.exists_of_kerase listed
  have same : size = held := by
    have there : (⟨id, held⟩ : Sigma fun _ : Nat => Nat) ∈ files.entries := by simp [entries]
    have looked := AList.mem_lookup_iff.mpr there
    rw [found] at looked
    exact Option.some.inj looked
  have rest : (files.erase id).entries = before ++ after := erased
  rw [rest, entries, totalSize_append, totalSize_append, totalSize, same]
  simp only
  omega

theorem totalSize_insert {files : HashMap Nat Nat} {id : Nat} (absent : id ∉ files) (size : Nat) :
    totalSize (files.insert id size).entries = size + totalSize files.entries := by
  rw [AList.insert_of_notMem absent]
  rfl

namespace SpillLot

/-- There is an image exactly for each request that is swapped out, and the recorded usage is the size of them all. -/
structure Balanced (lot : SpillLot) : Prop where
  images : ∀ id, (lot.manager.files.lookup id).isSome ↔ id ∈ lot.swapped.map (·.swapId)
  used : lot.manager.usedBytes = totalSize lot.manager.files.entries

structure Sound (lot : SpillLot) : Prop extends lot.Balanced where
  apart : (lot.swapped.map (·.swapId)).Nodup
  handedOut : ∀ id ∈ lot.swapped.map (·.swapId), id < lot.manager.nextId

def Removes (manager : KvSpillManager) (id : Nat) (answers : RemoveAnswers) : Prop :=
  answers.unlinked = true ∧ (answers.statted = false → manager.files.lookup id = some 0)

/-- The answers that keep the account.  A save that fails is taken back with bytes that were never recorded, so it has
to have written none, unless there is nothing on record or their number is not to be had. -/
def SaveAnswers.Kept (answers : SaveAnswers) (usedBytes : Nat) : Prop :=
  answers.created = true →
    if answers.saved then answers.recorded = true ∨ answers.written = 0
    else answers.removal.unlinked = true ∧
      (answers.removal.statted = true → answers.written = 0 ∨ usedBytes = 0)

end SpillLot

inductive SpillCall (Device Grammar : Type*) where
  | spillOut (a : ActiveSeq Device Grammar) (answers : SaveAnswers)
  | swapIn (index : Nat) (answers : RestoreAnswers)
  | abort (answers : RemoveAnswers)

namespace SpillLot

def advance (lot : SpillLot) : SpillCall Device Grammar → SpillLot
  | .spillOut a answers => lot.spillOut a answers
  | .swapIn index answers => lot.swapIn index answers
  | .abort answers => lot.abort answers

def Clean (lot : SpillLot) : SpillCall Device Grammar → Prop
  | .spillOut _ answers => SaveAnswers.Kept answers lot.manager.usedBytes
  | .swapIn index answers => ∀ s, lot.swapped[index]? = some s →
      answers.allocated = true ∧ Removes lot.manager s.swapId answers.removal
  | .abort answers => ∀ s, lot.swapped.head? = some s → Removes lot.manager s.swapId answers

/-! ## A removal -/

section Removal

variable {manager : KvSpillManager} {id size : Nat} {answers : RemoveAnswers}

theorem removeFile_unlinked (found : manager.files.lookup id = some size) (unlinked : answers.unlinked = true) :
    (manager.removeFile id answers).1 = { manager with
      files := manager.files.erase id
      usedBytes := manager.usedBytes - if answers.statted then size else 0 } := by
  have present : (answers.unlinked && (manager.files.lookup id).isSome) = true := by simp [unlinked, found]
  rw [KvSpillManager.removeFile, if_pos present]
  simp only [KvSpillManager.fileSize, found, Option.getD_some]

theorem removeFile_kept (unlinked : answers.unlinked = false) : manager.removeFile id answers = (manager, false) := by
  simp [KvSpillManager.removeFile, unlinked]

/-- A removal of a recorded file balances exactly where the file is gone and its size was known. -/
theorem removes_iff (found : manager.files.lookup id = some size)
    (used : manager.usedBytes = totalSize manager.files.entries) :
    Removes manager id answers ↔ ((manager.removeFile id answers).1.files.lookup id).isSome = false ∧
      (manager.removeFile id answers).1.usedBytes =
        totalSize (manager.removeFile id answers).1.files.entries := by
  have balance := totalSize_erase found
  cases unlinked : answers.unlinked with
  | false =>
    rw [removeFile_kept unlinked]
    simp [Removes, unlinked, found]
  | true =>
    rw [removeFile_unlinked found unlinked]
    simp only [Removes, unlinked, found, HashMap.lookup_erase_if, if_pos, Option.isSome_none, true_and,
      Option.some.injEq]
    cases answers.statted with
    | true => simp; omega
    | false => simp; omega

theorem removes_files (found : manager.files.lookup id = some size) (removes : Removes manager id answers) :
    (manager.removeFile id answers).1.files = manager.files.erase id ∧
      (manager.removeFile id answers).1.nextId = manager.nextId := by
  rw [removeFile_unlinked found removes.1]
  exact ⟨rfl, rfl⟩

end Removal

/-! ## One step -/

section Step

variable {lot : SpillLot}

theorem Sound.fresh (sound : lot.Sound) : lot.manager.nextId ∉ lot.swapped.map (·.swapId) :=
  fun listed => absurd (sound.handedOut _ listed) (lt_irrefl _)

theorem Sound.fresh_file (sound : lot.Sound) : lot.manager.nextId ∉ lot.manager.files := by
  intro present
  exact sound.fresh ((sound.images _).mp (AList.lookup_isSome.mpr present))

theorem Sound.image (sound : lot.Sound) {s : SwappedSeq} (listed : s ∈ lot.swapped) :
    ∃ size, lot.manager.files.lookup s.swapId = some size :=
  Option.isSome_iff_exists.mp ((sound.images s.swapId).mpr (List.mem_map_of_mem listed))

theorem spillOut_saved (a : ActiveSeq Device Grammar) {answers : SaveAnswers} (created : answers.created = true)
    (saved : answers.saved = true) : lot.spillOut a answers =
      ⟨{ lot.manager with
          files := (lot.manager.files.insert lot.manager.nextId 0).insert lot.manager.nextId answers.written
          nextId := lot.manager.nextId + 1
          usedBytes := lot.manager.usedBytes + if answers.recorded then answers.written else 0 },
        lot.swapped ++ [spillOutSequence a lot.manager.nextId]⟩ := by
  rw [spillOut, KvSpillManager.createFile, if_pos created]
  simp only [saved, if_true, KvSpillManager.write, KvSpillManager.recordUsage, KvSpillManager.fileSize,
    AList.lookup_insert, Option.getD_some]

theorem spillOut_taken_back (a : ActiveSeq Device Grammar) {answers : SaveAnswers} (created : answers.created = true)
    (unsaved : answers.saved = false) (unlinked : answers.removal.unlinked = true) : lot.spillOut a answers =
      { lot with manager :=
        { lot.manager with
          files := ((lot.manager.files.insert lot.manager.nextId 0).insert lot.manager.nextId answers.written).erase
            lot.manager.nextId
          nextId := lot.manager.nextId + 1
          usedBytes := lot.manager.usedBytes - if answers.removal.statted then answers.written else 0 } } := by
  rw [spillOut, KvSpillManager.createFile, if_pos created]
  simp only [unsaved, Bool.false_eq_true, if_false, KvSpillManager.write]
  rw [removeFile_unlinked (AList.lookup_insert _) unlinked]

theorem spillOut_left_behind (a : ActiveSeq Device Grammar) {answers : SaveAnswers} (created : answers.created = true)
    (unsaved : answers.saved = false) (kept : answers.removal.unlinked = false) : lot.spillOut a answers =
      { lot with manager :=
        { lot.manager with
          files := (lot.manager.files.insert lot.manager.nextId 0).insert lot.manager.nextId answers.written
          nextId := lot.manager.nextId + 1 } } := by
  rw [spillOut, KvSpillManager.createFile, if_pos created]
  simp only [unsaved, Bool.false_eq_true, if_false, KvSpillManager.write]
  rw [removeFile_kept kept]

theorem spillOut_not_created (a : ActiveSeq Device Grammar) {answers : SaveAnswers}
    (failed : answers.created = false) :
    lot.spillOut a answers = { lot with manager := { lot.manager with nextId := lot.manager.nextId + 1 } } := by
  simp [spillOut, KvSpillManager.createFile, failed]

theorem restoreSwappedImage_allocated {manager : KvSpillManager} {swapId : Nat} {answers : RestoreAnswers}
    (allocated : answers.allocated = true) :
    (restoreSwappedImage manager swapId answers).1 = (manager.removeFile swapId answers.removal).1 := by
  simp only [restoreSwappedImage, allocated, Bool.not_true, Bool.false_eq_true, if_false]
  split <;> rfl

theorem restoreSwappedImage_not_allocated {manager : KvSpillManager} {swapId : Nat} {answers : RestoreAnswers}
    (failed : answers.allocated = false) : (restoreSwappedImage manager swapId answers).1 = manager := by
  simp [restoreSwappedImage, failed]

theorem mem_eraseIdx_iff {ids : List Nat} {index id : Nat} (apart : ids.Nodup) (held : ids[index]? = some id)
    (other : Nat) : other ∈ ids.eraseIdx index ↔ other ∈ ids ∧ other ≠ id := by
  obtain ⟨inRange, found⟩ := List.getElem?_eq_some_iff.mp held
  rw [List.mem_eraseIdx_iff_getElem?]
  constructor
  · rintro ⟨place, away, there⟩
    refine ⟨List.mem_of_getElem? there, ?_⟩
    rintro rfl
    obtain ⟨placeInRange, foundThere⟩ := List.getElem?_eq_some_iff.mp there
    exact away (apart.getElem_inj_iff.mp (foundThere.trans found.symm))
  · rintro ⟨listed, different⟩
    obtain ⟨place, there⟩ := List.mem_iff_getElem?.mp listed
    refine ⟨place, ?_, there⟩
    rintro rfl
    exact different (Option.some.inj (there.symm.trans held))

theorem Sound.taken (sound : lot.Sound) {index : Nat} {s : SwappedSeq} (held : lot.swapped[index]? = some s)
    {answers : RemoveAnswers} (removes : Removes lot.manager s.swapId answers) :
    Sound ⟨(lot.manager.removeFile s.swapId answers).1, lot.swapped.eraseIdx index⟩ := by
  obtain ⟨size, found⟩ := sound.image (List.mem_of_getElem? held)
  obtain ⟨files, nextId⟩ := removes_files found removes
  have heldId : (lot.swapped.map (·.swapId))[index]? = some s.swapId := by simp [held]
  have left := mem_eraseIdx_iff sound.apart heldId
  refine ⟨⟨?images, ?used⟩, ?apart, ?handedOut⟩
  case images =>
    intro id
    have image := sound.images id
    rw [files, HashMap.lookup_erase_if, ← List.eraseIdx_map, left id]
    by_cases same : id = s.swapId
    · simp [same]
    · simp only [same, if_false, ne_eq, not_false_eq_true, and_true]
      exact image
  case used => exact ((removes_iff found sound.used).mp removes).2
  case apart =>
    rw [← List.eraseIdx_map]
    exact sound.apart.sublist (List.eraseIdx_sublist _ _)
  case handedOut =>
    intro id listed
    rw [← List.eraseIdx_map, left id] at listed
    rw [nextId]
    exact sound.handedOut id listed.1

theorem Sound.removes_of_balanced (sound : lot.Sound) {index : Nat} {s : SwappedSeq}
    (held : lot.swapped[index]? = some s) {answers : RemoveAnswers}
    (balanced : Balanced ⟨(lot.manager.removeFile s.swapId answers).1, lot.swapped.eraseIdx index⟩) :
    Removes lot.manager s.swapId answers := by
  obtain ⟨size, found⟩ := sound.image (List.mem_of_getElem? held)
  have heldId : (lot.swapped.map (·.swapId))[index]? = some s.swapId := by simp [held]
  refine (removes_iff found sound.used).mpr ⟨?_, balanced.used⟩
  rw [Bool.eq_false_iff]
  intro present
  have listed := (balanced.images s.swapId).mp present
  rw [← List.eraseIdx_map, mem_eraseIdx_iff sound.apart heldId] at listed
  exact listed.2 rfl

theorem totalSize_written (sound : lot.Sound) (written : Nat) :
    totalSize ((lot.manager.files.insert lot.manager.nextId 0).insert lot.manager.nextId written).entries =
      written + totalSize lot.manager.files.entries := by
  rw [AList.insert_insert]
  exact totalSize_insert sound.fresh_file written

theorem lookup_written (lot : SpillLot) (written id : Nat) :
    ((lot.manager.files.insert lot.manager.nextId 0).insert lot.manager.nextId written).lookup id =
      if id = lot.manager.nextId then some written else lot.manager.files.lookup id := by
  rw [AList.insert_insert, HashMap.lookup_insert_if]

theorem totalSize_taken_back (sound : lot.Sound) (written : Nat) :
    totalSize (((lot.manager.files.insert lot.manager.nextId 0).insert lot.manager.nextId written).erase
      lot.manager.nextId).entries = totalSize lot.manager.files.entries := by
  have found := lookup_written lot written lot.manager.nextId
  rw [if_pos rfl] at found
  have balance := totalSize_erase found
  rw [totalSize_written sound written] at balance
  omega

theorem Sound.spillOut (sound : lot.Sound) (a : ActiveSeq Device Grammar) {answers : SaveAnswers}
    (kept : SaveAnswers.Kept answers lot.manager.usedBytes) : (lot.spillOut a answers).Sound := by
  have fresh := sound.fresh
  have used := sound.used
  have later : ∀ id ∈ lot.swapped.map (·.swapId), id < lot.manager.nextId + 1 :=
    fun id listed => Nat.lt_succ_of_lt (sound.handedOut id listed)
  cases created : answers.created with
  | false =>
    rw [spillOut_not_created a created]
    exact ⟨⟨sound.images, used⟩, sound.apart, later⟩
  | true =>
    have allowed := kept created
    cases saved : answers.saved with
    | true =>
      rw [saved, if_pos rfl] at allowed
      rw [spillOut_saved a created saved]
      refine ⟨⟨?images, ?used⟩, ?apart, ?handedOut⟩
      case images =>
        intro id
        simp only [lookup_written, List.map_append, List.map_cons, List.map_nil, List.mem_append, List.mem_singleton,
          spillOutSequence]
        by_cases same : id = lot.manager.nextId
        · simp [same]
        · simp only [same, if_false, or_false]
          exact sound.images id
      case used =>
        simp only [totalSize_written sound, used]
        rcases allowed with recorded | none_written
        · simp [recorded]; omega
        · simp [none_written]
      case apart =>
        simp only [List.map_append, List.map_cons, List.map_nil, spillOutSequence]
        exact List.nodup_append.mpr ⟨sound.apart, List.nodup_singleton _, by
          intro id listed other single
          rw [List.mem_singleton.mp single]
          exact ne_of_mem_of_not_mem listed fresh⟩
      case handedOut =>
        simp only [List.map_append, List.map_cons, List.map_nil, spillOutSequence]
        intro id listed
        rcases List.mem_append.mp listed with earlier | single
        · exact later id earlier
        · rw [List.mem_singleton.mp single]
          exact Nat.lt_succ_self _
    | false =>
      rw [saved, if_neg Bool.false_ne_true] at allowed
      obtain ⟨unlinked, unrecorded⟩ := allowed
      rw [spillOut_taken_back a created saved unlinked]
      refine ⟨⟨?images, ?used⟩, sound.apart, later⟩
      case images =>
        intro id
        simp only [HashMap.lookup_erase_if, lookup_written]
        by_cases same : id = lot.manager.nextId
        · simp [same]
          simpa using fresh
        · simp only [same, if_false]
          exact sound.images id
      case used =>
        simp only [totalSize_taken_back sound]
        rw [← used]
        split
        · next statted =>
          rcases unrecorded statted with nothing | nothing
          · simp [nothing]
          · simp [nothing]
        · rfl

theorem Sound.kept_of_balanced (sound : lot.Sound) (a : ActiveSeq Device Grammar) {answers : SaveAnswers}
    (balanced : (lot.spillOut a answers).Balanced) : SaveAnswers.Kept answers lot.manager.usedBytes := by
  have fresh := sound.fresh
  have used := sound.used
  intro created
  cases saved : answers.saved with
  | true =>
    rw [if_pos rfl]
    rw [spillOut_saved a created saved] at balanced
    have afterwards := balanced.used
    simp only [totalSize_written sound, used] at afterwards
    cases recorded : answers.recorded with
    | true => exact .inl rfl
    | false =>
      refine .inr ?_
      simpa [recorded] using afterwards
  | false =>
    rw [if_neg Bool.false_ne_true]
    cases unlinked : answers.removal.unlinked with
    | false =>
      rw [spillOut_left_behind a created saved unlinked] at balanced
      have listed := balanced.images lot.manager.nextId
      simp only [lookup_written, if_true, Option.isSome_some, true_iff] at listed
      exact absurd listed fresh
    | true =>
      refine ⟨rfl, fun statted => ?_⟩
      rw [spillOut_taken_back a created saved unlinked] at balanced
      have afterwards := balanced.used
      simp only [totalSize_taken_back sound, statted, if_true] at afterwards
      omega

end Step

/-! ## Whole runs -/

theorem start_sound (maxBytes : Nat) : (start maxBytes).Sound where
  images id := by simp [start, KvSpillManager.new]
  used := rfl
  apart := List.nodup_nil
  handedOut id listed := by simp [start] at listed

theorem Sound.advance {lot : SpillLot} (sound : lot.Sound) (call : SpillCall Device Grammar)
    (clean : lot.Clean call) : (lot.advance call).Sound := by
  cases call with
  | spillOut a answers => exact sound.spillOut a clean
  | swapIn index answers =>
    simp only [SpillLot.advance, swapIn]
    cases held : lot.swapped[index]? with
    | none => exact sound
    | some s =>
      obtain ⟨allocated, removes⟩ := clean s held
      simp only [restoreSwappedImage_allocated allocated]
      exact sound.taken held removes
  | abort answers =>
    simp only [SpillLot.advance, abort]
    cases rest : lot.swapped with
    | nil => exact sound
    | cons s swapped =>
      have held : lot.swapped[0]? = some s := by simp [rest]
      have taken := sound.taken held (clean s (by simp [rest]))
      rw [rest, List.eraseIdx_cons_zero] at taken
      exact taken

theorem Sound.clean_of_balanced {lot : SpillLot} (sound : lot.Sound) (call : SpillCall Device Grammar)
    (balanced : (lot.advance call).Balanced) : lot.Clean call := by
  cases call with
  | spillOut a answers => exact sound.kept_of_balanced a balanced
  | swapIn index answers =>
    intro s held
    simp only [SpillLot.advance, swapIn, held] at balanced
    cases allocated : answers.allocated with
    | true =>
      rw [restoreSwappedImage_allocated allocated] at balanced
      exact ⟨rfl, sound.removes_of_balanced held balanced⟩
    | false =>
      rw [restoreSwappedImage_not_allocated allocated] at balanced
      have image := sound.image (List.mem_of_getElem? held)
      have heldId : (lot.swapped.map (·.swapId))[index]? = some s.swapId := by simp [held]
      have listed := (balanced.images s.swapId).mp (Option.isSome_iff_exists.mpr image)
      rw [← List.eraseIdx_map, mem_eraseIdx_iff sound.apart heldId] at listed
      exact absurd rfl listed.2
  | abort answers =>
    intro s first
    cases rest : lot.swapped with
    | nil => simp [rest] at first
    | cons head swapped =>
      obtain rfl : head = s := by simpa [rest] using first
      have held : lot.swapped[0]? = some head := by simp [rest]
      refine sound.removes_of_balanced held ?_
      simp only [SpillLot.advance, abort, rest] at balanced
      rw [rest, List.eraseIdx_cons_zero]
      exact balanced

/-- Over any run of swap-outs, resumes and aborts, images and account are right in every state exactly when no step
of the run loses an image or a byte. -/
theorem run_images_iff (maxBytes : Nat) (calls : List (SpillCall Device Grammar)) :
    (∀ earlier later, calls = earlier ++ later → (earlier.foldl advance (start maxBytes)).Balanced) ↔
      ∀ earlier call later, calls = earlier ++ call :: later →
        (earlier.foldl advance (start maxBytes)).Clean call :=
  always_iff (start_sound maxBytes) (fun _ sound => sound.toBalanced)
    (fun _ call sound clean => sound.advance call clean)
    (fun _ call sound balanced => sound.clean_of_balanced call balanced)

/-- A request is spilled with ten bytes; when it is to be resumed, the device has no room for it.  The request is gone
and its image stays. -/
theorem resume_leaves_image : ¬∀ (maxBytes : Nat) (calls : List (SpillCall Unit Empty)) (earlier later),
    calls = earlier ++ later → (earlier.foldl advance (start maxBytes)).Balanced := by
  intro always
  have balanced := always 100
    [.spillOut (ActiveSeq.plain 1) ⟨true, true, 10, true, ⟨true, true⟩⟩, .swapIn 0 ⟨false, true, true, ⟨true, true⟩⟩]
    _ [] (List.append_nil _).symm
  have listed : 0 ∈ ([] : List Nat) := (balanced.images 0).mp (by decide)
  exact absurd listed List.not_mem_nil

end SpillLot

end Metrale.Scheduler
