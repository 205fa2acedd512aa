import Metrale.Foundation.ByteMemory
import Metrale.Foundation.Runs

/-! # Faulting n-gram rows in (`ngram_cache_fault.rs`)

The misses of a batch are read one after another, or by worker threads that share an index and the first
error.  A worker is a program counter, and the workers interleave as they like.  A read of a file fails,
or finds the files as they are at that moment.  What the bounce buffer held before is left out: a job
copies only bytes that its own read requires. -/

namespace Metrale.Storage

open Metrale.Foundation

/-- The `O_DIRECT` transfer size, `BLOCK`. -/
def block : Nat := 4096

def parallelMin : Nat := 4

def maxWorkers : Nat := 16

inductive Part where
  | row
  | scale
deriving DecidableEq

/-- The bytes of the files at a moment, by the file's index; the scale file is alone. -/
abbrev Files := Part → Nat → Memory UInt8

abbrev Arenas := Part → Memory UInt8

structure FaultJob where
  rowId : UInt64
  slot : UInt32
  blockOff : UInt64
  within : Nat
  nblocks : Nat
  fileIdx : Nat
  dst : Nat
  scale : Option (UInt64 × Nat × Nat)

structure Read where
  part : Part
  rowId : UInt64
  files : Files

def nblocksFor (within rowStride : Nat) : Nat := if within + rowStride > block then 2 else 1

/-- `rowRead` and `scaleRead` are how the reads went; none is an error or a read that was too short. -/
def runOne (rowStride : Nat) (job : FaultJob) (rowRead scaleRead : Option Files) (arenas : Arenas) :
    Bool × List Read × Arenas :=
  match rowRead with
  | none => (false, [], arenas)
  | some files =>
    let bounce := (files .row job.fileIdx).slice job.blockOff.toNat (job.nblocks * block)
    let row := (arenas .row).copyFromSlice job.dst ((bounce.drop job.within).take rowStride)
    let arenas := Function.update arenas .row row
    match job.scale with
    | none => (true, [⟨.row, job.rowId, files⟩], arenas)
    | some (sblock, swithin, sdst) =>
      match scaleRead with
      | none => (false, [⟨.row, job.rowId, files⟩], arenas)
      | some scaleFiles =>
        let bounce := (scaleFiles .scale 0).slice sblock.toNat block
        let scale := (arenas .scale).copyFromSlice sdst ((bounce.drop swithin).take 4)
        (true, [⟨.row, job.rowId, files⟩, ⟨.scale, job.rowId, scaleFiles⟩],
          Function.update arenas .scale scale)

/-! ## One job after another -/

/-- The loop over the jobs: whether it succeeded, what it read, and the arenas it leaves.  `pick` fails
where a job names a file that the table does not have. -/
inductive FaultSerial (rowStride numFiles : Nat) : List FaultJob → Arenas → Bool → List Read → Arenas → Prop where
  | done {arenas} : FaultSerial rowStride numFiles [] arenas true [] arenas
  | unpicked {job rest arenas} (unknown : numFiles ≤ job.fileIdx) :
      FaultSerial rowStride numFiles (job :: rest) arenas false [] arenas
  | failed {job rest rowRead scaleRead arenas reads after} (known : job.fileIdx < numFiles)
      (ran : runOne rowStride job rowRead scaleRead arenas = (false, reads, after)) :
      FaultSerial rowStride numFiles (job :: rest) arenas false reads after
  | next {job rest rowRead scaleRead arenas reads middle ok reads' after} (known : job.fileIdx < numFiles)
      (ran : runOne rowStride job rowRead scaleRead arenas = (true, reads, middle))
      (others : FaultSerial rowStride numFiles rest middle ok reads' after) :
      FaultSerial rowStride numFiles (job :: rest) arenas ok (reads ++ reads') after

/-! ## Worker threads -/

/-- Before `fetch_add`, before `run_one`, before recording an error, before looking for one, or done. -/
inductive Worker where
  | taking
  | holding (index : Nat)
  | failing
  | checking
  | stopped
deriving DecidableEq

structure FaultPool where
  next : Nat
  firstErr : Bool
  workers : List Worker
  reads : List Read
  arenas : Arenas

namespace FaultPool

def start (jobs : List FaultJob) (arenas : Arenas) : FaultPool :=
  { next := 0, firstErr := false, workers := .replicate (min jobs.length maxWorkers) .taking, reads := [], arenas }

inductive Step (rowStride numFiles : Nat) (jobs : List FaultJob) : FaultPool → FaultPool → Prop where
  | take {pool id} (at_ : pool.workers[id]? = some .taking) :
      Step rowStride numFiles jobs pool
        { pool with
          next := pool.next + 1
          workers := pool.workers.set id (if pool.next < jobs.length then .holding pool.next else .stopped) }
  | unpicked {pool id index job} (at_ : pool.workers[id]? = some (.holding index))
      (found : jobs[index]? = some job) (unknown : numFiles ≤ job.fileIdx) :
      Step rowStride numFiles jobs pool { pool with workers := pool.workers.set id .failing }
  | run {pool id index job rowRead scaleRead ok reads arenas} (at_ : pool.workers[id]? = some (.holding index))
      (found : jobs[index]? = some job) (known : job.fileIdx < numFiles)
      (ran : runOne rowStride job rowRead scaleRead pool.arenas = (ok, reads, arenas)) :
      Step rowStride numFiles jobs pool
        { pool with
          reads := pool.reads ++ reads, arenas
          workers := pool.workers.set id (if ok then .checking else .failing) }
  | record {pool id} (at_ : pool.workers[id]? = some .failing) :
      Step rowStride numFiles jobs pool { pool with firstErr := true, workers := pool.workers.set id .stopped }
  | check {pool id} (at_ : pool.workers[id]? = some .checking) :
      Step rowStride numFiles jobs pool
        { pool with workers := pool.workers.set id (if pool.firstErr then .stopped else .taking) }

end FaultPool

/-- A call of `fault_all`; the scope ends when every worker has stopped. -/
inductive FaultAll (serialForced : Bool) (rowStride numFiles : Nat) (jobs : List FaultJob) (arenas : Arenas) :
    Bool → List Read → Arenas → Prop where
  | serial {ok reads after} (few : jobs.length < parallelMin ∨ serialForced = true)
      (ran : FaultSerial rowStride numFiles jobs arenas ok reads after) :
      FaultAll serialForced rowStride numFiles jobs arenas ok reads after
  | parallel {pool} (many : ¬ (jobs.length < parallelMin ∨ serialForced = true))
      (ran : Relation.ReflTransGen (FaultPool.Step rowStride numFiles jobs) (.start jobs arenas) pool)
      (stopped : ∀ worker ∈ pool.workers, worker = .stopped) :
      FaultAll serialForced rowStride numFiles jobs arenas (!pool.firstErr) pool.reads pool.arenas

/-! ## What a job leaves -/

def width (rowStride : Nat) : Part → Nat
  | .row => rowStride
  | .scale => 4

def Arenas.cell (arenas : Arenas) (rowStride : Nat) (part : Part) (slot : Nat) : List UInt8 :=
  (arenas part).slice (slot * width rowStride part) (width rowStride part)

def lastRead (part : Part) (rowId : UInt64) (reads : List Read) : Option Files :=
  latest (fun read => if read.part = part ∧ read.rowId = rowId then some read.files else none) reads

theorem lastRead_others {part : Part} {rowId : UInt64} {earlier reads : List Read}
    (others : ∀ read ∈ reads, read.rowId ≠ rowId) :
    lastRead part rowId (earlier ++ reads) = lastRead part rowId earlier := by
  rw [lastRead, latest_append, latest_silent fun read member => if_neg fun own => others read member own.2]
  rfl

theorem lastRead_own (part : Part) (rowId : UInt64) (earlier : List Read) (files : Files) :
    lastRead part rowId (earlier ++ [⟨part, rowId, files⟩]) = some files := by
  rw [lastRead, latest_concat, if_pos ⟨rfl, rfl⟩]
  rfl

theorem lastRead_other_part {part : Part} {rowId : UInt64} {earlier : List Read} {read : Read}
    (differs : read.part ≠ part) : lastRead part rowId (earlier ++ [read]) = lastRead part rowId earlier := by
  rw [lastRead, latest_concat, if_neg fun own => differs own.1]
  rfl

namespace FaultJob

def source (job : FaultJob) : Part → Option (Nat × Nat)
  | .row => some (job.fileIdx, job.blockOff.toNat + job.within)
  | .scale => job.scale.map fun (sblock, swithin, _) => (0, sblock.toNat + swithin)

structure Fits (rowStride : Nat) (job : FaultJob) : Prop where
  covered : job.within + rowStride ≤ job.nblocks * block
  dst : job.dst = job.slot.toNat * rowStride
  scale : ∀ sblock swithin sdst, job.scale = some (sblock, swithin, sdst) →
    swithin + 4 ≤ block ∧ sdst = job.slot.toNat * 4

def Done (rowStride : Nat) (reads : List Read) (arenas : Arenas) (job : FaultJob) : Prop :=
  ∀ part file position, job.source part = some (file, position) →
    ∃ files, lastRead part job.rowId reads = some files ∧
      arenas.cell rowStride part job.slot.toNat = (files part file).slice position (width rowStride part)

end FaultJob

section Arenas

variable {rowStride : Nat} {arenas : Arenas} {part part' : Part} {slot slot' : Nat} {bytes : List UInt8}

theorem Arenas.cell_update (sized : bytes.length = width rowStride part) :
    Arenas.cell (Function.update arenas part ((arenas part).copyFromSlice (slot * width rowStride part) bytes))
      rowStride part slot = bytes := by
  rw [cell, Function.update_self, ← sized]
  exact Memory.slice_copyFromSlice _ _ _

theorem Arenas.cell_update_other (sized : bytes.length = width rowStride part)
    (differs : slot' ≠ slot ∨ part' ≠ part) :
    Arenas.cell (Function.update arenas part ((arenas part).copyFromSlice (slot * width rowStride part) bytes))
      rowStride part' slot' = arenas.cell rowStride part' slot' := by
  by_cases same : part' = part
  · subst same
    rw [cell, Function.update_self]
    refine Memory.slice_copyFromSlice_apart ?_
    rw [sized]
    exact Memory.cells_apart (differs.resolve_right fun other => other rfl)
  · rw [cell, Function.update_of_ne same]
    rfl

end Arenas

/-- A job writes its own slot only, and one that succeeds leaves there what it has read. -/
structure FaultJob.Ran (rowStride : Nat) (job : FaultJob) (before : Arenas) (ok : Bool) (reads : List Read)
    (after : Arenas) : Prop where
  others : ∀ part slot, slot ≠ job.slot.toNat → after.cell rowStride part slot = before.cell rowStride part slot
  logged : ∀ read ∈ reads, read.rowId = job.rowId
  done : ok = true → job.Done rowStride reads after

section Job

variable {rowStride numFiles : Nat} {job other : FaultJob} {jobs rest : List FaultJob} {arenas before after : Arenas}
  {rowRead scaleRead : Option Files} {ok : Bool} {reads earlier : List Read}

theorem runOne_ran (fits : job.Fits rowStride)
    (ran : runOne rowStride job rowRead scaleRead arenas = (ok, reads, after)) :
    job.Ran rowStride arenas ok reads after := by
  unfold runOne at ran
  split at ran
  · cases ran
    exact ⟨fun _ _ _ => rfl, fun _ member => absurd member List.not_mem_nil, nofun⟩
  · next files =>
    dsimp only at ran
    rw [Memory.slice_within _ fits.covered, fits.dst] at ran
    -- The row's bytes, whose length is the width of a row.
    generalize rowBytes : (files .row job.fileIdx).slice (job.blockOff.toNat + job.within) rowStride = row at ran
    have rowSized : row.length = width rowStride .row := by rw [← rowBytes, Memory.length_slice, width]
    have rowOthers : ∀ part slot, slot ≠ job.slot.toNat →
        Arenas.cell (Function.update arenas .row
          ((arenas .row).copyFromSlice (job.slot.toNat * width rowStride .row) row)) rowStride part slot =
          arenas.cell rowStride part slot :=
      fun part slot differs => Arenas.cell_update_other rowSized (.inl differs)
    split at ran
    · next unscaled =>
      cases ran
      refine ⟨rowOthers, by simp, fun _ part file position source => ?_⟩
      cases part with
      | row =>
        cases source
        exact ⟨files, lastRead_own .row job.rowId [] files, (Arenas.cell_update rowSized).trans rowBytes.symm⟩
      | scale =>
        rw [FaultJob.source, unscaled] at source
        cases source
    · next sblock swithin sdst scaled =>
      obtain ⟨covered, rfl⟩ := fits.scale sblock swithin sdst scaled
      split at ran
      · cases ran
        exact ⟨rowOthers, by simp, nofun⟩
      · next scaleFiles =>
        rw [Memory.slice_within _ covered] at ran
        generalize scaleBytes : (scaleFiles .scale 0).slice (sblock.toNat + swithin) 4 = scale at ran
        have scaleSized : scale.length = width rowStride .scale := by rw [← scaleBytes, Memory.length_slice, width]
        cases ran
        refine ⟨fun part slot differs => ?_, by simp, fun _ part file position source => ?_⟩
        · exact (Arenas.cell_update_other scaleSized (.inl differs)).trans (rowOthers part slot differs)
        cases part with
        | row =>
          cases source
          have apart : Part.row ≠ Part.scale := nofun
          have logged : (⟨.scale, job.rowId, scaleFiles⟩ : Read).part ≠ .row := nofun
          exact ⟨files, (lastRead_other_part logged).trans (lastRead_own .row job.rowId [] files),
            (Arenas.cell_update_other scaleSized (.inr apart)).trans <|
              (Arenas.cell_update rowSized).trans rowBytes.symm⟩
        | scale =>
          rw [FaultJob.source, scaled] at source
          cases source
          exact ⟨scaleFiles, lastRead_own .scale job.rowId [_] scaleFiles,
            (Arenas.cell_update scaleSized).trans scaleBytes.symm⟩

theorem FaultJob.Done.prepend (done : job.Done rowStride earlier before) : job.Done rowStride (reads ++ earlier) before := by
  intro part file position source
  obtain ⟨files, last, held⟩ := done part file position source
  refine ⟨files, ?_, held⟩
  rw [lastRead, latest_append, ← lastRead, last]
  rfl

theorem FaultJob.Done.extend (done : job.Done rowStride reads before)
    (same : ∀ part, after.cell rowStride part job.slot.toNat = before.cell rowStride part job.slot.toNat)
    (others : ∀ read ∈ earlier, read.rowId ≠ job.rowId) : job.Done rowStride (reads ++ earlier) after := by
  intro part file position source
  obtain ⟨files, last, held⟩ := done part file position source
  exact ⟨files, (lastRead_others others).trans last, (same part).trans held⟩

structure Batch (rowStride : Nat) (jobs : List FaultJob) : Prop where
  fits : ∀ job ∈ jobs, job.Fits rowStride
  apart : jobs.Pairwise fun job other => job.slot ≠ other.slot ∧ job.rowId ≠ other.rowId

theorem Batch.apart_at {index index' : Nat} (batch : Batch rowStride jobs) (found : jobs[index]? = some job)
    (found' : jobs[index']? = some other) (differs : index ≠ index') :
    job.slot ≠ other.slot ∧ job.rowId ≠ other.rowId := by
  obtain ⟨bound, rfl⟩ := List.getElem?_eq_some_iff.mp found
  obtain ⟨bound', rfl⟩ := List.getElem?_eq_some_iff.mp found'
  have ordered := List.pairwise_iff_getElem.mp batch.apart
  obtain less | more := Nat.lt_or_gt_of_ne differs
  · exact ordered index index' bound bound' less
  · have apart := ordered index' index bound' bound more
    exact ⟨apart.1.symm, apart.2.symm⟩

/-- The jobs write their own slots only, and if all succeed, each slot holds what was last read of its row. -/
structure Faulted (rowStride : Nat) (jobs : List FaultJob) (before : Arenas) (ok : Bool) (reads : List Read)
    (after : Arenas) : Prop where
  others : ∀ part slot, (∀ job ∈ jobs, slot ≠ job.slot.toNat) →
    after.cell rowStride part slot = before.cell rowStride part slot
  logged : ∀ read ∈ reads, ∃ job ∈ jobs, read.rowId = job.rowId
  done : ok = true → ∀ job ∈ jobs, job.Done rowStride reads after

theorem faultSerial_faulted (batch : Batch rowStride jobs)
    (ran : FaultSerial rowStride numFiles jobs before ok reads after) :
    Faulted rowStride jobs before ok reads after := by
  induction ran with
  | done => exact ⟨fun _ _ _ => rfl, nofun, fun _ _ member => absurd member List.not_mem_nil⟩
  | unpicked unknown => exact ⟨fun _ _ _ => rfl, nofun, nofun⟩
  | @failed job rest _ _ _ reads _ known ran =>
    have ran := runOne_ran (batch.fits job List.mem_cons_self) ran
    exact ⟨fun part slot differs => ran.others part slot (differs job List.mem_cons_self),
      fun read member => ⟨job, List.mem_cons_self, ran.logged read member⟩, nofun⟩
  | @next job rest _ _ _ reads middle ok reads' after known ran _ ih =>
    have ran := runOne_ran (batch.fits job List.mem_cons_self) ran
    obtain ⟨own, apart⟩ := List.pairwise_cons.mp batch.apart
    have faulted := ih ⟨fun other member => batch.fits other (List.mem_cons_of_mem _ member), apart⟩
    refine ⟨fun part slot differs => ?_, fun read member => ?_, fun succeeded other member => ?_⟩
    · exact (faulted.others part slot fun other member => differs other (List.mem_cons_of_mem _ member)).trans
        (ran.others part slot (differs job List.mem_cons_self))
    · obtain here | later := List.mem_append.mp member
      · exact ⟨job, List.mem_cons_self, ran.logged read here⟩
      · obtain ⟨other, member, same⟩ := faulted.logged read later
        exact ⟨other, List.mem_cons_of_mem _ member, same⟩
    -- The jobs that follow have other rows and other slots.
    · obtain rfl | later := List.mem_cons.mp member
      · refine (ran.done rfl).extend (fun part => ?_) fun read member => ?_
        · exact faulted.others part _ fun later member same => (own later member).1 (UInt32.toNat_inj.mp same)
        · obtain ⟨later, member, same⟩ := faulted.logged read member
          rw [same]
          exact (own later member).2.symm
      · exact (faulted.done succeeded other later).prepend

/-! ## The workers' invariant -/

/-- Every job that was taken is done, or in a worker's hands, or an error keeps the call from succeeding. -/
structure FaultPool.Sound (rowStride : Nat) (jobs : List FaultJob) (before : Arenas) (pool : FaultPool) : Prop where
  others : ∀ part slot, (∀ job ∈ jobs, slot ≠ job.slot.toNat) →
    pool.arenas.cell rowStride part slot = before.cell rowStride part slot
  logged : ∀ read ∈ pool.reads, ∃ job ∈ jobs, read.rowId = job.rowId
  taken : ∀ index job, jobs[index]? = some job → index < pool.next → pool.firstErr = false →
    .failing ∉ pool.workers → .holding index ∉ pool.workers → job.Done rowStride pool.reads pool.arenas
  exhausted : .stopped ∈ pool.workers → pool.firstErr = false → jobs.length ≤ pool.next

namespace FaultPool

variable {workers : List Worker} {id : Nat} {old new worker : Worker} {pool after : FaultPool}

theorem mem_set_of_ne (at_ : workers[id]? = some old) (differs : worker ≠ old) (member : worker ∈ workers) :
    worker ∈ workers.set id new := by
  obtain ⟨other, stored⟩ := List.mem_iff_getElem?.mp member
  have apart : id ≠ other := by
    rintro rfl
    exact differs (Option.some.inj (stored.symm.trans at_))
  exact List.mem_iff_getElem?.mpr ⟨other, by rw [List.getElem?_set_ne apart, stored]⟩

theorem mem_set_self (at_ : workers[id]? = some old) : new ∈ workers.set id new :=
  List.mem_iff_getElem?.mpr ⟨id, List.getElem?_set_self (List.getElem?_eq_some_iff.mp at_).1⟩

/-- No worker stops before the jobs have run out, unless a stop is what its turn ends in. -/
theorem Sound.exhausted_of_set (sound : pool.Sound rowStride jobs before) (goes : .stopped ≠ new)
    (stopped : .stopped ∈ pool.workers.set id new) (unfailed : pool.firstErr = false) :
    jobs.length ≤ pool.next :=
  sound.exhausted ((List.mem_or_eq_of_mem_set stopped).resolve_right goes) unfailed

theorem Sound.step (sound : pool.Sound rowStride jobs before) (batch : Batch rowStride jobs)
    (step : Step rowStride numFiles jobs pool after) : after.Sound rowStride jobs before := by
  cases step with
  | @take id at_ =>
    refine ⟨sound.others, sound.logged, fun index job found less unfailed notFailing notHeld => ?_, ?_⟩
    · have notFailing := fun failing => notFailing (mem_set_of_ne at_ nofun failing)
      -- The index just taken is in this worker's hands.
      obtain earlier | rfl := Nat.lt_or_eq_of_le (Nat.le_of_lt_succ less)
      · exact sound.taken index job found earlier unfailed notFailing fun held =>
          notHeld (mem_set_of_ne at_ nofun held)
      · have bound := (List.getElem?_eq_some_iff.mp found).1
        rw [if_pos bound] at notHeld
        exact absurd (mem_set_self at_) notHeld
    · intro stopped unfailed
      obtain before | now := List.mem_or_eq_of_mem_set stopped
      · exact Nat.le_succ_of_le (sound.exhausted before unfailed)
      · split at now
        · cases now
        · next exhausted => exact Nat.le_succ_of_le (Nat.le_of_not_lt exhausted)
  -- From here to its record, the failing worker keeps the call from succeeding.
  | @unpicked id index job at_ found unknown =>
    refine ⟨sound.others, sound.logged, fun _ _ _ _ _ notFailing _ => absurd (mem_set_self at_) notFailing, ?_⟩
    exact sound.exhausted_of_set nofun
  | @run id index job rowRead scaleRead ok reads arenas at_ found known ran =>
    have member := List.mem_of_getElem? found
    have ran := runOne_ran (batch.fits job member) ran
    refine ⟨fun part slot differs => ?_, fun read logged => ?_, ?_, ?_⟩
    · exact (ran.others part slot (differs job member)).trans (sound.others part slot differs)
    · obtain earlier | now := List.mem_append.mp logged
      · exact sound.logged read earlier
      · exact ⟨job, member, ran.logged read now⟩
    · intro other taken stored less unfailed notFailing notHeld
      cases ok with
      | false => exact absurd (mem_set_self at_) notFailing
      | true =>
        -- The job in hand is done now, and a job done before has kept its slot.
        by_cases own : other = index
        · subst own
          cases found.symm.trans stored
          exact (ran.done rfl).prepend
        · have apart : job.slot ≠ taken.slot ∧ job.rowId ≠ taken.rowId :=
            batch.apart_at found stored (Ne.symm own)
          have done := sound.taken other taken stored less unfailed
            (fun failing => notFailing (mem_set_of_ne at_ nofun failing))
            fun held => notHeld (mem_set_of_ne at_ (fun same => own (Worker.holding.inj same)) held)
          refine done.extend (fun part => ran.others part _ fun same => apart.1 ?_) fun read logged => ?_
          · exact (UInt32.toNat_inj.mp same).symm
          · rw [ran.logged read logged]
            exact apart.2
    · exact sound.exhausted_of_set (by cases ok <;> nofun)
  | @record id at_ => exact ⟨sound.others, sound.logged, fun _ _ _ _ unfailed => (nomatch unfailed), fun _ unfailed => nomatch unfailed⟩
  | @check id at_ =>
    refine ⟨sound.others, sound.logged, fun index job found less unfailed notFailing notHeld => ?_, ?_⟩
    · exact sound.taken index job found less unfailed (fun failing => notFailing (mem_set_of_ne at_ nofun failing))
        fun held => notHeld (mem_set_of_ne at_ nofun held)
    · intro stopped unfailed
      refine sound.exhausted_of_set ?_ stopped unfailed
      -- Without an error the worker goes back for another job.
      rw [show pool.firstErr = false from unfailed, if_neg nofun]
      nofun

theorem start_sound : (start jobs before).Sound rowStride jobs before where
  others _ _ _ := rfl
  logged _ member := absurd member List.not_mem_nil
  taken _ _ _ less := absurd less (Nat.not_lt_zero _)
  exhausted stopped := by cases List.eq_of_mem_replicate stopped

theorem workers_length (ran : Relation.ReflTransGen (Step rowStride numFiles jobs) pool after) :
    after.workers.length = pool.workers.length := by
  induction ran with
  | refl => rfl
  | tail _ step ih =>
    rw [← ih]
    cases step <;> exact List.length_set

end FaultPool

theorem faultAll_faulted {serialForced : Bool} (batch : Batch rowStride jobs)
    (ran : FaultAll serialForced rowStride numFiles jobs before ok reads after) :
    Faulted rowStride jobs before ok reads after := by
  cases ran with
  | serial few ran => exact faultSerial_faulted batch ran
  | @parallel pool many ran stopped =>
    have sound : pool.Sound rowStride jobs before := by
      clear stopped
      induction ran with
      | refl => exact FaultPool.start_sound
      | tail _ step ih => exact ih.step batch step
    refine ⟨sound.others, sound.logged, fun succeeded job member => ?_⟩
    have unfailed : pool.firstErr = false := by simpa using succeeded
    obtain ⟨index, found⟩ := List.mem_iff_getElem?.mp member
    have bound := (List.getElem?_eq_some_iff.mp found).1
    -- A worker has stopped without an error, so the jobs had run out.
    have one : .stopped ∈ pool.workers := by
      obtain ⟨worker, present⟩ : ∃ worker, worker ∈ pool.workers := by
        apply List.exists_mem_of_length_pos
        rw [FaultPool.workers_length ran, FaultPool.start, List.length_replicate]
        have workers : 0 < maxWorkers := by decide
        omega
      exact stopped worker present ▸ present
    exact sound.taken index job found (Nat.lt_of_lt_of_le bound (sound.exhausted one unfailed)) unfailed
      (fun failing => nomatch stopped _ failing) fun held => nomatch stopped _ held

end Job

end Metrale.Storage
