import Metrale.Server.ResponseIndex

/-! # Stored responses after a restart

Once the queue has drained, the directory holds the file of each entry in memory.  The invariant speaks of the files
as they will be when the thread has done all that is before it. -/

namespace Metrale.Server

open Metrale.Foundation

/-! ## One entry -/

section Entry

variable (reread : Value → Option Value)

def StoredEntry.restored (source : StoredEntry) (now : Nat) : Option StoredEntry :=
  (reread source.body).map fun body =>
    { source with messages := source.messages.map (·.onDisk), body, lastAccess := now }

/-- The entry is the one that was inserted, or what a replay has made of it, whenever it was last used. -/
def StoredEntry.Kept (source entry : StoredEntry) : Prop :=
  ∃ seen, entry = { source with lastAccess := seen } ∨ source.restored reread seen = some entry

/-- `serde_json` reads back what holds no number and is not deep, such as the messages. -/
def ReadsMessages : Prop :=
  ∀ messages : List IncomingMessage, reread (messagesToDiskJson messages) = some (messagesToDiskJson messages)

variable {reread} {source entry : StoredEntry}

theorem StoredEntry.kept_self (source : StoredEntry) : source.Kept reread source := ⟨source.lastAccess, .inl rfl⟩

theorem StoredEntry.Kept.refresh (kept : source.Kept reread entry) (now : Nat) :
    source.Kept reread { entry with lastAccess := now } := by
  obtain ⟨seen, rfl | restored⟩ := kept
  · exact ⟨now, .inl rfl⟩
  · refine ⟨now, .inr ?_⟩
    obtain ⟨body, read, rfl⟩ := Option.map_eq_some_iff.mp restored
    simp [StoredEntry.restored, read]

theorem fromSlice_toDisk (plain : ReadsMessages reread) (source : StoredEntry) (wall : Nat) :
    (source.toDisk wall).fromSlice reread = (reread source.body).map fun body => { source.toDisk wall with body } := by
  cases read : reread source.body with
  | none => simp [DiskEntry.fromSlice, StoredEntry.toDisk, plain source.messages, read]
  | some body => simp [DiskEntry.fromSlice, StoredEntry.toDisk, plain source.messages, read]

theorem replayFile_toDisk (plain : ReadsMessages reread) (source : StoredEntry) (wall ttl nowUnix now : Nat) :
    replayFile reread (source.toDisk wall) ttl nowUnix now =
      if asSecs ttl < nowUnix - wall then none else source.restored reread now := by
  rw [replayFile, fromSlice_toDisk plain]
  cases read : reread source.body with
  | none => simp [StoredEntry.restored, read]
  | some body =>
    simp [DiskEntry.stale, StoredEntry.toDisk, StoredEntry.restored, read, messages_back]

theorem dropsFile_toDisk (plain : ReadsMessages reread) (source : StoredEntry) (wall ttl nowUnix : Nat) :
    dropsFile reread (source.toDisk wall) ttl nowUnix =
      ((reread source.body).isSome && decide (asSecs ttl < nowUnix - wall)) := by
  rw [dropsFile, fromSlice_toDisk plain]
  cases read : reread source.body with
  | none => simp
  | some body => simp [DiskEntry.stale, StoredEntry.toDisk]

end Entry

/-! ## The files that are to be -/

namespace FilesystemBackend

variable {backend : FilesystemBackend}

def settledFiles (backend : FilesystemBackend) : HashMap String DiskEntry :=
  (backend.working.toList ++ backend.queue).foldl (fun files op => op.run files) backend.files

def HasRoom (backend : FilesystemBackend) : Prop := backend.queue.length < diskQueueDepth

theorem submit_settled (room : backend.HasRoom) (op : DiskOp) (worked : Bool) :
    (backend.submit op worked).settledFiles = op.run backend.settledFiles := by
  have short : backend.queue.length < diskQueueDepth := room
  rw [submit, if_pos short]
  simp [settledFiles]

theorem receive_settled : backend.receive.settledFiles = backend.settledFiles := by
  unfold receive
  split
  · next op queue idle waiting => simp [settledFiles, idle, waiting]
  · rfl

theorem finish_settled : (backend.finish true).settledFiles = backend.settledFiles := by
  unfold finish
  split
  · rfl
  · next op working => simp [settledFiles, working]

theorem drained_settled (drained : backend.drained = true) : backend.settledFiles = backend.files := by
  simp only [FilesystemBackend.drained, Bool.and_eq_true, List.isEmpty_iff, Option.isNone_iff_eq_none] at drained
  simp [settledFiles, drained.1, drained.2]

end FilesystemBackend

/-! ## Memory and disk -/

/-- The entry that a step hands to the queue under this id, and the time of it. -/
def StoreStep.persists (id : String) : StoreStep → Option (StoredEntry × Nat)
  | .persist entry nowUnix _ => if entry.id = id then some (entry, nowUnix) else none
  | _ => none

def StoreStep.restarts : StoreStep → Bool
  | .restart .. => true
  | _ => false

namespace ResponseStore

variable {reread : Value → Option Value} {store : ResponseStore}

def underway (store : ResponseStore) : List String := store.inserting.map (·.id)

/-- The step is none of those that lose track: ids are minted, the disk works and its queue has room, and an id is
neither inserted nor removed while another `insert` of it is under way. -/
structure Orderly (store : ResponseStore) (step : StoreStep) : Prop where
  minted : ∀ entry nowUnix worked, step = .persist entry nowUnix worked →
    (∃ bytes, bytes.length = 16 ∧ entry.id = mintId entry.kind bytes) ∧ entry.id ∉ store.underway ∧ store.backend.HasRoom
  removal : ∀ id, store.removes step = some id → id ∉ store.underway ∧ store.backend.HasRoom
  done : ∀ worked, step = .finish worked → worked = true
  replayed : ∀ listing answers nowUnix now, step = .restart listing answers nowUnix now →
    ∀ stem, (answers stem).read = true ∧ (answers stem).removed = true

def Present (store : ResponseStore) (id : String) : Prop := id ∈ store.inner.map ∨ id ∈ store.underway

/-- `written` is what was last handed to the queue under an id, and the time of it. -/
structure Agrees (reread : Value → Option Value) (written : String → Option (StoredEntry × Nat)) (store : ResponseStore) :
    Prop where
  shaped : ∀ id, store.Present id → sanitizeId id = id
  stored : ∀ id, store.Present id → ∃ source wall, written id = some (source, wall) ∧
    store.backend.settledFiles.lookup id = some (source.toDisk wall)
  backed : ∀ stem disk, store.backend.settledFiles.lookup stem = some disk →
    ∃ source wall, written stem = some (source, wall) ∧ disk = source.toDisk wall ∧ source.id = stem ∧
      (store.Present stem ∨ reread source.body = none)
  held : ∀ id entry, store.inner.map.lookup id = some entry → id ∉ store.underway →
    ∃ source wall, written id = some (source, wall) ∧ source.Kept reread entry
  waiting : ∀ entry ∈ store.inserting, ∃ wall, written entry.id = some (entry, wall)

variable {written : String → Option (StoredEntry × Nat)}

theorem start_agrees (reread : Value → Option Value) (ttl maxEntries : Nat) :
    (start ttl maxEntries).Agrees reread fun _ => none where
  shaped id present := by simp [start, Present, underway, Inner.empty] at present
  stored id present := by simp [start, Present, underway, Inner.empty] at present
  backed stem disk found := by cases found
  held id entry found := by cases found
  waiting entry waits := by cases waits

theorem persist_agrees (agrees : store.Agrees reread written) {entry : StoredEntry} {nowUnix : Nat} {worked : Bool}
    (shape : sanitizeId entry.id = entry.id) (fresh : entry.id ∉ store.underway) (room : store.backend.HasRoom) :
    (store.persist entry nowUnix worked).Agrees reread fun id =>
      if entry.id = id then some (entry, nowUnix) else written id := by
  have files : (store.persist entry nowUnix worked).backend.settledFiles =
      store.backend.settledFiles.insert entry.id (entry.toDisk nowUnix) := by
    rw [persist, FilesystemBackend.persist, FilesystemBackend.submit_settled room, DiskOp.run]
    rw [StoredEntry.toDisk, shape]
  have present : ∀ id, (store.persist entry nowUnix worked).Present id ↔ store.Present id ∨ id = entry.id := by
    intro id
    simp [Present, persist, underway, or_assoc]
  constructor
  · intro id there
    obtain before | rfl := (present id).mp there
    · exact agrees.shaped id before
    · exact shape
  · intro id there
    rw [files, HashMap.lookup_insert_if]
    by_cases same : id = entry.id
    · subst same
      exact ⟨entry, nowUnix, by simp, by simp⟩
    · rw [if_neg (Ne.symm same), if_neg same]
      exact agrees.stored id (((present id).mp there).resolve_right same)
  · intro stem disk found
    rw [files, HashMap.lookup_insert_if] at found
    by_cases same : stem = entry.id
    · subst same
      rw [if_pos rfl] at found
      cases found
      exact ⟨entry, nowUnix, by simp, rfl, rfl, .inl ((present _).mpr (.inr rfl))⟩
    · rw [if_neg same] at found
      rw [if_neg (Ne.symm same)]
      obtain ⟨source, wall, last, disk, id, kept⟩ := agrees.backed stem disk found
      exact ⟨source, wall, last, disk, id, kept.imp_left fun before => (present stem).mpr (.inl before)⟩
  · intro id other found idle
    have apart : id ∉ store.underway ∧ id ≠ entry.id := by simpa [persist, underway, not_or] using idle
    rw [if_neg (Ne.symm apart.2)]
    exact agrees.held id other found apart.1
  · intro other waits
    obtain before | last := List.mem_append.mp waits
    · have apart : entry.id ≠ other.id := by
        intro same
        exact fresh (same ▸ List.mem_map_of_mem before)
      rw [if_neg apart]
      exact agrees.waiting other before
    · rw [List.mem_singleton.mp last]
      exact ⟨nowUnix, if_pos rfl⟩

/-- What matters of a store is what is present, and what its directory is going to be. -/
theorem Agrees.congr {after : ResponseStore} (agrees : store.Agrees reread written)
    (files : after.backend.settledFiles = store.backend.settledFiles) (inner : after.inner = store.inner)
    (inserting : after.inserting = store.inserting) : after.Agrees reread written := by
  have underway : after.underway = store.underway := by rw [ResponseStore.underway, inserting, ResponseStore.underway]
  have present : ∀ id, after.Present id ↔ store.Present id := by
    intro id
    rw [Present, inner, underway, Present]
  constructor
  · intro id there
    exact agrees.shaped id ((present id).mp there)
  · intro id there
    rw [files]
    exact agrees.stored id ((present id).mp there)
  · intro stem disk found
    rw [present]
    rw [files] at found
    exact agrees.backed stem disk found
  · rw [inner, underway]
    exact agrees.held
  · rw [inserting]
    exact agrees.waiting

theorem underway_placed {index : Nat} {entry : StoredEntry} (waiting : store.inserting[index]? = some entry) (id : String) :
    id ∈ store.underway ↔ id = entry.id ∨ id ∈ (store.inserting.eraseIdx index).map (·.id) := by
  obtain ⟨within, here⟩ := List.getElem?_eq_some_iff.mp waiting
  have parts := (List.getElem_cons_eraseIdx_perm within).map (·.id)
  rw [here, List.map_cons] at parts
  rw [underway, ← parts.mem_iff, List.mem_cons]

theorem placed_agrees (agrees : store.Agrees reread written) {index : Nat} {entry : StoredEntry}
    (waiting : store.inserting[index]? = some entry) (evicting : Bool) :
    Agrees reread written { store with
      inner := store.inner.insert entry
      inserting := store.inserting.eraseIdx index
      evicting } := by
  have present : ∀ id, Present { store with
      inner := store.inner.insert entry
      inserting := store.inserting.eraseIdx index
      evicting } id ↔ store.Present id := by
    intro id
    have split := underway_placed waiting id
    simp only [Present, Inner.insert, AList.mem_insert]
    rw [split, underway]
    tauto
  constructor
  · intro id there
    exact agrees.shaped id ((present id).mp there)
  · intro id there
    exact agrees.stored id ((present id).mp there)
  · intro stem disk found
    rw [present]
    exact agrees.backed stem disk found
  · intro id other found idle
    rw [Inner.insert, HashMap.lookup_insert_if] at found
    by_cases same : id = entry.id
    · rw [if_pos same] at found
      cases found
      obtain ⟨wall, last⟩ := agrees.waiting _ (List.mem_of_getElem? waiting)
      rw [same]
      exact ⟨entry, wall, last, entry.kept_self⟩
    · rw [if_neg same] at found
      apply agrees.held id other found
      rw [underway_placed waiting]
      exact not_or.mpr ⟨same, idle⟩
  · intro other waits
    exact agrees.waiting other (List.mem_of_mem_eraseIdx waits)

theorem removed_agrees (agrees : store.Agrees reread written) {id : String} (present : id ∈ store.inner.map)
    (alone : id ∉ store.underway) (room : store.backend.HasRoom) (worked evicting : Bool) :
    Agrees reread written { store.remove id worked with evicting } := by
  have files : (store.remove id worked).backend.settledFiles = store.backend.settledFiles.erase id := by
    rw [remove, FilesystemBackend.forget, FilesystemBackend.submit_settled room, DiskOp.run,
      agrees.shaped id (.inl present)]
  have left : ∀ other, Present { store.remove id worked with evicting } other ↔ store.Present other ∧ other ≠ id := by
    intro other
    simp only [Present, remove, Inner.drop, AList.mem_erase, underway]
    by_cases same : other = id
    · subst same
      simpa [underway] using alone
    · simp [same]
  constructor
  · intro other there
    exact agrees.shaped other ((left other).mp there).1
  · intro other there
    obtain ⟨before, apart⟩ := (left other).mp there
    simp only [files, HashMap.lookup_erase_if, if_neg apart]
    exact agrees.stored other before
  · intro stem disk found
    simp only [files, HashMap.lookup_erase_if] at found
    split at found
    · cases found
    · next apart =>
      rw [left]
      obtain ⟨source, wall, last, disk, id, kept⟩ := agrees.backed stem disk found
      exact ⟨source, wall, last, disk, id, kept.imp_left fun before => ⟨before, apart⟩⟩
  · intro other entry found idle
    simp only [remove, Inner.drop, HashMap.lookup_erase_if] at found
    split at found
    · cases found
    · exact agrees.held other entry found idle
  · exact agrees.waiting

theorem refreshed_agrees (agrees : store.Agrees reread written) {id : String} {entry : StoredEntry} {now : Nat}
    (found : store.inner.map.lookup id = some entry) :
    Agrees reread written { store with inner := store.inner.refresh id entry now } := by
  have there : id ∈ store.inner.map := AList.lookup_isSome.mp (by rw [found]; rfl)
  have present : ∀ other, Present { store with inner := store.inner.refresh id entry now } other ↔ store.Present other := by
    intro other
    simp only [Present, Inner.refresh, AList.mem_insert, underway]
    by_cases same : other = id
    · subst same
      simp [there]
    · simp [same]
  constructor
  · intro other held
    exact agrees.shaped other ((present other).mp held)
  · intro other held
    exact agrees.stored other ((present other).mp held)
  · intro stem disk onDisk
    rw [present]
    exact agrees.backed stem disk onDisk
  · intro other seen held idle
    simp only [Inner.refresh, HashMap.lookup_insert_if] at held
    split at held
    · next same =>
      subst same
      cases held
      obtain ⟨source, wall, last, kept⟩ := agrees.held other entry found idle
      exact ⟨source, wall, last, kept.refresh now⟩
    · exact agrees.held other seen held idle
  · exact agrees.waiting

/-! ## The replay -/

variable {listing : List String} {answers : String → FileAnswers} {nowUnix now : Nat}

theorem settled_idle (settled : store.settled = true) : store.underway = [] ∧ store.backend.settledFiles = store.backend.files := by
  simp only [ResponseStore.settled, Bool.and_eq_true, List.isEmpty_iff] at settled
  exact ⟨by rw [underway, settled.1.1, List.map_nil], FilesystemBackend.drained_settled settled.2⟩

theorem settled_drained (settled : store.settled = true) : store.backend.drained = true := by
  rw [ResponseStore.settled, Bool.and_eq_true] at settled
  exact settled.2

theorem settled_quiet (settled : store.settled = true) : store.evicting = false := by
  simp only [ResponseStore.settled, Bool.and_eq_true] at settled
  simpa using settled.1.2

/-- If each file is named by its id and can be read, the replay gives an id what it makes of its file. -/
theorem reopen_lookup (sound : store.Sound)
    (own : ∀ stem disk, store.backend.files.lookup stem = some disk → disk.id = stem)
    (listed : listing.Perm store.backend.files.keys) (readable : ∀ stem, (answers stem).read = true) (id : String) :
    (store.reopen reread listing answers nowUnix now).inner.map.lookup id =
      (store.backend.files.lookup id).bind fun disk => replayFile reread disk store.ttl nowUnix now := by
  have distinct : listing.Nodup := listed.nodup_iff.mpr store.backend.files.keys_nodup
  ext entry
  rw [reopen, Inner.rebuild_lookup (FilesystemBackend.replay_apart sound.named distinct),
    FilesystemBackend.mem_replay, Option.bind_eq_some_iff]
  constructor
  · rintro (⟨⟨stem, -, -, disk, found, back⟩, rfl⟩ | ⟨nothing, -⟩)
    · have same : entry.id = stem := by rw [FilesystemBackend.replayFile_id back, own stem disk found]
      rw [same]
      exact ⟨disk, found, back⟩
    · cases nothing
  · rintro ⟨disk, found, back⟩
    have there : id ∈ listing := by
      rw [listed.mem_iff, AList.mem_keys.symm]
      exact AList.lookup_isSome.mp (by rw [found]; rfl)
    refine .inl ⟨⟨id, there, readable id, disk, found, back⟩, ?_⟩
    rw [FilesystemBackend.replayFile_id back, own id disk found]

theorem files_own (agrees : store.Agrees reread written) (settled : store.settled = true) {stem : String}
    {disk : DiskEntry} (found : store.backend.files.lookup stem = some disk) :
    ∃ source wall, written stem = some (source, wall) ∧ disk = source.toDisk wall ∧ source.id = stem ∧
      (store.Present stem ∨ reread source.body = none) := by
  rw [← (settled_idle settled).2] at found
  exact agrees.backed stem disk found

theorem settled_lookup (sound : store.Sound) (agrees : store.Agrees reread written) (settled : store.settled = true)
    (listed : listing.Perm store.backend.files.keys) (readable : ∀ stem, (answers stem).read = true) (id : String) :
    (store.reopen reread listing answers nowUnix now).inner.map.lookup id =
      (store.backend.files.lookup id).bind fun disk => replayFile reread disk store.ttl nowUnix now := by
  apply reopen_lookup sound _ listed readable
  intro stem disk found
  obtain ⟨source, wall, -, rfl, own, -⟩ := files_own agrees settled found
  exact own

/-- An entry that is there after a restart was there before, and its file is live and has been read. -/
theorem reopen_present (plain : ReadsMessages reread) (sound : store.Sound) (agrees : store.Agrees reread written)
    (settled : store.settled = true) (listed : listing.Perm store.backend.files.keys)
    (readable : ∀ stem, (answers stem).read = true) {id : String} {entry : StoredEntry}
    (found : (store.reopen reread listing answers nowUnix now).inner.map.lookup id = some entry) :
    store.Present id ∧ ∃ source wall, written id = some (source, wall) ∧
      store.backend.files.lookup id = some (source.toDisk wall) ∧ ¬asSecs store.ttl < nowUnix - wall ∧
      source.restored reread now = some entry := by
  rw [settled_lookup sound agrees settled listed readable] at found
  obtain ⟨disk, onDisk, back⟩ := Option.bind_eq_some_iff.mp found
  obtain ⟨source, wall, last, rfl, -, kept⟩ := files_own agrees settled onDisk
  rw [replayFile_toDisk plain] at back
  split at back
  · cases back
  · next live =>
    refine ⟨?_, source, wall, last, onDisk, live, back⟩
    obtain ⟨body, read, -⟩ := Option.map_eq_some_iff.mp back
    apply kept.resolve_right
    rw [read]
    exact Option.some_ne_none body

theorem mem_lookup {map : HashMap String StoredEntry} {id : String} (there : id ∈ map) : ∃ entry, map.lookup id = some entry :=
  Option.isSome_iff_exists.mp (AList.lookup_isSome.mpr there)

theorem reopen_agrees (plain : ReadsMessages reread) (sound : store.Sound) (agrees : store.Agrees reread written)
    (settled : store.settled = true) (listed : listing.Perm store.backend.files.keys)
    (answered : ∀ stem, (answers stem).read = true ∧ (answers stem).removed = true) :
    (store.reopen reread listing answers nowUnix now).Agrees reread written := by
  have readable : ∀ stem, (answers stem).read = true := fun stem => (answered stem).1
  have alone : (store.reopen reread listing answers nowUnix now).underway = [] := (settled_idle settled).1
  have left : ∀ stem disk, (store.reopen reread listing answers nowUnix now).backend.settledFiles.lookup stem = some disk ↔
      store.backend.files.lookup stem = some disk ∧ dropsFile reread disk store.ttl nowUnix = false := by
    intro stem disk
    have done : (store.reopen reread listing answers nowUnix now).backend.drained = true := settled_drained settled
    rw [FilesystemBackend.drained_settled done, reopen, FilesystemBackend.replayed, HashMap.lookup_filter,
      Option.filter_eq_some_iff]
    simp [answered stem]
  have inMap : ∀ id, (store.reopen reread listing answers nowUnix now).Present id →
      ∃ entry, (store.reopen reread listing answers nowUnix now).inner.map.lookup id = some entry := by
    intro id there
    apply mem_lookup (there.resolve_right _)
    rw [alone]
    exact List.not_mem_nil
  constructor
  · intro id there
    obtain ⟨entry, found⟩ := inMap id there
    exact agrees.shaped id (reopen_present plain sound agrees settled listed readable found).1
  · intro id there
    obtain ⟨entry, found⟩ := inMap id there
    obtain ⟨-, source, wall, last, onDisk, live, -⟩ := reopen_present plain sound agrees settled listed readable found
    refine ⟨source, wall, last, (left id _).mpr ⟨onDisk, ?_⟩⟩
    rw [dropsFile_toDisk plain, decide_eq_false live, Bool.and_false]
  · intro stem disk found
    obtain ⟨onDisk, stays⟩ := (left stem disk).mp found
    obtain ⟨source, wall, last, rfl, own, -⟩ := files_own agrees settled onDisk
    refine ⟨source, wall, last, rfl, own, ?_⟩
    cases read : reread source.body with
    | none => exact .inr rfl
    | some body =>
      have live : ¬asSecs store.ttl < nowUnix - wall := by simpa [dropsFile_toDisk plain, read] using stays
      left
      left
      apply AList.lookup_isSome.mp
      rw [settled_lookup sound agrees settled listed readable, onDisk, Option.bind_some, replayFile_toDisk plain,
        if_neg live, StoredEntry.restored, read]
      rfl
  · intro id entry found _
    obtain ⟨-, source, wall, last, -, -, back⟩ := reopen_present plain sound agrees settled listed readable found
    exact ⟨source, wall, last, now, .inr back⟩
  · intro entry waits
    have nobody : entry.id ∈ store.underway := List.mem_map_of_mem waits
    rw [(settled_idle settled).1] at nobody
    cases nobody

theorem reopen_bounded (plain : ReadsMessages reread) (sound : store.Sound) (agrees : store.Agrees reread written)
    (bounded : store.Bounded) (settled : store.settled = true) (listed : listing.Perm store.backend.files.keys)
    (readable : ∀ stem, (answers stem).read = true) :
    (store.reopen reread listing answers nowUnix now).inner.order.length ≤ store.maxEntries := by
  have distinct : listing.Nodup := listed.nodup_iff.mpr store.backend.files.keys_nodup
  have indexed : (store.reopen reread listing answers nowUnix now).inner.Indexed :=
    Inner.indexed_rebuild Inner.indexed_empty (FilesystemBackend.replay_apart sound.named distinct) fun entry _ => by
      simp [Inner.empty]
  have within : (store.reopen reread listing answers nowUnix now).inner.order ⊆ store.inner.order := by
    intro id listed'
    obtain ⟨entry, found⟩ := mem_lookup ((indexed.listed id).mp listed')
    have before := (reopen_present plain sound agrees settled listed readable found).1
    rw [Present, (settled_idle settled).1] at before
    exact (sound.indexed.listed id).mpr (before.resolve_right List.not_mem_nil)
  exact (List.subperm_of_subset indexed.nodup within).length_le.trans (bounded (settled_quiet settled))

/-! ## Runs that keep track -/

theorem advance_agrees (plain : ReadsMessages reread) (sound : store.Sound) (agrees : store.Agrees reread written)
    {step : StoreStep} (orderly : store.Orderly step) :
    (store.advance reread step).Agrees reread fun id => (step.persists id).or (written id) := by
  by_cases persists : ∃ entry nowUnix worked, step = .persist entry nowUnix worked
  · obtain ⟨entry, nowUnix, worked, rfl⟩ := persists
    obtain ⟨⟨bytes, sixteen, minted⟩, fresh, room⟩ := orderly.minted entry nowUnix worked rfl
    have shape : sanitizeId entry.id = entry.id := by rw [minted, sanitizeId_mintId entry.kind sixteen]
    have last : (fun id => (StoreStep.persists id (.persist entry nowUnix worked)).or (written id)) =
        fun id => if entry.id = id then some (entry, nowUnix) else written id := by
      funext id
      rw [StoreStep.persists]
      split
      · rfl
      · rfl
    rw [last]
    exact persist_agrees agrees shape fresh room
  · have change : Change reread store step _ := advance_change sound.indexed sound.looping step
    generalize store.advance reread step = after at change ⊢
    have silent : (fun id => (step.persists id).or (written id)) = written := by
      funext id
      cases step with
      | persist entry nowUnix worked => exact absurd ⟨entry, nowUnix, worked, rfl⟩ persists
      | _ => rfl
    rw [silent]
    cases change with
    | idle => exact agrees
    | persisted entry nowUnix worked label => exact absurd ⟨entry, nowUnix, worked, label⟩ persists
    | placed index entry label waiting => exact placed_agrees agrees waiting _
    | removed id worked evicting out present loop =>
      obtain ⟨alone, room⟩ := orderly.removal id out
      exact removed_agrees agrees present alone room worked evicting
    | refreshed id entry now idle found => exact refreshed_agrees agrees found
    | received => exact agrees.congr FilesystemBackend.receive_settled rfl rfl
    | finished worked label =>
      rw [orderly.done worked label]
      exact agrees.congr FilesystemBackend.finish_settled rfl rfl
    | reopened listing answers nowUnix now label settled listed =>
      exact reopen_agrees plain sound agrees settled listed (orderly.replayed listing answers nowUnix now label)

/-! ## Every run -/

def Steps (reread : Value → Option Value) (before : ResponseStore) (step : StoreStep) (after : ResponseStore) : Prop :=
  after = before.advance reread step

variable {ttl maxEntries : Nat} {steps : List StoreStep}

theorem steps_advance {step : StoreStep} : Steps reread store step (store.advance reread step) := rfl

theorem advance_limits (sound : store.Sound) (step : StoreStep) :
    (store.advance reread step).ttl = store.ttl ∧ (store.advance reread step).maxEntries = store.maxEntries := by
  have change : Change reread store step _ := advance_change sound.indexed sound.looping step
  generalize store.advance reread step = after at change ⊢
  cases change <;> exact ⟨rfl, rfl⟩

theorem steps_sound (run : Run (Steps reread) (start ttl maxEntries) steps store) :
    store.Sound ∧ store.ttl = ttl ∧ store.maxEntries = maxEntries := by
  apply run.invariant fun store => store.Sound ∧ store.ttl = ttl ∧ store.maxEntries = maxEntries
  · exact ⟨start_sound ttl maxEntries, rfl, rfl⟩
  · rintro before step after ⟨sound, rfl, rfl⟩ rfl
    exact ⟨advance_sound sound step, advance_limits sound step⟩

theorem run_bounded (run : Run (Steps reread) (start ttl maxEntries) steps store)
    (stays : ∀ step ∈ steps, step.restarts = false) : store.Bounded := by
  induction run with
  | start => exact fun _ => Nat.zero_le _
  | @extend steps step before after earlier taken ih =>
    subst taken
    apply advance_bounded (steps_sound earlier).1
    · apply ih
      intro other present
      exact stays other (List.mem_append_left _ present)
    · intro listing answers nowUnix now restart
      have none := stays step (List.mem_append_right _ List.mem_cons_self)
      rw [restart] at none
      cases none

theorem run_agrees (plain : ReadsMessages reread) (run : Run (Guarded Orderly (Steps reread)) (start ttl maxEntries) steps store) :
    store.Agrees reread (fun id => latest (StoreStep.persists id) steps) ∧ store.Bounded := by
  induction run with
  | start => exact ⟨start_agrees reread ttl maxEntries, fun _ => Nat.zero_le _⟩
  | @extend steps step before after earlier taken ih =>
    obtain ⟨orderly, rfl⟩ := taken
    obtain ⟨agrees, bounded⟩ := ih
    have sound := (steps_sound earlier.unguarded).1
    constructor
    · simp only [latest_concat]
      exact advance_agrees plain sound agrees orderly
    · apply advance_bounded sound bounded
      intro listing answers nowUnix now restart settled listed
      exact reopen_bounded plain sound agrees bounded settled listed fun stem =>
        (orderly.replayed listing answers nowUnix now restart stem).1

/-- What an id holds after a restart, next to what it held before: the entry that was last inserted, without what is not
written of it, unless it was written too long ago or its body cannot be read. -/
def Survives (reread : Value → Option Value) (steps : List StoreStep) (store back : ResponseStore) (nowUnix now : Nat)
    (id : String) : Prop :=
  match store.inner.map.lookup id with
  | none => back.inner.map.lookup id = none
  | some entry => ∃ source wall, latest (StoreStep.persists id) steps = some (source, wall) ∧ source.Kept reread entry ∧
      back.inner.map.lookup id = if asSecs store.ttl < nowUnix - wall then none else source.restored reread now

theorem settled_survives (plain : ReadsMessages reread) (sound : store.Sound)
    (agrees : store.Agrees reread fun id => latest (StoreStep.persists id) steps) (settled : store.settled = true)
    (listed : listing.Perm store.backend.files.keys) (readable : ∀ stem, (answers stem).read = true) (id : String) :
    store.Survives reread steps (store.reopen reread listing answers nowUnix now) nowUnix now id := by
  obtain ⟨alone, files⟩ := settled_idle settled
  unfold Survives
  rw [settled_lookup sound agrees settled listed readable]
  split
  · next absent =>
    cases onDisk : store.backend.files.lookup id with
    | none => rfl
    | some disk =>
      obtain ⟨source, wall, -, rfl, -, kept⟩ := files_own agrees settled onDisk
      have missing : ¬store.Present id := by
        rw [Present, alone, ← AList.lookup_isSome, absent]
        simp
      rw [Option.bind_some, replayFile_toDisk plain, StoredEntry.restored, kept.resolve_left missing, Option.map_none,
        ite_self]
  · next entry found =>
    obtain ⟨source, wall, last, onDisk⟩ := agrees.stored id (.inl (AList.lookup_isSome.mp (by rw [found]; rfl)))
    obtain ⟨source', wall', last', kept⟩ := agrees.held id entry found (by rw [alone]; exact List.not_mem_nil)
    rw [last] at last'
    cases last'
    rw [files] at onDisk
    exact ⟨source, wall, last, kept, by rw [onDisk, Option.bind_some, replayFile_toDisk plain]⟩

/-- The recency order lists the entries once each, and as many as there may be.  In a run that keeps track, a restart
at any time that finds no call under way and the queue drained brings every entry back. -/
theorem run_survives (plain : ReadsMessages reread) (run : Run (Steps reread) (start ttl maxEntries) steps store) :
    store.inner.order.Nodup ∧ (∀ id, id ∈ store.inner.order ↔ id ∈ store.inner.map) ∧
      ((∀ step ∈ steps, step.restarts = false) → store.evicting = false → store.inner.map.keys.length ≤ maxEntries) ∧
      (Run (Guarded Orderly (Steps reread)) (start ttl maxEntries) steps store →
        (store.evicting = false → store.inner.map.keys.length ≤ maxEntries) ∧
        (store.settled = true → ∀ listing answers nowUnix now id, listing.Perm store.backend.files.keys →
          (∀ stem, (answers stem).read = true) →
            store.Survives reread steps (store.reopen reread listing answers nowUnix now) nowUnix now id)) := by
  obtain ⟨sound, -, rfl⟩ := steps_sound run
  refine ⟨sound.indexed.nodup, sound.indexed.listed, ?_, ?_⟩
  · intro stays idle
    rw [sound.indexed.keys_perm.length_eq]
    exact run_bounded run stays idle
  · intro orderly
    obtain ⟨agrees, bounded⟩ := run_agrees plain orderly
    constructor
    · intro idle
      rw [sound.indexed.keys_perm.length_eq]
      exact bounded idle
    · intro settled listing answers nowUnix now id listed readable
      exact settled_survives plain sound agrees settled listed readable id

def storedTurn : StoredEntry :=
  { id := mintId .response (List.replicate 16 7)
    kind := .response
    model := "metrale"
    createdAt := 0
    messages := [⟨"assistant", ⟨"four", []⟩, none, none, none, some "two and two"⟩]
    body := .null
    lastAccess := 0 }

def storedRun : List StoreStep := [.persist storedTurn 0 true, .insertLocked 0, .receive, .finish true]

def afterStoredRun : ResponseStore := storedRun.foldl (advance some) (start 60000000000 16)

def storedAnswers (_ : String) : FileAnswers := ⟨true, true⟩

theorem storedRun_run : Run (Guarded Orderly (Steps some)) (start 60000000000 16) storedRun afterStoredRun := by
  have persisted : (start 60000000000 16).Orderly (.persist storedTurn 0 true) := by
    constructor
    · rintro entry nowUnix worked ⟨⟩
      exact ⟨⟨List.replicate 16 7, rfl, rfl⟩, List.not_mem_nil, Nat.zero_lt_succ 1023⟩
    · rintro id ⟨⟩
    · rintro worked ⟨⟩
    · rintro listing answers nowUnix now ⟨⟩
  have quiet : ∀ (store : ResponseStore) (step : StoreStep),
      step = .insertLocked 0 ∨ step = .receive ∨ step = .finish true → store.Orderly step := by
    intro store step among
    constructor
    · rintro entry nowUnix worked rfl
      simp at among
    · intro id out
      obtain rfl | rfl | rfl := among <;> cases out
    · rintro worked rfl
      simpa using among
    · rintro listing answers nowUnix now rfl
      simp at among
  exact .prepend ⟨persisted, steps_advance⟩ (.prepend ⟨quiet _ _ (.inl rfl), steps_advance⟩
    (.prepend ⟨quiet _ _ (.inr (.inl rfl)), steps_advance⟩ (.single ⟨quiet _ _ (.inr (.inr rfl)), steps_advance⟩)))

theorem run_survives_turn : afterStoredRun.Survives some storedRun
    (afterStoredRun.reopen some [storedTurn.id] storedAnswers 60 1) 60 1 storedTurn.id :=
  ((run_survives (fun _ => rfl) storedRun_run.unguarded).2.2.2 storedRun_run).2 (by decide +kernel) [storedTurn.id]
    storedAnswers 60 1 storedTurn.id (by decide +kernel) fun _ => rfl

/-- The reasoning of a stored message does not come back; and an entry in use for longer than the TTL is still in memory
when its file is too old. -/
theorem restart_changes_entries :
    (afterStoredRun.inner.map.lookup storedTurn.id).map (·.messages.map (·.reasoningContent)) = some [some "two and two"] ∧
      ((afterStoredRun.reopen some [storedTurn.id] storedAnswers 60 1).inner.map.lookup storedTurn.id).map
        (·.messages.map (·.reasoningContent)) = some [none] ∧
      (((afterStoredRun.get storedTurn.id .response 31000000000 true).1.get storedTurn.id .response 61000000000 true).2.isSome ∧
        ((afterStoredRun.get storedTurn.id .response 31000000000 true).1.reopen some [storedTurn.id] storedAnswers 61
          61000000000).inner.map.lookup storedTurn.id = none) := by
  decide +kernel

end ResponseStore

end Metrale.Server
