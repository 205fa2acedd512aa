import Metrale.Server.ResponseStore

/-! # What a step does to the stored responses

Each step is one of a few changes, whatever call it belongs to.  Read off them: the recency order lists the entries
in memory once each, and a file is named after the entry in it. -/

namespace Metrale.Server

open Metrale.Foundation

/-! ## The recency order -/

namespace Inner

variable {inner : Inner} {id : String} {entry : StoredEntry}

structure Indexed (inner : Inner) : Prop where
  nodup : inner.order.Nodup
  listed : ∀ id, id ∈ inner.order ↔ id ∈ inner.map

theorem Indexed.keys_perm (indexed : inner.Indexed) : inner.map.keys.Perm inner.order := by
  apply (List.perm_ext_iff_of_nodup inner.map.keys_nodup indexed.nodup).mpr
  intro id
  rw [indexed.listed, AList.mem_keys]

theorem indexed_empty : Indexed empty := ⟨List.nodup_nil, fun _ => by simp [empty]⟩

theorem indexed_drop (indexed : inner.Indexed) (id : String) : (inner.drop id).Indexed where
  nodup := indexed.nodup.filter _
  listed other := by
    simp only [drop, List.mem_filter, AList.mem_erase, indexed.listed other, bne_iff_ne, and_comm]

theorem indexed_moved (indexed : inner.Indexed) (id : String) (entry : StoredEntry) :
    Indexed ⟨inner.map.insert id entry, inner.order.filter (· != id) ++ [id]⟩ where
  nodup := by
    apply List.nodup_append.mpr ⟨indexed.nodup.filter _, List.nodup_singleton id, _⟩
    intro other inOrder last isLast
    simp only [List.mem_filter, bne_iff_ne] at inOrder
    simpa [List.mem_singleton.mp isLast] using inOrder.2
  listed other := by
    simp only [List.mem_append, List.mem_filter, List.mem_singleton, AList.mem_insert, indexed.listed other, bne_iff_ne]
    by_cases same : other = id
    · simp [same]
    · simp [same]

theorem indexed_refresh (indexed : inner.Indexed) (id : String) (entry : StoredEntry) (now : Nat) :
    (inner.refresh id entry now).Indexed := indexed_moved indexed id _

theorem refresh_perm (indexed : inner.Indexed) (present : id ∈ inner.map) (entry : StoredEntry) (now : Nat) :
    (inner.refresh id entry now).order.Perm inner.order := by
  have refreshed := indexed_refresh indexed id entry now
  apply (List.perm_ext_iff_of_nodup refreshed.nodup indexed.nodup).mpr
  intro other
  rw [refreshed.listed, indexed.listed, refresh, AList.mem_insert]
  constructor
  · rintro (rfl | held)
    · exact present
    · exact held
  · exact .inr

theorem Indexed.filter_absent (indexed : inner.Indexed) (absent : id ∉ inner.map) :
    inner.order.filter (· != id) = inner.order := by
  apply List.filter_eq_self.mpr
  intro other inOrder
  rw [bne_iff_ne]
  rintro rfl
  exact absent ((indexed.listed other).mp inOrder)

theorem insert_eq (indexed : inner.Indexed) :
    inner.insert entry = ⟨inner.map.insert entry.id entry, inner.order.filter (· != entry.id) ++ [entry.id]⟩ := by
  unfold insert
  split
  · rfl
  · next absent => rw [indexed.filter_absent absent]

theorem indexed_insert (indexed : inner.Indexed) (entry : StoredEntry) : (inner.insert entry).Indexed := by
  rw [insert_eq indexed]
  exact indexed_moved indexed entry.id entry

theorem drop_oldest {order : List String} (indexed : inner.Indexed) (oldest : inner.order = id :: order) :
    (⟨inner.map.erase id, order⟩ : Inner) = inner.drop id := by
  have nodup := indexed.nodup
  rw [oldest, List.nodup_cons] at nodup
  have kept : order.filter (· != id) = order := by
    apply List.filter_eq_self.mpr
    intro other inOrder
    rw [bne_iff_ne]
    rintro rfl
    exact nodup.1 inOrder
  rw [drop, oldest, List.filter_cons_of_neg (by simp), kept]

theorem indexed_rebuild {entries : List StoredEntry} (indexed : inner.Indexed) (apart : (entries.map (·.id)).Nodup)
    (fresh : ∀ entry ∈ entries, entry.id ∉ inner.map) : (inner.rebuild entries).Indexed := by
  induction entries generalizing inner with
  | nil => exact indexed
  | cons entry entries ih =>
    rw [List.map_cons, List.nodup_cons] at apart
    have next := indexed_moved indexed entry.id entry
    rw [indexed.filter_absent (fresh entry List.mem_cons_self)] at next
    apply ih next apart.2
    intro other later
    rw [AList.mem_insert, not_or]
    constructor
    · intro same
      apply apart.1
      rw [← same]
      exact List.mem_map_of_mem later
    · exact fresh other (List.mem_cons_of_mem _ later)

/-- After a rebuild from entries with ids of their own, an id holds the entry that has it. -/
theorem rebuild_lookup {entries : List StoredEntry} (apart : (entries.map (·.id)).Nodup) :
    (inner.rebuild entries).map.lookup id = some entry ↔
      (entry ∈ entries ∧ entry.id = id) ∨ (inner.map.lookup id = some entry ∧ ∀ other ∈ entries, other.id ≠ id) := by
  induction entries generalizing inner with
  | nil => simp [rebuild]
  | cons first entries ih =>
    rw [List.map_cons, List.nodup_cons] at apart
    rw [rebuild, ih apart.2]
    simp only [HashMap.lookup_insert_if, List.mem_cons, forall_eq_or_imp]
    have unique : ∀ other ∈ entries, other.id ≠ first.id := by
      intro other later same
      apply apart.1
      rw [← same]
      exact List.mem_map_of_mem later
    by_cases here : id = first.id
    · subst here
      simp only [if_pos, Option.some.injEq]
      grind
    · simp only [if_neg here]
      grind

end Inner

/-! ## The changes -/

namespace FilesystemBackend

def Named (files : HashMap String DiskEntry) : Prop :=
  ∀ stem disk, files.lookup stem = some disk → sanitizeId disk.id = stem

theorem named_run {files : HashMap String DiskEntry} (named : Named files) (op : DiskOp) : Named (op.run files) := by
  intro stem disk found
  cases op with
  | persist written =>
    rw [DiskOp.run, HashMap.lookup_insert_if] at found
    split at found
    · next same =>
      cases found
      exact same.symm
    · exact named stem disk found
  | forget id =>
    rw [DiskOp.run, HashMap.lookup_erase_if] at found
    split at found
    · cases found
    · exact named stem disk found

variable {backend : FilesystemBackend}

theorem submit_files (backend : FilesystemBackend) (op : DiskOp) (worked : Bool) :
    (backend.submit op worked).files = backend.files ∨ (backend.submit op worked).files = op.run backend.files := by
  unfold submit
  split
  · exact .inl rfl
  · split
    · exact .inr rfl
    · exact .inl rfl

theorem named_submit (named : Named backend.files) (op : DiskOp) (worked : Bool) :
    Named (backend.submit op worked).files := by
  obtain same | run := submit_files backend op worked
  · rw [same]
    exact named
  · rw [run]
    exact named_run named op

theorem receive_files : backend.receive.files = backend.files := by
  unfold receive
  split <;> rfl

theorem named_finish (named : Named backend.files) (worked : Bool) : Named (backend.finish worked).files := by
  unfold finish
  split
  · exact named
  · dsimp only
    split
    · exact named_run named _
    · exact named

theorem named_replayed (reread : Value → Option Value) (named : Named backend.files) (answers : String → FileAnswers)
    (ttl nowUnix : Nat) : Named (backend.replayed reread answers ttl nowUnix).files := by
  intro stem disk found
  rw [replayed, HashMap.lookup_filter, Option.filter_eq_some_iff] at found
  exact named stem disk found.1

theorem replayFile_id {reread : Value → Option Value} {disk : DiskEntry} {ttl nowUnix now : Nat} {entry : StoredEntry}
    (back : replayFile reread disk ttl nowUnix now = some entry) : entry.id = disk.id := by
  simp only [replayFile, DiskEntry.fromSlice, Option.bind_eq_bind, Option.bind_eq_some_iff] at back
  obtain ⟨read, ⟨messages, -, body, -, copied⟩, rest⟩ := back
  cases copied
  split at rest
  · cases rest
  · obtain ⟨messages, -, copied⟩ := Option.bind_eq_some_iff.mp rest
    cases copied
    rfl

theorem mem_replay {reread : Value → Option Value} {listing : List String} {answers : String → FileAnswers}
    {ttl nowUnix now : Nat} {entry : StoredEntry} :
    entry ∈ backend.replay reread listing answers ttl nowUnix now ↔
      ∃ stem ∈ listing, (answers stem).read = true ∧ ∃ disk, backend.files.lookup stem = some disk ∧
        replayFile reread disk ttl nowUnix now = some entry := by
  rw [replay, List.mem_filterMap]
  constructor
  · rintro ⟨stem, listed, back⟩
    split at back
    · next read => exact ⟨stem, listed, read, Option.bind_eq_some_iff.mp back⟩
    · cases back
  · rintro ⟨stem, listed, read, back⟩
    exact ⟨stem, listed, by rw [if_pos read]; exact Option.bind_eq_some_iff.mpr back⟩

theorem replay_apart {reread : Value → Option Value} {listing : List String} {answers : String → FileAnswers}
    {ttl nowUnix now : Nat} (named : Named backend.files) (distinct : listing.Nodup) :
    ((backend.replay reread listing answers ttl nowUnix now).map (·.id)).Nodup := by
  unfold replay
  induction listing with
  | nil => exact List.nodup_nil
  | cons stem listing ih =>
    obtain ⟨absent, rest⟩ := List.nodup_cons.mp distinct
    rw [List.filterMap_cons]
    split
    · exact ih rest
    · next entry back =>
      rw [List.map_cons, List.nodup_cons]
      refine ⟨?_, ih rest⟩
      intro again
      obtain ⟨other, later, same⟩ := List.mem_map.mp again
      obtain ⟨stem', listed, -, disk', found', back'⟩ := mem_replay.mp later
      have first : ∃ disk, backend.files.lookup stem = some disk ∧ replayFile reread disk ttl nowUnix now = some entry := by
        split at back
        · exact Option.bind_eq_some_iff.mp back
        · cases back
      obtain ⟨disk, found, back⟩ := first
      have stems : stem' = stem := by
        rw [← named stem' disk' found', ← named stem disk found, ← replayFile_id back', ← replayFile_id back, same]
      exact absent (stems ▸ listed)

end FilesystemBackend

namespace ResponseStore

variable {reread : Value → Option Value} {store : ResponseStore}

def removes (store : ResponseStore) : StoreStep → Option String
  | .evictOldest _ => if store.evicting then store.inner.order.head? else none
  | .get id kind now _ =>
    if store.evicting then none
    else (store.inner.map.lookup id).bind fun entry =>
      if entry.kind = kind ∧ entry.expired store.ttl now = true then some id else none
  | .delete id kind _ =>
    if store.evicting then none
    else (store.inner.map.lookup id).bind fun entry => if entry.kind = kind then some id else none
  | _ => none

inductive Change (reread : Value → Option Value) (store : ResponseStore) (step : StoreStep) : ResponseStore → Prop where
  | idle : Change reread store step store
  | persisted (entry : StoredEntry) (nowUnix : Nat) (worked : Bool) (label : step = .persist entry nowUnix worked) :
    Change reread store step (store.persist entry nowUnix worked)
  | placed (index : Nat) (entry : StoredEntry) (label : step = .insertLocked index)
    (waiting : store.inserting[index]? = some entry) :
    Change reread store step { store with
      inner := store.inner.insert entry
      inserting := store.inserting.eraseIdx index
      evicting := overfull store.maxEntries (store.inner.insert entry) }
  | removed (id : String) (worked evicting : Bool) (out : store.removes step = some id) (present : id ∈ store.inner.map)
    (loop : evicting = false ∧ store.evicting = false ∨ evicting = overfull store.maxEntries (store.inner.drop id)) :
    Change reread store step { store.remove id worked with evicting }
  | refreshed (id : String) (entry : StoredEntry) (now : Nat) (idle : store.evicting = false)
    (found : store.inner.map.lookup id = some entry) :
    Change reread store step { store with inner := store.inner.refresh id entry now }
  | received : Change reread store step { store with backend := store.backend.receive }
  | finished (worked : Bool) (label : step = .finish worked) :
    Change reread store step { store with backend := store.backend.finish worked }
  | reopened (listing : List String) (answers : String → FileAnswers) (nowUnix now : Nat)
    (label : step = .restart listing answers nowUnix now) (settled : store.settled = true)
    (listed : listing.Perm store.backend.files.keys) :
    Change reread store step (store.reopen reread listing answers nowUnix now)

theorem insertLocked_change (index : Nat) : Change reread store (.insertLocked index) (store.insertLocked index) := by
  unfold insertLocked
  split
  · exact .idle
  · next entry waiting => exact .placed index entry rfl waiting

theorem evictOldest_change (indexed : store.inner.Indexed) (evicting : store.evicting = true) (filled : store.inner.order ≠ [])
    (worked : Bool) : Change reread store (.evictOldest worked) (store.evictOldest worked) := by
  unfold evictOldest
  split
  · next none => exact absurd none filled
  · next oldest order front =>
    rw [Inner.drop_oldest indexed front]
    apply Change.removed oldest worked
    · simp [removes, evicting, front]
    · rw [← indexed.listed, front]
      exact List.mem_cons_self
    · exact .inr rfl

theorem get_change (idle : store.evicting = false) (id : String) (kind : StoredKind) (now : Nat) (worked : Bool) :
    Change reread store (.get id kind now worked) (store.get id kind now worked).1 := by
  unfold get
  split
  · exact .idle
  · next entry found =>
    split
    · exact .idle
    · next sameKind =>
      split
      · next expired =>
        have out : store.removes (.get id kind now worked) = some id := by
          simpa [removes, idle, found, expired] using sameKind
        have present : id ∈ store.inner.map := AList.lookup_isSome.mp (by rw [found]; rfl)
        exact .removed id worked store.evicting out present (.inl ⟨idle, idle⟩)
      · exact .refreshed id entry now idle found

theorem delete_change (idle : store.evicting = false) (id : String) (kind : StoredKind) (worked : Bool) :
    Change reread store (.delete id kind worked) (store.delete id kind worked).1 := by
  unfold delete
  split
  · next hit =>
    cases found : store.inner.map.lookup id with
    | none => simp [found] at hit
    | some entry =>
      have sameKind : entry.kind = kind := by simpa [found] using hit
      have out : store.removes (.delete id kind worked) = some id := by simp [removes, idle, found, sameKind]
      have present : id ∈ store.inner.map := AList.lookup_isSome.mp (by rw [found]; rfl)
      exact .removed id worked store.evicting out present (.inl ⟨idle, idle⟩)
  · exact .idle

/-- An `insert` in its loop has something to evict. -/
def Looping (store : ResponseStore) : Prop := store.evicting = true → store.inner.order ≠ []

theorem advance_change (indexed : store.inner.Indexed) (looping : store.Looping) (step : StoreStep) :
    Change reread store step (store.advance reread step) := by
  cases step with
  | persist entry nowUnix worked => exact .persisted entry nowUnix worked rfl
  | insertLocked index =>
    simp only [advance]
    split
    · exact .idle
    · exact insertLocked_change index
  | evictOldest worked =>
    simp only [advance]
    split
    · next evicting => exact evictOldest_change indexed evicting (looping evicting) worked
    · exact .idle
  | get id kind now worked =>
    simp only [advance]
    split
    · exact .idle
    · next idle => exact get_change (by simpa using idle) id kind now worked
  | delete id kind worked =>
    simp only [advance]
    split
    · exact .idle
    · next idle => exact delete_change (by simpa using idle) id kind worked
  | receive => exact .received
  | finish worked => exact .finished worked rfl
  | restart listing answers nowUnix now =>
    simp only [advance]
    split
    · next ready => exact .reopened listing answers nowUnix now rfl ready.1 ready.2
    · exact .idle

/-! ## Every run -/

/-- The recency order lists the entries once each, and a file is named after the entry in it. -/
structure Sound (store : ResponseStore) : Prop where
  indexed : store.inner.Indexed
  looping : store.Looping
  named : FilesystemBackend.Named store.backend.files

theorem overfull_filled {maxEntries : Nat} {inner : Inner} (full : overfull maxEntries inner = true) :
    inner.order ≠ [] := by
  rw [overfull, Bool.and_eq_true] at full
  simpa using full.2

theorem start_sound (ttl maxEntries : Nat) : (start ttl maxEntries).Sound where
  indexed := Inner.indexed_empty
  looping := by intro evicting; cases evicting
  named := by intro stem disk found; cases found

theorem advance_sound (sound : store.Sound) (step : StoreStep) : (store.advance reread step).Sound := by
  have change : Change reread store step _ := advance_change sound.indexed sound.looping step
  generalize store.advance reread step = after at change ⊢
  cases change with
  | idle => exact sound
  | persisted entry nowUnix worked => exact ⟨sound.indexed, sound.looping, FilesystemBackend.named_submit sound.named _ _⟩
  | placed index entry => exact ⟨Inner.indexed_insert sound.indexed entry, overfull_filled, sound.named⟩
  | removed id worked evicting out present loop =>
    refine ⟨Inner.indexed_drop sound.indexed id, ?_, FilesystemBackend.named_submit sound.named _ _⟩
    obtain ⟨off, -⟩ | full := loop
    · intro on
      rw [off] at on
      cases on
    · rw [full]
      exact overfull_filled
  | refreshed id entry now idle found =>
    refine ⟨Inner.indexed_refresh sound.indexed id entry now, ?_, sound.named⟩
    intro on
    rw [idle] at on
    cases on
  | received => exact ⟨sound.indexed, sound.looping, by rw [FilesystemBackend.receive_files]; exact sound.named⟩
  | finished worked => exact ⟨sound.indexed, sound.looping, FilesystemBackend.named_finish sound.named worked⟩
  | reopened listing answers nowUnix now label settled listed =>
    have distinct : listing.Nodup := listed.nodup_iff.mpr store.backend.files.keys_nodup
    refine ⟨?_, ?_, FilesystemBackend.named_replayed reread sound.named answers store.ttl nowUnix⟩
    · apply Inner.indexed_rebuild Inner.indexed_empty
      · exact FilesystemBackend.replay_apart sound.named distinct
      · intro entry _
        simp [Inner.empty]
    · intro on
      simp [reopen] at on
      simp [ResponseStore.settled, on] at settled

/-- No `insert` is in its loop, or there is room for every entry. -/
def Bounded (store : ResponseStore) : Prop := store.evicting = false → store.inner.order.length ≤ store.maxEntries

theorem overfull_bounded {maxEntries : Nat} {inner : Inner} (indexed : inner.Indexed)
    (fits : overfull maxEntries inner = false) : inner.order.length ≤ maxEntries := by
  rw [overfull, indexed.keys_perm.length_eq] at fits
  cases order : inner.order with
  | nil => exact Nat.zero_le _
  | cons oldest rest =>
    rw [order] at fits
    simpa using fits

theorem advance_bounded (sound : store.Sound) (bounded : store.Bounded) (step : StoreStep)
    (replayed : ∀ listing answers nowUnix now, step = .restart listing answers nowUnix now → store.settled = true →
      listing.Perm store.backend.files.keys →
        (store.reopen reread listing answers nowUnix now).inner.order.length ≤ store.maxEntries) :
    (store.advance reread step).Bounded := by
  have change : Change reread store step _ := advance_change sound.indexed sound.looping step
  generalize store.advance reread step = after at change ⊢
  cases change with
  | idle => exact bounded
  | persisted entry nowUnix worked => exact bounded
  | placed index entry => exact overfull_bounded (Inner.indexed_insert sound.indexed entry)
  | removed id worked evicting out present loop =>
    intro off
    obtain ⟨-, idle⟩ | full := loop
    · exact (List.length_filter_le _ _).trans (bounded idle)
    · rw [full] at off
      exact overfull_bounded (Inner.indexed_drop sound.indexed id) off
  | refreshed id entry now idle found =>
    intro _
    have moved := Inner.refresh_perm sound.indexed (AList.lookup_isSome.mp (by rw [found]; rfl)) entry now
    exact moved.length_eq.trans_le (bounded idle)
  | received => exact bounded
  | finished worked => exact bounded
  | reopened listing answers nowUnix now label settled listed =>
    intro _
    exact replayed listing answers nowUnix now label settled listed

end ResponseStore

end Metrale.Server
