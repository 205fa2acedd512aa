import Metrale.Cache.Snapshot.ArenaStore
import Metrale.Foundation.Listing

/-! # The host-RAM blob store (`ssm_tier/store.rs`)

Blobs of any size under a byte cap, evicted oldest first.  The byte counter is a `usize` that wraps.  A call
holds the lock, so calls do not interleave.  The counters of `BlobStoreStats` are left out. -/

namespace Metrale.Cache

open Metrale.Foundation

/-- The oldest key is first in `order`. -/
structure MemBlobStore where
  map : HashMap TierKey Blob
  order : List TierKey
  bytes : UInt64
  capBytes : UInt64

namespace MemBlobStore

def new (capBytes : UInt64) : MemBlobStore := { map := ∅, order := [], bytes := 0, capBytes }

def evict (store : MemBlobStore) (victim : TierKey) : MemBlobStore :=
  match store.map.lookup victim with
  | some old =>
    { store with
      order := store.order.erase victim
      map := store.map.erase victim
      bytes := store.bytes - .ofNat old.length }
  | none => { store with order := store.order.erase victim }

/-- The `while` of a put, which takes a key off the order in every round. -/
def makeRoom (key : TierKey) (incoming : Nat) : Nat → MemBlobStore → MemBlobStore
  | 0, store => store
  | rounds + 1, store =>
    if store.capBytes < store.bytes + .ofNat incoming then
      match store.order.find? (· != key) with
      | none => store
      | some victim => makeRoom key incoming rounds (store.evict victim)
    else store

/-- The old blob of the key is no longer counted, and a new key has its place in the order. -/
def uncount (store : MemBlobStore) (key : TierKey) : MemBlobStore :=
  match store.map.lookup key with
  | some old => { store with bytes := store.bytes - .ofNat old.length }
  | none => { store with order := store.order ++ [key] }

def put (store : MemBlobStore) (key : TierKey) (bytes : Blob) : Bool × MemBlobStore :=
  if store.capBytes ≠ 0 ∧ store.capBytes.toNat < bytes.length then (false, store)
  else
    let counted := store.uncount key
    let room := if store.capBytes ≠ 0 then makeRoom key bytes.length counted.order.length counted else counted
    (true, { room with bytes := room.bytes + .ofNat bytes.length, map := room.map.insert key bytes })

/-- None is `Ok(false)`, which leaves the caller's buffer as it was. -/
def get (store : MemBlobStore) (key : TierKey) (outLength : Nat) : Option Blob :=
  (store.map.lookup key).filter fun blob => blob.length = outLength

def remove (store : MemBlobStore) (key : TierKey) : MemBlobStore :=
  match store.map.lookup key with
  | some old =>
    { store with
      map := store.map.erase key
      bytes := store.bytes - .ofNat old.length
      order := store.order.filter (· != key) }
  | none => store

def resident (store : MemBlobStore) : Nat := store.map.total List.length

inductive Call where
  | put (key : TierKey) (bytes : Blob) (accepted : Bool)
  | get (key : TierKey) (outLength : Nat) (answer : Option Blob)
  | remove (key : TierKey)

inductive Step : MemBlobStore → Call → MemBlobStore → Prop where
  -- The stored blobs and the caller's slice are apart in one address space of 64 bits.
  | put {store key bytes accepted after} (apart : store.resident + bytes.length < 2 ^ 64)
      (answered : store.put key bytes = (accepted, after)) : Step store (.put key bytes accepted) after
  | get {store key outLength} : Step store (.get key outLength (store.get key outLength)) store
  | remove {store key} : Step store (.remove key) (store.remove key)

/-! ## The counter and the order -/

structure Sized (store : MemBlobStore) : Prop where
  order : Listing store.order fun key => (store.map.lookup key).isSome
  bytes : store.bytes.toNat = store.resident

structure Putting (store : MemBlobStore) (key : TierKey) : Prop where
  order : Listing store.order fun other => other = key ∨ (store.map.lookup other).isSome
  bytes : store.bytes.toNat = HashMap.total List.length (store.map.erase key)

variable {store after : MemBlobStore} {key victim other : TierKey} {bytes blob old : Blob} {accepted : Bool}

theorem toNat_uncounted {counter : UInt64} {length rest : Nat} (counted : counter.toNat = length + rest) :
    (counter - .ofNat length).toNat = rest := by
  have bounded : length < 2 ^ 64 := by have := counter.toNat_lt; omega
  have same : (UInt64.ofNat length).toNat = length := UInt64.toNat_ofNat_of_lt' bounded
  rw [UInt64.toNat_sub_of_le, same, counted, Nat.add_sub_cancel_left]
  rw [UInt64.le_iff_toNat_le, same, counted]
  exact Nat.le_add_right _ _

theorem toNat_counted {counter : UInt64} {length : Nat} (fits : counter.toNat + length < 2 ^ 64) :
    (counter + .ofNat length).toNat = counter.toNat + length := by
  rw [UInt64.toNat_add, UInt64.toNat_ofNat', Nat.add_mod_mod, Nat.mod_eq_of_lt fits]

theorem sized_new (capBytes : UInt64) : (new capBytes).Sized where
  order := Listing.empty fun key => by simp [new]
  bytes := by simp [new, resident, HashMap.total]

theorem uncount_map : (store.uncount key).map = store.map ∧ (store.uncount key).capBytes = store.capBytes := by
  unfold uncount
  split <;> exact ⟨rfl, rfl⟩

theorem Sized.uncount (sized : store.Sized) : (store.uncount key).Putting key := by
  unfold MemBlobStore.uncount
  split
  · next old stored =>
    constructor
    · apply sized.order.congr
      intro other
      constructor
      · intro present
        exact .inr present
      · rintro (rfl | present)
        · simp [stored]
        · exact present
    · have counted := sized.bytes
      rw [resident, HashMap.total_erase_of_some stored] at counted
      exact toNat_uncounted counted
  · next missing =>
    constructor
    · exact sized.order.pushBack (by simp [missing])
    · dsimp only
      rw [HashMap.erase_of_none missing]
      exact sized.bytes

theorem Putting.evict (putting : store.Putting key) (listed : victim ∈ store.order) (differs : victim ≠ key) :
    (store.evict victim).Putting key := by
  obtain same | present := (putting.order.mem_iff victim).mp listed
  · exact absurd same differs
  obtain ⟨old, stored⟩ := Option.isSome_iff_exists.mp present
  unfold MemBlobStore.evict
  rw [stored]
  constructor
  · apply (putting.order.erase victim).congr
    intro other
    rw [HashMap.lookup_erase_if]
    by_cases same : other = victim
    · simp [same, differs]
    · simp [same]
  · have remains : (store.map.erase key).lookup victim = some old := by
      rw [HashMap.lookup_erase_if, if_neg differs, stored]
    have counted := putting.bytes
    rw [HashMap.total_erase_of_some remains, AList.erase_erase] at counted
    exact toNat_uncounted counted

theorem evict_frame : (store.evict victim).capBytes = store.capBytes ∧
    ((store.evict victim).map.lookup other = some blob → store.map.lookup other = some blob) := by
  unfold evict
  split
  · refine ⟨rfl, fun found => ?_⟩
    rw [HashMap.lookup_erase_if] at found
    split at found
    · cases found
    · exact found
  · exact ⟨rfl, id⟩

theorem evict_order : (store.evict victim).order = store.order.erase victim := by
  unfold evict
  split <;> rfl

theorem Putting.alone (putting : store.Putting key) (only : ∀ other ∈ store.order, other = key) : store.bytes = 0 := by
  have none : ∀ other, (store.map.erase key).lookup other = none := by
    intro other
    rw [HashMap.lookup_erase_if]
    split
    · rfl
    · next differs =>
      have unlisted := mt (only other) differs
      rw [putting.order.mem_iff] at unlisted
      simpa using fun present => unlisted (.inr present)
  apply UInt64.toNat_inj.mp
  rw [putting.bytes, HashMap.total_of_none none]
  rfl

theorem Putting.evict_bytes (putting : store.Putting key) (listed : victim ∈ store.order) (differs : victim ≠ key) :
    (store.evict victim).bytes.toNat ≤ store.bytes.toNat := by
  obtain same | present := (putting.order.mem_iff victim).mp listed
  · exact absurd same differs
  obtain ⟨old, stored⟩ := Option.isSome_iff_exists.mp present
  have map : (store.evict victim).map = store.map.erase victim := by simp [MemBlobStore.evict, stored]
  rw [(putting.evict listed differs).bytes, putting.bytes, map, AList.erase_erase]
  exact HashMap.total_erase_le

theorem Putting.makeRoom {incoming rounds : Nat} (putting : store.Putting key) (enough : store.order.length ≤ rounds) :
    (makeRoom key incoming rounds store).Putting key ∧
    (makeRoom key incoming rounds store).bytes.toNat ≤ store.bytes.toNat ∧
    ((makeRoom key incoming rounds store).bytes + .ofNat incoming ≤ store.capBytes ∨
      (makeRoom key incoming rounds store).bytes = 0) := by
  induction rounds generalizing store with
  | zero =>
    have empty : store.order = [] := List.length_eq_zero_iff.mp (Nat.le_zero.mp enough)
    exact ⟨putting, Nat.le_refl _, .inr (putting.alone (by simp [empty]))⟩
  | succ rounds ih =>
    simp only [MemBlobStore.makeRoom]
    split
    · split
      · next none =>
        refine ⟨putting, Nat.le_refl _, .inr (putting.alone fun other listed => ?_)⟩
        simpa using List.find?_eq_none.mp none other listed
      · next victim found =>
        have listed := List.mem_of_find?_eq_some found
        have differs : victim ≠ key := by simpa using List.find?_some found
        have fewer : (store.evict victim).order.length ≤ rounds := by
          rw [evict_order, List.length_erase_of_mem listed]
          exact Nat.sub_le_of_le_add enough
        obtain ⟨kept, less, stopped⟩ := ih (putting.evict listed differs) fewer
        rw [(@evict_frame store victim key []).1] at stopped
        exact ⟨kept, less.trans (putting.evict_bytes listed differs), stopped⟩
    · next fits => exact ⟨putting, Nat.le_refl _, .inl (UInt64.not_lt.mp fits)⟩

theorem makeRoom_frame {incoming rounds : Nat} : (makeRoom key incoming rounds store).capBytes = store.capBytes ∧
    ((makeRoom key incoming rounds store).map.lookup other = some blob → store.map.lookup other = some blob) := by
  induction rounds generalizing store with
  | zero => exact ⟨rfl, id⟩
  | succ rounds ih =>
    simp only [makeRoom]
    split
    · split
      · exact ⟨rfl, id⟩
      · next victim _ =>
        obtain ⟨cap, stored⟩ := @ih (store.evict victim)
        exact ⟨cap.trans (@evict_frame store victim other blob).1, evict_frame.2 ∘ stored⟩
    · exact ⟨rfl, id⟩

theorem Putting.insert (putting : store.Putting key) (fits : store.bytes.toNat + bytes.length < 2 ^ 64) :
    Sized { store with bytes := store.bytes + .ofNat bytes.length, map := store.map.insert key bytes } where
  order := by
    apply putting.order.congr
    intro other
    rw [HashMap.lookup_insert_if]
    by_cases same : other = key
    · simp [same]
    · simp [same]
  bytes := by
    rw [resident, HashMap.total_insert, toNat_counted fits, putting.bytes, Nat.add_comm]

/-! ## Calls -/

theorem Sized.room (sized : store.Sized) (allowed : store.capBytes ≠ 0 → bytes.length ≤ store.capBytes.toNat) :
    let counted := store.uncount key
    let room := if store.capBytes ≠ 0 then makeRoom key bytes.length counted.order.length counted else counted
    room.Putting key ∧ room.bytes.toNat ≤ store.resident ∧ room.capBytes = store.capBytes ∧
    (∀ other blob, room.map.lookup other = some blob → store.map.lookup other = some blob) ∧
    (store.capBytes ≠ 0 → room.bytes + .ofNat bytes.length ≤ store.capBytes) := by
  intro counted room
  obtain ⟨map, cap⟩ := @uncount_map store key
  have putting : counted.Putting key := sized.uncount
  have bounded : counted.bytes.toNat ≤ store.resident := by
    rw [putting.bytes, map]
    exact HashMap.total_erase_le
  by_cases capped : store.capBytes ≠ 0
  · have made : room = makeRoom key bytes.length counted.order.length counted := if_pos capped
    rw [made]
    obtain ⟨kept, less, stopped⟩ := @Putting.makeRoom counted key bytes.length _ putting (Nat.le_refl _)
    refine ⟨kept, less.trans bounded, ?_, ?_, fun _ => ?_⟩
    · exact (@makeRoom_frame counted key key [] _ _).1.trans cap
    · intro other blob stored
      rw [← map]
      exact makeRoom_frame.2 stored
    · obtain fits | zero := stopped
      · rw [cap] at fits
        exact fits
      · rw [zero, UInt64.zero_add, UInt64.le_iff_toNat_le, UInt64.toNat_ofNat']
        exact (Nat.mod_le _ _).trans (allowed capped)
  · have made : room = counted := if_neg capped
    rw [made]
    refine ⟨putting, bounded, cap, ?_, fun set => absurd set capped⟩
    intro other blob stored
    rw [← map]
    exact stored

/-- A put refuses and changes nothing, or it stores the blob within the cap and changes no other. -/
theorem Sized.put (sized : store.Sized) (apart : store.resident + bytes.length < 2 ^ 64)
    (answered : store.put key bytes = (accepted, after)) :
    after.Sized ∧ after.capBytes = store.capBytes ∧ (accepted = false → after = store) ∧
    (accepted = true → (after.capBytes ≠ 0 → after.bytes ≤ after.capBytes) ∧ after.map.lookup key = some bytes ∧
      ∀ other ≠ key, ∀ blob, after.map.lookup other = some blob → store.map.lookup other = some blob) := by
  unfold MemBlobStore.put at answered
  split at answered
  · cases answered
    exact ⟨sized, rfl, fun _ => rfl, fun accepted => (by cases accepted)⟩
  · next allowed =>
    have small : store.capBytes ≠ 0 → bytes.length ≤ store.capBytes.toNat :=
      fun capped => Nat.le_of_not_lt fun large => allowed ⟨capped, large⟩
    obtain ⟨putting, bounded, cap, stored, fits⟩ := @Sized.room store key bytes sized small
    obtain ⟨rfl, rfl⟩ := Prod.mk.inj answered
    refine ⟨putting.insert (by omega), cap, fun refused => (by cases refused), fun _ => ⟨?_, ?_, ?_⟩⟩
    · intro capped
      rw [cap] at capped
      exact (fits capped).trans_eq cap.symm
    · exact AList.lookup_insert _
    · intro other differs blob found
      rw [HashMap.lookup_insert_if, if_neg differs] at found
      exact stored other blob found

theorem Sized.remove (sized : store.Sized) : (store.remove key).Sized ∧ (store.remove key).capBytes = store.capBytes ∧
    ∀ other blob, (store.remove key).map.lookup other = some blob → other ≠ key ∧ store.map.lookup other = some blob := by
  unfold MemBlobStore.remove
  split
  · next old stored =>
    refine ⟨⟨?_, ?_⟩, rfl, ?_⟩
    · dsimp only
      rw [← sized.order.nodup.erase_eq_filter]
      apply (sized.order.erase key).congr
      intro other
      rw [HashMap.lookup_erase_if]
      by_cases same : other = key
      · simp [same]
      · simp [same]
    · have counted := sized.bytes
      rw [resident, HashMap.total_erase_of_some stored] at counted
      exact toNat_uncounted counted
    · intro other blob found
      rw [HashMap.lookup_erase_if] at found
      split at found
      · cases found
      · next differs => exact ⟨differs, found⟩
  · next missing =>
    refine ⟨sized, rfl, fun other blob found => ⟨?_, found⟩⟩
    rintro rfl
    rw [missing] at found
    cases found

/-! ## Runs -/

def stores (key : TierKey) : Call → Option Blob
  | .put other bytes accepted => if other = key ∧ accepted = true then some bytes else none
  | .get .. | .remove _ => none

structure Holds (capBytes : UInt64) (calls : List Call) (store : MemBlobStore) : Prop where
  sized : store.Sized
  cap : store.capBytes = capBytes
  last : ∀ key blob, store.map.lookup key = some blob → latest (stores key) calls = some blob

theorem Holds.step {capBytes : UInt64} {calls : List Call} {call : Call} (holds : store.Holds capBytes calls)
    (step : Step store call after) : after.Holds capBytes (calls ++ [call]) := by
  cases step with
  | @put key bytes accepted _ apart answered =>
    obtain ⟨sized, cap, refused, stored⟩ := holds.sized.put apart answered
    refine ⟨sized, cap.trans holds.cap, fun other blob found => ?_⟩
    rw [latest_concat]
    cases accepted with
    | false =>
      rw [refused rfl] at found
      simpa [stores] using holds.last other blob found
    | true =>
      obtain ⟨-, present, kept⟩ := stored rfl
      by_cases same : other = key
      · subst same
        simpa [stores] using present.symm.trans found
      · simpa [stores, Ne.symm same] using holds.last other blob (kept other same blob found)
  | get =>
    refine ⟨holds.sized, holds.cap, fun key blob stored => ?_⟩
    rw [latest_concat]
    exact holds.last key blob stored
  | remove =>
    obtain ⟨sized, cap, kept⟩ := holds.sized.remove
    refine ⟨sized, cap.trans holds.cap, fun key blob stored => ?_⟩
    rw [latest_concat]
    exact holds.last key blob (kept key blob stored).2

theorem Holds.of_run {capBytes : UInt64} {calls : List Call} (run : Run Step (new capBytes) calls store) :
    store.Holds capBytes calls := by
  induction run with
  | start => exact ⟨sized_new capBytes, rfl, fun key blob stored => (by simp [new] at stored)⟩
  | extend _ taken ih => exact ih.step taken

/-- A cap of zero is no cap. -/
theorem unbounded_exceeds_cap : ∃ after, Run Step (new 0) [.put 1 [7] true] after ∧ ¬ after.bytes ≤ 0 :=
  ⟨_, Run.single (.put (by decide) rfl), by decide⟩

/-- Over every run the counter is the length of what is stored and the order lists the stored keys.  A put
that succeeds stores its blob within the cap, if there is one, and a get reads the blob last put. -/
theorem blobs_accounted {capBytes : UInt64} {calls : List Call} (run : Run Step (new capBytes) calls store) :
    store.bytes.toNat = store.resident ∧
    store.order.Nodup ∧ (∀ key, key ∈ store.order ↔ (store.map.lookup key).isSome) ∧
    (∀ key bytes after, Step store (.put key bytes true) after →
      after.map.lookup key = some bytes ∧ (capBytes ≠ 0 → after.bytes ≤ capBytes)) ∧
    (∀ key outLength blob after, Step store (.get key outLength (some blob)) after →
      blob.length = outLength ∧ latest (stores key) calls = some blob) := by
  have holds := Holds.of_run run
  refine ⟨holds.sized.bytes, holds.sized.order.nodup, holds.sized.order.mem_iff, ?_, ?_⟩
  · intro key bytes after taken
    cases taken with
    | put apart answered =>
      obtain ⟨-, cap, -, stored⟩ := holds.sized.put apart answered
      obtain ⟨within, present, -⟩ := stored rfl
      rw [cap, holds.cap] at within
      exact ⟨present, within⟩
  · intro key outLength blob after taken
    generalize answer : some blob = reply at taken
    cases taken with
    | get =>
      obtain ⟨stored, sized⟩ := Option.filter_eq_some_iff.mp answer.symm
      rw [← answer]
      exact ⟨by simpa using sized, holds.last key blob stored⟩

/-- The second put evicts nothing, the third overwrites and evicts another key. -/
theorem blobs_accounted_overwrite : ∃ store, Run Step (new 3)
    [.put 1 [4, 5] true, .put 2 [6] true, .put 1 [7, 8, 9] true, .get 2 1 none] store ∧
    store.bytes.toNat = store.resident ∧ store.order = [1] := by
  have run : ∃ store, Run Step (new 3)
      [.put 1 [4, 5] true, .put 2 [6] true, .put 1 [7, 8, 9] true, .get 2 1 none] store ∧ store.order = [1] :=
    ⟨_, (Run.single (.put (by decide) rfl)).trans ((Run.single (.put (by decide) rfl)).trans
      ((Run.single (.put (by decide) rfl)).trans (Run.single .get))), by decide⟩
  obtain ⟨store, run, order⟩ := run
  exact ⟨store, run, (blobs_accounted run).1, order⟩

end MemBlobStore

end Metrale.Cache
