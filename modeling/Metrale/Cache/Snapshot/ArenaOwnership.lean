import Mathlib.Data.Sum.Basic
import Metrale.Cache.Snapshot.ArenaStore

/-! # Who owns an arena slot, and what is in it

While no put starts in a slot that another call is in, no get starts in one that a put is in, and no put maps
a key that has been mapped meanwhile, every slot is free, a key's or a new put's, and what a get reads is what
one put of its key has written. -/

namespace Metrale.Cache

open Metrale.Foundation

/-! ## Calls in flight -/

def Alone (calls : Nat → Option InFlight) : Prop :=
  ∀ thread other call call', calls thread = some call → calls other = some call' → call.writes = true →
    call.slot = call'.slot → thread = other

section Calls

variable {calls : Nat → Option InFlight} {thread : Nat} {call call' : InFlight}

theorem during_cases {new : Option InFlight} {other : Nat}
    (flying : Function.update calls thread new other = some call) :
    (other = thread ∧ new = some call) ∨ (other ≠ thread ∧ calls other = some call) := by
  by_cases same : other = thread
  · subst same
    rw [Function.update_self] at flying
    exact .inl ⟨rfl, flying⟩
  · rw [Function.update_of_ne same] at flying
    exact .inr ⟨same, flying⟩

theorem Alone.during (alone : Alone calls)
    (apart : ∀ other call', other ≠ thread → calls other = some call' →
      call.writes = true ∨ call'.writes = true → call'.slot ≠ call.slot) :
    Alone (Function.update calls thread (some call)) := by
  intro first second call₁ call₂ flying₁ flying₂ writes same
  obtain ⟨here₁, own₁⟩ | ⟨away₁, flying₁⟩ := during_cases flying₁
  · obtain ⟨here₂, -⟩ | ⟨away₂, flying₂⟩ := during_cases flying₂
    · rw [here₁, here₂]
    · cases own₁
      exact absurd same.symm (apart second call₂ away₂ flying₂ (.inl writes))
  · obtain ⟨-, own₂⟩ | ⟨-, flying₂⟩ := during_cases flying₂
    · cases own₂
      exact absurd same (apart first call₁ away₁ flying₁ (.inr writes))
    · exact alone first second call₁ call₂ flying₁ flying₂ writes same

theorem Alone.advance (alone : Alone calls) (flying : calls thread = some call) (slot : call'.slot = call.slot)
    (writes : call'.writes = call.writes) : Alone (Function.update calls thread (some call')) := by
  refine alone.during fun other third away flying' either same => away ?_
  rw [writes] at either
  rw [slot] at same
  obtain own | others := either
  · exact (alone thread other call third flying flying' own same.symm).symm
  · exact alone other thread third call flying' flying others same

theorem Alone.stop (alone : Alone calls) : Alone (Function.update calls thread none) := by
  intro first second call₁ call₂ flying₁ flying₂ writes same
  obtain ⟨-, none₁⟩ | ⟨-, flying₁⟩ := during_cases flying₁
  · cases none₁
  obtain ⟨-, none₂⟩ | ⟨-, flying₂⟩ := during_cases flying₂
  · cases none₂
  exact alone first second call₁ call₂ flying₁ flying₂ writes same

end Calls

namespace RdmaSnapshotStore

/-- The slot of a key, or of a put in flight that took it from the free list. -/
def holder (store : RdmaSnapshotStore) : TierKey ⊕ Nat → Option Nat :=
  Sum.elim (fun key => store.inner.map.lookup key) fun thread => (store.calls thread).bind InFlight.claimed

variable {store : RdmaSnapshotStore} {thread : Nat} {key : TierKey} {slot arenaSlots : Nat} {events : List Event}
  {bytes : Blob}

def blob (store : RdmaSnapshotStore) (slot : Nat) : Blob := store.transport.slice (store.offsetOf slot) store.blobBytes

def Put (events : List Event) (key : TierKey) (bytes : Blob) : Prop :=
  ∃ thread, .put thread key bytes (.ok true) ∈ events

def FlightSound (events : List Event) (store : RdmaSnapshotStore) : InFlight → Prop
  | .put key bytes slot wasNew pending =>
    bytes.length = store.blobBytes ∧ Landed store.transport (store.offsetOf slot) bytes pending ∧
      (wasNew = false → ∀ other, store.inner.map.lookup other = some slot → other = key)
  | .get key slot out pending => Put events key (store.blob slot) ∧ Landed out 0 (store.blob slot) pending

structure Sound (arenaSlots : Nat) (events : List Event) (store : RdmaSnapshotStore) : Prop where
  owned : Owned arenaSlots store.inner.free none store.holder
  alone : Alone store.calls
  calls : ∀ thread call, store.calls thread = some call → FlightSound events store call
  stored : ∀ key slot, store.inner.map.lookup key = some slot →
    (∀ thread call, store.calls thread = some call → call.writes = true → call.slot ≠ slot) →
      Put events key (store.blob slot)

variable {inner : RdmaInner} {wasNew : Bool} {pending : List Nat} {call : InFlight} {after : RdmaSnapshotStore}
  {event : Event}

theorem holder_during (store : RdmaSnapshotStore) (thread : Nat) (call : Option InFlight) :
    (store.during thread call).holder = Function.update store.holder (.inr thread) (call.bind InFlight.claimed) := by
  simp only [holder]
  rw [Sum.update_elim_inr]
  exact congrArg (Sum.elim _) (Function.comp_update (fun call : Option InFlight => call.bind InFlight.claimed) store.calls thread call)

theorem holder_insert (store : RdmaSnapshotStore) (key : TierKey) (slot : Nat) :
    holder { store with inner := { store.inner with map := store.inner.map.insert key slot } } =
      Function.update store.holder (.inl key) (some slot) := by
  simp only [holder]
  rw [Sum.update_elim_inl, ← HashMap.lookup_insert_update]

theorem holder_erase (store : RdmaSnapshotStore) (key : TierKey) (free : List Nat) :
    holder { store with inner := { map := store.inner.map.erase key, free } } =
      Function.update store.holder (.inl key) none := by
  simp only [holder]
  rw [Sum.update_elim_inl, ← HashMap.lookup_erase_update]

theorem pick_cases {before : RdmaInner} (picked : before.pick key = some (slot, wasNew, inner)) :
    (wasNew = false ∧ inner = before ∧ before.map.lookup key = some slot) ∨
      (wasNew = true ∧ inner.map = before.map ∧ before.map.lookup key = none ∧ before.free = slot :: inner.free) := by
  simp only [RdmaInner.pick] at picked
  split at picked
  · next found =>
    cases picked
    exact .inl ⟨rfl, rfl, found⟩
  next absent =>
  split at picked
  · cases picked
  · next head =>
    cases picked
    exact .inr ⟨rfl, rfl, absent, head⟩

theorem lookup_remove (before : RdmaInner) (key other : TierKey) :
    (before.remove key).map.lookup other = if other = key then none else before.map.lookup other := by
  simp only [RdmaInner.remove]
  split
  · exact HashMap.lookup_erase_if before.map key other
  · next absent =>
    split
    · next same => rw [same, absent]
    · rfl

/-! ## Ownership, call by call -/

theorem idle_unclaimed (idle : store.calls thread = none) : store.holder (.inr thread) = none := by
  show (store.calls thread).bind InFlight.claimed = none
  rw [idle]
  rfl

theorem claimed_held (flying : store.calls thread = some call) : store.holder (.inr thread) = call.claimed := by
  show (store.calls thread).bind InFlight.claimed = call.claimed
  rw [flying]
  rfl

theorem owned_during (store : RdmaSnapshotStore) (call : Option InFlight) (owned : Owned arenaSlots store.inner.free none store.holder)
    (claims : store.holder (.inr thread) = call.bind InFlight.claimed) :
    Owned arenaSlots store.inner.free none (store.during thread call).holder := by
  rw [holder_during]
  exact owned.keep claims

theorem owned_pick (owned : Owned arenaSlots store.inner.free none store.holder) (idle : store.calls thread = none)
    (picked : store.inner.pick key = some (slot, wasNew, inner)) :
    Owned arenaSlots inner.free none
      ({ store with inner }.during thread (some (.put key bytes slot wasNew pending))).holder := by
  obtain ⟨rfl, rfl, -⟩ | ⟨rfl, map, -, head⟩ := pick_cases picked
  · exact owned_during store (some (.put key bytes slot false pending)) owned (idle_unclaimed idle)
  · have same : holder { store with inner } = store.holder := by
      simp only [holder]
      rw [map]
    rw [holder_during, same]
    rw [head] at owned
    exact owned.take.give (idle_unclaimed idle)

theorem owned_remove (owned : Owned arenaSlots store.inner.free none store.holder) (key : TierKey) :
    Owned arenaSlots (store.inner.remove key).free none (holder { store with inner := store.inner.remove key }) := by
  simp only [RdmaInner.remove]
  split
  · next slot held =>
    rw [holder_erase]
    exact owned.release (show store.holder (.inl key) = some slot from held)
  · exact owned

theorem owned_written (owned : Owned arenaSlots store.inner.free none store.holder)
    (flying : store.calls thread = some (.put key bytes slot wasNew pending))
    (unmapped : wasNew = true → store.inner.map.lookup key = none) :
    Owned arenaSlots (store.inner.written key slot wasNew).free none
      ({ store with inner := store.inner.written key slot wasNew }.during thread none).holder := by
  cases wasNew with
  | false => exact owned_during store none owned (claimed_held flying)
  | true =>
    have claim : store.holder (.inr thread) = some slot := claimed_held flying
    have vacant : Function.update store.holder (.inr thread) none (.inl key) = none := by
      rw [Function.update_of_ne Sum.inl_ne_inr]
      exact unmapped rfl
    have moved : ({ store with inner := store.inner.written key slot true }.during thread none).holder =
        Function.update (Function.update store.holder (.inr thread) none) (.inl key) (some slot) := by
      rw [holder_during, Function.update_comm Sum.inr_ne_inl, ← holder_insert]
      rfl
    rw [moved]
    exact (owned.seize claim).give vacant

theorem owned_unwritten (owned : Owned arenaSlots store.inner.free none store.holder)
    (flying : store.calls thread = some (.put key bytes slot wasNew pending)) :
    Owned arenaSlots (store.inner.unwritten key slot wasNew).free none
      ({ store with inner := store.inner.unwritten key slot wasNew }.during thread none).holder := by
  have claim : store.holder (.inr thread) = InFlight.claimed (.put key bytes slot wasNew pending) := claimed_held flying
  cases wasNew with
  | false => exact owned_during { store with inner := store.inner.remove key } none (owned_remove owned key) claim
  | true =>
    rw [holder_during]
    exact owned.release claim

/-! ## Contents, call by call -/

def SameBlob (store after : RdmaSnapshotStore) (slot : Nat) : Prop :=
  after.blobBytes = store.blobBytes ∧
    ∀ offset < store.blobBytes,
      after.transport (store.offsetOf slot + offset) = store.transport (store.offsetOf slot + offset)

theorem SameBlob.offsetOf (same : SameBlob store after slot) : after.offsetOf slot = store.offsetOf slot := by
  simp only [RdmaSnapshotStore.offsetOf]
  rw [same.1]

theorem SameBlob.blob (same : SameBlob store after slot) : after.blob slot = store.blob slot := by
  simp only [RdmaSnapshotStore.blob]
  rw [same.1, same.offsetOf]
  exact Memory.slice_congr same.2

theorem SameBlob.landed (same : SameBlob store after slot) (sized : bytes.length = store.blobBytes)
    (landed : Landed store.transport (store.offsetOf slot) bytes pending) :
    Landed after.transport (after.offsetOf slot) bytes pending := by
  intro offset byte listed done
  obtain ⟨bound, -⟩ := List.getElem?_eq_some_iff.mp listed
  rw [same.offsetOf, same.2 offset (sized ▸ bound)]
  exact landed offset byte listed done

theorem sameBlob_write {offset : Nat} {byte : UInt8} {slot' : Nat} (apart : slot' ≠ slot) (inside : offset < store.blobBytes) :
    SameBlob store
      { store with transport := Function.update store.transport (store.offsetOf slot + offset) byte } slot' := by
  refine ⟨rfl, fun other bound => Function.update_of_ne ?_ _ _⟩
  simp only [RdmaSnapshotStore.offsetOf]
  obtain less | more := @Memory.cells_apart slot' slot store.blobBytes apart
  all_goals omega

/-- A call goes on as it was while its slot's bytes stay, and no key gets its slot. -/
theorem FlightSound.frame {later : List Event} (sound : FlightSound events store call)
    (same : SameBlob store after call.slot) (monotone : ∀ key bytes, Put events key bytes → Put later key bytes)
    (map : ∀ key, after.inner.map.lookup key = some call.slot → store.inner.map.lookup key = some call.slot) :
    FlightSound later after call := by
  cases call with
  | put key bytes slot wasNew pending =>
    obtain ⟨sized, landed, ofKey⟩ := sound
    exact ⟨sized.trans same.1.symm, same.landed sized landed, fun old other held => ofKey old other (map other held)⟩
  | get key slot out pending =>
    obtain ⟨put, landed⟩ := sound
    have blob : after.blob slot = store.blob slot := same.blob
    show Put later key (after.blob slot) ∧ Landed out 0 (after.blob slot) pending
    rw [blob]
    exact ⟨monotone _ _ put, landed⟩

theorem Sound.during {later : List Event} {new : Option InFlight} (sound : Sound arenaSlots events store)
    (monotone : ∀ key bytes, Put events key bytes → Put later key bytes)
    (calls : after.calls = Function.update store.calls thread new)
    (owned : Owned arenaSlots after.inner.free none after.holder) (alone : Alone after.calls)
    (own : ∀ call, new = some call → FlightSound later after call)
    (others : ∀ other call, other ≠ thread → store.calls other = some call → SameBlob store after call.slot ∧
      ∀ key, after.inner.map.lookup key = some call.slot → store.inner.map.lookup key = some call.slot)
    (stored : ∀ key slot, after.inner.map.lookup key = some slot →
      (∀ other call, after.calls other = some call → call.writes = true → call.slot ≠ slot) →
        Put later key (after.blob slot)) :
    Sound arenaSlots later after where
  owned := owned
  alone := alone
  calls := by
    intro other call flying
    rw [calls] at flying
    obtain ⟨-, started⟩ | ⟨away, flying⟩ := during_cases flying
    · exact own call started
    · obtain ⟨same, map⟩ := others other call away flying
      exact (sound.calls other call flying).frame same monotone map
  stored := stored

/-- A put starts in a slot that no call is in, a get in one that no put is in, and a new put's key is still
not mapped when the put is done. -/
def Event.Exclusive (store : RdmaSnapshotStore) : Event → Prop
  | .pick _ key _ => ∀ slot wasNew inner, store.inner.pick key = some (slot, wasNew, inner) →
      ∀ other call, store.calls other = some call → call.slot ≠ slot
  | .find _ key => ∀ slot, store.inner.map.lookup key = some slot →
      ∀ other call, store.calls other = some call → call.writes = true → call.slot ≠ slot
  | .put thread key bytes (.ok true) => ∀ slot pending,
      store.calls thread = some (.put key bytes slot true pending) → store.inner.map.lookup key = none
  | _ => True

theorem Put.append (put : Put events key bytes) (event : Event) : Put (events ++ [event]) key bytes := by
  obtain ⟨thread, member⟩ := put
  exact ⟨thread, List.mem_append_left _ member⟩

theorem Sound.stored_during {new : Option InFlight} (sound : Sound arenaSlots events store)
    (apart : ∀ call, store.calls thread = some call → call.writes = true → call.slot ≠ slot)
    (held : store.inner.map.lookup key = some slot)
    (unwritten : ∀ other call, Function.update store.calls thread new other = some call → call.writes = true →
      call.slot ≠ slot) : Put (events ++ [event]) key (store.blob slot) := by
  refine (sound.stored key slot held fun other call flying writing => ?_).append event
  -- The condition on the calls afterwards says nothing about the call that the thread was in.
  by_cases own : other = thread
  · exact apart call (own ▸ flying) writing
  · exact unwritten other call ((Function.update_of_ne own _ _).trans flying) writing

section Steps

variable (sound : Sound arenaSlots events store)

include sound

theorem pick_sound (idle : store.calls thread = none) (sized : bytes.length = store.blobBytes)
    (picked : store.inner.pick key = some (slot, wasNew, inner))
    (vacant : ∀ other call, store.calls other = some call → call.slot ≠ slot) :
    Sound arenaSlots (events ++ [event])
      ({ store with inner }.during thread (some (.put key bytes slot wasNew (List.range store.blobBytes)))) := by
  -- A pick maps nothing: a new slot goes to its key once it is written.
  have map : inner.map = store.inner.map := by
    obtain ⟨-, rfl, -⟩ | ⟨-, map, -⟩ := pick_cases picked
    · rfl
    · exact map
  refine sound.during (fun _ _ put => put.append event) rfl (owned_pick sound.owned idle picked)
    (sound.alone.during fun other call' _ flying _ => vacant other call' flying) ?_ ?_ ?_
  · rintro _ ⟨⟩
    refine ⟨sized, ?_, ?_⟩
    · rw [← sized]
      exact .nothing _ _ _
    · -- An old slot is its key's alone.
      rintro rfl other held
      change inner.map.lookup other = some slot at held
      obtain ⟨-, rfl, own⟩ | ⟨⟨⟩, -⟩ := pick_cases picked
      exact Sum.inl.inj (sound.owned.ownedOnce (.inl other) (.inl key) slot held own)
  · intro other call _ flying
    refine ⟨⟨rfl, fun _ _ => rfl⟩, fun third held => ?_⟩
    change inner.map.lookup third = some call.slot at held
    rwa [map] at held
  · intro other slot' held unwritten
    change inner.map.lookup other = some slot' at held
    rw [map] at held
    refine sound.stored_during (fun call flying _ => ?_) held unwritten
    cases idle.symm.trans flying

theorem find_sound (out : Memory UInt8) (idle : store.calls thread = none)
    (found : store.inner.map.lookup key = some slot)
    (unwritten : ∀ other call, store.calls other = some call → call.writes = true → call.slot ≠ slot) :
    Sound arenaSlots (events ++ [event])
      (store.during thread (some (.get key slot out (List.range store.blobBytes)))) := by
  refine sound.during (fun _ _ put => put.append event) rfl
    (owned_during store (some (.get key slot out _)) sound.owned (idle_unclaimed idle))
    (sound.alone.during fun other call' _ flying writes => ?_) ?_ (fun other call _ flying => ?_) ?_
  · obtain ⟨⟨⟩⟩ | writes := writes
    exact unwritten other call' flying writes
  · rintro _ ⟨⟩
    -- No put is in the slot, so its bytes are whole as the get starts.
    refine ⟨(sound.stored key slot found unwritten).append event, ?_⟩
    have landed := Landed.nothing out 0 (store.blob slot)
    rwa [show (store.blob slot).length = store.blobBytes from Memory.length_slice _ _ _] at landed
  · exact ⟨⟨rfl, fun _ _ => rfl⟩, fun _ held => held⟩
  · intro other slot' held unwritten
    refine sound.stored_during (fun call flying _ => ?_) held unwritten
    cases idle.symm.trans flying

theorem got_sound {out : Memory UInt8} (flying : store.calls thread = some (.get key slot out pending)) :
    Sound arenaSlots (events ++ [event]) (store.during thread none) := by
  refine sound.during (fun _ _ put => put.append event) rfl
    (owned_during store none sound.owned (claimed_held flying)) sound.alone.stop nofun
    (fun other call _ flying => ⟨⟨rfl, fun _ _ => rfl⟩, fun _ held => held⟩) ?_
  intro other slot' held unwritten
  refine sound.stored_during (fun call flying' writes => ?_) held unwritten
  cases flying.symm.trans flying'
  cases writes

theorem read_sound {out : Memory UInt8} {offset : Nat}
    (flying : store.calls thread = some (.get key slot out pending)) (inside : offset < store.blobBytes) :
    Sound arenaSlots (events ++ [event])
      (store.during thread
        (some (.get key slot (Function.update out offset (store.transport (store.offsetOf slot + offset)))
          (pending.erase offset)))) := by
  refine sound.during (fun _ _ put => put.append event) rfl
    (owned_during store (some (.get key slot _ _)) sound.owned (claimed_held flying))
    (sound.alone.advance flying rfl rfl) ?_
    (fun other call _ flying => ⟨⟨rfl, fun _ _ => rfl⟩, fun _ held => held⟩) ?_
  · rintro _ ⟨⟩
    obtain ⟨put, landed⟩ := sound.calls thread _ flying
    refine ⟨put.append event, ?_⟩
    -- Alone in its slot, the get goes on reading the bytes it started with.
    have next : (store.blob slot)[offset]? = some (store.transport (store.offsetOf slot + offset)) :=
      Memory.getElem?_slice inside
    have advanced := landed.advance next
    rwa [Nat.zero_add] at advanced
  · intro other slot' held unwritten
    refine sound.stored_during (fun call flying' writes => ?_) held unwritten
    cases flying.symm.trans flying'
    cases writes

theorem Sound.apart (flying : store.calls thread = some call) (writes : call.writes = true) {other : Nat}
    {call' : InFlight} (away : other ≠ thread) (flying' : store.calls other = some call') : call'.slot ≠ call.slot :=
  fun same => away (sound.alone thread other call call' flying flying' writes same.symm).symm

theorem write_sound {offset : Nat} {byte : UInt8}
    (flying : store.calls thread = some (.put key bytes slot wasNew pending)) (next : bytes[offset]? = some byte) :
    Sound arenaSlots (events ++ [event])
      ({ store with transport := Function.update store.transport (store.offsetOf slot + offset) byte }.during thread
        (some (.put key bytes slot wasNew (pending.erase offset)))) := by
  obtain ⟨sized, landed, ofKey⟩ := sound.calls thread _ flying
  obtain ⟨bound, -⟩ := List.getElem?_eq_some_iff.mp next
  have inside : offset < store.blobBytes := sized ▸ bound
  refine sound.during (fun _ _ put => put.append event) rfl
    (owned_during store (some (.put key bytes slot wasNew _)) sound.owned (claimed_held flying))
    (sound.alone.advance flying rfl rfl) ?_ (fun other call away flying' => ?_) ?_
  · rintro _ ⟨⟩
    exact ⟨sized, landed.advance next, ofKey⟩
  · exact ⟨sameBlob_write (sound.apart flying rfl away flying') inside, fun _ held => held⟩
  · intro other slot' held unwritten
    -- The put goes on in its slot, so a slot that nothing writes is another one.
    have apart : slot' ≠ slot := by
      refine Ne.symm (unwritten thread _ (Function.update_self _ _ _) rfl)
    have same : SameBlob store
        { store with transport := Function.update store.transport (store.offsetOf slot + offset) byte } slot' :=
      sameBlob_write apart inside
    refine same.blob.symm ▸ sound.stored_during (fun call flying' _ => ?_) held unwritten
    cases flying.symm.trans flying'
    exact apart.symm

theorem written_sound (flying : store.calls thread = some (.put key bytes slot wasNew []))
    (unmapped : wasNew = true → store.inner.map.lookup key = none) :
    Sound arenaSlots (events ++ [.put thread key bytes (.ok true)])
      ({ store with inner := store.inner.written key slot wasNew }.during thread none) := by
  obtain ⟨sized, landed, ofKey⟩ := sound.calls thread _ flying
  have put : Put (events ++ [.put thread key bytes (.ok true)]) key (store.blob slot) := by
    refine ⟨thread, List.mem_append_right _ (List.mem_singleton.mpr ?_)⟩
    rw [blob, ← sized, landed.slice]
  -- The written slot is its key's; the other slots are the keys' that they were.
  have lookup : ∀ other slot', (store.inner.written key slot wasNew).map.lookup other = some slot' →
      (other = key ∧ slot' = slot) ∨ (slot' ≠ slot ∧ store.inner.map.lookup other = some slot') := by
    intro other slot' held
    -- A put of a mapped key was in that key's slot; a new slot was only its claim.
    cases wasNew with
    | false =>
      by_cases same : slot' = slot
      · exact .inl ⟨ofKey rfl other (same ▸ held), same⟩
      · exact .inr ⟨same, held⟩
    | true =>
      have claim : store.holder (.inr thread) = some slot := claimed_held flying
      change (store.inner.map.insert key slot).lookup other = some slot' at held
      rw [HashMap.lookup_insert_if] at held
      split at held
      · next same =>
        cases held
        exact .inl ⟨same, rfl⟩
      · refine .inr ⟨?_, held⟩
        rintro rfl
        cases sound.owned.ownedOnce (.inl other) (.inr thread) slot' held claim
  refine sound.during (fun _ _ put => put.append _) rfl (owned_written sound.owned flying unmapped)
    sound.alone.stop nofun (fun other call away flying' => ?_) ?_
  · refine ⟨⟨rfl, fun _ _ => rfl⟩, fun third held => ?_⟩
    obtain ⟨-, same⟩ | ⟨-, held⟩ := lookup third call.slot held
    · exact absurd same (sound.apart flying rfl away flying')
    · exact held
  · intro other slot' held unwritten
    obtain ⟨rfl, rfl⟩ | ⟨apart, held⟩ := lookup other slot' held
    · exact put
    · refine sound.stored_during (fun call flying' _ => ?_) held unwritten
      cases flying.symm.trans flying'
      exact apart.symm

theorem unwritten_sound (flying : store.calls thread = some (.put key bytes slot wasNew pending)) :
    Sound arenaSlots (events ++ [event])
      ({ store with inner := store.inner.unwritten key slot wasNew }.during thread none) := by
  obtain ⟨-, -, ofKey⟩ := sound.calls thread _ flying
  -- No key has the slot any more.
  have lookup : ∀ other slot', (store.inner.unwritten key slot wasNew).map.lookup other = some slot' →
      slot' ≠ slot ∧ store.inner.map.lookup other = some slot' := by
    intro other slot' held
    cases wasNew with
    | false =>
      change (store.inner.remove key).map.lookup other = some slot' at held
      rw [lookup_remove] at held
      split at held
      · cases held
      · next differs => exact ⟨fun same => differs (ofKey rfl other (same ▸ held)), held⟩
    | true =>
      have claim : store.holder (.inr thread) = some slot := claimed_held flying
      refine ⟨?_, held⟩
      rintro rfl
      cases sound.owned.ownedOnce (.inl other) (.inr thread) slot' held claim
  refine sound.during (fun _ _ put => put.append event) rfl (owned_unwritten sound.owned flying) sound.alone.stop nofun
    (fun other call _ _ => ⟨⟨rfl, fun _ _ => rfl⟩, fun third held => (lookup third call.slot held).2⟩) ?_
  intro other slot' held unwritten
  obtain ⟨apart, held⟩ := lookup other slot' held
  refine sound.stored_during (fun call flying' _ => ?_) held unwritten
  cases flying.symm.trans flying'
  exact apart.symm

theorem remove_sound (key : TierKey) :
    Sound arenaSlots (events ++ [event]) { store with inner := store.inner.remove key } where
  owned := owned_remove sound.owned key
  alone := sound.alone
  calls := by
    intro thread call flying
    refine (sound.calls thread call flying).frame ⟨rfl, fun _ _ => rfl⟩ (fun _ _ put => put.append event) ?_
    intro other held
    change (store.inner.remove key).map.lookup other = some call.slot at held
    rw [lookup_remove] at held
    split at held
    · cases held
    · exact held
  stored := by
    intro other slot' held unwritten
    change (store.inner.remove key).map.lookup other = some slot' at held
    rw [lookup_remove] at held
    split at held
    · cases held
    · exact (sound.stored other slot' held unwritten).append event

theorem idle_sound : Sound arenaSlots (events ++ [event]) store where
  owned := sound.owned
  alone := sound.alone
  calls := fun thread call flying =>
    (sound.calls thread call flying).frame ⟨rfl, fun _ _ => rfl⟩ (fun _ _ put => put.append event) fun _ held => held
  stored := fun key slot held unwritten => (sound.stored key slot held unwritten).append event

end Steps

theorem Step.sound (sound : Sound arenaSlots events store) (exclusive : event.Exclusive store)
    (step : Step store event after) : Sound arenaSlots (events ++ [event]) after := by
  cases step with
  | refuse | miss => exact idle_sound sound
  | pick idle sized picked => exact pick_sound sound idle sized picked (exclusive _ _ _ picked)
  | write flying _ next => exact write_sound sound flying next
  | @written thread key bytes slot wasNew flying =>
    refine written_sound sound flying ?_
    rintro rfl
    exact exclusive slot [] flying
  | unwritten flying => exact unwritten_sound sound flying
  | find out idle found => exact find_sound sound out idle found (exclusive _ found)
  | read flying _ inside => exact read_sound sound flying inside
  | hit flying => exact got_sound sound flying
  | unread flying => exact got_sound sound flying
  | @remove _ key => exact remove_sound sound key

theorem new_sound (transport : Memory UInt8) (blobBytes arenaSlots : Nat) :
    Sound arenaSlots [] (new transport blobBytes arenaSlots) where
  owned := by
    have start : holder (new transport blobBytes arenaSlots) = fun _ => none := by
      funext owner
      cases owner <;> rfl
    rw [start]
    exact .start (fun _ => List.mem_range.symm) List.nodup_range
  alone := nofun
  calls := nofun
  stored := fun key slot held => by cases held

theorem run_slots_sound {transport : Memory UInt8} {blobBytes : Nat}
    (run : Run (Guarded (fun store event => event.Exclusive store) Step) (new transport blobBytes arenaSlots) events
      store) : Sound arenaSlots events store := by
  induction run with
  | start => exact new_sound transport blobBytes arenaSlots
  | extend _ taken ih => exact taken.2.sound ih taken.1

/-- Every slot is free, a key's or a new put's, and a get returns the bytes of a put of its key. -/
theorem run_owns {transport : Memory UInt8} {blobBytes length : Nat}
    (run : Run (Guarded (fun store event => event.Exclusive store) Step) (new transport blobBytes arenaSlots) events
      store) :
    (∀ slot < arenaSlots, Xor (slot ∈ store.inner.free) (∃! owner, store.holder owner = some slot)) ∧
      Alone store.calls ∧
      ∀ after thread key bytes, Step store (.get thread key length (.ok (some bytes))) after → Put events key bytes := by
  have sound := run_slots_sound run
  refine ⟨fun slot below => sound.owned.partition below, sound.alone, fun after thread key bytes step => ?_⟩
  cases step with
  | hit flying =>
    obtain ⟨put, landed⟩ := sound.calls thread _ flying
    have whole := landed.slice
    rw [show (store.blob _).length = store.blobBytes from Memory.length_slice _ _ _] at whole
    rwa [whole]

/-! ## Blobs of one byte -/

/-- One thread puts the blob 7 under the key 5, and another gets it. -/
theorem run_owns_get : ∃ (store after : RdmaSnapshotStore) (events : List Event),
    Run (Guarded (fun store event => event.Exclusive store) Step) (new (fun _ => 0) 1 1) events store ∧
      Step store (.get 1 5 1 (.ok (some [7]))) after ∧
      (∀ slot < 1, Xor (slot ∈ store.inner.free) (∃! owner, store.holder owner = some slot)) ∧
      Put events 5 [7] := by
  have picked : Run (Guarded (fun store event => event.Exclusive store) Step) (new (fun _ => 0) 1 1)
      [.pick 0 5 [7]] _ := .single ⟨fun _ _ _ _ _ _ flying => (by cases flying), .pick rfl rfl rfl⟩
  have moved := @Run.extend _ _ _ _ _ (Event.transfer 0 0) _ _ picked ⟨trivial, .write rfl (List.mem_singleton.mpr rfl) rfl⟩
  have put := @Run.extend _ _ _ _ _ (Event.put 0 5 [7] (.ok true)) _ _ moved ⟨fun _ _ _ => rfl, .written rfl⟩
  have found := @Run.extend _ _ _ _ _ (Event.find 1 5) _ _ put
    ⟨fun slot _ other call flying => (by
      obtain ⟨-, ⟨⟩⟩ | ⟨away, flying⟩ := during_cases flying
      obtain ⟨here, -⟩ | ⟨-, flying⟩ := during_cases flying
      · exact absurd here away
      obtain ⟨here, -⟩ | ⟨-, ⟨⟩⟩ := during_cases flying
      exact absurd here away), .find (fun _ => 0) rfl rfl⟩
  have read := @Run.extend _ _ _ _ _ (Event.transfer 1 0) _ _ found
    ⟨trivial, .read rfl (List.mem_singleton.mpr rfl) Nat.one_pos⟩
  have run : ∃ (store after : RdmaSnapshotStore) (events : List Event),
      Run (Guarded (fun store event => event.Exclusive store) Step) (new (fun _ => 0) 1 1) events store ∧
        Step store (.get 1 5 1 (.ok (some [7]))) after := 
    ⟨_, _, _, read, @Step.hit _ 1 5 0 (Function.update (fun _ => 0) 0 7) rfl⟩
  obtain ⟨store, after, events, run, step⟩ := run
  obtain ⟨owned, -, put⟩ := run_owns run
  exact ⟨store, after, events, run, step, owned, put _ _ _ _ step⟩

/-- Two puts of a key that is not there leave a slot that is nobody's; and the key's slot goes to another key
while a get is in it. -/
theorem overlapping_calls_lose_slot :
    (∃ (store : RdmaSnapshotStore) (events : List Event), Run Step (new (fun _ => 0) 1 2) events store ∧
      0 ∉ store.inner.free ∧ ∀ owner, store.holder owner ≠ some 0) ∧
    ∃ (store after : RdmaSnapshotStore) (events : List Event), Run Step (new (fun _ => 0) 1 1) events store ∧
      Step store (.get 1 5 1 (.ok (some [2]))) after ∧ ¬ Put events 5 [2] := by
  constructor
  -- Both threads find the key absent, and the second `insert` replaces the slot of the first.
  · have first : Run Step (new (fun _ => 0) 1 2) [Event.pick 0 5 [1]] _ := .single (.pick rfl rfl rfl)
    have second := @Run.extend _ _ _ _ _ (Event.pick 1 5 [2]) _ _ first (.pick rfl rfl rfl)
    have moved := @Run.extend _ _ _ _ _ (Event.transfer 0 0) _ _ second (.write rfl (List.mem_singleton.mpr rfl) rfl)
    have moved' := @Run.extend _ _ _ _ _ (Event.transfer 1 0) _ _ moved (.write rfl (List.mem_singleton.mpr rfl) rfl)
    have put := @Run.extend _ _ _ _ _ (Event.put 0 5 [1] (.ok true)) _ _ moved' (.written rfl)
    have put' := @Run.extend _ _ _ _ _ (Event.put 1 5 [2] (.ok true)) _ _ put (.written rfl)
    refine ⟨_, _, put', List.not_mem_nil, fun owner held => ?_⟩
    cases owner with
    | inl key =>
      have mapped : (((∅ : HashMap TierKey Nat).insert 5 0).insert 5 1).lookup key = some 0 := held
      rw [HashMap.lookup_insert_if, HashMap.lookup_insert_if] at mapped
      split at mapped <;> cases mapped
    | inr thread => obtain _ | _ | other := thread <;> cases held
  · have first : Run Step (new (fun _ => 0) 1 1) [Event.pick 0 5 [1]] _ := .single (.pick rfl rfl rfl)
    have moved := @Run.extend _ _ _ _ _ (Event.transfer 0 0) _ _ first (.write rfl (List.mem_singleton.mpr rfl) rfl)
    have put := @Run.extend _ _ _ _ _ (Event.put 0 5 [1] (.ok true)) _ _ moved (.written rfl)
    have found := @Run.extend _ _ _ _ _ (Event.find 1 5) _ _ put (.find (fun _ => 0) rfl rfl)
    -- The slot is free while thread 1 is about to read it.
    have removed := @Run.extend _ _ _ _ _ (Event.remove 0 5) _ _ found (.remove rfl)
    have second := @Run.extend _ _ _ _ _ (Event.pick 0 6 [2]) _ _ removed (.pick rfl rfl rfl)
    have moved' := @Run.extend _ _ _ _ _ (Event.transfer 0 0) _ _ second (.write rfl (List.mem_singleton.mpr rfl) rfl)
    have read := @Run.extend _ _ _ _ _ (Event.transfer 1 0) _ _ moved' (.read rfl (List.mem_singleton.mpr rfl) Nat.one_pos)
    refine ⟨_, _, _, read, @Step.hit _ 1 5 0 (Function.update (fun _ => 0) 0 2) rfl, ?_⟩
    rintro ⟨thread, member⟩
    simp at member

end RdmaSnapshotStore

end Metrale.Cache
