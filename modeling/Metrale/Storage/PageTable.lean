import Metrale.Foundation.Listing
import Metrale.Foundation.SlotOwnership
import Metrale.Storage.Residency

/-! # The bookkeeping of a page table

`PageTable` is a residency without its devices.  `Consistent` is what holds of it at every point of
every call: slots and records are each in one place, and the two LRU lists hold the keys they should.
What the running call has taken off a list and not yet put anywhere is `Moving`; between calls that
is nothing.  Each theorem is one of the moves that the calls are made of. -/

namespace Metrale.Storage

open Metrale.Foundation

namespace Loc

def slot : Loc → Option Nat
  | reserved slot | resident slot => some slot
  | onDisk _ => none

def record : Loc → Option Nat
  | onDisk diskSlot => some diskSlot
  | _ => none

theorem record_of_slot {loc : Loc} {slot : Nat} (held : loc.slot = some slot) : loc.record = none := by
  cases loc with
  | reserved | resident => rfl
  | onDisk => cases held

end Loc

/-! ## What the map says of a key -/

variable {map : HashMap Key Loc} {key other : Key} {loc : Loc}

def slotOf (map : HashMap Key Loc) (key : Key) : Option Nat := (map.lookup key).bind Loc.slot

def recordOf (map : HashMap Key Loc) (key : Key) : Option Nat := (map.lookup key).bind Loc.record

def Resident (map : HashMap Key Loc) (key : Key) : Prop := ∃ slot, map.lookup key = some (.resident slot)

def OnDisk (map : HashMap Key Loc) (key : Key) : Prop := ∃ diskSlot, map.lookup key = some (.onDisk diskSlot)

theorem slotOf_eq (stored : map.lookup key = some loc) : slotOf map key = loc.slot := by
  rw [slotOf, stored]
  rfl

theorem recordOf_eq (stored : map.lookup key = some loc) : recordOf map key = loc.record := by
  rw [recordOf, stored]
  rfl

theorem slotOf_insert : slotOf (map.insert key loc) = Function.update (slotOf map) key loc.slot := by
  funext other
  rw [slotOf, HashMap.lookup_insert_if, Function.update_apply]
  split <;> rfl

theorem recordOf_insert : recordOf (map.insert key loc) = Function.update (recordOf map) key loc.record := by
  funext other
  rw [recordOf, HashMap.lookup_insert_if, Function.update_apply]
  split <;> rfl

theorem slotOf_erase : slotOf (map.erase key) = Function.update (slotOf map) key none := by
  funext other
  rw [slotOf, HashMap.lookup_erase_if, Function.update_apply]
  split <;> rfl

theorem recordOf_erase : recordOf (map.erase key) = Function.update (recordOf map) key none := by
  funext other
  rw [recordOf, HashMap.lookup_erase_if, Function.update_apply]
  split <;> rfl

theorem resident_insert : Resident (map.insert key loc) other ↔
    if other = key then ∃ slot, loc = .resident slot else Resident map other := by
  simp only [Resident]
  rw [HashMap.lookup_insert_if]
  by_cases same : other = key <;> simp [same]

theorem onDisk_insert : OnDisk (map.insert key loc) other ↔
    if other = key then ∃ diskSlot, loc = .onDisk diskSlot else OnDisk map other := by
  simp only [OnDisk]
  rw [HashMap.lookup_insert_if]
  by_cases same : other = key <;> simp [same]

theorem resident_erase : Resident (map.erase key) other ↔ other ≠ key ∧ Resident map other := by
  simp only [Resident]
  rw [HashMap.lookup_erase_if]
  by_cases same : other = key <;> simp [same]

theorem onDisk_erase : OnDisk (map.erase key) other ↔ other ≠ key ∧ OnDisk map other := by
  simp only [OnDisk]
  rw [HashMap.lookup_erase_if]
  by_cases same : other = key <;> simp [same]

theorem resident_iff (stored : map.lookup key = some loc) : Resident map key ↔ ∃ slot, loc = .resident slot := by
  simp [Resident, stored]

theorem onDisk_iff (stored : map.lookup key = some loc) :
    OnDisk map key ↔ ∃ diskSlot, loc = .onDisk diskSlot := by
  simp [OnDisk, stored]

theorem onDisk_iff_record : OnDisk map key ↔ ∃ diskSlot, recordOf map key = some diskSlot := by
  simp only [OnDisk, recordOf]
  cases map.lookup key with
  | none => simp
  | some loc => cases loc <;> simp [Loc.record]

/-! ## The invariant -/

structure PageTable where
  map : HashMap Key Loc
  freeSlots : List Nat
  lru : List Key
  diskLru : List Key
  freeDisk : List Nat
  nextDisk : Nat
  readPins : HashMap Key UInt32

/-- What a call holds in its hands: a key off `lru`, a key off `disk_lru`, a slot, a record. -/
structure Moving where
  lruKey : Option Key := none
  diskKey : Option Key := none
  slot : Option Nat := none
  record : Option Nat := none

namespace PageTable

structure Consistent (numSlots : Nat) (moving : Moving) (pages : PageTable) : Prop where
  slots : Owned numSlots pages.freeSlots moving.slot (slotOf pages.map)
  records : Owned pages.nextDisk pages.freeDisk moving.record (recordOf pages.map)
  lru : Listing pages.lru fun key =>
    Resident pages.map key ∧ key ∉ pages.readPins ∧ moving.lruKey ≠ some key
  diskLru : Listing pages.diskLru fun key => OnDisk pages.map key ∧ moving.diskKey ≠ some key
  pinned : ∀ key ∈ pages.readPins, ¬ OnDisk pages.map key
  lruHeld : ∀ key, moving.lruKey = some key → Resident pages.map key ∧ key ∉ pages.readPins
  diskHeld : ∀ key, moving.diskKey = some key → OnDisk pages.map key

namespace Consistent

variable {numSlots slot diskSlot : Nat} {moving : Moving} {pages : PageTable} {lruKey hidden : Option Key}
  {held : Option Nat} {keys : List Key} {numbers : List Nat}

/-! ## Slots and records in hand -/

theorem takeSlot (consistent : Consistent numSlots { diskKey := hidden } pages)
    (free : pages.freeSlots = slot :: numbers) :
    Consistent numSlots { diskKey := hidden, slot := some slot } { pages with freeSlots := numbers } where
  __ := consistent
  slots := by
    have owned := consistent.slots
    rw [free] at owned
    exact owned.take

theorem putSlot (consistent : Consistent numSlots { diskKey := hidden, slot := some slot } pages) :
    Consistent numSlots { diskKey := hidden } { pages with freeSlots := slot :: pages.freeSlots } where
  __ := consistent
  slots := consistent.slots.put

theorem takeRecord (consistent : Consistent numSlots { lruKey, diskKey := hidden } pages)
    (free : pages.freeDisk = diskSlot :: numbers) :
    Consistent numSlots { lruKey, diskKey := hidden, record := some diskSlot }
      { pages with freeDisk := numbers } where
  __ := consistent
  records := by
    have owned := consistent.records
    rw [free] at owned
    exact owned.take

theorem newRecord (consistent : Consistent numSlots { lruKey, diskKey := hidden } pages) :
    Consistent numSlots { lruKey, diskKey := hidden, record := some pages.nextDisk }
      { pages with nextDisk := pages.nextDisk + 1 } where
  __ := consistent
  records := consistent.records.grow

theorem putRecord (consistent : Consistent numSlots { lruKey, diskKey := hidden, record := some diskSlot } pages) :
    Consistent numSlots { lruKey, diskKey := hidden }
      { pages with freeDisk := diskSlot :: pages.freeDisk } where
  __ := consistent
  records := consistent.records.put

/-! ## Keys in hand -/

theorem popLru (consistent : Consistent numSlots { diskKey := hidden } pages)
    (front : pages.lru = key :: keys) :
    Consistent numSlots { lruKey := some key, diskKey := hidden } { pages with lru := keys } := by
  have listing := consistent.lru
  rw [front] at listing
  obtain ⟨⟨resident, unpinned, -⟩, rest⟩ := listing.pop
  exact { consistent with
    lru := rest.congr (by grind)
    lruHeld := by
      rintro _ ⟨⟩
      exact ⟨resident, unpinned⟩ }

theorem unpopLru (consistent : Consistent numSlots { lruKey := some key, diskKey := hidden } pages) :
    Consistent numSlots { diskKey := hidden } { pages with lru := key :: pages.lru } where
  __ := consistent
  lru := (consistent.lru.pushFront (by simp)).congr (by grind [consistent.lruHeld key rfl])
  lruHeld := nofun

theorem hideDisk (consistent : Consistent numSlots {} pages) (onDisk : OnDisk pages.map key) :
    Consistent numSlots { diskKey := some key } { pages with diskLru := pages.diskLru.erase key } where
  __ := consistent
  diskLru := (consistent.diskLru.erase key).congr (by grind)
  diskHeld := by
    rintro _ ⟨⟩
    exact onDisk

theorem unhideDisk (consistent : Consistent numSlots { diskKey := some key } pages) :
    Consistent numSlots {} { pages with diskLru := key :: pages.diskLru } where
  __ := consistent
  diskLru := (consistent.diskLru.pushFront (by simp)).congr (by grind [consistent.diskHeld key rfl])
  diskHeld := nofun

/-! ## Moves between the tiers -/

/-- Spilling turns the popped resident key into an on-disk key, and its slot is in hand. -/
theorem spill (consistent : Consistent numSlots
      { lruKey := some key, diskKey := hidden, record := some diskSlot } pages)
    (stored : pages.map.lookup key = some (.resident slot)) :
    Consistent numSlots { diskKey := hidden, slot := some slot }
      { pages with map := pages.map.insert key (.onDisk diskSlot), diskLru := pages.diskLru ++ [key] } where
  slots := by
    simp only [slotOf_insert]
    exact consistent.slots.seize (slotOf_eq stored)
  records := by
    simp only [recordOf_insert]
    exact consistent.records.give (recordOf_eq stored)
  lru := consistent.lru.congr (by grind [resident_insert])
  diskLru := (consistent.diskLru.pushBack (by simp [onDisk_iff stored])).congr
    (by grind [onDisk_insert, onDisk_iff stored, consistent.diskHeld])
  pinned := by grind [onDisk_insert, consistent.pinned, consistent.lruHeld key rfl]
  lruHeld := nofun
  diskHeld := by grind [onDisk_insert, consistent.diskHeld]

theorem dropCold (consistent : Consistent numSlots { lruKey, diskKey := hidden } pages)
    (stored : pages.map.lookup key = some (.onDisk diskSlot)) (front : pages.diskLru = key :: keys) :
    Consistent numSlots { lruKey, diskKey := hidden }
      { pages with
        map := pages.map.erase key, diskLru := keys, freeDisk := diskSlot :: pages.freeDisk } := by
  have listing := consistent.diskLru
  rw [front] at listing
  obtain ⟨⟨onDisk, seen⟩, rest⟩ := listing.pop
  constructor
  case slots =>
    simp only [slotOf_erase]
    exact consistent.slots.keep (slotOf_eq stored :)
  case records =>
    simp only [recordOf_erase]
    exact consistent.records.release (recordOf_eq stored)
  case lru => exact consistent.lru.congr (by grind [resident_erase, resident_iff stored])
  case diskLru => exact rest.congr (by grind [onDisk_erase])
  case pinned => grind [onDisk_erase, consistent.pinned]
  case lruHeld => grind [resident_erase, resident_iff stored, consistent.lruHeld]
  case diskHeld => grind [onDisk_erase, consistent.diskHeld]

theorem leaveDisk (consistent : Consistent numSlots { diskKey := some key, slot := some slot } pages)
    (stored : pages.map.lookup key = some (.onDisk diskSlot)) (holds : loc.slot = some slot)
    (listing : Listing keys fun other =>
      Resident (pages.map.insert key loc) other ∧ other ∉ pages.readPins ∧ (none : Option Key) ≠ some other) :
    Consistent numSlots {}
      { pages with
        map := pages.map.insert key loc, lru := keys, freeDisk := diskSlot :: pages.freeDisk } where
  slots := by
    simp only [slotOf_insert, holds]
    exact consistent.slots.give (slotOf_eq stored)
  records := by
    simp only [recordOf_insert, Loc.record_of_slot holds]
    exact consistent.records.release (recordOf_eq stored)
  lru := listing
  diskLru := consistent.diskLru.congr (by grind [onDisk_insert, Loc.slot])
  pinned := by grind [onDisk_insert, consistent.pinned, Loc.slot]
  lruHeld := nofun
  diskHeld := nofun

theorem faultIn (consistent : Consistent numSlots { diskKey := some key, slot := some slot } pages)
    (stored : pages.map.lookup key = some (.onDisk diskSlot)) :
    Consistent numSlots {}
      { pages with
        map := pages.map.insert key (.resident slot), lru := pages.lru ++ [key]
        freeDisk := diskSlot :: pages.freeDisk } := by
  refine consistent.leaveDisk stored rfl ((consistent.lru.pushBack (by simp [resident_iff stored])).congr ?_)
  grind [resident_insert, onDisk_iff stored, consistent.pinned key]

/-! ## Reserving and committing -/

theorem reserveOnDisk (consistent : Consistent numSlots { diskKey := some key, slot := some slot } pages)
    (stored : pages.map.lookup key = some (.onDisk diskSlot)) :
    Consistent numSlots {}
      { pages with
        map := pages.map.insert key (.reserved slot), freeDisk := diskSlot :: pages.freeDisk } := by
  refine consistent.leaveDisk stored rfl (consistent.lru.congr ?_)
  grind [resident_insert, resident_iff stored]

theorem reserveNew (consistent : Consistent numSlots { slot := some slot } pages)
    (absent : pages.map.lookup key = none) :
    Consistent numSlots {} { pages with map := pages.map.insert key (.reserved slot) } where
  slots := by
    simp only [slotOf_insert]
    exact consistent.slots.give (by rw [slotOf, absent]; rfl)
  records := by
    simp only [recordOf_insert]
    exact consistent.records.keep (by rw [recordOf, absent]; rfl)
  lru := consistent.lru.congr (by grind [resident_insert, Resident])
  diskLru := consistent.diskLru.congr (by grind [onDisk_insert, OnDisk])
  pinned := by grind [onDisk_insert, consistent.pinned]
  lruHeld := nofun
  diskHeld := nofun

theorem relabel {was : Loc} (consistent : Consistent numSlots {} pages)
    (stored : pages.map.lookup key = some was) (held : was.slot = some slot) (holds : loc.slot = some slot)
    (listing : Listing keys fun other =>
      Resident (pages.map.insert key loc) other ∧ other ∉ pages.readPins ∧ (none : Option Key) ≠ some other) :
    Consistent numSlots {} { pages with map := pages.map.insert key loc, lru := keys } where
  slots := by
    simp only [slotOf_insert, holds]
    exact consistent.slots.keep ((slotOf_eq stored).trans held)
  records := by
    simp only [recordOf_insert, Loc.record_of_slot holds]
    exact consistent.records.keep ((recordOf_eq stored).trans (Loc.record_of_slot held))
  lru := listing
  diskLru := consistent.diskLru.congr (by grind [onDisk_insert, onDisk_iff stored, Loc.slot])
  pinned := by grind [onDisk_insert, consistent.pinned, Loc.slot]
  lruHeld := nofun
  diskHeld := nofun

theorem reserveResident (consistent : Consistent numSlots {} pages)
    (stored : pages.map.lookup key = some (.resident slot)) :
    Consistent numSlots {}
      { pages with map := pages.map.insert key (.reserved slot), lru := pages.lru.erase key } := by
  refine consistent.relabel stored rfl rfl ((consistent.lru.erase key).congr ?_)
  grind [resident_insert]

theorem commitPinned (consistent : Consistent numSlots {} pages)
    (stored : pages.map.lookup key = some (.reserved slot)) (pinned : key ∈ pages.readPins) :
    Consistent numSlots {} { pages with map := pages.map.insert key (.resident slot) } := by
  refine consistent.relabel stored rfl rfl (consistent.lru.congr ?_)
  grind [resident_insert]

theorem commitUnpinned (consistent : Consistent numSlots {} pages)
    (stored : pages.map.lookup key = some (.reserved slot)) (unpinned : key ∉ pages.readPins) :
    Consistent numSlots {}
      { pages with map := pages.map.insert key (.resident slot), lru := pages.lru ++ [key] } := by
  refine consistent.relabel stored rfl rfl
    ((consistent.lru.pushBack (by simp [resident_iff stored])).congr ?_)
  grind [resident_insert]

/-! ## Touching, removing and pinning -/

theorem touch (consistent : Consistent numSlots {} pages) (resident : Resident pages.map key)
    (unpinned : key ∉ pages.readPins) :
    Consistent numSlots {} { pages with lru := pages.lru.erase key ++ [key] } where
  __ := consistent
  lru := ((consistent.lru.erase key).pushBack (by simp)).congr (by grind)

theorem removeSlot (consistent : Consistent numSlots {} pages)
    (stored : pages.map.lookup key = some loc) (held : loc.slot = some slot) :
    Consistent numSlots {}
      { pages with
        map := pages.map.erase key, lru := pages.lru.erase key, freeSlots := slot :: pages.freeSlots } where
  slots := by
    simp only [slotOf_erase]
    exact consistent.slots.release ((slotOf_eq stored).trans held)
  records := by
    simp only [recordOf_erase]
    exact consistent.records.keep ((recordOf_eq stored).trans (Loc.record_of_slot held))
  lru := (consistent.lru.erase key).congr (by grind [resident_erase])
  diskLru := consistent.diskLru.congr (by grind [onDisk_erase, onDisk_iff stored, Loc.slot])
  pinned := by grind [onDisk_erase, consistent.pinned]
  lruHeld := nofun
  diskHeld := nofun

theorem removeRecord (consistent : Consistent numSlots {} pages)
    (stored : pages.map.lookup key = some (.onDisk diskSlot)) :
    Consistent numSlots {}
      { pages with
        map := pages.map.erase key, diskLru := pages.diskLru.erase key
        freeDisk := diskSlot :: pages.freeDisk } where
  slots := by
    simp only [slotOf_erase]
    exact consistent.slots.keep (slotOf_eq stored :)
  records := by
    simp only [recordOf_erase]
    exact consistent.records.release (recordOf_eq stored)
  lru := consistent.lru.congr (by grind [resident_erase, resident_iff stored])
  diskLru := (consistent.diskLru.erase key).congr (by grind [onDisk_erase])
  pinned := by grind [onDisk_erase, consistent.pinned]
  lruHeld := nofun
  diskHeld := nofun

theorem removeAbsent (consistent : Consistent numSlots {} pages) (absent : pages.map.lookup key = none) :
    Consistent numSlots {} { pages with map := pages.map.erase key } where
  slots := by
    simp only [slotOf_erase]
    exact consistent.slots.keep (by rw [slotOf, absent]; rfl)
  records := by
    simp only [recordOf_erase]
    exact consistent.records.keep (by rw [recordOf, absent]; rfl)
  lru := consistent.lru.congr (by grind [resident_erase, Resident])
  diskLru := consistent.diskLru.congr (by grind [onDisk_erase, OnDisk])
  pinned := by grind [onDisk_erase, consistent.pinned]
  lruHeld := nofun
  diskHeld := nofun

theorem pin {count : UInt32} (consistent : Consistent numSlots {} pages)
    (resident : Resident pages.map key) :
    Consistent numSlots {}
      { pages with lru := pages.lru.erase key, readPins := pages.readPins.insert key count } where
  __ := consistent
  lru := (consistent.lru.erase key).congr (by grind [AList.mem_insert])
  pinned := by
    grind [AList.mem_insert, consistent.pinned, Resident, OnDisk]
  lruHeld := nofun

theorem repin {count : UInt32} (consistent : Consistent numSlots {} pages) (pinned : key ∈ pages.readPins) :
    Consistent numSlots {} { pages with readPins := pages.readPins.insert key count } where
  __ := consistent
  lru := consistent.lru.congr (by grind [AList.mem_insert])
  pinned := by grind [AList.mem_insert, consistent.pinned]
  lruHeld := nofun

theorem unpinResident (consistent : Consistent numSlots {} pages) (resident : Resident pages.map key)
    (pinned : key ∈ pages.readPins) :
    Consistent numSlots {}
      { pages with lru := pages.lru ++ [key], readPins := pages.readPins.erase key } where
  __ := consistent
  lru := (consistent.lru.pushBack (by simp [pinned])).congr (by grind [AList.mem_erase])
  pinned := by grind [AList.mem_erase, consistent.pinned]
  lruHeld := nofun

theorem unpinOther (consistent : Consistent numSlots {} pages) (other : ¬ Resident pages.map key) :
    Consistent numSlots {} { pages with readPins := pages.readPins.erase key } where
  __ := consistent
  lru := consistent.lru.congr (by grind [AList.mem_erase])
  pinned := by grind [AList.mem_erase, consistent.pinned]
  lruHeld := nofun

end Consistent

end PageTable

end Metrale.Storage
