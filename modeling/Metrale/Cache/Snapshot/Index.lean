import Metrale.Cache.RadixTree.Inner
import Metrale.Foundation.VecOps

/-! # The snapshot index (`snapshot.rs`, `snapshot_insert.rs`, `snapshot_tier.rs`, `snapshot_session.rs`)

Which snapshot slot, or spilled tier key, holds the state for a token prefix, and which entry to
evict.  `u64` and `usize` values that are compared, hashed or counted are `UInt64`; a slot is only
handed around.  What the process reads once from its environment is a parameter.  The counters of
`SnapshotStats`, which only the log reads, are left out. -/

namespace Metrale.Cache

open Metrale.Foundation

abbrev Slot := Nat
abbrev SessionHash := UInt64
abbrev PrefixHash := UInt64

structure SnapshotEntry where
  snapshotId : Slot
  sessionHash : SessionHash
  tokenCount : UInt64
  prefixHash : PrefixHash
  lastAccess : UInt64
  tiered : Bool
  isTail : Bool
  isTailSibling : Bool

/-- Where a matched snapshot's state is. -/
inductive SnapLoc where
  | hbm (slot : Slot)
  | tier (key : PrefixHash)

structure SnapMatch where
  tokenCount : UInt64
  loc : SnapLoc
  isTail : Bool

inductive TierEvict where
  | spill (slot : Slot) (key : PrefixHash) (depth : UInt64)
  | drop (slot : Slot) (depth : UInt64)

def TierEvict.slot : TierEvict → Slot
  | .spill slot _ _ => slot
  | .drop slot _ => slot

structure SsmSnapshotIndex where
  entries : List SnapshotEntry
  accessCounter : UInt64
  lastLookupSession : SessionHash
  evictionsSinceLookup : UInt32

/-- What the process reads once: `tail_lease_enabled`, `tail_lease_ttl`, `snap_evict_alpha`, whether
`METRALE_SNAP_EVICT_LEGACY` is set, and `hermetic_enabled`. -/
structure SnapshotEnv where
  tailLeaseEnabled : Bool
  tailLeaseTtl : UInt32
  snapEvictAlpha : Float
  snapEvictLegacy : Bool
  hermetic : Bool

/-- The values with none of the variables set. -/
def SnapshotEnv.unset : SnapshotEnv where
  tailLeaseEnabled := true
  tailLeaseTtl := 64
  snapEvictAlpha := 0.0
  snapEvictLegacy := false
  hermetic := false

def u64Max : UInt64 := 0xFFFFFFFFFFFFFFFF

def hashTokenPrefix (tokens : List Token) (count : UInt64) (adapterId : AdapterId) : UInt64 :=
  let mix := fun (hash word : UInt64) => (hash ^^^ word) * 0x100000001b3
  let start := if adapterId ≠ 0 then mix 0xcbf29ce484222325 adapterId else 0xcbf29ce484222325
  (tokens.take count.toNat).foldl (fun hash token => mix hash token.toUInt64) start

def sessionGateBlocks (entry : SnapshotEntry) (sessionHash : SessionHash) (hermetic : Bool) : Bool :=
  if !entry.isTail && !hermetic then false
  else sessionHash == 0 || entry.sessionHash != sessionHash

/-- The slot a displaced entry hands back: a tiered entry's was returned when it was spilled. -/
def freeableSlot (entry : SnapshotEntry) : Option Slot :=
  if entry.tiered then none else some entry.snapshotId

/-- `f64::total_cmp(..).is_lt()`: the order of the bits as sign and magnitude. -/
def totalLess (left right : Float) : Bool :=
  decide (key left < key right)
where
  key (number : Float) : Int64 :=
    let bits := number.toBits.toInt64
    bits ^^^ ((bits >>> 63).toUInt64 >>> 1).toInt64

namespace SsmSnapshotIndex

def new : SsmSnapshotIndex where
  entries := []
  accessCounter := 0
  lastLookupSession := 0
  evictionsSinceLookup := 0

/-! ## Choosing a victim -/

def tailLeaseActive (env : SnapshotEnv) (index : SsmSnapshotIndex) : Bool :=
  index.lastLookupSession != 0 && env.tailLeaseEnabled &&
    decide (index.evictionsSinceLookup < env.tailLeaseTtl)

/-- Min-max normalisation, where an empty range normalises to 0. -/
def norm (value low high : UInt64) : Float :=
  if high > low then (value - low).toFloat / (high - low).toFloat else 0.0

/-- The entry to evict: the stalest session first, then the lowest score within it. -/
def sessionAwareVictimWithAlpha (index : SsmSnapshotIndex) (tailProtect skipTiered : Bool)
    (alpha : Float) : Option Nat :=
  let eligible := fun entry : SnapshotEntry => !(skipTiered && entry.tiered)
  let pool := index.entries.filter eligible
  let sessionFresh : HashMap SessionHash UInt64 := pool.foldl (fun fresh entry =>
    fresh.insert entry.sessionHash (max ((fresh.lookup entry.sessionHash).getD 0) entry.lastAccess)) ∅
  let leased := fun entry : SnapshotEntry => tailProtect && (entry.isTail || entry.isTailSibling) &&
    entry.sessionHash != 0 && entry.sessionHash == index.lastLookupSession
  let unleased := (pool.filter fun entry => !leased entry).length
  let minAccess := pool.foldl (fun low entry => min low entry.lastAccess) u64Max
  let maxAccess := pool.foldl (fun high entry => max high entry.lastAccess) 0
  let minTokens := pool.foldl (fun low entry => min low entry.tokenCount) u64Max
  let maxTokens := pool.foldl (fun high entry => max high entry.tokenCount) 0
  let score := fun entry : SnapshotEntry => norm entry.lastAccess minAccess maxAccess +
    alpha * norm entry.tokenCount minTokens maxTokens
  let consider := fun (victim : Option (Nat × UInt64 × Float)) (candidate : SnapshotEntry × Nat) =>
    let (entry, position) := candidate
    if !eligible entry then victim
    -- A leased entry is passed over only while some unleased entry can go instead.
    else if leased entry && decide (1 ≤ unleased) then victim
    else
      let fresh := (sessionFresh.lookup entry.sessionHash).getD 0
      match victim with
      | none => some (position, fresh, score entry)
      | some (_, victimFresh, victimScore) =>
        if fresh < victimFresh || (fresh == victimFresh && totalLess (score entry) victimScore) then
          some (position, fresh, score entry)
        else victim
  (index.entries.zipIdx.foldl consider none).map Prod.fst

def sessionAwareVictim (env : SnapshotEnv) (index : SsmSnapshotIndex) (tailProtect skipTiered : Bool) :
    Option Nat :=
  index.sessionAwareVictimWithAlpha tailProtect skipTiered env.snapEvictAlpha

/-- The per-entry least recently used entry, for `METRALE_SNAP_EVICT_LEGACY`. -/
def legacyVictim (index : SsmSnapshotIndex) : Option Nat :=
  let consider := fun (victim : Option Nat × UInt64) (candidate : SnapshotEntry × Nat) =>
    let (entry, position) := candidate
    if entry.tiered then victim
    else if entry.lastAccess < victim.2 then (some position, entry.lastAccess)
    else victim
  (index.entries.zipIdx.foldl consider (none, u64Max)).1

/-! ## The calls -/

/-- The overwrite-or-push that every insert path ends in: an entry of this prefix hash takes the new
values and is resident again, and what it held is answered; without one, an entry is pushed. -/
def store (prefixHash : PrefixHash) (snapshotId : Slot) (sessionHash : SessionHash)
    (tokenCount : UInt64) (isTail isTailSibling : Bool) (index : SsmSnapshotIndex) :
    Option Slot × SsmSnapshotIndex :=
  let accessCounter := index.accessCounter + 1
  let saved : SnapshotEntry :=
    { snapshotId, sessionHash, tokenCount, prefixHash, lastAccess := accessCounter, tiered := false,
      isTail, isTailSibling }
  match modifyFirst (·.prefixHash == prefixHash) (fun _ => saved) index.entries with
  | some (old, entries) => (freeableSlot old, { index with entries, accessCounter })
  | none => (none, { index with entries := index.entries ++ [saved], accessCounter })

def insert (prefixHash : PrefixHash) (snapshotId : Slot) (sessionHash : SessionHash)
    (tokenCount : UInt64) (index : SsmSnapshotIndex) : Option Slot × SsmSnapshotIndex :=
  index.store prefixHash snapshotId sessionHash tokenCount false false

def ofSessionTail (sessionHash : SessionHash) (entry : SnapshotEntry) : Bool :=
  (entry.isTail || entry.isTailSibling) && entry.sessionHash == sessionHash

def insertTail (prefixHash : PrefixHash) (snapshotId : Slot) (sessionHash : SessionHash)
    (tokenCount : UInt64) (index : SsmSnapshotIndex) : List Slot × SsmSnapshotIndex :=
  let (removed, entries) :=
    -- Session 0 is no session, and its tails replace none.
    if sessionHash ≠ 0 then sweep (ofSessionTail sessionHash) index.entries.length index.entries 0
    else ([], index.entries)
  let (old, stored) :=
    { index with entries }.store prefixHash snapshotId sessionHash tokenCount true false
  (removed.filterMap freeableSlot ++ old.toList, stored)

def insertTailSibling (prefixHash : PrefixHash) (snapshotId : Slot) (sessionHash : SessionHash)
    (tokenCount : UInt64) (index : SsmSnapshotIndex) : Option Slot × SsmSnapshotIndex :=
  index.store prefixHash snapshotId sessionHash tokenCount false true

/-- `u32::saturating_add(1)`. -/
def saturatingSucc (count : UInt32) : UInt32 := if count = u32Max then count else count + 1

def evictLru (env : SnapshotEnv) (index : SsmSnapshotIndex) : Option Slot × SsmSnapshotIndex :=
  let chosen :=
    if !env.snapEvictLegacy then index.sessionAwareVictim env (index.tailLeaseActive env) true
    else index.legacyVictim
  -- Only the session-aware path counts against the lease.
  let evictionsSinceLookup :=
    if !env.snapEvictLegacy then saturatingSucc index.evictionsSinceLookup
    else index.evictionsSinceLookup
  match chosen with
  | none => (none, index)
  | some victim =>
    (index.entries[victim]?.map (·.snapshotId),
      { index with entries := swapRemove index.entries victim, evictionsSinceLookup })

/-- A resident victim of at least `minTokens` tokens is marked spilled; a shallower one is removed. -/
def evictToTier (env : SnapshotEnv) (minTokens : UInt64) (index : SsmSnapshotIndex) :
    Option TierEvict × SsmSnapshotIndex :=
  match (index.sessionAwareVictim env (index.tailLeaseActive env) true).bind fun victim =>
      index.entries[victim]?.map fun entry => (victim, entry) with
  | none => (none, index)
  | some (victim, entry) =>
    let index := { index with evictionsSinceLookup := saturatingSucc index.evictionsSinceLookup }
    -- A `min_tokens` of 0 spills every victim.
    if minTokens > 0 && entry.tokenCount < minTokens then
      (some (.drop entry.snapshotId entry.tokenCount),
        { index with entries := swapRemove index.entries victim })
    else
      (some (.spill entry.snapshotId entry.prefixHash entry.tokenCount),
        { index with entries := index.entries.set victim { entry with tiered := true } })

/-- Makes the entry for `prefixHash` resident at `newSlot`. -/
def promote (prefixHash : PrefixHash) (newSlot : Slot) (index : SsmSnapshotIndex) :
    Bool × SsmSnapshotIndex :=
  -- The entry may have become resident meanwhile; it is given the new slot all the same.
  match modifyFirst (·.prefixHash == prefixHash)
      (fun entry => { entry with tiered := false, snapshotId := newSlot }) index.entries with
  | some (_, entries) => (true, { index with entries })
  | none => (false, index)

/-- Removes the spilled entry for `prefixHash`. -/
def forgetTiered (prefixHash : PrefixHash) (index : SsmSnapshotIndex) : Bool × SsmSnapshotIndex :=
  match index.entries.findIdx? fun entry => entry.prefixHash == prefixHash && entry.tiered with
  | none => (false, index)
  | some position => (true, { index with entries := swapRemove index.entries position })

def lookupTiered (env : SnapshotEnv) (tokens : List Token) (matchedTokens : UInt64)
    (sessionHash : SessionHash) (adapterId : AdapterId) (index : SsmSnapshotIndex) :
    Option SnapMatch × SsmSnapshotIndex :=
  -- A lookup with a session renews that session's lease.
  let index :=
    if sessionHash ≠ 0 then { index with lastLookupSession := sessionHash, evictionsSinceLookup := 0 }
    else index
  let consider := fun (best : Option (Nat × SnapshotEntry)) (candidate : SnapshotEntry × Nat) =>
    let (entry, position) := candidate
    if entry.tokenCount > matchedTokens then best
    else if sessionGateBlocks entry sessionHash env.hermetic then best
    else if hashTokenPrefix tokens entry.tokenCount adapterId ≠ entry.prefixHash then best
    -- Of equally deep anchors the first stays.
    else if best.all (entry.tokenCount > ·.2.tokenCount) then some (position, entry)
    else best
  match index.entries.zipIdx.foldl consider none with
  | none => (none, index)
  | some (position, entry) =>
    let accessCounter := index.accessCounter + 1
    let loc := if entry.tiered then .tier entry.prefixHash else .hbm entry.snapshotId
    (some ⟨entry.tokenCount, loc, entry.isTail⟩,
      { index with
        entries := index.entries.modify position fun entry => { entry with lastAccess := accessCounter }
        accessCounter })

end SsmSnapshotIndex

end Metrale.Cache
