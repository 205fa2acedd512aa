import Metrale.Cache.Snapshot.Pool

/-! # Slot conservation for the snapshot pool

A slot is free, a resident entry's, or with the caller that is to insert it.  `Trades` is what a call does to
these places together; over the parts of a call it adds up, and a call that neither takes a slot in nor lets
one go conserves them. -/

namespace Metrale.Cache

open Metrale.Foundation
open SnapshotEntry (slotsHeld hashes)

theorem SnapshotEntry.count_slotsHeld (entries : List SnapshotEntry) (slot : Slot) :
    (slotsHeld entries).count slot = entries.countP fun entry => freeableSlot entry = some slot := by
  rw [← coe_filterMap_freeableSlot, Multiset.coe_count, List.count_eq_countP, List.countP_filterMap]
  refine List.countP_congr fun entry _ => ?_
  cases freeableSlot entry <;> simp

namespace SsmSnapshotPool

variable {pool after : SsmSnapshotPool} {snapSlot : Slot} {answers : Answers}

theorem claimFreeSlot_eq_some (claimed : pool.claimFreeSlot = some (snapSlot, after)) :
    pool.freeSlots = snapSlot :: after.freeSlots := by
  simp only [claimFreeSlot] at claimed
  split at claimed
  · cases claimed
  · next head =>
    cases claimed
    exact head

theorem tryPopFreeSlot_eq_some (popped : pool.tryPopFreeSlot = some (snapSlot, after)) :
    pool.freeSlots = snapSlot :: after.freeSlots := by
  simp only [tryPopFreeSlot] at popped
  split at popped
  · cases popped
  · exact claimFreeSlot_eq_some popped

theorem tagSession_freeSlots (pool : SsmSnapshotPool) (snapSlot : Slot) (sessionHash : SessionHash) :
    (pool.tagSession snapSlot sessionHash).freeSlots = pool.freeSlots := by
  simp only [tagSession]
  split <;> rfl

theorem saveHidden_freeSlots (saved : pool.saveHidden snapSlot answers = .ok after) :
    after.freeSlots = pool.freeSlots := by
  simp only [saveHidden] at saved
  split at saved
  · cases saved
    rfl
  · cases copied : answers.copyHidden with
    | error error =>
      rw [copied] at saved
      cases saved
    | ok =>
      rw [copied] at saved
      cases saved
      rfl

theorem save_cases {sessionHash : SessionHash} {hIsF16 : Bool} {hStoredBytes : Nat}
    {answer : Except SnapshotError (Option Slot)}
    (saved : pool.save sessionHash hIsF16 hStoredBytes answers = (answer, after)) :
    (∃ snapSlot, answer = .ok (some snapSlot) ∧ pool.freeSlots = snapSlot :: after.freeSlots) ∨
      ((∀ snapSlot, answer ≠ .ok (some snapSlot)) ∧ after = pool) ∨
      (pool.freeSlots ≠ [] ∧ ¬ (hStoredBytes < pool.hBytes ∧ hIsF16 = false) ∧
        ¬ (hIsF16 = true ∧ pool.hF16ToF32K = 0) ∧ answers.copyLayers pool.numSsmLayers ≠ .ok ()) := by
  simp only [save] at saved
  split at saved
  · cases saved
    exact .inr (.inl ⟨nofun, rfl⟩)
  split at saved
  · cases saved
    exact .inr (.inl ⟨nofun, rfl⟩)
  next wide =>
  split at saved
  · cases saved
    exact .inr (.inl ⟨nofun, rfl⟩)
  next widens =>
  split at saved
  · cases saved
    exact .inr (.inl ⟨nofun, rfl⟩)
  next snapSlot claimed found =>
  have head := claimFreeSlot_eq_some found
  -- The copies run over the layers of the pool as the slot's claim left it.
  have layers : claimed.numSsmLayers = pool.numSsmLayers := by
    simp only [claimFreeSlot] at found
    split at found <;> cases found
    rfl
  split at saved
  · next error failed =>
    refine .inr (.inr ⟨?_, by simpa using wide, by simpa using widens, ?_⟩)
    · rw [head]
      exact List.cons_ne_nil _ _
    · rw [← layers, failed]
      nofun
  · cases saved
    refine .inl ⟨snapSlot, rfl, ?_⟩
    rw [tagSession_freeSlots, head]

theorem reserveTailSlot_cases {sessionHash : SessionHash} {answer : Option Slot}
    (reserved : pool.reserveTailSlot sessionHash = (answer, after)) :
    pool.freeSlots = answer.toList ++ after.freeSlots := by
  simp only [reserveTailSlot] at reserved
  split at reserved
  · cases reserved
    rfl
  split at reserved
  · cases reserved
    rfl
  · next snapSlot claimed found =>
    cases reserved
    rw [tagSession_freeSlots, claimFreeSlot_eq_some found]
    rfl

end SsmSnapshotPool

theorem SsmSnapshotIndex.promote_tiered {index : SsmSnapshotIndex} {prefixHash : PrefixHash} (newSlot : Slot)
    (distinct : (hashes index.entries).Nodup)
    (tiered : ∃ entry ∈ index.entries, entry.prefixHash = prefixHash ∧ entry.tiered = true) :
    Exchanges index.entries {newSlot} 0 (index.promote prefixHash newSlot).2.entries := by
  obtain ⟨entry, member, keyed, spilled⟩ := tiered
  -- No other entry has its prefix hash.
  have only : ∀ other ∈ index.entries, other.prefixHash = prefixHash → other.tiered = true := by
    intro other member' same
    obtain rfl := List.inj_on_of_nodup_map distinct member' member (same.trans keyed.symm)
    exact spilled
  generalize answered : index.promote prefixHash newSlot = outcome
  obtain ⟨promoted, after⟩ := outcome
  have exchange := promote_exchanges only answered
  simp only [promote] at answered
  split at answered
  · cases answered
    exact exchange
  · next absent =>
    exact absurd (beq_iff_eq.mpr keyed) (by rw [modifyFirst_eq_none.mp absent entry member]; nofun)

namespace SsmSnapshots

def slots (snapshots : SsmSnapshots) : Multiset Slot :=
  (snapshots.pool.freeSlots : Multiset Slot) + slotsHeld snapshots.index.entries + snapshots.callers

/-- All the places together gain and lose exactly these slots, and prefix hashes stay distinct. -/
structure Trades (before : SsmSnapshots) (gained lost : Multiset Slot) (after : SsmSnapshots) : Prop where
  balance : after.slots + lost = before.slots + gained
  hashNodup : (hashes before.index.entries).Nodup → (hashes after.index.entries).Nodup

variable {snapshots middle after : SsmSnapshots} {gained lost moreGained moreLost : Multiset Slot} {slot : Slot}
  {pool : SsmSnapshotPool} {index : SsmSnapshotIndex}

namespace Trades

theorem trans (earlier : Trades snapshots gained lost middle) (later : Trades middle moreGained moreLost after) :
    Trades snapshots (gained + moreGained) (lost + moreLost) after where
  balance := balance_trans earlier.balance later.balance
  hashNodup := later.hashNodup ∘ earlier.hashNodup

theorem through {between : Multiset Slot} (earlier : Trades snapshots 0 between middle)
    (later : Trades middle between lost after) : Trades snapshots 0 lost after where
  balance := by
    have both := (earlier.trans later).balance
    rw [zero_add, add_comm between, ← add_assoc] at both
    rw [add_zero]
    exact add_right_cancel both
  hashNodup := later.hashNodup ∘ earlier.hashNodup

theorem nothing (snapshots : SsmSnapshots) : Trades snapshots 0 0 snapshots := ⟨rfl, id⟩

theorem exchange (exchange : Exchanges snapshots.index.entries gained lost index.entries) :
    Trades snapshots gained lost { snapshots with index } where
  balance := by
    simp only [slots]
    calc (snapshots.pool.freeSlots : Multiset Slot) + slotsHeld index.entries + snapshots.callers + lost
        = snapshots.pool.freeSlots + (slotsHeld index.entries + lost) + snapshots.callers := by ac_rfl
      _ = snapshots.pool.freeSlots + slotsHeld snapshots.index.entries + snapshots.callers + gained := by
        rw [exchange.balance]
        ac_rfl
  hashNodup := exchange.hashNodup

theorem claim (claimed : snapshots.pool.freeSlots = slot :: pool.freeSlots) :
    Trades snapshots 0 {slot} { snapshots with pool } where
  balance := by
    simp only [slots]
    rw [claimed, ← Multiset.cons_coe, ← Multiset.singleton_add, add_zero]
    ac_rfl
  hashNodup := id

theorem bookkeep (same : pool.freeSlots = snapshots.pool.freeSlots) : Trades snapshots 0 0 { snapshots with pool } where
  balance := by
    simp only [slots]
    rw [same]
  hashNodup := id

theorem free (snapshots : SsmSnapshots) (slot : Slot) : Trades snapshots {slot} 0 (snapshots.free slot) where
  balance := by
    show ((slot :: snapshots.pool.freeSlots : List Slot) : Multiset Slot) + slotsHeld snapshots.index.entries +
      snapshots.callers + 0 = snapshots.slots + {slot}
    simp only [slots]
    rw [← Multiset.cons_coe, ← Multiset.singleton_add, add_zero]
    ac_rfl
  hashNodup := id

theorem freeAll (snapshots : SsmSnapshots) (displaced : List Slot) :
    Trades snapshots displaced 0 (displaced.foldl SsmSnapshots.free snapshots) := by
  induction displaced generalizing snapshots with
  | nil => exact .nothing snapshots
  | cons slot rest ih =>
    have both := (free snapshots slot).trans (ih (snapshots.free slot))
    rwa [Multiset.singleton_add, Multiset.cons_coe, add_zero] at both

theorem handOut (snapshots : SsmSnapshots) (slot : Option Slot) :
    Trades snapshots slot.toList 0 (snapshots.handOut slot) where
  balance := by
    show (snapshots.pool.freeSlots : Multiset Slot) + slotsHeld snapshots.index.entries +
      (slot.toList + snapshots.callers) + 0 = snapshots.slots + slot.toList
    simp only [slots]
    rw [add_zero]
    ac_rfl
  hashNodup := id

theorem abandon (held : slot ∈ snapshots.callers) : Trades snapshots 0 {slot} (snapshots.abandon slot) where
  balance := by
    show (snapshots.pool.freeSlots : Multiset Slot) + slotsHeld snapshots.index.entries +
      snapshots.callers.erase slot + {slot} = snapshots.slots + 0
    simp only [slots]
    rw [add_zero, add_assoc _ (snapshots.callers.erase slot), add_comm (snapshots.callers.erase slot),
      Multiset.singleton_add, Multiset.cons_erase held]
  hashNodup := id

end Trades

/-! ## What each call trades -/

variable {env : SnapshotEnv} {spillMinTokens : UInt64} {answers : Answers} {evict : TierEvict} {snapId : Slot}
  {prefixHash : PrefixHash} {sessionHash : SessionHash} {tokenCount : UInt64}

theorem forgetSnapshotTierKey_trades (snapshots : SsmSnapshots) (key : PrefixHash) :
    Trades snapshots 0 0 (snapshots.forgetSnapshotTierKey key) :=
  .exchange (SsmSnapshotIndex.forgetTiered_exchanges rfl)

theorem releaseVictim_trades (snapshots : SsmSnapshots) (evict : TierEvict) (answers : Answers) :
    Trades snapshots {evict.slot} 0 (snapshots.releaseVictim evict answers) := by
  simp only [releaseVictim]
  cases evict with
  | spill slot key depth =>
    dsimp only [TierEvict.slot]
    split
    · have both := (forgetSnapshotTierKey_trades snapshots key).trans
        (.free (snapshots.forgetSnapshotTierKey key) slot)
      rwa [zero_add, add_zero] at both
    · exact .free snapshots slot
  | drop slot depth => exact .free snapshots slot

theorem evicted_trades (evicted : snapshots.index.evictToTier env spillMinTokens = (some evict, index))
    (answers : Answers) : Trades snapshots 0 0 ({ snapshots with index }.releaseVictim evict answers) :=
  (Trades.exchange (SsmSnapshotIndex.evictToTier_exchanges evicted)).through
    (releaseVictim_trades { snapshots with index } evict answers)

theorem acquireOrSpillSlot_trades {acquired : Option Slot}
    (answered : snapshots.acquireOrSpillSlot env spillMinTokens answers = (acquired, after)) :
    Trades snapshots 0 acquired.toList after := by
  unfold acquireOrSpillSlot at answered
  split at answered
  · next slot pool popped =>
    cases answered
    exact .claim (SsmSnapshotPool.tryPopFreeSlot_eq_some popped)
  split at answered
  · next evicted =>
    cases answered
    exact .exchange (SsmSnapshotIndex.evictToTier_exchanges evicted)
  next evict index evicted =>
  have released := evicted_trades evicted answers
  dsimp only at answered
  split at answered
  · next slot pool popped =>
    cases answered
    have both := released.trans (.claim (SsmSnapshotPool.tryPopFreeSlot_eq_some popped))
    rwa [zero_add, zero_add] at both
  · cases answered
    exact released

theorem faultInForKey_trades {key : PrefixHash} {spilling faulting : Answers} {answer : Option Slot}
    (distinct : (hashes snapshots.index.entries).Nodup)
    (tiered : ∀ slot acquired, snapshots.acquireOrSpillSlot env spillMinTokens spilling = (some slot, acquired) →
      acquired.pool.faultInSlot faulting = .ok true →
        ∃ entry ∈ acquired.index.entries, entry.prefixHash = key ∧ entry.tiered = true)
    (faulted : snapshots.faultInForKey env spillMinTokens key sessionHash spilling faulting = (answer, after)) :
    Trades snapshots 0 0 after := by
  simp only [faultInForKey] at faulted
  split at faulted
  · next acquired answered =>
    cases faulted
    exact acquireOrSpillSlot_trades answered
  next slot acquired answered =>
  have lent : Trades snapshots 0 {slot} acquired := acquireOrSpillSlot_trades answered
  split at faulted
  · next restored =>
    cases faulted
    have promoted := SsmSnapshotIndex.promote_tiered slot (lent.hashNodup distinct) (tiered slot acquired answered restored)
    -- The blob is in the slot, and its entry is still there to take it.
    have tagged : Trades acquired 0 0 { acquired with pool := acquired.pool.tagSession slot sessionHash } :=
      .bookkeep (SsmSnapshotPool.tagSession_freeSlots _ _ _)
    have both := tagged.trans (@Trades.exchange { acquired with pool := acquired.pool.tagSession slot sessionHash }
      _ _ _ promoted)
    rw [zero_add, add_zero] at both
    exact lent.through both
  · cases faulted
    have both := (Trades.free acquired slot).trans (forgetSnapshotTierKey_trades (acquired.free slot) key)
    rw [add_zero, add_zero] at both
    exact lent.through both
  · cases faulted
    exact lent.through (.free acquired slot)

theorem reclaimFromCache_trades {tier answer : Bool}
    (reclaimed : snapshots.reclaimFromCache env spillMinTokens tier answers = (answer, after)) :
    Trades snapshots 0 0 after := by
  simp only [reclaimFromCache] at reclaimed
  split at reclaimed
  · split at reclaimed
    · next evicted =>
      cases reclaimed
      exact .exchange (SsmSnapshotIndex.evictToTier_exchanges evicted)
    · next evicted =>
      cases reclaimed
      exact evicted_trades evicted answers
  · split at reclaimed
    · next snap index evicted =>
      cases reclaimed
      exact (Trades.exchange (SsmSnapshotIndex.evictLru_exchanges evicted)).through (.free { snapshots with index } snap)
    · next evicted =>
      cases reclaimed
      exact .exchange (SsmSnapshotIndex.evictLru_exchanges evicted)

theorem insertSnapshot_trades (insertion : Insertion) (held : snapId ∈ snapshots.callers) (prefixHash : PrefixHash)
    (sessionHash : SessionHash) (tokenCount : UInt64) :
    Trades snapshots 0 0 (snapshots.insertSnapshot insertion snapId prefixHash sessionHash tokenCount) := by
  -- Whatever the insertion displaces, the slots go through the same two hands.
  have handedIn : ∀ (displaced : List Slot) (index : SsmSnapshotIndex),
      Exchanges snapshots.index.entries {snapId} displaced index.entries →
        Trades snapshots 0 0
          (displaced.foldl SsmSnapshots.free { snapshots with index, callers := snapshots.callers.erase snapId }) := by
    intro displaced index exchange
    have inserted := (Trades.abandon held).through (@Trades.exchange (snapshots.abandon snapId) _ _ _ exchange)
    exact inserted.through (.freeAll _ displaced)
  simp only [insertSnapshot]
  cases insertion with
  | insert => exact handedIn _ _ (SsmSnapshotIndex.store_exchanges _ _ _ _ _ _ _)
  | tail => exact handedIn _ _ (SsmSnapshotIndex.insertTail_exchanges _ _ _ _ _)
  | tailSibling => exact handedIn _ _ (SsmSnapshotIndex.store_exchanges _ _ _ _ _ _ _)

theorem freeSnapshot_trades (held : snapId ∈ snapshots.callers) : Trades snapshots 0 0 (snapshots.freeSnapshot snapId) :=
  (Trades.abandon held).through (.free (snapshots.abandon snapId) snapId)

theorem attachAux_trades (snapshots : SsmSnapshots) (snapId : Slot) (aux : AuxState) :
    Trades snapshots 0 0 (snapshots.attachAux snapId aux) ∧ (snapshots.attachAux snapId aux).callers = snapshots.callers := by
  simp only [attachAux]
  split
  · exact ⟨.nothing snapshots, rfl⟩
  · exact ⟨.bookkeep rfl, rfl⟩

theorem keepSnapshot_trades (insertion : Insertion) (aux : Except SnapshotError AuxState)
    (held : snapId ∈ snapshots.callers) (prefixHash : PrefixHash) (sessionHash : SessionHash) (tokenCount : UInt64) :
    Trades snapshots 0 0 (snapshots.keepSnapshot insertion aux snapId prefixHash sessionHash tokenCount) := by
  simp only [keepSnapshot]
  cases aux with
  | error => exact insertSnapshot_trades insertion held prefixHash sessionHash tokenCount
  | ok aux =>
    obtain ⟨attached, callers⟩ := attachAux_trades snapshots snapId aux
    exact attached.through (insertSnapshot_trades insertion (callers ▸ held) prefixHash sessionHash tokenCount)

variable {skip : Bool} {aux : Except SnapshotError AuxState} {answer : Except SnapshotError Unit}

theorem prefillBRegisterCheckpoint_trades (held : snapId ∈ snapshots.callers) (collected : ∃ blobs, aux = .ok blobs)
    (registered : snapshots.prefillBRegisterCheckpoint skip aux snapId prefixHash sessionHash tokenCount =
      (answer, after)) : Trades snapshots 0 0 after := by
  obtain ⟨blobs, rfl⟩ := collected
  obtain ⟨attached, callers⟩ := attachAux_trades snapshots snapId blobs
  simp only [prefillBRegisterCheckpoint] at registered
  split at registered
  · cases registered
    exact attached.through (freeSnapshot_trades (callers ▸ held))
  · cases registered
    exact attached.through (insertSnapshot_trades .insert (callers ▸ held) prefixHash sessionHash tokenCount)

theorem finalizeLast_trades (held : snapId ∈ snapshots.callers)
    (completes : skip = true ∨
      (∃ blobs, aux = .ok blobs) ∧ (answers.copyHidden = .ok () ∨ snapshots.pool.hiddenSnapshot = 0))
    (finalized : snapshots.finalizeLast skip aux answers snapId prefixHash sessionHash tokenCount = (answer, after)) :
    Trades snapshots 0 0 after := by
  simp only [finalizeLast] at finalized
  split at finalized
  · cases finalized
    exact freeSnapshot_trades held
  next keeps =>
  -- From here on an error returns early with the slot, so there must be none.
  obtain ⟨⟨blobs, rfl⟩, hidden⟩ := completes.resolve_left keeps
  obtain ⟨attached, callers⟩ := attachAux_trades snapshots snapId blobs
  dsimp only at finalized
  split at finalized
  · next failed =>
    -- The hidden row's copy is the only call that can fail here.
    have pointer : (snapshots.attachAux snapId blobs).pool.hiddenSnapshot = snapshots.pool.hiddenSnapshot := by
      simp only [attachAux]
      split <;> rfl
    simp only [SsmSnapshotPool.saveHidden] at failed
    split at failed
    · cases failed
    · next enabled =>
      obtain copied | null := hidden
      · rw [copied] at failed
        cases failed
      · rw [pointer, null] at enabled
        simp at enabled
  · next pool stored =>
    cases finalized
    have marked : Trades (snapshots.attachAux snapId blobs) 0 0 { snapshots.attachAux snapId blobs with pool } :=
      .bookkeep (SsmSnapshotPool.saveHidden_freeSlots stored)
    refine (attached.through marked).through ?_
    exact @insertSnapshot_trades { snapshots.attachAux snapId blobs with pool } _ .insert (callers ▸ held) _ _ _

/-! ## Runs -/

def Event.Keeps (env : SnapshotEnv) (spillMinTokens : UInt64) (snapshots : SsmSnapshots) : Event → Prop
  | .save _ hIsF16 hStoredBytes answers _ =>
    answers.copyLayers snapshots.pool.numSsmLayers = .ok () ∨ snapshots.pool.freeSlots = [] ∨
      (hStoredBytes < snapshots.pool.hBytes ∧ hIsF16 = false) ∨ (hIsF16 = true ∧ snapshots.pool.hF16ToF32K = 0)
  | .faultInForKey key _ spilling faulting _ => ∀ slot acquired,
      snapshots.acquireOrSpillSlot env spillMinTokens spilling = (some slot, acquired) →
        acquired.pool.faultInSlot faulting = .ok true →
          ∃ entry ∈ acquired.index.entries, entry.prefixHash = key ∧ entry.tiered = true
  | .registerCheckpoint _ aux _ _ _ _ _ => ∃ blobs, aux = .ok blobs
  | .finalizeLast skip aux answers _ _ _ _ _ => skip = true ∨
      (∃ blobs, aux = .ok blobs) ∧ (answers.copyHidden = .ok () ∨ snapshots.pool.hiddenSnapshot = 0)
  | .passFails _ => False
  | _ => True

theorem Step.trades {event : Event} (distinct : (hashes snapshots.index.entries).Nodup)
    (keeps : event.Keeps env spillMinTokens snapshots) (step : Step env spillMinTokens snapshots event after) :
    Trades snapshots 0 0 after := by
  cases step with
  | @save sessionHash hIsF16 hStoredBytes answers answer pool saved =>
    obtain ⟨slot, rfl, claimed⟩ | ⟨unsaved, rfl⟩ | ⟨free, wide, widens, failed⟩ := SsmSnapshotPool.save_cases saved
    · exact (Trades.claim claimed).through (.handOut { snapshots with pool } (some slot))
    -- An answer without a slot claimed none.
    · have unclaimed : savedSlot answer = none := by
        cases answer with
        | error => rfl
        | ok slot => cases slot with
          | none => rfl
          | some slot => exact absurd rfl (unsaved slot)
      rw [unclaimed]
      exact .handOut snapshots none
    · obtain copied | empty | narrow | unresolved := keeps
      · exact absurd copied failed
      · exact absurd empty free
      · exact absurd narrow wide
      · exact absurd unresolved widens
  | @reserveTailSlot sessionHash answer pool reserved =>
    have slots := SsmSnapshotPool.reserveTailSlot_cases reserved
    cases answer with
    | none => exact (Trades.bookkeep slots.symm).through (.handOut { snapshots with pool } none)
    | some slot => exact (Trades.claim slots).through (.handOut { snapshots with pool } (some slot))
  | reclaimFromCache reclaimed => exact reclaimFromCache_trades reclaimed
  | faultInForKey faulted => exact faultInForKey_trades distinct keeps faulted
  | lookupTiered answered => exact .exchange (SsmSnapshotIndex.lookupTiered_exchanges answered)
  | registerCheckpoint held registered => exact prefillBRegisterCheckpoint_trades held keeps registered
  | finalizeLast held finalized => exact finalizeLast_trades held keeps finalized
  | keepSnapshot held => exact keepSnapshot_trades _ _ held _ _ _
  | freeSnapshot held => exact freeSnapshot_trades held
  | passFails => exact keeps.elim

variable {numSlots hBytes numSsmLayers : Nat} {hiddenSnapshot hF16ToF32K : UInt64} {events : List Event}

theorem run_trades (run : Run (Guarded (Event.Keeps env spillMinTokens) (Step env spillMinTokens))
      (new (.new numSlots hBytes numSsmLayers hiddenSnapshot hF16ToF32K)) events snapshots) :
    snapshots.slots =
      Multiset.range (SsmSnapshotPool.new numSlots hBytes numSsmLayers hiddenSnapshot hF16ToF32K).numSlots ∧
      (hashes snapshots.index.entries).Nodup := by
  induction run with
  -- All slots start on the free list.
  | start =>
    refine ⟨?_, List.nodup_nil⟩
    show (List.range _ : Multiset Slot) + 0 + 0 = Multiset.range _
    rw [add_zero, add_zero]
    rfl
  | extend _ taken ih =>
    obtain ⟨slots, distinct⟩ := ih
    have trades := taken.2.trades distinct taken.1
    have balance := trades.balance
    rw [add_zero, add_zero] at balance
    exact ⟨balance.trans slots, trades.hashNodup distinct⟩

/-- Every slot of the pool is once on the free list, with a resident entry or with a caller. -/
theorem run_conserves_slots (run : Run (Guarded (Event.Keeps env spillMinTokens) (Step env spillMinTokens))
      (new (.new numSlots hBytes numSsmLayers hiddenSnapshot hF16ToF32K)) events snapshots) :
    ∀ slot < (SsmSnapshotPool.new numSlots hBytes numSsmLayers hiddenSnapshot hF16ToF32K).numSlots,
      snapshots.pool.freeSlots.count slot +
        snapshots.index.entries.countP (fun entry => freeableSlot entry = some slot) +
          snapshots.callers.count slot = 1 := by
  intro slot below
  have total := congrArg (Multiset.count slot) (run_trades run).1
  simp only [slots] at total
  rwa [Multiset.count_add, Multiset.count_add, Multiset.coe_count, SnapshotEntry.count_slotsHeld,
    Multiset.count_eq_one_of_mem (Multiset.nodup_range _) (Multiset.mem_range.mpr below)] at total

/-! ## One slot -/

def working : Answers where
  copyH _ := .ok ()
  copyConv _ := .ok ()
  copyHidden := .ok ()
  staging := .ok ()
  synchronize := .ok ()
  synchronizeAfter := .ok ()
  put := .ok true
  get := .ok true

def oneSlot : SsmSnapshots := new (.new 1 4 1 1 1)

/-- A snapshot is saved and inserted, spilled for a reclaim, and faulted in again. -/
theorem run_conserves_faulted : ∃ (snapshots : SsmSnapshots) (events : List Event),
    Run (Guarded (Event.Keeps .unset 0) (Step .unset 0)) oneSlot events snapshots ∧ events.length = 4 ∧
      snapshots.pool.freeSlots.count 0 +
        snapshots.index.entries.countP (fun entry => freeableSlot entry = some 0) + snapshots.callers.count 0 = 1 := by
  have saved : Run (Guarded (Event.Keeps .unset 0) (Step .unset 0)) oneSlot
      [.save 7 false 4 working (.ok (some 0))] _ := .single ⟨.inl rfl, .save rfl⟩
  have kept := @Run.extend _ _ _ _ _ (Event.keepSnapshot .insert (.ok []) 0 5 7 32) _ _ saved
    ⟨trivial, .keepSnapshot (Multiset.mem_singleton.mpr rfl)⟩
  have spilled := @Run.extend _ _ _ _ _ (Event.reclaimFromCache true working true) _ _ kept
    ⟨trivial, .reclaimFromCache rfl⟩
  have faulted := @Run.extend _ _ _ _ _ (Event.faultInForKey 5 7 working working (some 0)) _ _ spilled
    ⟨fun slot acquired answered _ => by
      cases answered
      exact ⟨_, List.mem_singleton.mpr rfl, rfl, rfl⟩, .faultInForKey rfl⟩
  exact ⟨_, _, faulted, rfl, run_conserves_slots faulted 0 Nat.one_pos⟩

/-- The copy of a layer's state fails: the slot is not free, and nobody has it. -/
theorem failed_save_leaks_slot : ∃ (snapshots : SsmSnapshots) (events : List Event),
    Run (Step .unset 0) oneSlot events snapshots ∧
      snapshots.pool.freeSlots.count 0 +
        snapshots.index.entries.countP (fun entry => freeableSlot entry = some 0) + snapshots.callers.count 0 = 0 := by
  have saved : Run (Step .unset 0) oneSlot
      [.save 7 false 4 { working with copyConv := fun _ => .error .call } (.error .call)] _ := .single (.save rfl)
  exact ⟨_, _, saved, rfl⟩

end SsmSnapshots

end Metrale.Cache
