import Metrale.Cache.Snapshot.Index
import Metrale.Foundation.IndexedSums
import Metrale.Foundation.Runs

/-! # Slot conservation for the snapshot index

A slot is handed in by an insert or an accepted `promote`, and handed back as displaced or evicted.
`Exchanges` is what every call has to do with the entries: what their slots gained and lost
balances, and prefix hashes stay distinct.  The one call that does not is `promote` on a resident
entry, which overwrites the slot that the entry holds. -/

namespace Metrale.Cache

open Metrale.Foundation

namespace SnapshotEntry

def ownSlot (entry : SnapshotEntry) : Multiset Slot := ((freeableSlot entry).toList : Multiset Slot)

theorem ownSlot_resident {entry : SnapshotEntry} (resident : entry.tiered = false) :
    entry.ownSlot = {entry.snapshotId} := by
  simp [ownSlot, freeableSlot, resident]

theorem ownSlot_tiered {entry : SnapshotEntry} (spilled : entry.tiered = true) :
    entry.ownSlot = 0 := by
  simp [ownSlot, freeableSlot, spilled]

def slotsHeld (entries : List SnapshotEntry) : Multiset Slot := (entries.map ownSlot).sum

theorem coe_filterMap_freeableSlot (entries : List SnapshotEntry) :
    (entries.filterMap freeableSlot : Multiset Slot) = slotsHeld entries := by
  induction entries with
  | nil => rfl
  | cons entry rest ih =>
    rw [slotsHeld, List.map_cons, List.sum_cons, ← slotsHeld, ← ih, ownSlot,
      List.filterMap_cons]
    cases freeableSlot entry <;> simp

theorem slotsHeld_perm {before after : List SnapshotEntry} (same : before.Perm after) :
    slotsHeld before = slotsHeld after :=
  (same.map ownSlot).sum_eq

theorem slotsHeld_append (front rest : List SnapshotEntry) :
    slotsHeld (front ++ rest) = slotsHeld front + slotsHeld rest := by
  rw [slotsHeld, List.map_append, List.sum_append]
  rfl

theorem slotsHeld_cons (entry : SnapshotEntry) (rest : List SnapshotEntry) :
    slotsHeld (entry :: rest) = entry.ownSlot + slotsHeld rest := by
  rw [slotsHeld, List.map_cons, List.sum_cons]
  rfl

def hashes (entries : List SnapshotEntry) : List PrefixHash := entries.map (·.prefixHash)

end SnapshotEntry

open SnapshotEntry

/-- The entries gain and lose exactly these slots, and their prefix hashes stay distinct. -/
structure Exchanges (before : List SnapshotEntry) (gained lost : Multiset Slot)
    (after : List SnapshotEntry) : Prop where
  balance : slotsHeld after + lost = slotsHeld before + gained
  hashNodup : (hashes before).Nodup → (hashes after).Nodup

namespace Exchanges

variable {entries middle after : List SnapshotEntry} {gained lost moreGained moreLost : Multiset Slot}

theorem nothing (entries : List SnapshotEntry) : Exchanges entries 0 0 entries := ⟨rfl, id⟩

theorem trans (earlier : Exchanges entries gained lost middle)
    (later : Exchanges middle moreGained moreLost after) :
    Exchanges entries (gained + moreGained) (lost + moreLost) after where
  balance := balance_trans earlier.balance later.balance
  hashNodup := later.hashNodup ∘ earlier.hashNodup

theorem removed (out : List SnapshotEntry) (same : (out ++ after).Perm entries) :
    Exchanges entries 0 (slotsHeld out) after where
  balance := by rw [add_zero, ← slotsHeld_perm same, slotsHeld_append, add_comm]
  hashNodup := by
    intro distinct
    have reordered : (hashes (out ++ after)).Nodup := (same.map _).nodup_iff.mpr distinct
    rw [hashes, List.map_append] at reordered
    exact reordered.of_append_right

theorem swapRemoved {victim : Nat} {entry : SnapshotEntry} (present : entries[victim]? = some entry) :
    Exchanges entries 0 entry.ownSlot (swapRemove entries victim) := by
  have out := removed [entry] (swapRemove_perm present)
  rwa [slotsHeld_cons, slotsHeld, List.map_nil, List.sum_nil, add_zero] at out

/-- An entry changed under its own prefix hash trades the slot it held for the one it holds now. -/
theorem changed {prefixHash : PrefixHash} {change : SnapshotEntry → SnapshotEntry} {old : SnapshotEntry}
    (found : modifyFirst (·.prefixHash == prefixHash) change entries = some (old, after))
    (keyed : ∀ entry, entry.prefixHash = prefixHash → (change entry).prefixHash = prefixHash) :
    Exchanges entries (change old).ownSlot old.ownSlot after := by
  obtain ⟨matching, front, rest, rfl, rfl⟩ := modifyFirst_eq_some found
  have same : (change old).prefixHash = old.prefixHash :=
    (keyed old (eq_of_beq matching)).trans (eq_of_beq matching).symm
  constructor
  case balance =>
    simp only [slotsHeld_append, slotsHeld_cons]
    ac_rfl
  case hashNodup =>
    intro distinct
    simpa only [hashes, List.map_append, List.map_cons, same] using distinct

theorem modified {position : Nat} {old : SnapshotEntry} (change : SnapshotEntry → SnapshotEntry)
    (present : entries[position]? = some old) (keyed : (change old).prefixHash = old.prefixHash) :
    Exchanges entries (change old).ownSlot old.ownSlot (entries.modify position change) where
  balance := sum_map_modify ownSlot entries position change old present
  hashNodup := by
    have unchanged : hashes (entries.modify position change) = hashes entries := by
      refine List.ext_getElem? fun other => ?_
      rw [hashes, hashes, List.getElem?_map, List.getElem?_map, List.getElem?_modify]
      by_cases here : position = other
      · subst here
        simp [present, keyed]
      · simp [here]
    rw [unchanged]
    exact id

theorem touched {position : Nat} {change : SnapshotEntry → SnapshotEntry}
    (slotKept : ∀ entry, (change entry).ownSlot = entry.ownSlot)
    (keyed : ∀ entry, (change entry).prefixHash = entry.prefixHash) :
    Exchanges entries 0 0 (entries.modify position change) := by
  cases present : entries[position]? with
  | none =>
    rw [List.modify_eq_self (List.getElem?_eq_none_iff.mp present)]
    exact .nothing entries
  | some old =>
    have traded := modified change present (keyed old)
    rw [slotKept] at traded
    exact ⟨congrArg (· + 0) (add_right_cancel traded.balance), traded.hashNodup⟩

theorem pushed (saved : SnapshotEntry) (absent : ∀ entry ∈ entries, entry.prefixHash ≠ saved.prefixHash) :
    Exchanges entries saved.ownSlot 0 (entries ++ [saved]) where
  balance := by
    rw [add_zero, slotsHeld_append, slotsHeld_cons, slotsHeld, slotsHeld, List.map_nil, List.sum_nil,
      add_zero]
  hashNodup := by
    intro distinct
    rw [hashes, List.map_append, List.map_singleton, List.nodup_append_comm, List.singleton_append,
      List.nodup_cons]
    refine ⟨?_, distinct⟩
    intro stored
    obtain ⟨entry, member, same⟩ := List.mem_map.mp stored
    exact absent entry member same

theorem slotNodup (exchange : Exchanges entries gained lost after) (distinct : (slotsHeld entries).Nodup)
    (gainedOnce : gained.Nodup) (fresh : ∀ slot ∈ gained, slot ∉ slotsHeld entries) :
    (slotsHeld after).Nodup := by
  have bound : slotsHeld after ≤ slotsHeld entries + gained := by
    rw [← exchange.balance]
    exact Multiset.le_add_right _ _
  refine Multiset.nodup_of_le bound (Multiset.nodup_add.mpr ⟨distinct, gainedOnce, ?_⟩)
  exact Multiset.disjoint_right.mpr fun handed => fresh _ handed

end Exchanges

namespace SsmSnapshotIndex

variable {env : SnapshotEnv} {index : SsmSnapshotIndex}

/-! ## What each call does to the entries -/

theorem sessionAwareVictim_resident {tailProtect : Bool} {victim : Nat}
    (chosen : index.sessionAwareVictim env tailProtect true = some victim) :
    ∃ entry, index.entries[victim]? = some entry ∧ entry.tiered = false := by
  obtain ⟨⟨position, fresh, score⟩, folded, rfl⟩ := Option.map_eq_some_iff.mp chosen
  refine List.foldlRecOn (motive := fun victim => ∀ position fresh score,
      victim = some (position, fresh, score) →
      ∃ entry, index.entries[position]? = some entry ∧ entry.tiered = false)
    _ _ ?_ ?_ position fresh score folded
  · intro position fresh score impossible
    cases impossible
  · rintro victim earlier ⟨entry, candidate⟩ member position fresh score same
    have stored := List.mk_mem_zipIdx_iff_getElem?.mp member
    have resident : ∀ {kept}, entry.tiered = false → some (candidate, kept) = some (position, fresh, score) →
        ∃ entry, index.entries[position]? = some entry ∧ entry.tiered = false := by
      rintro kept live same
      cases same
      exact ⟨entry, stored, live⟩
    dsimp only at same
    split at same
    · exact earlier _ _ _ same
    · next eligible =>
      have live : entry.tiered = false := by simpa using eligible
      split at same
      · exact earlier _ _ _ same
      · split at same
        · exact resident live same
        · split at same
          · exact resident live same
          · exact earlier _ _ _ same

theorem legacyVictim_resident {victim : Nat} (chosen : index.legacyVictim = some victim) :
    ∃ entry, index.entries[victim]? = some entry ∧ entry.tiered = false := by
  refine List.foldlRecOn (motive := fun found : Option Nat × UInt64 => ∀ position,
      found.1 = some position →
      ∃ entry, index.entries[position]? = some entry ∧ entry.tiered = false)
    _ _ ?_ ?_ victim chosen
  · intro position impossible
    cases impossible
  · rintro found earlier ⟨entry, candidate⟩ member position same
    dsimp only at same
    split at same
    · exact earlier _ same
    · next live =>
      split at same
      · cases same
        exact ⟨entry, List.mk_mem_zipIdx_iff_getElem?.mp member, Bool.eq_false_iff.mpr live⟩
      · exact earlier _ same

theorem store_exchanges (index : SsmSnapshotIndex) (prefixHash : PrefixHash) (snapshotId : Slot)
    (sessionHash : SessionHash) (tokenCount : UInt64) (isTail isTailSibling : Bool) :
    Exchanges index.entries {snapshotId}
      (index.store prefixHash snapshotId sessionHash tokenCount isTail isTailSibling).1.toList
      (index.store prefixHash snapshotId sessionHash tokenCount isTail isTailSibling).2.entries := by
  simp only [store]
  split
  · next old entries found =>
    have exchange := Exchanges.changed found fun _ _ => rfl
    rwa [ownSlot_resident rfl] at exchange
  · next absent =>
    refine .pushed ⟨_, _, _, _, _, false, _, _⟩ ?_
    intro entry member
    exact beq_eq_false_iff_ne.mp (modifyFirst_eq_none.mp absent entry member)

theorem insertTail_exchanges (index : SsmSnapshotIndex) (prefixHash : PrefixHash) (snapshotId : Slot)
    (sessionHash : SessionHash) (tokenCount : UInt64) :
    Exchanges index.entries {snapshotId} (index.insertTail prefixHash snapshotId sessionHash tokenCount).1
      (index.insertTail prefixHash snapshotId sessionHash tokenCount).2.entries := by
  simp only [insertTail]
  -- Whatever the sweep takes out, the save comes on top of what it leaves.
  have saved : ∀ swept : List SnapshotEntry × List SnapshotEntry,
      (swept.1 ++ swept.2).Perm index.entries →
      Exchanges index.entries {snapshotId}
        (swept.1.filterMap freeableSlot ++
          ({ index with entries := swept.2 }.store prefixHash snapshotId sessionHash tokenCount
            true false).1.toList : List Slot)
        ({ index with entries := swept.2 }.store prefixHash snapshotId sessionHash tokenCount
          true false).2.entries := by
    intro swept same
    have both := (Exchanges.removed _ same).trans (store_exchanges { index with entries := swept.2 }
      prefixHash snapshotId sessionHash tokenCount true false)
    rwa [zero_add, ← coe_filterMap_freeableSlot, Multiset.coe_add] at both
  apply saved
  split
  · exact (sweep_spec (by omega) (by simp)).1
  · exact .refl _

theorem evictLru_exchanges {freed : Option Slot} {after : SsmSnapshotIndex}
    (evicted : index.evictLru env = (freed, after)) :
    Exchanges index.entries 0 (freed.toList : Multiset Slot) after.entries := by
  simp only [evictLru] at evicted
  split at evicted
  · cases evicted
    exact .nothing _
  · next victim chosen =>
    cases evicted
    have resident : ∃ entry, index.entries[victim]? = some entry ∧ entry.tiered = false := by
      split at chosen
      · exact sessionAwareVictim_resident chosen
      · exact legacyVictim_resident chosen
    obtain ⟨entry, present, live⟩ := resident
    have out := Exchanges.swapRemoved present
    rw [ownSlot_resident live] at out
    simpa [present] using out

theorem evictToTier_exchanges {minTokens : UInt64} {evicted : Option TierEvict} {after : SsmSnapshotIndex}
    (spilled : index.evictToTier env minTokens = (evicted, after)) :
    Exchanges index.entries 0 ((evicted.map TierEvict.slot).toList : Multiset Slot) after.entries := by
  unfold evictToTier at spilled
  split at spilled
  · cases spilled
    exact .nothing _
  · next victim entry chosen =>
    obtain ⟨position, found, located⟩ := Option.bind_eq_some_iff.mp chosen
    obtain ⟨stored, present, same⟩ := Option.map_eq_some_iff.mp located
    cases same
    obtain ⟨same, present', live⟩ := sessionAwareVictim_resident found
    rw [present] at present'
    cases present'
    dsimp only at spilled
    split at spilled
    · cases spilled
      have out := Exchanges.swapRemoved present
      rwa [ownSlot_resident live] at out
    · cases spilled
      have spill := Exchanges.modified (fun _ => { entry with tiered := true }) present rfl
      rwa [ownSlot_resident live, ownSlot_tiered rfl, ← List.set_eq_modify] at spill

theorem promote_exchanges {prefixHash : PrefixHash} {newSlot : Slot} {promoted : Bool}
    {after : SsmSnapshotIndex}
    (spilled : ∀ entry ∈ index.entries, entry.prefixHash = prefixHash → entry.tiered = true)
    (answered : index.promote prefixHash newSlot = (promoted, after)) :
    Exchanges index.entries (if promoted then {newSlot} else 0) 0 after.entries := by
  unfold promote at answered
  split at answered
  · next old entries found =>
    cases answered
    obtain ⟨matching, front, rest, split, _⟩ := modifyFirst_eq_some found
    have member : old ∈ index.entries := by
      rw [split]
      exact List.mem_append_right front List.mem_cons_self
    have exchange := Exchanges.changed found fun _ same => same
    rwa [ownSlot_tiered (spilled old member (eq_of_beq matching)), ownSlot_resident rfl] at exchange
  · cases answered
    exact .nothing _

theorem forgetTiered_exchanges {prefixHash : PrefixHash} {forgotten : Bool} {after : SsmSnapshotIndex}
    (answered : index.forgetTiered prefixHash = (forgotten, after)) :
    Exchanges index.entries 0 0 after.entries := by
  simp only [forgetTiered] at answered
  split at answered
  · cases answered
    exact .nothing _
  · next position found =>
    cases answered
    obtain ⟨bound, matching, _⟩ := List.findIdx?_eq_some_iff_getElem.mp found
    have out := Exchanges.swapRemoved (List.getElem?_eq_getElem bound)
    rw [Bool.and_eq_true] at matching
    rwa [ownSlot_tiered matching.2] at out

theorem lookupTiered_exchanges {tokens : List Token} {matchedTokens : UInt64}
    {sessionHash : SessionHash} {adapterId : AdapterId} {found : Option SnapMatch}
    {after : SsmSnapshotIndex}
    (answered : index.lookupTiered env tokens matchedTokens sessionHash adapterId = (found, after)) :
    Exchanges index.entries 0 0 after.entries := by
  simp only [lookupTiered] at answered
  have sameEntries : (if sessionHash ≠ 0 then
      { index with lastLookupSession := sessionHash, evictionsSinceLookup := 0 } else index).entries =
      index.entries := by
    split <;> rfl
  split at answered
  · cases answered
    rw [sameEntries]
    exact .nothing _
  · cases answered
    rw [sameEntries]
    exact .touched (fun _ => rfl) fun _ => rfl

/-! ## Runs -/

inductive Call where
  | insert (prefixHash : PrefixHash) (snapshotId : Slot) (sessionHash : SessionHash)
      (tokenCount : UInt64) (displaced : Option Slot)
  | insertTail (prefixHash : PrefixHash) (snapshotId : Slot) (sessionHash : SessionHash)
      (tokenCount : UInt64) (displaced : List Slot)
  | insertTailSibling (prefixHash : PrefixHash) (snapshotId : Slot) (sessionHash : SessionHash)
      (tokenCount : UInt64) (displaced : Option Slot)
  | evictLru (freed : Option Slot)
  | evictToTier (minTokens : UInt64) (evicted : Option TierEvict)
  | promote (prefixHash : PrefixHash) (newSlot : Slot) (promoted : Bool)
  | forgetTiered (prefixHash : PrefixHash) (forgotten : Bool)
  | lookupTiered (tokens : List Token) (matchedTokens : UInt64) (sessionHash : SessionHash)
      (adapterId : AdapterId) (found : Option SnapMatch)

/-- The slots a call hands to the index.  A refused `promote` leaves its slot with the caller. -/
def Call.handedIn : Call → Multiset Slot
  | .insert _ snapshotId _ _ _ => {snapshotId}
  | .insertTail _ snapshotId _ _ _ => {snapshotId}
  | .insertTailSibling _ snapshotId _ _ _ => {snapshotId}
  | .promote _ newSlot promoted => if promoted then {newSlot} else 0
  | _ => 0

/-- The slots a call hands back, for the caller to free. -/
def Call.handedBack : Call → Multiset Slot
  | .insert _ _ _ _ displaced => displaced.toList
  | .insertTail _ _ _ _ displaced => displaced
  | .insertTailSibling _ _ _ _ displaced => displaced.toList
  | .evictLru freed => freed.toList
  | .evictToTier _ evicted => (evicted.map TierEvict.slot).toList
  | _ => 0

/-- What the call does and answers.  A lookup's matched tokens are a prefix of its tokens. -/
inductive Performs (env : SnapshotEnv) : SsmSnapshotIndex → Call → SsmSnapshotIndex → Prop where
  | insert {index after prefixHash snapshotId sessionHash tokenCount displaced}
      (answered : insert prefixHash snapshotId sessionHash tokenCount index = (displaced, after)) :
      Performs env index (.insert prefixHash snapshotId sessionHash tokenCount displaced) after
  | insertTail {index after prefixHash snapshotId sessionHash tokenCount displaced}
      (answered : insertTail prefixHash snapshotId sessionHash tokenCount index = (displaced, after)) :
      Performs env index (.insertTail prefixHash snapshotId sessionHash tokenCount displaced) after
  | insertTailSibling {index after prefixHash snapshotId sessionHash tokenCount displaced}
      (answered : insertTailSibling prefixHash snapshotId sessionHash tokenCount index =
        (displaced, after)) :
      Performs env index (.insertTailSibling prefixHash snapshotId sessionHash tokenCount displaced) after
  | evictLru {index after freed} (answered : evictLru env index = (freed, after)) :
      Performs env index (.evictLru freed) after
  | evictToTier {index after minTokens evicted}
      (answered : evictToTier env minTokens index = (evicted, after)) :
      Performs env index (.evictToTier minTokens evicted) after
  | promote {index after prefixHash newSlot promoted}
      (answered : promote prefixHash newSlot index = (promoted, after)) :
      Performs env index (.promote prefixHash newSlot promoted) after
  | forgetTiered {index after prefixHash forgotten}
      (answered : forgetTiered prefixHash index = (forgotten, after)) :
      Performs env index (.forgetTiered prefixHash forgotten) after
  | lookupTiered {index after tokens matchedTokens sessionHash adapterId found}
      (within : matchedTokens.toNat ≤ tokens.length)
      (answered : lookupTiered env tokens matchedTokens sessionHash adapterId index = (found, after)) :
      Performs env index (.lookupTiered tokens matchedTokens sessionHash adapterId found) after

structure Step (env : SnapshotEnv) (index : SsmSnapshotIndex) (call : Call) (after : SsmSnapshotIndex) :
    Prop where
  performs : Performs env index call after
  fresh : ∀ slot ∈ call.handedIn, slot ∉ slotsHeld index.entries

/-- A `promote` names a key that no resident entry has: it was spilled, or is unknown. -/
def PromotesSpilled (index : SsmSnapshotIndex) (call : Call) : Prop :=
  ∀ prefixHash newSlot promoted, call = .promote prefixHash newSlot promoted →
    ∀ entry ∈ index.entries, entry.prefixHash = prefixHash → entry.tiered = true

theorem promotesSpilled_promote {prefixHash : PrefixHash} {newSlot : Slot} {promoted : Bool} :
    PromotesSpilled index (.promote prefixHash newSlot promoted) ↔
      ∀ entry ∈ index.entries, entry.prefixHash = prefixHash → entry.tiered = true := by
  constructor
  · intro spilled
    exact spilled _ _ _ rfl
  · rintro spilled _ _ _ ⟨⟩
    exact spilled

theorem Performs.exchanges {after : SsmSnapshotIndex} {call : Call} (performs : Performs env index call after)
    (spilled : PromotesSpilled index call) :
    Exchanges index.entries call.handedIn call.handedBack after.entries := by
  cases performs with
  | @insert _ prefixHash snapshotId sessionHash tokenCount _ answered =>
    have exchange := store_exchanges index prefixHash snapshotId sessionHash tokenCount false false
    rwa [← SsmSnapshotIndex.insert, answered] at exchange
  | @insertTail _ prefixHash snapshotId sessionHash tokenCount _ answered =>
    have exchange := insertTail_exchanges index prefixHash snapshotId sessionHash tokenCount
    rwa [answered] at exchange
  | @insertTailSibling _ prefixHash snapshotId sessionHash tokenCount _ answered =>
    have exchange := store_exchanges index prefixHash snapshotId sessionHash tokenCount false true
    rwa [← SsmSnapshotIndex.insertTailSibling, answered] at exchange
  | evictLru answered => exact evictLru_exchanges answered
  | evictToTier answered => exact evictToTier_exchanges answered
  | promote answered => exact promote_exchanges (promotesSpilled_promote.mp spilled) answered
  | forgetTiered answered => exact forgetTiered_exchanges answered
  | lookupTiered within answered => exact lookupTiered_exchanges answered

theorem Call.handedIn_nodup (call : Call) : call.handedIn.Nodup := by
  simp only [handedIn]
  split <;> try split
  all_goals simp

structure Distinct (index : SsmSnapshotIndex) : Prop where
  slotNodup : (slotsHeld index.entries).Nodup
  hashNodup : (hashes index.entries).Nodup

theorem distinct_new : new.Distinct := ⟨Multiset.nodup_zero, List.nodup_nil⟩

theorem Step.distinct {after : SsmSnapshotIndex} {call : Call} (distinct : index.Distinct)
    (spilled : PromotesSpilled index call) (step : Step env index call after) : after.Distinct := by
  have exchange := step.performs.exchanges spilled
  exact ⟨exchange.slotNodup distinct.slotNodup call.handedIn_nodup step.fresh,
    exchange.hashNodup distinct.hashNodup⟩

/-- What the index promises after these calls: the slots its resident entries hold are those handed
in and not yet handed back, and no slot and no prefix hash has two entries. -/
structure Conserves (calls : List Call) (index : SsmSnapshotIndex) : Prop extends Distinct index where
  balance : slotsHeld index.entries + (calls.map Call.handedBack).sum = (calls.map Call.handedIn).sum
  handedBackOnce : ∀ slot, (calls.map Call.handedBack).sum.count slot +
    (if slot ∈ slotsHeld index.entries then 1 else 0) = (calls.map Call.handedIn).sum.count slot

/-- Promoting a resident entry's key: slot 1 is neither held any more nor ever handed back. -/
theorem promote_resident_leaks : ∃ index, Run (Step .unset) new
    [.insert 5 1 0 32 none, .promote 5 2 true] index ∧
    1 ∉ slotsHeld index.entries ∧
    ¬ Conserves [.insert 5 1 0 32 none, .promote 5 2 true] index := by
  refine ⟨⟨[⟨2, 0, 32, 5, 1, false, false, false⟩], 1, 0, 0⟩, ?_, by decide, ?_⟩
  · exact .prepend ⟨.insert rfl, by decide⟩ (.single ⟨.promote rfl, by decide⟩)
  · intro conserves
    exact absurd (conserves.handedBackOnce 1) (by decide)

/-- Every run whose `promote` calls name spilled or unknown keys conserves slots. -/
theorem run_conserves {calls : List Call} {last : SsmSnapshotIndex}
    (run : Run (Guarded PromotesSpilled (Step env)) new calls last) : Conserves calls last := by
  have distinct : last.Distinct :=
    run.guarded_invariant Distinct distinct_new
      fun _ _ _ distinct spilled step => step.distinct distinct spilled
  have balanced : ∀ before call after, True → Guarded PromotesSpilled (Step env) before call after →
      slotsHeld after.entries + call.handedBack = slotsHeld before.entries + call.handedIn :=
    fun _ _ _ _ taken => (taken.2.performs.exchanges taken.1).balance
  have balance := run.ledger trivial (fun _ _ _ _ _ => trivial) balanced
  rw [new, slotsHeld, slotsHeld, List.map_nil, List.sum_nil, zero_add, ← slotsHeld] at balance
  refine ⟨distinct, balance, ?_⟩
  intro slot
  rw [← balance, Multiset.count_add, Multiset.count_eq_of_nodup distinct.slotNodup, add_comm]

/-- A snapshot is spilled, a tail is saved and evicted, and the snapshot comes back in a new slot. -/
theorem run_conserves_spilled : ∃ calls last, calls.length = 5 ∧
    Run (Guarded PromotesSpilled (Step .unset)) new calls last ∧ Conserves calls last := by
  have run : Run (Guarded PromotesSpilled (Step .unset)) new
      [.insert 5 7 3 32 none, .evictToTier 0 (some (.spill 7 5 32)), .insertTail 6 9 3 48 [],
        .evictLru (some 9), .promote 5 8 true]
      ⟨[⟨8, 3, 32, 5, 1, false, false, false⟩], 2, 0, 2⟩ :=
    .prepend ⟨by simp [PromotesSpilled], .insert rfl, by decide⟩ <|
    .prepend ⟨by simp [PromotesSpilled], .evictToTier rfl, by decide⟩ <|
    .prepend ⟨by simp [PromotesSpilled], .insertTail rfl, by decide⟩ <|
    .prepend ⟨by simp [PromotesSpilled], .evictLru rfl, by decide⟩ <|
    .single ⟨promotesSpilled_promote.mpr (by decide), .promote rfl, by decide⟩
  exact ⟨_, _, rfl, run, run_conserves run⟩

end SsmSnapshotIndex

end Metrale.Cache
