import Mathlib.Data.List.Induction
import Metrale.Cache.Snapshot.Slots

/-! # Tails and the session gate

A tail holds a session's recurrent state up to its last token.  Saving one sweeps the session's previous tail
out of the index, and the gate of a lookup passes a tail to its own session only; the deepest anchor is chosen
among what the gate passes. -/

namespace Metrale.Cache

open Metrale.Foundation

/-! ## Tails of a session -/

def tailOf (sessionHash : SessionHash) (entry : SnapshotEntry) : Bool :=
  entry.isTail && entry.sessionHash == sessionHash

def tailCount (sessionHash : SessionHash) (entries : List SnapshotEntry) : Nat :=
  entries.countP (tailOf sessionHash)

namespace SsmSnapshotIndex

variable {env : SnapshotEnv} {index after : SsmSnapshotIndex} {entries : List SnapshotEntry}
  {sessionHash : SessionHash}

theorem tailCount_swapRemove {position : Nat} {entry : SnapshotEntry}
    (present : entries[position]? = some entry) :
    tailCount sessionHash (swapRemove entries position) ≤ tailCount sessionHash entries := by
  simp only [tailCount]
  rw [← (swapRemove_perm present).countP_eq, List.countP_cons]
  exact Nat.le_add_right _ _

theorem tailCount_set {position : Nat} {old new : SnapshotEntry} (present : entries[position]? = some old)
    (sameFlag : new.isTail = old.isTail) (sameSession : new.sessionHash = old.sessionHash) :
    tailCount sessionHash (entries.set position new) = tailCount sessionHash entries := by
  have total := countP_set_add (tailOf sessionHash) entries position old new present
  have same : tailOf sessionHash new = tailOf sessionHash old := by
    simp only [tailOf, sameFlag, sameSession]
  rw [same] at total
  exact Nat.add_right_cancel total

theorem tailCount_modifyFirst {picked : SnapshotEntry → Bool} {change : SnapshotEntry → SnapshotEntry}
    {old : SnapshotEntry} {changed : List SnapshotEntry}
    (found : modifyFirst picked change entries = some (old, changed)) :
    tailCount sessionHash changed + (if tailOf sessionHash old then 1 else 0) =
      tailCount sessionHash entries + (if tailOf sessionHash (change old) then 1 else 0) := by
  obtain ⟨-, before, rest, rfl, rfl⟩ := modifyFirst_eq_some found
  simp only [tailCount, List.countP_append, List.countP_cons]
  omega

theorem store_tailCount (session : SessionHash) (index : SsmSnapshotIndex) (prefixHash : PrefixHash) (snapshotId : Slot)
    (saver : SessionHash) (tokenCount : UInt64) (isTail isTailSibling : Bool) :
    tailCount session (index.store prefixHash snapshotId saver tokenCount isTail isTailSibling).2.entries ≤
      tailCount session index.entries + (if isTail && saver == session then 1 else 0) := by
  simp only [store]
  split
  · next old entries found =>
    exact (Nat.le_add_right _ _).trans (Nat.le_of_eq (tailCount_modifyFirst found))
  · simp only [tailCount, List.countP_append, List.countP_singleton, tailOf]
    exact Nat.le_refl _

/-- The sweep takes the saving session's tail out, and the new entry is its only one. -/
theorem insertTail_tailCount (prefixHash : PrefixHash) (snapshotId : Slot) (saver : SessionHash)
    (tokenCount : UInt64) (session : sessionHash ≠ 0) (once : tailCount sessionHash index.entries ≤ 1) :
    tailCount sessionHash (index.insertTail prefixHash snapshotId saver tokenCount).2.entries ≤ 1 := by
  simp only [insertTail]
  by_cases own : saver = sessionHash
  · subst own
    have enough : index.entries.length ≤ index.entries.length + 0 := Nat.le_refl _
    obtain ⟨-, -, swept⟩ := @sweep_spec _ (ofSessionTail saver) _ _ _ enough
        fun cell absent => absurd absent List.not_mem_nil
    rw [if_pos session]
    refine (store_tailCount _ _ prefixHash snapshotId saver tokenCount true false).trans ?_
    have none : tailCount saver (sweep (ofSessionTail saver) index.entries.length index.entries 0).2 = 0 := by
      refine List.countP_eq_zero.mpr fun entry member tail => ?_
      have kept := swept entry member
      simp only [tailOf, Bool.and_eq_true] at tail
      simp [ofSessionTail, tail.1, tail.2] at kept
    rw [none]
    split <;> omega
  · have other : (saver == sessionHash) = false := beq_eq_false_iff_ne.mpr own
    refine (store_tailCount _ _ prefixHash snapshotId saver tokenCount true false).trans ?_
    rw [other, Bool.and_false, if_neg Bool.false_ne_true, Nat.add_zero]
    refine le_trans ?_ once
    split
    · have enough : index.entries.length ≤ index.entries.length + 0 := Nat.le_refl _
      obtain ⟨same, -, -⟩ := @sweep_spec _ (ofSessionTail saver) _ _ _ enough
        fun cell absent => absurd absent List.not_mem_nil
      simp only [tailCount]
      rw [← same.countP_eq, List.countP_append]
      exact Nat.le_add_left _ _
    · exact Nat.le_refl _

theorem evictLru_tailCount {freed : Option Slot} (answered : index.evictLru env = (freed, after)) :
    tailCount sessionHash after.entries ≤ tailCount sessionHash index.entries := by
  simp only [evictLru] at answered
  split at answered
  · cases answered
    exact Nat.le_refl _
  · next victim chosen =>
    cases answered
    have present : ∃ entry, index.entries[victim]? = some entry ∧ entry.tiered = false := by
      split at chosen
      · exact sessionAwareVictim_resident chosen
      · exact legacyVictim_resident chosen
    obtain ⟨entry, present, -⟩ := present
    exact tailCount_swapRemove present

theorem evictToTier_tailCount {minTokens : UInt64} {evicted : Option TierEvict}
    (answered : index.evictToTier env minTokens = (evicted, after)) :
    tailCount sessionHash after.entries ≤ tailCount sessionHash index.entries := by
  simp only [evictToTier] at answered
  split at answered
  · cases answered
    exact Nat.le_refl _
  · next victim entry chosen =>
    obtain ⟨victim', -, found⟩ := Option.bind_eq_some_iff.mp chosen
    obtain ⟨entry', present, same⟩ := Option.map_eq_some_iff.mp found
    cases same
    split at answered
    · cases answered
      exact tailCount_swapRemove present
    · cases answered
      exact Nat.le_of_eq (tailCount_set present rfl rfl)

theorem promote_tailCount {prefixHash : PrefixHash} {newSlot : Slot} {promoted : Bool}
    (answered : index.promote prefixHash newSlot = (promoted, after)) :
    tailCount sessionHash after.entries = tailCount sessionHash index.entries := by
  simp only [promote] at answered
  split at answered
  · next old entries found =>
    cases answered
    exact Nat.add_right_cancel (tailCount_modifyFirst found)
  · cases answered
    rfl

theorem forgetTiered_tailCount {prefixHash : PrefixHash} {forgotten : Bool}
    (answered : index.forgetTiered prefixHash = (forgotten, after)) :
    tailCount sessionHash after.entries ≤ tailCount sessionHash index.entries := by
  simp only [forgetTiered] at answered
  split at answered
  · cases answered
    exact Nat.le_refl _
  · next position found =>
    cases answered
    obtain ⟨bound, -⟩ := List.findIdx?_eq_some_iff_getElem.mp found
    exact tailCount_swapRemove (List.getElem?_eq_getElem bound)

/-! ## The anchor of a lookup -/

/-- The entry may anchor the query: it is no deeper than the match, the gate passes it, and its hash is the
hash of the query's prefix. -/
structure Anchors (env : SnapshotEnv) (tokens : List Token) (matchedTokens : UInt64)
    (sessionHash : SessionHash) (adapterId : AdapterId) (entry : SnapshotEntry) : Prop where
  within : entry.tokenCount ≤ matchedTokens
  passes : sessionGateBlocks entry sessionHash env.hermetic = false
  hashed : hashTokenPrefix tokens entry.tokenCount adapterId = entry.prefixHash

/-- The gate passes a tail, and under `hermetic` any entry, to its own session only. -/
theorem Anchors.own {tokens : List Token} {matchedTokens : UInt64} {adapterId : AdapterId}
    {entry : SnapshotEntry} (anchors : Anchors env tokens matchedTokens sessionHash adapterId entry)
    (gated : entry.isTail = true ∨ env.hermetic = true) : sessionHash ≠ 0 ∧ entry.sessionHash = sessionHash := by
  have passes := anchors.passes
  have closed : (!entry.isTail && !env.hermetic) = false := by
    obtain tail | hermetic := gated
    · rw [tail]
      rfl
    · rw [hermetic, Bool.not_true, Bool.and_false]
  rw [sessionGateBlocks, closed, if_neg Bool.false_ne_true, Bool.or_eq_false_iff] at passes
  exact ⟨beq_eq_false_iff_ne.mp passes.1, by simpa using passes.2⟩

def snapMatch (entry : SnapshotEntry) : SnapMatch :=
  ⟨entry.tokenCount, if entry.tiered then .tier entry.prefixHash else .hbm entry.snapshotId, entry.isTail⟩

/-- The answer is a deepest one of the entries that may anchor the query, or there is none. -/
def AnswersDeepest (anchors : SnapshotEntry → Prop) (entries : List SnapshotEntry) :
    Option SnapMatch → Prop
  | none => ∀ entry ∈ entries, ¬ anchors entry
  | some answer => ∃ entry ∈ entries, anchors entry ∧ answer = snapMatch entry ∧
      ∀ other ∈ entries, anchors other → other.tokenCount ≤ entry.tokenCount

/-- The scan keeps the deepest of the entries it has passed that may anchor the query. -/
def Deepest (anchors : SnapshotEntry → Prop) (passed : List SnapshotEntry) :
    Option (Nat × SnapshotEntry) → Prop
  | none => ∀ entry ∈ passed, ¬ anchors entry
  | some (position, entry) => passed[position]? = some entry ∧ anchors entry ∧
      ∀ other ∈ passed, anchors other → other.tokenCount ≤ entry.tokenCount

variable {anchors : SnapshotEntry → Prop} {passed : List SnapshotEntry} {best : Option (Nat × SnapshotEntry)}

theorem Deepest.skip (deepest : Deepest anchors passed best) {entry : SnapshotEntry} (not : ¬ anchors entry) :
    Deepest anchors (passed ++ [entry]) best := by
  have last : ∀ other ∈ passed ++ [entry], anchors other → other ∈ passed := by
    intro other member anchored
    obtain before | here := List.mem_append.mp member
    · exact before
    · cases List.mem_singleton.mp here
      exact absurd anchored not
  cases best with
  | none => exact fun other member anchored => deepest other (last other member anchored) anchored
  | some best =>
    obtain ⟨stored, anchored, most⟩ := deepest
    exact ⟨List.getElem?_append_left (List.getElem?_eq_some_iff.mp stored).1 ▸ stored, anchored,
      fun other later anchored => most other (last other later anchored) anchored⟩

theorem Deepest.consider (deepest : Deepest anchors passed best) {entry : SnapshotEntry}
    (anchored : anchors entry) :
    Deepest anchors (passed ++ [entry])
      (if best.all (entry.tokenCount > ·.2.tokenCount) then some (passed.length, entry) else best) := by
  have here : (passed ++ [entry])[passed.length]? = some entry := List.getElem?_concat_length
  have split : ∀ {depth}, (∀ other ∈ passed, anchors other → other.tokenCount ≤ depth) →
      entry.tokenCount ≤ depth → ∀ other ∈ passed ++ [entry], anchors other → other.tokenCount ≤ depth := by
    intro depth earlier deep other member anchored
    obtain before | here := List.mem_append.mp member
    · exact earlier other before anchored
    · cases List.mem_singleton.mp here
      exact deep
  cases best with
  | none =>
    exact ⟨here, anchored,
      split (fun other member anchors => absurd anchors (deepest other member)) (UInt64.le_refl _)⟩
  | some best =>
    obtain ⟨stored, anchoredBest, most⟩ := deepest
    by_cases deeper : entry.tokenCount > best.2.tokenCount
    · rw [Option.all_some, if_pos (decide_eq_true deeper)]
      exact ⟨here, anchored, split (fun other member anchors =>
        UInt64.le_trans (most other member anchors) (UInt64.le_of_lt deeper)) (UInt64.le_refl _)⟩
    · rw [Option.all_some, if_neg (by simpa using deeper)]
      exact ⟨List.getElem?_append_left (List.getElem?_eq_some_iff.mp stored).1 ▸ stored, anchoredBest,
        split most (UInt64.not_lt.mp deeper)⟩

theorem scan_deepest {step : Option (Nat × SnapshotEntry) → SnapshotEntry × Nat → Option (Nat × SnapshotEntry)}
    (kept : ∀ passed best entry, Deepest anchors passed best →
      Deepest anchors (passed ++ [entry]) (step best (entry, passed.length)))
    (entries : List SnapshotEntry) : Deepest anchors entries (entries.zipIdx.foldl step none) := by
  induction entries using List.reverseRec with
  | nil => exact nofun
  | append_singleton passed entry ih =>
    rw [List.zipIdx_append, List.foldl_append, Nat.zero_add]
    exact kept passed _ entry ih

theorem lookupTiered_answers {tokens : List Token} {matchedTokens : UInt64} {adapterId : AdapterId}
    {found : Option SnapMatch}
    (answered : index.lookupTiered env tokens matchedTokens sessionHash adapterId = (found, after)) :
    AnswersDeepest (Anchors env tokens matchedTokens sessionHash adapterId) index.entries found ∧
      ∀ session, tailCount session after.entries = tailCount session index.entries := by
  simp only [lookupTiered] at answered
  -- The lease is renewed before the scan, and the entries stay.
  have sameEntries : (if sessionHash ≠ 0 then
      { index with lastLookupSession := sessionHash, evictionsSinceLookup := 0 } else index).entries =
      index.entries := by
    split <;> rfl
  rw [sameEntries] at answered
  generalize scanned : List.foldl _ none index.entries.zipIdx = best at answered
  have deepest : Deepest (Anchors env tokens matchedTokens sessionHash adapterId) index.entries best := by
    subst scanned
    refine scan_deepest (fun passed best entry deepest => ?_) index.entries
    dsimp only
    split
    · next beyond => exact deepest.skip fun anchors => absurd anchors.within (UInt64.not_le.mpr beyond)
    · next within =>
      split
      · next blocked =>
        refine deepest.skip fun anchors => ?_
        rw [anchors.passes] at blocked
        cases blocked
      · next passes =>
        split
        · next differs => exact deepest.skip fun anchors => differs anchors.hashed
        · next hashed =>
          exact deepest.consider
            ⟨UInt64.not_lt.mp within, Bool.eq_false_iff.mpr passes, not_not.mp hashed⟩
  cases best with
  | none =>
    cases answered
    exact ⟨deepest, fun session => by rw [sameEntries]⟩
  | some best =>
    obtain ⟨stored, anchored, most⟩ := deepest
    cases answered
    refine ⟨⟨best.2, List.mem_of_getElem? stored, anchored, rfl, most⟩, fun session => ?_⟩
    dsimp only
    rw [List.modify_eq_set_getElem?, stored]
    exact tailCount_set stored rfl rfl

/-! ## Runs -/

variable {call : Call}

theorem Performs.tailCount (performs : Performs env index call after) (session : sessionHash ≠ 0)
    (once : tailCount sessionHash index.entries ≤ 1) : tailCount sessionHash after.entries ≤ 1 := by
  cases performs with
  | @insert _ prefixHash snapshotId saver tokenCount _ answered =>
    have stored := store_tailCount sessionHash index prefixHash snapshotId saver tokenCount
      false false
    rw [← SsmSnapshotIndex.insert, answered, Bool.false_and, if_neg Bool.false_ne_true] at stored
    exact stored.trans once
  | @insertTail _ prefixHash snapshotId saver tokenCount _ answered =>
    have stored := insertTail_tailCount prefixHash snapshotId saver tokenCount session once
    rw [answered] at stored
    exact stored
  | @insertTailSibling _ prefixHash snapshotId saver tokenCount _ answered =>
    have stored := store_tailCount sessionHash index prefixHash snapshotId saver tokenCount
      false true
    rw [← SsmSnapshotIndex.insertTailSibling, answered, Bool.false_and, if_neg Bool.false_ne_true] at stored
    exact stored.trans once
  | evictLru answered => exact (evictLru_tailCount answered).trans once
  | evictToTier answered => exact (evictToTier_tailCount answered).trans once
  | promote answered => exact (promote_tailCount answered).trans_le once
  | forgetTiered answered => exact (forgetTiered_tailCount answered).trans once
  | lookupTiered within answered => exact ((lookupTiered_answers answered).2 _).trans_le once

/-- In every run a session has at most one tail, and a lookup answers a deepest entry that the query's hash and
the gate admit; the gate admits a tail, and under `hermetic` any entry, for its own session only. -/
theorem run_gated {calls : List Call} {last : SsmSnapshotIndex} (run : Run (Performs env) new calls last) :
    (∀ session, session ≠ 0 → last.entries.countP (fun entry => entry.isTail && entry.sessionHash == session) ≤ 1) ∧
    ∀ tokens matchedTokens session adapterId,
      AnswersDeepest (Anchors env tokens matchedTokens session adapterId) last.entries
        (last.lookupTiered env tokens matchedTokens session adapterId).1 ∧
      ∀ entry, Anchors env tokens matchedTokens session adapterId entry →
        entry.isTail = true ∨ env.hermetic = true → session ≠ 0 ∧ entry.sessionHash = session := by
  constructor
  · intro session named
    exact run.invariant (fun index => Metrale.Cache.tailCount session index.entries ≤ 1) (Nat.zero_le _)
      fun _ _ _ once performs => performs.tailCount named once
  · intro tokens matchedTokens session adapterId
    exact ⟨(lookupTiered_answers rfl).1, fun entry anchors gated => anchors.own gated⟩

/-- A session saves a tail, and then a deeper one in its place. -/
theorem run_gated_tails : ∃ calls last, calls.length = 2 ∧ Run (Performs .unset) new calls last ∧
    last.entries.length = 1 ∧
    ((∀ session, session ≠ 0 →
      last.entries.countP (fun entry => entry.isTail && entry.sessionHash == session) ≤ 1) ∧
    ∀ tokens matchedTokens session adapterId,
      AnswersDeepest (Anchors .unset tokens matchedTokens session adapterId) last.entries
        (last.lookupTiered .unset tokens matchedTokens session adapterId).1 ∧
      ∀ entry, Anchors .unset tokens matchedTokens session adapterId entry →
        entry.isTail = true ∨ SnapshotEnv.unset.hermetic = true → session ≠ 0 ∧ entry.sessionHash = session) := by
  have run : Run (Performs .unset) new [.insertTail 5 7 3 32 [], .insertTail 6 8 3 48 [7]]
      ⟨[⟨8, 3, 48, 6, 2, false, true, false⟩], 2, 0, 0⟩ :=
    .prepend (.insertTail rfl) (.single (.insertTail rfl))
  exact ⟨_, _, rfl, run, rfl, run_gated run⟩

end SsmSnapshotIndex

end Metrale.Cache
