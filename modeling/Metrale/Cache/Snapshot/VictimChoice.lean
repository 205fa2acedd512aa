import Metrale.Cache.Snapshot.Index

/-! # Which snapshot an eviction takes

The scan for a victim is a fold over the entries.  It keeps the first of the candidates with the stalest session and the
least score in it; a candidate is an eligible entry that is not leased, or any eligible entry when all of them are
leased. -/

namespace Metrale.Cache

open Metrale.Foundation

/-! ## The scan -/

section Scan

variable {Entry : Type} {candidate : Entry → Bool} {fresh : Entry → UInt64} {score : Entry → Float}

def considerStalest (candidate : Entry → Bool) (fresh : Entry → UInt64) (score : Entry → Float)
    (victim : Option (Nat × UInt64 × Float)) (next : Entry × Nat) : Option (Nat × UInt64 × Float) :=
  if candidate next.1 then
    match victim with
    | none => some (next.2, fresh next.1, score next.1)
    | some (_, victimFresh, victimScore) =>
      if fresh next.1 < victimFresh || (fresh next.1 == victimFresh && totalLess (score next.1) victimScore) then
        some (next.2, fresh next.1, score next.1)
      else victim
  else victim

structure Scanned (candidate : Entry → Bool) (fresh : Entry → UInt64) (seen : List Entry)
    (victim : Option (Nat × UInt64 × Float)) : Prop where
  none_iff : victim = none ↔ ∀ entry ∈ seen, candidate entry = false
  stalest : ∀ position victimFresh victimScore, victim = some (position, victimFresh, victimScore) →
    (∃ entry, seen[position]? = some entry ∧ candidate entry = true ∧ fresh entry = victimFresh) ∧
      ∀ entry ∈ seen, candidate entry = true → victimFresh ≤ fresh entry

theorem scanned_nil : Scanned candidate fresh [] none where
  none_iff := ⟨fun _ _ listed => absurd listed List.not_mem_nil, fun _ => rfl⟩
  stalest := fun _ _ _ found => by cases found

variable {seen rest : List Entry} {victim : Option (Nat × UInt64 × Float)} {entry : Entry}

theorem scanned_takes (chosen : candidate entry = true) (score : Float)
    (stalest : ∀ other ∈ seen, candidate other = true → fresh entry ≤ fresh other) :
    Scanned candidate fresh (seen ++ [entry]) (some (seen.length, fresh entry, score)) where
  none_iff := by
    refine ⟨fun found => (by cases found), fun none => ?_⟩
    have refused := none entry (List.mem_append_right _ (List.mem_singleton_self _))
    rw [chosen] at refused
    cases refused
  stalest := by
    intro position victimFresh victimScore found
    cases found
    refine ⟨⟨entry, by simp, chosen, rfl⟩, fun other listed picked => ?_⟩
    obtain older | newer := List.mem_append.mp listed
    · exact stalest other older picked
    · rw [List.mem_singleton.mp newer]
      exact UInt64.le_refl _

theorem Scanned.keeps (scanned : Scanned candidate fresh seen victim)
    (passed : candidate entry = true → ∃ position victimFresh victimScore,
      victim = some (position, victimFresh, victimScore) ∧ victimFresh ≤ fresh entry) :
    Scanned candidate fresh (seen ++ [entry]) victim where
  none_iff := by
    refine ⟨fun none other listed => ?_, fun none => ?_⟩
    · obtain older | newer := List.mem_append.mp listed
      · exact scanned.none_iff.mp none other older
      · rw [List.mem_singleton.mp newer]
        by_contra picked
        obtain ⟨_, _, _, found, -⟩ := passed (Bool.of_not_eq_false picked)
        rw [none] at found
        cases found
    · exact scanned.none_iff.mpr fun other listed => none other (List.mem_append_left _ listed)
  stalest := by
    intro position victimFresh victimScore found
    obtain ⟨⟨kept, present, picked, same⟩, least⟩ := scanned.stalest position victimFresh victimScore found
    have inside : position < seen.length := (List.getElem?_eq_some_iff.mp present).1
    refine ⟨⟨kept, by rw [List.getElem?_append_left inside, present], picked, same⟩, fun other listed chosen => ?_⟩
    obtain older | newer := List.mem_append.mp listed
    · exact least other older chosen
    · rw [List.mem_singleton.mp newer] at chosen ⊢
      obtain ⟨_, _, _, kept, bound⟩ := passed chosen
      rw [found] at kept
      cases kept
      exact bound

theorem Scanned.step (scanned : Scanned candidate fresh seen victim) (score : Entry → Float) (entry : Entry) :
    Scanned candidate fresh (seen ++ [entry]) (considerStalest candidate fresh score victim (entry, seen.length)) := by
  unfold considerStalest
  dsimp only
  by_cases picked : candidate entry = true
  · rw [if_pos picked]
    cases held : victim with
    | none =>
      refine scanned_takes picked _ fun other listed chosen => ?_
      have refused := scanned.none_iff.mp held other listed
      rw [chosen] at refused
      cases refused
    | some best =>
      obtain ⟨position, victimFresh, victimScore⟩ := best
      obtain ⟨-, least⟩ := scanned.stalest position victimFresh victimScore held
      dsimp only
      split
      · next better =>
        have bound : fresh entry ≤ victimFresh := by
          simp only [Bool.or_eq_true, Bool.and_eq_true, decide_eq_true_eq, beq_iff_eq] at better
          obtain fresher | ⟨same, -⟩ := better
          · exact UInt64.le_of_lt fresher
          · exact UInt64.le_of_eq same
        exact scanned_takes picked _ fun other listed chosen => UInt64.le_trans bound (least other listed chosen)
      · next worse =>
        have bound : victimFresh ≤ fresh entry := by
          simp only [Bool.or_eq_true, decide_eq_true_eq, not_or] at worse
          exact UInt64.not_lt.mp worse.1
        rw [← held]
        exact scanned.keeps fun _ => ⟨position, victimFresh, victimScore, held, bound⟩
  · rw [if_neg picked]
    exact scanned.keeps fun chosen => absurd chosen picked

theorem Scanned.foldl (scanned : Scanned candidate fresh seen victim) (score : Entry → Float) (rest : List Entry) :
    Scanned candidate fresh (seen ++ rest)
      ((rest.zipIdx seen.length).foldl (considerStalest candidate fresh score) victim) := by
  induction rest generalizing seen victim with
  | nil =>
    rw [List.append_nil]
    exact scanned
  | cons entry rest ih =>
    have stepped := ih (scanned.step score entry)
    rw [List.append_assoc, List.length_append, List.length_singleton] at stepped
    exact stepped

end Scan

/-! ## The choice -/

namespace SsmSnapshotIndex

variable {index : SsmSnapshotIndex} {tailProtect skipTiered : Bool} {session : SessionHash}

def eligible (skipTiered : Bool) (entry : SnapshotEntry) : Bool := !(skipTiered && entry.tiered)

def leased (index : SsmSnapshotIndex) (tailProtect : Bool) (entry : SnapshotEntry) : Bool :=
  tailProtect && (entry.isTail || entry.isTailSibling) && entry.sessionHash != 0 &&
    entry.sessionHash == index.lastLookupSession

def lastUse (index : SsmSnapshotIndex) (skipTiered : Bool) (session : SessionHash) : UInt64 :=
  ((index.entries.filter (eligible skipTiered)).filter (·.sessionHash == session)).foldl
    (fun newest entry => max newest entry.lastAccess) 0

def Candidate (index : SsmSnapshotIndex) (tailProtect skipTiered : Bool) (entry : SnapshotEntry) : Prop :=
  eligible skipTiered entry = true ∧ (index.leased tailProtect entry = true →
    ∀ other ∈ index.entries, eligible skipTiered other = true → index.leased tailProtect other = true)

def sessionFresh (index : SsmSnapshotIndex) (skipTiered : Bool) : HashMap SessionHash UInt64 :=
  (index.entries.filter (eligible skipTiered)).foldl (fun fresh entry =>
    fresh.insert entry.sessionHash (max ((fresh.lookup entry.sessionHash).getD 0) entry.lastAccess)) ∅

theorem lookup_newest (pool : List SnapshotEntry) (table : HashMap SessionHash UInt64) (session : SessionHash) :
    ((pool.foldl (fun fresh entry => fresh.insert entry.sessionHash
        (max ((fresh.lookup entry.sessionHash).getD 0) entry.lastAccess)) table).lookup session).getD 0 =
      (pool.filter (·.sessionHash == session)).foldl (fun newest entry => max newest entry.lastAccess)
        ((table.lookup session).getD 0) := by
  induction pool generalizing table with
  | nil => rfl
  | cons entry pool ih =>
    rw [List.foldl_cons, ih, HashMap.lookup_insert_if]
    by_cases own : session = entry.sessionHash
    · subst own
      rw [if_pos rfl, Option.getD_some, List.filter_cons_of_pos (by simp), List.foldl_cons]
    · rw [if_neg own, List.filter_cons_of_neg (by simpa using Ne.symm own)]

theorem sessionFresh_eq (index : SsmSnapshotIndex) (skipTiered : Bool) (session : SessionHash) :
    ((index.sessionFresh skipTiered).lookup session).getD 0 = index.lastUse skipTiered session :=
  lookup_newest _ ∅ session

/-- What the scan passes over, by the count of the entries that are not leased. -/
def scans (index : SsmSnapshotIndex) (tailProtect skipTiered : Bool) (entry : SnapshotEntry) : Bool :=
  eligible skipTiered entry && !(index.leased tailProtect entry &&
    decide (1 ≤ ((index.entries.filter (eligible skipTiered)).filter fun other => !index.leased tailProtect other).length))

theorem scans_iff {entry : SnapshotEntry} :
    index.scans tailProtect skipTiered entry = true ↔ index.Candidate tailProtect skipTiered entry := by
  have counted : ¬ (1 ≤ ((index.entries.filter (eligible skipTiered)).filter fun other =>
        !index.leased tailProtect other).length) ↔
      ∀ other ∈ index.entries, eligible skipTiered other = true → index.leased tailProtect other = true := by
    rw [Nat.not_le, Nat.lt_one_iff, List.length_eq_zero_iff, List.filter_eq_nil_iff]
    simp only [List.mem_filter, Bool.not_eq_true', Bool.not_eq_false, and_imp]
  simp only [scans, Candidate, Bool.and_eq_true, Bool.not_eq_true', Bool.and_eq_false_iff, decide_eq_false_iff_not, counted]
  constructor
  · rintro ⟨eligible, unleased | full⟩
    · exact ⟨eligible, fun leased => by rw [leased] at unleased; cases unleased⟩
    · exact ⟨eligible, fun _ => full⟩
  · rintro ⟨eligible, full⟩
    cases leased : index.leased tailProtect entry with
    | false => exact ⟨eligible, .inl rfl⟩
    | true => exact ⟨eligible, .inr (full leased)⟩

def victimScore (index : SsmSnapshotIndex) (skipTiered : Bool) (alpha : Float) (entry : SnapshotEntry) : Float :=
  let pool := index.entries.filter (eligible skipTiered)
  norm entry.lastAccess (pool.foldl (fun low entry => min low entry.lastAccess) u64Max)
      (pool.foldl (fun high entry => max high entry.lastAccess) 0) +
    alpha * norm entry.tokenCount (pool.foldl (fun low entry => min low entry.tokenCount) u64Max)
      (pool.foldl (fun high entry => max high entry.tokenCount) 0)

theorem sessionAwareVictim_scanned (env : SnapshotEnv) (index : SsmSnapshotIndex) (tailProtect skipTiered : Bool) :
    ∃ victim, Scanned (index.scans tailProtect skipTiered) (fun entry => index.lastUse skipTiered entry.sessionHash)
        index.entries victim ∧
      index.sessionAwareVictim env tailProtect skipTiered = victim.map Prod.fst := by
  refine ⟨_, scanned_nil.foldl (index.victimScore skipTiered env.snapEvictAlpha) index.entries, ?_⟩
  refine congrArg (fun step => (index.entries.zipIdx.foldl step none).map Prod.fst) ?_
  funext victim ⟨entry, position⟩
  change (if !eligible skipTiered entry then victim
    else if index.leased tailProtect entry && decide (1 ≤ ((index.entries.filter (eligible skipTiered)).filter
      fun other => !index.leased tailProtect other).length) then victim
    else considerStalest (fun _ => true) (fun entry => ((index.sessionFresh skipTiered).lookup entry.sessionHash).getD 0)
      (index.victimScore skipTiered env.snapEvictAlpha) victim (entry, position)) = _
  simp only [considerStalest, sessionFresh_eq, scans, if_true]
  cases eligible skipTiered entry with
  | false => rfl
  | true =>
    cases index.leased tailProtect entry && decide (1 ≤ ((index.entries.filter (eligible skipTiered)).filter
        fun other => !index.leased tailProtect other).length) with
    | true => rfl
    | false => rfl

theorem candidate_of_eligible {entry : SnapshotEntry} (listed : entry ∈ index.entries)
    (eligible : eligible skipTiered entry = true) :
    ∃ other ∈ index.entries, index.Candidate tailProtect skipTiered other := by
  by_cases all : ∀ other ∈ index.entries, SsmSnapshotIndex.eligible skipTiered other = true →
      index.leased tailProtect other = true
  · exact ⟨entry, listed, eligible, fun _ => all⟩
  · push Not at all
    obtain ⟨other, listed, eligible, unleased⟩ := all
    exact ⟨other, listed, eligible, fun leased => absurd leased unleased⟩

/-- The victim of an eviction: there is one when an entry is eligible, it is eligible and not leased while another entry
could go, and its session is the least recently used of the candidates'. -/
theorem session_aware_victim (env : SnapshotEnv) (index : SsmSnapshotIndex) (tailProtect skipTiered : Bool) :
    ((index.sessionAwareVictim env tailProtect skipTiered).isSome = true ↔
      ∃ entry ∈ index.entries, eligible skipTiered entry = true) ∧
    ∀ victim, index.sessionAwareVictim env tailProtect skipTiered = some victim →
      ∃ entry, index.entries[victim]? = some entry ∧ (skipTiered = true → entry.tiered = false) ∧
        (index.leased tailProtect entry = true →
          ∀ other ∈ index.entries, eligible skipTiered other = true → index.leased tailProtect other = true) ∧
        ∀ other ∈ index.entries, index.Candidate tailProtect skipTiered other →
          index.lastUse skipTiered entry.sessionHash ≤ index.lastUse skipTiered other.sessionHash := by
  obtain ⟨kept, scanned, answered⟩ := index.sessionAwareVictim_scanned env tailProtect skipTiered
  rw [answered]
  constructor
  · rw [Option.isSome_map, ← Option.ne_none_iff_isSome, Ne, scanned.none_iff]
    push Not
    constructor
    · rintro ⟨entry, listed, picked⟩
      exact ⟨entry, listed, (scans_iff.mp (Bool.of_not_eq_false picked)).1⟩
    · rintro ⟨entry, listed, eligible⟩
      obtain ⟨other, listed, candidate⟩ := candidate_of_eligible listed eligible
      exact ⟨other, listed, by rw [scans_iff.mpr candidate]; exact Bool.noConfusion⟩
  · intro victim found
    obtain ⟨⟨position, fresh, score⟩, held, rfl⟩ := Option.map_eq_some_iff.mp found
    obtain ⟨⟨entry, present, picked, rfl⟩, least⟩ := scanned.stalest position fresh score held
    obtain ⟨eligible, full⟩ := scans_iff.mp picked
    refine ⟨entry, present, fun skipped => ?_, full, fun other listed candidate => ?_⟩
    · rw [SsmSnapshotIndex.eligible, skipped] at eligible
      simpa using eligible
    · exact least other listed (scans_iff.mpr candidate)

end SsmSnapshotIndex

end Metrale.Cache
