import Metrale.Scheduler.Budget
import Metrale.Scheduler.Promote

/-! # KV admission (`admission.rs`)

A tick's new requests are split into those that start and those that go back to the front of the pending queue.  A
request waits while sequences of another adapter are in flight, and while the pool cannot hold its prompt and its whole
budget beside what is in flight.  The first that does not fit holds back all behind it. -/

namespace Metrale.Scheduler

/-- The largest `usize`. -/
def usizeMax : Nat := 18446744073709551615

/-- `saturating_add` of two `usize`s. -/
def usizeAdd (left right : Nat) : Nat := min (left + right) usizeMax

/-! ## Reservations -/

structure AdmitParams where
  watermark : Nat
  maxSeqLen : Nat
  blockSize : Nat

/-- `resolve_admit_watermark` without the environment variable. -/
def resolveAdmitWatermark (maxSeqLen : Nat) : Nat := if 0 < maxSeqLen then maxSeqLen else usizeMax

def blocksForTokens (tokens blockSize : Nat) : Nat := tokens / max blockSize 1 + 1

structure SeqDemand where
  currentTokens : Nat
  budgetTokens : Nat

def SeqDemand.depth (d : SeqDemand) (params : AdmitParams) : Nat :=
  let depth := usizeAdd d.currentTokens (min d.budgetTokens params.watermark)
  if 0 < params.maxSeqLen then min depth (max params.maxSeqLen d.currentTokens) else depth

def seqCommitmentBlocks (d : SeqDemand) (params : AdmitParams) : Nat :=
  blocksForTokens (d.depth params) params.blockSize

def blockSum (counts : List Nat) : Nat := counts.foldr (· + ·) 0

def committedBlocks (demands : List SeqDemand) (params : AdmitParams) : Nat :=
  blockSum (demands.map (seqCommitmentBlocks · params))

/-- The loop of `admit_count`, with `n` requests admitted and `used` blocks reserved. -/
def admitLoop (totalBlocks committed : Nat) (params : AdmitParams) (used n : Nat) : List SeqDemand → Nat × Bool
  | [] => (n, false)
  | req :: reqs =>
    if usizeAdd used (seqCommitmentBlocks req params) ≤ totalBlocks then
      admitLoop totalBlocks committed params (used + seqCommitmentBlocks req params) (n + 1) reqs
    else if n = 0 ∧ committed = 0 then (1, true)
    else (n, false)

/-- How many of the requests fit, and whether the first is let in although it does not. -/
def admitCount (totalBlocks committed : Nat) (reqs : List SeqDemand) (params : AdmitParams) : Nat × Bool :=
  admitLoop totalBlocks committed params committed 0 reqs

/-! ## The gate -/

structure InferenceRequest where
  promptTokens : List Token
  maxTokens : Nat
  adapterSlot : Int
deriving DecidableEq

def InferenceRequest.demand (r : InferenceRequest) : SeqDemand := ⟨r.promptTokens.length, r.maxTokens⟩

/-- `insert(i, req)` for each of the requests in turn. -/
def insertFrom (index : Nat) (pending : List InferenceRequest) : List InferenceRequest → List InferenceRequest
  | [] => pending
  | req :: reqs => insertFrom (index + 1) (pending.insertIdx index req) reqs

structure Lanes (Device Grammar : Type*) where
  active : List (ActiveSeq Device Grammar)
  prefilling : List (PrefillInProgress Device Grammar)
  swapped : List SwappedSeq
  preempted : List (PreemptedSeq Device Grammar)

variable {Device Grammar : Type*}

/-- The adapter of the first sequence in flight, or of the first new request. -/
def Lanes.cohortSlot (lanes : Lanes Device Grammar) (newReqs : List InferenceRequest) : Option Int :=
  match lanes.active.head?, lanes.prefilling.head?, newReqs.head? with
  | some a, _, _ => some a.seq.adapterSlot
  | none, some p, _ => some p.seq.adapterSlot
  | none, none, some r => some r.adapterSlot
  | none, none, none => none

def Lanes.joins (lanes : Lanes Device Grammar) (adapterIdFor : Int → UInt64) (newReqs : List InferenceRequest)
    (r : InferenceRequest) : Bool :=
  (lanes.cohortSlot newReqs).all fun slot => adapterIdFor r.adapterSlot == adapterIdFor slot

/-- `filter_adapter_cohort`: the requests that may join, and the queue with the rest. -/
def filterAdapterCohort (lanes : Lanes Device Grammar) (adapterIdFor : Int → UInt64)
    (pending newReqs : List InferenceRequest) : List InferenceRequest × List InferenceRequest :=
  (newReqs.filter (lanes.joins adapterIdFor newReqs),
    insertFrom 0 pending (newReqs.filter fun r => !lanes.joins adapterIdFor newReqs r))

/-- One more than `seq_len`: the last token is still to be fed. -/
def Lanes.demands (lanes : Lanes Device Grammar) : List SeqDemand :=
  lanes.active.map (fun a => ⟨a.seq.seqLen + 1, a.remaining⟩) ++
    lanes.prefilling.map (fun p => ⟨p.promptTokens.length, p.maxTokens⟩) ++
    lanes.swapped.map (fun s => ⟨s.seqLen + 1, s.remaining⟩) ++
    lanes.preempted.map (fun p => ⟨p.tokens.length + 1, p.a.remaining⟩)

structure GateResult where
  admitted : List InferenceRequest
  pending : List InferenceRequest
  /-- The first request was let in although it does not fit. -/
  forced : Bool
deriving DecidableEq

def gateAdmissions (lanes : Lanes Device Grammar) (adapterIdFor : Int → UInt64) (totalBlocks : Nat)
    (params : AdmitParams) (pending newReqs : List InferenceRequest) : GateResult :=
  let filtered := filterAdapterCohort lanes adapterIdFor pending newReqs
  if totalBlocks = 0 then ⟨filtered.1, filtered.2, false⟩
  else
    let count := admitCount totalBlocks (committedBlocks lanes.demands params)
      (filtered.1.map InferenceRequest.demand) params
    ⟨filtered.1.take count.1, insertFrom 0 filtered.2 (filtered.1.drop count.1), count.2⟩

/-! ## One call -/

theorem insertIdx_length (before pending : List InferenceRequest) (req : InferenceRequest) :
    (before ++ pending).insertIdx before.length req = before ++ req :: pending := by
  induction before with
  | nil => rfl
  | cons first before ih =>
    rw [List.cons_append, List.length_cons, List.insertIdx_succ_cons, ih]
    rfl

theorem insertFrom_append (before pending reqs : List InferenceRequest) :
    insertFrom before.length (before ++ pending) reqs = before ++ reqs ++ pending := by
  induction reqs generalizing before with
  | nil => simp [insertFrom]
  | cons req reqs ih =>
    have longer := ih (before ++ [req])
    rw [List.length_append, List.append_assoc] at longer
    rw [insertFrom, insertIdx_length]
    simpa using longer

theorem insertFrom_zero (pending reqs : List InferenceRequest) : insertFrom 0 pending reqs = reqs ++ pending :=
  insertFrom_append [] pending reqs

/-- The first `count` of the requests, and no more, are admitted beside `used` blocks. -/
structure Admits (totalBlocks used count : Nat) (reqs : List SeqDemand) (params : AdmitParams) : Prop where
  fits : totalBlocks < usizeMax → count ≠ 0 → used + committedBlocks (reqs.take count) params ≤ totalBlocks
  stops : ∀ next, reqs[count]? = some next →
    totalBlocks < used + committedBlocks (reqs.take count) params + seqCommitmentBlocks next params

theorem committedBlocks_cons (d : SeqDemand) (demands : List SeqDemand) (params : AdmitParams) :
    committedBlocks (d :: demands) params = seqCommitmentBlocks d params + committedBlocks demands params := rfl

/-- The loop goes on from `n` admitted requests to as many more as fit, unless it lets the first in. -/
theorem admitLoop_admits (totalBlocks committed used n : Nat) (reqs : List SeqDemand) (params : AdmitParams)
    (unforced : (admitLoop totalBlocks committed params used n reqs).2 = false) :
    ∃ count, (admitLoop totalBlocks committed params used n reqs).1 = n + count ∧
      Admits totalBlocks used count reqs params := by
  induction reqs generalizing used n with
  | nil => exact ⟨0, rfl, fun _ later => absurd rfl later, fun next found => by simp at found⟩
  | cons req reqs ih =>
    unfold admitLoop at unforced ⊢
    by_cases fits : usizeAdd used (seqCommitmentBlocks req params) ≤ totalBlocks
    · rw [if_pos fits] at unforced ⊢
      obtain ⟨count, counted, admits⟩ := ih _ _ unforced
      refine ⟨count + 1, by omega, fun bounded _ => ?_, fun next found => ?_⟩
      · have one : used + seqCommitmentBlocks req params ≤ totalBlocks := by
          unfold usizeAdd at fits
          omega
        rw [List.take_succ_cons, committedBlocks_cons]
        cases count with
        | zero => exact one
        | succ count =>
          have rest := admits.fits bounded (Nat.succ_ne_zero count)
          omega
      · have misfit := admits.stops next (by simpa using found)
        rw [List.take_succ_cons, committedBlocks_cons]
        omega
    · rw [if_neg fits] at unforced ⊢
      by_cases alone : n = 0 ∧ committed = 0
      · rw [if_pos alone] at unforced
        cases unforced
      · rw [if_neg alone]
        refine ⟨0, rfl, fun _ later => absurd rfl later, fun next found => ?_⟩
        have first : next = req := by simpa using found.symm
        unfold usizeAdd at fits
        simp only [first, List.take_zero, committedBlocks, blockSum, List.map_nil, List.foldr_nil]
        omega

theorem admitCount_admits (totalBlocks committed : Nat) (reqs : List SeqDemand) (params : AdmitParams)
    (unforced : (admitCount totalBlocks committed reqs params).2 = false) :
    Admits totalBlocks committed (admitCount totalBlocks committed reqs params).1 reqs params := by
  obtain ⟨count, counted, admits⟩ := admitLoop_admits totalBlocks committed committed 0 reqs params unforced
  rw [Nat.zero_add] at counted
  rw [admitCount, counted]
  exact admits

theorem admitLoop_unforced (totalBlocks committed used n : Nat) (reqs : List SeqDemand) (params : AdmitParams)
    (later : n ≠ 0) : (admitLoop totalBlocks committed params used n reqs).2 = false := by
  induction reqs generalizing used n with
  | nil => rfl
  | cons req reqs ih =>
    unfold admitLoop
    split
    · exact ih _ _ (Nat.succ_ne_zero n)
    · rw [if_neg fun alone => later alone.1]

theorem admitCount_forced (totalBlocks committed : Nat) (reqs : List SeqDemand) (params : AdmitParams)
    (forced : (admitCount totalBlocks committed reqs params).2 = true) :
    committed = 0 ∧ (admitCount totalBlocks committed reqs params).1 = 1 ∧
      ∃ first, reqs.head? = some first ∧ totalBlocks < seqCommitmentBlocks first params := by
  cases reqs with
  | nil => cases forced
  | cons first reqs =>
    unfold admitCount admitLoop at forced ⊢
    by_cases fits : usizeAdd committed (seqCommitmentBlocks first params) ≤ totalBlocks
    · rw [if_pos fits, admitLoop_unforced _ _ _ _ _ _ (Nat.succ_ne_zero 0)] at forced
      cases forced
    · rw [if_neg fits] at forced ⊢
      by_cases alone : 0 = 0 ∧ committed = 0
      · rw [if_pos alone]
        refine ⟨alone.2, rfl, first, rfl, ?_⟩
        unfold usizeAdd at fits
        omega
      · rw [if_neg alone] at forced
        cases forced

/-- One call: who joins the batch, who of them fits, and what goes back to the queue. -/
structure Gated (lanes : Lanes Device Grammar) (adapterIdFor : Int → UInt64) (totalBlocks : Nat)
    (params : AdmitParams) (pending newReqs : List InferenceRequest) (result : GateResult)
    (overflow : List InferenceRequest) : Prop where
  joined : result.admitted ++ overflow = newReqs.filter (lanes.joins adapterIdFor newReqs)
  heldBack : result.pending =
    overflow ++ (newReqs.filter fun r => !lanes.joins adapterIdFor newReqs r) ++ pending
  fits : result.forced = false → totalBlocks ≠ 0 → totalBlocks < usizeMax → result.admitted ≠ [] →
    committedBlocks lanes.demands params + committedBlocks (result.admitted.map InferenceRequest.demand) params ≤
      totalBlocks
  stops : result.forced = false → ∀ next, overflow.head? = some next →
    totalBlocks < committedBlocks lanes.demands params +
      committedBlocks (result.admitted.map InferenceRequest.demand) params + seqCommitmentBlocks next.demand params
  forced : result.forced = true → committedBlocks lanes.demands params = 0 ∧
    ∃ first, result.admitted = [first] ∧ totalBlocks < seqCommitmentBlocks first.demand params

theorem gateAdmissions_gated (lanes : Lanes Device Grammar) (adapterIdFor : Int → UInt64) (totalBlocks : Nat)
    (params : AdmitParams) (pending newReqs : List InferenceRequest) :
    ∃ overflow, Gated lanes adapterIdFor totalBlocks params pending newReqs
      (gateAdmissions lanes adapterIdFor totalBlocks params pending newReqs) overflow := by
  unfold gateAdmissions filterAdapterCohort
  simp only [insertFrom_zero]
  split
  · rename_i noPool
    exact ⟨[], by simp, by simp, fun _ pool => absurd noPool pool, fun _ next found => by simp at found,
      fun forced => by simp at forced⟩
  · refine ⟨_, List.take_append_drop _ _, by simp, fun unforced _ bounded someone => ?_, fun unforced next found => ?_,
      fun forced => ?_⟩
    · have admits := (admitCount_admits _ _ _ _ unforced).fits bounded
      rw [← List.map_take] at admits
      refine admits fun noOne => someone ?_
      simp only [noOne, List.take_zero]
    · have admits := (admitCount_admits _ _ _ _ unforced).stops next.demand
      rw [← List.map_take] at admits
      refine admits ?_
      rw [List.head?_drop] at found
      rw [List.getElem?_map, found]
      rfl
    · obtain ⟨idle, one, first, found, misfit⟩ := admitCount_forced _ _ _ _ forced
      rw [one]
      generalize newReqs.filter (lanes.joins adapterIdFor newReqs) = joined at found
      cases joined with
      | nil => simp at found
      | cons req joined =>
        simp only [List.map_cons, List.head?_cons, Option.some.injEq] at found
        exact ⟨idle, req, rfl, found ▸ misfit⟩

end Metrale.Scheduler
