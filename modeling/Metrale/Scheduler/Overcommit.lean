import Metrale.Scheduler.Admission

/-! # The pool is never overcommitted

A reservation is made once, at admission.  That it stays large enough is a fact about each way a sequence moves on: its
prefill's end, a decode step, a spill and a requeue and the ways back.  Each leaves what the sequence can come to need
no larger than it was, so the sum over the sequences in flight only grows at the gate, which minds the pool. -/

namespace Metrale.Scheduler

variable {Device Grammar Image : Type*}

inductive SeqInFlight (Device Grammar : Type*) where
  | prefilling (p : PrefillInProgress Device Grammar)
  | active (a : ActiveSeq Device Grammar)
  | swapped (s : SwappedSeq)
  | preempted (p : PreemptedSeq Device Grammar)

namespace SeqInFlight

def demand : SeqInFlight Device Grammar → SeqDemand
  | prefilling p => ⟨p.promptTokens.length, p.maxTokens⟩
  | active a => ⟨a.seq.seqLen + 1, a.remaining⟩
  | swapped s => ⟨s.seqLen + 1, s.remaining⟩
  | preempted p => ⟨p.tokens.length + 1, p.a.remaining⟩

def finished : SeqInFlight Device Grammar → Bool
  | active a => a.finished
  | _ => false

def tokensDue (x : SeqInFlight Device Grammar) : Nat :=
  if x.finished then x.demand.currentTokens - 1 else x.demand.currentTokens

def tokensNeeded (params : AdmitParams) (x : SeqInFlight Device Grammar) : Nat :=
  if x.finished then x.demand.currentTokens - 1 else x.demand.depth params

end SeqInFlight

def Lanes.inFlight (lanes : Lanes Device Grammar) : List (SeqInFlight Device Grammar) :=
  lanes.active.map .active ++ lanes.prefilling.map .prefilling ++ lanes.swapped.map .swapped ++
    lanes.preempted.map .preempted

theorem Lanes.demands_eq (lanes : Lanes Device Grammar) : lanes.demands = lanes.inFlight.map SeqInFlight.demand := by
  simp only [Lanes.demands, Lanes.inFlight, List.map_append, List.map_map]
  rfl

/-- The pool, the served length, and the reservations made with the default watermark. -/
structure KvPool where
  totalBlocks : Nat
  maxSeqLen : Nat
  blockSize : Nat
  hasBlocks : totalBlocks ≠ 0
  counted : totalBlocks < usizeMax

def KvPool.params (pool : KvPool) : AdmitParams :=
  ⟨resolveAdmitWatermark pool.maxSeqLen, pool.maxSeqLen, pool.blockSize⟩

/-! ## One sequence -/

structure Fed (a fed : ActiveSeq Device Grammar) : Prop where
  tokens : fed.seq.tokens = a.seq.tokens ++ [a.lastToken]
  seqLen : fed.seq.seqLen = a.seq.seqLen + 1
  rest : fed = { a with seq := fed.seq }

/-- How a sequence moves on.  A decode step is plain, its token is counted, and at the ceiling a stop token or a
`</tool_call>` ends the sequence. -/
inductive SeqStep (Image : Type*) [DeviceImage Device Image] [GrammarState Grammar] (pool : KvPool) :
    SeqInFlight Device Grammar → SeqInFlight Device Grammar → Prop where
  | prefill (p : PrefillInProgress Device Grammar) (seq : SequenceState Device) :
    SeqStep Image pool (.prefilling p) (.prefilling { p with seq })
  | promote (p : PrefillInProgress Device Grammar) (route : FirstTokenRoute) (first : Token) (tags : TagTokens)
    (answers : RequestAnswers) (now cachedPromptTokens ringSlots : Nat) (tokens : p.seq.tokens = p.promptTokens)
    (seqLen : p.seq.seqLen = p.promptTokens.length)
    (budgeted : p.spontaneousThink first tags = true → p.maxTokens ≠ 0) :
    SeqStep Image pool (.prefilling p)
      (.active (p.buildActiveSeq route first tags answers now cachedPromptTokens ringSlots))
  | decode (a fed : ActiveSeq Device Grammar) (tok : Token) (logprobs : Option TokenLogprobs) (now : Nat)
    (tags : TagTokens) (sched : SchedCtx) (request : RequestAnswers) (answers : DecodeAnswers)
    (unfinished : a.finished = false) (feeds : Fed a fed) (counts : a.seq.seqLen + 1 < usizeMax)
    (ceiling : sched.limits.maxSeqLen = pool.maxSeqLen) (counted : ¬fed.entersThinking tok tags)
    (ends : seqlenForceStop fed.seq.seqLen pool.maxSeqLen = true →
      tok ∈ a.request.eosTokens ∨ tags.toolCallEnd = some tok →
        (fed.processDecodedToken tok logprobs now tags sched request answers).finished = true) :
    SeqStep Image pool (.active a) (.active (fed.processDecodedToken tok logprobs now tags sched request answers))
  | other {a b : ActiveSeq Device Grammar} (quiet : Quiet a b) : SeqStep Image pool (.active a) (.active b)
  | swapOut (a : ActiveSeq Device Grammar) (swapId : Nat) (unfinished : a.finished = false) :
    SeqStep Image pool (.active a) (.swapped (spillOutSequence a swapId))
  | swapIn (s : SwappedSeq) (image : Image) (answers : ResumeAnswers Device) :
    SeqStep Image pool (.swapped s) (.active (resumeSwappedSeq s image answers))
  | preempt (a : ActiveSeq Device Grammar) (unfinished : a.finished = false) :
    SeqStep Image pool (.active a) (.preempted (preemptRequeue a))
  | resume (p : PreemptedSeq Device Grammar) (answers : ResumeAnswers Device) :
    SeqStep Image pool (.preempted p) (.active (resumePreemptedSeq p answers))

/-- The buffers and the length of a sequence agree, and all but the last token of the output was fed. -/
structure Lengths (tokens outputTokens : List Token) (seqLen : Nat) : Prop where
  tokens : tokens.length = seqLen
  recorded : outputTokens.length ≤ seqLen + 1
  counted : seqLen < usizeMax

def SeqInFlight.Sound (pool : KvPool) : SeqInFlight Device Grammar → Prop
  | prefilling p => p.promptTokens.length < usizeMax ∧ (0 < pool.maxSeqLen → p.promptTokens.length < pool.maxSeqLen)
  | active a =>
    a.seq.seqLen < usizeMax ∧ (a.finished = false → Lengths a.seq.tokens a.outputTokens a.seq.seqLen)
  | swapped s => Lengths s.tokens s.outputTokens s.seqLen
  | preempted p => p.a.finished = false ∧ Lengths p.tokens p.a.outputTokens p.tokens.length

namespace KvPool

variable (pool : KvPool)

theorem depth_eq (d : SeqDemand) : d.depth pool.params =
    if 0 < pool.maxSeqLen then
      min (min (d.currentTokens + d.budgetTokens) usizeMax) (max pool.maxSeqLen d.currentTokens)
    else min (d.currentTokens + d.budgetTokens) usizeMax := by
  simp only [SeqDemand.depth, params, resolveAdmitWatermark, usizeAdd]
  split <;> omega

theorem current_le_depth (d : SeqDemand) (counted : d.currentTokens ≤ usizeMax) :
    d.currentTokens ≤ d.depth pool.params := by
  rw [depth_eq]
  split <;> omega

/-- A reservation shrinks as budget turns into tokens, as long as the sequence stays below the ceiling. -/
theorem depth_anti (d e : SeqDemand) (spent : e.currentTokens + e.budgetTokens ≤ d.currentTokens + d.budgetTokens)
    (below : 0 < pool.maxSeqLen → e.currentTokens ≤ max pool.maxSeqLen d.currentTokens) :
    e.depth pool.params ≤ d.depth pool.params := by
  rw [depth_eq, depth_eq]
  split
  · rename_i ceiling
    have below := below ceiling
    omega
  · omega

end KvPool

variable {pool : KvPool} {x y : SeqInFlight Device Grammar}

theorem SeqInFlight.Sound.counted (sound : x.Sound pool) :
    x.demand.currentTokens ≤ usizeMax := by
  cases x with
  | prefilling p => exact Nat.le_of_lt sound.1
  | active a => exact sound.1
  | swapped s => exact Lengths.counted sound
  | preempted p => exact sound.2.counted

theorem SeqInFlight.Sound.due_le_needed (sound : x.Sound pool) : x.tokensDue ≤ x.tokensNeeded pool.params := by
  unfold SeqInFlight.tokensDue SeqInFlight.tokensNeeded
  split
  · exact Nat.le_refl _
  · exact pool.current_le_depth x.demand sound.counted

structure Kept (pool : KvPool) (x y : SeqInFlight Device Grammar) : Prop where
  sound : y.Sound pool
  needed : y.tokensNeeded pool.params ≤ x.tokensNeeded pool.params

/-- Between two unfinished sequences, nothing more is reserved as budget turns into tokens. -/
theorem needed_of_demand (started : x.finished = false) (unfinished : y.finished = false)
    (spent : y.demand.currentTokens + y.demand.budgetTokens ≤ x.demand.currentTokens + x.demand.budgetTokens)
    (below : 0 < pool.maxSeqLen → y.demand.currentTokens ≤ max pool.maxSeqLen x.demand.currentTokens) :
    y.tokensNeeded pool.params ≤ x.tokensNeeded pool.params := by
  unfold SeqInFlight.tokensNeeded
  rw [started, unfinished]
  exact pool.depth_anti _ _ spent below

theorem needed_of_finished (started : x.finished = false) (finished : y.finished = true)
    (counted : x.demand.currentTokens ≤ usizeMax) (reached : y.demand.currentTokens ≤ x.demand.currentTokens + 1) :
    y.tokensNeeded pool.params ≤ x.tokensNeeded pool.params := by
  have reserved := pool.current_le_depth x.demand counted
  unfold SeqInFlight.tokensNeeded
  rw [started, finished]
  simp only [if_true, Bool.false_eq_true, if_false]
  omega

section Steps

variable (pool)

theorem promote_kept (p : PrefillInProgress Device Grammar) (route : FirstTokenRoute) (first : Token)
    (tags : TagTokens) (answers : RequestAnswers) (now cachedPromptTokens ringSlots : Nat)
    (tokens : p.seq.tokens = p.promptTokens) (seqLen : p.seq.seqLen = p.promptTokens.length)
    (budgeted : p.spontaneousThink first tags = true → p.maxTokens ≠ 0)
    (sound : SeqInFlight.Sound pool (.prefilling p)) :
    Kept pool (.prefilling p)
      (.active (p.buildActiveSeq route first tags answers now cachedPromptTokens ringSlots)) := by
  obtain ⟨counted, short⟩ := sound
  constructor
  · refine ⟨seqLen ▸ counted, fun _ => ⟨?_, ?_, seqLen ▸ counted⟩⟩
    · exact (congrArg List.length tokens).trans seqLen.symm
    · simp only [PrefillInProgress.buildActiveSeq]
      split <;> simp
  · cases done : p.immediateFinish first tags with
    | true =>
      refine needed_of_finished rfl done (Nat.le_of_lt counted) ?_
      simp only [SeqInFlight.demand, PrefillInProgress.buildActiveSeq, seqLen, Nat.le_refl]
    | false =>
      have positive : p.maxTokens ≠ 0 := by
        intro none
        cases spontaneous : p.spontaneousThink first tags with
        | true => exact budgeted spontaneous none
        | false => simp [PrefillInProgress.immediateFinish, spontaneous, none] at done
      refine needed_of_demand rfl done ?_ fun ceiling => ?_
      · simp only [SeqInFlight.demand, PrefillInProgress.buildActiveSeq, done, wrappingPred, if_neg positive, seqLen,
          Bool.false_eq_true, if_false]
        omega
      · have short := short ceiling
        simp only [SeqInFlight.demand, PrefillInProgress.buildActiveSeq, seqLen]
        omega

variable [GrammarState Grammar]

theorem decode_kept (a fed : ActiveSeq Device Grammar) (tok : Token) (logprobs : Option TokenLogprobs) (now : Nat)
    (tags : TagTokens) (sched : SchedCtx) (request : RequestAnswers) (answers : DecodeAnswers)
    (unfinished : a.finished = false) (feeds : Fed a fed) (counts : a.seq.seqLen + 1 < usizeMax)
    (ceiling : sched.limits.maxSeqLen = pool.maxSeqLen) (counted : ¬fed.entersThinking tok tags)
    (ends : seqlenForceStop fed.seq.seqLen pool.maxSeqLen = true →
      tok ∈ a.request.eosTokens ∨ tags.toolCallEnd = some tok →
        (fed.processDecodedToken tok logprobs now tags sched request answers).finished = true)
    (sound : SeqInFlight.Sound pool (.active a)) :
    Kept pool (.active a) (.active (fed.processDecodedToken tok logprobs now tags sched request answers)) := by
  obtain ⟨tokens, recorded, -⟩ := sound.2 unfinished
  obtain ⟨fedTokens, fedLen, rest⟩ := feeds
  have sameOutput : fed.outputTokens = a.outputTokens := by rw [rest]
  have sameBudget : fed.remaining = a.remaining := by rw [rest]
  have sameRequest : fed.request = a.request := by rw [rest]
  have start : Within (a.seq.seqLen + 1) (a.seq.seqLen + a.remaining + 1) 0 fed := by
    refine ⟨fedLen.le, fun _ => ⟨?_, ?_, ?_⟩⟩
    · rw [fedTokens, fedLen, List.length_append, tokens]
      rfl
    · rw [sameOutput, fedLen]
      exact recorded
    · rw [sameBudget, fedLen]
      omega
  have within := processDecodedToken_within start tok logprobs now tags sched request answers counted
  have below : BelowCeiling pool.maxSeqLen
      (fed.processDecodedToken tok logprobs now tags sched request answers) := by
    intro live
    cases reaches : seqlenForceStop fed.seq.seqLen pool.maxSeqLen with
    | false => exact seqlenForceStop_mono (fedLen ▸ within.reached) reaches
    | true =>
      have goesOn : ¬(tok ∈ fed.request.eosTokens ∨ tags.toolCallEnd = some tok) := by
        intro stops
        rw [sameRequest] at stops
        exact Bool.false_ne_true (live.symm.trans (ends reaches stops))
      exact ceiling ▸ processDecodedToken_below tok logprobs now tags sched request answers counted
        (fun stop => goesOn (.inl stop)) (fun toolEnd => goesOn (.inr toolEnd)) live
  generalize fed.processDecodedToken tok logprobs now tags sched request answers = b at within below
  constructor
  · refine ⟨Nat.lt_of_le_of_lt within.reached counts, fun live => ?_⟩
    have funded := within.live live
    exact ⟨funded.tokens, funded.recorded, Nat.lt_of_le_of_lt within.reached counts⟩
  · cases done : b.finished with
    | true =>
      refine needed_of_finished unfinished done (Nat.le_of_lt counts) ?_
      exact Nat.add_le_add_right within.reached 1
    | false =>
      have funded := (within.live done).funded
      refine needed_of_demand unfinished done ?_ fun served => ?_
      · simp only [SeqInFlight.demand]
        omega
      · have short := below done
        simp only [seqlenForceStop, Bool.and_eq_false_iff, bne_eq_false_iff_eq, decide_eq_false_iff_not] at short
        simp only [SeqInFlight.demand]
        omega

omit [GrammarState Grammar] in
theorem other_kept {a b : ActiveSeq Device Grammar} (quiet : Quiet a b) (sound : SeqInFlight.Sound pool (.active a)) :
    Kept pool (.active a) (.active b) := by
  have started (live : b.finished = false) : a.finished = false := by
    cases done : a.finished with
    | false => rfl
    | true => exact (quiet.finished done).symm.trans live
  constructor
  · refine ⟨quiet.seq ▸ sound.1, fun live => ?_⟩
    have lengths := sound.2 (started live)
    rw [quiet.seq, quiet.outputTokens]
    exact lengths
  · have sameLen : b.seq.seqLen = a.seq.seqLen := congrArg SequenceState.seqLen quiet.seq
    cases ended : b.finished with
    | false =>
      refine needed_of_demand (started ended) ended ?_ fun _ => ?_
      · have spent := quiet.remaining
        simp only [SeqInFlight.demand]
        omega
      · simp only [SeqInFlight.demand]
        omega
    | true =>
      cases done : a.finished with
      | false =>
        refine needed_of_finished done ended sound.1 ?_
        simp only [SeqInFlight.demand]
        omega
      | true => simp [SeqInFlight.tokensNeeded, SeqInFlight.finished, SeqInFlight.demand, done, ended, sameLen]

end Steps

theorem SeqStep.kept [DeviceImage Device Image] [GrammarState Grammar] (step : SeqStep Image pool x y)
    (sound : x.Sound pool) : Kept pool x y := by
  cases step with
  | prefill p seq => exact ⟨sound, Nat.le_refl _⟩
  | promote p route first tags answers now cachedPromptTokens ringSlots tokens seqLen budgeted =>
    exact promote_kept pool p route first tags answers now cachedPromptTokens ringSlots tokens seqLen budgeted sound
  | decode a fed tok logprobs now tags sched request answers unfinished feeds counts ceiling counted ends =>
    exact decode_kept pool a fed tok logprobs now tags sched request answers unfinished feeds counts ceiling counted
      ends sound
  | other quiet => exact other_kept pool quiet sound
  | swapOut a swapId unfinished =>
    exact ⟨sound.2 unfinished, needed_of_demand unfinished rfl (Nat.le_refl _) fun _ => le_max_right _ _⟩
  | swapIn s image answers =>
    exact ⟨⟨Lengths.counted sound, fun _ => sound⟩,
      needed_of_demand rfl rfl (Nat.le_refl _) fun _ => le_max_right _ _⟩
  | preempt a unfinished =>
    have lengths := sound.2 unfinished
    have sameLen := lengths.tokens
    refine ⟨⟨unfinished, rfl, ?_, ?_⟩, needed_of_demand unfinished rfl ?_ fun _ => ?_⟩
    · exact sameLen ▸ lengths.recorded
    · exact sameLen ▸ lengths.counted
    · simp only [SeqInFlight.demand, preemptRequeue, sameLen, Nat.le_refl]
    · simp only [SeqInFlight.demand, preemptRequeue, sameLen, le_max_right]
  | resume p answers =>
    obtain ⟨unfinished, lengths⟩ := sound
    exact ⟨⟨lengths.counted, fun _ => lengths⟩,
      needed_of_demand rfl unfinished (Nat.le_refl _) fun _ => le_max_right _ _⟩

/-! ## All sequences -/

def blocksNeeded (pool : KvPool) (x : SeqInFlight Device Grammar) : Nat :=
  blocksForTokens (x.tokensNeeded pool.params) pool.blockSize

def blocksDue (pool : KvPool) (x : SeqInFlight Device Grammar) : Nat := blocksForTokens x.tokensDue pool.blockSize

def Lanes.empty : Lanes Device Grammar := ⟨[], [], [], []⟩

structure Starts (r : InferenceRequest) (p : PrefillInProgress Device Grammar) : Prop where
  promptTokens : p.promptTokens = r.promptTokens
  maxTokens : p.maxTokens = r.maxTokens

def InferenceRequest.Served (pool : KvPool) (r : InferenceRequest) : Prop :=
  r.promptTokens.length < usizeMax ∧ (0 < pool.maxSeqLen → r.promptTokens.length < pool.maxSeqLen)

/-- A tick gates new requests, a sequence moves on, or one leaves.  Where in its list a sequence stands is left open. -/
inductive LanesStep (Image : Type*) [DeviceImage Device Image] [GrammarState Grammar] (pool : KvPool)
    (adapterIdFor : Int → UInt64) : Lanes Device Grammar → Lanes Device Grammar → Prop where
  | gate (lanes after : Lanes Device Grammar) (pending newReqs : List InferenceRequest)
    (started : List (PrefillInProgress Device Grammar)) (served : ∀ r ∈ newReqs, r.Served pool)
    (unforced :
      (gateAdmissions lanes adapterIdFor pool.totalBlocks pool.params pending newReqs).forced = false)
    (starts : List.Forall₂ Starts
      (gateAdmissions lanes adapterIdFor pool.totalBlocks pool.params pending newReqs).admitted started)
    (joined : after.inFlight.Perm (lanes.inFlight ++ started.map .prefilling)) :
    LanesStep Image pool adapterIdFor lanes after
  | advance (lanes after : Lanes Device Grammar) (x y : SeqInFlight Device Grammar)
    (others : List (SeqInFlight Device Grammar)) (step : SeqStep Image pool x y)
    (before : lanes.inFlight.Perm (x :: others)) (moved : after.inFlight.Perm (y :: others)) :
    LanesStep Image pool adapterIdFor lanes after
  | leave (lanes after : Lanes Device Grammar) (x : SeqInFlight Device Grammar)
    (left : lanes.inFlight.Perm (x :: after.inFlight)) : LanesStep Image pool adapterIdFor lanes after

theorem blocksForTokens_mono {few many : Nat} (less : few ≤ many) (blockSize : Nat) :
    blocksForTokens few blockSize ≤ blocksForTokens many blockSize :=
  Nat.succ_le_succ (Nat.div_le_div_right less)

theorem blockSum_perm {left right : List Nat} (same : left.Perm right) : blockSum left = blockSum right := by
  refine same.foldr_eq' (fun x _ y _ z => ?_) 0
  omega

theorem blockSum_append (left right : List Nat) : blockSum (left ++ right) = blockSum left + blockSum right := by
  induction left with
  | nil => simp [blockSum]
  | cons first left ih =>
    simp only [blockSum, List.cons_append, List.foldr_cons] at ih ⊢
    omega

theorem blockSum_le {X Y : Type*} {few : X → Nat} {many : Y → Nat} {xs : List X} {ys : List Y}
    (less : List.Forall₂ (fun x y => few x ≤ many y) xs ys) : blockSum (xs.map few) ≤ blockSum (ys.map many) := by
  induction less with
  | nil => exact Nat.le_refl _
  | cons first _ ih =>
    simp only [blockSum, List.map_cons, List.foldr_cons] at ih ⊢
    omega

/-- Every sequence is sound, and the pool can hold what all of them may come to need. -/
structure Lanes.Covered (pool : KvPool) (lanes : Lanes Device Grammar) : Prop where
  sound : ∀ x ∈ lanes.inFlight, x.Sound pool
  enough : blockSum (lanes.inFlight.map (blocksNeeded pool)) ≤ pool.totalBlocks

theorem Starts.needed {r : InferenceRequest} {p : PrefillInProgress Device Grammar} (starts : Starts r p) :
    blocksNeeded pool (.prefilling p : SeqInFlight Device Grammar) = seqCommitmentBlocks r.demand pool.params := by
  simp only [blocksNeeded, SeqInFlight.tokensNeeded, SeqInFlight.finished, SeqInFlight.demand, seqCommitmentBlocks,
    InferenceRequest.demand, starts.promptTokens, starts.maxTokens]
  rfl

/-- The gate's own count of what is in flight is no smaller: it takes no notice of a sequence being over. -/
theorem SeqInFlight.Sound.needed_le_committed (sound : x.Sound pool) :
    blocksNeeded pool x ≤ seqCommitmentBlocks x.demand pool.params := by
  refine blocksForTokens_mono ?_ _
  unfold SeqInFlight.tokensNeeded
  split
  · exact (Nat.sub_le _ _).trans (pool.current_le_depth _ sound.counted)
  · exact Nat.le_refl _

theorem Starts.blockSum {reqs : List InferenceRequest} {started : List (PrefillInProgress Device Grammar)}
    (starts : List.Forall₂ Starts reqs started) :
    blockSum (started.map fun p => blocksNeeded pool (.prefilling p : SeqInFlight Device Grammar)) =
      committedBlocks (reqs.map InferenceRequest.demand) pool.params := by
  induction starts with
  | nil => rfl
  | cons first _ ih =>
    rw [List.map_cons, List.map_cons, committedBlocks_cons, ← first.needed, ← ih]
    rfl

namespace Lanes.Covered

variable {lanes after : Lanes Device Grammar}

theorem empty : (Lanes.empty : Lanes Device Grammar).Covered pool :=
  ⟨fun _ inside => absurd inside List.not_mem_nil, Nat.zero_le _⟩

/-- The sequences in flight are at most those of a list the pool covers, in any order. -/
theorem ofPerm {others : List (SeqInFlight Device Grammar)} (same : lanes.inFlight.Perm others)
    (sound : ∀ x ∈ others, x.Sound pool) (enough : blockSum (others.map (blocksNeeded pool)) ≤ pool.totalBlocks) :
    lanes.Covered pool where
  sound x inside := sound x (same.subset inside)
  enough := (blockSum_perm (same.map _)).le.trans enough

theorem started_sound {reqs : List InferenceRequest} {started : List (PrefillInProgress Device Grammar)}
    (starts : List.Forall₂ Starts reqs started) (served : ∀ r ∈ reqs, r.Served pool) :
    ∀ p ∈ started, SeqInFlight.Sound pool (.prefilling p) := by
  induction starts with
  | nil => exact fun p inside => absurd inside List.not_mem_nil
  | cons first _ ih =>
    intro p inside
    cases inside with
    | head =>
      have taken := served _ List.mem_cons_self
      simpa only [SeqInFlight.Sound, InferenceRequest.Served, first.promptTokens] using taken
    | tail _ inside => exact ih (fun r member => served r (List.mem_cons_of_mem _ member)) p inside

theorem gate (covered : lanes.Covered pool) (adapterIdFor : Int → UInt64) (pending newReqs : List InferenceRequest)
    (started : List (PrefillInProgress Device Grammar)) (served : ∀ r ∈ newReqs, r.Served pool)
    (unforced :
      (gateAdmissions lanes adapterIdFor pool.totalBlocks pool.params pending newReqs).forced = false)
    (starts : List.Forall₂ Starts
      (gateAdmissions lanes adapterIdFor pool.totalBlocks pool.params pending newReqs).admitted started)
    (joined : after.inFlight.Perm (lanes.inFlight ++ started.map .prefilling)) : after.Covered pool := by
  obtain ⟨overflow, gated⟩ := gateAdmissions_gated lanes adapterIdFor pool.totalBlocks pool.params pending newReqs
  generalize gateAdmissions lanes adapterIdFor pool.totalBlocks pool.params pending newReqs = result at *
  have admittedServed : ∀ r ∈ result.admitted, r.Served pool := fun r inside =>
    served r (List.mem_of_mem_filter (gated.joined ▸ List.mem_append_left overflow inside))
  refine ofPerm joined (fun x inside => ?_) ?_
  · cases List.mem_append.mp inside with
    | inl old => exact covered.sound x old
    | inr new =>
      obtain ⟨p, member, rfl⟩ := List.mem_map.mp new
      exact started_sound starts admittedServed p member
  · rw [List.map_append, blockSum_append, List.map_map]
    have new : blockSum (started.map fun p => blocksNeeded pool (.prefilling p : SeqInFlight Device Grammar)) =
        committedBlocks (result.admitted.map InferenceRequest.demand) pool.params := Starts.blockSum starts
    have old : blockSum (lanes.inFlight.map (blocksNeeded pool)) ≤ committedBlocks lanes.demands pool.params := by
      rw [committedBlocks, Lanes.demands_eq, List.map_map]
      refine blockSum_le (List.forall₂_same.mpr fun x inside => ?_)
      exact (covered.sound x inside).needed_le_committed
    cases someone : result.admitted with
    | nil =>
      rw [someone] at new
      have enough := covered.enough
      have none : committedBlocks ([].map InferenceRequest.demand) pool.params = 0 := rfl
      simp only [Function.comp_def] at new ⊢
      omega
    | cons first rest =>
      have fits := gated.fits unforced pool.hasBlocks pool.counted (by rw [someone]; exact List.cons_ne_nil _ _)
      simp only [Function.comp_def] at new ⊢
      omega

theorem advance [DeviceImage Device Image] [GrammarState Grammar] (covered : lanes.Covered pool)
    {others : List (SeqInFlight Device Grammar)} (step : SeqStep Image pool x y)
    (before : lanes.inFlight.Perm (x :: others)) (moved : after.inFlight.Perm (y :: others)) : after.Covered pool := by
  have kept := step.kept (covered.sound x (before.symm.subset List.mem_cons_self))
  refine ofPerm moved (fun z inside => ?_) ?_
  · cases inside with
    | head => exact kept.sound
    | tail _ inside => exact covered.sound z (before.symm.subset (List.mem_cons_of_mem _ inside))
  · have enough := covered.enough
    rw [blockSum_perm (before.map _)] at enough
    have less : blocksNeeded pool y ≤ blocksNeeded pool x := blocksForTokens_mono kept.needed _
    simp only [blockSum, List.map_cons, List.foldr_cons] at enough ⊢
    omega

theorem leave (covered : lanes.Covered pool) (left : lanes.inFlight.Perm (x :: after.inFlight)) :
    after.Covered pool where
  sound y inside := covered.sound y (left.symm.subset (List.mem_cons_of_mem _ inside))
  enough := by
    have enough := covered.enough
    rw [blockSum_perm (left.map _)] at enough
    simp only [blockSum, List.map_cons, List.foldr_cons] at enough ⊢
    omega

theorem run [DeviceImage Device Image] [GrammarState Grammar] {adapterIdFor : Int → UInt64}
    (steps : Relation.ReflTransGen (LanesStep Image pool adapterIdFor) .empty lanes) : lanes.Covered pool := by
  induction steps with
  | refl => exact empty
  | tail _ step covered =>
    cases step with
    | gate pending newReqs started served unforced starts joined =>
      exact covered.gate adapterIdFor pending newReqs started served unforced starts joined
    | advance x y others step before moved => exact covered.advance step before moved
    | leave x left => exact covered.leave left

end Lanes.Covered

theorem SeqStep.run_kept [DeviceImage Device Image] [GrammarState Grammar]
    (steps : Relation.ReflTransGen (SeqStep Image pool) x y) (sound : x.Sound pool) : Kept pool x y := by
  induction steps with
  | refl => exact ⟨sound, Nat.le_refl _⟩
  | tail _ step kept =>
    have last := step.kept kept.sound
    exact ⟨last.sound, last.needed.trans kept.needed⟩

theorem futures_within [DeviceImage Device Image] [GrammarState Grammar] {now futures : List (SeqInFlight Device Grammar)}
    (reached : List.Forall₂ (Relation.ReflTransGen (SeqStep Image pool)) now futures)
    (sound : ∀ x ∈ now, x.Sound pool) :
    blockSum (futures.map (blocksDue pool)) ≤ blockSum (now.map (blocksNeeded pool)) := by
  refine blockSum_le ?_
  induction reached with
  | nil => exact .nil
  | cons steps _ ih =>
    refine .cons ?_ (ih fun x inside => sound x (List.mem_cons_of_mem _ inside))
    have kept := SeqStep.run_kept steps (sound _ List.mem_cons_self)
    exact blocksForTokens_mono (kept.sound.due_le_needed.trans kept.needed) _

/-- What the gate promises of one call: those let in and those held back are the new requests.  Those let in keep their
order, then come those that do not fit, then those of another adapter, each in their order, and nobody passes the first
that does not fit. -/
structure KeepsOrder (lanes : Lanes Device Grammar) (adapterIdFor : Int → UInt64) (totalBlocks : Nat)
    (params : AdmitParams) (pending newReqs : List InferenceRequest) (result : GateResult)
    (overflow deferred : List InferenceRequest) : Prop where
  heldBack : result.pending = overflow ++ deferred ++ pending
  same : (result.admitted ++ (overflow ++ deferred)).Perm newReqs
  inOrder : (result.admitted ++ overflow).Sublist newReqs
  deferredInOrder : deferred.Sublist newReqs
  sameAdapter : ∀ r ∈ result.admitted ++ overflow, lanes.joins adapterIdFor newReqs r = true
  otherAdapter : ∀ r ∈ deferred, lanes.joins adapterIdFor newReqs r = false
  stops : result.forced = false → ∀ next, overflow.head? = some next →
    totalBlocks < committedBlocks lanes.demands params +
      committedBlocks (result.admitted.map InferenceRequest.demand) params + seqCommitmentBlocks next.demand params
  forced : result.forced = true → committedBlocks lanes.demands params = 0 ∧
    ∃ first, result.admitted = [first] ∧ totalBlocks < seqCommitmentBlocks first.demand params

theorem Gated.keepsOrder {lanes : Lanes Device Grammar} {adapterIdFor : Int → UInt64} {totalBlocks : Nat}
    {params : AdmitParams} {pending newReqs : List InferenceRequest} {result : GateResult}
    {overflow : List InferenceRequest}
    (gated : Gated lanes adapterIdFor totalBlocks params pending newReqs result overflow) :
    KeepsOrder lanes adapterIdFor totalBlocks params pending newReqs result overflow
      (newReqs.filter fun r => !lanes.joins adapterIdFor newReqs r) where
  heldBack := gated.heldBack
  same := by
    rw [← List.append_assoc, gated.joined]
    exact List.filter_append_perm _ newReqs
  inOrder := gated.joined ▸ List.filter_sublist
  deferredInOrder := List.filter_sublist
  sameAdapter r inside := by
    rw [gated.joined] at inside
    exact List.of_mem_filter inside
  otherAdapter r inside := by simpa using List.of_mem_filter inside
  stops := gated.stops
  forced := gated.forced

def InferenceRequest.short (adapterSlot : Int) (maxTokens : Nat) : InferenceRequest := ⟨[9], maxTokens, adapterSlot⟩

end Metrale.Scheduler
