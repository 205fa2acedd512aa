import Mathlib

/-! # D-Cut (`mtp_dcut.rs`)

A verify batch has a budget of rows, and each draft costs one.  The first draft of every sequence is kept; of the
deeper ones those are, over the whole batch, that survive most probably.  The score of a draft is the sum of the
log-probabilities up to it, so that it does not rise along a chain, and the best drafts are a prefix of each chain.

Scores are floats without a NaN: a total preorder, with an addition that does not raise a score by a log-probability. -/

namespace Metrale.Scheduler

/-- `VERIFY_ROW_CAP` -/
def verifyRowBudget : Nat := 256

/-- `VERIFY_WY_TABLE_SEQS` -/
def widthCap : Nat := 128

section Select

variable {Score : Type*} [Preorder Score] [DecidableLE Score] [Add Score] [Zero Score]

structure RankedDraft (Score : Type*) where
  score : Score
  sequence : Nat
  depth : Nat

/-- The accumulator behind the draft at `depth`; what was not measured counts as certain. -/
def survival (conf : List Score) : Nat → Score
  | 0 => 0 + conf.getD 0 0
  | depth + 1 => survival conf depth + conf.getD (depth + 1) 0

def rankedDrafts (confs : List (List Score)) (kDrafts : Nat) : List (RankedDraft Score) :=
  confs.zipIdx.flatMap fun row =>
    (List.range' 1 (kDrafts - 1)).map fun depth => ⟨survival row.1 depth, row.2, depth⟩

/-- The comparison of the sort: descending by score, then by sequence and depth. -/
def RankedDraft.before (a b : RankedDraft Score) : Bool :=
  if b.score ≤ a.score ∧ ¬ a.score ≤ b.score then true
  else if a.score ≤ b.score ∧ ¬ b.score ≤ a.score then false
  else decide (a.sequence < b.sequence) || (a.sequence == b.sequence && decide (a.depth ≤ b.depth))

def retain (retained : List Nat) (draft : RankedDraft Score) : List Nat :=
  retained.modify draft.sequence fun deepest => max deepest (draft.depth + 1)

/-- `select`; `byRatio` rounds the retention ratio's share of the drafts that may be pruned. -/
def select (confs : List (List Score)) (kDrafts rowBudget : Nat) (byRatio : Nat → Nat) : List Nat :=
  let n := confs.length
  let retained := List.replicate n (min 1 kDrafts)
  if kDrafts ≤ 1 ∨ n = 0 then retained
  else
    let prunable := n * (kDrafts - 1)
    let ranked := (rankedDrafts confs kDrafts).mergeSort RankedDraft.before
    let keep := min (min (byRatio prunable) (rowBudget - 2 * n)) prunable
    (ranked.take keep).foldl retain retained

end Select

/-! ## Chunks -/

/-- How many row counts fit behind the `taken` that a chunk has. -/
def fillChunk (seqCap : Nat) : Nat → Nat → List Nat → Nat
  | taken, _, [] => taken
  | taken, rows, k :: ks =>
    if taken < seqCap ∧ rows + k ≤ verifyRowBudget then fillChunk seqCap (taken + 1) (rows + k) ks else taken

/-- The loop of `chunk_ranges` from `lo`; no range is empty, so that each costs one of the fuel. -/
def chunkRangesFrom : Nat → Nat → List Nat → List (Nat × Nat)
  | fuel + 1, lo, k :: ks =>
    let seqCap := min (verifyRowBudget / max k 1) widthCap
    let taken := max (fillChunk seqCap 0 0 (k :: ks)) 1
    (lo, lo + taken) :: chunkRangesFrom fuel (lo + taken) ((k :: ks).drop taken)
  | _, _, _ => []

def chunkRanges (ks : List Nat) : List (Nat × Nat) := chunkRangesFrom ks.length 0 ks

/-! ## The comparison -/

/-- What floats without a NaN promise, where `c ≤ 0` is a log-probability. -/
structure ScoreLaws (Score : Type*) [Preorder Score] [Add Score] [Zero Score] : Prop where
  total : ∀ a b : Score, a ≤ b ∨ b ≤ a
  shrinks : ∀ acc c : Score, c ≤ 0 → acc + c ≤ acc

section Comparison

variable {Score : Type*} [Preorder Score] [DecidableLE Score] {a b c : RankedDraft Score}

def RankedDraft.Earlier (a b : RankedDraft Score) : Prop :=
  a.sequence < b.sequence ∨ a.sequence = b.sequence ∧ a.depth ≤ b.depth

theorem before_iff (total : ∀ a b : Score, a ≤ b ∨ b ≤ a) :
    a.before b = true ↔ b.score ≤ a.score ∧ (a.score ≤ b.score → a.Earlier b) := by
  unfold RankedDraft.before RankedDraft.Earlier
  split
  · next higher => simp [higher.1, higher.2]
  split
  · next higher lower => simp [lower.2]
  · next notHigher notLower =>
    have equal : b.score ≤ a.score ∧ a.score ≤ b.score := by
      cases total a.score b.score with
      | inl below => exact ⟨by_contra fun strict => notLower ⟨below, strict⟩, below⟩
      | inr above => exact ⟨above, by_contra fun strict => notHigher ⟨above, strict⟩⟩
    simp [equal.1, equal.2]

theorem before_trans (total : ∀ a b : Score, a ≤ b ∨ b ≤ a) (first : a.before b = true) (second : b.before c = true) :
    a.before c = true := by
  rw [before_iff total] at *
  obtain ⟨below, tie⟩ := first
  obtain ⟨lower, tied⟩ := second
  refine ⟨lower.trans below, fun equal => ?_⟩
  have atB := tie (equal.trans lower)
  have atC := tied (below.trans equal)
  unfold RankedDraft.Earlier at *
  omega

theorem before_total (total : ∀ a b : Score, a ≤ b ∨ b ≤ a) (a b : RankedDraft Score) :
    (a.before b || b.before a) = true := by
  rw [Bool.or_eq_true, before_iff total, before_iff total]
  have earlier : a.Earlier b ∨ b.Earlier a := by
    unfold RankedDraft.Earlier
    omega
  by_cases below : a.score ≤ b.score
  · by_cases above : b.score ≤ a.score
    · exact earlier.imp (fun first => ⟨above, fun _ => first⟩) fun first => ⟨below, fun _ => first⟩
    · exact .inr ⟨below, fun other => absurd other above⟩
  · exact .inl ⟨(total _ _).resolve_left below, fun other => absurd other below⟩

end Comparison

/-! ## The selection -/

section Selection

variable {Score : Type*} [Preorder Score] [DecidableLE Score] [Add Score] [Zero Score]
  {confs : List (List Score)} {conf : List Score} {kDrafts keep : Nat} {draft : RankedDraft Score}

omit [DecidableLE Score] in
theorem survival_antitone (laws : ScoreLaws Score) (logs : ∀ c ∈ conf, c ≤ 0) {shallow deep : Nat} (less : shallow ≤ deep) :
    survival conf deep ≤ survival conf shallow := by
  induction deep, less using Nat.le_induction with
  | base => exact le_refl _
  | succ deep _ ih =>
    refine (laws.shrinks _ _ ?_).trans ih
    rw [List.getD_eq_getElem?_getD]
    cases measured : conf[deep + 1]? with
    | none => exact le_refl _
    | some c => exact logs c (List.mem_of_getElem? measured)

omit [Preorder Score] [DecidableLE Score] in
theorem mem_rankedDrafts : draft ∈ rankedDrafts confs kDrafts ↔ ∃ conf, confs[draft.sequence]? = some conf ∧
    draft.score = survival conf draft.depth ∧ 1 ≤ draft.depth ∧ draft.depth < kDrafts := by
  simp only [rankedDrafts, List.mem_flatMap, List.mem_map, List.mem_range'_1]
  constructor
  · rintro ⟨⟨conf, sequence⟩, row, depth, within, rfl⟩
    exact ⟨conf, List.mem_zipIdx_iff_getElem?.mp row, rfl, within.1, show depth < kDrafts by omega⟩
  · rintro ⟨conf, row, score, some, within⟩
    refine ⟨(conf, draft.sequence), List.mem_zipIdx_iff_getElem?.mpr row, draft.depth, ⟨some, by omega⟩, ?_⟩
    rw [← score]

def keptDrafts (confs : List (List Score)) (kDrafts keep : Nat) : List (RankedDraft Score) :=
  ((rankedDrafts confs kDrafts).mergeSort RankedDraft.before).take keep

theorem mem_keptDrafts (kept : draft ∈ keptDrafts confs kDrafts keep) : draft ∈ rankedDrafts confs kDrafts :=
  List.mem_mergeSort.mp (List.mem_of_mem_take kept)

theorem before_of_dropped (laws : ScoreLaws Score) {dropped : RankedDraft Score} (kept : draft ∈ keptDrafts confs kDrafts keep)
    (ranked : dropped ∈ rankedDrafts confs kDrafts) (left : dropped ∉ keptDrafts confs kDrafts keep) :
    draft.before dropped = true := by
  have sorted := @List.pairwise_mergeSort _ RankedDraft.before (fun _ _ _ => before_trans laws.total)
    (before_total laws.total) (rankedDrafts confs kDrafts)
  rw [← List.take_append_drop keep (List.mergeSort _ _), List.pairwise_append] at sorted
  refine sorted.2.2 draft kept dropped ?_
  have all : dropped ∈ (rankedDrafts confs kDrafts).mergeSort RankedDraft.before := List.mem_mergeSort.mpr ranked
  rw [← List.take_append_drop keep (List.mergeSort _ _), List.mem_append] at all
  exact all.resolve_left left

theorem kept_shallower (laws : ScoreLaws Score) (logs : ∀ conf ∈ confs, ∀ c ∈ conf, c ≤ 0)
    (kept : draft ∈ keptDrafts confs kDrafts keep) {depth : Nat} (some : 1 ≤ depth) (less : depth ≤ draft.depth) :
    ∃ shallower ∈ keptDrafts confs kDrafts keep, shallower.sequence = draft.sequence ∧ shallower.depth = depth := by
  obtain ⟨conf, row, score, positive, within⟩ := mem_rankedDrafts.mp (mem_keptDrafts kept)
  have ranked : ⟨survival conf depth, draft.sequence, depth⟩ ∈ rankedDrafts confs kDrafts :=
    mem_rankedDrafts.mpr ⟨conf, row, rfl, some, by simp only; omega⟩
  refine ⟨⟨survival conf depth, draft.sequence, depth⟩, by_contra fun left => ?_, rfl, rfl⟩
  have lower : draft.score ≤ survival conf depth := score ▸ survival_antitone laws (logs conf (List.mem_of_getElem? row)) less
  have earlier := ((before_iff laws.total).mp (before_of_dropped laws kept ranked left)).2 lower
  have same : draft.depth = depth := by
    unfold RankedDraft.Earlier at earlier
    simp only at earlier
    omega
  refine left ?_
  rw [← same, ← score]
  exact kept

end Selection

/-! ## Retained depths -/

section Retained

variable {Score : Type*} {drafts : List (RankedDraft Score)} {retained : List Nat} {sequence : Nat}

theorem length_foldl_retain : (drafts.foldl retain retained).length = retained.length := by
  induction drafts generalizing retained with
  | nil => rfl
  | cons draft drafts ih => rw [List.foldl_cons, ih, retain, List.length_modify]

theorem getD_retain (draft : RankedDraft Score) (inside : sequence < retained.length) :
    (retain retained draft).getD sequence 0 =
      if draft.sequence = sequence then max (retained.getD sequence 0) (draft.depth + 1) else retained.getD sequence 0 := by
  simp only [retain, List.getD_eq_getElem?_getD, List.getElem?_modify, List.getElem?_eq_getElem inside,
    Option.getD_some]
  split <;> rfl

theorem getD_foldl_retain (inside : sequence < retained.length) :
    retained.getD sequence 0 ≤ (drafts.foldl retain retained).getD sequence 0 ∧
      (∀ draft ∈ drafts, draft.sequence = sequence → draft.depth + 1 ≤ (drafts.foldl retain retained).getD sequence 0) ∧
      ((drafts.foldl retain retained).getD sequence 0 = retained.getD sequence 0 ∨
        ∃ draft ∈ drafts, draft.sequence = sequence ∧ (drafts.foldl retain retained).getD sequence 0 = draft.depth + 1) := by
  induction drafts generalizing retained with
  | nil => simp
  | cons first drafts ih =>
    have still : sequence < (retain retained first).length := by rwa [retain, List.length_modify]
    obtain ⟨more, reached, attained⟩ := ih still
    rw [getD_retain first inside] at more attained
    simp only [List.foldl_cons, List.mem_cons, forall_eq_or_imp, exists_eq_or_imp]
    by_cases here : first.sequence = sequence
    · rw [if_pos here] at more attained
      refine ⟨by omega, ⟨fun _ => by omega, reached⟩, ?_⟩
      rcases attained with same | deeper
      · rcases Nat.le_total (retained.getD sequence 0) (first.depth + 1) with less | more
        · exact .inr (.inl ⟨here, by omega⟩)
        · exact .inl (by omega)
      · exact .inr (.inr deeper)
    · rw [if_neg here] at more attained
      exact ⟨more, ⟨fun other => absurd other here, reached⟩, attained.imp_right .inr⟩

end Retained

/-! ## What is selected -/

section Selected

variable {Score : Type*} [Preorder Score] [DecidableLE Score] [Add Score] [Zero Score]
  {confs : List (List Score)} {kDrafts keep : Nat} {sequence : Nat}

/-- The retained depths, where `keep` drafts are kept beyond the first ones. -/
def retainedDepths (confs : List (List Score)) (kDrafts keep : Nat) : List Nat :=
  (keptDrafts confs kDrafts keep).foldl retain (List.replicate confs.length 1)

theorem length_retainedDepths : (retainedDepths confs kDrafts keep).length = confs.length := by
  rw [retainedDepths, length_foldl_retain, List.length_replicate]

theorem retained_bounds (some : 1 ≤ kDrafts) (inside : sequence < confs.length) :
    1 ≤ (retainedDepths confs kDrafts keep).getD sequence 0 ∧
      (retainedDepths confs kDrafts keep).getD sequence 0 ≤ kDrafts := by
  have replicated : (List.replicate confs.length 1).getD sequence 0 = 1 := by simp [inside]
  obtain ⟨more, -, attained⟩ := @getD_foldl_retain Score (keptDrafts confs kDrafts keep) (List.replicate confs.length 1)
    sequence (by simpa using inside)
  rw [replicated] at more attained
  refine ⟨more, ?_⟩
  rcases attained with one | ⟨draft, kept, -, deepest⟩
  · exact one.trans_le some
  · obtain ⟨-, -, -, -, within⟩ := mem_rankedDrafts.mp (mem_keptDrafts kept)
    exact deepest.trans_le within

/-- A draft beyond the first of its chain is retained when it is kept, and only then. -/
theorem retained_iff (laws : ScoreLaws Score) (logs : ∀ conf ∈ confs, ∀ c ∈ conf, c ≤ 0) (inside : sequence < confs.length)
    {depth : Nat} (some : 1 ≤ depth) : depth < (retainedDepths confs kDrafts keep).getD sequence 0 ↔
      ∃ draft ∈ keptDrafts confs kDrafts keep, draft.sequence = sequence ∧ draft.depth = depth := by
  have replicated : (List.replicate confs.length 1).getD sequence 0 = 1 := by simp [inside]
  obtain ⟨more, reached, attained⟩ := @getD_foldl_retain Score (keptDrafts confs kDrafts keep)
    (List.replicate confs.length 1) sequence (by simpa using inside)
  rw [replicated] at more attained
  constructor
  · intro less
    rcases attained with one | ⟨draft, kept, rfl, deepest⟩
    · exact absurd (less.trans_eq one) (by omega)
    · exact kept_shallower laws logs kept some (Nat.le_of_lt_succ (less.trans_eq deepest))
  · rintro ⟨draft, kept, here, rfl⟩
    exact reached draft kept here

/-- Every draft that is retained beyond a first one is one of the kept drafts, so that there are at most `keep`. -/
theorem retained_sum (laws : ScoreLaws Score) (logs : ∀ conf ∈ confs, ∀ c ∈ conf, c ≤ 0) :
    ((List.range confs.length).map fun sequence => (retainedDepths confs kDrafts keep).getD sequence 0 - 1).sum ≤ keep := by
  have listed : ((List.range confs.length).flatMap fun sequence =>
      (List.range' 1 ((retainedDepths confs kDrafts keep).getD sequence 0 - 1)).map (Prod.mk sequence)) ⊆
      (keptDrafts confs kDrafts keep).map fun draft => (draft.sequence, draft.depth) := by
    intro place member
    simp only [List.mem_flatMap, List.mem_range, List.mem_map, List.mem_range'_1] at member
    obtain ⟨sequence, inside, depth, within, rfl⟩ := member
    have less : depth < (retainedDepths confs kDrafts keep).getD sequence 0 := by omega
    obtain ⟨draft, kept, rfl, rfl⟩ := (retained_iff laws logs inside within.1).mp less
    exact List.mem_map_of_mem kept
  have distinct : ((List.range confs.length).flatMap fun sequence =>
      (List.range' 1 ((retainedDepths confs kDrafts keep).getD sequence 0 - 1)).map (Prod.mk sequence)).Nodup := by
    refine List.nodup_flatMap.mpr ⟨fun sequence _ => List.Nodup.map (Prod.mk_right_injective sequence) List.nodup_range', ?_⟩
    refine List.nodup_range.imp fun differs => ?_
    intro place first second
    obtain ⟨_, _, rfl⟩ := List.mem_map.mp first
    obtain ⟨_, _, same⟩ := List.mem_map.mp second
    exact differs (congrArg Prod.fst same).symm
  have fewer := (List.subperm_of_subset distinct listed).length_le
  rw [List.length_flatMap, List.length_map] at fewer
  simp only [List.length_map, List.length_range'] at fewer
  exact fewer.trans ((List.length_take_le _ _).trans (Nat.le_refl _))

/-- `select` keeps so many drafts beyond the first ones as the ratio asks for and the budget has rows for. -/
theorem select_eq (some : 1 ≤ kDrafts) (rowBudget : Nat) (byRatio : Nat → Nat) :
    ∃ keep ≤ rowBudget - 2 * confs.length, select confs kDrafts rowBudget byRatio = retainedDepths confs kDrafts keep := by
  unfold select
  rw [Nat.min_eq_left some]
  simp only
  split
  · exact ⟨0, Nat.zero_le _, by simp [retainedDepths, keptDrafts]⟩
  · exact ⟨_, (Nat.min_le_left _ _).trans (Nat.min_le_right _ _), rfl⟩

theorem rows_le {rowBudget : Nat} (laws : ScoreLaws Score) (logs : ∀ conf ∈ confs, ∀ c ∈ conf, c ≤ 0) (some : 1 ≤ kDrafts)
    (enough : 2 * confs.length ≤ rowBudget) (few : keep ≤ rowBudget - 2 * confs.length) :
    ((retainedDepths confs kDrafts keep).map (· + 1)).sum ≤ rowBudget := by
  -- each sequence has its base row, its first draft, and what is retained beyond
  have split : (retainedDepths confs kDrafts keep).map (· + 1) =
      (List.range confs.length).map fun sequence => 2 + ((retainedDepths confs kDrafts keep).getD sequence 0 - 1) := by
    refine List.ext_getElem (by simp [length_retainedDepths]) fun sequence inside _ => ?_
    rw [List.length_map, length_retainedDepths] at inside
    have bounds := @retained_bounds _ _ _ _ _ confs kDrafts keep sequence some inside
    have listed : sequence < (retainedDepths confs kDrafts keep).length := by rwa [length_retainedDepths]
    have here : (retainedDepths confs kDrafts keep).getD sequence 0 = (retainedDepths confs kDrafts keep)[sequence] := by
      simp [List.getD_eq_getElem?_getD, listed]
    rw [here] at bounds
    simp only [List.getElem_map, List.getElem_range, here]
    omega
  have beyond := @retained_sum _ _ _ _ _ confs kDrafts keep laws logs
  rw [split, List.sum_map_add]
  simp only [List.map_const', List.length_range, List.sum_replicate, smul_eq_mul]
  omega

end Selected

/-! ## The chunks -/

def Tiles : Nat → Nat → List (Nat × Nat) → Prop
  | lo, hi, [] => lo = hi
  | lo, hi, range :: ranges => range.1 = lo ∧ lo < range.2 ∧ Tiles range.2 hi ranges

/-- A chunk within both bounds, or of one sequence that has more rows than the budget. -/
def Bounded (ks : List Nat) (range : Nat × Nat) : Prop :=
  range.2 - range.1 ≤ widthCap ∧
    (((ks.drop range.1).take (range.2 - range.1)).sum ≤ verifyRowBudget ∨ range.2 = range.1 + 1)

theorem fillChunk_spec (seqCap taken rows : Nat) (ks : List Nat) (within : rows ≤ verifyRowBudget) :
    ∃ more, fillChunk seqCap taken rows ks = taken + more ∧ more ≤ ks.length ∧ (0 < more → taken + more ≤ seqCap) ∧
      rows + (ks.take more).sum ≤ verifyRowBudget := by
  induction ks generalizing taken rows with
  | nil => exact ⟨0, rfl, Nat.le_refl _, fun none => absurd none (Nat.lt_irrefl 0), by simpa using within⟩
  | cons k ks ih =>
    unfold fillChunk
    split
    · next fits =>
      obtain ⟨more, filled, short, capped, rowsWithin⟩ := ih (taken + 1) (rows + k) fits.2
      refine ⟨more + 1, by omega, Nat.succ_le_succ short, fun _ => ?_, ?_⟩
      · by_cases none : more = 0
        · omega
        · have := capped (Nat.pos_of_ne_zero none)
          omega
      · rw [List.take_succ_cons, List.sum_cons]
        omega
    · exact ⟨0, rfl, Nat.zero_le _, fun none => absurd none (Nat.lt_irrefl 0), by simpa using within⟩

theorem chunkRangesFrom_spec {all : List Nat} (fuel lo : Nat) (ks : List Nat) (enough : ks.length ≤ fuel)
    (behind : all.drop lo = ks) (within : lo ≤ all.length) :
    Tiles lo all.length (chunkRangesFrom fuel lo ks) ∧ ∀ range ∈ chunkRangesFrom fuel lo ks, Bounded all range := by
  induction fuel generalizing lo ks with
  | zero =>
    obtain rfl := List.length_eq_zero_iff.mp (Nat.le_zero.mp enough)
    exact ⟨Nat.le_antisymm within (List.drop_eq_nil_iff.mp behind), fun _ none => absurd none List.not_mem_nil⟩
  | succ fuel ih =>
    cases ks with
    | nil => exact ⟨Nat.le_antisymm within (List.drop_eq_nil_iff.mp behind), fun _ none => absurd none List.not_mem_nil⟩
    | cons k ks =>
      obtain ⟨more, filled, short, capped, rows⟩ :=
        fillChunk_spec (min (verifyRowBudget / max k 1) widthCap) 0 0 (k :: ks) (Nat.zero_le _)
      simp only [Nat.zero_add] at filled capped rows
      have remaining : (k :: ks).length = all.length - lo := by rw [← behind, List.length_drop]
      have some : 1 ≤ max more 1 := Nat.le_max_right _ _
      have fewer : max more 1 ≤ (k :: ks).length := max_le short (Nat.succ_le_succ (Nat.zero_le _))
      obtain ⟨tiles, bounded⟩ := ih (lo + max more 1) ((k :: ks).drop (max more 1))
        (by rw [List.length_drop]; omega) (by rw [← behind, List.drop_drop]) (by omega)
      simp only [chunkRangesFrom, filled, List.mem_cons, forall_eq_or_imp]
      refine ⟨⟨rfl, Nat.lt_add_of_pos_right some, tiles⟩, ⟨?_, ?_⟩, bounded⟩
      · rw [Nat.add_sub_cancel_left]
        refine max_le ?_ (by decide)
        by_cases none : more = 0
        · omega
        · exact (capped (Nat.pos_of_ne_zero none)).trans (Nat.min_le_right _ _)
      · rw [Nat.add_sub_cancel_left, behind]
        by_cases none : more = 0
        · exact .inr (by rw [none]; rfl)
        · rw [Nat.max_eq_left (Nat.pos_of_ne_zero none)]
          exact .inl rows

theorem chunkRanges_spec (ks : List Nat) :
    Tiles 0 ks.length (chunkRanges ks) ∧ ∀ range ∈ chunkRanges ks, Bounded ks range :=
  chunkRangesFrom_spec ks.length 0 ks (Nat.le_refl _) rfl (Nat.zero_le _)

/-! ## The claim of the selection -/

section Claim

variable {Score : Type*} [Preorder Score] [DecidableLE Score] [Add Score] [Zero Score]

/-- Log-probabilities in, between one and `kDrafts` drafts out for each sequence, within the budget of rows; no draft
that is cut survives more probably than one that is retained beyond the first of its chain.  The chunks of any row
counts tile the batch in order. -/
theorem cut_sound (laws : ScoreLaws Score) (confs : List (List Score)) (kDrafts rowBudget : Nat) (byRatio : Nat → Nat)
    (some : 1 ≤ kDrafts) (logs : ∀ conf ∈ confs, ∀ c ∈ conf, c ≤ 0) (enough : 2 * confs.length ≤ rowBudget) :
    let retained := select confs kDrafts rowBudget byRatio
    retained.length = confs.length ∧ (∀ depth ∈ retained, 1 ≤ depth ∧ depth ≤ kDrafts) ∧
      (retained.map (· + 1)).sum ≤ rowBudget ∧
      (∀ (cut kept : Nat) (cutConf keptConf : List Score) (cutDepth keptDepth : Nat),
        confs[cut]? = .some cutConf → confs[kept]? = .some keptConf → retained.getD cut 0 ≤ cutDepth → cutDepth < kDrafts →
        1 ≤ keptDepth → keptDepth < retained.getD kept 0 → survival cutConf cutDepth ≤ survival keptConf keptDepth) ∧
      ∀ ks, Tiles 0 ks.length (chunkRanges ks) ∧ ∀ range ∈ chunkRanges ks, Bounded ks range := by
  intro retained
  obtain ⟨keep, few, same⟩ := @select_eq _ _ _ _ _ confs kDrafts some rowBudget byRatio
  have depths : retained = retainedDepths confs kDrafts keep := same
  rw [depths]
  refine ⟨length_retainedDepths, ?_, rows_le laws logs some enough few, ?_, chunkRanges_spec⟩
  · intro depth member
    obtain ⟨sequence, inside, rfl⟩ := List.mem_iff_getElem.mp member
    have bounds := @retained_bounds _ _ _ _ _ confs kDrafts keep sequence some (by rwa [length_retainedDepths] at inside)
    simpa [List.getD_eq_getElem?_getD, inside] using bounds
  · intro cut kept cutConf keptConf cutDepth keptDepth cutRow keptRow beyond within positive less
    have cutInside := (List.getElem?_eq_some_iff.mp cutRow).1
    have keptInside := (List.getElem?_eq_some_iff.mp keptRow).1
    have cutPositive : 1 ≤ cutDepth := (@retained_bounds _ _ _ _ _ confs kDrafts keep cut some cutInside).1.trans beyond
    obtain ⟨draft, isKept, rfl, rfl⟩ := (retained_iff laws logs keptInside positive).mp less
    have ranked : ⟨survival cutConf cutDepth, cut, cutDepth⟩ ∈ rankedDrafts confs kDrafts :=
      mem_rankedDrafts.mpr ⟨cutConf, cutRow, rfl, cutPositive, within⟩
    have dropped : ⟨survival cutConf cutDepth, cut, cutDepth⟩ ∉ keptDrafts confs kDrafts keep := fun member =>
      absurd ((retained_iff laws logs cutInside cutPositive).mpr ⟨_, member, rfl, rfl⟩) (Nat.not_lt.mpr beyond)
    have lower := ((before_iff laws.total).mp (before_of_dropped laws isKept ranked dropped)).1
    obtain ⟨conf, row, score, -, -⟩ := mem_rankedDrafts.mp (mem_keptDrafts isKept)
    rw [keptRow, Option.some.injEq] at row
    rw [← row] at score
    rwa [score] at lower

end Claim

theorem intLaws : ScoreLaws Int where
  total := Int.le_total
  shrinks acc c log := by omega

theorem cut_sound_two :
    let retained := select [[-1, -2, -3], [-3, -4, -5]] 3 32 (· / 2)
    retained.length = 2 ∧ (∀ depth ∈ retained, 1 ≤ depth ∧ depth ≤ 3) ∧ (retained.map (· + 1)).sum ≤ 32 ∧
      (∀ (cut kept : Nat) (cutConf keptConf : List Int) (cutDepth keptDepth : Nat),
        ([[-1, -2, -3], [-3, -4, -5]] : List (List Int))[cut]? = .some cutConf →
        ([[-1, -2, -3], [-3, -4, -5]] : List (List Int))[kept]? = .some keptConf → retained.getD cut 0 ≤ cutDepth → cutDepth < 3 →
        1 ≤ keptDepth → keptDepth < retained.getD kept 0 → survival cutConf cutDepth ≤ survival keptConf keptDepth) ∧
      ∀ ks, Tiles 0 ks.length (chunkRanges ks) ∧ ∀ range ∈ chunkRanges ks, Bounded ks range :=
  cut_sound intLaws [[-1, -2, -3], [-3, -4, -5]] 3 32 (· / 2) (by decide) (by decide) (by decide)

/-- With a confidence above certainty a deep draft brings its chain along, past the budget. -/
theorem cut_overruns : ¬ ∀ (confs : List (List Int)) (kDrafts rowBudget : Nat) (byRatio : Nat → Nat), 1 ≤ kDrafts →
    2 * confs.length ≤ rowBudget → ((select confs kDrafts rowBudget byRatio).map (· + 1)).sum ≤ rowBudget := by
  intro always
  have within := always [[0, -5, 10]] 3 3 id (by decide) (by decide)
  have whole : select [[(0 : Int), -5, 10]] 3 3 id = [3] := by
    simp [select, rankedDrafts, survival, RankedDraft.before, retain, List.mergeSort, List.range']
  rw [whole] at within
  revert within
  decide

/-! ## The plan (`mtp_dcut.rs`, `verify_key.rs`) -/

/-- What `plan` reads and writes of an `ActiveSeq`. -/
structure DraftedSeq (Score : Type*) where
  pendingDrafts : List Nat
  pendingDraftConf : List Score
  ssmSlotIdx : Option Nat

/-- The switches of a plan; `canonicalAssignment` is asked with the width of the batch. -/
structure CutLevers where
  dcutEnabled : Bool
  dcutWidthCap : Nat
  byRatio : Nat → Nat
  canonicalAssignment : Nat → Bool

/-- `verify_batch_permutation`: by slot, or deepest first and then by slot. -/
def verifyBatchPermutation (slots ks : List Nat) (canonical : Bool) : List Nat :=
  (List.range (min slots.length ks.length)).mergeSort fun i j =>
    let depthFirst := !canonical && decide (ks.getD j 0 < ks.getD i 0)
    let sameDepth := canonical || ks.getD i 0 == ks.getD j 0
    depthFirst || (sameDepth && (decide (slots.getD i 0 < slots.getD j 0) ||
      (slots.getD i 0 == slots.getD j 0 && decide (i ≤ j))))

def verifyBatchOrder (slots ks : List Nat) (canonical : Bool) : List Nat × List Nat :=
  let order := verifyBatchPermutation slots ks canonical
  (order,
    if canonical then (ks.take order.length).mergeSort fun a b => decide (b ≤ a)
    else order.map fun i => ks.getD i 0)

variable {Score : Type*} [Preorder Score] [DecidableLE Score] [Add Score] [Zero Score]

/-- A row of confidences that does not match the drafts was not measured. -/
def DraftedSeq.measured (a : DraftedSeq Score) : List Score :=
  if a.pendingDraftConf.length = a.pendingDrafts.length then a.pendingDraftConf else []

def DraftedSeq.truncate (a : DraftedSeq Score) (drafts : Nat) : DraftedSeq Score :=
  { a with pendingDrafts := a.pendingDrafts.take drafts, pendingDraftConf := a.pendingDraftConf.take drafts }

/-- The row counts that the selection asks for, one for each sequence of the batch. -/
def selectedRows (levers : CutLevers) (batch : List (DraftedSeq Score)) (ladderNd : Nat) : List Nat :=
  (select (batch.map DraftedSeq.measured) ladderNd verifyRowBudget levers.byRatio).map fun r => min (max r 1) ladderNd + 1

/-- `plan` on the batch itself: the batch in dispatch order with its drafts cut, and its row counts. -/
def plan (levers : CutLevers) (batch : List (DraftedSeq Score)) (ladderNd rows : Nat) :
    List (DraftedSeq Score) × List Nat :=
  if !levers.dcutEnabled || decide (ladderNd < 2) || batch.isEmpty || decide (levers.dcutWidthCap < batch.length) then
    (batch, List.replicate batch.length rows)
  else
    let slots := batch.map fun a => a.ssmSlotIdx.getD 18446744073709551615
    let (order, ks) := verifyBatchOrder slots (selectedRows levers batch ladderNd) (levers.canonicalAssignment batch.length)
    ((order.zip ks).filterMap fun row => batch[row.1]?.map fun a => a.truncate (row.2 - 1), ks)

omit [Preorder Score] [DecidableLE Score] [Add Score] [Zero Score] in
theorem verifyBatchOrder_perm {slots ks : List Nat} (canonical : Bool) (same : slots.length = ks.length) :
    (verifyBatchOrder slots ks canonical).1.Perm (List.range ks.length) ∧ (verifyBatchOrder slots ks canonical).2.Perm ks := by
  have order : (verifyBatchPermutation slots ks canonical).Perm (List.range ks.length) := by
    unfold verifyBatchPermutation
    rw [same, Nat.min_self]
    exact List.mergeSort_perm _ _
  refine ⟨order, ?_⟩
  unfold verifyBatchOrder
  cases canonical with
  | true =>
    simp only [if_true]
    rw [order.length_eq, List.length_range, List.take_length]
    exact List.mergeSort_perm _ _
  | false =>
    simp only [Bool.false_eq_true, if_false]
    refine (order.map _).trans (List.Perm.of_eq ?_)
    refine List.ext_getElem (by simp) fun i inside other => ?_
    simp only [List.getElem_map, List.getElem_range, List.getD_eq_getElem?_getD, List.getElem?_eq_getElem other, Option.getD_some]

end Metrale.Scheduler
