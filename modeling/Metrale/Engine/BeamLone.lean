import Metrale.Engine.BeamSearch

/-! # A request's search without its rows

The search of one request over token lists: what the decoder says about a beam is a function of the beam's tokens.  The
loop for one request computes it: row `i` of its batch holds beam `i`. -/

namespace Metrale.Engine

variable {Score Penalty Source : Type} {model : NllbModel Score Penalty Source} {req : BeamReq Penalty} {source : Source}

structure Kept.Grows (tokensOf : Nat → List Token) (n : Nat) (k : Kept Score) : Prop where
  parent : k.parent < n
  tokens : k.tokens = tokensOf k.parent ++ [k.token]

/-! ## Batch rows -/

namespace DecodeRows

variable {device : DecodeRows} {perm : List Nat} {cur row : List Token} {i parent curLen : Nat} {token : Token}

theorem cache_fed (held : device.cache[i]? = some row) (fed : cur[i]? = some token) (pos : Nat) :
    (device.forward cur pos).cache[i]? = some (row.take pos ++ [token]) := by
  have inside : i < cur.length := (List.getElem?_eq_some_iff.mp fed).1
  have fedId : (cur ++ device.ids.drop cur.length)[i]? = some token := by
    rw [List.getElem?_append_left inside, fed]
  simp only [forward, List.getElem?_zipWith, held, fedId]

theorem cache_forward (copied : perm[i]? = some parent) (held : device.cache[parent]? = some row)
    (long : row.length = curLen) (fed : cur[i]? = some token) :
    ((device.gather perm curLen).forward cur curLen).cache[i]? = some (row ++ [token]) := by
  have gathered : (device.gather perm curLen).cache[i]? = some row := by
    rw [gather, List.getElem?_map, copied, Option.map_some, List.getD_eq_getElem?_getD, held, Option.getD_some, ← long,
      List.take_length]
  rw [cache_fed gathered fed, ← long, List.take_length]

theorem cache_seeded {rows : Nat} {seeds : List Token} {bos : Token} (inside : i < rows) (started : cur[i]? = some token)
    (seeded : seeds[i]? = some bos) :
    (((new rows).forward cur 0).forward seeds 1).cache[i]? = some [token, bos] := by
  have empty : (new rows).cache[i]? = some [] := by rw [new, List.getElem?_replicate, if_pos inside]
  exact cache_fed (cache_fed empty started 0) seeded 1

theorem logits_row {slot : Int32} {xb : CrossBatch Source} (held : device.cache[i]? = some row)
    (slab : xb.slabs[i / xb.group]? = some source) :
    (device.logits model slot xb).getD i [] = model.decode slot source row := by
  rw [List.getD_eq_getElem?_getD, logits, List.getElem?_map, List.getElem?_zipIdx, held]
  simp [slab]

def Hold (device : DecodeRows) (off curLen : Nat) (beams : List (List Token × Option Score)) : Prop :=
  ∀ i beam, beams[i]? = some beam → device.cache[off + i]? = some beam.1 ∧ beam.1.length = curLen

theorem hold_forward {off : Nat} {beams : List (List Token × Option Score)}
    {kept : List (Kept Score)} (holds : Hold device off curLen beams)
    (grows : ∀ k ∈ kept, k.Grows (fun parent => (beams[parent]?.map Prod.fst).getD []) beams.length)
    (copied : ∀ i k, kept[i]? = some k → perm[off + i]? = some (off + k.parent))
    (fed : ∀ i k, kept[i]? = some k → cur[off + i]? = some k.token) :
    Hold ((device.gather perm curLen).forward cur curLen) off (curLen + 1)
      (kept.map fun k => (k.tokens, some k.score)) := by
  intro i beam listed
  rw [List.getElem?_map] at listed
  obtain ⟨k, found, rfl⟩ := Option.map_eq_some_iff.mp listed
  obtain ⟨inside, tokens⟩ := grows k (List.mem_of_getElem? found)
  have parent : beams[k.parent]? = some beams[k.parent] := List.getElem?_eq_getElem inside
  obtain ⟨row, long⟩ := holds k.parent _ parent
  dsimp only
  rw [parent, Option.map_some, Option.getD_some] at tokens
  rw [tokens]
  exact ⟨cache_forward (copied i k found) row long (fed i k found), by simp [long]⟩

end DecodeRows

structure LoneSearch (Score Penalty : Type) where
  beams : List (List Token × Option Score)
  hyps : BeamHyps Score Penalty
  active : Bool

variable [LinearOrder Score] [Zero Score] [Add Score] [Sub Score]

namespace LoneSearch

open NllbModel

def tokensOf (search : LoneSearch Score Penalty) (parent : Nat) : List Token :=
  (search.beams[parent]?.map Prod.fst).getD []

def candidates (model : NllbModel Score Penalty Source) (decode : List Token → List Score) (b : Nat)
    (beams : List (List Token × Option Score)) : List (Candidate Score) :=
  sortDescending Candidate.score (beams.zipIdx.flatMap fun (beam, bi) =>
    match beam.2 with
    | none => []
    | some score =>
      let lse := model.logsumexp (decode beam.1)
      (topTokens (decode beam.1) (2 * b)).map fun top =>
        { score := score + (top.1 - lse), parent := bi, token := top.2 })

def start (model : NllbModel Score Penalty Source) (req : BeamReq Penalty) : LoneSearch Score Penalty where
  beams := (List.range (numBeams req)).map fun bi => ([model.decoderStartId, model.target req], startScore bi)
  hyps := .new (numBeams req) req.lengthPenalty
  active := true

def prune (model : NllbModel Score Penalty Source) (req : BeamReq Penalty) (source : Source)
    (search : LoneSearch Score Penalty) : BeamHyps Score Penalty × List (Kept Score) :=
  expand model (numBeams req) search.tokensOf
    (candidates model (model.decode req.adapterSlot source) (numBeams req) search.beams) search.hyps []

def turn (model : NllbModel Score Penalty Source) (req : BeamReq Penalty) (source : Source) (curLen : Nat)
    (search : LoneSearch Score Penalty) : LoneSearch Score Penalty :=
  if search.active then
    match search.prune model req source with
    | (hyps, []) => { search with hyps, active := false }
    | (hyps, first :: rest) =>
      { beams := (first :: rest).map fun k => (k.tokens, some k.score)
        hyps
        active := !hyps.isDone model first.score curLen req.earlyStopping }
  else search

/-- The search after as many turns.  Two tokens are seeded. -/
def after (model : NllbModel Score Penalty Source) (req : BeamReq Penalty) (source : Source) : Nat → LoneSearch Score Penalty
  | 0 => start model req
  | turns + 1 => (after model req source turns).turn model req source (turns + 2)

def result (model : NllbModel Score Penalty Source) (req : BeamReq Penalty) (source : Source) : Option (List Token) :=
  let search := after model req source (model.maxNew req - 1)
  finish model search.hyps search.beams

theorem after_of_inactive {turns more : Nat} (ended : (after model req source turns).active = false) :
    after model req source (turns + more) = after model req source turns := by
  induction more with
  | zero => rfl
  | succ more ih =>
    rw [← Nat.add_assoc, after, ih, turn, if_neg (by rw [ended]; exact Bool.false_ne_true)]

/-! ## What runs on -/

theorem candidates_parent {decode : List Token → List Score} {b : Nat} {beams : List (List Token × Option Score)}
    {candidate : Candidate Score} (listed : candidate ∈ candidates model decode b beams) :
    candidate.parent < beams.length := by
  have unsorted := (List.mergeSort_perm _ _).mem_iff.mp listed
  obtain ⟨⟨beam, bi⟩, member, found⟩ := List.mem_flatMap.mp unsorted
  have inside := (List.mem_zipIdx' member).1
  cases scored : beam.2 with
  | none => simp [scored] at found
  | some score =>
    simp only [scored] at found
    obtain ⟨top, -, rfl⟩ := List.mem_map.mp found
    exact inside

theorem expand_grows {b n : Nat} {tokensOf : Nat → List Token} {candidates : List (Candidate Score)}
    {hyps : BeamHyps Score Penalty} {kept : List (Kept Score)} (parents : ∀ c ∈ candidates, c.parent < n)
    (grows : ∀ k ∈ kept, k.Grows tokensOf n) (short : kept.length ≤ b) :
    (∀ k ∈ (expand model b tokensOf candidates hyps kept).2, k.Grows tokensOf n) ∧
      (expand model b tokensOf candidates hyps kept).2.length ≤ b := by
  induction candidates generalizing hyps kept with
  | nil => exact ⟨grows, short⟩
  | cons candidate candidates ih =>
    have later : ∀ c ∈ candidates, c.parent < n := fun c listed => parents c (List.mem_cons_of_mem _ listed)
    rw [expand]
    split
    · exact ⟨grows, short⟩
    · next room =>
      split
      · exact ih later grows short
      · refine ih later (fun k listed => ?_) ?_
        · obtain older | newer := List.mem_append.mp listed
          · exact grows k older
          · rw [List.mem_singleton.mp newer]
            exact ⟨parents candidate List.mem_cons_self, rfl⟩
        · rw [List.length_append, List.length_singleton]
          omega

theorem prune_grows (model : NllbModel Score Penalty Source) (req : BeamReq Penalty) (source : Source)
    (lone : LoneSearch Score Penalty) :
    (∀ k ∈ (lone.prune model req source).2, k.Grows lone.tokensOf lone.beams.length) ∧
      (lone.prune model req source).2.length ≤ numBeams req :=
  expand_grows (fun _ listed => candidates_parent listed) (fun _ none => (by cases none)) (Nat.zero_le _)

/-! ## The loop for one request -/

/-- The loop's state is the search's, and its rows hold the beams. -/
structure Computes (model : NllbModel Score Penalty Source) (req : BeamReq Penalty) (source : Source) (curLen : Nat)
    (search : BeamSearch Score Penalty) (lone : LoneSearch Score Penalty) : Prop where
  beams : search.beams.map (fun beam => (beam.tokens, beam.score)) = lone.beams
  logits : ∀ beam ∈ search.beams, beam.logits = model.decode req.adapterSlot source beam.tokens
  hyps : search.hyps = lone.hyps
  rows : search.device.Hold 0 curLen lone.beams
  some_beam : lone.beams ≠ []

theorem candidates_eq {b : Nat} {decode : List Token → List Score} {beams : List (Beam Score)}
    (logits : ∀ beam ∈ beams, beam.logits = decode beam.tokens) :
    model.candidates b beams = candidates model decode b (beams.map fun beam => (beam.tokens, beam.score)) := by
  rw [NllbModel.candidates, candidates, List.zipIdx_map, List.flatMap_map]
  congr 1
  refine List.flatMap_congr fun entry listed => ?_
  have same := logits entry.1 (List.fst_mem_of_mem_zipIdx listed)
  obtain ⟨⟨tokens, score, row⟩, bi⟩ := entry
  obtain rfl : row = decode tokens := same
  rfl

theorem Computes.curLen {curLen : Nat} {search : BeamSearch Score Penalty} {lone : LoneSearch Score Penalty}
    (computes : Computes model req source curLen search lone) :
    (search.beams.head?.map fun beam => beam.tokens.length).getD 0 = curLen := by
  obtain ⟨same, -, -, rows, some_beam⟩ := computes
  cases beams : search.beams with
  | nil =>
    rw [beams] at same
    exact absurd same.symm some_beam
  | cons beam rest =>
    rw [beams, List.map_cons] at same
    exact (rows 0 (beam.tokens, beam.score) (by rw [← same]; rfl)).2

theorem beams_advance (xb : CrossBatch Source) (search : BeamSearch Score Penalty) (curLen : Nat)
    (hyps : BeamHyps Score Penalty) (kept : List (Kept Score)) :
    (model.beamAdvance req xb search curLen hyps kept).beams.map (fun beam => (beam.tokens, beam.score)) =
      kept.map fun k => (k.tokens, some k.score) := by
  conv => rhs; rw [← List.zipIdx_map_fst 0 kept, List.map_map]
  rw [NllbModel.beamAdvance, List.map_map]
  rfl

theorem Computes.advance {xb : CrossBatch Source} {curLen : Nat} {search : BeamSearch Score Penalty}
    {lone : LoneSearch Score Penalty} {hyps : BeamHyps Score Penalty} {kept : List (Kept Score)} {active : Bool}
    (slabs : ∀ i < numBeams req, xb.slabs[i / xb.group]? = some source)
    (computes : Computes model req source curLen search lone)
    (grows : ∀ k ∈ kept, k.Grows lone.tokensOf lone.beams.length) (short : kept.length ≤ numBeams req) (nonempty : kept ≠ []) :
    Computes model req source (curLen + 1) (model.beamAdvance req xb search curLen hyps kept)
      { beams := kept.map fun k => (k.tokens, some k.score), hyps, active } := by
  have copied : ∀ i k, kept[i]? = some k →
      (kept.map Kept.parent ++ List.replicate (numBeams req - kept.length) 0)[0 + i]? = some (0 + k.parent) := by
    intro i k found
    have inside := (List.getElem?_eq_some_iff.mp found).1
    rw [Nat.zero_add, List.getElem?_append_left (by rw [List.length_map]; exact inside), List.getElem?_map, found]
    simp
  have fed : ∀ i k, kept[i]? = some k → (kept.map Kept.token)[0 + i]? = some k.token := by
    intro i k found
    rw [Nat.zero_add, List.getElem?_map, found]
    rfl
  have rows := DecodeRows.hold_forward computes.rows grows copied fed
  refine ⟨beams_advance xb search curLen hyps kept, fun beam listed => ?_, rfl, rows, by simpa using nonempty⟩
  obtain ⟨⟨k, i⟩, member, rfl⟩ := List.mem_map.mp listed
  have found : kept[i]? = some k := List.mk_mem_zipIdx_iff_getElem?.mp member
  have inside := (List.getElem?_eq_some_iff.mp found).1
  have held := (rows i (k.tokens, some k.score) (by rw [List.getElem?_map, found]; rfl)).1
  rw [Nat.zero_add] at held
  exact DecodeRows.logits_row held (slabs i (by omega))

theorem Computes.step {xb : CrossBatch Source} {curLen : Nat} {search : BeamSearch Score Penalty}
    {lone : LoneSearch Score Penalty} (slabs : ∀ i < numBeams req, xb.slabs[i / xb.group]? = some source)
    (computes : Computes model req source curLen search lone) (active : lone.active = true) :
    ((model.beamStep req xb search).2 = (lone.turn model req source curLen).active) ∧
      (model.beamStep req xb search).1.hyps = (lone.turn model req source curLen).hyps ∧
      (model.beamStep req xb search).1.beams.map (fun beam => (beam.tokens, beam.score)) =
        (lone.turn model req source curLen).beams ∧
      ((lone.turn model req source curLen).active = true →
        Computes model req source (curLen + 1) (model.beamStep req xb search).1 (lone.turn model req source curLen)) := by
  have tokens : (fun parent => (search.beams[parent]?.map Beam.tokens).getD []) = lone.tokensOf := by
    funext parent
    rw [tokensOf, ← computes.beams, List.getElem?_map, Option.map_map]
    rfl
  have pruned : expand model (numBeams req) (fun parent => (search.beams[parent]?.map Beam.tokens).getD [])
      (model.candidates (numBeams req) search.beams) search.hyps [] = lone.prune model req source := by
    rw [tokens, candidates_eq computes.logits, computes.beams, computes.hyps]
    rfl
  obtain ⟨grows, short⟩ := prune_grows model req source lone
  rw [NllbModel.beamStep, turn, if_pos active]
  simp only [pruned, computes.curLen]
  cases kept : lone.prune model req source with
  | mk hyps running =>
    rw [kept] at grows short
    cases running with
    | nil => exact ⟨rfl, rfl, computes.beams, fun ended => (by cases ended)⟩
    | cons first rest =>
      exact ⟨rfl, rfl, beams_advance xb search curLen hyps (first :: rest), fun _ =>
        computes.advance slabs grows short (List.cons_ne_nil _ _)⟩

theorem computes_start {xb : CrossBatch Source} (slabs : ∀ i < numBeams req, xb.slabs[i / xb.group]? = some source) :
    Computes model req source 2 (model.beamStart req xb) (start model req) := by
  have seeded : ∀ i < numBeams req, (((DecodeRows.new (numBeams req)).forward
      (List.replicate (numBeams req) model.decoderStartId) 0).forward
      (List.replicate (numBeams req) (model.target req)) 1).cache[i]? = some [model.decoderStartId, model.target req] := by
    intro i inside
    apply DecodeRows.cache_seeded inside
    · rw [List.getElem?_replicate, if_pos inside]
    · rw [List.getElem?_replicate, if_pos inside]
  refine ⟨?_, fun beam listed => ?_, rfl, fun i beam found => ?_, ?_⟩
  · rw [NllbModel.beamStart, List.map_map]
    rfl
  · obtain ⟨bi, inside, rfl⟩ := List.mem_map.mp listed
    have below := List.mem_range.mp inside
    exact DecodeRows.logits_row (seeded bi below) (slabs bi below)
  · rw [start, List.getElem?_map] at found
    obtain ⟨bi, inRange, rfl⟩ := Option.map_eq_some_iff.mp found
    obtain ⟨inside, rfl⟩ := List.getElem?_eq_some_iff.mp inRange
    rw [List.length_range] at inside
    rw [Nat.zero_add]
    exact ⟨seeded i inside, rfl⟩
  · have positive : numBeams req ≠ 0 := by
      unfold numBeams
      omega
    simpa [start] using positive

theorem beamTurns_after (turns : Nat) {xb : CrossBatch Source} {done : Nat} {search : BeamSearch Score Penalty}
    (slabs : ∀ i < numBeams req, xb.slabs[i / xb.group]? = some source)
    (computes : Computes model req source (done + 2) search (after model req source done))
    (active : (after model req source done).active = true) :
    (model.beamTurns req xb turns search).hyps = (after model req source (done + turns)).hyps ∧
      (model.beamTurns req xb turns search).beams.map (fun beam => (beam.tokens, beam.score)) =
        (after model req source (done + turns)).beams := by
  induction turns generalizing done search with
  | zero => exact ⟨computes.hyps, computes.beams⟩
  | succ turns ih =>
    obtain ⟨goesOn, hyps, beams, later⟩ := computes.step slabs active
    change _ = (after model req source (done + 1)).active at goesOn
    rw [NllbModel.beamTurns, ← Nat.add_right_comm, Nat.add_assoc] at *
    cases stepped : model.beamStep req xb search with
    | mk next continues =>
      rw [stepped] at goesOn hyps beams later
      cases continues with
      | false =>
        rw [Nat.add_comm turns 1, ← Nat.add_assoc, after_of_inactive goesOn.symm]
        exact ⟨hyps, beams⟩
      | true =>
        have continued := ih (later goesOn.symm) goesOn.symm
        rw [Nat.add_comm turns 1, ← Nat.add_assoc]
        exact continued

theorem beamLoop_eq {xb : CrossBatch Source} (slabs : ∀ i < numBeams req, xb.slabs[i / xb.group]? = some source) :
    model.beamLoop req xb = result model req source := by
  have started : Computes model req source 2 (model.beamStart req xb) (start model req) := computes_start slabs
  obtain ⟨hyps, beams⟩ := beamTurns_after (model.maxNew req - 1) slabs started rfl
  rw [NllbModel.beamLoop, result]
  simp only [hyps, beams, Nat.zero_add]

theorem generateBeamOne_eq (model : NllbModel Score Penalty Source) (req : BeamReq Penalty) :
    model.generateBeamOne req = result model req (model.source req.adapterSlot req) := by
  refine beamLoop_eq fun i inside => ?_
  rw [Nat.div_eq_of_lt (Nat.lt_of_lt_of_le inside (Nat.le_max_left _ _))]
  rfl

end LoneSearch

end Metrale.Engine
