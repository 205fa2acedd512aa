import Mathlib
import Metrale.Engine.BeamMulti

/-! # Fused beam search gives each request its own result

Each request of the batch follows its own search: its rows hold its beams while it is active, and once it has ended
its beams and hypotheses are those that its search ends with. -/

namespace Metrale.Engine

open NllbModel

variable {Score Penalty Source : Type} [LinearOrder Score] [Zero Score] [Add Score] [Sub Score]
  {model : NllbModel Score Penalty Source} {slot : Int32} {xb : CrossBatch Source} {b off done : Nat}
  {device : DecodeRows} {req : BeamReq Penalty} {reqs : List (BeamReq Penalty)} {st : ReqState Score Penalty}
  {states : List (ReqState Score Penalty)} {perm : List Nat} {cur : List Token}

def ReqState.view (st : ReqState Score Penalty) : List (List Token × Option Score) :=
  st.beams.map fun beam => (beam.tokens, beam.score)

def requestAfter (model : NllbModel Score Penalty Source) (slot : Int32) (req : BeamReq Penalty) (turns : Nat) :
    LoneSearch Score Penalty :=
  LoneSearch.after model req (model.source slot req) turns

def NllbModel.turns (model : NllbModel Score Penalty Source) (req : BeamReq Penalty) : Nat := model.maxNew req - 1

structure ReqState.Of (model : NllbModel Score Penalty Source) (slot : Int32) (xb : CrossBatch Source) (b off : Nat)
    (req : BeamReq Penalty) (st : ReqState Score Penalty) : Prop where
  adapter : req.adapterSlot = slot
  beams : numBeams req = b
  width : st.b = b
  rowOff : st.rowOff = off
  maxNew : st.maxNew = model.maxNew req
  earlyStopping : st.earlyStopping = req.earlyStopping
  slabs : ∀ i < b, xb.slabs[(off + i) / xb.group]? = some (model.source slot req)

structure ReqState.Ended (model : NllbModel Score Penalty Source) (slot : Int32) (req : BeamReq Penalty)
    (st : ReqState Score Penalty) : Prop where
  hyps : st.hyps = (requestAfter model slot req (model.turns req)).hyps
  view : st.view = (requestAfter model slot req (model.turns req)).beams

structure ReqState.Running (model : NllbModel Score Penalty Source) (slot : Int32) (b off done : Nat)
    (device : DecodeRows) (req : BeamReq Penalty) (st : ReqState Score Penalty) : Prop where
  within : done ≤ model.turns req
  active : (requestAfter model slot req done).active = true
  hyps : st.hyps = (requestAfter model slot req done).hyps
  view : st.view = (requestAfter model slot req done).beams
  top : ∀ beam ∈ st.beams, beam.lse = model.logsumexp (model.decode slot (model.source slot req) beam.tokens) ∧
    beam.top = topTokens (model.decode slot (model.source slot req) beam.tokens) (2 * b)
  rows : device.Hold off (done + 2) (requestAfter model slot req done).beams

structure ReqState.Tracks (model : NllbModel Score Penalty Source) (slot : Int32) (xb : CrossBatch Source)
    (b off done : Nat) (device : DecodeRows) (req : BeamReq Penalty) (st : ReqState Score Penalty) : Prop where
  of : st.Of model slot xb b off req
  running : st.active = true → st.Running model slot b off done device req
  ended : st.active = false → st.Ended model slot req

/-- What the stage leaves of a request: ended, or with kept candidates whose rows are written. -/
inductive ReqState.Staged (model : NllbModel Score Penalty Source) (slot : Int32) (b off done : Nat)
    (device : DecodeRows) (req : BeamReq Penalty) (perm : List Nat) (cur : List Token) (st : ReqState Score Penalty) :
    Option (List (Kept Score)) → Prop where
  | ended (inactive : st.active = false) (ended : st.Ended model slot req) :
      Staged model slot b off done device req perm cur st none
  | kept {kept : List (Kept Score)} (active : st.active = true) (more : done + 1 ≤ model.turns req)
      (running : (requestAfter model slot req done).active = true)
      (rows : device.Hold off (done + 2) (requestAfter model slot req done).beams)
      (pruned : (requestAfter model slot req done).prune model req (model.source slot req) = (st.hyps, kept))
      (nonempty : kept ≠ []) (copied : ∀ i k, kept[i]? = some k → perm[off + i]? = some (off + k.parent))
      (fed : ∀ i k, kept[i]? = some k → cur[off + i]? = some k.token) :
      Staged model slot b off done device req perm cur st (some kept)

theorem DecodeRows.cands_row {i : Nat} {row : List Token} {source : Source} {k : Nat} (held : device.cache[i]? = some row)
    (slab : xb.slabs[i / xb.group]? = some source) : (model.beamCands slot xb device k).getD i (0, []) =
      (model.logsumexp (model.decode slot source row), topTokens (model.decode slot source row) k) := by
  rw [List.getD_eq_getElem?_getD, NllbModel.beamCands, List.getElem?_map, DecodeRows.logits, List.getElem?_map,
    List.getElem?_zipIdx, held]
  simp [slab]

namespace ReqState

theorem requestAfter_succ (model : NllbModel Score Penalty Source) (slot : Int32) (req : BeamReq Penalty) (turns : Nat) :
    requestAfter model slot req (turns + 1) =
      (requestAfter model slot req turns).turn model req (model.source slot req) (turns + 2) := rfl

theorem requestAfter_turns {turns : Nat} (inactive : (requestAfter model slot req turns).active = false)
    (within : turns ≤ model.turns req) :
    requestAfter model slot req (model.turns req) = requestAfter model slot req turns := by
  obtain ⟨more, total⟩ := Nat.exists_eq_add_of_le within
  rw [total]
  exact LoneSearch.after_of_inactive inactive

theorem Tracks.freeze (tracks : st.Tracks model slot xb b off done device req) :
    (st.freeze (done + 1)).Tracks model slot xb b off done device req ∧
      ((st.freeze (done + 1)).active = true → done + 1 ≤ model.turns req) := by
  unfold ReqState.freeze
  by_cases capped : st.active = true ∧ st.maxNew ≤ done + 1
  · rw [if_pos capped]
    have running := tracks.running capped.1
    have last : model.turns req = done := by
      have within := running.within
      have cap := capped.2
      rw [tracks.of.maxNew] at cap
      unfold NllbModel.turns at within ⊢
      omega
    have ended : st.Ended model slot req := ⟨by rw [last]; exact running.hyps, by rw [last]; exact running.view⟩
    exact ⟨⟨{ tracks.of with }, fun active => (by cases active), fun _ => ⟨ended.hyps, ended.view⟩⟩,
      fun active => (by cases active)⟩
  · rw [if_neg capped]
    refine ⟨tracks, fun active => ?_⟩
    have room : ¬ st.maxNew ≤ done + 1 := fun cap => capped ⟨active, cap⟩
    rw [tracks.of.maxNew] at room
    unfold NllbModel.turns
    omega

theorem candidates_eq {decode : List Token → List Score}
    (top : ∀ beam ∈ st.beams, beam.lse = model.logsumexp (decode beam.tokens) ∧ beam.top = topTokens (decode beam.tokens) (2 * b))
    (width : st.b = b) :
    st.candidates = LoneSearch.candidates model decode b st.view := by
  rw [candidates, LoneSearch.candidates, view, List.zipIdx_map, List.flatMap_map]
  congr 1
  refine List.flatMap_congr fun entry listed => ?_
  obtain ⟨lse, best⟩ := top entry.1 (List.fst_mem_of_mem_zipIdx listed)
  obtain ⟨⟨tokens, score, _, _⟩, bi⟩ := entry
  dsimp only at lse best
  subst lse best
  cases score with
  | none => rfl
  | some score =>
    simp only [width, Prod.map_apply, List.take_of_length_le (length_topTokens _ _)]
    rfl

theorem Running.pruned (of : st.Of model slot xb b off req) (running : st.Running model slot b off done device req) :
    expand model st.b (fun parent => (st.beams[parent]?.map MBeam.tokens).getD []) st.candidates st.hyps [] =
      (requestAfter model slot req done).prune model req (model.source slot req) := by
  have tokens : (fun parent => (st.beams[parent]?.map MBeam.tokens).getD []) =
      (requestAfter model slot req done).tokensOf := by
    funext parent
    rw [LoneSearch.tokensOf, ← running.view, ReqState.view, List.getElem?_map, Option.map_map]
    rfl
  rw [tokens, candidates_eq running.top of.width, running.view, running.hyps, of.width, LoneSearch.prune, of.beams, of.adapter]

theorem Tracks.stage (perm : List Nat) (cur : List Token) (tracks : st.Tracks model slot xb b off done device req)
    (more : st.active = true → done + 1 ≤ model.turns req) (permRoom : off + b ≤ perm.length)
    (curRoom : off + b ≤ cur.length) :
    (st.stage model perm cur).1.1.Of model slot xb b off req ∧
      Staged model slot b off done device req (st.stage model perm cur).2.1 (st.stage model perm cur).2.2
        (st.stage model perm cur).1.1 (st.stage model perm cur).1.2 ∧
      ∀ row, row < off ∨ off + b ≤ row →
        (st.stage model perm cur).2.1[row]? = perm[row]? ∧ (st.stage model perm cur).2.2[row]? = cur[row]? := by
  rw [ReqState.stage]
  by_cases active : st.active = true
  · have running := tracks.running active
    rw [if_pos active]
    simp only [running.pruned tracks.of]
    obtain ⟨-, short⟩ := LoneSearch.prune_grows model req (model.source slot req) (requestAfter model slot req done)
    rw [tracks.of.beams] at short
    cases pruned : (requestAfter model slot req done).prune model req (model.source slot req) with
    | mk hyps kept =>
      rw [pruned] at short
      cases kept with
      | nil =>
        -- nothing runs on: the search ends with this turn
        have next : requestAfter model slot req (done + 1) =
            { requestAfter model slot req done with hyps, active := false } := by
          rw [requestAfter_succ, LoneSearch.turn, if_pos running.active, pruned]
        have last := requestAfter_turns (by rw [next]) (more active)
        refine ⟨{ tracks.of with }, .ended rfl ⟨?_, ?_⟩, fun row _ => ⟨rfl, rfl⟩⟩
        · rw [last, next]
        · rw [last, next]
          exact running.view
      | cons first rest =>
        have permShort : ((first :: rest).map fun k => st.rowOff + k.parent).length ≤ b := by
          rw [List.length_map]
          exact short
        have curShort : ((first :: rest).map Kept.token).length ≤ b := by
          rw [List.length_map]
          exact short
        refine ⟨{ tracks.of with }, .kept active (more active) running.active running.rows pruned (List.cons_ne_nil _ _)
          (fun i k found => ?_) (fun i k found => ?_), fun row outside => ⟨?_, ?_⟩⟩
        · rw [tracks.of.rowOff] at permShort ⊢
          exact writeRows_inside (by rw [List.getElem?_map, found]; rfl) (by omega)
        · rw [tracks.of.rowOff]
          exact writeRows_inside (by rw [List.getElem?_map, found]; rfl) (by omega)
        · rw [tracks.of.rowOff] at permShort ⊢
          exact writeRows_outside (by omega)
        · rw [tracks.of.rowOff]
          exact writeRows_outside (by omega)
  · have inactive : st.active = false := (Bool.not_eq_true _).mp active
    rw [if_neg active]
    exact ⟨tracks.of, .ended inactive (tracks.ended inactive), fun row _ => ⟨rfl, rfl⟩⟩

theorem length_stage (model : NllbModel Score Penalty Source) (st : ReqState Score Penalty) (perm : List Nat)
    (cur : List Token) :
    (st.stage model perm cur).2.1.length = perm.length ∧ (st.stage model perm cur).2.2.length = cur.length := by
  rw [ReqState.stage]
  split
  · dsimp only
    split
    · exact ⟨rfl, rfl⟩
    · exact ⟨length_writeRows, length_writeRows⟩
  · exact ⟨rfl, rfl⟩

theorem Staged.congr {otherPerm : List Nat} {otherCur : List Token} {pending : Option (List (Kept Score))}
    (beams : numBeams req = b) (staged : Staged model slot b off done device req perm cur st pending)
    (same : ∀ row, off ≤ row → row < off + b → otherPerm[row]? = perm[row]? ∧ otherCur[row]? = cur[row]?) :
    Staged model slot b off done device req otherPerm otherCur st pending := by
  cases staged with
  | ended inactive ended => exact .ended inactive ended
  | kept active more running rows pruned nonempty copied fed =>
    obtain ⟨-, short⟩ := LoneSearch.prune_grows model req (model.source slot req) (requestAfter model slot req done)
    rw [pruned, beams] at short
    dsimp only at short
    refine .kept active more running rows pruned nonempty (fun i k found => ?_) (fun i k found => ?_)
    · have inside := (List.getElem?_eq_some_iff.mp found).1
      rw [(same (off + i) (by omega) (by omega)).1]
      exact copied i k found
    · have inside := (List.getElem?_eq_some_iff.mp found).1
      rw [(same (off + i) (by omega) (by omega)).2]
      exact fed i k found

theorem Staged.settle {pending : Option (List (Kept Score))} (of : st.Of model slot xb b off req)
    (staged : Staged model slot b off done device req perm cur st pending) :
    (ReqState.settle model (done + 2) (model.beamCands slot xb ((device.gather perm (done + 2)).forward cur (done + 2))
      (2 * b)) (st, pending)).Tracks model slot xb b off (done + 1)
      ((device.gather perm (done + 2)).forward cur (done + 2)) req := by
  cases staged with
  | ended inactive ended =>
    exact ⟨of, fun active => (by rw [ReqState.settle, inactive] at active; cases active), fun _ => ended⟩
  | @kept kept active more running rows pruned nonempty copied fed =>
    obtain ⟨grows, short⟩ := LoneSearch.prune_grows model req (model.source slot req) (requestAfter model slot req done)
    rw [pruned] at grows short
    rw [of.beams] at short
    dsimp only at grows short
    obtain ⟨first, rest, rfl⟩ := List.exists_cons_of_ne_nil nonempty
    have next : requestAfter model slot req (done + 1) =
        { beams := (first :: rest).map fun k => (k.tokens, some k.score)
          hyps := st.hyps
          active := !st.hyps.isDone model first.score (done + 2) req.earlyStopping } := by
      rw [requestAfter_succ, LoneSearch.turn, if_pos running, pruned]
    have held := DecodeRows.hold_forward rows grows copied fed
    have view : (ReqState.settle model (done + 2) (model.beamCands slot xb
        ((device.gather perm (done + 2)).forward cur (done + 2)) (2 * b)) (st, some (first :: rest))).view =
          (first :: rest).map fun k => (k.tokens, some k.score) := by
      conv => rhs; rw [← List.zipIdx_map_fst 0 (first :: rest), List.map_map]
      rw [ReqState.view, ReqState.settle, List.map_map]
      rfl
    have goesOn : (ReqState.settle model (done + 2) (model.beamCands slot xb
        ((device.gather perm (done + 2)).forward cur (done + 2)) (2 * b)) (st, some (first :: rest))).active =
          (requestAfter model slot req (done + 1)).active := by
      rw [next, ReqState.settle, active, of.earlyStopping]
      rfl
    refine ⟨{ of with }, fun settled => ⟨more, goesOn ▸ settled, ?_, ?_, fun beam listed => ?_, ?_⟩, fun settled => ?_⟩
    · rw [next]
      rfl
    · rw [next, view]
    · obtain ⟨⟨k, i⟩, member, rfl⟩ := List.mem_map.mp listed
      have found : (first :: rest)[i]? = some k := List.mk_mem_zipIdx_iff_getElem?.mp member
      have inside := (List.getElem?_eq_some_iff.mp found).1
      have row := (held i (k.tokens, some k.score) (by rw [List.getElem?_map, found]; rfl)).1
      have cands := @DecodeRows.cands_row _ _ _ _ _ _ _ model slot xb _ _ _ _ (2 * b) row (of.slabs i (by omega))
      dsimp only
      rw [of.rowOff, cands]
      exact ⟨rfl, rfl⟩
    · rw [next]
      exact held
    · have last := requestAfter_turns (goesOn ▸ settled) more
      exact ⟨by rw [last, next]; rfl, by rw [last, next, view]⟩

/-! ## The whole batch -/

def EachFrom {Entry : Type} (b : Nat) (holds : Nat → BeamReq Penalty → Entry → Prop) :
    Nat → List (BeamReq Penalty) → List Entry → Prop
  | _, [], [] => True
  | off, req :: reqs, entry :: entries => holds off req entry ∧ EachFrom b holds (off + b) reqs entries
  | _, _, _ => False

theorem EachFrom.map {Entry Next : Type} {holds : Nat → BeamReq Penalty → Entry → Prop}
    {next : Nat → BeamReq Penalty → Next → Prop} {entries : List Entry} {change : Entry → Next}
    (each : EachFrom b holds off reqs entries) (moved : ∀ off, ∀ req ∈ reqs, ∀ entry ∈ entries, holds off req entry →
      next off req (change entry)) :
    EachFrom b next off reqs (entries.map change) := by
  induction reqs generalizing off entries with
  | nil =>
    cases entries with
    | nil => trivial
    | cons _ _ => cases each
  | cons req reqs ih =>
    cases entries with
    | nil => cases each
    | cons entry entries =>
      refine ⟨moved off req List.mem_cons_self entry List.mem_cons_self each.1,
        ih each.2 fun off other asked next listed => ?_⟩
      exact moved off other (List.mem_cons_of_mem _ asked) next (List.mem_cons_of_mem _ listed)

theorem EachFrom.imp {Entry : Type} {holds next : Nat → BeamReq Penalty → Entry → Prop} {entries : List Entry}
    (each : EachFrom b holds off reqs entries)
    (implied : ∀ off, ∀ req ∈ reqs, ∀ entry, holds off req entry → next off req entry) :
    EachFrom b next off reqs entries := by
  have mapped : EachFrom b next off reqs (entries.map id) :=
    each.map fun off req asked entry _ => implied off req asked entry
  rw [List.map_id] at mapped
  exact mapped

theorem EachFrom.and {Entry : Type} {holds also : Nat → BeamReq Penalty → Entry → Prop} {entries : List Entry}
    (each : EachFrom b holds off reqs entries) (eachAlso : EachFrom b also off reqs entries) :
    EachFrom b (fun off req entry => holds off req entry ∧ also off req entry) off reqs entries := by
  induction reqs generalizing off entries with
  | nil =>
    cases entries with
    | nil => trivial
    | cons _ _ => cases each
  | cons req reqs ih =>
    cases entries with
    | nil => cases each
    | cons entry entries => exact ⟨⟨each.1, eachAlso.1⟩, ih each.2 eachAlso.2⟩

/-- The stage of the batch writes each request's rows, from the first request's on. -/
theorem stageAll_staged (perm : List Nat) (cur : List Token)
    (each : EachFrom b (fun off req st => st.Tracks model slot xb b off done device req ∧
      (st.active = true → done + 1 ≤ model.turns req)) off reqs states)
    (permRoom : off + reqs.length * b ≤ perm.length) (curRoom : off + reqs.length * b ≤ cur.length) :
    EachFrom b (fun off req entry => entry.1.Of model slot xb b off req ∧
      Staged model slot b off done device req (stageAll model states perm cur).2.1 (stageAll model states perm cur).2.2
        entry.1 entry.2) off reqs (stageAll model states perm cur).1 ∧
      ∀ row < off, (stageAll model states perm cur).2.1[row]? = perm[row]? ∧
        (stageAll model states perm cur).2.2[row]? = cur[row]? := by
  induction reqs generalizing off states perm cur with
  | nil =>
    cases states with
    | nil => exact ⟨trivial, fun _ _ => ⟨rfl, rfl⟩⟩
    | cons _ _ => cases each
  | cons req reqs ih =>
    cases states with
    | nil => cases each
    | cons st states =>
      obtain ⟨⟨tracks, more⟩, rest⟩ := each
      rw [List.length_cons, Nat.succ_mul] at permRoom curRoom
      obtain ⟨of, staged, outside⟩ := tracks.stage perm cur more (by omega) (by omega)
      obtain ⟨permLength, curLength⟩ := length_stage model st perm cur
      obtain ⟨later, untouched⟩ := @ih (off + b) states (st.stage model perm cur).2.1
        (st.stage model perm cur).2.2 rest (by rw [permLength]; omega) (by rw [curLength]; omega)
      refine ⟨⟨⟨of, staged.congr of.beams fun row _ below => untouched row below⟩, later⟩, fun row below => ?_⟩
      obtain ⟨samePerm, sameCur⟩ := untouched row (by omega)
      obtain ⟨stagePerm, stageCur⟩ := outside row (.inl below)
      exact ⟨samePerm.trans stagePerm, sameCur.trans stageCur⟩

theorem multiStep_tracks {rows : Nat} (room : off + reqs.length * b ≤ rows)
    (each : EachFrom b (fun off req st => st.Tracks model slot xb b off done device req) off reqs states) :
    (∃ last, model.multiStep slot xb rows (2 * b) (done + 1) (done + 2) { states, device } = (last, false) ∧
      EachFrom b (fun _ req st => st.Ended model slot req) off reqs last.states) ∨
    ∃ next, model.multiStep slot xb rows (2 * b) (done + 1) (done + 2) { states, device } = (next, true) ∧
      EachFrom b (fun off req st => st.Tracks model slot xb b off (done + 1) next.device req) off reqs next.states := by
  have frozen : EachFrom b (fun off req st => st.Tracks model slot xb b off done device req ∧
      (st.active = true → done + 1 ≤ model.turns req)) off reqs (states.map (ReqState.freeze (done + 1))) :=
    each.map fun _ _ _ _ _ tracks => tracks.freeze
  obtain ⟨staged, -⟩ := stageAll_staged (List.range rows) (List.replicate rows model.eosId) frozen
    (by rw [List.length_range]; exact room) (by rw [List.length_replicate]; exact room)
  unfold NllbModel.multiStep
  dsimp only
  split
  · next none =>
    refine .inl ⟨_, rfl, staged.map fun off req _ entry listed kept => ?_⟩
    have nothing := List.all_eq_true.mp none entry listed
    obtain ⟨st, pending⟩ := entry
    obtain rfl := Option.isNone_iff_eq_none.mp nothing
    cases kept.2 with
    | ended _ ended => exact ended
  · exact .inr ⟨_, rfl, staged.map fun off req _ entry _ kept => kept.2.settle kept.1⟩

theorem multiTurns_ended {rows turns : Nat} (room : off + reqs.length * b ≤ rows)
    (each : EachFrom b (fun off req st => st.Tracks model slot xb b off done device req) off reqs states)
    (enough : ∀ req ∈ reqs, model.turns req ≤ done + turns) :
    EachFrom b (fun _ req st => st.Ended model slot req) off reqs
      (model.multiTurns slot xb rows (2 * b) turns (done + 1) (done + 2) { states, device }).states := by
  induction turns generalizing done device states with
  | zero =>
    refine each.imp fun off req asked st tracks => ?_
    cases active : st.active with
    | false => exact tracks.ended active
    | true =>
      have running := tracks.running active
      have last : model.turns req = done := Nat.le_antisymm (enough req asked) running.within
      exact ⟨by rw [last]; exact running.hyps, by rw [last]; exact running.view⟩
  | succ turns ih =>
    rw [NllbModel.multiTurns]
    obtain ⟨last, stepped, ended⟩ | ⟨⟨states, device⟩, stepped, tracks⟩ := multiStep_tracks room each
    · simp only [stepped]
      exact ended
    · simp only [stepped]
      refine ih tracks fun req listed => ?_
      have bound := enough req listed
      omega

/-! ## The seeds -/

theorem reqStates_each (beams : ∀ req ∈ reqs, numBeams req = b) :
    EachFrom b (fun off req st => st = model.reqState off req) off reqs (model.reqStates off reqs) := by
  induction reqs generalizing off with
  | nil => trivial
  | cons req reqs ih =>
    refine ⟨rfl, ?_⟩
    rw [beams req List.mem_cons_self]
    exact ih fun other asked => beams other (List.mem_cons_of_mem _ asked)

theorem length_seedRows (states : List (ReqState Score Penalty)) (seeds : List Token) :
    (seedRows states seeds).length = seeds.length := by
  induction states generalizing seeds with
  | nil => rfl
  | cons st states ih => rw [seedRows, ih, length_writeRows]

theorem seedRows_each {seeds : List Token} (beams : ∀ req ∈ reqs, numBeams req = b)
    (each : EachFrom b (fun off req st => st = model.reqState off req) off reqs states)
    (room : off + reqs.length * b ≤ seeds.length) :
    EachFrom b (fun off req _ => ∀ i < b, (seedRows states seeds)[off + i]? = some (model.target req)) off reqs states ∧
      ∀ row < off, (seedRows states seeds)[row]? = seeds[row]? := by
  induction reqs generalizing off states seeds with
  | nil =>
    cases states with
    | nil => exact ⟨trivial, fun _ _ => rfl⟩
    | cons _ _ => cases each
  | cons req reqs ih =>
    cases states with
    | nil => cases each
    | cons st states =>
      obtain ⟨rfl, rest⟩ := each
      have width : numBeams req = b := beams req List.mem_cons_self
      rw [List.length_cons, Nat.succ_mul] at room
      have written : (writeRows off (List.replicate b (model.target req)) seeds).length = seeds.length := length_writeRows
      obtain ⟨later, untouched⟩ := @ih (off + b) states
        (writeRows off (List.replicate b (model.target req)) seeds)
        (fun other asked => beams other (List.mem_cons_of_mem _ asked)) rest (by rw [written]; omega)
      have seeded : seedRows (model.reqState off req :: states) seeds =
          seedRows states (writeRows off (List.replicate b (model.target req)) seeds) := by
        rw [seedRows, NllbModel.reqState, width]
      rw [seeded]
      refine ⟨⟨fun i inside => ?_, later⟩, fun row below => ?_⟩
      · rw [untouched (off + i) (by omega)]
        refine writeRows_inside ?_ ?_
        · rw [List.getElem?_replicate, if_pos inside]
        · rw [List.length_replicate]
          omega
      · rw [untouched row (by omega)]
        exact writeRows_outside (.inl below)

theorem slabs_each {r : Nat} (beams : ∀ req ∈ reqs, numBeams req = b) (positive : 0 < b)
    (each : EachFrom b (fun off req st => st = model.reqState off req) (r * b) reqs states)
    (slabs : ∀ j req, reqs[j]? = some req → xb.slabs[r + j]? = some (model.source slot req)) (group : xb.group = b) :
    EachFrom b (fun off req _ => ∀ i < b, xb.slabs[(off + i) / xb.group]? = some (model.source slot req)) (r * b) reqs
      states := by
  induction reqs generalizing r states with
  | nil =>
    cases states with
    | nil => trivial
    | cons _ _ => cases each
  | cons req reqs ih =>
    cases states with
    | nil => cases each
    | cons st states =>
      have next : r * b + b = (r + 1) * b := (Nat.succ_mul r b).symm
      refine ⟨fun i inside => ?_, ?_⟩
      · rw [group, Nat.mul_comm, Nat.mul_add_div positive, Nat.div_eq_of_lt inside]
        exact slabs 0 req rfl
      · rw [next]
        refine ih (fun other asked => beams other (List.mem_cons_of_mem _ asked)) (next ▸ each.2) ?_
        intro j other found
        rw [Nat.add_assoc, Nat.add_comm 1 j]
        exact slabs (j + 1) other found

theorem startBeams_tracks {rows : Nat} {seeds : List Token} (adapter : req.adapterSlot = slot) (width : numBeams req = b)
    (seeded : ∀ i < b, seeds[off + i]? = some (model.target req)) (total : seeds.length = rows)
    (slabs : ∀ i < b, xb.slabs[(off + i) / xb.group]? = some (model.source slot req))
    (started : device = ((DecodeRows.new rows).forward (List.replicate rows model.decoderStartId) 0).forward seeds 1) :
    (model.startBeams (model.beamCands slot xb device (2 * b)) (model.reqState off req)).Tracks model slot xb b off 0 device
      req := by
  have held : ∀ i < b, device.cache[off + i]? = some [model.decoderStartId, model.target req] := by
    intro i inside
    have below := (List.getElem?_eq_some_iff.mp (seeded i inside)).1
    rw [total] at below
    rw [started]
    apply DecodeRows.cache_seeded below
    · rw [List.getElem?_replicate, if_pos below]
    · exact seeded i inside
  refine ⟨⟨adapter, width, width, rfl, rfl, rfl, slabs⟩, fun _ => ⟨Nat.zero_le _, rfl, rfl, ?_, fun beam listed => ?_, ?_⟩,
    fun inactive => (by cases inactive)⟩
  · rw [ReqState.view, NllbModel.startBeams, List.map_map]
    rfl
  · obtain ⟨bi, inRange, rfl⟩ := List.mem_map.mp listed
    have inside : bi < b := by
      rw [← width]
      exact List.mem_range.mp inRange
    have cands := @DecodeRows.cands_row _ _ _ _ _ _ _ model slot xb _ _ _ _ (2 * b) (held bi inside) (slabs bi inside)
    dsimp only
    rw [NllbModel.reqState, cands]
    exact ⟨rfl, rfl⟩
  · intro i beam found
    have listed : ((List.range (numBeams req)).map fun bi =>
        ([model.decoderStartId, model.target req], (startScore bi : Option Score)))[i]? = some beam := found
    rw [List.getElem?_map] at listed
    obtain ⟨bi, inRange, rfl⟩ := Option.map_eq_some_iff.mp listed
    obtain ⟨inside, rfl⟩ := List.getElem?_eq_some_iff.mp inRange
    rw [List.length_range, width] at inside
    exact ⟨held i inside, rfl⟩

theorem multiStart_tracks {rows : Nat} (positive : 0 < b) (adapters : ∀ req ∈ reqs, req.adapterSlot = slot)
    (beams : ∀ req ∈ reqs, numBeams req = b) (total : rows = reqs.length * b) (group : xb.group = b)
    (slabs : xb.slabs = reqs.map (model.source slot)) :
    EachFrom b (fun off req st => st.Tracks model slot xb b off 0
      (model.multiStart slot xb rows (2 * b) (model.reqStates 0 reqs)).device req) 0 reqs
      (model.multiStart slot xb rows (2 * b) (model.reqStates 0 reqs)).states := by
  have each := @reqStates_each _ _ _ _ _ _ _ model b 0 reqs beams
  obtain ⟨seeded, -⟩ := @seedRows_each _ _ _ _ _ _ _ model b 0 reqs _ (List.replicate rows model.eosId) beams each
    (by rw [List.length_replicate]; omega)
  have slabbed : EachFrom b (fun off req _ => ∀ i < b, xb.slabs[(off + i) / xb.group]? = some (model.source slot req)) 0 reqs
      (model.reqStates 0 reqs) := by
    have start := @slabs_each _ _ _ _ _ _ _ model slot xb b reqs (model.reqStates 0 reqs) 0 beams positive
    rw [Nat.zero_mul] at start
    refine start each (fun j req found => ?_) group
    rw [slabs, Nat.zero_add, List.getElem?_map, found]
    rfl
  refine ((each.and seeded).and slabbed).map fun off req asked st _ entry => ?_
  obtain ⟨⟨rfl, seeds⟩, slabs⟩ := entry
  have width : numBeams req = b := beams req asked
  refine startBeams_tracks (adapters req asked) (beams req asked) seeds ?_ slabs rfl
  rw [length_seedRows, List.length_replicate]

/-! ## The results -/

theorem Ended.finish_eq (ended : st.Ended model slot req) :
    finish model st.hyps (st.beams.map fun beam => (beam.tokens, beam.score)) =
      LoneSearch.result model req (model.source slot req) := by
  rw [LoneSearch.result, ended.hyps]
  exact congrArg _ ended.view

theorem EachFrom.mapM {Entry Result : Type} {result : Entry → Option Result} {alone : BeamReq Penalty → Option Result}
    {entries : List Entry} (each : EachFrom b (fun _ req entry => result entry = alone req) off reqs entries) :
    entries.mapM result = reqs.mapM alone := by
  induction reqs generalizing off entries with
  | nil =>
    cases entries with
    | nil => rfl
    | cons _ _ => cases each
  | cons req reqs ih =>
    cases entries with
    | nil => cases each
    | cons entry entries => rw [List.mapM_cons, List.mapM_cons, each.1, ih each.2]

theorem le_foldl_maxNew (model : NllbModel Score Penalty Source) (reqs : List (BeamReq Penalty)) (most : Nat) :
    most ≤ reqs.foldl (fun most req => max most (model.maxNew req)) most ∧
      ∀ req ∈ reqs, model.maxNew req ≤ reqs.foldl (fun most req => max most (model.maxNew req)) most := by
  induction reqs generalizing most with
  | nil => exact ⟨le_rfl, fun _ none => (by cases none)⟩
  | cons req reqs ih =>
    obtain ⟨more, each⟩ := ih (max most (model.maxNew req))
    refine ⟨(Nat.le_max_left _ _).trans more, fun other listed => ?_⟩
    obtain rfl | later := List.mem_cons.mp listed
    · exact (Nat.le_max_right _ _).trans more
    · exact each other later

theorem rows_eq (beams : ∀ req ∈ reqs, numBeams req = b) :
    (reqs.map numBeams).foldr (· + ·) 0 = reqs.length * b := by
  induction reqs with
  | nil => rw [List.length_nil, Nat.zero_mul]; rfl
  | cons req reqs ih =>
    rw [List.map_cons, List.foldr_cons, beams req List.mem_cons_self,
      ih fun other asked => beams other (List.mem_cons_of_mem _ asked), List.length_cons, Nat.succ_mul,
      Nat.add_comm]

theorem max_beams_eq (beams : ∀ req ∈ reqs, numBeams req = b) (nonempty : reqs ≠ []) :
    ((reqs.map numBeams).max?).getD 1 = b := by
  have all : reqs.map numBeams = List.replicate reqs.length b := List.map_eq_replicate_iff.mpr beams
  rw [all, List.max?_replicate_of_pos (List.length_pos_iff.mpr nonempty), Option.getD_some]

/-- Several requests with one adapter and one beam count each get what they get alone. -/
theorem beamMultiLoop_eq (adapters : ∀ req ∈ reqs, req.adapterSlot = slot) (beams : ∀ req ∈ reqs, numBeams req = b) :
    model.beamMultiLoop slot b reqs = reqs.mapM model.generateBeamOne := by
  cases nonempty : reqs with
  | nil => rfl
  | cons first others =>
    rw [← nonempty]
    have positive : 0 < b := by
      rw [← beams first (by rw [nonempty]; exact List.mem_cons_self)]
      exact Nat.lt_of_lt_of_le Nat.zero_lt_one (Nat.le_max_right _ _)
    rw [NllbModel.beamMultiLoop]
    simp only [rows_eq beams, max_beams_eq beams (by rw [nonempty]; exact List.cons_ne_nil _ _)]
    have start := @multiStart_tracks _ _ _ _ _ _ _ model slot { slabs := reqs.map (model.source slot), group := b } b reqs
      _ positive adapters beams rfl rfl rfl
    have room : 0 + reqs.length * b ≤ reqs.length * b := Nat.le_of_eq (Nat.zero_add _)
    have enough : ∀ req ∈ reqs,
        model.turns req ≤ 0 + (reqs.foldl (fun most req => max most (model.maxNew req)) 2 - 1) := by
      intro req asked
      have longest := (le_foldl_maxNew model reqs 2).2 req asked
      unfold NllbModel.turns
      omega
    apply EachFrom.mapM
    refine (multiTurns_ended room start enough).imp fun off req asked st ended => ?_
    rw [ended.finish_eq, LoneSearch.generateBeamOne_eq, adapters req asked]

/-- The fused path for requests with one adapter and one beam count, the requests one at a time for any others. -/
theorem beamBatchedMulti_eq (model : NllbModel Score Penalty Source) (reqs : List (BeamReq Penalty)) :
    model.beamBatchedMulti reqs = reqs.mapM model.generateBeamOne := by
  unfold NllbModel.beamBatchedMulti
  split
  · next first second others =>
    split
    · rfl
    · next adapters =>
      split
      · rfl
      · next beams =>
        push Not at adapters beams
        exact beamMultiLoop_eq adapters beams
  · rfl

end ReqState

namespace NllbModel

/-- Requests with the same adapter and the same beam count get from the fused loop what each gets from its own. -/
theorem fused_beam_search (adapters : ∀ req ∈ reqs, req.adapterSlot = slot) (beams : ∀ req ∈ reqs, numBeams req = b) :
    model.beamMultiLoop slot b reqs = reqs.mapM model.generateBeamOne ∧
      model.beamBatchedMulti reqs = reqs.mapM model.generateBeamOne :=
  ⟨ReqState.beamMultiLoop_eq adapters beams, ReqState.beamBatchedMulti_eq model reqs⟩

def countingModel : NllbModel Int Unit Nat where
  decoderStartId := 0
  eosId := 3
  srcLangId := 1
  tgtLangId := 2
  cacheRows := 8
  encode _ prompt := prompt.length
  decode _ source row := (List.range 4).map fun token =>
    if token = (row.length + source) % 4 then 2 else -(token : Int)
  logsumexp _ := 0
  perLength _ length score := score / length

def countingReq (prompt : List Token) (maxNew : Nat) : BeamReq Unit where
  promptTokens := prompt
  srcLangId := 0
  tgtLangId := 0
  adapterSlot := 1
  numBeams := 2
  maxNew
  lengthPenalty := ()
  earlyStopping := false

theorem fused_beam_search_counting :
    countingModel.beamMultiLoop 1 2 [countingReq [5] 4, countingReq [6, 7] 6] =
        [countingReq [5] 4, countingReq [6, 7] 6].mapM countingModel.generateBeamOne ∧
      countingModel.beamBatchedMulti [countingReq [5] 4, countingReq [6, 7] 6] =
        [countingReq [5] 4, countingReq [6, 7] 6].mapM countingModel.generateBeamOne :=
  fused_beam_search (by decide) (by decide)

end NllbModel

end Metrale.Engine
