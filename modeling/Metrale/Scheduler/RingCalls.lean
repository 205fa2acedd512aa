import Metrale.Scheduler.SnapshotRing
import Metrale.Scheduler.TokenPaths

/-! # The scheduler's calls at the ring

`record` takes the length of the output right behind a push, and the output gets shorter only where the ring is
truncated.  So no live position is behind the end of the output, and every call of a run of token steps is ahead. -/

namespace Metrale.Scheduler

variable {Device Grammar : Type*} {a b c : ActiveSeq Device Grammar} {sched : SchedCtx}

/-- The ring knows no position that the output does not have; without recurrent layers it stays empty. -/
structure RingWithin (sched : SchedCtx) (a : ActiveSeq Device Grammar) : Prop where
  reached : ∀ position ∈ a.ssmRollbackRing.snapshotPositions, position ≤ a.outputTokens.length
  unused : sched.model.hasSsmLayers = false → a.ssmRollbackRing.entries = []

def CallsBetween (first last : SsmDecodeRing) : Prop :=
  ∀ saved, ∃ calls, RingState.AllAhead ⟨first, saved⟩ calls ∧ (calls.foldl RingState.call ⟨first, saved⟩).ring = last

namespace CallsBetween

variable {first middle last : SsmDecodeRing}

theorem refl (ring : SsmDecodeRing) : CallsBetween ring ring := fun _ => ⟨[], trivial, rfl⟩

theorem single (made : RingCall) (ahead : ∀ saved, RingState.Ahead ⟨first, saved⟩ made)
    (reaches : ∀ saved, (RingState.call ⟨first, saved⟩ made).ring = last) : CallsBetween first last :=
  fun saved => ⟨[made], ⟨ahead saved, trivial⟩, reaches saved⟩

theorem allAhead_append {s : RingState} {earlier later : List RingCall} (before : RingState.AllAhead s earlier)
    (behind : RingState.AllAhead (earlier.foldl RingState.call s) later) : RingState.AllAhead s (earlier ++ later) := by
  induction earlier generalizing s with
  | nil => exact behind
  | cons made earlier ih => exact ⟨before.1, ih before.2 behind⟩

theorem trans (earlier : CallsBetween first middle) (later : CallsBetween middle last) : CallsBetween first last := by
  intro saved
  obtain ⟨before, beforeAhead, reaches⟩ := earlier saved
  obtain ⟨behind, behindAhead, ends⟩ := later (before.foldl RingState.call ⟨first, saved⟩).saved
  rw [← reaches] at behindAhead ends
  exact ⟨before ++ behind, allAhead_append beforeAhead behindAhead, by rw [List.foldl_append, ends]⟩

end CallsBetween

/-- A stage that keeps the ring within the output and moves it by calls that are ahead. -/
def Tracks (sched : SchedCtx) (a b : ActiveSeq Device Grammar) : Prop :=
  RingWithin sched a → RingWithin sched b ∧ CallsBetween a.ssmRollbackRing b.ssmRollbackRing

namespace Tracks

theorem trans (first : Tracks sched a b) (second : Tracks sched b c) : Tracks sched a c := by
  intro within
  obtain ⟨middle, earlier⟩ := first within
  obtain ⟨last, later⟩ := second middle
  exact ⟨last, earlier.trans later⟩

theorem grows (ring : b.ssmRollbackRing = a.ssmRollbackRing) (longer : a.outputTokens.length ≤ b.outputTokens.length) :
    Tracks sched a b := by
  intro within
  refine ⟨⟨?_, ?_⟩, ?_⟩
  · rw [ring]
    exact fun position live => (within.reached position live).trans longer
  · rw [ring]
    exact within.unused
  · rw [ring]
    exact .refl _

theorem unchanged (same : (b.ssmRollbackRing, b.outputTokens) = (a.ssmRollbackRing, a.outputTokens)) : Tracks sched a b := by
  simp only [Prod.mk.injEq] at same
  exact grows same.1 (by rw [same.2])

theorem refl (a : ActiveSeq Device Grammar) : Tracks sched a a := .unchanged rfl

theorem ite {condition : Prop} [Decidable condition] (left : Tracks sched a b) (right : Tracks sched a c) :
    Tracks sched a (if condition then b else c) := by
  split
  · exact left
  · exact right

theorem push (tok : Token) : Tracks sched a (a.pushOutput tok) := .grows rfl (by simp [ActiveSeq.pushOutput])

theorem consume : Tracks sched a a.consumeGenerationBudget := .ite (.unchanged rfl) (.unchanged rfl)

theorem updateToolParamState (tok : Token) : Tracks sched a (a.updateToolParamState tok) :=
  .ite (.refl a) (.ite (.unchanged rfl) (.ite (.unchanged rfl)
    (.ite (.ite (.unchanged rfl) (.ite (.unchanged rfl) (.unchanged rfl))) (.refl a))))

end Tracks

/-! ## The two calls -/

/-- Behind a push no live position is the output's length, so the snapshot's record is ahead. -/
theorem snapshotBoundaryIfSsm_tracks (snapshots : SnapshotAnswers) (within : RingWithin sched a)
    (fresh : ∀ position ∈ a.ssmRollbackRing.snapshotPositions, position < a.outputTokens.length) :
    RingWithin sched (snapshotBoundaryIfSsm a sched snapshots) ∧
      CallsBetween a.ssmRollbackRing (snapshotBoundaryIfSsm a sched snapshots).ssmRollbackRing := by
  unfold snapshotBoundaryIfSsm
  split
  · exact ⟨within, .refl _⟩
  next recurrent =>
  split
  · next mask last _ _ =>
    split
    · exact ⟨within, .refl _⟩
    split
    · exact ⟨within, .refl _⟩
    · next slot ring recorded =>
      obtain ⟨enabled, rfl, rfl⟩ := SsmDecodeRing.record_eq_some recorded
      refine ⟨⟨?_, ?_⟩, ?_⟩
      · -- both with the new entry and without it no position is behind the output
        have reached (entry : Nat × Nat) (live : entry ∈ a.ssmRollbackRing.entries.filter (·.2 != a.ssmRollbackRing.nextSlot) ++
            [(a.outputTokens.length, a.ssmRollbackRing.nextSlot)]) : entry.1 ≤ a.outputTokens.length := by
          rw [List.mem_append, List.mem_singleton] at live
          cases live with
          | inl old => exact within.reached entry.1 (List.mem_map_of_mem (List.mem_filter.mp old).1)
          | inr new => rw [new]
        intro position live
        cases isSaved : snapshots.saved <;> simp only [isSaved, if_true, Bool.false_eq_true, if_false] at live
        · obtain ⟨entry, member, rfl⟩ := List.mem_map.mp live
          exact reached entry (List.mem_filter.mp member).1
        · obtain ⟨entry, member, rfl⟩ := List.mem_map.mp live
          exact reached entry member
      · intro none
        simp [none] at recurrent
      · refine .single (.record a.outputTokens.length snapshots.saved) (fun _ => fresh) fun saved => ?_
        cases isSaved : snapshots.saved <;> simp only [RingState.call, recorded] <;> rfl
  · exact ⟨within, .refl _⟩

theorem snapshotContent_tracks (tok : Token) (snapshots : SnapshotAnswers) :
    Tracks sched a (((a.pushOutput tok).updateToolParamState tok).snapshotContent sched snapshots) := by
  have pushed : Tracks sched a ((a.pushOutput tok).updateToolParamState tok) := (Tracks.push tok).trans (.updateToolParamState tok)
  unfold ActiveSeq.snapshotContent
  refine .ite pushed fun within => ?_
  have quiet : Quiet (a.pushOutput tok) ((a.pushOutput tok).updateToolParamState tok) := updateToolParamState_quiet tok
  have ring : ((a.pushOutput tok).updateToolParamState tok).ssmRollbackRing = a.ssmRollbackRing := by
    simp only [ActiveSeq.updateToolParamState, ActiveSeq.toolBodyToken]
    repeat' split
    all_goals rfl
  have fresh := snapshotBoundaryIfSsm_tracks snapshots (pushed within).1 fun position live => by
    rw [ring] at live
    rw [quiet.outputTokens]
    have reached := within.reached position live
    simp only [ActiveSeq.pushOutput, List.length_append, List.length_singleton]
    omega
  rw [ring] at fresh
  exact fresh

variable [GrammarState Grammar]

theorem rollbackOrStop_tracks (guard : GuardStop) (minKeep : Nat) (snapshots : SnapshotAnswers) :
    Tracks sched a (a.rollbackOrStop guard minKeep sched snapshots) := by
  cases rollbackOrStop_cases a minKeep sched snapshots guard with
  | inl stopped =>
    rw [stopped]
    exact .unchanged rfl
  | inr done =>
    obtain ⟨keepLen, rolls, done⟩ := done
    rw [done]
    intro within
    have length : (rolledBackTo a keepLen (ringBehind a sched keepLen)).outputTokens.length = keepLen :=
      List.length_take_of_le rolls.within
    cases recurrent : sched.model.hasSsmLayers with
    | true =>
      have ring : (rolledBackTo a keepLen (ringBehind a sched keepLen)).ssmRollbackRing = a.ssmRollbackRing.truncateAfter keepLen :=
        if_pos recurrent
      refine ⟨⟨?_, fun none => by rw [recurrent] at none; cases none⟩, ?_⟩
      · rw [ring, length]
        intro position live
        obtain ⟨entry, member, rfl⟩ := List.mem_map.mp live
        rw [SsmDecodeRing.truncateAfter_entries] at member
        simpa using (List.mem_filter.mp member).2
      · rw [ring]
        exact .single (.truncateAfter keepLen) (fun _ => trivial) fun _ => rfl
    | false =>
      have ring : (rolledBackTo a keepLen (ringBehind a sched keepLen)).ssmRollbackRing = a.ssmRollbackRing :=
        if_neg (by rw [recurrent]; exact Bool.false_ne_true)
      refine ⟨⟨?_, ?_⟩, ?_⟩
      · rw [ring, SsmDecodeRing.snapshotPositions, within.unused recurrent]
        exact fun position live => absurd live List.not_mem_nil
      · rw [ring]
        exact within.unused
      · rw [ring]
        exact .refl _

/-! ## Token steps -/

section Stages

variable {request : RequestAnswers} {tags : TagTokens} {tok : Token}

theorem decodeContentLoop_tracks (snapshots : SnapshotAnswers) : Tracks sched a (a.decodeContentLoop sched snapshots) :=
  .ite (rollbackOrStop_tracks _ _ _) (.refl a)

theorem decodeProse_tracks (snapshots : SnapshotAnswers) : Tracks sched a (a.decodeProse sched snapshots) := by
  have counted : Tracks sched a a.countProse := .unchanged rfl
  exact .ite (.ite (counted.trans (rollbackOrStop_tracks _ _ _)) counted) (.refl a)

theorem decodeFuzzy_tracks (snapshots : SnapshotAnswers) : Tracks sched a (a.decodeFuzzy sched snapshots) := by
  refine .ite ?_ (.refl a)
  split
  · exact .refl a
  · exact rollbackOrStop_tracks _ _ _

omit [GrammarState Grammar] in
theorem pushClose_tracks (close : List Token) : Tracks sched a (ActiveSeq.pushClose request close a) := by
  induction close generalizing a with
  | nil => exact .refl a
  | cons tok close ih =>
    have streamed : Tracks sched a ((a.pushOutput tok).stream (.token tok) request).1 := (Tracks.push tok).trans (.unchanged rfl)
    exact .ite (streamed.trans ih) streamed

theorem decodeBudgetStop_tracks (request : RequestAnswers) : Tracks sched a (a.decodeBudgetStop sched request) :=
  .ite ((pushClose_tracks (a.closeTokens sched.levers.grammarBudgetClose)).trans (.unchanged rfl)) (.refl a)

omit [GrammarState Grammar] in
theorem decodeStream_tracks (tok : Token) (request : RequestAnswers) : Tracks sched a (a.decodeStream tok request) :=
  .ite (.refl a) (.unchanged rfl)

omit [GrammarState Grammar] in
theorem decodeThinking_tracks : Tracks sched a (a.decodeThinking tok tags sched) :=
  Tracks.consume.trans (.ite (.unchanged rfl) (.ite (.unchanged rfl) (.unchanged rfl)))

theorem handleContentToken_tracks (answers : DecodeAnswers) : Tracks sched a (a.handleContentToken sched answers) := by
  have counted : Tracks sched a a.consumeGenerationBudget.startContent.countContent := Tracks.consume.trans (.unchanged rfl)
  have capped (b : ActiveSeq Device Grammar) : Tracks sched b (b.stopAtContentCap sched) := .ite (.unchanged rfl) (.refl b)
  have cleared (b : ActiveSeq Device Grammar) : Tracks sched b b.clearThinkJustEnded := .unchanged rfl
  have ready := (counted.trans (capped _)).trans (cleared _)
  exact (ready.trans (decodeContentLoop_tracks _)).trans (decodeProse_tracks _)

theorem decodeCount_tracks (answers : DecodeAnswers) : Tracks sched a (a.decodeCount tok tags sched answers) := by
  have fed : Tracks sched a a.resetSkipCount := .unchanged rfl
  have advanced : Tracks sched a (a.resetSkipCount.advanceGrammar tok) := fed.trans (.ite (.refl _) (.unchanged rfl))
  have satisfied (b : ActiveSeq Device Grammar) : Tracks sched b (b.decodeSatisfyToolCall tok tags) :=
    .ite (.unchanged rfl) (.refl b)
  have opened (b : ActiveSeq Device Grammar) : Tracks sched b (b.decodeToolStart tok tags) := .ite (.unchanged rfl) (.refl b)
  have counted (b : ActiveSeq Device Grammar) :
      Tracks sched b (if b.think.insideThinking then b.decodeThinking tok tags sched else b.handleContentToken sched answers) :=
    .ite decodeThinking_tracks (handleContentToken_tracks answers)
  exact ((advanced.trans (counted _)).trans (satisfied _)).trans (opened _)

theorem emitContentToken_tracks (answers : DecodeAnswers) :
    Tracks sched a (a.emitContentToken tok sched request answers) := by
  have ceiling (b : ActiveSeq Device Grammar) : Tracks sched b (b.decodeCeilingStop sched) := .ite (.unchanged rfl) (.refl b)
  have grammar (b : ActiveSeq Device Grammar) : Tracks sched b b.decodeGrammarStop := .ite (.unchanged rfl) (.refl b)
  have recorded : Tracks sched a (((a.pushOutput tok).updateToolParamState tok).snapshotContent sched answers.boundary) :=
    snapshotContent_tracks tok answers.boundary
  have stopped := (recorded.trans (decodeStream_tracks tok request)).trans (decodeBudgetStop_tracks request)
  exact ((stopped.trans (ceiling _)).trans (grammar _)).trans (decodeFuzzy_tracks _)

theorem decodeKeep_tracks (answers : DecodeAnswers) : Tracks sched a (a.decodeKeep tok sched request answers) := by
  have recorded : Tracks sched a ((a.pushOutput tok).updateToolParamState tok) := (Tracks.push tok).trans (.updateToolParamState tok)
  have dropped : Tracks sched a (a.dropEos sched) := .ite (.unchanged rfl) (.refl a)
  exact .ite (.ite dropped (recorded.trans (.unchanged rfl))) (emitContentToken_tracks answers)

theorem processDecodedToken_tracks (logprobs : Option TokenLogprobs) (now : Nat) (answers : DecodeAnswers) :
    Tracks sched a (a.processDecodedToken tok logprobs now tags sched request answers) := by
  have stamped : Tracks sched a (a.stamped tok now) := .unchanged rfl
  have counted : Tracks sched a ((a.stamped tok now).decodeCount tok tags sched answers) :=
    stamped.trans (decodeCount_tracks answers)
  have undemanding (b : ActiveSeq Device Grammar) : Tracks sched b b.dropToolDemand := .ite (.unchanged rfl) (.refl b)
  have recorded (b : ActiveSeq Device Grammar) : Tracks sched b (b.pushLogprobs logprobs) := .unchanged rfl
  have toolEnd (b : ActiveSeq Device Grammar) : Tracks sched b (b.decodeToolEnd tok request) :=
    (Tracks.push tok).trans (.ite (.unchanged rfl) (.unchanged rfl))
  refine .ite ((stamped.trans (.push tok)).trans (.unchanged rfl)) (.ite (stamped.trans (.unchanged rfl)) ?_)
  refine .ite (stamped.trans (.unchanged rfl)) (.ite ((counted.trans (.push tok)).trans (.unchanged rfl)) ?_)
  have kept := (counted.trans (undemanding _)).trans (recorded _)
  exact .ite (kept.trans (toolEnd _)) (kept.trans (decodeKeep_tracks answers))

omit [GrammarState Grammar] in
theorem emitCount_tracks : Tracks sched a (a.emitCount tok sched) := by
  have thinking : Tracks sched a (a.emitThinking tok) := Tracks.consume.trans (.ite (.unchanged rfl) (.unchanged rfl))
  have cleared : Tracks sched a a.consumeGenerationBudget.clearThinkJustEnded.countContent := Tracks.consume.trans (.unchanged rfl)
  have capped (b : ActiveSeq Device Grammar) : Tracks sched b (b.stopAtContentCap sched) := .ite (.unchanged rfl) (.refl b)
  have looped (b : ActiveSeq Device Grammar) : Tracks sched b (b.emitContentLoopStop sched) := .ite (.unchanged rfl) (.refl b)
  have prose (b : ActiveSeq Device Grammar) : Tracks sched b (b.emitProse sched) :=
    .ite (.ite (.unchanged rfl) (.unchanged rfl)) (.refl b)
  exact .ite thinking (((cleared.trans (capped _)).trans (looped _)).trans (prose _))

theorem emitPush_tracks (logprobs : Option TokenLogprobs) : Tracks sched a (a.emitPush tok logprobs) := by
  have reset (b : ActiveSeq Device Grammar) : Tracks sched b b.resetSkipCount := .unchanged rfl
  have satisfied (b : ActiveSeq Device Grammar) : Tracks sched b (b.satisfyToolCall tok) := .ite (.unchanged rfl) (.refl b)
  have completed (b : ActiveSeq Device Grammar) : Tracks sched b (b.completeToolCall tok) := .ite (.unchanged rfl) (.refl b)
  have prose (b : ActiveSeq Device Grammar) : Tracks sched b (b.resetProse tok) := .ite (.unchanged rfl) (.refl b)
  have advanced (b : ActiveSeq Device Grammar) : Tracks sched b (b.advanceGrammarOrDrop tok) := .ite (.refl b) (.unchanged rfl)
  have recorded (b : ActiveSeq Device Grammar) : Tracks sched b (b.pushLogprobs logprobs) := .unchanged rfl
  have counted (b : ActiveSeq Device Grammar) : Tracks sched b b.countPostThink := .ite (.unchanged rfl) (.refl b)
  have tagged := (((reset a).trans (satisfied _)).trans (.updateToolParamState tok)).trans (completed _)
  exact ((((tagged.trans (prose _)).trans (advanced _)).trans (recorded _)).trans (.push tok)).trans (counted _)

theorem emitToken_tracks (logprobs : Option TokenLogprobs) : Tracks sched a (a.emitToken tok logprobs sched request) := by
  have lengthStop (b : ActiveSeq Device Grammar) : Tracks sched b (b.emitLengthStop sched request) :=
    .ite ((pushClose_tracks (b.closeTokens sched.levers.grammarBudgetClose)).trans (.unchanged rfl)) (.refl b)
  have streamed (b : ActiveSeq Device Grammar) : Tracks sched b (b.stream (b.tokenEvent tok) request).1 := .unchanged rfl
  have sent (b : ActiveSeq Device Grammar) : Tracks sched b (b.emitStream tok sched request) :=
    .ite (lengthStop b) (.ite ((streamed b).trans (lengthStop _)) (.unchanged rfl))
  have pushed : Tracks sched a (a.pushOutput tok) := .push tok
  have counted : Tracks sched a ((a.emitPush tok logprobs).emitCount tok sched) := (emitPush_tracks logprobs).trans emitCount_tracks
  refine .ite (.unchanged rfl) (.ite (pushed.trans (.unchanged rfl)) (.ite (pushed.trans (.unchanged rfl)) ?_))
  refine .ite (.unchanged rfl) (.ite (.unchanged rfl) (.ite (.ite counted (counted.trans (.unchanged rfl))) ?_))
  exact counted.trans (sent _)

end Stages

/-! ## Runs of token steps -/

inductive TokenStep (tags : TagTokens) (sched : SchedCtx) [GrammarState Grammar] (a : ActiveSeq Device Grammar) :
    ActiveSeq Device Grammar → Prop where
  | decode (input : TokenInput Device) : TokenStep tags sched a (a.decodeInput tags sched input)
  | emit (input : TokenInput Device) : TokenStep tags sched a (a.emitInput sched input)

theorem tokenSteps_tracks {tags : TagTokens} (steps : Relation.ReflTransGen (TokenStep tags sched) a b) : Tracks sched a b := by
  have advanced (b : ActiveSeq Device Grammar) (input : TokenInput Device) : Tracks sched b (b.advanced input) := .unchanged rfl
  induction steps with
  | refl => exact .refl a
  | tail _ taken ih =>
    cases taken with
    | decode input =>
      exact (ih.trans (advanced _ input)).trans (processDecodedToken_tracks input.logprobs input.now input.answers)
    | emit input => exact (ih.trans (advanced _ input)).trans (emitToken_tracks input.logprobs)

theorem within_of_fresh {capacity : Nat} (fresh : a.ssmRollbackRing = .new capacity) : RingWithin sched a := by
  constructor
  · rw [fresh]
    exact fun position live => absurd live List.not_mem_nil
  · rw [fresh]
    exact fun _ => rfl

theorem tokenSteps_allAhead {tags : TagTokens} {capacity : Nat} (fresh : a.ssmRollbackRing = .new capacity)
    (steps : Relation.ReflTransGen (TokenStep tags sched) a b) :
    ∃ calls, RingState.AllAhead (.new capacity) calls ∧
      (calls.foldl RingState.call (.new capacity)).ring = b.ssmRollbackRing := by
  obtain ⟨-, calls⟩ := tokenSteps_tracks steps (within_of_fresh fresh)
  rw [fresh] at calls
  exact calls fun _ => none

end Metrale.Scheduler
