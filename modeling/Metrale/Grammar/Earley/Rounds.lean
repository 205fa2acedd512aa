import Metrale.Grammar.Earley.Parser

/-! # What a round of the parser adds

The items, entries and flags of a round only grow.  Processing an item adds exactly its consequences. -/

namespace Metrale.Grammar

inductive Fact where
  | item (state : ParserState)
  | entry (entry : CompletableEntry)
  | scan (state : ParserState)
  | accept
deriving DecidableEq

namespace Round

variable {round : Round} {state : ParserState} {fact : Fact} {earlier : List (List CompletableEntry)}

def Holds (round : Round) : Fact → Prop
  | .item state => state ∈ round.visited
  | .entry entry => entry ∈ round.latest
  | .scan state => state ∈ round.toBeAdded
  | .accept => round.acceptStopToken = true

theorem enqueue_holds : (round.enqueue state).Holds fact ↔ round.Holds fact ∨ fact = .item state := by
  simp only [enqueue]
  split
  · next present =>
    refine ⟨.inl, ?_⟩
    rintro (held | rfl)
    · exact held
    · exact present
  · cases fact with
    | item other => simp only [Holds, List.mem_cons, Fact.item.injEq, or_comm]
    | entry | scan | accept => simp only [Holds, reduceCtorEq, or_false]

theorem pushInLatestRow_holds {entry : CompletableEntry} :
    (round.pushInLatestRow entry).Holds fact ↔ round.Holds fact ∨ fact = .entry entry := by
  cases fact with
  | entry other => simp only [pushInLatestRow, Holds, List.mem_append, List.mem_singleton, Fact.entry.injEq]
  | item | scan | accept => simp only [pushInLatestRow, Holds, reduceCtorEq, or_false]

theorem foldl_holds {α : Type} {step : Round → α → Round} (adds : α → Fact → Prop) (elements : List α)
    (added : ∀ round, ∀ element ∈ elements, ∀ fact,
      (step round element).Holds fact ↔ round.Holds fact ∨ adds element fact) (round : Round) (fact : Fact) :
    (elements.foldl step round).Holds fact ↔ round.Holds fact ∨ ∃ element ∈ elements, adds element fact := by
  induction elements generalizing round with
  | nil => simp only [List.foldl_nil, List.not_mem_nil, false_and, exists_false, or_false]
  | cons head tail ih =>
    rw [List.foldl_cons, ih (fun round element member => added round element (List.mem_cons_of_mem _ member)),
      added round head List.mem_cons_self]
    simp only [List.mem_cons, exists_eq_or_imp, or_assoc]

structure Queued (before after : Round) : Prop where
  fresh : ∃ new, after.queue = before.queue ++ new ∧ after.visited = new.reverse ++ before.visited
  nodup : before.visited.Nodup → after.visited.Nodup

theorem Queued.refl (round : Round) : Queued round round := ⟨⟨[], (List.append_nil _).symm, rfl⟩, id⟩

theorem Queued.trans {first second third : Round} (before : Queued first second) (after : Queued second third) :
    Queued first third := by
  obtain ⟨new, queue, visited⟩ := before.fresh
  obtain ⟨newer, queue', visited'⟩ := after.fresh
  refine ⟨⟨new ++ newer, ?_, ?_⟩, fun distinct => after.nodup (before.nodup distinct)⟩
  · rw [queue', queue, List.append_assoc]
  · rw [visited', visited, List.reverse_append, List.append_assoc]

theorem Queued.foldl {α : Type} {step : Round → α → Round} (queued : ∀ round element, Queued round (step round element))
    (elements : List α) (round : Round) : Queued round (elements.foldl step round) := by
  induction elements generalizing round with
  | nil => exact .refl round
  | cons head tail ih => exact (queued round head).trans (ih (step round head))

theorem enqueue_queued (round : Round) (state : ParserState) : Queued round (round.enqueue state) := by
  simp only [enqueue]
  split
  · exact .refl round
  · next absent => exact ⟨⟨[state], rfl, rfl⟩, fun distinct => List.nodup_cons.mpr ⟨absent, distinct⟩⟩

theorem pushInLatestRow_queued (round : Round) (entry : CompletableEntry) :
    Queued round (round.pushInLatestRow entry) :=
  ⟨⟨[], (List.append_nil _).symm, rfl⟩, id⟩

theorem row_earlier {position : Nat} (before : position < earlier.length) :
    round.row earlier position = earlier.getD position [] := if_pos before

theorem row_latest : round.row earlier earlier.length = round.latest := if_neg (Nat.lt_irrefl _)

end Round

namespace GrammarData

open Round

variable {grammar : GrammarData} {earlier : List (List CompletableEntry)} {state : ParserState} {round : Round}
  {edge : FsmEdge} {fact : Fact}

inductive EdgeAdds (grammar : GrammarData) (earlier : List (List CompletableEntry)) (state : ParserState)
    (edge : FsmEdge) : Fact → Prop where
  | epsilon : edge.edgeType = .epsilon → EdgeAdds grammar earlier state edge (.item (state.atElement edge.target))
  | nullable {ruleId} : edge.edgeType = .ruleRef ruleId → grammar.ruleAllowsEmpty ruleId = true →
      EdgeAdds grammar earlier state edge (.item (state.atElement edge.target))
  | start {ruleId} : edge.edgeType = .ruleRef ruleId → EdgeAdds grammar earlier state edge
      (.item (grammar.ruleStart ruleId (grammar.refStart earlier.length state edge.target false)))
  | waits {ruleId} : edge.edgeType = .ruleRef ruleId → grammar.shortcut earlier.length state edge.target = false →
      EdgeAdds grammar earlier state edge (.entry (ruleId, state.atElement edge.target))
  | copied {ruleId ruleStartPos parent} : edge.edgeType = .ruleRef ruleId →
      grammar.shortcut earlier.length state edge.target = true → state.ruleStartPos = some ruleStartPos →
      (state.ruleId, parent) ∈ earlier.getD ruleStartPos [] →
      EdgeAdds grammar earlier state edge (.entry (ruleId, parent))
  | leaves {auxIndex} : edge.edgeType = .repeatRef auxIndex →
      (grammar.repeatEdgeInfo auxIndex).lower ≤ state.repeatCount →
      EdgeAdds grammar earlier state edge (.item (state.atElement edge.target))
  | again {auxIndex} : edge.edgeType = .repeatRef auxIndex →
      ¬ (grammar.repeatEdgeInfo auxIndex).upper ≤ state.repeatCount → EdgeAdds grammar earlier state edge
      (.item (grammar.ruleStart (grammar.repeatEdgeInfo auxIndex).ruleId (some earlier.length)))
  | waitsAgain {auxIndex} : edge.edgeType = .repeatRef auxIndex →
      ¬ (grammar.repeatEdgeInfo auxIndex).upper ≤ state.repeatCount →
      EdgeAdds grammar earlier state edge (.entry ((grammar.repeatEdgeInfo auxIndex).ruleId, state))

inductive Advanced (grammar : GrammarData) (parent : ParserState) (refId : Nat) : ParserState → Prop where
  | passes : grammar.repeatEdgeFor parent refId = none → Advanced grammar parent refId parent
  | leaves {edge : FsmEdge} {info} : grammar.repeatEdgeFor parent refId = some (edge, info) →
      info.lower ≤ parent.repeatCount + 1 → Advanced grammar parent refId (parent.atElement edge.target)
  | again {edge : FsmEdge} {info} : grammar.repeatEdgeFor parent refId = some (edge, info) →
      parent.repeatCount + 1 < info.upper → Advanced grammar parent refId (parent.counted (parent.repeatCount + 1))

theorem repeatEdgeFor_spec {parent : ParserState} {refId : Nat} {info : RepeatEdgeRef}
    (found : grammar.repeatEdgeFor parent refId = some (edge, info)) :
    edge ∈ grammar.edgesOf parent ∧ ∃ auxIndex, edge.edgeType = .repeatRef auxIndex ∧
      info = grammar.repeatEdgeInfo auxIndex ∧ info.ruleId = refId := by
  obtain ⟨other, member, matched⟩ := List.exists_of_findSome?_eq_some found
  split at matched
  · next auxIndex kind =>
    dsimp only at matched
    split at matched
    · next same =>
      cases matched
      exact ⟨member, auxIndex, kind, rfl, same⟩
    · cases matched
  · cases matched

/-- What follows from an item, with the latest row as it is when the item is completed. -/
inductive Adds (grammar : GrammarData) (earlier : List (List CompletableEntry)) (latest : List CompletableEntry)
    (state : ParserState) : Fact → Prop where
  | edge {edge : FsmEdge} {fact : Fact} : edge ∈ grammar.edgesOf state → EdgeAdds grammar earlier state edge fact →
      Adds grammar earlier latest state fact
  | accepts : grammar.isEnd state = true → state.ruleStartPos = none → Adds grammar earlier latest state .accept
  | completes {ruleStartPos parent advanced} : grammar.isEnd state = true →
      state.ruleStartPos = some ruleStartPos → ruleStartPos < earlier.length →
      (state.ruleId, parent) ∈ earlier.getD ruleStartPos [] → Advanced grammar parent state.ruleId advanced →
      Adds grammar earlier latest state (.item advanced)
  | completesHere {parent advanced} : grammar.isEnd state = true → state.ruleStartPos = some earlier.length →
      (state.ruleId, parent) ∈ latest → Advanced grammar parent state.ruleId advanced →
      Adds grammar earlier latest state (.item advanced)
  | scans : (grammar.fsmOf state.ruleId).isScanableState state.elementId = true →
      Adds grammar earlier latest state (.scan state)

def Started (earlier : List (List CompletableEntry)) (state : ParserState) : Prop :=
  ∀ ruleStartPos ∈ state.ruleStartPos, ruleStartPos ≤ earlier.length

theorem addRightRecursionParents_holds {srcRuleId srcPos refRuleId : Nat} (before : srcPos < earlier.length) :
    (addRightRecursionParents earlier round srcRuleId srcPos refRuleId).Holds fact ↔
      round.Holds fact ∨ ∃ parent, (srcRuleId, parent) ∈ earlier.getD srcPos [] ∧ fact = .entry (refRuleId, parent) := by
  simp only [addRightRecursionParents]
  rw [foldl_holds (fun entry fact => fact = .entry entry) _ fun _ _ _ _ => pushInLatestRow_holds,
    row_earlier before]
  simp only [List.mem_filterMap]
  constructor
  · rintro (held | ⟨entry, ⟨⟨first, parent⟩, member, copied⟩, rfl⟩)
    · exact .inl held
    · dsimp only at copied
      split at copied
      · cases copied
      · next same =>
        split at copied
        · cases copied
        · cases copied
          have same : first = srcRuleId := by simpa using same
          exact .inr ⟨parent, same ▸ member, rfl⟩
  · rintro (held | ⟨parent, member, rfl⟩)
    · exact .inl held
    · by_cases present : (refRuleId, parent) ∈ round.latest
      · exact .inl present
      · refine .inr ⟨_, ⟨_, member, ?_⟩, rfl⟩
        dsimp only
        rw [if_neg (by simp), if_neg present]

theorem addRightRecursionParents_queued (round : Round) (srcRuleId srcPos refRuleId : Nat) :
    Queued round (addRightRecursionParents earlier round srcRuleId srcPos refRuleId) :=
  Queued.foldl pushInLatestRow_queued _ round

/-! ## Predict -/

theorem recordParent_queued (target refRuleId : Nat) (isRepeat : Bool) (round : Round) :
    Queued round (grammar.recordParent earlier state target refRuleId isRepeat round) := by
  simp only [recordParent]
  split
  · cases state.ruleStartPos with
    | none => exact .refl round
    | some ruleStartPos => exact addRightRecursionParents_queued round _ _ _
  · split <;> exact pushInLatestRow_queued round _

theorem predictRefEdge_queued (target refRuleId : Nat) (isRepeat : Bool) (round : Round) :
    Queued round (grammar.predictRefEdge earlier state target refRuleId isRepeat round) := by
  have recorded : Queued round (grammar.recordParent earlier state target refRuleId isRepeat round) :=
    recordParent_queued target refRuleId isRepeat round
  simp only [predictRefEdge]
  split
  · exact (recorded.trans (enqueue_queued _ _)).trans (enqueue_queued _ _)
  · exact recorded.trans (enqueue_queued _ _)

theorem recordParent_holds {target refRuleId : Nat} (started : Started earlier state) :
    (grammar.recordParent earlier state target refRuleId false round).Holds fact ↔ round.Holds fact ∨
      (grammar.shortcut earlier.length state target = false ∧ fact = .entry (refRuleId, state.atElement target)) ∨
      ∃ ruleStartPos parent, grammar.shortcut earlier.length state target = true ∧
        state.ruleStartPos = some ruleStartPos ∧ (state.ruleId, parent) ∈ earlier.getD ruleStartPos [] ∧
        fact = .entry (refRuleId, parent) := by
  simp only [recordParent, Bool.not_false, Bool.true_and]
  cases taken : grammar.shortcut earlier.length state target with
  | false =>
    rw [if_neg Bool.false_ne_true, if_neg Bool.false_ne_true, pushInLatestRow_holds]
    simp only [true_and, Bool.false_eq_true, false_and, exists_false, or_false]
  | true =>
    rw [if_pos rfl]
    simp only [Bool.true_eq_false, false_and, true_and, false_or]
    cases starts : state.ruleStartPos with
    | none => simp only [reduceCtorEq, false_and, exists_false, or_false]
    | some ruleStartPos =>
      have before : ruleStartPos < earlier.length := by
        have bound := started ruleStartPos starts
        simp only [shortcut, starts, Bool.and_eq_true, bne_iff_ne, ne_eq, Option.some_inj] at taken
        exact Nat.lt_of_le_of_ne bound taken.2
      simp only [addRightRecursionParents_holds before, Option.some_inj, exists_and_left, exists_eq_left']

/-- A reference adds its start, its entries, and the item past it where the rule is nullable. -/
theorem predictRefEdge_plain_holds {ruleId : Nat} (started : Started earlier state)
    (reference : edge.edgeType = .ruleRef ruleId) :
    (grammar.predictRefEdge earlier state edge.target ruleId false round).Holds fact ↔
      round.Holds fact ∨ EdgeAdds grammar earlier state edge fact := by
  have adds : EdgeAdds grammar earlier state edge fact ↔
      (grammar.shortcut earlier.length state edge.target = false ∧
        fact = .entry (ruleId, state.atElement edge.target)) ∨
      (∃ ruleStartPos parent, grammar.shortcut earlier.length state edge.target = true ∧
        state.ruleStartPos = some ruleStartPos ∧ (state.ruleId, parent) ∈ earlier.getD ruleStartPos [] ∧
        fact = .entry (ruleId, parent)) ∨
      (grammar.ruleAllowsEmpty ruleId = true ∧ fact = .item (state.atElement edge.target)) ∨
      fact = .item (grammar.ruleStart ruleId (grammar.refStart earlier.length state edge.target false)) := by
    constructor
    · intro added
      cases added with
      | waits same long => cases reference.symm.trans same; exact .inl ⟨long, rfl⟩
      | copied same short starts member =>
        cases reference.symm.trans same
        exact .inr (.inl ⟨_, _, short, starts, member, rfl⟩)
      | nullable same empty => cases reference.symm.trans same; exact .inr (.inr (.inl ⟨empty, rfl⟩))
      | start same => cases reference.symm.trans same; exact .inr (.inr (.inr rfl))
      | epsilon other => cases reference.symm.trans other
      | leaves other => cases reference.symm.trans other
      | again other => cases reference.symm.trans other
      | waitsAgain other => cases reference.symm.trans other
    · rintro (⟨long, rfl⟩ | ⟨_, _, short, starts, member, rfl⟩ | ⟨empty, rfl⟩ | rfl)
      · exact .waits reference long
      · exact .copied reference short starts member
      · exact .nullable reference empty
      · exact .start reference
  rw [adds]
  simp only [predictRefEdge, enqueue_holds, Bool.not_false, Bool.true_and]
  split
  · next empty => rw [enqueue_holds, recordParent_holds started]; simp only [empty, true_and, or_assoc]
  · next nonempty => rw [recordParent_holds started]; simp only [nonempty, Bool.false_eq_true, false_and, false_or, or_assoc]

theorem predictRefEdge_repeat_holds {target refRuleId : Nat} :
    (grammar.predictRefEdge earlier state target refRuleId true round).Holds fact ↔
      round.Holds fact ∨ fact = .entry (refRuleId, state) ∨
        fact = .item (grammar.ruleStart refRuleId (some earlier.length)) := by
  simp only [predictRefEdge, recordParent, refStart, Bool.not_true, Bool.false_and, Bool.false_eq_true, if_false,
    if_true, enqueue_holds, pushInLatestRow_holds, or_assoc]

theorem expandEdge_queued (round : Round) (edge : FsmEdge) :
    Queued round (grammar.expandEdge earlier state round edge) := by
  simp only [expandEdge]
  cases edge.edgeType with
  | epsilon => exact enqueue_queued _ _
  | ruleRef ruleId => exact predictRefEdge_queued _ _ _ _
  | repeatRef auxIndex =>
    dsimp only
    have left : Queued round (if (grammar.repeatEdgeInfo auxIndex).lower ≤ state.repeatCount then
        round.enqueue (state.atElement edge.target) else round) := by
      split
      · exact enqueue_queued _ _
      · exact .refl _
    split
    · exact left
    · exact left.trans (predictRefEdge_queued _ _ _ _)
  | charRange => exact .refl _
  | eos => exact .refl _

theorem expandEdge_holds (started : Started earlier state) :
    (grammar.expandEdge earlier state round edge).Holds fact ↔
      round.Holds fact ∨ EdgeAdds grammar earlier state edge fact := by
  simp only [expandEdge]
  cases kind : edge.edgeType with
  | epsilon =>
    dsimp only
    rw [enqueue_holds]
    refine or_congr_right ⟨?_, fun added => ?_⟩
    · rintro rfl
      exact .epsilon kind
    · cases added <;> simp_all only [reduceCtorEq]
  | ruleRef ruleId => exact predictRefEdge_plain_holds started kind
  | repeatRef auxIndex =>
    dsimp only
    have left : ∀ fact, (if (grammar.repeatEdgeInfo auxIndex).lower ≤ state.repeatCount then
        round.enqueue (state.atElement edge.target) else round).Holds fact ↔ round.Holds fact ∨
          (grammar.repeatEdgeInfo auxIndex).lower ≤ state.repeatCount ∧ fact = .item (state.atElement edge.target) := by
      intro fact
      split
      · next reached => simp only [enqueue_holds, reached, true_and]
      · next short => simp only [short, false_and, or_false]
    have adds : EdgeAdds grammar earlier state edge fact ↔
        ((grammar.repeatEdgeInfo auxIndex).lower ≤ state.repeatCount ∧ fact = .item (state.atElement edge.target)) ∨
        ¬ (grammar.repeatEdgeInfo auxIndex).upper ≤ state.repeatCount ∧
          (fact = .entry ((grammar.repeatEdgeInfo auxIndex).ruleId, state) ∨
            fact = .item (grammar.ruleStart (grammar.repeatEdgeInfo auxIndex).ruleId (some earlier.length))) := by
      constructor
      · intro added
        cases added with
        | leaves same reached => cases kind.symm.trans same; exact .inl ⟨reached, rfl⟩
        | again same below => cases kind.symm.trans same; exact .inr ⟨below, .inr rfl⟩
        | waitsAgain same below => cases kind.symm.trans same; exact .inr ⟨below, .inl rfl⟩
        | epsilon other => cases kind.symm.trans other
        | nullable other => cases kind.symm.trans other
        | start other => cases kind.symm.trans other
        | waits other => cases kind.symm.trans other
        | copied other => cases kind.symm.trans other
      · rintro (⟨reached, rfl⟩ | ⟨below, rfl | rfl⟩)
        · exact .leaves kind reached
        · exact .waitsAgain kind below
        · exact .again kind below
    rw [adds]
    split
    · next full => simp only [left, full, not_true_eq_false, false_and, or_false]
    · next below => rw [predictRefEdge_repeat_holds, left]; simp only [below, not_false_eq_true, true_and, or_assoc]
  | charRange =>
    refine (or_iff_left fun added => ?_).symm
    cases added <;> simp_all only [reduceCtorEq]
  | eos =>
    refine (or_iff_left fun added => ?_).symm
    cases added <;> simp_all only [reduceCtorEq]

theorem expandNextRuleRefOnFsm_queued (round : Round) :
    Queued round (grammar.expandNextRuleRefOnFsm earlier state round) :=
  Queued.foldl expandEdge_queued _ round

theorem expandNextRuleRefOnFsm_holds (started : Started earlier state) :
    (grammar.expandNextRuleRefOnFsm earlier state round).Holds fact ↔
      round.Holds fact ∨ ∃ edge ∈ grammar.edgesOf state, EdgeAdds grammar earlier state edge fact :=
  foldl_holds (EdgeAdds grammar earlier state) _ (fun _ _ _ _ => expandEdge_holds started) round fact

/-! ## Complete -/

theorem completeFsmParent_queued (parent : ParserState) (refId : Nat) (round : Round) :
    Queued round (grammar.completeFsmParent parent refId round) := by
  simp only [completeFsmParent]
  cases grammar.repeatEdgeFor parent refId with
  | none => exact enqueue_queued _ _
  | some found =>
    obtain ⟨edge, info⟩ := found
    dsimp only
    have left : Queued round
        (if info.lower ≤ ((parent.repeatCount + 1 : Nat) : Int) then round.enqueue (parent.atElement edge.target)
        else round) := by
      split
      · exact enqueue_queued _ _
      · exact .refl _
    split
    · exact left.trans (enqueue_queued _ _)
    · exact left

theorem completeFsmParent_holds {parent : ParserState} {refId : Nat} :
    (grammar.completeFsmParent parent refId round).Holds fact ↔
      round.Holds fact ∨ ∃ advanced, Advanced grammar parent refId advanced ∧ fact = .item advanced := by
  simp only [completeFsmParent]
  cases found : grammar.repeatEdgeFor parent refId with
  | none =>
    dsimp only
    rw [enqueue_holds]
    refine or_congr_right ⟨fun same => ⟨parent, .passes found, same⟩, ?_⟩
    rintro ⟨advanced, follows, rfl⟩
    cases follows with
    | passes => rfl
    | leaves other => cases found.symm.trans other
    | again other => cases found.symm.trans other
  | some pair =>
    obtain ⟨edge, info⟩ := pair
    dsimp only
    have advances : (∃ advanced, Advanced grammar parent refId advanced ∧ fact = .item advanced) ↔
        (info.lower ≤ ((parent.repeatCount + 1 : Nat) : Int) ∧ fact = .item (parent.atElement edge.target)) ∨
        ((parent.repeatCount + 1 : Nat) : Int) < info.upper ∧
          fact = .item (parent.counted (parent.repeatCount + 1)) := by
      constructor
      · rintro ⟨advanced, follows, rfl⟩
        cases follows with
        | passes other => cases found.symm.trans other
        | leaves same reached => cases found.symm.trans same; exact .inl ⟨reached, rfl⟩
        | again same below => cases found.symm.trans same; exact .inr ⟨below, rfl⟩
      · rintro (⟨reached, rfl⟩ | ⟨below, rfl⟩)
        · exact ⟨_, .leaves found reached, rfl⟩
        · exact ⟨_, .again found below, rfl⟩
    rw [advances]
    have left : ∀ fact, (if info.lower ≤ ((parent.repeatCount + 1 : Nat) : Int) then
        round.enqueue (parent.atElement edge.target) else round).Holds fact ↔ round.Holds fact ∨
          info.lower ≤ ((parent.repeatCount + 1 : Nat) : Int) ∧ fact = .item (parent.atElement edge.target) := by
      intro fact
      split
      · next reached => simp only [enqueue_holds, reached, true_and]
      · next short => simp only [short, false_and, or_false]
    split
    · next below => rw [enqueue_holds, left]; simp only [below, true_and, or_assoc]
    · next full => rw [left]; simp only [full, false_and, or_false]

theorem complete_queued (round : Round) : Queued round (grammar.complete earlier state round) := by
  simp only [complete]
  cases state.ruleStartPos with
  | none => exact ⟨⟨[], (List.append_nil _).symm, rfl⟩, id⟩
  | some ruleStartPos => exact Queued.foldl (fun round (entry : CompletableEntry) => completeFsmParent_queued entry.2 entry.1 round) _ round

theorem complete_root_holds (root : state.ruleStartPos = none) :
    (grammar.complete earlier state round).Holds fact ↔ round.Holds fact ∨ fact = .accept := by
  simp only [complete, root]
  cases fact with
  | accept => simp only [Holds, or_true]
  | item | entry | scan => simp only [Holds, reduceCtorEq, or_false]

theorem complete_holds {ruleStartPos : Nat} (starts : state.ruleStartPos = some ruleStartPos) :
    (grammar.complete earlier state round).Holds fact ↔ round.Holds fact ∨
      ∃ parent, (state.ruleId, parent) ∈ round.row earlier ruleStartPos ∧
        ∃ advanced, Advanced grammar parent state.ruleId advanced ∧ fact = .item advanced := by
  simp only [complete, starts]
  rw [foldl_holds (fun entry fact =>
    ∃ advanced, Advanced grammar entry.2 entry.1 advanced ∧ fact = .item advanced) _
    fun _ _ _ _ => completeFsmParent_holds]
  simp only [List.mem_filter, beq_iff_eq, Prod.exists]
  refine or_congr_right ⟨?_, ?_⟩
  · rintro ⟨refId, parent, ⟨member, rfl⟩, follows⟩
    exact ⟨parent, member, follows⟩
  · rintro ⟨parent, member, follows⟩
    exact ⟨state.ruleId, parent, ⟨member, rfl⟩, follows⟩

/-! ## Process -/

theorem addScanable_holds {scanned : ParserState} :
    (round.addScanable scanned).Holds fact ↔ round.Holds fact ∨ fact = .scan scanned := by
  cases fact with
  | scan other => simp only [addScanable, Holds, List.mem_append, List.mem_singleton, Fact.scan.injEq]
  | item | entry | accept => simp only [addScanable, Holds, reduceCtorEq, or_false]

theorem completeFsmParent_latest (parent : ParserState) (refId : Nat) (round : Round) :
    (grammar.completeFsmParent parent refId round).latest = round.latest := by
  have enqueued : ∀ (round : Round) state, (round.enqueue state).latest = round.latest := by
    intro round state
    simp only [enqueue]
    split <;> rfl
  simp only [completeFsmParent]
  cases grammar.repeatEdgeFor parent refId with
  | none => exact enqueued _ _
  | some =>
    dsimp only
    split <;> split <;> simp only [enqueued]

theorem complete_latest (round : Round) : (grammar.complete earlier state round).latest = round.latest := by
  simp only [complete]
  cases state.ruleStartPos with
  | none => rfl
  | some ruleStartPos =>
    dsimp only
    generalize (round.row earlier ruleStartPos).filter (fun entry => entry.1 == state.ruleId) = entries
    induction entries generalizing round with
    | nil => rfl
    | cons head tail ih => rw [List.foldl_cons, ih, completeFsmParent_latest]

/-- The item's edges are followed, and it is completed if it is at an end. -/
def expanded (grammar : GrammarData) (earlier : List (List CompletableEntry)) (state : ParserState) (round : Round) :
    Round :=
  if grammar.isEnd state then grammar.complete earlier state (grammar.expandNextRuleRefOnFsm earlier state round)
  else grammar.expandNextRuleRefOnFsm earlier state round

theorem process_eq : grammar.process earlier state round =
    if (grammar.fsmOf state.ruleId).isScanableState state.elementId then
      (grammar.expanded earlier state round).addScanable state
    else grammar.expanded earlier state round := rfl

theorem process_queued (round : Round) : Queued round (grammar.process earlier state round) := by
  have completed : Queued round (grammar.expanded earlier state round) := by
    simp only [expanded]
    split
    · exact (expandNextRuleRefOnFsm_queued round).trans (complete_queued _)
    · exact expandNextRuleRefOnFsm_queued round
  rw [process_eq]
  split
  · exact ⟨completed.fresh, completed.nodup⟩
  · exact completed

theorem process_latest : (grammar.process earlier state round).latest =
    (grammar.expandNextRuleRefOnFsm earlier state round).latest := by
  have completed : (grammar.expanded earlier state round).latest =
      (grammar.expandNextRuleRefOnFsm earlier state round).latest := by
    simp only [expanded]
    split
    · exact complete_latest _
    · rfl
  rw [process_eq]
  split
  · exact completed
  · exact completed

theorem process_holds (started : Started earlier state) :
    (grammar.process earlier state round).Holds fact ↔
      round.Holds fact ∨ Adds grammar earlier (grammar.process earlier state round).latest state fact := by
  rw [process_latest]
  generalize predicted : grammar.expandNextRuleRefOnFsm earlier state round = expansion
  have edges : ∀ fact, expansion.Holds fact ↔
      round.Holds fact ∨ ∃ edge ∈ grammar.edgesOf state, EdgeAdds grammar earlier state edge fact := by
    rw [← predicted]
    exact fun fact => expandNextRuleRefOnFsm_holds started
  have completed : ∀ fact, (grammar.expanded earlier state round).Holds fact ↔ expansion.Holds fact ∨
      grammar.isEnd state = true ∧ (state.ruleStartPos = none ∧ fact = .accept ∨
        ∃ ruleStartPos parent advanced, state.ruleStartPos = some ruleStartPos ∧
          (state.ruleId, parent) ∈ expansion.row earlier ruleStartPos ∧
          Advanced grammar parent state.ruleId advanced ∧ fact = .item advanced) := by
    intro fact
    simp only [expanded, predicted]
    split
    · next ends =>
      simp only [ends, true_and]
      cases starts : state.ruleStartPos with
      | none => simp only [complete_root_holds starts, true_and, reduceCtorEq, false_and, exists_false, or_false]
      | some ruleStartPos =>
        simp only [complete_holds starts, reduceCtorEq, false_and, false_or, Option.some_inj, exists_and_left,
          exists_eq_left']
    · next inside => simp only [inside, Bool.false_eq_true, false_and, or_false]
  have adds : Adds grammar earlier expansion.latest state fact ↔
      (∃ edge ∈ grammar.edgesOf state, EdgeAdds grammar earlier state edge fact) ∨
      (grammar.isEnd state = true ∧ (state.ruleStartPos = none ∧ fact = .accept ∨
        ∃ ruleStartPos parent advanced, state.ruleStartPos = some ruleStartPos ∧
          (state.ruleId, parent) ∈ expansion.row earlier ruleStartPos ∧
          Advanced grammar parent state.ruleId advanced ∧ fact = .item advanced)) ∨
      ((grammar.fsmOf state.ruleId).isScanableState state.elementId = true ∧ fact = .scan state) := by
    constructor
    · intro added
      cases added with
      | edge member added => exact .inl ⟨_, member, added⟩
      | accepts ends root => exact .inr (.inl ⟨ends, .inl ⟨root, rfl⟩⟩)
      | completes ends starts before member follows =>
        refine .inr (.inl ⟨ends, .inr ⟨_, _, _, starts, ?_, follows, rfl⟩⟩)
        rw [row_earlier before]
        exact member
      | completesHere ends starts member follows =>
        refine .inr (.inl ⟨ends, .inr ⟨_, _, _, starts, ?_, follows, rfl⟩⟩)
        rw [row_latest]
        exact member
      | scans scanable => exact .inr (.inr ⟨scanable, rfl⟩)
    · rintro (⟨edge, member, added⟩ | ⟨ends, ⟨root, rfl⟩ | ⟨ruleStartPos, parent, advanced, starts, member, follows, rfl⟩⟩ |
        ⟨scanable, rfl⟩)
      · exact .edge member added
      · exact .accepts ends root
      · obtain before | same := Nat.lt_or_eq_of_le (started ruleStartPos starts)
        · rw [row_earlier before] at member
          exact .completes ends starts before member follows
        · rw [same] at starts member
          rw [row_latest] at member
          exact .completesHere ends starts member follows
      · exact .scans scanable
  rw [adds, process_eq]
  split
  · next scanable =>
    rw [addScanable_holds, completed, edges]
    simp only [scanable, true_and, or_assoc]
  · next still =>
    rw [completed, edges]
    simp only [still, Bool.false_eq_true, false_and, or_false, or_assoc]

end GrammarData

end Metrale.Grammar
