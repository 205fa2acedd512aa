import Mathlib.Data.List.Nodup
import Metrale.Grammar.Earley.Rounds

/-! # The loop over the queue

A property of facts that their consequences keep holds at the end of the loop.  When the queue is empty, every item
of the round has its consequences there. -/

namespace Metrale.Grammar.GrammarData

open Round

variable {grammar : GrammarData} {earlier : List (List CompletableEntry)} {state : ParserState} {round : Round}
  {fact : Fact}

theorem Adds.mono {latest later : List CompletableEntry} (subset : latest ⊆ later)
    (added : Adds grammar earlier latest state fact) : Adds grammar earlier later state fact := by
  cases added with
  | edge member added => exact .edge member added
  | accepts ends root => exact .accepts ends root
  | completes ends starts before member follows => exact .completes ends starts before member follows
  | completesHere ends starts member follows => exact .completesHere ends starts (subset member) follows
  | scans scanable => exact .scans scanable

def Processed (grammar : GrammarData) (earlier : List (List CompletableEntry)) (round : Round) (state : ParserState) :
    Prop :=
  ∀ fact, Adds grammar earlier [] state fact → round.Holds fact

/-- The queue is among the items visited, once each, and the other ones are processed. -/
structure Pending (grammar : GrammarData) (earlier : List (List CompletableEntry)) (round : Round) : Prop where
  queue : round.queue ⊆ round.visited
  toBeAdded : round.toBeAdded ⊆ round.visited
  queueNodup : round.queue.Nodup
  nodup : round.visited.Nodup
  processed : ∀ state ∈ round.visited, state ∈ round.queue ∨ Processed grammar earlier round state

def popped (round : Round) (queue : List ParserState) : Round := { round with queue }

theorem drain_cons {items : Nat} {queue : List ParserState} (next : round.queue = state :: queue) :
    grammar.drain earlier (items + 1) round =
      grammar.drain earlier items (grammar.process earlier state (popped round queue)) := by
  rw [drain]
  simp only [next]
  rfl

theorem drain_nil {items : Nat} (empty : round.queue = []) : grammar.drain earlier items round = round := by
  cases items with
  | zero => rfl
  | succ => rw [drain]; simp only [empty]

theorem process_popped_holds {queue : List ParserState} (started : Started earlier state) :
    (grammar.process earlier state (popped round queue)).Holds fact ↔ round.Holds fact ∨
      Adds grammar earlier (grammar.process earlier state (popped round queue)).latest state fact :=
  process_holds started

theorem process_popped_queued (grammar : GrammarData) (earlier : List (List CompletableEntry)) (state : ParserState)
    (round : Round) (queue : List ParserState) :
    Queued (popped round queue) (grammar.process earlier state (popped round queue)) :=
  process_queued _

theorem Pending.process (pending : Pending grammar earlier round) {queue : List ParserState}
    (next : round.queue = state :: queue) (started : Started earlier state) :
    Pending grammar earlier (grammar.process earlier state (popped round queue)) := by
  have queues := process_popped_queued grammar earlier state round queue
  obtain ⟨new, queued, visited⟩ := queues.fresh
  have kept : ∀ fact, round.Holds fact → (grammar.process earlier state (popped round queue)).Holds fact :=
    fun fact held => (process_popped_holds started).mpr (.inl held)
  have distinct := queues.nodup pending.nodup
  refine ⟨fun other member => ?_, fun other member => ?_, ?_, distinct, fun other member => ?_⟩
  · rw [queued] at member
    rw [visited]
    obtain member | member := List.mem_append.mp member
    · exact List.mem_append_right _ (pending.queue (next ▸ List.mem_cons_of_mem _ member))
    · exact List.mem_append_left _ (List.mem_reverse.mpr member)
  · rw [visited]
    refine List.mem_append_right _ ?_
    have scans : (grammar.process earlier state (popped round queue)).Holds (.scan other) := member
    obtain held | added := (process_popped_holds started).mp scans
    · exact pending.toBeAdded held
    · cases added with
      | edge _ added => cases added
      | scans => exact pending.queue (next ▸ List.mem_cons_self)
  · rw [visited] at distinct
    obtain ⟨fresh, -, apart⟩ := List.nodup_append.mp distinct
    have rest := pending.queueNodup
    rw [next] at rest
    rw [queued]
    refine List.nodup_append.mpr ⟨(List.nodup_cons.mp rest).2, List.nodup_reverse.mp fresh, ?_⟩
    rintro old waiting _ added rfl
    exact apart old (List.mem_reverse.mpr added) old (pending.queue (next ▸ List.mem_cons_of_mem _ waiting)) rfl
  · rw [visited] at member
    obtain member | member := List.mem_append.mp member
    · exact .inl (queued ▸ List.mem_append_right _ (List.mem_reverse.mp member))
    obtain waiting | done := pending.processed other member
    · rw [next] at waiting
      obtain rfl | waiting := List.mem_cons.mp waiting
      · exact .inr fun fact added => (process_popped_holds started).mpr (.inr (added.mono (List.nil_subset _)))
      · exact .inl (queued ▸ List.mem_append_left _ waiting)
    · exact .inr fun fact added => kept fact (done fact added)

/-- What holds of the facts of a round, and of what follows from them, holds of all the loop finds. -/
structure Closed (grammar : GrammarData) (earlier : List (List CompletableEntry)) (allowed : ParserState → Prop)
    (good : Fact → Prop) : Prop where
  started : ∀ state, good (.item state) → Started earlier state
  adds : ∀ latest state fact, good (.item state) → allowed state → (∀ entry ∈ latest, good (.entry entry)) →
    Adds grammar earlier latest state fact → good fact

/-- The latest row after an item is processed is good before the item is completed. -/
theorem Closed.process {allowed : ParserState → Prop} {good : Fact → Prop}
    (closed : Closed grammar earlier allowed good) (item : good (.item state)) (may : allowed state)
    (facts : ∀ fact, round.Holds fact → good fact) {queue : List ParserState} :
    ∀ fact, (grammar.process earlier state (popped round queue)).Holds fact → good fact := by
  have started := closed.started state item
  have entries : ∀ entry ∈ (grammar.process earlier state (popped round queue)).latest, good (.entry entry) := by
    intro entry member
    have waits : (grammar.process earlier state (popped round queue)).Holds (.entry entry) := member
    obtain held | added := (process_popped_holds started).mp waits
    · exact facts _ held
    · cases added with
      | edge member added => exact closed.adds [] state _ item may (fun _ absent => nomatch absent) (.edge member added)
  intro fact held
  obtain held | added := (process_popped_holds started).mp held
  · exact facts fact held
  · exact closed.adds _ state fact item may entries added

theorem process_visited (queue : List ParserState) :
    round.visited ⊆ (grammar.process earlier state (popped round queue)).visited := by
  obtain ⟨new, -, visited⟩ := (process_popped_queued grammar earlier state round queue).fresh
  rw [visited]
  exact List.subset_append_right _ _

theorem drain_visited (items : Nat) (round : Round) : round.visited ⊆ (grammar.drain earlier items round).visited := by
  induction items generalizing round with
  | zero => exact List.Subset.refl _
  | succ items ih =>
    cases next : round.queue with
    | nil => rw [drain_nil next]; exact List.Subset.refl _
    | cons state queue => rw [drain_cons next]; exact List.Subset.trans (process_visited queue) (ih _)

/-- What the loop keeps and finds. -/
structure Drains (grammar : GrammarData) (earlier : List (List CompletableEntry)) (good : Fact → Prop)
    (before after : Round) : Prop where
  pending : Pending grammar earlier after
  facts : ∀ fact, after.Holds fact → good fact
  kept : ∀ fact, before.Holds fact → after.Holds fact

theorem drain_drains {allowed : ParserState → Prop} {good : Fact → Prop}
    (closed : Closed grammar earlier allowed good) (items : Nat) (round : Round)
    (pending : Pending grammar earlier round) (facts : ∀ fact, round.Holds fact → good fact)
    (may : ∀ state ∈ (grammar.drain earlier items round).visited, allowed state) :
    Drains grammar earlier good round (grammar.drain earlier items round) := by
  induction items generalizing round with
  | zero => exact ⟨pending, facts, fun _ held => held⟩
  | succ items ih =>
    cases next : round.queue with
    | nil =>
      rw [drain_nil next]
      exact ⟨pending, facts, fun _ held => held⟩
    | cons state queue =>
      rw [drain_cons next] at may ⊢
      have present : state ∈ round.visited := pending.queue (next ▸ List.mem_cons_self)
      have item : good (.item state) := facts _ present
      have started := closed.started state item
      have rest := ih _ (pending.process next started)
        (closed.process item (may state (drain_visited _ _ (process_visited queue present))) facts) may
      exact ⟨rest.pending, rest.facts, fun fact held => rest.kept fact ((process_popped_holds started).mpr (.inl held))⟩

theorem drain_empties {good : Fact → Prop} (closed : Closed grammar earlier (fun _ => True) good) {bound : Nat}
    (bounded : ∀ states : List ParserState, states.Nodup → (∀ state ∈ states, good (.item state)) →
      states.length ≤ bound) (items : Nat) (round : Round) (pending : Pending grammar earlier round)
    (facts : ∀ fact, round.Holds fact → good fact)
    (enough : round.queue.length + bound ≤ items + round.visited.length) :
    (grammar.drain earlier items round).queue = [] := by
  induction items generalizing round with
  | zero =>
    have few := bounded round.visited pending.nodup fun state present => facts (.item state) present
    exact List.length_eq_zero_iff.mp (by rw [drain]; omega)
  | succ items ih =>
    cases next : round.queue with
    | nil => rw [drain_nil next]; exact next
    | cons state queue =>
      rw [drain_cons next]
      have item : good (.item state) := facts _ (pending.queue (next ▸ List.mem_cons_self))
      have started := closed.started state item
      obtain ⟨new, queued, visited⟩ := (process_popped_queued grammar earlier state round queue).fresh
      refine ih _ (pending.process next started) (closed.process item trivial facts) ?_
      rw [queued, visited]
      simp only [popped, List.length_append, List.length_reverse]
      rw [next, List.length_cons] at enough
      omega

end Metrale.Grammar.GrammarData
