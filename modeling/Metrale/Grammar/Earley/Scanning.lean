import Metrale.Grammar.Earley.Drain

/-! # The scan of a round

The scan visits the successors of the latest states, and processes those that can only be scanned. -/

namespace Metrale.Grammar.GrammarData

open Round

variable {grammar : GrammarData} {state next : ParserState} {round : Round} {edge : FsmEdge} {ch : UInt8}
  {earlier : List (List CompletableEntry)}

def Reads (edge : FsmEdge) (ch : UInt8) : Prop :=
  ∃ min max, edge.edgeType = .charRange min max ∧ min ≤ ch.toNat ∧ ch.toNat ≤ max

def Successor (grammar : GrammarData) (ch : UInt8) (state next : ParserState) : Prop :=
  ∃ edge ∈ grammar.edgesOf state, Reads edge ch ∧ next = { state with elementId := edge.target }

/-- What a scan has found so far: the items that can only be scanned are ready, and the other ones are queued. -/
structure Scanning (grammar : GrammarData) (round : Round) : Prop where
  latest : round.latest = []
  refuses : round.acceptStopToken = false
  queue : round.queue ⊆ round.visited
  toBeAdded : round.toBeAdded ⊆ round.visited
  queueNodup : round.queue.Nodup
  nodup : round.visited.Nodup
  placed : ∀ state ∈ round.visited,
    if grammar.pureScanable state = true then state ∈ round.toBeAdded else state ∈ round.queue

theorem scanning_empty : Scanning grammar .empty :=
  ⟨rfl, rfl, List.Subset.refl _, List.Subset.refl _, .nil, .nil, fun _ absent => nomatch absent⟩

theorem Scanning.enqueue (scanning : Scanning grammar round) (processed : grammar.pureScanable state = false) :
    Scanning grammar (round.enqueue state) := by
  simp only [Round.enqueue]
  split
  · exact scanning
  · next absent =>
    have fresh : state ∉ round.queue := fun member => absent (scanning.queue member)
    refine ⟨scanning.latest, scanning.refuses, ?_, List.Subset.trans scanning.toBeAdded (List.subset_cons_self _ _), ?_,
      List.nodup_cons.mpr ⟨absent, scanning.nodup⟩, fun other member => ?_⟩
    · refine List.append_subset.mpr ⟨List.Subset.trans scanning.queue (List.subset_cons_self _ _), ?_⟩
      exact List.cons_subset.mpr ⟨List.mem_cons_self, List.nil_subset _⟩
    · exact List.nodup_append.mpr ⟨scanning.queueNodup, List.nodup_singleton _, fun old member _ new =>
        List.mem_singleton.mp new ▸ fun same => fresh (same ▸ member)⟩
    · obtain rfl | member := List.mem_cons.mp member
      · rw [if_neg (by rw [processed]; exact Bool.false_ne_true)]
        exact List.mem_append_right _ List.mem_cons_self
      · have place := scanning.placed other member
        split
        · next pure => rw [if_pos pure] at place; exact place
        · next other => rw [if_neg other] at place; exact List.mem_append_left _ place

def ready (round : Round) (state : ParserState) : Round :=
  match round.markVisited state with
  | (true, marked) => marked.addScanable state
  | (false, _) => round

theorem Scanning.ready (scanning : Scanning grammar round) (pure : grammar.pureScanable state = true) :
    Scanning grammar (ready round state) := by
  simp only [GrammarData.ready, markVisited]
  by_cases present : state ∈ round.visited
  · rw [if_pos present]
    exact scanning
  · rw [if_neg present]
    refine ⟨scanning.latest, scanning.refuses, List.Subset.trans scanning.queue (List.subset_cons_self _ _), ?_,
      scanning.queueNodup, List.nodup_cons.mpr ⟨present, scanning.nodup⟩, fun other member => ?_⟩
    · refine List.append_subset.mpr ⟨List.Subset.trans scanning.toBeAdded (List.subset_cons_self _ _), ?_⟩
      exact List.cons_subset.mpr ⟨List.mem_cons_self, List.nil_subset _⟩
    · obtain rfl | member := List.mem_cons.mp member
      · rw [if_pos pure]
        exact List.mem_append_right _ List.mem_cons_self
      · have place := scanning.placed other member
        split
        · next ready => rw [if_pos ready] at place; exact List.mem_append_left _ place
        · next queued => rw [if_neg queued] at place; exact place

theorem enqueue_visited : next ∈ (round.enqueue state).visited ↔ next ∈ round.visited ∨ next = state := by
  have held : (round.enqueue state).Holds (.item next) ↔ round.Holds (.item next) ∨ Fact.item next = .item state :=
    enqueue_holds
  rw [Fact.item.injEq] at held
  exact held

theorem ready_visited : next ∈ (ready round state).visited ↔ next ∈ round.visited ∨ next = state := by
  simp only [ready, markVisited]
  by_cases present : state ∈ round.visited
  · rw [if_pos present]
    refine ⟨.inl, ?_⟩
    rintro (member | rfl)
    · exact member
    · exact present
  · rw [if_neg present]
    simp only [addScanable, List.mem_cons, or_comm]

theorem advanceEdge_eq {min max : Nat} (kind : edge.edgeType = .charRange min max) (low : min ≤ ch.toNat)
    (high : ch.toNat ≤ max) : grammar.advanceEdge state ch round edge =
      if grammar.pureScanable { state with elementId := edge.target } then
        ready round { state with elementId := edge.target }
      else round.enqueue { state with elementId := edge.target } := by
  simp only [advanceEdge, kind]
  rw [if_neg (by omega)]
  rfl

theorem advanceEdge_of_not_reads (still : ¬ Reads edge ch) : grammar.advanceEdge state ch round edge = round := by
  simp only [advanceEdge]
  cases kind : edge.edgeType with
  | charRange min max =>
    dsimp only
    refine if_pos (Decidable.byContradiction fun inside => still ⟨min, max, kind, ?_⟩)
    omega
  | _ => rfl

theorem Scanning.advanceEdge (scanning : Scanning grammar round) (state : ParserState) (ch : UInt8)
    (edge : FsmEdge) : Scanning grammar (grammar.advanceEdge state ch round edge) := by
  by_cases reads : Reads edge ch
  · obtain ⟨min, max, kind, low, high⟩ := reads
    rw [advanceEdge_eq kind low high]
    split
    · next pure => exact scanning.ready pure
    · next other => exact scanning.enqueue (Bool.eq_false_iff.mpr other)
  · rw [advanceEdge_of_not_reads reads]
    exact scanning

theorem advanceEdge_visited : next ∈ (grammar.advanceEdge state ch round edge).visited ↔
    next ∈ round.visited ∨ Reads edge ch ∧ next = { state with elementId := edge.target } := by
  by_cases reads : Reads edge ch
  · obtain ⟨min, max, kind, low, high⟩ := id reads
    rw [advanceEdge_eq kind low high]
    simp only [reads, true_and]
    split
    · exact ready_visited
    · exact enqueue_visited
  · rw [advanceEdge_of_not_reads reads]
    simp only [reads, false_and, or_false]

theorem scanAll_scanning (states : List ParserState) (scanning : Scanning grammar round) :
    Scanning grammar (states.foldl (grammar.scan ch) round) := by
  induction states generalizing round with
  | nil => exact scanning
  | cons state states ih =>
    refine ih ?_
    rw [scan]
    generalize grammar.edgesOf state = edges
    induction edges generalizing round with
    | nil => exact scanning
    | cons edge edges ih' => exact ih' (scanning.advanceEdge state ch edge)

theorem scan_visited : next ∈ (grammar.scan ch round state).visited ↔
    next ∈ round.visited ∨ Successor grammar ch state next := by
  simp only [scan, Successor]
  generalize grammar.edgesOf state = edges
  induction edges generalizing round with
  | nil => simp only [List.foldl_nil, List.not_mem_nil, false_and, exists_false, or_false]
  | cons edge edges ih =>
    rw [List.foldl_cons, ih, advanceEdge_visited]
    simp only [List.mem_cons, exists_eq_or_imp, or_assoc]

theorem scanAll_visited (states : List ParserState) : next ∈ (states.foldl (grammar.scan ch) round).visited ↔
    next ∈ round.visited ∨ ∃ state ∈ states, Successor grammar ch state next := by
  induction states generalizing round with
  | nil => simp only [List.foldl_nil, List.not_mem_nil, false_and, exists_false, or_false]
  | cons state states ih =>
    rw [List.foldl_cons, ih, scan_visited]
    simp only [List.mem_cons, exists_eq_or_imp, or_assoc]

theorem Scanning.pending (scanning : Scanning grammar round) : Pending grammar earlier round where
  queue := scanning.queue
  toBeAdded := scanning.toBeAdded
  queueNodup := scanning.queueNodup
  nodup := scanning.nodup
  processed state member := by
    have place := scanning.placed state member
    split at place
    · next pure =>
      refine .inr fun fact added => ?_
      simp only [pureScanable, Bool.and_eq_true, Bool.not_eq_true'] at pure
      obtain ⟨⟨terminal, inside⟩, -⟩ := pure
      cases added with
      | edge leads added =>
        have plain := List.any_eq_false.mp terminal _ leads
        cases added <;> simp_all [FsmEdge.isRuleRef, FsmEdge.isEpsilon, FsmEdge.isRepeatRef]
      | accepts ends => rw [isEnd, inside] at ends; cases ends
      | completes ends => rw [isEnd, inside] at ends; cases ends
      | completesHere ends => rw [isEnd, inside] at ends; cases ends
      | scans => exact place
    · exact .inl place

theorem Scanning.nonempty (scanning : Scanning grammar round) :
    (round.queue.isEmpty && round.toBeAdded.isEmpty) = false ↔ ∃ state, state ∈ round.visited := by
  rw [Bool.and_eq_false_iff]
  constructor
  · rintro (some | some)
    · obtain ⟨state, member⟩ := List.exists_mem_of_ne_nil _ (List.isEmpty_eq_false_iff.mp some)
      exact ⟨state, scanning.queue member⟩
    · obtain ⟨state, member⟩ := List.exists_mem_of_ne_nil _ (List.isEmpty_eq_false_iff.mp some)
      exact ⟨state, scanning.toBeAdded member⟩
  · rintro ⟨state, member⟩
    have place := scanning.placed state member
    split at place
    · exact .inr (List.isEmpty_eq_false_iff.mpr (List.ne_nil_of_mem place))
    · exact .inl (List.isEmpty_eq_false_iff.mpr (List.ne_nil_of_mem place))

end Metrale.Grammar.GrammarData
