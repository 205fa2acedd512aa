import Metrale.Grammar.Earley.ItemBound
import Metrale.Grammar.Earley.Scanning

/-! # The rounds of a parse

The rows of the parser are those of its rounds, one for each byte read and one before.  Every round ends with its
queue empty. -/

namespace Metrale.Grammar

open GrammarData Round

variable {grammar : GrammarData} {bytes rest : List UInt8} {rounds before : List Round} {round last : Round}
  {parser : EarleyParser} {ch : UInt8} {position : Nat}

namespace EarleyParser

def ofRounds (grammar : GrammarData) (rounds : List Round) : EarleyParser where
  isCompleted := rounds.map Round.acceptStopToken
  completable := rounds.map Round.latest
  scanableHistory := rounds.map fun round => grammar.prune round.toBeAdded
  stopTokenIsAccepted := false

theorem pushRound_ofRounds : (ofRounds grammar rounds).pushRound grammar round = ofRounds grammar (rounds ++ [round]) := by
  simp only [pushRound, ofRounds, List.map_append, List.map_cons, List.map_nil]

def nextRound (grammar : GrammarData) (rounds : List Round) (ch : UInt8) : Round :=
  grammar.drained (rounds.map Round.latest) ((ofRounds grammar rounds).scanned grammar ch)

def firstRound (grammar : GrammarData) : Round := grammar.drained [] (seeded grammar (rootInitialState grammar))

theorem fromGrammar_eq : fromGrammar grammar = ofRounds grammar [firstRound grammar] := rfl

theorem scanned_scanning (grammar : GrammarData) (parser : EarleyParser) (ch : UInt8) :
    Scanning grammar (parser.scanned grammar ch) :=
  scanAll_scanning _ scanning_empty

theorem scanned_visited {next : ParserState} : next ∈ (parser.scanned grammar ch).visited ↔
    ∃ state ∈ parser.latestScanableStates, Successor grammar ch state next := by
  rw [scanned, scanAll_visited]
  simp only [Round.empty, List.not_mem_nil, false_or]

def CanRead (grammar : GrammarData) (parser : EarleyParser) (ch : UInt8) : Prop :=
  ∃ state ∈ parser.latestScanableStates, ∃ edge ∈ grammar.edgesOf state, Reads edge ch

theorem advance_of_canRead (reads : (ofRounds grammar rounds).CanRead grammar ch) :
    (ofRounds grammar rounds).advance grammar ch = (true, ofRounds grammar (rounds ++ [nextRound grammar rounds ch])) := by
  obtain ⟨state, member, edge, leads, reads⟩ := reads
  have found := (scanned_scanning grammar (ofRounds grammar rounds) ch).nonempty.mpr
    ⟨_, scanned_visited.mpr ⟨state, member, edge, leads, reads, rfl⟩⟩
  simp only [advance, found, Bool.false_eq_true, if_false, pushRound_ofRounds]
  rfl

theorem advance_of_not_canRead (still : ¬ parser.CanRead grammar ch) : parser.advance grammar ch = (false, parser) := by
  have found : ((parser.scanned grammar ch).queue.isEmpty && (parser.scanned grammar ch).toBeAdded.isEmpty) = true := by
    by_contra some
    obtain ⟨next, member⟩ := (scanned_scanning grammar parser ch).nonempty.mp (Bool.eq_false_iff.mpr some)
    obtain ⟨state, present, edge, leads, reads, -⟩ := scanned_visited.mp member
    exact still ⟨state, present, edge, leads, reads⟩
  simp only [advance, found, if_true]

theorem advanceAll_append (parser : EarleyParser) (bytes rest : List UInt8) :
    parser.advanceAll grammar (bytes ++ rest) =
      (parser.advanceAll grammar bytes).bind fun middle => middle.advanceAll grammar rest := by
  induction bytes generalizing parser with
  | nil => rfl
  | cons ch bytes ih =>
    simp only [List.cons_append, advanceAll]
    match parser.advance grammar ch with
    | (true, advanced) => exact ih advanced
    | (false, _) => rfl

end EarleyParser

open EarleyParser

inductive History (grammar : GrammarData) : List UInt8 → List Round → Prop where
  | start : History grammar [] [firstRound grammar]
  | read {bytes : List UInt8} {rounds : List Round} {ch : UInt8} : History grammar bytes rounds → (ofRounds grammar rounds).CanRead grammar ch →
      History grammar (bytes ++ [ch]) (rounds ++ [nextRound grammar rounds ch])

theorem History.length (history : History grammar bytes rounds) : rounds.length = bytes.length + 1 := by
  induction history with
  | start => rfl
  | read _ _ ih => rw [List.length_append, List.length_append, ih]; rfl

theorem History.of_nil (history : History grammar [] rounds) : rounds = [firstRound grammar] := by
  generalize shape : [] = all at history
  cases history with
  | start => rfl
  | read => exact absurd shape.symm (List.append_ne_nil_of_right_ne_nil _ (List.cons_ne_nil _ _))

theorem History.of_append (history : History grammar (bytes ++ [ch]) rounds) :
    ∃ before, History grammar bytes before ∧ (ofRounds grammar before).CanRead grammar ch ∧
      rounds = before ++ [nextRound grammar before ch] := by
  generalize shape : bytes ++ [ch] = all at history
  cases history with
  | start => exact absurd shape (List.append_ne_nil_of_right_ne_nil _ (List.cons_ne_nil _ _))
  | read earlier reads =>
    obtain ⟨rfl, same⟩ := List.append_inj' shape rfl
    cases same
    exact ⟨_, earlier, reads, rfl⟩

/-- The parser accepts the bytes exactly when there is a history of them, and has its rows. -/
theorem advanceAll_iff : (fromGrammar grammar).advanceAll grammar bytes = some parser ↔
    ∃ rounds, History grammar bytes rounds ∧ parser = ofRounds grammar rounds := by
  induction bytes using List.reverseRecOn generalizing parser with
  | nil =>
    rw [advanceAll, Option.some_inj]
    constructor
    · rintro rfl
      exact ⟨_, .start, fromGrammar_eq⟩
    · rintro ⟨rounds, history, rfl⟩
      rw [history.of_nil]
      exact fromGrammar_eq
  | append_singleton bytes ch ih =>
    rw [advanceAll_append, Option.bind_eq_some_iff]
    constructor
    · rintro ⟨middle, accepted, step⟩
      obtain ⟨rounds, history, rfl⟩ := ih.mp accepted
      by_cases reads : (ofRounds grammar rounds).CanRead grammar ch
      · simp only [advanceAll, advance_of_canRead reads, Option.some_inj] at step
        exact ⟨_, history.read reads, step.symm⟩
      · simp only [advanceAll, advance_of_not_canRead reads] at step
        cases step
    · rintro ⟨rounds, history, rfl⟩
      obtain ⟨before, earlier, reads, rfl⟩ := history.of_append
      refine ⟨_, ih.mpr ⟨before, earlier, rfl⟩, ?_⟩
      simp only [advanceAll, advance_of_canRead reads]

/-! ## Every round ends -/

structure RoundDone (compiled : CompiledGrammar) (earlier : List (List CompletableEntry)) (round : Round) : Prop where
  pending : Pending compiled.toGrammarData earlier round
  queue : round.queue = []
  ranged : ∀ fact, round.Holds fact → compiled.RangedFact earlier.length fact

theorem RoundDone.processed {compiled : CompiledGrammar} {earlier : List (List CompletableEntry)}
    (done : RoundDone compiled earlier round) {state : ParserState} (member : state ∈ round.visited) :
    Processed compiled.toGrammarData earlier round state := by
  refine (done.pending.processed state member).resolve_left fun waiting => ?_
  rw [done.queue] at waiting
  cases waiting

theorem CompiledGrammar.drained_done (compiled : CompiledGrammar) {earlier : List (List CompletableEntry)}
    (rows : ∀ row ∈ earlier, ∀ entry ∈ row, compiled.InRange earlier.length entry.2)
    (pending : Pending compiled.toGrammarData earlier round)
    (facts : ∀ fact, round.Holds fact → compiled.RangedFact earlier.length fact) :
    RoundDone compiled earlier (compiled.drained earlier round) := by
  have drains := drain_drains (compiled.closed_ranged rows) (compiled.itemBound earlier.length) round pending facts
    fun _ _ => trivial
  exact ⟨drains.pending, compiled.drained_queue rows pending facts, drains.facts⟩

theorem firstRound_pending {earlier : List (List CompletableEntry)} :
    Pending grammar earlier (seeded grammar (rootInitialState grammar)) :=
  ⟨List.Subset.refl _, List.nil_subset _, List.nodup_singleton _, List.nodup_singleton _, fun _ member => .inl member⟩

theorem seeded_holds {fact : Fact} (held : (seeded grammar (rootInitialState grammar)).Holds fact) :
    fact = .item (grammar.ruleStart grammar.rootRuleId none) := by
  cases fact with
  | item state => exact congrArg _ (List.mem_singleton.mp held)
  | entry | scan => cases held
  | accept => cases held

theorem firstRound_done (compiled : CompiledGrammar) : RoundDone compiled [] (firstRound compiled.toGrammarData) := by
  refine compiled.drained_done (fun _ absent => nomatch absent) firstRound_pending fun fact held => ?_
  rw [seeded_holds held]
  exact compiled.ruleStart_inRange compiled.rootInRange fun _ absent => nomatch absent

theorem latestScanableStates_ofRounds {state : ParserState}
    (member : state ∈ (ofRounds grammar rounds).latestScanableStates) :
    ∃ last, rounds.getLast? = some last ∧ state ∈ grammar.prune last.toBeAdded := by
  rw [latestScanableStates, ofRounds, List.getLastD_eq_getLast?, List.getLast?_map] at member
  cases final : rounds.getLast? with
  | none => rw [final] at member; cases member
  | some last => rw [final] at member; exact ⟨last, rfl, member⟩

def RoundsDone (compiled : CompiledGrammar) (rounds : List Round) : Prop :=
  ∀ position round, rounds[position]? = some round →
    RoundDone compiled ((rounds.take position).map Round.latest) round

variable {compiled : CompiledGrammar}

theorem RoundsDone.ranged (done : RoundsDone compiled rounds) (stored : rounds[position]? = some round) {fact : Fact}
    (held : round.Holds fact) : compiled.RangedFact position fact := by
  have bound := (List.getElem?_eq_some_iff.mp stored).1
  have ranged := (done position round stored).ranged fact held
  rw [List.length_map, List.length_take, Nat.min_eq_left bound.le] at ranged
  exact ranged

theorem RoundsDone.rows (done : RoundsDone compiled rounds) :
    ∀ row ∈ rounds.map Round.latest, ∀ entry ∈ row, compiled.InRange (rounds.map Round.latest).length entry.2 := by
  intro row member entry present
  obtain ⟨round, known, rfl⟩ := List.mem_map.mp member
  obtain ⟨position, stored⟩ := List.getElem?_of_mem known
  have ranged : compiled.RangedFact position (.entry entry) := done.ranged stored present
  rw [List.length_map]
  exact InRange.mono ranged (List.getElem?_eq_some_iff.mp stored).1.le

theorem nextRound_pending {earlier : List (List CompletableEntry)} :
    Pending grammar earlier ((ofRounds grammar rounds).scanned grammar ch) :=
  (scanned_scanning _ _ _).pending

theorem scanned_holds {fact : Fact} (held : ((ofRounds grammar rounds).scanned grammar ch).Holds fact) :
    ∃ last state next, rounds.getLast? = some last ∧ state ∈ last.toBeAdded ∧ Successor grammar ch state next ∧
      (fact = .item next ∨ fact = .scan next) := by
  have scanning := scanned_scanning grammar (ofRounds grammar rounds) ch
  have visited : ∀ next ∈ ((ofRounds grammar rounds).scanned grammar ch).visited,
      ∃ last state, rounds.getLast? = some last ∧ state ∈ last.toBeAdded ∧ Successor grammar ch state next := by
    intro next member
    obtain ⟨state, present, successor⟩ := scanned_visited.mp member
    obtain ⟨last, final, kept⟩ := latestScanableStates_ofRounds present
    exact ⟨last, state, final, List.mem_of_mem_filter kept, successor⟩
  cases fact with
  | item next =>
    obtain ⟨last, state, final, member, successor⟩ := visited next held
    exact ⟨last, state, next, final, member, successor, .inl rfl⟩
  | scan next =>
    obtain ⟨last, state, final, member, successor⟩ := visited next (scanning.toBeAdded held)
    exact ⟨last, state, next, final, member, successor, .inr rfl⟩
  | entry => rw [Holds, scanning.latest] at held; cases held
  | accept => rw [Holds, scanning.refuses] at held; cases held

theorem RoundsDone.nextRound (done : RoundsDone compiled rounds) (ch : UInt8) :
    RoundDone compiled (rounds.map Round.latest) (nextRound compiled.toGrammarData rounds ch) := by
  refine compiled.drained_done done.rows nextRound_pending fun fact held => ?_
  obtain ⟨last, state, next, final, member, ⟨edge, leads, -, rfl⟩, same⟩ := scanned_holds held
  rw [List.getLast?_eq_getElem?] at final
  have ready : compiled.RangedFact (rounds.length - 1) (.scan state) := done.ranged final member
  have ranged : compiled.InRange (rounds.length - 1) state := ready
  have later : compiled.InRange (rounds.map Round.latest).length { state with elementId := edge.target } := by
    rw [List.length_map]
    exact { ranged.mono (Nat.sub_le _ _) with element := compiled.target_lt ranged.rule leads }
  obtain rfl | rfl := same
  · exact later
  · exact later

theorem History.done (history : History compiled.toGrammarData bytes rounds) : RoundsDone compiled rounds := by
  induction history with
  | start =>
    intro position round stored
    obtain ⟨bound, rfl⟩ := List.getElem?_eq_some_iff.mp stored
    obtain rfl : position = 0 := by rw [List.length_singleton] at bound; omega
    exact firstRound_done compiled
  | @read bytes rounds ch earlier reads ih =>
    intro position round stored
    rw [List.getElem?_append] at stored
    split at stored
    · next before =>
      rw [List.take_append_of_le_length before.le]
      exact ih position round stored
    · next after =>
      obtain ⟨bound, rfl⟩ := List.getElem?_eq_some_iff.mp stored
      obtain rfl : position = rounds.length := by rw [List.length_singleton] at bound; omega
      rw [List.take_left' rfl]
      simp only [Nat.sub_self, List.getElem_cons_zero]
      exact RoundsDone.nextRound ih ch

/-! ## Facts of every round -/

def RoundsAllow (allowed : List (List CompletableEntry) → ParserState → Prop) (rounds : List Round) : Prop :=
  ∀ position round, rounds[position]? = some round →
    ∀ state ∈ round.visited, allowed ((rounds.take position).map Round.latest) state

theorem RoundsAllow.of_append {allowed : List (List CompletableEntry) → ParserState → Prop}
    (may : RoundsAllow allowed (rounds ++ [last])) :
    RoundsAllow allowed rounds ∧ ∀ state ∈ last.visited, allowed (rounds.map Round.latest) state := by
  constructor
  · intro position before stored state member
    have bound := (List.getElem?_eq_some_iff.mp stored).1
    have held := may position before (by rw [List.getElem?_append_left bound]; exact stored) state member
    rwa [List.take_append_of_le_length bound.le] at held
  · intro state member
    have held := may rounds.length last List.getElem?_concat_length state member
    rwa [List.take_left' rfl] at held

/-- A property of facts after some bytes that holds of the root, and that the edges, the completions and the scans
of a round keep, holds of the facts of every round. -/
theorem History.facts (allowed : List (List CompletableEntry) → ParserState → Prop) {good : List UInt8 → Fact → Prop}
    (closed : ∀ bytes earlier, earlier.length = bytes.length →
      (∀ position < bytes.length, ∀ entry ∈ earlier.getD position [], good (bytes.take position) (.entry entry)) →
      Closed compiled.toGrammarData earlier (allowed earlier) (good bytes))
    (root : good [] (.item (compiled.ruleStart compiled.rootRuleId none)))
    (scan : ∀ bytes earlier ch state next, good bytes (.item state) → allowed earlier state →
      Successor compiled.toGrammarData ch state next →
      good (bytes ++ [ch]) (.item next) ∧ good (bytes ++ [ch]) (.scan next))
    (history : History compiled.toGrammarData bytes rounds) (may : RoundsAllow allowed rounds) :
    ∀ position round, rounds[position]? = some round → ∀ fact, round.Holds fact → good (bytes.take position) fact := by
  induction history with
  | start =>
    intro position round stored
    obtain ⟨bound, rfl⟩ := List.getElem?_eq_some_iff.mp stored
    obtain rfl : position = 0 := by rw [List.length_singleton] at bound; omega
    have closed := closed [] [] rfl fun _ absent => absurd absent (Nat.not_lt_zero _)
    refine (drain_drains closed _ _ firstRound_pending (fun fact held => ?_) (may 0 _ rfl)).facts
    rw [seeded_holds held]
    exact root
  | @read bytes rounds ch history reads ih =>
    obtain ⟨mayBefore, mayLast⟩ := may.of_append
    have before := ih mayBefore
    have length := history.length
    intro position round stored
    rw [List.getElem?_append] at stored
    split at stored
    · next inside =>
      rw [List.take_append_of_le_length (by omega)]
      exact before position round stored
    next after =>
    obtain ⟨bound, rfl⟩ := List.getElem?_eq_some_iff.mp stored
    obtain rfl : position = rounds.length := by rw [List.length_singleton] at bound; omega
    rw [List.take_of_length_le (by rw [List.length_append, List.length_singleton]; omega)]
    simp only [Nat.sub_self, List.getElem_cons_zero]
    have rows : ∀ position < (bytes ++ [ch]).length, ∀ entry ∈ (rounds.map Round.latest).getD position [],
        good ((bytes ++ [ch]).take position) (.entry entry) := by
      intro position inside entry member
      rw [List.length_append, List.length_singleton] at inside
      rw [List.getD_eq_getElem?_getD, List.getElem?_map, List.getElem?_eq_getElem (by omega)] at member
      rw [List.take_append_of_le_length (by omega)]
      exact before position _ (List.getElem?_eq_getElem (by omega)) (.entry entry) member
    have closed := closed _ _ (by rw [List.length_map, length, List.length_append, List.length_singleton]) rows
    refine (drain_drains closed _ _ nextRound_pending (fun fact held => ?_) mayLast).facts
    obtain ⟨last, state, next, final, member, successor, same⟩ := scanned_holds held
    rw [List.getLast?_eq_getElem?] at final
    have visited := (history.done _ last final).pending.toBeAdded member
    have item := before _ last final (.item state) visited
    rw [List.take_of_length_le (by omega)] at item
    obtain ⟨found, ready⟩ := scan bytes _ ch state next item (mayBefore _ last final state visited) successor
    obtain rfl | rfl := same
    · exact found
    · exact ready

end Metrale.Grammar
