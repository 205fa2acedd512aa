import Metrale.Grammar.Earley.Completeness

/-! # The parser accepts the language of the grammar

Where no count of repetitions goes wrong, the bytes are accepted exactly when the root rule derives them. -/

namespace Metrale.Grammar

open Metrale.Foundation GrammarData Round EarleyParser

variable {compiled : CompiledGrammar} {grammar : GrammarData} {input bytes : List UInt8} {rounds : List Round}
  {position read : Nat} {state : ParserState} {ch : UInt8}

theorem nextRound_visited {next : ParserState} (found : next ∈ ((ofRounds grammar rounds).scanned grammar ch).visited) :
    next ∈ (nextRound grammar rounds ch).visited :=
  drain_visited _ _ found

theorem At.append {round : Round} (item : At rounds position state) : At (rounds ++ [round]) position state := by
  obtain ⟨stored, here, member⟩ := item
  exact ⟨stored, by rw [List.getElem?_append_left (List.getElem?_eq_some_iff.mp here).1]; exact here, member⟩

theorem History.scanned (history : History grammar bytes rounds) :
    ∀ position round ch, rounds[position]? = some round → bytes[position]? = some ch → position + 1 < rounds.length →
      ∀ state ∈ grammar.prune round.toBeAdded, ∀ next, Successor grammar ch state next →
      At rounds (position + 1) next := by
  induction history with
  | start =>
    intro position round ch _ _ inside
    rw [List.length_singleton] at inside
    omega
  | @read bytes rounds last history reads ih =>
    intro position round ch stored byte inside state member next successor
    have length := history.length
    rw [List.length_append, List.length_singleton] at inside
    rw [List.getElem?_append_left (by omega)] at stored
    rw [List.getElem?_append] at byte
    by_cases before : position + 1 < rounds.length
    · rw [if_pos (by omega)] at byte
      exact (ih position round ch stored byte before state member next successor).append
    · have final : position = rounds.length - 1 := by omega
      rw [if_neg (by omega)] at byte
      have same : position - bytes.length = 0 := by omega
      rw [same] at byte
      cases byte
      have latest : state ∈ (ofRounds grammar rounds).latestScanableStates := by
        rw [latestScanableStates, ofRounds, List.getLastD_eq_getLast?, List.getLast?_map, List.getLast?_eq_getElem?,
          ← final, stored]
        exact member
      have here : position + 1 = rounds.length := by omega
      rw [here]
      exact ⟨_, List.getElem?_concat_length, nextRound_visited (scanned_visited.mpr ⟨state, latest, successor⟩)⟩

theorem History.parsing (history : History compiled.toGrammarData (input.take read) rounds)
    (within : read ≤ input.length) (nullable : compiled.ExactNullable) (kept : KeptRounds compiled.toGrammarData rounds) :
    Parsing compiled input rounds where
  nullable := nullable
  done := history.done
  kept := kept
  scanned position round ch stored byte inside := by
    have length := history.length
    rw [List.length_take, Nat.min_eq_left within] at length
    exact history.scanned position round ch stored (by rw [List.getElem?_take_of_lt (by omega)]; exact byte) inside

theorem History.root (history : History grammar bytes rounds) :
    At rounds 0 (grammar.ruleStart grammar.rootRuleId none) := by
  induction history with
  | start => exact ⟨_, rfl, drain_visited _ _ (List.mem_singleton.mpr rfl)⟩
  | read _ _ ih => exact ih.append

theorem completed_ofRounds (history : History grammar bytes rounds) {last : Round}
    (final : rounds[bytes.length]? = some last) : (ofRounds grammar rounds).completed = last.acceptStopToken := by
  have length := history.length
  rw [completed, ofRounds, List.getLastD_eq_getLast?, List.getLast?_map, List.getLast?_eq_getElem?, length,
    Nat.add_sub_cancel, final]
  rfl

def CountsKept (grammar : GrammarData) (input : List UInt8) : Prop :=
  ∀ bytes rounds, bytes <+: input → History grammar bytes rounds → KeptRounds grammar rounds

theorem history_of_generates (nullable : compiled.ExactNullable) (kept : CountsKept compiled.toGrammarData input)
    (derived : compiled.Generates compiled.rootRuleId input) (within : read ≤ input.length) :
    ∃ rounds, History compiled.toGrammarData (input.take read) rounds := by
  induction read with
  | zero => exact ⟨_, .start⟩
  | succ read ih =>
    obtain ⟨rounds, history⟩ := ih (by omega)
    have length := history.length
    rw [List.length_take, Nat.min_eq_left (by omega)] at length
    have parsing := history.parsing (by omega) nullable (kept _ rounds (List.take_prefix _ _) history)
    obtain ⟨ch, next, reads⟩ | ⟨bound, -⟩ := followed parsing derived 0 none history.root (List.prefix_rfl)
    · have last : rounds.length - 1 = read := by omega
      rw [last] at next
      rw [List.take_add_one, next]
      exact ⟨_, history.read reads⟩
    · omega

theorem generates_of_acceptsBytes (nullable : compiled.ExactNullable) (kept : CountsKept compiled.toGrammarData input)
    (accepted : acceptsBytes compiled.toGrammarData input = true) : compiled.Generates compiled.rootRuleId input := by
  simp only [acceptsBytes] at accepted
  split at accepted
  · next parser ran =>
    obtain ⟨rounds, history, rfl⟩ := advanceAll_iff.mp ran
    have length := history.length
    have stored : rounds[input.length]? = some rounds[input.length] := List.getElem?_eq_getElem (by omega)
    rw [completed_ofRounds history stored] at accepted
    have valid := history.valid nullable (kept _ rounds List.prefix_rfl history) _ _ stored .accept accepted
    rwa [List.take_length] at valid
  · cases accepted

theorem acceptsBytes_of_generates (nullable : compiled.ExactNullable) (kept : CountsKept compiled.toGrammarData input)
    (derived : compiled.Generates compiled.rootRuleId input) : acceptsBytes compiled.toGrammarData input = true := by
  obtain ⟨rounds, history⟩ := history_of_generates nullable kept derived (Nat.le_refl _)
  have parsing := history.parsing (Nat.le_refl _) nullable (kept _ rounds (List.take_prefix _ _) history)
  rw [List.take_length] at history
  have length := history.length
  simp only [acceptsBytes, advanceAll_iff.mpr ⟨rounds, history, rfl⟩]
  obtain ⟨ch, next, -⟩ | ⟨-, last, stored, accepted⟩ := followed parsing derived 0 none history.root (List.prefix_rfl)
  · rw [length, Nat.add_sub_cancel, List.getElem?_eq_none (Nat.le_refl _)] at next
    cases next
  · rw [Nat.zero_add] at stored
    rw [completed_ofRounds history stored]
    exact accepted

end Metrale.Grammar
