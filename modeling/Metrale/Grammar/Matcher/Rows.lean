import Metrale.Foundation.Outcome
import Metrale.Grammar.Matcher.Lookahead

/-! # What is pushed is popped

Every query leaves the parser at the rows it found: it counts the rows that it pushes, and pops as many. -/

namespace Metrale.Grammar

open Metrale.Foundation

variable {Cell : Type*} {count kept : Nat} {base rows : List Cell}

def RowsOver (count : Nat) (base rows : List Cell) : Prop := base <+: rows ∧ rows.length = base.length + count

namespace RowsOver

theorem refl : RowsOver 0 base base := ⟨List.prefix_refl base, rfl⟩

theorem push (above : RowsOver count base rows) (row : Cell) : RowsOver (count + 1) base (rows ++ [row]) := by
  refine ⟨above.1.trans (List.prefix_append rows [row]), ?_⟩
  rw [List.length_append, above.2]
  rfl

theorem pop (above : RowsOver (kept + count) base rows) : RowsOver kept base (rows.take (rows.length - count)) := by
  have long : rows.length = base.length + (kept + count) := above.2
  have shorter : (rows.take (rows.length - count)).length = base.length + kept := by
    rw [List.length_take]
    omega
  refine ⟨List.prefix_of_prefix_length_le above.1 (List.take_prefix _ _) ?_, shorter⟩
  omega

theorem eq (above : RowsOver 0 base rows) : rows = base := (above.1.eq_of_length above.2.symm).symm

end RowsOver

namespace EarleyParser

variable {grammar : GrammarData} {base parser next : EarleyParser} {bytes : List UInt8}

/-- A parser of a matcher: its first row is there. -/
structure Seeded (parser : EarleyParser) : Prop where
  nonempty : 0 < parser.completable.length
  notStopped : parser.stopTokenIsAccepted = false

structure Over (count : Nat) (base parser : EarleyParser) : Prop where
  isCompleted : RowsOver count base.isCompleted parser.isCompleted
  completable : RowsOver count base.completable parser.completable
  scanableHistory : RowsOver count base.scanableHistory parser.scanableHistory
  seeded : base.Seeded
  notStopped : parser.stopTokenIsAccepted = false

namespace Over

theorem refl (seeded : base.Seeded) : Over 0 base base := ⟨.refl, .refl, .refl, seeded, seeded.notStopped⟩

theorem eq (above : Over 0 base parser) : parser = base := by
  obtain ⟨isCompleted, completable, scanableHistory, seeded, notStopped⟩ := above
  cases parser
  cases base
  cases isCompleted.eq
  cases completable.eq
  cases scanableHistory.eq
  cases notStopped.trans seeded.notStopped.symm
  rfl

theorem parserSeeded (above : Over count base parser) : parser.Seeded := by
  refine ⟨?_, above.notStopped⟩
  rw [above.completable.2]
  exact Nat.add_pos_left above.seeded.nonempty count

theorem pushRound (above : Over count base parser) (round : Round) : Over (count + 1) base (parser.pushRound grammar round) :=
  ⟨above.isCompleted.push _, above.completable.push _, above.scanableHistory.push _, above.seeded, above.notStopped⟩

theorem pushOneStateToCheck (above : Over count base parser) (state : ParserState) :
    Over (count + 1) base (parser.pushOneStateToCheck state) :=
  ⟨above.isCompleted.push _, above.completable.push _, above.scanableHistory.push _, above.seeded, above.notStopped⟩

theorem popRows (above : Over (kept + count) base parser) : Answers (parser.popRows count) (Over kept base) := by
  have within : count < parser.completable.length := by
    have long := above.completable.2
    have nonempty := above.seeded.nonempty
    omega
  rw [EarleyParser.popRows, if_pos within]
  exact .intro ⟨above.isCompleted.pop, above.completable.pop, above.scanableHistory.pop, above.seeded, rfl⟩

theorem popAll (above : Over count base parser) : parser.popRows count = some base := by
  rw [← Nat.zero_add count] at above
  obtain ⟨popped, answered, restored⟩ := above.popRows
  rw [answered, restored.eq]

theorem advance {ch : UInt8} {accepted : Bool} (above : Over count base parser)
    (advanced : parser.advance grammar ch = (accepted, next)) :
    if accepted then Over (count + 1) base next else next = parser := by
  simp only [EarleyParser.advance] at advanced
  split at advanced
  · cases advanced
    exact if_neg Bool.false_ne_true ▸ rfl
  · cases advanced
    exact above.pushRound _

theorem accepts {ch : UInt8} (above : Over count base parser) (advanced : parser.advance grammar ch = (true, next)) :
    Over (count + 1) base next := above.advance advanced

theorem rejects {ch : UInt8} (above : Over count base parser) (advanced : parser.advance grammar ch = (false, next)) :
    next = parser := by
  have kept := above.advance advanced
  rwa [if_neg Bool.false_ne_true] at kept

theorem advanceBytes {extra consumed reached : Nat} {all : Bool} (above : Over (extra + consumed) base parser)
    (advanced : parser.advanceBytes grammar consumed bytes = (all, reached, next)) :
    Over (extra + reached) base next ∧ (all = true → reached = consumed + bytes.length) := by
  induction bytes generalizing consumed parser with
  | nil =>
    cases advanced
    exact ⟨above, fun _ => rfl⟩
  | cons byte rest ih =>
    rw [EarleyParser.advanceBytes] at advanced
    split at advanced
    · next answered =>
      obtain ⟨extended, total⟩ := ih (above.accepts answered) advanced
      refine ⟨extended, fun whole => ?_⟩
      rw [total whole, List.length_cons]
      omega
    · next answered =>
      cases advanced
      rw [above.rejects answered]
      exact ⟨above, nofun⟩

end Over

theorem fromGrammar_seeded (grammar : GrammarData) : (fromGrammar grammar).Seeded := ⟨Nat.zero_lt_one, rfl⟩

/-! ## Jump-forward and completion -/

theorem Over.jumpForward {rounds : Nat} (above : Over count base parser) :
    Whenever (parser.jumpForward grammar rounds) fun (result, last) => Over (count + result.length) base last := by
  induction rounds generalizing count parser with
  | zero => exact nofun
  | succ rounds ih =>
    rw [EarleyParser.jumpForward]
    split
    · exact .intro above
    · split
      · next byte only =>
        split
        · next answered =>
          refine Whenever.bind (ih (above.accepts answered)) ?_
          intro (result, last) extended
          have longer : count + 1 + result.length = count + (byte :: result).length := by
            rw [List.length_cons]
            omega
          dsimp only at extended
          rw [longer] at extended
          exact .intro extended
        · next answered =>
          rw [above.rejects answered]
          exact .intro above
      · exact .intro above

end EarleyParser

namespace Search

variable {grammar : GrammarData} {base : EarleyParser} {descend : Search → Option (Bool × Search)} {search : Search}

def Tracked (base : EarleyParser) (search : Search) : Prop := EarleyParser.Over search.out.length base search.parser

/-- A search that fails is back where it began. -/
def Returned (base : EarleyParser) (before : Search) (answer : Bool × Search) : Prop :=
  answer.2.Tracked base ∧ (answer.1 = false → answer.2.out = before.out)

theorem Returned.stayed (tracked : search.Tracked base) : Returned base search (false, search) :=
  ⟨tracked, fun _ => rfl⟩

theorem Returned.after {before : Search} {answer : Bool × Search} (same : search.out = before.out)
    (returned : Returned base search answer) : Returned base before answer :=
  ⟨returned.1, fun failed => (returned.2 failed).trans same⟩

theorem tryByte_returns (descends : ∀ search, search.Tracked base → Answers (descend search) (Returned base search))
    (byte : UInt8) (tracked : search.Tracked base) :
    Answers (tryByte grammar descend byte search) (Returned base search) := by
  rw [tryByte]
  dsimp only
  split
  · next answered =>
    rw [EarleyParser.Over.rejects tracked answered]
    exact .intro ⟨tracked, fun _ => rfl⟩
  · next advanced answered =>
    have longer : (search.out ++ [byte]).length = search.out.length + 1 := List.length_append
    have extended : Tracked base ⟨advanced, search.out ++ [byte], search.budget - 1⟩ := by
      rw [Tracked, longer]
      exact EarleyParser.Over.accepts tracked answered
    apply (descends _ extended).bind
    intro (found, after) returned
    cases found with
    | true => exact .intro ⟨returned.1, nofun⟩
    | false =>
      have same : after.out = search.out ++ [byte] := returned.2 rfl
      have above : EarleyParser.Over (search.out.length + 1) base after.parser := by
        rw [← longer, ← same]
        exact returned.1
      apply above.popRows.bind
      intro parser popped
      apply Answers.intro
      have dropped : after.out.dropLast = search.out := by rw [same, List.dropLast_concat]
      refine ⟨?_, fun _ => dropped⟩
      rw [Tracked, dropped]
      exact popped

theorem tryAcceptable_returns
    (descends : ∀ search, search.Tracked base → Answers (descend search) (Returned base search))
    (mask : UInt8 → Bool) (byte : UInt8) (tracked : search.Tracked base) :
    Answers (tryAcceptable grammar descend mask byte search) (Returned base search) := by
  rw [tryAcceptable]
  split
  · exact tryByte_returns descends byte tracked
  · exact .intro (.stayed tracked)

theorem tryClosers_returns (descends : ∀ search, search.Tracked base → Answers (descend search) (Returned base search))
    (mask : UInt8 → Bool) (bytes : List UInt8) (tracked : search.Tracked base) :
    Answers (tryClosers grammar descend mask bytes search) fun (answer, after) =>
      Returned base search (answer.getD false, after) := by
  induction bytes generalizing search with
  | nil => exact .intro (.stayed tracked)
  | cons byte rest ih =>
    rw [tryClosers]
    apply (tryAcceptable_returns descends mask byte tracked).bind
    intro (found, after) returned
    cases found with
    | true => exact .intro ⟨returned.1, nofun⟩
    | false =>
      have same : after.out = search.out := returned.2 rfl
      have tracked : after.Tracked base := returned.1
      simp only [Bool.false_eq_true, if_false]
      split
      · exact .intro ⟨tracked, fun _ => same⟩
      · apply (ih tracked).imp
        intro _ rested
        exact rested.after same

theorem tryContent_returns (descends : ∀ search, search.Tracked base → Answers (descend search) (Returned base search))
    (mask : UInt8 → Bool) (bytes : List UInt8) (content : Nat) (tracked : search.Tracked base) :
    Answers (tryContent grammar descend mask bytes content search) (Returned base search) := by
  induction bytes generalizing search content with
  | nil => exact .intro (.stayed tracked)
  | cons byte rest ih =>
    rw [tryContent]
    split
    · exact ih content tracked
    · split
      · exact .intro (.stayed tracked)
      · apply (tryByte_returns descends byte tracked).bind
        intro (found, after) returned
        cases found with
        | true => exact .intro ⟨returned.1, nofun⟩
        | false =>
          have same : after.out = search.out := returned.2 rfl
          have tracked : after.Tracked base := returned.1
          apply (ih (content + 1) tracked).imp
          intro _ rested
          exact rested.after same

/-- The search always answers, and is back where it began unless it found a completion. -/
theorem closeDfs_returns (remaining : Nat) (tracked : search.Tracked base) :
    Answers (closeDfs grammar remaining search) (Returned base search) := by
  induction remaining generalizing search with
  | zero =>
    rw [closeDfs]
    split
    · exact .intro ⟨tracked, nofun⟩
    · exact .intro (.stayed tracked)
  | succ remaining ih =>
    rw [closeDfs]
    split
    · exact .intro ⟨tracked, nofun⟩
    · dsimp only
      split
      · exact .intro (.stayed tracked)
      · apply (tryClosers_returns (fun _ tracked => ih tracked) _ closePriority tracked).bind
        intro (answer, after) returned
        cases answer with
        | some found => exact .intro returned
        | none =>
          have same : after.out = search.out := returned.2 rfl
          have tracked : after.Tracked base := returned.1
          apply (tryContent_returns (fun _ tracked => ih tracked) _ allBytes 0 tracked).imp
          intro _ rested
          exact rested.after same

end Search

end Metrale.Grammar
