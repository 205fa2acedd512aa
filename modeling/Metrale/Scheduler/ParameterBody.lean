import Metrale.Foundation.Runs
import Metrale.Scheduler.Promote

/-! # Parameter bodies (`emit_step/tool_param.rs`)

Inside a tool call the decode loop follows which tokens are a parameter's value: those after a `<parameter=KEY>` until
a `</parameter>`.  The tags come as the triples `<`, `parameter`, `=` and `</`, `parameter`, `>`.  The opener is looked
for among the last eight tokens, and the closer with a counter that does not start again on a second `</`. -/

namespace Metrale.Scheduler

open Foundation

/-! ## What a value is -/

def IsKey (key : List Token) : Prop := tokLtSlash ∉ key ∧ tokGt ∉ key

/-- The tokens end with a `<parameter=KEY`. -/
def EndsWithOpener (tokens : List Token) : Prop :=
  ∃ before key, tokens = before ++ [tokLt, tokParameter, tokEq] ++ key ∧ IsKey key

def InValue (body : List Token) : Prop :=
  ∃ opened value, body = opened ++ [tokGt] ++ value ∧ EndsWithOpener opened ∧
    ¬ [tokLtSlash, tokParameter, tokGt] <:+: value

theorem closer_within {opened value : List Token}
    (begun : [tokLtSlash, tokParameter] <:+ opened ++ [tokGt] ++ value) : [tokLtSlash, tokParameter] <:+ value := by
  have whole : value <:+ opened ++ [tokGt] ++ value := List.suffix_append _ _
  rcases Nat.lt_or_ge value.length 2 with short | long
  · -- the `>` of the opener would be one of the two tokens
    obtain ⟨before, split⟩ := begun
    have split : before ++ [tokLtSlash] ++ [tokParameter] = opened ++ [tokGt] ++ value := by rw [← split]; simp
    match value, short with
    | [], _ =>
      rw [List.append_nil] at split
      exact absurd (List.append_inj' split rfl).2 (by decide)
    | [only], _ => exact absurd (List.append_inj' (List.append_inj' split rfl).1 rfl).2 (by decide)
  · exact List.suffix_of_suffix_length_le begun whole long

theorem not_opener_of_begun {body : List Token} (begun : [tokLtSlash, tokParameter] <:+ body) : ¬ EndsWithOpener body := by
  rintro ⟨before, key, rfl, isKey⟩
  have whole : key <:+ before ++ [tokLt, tokParameter, tokEq] ++ key := List.suffix_append _ _
  rcases Nat.lt_or_ge key.length 2 with short | long
  · obtain ⟨rest, split⟩ := begun
    have split : rest ++ [tokLtSlash] ++ [tokParameter] = before ++ [tokLt, tokParameter] ++ [tokEq] ++ key := by
      rw [List.append_assoc, ← List.append_assoc before] at *
      simpa using split
    match key, short with
    | [], _ =>
      rw [List.append_nil] at split
      exact absurd (List.append_inj' split rfl).2 (by decide)
    | [only], _ => exact absurd (List.append_inj' (List.append_inj' split rfl).1 rfl).2 (by decide)
  · exact isKey.1 ((List.suffix_of_suffix_length_le begun whole long).mem (by simp))

theorem inValue_append (body : List Token) (tok : Token) : InValue (body ++ [tok]) ↔
    (InValue body ∧ ¬ (tok = tokGt ∧ [tokLtSlash, tokParameter] <:+ body)) ∨ tok = tokGt ∧ EndsWithOpener body := by
  constructor
  · intro ⟨opened, value, split, opener, unclosed⟩
    rcases List.eq_nil_or_concat value with rfl | ⟨earlier, last, rfl⟩
    · rw [List.append_nil] at split
      obtain ⟨rfl, same⟩ := List.append_inj' split rfl
      exact .inr ⟨(List.cons.inj same).1, opener⟩
    · rw [List.concat_eq_append, ← List.append_assoc] at split
      obtain ⟨rfl, same⟩ := List.append_inj' split rfl
      cases (List.cons.inj same).1
      rw [List.concat_eq_append] at unclosed
      refine .inl ⟨⟨opened, earlier, rfl, opener, fun inside => unclosed (inside.trans (List.prefix_append _ _).isInfix)⟩, ?_⟩
      intro ⟨closes, begun⟩
      apply unclosed
      obtain ⟨before, begun⟩ := closer_within begun
      exact ⟨before, [], by rw [closes, ← begun]; simp⟩
  · rintro (⟨⟨opened, value, rfl, opener, unclosed⟩, stays⟩ | ⟨rfl, opener⟩)
    · refine ⟨opened, value ++ [tok], by simp, opener, ?_⟩
      intro closed
      rcases List.infix_concat_iff.mp closed with ends | inside
      · obtain ⟨before, split⟩ := ends
        have split : before ++ [tokLtSlash, tokParameter] ++ [tokGt] = value ++ [tok] := by rw [← split]; simp
        obtain ⟨begun, same⟩ := List.append_inj' split rfl
        exact stays ⟨(List.cons.inj same).1.symm, opened ++ [tokGt] ++ before, by rw [List.append_assoc, begun]⟩
      · exact unclosed inside
    · exact ⟨body, [], by simp, opener, by simp⟩

/-! ## The lookback -/

theorem afterLastOpener_split {tokens key : List Token} (found : afterLastOpener tokens = some key) :
    ∃ before, tokens = before ++ [tokLt, tokParameter, tokEq] ++ key := by
  induction tokens with
  | nil => cases found
  | cons token tokens ih =>
    rw [afterLastOpener] at found
    cases later : afterLastOpener tokens with
    | some key' =>
      rw [later] at found
      cases found
      obtain ⟨before, split⟩ := ih later
      exact ⟨token :: before, by rw [split]; simp⟩
    | none =>
      rw [later] at found
      change (if (token :: tokens).take 3 = _ then some (tokens.drop 2) else none) = some key at found
      split at found
      · next opener =>
        cases found
        refine ⟨[], ?_⟩
        rw [List.nil_append, ← opener]
        exact (List.take_append_drop 3 (token :: tokens)).symm
      · cases found

theorem afterLastOpener_last (before key : List Token) :
    ∃ last, afterLastOpener (before ++ [tokLt, tokParameter, tokEq] ++ key) = some last ∧ last <:+ key := by
  induction before with
  | nil =>
    change ∃ last, (afterLastOpener (tokParameter :: tokEq :: key)).or (some key) = some last ∧ last <:+ key
    cases later : afterLastOpener (tokParameter :: tokEq :: key) with
    | none => exact ⟨key, rfl, List.suffix_refl key⟩
    | some last =>
      refine ⟨last, rfl, ?_⟩
      obtain ⟨before, split⟩ := afterLastOpener_split later
      have ends : last <:+ tokParameter :: tokEq :: key := ⟨before ++ [tokLt, tokParameter, tokEq], split.symm⟩
      have lengths := congrArg List.length split
      simp only [List.length_append, List.length_cons, List.length_nil] at lengths
      exact List.suffix_of_suffix_length_le ends ⟨[tokParameter, tokEq], rfl⟩ (by omega)
  | cons token before ih =>
    obtain ⟨last, found, ends⟩ := ih
    rw [List.cons_append, List.cons_append, afterLastOpener, found]
    exact ⟨last, rfl, ends⟩

theorem parameterOpens_iff (outputTokens : List Token) (tok : Token) :
    parameterOpens outputTokens tok = true ↔ EndsWithOpener (lookbackWindow outputTokens tok) := by
  rw [parameterOpens]
  constructor
  · intro opens
    split at opens
    · cases opens
    · next key found =>
      obtain ⟨before, split⟩ := afterLastOpener_split found
      exact ⟨before, key, split, by simpa [IsKey] using opens⟩
  · intro ⟨before, key, split, isKey⟩
    obtain ⟨last, found, ends⟩ := afterLastOpener_last before key
    have shorter : IsKey last := ⟨fun here => isKey.1 (ends.mem here), fun here => isKey.2 (ends.mem here)⟩
    rw [split, found]
    simpa [IsKey] using shorter

/-! ## A tool call -/

variable {Device Grammar : Type*}

/-- A token at one of the call sites: `decode_logits_step` has pushed it before, `emit_token` pushes it afterwards. -/
def ActiveSeq.feed (a : ActiveSeq Device Grammar) (pushed : Bool) (tok : Token) : ActiveSeq Device Grammar :=
  if pushed then (a.pushOutput tok).updateToolParamState tok else (a.updateToolParamState tok).pushOutput tok

structure BodyToken (request : RequestParams) where
  pushed : Bool
  tok : Token
  notStart : request.toolCallStartToken ≠ some tok
  notEnd : request.toolCallEndToken ≠ some tok

/-- A sequence inside a tool call, with the tokens since its opening tag. -/
structure ToolCall (Device Grammar : Type*) where
  seq : ActiveSeq Device Grammar
  body : List Token

namespace ToolCall

variable {request : RequestParams} {call : ToolCall Device Grammar} {next : BodyToken request}

def advance (call : ToolCall Device Grammar) (next : BodyToken request) : ToolCall Device Grammar :=
  ⟨call.seq.feed next.pushed next.tok, call.body ++ [next.tok]⟩

/-- The sequence knows whether it is in a value, and that it is in none once the call has ended. -/
def Tracked (request : RequestParams) (call : ToolCall Device Grammar) : Prop :=
  (call.seq.tool.insideParameterBody = true ↔ InValue call.body) ∧
  ∀ pushed stop, request.toolCallEndToken = some stop → request.toolCallStartToken ≠ some stop →
    (call.seq.feed pushed stop).tool.insideParameterBody = false

def lookback (call : ToolCall Device Grammar) (next : BodyToken request) : List Token :=
  lookbackWindow (if next.pushed then call.seq.outputTokens ++ [next.tok] else call.seq.outputTokens) next.tok

/-- At a `>` in a value the counter stands at two exactly after `</`, `parameter`; at one outside, an opener ends among
the last eight tokens exactly when one ends in the body. -/
def Follows (call : ToolCall Device Grammar) (next : BodyToken request) : Prop :=
  next.tok = tokGt →
    (call.seq.tool.insideParameterBody = true →
      (2 ≤ call.seq.tool.paramClosePending ↔ [tokLtSlash, tokParameter] <:+ call.body)) ∧
    (call.seq.tool.insideParameterBody = false → (EndsWithOpener (call.lookback next) ↔ EndsWithOpener call.body))

structure Reading (request : RequestParams) (call : ToolCall Device Grammar) : Prop where
  request : call.seq.request = request
  thinking : call.seq.think.insideThinking = false
  body : call.seq.tool.insideToolBody = true

theorem parameterToken_body (tool : ToolState) (tok : Token) :
    (tool.parameterToken tok).insideToolBody = tool.insideToolBody := by
  rw [ToolState.parameterToken]
  split
  · split <;> rfl
  · split
    · split <;> rfl
    · split <;> rfl

theorem parameterToken_leaves (tool : ToolState) (tok : Token) : (tool.parameterToken tok).insideParameterBody = true ↔
    tool.insideParameterBody = true ∧ ¬ (tok = tokGt ∧ 2 ≤ tool.paramClosePending) := by
  rw [ToolState.parameterToken]
  split
  · next none => split <;> simp [none]
  · split
    · next one => split <;> simp [one]
    · next none one =>
      have two : 2 ≤ tool.paramClosePending := by omega
      split
      · next closes => simp [closes, two]
      · next open_ => simp [open_]

theorem toolBodyToken_inside (a : ActiveSeq Device Grammar) (tok : Token) :
    (a.toolBodyToken tok).tool.insideParameterBody = true ↔
      a.tool.insideParameterBody = true ∧ ¬ (tok = tokGt ∧ 2 ≤ a.tool.paramClosePending) ∨
      a.tool.insideParameterBody = false ∧ tok = tokGt ∧ parameterOpens a.outputTokens tok = true := by
  rw [ActiveSeq.toolBodyToken]
  cases inside : a.tool.insideParameterBody with
  | true =>
    dsimp only
    rw [if_pos rfl]
    dsimp only
    rw [parameterToken_leaves]
    simp [inside]
  | false =>
    dsimp only
    rw [if_neg Bool.false_ne_true]
    split
    · next opens => simpa using opens
    · next closed => simpa [inside] using closed

theorem Reading.toolBodyToken {a : ActiveSeq Device Grammar} {body : List Token} (reading : Reading request ⟨a, body⟩)
    (tok : Token) (body' : List Token) : Reading request ⟨a.toolBodyToken tok, body'⟩ := by
  obtain ⟨request, thinking, inside⟩ := reading
  rw [ActiveSeq.toolBodyToken]
  dsimp only
  split
  · exact ⟨request, thinking, (parameterToken_body _ _).trans inside⟩
  · split
    · exact ⟨request, thinking, inside⟩
    · exact ⟨request, thinking, inside⟩

theorem Reading.updateToolParamState {a : ActiveSeq Device Grammar} {body : List Token}
    (reading : Reading request ⟨a, body⟩) (next : BodyToken request) :
    a.updateToolParamState next.tok = a.toolBodyToken next.tok := by
  obtain ⟨rfl, thinking, inside⟩ := reading
  rw [ActiveSeq.updateToolParamState, thinking, if_neg Bool.false_ne_true, if_neg next.notStart, if_neg next.notEnd, inside,
    if_pos rfl]

theorem Reading.feed (reading : Reading request call) (next : BodyToken request) :
    Reading request (call.advance next) ∧
    ((call.advance next).seq.tool.insideParameterBody = true ↔
      call.seq.tool.insideParameterBody = true ∧ ¬ (next.tok = tokGt ∧ 2 ≤ call.seq.tool.paramClosePending) ∨
      call.seq.tool.insideParameterBody = false ∧ next.tok = tokGt ∧ EndsWithOpener (call.lookback next)) := by
  rw [lookback, ← parameterOpens_iff, advance, ActiveSeq.feed]
  cases next.pushed with
  | true =>
    have pushed : Reading request ⟨call.seq.pushOutput next.tok, call.body⟩ :=
      ⟨reading.request, reading.thinking, reading.body⟩
    rw [if_pos rfl, pushed.updateToolParamState next]
    exact ⟨pushed.toolBodyToken _ _, toolBodyToken_inside _ _⟩
  | false =>
    have whole : Reading request ⟨call.seq, call.body⟩ := reading
    obtain ⟨request, thinking, body⟩ := whole.toolBodyToken next.tok call.body
    rw [if_neg Bool.false_ne_true, whole.updateToolParamState next]
    exact ⟨⟨request, thinking, body⟩, toolBodyToken_inside _ _⟩

structure Sound (request : RequestParams) (call : ToolCall Device Grammar) : Prop extends Reading request call where
  inside : call.seq.tool.insideParameterBody = true ↔ InValue call.body

theorem Sound.tracked (sound : Sound request call) : Tracked request call := by
  refine ⟨sound.inside, ?_⟩
  intro pushed stop ends starts
  have left (a : ActiveSeq Device Grammar) (same : a.request = request) (thinking : a.think.insideThinking = false) :
      (a.updateToolParamState stop).tool.insideParameterBody = false := by
    rw [ActiveSeq.updateToolParamState, thinking, if_neg Bool.false_ne_true, same, if_neg starts, if_pos ends]
  rw [ActiveSeq.feed]
  split
  · exact left (call.seq.pushOutput stop) sound.request sound.thinking
  · exact left call.seq sound.request sound.thinking

theorem Sound.feed_iff (sound : Sound request call) (next : BodyToken request) :
    ((call.advance next).seq.tool.insideParameterBody = true ↔ InValue (call.advance next).body) ↔ call.Follows next := by
  rw [(sound.toReading.feed next).2]
  change (_ ↔ InValue (call.body ++ [next.tok])) ↔ _
  rw [inValue_append, ← sound.inside, Follows]
  have exclusive := @not_opener_of_begun call.body
  cases call.seq.tool.insideParameterBody with
  | true => simp only [true_and, Bool.true_eq_false, false_and, or_false, forall_true_left, false_implies, and_true]; tauto
  | false => simp only [Bool.false_eq_true, false_and, false_or, true_and, forall_true_left, false_implies]; tauto

theorem not_inValue_nil : ¬ InValue [] := by
  rintro ⟨opened, value, split, -⟩
  have lengths := congrArg List.length split
  simp at lengths

/-- `<parameter=9>8</parameter>` -/
def plainBody : List (BodyToken (ActiveSeq.plain 7).request) :=
  [⟨true, tokLt, by decide, by decide⟩, ⟨true, tokParameter, by decide, by decide⟩, ⟨true, tokEq, by decide, by decide⟩,
    ⟨true, 9, by decide, by decide⟩, ⟨true, tokGt, by decide, by decide⟩, ⟨false, 8, by decide, by decide⟩,
    ⟨false, tokLtSlash, by decide, by decide⟩, ⟨false, tokParameter, by decide, by decide⟩,
    ⟨false, tokGt, by decide, by decide⟩]

/-- `<parameter=9></</parameter>`, whose value is `</`. -/
def brokenOffBody : List (BodyToken (ActiveSeq.plain 7).request) :=
  plainBody.take 5 ++ [⟨false, tokLtSlash, by decide, by decide⟩] ++ plainBody.drop 6

end ToolCall

end Metrale.Scheduler
