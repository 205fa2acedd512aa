import Metrale.Foundation.TextSearch
import Metrale.Foundation.Utf8

/-! # Incremental detokenisation (`tokenizer/chat_impl.rs`, `api/chat_stream/handle_token.rs`)

The tokenizer decodes the bytes of its tokens lossily; a special token has none.  A call decodes what is behind the read
offset of two calls ago and takes what that adds to the text up to the last one. -/

namespace Metrale.Server

open Metrale.Foundation

variable {Token : Type*} (tokenBytes : Token → List UInt8)

/-- `decode`, special tokens being skipped -/
def decodeTokens (toks : List Token) : List Char := fromUtf8Lossy (toks.flatMap tokenBytes)

structure DetokOffsets where
  prefixOffset : Nat
  readOffset : Nat

/-- `incremental_decode`: the text that the tokens have added, and the offsets after it. -/
def incrementalDecode (toks : List Token) (offsets : DetokOffsets) : List Char × DetokOffsets :=
  let offsets :=
    if toks.length < offsets.readOffset ∨ offsets.readOffset < offsets.prefixOffset then ⟨0, 0⟩ else offsets
  let prefixText := decodeTokens tokenBytes ((toks.take offsets.readOffset).drop offsets.prefixOffset)
  let newText := decodeTokens tokenBytes (toks.drop offsets.prefixOffset)
  if byteLength prefixText < byteLength newText ∧ newText.getLast? ≠ some replacement then
    match slice newText (byteLength prefixText) (byteLength newText) with
    | some delta => (delta, ⟨offsets.readOffset, toks.length⟩)
    | none => ([], offsets)
  else ([], offsets)

structure DetokState (Token : Type*) where
  allToks : List Token
  offsets : DetokOffsets
  contentDecoded : List Char

namespace DetokState

def new : DetokState Token := ⟨[], ⟨0, 0⟩, []⟩

inductive Event (Token : Type*) where
  | token (tok : Token)
  | decode

def step (state : DetokState Token) : Event Token → DetokState Token
  | .token tok => { state with allToks := state.allToks ++ [tok] }
  | .decode =>
    let (delta, offsets) := incrementalDecode tokenBytes state.allToks state.offsets
    { state with offsets, contentDecoded := state.contentDecoded ++ delta }

def after (events : List (Event Token)) : DetokState Token := events.foldl (step tokenBytes) new

end DetokState

/-! ## Where the offsets are -/

section Offsets

variable {tokenBytes}

/-- These tokens end where a character ends. -/
def EndsWhole (tokenBytes : Token → List UInt8) (toks : List Token) : Prop := Whole (toks.flatMap tokenBytes)

theorem EndsWhole.decode_append {toks : List Token} (whole : EndsWhole tokenBytes toks) (more : List Token) :
    decodeTokens tokenBytes (toks ++ more) = decodeTokens tokenBytes toks ++ decodeTokens tokenBytes more := by
  rw [decodeTokens, List.flatMap_append]
  exact Whole.decode_append whole _

/-- Both offsets are where characters end, and the text up to the second is out. -/
structure DetokState.Aligned (tokenBytes : Token → List UInt8) (state : DetokState Token) : Prop where
  ordered : state.offsets.prefixOffset ≤ state.offsets.readOffset
  inside : state.offsets.readOffset ≤ state.allToks.length
  prefixWhole : EndsWhole tokenBytes (state.allToks.take state.offsets.prefixOffset)
  readWhole : EndsWhole tokenBytes (state.allToks.take state.offsets.readOffset)
  decoded : state.contentDecoded = decodeTokens tokenBytes (state.allToks.take state.offsets.readOffset)

namespace DetokState.Aligned

variable {state : DetokState Token}

theorem token (aligned : state.Aligned tokenBytes) (tok : Token) : (state.step tokenBytes (.token tok)).Aligned tokenBytes where
  ordered := aligned.ordered
  inside := aligned.inside.trans (by simp [step])
  prefixWhole := by
    rw [DetokState.step, List.take_append_of_le_length (aligned.ordered.trans aligned.inside)]
    exact aligned.prefixWhole
  readWhole := by
    rw [DetokState.step, List.take_append_of_le_length aligned.inside]
    exact aligned.readWhole
  decoded := by
    rw [DetokState.step, List.take_append_of_le_length aligned.inside]
    exact aligned.decoded

theorem parts (aligned : state.Aligned tokenBytes) : ∃ first middle rest, state.allToks = first ++ middle ++ rest ∧
    state.allToks.take state.offsets.prefixOffset = first ∧ state.allToks.take state.offsets.readOffset = first ++ middle ∧
    (state.allToks.take state.offsets.readOffset).drop state.offsets.prefixOffset = middle ∧
    state.allToks.drop state.offsets.prefixOffset = middle ++ rest := by
  have front : (state.allToks.take state.offsets.readOffset).take state.offsets.prefixOffset =
      state.allToks.take state.offsets.prefixOffset := by
    rw [List.take_take, Nat.min_eq_left aligned.ordered]
  have read := List.take_append_drop state.offsets.prefixOffset (state.allToks.take state.offsets.readOffset)
  rw [front] at read
  have whole := List.take_append_drop state.offsets.readOffset state.allToks
  refine ⟨_, _, state.allToks.drop state.offsets.readOffset, ?_, rfl, read.symm, rfl, ?_⟩
  · rw [read, whole]
  · have behind : state.offsets.prefixOffset ≤ (state.allToks.take state.offsets.readOffset).length := by
      rw [List.length_take, Nat.min_eq_left aligned.inside]
      exact aligned.ordered
    rw [← List.drop_append_of_le_length behind, whole]

theorem call_cases (aligned : state.Aligned tokenBytes) :
    (∃ rest, state.allToks = state.allToks.take state.offsets.readOffset ++ rest ∧ EndsWhole tokenBytes state.allToks ∧
      incrementalDecode tokenBytes state.allToks state.offsets =
        (decodeTokens tokenBytes rest, ⟨state.offsets.readOffset, state.allToks.length⟩)) ∨
    incrementalDecode tokenBytes state.allToks state.offsets = ([], state.offsets) := by
  obtain ⟨first, middle, rest, all, atPrefix, atRead, window, behind⟩ := aligned.parts
  have fits : ¬(state.allToks.length < state.offsets.readOffset ∨ state.offsets.readOffset < state.offsets.prefixOffset) := by
    have := aligned.ordered
    have := aligned.inside
    omega
  have firstWhole : EndsWhole tokenBytes first := atPrefix ▸ aligned.prefixWhole
  have bothWhole : EndsWhole tokenBytes (first ++ middle) := atRead ▸ aligned.readWhole
  have middleWhole : EndsWhole tokenBytes middle := by
    rw [EndsWhole, List.flatMap_append] at bothWhole
    exact Whole.of_append firstWhole bothWhole
  -- the window starts and is cut where characters end
  have added : decodeTokens tokenBytes (middle ++ rest) = decodeTokens tokenBytes middle ++ decodeTokens tokenBytes rest :=
    middleWhole.decode_append rest
  have cut : slice (decodeTokens tokenBytes (middle ++ rest)) (byteLength (decodeTokens tokenBytes middle))
      (byteLength (decodeTokens tokenBytes (middle ++ rest))) = some (decodeTokens tokenBytes rest) := by
    have taken := slice_byteLength (decodeTokens tokenBytes middle) (decodeTokens tokenBytes rest) []
    rwa [List.append_nil, ← added] at taken
  rw [incrementalDecode, if_neg fits, window, behind, cut]
  split
  · next grown =>
    have whole : EndsWhole tokenBytes state.allToks := by
      rw [all, List.append_assoc, EndsWhole, List.flatMap_append]
      exact Whole.append firstWhole grown.2
    exact .inl ⟨rest, by rw [atRead, all], whole, rfl⟩
  · exact .inr rfl

theorem decode (aligned : state.Aligned tokenBytes) : (state.step tokenBytes .decode).Aligned tokenBytes := by
  obtain ⟨rest, all, whole, called⟩ | called := aligned.call_cases
  · have stepped : state.step tokenBytes .decode =
        ⟨state.allToks, ⟨state.offsets.readOffset, state.allToks.length⟩,
          state.contentDecoded ++ decodeTokens tokenBytes rest⟩ := by
      simp only [DetokState.step, called]
    have text : state.contentDecoded ++ decodeTokens tokenBytes rest = decodeTokens tokenBytes state.allToks := by
      rw [aligned.decoded, ← aligned.readWhole.decode_append, ← all]
    rw [stepped]
    exact {
      ordered := aligned.inside
      inside := Nat.le_refl _
      prefixWhole := aligned.readWhole
      readWhole := by rwa [List.take_length]
      decoded := by rw [List.take_length, text] }
  · have stepped : state.step tokenBytes .decode = state := by
      simp only [DetokState.step, called, List.append_nil]
    rw [stepped]
    exact aligned

theorem step (aligned : state.Aligned tokenBytes) (event : Event Token) : (state.step tokenBytes event).Aligned tokenBytes := by
  cases event with
  | token tok => exact aligned.token tok
  | decode => exact aligned.decode

end DetokState.Aligned

end Offsets

theorem DetokState.after_aligned (events : List (Event Token)) : (after tokenBytes events).Aligned tokenBytes := by
  have start : (new : DetokState Token).Aligned tokenBytes := ⟨Nat.le_refl _, Nat.le_refl _, Whole.nil, Whole.nil, rfl⟩
  exact List.foldlRecOn events _ start fun _ aligned event _ => aligned.step event

/-- The text that is out is the decoding of the tokens up to the read offset, and begins that of any longer list. -/
theorem DetokState.after_decoded (events : List (Event Token)) :
    (after tokenBytes events).contentDecoded =
        decodeTokens tokenBytes ((after tokenBytes events).allToks.take (after tokenBytes events).offsets.readOffset) ∧
      ∀ more, (after tokenBytes events).contentDecoded <+:
        decodeTokens tokenBytes ((after tokenBytes events).allToks ++ more) := by
  have aligned := after_aligned tokenBytes events
  refine ⟨aligned.decoded, ?_⟩
  intro more
  rw [aligned.decoded, ← List.take_append_drop (after tokenBytes events).offsets.readOffset
    (after tokenBytes events).allToks, List.append_assoc, aligned.readWhole.decode_append]
  rw [List.take_append_drop]
  exact List.prefix_append _ _

end Metrale.Server
