import Metrale.Server.CallBodies
import Metrale.Server.ToolRounds

/-! # The cuts of the tool detector (`streaming_emit.rs`, `streaming_impl.rs`, `streaming_flush.rs`, `helpers_b.rs`)

Most cuts are at a tag that has been found.  The others are those of the conversion, at the indexes of characters, and
those at the counter of what is out, which each form of arguments keeps in a text of its own. -/

namespace Metrale.Server

open Metrale.Foundation

def CallParsers.reading (p : CallParsers) (b : BodyParsers) : CallParsers :=
  { p with
    parseCompleteCall := Server.parseCompleteCall b
    parseOneCall := Server.parseOneCall b
    gemma4ToJson := Server.gemma4ToJson b.alphanumericBeyond }

/-- The text that a counter counts in.  A counter that is `capped` may be past the end. -/
structure Counted where
  text : Text
  capped : Bool

def Counted.Fits (counted : Counted) (counter : Nat) : Prop :=
  IsCharBoundary counted.text counter ∨ counted.capped = true ∧ byteLength counted.text ≤ counter

instance (counted : Counted) (counter : Nat) : Decidable (counted.Fits counter) :=
  inferInstanceAs (Decidable (_ ∨ _))

structure Cuts where
  converts : List Text
  counts : Option Counted

namespace Cuts

def nothing : Cuts := ⟨[], none⟩

def Sound (cuts : Cuts) (beyond : Char → Bool) (counter : Nat) : Prop :=
  (∀ native ∈ cuts.converts, WordsOnBoundaries beyond native) ∧ ∀ counted ∈ cuts.counts, counted.Fits counter

end Cuts

/-! ## Bodies that are parsed -/

section Bodies

variable (b : BodyParsers)

def convertedArgs (text : Text) : Option Text :=
  if contains argKeyOpen text && (parsePoolsideV1Call b text).isSome then none
  else if "call:".toList.isPrefixOf text || "_call:".toList.isPrefixOf text then
    (gemmaParts text).bind fun parts => if parts.1 = [] then none else some parts.2
  else none

def convertedBody (text : Text) : Option Text :=
  if isToolNameComponent (trim text) then none else convertedArgs b (trim text)

variable {b}

theorem parseGemma4NativeCall_isSome {text : Text} : (parseGemma4NativeCall b text).isSome ↔
    ∀ args ∈ (gemmaParts text).bind fun parts => if parts.1 = [] then none else some parts.2,
      WordsOnBoundaries b.alphanumericBeyond args := by
  rw [parseGemma4NativeCall]
  cases gemmaParts text with
  | none => simp
  | some parts =>
    obtain ⟨name, args⟩ := parts
    by_cases unnamed : name = []
    · simp [unnamed]
    · simp only [unnamed, if_false, Option.bind_some, Option.mem_some_iff, forall_eq']
      rw [← gemma4ToJson_isSome]
      cases gemma4ToJson b.alphanumericBeyond args with
      | none => simp
      | some json => simp

theorem parseOneCall_isSome {text : Text} {idx : Nat} : (parseOneCall b text idx).isSome ↔
    ∀ args ∈ convertedArgs b text, WordsOnBoundaries b.alphanumericBeyond args := by
  rw [parseOneCall, convertedArgs]
  cases tagged : contains argKeyOpen text with
  | false =>
    simp only [Bool.false_and, Bool.false_eq_true, if_false]
    split
    · exact parseGemma4NativeCall_isSome
    · simp
  | true =>
    cases parsePoolsideV1Call b text with
    | some call => simp
    | none =>
      simp only [Option.isSome_none, Bool.and_false, Bool.false_eq_true, if_false, if_true]
      split
      · exact parseGemma4NativeCall_isSome
      · simp

end Bodies

/-! ## Where the arguments start -/

theorem byteLength_boundary {text : Text} (before after : Text) (same : text = before ++ after) {offset : Nat}
    (length : byteLength before = offset) : IsCharBoundary text offset := ⟨before, after, same, length⟩

theorem gemmaArgs_boundary {buffer : Text} {start : Nat} (found : gemmaArgs buffer = some start) :
    IsCharBoundary buffer start := by
  obtain ⟨⟨before, after⟩, called, found⟩ := Option.bind_eq_some_iff.mp found
  obtain ⟨⟨name, rest⟩, braced, found⟩ := Option.bind_eq_some_iff.mp found
  cases found
  have tag : byteLength "call:".toList = 5 := by decide
  have brace : byteLength ['{'] = 1 := by decide
  refine byteLength_boundary (before ++ "call:".toList ++ name ++ ['{']) rest ?_ ?_
  · rw [splitFirst_eq called, splitFirst_eq braced]
    simp
  · rw [byteLength_append, byteLength_append, byteLength_append, tag, brace]

theorem functionArgs_boundary {buffer : Text} {start : Nat} (found : functionArgs buffer = some start) :
    IsCharBoundary buffer start := by
  obtain ⟨⟨before, after⟩, opened, found⟩ := Option.bind_eq_some_iff.mp found
  obtain ⟨⟨name, rest⟩, closed, found⟩ := Option.bind_eq_some_iff.mp found
  have tag : byteLength "<function=".toList = 10 := by decide
  have close : byteLength ['>'] = 1 := by decide
  have line : byteLength ['\n'] = 1 := by decide
  have whole : buffer = before ++ "<function=".toList ++ name ++ ['>'] ++ rest := by
    rw [splitFirst_eq opened, splitFirst_eq closed]
    simp
  cases found
  split
  · next newline =>
    obtain ⟨tail, rfl⟩ := List.head?_eq_some_iff.mp newline
    refine byteLength_boundary (before ++ "<function=".toList ++ name ++ ['>'] ++ ['\n']) tail ?_ ?_
    · rw [whole]
      simp
    · rw [byteLength_append, byteLength_append, byteLength_append, byteLength_append, tag, close, line]
  · refine byteLength_boundary _ rest whole ?_
    rw [byteLength_append, byteLength_append, byteLength_append, tag, close]

theorem hermesArgs_boundary {buffer : Text} {start : Nat} (found : hermesArgs buffer = some start) :
    IsCharBoundary buffer start := by
  obtain ⟨⟨before, after⟩, keyed, found⟩ := Option.bind_eq_some_iff.mp found
  obtain ⟨rest, valued, found⟩ := Option.bind_eq_some_iff.mp found
  cases found
  have whole : buffer = (before ++ "\"arguments\"".toList ++ after.takeWhile isBlank ++ [':']) ++ rest := by
    have tail : trimStart after = [':'] ++ rest := stripPrefix_eq valued
    have blanks : after = after.takeWhile isBlank ++ ([':'] ++ rest) := by
      rw [← tail, trimStart, List.takeWhile_append_dropWhile]
    have split := congrArg (before ++ "\"arguments\"".toList ++ ·) blanks
    rw [← splitFirst_eq keyed] at split
    exact split.trans (by simp)
  refine byteLength_boundary _ rest whole ?_
  have length := congrArg byteLength whole
  rw [byteLength_append] at length
  omega

theorem findArgsStart_boundary (buffer : Text) : IsCharBoundary buffer (findArgsStart buffer) := by
  rw [findArgsStart]
  cases gemma : gemmaArgs buffer with
  | some start => exact gemmaArgs_boundary gemma
  | none =>
    cases function : functionArgs buffer with
    | some start => exact functionArgs_boundary function
    | none =>
      cases hermes : hermesArgs buffer with
      | some start => exact hermesArgs_boundary hermes
      | none => exact isCharBoundary_end buffer

/-! ## Streaming -/

namespace StreamingToolDetector

section Streaming

variable (b : BodyParsers) (d : StreamingToolDetector) (front : Text)

/-- What there is of the arguments, if they have begun. -/
def bodyIn : Option Text :=
  if byteLength front ≤ findArgsStart d.buffer then none else slice d.buffer (findArgsStart d.buffer) (byteLength front)

def settledGemma (body : Text) : Text := ((splitFirst ['}'] body).map (·.1)).getD body

def settledJson (body : Text) : Text := ((balancedJson body).map (·.1)).getD body

def gemmaNative : Option Text :=
  if contains paramOpen front || !contains "call:".toList front then none
  else (d.bodyIn front).map fun body => "gemma4".toList ++ ['{'] ++ settledGemma body ++ ['}']

def counted : Option Counted :=
  if contains paramOpen front then some ⟨front, false⟩
  else if contains "call:".toList front then
    ((d.gemmaNative front).bind (gemma4ToJson b.alphanumericBeyond)).map fun json => ⟨json.tail.dropLast, true⟩
  else if contains "\"arguments\"".toList front then
    (d.bodyIn front).map fun body => ⟨settledJson (body.dropWhile isAsciiBlank), true⟩
  else none

def streamCuts : Cuts := ⟨(d.gemmaNative front).toList, d.counted b front⟩

end Streaming

variable {p : CallParsers} {b : BodyParsers} {d : StreamingToolDetector} {front back : Text}

theorem bodyIn_cases (whole : d.buffer = front ++ back) :
    byteLength front ≤ findArgsStart d.buffer ∧ d.bodyIn front = none ∨
      ¬byteLength front ≤ findArgsStart d.buffer ∧
        ∃ body, slice d.buffer (findArgsStart d.buffer) (byteLength front) = some body ∧ d.bodyIn front = some body := by
  rw [bodyIn]
  split
  · next late => exact .inl ⟨late, rfl⟩
  · next begun =>
    have cut : (slice d.buffer (findArgsStart d.buffer) (byteLength front)).isSome := by
      refine slice_isSome.mpr ⟨Nat.le_of_not_le begun, findArgsStart_boundary d.buffer, ?_⟩
      exact byteLength_boundary front back whole rfl
    obtain ⟨body, known⟩ := Option.isSome_iff_exists.mp cut
    exact .inr ⟨begun, body, known, known⟩

theorem gemmaFragment_isSome (json : Text) :
    (d.gemmaFragment (['"'] ++ json ++ ['}'])).isSome ↔ (Counted.mk json true).Fits d.currentTcEmitted := by
  have quote : byteLength ['"'] = 1 := by decide
  have brace : byteLength ['}'] = 1 := by decide
  have length : byteLength (['"'] ++ json ++ ['}']) = byteLength json + 2 := by
    rw [byteLength_append, byteLength_append, quote, brace]
    omega
  have cut : slice (['"'] ++ json ++ ['}']) 1 (byteLength json + 2 - 1) = some json := by
    have inner := slice_byteLength ['"'] json ['}']
    rwa [byteLength_append, quote, Nat.add_comm] at inner
  have past : (Counted.mk json true).Fits d.currentTcEmitted ↔
      IsCharBoundary json d.currentTcEmitted ∨ byteLength json ≤ d.currentTcEmitted := by
    rw [Counted.Fits]
    simp
  rw [gemmaFragment, length, past]
  split
  · next short =>
    refine iff_of_true rfl (.inr ?_)
    omega
  · rw [cut, Option.bind_eq_bind, Option.bind_some]
    split
    · next out => exact iff_of_true rfl (.inr out)
    · next more =>
      rw [or_iff_left more, ← slice_whole_isSome]
      cases slice json d.currentTcEmitted (byteLength json) with
      | none => simp
      | some fresh => simp

theorem streamXml_isSome (whole : d.buffer = front ++ back) {finalClose : Bool} :
    (d.streamXml (p.reading b) (byteLength front) finalClose).isSome ↔ IsCharBoundary front d.currentTcEmitted := by
  have fits : (slice (front ++ back) d.currentTcEmitted (byteLength front)).isSome ↔
      IsCharBoundary front d.currentTcEmitted := slice_front_isSome
  rw [streamXml, whole, ← fits]
  cases slice (front ++ back) d.currentTcEmitted (byteLength front) with
  | none => simp
  | some text =>
    cases finalClose with
    | true => simp
    | false => simp

theorem streamGemma_isSome (whole : d.buffer = front ++ back) (plain : contains paramOpen front = false)
    (called : contains "call:".toList front = true) {finalClose : Bool} :
    (d.streamGemma (p.reading b) (byteLength front) finalClose).isSome ↔
      (d.streamCuts b front).Sound b.alphanumericBeyond d.currentTcEmitted := by
  rw [streamGemma, Cuts.Sound, streamCuts, counted, gemmaNative, plain, called]
  obtain ⟨late, none⟩ | ⟨begun, body, cut, some⟩ := bodyIn_cases whole
  · simp [late, none]
  · have same : (p.reading b).gemma4ToJson = gemma4ToJson b.alphanumericBeyond := rfl
    have settled : ((splitFirst ['}'] body).map (·.1)).getD body = settledGemma body := rfl
    simp only [begun, some, cut, same, settled, if_false, Bool.not_true, Bool.or_self, Bool.false_eq_true, if_true,
      Option.map_some, Option.bind_eq_bind, Option.bind_some, Option.toList_some, List.mem_singleton, forall_eq]
    rw [← gemma4ToJson_isSome]
    cases converted : gemma4ToJson b.alphanumericBeyond ("gemma4".toList ++ ['{'] ++ settledGemma body ++ ['}']) with
    | none => simp
    | some out =>
      obtain ⟨json, rfl⟩ := gemma4ToJson_streamed converted
      have inner : (['"'] ++ json ++ ['}']).tail.dropLast = json := by simp
      simp only [Option.isSome_some, true_and, Option.map_some, Option.mem_some_iff, forall_eq', inner, Option.bind_some]
      rw [← gemmaFragment_isSome]
      cases d.gemmaFragment (['"'] ++ json ++ ['}']) with
      | none => simp
      | some streamed => simp

theorem streamJson_isSome (whole : d.buffer = front ++ back) (plain : contains paramOpen front = false)
    (uncalled : contains "call:".toList front = false) (keyed : contains "\"arguments\"".toList front = true) :
    (d.streamJson (byteLength front)).isSome ↔
      (d.streamCuts b front).Sound b.alphanumericBeyond d.currentTcEmitted := by
  rw [streamJson, Cuts.Sound, streamCuts, counted, gemmaNative, plain, uncalled, keyed]
  obtain ⟨late, none⟩ | ⟨begun, body, cut, some⟩ := bodyIn_cases whole
  · simp [late, none]
  · have settled : ((balancedJson (body.dropWhile isAsciiBlank)).map (·.1)).getD (body.dropWhile isAsciiBlank) =
        settledJson (body.dropWhile isAsciiBlank) := rfl
    simp only [some, Option.map_some]
    generalize settledJson (body.dropWhile isAsciiBlank) = text at settled ⊢
    have fits : (Counted.mk text true).Fits d.currentTcEmitted ↔
        (slice text (min d.currentTcEmitted (byteLength text)) (byteLength text)).isSome := by
      rw [slice_whole_isSome, Counted.Fits]
      by_cases out : byteLength text ≤ d.currentTcEmitted
      · rw [Nat.min_eq_right out]
        exact iff_of_true (.inr ⟨rfl, out⟩) (isCharBoundary_end text)
      · rw [Nat.min_eq_left (Nat.le_of_not_le out)]
        simp [out]
    simp only [begun, cut, settled, if_false, Bool.not_false, Bool.or_true, Bool.false_eq_true, if_true, Option.bind_eq_bind, Option.bind_some, Option.toList_none, List.not_mem_nil, false_implies,
      implies_true, true_and, Option.mem_some_iff, forall_eq']
    rw [fits]
    cases slice text (min d.currentTcEmitted (byteLength text)) (byteLength text) with
    | none => simp
    | some fresh =>
      simp only [Option.bind_some, Option.isSome_some, iff_true]
      split
      · rfl
      · rfl

end StreamingToolDetector

end Metrale.Server
