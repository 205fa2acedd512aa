import Metrale.Server.ConversationStore
import Metrale.Server.ToolDetector

/-! # The bodies of calls (`tool_parser/helpers_b.rs`, `helpers_a.rs`, `poolside_v1.rs`, `parse_single_a.rs`)

The bodies in the Gemma and in the Poolside notation.  The conversion of Gemma arguments goes over the characters and cuts
each word out of the text with the indexes of its characters, which the cut takes for bytes. -/

namespace Metrale.Server

open Metrale.Foundation

/-- What the parsers of bodies have from elsewhere.

* `alphanumericBeyond`: `char::is_alphanumeric` beyond ASCII.
* `fromStr`, `toText`: `serde_json`.
* `parseOther`: the formats that are tried after Poolside and Gemma.  They cut where they have found a tag.
* `toolCallId`: the id that the call of a body is given. -/
structure BodyParsers where
  alphanumericBeyond : Char → Bool
  fromStr : Text → Option Value
  toText : Value → Text
  parseOther : Text → Nat → Option ToolCall
  toolCallId : Text → Text

/-! ## Names -/

def isToolNameChar (c : Char) : Bool := c.isAlphanum || c = '_' || c = '-' || c = '.'

def isToolNameOrNamespaceChar (c : Char) : Bool := isToolNameChar c || c = ':'

def isToolNameComponent (text : Text) : Bool := !text.isEmpty && text.all isToolNameChar

def trimQuotes (text : Text) : Text := trimMatches '\'' (trimMatches '"' text)

/-- `namespace:tool` is `tool`. -/
def withoutNamespace (name : Text) : Text :=
  match splitLast [':'] name with
  | some (head, tail) =>
    if !head.isEmpty && head.all isToolNameOrNamespaceChar && isToolNameComponent tail then tail else name
  | none => name

def normalizeToolName (raw : Text) : Text :=
  let name := trimQuotes (trim raw)
  let named :=
    if "name=".toList.isPrefixOf name || "name =".toList.isPrefixOf name then
      trimQuotes (trim (trimStartMatches ['='] (trimStartMatches "name".toList name)))
    else name
  withoutNamespace (((splitFirst ['='] named).map fun parts => trim parts.1).getD named)

/-! ## Gemma arguments -/

def gemmaQuote : Text := "<|\"|>".toList

def isAlphanumeric (beyond : Char → Bool) (c : Char) : Bool := if c.toNat < 128 then c.isAlphanum else beyond c

def isWordChar (beyond : Char → Bool) (c : Char) : Bool := isAlphanumeric beyond c || c = '_'

/-- Where the conversion is: between words, inside a string or behind a backslash in one, inside a word. -/
inductive GemmaMode where
  | between
  | quoted
  | escaped
  | word (start : Nat)

def wordLiterals : List Text := ["true".toList, "false".toList, "null".toList]

def wordJson (isKey : Bool) (word : Text) : Text :=
  if !isKey && wordLiterals.contains word then word else ['"'] ++ word ++ ['"']

/-- The rest of the text from the index of a character on, a word being cut out of `whole`. -/
def convertFrom (beyond : Char → Bool) (whole : Text) : GemmaMode → Nat → Text → Option Text
  | .word start, i, [] => (slice whole start i).map (wordJson false)
  | _, _, [] => some []
  | .between, i, c :: text =>
    if c = '"' then (convertFrom beyond whole .quoted (i + 1) text).map (c :: ·)
    else if isWordChar beyond c then convertFrom beyond whole (.word i) (i + 1) text
    else (convertFrom beyond whole .between (i + 1) text).map (c :: ·)
  | .quoted, i, c :: text =>
    (convertFrom beyond whole (if c = '"' then .between else if c = '\\' then .escaped else .quoted) (i + 1) text).map (c :: ·)
  | .escaped, i, c :: text => (convertFrom beyond whole .quoted (i + 1) text).map (c :: ·)
  | .word start, i, c :: text =>
    if isWordChar beyond c then convertFrom beyond whole (.word start) (i + 1) text
    else do
      let word ← slice whole start i
      let later ← convertFrom beyond whole (if c = '"' then .quoted else .between) (i + 1) text
      some (wordJson (c = ':') word ++ c :: later)

/-- The conversion; it panics where the index of a word's first or last character is no boundary. -/
def gemma4ToJson (beyond : Char → Bool) (native : Text) : Option Text :=
  let s := replaceAll gemmaQuote ['"'] native
  convertFrom beyond s .between 0 s

/-- The indexes of the characters where each word starts and ends. -/
def wordSpans (beyond : Char → Bool) : GemmaMode → Nat → Text → List (Nat × Nat)
  | .word start, i, [] => [(start, i)]
  | _, _, [] => []
  | .between, i, c :: text =>
    if c = '"' then wordSpans beyond .quoted (i + 1) text
    else if isWordChar beyond c then wordSpans beyond (.word i) (i + 1) text
    else wordSpans beyond .between (i + 1) text
  | .quoted, i, c :: text =>
    wordSpans beyond (if c = '"' then .between else if c = '\\' then .escaped else .quoted) (i + 1) text
  | .escaped, i, _ :: text => wordSpans beyond .quoted (i + 1) text
  | .word start, i, c :: text =>
    if isWordChar beyond c then wordSpans beyond (.word start) (i + 1) text
    else (start, i) :: wordSpans beyond (if c = '"' then .quoted else .between) (i + 1) text

def WordsOnBoundaries (beyond : Char → Bool) (native : Text) : Prop :=
  ∀ span ∈ wordSpans beyond .between 0 (replaceAll gemmaQuote ['"'] native),
    IsCharBoundary (replaceAll gemmaQuote ['"'] native) span.1 ∧ IsCharBoundary (replaceAll gemmaQuote ['"'] native) span.2

instance (beyond : Char → Bool) (native : Text) : Decidable (WordsOnBoundaries beyond native) := by
  unfold WordsOnBoundaries
  infer_instance

section Conversion

variable {beyond : Char → Bool} {whole : Text}

theorem isWordChar_ascii {c : Char} (ascii : c.toNat < 128) : isWordChar beyond c = (c.isAlphanum || c = '_') := by
  rw [isWordChar, isAlphanumeric, if_pos ascii]

theorem convertFrom_isSome (mode : GemmaMode) (i : Nat) (text : Text) :
    (convertFrom beyond whole mode i text).isSome ↔
      ∀ span ∈ wordSpans beyond mode i text, (slice whole span.1 span.2).isSome := by
  induction text generalizing mode i with
  | nil => cases mode <;> simp [convertFrom, wordSpans]
  | cons c text ih =>
    cases mode with
    | between =>
      rw [convertFrom, wordSpans]
      split
      · simpa using ih .quoted (i + 1)
      · split
        · exact ih (.word i) (i + 1)
        · simpa using ih .between (i + 1)
    | quoted => simpa [convertFrom, wordSpans] using ih _ (i + 1)
    | escaped => simpa [convertFrom, wordSpans] using ih .quoted (i + 1)
    | word start =>
      rw [convertFrom, wordSpans]
      split
      · exact ih (.word start) (i + 1)
      · rw [List.forall_mem_cons, ← ih]
        cases slice whole start i with
        | none => simp
        | some word =>
          cases convertFrom beyond whole (if c = '"' then .quoted else .between) (i + 1) text with
          | none => simp
          | some later => simp

theorem wordSpans_ordered {mode : GemmaMode} {i : Nat} {text : Text} (behind : ∀ start, mode = .word start → start ≤ i) :
    ∀ span ∈ wordSpans beyond mode i text, span.1 ≤ span.2 := by
  have plain (other : GemmaMode) (notWord : ∀ start, other ≠ .word start) (j : Nat) :
      ∀ start, other = .word start → start ≤ j := fun start same => absurd same (notWord start)
  induction text generalizing mode i with
  | nil =>
    cases mode with
    | word start => simpa [wordSpans] using behind start rfl
    | between => simp [wordSpans]
    | quoted => simp [wordSpans]
    | escaped => simp [wordSpans]
  | cons c text ih =>
    cases mode with
    | between =>
      rw [wordSpans]
      split
      · exact ih (plain _ (fun _ => GemmaMode.noConfusion) _)
      · split
        · refine ih fun start same => ?_
          cases same
          exact Nat.le_succ i
        · exact ih (plain _ (fun _ => GemmaMode.noConfusion) _)
    | quoted =>
      refine ih (plain _ (fun start => ?_) _)
      split
      · exact GemmaMode.noConfusion
      · split
        · exact GemmaMode.noConfusion
        · exact GemmaMode.noConfusion
    | escaped => exact ih (plain _ (fun _ => GemmaMode.noConfusion) _)
    | word start =>
      have ordered := behind start rfl
      rw [wordSpans]
      split
      · refine ih fun other same => ?_
        cases same
        exact Nat.le_succ_of_le ordered
      · rw [List.forall_mem_cons]
        refine ⟨ordered, ih (plain _ (fun start => ?_) _)⟩
        split
        · exact GemmaMode.noConfusion
        · exact GemmaMode.noConfusion

theorem gemma4ToJson_isSome {native : Text} : (gemma4ToJson beyond native).isSome ↔ WordsOnBoundaries beyond native := by
  rw [gemma4ToJson, convertFrom_isSome, WordsOnBoundaries]
  have ordered : ∀ span ∈ wordSpans beyond .between 0 (replaceAll gemmaQuote ['"'] native), span.1 ≤ span.2 :=
    wordSpans_ordered fun _ => GemmaMode.noConfusion
  exact forall₂_congr fun span among => slice_isSome.trans (and_iff_right (ordered span among))

theorem convertFrom_between_nil (i : Nat) : convertFrom beyond whole .between i [] = some [] := rfl

theorem convertFrom_quoted_nil (i : Nat) : convertFrom beyond whole .quoted i [] = some [] := rfl

theorem convertFrom_last {mode : GemmaMode} {i : Nat} {front json : Text}
    (converted : convertFrom beyond whole mode i (front ++ ['}']) = some json) : ∃ before, json = before ++ ['}'] := by
  induction front generalizing mode i json with
  | nil =>
    have notWord : isWordChar beyond '}' = false := isWordChar_ascii (by decide)
    rw [List.nil_append] at converted
    cases mode with
    | between =>
      rw [convertFrom, if_neg (by decide), notWord, if_neg Bool.false_ne_true, convertFrom_between_nil] at converted
      cases converted
      exact ⟨[], rfl⟩
    | quoted =>
      rw [convertFrom, if_neg (by decide), if_neg (by decide), convertFrom_quoted_nil] at converted
      cases converted
      exact ⟨[], rfl⟩
    | escaped =>
      rw [convertFrom, convertFrom_quoted_nil] at converted
      cases converted
      exact ⟨[], rfl⟩
    | word start =>
      rw [convertFrom, notWord, if_neg Bool.false_ne_true] at converted
      obtain ⟨word, -, converted⟩ := Option.bind_eq_some_iff.mp converted
      rw [if_neg (by decide), convertFrom_between_nil] at converted
      cases converted
      exact ⟨_, rfl⟩
  | cons c front ih =>
    have behind {d : Char} {later : Text} (ends : ∃ before, later = before ++ ['}']) :
        ∃ before, d :: later = before ++ ['}'] := by
      obtain ⟨before, rfl⟩ := ends
      exact ⟨d :: before, rfl⟩
    rw [List.cons_append] at converted
    cases mode with
    | between =>
      rw [convertFrom] at converted
      split at converted
      · obtain ⟨later, known, rfl⟩ := Option.map_eq_some_iff.mp converted
        exact behind (ih known)
      · split at converted
        · exact ih converted
        · obtain ⟨later, known, rfl⟩ := Option.map_eq_some_iff.mp converted
          exact behind (ih known)
    | quoted =>
      obtain ⟨later, known, rfl⟩ := Option.map_eq_some_iff.mp converted
      exact behind (ih known)
    | escaped =>
      obtain ⟨later, known, rfl⟩ := Option.map_eq_some_iff.mp converted
      exact behind (ih known)
    | word start =>
      rw [convertFrom] at converted
      split at converted
      · exact ih converted
      · obtain ⟨word, -, converted⟩ := Option.bind_eq_some_iff.mp converted
        obtain ⟨later, known, converted⟩ := Option.bind_eq_some_iff.mp converted
        cases converted
        obtain ⟨before, ends⟩ := behind (d := c) (ih known)
        exact ⟨wordJson (c = ':') word ++ before, by rw [ends, List.append_assoc]⟩

theorem gemma4ToJson_streamed {body out : Text}
    (converted : gemma4ToJson beyond ("gemma4".toList ++ ['{'] ++ body ++ ['}']) = some out) :
    ∃ json, out = ['"'] ++ json ++ ['}'] := by
  obtain ⟨front, ends⟩ : ∃ front, replaceAll gemmaQuote ['"'] (body ++ ['}']) = front ++ ['}'] :=
    replaceFrom_last (by decide) (by decide) (Nat.zero_le _)
  have replaced : replaceAll gemmaQuote ['"'] ("gemma4".toList ++ ['{'] ++ body ++ ['}']) =
      [] ++ "gemma4".toList ++ '{' :: (front ++ ['}']) := by
    rw [← ends, List.append_assoc]
    rfl
  rw [gemma4ToJson, replaced] at converted
  have first : convertFrom beyond ([] ++ "gemma4".toList ++ '{' :: (front ++ ['}'])) .between 0
        ([] ++ "gemma4".toList ++ '{' :: (front ++ ['}'])) =
      (slice ([] ++ "gemma4".toList ++ '{' :: (front ++ ['}'])) 0 6).bind fun word =>
        (convertFrom beyond ([] ++ "gemma4".toList ++ '{' :: (front ++ ['}'])) .between 7 (front ++ ['}'])).bind fun later =>
          some (wordJson false word ++ '{' :: later) := rfl
  have cut : slice ([] ++ "gemma4".toList ++ '{' :: (front ++ ['}'])) 0 6 = some "gemma4".toList :=
    slice_byteLength [] "gemma4".toList _
  rw [first, cut, Option.bind_some] at converted
  obtain ⟨later, known, converted⟩ := Option.bind_eq_some_iff.mp converted
  obtain ⟨before, rfl⟩ := convertFrom_last known
  cases converted
  exact ⟨"gemma4\"\x7b".toList ++ before, rfl⟩

end Conversion

/-! ## Bodies -/

variable (b : BodyParsers)

def gemmaParts (text : Text) : Option (Text × Text) := do
  let text := trim text
  let rest ← (stripPrefix "call:".toList text).or (stripPrefix "_call:".toList text)
  let (name, after) ← splitFirst ['{'] rest
  some (normalizeToolName name, '{' :: after)

def parseGemma4NativeCall (text : Text) : Option (Option ToolCall) :=
  match gemmaParts text with
  | none => some none
  | some (name, args) =>
    if name = [] then some none
    else do
      let json ← gemma4ToJson b.alphanumericBeyond args
      some (some ⟨b.toolCallId text, name, if (b.fromStr json).isSome then json else "{}".toList⟩)

def argKeyOpen : Text := "<arg_key>".toList
def argKeyClose : Text := "</arg_key>".toList
def argValueOpen : Text := "<arg_value>".toList
def argValueClose : Text := "</arg_value>".toList

/-- The value of an argument; what is no JSON is a string. -/
def poolsideValue (raw : Text) : Value := (b.fromStr raw).getD (.string (String.ofList raw))

def poolsideArg (rest : Text) : Option (Text × Text × Text) := do
  let rest ← stripPrefix argKeyOpen rest
  let (key, rest) ← splitFirst argKeyClose rest
  let rest ← stripPrefix argValueOpen rest
  let (raw, rest) ← splitFirst argValueClose rest
  some (trim key, raw, rest)

theorem stripPrefix_eq {start text rest : Text} (found : stripPrefix start text = some rest) : text = start ++ rest := by
  unfold stripPrefix at found
  split at found
  · next begins =>
    cases found
    exact prefix_split begins
  · cases found

theorem poolsideArg_length {text key raw rest : Text} (found : poolsideArg text = some (key, raw, rest)) :
    rest.length < text.length := by
  have opener : argKeyOpen.length = 9 := rfl
  obtain ⟨keyed, begins, found⟩ := Option.bind_eq_some_iff.mp found
  obtain ⟨⟨key, valued⟩, keyEnds, found⟩ := Option.bind_eq_some_iff.mp found
  obtain ⟨inner, valueBegins, found⟩ := Option.bind_eq_some_iff.mp found
  obtain ⟨⟨raw, last⟩, valueEnds, found⟩ := Option.bind_eq_some_iff.mp found
  cases found
  have whole := congrArg List.length (stripPrefix_eq begins)
  have valueWhole := congrArg List.length (stripPrefix_eq valueBegins)
  have keyLength := splitFirst_length keyEnds
  have valueLength := splitFirst_length valueEnds
  simp only [List.length_append] at whole valueWhole
  omega

def poolsideArgs (args : List (String × Value)) (rest : Text) : Option (List (String × Value)) :=
  if rest = [] then some args
  else
    match found : poolsideArg rest with
    | none => none
    | some (key, raw, rest) =>
      if !isToolNameComponent key || args.any (·.1 = String.ofList key) then none
      else poolsideArgs (args ++ [(String.ofList key, poolsideValue b raw)]) rest
termination_by rest.length
decreasing_by exact poolsideArg_length found

def parsePoolsideV1Call (text : Text) : Option ToolCall := do
  let parts := splitFirst argKeyOpen text
  let name := normalizeToolName (trim ((parts.map (·.1)).getD text))
  if isToolNameComponent name then
    let args ← poolsideArgs b [] ((parts.map fun parts => argKeyOpen ++ parts.2).getD [])
    some ⟨b.toolCallId text, name, b.toText (.object args)⟩
  else none

def parseOneCall (text : Text) (idx : Nat) : Option (Option ToolCall) :=
  match if contains argKeyOpen text then parsePoolsideV1Call b text else none with
  | some call => some (some call)
  | none =>
    if "call:".toList.isPrefixOf text || "_call:".toList.isPrefixOf text then parseGemma4NativeCall b text
    else some (b.parseOther text idx)

def parseCompleteCall (text : Text) (idx : Nat) (promoteBareNames : Bool) : Option (Option ToolCall) :=
  let body := trim text
  if isToolNameComponent body then some (if promoteBareNames then parsePoolsideV1Call b body else none)
  else parseOneCall b body idx

end Metrale.Server
