import Metrale.Foundation.TextSearch

/-! # Tool calls in the stream (`tool_parser/streaming.rs`, `streaming_impl.rs`, `streaming_emit.rs`,
`streaming_flush.rs`, `deepseek_v4_dsml.rs`)

The detector's buffer and its events.  How a body is parsed, once it has been cut out, is up to the parsers.  A cut
that Rust refuses is `none`. -/

namespace Metrale.Server

open Metrale.Foundation

abbrev Text := List Char

structure ToolCall where
  id : Text
  name : Text
  arguments : Text
deriving DecidableEq

inductive DetectorOutput where
  | content (text : Text)
  | toolCall (call : ToolCall) (idx : Nat)
  | toolCallStart (id name : Text) (idx : Nat)
  | toolCallDelta (args : Text) (idx : Nat)
  | toolCallArgsFragment (fragment : Text) (idx : Nat)
  | toolCallEnd (idx : Nat)
deriving DecidableEq

/-- The parsers of a body, and what else the detector asks for.

* `parseCompleteCall`, `parseOneCall`, `gemma4ToJson`: `none` where the conversion of Gemma arguments panics.
* `coerceKv`: a parameter's key and JSON value, by the schema of the named tool and the keys that are out.
* `requiredStrings`: the required parameters of the named tool that are strings or have no type.
* `canonicalJson`: the object as `serde_json` writes it, or `{}`.
* `withoutJsonCodeBlocks`: the text less every fenced code block.
* `toolCallId`: the ids that this detector is given, in turn. -/
structure CallParsers where
  parseCompleteCall : Text → Nat → Bool → Option (Option ToolCall)
  parseOneCall : Text → Nat → Option (Option ToolCall)
  parseMinimaxXmlCallsAll : Text → List ToolCall
  parseDsmlInvokes : Text → List ToolCall
  parseBareFunctionCalls : Text → Option Text × List ToolCall
  parseJsonFallbackCalls : Text → List ToolCall
  withoutJsonCodeBlocks : Text → Text
  gemma4ToJson : Text → Option Text
  coerceKv : Option Text → List Text → Text → Text → Text × Text
  requiredStrings : Text → List Text
  canonicalJson : Text → Text
  jsonString : Text → Text
  toolCallId : Nat → Text

/-- `minted` is how many ids the detector has been given. -/
structure StreamingToolDetector where
  buffer : Text
  insideTag : Bool
  insideDsml : Bool
  promoteBareNames : Bool
  callCounter : Nat
  emittedToolCalls : Bool
  currentTcName : Option Text
  currentTcId : Option Text
  currentTcEmitted : Nat
  bufferArgs : Bool
  argsOpen : Bool
  emittedKeys : List Text
  incrementalEmitted : Bool
  minted : Nat
deriving DecidableEq

/-! ## The tags -/

def dsmlOpen : Text := "<｜DSML｜tool_calls>".toList
def dsmlClose : Text := "</｜DSML｜tool_calls>".toList
def mistralToolCallsTag : Text := "[TOOL_CALLS]".toList
def mistralArgsTag : Text := "[ARGS]".toList

/-- The first of these tags that the text has, tried in turn: what is before it, and what is after it. -/
def splitAny : List Text → Text → Option (Text × Text)
  | [], _ => none
  | tag :: tags, text => (splitFirst tag text).or (splitAny tags text)

def openTags : List Text :=
  ["<tool_call>".toList, "<|tool_call>".toList, "<minimax:tool_call>".toList, "<minimax:_call>".toList]

def closeTags : List Text :=
  ["</tool_call>".toList, "<tool_call|>".toList, "</minimax:tool_call>".toList, "</minimax:_call>".toList]

/-- The tags that content stops before, when the buffer ends in a part of one. -/
def heldTags : List Text := openTags ++ [dsmlOpen, "<function".toList, "call:".toList, mistralToolCallsTag]

/-- What `safe_emit_len` parts: the content that can go out, and what stays. -/
def safeEmit (text : Text) : List Text → Text × Text
  | [] => (text, [])
  | tag :: tags =>
    match splitPartial tag text with
    | some parts => parts
    | none => safeEmit text tags

/-- A balanced object at the start of the text, by the depth that is open and the state of the string: the object, and
what is after it. -/
def balancedFrom : Nat → Bool → Bool → Text → Option (Text × Text)
  | _, _, _, [] => none
  | depth, inString, escaped, c :: text =>
    let next : Option (Text × Text) :=
      if inString then
        if escaped then balancedFrom depth true false text
        else if c = '\\' then balancedFrom depth true true text
        else balancedFrom depth (c != '"') false text
      else if c = '"' then balancedFrom depth true false text
      else if c = '{' then balancedFrom (depth + 1) false false text
      else if c = '}' then if depth ≤ 1 then some ([], text) else balancedFrom (depth - 1) false false text
      else balancedFrom depth false false text
    next.map fun parts => (c :: parts.1, parts.2)

/-- `find_balanced_json_end` -/
def balancedJson : Text → Option (Text × Text)
  | '{' :: text => balancedFrom 0 false false ('{' :: text)
  | _ => none

/-! ## Names and arguments -/

def nonempty (name : Text) : Option Text := if name = [] then none else some name

/-- `[TOOL_CALLS]NAME[ARGS]` -/
def mistralName (buffer : Text) : Option Text := do
  let (_, after) ← splitFirst mistralToolCallsTag buffer
  let (name, _) ← splitFirst mistralArgsTag after
  nonempty (trim name)

/-- `call:NAME{` -/
def gemmaName (buffer : Text) : Option Text := do
  let (_, after) ← splitFirst "call:".toList buffer
  let (name, _) ← splitFirst ['{'] after
  nonempty (trim name)

/-- `<function=NAME>`; the name is cut at its first `=`. -/
def functionName (buffer : Text) : Option Text := do
  let (_, after) ← splitFirst "<function=".toList buffer
  if after.any fun c => c = '>' ∨ c = '\n' ∨ c = '<' then
    let name := trim (after.takeWhile fun c => !(c = '>' ∨ c = '\n' ∨ c = '<'))
    match splitFirst ['='] name with
    | some (start, _) => nonempty (trim start)
    | none => nonempty name
  else none

/-- `"name":"NAME"` -/
def hermesName (buffer : Text) : Option Text := do
  let (_, after) ← splitFirst "\"name\"".toList buffer
  let after := trimStart ((stripPrefix [':'] (trimStart after)).getD after)
  let quoted ← stripPrefix ['"'] after
  let (name, _) ← splitFirst ['"'] quoted
  nonempty name

def extractStreamingName (buffer : Text) : Option Text :=
  (mistralName buffer).or ((gemmaName buffer).or ((functionName buffer).or (hermesName buffer)))

def gemmaArgs (buffer : Text) : Option Nat := do
  let (before, after) ← splitFirst "call:".toList buffer
  let (name, _) ← splitFirst ['{'] after
  some (byteLength before + 5 + byteLength name + 1)

def functionArgs (buffer : Text) : Option Nat := do
  let (before, after) ← splitFirst "<function=".toList buffer
  let (name, rest) ← splitFirst ['>'] after
  let afterGt := byteLength before + 10 + byteLength name + 1
  some (if rest.head? = some '\n' then afterGt + 1 else afterGt)

def hermesArgs (buffer : Text) : Option Nat := do
  let (_, after) ← splitFirst "\"arguments\"".toList buffer
  let rest ← stripPrefix [':'] (trimStart after)
  some (byteLength buffer - byteLength rest)

def findArgsStart (buffer : Text) : Nat :=
  (gemmaArgs buffer).getD ((functionArgs buffer).getD ((hermesArgs buffer).getD (byteLength buffer)))

/-! ## Argument fragments -/

def paramOpen : Text := "<parameter=".toList

/-- The value at the front, the close that ends it, and what is after.  A close without its `>` ends it too, if an
opener follows at once. -/
def splitValue (text : Text) : Option (Text × Text × Text) :=
  match splitFirst "</parameter>".toList text, splitFirst ("</parameter".toList ++ paramOpen) text with
  | some exact, some garbled =>
    if byteLength garbled.1 < byteLength exact.1 then some (garbled.1, "</parameter".toList, paramOpen ++ garbled.2)
    else some (exact.1, "</parameter>".toList, exact.2)
  | some exact, none => some (exact.1, "</parameter>".toList, exact.2)
  | none, some garbled => some (garbled.1, "</parameter".toList, paramOpen ++ garbled.2)
  | none, none => none

theorem splitValue_length {text value close rest : Text} (found : splitValue text = some (value, close, rest)) :
    rest.length ≤ text.length := by
  have opener : paramOpen.length = 11 := rfl
  have garbledTag : ("</parameter".toList ++ paramOpen).length = 22 := rfl
  unfold splitValue at found
  split at found
  · next exact garbled foundExact foundGarbled =>
    have exactLength := splitFirst_length foundExact
    have garbledLength := splitFirst_length foundGarbled
    split at found
    · cases found
      rw [List.length_append]
      omega
    · cases found
      omega
  · next exact foundExact _ =>
    have exactLength := splitFirst_length foundExact
    cases found
    omega
  · next garbled _ foundGarbled =>
    have garbledLength := splitFirst_length foundGarbled
    cases found
    rw [List.length_append]
    omega
  · cases found

namespace StreamingToolDetector

def new (promoteBareNames bufferArgs : Bool) : StreamingToolDetector :=
  { buffer := []
    insideTag := false
    insideDsml := false
    promoteBareNames
    callCounter := 0
    emittedToolCalls := false
    currentTcName := none
    currentTcId := none
    currentTcEmitted := 0
    bufferArgs
    argsOpen := false
    emittedKeys := []
    incrementalEmitted := false
    minted := 0 }

def resetCallState (d : StreamingToolDetector) : StreamingToolDetector :=
  { d with
    currentTcName := none
    currentTcId := none
    currentTcEmitted := 0
    argsOpen := false
    emittedKeys := []
    incrementalEmitted := false }

/-- One more fragment of the open call; the first opens the object. -/
def emitMember (p : CallParsers) (d : StreamingToolDetector) (key value : Text) :
    StreamingToolDetector × DetectorOutput :=
  ({ d with argsOpen := true, incrementalEmitted := true, emittedKeys := d.emittedKeys ++ [key] },
    .toolCallArgsFragment ((if d.argsOpen then [','] else ['{']) ++ p.jsonString key ++ [':'] ++ value) d.callCounter)

/-- The closing `}`, and the `{` if it is not out. -/
def emitClosing (d : StreamingToolDetector) : StreamingToolDetector × DetectorOutput :=
  ({ d with argsOpen := true, incrementalEmitted := true },
    .toolCallArgsFragment (if d.argsOpen then ['}'] else ['{', '}']) d.callCounter)

/-- The loop over the parameters that are complete in `text`, which starts where the last one ended. -/
def streamParams (p : CallParsers) (d : StreamingToolDetector) (text : Text) :
    StreamingToolDetector × List DetectorOutput :=
  match opened : splitFirst paramOpen text with
  | none => (d, [])
  | some (before, keyRegion) =>
    match keyed : splitFirst ['>'] keyRegion with
    | none => (d, [])
    | some (key, valueRegion) =>
      match closed : splitValue valueRegion with
      | none => (d, [])
      | some (value, close, rest) =>
        let (normKey, jsonValue) := p.coerceKv d.currentTcName d.emittedKeys (trim key) (trim value)
        let (emitted, fragment) := d.emitMember p normKey jsonValue
        let past := byteLength before + 11 + byteLength key + 1 + byteLength value + byteLength close
        let moved := { emitted with currentTcEmitted := d.currentTcEmitted + past }
        let later := streamParams p moved rest
        (later.1, fragment :: later.2)
termination_by text.length
decreasing_by
  have opener : paramOpen.length = 11 := rfl
  have openedLength := splitFirst_length opened
  have keyedLength := splitFirst_length keyed
  have closedLength := splitValue_length closed
  omega

/-- The required parameters that the model never wrote. -/
def backfill (p : CallParsers) (d : StreamingToolDetector) : List Text → StreamingToolDetector × List DetectorOutput
  | [] => (d, [])
  | key :: keys =>
    if key ∈ d.emittedKeys then backfill p d keys
    else
      let (emitted, fragment) := d.emitMember p key ['"', '"']
      let later := backfill p emitted keys
      (later.1, fragment :: later.2)

def withClosing (finalClose : Bool) (streamed : StreamingToolDetector × List DetectorOutput) :
    StreamingToolDetector × List DetectorOutput :=
  if finalClose then (streamed.1.emitClosing.1, streamed.2 ++ [streamed.1.emitClosing.2]) else streamed

def streamXml (p : CallParsers) (d : StreamingToolDetector) (limit : Nat) (finalClose : Bool) :
    Option (StreamingToolDetector × List DetectorOutput) := do
  let text ← slice d.buffer d.currentTcEmitted limit
  let streamed := d.streamParams p text
  if finalClose then
    let filled := streamed.1.backfill p ((streamed.1.currentTcName.map p.requiredStrings).getD [])
    some (withClosing true (filled.1, streamed.2 ++ filled.2))
  else some streamed

/-- What there is of the converted body, less what is out. -/
def gemmaFragment (d : StreamingToolDetector) (converted : Text) : Option (StreamingToolDetector × List DetectorOutput) :=
  if byteLength converted ≤ 2 then some (d, [])
  else do
    let json ← slice converted 1 (byteLength converted - 1)
    if byteLength json ≤ d.currentTcEmitted then some (d, [])
    else do
      let fresh ← slice json d.currentTcEmitted (byteLength json)
      some ({ d with argsOpen := true, currentTcEmitted := byteLength json, incrementalEmitted := true },
        [.toolCallArgsFragment ((if d.argsOpen then [] else ['{']) ++ fresh) d.callCounter])

def streamGemma (p : CallParsers) (d : StreamingToolDetector) (limit : Nat) (finalClose : Bool) :
    Option (StreamingToolDetector × List DetectorOutput) := do
  let argsStart := findArgsStart d.buffer
  if limit ≤ argsStart then some (d, [])
  else
    let body ← slice d.buffer argsStart limit
    let settled := ((splitFirst ['}'] body).map (·.1)).getD body
    let converted ← p.gemma4ToJson ("gemma4".toList ++ ['{'] ++ settled ++ ['}'])
    let streamed ← d.gemmaFragment converted
    some (withClosing finalClose streamed)

def streamJson (d : StreamingToolDetector) (limit : Nat) : Option (StreamingToolDetector × List DetectorOutput) := do
  let argsStart := findArgsStart d.buffer
  if limit ≤ argsStart then some (d, [])
  else
    let body := (← slice d.buffer argsStart limit).dropWhile isAsciiBlank
    let settled := ((balancedJson body).map (·.1)).getD body
    let fresh ← slice settled (min d.currentTcEmitted (byteLength settled)) (byteLength settled)
    if fresh = [] then some (d, [])
    else some ({ d with currentTcEmitted := byteLength settled, incrementalEmitted := true },
      [.toolCallArgsFragment fresh d.callCounter])

def streamReadyFragments (p : CallParsers) (d : StreamingToolDetector) (limit : Nat) (finalClose : Bool) :
    Option (StreamingToolDetector × List DetectorOutput) := do
  let scan ← slice d.buffer 0 (min limit (byteLength d.buffer))
  if contains paramOpen scan then d.streamXml p limit finalClose
  else if contains "call:".toList scan then d.streamGemma p limit finalClose
  else if contains "\"arguments\"".toList scan then d.streamJson limit
  else some (d, [])

/-! ## The rounds of `process` -/

/-- What one round of the loop leaves, and whether there is another. -/
structure Round where
  detector : StreamingToolDetector
  outputs : List DetectorOutput
  again : Bool
deriving DecidableEq

def contentOf (text : Text) : List DetectorOutput := if text = [] then [] else [.content text]

def emitCalls (d : StreamingToolDetector) : List ToolCall → StreamingToolDetector × List DetectorOutput
  | [] => (d, [])
  | call :: calls =>
    let later := emitCalls { d with callCounter := d.callCounter + 1, emittedToolCalls := true } calls
    (later.1, .toolCall call d.callCounter :: later.2)

/-- `ToolCallStart` goes out as soon as the name can be read. -/
def announceCall (p : CallParsers) (d : StreamingToolDetector) : StreamingToolDetector × List DetectorOutput :=
  if d.currentTcName.isSome then (d, [])
  else
    match extractStreamingName d.buffer with
    | none => (d, [])
    | some name =>
      ({ d with currentTcName := some name, currentTcId := some (p.toolCallId d.minted), minted := d.minted + 1 },
        [.toolCallStart (p.toolCallId d.minted) name d.callCounter])

/-- The call is still open: its header, and what there is of its arguments. -/
def openCall (p : CallParsers) (d : StreamingToolDetector) : Option (StreamingToolDetector × List DetectorOutput) :=
  let opened := d.announceCall p
  if !d.bufferArgs && opened.1.currentTcName.isSome then
    (opened.1.streamReadyFragments p (byteLength d.buffer) false).map fun streamed =>
      (streamed.1, opened.2 ++ streamed.2)
  else some opened

/-- The rest of the fragments and `ToolCallEnd`, for a call of which fragments are out. -/
def finishStreamed (p : CallParsers) (d : StreamingToolDetector) (limit : Nat) (rest : Text) :
    Option (StreamingToolDetector × List DetectorOutput) := do
  let streamed ← d.streamReadyFragments p limit true
  let counted := { streamed.1 with callCounter := d.callCounter + 1, emittedToolCalls := true, buffer := rest }
  some (counted.resetCallState, streamed.2 ++ [.toolCallEnd d.callCounter])

/-- `process_dsml`, unless there is no DSML. -/
def processDsml (p : CallParsers) (d : StreamingToolDetector) : Option Round :=
  if d.insideDsml then
    match splitFirst dsmlClose d.buffer with
    | none => some ⟨d, [], false⟩
    | some (body, rest) =>
      let emitted := { d with buffer := rest, insideDsml := false }.emitCalls (p.parseDsmlInvokes body)
      some ⟨emitted.1, emitted.2, true⟩
  else
    match splitFirst dsmlOpen d.buffer with
    | none => none
    | some (before, rest) =>
      some ⟨{ d with buffer := rest, insideDsml := true }, if trim before = [] then [] else [.content before], true⟩

def taggedCalls (p : CallParsers) (d : StreamingToolDetector) (inner : Text) : Option (List ToolCall) :=
  if contains "<invoke name=".toList (trim inner) then some (p.parseMinimaxXmlCallsAll (trim inner))
  else (p.parseCompleteCall (trim inner) d.callCounter d.promoteBareNames).map Option.toList

/-- The whole arguments of a call whose start is out, or nothing if the body is no call. -/
def closeParsed (d : StreamingToolDetector) : Option ToolCall → StreamingToolDetector × List DetectorOutput
  | some call =>
    ({ d with callCounter := d.callCounter + 1, emittedToolCalls := true }.resetCallState,
      [.toolCallDelta call.arguments d.callCounter, .toolCallEnd d.callCounter])
  | none => (d.resetCallState, [])

def closeWhole (d : StreamingToolDetector) (calls : List ToolCall) : StreamingToolDetector × List DetectorOutput :=
  ((d.emitCalls calls).1.resetCallState, (d.emitCalls calls).2)

def closeTagged (p : CallParsers) (d : StreamingToolDetector) (inner rest : Text) :
    Option (StreamingToolDetector × List DetectorOutput) :=
  let out := { d with buffer := rest, insideTag := false }
  if d.currentTcName.isSome then
    if !d.bufferArgs && d.incrementalEmitted then
      ({ d with insideTag := false }).finishStreamed p (byteLength inner) rest
    else (p.parseCompleteCall inner d.callCounter d.promoteBareNames).map out.closeParsed
  else (d.taggedCalls p inner).map out.closeWhole

def processTagged (p : CallParsers) (d : StreamingToolDetector) : Option Round :=
  match splitAny closeTags d.buffer with
  | some (inner, rest) => (d.closeTagged p inner rest).map fun out => ⟨out.1, out.2, true⟩
  | none => (d.openCall p).map fun out => ⟨out.1, out.2, false⟩

/-- The name and the arguments of a Mistral call that is complete, of the text after its tag, and what is after it. -/
def mistralCall (after : Text) : Option (Text × Text × Text) := do
  let (name, tail) ← splitFirst mistralArgsTag after
  let (args, rest) ← balancedJson (tail.dropWhile isAsciiBlank)
  some (trim name, args, rest)

def argsEmpty (args : Text) : Bool := args = ['{', '}'] || args.isEmpty

/-- The call is complete; one without a name gives no event. -/
def emitMistral (p : CallParsers) (d : StreamingToolDetector) (name rawArgs : Text) :
    StreamingToolDetector × List DetectorOutput :=
  let canonical := p.canonicalJson rawArgs
  let minted := { d with minted := d.minted + 1 }
  if name = [] then (minted, [])
  else if argsEmpty canonical then (minted, [.toolCallStart (p.toolCallId d.minted) name d.callCounter])
  else
    ({ minted with callCounter := d.callCounter + 1, emittedToolCalls := true },
      [.toolCallStart (p.toolCallId d.minted) name d.callCounter, .toolCallDelta canonical d.callCounter,
        .toolCallEnd d.callCounter])

def processMistral (p : CallParsers) (d : StreamingToolDetector) (before after : Text) : Round :=
  match mistralCall after with
  | none => ⟨{ d with buffer := mistralToolCallsTag ++ after }, contentOf before, false⟩
  | some (name, rawArgs, rest) =>
    let emitted := { d with buffer := rest }.emitMistral p name rawArgs
    ⟨emitted.1, contentOf before ++ emitted.2, true⟩

/-- `bare_function_end`: the block, and what is after it. -/
def bareFunctionBlock (text : Text) : Option (Text × Text) :=
  if "<function>".toList.isPrefixOf text then
    match splitFirst "</parameters>".toList text with
    | some (before, after) => some (before ++ "</parameters>".toList, after)
    | none =>
      if contains "<parameters>".toList text then none
      else
        match splitFirst "</function>".toList text with
        | none => none
        | some (before, after) =>
          match splitFirst "</function>".toList after with
          | some (more, rest) => some (before ++ "</function>".toList ++ more ++ "</function>".toList, rest)
          | none => some (before ++ "</function>".toList, after)
  else if "<function=".toList.isPrefixOf text || "<function ".toList.isPrefixOf text then
    (splitFirst "</function>".toList text).map fun parts => (parts.1 ++ "</function>".toList, parts.2)
  else none

def functionOpen : Text := "<function".toList

/-- `after` is the text after `<function`. -/
def processBareFunction (p : CallParsers) (d : StreamingToolDetector) (before after : Text) : Option Round :=
  let content := contentOf before
  let d := { d with buffer := functionOpen ++ after }
  match bareFunctionBlock d.buffer with
  | some (block, rest) =>
    if !d.bufferArgs && d.incrementalEmitted then
      (d.finishStreamed p (byteLength block) rest).map fun out => ⟨out.1, content ++ out.2, true⟩
    else
      let emitted := { d with buffer := rest }.emitCalls (p.parseBareFunctionCalls block).2
      some ⟨emitted.1.resetCallState, content ++ emitted.2, true⟩
  | none => (d.openCall p).map fun out => ⟨out.1, content ++ out.2, false⟩

def processContent (d : StreamingToolDetector) : Round :=
  if trim d.buffer = [] then ⟨d, [], false⟩
  else
    let (content, remainder) := safeEmit d.buffer heldTags
    if content = [] then ⟨d, [], false⟩
    else
      let dsmlLeadingWhitespace := remainder ≠ [] ∧ trim content = [] ∧ remainder.isPrefixOf dsmlOpen
      ⟨{ d with buffer := remainder }, if dsmlLeadingWhitespace then [] else [.content content], false⟩

def round (p : CallParsers) (d : StreamingToolDetector) : Option Round :=
  match d.processDsml p with
  | some done => some done
  | none =>
    if d.insideTag then d.processTagged p
    else
      match splitFirst mistralToolCallsTag d.buffer with
      | some (before, after) => some (d.processMistral p before after)
      | none =>
        match splitAny openTags d.buffer with
        | some (before, rest) =>
          some ⟨{ d with buffer := rest, insideTag := true }, contentOf before, true⟩
        | none =>
          match splitFirst functionOpen d.buffer with
          | some (before, after) => d.processBareFunction p before after
          | none => some d.processContent

end StreamingToolDetector

end Metrale.Server
