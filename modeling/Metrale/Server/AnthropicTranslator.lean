import Mathlib.Data.Finset.Basic
import Metrale.Server.StreamDelta

/-! # The Anthropic stream (`anthropic/translator.rs`, `anthropic/helpers.rs`)

The translator turns the deltas of a chat stream into the events of a message: its start, its content blocks one
after the other, and how it ended. -/

namespace Metrale.Server

def convertStopReason (finishReason : String) : String :=
  if finishReason = "stop" then "end_turn"
  else if finishReason = "tool_calls" then "tool_use"
  else if finishReason = "length" then "max_tokens"
  else if finishReason = "content_filter" then "refusal"
  else if finishReason = finishReasonTimeout then "max_tokens"
  else "end_turn"

/-- The `content_block` of a `content_block_start`. -/
inductive ContentBlock where
  | thinking
  | text
  | toolUse (id name : String)
deriving DecidableEq

/-- The `delta` of a `content_block_delta`. -/
inductive BlockDelta where
  | thinkingDelta (thinking : String)
  | textDelta (text : String)
  | inputJsonDelta (partialJson : String)
deriving DecidableEq

structure MessageUsage where
  inputTokens : Nat
  cacheReadInputTokens : Nat
  outputTokens : Nat
deriving DecidableEq

inductive SseEvent where
  | messageStart (id model : String) (inputTokens : Nat)
  | contentBlockStart (index : Nat) (block : ContentBlock)
  | contentBlockDelta (index : Nat) (delta : BlockDelta)
  | contentBlockStop (index : Nat)
  | messageDelta (stopReason : String) (usage : MessageUsage)
  | messageStop
  | error (message : String)
deriving DecidableEq

inductive OpenBlock where
  | none
  | text
  | thinking
  | toolUse (index : Nat)
deriving DecidableEq

structure AnthropicTranslator where
  model : String
  msgStarted : Bool
  msgId : String
  blockIdx : Nat
  openBlock : OpenBlock
  toolStarted : Finset Nat
  completionTokens : Nat
  promptTokens : Nat
  cachedPromptTokens : Nat
  finished : Bool

namespace AnthropicTranslator

def new (model msgId : String) : AnthropicTranslator := ⟨model, false, msgId, 0, .none, ∅, 0, 0, 0, false⟩

def finalUsage (t : AnthropicTranslator) : MessageUsage := ⟨t.promptTokens, t.cachedPromptTokens, t.completionTokens⟩

def closeOpenBlock (t : AnthropicTranslator) : AnthropicTranslator × List SseEvent :=
  match t.openBlock with
  | .none => (t, [])
  | .text | .thinking =>
    ({ t with openBlock := .none, blockIdx := t.blockIdx + 1 }, [.contentBlockStop t.blockIdx])
  | .toolUse index =>
    ({ t with openBlock := .none, blockIdx := t.blockIdx + 1, toolStarted := t.toolStarted.erase index },
      [.contentBlockStop t.blockIdx])

def ensureMessageStart (t : AnthropicTranslator) : AnthropicTranslator × List SseEvent :=
  if t.msgStarted then (t, [])
  else ({ t with msgStarted := true }, [.messageStart t.msgId t.model t.promptTokens])

def startBlock (t : AnthropicTranslator) (openBlock : OpenBlock) (block : ContentBlock) :
    AnthropicTranslator × List SseEvent :=
  let (closed, stop) := t.closeOpenBlock
  ({ closed with openBlock }, stop ++ [.contentBlockStart closed.blockIdx block])

/-- The events of a message that ends, `closed` being what is sent after the open block is closed. -/
def finish (t : AnthropicTranslator) (closing : List SseEvent) : AnthropicTranslator × List SseEvent :=
  let (started, start) := t.ensureMessageStart
  let (closed, stop) := started.closeOpenBlock
  ({ closed with finished := true }, start ++ stop ++ closing)

/-- `on_delta`.  What the payload of an error says, if it is an error body, is up to `errorMessage`. -/
def onDelta (errorMessage : String → Option String) (t : AnthropicTranslator) :
    StreamDelta → AnthropicTranslator × List SseEvent
  | .reasoning text =>
    if text = "" then (t, [])
    else
      let (started, start) := t.ensureMessageStart
      let (opened, events) := if started.openBlock = .thinking then (started, []) else started.startBlock .thinking .thinking
      (opened, start ++ events ++ [.contentBlockDelta opened.blockIdx (.thinkingDelta text)])
  | .content text =>
    if text = "" then (t, [])
    else
      let (started, start) := t.ensureMessageStart
      let (opened, events) := if started.openBlock = .text then (started, []) else started.startBlock .text .text
      (opened, start ++ events ++ [.contentBlockDelta opened.blockIdx (.textDelta text)])
  | .toolCallStart index id name =>
    let (started, start) := t.ensureMessageStart
    if index ∉ started.toolStarted ∧ started.openBlock ≠ .toolUse index then
      let (opened, events) := started.startBlock (.toolUse index) (.toolUse id name)
      ({ opened with toolStarted := insert index opened.toolStarted }, start ++ events)
    else (started, start)
  | .toolCallArgs index fragment =>
    if fragment = "" then (t, [])
    else
      let (started, start) := t.ensureMessageStart
      if started.openBlock = .toolUse index then
        (started, start ++ [.contentBlockDelta started.blockIdx (.inputJsonDelta fragment)])
      else (started, start)
  | .finish reason usage =>
    if t.finished then (t, [])
    else
      let counted := { t with
        promptTokens := usage.promptTokens
        completionTokens := usage.completionTokens
        cachedPromptTokens := usage.cachedPromptTokens }
      counted.finish [.messageDelta (convertStopReason reason.asWire) counted.finalUsage, .messageStop]
  | .refusal _ => (t, [])
  | .error message => t.finish [.error ((errorMessage message).getD message)]

def finalize (t : AnthropicTranslator) : AnthropicTranslator × List SseEvent :=
  if t.finished then (t, [])
  else t.finish [.messageDelta "max_tokens" t.finalUsage, .messageStop]

/-- The events of a stream: of its deltas, and of `finalize` at its end. -/
def translate (errorMessage : String → Option String) (t : AnthropicTranslator) : List StreamDelta → List SseEvent
  | [] => t.finalize.2
  | delta :: deltas =>
    let (next, events) := t.onDelta errorMessage delta
    events ++ next.translate errorMessage deltas

end AnthropicTranslator

end Metrale.Server
