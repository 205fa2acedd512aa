/-! # Stream deltas (`ir/stream.rs`, `ir/response.rs`)

What the chat stream hands to the adapters of the client APIs. -/

namespace Metrale.Server

inductive FinishReason where
  | stop
  | length
  | toolCalls
  | contentFilter
  | other (reason : String)
deriving DecidableEq

def FinishReason.asWire : FinishReason → String
  | .stop => "stop"
  | .length => "length"
  | .toolCalls => "tool_calls"
  | .contentFilter => "content_filter"
  | .other reason => reason

def finishReasonTimeout : String := "timeout"

structure Usage where
  promptTokens : Nat
  completionTokens : Nat
  cachedPromptTokens : Nat
  reasoningTokens : Nat
  acceptedPredictionTokens : Nat
deriving DecidableEq

inductive StreamDelta where
  | content (text : String)
  | reasoning (text : String)
  | toolCallStart (index : Nat) (id name : String)
  | toolCallArgs (index : Nat) (fragment : String)
  | refusal (text : String)
  | finish (reason : FinishReason) (usage : Usage)
  | error (message : String)
deriving DecidableEq

end Metrale.Server
