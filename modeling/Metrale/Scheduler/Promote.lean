import Metrale.Scheduler.DecodedToken
import Metrale.Scheduler.Parked

/-! # The first token (`phase_promote_prefills.rs`, `prefill_a_step/first_chunk.rs`, `prefill_b_step/first_token.rs`)

A finished prefill has sampled one token.  Three places make a live sequence of it in the same way; they differ in
whether a first token that is a stop token is sent. -/

namespace Metrale.Scheduler

/-- A prefill under way.  What `request` says of the run's tags, of tools and of times is filled in at the end. -/
structure PrefillInProgress (Device Grammar : Type*) where
  seq : SequenceState Device
  promptTokens : List Token
  maxTokens : Nat
  sink : ResponseSink
  cancelFlag : Option CancelFlag
  /-- Streaming requests are the ones with a cancel flag. -/
  streams : cancelFlag.isSome = sink.streaming
  request : RequestParams
  sampling : SamplingParams
  thinkingBudget : Option Nat
  requireToolCall : Bool
  grammarState : Option Grammar

/-- Where the first token comes from. -/
inductive FirstTokenRoute where
  | promoted
  | firstChunk
  | wholePrompt
deriving DecidableEq

def bornInsideThinking (enableThinking : Bool) (thinkEndToken : Option Token) : Bool :=
  enableThinking && thinkEndToken.isSome

/-- A `usize` less one. -/
def wrappingPred (value : Nat) : Nat := if value = 0 then 18446744073709551615 else value - 1

namespace PrefillInProgress

variable {Device Grammar : Type*}

/-- A `<think>` that nobody asked for. -/
def spontaneousThink (p : PrefillInProgress Device Grammar) (first : Token) (tags : TagTokens) : Bool :=
  !p.request.enableThinking && tags.thinkStart == some first

def immediateFinish (p : PrefillInProgress Device Grammar) (first : Token) (tags : TagTokens) : Bool :=
  !p.spontaneousThink first tags && (p.request.eosTokens.contains first || decide (p.maxTokens ≤ 1))

def sendsFirst (p : PrefillInProgress Device Grammar) (route : FirstTokenRoute) (first : Token) (tags : TagTokens) :
    Bool :=
  !p.spontaneousThink first tags && decide (0 < p.maxTokens) &&
    !(route == .promoted && p.request.eosTokens.contains first)

/-- A send that fails is only logged. -/
def firstSent (p : PrefillInProgress Device Grammar) (route : FirstTokenRoute) (first : Token) (tags : TagTokens)
    (answers : RequestAnswers) : ResponseSink :=
  if p.sendsFirst route first tags then (p.sink.emit (.token first) answers).1 else p.sink

def legacyToolCall (p : PrefillInProgress Device Grammar) (tags : TagTokens) : Bool :=
  p.requireToolCall && p.grammarState.isNone && tags.toolCallStart.isSome

/-- `build_active_seq_from_prefill`, behind the send of the first token. -/
def buildActiveSeq (p : PrefillInProgress Device Grammar) (route : FirstTokenRoute) (first : Token) (tags : TagTokens)
    (answers : RequestAnswers) (now cachedPromptTokens ringSlots : Nat) : ActiveSeq Device Grammar where
  seq := p.seq
  lastToken := first
  outputTokens := if p.spontaneousThink first tags || p.maxTokens == 0 then [] else [first]
  remaining := if p.immediateFinish first tags then 0 else wrappingPred p.maxTokens
  finished := p.immediateFinish first tags
  error := none
  guardStop := none
  sink := p.firstSent route first tags answers
  cancelFlag := p.cancelFlag
  request := { p.request with
    thinkEndToken := tags.thinkEnd
    thinkStartToken := tags.thinkStart
    toolRequest := p.grammarState.isSome || p.legacyToolCall tags
    toolCallStartToken := tags.toolCallStart
    toolCallEndToken := tags.toolCallEnd
    decodeStart := now
    cachedPromptTokens }
  sampling := { p.sampling with repetitionPenaltyWindow := 256, drySequenceBreakers := [] }
  think := {
    insideThinking := p.spontaneousThink first tags || bornInsideThinking p.request.enableThinking tags.thinkEnd
    thinkingBudget :=
      if p.spontaneousThink first tags then some p.request.spontaneousThinkBudget else p.thinkingBudget
    thinkingTokens := 0
    forceEndThinking := false
    thinkForceClosed := false
    sentenceDeferCount := 0
    consecutiveConfident := 0
    inCodeFence := false
    thinkEnded := !p.spontaneousThink first tags && (!p.request.enableThinking && tags.thinkEnd.isSome)
    thinkJustEnded := false
    postThinkEmitted := 0
    thinkSkipCount := 0
    thinkWatchdogFires := 0 }
  tool := .resumed (p.legacyToolCall tags) false
  content := ⟨false, 0, 0⟩
  drafts := .none
  mtpAcct := ⟨0, 0, 0, 0, 0⟩
  rollbackCount := 0
  ssmRollbackRing := .new ringSlots
  grammarState := p.grammarState
  lastTokenTime := now
  logprobsData := []
  adaptive := .new p.sampling.temperature
  preemptImmuneUntilTokens := 0

end PrefillInProgress

/-! ## A plain request

A streamed request without thinking, tools or penalties, on a run whose watchdogs are off. -/

def RequestParams.plain : RequestParams where
  sessionHash := 0
  minTokens := 0
  eosTokens := [3]
  enableThinking := false
  repetitionDetection := none
  spontaneousThinkBudget := 64
  thinkEndToken := none
  thinkStartToken := none
  toolRequest := false
  toolsPresent := false
  toolCallStartToken := none
  toolCallEndToken := none
  suppressToolCall := false
  disableMtp := false
  requestStart := 0
  decodeStart := 0
  seed := none
  topLogprobs := none
  timeoutAt := none
  cachedPromptTokens := 0

/-- Greedy: every factor is the bits of `0.0` or `1.0`. -/
def SamplingParams.greedy : SamplingParams where
  temperature := 0
  topK := 0
  topP := 0x3F800000
  topNSigma := 0
  minP := 0
  repetitionPenalty := 0x3F800000
  repetitionPenaltyWindow := 256
  presencePenalty := 0
  frequencyPenalty := 0
  lzPenalty := 0
  dryMultiplier := 0
  dryBase := 0x3FE00000
  dryAllowedLength := 3
  drySequenceBreakers := []
  logitBias := []

def SequenceState.host (tokens : List Token) : SequenceState Unit where
  tokens
  seqLen := tokens.length
  numBlocks := 1
  slotIdx := 0
  sessionHash := 0
  adapterSlot := -1
  adapterId := 0
  acquiredAdapterSlot := -1
  promptLogprobs := []
  device := ()

def PrefillInProgress.plain (maxTokens : Nat) : PrefillInProgress Unit Empty where
  seq := .host [9]
  promptTokens := [9]
  maxTokens
  sink := ⟨true, []⟩
  cancelFlag := some ⟨0⟩
  streams := rfl
  request := .plain
  sampling := .greedy
  thinkingBudget := none
  requireToolCall := false
  grammarState := none

/-- `<think>` is 1, `</think>` is 2, `<tool_call>` is 5 and `</tool_call>` is 6. -/
def TagTokens.plain : TagTokens := ⟨some 2, some 1, none, some 5, some 6⟩

def SchedCtx.quiet : SchedCtx where
  levers := ⟨true, true, true, true, false⟩
  limits := ⟨none, none, 0⟩
  watchdog := ⟨3, 8, 1000, 1000, true, false, false, none⟩
  masks := ⟨none, none⟩
  model := ⟨false, false, 0⟩

def RequestAnswers.all : RequestAnswers := ⟨false, fun _ => true⟩

def ActiveSeq.plain (first : Token) : ActiveSeq Unit Empty :=
  (PrefillInProgress.plain 100).buildActiveSeq .promoted first .plain .all 0 0 0

end Metrale.Scheduler
