import Mathlib.Data.UInt

/-! # Live sequences (`types/active.rs`, `types.rs`, `sched_ctx.rs`, `io/request.rs`)

The host state of one request while it decodes.  The fields of the source's flat record are grouped by what they are
about; floating-point values are kept as their bits, since nothing here computes with them. -/

namespace Metrale.Scheduler

abbrev Token := UInt32

abbrev F32 := UInt32

structure TokenLogprobs where
  tokenId : Token
  logprob : F32
  top : List (Token × F32)
deriving DecidableEq

/-! ## The client's channel -/

inductive StreamEvent where
  | token (tok : Token)
  | tokenWithLogprobs (tok : Token) (logprobs : TokenLogprobs)
deriving DecidableEq

/-- Whether the request is streamed, and the token events queued on its channel so far. -/
structure ResponseSink where
  streaming : Bool
  events : List StreamEvent
deriving DecidableEq

def StreamEvent.id : StreamEvent → Token
  | .token tok => tok
  | .tokenWithLogprobs tok _ => tok

def ResponseSink.sent (sink : ResponseSink) : List Token := sink.events.map StreamEvent.id

/-- What the request's side answers: whether the cancel flag is set, and whether the channel takes its next event,
by the number of events it has taken. -/
structure RequestAnswers where
  cancelled : Bool
  delivers : Nat → Bool

/-- `emit`: a mid-stream event, and whether it was queued.  A sink that is no stream takes everything. -/
def ResponseSink.emit (sink : ResponseSink) (event : StreamEvent) (request : RequestAnswers) : ResponseSink × Bool :=
  if !sink.streaming then (sink, true)
  else if request.delivers sink.events.length then ({ sink with events := sink.events ++ [event] }, true)
  else (sink, false)

/-! ## Grammar -/

/-- The calls of the grammar state that decoding makes. -/
class GrammarState (Grammar : Type*) where
  acceptToken : Grammar → Token → Grammar × Bool
  isTerminated : Grammar → Bool
  stopLegal : Grammar → List Token → Bool
  completionTokenIds : Grammar → Nat → Option (List Token)
  numHistorySteps : Grammar → Nat
  rollback : Grammar → Nat → Grammar

instance : GrammarState Empty where
  acceptToken grammar _ := (grammar, true)
  isTerminated _ := true
  stopLegal _ _ := true
  completionTokenIds _ _ := none
  numHistorySteps _ := 0
  rollback grammar _ := grammar

def grammarBlocksStop {Grammar : Type*} [GrammarState Grammar] (grammar : Option Grammar) (eosTokens : List Token) :
    Bool :=
  match grammar with
  | none => false
  | some grammar => !GrammarState.isTerminated grammar && !GrammarState.stopLegal grammar eosTokens

/-! ## The sequence -/

/-- The host's part of `SequenceState` that decoding reads; `device` is the rest. -/
structure SequenceState (Device : Type*) where
  tokens : List Token
  seqLen : Nat
  numBlocks : Nat
  slotIdx : Nat
  sessionHash : UInt64
  adapterSlot : Int
  adapterId : UInt64
  acquiredAdapterSlot : Int
  promptLogprobs : List TokenLogprobs
  device : Device
deriving DecidableEq

inductive GuardStop where
  | requestTimeout
  | toolResponseHardStop
  | thinkSkipWatchdog
  | interToolProseBudget
  | contentLoopWatchdog
  | postThinkContentCap
  | toolEnvelopeStuck
  | fuzzyRepetition
deriving DecidableEq

structure RepetitionDetectionParams where
  minPatternSize : Nat
  maxPatternSize : Nat
  minCount : Nat
deriving DecidableEq

structure RequestParams where
  sessionHash : UInt64
  minTokens : Nat
  eosTokens : List Token
  enableThinking : Bool
  repetitionDetection : Option RepetitionDetectionParams
  spontaneousThinkBudget : Nat
  thinkEndToken : Option Token
  thinkStartToken : Option Token
  toolRequest : Bool
  toolsPresent : Bool
  toolCallStartToken : Option Token
  toolCallEndToken : Option Token
  suppressToolCall : Bool
  disableMtp : Bool
  requestStart : Nat
  decodeStart : Nat
  seed : Option UInt64
  topLogprobs : Option UInt8
  timeoutAt : Option Nat
  cachedPromptTokens : Nat
deriving DecidableEq

structure SamplingParams where
  temperature : F32
  topK : Nat
  topP : F32
  topNSigma : F32
  minP : F32
  repetitionPenalty : F32
  repetitionPenaltyWindow : Nat
  presencePenalty : F32
  frequencyPenalty : F32
  lzPenalty : F32
  dryMultiplier : F32
  dryBase : F32
  dryAllowedLength : Nat
  drySequenceBreakers : List Token
  logitBias : List (Token × F32)
deriving DecidableEq

structure ThinkState where
  insideThinking : Bool
  thinkingBudget : Option Nat
  thinkingTokens : Nat
  forceEndThinking : Bool
  thinkForceClosed : Bool
  sentenceDeferCount : Nat
  consecutiveConfident : Nat
  inCodeFence : Bool
  thinkEnded : Bool
  thinkJustEnded : Bool
  postThinkEmitted : Nat
  thinkSkipCount : Nat
  thinkWatchdogFires : Nat
deriving DecidableEq

structure ToolState where
  requireToolCall : Bool
  toolCallOpened : Bool
  insideToolBody : Bool
  toolCallCompleted : Bool
  postCompletionToolOpens : Nat
  toolBodyStreakTokens : Nat
  insideParameterBody : Bool
  paramBodyCharsEmitted : Nat
  paramClosePending : Nat
deriving DecidableEq

structure ContentState where
  contentStarted : Bool
  contentTokens : Nat
  proseTokensSinceLastTool : Nat
deriving DecidableEq

structure AdaptState where
  window : List Nat
  suspended : Bool
  serialTokens : Nat
deriving DecidableEq

def AdaptState.fresh : AdaptState := ⟨[], false, 0⟩

structure RequestAccept where
  serialSteps : Nat
  mtpSteps : Nat
  d1 : Nat
  na : Nat
  regimeReprobes : Nat
deriving DecidableEq

structure DraftState where
  pendingDrafts : List Token
  pendingDraftConf : List F32
  specAdapt : AdaptState
deriving DecidableEq

inductive GenerationZone where
  | freeText
  | thinking
  | toolCall
  | structuredOutput
deriving DecidableEq

structure AdaptiveSamplingState where
  zone : GenerationZone
  entropyWindow : List F32
  consecutiveLowEntropy : Nat
  lzRatio : F32
  lzLastCheck : Nat
  baseTemperature : F32
deriving DecidableEq

/-- `lz_ratio` starts at the bits of `1.0`. -/
def AdaptiveSamplingState.new (baseTemperature : F32) : AdaptiveSamplingState :=
  ⟨.freeText, [], 0, 0x3F800000, 0, baseTemperature⟩

/-- The snapshots of a sequence: the kept length and the slot of each, oldest first. -/
structure SsmDecodeRing where
  entries : List (Nat × Nat)
  capacity : Nat
  nextSlot : Nat
deriving DecidableEq

structure CancelFlag where
  number : Nat
deriving DecidableEq

structure ActiveSeq (Device Grammar : Type*) where
  seq : SequenceState Device
  lastToken : Token
  outputTokens : List Token
  remaining : Nat
  finished : Bool
  error : Option String
  guardStop : Option GuardStop
  sink : ResponseSink
  cancelFlag : Option CancelFlag
  request : RequestParams
  sampling : SamplingParams
  think : ThinkState
  tool : ToolState
  content : ContentState
  drafts : DraftState
  mtpAcct : RequestAccept
  rollbackCount : Nat
  ssmRollbackRing : SsmDecodeRing
  grammarState : Option Grammar
  lastTokenTime : Nat
  logprobsData : List TokenLogprobs
  adaptive : AdaptiveSamplingState
  preemptImmuneUntilTokens : Nat
deriving DecidableEq

/-- A `u32` that stops at its largest value. -/
def saturatingAdd (value amount : Nat) : Nat := min (value + amount) 4294967295

/-- `consume_generation_budget`: a budget used up already ends the sequence. -/
def ActiveSeq.consumeGenerationBudget {Device Grammar : Type*} (a : ActiveSeq Device Grammar) :
    ActiveSeq Device Grammar :=
  if a.remaining = 0 then { a with finished := true } else { a with remaining := a.remaining - 1 }

/-! ## The run's settings -/

structure SchedLevers where
  toolResponseStop : Bool
  toolEosEscape : Bool
  disableWatchdogs : Bool
  grammarBudgetClose : Bool
  loopWatchdog : Bool

structure SchedLimits where
  imStartHardStop : Option Token
  toolResponseHardStop : Option Token
  maxSeqLen : Nat

structure WatchdogParams where
  thinkLoopMinRepeats : Nat
  fuzzyRepeatToleranceDiv : Nat
  maxInterToolProse : Nat
  maxPostThinkContentTokens : Nat
  rollbackResteer : Bool
  honorEosInsideThinking : Bool
  enableThinkLoopWatchdog : Bool
  contentLoopMinRepeats : Option Nat

structure VocabMasks where
  numeric : Option (List Bool)
  boundary : Option (List Bool)

structure ModelFacts where
  hasSsmLayers : Bool
  decodeRollbackUnsupported : Bool
  decodeRollbackRingSlots : Nat

structure SchedCtx where
  levers : SchedLevers
  limits : SchedLimits
  watchdog : WatchdogParams
  masks : VocabMasks
  model : ModelFacts

def seqlenForceStop (position maxSeqLen : Nat) : Bool := maxSeqLen != 0 && decide (maxSeqLen ≤ position + 1)

def hardCeilingHit (remaining position maxSeqLen : Nat) : Bool := remaining == 0 || seqlenForceStop position maxSeqLen

def eosSuppressedByThinking (insideThinking hardCeilingHit : Bool) : Bool := insideThinking && !hardCeilingHit

end Metrale.Scheduler
