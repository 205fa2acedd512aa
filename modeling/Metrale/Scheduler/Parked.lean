import Metrale.Scheduler.Rollback

/-! # Parked sequences (`types/parked.rs`, `preempt.rs`, `lifecycle.rs`)

Under pressure a live sequence leaves the device.  It is either spilled, as a `SwappedSeq` beside an image of its
device state, or requeued whole, to be prefilled again.  Both ways back build a live sequence by hand. -/

namespace Metrale.Scheduler

def preemptImmunityTokens : Nat := 64

/-- `DEFAULT_LZ_PENALTY`: the bits of `0.0`. -/
def defaultLzPenalty : F32 := 0

structure SwappedSeq where
  tokens : List Token
  adapterSlot : Int
  adapterId : UInt64
  seqLen : Nat
  numBlocks : Nat
  lastToken : Token
  outputTokens : List Token
  remaining : Nat
  sink : ResponseSink
  request : RequestParams
  sampling : SamplingParams
  think : ThinkState
  requireToolCall : Bool
  toolCallOpened : Bool
  mtpAcct : RequestAccept
  content : ContentState
  rollbackCount : Nat
  lastTokenTime : Nat
  logprobsData : List TokenLogprobs
  swapId : Nat
deriving DecidableEq

structure PreemptedSeq (Device Grammar : Type*) where
  a : ActiveSeq Device Grammar
  tokens : List Token
deriving DecidableEq

/-- The tool state of a sequence that comes back from a spill: outside a tool call's body. -/
def ToolState.resumed (requireToolCall toolCallOpened : Bool) : ToolState where
  requireToolCall
  toolCallOpened
  insideToolBody := false
  toolCallCompleted := false
  postCompletionToolOpens := 0
  toolBodyStreakTokens := 0
  insideParameterBody := false
  paramBodyCharsEmitted := 0
  paramClosePending := 0

def DraftState.none : DraftState := ⟨[], [], .fresh⟩

/-- The device state goes into an image and comes back from it: `load` writes an image of so many blocks into a
sequence just allocated. -/
class DeviceImage (Device Image : Type*) where
  save : Device → Image
  load : Image → Nat → Device → Device

instance : DeviceImage Unit Unit where
  save device := device
  load _ _ device := device

variable {Device Grammar Image : Type*}

/-- What the device gives a sequence that comes back: the state just allocated, the adapter slot it took, the slots of
its snapshot ring, and the time. -/
structure ResumeAnswers (Device : Type*) where
  fresh : SequenceState Device
  adapterSlot : Int
  ringSlots : Nat
  now : Nat

/-- `spill_out_sequence`, the state being saved under `swapId`. -/
def spillOutSequence (a : ActiveSeq Device Grammar) (swapId : Nat) : SwappedSeq where
  tokens := a.seq.tokens
  adapterSlot := a.seq.adapterSlot
  adapterId := a.seq.adapterId
  seqLen := a.seq.seqLen
  numBlocks := a.seq.numBlocks
  lastToken := a.lastToken
  outputTokens := a.outputTokens
  remaining := a.remaining
  sink := a.sink
  request := a.request
  sampling := { a.sampling with repetitionPenaltyWindow := 256, lzPenalty := defaultLzPenalty }
  think := a.think
  requireToolCall := a.tool.requireToolCall
  toolCallOpened := a.tool.toolCallOpened
  mtpAcct := a.mtpAcct
  content := a.content
  rollbackCount := a.rollbackCount
  lastTokenTime := a.lastTokenTime
  logprobsData := a.logprobsData
  swapId

/-- The sequence of `restore_swapped_image`, with the host's part written into it. -/
def SwappedSeq.restoredSeq [DeviceImage Device Image] (s : SwappedSeq) (image : Image)
    (answers : ResumeAnswers Device) : SequenceState Device :=
  { answers.fresh with
    tokens := s.tokens
    seqLen := s.seqLen
    numBlocks := s.numBlocks
    adapterSlot := s.adapterSlot
    adapterId := s.adapterId
    acquiredAdapterSlot := answers.adapterSlot
    device := DeviceImage.load image s.numBlocks answers.fresh.device }

def resumeSwappedSeq [DeviceImage Device Image] (s : SwappedSeq) (image : Image) (answers : ResumeAnswers Device) :
    ActiveSeq Device Grammar where
  seq := s.restoredSeq image answers
  lastToken := s.lastToken
  outputTokens := s.outputTokens
  remaining := s.remaining
  finished := false
  error := none
  guardStop := none
  sink := s.sink
  cancelFlag := none
  request := s.request
  sampling := { s.sampling with repetitionPenaltyWindow := 256, lzPenalty := defaultLzPenalty }
  think := s.think
  tool := .resumed s.requireToolCall s.toolCallOpened
  content := ⟨false, 0, 0⟩
  drafts := .none
  mtpAcct := s.mtpAcct
  rollbackCount := s.rollbackCount
  ssmRollbackRing := .new answers.ringSlots
  grammarState := none
  lastTokenTime := answers.now
  logprobsData := s.logprobsData
  adaptive := .new s.sampling.temperature
  preemptImmuneUntilTokens := s.outputTokens.length + preemptImmunityTokens

def preemptRequeue (a : ActiveSeq Device Grammar) : PreemptedSeq Device Grammar :=
  ⟨{ a with drafts := .none }, a.seq.tokens⟩

def PreemptedSeq.rebuiltSeq (p : PreemptedSeq Device Grammar) (answers : ResumeAnswers Device) :
    SequenceState Device :=
  { answers.fresh with
    tokens := p.tokens
    seqLen := p.tokens.length
    sessionHash := p.a.request.sessionHash
    adapterSlot := p.a.seq.adapterSlot
    adapterId := p.a.seq.adapterId
    acquiredAdapterSlot := answers.adapterSlot }

def resumePreemptedSeq (p : PreemptedSeq Device Grammar) (answers : ResumeAnswers Device) : ActiveSeq Device Grammar :=
  { p.a with
    seq := p.rebuiltSeq answers
    ssmRollbackRing := .new answers.ringSlots
    preemptImmuneUntilTokens := p.a.outputTokens.length + preemptImmunityTokens }

/-! ## What comes back -/

structure SwapRestores [DeviceImage Device Image] (a b : ActiveSeq Device Grammar) (image : Image)
    (answers : ResumeAnswers Device) : Prop where
  seq : b.seq = { answers.fresh with
    tokens := a.seq.tokens
    seqLen := a.seq.seqLen
    numBlocks := a.seq.numBlocks
    adapterSlot := a.seq.adapterSlot
    adapterId := a.seq.adapterId
    acquiredAdapterSlot := answers.adapterSlot
    device := DeviceImage.load image a.seq.numBlocks answers.fresh.device }
  lastToken : b.lastToken = a.lastToken
  outputTokens : b.outputTokens = a.outputTokens
  remaining : b.remaining = a.remaining
  sink : b.sink = a.sink
  request : b.request = a.request
  sampling : { b.sampling with
    repetitionPenaltyWindow := a.sampling.repetitionPenaltyWindow
    lzPenalty := a.sampling.lzPenalty } = a.sampling
  penaltyWindow : b.sampling.repetitionPenaltyWindow = 256
  think : b.think = a.think
  requireToolCall : b.tool.requireToolCall = a.tool.requireToolCall
  toolCallOpened : b.tool.toolCallOpened = a.tool.toolCallOpened
  mtpAcct : b.mtpAcct = a.mtpAcct
  rollbackCount : b.rollbackCount = a.rollbackCount
  logprobsData : b.logprobsData = a.logprobsData
  live : b.finished = false ∧ b.error = none ∧ b.guardStop = none
  cancelFlag : b.cancelFlag = none
  grammarState : b.grammarState = none
  outsideToolBody : b.tool = .resumed b.tool.requireToolCall b.tool.toolCallOpened
  drafts : b.drafts = .none
  ring : b.ssmRollbackRing = .new answers.ringSlots
  adaptive : b.adaptive = .new a.sampling.temperature
  immune : b.preemptImmuneUntilTokens = a.outputTokens.length + preemptImmunityTokens
  lastTokenTime : b.lastTokenTime = answers.now

theorem resumeSwappedSeq_restores [DeviceImage Device Image] (a : ActiveSeq Device Grammar) (swapId : Nat)
    (image : Image) (answers : ResumeAnswers Device) :
    SwapRestores a (resumeSwappedSeq (spillOutSequence a swapId) image answers) image answers := by
  constructor <;> first | rfl | exact ⟨rfl, rfl, rfl⟩

/-- What a requeue and its resume change: the sequence is built anew from the history, and nothing is drafted. -/
structure RequeueRestores (a b : ActiveSeq Device Grammar) (answers : ResumeAnswers Device) : Prop where
  seq : b.seq = { answers.fresh with
    tokens := a.seq.tokens
    seqLen := a.seq.tokens.length
    sessionHash := a.request.sessionHash
    adapterSlot := a.seq.adapterSlot
    adapterId := a.seq.adapterId
    acquiredAdapterSlot := answers.adapterSlot }
  drafts : b.drafts = .none
  ring : b.ssmRollbackRing = .new answers.ringSlots
  immune : b.preemptImmuneUntilTokens = a.outputTokens.length + preemptImmunityTokens
  kept : b = { a with
    seq := b.seq
    drafts := b.drafts
    ssmRollbackRing := b.ssmRollbackRing
    preemptImmuneUntilTokens := b.preemptImmuneUntilTokens }

theorem resumePreemptedSeq_restores (a : ActiveSeq Device Grammar) (answers : ResumeAnswers Device) :
    RequeueRestores a (resumePreemptedSeq (preemptRequeue a) answers) answers := ⟨rfl, rfl, rfl, rfl, rfl⟩

end Metrale.Scheduler
