import Mathlib.Data.List.Basic
import Metrale.Server.StreamDelta

/-! # The responses stream (`api/responses_stream.rs`, `api/responses_stream_finalize.rs`)

The loop that turns the deltas of a chat stream into the events of a response, with its one set of variables for
three kinds of items.  A content index or summary index is always zero, and left out. -/

namespace Metrale.Server

inductive ResponsesOutputItem where
  | reasoning (id : String) (summary : List String)
  | message (id status : String) (content : List String)
  | functionCall (id callId name arguments status : String)
deriving DecidableEq

def ResponsesOutputItem.id : ResponsesOutputItem → String
  | .reasoning id _ => id
  | .message id _ _ => id
  | .functionCall id _ _ _ _ => id

/-- `ResponsesStreamEvent`, without its number. -/
inductive ResponsesEvent where
  | created (id : String)
  | inProgress (id : String)
  | outputItemAdded (outputIndex : Nat) (item : ResponsesOutputItem)
  | contentPartAdded (itemId : String) (outputIndex : Nat)
  | outputTextDelta (itemId : String) (outputIndex : Nat) (delta : String)
  | outputTextDone (itemId : String) (outputIndex : Nat) (text : String)
  | functionCallArgumentsDelta (itemId : String) (outputIndex : Nat) (delta : String)
  | functionCallArgumentsDone (itemId : String) (outputIndex : Nat) (arguments : String)
  | outputItemDone (outputIndex : Nat) (item : ResponsesOutputItem)
  | refusalDelta (itemId : String) (outputIndex : Nat) (delta : String)
  | reasoningSummaryPartAdded (itemId : String) (outputIndex : Nat)
  | reasoningSummaryTextDelta (itemId : String) (outputIndex : Nat) (delta : String)
  | reasoningSummaryTextDone (itemId : String) (outputIndex : Nat) (text : String)
  | reasoningSummaryPartDone (itemId : String) (outputIndex : Nat) (text : String)
deriving DecidableEq

structure ResponsesStreamEvent where
  sequenceNumber : Nat
  event : ResponsesEvent
deriving DecidableEq

structure ReasoningState where
  isOpen : Bool
  itemId : String
  text : String
  outputIndex : Nat

/-- The variables of the loop, and what it has sent. -/
structure ResponsesStream where
  respId : String
  sent : List ResponsesStreamEvent
  seq : Nat
  contentText : String
  toolArgs : String
  currentToolName : Option String
  currentToolCallId : Option String
  outputIndex : Nat
  messageItemId : String
  fcItemId : Option String
  messageStarted : Bool
  fcStarted : Bool
  fcDone : Bool
  completedItems : List ResponsesOutputItem
  finalUsage : Option Usage
  finishReason : String
  refusalText : Option String
  reasoning : ReasoningState

namespace ResponsesStream

def itemId (kind respId : String) (outputIndex : Nat) : String := kind ++ respId ++ "_" ++ toString outputIndex

def emit (s : ResponsesStream) (event : ResponsesEvent) : ResponsesStream :=
  { s with sent := s.sent ++ [⟨s.seq, event⟩], seq := s.seq + 1 }

/-- `emit_responses_prologue` -/
def prologue (s : ResponsesStream) : ResponsesStream := (s.emit (.created s.respId)).emit (.inProgress s.respId)

def start (respId : String) : ResponsesStream :=
  prologue ⟨respId, [], 0, "", "", none, none, 0, itemId "msg_" respId 0, none, false, false, false, [], none, "stop", none,
    ⟨false, "", "", 0⟩⟩

def closeOpenReasoning (s : ResponsesStream) : ResponsesStream :=
  if !s.reasoning.isOpen then s
  else
    let r := s.reasoning
    let done := ResponsesOutputItem.reasoning r.itemId [r.text]
    let closed := ({ s with reasoning := { r with isOpen := false } }.emit
      (.reasoningSummaryTextDone r.itemId r.outputIndex r.text)).emit
      (.reasoningSummaryPartDone r.itemId r.outputIndex r.text)
    let recorded := { closed with completedItems := closed.completedItems ++ [done] }.emit
      (.outputItemDone r.outputIndex done)
    { recorded with outputIndex := recorded.outputIndex + 1 }

def closeOpenMessage (s : ResponsesStream) : ResponsesStream :=
  let done := ResponsesOutputItem.message s.messageItemId "completed" [s.contentText]
  let closed := s.emit (.outputTextDone s.messageItemId s.outputIndex s.contentText)
  { closed with completedItems := closed.completedItems ++ [done] }.emit (.outputItemDone s.outputIndex done)

def closeOpenFc (s : ResponsesStream) (fcItemId : String) : ResponsesStream :=
  let done := ResponsesOutputItem.functionCall fcItemId (s.currentToolCallId.getD "") (s.currentToolName.getD "") s.toolArgs
    "completed"
  let closed := s.emit (.functionCallArgumentsDone fcItemId s.outputIndex s.toolArgs)
  { closed with completedItems := closed.completedItems ++ [done] }.emit (.outputItemDone s.outputIndex done)

def closeFc (s : ResponsesStream) : ResponsesStream :=
  match s.fcItemId with
  | none => s
  | some fcItemId => s.closeOpenFc fcItemId

def leaveMessage (s : ResponsesStream) : ResponsesStream :=
  let closed := s.closeOpenMessage
  { closed with outputIndex := closed.outputIndex + 1, messageStarted := false, contentText := "" }

def leaveFc (s : ResponsesStream) : ResponsesStream :=
  let closed := s.closeFc
  { closed with outputIndex := closed.outputIndex + 1, fcDone := true }

def onReasoning (s : ResponsesStream) (text : String) : ResponsesStream :=
  let opened :=
    if s.reasoning.isOpen then s
    else
      let left :=
        if s.fcStarted && !s.fcDone then s.leaveFc
        else if s.messageStarted then s.leaveMessage
        else s
      let id := itemId "rs_" left.respId left.outputIndex
      ({ left with reasoning := ⟨true, id, "", left.outputIndex⟩ }.emit
        (.outputItemAdded left.outputIndex (.reasoning id []))).emit (.reasoningSummaryPartAdded id left.outputIndex)
  let added := { opened with reasoning := { opened.reasoning with text := opened.reasoning.text ++ text } }
  added.emit (.reasoningSummaryTextDelta added.reasoning.itemId added.outputIndex text)

def onContent (s : ResponsesStream) (text : String) : ResponsesStream :=
  let closed := s.closeOpenReasoning
  let named := if s.reasoning.isOpen then { closed with messageItemId := itemId "msg_" closed.respId closed.outputIndex } else closed
  let left :=
    if named.fcStarted && !named.fcDone then
      let left := named.leaveFc
      { left with messageItemId := itemId "msg_" left.respId left.outputIndex, contentText := "" }
    else named
  let opened :=
    if left.messageStarted then left
    else
      ({ left with messageStarted := true }.emit
        (.outputItemAdded left.outputIndex (.message left.messageItemId "in_progress" []))).emit
        (.contentPartAdded left.messageItemId left.outputIndex)
  let added := { opened with contentText := opened.contentText ++ text }
  added.emit (.outputTextDelta added.messageItemId added.outputIndex text)

def onToolCallStart (s : ResponsesStream) (id name : String) : ResponsesStream :=
  let closed := s.closeOpenReasoning
  let current := { closed with currentToolName := some name, currentToolCallId := some id }
  if current.fcStarted then current
  else
    let left := if current.messageStarted then current.leaveMessage else current
    let fcItemId := itemId "fc_" left.respId left.outputIndex
    let added := { left with fcItemId := some fcItemId }.emit
      (.outputItemAdded left.outputIndex (.functionCall fcItemId (left.currentToolCallId.getD "") name "" "in_progress"))
    { added with fcStarted := true }

def onToolCallArgs (s : ResponsesStream) (fragment : String) : ResponsesStream :=
  let added := { s with toolArgs := s.toolArgs ++ fragment }
  match added.fcItemId with
  | none => added
  | some fcItemId => added.emit (.functionCallArgumentsDelta fcItemId added.outputIndex fragment)

/-- One delta of the loop of `responses_endpoint_stream`. -/
def onDelta (s : ResponsesStream) : StreamDelta → ResponsesStream
  | .reasoning text => if text = "" then s else s.onReasoning text
  | .refusal text =>
    if text = "" then s
    else { s with refusalText := some text }.emit (.refusalDelta s.messageItemId s.outputIndex text)
  | .content text => if text = "" then s else s.onContent text
  | .toolCallStart _ id name => s.onToolCallStart id name
  | .toolCallArgs _ fragment => if fragment = "" then s else s.onToolCallArgs fragment
  | .finish reason usage => { s with finishReason := reason.asWire, finalUsage := some usage }
  | .error _ => s

def closeOpenItems (s : ResponsesStream) : ResponsesStream :=
  let closed := if s.messageStarted then s.closeOpenMessage else s
  if s.fcStarted && !s.fcDone then closed.closeFc else closed

/-- The loop, and the closing of what is open at its end. -/
def stream (respId : String) (deltas : List StreamDelta) : ResponsesStream :=
  (deltas.foldl onDelta (start respId)).closeOpenReasoning.closeOpenItems

end ResponsesStream

end Metrale.Server
