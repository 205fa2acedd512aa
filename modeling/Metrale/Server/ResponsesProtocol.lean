import Metrale.Server.ResponsesStream

/-! # What a responses stream promises

A client that reads the events knows the item that is open.  What the items have to be follows from the deltas alone:
one for each run of reasoning or content, and one for each call. -/

namespace Metrale.Server

/-! ## The client's view -/

/-- The open item, by output index and id, and the least index that the next item may have. -/
structure ResponsesView where
  openItem : Option (Nat × String)
  next : Nat
deriving DecidableEq

/-- An item is added when none is open, under a larger index than those before it; every other event is about the item
that is open. -/
def ResponsesView.see (view : ResponsesView) : ResponsesEvent → Option ResponsesView
  | .created _ | .inProgress _ => some view
  | .outputItemAdded outputIndex item =>
    if view.openItem = none ∧ view.next ≤ outputIndex then some ⟨some (outputIndex, item.id), outputIndex + 1⟩ else none
  | .outputItemDone outputIndex item =>
    if view.openItem = some (outputIndex, item.id) then some { view with openItem := none } else none
  | .contentPartAdded itemId outputIndex | .outputTextDelta itemId outputIndex _ | .outputTextDone itemId outputIndex _
  | .functionCallArgumentsDelta itemId outputIndex _ | .functionCallArgumentsDone itemId outputIndex _
  | .refusalDelta itemId outputIndex _ | .reasoningSummaryPartAdded itemId outputIndex
  | .reasoningSummaryTextDelta itemId outputIndex _ | .reasoningSummaryTextDone itemId outputIndex _
  | .reasoningSummaryPartDone itemId outputIndex _ =>
    if view.openItem = some (outputIndex, itemId) then some view else none

def viewOf (sent : List ResponsesStreamEvent) : Option ResponsesView :=
  (sent.map (·.event)).foldlM ResponsesView.see ⟨none, 0⟩

/-! ## The items of a stream of deltas -/

inductive Output where
  | reasoning (text : String)
  | message (text : String)
  | functionCall (index : Nat) (callId name arguments : String)
deriving DecidableEq

def addFragment (index : Nat) (fragment : String) : List Output → List Output
  | [] => []
  | .functionCall other callId name arguments :: outputs =>
    if other = index then .functionCall other callId name (arguments ++ fragment) :: outputs
    else .functionCall other callId name arguments :: addFragment index fragment outputs
  | output :: outputs => output :: addFragment index fragment outputs

def Output.record (outputs : List Output) : StreamDelta → List Output
  | .reasoning text =>
    if text = "" then outputs
    else match outputs with
      | .reasoning before :: rest => .reasoning (before ++ text) :: rest
      | _ => .reasoning text :: outputs
  | .content text =>
    if text = "" then outputs
    else match outputs with
      | .message before :: rest => .message (before ++ text) :: rest
      | _ => .message text :: outputs
  | .toolCallStart index id name => .functionCall index id name "" :: outputs
  | .toolCallArgs index fragment => addFragment index fragment outputs
  | _ => outputs

def outputsOf (deltas : List StreamDelta) : List Output := deltas.foldl Output.record []

def ResponsesOutputItem.Shows : ResponsesOutputItem → Output → Prop
  | .reasoning _ summary, .reasoning text => summary = [text]
  | .message _ status content, .message text => status = "completed" ∧ content = [text]
  | .functionCall _ callId name arguments status, .functionCall _ callId' name' arguments' =>
    status = "completed" ∧ callId = callId' ∧ name = name' ∧ arguments = arguments'
  | _, _ => False

structure ResponsesStream.Kept (s : ResponsesStream) (deltas : List StreamDelta) : Prop where
  numbered : s.sent.map (·.sequenceNumber) = List.range s.sent.length
  paired : ∃ next, viewOf s.sent = some ⟨none, next⟩
  items : List.Forall₂ ResponsesOutputItem.Shows s.completedItems (outputsOf deltas).reverse

/-- A fragment follows the start of its own call, and there is no refusal. -/
structure WellFormed (deltas : List StreamDelta) : Prop where
  fragments : ∀ earlier index fragment later, deltas = earlier ++ .toolCallArgs index fragment :: later →
    ∃ id name, .toolCallStart index id name ∈ earlier
  unrefused : ∀ text, .refusal text ∉ deltas

def Output.IsCall : Output → Prop
  | .functionCall _ _ _ _ => True
  | _ => False

/-- No call was started before, and a fragment comes while its call is the newest output. -/
def Output.Fits (outputs : List Output) : StreamDelta → Prop
  | .toolCallStart _ _ _ => ∀ output ∈ outputs, ¬output.IsCall
  | .toolCallArgs index fragment =>
    fragment ≠ "" → ∃ id name arguments rest, outputs = .functionCall index id name arguments :: rest
  | _ => True

/-! ## Traces -/

structure Traced (sent : List ResponsesStreamEvent) (seq : Nat) (view : ResponsesView) : Prop where
  numbered : sent.map (·.sequenceNumber) = List.range seq
  seen : viewOf sent = some view

theorem viewOf_concat (sent : List ResponsesStreamEvent) (seq : Nat) (event : ResponsesEvent) :
    viewOf (sent ++ [⟨seq, event⟩]) = (viewOf sent).bind (·.see event) := by
  simp [viewOf, List.foldlM_append]

theorem Traced.emit {s : ResponsesStream} {view next : ResponsesView} (traced : Traced s.sent s.seq view)
    (event : ResponsesEvent) (sees : view.see event = some next) :
    Traced (s.emit event).sent (s.emit event).seq next := by
  constructor
  · simp only [ResponsesStream.emit, List.map_append, traced.numbered, List.range_succ]
    rfl
  · rw [ResponsesStream.emit, viewOf_concat, traced.seen]
    exact sees

theorem viewOf_of_append {sent more : List ResponsesStreamEvent} (kept : (viewOf (sent ++ more)).isSome) :
    (viewOf sent).isSome := by
  rw [viewOf, List.map_append, List.foldlM_append] at kept
  rw [viewOf]
  cases seen : (sent.map (·.event)).foldlM ResponsesView.see ⟨none, 0⟩ with
  | none => simp [seen] at kept
  | some view => rfl

end Metrale.Server
