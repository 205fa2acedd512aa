import Mathlib.Data.List.Forall2
import Metrale.Server.ResponsesProtocol

/-! # The variables of the responses loop

Which item is open is spread over flags, ids and texts.  `Holds` says what they are for each kind of open item; closing
and opening an item each take it to another kind. -/

namespace Metrale.Server

inductive OpenKind where
  | nothing
  | reasoning
  | message
  | call
deriving DecidableEq

def OpenKind.of : List Output → OpenKind
  | [] => .nothing
  | .reasoning _ :: _ => .reasoning
  | .message _ :: _ => .message
  | .functionCall _ _ _ _ :: _ => .call

theorem forall₂_concat {α β : Type*} {R : α → β → Prop} {as : List α} {bs : List β} {a : α} {b : β}
    (related : List.Forall₂ R (as ++ [a]) (bs ++ [b])) : List.Forall₂ R as bs ∧ R a b := by
  have reversed := List.rel_reverse related
  simp only [List.reverse_append, List.reverse_cons, List.reverse_nil, List.nil_append, List.singleton_append,
    List.forall₂_cons] at reversed
  exact ⟨by simpa using List.rel_reverse reversed.2, reversed.1⟩

namespace ResponsesStream

/-- The open item as the variables have it: where it is, and what it will be when it is done. -/
def openItem (s : ResponsesStream) : OpenKind → Option (Nat × ResponsesOutputItem)
  | .nothing => none
  | .reasoning => some (s.reasoning.outputIndex, .reasoning s.reasoning.itemId [s.reasoning.text])
  | .message => some (s.outputIndex, .message s.messageItemId "completed" [s.contentText])
  | .call => s.fcItemId.map fun fcItemId => (s.outputIndex,
      .functionCall fcItemId (s.currentToolCallId.getD "") (s.currentToolName.getD "") s.toolArgs "completed")

structure Holds (s : ResponsesStream) (outputs : List Output) (kind : OpenKind) : Prop where
  traced : ∃ next, Traced s.sent s.seq ⟨(s.openItem kind).map fun item => (item.1, item.2.id), next⟩ ∧
    next ≤ s.outputIndex + if kind = .nothing then 0 else 1
  items : List.Forall₂ ResponsesOutputItem.Shows (s.completedItems ++ ((s.openItem kind).map (·.2)).toList) outputs.reverse
  reasoningOpen : s.reasoning.isOpen = true ↔ kind = .reasoning
  messageOpen : s.messageStarted = true ↔ kind = .message
  callOpen : (s.fcStarted && !s.fcDone) = true ↔ kind = .call
  current : kind = .reasoning → s.reasoning.outputIndex = s.outputIndex
  content : kind ≠ .message → s.contentText = ""
  called : s.fcStarted = true → ∃ name, s.fcItemId = some ("fc_" ++ name)
  uncalled : s.fcStarted = false → s.fcItemId = none ∧ s.toolArgs = "" ∧ s.fcDone = false
  messageNamed : ∃ name, s.messageItemId = "msg_" ++ name
  reasoningNamed : kind = .reasoning → ∃ name, s.reasoning.itemId = "rs_" ++ name
  calls : s.fcStarted = true ↔ ∃ output ∈ outputs, output.IsCall

variable {s : ResponsesStream} {outputs : List Output} {kind : OpenKind} {text : String}

theorem start_holds (respId : String) : (start respId).Holds [] .nothing where
  traced := ⟨0, ⟨rfl, rfl⟩, Nat.le_refl _⟩
  items := .nil
  reasoningOpen := by simp [start, prologue, emit]
  messageOpen := by simp [start, prologue, emit]
  callOpen := by simp [start, prologue, emit]
  current kind := by cases kind
  content _ := rfl
  called started := by cases started
  uncalled _ := ⟨rfl, rfl, rfl⟩
  messageNamed := ⟨respId ++ ("_" ++ toString 0), by simp [start, prologue, emit, itemId, String.append_assoc]⟩
  reasoningNamed kind := by cases kind
  calls := by simp [start, prologue, emit]

/-! ## Closing -/

theorem Holds.closeOpenReasoning (holds : s.Holds outputs .reasoning) : s.closeOpenReasoning.Holds outputs .nothing := by
  obtain ⟨next, traced, bound⟩ := holds.traced
  have isOpen := holds.reasoningOpen.mpr rfl
  let item := ResponsesOutputItem.reasoning s.reasoning.itemId [s.reasoning.text]
  have closed : s.closeOpenReasoning = { ((s.emit
        (.reasoningSummaryTextDone s.reasoning.itemId s.reasoning.outputIndex s.reasoning.text)).emit
        (.reasoningSummaryPartDone s.reasoning.itemId s.reasoning.outputIndex s.reasoning.text)).emit
        (.outputItemDone s.reasoning.outputIndex item) with
      reasoning := { s.reasoning with isOpen := false }
      completedItems := s.completedItems ++ [item]
      outputIndex := s.outputIndex + 1 } := by
    simp [ResponsesStream.closeOpenReasoning, isOpen, emit, item]
  have sent := ((traced.emit
    (.reasoningSummaryTextDone s.reasoning.itemId s.reasoning.outputIndex s.reasoning.text) (if_pos rfl)).emit
    (.reasoningSummaryPartDone s.reasoning.itemId s.reasoning.outputIndex s.reasoning.text) (if_pos rfl)).emit
    (.outputItemDone s.reasoning.outputIndex item) (if_pos rfl)
  rw [closed]
  exact {
    traced := ⟨next, sent, bound⟩
    items := by simpa [openItem, item] using holds.items
    reasoningOpen := by simp
    messageOpen := by simpa [emit] using holds.messageOpen
    callOpen := by simpa [emit] using holds.callOpen
    current := by simp
    content := fun _ => holds.content (by simp)
    called := holds.called
    uncalled := holds.uncalled
    messageNamed := holds.messageNamed
    reasoningNamed := by simp
    calls := holds.calls }

theorem Holds.leaveMessage (holds : s.Holds outputs .message) : s.leaveMessage.Holds outputs .nothing := by
  obtain ⟨next, traced, bound⟩ := holds.traced
  let item := ResponsesOutputItem.message s.messageItemId "completed" [s.contentText]
  have sent := (traced.emit (.outputTextDone s.messageItemId s.outputIndex s.contentText) (if_pos rfl)).emit
    (.outputItemDone s.outputIndex item) (if_pos rfl)
  exact {
    traced := ⟨next, sent, bound⟩
    items := by simpa [openItem, ResponsesStream.leaveMessage, closeOpenMessage, emit, item] using holds.items
    reasoningOpen := by simpa [ResponsesStream.leaveMessage, closeOpenMessage, emit] using holds.reasoningOpen
    messageOpen := by simp [ResponsesStream.leaveMessage]
    callOpen := by simpa [ResponsesStream.leaveMessage, closeOpenMessage, emit] using holds.callOpen
    current := by simp
    content := fun _ => rfl
    called := holds.called
    uncalled := holds.uncalled
    messageNamed := holds.messageNamed
    reasoningNamed := by simp
    calls := holds.calls }

theorem Holds.call_open (holds : s.Holds outputs .call) : s.fcStarted = true ∧ s.fcDone = false ∧
    ∃ name, s.fcItemId = some ("fc_" ++ name) := by
  have started := holds.callOpen.mpr rfl
  rw [Bool.and_eq_true, Bool.not_eq_true'] at started
  exact ⟨started.1, started.2, holds.called started.1⟩

theorem Holds.leaveFc (holds : s.Holds outputs .call) : s.leaveFc.Holds outputs .nothing := by
  obtain ⟨next, traced, bound⟩ := holds.traced
  obtain ⟨started, undone, name, named⟩ := holds.call_open
  let item := ResponsesOutputItem.functionCall ("fc_" ++ name) (s.currentToolCallId.getD "")
    (s.currentToolName.getD "") s.toolArgs "completed"
  have left : s.leaveFc = { ((s.emit (.functionCallArgumentsDone ("fc_" ++ name) s.outputIndex s.toolArgs)).emit
        (.outputItemDone s.outputIndex item)) with
      completedItems := s.completedItems ++ [item]
      outputIndex := s.outputIndex + 1
      fcDone := true } := by
    simp [ResponsesStream.leaveFc, closeFc, named, closeOpenFc, emit, item]
  simp only [openItem, named, Option.map_some] at traced
  have sent := (traced.emit (.functionCallArgumentsDone ("fc_" ++ name) s.outputIndex s.toolArgs) (if_pos rfl)).emit
    (.outputItemDone s.outputIndex item) (if_pos rfl)
  rw [left]
  exact {
    traced := ⟨next, sent, bound⟩
    items := by simpa [openItem, named, item] using holds.items
    reasoningOpen := by simpa [emit] using holds.reasoningOpen
    messageOpen := by simpa [emit] using holds.messageOpen
    callOpen := by simp
    current := by simp
    content := fun _ => holds.content (by simp)
    called := holds.called
    uncalled := fun unstarted => absurd started (by simpa [emit] using unstarted)
    messageNamed := holds.messageNamed
    reasoningNamed := by simp
    calls := holds.calls }

/-! ## Opening -/

theorem itemId_kind (kind respId : String) (outputIndex : Nat) :
    ∃ name, itemId kind respId outputIndex = kind ++ name :=
  ⟨respId ++ ("_" ++ toString outputIndex), by simp [itemId, String.append_assoc]⟩

/-- The reasoning arm, where no item is open. -/
def openReasoning (s : ResponsesStream) : ResponsesStream :=
  ({ s with reasoning := ⟨true, itemId "rs_" s.respId s.outputIndex, "", s.outputIndex⟩ }.emit
    (.outputItemAdded s.outputIndex (.reasoning (itemId "rs_" s.respId s.outputIndex) []))).emit
    (.reasoningSummaryPartAdded (itemId "rs_" s.respId s.outputIndex) s.outputIndex)

/-- The content arm, where no item is open. -/
def openMessage (s : ResponsesStream) : ResponsesStream :=
  ({ s with messageStarted := true }.emit (.outputItemAdded s.outputIndex (.message s.messageItemId "in_progress" []))).emit
    (.contentPartAdded s.messageItemId s.outputIndex)

theorem Holds.openReasoning (holds : s.Holds outputs .nothing) :
    s.openReasoning.Holds (.reasoning "" :: outputs) .reasoning := by
  obtain ⟨next, traced, bound⟩ := holds.traced
  have sent := (traced.emit (.outputItemAdded s.outputIndex (.reasoning (itemId "rs_" s.respId s.outputIndex) []))
    (if_pos ⟨rfl, bound⟩)).emit (.reasoningSummaryPartAdded (itemId "rs_" s.respId s.outputIndex) s.outputIndex)
    (if_pos rfl)
  have items := holds.items
  simp only [openItem, Option.map_none, Option.toList_none, List.append_nil] at items
  exact {
    traced := ⟨s.outputIndex + 1, sent, Nat.le_refl _⟩
    items := by
      rw [List.reverse_cons]
      exact List.rel_append items (.cons rfl .nil)
    reasoningOpen := by simp [ResponsesStream.openReasoning, emit]
    messageOpen := by simpa [ResponsesStream.openReasoning, emit] using holds.messageOpen
    callOpen := by simpa [ResponsesStream.openReasoning, emit] using holds.callOpen
    current := fun _ => rfl
    content := fun _ => holds.content (by simp)
    called := holds.called
    uncalled := holds.uncalled
    messageNamed := holds.messageNamed
    reasoningNamed := fun _ => itemId_kind _ _ _
    calls := by simpa [Output.IsCall, ResponsesStream.openReasoning, emit] using holds.calls }

theorem Holds.openMessage (holds : s.Holds outputs .nothing) : s.openMessage.Holds (.message "" :: outputs) .message := by
  obtain ⟨next, traced, bound⟩ := holds.traced
  have sent := (traced.emit (.outputItemAdded s.outputIndex (.message s.messageItemId "in_progress" []))
    (if_pos ⟨rfl, bound⟩)).emit (.contentPartAdded s.messageItemId s.outputIndex) (if_pos rfl)
  have items := holds.items
  have empty := holds.content (by simp)
  simp only [openItem, Option.map_none, Option.toList_none, List.append_nil] at items
  exact {
    traced := ⟨s.outputIndex + 1, sent, Nat.le_refl _⟩
    items := by
      rw [List.reverse_cons]
      exact List.rel_append items (.cons ⟨rfl, by rw [← empty]; rfl⟩ .nil)
    reasoningOpen := by simpa [ResponsesStream.openMessage, emit] using holds.reasoningOpen
    messageOpen := by simp [ResponsesStream.openMessage, emit]
    callOpen := by simpa [ResponsesStream.openMessage, emit] using holds.callOpen
    current := by simp
    content := by simp
    called := holds.called
    uncalled := holds.uncalled
    messageNamed := holds.messageNamed
    reasoningNamed := by simp
    calls := by simpa [Output.IsCall, ResponsesStream.openMessage, emit] using holds.calls }

/-- The tool-call arm, where no item is open and no call was started. -/
def openCall (s : ResponsesStream) (name : String) : ResponsesStream :=
  { { s with fcItemId := some (itemId "fc_" s.respId s.outputIndex) }.emit (.outputItemAdded s.outputIndex
      (.functionCall (itemId "fc_" s.respId s.outputIndex) (s.currentToolCallId.getD "") name "" "in_progress")) with
    fcStarted := true }

theorem Holds.openCall (holds : s.Holds outputs .nothing) (first : s.fcStarted = false) (index : Nat) {id name : String}
    (currentId : s.currentToolCallId = some id) (currentName : s.currentToolName = some name) :
    (s.openCall name).Holds (.functionCall index id name "" :: outputs) .call := by
  obtain ⟨next, traced, bound⟩ := holds.traced
  have sent := traced.emit (.outputItemAdded s.outputIndex
    (.functionCall (itemId "fc_" s.respId s.outputIndex) (s.currentToolCallId.getD "") name "" "in_progress"))
    (if_pos ⟨rfl, bound⟩)
  obtain ⟨-, noArgs, undone⟩ := holds.uncalled first
  have items := holds.items
  simp only [openItem, Option.map_none, Option.toList_none, List.append_nil] at items
  exact {
    traced := ⟨s.outputIndex + 1, sent, Nat.le_refl _⟩
    items := by
      rw [List.reverse_cons]
      refine List.rel_append items (.cons ⟨rfl, ?_, ?_, noArgs⟩ .nil)
      · simp [ResponsesStream.openCall, emit, currentId]
      · simp [ResponsesStream.openCall, emit, currentName]
    reasoningOpen := by simpa [ResponsesStream.openCall, emit] using holds.reasoningOpen
    messageOpen := by simpa [ResponsesStream.openCall, emit] using holds.messageOpen
    callOpen := by simp [ResponsesStream.openCall, emit, undone]
    current := by simp
    content := fun _ => holds.content (by simp)
    called := fun _ => by
      obtain ⟨rest, named⟩ := itemId_kind "fc_" s.respId s.outputIndex
      exact ⟨rest, by rw [← named]; rfl⟩
    uncalled := by simp [ResponsesStream.openCall]
    messageNamed := holds.messageNamed
    reasoningNamed := by simp
    calls := by simp [ResponsesStream.openCall, Output.IsCall] }

/-! ## Adding to the open item -/

theorem Holds.addReasoning {before : String} (holds : s.Holds (.reasoning before :: outputs) .reasoning) (text : String) :
    ({ s with reasoning := { s.reasoning with text := s.reasoning.text ++ text } }.emit
      (.reasoningSummaryTextDelta s.reasoning.itemId s.outputIndex text)).Holds (.reasoning (before ++ text) :: outputs)
      .reasoning := by
  obtain ⟨next, traced, bound⟩ := holds.traced
  have atIndex := holds.current rfl
  have sent := traced.emit (.reasoningSummaryTextDelta s.reasoning.itemId s.outputIndex text)
    (if_pos (by rw [← atIndex]; rfl))
  have items := holds.items
  simp only [openItem, Option.map_some, Option.toList_some, List.reverse_cons] at items
  obtain ⟨earlier, shown⟩ := forall₂_concat items
  have same : s.reasoning.text = before := by simpa [ResponsesOutputItem.Shows] using shown
  exact {
    traced := ⟨next, sent, bound⟩
    items := by
      rw [List.reverse_cons]
      refine List.rel_append earlier (.cons ?_ .nil)
      simp [ResponsesOutputItem.Shows, emit, same]
    reasoningOpen := holds.reasoningOpen
    messageOpen := holds.messageOpen
    callOpen := holds.callOpen
    current := fun _ => atIndex
    content := holds.content
    called := holds.called
    uncalled := holds.uncalled
    messageNamed := holds.messageNamed
    reasoningNamed := holds.reasoningNamed
    calls := by simpa [Output.IsCall, emit] using holds.calls }

theorem Holds.addMessage {before : String} (holds : s.Holds (.message before :: outputs) .message) (text : String) :
    ({ s with contentText := s.contentText ++ text }.emit (.outputTextDelta s.messageItemId s.outputIndex text)).Holds
      (.message (before ++ text) :: outputs) .message := by
  obtain ⟨next, traced, bound⟩ := holds.traced
  have sent := traced.emit (.outputTextDelta s.messageItemId s.outputIndex text) (if_pos rfl)
  have items := holds.items
  simp only [openItem, Option.map_some, Option.toList_some, List.reverse_cons] at items
  obtain ⟨earlier, shown⟩ := forall₂_concat items
  have same : s.contentText = before := by simpa [ResponsesOutputItem.Shows] using shown
  exact {
    traced := ⟨next, sent, bound⟩
    items := by
      rw [List.reverse_cons]
      refine List.rel_append earlier (.cons ?_ .nil)
      simp [ResponsesOutputItem.Shows, emit, same]
    reasoningOpen := holds.reasoningOpen
    messageOpen := holds.messageOpen
    callOpen := holds.callOpen
    current := holds.current
    content := by simp
    called := holds.called
    uncalled := holds.uncalled
    messageNamed := holds.messageNamed
    reasoningNamed := holds.reasoningNamed
    calls := by simpa [Output.IsCall, emit] using holds.calls }

theorem Holds.addFragment {index : Nat} {id name arguments : String}
    (holds : s.Holds (.functionCall index id name arguments :: outputs) .call) (fragment : String) :
    (s.onToolCallArgs fragment).Holds (.functionCall index id name (arguments ++ fragment) :: outputs) .call := by
  obtain ⟨next, traced, bound⟩ := holds.traced
  obtain ⟨started, undone, rest, named⟩ := holds.call_open
  have added : s.onToolCallArgs fragment = { s with toolArgs := s.toolArgs ++ fragment }.emit
      (.functionCallArgumentsDelta ("fc_" ++ rest) s.outputIndex fragment) := by
    simp [onToolCallArgs, named]
  simp only [openItem, named, Option.map_some] at traced
  have sent := traced.emit (.functionCallArgumentsDelta ("fc_" ++ rest) s.outputIndex fragment) (if_pos rfl)
  have items := holds.items
  simp only [openItem, named, Option.map_some, Option.toList_some, List.reverse_cons] at items
  obtain ⟨earlier, shown⟩ := forall₂_concat items
  obtain ⟨-, sameId, sameName, same⟩ := shown
  rw [added]
  exact {
    traced := ⟨next, by simpa [openItem, emit, named, ResponsesOutputItem.id] using sent, bound⟩
    items := by
      simp only [openItem, emit, named, Option.map_some, Option.toList_some, List.reverse_cons]
      exact List.rel_append earlier (.cons ⟨rfl, sameId, sameName, by rw [same]⟩ .nil)
    reasoningOpen := holds.reasoningOpen
    messageOpen := holds.messageOpen
    callOpen := holds.callOpen
    current := holds.current
    content := holds.content
    called := holds.called
    uncalled := fun unstarted => absurd started (by simpa [emit] using unstarted)
    messageNamed := holds.messageNamed
    reasoningNamed := by simp
    calls := by simpa [Output.IsCall, emit] using holds.calls }

/-! ## The arms of the loop -/

theorem Holds.left (holds : s.Holds outputs kind) (notReasoning : kind ≠ .reasoning) :
    (if s.fcStarted && !s.fcDone then s.leaveFc else if s.messageStarted then s.leaveMessage else s).Holds outputs
      .nothing := by
  have callOpen := holds.callOpen
  have messageOpen := holds.messageOpen
  cases kind with
  | reasoning => exact absurd rfl notReasoning
  | call =>
    rw [if_pos (callOpen.mpr rfl)]
    exact holds.leaveFc
  | message =>
    rw [if_neg (callOpen.not.mpr (by simp)), if_pos (messageOpen.mpr rfl)]
    exact holds.leaveMessage
  | nothing =>
    rw [if_neg (callOpen.not.mpr (by simp)), if_neg (messageOpen.not.mpr (by simp))]
    exact holds

/-- The outputs with an empty item of the given kind, unless the newest is of that kind. -/
theorem Holds.onReasoning (holds : s.Holds outputs (.of outputs)) (text : String) (nonempty : text ≠ "") :
    (s.onReasoning text).Holds (Output.record outputs (.reasoning text)) .reasoning := by
  have isOpen := holds.reasoningOpen
  by_cases same : OpenKind.of outputs = .reasoning
  · have opened := isOpen.mpr same
    obtain ⟨before, rest, rfl⟩ : ∃ before rest, outputs = .reasoning before :: rest := by
      rcases outputs with _ | ⟨before | _ | _, rest⟩ <;> simp [OpenKind.of] at same ⊢
    have recorded : Output.record (.reasoning before :: rest) (.reasoning text) = .reasoning (before ++ text) :: rest := by
      simp [Output.record, nonempty]
    rw [recorded, ResponsesStream.onReasoning]
    simp only [if_pos opened]
    exact holds.addReasoning text
  · have left := holds.left same
    have opened := left.openReasoning.addReasoning text
    have closed : ¬s.reasoning.isOpen = true := isOpen.not.mpr same
    have recorded : Output.record outputs (.reasoning text) = .reasoning ("" ++ text) :: outputs := by
      rcases outputs with _ | ⟨_ | _ | _, outputs⟩ <;> simp [OpenKind.of] at same <;> simp [Output.record, nonempty]
    rw [recorded, ResponsesStream.onReasoning]
    simp only [if_neg closed]
    exact opened

def addContent (s : ResponsesStream) (text : String) : ResponsesStream :=
  { s with contentText := s.contentText ++ text }.emit (.outputTextDelta s.messageItemId s.outputIndex text)

theorem Holds.newMessage (holds : s.Holds outputs .nothing) (text : String) :
    (s.openMessage.addContent text).Holds (.message text :: outputs) .message := by
  have opened := holds.openMessage.addMessage text
  rwa [String.empty_append] at opened

theorem Holds.named (holds : s.Holds outputs .nothing) (respId : String) (outputIndex : Nat) :
    { s with messageItemId := itemId "msg_" respId outputIndex }.Holds outputs .nothing :=
  { holds with
    traced := holds.traced
    items := holds.items
    messageNamed := itemId_kind _ _ _ }

theorem Holds.cleared (holds : s.Holds outputs .nothing) : { s with contentText := "" }.Holds outputs .nothing :=
  { holds with
    traced := holds.traced
    items := holds.items
    content := fun _ => rfl }

theorem closeOpenReasoning_closed (closed : s.reasoning.isOpen = false) : s.closeOpenReasoning = s := by
  simp [closeOpenReasoning, closed]

theorem Holds.flags (holds : s.Holds outputs kind) (notMessage : kind ≠ .message) (notCall : kind ≠ .call) :
    s.messageStarted = false ∧ (s.fcStarted && !s.fcDone) = false := by
  constructor
  · rw [← Bool.not_eq_true, holds.messageOpen]
    exact notMessage
  · rw [← Bool.not_eq_true, holds.callOpen]
    exact notCall

theorem Holds.reasoningClosed (holds : s.Holds outputs kind) (notReasoning : kind ≠ .reasoning) :
    s.reasoning.isOpen = false := by
  rw [← Bool.not_eq_true, holds.reasoningOpen]
  exact notReasoning

theorem Holds.onContent (holds : s.Holds outputs (.of outputs)) (text : String) (nonempty : text ≠ "") :
    (s.onContent text).Holds (Output.record outputs (.content text)) .message := by
  cases outputs with
  | nil =>
    have closed : s.reasoning.isOpen = false := holds.reasoningClosed (by simp [OpenKind.of])
    obtain ⟨unstarted, uncalled⟩ := holds.flags (by simp [OpenKind.of]) (by simp [OpenKind.of])
    have opens : s.onContent text = s.openMessage.addContent text := by
      simp only [ResponsesStream.onContent, closeOpenReasoning_closed closed, closed, unstarted, uncalled,
        Bool.false_eq_true, if_false]
      rfl
    have recorded : Output.record [] (.content text) = [.message text] := by simp [Output.record, nonempty]
    rw [opens, recorded]
    exact Holds.newMessage holds text
  | cons output outputs =>
    cases output with
    | reasoning before =>
      have isOpen : s.reasoning.isOpen = true := holds.reasoningOpen.mpr rfl
      have nothing := (Holds.closeOpenReasoning holds).named s.closeOpenReasoning.respId s.closeOpenReasoning.outputIndex
      obtain ⟨unstarted, uncalled⟩ := nothing.flags (by simp) (by simp)
      have opens : s.onContent text = ({ s.closeOpenReasoning with
          messageItemId := itemId "msg_" s.closeOpenReasoning.respId s.closeOpenReasoning.outputIndex
          }.openMessage).addContent text := by
        simp only [ResponsesStream.onContent, isOpen, if_true, uncalled, Bool.false_eq_true, if_false]
        simp only at unstarted
        simp only [unstarted, Bool.false_eq_true, if_false]
        rfl
      have recorded : Output.record (.reasoning before :: outputs) (.content text) =
          .message text :: .reasoning before :: outputs := by simp [Output.record, nonempty]
      rw [opens, recorded]
      exact nothing.newMessage text
    | message before =>
      have closed : s.reasoning.isOpen = false := holds.reasoningClosed (by simp [OpenKind.of])
      have started : s.messageStarted = true := holds.messageOpen.mpr rfl
      have uncalled : (s.fcStarted && !s.fcDone) = false := by
        rw [← Bool.not_eq_true, holds.callOpen]
        simp [OpenKind.of]
      have adds : s.onContent text = s.addContent text := by
        have notOpen : ¬s.reasoning.isOpen = true := by simp [closed]
        have notCalled : ¬(s.fcStarted && !s.fcDone) = true := by simp [uncalled]
        simp only [ResponsesStream.onContent, closeOpenReasoning_closed closed, if_neg notOpen, if_neg notCalled,
          if_pos started]
        rfl
      have recorded : Output.record (.message before :: outputs) (.content text) =
          .message (before ++ text) :: outputs := by simp [Output.record, nonempty]
      rw [adds, recorded]
      exact Holds.addMessage holds text
    | functionCall index id name arguments =>
      have closed : s.reasoning.isOpen = false := holds.reasoningClosed (by simp [OpenKind.of])
      have called : (s.fcStarted && !s.fcDone) = true := holds.callOpen.mpr rfl
      have nothing := ((Holds.leaveFc holds).named s.leaveFc.respId s.leaveFc.outputIndex).cleared
      obtain ⟨unstarted, -⟩ := nothing.flags (by simp) (by simp)
      have opens : s.onContent text = ({ s.leaveFc with
          messageItemId := itemId "msg_" s.leaveFc.respId s.leaveFc.outputIndex
          contentText := "" }.openMessage).addContent text := by
        simp only [ResponsesStream.onContent, closeOpenReasoning_closed closed, closed, called, if_true,
          Bool.false_eq_true, if_false]
        simp only at unstarted
        simp only [unstarted, Bool.false_eq_true, if_false]
        rfl
      have recorded : Output.record (.functionCall index id name arguments :: outputs) (.content text) =
          .message text :: .functionCall index id name arguments :: outputs := by simp [Output.record, nonempty]
      rw [opens, recorded]
      exact nothing.newMessage text

theorem Holds.setCall (holds : s.Holds outputs kind) (notCall : kind ≠ .call) (id name : String) :
    { s with currentToolName := some name, currentToolCallId := some id }.Holds outputs kind := by
  have same : openItem { s with currentToolName := some name, currentToolCallId := some id } kind = s.openItem kind := by
    cases kind with
    | nothing | reasoning | message => rfl
    | call => exact absurd rfl notCall
  exact { holds with
    traced := by rw [same]; exact holds.traced
    items := by rw [same]; exact holds.items }

theorem Holds.startCall (holds : s.Holds outputs kind) (notReasoning : kind ≠ .reasoning) (notCall : kind ≠ .call)
    (first : s.fcStarted = false) (index : Nat) {id name : String} (currentId : s.currentToolCallId = some id)
    (currentName : s.currentToolName = some name) :
    ((if s.messageStarted then s.leaveMessage else s).openCall name).Holds (.functionCall index id name "" :: outputs)
      .call := by
  cases kind with
  | nothing =>
    obtain ⟨unstarted, -⟩ := holds.flags (by simp) (by simp)
    rw [unstarted, if_neg Bool.false_ne_true]
    exact holds.openCall first index currentId currentName
  | reasoning => exact absurd rfl notReasoning
  | message =>
    rw [if_pos (holds.messageOpen.mpr rfl)]
    exact holds.leaveMessage.openCall first index currentId currentName
  | call => exact absurd rfl notCall

theorem Holds.onToolCallStart (holds : s.Holds outputs (.of outputs)) (index : Nat) (id name : String)
    (first : ∀ output ∈ outputs, ¬output.IsCall) :
    (s.onToolCallStart id name).Holds (.functionCall index id name "" :: outputs) .call := by
  have uncalled : ¬s.fcStarted = true := by
    rw [holds.calls]
    exact fun ⟨output, listed, call⟩ => first output listed call
  have notCall : OpenKind.of outputs ≠ .call := by
    rcases outputs with _ | ⟨_ | _ | _, outputs⟩
    · simp [OpenKind.of]
    · simp [OpenKind.of]
    · simp [OpenKind.of]
    · exact absurd trivial (first _ List.mem_cons_self)
  by_cases isOpen : OpenKind.of outputs = .reasoning
  · rw [isOpen] at holds
    have uncalledThen : ¬s.closeOpenReasoning.fcStarted = true := by
      rw [holds.closeOpenReasoning.calls]
      exact fun ⟨output, listed, call⟩ => first output listed call
    have opens : s.onToolCallStart id name =
        (let current := { s.closeOpenReasoning with currentToolName := some name, currentToolCallId := some id }
          if current.messageStarted then current.leaveMessage else current).openCall name := by
      simp only [ResponsesStream.onToolCallStart, if_neg uncalledThen]
      rfl
    rw [opens]
    exact (holds.closeOpenReasoning.setCall (by simp) id name).startCall (by simp) (by simp)
      (Bool.not_eq_true _ ▸ uncalledThen) index rfl rfl
  · have closed := holds.reasoningClosed isOpen
    have opens : s.onToolCallStart id name =
        (let current := { s with currentToolName := some name, currentToolCallId := some id }
          if current.messageStarted then current.leaveMessage else current).openCall name := by
      simp only [ResponsesStream.onToolCallStart, closeOpenReasoning_closed closed, if_neg uncalled]
      rfl
    rw [opens]
    exact (holds.setCall notCall id name).startCall isOpen notCall (Bool.not_eq_true _ ▸ uncalled) index rfl rfl

end ResponsesStream

end Metrale.Server
