import Mathlib.Data.List.Induction
import Metrale.Server.ResponsesItems

/-! # Whole responses streams

A stream keeps the protocol exactly when it has one call at most, and all of the call's fragments come before the next
item.  The variables of a call are set once: a second call never gets an item of its own. -/

namespace Metrale.Server

namespace ResponsesStream

variable {s : ResponsesStream} {outputs : List Output} {delta : StreamDelta}

/-! ## Streams that fit -/

theorem addFragment_empty (index : Nat) (outputs : List Output) : addFragment index "" outputs = outputs := by
  induction outputs with
  | nil => rfl
  | cons output outputs ih =>
    cases output with
    | reasoning text | message text => simp [addFragment, ih]
    | functionCall other id name arguments => simp [addFragment, ih]

theorem kind_record_reasoning (outputs : List Output) {text : String} (nonempty : text ≠ "") :
    OpenKind.of (Output.record outputs (.reasoning text)) = .reasoning := by
  rcases outputs with _ | ⟨_ | _ | _, outputs⟩ <;> simp [Output.record, nonempty, OpenKind.of]

theorem kind_record_content (outputs : List Output) {text : String} (nonempty : text ≠ "") :
    OpenKind.of (Output.record outputs (.content text)) = .message := by
  rcases outputs with _ | ⟨_ | _ | _, outputs⟩ <;> simp [Output.record, nonempty, OpenKind.of]

theorem Holds.onDelta (holds : s.Holds outputs (.of outputs)) (fits : Output.Fits outputs delta)
    (unrefused : ∀ text, delta ≠ .refusal text) :
    (s.onDelta delta).Holds (Output.record outputs delta) (.of (Output.record outputs delta)) := by
  cases delta with
  | reasoning text =>
    by_cases silent : text = ""
    · simpa [ResponsesStream.onDelta, Output.record, silent] using holds
    · rw [kind_record_reasoning outputs silent, ResponsesStream.onDelta, if_neg silent]
      exact holds.onReasoning text silent
  | content text =>
    by_cases silent : text = ""
    · simpa [ResponsesStream.onDelta, Output.record, silent] using holds
    · rw [kind_record_content outputs silent, ResponsesStream.onDelta, if_neg silent]
      exact holds.onContent text silent
  | toolCallStart index id name => exact holds.onToolCallStart index id name fits
  | toolCallArgs index fragment =>
    by_cases silent : fragment = ""
    · simpa [ResponsesStream.onDelta, Output.record, silent, addFragment_empty] using holds
    · obtain ⟨id, name, arguments, rest, rfl⟩ := fits silent
      have recorded : Output.record (.functionCall index id name arguments :: rest) (.toolCallArgs index fragment) =
          .functionCall index id name (arguments ++ fragment) :: rest := by simp [Output.record, Server.addFragment]
      rw [recorded, ResponsesStream.onDelta, if_neg silent]
      exact Holds.addFragment holds fragment
  | finish reason usage => exact { holds with traced := holds.traced, items := holds.items }
  | refusal text => exact absurd rfl (unrefused text)
  | error message => exact holds

theorem Holds.close (holds : s.Holds outputs (.of outputs)) :
    ∃ closed : ResponsesStream, closed.Holds outputs .nothing ∧
      s.closeOpenReasoning.closeOpenItems.sent = closed.sent ∧
      s.closeOpenReasoning.closeOpenItems.completedItems = closed.completedItems := by
  by_cases isOpen : OpenKind.of outputs = .reasoning
  · rw [isOpen] at holds
    have nothing := holds.closeOpenReasoning
    obtain ⟨unstarted, uncalled⟩ := nothing.flags (by simp) (by simp)
    refine ⟨_, nothing, ?_⟩
    simp [closeOpenItems, unstarted, uncalled]
  · have closed := closeOpenReasoning_closed (holds.reasoningClosed isOpen)
    rw [closed]
    cases kind : OpenKind.of outputs with
    | reasoning => exact absurd kind isOpen
    | nothing =>
      rw [kind] at holds
      obtain ⟨unstarted, uncalled⟩ := holds.flags (by simp) (by simp)
      refine ⟨s, holds, ?_⟩
      simp [closeOpenItems, unstarted, uncalled]
    | message =>
      rw [kind] at holds
      have started := holds.messageOpen.mpr rfl
      have notCalled : ¬(s.fcStarted && !s.fcDone) = true := holds.callOpen.not.mpr (by simp)
      refine ⟨_, holds.leaveMessage, ?_⟩
      simp only [closeOpenItems, if_pos started, if_neg notCalled]
      exact ⟨rfl, rfl⟩
    | call =>
      rw [kind] at holds
      have notStarted : ¬s.messageStarted = true := holds.messageOpen.not.mpr (by simp)
      refine ⟨_, holds.leaveFc, ?_⟩
      simp only [closeOpenItems, if_neg notStarted, if_pos (holds.callOpen.mpr rfl)]
      exact ⟨rfl, rfl⟩

theorem Holds.kept {closed final : ResponsesStream} {deltas : List StreamDelta} (holds : closed.Holds (outputsOf deltas) .nothing)
    (sent : final.sent = closed.sent) (completed : final.completedItems = closed.completedItems) : final.Kept deltas := by
  obtain ⟨next, traced, -⟩ := holds.traced
  have items := holds.items
  simp only [openItem, Option.map_none, Option.toList_none, List.append_nil] at items
  have length : closed.sent.length = closed.seq := by
    have lengths := congrArg List.length traced.numbered
    simpa using lengths
  refine ⟨?_, ⟨next, ?_⟩, ?_⟩
  · rw [sent, length]
    exact traced.numbered
  · rw [sent]
    exact traced.seen
  · rw [completed]
    exact items

theorem loop_holds (respId : String) {deltas : List StreamDelta}
    (unrefused : ∀ text, .refusal text ∉ deltas)
    (fits : ∀ earlier delta later, deltas = earlier ++ delta :: later → Output.Fits (outputsOf earlier) delta) :
    (deltas.foldl onDelta (start respId)).Holds (outputsOf deltas) (.of (outputsOf deltas)) := by
  induction deltas using List.reverseRecOn with
  | nil => exact start_holds respId
  | append_singleton deltas delta ih =>
    have before := ih (fun text listed => unrefused text (List.mem_append_left _ listed))
      (fun earlier other later split => fits earlier other (later ++ [delta]) (by simp [split]))
    rw [outputsOf, List.foldl_append, List.foldl_append]
    refine before.onDelta (fits deltas delta [] rfl) ?_
    rintro text rfl
    exact unrefused text (by simp)

/-! ## One call at most -/

def doneCall : ResponsesOutputItem → Bool
  | .functionCall _ _ _ _ _ => true
  | _ => false

def CalledOnce (s : ResponsesStream) : Prop := s.completedItems.countP doneCall ≤ if s.fcDone then 1 else 0

/-- The events sent stay sent, and there is still one call at most. -/
structure Extends (before after : ResponsesStream) : Prop where
  sent : before.sent <+: after.sent
  once : before.CalledOnce → after.CalledOnce

theorem Extends.refl (s : ResponsesStream) : s.Extends s := ⟨List.prefix_rfl, id⟩

theorem Extends.trans {first second third : ResponsesStream} (earlier : first.Extends second)
    (later : second.Extends third) : first.Extends third :=
  ⟨earlier.sent.trans later.sent, later.once ∘ earlier.once⟩

theorem Extends.of_same {before after : ResponsesStream} (sent : before.sent <+: after.sent)
    (completed : after.completedItems = before.completedItems) (done : after.fcDone = before.fcDone) :
    before.Extends after :=
  ⟨sent, fun once => by rw [CalledOnce, completed, done]; exact once⟩

theorem Extends.of_item {before after : ResponsesStream} (item : ResponsesOutputItem) (sent : before.sent <+: after.sent)
    (completed : after.completedItems = before.completedItems ++ [item]) (other : doneCall item = false)
    (done : after.fcDone = before.fcDone) : before.Extends after := by
  refine ⟨sent, fun once => ?_⟩
  have none_more : List.countP doneCall [item] = 0 := by simp [other]
  rw [CalledOnce, completed, List.countP_append, done, none_more, Nat.add_zero]
  exact once

theorem closeOpenReasoning_extends (s : ResponsesStream) : s.Extends s.closeOpenReasoning := by
  by_cases isOpen : s.reasoning.isOpen = true
  · refine .of_item (.reasoning s.reasoning.itemId [s.reasoning.text]) ?_ ?_ rfl ?_
    · simp [closeOpenReasoning, isOpen, emit]
    · simp [closeOpenReasoning, isOpen, emit]
    · simp [closeOpenReasoning, isOpen, emit]
  · rw [closeOpenReasoning_closed (Bool.not_eq_true _ ▸ isOpen)]
    exact .refl s

theorem closeOpenMessage_extends (s : ResponsesStream) : s.Extends s.closeOpenMessage := by
  refine .of_item (.message s.messageItemId "completed" [s.contentText]) ?_ ?_ rfl ?_
  · simp [closeOpenMessage, emit]
  · simp [closeOpenMessage, emit]
  · simp [closeOpenMessage, emit]

theorem leaveMessage_extends (s : ResponsesStream) : s.Extends s.leaveMessage :=
  s.closeOpenMessage_extends.trans (.of_same List.prefix_rfl rfl rfl)

theorem closeFc_sent (s : ResponsesStream) : s.sent <+: s.closeFc.sent := by
  unfold closeFc
  split
  · exact List.prefix_rfl
  · simp [closeOpenFc, emit]

theorem closeFc_calls (s : ResponsesStream) :
    s.closeFc.completedItems.countP doneCall ≤ s.completedItems.countP doneCall + 1 := by
  unfold closeFc
  split
  · exact Nat.le_succ _
  · simp [closeOpenFc, emit, doneCall]

theorem leaveFc_extends (undone : s.fcDone = false) : s.Extends s.leaveFc := by
  refine ⟨s.closeFc_sent, fun once => ?_⟩
  rw [CalledOnce, undone] at once
  have calls := s.closeFc_calls
  simp only [CalledOnce, leaveFc, if_true]
  simp only [Bool.false_eq_true, if_false] at once
  omega

/-! ### The arms -/

theorem onReasoning_extends (s : ResponsesStream) (text : String) : s.Extends (s.onReasoning text) := by
  have left : s.Extends (if s.fcStarted && !s.fcDone then s.leaveFc else if s.messageStarted then s.leaveMessage else s) := by
    split
    · next called =>
      rw [Bool.and_eq_true, Bool.not_eq_true'] at called
      exact leaveFc_extends called.2
    · split
      · exact s.leaveMessage_extends
      · exact .refl s
  unfold onReasoning
  by_cases isOpen : s.reasoning.isOpen = true
  · simp only [if_pos isOpen]
    exact .of_same (by simp [emit]) rfl rfl
  · simp only [if_neg isOpen]
    exact left.trans (.of_same (by simp [emit]) rfl rfl)

theorem onContent_extends (s : ResponsesStream) (text : String) : s.Extends (s.onContent text) := by
  have named : s.Extends (if s.reasoning.isOpen then { s.closeOpenReasoning with
      messageItemId := itemId "msg_" s.closeOpenReasoning.respId s.closeOpenReasoning.outputIndex }
      else s.closeOpenReasoning) := by
    split
    · exact s.closeOpenReasoning_extends.trans (.of_same List.prefix_rfl rfl rfl)
    · exact s.closeOpenReasoning_extends
  unfold onContent
  simp only
  generalize (if s.reasoning.isOpen = true then _ else _) = t at *
  refine named.trans ?_
  have left : t.Extends (if t.fcStarted && !t.fcDone then
      { t.leaveFc with messageItemId := itemId "msg_" t.leaveFc.respId t.leaveFc.outputIndex, contentText := "" }
      else t) := by
    split
    · next called =>
      rw [Bool.and_eq_true, Bool.not_eq_true'] at called
      exact (leaveFc_extends called.2).trans (.of_same List.prefix_rfl rfl rfl)
    · exact .refl t
  generalize (if (t.fcStarted && !t.fcDone) = true then _ else _) = u at *
  refine left.trans ?_
  split
  · exact .of_same (by simp [emit]) rfl rfl
  · exact .of_same (by simp [emit]) rfl rfl

theorem onToolCallStart_extends (s : ResponsesStream) (id name : String) : s.Extends (s.onToolCallStart id name) := by
  unfold onToolCallStart
  refine s.closeOpenReasoning_extends.trans ?_
  generalize s.closeOpenReasoning = t
  simp only
  split
  · exact .of_same List.prefix_rfl rfl rfl
  · split
    · have current : t.Extends { t with currentToolName := some name, currentToolCallId := some id } :=
        .of_same List.prefix_rfl rfl rfl
      exact (current.trans (leaveMessage_extends _)).trans (.of_same (by simp [emit]) rfl rfl)
    · exact .of_same (by simp [emit]) rfl rfl

theorem onDelta_extends (s : ResponsesStream) (delta : StreamDelta) : s.Extends (s.onDelta delta) := by
  cases delta with
  | reasoning text =>
    simp only [onDelta]
    split
    · exact .refl s
    · exact s.onReasoning_extends text
  | content text =>
    simp only [onDelta]
    split
    · exact .refl s
    · exact s.onContent_extends text
  | toolCallStart index id name => exact s.onToolCallStart_extends id name
  | toolCallArgs index fragment =>
    simp only [onDelta]
    split
    · exact .refl s
    · unfold onToolCallArgs
      simp only
      split
      · exact .of_same List.prefix_rfl rfl rfl
      · exact .of_same (by simp [emit]) rfl rfl
  | finish reason usage => exact .of_same List.prefix_rfl rfl rfl
  | refusal text =>
    simp only [onDelta]
    split
    · exact .refl s
    · exact .of_same (by simp [emit]) rfl rfl
  | error message => exact .refl s

theorem foldl_extends (s : ResponsesStream) (deltas : List StreamDelta) : s.Extends (deltas.foldl onDelta s) := by
  induction deltas generalizing s with
  | nil => exact .refl s
  | cons delta deltas ih => exact (s.onDelta_extends delta).trans (ih _)

theorem closeOpenItems_sent (s : ResponsesStream) : s.sent <+: s.closeOpenItems.sent := by
  have message : s.sent <+: (if s.messageStarted then s.closeOpenMessage else s).sent := by
    split
    · exact s.closeOpenMessage_extends.sent
    · exact List.prefix_rfl
  unfold closeOpenItems
  simp only
  split
  · exact message.trans (closeFc_sent _)
  · exact message

theorem stream_calls (respId : String) (deltas : List StreamDelta) :
    (stream respId deltas).completedItems.countP doneCall ≤ 1 := by
  have once : (start respId).CalledOnce := Nat.zero_le _
  have looped := ((foldl_extends _ deltas).trans (closeOpenReasoning_extends _)).once once
  unfold stream
  generalize (deltas.foldl onDelta (start respId)).closeOpenReasoning = s at *
  have message : (if s.messageStarted then s.closeOpenMessage else s).CalledOnce := by
    split
    · exact s.closeOpenMessage_extends.once looped
    · exact looped
  have done : (if s.messageStarted then s.closeOpenMessage else s).fcDone = s.fcDone := by
    split <;> rfl
  unfold closeOpenItems
  simp only
  rw [CalledOnce, done] at message
  split
  · next called =>
    rw [Bool.and_eq_true, Bool.not_eq_true'] at called
    rw [called.2] at message
    have closed := closeFc_calls (if s.messageStarted then s.closeOpenMessage else s)
    simp only [Bool.false_eq_true, if_false] at message
    omega
  · refine Nat.le_trans message ?_
    split <;> omega

theorem stream_sent (respId : String) (earlier later : List StreamDelta) :
    (earlier.foldl onDelta (start respId)).sent <+: (stream respId (earlier ++ later)).sent := by
  rw [stream, List.foldl_append]
  exact ((foldl_extends _ later).trans (closeOpenReasoning_extends _)).sent.trans (closeOpenItems_sent _)

/-! ## The protocol and the deltas -/

def callCount (outputs : List Output) : Nat :=
  outputs.countP fun output => match output with
    | .functionCall _ _ _ _ => true
    | _ => false

theorem callCount_addFragment (index : Nat) (fragment : String) (outputs : List Output) :
    callCount (addFragment index fragment outputs) = callCount outputs := by
  induction outputs with
  | nil => rfl
  | cons output outputs ih =>
    simp only [callCount] at ih ⊢
    cases output with
    | reasoning text | message text => simp [addFragment, ih]
    | functionCall other id name arguments =>
      simp only [addFragment]
      split <;> simp [ih]

theorem callCount_record (outputs : List Output) (delta : StreamDelta) : callCount (Output.record outputs delta) =
    callCount outputs + match delta with
      | .toolCallStart _ _ _ => 1
      | _ => 0 := by
  cases delta with
  | reasoning text | content text =>
    simp only [Output.record, callCount]
    split
    · rfl
    · rcases outputs with _ | ⟨_ | _ | _, outputs⟩ <;> simp
  | toolCallStart index id name => simp [Output.record, callCount]
  | toolCallArgs index fragment => simpa [Output.record] using callCount_addFragment index fragment outputs
  | finish _ _ | refusal _ | error _ => rfl

theorem callCount_outputsOf_le (earlier later : List StreamDelta) :
    callCount (outputsOf earlier) ≤ callCount (outputsOf (earlier ++ later)) := by
  rw [outputsOf, outputsOf, List.foldl_append]
  generalize earlier.foldl Output.record [] = outputs
  induction later generalizing outputs with
  | nil => exact Nat.le_refl _
  | cons delta later ih =>
    have more := ih (Output.record outputs delta)
    rw [callCount_record] at more
    rw [List.foldl_cons]
    omega

theorem callCount_pos {outputs : List Output} {output : Output} (listed : output ∈ outputs) (call : output.IsCall) :
    0 < callCount outputs := by
  rw [callCount, List.countP_pos_iff]
  refine ⟨output, listed, ?_⟩
  cases output with
  | functionCall index id name arguments => rfl
  | reasoning text | message text => exact absurd call id

theorem callCount_shown {items : List ResponsesOutputItem} {outputs : List Output}
    (shown : List.Forall₂ ResponsesOutputItem.Shows items outputs) : items.countP doneCall = callCount outputs := by
  induction shown with
  | nil => rfl
  | @cons item output items outputs shows_ _ ih =>
    simp only [callCount] at ih ⊢
    cases item <;> cases output <;> simp [ResponsesOutputItem.Shows] at shows_ <;>
      simp [List.countP_cons, doneCall, ih]

theorem callCount_reverse (outputs : List Output) : callCount outputs.reverse = callCount outputs := by
  simp [callCount]

def HasCall (index : Nat) (outputs : List Output) : Prop :=
  ∃ id name arguments, Output.functionCall index id name arguments ∈ outputs

theorem HasCall.addFragment {index : Nat} (held : HasCall index outputs) (other : Nat) (fragment : String) :
    HasCall index (addFragment other fragment outputs) := by
  obtain ⟨id, name, arguments, listed⟩ := held
  induction outputs with
  | nil => simp at listed
  | cons output outputs ih =>
    rcases List.mem_cons.mp listed with rfl | later
    · simp only [Server.addFragment]
      split
      · exact ⟨id, name, _, List.mem_cons_self⟩
      · exact ⟨id, name, arguments, List.mem_cons_self⟩
    · obtain ⟨id', name', arguments', found⟩ := ih later
      cases output with
      | reasoning text | message text => exact ⟨id', name', arguments', List.mem_cons_of_mem _ found⟩
      | functionCall another id'' name'' arguments'' =>
        simp only [Server.addFragment]
        split
        · exact ⟨id, name, arguments, List.mem_cons_of_mem _ later⟩
        · exact ⟨id', name', arguments', List.mem_cons_of_mem _ found⟩

theorem HasCall.record {index : Nat} (held : HasCall index outputs) (delta : StreamDelta) :
    HasCall index (Output.record outputs delta) := by
  obtain ⟨id, name, arguments, listed⟩ := held
  cases delta with
  | reasoning text | content text =>
    simp only [Output.record]
    split
    · exact ⟨id, name, arguments, listed⟩
    · split
      · exact ⟨id, name, arguments, by simpa using listed⟩
      · exact ⟨id, name, arguments, List.mem_cons_of_mem _ listed⟩
  | toolCallStart other id' name' => exact ⟨id, name, arguments, List.mem_cons_of_mem _ listed⟩
  | toolCallArgs other fragment => exact HasCall.addFragment ⟨id, name, arguments, listed⟩ other fragment
  | finish _ _ | refusal _ | error _ => exact ⟨id, name, arguments, listed⟩

theorem hasCall_of_started {deltas : List StreamDelta} {index : Nat} {id name : String}
    (started : .toolCallStart index id name ∈ deltas) : HasCall index (outputsOf deltas) := by
  induction deltas using List.reverseRecOn with
  | nil => simp at started
  | append_singleton deltas delta ih =>
    rw [outputsOf, List.foldl_append]
    rcases List.mem_append.mp started with earlier | last
    · exact (ih earlier).record delta
    · obtain rfl := List.mem_singleton.mp last
      exact ⟨id, name, "", List.mem_cons_self⟩

theorem fc_ne_msg (call message : String) : "fc_" ++ call ≠ "msg_" ++ message := by
  intro same
  have lists := congrArg String.toList same
  simp at lists

theorem fc_ne_rs (call reasoning : String) : "fc_" ++ call ≠ "rs_" ++ reasoning := by
  intro same
  have lists := congrArg String.toList same
  simp at lists

theorem Holds.fits_of_seen {index : Nat} {fragment : String} (holds : s.Holds outputs (.of outputs))
    (held : HasCall index outputs) (single : callCount outputs ≤ 1) (nonempty : fragment ≠ "")
    (seen : (viewOf (s.onDelta (.toolCallArgs index fragment)).sent).isSome) :
    ∃ id name arguments rest, outputs = .functionCall index id name arguments :: rest := by
  obtain ⟨id, name, arguments, listed⟩ := held
  have started : s.fcStarted = true := holds.calls.mpr ⟨_, listed, trivial⟩
  obtain ⟨rest, named⟩ := holds.called started
  obtain ⟨next, traced, -⟩ := holds.traced
  have sent : (s.onDelta (.toolCallArgs index fragment)).sent =
      s.sent ++ [⟨s.seq, .functionCallArgumentsDelta ("fc_" ++ rest) s.outputIndex fragment⟩] := by
    simp [ResponsesStream.onDelta, nonempty, onToolCallArgs, named, ResponsesStream.emit]
  rw [sent, viewOf_concat, traced.seen, Option.bind_some, ResponsesView.see] at seen
  cases outputs with
  | nil => simp at listed
  | cons output outputs =>
    cases output with
    | reasoning text =>
      obtain ⟨other, reasoningNamed⟩ := holds.reasoningNamed rfl
      simp [openItem, OpenKind.of, ResponsesOutputItem.id, reasoningNamed, (fc_ne_rs rest other).symm] at seen
    | message text =>
      obtain ⟨other, messageNamed⟩ := holds.messageNamed
      simp [openItem, OpenKind.of, ResponsesOutputItem.id, messageNamed, (fc_ne_msg rest other).symm] at seen
    | functionCall newest id' name' arguments' =>
      rcases List.mem_cons.mp listed with same | earlier
      · obtain ⟨rfl, -⟩ := Output.functionCall.inj same
        exact ⟨id', name', arguments', outputs, rfl⟩
      · have another := callCount_pos earlier trivial
        simp only [callCount, List.countP_cons_of_pos] at single another
        omega

/-- A stream of deltas keeps the protocol exactly when each delta fits: no call is started after another, and each
fragment comes while its call is the newest output. -/
theorem stream_kept_iff (respId : String) (deltas : List StreamDelta) (wellFormed : WellFormed deltas) :
    (stream respId deltas).Kept deltas ↔
      ∀ earlier delta later, deltas = earlier ++ delta :: later → Output.Fits (outputsOf earlier) delta := by
  constructor
  · intro kept
    have calls : callCount (outputsOf deltas) ≤ 1 := by
      rw [← callCount_reverse, ← callCount_shown kept.items]
      exact stream_calls respId deltas
    have start_fits : ∀ earlier index id name later, deltas = earlier ++ .toolCallStart index id name :: later →
        ∀ output ∈ outputsOf earlier, ¬output.IsCall := by
      rintro earlier index id name later rfl output listed call
      have before := callCount_pos listed call
      have after := callCount_outputsOf_le (earlier ++ [.toolCallStart index id name]) later
      rw [outputsOf, List.foldl_append, List.foldl_cons, List.foldl_nil, callCount_record, ← outputsOf,
        List.append_assoc, List.singleton_append] at after
      simp only at after
      omega
    have fits_of_holds : ∀ earlier delta later, deltas = earlier ++ delta :: later →
        (earlier.foldl onDelta (start respId)).Holds (outputsOf earlier) (.of (outputsOf earlier)) →
        Output.Fits (outputsOf earlier) delta := by
      intro earlier delta later split holds
      cases delta with
      | toolCallStart index id name => exact start_fits earlier index id name later split
      | toolCallArgs index fragment =>
        intro nonempty
        obtain ⟨id, name, started⟩ := wellFormed.fragments earlier index fragment later split
        have single : callCount (outputsOf earlier) ≤ 1 := by
          rw [split] at calls
          exact Nat.le_trans (callCount_outputsOf_le earlier _) calls
        refine holds.fits_of_seen (hasCall_of_started started) single nonempty ?_
        obtain ⟨next, seen⟩ := kept.paired
        have sent := stream_sent respId (earlier ++ [.toolCallArgs index fragment]) later
        rw [List.append_assoc, List.singleton_append, ← split, List.foldl_append] at sent
        obtain ⟨more, whole⟩ := sent
        refine @viewOf_of_append _ more ?_
        rw [List.foldl_cons, List.foldl_nil] at whole
        rw [whole, seen]
        rfl
      | reasoning text | content text | finish reason usage | refusal text | error message => trivial
    have holds : ∀ earlier later, deltas = earlier ++ later →
        (earlier.foldl onDelta (start respId)).Holds (outputsOf earlier) (.of (outputsOf earlier)) := by
      intro earlier
      induction earlier using List.reverseRecOn with
      | nil => exact fun _ _ => start_holds respId
      | append_singleton earlier delta ih =>
        intro later split
        rw [List.append_assoc, List.singleton_append] at split
        have before := ih (delta :: later) split
        rw [outputsOf, List.foldl_append, List.foldl_append]
        refine before.onDelta (fits_of_holds earlier delta later split before) ?_
        rintro text rfl
        exact wellFormed.unrefused text (by simp [split])
    exact fun earlier delta later split => fits_of_holds earlier delta later split (holds earlier _ split)
  · intro fits
    have holds := loop_holds respId wellFormed.unrefused fits
    obtain ⟨closed, nothing, sent, completed⟩ := holds.close
    exact nothing.kept sent completed

/-- An answer before one call in two fragments. -/
theorem stream_kept_iff_call : (stream "r" [.content "hm", .toolCallStart 0 "call_0" "look", .toolCallArgs 0 "1",
      .toolCallArgs 0 "2", .finish .toolCalls ⟨7, 5, 0, 0, 0⟩]).Kept [.content "hm", .toolCallStart 0 "call_0" "look",
      .toolCallArgs 0 "1", .toolCallArgs 0 "2", .finish .toolCalls ⟨7, 5, 0, 0, 0⟩] ↔
    ∀ earlier delta later, [StreamDelta.content "hm", .toolCallStart 0 "call_0" "look", .toolCallArgs 0 "1",
      .toolCallArgs 0 "2", .finish .toolCalls ⟨7, 5, 0, 0, 0⟩] = earlier ++ delta :: later →
      Output.Fits (outputsOf earlier) delta := by
  refine stream_kept_iff "r" _ ⟨?_, by simp⟩
  intro earlier index fragment later split
  refine ⟨"call_0", "look", ?_⟩
  rcases earlier with _ | ⟨first, _ | ⟨second, earlier⟩⟩
  · simp at split
  · simp at split
  · simp only [List.cons_append, List.cons.injEq] at split
    obtain ⟨rfl, rfl, rest⟩ := split
    have index_zero : StreamDelta.toolCallArgs index fragment ∈ [StreamDelta.toolCallArgs 0 "1", .toolCallArgs 0 "2",
        .finish .toolCalls ⟨7, 5, 0, 0, 0⟩] := by simp [rest]
    simp only [List.mem_cons, StreamDelta.toolCallArgs.injEq, List.not_mem_nil, reduceCtorEq, or_false] at index_zero
    rcases index_zero with ⟨rfl, -⟩ | ⟨rfl, -⟩ <;> simp

/-- Of two calls one after the other only one item is done: it has the second's name and id, and both fragments. -/
theorem second_call_merged : ¬∀ (respId : String) (deltas : List StreamDelta), WellFormed deltas →
    (stream respId deltas).Kept deltas := by
  intro always
  have wellFormed : WellFormed [.toolCallStart 0 "call_0" "look", .toolCallStart 1 "call_1" "go"] := by
    refine ⟨?_, by simp⟩
    intro earlier index fragment later split
    have listed : StreamDelta.toolCallArgs index fragment ∈
        [StreamDelta.toolCallStart 0 "call_0" "look", .toolCallStart 1 "call_1" "go"] := by simp [split]
    simp at listed
  have items := (always "r" _ wellFormed).items.length_eq
  have one : (stream "r" [.toolCallStart 0 "call_0" "look", .toolCallStart 1 "call_1" "go"]).completedItems.length = 1 := by
    decide
  rw [one] at items
  exact absurd items (by decide)

end ResponsesStream

end Metrale.Server
