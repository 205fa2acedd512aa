import Metrale.Server.AnthropicTranslator

/-! # The shape of an Anthropic stream

A message is its start, blocks that are numbered from zero and of one kind each, and an ending.  The blocks carry the
texts and fragments of the deltas in their order. -/

namespace Metrale.Server

def ContentBlock.Takes : ContentBlock → BlockDelta → Prop
  | .thinking, .thinkingDelta _ => True
  | .text, .textDelta _ => True
  | .toolUse _ _, .inputJsonDelta _ => True
  | _, _ => False

structure MessageBlock where
  block : ContentBlock
  deltas : List BlockDelta
  ownKind : ∀ delta ∈ deltas, block.Takes delta

def MessageBlock.events (b : MessageBlock) (index : Nat) : List SseEvent :=
  .contentBlockStart index b.block :: b.deltas.map (.contentBlockDelta index) ++ [.contentBlockStop index]

inductive MessageEnding where
  | completed (stopReason : String) (usage : MessageUsage)
  | failed (message : String)

def MessageEnding.events : MessageEnding → List SseEvent
  | .completed stopReason usage => [.messageDelta stopReason usage, .messageStop]
  | .failed message => [.error message]

/-- The blocks one after the other, the first of them under the given index. -/
def blockEvents : Nat → List MessageBlock → List SseEvent
  | _, [] => []
  | index, b :: blocks => b.events index ++ blockEvents (index + 1) blocks

/-! ## What is delivered -/

/-- What a delta carries, when `opened` is the item opened last. -/
def StreamDelta.payload (opened : OpenBlock) : StreamDelta → List BlockDelta
  | .reasoning text => if text = "" then [] else [.thinkingDelta text]
  | .content text => if text = "" then [] else [.textDelta text]
  | .toolCallArgs index fragment => if fragment ≠ "" ∧ opened = .toolUse index then [.inputJsonDelta fragment] else []
  | _ => []

def StreamDelta.opens (opened : OpenBlock) : StreamDelta → OpenBlock
  | .reasoning text => if text = "" then opened else .thinking
  | .content text => if text = "" then opened else .text
  | .toolCallStart index _ _ => .toolUse index
  | _ => opened

/-- The texts, and the fragments of the call opened last, in the order of the deltas. -/
def delivered (opened : OpenBlock) : List StreamDelta → List BlockDelta
  | [] => []
  | delta :: deltas => delta.payload opened ++ delivered (delta.opens opened) deltas

def StreamDelta.Ends : StreamDelta → Prop
  | .finish _ _ | .error _ => True
  | _ => False

def EndsOnce (deltas : List StreamDelta) : Prop :=
  ∀ earlier delta later, deltas = earlier ++ delta :: later → delta.Ends → later = []

theorem EndsOnce.tail {delta : StreamDelta} {deltas : List StreamDelta} (once : EndsOnce (delta :: deltas)) :
    EndsOnce deltas :=
  fun earlier other later split => once (delta :: earlier) other later (by rw [split, List.cons_append])

theorem endsOnce_of_last {deltas : List StreamDelta} (last : StreamDelta) (unended : ∀ delta ∈ deltas, ¬delta.Ends) :
    EndsOnce (deltas ++ [last]) := by
  intro earlier delta later split ends
  rcases List.eq_nil_or_concat later with none_later | ⟨rest, final, rfl⟩
  · exact none_later
  · rw [List.concat_eq_append, ← List.cons_append, ← List.append_assoc] at split
    obtain ⟨same, -⟩ := List.append_inj' split rfl
    exact absurd ends (unended delta (by rw [same]; simp))

/-! ## The rest of a message -/

/-- The events from a point on, with the block that is open there and its index or the index of the next, and the
deltas that they carry. -/
inductive MessageRest : Option ContentBlock → Nat → List SseEvent → List BlockDelta → Prop where
  | ending (index : Nat) (ending : MessageEnding) : MessageRest none index ending.events []
  | start {index : Nat} {block : ContentBlock} {events : List SseEvent} {carried : List BlockDelta}
      (rest : MessageRest (some block) index events carried) :
      MessageRest none index (.contentBlockStart index block :: events) carried
  | delta {index : Nat} {block : ContentBlock} {events : List SseEvent} {carried : List BlockDelta} {delta : BlockDelta}
      (takes : block.Takes delta) (rest : MessageRest (some block) index events carried) :
      MessageRest (some block) index (.contentBlockDelta index delta :: events) (delta :: carried)
  | stop {index : Nat} {block : ContentBlock} {events : List SseEvent} {carried : List BlockDelta}
      (rest : MessageRest none (index + 1) events carried) :
      MessageRest (some block) index (.contentBlockStop index :: events) carried

theorem MessageRest.blocks {opened : Option ContentBlock} {index : Nat} {events : List SseEvent}
    {carried : List BlockDelta} (rest : MessageRest opened index events carried) :
    match opened with
    | none => ∃ blocks ending, events = blockEvents index blocks ++ MessageEnding.events ending ∧
        carried = blocks.flatMap (·.deltas)
    | some block => ∃ deltas blocks ending, (∀ delta ∈ deltas, block.Takes delta) ∧
        events = deltas.map (.contentBlockDelta index) ++
          .contentBlockStop index :: (blockEvents (index + 1) blocks ++ MessageEnding.events ending) ∧
        carried = deltas ++ blocks.flatMap (·.deltas) := by
  induction rest with
  | ending index ending => exact ⟨[], ending, rfl, rfl⟩
  | @start index block events carried rest ih =>
    obtain ⟨deltas, blocks, ending, takes, rfl, rfl⟩ := ih
    refine ⟨⟨block, deltas, takes⟩ :: blocks, ending, ?_, by simp⟩
    simp [blockEvents, MessageBlock.events]
  | @delta index block events carried delta takes rest ih =>
    obtain ⟨deltas, blocks, ending, takesRest, rfl, rfl⟩ := ih
    exact ⟨delta :: deltas, blocks, ending, List.forall_mem_cons.mpr ⟨takes, takesRest⟩, by simp, by simp⟩
  | stop rest ih =>
    obtain ⟨blocks, ending, rfl, rfl⟩ := ih
    exact ⟨[], blocks, ending, by simp, by simp, by simp⟩

/-! ## The translator -/

def OpenBlock.Matches : OpenBlock → Option ContentBlock → Prop
  | .none, .none => True
  | .text, some .text => True
  | .thinking, some .thinking => True
  | .toolUse _, some (.toolUse _ _) => True
  | _, _ => False

namespace AnthropicTranslator

/-- The call whose block is open is the only one that is started, and nothing is open before the message starts. -/
structure Sound (t : AnthropicTranslator) : Prop where
  unfinished : t.finished = false
  calls : ∀ index, index ∈ t.toolStarted ↔ t.openBlock = .toolUse index

variable {errorMessage : String → Option String} {t : AnthropicTranslator} {block : Option ContentBlock}
  {events : List SseEvent} {carried : List BlockDelta}

theorem new_sound (model msgId : String) : (new model msgId).Sound where
  unfinished := rfl
  calls index := by simp [new]

def started (t : AnthropicTranslator) : AnthropicTranslator := { t with msgStarted := true }

theorem Sound.started (sound : t.Sound) : t.started.Sound := ⟨sound.unfinished, sound.calls⟩

@[simp] theorem ensureMessageStart_started (begun : t.msgStarted = true) : t.ensureMessageStart = (t, []) := by
  simp [ensureMessageStart, begun]

theorem ensureMessageStart_unstarted (unstarted : t.msgStarted = false) :
    t.ensureMessageStart = (t.started, [.messageStart t.msgId t.model t.promptTokens]) := by
  simp [ensureMessageStart, unstarted, AnthropicTranslator.started]

/-! ### The start of the message -/

theorem finish_unstarted (unstarted : t.msgStarted = false) (closing : List SseEvent) :
    t.finish closing = ((t.started.finish closing).1,
      .messageStart t.msgId t.model t.promptTokens :: (t.started.finish closing).2) := by
  have begun : t.started.msgStarted = true := rfl
  simp only [finish, ensureMessageStart_unstarted unstarted, ensureMessageStart_started begun]
  simp

/-- Before the message starts a delta is silent, or the start of the message comes before its other events. -/
theorem onDelta_unstarted (errorMessage : String → Option String) (unstarted : t.msgStarted = false)
    (unfinished : t.finished = false) (delta : StreamDelta) :
    t.onDelta errorMessage delta = (t, []) ∧ t.started.onDelta errorMessage delta = (t.started, []) ∨
      ∃ promptTokens, t.onDelta errorMessage delta = ((t.started.onDelta errorMessage delta).1,
        .messageStart t.msgId t.model promptTokens :: (t.started.onDelta errorMessage delta).2) := by
  have begun : t.started.msgStarted = true := rfl
  have unfinishedStarted : t.started.finished = false := unfinished
  cases delta with
  | reasoning text =>
    by_cases silent : text = ""
    · exact .inl ⟨by simp [onDelta, silent], by simp [onDelta, silent]⟩
    · refine .inr ⟨t.promptTokens, ?_⟩
      simp [onDelta, silent, ensureMessageStart_unstarted unstarted, ensureMessageStart_started begun]
  | content text =>
    by_cases silent : text = ""
    · exact .inl ⟨by simp [onDelta, silent], by simp [onDelta, silent]⟩
    · refine .inr ⟨t.promptTokens, ?_⟩
      simp [onDelta, silent, ensureMessageStart_unstarted unstarted, ensureMessageStart_started begun]
  | toolCallStart index id name =>
    refine .inr ⟨t.promptTokens, ?_⟩
    simp only [onDelta, ensureMessageStart_unstarted unstarted, ensureMessageStart_started begun]
    split <;> simp
  | toolCallArgs index fragment =>
    by_cases silent : fragment = ""
    · exact .inl ⟨by simp [onDelta, silent], by simp [onDelta, silent]⟩
    · refine .inr ⟨t.promptTokens, ?_⟩
      simp only [onDelta, silent, if_false, ensureMessageStart_unstarted unstarted, ensureMessageStart_started begun]
      split <;> simp
  | finish reason usage =>
    refine .inr ⟨usage.promptTokens, ?_⟩
    simp only [onDelta, unfinished, unfinishedStarted, Bool.false_eq_true, if_false]
    rw [finish_unstarted (by exact unstarted)]
    rfl
  | refusal text => exact .inl ⟨rfl, rfl⟩
  | error message =>
    refine .inr ⟨t.promptTokens, ?_⟩
    simp only [onDelta]
    exact finish_unstarted unstarted _

theorem translate_unstarted (errorMessage : String → Option String) (unstarted : t.msgStarted = false)
    (unfinished : t.finished = false) (deltas : List StreamDelta) : ∃ promptTokens, t.translate errorMessage deltas =
      .messageStart t.msgId t.model promptTokens :: t.started.translate errorMessage deltas := by
  induction deltas with
  | nil =>
    refine ⟨t.promptTokens, ?_⟩
    have unfinishedStarted : t.started.finished = false := unfinished
    simp only [translate, finalize, unfinished, unfinishedStarted, Bool.false_eq_true, if_false,
      finish_unstarted unstarted]
    rfl
  | cons delta deltas ih =>
    rcases onDelta_unstarted errorMessage unstarted unfinished delta with
      ⟨silent, silentStarted⟩ | ⟨promptTokens, emits⟩
    · obtain ⟨promptTokens, rest⟩ := ih
      refine ⟨promptTokens, ?_⟩
      simp only [translate, silent, silentStarted, List.nil_append]
      exact rest
    · refine ⟨promptTokens, ?_⟩
      simp only [translate, emits, List.cons_append]

/-! ### Blocks -/

theorem startBlock_rest (opens : t.openBlock.Matches block) (openBlock : OpenBlock) (new : ContentBlock)
    (rest : MessageRest (some new) (t.startBlock openBlock new).1.blockIdx events carried) :
    MessageRest block t.blockIdx ((t.startBlock openBlock new).2 ++ events) carried := by
  unfold startBlock closeOpenBlock at *
  cases current : t.openBlock with
  | none =>
    cases block with
    | none =>
      simp only [current] at rest ⊢
      exact .start rest
    | some block => simp [OpenBlock.Matches, current] at opens
  | text | thinking | toolUse _ =>
    cases block with
    | none => simp [OpenBlock.Matches, current] at opens
    | some block =>
      simp only [current] at rest ⊢
      exact .stop (.start rest)

theorem finish_rest (begun : t.msgStarted = true) (opens : t.openBlock.Matches block) (ending : MessageEnding) :
    MessageRest block t.blockIdx (t.finish ending.events).2 [] := by
  simp only [finish, ensureMessageStart_started begun, closeOpenBlock]
  cases current : t.openBlock with
  | none =>
    cases block with
    | none => exact .ending _ ending
    | some block => simp [OpenBlock.Matches, current] at opens
  | text | thinking | toolUse _ =>
    cases block with
    | none => simp [OpenBlock.Matches, current] at opens
    | some block => exact .stop (.ending _ ending)

theorem finish_finished (t : AnthropicTranslator) (closing : List SseEvent) : (t.finish closing).1.finished = true := rfl

theorem translate_finished (finished : t.finished = true) : t.translate errorMessage [] = [] := by
  simp [translate, finalize, finished]

@[simp] theorem startBlock_openBlock (openBlock : OpenBlock) (new : ContentBlock) :
    (t.startBlock openBlock new).1.openBlock = openBlock := rfl

@[simp] theorem startBlock_msgStarted (openBlock : OpenBlock) (new : ContentBlock) :
    (t.startBlock openBlock new).1.msgStarted = t.msgStarted := by
  unfold startBlock closeOpenBlock
  cases t.openBlock <;> rfl

@[simp] theorem startBlock_finished (openBlock : OpenBlock) (new : ContentBlock) :
    (t.startBlock openBlock new).1.finished = t.finished := by
  unfold startBlock closeOpenBlock
  cases t.openBlock <;> rfl

theorem Sound.startBlock_calls (sound : t.Sound) (openBlock : OpenBlock) (new : ContentBlock) :
    (t.startBlock openBlock new).1.toolStarted = ∅ := by
  have calls := sound.calls
  unfold startBlock closeOpenBlock
  cases current : t.openBlock with
  | none | text | thinking =>
    refine Finset.eq_empty_of_forall_notMem fun index => ?_
    rw [calls, current]
    simp
  | toolUse called =>
    refine Finset.eq_empty_of_forall_notMem fun index => ?_
    rw [Finset.mem_erase, calls, current, OpenBlock.toolUse.injEq]
    exact fun listed => listed.1 listed.2.symm

/-! ### Whole streams -/

/-- A text goes into the open block if that is of its kind, and else into a new one. -/
theorem Sound.text_rest (sound : t.Sound) (begun : t.msgStarted = true) (opens : t.openBlock.Matches block)
    {openBlock : OpenBlock} {new : ContentBlock} (delta : BlockDelta)
    (kind : openBlock = .thinking ∧ new = .thinking ∨ openBlock = .text ∧ new = .text) (takes : new.Takes delta) :
    ∃ opened start, (if t.openBlock = openBlock then (t, []) else t.startBlock openBlock new) = (opened, start) ∧
      opened.Sound ∧ opened.msgStarted = true ∧ opened.openBlock = openBlock ∧
      ∀ events carried, MessageRest (some new) opened.blockIdx events carried →
        MessageRest block t.blockIdx (start ++ [.contentBlockDelta opened.blockIdx delta] ++ events) (delta :: carried) := by
  by_cases same : t.openBlock = openBlock
  · refine ⟨t, [], if_pos same, sound, begun, same, fun events carried rest => ?_⟩
    have held : block = some new := by
      rcases kind with ⟨rfl, rfl⟩ | ⟨rfl, rfl⟩
      · rcases block with _ | _ | _ | _ <;> simp [OpenBlock.Matches, same] at opens ⊢
      · rcases block with _ | _ | _ | _ <;> simp [OpenBlock.Matches, same] at opens ⊢
    rw [held]
    exact .delta takes rest
  · refine ⟨(t.startBlock openBlock new).1, (t.startBlock openBlock new).2, if_neg same, ⟨?_, ?_⟩, ?_, rfl,
      fun events carried rest => ?_⟩
    · rw [startBlock_finished]
      exact sound.unfinished
    · intro index
      rw [sound.startBlock_calls, startBlock_openBlock]
      rcases kind with ⟨rfl, -⟩ | ⟨rfl, -⟩ <;> simp
    · rw [startBlock_msgStarted]
      exact begun
    · rw [List.append_assoc]
      exact startBlock_rest opens openBlock new (.delta takes rest)

/-- From any point of a message on, its events are a rest of a message and carry what is delivered. -/
theorem Sound.translate_rest (errorMessage : String → Option String) (sound : t.Sound) (begun : t.msgStarted = true)
    (opens : t.openBlock.Matches block) {deltas : List StreamDelta} (once : EndsOnce deltas) :
    MessageRest block t.blockIdx (t.translate errorMessage deltas) (delivered t.openBlock deltas) := by
  induction deltas generalizing t block with
  | nil =>
    simp only [translate, finalize, sound.unfinished, Bool.false_eq_true, if_false, delivered]
    exact finish_rest begun opens (.completed _ _)
  | cons delta deltas ih =>
    have later := once.tail
    rw [translate, delivered]
    cases delta with
    | reasoning text =>
      by_cases silent : text = ""
      · simp only [onDelta, StreamDelta.payload, StreamDelta.opens, if_pos silent, List.nil_append]
        exact ih sound begun opens later
      · obtain ⟨opened, start, starting, soundThen, begunThen, kind, rest⟩ :=
          sound.text_rest begun opens (.thinkingDelta text) (.inl ⟨rfl, rfl⟩) trivial
        simp only [onDelta, StreamDelta.payload, StreamDelta.opens, if_neg silent, ensureMessageStart_started begun,
          starting, List.nil_append, List.singleton_append]
        refine rest _ _ ?_
        rw [← kind]
        exact ih soundThen begunThen (by rw [kind]; trivial) later
    | content text =>
      by_cases silent : text = ""
      · simp only [onDelta, StreamDelta.payload, StreamDelta.opens, if_pos silent, List.nil_append]
        exact ih sound begun opens later
      · obtain ⟨opened, start, starting, soundThen, begunThen, kind, rest⟩ :=
          sound.text_rest begun opens (.textDelta text) (.inr ⟨rfl, rfl⟩) trivial
        simp only [onDelta, StreamDelta.payload, StreamDelta.opens, if_neg silent, ensureMessageStart_started begun,
          starting, List.nil_append, List.singleton_append]
        refine rest _ _ ?_
        rw [← kind]
        exact ih soundThen begunThen (by rw [kind]; trivial) later
    | toolCallStart index id name =>
      simp only [onDelta, StreamDelta.payload, StreamDelta.opens, ensureMessageStart_started begun, List.nil_append]
      by_cases called : t.openBlock = .toolUse index
      · have known : ¬(index ∉ t.toolStarted ∧ t.openBlock ≠ .toolUse index) := fun fresh => fresh.2 called
        simp only [if_neg known, List.nil_append]
        rw [← called]
        exact ih sound begun opens later
      · have fresh : index ∉ t.toolStarted ∧ t.openBlock ≠ .toolUse index :=
          ⟨fun listed => called ((sound.calls index).mp listed), called⟩
        simp only [if_pos fresh]
        refine startBlock_rest opens (.toolUse index) (.toolUse id name) ?_
        refine ih (t := { (t.startBlock (.toolUse index) (.toolUse id name)).1 with
          toolStarted := insert index (t.startBlock (.toolUse index) (.toolUse id name)).1.toolStarted })
          ⟨?_, ?_⟩ ?_ trivial later
        · rw [← sound.unfinished]
          exact startBlock_finished (.toolUse index) (.toolUse id name)
        · intro other
          simp only [sound.startBlock_calls, startBlock_openBlock, OpenBlock.toolUse.injEq]
          simp [eq_comm]
        · rw [← begun]
          exact startBlock_msgStarted (.toolUse index) (.toolUse id name)
    | toolCallArgs index fragment =>
      by_cases silent : fragment = ""
      · simp only [onDelta, StreamDelta.payload, StreamDelta.opens, ne_eq, silent, not_true_eq_false, false_and,
          if_true, if_false, List.nil_append]
        exact ih sound begun opens later
      · simp only [onDelta, StreamDelta.payload, StreamDelta.opens, if_neg silent, ensureMessageStart_started begun,
          List.nil_append]
        by_cases called : t.openBlock = .toolUse index
        · have carries : fragment ≠ "" ∧ t.openBlock = .toolUse index := ⟨silent, called⟩
          simp only [if_pos called, if_pos carries, List.singleton_append]
          have rest := ih sound begun opens later
          rw [called] at opens
          rcases block with _ | _ | _ | ⟨id, name⟩
          · simp [OpenBlock.Matches] at opens
          · simp [OpenBlock.Matches] at opens
          · simp [OpenBlock.Matches] at opens
          · exact .delta trivial rest
        · have lost : ¬(fragment ≠ "" ∧ t.openBlock = .toolUse index) := fun carries => called carries.2
          simp only [if_neg called, if_neg lost, List.nil_append]
          exact ih sound begun opens later
    | finish reason usage =>
      obtain rfl : deltas = [] := once [] _ deltas rfl trivial
      have notYet : ¬t.finished = true := by simp [sound.unfinished]
      simp only [onDelta, if_neg notYet, StreamDelta.payload, delivered, List.append_nil]
      rw [translate_finished (finish_finished _ _), List.append_nil]
      let counted : AnthropicTranslator := { t with
        promptTokens := usage.promptTokens
        completionTokens := usage.completionTokens
        cachedPromptTokens := usage.cachedPromptTokens }
      exact finish_rest (t := counted) begun opens (.completed _ counted.finalUsage)
    | refusal text =>
      simp only [onDelta, StreamDelta.payload, StreamDelta.opens, List.nil_append]
      exact ih sound begun opens later
    | error message =>
      obtain rfl : deltas = [] := once [] _ deltas rfl trivial
      simp only [onDelta, StreamDelta.payload, delivered, List.append_nil]
      rw [translate_finished (finish_finished _ _), List.append_nil]
      exact finish_rest begun opens (.failed _)

/-- A stream is one start, blocks numbered from zero, and one ending, and its blocks carry what is delivered, in
order. -/
theorem translate_shape (errorMessage : String → Option String) (model msgId : String) (deltas : List StreamDelta)
    (once : EndsOnce deltas) : ∃ promptTokens blocks ending,
      (new model msgId).translate errorMessage deltas =
        .messageStart msgId model promptTokens :: (blockEvents 0 blocks ++ MessageEnding.events ending) ∧
      blocks.flatMap (·.deltas) = delivered .none deltas := by
  obtain ⟨promptTokens, starts⟩ :=
    translate_unstarted (t := new model msgId) errorMessage rfl rfl deltas
  have nothing : (new model msgId).started.openBlock.Matches none := trivial
  have rest := (new_sound model msgId).started.translate_rest errorMessage rfl nothing once
  obtain ⟨blocks, ending, events, carried⟩ := rest.blocks
  exact ⟨promptTokens, blocks, ending, by rw [starts, events]; rfl, carried.symm⟩

/-- A turn of thinking, a call in two fragments, and the finish. -/
theorem translate_shape_turn : ∃ promptTokens blocks ending,
    (new "m" "msg_0").translate some ([.reasoning "why", .toolCallStart 0 "call_0" "look", .toolCallArgs 0 "1",
        .toolCallArgs 0 "2"] ++ [.finish .toolCalls ⟨7, 5, 0, 1, 0⟩]) =
      .messageStart "msg_0" "m" promptTokens :: (blockEvents 0 blocks ++ MessageEnding.events ending) ∧
    blocks.flatMap (·.deltas) = delivered .none ([.reasoning "why", .toolCallStart 0 "call_0" "look",
      .toolCallArgs 0 "1", .toolCallArgs 0 "2"] ++ [.finish .toolCalls ⟨7, 5, 0, 1, 0⟩]) :=
  translate_shape some "m" "msg_0" _ (endsOnce_of_last _ (by simp [StreamDelta.Ends]))

/-- A fragment of the open call is not delivered when it is empty. -/
theorem empty_fragment_dropped : ¬∀ (deltas earlier later : List StreamDelta) (index : Nat) (fragment : String),
    EndsOnce deltas → deltas = earlier ++ .toolCallArgs index fragment :: later →
    earlier.foldl StreamDelta.opens .none = .toolUse index →
    ∃ place, .contentBlockDelta place (.inputJsonDelta fragment) ∈ (new "m" "msg_0").translate some deltas := by
  intro always
  have once : EndsOnce ([.toolCallStart 0 "call_0" "look"] ++ [.toolCallArgs 0 ""]) :=
    endsOnce_of_last _ (by simp [StreamDelta.Ends])
  obtain ⟨place, listed⟩ := always _ [.toolCallStart 0 "call_0" "look"] [] 0 "" once rfl rfl
  have events : (new "m" "msg_0").translate some ([.toolCallStart 0 "call_0" "look"] ++ [.toolCallArgs 0 ""]) =
      [.messageStart "msg_0" "m" 0, .contentBlockStart 0 (.toolUse "call_0" "look"), .contentBlockStop 0,
        .messageDelta "max_tokens" ⟨0, 0, 0⟩, .messageStop] := by
    decide
  rw [events] at listed
  simp at listed

end AnthropicTranslator

end Metrale.Server
