import Metrale.Foundation.TextSearch
import Metrale.Server.StoredMessages

/-! # What the prompt has of a message (`openai/to_ir.rs`, `ir/message.rs`, `api/chat/msg_entry.rs`)

A message as it comes is lowered, and the template is given an entry of each lowered message; the hints and the media of a
prompt come from its entries. -/

namespace Metrale.Server

open Metrale.Foundation

/-! ## Lowered messages -/

namespace Ir

inductive Role where
  | system
  | user
  | assistant
  | tool
  | other (role : String)
deriving DecidableEq

def Role.asWire : Role → String
  | system => "system"
  | user => "user"
  | assistant => "assistant"
  | tool => "tool"
  | other role => role

def Role.fromWire (role : String) : Option Role :=
  if role = "system" then some system
  else if role = "user" then some user
  else if role = "assistant" then some assistant
  else if role = "tool" then some tool
  else none

def Role.ofString (role : String) : Role := (fromWire role).getD (other role)

inductive ImageData where
  | url (uri : String)
  | base64 (text : String)
deriving DecidableEq

def ImageData.fromUri (uri : String) : ImageData :=
  if "http://".toList.isPrefixOf uri.toList || "https://".toList.isPrefixOf uri.toList then url uri else base64 uri

inductive ContentPart where
  | text (text : String)
  | media (kind : MediaKind) (data : ImageData)
deriving DecidableEq

def ContentPart.pushTo (out : String) : ContentPart → String
  | text more => out ++ more
  | media _ _ => out

def ContentPart.asMedia : ContentPart → Option (MediaKind × ImageData)
  | text _ => none
  | media kind data => some (kind, data)

structure ToolCall where
  id : String
  name : String
  arguments : Value

structure Message where
  role : Role
  content : List ContentPart
  toolCalls : List ToolCall
  toolCallId : Option String
  name : Option String
  reasoning : Option String
  toolError : Bool

/-- The lowering of a message: its media in their order, and the text behind them. -/
def Message.ofIncoming (fromStr : String → Option Value) (message : IncomingMessage) : Message where
  role := .ofString message.role
  content := (message.content.media.map fun item => .media item.kind (.fromUri item.uri)) ++
    if message.content.text = "" then [] else [.text message.content.text]
  toolCalls := (message.toolCalls.getD []).map fun call =>
    ⟨call.id.getD "", call.function.name, (fromStr call.function.arguments).getD (.object [])⟩
  toolCallId := message.toolCallId
  name := message.name
  reasoning := message.reasoningContent
  toolError := false

def Message.text (message : Message) : String := message.content.foldl ContentPart.pushTo ""

def Message.media (message : Message) : List (MediaKind × ImageData) := message.content.filterMap ContentPart.asMedia

end Ir

/-! ## Entries -/

/-- What of the request decides the entries: whether it has tools, whether the tokenizer keeps the role `developer`, and
whether earlier reasoning is stripped. -/
structure EntrySettings where
  toolsActive : Bool
  preserveDeveloperRole : Bool
  stripReasoning : Bool

/-- The entry of a message, and with each of its media the data that the pixels are made of. -/
structure MsgEntry where
  role : String
  content : String
  toolCalls : Option (List Ir.ToolCall)
  toolCallId : Option String
  media : List (MediaKind × Ir.ImageData)
  reasoningContent : Option String

/-- `trim`, and `None` when nothing is left -/
def trimmedReasoning (reasoning : Option String) : Option String :=
  (reasoning.map fun text => String.ofList (trim text.toList)).filter (· ≠ "")

/-- One round of the loop of `build_msg_entries`, before the hints. -/
def Ir.Message.entry (settings : EntrySettings) (message : Message) : MsgEntry :=
  let text := if message.toolError then "[tool error]\n" ++ message.text else message.text
  if settings.toolsActive && message.role = .tool then
    ⟨"tool", text, none, message.toolCallId, message.media, none⟩
  else
    { role :=
        if message.role = .other "developer" && !settings.preserveDeveloperRole then "system" else message.role.asWire
      content := text
      toolCalls := if message.role = .assistant && !message.toolCalls.isEmpty then some message.toolCalls else none
      toolCallId := message.toolCallId
      media := message.media
      reasoningContent :=
        if message.role = .assistant && !settings.stripReasoning then trimmedReasoning message.reasoning else none }

def promptEntries (fromStr : String → Option Value) (settings : EntrySettings) (messages : List IncomingMessage) :
    List MsgEntry :=
  messages.map fun message => (Ir.Message.ofIncoming fromStr message).entry settings

/-! ## Stored messages -/

def MsgEntry.stored (entry : MsgEntry) : MsgEntry :=
  { entry with media := entry.media.filter (·.1 = .image), reasoningContent := none }

def MsgEntry.Storable (entry : MsgEntry) : Prop := (∀ item ∈ entry.media, item.1 = .image) ∧ entry.reasoningContent = none

variable {fromStr : String → Option Value} {settings : EntrySettings}

theorem Ir.media_ofIncoming (message : IncomingMessage) : (Message.ofIncoming fromStr message).media =
    message.content.media.map fun item => (item.kind, ImageData.fromUri item.uri) := by
  have textless : (if message.content.text = "" then [] else [ContentPart.text message.content.text]).filterMap
      ContentPart.asMedia = [] := by
    split <;> rfl
  simp only [Message.media, Message.ofIncoming, List.filterMap_append, textless, List.append_nil, List.filterMap_map]
  induction message.content.media with
  | nil => rfl
  | cons item items ih => simpa [ContentPart.asMedia] using ih

theorem Ir.text_ofIncoming (message : IncomingMessage) : (Message.ofIncoming fromStr message).text = message.content.text := by
  have silent : ∀ items : List MediaRef, (items.map fun item => ContentPart.media item.kind (ImageData.fromUri item.uri)).foldl
      ContentPart.pushTo "" = "" := by
    intro items
    induction items with
    | nil => rfl
    | cons item items ih => exact ih
  simp only [Message.text, Message.ofIncoming, List.foldl_append, silent]
  split
  · next empty => simp [empty]
  · simp [ContentPart.pushTo]

theorem Ir.ofString_eq_assistant {role : String} : Role.ofString role = .assistant ↔ role = "assistant" := by
  unfold Role.ofString Role.fromWire
  grind

/-- What is read back of a message has the entry of the message, without what is not stored. -/
theorem entry_onDisk (message : IncomingMessage) :
    (Ir.Message.ofIncoming fromStr message.onDisk).entry settings =
      ((Ir.Message.ofIncoming fromStr message).entry settings).stored := by
  have text : (Ir.Message.ofIncoming fromStr message.onDisk).text = (Ir.Message.ofIncoming fromStr message).text := by
    rw [Ir.text_ofIncoming, Ir.text_ofIncoming]
    rfl
  have media : (Ir.Message.ofIncoming fromStr message.onDisk).media =
      (Ir.Message.ofIncoming fromStr message).media.filter (·.1 = .image) := by
    rw [Ir.media_ofIncoming, Ir.media_ofIncoming]
    simp only [IncomingMessage.onDisk, ParsedContent.images]
    induction message.content.media with
    | nil => rfl
    | cons item items ih =>
      cases kind : item.kind with
      | image => simpa [kind] using ih
      | video => simpa [kind] using ih
  have role : (Ir.Message.ofIncoming fromStr message.onDisk).role = (Ir.Message.ofIncoming fromStr message).role := rfl
  have calls : (Ir.Message.ofIncoming fromStr message.onDisk).toolCalls = (Ir.Message.ofIncoming fromStr message).toolCalls :=
    rfl
  have callId : (Ir.Message.ofIncoming fromStr message.onDisk).toolCallId =
      (Ir.Message.ofIncoming fromStr message).toolCallId := rfl
  have failed : (Ir.Message.ofIncoming fromStr message.onDisk).toolError =
      (Ir.Message.ofIncoming fromStr message).toolError := rfl
  have reasoning : (Ir.Message.ofIncoming fromStr message.onDisk).reasoning = none := rfl
  simp only [Ir.Message.entry, text, media, role, calls, callId, failed, reasoning]
  split
  · rfl
  · simp [MsgEntry.stored, trimmedReasoning]

theorem MsgEntry.stored_eq_self {entry : MsgEntry} : entry.stored = entry ↔ entry.Storable := by
  constructor
  · intro same
    have media : entry.media.filter (·.1 = .image) = entry.media := congrArg MsgEntry.media same
    have reasoning : none = entry.reasoningContent := congrArg MsgEntry.reasoningContent same
    exact ⟨by simpa using List.filter_eq_self.mp media, reasoning.symm⟩
  · intro storable
    have media : entry.media.filter (·.1 = .image) = entry.media :=
      List.filter_eq_self.mpr (by simpa using storable.1)
    rw [stored, media, ← storable.2]

def IncomingMessage.Storable (settings : EntrySettings) (message : IncomingMessage) : Prop :=
  (∀ item ∈ message.content.media, item.kind = .image) ∧
    (message.role = "assistant" → settings.stripReasoning = false → trimmedReasoning message.reasoningContent = none)

theorem storable_entry (message : IncomingMessage) :
    ((Ir.Message.ofIncoming fromStr message).entry settings).Storable ↔ message.Storable settings := by
  have media : ((Ir.Message.ofIncoming fromStr message).entry settings).media =
      message.content.media.map fun item => (item.kind, Ir.ImageData.fromUri item.uri) := by
    have read : (Ir.Message.ofIncoming fromStr message).media = _ := Ir.media_ofIncoming message
    rw [← read, Ir.Message.entry]
    split <;> rfl
  have reasoning : ((Ir.Message.ofIncoming fromStr message).entry settings).reasoningContent = none ↔
      (message.role = "assistant" → settings.stripReasoning = false → trimmedReasoning message.reasoningContent = none) := by
    have role : (Ir.Message.ofIncoming fromStr message).role = .assistant ↔ message.role = "assistant" :=
      Ir.ofString_eq_assistant
    have kept : (Ir.Message.ofIncoming fromStr message).reasoning = message.reasoningContent := rfl
    rw [Ir.Message.entry, ← role, ← kept]
    split
    · next answers =>
      have other : (Ir.Message.ofIncoming fromStr message).role = .tool := by simp_all
      simp [other]
    · simp only
      split
      · next carried => simp_all
      · next dropped =>
        simp only [Bool.and_eq_true, decide_eq_true_eq, Bool.not_eq_true', not_and, Bool.not_eq_false] at dropped
        simp only [true_iff]
        intro assistant unstripped
        rw [dropped assistant] at unstripped
        cases unstripped
  rw [MsgEntry.Storable, IncomingMessage.Storable, media, reasoning]
  simp

/-- Messages that are read back give the template the entries of the originals, without their videos and their reasoning;
and so the entries themselves just where the originals have neither. -/
theorem stored_messages_prompt (fromStr : String → Option Value) (settings : EntrySettings)
    (messages : List IncomingMessage) : ∃ back, messagesFromValue (messagesToDiskJson messages) = some back ∧
      promptEntries fromStr settings back = (promptEntries fromStr settings messages).map (·.stored) ∧
      (promptEntries fromStr settings back = promptEntries fromStr settings messages ↔
        ∀ message ∈ messages, message.Storable settings) := by
  have entries : promptEntries fromStr settings (messages.map (·.onDisk)) =
      (promptEntries fromStr settings messages).map (·.stored) := by
    simp only [promptEntries, List.map_map]
    exact List.map_congr_left fun message _ => entry_onDisk message
  refine ⟨messages.map (·.onDisk), messages_back messages, entries, ?_⟩
  rw [entries]
  have each : (promptEntries fromStr settings messages).map (·.stored) = promptEntries fromStr settings messages ↔
      ∀ entry ∈ promptEntries fromStr settings messages, entry.stored = entry := by
    conv_lhs => rhs; rw [← List.map_id (promptEntries fromStr settings messages)]
    exact List.map_inj_left
  rw [each]
  simp only [promptEntries, List.forall_mem_map, MsgEntry.stored_eq_self, storable_entry]

/-- A question about a clip, whose clip is not stored. -/
theorem stored_video_lost : ¬∀ (fromStr : String → Option Value) (settings : EntrySettings)
    (messages back : List IncomingMessage), messagesFromValue (messagesToDiskJson messages) = some back →
    promptEntries fromStr settings back = promptEntries fromStr settings messages := by
  intro same
  have entries := same (fun _ => none) ⟨false, false, false⟩
    [⟨"user", ⟨"What is in it?", [⟨.video, "data:video/mp4;base64,AAAA"⟩]⟩, none, none, none, none⟩] _ (messages_back _)
  have kinds := congrArg (List.map fun entry => entry.media.length) entries
  simp only [promptEntries, List.map_cons, List.map_nil, entry_onDisk] at kinds
  revert kinds
  decide

end Metrale.Server
