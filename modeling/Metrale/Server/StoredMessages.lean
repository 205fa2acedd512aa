import Metrale.Server.ConversationStore

/-! # Stored messages (`openai/chat_message.rs`, `response_store.rs`, `ids.rs`)

A message as it is kept in memory, the JSON that it is written as, and the message that is read from such JSON.  A
struct is read from an object only; this program writes no other form. -/

namespace Metrale.Server

inductive MediaKind where
  | image
  | video
deriving DecidableEq

structure MediaRef where
  kind : MediaKind
  uri : String
deriving DecidableEq

structure ParsedContent where
  text : String
  media : List MediaRef
deriving DecidableEq

structure IncomingFunction where
  name : String
  arguments : String
deriving DecidableEq

structure IncomingToolCall where
  id : Option String
  function : IncomingFunction
deriving DecidableEq

structure IncomingMessage where
  role : String
  content : ParsedContent
  toolCalls : Option (List IncomingToolCall)
  toolCallId : Option String
  name : Option String
  reasoningContent : Option String
deriving DecidableEq

namespace ParsedContent

def empty : ParsedContent := ⟨"", []⟩

def images (content : ParsedContent) : List String := (content.media.filter (·.kind = .image)).map (·.uri)

def hasImages (content : ParsedContent) : Bool := !content.images.isEmpty

end ParsedContent

/-! ## To JSON -/

def IncomingToolCall.toValue (call : IncomingToolCall) : Value :=
  .object [("id", (call.id.map Value.string).getD .null),
    ("function", .object [("name", .string call.function.name), ("arguments", .string call.function.arguments)])]

def textPart (text : String) : Value := .object [("type", .string "text"), ("text", .string text)]

def imagePart (uri : String) : Value :=
  .object [("type", .string "image_url"), ("image_url", .object [("url", .string uri)])]

def ParsedContent.toValue (content : ParsedContent) : Value :=
  if !content.hasImages then .string content.text
  else .array ((if content.text = "" then [] else [textPart content.text]) ++ content.images.map imagePart)

def IncomingMessage.toValue (message : IncomingMessage) : Value :=
  .object ([("role", .string message.role), ("content", message.content.toValue)] ++
    (message.toolCalls.map fun calls => ("tool_calls", Value.array (calls.map (·.toValue)))).toList ++
    (message.toolCallId.map fun id => ("tool_call_id", Value.string id)).toList ++
    (message.name.map fun name => ("name", Value.string name)).toList)

def messagesToDiskJson (messages : List IncomingMessage) : Value := .array (messages.map (·.toValue))

/-! ## From JSON -/

/-- A field of type `Option<T>`: it may be missing or `null`. -/
def optionalField {Field : Type} (value : Value) (key : String) (read : Value → Option Field) : Option (Option Field) :=
  match value.get key with
  | none | some .null => some none
  | some field => (read field).map some

def arrayOf {Field : Type} (read : Value → Option Field) : Value → Option (List Field)
  | .array items => items.mapM read
  | _ => none

/-- `ImageUrl`, `Url` -/
def urlField (value : Value) : Option String := (value.get "url").bind Value.asStr

def urlOrString (value : Value) : Option String := (urlField value).or value.asStr

structure ContentPart where
  kind : String
  text : Option String
  imageUrl : Option String
  videoUrl : Option String
  video : Option String

def ContentPart.ofValue (value : Value) : Option ContentPart := do
  let kind ← (value.get "type").bind Value.asStr
  let text ← optionalField value "text" Value.asStr
  let imageUrl ← optionalField value "image_url" urlField
  let videoUrl ← optionalField value "video_url" urlField
  let video ← optionalField value "video" urlOrString
  some ⟨kind, text, imageUrl, videoUrl, video⟩

/-- One round of the loop over the parts; a part of another kind is passed over. -/
def ParsedContent.addPart (content : ParsedContent) (part : ContentPart) : ParsedContent :=
  if part.kind = "text" then { content with text := content.text ++ part.text.getD "" }
  else if part.kind = "image_url" then
    { content with media := content.media ++ (part.imageUrl.map (MediaRef.mk .image)).toList }
  else if part.kind = "video_url" ∨ part.kind = "video" ∨ part.kind = "input_video" then
    { content with media := content.media ++ ((part.videoUrl.or part.video).map (MediaRef.mk .video)).toList }
  else content

/-- `deserialize_message_content` -/
def ParsedContent.ofValue : Value → Option ParsedContent
  | .string text => some ⟨text, []⟩
  | .null => some .empty
  | .array parts => (parts.mapM ContentPart.ofValue).map fun parts => parts.foldl ParsedContent.addPart .empty
  | _ => none

def IncomingFunction.ofValue (value : Value) : Option IncomingFunction := do
  let name ← (value.get "name").bind Value.asStr
  let arguments ← (value.get "arguments").bind Value.asStr
  some ⟨name, arguments⟩

def IncomingToolCall.ofValue (value : Value) : Option IncomingToolCall := do
  let id ← optionalField value "id" Value.asStr
  let function ← (value.get "function").bind IncomingFunction.ofValue
  some ⟨id, function⟩

/-- `reasoning` is another name of the field; a message with both is refused. -/
def reasoningField (value : Value) : Option (Option String) :=
  if (value.get "reasoning_content").isSome && (value.get "reasoning").isSome then none
  else if (value.get "reasoning_content").isSome then optionalField value "reasoning_content" Value.asStr
  else optionalField value "reasoning" Value.asStr

def IncomingMessage.ofValue (value : Value) : Option IncomingMessage := do
  let role ← (value.get "role").bind Value.asStr
  let content ← match value.get "content" with
    | none => some ParsedContent.empty
    | some content => ParsedContent.ofValue content
  let toolCalls ← optionalField value "tool_calls" (arrayOf IncomingToolCall.ofValue)
  let toolCallId ← optionalField value "tool_call_id" Value.asStr
  let name ← optionalField value "name" Value.asStr
  let reasoningContent ← reasoningField value
  some ⟨role, content, toolCalls, toolCallId, name, reasoningContent⟩

def messagesFromValue : Value → Option (List IncomingMessage) := arrayOf IncomingMessage.ofValue

/-! ## There and back -/

/-- What is written of a message: its images and no videos, and no reasoning. -/
def IncomingMessage.onDisk (message : IncomingMessage) : IncomingMessage :=
  { message with
    content := { message.content with media := message.content.images.map (MediaRef.mk .image) }
    reasoningContent := none }

theorem mapM_written {Written Read : Type} {write : Written → Value} {read : Value → Option Read} (image : Written → Read)
    (back : ∀ item, read (write item) = some (image item)) (items : List Written) :
    (items.map write).mapM read = some (items.map image) := by
  induction items with
  | nil => rfl
  | cons item items ih => simp [back, ih]

theorem toolCall_back (call : IncomingToolCall) : IncomingToolCall.ofValue call.toValue = some call := by
  obtain ⟨id, name, arguments⟩ := call
  cases id with
  | none => rfl
  | some id => rfl

theorem textPart_back (text : String) :
    ContentPart.ofValue (textPart text) = some ⟨"text", some text, none, none, none⟩ := rfl

theorem imagePart_back (uri : String) :
    ContentPart.ofValue (imagePart uri) = some ⟨"image_url", none, some uri, none, none⟩ := rfl

theorem addPart_text (content : ParsedContent) (text : String) :
    content.addPart ⟨"text", some text, none, none, none⟩ = { content with text := content.text ++ text } := rfl

theorem addPart_images (uris : List String) (content : ParsedContent) :
    (uris.map fun uri => ContentPart.mk "image_url" none (some uri) none none).foldl ParsedContent.addPart content =
      { content with media := content.media ++ uris.map (MediaRef.mk .image) } := by
  induction uris generalizing content with
  | nil => simp
  | cons uri uris ih =>
    have first : content.addPart ⟨"image_url", none, some uri, none, none⟩ =
        { content with media := content.media ++ [⟨.image, uri⟩] } := rfl
    simp [first, ih]

theorem content_back (content : ParsedContent) :
    ParsedContent.ofValue content.toValue =
      some { content with media := content.images.map (MediaRef.mk .image) } := by
  unfold ParsedContent.toValue
  split
  · next plain =>
    have none : content.images = [] := by simpa [ParsedContent.hasImages] using plain
    simp [ParsedContent.ofValue, none]
  · have images := mapM_written _ imagePart_back content.images
    split
    · next silent =>
      rw [List.nil_append, ParsedContent.ofValue, images, Option.map_some, addPart_images]
      simp [ParsedContent.empty, silent]
    · have parts : (textPart content.text :: content.images.map imagePart).mapM ContentPart.ofValue =
          some (⟨"text", some content.text, none, none, none⟩ ::
            content.images.map fun uri => ContentPart.mk "image_url" none (some uri) none none) := by
        rw [List.mapM_cons, textPart_back, images]
        rfl
      rw [List.singleton_append, ParsedContent.ofValue, parts, Option.map_some, List.foldl_cons, addPart_text,
        addPart_images]
      simp [ParsedContent.empty]

theorem message_back (message : IncomingMessage) : IncomingMessage.ofValue message.toValue = some message.onDisk := by
  obtain ⟨role, content, toolCalls, toolCallId, name, reasoningContent⟩ := message
  have calls := mapM_written id toolCall_back
  cases toolCalls <;> cases toolCallId <;> cases name <;>
    simp [IncomingMessage.ofValue, IncomingMessage.toValue, Value.get, Value.asStr, content_back, optionalField,
      reasoningField, arrayOf, calls, IncomingMessage.onDisk]

/-- The messages of a stored response come back without their videos and their reasoning. -/
theorem messages_back (messages : List IncomingMessage) :
    messagesFromValue (messagesToDiskJson messages) = some (messages.map (·.onDisk)) :=
  mapM_written _ message_back messages

/-! ## Ids and file names -/

inductive StoredKind where
  | response
  | chatCompletion
deriving DecidableEq

def StoredKind.idPrefix : StoredKind → String
  | .response => "resp_"
  | .chatCompletion => "chatcmpl-"

def maxStem : Nat := 96

def safeChar (c : Char) : Bool := c.isAlphanum || c == '-' || c == '_'

def sanitizeId (id : String) : String :=
  String.ofList ((id.toList.take maxStem).map fun c => if safeChar c then c else '_')

def hexDigit (n : Nat) : Char := if n < 10 then Char.ofNat (48 + n) else Char.ofNat (87 + n)

/-- `{:02x}` of each byte. -/
def hexBytes (bytes : List UInt8) : List Char := bytes.flatMap fun b => [hexDigit (b.toNat / 16), hexDigit (b.toNat % 16)]

/-- The text that `uuid_v4` gives to its sixteen bytes, wherever it has them from. -/
def uuidText (bytes : List UInt8) : List Char :=
  hexBytes (bytes.take 4) ++ '-' :: hexBytes ((bytes.drop 4).take 2) ++ '-' :: hexBytes ((bytes.drop 6).take 2) ++
    '-' :: hexBytes ((bytes.drop 8).take 2) ++ '-' :: hexBytes (bytes.drop 10)

def mintId (kind : StoredKind) (bytes : List UInt8) : String := kind.idPrefix ++ String.ofList (uuidText bytes)

theorem safe_hexDigit {n : Nat} (digit : n < 16) : safeChar (hexDigit n) = true := by
  have each : ∀ n : Fin 16, safeChar (hexDigit n) = true := by decide
  exact each ⟨n, digit⟩

theorem safe_hexBytes (bytes : List UInt8) : ∀ c ∈ hexBytes bytes, safeChar c = true := by
  intro c present
  obtain ⟨b, -, digit⟩ := List.mem_flatMap.mp present
  have small := b.toNat_lt
  obtain rfl | rfl : c = hexDigit (b.toNat / 16) ∨ c = hexDigit (b.toNat % 16) := by simpa using digit
  · apply safe_hexDigit
    omega
  · apply safe_hexDigit
    omega

theorem length_hexBytes (bytes : List UInt8) : (hexBytes bytes).length = 2 * bytes.length := by
  induction bytes with
  | nil => rfl
  | cons b bytes ih =>
    simp only [hexBytes, List.flatMap_cons, List.length_append, List.length_cons, List.length_nil] at ih ⊢
    omega

theorem safe_mintId (kind : StoredKind) (bytes : List UInt8) : ∀ c ∈ (mintId kind bytes).toList, safeChar c = true := by
  intro c present
  have dash : safeChar '-' = true := by decide
  have fixed : kind.idPrefix.toList.all safeChar = true := by
    cases kind with
    | response => rfl
    | chatCompletion => rfl
  simp only [mintId, uuidText, String.toList_append, String.toList_ofList, List.mem_append, List.mem_cons] at present
  obtain inPrefix | (((inFirst | rfl | inSecond) | rfl | inThird) | rfl | inFourth) | rfl | inFifth := present
  · exact List.all_eq_true.mp fixed c inPrefix
  all_goals first | exact dash | exact safe_hexBytes _ c ‹_›

theorem length_mintId (kind : StoredKind) {bytes : List UInt8} (sixteen : bytes.length = 16) :
    (mintId kind bytes).toList.length ≤ maxStem := by
  have fixed : kind.idPrefix.toList.length ≤ 9 := by cases kind <;> decide
  simp only [mintId, uuidText, String.toList_append, String.toList_ofList, List.length_append, List.length_cons,
    length_hexBytes, List.length_take, List.length_drop, sixteen, maxStem]
  omega

theorem sanitizeId_mintId (kind : StoredKind) {bytes : List UInt8} (sixteen : bytes.length = 16) :
    sanitizeId (mintId kind bytes) = mintId kind bytes := by
  have kept : (mintId kind bytes).toList.map (fun c => if safeChar c then c else '_') = (mintId kind bytes).toList := by
    calc (mintId kind bytes).toList.map (fun c => if safeChar c then c else '_')
        = (mintId kind bytes).toList.map id := List.map_congr_left fun c present => if_pos (safe_mintId kind bytes c present)
      _ = (mintId kind bytes).toList := List.map_id _
  rw [sanitizeId, List.take_of_length_le (length_mintId kind sixteen), kept, String.ofList_toList]

end Metrale.Server
