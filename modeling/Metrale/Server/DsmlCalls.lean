import Metrale.Server.StoredMessages
import Metrale.Server.ToolDetector

/-! # DSML calls (`tool_parser/deepseek_v4_dsml.rs`)

The rendering of earlier calls, and the blocking parse.  `fromStr` and `toText` are `serde_json`; `toolCallId` gives the ids
in turn. -/

namespace Metrale.Server

open Metrale.Foundation

def dsmlInvokeOpen : Text := "<｜DSML｜invoke name=\"".toList
def dsmlInvokeClose : Text := "</｜DSML｜invoke>".toList
def dsmlParamOpen : Text := "<｜DSML｜parameter name=\"".toList
def dsmlParamClose : Text := "</｜DSML｜parameter>".toList

def nameEnd : Text := "\" string=\"".toList
def stringEnd : Text := "\">".toList
def headerEnd : Text := "\">\n".toList

section Format

variable (fromStr : Text → Option Value) (toText : Value → Text)

/-- The arguments of a call; no object where they do not parse. -/
def callArguments (call : IncomingToolCall) : Value := (fromStr call.function.arguments.toList).getD (.object [])

def formatValue : Value → Text × Text
  | .string value => ("true".toList, value.toList)
  | value => ("false".toList, toText value)

def formatParameter (entry : String × Value) : Text :=
  let (string, value) := formatValue toText entry.2
  dsmlParamOpen ++ entry.1.toList ++ nameEnd ++ string ++ stringEnd ++ value ++ dsmlParamClose

def formatInvoke (call : IncomingToolCall) : Text :=
  let params :=
    match callArguments fromStr call with
    | .object entries => entries.map (formatParameter toText)
    | _ => []
  dsmlInvokeOpen ++ call.function.name.toList ++ headerEnd ++ ['\n'].intercalate params ++ ['\n'] ++ dsmlInvokeClose

def formatToolCalls (calls : List IncomingToolCall) : Text :=
  dsmlOpen ++ ['\n'] ++ ['\n'].intercalate (calls.map (formatInvoke fromStr toText)) ++ ['\n'] ++ dsmlClose

end Format

section Parse

variable (fromStr : Text → Option Value) (toText : Value → Text) (toolCallId : Nat → Text)

/-- The value of a parameter; `none` where the string flag is neither of the two. -/
def parseValue (isString raw : Text) : Option Value :=
  if isString = "true".toList then some (.string (String.ofList raw))
  else if isString = "false".toList then fromStr raw
  else none

/-- The parameter at the front, and what is behind it. -/
def parseParameter (rest : Text) : Option (String × Value × Text) := do
  let rest ← stripPrefix dsmlParamOpen rest
  let (name, rest) ← splitFirst nameEnd rest
  let (isString, rest) ← splitFirst stringEnd rest
  let (raw, rest) ← splitFirst dsmlParamClose rest
  let value ← parseValue fromStr isString raw
  some (String.ofList name, value, rest)

theorem parseParameter_length {text rest : Text} {name : String} {value : Value}
    (found : parseParameter fromStr text = some (name, value, rest)) : rest.length < text.length := by
  have closer : dsmlParamClose.length = 18 := rfl
  obtain ⟨named, begins, found⟩ := Option.bind_eq_some_iff.mp found
  obtain ⟨⟨key, flagged⟩, keyEnds, found⟩ := Option.bind_eq_some_iff.mp found
  obtain ⟨⟨flag, valued⟩, flagEnds, found⟩ := Option.bind_eq_some_iff.mp found
  obtain ⟨⟨raw, last⟩, valueEnds, found⟩ := Option.bind_eq_some_iff.mp found
  obtain ⟨parsed, -, same⟩ := Option.bind_eq_some_iff.mp found
  cases same
  have whole : text.length = dsmlParamOpen.length + named.length := by
    unfold stripPrefix at begins
    split at begins
    · next starts =>
      cases begins
      rw [List.length_drop, Nat.add_sub_cancel' (List.isPrefixOf_iff_prefix.mp starts).length_le]
    · cases begins
  have keyLength := splitFirst_length keyEnds
  have flagLength := splitFirst_length flagEnds
  have valueLength := splitFirst_length valueEnds
  omega

/-- The loop of `parse_dsml_parameters`, behind the parameters that have been read. -/
def parseParametersFrom (object : List (String × Value)) (rest : Text) : Option (List (String × Value)) :=
  if rest = [] then some object
  else
    match found : parseParameter fromStr rest with
    | none => none
    | some (name, value, behind) =>
      if name ∈ object.map (·.1) then none
      else parseParametersFrom (object ++ [(name, value)]) (behind.dropWhile (· = '\n'))
termination_by rest.length
decreasing_by
  have shorter := parseParameter_length fromStr found
  exact Nat.lt_of_le_of_lt (List.dropWhile_sublist _).length_le shorter

def parseDsmlParameters (params : Text) : Option Value :=
  (parseParametersFrom fromStr [] (trim params)).map .object

/-- The name and the parameters of the first invoke, and what is behind it. -/
def nextInvoke (rest : Text) : Option (Text × Text × Text) := do
  let (_, rest) ← splitFirst dsmlInvokeOpen rest
  let (name, afterHeader) ← splitFirst headerEnd rest
  let (params, rest) ← splitFirst dsmlInvokeClose afterHeader
  some (name, trimMatches '\n' params, rest)

theorem nextInvoke_length {text name params rest : Text} (found : nextInvoke text = some (name, params, rest)) :
    rest.length < text.length := by
  have closer : dsmlInvokeClose.length = 15 := rfl
  obtain ⟨⟨before, named⟩, begins, found⟩ := Option.bind_eq_some_iff.mp found
  obtain ⟨⟨key, inner⟩, nameEnds, found⟩ := Option.bind_eq_some_iff.mp found
  obtain ⟨⟨body, last⟩, bodyEnds, same⟩ := Option.bind_eq_some_iff.mp found
  cases same
  have whole := splitFirst_length begins
  have nameLength := splitFirst_length nameEnds
  have bodyLength := splitFirst_length bodyEnds
  omega

/-- `parse_dsml_invokes`, with the calls made before it. -/
def parseDsmlInvokes (made : Nat) (rest : Text) : List ToolCall :=
  match found : nextInvoke rest with
  | none => []
  | some (name, params, behind) =>
    match parseDsmlParameters fromStr params with
    | some arguments => ⟨toolCallId made, name, toText arguments⟩ :: parseDsmlInvokes (made + 1) behind
    | none => parseDsmlInvokes made behind
termination_by rest.length
decreasing_by all_goals exact nextInvoke_length found

def nonBlank (text : Text) : List Text := if trim text = [] then [] else [trim text]

/-- The loop of `parse_dsml_tool_calls`: the texts outside the blocks, and the calls in them. -/
def parseBlocks (made : Nat) (rest : Text) : List Text × List ToolCall :=
  match found : splitFirst dsmlOpen rest with
  | none => (nonBlank rest, [])
  | some (before, body) =>
    match closed : splitFirst dsmlClose body with
    | none => (nonBlank before ++ [dsmlOpen ++ body], [])
    | some (inner, behind) =>
      let calls := parseDsmlInvokes fromStr toText toolCallId made inner
      let more := parseBlocks (made + calls.length) behind
      (nonBlank before ++ more.1, calls ++ more.2)
termination_by rest.length
decreasing_by
  have opener : dsmlOpen.length = 18 := rfl
  have whole := splitFirst_length found
  have bodyLength := splitFirst_length closed
  omega

def parseDsmlToolCalls (text : Text) : Option Text × List ToolCall :=
  let (content, calls) := parseBlocks fromStr toText toolCallId 0 text
  (if content = [] then none else some (['\n'].intercalate content), calls)

end Parse

/-! ## One parameter -/

section RoundTrip

variable {fromStr : Text → Option Value} {toText : Value → Text} {toolCallId : Nat → Text}

def dsmlMarkers : List Text := [dsmlOpen, dsmlClose, dsmlInvokeOpen, dsmlInvokeClose, dsmlParamOpen, dsmlParamClose]

def Unmarked (text : Text) : Prop := ∀ marker ∈ dsmlMarkers, contains marker text = false

/-- A parameter whose parts are told from the tags, and whose value `serde_json` reads back if it writes it. -/
structure PlainEntry (fromStr : Text → Option Value) (toText : Value → Text) (entry : String × Value) : Prop where
  key : Unmarked entry.1.toList
  keyEnds : contains "\" string=".toList entry.1.toList = false
  value : Unmarked (formatValue toText entry.2).2
  reread : (∀ text, entry.2 ≠ .string text) → fromStr (toText entry.2) = some entry.2

/-- A call whose arguments are an object of plain parameters, with keys that differ as in any map. -/
structure PlainCall (fromStr : Text → Option Value) (toText : Value → Text) (call : IncomingToolCall) : Prop where
  name : Unmarked call.function.name.toList
  nameEnds : contains headerEnd call.function.name.toList = false
  object : ∃ entries, fromStr call.function.arguments.toList = some (.object entries) ∧ (entries.map (·.1)).Nodup ∧
    ∀ entry ∈ entries, PlainEntry fromStr toText entry

theorem Unmarked.free {text marker : Text} (unmarked : Unmarked text) (listed : marker ∈ dsmlMarkers) :
    contains marker text = false :=
  unmarked marker listed

theorem dsmlOpen_cons : dsmlOpen = '<' :: "｜DSML｜tool_calls>".toList := by
  show "<｜DSML｜tool_calls>".toList = _
  simp

theorem dsmlClose_cons : dsmlClose = '<' :: "/｜DSML｜tool_calls>".toList := by
  show "</｜DSML｜tool_calls>".toList = _
  simp

theorem dsmlInvokeOpen_cons : dsmlInvokeOpen = '<' :: "｜DSML｜invoke name=\"".toList := by
  show "<｜DSML｜invoke name=\"".toList = _
  simp

theorem dsmlInvokeClose_cons : dsmlInvokeClose = '<' :: "/｜DSML｜invoke>".toList := by
  show "</｜DSML｜invoke>".toList = _
  simp

theorem dsmlParamOpen_cons : dsmlParamOpen = '<' :: "｜DSML｜parameter name=\"".toList := by
  show "<｜DSML｜parameter name=\"".toList = _
  simp

theorem dsmlParamClose_cons : dsmlParamClose = '<' :: "/｜DSML｜parameter>".toList := by
  show "</｜DSML｜parameter>".toList = _
  simp

theorem nameEnd_cons : nameEnd = '"' :: " string=\"".toList := by
  show "\" string=\"".toList = _
  simp

theorem stringEnd_cons : stringEnd = '"' :: ">".toList := by
  show "\">".toList = _
  simp

theorem headerEnd_cons : headerEnd = '"' :: ">\n".toList := by
  show "\">\n".toList = _
  simp

theorem head_nameEnd (text : Text) : (nameEnd ++ text).head? = some '"' := by rw [nameEnd_cons]; rfl
theorem head_headerEnd (text : Text) : (headerEnd ++ text).head? = some '"' := by rw [headerEnd_cons]; rfl
theorem head_dsmlParamClose (text : Text) : (dsmlParamClose ++ text).head? = some '<' := by rw [dsmlParamClose_cons]; rfl

theorem stripPrefix_append (start text : Text) : stripPrefix start (start ++ text) = some text := by
  rw [stripPrefix, if_pos (List.isPrefixOf_iff_prefix.mpr (List.prefix_append start text)), List.drop_left]

theorem PlainEntry.key_clear {entry : String × Value} (plain : PlainEntry fromStr toText entry) (back : Text) :
    Clear nameEnd entry.1.toList (nameEnd ++ back) := by
  have apart : ∀ d ∈ (nameEnd ++ back).head?, d ∉ " string=".toList := by
    rw [head_nameEnd]
    rintro _ ⟨⟩
    simp
  have shorter : "\" string=".toList = '"' :: " string=".toList := by simp
  have quoted : nameEnd = ('"' :: " string=".toList) ++ ['"'] := by
    rw [nameEnd_cons]
    simp
  have free := plain.keyEnds
  rw [shorter] at free
  rw [quoted] at apart ⊢
  exact (Clear.of_free '"' " string=".toList free apart).longer ['"']

theorem formatValue_flag (toText : Value → Text) (value : Value) :
    (formatValue toText value).1 = "true".toList ∨ (formatValue toText value).1 = "false".toList := by
  cases value with
  | string text => exact .inl rfl
  | null | bool | number | array | object => exact .inr rfl

theorem flag_clear (value : Value) (back : Text) :
    Clear stringEnd (formatValue toText value).1 (stringEnd ++ back) := by
  rw [stringEnd_cons]
  apply Clear.of_absent
  rcases formatValue_flag toText value with flag | flag
  · simp [flag]
  · simp [flag]

theorem PlainEntry.value_clear {entry : String × Value} (plain : PlainEntry fromStr toText entry) (back : Text) :
    Clear dsmlParamClose (formatValue toText entry.2).2 (dsmlParamClose ++ back) := by
  have free : contains dsmlParamClose (formatValue toText entry.2).2 = false := plain.value.free (by simp [dsmlMarkers])
  have head := head_dsmlParamClose back
  rw [dsmlParamClose_cons] at free head ⊢
  refine Clear.of_free '<' "/｜DSML｜parameter>".toList free ?_
  rw [head]
  rintro _ ⟨⟩
  simp

theorem PlainEntry.parseValue {entry : String × Value} (plain : PlainEntry fromStr toText entry) :
    parseValue fromStr (formatValue toText entry.2).1 (formatValue toText entry.2).2 = some entry.2 := by
  obtain ⟨key, value⟩ := entry
  have differ : "false".toList ≠ "true".toList := by simp
  cases value with
  | string text => simp [formatValue, Server.parseValue]
  | null | bool | number | array | object =>
    rw [formatValue, Server.parseValue, if_neg differ, if_pos rfl]
    · exact plain.reread (by simp)
    · simp

theorem PlainEntry.parseParameter {entry : String × Value} (plain : PlainEntry fromStr toText entry) (back : Text) :
    parseParameter fromStr (formatParameter toText entry ++ back) = some (entry.1, entry.2, back) := by
  have whole : formatParameter toText entry ++ back = dsmlParamOpen ++ (entry.1.toList ++ (nameEnd ++
      ((formatValue toText entry.2).1 ++ (stringEnd ++ ((formatValue toText entry.2).2 ++ (dsmlParamClose ++ back)))))) := by
    simp [formatParameter, List.append_assoc]
  rw [whole, Server.parseParameter, stripPrefix_append]
  simp only [Option.bind_eq_bind, Option.bind_some]
  rw [splitFirst_clear (plain.key_clear _)]
  simp only [Option.bind_some]
  rw [splitFirst_clear (flag_clear entry.2 _)]
  simp only [Option.bind_some]
  rw [splitFirst_clear (plain.value_clear _)]
  simp only [Option.bind_some]
  rw [plain.parseValue, String.ofList_toList]
  rfl

/-! ## The parameters of a call -/

/-- Of texts that begin with a tag and are written one a line, the first, and the others behind blank lines. -/
theorem intercalate_cons_split (part : Text) {parts : List Text} (tagged : ∀ other ∈ parts, other.head? = some '<') :
    ∃ back, ['\n'].intercalate (part :: parts) = part ++ back ∧
      back.dropWhile (· = '\n') = ['\n'].intercalate parts := by
  cases parts with
  | nil => exact ⟨[], by simp, rfl⟩
  | cons other parts =>
    have begins : (['\n'].intercalate (other :: parts)).head? = some '<' := by
      have first := tagged other List.mem_cons_self
      cases parts with
      | nil => simpa using first
      | cons another parts => simp [List.intercalate_cons_cons, List.head?_append, first]
    refine ⟨'\n' :: ['\n'].intercalate (other :: parts), by simp [List.intercalate_cons_cons], ?_⟩
    obtain ⟨rest, written⟩ := List.head?_eq_some_iff.mp begins
    rw [written]
    rfl

theorem formatParameter_head (toText : Value → Text) (entry : String × Value) :
    (formatParameter toText entry).head? = some '<' := by
  rw [formatParameter, dsmlParamOpen_cons]
  rfl

theorem formatParameter_ne_nil (entry : String × Value) : formatParameter toText entry ≠ [] := by
  intro empty
  have head := formatParameter_head toText entry
  rw [empty] at head
  cases head

theorem parseParametersFrom_format {entries : List (String × Value)} (object : List (String × Value))
    (plain : ∀ entry ∈ entries, PlainEntry fromStr toText entry) (distinct : ((object ++ entries).map (·.1)).Nodup) :
    parseParametersFrom fromStr object (['\n'].intercalate (entries.map (formatParameter toText))) =
      some (object ++ entries) := by
  induction entries generalizing object with
  | nil =>
    rw [List.map_nil, List.intercalate_nil, parseParametersFrom, if_pos rfl, List.append_nil]
  | cons entry entries ih =>
    obtain ⟨first, others⟩ := List.forall_mem_cons.mp plain
    have tagged : ∀ other ∈ entries.map (formatParameter toText), other.head? = some '<' := by
      intro other listed
      obtain ⟨entry, -, rfl⟩ := List.mem_map.mp listed
      exact formatParameter_head toText entry
    obtain ⟨back, written, behind⟩ := intercalate_cons_split (formatParameter toText entry) tagged
    have more : formatParameter toText entry ++ back ≠ [] :=
      fun empty => formatParameter_ne_nil entry (List.append_eq_nil_iff.mp empty).1
    have fresh : entry.1 ∉ object.map (·.1) := by
      simp only [List.map_append, List.map_cons, List.nodup_append, List.mem_cons] at distinct
      intro listed
      exact distinct.2.2 _ listed _ (.inl rfl) rfl
    rw [List.map_cons, written, parseParametersFrom, if_neg more]
    split
    · next missing =>
      rw [first.parseParameter] at missing
      cases missing
    · next name value rest found =>
      rw [first.parseParameter] at found
      obtain ⟨rfl, rfl, rfl⟩ : entry.1 = name ∧ entry.2 = value ∧ back = rest := by
        simpa using found
      rw [if_neg fresh, behind, ih (object ++ [entry]) others (by simpa using distinct)]
      simp

/-- A text that is empty or lies between the brackets of tags, so that trimming leaves it. -/
def Tagged (text : Text) : Prop := text = [] ∨ ∃ middle, text = '<' :: (middle ++ ['>'])

theorem Tagged.trim {text : Text} (tagged : Tagged text) : trim text = text := by
  rcases tagged with rfl | ⟨middle, rfl⟩
  · rfl
  · have bracket : isBlank '>' = false := by decide
    have opener : isBlank '<' = false := by decide
    simp [Foundation.trim, trimStart, trimEnd, bracket, opener]

theorem Tagged.trimMatches {text : Text} (tagged : Tagged text) : trimMatches '\n' (text ++ ['\n']) = text := by
  rcases tagged with rfl | ⟨middle, rfl⟩
  · rfl
  · simp [Foundation.trimMatches]

theorem tagged_formatParameter (entry : String × Value) : Tagged (formatParameter toText entry) := by
  right
  refine ⟨"｜DSML｜parameter name=\"".toList ++ entry.1.toList ++ nameEnd ++ (formatValue toText entry.2).1 ++ stringEnd ++
    (formatValue toText entry.2).2 ++ "</｜DSML｜parameter".toList, ?_⟩
  have closer : dsmlParamClose = "</｜DSML｜parameter".toList ++ ['>'] := by
    rw [dsmlParamClose_cons]
    simp
  rw [formatParameter, dsmlParamOpen_cons, closer]
  simp only [List.cons_append, List.append_assoc]

theorem tagged_intercalate {parts : List Text} (tagged : ∀ part ∈ parts, Tagged part) (filled : ∀ part ∈ parts, part ≠ []) :
    Tagged (['\n'].intercalate parts) := by
  induction parts with
  | nil => exact .inl rfl
  | cons part parts ih =>
    obtain ⟨first, others⟩ := List.forall_mem_cons.mp tagged
    obtain ⟨firstFilled, othersFilled⟩ := List.forall_mem_cons.mp filled
    obtain ⟨middle, rfl⟩ := first.resolve_left firstFilled
    right
    rcases ih others othersFilled with empty | ⟨more, written⟩
    · cases parts with
      | nil => exact ⟨middle, by simp⟩
      | cons other parts =>
        have otherFilled := othersFilled other List.mem_cons_self
        cases parts <;> simp_all [List.intercalate_cons_cons]
    · cases parts with
      | nil => simp at written
      | cons other parts =>
        refine ⟨middle ++ ['>'] ++ ['\n'] ++ '<' :: more, ?_⟩
        rw [List.intercalate_cons_cons, written]
        simp

/-! ## Where the closing tags are -/

/-- A tag that is none of those of a parameter. -/
structure Encloses (tail : Text) : Prop where
  noBracket : '<' ∉ tail
  noQuote : '"' ∉ tail
  parts : ∀ part ∈ [dsmlParamOpen, nameEnd, "true".toList, "false".toList, stringEnd, dsmlParamClose, ['\n'],
    dsmlInvokeOpen, headerEnd], Mismatched ('<' :: tail) part

variable {tail : Text}

theorem Encloses.clear {part : Text} (encloses : Encloses tail) (back : Text)
    (listed : part ∈ [dsmlParamOpen, nameEnd, "true".toList, "false".toList, stringEnd, dsmlParamClose, ['\n'],
      dsmlInvokeOpen, headerEnd]) : Clear ('<' :: tail) part back :=
  .of_mismatched (encloses.parts part listed) back

theorem Encloses.quoted {text back : Text} (encloses : Encloses tail) (free : contains ('<' :: tail) text = false)
    (quote : back.head? = some '"') : Clear ('<' :: tail) text back := by
  refine .of_free '<' tail free ?_
  rw [quote]
  rintro _ ⟨⟩
  exact encloses.noQuote

theorem Encloses.formatParameter {entry : String × Value} (encloses : Encloses tail)
    (plain : PlainEntry fromStr toText entry) (marker : '<' :: tail ∈ dsmlMarkers) (back : Text) :
    Clear ('<' :: tail) (formatParameter toText entry) back := by
  have key := plain.key.free marker
  have value := plain.value.free marker
  have bracketed : ∀ text : Text, ∀ d ∈ (dsmlParamClose ++ text).head?, d ∉ tail := by
    intro text
    rw [head_dsmlParamClose]
    rintro _ ⟨⟩
    exact encloses.noBracket
  have flag : ∀ text, Clear ('<' :: tail) (formatValue toText entry.2).1 text := by
    intro text
    rcases formatValue_flag toText entry.2 with flag | flag
    · rw [flag]
      exact encloses.clear text (by simp)
    · rw [flag]
      exact encloses.clear text (by simp)
  rw [Server.formatParameter]
  refine .append (.append (.append (.append (.append (.append ?opening ?key) ?nameEnd) ?flag) ?stringEnd) ?value) ?closing
  case opening => exact encloses.clear _ (by simp)
  case key => exact encloses.quoted key (head_nameEnd _)
  case nameEnd => exact encloses.clear _ (by simp)
  case flag => exact flag _
  case stringEnd => exact encloses.clear _ (by simp)
  case value => exact .of_free '<' tail value (bracketed back)
  case closing => exact encloses.clear _ (by simp)

theorem Encloses.intercalate {parts : List Text} (encloses : Encloses tail)
    (clear : ∀ part ∈ parts, ∀ back, Clear ('<' :: tail) part back) (back : Text) :
    Clear ('<' :: tail) (['\n'].intercalate parts) back := by
  induction parts with
  | nil =>
    intro other rest _
    exact Nat.zero_le _
  | cons part parts ih =>
    obtain ⟨first, others⟩ := List.forall_mem_cons.mp clear
    cases parts with
    | nil => simpa using first back
    | cons other parts =>
      rw [List.intercalate_cons_cons]
      exact .append (.append (first _) (encloses.clear _ (by simp))) (ih others)

theorem encloses_invoke : Encloses "/｜DSML｜invoke>".toList :=
  ⟨by simp, by simp, by decide +kernel⟩

theorem encloses_tool_calls : Encloses "/｜DSML｜tool_calls>".toList :=
  ⟨by simp, by simp, by decide +kernel⟩

/-! ## The calls of a block -/

section Calls

variable {call : IncomingToolCall} {entries : List (String × Value)}

theorem formatInvoke_eq (object : fromStr call.function.arguments.toList = some (.object entries)) :
    formatInvoke fromStr toText call = dsmlInvokeOpen ++ call.function.name.toList ++ headerEnd ++
      ['\n'].intercalate (entries.map (formatParameter toText)) ++ ['\n'] ++ dsmlInvokeClose := by
  rw [formatInvoke, callArguments, object]
  rfl

theorem parseDsmlParameters_format (plain : ∀ entry ∈ entries, PlainEntry fromStr toText entry)
    (distinct : (entries.map (·.1)).Nodup) :
    parseDsmlParameters fromStr
      (trimMatches '\n' (['\n'].intercalate (entries.map (formatParameter toText)) ++ ['\n'])) = some (.object entries) := by
  have tagged : Tagged (['\n'].intercalate (entries.map (formatParameter toText))) := by
    refine tagged_intercalate ?_ ?_
    · intro part listed
      obtain ⟨entry, -, rfl⟩ := List.mem_map.mp listed
      exact tagged_formatParameter entry
    · intro part listed
      obtain ⟨entry, -, rfl⟩ := List.mem_map.mp listed
      exact formatParameter_ne_nil entry
  rw [tagged.trimMatches, parseDsmlParameters, tagged.trim, parseParametersFrom_format [] plain distinct]
  rfl

theorem nextInvoke_format (named : contains headerEnd call.function.name.toList = false)
    (object : fromStr call.function.arguments.toList = some (.object entries))
    (plain : ∀ entry ∈ entries, PlainEntry fromStr toText entry) (back : Text) :
    nextInvoke ('\n' :: (formatInvoke fromStr toText call ++ back)) = some (call.function.name.toList,
      trimMatches '\n' (['\n'].intercalate (entries.map (formatParameter toText)) ++ ['\n']), back) := by
  have whole : '\n' :: (formatInvoke fromStr toText call ++ back) = ['\n'] ++ (dsmlInvokeOpen ++
      (call.function.name.toList ++ (headerEnd ++ ((['\n'].intercalate (entries.map (formatParameter toText)) ++ ['\n']) ++
        (dsmlInvokeClose ++ back))))) := by
    rw [formatInvoke_eq object]
    simp [List.append_assoc]
  have line : ∀ text, Clear dsmlInvokeOpen ['\n'] text := by
    rw [dsmlInvokeOpen_cons]
    exact .of_absent (by simp)
  have name : ∀ text, Clear headerEnd call.function.name.toList (headerEnd ++ text) := by
    intro text
    have head := head_headerEnd text
    have free := named
    rw [headerEnd_cons] at free head ⊢
    refine .of_free '"' ">\n".toList free ?_
    rw [head]
    rintro _ ⟨⟩
    decide
  have inner : ∀ text, Clear dsmlInvokeClose
      (['\n'].intercalate (entries.map (formatParameter toText)) ++ ['\n']) text := by
    intro text
    rw [dsmlInvokeClose_cons]
    refine .append (encloses_invoke.intercalate ?_ _) (encloses_invoke.clear _ (by simp))
    intro part listed
    obtain ⟨entry, among, rfl⟩ := List.mem_map.mp listed
    have marker : dsmlInvokeClose ∈ dsmlMarkers := by simp [dsmlMarkers]
    rw [dsmlInvokeClose_cons] at marker
    exact encloses_invoke.formatParameter (plain entry among) marker
  rw [whole, nextInvoke, splitFirst_clear (line _)]
  simp only [Option.bind_eq_bind, Option.bind_some]
  rw [splitFirst_clear (name _)]
  simp only [Option.bind_some]
  rw [splitFirst_clear (inner _)]
  rfl

def reread (fromStr : Text → Option Value) (toText : Value → Text) (toolCallId : Nat → Text)
    (numbered : IncomingToolCall × Nat) : ToolCall :=
  ⟨toolCallId numbered.2, numbered.1.function.name.toList, toText (callArguments fromStr numbered.1)⟩

theorem nextInvoke_none {text : Text} (noBracket : '<' ∉ text) : nextInvoke text = none := by
  cases found : splitFirst dsmlInvokeOpen text with
  | none => simp [nextInvoke, found]
  | some parts =>
    have opening : '<' ∈ dsmlInvokeOpen := by simp [dsmlInvokeOpen_cons]
    refine absurd ?_ noBracket
    rw [splitFirst_eq found]
    simp [opening]

theorem parseDsmlInvokes_format {calls : List IncomingToolCall} (plain : ∀ call ∈ calls, PlainCall fromStr toText call)
    (made : Nat) :
    parseDsmlInvokes fromStr toText toolCallId made
      (calls.flatMap (fun call => '\n' :: formatInvoke fromStr toText call) ++ ['\n']) =
        (calls.zipIdx made).map (reread fromStr toText toolCallId) := by
  induction calls generalizing made with
  | nil =>
    rw [parseDsmlInvokes]
    split
    · rfl
    · next found =>
      rw [List.flatMap_nil, List.nil_append, nextInvoke_none (by simp)] at found
      cases found
  | cons call calls ih =>
    obtain ⟨first, others⟩ := List.forall_mem_cons.mp plain
    obtain ⟨entries, object, distinct, parameters⟩ := first.object
    have read := nextInvoke_format first.nameEnds object parameters
      (calls.flatMap (fun call => '\n' :: formatInvoke fromStr toText call) ++ ['\n'])
    rw [List.flatMap_cons, List.cons_append, List.cons_append, List.append_assoc, parseDsmlInvokes]
    split
    · next missing =>
      rw [read] at missing
      cases missing
    · next name params behind found =>
      rw [read] at found
      cases found
      rw [parseDsmlParameters_format parameters distinct, ih others (made + 1)]
      simp [reread, callArguments, object]

theorem lines_eq {parts : List Text} (some_part : parts ≠ []) :
    ['\n'] ++ ['\n'].intercalate parts = parts.flatMap ('\n' :: ·) := by
  induction parts with
  | nil => exact absurd rfl some_part
  | cons part parts ih =>
    cases parts with
    | nil => simp
    | cons other parts =>
      rw [List.intercalate_cons_cons, List.flatMap_cons, ← ih (by simp)]
      simp [List.append_assoc]

theorem parseDsmlInvokes_body {calls : List IncomingToolCall} (plain : ∀ call ∈ calls, PlainCall fromStr toText call) :
    parseDsmlInvokes fromStr toText toolCallId 0
      (['\n'] ++ ['\n'].intercalate (calls.map (formatInvoke fromStr toText)) ++ ['\n']) =
        calls.zipIdx.map (reread fromStr toText toolCallId) := by
  cases calls with
  | nil =>
    rw [parseDsmlInvokes]
    split
    · rfl
    · next found =>
      rw [List.map_nil, nextInvoke_none (by simp)] at found
      cases found
  | cons call calls =>
    rw [lines_eq (by simp), List.flatMap_map]
    exact parseDsmlInvokes_format plain 0

theorem PlainCall.format_clear (plain : PlainCall fromStr toText call) (back : Text) :
    Clear dsmlClose (formatInvoke fromStr toText call) back := by
  obtain ⟨entries, object, -, parameters⟩ := plain.object
  have marker : dsmlClose ∈ dsmlMarkers := by simp [dsmlMarkers]
  have name := plain.name.free marker
  have invokeClosing : ∀ text, Clear dsmlClose dsmlInvokeClose text := .of_mismatched (by decide +kernel)
  rw [dsmlClose_cons] at marker name invokeClosing ⊢
  rw [formatInvoke_eq object]
  refine .append (.append (.append (.append (.append ?opening ?name) ?header) ?params) ?line) (invokeClosing back)
  case opening => exact encloses_tool_calls.clear _ (by simp)
  case name => exact encloses_tool_calls.quoted name (head_headerEnd _)
  case header => exact encloses_tool_calls.clear _ (by simp)
  case params =>
    refine encloses_tool_calls.intercalate ?_ _
    intro part listed
    obtain ⟨entry, among, rfl⟩ := List.mem_map.mp listed
    exact encloses_tool_calls.formatParameter (parameters entry among) marker
  case line => exact encloses_tool_calls.clear _ (by simp)

theorem body_clear {calls : List IncomingToolCall} (plain : ∀ call ∈ calls, PlainCall fromStr toText call) (back : Text) :
    Clear dsmlClose (['\n'] ++ ['\n'].intercalate (calls.map (formatInvoke fromStr toText)) ++ ['\n']) back := by
  rw [dsmlClose_cons]
  refine .append (.append ?first ?calls) ?last
  case first => exact encloses_tool_calls.clear _ (by simp)
  case calls =>
    refine encloses_tool_calls.intercalate ?_ _
    intro part listed
    obtain ⟨call, among, rfl⟩ := List.mem_map.mp listed
    intro behind
    rw [← dsmlClose_cons]
    exact (plain call among).format_clear behind
  case last => exact encloses_tool_calls.clear _ (by simp)

end Calls

theorem parseBlocks_format {calls : List IncomingToolCall} (plain : ∀ call ∈ calls, PlainCall fromStr toText call)
    {before : Text} (unopened : contains dsmlOpen before = false) :
    parseBlocks fromStr toText toolCallId 0 (before ++ formatToolCalls fromStr toText calls) =
      (nonBlank before, calls.zipIdx.map (reread fromStr toText toolCallId)) := by
  have whole : before ++ formatToolCalls fromStr toText calls = before ++ (dsmlOpen ++
      ((['\n'] ++ ['\n'].intercalate (calls.map (formatInvoke fromStr toText)) ++ ['\n']) ++ (dsmlClose ++ []))) := by
    simp [formatToolCalls, List.append_assoc]
  have opened : ∀ text, Clear dsmlOpen before (dsmlOpen ++ text) := by
    intro text
    have head : (dsmlOpen ++ text).head? = some '<' := by rw [dsmlOpen_cons]; rfl
    have free := unopened
    rw [dsmlOpen_cons] at free head ⊢
    refine .of_free '<' "｜DSML｜tool_calls>".toList free ?_
    rw [head]
    rintro _ ⟨⟩
    simp
  have empty : parseBlocks fromStr toText toolCallId calls.zipIdx.length [] = ([], []) := by
    rw [parseBlocks]
    rfl
  rw [whole, parseBlocks]
  split
  · next missing =>
    rw [splitFirst_clear (opened _)] at missing
    cases missing
  · next front body found =>
    rw [splitFirst_clear (opened _)] at found
    cases found
    split
    · next missing =>
      rw [splitFirst_clear (body_clear plain _)] at missing
      cases missing
    · next inner behind closed =>
      rw [splitFirst_clear (body_clear plain _)] at closed
      cases closed
      simp only [parseDsmlInvokes_body plain, List.length_map, Nat.zero_add, empty, List.append_nil]

/-- What `format_tool_calls` writes behind a text without the opening tag is read back: the text trimmed, unless it is
blank, and calls of the same names and arguments. -/
theorem dsml_read_back {calls : List IncomingToolCall} (plain : ∀ call ∈ calls, PlainCall fromStr toText call)
    {before : Text} (unopened : contains dsmlOpen before = false) :
    parseDsmlToolCalls fromStr toText toolCallId (before ++ formatToolCalls fromStr toText calls) =
      (if trim before = [] then none else some (trim before), calls.zipIdx.map (reread fromStr toText toolCallId)) := by
  by_cases blank : trim before = []
  · simp [parseDsmlToolCalls, parseBlocks_format plain unopened, nonBlank, blank]
  · simp [parseDsmlToolCalls, parseBlocks_format plain unopened, nonBlank, blank]

/-! ### One call -/

def ringArguments : Text := "\x7b\"to\":\"Ann\",\"times\":2\x7d".toList

/-- `serde_json` on the texts and values of `ringCall`. -/
def ringFromStr (text : Text) : Option Value :=
  if text = ringArguments then some (.object [("to", .string "Ann"), ("times", .number "2")])
  else if text = "2".toList then some (.number "2")
  else none

def ringToText : Value → Text
  | .number text => text.toList
  | .object _ => ringArguments
  | _ => []

def ringCall : IncomingToolCall := ⟨none, "ring", String.ofList ringArguments⟩

theorem ringCall_plain : ∀ call ∈ [ringCall], PlainCall ringFromStr ringToText call := by
  intro call listed
  obtain rfl := List.mem_singleton.mp listed
  have object : ringFromStr ringCall.function.arguments.toList =
      some (.object [("to", .string "Ann"), ("times", .number "2")]) := by
    simp [ringCall, ringFromStr]
  refine ⟨by unfold Unmarked; decide +kernel, by decide +kernel, _, object, by decide, ?_⟩
  intro entry among
  rcases List.mem_pair.mp among with rfl | rfl
  · exact ⟨by unfold Unmarked; decide +kernel, by decide +kernel, by unfold Unmarked; decide +kernel,
      fun different => absurd rfl (different "Ann")⟩
  · refine ⟨by unfold Unmarked; decide +kernel, by decide +kernel, by unfold Unmarked; decide +kernel, ?_⟩
    intro _
    have other : "2".toList ≠ ringArguments := by decide +kernel
    simp only [ringToText, ringFromStr, if_neg other, if_true]

theorem ring_text : contains dsmlOpen "I ring. ".toList = false ∧ nonBlank "I ring. ".toList = ["I ring.".toList] := by
  decide +kernel

theorem ring_read_back :
    parseDsmlToolCalls ringFromStr ringToText (fun _ => "call_0".toList)
        ("I ring. ".toList ++ formatToolCalls ringFromStr ringToText [ringCall]) =
      (if trim "I ring. ".toList = [] then none else some (trim "I ring. ".toList),
        [ringCall].zipIdx.map (reread ringFromStr ringToText fun _ => "call_0".toList)) :=
  dsml_read_back ringCall_plain ring_text.1

/-- The blank behind a text does not come back. -/
theorem dsml_text_trimmed : ¬∀ (fromStr : Text → Option Value) (toText : Value → Text) (toolCallId : Nat → Text)
    (calls : List IncomingToolCall) (before : Text), calls ≠ [] → (∀ call ∈ calls, PlainCall fromStr toText call) →
    contains dsmlOpen before = false →
    (parseDsmlToolCalls fromStr toText toolCallId (before ++ formatToolCalls fromStr toText calls)).1 = some before := by
  intro exactly
  have unopened : contains dsmlOpen "I ring. ".toList = false := ring_text.1
  have same := exactly ringFromStr ringToText (fun _ => []) [ringCall] "I ring. ".toList (by simp) ringCall_plain unopened
  have trimmed : nonBlank "I ring. ".toList = ["I ring.".toList] := ring_text.2
  simp only [parseDsmlToolCalls, parseBlocks_format ringCall_plain unopened, trimmed] at same
  simp at same

end RoundTrip

end Metrale.Server
