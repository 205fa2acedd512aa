import Metrale.Server.ToolDetector

/-! # The loop of the tool detector (`streaming_impl.rs`, `streaming_flush.rs`)

Streaming only emits fragments of the open call, and changes nothing of the detector but its account of them.  A round
after which there is another one has shortened the buffer, so the loop ends. -/

namespace Metrale.Server

open Metrale.Foundation

namespace StreamingToolDetector

variable {p : CallParsers} {d after : StreamingToolDetector} {outputs : List DetectorOutput}

def plain (d : StreamingToolDetector) : StreamingToolDetector :=
  { d with currentTcEmitted := 0, argsOpen := false, emittedKeys := [], incrementalEmitted := false }

structure Streams (d : StreamingToolDetector) (outputs : List DetectorOutput) (after : StreamingToolDetector) : Prop where
  plain : after.plain = d.plain
  fragments : ∀ output ∈ outputs, ∃ fragment, output = .toolCallArgsFragment fragment d.callCounter

namespace Streams

theorem buffer (streams : d.Streams outputs after) : after.buffer = d.buffer := congrArg (·.buffer) streams.plain

theorem counter (streams : d.Streams outputs after) : after.callCounter = d.callCounter :=
  congrArg (·.callCounter) streams.plain

theorem name (streams : d.Streams outputs after) : after.currentTcName = d.currentTcName :=
  congrArg (·.currentTcName) streams.plain

theorem nothing (d : StreamingToolDetector) : d.Streams [] d := ⟨rfl, fun _ none => absurd none List.not_mem_nil⟩

theorem trans {middle : StreamingToolDetector} {more : List DetectorOutput} (first : d.Streams outputs middle)
    (second : middle.Streams more after) : d.Streams (outputs ++ more) after := by
  refine ⟨second.plain.trans first.plain, ?_⟩
  intro output among
  obtain earlier | later := List.mem_append.mp among
  · exact first.fragments output earlier
  · rw [← first.counter]
    exact second.fragments output later

end Streams

theorem emitMember_streams (p : CallParsers) (d : StreamingToolDetector) (key value : Text) :
    d.Streams [(d.emitMember p key value).2] (d.emitMember p key value).1 := by
  refine ⟨rfl, ?_⟩
  intro output among
  exact ⟨_, List.mem_singleton.mp among⟩

theorem emitClosing_streams (d : StreamingToolDetector) : d.Streams [d.emitClosing.2] d.emitClosing.1 := by
  refine ⟨rfl, ?_⟩
  intro output among
  exact ⟨_, List.mem_singleton.mp among⟩

theorem streamParams_streams (p : CallParsers) (d : StreamingToolDetector) (text : Text) :
    d.Streams (d.streamParams p text).2 (d.streamParams p text).1 := by
  fun_induction streamParams p d text with
  | case1 d => exact .nothing d
  | case2 d => exact .nothing d
  | case3 d => exact .nothing d
  | case4 d text before keyRegion _ key valueRegion _ value close rest _ normKey jsonValue _ emitted fragment made past
      moved later ih =>
    have member := emitMember_streams p d normKey jsonValue
    rw [made] at member
    have step : d.Streams [fragment] moved := ⟨member.plain, member.fragments⟩
    exact step.trans ih

theorem backfill_streams (p : CallParsers) (d : StreamingToolDetector) (keys : List Text) :
    d.Streams (d.backfill p keys).2 (d.backfill p keys).1 := by
  induction keys generalizing d with
  | nil => exact .nothing d
  | cons key keys ih =>
    rw [backfill]
    split
    · exact ih d
    · exact (emitMember_streams p d key ['"', '"']).trans (ih _)

variable {out : StreamingToolDetector × List DetectorOutput}

theorem withClosing_streams (streams : d.Streams out.2 out.1) (finalClose : Bool) :
    d.Streams (withClosing finalClose out).2 (withClosing finalClose out).1 := by
  unfold withClosing
  split
  · exact streams.trans (emitClosing_streams out.1)
  · exact streams

theorem streamXml_streams {limit : Nat} {finalClose : Bool} (ready : d.streamXml p limit finalClose = some out) :
    d.Streams out.2 out.1 := by
  obtain ⟨text, -, rest⟩ := Option.bind_eq_some_iff.mp ready
  have params := streamParams_streams p d text
  dsimp only at rest
  split at rest
  · cases rest
    apply withClosing_streams
    exact params.trans (backfill_streams p _ _)
  · cases rest
    exact params

theorem gemmaFragment_streams {converted : Text} (ready : d.gemmaFragment converted = some out) : d.Streams out.2 out.1 := by
  unfold gemmaFragment at ready
  split at ready
  · cases ready
    exact .nothing d
  · obtain ⟨json, -, ready⟩ := Option.bind_eq_some_iff.mp ready
    split at ready
    · cases ready
      exact .nothing d
    · obtain ⟨fresh, -, ready⟩ := Option.bind_eq_some_iff.mp ready
      cases ready
      exact ⟨rfl, fun output among => ⟨_, List.mem_singleton.mp among⟩⟩

theorem streamGemma_streams {limit : Nat} {finalClose : Bool} (ready : d.streamGemma p limit finalClose = some out) :
    d.Streams out.2 out.1 := by
  unfold streamGemma at ready
  dsimp only at ready
  split at ready
  · cases ready
    exact .nothing d
  · obtain ⟨body, -, rest⟩ := Option.bind_eq_some_iff.mp ready
    obtain ⟨converted, -, rest⟩ := Option.bind_eq_some_iff.mp rest
    obtain ⟨streamed, fragment, rest⟩ := Option.bind_eq_some_iff.mp rest
    cases rest
    exact withClosing_streams (gemmaFragment_streams fragment) finalClose

theorem streamJson_streams {limit : Nat} (ready : d.streamJson limit = some out) : d.Streams out.2 out.1 := by
  unfold streamJson at ready
  dsimp only at ready
  split at ready
  · cases ready
    exact .nothing d
  · obtain ⟨body, -, rest⟩ := Option.bind_eq_some_iff.mp ready
    obtain ⟨fresh, -, rest⟩ := Option.bind_eq_some_iff.mp rest
    split at rest
    · cases rest
      exact .nothing d
    · cases rest
      exact ⟨rfl, fun output among => ⟨_, List.mem_singleton.mp among⟩⟩

theorem ready_streams {limit : Nat} {finalClose : Bool} (ready : d.streamReadyFragments p limit finalClose = some out) :
    d.Streams out.2 out.1 := by
  obtain ⟨scan, -, rest⟩ := Option.bind_eq_some_iff.mp ready
  split at rest
  · exact streamXml_streams rest
  · split at rest
    · exact streamGemma_streams rest
    · split at rest
      · exact streamJson_streams rest
      · cases rest
        exact .nothing d

/-! ## The end of the loop -/

theorem emitCalls_buffer (d : StreamingToolDetector) (calls : List ToolCall) :
    (d.emitCalls calls).1.buffer = d.buffer := by
  induction calls generalizing d with
  | nil => rfl
  | cons call calls ih => exact ih _

theorem finishStreamed_buffer {limit : Nat} {rest : Text} (finished : d.finishStreamed p limit rest = some out) :
    out.1.buffer = rest := by
  obtain ⟨streamed, -, finished⟩ := Option.bind_eq_some_iff.mp finished
  cases finished
  rfl

theorem splitAny_length {tags : List Text} {text before rest : Text} (long : ∀ tag ∈ tags, tag ≠ [])
    (found : splitAny tags text = some (before, rest)) : rest.length < text.length := by
  induction tags with
  | nil => cases found
  | cons tag tags ih =>
    rw [splitAny] at found
    cases first : splitFirst tag text with
    | some parts =>
      rw [first] at found
      cases found
      have lengths := splitFirst_length first
      have positive := List.length_pos_iff.mpr (long tag List.mem_cons_self)
      omega
    | none =>
      rw [first] at found
      exact ih (fun tag among => long tag (List.mem_cons_of_mem _ among)) found

theorem balancedFrom_length {depth : Nat} {inString escaped : Bool} {text object rest : Text}
    (found : balancedFrom depth inString escaped text = some (object, rest)) : rest.length < text.length := by
  induction text generalizing depth inString escaped object with
  | nil => cases found
  | cons c text ih =>
    rw [balancedFrom] at found
    obtain ⟨parts, taken, same⟩ := Option.map_eq_some_iff.mp found
    obtain ⟨inner, after⟩ := parts
    obtain ⟨-, rfl⟩ : c :: inner = object ∧ after = rest := by simpa using same
    have shorter : after.length ≤ text.length := by
      repeat' split at taken
      all_goals first
        | exact Nat.le_of_lt (ih taken)
        | exact Nat.le_of_eq (congrArg (List.length ·.2) (Option.some.inj taken)).symm
    exact Nat.lt_succ_of_le shorter

theorem balancedJson_length {text object rest : Text} (found : balancedJson text = some (object, rest)) :
    rest.length < text.length := by
  unfold balancedJson at found
  split at found
  · exact balancedFrom_length found
  · cases found

theorem mistralCall_length {after name args rest : Text} (found : mistralCall after = some (name, args, rest)) :
    rest.length < after.length := by
  obtain ⟨⟨first, tail⟩, tagged, found⟩ := Option.bind_eq_some_iff.mp found
  obtain ⟨⟨object, left⟩, balanced, found⟩ := Option.bind_eq_some_iff.mp found
  cases found
  have lengths := splitFirst_length tagged
  have shorter := balancedJson_length balanced
  have blanks : (tail.dropWhile isAsciiBlank).length ≤ tail.length := (List.dropWhile_sublist _).length_le
  omega

theorem bareFunctionBlock_length {text block rest : Text} (found : bareFunctionBlock text = some (block, rest)) :
    rest.length < text.length := by
  have closer : "</function>".toList.length = 11 := rfl
  have parameters : "</parameters>".toList.length = 13 := rfl
  unfold bareFunctionBlock at found
  split at found
  · split at found
    · next before after tagged =>
      have lengths := splitFirst_length tagged
      cases found
      omega
    · split at found
      · cases found
      · split at found
        · cases found
        · next before after tagged =>
          have lengths := splitFirst_length tagged
          split at found
          · next more left again =>
            have moreLengths := splitFirst_length again
            cases found
            omega
          · cases found
            omega
  · split at found
    · obtain ⟨parts, tagged, same⟩ := Option.map_eq_some_iff.mp found
      have lengths := splitFirst_length tagged
      cases same
      omega
    · cases found

theorem closeParsed_buffer (d : StreamingToolDetector) (parsed : Option ToolCall) :
    (d.closeParsed parsed).1.buffer = d.buffer := by
  cases parsed with
  | none => rfl
  | some call => rfl

theorem closeTagged_buffer {inner rest : Text} (closed : d.closeTagged p inner rest = some out) : out.1.buffer = rest := by
  unfold closeTagged at closed
  dsimp only at closed
  split at closed
  · split at closed
    · exact finishStreamed_buffer closed
    · obtain ⟨parsed, -, rfl⟩ := Option.map_eq_some_iff.mp closed
      exact closeParsed_buffer _ parsed
  · obtain ⟨calls, -, rfl⟩ := Option.map_eq_some_iff.mp closed
    exact emitCalls_buffer _ _

variable {done : Round}

theorem processDsml_shorter (taken : d.processDsml p = some done) (again : done.again = true) :
    done.detector.buffer.length < d.buffer.length := by
  have opener : dsmlOpen.length = 18 := rfl
  have closer : dsmlClose.length = 19 := rfl
  unfold processDsml at taken
  split at taken
  · split at taken
    · cases taken
      cases again
    · next body rest found =>
      have lengths := splitFirst_length found
      cases taken
      rw [emitCalls_buffer]
      simp only
      omega
  · split at taken
    · cases taken
    · next before rest found =>
      have lengths := splitFirst_length found
      cases taken
      simp only
      omega

theorem processTagged_shorter (taken : d.processTagged p = some done) (again : done.again = true) :
    done.detector.buffer.length < d.buffer.length := by
  unfold processTagged at taken
  split at taken
  · next inner rest found =>
    obtain ⟨out, closed, rfl⟩ := Option.map_eq_some_iff.mp taken
    rw [closeTagged_buffer closed]
    exact splitAny_length (by decide) found
  · obtain ⟨out, -, rfl⟩ := Option.map_eq_some_iff.mp taken
    cases again

theorem emitMistral_buffer (p : CallParsers) (d : StreamingToolDetector) (name rawArgs : Text) :
    (d.emitMistral p name rawArgs).1.buffer = d.buffer := by
  unfold emitMistral
  dsimp only
  split
  · rfl
  · split <;> rfl

theorem processMistral_shorter {before after : Text} (found : splitFirst mistralToolCallsTag d.buffer = some (before, after))
    (again : (d.processMistral p before after).again = true) :
    (d.processMistral p before after).detector.buffer.length < d.buffer.length := by
  have lengths := splitFirst_length found
  cases call : mistralCall after with
  | none =>
    rw [processMistral, call] at again
    cases again
  | some parts =>
    obtain ⟨name, rawArgs, rest⟩ := parts
    have shorter := mistralCall_length call
    simp only [processMistral, call, emitMistral_buffer]
    omega

theorem processBareFunction_shorter {before after : Text} (found : splitFirst functionOpen d.buffer = some (before, after))
    (taken : d.processBareFunction p before after = some done) (again : done.again = true) :
    done.detector.buffer.length < d.buffer.length := by
  have lengths := splitFirst_length found
  unfold processBareFunction at taken
  dsimp only at taken
  split at taken
  · next block rest closed =>
    have shorter := bareFunctionBlock_length closed
    rw [List.length_append] at shorter
    have whole : rest.length < d.buffer.length := by omega
    split at taken
    · obtain ⟨out, finished, rfl⟩ := Option.map_eq_some_iff.mp taken
      rw [finishStreamed_buffer finished]
      exact whole
    · cases taken
      rw [resetCallState, emitCalls_buffer]
      exact whole
  · obtain ⟨out, -, rfl⟩ := Option.map_eq_some_iff.mp taken
    cases again

theorem processContent_stops : d.processContent.again = false := by
  unfold processContent
  split
  · rfl
  · dsimp only
    split <;> rfl

theorem round_shorter (taken : d.round p = some done) (again : done.again = true) :
    done.detector.buffer.length < d.buffer.length := by
  unfold round at taken
  split at taken
  · next dsml =>
    cases taken
    exact processDsml_shorter dsml again
  · split at taken
    · exact processTagged_shorter taken again
    · split at taken
      · next before after found =>
        cases taken
        exact processMistral_shorter found again
      · split at taken
        · next before rest found =>
          cases taken
          exact splitAny_length (by decide) found
        · split at taken
          · next before after found => exact processBareFunction_shorter found taken again
          · cases taken
            rw [processContent_stops] at again
            cases again

/-! ## The loop, and the end of the stream -/

def scan (p : CallParsers) (d : StreamingToolDetector) : Option (StreamingToolDetector × List DetectorOutput) :=
  match taken : d.round p with
  | none => none
  | some done =>
    if again : done.again = true then (done.detector.scan p).map fun rest => (rest.1, done.outputs ++ rest.2)
    else some (done.detector, done.outputs)
termination_by d.buffer.length
decreasing_by exact round_shorter taken again

variable {done : Round}

theorem scan_again (taken : d.round p = some done) (again : done.again = true) :
    d.scan p = (done.detector.scan p).map fun rest => (rest.1, done.outputs ++ rest.2) := by
  rw [scan]
  split
  · next none =>
    rw [taken] at none
    cases none
  · next other same =>
    rw [taken] at same
    cases same
    rw [dif_pos again]

theorem scan_stop (taken : d.round p = some done) (stops : done.again = false) :
    d.scan p = some (done.detector, done.outputs) := by
  rw [scan]
  split
  · next none =>
    rw [taken] at none
    cases none
  · next other same =>
    rw [taken] at same
    cases same
    rw [dif_neg (by rw [stops]; decide)]

def push (d : StreamingToolDetector) (text : Text) : StreamingToolDetector := { d with buffer := d.buffer ++ text }

def process (p : CallParsers) (d : StreamingToolDetector) (newText : Text) :
    Option (StreamingToolDetector × List DetectorOutput) :=
  (d.push newText).scan p

/-- `contain_unterminated_call_tail` -/
def containTail (rest : Text) : Text :=
  match splitLast "</parameter>".toList rest with
  | some (before, _) => before ++ "</parameter>".toList
  | none => ((splitFirst paramOpen rest).map (·.1)).getD rest

def openBody (p : CallParsers) (d : StreamingToolDetector) : Option (Option ToolCall) :=
  if d.insideTag && !contains "<arg_key>".toList d.buffer then p.parseOneCall (containTail (trim d.buffer)) d.callCounter
  else some none

def flushCall (p : CallParsers) (d : StreamingToolDetector) (call : ToolCall) :
    Option (StreamingToolDetector × List DetectorOutput) :=
  let out := { d with buffer := [], insideTag := false }
  let counted := { out with callCounter := d.callCounter + 1, emittedToolCalls := true }
  if d.currentTcName.isSome then
    if !d.bufferArgs && d.incrementalEmitted then
      ({ d with insideTag := false }).finishStreamed p (byteLength d.buffer) []
    else
      some (counted.resetCallState, [.toolCallDelta call.arguments d.callCounter, .toolCallEnd d.callCounter])
  else some (counted, [.toolCall call d.callCounter])

/-- Calls that have no envelope; only the counter counts them. -/
def fallbackCalls (d : StreamingToolDetector) : List ToolCall → StreamingToolDetector × List DetectorOutput
  | [] => (d, [])
  | call :: calls =>
    let later := fallbackCalls { d with callCounter := d.callCounter + 1 } calls
    (later.1, .toolCall call d.callCounter :: later.2)

def restText (d : StreamingToolDetector) : Text := if d.insideTag then "<tool_call>".toList ++ d.buffer else d.buffer

def flushText (p : CallParsers) (d : StreamingToolDetector) : StreamingToolDetector × List DetectorOutput :=
  let text := d.restText
  let out := { d with buffer := [], insideTag := false }
  let bare := p.parseBareFunctionCalls text
  let json := p.parseJsonFallbackCalls text
  if d.callCounter = 0 ∧ d.emittedToolCalls = false ∧ bare.2 ≠ [] then
    let calls := out.fallbackCalls bare.2
    (calls.1, (bare.1.map DetectorOutput.content).toList ++ calls.2)
  else if d.callCounter = 0 ∧ d.emittedToolCalls = false ∧ json ≠ [] then
    let clean := trim (p.withoutJsonCodeBlocks text)
    let calls := out.fallbackCalls json
    (calls.1, contentOf clean ++ calls.2)
  else (out, [.content text])

def flush (p : CallParsers) (d : StreamingToolDetector) : Option (StreamingToolDetector × List DetectorOutput) :=
  if d.insideDsml then
    some ({ d with buffer := [], insideDsml := false }.emitCalls (p.parseDsmlInvokes d.buffer))
  else if d.buffer = [] then some (d, [])
  else
    match d.openBody p with
    | none => none
    | some (some call) => d.flushCall p call
    | some none => some (d.flushText p)

/-- One `process` for each delta. -/
def feed (p : CallParsers) (d : StreamingToolDetector) : List Text → Option (StreamingToolDetector × List DetectorOutput)
  | [] => some (d, [])
  | delta :: deltas => do
    let first ← d.process p delta
    let rest ← first.1.feed p deltas
    some (rest.1, first.2 ++ rest.2)

def stream (p : CallParsers) (d : StreamingToolDetector) (deltas : List Text) : Option (List DetectorOutput) := do
  let fed ← d.feed p deltas
  let last ← fed.1.flush p
  some (fed.2 ++ last.2)

end StreamingToolDetector

end Metrale.Server
