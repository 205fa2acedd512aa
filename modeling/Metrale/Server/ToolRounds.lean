import Metrale.Server.ToolProcess
import Metrale.Server.ToolProtocol

/-! # Tool events over a whole stream

Each round of the detector is a path of moves, and the state before the round tells whether they are proper. -/

namespace Metrale.Server

open Metrale.Foundation
open ToolEvents

namespace StreamingToolDetector

variable {p : CallParsers} {d : StreamingToolDetector} {out : StreamingToolDetector × List DetectorOutput}

def track (d : StreamingToolDetector) : Track := ⟨d.currentTcName.isSome, d.callCounter⟩

def streaming (d : StreamingToolDetector) : Bool := !d.bufferArgs && d.incrementalEmitted

def Coherent (d : StreamingToolDetector) : Prop := d.incrementalEmitted = true → d.currentTcName.isSome = true

/-- The round closes what is open before it begins anything, and closes what it begins:

* whole calls come only while no start is out,
* the body of an open call that closes has been streamed, or parses,
* a Mistral call has no name, or it has arguments and no start is out,
* the block of a bare function has been streamed, or its start is not out. -/
def closes (p : CallParsers) (d : StreamingToolDetector) : Bool :=
  if d.insideDsml then
    match splitFirst dsmlClose d.buffer with
    | none => true
    | some (body, _) => d.currentTcName.isNone || (p.parseDsmlInvokes body).isEmpty
  else if contains dsmlOpen d.buffer then true
  else if d.insideTag then
    match splitAny closeTags d.buffer with
    | none => true
    | some (inner, _) =>
      d.currentTcName.isNone || d.streaming || (p.parseCompleteCall inner d.callCounter d.promoteBareNames).join.isSome
  else
    match splitFirst mistralToolCallsTag d.buffer with
    | some (_, after) =>
      match mistralCall after with
      | none => true
      | some (name, args, _) => name.isEmpty || (d.currentTcName.isNone && !argsEmpty (p.canonicalJson args))
    | none =>
      if (splitAny openTags d.buffer).isSome then true
      else
        match splitFirst functionOpen d.buffer with
        | none => true
        | some (_, after) => d.currentTcName.isNone || d.streaming || (bareFunctionBlock (functionOpen ++ after)).isNone

def flushCloses (p : CallParsers) (d : StreamingToolDetector) : Bool :=
  d.currentTcName.isNone || (!d.insideDsml && !d.buffer.isEmpty && (d.openBody p).join.isSome)

/-! ## Parts of a round -/

theorem content_path (track : Track) (text : Text) : Path true track (contentOf text) track := by
  unfold contentOf
  split
  · exact .stay track
  · exact .one (.content track text)

theorem fragments_path {c : Nat} {outputs : List DetectorOutput}
    (fragments : ∀ output ∈ outputs, ∃ fragment, output = .toolCallArgsFragment fragment c) :
    Path true ⟨true, c⟩ outputs ⟨true, c⟩ := by
  induction outputs with
  | nil => exact .stay _
  | cons output outputs ih =>
    have isArgs : output.IsArgs c := .inr (fragments output List.mem_cons_self)
    exact .move (.args c isArgs) (ih fun other among => fragments other (List.mem_cons_of_mem _ among))

theorem streams_path {after : StreamingToolDetector} {outputs : List DetectorOutput} (streams : d.Streams outputs after)
    (opened : d.currentTcName.isSome = true) : Path true d.track outputs after.track := by
  have same : after.track = d.track := by rw [track, streams.name, streams.counter, track]
  rw [same, track, opened]
  exact fragments_path streams.fragments

def wholeCalls (c : Nat) : List ToolCall → List DetectorOutput
  | [] => []
  | call :: calls => .toolCall call c :: wholeCalls (c + 1) calls

theorem wholeCalls_path (c : Nat) (calls : List ToolCall) :
    Path true ⟨false, c⟩ (wholeCalls c calls) ⟨false, c + calls.length⟩ := by
  induction calls generalizing c with
  | nil => exact .stay _
  | cons call calls ih =>
    have later := ih (c + 1)
    rw [Nat.add_assoc, Nat.add_comm 1] at later
    exact .move (.call c call) later

theorem wholeCalls_begun (c : Nat) {calls : List ToolCall} (some : calls ≠ []) (track : Track) :
    Path false ⟨true, c⟩ (wholeCalls c calls) track := by
  cases calls with
  | nil => exact absurd rfl some
  | cons call calls => exact .one (.begun c (.inr ⟨call, rfl⟩) (wholeCalls (c + 1) calls) track)

theorem emitCalls_eq (d : StreamingToolDetector) (calls : List ToolCall) :
    (d.emitCalls calls).2 = wholeCalls d.callCounter calls ∧
      (d.emitCalls calls).1.callCounter = d.callCounter + calls.length ∧
      (d.emitCalls calls).1.currentTcName = d.currentTcName ∧
      (d.emitCalls calls).1.incrementalEmitted = d.incrementalEmitted := by
  induction calls generalizing d with
  | nil => exact ⟨rfl, rfl, rfl, rfl⟩
  | cons call calls ih =>
    obtain ⟨outputs, counter, name, incremental⟩ :=
      ih { d with callCounter := d.callCounter + 1, emittedToolCalls := true }
    refine ⟨?_, ?_, name, incremental⟩
    · rw [emitCalls, wholeCalls, outputs]
    · rw [emitCalls, counter, List.length_cons]
      simp only
      omega

theorem emitCalls_path (d : StreamingToolDetector) (calls : List ToolCall) :
    Path (d.currentTcName.isNone || calls.isEmpty) d.track (d.emitCalls calls).2 (d.emitCalls calls).1.track := by
  obtain ⟨outputs, counter, name, -⟩ := emitCalls_eq d calls
  rw [outputs, track, track, counter, name]
  cases opened : d.currentTcName with
  | none => exact wholeCalls_path d.callCounter calls
  | some open_ =>
    cases calls with
    | nil => exact .stay _
    | cons call calls => exact wholeCalls_begun d.callCounter (List.cons_ne_nil call calls) _

theorem emitCalls_reset (d : StreamingToolDetector) (calls : List ToolCall) :
    Path d.currentTcName.isNone d.track (d.emitCalls calls).2 (d.emitCalls calls).1.resetCallState.track := by
  obtain ⟨outputs, counter, name, -⟩ := emitCalls_eq d calls
  have cleared : (d.emitCalls calls).1.resetCallState.track = ⟨false, d.callCounter + calls.length⟩ := by
    rw [track, resetCallState, counter]
    rfl
  rw [outputs, cleared, track]
  cases opened : d.currentTcName with
  | none => exact wholeCalls_path d.callCounter calls
  | some open_ =>
    cases calls with
    | nil => exact .one (.dropped d.callCounter)
    | cons call calls => exact wholeCalls_begun d.callCounter (List.cons_ne_nil call calls) _

theorem announceCall_path (p : CallParsers) (d : StreamingToolDetector) :
    Path true d.track (d.announceCall p).2 (d.announceCall p).1.track := by
  unfold announceCall
  split
  · exact .stay _
  · next closed =>
    have none : d.currentTcName.isSome = false := by simpa using closed
    split
    · exact .stay _
    · rw [track, none]
      exact .one (.start d.callCounter _ _)

theorem openCall_path (opens : d.openCall p = some out) : Path true d.track out.2 out.1.track := by
  have announced := announceCall_path p d
  unfold openCall at opens
  dsimp only at opens
  split at opens
  · next streamed =>
    obtain ⟨streamedTo, ready, rfl⟩ := Option.map_eq_some_iff.mp opens
    have opened : (d.announceCall p).1.currentTcName.isSome = true := by
      rw [Bool.and_eq_true] at streamed
      exact streamed.2
    exact announced.trans (streams_path (ready_streams ready) opened)
  · cases opens
    exact announced

theorem finishStreamed_path {limit : Nat} {rest : Text} (finished : d.finishStreamed p limit rest = some out)
    (opened : d.currentTcName.isSome = true) : Path true d.track out.2 out.1.track := by
  obtain ⟨streamed, ready, finished⟩ := Option.bind_eq_some_iff.mp finished
  have streams := ready_streams ready
  have path := streams_path streams opened
  have here : streamed.1.track = ⟨true, d.callCounter⟩ := by rw [track, streams.name, streams.counter, opened]
  rw [here] at path
  cases finished
  exact path.trans (.one (.close d.callCounter))

theorem args_close_path (c : Nat) (args : Text) :
    Path true ⟨true, c⟩ [.toolCallDelta args c, .toolCallEnd c] ⟨false, c + 1⟩ :=
  .move (.args c (.inl ⟨args, rfl⟩)) (.one (.close c))

/-! ## The rounds -/

variable {done : Round}

theorem closeTagged_path {inner rest : Text} (closed : d.closeTagged p inner rest = some out) :
    Path (d.currentTcName.isNone || d.streaming || (p.parseCompleteCall inner d.callCounter d.promoteBareNames).join.isSome)
      d.track out.2 out.1.track := by
  unfold closeTagged at closed
  dsimp only at closed
  split at closed
  · next opened =>
    have named : d.currentTcName.isNone = false := by simpa using opened
    have here : d.track = ⟨true, d.callCounter⟩ := by rw [track, opened]
    split at closed
    · next streamed =>
      have streaming : d.streaming = true := streamed
      have path := finishStreamed_path closed opened
      rw [streaming, Bool.or_true, Bool.true_or]
      exact path
    · next plain =>
      have still : d.streaming = false := by simpa [streaming] using plain
      rw [named, still, Bool.false_or, Bool.false_or, here]
      obtain ⟨parsed, known, rfl⟩ := Option.map_eq_some_iff.mp closed
      rw [known, Option.join_some]
      cases parsed with
      | some call => exact args_close_path d.callCounter call.arguments
      | none => exact .one (.dropped d.callCounter)
  · next unnamed =>
    have none : d.currentTcName.isNone = true := by simpa using unnamed
    obtain ⟨calls, -, rfl⟩ := Option.map_eq_some_iff.mp closed
    rw [none, Bool.true_or, Bool.true_or, ← none]
    exact emitCalls_reset { d with buffer := rest, insideTag := false } calls

theorem processDsml_path (taken : d.processDsml p = some done) :
    Path (d.closes p) d.track done.outputs done.detector.track := by
  unfold processDsml at taken
  unfold closes
  cases inside : d.insideDsml with
  | true =>
    rw [if_pos inside] at taken
    rw [if_pos rfl]
    cases closing : splitFirst dsmlClose d.buffer with
    | none =>
      rw [closing] at taken
      cases taken
      exact .stay _
    | some parts =>
      rw [closing] at taken
      cases taken
      exact emitCalls_path { d with buffer := parts.2, insideDsml := false } (p.parseDsmlInvokes parts.1)
  | false =>
    have outside : ¬d.insideDsml = true := by simp [inside]
    rw [if_neg outside] at taken
    cases opening : splitFirst dsmlOpen d.buffer with
    | none =>
      rw [opening] at taken
      cases taken
    | some parts =>
      rw [opening] at taken
      have there : contains dsmlOpen d.buffer = true := by rw [contains, opening]; rfl
      rw [if_neg Bool.false_ne_true, if_pos there]
      cases taken
      dsimp only
      split
      · exact .stay _
      · exact .one (.content _ parts.1)

theorem processDsml_none (skipped : d.processDsml p = none) : d.insideDsml = false ∧ contains dsmlOpen d.buffer = false := by
  unfold processDsml at skipped
  split at skipped
  · split at skipped <;> cases skipped
  · next outside =>
    split at skipped
    · next nowhere => exact ⟨by simpa using outside, by rw [contains, nowhere]; rfl⟩
    · cases skipped

theorem processTagged_path (outside : d.insideDsml = false) (plain : contains dsmlOpen d.buffer = false)
    (inside : d.insideTag = true) (taken : d.processTagged p = some done) :
    Path (d.closes p) d.track done.outputs done.detector.track := by
  rw [closes, outside, plain, inside]
  unfold processTagged at taken
  cases closing : splitAny closeTags d.buffer with
  | none =>
    rw [closing] at taken
    obtain ⟨out, opens, rfl⟩ := Option.map_eq_some_iff.mp taken
    exact openCall_path opens
  | some parts =>
    rw [closing] at taken
    obtain ⟨out, closed, rfl⟩ := Option.map_eq_some_iff.mp taken
    exact closeTagged_path closed

theorem emitMistral_path (p : CallParsers) (d : StreamingToolDetector) (name rawArgs : Text) :
    Path (name.isEmpty || (d.currentTcName.isNone && !argsEmpty (p.canonicalJson rawArgs))) d.track
      (d.emitMistral p name rawArgs).2 (d.emitMistral p name rawArgs).1.track := by
  unfold emitMistral
  dsimp only
  split
  · next unnamed =>
    rw [unnamed]
    exact .stay d.track
  · next named =>
    have long : name.isEmpty = false := by simpa using named
    rw [long, Bool.false_or]
    cases opened : d.currentTcName.isSome with
    | false =>
      have closed : d.currentTcName.isNone = true := by simpa using opened
      have here : d.track = ⟨false, d.callCounter⟩ := by rw [track, opened]
      have begun := Move.start d.callCounter (p.toolCallId d.minted) name
      rw [closed, Bool.true_and]
      split
      · next empty =>
        have lost := Path.move begun (.one (.dropped d.callCounter))
        rw [← here] at lost
        rw [empty]
        exact lost
      · next filled =>
        have args : argsEmpty (p.canonicalJson rawArgs) = false := by simpa using filled
        have whole := Path.move begun (args_close_path d.callCounter (p.canonicalJson rawArgs))
        have after : track { d with minted := d.minted + 1, callCounter := d.callCounter + 1, emittedToolCalls := true } =
            ⟨false, d.callCounter + 1⟩ := by rw [track, ← opened]
        rw [args, after, here]
        exact whole
    | true =>
      have named : d.currentTcName.isNone = false := by simpa using opened
      have here : d.track = ⟨true, d.callCounter⟩ := by rw [track, opened]
      have begins : (DetectorOutput.toolCallStart (p.toolCallId d.minted) name d.callCounter).Begins d.callCounter :=
        .inl ⟨_, _, rfl⟩
      rw [named, Bool.false_and, here]
      split
      · exact .one (.begun d.callCounter begins [] _)
      · exact .one (.begun d.callCounter begins _ _)

theorem processMistral_path (p : CallParsers) (d : StreamingToolDetector) (before after : Text) :
    Path (match mistralCall after with
      | none => true
      | some (name, args, _) => name.isEmpty || (d.currentTcName.isNone && !argsEmpty (p.canonicalJson args)))
      d.track (d.processMistral p before after).outputs (d.processMistral p before after).detector.track := by
  have content := content_path d.track before
  cases call : mistralCall after with
  | none =>
    simp only [processMistral, call]
    exact content
  | some parts =>
    obtain ⟨name, rawArgs, rest⟩ := parts
    simp only [processMistral, call]
    have path := content.trans (emitMistral_path p { d with buffer := rest } name rawArgs)
    rw [Bool.true_and] at path
    exact path

theorem processBareFunction_path (coherent : d.Coherent) {before after : Text}
    (taken : d.processBareFunction p before after = some done) :
    Path (d.currentTcName.isNone || d.streaming || (bareFunctionBlock (functionOpen ++ after)).isNone)
      d.track done.outputs done.detector.track := by
  have content := content_path d.track before
  unfold processBareFunction at taken
  dsimp only at taken
  split at taken
  · next block rest closed =>
    rw [closed]
    split at taken
    · next streamed =>
      have streaming : d.streaming = true := streamed
      obtain ⟨out, finished, rfl⟩ := Option.map_eq_some_iff.mp taken
      have opened : d.currentTcName.isSome = true := by
        rw [Bool.and_eq_true] at streamed
        exact coherent streamed.2
      have finish := finishStreamed_path finished opened
      have path : Path true d.track (contentOf before ++ out.2) out.1.track := content.trans finish
      rw [streaming, Bool.or_true, Bool.true_or]
      exact path
    · next plain =>
      have still : d.streaming = false := by simpa [streaming] using plain
      cases taken
      rw [still, Bool.or_false, Option.isNone_some, Bool.or_false]
      have path := content.trans
        (emitCalls_reset { d with buffer := rest } (p.parseBareFunctionCalls block).2)
      rw [Bool.true_and] at path
      exact path
  · next open_ =>
    obtain ⟨out, opens, rfl⟩ := Option.map_eq_some_iff.mp taken
    have opening := openCall_path opens
    rw [open_, Option.isNone_none, Bool.or_true]
    exact content.trans opening

theorem processContent_path (d : StreamingToolDetector) :
    Path true d.track d.processContent.outputs d.processContent.detector.track := by
  unfold processContent
  split
  · exact .stay _
  · dsimp only
    split
    · exact .stay _
    · split
      · exact .stay _
      · exact .one (.content _ _)

theorem outside_path (coherent : d.Coherent) (plain : d.processDsml p = none) (untagged : d.insideTag = false)
    (taken : d.round p = some done) : Path (d.closes p) d.track done.outputs done.detector.track := by
  obtain ⟨outside, noDsml⟩ := processDsml_none plain
  rw [closes, outside, noDsml, untagged]
  rw [round, plain, untagged] at taken
  simp only [Bool.false_eq_true, if_false] at taken ⊢
  cases mistral : splitFirst mistralToolCallsTag d.buffer with
  | some parts =>
    rw [mistral] at taken
    cases taken
    exact processMistral_path p d parts.1 parts.2
  | none =>
    rw [mistral] at taken
    cases opening : splitAny openTags d.buffer with
    | some parts =>
      rw [opening] at taken
      cases taken
      exact content_path d.track parts.1
    | none =>
      rw [opening] at taken
      cases function : splitFirst functionOpen d.buffer with
      | some parts =>
        rw [function] at taken
        exact processBareFunction_path coherent taken
      | none =>
        rw [function] at taken
        cases taken
        exact processContent_path d

theorem round_path (coherent : d.Coherent) (taken : d.round p = some done) :
    Path (d.closes p) d.track done.outputs done.detector.track := by
  cases dsml : d.processDsml p with
  | some round =>
    rw [StreamingToolDetector.round, dsml] at taken
    cases taken
    exact processDsml_path dsml
  | none =>
    cases tagged : d.insideTag with
    | true =>
      obtain ⟨outside, plain⟩ := processDsml_none dsml
      rw [StreamingToolDetector.round, dsml, tagged] at taken
      exact processTagged_path outside plain tagged taken
    | false => exact outside_path coherent dsml tagged taken

/-! ## Fragments are out only of an open call -/

theorem Coherent.congr {after : StreamingToolDetector} (coherent : d.Coherent) (name : after.currentTcName = d.currentTcName)
    (incremental : after.incrementalEmitted = d.incrementalEmitted) : after.Coherent := by
  rw [Coherent, name, incremental]
  exact coherent

theorem emitCalls_coherent (coherent : d.Coherent) (calls : List ToolCall) : (d.emitCalls calls).1.Coherent := by
  obtain ⟨-, -, name, incremental⟩ := emitCalls_eq d calls
  exact coherent.congr name incremental

theorem resetCallState_coherent (d : StreamingToolDetector) : d.resetCallState.Coherent := by
  intro streamed
  cases streamed

theorem openCall_coherent (coherent : d.Coherent) (opens : d.openCall p = some out) : out.1.Coherent := by
  unfold openCall at opens
  dsimp only at opens
  split at opens
  · next streamed =>
    obtain ⟨streamedTo, ready, rfl⟩ := Option.map_eq_some_iff.mp opens
    rw [Bool.and_eq_true] at streamed
    intro _
    rw [(ready_streams ready).name]
    exact streamed.2
  · cases opens
    unfold announceCall
    split
    · exact coherent
    · split
      · exact coherent
      · exact fun _ => rfl

theorem finishStreamed_coherent {limit : Nat} {rest : Text} (finished : d.finishStreamed p limit rest = some out) :
    out.1.Coherent := by
  obtain ⟨streamed, -, finished⟩ := Option.bind_eq_some_iff.mp finished
  cases finished
  exact resetCallState_coherent _

theorem closeTagged_coherent {inner rest : Text} (closed : d.closeTagged p inner rest = some out) : out.1.Coherent := by
  unfold closeTagged at closed
  dsimp only at closed
  split at closed
  · split at closed
    · exact finishStreamed_coherent closed
    · obtain ⟨parsed, -, rfl⟩ := Option.map_eq_some_iff.mp closed
      cases parsed with
      | some call => exact resetCallState_coherent _
      | none => exact resetCallState_coherent _
  · obtain ⟨calls, -, rfl⟩ := Option.map_eq_some_iff.mp closed
    exact resetCallState_coherent _

theorem processDsml_coherent (coherent : d.Coherent) (taken : d.processDsml p = some done) : done.detector.Coherent := by
  unfold processDsml at taken
  split at taken
  · split at taken
    · cases taken
      exact coherent
    · next body rest found =>
      cases taken
      exact emitCalls_coherent (d := { d with buffer := rest, insideDsml := false }) coherent _
  · split at taken
    · cases taken
    · cases taken
      exact coherent

theorem processMistral_coherent (p : CallParsers) (coherent : d.Coherent) (before after : Text) :
    (d.processMistral p before after).detector.Coherent := by
  unfold processMistral
  split
  · exact coherent
  · dsimp only [emitMistral]
    split
    · exact coherent
    · split
      · exact coherent
      · exact coherent

theorem processBareFunction_coherent (coherent : d.Coherent) {before after : Text}
    (taken : d.processBareFunction p before after = some done) : done.detector.Coherent := by
  unfold processBareFunction at taken
  dsimp only at taken
  split at taken
  · split at taken
    · obtain ⟨out, finished, rfl⟩ := Option.map_eq_some_iff.mp taken
      exact finishStreamed_coherent finished
    · cases taken
      exact resetCallState_coherent _
  · obtain ⟨out, opens, rfl⟩ := Option.map_eq_some_iff.mp taken
    exact openCall_coherent (d := { d with buffer := functionOpen ++ after }) coherent opens

theorem processContent_coherent (coherent : d.Coherent) : d.processContent.detector.Coherent := by
  unfold processContent
  split
  · exact coherent
  · dsimp only
    split
    · exact coherent
    · exact coherent

theorem round_coherent (coherent : d.Coherent) (taken : d.round p = some done) : done.detector.Coherent := by
  unfold round at taken
  split at taken
  · next dsml =>
    cases taken
    exact processDsml_coherent coherent dsml
  · split at taken
    · unfold processTagged at taken
      split at taken
      · obtain ⟨out, closed, rfl⟩ := Option.map_eq_some_iff.mp taken
        exact closeTagged_coherent closed
      · obtain ⟨out, opens, rfl⟩ := Option.map_eq_some_iff.mp taken
        exact openCall_coherent coherent opens
    · split at taken
      · cases taken
        exact processMistral_coherent p coherent _ _
      · split at taken
        · cases taken
          exact coherent
        · split at taken
          · exact processBareFunction_coherent coherent taken
          · cases taken
            exact processContent_coherent coherent

/-! ## The whole stream -/

def heads (p : CallParsers) (d : StreamingToolDetector) : List StreamingToolDetector :=
  match taken : d.round p with
  | none => [d]
  | some done => if again : done.again = true then d :: done.detector.heads p else [d]
termination_by d.buffer.length
decreasing_by exact round_shorter taken again

def feedHeads (p : CallParsers) (d : StreamingToolDetector) : List Text → List StreamingToolDetector
  | [] => []
  | delta :: deltas =>
    (d.push delta).heads p ++ ((d.process p delta).map fun out => out.1.feedHeads p deltas).getD []

theorem heads_again (taken : d.round p = some done) (again : done.again = true) :
    d.heads p = d :: done.detector.heads p := by
  rw [heads]
  split
  · next none =>
    rw [taken] at none
    cases none
  · next other same =>
    rw [taken] at same
    cases same
    rw [dif_pos again]

theorem heads_stop (taken : d.round p = some done) (stops : ¬done.again = true) : d.heads p = [d] := by
  rw [heads]
  split
  · rfl
  · next other same =>
    rw [taken] at same
    cases same
    rw [dif_neg stops]

theorem scan_path (coherent : d.Coherent) (scanned : d.scan p = some out) :
    Path ((d.heads p).all (closes p)) d.track out.2 out.1.track ∧ out.1.Coherent := by
  fun_induction scan p d generalizing out with
  | case1 => cases scanned
  | case2 d done taken again ih =>
    obtain ⟨rest, later, rfl⟩ := Option.map_eq_some_iff.mp scanned
    obtain ⟨path, kept⟩ := ih (round_coherent coherent taken) later
    rw [heads_again taken again, List.all_cons]
    exact ⟨(round_path coherent taken).trans path, kept⟩
  | case3 d done taken stops =>
    cases scanned
    rw [heads_stop taken stops, List.all_cons, List.all_nil, Bool.and_true]
    exact ⟨round_path coherent taken, round_coherent coherent taken⟩

theorem feed_path {deltas : List Text} (coherent : d.Coherent) (fed : d.feed p deltas = some out) :
    Path ((d.feedHeads p deltas).all (closes p)) d.track out.2 out.1.track ∧ out.1.Coherent := by
  induction deltas generalizing d out with
  | nil =>
    cases fed
    exact ⟨.stay _, coherent⟩
  | cons delta deltas ih =>
    obtain ⟨first, processed, fed⟩ := Option.bind_eq_some_iff.mp fed
    obtain ⟨rest, later, fed⟩ := Option.bind_eq_some_iff.mp fed
    cases fed
    have pushed : (d.push delta).Coherent := coherent
    obtain ⟨path, kept⟩ := scan_path pushed processed
    obtain ⟨laterPath, laterKept⟩ := ih kept later
    rw [feedHeads, processed, Option.map_some, Option.getD_some, List.all_append]
    exact ⟨path.trans laterPath, laterKept⟩

theorem fallbackCalls_eq (d : StreamingToolDetector) (calls : List ToolCall) :
    (d.fallbackCalls calls).2 = wholeCalls d.callCounter calls := by
  induction calls generalizing d with
  | nil => rfl
  | cons call calls ih => rw [fallbackCalls, wholeCalls, ih]

theorem end_path (d : StreamingToolDetector) : ∃ counter, Path d.currentTcName.isNone d.track [] ⟨false, counter⟩ := by
  cases opened : d.currentTcName with
  | none => exact ⟨d.callCounter, by rw [track, opened]; exact .stay _⟩
  | some open_ => exact ⟨d.callCounter, by rw [track, opened]; exact .one (.dropped _)⟩

theorem fallbackCalls_path (d : StreamingToolDetector) {calls : List ToolCall} (some : calls ≠ []) :
    ∃ counter, Path d.currentTcName.isNone d.track (d.fallbackCalls calls).2 ⟨false, counter⟩ := by
  rw [fallbackCalls_eq, track]
  cases d.currentTcName with
  | none => exact ⟨_, wholeCalls_path d.callCounter calls⟩
  | some open_ => exact ⟨0, wholeCalls_begun d.callCounter some ⟨false, 0⟩⟩

theorem flushText_path (p : CallParsers) (d : StreamingToolDetector) :
    ∃ counter, Path d.currentTcName.isNone d.track (d.flushText p).2 ⟨false, counter⟩ := by
  unfold flushText
  dsimp only
  split
  · next bare =>
    obtain ⟨counter, calls⟩ := fallbackCalls_path { d with buffer := [], insideTag := false } bare.2.2
    refine ⟨counter, ?_⟩
    have before : ∀ text : Option Text, Path true d.track (text.map DetectorOutput.content).toList d.track := by
      intro text
      cases text with
      | none => exact .stay _
      | some text => exact .one (.content _ text)
    exact (before _).trans calls
  · split
    · next json =>
      obtain ⟨counter, calls⟩ := fallbackCalls_path { d with buffer := [], insideTag := false } json.2.2
      refine ⟨counter, ?_⟩
      exact (content_path d.track _).trans calls
    · obtain ⟨counter, ended⟩ := end_path d
      exact ⟨counter, .move (.content d.track _) ended⟩

theorem flushCall_path {call : ToolCall} (flushed : d.flushCall p call = some out) :
    ∃ counter, Path true d.track out.2 ⟨false, counter⟩ := by
  unfold flushCall at flushed
  dsimp only at flushed
  split at flushed
  · next opened =>
    have here : d.track = ⟨true, d.callCounter⟩ := by rw [track, opened]
    split at flushed
    · have path := finishStreamed_path flushed opened
      obtain ⟨streamed, -, finished⟩ := Option.bind_eq_some_iff.mp flushed
      cases finished
      exact ⟨_, path⟩
    · cases flushed
      rw [here]
      exact ⟨_, args_close_path d.callCounter call.arguments⟩
  · next unnamed =>
    have closed : d.currentTcName.isSome = false := by simpa using unnamed
    cases flushed
    rw [track, closed]
    exact ⟨_, .one (.call d.callCounter call)⟩

/-- The end of the stream is a path to where no call is open; it is proper exactly if the flush closes what is. -/
theorem flush_path (flushed : d.flush p = some out) :
    ∃ counter, Path (d.flushCloses p) d.track out.2 ⟨false, counter⟩ := by
  unfold flush at flushed
  unfold flushCloses
  split at flushed
  · next inside =>
    cases flushed
    rw [inside, Bool.not_true, Bool.false_and, Bool.false_and, Bool.or_false]
    exact ⟨_, emitCalls_reset { d with buffer := [], insideDsml := false } (p.parseDsmlInvokes d.buffer)⟩
  · next outside =>
    have plain : d.insideDsml = false := by simpa using outside
    split at flushed
    · next empty =>
      cases flushed
      have same : (d.currentTcName.isNone || (!d.insideDsml && !d.buffer.isEmpty && (d.openBody p).join.isSome)) =
          d.currentTcName.isNone := by simp [empty]
      rw [same]
      exact end_path d
    · next filled =>
      have long : d.buffer.isEmpty = false := by simpa using filled
      rw [plain, long]
      split at flushed
      · cases flushed
      · next call body =>
        rw [body, Option.join_some]
        obtain ⟨counter, path⟩ := flushCall_path flushed
        refine ⟨counter, ?_⟩
        rw [Option.isSome_some, Bool.not_false, Bool.and_true, Bool.and_true, Bool.or_true]
        exact path
      · next noBody =>
        cases flushed
        rw [noBody, Option.join_some, Option.isSome_none, Bool.and_false, Bool.or_false]
        exact flushText_path p d

theorem new_coherent (promoteBareNames bufferArgs : Bool) : (new promoteBareNames bufferArgs).Coherent := by
  intro streamed
  cases streamed

def noParsers : CallParsers :=
  { parseCompleteCall := fun _ _ _ => some none
    parseOneCall := fun _ _ => some none
    parseMinimaxXmlCallsAll := fun _ => []
    parseDsmlInvokes := fun _ => []
    parseBareFunctionCalls := fun _ => (none, [])
    parseJsonFallbackCalls := fun _ => []
    withoutJsonCodeBlocks := id
    gemma4ToJson := some
    coerceKv := fun _ _ key value => (key, value)
    requiredStrings := fun _ => []
    canonicalJson := id
    jsonString := fun text => '"' :: (text ++ ['"'])
    toolCallId := fun n => "call_".toList ++ (toString n).toList }

def mistralText (args : Text) : Text := mistralToolCallsTag ++ ['f'] ++ mistralArgsTag ++ args

def afterMistral (sent : Bool) : StreamingToolDetector :=
  { new false false with minted := 1, callCounter := if sent then 1 else 0, emittedToolCalls := sent }

theorem process_mistral {args : Text} {sent : Bool} {outputs : List DetectorOutput}
    (first : ((new false false).push (mistralText args)).round noParsers = some ⟨afterMistral sent, outputs, true⟩) :
    (new false false).feed noParsers [mistralText args] = some (afterMistral sent, outputs) := by
  have second : (afterMistral sent).round noParsers = some ⟨afterMistral sent, [], false⟩ := by
    cases sent <;> decide +kernel
  have scanned := scan_again first rfl
  rw [scan_stop second rfl, Option.map_some, List.append_nil] at scanned
  rw [feed, process, scanned]
  simp [feed]

theorem feed_with_arguments : (new false false).feed noParsers [mistralText ['{', '1', '}']] =
    some (afterMistral true, [.toolCallStart "call_0".toList ['f'] 0, .toolCallDelta ['{', '1', '}'] 0, .toolCallEnd 0]) :=
  process_mistral (by decide +kernel)

theorem stream_with_arguments : (new false false).stream noParsers [mistralText ['{', '1', '}']] =
    some [.toolCallStart "call_0".toList ['f'] 0, .toolCallDelta ['{', '1', '}'] 0, .toolCallEnd 0] := by
  rw [stream, feed_with_arguments]
  rfl

end StreamingToolDetector

end Metrale.Server
