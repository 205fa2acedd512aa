import Metrale.Foundation.TextSearch
import Mathlib.Order.Lattice

/-! # Stop strings (`chat_stream/handle_token/stop_holdback.rs`, `chat_stream/handle_done.rs`)

Each delta is searched with a window of the text before it, and the end of the text that could begin a stop string is
held back.  Offsets count bytes; a slice off a character boundary has no result. -/

namespace Metrale.Server

open Metrale.Foundation

structure Holdback where
  accumulatedContent : List Char
  emittedLen : Nat
  triggered : Bool
  deriving DecidableEq

namespace Holdback

def new : Holdback where
  accumulatedContent := []
  emittedLen := 0
  triggered := false

def maxStopLen (stopStrings : List (List Char)) : Nat := (stopStrings.map byteLength).max?.getD 0

/-- `stop_string_buffer_len` -/
def bufferLen (stopStrings : List (List Char)) : Nat := maxStopLen stopStrings - 1

def find (needle text : List Char) : Option Nat := (splitFirst needle text).map fun parts => byteLength parts.1

/-- `apply_stop_string_holdback`.  The callers see to it that nothing has triggered. -/
def apply (newChars : List Char) (stopStrings : List (List Char)) (bufferLen : Nat) (hold : Holdback) :
    Option (List Char × Holdback) :=
  let accumulated := hold.accumulatedContent ++ newChars
  let raw := byteLength accumulated - (byteLength newChars + bufferLen + maxStopLen stopStrings)
  let searchStart := floorCharBoundary accumulated raw
  (cutAt searchStart accumulated).bind fun window =>
    match (stopStrings.filterMap fun s => find s window.2).min? with
    | some rel =>
      let pos := rel + searchStart
      (cutAt pos accumulated).bind fun kept =>
        (slice kept.1 (min hold.emittedLen pos) pos).map fun out =>
          (out, { accumulatedContent := kept.1, emittedLen := pos, triggered := true })
    | none =>
      let emitEnd := floorCharBoundary accumulated (byteLength accumulated - bufferLen)
      (slice accumulated (min hold.emittedLen emitEnd) emitEnd).map fun out =>
        (out, { hold with accumulatedContent := accumulated, emittedLen := emitEnd })

def run (stopStrings : List (List Char)) : Holdback → List (List Char) → Option (List Char × Holdback)
  | hold, [] => some ([], hold)
  | hold, delta :: deltas =>
    if hold.triggered then some ([], hold)
    else
      (hold.apply delta stopStrings (bufferLen stopStrings)).bind fun (out, hold) =>
        (run stopStrings hold deltas).map fun (rest, hold) => (out ++ rest, hold)

/-- The tail that `handle_done` releases. -/
def releaseTail (stopStrings : List (List Char)) (hold : Holdback) : Option (List Char) :=
  if stopStrings ≠ [] ∧ hold.triggered = false ∧ hold.emittedLen < byteLength hold.accumulatedContent then
    slice hold.accumulatedContent hold.emittedLen (byteLength hold.accumulatedContent)
  else some []

def stream (stopStrings : List (List Char)) (deltas : List (List Char)) : Option (List Char) :=
  (new.run stopStrings deltas).bind fun (out, hold) => (hold.releaseTail stopStrings).map (out ++ ·)

/-! ## Occurrences -/

variable {stopStrings : List (List Char)} {text newChars out : List Char} {hold : Holdback}

def Occurs (stopStrings : List (List Char)) (text : List Char) : Prop :=
  ∃ stop ∈ stopStrings, ∃ before after, text = before ++ stop ++ after

structure EarliestCut (stopStrings : List (List Char)) (text out : List Char) : Prop where
  stops : ∃ stop ∈ stopStrings, ∃ after, text = out ++ stop ++ after
  least : ∀ stop ∈ stopStrings, ∀ before after, text = before ++ stop ++ after → out.length ≤ before.length

/-- Where a stop string occurs in one, it begins or ends it. -/
def NoInterior (stopStrings : List (List Char)) : Prop :=
  ∀ stop ∈ stopStrings, ∀ other ∈ stopStrings, ∀ before after, other = before ++ stop ++ after → before = [] ∨ after = []

theorem byteLength_le_max {stop : List Char} (listed : stop ∈ stopStrings) : byteLength stop ≤ maxStopLen stopStrings :=
  List.le_max?_getD_of_mem (List.mem_map_of_mem listed)

theorem occurrence_late {stop before after : List Char} (nonempty : stop ≠ []) (listed : stop ∈ stopStrings)
    (absent : ¬ Occurs stopStrings text) (occurs : text ++ newChars = before ++ stop ++ after) :
    byteLength text - bufferLen stopStrings ≤ byteLength before := by
  have bound := byteLength_le_max listed
  have positive : byteLength stop ≠ 0 := fun zero => nonempty (byteLength_eq_zero.mp zero)
  have ends : byteLength text < byteLength before + byteLength stop := by
    by_contra inside
    rw [← byteLength_append] at inside
    obtain ⟨rest, same⟩ := prefix_of_byteLength_le occurs.symm (Nat.le_of_not_lt inside)
    exact absent ⟨stop, listed, before, rest, same.symm⟩
  unfold bufferLen
  omega

/-! ## One delta -/

/-- Nothing has triggered: what is held back begins where the next stop string may. -/
structure Holds (stopStrings : List (List Char)) (hold : Holdback) (text out : List Char) : Prop where
  accumulated : hold.accumulatedContent = text
  triggered : hold.triggered = false
  absent : ¬ Occurs stopStrings text
  emitted : hold.emittedLen = byteLength out
  begins : out <+: text
  floor : byteLength out = floorCharBoundary text (byteLength text - bufferLen stopStrings)

theorem Holds.emitted_le {stop before after : List Char} (holds : Holds stopStrings hold text out) (nonempty : stop ≠ [])
    (listed : stop ∈ stopStrings) (occurs : text ++ newChars = before ++ stop ++ after) : out <+: before := by
  have late := occurrence_late nonempty listed holds.absent occurs
  have floor := holds.floor
  have below := floorCharBoundary_le text (byteLength text - bufferLen stopStrings)
  obtain ⟨rest, rfl⟩ := holds.begins
  rw [List.append_assoc, List.append_assoc] at occurs
  exact prefix_of_byteLength_le occurs (by omega)

theorem Holds.step (nonempty : ∀ stop ∈ stopStrings, stop ≠ []) (holds : Holds stopStrings hold text out) :
    ∃ more after, hold.apply newChars stopStrings (bufferLen stopStrings) = some (more, after) ∧
      (Holds stopStrings after (text ++ newChars) (out ++ more) ∨
        after.triggered = true ∧ EarliestCut stopStrings (text ++ newChars) (out ++ more)) := by
  obtain ⟨skipped, window, split, start⟩ := floorCharBoundary_split (text ++ newChars)
    (byteLength (text ++ newChars) - (byteLength newChars + bufferLen stopStrings + maxStopLen stopStrings))
  have startLow := floorCharBoundary_le (text ++ newChars)
    (byteLength (text ++ newChars) - (byteLength newChars + bufferLen stopStrings + maxStopLen stopStrings))
  rw [← start] at startLow
  -- the window holds every occurrence
  have inWindow : ∀ stop ∈ stopStrings, ∀ before after, text ++ newChars = before ++ stop ++ after →
      ∃ rel, before = skipped ++ rel ∧ window = rel ++ stop ++ after := by
    intro stop listed before after occurs
    have late := occurrence_late (nonempty stop listed) listed holds.absent occurs
    have shorter : byteLength skipped ≤ byteLength before := by
      rw [byteLength_append] at startLow
      omega
    have same : skipped ++ window = before ++ (stop ++ after) := by rw [← split, occurs, List.append_assoc]
    obtain ⟨rel, rfl⟩ := prefix_of_byteLength_le same shorter
    refine ⟨rel, rfl, ?_⟩
    rw [List.append_assoc] at same
    rw [List.append_cancel_left same, List.append_assoc]
  have opened : cutAt (byteLength skipped) (text ++ newChars) = some (skipped, window) := by
    rw [split, cutAt_byteLength]
  simp only [apply, holds.accumulated, ← start, opened, Option.bind_some]
  cases found : (stopStrings.filterMap fun s => find s window).min? with
  | some rel =>
    obtain ⟨member, least⟩ := List.min?_eq_some_iff.mp found
    obtain ⟨stop, listed, foundStop⟩ := List.mem_filterMap.mp member
    obtain ⟨⟨relBefore, relAfter⟩, first, rfl⟩ := Option.map_eq_some_iff.mp foundStop
    have windowSplit := splitFirst_eq first
    have occurs : text ++ newChars = (skipped ++ relBefore) ++ stop ++ relAfter := by
      rw [split, windowSplit]
      simp
    obtain ⟨more, kept⟩ := holds.emitted_le (nonempty stop listed) listed occurs
    have position : byteLength relBefore + byteLength skipped = byteLength (out ++ more) := by
      rw [kept, byteLength_append, Nat.add_comm]
    have emitted : hold.emittedLen ≤ byteLength (out ++ more) := by
      rw [holds.emitted, byteLength_append]
      exact Nat.le_add_right _ _
    have truncated : cutAt (byteLength relBefore + byteLength skipped) (text ++ newChars) =
        some (out ++ more, stop ++ relAfter) := by
      rw [position, occurs, kept, List.append_assoc, cutAt_byteLength]
    have sliced := slice_byteLength out more []
    rw [List.append_nil] at sliced
    refine ⟨more, ⟨out ++ more, byteLength (out ++ more), true⟩, ?_, .inr ⟨rfl, ⟨stop, listed, relAfter, ?_⟩, ?_⟩⟩
    · simp only [truncated, Option.bind_some]
      rw [position, Nat.min_eq_left emitted, holds.emitted, sliced]
      rfl
    · rw [occurs, kept]
    · intro other otherListed before after otherOccurs
      obtain ⟨otherRel, rfl, otherWindow⟩ := inWindow other otherListed before after otherOccurs
      obtain ⟨parts, otherFirst⟩ := splitFirst_isSome otherWindow
      have foundLeast := splitFirst_least otherFirst otherWindow
      have minimal := least (byteLength parts.1)
        (List.mem_filterMap.mpr ⟨other, otherListed, by rw [find, otherFirst]; rfl⟩)
      have sameWindow := (splitFirst_eq first).symm.trans (splitFirst_eq otherFirst)
      rw [List.append_assoc, List.append_assoc] at sameWindow
      have shorter := (prefix_of_byteLength_le sameWindow minimal).length_le
      rw [kept, List.length_append, List.length_append]
      omega
  | none =>
    have nothing := List.min?_eq_none_iff.mp found
    have absent : ¬ Occurs stopStrings (text ++ newChars) := by
      rintro ⟨stop, listed, before, after, occurs⟩
      obtain ⟨rel, -, windowSplit⟩ := inWindow stop listed before after occurs
      obtain ⟨parts, first⟩ := splitFirst_isSome windowSplit
      have unfound := List.filterMap_eq_nil_iff.mp nothing stop listed
      rw [find, first] at unfound
      cases unfound
    obtain ⟨before, after, cut, length⟩ := floorCharBoundary_split (text ++ newChars)
      (byteLength (text ++ newChars) - bufferLen stopStrings)
    have further : byteLength out ≤ byteLength before := by
      rw [length, holds.floor, ← floorCharBoundary_append newChars (Nat.sub_le _ _)]
      refine floorCharBoundary_mono _ ?_
      rw [byteLength_append]
      omega
    obtain ⟨held, rest⟩ := holds.begins
    have same : out ++ (held ++ newChars) = before ++ after := by rw [← cut, ← rest, List.append_assoc]
    obtain ⟨more, rfl⟩ := prefix_of_byteLength_le same further
    have sliced := slice_byteLength out more after
    have emitted : hold.emittedLen ≤ byteLength (out ++ more) := by
      rw [holds.emitted, byteLength_append]
      exact Nat.le_add_right _ _
    refine ⟨more, { hold with accumulatedContent := text ++ newChars, emittedLen := byteLength (out ++ more) }, ?_,
      .inl ⟨rfl, holds.triggered, absent, rfl, ⟨after, cut.symm⟩, length⟩⟩
    simp only [← length, Nat.min_eq_left emitted]
    rw [holds.emitted, cut, sliced]
    rfl

/-! ## Runs -/

/-- The earliest cut of the text up to the first delta that completes a stop string, or the whole text. -/
def CutInTime (stopStrings : List (List Char)) (text : List Char) (deltas : List (List Char)) (out : List Char) : Prop :=
  (¬ Occurs stopStrings (text ++ deltas.flatten) ∧ out = text ++ deltas.flatten) ∨
  ∃ earlier delta later, deltas = earlier ++ delta :: later ∧ ¬ Occurs stopStrings (text ++ earlier.flatten) ∧
    EarliestCut stopStrings (text ++ earlier.flatten ++ delta) out

theorem Holds.run (nonempty : ∀ stop ∈ stopStrings, stop ≠ []) {deltas : List (List Char)}
    (holds : Holds stopStrings hold text out) :
    ∃ more after tail, hold.run stopStrings deltas = some (more, after) ∧ after.releaseTail stopStrings = some tail ∧
      CutInTime stopStrings text deltas (out ++ more ++ tail) := by
  induction deltas generalizing hold text out with
  | nil =>
    obtain ⟨held, rfl⟩ := holds.begins
    have accumulated := holds.accumulated
    have sliced := slice_byteLength out held []
    rw [List.append_nil] at sliced
    by_cases nothing : held = []
    · subst nothing
      rw [List.append_nil] at accumulated
      refine ⟨[], hold, [], rfl, ?_, .inl ⟨by simpa using holds.absent, by simp⟩⟩
      rw [releaseTail, if_neg]
      rintro ⟨-, -, unsent⟩
      rw [accumulated, holds.emitted] at unsent
      exact Nat.lt_irrefl _ unsent
    · refine ⟨[], hold, held, rfl, ?_, .inl ⟨by simpa using holds.absent, by simp⟩⟩
      have unsent : hold.emittedLen < byteLength hold.accumulatedContent := by
        have positive : byteLength held ≠ 0 := fun zero => nothing (byteLength_eq_zero.mp zero)
        rw [accumulated, holds.emitted, byteLength_append]
        omega
      have some_stop : stopStrings ≠ [] := by
        -- without stop strings nothing is held back
        rintro rfl
        have floor := holds.floor
        rw [bufferLen, show maxStopLen [] = 0 from rfl, Nat.sub_zero, floorCharBoundary_byteLength] at floor
        rw [accumulated, holds.emitted, floor] at unsent
        exact Nat.lt_irrefl _ unsent
      rw [releaseTail, if_pos ⟨some_stop, holds.triggered, unsent⟩, accumulated, holds.emitted, sliced]
  | cons delta deltas ih =>
    obtain ⟨more, after, applied, continued⟩ := @Holds.step stopStrings text delta out hold nonempty holds
    obtain continued | ⟨triggered, cut⟩ := continued
    · obtain ⟨rest, last, tail, ran, released, sent⟩ := ih continued
      refine ⟨more ++ rest, last, tail, ?_, released, ?_⟩
      · rw [Holdback.run, if_neg (by rw [holds.triggered]; exact Bool.false_ne_true), applied]
        simp only [Option.bind_some, ran, Option.map_some]
      · rw [← List.append_assoc]
        obtain ⟨absent, whole⟩ | ⟨earlier, found, later, rfl, absent, cut⟩ := sent
        · exact .inl ⟨by simpa using absent, by simpa using whole⟩
        · exact .inr ⟨delta :: earlier, found, later, rfl, by simpa using absent, by simpa using cut⟩
    · refine ⟨more, after, [], ?_, ?_, .inr ⟨[], delta, deltas, rfl, by simpa using holds.absent, by simpa using cut⟩⟩
      · rw [Holdback.run, if_neg (by rw [holds.triggered]; exact Bool.false_ne_true), applied, Option.bind_some]
        cases deltas with
        | nil => simp [Holdback.run]
        | cons next deltas => simp [Holdback.run, triggered]
      · rw [releaseTail, if_neg]
        rintro ⟨-, untriggered, -⟩
        rw [triggered] at untriggered
        cases untriggered

theorem EarliestCut.extend (apart : NoInterior stopStrings) (cut : EarliestCut stopStrings text out)
    (rest : List Char) : EarliestCut stopStrings (text ++ rest) out := by
  obtain ⟨⟨stop, listed, after, split⟩, least⟩ := cut
  refine ⟨⟨stop, listed, after ++ rest, by rw [split, List.append_assoc]⟩, fun other otherListed before rest' occurs => ?_⟩
  by_contra! earlier
  obtain ⟨inside, split'⟩ | ⟨beyond, split'⟩ := List.append_eq_append_iff.mp occurs
  · -- the other stop string ends after the text
    have within : before <+: out := by
      have whole : before ++ (other ++ rest') = out ++ (stop ++ after ++ rest) := by
        rw [← List.append_assoc, ← occurs, split]
        simp
      exact List.prefix_of_prefix_length_le ⟨_, whole⟩ (List.prefix_append _ _) earlier.le
    obtain ⟨gap, rfl⟩ := within
    have covers : other = gap ++ stop ++ (after ++ inside) := by
      have joined := split'.1
      rw [split] at joined
      simpa using joined
    obtain rfl | nothing := apart stop listed other otherListed gap _ covers
    · simp at earlier
    · obtain ⟨rfl, rfl⟩ := List.append_eq_nil_iff.mp nothing
      refine absurd (least other otherListed before [] ?_) (Nat.not_le.mpr earlier)
      rw [List.append_nil, split'.1, List.append_nil]
  · exact absurd (least other otherListed before beyond split'.1) (Nat.not_le.mpr earlier)

theorem holds_new (nonempty : ∀ stop ∈ stopStrings, stop ≠ []) : Holds stopStrings new [] [] where
  accumulated := rfl
  triggered := rfl
  absent := by
    rintro ⟨stop, listed, before, after, split⟩
    obtain ⟨front, -⟩ := List.append_eq_nil_iff.mp split.symm
    exact nonempty stop listed (List.append_eq_nil_iff.mp front).2
  emitted := rfl
  begins := List.prefix_rfl
  floor := rfl

/-- A stream sends the text cut at the earliest start of a stop string that is complete when the first one is.
When no stop string is inside another, that is the earliest start of all. -/
theorem stream_cuts (nonempty : ∀ stop ∈ stopStrings, stop ≠ []) (deltas : List (List Char)) :
    ∃ out, stream stopStrings deltas = some out ∧ CutInTime stopStrings [] deltas out ∧
      (NoInterior stopStrings → (¬ Occurs stopStrings deltas.flatten ∧ out = deltas.flatten) ∨
        EarliestCut stopStrings deltas.flatten out) := by
  obtain ⟨more, after, tail, ran, released, sent⟩ := @Holds.run stopStrings [] [] new nonempty deltas (holds_new nonempty)
  refine ⟨more ++ tail, ?_, sent, fun apart => ?_⟩
  · rw [stream, ran]
    simp only [Option.bind_some, released, Option.map_some]
  · obtain whole | ⟨earlier, delta, later, rfl, -, cut⟩ := sent
    · exact .inl whole
    · have extended := cut.extend apart later.flatten
      simp only [List.nil_append] at extended
      refine .inr ?_
      simpa using extended

theorem stream_cuts_split : ∃ out, stream ["STOP".toList] ["aST".toList, "OP".toList] = some out ∧
    CutInTime ["STOP".toList] [] ["aST".toList, "OP".toList] out ∧
      (NoInterior ["STOP".toList] → (¬ Occurs ["STOP".toList] "aSTOP".toList ∧ out = "aSTOP".toList) ∨
        EarliestCut ["STOP".toList] "aSTOP".toList out) :=
  stream_cuts (by decide) ["aST".toList, "OP".toList]

/-- `bc` is inside `abcd`.  One delta is cut before `a`; one that ends in `c` is cut after it. -/
theorem stream_depends_on_deltas :
    ¬ ∀ stopStrings deltas : List (List Char), (∀ stop ∈ stopStrings, stop ≠ []) →
      ∃ out, stream stopStrings deltas = some out ∧
        ((¬ Occurs stopStrings deltas.flatten ∧ out = deltas.flatten) ∨
          EarliestCut stopStrings deltas.flatten out) := by
  intro exact_
  obtain ⟨out, sent, cut⟩ := exact_ ["abcd".toList, "bc".toList] ["abc".toList, "d".toList] (by decide)
  have streamed : stream ["abcd".toList, "bc".toList] ["abc".toList, "d".toList] = some "a".toList := by decide
  obtain rfl := Option.some.inj (streamed.symm.trans sent)
  obtain ⟨absent, -⟩ | ⟨-, least⟩ := cut
  · exact absent ⟨"abcd".toList, by decide, [], [], rfl⟩
  · exact absurd (least "abcd".toList (by decide) [] [] rfl) (by decide)

end Holdback

end Metrale.Server
