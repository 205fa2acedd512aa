import Metrale.Server.ToolDetector

/-! # The protocol of tool events

A call is one whole `ToolCall`, or a start, its arguments and an end.  An emitter moves from event to event with one
index at a time: it is the open call's, or the next call's.  Moves that lose an open call cannot be made up for by any
later ones. -/

namespace Metrale.Server

namespace DetectorOutput

def index : DetectorOutput → Option Nat
  | content _ => none
  | toolCall _ idx | toolCallStart _ _ idx | toolCallDelta _ idx | toolCallArgsFragment _ idx | toolCallEnd idx => some idx

def IsArgs (idx : Nat) (output : DetectorOutput) : Prop :=
  (∃ args, output = toolCallDelta args idx) ∨ ∃ fragment, output = toolCallArgsFragment fragment idx

theorem IsArgs.index {idx : Nat} {output : DetectorOutput} (args : output.IsArgs idx) : output.index = some idx := by
  obtain ⟨args, rfl⟩ | ⟨fragment, rfl⟩ := args
  · rfl
  · rfl

def Begins (idx : Nat) (output : DetectorOutput) : Prop :=
  (∃ id name, output = toolCallStart id name idx) ∨ ∃ call, output = toolCall call idx

end DetectorOutput

namespace ToolEvents

open DetectorOutput

def about (idx : Nat) (outputs : List DetectorOutput) : List DetectorOutput :=
  outputs.filter fun output => decide (output.index = some idx)

theorem about_append (idx : Nat) (outputs more : List DetectorOutput) :
    about idx (outputs ++ more) = about idx outputs ++ about idx more := List.filter_append ..

theorem about_one {idx : Nat} {output : DetectorOutput} (here : output.index = some idx) : about idx [output] = [output] := by
  simp [about, here]

theorem about_other {idx : Nat} {output : DetectorOutput} (elsewhere : output.index ≠ some idx) : about idx [output] = [] := by
  simp [about, elsewhere]

def Served (idx : Nat) (events : List DetectorOutput) : Prop :=
  events = [] ∨ (∃ call, events = [.toolCall call idx]) ∨
    ∃ id name args, events = .toolCallStart id name idx :: (args ++ [.toolCallEnd idx]) ∧ ∀ output ∈ args, output.IsArgs idx

/-- Every start has its end, the arguments are between them, and no index begins twice. -/
def InOrder (outputs : List DetectorOutput) : Prop := ∀ idx, Served idx (about idx outputs)

def Opened (idx : Nat) (events : List DetectorOutput) : Prop :=
  ∃ id name args, events = .toolCallStart id name idx :: args ∧ ∀ output ∈ args, output.IsArgs idx

def Broken (idx : Nat) (events : List DetectorOutput) : Prop := ∀ later, ¬Served idx (events ++ later)

theorem opened_unserved {idx : Nat} {events : List DetectorOutput} (opened : Opened idx events) : ¬Served idx events := by
  obtain ⟨id, name, args, rfl, allArgs⟩ := opened
  rintro (none | ⟨call, whole⟩ | ⟨id', name', args', closed, -⟩)
  · cases none
  · cases whole
  · have last : .toolCallEnd idx ∈ args := by
      obtain ⟨-, rest⟩ := List.cons.inj closed
      rw [rest]
      exact List.mem_append_right _ List.mem_cons_self
    obtain ⟨_, same⟩ | ⟨_, same⟩ := allArgs _ last
    · cases same
    · cases same

theorem opened_begins {idx : Nat} {events : List DetectorOutput} {output : DetectorOutput} (opened : Opened idx events)
    (begins : output.Begins idx) (later : List DetectorOutput) : Broken idx (events ++ output :: later) := by
  obtain ⟨id, name, args, rfl, -⟩ := opened
  rintro more (none | ⟨call, whole⟩ | ⟨id', name', args', closed, allArgs⟩)
  · cases none
  · cases whole
  · have among : output ∈ args' ++ [.toolCallEnd idx] := by
      rw [← (List.cons.inj closed).2]
      simp
    obtain inArgs | last := List.mem_append.mp among
    · obtain ⟨_, rfl⟩ | ⟨_, rfl⟩ := allArgs output inArgs <;> obtain ⟨_, _, same⟩ | ⟨_, same⟩ := begins <;> cases same
    · rw [List.mem_singleton.mp last] at begins
      obtain ⟨_, _, same⟩ | ⟨_, same⟩ := begins <;> cases same

/-! ## Moves -/

structure Track where
  opened : Bool
  counter : Nat

/-- What an emitter does at once; a proper move keeps to the protocol. -/
inductive Move : Bool → Track → List DetectorOutput → Track → Prop where
  | content (track : Track) (text : Text) : Move true track [.content text] track
  | start (c : Nat) (id name : Text) : Move true ⟨false, c⟩ [.toolCallStart id name c] ⟨true, c⟩
  | args (c : Nat) {output : DetectorOutput} (args : output.IsArgs c) : Move true ⟨true, c⟩ [output] ⟨true, c⟩
  | close (c : Nat) : Move true ⟨true, c⟩ [.toolCallEnd c] ⟨false, c + 1⟩
  | call (c : Nat) (call : ToolCall) : Move true ⟨false, c⟩ [.toolCall call c] ⟨false, c + 1⟩
  | dropped (c : Nat) : Move false ⟨true, c⟩ [] ⟨false, c⟩
  | begun (c : Nat) {output : DetectorOutput} (begins : output.Begins c) (rest : List DetectorOutput) (track : Track) :
    Move false ⟨true, c⟩ (output :: rest) track

inductive Path : Bool → Track → List DetectorOutput → Track → Prop where
  | stay (track : Track) : Path true track [] track
  | move {proper rest : Bool} {first middle last : Track} {outputs more : List DetectorOutput} :
    Move proper first outputs middle → Path rest middle more last → Path (proper && rest) first (outputs ++ more) last

namespace Path

variable {proper rest : Bool} {first middle last : Track} {outputs more : List DetectorOutput}

theorem one (move : Move proper first outputs last) : Path proper first outputs last := by
  have path := Path.move move (.stay last)
  simpa using path

theorem trans (path : Path proper first outputs middle) (then_ : Path rest middle more last) :
    Path (proper && rest) first (outputs ++ more) last := by
  induction path with
  | stay track => simpa using then_
  | move taken _ ih =>
    rw [Bool.and_assoc, List.append_assoc]
    exact .move taken (ih then_)

end Path

/-! ## What the moves keep -/

structure OnTrack (trace : List DetectorOutput) (track : Track) : Prop where
  past : ∀ idx < track.counter, Served idx (about idx trace)
  current : if track.opened = true then Opened track.counter (about track.counter trace)
    else about track.counter trace = []
  future : ∀ idx, track.counter < idx → about idx trace = []

/-- A call has been lost: its index has begun again, or nobody knows any more that it is open. -/
def Lost (trace : List DetectorOutput) (track : Track) : Prop :=
  (∃ idx, Broken idx (about idx trace)) ∨ track.opened = false ∧ Opened track.counter (about track.counter trace)

variable {trace outputs : List DetectorOutput} {first last : Track} {proper : Bool}

theorem broken_append {idx : Nat} (broken : Broken idx (about idx trace)) (outputs : List DetectorOutput) :
    Broken idx (about idx (trace ++ outputs)) := by
  intro later
  rw [about_append, List.append_assoc]
  exact broken _

theorem lost_move (lost : Lost trace first) (move : Move proper first outputs last) : Lost (trace ++ outputs) last := by
  obtain ⟨idx, broken⟩ | ⟨unknown, opened⟩ := lost
  · exact .inl ⟨idx, broken_append broken outputs⟩
  · cases move with
    | content text =>
      right
      rw [about_append, about_other (by simp [DetectorOutput.index]), List.append_nil]
      exact ⟨unknown, opened⟩
    | start c id name =>
      left
      refine ⟨c, ?_⟩
      rw [about_append, about_one rfl]
      exact opened_begins opened (.inl ⟨id, name, rfl⟩) []
    | call c call =>
      left
      refine ⟨c, ?_⟩
      rw [about_append, about_one rfl]
      exact opened_begins opened (.inr ⟨call, rfl⟩) []
    | args c _ => cases unknown
    | close c => cases unknown
    | dropped c => cases unknown
    | begun c _ rest => cases unknown

theorem lost_path (lost : Lost trace first) (path : Path proper first outputs last) : Lost (trace ++ outputs) last := by
  induction path generalizing trace with
  | stay track => simpa using lost
  | move taken _ ih =>
    rw [← List.append_assoc]
    exact ih (lost_move lost taken)

theorem about_event {output : DetectorOutput} {c : Nat} (here : output.index = some c) (trace : List DetectorOutput)
    (idx : Nat) : about idx (trace ++ [output]) = if idx = c then about c trace ++ [output] else about idx trace := by
  rw [about_append]
  split
  · next same =>
    rw [same, about_one here]
  · next apart =>
    rw [about_other (by rw [here]; simpa using Ne.symm apart), List.append_nil]

theorem OnTrack.stays {c : Nat} {opened : Bool} (onTrack : OnTrack trace ⟨opened, c⟩) {output : DetectorOutput}
    (here : output.index = some c) (current : Opened c (about c trace ++ [output])) :
    OnTrack (trace ++ [output]) ⟨true, c⟩ := by
  have events := about_event here trace
  refine ⟨?_, ?_, ?_⟩
  · intro idx before
    rw [events, if_neg (Nat.ne_of_lt before)]
    exact onTrack.past idx before
  · simpa [events] using current
  · intro idx beyond
    rw [events, if_neg (Nat.ne_of_gt beyond)]
    exact onTrack.future idx beyond

theorem OnTrack.ends {c : Nat} {opened : Bool} (onTrack : OnTrack trace ⟨opened, c⟩) {output : DetectorOutput}
    (here : output.index = some c) (served : Served c (about c trace ++ [output])) :
    OnTrack (trace ++ [output]) ⟨false, c + 1⟩ := by
  have events := about_event here trace
  refine ⟨?_, ?_, ?_⟩
  · intro idx before
    rw [events]
    split
    · next same =>
      rw [same]
      exact served
    · next apart => exact onTrack.past idx (Nat.lt_of_le_of_ne (Nat.le_of_lt_succ before) apart)
  · simpa [events] using onTrack.future (c + 1) (Nat.lt_succ_self c)
  · intro idx after
    have beyond : c < idx := Nat.lt_of_succ_lt after
    rw [events, if_neg (Nat.ne_of_gt beyond)]
    exact onTrack.future idx beyond

theorem onTrack_move (onTrack : OnTrack trace first) (move : Move true first outputs last) :
    OnTrack (trace ++ outputs) last := by
  have current := onTrack.current
  cases move with
  | content _ text =>
    have same : ∀ idx, about idx (trace ++ [.content text]) = about idx trace := by
      intro idx
      rw [about_append, about_other (by simp [DetectorOutput.index]), List.append_nil]
    exact ⟨by simpa only [same] using onTrack.past, by simpa only [same] using current,
      by simpa only [same] using onTrack.future⟩
  | start c id name =>
    have none : about c trace = [] := by simpa using current
    apply onTrack.stays rfl
    rw [none]
    exact ⟨id, name, [], rfl, by simp⟩
  | @args c output isArgs =>
    obtain ⟨id, name, args, events, allArgs⟩ : Opened c (about c trace) := by simpa using current
    apply onTrack.stays isArgs.index
    rw [events]
    refine ⟨id, name, args ++ [output], rfl, ?_⟩
    intro other among
    obtain earlier | here := List.mem_append.mp among
    · exact allArgs other earlier
    · rw [List.mem_singleton.mp here]
      exact isArgs
  | close c =>
    obtain ⟨id, name, args, events, allArgs⟩ : Opened c (about c trace) := by simpa using current
    apply onTrack.ends rfl
    rw [events]
    exact .inr (.inr ⟨id, name, args, rfl, allArgs⟩)
  | call c call =>
    have none : about c trace = [] := by simpa using current
    apply onTrack.ends rfl
    rw [none]
    exact .inr (.inl ⟨call, rfl⟩)

theorem onTrack_lost (onTrack : OnTrack trace first) (move : Move false first outputs last) :
    Lost (trace ++ outputs) last := by
  have current := onTrack.current
  cases move with
  | dropped c =>
    right
    rw [List.append_nil]
    exact ⟨rfl, by simpa using current⟩
  | @begun c output begins rest =>
    left
    have opened : Opened c (about c trace) := by simpa using current
    have here : output.index = some c := by
      obtain ⟨_, _, rfl⟩ | ⟨_, rfl⟩ := begins
      · rfl
      · rfl
    refine ⟨c, ?_⟩
    rw [about_append, show output :: rest = [output] ++ rest from rfl, about_append, about_one here]
    exact opened_begins opened begins (about c rest)

theorem onTrack_path (onTrack : OnTrack trace first) (path : Path proper first outputs last) :
    if proper = true then OnTrack (trace ++ outputs) last else Lost (trace ++ outputs) last := by
  induction path generalizing trace with
  | stay track => simpa using onTrack
  | @move proper rest first middle last outputs more taken later ih =>
    rw [← List.append_assoc]
    cases proper with
    | true => exact ih (onTrack_move onTrack taken)
    | false => exact lost_path (onTrack_lost onTrack taken) later

theorem onTrack_start : OnTrack [] ⟨false, 0⟩ :=
  ⟨fun _ none => absurd none (Nat.not_lt_zero _), rfl, fun _ _ => rfl⟩

theorem onTrack_done {counter : Nat} (onTrack : OnTrack trace ⟨false, counter⟩) : InOrder trace := by
  intro idx
  obtain before | after := Nat.lt_or_ge idx counter
  · exact onTrack.past idx before
  · left
    obtain rfl | beyond := Nat.eq_or_lt_of_le after
    · simpa using onTrack.current
    · exact onTrack.future idx beyond

theorem lost_done (lost : Lost trace last) : ¬InOrder trace := by
  intro inOrder
  obtain ⟨idx, broken⟩ | ⟨-, opened⟩ := lost
  · apply broken []
    rw [List.append_nil]
    exact inOrder idx
  · exact opened_unserved opened (inOrder last.counter)

end ToolEvents

end Metrale.Server
