import Mathlib
import Metrale.Foundation.VecOps

/-! # Prefill waves (`phase_continue_prefills/prefill_waves.rs`)

The streams of one tick are split into waves, one launch each.  With `varlen` every stream joins the first wave that
has its geometry and room for its tokens, or opens one; without it one launch takes them all. -/

namespace Metrale.Scheduler

open Metrale.Foundation

structure WaveGeom where
  chunkStart : Nat
  chunkLen : Nat
  isLast : Bool
deriving DecidableEq

/-- A wave that is being filled: the geometry of its first stream, its tokens, and its streams. -/
structure Wave where
  head : WaveGeom
  total : Nat
  members : List Nat

def Wave.takes (waveTokenCap : Nat) (g : WaveGeom) (wave : Wave) : Bool :=
  wave.head.chunkStart == g.chunkStart && wave.head.isLast == g.isLast && decide (wave.total + g.chunkLen ≤ waveTokenCap)

def Wave.join (stream : WaveGeom × Nat) (wave : Wave) : Wave :=
  { wave with total := wave.total + stream.1.chunkLen, members := wave.members ++ [stream.2] }

def placeStream (waveTokenCap : Nat) (waves : List Wave) (stream : WaveGeom × Nat) : List Wave :=
  match modifyFirst (Wave.takes waveTokenCap stream.1) (Wave.join stream) waves with
  | some found => found.2
  | none => waves ++ [⟨stream.1, stream.1.chunkLen, [stream.2]⟩]

def planPrefillWaves (geoms : List WaveGeom) (varlen : Bool) (waveTokenCap : Nat) : List (List Nat) :=
  if geoms = [] then []
  else if !varlen || geoms.length == 1 then [List.range geoms.length]
  else (geoms.zipIdx.foldl (placeStream waveTokenCap) []).map (·.members)

/-! ## What a wave may hold -/

def waveTokens (geoms : List WaveGeom) (wave : List Nat) : Nat :=
  (wave.map fun i => (geoms[i]?.map (·.chunkLen)).getD 0).sum

def SameGeometry (geoms : List WaveGeom) (wave : List Nat) : Prop :=
  ∃ chunkStart isLast, ∀ i ∈ wave, ∃ g, geoms[i]? = some g ∧ g.chunkStart = chunkStart ∧ g.isLast = isLast

section Filling

variable {geoms : List WaveGeom} {waveTokenCap next : Nat} {wave : Wave} {waves : List Wave} {stream : WaveGeom × Nat}

structure Wave.Filled (geoms : List WaveGeom) (waveTokenCap : Nat) (wave : Wave) : Prop where
  ordered : wave.members.Pairwise (· < ·)
  agrees : ∀ i ∈ wave.members, ∃ g, geoms[i]? = some g ∧ g.chunkStart = wave.head.chunkStart ∧ g.isLast = wave.head.isLast
  counted : wave.total = waveTokens geoms wave.members
  capped : wave.members.length = 1 ∨ wave.total ≤ waveTokenCap

theorem Wave.Filled.join (filled : wave.Filled geoms waveTokenCap) (here : geoms[stream.2]? = some stream.1)
    (later : ∀ i ∈ wave.members, i < stream.2) (takes : wave.takes waveTokenCap stream.1 = true) :
    (wave.join stream).Filled geoms waveTokenCap := by
  simp only [Wave.takes, Bool.and_eq_true, beq_iff_eq, decide_eq_true_eq] at takes
  obtain ⟨⟨start, last⟩, fits⟩ := takes
  constructor
  · simpa [Wave.join, List.pairwise_append, filled.ordered] using later
  · simp only [Wave.join, List.mem_append, List.mem_singleton]
    intro i member
    cases member with
    | inl old => exact filled.agrees i old
    | inr new => exact ⟨stream.1, new ▸ here, start.symm, last.symm⟩
  · simp [Wave.join, waveTokens, filled.counted, here]
  · exact .inr fits

theorem Wave.Filled.opened (here : geoms[stream.2]? = some stream.1) :
    Wave.Filled geoms waveTokenCap ⟨stream.1, stream.1.chunkLen, [stream.2]⟩ where
  ordered := List.pairwise_singleton _ _
  agrees i member := by
    rw [List.mem_singleton.mp member]
    exact ⟨stream.1, here, rfl, rfl⟩
  counted := by simp [waveTokens, here]
  capped := .inl rfl

structure Filling (geoms : List WaveGeom) (waveTokenCap next : Nat) (waves : List Wave) : Prop where
  all : (waves.flatMap (·.members)).Perm (List.range next)
  filled : ∀ wave ∈ waves, wave.Filled geoms waveTokenCap

theorem Filling.place (filling : Filling geoms waveTokenCap next waves) {g : WaveGeom} (here : geoms[next]? = some g) :
    Filling geoms waveTokenCap (next + 1) (placeStream waveTokenCap waves (g, next)) := by
  have grown : (next :: waves.flatMap (·.members)).Perm (List.range (next + 1)) := by
    rw [List.range_succ]
    exact (filling.all.cons next).trans (List.perm_append_singleton next _).symm
  unfold placeStream
  split
  · next found same =>
    obtain ⟨takes, before, rest, rfl, joined⟩ := modifyFirst_eq_some same
    rw [joined]
    constructor
    · refine List.Perm.trans ?_ grown
      simp only [List.flatMap_append, List.flatMap_cons, Wave.join]
      -- the new stream stands behind the members of its wave
      rw [List.append_assoc, List.singleton_append, ← List.append_assoc, ← List.append_assoc]
      exact List.perm_middle
    · intro wave member
      have others := filling.filled
      simp only [List.mem_append, List.mem_cons] at member others
      rcases member with earlier | rfl | later
      · exact others wave (.inl earlier)
      · refine (others found.1 (.inr (.inl rfl))).join here (fun i inside => ?_) takes
        have within := filling.all.subset (List.mem_flatMap.mpr ⟨found.1, by simp, inside⟩)
        exact List.mem_range.mp within
      · exact others wave (.inr (.inr later))
  · constructor
    · rw [List.flatMap_append]
      exact (List.perm_append_singleton next _).trans grown
    · intro wave member
      rw [List.mem_append, List.mem_singleton] at member
      cases member with
      | inl old => exact filling.filled wave old
      | inr new => exact new ▸ .opened here

theorem Filling.run {rest : List WaveGeom} (filling : Filling geoms waveTokenCap next waves) (split : geoms.drop next = rest) :
    Filling geoms waveTokenCap (next + rest.length) ((rest.zipIdx next).foldl (placeStream waveTokenCap) waves) := by
  induction rest generalizing next waves with
  | nil => exact filling
  | cons g rest ih =>
    have here : geoms[next]? = some g := by
      rw [← List.head?_drop, split]
      rfl
    have behind : geoms.drop (next + 1) = rest := by rw [← List.tail_drop, split, List.tail_cons]
    have later := ih (filling.place here) behind
    rw [List.zipIdx_cons, List.foldl_cons, List.length_cons]
    rwa [show next + (rest.length + 1) = next + 1 + rest.length by omega]

end Filling

/-- Every stream is in exactly one wave, in its place.  With `varlen` the streams of a wave share their geometry, and
two or more stay within the cap; without it one wave has all of them. -/
theorem waves_partition (geoms : List WaveGeom) (varlen : Bool) (waveTokenCap : Nat) :
    let waves := planPrefillWaves geoms varlen waveTokenCap
    waves.flatten.Perm (List.range geoms.length) ∧ (∀ wave ∈ waves, wave.Pairwise (· < ·)) ∧
      (if varlen then ∀ wave ∈ waves, SameGeometry geoms wave ∧ (wave.length = 1 ∨ waveTokens geoms wave ≤ waveTokenCap)
      else geoms ≠ [] → waves = [List.range geoms.length]) := by
  intro waves
  by_cases empty : geoms = []
  · have none : waves = [] := if_pos empty
    rw [none, empty]
    cases varlen <;> simp
  by_cases whole : (!varlen || geoms.length == 1) = true
  · have one : waves = [List.range geoms.length] := (if_neg empty).trans (if_pos whole)
    rw [one]
    refine ⟨by simp, by simp [List.pairwise_lt_range], ?_⟩
    cases varlen with
    | false => exact fun _ => rfl
    | true =>
      obtain ⟨g, rfl⟩ := List.length_eq_one_iff.mp (by simpa using whole)
      simp only [if_true, List.mem_singleton, forall_eq]
      exact ⟨⟨g.chunkStart, g.isLast, by simp⟩, .inl rfl⟩
  · have split : waves = (geoms.zipIdx.foldl (placeStream waveTokenCap) []).map (·.members) :=
      (if_neg empty).trans (if_neg whole)
    have filling : Filling geoms waveTokenCap (0 + geoms.length) (geoms.zipIdx.foldl (placeStream waveTokenCap) []) :=
      Filling.run ⟨by simp, by simp⟩ rfl
    rw [Nat.zero_add] at filling
    have varying : varlen = true := by
      cases varlen with
      | false => simp at whole
      | true => rfl
    rw [split, varying]
    refine ⟨?_, ?_, ?_⟩
    · rw [← List.flatMap_def]
      exact filling.all
    · intro wave member
      obtain ⟨wave, inside, rfl⟩ := List.mem_map.mp member
      exact (filling.filled wave inside).ordered
    · rw [if_pos rfl]
      intro wave member
      obtain ⟨wave, inside, rfl⟩ := List.mem_map.mp member
      have filled := filling.filled wave inside
      refine ⟨⟨_, _, filled.agrees⟩, ?_⟩
      rw [← filled.counted]
      exact filled.capped

/-- Without `varlen` one wave mixes geometries. -/
theorem waves_mix : ¬ ∀ (geoms : List WaveGeom) (varlen : Bool) (waveTokenCap : Nat),
    ∀ wave ∈ planPrefillWaves geoms varlen waveTokenCap, SameGeometry geoms wave := by
  intro always
  obtain ⟨chunkStart, isLast, agrees⟩ := always [⟨0, 200, true⟩, ⟨2048, 512, false⟩] false 2048 [0, 1] (by decide)
  obtain ⟨first, isFirst, -, lastOfFirst⟩ := agrees 0 (by decide)
  obtain ⟨second, isSecond, -, lastOfSecond⟩ := agrees 1 (by decide)
  cases isFirst
  cases isSecond
  cases lastOfFirst.trans lastOfSecond.symm

/-- Eleven prompts of 200 tokens: ten fit a wave of 2048. -/
example : planPrefillWaves (List.replicate 11 ⟨0, 200, true⟩) true 2048 = [List.range 10, [10]] := by decide

end Metrale.Scheduler
