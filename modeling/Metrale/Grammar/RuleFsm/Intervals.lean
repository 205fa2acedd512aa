import Mathlib.Data.Finset.Sort

/-! # The intervals of overlapping ranges (`fsm/algorithms.rs`)

The ends of some byte ranges cut the axis into stretches.  No range ends inside of a stretch, so a range covers the
whole of it or nothing. -/

namespace Metrale.Grammar

def allowed (ranges : List (Nat × Nat)) (char : Nat) : Bool :=
  ranges.any fun range => range.1 ≤ char && char ≤ range.2

def intervalEnds (ranges : List (Nat × Nat)) : Finset Nat :=
  (ranges.flatMap fun range => [range.1, range.2 + 1]).toFinset

/-- The stretches from one end to the next all of whose bytes are covered. -/
def intervalsFrom (ranges : List (Nat × Nat)) (last : Nat) : List Nat → List (Nat × Nat)
  | [] => []
  | stop :: stops =>
    if (List.range' last (stop - last)).all (allowed ranges) then (last, stop - 1) :: intervalsFrom ranges stop stops
    else intervalsFrom ranges stop stops

def intervals (ranges : List (Nat × Nat)) : List (Nat × Nat) :=
  match (intervalEnds ranges).sort (· ≤ ·) with
  | [] => []
  | first :: stops => intervalsFrom ranges first stops

variable {ranges : List (Nat × Nat)} {last char low high : Nat} {stops : List Nat}

theorem allowed_iff : allowed ranges char = true ↔ ∃ range ∈ ranges, range.1 ≤ char ∧ char ≤ range.2 := by
  simp [allowed]

theorem mem_intervalEnds {stop : Nat} :
    stop ∈ intervalEnds ranges ↔ ∃ range ∈ ranges, stop = range.1 ∨ stop = range.2 + 1 := by
  simp [intervalEnds]

def Neighbours (stops : List Nat) (low stop : Nat) : Prop :=
  low ∈ stops ∧ stop ∈ stops ∧ low < stop ∧ ∀ other ∈ stops, other ≤ low ∨ stop ≤ other

theorem Neighbours.cons (neighbours : Neighbours (last :: stops) low high) {first : Nat} (before : first < last)
    (ascending : (last :: stops).Pairwise (· < ·)) : Neighbours (first :: last :: stops) low high := by
  obtain ⟨lowAmong, highAmong, less, apart⟩ := neighbours
  refine ⟨List.mem_cons_of_mem _ lowAmong, List.mem_cons_of_mem _ highAmong, less, fun other among => ?_⟩
  rcases List.mem_cons.mp among with rfl | rest
  · rcases List.mem_cons.mp lowAmong with rfl | later
    · exact .inl (Nat.le_of_lt before)
    · exact .inl (Nat.le_of_lt (before.trans (List.rel_of_pairwise_cons ascending later)))
  · exact apart other rest

theorem neighbours_of_mem (ascending : (last :: stops).Pairwise (· < ·)) (found : (low, high) ∈ intervalsFrom ranges last stops) :
    ∃ stop, high = stop - 1 ∧ Neighbours (last :: stops) low stop ∧ ∀ char, low ≤ char → char < stop → allowed ranges char = true := by
  induction stops generalizing last with
  | nil => cases found
  | cons stop stops ih =>
    have before := List.rel_of_pairwise_cons ascending List.mem_cons_self
    have rest := List.Pairwise.of_cons ascending
    have later : (low, high) ∈ intervalsFrom ranges stop stops → ∃ stop', high = stop' - 1 ∧
        Neighbours (last :: stop :: stops) low stop' ∧ ∀ char, low ≤ char → char < stop' → allowed ranges char = true := by
      intro among
      obtain ⟨stop', same, neighbours, covered⟩ := ih rest among
      exact ⟨stop', same, neighbours.cons before rest, covered⟩
    rw [intervalsFrom] at found
    split at found
    · next all =>
      rcases List.mem_cons.mp found with here | among
      · cases here
        refine ⟨stop, rfl, ⟨List.mem_cons_self, by simp, before, fun other among => ?_⟩, fun char above below => ?_⟩
        · rcases List.mem_cons.mp among with rfl | among
          · exact .inl (Nat.le_refl _)
          · rcases List.mem_cons.mp among with rfl | among
            · exact .inr (Nat.le_refl _)
            · exact .inr (Nat.le_of_lt (List.rel_of_pairwise_cons rest among))
        · exact List.all_eq_true.mp all char (List.mem_range'_1.mpr ⟨above, by omega⟩)
      · exact later among
    · exact later found

/-- A byte below some end lies between two neighbours, and their stretch is there if all of it is covered. -/
theorem exists_neighbours (ascending : (last :: stops).Pairwise (· < ·)) (above : last ≤ char) {stop : Nat} (among : stop ∈ stops)
    (below : char < stop) : ∃ low stop, low ≤ char ∧ char < stop ∧ Neighbours (last :: stops) low stop ∧
      ((∀ char, low ≤ char → char < stop → allowed ranges char = true) → (low, stop - 1) ∈ intervalsFrom ranges last stops) := by
  induction stops generalizing last with
  | nil => cases among
  | cons next stops ih =>
    have before := List.rel_of_pairwise_cons ascending List.mem_cons_self
    have rest := List.Pairwise.of_cons ascending
    rcases Nat.lt_or_ge char next with here | beyond
    · refine ⟨last, next, above, here, ⟨List.mem_cons_self, by simp, before, fun other among => ?_⟩, fun covered => ?_⟩
      · rcases List.mem_cons.mp among with rfl | among
        · exact .inl (Nat.le_refl _)
        · rcases List.mem_cons.mp among with rfl | among
          · exact .inr (Nat.le_refl _)
          · exact .inr (Nat.le_of_lt (List.rel_of_pairwise_cons rest among))
      · rw [intervalsFrom, if_pos]
        · exact List.mem_cons_self
        · refine List.all_eq_true.mpr fun char found => ?_
          obtain ⟨above, below⟩ := List.mem_range'_1.mp found
          exact covered char above (by omega)
    · have later : stop ∈ stops := by
        rcases List.mem_cons.mp among with rfl | later
        · omega
        · exact later
      obtain ⟨low, high, aboveLow, belowHigh, neighbours, there⟩ := ih rest beyond later
      refine ⟨low, high, aboveLow, belowHigh, neighbours.cons before rest, fun covered => ?_⟩
      rw [intervalsFrom]
      split
      · exact List.mem_cons_of_mem _ (there covered)
      · exact there covered

theorem Neighbours.covers_iff (neighbours : Neighbours stops low high) (above : low ≤ char) (below : char < high)
    {range : Nat × Nat} (first : range.1 ∈ stops) (second : range.2 + 1 ∈ stops) :
    range.1 ≤ low ∧ high - 1 ≤ range.2 ↔ range.1 ≤ char ∧ char ≤ range.2 := by
  obtain ⟨_, _, _, apart⟩ := neighbours
  have := apart _ first
  have := apart _ second
  omega

theorem Neighbours.unique {otherLow otherHigh : Nat} (neighbours : Neighbours stops low high)
    (other : Neighbours stops otherLow otherHigh) (above : low ≤ char) (below : char < high) (aboveOther : otherLow ≤ char)
    (belowOther : char < otherHigh) : low = otherLow ∧ high = otherHigh := by
  have := neighbours.2.2.2 _ other.1
  have := neighbours.2.2.2 _ other.2.1
  have := other.2.2.2 _ neighbours.1
  have := other.2.2.2 _ neighbours.2.1
  omega

theorem intervals_shape (some : ranges ≠ []) : ∃ first stops, intervals ranges = intervalsFrom ranges first stops ∧
    (first :: stops).Pairwise (· < ·) ∧ ∀ stop, stop ∈ first :: stops ↔ stop ∈ intervalEnds ranges := by
  have ascending := ((intervalEnds ranges).sortedLT_sort).pairwise
  have among : ∀ stop, stop ∈ (intervalEnds ranges).sort (· ≤ ·) ↔ stop ∈ intervalEnds ranges := fun stop => Finset.mem_sort _
  unfold intervals
  cases sorted : (intervalEnds ranges).sort (· ≤ ·) with
  | nil =>
    obtain ⟨range, found⟩ := List.exists_mem_of_ne_nil ranges some
    have listed := (among range.1).mpr (mem_intervalEnds.mpr ⟨range, found, .inl rfl⟩)
    rw [sorted] at listed
    cases listed
  | cons first stops =>
    rw [sorted] at ascending among
    exact ⟨first, stops, rfl, ascending, among⟩

theorem ne_nil_of_mem_intervals (found : (low, high) ∈ intervals ranges) : ranges ≠ [] := by
  rintro rfl
  simp [intervals, intervalEnds] at found

/-- What an interval is: a stretch between two neighbours, whose bytes are all covered. -/
theorem interval_spec (found : (low, high) ∈ intervals ranges) : ∃ first stops stop, high = stop - 1 ∧
    Neighbours (first :: stops) low stop ∧ (∀ stop, stop ∈ first :: stops ↔ stop ∈ intervalEnds ranges) ∧
      ∀ char, low ≤ char → char < stop → allowed ranges char = true := by
  obtain ⟨first, stops, shape, ascending, among⟩ := intervals_shape (ne_nil_of_mem_intervals found)
  rw [shape] at found
  obtain ⟨stop, same, neighbours, covered⟩ := neighbours_of_mem ascending found
  exact ⟨first, stops, stop, same, neighbours, among, covered⟩

theorem interval_covers_iff (found : (low, high) ∈ intervals ranges) (above : low ≤ char) (below : char ≤ high)
    {range : Nat × Nat} (listed : range ∈ ranges) : range.1 ≤ low ∧ high ≤ range.2 ↔ range.1 ≤ char ∧ char ≤ range.2 := by
  obtain ⟨first, stops, stop, rfl, neighbours, among, _⟩ := interval_spec found
  have less := neighbours.2.2.1
  exact neighbours.covers_iff above (by omega) ((among _).mpr (mem_intervalEnds.mpr ⟨range, listed, .inl rfl⟩))
    ((among _).mpr (mem_intervalEnds.mpr ⟨range, listed, .inr rfl⟩))

theorem exists_range_of_interval (found : (low, high) ∈ intervals ranges) :
    low ≤ high ∧ ∃ range ∈ ranges, range.1 ≤ low ∧ high ≤ range.2 := by
  obtain ⟨first, stops, stop, rfl, neighbours, among, covered⟩ := interval_spec found
  have less := neighbours.2.2.1
  obtain ⟨range, listed, covers⟩ := allowed_iff.mp (covered low (Nat.le_refl _) less)
  exact ⟨by omega, range, listed, (interval_covers_iff found (Nat.le_refl _) (by omega) listed).mpr covers⟩

theorem exists_interval {range : Nat × Nat} (listed : range ∈ ranges) (above : range.1 ≤ char) (below : char ≤ range.2) :
    ∃ low high, (low, high) ∈ intervals ranges ∧ low ≤ char ∧ char ≤ high := by
  obtain ⟨first, stops, shape, ascending, among⟩ := intervals_shape (List.ne_nil_of_mem listed)
  have firstEnd := (among _).mpr (mem_intervalEnds.mpr ⟨range, listed, .inl rfl⟩)
  have lastEnd := (among _).mpr (mem_intervalEnds.mpr ⟨range, listed, .inr rfl⟩)
  have smallest : ∀ stop ∈ first :: stops, first ≤ stop := by
    intro stop there
    rcases List.mem_cons.mp there with rfl | later
    · exact Nat.le_refl _
    · exact Nat.le_of_lt (List.rel_of_pairwise_cons ascending later)
  have later : range.2 + 1 ∈ stops := by
    rcases List.mem_cons.mp lastEnd with same | later
    · have := smallest _ firstEnd
      omega
    · exact later
  obtain ⟨low, stop, aboveLow, belowStop, neighbours, there⟩ :=
    exists_neighbours ascending ((smallest _ firstEnd).trans above) later (Nat.lt_succ_of_le below)
  refine ⟨low, stop - 1, shape ▸ there fun other aboveOther belowOther => ?_, aboveLow, by omega⟩
  rw [allowed_iff]
  refine ⟨range, listed, (neighbours.covers_iff aboveOther belowOther firstEnd lastEnd).mp ?_⟩
  exact (neighbours.covers_iff aboveLow belowStop firstEnd lastEnd).mpr ⟨above, below⟩

theorem interval_unique {otherLow otherHigh : Nat} (found : (low, high) ∈ intervals ranges)
    (other : (otherLow, otherHigh) ∈ intervals ranges) (above : low ≤ char) (below : char ≤ high)
    (aboveOther : otherLow ≤ char) (belowOther : char ≤ otherHigh) : low = otherLow ∧ high = otherHigh := by
  obtain ⟨first, stops, shape, ascending, _⟩ := intervals_shape (ne_nil_of_mem_intervals found)
  rw [shape] at found other
  obtain ⟨stop, rfl, neighbours, _⟩ := neighbours_of_mem ascending found
  obtain ⟨otherStop, rfl, otherNeighbours, _⟩ := neighbours_of_mem ascending other
  have less := neighbours.2.2.1
  have otherLess := otherNeighbours.2.2.1
  obtain ⟨rfl, rfl⟩ := neighbours.unique otherNeighbours above (by omega) aboveOther (by omega)
  exact ⟨rfl, rfl⟩

end Metrale.Grammar
