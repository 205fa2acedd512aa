import Mathlib.Data.List.Basic

/-! # Striped transfers (`snapshot_swap/wire.rs`)

A blob is cut into chunks, which are dealt to the rails in turn.  No offset goes beyond the blob, so the sums do not
overflow. -/

namespace Metrale.Storage

/-- The loop of `stripe_plan`, with `j` chunks dealt. -/
def stripeFrom (blobBytes n : Nat) {cb : Nat} (positive : 0 < cb) (off j : Nat) (rails : List (List (Nat × Nat))) :
    List (List (Nat × Nat)) :=
  if off < blobBytes then
    let len := min cb (blobBytes - off)
    stripeFrom blobBytes n positive (off + len) (j + 1) (rails.modify (j % n) (· ++ [(off, len)]))
  else rails
termination_by blobBytes - off

def stripePlan (blobBytes chunkBytes nRails : Nat) : List (List (Nat × Nat)) :=
  stripeFrom blobBytes (max nRails 1) (Nat.le_max_right _ _ : 0 < max chunkBytes 1) 0 0
    (List.replicate (max nRails 1) [])

/-! ## Chunks in a row -/

/-- The pieces follow one another from `start` to `stop`, none longer than `limit`. -/
inductive Tiles (limit : Nat) : Nat → List (Nat × Nat) → Nat → Prop where
  | nil (start : Nat) : Tiles limit start [] start
  | cons {start len stop : Nat} {pieces : List (Nat × Nat)} : 0 < len → len ≤ limit →
      Tiles limit (start + len) pieces stop → Tiles limit start ((start, len) :: pieces) stop

namespace Tiles

variable {limit start stop : Nat} {pieces : List (Nat × Nat)}

theorem append {len : Nat} (tiles : Tiles limit start pieces stop) (positive : 0 < len) (short : len ≤ limit) :
    Tiles limit start (pieces ++ [(stop, len)]) (stop + len) := by
  induction tiles with
  | nil start => exact .cons positive short (.nil _)
  | cons firstPositive firstShort _ ih => exact .cons firstPositive firstShort ih

theorem le (tiles : Tiles limit start pieces stop) : start ≤ stop := by
  induction tiles with
  | nil start => exact Nat.le_refl start
  | cons _ _ _ ih => exact Nat.le_trans (Nat.le_add_right _ _) ih

theorem bounds (tiles : Tiles limit start pieces stop) : ∀ piece ∈ pieces, start ≤ piece.1 ∧ 0 < piece.2 ∧ piece.2 ≤ limit := by
  induction tiles with
  | nil start => simp
  | cons positive short _ ih =>
    refine List.forall_mem_cons.mpr ⟨⟨Nat.le_refl _, positive, short⟩, ?_⟩
    intro piece among
    obtain ⟨behind, rest⟩ := ih piece among
    exact ⟨Nat.le_trans (Nat.le_add_right _ _) behind, rest⟩

theorem ordered (tiles : Tiles limit start pieces stop) : pieces.Pairwise fun first second => first.1 + first.2 ≤ second.1 := by
  induction tiles with
  | nil start => exact .nil
  | cons _ _ tiles ih =>
    apply List.pairwise_cons.mpr
    exact ⟨fun piece among => (tiles.bounds piece among).1, ih⟩

theorem covers (tiles : Tiles limit start pieces stop) (byte : Nat) :
    start ≤ byte ∧ byte < stop ↔ ∃ piece ∈ pieces, piece.1 ≤ byte ∧ byte < piece.1 + piece.2 := by
  induction tiles with
  | nil start => simp
  | @cons start len stop pieces positive _ tiles ih =>
    have ends := tiles.le
    simp only [List.mem_cons, exists_eq_or_imp, ← ih]
    omega

end Tiles

/-! ## Dealing -/

def lane (n : Nat) (pieces : List (Nat × Nat)) (rail : Nat) : List (Nat × Nat) :=
  (pieces.zipIdx.filter fun piece => piece.2 % n = rail).map (·.1)

def dealt (n : Nat) (pieces : List (Nat × Nat)) : List (List (Nat × Nat)) := (List.range n).map (lane n pieces)

theorem lane_append (n rail : Nat) (pieces : List (Nat × Nat)) (piece : Nat × Nat) :
    lane n (pieces ++ [piece]) rail = lane n pieces rail ++ if pieces.length % n = rail then [piece] else [] := by
  simp only [lane, List.zipIdx_append, List.filter_append, List.map_append, List.zipIdx_singleton, Nat.zero_add]
  by_cases turn : pieces.length % n = rail
  · simp [turn]
  · simp [turn]

theorem dealt_append (n : Nat) (pieces : List (Nat × Nat)) (piece : Nat × Nat) :
    (dealt n pieces).modify (pieces.length % n) (· ++ [piece]) = dealt n (pieces ++ [piece]) := by
  apply List.ext_getElem?
  intro rail
  rw [List.getElem?_modify]
  by_cases there : rail < n
  · simp only [dealt, List.getElem?_map, List.getElem?_range there, Option.map_some, Option.map_eq_map, lane_append]
    split
    · rfl
    · simp
  · simp [dealt, there]

theorem stripeFrom_dealt {blobBytes n cb off : Nat} (positive : 0 < cb) {pieces : List (Nat × Nat)}
    (tiles : Tiles cb 0 pieces off) (inside : off ≤ blobBytes) :
    ∃ all, Tiles cb 0 all blobBytes ∧ stripeFrom blobBytes n positive off pieces.length (dealt n pieces) = dealt n all := by
  rw [stripeFrom]
  split
  · next more =>
    have piece : 0 < min cb (blobBytes - off) := by omega
    obtain ⟨all, whole, same⟩ := stripeFrom_dealt (n := n) positive (tiles.append piece (Nat.min_le_left _ _))
      (Nat.add_le_of_le_sub' inside (Nat.min_le_right _ _))
    rw [List.length_append, List.length_singleton, ← dealt_append] at same
    exact ⟨all, whole, same⟩
  · next done =>
    obtain rfl := Nat.le_antisymm inside (Nat.le_of_not_lt done)
    exact ⟨pieces, tiles, rfl⟩
termination_by blobBytes - off
decreasing_by omega

/-- The rails are dealt, in turn, pieces of at most a chunk that come one after another and are together the blob.  No
chunk and no rail count as one. -/
theorem stripePlan_covers (blobBytes chunkBytes nRails : Nat) :
    ∃ pieces : List (Nat × Nat), stripePlan blobBytes chunkBytes nRails = dealt (max nRails 1) pieces ∧
      (∀ piece ∈ pieces, 0 < piece.2 ∧ piece.2 ≤ max chunkBytes 1) ∧
      pieces.Pairwise (fun first second => first.1 + first.2 ≤ second.1) ∧
      ∀ byte, byte < blobBytes ↔ ∃ piece ∈ pieces, piece.1 ≤ byte ∧ byte < piece.1 + piece.2 := by
  have none : List.replicate (max nRails 1) [] = dealt (max nRails 1) [] := by
    refine (List.eq_replicate_iff.mpr ⟨?_, ?_⟩).symm
    · rw [dealt, List.length_map, List.length_range]
    · intro rail among
      obtain ⟨_, -, rfl⟩ := List.mem_map.mp among
      rfl
  obtain ⟨pieces, tiles, same⟩ := stripeFrom_dealt (n := max nRails 1) (Nat.le_max_right _ _)
    (.nil 0 : Tiles (max chunkBytes 1) 0 [] 0) (Nat.zero_le blobBytes)
  refine ⟨pieces, ?_, fun piece among => (tiles.bounds piece among).2, tiles.ordered, ?_⟩
  · rw [stripePlan, none]
    exact same
  · intro byte
    rw [← tiles.covers byte]
    exact (and_iff_right (Nat.zero_le byte)).symm

example : stripePlan 10 4 2 = [[(0, 4), (8, 2)], [(4, 4)]] := by
  simp [stripePlan, stripeFrom, List.replicate]

end Metrale.Storage
