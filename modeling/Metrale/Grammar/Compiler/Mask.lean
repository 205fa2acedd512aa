import Mathlib

/-! # Token masks (`compiler/mask.rs`, `compiler/rule_cache.rs`)

The mask of a parser state splits the sorted vocabulary into accepted, rejected and uncertain tokens.  The indices are
32-bit numbers here, as they are written to disk. -/

namespace Metrale.Grammar.Compiler

inductive StoreType where
  | accepted
  | rejected
  | acceptedBitset
deriving DecidableEq

/-- A bit string in raw words of 64 bits. -/
structure BitWords where
  words : List UInt64
  len : UInt64
  whole : words.length = (len.toNat + 63) / 64
deriving DecidableEq

def BitWords.empty : BitWords := ⟨[], 0, rfl⟩

/-- `BitVec::from_vec`, cut down to `len` bits. -/
def BitWords.truncated (words : List UInt64) (len : UInt64) : Option BitWords :=
  if enough : len.toNat ≤ 64 * words.length then
    some ⟨words.take ((len.toNat + 63) / 64), len, by rw [List.length_take]; omega⟩
  else none

@[simp]
theorem BitWords.truncated_words (bits : BitWords) : BitWords.truncated bits.words bits.len = some bits := by
  obtain ⟨words, len, whole⟩ := bits
  have enough : len.toNat ≤ 64 * words.length := by omega
  have same : words.take ((len.toNat + 63) / 64) = words := List.take_of_length_le (Nat.le_of_eq whole)
  simp only [BitWords.truncated, dif_pos enough, same]

structure AdaptiveTokenMask where
  storeType : StoreType
  acceptedIndices : List Int32
  rejectedIndices : List Int32
  acceptedBitset : BitWords
  uncertainIndices : List Int32
deriving DecidableEq

def AdaptiveTokenMask.memorySize (mask : AdaptiveTokenMask) : Nat :=
  mask.acceptedIndices.length * 4 + mask.rejectedIndices.length * 4 + mask.uncertainIndices.length * 4 +
    mask.acceptedBitset.len.toNat / 8

def Places (indices : List Int32) : Prop := indices.Nodup ∧ ∀ index ∈ indices, 0 ≤ index

instance (indices : List Int32) : Decidable (Places indices) :=
  inferInstanceAs (Decidable (indices.Nodup ∧ ∀ index ∈ indices, 0 ≤ index))

def AdaptiveTokenMask.Partitioned (mask : AdaptiveTokenMask) : Prop :=
  Places mask.acceptedIndices ∧ Places mask.rejectedIndices ∧ Places mask.uncertainIndices

instance (mask : AdaptiveTokenMask) : Decidable mask.Partitioned :=
  inferInstanceAs (Decidable (Places mask.acceptedIndices ∧ Places mask.rejectedIndices ∧ Places mask.uncertainIndices))

def AdaptiveTokenMask.Fits (mask : AdaptiveTokenMask) : Prop :=
  mask.acceptedIndices.length < 2 ^ 32 ∧ mask.rejectedIndices.length < 2 ^ 32 ∧ mask.uncertainIndices.length < 2 ^ 32

theorem Places.length_lt {indices : List Int32} (places : Places indices) : indices.length < 2 ^ 32 := by
  have distinct : (indices.map Int32.toNatClampNeg).Nodup := by
    apply List.Nodup.map_on _ places.1
    intro one among other amongOther same
    rw [← Int32.ofNat_toNatClampNeg one (places.2 one among), same, Int32.ofNat_toNatClampNeg other (places.2 other amongOther)]
  have inside : indices.map Int32.toNatClampNeg ⊆ List.range (2 ^ 31) := by
    intro place among
    obtain ⟨index, -, rfl⟩ := List.mem_map.mp among
    exact List.mem_range.mpr index.toNatClampNeg_lt
  have bounded := (List.subperm_of_subset distinct inside).length_le
  rw [List.length_map, List.length_range] at bounded
  omega

theorem AdaptiveTokenMask.Partitioned.fits {mask : AdaptiveTokenMask} (partitioned : mask.Partitioned) : mask.Fits :=
  ⟨partitioned.1.length_lt, partitioned.2.1.length_lt, partitioned.2.2.length_lt⟩

structure RuleMaskKey where
  fsmHash : UInt64
  fsmNewNodeId : Int32
  stateCnt : Int32
  edgeCnt : Int32
deriving DecidableEq

end Metrale.Grammar.Compiler
