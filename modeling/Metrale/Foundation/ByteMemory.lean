import Mathlib.Data.List.Basic

/-! # Memory by address

A memory gives a byte to every address.  A slice of it is the bytes at consecutive addresses, and a copy
overwrites one slice: slices apart from it keep their bytes. -/

namespace Metrale.Foundation

abbrev Memory (Byte : Type*) := Nat → Byte

namespace Memory

variable {Byte : Type*} {memory other : Memory Byte} {start length dst offset : Nat} {bytes : List Byte}

def slice (memory : Memory Byte) (start length : Nat) : List Byte :=
  (List.range length).map fun offset => memory (start + offset)

def copyFromSlice (memory : Memory Byte) (dst : Nat) (bytes : List Byte) : Memory Byte := fun address =>
  if dst ≤ address then (bytes[address - dst]?).getD (memory address) else memory address

@[simp] theorem length_slice (memory : Memory Byte) (start length : Nat) :
    (memory.slice start length).length = length := by
  rw [slice, List.length_map, List.length_range]

theorem slice_congr (same : ∀ offset < length, memory (start + offset) = other (start + offset)) :
    memory.slice start length = other.slice start length :=
  List.map_congr_left fun offset member => same offset (List.mem_range.mp member)

theorem getElem?_slice (inside : offset < length) :
    (memory.slice start length)[offset]? = some (memory (start + offset)) := by
  rw [slice, List.getElem?_map, List.getElem?_range inside]
  rfl

/-- A slice of a slice. -/
theorem slice_within (memory : Memory Byte) {skipped taken : Nat} (fits : skipped + taken ≤ length) :
    ((memory.slice start length).drop skipped).take taken = memory.slice (start + skipped) taken := by
  apply List.ext_getElem?
  intro offset
  rw [List.getElem?_take]
  split
  · next inside =>
    rw [List.getElem?_drop, getElem?_slice (by omega), getElem?_slice inside, Nat.add_assoc]
  · next outside =>
    exact (List.getElem?_eq_none (by rw [length_slice]; omega)).symm

theorem copyFromSlice_apart {address : Nat} (apart : address < dst ∨ dst + bytes.length ≤ address) :
    memory.copyFromSlice dst bytes address = memory address := by
  rw [copyFromSlice]
  split
  · rw [List.getElem?_eq_none (by omega)]
    rfl
  · rfl

theorem slice_copyFromSlice (memory : Memory Byte) (dst : Nat) (bytes : List Byte) :
    (memory.copyFromSlice dst bytes).slice dst bytes.length = bytes := by
  apply List.ext_getElem?
  intro offset
  by_cases inside : offset < bytes.length
  · rw [getElem?_slice inside]
    simp [copyFromSlice, inside]
  · rw [List.getElem?_eq_none (by rw [length_slice]; omega), List.getElem?_eq_none (by omega)]

theorem slice_copyFromSlice_apart (apart : start + length ≤ dst ∨ dst + bytes.length ≤ start) :
    (memory.copyFromSlice dst bytes).slice start length = memory.slice start length :=
  slice_congr fun offset inside => copyFromSlice_apart (by omega)

/-- The regions of two cells of an array do not meet. -/
theorem cells_apart {cell cell' width : Nat} (differs : cell ≠ cell') :
    cell * width + width ≤ cell' * width ∨ cell' * width + width ≤ cell * width := by
  obtain less | more := Nat.lt_or_gt_of_ne differs
  · left
    calc cell * width + width = (cell + 1) * width := (Nat.succ_mul cell width).symm
      _ ≤ cell' * width := Nat.mul_le_mul_right width less
  · right
    calc cell' * width + width = (cell' + 1) * width := (Nat.succ_mul cell' width).symm
      _ ≤ cell * width := Nat.mul_le_mul_right width more

end Memory

end Metrale.Foundation
