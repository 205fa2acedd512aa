import Metrale.Foundation.ByteMemory

/-! # Transfers that take a byte at a time

A transfer copies bytes to consecutive addresses, one at a time and in any order.  `Landed` says that all of
them but the pending ones are there. -/

namespace Metrale.Foundation

variable {Byte : Type*} {memory : Memory Byte} {start offset : Nat} {bytes : List Byte} {byte : Byte}
  {pending : List Nat}

def Landed (memory : Memory Byte) (start : Nat) (bytes : List Byte) (pending : List Nat) : Prop :=
  ∀ offset byte, bytes[offset]? = some byte → offset ∉ pending → memory (start + offset) = byte

namespace Landed

theorem nothing (memory : Memory Byte) (start : Nat) (bytes : List Byte) :
    Landed memory start bytes (List.range bytes.length) := by
  intro offset byte listed pending
  obtain ⟨bound, -⟩ := List.getElem?_eq_some_iff.mp listed
  exact absurd (List.mem_range.mpr bound) pending

theorem advance (landed : Landed memory start bytes pending) (next : bytes[offset]? = some byte) :
    Landed (Function.update memory (start + offset) byte) start bytes (pending.erase offset) := by
  intro other byte' listed done
  by_cases same : other = offset
  · subst same
    rw [Function.update_self]
    exact Option.some.inj (next.symm.trans listed)
  · rw [Function.update_of_ne (fun here => same (Nat.add_left_cancel here))]
    exact landed other byte' listed fun waiting => done ((List.mem_erase_of_ne same).mpr waiting)

/-- Once nothing is pending, the bytes are there. -/
theorem slice (landed : Landed memory start bytes []) : memory.slice start bytes.length = bytes := by
  apply List.ext_getElem?
  intro offset
  by_cases inside : offset < bytes.length
  · rw [Memory.getElem?_slice inside, List.getElem?_eq_getElem inside]
    exact congrArg some (landed offset _ (List.getElem?_eq_getElem inside) List.not_mem_nil)
  · rw [List.getElem?_eq_none (by rw [Memory.length_slice]; omega), List.getElem?_eq_none (by omega)]

end Landed

end Metrale.Foundation
