import Mathlib.Data.List.Nodup

/-! # Lists of keys that stand for a set

A queue of keys without duplicates, kept in step with a predicate: `Listing keys listed` says that
the queue holds exactly the listed keys, each once.  Every queue operation moves the predicate. -/

namespace Metrale.Foundation

variable {Key : Type*} {keys : List Key} {key : Key} {listed : Key → Prop}

structure Listing (keys : List Key) (listed : Key → Prop) : Prop where
  nodup : keys.Nodup
  mem_iff : ∀ key, key ∈ keys ↔ listed key

namespace Listing

theorem empty (none : ∀ key, ¬ listed key) : Listing [] listed :=
  ⟨List.nodup_nil, fun key => iff_of_false List.not_mem_nil (none key)⟩

theorem congr {listed' : Key → Prop} (listing : Listing keys listed)
    (same : ∀ key, listed key ↔ listed' key) : Listing keys listed' :=
  ⟨listing.nodup, fun key => (listing.mem_iff key).trans (same key)⟩

theorem pop (listing : Listing (key :: keys) listed) :
    listed key ∧ Listing keys fun other => listed other ∧ other ≠ key := by
  obtain ⟨absent, nodup⟩ := List.nodup_cons.mp listing.nodup
  refine ⟨(listing.mem_iff key).mp List.mem_cons_self, nodup, ?_⟩
  intro other
  rw [← listing.mem_iff, List.mem_cons]
  constructor
  · intro member
    refine ⟨.inr member, ?_⟩
    rintro rfl
    exact absent member
  · rintro ⟨rfl | member, differs⟩
    · exact absurd rfl differs
    · exact member

theorem pushFront (listing : Listing keys listed) (unlisted : ¬ listed key) :
    Listing (key :: keys) fun other => other = key ∨ listed other := by
  refine ⟨List.nodup_cons.mpr ⟨mt (listing.mem_iff key).mp unlisted, listing.nodup⟩, fun other => ?_⟩
  rw [List.mem_cons, listing.mem_iff]

theorem pushBack (listing : Listing keys listed) (unlisted : ¬ listed key) :
    Listing (keys ++ [key]) fun other => other = key ∨ listed other := by
  have front := listing.pushFront unlisted
  have reordered := List.perm_append_singleton key keys
  exact ⟨reordered.nodup_iff.mpr front.nodup, fun other => reordered.mem_iff.trans (front.mem_iff other)⟩

theorem erase [BEq Key] [LawfulBEq Key] (listing : Listing keys listed) (key : Key) :
    Listing (keys.erase key) fun other => listed other ∧ other ≠ key := by
  refine ⟨listing.nodup.erase key, fun other => ?_⟩
  rw [listing.nodup.mem_erase_iff, listing.mem_iff, and_comm]

end Listing

end Metrale.Foundation
