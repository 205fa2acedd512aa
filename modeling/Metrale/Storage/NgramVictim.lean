import Metrale.Storage.NgramCache

/-! # The CLOCK hand of the n-gram row cache

The hand passes every slot within one round, and in two rounds it finds an unpinned slot if there is one. -/

namespace Metrale.Storage

open Metrale.Foundation

namespace NgramRowCache

variable {cache after : NgramRowCache} {rounds distance unpinned : Nat} {answer : Option UInt32}

theorem victimFrom_frame (found : victimFrom rounds cache = (answer, after)) :
    after = { cache with
      hand := after.hand, refbit := after.refbit, map := after.map, evictions := after.evictions } := by
  induction rounds generalizing cache with
  | zero =>
    cases found
    rfl
  | succ rounds ih =>
    simp only [victimFrom] at found
    split at found
    · have moved := ih found
      exact moved
    split at found
    · have moved := ih found
      exact moved
    split at found <;> cases found <;> rfl

theorem victimFrom_hand (inRange : cache.hand < cache.slots) (found : victimFrom rounds cache = (answer, after)) :
    after.hand < after.slots ∧ after.refbit.length = cache.refbit.length := by
  induction rounds generalizing cache with
  | zero =>
    cases found
    exact ⟨inRange, rfl⟩
  | succ rounds ih =>
    have next : (cache.hand + 1) % cache.slots < cache.slots := Nat.mod_lt _ (Nat.zero_lt_of_lt inRange)
    simp only [victimFrom] at found
    split at found
    · have moved := ih next found
      exact moved
    split at found
    · have kept := ih next found
      rw [List.length_set] at kept
      exact kept
    split at found <;> cases found <;> exact ⟨next, rfl⟩

theorem victimFrom_cases (inRange : cache.hand < cache.slots) (found : victimFrom rounds cache = (answer, after)) :
    (answer = none ∧ after.map = cache.map) ∨
    ∃ slot < cache.slots, answer = some (UInt32.ofNat slot) ∧ cache.pinned.getD slot false = false ∧
      after.map = if cache.slotRow.getD slot emptyRow ≠ emptyRow then
        cache.map.erase (cache.slotRow.getD slot emptyRow) else cache.map := by
  induction rounds generalizing cache with
  | zero =>
    cases found
    exact .inl ⟨rfl, rfl⟩
  | succ rounds ih =>
    have next : (cache.hand + 1) % cache.slots < cache.slots := Nat.mod_lt _ (Nat.zero_lt_of_lt inRange)
    simp only [victimFrom] at found
    split at found
    · have moved := ih next found
      exact moved
    next free =>
    split at found
    · have moved := ih next found
      exact moved
    right
    refine ⟨cache.hand, inRange, ?_⟩
    split at found
    · next occupied =>
      cases found
      exact ⟨rfl, Bool.eq_false_iff.mpr free, (if_pos occupied).symm⟩
    · next empty =>
      cases found
      exact ⟨rfl, Bool.eq_false_iff.mpr free, (if_neg empty).symm⟩

theorem add_mod_step (hand distance slots : Nat) :
    ((hand + 1) % slots + distance) % slots = (hand + (distance + 1)) % slots := by
  rw [Nat.mod_add_mod, Nat.add_assoc, Nat.add_comm 1]

theorem victimFrom_round (rounds : Nat) (cache : NgramRowCache) :
    (victimFrom (rounds + 1) cache).1.isSome ∨
    (cache.pinned.getD cache.hand false = true ∧
      victimFrom (rounds + 1) cache = victimFrom rounds { cache with hand := (cache.hand + 1) % cache.slots }) ∨
    (cache.refbit.getD cache.hand false = true ∧
      victimFrom (rounds + 1) cache = victimFrom rounds
        { cache with hand := (cache.hand + 1) % cache.slots, refbit := cache.refbit.set cache.hand false }) := by
  rw [victimFrom]
  dsimp only
  split
  · next held => exact .inr (.inl ⟨held, rfl⟩)
  split
  · next chance => exact .inr (.inr ⟨chance, rfl⟩)
  · left
    split <;> rfl

theorem victimFrom_ahead (inRange : cache.hand < cache.slots)
    (ahead : (cache.hand + distance) % cache.slots = unpinned) (free : cache.pinned.getD unpinned false = false)
    (spent : cache.refbit.getD unpinned false = false) (enough : distance < rounds) :
    (victimFrom rounds cache).1.isSome := by
  induction distance generalizing cache rounds with
  | zero =>
    obtain ⟨rounds, rfl⟩ := Nat.exists_eq_succ_of_ne_zero (Nat.ne_of_gt enough)
    rw [Nat.add_zero, Nat.mod_eq_of_lt inRange] at ahead
    subst ahead
    obtain found | ⟨held, -⟩ | ⟨chance, -⟩ := victimFrom_round rounds cache
    · exact found
    · cases free.symm.trans held
    · cases spent.symm.trans chance
  | succ distance ih =>
    obtain ⟨rounds, rfl⟩ := Nat.exists_eq_succ_of_ne_zero (Nat.ne_of_gt (Nat.zero_lt_of_lt enough))
    have next : (cache.hand + 1) % cache.slots < cache.slots := Nat.mod_lt _ (Nat.zero_lt_of_lt inRange)
    have ahead := (add_mod_step cache.hand distance cache.slots).trans ahead
    have enough := Nat.lt_of_succ_lt_succ enough
    obtain found | ⟨-, same⟩ | ⟨-, same⟩ := victimFrom_round rounds cache
    · exact found
    · rw [same]
      exact ih next ahead free spent enough
    · rw [same]
      refine ih next ahead free ?_ enough
      -- Spending the second chance of one slot gives no other slot one.
      rw [List.getD_eq_getElem?_getD, List.getElem?_set] at *
      grind

theorem victimFrom_twice (inRange : cache.hand < cache.slots)
    (ahead : (cache.hand + distance) % cache.slots = unpinned) (free : cache.pinned.getD unpinned false = false)
    (enough : distance + cache.slots < rounds) : (victimFrom rounds cache).1.isSome := by
  induction distance generalizing cache rounds with
  | zero =>
    obtain ⟨rounds, rfl⟩ := Nat.exists_eq_succ_of_ne_zero (Nat.ne_of_gt (Nat.zero_lt_of_lt enough))
    rw [Nat.add_zero, Nat.mod_eq_of_lt inRange] at ahead
    subst ahead
    have next : (cache.hand + 1) % cache.slots < cache.slots := Nat.mod_lt _ (Nat.zero_lt_of_lt inRange)
    obtain found | ⟨held, -⟩ | ⟨-, same⟩ := victimFrom_round rounds cache
    · exact found
    · cases free.symm.trans held
    · rw [same]
      -- The slot comes round again after every other one.
      have around : ((cache.hand + 1) % cache.slots + (cache.slots - 1)) % cache.slots = cache.hand := by
        rw [add_mod_step, Nat.sub_add_cancel (Nat.zero_lt_of_lt inRange), Nat.add_mod_right, Nat.mod_eq_of_lt inRange]
      refine victimFrom_ahead next around free ?_ (by omega)
      grind
  | succ distance ih =>
    obtain ⟨rounds, rfl⟩ := Nat.exists_eq_succ_of_ne_zero (Nat.ne_of_gt (Nat.zero_lt_of_lt enough))
    have next : (cache.hand + 1) % cache.slots < cache.slots := Nat.mod_lt _ (Nat.zero_lt_of_lt inRange)
    have ahead := (add_mod_step cache.hand distance cache.slots).trans ahead
    obtain found | ⟨-, same⟩ | ⟨-, same⟩ := victimFrom_round rounds cache
    · exact found
    · rw [same]
      refine ih next ahead free ?_
      show distance + cache.slots < rounds
      omega
    · rw [same]
      refine ih next ahead free ?_
      show distance + cache.slots < rounds
      omega

theorem victimFrom_none (inRange : cache.hand < cache.slots)
    (missing : victimFrom (cache.slots * 2) cache = (none, after)) (slot : Nat) (bound : slot < cache.slots) :
    cache.pinned.getD slot false = true := by
  by_contra free
  have ahead : (cache.hand + (slot + cache.slots - cache.hand) % cache.slots) % cache.slots = slot := by
    rw [Nat.add_mod_mod, Nat.add_sub_cancel' (by omega), Nat.add_mod_right, Nat.mod_eq_of_lt bound]
  have near := Nat.mod_lt (slot + cache.slots - cache.hand) (Nat.zero_lt_of_lt bound)
  have found := victimFrom_twice inRange ahead (Bool.eq_false_iff.mpr free)
    (show _ < cache.slots * 2 by omega)
  rw [missing] at found
  cases found

end NgramRowCache

end Metrale.Storage
