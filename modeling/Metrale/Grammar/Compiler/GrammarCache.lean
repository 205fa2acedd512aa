import Metrale.Grammar.Compiler.RuleCache

/-! # The cache of compiled grammars (`compiler/grammar_cache.rs`)

A compiled grammar grows while it is used, so what the entries take is measured anew whenever one is stored.  The newest
entry stays even where it is larger than the whole budget. -/

namespace Metrale.Grammar.Compiler

open Metrale.Foundation

structure GrammarCache (Key CompiledGrammar : Type*) where
  maxBytes : Nat
  inner : Recency Key CompiledGrammar

namespace GrammarCache

variable {Key CompiledGrammar : Type*} [DecidableEq Key]

def new (maxBytes : Nat) : GrammarCache Key CompiledGrammar := ⟨maxBytes, .empty⟩

def get (cache : GrammarCache Key CompiledGrammar) (key : Key) :
    Option (Option CompiledGrammar × GrammarCache Key CompiledGrammar) :=
  match cache.inner.index.lookup key with
  | none => some (none, cache)
  | some position => do
    let inner ← cache.inner.touch position
    let entry ← inner.lru.getLast?
    some (some entry.2, { cache with inner })

def clear (cache : GrammarCache Key CompiledGrammar) : GrammarCache Key CompiledGrammar := { cache with inner := .empty }

def residentBytes (memorySizeBytes : CompiledGrammar → Nat) (cache : GrammarCache Key CompiledGrammar) : Nat :=
  (cache.inner.lru.map fun entry => memorySizeBytes entry.2).sum

/-- Evicts until the total is within the budget, or one entry is left.  There are no more rounds than entries. -/
def evictTo (memorySizeBytes : CompiledGrammar → Nat) (maxBytes : Nat) :
    Nat → Nat → Recency Key CompiledGrammar → Option (Recency Key CompiledGrammar)
  | 0, _, inner => some inner
  | fuel + 1, total, inner =>
    if total > maxBytes ∧ inner.lru.length > 1 then do
      let (evicted, inner) ← inner.popFront
      evictTo memorySizeBytes maxBytes fuel (total - memorySizeBytes evicted.2) inner
    else some inner

def insert (memorySizeBytes : CompiledGrammar → Nat) (cache : GrammarCache Key CompiledGrammar) (key : Key)
    (value : CompiledGrammar) : Option (GrammarCache Key CompiledGrammar) :=
  match cache.inner.index.lookup key with
  | some position => do
    let inner ← cache.inner.touch position
    some { cache with inner }
  | none =>
    let pushed : GrammarCache Key CompiledGrammar := { cache with inner := cache.inner.push key value }
    if cache.maxBytes = unlimitedSize then some pushed
    else do
      let inner ← evictTo memorySizeBytes cache.maxBytes pushed.inner.lru.length (pushed.residentBytes memorySizeBytes) pushed.inner
      some { cache with inner }

inductive Step : GrammarCache Key CompiledGrammar → Recency.Call Key CompiledGrammar → GrammarCache Key CompiledGrammar → Prop where
  | get {cache key answer after} : cache.get key = some (answer, after) → Step cache (.get key answer) after
  | insert {cache key value after} (memorySizeBytes : CompiledGrammar → Nat) : cache.insert memorySizeBytes key value = some after →
      Step cache (.add key value (cache.inner.index.lookup key).isNone
        (RuleLevelCache.evictedKeys cache.inner.lru after.inner.lru)) after
  | clear {cache} : Step cache .clear cache.clear

variable {cache after : GrammarCache Key CompiledGrammar} {inner : Recency Key CompiledGrammar} {key : Key} {value : CompiledGrammar}
  {memorySizeBytes : CompiledGrammar → Nat} {maxBytes fuel total : Nat} {call : Recency.Call Key CompiledGrammar}
  {history : List (Recency.Call Key CompiledGrammar)}

theorem get_spec (indexed : cache.inner.Indexed) (key : Key) :
    ∃ answer after, cache.get key = some (answer, after) ∧ after.inner.Indexed ∧ after.maxBytes = cache.maxBytes ∧
      Recency.Moves true cache.inner.lru (.get key answer) after.inner.lru := by
  rw [GrammarCache.get]
  cases stored : cache.inner.index.lookup key with
  | none => exact ⟨none, cache, rfl, indexed, rfl, .miss (indexed.lookup_eq_none.mp stored)⟩
  | some position =>
    obtain ⟨front, value, back, touched, before, result, touchedIndexed, moved⟩ := indexed.touch stored
    refine ⟨some value, { cache with inner := touched }, ?_, touchedIndexed, rfl, ?_⟩
    · simp [result, moved]
    · rw [before, moved]
      exact .hit

theorem evictTo_spec (memorySizeBytes : CompiledGrammar → Nat) (maxBytes : Nat) (indexed : inner.Indexed) (some : inner.lru ≠ [])
    (counted : total = (inner.lru.map fun entry => memorySizeBytes entry.2).sum) (enough : inner.lru.length ≤ fuel) :
    ∃ evicted kept last left, evictTo memorySizeBytes maxBytes fuel total inner = .some left ∧
      inner.lru = evicted ++ kept ++ [last] ∧ left.lru = kept ++ [last] ∧ left.Indexed ∧
      ((left.lru.map fun entry => memorySizeBytes entry.2).sum ≤ maxBytes ∨ kept = []) := by
  induction fuel generalizing inner total with
  | zero => exact absurd (List.length_eq_zero_iff.mp (Nat.le_zero.mp enough)) some
  | succ fuel ih =>
    rw [evictTo]
    split
    · next more =>
      obtain ⟨entry, rest, front⟩ := List.exists_cons_of_ne_nil some
      obtain ⟨popped, result, poppedIndexed, poppedLru⟩ := indexed.popFront front
      rw [front, List.length_cons] at more enough
      have remaining : popped.lru ≠ [] := by
        rw [poppedLru]
        rintro rfl
        simp at more
      have left : total - memorySizeBytes entry.2 = (popped.lru.map fun entry => memorySizeBytes entry.2).sum := by
        rw [counted, front, poppedLru, List.map_cons, List.sum_cons, Nat.add_sub_cancel_left]
      obtain ⟨evicted, kept, last, left, done, split, known⟩ := ih poppedIndexed remaining left
        (by rw [poppedLru]; omega)
      refine ⟨entry :: evicted, kept, last, left, ?_, ?_, known⟩
      · rw [result]
        exact done
      · rw [front, ← poppedLru, split]
        rfl
    · next stop =>
      obtain ⟨kept, last, split⟩ := (List.eq_nil_or_concat' inner.lru).resolve_left some
      refine ⟨[], kept, last, inner, rfl, by simpa using split, split, indexed, ?_⟩
      rw [not_and_or, Nat.not_lt, Nat.not_lt] at stop
      rcases stop with within | single
      · exact .inl (counted ▸ within)
      · right
        rw [split, List.length_append, List.length_singleton] at single
        exact List.length_eq_zero_iff.mp (by omega)

def Bounded (memorySizeBytes : CompiledGrammar → Nat) (cache : GrammarCache Key CompiledGrammar) : Prop :=
  cache.residentBytes memorySizeBytes ≤ cache.maxBytes ∨ cache.inner.lru.length = 1

theorem insert_spec (indexed : cache.inner.Indexed) (memorySizeBytes : CompiledGrammar → Nat) (key : Key) (value : CompiledGrammar) :
    ∃ after, cache.insert memorySizeBytes key value = some after ∧ after.inner.Indexed ∧ after.maxBytes = cache.maxBytes ∧
      Recency.Moves true cache.inner.lru (.add key value (cache.inner.index.lookup key).isNone
        (RuleLevelCache.evictedKeys cache.inner.lru after.inner.lru)) after.inner.lru ∧
      (key ∉ cache.inner.lru.map Prod.fst → cache.maxBytes ≠ unlimitedSize → after.Bounded memorySizeBytes) := by
  rw [GrammarCache.insert]
  cases stored : cache.inner.index.lookup key with
  | some position =>
    obtain ⟨front, old, back, touched, before, result, touchedIndexed, moved⟩ := indexed.touch stored
    refine ⟨{ cache with inner := touched }, by simp [result], touchedIndexed, rfl, ?_, fun absent => ?_⟩
    · have nothing : RuleLevelCache.evictedKeys cache.inner.lru touched.lru = [] := by
        apply RuleLevelCache.evictedKeys_self
        intro entry among
        rw [moved]
        exact (Recency.perm_moved.map Prod.fst).mem_iff.mpr (List.mem_map.mpr ⟨entry, before ▸ among, rfl⟩)
      dsimp only
      rw [nothing, before, moved]
      exact .refreshed rfl
    · exact absurd (by simp [before]) absent
  | none =>
    have absent := indexed.lookup_eq_none.mp stored
    have pushed := indexed.push stored value
    have keys := indexed.nodup
    dsimp only
    by_cases free : cache.maxBytes = unlimitedSize
    · rw [if_pos free]
      refine ⟨_, rfl, pushed, rfl, ?_, fun _ limited => absurd free limited⟩
      have nothing : RuleLevelCache.evictedKeys cache.inner.lru (cache.inner.push key value).lru = [] := by
        apply RuleLevelCache.evictedKeys_self
        intro entry among
        simp only [Recency.push, List.map_append, List.mem_append]
        exact .inl (List.mem_map.mpr ⟨entry, among, rfl⟩)
      rw [nothing]
      have stored : Recency.Moves true ([] ++ cache.inner.lru) (.add key value true (([] : List (Key × CompiledGrammar)).map Prod.fst))
        (cache.inner.lru ++ [(key, value)]) := .stored absent
      exact stored
    · rw [if_neg free]
      obtain ⟨evicted, kept, last, left, done, split, leftLru, leftIndexed, bound⟩ := evictTo_spec memorySizeBytes cache.maxBytes
        pushed (by simp [Recency.push]) rfl (Nat.le_refl _)
      obtain ⟨before, same⟩ := List.append_inj' split rfl
      cases List.singleton_inj.mp same
      rw [residentBytes, done]
      refine ⟨_, rfl, leftIndexed, rfl, ?_, fun _ _ => ?_⟩
      · rw [before] at absent keys ⊢
        dsimp only
        rw [leftLru, RuleLevelCache.evictedKeys_eq keys absent]
        exact .stored absent
      · rcases bound with within | single
        · exact .inl within
        · exact .inr (by rw [leftLru, single]; rfl)

theorem run_spec (run : Run Step (new maxBytes) history cache) :
    cache.inner.Indexed ∧ cache.maxBytes = maxBytes ∧ Run (Recency.Moves true) [] history cache.inner.lru := by
  induction run with
  | start => exact ⟨Recency.indexed_empty, rfl, .start⟩
  | extend _ step ih =>
    obtain ⟨indexed, same, moves⟩ := ih
    cases step with
    | @get key _ _ result =>
      obtain ⟨_, _, result', kept, unchanged, moved⟩ := get_spec indexed key
      cases result.symm.trans result'
      exact ⟨kept, unchanged.trans same, .extend moves moved⟩
    | @insert key value _ memorySizeBytes result =>
      obtain ⟨_, result', kept, unchanged, moved, _⟩ := insert_spec indexed memorySizeBytes key value
      cases result.symm.trans result'
      exact ⟨kept, unchanged.trans same, .extend moves moved⟩
    | clear => exact ⟨Recency.indexed_empty, same, .extend moves .cleared⟩

end GrammarCache

/-! ## Both caches -/

def maskOfOne (token : Int32) : AdaptiveTokenMask := ⟨.accepted, [token], [], .empty, []⟩

end Metrale.Grammar.Compiler
