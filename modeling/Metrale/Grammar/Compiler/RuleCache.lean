import Metrale.Foundation.Recency
import Metrale.Grammar.Compiler.Mask

/-! # The cache of rule masks (`compiler/rule_cache.rs`)

The sizes of the cached masks are summed up as they come and go.  Room for a mask is made before it is stored. -/

namespace Metrale.Grammar.Compiler

open Metrale.Foundation

/-- No bound: `usize::MAX`. -/
def unlimitedSize : Nat := 2 ^ 64 - 1

structure RuleLevelCache where
  maxSize : Nat
  inner : Recency RuleMaskKey AdaptiveTokenMask
  currentSize : Nat
  hits : Nat
  misses : Nat

namespace RuleLevelCache

def new (maxCacheMemorySize : Nat) : RuleLevelCache := ⟨maxCacheMemorySize, .empty, 0, 0, 0⟩

def get (cache : RuleLevelCache) (key : RuleMaskKey) : Option (Option AdaptiveTokenMask × RuleLevelCache) :=
  match cache.inner.index.lookup key with
  | none => some (none, { cache with misses := cache.misses + 1 })
  | some position => do
    let inner ← cache.inner.touch position
    let entry ← inner.lru.getLast?
    some (some entry.2, { cache with inner, hits := cache.hits + 1 })

/-- Evicts until what is left is within the budget.  There are no more rounds than entries. -/
def evictTo (budget : Nat) : Nat → RuleLevelCache → Option RuleLevelCache
  | 0, cache => some cache
  | fuel + 1, cache =>
    if cache.currentSize > budget ∧ cache.inner.lru ≠ [] then do
      let (evicted, inner) ← cache.inner.popFront
      if evicted.2.memorySize > cache.currentSize then none
      else evictTo budget fuel { cache with inner, currentSize := cache.currentSize - evicted.2.memorySize }
    else some cache

/-- Evicts until there is room for an item of the size. -/
def makeRoom (cache : RuleLevelCache) (itemSize : Nat) : Option RuleLevelCache :=
  if cache.maxSize ≠ unlimitedSize then cache.evictTo (cache.maxSize - itemSize) cache.inner.lru.length else some cache

def add (cache : RuleLevelCache) (key : RuleMaskKey) (mask : AdaptiveTokenMask) : Option (Bool × RuleLevelCache) :=
  let itemSize := mask.memorySize
  if cache.maxSize ≠ unlimitedSize ∧ itemSize > cache.maxSize then some (false, cache)
  else if (cache.inner.index.lookup key).isSome then some (false, cache)
  else do
    let roomy ← cache.makeRoom itemSize
    some (true, { roomy with currentSize := roomy.currentSize + itemSize, inner := roomy.inner.push key mask })

def getOrCompute (cache : RuleLevelCache) (key : RuleMaskKey) (computed : AdaptiveTokenMask) :
    Option (AdaptiveTokenMask × RuleLevelCache) := do
  let (hit, cache) ← cache.get key
  match hit with
  | some mask => some (mask, cache)
  | none => do
    let (_, cache) ← cache.add key computed
    some (computed, cache)

def clear (cache : RuleLevelCache) : RuleLevelCache := { cache with inner := .empty, currentSize := 0 }

def sizes (entries : List (RuleMaskKey × AdaptiveTokenMask)) : Nat := (entries.map fun entry => entry.2.memorySize).sum

def evictedKeys {Key Value : Type*} [DecidableEq Key] (before after : List (Key × Value)) : List Key :=
  (before.filter fun entry => entry.1 ∉ after.map Prod.fst).map Prod.fst

inductive Step : RuleLevelCache → Recency.Call RuleMaskKey AdaptiveTokenMask → RuleLevelCache → Prop where
  | get {cache key answer after} : cache.get key = some (answer, after) → Step cache (.get key answer) after
  | add {cache key mask stored after} : cache.add key mask = some (stored, after) →
      Step cache (.add key mask stored (evictedKeys cache.inner.lru after.inner.lru)) after
  | clear {cache} : Step cache .clear cache.clear

structure Sound (cache : RuleLevelCache) : Prop where
  indexed : cache.inner.Indexed
  counted : cache.currentSize = sizes cache.inner.lru
  bounded : cache.maxSize ≠ unlimitedSize → cache.currentSize ≤ cache.maxSize

variable {cache after : RuleLevelCache} {key : RuleMaskKey} {mask : AdaptiveTokenMask} {fuel maxSize : Nat}
  {call : Recency.Call RuleMaskKey AdaptiveTokenMask} {history : List (Recency.Call RuleMaskKey AdaptiveTokenMask)}

theorem sound_new (maxSize : Nat) : (new maxSize).Sound := ⟨Recency.indexed_empty, rfl, fun _ => Nat.zero_le _⟩

theorem sizes_append (front back : List (RuleMaskKey × AdaptiveTokenMask)) : sizes (front ++ back) = sizes front + sizes back := by
  simp [sizes]

theorem sizes_moved {front back : List (RuleMaskKey × AdaptiveTokenMask)} :
    sizes (front ++ back ++ [(key, mask)]) = sizes (front ++ (key, mask) :: back) :=
  (Recency.perm_moved.map fun entry : RuleMaskKey × AdaptiveTokenMask => entry.2.memorySize).sum_eq

theorem evictedKeys_eq {Key Value : Type*} [DecidableEq Key] {evicted kept : List (Key × Value)} {key : Key} {value : Value}
    (nodup : ((evicted ++ kept).map Prod.fst).Nodup) (absent : key ∉ (evicted ++ kept).map Prod.fst) :
    evictedKeys (evicted ++ kept) (kept ++ [(key, value)]) = evicted.map Prod.fst := by
  rw [List.map_append] at nodup absent
  obtain ⟨_, _, apart⟩ := List.nodup_append.mp nodup
  rw [evictedKeys, List.filter_append, List.filter_eq_self.mpr, List.filter_eq_nil_iff.mpr, List.append_nil]
  · intro entry among
    simp only [decide_not, Bool.not_eq_true', decide_eq_false_iff_not, not_not]
    exact List.mem_map.mpr ⟨entry, List.mem_append_left _ among, rfl⟩
  · intro entry among
    have here : entry.1 ∈ evicted.map Prod.fst := List.mem_map.mpr ⟨entry, among, rfl⟩
    simp only [decide_eq_true_eq, List.map_append, List.mem_append, List.map_singleton, List.mem_singleton]
    rintro (later | rfl)
    · exact apart _ here _ later rfl
    · exact absent (List.mem_append_left _ here)

theorem evictedKeys_self {Key Value : Type*} [DecidableEq Key] {before after : List (Key × Value)}
    (kept : ∀ entry ∈ before, entry.1 ∈ after.map Prod.fst) : evictedKeys before after = [] := by
  rw [evictedKeys, List.filter_eq_nil_iff.mpr, List.map_nil]
  intro entry among
  simpa using kept entry among

theorem Sound.get (sound : cache.Sound) (key : RuleMaskKey) :
    ∃ answer after, cache.get key = some (answer, after) ∧ after.Sound ∧ after.maxSize = cache.maxSize ∧
      Recency.Moves false cache.inner.lru (.get key answer) after.inner.lru := by
  rw [RuleLevelCache.get]
  cases stored : cache.inner.index.lookup key with
  | none =>
    exact ⟨none, _, rfl, ⟨sound.indexed, sound.counted, sound.bounded⟩, rfl, .miss (sound.indexed.lookup_eq_none.mp stored)⟩
  | some position =>
    obtain ⟨front, mask, back, touched, before, result, indexed, moved⟩ := sound.indexed.touch stored
    refine ⟨some mask, { cache with inner := touched, hits := cache.hits + 1 }, ?_, ⟨indexed, ?_, sound.bounded⟩, rfl, ?_⟩
    · simp [result, moved]
    · rw [sound.counted, before, moved, sizes_moved]
    · rw [before, moved]
      exact .hit

theorem evictTo_spec (budget : Nat) (indexed : cache.inner.Indexed) (counted : cache.currentSize = sizes cache.inner.lru)
    (enough : cache.inner.lru.length ≤ fuel) : ∃ evicted kept roomy, cache.evictTo budget fuel = some roomy ∧
      cache.inner.lru = evicted ++ kept ∧ roomy.inner.lru = kept ∧ roomy.inner.Indexed ∧ roomy.currentSize = sizes kept ∧
      roomy.currentSize ≤ budget ∧ roomy.maxSize = cache.maxSize := by
  induction fuel generalizing cache with
  | zero =>
    have nothing : cache.inner.lru = [] := List.length_eq_zero_iff.mp (Nat.le_zero.mp enough)
    refine ⟨[], [], cache, rfl, nothing, nothing, indexed, ?_, ?_, rfl⟩
    · rw [counted, nothing]
    · rw [counted, nothing]
      exact Nat.zero_le _
  | succ fuel ih =>
    rw [evictTo]
    split
    · next more =>
      obtain ⟨entry, rest, front⟩ := List.exists_cons_of_ne_nil more.2
      obtain ⟨popped, result, poppedIndexed, poppedLru⟩ := indexed.popFront front
      have total : cache.currentSize = entry.2.memorySize + sizes rest := by
        rw [counted, front]
        simp [sizes]
      have left : cache.currentSize - entry.2.memorySize = sizes popped.lru := by
        rw [total, poppedLru, Nat.add_sub_cancel_left]
      obtain ⟨evicted, kept, roomy, done, split, known⟩ := @ih
        { cache with inner := popped, currentSize := cache.currentSize - entry.2.memorySize } poppedIndexed left
        (by rw [front] at enough; simpa [poppedLru] using enough)
      refine ⟨entry :: evicted, kept, roomy, ?_, ?_, known⟩
      · rw [result]
        have fits : ¬ entry.2.memorySize > cache.currentSize := by omega
        simpa [fits] using done
      · rw [front, ← poppedLru]
        exact congrArg _ split
    · next enoughRoom =>
      refine ⟨[], cache.inner.lru, cache, rfl, rfl, rfl, indexed, counted, ?_, rfl⟩
      rw [not_and_or, Nat.not_lt] at enoughRoom
      rcases enoughRoom with within | nothing
      · exact within
      · rw [counted, not_not.mp nothing]
        exact Nat.zero_le _

theorem Sound.makeRoom (sound : cache.Sound) (itemSize : Nat) : ∃ evicted kept roomy, cache.makeRoom itemSize = some roomy ∧
    cache.inner.lru = evicted ++ kept ∧ roomy.inner.lru = kept ∧ roomy.inner.Indexed ∧ roomy.currentSize = sizes kept ∧
    (cache.maxSize ≠ unlimitedSize → roomy.currentSize ≤ cache.maxSize - itemSize) ∧ roomy.maxSize = cache.maxSize := by
  rw [RuleLevelCache.makeRoom]
  by_cases same : cache.maxSize = unlimitedSize
  · rw [if_neg (not_not.mpr same)]
    exact ⟨[], cache.inner.lru, cache, rfl, rfl, rfl, sound.indexed, sound.counted, fun other => absurd same other, rfl⟩
  · rw [if_pos same]
    obtain ⟨evicted, kept, roomy, done, split, keptLru, indexed, counted, within, samesize⟩ :=
      evictTo_spec (cache.maxSize - itemSize) sound.indexed sound.counted (Nat.le_refl _)
    exact ⟨evicted, kept, roomy, done, split, keptLru, indexed, counted, fun _ => within, samesize⟩

theorem Sound.add (sound : cache.Sound) (key : RuleMaskKey) (mask : AdaptiveTokenMask) :
    ∃ stored after, cache.add key mask = some (stored, after) ∧ after.Sound ∧ after.maxSize = cache.maxSize ∧
      Recency.Moves false cache.inner.lru (.add key mask stored (evictedKeys cache.inner.lru after.inner.lru)) after.inner.lru ∧
      (stored = true ↔ (cache.maxSize = unlimitedSize ∨ mask.memorySize ≤ cache.maxSize) ∧ key ∉ cache.inner.lru.map Prod.fst) := by
  have quiet : evictedKeys cache.inner.lru cache.inner.lru = [] :=
    evictedKeys_self fun entry among => List.mem_map.mpr ⟨entry, among, rfl⟩
  rw [RuleLevelCache.add]
  by_cases large : cache.maxSize ≠ unlimitedSize ∧ mask.memorySize > cache.maxSize
  · rw [if_pos large]
    refine ⟨false, cache, rfl, sound, rfl, ?_, ?_⟩
    · rw [quiet]
      exact .refused rfl
    · simp only [Bool.false_eq_true, false_iff, not_and, not_not]
      rintro (same | fits)
      · exact absurd same large.1
      · omega
  rw [if_neg large]
  have fits : cache.maxSize = unlimitedSize ∨ mask.memorySize ≤ cache.maxSize := by
    by_cases same : cache.maxSize = unlimitedSize
    · exact .inl same
    · exact .inr (Nat.not_lt.mp fun above => large ⟨same, above⟩)
  by_cases present : (cache.inner.index.lookup key).isSome
  · rw [if_pos present]
    refine ⟨false, cache, rfl, sound, rfl, ?_, ?_⟩
    · rw [quiet]
      exact .refused rfl
    · simp only [Bool.false_eq_true, false_iff, not_and, not_not]
      intro _
      by_contra absent
      rw [sound.indexed.lookup_eq_none.mpr absent] at present
      cases present
  rw [if_neg present]
  have missing : cache.inner.index.lookup key = none := by simpa using present
  have absent := sound.indexed.lookup_eq_none.mp missing
  obtain ⟨evicted, kept, roomy, done, split, keptLru, indexed, counted, within, same⟩ := sound.makeRoom mask.memorySize
  rw [done]
  have keys := sound.indexed.nodup
  rw [split] at absent keys
  have absentKept : roomy.inner.index.lookup key = none := by
    rw [indexed.lookup_eq_none, keptLru]
    intro among
    exact absent (by rw [List.map_append]; exact List.mem_append_right _ among)
  refine ⟨true, _, rfl, ⟨indexed.push absentKept mask, ?_, ?_⟩, same, ?_, ?_⟩
  · simp [Recency.push, sizes_append, keptLru, counted, sizes]
  · intro limited
    rw [same] at limited ⊢
    have := within limited
    have := fits.resolve_left limited
    dsimp only
    omega
  · have pushed : (roomy.inner.push key mask).lru = kept ++ [(key, mask)] := by rw [Recency.push, keptLru]
    dsimp only
    rw [pushed, split, evictedKeys_eq keys absent]
    exact .stored absent
  · rw [split]
    simp only [fits, true_and, true_iff]
    exact absent

theorem Sound.clear (cache : RuleLevelCache) : cache.clear.Sound ∧ Recency.Moves false cache.inner.lru .clear cache.clear.inner.lru :=
  ⟨⟨Recency.indexed_empty, rfl, fun _ => Nat.zero_le _⟩, .cleared⟩

theorem Step.sound (step : Step cache call after) (sound : cache.Sound) :
    after.Sound ∧ after.maxSize = cache.maxSize ∧ Recency.Moves false cache.inner.lru call after.inner.lru := by
  cases step with
  | @get key _ _ result =>
    obtain ⟨_, _, result', kept, same, moves⟩ := sound.get key
    cases result.symm.trans result'
    exact ⟨kept, same, moves⟩
  | @add key mask _ _ result =>
    obtain ⟨_, _, result', kept, same, moves, _⟩ := sound.add key mask
    cases result.symm.trans result'
    exact ⟨kept, same, moves⟩
  | clear => exact ⟨(Sound.clear cache).1, rfl, (Sound.clear cache).2⟩

/-- Every run keeps the sums and the index, and does to the entries what its calls say. -/
theorem run_spec (run : Run Step (new maxSize) history cache) :
    cache.Sound ∧ cache.maxSize = maxSize ∧ Run (Recency.Moves false) [] history cache.inner.lru := by
  induction run with
  | start => exact ⟨sound_new maxSize, rfl, .start⟩
  | extend _ step ih =>
    obtain ⟨sound, same, moves⟩ := ih
    obtain ⟨kept, unchanged, moved⟩ := step.sound sound
    exact ⟨kept, unchanged.trans same, .extend moves moved⟩

end RuleLevelCache

end Metrale.Grammar.Compiler
