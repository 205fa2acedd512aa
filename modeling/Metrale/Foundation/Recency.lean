import Metrale.Foundation.HashMap
import Metrale.Foundation.Runs

/-! # Entries in the order of their use

The entries of a cache stand in the order of their last use, and an index says where each key stands.  What the calls
of a run must do to the entries is said of a plain list, without the index; two things follow of any run:

* the entries stand in the order of the last calls that used their keys (`Recorded.ordered`);
* a key is held with the value that was stored for it last, unless it was evicted since (`Recorded.held`). -/

namespace Metrale.Foundation

variable {Key Value : Type*} [DecidableEq Key]

/-! ## The index -/

/-- `lru` runs from the least to the most recently used entry. -/
structure Recency (Key Value : Type*) where
  index : HashMap Key Nat
  lru : List (Key × Value)

namespace Recency

def empty : Recency Key Value := ⟨∅, []⟩

/-- Every position after the one that is vacated goes down by one.  The entry itself goes to the end. -/
def touch (recency : Recency Key Value) (position : Nat) : Option (Recency Key Value) :=
  let last := recency.lru.length - 1
  if position = last then some recency
  else do
    let entry ← recency.lru[position]?
    let shifted := HashMap.mapValues (fun other => if other > position then other - 1 else other) recency.index
    some ⟨shifted.insert entry.1 last, recency.lru.eraseIdx position ++ [entry]⟩

/-- Takes the least recently used entry out.  No position may go below zero. -/
def popFront (recency : Recency Key Value) : Option ((Key × Value) × Recency Key Value) := do
  let entry ← recency.lru.head?
  let index := recency.index.erase entry.1
  if index.entries.any (·.2 = 0) then none else some (entry, ⟨HashMap.mapValues (· - 1) index, recency.lru.tail⟩)

def push (recency : Recency Key Value) (key : Key) (value : Value) : Recency Key Value :=
  ⟨recency.index.insert key recency.lru.length, recency.lru ++ [(key, value)]⟩

/-- The index sends a key to a position exactly when the entry there has the key. -/
def Indexed (recency : Recency Key Value) : Prop :=
  ∀ key position, recency.index.lookup key = some position ↔ ∃ value, recency.lru[position]? = some (key, value)

variable {recency : Recency Key Value} {key other : Key} {value : Value} {position : Nat}

theorem indexed_empty : (empty : Recency Key Value).Indexed := by
  intro key position
  simp [empty]

theorem Indexed.lookup_eq_none (indexed : recency.Indexed) : recency.index.lookup key = none ↔ key ∉ recency.lru.map Prod.fst := by
  constructor
  · intro missing among
    obtain ⟨entry, found, rfl⟩ := List.mem_map.mp among
    obtain ⟨position, there⟩ := List.getElem?_of_mem found
    rw [(indexed entry.1 position).mpr ⟨entry.2, there⟩] at missing
    cases missing
  · intro absent
    cases stored : recency.index.lookup key with
    | none => rfl
    | some position =>
      obtain ⟨value, there⟩ := (indexed key position).mp stored
      exact absurd (List.mem_map.mpr ⟨_, List.mem_of_getElem? there, rfl⟩) absent

/-- No two entries have the same key. -/
theorem Indexed.nodup (indexed : recency.Indexed) : (recency.lru.map Prod.fst).Nodup := by
  rw [List.nodup_iff_injective_getElem]
  intro one two same
  have insideOne : one < recency.lru.length := by simpa using one.isLt
  have insideTwo : two < recency.lru.length := by simpa using two.isLt
  simp only [List.getElem_map] at same
  have first := (indexed recency.lru[one.val].1 one).mpr ⟨_, List.getElem?_eq_getElem insideOne⟩
  have second := (indexed recency.lru[two.val].1 two).mpr ⟨_, List.getElem?_eq_getElem insideTwo⟩
  rw [same, second] at first
  exact Fin.ext (Option.some.inj first).symm

/-- The entry of a key that is used goes to the end. -/
theorem Indexed.touch (indexed : recency.Indexed) (stored : recency.index.lookup key = some position) :
    ∃ front value back touched, recency.lru = front ++ (key, value) :: back ∧ recency.touch position = some touched ∧
      touched.Indexed ∧ touched.lru = front ++ back ++ [(key, value)] := by
  obtain ⟨value, there⟩ := (indexed key position).mp stored
  obtain ⟨inside, here⟩ := List.getElem?_eq_some_iff.mp there
  have split : recency.lru = recency.lru.take position ++ (key, value) :: recency.lru.drop (position + 1) := by
    rw [← here, List.getElem_cons_drop, List.take_append_drop]
  have erased : recency.lru.eraseIdx position = recency.lru.take position ++ recency.lru.drop (position + 1) :=
    List.eraseIdx_eq_take_drop_succ ..
  refine ⟨recency.lru.take position, value, recency.lru.drop (position + 1), ?_⟩
  rw [Recency.touch]
  by_cases atEnd : position = recency.lru.length - 1
  · have nothing : recency.lru.drop (position + 1) = [] := List.drop_eq_nil_of_le (by omega)
    refine ⟨recency, split, if_pos atEnd, indexed, ?_⟩
    rw [nothing] at split ⊢
    simpa using split
  · rw [if_neg atEnd, there]
    refine ⟨_, split, rfl, ?_, by rw [erased]⟩
    intro other number
    dsimp only
    rw [HashMap.lookup_insert_if, HashMap.lookup_mapValues]
    have length : (recency.lru.eraseIdx position).length = recency.lru.length - 1 := by
      rw [List.length_eraseIdx, if_pos inside]
    by_cases same : other = key
    · subst same
      rw [if_pos rfl]
      constructor
      · rintro ⟨⟩
        exact ⟨value, by rw [← length, List.getElem?_concat_length]⟩
      · rintro ⟨found, entry⟩
        rcases Nat.lt_trichotomy number (recency.lru.length - 1) with before | rfl | beyond
        · rw [List.getElem?_append_left (by omega), List.getElem?_eraseIdx] at entry
          split at entry
          · have stored' := (indexed other number).mpr ⟨found, entry⟩
            have here := Option.some.inj (stored.symm.trans stored')
            omega
          · have stored' := (indexed other (number + 1)).mpr ⟨found, entry⟩
            have here := Option.some.inj (stored.symm.trans stored')
            omega
        · rfl
        · rw [List.getElem?_eq_none (by simp; omega)] at entry
          cases entry
    · rw [if_neg same]
      constructor
      · intro moved
        obtain ⟨old, found, rfl⟩ := Option.map_eq_some_iff.mp moved
        obtain ⟨kept, entry⟩ := (indexed other old).mp found
        have insideOld := (List.getElem?_eq_some_iff.mp entry).1
        have apart : old ≠ position := by
          rintro rfl
          rw [there] at entry
          exact same (congrArg Prod.fst (Option.some.inj entry)).symm
        refine ⟨kept, ?_⟩
        split
        · rw [List.getElem?_append_left (by omega), List.getElem?_eraseIdx, if_neg (by omega), Nat.sub_add_cancel (by omega), entry]
        · rw [List.getElem?_append_left (by omega), List.getElem?_eraseIdx, if_pos (by omega), entry]
      · rintro ⟨kept, entry⟩
        rcases Nat.lt_or_ge number (recency.lru.length - 1) with before | beyond
        · rw [List.getElem?_append_left (by omega), List.getElem?_eraseIdx] at entry
          split at entry
          · rw [(indexed other number).mpr ⟨kept, entry⟩, Option.map_some, if_neg (by omega)]
          · rw [(indexed other (number + 1)).mpr ⟨kept, entry⟩, Option.map_some, if_pos (by omega), Nat.add_sub_cancel]
        · rw [List.getElem?_append_right (by omega), length] at entry
          obtain ⟨rfl, rfl⟩ := Prod.mk.inj (List.mem_singleton.mp (List.mem_of_getElem? entry))
          exact absurd rfl same

theorem Indexed.popFront {entry : Key × Value} {rest : List (Key × Value)} (indexed : recency.Indexed)
    (front : recency.lru = entry :: rest) :
    ∃ popped, recency.popFront = some (entry, popped) ∧ popped.Indexed ∧ popped.lru = rest := by
  have head : recency.index.lookup entry.1 = some 0 := (indexed entry.1 0).mpr ⟨entry.2, by simp [front]⟩
  have positive : (recency.index.erase entry.1).entries.any (·.2 = 0) = false := by
    rw [List.any_eq_false]
    rintro ⟨other, number⟩ listed
    have found : (recency.index.erase entry.1).lookup other = some number := AList.mem_lookup_iff.mpr listed
    rw [HashMap.lookup_erase_if] at found
    split at found
    · cases found
    · next different =>
      intro zero
      cases of_decide_eq_true zero
      obtain ⟨value, first⟩ := (indexed other 0).mp found
      rw [front] at first
      exact different (congrArg Prod.fst (Option.some.inj first)).symm
  refine ⟨⟨HashMap.mapValues (· - 1) (recency.index.erase entry.1), rest⟩, ?_, fun other number => ?_, rfl⟩
  · simp [Recency.popFront, front, positive]
  · dsimp only
    rw [HashMap.lookup_mapValues, HashMap.lookup_erase_if]
    split
    · next same =>
      subst same
      simp only [Option.map_none, reduceCtorEq, false_iff]
      rintro ⟨value, there⟩
      have stored := (indexed entry.1 (number + 1)).mpr ⟨value, by simpa [front] using there⟩
      rw [head] at stored
      cases stored
    · next different =>
      constructor
      · intro moved
        obtain ⟨old, found, rfl⟩ := Option.map_eq_some_iff.mp moved
        obtain ⟨value, there⟩ := (indexed other old).mp found
        cases old with
        | zero =>
          rw [front] at there
          exact absurd (congrArg Prod.fst (Option.some.inj there)).symm different
        | succ old => exact ⟨value, by simpa [front] using there⟩
      · rintro ⟨value, there⟩
        rw [(indexed other (number + 1)).mpr ⟨value, by simpa [front] using there⟩]
        rfl

theorem Indexed.push (indexed : recency.Indexed) (absent : recency.index.lookup key = none) (value : Value) :
    (recency.push key value).Indexed := by
  intro other number
  simp only [Recency.push]
  rw [HashMap.lookup_insert_if]
  rcases Nat.lt_trichotomy number recency.lru.length with inside | rfl | beyond
  · rw [List.getElem?_append_left inside]
    split
    · next same =>
      subst same
      constructor
      · rintro ⟨⟩
        exact absurd inside (Nat.lt_irrefl _)
      · rintro ⟨kept, there⟩
        rw [(indexed other number).mpr ⟨kept, there⟩] at absent
        cases absent
    · exact indexed other number
  · rw [List.getElem?_concat_length]
    split
    · next same => simp [same]
    · next different =>
      constructor
      · intro stored
        obtain ⟨_, there⟩ := (indexed other _).mp stored
        simp at there
      · rintro ⟨_, there⟩
        exact absurd (congrArg Prod.fst (Option.some.inj there)).symm different
  · rw [List.getElem?_eq_none (by simp; omega)]
    simp only [reduceCtorEq, exists_false, iff_false]
    split
    · intro stored
      exact Nat.ne_of_lt beyond (Option.some.inj stored)
    · intro stored
      obtain ⟨_, there⟩ := (indexed other number).mp stored
      exact absurd (List.getElem?_eq_some_iff.mp there).1 (Nat.not_lt.mpr (Nat.le_of_lt beyond))

/-! ## Calls and their history -/

/-- A call with its answer.  A value that was added names the keys that went for it. -/
inductive Call (Key Value : Type*) where
  | get (key : Key) (answer : Option Value)
  | add (key : Key) (value : Value) (stored : Bool) (evicted : List Key)
  | clear

/-- Whether a call counts as a use of the key.  Some caches are `refreshing`: there, adding a key that is held is a use of it. -/
def Call.uses (refreshing : Bool) (key : Key) : Call Key Value → Bool
  | .get other answer => answer.isSome && other = key
  | .add other _ stored _ => (stored || refreshing) && other = key
  | .clear => false

def lastUse (refreshing : Bool) (history : List (Call Key Value)) (key : Key) : Nat :=
  history.length - history.reverse.findIdx (Call.uses refreshing key)

def Call.holds (key : Key) (old : Option Value) : Call Key Value → Option Value
  | .get _ _ => old
  | .add other value stored evicted => if stored ∧ other = key then some value else if key ∈ evicted then none else old
  | .clear => none

/-- The value that was stored for a key last, if it was not evicted since. -/
def held (history : List (Call Key Value)) (key : Key) : Option Value := history.foldl (Call.holds key) none

/-- What the calls do to the entries. -/
inductive Moves (refreshing : Bool) : List (Key × Value) → Call Key Value → List (Key × Value) → Prop where
  | hit {front back key value} : Moves refreshing (front ++ (key, value) :: back) (.get key (some value)) (front ++ back ++ [(key, value)])
  | miss {entries key} : key ∉ entries.map Prod.fst → Moves refreshing entries (.get key none) entries
  | stored {evicted kept key value} : key ∉ (evicted ++ kept).map Prod.fst →
      Moves refreshing (evicted ++ kept) (.add key value true (evicted.map Prod.fst)) (kept ++ [(key, value)])
  | refused {entries key value} : refreshing = false → Moves refreshing entries (.add key value false []) entries
  | refreshed {front back key old value} : refreshing = true →
      Moves refreshing (front ++ (key, old) :: back) (.add key value false []) (front ++ back ++ [(key, old)])
  | cleared {entries} : Moves refreshing entries .clear []

variable {refreshing : Bool} {history : List (Call Key Value)} {call : Call Key Value} {entries after kept : List (Key × Value)}

theorem lastUse_append : lastUse refreshing (history ++ [call]) key =
    if call.uses refreshing key then history.length + 1 else lastUse refreshing history key := by
  rw [lastUse, List.reverse_append, List.reverse_singleton, List.singleton_append, List.findIdx_cons, List.length_append,
    List.length_singleton, lastUse]
  cases call.uses refreshing key with
  | true => simp
  | false =>
    simp only [cond_false, Bool.false_eq_true, if_false]
    omega

theorem lastUse_le : lastUse refreshing history key ≤ history.length := Nat.sub_le _ _

theorem held_append : held (history ++ [call]) key = call.holds key (held history key) := by
  rw [held, List.foldl_append]
  rfl

/-- What a run keeps: distinct keys, in the order of their last use. -/
structure Recorded (refreshing : Bool) (history : List (Call Key Value)) (entries : List (Key × Value)) : Prop where
  nodup : (entries.map Prod.fst).Nodup
  ordered : entries.Pairwise fun earlier later => lastUse refreshing history earlier.1 < lastUse refreshing history later.1
  held : ∀ key value, (key, value) ∈ entries ↔ Recency.held history key = some value

/-- Entries that stay as they are keep their order when no call uses them. -/
theorem Recorded.kept_ordered (recorded : Recorded refreshing history entries) (within : kept.Sublist entries)
    (unused : ∀ entry ∈ kept, call.uses refreshing entry.1 = false) :
    kept.Pairwise fun earlier later =>
      lastUse refreshing (history ++ [call]) earlier.1 < lastUse refreshing (history ++ [call]) later.1 := by
  refine (recorded.ordered.sublist within).imp_of_mem fun {earlier later} amongEarlier amongLater before => ?_
  rw [lastUse_append, lastUse_append, unused earlier amongEarlier, unused later amongLater]
  exact before

/-- The key that a call uses goes behind all others. -/
theorem Recorded.used_last (recorded : Recorded refreshing history entries) (within : kept.Sublist entries)
    (used : call.uses refreshing key = true) (others : ∀ other, call.uses refreshing other = true → other = key)
    (absent : key ∉ kept.map Prod.fst) : (kept ++ [(key, value)]).Pairwise fun earlier later =>
      lastUse refreshing (history ++ [call]) earlier.1 < lastUse refreshing (history ++ [call]) later.1 := by
  have unused : ∀ entry ∈ kept, call.uses refreshing entry.1 = false := by
    intro entry among
    by_contra used'
    have same := others entry.1 (by simpa using used')
    exact absent (same ▸ List.mem_map.mpr ⟨entry, among, rfl⟩)
  refine List.pairwise_append.mpr ⟨recorded.kept_ordered within unused, List.pairwise_singleton _ _, fun entry among last same => ?_⟩
  cases List.mem_singleton.mp same
  rw [lastUse_append, lastUse_append, unused entry among, used, if_pos rfl]
  exact Nat.lt_succ_of_le lastUse_le

theorem perm_moved {front back : List (Key × Value)} : (front ++ back ++ [(key, value)]).Perm (front ++ (key, value) :: back) :=
  (List.perm_append_singleton _ _).trans List.perm_middle.symm

/-- An entry that was used is behind the others, and nothing else changes. -/
theorem Recorded.moved {front back : List (Key × Value)} (recorded : Recorded refreshing history (front ++ (key, value) :: back))
    (used : call.uses refreshing key = true) (others : ∀ other, call.uses refreshing other = true → other = key)
    (same : ∀ other old, call.holds other old = old) : Recorded refreshing (history ++ [call]) (front ++ back ++ [(key, value)]) := by
  have keys := (perm_moved.map Prod.fst).nodup_iff.mpr recorded.nodup
  have absent : key ∉ (front ++ back).map Prod.fst := by
    rw [List.map_append] at keys
    intro among
    exact List.disjoint_of_nodup_append keys among (by simp)
  refine ⟨keys, recorded.used_last (List.Sublist.append_left (List.sublist_cons_self _ _) _) used others absent, fun other found => ?_⟩
  rw [perm_moved.mem_iff, recorded.held, held_append, same]

theorem Moves.recorded (moves : Moves refreshing entries call after) (recorded : Recorded refreshing history entries) :
    Recorded refreshing (history ++ [call]) after := by
  cases moves with
  | @hit front back key value =>
    exact recorded.moved (by simp [Call.uses]) (fun other used => by simpa [Call.uses, eq_comm] using used) (fun _ _ => rfl)
  | miss =>
    refine ⟨recorded.nodup, recorded.kept_ordered (List.Sublist.refl _) (fun _ _ => rfl), fun other value => ?_⟩
    rw [recorded.held, held_append]
    rfl
  | @stored evicted kept key value absent =>
    have nodup := recorded.nodup
    rw [List.map_append] at nodup absent
    obtain ⟨_, keptNodup, apart⟩ := List.nodup_append.mp nodup
    rw [List.mem_append, not_or] at absent
    refine ⟨?_, recorded.used_last (List.sublist_append_right _ _) (by simp [Call.uses])
      (fun other used => by simpa [Call.uses, eq_comm] using used) absent.2, fun other found => ?_⟩
    · rw [List.map_append]
      refine List.nodup_append.mpr ⟨keptNodup, List.nodup_singleton _, fun one among two same => ?_⟩
      cases List.mem_singleton.mp same
      rintro rfl
      exact absent.2 among
    · rw [held_append, Call.holds, List.mem_append, List.mem_singleton]
      by_cases here : key = other
      · subst here
        simp only [true_and, if_true, Option.some.injEq]
        constructor
        · rintro (old | new)
          · exact absurd (List.mem_map.mpr ⟨_, old, rfl⟩) absent.2
          · exact (Prod.mk.inj new).2.symm
        · rintro rfl
          exact .inr rfl
      · rw [if_neg (fun both => here both.2)]
        by_cases gone : other ∈ evicted.map Prod.fst
        · simp only [gone, if_true, reduceCtorEq, iff_false]
          rintro (old | new)
          · exact apart _ gone _ (List.mem_map.mpr ⟨_, old, rfl⟩) rfl
          · exact here (Prod.mk.inj new).1.symm
        · rw [if_neg gone, ← recorded.held, List.mem_append]
          constructor
          · rintro (old | new)
            · exact .inr old
            · exact absurd (Prod.mk.inj new).1.symm here
          · rintro (old | old)
            · exact absurd (List.mem_map.mpr ⟨_, old, rfl⟩) gone
            · exact .inl old
  | refused quiet =>
    refine ⟨recorded.nodup, recorded.kept_ordered (List.Sublist.refl _) (fun _ _ => by simp [Call.uses, quiet]), fun other found => ?_⟩
    rw [recorded.held, held_append, Call.holds]
    simp
  | @refreshed front back key old value loud =>
    exact recorded.moved (by simp [Call.uses, loud]) (fun other used => by simpa [Call.uses, loud, eq_comm] using used)
      (fun _ _ => by simp [Call.holds])
  | cleared =>
    refine ⟨List.nodup_nil, List.Pairwise.nil, fun other found => ?_⟩
    rw [held_append, Call.holds]
    simp

/-- After any run the entries stand in the order of their last use, and hold what was stored last and not evicted since. -/
theorem recorded_of_run (run : Run (Moves refreshing) [] history entries) : Recorded refreshing history entries := by
  induction run with
  | start => exact ⟨List.nodup_nil, List.Pairwise.nil, by simp [held]⟩
  | extend _ moves ih => exact moves.recorded ih

/-- A key is not held when no entry has it. -/
theorem Recorded.held_eq_none (recorded : Recorded refreshing history entries) :
    Recency.held history key = none ↔ key ∉ entries.map Prod.fst := by
  constructor
  · intro nothing among
    obtain ⟨entry, found, rfl⟩ := List.mem_map.mp among
    rw [(recorded.held entry.1 entry.2).mp found] at nothing
    cases nothing
  · intro absent
    cases known : Recency.held history key with
    | none => rfl
    | some value => exact absurd (List.mem_map.mpr ⟨_, (recorded.held key value).mpr known, rfl⟩) absent

/-- What is answered is what is held. -/
theorem Recorded.answer (recorded : Recorded refreshing history entries) {answer : Option Value}
    (moves : Moves refreshing entries (.get key answer) after) : answer = Recency.held history key := by
  cases moves with
  | hit => exact ((recorded.held key _).mp (by simp)).symm
  | miss absent => exact (recorded.held_eq_none.mpr absent).symm

end Recency

end Metrale.Foundation
