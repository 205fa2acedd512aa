import Mathlib.Data.Finset.Sort

/-! # Worklists

Two searches over what a step leads to.  The first gathers a set; the second numbers what it finds in the order of its
discovery, and writes down for each number what leads where. -/

namespace Metrale.Foundation

variable {Key Mark : Type*} [DecidableEq Key]

/-- The iteration order of a hash set is whatever its hashes make it. -/
structure HashOrder (Key : Type*) [DecidableEq Key] where
  toList : Finset Key → List Key
  nodup : ∀ keys, (toList keys).Nodup
  mem_toList : ∀ keys key, key ∈ toList keys ↔ key ∈ keys

/-- One order that there is. -/
noncomputable def HashOrder.listed : HashOrder Key where
  toList keys := keys.toList
  nodup keys := keys.nodup_toList
  mem_toList _ _ := Finset.mem_toList

/-! ## Gathering -/

structure Gathering (Key : Type*) where
  queue : List Key
  seen : Finset Key

/-- A key that was not seen yet is seen, and waits. -/
def Gathering.visit (gathering : Gathering Key) (key : Key) : Gathering Key :=
  if key ∈ gathering.seen then gathering else ⟨gathering.queue ++ [key], insert key gathering.seen⟩

def saturate (next : Key → List Key) : Nat → Gathering Key → Finset Key
  | 0, gathering => gathering.seen
  | fuel + 1, gathering => match gathering.queue with
    | [] => gathering.seen
    | key :: queue => saturate next fuel ((next key).foldl Gathering.visit { gathering with queue })

namespace Gathering

variable {gathering : Gathering Key} {next : Key → List Key} {keys : List Key} {key : Key} {every : Finset Key} {fuel : Nat}

theorem seen_foldl_visit (keys : List Key) (gathering : Gathering Key) :
    (keys.foldl visit gathering).seen = gathering.seen ∪ keys.toFinset := by
  induction keys generalizing gathering with
  | nil => simp
  | cons key keys ih =>
    rw [List.foldl_cons, ih, visit]
    split
    · next known => simp [known]
    · simp [Finset.insert_union]

theorem mem_queue_foldl_visit (keys : List Key) (gathering : Gathering Key) :
    key ∈ (keys.foldl visit gathering).queue ↔ key ∈ gathering.queue ∨ key ∈ keys ∧ key ∉ gathering.seen := by
  induction keys generalizing gathering with
  | nil => simp
  | cons head keys ih =>
    rw [List.foldl_cons, ih, visit]
    split
    · next known =>
      simp only [List.mem_cons]
      constructor
      · rintro (old | ⟨among, new⟩)
        · exact .inl old
        · exact .inr ⟨.inr among, new⟩
      · rintro (old | ⟨rfl | among, new⟩)
        · exact .inl old
        · exact absurd known new
        · exact .inr ⟨among, new⟩
    · next unknown =>
      simp only [List.mem_append, List.mem_cons, List.not_mem_nil, or_false, Finset.mem_insert, not_or]
      constructor
      · rintro ((old | rfl) | ⟨among, _, new⟩)
        · exact .inl old
        · exact .inr ⟨.inl rfl, unknown⟩
        · exact .inr ⟨.inr among, new⟩
      · rintro (old | ⟨rfl | among, new⟩)
        · exact .inl (.inl old)
        · exact .inl (.inr rfl)
        · by_cases same : key = head
          · exact .inl (.inr same)
          · exact .inr ⟨among, same, new⟩

/-- What waits and what is not seen are as many as before. -/
theorem length_queue_foldl_visit (keys : List Key) (gathering : Gathering Key) :
    (keys.foldl visit gathering).queue.length + gathering.seen.card =
      gathering.queue.length + (keys.foldl visit gathering).seen.card := by
  induction keys generalizing gathering with
  | nil => rfl
  | cons key keys ih =>
    rw [List.foldl_cons]
    have step := ih (gathering.visit key)
    rw [visit] at step ⊢
    split at step
    · next known => simpa [known] using step
    · next unknown =>
      simp only [unknown, if_false, List.length_append, List.length_singleton, Finset.card_insert_of_notMem unknown] at step ⊢
      omega

/-- What was seen and does not wait leads to what was seen. -/
def Settled (next : Key → List Key) (gathering : Gathering Key) : Prop :=
  (∀ key ∈ gathering.queue, key ∈ gathering.seen) ∧
    ∀ key ∈ gathering.seen, key ∉ gathering.queue → ∀ found ∈ next key, found ∈ gathering.seen

theorem Settled.foldl_visit {queue : List Key} (settled : Settled next gathering) (head : gathering.queue = key :: queue) :
    Settled next ((next key).foldl visit { gathering with queue }) := by
  obtain ⟨waits, leads⟩ := settled
  rw [head] at waits leads
  constructor
  · intro found waiting
    rw [seen_foldl_visit, Finset.mem_union, List.mem_toFinset]
    rcases (mem_queue_foldl_visit ..).mp waiting with old | ⟨new, _⟩
    · exact .inl (waits found (List.mem_cons_of_mem _ old))
    · exact .inr new
  · intro seen inside idle found leadsTo
    rw [seen_foldl_visit, Finset.mem_union, List.mem_toFinset] at inside ⊢
    rw [mem_queue_foldl_visit, not_or] at idle
    by_cases here : seen = key
    · exact .inr (here ▸ leadsTo)
    · rcases inside with old | new
      · exact .inl (leads seen old (by simp [here, idle.1]) found leadsTo)
      · by_cases known : seen ∈ gathering.seen
        · exact .inl (leads seen known (by simp [here, idle.1]) found leadsTo)
        · exact absurd ⟨new, known⟩ idle.2

theorem seen_subset_saturate (fuel : Nat) (gathering : Gathering Key) : gathering.seen ⊆ saturate next fuel gathering := by
  induction fuel generalizing gathering with
  | zero => exact Finset.Subset.refl _
  | succ fuel ih =>
    rw [saturate]
    split
    · exact Finset.Subset.refl _
    · refine Finset.Subset.trans ?_ (ih _)
      rw [seen_foldl_visit]
      exact Finset.subset_union_left

theorem reached_of_mem_saturate (settled : Settled next gathering) (found : key ∈ saturate next fuel gathering) :
    ∃ first ∈ gathering.seen, Relation.ReflTransGen (fun source target => target ∈ next source) first key := by
  induction fuel generalizing gathering with
  | zero => exact ⟨key, found, .refl⟩
  | succ fuel ih =>
    rw [saturate] at found
    split at found
    · exact ⟨key, found, .refl⟩
    · next head queue waiting =>
      obtain ⟨first, inside, reached⟩ := ih (settled.foldl_visit waiting) found
      rw [seen_foldl_visit, Finset.mem_union, List.mem_toFinset] at inside
      rcases inside with old | new
      · exact ⟨first, old, reached⟩
      · exact ⟨head, settled.1 head (waiting ▸ List.mem_cons_self), .head new reached⟩

/-- With rounds for all that may be seen, what the search gathers leads nowhere else. -/
theorem closed_saturate (settled : Settled next gathering) (within : gathering.seen ⊆ every)
    (stays : ∀ key ∈ every, ∀ found ∈ next key, found ∈ every)
    (enough : every.card + gathering.queue.length ≤ fuel + gathering.seen.card) :
    ∀ key ∈ saturate next fuel gathering, ∀ found ∈ next key, found ∈ saturate next fuel gathering := by
  induction fuel generalizing gathering with
  | zero =>
    have small := Finset.card_le_card within
    have idle : gathering.queue = [] := List.length_eq_zero_iff.mp (by omega)
    intro key inside found leadsTo
    exact settled.2 key inside (by simp [idle]) found leadsTo
  | succ fuel ih =>
    rw [saturate]
    split
    · next idle =>
      intro key inside found leadsTo
      exact settled.2 key inside (by simp [idle]) found leadsTo
    · next head queue waiting =>
      have inside := settled.1 head (waiting ▸ List.mem_cons_self)
      apply ih (settled.foldl_visit waiting)
      · rw [seen_foldl_visit]
        refine Finset.union_subset within fun found new => ?_
        exact stays head (within inside) found (List.mem_toFinset.mp new)
      · have count := length_queue_foldl_visit (next head) { gathering with queue }
        have length := congrArg List.length waiting
        simp only [List.length_cons] at length
        simp only at count
        omega

/-- The search gathers what is reached from what it began with. -/
theorem mem_saturate_iff (every : Finset Key) (settled : Settled next gathering) (within : gathering.seen ⊆ every)
    (stays : ∀ key ∈ every, ∀ found ∈ next key, found ∈ every)
    (enough : every.card + gathering.queue.length ≤ fuel + gathering.seen.card) :
    key ∈ saturate next fuel gathering ↔
      ∃ first ∈ gathering.seen, Relation.ReflTransGen (fun source target => target ∈ next source) first key := by
  constructor
  · exact reached_of_mem_saturate settled
  · rintro ⟨first, inside, reached⟩
    induction reached with
    | refl => exact seen_subset_saturate fuel gathering inside
    | tail _ leadsTo ih => exact closed_saturate settled within stays enough _ ih _ leadsTo

end Gathering

/-! ## Numbering -/

variable {Mark : Type*}

/-- The keys in the order of their discovery, and a row for each key that has been looked at. -/
structure Numbering (Key Mark : Type*) where
  keys : List Key
  rows : List (List (Mark × Nat))

/-- Writes down where a mark leads; a new key gets the next number. -/
def Numbering.enter (state : List Key × List (Mark × Nat)) (entry : Mark × Key) : List Key × List (Mark × Nat) :=
  match state.1.idxOf? entry.2 with
  | some number => (state.1, state.2 ++ [(entry.1, number)])
  | none => (state.1 ++ [entry.2], state.2 ++ [(entry.1, state.1.length)])

/-- What a key leads to may depend on the round, as the order of a hash set does. -/
def explore (next : Nat → Key → List (Mark × Key)) : Nat → Numbering Key Mark → Numbering Key Mark
  | 0, numbering => numbering
  | fuel + 1, numbering => match numbering.keys[numbering.rows.length]? with
    | none => numbering
    | some key =>
      let entered := (next numbering.rows.length key).foldl Numbering.enter (numbering.keys, [])
      explore next fuel ⟨entered.1, numbering.rows ++ [entered.2]⟩

namespace Numbering

variable {numbering : Numbering Key Mark} {next : Nat → Key → List (Mark × Key)} {entries : List (Mark × Key)}
  {keys : List Key} {row : List (Mark × Nat)} {key : Key} {every : Finset Key} {fuel : Nat}

/-- A row gives each mark the number of the key that it leads to. -/
def Lists (keys : List Key) (entries : List (Mark × Key)) (row : List (Mark × Nat)) : Prop :=
  List.Forall₂ (fun entry cell => cell.1 = entry.1 ∧ keys[cell.2]? = some entry.2) entries row

omit [DecidableEq Key] in
theorem Lists.append (lists : Lists keys entries row) (more : List Key) : Lists (keys ++ more) entries row := by
  refine List.Forall₂.imp (fun entry cell held => ⟨held.1, ?_⟩) lists
  obtain ⟨inside, same⟩ := List.getElem?_eq_some_iff.mp held.2
  rw [List.getElem?_append_left inside, held.2]

omit [DecidableEq Key] in
theorem Lists.known (lists : Lists keys entries row) {mark : Mark} (listed : (mark, key) ∈ entries) :
    ∃ number : Nat, keys[number]? = some key := by
  induction lists with
  | nil => cases listed
  | cons held _ ih =>
    rcases List.mem_cons.mp listed with rfl | rest
    · exact ⟨_, held.2⟩
    · exact ih rest

omit [DecidableEq Key] in
theorem Lists.mem_iff (lists : Lists keys entries row) (nodup : keys.Nodup) {mark : Mark} {number : Nat} :
    (mark, number) ∈ row ↔ ∃ key, (mark, key) ∈ entries ∧ keys[number]? = some key := by
  induction lists with
  | nil => simp
  | @cons entry cell entries row held _ ih =>
    simp only [List.mem_cons, ih]
    constructor
    · rintro (rfl | ⟨key, among, there⟩)
      · exact ⟨entry.2, .inl (Prod.ext held.1 rfl), held.2⟩
      · exact ⟨key, .inr among, there⟩
    · rintro ⟨key, rfl | among, there⟩
      · refine .inl (Prod.ext held.1.symm ?_)
        obtain ⟨inside, same⟩ := List.getElem?_eq_some_iff.mp there
        obtain ⟨insideCell, sameCell⟩ := List.getElem?_eq_some_iff.mp held.2
        exact (nodup.getElem_inj_iff.mp (same.trans sameCell.symm))
      · exact .inr ⟨key, among, there⟩

/-- The keys of a row are all there afterwards, and no others are new. -/
theorem foldl_enter (entries : List (Mark × Key)) (row : List (Mark × Nat)) (nodup : keys.Nodup) :
    ∃ more cells, entries.foldl enter (keys, row) = (keys ++ more, row ++ cells) ∧ (keys ++ more).Nodup ∧
      Lists (keys ++ more) entries cells ∧ ∀ key ∈ more, key ∈ entries.map Prod.snd := by
  induction entries generalizing keys row with
  | nil => exact ⟨[], [], by simp, by simpa using nodup, .nil, by simp⟩
  | cons entry entries ih =>
    rw [List.foldl_cons, enter]
    split
    · next number found =>
      obtain ⟨inside, same, _⟩ := List.idxOf?_eq_some_iff.mp found
      obtain ⟨more, cells, result, distinct, lists, origin⟩ := ih (row ++ [(entry.1, number)]) nodup
      refine ⟨more, (entry.1, number) :: cells, by simpa using result, distinct, .cons ⟨rfl, ?_⟩ lists, fun key new => ?_⟩
      · rw [List.getElem?_append_left inside, List.getElem?_eq_getElem inside, same]
      · exact List.mem_cons_of_mem _ (origin key new)
    · next missing =>
      have new := List.idxOf?_eq_none_iff.mp missing
      have nodup' : (keys ++ [entry.2]).Nodup := List.Nodup.concat new nodup |> (List.concat_eq_append ▸ ·)
      obtain ⟨more, cells, result, distinct, lists, origin⟩ :=
        ih (row ++ [(entry.1, keys.length)]) nodup'
      refine ⟨entry.2 :: more, (entry.1, keys.length) :: cells, by simpa using result, by simpa using distinct,
        .cons ⟨rfl, by simp⟩ ?_, ?_⟩
      · rw [List.append_assoc] at lists
        exact lists
      rintro key (_ | ⟨_, among⟩)
      · exact List.mem_cons_self
      · exact List.mem_cons_of_mem _ (origin key among)

/-- The keys are distinct, and the rows written so far say where their keys lead. -/
structure Faithful (next : Nat → Key → List (Mark × Key)) (numbering : Numbering Key Mark) : Prop where
  nodup : numbering.keys.Nodup
  short : numbering.rows.length ≤ numbering.keys.length
  lists : ∀ round row, numbering.rows[round]? = some row →
    ∃ key, numbering.keys[round]? = some key ∧ Lists numbering.keys (next round key) row

theorem Faithful.round (faithful : Faithful next numbering) (there : numbering.keys[numbering.rows.length]? = some key) :
    ∃ more cells, (next numbering.rows.length key).foldl enter (numbering.keys, []) = (numbering.keys ++ more, cells) ∧
      Faithful next ⟨numbering.keys ++ more, numbering.rows ++ [cells]⟩ ∧
      ∀ key' ∈ more, key' ∈ (next numbering.rows.length key).map Prod.snd := by
  obtain ⟨more, cells, result, nodup, lists, origin⟩ := foldl_enter (next numbering.rows.length key) [] faithful.nodup
  refine ⟨more, cells, result, ⟨nodup, ?_, fun round row written => ?_⟩, origin⟩
  · have inside := (List.getElem?_eq_some_iff.mp there).1
    simp only [List.length_append, List.length_singleton]
    omega
  · dsimp only at written ⊢
    rcases Nat.lt_trichotomy round numbering.rows.length with old | rfl | beyond
    · rw [List.getElem?_append_left old] at written
      obtain ⟨earlier, found, listed⟩ := faithful.lists round row written
      have inside := (List.getElem?_eq_some_iff.mp found).1
      exact ⟨earlier, by rw [List.getElem?_append_left inside, found], listed.append more⟩
    · rw [List.getElem?_concat_length] at written
      cases written
      have inside := (List.getElem?_eq_some_iff.mp there).1
      exact ⟨key, by rw [List.getElem?_append_left inside, there], lists⟩
    · rw [List.getElem?_eq_none (by simp; omega)] at written
      cases written

theorem Faithful.explore (faithful : Faithful next numbering) (fuel : Nat) :
    Faithful next (explore next fuel numbering) ∧ numbering.keys <+: (Foundation.explore next fuel numbering).keys := by
  induction fuel generalizing numbering with
  | zero => exact ⟨faithful, List.prefix_refl _⟩
  | succ fuel ih =>
    rw [Foundation.explore]
    split
    · exact ⟨faithful, List.prefix_refl _⟩
    · next key there =>
      obtain ⟨more, cells, result, kept, _⟩ := faithful.round there
      dsimp only
      rw [result]
      obtain ⟨last, grown⟩ := ih kept
      exact ⟨last, (List.prefix_append _ _).trans grown⟩

/-- With rounds for all keys there may be, every key has its row. -/
theorem Faithful.explore_complete (faithful : Faithful next numbering) (within : ∀ key ∈ numbering.keys, key ∈ every)
    (stays : ∀ round, ∀ key ∈ every, ∀ entry ∈ next round key, entry.2 ∈ every)
    (enough : every.card ≤ fuel + numbering.rows.length) :
    (Foundation.explore next fuel numbering).rows.length = (Foundation.explore next fuel numbering).keys.length ∧
      ∀ key ∈ (Foundation.explore next fuel numbering).keys, key ∈ every := by
  have few : numbering.keys.length ≤ every.card := by
    rw [← List.toFinset_card_of_nodup faithful.nodup]
    exact Finset.card_le_card fun key found => within key (List.mem_toFinset.mp found)
  induction fuel generalizing numbering with
  | zero =>
    have short := faithful.short
    exact ⟨by simp only [Foundation.explore]; omega, within⟩
  | succ fuel ih =>
    rw [Foundation.explore]
    split
    · next nothing =>
      have short := faithful.short
      have beyond := List.getElem?_eq_none_iff.mp nothing
      exact ⟨by omega, within⟩
    · next key there =>
      obtain ⟨more, cells, result, kept, origin⟩ := faithful.round there
      have inside := within key (List.mem_of_getElem? there)
      have within' : ∀ key ∈ numbering.keys ++ more, key ∈ every := by
        intro found among
        rcases List.mem_append.mp among with old | new
        · exact within found old
        · obtain ⟨entry, listed, rfl⟩ := List.mem_map.mp (origin found new)
          exact stays _ key inside entry listed
      dsimp only
      rw [result]
      apply ih kept within'
      · simp only [List.length_append, List.length_singleton]
        omega
      · rw [← List.toFinset_card_of_nodup kept.nodup]
        exact Finset.card_le_card fun key found => within' key (List.mem_toFinset.mp found)

/-- What a finished exploration from one key is. -/
theorem explore_spec (first : Key) (inside : first ∈ every)
    (stays : ∀ round, ∀ key ∈ every, ∀ entry ∈ next round key, entry.2 ∈ every) (enough : every.card ≤ fuel) :
    Faithful next (Foundation.explore next fuel ⟨[first], []⟩) ∧
      (Foundation.explore next fuel ⟨[first], []⟩).keys[0]? = some first ∧
      (Foundation.explore next fuel ⟨[first], []⟩).rows.length = (Foundation.explore next fuel ⟨[first], []⟩).keys.length ∧
      ∀ key ∈ (Foundation.explore next fuel ⟨[first], []⟩).keys, key ∈ every := by
  have start : Faithful next ⟨[first], []⟩ := ⟨List.nodup_singleton _, Nat.zero_le _, by simp⟩
  obtain ⟨faithful, rest, grown⟩ := start.explore fuel
  refine ⟨faithful, ?_, start.explore_complete (by simpa using inside) stays (by simpa using enough)⟩
  rw [← grown]
  rfl

end Numbering

end Metrale.Foundation
