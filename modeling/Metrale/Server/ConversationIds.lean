import Metrale.Server.ConversationStore

/-! # The ids of a conversation's items

A position names an item only at the time it is added: behind a removal the next item gets the name of one that is
still there.  The ids stay apart, and address what they were returned for, exactly as long as every batch is fresh. -/

namespace Metrale.Server

open Metrale.Foundation

/-! ## Fresh batches -/

def unnamedPositions : Nat → List Value → List Nat
  | _, [] => []
  | start, value :: values =>
    if value.unnamed then start :: unnamedPositions (start + 1) values else unnamedPositions (start + 1) values

structure FreshBatch (convId : String) (held new : List Value) : Prop where
  ownApart : (new.filterMap Value.id).Nodup
  ownNew : ∀ id ∈ new.filterMap Value.id, id ∉ held.filterMap Value.id
  positionNew : ∀ idx ∈ unnamedPositions held.length new, positionId convId idx ∉ held.filterMap Value.id
  positionApart : ∀ idx ∈ unnamedPositions held.length new, positionId convId idx ∉ new.filterMap Value.id
  blank : "" ∈ held.filterMap Value.id ∨ "" ∈ new.filterMap Value.id →
    (∀ value ∈ held, value.id.isSome) ∧ ∀ value ∈ new, value.id.isSome ∨ value.unnamed

structure Addressable (items : List Value) : Prop where
  apart : (items.filterMap Value.id).Nodup
  blank : "" ∈ items.filterMap Value.id → ∀ value ∈ items, value.id.isSome

theorem positionId_injective (convId : String) : Function.Injective (positionId convId) := by
  intro first second same
  have digits : first.repr = second.repr := (String.append_right_inj _).mp same
  have texts := congrArg String.toList digits
  rw [Nat.toList_repr, Nat.toList_repr] at texts
  calc first = Nat.ofDigitChars 10 (Nat.toDigits 10 first) 0 :=
        (Nat.ofDigitChars_toDigits (by omega) (by omega)).symm
    _ = Nat.ofDigitChars 10 (Nat.toDigits 10 second) 0 := by rw [texts]
    _ = second := Nat.ofDigitChars_toDigits (by omega) (by omega)

theorem unnamedPositions_ge {start idx : Nat} {values : List Value} (position : idx ∈ unnamedPositions start values) :
    start ≤ idx := by
  induction values generalizing start with
  | nil => cases position
  | cons value values ih =>
    rw [unnamedPositions] at position
    split at position
    · obtain rfl | later := List.mem_cons.mp position
      · exact le_refl _
      · have := ih later
        omega
    · have := ih position
      omega

theorem unnamedPositions_nodup (start : Nat) (values : List Value) : (unnamedPositions start values).Nodup := by
  induction values generalizing start with
  | nil => exact List.nodup_nil
  | cons value values ih =>
    rw [unnamedPositions]
    split
    · refine List.nodup_cons.mpr ⟨fun position => ?_, ih _⟩
      have := unnamedPositions_ge position
      omega
    · exact ih _

theorem ids_stampItems (convId : String) (start : Nat) (values : List Value) :
    ((stampItems convId start values).filterMap Value.id).Perm
      (values.filterMap Value.id ++ (unnamedPositions start values).map (positionId convId)) := by
  induction values generalizing start with
  | nil => exact .refl _
  | cons value values ih =>
    rw [stampItems, unnamedPositions, stampId]
    by_cases unnamed : value.unnamed = true
    · rw [if_pos unnamed, if_pos unnamed, List.filterMap_cons_some (Value.id_withId unnamed _),
        List.filterMap_cons_none (Value.id_of_unnamed unnamed), List.map_cons]
      exact (ih _).cons _ |>.trans List.perm_middle.symm
    · rw [if_neg unnamed, if_neg unnamed]
      cases named : value.id with
      | none =>
        rw [List.filterMap_cons_none named, List.filterMap_cons_none named]
        exact ih _
      | some id =>
        rw [List.filterMap_cons_some named, List.filterMap_cons_some named]
        exact (ih _).cons _

/-- An item without an id keeps having none exactly where it is no object, or has one that is no text. -/
theorem all_named_stampItems (convId : String) (start : Nat) (values : List Value) :
    (∀ value ∈ stampItems convId start values, value.id.isSome) ↔
      ∀ value ∈ values, value.id.isSome ∨ value.unnamed := by
  induction values generalizing start with
  | nil => simp [stampItems]
  | cons value values ih =>
    rw [stampItems, List.forall_mem_cons, List.forall_mem_cons, ih, stampId]
    refine and_congr_left fun _ => ?_
    by_cases unnamed : value.unnamed = true
    · simp [unnamed, Value.id_withId unnamed]
    · simp [unnamed]

theorem freshBatch_iff {convId : String} {held new : List Value} (addressable : Addressable held) :
    FreshBatch convId held new ↔ Addressable (held ++ stampItems convId held.length new) := by
  have ids := ids_stampItems convId held.length new
  have positions : ((unnamedPositions held.length new).map (positionId convId)).Nodup :=
    (unnamedPositions_nodup _ _).map (positionId_injective convId)
  have mem : ∀ id, id ∈ (stampItems convId held.length new).filterMap Value.id ↔
      id ∈ new.filterMap Value.id ∨ ∃ idx ∈ unnamedPositions held.length new, positionId convId idx = id := by
    intro id
    rw [ids.mem_iff, List.mem_append, List.mem_map]
  have nonempty : ∀ idx, positionId convId idx ≠ "" := by
    intro idx empty
    have := congrArg String.toList empty
    simp [positionId] at this
  have blankIn : "" ∈ (held ++ stampItems convId held.length new).filterMap Value.id ↔
      "" ∈ held.filterMap Value.id ∨ "" ∈ new.filterMap Value.id := by
    rw [List.filterMap_append, List.mem_append, mem]
    refine or_congr_right (or_iff_left ?_)
    rintro ⟨idx, -, empty⟩
    exact nonempty idx empty
  have named : (∀ value ∈ held ++ stampItems convId held.length new, value.id.isSome) ↔
      (∀ value ∈ held, value.id.isSome) ∧ ∀ value ∈ new, value.id.isSome ∨ value.unnamed := by
    rw [List.forall_mem_append, all_named_stampItems]
  constructor
  · intro fresh
    refine ⟨?_, fun empty => named.mpr (fresh.blank (blankIn.mp empty))⟩
    rw [List.filterMap_append, List.nodup_append']
    refine ⟨addressable.apart, ?_, ?_⟩
    · rw [ids.nodup_iff, List.nodup_append']
      refine ⟨fresh.ownApart, positions, ?_⟩
      intro id own position
      obtain ⟨idx, listed, rfl⟩ := List.mem_map.mp position
      exact fresh.positionApart idx listed own
    · intro id old added
      obtain own | ⟨idx, listed, rfl⟩ := (mem id).mp added
      · exact fresh.ownNew id own old
      · exact fresh.positionNew idx listed old
  · intro kept
    have apart := kept.apart
    rw [List.filterMap_append, List.nodup_append'] at apart
    obtain ⟨-, stamped, disjoint⟩ := apart
    rw [ids.nodup_iff, List.nodup_append'] at stamped
    exact {
      ownApart := stamped.1
      ownNew := fun id own old => disjoint old ((mem id).mpr (.inl own))
      positionNew := fun idx listed old => disjoint old ((mem _).mpr (.inr ⟨idx, listed, rfl⟩))
      positionApart := fun idx listed own => stamped.2.2 own (List.mem_map_of_mem listed)
      blank := fun empty => named.mp (kept.blank (blankIn.mpr empty)) }

/-! ## Runs -/

inductive ConversationCall where
  | create (id : String) (initialItems : List Value) (metadata : HashMap String String) (nowUnix now : Nat)
  | get (id : String) (now : Nat)
  | updateMetadata (id : String) (patch : List (String × String)) (now : Nat)
  | addItems (id : String) (newItems : List Value) (now : Nat)
  | removeItem (convId itemId : String) (now : Nat)
  | delete (id : String)

/-- The store, and the items it has returned, each with its conversation, that were not removed since. -/
structure Serving where
  store : ConversationStore
  returned : List (String × Value)

namespace Serving

def start (ttl maxEntries : Nat) : Serving := ⟨.new ttl maxEntries, []⟩

def advance (serving : Serving) : ConversationCall → Serving
  | .create id initialItems metadata nowUnix now =>
    ⟨(serving.store.create id initialItems metadata nowUnix now).1,
      serving.returned.filter (·.1 != id) ++ (stampItems id 0 initialItems).map (id, ·)⟩
  | .get id now => ⟨(serving.store.get id now).1, serving.returned⟩
  | .updateMetadata id patch now => ⟨(serving.store.updateMetadata id patch now).1, serving.returned⟩
  | .addItems id newItems now =>
    match (serving.store.addItems id newItems now).2 with
    | .ok stamped => ⟨(serving.store.addItems id newItems now).1, serving.returned ++ stamped.map (id, ·)⟩
    | .error _ => ⟨(serving.store.addItems id newItems now).1, serving.returned⟩
  | .removeItem convId itemId now =>
    ⟨(serving.store.removeItem convId itemId now).1,
      serving.returned.filter fun entry => !(entry.1 == convId && ConversationStore.removalId entry.2 == itemId)⟩
  | .delete id => ⟨(serving.store.delete id).1, serving.returned⟩

/-- No two items of a conversation have one id, and an id that was returned addresses the item it was returned for,
whether to read it or to remove it. -/
structure Addresses (serving : Serving) : Prop where
  apart : ∀ id items, serving.store.itemsOf id = some items → (items.filterMap Value.id).Nodup
  reads : ∀ id value itemId, (id, value) ∈ serving.returned → value.id = some itemId →
    ∀ items, serving.store.itemsOf id = some items → getConversationItem items itemId = some value
  removes : ∀ id value itemId, (id, value) ∈ serving.returned → value.id = some itemId →
    ∀ items, serving.store.itemsOf id = some items →
      items.filter (ConversationStore.removalId · == itemId) = [value]

/-- What a call adds to a conversation that stays is fresh there. -/
def Fresh (serving : Serving) : ConversationCall → Prop
  | .create id initialItems metadata nowUnix now =>
    ((serving.store.create id initialItems metadata nowUnix now).1.map.lookup id).isSome →
      FreshBatch id [] initialItems
  | .addItems id newItems now =>
    serving.store.accepts id newItems now → ∀ held, serving.store.itemsOf id = some held → FreshBatch id held newItems
  | _ => True

/-- The conversation is addressable, and what it holds under an id is what was returned for it. -/
structure Tracked (returned : List (String × Value)) (id : String) (items : List Value) : Prop where
  addressable : Addressable items
  held : ∀ value, value.id.isSome → (value ∈ items ↔ (id, value) ∈ returned)

def Sound (serving : Serving) : Prop :=
  ∀ id items, serving.store.itemsOf id = some items → Tracked serving.returned id items

end Serving

theorem Addressable.reads {items : List Value} {value : Value} {itemId : String} (addressable : Addressable items)
    (held : value ∈ items) (named : value.id = some itemId) : getConversationItem items itemId = some value := by
  have apart := addressable.apart
  clear addressable
  induction items with
  | nil => cases held
  | cons head items ih =>
    by_cases same : head.id = some itemId
    · have first : getConversationItem (head :: items) itemId = some head := by
        simp [getConversationItem, same]
      obtain rfl | later := List.mem_cons.mp held
      · exact first
      · rw [List.filterMap_cons_some same, List.nodup_cons] at apart
        exact absurd (List.mem_filterMap.mpr ⟨value, later, named⟩) apart.1
    · have skipped : getConversationItem (head :: items) itemId = getConversationItem items itemId := by
        simp [getConversationItem, same]
      rw [skipped]
      obtain rfl | later := List.mem_cons.mp held
      · exact absurd named same
      · refine ih later ?_
        cases other : head.id with
        | none => rwa [List.filterMap_cons_none other] at apart
        | some _ =>
          rw [List.filterMap_cons_some other, List.nodup_cons] at apart
          exact apart.2

/-- Only the items with this id are removed by it, or, where it is empty, also those without any. -/
theorem filter_removal_eq {items : List Value} {value : Value} {itemId : String}
    (apart : (items.filterMap Value.id).Nodup) (named : ∀ item ∈ items, ConversationStore.removalId item = itemId →
      item.id = some itemId) (held : value ∈ items) (found : value.id = some itemId) :
    items.filter (ConversationStore.removalId · == itemId) = [value] := by
  induction items with
  | nil => cases held
  | cons head items ih =>
    have rest : (items.filterMap Value.id).Nodup := by
      cases other : head.id with
      | none => rwa [List.filterMap_cons_none other] at apart
      | some _ =>
        rw [List.filterMap_cons_some other, List.nodup_cons] at apart
        exact apart.2
    have namedRest : ∀ item ∈ items, ConversationStore.removalId item = itemId → item.id = some itemId :=
      fun item listed => named item (List.mem_cons_of_mem _ listed)
    by_cases same : ConversationStore.removalId head = itemId
    · have headId := named head List.mem_cons_self same
      rw [List.filterMap_cons_some headId, List.nodup_cons] at apart
      have noneLeft : items.filter (ConversationStore.removalId · == itemId) = [] := by
        rw [List.filter_eq_nil_iff]
        intro item listed matched
        exact apart.1 (List.mem_filterMap.mpr ⟨item, listed, namedRest item listed (by simpa using matched)⟩)
      obtain rfl | later := List.mem_cons.mp held
      · rw [List.filter_cons_of_pos (by simpa using same), noneLeft]
      · exact absurd (List.mem_filterMap.mpr ⟨value, later, found⟩) apart.1
    · rw [List.filter_cons_of_neg (by simpa using same)]
      obtain rfl | later := List.mem_cons.mp held
      · exact absurd (by simp [ConversationStore.removalId, found]) same
      · exact ih rest namedRest later

theorem Addressable.removes {items : List Value} {value : Value} {itemId : String} (addressable : Addressable items)
    (held : value ∈ items) (named : value.id = some itemId) :
    items.filter (ConversationStore.removalId · == itemId) = [value] := by
  refine filter_removal_eq addressable.apart ?_ held named
  intro item listed removal
  cases other : item.id with
  | some id => simpa [ConversationStore.removalId, other] using removal
  | none =>
    have empty : itemId = "" := by simpa [ConversationStore.removalId, other] using removal.symm
    subst empty
    have all := addressable.blank (List.mem_filterMap.mpr ⟨value, held, named⟩) item listed
    simp [other] at all

namespace Serving

variable {serving : Serving} {id : String} {items : List Value}

theorem Sound.addresses (sound : serving.Sound) : serving.Addresses where
  apart id items stored := (sound id items stored).addressable.apart
  reads id value itemId returned named items stored := by
    have tracked := sound id items stored
    exact tracked.addressable.reads ((tracked.held value (by simp [named])).mpr returned) named
  removes id value itemId returned named items stored := by
    have tracked := sound id items stored
    exact tracked.addressable.removes ((tracked.held value (by simp [named])).mpr returned) named

/-- A conversation all of whose ids were returned, and address what they were returned for, is addressable. -/
theorem Addresses.addressable (addresses : serving.Addresses) (stored : serving.store.itemsOf id = some items)
    (returned : ∀ value ∈ items, value.id.isSome → (id, value) ∈ serving.returned) : Addressable items where
  apart := addresses.apart id items stored
  blank := by
    intro empty other listed
    obtain ⟨value, held, named⟩ := List.mem_filterMap.mp empty
    have alone := addresses.removes id value "" (returned value held (by simp [named])) named items stored
    cases missing : other.id with
    | some _ => rfl
    | none =>
      have taken : other ∈ items.filter (ConversationStore.removalId · == "") := by
        simp [listed, ConversationStore.removalId, missing]
      rw [alone, List.mem_singleton] at taken
      rw [taken, named] at missing
      cases missing

theorem Sound.of_shrinks {after : ConversationStore} (sound : serving.Sound)
    (shrinks : ∀ other, ConversationStore.Shrinks serving.store after other) :
    Sound ⟨after, serving.returned⟩ := by
  intro id items stored
  obtain same | gone := shrinks id
  · exact sound id items (same ▸ stored)
  · exact absurd (stored.symm.trans gone) (by simp)

theorem itemsOf_isSome {store : ConversationStore} : (store.map.lookup id).isSome = (store.itemsOf id).isSome := by
  rw [ConversationStore.itemsOf, Option.isSome_map]

section Create

variable {initialItems : List Value} {metadata : HashMap String String} {nowUnix now : Nat}

theorem Sound.create (sound : serving.Sound)
    (fresh : serving.Fresh (.create id initialItems metadata nowUnix now)) :
    (serving.advance (.create id initialItems metadata nowUnix now)).Sound := by
  intro other items stored
  by_cases same : other = id
  · subst same
    obtain held | gone := ConversationStore.create_itemsOf serving.store other initialItems metadata nowUnix now
    · have batch := fresh (by rw [itemsOf_isSome, held]; rfl)
      have empty : Addressable [] := ⟨List.nodup_nil, fun absurd => by cases absurd⟩
      obtain rfl : stampItems other 0 initialItems = items := Option.some.inj (held.symm.trans stored)
      refine ⟨(freshBatch_iff empty).mp batch, fun value named => ?_⟩
      simp [advance]
    · exact absurd (stored.symm.trans gone) (by simp)
  · obtain kept | gone := ConversationStore.create_shrinks serving.store same initialItems metadata nowUnix now
    · have tracked := sound other items (kept ▸ stored)
      refine ⟨tracked.addressable, fun value named => (tracked.held value named).trans ?_⟩
      simp [advance, same, Ne.symm same]
    · exact absurd (stored.symm.trans gone) (by simp)

theorem fresh_of_create (addresses : (serving.advance (.create id initialItems metadata nowUnix now)).Addresses) :
    serving.Fresh (.create id initialItems metadata nowUnix now) := by
  intro kept
  rw [itemsOf_isSome] at kept
  obtain held | gone := ConversationStore.create_itemsOf serving.store id initialItems metadata nowUnix now
  · have empty : Addressable [] := ⟨List.nodup_nil, fun absurd => by cases absurd⟩
    refine (freshBatch_iff empty).mpr (addresses.addressable held fun value listed _ => ?_)
    exact List.mem_append_right _ (List.mem_map_of_mem listed)
  · rw [gone] at kept
    cases kept

end Create

section AddItems

variable {newItems : List Value} {now : Nat}

theorem Sound.addItems (sound : serving.Sound) (fresh : serving.Fresh (.addItems id newItems now)) :
    (serving.advance (.addItems id newItems now)).Sound := by
  obtain ⟨-, ⟨error, failed⟩, shrinks⟩ | ⟨accepted, held, before, stamped, after⟩ :=
    serving.store.addItems_cases id newItems now
  · simp only [advance, failed]
    exact sound.of_shrinks shrinks
  · simp only [advance, stamped]
    intro other items stored
    have tracked := sound id held before
    rw [after] at stored
    split at stored
    · next same =>
      subst same
      obtain rfl := Option.some.inj stored
      refine ⟨(freshBatch_iff tracked.addressable).mp (fresh accepted held before), fun value named => ?_⟩
      simp [tracked.held value named]
    · next apart =>
      have old := sound other items stored
      refine ⟨old.addressable, fun value named => (old.held value named).trans ?_⟩
      simp [Ne.symm apart]

theorem fresh_of_addItems (sound : serving.Sound)
    (addresses : (serving.advance (.addItems id newItems now)).Addresses) :
    serving.Fresh (.addItems id newItems now) := by
  intro accepted held before
  obtain ⟨rejected, -, -⟩ | ⟨-, stored, found, stamped, after⟩ :=
    serving.store.addItems_cases id newItems now
  · exact absurd accepted rejected
  · obtain rfl : stored = held := Option.some.inj (found.symm.trans before)
    simp only [advance, stamped] at addresses
    have tracked := sound id stored before
    refine (freshBatch_iff tracked.addressable).mpr (addresses.addressable (by rw [after, if_pos rfl]) ?_)
    intro value listed named
    obtain old | added := List.mem_append.mp listed
    · exact List.mem_append_left _ ((tracked.held value named).mp old)
    · exact List.mem_append_right _ (List.mem_map_of_mem added)

end AddItems

theorem Addressable.filter {items : List Value} (addressable : Addressable items) (kept : Value → Bool) :
    Addressable (items.filter kept) where
  apart := addressable.apart.sublist (List.filter_sublist.filterMap _)
  blank := by
    intro empty value listed
    obtain ⟨blank, held, named⟩ := List.mem_filterMap.mp empty
    exact addressable.blank (List.mem_filterMap.mpr ⟨blank, List.mem_of_mem_filter held, named⟩) value
      (List.mem_of_mem_filter listed)

theorem Sound.removeItem (sound : serving.Sound) (convId itemId : String) (now : Nat) :
    (serving.advance (.removeItem convId itemId now)).Sound := by
  intro other items stored
  simp only [advance] at stored ⊢
  rw [ConversationStore.removeItem_itemsOf] at stored
  split at stored
  · next same =>
    subst same
    obtain ⟨held, before, rfl⟩ := Option.map_eq_some_iff.mp stored
    have tracked := sound other held before
    refine ⟨Addressable.filter tracked.addressable _, fun value named => ?_⟩
    simp [tracked.held value named]
  · next apart =>
    have old := sound other items stored
    refine ⟨old.addressable, fun value named => (old.held value named).trans ?_⟩
    simp [apart]

theorem Sound.advance {call : ConversationCall} (sound : serving.Sound) (fresh : serving.Fresh call) :
    (serving.advance call).Sound := by
  cases call with
  | create id initialItems metadata nowUnix now => exact sound.create fresh
  | get id now => exact sound.of_shrinks fun _ => ConversationStore.get_shrinks
  | updateMetadata id patch now => exact sound.of_shrinks fun _ => ConversationStore.updateMetadata_shrinks patch
  | addItems id newItems now => exact sound.addItems fresh
  | removeItem convId itemId now => exact sound.removeItem convId itemId now
  | delete id => exact sound.of_shrinks fun _ => ConversationStore.delete_shrinks

theorem fresh_of_addresses {call : ConversationCall} (sound : serving.Sound)
    (addresses : (serving.advance call).Addresses) : serving.Fresh call := by
  cases call with
  | create id initialItems metadata nowUnix now => exact fresh_of_create addresses
  | addItems id newItems now => exact fresh_of_addItems sound addresses
  | _ => trivial

/-- Over any run the ids of a conversation stay apart and address what they were returned for exactly as long as every
batch that a conversation takes is fresh there. -/
theorem run_addresses_iff (ttl maxEntries : Nat) (calls : List ConversationCall) :
    (∀ earlier later, calls = earlier ++ later → (earlier.foldl advance (start ttl maxEntries)).Addresses) ↔
      ∀ earlier call later, calls = earlier ++ call :: later →
        (earlier.foldl advance (start ttl maxEntries)).Fresh call := by
  have initial : (start ttl maxEntries).Sound := by
    intro id items stored
    cases stored
  exact always_iff initial (fun _ => Sound.addresses) (fun _ _ => Sound.advance) fun _ _ => fresh_of_addresses

def note (text : String) : Value := .object [("content", .string text)]

/-- Two items, the first one removed, and a third that gets the second one's id. -/
theorem ids_collide :
    ¬∀ (ttl maxEntries : Nat) (calls : List ConversationCall) (earlier later : List ConversationCall),
      calls = earlier ++ later → (earlier.foldl advance (start ttl maxEntries)).Addresses := by
  intro unique
  have addresses := unique 60 16 _ [.create "conv_1" [note "a", note "b"] ∅ 0 0, .removeItem "conv_1" "item_1_0" 1,
    .addItems "conv_1" [note "c"] 2] [] rfl
  have apart := addresses.apart "conv_1" _ rfl
  revert apart
  decide

end Serving

end Metrale.Server
