import Metrale.Foundation.HashMap
import Metrale.Foundation.Runs

/-! # Conversations (`conversation_store.rs`, `api/conversations.rs`)

The items of a conversation are wire JSON.  An object without an `id` is given one that names its position at the time;
any other item is kept as it comes.  A call reads the clock once. -/

namespace Metrale.Server

open Metrale.Foundation

/-- `serde_json::Value`; a number is its text. -/
inductive Value where
  | null
  | bool (value : Bool)
  | number (text : String)
  | string (text : String)
  | array (items : List Value)
  | object (entries : List (String × Value))

namespace Value

def get (key : String) : Value → Option Value
  | object entries => (entries.find? (·.1 == key)).map (·.2)
  | _ => none

def asStr : Value → Option String
  | string text => some text
  | _ => none

def id (value : Value) : Option String := (value.get "id").bind asStr

/-- An object that has no `id` of any kind. -/
def unnamed : Value → Bool
  | object entries => ((object entries).get "id").isNone
  | _ => false

def withId (text : String) : Value → Value
  | object entries => object (entries ++ [("id", string text)])
  | value => value

theorem id_withId {value : Value} (unnamed : value.unnamed = true) (text : String) :
    (value.withId text).id = some text := by
  cases value with
  | object entries =>
    have absent : entries.find? (·.1 == "id") = none := by simpa [Value.unnamed, Value.get] using unnamed
    simp [withId, id, Value.get, absent, asStr]
  | _ => cases unnamed

theorem id_of_unnamed {value : Value} (unnamed : value.unnamed = true) : value.id = none := by
  cases value with
  | object entries => simp_all [Value.unnamed, id]
  | _ => cases unnamed

end Value

/-! ## The store -/

structure Conversation where
  id : String
  createdAt : Nat
  metadata : HashMap String String
  items : List Value
  lastAccess : Nat

structure ConversationStore where
  map : HashMap String Conversation
  order : List String
  ttl : Nat
  maxEntries : Nat

def maxItemsPerInsert : Nat := 20

inductive AddItemsError where
  | notFound
  | tooMany (count : Nat)
deriving DecidableEq

/-- `trim_start_matches("conv_")` -/
def trimConv : List Char → List Char
  | 'c' :: 'o' :: 'n' :: 'v' :: '_' :: rest => trimConv rest
  | text => text

def positionId (convId : String) (idx : Nat) : String :=
  "item_" ++ String.ofList (trimConv convId.toList) ++ "_" ++ toString idx

def stampId (value : Value) (convId : String) (idx : Nat) : Value :=
  if value.unnamed then value.withId (positionId convId idx) else value

/-- The items of one call, stamped from the position `start` on. -/
def stampItems (convId : String) : Nat → List Value → List Value
  | _, [] => []
  | start, value :: values => stampId value convId start :: stampItems convId (start + 1) values

def Conversation.expired (conversation : Conversation) (now ttl : Nat) : Bool :=
  decide (ttl < now - conversation.lastAccess)

def evict {Entry : Type*} (maxEntries : Nat) (map : HashMap String Entry) :
    List String → HashMap String Entry × List String
  | [] => (map, [])
  | oldest :: order =>
    if maxEntries < map.keys.length then evict maxEntries (map.erase oldest) order else (map, oldest :: order)

namespace ConversationStore

def new (ttl maxEntries : Nat) : ConversationStore := ⟨∅, [], ttl, maxEntries⟩

/-- `id` is the one that was minted for the conversation. -/
def create (store : ConversationStore) (id : String) (initialItems : List Value) (metadata : HashMap String String)
    (nowUnix now : Nat) : ConversationStore × String :=
  let entry : Conversation := ⟨id, nowUnix, metadata, stampItems id 0 initialItems, now⟩
  let kept := evict store.maxEntries (store.map.insert id entry) (store.order ++ [id])
  ({ store with map := kept.1, order := kept.2 }, id)

def drop (store : ConversationStore) (id : String) : ConversationStore :=
  { store with map := store.map.erase id, order := store.order.filter (· != id) }

def get (store : ConversationStore) (id : String) (now : Nat) : ConversationStore × Option Conversation :=
  match store.map.lookup id with
  | none => (store, none)
  | some conversation =>
    if conversation.expired now store.ttl then (store.drop id, none)
    else
      let seen := { conversation with lastAccess := now }
      ({ store with
        map := store.map.insert id seen
        order := store.order.filter (· != id) ++ [id] }, some seen)

def updateMetadata (store : ConversationStore) (id : String) (patch : List (String × String)) (now : Nat) :
    ConversationStore × Option Conversation :=
  match store.map.lookup id with
  | none => (store, none)
  | some conversation =>
    if conversation.expired now store.ttl then (store.drop id, none)
    else
      let merged := { conversation with
        lastAccess := now
        metadata := patch.foldl (fun metadata entry => metadata.insert entry.1 entry.2) conversation.metadata }
      ({ store with map := store.map.insert id merged }, some merged)

def addItems (store : ConversationStore) (id : String) (newItems : List Value) (now : Nat) :
    ConversationStore × Except AddItemsError (List Value) :=
  if maxItemsPerInsert < newItems.length then (store, .error (.tooMany newItems.length))
  else
    match store.map.lookup id with
    | none => (store, .error .notFound)
    | some conversation =>
      if conversation.expired now store.ttl then (store.drop id, .error .notFound)
      else
        let stamped := stampItems id conversation.items.length newItems
        ({ store with map := store.map.insert id { conversation with
          items := conversation.items ++ stamped
          lastAccess := now } }, .ok stamped)

/-- What an item is removed by; an item without an id goes by the empty text. -/
def removalId (value : Value) : String := value.id.getD ""

def removeItem (store : ConversationStore) (convId itemId : String) (now : Nat) : ConversationStore × Bool :=
  match store.map.lookup convId with
  | none => (store, false)
  | some conversation =>
    let items := conversation.items.filter (removalId · != itemId)
    let removed := decide (items.length < conversation.items.length)
    ({ store with map := store.map.insert convId { conversation with
      items
      lastAccess := if removed then now else conversation.lastAccess } }, removed)

def delete (store : ConversationStore) (id : String) : ConversationStore × Bool :=
  if (store.map.lookup id).isSome then (store.drop id, true) else (store, false)

end ConversationStore

/-- `get_conversation_item`: the first item with this id. -/
def getConversationItem (items : List Value) (itemId : String) : Option Value := items.find? (·.id == some itemId)

/-! ## What a call does to the items of a conversation -/

namespace ConversationStore

variable {store : ConversationStore} {id other : String} {now : Nat}

def itemsOf (store : ConversationStore) (id : String) : Option (List Value) := (store.map.lookup id).map (·.items)

def Shrinks (before after : ConversationStore) (id : String) : Prop :=
  after.itemsOf id = before.itemsOf id ∨ after.itemsOf id = none

theorem evict_lookup {Entry : Type*} (maxEntries : Nat) (map : HashMap String Entry) (order : List String)
    (id : String) :
    (evict maxEntries map order).1.lookup id = map.lookup id ∨ (evict maxEntries map order).1.lookup id = none := by
  induction order generalizing map with
  | nil => exact .inl rfl
  | cons oldest order ih =>
    rw [evict]
    split
    · obtain same | gone := ih (map.erase oldest)
      · rw [same, HashMap.lookup_erase_if]
        split
        · exact .inr rfl
        · exact .inl rfl
      · exact .inr gone
    · exact .inl rfl

theorem drop_shrinks : Shrinks store (store.drop id) other := by
  simp only [Shrinks, itemsOf, drop, HashMap.lookup_erase_if]
  split
  · exact .inr rfl
  · exact .inl rfl

theorem itemsOf_insert_same {conversation changed : Conversation} (found : store.map.lookup id = some conversation)
    (items : changed.items = conversation.items) (order : List String) :
    itemsOf { store with map := store.map.insert id changed, order } other = store.itemsOf other := by
  simp only [itemsOf, HashMap.lookup_insert_if]
  split
  · next same => rw [same, found, Option.map_some, Option.map_some, items]
  · rfl

theorem get_shrinks : Shrinks store (store.get id now).1 other := by
  unfold get
  split
  · exact .inl rfl
  · next conversation found =>
    split
    · exact drop_shrinks
    · left
      apply itemsOf_insert_same found
      rfl

theorem updateMetadata_shrinks (patch : List (String × String)) :
    Shrinks store (store.updateMetadata id patch now).1 other := by
  unfold updateMetadata
  split
  · exact .inl rfl
  · next conversation found =>
    split
    · exact drop_shrinks
    · left
      apply itemsOf_insert_same found
      rfl

theorem delete_shrinks : Shrinks store (store.delete id).1 other := by
  unfold delete
  split
  · exact drop_shrinks
  · exact .inl rfl

theorem create_shrinks (store : ConversationStore) (apart : other ≠ id) (items : List Value)
    (metadata : HashMap String String) (nowUnix now : Nat) :
    Shrinks store (store.create id items metadata nowUnix now).1 other := by
  obtain same | gone := evict_lookup store.maxEntries
    (store.map.insert id ⟨id, nowUnix, metadata, stampItems id 0 items, now⟩) (store.order ++ [id]) other
  · left
    simp only [itemsOf, create, same, HashMap.lookup_insert_if, if_neg apart]
  · right
    simp only [itemsOf, create, gone, Option.map_none]

theorem create_itemsOf (store : ConversationStore) (id : String) (items : List Value)
    (metadata : HashMap String String) (nowUnix now : Nat) :
    (store.create id items metadata nowUnix now).1.itemsOf id = some (stampItems id 0 items) ∨
      (store.create id items metadata nowUnix now).1.itemsOf id = none := by
  obtain same | gone := evict_lookup store.maxEntries
    (store.map.insert id ⟨id, nowUnix, metadata, stampItems id 0 items, now⟩) (store.order ++ [id]) id
  · left
    simp only [itemsOf, create, same, HashMap.lookup_insert_if, if_pos, Option.map_some]
  · right
    simp only [itemsOf, create, gone, Option.map_none]

def accepts (store : ConversationStore) (id : String) (newItems : List Value) (now : Nat) : Prop :=
  newItems.length ≤ maxItemsPerInsert ∧
    ∃ conversation, store.map.lookup id = some conversation ∧ conversation.expired now store.ttl = false

theorem addItems_cases (store : ConversationStore) (id : String) (newItems : List Value) (now : Nat) :
    (¬store.accepts id newItems now ∧ (∃ error, (store.addItems id newItems now).2 = .error error) ∧
      ∀ other, Shrinks store (store.addItems id newItems now).1 other) ∨
    store.accepts id newItems now ∧ ∃ held, store.itemsOf id = some held ∧
      (store.addItems id newItems now).2 = .ok (stampItems id held.length newItems) ∧
      ∀ other, (store.addItems id newItems now).1.itemsOf other =
        if other = id then some (held ++ stampItems id held.length newItems) else store.itemsOf other := by
  unfold addItems
  split
  · next long => exact .inl ⟨fun accepted => absurd accepted.1 (by omega), ⟨_, rfl⟩, fun _ => .inl rfl⟩
  · next short =>
    split
    · next missing =>
      refine .inl ⟨?_, ⟨_, rfl⟩, fun _ => .inl rfl⟩
      rintro ⟨-, conversation, found, -⟩
      rw [missing] at found
      cases found
    · next conversation found =>
      split
      · next expired =>
        refine .inl ⟨?_, ⟨_, rfl⟩, fun _ => drop_shrinks⟩
        rintro ⟨-, live, foundLive, alive⟩
        rw [found] at foundLive
        cases foundLive
        simp [expired] at alive
      · next alive =>
        refine .inr ⟨⟨by omega, conversation, found, by simpa using alive⟩, conversation.items, ?_, rfl, ?_⟩
        · rw [itemsOf, found, Option.map_some]
        · intro other
          simp only [itemsOf, HashMap.lookup_insert_if]
          split <;> rfl

theorem removeItem_itemsOf (itemId : String) : (store.removeItem id itemId now).1.itemsOf other =
    if other = id then (store.itemsOf id).map (·.filter (removalId · != itemId)) else store.itemsOf other := by
  unfold removeItem
  split
  · next missing =>
    split
    · next same => rw [same, itemsOf, missing, Option.map_none, Option.map_none]
    · rfl
  · next conversation found =>
    simp only [itemsOf, HashMap.lookup_insert_if, found]
    split <;> rfl

end ConversationStore

end Metrale.Server
