import Mathlib.Data.List.Sort
import Metrale.Foundation.HashMap

/-! # Disjoint sets of states (`fsm/union_find.rs`)

The source keeps a parent and a size at each element, and `find` compresses the path it takes.  Here each element has
its root at once, and the size of a set is counted. -/

namespace Metrale.Grammar

open Metrale.Foundation

structure UnionFindSet where
  roots : HashMap Nat Nat
  rooted : ∀ {element root}, roots.lookup element = some root → roots.lookup root = some root

namespace UnionFindSet

def empty : UnionFindSet := ⟨∅, fun found => by simp at found⟩

def contains (sets : UnionFindSet) (element : Nat) : Bool := (sets.roots.lookup element).isSome

-- The source panics where the element was never added.
def find (sets : UnionFindSet) (element : Nat) : Nat := (sets.roots.lookup element).getD element

def add (sets : UnionFindSet) (element : Nat) : UnionFindSet where
  roots := if sets.contains element then sets.roots else sets.roots.insert element element
  rooted := by
    intro other root found
    split at found
    · next present =>
      rw [if_pos present]
      exact sets.rooted found
    · next absent =>
      rw [if_neg absent, HashMap.lookup_insert_if] at *
      split at found
      · cases found
        exact if_pos rfl
      · have there := sets.rooted found
        split <;> simp_all

def size (sets : UnionFindSet) (root : Nat) : Nat := sets.roots.entries.countP fun entry => entry.2 == root

/-- The root, once `smaller` stands under `larger`. -/
def relabel (larger smaller root : Nat) : Nat := if root = smaller then larger else root

def link (sets : UnionFindSet) (larger smaller : Nat) (isRoot : sets.roots.lookup larger = some larger) : UnionFindSet where
  roots := sets.roots.mapValues (relabel larger smaller)
  rooted := by
    intro element root found
    rw [HashMap.lookup_mapValues, Option.map_eq_some_iff] at found
    obtain ⟨old, present, rfl⟩ := found
    have stays : relabel larger smaller (relabel larger smaller old) = relabel larger smaller old := by
      simp only [relabel]
      split <;> simp_all
    have isRoot' : sets.roots.lookup (relabel larger smaller old) = some (relabel larger smaller old) := by
      by_cases moved : old = smaller
      · have goes : relabel larger smaller old = larger := if_pos moved
        rw [goes, isRoot]
      · have stands : relabel larger smaller old = old := if_neg moved
        rw [stands, sets.rooted present]
    rw [HashMap.lookup_mapValues, isRoot', Option.map_some, stays]

/-- The smaller set goes under the root of the larger one. -/
def union (sets : UnionFindSet) (a b : Nat) : UnionFindSet :=
  match foundA : sets.roots.lookup a, foundB : sets.roots.lookup b with
  | some rootA, some rootB =>
    if sets.size rootA < sets.size rootB then sets.link rootB rootA (sets.rooted foundB)
    else sets.link rootA rootB (sets.rooted foundA)
  | _, _ => sets

/-- The sets in ascending order, by their first elements. -/
def allSets (sets : UnionFindSet) : List (List Nat) :=
  let elements := sets.roots.keys.insertionSort (· ≤ ·)
  (elements.map sets.find).eraseDups.map fun root => elements.filter fun element => sets.find element = root

/-- Adds both elements and unites their sets. -/
def join (sets : UnionFindSet) (a b : Nat) : UnionFindSet := ((sets.add a).add b).union a b

variable {sets : UnionFindSet} {element other a b rootA rootB : Nat}

theorem find_of_lookup {root : Nat} (found : sets.roots.lookup element = some root) : sets.find element = root := by
  rw [find, found, Option.getD_some]

theorem find_of_absent (absent : sets.contains element = false) : sets.find element = element := by
  have missing : sets.roots.lookup element = none := by simpa [contains] using absent
  rw [find, missing, Option.getD_none]

theorem lookup_of_contains (present : sets.contains element = true) : sets.roots.lookup element = some (sets.find element) := by
  obtain ⟨root, found⟩ := Option.isSome_iff_exists.mp present
  rw [found, find_of_lookup found]

@[simp]
theorem find_find : sets.find (sets.find element) = sets.find element := by
  cases present : sets.contains element with
  | true => exact find_of_lookup (sets.rooted (lookup_of_contains present))
  | false => rw [find_of_absent present, find_of_absent present]

theorem lookup_add : (sets.add element).roots.lookup other =
    if other = element then some (sets.find element) else sets.roots.lookup other := by
  rw [add]
  split
  · next present =>
    split
    · next same => rw [same, lookup_of_contains present]
    · rfl
  · next absent => rw [HashMap.lookup_insert_if, find_of_absent (by simpa using absent)]

@[simp]
theorem contains_add : (sets.add element).contains other = (other = element || sets.contains other) := by
  rw [contains, lookup_add]
  split <;> simp [contains, *]

@[simp]
theorem find_add : (sets.add element).find other = sets.find other := by
  rw [find, lookup_add]
  split
  · next same => rw [Option.getD_some, same]
  · rfl

theorem find_link (isRoot : sets.roots.lookup rootA = some rootA) (below : sets.roots.lookup rootB = some rootB) :
    (sets.link rootA rootB isRoot).find element = relabel rootA rootB (sets.find element) := by
  rw [find, link, HashMap.lookup_mapValues]
  cases present : sets.contains element with
  | true => rw [lookup_of_contains present, Option.map_some, Option.getD_some]
  | false =>
    have outside : element ≠ rootB := by
      rintro rfl
      rw [contains, below] at present
      cases present
    have missing : sets.roots.lookup element = none := by simpa [contains] using present
    rw [missing, find_of_absent present, Option.map_none, Option.getD_none, relabel, if_neg outside]

/-- One of the two roots takes the place of the other. -/
theorem find_join (sets : UnionFindSet) (a b : Nat) : ∃ larger smaller, (larger = sets.find a ∧ smaller = sets.find b ∨ larger = sets.find b ∧ smaller = sets.find a) ∧
    (∀ element, (sets.join a b).find element = relabel larger smaller (sets.find element)) ∧
    ∀ element, (sets.join a b).contains element = (element = a || element = b || sets.contains element) := by
  obtain ⟨foundA, foundB⟩ : ((sets.add a).add b).roots.lookup a = some (sets.find a) ∧
      ((sets.add a).add b).roots.lookup b = some (sets.find b) := by
    constructor
    · rw [lookup_of_contains (by simp), find_add, find_add]
    · rw [lookup_of_contains (by simp), find_add, find_add]
  have rootA := ((sets.add a).add b).rooted foundA
  have rootB := ((sets.add a).add b).rooted foundB
  have kept : ∀ element, ((sets.add a).add b).contains element = (element = a || element = b || sets.contains element) := by
    intro element
    rw [contains_add, contains_add, Bool.or_left_comm, Bool.or_assoc]
  rw [join, union]
  split
  · next rootA' rootB' same same' =>
    rw [foundA] at same
    rw [foundB] at same'
    cases same
    cases same'
    split
    · refine ⟨_, _, .inr ⟨rfl, rfl⟩, fun element => ?_, fun element => ?_⟩
      · rw [find_link rootB rootA, find_add, find_add]
      · rw [← kept, contains, link, HashMap.lookup_mapValues, Option.isSome_map, contains]
    · refine ⟨_, _, .inl ⟨rfl, rfl⟩, fun element => ?_, fun element => ?_⟩
      · rw [find_link rootA rootB, find_add, find_add]
      · rw [← kept, contains, link, HashMap.lookup_mapValues, Option.isSome_map, contains]
  · next missing => exact absurd foundB (missing _ _ foundA)

theorem find_join_self : (sets.join a b).find a = (sets.join a b).find b := by
  obtain ⟨larger, smaller, ⟨rfl, rfl⟩ | ⟨rfl, rfl⟩, found, -⟩ := find_join sets a b <;>
    simp [found, relabel]

theorem find_join_of_eq (same : sets.find element = sets.find other) : (sets.join a b).find element = (sets.join a b).find other := by
  obtain ⟨_, _, _, found, -⟩ := find_join sets a b
  rw [found, found, same]

@[simp]
theorem contains_join : (sets.join a b).contains element = (element = a || element = b || sets.contains element) := by
  obtain ⟨_, _, _, _, kept⟩ := find_join sets a b
  exact kept element

/-- An element is equivalent to its root. -/
def Within (sets : UnionFindSet) (equivalent : Nat → Nat → Prop) : Prop :=
  ∀ element, Relation.EqvGen equivalent element (sets.find element)

theorem within_empty {equivalent : Nat → Nat → Prop} : empty.Within equivalent := by
  intro element
  exact .refl element

theorem Within.join {equivalent : Nat → Nat → Prop} (within : sets.Within equivalent) (joined : Relation.EqvGen equivalent a b) :
    (sets.join a b).Within equivalent := by
  intro element
  obtain ⟨larger, smaller, which, found, -⟩ := find_join sets a b
  have roots : Relation.EqvGen equivalent (sets.find a) (sets.find b) := ((within a).symm.trans _ _ _ joined).trans _ _ _ (within b)
  rw [found, relabel]
  split
  · next moved =>
    refine (within element).trans _ _ _ ?_
    rw [moved]
    rcases which with ⟨rfl, rfl⟩ | ⟨rfl, rfl⟩
    · exact roots.symm
    · exact roots
  · exact within element

theorem Within.of_find_eq {equivalent : Nat → Nat → Prop} (within : sets.Within equivalent) (same : sets.find a = sets.find b) :
    Relation.EqvGen equivalent a b := by
  have half := within a
  rw [same] at half
  exact half.trans _ _ _ (within b).symm

/-! ### The classes -/

/-- Where the state stands among the classes. -/
def classIndex (classes : List (List Nat)) (state : Nat) : Option Nat := classes.findIdx? (·.contains state)

theorem mem_allSets {states : List Nat} (listed : states ∈ sets.allSets) :
    ∃ root, ∀ {element}, element ∈ states ↔ sets.contains element = true ∧ sets.find element = root := by
  obtain ⟨root, -, rfl⟩ := List.mem_map.mp listed
  refine ⟨root, fun {element} => ?_⟩
  simp [contains, AList.lookup_isSome, AList.mem_keys]

theorem exists_mem_allSets (present : sets.contains element = true) : ∃ states ∈ sets.allSets, element ∈ states := by
  have key : element ∈ sets.roots.keys.insertionSort (· ≤ ·) := by
    simpa [contains, AList.lookup_isSome, AList.mem_keys] using present
  refine ⟨_, List.mem_map.mpr ⟨sets.find element, ?_, rfl⟩, ?_⟩
  · exact List.mem_eraseDups.mpr (List.mem_map_of_mem key)
  · simp [key]

theorem classIndex_of_contains (present : sets.contains element = true) :
    ∃ index < sets.allSets.length, classIndex sets.allSets element = some index := by
  obtain ⟨states, listed, among⟩ := exists_mem_allSets present
  cases found : classIndex sets.allSets element with
  | none => simpa [among] using List.findIdx?_eq_none_iff.mp found states listed
  | some index => exact ⟨index, (List.findIdx?_eq_some_iff_getElem.mp found).1, rfl⟩

theorem find_eq_of_classIndex {index : Nat} (first : classIndex sets.allSets a = some index)
    (second : classIndex sets.allSets b = some index) : sets.find a = sets.find b := by
  obtain ⟨inside, among, -⟩ := List.findIdx?_eq_some_iff_getElem.mp first
  obtain ⟨_, among', -⟩ := List.findIdx?_eq_some_iff_getElem.mp second
  obtain ⟨root, members⟩ := mem_allSets (List.getElem_mem inside)
  rw [(members.mp (List.contains_iff_mem.mp among)).2, (members.mp (List.contains_iff_mem.mp among')).2]

theorem classIndex_eq (presentA : sets.contains a = true) (presentB : sets.contains b = true) (same : sets.find a = sets.find b) :
    classIndex sets.allSets a = classIndex sets.allSets b := by
  have alike : ∀ states ∈ sets.allSets, states.contains a = states.contains b := by
    intro states listed
    obtain ⟨root, members⟩ := mem_allSets listed
    rw [Bool.eq_iff_iff, List.contains_iff_mem, List.contains_iff_mem, members, members, presentA, presentB, same]
  unfold classIndex
  generalize sets.allSets = classes at alike
  induction classes with
  | nil => rfl
  | cons states classes ih =>
    rw [List.findIdx?_cons, List.findIdx?_cons, alike states List.mem_cons_self,
      ih fun states listed => alike states (List.mem_cons_of_mem _ listed)]

end UnionFindSet

end Metrale.Grammar
