import Mathlib.Data.List.Range
import Mathlib.Tactic.Ring
import Metrale.Grammar.Schema.GenObject

/-! # The objects of a schema

The keys of an object are named properties in the order of the schema, among them every required one, and then others
where the schema lets them be; there are as many as the bounds allow. -/

namespace Metrale.Grammar

open Metrale.Foundation Metrale.Foundation.RuleScript

namespace ObjectSpec

variable (spec : ObjectSpec)

def RequiredAt (i : Nat) : Prop := spec.requiredFlags[i]? = some true

def IsOther (key : Fragment) : Prop := ∃ additional ∈ spec.additionalProperty, key = .other additional

/-- Named properties from `first` on, all required ones of them, in order; then others. -/
def Arranged (first : Nat) (keys : List Fragment) : Prop :=
  ∃ (listed : List Nat) (others : List Fragment), keys = listed.map .property ++ others ∧
    listed.Sublist (List.range' first (spec.properties.length - first)) ∧
    (∀ i, first ≤ i → spec.RequiredAt i → i ∈ listed) ∧ ∀ key ∈ others, spec.IsOther key

def Counts (total : Nat) : Prop :=
  spec.minProperties ≤ total ∧ (spec.maxProperties = -1 ∨ (total : Int) ≤ spec.maxProperties)

def Object (keys : List Fragment) : Prop := spec.Arranged 0 keys ∧ spec.Counts keys.length

/-- What the parser of schemas lets through, and that an `i32` counts the properties. -/
structure Feasible : Prop where
  distinct : spec.properties.Nodup
  requiredDistinct : spec.required.Nodup
  requiredListed : spec.required ⊆ spec.properties
  lower : 0 ≤ spec.minProperties
  upper : spec.maxProperties = -1 ∨ spec.minProperties ≤ spec.maxProperties
  requiredUpper : spec.maxProperties = -1 ∨ (spec.required.length : Int) ≤ spec.maxProperties
  reachable : spec.additionalProperty = none → spec.minProperties ≤ spec.properties.length
  countable : spec.properties.length < 2147483648

def UpperFits : Prop :=
  spec.properties = [] ∨ spec.maxProperties = -1 ∨ spec.maxProperties < 2147483648 ∨
    (spec.properties.length : Int) ≤ asI32 spec.maxProperties

variable {spec}

theorem length_requiredFlags : spec.requiredFlags.length = spec.properties.length := List.length_map _

theorem RequiredAt.lt {i : Nat} (required : spec.RequiredAt i) : i < spec.properties.length := by
  rw [← length_requiredFlags]
  exact (List.getElem?_eq_some_iff.mp required).1

/-! ## One property at a time -/

variable {first : Nat} {keys : List Fragment}

theorem arranged_end : spec.Arranged spec.properties.length keys ↔ ∀ key ∈ keys, spec.IsOther key := by
  constructor
  · rintro ⟨listed, others, rfl, sublist, -, other⟩
    rw [Nat.sub_self, List.range'_zero, List.sublist_nil] at sublist
    cases sublist
    exact other
  · intro other
    refine ⟨[], keys, rfl, List.nil_sublist _, ?_, other⟩
    intro i after required
    exact absurd required.lt (Nat.not_lt.mpr after)

theorem arranged_step (present : first < spec.properties.length) :
    spec.Arranged first keys ↔ (∃ rest, keys = .property first :: rest ∧ spec.Arranged (first + 1) rest) ∨
      (¬ spec.RequiredAt first ∧ spec.Arranged (first + 1) keys) := by
  have range : List.range' first (spec.properties.length - first) =
      first :: List.range' (first + 1) (spec.properties.length - (first + 1)) := by
    have size : spec.properties.length - first = spec.properties.length - (first + 1) + 1 := by omega
    rw [size, List.range'_succ]
  constructor
  · rintro ⟨listed, others, rfl, sublist, all, other⟩
    rw [range, List.sublist_cons_iff] at sublist
    obtain skipped | ⟨rest, rfl, taken⟩ := sublist
    · refine .inr ⟨fun required => ?_, listed, others, rfl, skipped, fun i after => all i (Nat.le_of_succ_le after), other⟩
      have later := List.mem_range'_1.mp (skipped.subset (all first (Nat.le_refl _) required))
      exact Nat.not_succ_le_self _ later.1
    · refine .inl ⟨rest.map .property ++ others, rfl, rest, others, rfl, taken, fun i after required => ?_, other⟩
      obtain same | member := List.mem_cons.mp (all i (Nat.le_of_succ_le after) required)
      · exact absurd after (Nat.not_succ_le_self _ |> fun impossible => same ▸ impossible)
      · exact member
  · rintro (⟨_, rfl, listed, others, rfl, sublist, all, other⟩ | ⟨optional, listed, others, rfl, sublist, all, other⟩)
    · refine ⟨first :: listed, others, rfl, range ▸ sublist.cons_cons first, fun i after required => ?_, other⟩
      obtain rfl | later := Nat.eq_or_lt_of_le after
      · exact List.mem_cons_self
      · exact List.mem_cons_of_mem _ (all i later required)
    · refine ⟨listed, others, rfl, range ▸ sublist.cons first, fun i after required => ?_, other⟩
      obtain rfl | later := Nat.eq_or_lt_of_le after
      · exact absurd required optional
      · exact all i later required

/-! ## How many keys there can be -/

/-- The required properties from `first` on. -/
def requiredFrom (spec : ObjectSpec) (first : Nat) : Nat := (spec.requiredFlags.drop first).count true

/-- The required properties before `first`. -/
def requiredBefore (spec : ObjectSpec) (first : Nat) : Nat := (spec.requiredFlags.take first).count true

theorem requiredFrom_end : spec.requiredFrom spec.properties.length = 0 := by
  rw [requiredFrom, ← length_requiredFlags, List.drop_length]
  rfl

theorem drop_requiredFlags {isRequired : Bool} (flag : spec.requiredFlags[first]? = some isRequired) :
    spec.requiredFlags.drop first = isRequired :: spec.requiredFlags.drop (first + 1) := by
  obtain ⟨present, rfl⟩ := List.getElem?_eq_some_iff.mp flag
  exact List.drop_eq_getElem_cons present

theorem requiredFrom_step {isRequired : Bool} (flag : spec.requiredFlags[first]? = some isRequired) :
    spec.requiredFrom first = spec.requiredFrom (first + 1) + (if isRequired then 1 else 0) := by
  rw [requiredFrom, drop_requiredFlags flag, List.count_cons, requiredFrom]
  cases isRequired <;> rfl

theorem requiredBefore_step {isRequired : Bool} (flag : spec.requiredFlags[first]? = some isRequired) :
    spec.requiredBefore (first + 1) = spec.requiredBefore first + (if isRequired then 1 else 0) := by
  rw [requiredBefore, List.take_add_one, flag, List.count_append, requiredBefore]
  cases isRequired <;> rfl

theorem required_split (first : Nat) :
    spec.requiredBefore first + spec.requiredFrom first = spec.requiredFlags.count true := by
  rw [requiredBefore, requiredFrom, ← List.count_append, List.take_append_drop]

theorem requiredBefore_le (first : Nat) : spec.requiredBefore first ≤ first :=
  List.count_le_length.trans (by rw [List.length_take]; exact Nat.min_le_left _ _)

theorem requiredFrom_le (first : Nat) : spec.requiredFrom first ≤ spec.properties.length - first :=
  List.count_le_length.trans (by rw [List.length_drop, length_requiredFlags])

theorem flag_of_lt (present : first < spec.properties.length) :
    ∃ isRequired, spec.requiredFlags[first]? = some isRequired := by
  rw [← length_requiredFlags] at present
  exact ⟨_, List.getElem?_eq_getElem present⟩

theorem flag_of_optional (present : first < spec.properties.length) (optional : ¬ spec.RequiredAt first) :
    spec.requiredFlags[first]? = some false := by
  obtain ⟨isRequired, flag⟩ := flag_of_lt present
  cases isRequired with
  | true => exact absurd flag optional
  | false => exact flag

/-- The required keys are there, and without others there are no more keys than properties. -/
theorem Arranged.length {room : Nat} (whole : first + room = spec.properties.length) (arranged : spec.Arranged first keys) :
    spec.requiredFrom first ≤ keys.length ∧ (spec.additionalProperty = none → keys.length ≤ room) := by
  induction room generalizing first keys with
  | zero =>
    cases whole
    rw [requiredFrom_end]
    refine ⟨Nat.zero_le _, fun none => ?_⟩
    cases keys with
    | nil => exact Nat.le_refl _
    | cons key keys =>
      obtain ⟨additional, some, -⟩ := arranged_end.mp arranged key List.mem_cons_self
      rw [none] at some
      cases some
  | succ room ih =>
    have present : first < spec.properties.length := by omega
    obtain ⟨rest, rfl, later⟩ | ⟨optional, later⟩ := (arranged_step present).mp arranged
    · obtain ⟨isRequired, flag⟩ := flag_of_lt present
      obtain ⟨enough, within⟩ := ih (by omega) later
      rw [requiredFrom_step flag, List.length_cons]
      refine ⟨?_, fun none => Nat.succ_le_succ (within none)⟩
      split <;> omega
    · obtain ⟨enough, within⟩ := ih (by omega) later
      rw [requiredFrom_step (flag_of_optional present optional)]
      exact ⟨enough, fun none => (within none).trans (Nat.le_succ room)⟩

/-! ## What follows a property -/

def furtherText (keys : List Fragment) : List Fragment := keys.flatMap fun key => [.midSep, key]

/-- The texts of the properties from `first` on, when so many keys are before them. -/
def following (spec : ObjectSpec) (first matched : Nat) : Language Fragment :=
  {word | ∃ keys, spec.Arranged first keys ∧ spec.Counts (matched + keys.length) ∧ word = furtherText keys}

def withProperty (i : Nat) (language : Language Fragment) : Language Fragment :=
  {[.midSep]} * ({[.property i]} * language)

variable {matched : Nat} {word : List Fragment}

theorem mem_withProperty {i : Nat} {language : Language Fragment} :
    word ∈ withProperty i language ↔ ∃ rest ∈ language, word = .midSep :: .property i :: rest := by
  rw [withProperty, mem_singleton_mul]
  constructor
  · rintro ⟨_, inner, rfl⟩
    obtain ⟨rest, member, rfl⟩ := mem_singleton_mul.mp inner
    exact ⟨rest, member, rfl⟩
  · rintro ⟨rest, member, rfl⟩
    exact ⟨_, mem_singleton_mul.mpr ⟨rest, member, rfl⟩, rfl⟩

theorem following_step (present : first < spec.properties.length) :
    word ∈ spec.following first matched ↔
      (¬ spec.RequiredAt first ∧ word ∈ spec.following (first + 1) matched) ∨
        word ∈ withProperty first (spec.following (first + 1) (matched + 1)) := by
  rw [mem_withProperty]
  constructor
  · rintro ⟨keys, arranged, counts, rfl⟩
    obtain ⟨rest, rfl, later⟩ | ⟨optional, later⟩ := (arranged_step present).mp arranged
    · rw [List.length_cons, ← Nat.add_assoc, Nat.add_right_comm] at counts
      exact .inr ⟨furtherText rest, ⟨rest, later, counts, rfl⟩, rfl⟩
    · exact .inl ⟨optional, keys, later, counts, rfl⟩
  · rintro (⟨optional, keys, later, counts, rfl⟩ | ⟨_, ⟨keys, later, counts, rfl⟩, rfl⟩)
    · exact ⟨keys, (arranged_step present).mpr (.inr ⟨optional, later⟩), counts, rfl⟩
    · refine ⟨.property first :: keys, (arranged_step present).mpr (.inl ⟨keys, rfl, later⟩), ?_, rfl⟩
      rwa [List.length_cons, ← Nat.add_assoc, Nat.add_right_comm]

theorem following_required (required : spec.RequiredAt first) :
    spec.following first matched = withProperty first (spec.following (first + 1) (matched + 1)) := by
  ext word
  rw [following_step required.lt]
  exact or_iff_right fun ⟨optional, _⟩ => optional required

theorem following_optional (present : first < spec.properties.length) (optional : ¬ spec.RequiredAt first) :
    spec.following first matched = spec.following (first + 1) matched +
      withProperty first (spec.following (first + 1) (matched + 1)) := by
  ext word
  rw [following_step present, Language.mem_add, and_iff_right optional]

theorem following_eq_zero {room : Nat} (whole : first + room = spec.properties.length)
    (out : (spec.maxProperties ≠ -1 ∧ spec.maxProperties < matched + spec.requiredFrom first) ∨
      (spec.additionalProperty = none ∧ (matched : Int) + room < spec.minProperties)) :
    spec.following first matched = 0 := by
  ext word
  refine iff_of_false ?_ (Language.notMem_zero word)
  rintro ⟨keys, arranged, ⟨lower, upper⟩, -⟩
  obtain ⟨enough, within⟩ := arranged.length whole
  obtain ⟨bounded, beyond⟩ | ⟨none, few⟩ := out
  · obtain unbounded | upper := upper
    · exact bounded unbounded
    · omega
  · have := within none
    omega

/-! ## Where the keys begin -/

/-- The texts of at least one key, of the properties from `first` on. -/
def opened (spec : ObjectSpec) (first : Nat) : Language Fragment :=
  {word | ∃ key rest, spec.Arranged first (key :: rest) ∧ spec.Counts (rest.length + 1) ∧ word = key :: furtherText rest}

def openedBy (spec : ObjectSpec) (key : Fragment) (first : Nat) : Language Fragment := {[key]} * spec.following first 1

theorem mem_openedBy {key : Fragment} : word ∈ spec.openedBy key first ↔
    ∃ rest, spec.Arranged first rest ∧ spec.Counts (rest.length + 1) ∧ word = key :: furtherText rest := by
  rw [openedBy, mem_singleton_mul]
  constructor
  · rintro ⟨_, ⟨rest, arranged, counts, rfl⟩, rfl⟩
    exact ⟨rest, arranged, Nat.add_comm 1 _ ▸ counts, rfl⟩
  · rintro ⟨rest, arranged, counts, rfl⟩
    exact ⟨_, ⟨rest, arranged, Nat.add_comm _ 1 ▸ counts, rfl⟩, rfl⟩

theorem opened_step (present : first < spec.properties.length) :
    word ∈ spec.opened first ↔ (¬ spec.RequiredAt first ∧ word ∈ spec.opened (first + 1)) ∨
      word ∈ spec.openedBy (.property first) (first + 1) := by
  rw [mem_openedBy]
  constructor
  · rintro ⟨key, rest, arranged, counts, rfl⟩
    obtain ⟨rest, same, later⟩ | ⟨optional, later⟩ := (arranged_step present).mp arranged
    · cases same
      exact .inr ⟨rest, later, counts, rfl⟩
    · exact .inl ⟨optional, key, rest, later, counts, rfl⟩
  · rintro (⟨optional, key, rest, later, counts, rfl⟩ | ⟨rest, later, counts, rfl⟩)
    · exact ⟨key, rest, (arranged_step present).mpr (.inr ⟨optional, later⟩), counts, rfl⟩
    · exact ⟨_, rest, (arranged_step present).mpr (.inl ⟨rest, rfl, later⟩), counts, rfl⟩

theorem opened_required (required : spec.RequiredAt first) :
    spec.opened first = spec.openedBy (.property first) (first + 1) := by
  ext word
  rw [opened_step required.lt]
  exact or_iff_right fun ⟨optional, _⟩ => optional required

theorem opened_optional (present : first < spec.properties.length) (optional : ¬ spec.RequiredAt first) :
    spec.opened first = spec.openedBy (.property first) (first + 1) + spec.opened (first + 1) := by
  ext word
  rw [opened_step present, Language.mem_add, and_iff_right optional, or_comm]

theorem opened_end {additional : AdditionalProperty} (some : spec.additionalProperty = some additional) :
    spec.opened spec.properties.length = spec.openedBy (.other additional) spec.properties.length := by
  ext word
  rw [mem_openedBy]
  constructor
  · rintro ⟨key, rest, arranged, counts, rfl⟩
    have others := arranged_end.mp arranged
    obtain ⟨_, same, rfl⟩ := others key List.mem_cons_self
    cases some.symm.trans same
    exact ⟨rest, arranged_end.mpr fun key member => others key (List.mem_cons_of_mem _ member), counts, rfl⟩
  · rintro ⟨rest, arranged, counts, rfl⟩
    refine ⟨_, rest, arranged_end.mpr fun key member => ?_, counts, rfl⟩
    obtain rfl | member := List.mem_cons.mp member
    · exact ⟨additional, some, rfl⟩
    · exact arranged_end.mp arranged key member

theorem opened_eq_zero {room : Nat} (whole : first + room = spec.properties.length)
    (none : spec.additionalProperty = none) (few : (room : Int) < spec.minProperties ∨ room = 0) :
    spec.opened first = 0 := by
  ext word
  refine iff_of_false ?_ (Language.notMem_zero word)
  rintro ⟨key, rest, arranged, ⟨lower, -⟩, -⟩
  have within := (arranged.length whole).2 none
  rw [List.length_cons] at within
  omega

end ObjectSpec

end Metrale.Grammar
