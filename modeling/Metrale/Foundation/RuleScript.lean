import Mathlib.Computability.Language

/-! # Scripts of rules

A script is a list of rule bodies, each of which may refer to rules of the script by their place in it.  The words of
a body are those that it derives.  A script that is written rule by rule only grows, and what a body means in it is
what it means in every longer one: `Means` and its rules give the words of a body from those of its parts. -/

namespace Metrale.Foundation

universe u

/-- `upper` is `none` for a repetition without a bound. -/
inductive RuleBody (Atom : Type u) where
  | empty
  | atom (symbol : Atom)
  | ref (rule : Nat)
  | seq (first second : RuleBody Atom)
  | alt (first second : RuleBody Atom)
  | repeated (body : RuleBody Atom) (lower : Nat) (upper : Option Nat)
deriving DecidableEq

variable {Atom : Type u}

abbrev RuleScript (Atom : Type u) := List (RuleBody Atom)

/-- The choice of some bodies; of none, the empty string. -/
def RuleBody.choice : List (RuleBody Atom) → RuleBody Atom
  | [] => .empty
  | [body] => body
  | body :: rest => .alt body (choice rest)

/-- The bodies one after another. -/
def RuleBody.sequence : List (RuleBody Atom) → RuleBody Atom
  | [] => .empty
  | [body] => body
  | body :: rest => .seq body (sequence rest)

namespace RuleScript

/-- What is derived: a body, or so many times a body. -/
inductive Goal (Atom : Type u) where
  | body (body : RuleBody Atom)
  | times (body : RuleBody Atom) (count : Nat)

inductive Derives (script : RuleScript Atom) : Goal Atom → List Atom → Prop where
  | empty : Derives script (.body .empty) []
  | atom {symbol : Atom} : Derives script (.body (.atom symbol)) [symbol]
  | ref {rule : Nat} {body : RuleBody Atom} {word : List Atom} : script[rule]? = some body →
      Derives script (.body body) word → Derives script (.body (.ref rule)) word
  | seq {first second : RuleBody Atom} {word rest : List Atom} : Derives script (.body first) word →
      Derives script (.body second) rest → Derives script (.body (.seq first second)) (word ++ rest)
  | left {first second : RuleBody Atom} {word : List Atom} : Derives script (.body first) word →
      Derives script (.body (.alt first second)) word
  | right {first second : RuleBody Atom} {word : List Atom} : Derives script (.body second) word →
      Derives script (.body (.alt first second)) word
  | repeated {body : RuleBody Atom} {lower count : Nat} {upper : Option Nat} {word : List Atom} : lower ≤ count →
      (∀ bound ∈ upper, count ≤ bound) → Derives script (.times body count) word →
      Derives script (.body (.repeated body lower upper)) word
  | none {body : RuleBody Atom} : Derives script (.times body 0) []
  | more {body : RuleBody Atom} {count : Nat} {word rest : List Atom} : Derives script (.body body) word →
      Derives script (.times body count) rest → Derives script (.times body (count + 1)) (word ++ rest)

/-- The words of a body. -/
def words (script : RuleScript Atom) (body : RuleBody Atom) : Language Atom := {word | Derives script (.body body) word}

variable {script more : RuleScript Atom} {body first second : RuleBody Atom} {word : List Atom}
  {language other : Language Atom} {lower count : Nat} {upper : Option Nat}

theorem mem_singleton_mul {symbol : Atom} : word ∈ ({[symbol]} : Language Atom) * language ↔
    ∃ rest ∈ language, word = symbol :: rest := by
  rw [Language.mem_mul]
  constructor
  · rintro ⟨_, rfl, rest, member, rfl⟩
    exact ⟨rest, member, rfl⟩
  · rintro ⟨rest, member, rfl⟩
    exact ⟨[symbol], rfl, rest, member, rfl⟩

theorem mem_singleton_pow {piece : List Atom} :
    word ∈ ({piece} : Language Atom) ^ count ↔ word = (List.replicate count piece).flatten := by
  rw [Language.mem_pow]
  constructor
  · rintro ⟨pieces, rfl, size, same⟩
    rw [List.eq_replicate_iff.mpr ⟨size, same⟩]
  · rintro rfl
    exact ⟨_, rfl, List.length_replicate, fun piece member => List.eq_of_mem_replicate member⟩

theorem words_empty : words script .empty = 1 := by
  ext word
  constructor
  · intro derives
    cases derives
    exact Language.nil_mem_one
  · intro member
    cases (Language.mem_one word).mp member
    exact .empty

theorem words_atom (symbol : Atom) : words script (.atom symbol) = {[symbol]} := by
  ext word
  constructor
  · intro derives
    cases derives
    rfl
  · intro member
    cases Set.mem_singleton_iff.mp member
    exact .atom

theorem words_seq : words script (.seq first second) = words script first * words script second := by
  ext word
  rw [Language.mem_mul]
  constructor
  · intro derives
    cases derives with
    | seq left right => exact ⟨_, left, _, right, rfl⟩
  · rintro ⟨left, leftDerives, right, rightDerives, rfl⟩
    exact .seq leftDerives rightDerives

theorem words_alt : words script (.alt first second) = words script first + words script second := by
  ext word
  rw [Language.mem_add]
  constructor
  · intro derives
    cases derives with
    | left derives => exact .inl derives
    | right derives => exact .inr derives
  · rintro (derives | derives)
    · exact .left derives
    · exact .right derives

theorem words_ref {rule : Nat} (present : script[rule]? = some body) : words script (.ref rule) = words script body := by
  ext word
  constructor
  · intro derives
    cases derives with
    | ref found derives =>
      cases found.symm.trans present
      exact derives
  · exact fun derives => .ref present derives

theorem times_iff : Derives script (.times body count) word ↔ word ∈ words script body ^ count := by
  induction count generalizing word with
  | zero =>
    rw [pow_zero, Language.mem_one]
    constructor
    · intro derives
      cases derives
      rfl
    · rintro rfl
      exact .none
  | succ count ih =>
    rw [pow_succ', Language.mem_mul]
    constructor
    · intro derives
      cases derives with
      | more once rest => exact ⟨_, once, _, ih.mp rest, rfl⟩
    · rintro ⟨once, onceDerives, rest, restDerives, rfl⟩
      exact .more onceDerives (ih.mpr restDerives)

/-- The words of so many repetitions as the bounds allow. -/
def repetitions (language : Language Atom) (lower : Nat) (upper : Option Nat) : Language Atom :=
  {word | ∃ count, lower ≤ count ∧ (∀ bound ∈ upper, count ≤ bound) ∧ word ∈ language ^ count}

theorem words_repeated : words script (.repeated body lower upper) = repetitions (words script body) lower upper := by
  ext word
  constructor
  · intro derives
    cases derives with
    | repeated enough within derives => exact ⟨_, enough, within, times_iff.mp derives⟩
  · rintro ⟨count, enough, within, derives⟩
    exact .repeated enough within (times_iff.mpr derives)

/-! ## What a body means -/

/-- The words of the body, whatever rules are still to come. -/
def Means (script : RuleScript Atom) (body : RuleBody Atom) (language : Language Atom) : Prop :=
  ∀ more, words (script ++ more) body = language

namespace Means

theorem words (means : Means script body language) : words script body = language := by
  have now := means []
  rwa [List.append_nil] at now

theorem extend (means : Means script body language) (more : RuleScript Atom) : Means (script ++ more) body language := by
  intro later
  rw [List.append_assoc]
  exact means (more ++ later)

theorem empty : Means script .empty 1 := fun _ => words_empty

theorem atom (symbol : Atom) : Means script (.atom symbol) {[symbol]} := fun _ => words_atom symbol

theorem seq (left : Means script first language) (right : Means script second other) :
    Means script (.seq first second) (language * other) := by
  intro more
  rw [words_seq, left more, right more]

theorem alt (left : Means script first language) (right : Means script second other) :
    Means script (.alt first second) (language + other) := by
  intro more
  rw [words_alt, left more, right more]

theorem repeated (means : Means script body language) :
    Means script (.repeated body lower upper) (repetitions language lower upper) := by
  intro more
  rw [words_repeated, means more]

/-- A rule means what its body meant before it was there. -/
theorem rule (means : Means script body language) : Means (script ++ [body]) (.ref script.length) language := by
  intro more
  have present : (script ++ [body] ++ more)[script.length]? = some body := by
    rw [List.append_assoc, List.getElem?_append_right (Nat.le_refl _), Nat.sub_self]
    rfl
  rw [words_ref present, List.append_assoc]
  exact means ([body] ++ more)

/-- The words of a choice are those of its bodies. -/
theorem choice {bodies : List (RuleBody Atom)} {languages : List (Language Atom)}
    (means : List.Forall₂ (Means script) bodies languages) (some : languages ≠ []) :
    Means script (.choice bodies) languages.sum := by
  induction means with
  | nil => exact absurd rfl some
  | @cons body language bodies languages once rest ih =>
    rw [List.sum_cons]
    cases rest with
    | nil =>
      rw [List.sum_nil, add_zero]
      exact once
    | cons next rest => exact once.alt (ih (List.cons_ne_nil _ _))

end Means

/-! ## Bodies added as rules -/

/-- Adds the bodies one after another.  Answers the references to them. -/
def addRules (script : RuleScript Atom) : List (RuleBody Atom) → RuleScript Atom × List (RuleBody Atom)
  | [] => (script, [])
  | body :: rest =>
    let (last, names) := addRules (script ++ [body]) rest
    (last, .ref script.length :: names)

theorem addRules_extends (script : RuleScript Atom) (bodies : List (RuleBody Atom)) :
    (addRules script bodies).1 = script ++ bodies := by
  induction bodies generalizing script with
  | nil => exact (List.append_nil script).symm
  | cons body rest ih =>
    rw [addRules, ih, List.append_assoc]
    rfl

section related

variable {Datum : Type*} {bodies : List (RuleBody Atom)} {data : List Datum}
  {related : RuleScript Atom → RuleBody Atom → Datum → Prop}

/-- What holds of the bodies holds of the references to them. -/
theorem addRules_related
    (extend : ∀ script body datum, related script body datum → ∀ more, related (script ++ more) body datum)
    (rule : ∀ script body datum, related script body datum → related (script ++ [body]) (.ref script.length) datum)
    (all : List.Forall₂ (related script) bodies data) :
    List.Forall₂ (related (script ++ bodies)) (addRules script bodies).2 data := by
  induction bodies generalizing script data with
  | nil =>
    cases all
    exact .nil
  | cons body rest ih =>
    have whole : script ++ body :: rest = script ++ [body] ++ rest := List.append_cons script body rest
    cases all with
    | cons once others =>
      rw [whole]
      refine .cons (extend _ _ _ (rule _ _ _ once) rest) (ih ?_)
      exact others.imp fun _ _ holds => extend _ _ _ holds [body]

end related

theorem addRules_means {bodies : List (RuleBody Atom)} {languages : List (Language Atom)}
    (means : List.Forall₂ (Means script) bodies languages) :
    List.Forall₂ (Means (script ++ bodies)) (addRules script bodies).2 languages :=
  addRules_related (fun _ _ _ means => means.extend) (fun _ _ _ means => means.rule) means

/-! ## Bodies written one by one -/

section written

variable {Datum Written : Type*} {write : Datum → Option Written} {data : List Datum}

theorem mapM_forall₂ {written : List Written} (done : data.mapM write = some written) :
    List.Forall₂ (fun datum result => write datum = some result) data written := by
  induction data generalizing written with
  | nil =>
    cases done
    exact .nil
  | cons datum rest ih =>
    rw [List.mapM_cons] at done
    obtain ⟨result, once, done⟩ := Option.bind_eq_some_iff.mp done
    obtain ⟨results, later, done⟩ := Option.bind_eq_some_iff.mp done
    cases done
    exact .cons once (ih later)

theorem exists_mapM {related : Datum → Written → Prop}
    (each : ∀ datum ∈ data, ∃ result, write datum = some result ∧ related datum result) :
    ∃ written, data.mapM write = some written ∧ List.Forall₂ related data written := by
  induction data with
  | nil => exact ⟨[], rfl, .nil⟩
  | cons datum rest ih =>
    obtain ⟨result, once, holds⟩ := each datum List.mem_cons_self
    obtain ⟨results, later, others⟩ := ih fun datum member => each datum (List.mem_cons_of_mem _ member)
    refine ⟨result :: results, ?_, .cons holds others⟩
    rw [List.mapM_cons, once, later]
    rfl

end written

/-! ## Counts of repetitions -/

/-- So many words of the language one after another as one of the counts says. -/
def countedWords (language : Language Atom) (counts : Set Nat) : Language Atom :=
  {word | ∃ count ∈ counts, word ∈ language ^ count}

theorem repetitions_eq_counted :
    repetitions language lower upper = countedWords language {count | lower ≤ count ∧ ∀ bound ∈ upper, count ≤ bound} := by
  ext word
  constructor
  · rintro ⟨count, enough, within, member⟩
    exact ⟨count, ⟨enough, within⟩, member⟩
  · rintro ⟨count, ⟨enough, within⟩, member⟩
    exact ⟨count, enough, within, member⟩

theorem pow_eq_counted : language ^ count = countedWords language {count} := by
  ext word
  constructor
  · exact fun member => ⟨count, rfl, member⟩
  · rintro ⟨_, rfl, member⟩
    exact member

/-- The counts of both one after the other. -/
def sums (left right : Set Nat) : Set Nat := {count | ∃ first ∈ left, ∃ second ∈ right, first + second = count}

theorem counted_mul (left right : Set Nat) :
    countedWords language left * countedWords language right = countedWords language (sums left right) := by
  ext word
  rw [Language.mem_mul]
  constructor
  · rintro ⟨front, ⟨first, isFirst, frontMember⟩, back, ⟨second, isSecond, backMember⟩, rfl⟩
    refine ⟨first + second, ⟨first, isFirst, second, isSecond, rfl⟩, ?_⟩
    rw [pow_add]
    exact Language.append_mem_mul frontMember backMember
  · rintro ⟨_, ⟨first, isFirst, second, isSecond, rfl⟩, member⟩
    rw [pow_add, Language.mem_mul] at member
    obtain ⟨front, frontMember, back, backMember, rfl⟩ := member
    exact ⟨front, ⟨first, isFirst, frontMember⟩, back, ⟨second, isSecond, backMember⟩, rfl⟩

theorem counted_add (left right : Set Nat) :
    countedWords language left + countedWords language right = countedWords language (left ∪ right) := by
  ext word
  rw [Language.mem_add]
  constructor
  · rintro (⟨count, isCount, member⟩ | ⟨count, isCount, member⟩)
    · exact ⟨count, .inl isCount, member⟩
    · exact ⟨count, .inr isCount, member⟩
  · rintro ⟨count, isCount | isCount, member⟩
    · exact .inl ⟨count, isCount, member⟩
    · exact .inr ⟨count, isCount, member⟩

theorem counted_zero : countedWords language {0} = 1 := by
  rw [← pow_eq_counted, pow_zero]

theorem counted_one : countedWords language {1} = language := by
  rw [← pow_eq_counted, pow_one]

/-- Nothing, or once more. -/
theorem one_add_mul_counted (counts : Set Nat) : 1 + language * countedWords language counts =
    countedWords language {count | count = 0 ∨ ∃ less ∈ counts, count = less + 1} :=
  calc 1 + language * countedWords language counts
      = countedWords language {0} + countedWords language {1} * countedWords language counts := by rw [counted_zero, counted_one]
    _ = countedWords language ({0} ∪ sums {1} counts) := by rw [counted_mul, counted_add]
    _ = countedWords language {count | count = 0 ∨ ∃ less ∈ counts, count = less + 1} := by
      congr 1
      ext count
      simp [sums, eq_comm, Nat.add_comm]

/-- Of a single symbol, the word tells the count. -/
theorem counted_singleton {symbol : Atom} {left right : Set Nat}
    (same : countedWords {[symbol]} left = countedWords {[symbol]} right) : left = right := by
  have flat (count : Nat) : (List.replicate count [symbol]).flatten = List.replicate count symbol := by
    rw [List.flatten_replicate_singleton]
  have mem_counted (counts : Set Nat) (count : Nat) : List.replicate count symbol ∈ countedWords {[symbol]} counts ↔ count ∈ counts := by
    constructor
    · rintro ⟨other, isOther, member⟩
      have lengths := congrArg List.length (mem_singleton_pow.mp member)
      rw [flat, List.length_replicate, List.length_replicate] at lengths
      exact lengths ▸ isOther
    · exact fun isCount => ⟨count, isCount, mem_singleton_pow.mpr (flat count).symm⟩
  ext count
  rw [← mem_counted left, same, mem_counted right]

theorem words_sequence {bodies : List (RuleBody Atom)} :
    words script (.sequence bodies) = (bodies.map (words script)).prod := by
  induction bodies with
  | nil => exact words_empty
  | cons body rest ih =>
    rw [List.map_cons, List.prod_cons, ← ih]
    cases rest with
    | nil => rw [RuleBody.sequence, RuleBody.sequence, words_empty, mul_one]
    | cons next rest => exact words_seq

/-- A rule that is the empty string, or a body and the rule again. -/
theorem words_recursive {rule : Nat} (present : script[rule]? = some (.alt .empty (.seq body (.ref rule)))) :
    words script (.ref rule) = countedWords (words script body) Set.univ := by
  have unfolded : words script (.ref rule) = 1 + words script body * words script (.ref rule) := by
    conv_lhs => rw [words_ref present, words_alt, words_empty, words_seq]
  have bounded {goal : Goal Atom} {word : List Atom} (derives : Derives script goal word)
      (within : goal = .body (.ref rule) ∨ goal = .body (.alt .empty (.seq body (.ref rule))) ∨
        goal = .body (.seq body (.ref rule))) : word ∈ countedWords (words script body) Set.univ := by
    induction derives with
    | ref found _ ih =>
      obtain same | same | same := within <;> cases same
      cases found.symm.trans present
      exact ih (.inr (.inl rfl))
    | seq once _ _ ih =>
      obtain same | same | same := within <;> cases same
      obtain ⟨count, -, member⟩ := ih (.inl rfl)
      refine ⟨count + 1, trivial, ?_⟩
      rw [pow_succ']
      exact Language.append_mem_mul once member
    | left nothing =>
      obtain same | same | same := within <;> cases same
      cases nothing
      exact ⟨0, trivial, rfl⟩
    | right _ ih =>
      obtain same | same | same := within <;> cases same
      exact ih (.inr (.inr rfl))
    | _ => obtain same | same | same := within <;> cases same
  ext word
  constructor
  · exact fun derives => bounded derives (.inl rfl)
  · rintro ⟨count, -, member⟩
    induction count generalizing word with
    | zero =>
      rw [unfolded, Language.mem_add]
      exact .inl member
    | succ count ih =>
      rw [pow_succ', Language.mem_mul] at member
      obtain ⟨front, frontMember, back, backMember, rfl⟩ := member
      rw [unfolded, Language.mem_add]
      exact .inr (Language.append_mem_mul frontMember (ih back backMember))

end RuleScript

end Metrale.Foundation
