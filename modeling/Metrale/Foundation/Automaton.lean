import Mathlib.Computability.EpsilonNFA

/-! # Walks of an automaton

What an automaton with silent steps accepts is what its walks read.  A walk is extended at either end, and a fact that
every step keeps holds wherever a walk leads. -/

namespace Metrale.Foundation

open scoped Computability

variable {α σ τ : Type*}

inductive Walk (step : σ → Option α → Set σ) : σ → List α → σ → Prop where
  | nil {state} : Walk step state [] state
  | silent {state next word last} : next ∈ step state none → Walk step next word last → Walk step state word last
  | reads {state next letter word last} : next ∈ step state (some letter) → Walk step next word last →
      Walk step state (letter :: word) last

variable {step : σ → Option α → Set σ} {other : τ → Option α → Set τ} {state next last : σ} {word before after : List α}

theorem kstar_append {language : Language α} (starred : before ∈ language∗) (accepted : after ∈ language) :
    before ++ after ∈ language∗ := by
  obtain ⟨words, rfl, among⟩ := starred
  refine ⟨words ++ [after], by simp, fun word found => ?_⟩
  rcases List.mem_append.mp found with old | new
  · exact among word old
  · exact List.mem_singleton.mp new ▸ accepted

namespace Walk

theorem single {letter : Option α} (taken : next ∈ step state letter) : Walk step state letter.toList next := by
  cases letter with
  | none => exact .silent taken .nil
  | some letter => exact .reads taken .nil

theorem append (first : Walk step state before next) (second : Walk step next after last) :
    Walk step state (before ++ after) last := by
  induction first with
  | nil => exact second
  | silent taken _ ih => exact .silent taken (ih second)
  | reads taken _ ih => exact .reads taken (ih second)

theorem concat {letter : Option α} (walk : Walk step state word next) (taken : last ∈ step next letter) :
    Walk step state (word ++ letter.toList) last :=
  walk.append (single taken)

theorem split (walk : Walk step state (before ++ after) last) :
    ∃ middle, Walk step state before middle ∧ Walk step middle after last := by
  generalize whole : before ++ after = word at walk
  induction walk generalizing before with
  | nil =>
    obtain ⟨rfl, rfl⟩ := List.append_eq_nil_iff.mp whole
    exact ⟨_, .nil, .nil⟩
  | silent taken _ ih =>
    obtain ⟨middle, first, second⟩ := ih whole
    exact ⟨middle, .silent taken first, second⟩
  | @reads state next letter word last taken rest ih =>
    cases before with
    | nil =>
      cases whole
      exact ⟨state, .nil, .reads taken rest⟩
    | cons head before =>
      cases whole
      obtain ⟨middle, first, second⟩ := ih rfl
      exact ⟨middle, .reads taken first, second⟩

theorem cons_iff {letter : α} : Walk step state (letter :: word) last ↔
    ∃ middle, Walk step state [letter] middle ∧ Walk step middle word last := by
  rw [← List.singleton_append]
  constructor
  · exact split
  · rintro ⟨middle, first, second⟩
    exact first.append second

theorem nil_iff : Walk step state [] last ↔ Relation.ReflTransGen (fun source target => target ∈ step source none) state last := by
  constructor
  · intro walk
    generalize nothing : [] = word at walk
    induction walk with
    | nil => exact .refl
    | silent taken _ ih => exact .head taken (ih nothing)
    | reads => cases nothing
  · intro reached
    induction reached using Relation.ReflTransGen.head_induction_on with
    | refl => exact .nil
    | head taken _ ih => exact .silent taken ih

/-- The last letter is read by a step, with silent ones after it. -/
theorem concat_iff {letter : α} : Walk step state (word ++ [letter]) last ↔
    ∃ source, Walk step state word source ∧ ∃ target ∈ step source (some letter), Walk step target [] last := by
  constructor
  · intro walk
    obtain ⟨middle, before, after⟩ := walk.split
    clear walk
    generalize one : [letter] = single at after
    induction after with
    | nil => cases one
    | silent taken _ ih => exact ih (by simpa using before.concat taken) one
    | reads taken rest =>
      cases one
      exact ⟨_, before, _, taken, rest⟩
  · rintro ⟨source, before, target, taken, rest⟩
    simpa using (before.concat taken).append rest

theorem singleton_iff {letter : α} : Walk step state [letter] last ↔
    ∃ source, Walk step state [] source ∧ ∃ target ∈ step source (some letter), Walk step target [] last := by
  rw [← List.nil_append [letter], concat_iff]

theorem nil_iff_of_loud (loud : ∀ source target, target ∉ step source none) : Walk step state [] last ↔ state = last := by
  rw [nil_iff]
  constructor
  · intro reached
    cases reached using Relation.ReflTransGen.head_induction_on with
    | refl => rfl
    | head taken => exact absurd taken (loud _ _)
  · rintro rfl
    exact .refl

theorem concat_iff_of_loud (loud : ∀ source target, target ∉ step source none) {letter : α} :
    Walk step state (word ++ [letter]) last ↔ ∃ source, Walk step state word source ∧ last ∈ step source (some letter) := by
  simp [concat_iff, nil_iff_of_loud loud]

/-- What every step keeps holds where the walk leads, of all that was read before. -/
theorem keeps (holds : List α → σ → Prop)
    (kept : ∀ {word state letter next}, holds word state → next ∈ step state letter → holds (word ++ letter.toList) next)
    (walk : Walk step state word last) (first : holds before state) : holds (before ++ word) last := by
  induction walk generalizing before with
  | nil => simpa using first
  | silent taken _ ih => simpa using ih (kept first taken)
  | reads taken _ ih => simpa using ih (kept first taken)

theorem invariant (holds : List α → σ → Prop)
    (kept : ∀ {word state letter next}, holds word state → next ∈ step state letter → holds (word ++ letter.toList) next)
    (walk : Walk step state word last) (first : holds [] state) : holds word last :=
  walk.keeps holds kept first

/-- Walks that come back to their state make one walk of any number of them. -/
theorem kstar {language : Language α} (loop : ∀ word ∈ language, Walk step state word state)
    (starred : word ∈ language∗) : Walk step state word state := by
  obtain ⟨words, rfl, among⟩ := starred
  induction words with
  | nil => exact .nil
  | cons head words ih =>
    rw [List.flatten_cons]
    exact (loop head (among head List.mem_cons_self)).append
      (ih fun word found => among word (List.mem_cons_of_mem _ found))

/-- A walk is followed by any automaton that follows each of its steps. -/
theorem followed (related : σ → τ → Prop)
    (follows : ∀ {state image letter next}, related state image → next ∈ step state letter →
      ∃ imageNext, related next imageNext ∧ Walk other image letter.toList imageNext)
    (walk : Walk step state word last) {image : τ} (first : related state image) :
    ∃ imageLast, related last imageLast ∧ Walk other image word imageLast := by
  induction walk generalizing image with
  | nil => exact ⟨image, first, .nil⟩
  | silent taken _ ih =>
    obtain ⟨_, middle, head⟩ := follows first taken
    obtain ⟨imageLast, last, tail⟩ := ih middle
    exact ⟨imageLast, last, head.append tail⟩
  | reads taken _ ih =>
    obtain ⟨_, middle, head⟩ := follows first taken
    obtain ⟨imageLast, last, tail⟩ := ih middle
    exact ⟨imageLast, last, head.append tail⟩

theorem map {image : σ → τ} (follows : ∀ {state letter next}, next ∈ step state letter → image next ∈ other (image state) letter)
    (walk : Walk step state word last) : Walk other (image state) word (image last) := by
  obtain ⟨_, rfl, reads⟩ := walk.followed (fun state copy => image state = copy)
    (fun same taken => ⟨_, rfl, same ▸ single (follows taken)⟩) rfl
  exact reads

theorem mono {larger : σ → Option α → Set σ} (inside : σ → Prop)
    (follows : ∀ {state letter next}, inside state → next ∈ step state letter → inside next ∧ next ∈ larger state letter)
    (walk : Walk step state word last) (first : inside state) : Walk larger state word last := by
  induction walk with
  | nil => exact .nil
  | silent taken _ ih =>
    obtain ⟨stays, kept⟩ := follows first taken
    exact .silent kept (ih stays)
  | reads taken _ ih =>
    obtain ⟨stays, kept⟩ := follows first taken
    exact .reads kept (ih stays)

/-- What no step enters is reached from itself alone, by no letter. -/
theorem eq_of_never_entered (never : ∀ state letter, last ∉ step state letter) (walk : Walk step state word last) :
    state = last ∧ word = [] := by
  induction walk with
  | nil => exact ⟨rfl, rfl⟩
  | silent taken _ ih => exact absurd ((ih never).1 ▸ taken) (never _ _)
  | reads taken _ ih => exact absurd ((ih never).1 ▸ taken) (never _ _)

/-- A part that no step leaves walks as it does alone. -/
theorem embedded_iff {image : σ → τ} (same : ∀ {state letter copy},
      copy ∈ other (image state) letter ↔ ∃ next, image next = copy ∧ next ∈ step state letter) {imageLast : τ} :
    Walk other (image state) word imageLast ↔ ∃ last, image last = imageLast ∧ Walk step state word last := by
  constructor
  · intro walk
    generalize origin : image state = copy at walk
    induction walk generalizing state with
    | nil => exact ⟨state, origin, .nil⟩
    | silent taken _ ih =>
      obtain ⟨next, there, inner⟩ := same.mp (origin ▸ taken)
      obtain ⟨last, ends, rest⟩ := ih there
      exact ⟨last, ends, .silent inner rest⟩
    | reads taken _ ih =>
      obtain ⟨next, there, inner⟩ := same.mp (origin ▸ taken)
      obtain ⟨last, ends, rest⟩ := ih there
      exact ⟨last, ends, .reads inner rest⟩
  · rintro ⟨last, rfl, walk⟩
    exact walk.map fun taken => same.mpr ⟨_, rfl, taken⟩

theorem iff_isPath (machine : εNFA α σ) :
    Walk machine.step state word last ↔ ∃ path, path.reduceOption = word ∧ machine.IsPath state last path := by
  constructor
  · intro walk
    induction walk with
    | nil => exact ⟨[], rfl, .nil _⟩
    | silent taken _ ih =>
      obtain ⟨path, rfl, leads⟩ := ih
      exact ⟨none :: path, rfl, .cons _ _ _ _ _ taken leads⟩
    | reads taken _ ih =>
      obtain ⟨path, rfl, leads⟩ := ih
      exact ⟨some _ :: path, rfl, .cons _ _ _ _ _ taken leads⟩
  · rintro ⟨path, rfl, leads⟩
    induction leads with
    | nil => exact .nil
    | cons _ _ _ letter _ taken _ ih =>
      cases letter with
      | none => exact .silent taken ih
      | some letter => exact .reads taken ih

end Walk

/-! ## Quotients -/

/-- The machine of the images: what a state can do, its image can. -/
def quotient (step : σ → Option α → Set σ) (image : σ → τ) : τ → Option α → Set τ := fun state letter =>
  {next | ∃ source target, target ∈ step source letter ∧ image source = state ∧ image target = next}

/-- States of one image are a silent step from each other. -/
def jumping (step : σ → Option α → Set σ) (image : σ → τ) : σ → Option α → Set σ := fun state letter =>
  {next | next ∈ step state letter ∨ letter = none ∧ image state = image next}

/-- Without the silent steps that stay where they are. -/
def withoutLoops (step : σ → Option α → Set σ) : σ → Option α → Set σ := fun state letter =>
  {next | next ∈ step state letter ∧ ¬ (letter = none ∧ state = next)}

theorem walk_withoutLoops_iff : Walk (withoutLoops step) state word last ↔ Walk step state word last := by
  constructor
  · intro walk
    exact walk.mono (fun _ => True) (fun _ taken => ⟨trivial, taken.1⟩) trivial
  · intro walk
    induction walk with
    | nil => exact .nil
    | @silent state next word last taken _ ih =>
      by_cases here : state = next
      · exact here ▸ ih
      · exact .silent ⟨taken, fun loop => here loop.2⟩ ih
    | reads taken _ ih => exact .reads ⟨taken, by simp⟩ ih

/-- What the quotient reads between two images is read between the states themselves, with jumps. -/
theorem walk_quotient_iff {image : σ → τ} :
    Walk (quotient step image) (image state) word (image last) ↔ Walk (jumping step image) state word last := by
  constructor
  · intro walk
    generalize origin : image state = copy at walk
    generalize goal : image last = copyLast at walk
    induction walk generalizing state with
    | nil => exact .silent (.inr ⟨rfl, origin.trans goal.symm⟩) .nil
    | silent taken _ ih =>
      obtain ⟨source, target, inner, same, there⟩ := taken
      exact .silent (.inr ⟨rfl, origin.trans same.symm⟩) (.silent (.inl inner) (ih there goal))
    | reads taken _ ih =>
      obtain ⟨source, target, inner, same, there⟩ := taken
      exact .silent (.inr ⟨rfl, origin.trans same.symm⟩) (.reads (.inl inner) (ih there goal))
  · intro walk
    induction walk with
    | nil => exact .nil
    | silent taken _ ih =>
      rcases taken with inner | ⟨_, same⟩
      · exact .silent ⟨_, _, inner, rfl, rfl⟩ ih
      · exact same ▸ ih
    | reads taken _ ih =>
      rcases taken with inner | ⟨absurd, _⟩
      · exact .reads ⟨_, _, inner, rfl, rfl⟩ ih
      · cases absurd

theorem mem_accepts_iff {machine : εNFA α σ} :
    word ∈ machine.accepts ↔ ∃ first ∈ machine.start, ∃ last ∈ machine.accept, Walk machine.step first word last := by
  rw [εNFA.mem_accepts_iff_exists_path]
  constructor
  · rintro ⟨first, last, path, starts, accepting, rfl, leads⟩
    exact ⟨first, starts, last, accepting, (Walk.iff_isPath machine).mpr ⟨path, rfl, leads⟩⟩
  · rintro ⟨first, starts, last, accepting, walk⟩
    obtain ⟨path, rfl, leads⟩ := (Walk.iff_isPath machine).mp walk
    exact ⟨first, last, path, starts, accepting, rfl, leads⟩

/-! ## Merging along silent steps -/

section Merging

open Relation

variable {alone : σ → σ → Prop} {first : σ}

/-- All that a state with a lone successor can do is the silent step to it. -/
structure LoneSteps (step : σ → Option α → Set σ) (alone : σ → σ → Prop) : Prop where
  silent : ∀ {state next}, alone state next → next ∈ step state none
  only : ∀ {state next letter other}, alone state next → other ∈ step state letter → letter = none ∧ other = next

/-- Into the states that meet `next` along lone steps, only such steps lead, and the silent one from `state`. -/
structure OnlyWay (step : σ → Option α → Set σ) (alone : σ → σ → Prop) (first state next : σ) : Prop where
  silent : next ∈ step state none
  outside : ¬ Join (ReflTransGen alone) first next
  entered : ∀ {source letter target}, target ∈ step source letter → Join (ReflTransGen alone) target next →
    alone source target ∨ letter = none ∧ source = state

/-- The word leads to where `state` goes on to by itself. -/
def Awaited (step : σ → Option α → Set σ) (alone : σ → σ → Prop) (first : σ) (word : List α) (state : σ) : Prop :=
  ∃ meet, ReflTransGen alone state meet ∧ Walk step first word meet

namespace Awaited

variable (steps : LoneSteps step alone)
include steps

theorem advance {letter : Option α} (awaited : Awaited step alone first word state) (taken : next ∈ step state letter) :
    Awaited step alone first (word ++ letter.toList) next := by
  obtain ⟨meet, goes, walk⟩ := awaited
  cases goes using ReflTransGen.head_induction_on with
  | refl => exact ⟨next, .refl, walk.concat taken⟩
  | head lone rest =>
    obtain ⟨rfl, rfl⟩ := steps.only lone taken
    exact ⟨meet, rest, by simpa using walk⟩

theorem walk_of_onlyWay (way : OnlyWay step alone first state next) (walk : Walk step first word last)
    (met : Join (ReflTransGen alone) last next) : Walk step first word state := by
  have holds : Walk step first word last ∧ (Join (ReflTransGen alone) last next → Walk step first word state) := by
    refine walk.invariant (fun word last => Walk step first word last ∧
      (Join (ReflTransGen alone) last next → Walk step first word state)) ?_ ⟨.nil, fun met => absurd met way.outside⟩
    rintro word source letter target ⟨walk, before⟩ taken
    refine ⟨walk.concat taken, fun met => ?_⟩
    rcases way.entered taken met with lone | ⟨rfl, rfl⟩
    · obtain ⟨rfl, -⟩ := steps.only lone taken
      obtain ⟨meet, goes, comes⟩ := met
      simpa using before ⟨meet, .head lone goes, comes⟩
    · simpa using walk
  exact holds.2 met

theorem joined_iff (joined : alone state next ∨ OnlyWay step alone first state next) :
    Awaited step alone first word state ↔ Awaited step alone first word next := by
  rcases joined with lone | way
  · constructor
    · intro awaited
      simpa using awaited.advance steps (steps.silent lone)
    · rintro ⟨meet, goes, walk⟩
      exact ⟨meet, .head lone goes, walk⟩
  · constructor
    · intro awaited
      simpa using awaited.advance steps way.silent
    · rintro ⟨meet, goes, walk⟩
      exact ⟨state, .refl, walk_of_onlyWay steps way walk ⟨meet, .refl, goes⟩⟩

theorem eqvGen_iff (joined : EqvGen (fun state next => alone state next ∨ OnlyWay step alone first state next) state next) :
    Awaited step alone first word state ↔ Awaited step alone first word next := by
  induction joined with
  | rel _ _ joined => exact joined_iff steps joined
  | refl => rfl
  | symm _ _ _ ih => exact ih.symm
  | trans _ _ _ _ _ ih ih' => exact ih.trans ih'

end Awaited

/-- A merging of states along lone silent steps and only ways reads what the states await. -/
theorem walk_jumping_iff_awaited {image : σ → τ} (inside : σ → Prop) (steps : LoneSteps step alone)
    (stays : ∀ {state letter next}, next ∈ step state letter → inside state ∧ inside next)
    (kept : ∀ {state next}, alone state next → image state = image next)
    (joined : ∀ {state next}, inside state → inside next → image state = image next →
      EqvGen (fun state next => alone state next ∨ OnlyWay step alone first state next) state next)
    (begins : inside first) (ends : inside last) :
    Walk (jumping step image) first word last ↔ Awaited step alone first word last := by
  constructor
  · intro walk
    have holds : ∀ other, inside other → image other = image last → Awaited step alone first word other := by
      refine walk.invariant (fun word state => ∀ other, inside other → image other = image state →
        Awaited step alone first word other) ?_ ?_
      · intro word state letter next before taken other there same
        rcases taken with inner | ⟨rfl, merged⟩
        · obtain ⟨here, reached⟩ := stays inner
          have awaited := (before state here rfl).advance steps inner
          exact (Awaited.eqvGen_iff steps (joined there reached same)).mpr awaited
        · simpa using before other there (same.trans merged.symm)
      · intro other there same
        exact (Awaited.eqvGen_iff steps (joined there begins same)).mpr ⟨first, .refl, .nil⟩
    exact holds last ends rfl
  · rintro ⟨meet, goes, walk⟩
    have same : image last = image meet := by
      clear walk ends
      induction goes with
      | refl => rfl
      | tail _ lone ih => exact ih.trans (kept lone)
    have inner : Walk (jumping step image) first word meet :=
      walk.mono (fun _ => True) (fun _ taken => ⟨trivial, .inl taken⟩) trivial
    simpa using inner.concat (.inr ⟨rfl, same.symm⟩ : last ∈ jumping step image meet none)

end Merging

end Metrale.Foundation
