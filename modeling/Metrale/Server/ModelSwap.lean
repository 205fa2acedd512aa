import Metrale.Foundation.Runs

/-! # Swapping the served model (`main_modules/model_swap.rs`, `main_modules/model_host.rs`)

A swap holds the swap guard, so swaps do not interleave.  What the other parts answer is an input of the swap: the
flag validation, the kernel preflight, the references that outlive the drain, the join and the two loads.  The
host's other cells (runtime, listener address, API keys, dashboard channel) decide nothing here. -/

namespace Metrale.Server

open Metrale.Foundation

inductive WeightQuantization where
  | declared
  | nvfp4
  deriving DecidableEq

inductive W4a4Downcast where
  | off
  | narrow
  | wide
  deriving DecidableEq

def W4a4Downcast.fromFlags : Bool → Bool → W4a4Downcast
  | false, _ => .off
  | true, false => .narrow
  | true, true => .wide

structure WeightQuantTier where
  tier : WeightQuantization
  downcast : W4a4Downcast
  deriving DecidableEq

def WeightQuantTier.new (tier : WeightQuantization) (downcast : W4a4Downcast) : Except String WeightQuantTier :=
  if tier = .declared ∧ downcast ≠ .off then
    .error ("--w4a4-downcast applies only with --weight-quantization nvfp4; under `declared` each layer's " ++
      "activations follow the checkpoint's quantization_config")
  else .ok { tier, downcast }

/-- The argv: the flags that a swap reads or rewrites, and the `Rest`. -/
structure ServeArgs (Activation Rest : Type) where
  autoSwap : Bool
  bind : String
  port : UInt16
  dump : Option String
  weightQuantization : WeightQuantization
  w4a4Downcast : Bool
  w4a4DowncastWide : Bool
  activationQuantization : Activation
  worldSize : Nat
  rank : Nat
  rest : Rest
  deriving DecidableEq

structure Published (Activation : Type) where
  weightQuantization : WeightQuantTier
  activationQuantization : Activation

structure AppState (Activation Rest Carried : Type) where
  args : ServeArgs Activation Rest
  load : Nat
  carried : Carried

structure SchedulerHandle where
  load : Nat
  deriving DecidableEq

structure Prepared (Activation Rest Carried : Type) where
  state : AppState Activation Rest Carried
  scheduler : SchedulerHandle

structure ModelHost (Activation Rest Carried : Type) where
  current : Option (AppState Activation Rest Carried)
  scheduler : Option SchedulerHandle
  args : Option (ServeArgs Activation Rest)
  process : Option Carried

/-- What the parts that a swap calls answer.  A load answers which load it is; `ok none` is an EP worker. -/
structure SwapAnswers (Carried : Type) where
  validate : Except String Unit
  shuttingDown : Bool
  preflight : Except String Unit
  holders : Nat
  fromEnv : Except String Carried
  panicked : Bool
  load : Except String (Option Nat)
  reload : Except String (Option Nat)

variable {Activation Rest Carried : Type} [DecidableEq Activation] [DecidableEq Rest]

namespace ServeArgs

def weightQuantTier (args : ServeArgs Activation Rest) : Except String WeightQuantTier :=
  WeightQuantTier.new args.weightQuantization (.fromFlags args.w4a4Downcast args.w4a4DowncastWide)

def carryProcessFlags (next previous : ServeArgs Activation Rest) : ServeArgs Activation Rest :=
  { next with autoSwap := previous.autoSwap, bind := previous.bind, port := previous.port, dump := previous.dump }

def pinPublishedWeightQuantization (published : WeightQuantTier) (next : ServeArgs Activation Rest) :
    ServeArgs Activation Rest :=
  if next.weightQuantTier.toOption = some published then next
  else
    { next with
      weightQuantization := published.tier
      w4a4Downcast := published.downcast ≠ .off
      w4a4DowncastWide := published.downcast = .wide }

def pinPublishedActivationQuantization (published : Activation) (next : ServeArgs Activation Rest) :
    ServeArgs Activation Rest :=
  if next.activationQuantization = published then next else { next with activationQuantization := published }

/-- The argv that a swap loads for `next`. -/
def requested (published : Published Activation) (previous : Option (ServeArgs Activation Rest))
    (next : ServeArgs Activation Rest) : ServeArgs Activation Rest :=
  ((previous.elim next next.carryProcessFlags).pinPublishedWeightQuantization
    published.weightQuantization).pinPublishedActivationQuantization published.activationQuantization

end ServeArgs

/-- A load builds its state and its scheduler from the argv and the carried state. -/
def loadModel (args : ServeArgs Activation Rest) (carried : Carried) (answer : Except String (Option Nat)) :
    Except String (Option (Prepared Activation Rest Carried)) :=
  answer.map fun loaded => loaded.map fun load => { state := { args, load, carried }, scheduler := { load } }

/-- An error with its context, as `{:#}` prints it. -/
def withContext (context error : String) : String := context ++ ": " ++ error

namespace ModelHost

/-- The model is taken out of the host; it goes back while a request holds it. -/
def releaseState (host : ModelHost Activation Rest Carried) (answers : SwapAnswers Carried) :
    Except String Carried × ModelHost Activation Rest Carried :=
  match host.current with
  | none =>
    match host.process with
    | some carried => (.ok carried, host)
    | none => (answers.fromEnv, host)
  | some state =>
    let taken := { host with current := none }
    if answers.holders > 0 then
      let holders := answers.holders
      (.error (s!"cannot swap: {holders} reference(s) to the running model outlived the 30s drain window, so it " ++
        "can never be released. The model is still serving. This is a leaked `Arc<AppState>` — most likely one " ++
        "bound into a router layer or a spawned task rather than resolved per request."),
        { taken with current := some state })
    else (.ok state.carried, taken)

def install (host : ModelHost Activation Rest Carried) (prepared : Prepared Activation Rest Carried)
    (args : ServeArgs Activation Rest) : ModelHost Activation Rest Carried :=
  { host with scheduler := some prepared.scheduler, args := some args, current := some prepared.state }

def refusal (next : ServeArgs Activation Rest) (answers : SwapAnswers Carried) : Except String Unit := do
  answers.validate
  if answers.shuttingDown then
    throw "shutdown is in progress — not starting a model load"
  if ¬ (next.worldSize ≤ 1 ∧ next.rank = 0) then
    let worldSize := next.worldSize
    let rank := next.rank
    throw s!"hot-swap is single-node only (world_size={worldSize}, rank={rank})"
  answers.preflight

def restore (host : ModelHost Activation Rest Carried) (previous : Option (ServeArgs Activation Rest))
    (carried : Carried) (answers : SwapAnswers Carried) (loadError : String) :
    Except String (Option (ServeArgs Activation Rest)) × ModelHost Activation Rest Carried :=
  match previous with
  | none =>
    (.error (withContext "the new model failed to load and there was no previous model to restore" loadError), host)
  | some previous =>
    match loadModel previous carried answers.reload with
    | .ok (some prepared) =>
      (.error (withContext "the new model failed to load; the previous one was restored" loadError),
        host.install prepared previous)
    | .ok none => (.error (withContext "restore reached an EP-worker path" loadError), host)
    | .error restoreError =>
      (.error (withContext (s!"the new model failed to load AND the previous one could not be restored " ++
        s!"({restoreError}) — no model is loaded") loadError), host)

def loadOrRestore (host : ModelHost Activation Rest Carried) (next : ServeArgs Activation Rest)
    (previous : Option (ServeArgs Activation Rest)) (carried : Carried) (answers : SwapAnswers Carried) :
    Except String (Option (ServeArgs Activation Rest)) × ModelHost Activation Rest Carried :=
  match loadModel next carried answers.load with
  | .ok (some prepared) => (.ok previous, host.install prepared next)
  | .ok none => host.restore previous carried answers "hot-swap reached an EP-worker path on rank 0"
  | .error e => host.restore previous carried answers e

def swap (published : Published Activation) (host : ModelHost Activation Rest Carried)
    (next : ServeArgs Activation Rest) (answers : SwapAnswers Carried) :
    Except String (Option (ServeArgs Activation Rest)) × ModelHost Activation Rest Carried :=
  let previous := host.args
  let next := next.requested published previous
  if previous = some next ∧ host.current.isSome then (.ok previous, host)
  else
    match refusal next answers with
    | .error e => (.error e, host)
    | .ok () =>
      match host.releaseState answers with
      | (.error e, host) => (.error e, host)
      | (.ok carried, host) =>
        let joined := { host with scheduler := none }
        if host.scheduler.isSome ∧ answers.panicked then (.error "the scheduler thread panicked while draining", joined)
        else joined.loadOrRestore next previous carried answers

/-! ## What a swap comes to -/

variable {published : Published Activation} {host after : ModelHost Activation Rest Carried}
  {args next : ServeArgs Activation Rest} {answers : SwapAnswers Carried}
  {reply : Except String (Option (ServeArgs Activation Rest))}

def Serves (host : ModelHost Activation Rest Carried) (args : ServeArgs Activation Rest) : Prop :=
  ∃ state, host.current = some state ∧ state.args = args ∧ host.args = some args ∧ host.scheduler = some ⟨state.load⟩

structure Unloaded (host : ModelHost Activation Rest Carried) : Prop where
  current : host.current = none
  scheduler : host.scheduler = none
  args : host.args.isSome

structure LoadsFail (answers : SwapAnswers Carried) : Prop where
  joined : answers.panicked = false
  load : ∀ load, answers.load ≠ .ok (some load)
  reload : ∀ load, answers.reload ≠ .ok (some load)

theorem serves_install {prepared : Prepared Activation Rest Carried} (state : prepared.state.args = args)
    (scheduler : prepared.scheduler = ⟨prepared.state.load⟩) : (host.install prepared args).Serves args :=
  ⟨prepared.state, rfl, state, rfl, congrArg some scheduler⟩

theorem restore_cases {previous : ServeArgs Activation Rest} {carried : Carried} {loadError : String}
    (restored : host.restore (some previous) carried answers loadError = (reply, after)) :
    (∃ e, reply = .error e) ∧
      (after.Serves previous ∨ after = host ∧ ∀ load, answers.reload ≠ .ok (some load)) := by
  unfold restore at restored
  cases reload : answers.reload with
  | error e =>
    rw [reload] at restored
    cases restored
    exact ⟨⟨_, rfl⟩, .inr ⟨rfl, fun load same => (by cases same)⟩⟩
  | ok given =>
    rw [reload] at restored
    cases given with
    | none =>
      cases restored
      exact ⟨⟨_, rfl⟩, .inr ⟨rfl, fun load same => (by cases same)⟩⟩
    | some load =>
      cases restored
      exact ⟨⟨_, rfl⟩, .inl (serves_install rfl rfl)⟩

/-- The loads end with the new model, with the previous one, or, only if both failed, with none. -/
theorem loadOrRestore_cases {previous : ServeArgs Activation Rest} {carried : Carried}
    (loaded : host.loadOrRestore next (some previous) carried answers = (reply, after)) :
    (reply = .ok (some previous) ∧ after.Serves next) ∨
    (∃ e, reply = .error e) ∧ (after.Serves previous ∨ after = host ∧
      (∀ load, answers.load ≠ .ok (some load)) ∧ ∀ load, answers.reload ≠ .ok (some load)) := by
  unfold loadOrRestore at loaded
  cases answered : answers.load with
  | error e =>
    rw [answered] at loaded
    obtain ⟨failed, restored | ⟨same, reload⟩⟩ := restore_cases loaded
    · exact .inr ⟨failed, .inl restored⟩
    · exact .inr ⟨failed, .inr ⟨same, fun load given => (by cases given), reload⟩⟩
  | ok given =>
    rw [answered] at loaded
    cases given with
    | none =>
      obtain ⟨failed, restored | ⟨same, reload⟩⟩ := restore_cases loaded
      · exact .inr ⟨failed, .inl restored⟩
      · exact .inr ⟨failed, .inr ⟨same, fun load given => (by cases given), reload⟩⟩
    | some load =>
      cases loaded
      exact .inl ⟨rfl, serves_install rfl rfl⟩

/-- Nothing refuses the swap before the old scheduler is joined, and there is one. -/
structure ReachesJoin (published : Published Activation) (host : ModelHost Activation Rest Carried)
    (next : ServeArgs Activation Rest) (answers : SwapAnswers Carried) : Prop where
  other : ¬ (host.args = some (next.requested published host.args) ∧ host.current.isSome)
  allowed : refusal (next.requested published host.args) answers = .ok ()
  released : ∃ carried, (host.releaseState answers).1 = .ok carried
  running : host.scheduler.isSome

inductive SwapCase (published : Published Activation) (host : ModelHost Activation Rest Carried)
    (next : ServeArgs Activation Rest) (answers : SwapAnswers Carried) (previous : ServeArgs Activation Rest) :
    Except String (Option (ServeArgs Activation Rest)) → ModelHost Activation Rest Carried → Prop where
  | served (same : previous = next.requested published (some previous)) (loaded : host.current.isSome) :
      SwapCase published host next answers previous (.ok (some previous)) host
  | refused {e : String} (unreached : ¬ ReachesJoin published host next answers) :
      SwapCase published host next answers previous (.error e) host
  | panicked {e : String} (reaches : ReachesJoin published host next answers) (panicked : answers.panicked = true) :
      SwapCase published host next answers previous (.error e) { host with current := none, scheduler := none }
  | loaded {after : ModelHost Activation Rest Carried} (joined : host.scheduler.isSome → answers.panicked = false)
      (serves : after.Serves (next.requested published (some previous))) :
      SwapCase published host next answers previous (.ok (some previous)) after
  | restored {e : String} {after : ModelHost Activation Rest Carried}
      (joined : host.scheduler.isSome → answers.panicked = false) (serves : after.Serves previous) :
      SwapCase published host next answers previous (.error e) after
  | lost {e : String} (joined : host.scheduler.isSome → answers.panicked = false)
      (load : ∀ load, answers.load ≠ .ok (some load)) (reload : ∀ load, answers.reload ≠ .ok (some load)) :
      SwapCase published host next answers previous (.error e) { host with current := none, scheduler := none }

theorem releaseState_cases (host : ModelHost Activation Rest Carried) (answers : SwapAnswers Carried) :
    (∃ e, host.releaseState answers = (.error e, host)) ∨
    ∃ carried, host.releaseState answers = (.ok carried, { host with current := none }) := by
  unfold releaseState
  cases held : host.current with
  | none =>
    have same : { host with current := none } = host := by rw [← held]
    rw [same]
    cases host.process with
    | some carried => exact .inr ⟨carried, rfl⟩
    | none =>
      cases answers.fromEnv with
      | error e => exact .inl ⟨e, rfl⟩
      | ok carried => exact .inr ⟨carried, rfl⟩
  | some state =>
    have same : { host with current := some state } = host := by rw [← held]
    dsimp only
    split
    · rw [same]
      exact .inl ⟨_, rfl⟩
    · exact .inr ⟨state.carried, rfl⟩

theorem swap_case {previous : ServeArgs Activation Rest} (remembered : host.args = some previous)
    (swapped : host.swap published next answers = (reply, after)) :
    SwapCase published host next answers previous reply after := by
  by_cases served : host.args = some (next.requested published host.args) ∧ host.current.isSome
  · rw [swap, if_pos served] at swapped
    cases swapped
    rw [remembered] at served ⊢
    exact .served (Option.some.inj served.1) served.2
  · rw [swap, if_neg served] at swapped
    cases allowed : refusal (next.requested published host.args) answers with
    | error e =>
      simp only [allowed] at swapped
      cases swapped
      refine .refused fun reaches => ?_
      have passed := reaches.allowed
      rw [allowed] at passed
      cases passed
    | ok _ =>
      simp only [allowed] at swapped
      obtain ⟨e, kept⟩ | ⟨carried, released⟩ := host.releaseState_cases answers
      · simp only [kept] at swapped
        cases swapped
        refine .refused fun reaches => ?_
        obtain ⟨carried, released⟩ := reaches.released
        rw [kept] at released
        cases released
      · simp only [released] at swapped
        by_cases panics : host.scheduler.isSome ∧ answers.panicked
        · rw [if_pos panics] at swapped
          cases swapped
          exact .panicked ⟨served, allowed, ⟨carried, by rw [released]⟩, panics.1⟩ panics.2
        · rw [if_neg panics] at swapped
          have joined : host.scheduler.isSome → answers.panicked = false := by
            intro running
            cases ended : answers.panicked with
            | false => rfl
            | true => exact absurd ⟨running, ended⟩ panics
          rw [remembered] at swapped
          obtain ⟨rfl, serves⟩ | ⟨⟨e, rfl⟩, serves | ⟨rfl, load, reload⟩⟩ := loadOrRestore_cases swapped
          · exact .loaded joined serves
          · exact .restored joined serves
          · rw [← remembered]
            exact .lost joined load reload

/-! ## Runs of swaps -/

/-- One swap: what was asked for, what the parts answered, and what the caller got. -/
structure Call (Activation Rest Carried : Type) where
  next : ServeArgs Activation Rest
  answers : SwapAnswers Carried
  reply : Except String (Option (ServeArgs Activation Rest))

def Step (published : Published Activation) (host : ModelHost Activation Rest Carried)
    (call : Call Activation Rest Carried) (after : ModelHost Activation Rest Carried) : Prop :=
  host.swap published call.next call.answers = (call.reply, after)

/-- The old scheduler does not panic, if the swap joins it. -/
def Joined (published : Published Activation) (host : ModelHost Activation Rest Carried)
    (call : Call Activation Rest Carried) : Prop :=
  ReachesJoin published host call.next call.answers → call.answers.panicked = false

/-- The requested model on `Ok` and the previous one on `Err`, unless there was none or both loads failed. -/
structure Outcome (published : Published Activation) (before : ModelHost Activation Rest Carried)
    (call : Call Activation Rest Carried) (after : ModelHost Activation Rest Carried) : Prop where
  ok : ∀ previous, call.reply = .ok previous →
    previous = before.args ∧ after.Serves (call.next.requested published before.args)
  error : ∀ e, call.reply = .error e →
    (∃ previous, before.args = some previous ∧ after.Serves previous) ∨
      after.Unloaded ∧ (before.Unloaded ∨ LoadsFail call.answers)

/-- A model is served, or nothing is loaded since the two loads of some call failed. -/
def Coherent (host : ModelHost Activation Rest Carried) (calls : List (Call Activation Rest Carried)) : Prop :=
  (∃ args, host.Serves args) ∨ host.Unloaded ∧ ∃ earlier call later, calls = earlier ++ call :: later ∧
    LoadsFail call.answers ∧ ∀ other ∈ later, ∃ e, other.reply = .error e

variable {first : ModelHost Activation Rest Carried} {call : Call Activation Rest Carried}
  {calls : List (Call Activation Rest Carried)}

theorem Serves.not_unloaded (serves : host.Serves args) : ¬ host.Unloaded := by
  intro unloaded
  obtain ⟨state, published, -⟩ := serves
  rw [unloaded.current] at published
  cases published

theorem outcome_of_joined (sound : (∃ args, host.Serves args) ∨ host.Unloaded) (joined : Joined published host call)
    (taken : Step published host call after) : Outcome published host call after := by
  obtain ⟨next, answers, reply⟩ := call
  have remembered : ∃ previous, host.args = some previous ∧ (host.Serves previous ∨ host.Unloaded) := by
    obtain ⟨args, serves⟩ | unloaded := sound
    · have ⟨_, _, _, kept, _⟩ := serves
      exact ⟨args, kept, .inl serves⟩
    · obtain ⟨args, kept⟩ := Option.isSome_iff_exists.mp unloaded.args
      exact ⟨args, kept, .inr unloaded⟩
  obtain ⟨previous, kept, state⟩ := remembered
  have same := swap_case kept taken
  cases same with
  | served same loaded =>
    obtain serves | unloaded := state
    · refine ⟨fun replaced given => ?_, fun e given => (by cases given)⟩
      cases given
      refine ⟨kept.symm, ?_⟩
      change host.Serves (next.requested published host.args)
      rw [kept, ← same]
      exact serves
    · rw [unloaded.current] at loaded
      cases loaded
  | refused _ =>
    refine ⟨fun replaced given => (by cases given), fun e given => ?_⟩
    obtain serves | unloaded := state
    · exact .inl ⟨previous, kept, serves⟩
    · exact .inr ⟨unloaded, .inl unloaded⟩
  | panicked reaches panicked =>
    have calm := joined reaches
    rw [panicked] at calm
    cases calm
  | loaded _ serves =>
    refine ⟨fun replaced given => ?_, fun e given => (by cases given)⟩
    cases given
    rw [kept]
    exact ⟨rfl, serves⟩
  | restored _ serves =>
    exact ⟨fun replaced given => (by cases given), fun e given => .inl ⟨previous, kept, serves⟩⟩
  | lost joined load reload =>
    refine ⟨fun replaced given => (by cases given), fun e given => .inr ⟨⟨rfl, rfl, ?_⟩, ?_⟩⟩
    · rw [kept]
      rfl
    · obtain serves | unloaded := state
      · obtain ⟨_, _, _, _, running⟩ := serves
        exact .inr ⟨joined (by rw [running]; rfl), load, reload⟩
      · exact .inl unloaded

theorem Coherent.step (coherent : host.Coherent calls) (outcome : Outcome published host call after) :
    after.Coherent (calls ++ [call]) := by
  cases replied : call.reply with
  | ok previous => exact .inl ⟨_, (outcome.ok previous replied).2⟩
  | error e =>
    obtain ⟨previous, _, serves⟩ | ⟨unloaded, before | failed⟩ := outcome.error e replied
    · exact .inl ⟨previous, serves⟩
    · obtain ⟨args, serves⟩ | ⟨_, earlier, lost, later, rfl, failed, errors⟩ := coherent
      · exact absurd before serves.not_unloaded
      · refine .inr ⟨unloaded, earlier, lost, later ++ [call], by simp, failed, fun other listed => ?_⟩
        obtain older | newest := List.mem_append.mp listed
        · exact errors other older
        · rw [List.mem_singleton.mp newest]
          exact ⟨e, replied⟩
    · exact .inr ⟨unloaded, calls, call, [], rfl, failed, fun other none => (by cases none)⟩

theorem run_coherent (serves : first.Serves args)
    (run : Run (Guarded (Joined published) (Step published)) first calls host) : host.Coherent calls := by
  induction run with
  | start => exact .inl ⟨args, serves⟩
  | extend _ taken ih =>
    exact ih.step (outcome_of_joined (ih.imp_right And.left) taken.1 taken.2)

/-- A panicked scheduler leaves nothing loaded, and the previous argv is not tried. -/
theorem joined_of_outcome (serves : host.Serves args) (taken : Step published host call after)
    (outcome : Outcome published host call after) : Joined published host call := by
  obtain ⟨next, answers, reply⟩ := call
  intro reaches
  cases ended : answers.panicked with
  | false => rfl
  | true =>
    obtain ⟨state, current, argv, kept, running⟩ := serves
    have lost := swap_case kept taken
    cases lost with
    | served same loaded =>
      refine absurd ⟨?_, loaded⟩ reaches.other
      rw [kept]
      exact congrArg some same
    | refused unreached => exact absurd reaches unreached
    | panicked _ _ =>
      obtain ⟨previous, _, serves⟩ | ⟨_, unloaded | failed⟩ := outcome.error _ rfl
      · obtain ⟨_, published, _⟩ := serves
        cases published
      · exact absurd unloaded (Serves.not_unloaded ⟨state, current, argv, kept, running⟩)
      · have calm := failed.joined
        rw [ended] at calm
        cases calm
    | loaded joined _ | restored joined _ | lost joined _ _ =>
      have calm := joined reaches.running
      rw [ended] at calm
      cases calm

/-- In every run whose swaps do not meet a panicked scheduler, a model is served unless both loads of a call failed,
and each swap comes to its outcome.  From a host that serves a model, no other swap does. -/
theorem swap_leaves_served (serves : first.Serves args) :
    (∀ calls (host : ModelHost Activation Rest Carried),
      Run (Guarded (Joined published) (Step published)) first calls host →
        host.Coherent calls ∧ ∀ call after, Joined published host call → Step published host call after →
          Outcome published host call after) ∧
      ∀ call after, Step published first call after →
        (Outcome published first call after ↔ Joined published first call) := by
  refine ⟨fun calls host run => ?_, fun call after taken => ⟨joined_of_outcome serves taken, fun joined => ?_⟩⟩
  · have coherent := run_coherent serves run
    exact ⟨coherent, fun call after joined taken =>
      outcome_of_joined (coherent.imp_right And.left) joined taken⟩
  · exact outcome_of_joined (.inl ⟨args, serves⟩) joined taken

/-! A host that serves one checkpoint is asked for another. -/

def exampleArgs (checkpoint : String) : ServeArgs Unit String where
  autoSwap := false
  bind := "127.0.0.1"
  port := 8000
  dump := none
  weightQuantization := .declared
  w4a4Downcast := false
  w4a4DowncastWide := false
  activationQuantization := ()
  worldSize := 1
  rank := 0
  rest := checkpoint

def examplePublished : Published Unit where
  weightQuantization := { tier := .declared, downcast := .off }
  activationQuantization := ()

def exampleHost (load : Nat) : ModelHost Unit String Unit where
  current := some { args := exampleArgs "small", load, carried := () }
  scheduler := some { load }
  args := some (exampleArgs "small")
  process := some ()

def exampleCall (panicked : Bool) (load : Except String (Option Nat))
    (reply : Except String (Option (ServeArgs Unit String))) : Call Unit String Unit where
  next := exampleArgs "large"
  answers :=
    { validate := .ok (), shuttingDown := false, preflight := .ok (), holders := 0, fromEnv := .ok (), panicked, load,
      reload := .ok (some 2) }
  reply

theorem exampleHost_serves (load : Nat) : (exampleHost load).Serves (exampleArgs "small") := ⟨_, rfl, rfl, rfl, rfl⟩

def exampleRestored : Call Unit String Unit :=
  exampleCall false (.error "out of memory")
    (.error (withContext "the new model failed to load; the previous one was restored" "out of memory"))

def examplePanicked : Call Unit String Unit :=
  exampleCall true (.ok (some 1)) (.error "the scheduler thread panicked while draining")

theorem exampleRestored_step : Step examplePublished (exampleHost 0) exampleRestored (exampleHost 2) :=
  rfl

theorem examplePanicked_step :
    Step examplePublished (exampleHost 0) examplePanicked { exampleHost 0 with current := none, scheduler := none } :=
  rfl

theorem swap_leaves_served_restored :
    (exampleHost 2).Coherent [exampleRestored] ∧
      (Outcome examplePublished (exampleHost 0) exampleRestored (exampleHost 2) ↔
        Joined examplePublished (exampleHost 0) exampleRestored) := by
  obtain ⟨runs, steps⟩ := @swap_leaves_served _ _ _ _ _ examplePublished _ _ (exampleHost_serves 0)
  refine ⟨(runs _ _ (.single ⟨fun _ => rfl, exampleRestored_step⟩)).1, steps _ _ exampleRestored_step⟩

/-- The scheduler panics as it drains: both models would load, and none is served. -/
theorem swap_leaves_nothing :
    ¬ ∀ (calls : List (Call Unit String Unit)) (host : ModelHost Unit String Unit),
      Run (Step examplePublished) (exampleHost 0) calls host →
        (∃ args, host.Serves args) ∨ ∃ call ∈ calls, ∃ loadError reloadError,
          call.answers.load = .error loadError ∧ call.answers.reload = .error reloadError := by
  intro served
  obtain ⟨_, _, published, _⟩ | ⟨call, called, _, _, failed, _⟩ := served _ _ (.single examplePanicked_step)
  · cases published
  · rw [List.mem_singleton.mp called] at failed
    cases failed

end ModelHost

end Metrale.Server
