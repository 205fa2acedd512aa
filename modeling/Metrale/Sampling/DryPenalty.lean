import Mathlib.Algebra.BigOperators.Fin
import Mathlib.Algebra.Order.Field.Rat

/-! # The DRY penalty (`sampling/src/penalties.rs`)

Logits, the multiplier and the base are exact rationals. -/

namespace Metrale.Sampling

variable (history breakers : List UInt32)

/-- The loop over `j` and `k`: the tokens found equal, going backwards from both. -/
def matchLoop (j k len : Nat) : Nat :=
  if j < k ∧ history[j]? = history[k]? then
    if history[j]?.any breakers.contains then len + 1
    else match j with
      | 0 => len + 1
      | j + 1 => matchLoop j (k - 1) (len + 1)
  else len

/-- `match_lengths[i]` -/
def matchLength (i : Nat) : Nat :=
  if history[i]?.any breakers.contains then 0 else matchLoop history breakers i (history.length - 1) 0

/-- `n as i32` -/
def asI32 (n : Nat) : Int := Int.bmod n (2 ^ 32)

def penalizeAt (multiplier base : ℚ) (allowed : UInt32) (logits : List ℚ) (i : Nat) : List ℚ :=
  let len := matchLength history breakers i
  if allowed.toNat < len then
    match history[i + len]? with
    | none => logits
    | some token => logits.modify token.toNat (· - multiplier * base ^ asI32 (len - allowed.toNat))
  else logits

def applyDryPenalty (logits : List ℚ) (multiplier base : ℚ) (allowedLength : UInt32) : List ℚ :=
  if history.isEmpty ∨ multiplier = 0 then logits
  else (List.range (history.length - 1)).foldl (penalizeAt history breakers multiplier base allowedLength) logits

/-! ## Matches -/

variable {history breakers} {i j k len m : Nat}

/-- A match of `len` tokens, backwards from two positions; only the last one reached may be a breaker. -/
structure Run (history breakers : List UInt32) (j k len : Nat) : Prop where
  fits : len ≤ j + 1
  same : ∀ m < len, history[j - m]? = history[k - m]?
  unbroken : ∀ m, m + 1 < len → ¬history[j - m]?.any breakers.contains

theorem Run.nil : Run history breakers j k 0 :=
  ⟨Nat.zero_le _, by simp, by simp⟩

theorem Run.one (same : history[j]? = history[k]?) : Run history breakers j k 1 := by
  refine ⟨by omega, ?_, by simp⟩
  intro m lt
  obtain rfl : m = 0 := by omega
  exact same

theorem run_succ (same : history[j + 1]? = history[k + 1]?) (unbroken : ¬history[j + 1]?.any breakers.contains) :
    Run history breakers (j + 1) (k + 1) (len + 1) ↔ Run history breakers j k len := by
  constructor
  · intro run
    refine ⟨by have := run.fits; omega, ?_, ?_⟩
    · intro m lt
      simpa using run.same (m + 1) (by omega)
    · intro m lt
      simpa using run.unbroken (m + 1) (by omega)
  · intro run
    refine ⟨by have := run.fits; omega, ?_, ?_⟩
    · intro m lt
      cases m with
      | zero => exact same
      | succ m => simpa using run.same m (by omega)
    · intro m lt
      cases m with
      | zero => exact unbroken
      | succ m => simpa using run.unbroken m (by omega)

theorem matchLoop_greatest (before : j < k) (len : Nat) :
    ∃ more, matchLoop history breakers j k len = len + more ∧ IsGreatest { more | Run history breakers j k more } more := by
  induction j generalizing k len with
  | zero =>
    by_cases same : history[0]? = history[k]?
    · refine ⟨1, by simp [matchLoop, before, same], .one same, ?_⟩
      exact fun more run => run.fits
    · refine ⟨0, by simp [matchLoop, same], .nil, ?_⟩
      intro more run
      by_contra longer
      exact same (run.same 0 (by omega))
  | succ j ih =>
    obtain ⟨k, rfl⟩ : ∃ before, k = before + 1 := ⟨k - 1, by omega⟩
    by_cases same : history[j + 1]? = history[k + 1]?
    · by_cases broken : history[j + 1]?.any breakers.contains = true
      · refine ⟨1, by simp only [matchLoop, before, same, and_self, if_true, same ▸ broken], .one same, ?_⟩
        intro more run
        by_contra longer
        exact run.unbroken 0 (by omega) broken
      · obtain ⟨more, looped, run, most⟩ := ih (k := k) (by omega) (len + 1)
        refine ⟨more + 1, ?_, (run_succ same broken).mpr run, ?_⟩
        · rw [matchLoop, if_pos ⟨before, same⟩, if_neg broken, Nat.add_sub_cancel, looped]
          omega
        · intro other run
          cases other with
          | zero => exact Nat.zero_le _
          | succ other => exact Nat.succ_le_succ (most ((run_succ same broken).mp run))
    · refine ⟨0, by simp [matchLoop, same], .nil, ?_⟩
      intro more run
      by_contra longer
      exact same (run.same 0 (by omega))

structure Shared (history breakers : List UInt32) (i len : Nat) : Prop extends
    Run history breakers i (history.length - 1) len where
  unbrokenEnd : 0 < len → ¬history[i]?.any breakers.contains

theorem matchLength_greatest (earlier : i + 1 < history.length) :
    IsGreatest { len | Shared history breakers i len } (matchLength history breakers i) := by
  rw [matchLength]
  split
  · next broken =>
    refine ⟨⟨.nil, by simp⟩, ?_⟩
    intro len shared
    by_contra longer
    exact shared.unbrokenEnd (by omega) broken
  · next unbroken =>
    have last : i < history.length - 1 := by omega
    obtain ⟨len, looped, run, most⟩ : ∃ more, matchLoop history breakers i (history.length - 1) 0 = 0 + more ∧ _ :=
      matchLoop_greatest last 0
    rw [looped, Nat.zero_add]
    exact ⟨⟨run, fun _ => unbroken⟩, fun other shared => most shared.toRun⟩

/-! ## Logits -/

variable (history breakers) (multiplier base : ℚ) (allowed : UInt32)

def reduction (token i : Nat) : ℚ :=
  if allowed.toNat < matchLength history breakers i ∧
      (history[i + matchLength history breakers i]?.map UInt32.toNat) = some token then
    multiplier * base ^ asI32 (matchLength history breakers i - allowed.toNat)
  else 0

theorem getElem?_penalizeAt (logits : List ℚ) (i token : Nat) :
    (penalizeAt history breakers multiplier base allowed logits i)[token]? =
      logits[token]?.map (· - reduction history breakers multiplier base allowed token i) := by
  simp only [penalizeAt, reduction]
  split
  · next long =>
    cases penalized : history[i + matchLength history breakers i]? with
    | none => simp
    | some other =>
      simp only [List.getElem?_modify, Option.map_some, Option.some.injEq, long, true_and]
      by_cases own : other.toNat = token
      · simp [own]
      · simp [own]
  · next short => simp [short]

theorem getElem?_foldl_penalizeAt (logits : List ℚ) (count token : Nat) :
    ((List.range count).foldl (penalizeAt history breakers multiplier base allowed) logits)[token]? =
      logits[token]?.map (· - ∑ i ∈ Finset.range count, reduction history breakers multiplier base allowed token i) := by
  induction count with
  | zero => simp
  | succ count ih =>
    rw [List.range_succ, List.foldl_append, List.foldl_cons, List.foldl_nil, getElem?_penalizeAt, ih,
      Finset.sum_range_succ, Option.map_map]
    congr 1
    funext logit
    exact sub_sub _ _ _

/-- The last `len` tokens, none of them a breaker, occurred before, followed by the token. -/
def Repeats (history breakers : List UInt32) (token : UInt32) (len : Nat) : Prop :=
  ∃ start, start + len < history.length ∧
    (history.drop start).take len = history.drop (history.length - len) ∧
    (∀ other ∈ history.drop (history.length - len), other ∉ breakers) ∧ history[start + len]? = some token

/-- The textbook penalty: by the longest repetition that the token would go on with. -/
def AsDefined (logits : List ℚ) : Prop :=
  ∀ token : UInt32, ∀ logit, logits[token.toNat]? = some logit →
    (∀ len, IsGreatest { len | allowed.toNat ≤ len ∧ Repeats history breakers token len } len →
      (applyDryPenalty history breakers logits multiplier base allowed)[token.toNat]? =
        some (logit - multiplier * base ^ (len - allowed.toNat))) ∧
    ((∀ len, allowed.toNat ≤ len → ¬Repeats history breakers token len) →
      (applyDryPenalty history breakers logits multiplier base allowed)[token.toNat]? = some logit)

end Metrale.Sampling
