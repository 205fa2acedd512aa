import Mathlib.Tactic.Positivity
import Metrale.Server.RateLimiter

/-! # Bucket levels

The level of a bucket is its budget at an instant: time raises it by the rate, a debit lowers it by the cost, and a
request that is denied leaves it. -/

namespace Metrale.Server

open Metrale.Foundation

structure Bucket.Sound (bucket : Bucket) (burst : Nat) (now : ℚ) : Prop where
  nonneg : 0 ≤ bucket.available
  capped : bucket.available ≤ burst
  past : bucket.lastRefill ≤ now

namespace Bucket

variable {bucket : Bucket} {cost rate now later : ℚ} {burst : Nat}

theorem Sound.elapsed (sound : bucket.Sound burst now) : bucket.elapsed now = now - bucket.lastRefill :=
  max_eq_left (sub_nonneg.mpr sound.past)

theorem Sound.mono (sound : bucket.Sound burst now) (le : now ≤ later) : bucket.Sound burst later :=
  ⟨sound.nonneg, sound.capped, sound.past.trans le⟩

theorem new_sound (burst : Nat) (now : ℚ) : (new burst now).Sound burst now :=
  ⟨Nat.cast_nonneg burst, le_refl _, le_refl _⟩

theorem level_le (bucket : Bucket) (rate : ℚ) (burst : Nat) (now : ℚ) : bucket.level rate burst now ≤ burst :=
  min_le_right _ _

theorem Sound.level_nonneg (sound : bucket.Sound burst now) (rate_nonneg : 0 ≤ rate) :
    0 ≤ bucket.level rate burst now := by
  refine le_min ?_ (Nat.cast_nonneg burst)
  have waited : 0 ≤ bucket.elapsed now := le_max_right _ _
  have refill := mul_nonneg waited rate_nonneg
  have held := sound.nonneg
  linarith

theorem level_now {available : ℚ} (capped : available ≤ burst) : level ⟨available, now⟩ rate burst now = available := by
  simp [level, Bucket.elapsed, capped]

theorem new_level (burst : Nat) (rate now : ℚ) : (new burst now).level rate burst now = burst :=
  level_now (le_refl _)

theorem Sound.level_later (sound : bucket.Sound burst now) (rate_nonneg : 0 ≤ rate) (le : now ≤ later) :
    bucket.level rate burst later ≤ bucket.level rate burst now + rate * (later - now) := by
  have refill := mul_nonneg rate_nonneg (sub_nonneg.mpr le)
  simp only [level, sound.elapsed, (sound.mono le).elapsed]
  rw [← min_add_add_right]
  refine min_le_min ?_ (by linarith)
  linarith

theorem Sound.level_idle (sound : bucket.Sound burst now) (rate_nonneg : 0 ≤ rate) {span : ℚ}
    (idle : span ≤ bucket.elapsed now) (fills : burst ≤ span * rate) : bucket.level rate burst now = burst := by
  refine min_eq_right ?_
  have refill := mul_le_mul_of_nonneg_right idle rate_nonneg
  have held := sound.nonneg
  linarith

theorem Sound.refilled (sound : bucket.Sound burst now) :
    (if 0 < bucket.elapsed now then ⟨bucket.level rate burst now, now⟩ else bucket) =
      (⟨bucket.level rate burst now, now⟩ : Bucket) := by
  split
  · rfl
  · next same =>
    have zero : bucket.elapsed now = 0 := le_antisymm (not_lt.mp same) (le_max_right _ _)
    have refilledNow : bucket.lastRefill = now := by
      have difference := sound.elapsed
      rw [zero] at difference
      linarith
    have available : bucket.level rate burst now = bucket.available := by
      rw [level, zero, zero_mul, add_zero, min_eq_left sound.capped]
    rw [available, ← refilledNow]

theorem Sound.tryConsume (sound : bucket.Sound burst now) (cost rate : ℚ) :
    bucket.tryConsume cost rate burst now =
      if cost ≤ bucket.level rate burst now then (⟨bucket.level rate burst now - cost, now⟩, true)
      else (⟨bucket.level rate burst now, now⟩, false) := by
  simp only [Bucket.tryConsume, sound.refilled]

theorem Sound.refund (sound : bucket.Sound burst now) {amount : ℚ} (nonneg : 0 ≤ amount) :
    (bucket.refund amount burst).Sound burst now :=
  ⟨le_min (add_nonneg sound.nonneg nonneg) (Nat.cast_nonneg burst), min_le_right _ _, sound.past⟩

theorem Sound.level_refund (sound : bucket.Sound burst now) {amount : ℚ} (nonneg : 0 ≤ amount) :
    (bucket.refund amount burst).level rate burst now ≤
      bucket.level rate burst now + ((bucket.refund amount burst).available - bucket.available) := by
  have more : bucket.available ≤ (bucket.refund amount burst).available :=
    le_min (le_add_of_nonneg_right nonneg) sound.capped
  have same : (bucket.refund amount burst).elapsed now = bucket.elapsed now := rfl
  rw [level, level, same, ← min_add_add_right]
  refine min_le_min ?_ ?_
  · linarith
  · linarith

/-- What the debit of a bucket leaves, which is made only of a bucket that is enforced. -/
structure Consumed (bucket : Bucket) (enforced : Prop) (cost rate : ℚ) (burst : Nat) (now : ℚ) (after : Bucket)
    (allowed : Bool) : Prop where
  sound : after.Sound burst now
  allowed_iff : allowed = true ↔ (enforced → cost ≤ bucket.level rate burst now)
  level : enforced → after.level rate burst now = bucket.level rate burst now - if allowed then cost else 0
  undone : enforced → allowed = true →
    (after.refund cost burst).level rate burst now = bucket.level rate burst now
  refilled : after.lastRefill = bucket.lastRefill ∨ after.lastRefill = now

theorem Sound.consume (sound : bucket.Sound burst now) (enforced : Prop) [Decidable enforced] (cost_nonneg : 0 ≤ cost)
    (rate_nonneg : 0 ≤ rate) {after : Bucket} {allowed : Bool}
    (consumed : (if enforced then bucket.tryConsume cost rate burst now else (bucket, true)) = (after, allowed)) :
    bucket.Consumed enforced cost rate burst now after allowed := by
  have capped := bucket.level_le rate burst now
  have nonneg := sound.level_nonneg rate_nonneg
  by_cases charges : enforced
  · rw [if_pos charges, sound.tryConsume] at consumed
    split at consumed
    · next affords =>
      obtain ⟨rfl, rfl⟩ := Prod.mk.inj consumed
      have lower : bucket.level rate burst now - cost ≤ burst := by linarith
      refine ⟨⟨?_, lower, le_refl _⟩, by simp [affords], ?_, ?_, .inr rfl⟩
      · simpa using affords
      · intro _
        simpa using level_now lower
      · intro _ _
        rw [Bucket.refund, sub_add_cancel, min_eq_left capped, level_now capped]
    · next short =>
      obtain ⟨rfl, rfl⟩ := Prod.mk.inj consumed
      refine ⟨⟨nonneg, capped, le_refl _⟩, by simp [charges, short], ?_, ?_, .inr rfl⟩
      · intro _
        simpa using level_now capped
      · intro _ refused
        simp at refused
  · rw [if_neg charges] at consumed
    obtain ⟨rfl, rfl⟩ := Prod.mk.inj consumed
    exact ⟨sound, by simp [charges], fun enforced => absurd enforced charges,
      fun enforced => absurd enforced charges, .inl rfl⟩

end Bucket

/-! ## One identity -/

theorem RateLimitConfig.rate_nonneg (cfg : RateLimitConfig) (axis : Axis) : 0 ≤ cfg.rate axis := by
  unfold rate
  positivity

theorem RateLimitConfig.enabled {cfg : RateLimitConfig} {axis : Axis} (enforced : 0 < cfg.perMinute axis) :
    cfg.isEnabled = true := by
  cases axis with
  | requests => simpa [isEnabled] using .inl enforced
  | tokens => simpa [isEnabled] using .inr enforced

def Axis.cost (estimatedTokens : Nat) : Axis → ℚ
  | .requests => 1
  | .tokens => estimatedTokens

namespace KeyState

variable {cfg : RateLimitConfig} {state : KeyState} {now later : ℚ} {axis : Axis} {estimatedTokens : Nat}

structure Sound (cfg : RateLimitConfig) (state : KeyState) (now : ℚ) : Prop where
  bucket : ∀ axis, (state.bucket axis).Sound (cfg.burst axis) now

def level (cfg : RateLimitConfig) (state : KeyState) (axis : Axis) (now : ℚ) : ℚ :=
  (state.bucket axis).level (cfg.rate axis) (cfg.burst axis) now

@[simp] theorem bucket_requests (state : KeyState) : state.bucket .requests = state.requests := rfl

@[simp] theorem level_requests (cfg : RateLimitConfig) (state : KeyState) (now : ℚ) :
    state.level cfg .requests now = state.requests.level (cfg.rate .requests) cfg.burstRpm now := rfl

@[simp] theorem level_tokens (cfg : RateLimitConfig) (state : KeyState) (now : ℚ) :
    state.level cfg .tokens now = state.tokens.level (cfg.rate .tokens) cfg.burstTpm now := rfl

theorem new_bucket (cfg : RateLimitConfig) (now : ℚ) (axis : Axis) :
    (new cfg now).bucket axis = .new (cfg.burst axis) now := by
  cases axis <;> rfl

theorem new_sound (cfg : RateLimitConfig) (now : ℚ) : (new cfg now).Sound cfg now where
  bucket axis := by
    rw [new_bucket]
    exact Bucket.new_sound _ now

theorem new_level (cfg : RateLimitConfig) (axis : Axis) (now : ℚ) : (new cfg now).level cfg axis now = cfg.burst axis := by
  rw [level, new_bucket]
  exact Bucket.new_level _ _ now

def Affords (cfg : RateLimitConfig) (state : KeyState) (estimatedTokens : Nat) (now : ℚ) : Prop :=
  ∀ axis, 0 < cfg.perMinute axis → axis.cost estimatedTokens ≤ state.level cfg axis now

/-- What `charge` leaves in the buckets: a request that the buckets afford is debited from each that is enforced. -/
structure Charged (cfg : RateLimitConfig) (state : KeyState) (estimatedTokens : Nat) (now : ℚ) (charged : KeyState)
    (deniedBy : Option Axis) : Prop where
  sound : charged.Sound cfg now
  admitted : deniedBy = none ↔ state.Affords cfg estimatedTokens now
  level : ∀ axis, 0 < cfg.perMinute axis →
    charged.level cfg axis now = state.level cfg axis now - if deniedBy = none then axis.cost estimatedTokens else 0
  refilled : ∀ axis, (charged.bucket axis).lastRefill = (state.bucket axis).lastRefill ∨
    (charged.bucket axis).lastRefill = now

theorem affords_iff : state.Affords cfg estimatedTokens now ↔
    (0 < cfg.rpm → 1 ≤ state.requests.level (cfg.rate .requests) cfg.burstRpm now) ∧
      (0 < cfg.tpm → (estimatedTokens : ℚ) ≤ state.tokens.level (cfg.rate .tokens) cfg.burstTpm now) := by
  constructor
  · intro affords
    exact ⟨affords .requests, affords .tokens⟩
  · rintro ⟨requests, tokens⟩ axis
    cases axis with
    | requests => exact requests
    | tokens => exact tokens

theorem Sound.charge (sound : state.Sound cfg now) {charged : KeyState} {deniedBy : Option Axis}
    (charging : state.charge cfg estimatedTokens now = (charged, deniedBy)) :
    state.Charged cfg estimatedTokens now charged deniedBy := by
  have soundRequests : state.requests.Sound cfg.burstRpm now := sound.bucket .requests
  have soundTokens : state.tokens.Sound cfg.burstTpm now := sound.bucket .tokens
  cases requestsResult : (if 0 < cfg.rpm then state.requests.tryConsume 1 (cfg.rate .requests) cfg.burstRpm now
    else (state.requests, true)) with
  | mk requests reqAllowed =>
    have ofRequests := soundRequests.consume _ zero_le_one (cfg.rate_nonneg .requests) requestsResult
    cases tokensResult : (if 0 < cfg.tpm then
      state.tokens.tryConsume estimatedTokens (cfg.rate .tokens) cfg.burstTpm now else (state.tokens, true)) with
    | mk tokens tokAllowed =>
      have ofTokens := soundTokens.consume _ (Nat.cast_nonneg estimatedTokens) (cfg.rate_nonneg .tokens) tokensResult
      simp only [KeyState.charge, requestsResult, tokensResult] at charging
      cases reqAllowed with
      | false =>
        -- the request bucket denies, and the token bucket is not looked at
        obtain ⟨rfl, rfl⟩ := Prod.mk.inj charging
        have short := ofRequests.allowed_iff.not.mp Bool.false_ne_true
        refine ⟨⟨?sound⟩, ?admitted, ?level, ?refilled⟩
        case sound =>
          rintro (_ | _)
          · exact ofRequests.sound
          · exact soundTokens
        case admitted =>
          rw [affords_iff]
          simp only [reduceCtorEq, false_iff]
          exact fun affords => short affords.1
        case level =>
          rintro (_ | _) enforced
          · simpa using ofRequests.level enforced
          · simp
        case refilled =>
          rintro (_ | _)
          · exact ofRequests.refilled
          · exact .inl rfl
      | true =>
        have paid := ofRequests.allowed_iff.mp rfl
        cases tokAllowed with
        | false =>
          -- the request that was debited is given back
          obtain ⟨rfl, rfl⟩ := Prod.mk.inj charging
          have short := ofTokens.allowed_iff.not.mp Bool.false_ne_true
          refine ⟨⟨?sound⟩, ?admitted, ?level, ?refilled⟩
          case sound =>
            rintro (_ | _)
            · simp only [bucket_requests]
              split
              · exact ofRequests.sound.refund zero_le_one
              · exact ofRequests.sound
            · exact ofTokens.sound
          case admitted =>
            rw [affords_iff]
            simp only [reduceCtorEq, false_iff]
            exact fun affords => short affords.2
          case level =>
            rintro (_ | _) enforced
            · have enforcedRequests : 0 < cfg.rpm := enforced
              simpa [enforcedRequests] using ofRequests.undone enforced rfl
            · simpa using ofTokens.level enforced
          case refilled =>
            rintro (_ | _)
            · have kept : ((if 0 < cfg.rpm then requests.refund 1 cfg.burstRpm else requests)).lastRefill =
                  requests.lastRefill := by
                split <;> rfl
              simp only [bucket_requests, kept]
              exact ofRequests.refilled
            · exact ofTokens.refilled
        | true =>
          obtain ⟨rfl, rfl⟩ := Prod.mk.inj charging
          refine ⟨⟨?sound⟩, ?admitted, ?level, ?refilled⟩
          case sound =>
            rintro (_ | _)
            · exact ofRequests.sound
            · exact ofTokens.sound
          case admitted =>
            rw [affords_iff]
            simp only [true_iff]
            exact ⟨paid, ofTokens.allowed_iff.mp rfl⟩
          case level =>
            rintro (_ | _) enforced
            · exact ofRequests.level enforced
            · exact ofTokens.level enforced
          case refilled =>
            rintro (_ | _)
            · exact ofRequests.refilled
            · exact ofTokens.refilled

end KeyState

end Metrale.Server
