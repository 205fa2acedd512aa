import Metrale.Server.RateLevels

/-! # What an identity is admitted

The level of an identity without buckets is a full burst.  A call lowers the level by what it admits, time raises it
by the rate, and only the eviction of a bucket that is not full raises it otherwise. -/

namespace Metrale.Server

open Metrale.Foundation

/-! ## Runs -/

inductive RateCall where
  | admitRequest (key : String) (estimatedTokens : Nat)
  | refundTokens (key : String) (amount : Nat)

structure TimedCall where
  now : ℚ
  call : RateCall

namespace RateLimiter

def advance (limiter : RateLimiter) (timed : TimedCall) : RateLimiter :=
  match timed.call with
  | .admitRequest key estimatedTokens => (limiter.admitRequest key estimatedTokens timed.now).1
  | .refundTokens key amount => limiter.refundTokens key amount

def admittedBy (limiter : RateLimiter) (key : String) (axis : Axis) (timed : TimedCall) : ℚ :=
  match timed.call with
  | .admitRequest other estimatedTokens =>
    if other = key ∧ (limiter.admitRequest other estimatedTokens timed.now).2.allowed = true then axis.cost estimatedTokens
    else 0
  | .refundTokens _ _ => 0

def refundedBy (limiter : RateLimiter) (key : String) (axis : Axis) (timed : TimedCall) : ℚ :=
  match timed.call with
  | .admitRequest _ _ => 0
  | .refundTokens other amount =>
    (((limiter.refundTokens other amount).state key timed.now).bucket axis).available -
      ((limiter.state key timed.now).bucket axis).available

def netAdmitted (limiter : RateLimiter) (key : String) (axis : Axis) : List TimedCall → ℚ
  | [] => 0
  | timed :: calls => limiter.admittedBy key axis timed - limiter.refundedBy key axis timed +
      (limiter.advance timed).netAdmitted key axis calls

def evicted (limiter : RateLimiter) (key : String) (now : ℚ) : RateLimiter := (limiter.scrubIfDue now).makeRoom key now

def Forgets (limiter : RateLimiter) (key : String) (axis : Axis) (timed : TimedCall) : Prop :=
  match timed.call with
  | .admitRequest other _ => ∃ state, limiter.inner.lookup key = some state ∧
      (limiter.evicted other timed.now).inner.lookup key = none ∧
      state.level limiter.cfg axis timed.now < limiter.cfg.burst axis
  | .refundTokens _ _ => False

structure Sound (limiter : RateLimiter) (now : ℚ) : Prop where
  scrubbed : limiter.lastScrub ≤ now
  state : ∀ key state, limiter.inner.lookup key = some state → state.Sound limiter.cfg now

def level (limiter : RateLimiter) (key : String) (axis : Axis) (now : ℚ) : ℚ :=
  (limiter.state key now).level limiter.cfg axis now

variable {limiter : RateLimiter} {key other : String} {axis : Axis} {now later : ℚ} {estimatedTokens amount : Nat}

/-! ### Levels -/

theorem Sound.mono (sound : limiter.Sound now) (le : now ≤ later) : limiter.Sound later where
  scrubbed := sound.scrubbed.trans le
  state key state found := ⟨fun axis => ((sound.state key state found).bucket axis).mono le⟩

theorem Sound.sound_state (sound : limiter.Sound now) (key : String) : (limiter.state key now).Sound limiter.cfg now := by
  unfold RateLimiter.state
  cases found : limiter.inner.lookup key with
  | none => exact KeyState.new_sound _ now
  | some state => exact sound.state key state found

theorem new_sound (cfg : RateLimitConfig) (now : ℚ) : (new cfg now).Sound now where
  scrubbed := le_refl now
  state key state found := by simp [new] at found

theorem level_le (limiter : RateLimiter) (key : String) (axis : Axis) (now : ℚ) :
    limiter.level key axis now ≤ limiter.cfg.burst axis :=
  Bucket.level_le _ _ _ _

theorem Sound.level_nonneg (sound : limiter.Sound now) (key : String) (axis : Axis) : 0 ≤ limiter.level key axis now :=
  ((sound.sound_state key).bucket axis).level_nonneg (limiter.cfg.rate_nonneg axis)

theorem level_absent (absent : limiter.inner.lookup key = none) (axis : Axis) (now : ℚ) :
    limiter.level key axis now = limiter.cfg.burst axis := by
  rw [level, RateLimiter.state, absent]
  exact KeyState.new_level _ axis now

theorem level_present {state : KeyState} (found : limiter.inner.lookup key = some state) (axis : Axis) (now : ℚ) :
    limiter.level key axis now = state.level limiter.cfg axis now := by
  rw [level, RateLimiter.state, found]
  rfl

theorem Sound.level_later (sound : limiter.Sound now) (le : now ≤ later) (key : String) (axis : Axis) :
    limiter.level key axis later ≤ limiter.level key axis now + limiter.cfg.rate axis * (later - now) := by
  have rate_nonneg := limiter.cfg.rate_nonneg axis
  cases found : limiter.inner.lookup key with
  | none =>
    rw [level_absent found, level_absent found]
    have refill := mul_nonneg rate_nonneg (sub_nonneg.mpr le)
    linarith
  | some state =>
    rw [level_present found, level_present found]
    exact ((sound.state key state found).bucket axis).level_later rate_nonneg le

/-! ### Eviction -/

theorem inUse_eq_false {state : KeyState} : state.inUse now = false ↔ ∀ axis, idleEvict ≤ (state.bucket axis).elapsed now := by
  simp only [KeyState.inUse, Bool.or_eq_false_iff, decide_eq_false_iff_not, not_lt]
  constructor
  · rintro ⟨requests, tokens⟩ (_ | _)
    · exact requests
    · exact tokens
  · intro idle
    exact ⟨idle .requests, idle .tokens⟩

@[simp] theorem evicted_cfg (limiter : RateLimiter) (key : String) (now : ℚ) : (limiter.evicted key now).cfg = limiter.cfg := by
  unfold evicted makeRoom scrubIfDue
  split <;> split <;> rfl

theorem evicted_lookup (limiter : RateLimiter) (other key : String) (now : ℚ) :
    (limiter.evicted other now).inner.lookup key = limiter.inner.lookup key ∨
      (limiter.evicted other now).inner.lookup key = none ∧
        ∃ state, limiter.inner.lookup key = some state ∧ state.inUse now = false := by
  cases found : limiter.inner.lookup key with
  | none =>
    left
    unfold evicted makeRoom scrubIfDue
    split <;> split <;> simp [HashMap.lookup_retain, found]
  | some state =>
    cases busy : state.inUse now with
    | true =>
      left
      unfold evicted makeRoom scrubIfDue
      split <;> split <;> simp [HashMap.lookup_retain, found, busy]
    | false =>
      unfold evicted makeRoom scrubIfDue
      split <;> split <;> simp [HashMap.lookup_retain, found, busy]

theorem Sound.evicted (sound : limiter.Sound now) (other : String) : (limiter.evicted other now).Sound now where
  scrubbed := by
    unfold RateLimiter.evicted makeRoom scrubIfDue
    split <;> split <;> first | exact sound.scrubbed | exact le_refl now
  state key state found := by
    rw [evicted_cfg]
    rcases limiter.evicted_lookup other key now with same | ⟨gone, -⟩
    · exact sound.state key state (same ▸ found)
    · rw [gone] at found
      cases found

theorem level_evicted (kept : ¬limiter.Forgets key axis ⟨now, .admitRequest other estimatedTokens⟩) :
    (limiter.evicted other now).level key axis now = limiter.level key axis now := by
  rcases limiter.evicted_lookup other key now with same | ⟨gone, state, found, -⟩
  · rw [level, RateLimiter.state, same, evicted_cfg]
    rfl
  · rw [level_absent gone, level_present found, evicted_cfg]
    have full : ¬state.level limiter.cfg axis now < limiter.cfg.burst axis :=
      fun short => kept ⟨state, found, gone, short⟩
    exact le_antisymm (not_lt.mp full) (Bucket.level_le _ _ _ _)

/-! ### One call -/

theorem admit_eq (enabled : limiter.cfg.isEnabled = true) (key : String) (estimatedTokens : Nat) (now : ℚ) :
    ∃ charged deniedBy,
      ((limiter.evicted key now).state key now).charge limiter.cfg estimatedTokens now = (charged, deniedBy) ∧
        limiter.admitRequest key estimatedTokens now =
          ({ limiter.evicted key now with inner := (limiter.evicted key now).inner.insert key charged },
            charged.decision limiter.cfg deniedBy now) := by
  have cfg := limiter.evicted_cfg key now
  cases charging : ((limiter.evicted key now).state key now).charge limiter.cfg estimatedTokens now with
  | mk charged deniedBy =>
    refine ⟨charged, deniedBy, rfl, ?_⟩
    rw [← cfg] at charging ⊢
    unfold evicted at charging ⊢
    simp only [admitRequest, enabled, Bool.not_true, Bool.false_eq_true, if_false]
    rw [charging]

theorem Sound.admit_sound (sound : limiter.Sound now) (enabled : limiter.cfg.isEnabled = true) (other : String)
    (estimatedTokens : Nat) : (limiter.admitRequest other estimatedTokens now).1.Sound now := by
  obtain ⟨charged, deniedBy, charging, admitting⟩ := admit_eq enabled other estimatedTokens now
  have soundEvicted := sound.evicted other
  have soundState := soundEvicted.sound_state other
  rw [evicted_cfg] at soundState
  rw [admitting]
  refine ⟨soundEvicted.scrubbed, ?_⟩
  intro name state found
  simp only [evicted_cfg]
  rw [HashMap.lookup_insert_if] at found
  split at found
  · obtain rfl := Option.some.inj found
    exact (soundState.charge charging).sound
  · have held := soundEvicted.state name state found
    rwa [evicted_cfg] at held

/-- An admission lowers the level of its own identity by what it admits, and no other. -/
theorem Sound.admit_level (sound : limiter.Sound now) (enforced : 0 < limiter.cfg.perMinute axis)
    (kept : ¬limiter.Forgets key axis ⟨now, .admitRequest other estimatedTokens⟩) :
    limiter.admittedBy key axis ⟨now, .admitRequest other estimatedTokens⟩ +
      (limiter.admitRequest other estimatedTokens now).1.level key axis now = limiter.level key axis now := by
  obtain ⟨charged, deniedBy, charging, admitting⟩ :=
    admit_eq (RateLimitConfig.enabled enforced) other estimatedTokens now
  have before := level_evicted kept
  have soundState := (sound.evicted other).sound_state other
  rw [evicted_cfg] at soundState
  have spent := soundState.charge charging
  simp only [admittedBy, admitting]
  by_cases own : other = key
  · subst own
    have lowered := spent.level axis enforced
    have after : RateLimiter.level
        { limiter.evicted other now with inner := (limiter.evicted other now).inner.insert other charged }
        other axis now = charged.level limiter.cfg axis now := by
      rw [level_present (AList.lookup_insert _), evicted_cfg]
    rw [after, lowered, ← before, level, evicted_cfg]
    cases deniedBy with
    | none => simp [KeyState.decision]
    | some reason => simp [KeyState.decision]
  · have after : RateLimiter.level
        { limiter.evicted other now with inner := (limiter.evicted other now).inner.insert other charged }
        key axis now = (limiter.evicted other now).level key axis now := by
      simp only [level, RateLimiter.state, HashMap.lookup_insert_if, Ne.symm own, if_false]
    rw [after, before]
    simp [own]

theorem refundTokens_eq (limiter : RateLimiter) (key : String) (amount : Nat) : limiter.refundTokens key amount = limiter ∨
    ∃ state, limiter.inner.lookup key = some state ∧ limiter.refundTokens key amount = { limiter with
      inner := limiter.inner.insert key { state with tokens := state.tokens.refund amount limiter.cfg.burstTpm } } := by
  unfold refundTokens
  split
  · exact .inl rfl
  · cases found : limiter.inner.lookup key with
    | none => exact .inl rfl
    | some state => exact .inr ⟨state, rfl, rfl⟩

theorem Sound.refund_sound (sound : limiter.Sound now) (other : String) (amount : Nat) :
    (limiter.refundTokens other amount).Sound now := by
  rcases limiter.refundTokens_eq other amount with same | ⟨state, found, refunded⟩
  · rw [same]
    exact sound
  · have held := sound.state other state found
    rw [refunded]
    refine ⟨sound.scrubbed, ?_⟩
    intro name state' found'
    rw [HashMap.lookup_insert_if] at found'
    split at found'
    · obtain rfl := Option.some.inj found'
      constructor
      rintro (_ | _)
      · exact held.bucket .requests
      · exact (held.bucket .tokens).refund (Nat.cast_nonneg amount)
    · exact sound.state name state' found'

theorem Sound.refund_level (sound : limiter.Sound now) (key other : String) (axis : Axis) (amount : Nat) :
    (limiter.refundTokens other amount).level key axis now ≤
      limiter.level key axis now + limiter.refundedBy key axis ⟨now, .refundTokens other amount⟩ := by
  simp only [refundedBy]
  rcases limiter.refundTokens_eq other amount with same | ⟨state, found, refunded⟩
  · rw [same]
    simp
  · rw [refunded]
    by_cases own : key = other
    · subst own
      have held := sound.state key state found
      simp only [level, RateLimiter.state, AList.lookup_insert, found, Option.getD_some]
      cases axis with
      | requests => simp
      | tokens => exact (held.bucket .tokens).level_refund (Nat.cast_nonneg amount)
    · simp [level, RateLimiter.state, HashMap.lookup_insert_if, own]

theorem refundTokens_cfg (limiter : RateLimiter) (key : String) (amount : Nat) :
    (limiter.refundTokens key amount).cfg = limiter.cfg := by
  rcases limiter.refundTokens_eq key amount with same | ⟨state, -, refunded⟩
  · rw [same]
  · rw [refunded]

theorem advance_cfg (enabled : limiter.cfg.isEnabled = true) (timed : TimedCall) :
    (limiter.advance timed).cfg = limiter.cfg := by
  unfold advance
  cases timed.call with
  | admitRequest key estimatedTokens =>
    obtain ⟨charged, deniedBy, -, admitting⟩ := admit_eq enabled key estimatedTokens timed.now
    simp only [admitting, evicted_cfg]
  | refundTokens key amount => exact limiter.refundTokens_cfg key amount

theorem Sound.advance {timed : TimedCall} (sound : limiter.Sound timed.now) (enabled : limiter.cfg.isEnabled = true) :
    (limiter.advance timed).Sound timed.now := by
  obtain ⟨now, call⟩ := timed
  cases call with
  | admitRequest other estimatedTokens => exact sound.admit_sound enabled other estimatedTokens
  | refundTokens other amount => exact sound.refund_sound other amount

theorem Sound.advance_level {timed : TimedCall} (sound : limiter.Sound timed.now)
    (enforced : 0 < limiter.cfg.perMinute axis) (kept : ¬limiter.Forgets key axis timed) :
    limiter.admittedBy key axis timed - limiter.refundedBy key axis timed +
      (limiter.advance timed).level key axis timed.now ≤ limiter.level key axis timed.now := by
  obtain ⟨now, call⟩ := timed
  cases call with
  | admitRequest other estimatedTokens =>
    have lowered := sound.admit_level enforced kept
    simp only [refundedBy, sub_zero, RateLimiter.advance]
    exact lowered.le
  | refundTokens other amount =>
    have raised := sound.refund_level key other axis amount
    simp only [admittedBy, RateLimiter.advance]
    linarith

end RateLimiter

end Metrale.Server
