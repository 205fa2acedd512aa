import Metrale.Server.RateWindows

/-! # What a denial tells the client

A denial leaves the levels to the refill, and reports when the bucket that denied the request will be full.  What the
other bucket holds then, and whether a full bucket holds the cost, it does not look at. -/

namespace Metrale.Server

open Metrale.Foundation

namespace Bucket

variable {bucket : Bucket} {rate now later : ℚ} {burst : Nat}

theorem Sound.level_from (sound : bucket.Sound burst now) (rate_nonneg : 0 ≤ rate) (le : now ≤ later) :
    bucket.level rate burst later = min (bucket.level rate burst now + (later - now) * rate) burst := by
  have refill := mul_nonneg (sub_nonneg.mpr le) rate_nonneg
  have whole : (later - bucket.lastRefill) * rate = (now - bucket.lastRefill) * rate + (later - now) * rate := by ring
  simp only [level, sound.elapsed, (sound.mono le).elapsed]
  rw [whole, ← add_assoc, ← min_add_add_right, min_assoc]
  congr 1
  exact (min_eq_right (le_add_of_nonneg_right refill)).symm

theorem Sound.level_mono (sound : bucket.Sound burst now) (rate_nonneg : 0 ≤ rate) (le : now ≤ later) :
    bucket.level rate burst now ≤ bucket.level rate burst later := by
  rw [sound.level_from rate_nonneg le]
  have refill := mul_nonneg (sub_nonneg.mpr le) rate_nonneg
  exact le_min (le_add_of_nonneg_right refill) (bucket.level_le rate burst now)

theorem Sound.level_full (sound : bucket.Sound burst now) (rate_pos : 0 < rate)
    (waited : now + ⌈(burst - bucket.level rate burst now) / rate⌉₊ ≤ later) : bucket.level rate burst later = burst := by
  have enough : (burst - bucket.level rate burst now) / rate ≤ later - now := by
    have ceiling := Nat.le_ceil ((burst - bucket.level rate burst now) / rate)
    linarith
  have le : now ≤ later := by
    have whole : (0 : ℚ) ≤ ⌈(burst - bucket.level rate burst now) / rate⌉₊ := Nat.cast_nonneg _
    linarith
  rw [sound.level_from rate_pos.le le]
  rw [div_le_iff₀ rate_pos] at enough
  exact min_eq_right (by linarith)

end Bucket

theorem RateLimitConfig.rate_pos {cfg : RateLimitConfig} {axis : Axis} (enforced : 0 < cfg.perMinute axis) :
    0 < cfg.rate axis := by
  have cast : (0 : ℚ) < cfg.perMinute axis := Nat.cast_pos.mpr enforced
  rw [rate]
  positivity

namespace KeyState

variable {cfg : RateLimitConfig} {state charged : KeyState} {now later : ℚ} {axis : Axis} {estimatedTokens : Nat}

def fullIn (cfg : RateLimitConfig) (state : KeyState) (axis : Axis) (now : ℚ) : Nat :=
  max ⌈(cfg.burst axis - state.level cfg axis now) / cfg.rate axis⌉₊ 1

structure Denied (cfg : RateLimitConfig) (state : KeyState) (estimatedTokens : Nat) (now : ℚ) (charged : KeyState)
    (axis : Axis) : Prop where
  enforced : 0 < cfg.perMinute axis
  short : state.level cfg axis now < axis.cost estimatedTokens
  paid : axis = .tokens → 0 < cfg.rpm → 1 ≤ state.level cfg .requests now
  level : ∀ other, charged.level cfg other now = state.level cfg other now
  refilled : (charged.bucket axis).lastRefill = now

theorem charge_unenforced (unenforced : ¬0 < cfg.perMinute axis) :
    (state.charge cfg estimatedTokens now).1.bucket axis = state.bucket axis := by
  unfold charge
  cases axis with
  | requests =>
    have off : ¬0 < cfg.rpm := unenforced
    simp only [off, if_false]
    grind [bucket]
  | tokens =>
    have off : ¬0 < cfg.tpm := unenforced
    simp only [off, if_false]
    grind [bucket]

theorem Sound.charge_denied (sound : state.Sound cfg now)
    (charging : state.charge cfg estimatedTokens now = (charged, some axis)) :
    state.Denied cfg estimatedTokens now charged axis := by
  have soundRequests : state.requests.Sound cfg.burstRpm now := sound.bucket .requests
  have soundTokens : state.tokens.Sound cfg.burstTpm now := sound.bucket .tokens
  have level : ∀ other, charged.level cfg other now = state.level cfg other now := by
    intro other
    by_cases enforced : 0 < cfg.perMinute other
    · simpa using (sound.charge charging).level other enforced
    · have same : (state.charge cfg estimatedTokens now).1.bucket other = state.bucket other := charge_unenforced enforced
      rw [charging] at same
      rw [KeyState.level, same, KeyState.level]
  have outcome : (axis = .requests ∧ 0 < cfg.rpm ∧ state.level cfg .requests now < 1 ∧ charged.requests.lastRefill = now) ∨
      (axis = .tokens ∧ 0 < cfg.tpm ∧ state.level cfg .tokens now < estimatedTokens ∧ charged.tokens.lastRefill = now ∧
        (0 < cfg.rpm → 1 ≤ state.level cfg .requests now)) := by
    simp only [KeyState.charge, soundRequests.tryConsume, soundTokens.tryConsume] at charging
    grind [level_requests, level_tokens]
  rcases outcome with ⟨rfl, enforced, short, refilled⟩ | ⟨rfl, enforced, short, refilled, paid⟩
  · exact ⟨enforced, short, by simp, level, refilled⟩
  · exact ⟨enforced, short, fun _ => paid, level, refilled⟩

theorem Sound.level_mono (sound : state.Sound cfg now) (axis : Axis) (le : now ≤ later) :
    state.level cfg axis now ≤ state.level cfg axis later :=
  (sound.bucket axis).level_mono (cfg.rate_nonneg axis) le

theorem Sound.level_same (sound : state.Sound cfg now) (soundCharged : charged.Sound cfg now)
    (same : charged.level cfg axis now = state.level cfg axis now) (le : now ≤ later) :
    charged.level cfg axis later = state.level cfg axis later := by
  have rate_nonneg := cfg.rate_nonneg axis
  simp only [KeyState.level] at same ⊢
  rw [(soundCharged.bucket axis).level_from rate_nonneg le, (sound.bucket axis).level_from rate_nonneg le, same]

theorem Denied.retryAfter (denied : state.Denied cfg estimatedTokens now charged axis) :
    (charged.decision cfg (some axis) now).retryAfterSecs = state.fullIn cfg axis now := by
  have rate_pos := RateLimitConfig.rate_pos denied.enforced
  have capped := (state.bucket axis).level_le (cfg.rate axis) (cfg.burst axis) now
  have same := denied.level axis
  simp only [KeyState.level] at same
  simp only [decision, advertise, Bucket.snapshot, fullIn, KeyState.level, same, if_pos rate_pos]
  rw [max_eq_left (sub_nonneg.mpr capped)]

theorem Sound.level_fullIn (sound : state.Sound cfg now) (enforced : 0 < cfg.perMinute axis)
    (waited : now + state.fullIn cfg axis now ≤ later) : state.level cfg axis later = cfg.burst axis := by
  refine (sound.bucket axis).level_full (RateLimitConfig.rate_pos enforced) (le_trans ?_ waited)
  have most : (⌈(cfg.burst axis - state.level cfg axis now) / cfg.rate axis⌉₊ : ℚ) ≤ state.fullIn cfg axis now :=
    Nat.cast_le.mpr (le_max_left _ _)
  exact add_le_add (le_refl now) most

theorem cost_le_burst (holds : 0 < cfg.tpm → estimatedTokens ≤ cfg.burstTpm) (enforced : 0 < cfg.perMinute axis) :
    axis.cost estimatedTokens ≤ cfg.burst axis := by
  cases axis with
  | requests => exact Nat.one_le_cast.mpr cfg.burstRpm_pos
  | tokens => exact Nat.cast_le.mpr (holds enforced)

end KeyState

/-! ## The same request later -/

def RateCall.identity : RateCall → String
  | .admitRequest key _ => key
  | .refundTokens key _ => key

namespace RateLimiter

variable {limiter after : RateLimiter} {key other : String} {axis : Axis} {now later : ℚ} {estimatedTokens : Nat}

def LeavesLevels (limiter : RateLimiter) (key : String) (estimatedTokens : Nat) (now : ℚ) : Prop :=
  ∀ axis later, now ≤ later →
    (limiter.admitRequest key estimatedTokens now).1.level key axis later = limiter.level key axis later

/-- The same request is admitted once the reported wait is over, whatever other identities do in between. -/
def WaitHonest (limiter : RateLimiter) (key : String) (estimatedTokens : Nat) (now : ℚ) : Prop :=
  ∀ between later, Ordered now (between ++ [⟨later, .admitRequest key estimatedTokens⟩]) →
    (∀ timed ∈ between, timed.call.identity ≠ key) →
    now + (limiter.admitRequest key estimatedTokens now).2.retryAfterSecs ≤ later →
    ((between.foldl RateLimiter.advance (limiter.admitRequest key estimatedTokens now).1).admitRequest key estimatedTokens
      later).2.allowed = true

def DenialHonest (limiter : RateLimiter) (key : String) (estimatedTokens : Nat) (now : ℚ) : Prop :=
  (limiter.admitRequest key estimatedTokens now).2.allowed = false →
    limiter.LeavesLevels key estimatedTokens now ∧ limiter.WaitHonest key estimatedTokens now

/-- Where tokens are limited, a full bucket holds the cost; and where the request bucket is short, the token bucket
holds it by the time that the request bucket is full, or both are forgotten by then. -/
def WaitEnough (limiter : RateLimiter) (key : String) (estimatedTokens : Nat) (now : ℚ) : Prop :=
  0 < limiter.cfg.tpm → estimatedTokens ≤ limiter.cfg.burstTpm ∧
    (0 < limiter.cfg.rpm → limiter.level key .requests now < 1 →
      idleEvict + scrubInterval ≤ (limiter.state key now).fullIn limiter.cfg .requests now ∨
        estimatedTokens ≤ limiter.level key .tokens (now + (limiter.state key now).fullIn limiter.cfg .requests now))

/-! ### Calls of other identities -/

/-- What they leave of an identity: its state or nothing, and nothing after a scrub that finds it idle. -/
structure Left (start : RateLimiter) (key : String) (now : ℚ) (limiter : RateLimiter) : Prop where
  lookup : limiter.inner.lookup key = start.inner.lookup key ∨ limiter.inner.lookup key = none
  scrubbed : now + idleEvict ≤ limiter.lastScrub → limiter.inner.lookup key = none

theorem Sound.left (sound : limiter.Sound now) (key : String) : limiter.Left key now limiter where
  lookup := .inl rfl
  scrubbed late := by
    have past := sound.scrubbed
    norm_num [idleEvict] at late
    exact absurd (late.trans past) (by linarith)

variable {start : RateLimiter}

theorem Left.retain (left : start.Left key now limiter) (keep : KeyState → Bool) (scrubbedAt : ℚ)
    (forgets : now + idleEvict ≤ scrubbedAt → ∀ state, start.inner.lookup key = some state → keep state = false) :
    start.Left key now { limiter with inner := HashMap.retain keep limiter.inner, lastScrub := scrubbedAt } where
  lookup := by
    simp only [HashMap.lookup_retain]
    rcases left.lookup with same | gone
    · rw [same]
      cases found : start.inner.lookup key with
      | none => simp
      | some state => cases kept : keep state <;> simp [kept]
    · simp [gone]
  scrubbed late := by
    simp only [HashMap.lookup_retain]
    rcases left.lookup with same | gone
    · rw [same]
      cases found : start.inner.lookup key with
      | none => simp
      | some state => simp [forgets late state found]
    · simp [gone]

theorem Sound.idle {state : KeyState} (sound : limiter.Sound now) (found : limiter.inner.lookup key = some state)
    (late : now + idleEvict ≤ later) : state.inUse later = false := by
  refine inUse_eq_false.mpr fun axis => ?_
  have past := ((sound.state key state found).bucket axis).past
  rw [Bucket.elapsed]
  exact le_max_of_le_left (by linarith)

theorem Left.evicted (sound : start.Sound now) (left : start.Left key now limiter) (other : String) (later : ℚ) :
    start.Left key now (limiter.evicted other later) := by
  have scrub : start.Left key now (limiter.scrubIfDue later) := by
    unfold scrubIfDue
    split
    · exact left
    · exact left.retain _ later fun late state found => sound.idle found late
  unfold RateLimiter.evicted makeRoom
  split
  · refine ⟨(scrub.retain _ now ?_).lookup, fun late => ?_⟩
    · intro late
      norm_num [idleEvict] at late
    · simp only [HashMap.lookup_retain, scrub.scrubbed late, Option.filter_none]
  · exact scrub

theorem Left.advance (sound : start.Sound now) (left : start.Left key now limiter) (enabled : limiter.cfg.isEnabled = true)
    {timed : TimedCall} (others : timed.call.identity ≠ key) : start.Left key now (limiter.advance timed) := by
  obtain ⟨later, call⟩ := timed
  cases call with
  | admitRequest other estimatedTokens =>
    have different : key ≠ other := Ne.symm others
    obtain ⟨charged, deniedBy, -, admitting⟩ := admit_eq enabled other estimatedTokens later
    have evicted := left.evicted sound other later
    simp only [RateLimiter.advance, admitting]
    refine ⟨?_, ?_⟩
    · simpa only [HashMap.lookup_insert_if, different, if_false] using evicted.lookup
    · simpa only [HashMap.lookup_insert_if, different, if_false] using evicted.scrubbed
  | refundTokens other amount =>
    have different : key ≠ other := Ne.symm others
    simp only [RateLimiter.advance]
    rcases limiter.refundTokens_eq other amount with same | ⟨state, -, refunded⟩
    · rw [same]
      exact left
    · rw [refunded]
      refine ⟨?_, ?_⟩
      · simpa only [HashMap.lookup_insert_if, different, if_false] using left.lookup
      · simpa only [HashMap.lookup_insert_if, different, if_false] using left.scrubbed

theorem Left.run (sound : start.Sound now) (left : start.Left key now limiter) (enabled : limiter.cfg.isEnabled = true)
    {between : List TimedCall} (others : ∀ timed ∈ between, timed.call.identity ≠ key) :
    start.Left key now (between.foldl RateLimiter.advance limiter) := by
  induction between generalizing limiter with
  | nil => exact left
  | cons timed between ih =>
    obtain ⟨first, rest⟩ := List.forall_mem_cons.mp others
    have cfg := advance_cfg enabled timed
    exact ih (left.advance sound enabled first) (by rw [cfg]; exact enabled) rest

theorem Left.forgotten (sound : start.Sound now) (left : start.Left key now limiter)
    (late : now + (idleEvict + scrubInterval) ≤ later) : (limiter.evicted key later).inner.lookup key = none := by
  have evicted := left.evicted sound key later
  refine evicted.scrubbed ?_
  have unscrubbed : (limiter.evicted key later).lastScrub = (limiter.scrubIfDue later).lastScrub := by
    unfold RateLimiter.evicted makeRoom
    split <;> rfl
  rw [unscrubbed, scrubIfDue]
  split
  · next early =>
    have soon := (max_lt_iff.mp early).1
    linarith
  · norm_num [scrubInterval] at late
    linarith

/-! ### Denials -/

theorem Sound.admits_iff (sound : limiter.Sound now) (enabled : limiter.cfg.isEnabled = true) (key : String)
    (estimatedTokens : Nat) : (limiter.admitRequest key estimatedTokens now).2.allowed = true ↔
      ((limiter.evicted key now).state key now).Affords limiter.cfg estimatedTokens now := by
  obtain ⟨charged, deniedBy, charging, admitting⟩ := admit_eq enabled key estimatedTokens now
  have soundState := (sound.evicted key).sound_state key
  rw [evicted_cfg] at soundState
  have spent := soundState.charge charging
  rw [admitting, ← spent.admitted]
  exact Option.isNone_iff_eq_none

theorem Sound.denied (sound : limiter.Sound now) (refused : (limiter.admitRequest key estimatedTokens now).2.allowed = false) :
    limiter.cfg.isEnabled = true ∧ ∃ charged axis,
      ((limiter.evicted key now).state key now).Denied limiter.cfg estimatedTokens now charged axis ∧
      charged.Sound limiter.cfg now ∧
      limiter.admitRequest key estimatedTokens now =
        ({ limiter.evicted key now with inner := (limiter.evicted key now).inner.insert key charged },
          charged.decision limiter.cfg (some axis) now) := by
  have enabled : limiter.cfg.isEnabled = true := by
    by_contra disabled
    rw [Bool.not_eq_true] at disabled
    simp [admitRequest, disabled, RateDecision.unlimited] at refused
  obtain ⟨charged, deniedBy, charging, admitting⟩ := admit_eq enabled key estimatedTokens now
  have soundState := (sound.evicted key).sound_state key
  rw [evicted_cfg] at soundState
  cases deniedBy with
  | none =>
    rw [admitting] at refused
    cases refused
  | some axis =>
    exact ⟨enabled, charged, axis, soundState.charge_denied charging, (soundState.charge charging).sound, admitting⟩

theorem state_absent (absent : limiter.inner.lookup key = none) (now : ℚ) : limiter.state key now = .new limiter.cfg now := by
  rw [RateLimiter.state, absent, Option.getD_none]

/-- Where a full bucket holds the cost, a denial finds a state, and the eviction has not touched it. -/
theorem denied_found {charged : KeyState} (holds : 0 < limiter.cfg.tpm → estimatedTokens ≤ limiter.cfg.burstTpm)
    (denied : ((limiter.evicted key now).state key now).Denied limiter.cfg estimatedTokens now charged axis) :
    ∃ state, limiter.inner.lookup key = some state ∧ (limiter.evicted key now).inner.lookup key = some state := by
  have present : (limiter.evicted key now).inner.lookup key ≠ none := by
    intro absent
    have short := denied.short
    rw [state_absent absent, evicted_cfg, KeyState.new_level] at short
    exact absurd (KeyState.cost_le_burst holds denied.enforced) (not_le.mpr short)
  obtain ⟨state, found⟩ := Option.ne_none_iff_exists'.mp present
  rcases limiter.evicted_lookup key key now with same | ⟨gone, -⟩
  · exact ⟨state, same ▸ found, found⟩
  · exact absurd gone present

theorem state_found {state : KeyState} (found : limiter.inner.lookup key = some state) (now : ℚ) :
    limiter.state key now = state := by
  rw [RateLimiter.state, found, Option.getD_some]

theorem Sound.denial_honest (sound : limiter.Sound now) (enough : limiter.WaitEnough key estimatedTokens now) :
    limiter.DenialHonest key estimatedTokens now := by
  intro refused
  have holds : 0 < limiter.cfg.tpm → estimatedTokens ≤ limiter.cfg.burstTpm := fun enforced => (enough enforced).1
  obtain ⟨enabled, charged, axis, denied, soundCharged, admitting⟩ := sound.denied refused
  obtain ⟨state, found, foundEvicted⟩ := denied_found holds denied
  rw [state_found foundEvicted] at denied
  have soundState := sound.state key state found
  have level : ∀ other later, now ≤ later → charged.level limiter.cfg other later = state.level limiter.cfg other later :=
    fun other later le => soundState.level_same soundCharged (denied.level other) le
  have cfg : (limiter.admitRequest key estimatedTokens now).1.cfg = limiter.cfg :=
    advance_cfg enabled ⟨now, .admitRequest key estimatedTokens⟩
  have lookup : (limiter.admitRequest key estimatedTokens now).1.inner.lookup key = some charged := by
    rw [admitting]
    exact AList.lookup_insert _
  have retryAfter : (limiter.admitRequest key estimatedTokens now).2.retryAfterSecs =
      state.fullIn limiter.cfg axis now := by
    rw [admitting, denied.retryAfter]
  refine ⟨?free, ?wait⟩
  case free =>
    intro other later le
    rw [level_present lookup, level_present found, cfg, level other later le]
  case wait =>
    intro between later ordered others waited
    rw [retryAfter] at waited
    have soundAfter := sound.admit_sound enabled key estimatedTokens
    have enabledAfter : (limiter.admitRequest key estimatedTokens now).1.cfg.isEnabled = true := by rw [cfg, enabled]
    have left := (soundAfter.left key).run soundAfter enabledAfter others
    obtain ⟨reached, -, soundThen, orderedThen, cfgThen⟩ := soundAfter.run enabledAfter ordered
    have reachedLater := (ordered_cons orderedThen).1
    have le : now ≤ later := by
      have whole : (0 : ℚ) ≤ state.fullIn limiter.cfg axis now := Nat.cast_nonneg _
      linarith
    generalize between.foldl RateLimiter.advance (limiter.admitRequest key estimatedTokens now).1 = limiterThen at *
    rw [cfg] at cfgThen
    rw [(soundThen.mono reachedLater).admits_iff (by rw [cfgThen]; exact enabled), cfgThen]
    intro other enforced
    cases foundThen : (limiterThen.evicted key later).inner.lookup key with
    | none =>
      rw [state_absent foundThen, evicted_cfg, cfgThen, KeyState.new_level]
      exact KeyState.cost_le_burst holds enforced
    | some stateThen =>
      obtain rfl : stateThen = charged := by
        have leftThen := left.evicted soundAfter key later
        rcases leftThen.lookup with same | gone
        · rw [foundThen, lookup] at same
          exact Option.some.inj same
        · rw [foundThen] at gone
          cases gone
      rw [state_found foundThen, level other later le]
      by_cases own : other = axis
      · -- the bucket that denied the request is full
        subst own
        rw [soundState.level_fullIn enforced waited]
        exact KeyState.cost_le_burst holds enforced
      · cases other with
        | requests =>
          have byTokens : axis = .tokens := by
            cases axis with
            | requests => exact absurd rfl own
            | tokens => rfl
          exact (denied.paid byTokens enforced).trans (soundState.level_mono .requests le)
        | tokens =>
          obtain rfl : axis = .requests := by
            cases axis with
            | requests => rfl
            | tokens => exact absurd rfl own
          have short := denied.short
          rw [← level_present found] at short
          have reaches := (enough enforced).2 denied.enforced short
          rw [state_found found] at reaches
          rcases reaches with forgotten | reaches
          · have late : now + (idleEvict + scrubInterval) ≤ later := by linarith
            rw [left.forgotten soundAfter late] at foundThen
            cases foundThen
          · rw [level_present found] at reaches
            have soundFull := sound.mono (le_add_of_nonneg_right (Nat.cast_nonneg (state.fullIn limiter.cfg .requests now)))
            exact reaches.trans ((soundFull.state key state found).level_mono .tokens waited)

/-! ### Waits that are too short -/

theorem ordered_now (le : now ≤ later) : Ordered now ([] ++ [⟨later, .admitRequest key estimatedTokens⟩]) := by
  simpa [Ordered] using le

theorem Sound.beyond_burst (sound : limiter.Sound now) (enforced : 0 < limiter.cfg.tpm)
    (beyond : limiter.cfg.burstTpm < estimatedTokens) (key : String) :
    (limiter.admitRequest key estimatedTokens now).2.allowed = false := by
  rw [← Bool.not_eq_true, sound.admits_iff (@RateLimitConfig.enabled _ .tokens enforced)]
  intro affords
  have most : (estimatedTokens : ℚ) ≤ limiter.cfg.burstTpm := (affords .tokens enforced).trans (Bucket.level_le _ _ _ _)
  exact absurd (Nat.cast_le.mp most) (not_le.mpr beyond)

theorem Sound.dishonest_beyond (sound : limiter.Sound now) (enforced : 0 < limiter.cfg.tpm)
    (beyond : limiter.cfg.burstTpm < estimatedTokens) : ¬limiter.DenialHonest key estimatedTokens now := by
  intro honest
  have enabled : limiter.cfg.isEnabled = true := @RateLimitConfig.enabled _ .tokens enforced
  have cfg : (limiter.admitRequest key estimatedTokens now).1.cfg = limiter.cfg :=
    advance_cfg enabled ⟨now, .admitRequest key estimatedTokens⟩
  have le : now ≤ now + (limiter.admitRequest key estimatedTokens now).2.retryAfterSecs :=
    le_add_of_nonneg_right (Nat.cast_nonneg _)
  have admitted := (honest (sound.beyond_burst enforced beyond key)).2 [] _ (ordered_now le) (by simp) (le_refl _)
  have soundThen := (sound.admit_sound enabled key estimatedTokens).mono le
  rw [List.foldl_nil, soundThen.beyond_burst (by rwa [cfg]) (by rwa [cfg])] at admitted
  cases admitted

/-- The eviction keeps an identity that is short of requests, since the idle time gives it one. -/
theorem Sound.short_kept (sound : limiter.Sound now) (enforced : 0 < limiter.cfg.rpm)
    (short : limiter.level key .requests now < 1) :
    ∃ state, limiter.inner.lookup key = some state ∧ (limiter.evicted key now).inner.lookup key = some state := by
  have least : (1 : ℚ) ≤ limiter.cfg.burst .requests := Nat.one_le_cast.mpr limiter.cfg.burstRpm_pos
  cases found : limiter.inner.lookup key with
  | none =>
    rw [level_absent found] at short
    exact absurd least (not_le.mpr short)
  | some state =>
    rcases limiter.evicted_lookup key key now with same | ⟨-, state', found', idle⟩
    · exact ⟨state, rfl, same.trans found⟩
    · obtain rfl : state = state' := Option.some.inj (found.symm.trans found')
      have waited : idleEvict ≤ state.requests.elapsed now := inUse_eq_false.mp idle .requests
      have held := ((sound.state key state found).bucket .requests).nonneg
      have slowest : (1 : ℚ) / 60 ≤ limiter.cfg.rate .requests := by
        have whole : (1 : ℚ) ≤ limiter.cfg.rpm := Nat.one_le_cast.mpr enforced
        exact div_le_div_of_nonneg_right whole (by norm_num)
      have refill : (1 : ℚ) ≤ state.requests.elapsed now * limiter.cfg.rate .requests := by
        rw [idleEvict] at waited
        calc (1 : ℚ) ≤ 600 * (1 / 60) := by norm_num
          _ ≤ state.requests.elapsed now * limiter.cfg.rate .requests :=
            mul_le_mul waited slowest (by norm_num) (by linarith)
      rw [level_present found, KeyState.level_requests] at short
      have enough : (1 : ℚ) ≤ state.requests.level (limiter.cfg.rate .requests) limiter.cfg.burstRpm now :=
        le_min (by simp only [KeyState.bucket_requests] at held; linarith) least
      exact absurd enough (not_le.mpr short)

theorem evicted_inUse {state : KeyState} (found : limiter.inner.lookup key = some state) (used : state.inUse now = true)
    (other : String) : (limiter.evicted other now).inner.lookup key = some state := by
  rcases limiter.evicted_lookup other key now with same | ⟨-, state', found', idle⟩
  · exact same.trans found
  · obtain rfl : state = state' := Option.some.inj (found.symm.trans found')
    rw [used] at idle
    cases idle

theorem evicted_settled {state : KeyState} (found : limiter.inner.lookup key = some state)
    (early : later < limiter.lastScrub + scrubInterval) : (limiter.evicted key later).inner.lookup key = some state := by
  have undue : max (later - limiter.lastScrub) 0 < scrubInterval := max_lt (by linarith) (by norm_num [scrubInterval])
  simp [RateLimiter.evicted, scrubIfDue, undue, makeRoom, found]

/-- Some traffic of others has the limiter still hold a state, two minutes after it is idle at the latest. -/
theorem Sound.exists_kept {state : KeyState} (sound : limiter.Sound now) (enabled : limiter.cfg.isEnabled = true)
    (found : limiter.inner.lookup key = some state) (used : state.requests.lastRefill = now) (le : now ≤ later)
    (soon : later < now + (idleEvict + scrubInterval)) (estimatedTokens : Nat) :
    ∃ between, Ordered now (between ++ [⟨later, .admitRequest key estimatedTokens⟩]) ∧
      (∀ timed ∈ between, timed.call.identity ≠ key) ∧
      ((between.foldl RateLimiter.advance limiter).evicted key later).inner.lookup key = some state := by
  have inUse : ∀ t, t < now + idleEvict → state.inUse t = true := by
    intro t recent
    have lately : state.requests.elapsed t < idleEvict := by
      rw [Bucket.elapsed, used]
      exact max_lt (by linarith) (by norm_num [idleEvict])
    simp [KeyState.inUse, lately]
  by_cases recent : later < now + idleEvict
  · exact ⟨[], ordered_now le, by simp, evicted_inUse found (inUse later recent) key⟩
  · -- a scrub just before the state is idle puts the next one off
    norm_num [idleEvict, scrubInterval] at soon recent
    let scrubAt := now + (later - now) / 2 + 240
    have beforeIdle : scrubAt < now + idleEvict := by
      norm_num [idleEvict, scrubAt]
      linarith
    have beforeLater : scrubAt ≤ later := by
      simp only [scrubAt]
      linarith
    have afterNow : now ≤ scrubAt := by
      simp only [scrubAt]
      linarith
    have different : key ++ "x" ≠ key := by
      intro same
      have lengths := congrArg String.length same
      simp at lengths
    refine ⟨[⟨scrubAt, .admitRequest (key ++ "x") 0⟩], ?ordered, ?others, ?kept⟩
    case ordered =>
      simp only [Ordered, List.cons_append, List.nil_append, List.map_cons, List.map_nil, List.pairwise_cons,
        List.mem_cons, List.not_mem_nil, or_false, forall_eq_or_imp, forall_eq, List.Pairwise.nil, and_true,
        IsEmpty.forall_iff, implies_true]
      exact ⟨⟨afterNow, le⟩, beforeLater⟩
    case others =>
      intro timed listed
      rw [List.mem_singleton.mp listed]
      exact different
    case kept =>
      obtain ⟨charged, deniedBy, -, admitting⟩ := admit_eq enabled (key ++ "x") 0 scrubAt
      have kept := evicted_inUse found (inUse scrubAt beforeIdle) (key ++ "x")
      have due : ¬max (scrubAt - limiter.lastScrub) 0 < scrubInterval := by
        have scrubbed := sound.scrubbed
        rw [scrubInterval, max_lt_iff, not_and_or]
        left
        simp only [scrubAt]
        linarith
      have scrubbedThen : (limiter.evicted (key ++ "x") scrubAt).lastScrub = scrubAt := by
        unfold RateLimiter.evicted makeRoom
        rw [scrubIfDue, if_neg due]
        split <;> rfl
      simp only [List.foldl_cons, List.foldl_nil, RateLimiter.advance, admitting]
      refine evicted_settled ?_ ?_
      · simpa only [HashMap.lookup_insert_if, different.symm, if_false] using kept
      · simp only [scrubbedThen, scrubInterval, scrubAt]
        linarith

/-- A request that the request bucket denies is denied again while the token bucket does not hold the cost. -/
theorem Sound.dishonest_short (sound : limiter.Sound now) (enforced : 0 < limiter.cfg.tpm) (metered : 0 < limiter.cfg.rpm)
    (short : limiter.level key .requests now < 1)
    (soon : (limiter.state key now).fullIn limiter.cfg .requests now < idleEvict + scrubInterval)
    (missing : limiter.level key .tokens (now + (limiter.state key now).fullIn limiter.cfg .requests now) <
      estimatedTokens) : ¬limiter.DenialHonest key estimatedTokens now := by
  intro honest
  have enabled : limiter.cfg.isEnabled = true := @RateLimitConfig.enabled _ .tokens enforced
  obtain ⟨state, found, foundEvicted⟩ := sound.short_kept metered short
  rw [level_present found] at short missing
  rw [state_found found] at soon missing
  have refused : (limiter.admitRequest key estimatedTokens now).2.allowed = false := by
    rw [← Bool.not_eq_true, sound.admits_iff enabled, state_found foundEvicted]
    exact fun affords => absurd (affords .requests metered) (not_le.mpr short)
  obtain ⟨-, charged, axis, denied, soundCharged, admitting⟩ := sound.denied refused
  rw [state_found foundEvicted] at denied
  obtain rfl : axis = .requests := by
    cases axis with
    | requests => rfl
    | tokens => exact absurd (denied.paid rfl metered) (not_le.mpr short)
  have cfg : (limiter.admitRequest key estimatedTokens now).1.cfg = limiter.cfg :=
    advance_cfg enabled ⟨now, .admitRequest key estimatedTokens⟩
  have lookup : (limiter.admitRequest key estimatedTokens now).1.inner.lookup key = some charged := by
    rw [admitting]
    exact AList.lookup_insert _
  have le : now ≤ now + state.fullIn limiter.cfg .requests now := le_add_of_nonneg_right (Nat.cast_nonneg _)
  have soundAfter := sound.admit_sound enabled key estimatedTokens
  have enabledAfter : (limiter.admitRequest key estimatedTokens now).1.cfg.isEnabled = true := by rw [cfg, enabled]
  obtain ⟨between, ordered, others, kept⟩ :=
    soundAfter.exists_kept enabledAfter lookup denied.refilled le (by linarith) estimatedTokens
  have waited : now + (limiter.admitRequest key estimatedTokens now).2.retryAfterSecs ≤
      now + state.fullIn limiter.cfg .requests now := by
    rw [admitting, denied.retryAfter]
  have admitted := (honest refused).2 between _ ordered others waited
  obtain ⟨reached, -, soundThen, orderedThen, cfgThen⟩ := soundAfter.run enabledAfter ordered
  generalize between.foldl RateLimiter.advance (limiter.admitRequest key estimatedTokens now).1 = limiterThen at *
  rw [cfg] at cfgThen
  rw [(soundThen.mono (ordered_cons orderedThen).1).admits_iff (by rw [cfgThen]; exact enabled), cfgThen,
    state_found kept] at admitted
  have affordable := admitted .tokens enforced
  rw [(sound.state key state found).level_same soundCharged (denied.level .tokens) le] at affordable
  exact absurd affordable (not_le.mpr missing)

def modest : RateLimitConfig := ⟨1, 100, 1, 100, Nat.zero_lt_one, by decide⟩

end RateLimiter

end Metrale.Server
