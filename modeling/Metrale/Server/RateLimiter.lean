import Mathlib.Data.Rat.Floor
import Metrale.Foundation.HashMap

/-! # The rate limiter (`rate_limiter.rs`)

One bucket of requests and one of tokens for each identity.  Instants, rates and budgets are exact rationals, and a
call reads the clock once. -/

namespace Metrale.Server

open Metrale.Foundation

/-- `DenialReason`: what a bucket is metered in. -/
inductive Axis where
  | requests
  | tokens
deriving DecidableEq

structure RateLimitConfig where
  rpm : Nat
  tpm : Nat
  burstRpm : Nat
  burstTpm : Nat
  burstRpm_pos : 0 < burstRpm
  burstTpm_pos : 0 < burstTpm

namespace RateLimitConfig

/-- `from_raw`, once the four variables are parsed. -/
def fromRaw (rpm tpm burstRpm burstTpm : Option Nat) : RateLimitConfig where
  rpm := rpm.getD 0
  tpm := tpm.getD 0
  burstRpm := max (burstRpm.getD (rpm.getD 0)) 1
  burstTpm := max (burstTpm.getD (tpm.getD 0)) 1
  burstRpm_pos := lt_max_of_lt_right Nat.zero_lt_one
  burstTpm_pos := lt_max_of_lt_right Nat.zero_lt_one

def isEnabled (cfg : RateLimitConfig) : Bool := decide (0 < cfg.rpm) || decide (0 < cfg.tpm)

def perMinute (cfg : RateLimitConfig) : Axis → Nat
  | .requests => cfg.rpm
  | .tokens => cfg.tpm

def burst (cfg : RateLimitConfig) : Axis → Nat
  | .requests => cfg.burstRpm
  | .tokens => cfg.burstTpm

def rate (cfg : RateLimitConfig) (axis : Axis) : ℚ := cfg.perMinute axis / 60

/-- `advertised_rpm`, `advertised_tpm` -/
def advertised (cfg : RateLimitConfig) (axis : Axis) : Nat :=
  if 0 < cfg.perMinute axis then cfg.burst axis
  else match axis with
    | .requests => 1000000
    | .tokens => 1000000000

/-- `advertised_remaining_rpm`, `advertised_remaining_tpm` -/
def advertisedRemaining (cfg : RateLimitConfig) (axis : Axis) (available : Nat) : Nat :=
  if 0 < cfg.perMinute axis then available
  else match axis with
    | .requests => 999999
    | .tokens => 999999999

end RateLimitConfig

structure BucketSnapshot where
  limit : Nat
  remaining : Nat
  resetSecs : Nat
deriving DecidableEq

structure RateDecision where
  allowed : Bool
  requests : BucketSnapshot
  tokens : BucketSnapshot
  retryAfterSecs : Nat
  deniedBy : Option Axis
deriving DecidableEq

/-! ## Buckets -/

structure Bucket where
  available : ℚ
  lastRefill : ℚ
deriving DecidableEq

namespace Bucket

def new (burst : Nat) (now : ℚ) : Bucket := ⟨burst, now⟩

/-- `saturating_duration_since` -/
def elapsed (bucket : Bucket) (now : ℚ) : ℚ := max (now - bucket.lastRefill) 0

/-- The budget at an instant, whether or not the bucket is refilled then. -/
def level (bucket : Bucket) (rate : ℚ) (burst : Nat) (now : ℚ) : ℚ :=
  min (bucket.available + bucket.elapsed now * rate) burst

def tryConsume (bucket : Bucket) (cost rate : ℚ) (burst : Nat) (now : ℚ) : Bucket × Bool :=
  let refilled := if 0 < bucket.elapsed now then ⟨bucket.level rate burst now, now⟩ else bucket
  if cost ≤ refilled.available then ({ refilled with available := refilled.available - cost }, true)
  else (refilled, false)

def snapshot (bucket : Bucket) (rate : ℚ) (burst : Nat) (now : ℚ) : ℚ × Nat :=
  let available := bucket.level rate burst now
  let deficit := max (burst - available) 0
  (available, if 0 < rate then ⌈deficit / rate⌉₊ else 0)

def refund (bucket : Bucket) (amount : ℚ) (burst : Nat) : Bucket :=
  { bucket with available := min (bucket.available + amount) burst }

end Bucket

structure KeyState where
  requests : Bucket
  tokens : Bucket
deriving DecidableEq

namespace KeyState

def new (cfg : RateLimitConfig) (now : ℚ) : KeyState := ⟨.new cfg.burstRpm now, .new cfg.burstTpm now⟩

def bucket (state : KeyState) : Axis → Bucket
  | .requests => state.requests
  | .tokens => state.tokens

/-- The debits of `admit`, and the bucket that denies the request.  A request that the token bucket denies is given
back. -/
def charge (cfg : RateLimitConfig) (state : KeyState) (estimatedTokens : Nat) (now : ℚ) : KeyState × Option Axis :=
  let (requests, reqAllowed) :=
    if 0 < cfg.rpm then state.requests.tryConsume 1 (cfg.rate .requests) cfg.burstRpm now else (state.requests, true)
  if !reqAllowed then ({ state with requests }, some .requests)
  else
    let (tokens, tokAllowed) :=
      if 0 < cfg.tpm then state.tokens.tryConsume estimatedTokens (cfg.rate .tokens) cfg.burstTpm now
      else (state.tokens, true)
    if !tokAllowed then
      (⟨if 0 < cfg.rpm then requests.refund 1 cfg.burstRpm else requests, tokens⟩, some .tokens)
    else (⟨requests, tokens⟩, none)

def advertise (cfg : RateLimitConfig) (state : KeyState) (axis : Axis) (now : ℚ) : BucketSnapshot :=
  let (available, reset) := (state.bucket axis).snapshot (cfg.rate axis) (cfg.burst axis) now
  ⟨cfg.advertised axis, cfg.advertisedRemaining axis ⌊max available 0⌋₊, reset⟩

/-- The answer of `admit`, with the headers taken from the buckets after the debits. -/
def decision (cfg : RateLimitConfig) (state : KeyState) (deniedBy : Option Axis) (now : ℚ) : RateDecision where
  allowed := deniedBy.isNone
  requests := state.advertise cfg .requests now
  tokens := state.advertise cfg .tokens now
  retryAfterSecs :=
    match deniedBy with
    | none => 0
    | some axis => max (state.advertise cfg axis now).resetSecs 1
  deniedBy := deniedBy

end KeyState

/-! ## The limiter -/

def scrubInterval : ℚ := 120

def idleEvict : ℚ := 600

def maxKeys : Nat := 100000

/-- What `retain` keeps: a state one of whose buckets was refilled lately. -/
def KeyState.inUse (now : ℚ) (state : KeyState) : Bool :=
  decide (state.requests.elapsed now < idleEvict) || decide (state.tokens.elapsed now < idleEvict)

structure RateLimiter where
  cfg : RateLimitConfig
  inner : HashMap String KeyState
  lastScrub : ℚ

def RateDecision.unlimited : RateDecision := ⟨true, ⟨1000000, 999999, 0⟩, ⟨1000000000, 999999999, 0⟩, 0, none⟩

namespace RateLimiter

def new (cfg : RateLimitConfig) (now : ℚ) : RateLimiter := ⟨cfg, ∅, now⟩

def scrubIfDue (limiter : RateLimiter) (now : ℚ) : RateLimiter :=
  if max (now - limiter.lastScrub) 0 < scrubInterval then limiter
  else { limiter with inner := HashMap.retain (KeyState.inUse now) limiter.inner, lastScrub := now }

/-- At `maxKeys`, a new key first evicts every idle key. -/
def makeRoom (limiter : RateLimiter) (key : String) (now : ℚ) : RateLimiter :=
  if maxKeys ≤ limiter.inner.entries.length && (limiter.inner.lookup key).isNone then
    { limiter with inner := HashMap.retain (KeyState.inUse now) limiter.inner }
  else limiter

/-- `map.entry(key).or_insert_with` -/
def state (limiter : RateLimiter) (key : String) (now : ℚ) : KeyState :=
  (limiter.inner.lookup key).getD (.new limiter.cfg now)

/-- `admit` -/
def admitRequest (limiter : RateLimiter) (key : String) (estimatedTokens : Nat) (now : ℚ) : RateLimiter × RateDecision :=
  let scrubbed := limiter.scrubIfDue now
  if !limiter.cfg.isEnabled then (scrubbed, .unlimited)
  else
    let roomy := scrubbed.makeRoom key now
    let (charged, deniedBy) := (roomy.state key now).charge roomy.cfg estimatedTokens now
    ({ roomy with inner := roomy.inner.insert key charged }, charged.decision roomy.cfg deniedBy now)

def refundTokens (limiter : RateLimiter) (key : String) (amount : Nat) : RateLimiter :=
  if amount = 0 || !limiter.cfg.isEnabled || limiter.cfg.tpm = 0 then limiter
  else
    match limiter.inner.lookup key with
    | none => limiter
    | some state =>
      let refunded := { state with tokens := state.tokens.refund amount limiter.cfg.burstTpm }
      { limiter with inner := limiter.inner.insert key refunded }

end RateLimiter

end Metrale.Server
