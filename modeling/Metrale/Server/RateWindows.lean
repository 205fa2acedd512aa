import Metrale.Server.RateBound

/-! # What a window admits

Over any window the net cost admitted comes out of one burst and the rate, unless an eviction in the window forgets a
bucket that is not full.  Whether one can is a matter of the configuration alone. -/

namespace Metrale.Server

open Metrale.Foundation

namespace RateLimiter

variable {limiter : RateLimiter} {key other : String} {axis : Axis} {now later : ℚ} {estimatedTokens amount : Nat}

/-! ## Windows of a run -/

def Ordered (start : ℚ) (calls : List TimedCall) : Prop := (start :: calls.map (·.now)).Pairwise (· ≤ ·)

def Remembers (limiter : RateLimiter) (key : String) (axis : Axis) (calls : List TimedCall) : Prop :=
  ∀ earlier timed later, calls = earlier ++ timed :: later →
    ¬(earlier.foldl RateLimiter.advance limiter).Forgets key axis timed

/-- In every window of the run the net cost admitted is at most the burst and what the rate gives over the window. -/
def Bounded (limiter : RateLimiter) (key : String) (axis : Axis) (calls : List TimedCall) : Prop :=
  ∀ earlier window later, calls = earlier ++ window ++ later → ∀ s t, s ≤ t →
    (∀ timed ∈ window, s ≤ timed.now ∧ timed.now ≤ t) →
    (earlier.foldl RateLimiter.advance limiter).netAdmitted key axis window ≤
      limiter.cfg.burst axis + limiter.cfg.rate axis * (t - s)

theorem ordered_cons {start : ℚ} {timed : TimedCall} {calls : List TimedCall} (ordered : Ordered start (timed :: calls)) :
    start ≤ timed.now ∧ Ordered timed.now calls := by
  rw [Ordered, List.map_cons, List.pairwise_cons] at ordered
  exact ⟨ordered.1 _ List.mem_cons_self, ordered.2⟩

theorem Remembers.head {timed : TimedCall} {calls : List TimedCall} (remembers : limiter.Remembers key axis (timed :: calls)) :
    ¬limiter.Forgets key axis timed :=
  remembers [] timed calls rfl

theorem Remembers.tail {timed : TimedCall} {calls : List TimedCall} (remembers : limiter.Remembers key axis (timed :: calls)) :
    (limiter.advance timed).Remembers key axis calls := by
  intro earlier other later split
  exact remembers (timed :: earlier) other later (by rw [split, List.cons_append])

/-- From a given instant on, the net cost admitted comes out of the level and the rate. -/
theorem Sound.netAdmitted_le (enforced : 0 < limiter.cfg.perMinute axis) {t : ℚ} {window : List TimedCall}
    (sound : limiter.Sound now) (ordered : Ordered now window) (inside : ∀ timed ∈ window, timed.now ≤ t) (le : now ≤ t)
    (remembers : limiter.Remembers key axis window) :
    limiter.netAdmitted key axis window ≤ limiter.level key axis now + limiter.cfg.rate axis * (t - now) := by
  induction window generalizing limiter now with
  | nil =>
    have level := sound.level_nonneg key axis
    have refill := mul_nonneg (limiter.cfg.rate_nonneg axis) (sub_nonneg.mpr le)
    rw [netAdmitted]
    linarith
  | cons timed window ih =>
    obtain ⟨first, rest⟩ := ordered_cons ordered
    have enabled := RateLimitConfig.enabled enforced
    have cfg := advance_cfg enabled timed
    have soundThen := sound.mono first
    have enforcedThen : 0 < (limiter.advance timed).cfg.perMinute axis := by rw [cfg]; exact enforced
    have later := ih enforcedThen (soundThen.advance enabled) rest (fun other listed => inside other (List.mem_cons_of_mem _ listed))
      (inside timed List.mem_cons_self) remembers.tail
    have taken := soundThen.advance_level enforced remembers.head
    have waited := sound.level_later first key axis
    rw [cfg] at later
    rw [netAdmitted]
    linarith

/-- A stretch of a run starts from a sound limiter, with the readings of the stretch still to come. -/
theorem Sound.run {earlier window : List TimedCall} (enabled : limiter.cfg.isEnabled = true) (sound : limiter.Sound now)
    (ordered : Ordered now (earlier ++ window)) :
    ∃ reached ∈ now :: earlier.map (·.now), (earlier.foldl RateLimiter.advance limiter).Sound reached ∧
      Ordered reached window ∧ (earlier.foldl RateLimiter.advance limiter).cfg = limiter.cfg := by
  induction earlier generalizing limiter now with
  | nil => exact ⟨now, List.mem_cons_self, sound, ordered, rfl⟩
  | cons timed earlier ih =>
    obtain ⟨first, rest⟩ := ordered_cons ordered
    have cfg := advance_cfg enabled timed
    have enabledThen : (limiter.advance timed).cfg.isEnabled = true := by rw [cfg]; exact enabled
    obtain ⟨reached, among, soundThen, orderedThen, cfgThen⟩ :=
      ih enabledThen ((sound.mono first).advance enabled) rest
    exact ⟨reached, List.mem_cons_of_mem _ among, soundThen, orderedThen, cfgThen.trans cfg⟩

theorem Sound.bounded (enforced : 0 < limiter.cfg.perMinute axis) {calls : List TimedCall} (sound : limiter.Sound now)
    (ordered : Ordered now calls) (remembers : limiter.Remembers key axis calls) : limiter.Bounded key axis calls := by
  rintro earlier window later rfl s t le inside
  have orderedWindow : Ordered now (earlier ++ window) := by
    refine ordered.sublist (.cons_cons _ (List.Sublist.map _ ?_))
    exact List.sublist_append_left _ _
  obtain ⟨reached, -, soundThen, orderedThen, cfg⟩ := sound.run (RateLimitConfig.enabled enforced) orderedWindow
  have rate_nonneg := limiter.cfg.rate_nonneg axis
  cases window with
  | nil =>
    have refill := mul_nonneg rate_nonneg (sub_nonneg.mpr le)
    have burst : (0 : ℚ) ≤ limiter.cfg.burst axis := Nat.cast_nonneg _
    rw [netAdmitted]
    linarith
  | cons timed window =>
    obtain ⟨first, rest⟩ := ordered_cons orderedThen
    obtain ⟨since, till⟩ := inside timed List.mem_cons_self
    have remembersThen : (earlier.foldl RateLimiter.advance limiter).Remembers key axis (timed :: window) := by
      intro before other after split
      have forgotten := remembers (earlier ++ before) other (after ++ later) (by simp [split])
      rwa [List.foldl_append] at forgotten
    have orderedNow : Ordered timed.now (timed :: window) := by
      rw [Ordered, List.map_cons, List.pairwise_cons]
      refine ⟨?_, rest⟩
      intro reading listed
      rcases List.mem_cons.mp listed with rfl | listed
      · exact le_refl _
      · exact (List.pairwise_cons.mp rest).1 reading listed
    have most := (soundThen.mono first).netAdmitted_le (by rw [cfg]; exact enforced) orderedNow
      (fun other listed => (inside other listed).2) till remembersThen
    have full := (earlier.foldl RateLimiter.advance limiter).level_le key axis timed.now
    rw [cfg] at most full
    have wider := mul_le_mul_of_nonneg_left (sub_le_sub_left since t) rate_nonneg
    linarith

/-! ## Where eviction gives a burst away -/

theorem Sound.not_forgets {timed : TimedCall} (sound : limiter.Sound timed.now)
    (fills : limiter.cfg.burst axis ≤ 10 * limiter.cfg.perMinute axis) : ¬limiter.Forgets key axis timed := by
  obtain ⟨now, call⟩ := timed
  cases call with
  | refundTokens other amount => exact id
  | admitRequest other estimatedTokens =>
    rintro ⟨state, found, gone, short⟩
    rcases limiter.evicted_lookup other key now with same | ⟨-, state', found', idle⟩
    · rw [same, found] at gone
      cases gone
    · obtain rfl : state = state' := Option.some.inj (found.symm.trans found')
      have fillsThen : (limiter.cfg.burst axis : ℚ) ≤ idleEvict * limiter.cfg.rate axis := by
        have cast : (limiter.cfg.burst axis : ℚ) ≤ 10 * limiter.cfg.perMinute axis := by exact_mod_cast fills
        rw [idleEvict, RateLimitConfig.rate]
        linarith
      have full := ((sound.state key state found).bucket axis).level_idle (limiter.cfg.rate_nonneg axis)
        (inUse_eq_false.mp idle axis) fillsThen
      rw [KeyState.level, full] at short
      exact lt_irrefl _ short

theorem Sound.remembers {calls : List TimedCall} (enforced : 0 < limiter.cfg.perMinute axis) (sound : limiter.Sound now)
    (ordered : Ordered now calls) (fills : limiter.cfg.burst axis ≤ 10 * limiter.cfg.perMinute axis) (key : String) :
    limiter.Remembers key axis calls := by
  rintro earlier timed later rfl
  obtain ⟨reached, -, soundThen, orderedThen, cfg⟩ := sound.run (RateLimitConfig.enabled enforced) ordered
  refine (soundThen.mono (ordered_cons orderedThen).1).not_forgets ?_
  rw [cfg]
  exact fills

def Recent (limiter : RateLimiter) (now : ℚ) : Prop :=
  ∀ key state, limiter.inner.lookup key = some state → ∀ axis, now ≤ (state.bucket axis).lastRefill

theorem Recent.not_idle (recent : limiter.Recent now) {state : KeyState} (found : limiter.inner.lookup key = some state) :
    state.inUse now = true := by
  rw [← Bool.not_eq_false, inUse_eq_false]
  intro idle
  have waited := idle .requests
  have refilled := recent key state found .requests
  rw [Bucket.elapsed, idleEvict, max_eq_right (sub_nonpos.mpr refilled)] at waited
  exact absurd waited (by norm_num)

theorem Recent.evicted_lookup (recent : limiter.Recent now) (other key : String) :
    (limiter.evicted other now).inner.lookup key = limiter.inner.lookup key := by
  rcases limiter.evicted_lookup other key now with same | ⟨-, state, found, idle⟩
  · exact same
  · rw [recent.not_idle found] at idle
    cases idle

theorem Recent.state (recent : limiter.Recent now) (other key : String) :
    (limiter.evicted other now).state key now = limiter.state key now := by
  rw [RateLimiter.state, recent.evicted_lookup, evicted_cfg]
  rfl

theorem Sound.admits (sound : limiter.Sound now) (recent : limiter.Recent now) (enabled : limiter.cfg.isEnabled = true)
    (affords : (limiter.state key now).Affords limiter.cfg estimatedTokens now) (axis : Axis) :
    limiter.admittedBy key axis ⟨now, .admitRequest key estimatedTokens⟩ = axis.cost estimatedTokens ∧
      (limiter.admitRequest key estimatedTokens now).1.Recent now := by
  obtain ⟨charged, deniedBy, charging, admitting⟩ := admit_eq enabled key estimatedTokens now
  rw [recent.state] at charging
  have spent := (sound.sound_state key).charge charging
  obtain rfl := spent.admitted.mpr affords
  constructor
  · simp [admittedBy, admitting, KeyState.decision]
  · rw [admitting]
    intro name state found axis
    rw [HashMap.lookup_insert_if, recent.evicted_lookup] at found
    split at found
    · obtain rfl := Option.some.inj found
      rcases spent.refilled axis with before | refilledNow
      · rw [before, RateLimiter.state]
        cases held : limiter.inner.lookup key with
        | none =>
          rw [Option.getD_none, KeyState.new_bucket]
          exact le_refl now
        | some state => exact recent key state held axis
      · exact refilledNow.ge
    · exact recent name state found axis

theorem Sound.drain (sound : limiter.Sound now) (recent : limiter.Recent now) (enabled : limiter.cfg.isEnabled = true)
    (count : Nat) (holds : ∀ axis, 0 < limiter.cfg.perMinute axis →
      count * axis.cost estimatedTokens ≤ limiter.level key axis now) (axis : Axis) :
    limiter.netAdmitted key axis (.replicate count ⟨now, .admitRequest key estimatedTokens⟩) =
      count * axis.cost estimatedTokens := by
  induction count generalizing limiter with
  | zero => simp [netAdmitted]
  | succ count ih =>
    have cost_nonneg : ∀ other : Axis, 0 ≤ other.cost estimatedTokens := by
      rintro (_ | _)
      · exact zero_le_one
      · exact Nat.cast_nonneg estimatedTokens
    have affords : (limiter.state key now).Affords limiter.cfg estimatedTokens now := by
      intro other enforced
      have all := holds other enforced
      have rest := mul_nonneg (Nat.cast_nonneg count : (0 : ℚ) ≤ count) (cost_nonneg other)
      push_cast at all
      rw [level] at all
      linarith
    obtain ⟨admitted, recentThen⟩ := sound.admits recent enabled affords axis
    have cfg : (limiter.admitRequest key estimatedTokens now).1.cfg = limiter.cfg :=
      advance_cfg enabled ⟨now, .admitRequest key estimatedTokens⟩
    have holdsThen : ∀ other, 0 < (limiter.admitRequest key estimatedTokens now).1.cfg.perMinute other →
        count * other.cost estimatedTokens ≤ (limiter.admitRequest key estimatedTokens now).1.level key other now := by
      intro other enforced
      rw [cfg] at enforced
      have all := holds other enforced
      have kept : ¬limiter.Forgets key other ⟨now, .admitRequest key estimatedTokens⟩ := by
        rintro ⟨state, found, gone, -⟩
        rw [recent.evicted_lookup, found] at gone
        cases gone
      have lowered := sound.admit_level enforced kept
      rw [(sound.admits recent enabled affords other).1] at lowered
      push_cast at all
      linarith
    have rest := ih (sound.admit_sound enabled key estimatedTokens) recentThen
      (by rw [cfg]; exact enabled) holdsThen
    rw [List.replicate_succ, netAdmitted, admitted]
    simp only [refundedBy, RateLimiter.advance, sub_zero]
    rw [rest]
    push_cast
    ring

theorem Sound.scrub_forgets (sound : limiter.Sound now) (waited : now + idleEvict ≤ later) (key : String) :
    (limiter.scrubIfDue later).inner.lookup key = none := by
  have due : ¬max (later - limiter.lastScrub) 0 < scrubInterval := by
    have scrubbed := sound.scrubbed
    rw [idleEvict] at waited
    rw [scrubInterval, max_lt_iff, not_and_or]
    left
    linarith
  rw [scrubIfDue, if_neg due, HashMap.lookup_retain]
  cases found : limiter.inner.lookup key with
  | none => rfl
  | some state =>
    have idle : state.inUse later = false := by
      refine inUse_eq_false.mpr fun axis => ?_
      have past := ((sound.state key state found).bucket axis).past
      rw [Bucket.elapsed]
      exact le_max_of_le_left (by linarith)
    simp [idle]

theorem scrubIfDue_cfg (limiter : RateLimiter) (now : ℚ) : (limiter.scrubIfDue now).cfg = limiter.cfg := by
  unfold scrubIfDue
  split <;> rfl

theorem scrubIfDue_twice (limiter : RateLimiter) (now : ℚ) :
    (limiter.scrubIfDue now).scrubIfDue now = limiter.scrubIfDue now := by
  by_cases early : max (now - limiter.lastScrub) 0 < scrubInterval
  · simp only [scrubIfDue, if_pos early]
  · have again : max (now - now) 0 < scrubInterval := by
      rw [sub_self, max_self, scrubInterval]
      norm_num
    simp only [scrubIfDue, if_neg early, if_pos again]

theorem admit_scrubbed (limiter : RateLimiter) (key : String) (estimatedTokens : Nat) (now : ℚ) :
    (limiter.scrubIfDue now).admitRequest key estimatedTokens now = limiter.admitRequest key estimatedTokens now := by
  simp only [admitRequest, scrubIfDue_twice, scrubIfDue_cfg]

theorem Sound.scrubbed_sound (sound : limiter.Sound now) : (limiter.scrubIfDue now).Sound now := by
  unfold scrubIfDue
  split
  · exact sound
  · refine ⟨le_refl now, fun key state found => ?_⟩
    rw [HashMap.lookup_retain, Option.filter_eq_some_iff] at found
    exact sound.state key state found.1

theorem netAdmitted_append (limiter : RateLimiter) (key : String) (axis : Axis) (first second : List TimedCall) :
    limiter.netAdmitted key axis (first ++ second) = limiter.netAdmitted key axis first +
      (first.foldl RateLimiter.advance limiter).netAdmitted key axis second := by
  induction first generalizing limiter with
  | nil => simp [netAdmitted]
  | cons timed first ih =>
    rw [List.cons_append, netAdmitted, netAdmitted, ih, List.foldl_cons, add_assoc]

theorem exists_draining (cfg : RateLimitConfig) (axis : Axis) : ∃ count estimatedTokens : Nat, 0 < count ∧
    (∀ other : Axis, count * other.cost estimatedTokens ≤ cfg.burst other) ∧
    count * axis.cost estimatedTokens = cfg.burst axis := by
  cases axis with
  | requests =>
    refine ⟨cfg.burstRpm, 0, cfg.burstRpm_pos, ?_, by simp [Axis.cost, RateLimitConfig.burst]⟩
    rintro (_ | _)
    · simp [Axis.cost, RateLimitConfig.burst]
    · simp [Axis.cost]
  | tokens =>
    refine ⟨1, cfg.burstTpm, Nat.zero_lt_one, ?_, by simp [Axis.cost, RateLimitConfig.burst]⟩
    rintro (_ | _)
    · have least : (1 : ℚ) ≤ cfg.burstRpm := by exact_mod_cast cfg.burstRpm_pos
      simpa [Axis.cost, RateLimitConfig.burst] using least
    · simp [Axis.cost, RateLimitConfig.burst]

theorem exists_two_bursts (cfg : RateLimitConfig) (axis : Axis) (enforced : 0 < cfg.perMinute axis) (key : String) :
    ∃ calls, Ordered 0 calls ∧ (∀ timed ∈ calls, 0 ≤ timed.now ∧ timed.now ≤ idleEvict) ∧
      (new cfg 0).netAdmitted key axis calls = cfg.burst axis + cfg.burst axis := by
  obtain ⟨count, estimatedTokens, positive, affordable, uses⟩ := exists_draining cfg axis
  have enabled := RateLimitConfig.enabled enforced
  let request (now : ℚ) : TimedCall := ⟨now, .admitRequest key estimatedTokens⟩
  have idle_nonneg : 0 ≤ idleEvict := by norm_num [idleEvict]
  have ordered : Ordered 0 (.replicate count (request 0) ++ .replicate count (request idleEvict)) := by
    simp only [Ordered, List.map_append, List.map_replicate, List.pairwise_cons, List.pairwise_append,
      List.pairwise_replicate, List.mem_append, List.mem_replicate, request]
    grind
  refine ⟨_, ordered, ?inside, ?net⟩
  case inside =>
    intro timed listed
    simp only [List.mem_append, List.mem_replicate, request] at listed
    rcases listed with ⟨-, rfl⟩ | ⟨-, rfl⟩
    · exact ⟨le_refl _, idle_nonneg⟩
    · exact ⟨idle_nonneg, le_refl _⟩
  case net =>
    have sound := new_sound cfg 0
    obtain ⟨reached, among, soundThen, -, cfgThen⟩ := sound.run enabled ordered
    obtain rfl : reached = 0 := by
      rcases List.mem_cons.mp among with first | listed
      · exact first
      · simp only [List.map_replicate, List.mem_replicate, request] at listed
        exact listed.2
    rw [netAdmitted_append]
    congr 1
    · have affords : ∀ other, 0 < (new cfg 0).cfg.perMinute other →
          count * other.cost estimatedTokens ≤ (new cfg 0).level key other 0 := by
        intro other _
        rw [level_absent (by simp [new])]
        exact affordable other
      rw [sound.drain (by simp [Recent, new]) enabled count affords axis, uses]
    · -- by the second, the drained buckets are forgotten
      generalize (List.replicate count (request 0)).foldl RateLimiter.advance (new cfg 0) = drained at *
      have gone := soundThen.scrub_forgets (zero_add idleEvict).le
      have soundScrubbed := (soundThen.mono idle_nonneg).scrubbed_sound
      have cfgScrubbed := (drained.scrubIfDue_cfg idleEvict).trans cfgThen
      have scrubbed : drained.netAdmitted key axis (.replicate count (request idleEvict)) =
          (drained.scrubIfDue idleEvict).netAdmitted key axis (.replicate count (request idleEvict)) := by
        obtain ⟨rest, rfl⟩ := Nat.exists_eq_succ_of_ne_zero positive.ne'
        simp only [List.replicate_succ, netAdmitted, RateLimiter.advance, admittedBy, refundedBy, request,
          admit_scrubbed]
      have recent : (drained.scrubIfDue idleEvict).Recent idleEvict := by
        intro name state found
        rw [gone] at found
        cases found
      have affords : ∀ other, 0 < (drained.scrubIfDue idleEvict).cfg.perMinute other →
          count * other.cost estimatedTokens ≤ (drained.scrubIfDue idleEvict).level key other idleEvict := by
        intro other _
        rw [level_absent (gone key), cfgScrubbed]
        exact affordable other
      rw [scrubbed, soundScrubbed.drain recent (by rw [cfgScrubbed]; exact enabled) count affords axis, uses]

/-- Each enforced bucket bounds what an identity is admitted with in every window of every run that forgets no bucket
of the identity before it is full.  No run forgets one exactly when the burst is at most ten minutes of the rate. -/
theorem bounded_iff (cfg : RateLimitConfig) (axis : Axis) (enforced : 0 < cfg.perMinute axis) :
    (∀ start calls key, Ordered start calls → (new cfg start).Remembers key axis calls →
      (new cfg start).Bounded key axis calls) ∧
    ((∀ start calls key, Ordered start calls → (new cfg start).Bounded key axis calls) ↔
      cfg.burst axis ≤ 10 * cfg.perMinute axis) := by
  have remembered : ∀ start calls key, Ordered start calls → (new cfg start).Remembers key axis calls →
      (new cfg start).Bounded key axis calls :=
    fun start calls key ordered remembers => (new_sound cfg start).bounded enforced ordered remembers
  refine ⟨remembered, ?needed, ?enough⟩
  case enough =>
    intro fills start calls key ordered
    exact remembered start calls key ordered ((new_sound cfg start).remembers enforced ordered fills key)
  case needed =>
    intro bounded
    obtain ⟨calls, ordered, inside, net⟩ := exists_two_bursts cfg axis enforced ""
    have most := bounded 0 calls "" ordered [] calls [] (by simp) 0 idleEvict (by norm_num [idleEvict]) inside
    rw [List.foldl_nil, net] at most
    have cast : (cfg.burst axis : ℚ) ≤ (10 * cfg.perMinute axis : Nat) := by
      simp only [new, RateLimitConfig.rate, idleEvict] at most
      push_cast
      linarith
    exact_mod_cast cast

def bursty : RateLimitConfig := ⟨0, 60, 1, 1500, Nat.zero_lt_one, by decide⟩

/-- A burst at once, and a burst after ten minutes. -/
theorem two_bursts_in_ten_minutes : ¬∀ (cfg : RateLimitConfig) (axis : Axis) (start : ℚ) (calls : List TimedCall)
    (key : String), 0 < cfg.perMinute axis → Ordered start calls → (new cfg start).Bounded key axis calls := by
  intro bounded
  have most := bounded bursty .tokens 0 [⟨0, .admitRequest "client" 1500⟩, ⟨600, .admitRequest "client" 1500⟩] "client" (by decide)
    (by simp [Ordered]) [] [⟨0, .admitRequest "client" 1500⟩, ⟨600, .admitRequest "client" 1500⟩] [] rfl 0 600 (by norm_num) (by simp)
  have net : (new bursty 0).netAdmitted "client" .tokens
      [⟨0, .admitRequest "client" 1500⟩, ⟨600, .admitRequest "client" 1500⟩] = 3000 := by
    decide +kernel
  rw [List.foldl_nil, net] at most
  norm_num [new, bursty, RateLimitConfig.burst, RateLimitConfig.rate, RateLimitConfig.perMinute] at most

theorem bounded_within_bursts :
    (∀ start calls key, Ordered start calls → (new bursty start).Remembers key .tokens calls →
      (new bursty start).Bounded key .tokens calls) ∧
    ((∀ start calls key, Ordered start calls → (new bursty start).Bounded key .tokens calls) ↔
      bursty.burst .tokens ≤ 10 * bursty.perMinute .tokens) :=
  bounded_iff bursty .tokens (by decide)

end RateLimiter

end Metrale.Server
