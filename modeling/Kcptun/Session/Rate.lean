/- Kcptun/Session/Rate
   source: crates/kcp/src/rate.rs (Limiter::with_burst, Limiter::reserve_n, State::advance,
     cap_at_burst, duration_from_tokens, tokens_from_duration),
     crates/kcp/src/tx.rs (TxPipeline::transmit)
   digest: The limiter of a session's tx task over exact rationals, and what one caller that waits
     out its delays can release in a window of time. -/

import Kcptun.Lib.TokenBucket
import Mathlib.Algebra.BigOperators.Ring.Finset
import Mathlib.Data.Rat.Floor
import Mathlib.Tactic.FieldSimp
import Mathlib.Tactic.Positivity

set_option autoImplicit false
set_option relaxedAutoImplicit false

namespace Kcptun.Session.Rate

open Kcptun.Lib

/-- A wait of `i64::MAX` nanoseconds. -/
def INF_DURATION : ℕ := 2 ^ 63 - 1

inductive Limit where
  | infinite
  | finite (perSecond : ℚ)
deriving DecidableEq

/-- The limiter behind its lock. Times are nanoseconds of the clock. -/
structure State where
  limit : Limit
  burst : ℚ
  tokens : ℚ
  last : Option ℕ
deriving DecidableEq

def withBurst (limit : Limit) (burst : ℕ) : State := ⟨limit, burst, burst, none⟩

def capAtBurst (tokens burst : ℚ) : ℚ := if tokens > burst then burst else tokens

def nanos (limit tokens : ℚ) : ℚ := tokens / limit * 10 ^ 9

def durationFromTokens (limit tokens : ℚ) : ℕ :=
  if limit ≤ 0 then INF_DURATION
  else if nanos limit tokens ≥ 2 ^ 63 then INF_DURATION
  else ⌊nanos limit tokens⌋₊

def tokensFromDuration (limit : ℚ) (d : ℕ) : ℚ := if limit ≤ 0 then 0 else d / 10 ^ 9 * limit

/-- Tokens available at `t`, capped at the burst. -/
def State.advance (s : State) (limit : ℚ) (t : ℕ) : ℚ :=
  match s.last with
  | none => capAtBurst s.tokens s.burst
  | some last => capAtBurst (s.tokens + tokensFromDuration limit (t - last)) s.burst

/-- Takes `n` tokens at `now`; how long to wait before they may be used. -/
def State.reserveN (s : State) (now n : ℕ) : State × ℕ :=
  match s.limit with
  | .infinite => (s, 0)
  | .finite limit =>
    let tokens := s.advance limit now - n
    let wait := if tokens < 0 then durationFromTokens limit (-tokens) else 0
    ({ s with tokens, last := some now }, wait)

structure Release where
  time : ℕ
  bytes : ℕ
deriving DecidableEq

def largest (releases : List Release) : ℕ := (releases.map Release.bytes).foldr max 0

def releasedIn (start d : ℚ) (releases : List Release) : ℕ :=
  ((releases.filter fun r => start ≤ r.time ∧ (r.time : ℚ) ≤ start + d).map Release.bytes).sum

/-- Runs of one caller from a fresh limiter: each request is made when the one before it has been
released or later, and is released when its delay is over, or up to `late` nanoseconds later. No
delay is as long as 2^63 nanoseconds. `free` is when the caller goes on. -/
inductive Paced (limit : ℚ) (burst late : ℕ) : State → ℕ → List Release → Prop where
  | start : Paced limit burst late (withBurst (.finite limit) burst) 0 []
  | reserve {s s' : State} {free now n wait time : ℕ} {releases : List Release}
      (h : Paced limit burst late s free releases) (hnow : free ≤ now)
      (hreserve : s.reserveN now n = (s', wait)) (hbelow : nanos limit (-s'.tokens) < 2 ^ 63)
      (htime : now + wait ≤ time) (hlate : time ≤ now + wait + late) :
      Paced limit burst late s' time (releases ++ [⟨time, n⟩])

/-! The limiter is a bucket -/

section Bucket

variable {limit : ℚ} {burst late : ℕ} {s : State} {free : ℕ} {releases : List Release}

private theorem capAtBurst_eq (tokens burst : ℚ) : capAtBurst tokens burst = min tokens burst := by
  rw [capAtBurst]
  by_cases h : tokens > burst
  · rw [if_pos h, min_eq_right h.le]
  · rw [if_neg h, min_eq_left (not_lt.mp h)]

private theorem durationFromTokens_spec {tokens : ℚ} (hlimit : 0 < limit) (htokens : 0 ≤ tokens)
    (hbelow : nanos limit tokens < 2 ^ 63) :
    limit / 10 ^ 9 * durationFromTokens limit tokens ≤ tokens ∧
      tokens ≤ limit / 10 ^ 9 * (durationFromTokens limit tokens + 1) := by
  have hrate : 0 < limit / 10 ^ 9 := by positivity
  have hnanos : limit / 10 ^ 9 * nanos limit tokens = tokens := by
    rw [nanos]
    field_simp
  have hnonneg : 0 ≤ nanos limit tokens := by
    rw [nanos]
    positivity
  rw [durationFromTokens, if_neg (not_le.mpr hlimit), if_neg (not_le.mpr hbelow)]
  constructor
  · calc limit / 10 ^ 9 * ⌊nanos limit tokens⌋₊ ≤ limit / 10 ^ 9 * nanos limit tokens :=
          mul_le_mul_of_nonneg_left (Nat.floor_le hnonneg) hrate.le
      _ = tokens := hnanos
  · calc tokens = limit / 10 ^ 9 * nanos limit tokens := hnanos.symm
      _ ≤ limit / 10 ^ 9 * (⌊nanos limit tokens⌋₊ + 1) :=
          mul_le_mul_of_nonneg_left (Nat.lt_floor_add_one _).le hrate.le

private theorem Paced.state (h : Paced limit burst late s free releases) :
    s.limit = .finite limit ∧ s.burst = burst ∧ ∀ last, s.last = some last → last ≤ free := by
  induction h with
  | start => exact ⟨rfl, rfl, fun last hlast => by cases hlast⟩
  | @reserve s s' free now n wait time releases h hnow hreserve hbelow htime hlate ih =>
    obtain ⟨hlimit, hburst, -⟩ := ih
    rw [State.reserveN, hlimit] at hreserve
    obtain ⟨rfl, rfl⟩ := Prod.mk.inj hreserve
    refine ⟨rfl, hburst, ?_⟩
    intro last hlast
    cases hlast
    omega

/-- When the tokens of a limiter were last updated, with a fresh one full from the start. -/
def State.since (s : State) : ℕ := s.last.getD 0

private theorem advance_eq (hlimit : 0 < limit) {now : ℕ} (hburst : s.burst = burst)
    (hfresh : s.last = none → s.tokens = burst) (hsince : s.since ≤ now) :
    s.advance limit now =
      TokenBucket.filled (limit / 10 ^ 9) (burst : ℚ) s.tokens ((now : ℚ) - s.since) := by
  rw [State.advance, TokenBucket.filled]
  cases hlast : s.last with
  | none =>
    have hpos : 0 ≤ limit / 10 ^ 9 * ((now : ℚ) - s.since) := by
      have hsince' : (s.since : ℚ) ≤ now := Nat.cast_le.mpr hsince
      have hrate : 0 ≤ limit / 10 ^ 9 := by positivity
      exact mul_nonneg hrate (sub_nonneg.mpr hsince')
    dsimp only
    rw [capAtBurst_eq, hburst, hfresh hlast, min_self, min_eq_right (le_add_of_nonneg_right hpos)]
  | some last =>
    have heq : s.since = last := by rw [State.since, hlast, Option.getD_some]
    have hcast : ((now - last : ℕ) : ℚ) = (now : ℚ) - last := Nat.cast_sub (heq ▸ hsince)
    dsimp only
    rw [capAtBurst_eq, hburst, tokensFromDuration, if_neg (not_le.mpr hlimit), heq, hcast]
    congr 2
    ring

def Release.ofBucket (r : Release) : TokenBucket.Release ℚ := ⟨r.time, r.bytes⟩

/-- The limiter is a bucket that fills at the limit up to the burst, with waits that are a
nanosecond short. -/
theorem Paced.bucket (h : Paced limit burst late s free releases) (hlimit : 0 < limit) :
    (s.last = none → s.tokens = burst) ∧
      TokenBucket.Paced (limit / 10 ^ 9) (burst : ℚ) 1 late s.tokens s.since free
        (releases.map Release.ofBucket) := by
  induction h with
  | start => exact ⟨fun _ => rfl, by simpa [withBurst, State.since] using .start 0⟩
  | @reserve s s' free now n wait time releases h hnow hreserve hbelow htime hlate ih =>
    obtain ⟨hfresh, hrun⟩ := ih
    obtain ⟨hkind, hburst, hlast⟩ := h.state
    have hsince : s.since ≤ now := by
      cases hl : s.last with
      | none => rw [State.since, hl]; exact Nat.zero_le _
      | some last =>
        rw [State.since, hl]
        exact (hlast last hl).trans hnow
    have hadvance := advance_eq hlimit hburst hfresh hsince
    rw [State.reserveN, hkind] at hreserve
    obtain ⟨rfl, hwait⟩ := Prod.mk.inj hreserve
    refine ⟨fun hnone => (by cases hnone), ?_⟩
    rw [List.map_append, List.map_singleton]
    dsimp only at hbelow hwait ⊢
    have hlevel : s.advance limit now - n = TokenBucket.filled (limit / 10 ^ 9) (burst : ℚ)
        s.tokens ((now : ℚ) - s.since) - n := by rw [hadvance]
    have hrate : 0 < limit / 10 ^ 9 := by positivity
    have hpays : 0 ≤ s.advance limit now - n ∧ (wait : ℚ) = 0 ∨
        s.advance limit now - n + limit / 10 ^ 9 * wait ≤ 0 := by
      by_cases hneg : s.advance limit now - n < 0
      · rw [if_pos hneg] at hwait
        have hspec := (durationFromTokens_spec hlimit (neg_nonneg.mpr hneg.le) hbelow).1
        rw [hwait] at hspec
        exact Or.inr (by linarith)
      · rw [if_neg hneg] at hwait
        exact Or.inl ⟨not_lt.mp hneg, by rw [← hwait, Nat.cast_zero]⟩
    have hshort : 0 ≤ s.advance limit now - n + limit / 10 ^ 9 * (wait + 1) := by
      by_cases hneg : s.advance limit now - n < 0
      · rw [if_pos hneg] at hwait
        have hspec := (durationFromTokens_spec hlimit (neg_nonneg.mpr hneg.le) hbelow).2
        rw [hwait] at hspec
        linarith
      · exact add_nonneg (not_lt.mp hneg) (by positivity)
    have htime' : (now : ℚ) + wait ≤ time := mod_cast htime
    have hlate' : (time : ℚ) ≤ now + wait + late := mod_cast hlate
    exact .take hrun (Nat.cast_le.mpr hnow) (Nat.cast_nonneg n) hlevel hpays hshort htime' hlate'

end Bucket

/-! What is released -/

section Released

variable {limit : ℚ} {burst late : ℕ} {s : State} {free : ℕ} {releases : List Release}

private theorem le_largest {r : Release} (hr : r ∈ releases) : r.bytes ≤ largest releases := by
  induction releases with
  | nil => cases hr
  | cons r' releases ih =>
    rw [largest, List.map_cons, List.foldr_cons]
    rcases List.mem_cons.mp hr with rfl | hr
    · exact le_max_left _ _
    · exact (ih hr).trans (le_max_right _ _)

private theorem releasedIn_eq (start d : ℚ) (releases : List Release) :
    (releasedIn start d releases : ℚ) =
      TokenBucket.within start d (releases.map Release.ofBucket) := by
  rw [releasedIn, TokenBucket.within, TokenBucket.total, List.filter_map, List.map_map,
    Nat.cast_list_sum, List.map_map]
  rfl

private theorem tokens_le (h : Paced limit burst late s free releases) (hlimit : 0 < limit) :
    s.tokens ≤ burst := (h.bucket hlimit).2.level_le

/-- One caller that waits out each delay and releases at most `late` nanoseconds after it never has
more tokens than the burst. What it releases in a window of `d` nanoseconds is at most the larger of
the burst and the largest request, with what the limit allows in the window, in a nanosecond more and
in the time a release can be late. -/
theorem released_le (h : Paced limit burst late s free releases) (hlimit : 0 < limit) :
    s.tokens ≤ burst ∧ ∀ start d : ℚ, 0 ≤ d → (releasedIn start d releases : ℚ) ≤
      max burst (largest releases) + limit * ((d + 1 + late) / 10 ^ 9) := by
  refine ⟨tokens_le h hlimit, ?_⟩
  intro start d hd
  have hrate : 0 ≤ limit / 10 ^ 9 := by positivity
  have hbound := (h.bucket hlimit).2.within_le hrate (Nat.cast_nonneg burst) zero_le_one
    (Nat.cast_nonneg late) (le_max_left (burst : ℚ) (largest releases)) ?_ start hd
  · rw [releasedIn_eq]
    apply hbound.trans_eq
    rw [Nat.cast_max]
    ring
  · intro r hr
    obtain ⟨r', hr', rfl⟩ := List.mem_map.mp hr
    exact (Nat.cast_le.mpr (le_largest hr')).trans (le_max_right _ _)

/-- A request above the burst that is released ten milliseconds after its debt is paid, and one that
the tokens of these ten milliseconds cover. -/
theorem late_run : Paced 1000 10 10000000 ⟨.finite 1000, 10, 0, some 30000000⟩ 30000000
    [⟨30000000, 30⟩, ⟨30000000, 10⟩] := by
  have hfirst : (withBurst (.finite 1000) 10).reserveN 0 30 =
      (⟨.finite 1000, 10, -20, some 0⟩, 20000000) := by decide +kernel
  have hsecond : (⟨.finite 1000, 10, -20, some 0⟩ : State).reserveN 30000000 10 =
      (⟨.finite 1000, 10, 0, some 30000000⟩, 0) := by decide +kernel
  have hdebt : nanos 1000 (-(-20)) < 2 ^ 63 := by decide +kernel
  have hpaid : nanos 1000 (-0) < 2 ^ 63 := by decide +kernel
  have hone : Paced 1000 10 10000000 ⟨.finite 1000, 10, -20, some 0⟩ 30000000 [⟨30000000, 30⟩] :=
    .reserve .start le_rfl hfirst hdebt (by decide) (by decide)
  exact .reserve hone le_rfl hsecond hpaid le_rfl (by decide)

/-- Both releases of `late_run` fall on one instant, and are more than the larger request. -/
theorem released_late_over : ∃ late s free releases, Paced 1000 10 late s free releases ∧
    max ((10 : ℕ) : ℚ) (largest releases) + 1000 * ((0 + 1) / 10 ^ 9) <
      (releasedIn 30000000 0 releases : ℚ) :=
  ⟨_, _, _, _, late_run, by decide +kernel⟩

theorem released_le_late : (0 : ℚ) ≤ (10 : ℕ) ∧ (releasedIn 30000000 0
    [⟨30000000, 30⟩, ⟨30000000, 10⟩] : ℚ) ≤ max ((10 : ℕ) : ℚ)
      (largest [⟨30000000, 30⟩, ⟨30000000, 10⟩]) +
        1000 * ((0 + 1 + (10000000 : ℕ)) / 10 ^ 9) := by
  obtain ⟨htokens, hreleased⟩ := released_le late_run (by norm_num)
  exact ⟨htokens, hreleased 30000000 0 le_rfl⟩

end Released

end Kcptun.Session.Rate
