/- Delays between attempts: where the growth stays in the range of durations they are capped at the limit, and
where it leaves that range there is none. -/
import Mathlib.Tactic.Tauto
import NestedQuery.Proofs.Accuracy
import NestedQuery.Proofs.Retrying

namespace NestedQuery

open Binary64 (Near kept unit)

namespace Binary64

theorem billion_exact : (ofNat (10 ^ 9)).isFinite = true ∧ (ofNat (10 ^ 9)).negative = false ∧
    (ofNat (10 ^ 9)).toRat = 10 ^ 9 := by
  have sign : (ofNat (10 ^ 9)).negative = false := by decide +kernel
  refine ⟨by decide +kernel, sign, (toRat_of_units (n := 10 ^ 9) sign (by decide +kernel)).trans ?_⟩
  norm_num

end Binary64

namespace Duration

/-- Two roundings give the part of a second that a number of nanoseconds is. -/
theorem fraction_near {n : ℕ} (bound : n < 10 ^ 9) :
    Near 2 ((Binary64.ofNat n).div (.ofNat (10 ^ 9))) (n / 10 ^ 9) := by
  obtain ⟨finite, sign, exact⟩ := Binary64.billion_exact
  rcases Nat.eq_zero_or_pos n with rfl | positive
  · have zero : (Binary64.ofNat 0).div (.ofNat (10 ^ 9)) = .zero := by decide +kernel
    rw [zero, Nat.cast_zero, zero_div]
    exact .zero 2
  · have least : (1 : ℚ) ≤ n := Nat.one_le_cast.mpr positive
    have most : (n : ℚ) < 10 ^ 9 := by exact_mod_cast bound
    have near := Near.ofNat n
    rw [← exact]
    refine near.div (near.isFinite_of_lt (by decide) (by linarith)) finite sign ?_ (by decide) ?_
    · rw [exact]
      norm_num
    · rw [exact]
      linarith

/-- Three roundings give the seconds of a number of milliseconds. -/
theorem seconds_near {n : ℕ} (bound : n < 2 ^ 64) : Near 3 (ofMilliseconds n).seconds (n / 1000) := by
  rcases Nat.eq_zero_or_pos n with rfl | positive
  · have zero : (ofMilliseconds 0).seconds = .zero := by decide +kernel
    rw [zero, Nat.cast_zero, zero_div]
    exact .zero 3
  · have least : (1 : ℚ) ≤ n := Nat.one_le_cast.mpr positive
    have division := Nat.div_add_mod (n * 10 ^ 6) (10 ^ 9)
    have rest : n * 10 ^ 6 % 10 ^ 9 < 10 ^ 9 := Nat.mod_lt _ (by decide)
    have whole : n * 10 ^ 6 / 10 ^ 9 < 2 ^ 64 := by omega
    change Near 3 ((Binary64.ofNat (n * 10 ^ 6 / 10 ^ 9)).add
      ((Binary64.ofNat (n * 10 ^ 6 % 10 ^ 9)).div (.ofNat (10 ^ 9)))) _
    generalize n * 10 ^ 6 / 10 ^ 9 = w at *
    generalize n * 10 ^ 6 % 10 ^ 9 = f at *
    have division' : (10 ^ 9 * w + f : ℚ) = n * 10 ^ 6 := by exact_mod_cast division
    have sum : (n / 1000 : ℚ) = w + f / 10 ^ 9 := by linarith
    have bound' : (w : ℚ) < 2 ^ 64 := by exact_mod_cast whole
    have rest' : (f : ℚ) < 10 ^ 9 := by exact_mod_cast rest
    have nearWhole := (Near.ofNat w).mono (Nat.cast_nonneg w) (by decide : 1 ≤ 2)
    have nearRest := fraction_near rest
    rw [sum]
    exact nearWhole.add nearRest (nearWhole.isFinite_of_lt (by decide) (by linarith))
      (nearRest.isFinite_of_lt (by decide) (by linarith)) (by decide) (by linarith)

section Range

variable {x : Binary64}

/-- The numbers of seconds that are durations, as far as they are not negative. -/
def InRange (x : Binary64) : Prop := x.isFinite = true ∧ x.toRat < 2 ^ 64

/-- The nearest duration to so many seconds. -/
def nearest (x : Binary64) : Duration := ⟨roundHalfEven (x.units * 10 ^ 9) unit⟩

theorem toRat_lt_iff (sign : x.negative = false) {n : ℕ} : x.toRat < n ↔ x.units < n * unit := by
  have unitPositive : (0 : ℚ) < unit := Nat.cast_pos.mpr Binary64.unit_pos
  rw [Binary64.toRat_of_nonnegative sign, div_lt_iff₀ unitPositive, ← Nat.cast_mul, Nat.cast_lt]

theorem ofSeconds?_of_inRange (sign : x.negative = false) (range : InRange x) :
    ofSeconds? x = some (nearest x) := by
  have below : x.units < 2 ^ 64 * unit := (toRat_lt_iff sign).mp (by exact_mod_cast range.2)
  refine if_neg ?_
  rintro (infinite | ⟨negative, _⟩ | great)
  · exact infinite range.1
  · rw [sign] at negative
    cases negative
  · exact absurd below (Nat.not_lt.mpr great)

theorem ofSeconds?_of_not_inRange (sign : x.negative = false) (out : ¬InRange x) :
    ofSeconds? x = none := by
  refine if_pos ?_
  by_cases finite : x.isFinite = true
  · right
    right
    by_contra below
    exact out ⟨finite, by exact_mod_cast (toRat_lt_iff sign).mpr (Nat.not_le.mp below)⟩
  · exact .inl finite

/-- Half of the range is more milliseconds than there are numbers of 64 bits. -/
theorem le_milliseconds_nearest (sign : x.negative = false) (great : 2 ^ 63 ≤ x.toRat) :
    2 ^ 64 ≤ (nearest x).milliseconds := by
  have least : 2 ^ 63 * unit ≤ x.units :=
    Nat.not_lt.mp fun less => not_lt_of_ge great (by exact_mod_cast (toRat_lt_iff sign).mpr less)
  have rounded := (roundHalfEven_bounds (x.units * 10 ^ 9) Binary64.unit_pos).2
  have nanoseconds : 2 ^ 63 * 10 ^ 9 ≤ (nearest x).nanoseconds := by
    have same : (nearest x).nanoseconds = roundHalfEven (x.units * 10 ^ 9) unit := by
      simp only [nearest]
    rw [← same] at rounded
    have positive := Binary64.unit_pos
    generalize (nearest x).nanoseconds = q at *
    generalize unit = u at *
    by_contra less
    have step : (q + 1) * u ≤ 2 ^ 63 * 10 ^ 9 * u := Nat.mul_le_mul_right u (Nat.not_le.mp less)
    rw [Nat.add_mul] at step
    omega
  have quotient : 2 ^ 63 * 10 ^ 9 / 10 ^ 6 ≤ (nearest x).milliseconds := Nat.div_le_div_right nanoseconds
  exact le_trans (by decide) quotient

end Range

end Duration

namespace Backoff

/-- What the multiplier is raised to. Numbers of attempts from `2 ^ 31` on count as negative. -/
def factor (b : Backoff) (attempt : ℕ) : Binary64 :=
  b.config.multiplier.power (Int.bmod attempt attemptLimit)

/-- What the delay grows to before it is cut, in seconds. -/
def grown (b : Backoff) (attempt : ℕ) : Binary64 :=
  (b.factor attempt).mul (Duration.ofMilliseconds b.config.initialDelay.toNat).seconds

/-- The delay is given, is at most the limit and the jitter together, which fit into 64 bits, and without
jitter it is the limit wherever the exact growth leaves the range of durations. -/
def CappedAt (b : Backoff) (m attempt jitter : ℕ) : Prop :=
  ∃ ms, b.delay? jitter attempt = some (.ofMilliseconds ms) ∧
    ms ≤ b.config.maxDelay.toNat + b.config.jitter.toNat ∧ ms < 2 ^ 64 ∧
    (b.config.jitter = 0 → 2 ^ 64 * 1000 ≤ b.config.initialDelay.toNat * m ^ attempt →
      ms = b.config.maxDelay.toNat)

variable {b : Backoff} {m attempt jitter : ℕ}

theorem bmod_of_lt (early : attempt < 2 ^ 31) : Int.bmod attempt attemptLimit = attempt := by
  rw [Int.bmod, attemptLimit]
  omega

theorem bmod_of_le (late : 2 ^ 31 ≤ attempt) (bound : attempt < attemptLimit) :
    Int.bmod attempt attemptLimit = -((attemptLimit - attempt : ℕ) : ℤ) := by
  rw [Int.bmod]
  rw [attemptLimit] at bound ⊢
  omega

theorem factor_of_lt (early : attempt < 2 ^ 31) : b.factor attempt = b.config.multiplier.power attempt := by
  rw [factor, bmod_of_lt early]

/-- In the range, what the delay grows to is cut at the limit, and the jitter comes on top. -/
theorem delay?_of_inRange (jitter : ℕ) (sign : (b.grown attempt).negative = false)
    (range : Duration.InRange (b.grown attempt)) : b.delay? jitter attempt =
      some (.ofMilliseconds (min (Duration.nearest (b.grown attempt)).milliseconds
        b.config.maxDelay.toNat + jitter)) := by
  have given := Duration.ofSeconds?_of_inRange sign range
  change (Duration.ofSeconds? (b.grown attempt)).map _ = _
  rw [given]
  rfl

theorem delay?_of_not_inRange (sign : (b.grown attempt).negative = false)
    (out : ¬Duration.InRange (b.grown attempt)) : b.delay? jitter attempt = none := by
  change (Duration.ofSeconds? (b.grown attempt)).map _ = _
  rw [Duration.ofSeconds?_of_not_inRange sign out]
  rfl

theorem seconds_near (b : Backoff) :
    Near 3 (Duration.ofMilliseconds b.config.initialDelay.toNat).seconds
      (b.config.initialDelay.toNat / 1000) :=
  Duration.seconds_near b.config.initialDelay.toNat_lt

theorem seconds_finite (b : Backoff) :
    (Duration.ofMilliseconds b.config.initialDelay.toNat).seconds.isFinite = true := by
  have bound : (b.config.initialDelay.toNat : ℚ) < 2 ^ 64 := by
    exact_mod_cast b.config.initialDelay.toNat_lt
  exact b.seconds_near.isFinite_of_lt (by decide) (by linarith)

/-- What one part in two million leaves. -/
theorem most_kept (early : attempt < 2 ^ 31) : 1 - 1 / 2 ^ 21 ≤ kept ^ (attempt + 4) := by
  have bound : (attempt : ℚ) < 2 ^ 31 := by exact_mod_cast early
  refine le_trans ?_ (Binary64.le_kept_pow (attempt + 4))
  push_cast
  linarith

theorem grown_nonnegative (sign : b.config.multiplier.negative = false) (attempt : ℕ) :
    (b.grown attempt).negative = false :=
  Binary64.negative_mul (Binary64.negative_power _ sign) b.seconds_near.nonnegative

/-- A factor far enough below the greatest floats is not infinite. -/
theorem not_beyond (early : attempt < 2 ^ 31) (factor : m ^ attempt < 2 ^ 1023) :
    ¬kept ^ attempt * Binary64.beyond ≤ (m ^ attempt : ℚ) := by
  intro reached
  have twice := Binary64.le_twice_kept (by omega : attempt ≤ 2 ^ 52) Binary64.beyond_pos.le
  rw [Binary64.beyond_halves] at twice reached
  obtain ⟨k, exponent⟩ : ∃ k, 1023 = k := ⟨_, rfl⟩
  rw [exponent] at factor twice reached
  have below : (m ^ attempt : ℚ) < 2 ^ k := by exact_mod_cast factor
  linarith

section Growth

variable (near : Near 0 b.config.multiplier m) (growing : 1 ≤ m)

include near growing

theorem factor_near (early : attempt < 2 ^ 31) : Near attempt (b.factor attempt) (m ^ attempt) := by
  rw [factor_of_lt early]
  exact near.power_natCast (Nat.one_le_cast.mpr growing) (by omega)

/-- What the delay grows to, up to an error for each attempt and a few more, unless the factor itself is too
great for a float. -/
theorem grown_cases (early : attempt < 2 ^ 31) (some : 0 < b.config.initialDelay.toNat) :
    Near (attempt + 4) (b.grown attempt) (b.config.initialDelay.toNat * m ^ attempt / 1000) ∨
      b.grown attempt = .infinity ∧ kept ^ attempt * Binary64.beyond ≤ m ^ attempt := by
  have factor := factor_near near growing early
  have base := b.seconds_near
  have least : (1 : ℚ) ≤ b.config.initialDelay.toNat := Nat.one_le_cast.mpr some
  have power : (1 : ℚ) ≤ m ^ attempt := one_le_pow₀ (Nat.one_le_cast.mpr growing)
  have baseLeast : 1 / 2000 ≤ (Duration.ofMilliseconds b.config.initialDelay.toNat).seconds.toRat := by
    have twice := base.le_twice b.seconds_finite (by decide)
    linarith
  cases finite : (b.factor attempt).isFinite with
  | true =>
      left
      have twice := factor.le_twice finite (by omega)
      have half : 1 / 2 ≤ (b.factor attempt).toRat := by linarith
      have product := factor.mul_finite base finite b.seconds_finite
        (le_trans (by norm_num) (mul_le_mul half baseLeast (by norm_num) (by linarith)))
      have value : (m ^ attempt * (b.config.initialDelay.toNat / 1000) : ℚ) =
          b.config.initialDelay.toNat * m ^ attempt / 1000 := by ring
      rwa [value] at product
  | false =>
      right
      obtain ⟨great, reached⟩ := factor.infinite_of_not_finite finite
      rw [grown, great]
      exact ⟨(Binary64.infinity_mul b.seconds_finite base.nonnegative (by linarith)).1, reached⟩

/-- A number of an attempt that counts as negative leaves the growth in the range. -/
theorem inRange_of_le (late : 2 ^ 31 ≤ attempt) (bound : attempt < attemptLimit) :
    Duration.InRange (b.grown attempt) := by
  obtain ⟨finite, small⟩ : (b.factor attempt).isFinite = true ∧ (b.factor attempt).toRat ≤ 4 := by
    rw [factor, bmod_of_le late bound]
    refine Binary64.toRat_power_neg near (Nat.one_le_cast.mpr growing) ?_ (by omega)
    rw [attemptLimit]
    omega
  have sign : (b.factor attempt).negative = false := Binary64.negative_power _ near.nonnegative
  have signBase := b.seconds_near.nonnegative
  have delay : (b.config.initialDelay.toNat : ℚ) < 2 ^ 64 := by
    exact_mod_cast b.config.initialDelay.toNat_lt
  -- The factor is at most 4, and what it is multiplied with at most twice as many seconds as there can be.
  have twice := b.seconds_near.twice_le b.seconds_finite (by decide)
  have product := mul_le_mul_of_nonneg_right small (Binary64.toRat_nonneg signBase)
  have result := Binary64.mul_le finite b.seconds_finite sign signBase (b := 2 ^ 58) (by norm_num)
    (by norm_num) (by linarith)
  exact ⟨result.1, lt_of_le_of_lt result.2 (by norm_num)⟩

/-- Below the range by one part in two million, the growth stays in it, if the factor alone is a float. -/
theorem inRange_of_small (early : attempt < 2 ^ 31) (factor : m ^ attempt < 2 ^ 1023)
    (small : b.config.initialDelay.toNat * m ^ attempt * 2 ^ 21 < (2 ^ 21 - 1) * (2 ^ 64 * 1000)) :
    Duration.InRange (b.grown attempt) := by
  have small' : (b.config.initialDelay.toNat * m ^ attempt * 2 ^ 21 : ℚ) <
      (2 ^ 21 - 1) * (2 ^ 64 * 1000) := by
    have cast := Nat.cast_lt (α := ℚ).mpr small
    push_cast at cast
    linarith
  rcases Nat.eq_zero_or_pos b.config.initialDelay.toNat with none | some
  · have zero : (Duration.ofMilliseconds b.config.initialDelay.toNat).seconds = .zero := by
      rw [none]
      decide +kernel
    have sign : (b.factor attempt).negative = false := Binary64.negative_power _ near.nonnegative
    have finite : (b.factor attempt).isFinite = true := by
      cases factor_near near growing early with
      | finite bounded => exact bounded
      | infinite _ reached => exact absurd reached (not_beyond early factor)
    have result := Binary64.mul_le finite (y := .zero) (by decide) sign (by decide) le_rfl (by norm_num)
      (by rw [Binary64.toRat_zero, mul_zero]; exact zero_le_one)
    rw [grown, zero]
    exact ⟨result.1, lt_of_le_of_lt result.2 (by norm_num)⟩
  · rcases grown_cases near growing early some with product | ⟨_, reached⟩
    · have finite := product.isFinite_of_lt (by omega) (by linarith)
      obtain ⟨sign, -, below⟩ := product.bounds finite
      have most := mul_le_mul_of_nonneg_right (most_kept early) (Binary64.toRat_nonneg sign)
      exact ⟨finite, by linarith⟩
    · exact absurd reached (not_beyond early factor)

/-- Beyond the range by one part in two million, the growth leaves it, and so it does where the factor alone is
no float. -/
theorem not_inRange_of_great (early : attempt < 2 ^ 31)
    (great : 2 ^ 21 * (2 ^ 64 * 1000) ≤ b.config.initialDelay.toNat * m ^ attempt * (2 ^ 21 - 1) ∨
      2 ^ 1025 ≤ m ^ attempt) : ¬Duration.InRange (b.grown attempt) := by
  rintro ⟨finite, below⟩
  rcases great with great | great
  · have great' : (2 ^ 21 * (2 ^ 64 * 1000) : ℚ) ≤
        b.config.initialDelay.toNat * m ^ attempt * (2 ^ 21 - 1) := by
      have cast := Nat.cast_le (α := ℚ).mpr great
      push_cast at cast
      linarith
    have some : 0 < b.config.initialDelay.toNat :=
      Nat.pos_of_mul_pos_right (Nat.pos_of_mul_pos_right (lt_of_lt_of_le (by decide) great))
    rcases grown_cases near growing early some with product | ⟨infinite, _⟩
    · have above := (product.bounds finite).2.1
      have most := mul_le_mul_of_nonneg_right (most_kept early) product.nonneg
      linarith
    · rw [infinite] at finite
      exact absurd finite (by decide)
  · have factorFinite : (b.factor attempt).isFinite = true := by
      cases factor_near near growing early with
      | finite bounded => exact bounded
      | infinite infinite _ =>
          rw [grown, infinite, Binary64.isFinite_infinity_mul] at finite
          cases finite
    have twice := (factor_near near growing early).le_twice factorFinite (by omega)
    have most := Binary64.toRat_lt_beyond factorFinite
    have doubled := Binary64.beyond_doubled
    obtain ⟨k, exponent⟩ : ∃ k, 1025 = k := ⟨_, rfl⟩
    rw [exponent] at great doubled
    have great' : (2 ^ k : ℚ) ≤ m ^ attempt := by exact_mod_cast great
    linarith

/-- Where the exact growth leaves the range but the rounded one does not, the limit is reached. -/
theorem limit_le_of_beyond (early : attempt < 2 ^ 31) (range : Duration.InRange (b.grown attempt))
    (great : 2 ^ 64 * 1000 ≤ b.config.initialDelay.toNat * m ^ attempt) :
    2 ^ 64 ≤ (Duration.nearest (b.grown attempt)).milliseconds := by
  have great' : (2 ^ 64 * 1000 : ℚ) ≤ b.config.initialDelay.toNat * m ^ attempt := by
    exact_mod_cast great
  have some : 0 < b.config.initialDelay.toNat :=
    Nat.pos_of_mul_pos_right (lt_of_lt_of_le (by decide) great)
  rcases grown_cases near growing early some with product | ⟨infinite, _⟩
  · have twice := product.le_twice range.1 (by omega)
    exact Duration.le_milliseconds_nearest product.nonnegative (by linarith)
  · have finite := range.1
    rw [infinite] at finite
    exact absurd finite (by decide)

end Growth

theorem multiplier_near (finite : b.config.multiplier.isFinite = true)
    (whole : b.config.multiplier.toRat = m) (growing : 1 ≤ m) : Near 0 b.config.multiplier m := by
  have positive : (1 : ℚ) ≤ m := Nat.one_le_cast.mpr growing
  rw [← whole]
  exact .refl finite (Binary64.nonnegative_of_pos (by linarith))

/-- Late attempts leave the range of durations as soon as there is something that grows. -/
theorem beyond_iff_of_le (late : 2 ^ 31 ≤ attempt) (growing : 1 ≤ m) :
    2 ^ 64 * 1000 ≤ b.config.initialDelay.toNat * m ^ attempt ↔
      b.config.initialDelay ≠ 0 ∧ m ≠ 1 := by
  constructor
  · intro beyond
    constructor
    · intro none
      rw [none, UInt64.toNat_zero, Nat.zero_mul] at beyond
      exact absurd beyond (by decide)
    · rintro rfl
      have bound := b.config.initialDelay.toNat_lt
      rw [Nat.one_pow] at beyond
      omega
  · rintro ⟨some, notOne⟩
    have least : 1 ≤ b.config.initialDelay.toNat := by
      rw [Nat.one_le_iff_ne_zero, ← UInt64.toNat_zero]
      exact fun same => some (UInt64.toNat_inj.mp same)
    calc 2 ^ 64 * 1000 ≤ 1 * 2 ^ 74 := by decide
      _ ≤ 1 * 2 ^ attempt := Nat.mul_le_mul_left 1 (Nat.pow_le_pow_right Nat.two_pos (by omega))
      _ ≤ b.config.initialDelay.toNat * m ^ attempt :=
          Nat.mul_le_mul least (Nat.pow_le_pow_left (by omega) attempt)

/-- In the range, a delay is capped if it is the limit wherever the exact growth leaves the range. -/
theorem cappedAt_iff_of_inRange (sign : (b.grown attempt).negative = false)
    (range : Duration.InRange (b.grown attempt)) (drawn : jitter ≤ b.config.jitter.toNat)
    (roomy : b.config.maxDelay.toNat + b.config.jitter.toNat < 2 ^ 64) :
    b.CappedAt m attempt jitter ↔ (b.config.jitter = 0 →
      2 ^ 64 * 1000 ≤ b.config.initialDelay.toNat * m ^ attempt →
        b.config.maxDelay.toNat ≤ (Duration.nearest (b.grown attempt)).milliseconds) := by
  have given := delay?_of_inRange jitter sign range
  generalize (Duration.nearest (b.grown attempt)).milliseconds = grown at *
  have without : b.config.jitter = 0 → jitter = 0 := by
    intro none
    rw [none] at drawn
    exact Nat.le_zero.mp drawn
  constructor
  · rintro ⟨ms, answer, -, -, limit⟩ none beyond
    have same : (min grown b.config.maxDelay.toNat + jitter) * 10 ^ 6 = ms * 10 ^ 6 :=
      congrArg Duration.nanoseconds (Option.some.inj (given.symm.trans answer))
    have := without none
    have := limit none beyond
    omega
  · intro reaches
    refine ⟨_, given, by omega, by omega, fun none beyond => ?_⟩
    rw [without none, Nat.add_zero]
    exact Nat.min_eq_right (reaches none beyond)

/-- Up to attempt `2 ^ 31`, there is a delay, which is capped, exactly if the growth as it is rounded stays in
the range of durations: surely so if the exact growth is one part in two million below its end, and surely not
so if it is as much beyond. From there on there is always a delay, but it shrinks, so that it misses the limit
where it should be reached and is not reached by the shrunk delay already. -/
theorem capped_iff (finite : b.config.multiplier.isFinite = true)
    (whole : b.config.multiplier.toRat = m) (growing : 1 ≤ m)
    (roomy : b.config.maxDelay.toNat + b.config.jitter.toNat < 2 ^ 64)
    (allowed : attempt < b.attempts) (drawn : jitter ≤ b.config.jitter.toNat) :
    (attempt < 2 ^ 31 →
      (b.CappedAt m attempt jitter ↔ Duration.InRange (b.grown attempt)) ∧
      (m ^ attempt < 2 ^ 1023 → b.config.initialDelay.toNat * m ^ attempt * 2 ^ 21 <
        (2 ^ 21 - 1) * (2 ^ 64 * 1000) → b.CappedAt m attempt jitter) ∧
      (2 ^ 21 * (2 ^ 64 * 1000) ≤ b.config.initialDelay.toNat * m ^ attempt * (2 ^ 21 - 1) ∨
        2 ^ 1025 ≤ m ^ attempt → b.delay? jitter attempt = none)) ∧
    (2 ^ 31 ≤ attempt → (b.delay? jitter attempt).isSome = true ∧
      (b.CappedAt m attempt jitter ↔ b.config.jitter ≠ 0 ∨ b.config.initialDelay = 0 ∨ m = 1 ∨
        b.config.maxDelay.toNat ≤ (Duration.nearest (b.grown attempt)).milliseconds)) := by
  have near := multiplier_near finite whole growing
  have sign := grown_nonnegative near.nonnegative attempt
  constructor
  · intro early
    have exact : b.CappedAt m attempt jitter ↔ Duration.InRange (b.grown attempt) := by
      constructor
      · rintro ⟨ms, answer, -⟩
        by_contra out
        rw [delay?_of_not_inRange sign out] at answer
        cases answer
      · intro range
        refine (cappedAt_iff_of_inRange sign range drawn roomy).mpr fun _ beyond => ?_
        exact le_trans b.config.maxDelay.toNat_lt.le (limit_le_of_beyond near growing early range beyond)
    refine ⟨exact, fun factor small => exact.mpr (inRange_of_small near growing early factor small),
      fun great => delay?_of_not_inRange sign (not_inRange_of_great near growing early great)⟩
  · intro late
    have range := inRange_of_le near growing late (Nat.lt_trans allowed b.attempts_lt)
    refine ⟨by rw [delay?_of_inRange jitter sign range]; rfl, ?_⟩
    rw [cappedAt_iff_of_inRange sign range drawn roomy, beyond_iff_of_le late growing]
    tauto

theorem two_exact : (Binary64.ofNat 2).isFinite = true ∧ (Binary64.ofNat 2).toRat = (2 : ℕ) :=
  ⟨by decide +kernel, Binary64.toRat_of_units (by decide +kernel) (by decide +kernel)⟩

/-- With the standard settings there is still a delay after attempt 64, and none after attempt 66. -/
theorem capped_iff_standard :
    let b : Backoff := ⟨.standard, 68⟩
    b.config.multiplier.isFinite = true ∧ b.config.multiplier.toRat = (2 : ℕ) ∧
      b.config.maxDelay.toNat + b.config.jitter.toNat < 2 ^ 64 ∧ 66 < b.attempts ∧
      250 ≤ b.config.jitter.toNat ∧ b.CappedAt 2 64 250 ∧ b.delay? 250 66 = none := by
  intro b
  have roomy : b.config.maxDelay.toNat + b.config.jitter.toNat < 2 ^ 64 := by decide
  have last : 66 < b.attempts := by decide
  have earlier : 64 < b.attempts := by decide
  have drawn : 250 ≤ b.config.jitter.toNat := by decide
  have within := capped_iff two_exact.1 two_exact.2 (by decide) roomy earlier drawn
  have beyond := capped_iff two_exact.1 two_exact.2 (by decide) roomy last drawn
  have float : ∀ k, 64 < k → 2 ^ 64 < 2 ^ k := fun k less => Nat.pow_lt_pow_right (by decide) less
  refine ⟨two_exact.1, two_exact.2, roomy, last, drawn, ?_, ?_⟩
  · exact (within.1 (by decide)).2.1 (float 1023 (by decide)) (by decide)
  · exact (beyond.1 (by decide)).2.2 (.inl (by decide))

/-- Without jitter, there is no delay after attempt 65, and the one after attempt `2 ^ 31` is not the limit. -/
theorem standard_not_capped :
    let b : Backoff := ⟨{ BackoffConfig.standard with jitter := 0 }, 4294967295⟩
    b.config.multiplier.isFinite = true ∧ b.config.multiplier.toRat = (2 : ℕ) ∧
      2 ^ 31 < b.attempts ∧ b.delay? 0 65 = none ∧ ¬b.CappedAt 2 65 0 ∧
      b.delay? 0 (2 ^ 31) = some .zero ∧ ¬b.CappedAt 2 (2 ^ 31) 0 := by
  intro b
  have none : b.delay? 0 65 = none := by decide +kernel
  have shrunk : b.delay? 0 (2 ^ 31) = some .zero := by decide +kernel
  have beyond := (beyond_iff_of_le (b := b) (m := 2) le_rfl (by decide)).mpr ⟨by decide, by decide⟩
  refine ⟨two_exact.1, two_exact.2, by decide, none, ?_, shrunk, ?_⟩
  · rintro ⟨ms, answer, -⟩
    rw [none] at answer
    cases answer
  · rintro ⟨ms, answer, -, -, limit⟩
    have reached := limit rfl beyond
    rw [shrunk, reached] at answer
    exact absurd answer (by decide)

end Backoff

end NestedQuery
