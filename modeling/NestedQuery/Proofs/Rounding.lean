/- How far a rounded float is from the number that it stands for: less than one part in `2 ^ 53`, as long as
that is neither too great nor too small for a float. -/
import Mathlib.Tactic.Ring
import NestedQuery.Proofs.Exactness

namespace NestedQuery

theorem roundHalfEven_bounds (n : Nat) {d : Nat} (positive : 0 < d) :
    2 * (roundHalfEven n d * d) ≤ 2 * n + d ∧ 2 * n ≤ 2 * (roundHalfEven n d * d) + d := by
  have division := Nat.div_add_mod n d
  have remainder := Nat.mod_lt n positive
  rw [Nat.mul_comm] at division
  simp only [roundHalfEven]
  split
  · omega
  · split
    · rw [Nat.add_mul]
      omega
    · rcases Nat.mod_two_eq_zero_or_one (n / d) with even | odd
      · rw [even, Nat.add_zero]
        omega
      · rw [odd, Nat.add_mul]
        omega

/-- A quotient is at most a half away from the whole number that it is rounded to. -/
theorem roundHalfEven_error (n : Nat) {d : Nat} (positive : 0 < d) :
    |(roundHalfEven n d : ℚ) - n / d| ≤ 1 / 2 := by
  obtain ⟨above, below⟩ := roundHalfEven_bounds n positive
  have denominator : (0 : ℚ) < d := Nat.cast_pos.mpr positive
  have scaled : |(roundHalfEven n d : ℚ) * d - n| ≤ d / 2 := by
    rw [abs_le]
    have above' : (2 * (roundHalfEven n d * d) : ℚ) ≤ 2 * n + d := by exact_mod_cast above
    have below' : (2 * n : ℚ) ≤ 2 * (roundHalfEven n d * d) + d := by exact_mod_cast below
    constructor <;> linarith
  have quotient : (roundHalfEven n d : ℚ) - n / d = (roundHalfEven n d * d - n) / d := by
    field_simp
  rw [quotient, abs_div, abs_of_pos denominator, div_le_iff₀ denominator]
  linarith

namespace Binary64

section Exponent

variable {n d : Nat}

/-- The lengths of two numbers give their quotient up to a factor of two on either side. -/
theorem quotient_between (positive : 0 < n) (divisor : 0 < d) :
    2 ^ 51 * (2 : ℚ) ^ ((n.log2 : ℤ) - d.log2 - 52) < (n / d : ℚ) ∧
      (n / d : ℚ) < 2 ^ 53 * (2 : ℚ) ^ ((n.log2 : ℤ) - d.log2 - 52) := by
  have denominator : (0 : ℚ) < d := Nat.cast_pos.mpr divisor
  have leastN : (2 : ℚ) ^ n.log2 ≤ n := by exact_mod_cast Nat.log2_self_le positive.ne'
  have boundN : (n : ℚ) < 2 ^ n.log2 * 2 := by exact_mod_cast Nat.lt_log2_self (n := n)
  have leastD : (2 : ℚ) ^ d.log2 ≤ d := by exact_mod_cast Nat.log2_self_le divisor.ne'
  have boundD : (d : ℚ) < 2 ^ d.log2 * 2 := by exact_mod_cast Nat.lt_log2_self (n := d)
  have powers : (2 : ℚ) ^ ((n.log2 : ℤ) - d.log2 - 52) = 2 ^ n.log2 / 2 ^ d.log2 / 2 ^ 52 := by
    rw [zpow_sub₀ two_ne_zero, zpow_sub₀ two_ne_zero, zpow_natCast, zpow_natCast]
    rfl
  have positiveN : (0 : ℚ) < 2 ^ n.log2 := pow_pos two_pos _
  have positiveD : (0 : ℚ) < 2 ^ d.log2 := pow_pos two_pos _
  rw [powers]
  generalize (2 : ℚ) ^ n.log2 = a at *
  generalize (2 : ℚ) ^ d.log2 = b at *
  constructor
  · rw [lt_div_iff₀ denominator]
    calc 2 ^ 51 * (a / b / 2 ^ 52) * d < 2 ^ 51 * (a / b / 2 ^ 52) * (b * 2) := by gcongr
      _ = a := by field_simp
      _ ≤ n := leastN
  · rw [div_lt_iff₀ denominator]
    calc (n : ℚ) < a * 2 := boundN
      _ = 2 ^ 53 * (a / b / 2 ^ 52) * b := by field_simp
      _ ≤ 2 ^ 53 * (a / b / 2 ^ 52) * d := by gcongr

/-- A comparison over whole numbers, with a power of two on the side on which it is whole. -/
theorem scaled_le_iff {a : Nat} (divisor : 0 < d) (e : ℤ) :
    (if e < 0 then a * d ≤ n * 2 ^ (-e).toNat else a * d * 2 ^ e.toNat ≤ n) ↔
      a * (2 : ℚ) ^ e ≤ (n / d : ℚ) := by
  have denominator : (0 : ℚ) < d := Nat.cast_pos.mpr divisor
  rw [le_div_iff₀ denominator]
  split
  · next negative =>
      obtain ⟨k, exponent⟩ := Int.eq_ofNat_of_zero_le (by omega : 0 ≤ -e)
      obtain rfl : e = -(k : ℤ) := by omega
      rw [Int.neg_neg, Int.toNat_natCast, zpow_neg, zpow_natCast, ← Nat.cast_le (α := ℚ)]
      push_cast
      rw [← div_eq_mul_inv, div_mul_eq_mul_div, div_le_iff₀ (pow_pos two_pos k)]
  · next whole =>
      obtain ⟨k, rfl⟩ := Int.eq_ofNat_of_zero_le (by omega : 0 ≤ e)
      rw [Int.toNat_natCast, zpow_natCast, ← Nat.cast_le (α := ℚ)]
      push_cast
      rw [mul_right_comm]

/-- At the rounding exponent a quotient has 53 bits before the point, or fewer at the least exponent. -/
theorem roundingExponent_spec (positive : 0 < n) (divisor : 0 < d) :
    -1074 ≤ roundingExponent n d ∧ (n / d : ℚ) < 2 ^ 53 * 2 ^ roundingExponent n d ∧
      (2 ^ 52 * 2 ^ roundingExponent n d ≤ (n / d : ℚ) ∨ roundingExponent n d = -1074) := by
  obtain ⟨above, below⟩ := quotient_between positive divisor
  have fits := scaled_le_iff (a := 2 ^ 52) (n := n) divisor ((n.log2 : ℤ) - d.log2 - 52)
  simp only [roundingExponent, fits]
  generalize (n.log2 : ℤ) - d.log2 - 52 = guess at *
  have exact : ∀ e : ℤ, (n / d : ℚ) < 2 ^ 53 * 2 ^ e → 2 ^ 52 * 2 ^ e ≤ (n / d : ℚ) →
      -1074 ≤ max e (-1074) ∧ (n / d : ℚ) < 2 ^ 53 * 2 ^ max e (-1074) ∧
        (2 ^ 52 * 2 ^ max e (-1074) ≤ (n / d : ℚ) ∨ max e (-1074) = -1074) := by
    intro e less atLeast
    rcases le_total (-1074) e with within | under
    · rw [max_eq_left within]
      exact ⟨within, less, .inl atLeast⟩
    · rw [max_eq_right under]
      refine ⟨le_rfl, less.trans_le ?_, .inr rfl⟩
      gcongr
      exact one_le_two
  split
  · next fits => exact exact guess below (by exact_mod_cast fits)
  · next short =>
      have halved : (2 : ℚ) ^ guess = 2 * 2 ^ (guess - 1) := by
        rw [zpow_sub_one₀ two_ne_zero]
        field_simp
      rw [halved] at above short
      push_cast at short
      exact exact (guess - 1) (by linarith) (by linarith)

/-- A quotient that is rounded at an exponent is at most half a power of two away from what it is rounded to. -/
theorem rounded_at_error (divisor : 0 < d) (e : ℤ) :
    |((if e < 0 then roundHalfEven (n * 2 ^ (-e).toNat) d
        else roundHalfEven n (d * 2 ^ e.toNat) : ℕ) : ℚ) * 2 ^ e - n / d| ≤ 2 ^ e / 2 := by
  have scale : (0 : ℚ) < 2 ^ e := zpow_pos two_pos e
  have near : |((if e < 0 then roundHalfEven (n * 2 ^ (-e).toNat) d
      else roundHalfEven n (d * 2 ^ e.toNat) : ℕ) : ℚ) - n / d / 2 ^ e| ≤ 1 / 2 := by
    split
    · next negative =>
        obtain ⟨m, exponent⟩ := Int.eq_ofNat_of_zero_le (by omega : 0 ≤ -e)
        obtain rfl : e = -(m : ℤ) := by omega
        have error := roundHalfEven_error (n * 2 ^ m) divisor
        rw [Int.neg_neg, Int.toNat_natCast, zpow_neg, zpow_natCast, div_inv_eq_mul, div_mul_eq_mul_div]
        exact_mod_cast error
    · next whole =>
        obtain ⟨m, rfl⟩ := Int.eq_ofNat_of_zero_le (by omega : 0 ≤ e)
        have error := roundHalfEven_error n (Nat.mul_pos divisor (Nat.two_pow_pos m))
        rw [Int.toNat_natCast, zpow_natCast, div_div]
        exact_mod_cast error
  rw [← mul_div_cancel_right₀ (n / d : ℚ) scale.ne', mul_div_right_comm, ← sub_mul, abs_mul,
    abs_of_pos scale]
  calc _ ≤ 1 / 2 * (2 : ℚ) ^ e := by gcongr
    _ = 2 ^ e / 2 := by ring

/-- What a quotient is rounded to, in units of the smallest positive float: a multiple of a power of two, not
further from it than half of that power, with 53 digits unless the power is the least. -/
theorem magnitudeOfRatio_spec (positive : 0 < n) (divisor : 0 < d) :
    ∃ e q : ℕ, magnitudeOfRatio n d = min (e * 2 ^ 52 + q) (2047 * 2 ^ 52) ∧
      |(q : ℚ) * 2 ^ e - n / d * unit| ≤ 2 ^ e / 2 ∧ (n / d * unit : ℚ) < 2 ^ 53 * 2 ^ e ∧
      (2 ^ 52 * 2 ^ e ≤ (n / d * unit : ℚ) ∨ e = 0) := by
  obtain ⟨least, below, above⟩ := roundingExponent_spec positive divisor
  have error := rounded_at_error (n := n) divisor (roundingExponent n d)
  have magnitude : magnitudeOfRatio n d = _ := if_neg positive.ne'
  rw [magnitude]
  simp only
  generalize roundingExponent n d = e at *
  generalize (if e < 0 then roundHalfEven (n * 2 ^ (-e).toNat) d
    else roundHalfEven n (d * 2 ^ e.toNat)) = q at *
  obtain ⟨k, raised⟩ := Int.eq_ofNat_of_zero_le (by omega : 0 ≤ e + 1074)
  have unitPositive : (0 : ℚ) < unit := Nat.cast_pos.mpr unit_pos
  -- The exponent of the unit stays a name, as the power would be written out otherwise.
  have power : (2 : ℚ) ^ e * unit = 2 ^ k := by
    obtain ⟨j, unitPower, exponent⟩ : ∃ j, unit = 2 ^ j ∧ j = 1074 := ⟨_, rfl, rfl⟩
    have shifted : (k : ℤ) = e + (j : ℤ) := by omega
    rw [unitPower, Nat.cast_pow, Nat.cast_ofNat, ← zpow_natCast, ← zpow_natCast,
      ← zpow_add₀ two_ne_zero, shifted]
  refine ⟨k, q, by rw [raised, Int.toNat_natCast], ?_, ?_, ?_⟩
  · rw [← power, ← mul_assoc, ← sub_mul, abs_mul, abs_of_pos unitPositive, ← div_mul_eq_mul_div]
    exact mul_le_mul_of_nonneg_right error unitPositive.le
  · rw [← power, ← mul_assoc]
    exact mul_lt_mul_of_pos_right below unitPositive
  · rcases above with normal | subnormal
    · left
      rw [← power, ← mul_assoc]
      exact mul_le_mul_of_nonneg_right normal unitPositive.le
    · right
      omega

end Exponent

section Bits

variable (sign : Bool) {magnitude : ℕ}

theorem toNat_ofBits (bound : magnitude ≤ 2047 * 2 ^ 52) :
    (ofBits sign magnitude).bits.toNat = magnitude + if sign then 2 ^ 63 else 0 := by
  rw [ofBits, UInt64.toNat_ofNat', Nat.mod_eq_of_lt]
  split <;> omega

theorem negative_ofBits (bound : magnitude ≤ 2047 * 2 ^ 52) :
    (ofBits sign magnitude).negative = sign := by
  rw [negative, toNat_ofBits sign bound]
  cases sign with
  | false => exact decide_eq_false (by simp only [Bool.false_eq_true, if_false]; omega)
  | true => exact decide_eq_true (Nat.le_add_left _ _)

theorem fields_ofBits (bound : magnitude ≤ 2047 * 2 ^ 52) :
    (ofBits sign magnitude).exponentField = magnitude / 2 ^ 52 ∧
      (ofBits sign magnitude).fraction = magnitude % 2 ^ 52 := by
  rw [exponentField, fraction, toNat_ofBits sign bound]
  constructor <;> split <;> omega

theorem isFinite_ofBits_iff (bound : magnitude ≤ 2047 * 2 ^ 52) :
    (ofBits sign magnitude).isFinite = true ↔ magnitude < 2047 * 2 ^ 52 := by
  rw [isFinite, (fields_ofBits sign bound).1, bne_iff_ne]
  omega

/-- A multiple of a power of two with 53 digits, or fewer if the power is the least, is written into the
bits by adding them up, also where the digits are one more. -/
theorem units_ofBits {e q : ℕ} (digits : q ≤ 2 ^ 53) (full : 2 ^ 52 ≤ q ∨ e = 0)
    (bound : e * 2 ^ 52 + q ≤ 2047 * 2 ^ 52) :
    (ofBits sign (e * 2 ^ 52 + q)).units = q * 2 ^ e := by
  obtain ⟨exponent, fraction⟩ := fields_ofBits sign bound
  rcases Nat.lt_or_ge q (2 ^ 52) with few | many
  · obtain rfl : e = 0 := by omega
    rw [units_of_subnormal (by omega), fraction]
    omega
  · rw [units_of_normal (by omega), exponent, fraction]
    rcases Nat.lt_or_eq_of_le digits with less | rfl
    · have field : (e * 2 ^ 52 + q) / 2 ^ 52 - 1 = e := by omega
      have rest : 2 ^ 52 + (e * 2 ^ 52 + q) % 2 ^ 52 = q := by omega
      rw [field, rest]
    · have field : (e * 2 ^ 52 + 2 ^ 53) / 2 ^ 52 - 1 = e + 1 := by omega
      have rest : 2 ^ 52 + (e * 2 ^ 52 + 2 ^ 53) % 2 ^ 52 = 2 ^ 52 := by omega
      rw [field, rest, Nat.pow_succ]
      ring

end Bits

variable {x : Binary64}

theorem toRat_of_nonnegative (sign : x.negative = false) : x.toRat = x.units / unit := by
  rw [toRat_eq, signedUnits, sign]
  rfl

theorem toRat_of_units {n : ℕ} (sign : x.negative = false) (whole : x.units = n * unit) : x.toRat = n := by
  rw [toRat_of_nonnegative sign, whole, Nat.cast_mul, mul_div_cancel_right₀]
  exact Nat.cast_ne_zero.mpr unit_pos.ne'

/-- The least power of two beyond all finite floats. -/
def beyond : ℚ := 2 ^ 1024

theorem beyond_pos : 0 < beyond := pow_pos two_pos _

theorem beyond_halves : beyond = 2 * 2 ^ 1023 := pow_succ' 2 1023

theorem beyond_doubled : (2 : ℚ) ^ 1025 = 2 * beyond := pow_succ' 2 1024

theorem beyond_mul_unit : beyond * unit = 2 ^ 52 * 2 ^ 2046 := by
  obtain ⟨j, unitPower, exponent⟩ : ∃ j, unit = 2 ^ j ∧ j = 1074 := ⟨_, rfl, rfl⟩
  obtain ⟨k, power, great⟩ : ∃ k : ℕ, beyond = 2 ^ k ∧ k = 1024 := ⟨_, rfl, rfl⟩
  have sum : k + j = 52 + 2046 := by omega
  rw [unitPower, power, Nat.cast_pow, Nat.cast_ofNat, ← pow_add, ← pow_add, sum]

theorem units_lt (finite : x.isFinite = true) : (x.units : ℚ) < beyond * unit := by
  have field : x.exponentField < 2 ^ 11 := Nat.mod_lt _ (by decide)
  have notLast : x.exponentField ≠ 2047 := bne_iff_ne.mp finite
  obtain ⟨j, exponent⟩ : ∃ j, 2046 = j + 1 := ⟨_, rfl⟩
  have scale : x.scale ≤ j := by
    rw [Binary64.scale]
    omega
  have bound : x.units < 2 ^ 52 * 2 ^ (j + 1) :=
    calc x.units < 2 ^ 53 * 2 ^ x.scale :=
          Nat.mul_lt_mul_of_pos_right x.significand_lt (Nat.two_pow_pos _)
      _ ≤ 2 ^ 53 * 2 ^ j := Nat.mul_le_mul_left _ (Nat.pow_le_pow_right Nat.two_pos scale)
      _ = 2 ^ 52 * 2 ^ (j + 1) := by ring
  rw [beyond_mul_unit, exponent]
  exact_mod_cast bound

theorem toRat_lt_beyond (finite : x.isFinite = true) : x.toRat < beyond := by
  have unitPositive : (0 : ℚ) < unit := Nat.cast_pos.mpr unit_pos
  calc x.toRat ≤ |x.toRat| := le_abs_self _
    _ = x.units / unit := abs_toRat x
    _ < beyond := (div_lt_iff₀ unitPositive).mpr (units_lt finite)

section Ratio

variable {n d : ℕ}

/-- The float that a quotient is rounded to: it is finite and not far from it, or infinite, and then the
quotient comes near to what is beyond all finite floats. -/
theorem ofRatio_cases (positive : 0 < n) (divisor : 0 < d) :
    ((ofRatio false n d).isFinite = true ∧ (ofRatio false n d).negative = false ∧
      ∃ e : ℕ, |(ofRatio false n d).toRat * unit - n / d * unit| ≤ 2 ^ e / 2 ∧
        (2 ^ 52 * 2 ^ e ≤ (n / d * unit : ℚ) ∨ e = 0)) ∨
    (ofRatio false n d = infinity ∧ (1 - 1 / 2 ^ 53) * beyond ≤ (n / d : ℚ)) := by
  have unitPositive : (0 : ℚ) < unit := Nat.cast_pos.mpr unit_pos
  obtain ⟨e, q, magnitude, error, below, above⟩ := magnitudeOfRatio_spec positive divisor
  have scale : (0 : ℚ) < 2 ^ e := pow_pos two_pos e
  obtain ⟨low, high⟩ := abs_le.mp error
  -- Rounding may carry into one more digit, and then gives the next power of two.
  have digits : q ≤ 2 ^ 53 := by
    have : (q : ℚ) < 2 ^ 53 + 1 := by
      refine lt_of_mul_lt_mul_right ?_ scale.le
      linarith
    have : q < 2 ^ 53 + 1 := by exact_mod_cast this
    omega
  have full : 2 ^ 52 ≤ q ∨ e = 0 := by
    refine above.imp_left fun normal => ?_
    have : (2 ^ 52 : ℚ) < q + 1 := by
      refine lt_of_mul_lt_mul_right ?_ scale.le
      linarith
    have : 2 ^ 52 < q + 1 := by exact_mod_cast this
    omega
  rcases Nat.lt_or_ge (e * 2 ^ 52 + q) (2047 * 2 ^ 52) with small | great
  · have written : ofRatio false n d = ofBits false (e * 2 ^ 52 + q) := by
      rw [ofRatio, magnitude, Nat.min_eq_left small.le]
    have sign := negative_ofBits false small.le
    left
    rw [written]
    refine ⟨(isFinite_ofBits_iff false small.le).mpr small, sign, e, ?_, above⟩
    rw [toRat_of_nonnegative sign, units_ofBits false digits full small.le,
      div_mul_cancel₀ _ unitPositive.ne']
    push_cast
    exact error
  · right
    refine ⟨by rw [ofRatio, magnitude, Nat.min_eq_right great]; rfl, ?_⟩
    obtain ⟨j, exponent⟩ : ∃ j, j = 2046 := ⟨_, rfl⟩
    have normal := above.resolve_right (by omega)
    have reached : 2 ^ 52 * 2 ^ j ≤ q * 2 ^ e := by
      rcases Nat.lt_or_ge e j with less | atLeast
      · obtain rfl : j = e + 1 := by omega
        obtain rfl : q = 2 ^ 53 := by omega
        rw [Nat.pow_succ]
        exact (by ring : 2 ^ 52 * (2 ^ e * 2) = 2 ^ 53 * 2 ^ e).le
      · exact Nat.mul_le_mul (full.resolve_right (by omega)) (Nat.pow_le_pow_right Nat.two_pos atLeast)
    have reached : (2 : ℚ) ^ 52 * 2 ^ j ≤ q * 2 ^ e := by exact_mod_cast reached
    refine le_of_mul_le_mul_right ?_ unitPositive
    rw [mul_assoc, beyond_mul_unit, ← exponent]
    linarith

theorem magnitudeOfRatio_le (n d : ℕ) : magnitudeOfRatio n d ≤ 2047 * 2 ^ 52 := by
  rw [magnitudeOfRatio]
  split
  · exact Nat.zero_le _
  · exact Nat.min_le_right _ _

theorem negative_ofRatio (sign : Bool) (n d : ℕ) : (ofRatio sign n d).negative = sign :=
  negative_ofBits sign (magnitudeOfRatio_le n d)

theorem two_pow_le_beyond : 2 ^ 80 ≤ beyond := pow_le_pow_right₀ one_le_two (by decide)

/-- A quotient up to `b` is not rounded to more than twice `b`. -/
theorem ofRatio_le {b : ℚ} (positive : 0 < n) (divisor : 0 < d) (least : 1 ≤ b) (most : b ≤ 2 ^ 64)
    (bound : (n / d : ℚ) ≤ b) : (ofRatio false n d).isFinite = true ∧
      (ofRatio false n d).negative = false ∧ (ofRatio false n d).toRat ≤ 2 * b := by
  have unitLeast : (1 : ℚ) ≤ unit := Nat.one_le_cast.mpr unit_pos
  have unitPositive : (0 : ℚ) < unit := by linarith
  rcases ofRatio_cases positive divisor with ⟨finite, sign, e, error, above⟩ | ⟨_, great⟩
  · have scaled : (n / d * unit : ℚ) ≤ b * unit := mul_le_mul_of_nonneg_right bound unitPositive.le
    have small : (2 : ℚ) ^ e / 2 ≤ b * unit := by
      have scale : (0 : ℚ) < 2 ^ e := pow_pos two_pos e
      rcases above with normal | rfl
      · linarith
      · have : 1 * 1 ≤ b * unit := mul_le_mul least unitLeast one_pos.le (by linarith)
        rw [pow_zero]
        linarith
    have high := (abs_le.mp error).2
    refine ⟨finite, sign, le_of_mul_le_mul_right ?_ unitPositive⟩
    linarith
  · have := two_pow_le_beyond
    linarith

end Ratio

end Binary64
end NestedQuery
