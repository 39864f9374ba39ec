/- How the errors of several roundings add up: a float that a number is rounded to in so many steps is not
further from it than as many factors next to one. -/
import Mathlib.Algebra.Order.Ring.Pow
import NestedQuery.Proofs.Rounding
import NestedQuery.Retry.Backoff

namespace NestedQuery.Binary64

/-- The part of a number that one rounding leaves at least. -/
def kept : ℚ := 1 - 1 / 2 ^ 53

theorem kept_pos : 0 < kept := by norm_num [kept]

theorem kept_le_one : kept ≤ 1 := by norm_num [kept]

theorem kept_pow_pos (count : ℕ) : 0 < kept ^ count := pow_pos kept_pos count

theorem kept_pow_antitone {j k : ℕ} (fewer : j ≤ k) : kept ^ k ≤ kept ^ j :=
  pow_le_pow_of_le_one kept_pos.le kept_le_one fewer

/-- Many roundings take away no more than as many times the part that one takes away. -/
theorem le_kept_pow (count : ℕ) : 1 - count / 2 ^ 53 ≤ kept ^ count := by
  have bernoulli := one_add_mul_le_pow (a := (-(1 / 2 ^ 53) : ℚ)) (by norm_num) count
  rw [kept, sub_eq_add_neg 1 (1 / 2 ^ 53)]
  refine le_trans (le_of_eq ?_) bernoulli
  ring

/-- Up to `2 ^ 52` roundings leave half of a number. -/
theorem le_twice_kept {count : ℕ} (few : count ≤ 2 ^ 52) {r : ℚ} (nonneg : 0 ≤ r) :
    r ≤ 2 * (kept ^ count * r) := by
  have bound : (count : ℚ) ≤ 2 ^ 52 := by exact_mod_cast few
  have half : 1 / 2 ≤ kept ^ count := le_trans (by linarith) (le_kept_pow count)
  have scaled := mul_le_mul_of_nonneg_right half nonneg
  linarith

/-- A float to which a number that is not negative is rounded in so many steps. Numbers from `beyond` on are
rounded to infinity. -/
inductive Near (count : ℕ) (x : Binary64) (r : ℚ) : Prop
  | finite (bounded : x.isFinite = true) (sign : x.negative = false)
      (above : kept ^ count * r ≤ x.toRat) (below : kept ^ count * x.toRat ≤ r)
  | infinite (great : x = infinity) (reached : kept ^ count * beyond ≤ r)

variable {x y : Binary64} {r s : ℚ} {j k : ℕ}

theorem toRat_nonneg (sign : x.negative = false) : 0 ≤ x.toRat := by
  rw [toRat_of_nonnegative sign]
  positivity

theorem toRat_zero : Binary64.zero.toRat = 0 :=
  (toRat_of_units (n := 0) (by decide) (by decide +kernel)).trans Nat.cast_zero

theorem nonnegative_of_pos (positive : 0 < x.toRat) : x.negative = false := by
  have unitPositive : (0 : ℚ) < unit := Nat.cast_pos.mpr unit_pos
  rw [toRat_eq] at positive
  have numerator := (div_pos_iff_of_pos_right unitPositive).mp positive
  cases sign : x.negative with
  | false => rfl
  | true =>
      have below : x.signedUnits ≤ 0 := by
        rw [signedUnits, if_pos sign]
        omega
      exact absurd (Int.cast_pos.mp numerator) (not_lt_of_ge below)

theorem isZero_of_pos (positive : 0 < x.toRat) : x.isZero = false := by
  by_contra zero
  rw [Bool.not_eq_false] at zero
  simp only [isZero, Bool.and_eq_true, beq_iff_eq] at zero
  rw [toRat, if_pos zero.1, zero.2, Nat.cast_zero, zero_div, mul_zero, zero_mul] at positive
  exact lt_irrefl 0 positive

theorem isInfinite_of_isFinite (finite : x.isFinite = true) : x.isInfinite = false := by
  have bounded : (x.exponentField == 2047) = false := by simpa [isFinite] using finite
  rw [isInfinite, bounded, Bool.false_and]

theorem two_pow_le_unit : (2 : ℚ) ^ 116 ≤ unit := by
  obtain ⟨j, unitPower, exponent⟩ : ∃ j, unit = 2 ^ j ∧ j = 1074 := ⟨_, rfl, rfl⟩
  rw [unitPower, Nat.cast_pow, Nat.cast_ofNat]
  exact pow_le_pow_right₀ one_le_two (by omega)

namespace Near

theorem mono (near : Near j x r) (nonneg : 0 ≤ r) (fewer : j ≤ k) : Near k x r := by
  have factor := kept_pow_antitone fewer
  cases near with
  | finite bounded sign above below =>
      exact .finite bounded sign (le_trans (mul_le_mul_of_nonneg_right factor nonneg) above)
        (le_trans (mul_le_mul_of_nonneg_right factor (toRat_nonneg sign)) below)
  | infinite great reached =>
      exact .infinite great (le_trans (mul_le_mul_of_nonneg_right factor beyond_pos.le) reached)

/-- One more rounding. -/
theorem ofRatio {n d : ℕ} (positive : 0 < n) (divisor : 0 < d) (notTiny : 1 / 2 ^ 64 ≤ (n / d : ℚ))
    (above : kept ^ k * r ≤ n / d) (below : kept ^ k * (n / d) ≤ r) :
    Near (k + 1) (ofRatio false n d) r := by
  have unitPositive : (0 : ℚ) < unit := Nat.cast_pos.mpr unit_pos
  rcases ofRatio_cases positive divisor with ⟨finite, sign, e, error, range⟩ | ⟨great, reached⟩
  · have value : 0 < (n / d : ℚ) := div_pos (Nat.cast_pos.mpr positive) (Nat.cast_pos.mpr divisor)
    generalize (n / d : ℚ) = v at *
    generalize Binary64.ofRatio false n d = x at *
    have full : 2 ^ 52 * 2 ^ e ≤ v * unit := by
      refine range.elim id fun least => ?_
      rw [least, pow_zero]
      calc (2 : ℚ) ^ 52 * 1 = 1 / 2 ^ 64 * 2 ^ 116 := by norm_num
        _ ≤ v * unit := mul_le_mul notTiny two_pow_le_unit (by positivity) value.le
    have close : |x.toRat - v| ≤ v / 2 ^ 53 := by
      refine le_of_mul_le_mul_right ?_ unitPositive
      rw [← abs_of_pos unitPositive, ← abs_mul, abs_of_pos unitPositive, sub_mul]
      linarith
    obtain ⟨low, high⟩ := abs_le.mp close
    have keptLow : kept * v ≤ x.toRat := by
      rw [kept]
      linarith
    have keptHigh : kept * x.toRat ≤ v := by
      rw [kept]
      linarith
    refine .finite finite sign ?_ ?_
    · calc kept ^ (k + 1) * r = kept * (kept ^ k * r) := by ring
        _ ≤ kept * v := mul_le_mul_of_nonneg_left above kept_pos.le
        _ ≤ x.toRat := keptLow
    · calc kept ^ (k + 1) * x.toRat = kept ^ k * (kept * x.toRat) := by ring
        _ ≤ kept ^ k * v := mul_le_mul_of_nonneg_left keptHigh (kept_pow_pos k).le
        _ ≤ r := below
  · refine .infinite great ?_
    calc kept ^ (k + 1) * beyond = kept ^ k * (kept * beyond) := by ring
      _ ≤ kept ^ k * (n / d) := mul_le_mul_of_nonneg_left reached (kept_pow_pos k).le
      _ ≤ r := below

theorem nonneg (near : Near k x r) : 0 ≤ r := by
  cases near with
  | finite bounded sign above below =>
      exact le_trans (mul_nonneg (kept_pow_pos k).le (toRat_nonneg sign)) below
  | infinite great reached => exact le_trans (mul_nonneg (kept_pow_pos k).le beyond_pos.le) reached

theorem nonnegative (near : Near k x r) : x.negative = false := by
  cases near with
  | finite _ sign => exact sign
  | infinite great => rw [great]; decide

theorem bounds (near : Near k x r) (finite : x.isFinite = true) : x.negative = false ∧
    kept ^ k * r ≤ x.toRat ∧ kept ^ k * x.toRat ≤ r := by
  cases near with
  | finite _ sign above below => exact ⟨sign, above, below⟩
  | infinite great =>
      rw [great] at finite
      exact absurd finite (by decide)

theorem infinite_of_not_finite (near : Near k x r) (unbounded : x.isFinite = false) :
    x = infinity ∧ kept ^ k * beyond ≤ r := by
  cases near with
  | finite bounded =>
      rw [bounded] at unbounded
      cases unbounded
  | infinite great reached => exact ⟨great, reached⟩

theorem le_twice (near : Near k x r) (finite : x.isFinite = true) (few : k ≤ 2 ^ 52) :
    r ≤ 2 * x.toRat := by
  have kept := le_twice_kept few near.nonneg
  have above := (near.bounds finite).2.1
  linarith

theorem twice_le (near : Near k x r) (finite : x.isFinite = true) (few : k ≤ 2 ^ 52) :
    x.toRat ≤ 2 * r := by
  obtain ⟨sign, -, below⟩ := near.bounds finite
  have kept := le_twice_kept few (toRat_nonneg sign)
  linarith

/-- A number far below what is beyond the floats is not rounded to infinity. -/
theorem isFinite_of_lt (near : Near k x r) (few : k ≤ 2 ^ 52) (small : r < 2 ^ 79) :
    x.isFinite = true := by
  cases near with
  | finite bounded => exact bounded
  | infinite great reached =>
      have kept := le_twice_kept few beyond_pos.le
      have := two_pow_le_beyond
      linarith

end Near

section Multiply

theorem mul_of_finite (finiteX : x.isFinite = true) (finiteY : y.isFinite = true)
    (signX : x.negative = false) (signY : y.negative = false) :
    x.mul y = ofRatio false (x.units * y.units) (unit * unit) := by
  rw [mul, isNaN_of_isFinite finiteX, isNaN_of_isFinite finiteY, isInfinite_of_isFinite finiteX,
    isInfinite_of_isFinite finiteY, signX, signY]
  rfl

theorem infinity_mul (finite : y.isFinite = true) (sign : y.negative = false) (positive : 0 < y.toRat) :
    infinity.mul y = infinity ∧ y.mul infinity = infinity := by
  have notNaN := isNaN_of_isFinite finite
  have notZero := isZero_of_pos positive
  have notInfinite := isInfinite_of_isFinite finite
  have infinite : infinity.isInfinite = true ∧ infinity.isNaN = false ∧ infinity.isZero = false ∧
      infinity.negative = false := by decide
  constructor <;>
    simp only [mul, notNaN, notZero, notInfinite, sign, infinite, Bool.or_self, Bool.or_false,
      Bool.false_or, if_true, if_false, Bool.false_eq_true, bne_self_eq_false] <;> rfl

theorem isFinite_infinity_mul (y : Binary64) : (infinity.mul y).isFinite = false := by
  have infinite : infinity.isInfinite = true ∧ infinity.isNaN = false := by decide
  simp only [mul, infinite, Bool.false_or, Bool.true_or, if_true]
  split
  · decide
  · split
    · decide
    · cases infinity.negative != y.negative <;> decide

theorem infinity_mul_infinity : infinity.mul infinity = infinity := by decide

theorem toRat_mul_toRat (signX : x.negative = false) (signY : y.negative = false) :
    ((x.units * y.units : ℕ) / (unit * unit : ℕ) : ℚ) = x.toRat * y.toRat := by
  rw [toRat_of_nonnegative signX, toRat_of_nonnegative signY]
  push_cast
  rw [mul_div_mul_comm]

/-- A product up to `b` is not rounded to more than twice `b`. -/
theorem mul_le {b : ℚ} (finiteX : x.isFinite = true) (finiteY : y.isFinite = true)
    (signX : x.negative = false) (signY : y.negative = false) (least : 1 ≤ b) (most : b ≤ 2 ^ 64)
    (bound : x.toRat * y.toRat ≤ b) : (x.mul y).isFinite = true ∧ (x.mul y).toRat ≤ 2 * b := by
  rw [mul_of_finite finiteX finiteY signX signY]
  rcases Nat.eq_zero_or_pos (x.units * y.units) with none | some
  · have vanished : ofRatio false 0 (unit * unit) = zero := rfl
    rw [none, vanished, toRat_zero]
    exact ⟨by decide, by linarith⟩
  · have result := ofRatio_le some (Nat.mul_pos unit_pos unit_pos) least most
      (by rw [toRat_mul_toRat signX signY]; exact bound)
    exact ⟨result.1, result.2.2⟩

theorem units_pos (sign : x.negative = false) (positive : 0 < x.toRat) : 0 < x.units := by
  rw [toRat_of_nonnegative sign] at positive
  rcases Nat.eq_zero_or_pos x.units with zero | some
  · rw [zero, Nat.cast_zero, zero_div] at positive
    exact absurd positive (lt_irrefl 0)
  · exact some

/-- The errors of the factors, and one for the product. -/
theorem Near.mul_finite (nearX : Near j x r) (nearY : Near k y s) (finiteX : x.isFinite = true)
    (finiteY : y.isFinite = true) (notTiny : 1 / 2 ^ 64 ≤ x.toRat * y.toRat) :
    Near (j + k + 1) (x.mul y) (r * s) := by
  obtain ⟨signX, aboveX, belowX⟩ := nearX.bounds finiteX
  obtain ⟨signY, aboveY, belowY⟩ := nearY.bounds finiteY
  have nonnegX := toRat_nonneg signX
  have nonnegY := toRat_nonneg signY
  have product : 0 < x.toRat * y.toRat := by linarith
  have positiveX := pos_of_mul_pos_left product nonnegY
  have positiveY := pos_of_mul_pos_right product nonnegX
  have value := toRat_mul_toRat signX signY
  rw [mul_of_finite finiteX finiteY signX signY]
  refine .ofRatio (Nat.mul_pos (units_pos signX positiveX) (units_pos signY positiveY))
    (Nat.mul_pos unit_pos unit_pos) (by rw [value]; exact notTiny) ?_ ?_
  · rw [value]
    calc kept ^ (j + k) * (r * s) = kept ^ j * r * (kept ^ k * s) := by ring
      _ ≤ x.toRat * y.toRat :=
          mul_le_mul aboveX aboveY (mul_nonneg (kept_pow_pos k).le nearY.nonneg) nonnegX
  · rw [value]
    calc kept ^ (j + k) * (x.toRat * y.toRat) = kept ^ j * x.toRat * (kept ^ k * y.toRat) := by ring
      _ ≤ r * s := mul_le_mul belowX belowY (mul_nonneg (kept_pow_pos k).le nonnegY) nearX.nonneg

theorem Near.infinite_of_le {count : ℕ} (reached : kept ^ k * beyond ≤ r) (more : r ≤ s)
    (fewer : k ≤ count) : Near count infinity s :=
  .infinite rfl (le_trans (mul_le_mul_of_nonneg_right (kept_pow_antitone fewer) beyond_pos.le)
    (le_trans reached more))

/-- The errors of two factors of at least one, and one for the product, which may be infinite. -/
theorem Near.mul (nearX : Near j x r) (nearY : Near k y s) (fewX : j ≤ 2 ^ 52) (fewY : k ≤ 2 ^ 52)
    (leastX : 1 ≤ r) (leastY : 1 ≤ s) : Near (j + k + 1) (x.mul y) (r * s) := by
  have moreX : r ≤ r * s := le_mul_of_one_le_right (by linarith) leastY
  have moreY : s ≤ r * s := le_mul_of_one_le_left (by linarith) leastX
  cases finiteX : x.isFinite <;> cases finiteY : y.isFinite
  case true.true =>
    have twiceX := nearX.le_twice finiteX fewX
    have twiceY := nearY.le_twice finiteY fewY
    refine nearX.mul_finite nearY finiteX finiteY ?_
    calc (1 / 2 ^ 64 : ℚ) ≤ 1 / 2 * (1 / 2) := by norm_num
      _ ≤ x.toRat * y.toRat := mul_le_mul (by linarith) (by linarith) (by norm_num) (by linarith)
  case true.false =>
    obtain ⟨great, reached⟩ := nearY.infinite_of_not_finite finiteY
    have twiceX := nearX.le_twice finiteX fewX
    rw [great, (infinity_mul finiteX nearX.nonnegative (by linarith)).2]
    exact .infinite_of_le reached moreY (by omega)
  case false.true =>
    obtain ⟨great, reached⟩ := nearX.infinite_of_not_finite finiteX
    have twiceY := nearY.le_twice finiteY fewY
    rw [great, (infinity_mul finiteY nearY.nonnegative (by linarith)).1]
    exact .infinite_of_le reached moreX (by omega)
  case false.false =>
    obtain ⟨great, reached⟩ := nearX.infinite_of_not_finite finiteX
    rw [great, (nearY.infinite_of_not_finite finiteY).1, infinity_mul_infinity]
    exact .infinite_of_le reached moreX (by omega)

end Multiply

section Sum

theorem add_of_finite (finiteX : x.isFinite = true) (finiteY : y.isFinite = true)
    (signX : x.negative = false) (signY : y.negative = false) (positive : 0 < x.units + y.units) :
    x.add y = ofRatio false (x.units + y.units) unit := by
  have total : x.signedUnits + y.signedUnits = ((x.units + y.units : ℕ) : ℤ) := by
    rw [signedUnits, signedUnits, signX, signY]
    rfl
  have nonzero : ((x.units + y.units : ℕ) : ℤ) ≠ 0 := Int.natCast_ne_zero.mpr positive.ne'
  have sign : decide (((x.units + y.units : ℕ) : ℤ) < 0) = false :=
    decide_eq_false (not_lt_of_ge (Int.natCast_nonneg _))
  simp only [add, isNaN_of_isFinite finiteX, isNaN_of_isFinite finiteY, isInfinite_of_isFinite finiteX,
    isInfinite_of_isFinite finiteY, Bool.or_self, Bool.false_eq_true, if_false, total, if_neg nonzero,
    sign, Int.natAbs_natCast]

/-- The errors of the terms, and one for the sum. -/
theorem Near.add (nearX : Near k x r) (nearY : Near k y s) (finiteX : x.isFinite = true)
    (finiteY : y.isFinite = true) (few : k ≤ 2 ^ 52) (least : 1 / 2 ^ 63 ≤ r + s) :
    Near (k + 1) (x.add y) (r + s) := by
  obtain ⟨signX, aboveX, belowX⟩ := nearX.bounds finiteX
  obtain ⟨signY, aboveY, belowY⟩ := nearY.bounds finiteY
  have unitPositive : (0 : ℚ) < unit := Nat.cast_pos.mpr unit_pos
  have value : ((x.units + y.units : ℕ) / unit : ℚ) = x.toRat + y.toRat := by
    rw [toRat_of_nonnegative signX, toRat_of_nonnegative signY, Nat.cast_add, add_div]
  have twice := le_twice_kept few (by linarith : 0 ≤ r + s)
  have notTiny : 1 / 2 ^ 64 ≤ x.toRat + y.toRat := by linarith
  have positive : 0 < x.units + y.units := by
    rcases Nat.eq_zero_or_pos (x.units + y.units) with zero | some
    · rw [zero, Nat.cast_zero, zero_div] at value
      linarith
    · exact some
  rw [add_of_finite finiteX finiteY signX signY positive]
  refine .ofRatio positive unit_pos (by rw [value]; exact notTiny) ?_ ?_
  · rw [value]
    linarith
  · rw [value]
    linarith

end Sum

section Divide

theorem div_of_finite (finiteX : x.isFinite = true) (finiteY : y.isFinite = true)
    (signX : x.negative = false) (signY : y.negative = false) (positive : 0 < y.toRat) :
    x.div y = ofRatio false x.units y.units := by
  simp only [div, isNaN_of_isFinite finiteX, isNaN_of_isFinite finiteY, isInfinite_of_isFinite finiteX,
    isInfinite_of_isFinite finiteY, isZero_of_pos positive, signX, signY, Bool.or_self,
    Bool.false_eq_true, if_false, bne_self_eq_false]

theorem toRat_div_toRat (signX : x.negative = false) (signY : y.negative = false) :
    (x.units / y.units : ℚ) = x.toRat / y.toRat := by
  have unitPositive : (0 : ℚ) < unit := Nat.cast_pos.mpr unit_pos
  rw [toRat_of_nonnegative signX, toRat_of_nonnegative signY,
    div_div_div_cancel_right₀ unitPositive.ne']

/-- The error of the dividend, and one for the quotient by a number that is exact. -/
theorem Near.div (near : Near k x r) (finiteX : x.isFinite = true) (finiteY : y.isFinite = true)
    (signY : y.negative = false) (positive : 0 < y.toRat) (few : k ≤ 2 ^ 52)
    (least : 1 / 2 ^ 63 ≤ r / y.toRat) : Near (k + 1) (x.div y) (r / y.toRat) := by
  obtain ⟨signX, above, below⟩ := near.bounds finiteX
  have value := toRat_div_toRat signX signY
  have low : kept ^ k * (r / y.toRat) ≤ x.toRat / y.toRat := by
    rw [← mul_div_assoc]
    exact div_le_div_of_nonneg_right above positive.le
  have high : kept ^ k * (x.toRat / y.toRat) ≤ r / y.toRat := by
    rw [← mul_div_assoc]
    exact div_le_div_of_nonneg_right below positive.le
  have twice := le_twice_kept few (by linarith : 0 ≤ r / y.toRat)
  have notTiny : 1 / 2 ^ 64 ≤ x.toRat / y.toRat := by linarith
  have dividend : 0 < x.toRat := by
    have quotient : 0 < x.toRat / y.toRat := by linarith
    exact (div_pos_iff_of_pos_right positive).mp quotient
  rw [div_of_finite finiteX finiteY signX signY positive]
  exact .ofRatio (units_pos signX dividend) (units_pos signY positive) (by rw [value]; exact notTiny)
    (by rw [value]; exact low) (by rw [value]; exact high)

end Divide

theorem Near.zero (count : ℕ) : Near count Binary64.zero 0 :=
  .finite (by decide) (by decide) (by rw [mul_zero, toRat_zero]) (by rw [toRat_zero, mul_zero])

/-- A float stands for its own number without any error. -/
theorem Near.refl (finite : x.isFinite = true) (sign : x.negative = false) : Near 0 x x.toRat :=
  .finite finite sign (by rw [pow_zero, one_mul]) (by rw [pow_zero, one_mul])

/-- A whole number is rounded once. -/
theorem Near.ofNat (n : ℕ) : Near 1 (ofNat n) n := by
  rcases Nat.eq_zero_or_pos n with rfl | positive
  · exact_mod_cast Near.zero 1
  · have least : (1 : ℚ) ≤ n := Nat.one_le_cast.mpr positive
    refine .ofRatio positive Nat.one_pos ?_ ?_ ?_
    · rw [Nat.cast_one, div_one]
      linarith
    · rw [Nat.cast_one, div_one, pow_zero, one_mul]
    · rw [Nat.cast_one, div_one, pow_zero, one_mul]

section Power

theorem negative_mul (signX : x.negative = false) (signY : y.negative = false) :
    (x.mul y).negative = false := by
  simp only [mul, signX, signY, bne_self_eq_false]
  split
  · decide
  · split
    · split <;> decide
    · exact negative_ofRatio _ _ _

theorem negative_div (signX : x.negative = false) (signY : y.negative = false) :
    (x.div y).negative = false := by
  simp only [div, signX, signY, bne_self_eq_false]
  split
  · decide
  · split
    · split <;> decide
    · split
      · decide
      · split
        · split <;> decide
        · exact negative_ofRatio _ _ _

theorem negative_powerFrom (n : ℕ) (signX : x.negative = false) (signY : y.negative = false) :
    (powerFrom x y n).negative = false := by
  fun_induction Binary64.powerFrom x y n with
  | case1 => exact negative_mul signX signY
  | case2 => exact signX
  | case3 x y n _ ih =>
      refine ih ?_ (negative_mul signY signY)
      split
      · exact negative_mul signX signY
      · exact signX

/-- A power of a number that is not negative is not negative either. -/
theorem negative_power (n : ℤ) (sign : x.negative = false) : (x.power n).negative = false := by
  have result := negative_powerFrom n.natAbs (by decide : one.negative = false) sign
  rw [power]
  split
  · exact negative_div (by decide) result
  · exact result

/-- A power adds an error for each factor. -/
theorem Near.powerFrom {n : ℕ} (near : Near j x r) (base : Near k y s) (leastX : 1 ≤ r)
    (leastY : 1 ≤ s) (few : j + n * (k + 1) ≤ 2 ^ 52) :
    Near (j + n * (k + 1)) (powerFrom x y n) (r * s ^ n) := by
  -- A squaring doubles the errors of the base and halves how often it is still multiplied, so their number
  -- `j + n * (k + 1)` stays the same from one step to the next.
  fun_induction Binary64.powerFrom x y n generalizing j k r s with
  | case1 =>
      rw [pow_one, Nat.one_mul]
      exact near.mul base (by omega) (by omega) leastX leastY
  | case2 _ _ n small notOne =>
      obtain rfl : n = 0 := by omega
      rw [Nat.zero_mul, Nat.add_zero, pow_zero, mul_one]
      exact near
  | case3 x y n many ih =>
      have halves := Nat.div_add_mod n 2
      have twice : 2 * (k + 1) ≤ n * (k + 1) := Nat.mul_le_mul_right _ (by omega)
      have square := base.mul base (by omega) (by omega) leastY leastY
      have result : Near (j + n % 2 * (k + 1)) (if n % 2 = 1 then x.mul y else x) (r * s ^ (n % 2)) := by
        rcases Nat.mod_two_eq_zero_or_one n with even | odd
        · rw [even, if_neg (by decide), Nat.zero_mul, pow_zero, mul_one]
          exact near
        · rw [odd, if_pos rfl, Nat.one_mul, pow_one]
          exact near.mul base (by omega) (by omega) leastX leastY
      have count : j + n % 2 * (k + 1) + n / 2 * (k + k + 1 + 1) = j + n * (k + 1) := by
        conv_rhs => rw [← halves]
        ring
      have power : r * s ^ (n % 2) * (s * s) ^ (n / 2) = r * s ^ n := by
        conv_rhs => rw [← halves, pow_add, pow_mul]
        ring
      have rest := ih result square (one_le_mul_of_one_le_of_one_le leastX (one_le_pow₀ leastY))
        (one_le_mul_of_one_le_of_one_le leastY leastY) (by omega)
      rwa [count, power] at rest

theorem toRat_one : one.toRat = 1 :=
  (toRat_of_units (n := 1) (by decide) (by decide +kernel)).trans Nat.cast_one

/-- A power of a number of at least one has an error for each factor. -/
theorem Near.power_natCast {n : ℕ} (base : Near 0 x r) (least : 1 ≤ r) (few : n ≤ 2 ^ 52) :
    Near n (x.power n) (r ^ n) := by
  have start : Near 0 one 1 := toRat_one ▸ Near.refl (by decide) (by decide)
  have result := start.powerFrom base le_rfl least (n := n) (by omega)
  rwa [Nat.zero_add, Nat.zero_add, Nat.mul_one, one_mul] at result

theorem power_neg {n : ℕ} (positive : 0 < n) : x.power (-n : ℤ) = one.div (x.power n) := by
  have below : (-n : ℤ) < 0 := by omega
  have above : ¬(n : ℤ) < 0 := by omega
  simp only [power, if_pos below, if_neg above, Int.natAbs_neg]

/-- A power of a number of at least one with a negative exponent is not great. -/
theorem toRat_power_neg {n : ℕ} (base : Near 0 x r) (least : 1 ≤ r) (few : n ≤ 2 ^ 52)
    (positive : 0 < n) : (x.power (-n : ℤ)).isFinite = true ∧ (x.power (-n : ℤ)).toRat ≤ 4 := by
  have near := base.power_natCast least few
  rw [power_neg positive]
  cases finite : (x.power n).isFinite with
  | true =>
      have power : 1 ≤ r ^ n := one_le_pow₀ least
      have twice := near.le_twice finite few
      have sign := near.nonnegative
      have quotient := toRat_div_toRat (x := one) (by decide) sign
      have bound : (one.units / (x.power n).units : ℚ) ≤ 2 := by
        rw [quotient, toRat_one, div_le_iff₀ (by linarith)]
        linarith
      have small := ofRatio_le (units_pos (by decide) (by rw [toRat_one]; exact one_pos))
        (units_pos sign (by linarith)) one_le_two (by norm_num) bound
      rw [div_of_finite (by decide) finite (by decide) sign (by linarith)]
      exact ⟨small.1, le_trans small.2.2 (by norm_num)⟩
  | false =>
      have vanished : one.div infinity = zero := by decide
      rw [(near.infinite_of_not_finite finite).1, vanished]
      exact ⟨by decide, by rw [toRat_zero]; norm_num⟩

end Power

end NestedQuery.Binary64
