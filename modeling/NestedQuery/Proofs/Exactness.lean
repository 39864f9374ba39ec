/- What the bits of a float denote as an exact number, and how far integers and floats are compared as
the numbers they are: up to the ends of the range of integers. -/
import Mathlib.Algebra.Order.Field.Basic
import Mathlib.Algebra.Order.Field.Rat
import Mathlib.Data.Rat.Cast.Order
import Mathlib.Tactic.FieldSimp
import Mathlib.Tactic.Linarith
import NestedQuery.Proofs.ValueEquality

namespace NestedQuery

namespace Binary64

variable {x : Binary64}

/-- The number that the bits of a finite float denote. The fraction stands behind the point, after a one
unless the exponent field is zero. -/
def toRat (x : Binary64) : ℚ :=
  let sign : ℚ := if x.negative then -1 else 1
  let fraction : ℚ := x.fraction / 2 ^ 52
  if x.exponentField = 0 then sign * fraction * 2 ^ (-1022 : ℤ)
  else sign * (1 + fraction) * 2 ^ ((x.exponentField : ℤ) - 1023)

theorem unit_pos : 0 < unit := by
  obtain ⟨k, power⟩ := unit_power
  rw [power]
  exact Nat.two_pow_pos k

theorem cast_unit : (unit : ℚ) = 2 ^ 52 * 2 ^ 1022 := by
  obtain ⟨k, power, exponent⟩ : ∃ k, unit = 2 ^ k ∧ k = 1074 := ⟨_, rfl, rfl⟩
  rw [power, Nat.cast_pow, Nat.cast_ofNat, exponent]
  exact pow_add 2 52 1022

/-- The textbook reading of the bits is that in units of the smallest positive float. -/
theorem toRat_eq (x : Binary64) : x.toRat = x.signedUnits / unit := by
  have signed : (x.signedUnits : ℚ) = (if x.negative then -1 else 1) * x.units := by
    rw [signedUnits]
    split <;> simp
  rw [toRat, signed, cast_unit]
  generalize (if x.negative then -1 else 1 : ℚ) = sign
  by_cases zero : x.exponentField = 0
  · rw [if_pos zero, units_of_subnormal zero, zpow_neg, zpow_ofNat]
    field_simp
  · obtain ⟨e, exponent⟩ := Nat.exists_eq_succ_of_ne_zero zero
    have shifted : (x.exponentField : ℤ) - 1023 = (e : ℤ) - (1022 : ℕ) := by omega
    rw [if_neg zero, units_of_normal zero, shifted, zpow_sub₀ two_ne_zero, zpow_natCast, zpow_natCast,
      exponent, Nat.succ_sub_one]
    push_cast
    field_simp
    norm_num

theorem natAbs_signedUnits (x : Binary64) : x.signedUnits.natAbs = x.units := by
  rw [signedUnits]
  split
  · rw [Int.natAbs_neg, Int.natAbs_natCast]
  · rw [Int.natAbs_natCast]

theorem abs_toRat (x : Binary64) : |x.toRat| = x.units / unit := by
  rw [toRat_eq, abs_div, Nat.abs_cast, ← Int.cast_abs, ← Nat.cast_natAbs, natAbs_signedUnits]

theorem whole?_of_units (finite : x.isFinite = true) {w : Nat} (whole : x.units = unit * w) :
    x.whole? = some (if x.negative then -(w : Int) else w) := by
  rw [whole?, finite, whole, Nat.mul_mod_right, Nat.mul_div_cancel_left _ unit_pos]
  rfl

theorem toRat_eq_iff {i : Int} : x.toRat = i ↔ x.signedUnits = i * unit := by
  rw [toRat_eq, div_eq_iff (Nat.cast_ne_zero.mpr unit_pos.ne'), ← Int.cast_natCast unit,
    ← Int.cast_mul, Int.cast_inj]

/-- A float is read as the integer that its bits denote, and as none if they denote no integer. -/
theorem whole?_eq_some_iff (finite : x.isFinite = true) {i : Int} :
    x.whole? = some i ↔ x.toRat = i := by
  have nonzero : (unit : Int) ≠ 0 := Int.natCast_ne_zero.mpr unit_pos.ne'
  rw [toRat_eq_iff]
  by_cases divides : unit ∣ x.units
  · obtain ⟨w, whole⟩ := divides
    have signed : x.signedUnits = (if x.negative then -(w : Int) else w) * unit := by
      rw [signedUnits, whole, Nat.mul_comm, Int.natCast_mul]
      split
      · rw [Int.neg_mul]
      · rfl
    rw [whole?_of_units finite whole, signed, Option.some_inj, Int.mul_eq_mul_right_iff nonzero]
  · have fractional : x.whole? = none := by
      have remainder : x.units % unit ≠ 0 := fun none => divides (Nat.dvd_of_mod_eq_zero none)
      simp [whole?, remainder]
    rw [fractional]
    refine iff_of_false (Option.some_ne_none i).symm fun same => divides ?_
    rw [← natAbs_signedUnits, same, Int.natAbs_mul, Int.natAbs_natCast]
    exact Nat.dvd_mul_left _ _

/-- The significand has 53 bits, so that a float with more digits than that before the point has none
behind it. -/
theorem exists_whole (finite : x.isFinite = true) (large : 2 ^ 53 ≤ |x.toRat|) :
    ∃ i : Int, x.toRat = i := by
  rw [abs_toRat, le_div_iff₀ (Nat.cast_pos.mpr unit_pos)] at large
  have many : 2 ^ 53 * unit ≤ x.units := by
    generalize unit = u at large
    exact_mod_cast large
  have scaled : unit < 2 ^ x.scale := by
    have bound := Nat.mul_lt_mul_of_pos_right x.significand_lt (Nat.two_pow_pos x.scale)
    exact Nat.lt_of_mul_lt_mul_left (Nat.lt_of_le_of_lt many bound)
  have divides : unit ∣ x.units := by
    obtain ⟨k, power⟩ := unit_power
    rw [power] at scaled ⊢
    have shift : k ≤ x.scale := Nat.le_of_lt ((Nat.pow_lt_pow_iff_right (by decide)).mp scaled)
    exact (Nat.pow_dvd_pow 2 shift).mul_left _
  obtain ⟨w, whole⟩ := divides
  exact ⟨_, (whole?_eq_some_iff finite).mp (whole?_of_units finite whole)⟩

end Binary64

theorem saturate_toInt (i : Int) : (saturate i).toInt = max (-2 ^ 63) (min (2 ^ 63 - 1) i) := by
  rw [saturate, Int64.toInt_ofInt_of_le (by omega) (by omega)]

theorem saturate_eq_iff {i : Int} {a : Int64} : saturate i = a ↔
    i = a.toInt ∨ a = Int64.maxValue ∧ 2 ^ 63 ≤ i ∨ a = Int64.minValue ∧ i < -2 ^ 63 := by
  have least := a.le_toInt
  have greatest := a.toInt_lt
  rw [← Int64.toInt_inj, ← Int64.toInt_inj, ← Int64.toInt_inj, saturate_toInt, Int64.toInt_maxValue,
    Int64.toInt_minValue]
  omega

namespace Value

variable {a : Int64} {x : Binary64}

theorem asInt?_float_iff (finite : x.isFinite = true) : asInt? (.float x) = some a ↔
    x.toRat = a.toInt ∨ a = Int64.maxValue ∧ 2 ^ 63 ≤ x.toRat ∨
      a = Int64.minValue ∧ x.toRat < -2 ^ 63 := by
  rw [asInt?, Option.map_eq_some_iff]
  simp only [Binary64.whole?_eq_some_iff finite, saturate_eq_iff]
  constructor
  · rintro ⟨i, value, rfl | ⟨rfl, above⟩ | ⟨rfl, below⟩⟩
    · exact .inl value
    · exact .inr (.inl ⟨rfl, value ▸ by exact_mod_cast above⟩)
    · exact .inr (.inr ⟨rfl, value ▸ by exact_mod_cast below⟩)
  · rintro (value | ⟨rfl, above⟩ | ⟨rfl, below⟩)
    · exact ⟨_, value, .inl rfl⟩
    · obtain ⟨i, value⟩ := Binary64.exists_whole finite
        (le_trans (le_trans (by norm_num) above) (le_abs_self _))
      exact ⟨i, value, .inr (.inl ⟨rfl, by rw [value] at above; exact_mod_cast above⟩)⟩
    · obtain ⟨i, value⟩ := Binary64.exists_whole finite
        (le_trans (by linarith) (neg_le_abs _))
      exact ⟨i, value, .inr (.inr ⟨rfl, by rw [value] at below; exact_mod_cast below⟩)⟩

theorem integral?_eq_some_iff (finite : x.isFinite = true) : integral? x = some a ↔
    x.toRat = a.toInt ∨ a = Int64.maxValue ∧ x.toRat = 2 ^ 63 := by
  have least := a.le_toInt
  have greatest := a.toInt_lt
  have inRange : integral? x = some a ↔
      ∃ i : Int, x.toRat = i ∧ (-2 ^ 63 ≤ i ∧ i ≤ 2 ^ 63) ∧ saturate i = a := by
    rw [integral?, Option.bind_eq_some_iff]
    simp only [Binary64.whole?_eq_some_iff finite, Option.ite_none_right_eq_some, Option.some_inj]
  rw [inRange]
  constructor
  · rintro ⟨i, value, range, cast⟩
    rcases saturate_eq_iff.mp cast with rfl | ⟨rfl, above⟩ | ⟨_, below⟩
    · exact .inl value
    · obtain rfl : i = 2 ^ 63 := le_antisymm range.2 above
      exact .inr ⟨rfl, by exact_mod_cast value⟩
    · omega
  · rintro (value | ⟨rfl, value⟩)
    · exact ⟨_, value, by omega, saturate_eq_iff.mpr (.inl rfl)⟩
    · exact ⟨2 ^ 63, by exact_mod_cast value, by decide, rfl⟩

/-- Integers and floats are compared as the numbers they are, and a float is taken for the integer that it is,
except at the ends of the range: the greatest integer equals the next float above it as well, and all
floats beyond an end are taken for that end. -/
theorem compared_as_numbers (a : Int64) (finite : x.isFinite = true) :
    ((Value.int a == .float x) = true ↔
      x.toRat = a.toInt ∨ a = Int64.maxValue ∧ x.toRat = 2 ^ 63) ∧
    ((Value.float x == .int a) = true ↔
      x.toRat = a.toInt ∨ a = Int64.maxValue ∧ x.toRat = 2 ^ 63) ∧
    (asInt? (.float x) = some a ↔
      x.toRat = a.toInt ∨ a = Int64.maxValue ∧ 2 ^ 63 ≤ x.toRat ∨
        a = Int64.minValue ∧ x.toRat < -2 ^ 63) := by
  have equal : (integral? x == some a) = true ↔
      x.toRat = a.toInt ∨ a = Int64.maxValue ∧ x.toRat = 2 ^ 63 :=
    beq_iff_eq.trans (integral?_eq_some_iff finite)
  exact ⟨equal, equal, asInt?_float_iff finite⟩

/-- The last float before `2 ^ 63` is equal to an integer, and is that integer. -/
theorem compared_as_numbers_below :
    Binary64.isFinite ⟨0x43dfffffffffffff⟩ = true ∧
      (Value.int 9223372036854774784 == .float ⟨0x43dfffffffffffff⟩) = true ∧
      Binary64.toRat ⟨0x43dfffffffffffff⟩ = 9223372036854774784 := by
  have finite : Binary64.isFinite ⟨0x43dfffffffffffff⟩ = true := by decide
  have equal : (Value.int 9223372036854774784 == .float ⟨0x43dfffffffffffff⟩) = true := by
    decide +kernel
  refine ⟨finite, equal, ?_⟩
  rcases (compared_as_numbers 9223372036854774784 finite).1.mp equal with exact | ⟨last, _⟩
  · exact exact
  · cases last

/-- The greatest integer equals a float that is not it, and is what greater floats are taken for. -/
theorem greatest_not_exact :
    Binary64.isFinite ⟨0x43e0000000000000⟩ = true ∧
      (Value.int Int64.maxValue == .float ⟨0x43e0000000000000⟩) = true ∧
      (Value.float ⟨0x43e0000000000000⟩ == .int Int64.maxValue) = true ∧
      asInt? (.float ⟨0x43e0000000000000⟩) = some Int64.maxValue ∧
      Binary64.toRat ⟨0x43e0000000000000⟩ ≠ Int64.maxValue.toInt := by
  have finite : Binary64.isFinite ⟨0x43e0000000000000⟩ = true := by decide
  have whole : Binary64.whole? ⟨0x43e0000000000000⟩ = some (2 ^ 63) := by decide +kernel
  refine ⟨finite, by decide +kernel, by decide +kernel, by decide +kernel, ?_⟩
  rw [(Binary64.whole?_eq_some_iff finite).mp whole, Int64.toInt_maxValue]
  norm_num

end Value
end NestedQuery
