/- Equality of values: it is symmetric and transitive over all kinds of values and all bits of a
float, and apart from documents equal values have one hash key. -/
import NestedQuery.Value.Equality

namespace NestedQuery

namespace Binary64

variable {x y : Binary64}

/-- A number is its sign, exponent and fraction. -/
theorem ext_fields (negative : x.negative = y.negative)
    (exponent : x.exponentField = y.exponentField) (fraction : x.fraction = y.fraction) : x = y := by
  obtain ⟨a⟩ := x
  obtain ⟨b⟩ := y
  have boundA := a.toNat_lt
  have boundB := b.toNat_lt
  have sign : 2 ^ 63 ≤ a.toNat ↔ 2 ^ 63 ≤ b.toNat := by simpa [Binary64.negative] using negative
  simp only [exponentField, Binary64.fraction] at exponent fraction
  have same : a.toNat = b.toNat := by omega
  exact congrArg Binary64.mk (UInt64.toNat_inj.mp same)

/-- Two significands of full length with equal products are the same, with the same exponent. -/
theorem normal_unique {s t a b : Nat} (fullS : 2 ^ 52 ≤ s) (boundS : s < 2 ^ 53)
    (fullT : 2 ^ 52 ≤ t) (boundT : t < 2 ^ 53) (same : s * 2 ^ a = t * 2 ^ b) : a = b ∧ s = t := by
  have noGap : ∀ {u v c d : Nat}, u < 2 ^ 53 → 2 ^ 52 ≤ v → u * 2 ^ c = v * 2 ^ d → ¬c < d := by
    intro u v c d boundU fullV equal less
    obtain ⟨e, rfl⟩ := Nat.exists_eq_add_of_lt less
    have factored : u * 2 ^ c = (v * 2 ^ e * 2) * 2 ^ c := by
      rw [equal, Nat.pow_succ, Nat.pow_add]
      ac_rfl
    have quotient := Nat.eq_of_mul_eq_mul_right (Nat.two_pow_pos c) factored
    have grows : v ≤ v * 2 ^ e := Nat.le_mul_of_pos_right v (Nat.two_pow_pos e)
    omega
  have equalExponents : a = b :=
    Nat.le_antisymm (Nat.not_lt.mp (noGap boundT fullS same.symm))
      (Nat.not_lt.mp (noGap boundS fullT same))
  subst equalExponents
  exact ⟨rfl, Nat.eq_of_mul_eq_mul_right (Nat.two_pow_pos a) same⟩

theorem fraction_lt (x : Binary64) : x.fraction < 2 ^ 52 := Nat.mod_lt _ (Nat.two_pow_pos 52)

theorem units_of_subnormal (zero : x.exponentField = 0) : x.units = x.fraction := by
  simp [units, significand, scale, zero]

theorem units_of_normal (nonzero : x.exponentField ≠ 0) :
    x.units = (2 ^ 52 + x.fraction) * 2 ^ (x.exponentField - 1) := by
  rw [units, significand, if_neg nonzero, scale]

theorem le_units_of_normal (nonzero : x.exponentField ≠ 0) : 2 ^ 52 ≤ x.units := by
  rw [units_of_normal nonzero]
  exact Nat.le_trans (Nat.le_add_right _ _) (Nat.le_mul_of_pos_right _ (Nat.two_pow_pos _))

/-- The magnitude of a number determines its exponent and its fraction. -/
theorem fields_of_units (same : x.units = y.units) :
    x.exponentField = y.exponentField ∧ x.fraction = y.fraction := by
  by_cases zeroX : x.exponentField = 0
  · by_cases zeroY : y.exponentField = 0
    · rw [units_of_subnormal zeroX, units_of_subnormal zeroY] at same
      exact ⟨zeroX.trans zeroY.symm, same⟩
    · have large := le_units_of_normal zeroY
      rw [← same, units_of_subnormal zeroX] at large
      exact absurd x.fraction_lt (Nat.not_lt.mpr large)
  · by_cases zeroY : y.exponentField = 0
    · have large := le_units_of_normal zeroX
      rw [same, units_of_subnormal zeroY] at large
      exact absurd y.fraction_lt (Nat.not_lt.mpr large)
    · rw [units_of_normal zeroX, units_of_normal zeroY] at same
      have boundX := x.fraction_lt
      have boundY := y.fraction_lt
      obtain ⟨scales, fractions⟩ := normal_unique (by omega) (by omega) (by omega) (by omega) same
      omega

theorem isZero_of_units (none : x.units = 0) : x.isZero = true := by
  by_cases zero : x.exponentField = 0
  · rw [units_of_subnormal zero] at none
    simp [isZero, zero, none]
  · have large := le_units_of_normal zero
    rw [none] at large
    exact absurd large (by decide)

theorem isNaN_of_isFinite (finite : x.isFinite = true) : x.isNaN = false := by
  have bounded : (x.exponentField == 2047) = false := by simpa [isFinite] using finite
  rw [isNaN, bounded, Bool.false_and]

theorem isFinite_of_isZero (zero : x.isZero = true) : x.isFinite = true := by
  simp only [isZero, Bool.and_eq_true, beq_iff_eq] at zero
  simp [isFinite, zero.1]

theorem unit_power : ∃ k, unit = 2 ^ k := ⟨_, rfl⟩

/-- A whole number is its magnitude in whole units, with the sign of the bits unless it is zero. -/
theorem whole_cases {i : Int} (whole : x.whole? = some i) : x.isFinite = true ∧
    x.units = i.natAbs * unit ∧ (i ≠ 0 → (x.negative = true ↔ i < 0)) := by
  unfold whole? at whole
  split at whole
  · next both =>
      obtain ⟨finite, divides⟩ := Bool.and_eq_true_iff.mp both
      have exact := Nat.div_mul_cancel (Nat.dvd_of_mod_eq_zero (eq_of_beq divides))
      generalize x.units / unit = w at whole exact
      cases whole
      refine ⟨finite, ?_, ?_⟩
      · rw [← exact]
        cases x.negative <;> simp
      · cases x.negative
        · simp
        · simp; omega
  · cases whole

theorem equal_of_whole {i : Int} (wholeX : x.whole? = some i) (wholeY : y.whole? = some i) :
    x.equal y = true := by
  obtain ⟨finiteX, unitsX, signX⟩ := whole_cases wholeX
  obtain ⟨finiteY, unitsY, signY⟩ := whole_cases wholeY
  have notNaN := And.intro (isNaN_of_isFinite finiteX) (isNaN_of_isFinite finiteY)
  obtain ⟨exponent, fraction⟩ := fields_of_units (unitsX.trans unitsY.symm)
  by_cases zero : i = 0
  · subst zero
    rw [Int.natAbs_zero, Nat.zero_mul] at unitsX unitsY
    have zeroX := isZero_of_units unitsX
    have zeroY := isZero_of_units unitsY
    simp [equal, notNaN, zeroX, zeroY]
  · have sign : x.negative = y.negative := by
      have := (signX zero).trans (signY zero).symm
      exact Bool.eq_iff_iff.mpr this
    simp [equal, notNaN, ext_fields sign exponent fraction]

/-- No number with an odd part of more than 53 bits has a significand. -/
theorem odd_not_representable {n s a k : Nat} (odd : n % 2 = 1) (large : 2 ^ 53 ≤ n)
    (bound : s < 2 ^ 53) : s * 2 ^ a ≠ n * 2 ^ k := by
  intro same
  rcases Nat.lt_or_ge k a with lt | le
  · obtain ⟨d, rfl⟩ := Nat.exists_eq_add_of_lt lt
    have factored : (2 * (s * 2 ^ d)) * 2 ^ k = n * 2 ^ k := by
      rw [← same, Nat.pow_succ, Nat.pow_add]
      ac_rfl
    have quotient := Nat.eq_of_mul_eq_mul_right (Nat.two_pow_pos k) factored
    omega
  · obtain ⟨d, rfl⟩ := Nat.exists_eq_add_of_le le
    have factored : s * 2 ^ a = (n * 2 ^ d) * 2 ^ a := by
      rw [same, Nat.pow_add]
      ac_rfl
    have quotient := Nat.eq_of_mul_eq_mul_right (Nat.two_pow_pos a) factored
    have grows : n ≤ n * 2 ^ d := Nat.le_mul_of_pos_right n (Nat.two_pow_pos d)
    omega

theorem significand_lt (x : Binary64) : x.significand < 2 ^ 53 := by
  have bound := x.fraction_lt
  unfold significand
  split <;> omega

theorem whole_ne_max : x.whole? ≠ some (2 ^ 63 - 1) := by
  intro whole
  obtain ⟨_, units, _⟩ := whole_cases whole
  obtain ⟨k, power⟩ := unit_power
  rw [power, Binary64.units] at units
  exact odd_not_representable (by decide) (by decide) x.significand_lt units

theorem zero_whole (zero : x.isZero = true) : x.whole? = some 0 := by
  simp only [isZero, Bool.and_eq_true, beq_iff_eq] at zero
  have none : x.units = 0 := (units_of_subnormal zero.1).trans zero.2
  simp [whole?, isFinite, zero.1, none]

theorem nan_not_whole (nan : x.isNaN = true) : x.whole? = none := by
  simp only [isNaN, Bool.and_eq_true, beq_iff_eq] at nan
  simp [whole?, isFinite, nan.1]

theorem equal_symm (equal : x.equal y = true) : y.equal x = true := by
  simp only [Binary64.equal, Bool.and_eq_true, Bool.or_eq_true, beq_iff_eq] at equal ⊢
  obtain ⟨numbers, same⟩ := equal
  exact ⟨numbers.symm, same.imp Eq.symm And.symm⟩

theorem equal_trans {z : Binary64} (first : x.equal y = true) (second : y.equal z = true) :
    x.equal z = true := by
  simp only [Binary64.equal, Bool.and_eq_true, Bool.or_eq_true, beq_iff_eq] at first second ⊢
  obtain ⟨⟨numberX, _⟩, sameXY⟩ := first
  obtain ⟨⟨_, numberZ⟩, sameYZ⟩ := second
  refine ⟨⟨numberX, numberZ⟩, ?_⟩
  rcases sameXY with rfl | zeroXY
  · exact sameYZ
  · rcases sameYZ with rfl | zeroYZ
    · exact .inr zeroXY
    · exact .inr ⟨zeroXY.1, zeroYZ.2⟩

end Binary64

namespace Value

theorem saturate_inj {i j : Int} (rangeI : -2 ^ 63 ≤ i ∧ i ≤ 2 ^ 63) (rangeJ : -2 ^ 63 ≤ j ∧ j ≤ 2 ^ 63)
    (notI : i ≠ 2 ^ 63 - 1) (notJ : j ≠ 2 ^ 63 - 1) (same : saturate i = saturate j) : i = j := by
  have values := congrArg Int64.toInt same
  simp only [saturate] at values
  rw [Int64.toInt_ofInt_of_le (by omega) (by omega), Int64.toInt_ofInt_of_le (by omega) (by omega)]
    at values
  omega

theorem integral_cases {x : Binary64} {a : Int64} (integral : integral? x = some a) :
    ∃ i, x.whole? = some i ∧ (-2 ^ 63 ≤ i ∧ i ≤ 2 ^ 63) ∧ saturate i = a := by
  obtain ⟨i, whole, inRange⟩ := Option.bind_eq_some_iff.mp integral
  split at inRange
  · next range => exact ⟨i, whole, range, Option.some.inj inRange⟩
  · cases inRange

/-- Floats that count as one integer are equal, also at the end of the range. -/
theorem equal_of_integral {x y : Binary64} {a : Int64} (integralX : integral? x = some a)
    (integralY : integral? y = some a) : x.equal y = true := by
  obtain ⟨i, wholeX, rangeI, rfl⟩ := integral_cases integralX
  obtain ⟨j, wholeY, rangeJ, same⟩ := integral_cases integralY
  have notI : i ≠ 2 ^ 63 - 1 := fun max => Binary64.whole_ne_max (max ▸ wholeX)
  have notJ : j ≠ 2 ^ 63 - 1 := fun max => Binary64.whole_ne_max (max ▸ wholeY)
  obtain rfl := saturate_inj rangeJ rangeI notJ notI same
  exact Binary64.equal_of_whole wholeX wholeY

/-- Equal floats, or two floats that are no numbers, count as the same integer if as any. -/
theorem integral_congr {x y : Binary64} (same : (x.equal y || x.isNaN && y.isNaN) = true) :
    integral? x = integral? y := by
  simp only [Binary64.equal, Bool.and_eq_true, Bool.or_eq_true, beq_iff_eq] at same
  rcases same with ⟨_, rfl | zero⟩ | nan
  · rfl
  · simp only [integral?, Binary64.zero_whole zero.1, Binary64.zero_whole zero.2]
  · simp only [integral?, Binary64.nan_not_whole nan.1, Binary64.nan_not_whole nan.2]

theorem float_symm {x y : Binary64} (same : (x.equal y || x.isNaN && y.isNaN) = true) :
    (y.equal x || y.isNaN && x.isNaN) = true := by
  simp only [Bool.or_eq_true, Bool.and_eq_true] at same ⊢
  exact same.imp Binary64.equal_symm And.symm

theorem float_trans {x y z : Binary64} (first : (x.equal y || x.isNaN && y.isNaN) = true)
    (second : (y.equal z || y.isNaN && z.isNaN) = true) :
    (x.equal z || x.isNaN && z.isNaN) = true := by
  simp only [Bool.or_eq_true, Bool.and_eq_true] at first second ⊢
  have notNaN : ∀ {a b : Binary64}, a.equal b = true → ¬(a.isNaN = true) ∧ ¬(b.isNaN = true) := by
    intro a b equal
    simp only [Binary64.equal, Bool.and_eq_true, Bool.not_eq_true'] at equal
    simp [equal.1]
  rcases first with equalXY | nanXY
  · rcases second with equalYZ | nanYZ
    · exact .inl (Binary64.equal_trans equalXY equalYZ)
    · exact absurd nanYZ.1 (notNaN equalXY).2
  · rcases second with equalYZ | nanYZ
    · exact absurd nanXY.2 (notNaN equalYZ).1
    · exact .inr ⟨nanXY.1, nanYZ.2⟩

end Value

namespace Json

theorem Number.equal_symm {x y : Number} (same : x.equal y = true) : y.equal x = true := by
  cases x with
  | whole i =>
      cases y with
      | whole j =>
          simp only [Number.equal, beq_iff_eq] at same ⊢
          exact same.symm
      | real _ => cases same
  | real r =>
      cases y with
      | whole _ => cases same
      | real s => exact Binary64.equal_symm same

theorem Number.equal_trans {x y z : Number} (first : x.equal y = true) (second : y.equal z = true) :
    x.equal z = true := by
  cases y with
  | whole j =>
      cases x with
      | real _ => cases first
      | whole i =>
          simp only [Number.equal, beq_iff_eq] at first
          exact first ▸ second
  | real s =>
      cases x with
      | whole _ => cases first
      | real r =>
          cases z with
          | whole _ => cases second
          | real t => exact Binary64.equal_trans first second

mutual

theorem equal_symm : ∀ (a b : Json), a.equal b = true → b.equal a = true
  | .null, b, same => by
      cases b with
      | null => rfl
      | _ => cases same
  | .bool x, b, same => by
      cases b with
      | bool y =>
          simp only [equal, beq_iff_eq] at same ⊢
          exact same.symm
      | _ => cases same
  | .number x, b, same => by
      cases b with
      | number y =>
          simp only [equal] at same ⊢
          exact Number.equal_symm same
      | _ => cases same
  | .text s, b, same => by
      cases b with
      | text t =>
          simp only [equal, beq_iff_eq] at same ⊢
          exact same.symm
      | _ => cases same
  | .list xs, b, same => by
      cases b with
      | list ys =>
          simp only [equal] at same ⊢
          exact equalItems_symm xs ys same
      | _ => cases same
  | .object xs, b, same => by
      cases b with
      | object ys =>
          simp only [equal] at same ⊢
          exact equalMembers_symm xs ys same
      | _ => cases same

theorem equalItems_symm : ∀ (xs ys : List Json), equalItems xs ys = true → equalItems ys xs = true
  | [], ys, same => by
      cases ys with
      | nil => rfl
      | cons _ _ => cases same
  | x :: xs, ys, same => by
      cases ys with
      | nil => cases same
      | cons y ys =>
          simp only [equalItems, Bool.and_eq_true] at same ⊢
          exact ⟨equal_symm x y same.1, equalItems_symm xs ys same.2⟩

theorem equalMembers_symm : ∀ (xs ys : List (String × Json)),
    equalMembers xs ys = true → equalMembers ys xs = true
  | [], ys, same => by
      cases ys with
      | nil => rfl
      | cons _ _ => cases same
  | (m, x) :: xs, ys, same => by
      cases ys with
      | nil => cases same
      | cons second ys =>
          obtain ⟨n, y⟩ := second
          simp only [equalMembers, Bool.and_eq_true, beq_iff_eq] at same ⊢
          exact ⟨⟨same.1.1.symm, equal_symm x y same.1.2⟩, equalMembers_symm xs ys same.2⟩

end

mutual

theorem equal_trans : ∀ (a b c : Json), a.equal b = true → b.equal c = true → a.equal c = true
  | .null, b, c, first, second => by
      cases b with
      | null => exact second
      | _ => cases first
  | .bool x, b, c, first, second => by
      cases b with
      | bool y =>
          simp only [equal, beq_iff_eq] at first
          exact first ▸ second
      | _ => cases first
  | .number x, b, c, first, second => by
      cases b with
      | number y =>
          cases c with
          | number z =>
              simp only [equal] at first second ⊢
              exact Number.equal_trans first second
          | _ => cases second
      | _ => cases first
  | .text s, b, c, first, second => by
      cases b with
      | text t =>
          simp only [equal, beq_iff_eq] at first
          exact first ▸ second
      | _ => cases first
  | .list xs, b, c, first, second => by
      cases b with
      | list ys =>
          cases c with
          | list zs =>
              simp only [equal] at first second ⊢
              exact equalItems_trans xs ys zs first second
          | _ => cases second
      | _ => cases first
  | .object xs, b, c, first, second => by
      cases b with
      | object ys =>
          cases c with
          | object zs =>
              simp only [equal] at first second ⊢
              exact equalMembers_trans xs ys zs first second
          | _ => cases second
      | _ => cases first

theorem equalItems_trans : ∀ (xs ys zs : List Json), equalItems xs ys = true →
    equalItems ys zs = true → equalItems xs zs = true
  | [], ys, zs, first, second => by
      cases ys with
      | nil => exact second
      | cons _ _ => cases first
  | x :: xs, ys, zs, first, second => by
      cases ys with
      | nil => cases first
      | cons y ys =>
          cases zs with
          | nil => cases second
          | cons z zs =>
              simp only [equalItems, Bool.and_eq_true] at first second ⊢
              exact ⟨equal_trans x y z first.1 second.1,
                equalItems_trans xs ys zs first.2 second.2⟩

theorem equalMembers_trans : ∀ (xs ys zs : List (String × Json)), equalMembers xs ys = true →
    equalMembers ys zs = true → equalMembers xs zs = true
  | [], ys, zs, first, second => by
      cases ys with
      | nil => exact second
      | cons _ _ => cases first
  | (m, x) :: xs, ys, zs, first, second => by
      cases ys with
      | nil => cases first
      | cons next ys =>
          obtain ⟨n, y⟩ := next
          cases zs with
          | nil => cases second
          | cons last zs =>
              obtain ⟨l, z⟩ := last
              simp only [equalMembers, Bool.and_eq_true, beq_iff_eq] at first second ⊢
              exact ⟨⟨first.1.1.trans second.1.1, equal_trans x y z first.1.2 second.1.2⟩,
                equalMembers_trans xs ys zs first.2 second.2⟩

end

end Json

namespace Value

/-- The ways in which two values are equal. -/
inductive Same : Value → Value → Prop
  | null : Same .null .null
  | int (i : Int64) : Same (.int i) (.int i)
  | text (s : String) : Same (.text s) (.text s)
  | bool (b : Bool) : Same (.bool b) (.bool b)
  | float {x y : Binary64} (same : (x.equal y || x.isNaN && y.isNaN) = true) :
      Same (.float x) (.float y)
  | intFloat {i : Int64} {x : Binary64} (same : integral? x = some i) : Same (.int i) (.float x)
  | floatInt {i : Int64} {x : Binary64} (same : integral? x = some i) : Same (.float x) (.int i)
  | json {a b : Json} (same : a.equal b = true) : Same (.json a) (.json b)

theorem same_iff {a b : Value} : (a == b) = true ↔ Same a b := by
  constructor
  · intro same
    change equal a b = true at same
    cases a with
    | null =>
        cases b with
        | null => exact .null
        | _ => cases same
    | int i =>
        cases b with
        | int j => exact eq_of_beq same ▸ .int i
        | float x => exact .intFloat (eq_of_beq same)
        | _ => cases same
    | float x =>
        cases b with
        | int j => exact .floatInt (eq_of_beq same)
        | float y => exact .float same
        | _ => cases same
    | text s =>
        cases b with
        | text t => exact eq_of_beq same ▸ .text s
        | _ => cases same
    | bool p =>
        cases b with
        | bool q => exact eq_of_beq same ▸ .bool p
        | _ => cases same
    | json j =>
        cases b with
        | json k => exact .json same
        | _ => cases same
  · intro same
    change equal a b = true
    cases same with
    | null => rfl
    | int i => exact beq_self_eq_true i
    | text s => exact beq_self_eq_true s
    | bool p => exact beq_self_eq_true p
    | float same => exact same
    | intFloat same => exact beq_iff_eq.mpr same
    | floatInt same => exact beq_iff_eq.mpr same
    | json same => exact same

theorem Same.symm {a b : Value} (same : Same a b) : Same b a := by
  cases same with
  | null => exact .null
  | int i => exact .int i
  | text s => exact .text s
  | bool p => exact .bool p
  | float same => exact .float (float_symm same)
  | intFloat same => exact .floatInt same
  | floatInt same => exact .intFloat same
  | json same => exact .json (Json.equal_symm _ _ same)

theorem Same.trans {a b c : Value} (first : Same a b) (second : Same b c) : Same a c := by
  cases first with
  | null => exact second
  | int i => exact second
  | text s => exact second
  | bool p => exact second
  | float first =>
      cases second with
      | float second => exact .float (float_trans first second)
      | floatInt second => exact .floatInt ((integral_congr first).trans second)
  | intFloat first =>
      cases second with
      | float second => exact .intFloat ((integral_congr second).symm.trans first)
      | floatInt second => exact Option.some.inj (first.symm.trans second) ▸ .int _
  | floatInt first =>
      cases second with
      | int _ => exact .floatInt first
      | intFloat second =>
          refine .float ?_
          rw [equal_of_integral first second, Bool.true_or]
  | json first =>
      cases second with
      | json second => exact .json (Json.equal_trans _ _ _ first second)

theorem beq_symm {a b : Value} (same : (a == b) = true) : (b == a) = true :=
  same_iff.mpr (same_iff.mp same).symm

theorem beq_trans {a b c : Value} (first : (a == b) = true) (second : (b == c) = true) :
    (a == c) = true :=
  same_iff.mpr ((same_iff.mp first).trans (same_iff.mp second))

/-- Whether a value holds a document. -/
def isJson : Value → Bool
  | .json _ => true
  | _ => false

theorem hashKey_float_congr {x y : Binary64} (same : (x.equal y || x.isNaN && y.isNaN) = true) :
    hashKey (.float x) = hashKey (.float y) := by
  have counts := integral_congr same
  simp only [hashKey, counts]
  cases found : integral? y with
  | some i => rfl
  | none =>
      rw [found] at counts
      simp only [Binary64.equal, Bool.and_eq_true, Bool.or_eq_true, beq_iff_eq] at same
      rcases same with ⟨_, rfl | zero⟩ | nan
      · rfl
      · -- zero counts as an integer
        simp [integral?, Binary64.zero_whole zero.2] at found
      · simp [nan.1, nan.2]

/-- Equal values that are no documents have one hash key. -/
theorem hashKey_congr {a b : Value} (same : (a == b) = true) (plain : a.isJson = false) :
    a.hashKey = b.hashKey := by
  cases same_iff.mp same with
  | null => rfl
  | int i => rfl
  | text s => rfl
  | bool p => rfl
  | float same => exact hashKey_float_congr same
  | intFloat counts => simp only [hashKey, counts]
  | floatInt counts => simp only [hashKey, counts]
  | json _ => cases plain

theorem beq_self {a : Value} (plain : a.isJson = false) : (a == a) = true := by
  refine same_iff.mpr ?_
  cases a with
  | null => exact .null
  | int i => exact .int i
  | text s => exact .text s
  | bool b => exact .bool b
  | float x =>
      refine .float ?_
      cases nan : x.isNaN <;> simp [Binary64.equal, nan]
  | json j => cases plain

theorem sameKey_eq_beq {a : Value} (plain : a.isJson = false) (b : Value) :
    sameKey a b = (a == b) := by
  cases same : a == b with
  | false => rw [sameKey, same, Bool.and_false]
  | true => rw [sameKey, same, hashKey_congr same plain, beq_self_eq_true, Bool.and_true]

theorem sameKey_symm {a b : Value} (same : sameKey a b = true) : sameKey b a = true := by
  simp only [sameKey, Bool.and_eq_true, beq_iff_eq] at same ⊢
  exact ⟨same.1.symm, beq_symm same.2⟩

theorem sameKey_trans {a b c : Value} (first : sameKey a b = true) (second : sameKey b c = true) :
    sameKey a c = true := by
  simp only [sameKey, Bool.and_eq_true, beq_iff_eq] at first second ⊢
  exact ⟨first.1.trans second.1, beq_trans first.2 second.2⟩

theorem beq_of_sameKey {a b : Value} (same : sameKey a b = true) : (a == b) = true :=
  (Bool.and_eq_true_iff.mp same).2

end Value
end NestedQuery
