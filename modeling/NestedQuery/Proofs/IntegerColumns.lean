/- Columns of integers. Each of them is read as an integer, no two columns of one type as the same one, and in
the order that the server has for them as long as they have a sign. Object numbers have none, but are read as
if they had. -/
import Mathlib.Tactic.Ring
import NestedQuery.Value.Equality
import NestedQuery.Wire.Cell

namespace NestedQuery.Wire

namespace Bytes

/-- The number whose digits to the base 256 are the bytes. -/
def magnitude : Bytes → Nat
  | [] => 0
  | b :: rest => b.toNat * 256 ^ rest.length + magnitude rest

/-- Whether the first bit is set. -/
def firstBit (bytes : Bytes) : Bool := bytes.head?.any fun b => 128 ≤ b.toNat

/-- The same, a whole round lower if the first bit is set. -/
def twosComplement (bytes : Bytes) : Int :=
  bytes.magnitude - if bytes.firstBit then 256 ^ bytes.length else 0

theorem length_cons_round (b : UInt8) (rest : Bytes) :
    256 ^ (b :: rest).length = 256 * 256 ^ rest.length := by
  rw [List.length_cons, Nat.pow_succ, Nat.mul_comm]

theorem magnitude_lt : ∀ bytes : Bytes, magnitude bytes < 256 ^ bytes.length
  | [] => Nat.one_pos
  | b :: rest => by
      have digit : b.toNat + 1 ≤ 256 := b.toNat_lt
      calc magnitude (b :: rest) < b.toNat * 256 ^ rest.length + 256 ^ rest.length :=
            Nat.add_lt_add_left (magnitude_lt rest) _
        _ = (b.toNat + 1) * 256 ^ rest.length := by ring
        _ ≤ 256 * 256 ^ rest.length := Nat.mul_le_mul_right _ digit
        _ = 256 ^ (b :: rest).length := (length_cons_round b rest).symm

/-- As many bytes with the same number are the same. -/
theorem magnitude_inj : ∀ {a b : Bytes}, a.length = b.length → magnitude a = magnitude b → a = b
  | [], [], _, _ => rfl
  | x :: a, y :: b, sameLength, same => by
      have lengths : a.length = b.length := Nat.succ.inj sameLength
      have boundA := magnitude_lt a
      have boundB := magnitude_lt b
      rw [magnitude, magnitude, lengths] at same
      rw [lengths] at boundA
      -- The first byte is the quotient by a round of the others.
      have leading : x.toNat = y.toNat := by
        have positive : 0 < 256 ^ b.length := Nat.pow_pos (by decide)
        have quotients := congrArg (· / 256 ^ b.length) same
        simpa only [Nat.mul_comm _ (256 ^ b.length), Nat.mul_add_div positive,
          Nat.div_eq_of_lt boundA, Nat.div_eq_of_lt boundB, Nat.add_zero] using quotients
      rw [leading] at same
      rw [UInt8.toNat_inj.mp leading, magnitude_inj lengths (Nat.add_left_cancel same)]

theorem unsigned_eq_magnitude (bytes : Bytes) : bytes.unsigned = bytes.magnitude := by
  have step : ∀ (bytes : Bytes) (n : Nat), bytes.foldl (fun n b => n * 256 + b.toNat) n =
      n * 256 ^ bytes.length + magnitude bytes := by
    intro bytes
    induction bytes with
    | nil => intro n; simp [magnitude]
    | cons b rest ih =>
        intro n
        rw [List.foldl_cons, ih, magnitude, List.length_cons]
        ring
  rw [unsigned, step, Nat.zero_mul, Nat.zero_add]

/-- The first bit is set in the upper half of the numbers. -/
theorem firstBit_iff (bytes : Bytes) :
    bytes.firstBit = true ↔ 256 ^ bytes.length ≤ 2 * bytes.magnitude := by
  cases bytes with
  | nil => decide
  | cons b rest =>
      have later := magnitude_lt rest
      have first : firstBit (b :: rest) = true ↔ 128 ≤ b.toNat := by
        simp [firstBit]
      rw [first, length_cons_round, magnitude]
      constructor
      · intro high
        have := Nat.mul_le_mul_right (256 ^ rest.length) high
        omega
      · intro upper
        by_contra low
        have := Nat.mul_le_mul_right (256 ^ rest.length) (Nat.succ_le_of_lt (Nat.not_le.mp low))
        rw [Nat.succ_mul] at this
        omega

theorem signed_eq_twosComplement (bytes : Bytes) : bytes.signed = bytes.twosComplement := by
  have bound := magnitude_lt bytes
  have half := firstBit_iff bytes
  have remainder : (bytes.magnitude : Int) % (256 ^ bytes.length : Nat) = bytes.magnitude :=
    Int.emod_eq_of_lt (Int.natCast_nonneg _) (Int.ofNat_lt.mpr bound)
  rw [signed, unsigned_eq_magnitude, Int.bmod, remainder, twosComplement]
  cases set : bytes.firstBit with
  | true =>
      have upper := half.mp set
      rw [if_neg (by omega), if_pos rfl]
      push_cast
      rfl
  | false =>
      have lower := mt half.mpr (set ▸ Bool.false_ne_true)
      rw [if_pos (by omega), if_neg Bool.false_ne_true, Int.sub_zero]

/-- The numbers with a sign reach from minus a half round up to a half round. -/
theorem twosComplement_range {bytes : Bytes} (short : bytes.length ≤ 8) :
    -2 ^ 63 ≤ bytes.twosComplement ∧ bytes.twosComplement < 2 ^ 63 := by
  have bound := magnitude_lt bytes
  have half := firstBit_iff bytes
  have round : 256 ^ bytes.length ≤ 2 ^ 64 := Nat.pow_le_pow_right (by decide) short
  have cast : ((256 ^ bytes.length : Nat) : Int) = 256 ^ bytes.length := Nat.cast_pow _ _
  rw [twosComplement]
  split
  · next set =>
      have upper := half.mp set
      omega
  · next unset =>
      have lower := mt half.mpr unset
      omega

/-- As many bytes with the same number with a sign are the same. -/
theorem twosComplement_inj {a b : Bytes} (sameLength : a.length = b.length)
    (same : a.twosComplement = b.twosComplement) : a = b := by
  have boundA := magnitude_lt a
  have boundB := magnitude_lt b
  have cast : ((256 ^ b.length : Nat) : Int) = 256 ^ b.length := Nat.cast_pow _ _
  refine magnitude_inj sameLength ?_
  rw [twosComplement, twosComplement, sameLength] at same
  rw [sameLength] at boundA
  split at same <;> split at same <;> omega

end Bytes

namespace ColumnType

/-- The number of bytes of a type of integers. -/
def integerWidth? : ColumnType → Option Nat
  | .int2 => some 2
  | .int4 => some 4
  | .oid => some 4
  | .int8 => some 8
  | _ => none

/-- The integer that the server means by the bytes of a column. Object numbers have no sign. -/
def integer (type : ColumnType) (bytes : Bytes) : Int :=
  if type = .oid then bytes.magnitude else bytes.twosComplement

variable {type : ColumnType} {width : Nat}

theorem integerWidth?_le (integral : type.integerWidth? = some width) : width ≤ 8 := by
  cases type <;> cases integral <;> decide

theorem integerWidth?_oid (integral : ColumnType.oid.integerWidth? = some width) : width = 4 := by
  cases integral
  rfl

end ColumnType

section Decode

variable {type : ColumnType} {width : Nat} {bytes : Bytes}

theorem decode_integer (integral : type.integerWidth? = some width) (fits : bytes.length = width)
    (column : String) : decode column type (some bytes) = .ok (.int (.ofInt bytes.twosComplement)) := by
  have whole : int? width bytes = some bytes.twosComplement := by
    rw [int?, Bytes.first?, if_neg (by omega), List.take_of_length_le (by omega), Option.map_some,
      Bytes.signed_eq_twosComplement]
  cases type <;> cases integral <;> simp only [decode, decode?, whole, Option.map_some]

theorem toInt_decoded (integral : type.integerWidth? = some width) (fits : bytes.length = width) :
    (Int64.ofInt bytes.twosComplement).toInt = bytes.twosComplement := by
  have short : bytes.length ≤ 8 := fits ▸ ColumnType.integerWidth?_le integral
  have range := Bytes.twosComplement_range short
  exact Int64.toInt_ofInt_of_le range.1 range.2

/-- Four bytes with a sign are a whole round lower in the upper half. -/
theorem twosComplement_four (four : bytes.length = 4) : bytes.twosComplement =
    bytes.magnitude - if 2 ^ 31 ≤ bytes.magnitude then 2 ^ 32 else 0 := by
  have half := Bytes.firstBit_iff bytes
  have upper : bytes.firstBit = true ↔ 2 ^ 31 ≤ bytes.magnitude := by
    rw [four] at half
    exact half.trans (by omega)
  rw [Bytes.twosComplement, four]
  simp only [upper]
  rfl

theorem integer_of_ne (signed : type ≠ .oid) : type.integer bytes = bytes.twosComplement :=
  if_neg signed

theorem integer_oid : ColumnType.oid.integer bytes = bytes.magnitude := rfl

/-- A column of an integer type is read as an integer, no two as the same one. It is the integer that the
server means unless the column is an object number in the upper half, and two of them are in the server's
order unless they are object numbers in different halves. -/
theorem integers_decoded (integral : type.integerWidth? = some width) (fits : bytes.length = width)
    (column : String) : ∃ n, decode column type (some bytes) = .ok (.int n) ∧
      (n.toInt = type.integer bytes ↔ type ≠ .oid ∨ bytes.magnitude < 2 ^ 31) ∧
      ∀ other : Bytes, other.length = width →
        ∃ m, decode column type (some other) = .ok (.int m) ∧
          ((Value.int n == .int m) = true ↔ bytes = other) ∧
          ((n < m ↔ type.integer bytes < type.integer other) ↔
            type ≠ .oid ∨ (bytes.magnitude < 2 ^ 31 ↔ other.magnitude < 2 ^ 31)) := by
  have read := toInt_decoded integral fits
  refine ⟨_, decode_integer integral fits column, ?_, fun other fitsOther => ?_⟩
  · rw [read]
    by_cases oid : type = .oid
    · subst oid
      have low := twosComplement_four (fits.trans (ColumnType.integerWidth?_oid integral))
      rw [integer_oid, low]
      simp only [ne_eq, not_true_eq_false, false_or]
      split <;> omega
    · exact iff_of_true (integer_of_ne oid).symm (.inl oid)
  · have readOther := toInt_decoded integral fitsOther
    refine ⟨_, decode_integer integral fitsOther column, ?_, ?_⟩
    · have equal : (Value.int (.ofInt bytes.twosComplement) == .int (.ofInt other.twosComplement)) =
          (Int64.ofInt bytes.twosComplement == Int64.ofInt other.twosComplement) := rfl
      rw [equal, beq_iff_eq, ← Int64.toInt_inj, read, readOther]
      exact ⟨Bytes.twosComplement_inj (fits.trans fitsOther.symm), congrArg _⟩
    · rw [Int64.lt_iff_toInt_lt, read, readOther]
      by_cases oid : type = .oid
      · subst oid
        have four := ColumnType.integerWidth?_oid integral
        have low := twosComplement_four (fits.trans four)
        have lowOther := twosComplement_four (fitsOther.trans four)
        have bound := Bytes.magnitude_lt bytes
        have boundOther := Bytes.magnitude_lt other
        rw [fits, four] at bound
        rw [fitsOther, four] at boundOther
        rw [integer_oid, integer_oid, low, lowOther]
        simp only [ne_eq, not_true_eq_false, false_or]
        split <;> split <;> omega
      · rw [integer_of_ne oid, integer_of_ne oid]
        exact iff_of_true .rfl (.inl oid)

/-- The greatest object number and the one before it, apart and in their order, but below 0. -/
theorem integers_decoded_greatest :
    ColumnType.oid.integerWidth? = some 4 ∧ ([255, 255, 255, 254] : Bytes).length = 4 ∧
      ∃ n m, decode "relation" .oid (some [255, 255, 255, 254]) = .ok (.int n) ∧
        decode "relation" .oid (some [255, 255, 255, 255]) = .ok (.int m) ∧
        (Value.int n == .int m) = false ∧ n < m ∧
        n.toInt ≠ ColumnType.oid.integer [255, 255, 255, 254] := by
  have integral : ColumnType.oid.integerWidth? = some 4 := rfl
  have fits : ([255, 255, 255, 254] : Bytes).length = 4 := rfl
  obtain ⟨n, given, means, others⟩ := integers_decoded integral fits "relation"
  obtain ⟨m, givenOther, apart, ordered⟩ := others [255, 255, 255, 255] rfl
  refine ⟨integral, fits, n, m, given, givenOther, ?_, ?_, ?_⟩
  · exact Bool.eq_false_iff.mpr fun same => absurd (apart.mp same) (by decide)
  · exact (ordered.mpr (.inr (by decide))).mpr (by decide)
  · exact fun same => absurd (means.mp same) (by decide)

/-- An object number in the upper half is read as an integer below 0, before those in the lower half. -/
theorem upper_object_misread :
    decode "relation" .oid (some [128, 0, 0, 0]) = .ok (.int (-2147483648)) ∧
      ColumnType.oid.integer [128, 0, 0, 0] = 2147483648 ∧
      decode "relation" .oid (some [127, 255, 255, 255]) = .ok (.int 2147483647) ∧
      ColumnType.oid.integer [127, 255, 255, 255] = 2147483647 := by
  have upper : Bytes.twosComplement [128, 0, 0, 0] = -2147483648 := by decide +kernel
  have lower : Bytes.twosComplement [127, 255, 255, 255] = 2147483647 := by decide +kernel
  have integral : ColumnType.oid.integerWidth? = some 4 := rfl
  refine ⟨?_, by decide +kernel, ?_, by decide +kernel⟩
  · rw [decode_integer integral rfl, upper]
    rfl
  · rw [decode_integer integral rfl, lower]
    rfl

end Decode

end NestedQuery.Wire
