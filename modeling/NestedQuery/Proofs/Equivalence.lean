/- Equality divides the values into classes: it is an equivalence, each class has one canonical member, and
values are equal exactly when they share it. -/
import NestedQuery.Proofs.Twins

namespace NestedQuery

namespace Json

theorem Number.equal_unsigned {n : Number} (finite : n.Finite) : n.equal n.unsigned = true := by
  cases n with
  | whole i => exact beq_self_eq_true i
  | real x =>
      cases zero : x.isZero with
      | false =>
          rw [unsigned, zero]
          exact Number.equal_self finite
      | true =>
          have number := Binary64.isNaN_of_isFinite finite
          have plain : Binary64.zero.isNaN = false ∧ Binary64.zero.isZero = true := ⟨rfl, rfl⟩
          simp [unsigned, equal, Binary64.equal, number, zero, plain]

mutual

/-- A finite document is equal to the one whose zeros have no signs. -/
theorem equal_unsigned : ∀ (j : Json), j.Finite → j.equal j.unsigned = true
  | .null, _ => rfl
  | .bool b, _ => beq_self_eq_true b
  | .number _, finite => Number.equal_unsigned finite
  | .text s, _ => beq_self_eq_true s
  | .list items, finite => equalItems_unsigned items finite
  | .object members, finite => equalMembers_unsigned members finite

theorem equalItems_unsigned : ∀ (items : List Json), FiniteItems items →
    equalItems items (unsignedItems items) = true
  | [], _ => rfl
  | item :: rest, finite => by
      rw [unsignedItems, equalItems, equal_unsigned item finite.1, equalItems_unsigned rest finite.2]
      rfl

theorem equalMembers_unsigned : ∀ (members : List (String × Json)), FiniteMembers members →
    equalMembers members (unsignedMembers members) = true
  | [], _ => rfl
  | (name, value) :: rest, finite => by
      rw [unsignedMembers, equalMembers, beq_self_eq_true, equal_unsigned value finite.1,
        equalMembers_unsigned rest finite.2]
      rfl

end

end Json

namespace Value

/-- The value that stands for all that are equal to a value: an integer for the floats that count as it, one
NaN for all of them, and a document whose zeros have no signs. -/
def canonical : Value → Value
  | .float x =>
    match integral? x with
    | some i => .int i
    | none => .float (if x.isNaN then .nan else x)
  | .json j => .json j.unsigned
  | v => v

/-- The canonical form of a float is told by its hash key. -/
theorem canonical_float (x : Binary64) : (float x).canonical =
    match (float x).hashKey with
    | .int i => .int i
    | .float y => .float y
    | _ => .null := by
  simp only [canonical, hashKey]
  cases integral? x <;> rfl

theorem canonical_congr {a b : Value} (equal : (a == b) = true) : a.canonical = b.canonical := by
  cases same_iff.mp equal with
  | null => rfl
  | int i => rfl
  | text s => rfl
  | bool p => rfl
  | float same => rw [canonical_float, canonical_float, hashKey_float_congr same]
  | intFloat counts => simp only [canonical, counts]
  | floatInt counts => simp only [canonical, counts]
  | json same => exact congrArg Value.json (Json.unsigned_of_equal _ _ same)

theorem beq_canonical {v : Value} (finite : v.Finite) : (v == v.canonical) = true := by
  cases v with
  | float x =>
      rw [canonical]
      split
      · next counts => exact same_iff.mpr (.floatInt counts)
      · split
        · next nan =>
            refine same_iff.mpr (.float ?_)
            rw [nan, Bool.or_eq_true]
            exact .inr rfl
        · exact equal_self trivial
  | json j => exact same_iff.mpr (.json (Json.equal_unsigned j finite))
  | _ => exact equal_self finite

/-- Equality of values is an equivalence, over all bits of floats, integers among floats and all finite
documents. Each value is equal to its canonical form, and two values are equal exactly when they have the
same one. -/
theorem beq_equivalence :
    Equivalence (fun a b : { v : Value // v.Finite } => (a.1 == b.1) = true) ∧
      (∀ a : { v : Value // v.Finite }, (a.1 == a.1.canonical) = true) ∧
      ∀ a b : { v : Value // v.Finite },
        (a.1 == b.1) = true ↔ a.1.canonical = b.1.canonical := by
  refine ⟨⟨fun a => equal_self a.2, beq_symm, beq_trans⟩, fun a => beq_canonical a.2, ?_⟩
  intro a b
  refine ⟨canonical_congr, fun same => ?_⟩
  have second := beq_symm (beq_canonical b.2)
  rw [← same] at second
  exact beq_trans (beq_canonical a.2) second

end Value
end NestedQuery
