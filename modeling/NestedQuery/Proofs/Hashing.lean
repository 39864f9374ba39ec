/- What a hasher is given of equal values: the same, except for documents whose zeros have other signs,
because equality passes over a sign that the text of a document shows. -/
import NestedQuery.Proofs.PlanKey
import NestedQuery.Proofs.Twins

namespace NestedQuery

namespace Document

/-- What follows the first member of an object that is closed before `after`. -/
def afterMember (after : List Char) : List (Option String × Document) → List Char
  | [] => '\x7d' :: after
  | member :: rest => ',' :: ((renderMembers (member :: rest)).toList ++ '\x7d' :: after)

theorem renderMembers_cons_toList (name : String) (value : Document)
    (rest : List (Option String × Document)) (after : List Char) :
    (renderMembers ((some name, value) :: rest)).toList ++ '\x7d' :: after =
      (Text.quotedForDocument name).toList ++
        ':' :: ((render value).toList ++ afterMember after rest) := by
  cases rest with
  | nil => simp [renderMembers, renderText, afterMember]
  | cons next later => simp [renderMembers, renderText, afterMember]

end Document

namespace Json

open Document (afterItem afterMember)

theorem Number.render_zero {x : Binary64} (zero : x.isZero = true) :
    (Number.real x).render = if x.negative then "-0.0" else "0.0" := by
  rw [render, if_pos (Binary64.isFinite_of_isZero zero), DecimalStyle.text, if_pos zero]
  cases x.negative <;> rfl

theorem Number.render_cancel {m n : Number} (equal : m.equal n = true) {after later : List Char}
    (same : m.render.toList ++ after = n.render.toList ++ later) : m = n ∧ after = later := by
  cases m with
  | whole i =>
      cases n with
      | whole j =>
          obtain rfl : i = j := eq_of_beq equal
          exact ⟨rfl, List.append_cancel_left same⟩
      | real _ => cases equal
  | real x =>
      cases n with
      | whole _ => cases equal
      | real y =>
          simp only [Number.equal, Binary64.equal, Bool.and_eq_true, Bool.or_eq_true,
            beq_iff_eq] at equal
          rcases equal.2 with rfl | ⟨zeroX, zeroY⟩
          · exact ⟨rfl, List.append_cancel_left same⟩
          · have sign : x.negative = y.negative := by
              -- a minus in front of one of them only would be seen
              rw [render_zero zeroX, render_zero zeroY] at same
              cases signX : x.negative <;> cases signY : y.negative <;>
                simp [signX, signY] at same ⊢
            simp only [Binary64.isZero, Bool.and_eq_true, beq_iff_eq] at zeroX zeroY
            obtain rfl := Binary64.ext_fields sign (zeroX.1.trans zeroY.1.symm)
              (zeroX.2.trans zeroY.2.symm)
            exact ⟨rfl, List.append_cancel_left same⟩

theorem afterItem_of_renderItems {as bs : List Json} {after later : List Char}
    (equal : equalItems as bs = true)
    (same : (Document.renderItems (itemsToDocuments as)).toList ++ ']' :: after =
      (Document.renderItems (itemsToDocuments bs)).toList ++ ']' :: later) :
    afterItem after (itemsToDocuments as) = afterItem later (itemsToDocuments bs) := by
  cases as with
  | nil =>
      cases bs with
      | nil => exact same
      | cons _ _ => cases equal
  | cons a as =>
      cases bs with
      | nil => cases equal
      | cons b bs => exact congrArg (List.cons ',') same

theorem afterMember_of_renderMembers {as bs : List (String × Json)} {after later : List Char}
    (equal : equalMembers as bs = true)
    (same : (Document.renderMembers (membersToDocuments as)).toList ++ '\x7d' :: after =
      (Document.renderMembers (membersToDocuments bs)).toList ++ '\x7d' :: later) :
    afterMember after (membersToDocuments as) = afterMember later (membersToDocuments bs) := by
  cases as with
  | nil =>
      cases bs with
      | nil => exact same
      | cons _ _ => cases equal
  | cons a as =>
      cases bs with
      | nil => cases equal
      | cons b bs => exact congrArg (List.cons ',') same

mutual

/-- Documents that are equal are the same if they are written alike, whatever is written after them. -/
theorem render_cancel : ∀ (a b : Json) {after later : List Char}, a.equal b = true →
    a.toDocument.render.toList ++ after = b.toDocument.render.toList ++ later →
      a = b ∧ after = later
  | .null, b, _, _, equal, same => by
      cases b with
      | null => exact ⟨rfl, List.append_cancel_left same⟩
      | _ => cases equal
  | .bool x, b, _, _, equal, same => by
      cases b with
      | bool y =>
          obtain rfl : x = y := eq_of_beq equal
          exact ⟨rfl, List.append_cancel_left same⟩
      | _ => cases equal
  | .number m, b, _, _, equal, same => by
      cases b with
      | number n =>
          obtain ⟨numbers, rest⟩ := Number.render_cancel equal same
          exact ⟨congrArg Json.number numbers, rest⟩
      | _ => cases equal
  | .text s, b, _, _, equal, same => by
      cases b with
      | text t =>
          obtain rfl : s = t := eq_of_beq equal
          exact ⟨rfl, List.append_cancel_left same⟩
      | _ => cases equal
  | .list xs, b, _, _, equal, same => by
      cases b with
      | list ys =>
          simp only [toDocument, Document.render, String.toList_append, List.append_assoc] at same
          have items := afterItem_of_renderItems equal (List.append_cancel_left same)
          obtain ⟨items, rest⟩ := afterItem_cancel xs ys equal items
          exact ⟨congrArg Json.list items, rest⟩
      | _ => cases equal
  | .object xs, b, _, _, equal, same => by
      cases b with
      | object ys =>
          simp only [toDocument, Document.render, String.toList_append, List.append_assoc] at same
          have members := afterMember_of_renderMembers equal (List.append_cancel_left same)
          obtain ⟨members, rest⟩ := afterMember_cancel xs ys equal members
          exact ⟨congrArg Json.object members, rest⟩
      | _ => cases equal

theorem afterItem_cancel : ∀ (as bs : List Json) {after later : List Char},
    equalItems as bs = true →
    afterItem after (itemsToDocuments as) = afterItem later (itemsToDocuments bs) →
      as = bs ∧ after = later
  | [], [], _, _, _, same => ⟨rfl, (List.cons.inj same).2⟩
  | a :: as, b :: bs, after, later, equal, same => by
      rw [equalItems, Bool.and_eq_true] at equal
      have items := (List.cons.inj same).2
      rw [Document.renderItems_cons_toList, Document.renderItems_cons_toList] at items
      obtain ⟨rfl, tails⟩ := render_cancel a b equal.1 items
      obtain ⟨rfl, rest⟩ := afterItem_cancel as bs equal.2 tails
      exact ⟨rfl, rest⟩

theorem afterMember_cancel : ∀ (as bs : List (String × Json)) {after later : List Char},
    equalMembers as bs = true →
    afterMember after (membersToDocuments as) = afterMember later (membersToDocuments bs) →
      as = bs ∧ after = later
  | [], [], _, _, _, same => ⟨rfl, (List.cons.inj same).2⟩
  | (m, a) :: as, (n, b) :: bs, after, later, equal, same => by
      simp only [equalMembers, Bool.and_eq_true, beq_iff_eq] at equal
      obtain ⟨⟨rfl, values⟩, others⟩ := equal
      have members := (List.cons.inj same).2
      rw [Document.renderMembers_cons_toList, Document.renderMembers_cons_toList] at members
      have value := (List.cons.inj (List.append_cancel_left members)).2
      obtain ⟨rfl, tails⟩ := render_cancel a b values value
      obtain ⟨rfl, rest⟩ := afterMember_cancel as bs others tails
      exact ⟨rfl, rest⟩

end

/-- Equal documents have one text only if they are the same. -/
theorem render_inj {a b : Json} (equal : a.equal b = true) : a.render = b.render ↔ a = b := by
  refine ⟨fun same => ?_, congrArg render⟩
  exact (render_cancel a b equal (congrArg (·.toList ++ []) same)).1

end Json

namespace Value

/-- The key that a hasher is told. -/
def HashKey.ofWrites? : List Write → Option HashKey
  | [.byte 0] => some .null
  | [.byte 1, .integer i] => some (.int i)
  | [.byte 2, .word bits] => some (.float ⟨bits⟩)
  | [.byte 3, .text s] => some (.text s)
  | [.byte 4, .byte b] => some (.bool (b != 0))
  | [.byte 5, .text s] => some (.json s)
  | _ => none

theorem HashKey.ofWrites?_writes (k : HashKey) : ofWrites? k.writes = some k := by
  cases k with
  | null => rfl
  | int i => rfl
  | float x => rfl
  | text s => rfl
  | bool b => cases b <;> rfl
  | json s => rfl

/-- Different keys are different things for a hasher. -/
theorem HashKey.writes_inj {k l : HashKey} : k.writes = l.writes ↔ k = l := by
  refine ⟨fun same => ?_, congrArg writes⟩
  have told := congrArg ofWrites? same
  rw [ofWrites?_writes, ofWrites?_writes] at told
  exact Option.some.inj told

/-- Two documents that differ, but only in the signs of zeros. -/
def DifferInSigns (a b : Value) : Prop :=
  ∃ j k, a = .json j ∧ b = .json k ∧ j.unsigned = k.unsigned ∧ j ≠ k

theorem not_differInSigns {a b : Value} (plain : a.isJson = false) : ¬DifferInSigns a b := by
  rintro ⟨j, k, rfl, _⟩
  cases plain

/-- Of two equal values a hasher is given the same, unless they are documents that differ in the signs of
zeros; and just then are they two keys in a hashed collection. -/
theorem hashes_agree_iff {a b : Value} (equal : (a == b) = true) :
    (a.hashKey.writes = b.hashKey.writes ↔ ¬DifferInSigns a b) ∧
      (sameKey a b = true ↔ ¬DifferInSigns a b) := by
  have keys : a.hashKey = b.hashKey ↔ ¬DifferInSigns a b := by
    cases same_iff.mp equal with
    | @json j k same =>
        have texts : (Value.json j).hashKey = (Value.json k).hashKey ↔ j = k :=
          HashKey.json.injEq .. ▸ Json.render_inj same
        have signs : DifferInSigns (.json j) (.json k) ↔ j ≠ k := by
          constructor
          · rintro ⟨_, _, ⟨⟩, ⟨⟩, _, differ⟩
            exact differ
          · exact fun differ => ⟨j, k, rfl, rfl, Json.unsigned_of_equal j k same, differ⟩
        rw [texts, signs, not_not]
    | _ => exact iff_of_true (hashKey_congr equal rfl) (not_differInSigns rfl)
  refine ⟨HashKey.writes_inj.trans keys, ?_⟩
  rw [sameKey, equal, Bool.and_true, beq_iff_eq]
  exact keys

/-- The two zeros are one number, as is an integer with the float of its value. -/
theorem hashes_agree_zeros :
    (Value.float .zero == .float Binary64.zero.neg) = true ∧
      (Value.int 7 == .float ⟨0x401c000000000000⟩) = true ∧
      (Value.float .zero).hashKey.writes = (Value.float Binary64.zero.neg).hashKey.writes ∧
      (Value.int 7).hashKey.writes = (Value.float ⟨0x401c000000000000⟩).hashKey.writes := by
  have zeros : (Value.float .zero == .float Binary64.zero.neg) = true := by decide +kernel
  have sevens : (Value.int 7 == .float ⟨0x401c000000000000⟩) = true := by decide +kernel
  exact ⟨zeros, sevens, (hashes_agree_iff zeros).1.mpr (not_differInSigns rfl),
    (hashes_agree_iff sevens).1.mpr (not_differInSigns rfl)⟩

/-- A document that lists one number. -/
def listing (x : Binary64) : Value := .json (.list [.number (.real x)])

/-- Lists of the two zeros are equal, but a hasher is given two texts, and both lists are kept among
distinct values. -/
theorem zeros_hashed_apart :
    (listing .zero == listing Binary64.zero.neg) = true ∧
      (listing .zero).hashKey.writes ≠ (listing Binary64.zero.neg).hashKey.writes ∧
      distinct [listing .zero, listing Binary64.zero.neg] =
        [listing .zero, listing Binary64.zero.neg] := by
  have zero : (listing .zero).hashKey.writes = [.byte 5, .text "[0.0]"] := by decide +kernel
  have negative : (listing Binary64.zero.neg).hashKey.writes = [.byte 5, .text "[-0.0]"] := by
    decide +kernel
  have apart : sameKey (listing Binary64.zero.neg) (listing .zero) = false := by decide +kernel
  refine ⟨by decide +kernel, by rw [zero, negative]; decide, ?_⟩
  simp only [distinct, List.foldl_cons, List.foldl_nil, List.any_nil, List.any_cons, apart,
    Bool.or_false, Bool.false_eq_true, if_false]
  rfl

end Value
end NestedQuery
