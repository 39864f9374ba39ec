/- Collections by key: a group holds what was added under its key, in order, and the distinct values
of a column stand for all of them. -/
import NestedQuery.Fold
import NestedQuery.Proofs.ValueEquality

namespace NestedQuery

namespace Groups

theorem find_cons (k key : Value) (objects : List Tree) (rest : Groups) :
    find ((k, objects) :: rest) key =
      if Value.sameKey k key then objects else find rest key := by
  unfold find
  rw [List.find?_cons]
  cases Value.sameKey k key <;> rfl

/-- What is added under one key is found at the end of the group of every key that is the same. -/
theorem find_add (k key : Value) (object : Tree) (groups : Groups) :
    find (add k object groups) key =
      if Value.sameKey k key then find groups key ++ [object] else find groups key := by
  induction groups with
  | nil => rw [add, find_cons]; rfl
  | cons first rest ih =>
      obtain ⟨k₀, objects⟩ := first
      cases here : Value.sameKey k₀ k with
      | true =>
          have agree : Value.sameKey k₀ key = Value.sameKey k key := by
            refine Bool.eq_iff_iff.mpr ⟨?_, ?_⟩
            · exact Value.sameKey_trans (Value.sameKey_symm here)
            · exact Value.sameKey_trans here
          simp only [add, here, if_true, find_cons, agree]
          split <;> rfl
      | false =>
          simp only [add, here, Bool.false_eq_true, if_false, find_cons, ih]
          cases found : Value.sameKey k₀ key with
          | false => rfl
          | true =>
              have other : Value.sameKey k key = false := by
                refine Bool.eq_false_iff.mpr fun same => ?_
                have equal := Value.sameKey_trans found (Value.sameKey_symm same)
                rw [here] at equal
                cases equal
              simp [other]

def addRow (key? : Row → Option Value) (object : Row → Tree) (groups : Groups) (row : Row) : Groups :=
  match key? row with
  | none => groups
  | some key => groups.add key (object row)

theorem find_foldl_addRow (key? : Row → Option Value) (object : Row → Tree) (rows : List Row)
    (key : Value) (start : Groups) :
    find (rows.foldl (addRow key? object) start) key = find start key ++
      (rows.filter fun row => (key? row).any (Value.sameKey · key)).map object := by
  induction rows generalizing start with
  | nil => simp
  | cons row rest ih =>
      rw [List.foldl_cons, ih, addRow]
      cases own : key? row with
      | none => simp [own]
      | some k =>
          simp only [find_add]
          cases same : Value.sameKey k key <;> simp [own, same]

end Groups

namespace Value

/-- Adds a value to those that were seen before, the latest first. -/
def addDistinct (seen : List Value) (v : Value) : List Value :=
  if seen.any (sameKey v) then seen else v :: seen

theorem subset_foldl_addDistinct {values seen : List Value} {b : Value} (member : b ∈ seen) :
    b ∈ values.foldl addDistinct seen := by
  induction values generalizing seen with
  | nil => exact member
  | cons v rest ih =>
      refine ih ?_
      unfold addDistinct
      split
      · exact member
      · exact List.mem_cons_of_mem _ member

theorem cover_foldl_addDistinct {values seen : List Value} {v : Value} (member : v ∈ values)
    (self : sameKey v v = true) : ∃ b ∈ values.foldl addDistinct seen, sameKey v b = true := by
  induction values generalizing seen with
  | nil => cases member
  | cons first rest ih =>
      rcases List.mem_cons.mp member with rfl | later
      · rw [List.foldl_cons]
        cases known : seen.any (sameKey v) with
        | true =>
            obtain ⟨b, old, same⟩ := List.any_eq_true.mp known
            have kept : b ∈ addDistinct seen v := by simpa [addDistinct, known] using old
            exact ⟨b, subset_foldl_addDistinct kept, same⟩
        | false =>
            have kept : v ∈ addDistinct seen v := by simp [addDistinct, known]
            exact ⟨v, subset_foldl_addDistinct kept, self⟩
      · exact ih later

/-- Every value that has a key at all has the key of one of the distinct values. -/
theorem exists_distinct {values : List Value} {v : Value} (member : v ∈ values)
    (self : sameKey v v = true) : ∃ b ∈ distinct values, sameKey v b = true := by
  obtain ⟨b, kept, same⟩ := @cover_foldl_addDistinct values [] v member self
  exact ⟨b, List.mem_reverse.mpr kept, same⟩

theorem distinct_eq_nil {values : List Value} : distinct values = [] ↔ values = [] := by
  constructor
  · intro empty
    cases values with
    | nil => rfl
    | cons v rest =>
        have kept : v ∈ rest.foldl addDistinct [v] := subset_foldl_addDistinct (List.mem_singleton_self v)
        have member : v ∈ distinct (v :: rest) := List.mem_reverse.mpr kept
        rw [empty] at member
        cases member
  · rintro rfl
    rfl

theorem pairwise_foldl_addDistinct {values seen : List Value}
    (apart : seen.Pairwise fun a b => sameKey a b = false) :
    (values.foldl addDistinct seen).Pairwise fun a b => sameKey a b = false := by
  induction values generalizing seen with
  | nil => exact apart
  | cons v rest ih =>
      refine ih ?_
      unfold addDistinct
      split
      · exact apart
      · next new =>
          refine List.pairwise_cons.mpr ⟨fun b member => ?_, apart⟩
          exact Bool.eq_false_iff.mpr fun same => new (List.any_eq_true.mpr ⟨b, member, same⟩)

section Plain

variable {values : List Value} (plain : ∀ v ∈ values, v.isJson = false)
include plain

/-- Among values other than JSON documents, the distinct ones are the first ones of those that are
equal. -/
theorem distinct_eq_eraseDups : distinct values = values.eraseDups := by
  have folded : ∀ seen : List Value, (values.foldl addDistinct seen).reverse =
      List.eraseDupsBy.loop (· == ·) values seen := by
    induction values with
    | nil => exact fun _ => rfl
    | cons v rest ih =>
        obtain ⟨first, later⟩ := List.forall_mem_cons.mp plain
        intro seen
        have known : seen.any (sameKey v) = seen.any (v == ·) :=
          congrArg seen.any (funext fun b => sameKey_eq_beq first b)
        rw [List.foldl_cons, ih later, List.eraseDupsBy.loop, addDistinct, known]
        cases seen.any (v == ·) <;> rfl
  exact folded []

/-- Each of them is equal to exactly one of the distinct values. -/
theorem countP_distinct {v : Value} (member : v ∈ values) : (distinct values).countP (v == ·) = 1 := by
  have apart : (values.foldl addDistinct []).Pairwise fun a b => sameKey a b = false :=
    pairwise_foldl_addDistinct .nil
  have most : ∀ kept : List Value, (kept.Pairwise fun a b => sameKey a b = false) →
      kept.countP (v == ·) ≤ 1 := by
    intro kept apart
    induction kept with
    | nil => exact Nat.zero_le _
    | cons b rest ih =>
        obtain ⟨first, later⟩ := List.pairwise_cons.mp apart
        rw [List.countP_cons]
        by_cases same : (v == b) = true
        · have others : rest.countP (v == ·) = 0 := by
            refine List.countP_eq_zero.mpr fun c inRest again => ?_
            rw [← sameKey_eq_beq (plain v member)] at same again
            have both := sameKey_trans (sameKey_symm same) again
            rw [first c inRest] at both
            cases both
          exact Nat.le_of_eq (by rw [others, if_pos same])
        · rw [if_neg same]
          exact ih later
  have self : sameKey v v = true := (sameKey_eq_beq (plain v member) v).trans (beq_self (plain v member))
  obtain ⟨b, kept, same⟩ := exists_distinct member self
  have least : 0 < (distinct values).countP (v == ·) :=
    List.countP_pos_iff.mpr ⟨b, kept, beq_of_sameKey same⟩
  have reversed := most _ apart
  rw [← List.countP_reverse] at reversed
  exact Nat.le_antisymm reversed least

end Plain

end Value
end NestedQuery
