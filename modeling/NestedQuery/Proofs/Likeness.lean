/- Statements that are alike: one text, and parameters that are equal one by one. Equal queries and equal
batches are rendered to such statements. -/
import Mathlib.Data.List.Forall2
import NestedQuery.Proofs.Form
import NestedQuery.Proofs.RequestEquality

namespace NestedQuery

open Result (Like)

namespace Value

/-- Two values are the same or equal. Only values that are not finite differ from themselves. -/
def Alike (a b : Value) : Prop := a = b ∨ (a == b) = true

theorem alike_iff {a b : Value} (finite : a.Finite) : Alike a b ↔ (a == b) = true := by
  constructor
  · rintro (rfl | same)
    · exact equal_self finite
    · exact same
  · exact .inr

namespace Alike

variable {a b c : Value}

theorem refl (a : Value) : Alike a a := .inl rfl

theorem symm (alike : Alike a b) : Alike b a :=
  alike.imp Eq.symm beq_symm

theorem trans (first : Alike a b) (second : Alike b c) : Alike a c := by
  rcases first with rfl | first
  · exact second
  · rcases second with rfl | second
    · exact .inr first
    · exact .inr (beq_trans first second)

theorem isNull_eq (alike : Alike a b) : a.isNull = b.isNull := by
  rcases alike with rfl | same
  · rfl
  · cases same_iff.mp same <;> rfl

end Alike

/-- The values of two lists are alike one by one. -/
abbrev AllAlike (values others : List Value) : Prop := List.Forall₂ Alike values others

theorem allAlike_refl (values : List Value) : AllAlike values values :=
  List.forall₂_same.mpr fun value _ => .refl value

theorem AllAlike.isEmpty_eq {values others : List Value} (alike : AllAlike values others) :
    values.isEmpty = others.isEmpty := by
  cases alike <;> rfl

theorem AllAlike.symm {values others : List Value} (alike : AllAlike values others) :
    AllAlike others values := (alike.imp fun _ _ => Alike.symm).flip

theorem AllAlike.trans {values others more : List Value} (first : AllAlike values others)
    (second : AllAlike others more) : AllAlike values more := by
  induction first generalizing more with
  | nil => exact second
  | cons head _ ih =>
      cases second with
      | cons head' tail' => exact .cons (head.trans head') (ih tail')

theorem allAlike_of_beq {values others : List Value} (same : (values == others) = true) :
    AllAlike values others := by
  induction values generalizing others with
  | nil =>
      cases others with
      | nil => exact .nil
      | cons _ _ => cases same
  | cons value rest ih =>
      cases others with
      | nil => cases same
      | cons other more =>
          rw [List.cons_beq_cons, Bool.and_eq_true] at same
          exact .cons (.inr same.1) (ih same.2)

end Value

open Value (AllAlike)

instance : Std.Refl Value.Alike := ⟨Value.Alike.refl⟩

mutual

/-- Equal filters differ at most in values that are equal. -/
theorem Filter.related_of_equal : ∀ f g : Filter, f.equal g = true → Filter.Related Value.Alike f g
  | .compare c m v, g, same => by
      cases g with
      | compare d n w =>
          simp only [Filter.equal, Bool.and_eq_true, beq_iff_eq] at same
          obtain ⟨⟨rfl, rfl⟩, same⟩ := same
          have alike : Value.Alike v w := .inr same
          exact .compare (fun _ => alike.isNull_eq) alike
      | _ => cases same
  | .isIn m vs, g, same => by
      cases g with
      | isIn n ws =>
          simp only [Filter.equal, Bool.and_eq_true, beq_iff_eq] at same
          obtain ⟨rfl, same⟩ := same
          exact .isIn (Value.allAlike_of_beq same)
      | _ => cases same
  | .isNull m, g, same => by
      cases g with
      | isNull n =>
          simp only [Filter.equal, beq_iff_eq] at same
          exact same ▸ .isNull m
      | _ => cases same
  | .isNotNull m, g, same => by
      cases g with
      | isNotNull n =>
          simp only [Filter.equal, beq_iff_eq] at same
          exact same ▸ .isNotNull m
      | _ => cases same
  | .like m a, g, same => by
      cases g with
      | like n b =>
          simp only [Filter.equal, Bool.and_eq_true, beq_iff_eq] at same
          obtain ⟨rfl, rfl⟩ := same
          exact .like (.refl _)
      | _ => cases same
  | .all fs, g, same => by
      cases g with
      | all gs => exact .all (Filter.relatedAll_of_equal fs gs same)
      | _ => cases same
  | .any fs, g, same => by
      cases g with
      | any gs => exact .any (Filter.relatedAll_of_equal fs gs same)
      | _ => cases same
  | .not f, g, same => by
      cases g with
      | not g => exact .not (Filter.related_of_equal f g same)
      | _ => cases same

theorem Filter.relatedAll_of_equal : ∀ fs gs : List Filter, Filter.equalAll fs gs = true →
    Filter.RelatedAll Value.Alike fs gs
  | [], [], _ => .nil
  | f :: fs, g :: gs, same => by
      rw [Filter.equalAll, Bool.and_eq_true] at same
      exact .cons (Filter.related_of_equal f g same.1) (Filter.relatedAll_of_equal fs gs same.2)

end

namespace Query

/-- Two queries are the same or equal. -/
def Alike (q r : Query) : Prop := q = r ∨ (q == r) = true

/-- Queries that are alike differ at most in the values that their filters compare with. -/
theorem Alike.parts {q r : Query} (alike : q.Alike r) :
    q.sort = r.sort ∧ q.page = r.page ∧ q.pageSize = r.pageSize ∧
      (q.filter = r.filter ∨ ∃ f g, q.filter = some f ∧ r.filter = some g ∧ f.equal g = true) := by
  rcases alike with rfl | same
  · exact ⟨rfl, rfl, rfl, .inl rfl⟩
  · change equal _ _ = true at same
    simp only [equal, Bool.and_eq_true, beq_iff_eq] at same
    obtain ⟨⟨⟨filters, sort⟩, page⟩, size⟩ := same
    refine ⟨sort, page, size, ?_⟩
    cases given : q.filter with
    | none =>
        cases given' : r.filter with
        | none => exact .inl rfl
        | some g =>
            rw [given, given'] at filters
            cases filters
    | some f =>
        cases given' : r.filter with
        | none =>
            rw [given, given'] at filters
            cases filters
        | some g =>
            rw [given, given'] at filters
            exact .inr ⟨f, g, rfl, rfl, filters⟩

theorem Alike.related {q r : Query} (alike : q.Alike r) : q.Related Value.Alike r := by
  obtain ⟨sort, page, size, filters⟩ := alike.parts
  refine ⟨?_, sort, ?_⟩
  · rcases filters with same | ⟨f, g, given, given', same⟩
    · rw [same]
      cases r.filter with
      | none => exact .none
      | some f => exact .some (Filter.related_refl f)
    · rw [given, given']
      exact .some (Filter.related_of_equal f g same)
  · rw [Query.window, Query.window, page, size]
    cases r.pageSize with
    | none => exact .none
    | some size => exact .some ⟨.refl _, .refl _⟩

end Query

namespace Sql

/-- The same text with parameters that are alike. -/
structure Statement.Alike (s t : Statement) : Prop where
  pieces : s.pieces = t.pieces
  params : AllAlike s.params t.params

theorem Statement.Alike.text_eq {s t : Statement} (alike : s.Alike t) : s.text = t.text := by
  rw [Statement.text, Statement.text, alike.pieces]

variable {shape : Shape} {q r : Query} {batch other : List Value}

/-- Statements for queries and batches that are alike are alike; the batch is of no account where it is
not compared with anything. -/
theorem Statement.anew_alike {p : Plan} {k : Nat} (shaped : Shape.ofPlan p k = .ok shape)
    (alike : q.Alike r) (batches : Segment.linkedKey ∈
      Segment.orderFor shape.isLateral shape.root.isRoot → AllAlike batch other) :
    Like Statement.Alike (Statement.anew p k q batch) (Statement.anew p k r other) := by
  refine Like.imp (Statement.anew_related (.refl p) alike.related fun again shaped' listed => ?_)
    fun s t related => ⟨related.pieces, related.params⟩
  cases shaped.symm.trans shaped'
  exact batches listed

end Sql
end NestedQuery
