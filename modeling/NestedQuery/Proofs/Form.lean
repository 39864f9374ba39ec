/- Requests of one form, which differ at most in the values that they carry: their statements have the
same text, and differ at most in their parameters. -/
import Mathlib.Data.Option.Basic
import NestedQuery.Proofs.Frames
import NestedQuery.Proofs.Rendering

namespace NestedQuery

open Result (Like)

mutual

/-- Filters that are built alike from the same fields, with values that are related one by one. What
equals null, which is tested and not compared, is null in both. -/
inductive Filter.Related (R : Value → Value → Prop) : Filter → Filter → Prop
  | compare {c : Comparison} {field : String} {v w : Value}
      (null : c = .eq ∨ c = .ne → v.isNull = w.isNull) (value : R v w) :
      Related R (.compare c field v) (.compare c field w)
  | isIn {field : String} {vs ws : List Value} (values : List.Forall₂ R vs ws) :
      Related R (.isIn field vs) (.isIn field ws)
  | isNull (field : String) : Related R (.isNull field) (.isNull field)
  | isNotNull (field : String) : Related R (.isNotNull field) (.isNotNull field)
  | like {field a b : String} (pattern : R (.text a) (.text b)) :
      Related R (.like field a) (.like field b)
  | all {fs gs : List Filter} (parts : RelatedAll R fs gs) : Related R (.all fs) (.all gs)
  | any {fs gs : List Filter} (parts : RelatedAll R fs gs) : Related R (.any fs) (.any gs)
  | not {f g : Filter} (inner : Related R f g) : Related R (.not f) (.not g)

inductive Filter.RelatedAll (R : Value → Value → Prop) : List Filter → List Filter → Prop
  | nil : RelatedAll R [] []
  | cons {f g : Filter} {fs gs : List Filter} (head : Related R f g) (tail : RelatedAll R fs gs) :
      RelatedAll R (f :: fs) (g :: gs)

end

variable {R : Value → Value → Prop}

mutual

theorem Filter.related_refl [Std.Refl R] : ∀ f : Filter, Filter.Related R f f
  | .compare _ _ v => .compare (fun _ => rfl) (refl v)
  | .isIn _ _ => .isIn (List.forall₂_same.mpr fun v _ => refl v)
  | .isNull field => .isNull field
  | .isNotNull field => .isNotNull field
  | .like _ _ => .like (refl _)
  | .all fs => .all (Filter.relatedAll_refl fs)
  | .any fs => .any (Filter.relatedAll_refl fs)
  | .not f => .not (Filter.related_refl f)

theorem Filter.relatedAll_refl [Std.Refl R] : ∀ fs : List Filter, Filter.RelatedAll R fs fs
  | [] => .nil
  | f :: fs => .cons (Filter.related_refl f) (Filter.relatedAll_refl fs)

end

/-- Filters that are related, the same orders, and pages whose bounds are related. -/
structure Query.Related (R : Value → Value → Prop) (q r : Query) : Prop where
  filter : Option.Rel (Filter.Related R) q.filter r.filter
  sort : q.sort = r.sort
  window : Option.Rel (fun a b => R (.ofUInt64 a.1) (.ofUInt64 b.1) ∧ R (.ofUInt64 a.2) (.ofUInt64 b.2))
    q.window r.window

theorem isSome_eq_of_rel {α β : Type} {P : α → β → Prop} {a : Option α} {b : Option β}
    (related : Option.Rel P a b) : a.isSome = b.isSome := by
  cases related <;> rfl

theorem Query.isSome_window (q : Query) : q.window.isSome = q.isPaginated := Option.isSome_map

theorem Query.Related.isPaginated_eq {q r : Query} (related : q.Related R r) :
    r.isPaginated = q.isPaginated := by
  rw [← isSome_window, ← isSome_window, isSome_eq_of_rel related.window]

/-- Two plans whose nodes differ at most in their requests, and these at most in values that are
related. -/
structure Plan.RelatedBy (R : Value → Value → Prop) (p q : Plan) : Prop extends p.SameFrames q where
  queriesRelated : ∀ (i : Nat) (n m : DataNode), p.data[i]? = some n → q.data[i]? = some m →
    n.request.query.Related R m.request.query

theorem Query.related_refl [Std.Refl R] (q : Query) : q.Related R q := by
  refine ⟨?_, rfl, ?_⟩
  · cases q.filter with
    | none => exact .none
    | some f => exact .some (Filter.related_refl f)
  · cases q.window with
    | none => exact .none
    | some bounds => exact .some ⟨refl _, refl _⟩

theorem Plan.RelatedBy.refl [Std.Refl R] (p : Plan) : p.RelatedBy R p := by
  refine ⟨⟨rfl, rfl, rfl⟩, fun i n m found found' => ?_⟩
  cases found.symm.trans found'
  exact n.request.query.related_refl

namespace Sql

/-- The same text with parameters that are related one by one. -/
structure Fragment.Related (R : Value → Value → Prop) (f g : Fragment) : Prop where
  pieces : f.pieces = g.pieces
  params : List.Forall₂ R f.params g.params

namespace Fragment.Related

variable {f g f' g' : Fragment}

theorem refl [Std.Refl R] (f : Fragment) : f.Related R f :=
  ⟨rfl, List.forall₂_same.mpr fun v _ => Std.Refl.refl v⟩

theorem next_eq (related : f.Related R g) (start : Nat) : f.next start = g.next start := by
  rw [Fragment.next, Fragment.next, related.params.length_eq]

theorem append (first : f.Related R g) (second : f'.Related R g') : (f ++ f').Related R (g ++ g') :=
  ⟨congrArg₂ (· ++ ·) first.pieces second.pieces, List.rel_append first.params second.params⟩

theorem result_refl [Std.Refl R] (x : Result Fragment) : Like (Fragment.Related R) x x := by
  cases x with
  | error error => exact .error error
  | ok f => exact .ok (.refl f)

theorem ofPieces (pieces : Pieces) : (ofPieces pieces).Related R (.ofPieces pieces) := ⟨rfl, .nil⟩

/-- The same text around parts that are related. -/
theorem around (related : f.Related R g) (before after : Pieces) :
    Fragment.Related R ⟨before ++ f.pieces ++ after, f.params⟩ ⟨before ++ g.pieces ++ after, g.params⟩ :=
  ⟨by rw [related.pieces], related.params⟩

end Fragment.Related

/-- Parts that are related one by one are put together alike. -/
theorem Fragment.joined_related {parts others : List Fragment}
    (related : List.Forall₂ (Fragment.Related R) parts others) (between : String) :
    Fragment.Related R
      ⟨.words "(" :: Pieces.separated between (parts.map (·.pieces)) ++ [.words ")"],
        parts.flatMap (·.params)⟩
      ⟨.words "(" :: Pieces.separated between (others.map (·.pieces)) ++ [.words ")"],
        others.flatMap (·.params)⟩ := by
  have both : parts.map (·.pieces) = others.map (·.pieces) ∧
      List.Forall₂ R (parts.flatMap (·.params)) (others.flatMap (·.params)) := by
    induction related with
    | nil => exact ⟨rfl, .nil⟩
    | cons head _ ih =>
        refine ⟨?_, ?_⟩
        · rw [List.map_cons, List.map_cons, head.pieces, ih.1]
        · rw [List.flatMap_cons, List.flatMap_cons]
          exact List.rel_append head.params ih.2
  exact ⟨by rw [both.1], both.2⟩

section Predicate

variable {format : Format} {label field : String} {start : Nat}

/-- Only equality with null is no comparison. -/
theorem predicate_compare {c : Comparison} {v : Value} (binds : c = .eq ∨ c = .ne → v.isNull = false) :
    predicate format label start (.compare c field v) = (do
      let column ← fieldColumn format label field
      return ⟨column.pieces ++ .words s!" {Comparison.sign c} "
        :: parameter start (format.type? field), [v]⟩) := by
  rw [predicate]
  refine congrArg _ (funext fun column => ?_)
  cases v with
  | null => cases c <;> first | rfl | cases binds (by decide)
  | _ => cases c <;> rfl

theorem predicate_compare_related {c : Comparison} {v w : Value}
    (null : c = .eq ∨ c = .ne → v.isNull = w.isNull) (value : R v w) :
    Like (Fragment.Related R) (predicate format label start (.compare c field v))
      (predicate format label start (.compare c field w)) := by
  by_cases tests : (c = .eq ∨ c = .ne) ∧ v.isNull = true
  · obtain ⟨equality, none⟩ := tests
    have none' : w.isNull = true := null equality ▸ none
    cases v <;> cases none
    cases w <;> cases none'
    rcases equality with rfl | rfl <;>
      exact Like.bind_same fun column => .ok (.ofPieces _)
  · have binds : c = .eq ∨ c = .ne → v.isNull = false := fun equality => by simpa [equality] using tests
    rw [predicate_compare binds, predicate_compare fun equality => null equality ▸ binds equality]
    exact Like.bind_same fun column => .ok ⟨rfl, .cons value .nil⟩

/-- Filters that are related are rendered to the same text with parameters that are related. -/
theorem predicate_related {f g : Filter} (related : Filter.Related R f g) (start : Nat) :
    Like (Fragment.Related R) (predicate format label start f) (predicate format label start g) := by
  induction related using Filter.Related.rec
    (motive_2 := fun fs gs _ => fs.isEmpty = gs.isEmpty ∧ ∀ start,
      Like (List.Forall₂ (Fragment.Related R)) (predicates format label start fs)
        (predicates format label start gs)) generalizing start with
  | compare null value => exact predicate_compare_related null value
  | @isIn field vs ws values =>
      have empty : vs.isEmpty = ws.isEmpty := by cases values <;> rfl
      rw [predicate, predicate, empty, values.length_eq]
      split
      · exact .ok (.ofPieces _)
      · exact Like.bind_same fun column => .ok ⟨rfl, values⟩
  | isNull field => exact Like.bind_same fun column => .ok (.ofPieces _)
  | isNotNull field => exact Like.bind_same fun column => .ok (.ofPieces _)
  | like pattern => exact Like.bind_same fun column => .ok ⟨rfl, .cons pattern .nil⟩
  | all _ ih =>
      obtain ⟨empty, parts⟩ := ih
      rw [predicate, predicate, empty]
      split
      · exact .ok (.ofPieces _)
      · exact (parts start).bind fun _ _ related => .ok (Fragment.joined_related related _)
  | any _ ih =>
      obtain ⟨empty, parts⟩ := ih
      rw [predicate, predicate, empty]
      split
      · exact .ok (.ofPieces _)
      · exact (parts start).bind fun _ _ related => .ok (Fragment.joined_related related _)
  | not _ ih => exact (ih start).bind fun inner other related => .ok (related.around [.words "NOT ("] _)
  | nil => exact ⟨rfl, fun _ => .ok .nil⟩
  | cons _ _ first later =>
      refine ⟨rfl, fun start => (first start).bind fun f g related => ?_⟩
      rw [related.next_eq]
      exact (later.2 _).bind fun rest more others => .ok (.cons related others)

end Predicate

section Segments

variable {shape other : Shape} {q r : Query} {batch values : List Value}

theorem condition_related {filter filter' : Option Filter}
    (related : Option.Rel (Filter.Related R) filter filter') (lead : String) (start : Nat) :
    Like (Fragment.Related R) (Clause.condition shape lead filter start)
      (Clause.condition shape lead filter' start) := by
  cases related with
  | none => exact .ok ⟨rfl, .nil⟩
  | some related =>
      exact (predicate_related related start).bind fun inner other related =>
        .ok (related.around [.words (lead ++ " (")] _)

theorem linkedKey_related (batches : List.Forall₂ R batch values) (lead : String) (start : Nat) :
    Like (Fragment.Related R) (Clause.linkedKey shape lead batch start)
      (Clause.linkedKey shape lead values start) := by
  rw [Clause.linkedKey, Clause.linkedKey]
  refine Like.bind_same fun column => ?_
  cases batches with
  | nil => exact .error _
  | cons first rest =>
      cases rest with
      | nil => exact .ok ⟨rfl, .cons first .nil⟩
      | cons second others =>
          have many := List.Forall₂.cons first (.cons second others)
          refine .ok ⟨?_, many⟩
          rw [many.length_eq]

theorem pagination_related (related : q.Related R r) (start : Nat) :
    (Clause.pagination q start).Related R (Clause.pagination r start) := by
  have bounds := related.window
  unfold Clause.pagination
  generalize q.window = window at bounds
  generalize r.window = window' at bounds
  cases bounds with
  | none => exact ⟨rfl, .nil⟩
  | some bound => exact ⟨rfl, .cons bound.1 (.cons bound.2 .nil)⟩

theorem Shape.SameFrames.join_related (same : shape.SameFrames other) (n : DataNode) (request : Request)
    (related : n.request.query.Related R request.query) (start : Nat) :
    Like (Fragment.Related R) (Clause.join shape n start)
      (Clause.join other { n with request := request } start) := by
  rw [Clause.join_eq, Clause.join_eq, same.unfiltered_eq]
  refine Like.bind_same fun joined => ?_
  have filters := related.filter
  generalize n.request.query.filter = filter at filters
  generalize request.query.filter = filter' at filters
  cases filters with
  | none => exact .ok (.ofPieces _)
  | some related =>
      refine (predicate_related related start).bind fun inner other related => .ok ⟨?_, related.params⟩
      simp only [related.pieces]

theorem Shape.SameFrames.joinsOf_related (same : shape.SameFrames other)
    (plans : shape.plan.RelatedBy R other.plan) (ids : List Nat) (start : Nat) :
    Like (Fragment.Related R) (Clause.joinsOf shape start ids) (Clause.joinsOf other start ids) := by
  induction ids generalizing start with
  | nil => exact .ok ⟨rfl, .nil⟩
  | cons id rest ih =>
      rw [Clause.joinsOf, Clause.joinsOf]
      refine (plans.toSameFrames.dataNode_like id).bind ?_
      rintro n _ ⟨found, found', request, rfl⟩
      refine (same.join_related n request (plans.queriesRelated id _ _ found found') start).bind
        fun first second related => ?_
      rw [related.next_eq]
      exact (ih _).bind fun others more alike => .ok (related.append alike)

/-- A segment is rendered to the same text for queries and batches that are related. -/
theorem Segment.render_related [Std.Refl R] (same : shape.SameFrames other)
    (plans : shape.plan.RelatedBy R other.plan) (related : q.Related R r) (segment : Segment)
    (batches : segment = .linkedKey → List.Forall₂ R batch values) (start : Nat) :
    Like (Fragment.Related R) (segment.render shape q batch start)
      (segment.render other r values start) := by
  obtain ⟨request, root⟩ := same.root
  cases segment with
  | head =>
      rw [render, render, same.head_eq]
      exact Fragment.Related.result_refl _
  | joins =>
      rw [render, render, Clause.joins, Clause.joins, same.query]
      exact same.joinsOf_related plans _ start
  | filter =>
      rw [render, render, same.isLateral_eq, same.condition_eq]
      exact condition_related related.filter _ start
  | linkedKey =>
      rw [render, render, same.isLateral_eq, same.linkedKey_eq, isSome_eq_of_rel related.filter]
      exact linkedKey_related (batches rfl) _ start
  | orderBy =>
      have orders : Clause.orderBy other r.sort = Clause.orderBy shape q.sort := by
        simp only [Clause.orderBy, root, related.sort]
        rfl
      rw [render, render, orders]
      exact Fragment.Related.result_refl _
  | pagination => exact .ok (pagination_related related start)
  | lateralClose =>
      simp only [render, Clause.lateralClose, root]
      exact .ok (.ofPieces _)

theorem renderAll_related {render again : Segment → Nat → Result Fragment} {segments : List Segment}
    (related : ∀ segment ∈ segments, ∀ start,
      Like (Fragment.Related R) (render segment start) (again segment start)) (start : Nat) :
    Like (Fragment.Related R) (renderAll render start segments) (renderAll again start segments) := by
  induction segments generalizing start with
  | nil => exact .ok ⟨rfl, .nil⟩
  | cons segment rest ih =>
      obtain ⟨first, later⟩ := List.forall_mem_cons.mp related
      rw [renderAll, renderAll]
      refine (first start).bind fun f g same => ?_
      rw [same.next_eq]
      exact (ih later _).bind fun others more likewise => .ok (same.append likewise)

end Segments

/-- The same text with parameters that are related one by one. -/
structure Statement.Related (R : Value → Value → Prop) (s t : Statement) : Prop where
  pieces : s.pieces = t.pieces
  params : List.Forall₂ R s.params t.params

theorem Statement.Related.text_eq {s t : Statement} (related : s.Related R t) : s.text = t.text := by
  rw [Statement.text, Statement.text, related.pieces]

variable {p p' : Plan} {q r : Query} {batch values : List Value}

/-- A statement is rendered to the same text, for queries of its root and batches that are related; the
batch is of no account where it is not compared with anything. -/
theorem Statement.anew_related [Std.Refl R] (plans : p.RelatedBy R p') {k : Nat} (related : q.Related R r)
    (batches : ∀ shape, Shape.ofPlan p k = .ok shape →
      Segment.linkedKey ∈ Segment.orderFor shape.isLateral shape.root.isRoot →
        List.Forall₂ R batch values) :
    Like (Statement.Related R) (Statement.anew p k q batch) (Statement.anew p' k r values) := by
  have shapes := Shape.ofPlan_like plans.toSameFrames (k := k) fun i n request found found' _ =>
    (plans.queriesRelated i n _ found found').isPaginated_eq
  rw [Statement.anew, Statement.anew]
  generalize Shape.ofPlan p k = shaped at shapes batches
  generalize Shape.ofPlan p' k = shaped' at shapes
  cases shapes with
  | error error => exact .error error
  | @ok shape other alike =>
      obtain ⟨rfl, rfl, same⟩ := alike
      obtain ⟨request, root⟩ := same.root
      have isRoot : other.root.isRoot = shape.root.isRoot := by
        rw [root]
        rfl
      rw [Result.ok_bind, Result.ok_bind, same.isLateral_eq, isRoot]
      refine Like.bind (renderAll_related (fun segment listed start => ?_) 1)
        fun f g likewise => .ok ⟨likewise.pieces, likewise.params⟩
      refine Segment.render_related same plans related segment ?_ start
      rintro rfl
      exact batches shape rfl listed

end Sql

/-- Values may differ in any way. -/
def Value.Arbitrary (_ _ : Value) : Prop := True

instance : Std.Refl Value.Arbitrary := ⟨fun _ => trivial⟩

/-- Filters that are built alike, orders that are the same, and pages in both or in neither. -/
structure Query.SameForm (q r : Query) : Prop where
  filter : Option.Rel (Filter.Related Value.Arbitrary) q.filter r.filter
  sort : q.sort = r.sort
  paged : q.isPaginated = r.isPaginated

namespace Request

mutual

/-- Requests for the same fields and relations that differ at most in the values of filters, in page
numbers and in page sizes. -/
def SameForm : Request → Request → Prop
  | ⟨fields, relations, query⟩, ⟨others, rest, other⟩ =>
    fields = others ∧ query.SameForm other ∧ SameForms relations rest

def SameForms : List (String × Request) → List (String × Request) → Prop
  | [], [] => True
  | (m, r) :: rs, (n, s) :: ss => m = n ∧ SameForm r s ∧ SameForms rs ss
  | _, _ => False

end

mutual

theorem SameForm.sameShape : ∀ r s : Request, r.SameForm s → r.SameShape s
  | ⟨_, relations, _⟩, ⟨_, rest, _⟩, ⟨fields, query, below⟩ =>
    ⟨fields, query.paged, SameForms.sameShapes relations rest below⟩

theorem SameForms.sameShapes : ∀ rs ss : List (String × Request), SameForms rs ss → SameShapes rs ss
  | [], [], _ => trivial
  | (_, r) :: rs, (_, s) :: ss, ⟨name, first, rest⟩ =>
    ⟨name, SameForm.sameShape r s first, SameForms.sameShapes rs ss rest⟩

end

mutual

theorem SameForm.preorder : ∀ r s : Request, r.SameForm s →
    List.Forall₂ (fun a b => a.query.SameForm b.query) r.preorder s.preorder
  | ⟨_, relations, _⟩, ⟨_, rest, _⟩, ⟨_, query, below⟩ =>
    .cons query (SameForms.preorder relations rest below)

theorem SameForms.preorder : ∀ rs ss : List (String × Request), SameForms rs ss →
    List.Forall₂ (fun a b => a.query.SameForm b.query) (preorderOfRelations rs)
      (preorderOfRelations ss)
  | [], [], _ => .nil
  | (_, r) :: rs, (_, s) :: ss, ⟨_, first, rest⟩ =>
    List.rel_append (SameForm.preorder r s first) (SameForms.preorder rs ss rest)

end

end Request

theorem Query.SameForm.related {q r : Query} (same : q.SameForm r) :
    q.Related Value.Arbitrary r := by
  refine ⟨same.filter, same.sort, ?_⟩
  have paged : q.window.isSome = r.window.isSome := by
    rw [isSome_window, isSome_window, same.paged]
  generalize q.window = window at paged
  generalize r.window = window' at paged
  cases window with
  | none =>
      cases window' with
      | none => exact .none
      | some bounds => cases paged
  | some bounds =>
      cases window' with
      | none => cases paged
      | some bounds' => exact .some ⟨trivial, trivial⟩

theorem related_at {α β : Type} {P : α → β → Prop} {xs : List α} {ys : List β}
    (related : List.Forall₂ P xs ys) {i : Nat} {x : α} {y : β} (here : xs[i]? = some x)
    (there : ys[i]? = some y) : P x y := by
  induction related generalizing i with
  | nil => cases here
  | cons head _ ih =>
      cases i with
      | zero =>
          cases here
          cases there
          exact head
      | succ i => exact ih here there

/-- Requests of one form are planned alike. -/
theorem Plan.relatedBy_of_sameForm {catalog : Catalog} {format : String} {plural : Bool}
    {r r' : Request} {p p' : Plan} (built : build catalog format plural r = .ok p)
    (built' : build catalog format plural r' = .ok p') (same : r.SameForm r') :
    p.RelatedBy Value.Arbitrary p' := by
  refine ⟨build_sameFrames built built' (same.sameShape r r'), fun i n m found found' => ?_⟩
  obtain ⟨_, _, grown, _⟩ := build_cases built
  obtain ⟨_, _, grown', _⟩ := build_cases built'
  have queries := same.preorder r r'
  rw [← arena_requests r grown, ← arena_requests r' grown', List.forall₂_map_left_iff,
    List.forall₂_map_right_iff] at queries
  exact (related_at queries found found').related

theorem Value.arbitrary_of_length_eq {xs ys : List Value} (same : xs.length = ys.length) :
    List.Forall₂ Arbitrary xs ys :=
  List.forall₂_iff_get.mpr ⟨same, fun _ _ _ => trivial⟩

namespace Sql

/-- The text of a statement does not depend on the values of a request: not on those that filters compare
with, not on patterns, pages and their sizes, and not on the linked values, but for their number. -/
theorem Statement.text_of_sameForm {s : Schema} (declared : s.Declared) {format : String} {plural : Bool}
    {r r' : Request} {p p' : Plan} (built : Plan.build s.catalog format plural r = .ok p)
    (built' : Plan.build s.catalog format plural r' = .ok p') (same : r.SameForm r') :
    p'.queries = p.queries ∧
      ∀ k < p.queries.length, ∀ batch batch' : List Value, batch.length = batch'.length →
        (k ≠ 0 → batch ≠ []) → ∃ m m' statement statement', Memo.ofPlan p k = .ok m ∧
          Memo.ofPlan p' k = .ok m' ∧ (m.setBatch batch).statement.1 = .ok statement ∧
          (m'.setBatch batch').statement.1 = .ok statement' ∧ statement.text = statement'.text ∧
          statement.params.length = statement'.params.length := by
  have plans := Plan.relatedBy_of_sameForm built built' same
  have valid := Plan.build_over declared built
  have valid' := Plan.build_over declared built'
  refine ⟨plans.queries, fun k inside batch batch' sameLength bound => ?_⟩
  obtain ⟨q, query⟩ : ∃ q, p.queries[k]? = some q := ⟨_, List.getElem?_eq_getElem inside⟩
  have query' : p'.queries[k]? = some q := plans.queries ▸ query
  have bound' : k ≠ 0 → batch' ≠ [] := by
    rintro below rfl
    exact bound below (List.length_eq_zero_iff.mp sameLength)
  obtain ⟨m, fresh⟩ := Memo.ofPlan_succeeds valid declared.sound query
  obtain ⟨m', fresh'⟩ := Memo.ofPlan_succeeds valid' declared.sound query'
  obtain ⟨statement, rendered⟩ := Memo.statement_after_succeeds valid declared.sound query fresh
    [.setBatch batch] fun below => Memo.setBatch_batch_ne_nil (bound below)
  refine ⟨m, m', statement, ?_⟩
  have roots : (m.setBatch batch).rootQuery.Related Value.Arbitrary (m'.setBatch batch').rootQuery := by
    obtain ⟨root, found⟩ := valid.root_found query
    obtain ⟨root', found'⟩ := valid'.root_found query'
    rw [Memo.setBatch_rootQuery, Memo.setBatch_rootQuery, Memo.ofPlan_rootQuery fresh query found,
      Memo.ofPlan_rootQuery fresh' query' found']
    exact plans.queriesRelated _ _ _ found found'
  have batches : List.Forall₂ Value.Arbitrary (m.setBatch batch).batch (m'.setBatch batch').batch := by
    rw [Memo.setBatch_fresh fresh, Memo.setBatch_fresh fresh']
    exact Value.arbitrary_of_length_eq sameLength
  have like := Statement.anew_related plans (k := k) roots fun _ _ _ => batches
  rw [← ((Memo.coherent_ofPlan fresh).setBatch batch).statement.1,
    ← ((Memo.coherent_ofPlan fresh').setBatch batch').statement.1] at like
  change (m.setBatch batch).statement.1 = .ok statement at rendered
  rw [rendered] at like
  generalize outcome : (m'.setBatch batch').statement.1 = rendered' at like
  cases like with
  | @ok _ statement' related =>
      exact ⟨statement', fresh, fresh', rendered, rfl, related.text_eq, related.params.length_eq⟩

/-- Users of a name, each with a page of the articles under one of two titles. -/
def titled (name first second : String) (page : Option UInt64) (size : UInt64) : Request :=
  ⟨some ["name"], [("articles", ⟨some ["title"], [],
      ⟨some (.isIn "title" [.text first, .text second]), [⟨"title", .asc⟩], page, some size⟩⟩)],
    ⟨some (.all [.compare .eq "name" (.text name), .like "name" (name ++ "%")]), [], none, none⟩⟩

/-- What looks like a statement is bound as a parameter, in the page of each user as well. -/
theorem Statement.text_of_sameForm_titled : ∃ p p' m m' statement statement',
    Plan.build Schema.blog.catalog "user" true (titled "Ann" "On rain" "On snow" none 10) = .ok p ∧
      Plan.build Schema.blog.catalog "user" true
        (titled "'; DROP TABLE users; --" "' OR ''='" "$1" (some 3) 25) = .ok p' ∧
      (titled "Ann" "On rain" "On snow" none 10).SameForm
        (titled "'; DROP TABLE users; --" "' OR ''='" "$1" (some 3) 25) ∧
      Memo.ofPlan p 1 = .ok m ∧ Memo.ofPlan p' 1 = .ok m' ∧
      (m.setBatch [.int 1, .int 2]).statement.1 = .ok statement ∧
      (m'.setBatch [.text "1); --", .null]).statement.1 = .ok statement' ∧
      statement.text = statement'.text ∧ statement.params.length = statement'.params.length := by
  have planned : ∃ p p',
      Plan.build Schema.blog.catalog "user" true (titled "Ann" "On rain" "On snow" none 10) = .ok p ∧
      Plan.build Schema.blog.catalog "user" true
        (titled "'; DROP TABLE users; --" "' OR ''='" "$1" (some 3) 25) = .ok p' ∧
      1 < p.queries.length := ⟨_, _, rfl, rfl, by decide⟩
  obtain ⟨p, p', built, built', second⟩ := planned
  have same : (titled "Ann" "On rain" "On snow" none 10).SameForm
      (titled "'; DROP TABLE users; --" "' OR ''='" "$1" (some 3) 25) := by
    refine ⟨rfl, ⟨.some (.all ?_), rfl, rfl⟩, rfl, ⟨rfl, ⟨.some (.isIn ?_), rfl, rfl⟩, trivial⟩, trivial⟩
    · exact .cons (.compare (fun _ => rfl) trivial) (.cons (.like trivial) .nil)
    · exact .cons trivial (.cons trivial .nil)
  obtain ⟨m, m', statement, statement', rest⟩ :=
    (Statement.text_of_sameForm Schema.blog_declared built built' same).2 1 second
      [.int 1, .int 2] [.text "1); --", .null] rfl fun _ => List.cons_ne_nil _ _
  exact ⟨p, p', m, m', statement, statement', built, built', same, rest⟩

end Sql

end NestedQuery
