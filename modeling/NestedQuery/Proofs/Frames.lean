/- Plans that differ at most in the requests of their nodes: their statements are linked, projected and
folded alike. Only filters, orders and pages are read from a request. -/
import NestedQuery.Proofs.Fold
import NestedQuery.Proofs.Held
import NestedQuery.Proofs.Rebind

namespace NestedQuery

open Execution
open Result (Like)

namespace Plan

variable {p q : Plan}

/-- Two plans that differ at most in the requests of their nodes. -/
structure SameFrames (p q : Plan) : Prop where
  frames : q.data.map (·.frame) = p.data.map (·.frame)
  queries : q.queries = p.queries
  owner : q.owner = p.owner

theorem build_sameFrames {catalog : Catalog} {format : String} {plural : Bool} {r s : Request}
    (built : build catalog format plural r = .ok p) (again : build catalog format plural s = .ok q)
    (same : r.SameShape s) : p.SameFrames q := by
  obtain ⟨root, known, grown, grouped⟩ := build_cases built
  obtain ⟨root', known', regrown, regrouped⟩ := build_cases again
  cases known.symm.trans known'
  have frames := arena_frames r s same grown regrown
  have outlines := outlines_of_frames frames
  refine ⟨frames, ?_, ?_⟩
  · rw [congrArg queries grouped, congrArg queries regrouped, ofNodes, ofNodes, outlines]
  · rw [congrArg owner grouped, congrArg owner regrouped, ofNodes, ofNodes, outlines]

namespace SameFrames

section Reading

variable (same : p.SameFrames q)
include same

/-- The nodes of one place differ at most in their requests. -/
theorem cases_at (id : Nat) : (p.data[id]? = none ∧ q.data[id]? = none) ∨
    ∃ n other, p.data[id]? = some n ∧ q.data[id]? = some { n with request := other } := by
  have frames := congrArg (·[id]?) same.frames
  simp only [List.getElem?_map] at frames
  cases found : p.data[id]? with
  | none =>
      rw [found] at frames
      exact .inl ⟨rfl, Option.map_eq_none_iff.mp frames⟩
  | some n =>
      rw [found] at frames
      obtain ⟨m, found', frame⟩ := Option.map_eq_some_iff.mp frames
      refine .inr ⟨n, m.request, rfl, found'.trans (congrArg some ?_)⟩
      obtain ⟨⟩ := m
      cases n
      cases frame
      rfl

/-- The nodes that are found at one place differ at most in their requests. -/
theorem dataNode_like (id : Nat) :
    Like (fun n m => p.data[id]? = some n ∧ q.data[id]? = some m ∧
      ∃ other, m = { n with request := other }) (p.dataNode id) (q.dataNode id) := by
  unfold dataNode
  rcases same.cases_at id with ⟨none, none'⟩ | ⟨n, other, found, found'⟩
  · rw [none, none']
    exact .error _
  · rw [found, found']
    exact .ok ⟨rfl, rfl, other, rfl⟩

/-- What is read of a node apart from its request is the same. -/
theorem bind_dataNode {α : Type} (f g : DataNode → Result α)
    (reads : ∀ n other, g { n with request := other } = f n) (id : Nat) :
    (q.dataNode id >>= g) = (p.dataNode id >>= f) := by
  unfold dataNode
  rcases same.cases_at id with ⟨none, none'⟩ | ⟨n, other, found, found'⟩
  · rw [none, none']
    rfl
  · rw [found, found']
    exact reads n other

theorem length_data : q.data.length = p.data.length := by
  simpa only [List.length_map] using congrArg List.length same.frames

theorem isAbsorbed_eq (id : Nat) : q.isAbsorbed id = p.isAbsorbed id := by
  have parents : q.data[id]?.bind (·.parent) = p.data[id]?.bind (·.parent) := by
    rcases same.cases_at id with ⟨none, none'⟩ | ⟨n, other, found, found'⟩
    · rw [none, none']
    · rw [found, found']
      rfl
  simp only [isAbsorbed, parents, ownerOf, same.owner]

theorem related_eq (below : Below) (child : DataNode) (other : Request) (key : Option Value) :
    q.related below { child with request := other } key = p.related below child key := by
  simp only [related, ownerOf, same.owner]

/-- Objects are put together from the same columns. -/
theorem object_eq (below : Below) (row : Row) (id : Nat) :
    q.object below row id = p.object below row id := by
  rw [object_eq_attach, object_eq_attach]
  refine same.bind_dataNode _ _ (fun n other => ?_) id
  have attached : q.attach below row id { n with request := other } = p.attach below row id n := by
    funext fields c
    refine same.bind_dataNode _ _ (fun child other => ?_) c.2
    simp only [same.isAbsorbed_eq, same.length_data, same.related_eq]
    -- a child that does not come after its parent has no object, which ends the recursion
    by_cases after : id < c.2 ∧ c.2 < p.data.length
    · rw [if_pos after, if_pos after, object_eq below row c.2]
      rfl
    · rw [if_neg after, if_neg after]
      rfl
  simp only [attached]
  rfl
termination_by p.data.length - id
decreasing_by omega

theorem groupsOf_eq (rows : List (List Row)) (queries : List QueryNode) :
    q.groupsOf rows queries = p.groupsOf rows queries := by
  induction queries with
  | nil => rfl
  | cons query rest ih =>
      rw [groupsOf, groupsOf, ih]
      cases p.groupsOf rows rest with
      | error error => rfl
      | ok below =>
          refine same.bind_dataNode _ _ (fun root other => ?_) query.root
          simp only [groups, same.object_eq]
          rfl

end Reading

theorem pruneFields_frame (fields : List (String × Tree)) (n : DataNode) (other : Request) :
    q.pruneFields { n with request := other } fields = q.pruneFields n fields := by
  induction fields with
  | nil => rfl
  | cons field rest ih => simp only [pruneFields, ih]

mutual

theorem prune_eq (same : p.SameFrames q) : ∀ (tree : Tree) (id : Nat), q.prune id tree = p.prune id tree
  | .list items, id => by rw [prune, prune, pruneItems_eq same items id]
  | .object fields, id => by
      rw [prune, prune]
      rcases same.cases_at id with ⟨none, none'⟩ | ⟨n, other, found, found'⟩
      · rw [none, none']
      · simp only [found, found', pruneFields_frame, pruneFields_eq same fields n]
  | .scalar value, id => rfl
  | .absent, id => rfl

theorem pruneItems_eq (same : p.SameFrames q) : ∀ (items : List Tree) (id : Nat),
    q.pruneItems id items = p.pruneItems id items
  | [], id => rfl
  | item :: rest, id => by
      rw [pruneItems, pruneItems, prune_eq same item id,
        pruneItems_eq same rest id]

theorem pruneFields_eq (same : p.SameFrames q) : ∀ (fields : List (String × Tree)) (n : DataNode),
    q.pruneFields n fields = p.pruneFields n fields
  | [], n => rfl
  | (name, value) :: rest, n => by
      rw [pruneFields, pruneFields, pruneFields_eq same rest n]
      cases n.children.lookup name with
      | none => rfl
      | some child => simp only [prune_eq same value child]

end

section Running

variable (same : p.SameFrames q)
include same

/-- Rows are folded to the same tree. -/
theorem fold_eq (rows : List (List Row)) : q.fold rows = p.fold rows := by
  rw [fold, fold, same.queries, same.groupsOf_eq]
  split
  · rfl
  · cases p.groupsOf rows (p.queries.drop 1) with
    | error error => rfl
    | ok below =>
        refine same.bind_dataNode _ _ (fun root other => ?_) 0
        simp only [same.object_eq, same.prune_eq]

/-- Statements are linked to their parents' rows by the same column. -/
theorem parentLinkLabel_eq (k : Nat) : parentLinkLabel q k = parentLinkLabel p k := by
  simp only [parentLinkLabel, queryRoot, query, same.queries]
  cases p.queries[k]? with
  | none => rfl
  | some query =>
      refine same.bind_dataNode _ _ (fun root other => ?_) query.root
      cases root.parent with
      | none => rfl
      | some parent =>
          cases root.link with
          | none => rfl
          | some link => exact same.bind_dataNode _ _ (fun _ _ => rfl) parent

theorem bound_eq (rows : List (List Row)) (query : QueryNode) (memo : Sql.Memo) :
    bound q rows query memo = bound p rows query memo := by
  simp only [bound, same.parentLinkLabel_eq]

theorem isSingle_eq (query : QueryNode) : isSingle q query = isSingle p query := by
  rw [isSingle, isSingle, List.head?_eq_getElem?, List.head?_eq_getElem?]
  rcases same.cases_at 0 with ⟨none, none'⟩ | ⟨n, other, found, found'⟩
  · rw [none, none']
  · rw [found, found']
    rfl

theorem levels_eq : q.levels = p.levels := by
  rw [levels, levels, same.queries]

end Running

end SameFrames

end Plan

namespace Sql

variable {p q : Plan} {shape other : Shape}

/-- The parents that records are paged for differ at most in their requests, or there are none. -/
def SameLateral (lateral other : Option LateralParent) : Prop :=
  (lateral = none ∧ other = none) ∨ ∃ parent request, lateral = some parent ∧
    other = some { parent with node := { parent.node with request := request } }

/-- The join of an absorbed node before its own filter. -/
def Clause.unfiltered (s : Shape) (node : DataNode) : Result Pieces :=
  match node.parent, node.link with
  | some parent, some link => do
    let parent ← s.plan.dataNode parent
    let own ← fieldColumn node.format node.label link.field
    let parentColumn ← parent.selection.requireColumn link.parentField
    return [.words " LEFT JOIN ", .name node.format.table, .words " AS ", .name node.label,
      .words " ON "] ++ own.pieces ++ .words " = " :: parentColumn.pieces
  | _, _ => fail (.absorbedWithoutParent node.path)

theorem Clause.join_eq (s : Shape) (node : DataNode) (start : Nat) :
    Clause.join s node start = (do
      let joined ← Clause.unfiltered s node
      match node.request.query.filter with
      | none => return .ofPieces joined
      | some filter =>
        let condition ← predicate node.format node.label start filter
        return ⟨joined ++ .words " AND (" :: condition.pieces ++ [.words ")"], condition.params⟩) := by
  unfold Clause.join Clause.unfiltered
  cases node.parent with
  | none => rfl
  | some parent =>
      cases node.link with
      | none => rfl
      | some link =>
          cases node.request.query.filter with
          | none => simp only [bind_assoc, pure_bind]
          | some filter => simp only [bind_assoc, pure_bind]

/-- Two shapes of one statement over plans that differ at most in the requests of their nodes. -/
structure Shape.SameFrames (shape other : Shape) : Prop where
  plan : shape.plan.SameFrames other.plan
  query : other.query = shape.query
  root : ∃ request, other.root = { shape.root with request := request }
  lateral : SameLateral shape.lateral other.lateral

namespace Shape.SameFrames

variable (same : shape.SameFrames other)
include same

theorem isLateral_eq : other.isLateral = shape.isLateral := by
  rcases same.lateral with ⟨none, none'⟩ | ⟨parent, request, found, found'⟩
  · rw [isLateral, isLateral, none, none']
  · rw [isLateral, isLateral, found, found']
    rfl

theorem junction_eq : other.junction? = shape.junction? := by
  obtain ⟨request, root⟩ := same.root
  rw [junction?, junction?, root]

theorem ownLinkColumn_eq : other.ownLinkColumn = shape.ownLinkColumn := by
  obtain ⟨request, root⟩ := same.root
  simp only [ownLinkColumn, root]
  rfl

theorem linkedColumn_eq : other.linkedColumn = shape.linkedColumn := by
  obtain ⟨request, root⟩ := same.root
  simp only [linkedColumn, same.junction_eq, same.ownLinkColumn_eq]
  rcases same.lateral with ⟨none, none'⟩ | ⟨parent, request, found, found'⟩
  · simp only [none, none', root]
    rfl
  · simp only [found, found']

theorem linkedType_eq : other.linkedType = shape.linkedType := by
  obtain ⟨request, root⟩ := same.root
  have parents : ∀ field, (shape.root.parent.bind (other.plan.data[·]?)).bind (·.format.type? field) =
      (shape.root.parent.bind (shape.plan.data[·]?)).bind (·.format.type? field) := by
    intro field
    cases shape.root.parent with
    | none => rfl
    | some parent =>
        rcases same.plan.cases_at parent with ⟨none, none'⟩ | ⟨n, _, found, found'⟩
        · simp only [Option.bind_some, none, none']
        · simp only [Option.bind_some, found, found']
  simp only [linkedType, root, parents]

theorem source_eq : other.source = shape.source := by
  obtain ⟨request, root⟩ := same.root
  simp only [source, same.junction_eq, same.ownLinkColumn_eq, root]
  rfl

theorem projection_eq : other.projection = shape.projection := by
  obtain ⟨request, root⟩ := same.root
  have fields : (fun id => other.plan.dataNode id >>= nodeProjection) =
      (fun id => shape.plan.dataNode id >>= nodeProjection) := by
    funext id
    exact same.plan.bind_dataNode _ _ (fun _ _ => rfl) id
  have junction : other.junctionProjection = shape.junctionProjection := by
    simp only [junctionProjection, same.junction_eq, same.isLateral_eq, root]
    rfl
  rw [projection, projection, same.query, junction, fields]

theorem head_eq : Clause.head other = Clause.head shape := by
  obtain ⟨request, root⟩ := same.root
  have columns : Clause.lateralColumns other = Clause.lateralColumns shape := by
    simp only [Clause.lateralColumns, same.junction_eq, same.ownLinkColumn_eq, root]
    rfl
  rw [Clause.head, Clause.head, same.projection_eq, same.source_eq, columns]
  rcases same.lateral with ⟨none, none'⟩ | ⟨parent, request, found, found'⟩
  · rw [none, none']
  · rw [found, found']

theorem condition_eq (lead : String) (filter : Option Filter) (start : Nat) :
    Clause.condition other lead filter start = Clause.condition shape lead filter start := by
  obtain ⟨request, root⟩ := same.root
  cases filter with
  | none => rfl
  | some filter =>
      simp only [Clause.condition, root]
      rfl

theorem linkedKey_eq (lead : String) (batch : List Value) (start : Nat) :
    Clause.linkedKey other lead batch start = Clause.linkedKey shape lead batch start := by
  obtain ⟨request, root⟩ := same.root
  simp only [Clause.linkedKey, same.linkedColumn_eq, same.linkedType_eq, root]

theorem unfiltered_eq (n : DataNode) (request : Request) :
    Clause.unfiltered other { n with request := request } = Clause.unfiltered shape n := by
  unfold Clause.unfiltered
  cases n.parent with
  | none => rfl
  | some parent =>
      cases n.link with
      | none => rfl
      | some link => exact same.plan.bind_dataNode _ _ (fun _ _ => rfl) parent

/-- With the same joins, all segments are rendered alike for one query. -/
theorem render_eq (joins : ∀ start, Clause.joins other start = Clause.joins shape start)
    (query : Query) (batch : List Value) (segment : Segment) (start : Nat) :
    segment.render other query batch start = segment.render shape query batch start := by
  obtain ⟨request, root⟩ := same.root
  cases segment with
  | head => exact same.head_eq
  | joins => exact joins start
  | filter => simp only [Segment.render, same.isLateral_eq, same.condition_eq]
  | linkedKey => simp only [Segment.render, same.isLateral_eq, same.linkedKey_eq]
  | orderBy =>
      simp only [Segment.render, Clause.orderBy, root]
      rfl
  | pagination => rfl
  | lateralClose =>
      simp only [Segment.render, Clause.lateralClose, root]
      rfl

end Shape.SameFrames

section Shaping

variable (same : p.SameFrames q)
include same

theorem Shape.lateralParent_like (n : DataNode) (request : Request)
    (paged : n.parent.isSome = true → request.query.isPaginated = n.request.query.isPaginated) :
    Like SameLateral (lateralParent p n) (lateralParent q { n with request := request }) := by
  unfold lateralParent
  cases parent : n.parent with
  | none => exact .ok (.inl ⟨rfl, rfl⟩)
  | some above =>
      cases n.link with
      | none => exact .ok (.inl ⟨rfl, rfl⟩)
      | some link =>
          simp only [paged (by rw [parent]; rfl)]
          split
          · refine (same.dataNode_like above).bind ?_
            rintro node _ ⟨_, _, other, rfl⟩
            exact Like.bind_same fun column => .ok (.inr ⟨_, other, rfl, rfl⟩)
          · exact .ok (.inl ⟨rfl, rfl⟩)

/-- A statement of both plans has the same shape, if its records are paged in both or in neither. -/
theorem Shape.ofPlan_like (paged : ∀ (i : Nat) (n : DataNode) (request : Request), p.data[i]? = some n →
      q.data[i]? = some { n with request := request } → n.parent.isSome = true →
      request.query.isPaginated = n.request.query.isPaginated) (k : Nat) :
    Like (fun shape other => shape.plan = p ∧ other.plan = q ∧ shape.SameFrames other)
      (ofPlan p k) (ofPlan q k) := by
  unfold ofPlan
  rw [show q.query k = p.query k by rw [Plan.query, Plan.query, same.queries]]
  refine Like.bind_same fun query => (same.dataNode_like query.root).bind ?_
  rintro root _ ⟨found, found', request, rfl⟩
  refine (lateralParent_like same root request (paged _ _ _ found found')).bind fun _ _ lateral => ?_
  exact .ok ⟨rfl, rfl, same, rfl, ⟨request, rfl⟩, lateral⟩

end Shaping

end Sql
end NestedQuery
