/- A plan whose root is given another query: it is the plan of the request with that query, and but for
the root's own clauses its statements, their links and the folding stay as they are. -/
import NestedQuery.Proofs.Frames

namespace NestedQuery

def Request.withQuery (r : Request) (query : Query) : Request := { r with query := query }

def DataNode.withQuery (n : DataNode) (query : Query) : DataNode :=
  { n with request := n.request.withQuery query }

namespace Plan

def withRootQuery (p : Plan) (query : Query) : Plan :=
  { p with data := p.data.modify 0 (·.withQuery query) }

variable {s : Schema} {p q : Plan} {plural : Bool} {request : Request}

/-- With another query a request is planned alike, as far as the query fits. -/
theorem build_withQuery {catalog : Catalog} {format : String}
    (built : build catalog format plural request = .ok p) (query : Query) :
    ∃ root, p.Top plural request root ∧ build catalog format plural (request.withQuery query) =
      (query.check root.format root.plural root.path).map fun _ => p.withRootQuery query := by
  obtain ⟨top, known, grown, grouped⟩ := build_cases built
  obtain ⟨root, others, listed, position, sameRequest⟩ := arena_head grown
  have first : p.data[0]? = some root := by
    rw [listed]
    rfl
  refine ⟨root, ⟨first, congrArg Position.id position, congrArg Position.parent position,
    congrArg Position.link position, congrArg Position.plural position, sameRequest⟩, ?_⟩
  have format_eq : root.format = top := congrArg Position.format position
  have plural_eq : root.plural = plural := congrArg Position.plural position
  have path_eq : root.path = format := congrArg Position.path position
  obtain ⟨fields, relations, old⟩ := request
  obtain ⟨children, others', returned, _, grownBelow, fieldsKnown, data⟩ := arena_cases grown
  simp only [build, rootArena, known, Result.ok_bind, Request.withQuery, arena, grownBelow,
    fieldsKnown, format_eq, plural_eq, path_eq]
  cases query.check top plural format with
  | error error => rfl
  | ok _ =>
      refine congrArg Except.ok ?_
      rw [grouped, data]
      rfl

/-- Two plans that differ at most in the request of their root. -/
structure SameBelow (p q : Plan) : Prop where
  frames : q.data.map (·.frame) = p.data.map (·.frame)
  below : ∀ i ≠ 0, q.data[i]? = p.data[i]?
  queries : q.queries = p.queries
  owner : q.owner = p.owner

theorem sameBelow_withRootQuery (p : Plan) (query : Query) : p.SameBelow (p.withRootQuery query) := by
  refine ⟨?_, ?_, rfl, rfl⟩
  · cases listed : p.data with
    | nil => simp [withRootQuery, listed]
    | cons root rest => simp [withRootQuery, listed, DataNode.frame, DataNode.withQuery]
  · intro i below
    rw [withRootQuery, List.getElem?_modify]
    cases p.data[i]? <;> simp [Ne.symm below]

namespace SameBelow

variable (same : p.SameBelow q)
include same

theorem symm : q.SameBelow p :=
  ⟨same.frames.symm, fun i below => (same.below i below).symm, same.queries.symm, same.owner.symm⟩

theorem sameFrames : p.SameFrames q := ⟨same.frames, same.queries, same.owner⟩

end SameBelow

end Plan

namespace Sql

variable {s : Schema} {p q : Plan} {plural : Bool} {request : Request} {k : Nat} {shape other : Shape}

/-- Nodes below the root are joined alike. -/
theorem Shape.SameFrames.joinsOf_eq (alike : shape.SameFrames other)
    (same : shape.plan.SameBelow other.plan) {ids : List Nat} (below : 0 ∉ ids) (start : Nat) :
    Clause.joinsOf other start ids = Clause.joinsOf shape start ids := by
  induction ids generalizing start with
  | nil => rfl
  | cons id rest ih =>
      obtain ⟨here, later⟩ := List.ne_and_not_mem_of_not_mem_cons below
      have node : other.plan.dataNode id = shape.plan.dataNode id := by
        rw [Plan.dataNode, Plan.dataNode, same.below id (Ne.symm here)]
      have joins : ∀ n start, Clause.join other n start = Clause.join shape n start := by
        intro n start
        have joined : Clause.unfiltered other n = Clause.unfiltered shape n := alike.unfiltered_eq n n.request
        rw [Clause.join_eq, Clause.join_eq, joined]
      simp only [Clause.joinsOf, node, joins, ih later]

/-- The shape of a statement is found again, since no statement below the root depends on its query. -/
theorem Shape.ofPlan_sameBelow (valid : p.Over s plural request) (same : p.SameBelow q)
    (shaped : Shape.ofPlan p k = .ok shape) : ∃ other, Shape.ofPlan q k = .ok other ∧
      shape.plan = p ∧ other.plan = q ∧ shape.SameFrames other := by
  have paged : ∀ (i : Nat) (n : DataNode) (request : Request), p.data[i]? = some n →
      q.data[i]? = some { n with request := request } → n.parent.isSome = true →
      request.query.isPaginated = n.request.query.isPaginated := by
    intro i n request found found' hung
    obtain ⟨top, isTop⟩ := valid.top
    have below : i ≠ 0 := by
      rintro rfl
      cases isTop.found.symm.trans found
      rw [isTop.parent_eq] at hung
      cases hung
    rw [same.below i below, found] at found'
    have own : n.request = request := congrArg DataNode.request (Option.some.inj found')
    rw [own]
  have like := Shape.ofPlan_like same.sameFrames paged k
  rw [shaped] at like
  generalize ofPlan q k = outcome at like
  cases like with
  | ok related => exact ⟨_, rfl, related⟩

theorem Shape.ofPlan_joined (valid : p.Over s plural request) (sound : s.Sound)
    (shaped : Shape.ofPlan p k = .ok shape) : 0 ∉ shape.query.absorbed := by
  obtain ⟨opened, query, shaped⟩ := Result.bind_eq_ok.mp shaped
  obtain ⟨root, _, shaped⟩ := Result.bind_eq_ok.mp shaped
  obtain ⟨lateral, _, shaped⟩ := Result.bind_eq_ok.mp shaped
  cases shaped
  intro listed
  obtain ⟨n, m, _, _, zero, _, child, _⟩ :=
    valid.absorbed sound (Plan.query_eq_ok.mp query) listed
  exact absurd child.after (zero ▸ Nat.not_lt_zero _)

/-- A statement is rendered alike for the same query. -/
theorem Statement.anew_sameBelow (valid : p.Over s plural request) (sound : s.Sound)
    (same : p.SameBelow q) (shaped : Shape.ofPlan p k = .ok shape) (query : Query)
    (batch : List Value) : Statement.anew q k query batch = Statement.anew p k query batch := by
  have joined := Shape.ofPlan_joined valid sound shaped
  obtain ⟨other, shaped', rfl, rfl, alike⟩ := Shape.ofPlan_sameBelow valid same shaped
  obtain ⟨request, root⟩ := alike.root
  have joins : ∀ start, Clause.joins other start = Clause.joins shape start := by
    intro start
    rw [Clause.joins, Clause.joins, alike.query, alike.joinsOf_eq same joined]
  have render : Segment.render other query batch = Segment.render shape query batch := by
    funext segment start
    exact alike.render_eq joins query batch segment start
  have isRoot : other.root.isRoot = shape.root.isRoot := by
    rw [root]
    rfl
  rw [Statement.anew, Statement.anew, shaped, shaped', Result.ok_bind, Result.ok_bind, render,
    alike.isLateral_eq, isRoot]

end Sql
end NestedQuery
