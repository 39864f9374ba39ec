/- Equal requests are planned alike: they have one shape and pass the same checks, so that one of them
has a plan if the other has. -/
import NestedQuery.Proofs.Rebind
import NestedQuery.Proofs.ValueEquality

namespace NestedQuery

namespace Json

def Number.Finite : Number → Prop
  | .whole _ => True
  | .real x => x.isFinite = true

mutual

/-- The numbers of a document have a text of their own, as those of every written document have. -/
def Finite : Json → Prop
  | .null => True
  | .bool _ => True
  | .number n => n.Finite
  | .text _ => True
  | .list items => FiniteItems items
  | .object members => FiniteMembers members

def FiniteItems : List Json → Prop
  | [] => True
  | item :: rest => Finite item ∧ FiniteItems rest

def FiniteMembers : List (String × Json) → Prop
  | [] => True
  | (_, value) :: rest => Finite value ∧ FiniteMembers rest

end

theorem Number.equal_self {n : Number} (finite : n.Finite) : n.equal n = true := by
  cases n with
  | whole i => exact beq_self_eq_true i
  | real x => simp [equal, Binary64.equal, Binary64.isNaN_of_isFinite finite]

mutual

theorem equal_self : ∀ (j : Json), j.Finite → j.equal j = true
  | .null, _ => rfl
  | .bool b, _ => beq_self_eq_true b
  | .number n, finite => by
      rw [equal]
      exact Number.equal_self finite
  | .text s, _ => beq_self_eq_true s
  | .list items, finite => by
      rw [equal]
      exact equalItems_self items finite
  | .object members, finite => by
      rw [equal]
      exact equalMembers_self members finite

theorem equalItems_self : ∀ (items : List Json), FiniteItems items → equalItems items items = true
  | [], _ => rfl
  | item :: rest, finite => by
      rw [equalItems, equal_self item finite.1, equalItems_self rest finite.2]
      rfl

theorem equalMembers_self : ∀ (members : List (String × Json)), FiniteMembers members →
    equalMembers members members = true
  | [], _ => rfl
  | (name, value) :: rest, finite => by
      rw [equalMembers, beq_self_eq_true, equal_self value finite.1, equalMembers_self rest finite.2]
      rfl

end

end Json

namespace Value

def Finite : Value → Prop
  | .json j => j.Finite
  | _ => True

theorem equal_self {v : Value} (finite : v.Finite) : (v == v) = true := by
  refine same_iff.mpr ?_
  cases v with
  | null => exact .null
  | int i => exact .int i
  | float x =>
      refine .float ?_
      cases nan : x.isNaN with
      | true => simp
      | false => simp [Binary64.equal, nan]
  | text s => exact .text s
  | bool b => exact .bool b
  | json j => exact .json (Json.equal_self j finite)

end Value

namespace Filter

mutual

/-- All values that a filter compares with are finite. -/
def Finite : Filter → Prop
  | .compare _ _ value => value.Finite
  | .isIn _ values => ∀ value ∈ values, value.Finite
  | .isNull _ => True
  | .isNotNull _ => True
  | .like _ _ => True
  | .all filters => FiniteAll filters
  | .any filters => FiniteAll filters
  | .not filter => Finite filter

def FiniteAll : List Filter → Prop
  | [] => True
  | filter :: rest => Finite filter ∧ FiniteAll rest

end

theorem values_equal_self {values : List Value} (finite : ∀ value ∈ values, value.Finite) :
    (values == values) = true := by
  induction values with
  | nil => rfl
  | cons value rest ih =>
      obtain ⟨first, later⟩ := List.forall_mem_cons.mp finite
      rw [List.cons_beq_cons, Value.equal_self first, ih later]
      rfl

mutual

theorem equal_self : ∀ (f : Filter), f.Finite → f.equal f = true
  | .compare c field value, finite => by
      rw [Finite] at finite
      rw [equal, beq_self_eq_true, beq_self_eq_true, Value.equal_self finite]
      rfl
  | .isIn field values, finite => by
      rw [Finite] at finite
      rw [equal, beq_self_eq_true, values_equal_self finite]
      rfl
  | .isNull field, _ => by rw [equal, beq_self_eq_true]
  | .isNotNull field, _ => by rw [equal, beq_self_eq_true]
  | .like field pattern, _ => by
      rw [equal, beq_self_eq_true, beq_self_eq_true]
      rfl
  | .all filters, finite => by
      rw [equal]
      exact equalAll_self filters finite
  | .any filters, finite => by
      rw [equal]
      exact equalAll_self filters finite
  | .not filter, finite => by
      rw [equal]
      exact equal_self filter finite

theorem equalAll_self : ∀ (filters : List Filter), FiniteAll filters →
    equalAll filters filters = true
  | [], _ => rfl
  | filter :: rest, finite => by
      rw [equalAll, equal_self filter finite.1, equalAll_self rest finite.2]
      rfl

end

mutual

/-- Equal filters mention the same fields. -/
theorem fields_of_equal : ∀ (f g : Filter), f.equal g = true → f.fields = g.fields
  | .compare c m v, g, same => by
      cases g with
      | compare d n w =>
          simp only [equal, Bool.and_eq_true, beq_iff_eq] at same
          rw [fields, fields, same.1.2]
      | _ => cases same
  | .isIn m vs, g, same => by
      cases g with
      | isIn n ws =>
          simp only [equal, Bool.and_eq_true, beq_iff_eq] at same
          rw [fields, fields, same.1]
      | _ => cases same
  | .isNull m, g, same => by
      cases g with
      | isNull n =>
          simp only [equal, beq_iff_eq] at same
          rw [same]
      | _ => cases same
  | .isNotNull m, g, same => by
      cases g with
      | isNotNull n =>
          simp only [equal, beq_iff_eq] at same
          rw [same]
      | _ => cases same
  | .like m a, g, same => by
      cases g with
      | like n b =>
          simp only [equal, Bool.and_eq_true, beq_iff_eq] at same
          rw [fields, fields, same.1]
      | _ => cases same
  | .all fs, g, same => by
      cases g with
      | all gs =>
          rw [fields, fields]
          exact fieldsOfAll_of_equal fs gs (by simpa only [equal] using same)
      | _ => cases same
  | .any fs, g, same => by
      cases g with
      | any gs =>
          rw [fields, fields]
          exact fieldsOfAll_of_equal fs gs (by simpa only [equal] using same)
      | _ => cases same
  | .not f, g, same => by
      cases g with
      | not g =>
          rw [fields, fields]
          exact fields_of_equal f g (by simpa only [equal] using same)
      | _ => cases same

theorem fieldsOfAll_of_equal : ∀ (fs gs : List Filter), equalAll fs gs = true →
    fieldsOfAll fs = fieldsOfAll gs
  | [], [], _ => rfl
  | f :: fs, g :: gs, same => by
      simp only [equalAll, Bool.and_eq_true] at same
      rw [fieldsOfAll, fieldsOfAll, fields_of_equal f g same.1, fieldsOfAll_of_equal fs gs same.2]

end

end Filter

namespace Query

def Finite (q : Query) : Prop := ∀ filter, q.filter = some filter → filter.Finite

theorem equal_self {q : Query} (finite : q.Finite) : (q == q) = true := by
  have filters : (q.filter == q.filter) = true := by
    cases given : q.filter with
    | none => rfl
    | some filter => exact Filter.equal_self filter (finite filter given)
  change equal q q = true
  simp only [equal, filters, beq_self_eq_true, Bool.and_self]

/-- Equal queries are refused for the same reason, or not at all. -/
theorem check_of_equal {q p : Query} (same : (q == p) = true) : q.check = p.check := by
  obtain ⟨f, sort, page, size⟩ := q
  obtain ⟨g, sort', page', size'⟩ := p
  change equal _ _ = true at same
  simp only [equal, Bool.and_eq_true, beq_iff_eq] at same
  obtain ⟨⟨⟨filters, rfl⟩, rfl⟩, rfl⟩ := same
  cases f with
  | none =>
      cases g with
      | none => rfl
      | some g => cases filters
  | some f =>
      cases g with
      | none => cases filters
      | some g =>
          have fields := Filter.fields_of_equal f g filters
          funext format plural path
          simp only [check, checkPage, Filter.check, fields]

theorem isPaginated_of_equal {q p : Query} (same : (q == p) = true) :
    q.isPaginated = p.isPaginated := by
  change equal _ _ = true at same
  simp only [equal, Bool.and_eq_true, beq_iff_eq] at same
  rw [isPaginated, isPaginated, same.2]

end Query

namespace Request

mutual

/-- All values that the filters of a request compare with are finite. -/
def Finite : Request → Prop
  | ⟨_, relations, query⟩ => query.Finite ∧ FiniteBelow relations

def FiniteBelow : List (String × Request) → Prop
  | [] => True
  | (_, request) :: rest => Finite request ∧ FiniteBelow rest

end

mutual

theorem equal_self : ∀ (r : Request), r.Finite → r.equal r = true
  | ⟨fields, relations, query⟩, finite => by
      rw [equal, beq_self_eq_true, equalRelations_self relations finite.2,
        Query.equal_self finite.1]
      rfl

theorem equalRelations_self : ∀ (rs : List (String × Request)), FiniteBelow rs →
    equalRelations rs rs = true
  | [], _ => rfl
  | (name, request) :: rest, finite => by
      rw [equalRelations, beq_self_eq_true, equal_self request finite.1,
        equalRelations_self rest finite.2]
      rfl

end

theorem equal_cases {f g : Option (List String)} {rs ss : List (String × Request)} {q p : Query}
    (same : equal ⟨f, rs, q⟩ ⟨g, ss, p⟩ = true) :
    f = g ∧ equalRelations rs ss = true ∧ (q == p) = true := by
  simp only [equal, Bool.and_eq_true, beq_iff_eq] at same
  exact ⟨same.1.1, same.1.2, same.2⟩

theorem equalRelations_cases {m n : String} {r s : Request} {rs ss : List (String × Request)}
    (same : equalRelations ((m, r) :: rs) ((n, s) :: ss) = true) :
    m = n ∧ r.equal s = true ∧ equalRelations rs ss = true := by
  simp only [equalRelations, Bool.and_eq_true, beq_iff_eq] at same
  exact ⟨same.1.1, same.1.2, same.2⟩

mutual

theorem sameShape_of_equal : ∀ (r s : Request), r.equal s = true → r.SameShape s
  | ⟨f, rs, q⟩, ⟨g, ss, p⟩, same => by
      obtain ⟨fields, relations, queries⟩ := equal_cases same
      exact ⟨fields, Query.isPaginated_of_equal queries, sameShapes_of_equal rs ss relations⟩

theorem sameShapes_of_equal : ∀ (rs ss : List (String × Request)), equalRelations rs ss = true →
    SameShapes rs ss
  | [], [], _ => trivial
  | (m, r) :: rs, (n, s) :: ss, same => by
      obtain ⟨names, first, rest⟩ := equalRelations_cases same
      exact ⟨names, sameShape_of_equal r s first, sameShapes_of_equal rs ss rest⟩

end

mutual

/-- The requests below equal requests are equal, one by one. -/
theorem preorder_of_equal : ∀ (r s : Request), r.equal s = true →
    List.Forall₂ (fun a b => (a == b) = true) r.preorder s.preorder
  | ⟨f, rs, q⟩, ⟨g, ss, p⟩, same => by
      rw [preorder, preorder]
      obtain ⟨_, relations, _⟩ := equal_cases same
      exact .cons same (preorderOfRelations_of_equal rs ss relations)

theorem preorderOfRelations_of_equal : ∀ (rs ss : List (String × Request)),
    equalRelations rs ss = true → List.Forall₂ (fun a b => (a == b) = true)
      (preorderOfRelations rs) (preorderOfRelations ss)
  | [], [], _ => .nil
  | (m, r) :: rs, (n, s) :: ss, same => by
      obtain ⟨_, first, rest⟩ := equalRelations_cases same
      rw [preorderOfRelations, preorderOfRelations]
      exact List.rel_append (preorder_of_equal r s first) (preorderOfRelations_of_equal rs ss rest)

end

end Request

mutual

/-- Where a request can be planned, an equal one can. -/
theorem arena_of_equal {catalog : Catalog} {p : Position} :
    ∀ (r s : Request) {nodes : List DataNode}, r.equal s = true →
      arena catalog p r = .ok nodes → ∃ others, arena catalog p s = .ok others
  | ⟨f, rs, q⟩, ⟨g, ss, q'⟩, nodes, same, grown => by
      obtain ⟨rfl, relations, queries⟩ := Request.equal_cases same
      obtain ⟨children, below, returned, checked, grownBelow, known, _⟩ := arena_cases grown
      obtain ⟨others, regrown⟩ := arenaOfRelations_of_equal rs ss relations grownBelow
      rw [Query.check_of_equal queries] at checked
      refine ⟨p.node ⟨f, ss, q'⟩ returned children :: others, ?_⟩
      simp only [arena, checked, regrown, known, Result.ok_bind]
      rfl

theorem arenaOfRelations_of_equal {catalog : Catalog} {p : Position} {next : Nat} :
    ∀ (rs ss : List (String × Request)) {children : List Child} {nodes : List DataNode},
      Request.equalRelations rs ss = true →
      arenaOfRelations catalog p next rs = .ok (children, nodes) →
      ∃ others, arenaOfRelations catalog p next ss = .ok (children, others)
  | [], [], children, nodes, _, grown => ⟨nodes, grown⟩
  | (m, r) :: rs, (n, s) :: ss, children, nodes, same, grown => by
      obtain ⟨rfl, sameFirst, sameRest⟩ := Request.equalRelations_cases same
      obtain ⟨resolved, first, later, others, found, grownFirst, grownRest, rfl, _⟩ :=
        arenaOfRelations_cases grown
      have resolves : p.resolve catalog m = .ok resolved := Position.resolve_eq_ok.mpr found
      obtain ⟨newFirst, regrownFirst⟩ := arena_of_equal r s sameFirst grownFirst
      obtain ⟨newOthers, regrownRest⟩ := arenaOfRelations_of_equal rs ss sameRest grownRest
      have sameLength : newFirst.length = first.length := by
        have frames :=
          arena_frames r s (Request.sameShape_of_equal r s sameFirst) grownFirst regrownFirst
        simpa only [List.length_map] using congrArg List.length frames
      refine ⟨newFirst ++ newOthers, ?_⟩
      have position : arena catalog ⟨next, resolved.foreignFormat, resolved.plural, some p.id,
          some (.ofRelation resolved), s!"{p.path}.{m}"⟩ s = .ok newFirst := regrownFirst
      simp only [arenaOfRelations, resolves, Result.ok_bind, position, sameLength, regrownRest]
      rfl

end

namespace Plan

/-- Two plans agree in all but their requests, and these are equal node by node. -/
structure Alike (p q : Plan) : Prop where
  frames : p.data.map (·.frame) = q.data.map (·.frame)
  requests : List.Forall₂ (fun n m => (n.request == m.request) = true) p.data q.data
  queries : p.queries = q.queries
  owner : p.owner = q.owner

/-- The plan of a request stands for that of every equal request, which can be planned as well. -/
theorem build_of_equal {catalog : Catalog} {format : String} {plural : Bool} {r s : Request}
    {p : Plan} (built : build catalog format plural r = .ok p) (same : (r == s) = true) :
    ∃ q, build catalog format plural s = .ok q ∧ p.Alike q := by
  obtain ⟨data, grown, rfl⟩ := Result.map_eq_ok.mp built
  obtain ⟨root, known, grown⟩ := Result.bind_eq_ok.mp grown
  obtain ⟨others, regrown⟩ := arena_of_equal r s same grown
  have frames := arena_frames r s (Request.sameShape_of_equal r s same) grown regrown
  have outlines := outlines_of_frames frames
  refine ⟨ofNodes others, ?_, frames.symm, ?_, ?_, ?_⟩
  · simp only [build, rootArena, known, Result.ok_bind, regrown]
    rfl
  · have requests := Request.preorder_of_equal r s same
    rw [← arena_requests r grown, ← arena_requests s regrown, List.forall₂_map_left_iff,
      List.forall₂_map_right_iff] at requests
    exact requests
  · simp only [ofNodes, outlines]
  · simp only [ofNodes, outlines]

end Plan
end NestedQuery
