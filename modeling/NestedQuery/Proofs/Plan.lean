/- What holds of every plan over a schema that came about by accepted declarations: how parent and
child fit together, and which statement owns a node. -/
import NestedQuery.Proofs.Arena
import NestedQuery.Proofs.Partition

namespace NestedQuery.Plan

variable {s : Schema} {p : Plan}

theorem dataNode_eq_ok {id : Nat} {n : DataNode} (found : p.data[id]? = some n) :
    p.dataNode id = .ok n := by
  simp only [dataNode, found]

theorem query_eq_ok {k : Nat} {q : QueryNode} : p.query k = .ok q ↔ p.queries[k]? = some q := by
  unfold query
  cases p.queries[k]? with
  | none => exact ⟨nofun, nofun⟩
  | some other => exact ⟨fun h => congrArg some (Except.ok.inj h), fun h => by cases h; rfl⟩

theorem queryRoot_eq_ok {k : Nat} {q : QueryNode} {m : DataNode} (query : p.queries[k]? = some q)
    (found : p.data[q.root]? = some m) : p.queryRoot k = .ok m := by
  rw [queryRoot, query_eq_ok.mpr query, Result.ok_bind, dataNode_eq_ok found]

structure Top (p : Plan) (plural : Bool) (request : Request) (root : DataNode) : Prop where
  found : p.data[0]? = some root
  id_eq : root.id = 0
  parent_eq : root.parent = none
  link_eq : root.link = none
  plural_eq : root.plural = plural
  request_eq : root.request = request

/-- A plan over a schema, for one or many records. -/
structure Over (s : Schema) (p : Plan) (plural : Bool) (request : Request) : Prop where
  top : ∃ root, p.Top plural request root
  ids : ∀ {i : Nat} {n : DataNode}, p.data[i]? = some n → n.id = i
  planned : ∀ {i : Nat} {n : DataNode}, p.data[i]? = some n → Planned s.catalog p.data n
  registered : ∀ {i : Nat} {n : DataNode}, p.data[i]? = some n → s.Registered n.format
  hung : ∀ {i : Nat} {n : DataNode}, p.data[i]? = some n → i ≠ 0 → Hung s.catalog p.data n
  parts : Partition.Sound (p.data.map outline) ⟨p.queries, p.owner⟩

/-- A node `m` that hangs off a node `n` by a relation. -/
structure Hangs (s : Schema) (p : Plan) (n : DataNode) (name : String) (m : DataNode)
    (link : Link) : Prop where
  listed : (name, m.id) ∈ n.children
  found : p.data[m.id]? = some m
  after : n.id < m.id
  parent_eq : m.parent = some n.id
  requested : (name, m.request) ∈ n.request.relations
  link_eq : m.link = some link
  relation : s.SoundRelation n.format name link.relation
  format_eq : m.format = link.relation.foreignFormat
  plural_eq : m.plural = link.relation.plural
  parentKnown : n.format.hasField link.parentField = true
  known : m.format.hasField link.field = true
  parentField : link.parentField ∈ n.selection.names
  field : link.isManyToMany = false → link.field ∈ m.selection.names

end NestedQuery.Plan

namespace NestedQuery

namespace Planned

variable {catalog : Catalog} {data : List DataNode} {n : DataNode}

theorem own_field (planned : Planned catalog data n) {link : Link} (linked : n.link = some link)
    (direct : link.isManyToMany = false) (known : n.format.hasField link.field = true) :
    link.field ∈ n.selection.names := by
  obtain ⟨returned, links, _, selection⟩ := planned.selection_eq
  rw [selection]
  exact Position.mem_selection_names.mpr ⟨known, .inr (.inr ⟨link, linked, direct, rfl⟩)⟩

end Planned

theorem registered_of_hung {s : Schema} (sound : s.Sound) {data : List DataNode} {root : DataNode}
    (ids : ∀ {i : Nat} {n : DataNode}, data[i]? = some n → n.id = i)
    (first : data[0]? = some root) (known : s.Registered root.format)
    (hung : ∀ {i : Nat} {n : DataNode}, data[i]? = some n → i ≠ 0 → Hung s.catalog data n) :
    ∀ (i : Nat) (n : DataNode), data[i]? = some n → s.Registered n.format := by
  intro i
  induction i using Nat.strongRecOn with
  | ind i ih =>
      intro n found
      by_cases zero : i = 0
      · subst zero
        cases first.symm.trans found
        exact known
      · obtain ⟨parent, name, planned, listed⟩ := hung found zero
        obtain ⟨request, _, link, child, _⟩ := planned.child listed
        obtain ⟨m, foundAgain, position, _⟩ := child.node
        cases ids found
        cases found.symm.trans foundAgain
        have knownParent := ih parent.id child.after parent planned.place
        have format : n.format = link.relation.foreignFormat := congrArg Position.format position
        rw [format]
        exact (sound.resolveRelation knownParent child.resolved).foreign

namespace Plan

section Built

variable {catalog : Catalog} {format : String} {plural : Bool} {request : Request}

/-- The nodes of a plan grow from its root, whatever the catalogue says. -/
theorem build_cases (built : build catalog format plural request = .ok p) :
    ∃ root, catalog.format format = .ok root ∧
      arena catalog ⟨0, root, plural, none, none, format⟩ request = .ok p.data ∧
      p = ofNodes p.data := by
  obtain ⟨data, grown, rfl⟩ := Result.map_eq_ok.mp built
  obtain ⟨root, known, grown⟩ := Result.bind_eq_ok.mp grown
  exact ⟨root, known, grown, rfl⟩

theorem build_ids (built : build catalog format plural request = .ok p) {i : Nat} {n : DataNode}
    (found : p.data[i]? = some n) : n.id = i := by
  obtain ⟨root, _, grown, _⟩ := build_cases built
  exact (arena_id grown found).trans (Nat.zero_add i)

theorem build_hung (built : build catalog format plural request = .ok p) {i : Nat} {n : DataNode}
    (found : p.data[i]? = some n) (below : i ≠ 0) : Hung catalog p.data n := by
  obtain ⟨root, _, grown, _⟩ := build_cases built
  rcases arena_hung request grown (Placed.self p.data) n (List.mem_of_getElem? found) with top | hung
  · exact absurd ((build_ids built found).symm.trans (congrArg Position.id top)) below
  · exact hung

/-- The root comes first, at a position of its own. -/
theorem build_first (built : build catalog format plural request = .ok p) :
    ∃ root, p.Top plural request root ∧ catalog.format format = .ok root.format := by
  obtain ⟨top, known, grown, _⟩ := build_cases built
  obtain ⟨root, others, same, position, sameRequest⟩ := arena_head grown
  have first : p.data[0]? = some root := by rw [same]; rfl
  have own : root.format = top := congrArg Position.format position
  exact ⟨root, ⟨first, congrArg Position.id position, congrArg Position.parent position,
    congrArg Position.link position, congrArg Position.plural position, sameRequest⟩,
    own.symm ▸ known⟩

/-- The statements group the nodes soundly, since parents come first. -/
theorem build_parts (built : build catalog format plural request = .ok p) :
    Partition.Sound (p.data.map outline) ⟨p.queries, p.owner⟩ := by
  obtain ⟨root, top, _⟩ := build_first built
  obtain ⟨_, _, _, grouped⟩ := build_cases built
  have ordered : Outline.Ordered (p.data.map outline) := by
    intro i node parent found above
    rw [List.getElem?_map] at found
    obtain ⟨n, place, rfl⟩ := Option.map_eq_some_iff.mp found
    have nonzero : i ≠ 0 := by
      rintro rfl
      cases top.found.symm.trans place
      exact absurd (top.parent_eq.symm.trans above) nofun
    obtain ⟨m, name, planned, listed⟩ := build_hung built place nonzero
    obtain ⟨_, _, link, child, _⟩ := planned.child listed
    obtain ⟨again, foundAgain, hangs, _⟩ := child.node
    cases build_ids built place
    cases place.symm.trans foundAgain
    have parentId : n.parent = some m.id := congrArg Position.parent hangs
    cases parentId.symm.trans above
    exact child.after
  rw [grouped]
  exact Partition.ofOutlines_sound ordered

end Built

theorem build_over {s : Schema} (declared : s.Declared) {format : String} {plural : Bool}
    {request : Request} {p : Plan} (built : build s.catalog format plural request = .ok p) :
    p.Over s plural request := by
  obtain ⟨root, top, known⟩ := build_first built
  obtain ⟨_, _, grown, _⟩ := build_cases built
  have rootKnown : s.Registered root.format :=
    Schema.registered_of_format? (Schema.requireFormat_eq_ok.mp known)
  refine ⟨⟨root, top⟩, build_ids built, ?_, ?_, build_hung built, build_parts built⟩
  · intro i n found
    exact arena_planned request grown (Placed.self p.data) n (List.mem_of_getElem? found)
  · intro i n found
    exact registered_of_hung declared.sound (build_ids built) top.found rootKnown (build_hung built)
      _ _ found

namespace Over

variable {s : Schema} {p : Plan} {plural : Bool} {request : Request}

/-- Both ends of a listed child, once the child's node is known. -/
theorem child_of (valid : p.Over s plural request) (sound : s.Sound) {n m : DataNode} {name : String}
    (place : p.data[n.id]? = some n) (found : p.data[m.id]? = some m)
    (listed : (name, m.id) ∈ n.children) : ∃ link, Hangs s p n name m link := by
  obtain ⟨wanted, requested, link, child, matched⟩ := (valid.planned place).child listed
  obtain ⟨again, foundAgain, position, sameRequest⟩ := child.node
  cases found.symm.trans foundAgain
  have relation := sound.resolveRelation (valid.registered place) child.resolved
  have made : link = .ofRelation link.relation := child.link_eq
  have linked : m.link = some link := child.linked position
  have format : m.format = link.relation.foreignFormat := congrArg Position.format position
  have parentKnown : n.format.hasField link.parentField = true := by
    rw [made]
    exact relation.local_field
  have known : m.format.hasField link.field = true := by
    rw [made, format]
    exact relation.foreign_field
  refine ⟨link, listed, found, child.after, congrArg Position.parent position, ?_, linked, relation,
    format, congrArg Position.plural position, parentKnown, known, matched parentKnown, ?_⟩
  · rw [sameRequest]
    exact requested
  · exact fun direct => (valid.planned found).own_field linked direct known

theorem child (valid : p.Over s plural request) (sound : s.Sound) {i : Nat} {n : DataNode}
    (place : p.data[i]? = some n) {name : String} {id : Nat} (listed : (name, id) ∈ n.children) :
    ∃ m link, m.id = id ∧ Hangs s p n name m link := by
  obtain ⟨_, _, _, child, _⟩ := (valid.planned place).child listed
  obtain ⟨m, found, position, _⟩ := child.node
  have same : m.id = id := congrArg Position.id position
  obtain ⟨link, child⟩ :=
    valid.child_of sound (valid.planned place).place (same ▸ found) (same ▸ listed)
  exact ⟨m, link, same, child⟩

theorem parent (valid : p.Over s plural request) (sound : s.Sound) {m : DataNode}
    (found : p.data[m.id]? = some m) (below : m.id ≠ 0) :
    ∃ n name link, p.data[n.id]? = some n ∧ Hangs s p n name m link := by
  obtain ⟨n, name, planned, listed⟩ := valid.hung found below
  obtain ⟨link, child⟩ := valid.child_of sound planned.place found listed
  exact ⟨n, name, link, planned.place, child⟩

theorem owner (valid : p.Over s plural request) {i : Nat} {n : DataNode}
    (found : p.data[i]? = some n) : ∃ k q, p.ownerOf i = some k ∧ p.queries[k]? = some q ∧
      Partition.Owned ⟨p.queries, p.owner⟩ i (outline n) k q := by
  refine valid.parts.owned i (outline n) ?_
  rw [List.getElem?_map, found]
  rfl

/-- Many records have a statement of their own, below that of the parent. -/
theorem owner_plural (valid : p.Over s plural request) {n m : DataNode} {name : String} {link : Link}
    (child : Hangs s p n name m link) (many : m.plural = true) :
    ∃ a k q, p.ownerOf n.id = some a ∧ p.ownerOf m.id = some k ∧ a < k ∧ p.queries[k]? = some q ∧
      q.root = m.id ∧ q.parent = some a ∧
      q.depth = Partition.depthOf ⟨p.queries, p.owner⟩ a + 1 ∧ p.isAbsorbed m.id = false := by
  obtain ⟨k, q, owner, query, owned⟩ := valid.owner child.found
  simp only [Partition.Owned, outline, child.parent_eq, many, if_true] at owned
  obtain ⟨a, above, root, parent, less, depth⟩ := owned
  refine ⟨a, k, q, above, owner, less, query, root, parent, depth, ?_⟩
  simp only [isAbsorbed, child.found, Option.bind_some, child.parent_eq, owner]
  rw [show p.ownerOf n.id = some a from above]
  simpa using Nat.ne_of_gt less

/-- A single record is joined into the statement of its parent. -/
theorem owner_single (valid : p.Over s plural request) {n m : DataNode} {name : String} {link : Link}
    (child : Hangs s p n name m link) (one : m.plural = false) :
    p.ownerOf m.id = p.ownerOf n.id ∧ p.isAbsorbed m.id = true := by
  obtain ⟨k, q, owner, query, owned⟩ := valid.owner child.found
  simp only [Partition.Owned, outline, child.parent_eq, one] at owned
  obtain ⟨a, above, rfl, _⟩ := owned
  have same : p.ownerOf m.id = p.ownerOf n.id := owner.trans above.symm
  refine ⟨same, ?_⟩
  simp only [isAbsorbed, child.found, Option.bind_some, child.parent_eq, same, beq_self_eq_true]

theorem isAbsorbed_eq (valid : p.Over s plural request) {n m : DataNode} {name : String} {link : Link}
    (child : Hangs s p n name m link) : p.isAbsorbed m.id = !m.plural := by
  cases many : m.plural with
  | true =>
      obtain ⟨_, _, _, _, _, _, _, _, _, _, separate⟩ := valid.owner_plural child many
      exact separate
  | false => exact (valid.owner_single child many).2

theorem member (valid : p.Over s plural request) {k : Nat} {q : QueryNode}
    (query : p.queries[k]? = some q) {id : Nat} (member : id ∈ q.members) :
    ∃ n, p.data[id]? = some n ∧ p.ownerOf id = some k := by
  have owner := (valid.parts.mem_members query).mp member
  have inside := (List.getElem?_eq_some_iff.mp owner).1
  rw [valid.parts.owners, List.length_map] at inside
  exact ⟨_, List.getElem?_eq_getElem inside, owner⟩

/-- The members of a statement are owned by it, none before the one that opened it. -/
theorem member_owned (valid : p.Over s plural request) {k : Nat} {q : QueryNode}
    (query : p.queries[k]? = some q) {id : Nat} (member : id ∈ q.members) :
    ∃ n, p.data[id]? = some n ∧ Partition.Owned ⟨p.queries, p.owner⟩ id (outline n) k q := by
  obtain ⟨node, found, owned⟩ := valid.parts.member_owned query member
  rw [List.getElem?_map] at found
  obtain ⟨n, place, rfl⟩ := Option.map_eq_some_iff.mp found
  exact ⟨n, place, owned⟩

theorem members_increasing (valid : p.Over s plural request) {k : Nat} {q : QueryNode}
    (query : p.queries[k]? = some q) : q.members.Pairwise (· < ·) :=
  valid.parts.members_increasing query

theorem members_eq (valid : p.Over s plural request) {k : Nat} {q : QueryNode}
    (query : p.queries[k]? = some q) : q.members = q.root :: q.absorbed :=
  valid.parts.members_eq query

/-- What is joined to a statement's root are single records below some node. -/
theorem absorbed (valid : p.Over s plural request) (sound : s.Sound) {k : Nat} {q : QueryNode}
    (query : p.queries[k]? = some q) {id : Nat} (joined : id ∈ q.absorbed) :
    ∃ n m name link, m.id = id ∧ p.data[n.id]? = some n ∧ Hangs s p n name m link ∧
      m.plural = false := by
  have increasing := valid.members_increasing query
  rw [valid.members_eq query] at increasing
  have after : q.root < id := (List.pairwise_cons.mp increasing).1 id joined
  obtain ⟨m, found, owned⟩ := valid.member_owned query (List.mem_of_mem_drop joined)
  obtain rfl := valid.ids found
  have nonzero : m.id ≠ 0 := by omega
  obtain ⟨n, name, link, above, child⟩ := valid.parent sound found nonzero
  refine ⟨n, m, name, link, rfl, above, child, ?_⟩
  cases many : m.plural with
  | false => rfl
  | true =>
      simp only [Partition.Owned, outline, child.parent_eq, many, if_true] at owned
      obtain ⟨_, _, root, _⟩ := owned
      omega

/-- A record that is joined to a statement's root hangs off an earlier member. -/
theorem absorbed_parent (valid : p.Over s plural request) (sound : s.Sound) {k : Nat} {q : QueryNode}
    (query : p.queries[k]? = some q) {id : Nat} (joined : id ∈ q.absorbed) {m : DataNode}
    (found : p.data[id]? = some m) : ∃ parent ∈ q.members, m.parent = some parent ∧ parent < id := by
  obtain ⟨n, again, name, link, rfl, place, child, single⟩ := valid.absorbed sound query joined
  cases found.symm.trans child.found
  obtain ⟨_, _, owner⟩ := valid.member query (List.mem_of_mem_drop joined)
  rw [(valid.owner_single child single).1] at owner
  exact ⟨n.id, (valid.parts.mem_members query).mpr owner, child.parent_eq, child.after⟩

theorem root_found (valid : p.Over s plural request) {k : Nat} {q : QueryNode}
    (query : p.queries[k]? = some q) : ∃ m, p.data[q.root]? = some m := by
  obtain ⟨_, owner, _⟩ := valid.parts.queries k q query
  have inside := (List.getElem?_eq_some_iff.mp owner).1
  rw [valid.parts.owners, List.length_map] at inside
  exact ⟨_, List.getElem?_eq_getElem inside⟩

/-- A statement that a node below the root opened: the node is plural and hangs off another one. -/
theorem query_below (valid : p.Over s plural request) (sound : s.Sound) {k : Nat} {q : QueryNode}
    (query : p.queries[k]? = some q) (below : q.root ≠ 0) :
    ∃ n m name link, p.data[n.id]? = some n ∧ Hangs s p n name m link ∧ m.plural = true ∧
      q.root = m.id ∧ p.ownerOf m.id = some k := by
  obtain ⟨_, owner, _⟩ := valid.parts.queries k q query
  obtain ⟨m, found⟩ := valid.root_found query
  have root := valid.ids found
  rw [← root] at found below owner
  obtain ⟨n, name, link, place, child⟩ := valid.parent sound found below
  refine ⟨n, m, name, link, place, child, ?_, root.symm, owner⟩
  cases many : m.plural with
  | true => rfl
  | false =>
      obtain ⟨k', q', owner', query', owned⟩ := valid.owner found
      cases owner.symm.trans owner'
      cases query.symm.trans query'
      simp only [Partition.Owned, outline, child.parent_eq, many] at owned
      obtain ⟨_, _, _, earlier⟩ := owned
      exact absurd root (Nat.ne_of_gt earlier)

/-- The first statement is opened by the root, all others by plural nodes below it. -/
theorem query_cases (valid : p.Over s plural request) (sound : s.Sound) {k : Nat} {q : QueryNode}
    (query : p.queries[k]? = some q) :
    (k = 0 ∧ q.root = 0 ∧ q.parent = none ∧ q.depth = 0) ∨
      (k ≠ 0 ∧ ∃ n m name link, p.data[n.id]? = some n ∧ Hangs s p n name m link ∧
        m.plural = true ∧ q.root = m.id ∧ p.ownerOf m.id = some k) := by
  have nonzero : ∀ {j r}, p.queries[j]? = some r → r.root ≠ 0 → j ≠ 0 := by
    rintro j r found below rfl
    obtain ⟨n, m, name, link, _, child, many, _, owner⟩ := valid.query_below sound found below
    obtain ⟨a, k', _, _, owner', less, _⟩ := valid.owner_plural child many
    cases owner.symm.trans owner'
    exact Nat.not_lt_zero _ less
  by_cases first : q.root = 0
  · refine .inl ?_
    obtain ⟨root, top⟩ := valid.top
    obtain ⟨k', q', owner', query', owned⟩ := valid.owner top.found
    obtain ⟨_, owner, _⟩ := valid.parts.queries k q query
    rw [first] at owner
    cases owner'.symm.trans owner
    cases query.symm.trans query'
    simp only [Partition.Owned, outline, top.parent_eq] at owned
    -- the first of all statements is owned by its root, which can only be the root of the plan
    obtain ⟨q₀, query₀⟩ : ∃ q₀, p.queries[0]? = some q₀ :=
      ⟨_, List.getElem?_eq_getElem (Nat.zero_lt_of_lt (List.getElem?_eq_some_iff.mp query).1)⟩
    have root₀ : q₀.root = 0 := Decidable.byContradiction fun below => nonzero query₀ below rfl
    obtain ⟨_, owner₀, _⟩ := valid.parts.queries 0 q₀ query₀
    rw [root₀] at owner₀
    cases owner.symm.trans owner₀
    exact ⟨rfl, owned⟩
  · exact .inr ⟨nonzero query first, valid.query_below sound query first⟩

theorem query_first (valid : p.Over s plural request) (sound : s.Sound) {q : QueryNode}
    (query : p.queries[0]? = some q) : q.root = 0 ∧ q.parent = none ∧ q.depth = 0 := by
  rcases valid.query_cases sound query with ⟨_, first⟩ | ⟨below, _⟩
  · exact first
  · exact absurd rfl below

theorem first_query (valid : p.Over s plural request) : ∃ q, p.queries[0]? = some q := by
  obtain ⟨root, top⟩ := valid.top
  obtain ⟨k, q, _, query, _⟩ := valid.owner top.found
  exact ⟨_, List.getElem?_eq_getElem (Nat.zero_lt_of_lt (List.getElem?_eq_some_iff.mp query).1)⟩

theorem queryRoot_first (valid : p.Over s plural request) (sound : s.Sound) {root : DataNode}
    (top : p.Top plural request root) : p.queryRoot 0 = .ok root := by
  obtain ⟨q, query⟩ := valid.first_query
  exact queryRoot_eq_ok query ((valid.query_first sound query).1 ▸ top.found)

/-- A statement below the first one hangs off the statement that owns its root's parent. -/
theorem query_parent (valid : p.Over s plural request) (sound : s.Sound) {k : Nat} {q : QueryNode}
    (query : p.queries[k]? = some q) (below : k ≠ 0) :
    ∃ a n m name link, p.data[n.id]? = some n ∧ Hangs s p n name m link ∧ q.root = m.id ∧
      q.parent = some a ∧ p.ownerOf n.id = some a ∧
      q.depth = Partition.depthOf ⟨p.queries, p.owner⟩ a + 1 := by
  rcases valid.query_cases sound query with
    ⟨first, _⟩ | ⟨_, n, m, name, link, place, child, many, root, owner⟩
  · exact absurd first below
  · obtain ⟨a, k', q', above, opened, _, query', _, parent, depth, _⟩ := valid.owner_plural child many
    cases owner.symm.trans opened
    cases query.symm.trans query'
    exact ⟨a, n, m, name, link, place, child, root, parent, above, depth⟩

theorem depth_parent (valid : p.Over s plural request) {k a : Nat} {q : QueryNode}
    (query : p.queries[k]? = some q) (parent : q.parent = some a) :
    ∃ above, p.queries[a]? = some above ∧ above.depth + 1 = q.depth := by
  obtain ⟨node, _, opened⟩ := valid.parts.opened query
  cases opened with
  | top _ none => cases none.symm.trans parent
  | @below _ b upper _ _ _ some _ found depth =>
      obtain rfl : b = a := Option.some.inj (some.symm.trans parent)
      exact ⟨upper, found, depth.symm⟩

theorem mem_level (valid : p.Over s plural request) {k d : Nat} :
    k ∈ (p.levels[d]?).getD [] ↔ ∃ q, p.queries[k]? = some q ∧ q.depth = d :=
  valid.parts.mem_level

theorem nodup_level (valid : p.Over s plural request) (d : Nat) :
    ((p.levels[d]?).getD []).Nodup :=
  (valid.parts.level_increasing d).imp Nat.ne_of_lt

end Over

end Plan
end NestedQuery
