/- The nodes of a plan mirror the tree of its request: which node stands for which part of the tree, how
parents and children know each other, and that all nodes below one stand next to it. -/
import NestedQuery.Proofs.Arena

namespace NestedQuery

/-- Where relations lead to: records of a format, one or many, and the relation that was followed last. -/
structure Stop where
  format : Format
  plural : Bool
  relation : Option ResolvedRelation

/-- Follows relations by their names, one after another. -/
def Catalog.follow (catalog : Catalog) (stop : Stop) : List String → Result Stop
  | [] => .ok stop
  | name :: rest => do
    let resolved ← catalog.relation stop.format.name name
    catalog.follow ⟨resolved.foreignFormat, resolved.plural, some resolved⟩ rest

namespace Request

mutual

/-- The tree in pre-order, each part with the names of the relations that lead to it. -/
def routed : Request → List (List String × Request)
  | ⟨fields, relations, query⟩ => ([], ⟨fields, relations, query⟩) :: routedBelow relations

def routedBelow : List (String × Request) → List (List String × Request)
  | [] => []
  | (name, request) :: rest =>
    (routed request).map (fun part => (name :: part.1, part.2)) ++ routedBelow rest

end

end Request

def Position.stop (p : Position) : Stop := ⟨p.format, p.plural, p.link.map (·.relation)⟩

/-- A node has the request that a route leads to, and is found where the route leads from a position. -/
structure Arrives (catalog : Catalog) (p : Position) (part : List String × Request) (n : DataNode) :
    Prop where
  request_eq : n.request = part.2
  path_eq : n.path = ".".intercalate (p.path :: part.1)
  stop_eq : catalog.follow p.stop part.1 = .ok n.position.stop

theorem Arrives.after {catalog : Catalog} {p : Position} {name : String} {resolved : ResolvedRelation}
    (found : catalog.relation p.format.name name = .ok resolved) {next : Nat}
    {part : List String × Request} {n : DataNode}
    (arrives : Arrives catalog (p.below next resolved name) part n) :
    Arrives catalog p (name :: part.1, part.2) n := by
  refine ⟨arrives.request_eq, arrives.path_eq, ?_⟩
  rw [Catalog.follow, show p.stop.format = p.format from rfl, found, Result.ok_bind]
  exact arrives.stop_eq

mutual

theorem arena_arrives {catalog : Catalog} {p : Position} :
    ∀ (request : Request) {nodes : List DataNode}, arena catalog p request = .ok nodes →
      List.Forall₂ (Arrives catalog p) request.routed nodes
  | ⟨fields, relations, query⟩, nodes, grown => by
      obtain ⟨children, others, returned, _, grownBelow, _, rfl⟩ := arena_cases grown
      exact .cons ⟨rfl, rfl, rfl⟩ (arenaOfRelations_arrives relations grownBelow)

theorem arenaOfRelations_arrives {catalog : Catalog} {p : Position} {next : Nat} :
    ∀ (relations : List (String × Request)) {children : List Child} {nodes : List DataNode},
      arenaOfRelations catalog p next relations = .ok (children, nodes) →
      List.Forall₂ (Arrives catalog p) (Request.routedBelow relations) nodes
  | [], children, nodes, grown => by
      cases grown
      exact .nil
  | (name, request) :: rest, children, nodes, grown => by
      obtain ⟨resolved, first, later, others, found, grownFirst, grownRest, _, rfl⟩ :=
        arenaOfRelations_cases grown
      rw [Request.routedBelow]
      refine List.rel_append ?_ (arenaOfRelations_arrives rest grownRest)
      rw [List.forall₂_map_left_iff]
      exact (arena_arrives request grownFirst).imp fun _ _ arrives => arrives.after found

end

mutual

/-- What comes with a node is its own arena. -/
theorem arena_subtrees {catalog : Catalog} {data : List DataNode} {p : Position} :
    ∀ (request : Request) {nodes : List DataNode}, arena catalog p request = .ok nodes →
      Placed data p.id nodes → ∀ n ∈ nodes, ∃ below, arena catalog n.position n.request = .ok below ∧
        Placed data n.id below ∧ n.id + below.length ≤ p.id + nodes.length
  | ⟨fields, relations, query⟩, nodes, grown, placed => by
      obtain ⟨children, others, returned, _, grownBelow, _, rfl⟩ := arena_cases grown
      refine List.forall_mem_cons.mpr ⟨⟨_, grown, placed, Nat.le_refl _⟩, fun n member => ?_⟩
      obtain ⟨below, regrown, here, within⟩ :=
        arenaOfRelations_subtrees relations grownBelow placed.tail n member
      refine ⟨below, regrown, here, ?_⟩
      rw [List.length_cons]
      omega

theorem arenaOfRelations_subtrees {catalog : Catalog} {data : List DataNode} {p : Position}
    {next : Nat} :
    ∀ (relations : List (String × Request)) {children : List Child} {nodes : List DataNode},
      arenaOfRelations catalog p next relations = .ok (children, nodes) → Placed data next nodes →
      ∀ n ∈ nodes, ∃ below, arena catalog n.position n.request = .ok below ∧
        Placed data n.id below ∧ n.id + below.length ≤ next + nodes.length
  | [], children, nodes, grown, placed => by
      cases grown
      exact nofun
  | (name, request) :: rest, children, nodes, grown, placed => by
      obtain ⟨resolved, first, later, others, _, grownFirst, grownRest, _, rfl⟩ :=
        arenaOfRelations_cases grown
      intro n member
      rw [List.length_append]
      rcases List.mem_append.mp member with inFirst | inOthers
      · obtain ⟨below, regrown, here, (within : _ ≤ next + _)⟩ :=
          arena_subtrees request grownFirst placed.left n inFirst
        exact ⟨below, regrown, here, by omega⟩
      · obtain ⟨below, regrown, here, within⟩ :=
          arenaOfRelations_subtrees rest grownRest placed.right n inOthers
        exact ⟨below, regrown, here, by omega⟩

end

mutual

/-- Every node but the first has its parent among the nodes before it. -/
theorem arena_parents {catalog : Catalog} {p : Position} :
    ∀ (request : Request) {nodes : List DataNode}, arena catalog p request = .ok nodes →
      ∀ n ∈ nodes, n.position = p ∨ ∃ k, n.parent = some k ∧ p.id ≤ k ∧ k < n.id
  | ⟨fields, relations, query⟩, nodes, grown => by
      obtain ⟨children, others, returned, _, grownBelow, _, rfl⟩ := arena_cases grown
      refine List.forall_mem_cons.mpr ⟨.inl rfl, fun n member => .inr ?_⟩
      exact arenaOfRelations_parents relations grownBelow (Nat.lt_succ_self _) n member

theorem arenaOfRelations_parents {catalog : Catalog} {p : Position} {next : Nat} :
    ∀ (relations : List (String × Request)) {children : List Child} {nodes : List DataNode},
      arenaOfRelations catalog p next relations = .ok (children, nodes) → p.id < next →
      ∀ n ∈ nodes, ∃ k, n.parent = some k ∧ p.id ≤ k ∧ k < n.id
  | [], children, nodes, grown, after => by
      cases grown
      exact nofun
  | (name, request) :: rest, children, nodes, grown, after => by
      obtain ⟨resolved, first, later, others, _, grownFirst, grownRest, _, rfl⟩ :=
        arenaOfRelations_cases grown
      intro n member
      rcases List.mem_append.mp member with inFirst | inOthers
      · rcases arena_parents request grownFirst n inFirst with top | ⟨k, hangs, from_next, less⟩
        · have id : n.id = next := congrArg Position.id top
          exact ⟨p.id, congrArg Position.parent top, Nat.le_refl _, id ▸ after⟩
        · exact ⟨k, hangs, Nat.le_trans (Nat.le_of_lt after) from_next, less⟩
      · exact arenaOfRelations_parents rest grownRest (Nat.lt_add_right _ after) n inOthers

end

/-- Children stand in the order of their relations, within what was grown for these. -/
theorem arenaOfRelations_children {catalog : Catalog} {p : Position} {next : Nat} :
    ∀ (relations : List (String × Request)) {children : List Child} {nodes : List DataNode},
      arenaOfRelations catalog p next relations = .ok (children, nodes) →
      (children.map (·.id)).Pairwise (· < ·) ∧
        ∀ id ∈ children.map (·.id), next ≤ id ∧ id < next + nodes.length
  | [], children, nodes, grown => by
      cases grown
      exact ⟨.nil, nofun⟩
  | (name, request) :: rest, children, nodes, grown => by
      obtain ⟨resolved, first, later, others, _, grownFirst, grownRest, rfl, rfl⟩ :=
        arenaOfRelations_cases grown
      obtain ⟨increasing, bounds⟩ := arenaOfRelations_children rest grownRest
      have some : 0 < first.length := by
        obtain ⟨n, below, rfl, _⟩ := arena_head grownFirst
        exact Nat.zero_lt_succ _
      have after : ∀ id ∈ later.map (·.id), next < id ∧ id < next + (first ++ others).length := by
        intro id listed
        have := bounds id listed
        rw [List.length_append]
        omega
      have inside : next < next + (first ++ others).length := by
        rw [List.length_append]
        omega
      exact ⟨List.pairwise_cons.mpr ⟨fun id listed => (after id listed).1, increasing⟩,
        List.forall_mem_cons.mpr ⟨⟨Nat.le_refl _, inside⟩,
          fun id listed => (after id listed).imp_left Nat.le_of_lt⟩⟩

theorem arena_children {catalog : Catalog} {p : Position} {request : Request} {nodes : List DataNode}
    (grown : arena catalog p request = .ok nodes) : ∃ n others, nodes = n :: others ∧
      (n.children.map (·.2)).Pairwise (· < ·) ∧
        ∀ id ∈ n.children.map (·.2), p.id < id ∧ id < p.id + nodes.length := by
  obtain ⟨fields, relations, query⟩ := request
  obtain ⟨children, others, returned, _, grownBelow, _, rfl⟩ := arena_cases grown
  obtain ⟨increasing, bounds⟩ := arenaOfRelations_children relations grownBelow
  have ids : (p.node ⟨fields, relations, query⟩ returned children).children.map (·.2) =
      children.map (·.id) := List.map_map
  refine ⟨_, others, rfl, ids ▸ increasing, fun id listed => ?_⟩
  have := bounds id (ids ▸ listed)
  rw [List.length_cons]
  omega

/-- A node is reached from another one by going from parents to children. -/
inductive Within (nodes : List DataNode) (i : Nat) : Nat → Prop
  | self : Within nodes i i
  | down {j k : Nat} {m : DataNode} (within : Within nodes i k) (node : nodes[j]? = some m)
      (hangs : m.parent = some k) : Within nodes i j

def Position.top (format : String) (root : Format) (plural : Bool) : Position :=
  ⟨0, root, plural, none, none, format⟩

section Root

variable {catalog : Catalog} {format : String} {root : Format} {plural : Bool} {request : Request}
  {nodes : List DataNode} {n m : DataNode}
  (grown : arena catalog (.top format root plural) request = .ok nodes)
include grown

theorem planned_of_arena (member : n ∈ nodes) : Planned catalog nodes n :=
  arena_planned request grown (Placed.self nodes) n member

/-- Every node but the root is listed by its parent. -/
theorem listed_of_arena (member : m ∈ nodes) : m.position = .top format root plural ∨
    ∃ parent ∈ nodes, m.parent = some parent.id ∧ m.id ∈ parent.children.map (·.2) := by
  refine (arena_hung request grown (Placed.self nodes) m member).imp_right ?_
  rintro ⟨parent, name, planned, listed⟩
  obtain ⟨_, _, link, child, _⟩ := planned.child listed
  obtain ⟨again, found, position, _⟩ := child.node
  cases (planned_of_arena grown member).place.symm.trans found
  exact ⟨parent, List.mem_of_getElem? planned.place, congrArg Position.parent position,
    List.mem_map_of_mem listed⟩

theorem parent_iff_child (above : n ∈ nodes) (member : m ∈ nodes) :
    m.parent = some n.id ↔ m.id ∈ n.children.map (·.2) := by
  constructor
  · intro hangs
    rcases listed_of_arena grown member with top | ⟨parent, isNode, hangs', listed⟩
    · cases (congrArg Position.parent top).symm.trans hangs
    · have same : parent.id = n.id := Option.some.inj (hangs'.symm.trans hangs)
      have place := (planned_of_arena grown isNode).place
      rw [same, (planned_of_arena grown above).place] at place
      exact Option.some.inj place ▸ listed
  · intro listed
    obtain ⟨⟨name, id⟩, listed, rfl⟩ := List.mem_map.mp listed
    obtain ⟨_, _, link, child, _⟩ := (planned_of_arena grown above).child listed
    obtain ⟨again, found, position, _⟩ := child.node
    cases (planned_of_arena grown member).place.symm.trans found
    exact congrArg Position.parent position

/-- The arena of a node within the whole one. -/
theorem subtree_of_arena (member : n ∈ nodes) :
    ∃ below, arena catalog n.position n.request = .ok below ∧ Placed nodes n.id below ∧
      below.length = n.request.preorder.length := by
  obtain ⟨below, regrown, placed, _⟩ := arena_subtrees request grown (Placed.self nodes) n member
  refine ⟨below, regrown, placed, ?_⟩
  rw [← arena_requests n.request regrown, List.length_map]

theorem children_of_arena (member : n ∈ nodes) : (n.children.map (·.2)).Pairwise (· < ·) ∧
    ∀ id ∈ n.children.map (·.2), n.id < id ∧ id < n.id + n.request.preorder.length := by
  obtain ⟨below, regrown, placed, size⟩ := subtree_of_arena grown member
  obtain ⟨first, others, rfl, increasing, bounds⟩ := arena_children regrown
  cases (planned_of_arena grown member).place.symm.trans placed.head
  exact ⟨increasing, size ▸ bounds⟩

/-- A node below another one has all its own nodes there. -/
theorem size_of_arena (member : n ∈ nodes) (inside : m ∈ nodes) (after : n.id ≤ m.id)
    (before : m.id < n.id + n.request.preorder.length) :
    m.id + m.request.preorder.length ≤ n.id + n.request.preorder.length := by
  obtain ⟨below, regrown, placed, size⟩ := subtree_of_arena grown member
  obtain ⟨d, same⟩ := Nat.exists_eq_add_of_le after
  have found : below[d]? = some m := by
    have short : d < below.length := by omega
    have here := placed d _ (List.getElem?_eq_getElem short)
    rw [← same, (planned_of_arena grown inside).place] at here
    rw [List.getElem?_eq_getElem short, here]
  obtain ⟨own, again, _, bound⟩ :=
    arena_subtrees n.request regrown placed m (List.mem_of_getElem? found)
  have ownSize : own.length = m.request.preorder.length := by
    rw [← arena_requests m.request again, List.length_map]
  rw [ownSize, size] at bound
  exact bound

theorem within_iff (member : n ∈ nodes) {j : Nat} :
    Within nodes n.id j ↔ n.id ≤ j ∧ j < n.id + n.request.preorder.length := by
  obtain ⟨below, regrown, placed, size⟩ := subtree_of_arena grown member
  constructor
  · intro within
    induction within with
    | self =>
        obtain ⟨_, _, rfl, _⟩ := arena_head regrown
        rw [← size, List.length_cons]
        omega
    | @down j k m _ node hangs ih =>
        have inside := List.mem_of_getElem? node
        rcases listed_of_arena grown inside with top | ⟨parent, isNode, hangs', listed⟩
        · cases (congrArg Position.parent top).symm.trans hangs
        · obtain rfl : parent.id = k := Option.some.inj (hangs'.symm.trans hangs)
          obtain rfl : m.id = j := (arena_id grown node).trans (Nat.zero_add j)
          have bounds := (children_of_arena grown isNode).2 m.id listed
          have whole := size_of_arena grown member isNode ih.1 ih.2
          omega
  · rintro ⟨after, before⟩
    induction j using Nat.strongRecOn with
    | ind j ih =>
        rcases Nat.eq_or_lt_of_le after with rfl | later
        · exact .self
        · obtain ⟨d, rfl⟩ := Nat.exists_eq_add_of_le after
          have found := List.getElem?_eq_getElem (show d < below.length by omega)
          have here := placed d _ found
          rcases arena_parents n.request regrown _ (List.mem_of_getElem? found) with
            top | ⟨k, hangs, from_n, less⟩
          · have own : below[d].id = n.id := congrArg Position.id top
            rw [arena_id regrown found] at own
            exact absurd own (Nat.ne_of_gt later)
          · rw [arena_id regrown found] at less
            exact .down (ih k less from_n (Nat.lt_trans less before)) here hangs

/-- Each relation of a node's request has a child, in the order of the request. -/
theorem children_in_order (member : n ∈ nodes) : List.Forall₂ (fun r c => c.1 = r.1 ∧
    ∃ m, nodes[c.2]? = some m ∧ m.request = r.2 ∧ m.parent = some n.id)
    n.request.relations n.children := by
  obtain ⟨returned, children, _, made, hung⟩ := (planned_of_arena grown member).grown
  rw [show n.children = children.map fun c => (c.name, c.id) from congrArg DataNode.children made,
    List.forall₂_map_right_iff]
  refine hung.imp fun r c child => ⟨child.name_eq, ?_⟩
  obtain ⟨m, found, position, request⟩ := child.node
  exact ⟨m, found, request, congrArg Position.parent position⟩

/-- The fields that a node is matched by are those of its relation. -/
theorem link_of_relation (member : n ∈ nodes) {link : Link} (linked : n.link = some link) :
    link = .ofRelation link.relation := by
  rcases arena_hung request grown (Placed.self nodes) n member with top | ⟨parent, name, planned, listed⟩
  · have none : n.link = none := congrArg Position.link top
    rw [none] at linked
    cases linked
  · obtain ⟨_, _, own, child, _⟩ := planned.child listed
    obtain ⟨again, found, position, _⟩ := child.node
    cases (planned_of_arena grown member).place.symm.trans found
    cases linked.symm.trans (child.linked position)
    exact child.link_eq

theorem root_iff (member : n ∈ nodes) :
    (n.link = none ↔ n.id = 0) ∧ (n.parent = none ↔ n.id = 0) := by
  rcases arena_hung request grown (Placed.self nodes) n member with top | ⟨parent, name, planned, listed⟩
  · have link : n.link = none := congrArg Position.link top
    have above : n.parent = none := congrArg Position.parent top
    have first : n.id = 0 := congrArg Position.id top
    simp [link, above, first]
  · obtain ⟨_, _, link, child, _⟩ := planned.child listed
    obtain ⟨again, found, position, _⟩ := child.node
    cases (planned_of_arena grown member).place.symm.trans found
    have linked : n.link = some link := child.linked position
    have above : n.parent = some parent.id := congrArg Position.parent position
    have later : n.id ≠ 0 := Nat.ne_zero_of_lt child.after
    simp [linked, above, later]

end Root

/-- The nodes are those of a request's tree, each at its place in pre-order. A node is what following the
relations from the root leads to, parents and children name each other, and what is below a node stands right
after it. -/
structure Mirrors (catalog : Catalog) (format : String) (plural : Bool) (request : Request)
    (nodes : List DataNode) : Prop where
  ids : nodes.map (·.id) = List.range nodes.length
  requests : nodes.map (·.request) = request.preorder
  arrives : ∃ root, catalog.format format = .ok root ∧
    List.Forall₂ (Arrives catalog (.top format root plural)) request.routed nodes
  links : ∀ n ∈ nodes, ∀ link ∈ n.link, link.field = link.relation.foreignField.field ∧
    link.parentField = link.relation.localField.field
  first : ∀ n ∈ nodes, (n.link = none ↔ n.id = 0) ∧ (n.parent = none ↔ n.id = 0)
  children : ∀ n ∈ nodes, (n.children.map (·.2)).Pairwise (· < ·) ∧
    List.Forall₂ (fun r c => c.1 = r.1 ∧
      ∃ m, nodes[c.2]? = some m ∧ m.request = r.2 ∧ m.parent = some n.id)
      n.request.relations n.children
  inverse : ∀ n ∈ nodes, ∀ m ∈ nodes, m.parent = some n.id ↔ m.id ∈ n.children.map (·.2)
  contiguous : ∀ n ∈ nodes, ∀ j, Within nodes n.id j ↔
    n.id ≤ j ∧ j < n.id + n.request.preorder.length

/-- What a request is planned as mirrors it. -/
theorem rootArena_mirrors {catalog : Catalog} {format : String} {plural : Bool} {request : Request}
    {nodes : List DataNode} (grown : rootArena catalog format plural request = .ok nodes) :
    Mirrors catalog format plural request nodes := by
  obtain ⟨root, known, grown⟩ := Result.bind_eq_ok.mp grown
  change arena catalog (.top format root plural) request = .ok nodes at grown
  exact {
    ids := by rw [arena_ids request grown, List.range_eq_range']; rfl
    requests := arena_requests request grown
    arrives := ⟨root, known, arena_arrives request grown⟩
    links := fun _ member _ linked =>
      have made := link_of_relation grown member linked
      ⟨congrArg Link.field made, congrArg Link.parentField made⟩
    first := fun _ => root_iff grown
    children := fun _ member =>
      ⟨(children_of_arena grown member).1, children_in_order grown member⟩
    inverse := fun _ above _ => parent_iff_child grown above
    contiguous := fun _ member _ => within_iff grown member }

/-- Users with their articles and the tags of these, and with the authors of the articles after the tags. -/
def taggedArticles : Request :=
  ⟨some ["name"], [("articles", ⟨some ["title"],
    [("tags", ⟨some ["label"], [], .empty⟩), ("author", ⟨none, [], .empty⟩)], .empty⟩)], .empty⟩

theorem rootArena_mirrors_taggedArticles : ∃ nodes,
    rootArena Schema.blog.catalog "user" true taggedArticles = .ok nodes ∧
      Mirrors Schema.blog.catalog "user" true taggedArticles nodes ∧
      nodes.map (·.path) =
        ["user", "user.articles", "user.articles.tags", "user.articles.author"] ∧
      nodes.map (·.parent) = [none, some 0, some 1, some 1] := by
  have grown : ∃ nodes, rootArena Schema.blog.catalog "user" true taggedArticles = .ok nodes ∧
      nodes.map (·.path) =
        ["user", "user.articles", "user.articles.tags", "user.articles.author"] ∧
      nodes.map (·.parent) = [none, some 0, some 1, some 1] := ⟨_, rfl, rfl, rfl⟩
  obtain ⟨nodes, grown, paths, parents⟩ := grown
  exact ⟨nodes, grown, rootArena_mirrors grown, paths, parents⟩

end NestedQuery
