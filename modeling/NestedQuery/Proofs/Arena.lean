/- What planning makes of a request: its nodes are the tree in pre-order, each at its own place, and
each hangs off an earlier one by a relation that the request names there. -/
import Mathlib.Data.List.Forall2
import NestedQuery.Plan.Basic
import NestedQuery.Proofs.Catalog
import NestedQuery.Proofs.Fields
import NestedQuery.Proofs.Request

namespace NestedQuery

def DataNode.position (n : DataNode) : Position := ⟨n.id, n.format, n.plural, n.parent, n.link, n.path⟩

namespace Position

def node (p : Position) (request : Request) (returned : List String) (children : List Child) :
    DataNode where
  id := p.id
  format := p.format
  plural := p.plural
  parent := p.parent
  children := children.map fun c => (c.name, c.id)
  link := p.link
  request := request
  selection := p.selection returned (children.map (·.link))
  path := p.path

def below (p : Position) (id : Nat) (relation : ResolvedRelation) (name : String) : Position :=
  ⟨id, relation.foreignFormat, relation.plural, some p.id, some (.ofRelation relation),
    s!"{p.path}.{name}"⟩

theorem resolve_eq_ok {catalog : Catalog} {p : Position} {name : String} {r : ResolvedRelation} :
    p.resolve catalog name = .ok r ↔ catalog.relation p.format.name name = .ok r :=
  Result.mapError_eq_ok

end Position

theorem arena_cases {catalog : Catalog} {p : Position} {fields : Option (List String)}
    {relations : List (String × Request)} {query : Query} {nodes : List DataNode}
    (grown : arena catalog p ⟨fields, relations, query⟩ = .ok nodes) :
    ∃ children others returned,
      query.check p.format p.plural p.path = .ok () ∧
        arenaOfRelations catalog p (p.id + 1) relations = .ok (children, others) ∧
        p.returned fields = .ok returned ∧
        nodes = p.node ⟨fields, relations, query⟩ returned children :: others := by
  simp only [arena] at grown
  obtain ⟨_, checked, grown⟩ := Result.bind_eq_ok.mp grown
  obtain ⟨⟨children, others⟩, grownBelow, grown⟩ := Result.bind_eq_ok.mp grown
  obtain ⟨returned, known, grown⟩ := Result.bind_eq_ok.mp grown
  exact ⟨children, others, returned, checked, grownBelow, known, (Except.ok.inj grown).symm⟩

theorem arenaOfRelations_cases {catalog : Catalog} {p : Position} {next : Nat} {name : String}
    {request : Request} {rest : List (String × Request)} {children : List Child}
    {nodes : List DataNode}
    (grown : arenaOfRelations catalog p next ((name, request) :: rest) = .ok (children, nodes)) :
    ∃ resolved first later others,
      catalog.relation p.format.name name = .ok resolved ∧
        arena catalog (p.below next resolved name) request = .ok first ∧
        arenaOfRelations catalog p (next + first.length) rest = .ok (later, others) ∧
        children = ⟨name, next, .ofRelation resolved⟩ :: later ∧ nodes = first ++ others := by
  simp only [arenaOfRelations] at grown
  obtain ⟨resolved, found, grown⟩ := Result.bind_eq_ok.mp grown
  obtain ⟨first, grownFirst, grown⟩ := Result.bind_eq_ok.mp grown
  obtain ⟨⟨later, others⟩, grownRest, grown⟩ := Result.bind_eq_ok.mp grown
  cases grown
  exact ⟨resolved, first, later, others, Position.resolve_eq_ok.mp found, grownFirst, grownRest,
    rfl, rfl⟩

theorem arena_head {catalog : Catalog} {p : Position} {request : Request} {nodes : List DataNode}
    (grown : arena catalog p request = .ok nodes) :
    ∃ n others, nodes = n :: others ∧ n.position = p ∧ n.request = request := by
  obtain ⟨fields, relations, query⟩ := request
  obtain ⟨children, others, returned, _, _, _, rfl⟩ := arena_cases grown
  exact ⟨_, _, rfl, rfl, rfl⟩

mutual

theorem arena_requests {catalog : Catalog} {p : Position} :
    ∀ (request : Request) {nodes : List DataNode}, arena catalog p request = .ok nodes →
      nodes.map (·.request) = request.preorder
  | ⟨fields, relations, query⟩, nodes, grown => by
      obtain ⟨children, others, returned, _, grownBelow, _, rfl⟩ := arena_cases grown
      rw [List.map_cons, arenaOfRelations_requests relations grownBelow, Request.preorder]
      rfl

theorem arenaOfRelations_requests {catalog : Catalog} {p : Position} {next : Nat} :
    ∀ (relations : List (String × Request)) {children : List Child} {nodes : List DataNode},
      arenaOfRelations catalog p next relations = .ok (children, nodes) →
      nodes.map (·.request) = Request.preorderOfRelations relations
  | [], children, nodes, grown => by
      cases grown
      rfl
  | (name, request) :: rest, children, nodes, grown => by
      obtain ⟨resolved, first, later, others, _, grownFirst, grownRest, _, rfl⟩ :=
        arenaOfRelations_cases grown
      rw [List.map_append, arena_requests request grownFirst,
        arenaOfRelations_requests rest grownRest, Request.preorderOfRelations]

end

mutual

theorem arena_ids {catalog : Catalog} {p : Position} :
    ∀ (request : Request) {nodes : List DataNode}, arena catalog p request = .ok nodes →
      nodes.map (·.id) = List.range' p.id nodes.length
  | ⟨fields, relations, query⟩, nodes, grown => by
      obtain ⟨children, others, returned, _, grownBelow, _, rfl⟩ := arena_cases grown
      rw [List.map_cons, arenaOfRelations_ids relations grownBelow, List.length_cons,
        List.range'_succ]
      rfl

theorem arenaOfRelations_ids {catalog : Catalog} {p : Position} {next : Nat} :
    ∀ (relations : List (String × Request)) {children : List Child} {nodes : List DataNode},
      arenaOfRelations catalog p next relations = .ok (children, nodes) →
      nodes.map (·.id) = List.range' next nodes.length
  | [], children, nodes, grown => by
      cases grown
      rfl
  | (name, request) :: rest, children, nodes, grown => by
      obtain ⟨resolved, first, later, others, _, grownFirst, grownRest, _, rfl⟩ :=
        arenaOfRelations_cases grown
      rw [List.map_append, arena_ids request grownFirst, arenaOfRelations_ids rest grownRest,
        List.length_append, ← List.range'_append_1]
      rfl

end

theorem arena_id {catalog : Catalog} {p : Position} {request : Request} {nodes : List DataNode}
    (grown : arena catalog p request = .ok nodes) {k : Nat} {n : DataNode}
    (found : nodes[k]? = some n) : n.id = p.id + k := by
  have here := congrArg (·[k]?) (arena_ids request grown)
  simp only [List.getElem?_map, found, Option.map_some] at here
  have inside := (List.getElem?_eq_some_iff.mp found).1
  simpa [List.getElem?_range', inside] using here

def Placed (data : List DataNode) (start : Nat) (nodes : List DataNode) : Prop :=
  ∀ k n, nodes[k]? = some n → data[start + k]? = some n

namespace Placed

variable {data first others : List DataNode} {start : Nat} {n : DataNode}

theorem self (data : List DataNode) : Placed data 0 data := by
  intro k n found
  rw [Nat.zero_add]
  exact found

theorem head (placed : Placed data start (n :: others)) : data[start]? = some n :=
  placed 0 n rfl

theorem tail (placed : Placed data start (n :: others)) : Placed data (start + 1) others := by
  intro k m found
  rw [Nat.add_right_comm]
  exact placed (k + 1) m found

theorem left (placed : Placed data start (first ++ others)) : Placed data start first := by
  intro k m found
  refine placed k m ?_
  rw [List.getElem?_append_left (List.getElem?_eq_some_iff.mp found).1]
  exact found

theorem right (placed : Placed data start (first ++ others)) :
    Placed data (start + first.length) others := by
  intro k m found
  rw [Nat.add_assoc]
  refine placed (first.length + k) m ?_
  rw [List.getElem?_append_right (Nat.le_add_right ..), Nat.add_sub_cancel_left]
  exact found

end Placed

/-- A child stands in `data` after its parent, at the position that its relation leads to. -/
structure ChildOf (catalog : Catalog) (data : List DataNode) (p : Position)
    (r : String × Request) (c : Child) : Prop where
  name_eq : c.name = r.1
  after : p.id < c.id
  resolved : catalog.relation p.format.name r.1 = .ok c.link.relation
  link_eq : c.link = .ofRelation c.link.relation
  node : ∃ n, data[c.id]? = some n ∧ n.position = p.below c.id c.link.relation r.1 ∧ n.request = r.2

namespace ChildOf

variable {catalog : Catalog} {data : List DataNode} {p : Position} {r : String × Request} {c : Child}

theorem parentField_eq (child : ChildOf catalog data p r c) :
    c.link.parentField = c.link.relation.localField.field := congrArg Link.parentField child.link_eq

/-- The node of a child keeps the link that it was found by. -/
theorem linked (child : ChildOf catalog data p r c) {n : DataNode}
    (position : n.position = p.below c.id c.link.relation r.1) : n.link = some c.link := by
  rw [child.link_eq]
  exact congrArg Position.link position

end ChildOf

/-- A node comes from its request: the query is checked, the fields are known, and each relation has
its child. -/
structure Planned (catalog : Catalog) (data : List DataNode) (n : DataNode) : Prop where
  place : data[n.id]? = some n
  checked : n.request.query.check n.format n.plural n.path = .ok ()
  grown : ∃ returned children, n.position.returned n.request.fields = .ok returned ∧
    n = n.position.node n.request returned children ∧
    List.Forall₂ (ChildOf catalog data n.position) n.request.relations children

theorem lookup_children {children : List Child} (once : (children.map (·.name)).Nodup) :
    ∀ c ∈ children, (children.map fun c => (c.name, c.id)).lookup c.name = some c.id := by
  induction children with
  | nil => exact nofun
  | cons first rest ih =>
      obtain ⟨absent, onceRest⟩ := List.nodup_cons.mp once
      refine List.forall_mem_cons.mpr ⟨?_, fun c member => ?_⟩
      · simp only [List.map_cons, List.lookup_cons, beq_self_eq_true]
      · have different : (c.name == first.name) = false := by
          refine beq_eq_false_iff_ne.mpr fun same => absent ?_
          exact List.mem_map.mpr ⟨c, member, same⟩
        simp only [List.map_cons, List.lookup_cons, different]
        exact ih onceRest c member

mutual

theorem arena_planned {catalog : Catalog} {data : List DataNode} {p : Position} :
    ∀ (request : Request) {nodes : List DataNode}, arena catalog p request = .ok nodes →
      Placed data p.id nodes → ∀ n ∈ nodes, Planned catalog data n
  | ⟨fields, relations, query⟩, nodes, grown, placed => by
      obtain ⟨children, others, returned, checked, grownBelow, known, rfl⟩ := arena_cases grown
      obtain ⟨hung, planned⟩ :=
        arenaOfRelations_planned relations grownBelow placed.tail (Nat.lt_succ_self _)
      exact List.forall_mem_cons.mpr
        ⟨⟨placed.head, checked, returned, children, known, rfl, hung⟩, planned⟩

theorem arenaOfRelations_planned {catalog : Catalog} {data : List DataNode} {p : Position}
    {next : Nat} :
    ∀ (relations : List (String × Request)) {children : List Child} {nodes : List DataNode},
      arenaOfRelations catalog p next relations = .ok (children, nodes) →
      Placed data next nodes → p.id < next →
      List.Forall₂ (ChildOf catalog data p) relations children ∧
        ∀ n ∈ nodes, Planned catalog data n
  | [], children, nodes, grown, placed, after => by
      cases grown
      exact ⟨.nil, nofun⟩
  | (name, request) :: rest, children, nodes, grown, placed, after => by
      obtain ⟨resolved, first, later, others, found, grownFirst, grownRest, rfl, rfl⟩ :=
        arenaOfRelations_cases grown
      obtain ⟨hung, planned⟩ := arenaOfRelations_planned rest grownRest placed.right
        (Nat.lt_add_right _ after)
      have child : ChildOf catalog data p (name, request) ⟨name, next, .ofRelation resolved⟩ := by
        obtain ⟨n, below, rfl, position, same⟩ := arena_head grownFirst
        exact ⟨rfl, after, found, rfl, n, placed.left.head, position, same⟩
      refine ⟨.cons child hung, ?_⟩
      intro n member
      rcases List.mem_append.mp member with inFirst | inOthers
      · exact arena_planned request grownFirst placed.left n inFirst
      · exact planned n inOthers

end

namespace Selection

variable {s : Selection} {field : String}

theorem requireLabel_of_mem (selected : field ∈ s.names) :
    s.requireLabel field = .ok (s.label field) := by
  have entries : s.selected.map (fun f => (f.name, s.label f.name)) =
      s.names.map fun name => (name, s.label name) := by
    rw [names, List.map_map]
    rfl
  rw [requireLabel, labels, entries, Fields.find?_ofList_map, if_pos selected]

theorem mem_linkageOnly : field ∈ s.linkageOnly ↔ field ∈ s.names ∧ field ∉ s.returned := by
  rw [linkageOnly, ← not_iff_not, ← Fields.find?_eq_none_iff,
    Fields.find?_ofList_map (fun _ => ()) field]
  simp [List.mem_filter]

end Selection

namespace Position

/-- What is selected at a position: what is returned, and what children and parent are matched by. -/
theorem mem_selection_names {p : Position} {returned : List String} {links : List Link}
    {name : String} : name ∈ (p.selection returned links).names ↔
      p.format.hasField name = true ∧
        (name ∈ returned ∨ name ∈ links.map (·.parentField) ∨
          ∃ link, p.link = some link ∧ link.isManyToMany = false ∧ link.field = name) := by
  have own : name ∈ (p.link.filter (!·.isManyToMany)).toList.map (·.field) ↔
      ∃ link, p.link = some link ∧ link.isManyToMany = false ∧ link.field = name := by
    simp [Option.filter_eq_some_iff, and_assoc]
  rw [← own, ← List.mem_append, ← List.mem_append, Format.hasField_iff]
  simp only [Selection.names, selection, List.mem_map, List.mem_filter, List.contains_iff_mem]
  constructor
  · rintro ⟨f, ⟨member, wanted⟩, rfl⟩
    exact ⟨⟨f, member, rfl⟩, wanted⟩
  · rintro ⟨⟨f, member, rfl⟩, wanted⟩
    exact ⟨f, ⟨member, wanted⟩, rfl⟩

/-- What is returned are the named fields, which are known, or all fields. -/
theorem returned_eq_ok {p : Position} {fields : Option (List String)} {names : List String}
    (returned : p.returned fields = .ok names) :
    names = fields.getD (p.format.fields.map (·.name)) ∧
      ∀ name ∈ names, p.format.hasField name = true := by
  cases fields with
  | none =>
      cases returned
      refine ⟨rfl, fun name member => ?_⟩
      obtain ⟨f, known, rfl⟩ := List.mem_map.mp member
      exact Format.hasField_iff.mpr ⟨f, known, rfl⟩
  | some requested =>
      simp only [Position.returned] at returned
      cases unknown : requested.find? fun name => !p.format.hasField name with
      | some first =>
          rw [unknown] at returned
          cases returned
      | none =>
          rw [unknown] at returned
          cases returned
          exact ⟨rfl, fun name member => by simpa using List.find?_eq_none.mp unknown name member⟩

end Position

theorem exists_related {α β : Type} {related : α → β → Prop} {first : List α} {second : List β}
    (all : List.Forall₂ related first second) {a : α} (member : a ∈ first) :
    ∃ b ∈ second, related a b := by
  induction all with
  | nil => cases member
  | cons head tail ih =>
      rcases List.mem_cons.mp member with rfl | later
      · exact ⟨_, List.mem_cons_self .., head⟩
      · obtain ⟨b, inSecond, holds⟩ := ih later
        exact ⟨b, List.mem_cons_of_mem _ inSecond, holds⟩

namespace Planned

variable {catalog : Catalog} {data : List DataNode} {n : DataNode}

theorem selection_eq (planned : Planned catalog data n) : ∃ returned links,
    n.position.returned n.request.fields = .ok returned ∧
      n.selection = n.position.selection returned links := by
  obtain ⟨returned, children, known, grown, _⟩ := planned.grown
  exact ⟨returned, children.map Child.link, known, congrArg DataNode.selection grown⟩

theorem field_of_selected (planned : Planned catalog data n) {name : String}
    (selected : name ∈ n.selection.names) : n.format.hasField name = true := by
  obtain ⟨names, links, _, selection⟩ := planned.selection_eq
  rw [selection] at selected
  exact (Position.mem_selection_names.mp selected).1

/-- What a listed child is: its place, its request, and how it hangs off this node. -/
theorem child (planned : Planned catalog data n) {name : String} {id : Nat}
    (member : (name, id) ∈ n.children) :
    ∃ request, (name, request) ∈ n.request.relations ∧ ∃ link,
      ChildOf catalog data n.position (name, request) ⟨name, id, link⟩ ∧
      (n.format.hasField link.parentField = true → link.parentField ∈ n.selection.names) := by
  obtain ⟨returned, children, known, grown, hung⟩ := planned.grown
  rw [grown] at member
  obtain ⟨c, listed, same⟩ := List.mem_map.mp member
  cases same
  obtain ⟨⟨r, request⟩, below, child⟩ := exists_related hung.flip listed
  obtain rfl : c.name = r := child.name_eq
  refine ⟨request, below, c.link, child, fun known => ?_⟩
  rw [grown]
  exact Position.mem_selection_names.mpr
    ⟨known, .inr (.inl (List.mem_map.mpr ⟨c.link, List.mem_map_of_mem listed, rfl⟩))⟩

end Planned

/-- Some node lists this one as a child. -/
def Hung (catalog : Catalog) (data : List DataNode) (n : DataNode) : Prop :=
  ∃ parent name, Planned catalog data parent ∧ (name, n.id) ∈ parent.children

mutual

theorem arena_hung {catalog : Catalog} {data : List DataNode} {p : Position} :
    ∀ (request : Request) {nodes : List DataNode}, arena catalog p request = .ok nodes →
      Placed data p.id nodes → ∀ n ∈ nodes, n.position = p ∨ Hung catalog data n
  | ⟨fields, relations, query⟩, nodes, grown, placed => by
      have planned := arena_planned _ grown placed
      obtain ⟨children, others, returned, _, grownBelow, _, rfl⟩ := arena_cases grown
      refine List.forall_mem_cons.mpr ⟨.inl rfl, fun n member => .inr ?_⟩
      rcases arenaOfRelations_hung relations grownBelow placed.tail n member with listed | hung
      · obtain ⟨c, listed, same⟩ := listed
        exact ⟨_, c.name, planned _ (List.mem_cons_self ..), List.mem_map.mpr ⟨c, listed, same ▸ rfl⟩⟩
      · exact hung

theorem arenaOfRelations_hung {catalog : Catalog} {data : List DataNode} {p : Position}
    {next : Nat} :
    ∀ (relations : List (String × Request)) {children : List Child} {nodes : List DataNode},
      arenaOfRelations catalog p next relations = .ok (children, nodes) →
      Placed data next nodes →
      ∀ n ∈ nodes, (∃ c ∈ children, c.id = n.id) ∨ Hung catalog data n
  | [], children, nodes, grown, placed => by
      cases grown
      exact nofun
  | (name, request) :: rest, children, nodes, grown, placed => by
      obtain ⟨resolved, first, later, others, _, grownFirst, grownRest, rfl, rfl⟩ :=
        arenaOfRelations_cases grown
      intro n member
      rcases List.mem_append.mp member with inFirst | inOthers
      · rcases arena_hung request grownFirst placed.left n inFirst with top | hung
        · exact .inl ⟨_, List.mem_cons_self .., (congrArg Position.id top).symm⟩
        · exact .inr hung
      · rcases arenaOfRelations_hung rest grownRest placed.right n inOthers with listed | hung
        · obtain ⟨c, listed, same⟩ := listed
          exact .inl ⟨c, List.mem_cons_of_mem _ listed, same⟩
        · exact .inr hung

end

end NestedQuery
