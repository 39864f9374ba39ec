/- Plans of requests that differ only in the order of their relations: they have the same nodes and the
same statements, under other numbers. -/
import Mathlib.Data.Fintype.EquivFin
import Mathlib.Data.List.Nodup
import Mathlib.Logic.Equiv.Fintype
import NestedQuery.Proofs.Prune
import NestedQuery.Proofs.Reordering

namespace NestedQuery

/-- A relation that pairs the numbers below two bounds is a permutation, and the bounds are the same. -/
theorem exists_perm {R : Nat → Nat → Prop} {m n : Nat} (total : ∀ i < m, ∃ j < n, R i j)
    (onto : ∀ j < n, ∃ i < m, R i j) (unique : ∀ {i j j' : Nat}, R i j → R i j' → j = j')
    (injective : ∀ {i i' j : Nat}, R i j → R i' j → i = i') :
    m = n ∧ ∃ π : Equiv.Perm Nat, ∀ i < m, R i (π i) := by
  choose f inF relF using total
  choose g inG relG using onto
  let e : Fin m ≃ Fin n := {
    toFun := fun i => ⟨f i i.2, inF i i.2⟩
    invFun := fun j => ⟨g j j.2, inG j j.2⟩
    left_inv := fun i => Fin.ext (injective (relG _ (inF i i.2)) (relF i i.2))
    right_inv := fun j => Fin.ext (unique (relF _ (inG j j.2)) (relG j j.2)) }
  have same : m = n := Fin.equiv_iff_eq.mp ⟨e⟩
  subst same
  refine ⟨rfl, Equiv.Perm.extendDomain e Fin.equivSubtype, fun i inside => ?_⟩
  rw [Equiv.Perm.extendDomain_apply_subtype e Fin.equivSubtype inside]
  exact relF i inside

theorem Request.NamesOnce.nodup {request : Request} (once : request.NamesOnce) :
    (request.relations.map (·.1)).Nodup := by
  obtain ⟨fields, relations, query⟩ := request
  exact once.1

/-- A node under another number, with its parent and its children under theirs. -/
structure DataNode.Renumbered (node : Nat → Nat) (n n' : DataNode) : Prop where
  id_eq : n'.id = node n.id
  format_eq : n'.format = n.format
  plural_eq : n'.plural = n.plural
  path_eq : n'.path = n.path
  link_eq : n'.link = n.link
  parent_eq : n'.parent = n.parent.map node
  child_eq : ∀ name, n'.children.lookup name = (n.children.lookup name).map node
  selection_eq : n'.selection = { n.selection with node := node n.selection.node }
  kept_eq : n'.selection.kept = n.selection.kept
  linkageOnly_eq : n'.selection.linkageOnly = n.selection.linkageOnly
  request : n.request.Reordered n'.request

/-- A statement under another number, with its nodes and its parent under theirs. -/
structure QueryNode.Renumbered (node query : Nat → Nat) (q q' : QueryNode) : Prop where
  id_eq : q'.id = query q.id
  root_eq : q'.root = node q.root
  members : q'.members.Perm (q.members.map node)
  parent_eq : q'.parent = q.parent.map query
  depth_eq : q'.depth = q.depth

/-- The plans are the same but for the numbers of their nodes and statements. -/
structure Plan.Renumbered (p p' : Plan) (node query : Equiv.Perm Nat) : Prop where
  nodes : p'.data.length = p.data.length
  queries : p'.queries.length = p.queries.length
  node_found : ∀ {i : Nat} {n : DataNode}, p.data[i]? = some n →
    ∃ n', p'.data[node i]? = some n' ∧ n.Renumbered node n'
  query_found : ∀ {k : Nat} {q : QueryNode}, p.queries[k]? = some q →
    ∃ q', p'.queries[query k]? = some q' ∧ q.Renumbered node query q'
  owner_eq : ∀ i < p.data.length, p'.ownerOf (node i) = (p.ownerOf i).map query

namespace Plan

variable {s : Schema} {p p' : Plan} {plural : Bool} {request request' : Request}

section Children

variable (valid : p.Over s plural request) (sound : s.Sound) (once : request.NamesOnce)
  {n m : DataNode} {name : String}
include valid sound once

theorem Over.children_names (place : p.data[n.id]? = some n) :
    n.children.map (·.1) = n.request.relations.map (·.1) ∧ (n.children.map (·.1)).Nodup := by
  have distinct := (valid.namesOnce sound once n.id place).nodup
  have same : n.children.map (·.1) = n.request.relations.map (·.1) := by
    refine List.forall₂_eq_eq_eq ▸ ?_
    rw [List.forall₂_map_left_iff, List.forall₂_map_right_iff]
    exact (valid.related sound place distinct).flip.imp fun _ _ related => related.1
  exact ⟨same, same ▸ distinct⟩

theorem Over.lookup_child (place : p.data[n.id]? = some n) {link : Link}
    (child : Hangs s p n name m link) : n.children.lookup name = some m.id := by
  have related := valid.related sound place (valid.namesOnce sound once n.id place).nodup
  obtain ⟨c, _, _, listed, _⟩ := exists_related related child.requested
  have distinct := (valid.children_names sound once place).2
  have same := List.inj_on_of_nodup_map distinct (Fields.mem_of_lookup listed) child.listed rfl
  exact listed.trans (congrArg some (congrArg Prod.snd same))

/-- A relation that a node requests leads to a child of that name. -/
theorem Over.lookup (place : p.data[n.id]? = some n) {wanted : Request}
    (member : (name, wanted) ∈ n.request.relations) :
    ∃ m link, n.children.lookup name = some m.id ∧ m.request = wanted ∧ Hangs s p n name m link := by
  have related := valid.related sound place (valid.namesOnce sound once n.id place).nodup
  obtain ⟨c, _, _, listed, m, link, id, same, child⟩ := exists_related related member
  exact ⟨m, link, id ▸ listed, same, child⟩

end Children

/-- Nodes at the same place: the roots, and the children of one name of nodes at the same place. -/
inductive Twin (p p' : Plan) : Nat → Nat → Prop
  | root : Twin p p' 0 0
  | child {n n' : DataNode} {c c' : Nat} {name : String} (above : Twin p p' n.id n'.id)
      (place : p.data[n.id]? = some n) (place' : p'.data[n'.id]? = some n')
      (listed : n.children.lookup name = some c) (listed' : n'.children.lookup name = some c') :
      Twin p p' c c'

theorem Twin.symm {i j : Nat} (twin : Twin p p' i j) : Twin p' p j i := by
  induction twin with
  | root => exact .root
  | child _ place place' listed listed' ih => exact .child ih place' place listed' listed

/-- What nodes at the same place have in common. -/
structure Counterpart (n n' : DataNode) : Prop where
  format_eq : n'.format = n.format
  plural_eq : n'.plural = n.plural
  link_eq : n'.link = n.link
  path_eq : n'.path = n.path
  request : n.request.Reordered n'.request

/-- Plans over one schema of requests that differ in the order of their relations. -/
structure Paired (s : Schema) (plural : Bool) (request request' : Request) (p p' : Plan) : Prop where
  sound : s.Sound
  valid : p.Over s plural request
  valid' : p'.Over s plural request'
  once : request.NamesOnce
  once' : request'.NamesOnce
  roots : ∃ root root', p.data[0]? = some root ∧ p'.data[0]? = some root' ∧ Counterpart root root'

theorem Paired.symm (paired : Paired s plural request request' p p') :
    Paired s plural request' request p' p := by
  obtain ⟨sound, valid, valid', once, once', root, root', top, top', same⟩ := paired
  refine ⟨sound, valid', valid, once', once, root', root, top', top, ?_⟩
  exact ⟨same.format_eq.symm, same.plural_eq.symm, same.link_eq.symm, same.path_eq.symm,
    same.request.symm⟩

/-- A child that is found by its name comes from the relation of that name. -/
theorem Over.listed (valid : p.Over s plural request) {n : DataNode} (place : p.data[n.id]? = some n)
    {name : String} {c : Nat} (listed : n.children.lookup name = some c) :
    ∃ (m : DataNode) (link : Link), p.data[c]? = some m ∧ n.id < c ∧
      (name, m.request) ∈ n.request.relations ∧
      s.catalog.relation n.format.name name = .ok link.relation ∧
      m.position = n.position.below c link.relation name := by
  obtain ⟨wanted, member, link, child, _⟩ := (valid.planned place).child (Fields.mem_of_lookup listed)
  obtain ⟨m, found, position, same⟩ := child.node
  exact ⟨m, link, found, child.after, same ▸ member, child.resolved, position⟩

theorem Twin.counterpart (paired : Paired s plural request request' p p') {i j : Nat}
    (twin : Twin p p' i j) :
    ∃ n n', p.data[i]? = some n ∧ p'.data[j]? = some n' ∧ Counterpart n n' := by
  induction twin with
  | root => exact paired.roots
  | @child n n' c c' name above place place' listed listed' ih =>
      obtain ⟨again, again', found, found', same⟩ := ih
      cases place.symm.trans found
      cases place'.symm.trans found'
      obtain ⟨m, link, here, _, member, resolved, position⟩ := paired.valid.listed place listed
      obtain ⟨m', link', here', _, member', resolved', position'⟩ := paired.valid'.listed place' listed'
      rw [same.format_eq] at resolved'
      have relation : link'.relation = link.relation := Except.ok.inj (resolved'.symm.trans resolved)
      rw [relation] at position'
      refine ⟨m, m', here, here', ?_⟩
      constructor
      · exact (congrArg Position.format position').trans (congrArg Position.format position).symm
      · exact (congrArg Position.plural position').trans (congrArg Position.plural position).symm
      · exact (congrArg Position.link position').trans (congrArg Position.link position).symm
      · have path : m'.path = (n'.position.below c' link.relation name).path :=
          congrArg Position.path position'
        have path₀ : m.path = (n.position.below c link.relation name).path :=
          congrArg Position.path position
        rw [path, path₀]
        simp only [Position.below, DataNode.position, same.path_eq]
      · -- the other request names the relation once, so it is the one that was matched
        obtain ⟨other, listedOther, reordered⟩ := same.request.of_mem member
        have distinct := (paired.valid'.namesOnce paired.sound paired.once' n'.id place').nodup
        cases List.inj_on_of_nodup_map distinct listedOther member' rfl
        exact reordered

/-- A node is at the same place as one other node at most. -/
theorem Twin.unique (valid : p.Over s plural request) {i j j' : Nat} (twin : Twin p p' i j)
    (other : Twin p p' i j') : j = j' := by
  induction twin generalizing j' with
  | root =>
      cases other with
      | root => rfl
      | child _ place _ listed _ =>
          obtain ⟨_, _, _, after, _⟩ := valid.listed place listed
          exact absurd after (Nat.not_lt_zero _)
  | @child n n' c c' name above place place' listed listed' ih =>
      obtain ⟨m, link, found, after, _, _, position⟩ := valid.listed place listed
      cases other with
      | root => exact absurd after (Nat.not_lt_zero _)
      | @child n₂ n₂' _ _ name₂ above₂ place₂ place₂' listed₂ listed₂' =>
          obtain ⟨m₂, link₂, found₂, _, _, _, position₂⟩ := valid.listed place₂ listed₂
          cases found.symm.trans found₂
          have same := position.symm.trans position₂
          have parent : some n.id = some n₂.id := congrArg Position.parent same
          rw [← Option.some.inj parent] at place₂ above₂
          cases place.symm.trans place₂
          have path : s!"{n.path}.{name}" = s!"{n.path}.{name₂}" := congrArg Position.path same
          have names : toString name = toString name₂ := by simpa using path
          change name = name₂ at names
          rw [← ih above₂] at place₂'
          cases place'.symm.trans place₂'
          cases names
          exact Option.some.inj (listed'.symm.trans listed₂')

/-- Every node has one at the same place. -/
theorem Paired.exists_twin (paired : Paired s plural request request' p p') {i : Nat}
    (inside : i < p.data.length) : ∃ j < p'.data.length, Twin p p' i j := by
  have some : ∃ j, Twin p p' i j := by
    induction i using Nat.strongRecOn with
    | ind i ih =>
        have found := List.getElem?_eq_getElem inside
        generalize p.data[i] = m at found
        obtain rfl := paired.valid.ids found
        by_cases first : m.id = 0
        · rw [first]
          exact ⟨0, .root⟩
        · obtain ⟨n, name, link, place, child⟩ := paired.valid.parent paired.sound found first
          obtain ⟨j, above⟩ := ih n.id child.after (List.getElem?_eq_some_iff.mp place).1
          obtain ⟨again, n', known, place', same⟩ := above.counterpart paired
          cases place.symm.trans known
          obtain rfl := paired.valid'.ids place'
          obtain ⟨other, member, _⟩ := same.request.of_mem child.requested
          obtain ⟨m', _, listed', _⟩ := paired.valid'.lookup paired.sound paired.once' place' member
          have listed := paired.valid.lookup_child paired.sound paired.once place child
          exact ⟨m'.id, .child above place place' listed listed'⟩
  obtain ⟨j, twin⟩ := some
  obtain ⟨_, _, _, found', _⟩ := twin.counterpart paired
  exact ⟨j, (List.getElem?_eq_some_iff.mp found').1, twin⟩

/-- Parents of nodes at the same place are at the same place. -/
theorem Twin.parent (paired : Paired s plural request request' p p') {i j : Nat}
    (twin : Twin p p' i j) {m m' : DataNode} (found : p.data[i]? = some m)
    (found' : p'.data[j]? = some m') : (m.parent = none ∧ m'.parent = none) ∨
      ∃ a b, m.parent = some a ∧ m'.parent = some b ∧ Twin p p' a b := by
  cases twin with
  | root =>
      obtain ⟨root, top⟩ := paired.valid.top
      obtain ⟨root', top'⟩ := paired.valid'.top
      cases top.found.symm.trans found
      cases top'.found.symm.trans found'
      exact .inl ⟨top.parent_eq, top'.parent_eq⟩
  | child above place place' listed listed' =>
      obtain ⟨again, _, here, _, _, _, position⟩ := paired.valid.listed place listed
      obtain ⟨again', _, here', _, _, _, position'⟩ := paired.valid'.listed place' listed'
      cases found.symm.trans here
      cases found'.symm.trans here'
      exact .inr ⟨_, _, congrArg Position.parent position, congrArg Position.parent position', above⟩

/-- Children of one name of nodes at the same place. -/
theorem Twin.lookup (paired : Paired s plural request request' p p') {n n' : DataNode}
    (twin : Twin p p' n.id n'.id) (place : p.data[n.id]? = some n)
    (place' : p'.data[n'.id]? = some n') {name : String} {c : Nat}
    (listed : n.children.lookup name = some c) :
    ∃ c', n'.children.lookup name = some c' ∧ Twin p p' c c' := by
  obtain ⟨again, again', found, found', same⟩ := twin.counterpart paired
  cases place.symm.trans found
  cases place'.symm.trans found'
  obtain ⟨m, _, _, _, member, _⟩ := paired.valid.listed place listed
  obtain ⟨other, member', _⟩ := same.request.of_mem member
  obtain ⟨m', _, listed', _⟩ := paired.valid'.lookup paired.sound paired.once' place' member'
  exact ⟨m'.id, listed', .child twin place place' listed listed'⟩

/-- The fields that children are matched by are those of the relations that a node names. -/
theorem mem_parentFields {catalog : Catalog} {data : List DataNode} {n : DataNode}
    {children : List Child}
    (hung : List.Forall₂ (ChildOf catalog data n.position) n.request.relations children)
    {field : String} : field ∈ (children.map (·.link)).map (·.parentField) ↔
      ∃ name ∈ n.request.relations.map (·.1), ∃ resolved : ResolvedRelation,
        catalog.relation n.format.name name = .ok resolved ∧ resolved.localField.field = field := by
  rw [List.map_map, List.mem_map]
  constructor
  · rintro ⟨c, listed, rfl⟩
    obtain ⟨r, member, child⟩ := exists_related hung.flip listed
    exact ⟨r.1, List.mem_map_of_mem member, c.link.relation, child.resolved, child.parentField_eq.symm⟩
  · rintro ⟨name, named, resolved, known, rfl⟩
    obtain ⟨r, member, rfl⟩ := List.mem_map.mp named
    obtain ⟨c, listed, child⟩ := exists_related hung member
    have same : c.link.relation = resolved := Except.ok.inj (child.resolved.symm.trans known)
    exact ⟨c, listed, child.parentField_eq.trans (congrArg (·.localField.field) same)⟩

/-- Nodes at the same place select the same fields. -/
theorem Counterpart.selection_eq {catalog : Catalog} {data data' : List DataNode} {n n' : DataNode}
    (same : Counterpart n n') (planned : Planned catalog data n) (planned' : Planned catalog data' n') :
    n'.selection = { n.selection with node := n'.id } := by
  obtain ⟨returned, children, known, grown, hung⟩ := planned.grown
  obtain ⟨returned', children', known', grown', hung'⟩ := planned'.grown
  have selection : n.selection = n.position.selection returned (children.map (·.link)) :=
    congrArg DataNode.selection grown
  have selection' : n'.selection = n'.position.selection returned' (children'.map (·.link)) :=
    congrArg DataNode.selection grown'
  have names : returned' = returned := by
    rw [(Position.returned_eq_ok known).1, (Position.returned_eq_ok known').1, same.request.fields_eq]
    simp only [DataNode.position, same.format_eq]
  have matched : ∀ field, field ∈ (children'.map (·.link)).map (·.parentField) ↔
      field ∈ (children.map (·.link)).map (·.parentField) := by
    intro field
    rw [mem_parentFields hung, mem_parentFields hung', same.format_eq]
    exact exists_congr fun name => and_congr_left' same.request.names.mem_iff
  rw [selection, selection', names]
  simp only [Position.selection, DataNode.position, same.format_eq, same.link_eq]
  congr 1
  refine List.filter_congr fun f _ => ?_
  rw [Bool.eq_iff_iff]
  simp only [List.contains_iff_mem, List.mem_append, matched]

/-- Statements whose roots are at the same place. -/
def TwinQuery (p p' : Plan) (k k' : Nat) : Prop :=
  ∃ q q', p.queries[k]? = some q ∧ p'.queries[k']? = some q' ∧ Twin p p' q.root q'.root

theorem TwinQuery.symm {k k' : Nat} (twin : TwinQuery p p' k k') : TwinQuery p' p k' k := by
  obtain ⟨q, q', query, query', roots⟩ := twin
  exact ⟨q', q, query', query, roots.symm⟩

theorem TwinQuery.unique (valid : p.Over s plural request) (valid' : p'.Over s plural request')
    {k k₁ k₂ : Nat} (twin : TwinQuery p p' k k₁) (other : TwinQuery p p' k k₂) : k₁ = k₂ := by
  obtain ⟨q, q₁, query, query₁, roots₁⟩ := twin
  obtain ⟨again, q₂, query', query₂, roots₂⟩ := other
  cases query.symm.trans query'
  have same := roots₁.unique valid roots₂
  have owner₁ := (valid'.parts.queries k₁ q₁ query₁).2.1
  have owner₂ := (valid'.parts.queries k₂ q₂ query₂).2.1
  rw [same] at owner₁
  exact Option.some.inj (owner₁.symm.trans owner₂)

/-- Nodes at the same place belong to statements whose roots are. -/
theorem Twin.owner (paired : Paired s plural request request' p p') {i j : Nat}
    (twin : Twin p p' i j) :
    ∃ k k', p.ownerOf i = some k ∧ p'.ownerOf j = some k' ∧ TwinQuery p p' k k' := by
  have valid := paired.valid
  have valid' := paired.valid'
  induction twin with
  | root =>
      obtain ⟨q, query⟩ := valid.first_query
      obtain ⟨q', query'⟩ := valid'.first_query
      refine ⟨0, 0, valid.owner_root paired.sound, valid'.owner_root paired.sound, q, q', query,
        query', ?_⟩
      rw [(valid.query_first paired.sound query).1, (valid'.query_first paired.sound query').1]
      exact .root
  | @child n n' c c' name above place place' listed listed' ih =>
      have here := Twin.child above place place' listed listed'
      obtain ⟨m, link, rfl, child⟩ := valid.child paired.sound place (Fields.mem_of_lookup listed)
      obtain ⟨m', link', rfl, child'⟩ := valid'.child paired.sound place' (Fields.mem_of_lookup listed')
      obtain ⟨again, again', found, found', same⟩ := here.counterpart paired
      cases child.found.symm.trans found
      cases child'.found.symm.trans found'
      cases many : m.plural with
      | true =>
          obtain ⟨_, k, q, _, owner, _, query, root, _⟩ := valid.owner_plural child many
          obtain ⟨_, k', q', _, owner', _, query', root', _⟩ :=
            valid'.owner_plural child' (same.plural_eq.trans many)
          exact ⟨k, k', owner, owner', q, q', query, query', by rwa [root, root']⟩
      | false =>
          obtain ⟨k, k', owner, owner', queries⟩ := ih
          refine ⟨k, k', ?_, ?_, queries⟩
          · rw [(valid.owner_single child many).1, owner]
          · rw [(valid'.owner_single child' (same.plural_eq.trans many)).1, owner']

theorem Paired.exists_twinQuery (paired : Paired s plural request request' p p') {k : Nat}
    (inside : k < p.queries.length) : ∃ k' < p'.queries.length, TwinQuery p p' k k' := by
  have query := List.getElem?_eq_getElem inside
  obtain ⟨root, found⟩ := paired.valid.root_found query
  obtain ⟨j, _, twin⟩ := paired.exists_twin (List.getElem?_eq_some_iff.mp found).1
  obtain ⟨own, k', owner, _, queries⟩ := twin.owner paired
  cases ((paired.valid.parts.queries k _ query).2.1).symm.trans owner
  refine ⟨k', ?_, queries⟩
  obtain ⟨_, q', _, query', _⟩ := queries
  exact (List.getElem?_eq_some_iff.mp query').1

theorem TwinQuery.root (paired : Paired s plural request request' p p') : TwinQuery p p' 0 0 := by
  obtain ⟨k, k', owner, owner', queries⟩ := Twin.root.owner paired
  cases owner.symm.trans (paired.valid.owner_root paired.sound)
  cases owner'.symm.trans (paired.valid'.owner_root paired.sound)
  exact queries

/-- Parents of statements whose roots are at the same place are such statements, too. -/
theorem TwinQuery.parent (paired : Paired s plural request request' p p') {k k' : Nat}
    (twin : TwinQuery p p' k k') {q q' : QueryNode} (query : p.queries[k]? = some q)
    (query' : p'.queries[k']? = some q') : (q.parent = none ∧ q'.parent = none) ∨
      ∃ a b, q.parent = some a ∧ q'.parent = some b ∧ TwinQuery p p' a b := by
  have valid := paired.valid
  have valid' := paired.valid'
  have root := TwinQuery.root paired
  by_cases first : k = 0
  · subst first
    cases twin.unique valid valid' root
    exact .inl ⟨(valid.query_first paired.sound query).2.1, (valid'.query_first paired.sound query').2.1⟩
  · have below : k' ≠ 0 := by
      rintro rfl
      exact first (twin.symm.unique valid' valid root.symm)
    obtain ⟨a, n, m, _, _, _, child, opened, parent, owner, _⟩ :=
      valid.query_parent paired.sound query first
    obtain ⟨a', n', m', _, _, _, child', opened', parent', owner', _⟩ :=
      valid'.query_parent paired.sound query' below
    obtain ⟨again, again', found, found', roots⟩ := twin
    cases query.symm.trans found
    cases query'.symm.trans found'
    rw [opened, opened'] at roots
    rcases roots.parent paired child.found child'.found with none | ⟨i, j, above, above', parents⟩
    · cases none.1.symm.trans child.parent_eq
    · cases above.symm.trans child.parent_eq
      cases above'.symm.trans child'.parent_eq
      obtain ⟨b, b', own, own', queries⟩ := parents.owner paired
      cases owner.symm.trans own
      cases owner'.symm.trans own'
      exact .inr ⟨a, a', parent, parent', queries⟩

theorem TwinQuery.depth (paired : Paired s plural request request' p p') {k k' : Nat}
    (twin : TwinQuery p p' k k') {q q' : QueryNode} (query : p.queries[k]? = some q)
    (query' : p'.queries[k']? = some q') : q'.depth = q.depth := by
  have valid := paired.valid
  have valid' := paired.valid'
  generalize deep : q.depth = d
  induction d generalizing k k' q q' with
  | zero =>
      rcases twin.parent paired query query' with ⟨_, none⟩ | ⟨a, b, parent, _, _⟩
      · by_cases first : k' = 0
        · subst first
          exact (valid'.query_first paired.sound query').2.2
        · obtain ⟨_, _, _, _, _, _, _, _, parent, _⟩ := valid'.query_parent paired.sound query' first
          cases none.symm.trans parent
      · obtain ⟨above, _, less⟩ := valid.depth_parent query parent
        omega
  | succ d ih =>
      rcases twin.parent paired query query' with ⟨none, _⟩ | ⟨a, b, parent, parent', parents⟩
      · by_cases first : k = 0
        · subst first
          have top := (valid.query_first paired.sound query).2.2
          omega
        · obtain ⟨_, _, _, _, _, _, _, _, parent, _⟩ := valid.query_parent paired.sound query first
          cases none.symm.trans parent
      · obtain ⟨above, found, less⟩ := valid.depth_parent query parent
        obtain ⟨above', found', less'⟩ := valid'.depth_parent query' parent'
        have same := ih parents found found' (by omega)
        omega

theorem Twin.renumbered (paired : Paired s plural request request' p p') {node : Nat → Nat}
    (twins : ∀ i < p.data.length, Twin p p' i (node i)) {i j : Nat} (twin : Twin p p' i j)
    {n n' : DataNode} (found : p.data[i]? = some n) (found' : p'.data[j]? = some n') :
    n.Renumbered node n' := by
  have valid := paired.valid
  have valid' := paired.valid'
  have moved : ∀ {a b : Nat}, Twin p p' a b → node a = b := by
    intro a b twin
    obtain ⟨m, _, place, _⟩ := twin.counterpart paired
    exact (twins a (List.getElem?_eq_some_iff.mp place).1).unique valid twin
  obtain rfl := valid.ids found
  obtain rfl := valid'.ids found'
  obtain ⟨again, again', known, known', same⟩ := twin.counterpart paired
  cases found.symm.trans known
  cases found'.symm.trans known'
  have own : n.selection.node = n.id := by
    obtain ⟨_, _, _, selection⟩ := (valid.planned found).selection_eq
    rw [selection]
    rfl
  have selection : n'.selection = { n.selection with node := node n.selection.node } := by
    rw [own, moved twin]
    exact same.selection_eq (valid.planned found) (valid'.planned found')
  constructor
  · exact (moved twin).symm
  · exact same.format_eq
  · exact same.plural_eq
  · exact same.path_eq
  · exact same.link_eq
  · rcases twin.parent paired found found' with ⟨none, none'⟩ | ⟨a, b, parent, parent', above⟩
    · rw [none, none']
      rfl
    · rw [parent, parent', Option.map_some, moved above]
  · intro name
    cases listed : n.children.lookup name with
    | some c =>
        obtain ⟨c', listed', child⟩ := twin.lookup paired found found' listed
        rw [listed', Option.map_some, moved child]
    | none =>
        cases listed' : n'.children.lookup name with
        | none => rfl
        | some c' =>
            obtain ⟨c, again, _⟩ := twin.symm.lookup paired.symm found' found listed'
            cases listed.symm.trans again
  · exact selection
  · rw [selection]
    rfl
  · rw [selection]
    rfl
  · exact same.request

theorem Over.mem_members (valid : p.Over s plural request) {k : Nat} {q : QueryNode}
    (query : p.queries[k]? = some q) {i : Nat} :
    i ∈ q.members ↔ i < p.data.length ∧ p.ownerOf i = some k := by
  rw [(valid.parts.queries k q query).2.2, List.mem_filter, List.mem_range, List.length_map,
    beq_iff_eq]
  exact Iff.rfl

section Permuted

variable (paired : Paired s plural request request' p p') {node query : Equiv.Perm Nat}
  (twins : ∀ i < p.data.length, Twin p p' i (node i))
  (twinQueries : ∀ k < p.queries.length, TwinQuery p p' k (query k))
include paired twinQueries

theorem Paired.query_eq {k k' : Nat} (twin : TwinQuery p p' k k') : query k = k' := by
  have here := twin
  obtain ⟨q, _, found, _⟩ := here
  exact (twinQueries k (List.getElem?_eq_some_iff.mp found).1).unique paired.valid paired.valid' twin

include twins

theorem Paired.owner_eq {i : Nat} (inside : i < p.data.length) :
    p'.ownerOf (node i) = (p.ownerOf i).map query := by
  obtain ⟨k, k', owner, owner', twin⟩ := (twins i inside).owner paired
  rw [owner, owner', Option.map_some, paired.query_eq twinQueries twin]

/-- The nodes of a statement are those at the places of the other one's. -/
theorem Paired.members_perm {k : Nat} {q q' : QueryNode} (found : p.queries[k]? = some q)
    (found' : p'.queries[query k]? = some q') : q'.members.Perm (q.members.map node) := by
  have distinct := (paired.valid.members_increasing found).imp Nat.ne_of_lt
  have distinct' := (paired.valid'.members_increasing found').imp Nat.ne_of_lt
  refine (List.perm_ext_iff_of_nodup distinct' (.map node.injective distinct)).mpr fun j => ?_
  rw [paired.valid'.mem_members found', List.mem_map]
  constructor
  · rintro ⟨inside', owner⟩
    obtain ⟨i, inside, twin⟩ := paired.symm.exists_twin inside'
    obtain rfl : node i = j := (twins i inside).unique paired.valid twin.symm
    rw [paired.owner_eq twins twinQueries inside] at owner
    obtain ⟨k', own, same⟩ := Option.map_eq_some_iff.mp owner
    cases query.injective same
    exact ⟨i, (paired.valid.mem_members found).mpr ⟨inside, own⟩, rfl⟩
  · rintro ⟨i, member, rfl⟩
    obtain ⟨inside, owner⟩ := (paired.valid.mem_members found).mp member
    obtain ⟨_, _, _, place', _⟩ := (twins i inside).counterpart paired
    refine ⟨(List.getElem?_eq_some_iff.mp place').1, ?_⟩
    rw [paired.owner_eq twins twinQueries inside, owner, Option.map_some]

theorem TwinQuery.renumbered {k : Nat} {q q' : QueryNode} (found : p.queries[k]? = some q)
    (found' : p'.queries[query k]? = some q') : q.Renumbered node query q' := by
  have twin := twinQueries k (List.getElem?_eq_some_iff.mp found).1
  constructor
  · rw [(paired.valid.parts.queries k q found).1]
    exact (paired.valid'.parts.queries _ q' found').1
  · obtain ⟨_, _, again, again', roots⟩ := twin
    cases found.symm.trans again
    cases found'.symm.trans again'
    obtain ⟨root, opened⟩ := paired.valid.root_found found
    have moved := twins q.root (List.getElem?_eq_some_iff.mp opened).1
    exact roots.unique paired.valid moved
  · exact paired.members_perm twins twinQueries found found'
  · rcases twin.parent paired found found' with ⟨none, none'⟩ | ⟨a, b, parent, parent', above⟩
    · rw [none, none']
      rfl
    · rw [parent, parent', Option.map_some, paired.query_eq twinQueries above]
  · exact twin.depth paired found found'

end Permuted

/-- Plans of requests that differ in the order of their relations differ in their numbers only. -/
theorem Paired.renumbered (paired : Paired s plural request request' p p') :
    ∃ node query : Equiv.Perm Nat, Renumbered p p' node query := by
  have valid := paired.valid
  have valid' := paired.valid'
  obtain ⟨nodes, node, twins⟩ := exists_perm (R := Twin p p') (fun i => paired.exists_twin)
    (fun j inside => (paired.symm.exists_twin inside).imp fun i twin => ⟨twin.1, twin.2.symm⟩)
    (fun one other => one.unique valid other) (fun one other => one.symm.unique valid' other.symm)
  obtain ⟨queries, query, twinQueries⟩ := exists_perm (R := TwinQuery p p')
    (fun k => paired.exists_twinQuery)
    (fun k inside => (paired.symm.exists_twinQuery inside).imp fun i twin => ⟨twin.1, twin.2.symm⟩)
    (fun one other => one.unique valid valid' other)
    (fun one other => one.symm.unique valid' valid other.symm)
  refine ⟨node, query, nodes.symm, queries.symm, ?_, ?_, ?_⟩
  · intro i n found
    have twin := twins i (List.getElem?_eq_some_iff.mp found).1
    obtain ⟨_, n', _, found', _⟩ := twin.counterpart paired
    exact ⟨n', found', twin.renumbered paired twins found found'⟩
  · intro k q found
    obtain ⟨_, q', _, found', _⟩ := twinQueries k (List.getElem?_eq_some_iff.mp found).1
    exact ⟨q', found', TwinQuery.renumbered paired twins twinQueries found found'⟩
  · exact fun i inside => paired.owner_eq twins twinQueries inside

end Plan
end NestedQuery
