/- What the rows of a statement are read by: each label is projected once, by no other statement, and
every label that a plan looks up in the rows is among those of their statement. -/
import Mathlib.Data.List.Nodup
import NestedQuery.Proofs.Clauses
import NestedQuery.Proofs.Safety

namespace NestedQuery

theorem Result.mapM_map_eq {α β γ δ : Type} {xs : List α} {f : α → Result β} {g : γ → β}
    {h : γ → δ} {e : α → δ} (each : ∀ x ∈ xs, ∀ y, f x = .ok y → ∃ z, y = g z ∧ h z = e x)
    {ys : List β} (done : xs.mapM f = .ok ys) :
    ∃ zs : List γ, ys = zs.map g ∧ zs.map h = xs.map e := by
  induction xs generalizing ys with
  | nil =>
      cases done
      exact ⟨[], rfl, rfl⟩
  | cons x rest ih =>
      rw [List.mapM_cons] at done
      obtain ⟨y, first, done⟩ := bind_eq_ok.mp done
      obtain ⟨later, others, done⟩ := bind_eq_ok.mp done
      cases done
      obtain ⟨head, tail⟩ := List.forall_mem_cons.mp each
      obtain ⟨z, rfl, this⟩ := head y first
      obtain ⟨zs, rfl, those⟩ := ih tail others
      exact ⟨z :: zs, rfl, by rw [List.map_cons, this, those, List.map_cons]⟩

theorem Link.plural_of_isManyToMany {link : Link} (many : link.isManyToMany = true) :
    link.relation.plural = true := by
  simp only [isManyToMany, ResolvedRelation.isManyToMany, Relation.junction?] at many
  simp only [ResolvedRelation.plural, Relation.pluralFrom]
  cases kind : link.relation.relation.kind with
  | manyToMany junction => rfl
  | oneToOne => simp [kind] at many
  | oneToMany => simp [kind] at many

theorem toList_column (i : Nat) (name : String) :
    (s!"{i}.{name}").toList = (toString i).toList ++ '.' :: name.toList := by
  change (toString i ++ "." ++ name).toList = _
  simp only [String.toList_append, List.append_assoc]
  rfl

/-- A label is cut at its first point, since a number has none. -/
theorem takeWhile_isDigit (i : Nat) (rest : List Char) :
    ((toString i).toList ++ '.' :: rest).takeWhile Char.isDigit = (toString i).toList := by
  rw [List.takeWhile_append_of_pos (isDigit_toString i)]
  exact List.append_nil _

namespace DataNode

theorem columnLabel_inj {m n : DataNode} {field other : String}
    (same : m.columnLabel field = n.columnLabel other) : m.id = n.id ∧ field = other := by
  have shown : (toString m.id).toList ++ '.' :: field.toList =
      (toString n.id).toList ++ '.' :: other.toList := by
    rw [← toList_column, ← toList_column]
    exact congrArg String.toList same
  have number : (toString m.id).toList = (toString n.id).toList := by
    rw [← takeWhile_isDigit m.id field.toList, ← takeWhile_isDigit n.id other.toList, shown]
  rw [number] at shown
  obtain ⟨_, name⟩ := List.cons.inj (List.append_cancel_left shown)
  exact ⟨toString_injective (String.toList_injective number), String.toList_injective name⟩

theorem junctionNearLabel_eq (n : DataNode) : n.junctionNearLabel = n.columnLabel "#local" := by
  apply String.toList_injective
  simp only [junctionNearLabel, columnLabel, String.toList_append, List.append_assoc]
  rfl

theorem junctionFarLabel_eq (n : DataNode) : n.junctionFarLabel = n.columnLabel "#foreign" := by
  apply String.toList_injective
  simp only [junctionFarLabel, columnLabel, String.toList_append, List.append_assoc]
  rfl

/-- The labels of a node's selected fields. -/
def fieldLabels (n : DataNode) : List String := n.selection.names.map n.columnLabel

/-- The labels of the junction's columns, if a node hangs off its parent by one. -/
def junctionLabels (n : DataNode) : List String :=
  if n.link.any (·.isManyToMany) then [n.junctionNearLabel, n.junctionFarLabel] else []

end DataNode

namespace Sql

def Piece.name? : Piece → Option String
  | .name text => some text
  | _ => none

/-- The labels of the columns that a text projects: the names after `AS`, up to the first `FROM`. -/
def Pieces.outputLabels : Pieces → List String
  | [] => []
  | .words word :: rest =>
    if word = " FROM " then []
    else if word = " AS " then (rest.head?.bind Piece.name?).toList ++ outputLabels rest
    else outputLabels rest
  | _ :: rest => outputLabels rest

theorem Item.outputLabels (i : Item) (rest : Pieces) :
    Pieces.outputLabels (i.pieces ++ rest) = i.label :: Pieces.outputLabels rest := by
  simp [Item.pieces, Column.pieces, Pieces.outputLabels, Piece.name?]

/-- A list of columns is read up to the word that ends it. -/
theorem outputLabels_separated (items : List Item) (rest : Pieces) :
    Pieces.outputLabels (Pieces.separated ", " (items.map Item.pieces) ++ .words " FROM " :: rest) =
      items.map (·.label) := by
  induction items with
  | nil => simp [Pieces.separated, Pieces.outputLabels]
  | cons i others ih =>
      cases others with
      | nil =>
          simp only [List.map_cons, List.map_nil, Pieces.separated, Item.outputLabels]
          simp [Pieces.outputLabels]
      | cons j later =>
          simp only [List.map_cons, Pieces.separated, List.append_assoc, Item.outputLabels,
            List.cons_append]
          simp only [List.map_cons] at ih
          simp [Pieces.outputLabels, ih]

namespace Shape

theorem nodeProjection_labels {n : DataNode}
    (own : ∀ field, n.selection.label field = n.columnLabel field)
    {parts : List Pieces} (rendered : nodeProjection n = .ok parts) :
    ∃ items : List Item, parts = items.map Item.pieces ∧ items.map (·.label) = n.fieldLabels := by
  refine Result.mapM_map_eq ?_ rendered
  intro field selected text given
  obtain ⟨column, _, given⟩ := Result.bind_eq_ok.mp given
  rw [Selection.requireLabel_of_mem selected, Result.ok_bind, own] at given
  exact ⟨_, Selector.pieces_labelled given, rfl⟩

theorem junction?_isSome (s : Shape) : s.junction?.isSome = s.root.link.any (·.isManyToMany) := by
  unfold junction?
  cases s.root.link with
  | none => rfl
  | some link =>
      cases many : link.isManyToMany with
      | false => simp [Option.filter, many]
      | true =>
          have junction : link.relation.junctionColumns?.isSome = true := by
            rw [ResolvedRelation.junctionColumns?, Option.isSome_map]
            exact many
          simpa [Option.filter, many] using junction

theorem junctionProjection_labels {s : Shape} {parts : List Pieces}
    (rendered : s.junctionProjection = .ok parts) :
    ∃ items : List Item, parts = items.map Item.pieces ∧
      items.map (·.label) = s.root.junctionLabels := by
  rw [DataNode.junctionLabels, ← junction?_isSome]
  unfold junctionProjection at rendered
  cases found : s.junction? with
  | none =>
      rw [found] at rendered
      cases rendered
      exact ⟨[], rfl, rfl⟩
  | some j =>
      simp only [found] at rendered
      obtain ⟨near, first, rendered⟩ := Result.bind_eq_ok.mp rendered
      obtain ⟨far, second, rendered⟩ := Result.bind_eq_ok.mp rendered
      cases rendered
      rw [Selector.pieces_labelled first, Selector.pieces_labelled second]
      exact ⟨[_, _], rfl, rfl⟩

end Shape

theorem Segment.orderFor_head (lateral isRoot : Bool) :
    ∃ rest, orderFor lateral isRoot = .head :: rest := by
  cases lateral with
  | true => exact ⟨_, rfl⟩
  | false =>
      cases isRoot with
      | true => exact ⟨_, rfl⟩
      | false => exact ⟨_, rfl⟩

end Sql

namespace Plan

open Execution

variable {s : Schema} {p : Plan} {plural : Bool} {request : Request} {k : Nat} {q : QueryNode}

/-- The labels of a statement's columns: those of its nodes' fields, then those of its junction. -/
def columnLabels (p : Plan) (q : QueryNode) : List String :=
  q.members.flatMap (fun id => (p.data[id]?).elim [] DataNode.fieldLabels)
    ++ (p.data[q.root]?).elim [] DataNode.junctionLabels

section Written

variable {shape : Sql.Shape}

theorem projection_labels (valid : p.Over s plural request) (fits : Sql.Shape.Fits s p k shape)
    {text : Sql.Pieces} (rendered : shape.projection = .ok text) :
    ∃ items : List Sql.Item, text = Sql.Pieces.separated ", " (items.map Sql.Item.pieces) ∧
      items.map (·.label) = p.columnLabels shape.query := by
  obtain ⟨fields, each, rendered⟩ := Result.bind_eq_ok.mp rendered
  obtain ⟨junction, last, rendered⟩ := Result.bind_eq_ok.mp rendered
  obtain ⟨ends, rfl, ofJunction⟩ := Sql.Shape.junctionProjection_labels last
  have groups : ∃ groups : List (List Sql.Item), fields = groups.map (List.map Sql.Item.pieces) ∧
      groups.map (List.map (·.label)) =
        shape.query.members.map fun id => (p.data[id]?).elim [] DataNode.fieldLabels := by
    refine Result.mapM_map_eq ?_ each
    intro id _ parts given
    obtain ⟨n, found, given⟩ := Result.bind_eq_ok.mp given
    rw [fits.plan_eq] at found
    have place := getElem?_of_dataNode found
    obtain ⟨items, rfl, labels⟩ :=
      Sql.Shape.nodeProjection_labels (valid.planned place).label_eq given
    exact ⟨items, rfl, by rw [labels, place]; rfl⟩
  obtain ⟨groups, rfl, ofNodes⟩ := groups
  refine ⟨groups.flatten ++ ends, ?_, ?_⟩
  · rw [List.map_append, List.map_flatten]
    exact (Except.ok.inj rendered).symm
  · rw [List.map_append, List.map_flatten, ofNodes, ofJunction, columnLabels, fits.root,
      List.flatMap_def]
    rfl

/-- Whatever follows its head, a statement projects the labels of its nodes and its junction. -/
theorem head_labels (valid : p.Over s plural request) (fits : Sql.Shape.Fits s p k shape)
    {f : Sql.Fragment} (rendered : Sql.Clause.head shape = .ok f) (rest : Sql.Pieces) :
    Sql.Pieces.outputLabels (f.pieces ++ rest) = p.columnLabels shape.query := by
  unfold Sql.Clause.head at rendered
  obtain ⟨projection, projected, rendered⟩ := Result.bind_eq_ok.mp rendered
  obtain ⟨items, rfl, labels⟩ := projection_labels valid fits projected
  have selected : ∀ more : Sql.Pieces, Sql.Pieces.outputLabels (.words "SELECT "
      :: Sql.Pieces.separated ", " (items.map Sql.Item.pieces) ++ .words " FROM " :: more) =
        p.columnLabels shape.query := by
    intro more
    rw [← labels, ← Sql.outputLabels_separated items more]
    simp [Sql.Pieces.outputLabels]
  cases found : shape.lateral with
  | none =>
      simp only [found] at rendered
      obtain ⟨source, _, rendered⟩ := Result.bind_eq_ok.mp rendered
      cases rendered
      rw [← selected (source ++ rest)]
      simp [Sql.Fragment.ofPieces]
  | some lateral =>
      simp only [found] at rendered
      obtain ⟨⟨columns, link⟩, _, rendered⟩ := Result.bind_eq_ok.mp rendered
      obtain ⟨source, _, rendered⟩ := Result.bind_eq_ok.mp rendered
      cases rendered
      simp only [Sql.Fragment.ofPieces, List.cons_append, List.nil_append, List.append_assoc]
      exact selected _

theorem anew_labels (valid : p.Over s plural request) (sound : s.Sound)
    (query : p.queries[k]? = some q) {rootQuery : Query} {batch : List Value}
    {statement : Sql.Statement}
    (rendered : Sql.Statement.anew p k rootQuery batch = .ok statement) :
    Sql.Pieces.outputLabels statement.pieces = p.columnLabels q := by
  obtain ⟨shape, shaped, rendered⟩ := Result.bind_eq_ok.mp rendered
  obtain ⟨f, whole, rendered⟩ := Result.bind_eq_ok.mp rendered
  cases rendered
  have fits := Sql.Shape.fits_of_ofPlan valid sound shaped
  cases query.symm.trans fits.query
  obtain ⟨rest, order⟩ := Sql.Segment.orderFor_head shape.isLateral shape.root.isRoot
  rw [order] at whole
  obtain ⟨head, others, first, _, rfl⟩ := Sql.renderAll_cases whole
  exact head_labels valid fits first others.pieces

end Written

section Labels

theorem mem_columnLabels {label : String} : label ∈ p.columnLabels q ↔
    (∃ id ∈ q.members, ∃ n : DataNode, p.data[id]? = some n ∧ ∃ field ∈ n.selection.names,
      n.columnLabel field = label) ∨
      ∃ m : DataNode, p.data[q.root]? = some m ∧ m.link.any (·.isManyToMany) = true ∧
        (label = m.junctionNearLabel ∨ label = m.junctionFarLabel) := by
  have ofNode : ∀ id : Nat, label ∈ (p.data[id]?).elim [] DataNode.fieldLabels ↔
      ∃ n : DataNode, p.data[id]? = some n ∧
        ∃ field ∈ n.selection.names, n.columnLabel field = label := by
    intro id
    cases p.data[id]? with
    | none => simp
    | some n => simp [DataNode.fieldLabels]
  have ofJunction : label ∈ (p.data[q.root]?).elim [] DataNode.junctionLabels ↔
      ∃ m : DataNode, p.data[q.root]? = some m ∧ m.link.any (·.isManyToMany) = true ∧
        (label = m.junctionNearLabel ∨ label = m.junctionFarLabel) := by
    cases p.data[q.root]? with
    | none => simp
    | some m =>
        by_cases many : m.link.any (·.isManyToMany) = true
        · simp [DataNode.junctionLabels, many]
        · simp [DataNode.junctionLabels, many]
  rw [columnLabels, List.mem_append, ofJunction, List.mem_flatMap]
  simp only [ofNode]

/-- Every label of a statement names one of its nodes. -/
theorem member_of_label (valid : p.Over s plural request) (query : p.queries[k]? = some q)
    {label : String} (listed : label ∈ p.columnLabels q) :
    ∃ id ∈ q.members, ∃ n, p.data[id]? = some n ∧ ∃ name, n.columnLabel name = label := by
  rcases mem_columnLabels.mp listed with
    ⟨id, member, n, place, field, _, rfl⟩ | ⟨m, place, _, rfl | rfl⟩
  · exact ⟨id, member, n, place, field, rfl⟩
  · have root : q.root ∈ q.members := valid.members_eq query ▸ List.mem_cons_self ..
    exact ⟨q.root, root, m, place, _, m.junctionNearLabel_eq.symm⟩
  · have root : q.root ∈ q.members := valid.members_eq query ▸ List.mem_cons_self ..
    exact ⟨q.root, root, m, place, _, m.junctionFarLabel_eq.symm⟩

theorem columnLabels_disjoint (valid : p.Over s plural request) {j : Nat} {r : QueryNode}
    (query : p.queries[k]? = some q) (other : p.queries[j]? = some r) (different : j ≠ k) :
    (p.columnLabels r).Disjoint (p.columnLabels q) := by
  intro label inOther inThis
  obtain ⟨a, memberA, m, placeA, _, rfl⟩ := member_of_label valid other inOther
  obtain ⟨b, memberB, n, placeB, _, same⟩ := member_of_label valid query inThis
  obtain ⟨_, _, ownerA⟩ := valid.member other memberA
  obtain ⟨_, _, ownerB⟩ := valid.member query memberB
  have sameNode : b = a := by
    rw [← valid.ids placeA, ← valid.ids placeB]
    exact (DataNode.columnLabel_inj same).1
  subst sameNode
  exact different (Option.some.inj (ownerA.symm.trans ownerB))

theorem names_nodup (valid : p.Over s plural request) (sound : s.Sound) {i : Nat} {n : DataNode}
    (place : p.data[i]? = some n) : n.selection.names.Nodup := by
  obtain ⟨returned, links, _, selection⟩ := (valid.planned place).selection_eq
  have distinct := Format.check_nodup ((valid.registered place).check sound)
  rw [selection]
  exact distinct.sublist (List.filter_sublist.map _)

/-- The names of a junction's columns are not those of fields. -/
theorem field_plain (valid : p.Over s plural request) (sound : s.Sound) {i : Nat} {n : DataNode}
    (place : p.data[i]? = some n) {field : String} (selected : field ∈ n.selection.names) :
    field ≠ "#local" ∧ field ≠ "#foreign" := by
  obtain ⟨f, member, rfl⟩ := Format.hasField_iff.mp ((valid.planned place).field_of_selected selected)
  have plain := (Format.check_plain ((valid.registered place).check sound)).name f member
  constructor
  · intro same
    rw [same] at plain
    exact absurd plain (by decide)
  · intro same
    rw [same] at plain
    exact absurd plain (by decide)

theorem columnLabels_nodup (valid : p.Over s plural request) (sound : s.Sound)
    (query : p.queries[k]? = some q) : (p.columnLabels q).Nodup := by
  have fields : (q.members.flatMap fun id => (p.data[id]?).elim [] DataNode.fieldLabels).Nodup := by
    refine List.nodup_flatMap.mpr ⟨?_, ?_⟩
    · intro id member
      obtain ⟨n, place, _⟩ := valid.member query member
      rw [place]
      exact (names_nodup valid sound place).map fun _ _ same => (DataNode.columnLabel_inj same).2
    · refine (valid.members_increasing query).imp_of_mem fun {a b} memberA memberB less => ?_
      intro label inA inB
      obtain ⟨m, placeA, _⟩ := valid.member query memberA
      obtain ⟨n, placeB, _⟩ := valid.member query memberB
      simp only [placeA, placeB, Option.elim_some, DataNode.fieldLabels, List.mem_map] at inA inB
      obtain ⟨_, _, rfl⟩ := inA
      obtain ⟨_, _, same⟩ := inB
      have sameNode := (DataNode.columnLabel_inj same).1
      rw [valid.ids placeA, valid.ids placeB] at sameNode
      omega
  obtain ⟨m, place⟩ := valid.root_found query
  have junction : m.junctionLabels.Nodup := by
    unfold DataNode.junctionLabels
    split
    · rw [m.junctionNearLabel_eq, m.junctionFarLabel_eq]
      refine List.nodup_cons.mpr ⟨?_, List.nodup_singleton _⟩
      intro same
      exact absurd (DataNode.columnLabel_inj (List.mem_singleton.mp same)).2 (by decide)
    · exact .nil
  rw [columnLabels, place]
  refine List.nodup_append'.mpr ⟨fields, junction, ?_⟩
  intro label inFields inJunction
  obtain ⟨id, member, listed⟩ := List.mem_flatMap.mp inFields
  obtain ⟨n, placeN, _⟩ := valid.member query member
  simp only [placeN, Option.elim_some, DataNode.fieldLabels, List.mem_map] at listed
  obtain ⟨field, selected, rfl⟩ := listed
  obtain ⟨near, far⟩ := field_plain valid sound placeN selected
  simp only [Option.elim_some, DataNode.junctionLabels] at inJunction
  split at inJunction
  · rw [m.junctionNearLabel_eq, m.junctionFarLabel_eq] at inJunction
    rcases List.mem_cons.mp inJunction with same | later
    · exact near (DataNode.columnLabel_inj same).2
    · exact far (DataNode.columnLabel_inj (List.mem_singleton.mp later)).2
  · cases inJunction

end Labels

/-- What is looked up in the rows of a statement: the fields of its nodes, the values that its nodes
are matched by with their parents and their children, and those that its child statements are bound
to. -/
inductive Read (p : Plan) (k : Nat) (q : QueryNode) : Result String → Prop
  | field {id : Nat} {n : DataNode} {name : String} (member : id ∈ q.members)
      (place : p.data[id]? = some n) (selected : name ∈ n.selection.names) :
      Read p k q (n.selection.requireLabel name)
  | own {m : DataNode} (below : k ≠ 0) (root : p.data[q.root]? = some m) : Read p k q m.linkLabel
  | joined {id : Nat} {m : DataNode} (absorbed : id ∈ q.absorbed) (place : p.data[id]? = some m) :
      Read p k q m.linkLabel
  | key {id childId : Nat} {n m : DataNode} {name : String} {link : Link} (member : id ∈ q.members)
      (place : p.data[id]? = some n) (listed : (name, childId) ∈ n.children)
      (child : p.data[childId]? = some m) (linked : m.link = some link) :
      Read p k q (n.selection.requireLabel link.parentField)
  | batch {c : Nat} {r : QueryNode} (query : p.queries[c]? = some r) (parent : r.parent = some k) :
      Read p k q (parentLinkLabel p c)

/-- Every label that the plan reads of a statement's rows is found, and is one of the statement's columns. -/
theorem read_listed (valid : p.Over s plural request) (sound : s.Sound)
    (query : p.queries[k]? = some q) {read : Result String} (wanted : p.Read k q read) :
    ∃ label ∈ p.columnLabels q, read = .ok label := by
  have selected : ∀ {id : Nat} {n : DataNode} {name : String}, id ∈ q.members →
      p.data[id]? = some n → name ∈ n.selection.names →
      n.columnLabel name ∈ p.columnLabels q ∧
        n.selection.requireLabel name = .ok (n.columnLabel name) := by
    intro id n name member place selected
    refine ⟨mem_columnLabels.mpr (.inl ⟨id, member, n, place, name, selected, rfl⟩), ?_⟩
    rw [Selection.requireLabel_of_mem selected, (valid.planned place).label_eq]
  cases wanted with
  | field member place known => exact ⟨_, selected member place known⟩
  | @own m below root =>
      obtain ⟨_, n, other, name, link, _, child, opened, _⟩ := valid.query_parent sound query below
      obtain rfl : m = other := Option.some.inj (root.symm.trans (opened ▸ child.found))
      have member : m.id ∈ q.members := by
        rw [valid.members_eq query, ← opened]
        exact List.mem_cons_self ..
      refine ⟨_, ?_, linkLabel_eq valid child⟩
      rw [DataNode.matchLabel]
      split
      · next many =>
          refine mem_columnLabels.mpr (.inr ⟨m, root, ?_, .inl rfl⟩)
          simpa only [child.link_eq, Option.any_some] using many
      · next direct =>
          exact (selected member child.found (child.field (Bool.eq_false_iff.mpr direct))).1
  | joined absorbed place =>
      obtain ⟨n, m, name, link, rfl, _, child, single⟩ := valid.absorbed sound query absorbed
      cases place.symm.trans child.found
      have direct : link.isManyToMany = false := by
        refine Bool.eq_false_iff.mpr fun many => ?_
        rw [child.plural_eq, Link.plural_of_isManyToMany many] at single
        cases single
      refine ⟨_, ?_, linkLabel_eq valid child⟩
      rw [DataNode.matchLabel, direct, if_neg Bool.false_ne_true]
      exact (selected (List.mem_of_mem_drop absorbed) place (child.field direct)).1
  | key member place listed child linked =>
      obtain ⟨m, link, rfl, hangs⟩ := valid.child sound place listed
      cases child.symm.trans hangs.found
      cases linked.symm.trans hangs.link_eq
      exact ⟨_, selected member place hangs.parentField⟩
  | @batch c r other parent =>
      have below : c ≠ 0 := by
        rintro rfl
        cases (valid.query_first sound other).2.1.symm.trans parent
      obtain ⟨a, n, m, name, link, place, child, root, above, owner, _⟩ :=
        valid.query_parent sound other below
      cases parent.symm.trans above
      have member : n.id ∈ q.members := (valid.parts.mem_members query).mpr owner
      exact ⟨_, (selected member place child.parentField).1,
        parentLinkLabel_eq valid place child other root⟩

/-- A node selects what the request keeps and what its children and itself are matched by. -/
structure Selects (p : Plan) (n : DataNode) : Prop where
  once : n.selection.names.Nodup
  kept : ∀ field, field ∈ n.selection.kept ↔ field ∈ n.requested n.request.fields
  selected : ∀ field, field ∈ n.selection.names ↔
    field ∈ n.selection.kept ∨
      (∃ name id m link, (name, id) ∈ n.children ∧ p.data[id]? = some m ∧ m.link = some link ∧
        link.parentField = field) ∨
      ∃ link, n.link = some link ∧ link.isManyToMany = false ∧ link.field = field

theorem selects (valid : p.Over s plural request) (sound : s.Sound) {i : Nat} {n : DataNode}
    (place : p.data[i]? = some n) : p.Selects n := by
  obtain ⟨returned, children, known, grown, hung⟩ := (valid.planned place).grown
  have selection : n.selection = n.position.selection returned (children.map Child.link) :=
    congrArg DataNode.selection grown
  obtain ⟨sameReturned, exist⟩ := Position.returned_eq_ok known
  have requested : n.requested n.request.fields = returned := by
    rw [sameReturned]
    cases n.request.fields with
    | none => rfl
    | some names => rfl
  have kept : ∀ field, field ∈ n.selection.kept ↔ field ∈ returned := by
    intro field
    rw [Selection.kept, List.mem_filter, selection, Position.mem_selection_names]
    refine ⟨fun both => List.contains_iff_mem.mp both.2, fun listed => ?_⟩
    exact ⟨⟨exist field listed, .inl listed⟩, List.contains_iff_mem.mpr listed⟩
  refine ⟨names_nodup valid sound place, fun field => requested ▸ kept field, fun field => ?_⟩
  rw [kept]
  constructor
  · intro listed
    rw [selection, Position.mem_selection_names] at listed
    obtain ⟨_, wanted | wanted | wanted⟩ := listed
    · exact .inl wanted
    · obtain ⟨link, linked, same⟩ := List.mem_map.mp wanted
      obtain ⟨c, member, rfl⟩ := List.mem_map.mp linked
      have listed : (c.name, c.id) ∈ n.children := by
        rw [congrArg DataNode.children grown]
        exact List.mem_map.mpr ⟨c, member, rfl⟩
      obtain ⟨_, _, child⟩ := exists_related hung.flip member
      obtain ⟨m, found, position, _⟩ := child.node
      exact .inr (.inl ⟨c.name, c.id, m, c.link, listed, found, child.linked position, same⟩)
    · exact .inr (.inr wanted)
  · rintro (wanted | ⟨name, id, m, link, listed, found, linked, rfl⟩ | ⟨link, linked, direct, rfl⟩)
    · rw [selection, Position.mem_selection_names]
      exact ⟨exist field wanted, .inl wanted⟩
    · obtain ⟨other, again, rfl, child⟩ := valid.child sound place listed
      cases found.symm.trans child.found
      cases linked.symm.trans child.link_eq
      exact child.parentField
    · by_cases zero : i = 0
      · subst zero
        obtain ⟨root, top⟩ := valid.top
        cases place.symm.trans top.found
        cases top.link_eq.symm.trans linked
      · obtain rfl := valid.ids place
        obtain ⟨_, _, again, _, child⟩ := valid.parent sound place zero
        cases linked.symm.trans child.link_eq
        exact child.field direct

/-- A statement of a plan can be rendered, and whatever it has been through before, it projects its
labels, each once and none of another statement's; every label that is looked up in its rows is among
them. What a node selects is what it keeps and what it is matched by. -/
theorem projection_covers (declared : s.Declared) {format : String}
    (built : build s.catalog format plural request = .ok p) :
    (∀ (k : Nat) (q : QueryNode), p.queries[k]? = some q →
      (∃ fresh, Sql.Memo.ofPlan p k = .ok fresh ∧ ∀ calls : List Sql.Memo.Call,
        (k ≠ 0 → (fresh.after calls).batch ≠ []) →
        ∃ statement, (fresh.after calls).statement.1 = .ok statement ∧
          statement.pieces.outputLabels = p.columnLabels q) ∧
      (p.columnLabels q).Nodup ∧
      (∀ (j : Nat) (r : QueryNode), p.queries[j]? = some r → j ≠ k →
        (p.columnLabels r).Disjoint (p.columnLabels q)) ∧
      ∀ read, p.Read k q read → ∃ label ∈ p.columnLabels q, read = .ok label) ∧
    ∀ (i : Nat) (n : DataNode), p.data[i]? = some n → p.Selects n := by
  have valid := build_over declared built
  have sound := declared.sound
  refine ⟨fun k q query => ⟨?_, ?_, ?_, ?_⟩, fun i n place => selects valid sound place⟩
  · obtain ⟨fresh, made⟩ := Sql.Memo.ofPlan_succeeds valid sound query
    refine ⟨fresh, made, fun calls bound => ?_⟩
    obtain ⟨statement, rendered⟩ :=
      Sql.Memo.statement_after_succeeds valid sound query made calls bound
    refine ⟨statement, rendered, ?_⟩
    rw [((Sql.Memo.coherent_ofPlan made).after calls).statement.1] at rendered
    exact anew_labels valid sound query rendered
  · exact columnLabels_nodup valid sound query
  · exact fun j r other different => columnLabels_disjoint valid query other different
  · exact fun read wanted => read_listed valid sound query wanted

/-- Articles with their author, who is joined to them, and their tags, of which each article has a page
of its own. -/
def taggedArticles : Request :=
  ⟨some ["title"], [("author", ⟨some ["name"], [], .empty⟩),
    ("tags", ⟨some ["label"], [], ⟨none, [], none, some 3⟩⟩)], .empty⟩

/-- The articles bring the values that their tags are bound to, and the tags those of the junction. -/
theorem projection_covers_taggedArticles : ∃ p q r,
    build Schema.blog.catalog "article" true taggedArticles = .ok p ∧
      p.queries[0]? = some q ∧ p.queries[1]? = some r ∧
      p.columnLabels q = ["0.id", "0.title", "0.authorId", "1.id", "1.name"] ∧
      p.columnLabels r = ["2.label", "2.#local", "2.#foreign"] ∧
      (p.columnLabels q).Nodup ∧ (p.columnLabels q).Disjoint (p.columnLabels r) ∧
      (∃ label ∈ p.columnLabels q, parentLinkLabel p 1 = .ok label) ∧
      ∃ fresh statement, Sql.Memo.ofPlan p 1 = .ok fresh ∧
        (fresh.after [.setBatch [.int 7]]).statement.1 = .ok statement ∧
        statement.pieces.outputLabels = p.columnLabels r := by
  have planned : ∃ p q r, build Schema.blog.catalog "article" true taggedArticles = .ok p ∧
      p.queries[0]? = some q ∧ p.queries[1]? = some r ∧ r.parent = some 0 ∧
      p.columnLabels q = ["0.id", "0.title", "0.authorId", "1.id", "1.name"] ∧
      p.columnLabels r = ["2.label", "2.#local", "2.#foreign"] :=
    ⟨_, _, _, rfl, rfl, rfl, rfl, rfl, rfl⟩
  obtain ⟨p, q, r, built, first, second, parent, labels, others⟩ := planned
  obtain ⟨covers, _⟩ := projection_covers Schema.blog_declared built
  obtain ⟨_, nodup, _, listed⟩ := covers 0 q first
  obtain ⟨⟨fresh, made, rendered⟩, _, disjoint, _⟩ := covers 1 r second
  obtain ⟨statement, given, same⟩ := rendered [.setBatch [.int 7]] fun _ =>
    Sql.Memo.setBatch_batch_ne_nil (List.cons_ne_nil _ _)
  exact ⟨p, q, r, built, first, second, labels, others, nodup,
    disjoint 0 q first (by decide), listed _ (.batch second parent), fresh, statement, made, given,
    same⟩

end Plan
end NestedQuery
