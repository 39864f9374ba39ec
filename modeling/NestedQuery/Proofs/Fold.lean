/- Folding flat rows gives the tree that nested loops give: groups are put together from the last
statement to the first, and fields that only serve matching are left out at the end. -/
import NestedQuery.Proofs.Grouping
import NestedQuery.Proofs.Prune

namespace NestedQuery

theorem Planned.label_eq {catalog : Catalog} {data : List DataNode} {n : DataNode}
    (planned : Planned catalog data n) (field : String) :
    n.selection.label field = n.columnLabel field := by
  obtain ⟨returned, links, _, selection⟩ := planned.selection_eq
  rw [selection]
  rfl

namespace Plan

variable {s : Schema} {p : Plan} {plural : Bool} {request : Request}

def attach (p : Plan) (below : Below) (row : Row) (id : Nat) (node : DataNode)
    (fields : Fields Tree) (c : String × Nat) : Result (Fields Tree) := do
  let child ← p.dataNode c.2
  let key ← parentKey node child row
  let value ←
    if p.isAbsorbed c.2 then
      if ← isPresent child row key then
        if id < c.2 ∧ c.2 < p.data.length then object p below row c.2
        else fail (.noDataNode c.2)
      else pure .absent
    else pure (p.related below child key)
  return Fields.insert c.1 value fields

theorem object_eq_attach (p : Plan) (below : Below) (row : Row) (id : Nat) :
    p.object below row id = (do
      let node ← p.dataNode id
      let start ← scalars node row
      let fields ← node.children.foldlM (p.attach below row id node) start
      return .object fields) := by
  rw [object]
  rfl

theorem scalars_eq {catalog : Catalog} {data : List DataNode} {n : DataNode}
    (planned : Planned catalog data n) (row : Row) :
    scalars n row = .ok (Fields.ofList (n.entries row n.selection.names)) := by
  rw [scalars, Fields.ofList, DataNode.entries, List.foldl_map]
  refine Result.foldlM_eq_ok (fun field known object => ?_) _
  rw [Selection.requireLabel_of_mem known, planned.label_eq]
  rfl

theorem parentKey_eq (valid : p.Over s plural request) {n m : DataNode} {name : String} {link : Link}
    (place : p.data[n.id]? = some n) (child : Hangs s p n name m link) (row : Row) :
    parentKey n m row = .ok (Row.link? row (n.columnLabel link.parentField)) := by
  simp only [parentKey, child.link_eq]
  rw [Selection.requireLabel_of_mem child.parentField, (valid.planned place).label_eq]
  rfl

theorem linkLabel_eq (valid : p.Over s plural request) {n m : DataNode} {name : String} {link : Link}
    (child : Hangs s p n name m link) : m.linkLabel = .ok (m.matchLabel link) := by
  simp only [DataNode.linkLabel, child.link_eq, DataNode.matchLabel]
  cases junction : link.isManyToMany with
  | true => rfl
  | false =>
      simp only [Bool.false_eq_true, if_false]
      rw [Selection.requireLabel_of_mem (child.field junction), (valid.planned child.found).label_eq]

theorem isPresent_eq (valid : p.Over s plural request) {n m : DataNode} {name : String} {link : Link}
    (child : Hangs s p n name m link) (row : Row) (key : Option Value) :
    isPresent m row key = .ok (linked (· == ·) (Row.link? row (m.matchLabel link)) key) := by
  cases key with
  | none => cases Row.link? row (m.matchLabel link) <;> rfl
  | some key =>
      rw [isPresent, linkLabel_eq valid child, Result.ok_bind]
      cases Row.link? row (m.matchLabel link) <;> rfl

/-- The groups of a statement hold for each value the objects of the rows that match it. -/
def GroupsOf (p : Plan) (rows : List (List Row)) (m : DataNode) (groups : Groups) : Prop :=
  ∀ link, m.link = some link → ∀ key, groups.find key =
    (p.matching rows Value.sameKey m link (some key)).map fun row =>
      nestedObject p rows Value.sameKey selected m row m.request

/-- The statements after the first `a` are put together. -/
def Ready (p : Plan) (rows : List (List Row)) (below : Below) (a : Nat) : Prop :=
  ∀ k q m, a < k → p.queries[k]? = some q → p.data[q.root]? = some m →
    ∃ groups, below.lookup k = some groups ∧ GroupsOf p rows m groups

theorem matching_none (rows : List (List Row)) (same : Value → Value → Bool) (m : DataNode)
    (link : Link) : p.matching rows same m link none = [] := by
  refine List.filter_eq_nil_iff.mpr fun row _ matched => ?_
  cases own : Row.link? row (m.matchLabel link) with
  | none => simp [linked, own] at matched
  | some value => simp [linked, own] at matched

section Object

variable {rows : List (List Row)} {below : Below}

/-- The group that a parent row picks is the list of matching rows. -/
theorem related_eq (valid : p.Over s plural request) {n m : DataNode} {name : String} {link : Link}
    (child : Hangs s p n name m link) (many : m.plural = true) {a : Nat}
    (owner : p.ownerOf n.id = some a) (ready : Ready p rows below a) (key : Option Value) :
    p.related below m key = .list ((p.matching rows Value.sameKey m link key).map fun row =>
      nestedObject p rows Value.sameKey selected m row m.request) := by
  obtain ⟨a', k, q, above, own, less, query, root, _⟩ := valid.owner_plural child many
  cases owner.symm.trans above
  obtain ⟨groups, found, matched⟩ := ready k q m less query (root ▸ child.found)
  cases key with
  | none => simp [related, many, matching_none]
  | some key =>
      simp only [related, own, Option.bind_some, found, many, if_true, matched link child.link_eq key]

theorem attach_eq (valid : p.Over s plural request) {n m : DataNode} {name : String} {link : Link}
    (place : p.data[n.id]? = some n) (child : Hangs s p n name m link) {a : Nat}
    (owner : p.ownerOf n.id = some a) (ready : Ready p rows below a) {row : Row}
    (single : m.plural = false → p.object below row m.id =
      .ok (nestedObject p rows Value.sameKey selected m row m.request)) (fields : Fields Tree) :
    p.attach below row n.id n fields (name, m.id) = .ok (Fields.insert name
      (nestedChild p rows Value.sameKey selected n row m link m.request) fields) := by
  simp only [attach, dataNode_eq_ok child.found, parentKey_eq valid place child, Result.ok_bind,
    valid.isAbsorbed_eq child, nestedChild]
  cases many : m.plural with
  | true =>
      simp only [Bool.not_true, Bool.false_eq_true, if_false, if_true,
        related_eq valid child many owner ready]
      rfl
  | false =>
      simp only [Bool.not_false, if_true, isPresent_eq valid child, Result.ok_bind]
      cases linked (· == ·) (Row.link? row (m.matchLabel link))
          (Row.link? row (n.columnLabel link.parentField)) with
      | true =>
          have inside := (List.getElem?_eq_some_iff.mp child.found).1
          simp only [if_true, child.after, inside, and_self, single many]
          rfl
      | false => rfl

mutual

/-- A row's object is the one that nested loops give, once the later statements are put together. -/
theorem object_eq (valid : p.Over s plural request) (sound : s.Sound) :
    ∀ (r : Request) {n : DataNode} {a : Nat} {row : Row}, p.data[n.id]? = some n → n.request = r →
      r.NamesOnce → p.ownerOf n.id = some a → Ready p rows below a →
      p.object below row n.id = .ok (nestedObject p rows Value.sameKey selected n row r)
  | ⟨fields, relations, query⟩, n, a, row, place, here, once, owner, ready => by
      have related := valid.related sound place (here ▸ once.1)
      rw [here] at related
      rw [object_eq_attach, dataNode_eq_ok place, Result.ok_bind,
        scalars_eq (valid.planned place), Result.ok_bind,
        children_eq valid sound relations place related once.2 owner ready]
      simp only [nestedObject, Fields.ofList, List.foldl_append, selected]
      rfl

theorem children_eq (valid : p.Over s plural request) (sound : s.Sound) :
    ∀ (rs : List (String × Request)) {cs : List (String × Nat)} {n : DataNode} {a : Nat} {row : Row}
      {fields : Fields Tree}, p.data[n.id]? = some n → List.Forall₂ (Related s p n) rs cs →
      Request.NamesOnceBelow rs → p.ownerOf n.id = some a → Ready p rows below a →
      cs.foldlM (p.attach below row n.id n) fields =
        .ok ((nestedRelations p rows Value.sameKey selected n row rs).foldl
          (fun fields entry => Fields.insert entry.1 entry.2 fields) fields)
  | [], cs, n, a, row, fields, place, related, once, owner, ready => by
      cases related
      rfl
  | (name, wanted) :: rest, (other, id) :: later, n, a, row, fields, place, related, once, owner,
      ready => by
      cases related with
      | cons first others =>
          obtain ⟨rfl, listed, m, link, rfl, rfl, child⟩ := first
          have single : m.plural = false → p.object below row m.id =
              .ok (nestedObject p rows Value.sameKey selected m row m.request) := by
            intro one
            refine object_eq valid sound _ child.found rfl once.1 ?_ ready
            rw [(valid.owner_single child one).1, owner]
          rw [List.foldlM_cons, attach_eq valid place child owner ready single, Result.ok_bind,
            children_eq valid sound rest place others once.2 owner ready,
            nestedRelations_cons child listed, List.foldl_cons]

end

theorem groups_eq (valid : p.Over s plural request) {n m : DataNode} {name : String} {link : Link}
    (child : Hangs s p n name m link) {table : List Row} (own : p.tableOf rows m = table)
    (objects : ∀ row, p.object below row m.id =
      .ok (nestedObject p rows Value.sameKey selected m row m.request)) :
    ∃ groups, p.groups below m table = .ok groups ∧ GroupsOf p rows m groups := by
  refine ⟨table.foldl (Groups.addRow (Row.link? · (m.matchLabel link)) fun row =>
    nestedObject p rows Value.sameKey selected m row m.request) [], ?_, ?_⟩
  · rw [groups, linkLabel_eq valid child, Result.ok_bind]
    refine Result.foldlM_eq_ok (fun row _ groups => ?_) _
    rw [Groups.addRow]
    cases Row.link? row (m.matchLabel link) with
    | none => rfl
    | some key =>
        simp only [objects]
        rfl
  · intro link' linked' key
    cases child.link_eq.symm.trans linked'
    rw [Groups.find_foldl_addRow, matching, own]
    have agree : ∀ row : Row, linked Value.sameKey (Row.link? row (m.matchLabel link)) (some key) =
        (Row.link? row (m.matchLabel link)).any (Value.sameKey · key) := by
      intro row
      cases Row.link? row (m.matchLabel link) <;> rfl
    simp only [agree]
    rfl

/-- The groups of all statements but the first ones, put together from the last one on. -/
theorem groupsOf_eq (valid : p.Over s plural request) (sound : s.Sound) (once : request.NamesOnce)
    (qs : List QueryNode) : ∀ j, qs = p.queries.drop (j + 1) →
      ∃ below, p.groupsOf rows qs = .ok below ∧ Ready p rows below j := by
  induction qs with
  | nil =>
      intro j rest
      refine ⟨[], rfl, fun k q m above query _ => ?_⟩
      have inside := (List.getElem?_eq_some_iff.mp query).1
      have short := List.drop_eq_nil_iff.mp rest.symm
      omega
  | cons q later ih =>
      intro j rest
      obtain ⟨query, others⟩ := getElem?_of_cons_eq_drop rest
      obtain ⟨below, grouped, ready⟩ := ih (j + 1) others
      rcases valid.query_cases sound query with first | ⟨_, n, m, name, link, _, child, _, root, owner⟩
      · exact absurd first.1 (Nat.succ_ne_zero j)
      · have number : q.id = j + 1 := (valid.parts.queries (j + 1) q query).1
        have own : p.tableOf rows m = (rows[j + 1]?).getD [] := by
          rw [tableOf, owner]
          rfl
        obtain ⟨groups, made, matched⟩ := groups_eq valid child own fun row =>
          object_eq valid sound m.request child.found rfl
            (valid.namesOnce sound once m.id child.found) owner ready
        refine ⟨(j + 1, groups) :: below, ?_, ?_⟩
        · rw [groupsOf, grouped, Result.ok_bind, root, dataNode_eq_ok child.found, Result.ok_bind,
            number, made]
          rfl
        · intro k q' m' above query' found
          by_cases here : k = j + 1
          · subst here
            cases query.symm.trans query'
            cases child.found.symm.trans (root ▸ found)
            exact ⟨groups, List.lookup_cons_self, matched⟩
          · obtain ⟨own', known, matched'⟩ := ready k q' m' (by omega) query' found
            refine ⟨own', ?_, matched'⟩
            rw [List.lookup_cons, beq_eq_false_iff_ne.mpr here]
            exact known

end Object

/-- Folding is nested loops that match by the keys of groups, whatever the rows are. -/
theorem fold_eq (valid : p.Over s plural request) (sound : s.Sound) (once : request.NamesOnce)
    {rows : List (List Row)} (count : rows.length = p.queries.length) :
    p.fold rows = .ok (p.nested rows Value.sameKey DataNode.requested request) := by
  obtain ⟨root, top⟩ := valid.top
  have place : p.data[root.id]? = some root := top.id_eq ▸ top.found
  obtain ⟨below, grouped, ready⟩ : ∃ below, p.groupsOf rows (p.queries.drop 1) = .ok below ∧
      Ready p rows below 0 := groupsOf_eq valid sound once _ 0 rfl
  have owner : p.ownerOf root.id = some 0 := top.id_eq ▸ valid.owner_root sound
  have objects : (rows.headD []).mapM (fun row => p.object below row root.id) = .ok
      ((rows.headD []).map fun row =>
        nestedObject p rows Value.sameKey selected root row request) := by
    refine Result.mapM_eq_ok fun row _ => ?_
    exact object_eq valid sound request place top.request_eq once owner ready
  have counted : ¬rows.length ≠ p.queries.length := fun different => different count
  simp only [fold, if_neg counted, grouped, dataNode_eq_ok top.found, Result.ok_bind, objects,
    nested, top.found]
  exact congrArg Except.ok (prune_rootTree valid sound once top _)

/-- No value that rows are grouped by is a JSON document. -/
def PlainLinks (p : Plan) (rows : List (List Row)) : Prop :=
  ∀ {m : DataNode} {link : Link} {row : Row} {value : Value}, m ∈ p.data → m.plural = true →
    m.link = some link → row ∈ p.tableOf rows m →
    Row.link? row (m.matchLabel link) = some value → value.isJson = false

theorem plainLinks_of_rows {rows : List (List Row)}
    (plain : ∀ table ∈ rows, ∀ row ∈ table, ∀ entry ∈ row, entry.2.isJson = false) :
    p.PlainLinks rows := by
  intro m link row value _ _ _ inTable own
  have found : Fields.find? (m.matchLabel link) row = some value :=
    (Option.filter_eq_some_iff.mp own).1
  rw [tableOf] at inTable
  cases table : (p.ownerOf m.id).bind (rows[·]?) with
  | none =>
      rw [table] at inTable
      cases inTable
  | some rowsOf =>
      rw [table] at inTable
      obtain ⟨k, _, fetched⟩ := Option.bind_eq_some_iff.mp table
      exact plain rowsOf (List.mem_of_getElem? fetched) row inTable _ (Fields.mem_of_find? found)

/-- Values other than JSON documents have the same key exactly if they are equal. -/
theorem agree_of_plain {rows : List (List Row)} (plain : p.PlainLinks rows) :
    Agree s p rows rows Value.sameKey (· == ·) := by
  intro n m name link row place child many member
  refine List.filter_congr fun r inTable => ?_
  cases own : Row.link? r (m.matchLabel link) with
  | none => rfl
  | some value =>
      have simple : value.isJson = false :=
        plain (List.mem_of_getElem? child.found) many child.link_eq inTable own
      cases Row.link? row (n.columnLabel link.parentField) with
      | none => rfl
      | some key => exact Value.sameKey_eq_beq simple key

/-- Folding succeeds on any rows in which no row is grouped by a JSON document, and gives the tree that
nested loops over the statements' rows give. -/
theorem fold_eq_nested (declared : s.Declared) {format : String}
    (built : build s.catalog format plural request = .ok p) (once : request.NamesOnce)
    {rows : List (List Row)} (count : rows.length = p.queries.length) (plain : p.PlainLinks rows) :
    p.fold rows = .ok (p.nested rows (· == ·) DataNode.requested request) := by
  have valid := build_over declared built
  rw [fold_eq valid declared.sound once count,
    nested_congr valid declared.sound (agree_of_plain plain) once rfl]

def titles : Request := ⟨some ["name"], [("articles", ⟨some ["title"], [], .empty⟩)], .empty⟩

theorem titles_namesOnce : titles.NamesOnce :=
  ⟨List.pairwise_singleton .., ⟨List.nodup_nil, trivial⟩, trivial⟩

/-- Two users, an article of the first one, and one of somebody else. -/
def titleRows : List (List Row) := [
  [[("0.id", .int 1), ("0.name", .text "Ann")], [("0.id", .int 2), ("0.name", .text "Bob")]],
  [[("1.authorId", .int 1), ("1.title", .text "On rows")],
    [("1.authorId", .int 3), ("1.title", .text "On lists")]]]

def titleTree : Tree := .list [
  .object [("articles", .list [.object [("title", .scalar (.text "On rows"))]]),
    ("name", .scalar (.text "Ann"))],
  .object [("articles", .list []), ("name", .scalar (.text "Bob"))]]

/-- The fields that articles and users are matched by are read, and none of them is returned. -/
theorem fold_eq_nested_titles : ∃ p, build Schema.blog.catalog "user" true titles = .ok p ∧
    p.fold titleRows = .ok titleTree := by
  have planned : ∃ p, build Schema.blog.catalog "user" true titles = .ok p ∧
      titleRows.length = p.queries.length ∧
      p.nested titleRows (· == ·) DataNode.requested titles = titleTree := ⟨_, rfl, rfl, rfl⟩
  obtain ⟨p, built, count, tree⟩ := planned
  have plain : p.PlainLinks titleRows := plainLinks_of_rows (by decide)
  refine ⟨p, built, ?_⟩
  rw [fold_eq_nested Schema.blog_declared built titles_namesOnce count plain, tree]

end Plan
end NestedQuery
