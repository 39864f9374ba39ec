/- Rows under the numbers of another plan. When the plans belong to requests that differ in the order of
their relations, both fold their rows to one tree. -/
import NestedQuery.Proofs.Fold
import NestedQuery.Proofs.Projection
import NestedQuery.Proofs.Renumbering

namespace NestedQuery

/-- The label of a column under another number. Only a label that starts with a number and a point is
changed. -/
def relabel (node : Nat → Nat) (label : String) : String :=
  let digits := label.toList.takeWhile Char.isDigit
  let rest := label.toList.dropWhile Char.isDigit
  let i := Nat.ofDigitChars 10 digits 0
  if (toString i).toList = digits ∧ rest.head? = some '.' then toString (node i) ++ String.ofList rest
  else label

section Label

theorem relabel_column (node : Nat → Nat) (i : Nat) (field : String) :
    relabel node s!"{i}.{field}" = s!"{node i}.{field}" := by
  have chars := toList_column i field
  generalize s!"{i}.{field}" = label at chars ⊢
  have digits : label.toList.takeWhile Char.isDigit = (toString i).toList := by
    rw [chars, takeWhile_isDigit]
  have rest : label.toList.dropWhile Char.isDigit = '.' :: field.toList := by
    rw [chars, List.dropWhile_append_of_pos (isDigit_toString i), List.dropWhile_cons_of_neg (by decide)]
  have read : Nat.ofDigitChars 10 (toString i).toList 0 = i := by
    rw [Nat.toString_eq_ofList_toDigits, String.toList_ofList, Nat.ofDigitChars_ten_toDigits]
  apply String.toList_injective
  rw [toList_column, relabel]
  simp only [digits, rest, read, List.head?_cons, and_self, if_true, String.toList_append,
    String.toList_ofList]

theorem relabel_cases (label : String) :
    (∃ (i : Nat) (field : String), label = s!"{i}.{field}") ∨ ∀ node, relabel node label = label := by
  generalize number : Nat.ofDigitChars 10 (label.toList.takeWhile Char.isDigit) 0 = i
  by_cases column : (toString i).toList = label.toList.takeWhile Char.isDigit ∧
      (label.toList.dropWhile Char.isDigit).head? = some '.'
  · obtain ⟨digits, point⟩ := column
    obtain ⟨field, rest⟩ := List.head?_eq_some_iff.mp point
    refine .inl ⟨i, String.ofList field, String.toList_injective ?_⟩
    rw [toList_column, String.toList_ofList, digits, ← rest, List.takeWhile_append_dropWhile]
  · exact .inr fun node => by simp only [relabel, number, if_neg column]

theorem relabel_relabel (node other : Nat → Nat) (label : String) :
    relabel other (relabel node label) = relabel (other ∘ node) label := by
  rcases relabel_cases label with ⟨i, field, rfl⟩ | kept
  · rw [relabel_column, relabel_column, relabel_column]
    rfl
  · rw [kept, kept, kept]

theorem relabel_id (label : String) : relabel id label = label := by
  rcases relabel_cases label with ⟨i, field, rfl⟩ | kept
  · exact relabel_column id i field
  · exact kept id

theorem relabel_injective (node : Equiv.Perm Nat) : Function.Injective (relabel node) := by
  refine Function.LeftInverse.injective (g := relabel node.symm) fun label => ?_
  rw [relabel_relabel, Equiv.symm_comp_self, relabel_id]

end Label

/-- The row with its columns under other numbers. Of two columns of one name the first one is read, so
it is put in last. -/
def Row.relabel (node : Nat → Nat) (row : Row) : Row :=
  Fields.ofList (row.map fun column => (NestedQuery.relabel node column.1, column.2)).reverse

theorem Row.find?_relabel (node : Equiv.Perm Nat) (row : Row) (label : String) :
    Fields.find? (NestedQuery.relabel node label) (row.relabel node) = Fields.find? label row := by
  have same : ((fun column : String × Value => column.1 == NestedQuery.relabel node label) ∘
      fun column : String × Value => (NestedQuery.relabel node column.1, column.2)) =
        fun column => column.1 == label := by
    funext column
    rw [Function.comp_apply, Bool.eq_iff_iff, beq_iff_eq, beq_iff_eq]
    exact (relabel_injective node).eq_iff
  rw [Row.relabel, Fields.ofList, Fields.find?_foldl_insert, Fields.find?_nil, Option.or_none,
    List.reverse_reverse, List.find?_map, same, Fields.find?_eq_map, Option.map_map]
  rfl

/-- The tables under the numbers of other statements, with their columns under those of other nodes. -/
def relabelTables (node query : Equiv.Perm Nat) (rows : List (List Row)) : List (List Row) :=
  (List.range rows.length).map fun k => ((rows[query.symm k]?).getD []).map (Row.relabel node)

theorem length_relabelTables (node query : Equiv.Perm Nat) (rows : List (List Row)) :
    (relabelTables node query rows).length = rows.length := by
  rw [relabelTables, List.length_map, List.length_range]

theorem getElem?_relabelTables (node query : Equiv.Perm Nat) {rows : List (List Row)} {k : Nat}
    (inside : query k < rows.length) :
    (relabelTables node query rows)[query k]? = some (((rows[k]?).getD []).map (Row.relabel node)) := by
  rw [relabelTables, List.getElem?_map, List.getElem?_range inside, Option.map_some,
    Equiv.symm_apply_apply]

namespace DataNode.Renumbered

variable {node : Equiv.Perm Nat} {n n' : DataNode} (renumbered : n.Renumbered node n')
include renumbered

theorem columnLabel_eq (field : String) :
    n'.columnLabel field = relabel node (n.columnLabel field) := by
  rw [columnLabel, columnLabel, relabel_column, renumbered.id_eq]

theorem link?_columnLabel (row : Row) (field : String) :
    Row.link? (row.relabel node) (n'.columnLabel field) = Row.link? row (n.columnLabel field) := by
  rw [renumbered.columnLabel_eq, Row.link?, Row.link?, Row.find?_relabel]

theorem link?_matchLabel (row : Row) (link : Link) :
    Row.link? (row.relabel node) (n'.matchLabel link) = Row.link? row (n.matchLabel link) := by
  rw [matchLabel, matchLabel, junctionNearLabel_eq, junctionNearLabel_eq, ← apply_ite, ← apply_ite]
  exact renumbered.link?_columnLabel row _

theorem entries_eq (row : Row) (fields : List String) :
    n'.entries (row.relabel node) fields = n.entries row fields := by
  simp only [entries, renumbered.columnLabel_eq, Row.find?_relabel]

theorem requested_eq : n'.requested = n.requested := by
  funext fields
  cases fields with
  | none => rw [requested, requested, renumbered.format_eq]
  | some names => rfl

end DataNode.Renumbered

namespace Plan

variable {s : Schema} {p p' : Plan} {plural : Bool} {request request' : Request}
  {node query : Equiv.Perm Nat}

theorem nestedRelations_perm {rows : List (List Row)} {same : Value → Value → Bool}
    {shown : DataNode → Option (List String) → List String} (n : DataNode) (row : Row)
    {relations others : List (String × Request)} (perm : relations.Perm others) :
    (nestedRelations p rows same shown n row relations).Perm
      (nestedRelations p rows same shown n row others) := by
  induction perm with
  | nil => exact .nil
  | cons r _ ih => exact ih.cons _
  | swap r r' rest => exact .swap ..
  | trans _ _ ih ih' => exact ih.trans ih'

/-- Each node's table is the one of the node that it is renumbered from. -/
theorem Renumbered.tableOf_eq (renumbered : p.Renumbered p' node query)
    (valid : p.Over s plural request) {rows : List (List Row)} (count : rows.length = p.queries.length)
    {n n' : DataNode} (place : p.data[n.id]? = some n) (same : n.Renumbered node n') :
    p'.tableOf (relabelTables node query rows) n' = (p.tableOf rows n).map (Row.relabel node) := by
  obtain ⟨k, q, owner, found, _⟩ := valid.owner place
  obtain ⟨q', found', _⟩ := renumbered.query_found found
  have inside : query k < rows.length := by
    rw [count, ← renumbered.queries]
    exact (List.getElem?_eq_some_iff.mp found').1
  rw [tableOf, tableOf, same.id_eq,
    renumbered.owner_eq n.id (List.getElem?_eq_some_iff.mp place).1, owner, Option.map_some,
    Option.bind_some, Option.bind_some, getElem?_relabelTables node query inside, Option.getD_some]

theorem Renumbered.matching_eq (renumbered : p.Renumbered p' node query)
    (valid : p.Over s plural request) {rows : List (List Row)} (count : rows.length = p.queries.length)
    {like : Value → Value → Bool} {m m' : DataNode} (place : p.data[m.id]? = some m)
    (same : m.Renumbered node m') (link : Link) (key : Option Value) :
    p'.matching (relabelTables node query rows) like m' link key =
      (p.matching rows like m link key).map (Row.relabel node) := by
  rw [matching, renumbered.tableOf_eq valid count place same, List.filter_map, matching]
  congr 2
  funext row
  rw [Function.comp_apply, same.link?_matchLabel]

/-- A relation leads to children that are renumbered as well. -/
theorem Paired.children (paired : Paired s plural request request' p p')
    (renumbered : p.Renumbered p' node query) {n n' : DataNode} (place : p.data[n.id]? = some n)
    (place' : p'.data[n'.id]? = some n') (same : n.Renumbered node n') {name : String}
    {wanted other : Request} (member : (name, wanted) ∈ n.request.relations)
    (member' : (name, other) ∈ n'.request.relations) :
    ∃ m m' link, n.children.lookup name = some m.id ∧ n'.children.lookup name = some m'.id ∧
      m.request = wanted ∧ m'.request = other ∧ Hangs s p n name m link ∧ Hangs s p' n' name m' link ∧
        m.Renumbered node m' := by
  obtain ⟨m, link, listed, asked, child⟩ := paired.valid.lookup paired.sound paired.once place member
  obtain ⟨m', link', listed', asked', child'⟩ :=
    paired.valid'.lookup paired.sound paired.once' place' member'
  obtain ⟨found, known, below⟩ := renumbered.node_found child.found
  have id : m'.id = node m.id := by
    have moved := same.child_eq name
    rw [listed, listed'] at moved
    exact Option.some.inj moved
  rw [← id] at known
  cases child'.found.symm.trans known
  have links := below.link_eq
  rw [child.link_eq, child'.link_eq] at links
  cases links
  exact ⟨m, m', link, listed, listed', asked, asked', child, child', below⟩

section Nested

variable {rows : List (List Row)} {like : Value → Value → Bool}

theorem Paired.nestedChild_eq (paired : Paired s plural request request' p p')
    (renumbered : p.Renumbered p' node query) (count : rows.length = p.queries.length)
    {n n' m m' : DataNode} (same : n.Renumbered node n') (place : p.data[m.id]? = some m)
    (below : m.Renumbered node m') (link : Link) {wanted other : Request}
    (objects : ∀ row : Row, nestedObject p' (relabelTables node query rows) like DataNode.requested m'
      (row.relabel node) other = nestedObject p rows like DataNode.requested m row wanted) (row : Row) :
    nestedChild p' (relabelTables node query rows) like DataNode.requested n' (row.relabel node) m' link
        other =
      nestedChild p rows like DataNode.requested n row m link wanted := by
  simp only [nestedChild, same.link?_columnLabel, below.link?_matchLabel, below.plural_eq,
    renumbered.matching_eq paired.valid count place below, List.map_map, Function.comp_def, objects]

mutual

/-- A row under other numbers has the same object, though its relations are built in another order. -/
theorem Paired.nestedObject_eq (paired : Paired s plural request request' p p')
    (renumbered : p.Renumbered p' node query) (count : rows.length = p.queries.length) :
    ∀ (r : Request) {r' : Request}, r.Reordered r' → ∀ {n n' : DataNode} {row : Row},
      p.data[n.id]? = some n → p'.data[n'.id]? = some n' → n.Renumbered node n' → n.request = r →
      n'.request = r' →
      nestedObject p' (relabelTables node query rows) like DataNode.requested n' (row.relabel node) r' =
        nestedObject p rows like DataNode.requested n row r
  | ⟨fields, relations, _⟩, ⟨_, others, _⟩, ⟨sameFields, _, matched, below, perm⟩, n, n', row, place,
      place', same, here, here' => by
      cases sameFields
      have once : (others.map (·.1)).Nodup := by
        have distinct := (paired.valid'.namesOnce paired.sound paired.once' n'.id place').nodup
        rw [here'] at distinct
        exact distinct
      rw [nestedObject, nestedObject, same.requested_eq, same.entries_eq,
        Fields.ofList_append_perm (nestedRelations_perm n' (row.relabel node) perm.symm),
        paired.nestedRelations_eq renumbered count relations below place place' same
          (fun r member => here ▸ member) (fun r member => here' ▸ perm.subset member)]
      rw [map_fst_nestedRelations]
      exact once

theorem Paired.nestedRelations_eq (paired : Paired s plural request request' p p')
    (renumbered : p.Renumbered p' node query) (count : rows.length = p.queries.length) :
    ∀ (rs : List (String × Request)) {matched : List (String × Request)},
      Request.ReorderedBelow rs matched → ∀ {n n' : DataNode} {row : Row}, p.data[n.id]? = some n →
      p'.data[n'.id]? = some n' → n.Renumbered node n' → (∀ r ∈ rs, r ∈ n.request.relations) →
      (∀ r ∈ matched, r ∈ n'.request.relations) →
      nestedRelations p' (relabelTables node query rows) like DataNode.requested n' (row.relabel node)
          matched =
        nestedRelations p rows like DataNode.requested n row rs
  | [], matched, below, n, n', row, place, place', same, members, members' => by
      cases below
      rfl
  | (name, wanted) :: rest, matched, ⟨other, later, split, first, below⟩, n, n', row, place, place',
      same, members, members' => by
      subst split
      obtain ⟨member, members⟩ := List.forall_mem_cons.mp members
      obtain ⟨member', members'⟩ := List.forall_mem_cons.mp members'
      obtain ⟨m, m', link, listed, listed', asked, asked', child, child', sameChild⟩ :=
        paired.children renumbered place place' same member member'
      have objects : ∀ row : Row, nestedObject p' (relabelTables node query rows) like
          DataNode.requested m' (row.relabel node) other =
            nestedObject p rows like DataNode.requested m row wanted := fun row =>
        paired.nestedObject_eq renumbered count wanted first child.found child'.found sameChild asked
          asked'
      rw [nestedRelations_cons child' listed', nestedRelations_cons child listed,
        paired.nestedRelations_eq renumbered count rest below place place' same members members',
        paired.nestedChild_eq renumbered count same child.found sameChild link objects]

end

/-- The roots have the same number, for they are the only nodes without a parent. -/
theorem Paired.root_renumbered (paired : Paired s plural request request' p p')
    (renumbered : p.Renumbered p' node query) {root root' : DataNode} (top : p.Top plural request root)
    (top' : p'.Top plural request' root') : root.Renumbered node root' := by
  obtain ⟨m, found, same⟩ := renumbered.node_found top.found
  have first : node 0 = 0 := by
    by_contra below
    have id := paired.valid'.ids found
    rw [← id] at found below
    obtain ⟨_, _, _, _, child⟩ := paired.valid'.parent paired.sound found below
    have none := same.parent_eq
    rw [child.parent_eq, top.parent_eq] at none
    cases none
  rw [first] at found
  cases top'.found.symm.trans found
  exact same

theorem Paired.nested_eq (paired : Paired s plural request request' p p')
    (renumbered : p.Renumbered p' node query) (reordered : request.Reordered request')
    (count : rows.length = p.queries.length) :
    p'.nested (relabelTables node query rows) like DataNode.requested request' =
      p.nested rows like DataNode.requested request := by
  obtain ⟨root, top⟩ := paired.valid.top
  obtain ⟨root', top'⟩ := paired.valid'.top
  have same := paired.root_renumbered renumbered top top'
  have place : p.data[root.id]? = some root := top.id_eq ▸ top.found
  have place' : p'.data[root'.id]? = some root' := top'.id_eq ▸ top'.found
  have table : (relabelTables node query rows).headD [] = (rows.headD []).map (Row.relabel node) := by
    rw [← paired.valid'.tableOf_root paired.sound top',
      renumbered.tableOf_eq paired.valid count place same, paired.valid.tableOf_root paired.sound top]
  have objects : ∀ row : Row, nestedObject p' (relabelTables node query rows) like DataNode.requested
      root' (row.relabel node) request' = nestedObject p rows like DataNode.requested root row request :=
    fun row => paired.nestedObject_eq renumbered count request reordered place place' same
      top.request_eq top'.request_eq
  simp only [nested, top.found, top'.found, top.plural_eq, top'.plural_eq, table, List.map_map,
    Function.comp_def, objects]

end Nested

/-- Both plans fold the same rows to the same tree, and refuse tables that are not one for each
statement. -/
theorem Paired.fold_eq (paired : Paired s plural request request' p p')
    (renumbered : p.Renumbered p' node query) (reordered : request.Reordered request')
    (rows : List (List Row)) : p'.fold (relabelTables node query rows) = p.fold rows := by
  by_cases count : rows.length = p.queries.length
  · have count' : (relabelTables node query rows).length = p'.queries.length := by
      rw [length_relabelTables, count, renumbered.queries]
    rw [Plan.fold_eq paired.valid paired.sound paired.once count,
      Plan.fold_eq paired.valid' paired.sound paired.once' count',
      paired.nested_eq renumbered reordered count]
  · rw [fold, fold, length_relabelTables, renumbered.queries, if_pos count, if_pos count]
    rfl

theorem paired_of_build (declared : s.Declared) {format : String}
    (built : build s.catalog format plural request = .ok p)
    (built' : build s.catalog format plural request' = .ok p') (once : request.NamesOnce)
    (reordered : request.Reordered request') : Paired s plural request request' p p' := by
  obtain ⟨top, known, grown, _⟩ := build_cases built
  obtain ⟨top', known', grown', _⟩ := build_cases built'
  cases known.symm.trans known'
  obtain ⟨root, below, nodes, position, asked⟩ := arena_head grown
  obtain ⟨root', below', nodes', position', asked'⟩ := arena_head grown'
  have same : root'.position = root.position := position'.trans position.symm
  refine ⟨declared.sound, build_over declared built, build_over declared built', once,
    Request.Reordered.namesOnce request reordered once, root, root', by rw [nodes]; rfl,
    by rw [nodes']; rfl, ?_⟩
  constructor
  · exact congrArg Position.format same
  · exact congrArg Position.plural same
  · exact congrArg Position.link same
  · exact congrArg Position.path same
  · rw [asked, asked']
    exact reordered

open Result (Succeeds)

/-- The order of relations determines numbers only. Requests that differ in it are both planned or both
refused; their plans have the same nodes and statements under other numbers, and fold the same rows under
these numbers to one tree. -/
theorem fold_reordered (declared : s.Declared) {format : String} (once : request.NamesOnce)
    (reordered : request.Reordered request') :
    (Succeeds (build s.catalog format plural request) ↔
      Succeeds (build s.catalog format plural request')) ∧
    ∀ p p', build s.catalog format plural request = .ok p →
      build s.catalog format plural request' = .ok p' →
      ∃ node query : Equiv.Perm Nat, p.Renumbered p' node query ∧ ∀ rows : List (List Row),
        p'.fold (relabelTables node query rows) = p.fold rows ∧
          (rows.length = p.queries.length → Succeeds (p.fold rows)) := by
  refine ⟨build_reordered reordered, fun p p' built built' => ?_⟩
  have paired := paired_of_build declared built built' once reordered
  obtain ⟨node, query, renumbered⟩ := paired.renumbered
  refine ⟨node, query, renumbered, fun rows => ⟨paired.fold_eq renumbered reordered rows, ?_⟩⟩
  intro count
  rw [Plan.fold_eq paired.valid paired.sound once count]
  exact .ok _

/-- The request for articles with their author and their tags, with the tags in front. -/
def tagsFirst : Request :=
  ⟨some ["title"], [("tags", ⟨some ["label"], [], ⟨none, [], none, some 3⟩⟩),
    ("author", ⟨some ["name"], [], .empty⟩)], .empty⟩

def taggedRows : List (List Row) := [
  [[("0.authorId", .int 1), ("0.id", .int 7), ("0.title", .text "On rows"), ("1.id", .int 1),
    ("1.name", .text "Ann")]],
  [[("2.#foreign", .int 3), ("2.#local", .int 7), ("2.label", .text "sql")]]]

def taggedTree : Tree := .list [
  .object [("author", .object [("name", .scalar (.text "Ann"))]),
    ("tags", .list [.object [("label", .scalar (.text "sql"))]]),
    ("title", .scalar (.text "On rows"))]]

/-- Authors and tags change their numbers, and the article is the same. -/
theorem fold_reordered_tagsFirst : ∃ p p',
    build Schema.blog.catalog "article" true taggedArticles = .ok p ∧
      build Schema.blog.catalog "article" true tagsFirst = .ok p' ∧
      p.data.map (·.path) = ["article", "article.author", "article.tags"] ∧
      p'.data.map (·.path) = ["article", "article.tags", "article.author"] ∧
      ∃ node query : Equiv.Perm Nat, p.Renumbered p' node query ∧
        p'.fold (relabelTables node query taggedRows) = .ok taggedTree := by
  have once : taggedArticles.NamesOnce := by
    refine ⟨by decide, ⟨List.nodup_nil, trivial⟩, ⟨List.nodup_nil, trivial⟩, trivial⟩
  have reordered : taggedArticles.Reordered tagsFirst :=
    ⟨rfl, rfl, _, ⟨_, _, rfl, ⟨rfl, rfl, [], rfl, .nil⟩, _, _, rfl, ⟨rfl, rfl, [], rfl, .nil⟩, rfl⟩,
      .swap ..⟩
  have planned : ∃ p p', build Schema.blog.catalog "article" true taggedArticles = .ok p ∧
      build Schema.blog.catalog "article" true tagsFirst = .ok p' ∧
      p.data.map (·.path) = ["article", "article.author", "article.tags"] ∧
      p'.data.map (·.path) = ["article", "article.tags", "article.author"] ∧
      taggedRows.length = p.queries.length ∧
      p.nested taggedRows Value.sameKey DataNode.requested taggedArticles = taggedTree :=
    ⟨_, _, rfl, rfl, rfl, rfl, rfl, rfl⟩
  obtain ⟨p, p', built, built', paths, paths', count, tree⟩ := planned
  obtain ⟨_, same⟩ := fold_reordered Schema.blog_declared once reordered
  obtain ⟨node, query, renumbered, folded⟩ := same p p' built built'
  refine ⟨p, p', built, built', paths, paths', node, query, renumbered, ?_⟩
  rw [(folded taggedRows).1,
    fold_eq (build_over Schema.blog_declared built) Schema.blog_declared.sound once count, tree]

end Plan
end NestedQuery
