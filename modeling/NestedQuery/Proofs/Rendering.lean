/- Every statement of a plan over a sound schema can be rendered: its columns exist and have plain
names, what it joins was selected, and its filters and orders were checked when it was planned. -/
import NestedQuery.Proofs.Memo
import NestedQuery.Proofs.Plan

namespace NestedQuery

open Result (Succeeds)

theorem Text.ne_of_isIdentifier {s : String} (plain : Text.isIdentifier s = true) :
    s ≠ "*" ∧ s ≠ "" := by
  constructor
  · rintro rfl
    exact absurd plain (by decide)
  · rintro rfl
    exact absurd plain (by decide)

theorem Filter.known_of_check {filter : Filter} {format : Format} {path : String}
    (checked : filter.check format path = .ok ()) :
    ∀ field ∈ filter.fields, format.hasField field = true := by
  intro field member
  unfold Filter.check at checked
  cases unknown : filter.fields.find? fun field => !format.hasField field with
  | some first =>
      rw [unknown] at checked
      cases checked
  | none => simpa using List.find?_eq_none.mp unknown field member

theorem Query.known_of_check {query : Query} {format : Format} {plural : Bool} {path : String}
    (checked : query.check format plural path = .ok ()) :
    (∀ key ∈ query.sort, format.hasField key.field = true) ∧
      ∀ filter, query.filter = some filter → ∀ field ∈ filter.fields,
        format.hasField field = true := by
  simp only [Query.check] at checked
  split at checked
  · cases checked
  · obtain ⟨_, _, checked⟩ := Result.bind_eq_ok.mp checked
    cases unknown : query.sort.find? fun key => !format.hasField key.field with
    | some first =>
        rw [unknown] at checked
        cases checked
    | none =>
        simp only [unknown, Result.ok_bind] at checked
        constructor
        · intro key member
          simpa using List.find?_eq_none.mp unknown key member
        · intro filter given
          simp only [given] at checked
          exact Filter.known_of_check checked

namespace Sql

variable {format : Format} {label : String}

theorem fieldColumn_succeeds {field : String} (known : format.hasField field = true) :
    Succeeds (fieldColumn format label field) := by
  obtain ⟨f, _, found⟩ := Format.requireColumn_of_hasField known
  rw [fieldColumn, found]
  exact .ok _

theorem Selector.pieces_succeeds {selector : Selector}
    (named : selector.column ≠ "*" ∧ selector.column ≠ "") : Succeeds selector.pieces := by
  unfold Selector.pieces
  rw [if_neg named.1, if_neg named.2]
  cases selector.label with
  | none => exact .ok _
  | some label => exact .ok _

mutual

theorem predicate_succeeds : ∀ (filter : Filter) (start : Nat),
    (∀ field ∈ filter.fields, format.hasField field = true) →
      Succeeds (predicate format label start filter)
  | .compare comparison field value, start, known => by
      have column : Succeeds (fieldColumn format label field) :=
        fieldColumn_succeeds (known field (List.mem_singleton_self _))
      rw [predicate]
      apply column.bind
      intro c _
      split <;> exact .ok _
  | .isIn field values, start, known => by
      have column : Succeeds (fieldColumn format label field) :=
        fieldColumn_succeeds (known field (List.mem_singleton_self _))
      rw [predicate]
      split
      · exact .ok _
      · apply column.bind
        intro c _
        exact .ok _
  | .isNull field, start, known => by
      have column : Succeeds (fieldColumn format label field) :=
        fieldColumn_succeeds (known field (List.mem_singleton_self _))
      rw [predicate]
      apply column.bind
      intro c _
      exact .ok _
  | .isNotNull field, start, known => by
      have column : Succeeds (fieldColumn format label field) :=
        fieldColumn_succeeds (known field (List.mem_singleton_self _))
      rw [predicate]
      apply column.bind
      intro c _
      exact .ok _
  | .like field pattern, start, known => by
      have column : Succeeds (fieldColumn format label field) :=
        fieldColumn_succeeds (known field (List.mem_singleton_self _))
      rw [predicate]
      apply column.bind
      intro c _
      exact .ok _
  | .all filters, start, known => by
      rw [predicate]
      split
      · exact .ok _
      · apply (predicates_succeeds filters start known).bind
        intro parts _
        exact .ok _
  | .any filters, start, known => by
      rw [predicate]
      split
      · exact .ok _
      · apply (predicates_succeeds filters start known).bind
        intro parts _
        exact .ok _
  | .not filter, start, known => by
      rw [predicate]
      apply (predicate_succeeds filter start known).bind
      intro inner _
      exact .ok _

theorem predicates_succeeds : ∀ (filters : List Filter) (start : Nat),
    (∀ field ∈ Filter.fieldsOfAll filters, format.hasField field = true) →
      Succeeds (predicates format label start filters)
  | [], start, known => by
      rw [predicates]
      exact .ok []
  | filter :: rest, start, known => by
      rw [Filter.fieldsOfAll] at known
      obtain ⟨head, tail⟩ := List.forall_mem_append.mp known
      rw [predicates]
      apply (predicate_succeeds filter start head).bind
      intro first _
      apply (predicates_succeeds rest (first.next start) tail).bind
      intro others _
      exact .ok (first :: others)

end

theorem ordering_succeeds {sort : List SortKey}
    (known : ∀ key ∈ sort, format.hasField key.field = true) :
    Succeeds (ordering format label sort) := by
  unfold ordering
  apply Succeeds.bind
  · apply Succeeds.mapM
    intro key member
    apply (fieldColumn_succeeds (known key member)).bind
    intro column _
    exact .ok _
  · intro keys _
    exact .ok _

theorem requireColumn_succeeds {selection : Selection} {field : String}
    (selected : field ∈ selection.names) : Succeeds (selection.requireColumn field) := by
  have listed : field ∈
      (selection.selected.map fun f => (f.name, Column.mk (toString selection.node) f.column)).map
        (·.1) := by
    rw [List.map_map]
    exact selected
  obtain ⟨column, found⟩ := Fields.exists_find?_ofList listed
  rw [Selection.requireColumn, Selection.columns, found]
  exact .ok column

namespace Shape

variable {s : Schema} {p : Plan} {plural : Bool} {request : Request}

/-- The shape of a statement of a plan: its root is the root of the plan or hangs off another node by a
relation, and only then it may be paged for each of that node's rows. -/
structure Fits (s : Schema) (p : Plan) (k : Nat) (shape : Shape) : Prop where
  plan_eq : shape.plan = p
  query : p.queries[k]? = some shape.query
  root : p.data[shape.query.root]? = some shape.root
  hung : (k = 0 ∧ shape.root.isRoot = true ∧ shape.root.link = none ∧ shape.lateral = none) ∨
    k ≠ 0 ∧ shape.root.isRoot = false ∧ ∃ n name link, p.data[n.id]? = some n ∧
      Plan.Hangs s p n name shape.root link

theorem lateralParent_succeeds {n m : DataNode} {name : String} {link : Link}
    (place : p.data[n.id]? = some n) (child : Plan.Hangs s p n name m link) :
    Succeeds (lateralParent p m) := by
  simp only [lateralParent, child.parent_eq, child.link_eq, Plan.dataNode_eq_ok place, Result.ok_bind]
  split
  · obtain ⟨f, _, column⟩ := Format.requireColumn_of_hasField child.parentKnown
    rw [column]
    exact .ok _
  · exact .ok none

theorem ofPlan_fits (valid : p.Over s plural request) (sound : s.Sound) {k : Nat} {q : QueryNode}
    (query : p.queries[k]? = some q) :
    ∃ shape, ofPlan p k = .ok shape ∧ Fits s p k shape := by
  have known : p.query k = .ok q := Plan.query_eq_ok.mpr query
  rcases valid.query_cases sound query with
    ⟨rfl, first, _⟩ | ⟨below, n, m, name, link, place, child, _, root, _⟩
  · obtain ⟨root, top⟩ := valid.top
    have alone : lateralParent p root = .ok none := by
      simp only [lateralParent, top.parent_eq]
      rfl
    refine ⟨⟨p, q, root, none⟩, ?_, rfl, query, first ▸ top.found, .inl ⟨rfl, ?_, top.link_eq, rfl⟩⟩
    · simp only [ofPlan, known, first, Plan.dataNode_eq_ok top.found, alone, Result.ok_bind]
      rfl
    · rw [DataNode.isRoot, top.parent_eq]
      rfl
  · obtain ⟨lateral, found⟩ := lateralParent_succeeds place child
    refine ⟨⟨p, q, m, lateral⟩, ?_, rfl, query, root ▸ child.found,
      .inr ⟨below, ?_, n, name, link, place, child⟩⟩
    · simp only [ofPlan, known, root, Plan.dataNode_eq_ok child.found, found, Result.ok_bind]
      rfl
    · rw [DataNode.isRoot, child.parent_eq]
      rfl

/-- A link that a statement's root hangs by names a field of the root. -/
theorem Fits.ownLinkColumn {k : Nat} {shape : Shape} (fits : Fits s p k shape) (below : k ≠ 0) :
    Succeeds shape.ownLinkColumn := by
  rcases fits.hung with first | ⟨_, _, n, name, link, _, child⟩
  · exact absurd first.1 below
  · simp only [Shape.ownLinkColumn, child.link_eq]
    exact fieldColumn_succeeds child.known

theorem Fits.junction_names {k : Nat} {shape : Shape} (fits : Fits s p k shape)
    {j : JunctionColumns} (found : shape.junction? = some j) :
    Text.isIdentifier j.table = true ∧ Text.isIdentifier j.near = true ∧
      Text.isIdentifier j.far = true := by
  rcases fits.hung with ⟨_, _, alone, _⟩ | ⟨_, _, n, name, link, _, child⟩
  · rw [junction?, alone] at found
    cases found
  · rw [junction?, child.link_eq] at found
    obtain ⟨again, kept, columns⟩ := Option.bind_eq_some_iff.mp found
    cases (Option.filter_eq_some_iff.mp kept).1
    exact child.relation.junction_names columns

theorem Fits.junction {k : Nat} {shape : Shape} (fits : Fits s p k shape) {j : JunctionColumns}
    (found : shape.junction? = some j) :
    k ≠ 0 ∧ Text.isIdentifier j.near = true ∧ Text.isIdentifier j.far = true := by
  refine ⟨?_, (fits.junction_names found).2⟩
  rcases fits.hung with ⟨_, _, alone, _⟩ | ⟨below, _⟩
  · rw [junction?, alone] at found
    cases found
  · exact below

theorem Fits.lateral {k : Nat} {shape : Shape} (fits : Fits s p k shape) {lateral : LateralParent}
    (found : shape.lateral = some lateral) : k ≠ 0 := by
  rcases fits.hung with ⟨_, _, _, alone⟩ | ⟨below, _⟩
  · rw [alone] at found
    cases found
  · exact below

/-- Every statement but the first one compares with linked values. -/
theorem Fits.linkedKey_iff {k : Nat} {shape : Shape} (fits : Fits s p k shape) :
    Segment.linkedKey ∈ Segment.orderFor shape.isLateral shape.root.isRoot ↔ k ≠ 0 := by
  rcases fits.hung with ⟨first, isRoot, _, lateral⟩ | ⟨below, isRoot, _⟩
  · simp [isLateral, lateral, isRoot, first, Segment.orderFor]
  · cases shape.isLateral <;> simp [isRoot, below, Segment.orderFor]

theorem Fits.linkedColumn {k : Nat} {shape : Shape} (fits : Fits s p k shape) (below : k ≠ 0) :
    Succeeds shape.linkedColumn := by
  unfold Shape.linkedColumn
  split
  · exact .ok _
  · exact .ok _
  · exact fits.ownLinkColumn below

theorem Fits.source {k : Nat} {shape : Shape} (fits : Fits s p k shape) : Succeeds shape.source := by
  unfold Shape.source
  cases found : shape.junction? with
  | none => exact .ok _
  | some j =>
      apply (fits.ownLinkColumn (fits.junction found).1).bind
      intro own _
      exact .ok _

theorem nodeProjection_succeeds (valid : p.Over s plural request) (sound : s.Sound) {n : DataNode}
    (place : p.data[n.id]? = some n) : Succeeds (nodeProjection n) := by
  apply Succeeds.mapM
  intro field selected
  have known := (valid.planned place).field_of_selected selected
  obtain ⟨f, listed, column⟩ := Format.requireColumn_of_hasField known
  have plain := (Format.check_plain ((valid.registered place).check sound)).column f listed
  rw [column, Result.ok_bind, Selection.requireLabel_of_mem selected, Result.ok_bind]
  exact Selector.pieces_succeeds (Text.ne_of_isIdentifier plain)

theorem Fits.junctionProjection {k : Nat} {shape : Shape} (fits : Fits s p k shape) :
    Succeeds shape.junctionProjection := by
  unfold Shape.junctionProjection
  cases found : shape.junction? with
  | none => exact .ok []
  | some j =>
      obtain ⟨_, near, far⟩ := fits.junction found
      cases shape.isLateral with
      | true =>
          exact .ok _
      | false =>
          apply (Selector.pieces_succeeds (Text.ne_of_isIdentifier near)).bind
          intro first _
          apply (Selector.pieces_succeeds (Text.ne_of_isIdentifier far)).bind
          intro second _
          exact .ok _

theorem Fits.projection (valid : p.Over s plural request) (sound : s.Sound) {k : Nat} {shape : Shape}
    (fits : Fits s p k shape) : Succeeds shape.projection := by
  unfold Shape.projection
  apply Succeeds.bind
  · apply Succeeds.mapM
    intro id inside
    obtain ⟨n, found, _⟩ := valid.member fits.query inside
    rw [fits.plan_eq, Plan.dataNode_eq_ok found, Result.ok_bind]
    exact nodeProjection_succeeds valid sound (valid.planned found).place
  · intro fields _
    apply fits.junctionProjection.bind
    intro junction _
    exact .ok _

end Shape

section Clauses

variable {s : Schema} {p : Plan} {plural : Bool} {request : Request} {k : Nat} {shape : Shape}

open Shape (Fits)

theorem lateralColumns_succeeds (fits : Fits s p k shape) (below : k ≠ 0) :
    Succeeds (Clause.lateralColumns shape) := by
  unfold Clause.lateralColumns
  have all : Succeeds (Selector.all shape.root.label).pieces := .ok _
  apply all.bind
  intro first _
  cases found : shape.junction? with
  | none =>
      apply (fits.ownLinkColumn below).bind
      intro own _
      exact .ok _
  | some j =>
      obtain ⟨_, near, far⟩ := fits.junction found
      apply (Selector.pieces_succeeds (Text.ne_of_isIdentifier near)).bind
      intro second _
      apply (Selector.pieces_succeeds (Text.ne_of_isIdentifier far)).bind
      intro third _
      exact .ok _

theorem head_succeeds (valid : p.Over s plural request) (sound : s.Sound) (fits : Fits s p k shape) :
    Succeeds (Clause.head shape) := by
  unfold Clause.head
  apply (fits.projection valid sound).bind
  intro projection _
  cases found : shape.lateral with
  | none =>
      apply fits.source.bind
      intro source _
      exact .ok _
  | some lateral =>
      apply (lateralColumns_succeeds fits (fits.lateral found)).bind
      intro columns _
      apply fits.source.bind
      intro source _
      exact .ok _

theorem join_succeeds (valid : p.Over s plural request) (fits : Fits s p k shape) {n m : DataNode}
    {name : String} {link : Link} (place : p.data[n.id]? = some n)
    (child : Plan.Hangs s p n name m link) (start : Nat) : Succeeds (Clause.join shape m start) := by
  simp only [Clause.join, child.parent_eq, child.link_eq, fits.plan_eq, Plan.dataNode_eq_ok place,
    Result.ok_bind]
  apply (fieldColumn_succeeds child.known).bind
  intro own _
  apply (requireColumn_succeeds child.parentField).bind
  intro parentColumn _
  cases given : m.request.query.filter with
  | none => exact .ok _
  | some filter =>
      have known := (Query.known_of_check (valid.planned child.found).checked).2 filter given
      apply (predicate_succeeds filter start known).bind
      intro condition _
      exact .ok _

theorem joinsOf_succeeds (valid : p.Over s plural request) (sound : s.Sound) (fits : Fits s p k shape)
    {ids : List Nat} (joined : ∀ id ∈ ids, id ∈ shape.query.absorbed) (start : Nat) :
    Succeeds (Clause.joinsOf shape start ids) := by
  induction ids generalizing start with
  | nil => exact .ok _
  | cons id rest ih =>
      obtain ⟨first, later⟩ := List.forall_mem_cons.mp joined
      obtain ⟨n, m, name, link, rfl, place, child, _⟩ := valid.absorbed sound fits.query first
      rw [Clause.joinsOf, fits.plan_eq, Plan.dataNode_eq_ok child.found, Result.ok_bind]
      apply (join_succeeds valid fits place child start).bind
      intro fragment _
      apply (ih later (fragment.next start)).bind
      intro others _
      exact .ok _

theorem condition_succeeds {lead : String} {filter : Option Filter} (start : Nat)
    (known : ∀ f, filter = some f → ∀ field ∈ f.fields, shape.root.format.hasField field = true) :
    Succeeds (Clause.condition shape lead filter start) := by
  cases filter with
  | none => exact .ok _
  | some f =>
      apply (predicate_succeeds f start (known f rfl)).bind
      intro inner _
      exact .ok _

theorem linkedKey_succeeds (fits : Fits s p k shape) (below : k ≠ 0) {lead : String}
    {batch : List Value} (bound : batch ≠ []) (start : Nat) :
    Succeeds (Clause.linkedKey shape lead batch start) := by
  unfold Clause.linkedKey
  apply (fits.linkedColumn below).bind
  intro column _
  match batch, bound with
  | [one], _ => exact .ok _
  | one :: two :: rest, _ => exact .ok _

theorem orderBy_succeeds {sort : List SortKey}
    (known : ∀ key ∈ sort, shape.root.format.hasField key.field = true) :
    Succeeds (Clause.orderBy shape sort) := by
  apply (ordering_succeeds known).bind
  intro keys _
  exact .ok _

theorem renderAll_succeeds {render : Segment → Nat → Result Fragment} {segments : List Segment}
    (each : ∀ segment ∈ segments, ∀ start, Succeeds (render segment start)) (start : Nat) :
    Succeeds (renderAll render start segments) := by
  induction segments generalizing start with
  | nil => exact .ok _
  | cons segment rest ih =>
      obtain ⟨first, later⟩ := List.forall_mem_cons.mp each
      apply (first start).bind
      intro fragment _
      apply (ih later (fragment.next start)).bind
      intro others _
      exact .ok _

/-- Only a statement below the first one compares with linked values. -/
theorem segment_succeeds (valid : p.Over s plural request) (sound : s.Sound) (fits : Fits s p k shape)
    {query : Query}
    (checked : query.check shape.root.format shape.root.plural shape.root.path = .ok ())
    {batch : List Value} {segment : Segment}
    (bound : segment = .linkedKey → k ≠ 0 ∧ batch ≠ []) (start : Nat) :
    Succeeds (segment.render shape query batch start) := by
  obtain ⟨sort, filter⟩ := Query.known_of_check checked
  cases segment with
  | head => exact head_succeeds valid sound fits
  | joins => exact joinsOf_succeeds valid sound fits (fun _ joined => joined) start
  | filter => exact condition_succeeds start filter
  | linkedKey =>
      obtain ⟨below, nonempty⟩ := bound rfl
      exact linkedKey_succeeds fits below nonempty start
  | orderBy => exact orderBy_succeeds sort
  | pagination => exact .ok _
  | lateralClose => exact .ok _

/-- The first statement, and any other one for a batch that is not empty, can be rendered for every
query that fits its root. -/
theorem Statement.anew_succeeds (valid : p.Over s plural request) (sound : s.Sound) {q : QueryNode}
    {root : DataNode} (query : p.queries[k]? = some q) (found : p.data[q.root]? = some root)
    {rootQuery : Query} (checked : rootQuery.check root.format root.plural root.path = .ok ())
    {batch : List Value} (bound : k ≠ 0 → batch ≠ []) :
    Succeeds (Statement.anew p k rootQuery batch) := by
  obtain ⟨shape, shaped, fits⟩ := Shape.ofPlan_fits valid sound query
  cases query.symm.trans fits.query
  cases found.symm.trans fits.root
  rw [Statement.anew, shaped, Result.ok_bind]
  apply Succeeds.bind
  · apply renderAll_succeeds
    intro segment listed start
    apply segment_succeeds valid sound fits checked
    rintro rfl
    have below : k ≠ 0 := fits.linkedKey_iff.mp listed
    exact ⟨below, bound below⟩
  · intro fragment _
    exact .ok _

theorem Memo.ofPlan_rootQuery {m : Memo} (fresh : Memo.ofPlan p k = .ok m) {q : QueryNode}
    {root : DataNode} (query : p.queries[k]? = some q) (found : p.data[q.root]? = some root) :
    m.rootQuery = root.request.query := by
  obtain ⟨shape, shaped, fresh⟩ := Result.bind_eq_ok.mp fresh
  cases fresh
  have known : p.query k = .ok q := Plan.query_eq_ok.mpr query
  simp only [Shape.ofPlan, known, Plan.dataNode_eq_ok found, Result.ok_bind] at shaped
  obtain ⟨lateral, _, shaped⟩ := Result.bind_eq_ok.mp shaped
  cases shaped
  rfl

theorem Memo.ofPlan_succeeds (valid : p.Over s plural request) (sound : s.Sound) {q : QueryNode}
    (query : p.queries[k]? = some q) : Succeeds (Memo.ofPlan p k) := by
  obtain ⟨shape, shaped, _⟩ := Shape.ofPlan_fits valid sound query
  rw [Memo.ofPlan, shaped, Result.ok_bind]
  exact .ok _

/-- No call makes a memo forget that the query for its root was checked for it. -/
theorem Memo.Coherent.checked_step {m : Memo} (coherent : m.Coherent p k) {root : DataNode}
    (opened : p.queryRoot k = .ok root)
    (checked : m.rootQuery.check root.format root.plural root.path = .ok ()) (call : Memo.Call) :
    (m.step call).rootQuery.check root.format root.plural root.path = .ok () := by
  rcases m.step_cases call with same | ⟨batch, same⟩ | ⟨query, again, reopened, passed, same⟩ | same
  · rw [same]
    exact checked
  · rw [same]
    exact checked
  · rw [coherent.plan_eq, coherent.query_eq] at reopened
    cases opened.symm.trans reopened
    rw [same]
    exact passed
  · rw [same, coherent.statement.2.1]
    exact checked

theorem Memo.Coherent.checked_after {m : Memo} (coherent : m.Coherent p k) {root : DataNode}
    (opened : p.queryRoot k = .ok root)
    (checked : m.rootQuery.check root.format root.plural root.path = .ok ())
    (calls : List Memo.Call) :
    (m.after calls).rootQuery.check root.format root.plural root.path = .ok () := by
  induction calls generalizing m with
  | nil => exact checked
  | cons call rest ih => exact ih (coherent.step call) (coherent.checked_step opened checked call)

theorem Memo.setBatch_batch_ne_nil {m : Memo} {batch : List Value} (nonempty : batch ≠ []) :
    (m.setBatch batch).batch ≠ [] := by
  rw [Memo.setBatch]
  split
  · next same =>
      intro empty
      rw [empty] at same
      cases batch with
      | nil => exact nonempty rfl
      | cons first rest => cases same
  · exact nonempty

/-- After any calls the statement is rendered, below the first one as soon as a batch is bound. -/
theorem Memo.statement_after_succeeds (valid : p.Over s plural request) (sound : s.Sound)
    {q : QueryNode} (query : p.queries[k]? = some q) {m : Memo} (fresh : Memo.ofPlan p k = .ok m)
    (calls : List Memo.Call) (bound : k ≠ 0 → (m.after calls).batch ≠ []) :
    Succeeds (m.after calls).statement.1 := by
  obtain ⟨root, found⟩ := valid.root_found query
  have coherent := Memo.coherent_ofPlan fresh
  have opened : p.queryRoot k = .ok root := Plan.queryRoot_eq_ok query found
  have checked : m.rootQuery.check root.format root.plural root.path = .ok () := by
    rw [Memo.ofPlan_rootQuery fresh query found]
    exact (valid.planned found).checked
  rw [(coherent.after calls).statement.1]
  exact Statement.anew_succeeds valid sound query found (coherent.checked_after opened checked calls)
    bound

end Clauses

end Sql
end NestedQuery
