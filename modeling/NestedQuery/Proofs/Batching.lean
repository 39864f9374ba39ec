/- Statements that are bound to the values fetched above them lose and invent nothing: what is folded
is what would be folded of the whole tables. -/
import NestedQuery.Engine
import NestedQuery.Proofs.Execution
import NestedQuery.Proofs.Fold
import NestedQuery.Proofs.Rendering

namespace NestedQuery

/-- The rows of a table whose value under a label is one of a batch. -/
def answerTo (batch : List Value) (label : String) (table : List Row) : List Row :=
  table.filter fun row => (Fields.find? label row).any fun value => batch.any (value == ·)

/-- A database that answers the statements of a plan from one table for each: the first statement
with all rows, or with the first one for a single record, and any other statement with the rows that
match the batch it is bound to. -/
structure Serves {σ : Type u} (db : Database σ) (p : Plan) (tables : List (List Row)) : Prop where
  root : ∀ {m : Sql.Memo} {statement : Sql.Statement} {root : DataNode},
    Sql.Memo.ofPlan p 0 = .ok m → m.statement.1 = .ok statement → p.data[0]? = some root →
    ∀ state,
      if root.plural then (db.fetch statement state).1 = .ok ((tables[0]?).getD [])
      else (db.fetchOne statement state).1 = .ok ((tables[0]?).getD []).head?
  below : ∀ {k : Nat} {q : QueryNode} {root : DataNode} {label : String} {m : Sql.Memo}
    {batch : List Value} {statement : Sql.Statement},
    p.queries[k]? = some q → p.data[q.root]? = some root → root.linkLabel = .ok label →
    Sql.Memo.ofPlan p k = .ok m → (m.setBatch batch).statement.1 = .ok statement →
    ∀ state, (db.fetch statement state).1 = .ok (answerTo batch label ((tables[k]?).getD []))

namespace Plan

open Execution

variable {s : Schema} {p : Plan} {plural : Bool} {request : Request}

/-- The answer that a statement gets once the one above it has been answered. -/
def awaited (p : Plan) (tables rows : List (List Row)) (k : Nat) : List Row :=
  let table := (tables[k]?).getD []
  match (p.queries[k]?).bind (·.parent) with
  | none => rootRows (p.data.head?.any (·.plural)) table
  | some above =>
    match parentLinkLabel p k, p.queryRoot k >>= (·.linkLabel) with
    | .ok near, .ok far => answerTo (distinctValues ((rows[above]?).getD []) near) far table
    | _, _ => []

theorem awaited_congr {tables rows others : List (List Row)} {k : Nat}
    (same : ∀ q a, p.queries[k]? = some q → q.parent = some a → others[a]? = rows[a]?) :
    p.awaited tables others k = p.awaited tables rows k := by
  unfold awaited
  cases query : p.queries[k]? with
  | none => rfl
  | some q =>
      cases parent : q.parent with
      | none => simp only [Option.bind_some, parent]
      | some a => simp only [Option.bind_some, parent, same q a query parent]

section Below

variable {n m : DataNode} {name : String} {link : Link} {k a : Nat} {q : QueryNode}

theorem parentLinkLabel_eq (valid : p.Over s plural request) (place : p.data[n.id]? = some n)
    (child : Hangs s p n name m link) (query : p.queries[k]? = some q) (root : q.root = m.id) :
    parentLinkLabel p k = .ok (n.columnLabel link.parentField) := by
  simp only [parentLinkLabel, queryRoot_eq_ok query (root ▸ child.found), Result.ok_bind,
    child.parent_eq, child.link_eq, dataNode_eq_ok place]
  rw [Selection.requireLabel_of_mem child.parentField, (valid.planned place).label_eq]

theorem awaited_child (valid : p.Over s plural request) (place : p.data[n.id]? = some n)
    (child : Hangs s p n name m link) (query : p.queries[k]? = some q) (root : q.root = m.id)
    (parent : q.parent = some a) (tables rows : List (List Row)) :
    p.awaited tables rows k =
      answerTo (distinctValues ((rows[a]?).getD []) (n.columnLabel link.parentField))
        (m.matchLabel link) ((tables[k]?).getD []) := by
  simp only [awaited, query, Option.bind_some, parent, parentLinkLabel_eq valid place child query root,
    queryRoot_eq_ok query (root ▸ child.found), Result.ok_bind, linkLabel_eq valid child]

end Below

theorem head_plural (valid : p.Over s plural request) : p.data.head?.any (·.plural) = plural := by
  obtain ⟨root, top⟩ := valid.top
  rw [List.head?_eq_getElem?, top.found]
  exact top.plural_eq

theorem awaited_root (valid : p.Over s plural request) {q : QueryNode}
    (query : p.queries[0]? = some q) (alone : q.parent = none) (tables rows : List (List Row)) :
    p.awaited tables rows 0 = rootRows plural ((tables[0]?).getD []) := by
  simp only [awaited, query, Option.bind_some, alone, head_plural valid]

section Run

variable {σ : Type u} {db : Database σ} {tables rows : List (List Row)} {memos : List Sql.Memo}
  {d k : Nat} {q : QueryNode}

/-- The levels above `d` are answered, and the statements from there on have not been touched. -/
structure Reached (p : Plan) (tables : List (List Row)) (d : Nat) (memos : List Sql.Memo)
    (rows : List (List Row)) : Prop where
  count : rows.length = p.queries.length
  answered : ∀ (k : Nat) (q : QueryNode), p.queries[k]? = some q → q.depth < d →
    rows[k]? = some (p.awaited tables rows k)
  blank : ∀ (k : Nat) (q : QueryNode), p.queries[k]? = some q → d ≤ q.depth → rows[k]? = some []
  fresh : ∀ (k : Nat) (q : QueryNode), p.queries[k]? = some q → d ≤ q.depth →
    ∃ m, memos[k]? = some m ∧ Sql.Memo.ofPlan p k = .ok m

theorem due_root (valid : p.Over s plural request) (sound : s.Sound) (serves : Serves db p tables)
    (query : p.queries[0]? = some q) (alone : q.parent = none) {m : Sql.Memo}
    (kept : memos[0]? = some m) (fresh : Sql.Memo.ofPlan p 0 = .ok m) :
    Due db p rows memos (p.awaited tables rows) 0 := by
  obtain ⟨root, top⟩ := valid.top
  have binds : bound p rows q m = .ok (some m) := by simp only [bound, alone]
  obtain ⟨statement, rendered⟩ : Result.Succeeds m.statement.1 :=
    Sql.Memo.statement_after_succeeds valid sound query fresh [] fun below => absurd rfl below
  refine .sent query kept binds rendered fun state => ?_
  rw [awaited_root valid query alone, send, isSingle, alone, head_plural valid]
  have served := serves.root fresh rendered top.found state
  rw [top.plural_eq] at served
  cases plural with
  | true => exact served
  | false =>
      simp only [Option.isNone_none, Bool.not_false, Bool.and_self, if_true]
      rw [if_neg Bool.false_ne_true] at served
      rw [served, rootRows, if_neg Bool.false_ne_true, List.take_one]
      rfl

/-- A statement below binds the distinct values that were fetched above it, or nothing. -/
theorem bound_below (valid : p.Over s plural request) (query : p.queries[k]? = some q)
    {n m : DataNode} {name : String} {link : Link} {a : Nat} (place : p.data[n.id]? = some n)
    (child : Hangs s p n name m link) (root : q.root = m.id) (parent : q.parent = some a)
    {batch : List Value}
    (values : distinctValues ((rows[a]?).getD []) (n.columnLabel link.parentField) = batch)
    (memo : Sql.Memo) :
    bound p rows q memo = .ok (if batch.isEmpty then none else some (memo.setBatch batch)) := by
  have number : q.id = k := (valid.parts.queries k q query).1
  simp only [bound, parent, number, parentLinkLabel_eq valid place child query root, Result.ok_bind,
    values]
  rfl

/-- A statement below is left out if there is nothing to bind, and else sent with its batch. -/
theorem due_below (valid : p.Over s plural request) (sound : s.Sound) (serves : Serves db p tables)
    (query : p.queries[k]? = some q) {n m : DataNode} {name : String} {link : Link} {a : Nat}
    (place : p.data[n.id]? = some n) (child : Hangs s p n name m link) (root : q.root = m.id)
    (parent : q.parent = some a) {memo : Sql.Memo} (kept : memos[k]? = some memo)
    (fresh : Sql.Memo.ofPlan p k = .ok memo) : Due db p rows memos (p.awaited tables rows) k := by
  have awaits := awaited_child valid place child query root parent tables rows
  generalize values :
    distinctValues ((rows[a]?).getD []) (n.columnLabel link.parentField) = batch at awaits
  have binds := bound_below valid query place child root parent values memo
  cases empty : batch.isEmpty with
  | true =>
      rw [empty, if_pos rfl] at binds
      refine .skipped query kept binds ?_
      rw [awaits, List.isEmpty_iff.mp empty]
      exact List.filter_eq_nil_iff.mpr fun row _ => by simp
  | false =>
      rw [empty, if_neg Bool.false_ne_true] at binds
      have nonempty : batch ≠ [] := by
        rintro rfl
        cases empty
      obtain ⟨statement, rendered⟩ : Result.Succeeds (memo.setBatch batch).statement.1 :=
        Sql.Memo.statement_after_succeeds valid sound query fresh [.setBatch batch]
          fun _ => Sql.Memo.setBatch_batch_ne_nil nonempty
      refine .sent query kept binds rendered fun state => ?_
      have single : isSingle p q = false := by rw [isSingle, parent]; rfl
      rw [send, single, awaits]
      exact serves.below query (root ▸ child.found) (linkLabel_eq valid child) fresh rendered state

/-- Answering a level leaves the next ones untouched, and the answers above as they are. -/
theorem Reached.step (valid : p.Over s plural request) {ready : Preparation}
    {level : List Nat} (members : ∀ k, k ∈ level ↔ ∃ q, p.queries[k]? = some q ∧ q.depth = d)
    (reached : Reached p tables d memos rows)
    (prepared : Prepared db (p.awaited tables rows) memos level ready) {next : List (List Row)}
    (count : next.length = rows.length)
    (filled : ∀ k ∈ level, next[k]? = some (p.awaited tables rows k))
    (others : ∀ k, k ∉ level → next[k]? = rows[k]?) :
    Reached p tables (d + 1) ready.memos next := by
  have outside : ∀ (k : Nat) (q : QueryNode), p.queries[k]? = some q → q.depth ≠ d → k ∉ level := by
    intro k q query different listed
    obtain ⟨q', query', depth⟩ := (members k).mp listed
    cases query.symm.trans query'
    exact different depth
  have same : ∀ (k : Nat) (q : QueryNode), p.queries[k]? = some q → q.depth ≤ d →
      p.awaited tables next k = p.awaited tables rows k := by
    intro k q query notBelow
    refine awaited_congr fun q' a query' parent => ?_
    cases query.symm.trans query'
    obtain ⟨above, found, higher⟩ := valid.depth_parent query parent
    exact others a (outside a above found (by omega))
  constructor
  · exact count.trans reached.count
  · intro k q query done
    rw [same k q query (by omega)]
    by_cases here : q.depth = d
    · exact filled k ((members k).mpr ⟨q, query, here⟩)
    · rw [others k (outside k q query here)]
      exact reached.answered k q query (by omega)
  · intro k q query later
    rw [others k (outside k q query (by omega))]
    exact reached.blank k q query (by omega)
  · intro k q query later
    obtain ⟨m, kept, fresh⟩ := reached.fresh k q query (by omega)
    refine ⟨m, ?_, fresh⟩
    rw [prepared.memos k (outside k q query (by omega))]
    exact kept

theorem Reached.due (valid : p.Over s plural request) (sound : s.Sound) (serves : Serves db p tables)
    (reached : Reached p tables d memos rows) (query : p.queries[k]? = some q)
    (later : d ≤ q.depth) : Due db p rows memos (p.awaited tables rows) k := by
  obtain ⟨memo, kept, fresh⟩ := reached.fresh k q query later
  by_cases first : k = 0
  · subst first
    exact due_root valid sound serves query (valid.query_first sound query).2.1 kept fresh
  · obtain ⟨a, n, m, name, link, place, child, root, parent, _⟩ := valid.query_parent sound query first
    exact due_below valid sound serves query place child root parent kept fresh

theorem runLevels_reached (valid : p.Over s plural request) (sound : s.Sound)
    (serves : Serves db p tables) (options : ExecutionOptions) (levels : List (List Nat)) :
    ∀ d (state : σ) (memos : List Sql.Memo) (o : Outcome), levels = p.levels.drop d →
      Reached p tables d memos o.rows →
      ∃ last, (runLevels db options p levels state memos o).result = .ok last ∧
        last.rows.length = p.queries.length ∧
        ∀ (k : Nat) (q : QueryNode), p.queries[k]? = some q →
          last.rows[k]? = some (p.awaited tables last.rows k) := by
  induction levels with
  | nil =>
      intro d state memos o rest reached
      refine ⟨o, rfl, reached.count, fun k q query => reached.answered k q query ?_⟩
      have short := List.drop_eq_nil_iff.mp rest.symm
      have listed := valid.mem_level.mpr ⟨q, query, rfl⟩
      by_contra deep
      rw [List.getElem?_eq_none (by omega)] at listed
      cases listed
  | cons level later ih =>
      intro d state memos o rest reached
      obtain ⟨here, others⟩ := getElem?_of_cons_eq_drop rest
      have members : ∀ k, k ∈ level ↔ ∃ q, p.queries[k]? = some q ∧ q.depth = d := by
        intro k
        rw [← valid.mem_level, here, Option.getD_some]
      have distinct : level.Nodup := by
        have nodup := valid.nodup_level d
        rwa [here, Option.getD_some] at nodup
      have due : ∀ k ∈ level, Due db p o.rows memos (p.awaited tables o.rows) k := by
        intro k listed
        obtain ⟨q, query, depth⟩ := (members k).mp listed
        exact reached.due valid sound serves query (Nat.le_of_eq depth.symm)
      have blank : ∀ k ∈ level, o.rows[k]? = some [] := by
        intro k listed
        obtain ⟨q, query, depth⟩ := (members k).mp listed
        exact reached.blank k q query (Nat.le_of_eq depth.symm)
      obtain ⟨prepared, next, settled, count, filled, kept⟩ := settle_level o distinct due blank
        options.failurePolicy (o.skipped ++ (prepare p o.rows memos level).skipped) state
      have reachedNext := reached.step valid members prepared count filled kept
      obtain ⟨last, ran, answered⟩ :=
        ih (d + 1) (sendAll db (prepare p o.rows memos level).jobs state).2 _ next others reachedNext
      refine ⟨last, ?_, answered⟩
      simp only [runLevels, prepared.failure, settled]
      exact ran

end Run

/-- A value of a row is among the distinct values of its column, up to its key. -/
theorem exists_distinctValues {rows : List Row} {row : Row} {label : String} {value : Value}
    (member : row ∈ rows) (own : Row.link? row label = some value)
    (self : Value.sameKey value value = true) :
    ∃ b ∈ distinctValues rows label, Value.sameKey value b = true := by
  obtain ⟨found, present⟩ := Option.filter_eq_some_iff.mp own
  refine Value.exists_distinct ?_ self
  exact List.mem_filter.mpr ⟨List.mem_filterMap.mpr ⟨row, member, found⟩, present⟩

/-- Rows that match a row above are among the rows that were answered. -/
theorem agree_of_awaited (valid : p.Over s plural request) {tables rows : List (List Row)}
    (answered : ∀ (k : Nat) (q : QueryNode), p.queries[k]? = some q →
      rows[k]? = some (p.awaited tables rows k)) :
    Agree s p rows tables Value.sameKey Value.sameKey := by
  intro n m name link row place child many member
  obtain ⟨a, k, q, above, owner, _, query, root, parent, _⟩ := valid.owner_plural child many
  have table : p.tableOf tables m = (tables[k]?).getD [] := by
    rw [tableOf, owner]
    rfl
  have tableAbove : p.tableOf rows n = (rows[a]?).getD [] := by
    rw [tableOf, above]
    rfl
  have fetched : p.tableOf rows m =
      answerTo (distinctValues (p.tableOf rows n) (n.columnLabel link.parentField))
        (m.matchLabel link) (p.tableOf tables m) := by
    rw [table, tableAbove, ← awaited_child valid place child query root parent tables rows, tableOf,
      owner, Option.bind_some, answered k q query]
    rfl
  rw [matching, matching, fetched, answerTo, List.filter_filter]
  refine List.filter_congr fun r _ => ?_
  cases key : Row.link? row (n.columnLabel link.parentField) with
  | none => cases Row.link? r (m.matchLabel link) <;> rfl
  | some value =>
      cases own : Row.link? r (m.matchLabel link) with
      | none => rfl
      | some other =>
          cases same : Value.sameKey other value with
          | false => simp only [linked, same, Bool.false_and]
          | true =>
              have self := Value.sameKey_trans (Value.sameKey_symm same) same
              obtain ⟨b, bound, alike⟩ := exists_distinctValues member key self
              have equal := Value.beq_of_sameKey (Value.sameKey_trans same alike)
              have found := (Option.filter_eq_some_iff.mp own).1
              have kept : (distinctValues (p.tableOf rows n) (n.columnLabel link.parentField)).any
                  (other == ·) = true := List.any_eq_true.mpr ⟨b, bound, equal⟩
              simp only [linked, same, found, Option.any_some, kept, Bool.and_self]

theorem headD_eq_getD (rows : List (List Row)) : rows.headD [] = (rows[0]?).getD [] := by
  rw [List.headD_eq_head?_getD, List.head?_eq_getElem?]

theorem rootRows_of_awaited (valid : p.Over s plural request) (sound : s.Sound)
    {tables rows : List (List Row)}
    (answered : ∀ (k : Nat) (q : QueryNode), p.queries[k]? = some q →
      rows[k]? = some (p.awaited tables rows k)) :
    rootRows plural (tables.headD []) = rootRows plural (rows.headD []) := by
  obtain ⟨root, top⟩ := valid.top
  obtain ⟨k, q, owner, query, _⟩ := valid.owner top.found
  cases owner.symm.trans (valid.owner_root sound)
  have alone : q.parent = none := (valid.query_first sound query).2.1
  rw [headD_eq_getD rows, answered 0 q query, awaited_root valid query alone, Option.getD_some,
    rootRows_rootRows, headD_eq_getD]

theorem ofPlan_memos (valid : p.Over s plural request) (sound : s.Sound) (options : ExecutionOptions) :
    ∃ memos, PreparedPlan.ofPlan p options = .ok ⟨p, memos, options⟩ ∧
      memos.length = p.queries.length ∧ ∀ (k : Nat) (q : QueryNode), p.queries[k]? = some q →
        ∃ m, memos[k]? = some m ∧ Sql.Memo.ofPlan p k = .ok m := by
  obtain ⟨memos, made⟩ :
      Result.Succeeds ((List.range p.queries.length).mapM (Sql.Memo.ofPlan p)) := by
    apply Result.Succeeds.mapM
    intro k listed
    have query := List.getElem?_eq_getElem (List.mem_range.mp listed)
    exact Sql.Memo.ofPlan_succeeds valid sound query
  obtain ⟨count, each⟩ := Result.mapM_getElem? made
  rw [List.length_range] at count
  refine ⟨memos, ?_, count, ?_⟩
  · rw [PreparedPlan.ofPlan, made]
    rfl
  · intro k q query
    have inside := (List.getElem?_eq_some_iff.mp query).1
    exact each k k (List.getElem?_range inside)

theorem reached_ofPlan (valid : p.Over s plural request) (sound : s.Sound)
    (options : ExecutionOptions) (tables : List (List Row)) :
    ∃ prepared, PreparedPlan.ofPlan p options = .ok prepared ∧
      prepared.memos.length = p.queries.length ∧
      Reached p tables 0 prepared.memos (Outcome.ofPlan p).rows := by
  obtain ⟨memos, made, count, fresh⟩ := ofPlan_memos valid sound options
  refine ⟨⟨p, memos, options⟩, made, count, ?_⟩
  constructor
  · exact List.length_replicate
  · intro k q _ none
    exact absurd none (Nat.not_lt_zero _)
  · intro k q query _
    have inside := (List.getElem?_eq_some_iff.mp query).1
    exact List.getElem?_replicate_of_lt inside
  · intro k q query _
    exact fresh k q query

/-- Statements that are bound to the distinct values fetched above them give what folding the whole
tables gives, at all depths. -/
theorem run_eq_fold {σ : Type u} (declared : s.Declared) {format : String}
    (built : build s.catalog format plural request = .ok p) (once : request.NamesOnce)
    (options : ExecutionOptions) {tables : List (List Row)} (count : tables.length = p.queries.length)
    {db : Database σ} (serves : Serves db p tables) (state : σ) :
    ∃ prepared, PreparedPlan.ofPlan p options = .ok prepared ∧
      ∃ outcome, (Execution.run db options p prepared.memos state).result = .ok outcome ∧
        p.fold outcome.rows = p.fold tables := by
  have valid := build_over declared built
  have sound := declared.sound
  obtain ⟨prepared, made, length, reached⟩ := reached_ofPlan valid sound options tables
  obtain ⟨outcome, ran, rows, answered⟩ :=
    runLevels_reached valid sound serves options p.levels 0 state prepared.memos (.ofPlan p) rfl
      reached
  have run : Execution.run db options p prepared.memos state =
      runLevels db options p p.levels state prepared.memos (.ofPlan p) :=
    if_neg fun different => different length
  refine ⟨prepared, made, outcome, run ▸ ran, ?_⟩
  rw [fold_eq valid sound once rows, fold_eq valid sound once count,
    nested_congr valid sound (agree_of_awaited valid answered) once
      (rootRows_of_awaited valid sound answered)]

/-- Answers without parameters with the users, and else with the articles of the given ones. -/
def titleDatabase : Database Unit where
  fetch statement state :=
    let rows :=
      if statement.params.isEmpty then (titleRows[0]?).getD []
      else answerTo statement.params "1.authorId" ((titleRows[1]?).getD [])
    (.ok rows, state)
  fetchOne _ state := (.ok none, state)

theorem titleDatabase_serves : ∃ p, build Schema.blog.catalog "user" true titles = .ok p ∧
    titleRows.length = p.queries.length ∧ Serves titleDatabase p titleRows := by
  refine ⟨_, rfl, rfl, ?_, ?_⟩
  · intro m statement root fresh rendered found state
    cases fresh
    cases rendered
    cases found
    rfl
  · intro k q root label m batch statement query found linked fresh rendered state
    match k with
    | 0 =>
        cases query
        cases found
        cases linked
    | 1 =>
        cases query
        cases found
        cases linked
        cases fresh
        match batch with
        | [] => cases rendered
        | [one] =>
            cases rendered
            rfl
        | one :: two :: rest =>
            cases rendered
            -- the batch is followed by the parameters of the order, of which there are none
            change Except.ok (answerTo (one :: two :: (rest ++ [])) "1.authorId" _) = _
            rw [List.append_nil]
            rfl
    | k + 2 => cases query

/-- The article of a user who was not fetched is neither sent nor missed. -/
theorem run_eq_fold_titles : ∃ p prepared outcome,
    build Schema.blog.catalog "user" true titles = .ok p ∧
      PreparedPlan.ofPlan p .standard = .ok prepared ∧
      (Execution.run titleDatabase .standard p prepared.memos ()).result = .ok outcome ∧
      p.fold outcome.rows = p.fold titleRows := by
  obtain ⟨p, built, count, serves⟩ := titleDatabase_serves
  obtain ⟨prepared, made, outcome, ran, same⟩ :=
    run_eq_fold Schema.blog_declared built titles_namesOnce .standard count serves ()
  exact ⟨p, prepared, outcome, built, made, ran, same⟩

end Plan
end NestedQuery
