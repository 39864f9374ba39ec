/- After planning nothing goes wrong but what the database refuses: whatever the statements of a plan
have been through, they are rendered, explained and sent, and what they fetch is folded. -/
import NestedQuery.Proofs.Batching
import NestedQuery.Proofs.Recording

namespace NestedQuery

open Result (Succeeds)

theorem Result.Succeeds.foldlM {α β : Type u} {xs : List α} {f : β → α → Result β}
    (steps : ∀ x ∈ xs, ∀ state, Succeeds (f state x)) (start : β) : Succeeds (xs.foldlM f start) := by
  induction xs generalizing start with
  | nil => exact .ok start
  | cons x rest ih =>
      obtain ⟨first, later⟩ := List.forall_mem_cons.mp steps
      rw [List.foldlM_cons]
      apply (first start).bind
      intro next _
      exact ih later next

namespace Plan

open Execution

variable {s : Schema} {p : Plan} {plural : Bool} {request : Request}

section Folding

variable {below : Below} {row : Row} {n m : DataNode} {name : String} {link : Link}

theorem attach_succeeds (valid : p.Over s plural request) (place : p.data[n.id]? = some n)
    (child : Hangs s p n name m link) (object : Succeeds (p.object below row m.id))
    (fields : Fields Tree) : Succeeds (p.attach below row n.id n fields (name, m.id)) := by
  simp only [attach, dataNode_eq_ok child.found, parentKey_eq valid place child, Result.ok_bind,
    valid.isAbsorbed_eq child]
  cases m.plural with
  | true => exact .ok _
  | false =>
      simp only [Bool.not_false, if_true, isPresent_eq valid child, Result.ok_bind]
      cases linked (· == ·) (Row.link? row (m.matchLabel link))
          (Row.link? row (n.columnLabel link.parentField)) with
      | true =>
          have inside := (List.getElem?_eq_some_iff.mp child.found).1
          simp only [if_true, child.after, inside, and_self]
          apply object.bind
          intro tree _
          exact .ok _
      | false => exact .ok _

/-- A row has an object, by recursion on the nodes after the given one. -/
theorem object_succeeds (valid : p.Over s plural request) (sound : s.Sound) (below : Below)
    (row : Row) {n : DataNode} (place : p.data[n.id]? = some n) :
    Succeeds (p.object below row n.id) := by
  rw [object_eq_attach, dataNode_eq_ok place, Result.ok_bind, scalars_eq (valid.planned place),
    Result.ok_bind]
  apply Succeeds.bind
  · apply Succeeds.foldlM
    rintro ⟨name, id⟩ listed fields
    obtain ⟨m, link, rfl, child⟩ := valid.child sound place listed
    have after := child.after
    have inside := (List.getElem?_eq_some_iff.mp child.found).1
    exact attach_succeeds valid place child (object_succeeds valid sound below row child.found) fields
  · intro fields _
    exact .ok _
termination_by p.data.length - n.id

theorem groups_succeeds (valid : p.Over s plural request) (sound : s.Sound) (below : Below)
    (child : Hangs s p n name m link) (rows : List Row) : Succeeds (p.groups below m rows) := by
  rw [groups, linkLabel_eq valid child, Result.ok_bind]
  apply Succeeds.foldlM
  intro row _ groups
  cases Row.link? row (m.matchLabel link) with
  | none => exact .ok groups
  | some key =>
      apply (object_succeeds valid sound below row child.found).bind
      intro object _
      exact .ok _

theorem groupsOf_succeeds (valid : p.Over s plural request) (sound : s.Sound)
    (rows : List (List Row)) {queries : List QueryNode}
    (known : ∀ q ∈ queries, ∃ k ≠ 0, p.queries[k]? = some q) :
    Succeeds (p.groupsOf rows queries) := by
  induction queries with
  | nil => exact .ok []
  | cons q rest ih =>
      obtain ⟨⟨k, later, query⟩, others⟩ := List.forall_mem_cons.mp known
      obtain ⟨a, n, m, name, link, _, child, root, _⟩ := valid.query_parent sound query later
      rw [groupsOf]
      apply (ih others).bind
      intro below _
      rw [root, dataNode_eq_ok child.found, Result.ok_bind]
      apply (groups_succeeds valid sound below child _).bind
      intro own _
      exact .ok _

theorem fold_succeeds (valid : p.Over s plural request) (sound : s.Sound) {rows : List (List Row)}
    (count : rows.length = p.queries.length) : Succeeds (p.fold rows) := by
  obtain ⟨root, top⟩ := valid.top
  have place : p.data[root.id]? = some root := top.id_eq ▸ top.found
  have known : ∀ q ∈ p.queries.drop 1, ∃ k ≠ 0, p.queries[k]? = some q := by
    intro q listed
    obtain ⟨i, query⟩ := List.mem_iff_getElem?.mp listed
    rw [List.getElem?_drop] at query
    exact ⟨1 + i, by omega, query⟩
  rw [fold, if_neg fun different => different count]
  apply (groupsOf_succeeds valid sound rows known).bind
  intro below _
  rw [dataNode_eq_ok top.found, Result.ok_bind]
  apply Succeeds.bind
  · apply Succeeds.mapM
    intro row _
    exact object_succeeds valid sound below row place
  · intro objects _
    exact .ok _

end Folding

/-- One memo for each statement of a plan, made for it and then called in any way. -/
structure Statements (p : Plan) (memos : List Sql.Memo) : Prop where
  count : memos.length = p.queries.length
  made : ∀ {k : Nat} {m : Sql.Memo}, memos[k]? = some m →
    ∃ fresh calls, Sql.Memo.ofPlan p k = .ok fresh ∧ m = fresh.after calls

namespace Statements

variable {memos : List Sql.Memo} {k : Nat} {m : Sql.Memo}

theorem query (held : p.Statements memos) (kept : memos[k]? = some m) :
    ∃ q, p.queries[k]? = some q := by
  have inside := (List.getElem?_eq_some_iff.mp kept).1
  rw [held.count] at inside
  exact ⟨_, List.getElem?_eq_getElem inside⟩

theorem kept (held : p.Statements memos) {q : QueryNode} (query : p.queries[k]? = some q) :
    ∃ m, memos[k]? = some m := by
  have inside := (List.getElem?_eq_some_iff.mp query).1
  rw [← held.count] at inside
  exact ⟨_, List.getElem?_eq_getElem inside⟩

/-- More calls on each of the statements leave statements that were called. -/
theorem called (held : p.Statements memos) {later : List Sql.Memo}
    (count : later.length = memos.length)
    (each : ∀ (k : Nat) (m : Sql.Memo), later[k]? = some m →
      ∃ before calls, memos[k]? = some before ∧ m = before.after calls) : p.Statements later := by
  constructor
  · rw [count, held.count]
  · intro k m found
    obtain ⟨before, more, kept, rfl⟩ := each k m found
    obtain ⟨fresh, calls, made, rfl⟩ := held.made kept
    exact ⟨fresh, calls ++ more, made, (Sql.Memo.after_append fresh calls more).symm⟩

theorem set (held : p.Statements memos) (kept : memos[k]? = some m) (calls : List Sql.Memo.Call) :
    p.Statements (memos.set k (m.after calls)) := by
  refine held.called List.length_set fun j other found => ?_
  by_cases same : k = j
  · subst same
    rw [List.getElem?_set_self (List.getElem?_eq_some_iff.mp kept).1] at found
    cases found
    exact ⟨m, calls, kept, rfl⟩
  · rw [List.getElem?_set_ne same] at found
    exact ⟨other, [], found, rfl⟩

theorem statement_succeeds (held : p.Statements memos) (valid : p.Over s plural request)
    (sound : s.Sound) (kept : memos[k]? = some m) (calls : List Sql.Memo.Call)
    (bound : k ≠ 0 → (m.after calls).batch ≠ []) : Succeeds (m.after calls).statement.1 := by
  obtain ⟨q, query⟩ := held.query kept
  obtain ⟨fresh, before, made, rfl⟩ := held.made kept
  rw [← Sql.Memo.after_append] at bound ⊢
  exact Sql.Memo.statement_after_succeeds valid sound query made (before ++ calls) bound

end Statements

section Running

variable {memos : List Sql.Memo} {rows : List (List Row)} {k : Nat} {q : QueryNode}

/-- Binding never fails: the statement is left out, or called so that it can be rendered. -/
theorem bound_cases (valid : p.Over s plural request) (sound : s.Sound)
    (query : p.queries[k]? = some q) (rows : List (List Row)) (memo : Sql.Memo) :
    bound p rows q memo = .ok none ∨
      ∃ calls, bound p rows q memo = .ok (some (memo.after calls)) ∧
        (k ≠ 0 → (memo.after calls).batch ≠ []) := by
  by_cases first : k = 0
  · refine .inr ⟨[], ?_, fun below => absurd first below⟩
    subst first
    rw [bound, (valid.query_first sound query).2.1]
    rfl
  · obtain ⟨a, n, m, name, link, place, child, root, parent, _⟩ := valid.query_parent sound query first
    have binds : bound p rows q memo = _ := bound_below valid query place child root parent rfl memo
    generalize distinctValues ((rows[a]?).getD []) (n.columnLabel link.parentField) = batch at binds
    cases batch with
    | nil => exact .inl binds
    | cons first rest =>
        refine .inr ⟨[.setBatch (first :: rest)], binds, fun _ => ?_⟩
        exact Sql.Memo.setBatch_batch_ne_nil (List.cons_ne_nil first rest)

/-- A level can be sent: nothing failed before, and each job is for a statement of the plan. -/
structure Sendable (p : Plan) (ready : Preparation) : Prop where
  failure : ready.failure = none
  memos : p.Statements ready.memos
  jobs : ∀ job ∈ ready.jobs, job.query < p.queries.length

theorem prepare_sendable (valid : p.Over s plural request) (sound : s.Sound)
    (held : p.Statements memos) {level : List Nat}
    (known : ∀ k ∈ level, ∃ q, p.queries[k]? = some q) : p.Sendable (prepare p rows memos level) := by
  induction level generalizing memos with
  | nil => exact ⟨rfl, held, nofun⟩
  | cons k rest ih =>
      obtain ⟨⟨q, query⟩, others⟩ := List.forall_mem_cons.mp known
      obtain ⟨memo, kept⟩ := held.kept query
      rcases bound_cases valid sound query rows memo with unbound | ⟨calls, binds, batch⟩
      · simp only [prepare, query, kept, unbound]
        have after := ih held others
        exact ⟨after.failure, after.memos, after.jobs⟩
      · obtain ⟨statement, rendered⟩ := held.statement_succeeds valid sound kept calls batch
        have sent : p.Statements (memos.set k (memo.after calls).statement.2) := by
          have again := held.set kept (calls ++ [Sql.Memo.Call.statement])
          rwa [Sql.Memo.after_concat_statement] at again
        simp only [prepare, query, kept, binds, rendered]
        have after := ih sent others
        refine ⟨after.failure, after.memos, List.forall_mem_cons.mpr ⟨?_, after.jobs⟩⟩
        exact (List.getElem?_eq_some_iff.mp query).1

/-- How sending statements may end: well, or with the failure that one of those sent has met. -/
inductive Ends (p : Plan) (log : List Sent) {α : Type} (holds : α → Prop) : Result α → Prop
  | well {a : α} (done : holds a) : Ends p log holds (.ok a)
  | failed {k : Nat} {sent : Sent} {failure : QueryError} (query : k < p.queries.length)
      (listed : sent ∈ log) (met : sent.failure = some failure) :
      Ends p log holds (.error (.statement k sent.statement.text failure.message))

theorem Ends.mono {α : Type} {holds : α → Prop} {log more : List Sent} {result : Result α}
    (ends : p.Ends log holds result) (grown : log ⊆ more) : p.Ends more holds result := by
  cases ends with
  | well done => exact .well done
  | failed query listed met => exact .failed query (grown listed) met

theorem Ends.bind {α β : Type} {holds : α → Prop} {log : List Sent} {result : Result α}
    {f : α → Result β} (ends : p.Ends log holds result)
    (succeeds : ∀ a, holds a → Succeeds (f a)) :
    p.Ends log (fun _ => True) (result.bind f) := by
  cases ends with
  | well done =>
      obtain ⟨b, same⟩ := succeeds _ done
      rw [Except.bind, same]
      exact .well trivial
  | failed query listed met => exact .failed query listed met

/-- There is a list of rows for each statement of the plan. -/
def Counted (p : Plan) (o : Outcome) : Prop := o.rows.length = p.queries.length

theorem settle_ends (policy : FailurePolicy) {answers : List (Job × Result (List Row))}
    (jobs : ∀ answer ∈ answers, answer.1.query < p.queries.length) {o : Outcome}
    (counted : p.Counted o) : p.Ends (answers.map sentOf) p.Counted (settle policy o answers) := by
  induction answers generalizing o with
  | nil => exact .well counted
  | cons answer rest ih =>
      obtain ⟨first, later⟩ := List.forall_mem_cons.mp jobs
      obtain ⟨job, result⟩ := answer
      have grown : rest.map sentOf ⊆ sentOf (job, result) :: rest.map sentOf :=
        List.subset_cons_self _ _
      cases result with
      | ok rows =>
          have still : p.Counted { o with rows := o.rows.set job.query rows } :=
            List.length_set.trans counted
          exact (ih later still).mono grown
      | error failure =>
          rw [settle]
          split
          · have listed : sentOf (job, .error failure) ∈ sentOf (job, .error failure) ::
                rest.map sentOf := List.mem_cons_self ..
            exact .failed first listed rfl
          · have still : p.Counted { o with degraded := o.degraded ++ [job.query] } := counted
            exact (ih later still).mono grown

variable {σ : Type u} (db : Database σ)

/-- Levels of known statements keep the statements and end well or with a failure that was noted. -/
theorem runLevels_ends (valid : p.Over s plural request) (sound : s.Sound)
    (options : ExecutionOptions) {levels : List (List Nat)}
    (known : ∀ level ∈ levels, ∀ k ∈ level, ∃ q, p.queries[k]? = some q) (state : σ)
    (log : List Sent) (held : p.Statements memos) {o : Outcome} (counted : p.Counted o) :
    let done := runLevels db.recorded options p levels (state, log) memos o
    p.Statements done.memos ∧ p.Ends done.database.2 p.Counted done.result := by
  induction levels generalizing state log memos o with
  | nil => exact ⟨held, .well counted⟩
  | cons level rest ih =>
      obtain ⟨here, later⟩ := List.forall_mem_cons.mp known
      have ready : p.Sendable (prepare p o.rows memos level) :=
        prepare_sendable valid sound held here
      simp only [runLevels]
      generalize prepare p o.rows memos level = prepared at ready
      simp only [ready.failure, sendAll_recorded]
      have jobs : ∀ answer ∈ (sendAll db prepared.jobs state).1,
          answer.1.query < p.queries.length := by
        intro answer listed
        apply ready.jobs
        rw [← sendAll_jobs db prepared.jobs state]
        exact List.mem_map_of_mem listed
      generalize sendAll db prepared.jobs state = answers at jobs
      have still : p.Counted { o with skipped := o.skipped ++ prepared.skipped } := counted
      have ends := settle_ends options.failurePolicy jobs still
      cases settled : settle options.failurePolicy { o with skipped := o.skipped ++ prepared.skipped }
          answers.1 with
      | error error =>
          rw [settled] at ends
          exact ⟨ready.memos, ends.mono (List.subset_append_right _ _)⟩
      | ok next =>
          rw [settled] at ends
          cases ends with
          | well countedNext => exact ih later answers.2 _ ready.memos countedNext

theorem Over.known_levels (valid : p.Over s plural request) :
    ∀ level ∈ p.levels, ∀ k ∈ level, ∃ q, p.queries[k]? = some q := by
  intro level listed k member
  obtain ⟨d, found⟩ := List.mem_iff_getElem?.mp listed
  have inLevel : k ∈ (p.levels[d]?).getD [] := by
    rw [found]
    exact member
  obtain ⟨q, query, _⟩ := valid.mem_level.mp inLevel
  exact ⟨q, query⟩

/-- A run of called statements ends with rows for each of them, or with the failure of one that it
sent. -/
theorem run_ends (valid : p.Over s plural request) (sound : s.Sound) (options : ExecutionOptions)
    (state : σ) (held : p.Statements memos) :
    let noted := Execution.run db.recorded options p memos (state, [])
    let done := Execution.run db options p memos state
    p.Statements done.memos ∧ p.Ends noted.database.2 p.Counted done.result := by
  have counted : p.Counted (.ofPlan p) := List.length_replicate
  have complete : ¬memos.length ≠ p.queries.length := fun different => different held.count
  have noted : p.Statements (Execution.run db.recorded options p memos (state, [])).memos ∧
      p.Ends (Execution.run db.recorded options p memos (state, [])).database.2 p.Counted
        (Execution.run db.recorded options p memos (state, [])).result := by
    rw [Execution.run, if_neg complete]
    exact runLevels_ends db valid sound options valid.known_levels state [] held counted
  obtain ⟨sent, same⟩ := run_recorded db options p memos state
  rw [same] at noted ⊢
  exact noted

end Running

end Plan

namespace PreparedPlan

/-- What can become of a prepared plan. A change that is refused leaves it as it is; an execution that
is given up has called the statements some number of times. -/
inductive Reaches (start : PreparedPlan) : PreparedPlan → Prop
  | start : Reaches start start
  | rootFilter {before after : PreparedPlan} {filter : Option Filter} (reached : Reaches start before)
      (accepted : before.modifyRootFilter filter = .ok after) : Reaches start after
  | rootQuery {before after : PreparedPlan} {query : Query} (reached : Reaches start before)
      (accepted : before.modifyRootQuery query = .ok after) : Reaches start after
  | executed {before : PreparedPlan} (reached : Reaches start before) {σ : Type u} (db : Database σ)
      (state : σ) : Reaches start (before.execute db state).2
  | givenUp {before : PreparedPlan} (reached : Reaches start before) {memos : List Sql.Memo}
      (count : memos.length = before.memos.length)
      (each : ∀ (k : Nat) (m : Sql.Memo), memos[k]? = some m →
        ∃ old calls, before.memos[k]? = some old ∧ m = old.after calls) :
      Reaches start { before with memos := memos }

variable {s : Schema} {p : Plan} {plural : Bool} {request : Request} {start later : PreparedPlan}

/-- A prepared plan whose statements are those of a plan, called in any way. -/
structure Carries (p : Plan) (prepared : PreparedPlan) : Prop where
  plan_eq : prepared.plan = p
  statements : p.Statements prepared.memos

theorem carries_ofPlan (valid : p.Over s plural request) (sound : s.Sound)
    (options : ExecutionOptions) :
    ∃ start, ofPlan p options = .ok start ∧ Carries p start := by
  obtain ⟨memos, made, count, fresh⟩ := Plan.ofPlan_memos valid sound options
  refine ⟨⟨p, memos, options⟩, made, rfl, count, ?_⟩
  intro k m kept
  have inside := (List.getElem?_eq_some_iff.mp kept).1
  rw [count] at inside
  obtain ⟨again, found, fresh⟩ := fresh k _ (List.getElem?_eq_getElem inside)
  cases found.symm.trans kept
  exact ⟨m, [], fresh, rfl⟩

theorem Carries.modifyRoot {before after : PreparedPlan} {change : Sql.Memo → Result Sql.Memo}
    (carries : Carries p before)
    (calls : ∀ m next, change m = .ok next → ∃ call, next = m.step call)
    (accepted : before.modifyRoot change = .ok after) : Carries p after := by
  unfold PreparedPlan.modifyRoot at accepted
  split at accepted
  · cases accepted
  · next root rest listed =>
      obtain ⟨next, changed, accepted⟩ := Result.bind_eq_ok.mp accepted
      cases accepted
      obtain ⟨call, rfl⟩ := calls root next changed
      have held := carries.statements
      rw [listed] at held
      exact ⟨carries.plan_eq, held.set (k := 0) rfl [call]⟩

theorem Carries.reaches (carries : Carries p start) (valid : p.Over s plural request)
    (sound : s.Sound) (reached : start.Reaches later) : Carries p later := by
  induction reached with
  | start => exact carries
  | @rootFilter _ _ filter _ accepted ih =>
      exact ih.modifyRoot (fun m next changed => ⟨.setQuery _, (Sql.Memo.step_of_accepted changed).symm⟩)
        accepted
  | @rootQuery _ _ query _ accepted ih =>
      exact ih.modifyRoot (fun m next changed => ⟨.setQuery query, (Sql.Memo.step_of_accepted changed).symm⟩)
        accepted
  | @executed before _ σ db state ih =>
      have ran := Plan.run_ends db valid sound before.options state ih.statements
      refine ⟨ih.plan_eq, ?_⟩
      rw [execute, ih.plan_eq]
      exact ran.1
  | givenUp _ count each ih => exact ⟨ih.plan_eq, ih.statements.called count each⟩

/-- What is shown of a statement is rendered after calls that bind a batch below the first one. -/
theorem explained_calls (valid : p.Over s plural request) (sound : s.Sound) {k : Nat} {q : QueryNode}
    (query : p.queries[k]? = some q) (memo : Sql.Memo) :
    ∃ calls, (if q.parent.isSome && memo.batch.isEmpty then memo.setBatch [.null] else memo) =
        memo.after calls ∧ (k ≠ 0 → (memo.after calls).batch ≠ []) := by
  by_cases unbound : (q.parent.isSome && memo.batch.isEmpty) = true
  · refine ⟨[.setBatch [.null]], if_pos unbound, fun _ => ?_⟩
    exact Sql.Memo.setBatch_batch_ne_nil (List.cons_ne_nil _ _)
  · refine ⟨[], if_neg unbound, fun below empty => unbound ?_⟩
    have empty : memo.batch = [] := empty
    obtain ⟨a, n, m, name, link, _, _, _, parent, _⟩ := valid.query_parent sound query below
    rw [parent, empty]
    rfl

/-- What is shown of a statement, from the statement that its memo gives, bound to one null if it was
never bound. -/
theorem Carries.explainMemo_eq {prepared : PreparedPlan} (carries : Carries p prepared)
    (valid : p.Over s plural request) {k : Nat} {memo : Sql.Memo}
    (kept : prepared.memos[k]? = some memo) : ∃ q root, p.queries[k]? = some q ∧
      prepared.explainMemo memo = do
        let memo := if q.parent.isSome && memo.batch.isEmpty then memo.setBatch [.null] else memo
        let statement ← memo.statement.1
        return ⟨k, q.parent, root, memo.lateral, statement.text, statement.params⟩ := by
  obtain ⟨q, query⟩ := carries.statements.query kept
  obtain ⟨root, found⟩ := valid.root_found query
  obtain ⟨fresh, before, made, same⟩ := carries.statements.made kept
  have number : memo.query = k := same ▸ ((Sql.Memo.coherent_ofPlan made).after before).query_eq
  have id : q.id = k := (valid.parts.queries k q query).1
  refine ⟨q, root.path, query, ?_⟩
  rw [explainMemo, carries.plan_eq, number, Plan.query_eq_ok.mpr query, Result.ok_bind, id,
    Plan.queryRoot_eq_ok query found]
  rfl

theorem Carries.explain_succeeds {prepared : PreparedPlan} (carries : Carries p prepared)
    (valid : p.Over s plural request) (sound : s.Sound) : Succeeds prepared.explain := by
  apply Succeeds.mapM
  intro memo listed
  obtain ⟨k, kept⟩ := List.mem_iff_getElem?.mp listed
  obtain ⟨q, root, query, same⟩ := carries.explainMemo_eq valid kept
  obtain ⟨calls, shown, bound⟩ := explained_calls valid sound query memo
  have rendered := carries.statements.statement_succeeds valid sound kept calls bound
  rw [same, shown]
  apply rendered.bind
  intro statement _
  exact .ok _

theorem Carries.execute_ends {prepared : PreparedPlan} (carries : Carries p prepared)
    (valid : p.Over s plural request) (sound : s.Sound) {σ : Type u} (db : Database σ) (state : σ) :
    p.Ends (prepared.execute db.recorded (state, [])).1.database.2 (fun _ => True)
      (prepared.execute db state).1.result := by
  have ran := Plan.run_ends db valid sound prepared.options state carries.statements
  simp only [execute, carries.plan_eq]
  exact ran.2.bind fun outcome counted => Plan.fold_succeeds valid sound counted

end PreparedPlan

namespace Plan

/-- After planning nothing goes wrong but the database. The plan can be prepared; whatever becomes of
it, it is explained, and no execution fails but with a failure that a sent statement has met. Each
statement is rendered whatever it has been through, below the first one once a batch is bound. Running
such statements gives rows for each of them or ends with such a failure, and one list of rows for each
statement can be folded. -/
theorem build_safe {s : Schema} (declared : s.Declared) {format : String} {plural : Bool}
    {request : Request} {p : Plan} (built : build s.catalog format plural request = .ok p)
    (options : ExecutionOptions) :
    (∃ start, PreparedPlan.ofPlan p options = .ok start ∧
      ∀ later, PreparedPlan.Reaches.{u} start later → Succeeds later.explain ∧
        ∀ {σ : Type u} (db : Database σ) (state : σ),
          p.Ends (later.execute db.recorded (state, [])).1.database.2 (fun _ => True)
            (later.execute db state).1.result) ∧
      (∀ k < p.queries.length, ∃ fresh, Sql.Memo.ofPlan p k = .ok fresh ∧ ∀ calls,
        (k = 0 → Succeeds (fresh.after calls).statement.1) ∧
          ∀ batch ≠ [], Succeeds ((fresh.after calls).setBatch batch).statement.1) ∧
      (∀ {σ : Type u} (db : Database σ) (state : σ) (memos : List Sql.Memo), p.Statements memos →
        p.Ends (Execution.run db.recorded options p memos (state, [])).database.2 p.Counted
          (Execution.run db options p memos state).result) ∧
      ∀ rows, rows.length = p.queries.length → Succeeds (p.fold rows) := by
  have valid := build_over declared built
  have sound := declared.sound
  refine ⟨?_, ?_, ?_, ?_⟩
  · obtain ⟨start, made, carries⟩ := PreparedPlan.carries_ofPlan valid sound options
    refine ⟨start, made, fun later reached => ?_⟩
    have still := carries.reaches valid sound reached
    exact ⟨still.explain_succeeds valid sound, fun db state => still.execute_ends valid sound db state⟩
  · intro k inside
    have query := List.getElem?_eq_getElem inside
    obtain ⟨fresh, made⟩ := Sql.Memo.ofPlan_succeeds valid sound query
    refine ⟨fresh, made, fun calls => ⟨fun first => ?_, fun batch nonempty => ?_⟩⟩
    · exact Sql.Memo.statement_after_succeeds valid sound query made calls fun below =>
        absurd first below
    · have bound : (fresh.after calls).setBatch batch = fresh.after (calls ++ [.setBatch batch]) :=
        (Sql.Memo.after_append fresh calls [.setBatch batch]).symm
      have nonempty' := Sql.Memo.setBatch_batch_ne_nil (m := fresh.after calls) nonempty
      rw [bound] at nonempty' ⊢
      exact Sql.Memo.statement_after_succeeds valid sound query made _ fun _ => nonempty'
  · intro σ db state memos held
    exact (run_ends db valid sound options state held).2
  · intro rows count
    exact fold_succeeds valid sound count

def refusing : Database Unit where
  fetch _ state := (.error (.database "refused"), state)
  fetchOne _ state := (.error (.database "refused"), state)

/-- A plan over two tables is explained and folded, and only the refusal of a statement can end its
execution. -/
theorem build_safe_titles : ∃ p start, build Schema.blog.catalog "user" true titles = .ok p ∧
    PreparedPlan.ofPlan p .standard = .ok start ∧ Succeeds start.explain ∧
    Succeeds (p.fold titleRows) ∧
    p.Ends (start.execute refusing.recorded ((), [])).1.database.2 (fun _ => True)
      (start.execute refusing ()).1.result := by
  have planned : ∃ p, build Schema.blog.catalog "user" true titles = .ok p ∧
      titleRows.length = p.queries.length := ⟨_, rfl, rfl⟩
  obtain ⟨p, built, count⟩ := planned
  obtain ⟨⟨start, made, safe⟩, _, _, folds⟩ := build_safe Schema.blog_declared built .standard
  obtain ⟨explained, executed⟩ := safe start .start
  exact ⟨p, start, built, made, explained, folds titleRows count, executed refusing ()⟩

end Plan
end NestedQuery
