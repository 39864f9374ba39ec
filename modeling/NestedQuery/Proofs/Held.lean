/- The memos that a plan holds for its statements: running keeps them in order, and each job is a
statement rendered anew for the query of its root. -/
import NestedQuery.Engine
import NestedQuery.Proofs.Levels
import NestedQuery.Proofs.Memo

namespace NestedQuery

open Execution

theorem Sql.Shape.ofPlan_root {p : Plan} {k : Nat} {shape : Sql.Shape}
    (shaped : Sql.Shape.ofPlan p k = .ok shape) : p.queryRoot k = .ok shape.root := by
  obtain ⟨q, query, shaped⟩ := Result.bind_eq_ok.mp shaped
  obtain ⟨root, found, shaped⟩ := Result.bind_eq_ok.mp shaped
  obtain ⟨lateral, _, shaped⟩ := Result.bind_eq_ok.mp shaped
  cases shaped
  rw [Plan.queryRoot, query]
  exact found

theorem Sql.Memo.setBatch_rootQuery (m : Sql.Memo) (batch : List Value) :
    (m.setBatch batch).rootQuery = m.rootQuery := by
  unfold Sql.Memo.setBatch
  split <;> rfl

theorem Sql.Memo.batch_ofPlan {p : Plan} {k : Nat} {m : Memo} (fresh : ofPlan p k = .ok m) :
    m.batch = [] := by
  obtain ⟨shape, _, fresh⟩ := Result.bind_eq_ok.mp fresh
  cases fresh
  rfl

/-- A new memo is bound to exactly the values that it is given. -/
theorem Sql.Memo.setBatch_fresh {p : Plan} {k : Nat} {m : Memo} (fresh : ofPlan p k = .ok m)
    (batch : List Value) : (m.setBatch batch).batch = batch := by
  rw [setBatch, batch_ofPlan fresh]
  cases batch with
  | nil => exact batch_ofPlan fresh
  | cons first rest => rfl

namespace Plan

variable {p : Plan} {queries : Nat → Query} {memos : List Sql.Memo}

/-- The query that a statement is planned with. -/
def rootQuery (p : Plan) (k : Nat) : Query :=
  match p.queryRoot k with
  | .ok root => root.request.query
  | .error _ => .empty

/-- Memos of the statements of a plan, whatever they have been through, for given queries. -/
def Holds (p : Plan) (queries : Nat → Query) (memos : List Sql.Memo) : Prop :=
  ∀ (k : Nat) (m : Sql.Memo), memos[k]? = some m → m.Coherent p k ∧ m.rootQuery = queries k

/-- The jobs that such statements may be sent as. -/
def Sends (p : Plan) (queries : Nat → Query) (job : Job) : Prop :=
  ∃ q batch, p.queries[job.query]? = some q ∧ job.depth = q.depth ∧ job.single = isSingle p q ∧
    Sql.Statement.anew p job.query (queries job.query) batch = .ok job.statement

theorem rootQuery_ofPlan {k : Nat} {m : Sql.Memo} (fresh : Sql.Memo.ofPlan p k = .ok m) :
    m.rootQuery = p.rootQuery k := by
  obtain ⟨shape, shaped, fresh⟩ := Result.bind_eq_ok.mp fresh
  cases fresh
  rw [rootQuery, Sql.Shape.ofPlan_root shaped]

/-- A new statement that is bound to values is the one that is rendered anew for them. -/
theorem anew_ofPlan {k : Nat} {m : Sql.Memo} (fresh : Sql.Memo.ofPlan p k = .ok m)
    (batch : List Value) : (m.setBatch batch).statement.1 =
      Sql.Statement.anew p k (p.rootQuery k) batch := by
  rw [((Sql.Memo.coherent_ofPlan fresh).setBatch batch).statement.1, Sql.Memo.setBatch_rootQuery,
    rootQuery_ofPlan fresh, Sql.Memo.setBatch_fresh fresh]

theorem holds_ofPlan {options : ExecutionOptions} {prepared : PreparedPlan}
    (made : PreparedPlan.ofPlan p options = .ok prepared) :
    prepared.plan = p ∧ prepared.options = options ∧
      prepared.memos.length = p.queries.length ∧ p.Holds p.rootQuery prepared.memos := by
  obtain ⟨memos, fresh, made⟩ := Result.bind_eq_ok.mp made
  cases made
  obtain ⟨count, each⟩ := Result.mapM_getElem? fresh
  rw [List.length_range] at count
  refine ⟨rfl, rfl, count, fun k m kept => ?_⟩
  have inside := (List.getElem?_eq_some_iff.mp kept).1
  rw [count] at inside
  obtain ⟨again, found, fresh⟩ := each k k (List.getElem?_range inside)
  cases kept.symm.trans found
  exact ⟨Sql.Memo.coherent_ofPlan fresh, rootQuery_ofPlan fresh⟩

theorem Holds.set (held : p.Holds queries memos) {k : Nat} {next : Sql.Memo}
    (coherent : next.Coherent p k) (query : next.rootQuery = queries k) :
    p.Holds queries (memos.set k next) := by
  intro j m kept
  rw [List.getElem?_set] at kept
  split at kept
  · next same =>
      subst same
      split at kept
      · cases kept
        exact ⟨coherent, query⟩
      · cases kept
  · exact held j m kept

/-- Binding a statement leaves the query for its root. -/
theorem Holds.bound {rows : List (List Row)} {k : Nat} {q : QueryNode} {memo given : Sql.Memo}
    (binds : bound p rows q memo = .ok (some given)) (coherent : memo.Coherent p k) :
    given.Coherent p k ∧ given.rootQuery = memo.rootQuery := by
  unfold Execution.bound at binds
  split at binds
  · cases binds
    exact ⟨coherent, rfl⟩
  · obtain ⟨label, _, binds⟩ := Result.bind_eq_ok.mp binds
    simp only at binds
    split at binds
    · cases binds
    · cases binds
      exact ⟨coherent.setBatch _, memo.setBatch_rootQuery _⟩

/-- Preparing a level keeps the memos in order, and its jobs are statements rendered anew. -/
theorem Holds.prepare (held : p.Holds queries memos) (rows : List (List Row)) (level : List Nat) :
    p.Holds queries (prepare p rows memos level).memos ∧
      ∀ job ∈ (prepare p rows memos level).jobs, p.Sends queries job := by
  induction level generalizing memos with
  | nil => exact ⟨held, List.forall_mem_nil _⟩
  | cons k rest ih =>
      cases query : p.queries[k]? with
      | none =>
          simp only [Execution.prepare, query]
          exact ⟨held, List.forall_mem_nil _⟩
      | some q =>
          cases kept : memos[k]? with
          | none =>
              simp only [Execution.prepare, query, kept]
              exact ⟨held, List.forall_mem_nil _⟩
          | some memo =>
              obtain ⟨coherent, own⟩ := held k memo kept
              cases binds : Execution.bound p rows q memo with
              | error error =>
                  simp only [Execution.prepare, query, kept, binds]
                  exact ⟨held, List.forall_mem_nil _⟩
              | ok batch =>
                  cases batch with
                  | none =>
                      simp only [Execution.prepare, query, kept, binds]
                      exact ih held
                  | some given =>
                      obtain ⟨bound, same⟩ := Holds.bound binds coherent
                      obtain ⟨anew, left, _, after⟩ := bound.statement
                      have still : p.Holds queries (memos.set k given.statement.2) :=
                        held.set after (left.trans (same.trans own))
                      cases rendered : given.statement.1 with
                      | error error =>
                          simp only [Execution.prepare, query, kept, binds, rendered]
                          exact ⟨still, List.forall_mem_nil _⟩
                      | ok statement =>
                          simp only [Execution.prepare, query, kept, binds, rendered]
                          obtain ⟨later, jobs⟩ := ih still
                          refine ⟨later, List.forall_mem_cons.mpr ⟨?_, jobs⟩⟩
                          refine ⟨q, given.batch, query, rfl, rfl, ?_⟩
                          rw [rendered, same, own] at anew
                          exact anew.symm

theorem Holds.runLevels {σ : Type u} (db : Database σ) (options : ExecutionOptions)
    (levels : List (List Nat)) (held : p.Holds queries memos) (state : σ) (o : Outcome) :
    p.Holds queries (runLevels db options p levels state memos o).memos := by
  induction levels generalizing memos state o with
  | nil => exact held
  | cons level rest ih =>
      have ready := (held.prepare o.rows level).1
      simp only [Execution.runLevels]
      cases (Execution.prepare p o.rows memos level).failure with
      | some error => exact ready
      | none =>
          cases settle options.failurePolicy
              { o with skipped := o.skipped ++ (Execution.prepare p o.rows memos level).skipped }
              (sendAll db (Execution.prepare p o.rows memos level).jobs state).1 with
          | error error => exact ready
          | ok next => exact ih ready _ next

/-- However a run ends, the memos are still held for the same queries. -/
theorem Holds.run {σ : Type u} (db : Database σ) (options : ExecutionOptions)
    (held : p.Holds queries memos) (state : σ) :
    p.Holds queries (run db options p memos state).memos := by
  unfold Execution.run
  split
  · exact held
  · exact held.runLevels db options p.levels state _

/-- However a run goes, it sends nothing but the statements that are held. -/
theorem Holds.takes {a : Answers} {policy : FailurePolicy} {levels : List (List Nat)} {o : Outcome}
    {course : Course} (held : p.Holds queries memos)
    (takes : Answers.Takes a policy p levels memos o course) :
    ∀ job ∈ course.sent, p.Sends queries job := by
  induction takes with
  | finished => exact List.forall_mem_nil _
  | refused => exact List.forall_mem_nil _
  | @givenUp level _ _ o => exact (held.prepare o.rows level).2
  | @onward level _ _ o _ _ _ _ _ ih =>
      obtain ⟨ready, jobs⟩ := held.prepare o.rows level
      exact List.forall_mem_append.mpr ⟨jobs, ih ready⟩

end Plan
end NestedQuery
