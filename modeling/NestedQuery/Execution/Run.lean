/- Executing the statements of a plan, level by level. -/
import NestedQuery.Config.Basic
import NestedQuery.Execution.Database
import NestedQuery.Execution.Measurement
import NestedQuery.Sql.Memo

namespace NestedQuery

structure ExecutionOptions where
  failurePolicy : FailurePolicy
  /-- How many statements of a level may be in flight at once. -/
  maxConcurrency : Nat
  deriving DecidableEq, Repr

namespace ExecutionOptions

def ofConfig (c : ExecutionConfig) : ExecutionOptions :=
  ⟨c.failurePolicy, max c.maxConcurrency.toNat 1⟩

def standard : ExecutionOptions := ofConfig .standard

def strict : ExecutionOptions := { standard with failurePolicy := .strict }

end ExecutionOptions

/-- The rows of each statement by its id, the statements that were not sent because their parent had
no values for them, and those that failed. -/
structure Outcome where
  rows : List (List Row)
  skipped : List Nat
  degraded : List Nat
  deriving Repr

namespace Outcome

def ofPlan (p : Plan) : Outcome := ⟨List.replicate p.queries.length [], [], []⟩

def statementsIssued (o : Outcome) : Nat := o.rows.length - o.skipped.length

end Outcome

namespace Execution

/-- A statement that is about to be sent; a single record is fetched on its own. -/
structure Job where
  query : Nat
  depth : Nat
  single : Bool
  statement : Sql.Statement
  deriving Repr

/-- The label, in the rows of the parent statement, of the values that a statement is linked on. -/
def parentLinkLabel (p : Plan) (query : Nat) : Result String := do
  let root ← p.queryRoot query
  match root.parent, root.link with
  | some parent, some link =>
    let parent ← p.dataNode parent
    parent.selection.requireLabel link.parentField
  | _, _ => fail (.statementWithoutLink query)

/-- The values of a column that are not null, each once, in the order in which they are first seen. -/
def distinctValues (rows : List Row) (label : String) : List Value :=
  Value.distinct ((rows.filterMap (Fields.find? label)).filter (!·.isNull))

/-- The memo of a statement with its parent's values bound, or nothing if there are none. -/
def bound (p : Plan) (rows : List (List Row)) (query : QueryNode) (memo : Sql.Memo) :
    Result (Option Sql.Memo) :=
  match query.parent with
  | none => .ok (some memo)
  | some parent => do
    let label ← parentLinkLabel p query.id
    let batch := distinctValues ((rows[parent]?).getD []) label
    return if batch.isEmpty then none else some (memo.setBatch batch)

/-- What a level sends: the memos after binding, the jobs in order, and the skipped statements. A
failure ends the preparation. -/
structure Preparation where
  memos : List Sql.Memo
  jobs : List Job
  skipped : List Nat
  failure : Option QueryError
  deriving Repr

def prepare (p : Plan) (rows : List (List Row)) (memos : List Sql.Memo) :
    List Nat → Preparation
  | [] => ⟨memos, [], [], none⟩
  | id :: rest =>
    match p.queries[id]?, memos[id]? with
    | some query, some memo =>
      match bound p rows query memo with
      | .error error => ⟨memos, [], [], some error⟩
      | .ok none =>
        let after := prepare p rows memos rest
        { after with skipped := id :: after.skipped }
      | .ok (some memo) =>
        let (statement, memo) := memo.statement
        let memos := memos.set id memo
        match statement with
        | .error error => ⟨memos, [], [], some error⟩
        | .ok statement =>
          let single := query.parent.isNone && !(p.data.head?.any (·.plural))
          let after := prepare p rows memos rest
          { after with jobs := ⟨id, query.depth, single, statement⟩ :: after.jobs }
    | _, _ => ⟨memos, [], [], some (.internal (.noQueryNode id))⟩

def send {σ : Type u} (db : Database σ) (job : Job) (state : σ) : Result (List Row) × σ :=
  if job.single then
    let (result, state) := db.fetchOne job.statement state
    (result.map (·.toList), state)
  else db.fetch job.statement state

/-- Sends the jobs in order. All of them are sent, whatever their results. -/
def sendAll {σ : Type u} (db : Database σ) : List Job → σ → List (Job × Result (List Row)) × σ
  | [], state => ([], state)
  | job :: rest, state =>
    let (result, state) := send db job state
    let (results, state) := sendAll db rest state
    ((job, result) :: results, state)

def measure (job : Job) : Result (List Row) → Measurement
  | .ok rows => .executed job.depth rows.length
  | .error _ => .failed job.depth

/-- Takes the results of a level in order. The first failure that the policy does not accept fails
the plan; the root's failure is never accepted. -/
def settle (policy : FailurePolicy) (o : Outcome) :
    List (Job × Result (List Row)) → Result Outcome
  | [] => .ok o
  | (job, .ok rows) :: rest => settle policy { o with rows := o.rows.set job.query rows } rest
  | (job, .error error) :: rest =>
    if job.query = 0 ∨ policy = .strict then
      .error (.statement job.query job.statement.text error.message)
    else settle policy { o with degraded := o.degraded ++ [job.query] } rest

/-- What remains of an execution: the database, the memos, what was measured, the largest number of
statements in flight at once, and the outcome. -/
structure Finished (σ : Type u) where
  database : σ
  memos : List Sql.Memo
  log : List Measurement
  inFlight : Nat
  result : Result Outcome

def runLevels {σ : Type u} (db : Database σ) (options : ExecutionOptions) (p : Plan) :
    List (List Nat) → σ → List Sql.Memo → Outcome → Finished σ
  | [], state, memos, o => ⟨state, memos, [], 0, .ok o⟩
  | level :: rest, state, memos, o =>
    let ready := prepare p o.rows memos level
    let skipped := ready.skipped.map fun _ => Measurement.skipped
    match ready.failure with
    | some error => ⟨state, ready.memos, skipped, 0, .error error⟩
    | none =>
      let (results, state) := sendAll db ready.jobs state
      let log := skipped ++ results.map fun (job, result) => measure job result
      let inFlight := min ready.jobs.length (max options.maxConcurrency 1)
      match settle options.failurePolicy { o with skipped := o.skipped ++ ready.skipped } results with
      | .error error => ⟨state, ready.memos, log, inFlight, .error error⟩
      | .ok next =>
        let degraded := List.replicate (next.degraded.length - o.degraded.length)
          Measurement.degraded
        let after := runLevels db options p rest state ready.memos next
        { after with
          log := log ++ degraded ++ after.log
          inFlight := max inFlight after.inFlight }

/-- Runs the statements of a plan: the root first, then each level with the distinct values that
the level above has fetched. -/
def run {σ : Type u} (db : Database σ) (options : ExecutionOptions) (p : Plan)
    (memos : List Sql.Memo) (state : σ) : Finished σ :=
  if memos.length ≠ p.queries.length then
    ⟨state, memos, [], 0, fail (.statementCount memos.length p.queries.length)⟩
  else runLevels db options p p.levels state memos (.ofPlan p)

end Execution
end NestedQuery
