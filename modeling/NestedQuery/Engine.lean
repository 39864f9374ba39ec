/- Planning, preparing, executing and explaining requests. -/
import NestedQuery.Execution.Run
import NestedQuery.Fold
import NestedQuery.Plan.Cache

namespace NestedQuery

/-- A statement as it would be sent now. -/
structure ExplainedStatement where
  query : Nat
  parent : Option Nat
  path : String
  lateral : Bool
  text : String
  params : List Value
  deriving Repr

def ExplainedStatement.toDocument (s : ExplainedStatement) : Document := .ofMembers [
  ("query", .ofInt s.query),
  ("parent", match s.parent with
    | some parent => .ofInt parent
    | none => .null),
  ("path", .ofText s.path),
  ("lateral", .bool s.lateral),
  ("sql", .ofText s.text),
  ("params", .list (s.params.map Value.toDocument))]

/-- A plan with statements of its own, ready to run any number of times. -/
structure PreparedPlan where
  plan : Plan
  memos : List Sql.Memo
  options : ExecutionOptions
  deriving Repr

/-- What an execution leaves behind, and its result. -/
structure Executed (σ : Type u) (α : Type v) where
  database : σ
  log : List Measurement
  inFlight : Nat
  result : Result α

namespace PreparedPlan

def ofPlan (plan : Plan) (options : ExecutionOptions) : Result PreparedPlan := do
  let memos ← (List.range plan.queries.length).mapM (Sql.Memo.ofPlan plan)
  return ⟨plan, memos, options⟩

/-- Changes the root's statement. -/
def modifyRoot (p : PreparedPlan) (change : Sql.Memo → Result Sql.Memo) : Result PreparedPlan :=
  match p.memos with
  | [] => fail .noStatements
  | root :: rest => do return { p with memos := (← change root) :: rest }

def modifyRootFilter (p : PreparedPlan) (filter : Option Filter) : Result PreparedPlan :=
  p.modifyRoot (·.setFilter filter)

def modifyRootQuery (p : PreparedPlan) (query : Query) : Result PreparedPlan :=
  p.modifyRoot (·.setQuery query)

def rootFormatName (p : PreparedPlan) : String :=
  match p.plan.data.head? with
  | some root => root.format.name
  | none => ""

/-- Runs the statements and puts their rows together. -/
def execute {σ : Type u} (p : PreparedPlan) (db : Database σ) (state : σ) :
    Executed σ Tree × PreparedPlan :=
  let done := Execution.run db p.options p.plan p.memos state
  let result := done.result.bind fun outcome => p.plan.fold outcome.rows
  (⟨done.database, done.log ++ [.planTimed p.rootFormatName], done.inFlight, result⟩,
    { p with memos := done.memos })

/-- A statement below the root that was never bound is shown with one null. -/
def explainMemo (p : PreparedPlan) (memo : Sql.Memo) : Result ExplainedStatement := do
  let query ← p.plan.query memo.query
  let memo := if query.parent.isSome && memo.batch.isEmpty then memo.setBatch [.null] else memo
  let statement ← memo.statement.1
  let root ← p.plan.queryRoot query.id
  return ⟨query.id, query.parent, root.path, memo.lateral, statement.text, statement.params⟩

/-- The statements as they would be sent now. -/
def explain (p : PreparedPlan) : Result (List ExplainedStatement) :=
  p.memos.mapM p.explainMemo

end PreparedPlan

/-- A catalogue with execution options and perhaps a cache of plans. -/
structure Engine where
  catalog : Catalog
  options : ExecutionOptions
  cache : Option PlanCache

namespace Engine

def ofCatalog (catalog : Catalog) : Engine := ⟨catalog, .standard, none⟩

def withOptions (e : Engine) (options : ExecutionOptions) : Engine := { e with options := options }

def withPlanCache (e : Engine) : Engine := { e with cache := some .empty }

def ofConfig (catalog : Catalog) (config : Config) : Engine :=
  let engine := (ofCatalog catalog).withOptions (.ofConfig config.execution)
  if config.cachePlans then engine.withPlanCache else engine

/-- The plan of a request, from the cache if there is one, with what was measured. -/
def plan (e : Engine) (format : String) (plural : Bool) (request : Request) :
    List Measurement × Result (Plan × Engine) :=
  match e.cache with
  | none => ([], (Plan.build e.catalog format plural request).map (·, e))
  | some cache =>
    let (hit, found) := cache.get e.catalog format plural request
    ([.cacheLookup hit], found.map fun (shared, cache) =>
      (shared.plan, { e with cache := some cache }))

/-- A prepared plan, and the engine with what its cache keeps of it. -/
def prepare (e : Engine) (format : String) (plural : Bool) (request : Request) :
    List Measurement × Result PreparedPlan × Engine :=
  match e.plan format plural request with
  | (log, .error error) => (log, .error error, e)
  | (log, .ok (plan, next)) => (log, PreparedPlan.ofPlan plan e.options, next)

/-- Runs a prepared plan once. -/
def runOnce {σ : Type u} (db : Database σ) (state : σ) (log : List Measurement)
    (prepared : Result PreparedPlan) : Executed σ Tree :=
  match prepared with
  | .error error => ⟨state, log, 0, .error error⟩
  | .ok prepared =>
    let executed := (prepared.execute db state).1
    { executed with log := log ++ executed.log }

def query {σ : Type u} (e : Engine) (db : Database σ) (state : σ) (format : String)
    (plural : Bool) (request : Request) : Executed σ Tree × Engine :=
  let (log, prepared, next) := e.prepare format plural request
  (runOnce db state log prepared, next)

end Engine

/-- Plans a request and runs it once, with standard options. -/
def planAndExecute {σ : Type u} (catalog : Catalog) (db : Database σ) (state : σ)
    (format : String) (plural : Bool) (request : Request) : Executed σ Tree :=
  let prepared := do
    let plan ← Plan.build catalog format plural request
    PreparedPlan.ofPlan plan .standard
  Engine.runOnce db state [] prepared

end NestedQuery
