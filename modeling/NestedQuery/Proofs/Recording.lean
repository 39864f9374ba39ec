/- A database that notes what it is asked: it answers as the one behind it, and its log grows by the
statements that a run sends. -/
import NestedQuery.Execution.Run

namespace NestedQuery

/-- A statement that was sent, and the failure that it met, if any. -/
structure Sent where
  statement : Sql.Statement
  failure : Option QueryError

def Sent.of {α : Type} (statement : Sql.Statement) : Result α → Sent
  | .ok _ => ⟨statement, none⟩
  | .error failure => ⟨statement, some failure⟩

def Database.recorded {σ : Type u} (db : Database σ) : Database (σ × List Sent) where
  fetch statement state :=
    let (result, next) := db.fetch statement state.1
    (result, next, state.2 ++ [.of statement result])
  fetchOne statement state :=
    let (result, next) := db.fetchOne statement state.1
    (result, next, state.2 ++ [.of statement result])

namespace Execution

variable {σ : Type u} (db : Database σ)

def sentOf (answer : Job × Result (List Row)) : Sent := .of answer.1.statement answer.2

/-- The other database answers as this one does, and adds a note of each job to a log. -/
def Notes {ε : Type} (noting : Database (σ × List ε)) (note : Job × Result (List Row) → ε) : Prop :=
  ∀ (job : Job) (state : σ) (log : List ε), send noting job (state, log) =
    ((send db job state).1, (send db job state).2, log ++ [note (job, (send db job state).1)])

/-- The jobs that a run over the levels sends, with their answers. -/
def calls (options : ExecutionOptions) (p : Plan) :
    List (List Nat) → σ → List Sql.Memo → Outcome → List (Job × Result (List Row))
  | [], _, _, _ => []
  | level :: rest, state, memos, o =>
    let ready := prepare p o.rows memos level
    match ready.failure with
    | some _ => []
    | none =>
      let (answers, state) := sendAll db ready.jobs state
      match settle options.failurePolicy { o with skipped := o.skipped ++ ready.skipped } answers with
      | .error _ => answers
      | .ok next => answers ++ calls options p rest state ready.memos next

variable {db}

theorem Notes.sendAll {ε : Type} {noting : Database (σ × List ε)} {note : Job × Result (List Row) → ε}
    (notes : Notes db noting note) (jobs : List Job) (state : σ) (log : List ε) :
    sendAll noting jobs (state, log) = ((sendAll db jobs state).1, (sendAll db jobs state).2,
      log ++ (sendAll db jobs state).1.map note) := by
  induction jobs generalizing state log with
  | nil => simp only [Execution.sendAll, List.map_nil, List.append_nil]
  | cons job rest ih =>
      simp only [Execution.sendAll, notes job, ih, List.map_cons, List.append_assoc,
        List.singleton_append]

/-- Noting what is sent changes nothing else of a run. -/
theorem Notes.runLevels {ε : Type} {noting : Database (σ × List ε)}
    {note : Job × Result (List Row) → ε} (notes : Notes db noting note) (options : ExecutionOptions)
    (p : Plan) (levels : List (List Nat)) (state : σ) (log : List ε) (memos : List Sql.Memo)
    (o : Outcome) :
    let done := runLevels db options p levels state memos o
    runLevels noting options p levels (state, log) memos o =
      ⟨(done.database, log ++ (calls db options p levels state memos o).map note), done.memos,
        done.log, done.inFlight, done.result⟩ := by
  induction levels generalizing state log memos o with
  | nil =>
      simp only [calls, List.map_nil, List.append_nil]
      rfl
  | cons level rest ih =>
      simp only [Execution.runLevels, calls]
      cases (prepare p o.rows memos level).failure with
      | some error => simp only [List.map_nil, List.append_nil]
      | none =>
          simp only [notes.sendAll]
          generalize Execution.sendAll db (prepare p o.rows memos level).jobs state = answers
          cases settle options.failurePolicy
              { o with skipped := o.skipped ++ (prepare p o.rows memos level).skipped } answers.1 with
          | error error => rfl
          | ok next => simp only [ih, List.map_append, List.append_assoc]

variable (db)

theorem recorded_notes : Notes db db.recorded sentOf := by
  intro job state log
  simp only [send, Database.recorded]
  cases job.single with
  | false => rfl
  | true =>
      simp only [if_true]
      cases (db.fetchOne job.statement state).1 <;> rfl

theorem sendAll_recorded (jobs : List Job) (state : σ) (log : List Sent) :
    sendAll db.recorded jobs (state, log) = ((sendAll db jobs state).1, (sendAll db jobs state).2,
      log ++ (sendAll db jobs state).1.map sentOf) :=
  (recorded_notes db).sendAll jobs state log

theorem runLevels_recorded (options : ExecutionOptions) (p : Plan) (levels : List (List Nat))
    (state : σ) (log : List Sent) (memos : List Sql.Memo) (o : Outcome) :
    let done := runLevels db options p levels state memos o
    ∃ sent, runLevels db.recorded options p levels (state, log) memos o =
      ⟨(done.database, log ++ sent), done.memos, done.log, done.inFlight, done.result⟩ :=
  ⟨_, (recorded_notes db).runLevels options p levels state log memos o⟩

theorem run_recorded (options : ExecutionOptions) (p : Plan) (memos : List Sql.Memo) (state : σ) :
    let done := run db options p memos state
    ∃ sent, run db.recorded options p memos (state, []) =
      ⟨(done.database, sent), done.memos, done.log, done.inFlight, done.result⟩ := by
  unfold run
  split
  · exact ⟨[], rfl⟩
  · exact runLevels_recorded db options p p.levels state [] memos (.ofPlan p)

end Execution
end NestedQuery
