/- What running one level does: every answer is put in its place, and nothing else changes. -/
import NestedQuery.Execution.Run

namespace NestedQuery.Execution

variable {σ : Type u} {db : Database σ} {p : Plan} {rows : List (List Row)} {memos : List Sql.Memo}
  {answer : Nat → List Row} {k : Nat} {jobs : List Job} {level : List Nat}

/-- Whether a statement asks for one record: only that of a single root does. -/
def isSingle (p : Plan) (q : QueryNode) : Bool := q.parent.isNone && !(p.data.head?.any (·.plural))

/-- A statement of a level is left out and has no answer, or it is sent and answered, whatever the
database has been asked before. -/
inductive Due (db : Database σ) (p : Plan) (rows : List (List Row)) (memos : List Sql.Memo)
    (answer : Nat → List Row) (k : Nat) : Prop
  | skipped {q : QueryNode} {memo : Sql.Memo} (query : p.queries[k]? = some q)
      (kept : memos[k]? = some memo) (unbound : bound p rows q memo = .ok none)
      (empty : answer k = [])
  | sent {q : QueryNode} {memo given : Sql.Memo} {statement : Sql.Statement}
      (query : p.queries[k]? = some q) (kept : memos[k]? = some memo)
      (binds : bound p rows q memo = .ok (some given)) (rendered : given.statement.1 = .ok statement)
      (answered : ∀ state,
        (send db ⟨k, q.depth, isSingle p q, statement⟩ state).1 = .ok (answer k))

theorem Due.of_kept {others : List Sql.Memo} (due : Due db p rows memos answer k)
    (same : others[k]? = memos[k]?) : Due db p rows others answer k := by
  cases due with
  | skipped query kept unbound empty => exact .skipped query (same.trans kept) unbound empty
  | sent query kept binds rendered answered =>
      exact .sent query (same.trans kept) binds rendered answered

/-- All jobs of a level are answered, and a statement without a job has no answer. -/
structure Prepared (db : Database σ) (answer : Nat → List Row) (memos : List Sql.Memo)
    (level : List Nat) (ready : Preparation) : Prop where
  failure : ready.failure = none
  memos : ∀ k, k ∉ level → ready.memos[k]? = memos[k]?
  jobs : ∀ job ∈ ready.jobs, job.query ∈ level ∧
    ∀ state, (send db job state).1 = .ok (answer job.query)
  covered : ∀ k ∈ level, answer k = [] ∨ k ∈ ready.jobs.map (·.query)

theorem prepare_due (distinct : level.Nodup) (due : ∀ k ∈ level, Due db p rows memos answer k) :
    Prepared db answer memos level (prepare p rows memos level) := by
  induction level generalizing memos with
  | nil => exact ⟨rfl, fun _ _ => rfl, nofun, nofun⟩
  | cons k rest ih =>
      obtain ⟨absent, distinctRest⟩ := List.nodup_cons.mp distinct
      obtain ⟨first, later⟩ := List.forall_mem_cons.mp due
      cases first with
      | skipped query kept unbound empty =>
          have others := ih distinctRest later
          simp only [prepare, query, kept, unbound]
          constructor
          · exact others.failure
          · intro j outside
            exact others.memos j fun inRest => outside (List.mem_cons_of_mem _ inRest)
          · intro job listed
            obtain ⟨inRest, answered⟩ := others.jobs job listed
            exact ⟨List.mem_cons_of_mem _ inRest, answered⟩
          · exact List.forall_mem_cons.mpr ⟨.inl empty, others.covered⟩
      | @sent q memo given statement query kept binds rendered answered =>
          have untouched : ∀ j ∈ rest,
              Due db p rows (memos.set k given.statement.2) answer j := by
            intro j inRest
            have different : k ≠ j := by
              rintro rfl
              exact absent inRest
            exact (later j inRest).of_kept (List.getElem?_set_ne different)
          have others := ih distinctRest untouched
          simp only [prepare, query, kept, binds, rendered]
          constructor
          · exact others.failure
          · intro j outside
            obtain ⟨different, notInRest⟩ := List.ne_and_not_mem_of_not_mem_cons outside
            rw [others.memos j notInRest, List.getElem?_set_ne (Ne.symm different)]
          · refine List.forall_mem_cons.mpr ⟨⟨List.mem_cons_self .., answered⟩, ?_⟩
            intro job listed
            obtain ⟨inRest, jobAnswered⟩ := others.jobs job listed
            exact ⟨List.mem_cons_of_mem _ inRest, jobAnswered⟩
          · refine List.forall_mem_cons.mpr ⟨.inr (List.mem_cons_self ..), ?_⟩
            intro j inRest
            exact (others.covered j inRest).imp_right (List.mem_cons_of_mem _)

theorem sendAll_answered
    (answered : ∀ job ∈ jobs, ∀ state, (send db job state).1 = .ok (answer job.query)) (state : σ) :
    (sendAll db jobs state).1 = jobs.map fun job => (job, .ok (answer job.query)) := by
  induction jobs generalizing state with
  | nil => rfl
  | cons job rest ih =>
      obtain ⟨first, later⟩ := List.forall_mem_cons.mp answered
      simp only [sendAll, List.map_cons, first, ih later]

def fill (answer : Nat → List Row) (jobs : List Job) (rows : List (List Row)) : List (List Row) :=
  jobs.foldl (fun rows job => rows.set job.query (answer job.query)) rows

theorem settle_answered (policy : FailurePolicy) (o : Outcome) :
    settle policy o (jobs.map fun job => (job, .ok (answer job.query))) =
      .ok { o with rows := fill answer jobs o.rows } := by
  induction jobs generalizing o with
  | nil => rfl
  | cons job rest ih => exact ih { o with rows := o.rows.set job.query (answer job.query) }

theorem length_fill (jobs : List Job) (rows : List (List Row)) :
    (fill answer jobs rows).length = rows.length := by
  induction jobs generalizing rows with
  | nil => rfl
  | cons job rest ih => exact (ih _).trans List.length_set

theorem fill_of_not_mem (outside : k ∉ jobs.map (·.query)) (rows : List (List Row)) :
    (fill answer jobs rows)[k]? = rows[k]? := by
  induction jobs generalizing rows with
  | nil => rfl
  | cons job rest ih =>
      obtain ⟨different, notInRest⟩ := List.ne_and_not_mem_of_not_mem_cons outside
      exact (ih notInRest _).trans (List.getElem?_set_ne (Ne.symm different))

theorem fill_of_mem (listed : k ∈ jobs.map (·.query)) {rows : List (List Row)}
    (inside : k < rows.length) : (fill answer jobs rows)[k]? = some (answer k) := by
  induction jobs generalizing rows with
  | nil => cases listed
  | cons job rest ih =>
      have filled : fill answer (job :: rest) rows =
          fill answer rest (rows.set job.query (answer job.query)) := rfl
      rw [filled]
      by_cases again : k ∈ rest.map (·.query)
      · exact ih again (by rwa [List.length_set])
      · have here : k = job.query := by
          rcases List.mem_cons.mp listed with here | later
          · exact here
          · exact absurd later again
        subst here
        rw [fill_of_not_mem again, List.getElem?_set_self inside]

/-- A level of which each statement is due puts all answers in their places. -/
theorem settle_level (o : Outcome) (distinct : level.Nodup)
    (due : ∀ k ∈ level, Due db p o.rows memos answer k)
    (blank : ∀ k ∈ level, o.rows[k]? = some []) (policy : FailurePolicy) (skipped : List Nat)
    (state : σ) :
    let ready := prepare p o.rows memos level
    Prepared db answer memos level ready ∧
      ∃ next, settle policy { o with skipped := skipped } (sendAll db ready.jobs state).1 = .ok next ∧
        next.rows.length = o.rows.length ∧ (∀ k ∈ level, next.rows[k]? = some (answer k)) ∧
        ∀ k, k ∉ level → next.rows[k]? = o.rows[k]? := by
  intro ready
  have prepared : Prepared db answer memos level ready := prepare_due distinct due
  refine ⟨prepared, { o with skipped := skipped, rows := fill answer ready.jobs o.rows },
    ?_, ?_, ?_, ?_⟩
  · rw [sendAll_answered (fun job listed => (prepared.jobs job listed).2) state]
    exact settle_answered policy { o with skipped := skipped }
  · exact length_fill ready.jobs o.rows
  · intro k inLevel
    by_cases listed : k ∈ ready.jobs.map (·.query)
    · exact fill_of_mem listed (List.getElem?_eq_some_iff.mp (blank k inLevel)).1
    · have empty : answer k = [] := (prepared.covered k inLevel).resolve_right listed
      have kept : (fill answer ready.jobs o.rows)[k]? = o.rows[k]? := fill_of_not_mem listed o.rows
      exact kept.trans ((blank k inLevel).trans (congrArg some empty.symm))
  · intro k outside
    refine fill_of_not_mem ?_ o.rows
    intro listed
    obtain ⟨job, inJobs, rfl⟩ := List.mem_map.mp listed
    exact outside (prepared.jobs job inJobs).1

theorem sendAll_jobs (db : Database σ) (jobs : List Job) (state : σ) :
    (sendAll db jobs state).1.map (·.1) = jobs := by
  induction jobs generalizing state with
  | nil => rfl
  | cons job rest ih => exact congrArg (job :: ·) (ih _)

section Settled

variable {policy : FailurePolicy} {o next : Outcome} {calls : List (Job × Result (List Row))}

/-- The rows of a statement after one of its calls. -/
def landed (before : Option (List Row)) (call : Job × Result (List Row)) : Option (List Row) :=
  match call.2 with
  | .ok rows => before.map fun _ => rows
  | .error _ => before

/-- The statements whose calls have failed. -/
def failedQueries (calls : List (Job × Result (List Row))) : List Nat :=
  (calls.filter (!·.2.isOk)).map (·.1.query)

/-- What becomes of the rows of a statement is a matter of its own calls, and what has failed is
degraded. -/
theorem settle_kept (settled : settle policy o calls = .ok next) : next.skipped = o.skipped ∧
    next.degraded = o.degraded ++ failedQueries calls ∧ next.rows.length = o.rows.length ∧
    ∀ k, next.rows[k]? = (calls.filter (·.1.query == k)).foldl landed o.rows[k]? := by
  induction calls generalizing o with
  | nil =>
      cases settled
      exact ⟨rfl, (List.append_nil _).symm, rfl, fun _ => rfl⟩
  | cons call rest ih =>
      obtain ⟨job, answer⟩ := call
      cases answer with
      | ok rows =>
          obtain ⟨skipped, degraded, count, later⟩ := ih settled
          refine ⟨skipped, degraded, count.trans List.length_set, fun k => (later k).trans ?_⟩
          by_cases own : job.query = k
          · subst own
            rw [List.filter_cons_of_pos (by simp), List.foldl_cons, landed, List.getElem?_set_self']
            rfl
          · rw [List.filter_cons_of_neg (by simpa using own), List.getElem?_set_ne own]
      | error failure =>
          rw [settle] at settled
          split at settled
          · cases settled
          · obtain ⟨skipped, degraded, count, later⟩ := ih settled
            refine ⟨skipped, ?_, count, fun k => (later k).trans ?_⟩
            · rw [degraded, List.append_assoc]
              rfl
            · by_cases own : job.query = k
              · rw [List.filter_cons_of_pos (by simpa using own), List.foldl_cons, landed]
              · rw [List.filter_cons_of_neg (by simpa using own)]

end Settled

end NestedQuery.Execution
