/- Runs over a database whose answers depend on nothing but the statement: the jobs that are sent level
by level, and where a run that fails has failed. -/
import NestedQuery.Proofs.Execution
import NestedQuery.Proofs.Recording

namespace NestedQuery

open Execution

/-- What a database answers to each statement, whenever and however often it is asked. -/
structure Answers where
  fetch : Sql.Statement → Result (List Row)
  fetchOne : Sql.Statement → Result (Option Row)

/-- How the rest of a run goes: the memos that it leaves, the jobs that it sends, and its result. -/
structure Course where
  memos : List Sql.Memo
  sent : List Job
  result : Result Outcome

def Course.after (c : Course) (jobs : List Job) : Course := { c with sent := jobs ++ c.sent }

namespace Execution

variable {p : Plan} {rows : List (List Row)}

/-- The preparation of a level that does not fail: each statement is left out, or it is bound and
rendered. -/
inductive Prepares (p : Plan) (rows : List (List Row)) :
    List Sql.Memo → List Nat → Preparation → Prop
  | nil {memos : List Sql.Memo} : Prepares p rows memos [] ⟨memos, [], [], none⟩
  | skipped {memos : List Sql.Memo} {id : Nat} {rest : List Nat} {q : QueryNode} {memo : Sql.Memo}
      {later : Preparation} (query : p.queries[id]? = some q) (kept : memos[id]? = some memo)
      (unbound : bound p rows q memo = .ok none) (others : Prepares p rows memos rest later) :
      Prepares p rows memos (id :: rest) { later with skipped := id :: later.skipped }
  | sent {memos : List Sql.Memo} {id : Nat} {rest : List Nat} {q : QueryNode}
      {memo given : Sql.Memo} {statement : Sql.Statement} {later : Preparation}
      (query : p.queries[id]? = some q) (kept : memos[id]? = some memo)
      (binds : bound p rows q memo = .ok (some given)) (rendered : given.statement.1 = .ok statement)
      (others : Prepares p rows (memos.set id given.statement.2) rest later) :
      Prepares p rows memos (id :: rest)
        { later with jobs := ⟨id, q.depth, isSingle p q, statement⟩ :: later.jobs }

theorem prepares {memos : List Sql.Memo} {level : List Nat}
    (ready : (prepare p rows memos level).failure = none) :
    Prepares p rows memos level (prepare p rows memos level) := by
  induction level generalizing memos with
  | nil => exact .nil
  | cons id rest ih =>
      simp only [prepare] at ready ⊢
      cases query : p.queries[id]? with
      | none => simp [query] at ready
      | some q =>
          cases kept : memos[id]? with
          | none => simp [query, kept] at ready
          | some memo =>
              cases binds : bound p rows q memo with
              | error error => simp [query, kept, binds] at ready
              | ok batch =>
                  cases batch with
                  | none =>
                      simp only [query, kept, binds] at ready ⊢
                      exact .skipped query kept binds (ih ready)
                  | some given =>
                      cases rendered : given.statement.1 with
                      | error error => simp [query, kept, binds, rendered] at ready
                      | ok statement =>
                          simp only [query, kept, binds, rendered] at ready ⊢
                          exact .sent query kept binds rendered (ih ready)

namespace Prepares

variable {memos : List Sql.Memo} {level : List Nat} {ready : Preparation}

theorem skipped_subset (prepared : Prepares p rows memos level ready) : ready.skipped ⊆ level := by
  induction prepared with
  | nil => exact List.nil_subset _
  | skipped query kept unbound others ih => exact List.cons_subset_cons _ ih
  | sent query kept binds rendered others ih => exact List.Subset.trans ih (List.subset_cons_self _ _)

/-- Each statement of a level is sent once, unless it is left out. -/
theorem queries (prepared : Prepares p rows memos level ready) (distinct : level.Nodup) :
    ready.jobs.map (·.query) = level.filter (!ready.skipped.contains ·) := by
  induction prepared with
  | nil => rfl
  | @skipped memos id rest q memo later query kept unbound others ih =>
      obtain ⟨absent, distinctRest⟩ := List.nodup_cons.mp distinct
      rw [List.filter_cons_of_neg (by simp), ih distinctRest]
      refine List.filter_congr fun k listed => ?_
      have different : k ≠ id := fun same => absent (same ▸ listed)
      simp [different]
  | @sent memos id rest q memo given statement later query kept binds rendered others ih =>
      obtain ⟨absent, distinctRest⟩ := List.nodup_cons.mp distinct
      have kept : id ∉ later.skipped := fun listed => absent (others.skipped_subset listed)
      rw [List.filter_cons_of_pos (by simpa using kept), ← ih distinctRest, List.map_cons]

theorem length_jobs (prepared : Prepares p rows memos level ready) :
    ready.jobs.length ≤ level.length := by
  induction prepared with
  | nil => exact Nat.le_refl _
  | skipped query kept unbound others ih => exact Nat.le_succ_of_le ih
  | sent query kept binds rendered others ih => exact Nat.succ_le_succ ih

theorem depth (prepared : Prepares p rows memos level ready) :
    ∀ job ∈ ready.jobs, job.query ∈ level ∧
      ∃ q, p.queries[job.query]? = some q ∧ job.depth = q.depth := by
  induction prepared with
  | nil => exact List.forall_mem_nil _
  | skipped query kept unbound others ih =>
      intro job listed
      obtain ⟨inRest, own⟩ := ih job listed
      exact ⟨List.mem_cons_of_mem _ inRest, own⟩
  | @sent memos id rest q memo given statement later query kept binds rendered others ih =>
      refine List.forall_mem_cons.mpr ⟨⟨List.mem_cons_self .., q, query, rfl⟩, ?_⟩
      intro job listed
      obtain ⟨inRest, own⟩ := ih job listed
      exact ⟨List.mem_cons_of_mem _ inRest, own⟩

/-- Every statement of a level is sent or left out. -/
theorem perm (prepared : Prepares p rows memos level ready) :
    (ready.jobs.map (·.query) ++ ready.skipped).Perm level := by
  induction prepared with
  | nil => exact .nil
  | skipped query kept unbound others ih => exact List.perm_middle.trans (ih.cons _)
  | sent query kept binds rendered others ih => exact ih.cons _

theorem memos_outside (prepared : Prepares p rows memos level ready) {k : Nat} (outside : k ∉ level) :
    ready.memos[k]? = memos[k]? := by
  induction prepared with
  | nil => rfl
  | skipped query kept unbound others ih => exact ih fun listed => outside (List.mem_cons_of_mem _ listed)
  | sent query kept binds rendered others ih =>
      obtain ⟨different, notInRest⟩ := List.ne_and_not_mem_of_not_mem_cons outside
      exact (ih notInRest).trans (List.getElem?_set_ne (Ne.symm different))

/-- What is left out has nothing to be bound to. -/
theorem unbound (prepared : Prepares p rows memos level ready) (distinct : level.Nodup) {k : Nat}
    (leftOut : k ∈ ready.skipped) : ∃ q memo, p.queries[k]? = some q ∧ memos[k]? = some memo ∧
      bound p rows q memo = .ok none := by
  induction prepared with
  | nil => cases leftOut
  | @skipped memos id rest q memo later query kept none others ih =>
      rcases List.mem_cons.mp leftOut with rfl | later
      · exact ⟨q, memo, query, kept, none⟩
      · exact ih (List.nodup_cons.mp distinct).2 later
  | @sent memos id rest q memo given statement later query kept binds rendered others ih =>
      obtain ⟨absent, distinctRest⟩ := List.nodup_cons.mp distinct
      have different : id ≠ k := fun same => absent (same ▸ others.skipped_subset leftOut)
      obtain ⟨q', memo', query', kept', none⟩ := ih distinctRest leftOut
      exact ⟨q', memo', query', (List.getElem?_set_ne different).symm.trans kept', none⟩

/-- What is sent is the statement of its memo, bound to the rows above. -/
theorem issued (prepared : Prepares p rows memos level ready) (distinct : level.Nodup) {job : Job}
    (listed : job ∈ ready.jobs) : ∃ q memo given, p.queries[job.query]? = some q ∧
      memos[job.query]? = some memo ∧ bound p rows q memo = .ok (some given) ∧
      given.statement.1 = .ok job.statement := by
  induction prepared with
  | nil => cases listed
  | skipped query kept none others ih => exact ih (List.nodup_cons.mp distinct).2 listed
  | @sent memos id rest q memo given statement later query kept binds rendered others ih =>
      obtain ⟨absent, distinctRest⟩ := List.nodup_cons.mp distinct
      rcases List.mem_cons.mp listed with rfl | listed
      · exact ⟨q, memo, given, query, kept, binds, rendered⟩
      · have member : job.query ∈ rest := (others.depth job listed).1
        have different : id ≠ job.query := fun same => absent (same ▸ member)
        obtain ⟨q', memo', given', query', kept', binds', rendered'⟩ := ih distinctRest listed
        exact ⟨q', memo', given', query', (List.getElem?_set_ne different).symm.trans kept', binds',
          rendered'⟩

end Prepares

end Execution

namespace Answers

variable (a : Answers)

def database : Database Unit where
  fetch statement state := (a.fetch statement, state)
  fetchOne statement state := (a.fetchOne statement, state)

def answer (job : Job) : Result (List Row) :=
  if job.single then (a.fetchOne job.statement).map (·.toList) else a.fetch job.statement

def answered (jobs : List Job) : List (Job × Result (List Row)) :=
  jobs.map fun job => (job, a.answer job)

/-- What is noted of a job once it is sent. -/
def note (job : Job) : Sent := sentOf (job, a.answer job)

/-- The remaining levels one after another, up to one that cannot be prepared or is given up. -/
def course (policy : FailurePolicy) (p : Plan) :
    List (List Nat) → List Sql.Memo → Outcome → Course
  | [], memos, o => ⟨memos, [], .ok o⟩
  | level :: rest, memos, o =>
    let ready := prepare p o.rows memos level
    match ready.failure with
    | some error => ⟨ready.memos, [], .error error⟩
    | none =>
      match settle policy { o with skipped := o.skipped ++ ready.skipped } (a.answered ready.jobs) with
      | .error error => ⟨ready.memos, ready.jobs, .error error⟩
      | .ok next => (course policy p rest ready.memos next).after ready.jobs

theorem send_eq (job : Job) (state : Unit) : send a.database job state = (a.answer job, state) := by
  unfold send answer
  split <;> rfl

theorem sendAll_eq (jobs : List Job) (state : Unit) :
    sendAll a.database jobs state = (a.answered jobs, state) := by
  induction jobs generalizing state with
  | nil => rfl
  | cons job rest ih => simp only [sendAll, send_eq, ih, answered, List.map_cons]

variable {options : ExecutionOptions} {p : Plan} {memos : List Sql.Memo} {o : Outcome}

/-- A run over the levels takes its course, and notes what it sends. -/
theorem runLevels_course (options : ExecutionOptions) (p : Plan) (levels : List (List Nat))
    (log : List Sent) (memos : List Sql.Memo) (o : Outcome) :
    let noted := runLevels a.database.recorded options p levels ((), log) memos o
    let course := a.course options.failurePolicy p levels memos o
    noted.memos = course.memos ∧ noted.result = course.result ∧
      noted.database.2 = log ++ course.sent.map a.note := by
  have notes : ∀ jobs : List Job, (a.answered jobs).map sentOf = jobs.map a.note := by
    intro jobs
    rw [answered, List.map_map]
    rfl
  induction levels generalizing log memos o with
  | nil => exact ⟨rfl, rfl, (List.append_nil log).symm⟩
  | cons level rest ih =>
      simp only [runLevels, course, sendAll_recorded, sendAll_eq, notes]
      cases (prepare p o.rows memos level).failure with
      | some error => exact ⟨rfl, rfl, (List.append_nil log).symm⟩
      | none =>
          cases settle options.failurePolicy
              { o with skipped := o.skipped ++ (prepare p o.rows memos level).skipped }
              (a.answered (prepare p o.rows memos level).jobs) with
          | error error => exact ⟨rfl, rfl, rfl⟩
          | ok next =>
              obtain ⟨left, result, sent⟩ := ih (log ++ (prepare p o.rows memos level).jobs.map a.note)
                (prepare p o.rows memos level).memos next
              refine ⟨left, result, ?_⟩
              rw [sent, List.append_assoc, ← List.map_append]
              rfl

theorem runLevels_result (options : ExecutionOptions) (p : Plan) (levels : List (List Nat))
    (memos : List Sql.Memo) (o : Outcome) :
    let done := runLevels a.database options p levels () memos o
    let course := a.course options.failurePolicy p levels memos o
    done.memos = course.memos ∧ done.result = course.result := by
  obtain ⟨sent, same⟩ := runLevels_recorded a.database options p levels () [] memos o
  obtain ⟨left, result, _⟩ := a.runLevels_course options p levels [] memos o
  rw [same] at left result
  exact ⟨left, result⟩

/-- A whole run: all levels, from the empty outcome on. -/
def whole (policy : FailurePolicy) (p : Plan) (memos : List Sql.Memo) : Course :=
  if memos.length ≠ p.queries.length then
    ⟨memos, [], fail (.statementCount memos.length p.queries.length)⟩
  else a.course policy p p.levels memos (.ofPlan p)

theorem whole_eq (policy : FailurePolicy) (count : memos.length = p.queries.length) :
    a.whole policy p memos = a.course policy p p.levels memos (.ofPlan p) :=
  if_neg (not_not_intro count)

theorem run_whole (options : ExecutionOptions) (p : Plan) (memos : List Sql.Memo) :
    let done := run a.database options p memos ()
    let whole := a.whole options.failurePolicy p memos
    done.memos = whole.memos ∧ done.result = whole.result := by
  unfold run whole
  split
  · exact ⟨rfl, rfl⟩
  · exact a.runLevels_result options p p.levels memos (.ofPlan p)

theorem run_sent (options : ExecutionOptions) (p : Plan) (memos : List Sql.Memo) :
    (run a.database.recorded options p memos ((), [])).database.2 =
      (a.whole options.failurePolicy p memos).sent.map a.note := by
  unfold run whole
  split
  · rfl
  · exact (a.runLevels_course options p p.levels [] memos (.ofPlan p)).2.2

/-- Whether a run is given up for the answer of a job. -/
def Aborts (policy : FailurePolicy) (job : Job) : Prop :=
  (∃ failure, a.answer job = .error failure) ∧ (job.query = 0 ∨ policy = .strict)

variable {a} {policy : FailurePolicy}

/-- A job that is not given up hands on to the next one. -/
theorem settle_accepted {job : Job} (accepted : ¬a.Aborts policy job) (o : Outcome) :
    ∃ next, ∀ rest,
      settle policy o (a.answered (job :: rest)) = settle policy next (a.answered rest) := by
  simp only [answered, List.map_cons]
  cases met : a.answer job with
  | ok rows => exact ⟨_, fun _ => rfl⟩
  | error failure => exact ⟨_, fun _ => if_neg fun given => accepted ⟨⟨failure, met⟩, given⟩⟩

/-- A level is given up for the first of its failures that is not accepted. -/
theorem settle_error {jobs : List Job} {error : QueryError}
    (failed : settle policy o (a.answered jobs) = .error error) :
    ∃ earlier job later failure, jobs = earlier ++ job :: later ∧ a.answer job = .error failure ∧
      (job.query = 0 ∨ policy = .strict) ∧
      error = .statement job.query job.statement.text failure.message ∧
      ∀ other ∈ earlier, ¬a.Aborts policy other := by
  induction jobs generalizing o with
  | nil => cases failed
  | cons job rest ih =>
      by_cases aborts : a.Aborts policy job
      · obtain ⟨⟨failure, met⟩, given⟩ := aborts
        simp only [answered, List.map_cons, met, settle, if_pos given] at failed
        exact ⟨[], job, rest, failure, rfl, met, given, (Except.error.inj failed).symm,
          List.forall_mem_nil _⟩
      · obtain ⟨next, step⟩ := settle_accepted aborts o
        rw [step] at failed
        obtain ⟨earlier, other, later, failure, rfl, met, given, same, before⟩ := ih failed
        exact ⟨job :: earlier, other, later, failure, rfl, met, given, same,
          List.forall_mem_cons.mpr ⟨aborts, before⟩⟩

theorem settle_ok {jobs : List Job} {next : Outcome}
    (settled : settle policy o (a.answered jobs) = .ok next) :
    ∀ job ∈ jobs, ¬a.Aborts policy job := by
  induction jobs generalizing o with
  | nil => exact List.forall_mem_nil _
  | cons job rest ih =>
      by_cases aborts : a.Aborts policy job
      · obtain ⟨⟨failure, met⟩, given⟩ := aborts
        simp only [answered, List.map_cons, met, settle, if_pos given] at settled
        cases settled
      · obtain ⟨between, step⟩ := settle_accepted aborts o
        rw [step] at settled
        exact List.forall_mem_cons.mpr ⟨aborts, ih settled⟩

/-- The ways that a course takes: all levels are done, a level cannot be prepared or is given up, or it
is settled and the next one follows. -/
inductive Takes (a : Answers) (policy : FailurePolicy) (p : Plan) :
    List (List Nat) → List Sql.Memo → Outcome → Course → Prop
  | finished {memos : List Sql.Memo} {o : Outcome} : Takes a policy p [] memos o ⟨memos, [], .ok o⟩
  | refused {level : List Nat} {rest : List (List Nat)} {memos : List Sql.Memo} {o : Outcome}
      {error : QueryError} (refused : (prepare p o.rows memos level).failure = some error) :
      Takes a policy p (level :: rest) memos o
        ⟨(prepare p o.rows memos level).memos, [], .error error⟩
  | givenUp {level : List Nat} {rest : List (List Nat)} {memos : List Sql.Memo} {o : Outcome}
      {error : QueryError} (ready : (prepare p o.rows memos level).failure = none)
      (settled : settle policy
        { o with skipped := o.skipped ++ (prepare p o.rows memos level).skipped }
        (a.answered (prepare p o.rows memos level).jobs) = .error error) :
      Takes a policy p (level :: rest) memos o
        ⟨(prepare p o.rows memos level).memos, (prepare p o.rows memos level).jobs, .error error⟩
  | onward {level : List Nat} {rest : List (List Nat)} {memos : List Sql.Memo} {o next : Outcome}
      {course : Course} (ready : (prepare p o.rows memos level).failure = none)
      (settled : settle policy
        { o with skipped := o.skipped ++ (prepare p o.rows memos level).skipped }
        (a.answered (prepare p o.rows memos level).jobs) = .ok next)
      (later : Takes a policy p rest (prepare p o.rows memos level).memos next course) :
      Takes a policy p (level :: rest) memos o (course.after (prepare p o.rows memos level).jobs)

theorem takes_course (a : Answers) (policy : FailurePolicy) (p : Plan) (levels : List (List Nat))
    (memos : List Sql.Memo) (o : Outcome) :
    Takes a policy p levels memos o (a.course policy p levels memos o) := by
  induction levels generalizing memos o with
  | nil => exact .finished
  | cons level rest ih =>
      simp only [course]
      cases ready : (prepare p o.rows memos level).failure with
      | some error => exact .refused ready
      | none =>
          cases settled : settle policy
              { o with skipped := o.skipped ++ (prepare p o.rows memos level).skipped }
              (a.answered (prepare p o.rows memos level).jobs) with
          | error error => exact .givenUp ready settled
          | ok next => exact .onward ready settled (ih _ next)

namespace Takes

variable {levels : List (List Nat)} {course : Course}

theorem accepted (takes : Takes a policy p levels memos o course) {next : Outcome}
    (done : course.result = .ok next) : ∀ job ∈ course.sent, ¬a.Aborts policy job := by
  induction takes with
  | finished => exact List.forall_mem_nil _
  | refused => cases done
  | givenUp => cases done
  | onward _ settled _ ih => exact List.forall_mem_append.mpr ⟨settle_ok settled, ih done⟩

theorem depth (takes : Takes a policy p levels memos o course) :
    ∀ job ∈ course.sent, ∃ q, p.queries[job.query]? = some q ∧ job.depth = q.depth := by
  induction takes with
  | finished => exact List.forall_mem_nil _
  | refused => exact List.forall_mem_nil _
  | givenUp ready => exact fun job listed => ((prepares ready).depth job listed).2
  | onward ready _ _ ih =>
      exact List.forall_mem_append.mpr ⟨fun job listed => ((prepares ready).depth job listed).2, ih⟩

/-- A run that fails does so at a level that it has reached: the level cannot be prepared, or it has
been sent and is given up. -/
theorem failed_at (takes : Takes a policy p levels memos o course) {error : QueryError}
    (failed : course.result = .error error) :
    ∃ (d : Nat) (level : List Nat) (reached : Outcome), levels[d]? = some level ∧
      let above := a.course policy p (levels.take d) memos o
      let ready := prepare p reached.rows above.memos level
      above.result = .ok reached ∧
        ((ready.failure = some error ∧ course.sent = above.sent) ∨
          ready.failure = none ∧ course.sent = above.sent ++ ready.jobs ∧
            settle policy { reached with skipped := reached.skipped ++ ready.skipped }
              (a.answered ready.jobs) = .error error) := by
  induction takes with
  | finished => cases failed
  | @refused level _ _ o _ refused =>
      cases failed
      exact ⟨0, level, o, rfl, rfl, .inl ⟨refused, rfl⟩⟩
  | @givenUp level _ _ o _ ready settled =>
      cases failed
      exact ⟨0, level, o, rfl, rfl, .inr ⟨ready, rfl, settled⟩⟩
  | onward ready settled _ ih =>
      obtain ⟨d, below, reached, found, done, cases⟩ := ih failed
      refine ⟨d + 1, below, reached, found, ?_⟩
      simp only [List.take_succ_cons, Answers.course, ready, settled]
      refine ⟨done, cases.imp ?_ ?_⟩
      · rintro ⟨refused, sent⟩
        exact ⟨refused, by simp only [Course.after, sent]⟩
      · rintro ⟨prepared, sent, given⟩
        exact ⟨prepared, by simp only [Course.after, sent, List.append_assoc], given⟩

end Takes

end Answers
end NestedQuery
