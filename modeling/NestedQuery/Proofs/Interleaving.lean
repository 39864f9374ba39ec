/- Statements of a level that are in flight together: however their calls interleave, a run ends as if
they were sent one after another, and where it fails is not a matter of timing. -/
import NestedQuery.Catalog.Unchecked
import NestedQuery.Proofs.Failure

namespace NestedQuery.Execution

/-- A level under way: all jobs that were sent so far, those of the level that wait for their turn, those
that were started, each with its answer once it has come, and the answers that were taken. -/
structure Flight where
  sent : List Job
  waiting : List Job
  started : List (Job × Option (Result (List Row)))
  taken : List (Job × Result (List Row))

namespace Flight

/-- How many calls have not come back. -/
def inFlight (f : Flight) : Nat := f.started.countP (·.2.isNone)

/-- Jobs are started in their order while there is room, calls come back in any order, and answers are
taken in the order in which the jobs were started. -/
inductive Step (a : Answers) (limit : Nat) : Flight → Flight → Prop
  | start {sent waiting : List Job} {job : Job} {started : List (Job × Option (Result (List Row)))}
      {taken : List (Job × Result (List Row))}
      (room : inFlight ⟨sent, job :: waiting, started, taken⟩ < limit) :
      Step a limit ⟨sent, job :: waiting, started, taken⟩
        ⟨sent ++ [job], waiting, started ++ [(job, none)], taken⟩
  | finish {sent waiting : List Job} {job : Job}
      {before after : List (Job × Option (Result (List Row)))}
      {taken : List (Job × Result (List Row))} :
      Step a limit ⟨sent, waiting, before ++ (job, none) :: after, taken⟩
        ⟨sent, waiting, before ++ (job, some (a.answer job)) :: after, taken⟩
  | take {sent waiting : List Job} {job : Job} {result : Result (List Row)}
      {started : List (Job × Option (Result (List Row)))}
      {taken : List (Job × Result (List Row))} :
      Step a limit ⟨sent, waiting, (job, some result) :: started, taken⟩
        ⟨sent, waiting, started, taken ++ [(job, result)]⟩

/-- The answers that the level will have when all its calls have come back. -/
def outlook (a : Answers) (f : Flight) : List (Job × Result (List Row)) :=
  f.taken ++ f.started.map (fun call => (call.1, a.answer call.1)) ++ a.answered f.waiting

/-- An answer that has come is that of its statement. -/
def Faithful (a : Answers) (f : Flight) : Prop :=
  ∀ job result, (job, some result) ∈ f.started → result = a.answer job

/-- What is left to do for a level. -/
def size (f : Flight) : Nat :=
  3 * f.waiting.length + f.started.length + f.started.countP (·.2.isNone)

variable {a : Answers} {limit : Nat} {f next : Flight}

theorem Step.keeps (step : Step a limit f next) (faithful : f.Faithful a) :
    next.Faithful a ∧ next.outlook a = f.outlook a ∧
      next.sent ++ next.waiting = f.sent ++ f.waiting ∧ next.size < f.size := by
  cases step with
  | @start sent waiting job started taken room =>
      refine ⟨?_, ?_, ?_, ?_⟩
      · intro other result listed
        rcases List.mem_append.mp listed with old | new
        · exact faithful other result old
        · cases List.mem_singleton.mp new
      · simp [outlook, Answers.answered]
      · simp
      · simp only [size, List.length_append, List.length_cons, List.length_nil, List.countP_append,
          List.countP_cons, List.countP_nil, Option.isNone_none, if_true]
        omega
  | @finish sent waiting job before after taken =>
      refine ⟨?_, ?_, rfl, ?_⟩
      · intro other result listed
        rcases List.mem_append.mp listed with old | new
        · exact faithful other result (List.mem_append_left _ old)
        · rcases List.mem_cons.mp new with same | old
          · cases same
            rfl
          · exact faithful other result (List.mem_append_right _ (List.mem_cons_of_mem _ old))
      · simp [outlook]
      · simp [size]
  | @take sent waiting job result started taken =>
      refine ⟨?_, ?_, rfl, ?_⟩
      · exact fun other answer listed => faithful other answer (List.mem_cons_of_mem _ listed)
      · rw [faithful job result (List.mem_cons_self ..)]
        simp [outlook]
      · simp [size]

/-- A level that is not over can always go on. -/
theorem exists_step (room : 0 < limit) (f : Flight) :
    (f.waiting = [] ∧ f.started = []) ∨ ∃ next, Step a limit f next := by
  obtain ⟨sent, waiting, started, taken⟩ := f
  match started with
  | [] =>
      match waiting with
      | [] => exact .inl ⟨rfl, rfl⟩
      | job :: waiting => exact .inr ⟨_, .start room⟩
  | (job, none) :: started => exact .inr ⟨_, @Step.finish a limit sent waiting job [] started taken⟩
  | (job, some result) :: started => exact .inr ⟨_, .take⟩

end Flight

/-- Where a run is: before its next level, amid a level, or at its end. -/
inductive Stage where
  | due (levels : List (List Nat)) (memos : List Sql.Memo) (o : Outcome) (sent : List Job)
  | flying (levels : List (List Nat)) (memos : List Sql.Memo) (o : Outcome) (flight : Flight)
  | ended (memos : List Sql.Memo) (result : Result Outcome) (sent : List Job)

namespace Stage

def start (p : Plan) (memos : List Sql.Memo) : Stage :=
  if memos.length ≠ p.queries.length then
    .ended memos (fail (.statementCount memos.length p.queries.length)) []
  else .due p.levels memos (.ofPlan p) []

/-- A level is prepared, its jobs are in flight together, and when all answers were taken it is
settled. -/
inductive Step (a : Answers) (options : ExecutionOptions) (p : Plan) : Stage → Stage → Prop
  | finished {memos : List Sql.Memo} {o : Outcome} {sent : List Job} :
      Step a options p (.due [] memos o sent) (.ended memos (.ok o) sent)
  | refused {level : List Nat} {rest : List (List Nat)} {memos : List Sql.Memo} {o : Outcome}
      {sent : List Job} {error : QueryError}
      (refused : (prepare p o.rows memos level).failure = some error) :
      Step a options p (.due (level :: rest) memos o sent)
        (.ended (prepare p o.rows memos level).memos (.error error) sent)
  | level {level : List Nat} {rest : List (List Nat)} {memos : List Sql.Memo} {o : Outcome}
      {sent : List Job} (ready : (prepare p o.rows memos level).failure = none) :
      Step a options p (.due (level :: rest) memos o sent)
        (.flying rest (prepare p o.rows memos level).memos
          { o with skipped := o.skipped ++ (prepare p o.rows memos level).skipped }
          ⟨sent, (prepare p o.rows memos level).jobs, [], []⟩)
  | call {levels : List (List Nat)} {memos : List Sql.Memo} {o : Outcome} {f next : Flight}
      (step : f.Step a (max options.maxConcurrency 1) next) :
      Step a options p (.flying levels memos o f) (.flying levels memos o next)
  | landed {levels : List (List Nat)} {memos : List Sql.Memo} {o next : Outcome} {sent : List Job}
      {taken : List (Job × Result (List Row))}
      (settled : settle options.failurePolicy o taken = .ok next) :
      Step a options p (.flying levels memos o ⟨sent, [], [], taken⟩) (.due levels memos next sent)
  | aborted {levels : List (List Nat)} {memos : List Sql.Memo} {o : Outcome} {sent : List Job}
      {taken : List (Job × Result (List Row))} {error : QueryError}
      (settled : settle options.failurePolicy o taken = .error error) :
      Step a options p (.flying levels memos o ⟨sent, [], [], taken⟩)
        (.ended memos (.error error) sent)

/-- The stages that a run can come to. -/
inductive Reached (a : Answers) (options : ExecutionOptions) (p : Plan) (memos : List Sql.Memo) :
    Stage → Prop
  | start : Reached a options p memos (start p memos)
  | next {before after : Stage} (reached : Reached a options p memos before)
      (step : Step a options p before after) : Reached a options p memos after

variable {a : Answers} {options : ExecutionOptions} {p : Plan} {memos : List Sql.Memo}

/-- How a stage ends if the jobs that are left are sent one after another. -/
def outlook (a : Answers) (policy : FailurePolicy) (p : Plan) : Stage → Course
  | .due levels memos o sent => (a.course policy p levels memos o).after sent
  | .flying levels memos o f =>
    match settle policy o (f.outlook a) with
    | .error error => ⟨memos, f.sent ++ f.waiting, .error error⟩
    | .ok next => (a.course policy p levels memos next).after (f.sent ++ f.waiting)
  | .ended memos result sent => ⟨memos, sent, result⟩

def Faithful (a : Answers) : Stage → Prop
  | .flying _ _ _ f => f.Faithful a
  | _ => True

/-- What is left to do for a run; no level has more jobs than statements. -/
def size : Stage → Nat
  | .due levels _ _ _ => 3 * levels.flatten.length + 2 * levels.length + 1
  | .flying levels _ _ f => 3 * levels.flatten.length + 2 * levels.length + 2 + f.size
  | .ended _ _ _ => 0

theorem Step.keeps {stage next : Stage} (step : Step a options p stage next)
    (faithful : stage.Faithful a) :
    next.Faithful a ∧
      next.outlook a options.failurePolicy p = stage.outlook a options.failurePolicy p ∧
      next.size < stage.size := by
  cases step with
  | finished => exact ⟨trivial, by simp [outlook, Answers.course, Course.after], by simp [size]⟩
  | refused refused =>
      refine ⟨trivial, ?_, by simp [size]⟩
      simp [outlook, Answers.course, refused, Course.after]
  | @level level rest memos o sent ready =>
      refine ⟨fun _ _ listed => absurd listed List.not_mem_nil, ?_, ?_⟩
      · simp only [outlook, Flight.outlook, Answers.course, ready, List.map_nil, List.nil_append]
        cases settle options.failurePolicy
            { o with skipped := o.skipped ++ (prepare p o.rows memos level).skipped }
            (a.answered (prepare p o.rows memos level).jobs) with
        | error error => rfl
        | ok next => simp only [Course.after, List.append_assoc]
      · have jobs := (prepares ready).length_jobs
        simp only [size, Flight.size, List.flatten_cons, List.length_append, List.length_cons,
          List.length_nil, List.countP_nil]
        omega
  | call step =>
      obtain ⟨still, answers, jobs, less⟩ := step.keeps faithful
      refine ⟨still, ?_, ?_⟩
      · simp only [outlook, answers, jobs]
      · simp only [size]
        omega
  | landed settled =>
      refine ⟨trivial, ?_, ?_⟩
      · simp [outlook, Flight.outlook, Answers.answered, settled]
      · simp [size, Flight.size]
  | aborted settled =>
      refine ⟨trivial, ?_, ?_⟩
      · simp [outlook, Flight.outlook, Answers.answered, settled]
      · simp only [size]
        omega

theorem Reached.keeps {stage : Stage} (reached : Reached a options p memos stage) :
    stage.Faithful a ∧
      stage.outlook a options.failurePolicy p = a.whole options.failurePolicy p memos := by
  induction reached with
  | start =>
      unfold Stage.start Answers.whole
      split
      · exact ⟨trivial, rfl⟩
      · exact ⟨trivial, rfl⟩
  | next reached step ih =>
      obtain ⟨still, same, _⟩ := step.keeps ih.1
      exact ⟨still, same.trans ih.2⟩

/-- A run that is not over can always go on. -/
theorem exists_step (a : Answers) (options : ExecutionOptions) (p : Plan) (stage : Stage) :
    (∃ memos result sent, stage = .ended memos result sent) ∨ ∃ next, Step a options p stage next := by
  cases stage with
  | ended memos result sent => exact .inl ⟨memos, result, sent, rfl⟩
  | due levels memos o sent =>
      cases levels with
      | nil => exact .inr ⟨_, .finished⟩
      | cons level rest =>
          cases ready : (prepare p o.rows memos level).failure with
          | some error => exact .inr ⟨_, .refused ready⟩
          | none => exact .inr ⟨_, .level ready⟩
  | flying levels memos o flight =>
      have room : 0 < max options.maxConcurrency 1 := by omega
      rcases flight.exists_step (a := a) room with ⟨noneWaits, noneStarted⟩ | ⟨next, step⟩
      · obtain ⟨sent, waiting, started, taken⟩ := flight
        cases noneWaits
        cases noneStarted
        cases settled : settle options.failurePolicy o taken with
        | error error => exact .inr ⟨_, .aborted settled⟩
        | ok next => exact .inr ⟨_, .landed settled⟩
      · exact .inr ⟨_, .call step⟩

/-- A run comes to an end, whatever has come back so far. -/
theorem Reached.exists_end {stage : Stage} (reached : Reached a options p memos stage) :
    ∃ left result sent, Reached a options p memos (.ended left result sent) := by
  rcases exists_step a options p stage with ⟨memos, result, sent, rfl⟩ | ⟨next, step⟩
  · exact ⟨memos, result, sent, reached⟩
  · have less := (step.keeps reached.keeps.1).2.2
    exact (reached.next step).exists_end
termination_by stage.size

end Stage

/-- However the calls of a level interleave, a run goes on until it ends, and ends as the run that sends
the statements one after another: with the same memos, the same result and the same statements, which
were sent level by level and by number within a level. When it fails, a level could not be prepared,
which is not so for statements of a plan over a schema, or the run is given up for the lowest failing
statement of the first level at which it may be. -/
theorem reached_ends_alone {p : Plan} (made : p.Made) (a : Answers) (options : ExecutionOptions)
    (memos : List Sql.Memo) {stage : Stage} (reached : Stage.Reached a options p memos stage) :
    ((∃ left result sent, stage = .ended left result sent) ∨
        ∃ next, Stage.Step a options p stage next) ∧
      (∀ next, Stage.Step a options p stage next → next.size < stage.size) ∧
      ∀ left result sent, stage = .ended left result sent →
        let alone := run a.database options p memos ()
        left = alone.memos ∧ result = alone.result ∧
          sent.map a.note = (run a.database.recorded options p memos ((), [])).database.2 ∧
          sent.Pairwise Before ∧
          ∀ error, result = .error error →
            (Unprepared a options p memos sent error ∨ ∃ d level reached job failure,
              GivenUp a options p memos sent error d level reached job failure) ∧
            ∀ {s : Schema} {format : String} {plural : Bool} {request : Request}, s.Declared →
              Plan.build s.catalog format plural request = .ok p → p.Statements memos →
              ¬Unprepared a options p memos sent error := by
  obtain ⟨faithful, outlook⟩ := reached.keeps
  refine ⟨stage.exists_step a options p, fun next step => (step.keeps faithful).2.2, ?_⟩
  rintro left result sent rfl
  obtain ⟨sameMemos, sameResult⟩ := a.run_whole options p memos
  have notes := a.run_sent options p memos
  have failures := @whole_error a options p memos made
  have ordered : (a.whole options.failurePolicy p memos).sent.Pairwise Before := by
    rw [Answers.whole]
    split
    · exact .nil
    · exact (takes_ordered made (a.takes_course ..) (d := 0) (List.take_length).symm).1
  rw [← outlook] at sameMemos sameResult notes ordered failures
  refine ⟨sameMemos.symm, sameResult.symm, notes.symm, ordered, fun error failed => ?_⟩
  refine ⟨failures failed, ?_⟩
  intro s format plural request declared built held
  exact not_unprepared (Plan.build_over declared built) declared.sound held

/-- The articles of the user are refused, and the run is given up for them, however the calls come
back. -/
theorem reached_ends_alone_titles : ∃ p start left error sent d level reached job failure,
    Plan.build Schema.blog.catalog "user" true Plan.titles = .ok p ∧
      PreparedPlan.ofPlan p .strict = .ok start ∧
      Stage.Reached usersOnly .strict p start.memos (.ended left (.error error) sent) ∧
      (run usersOnly.database .strict p start.memos ()).result = .error error ∧
      GivenUp usersOnly .strict p start.memos sent error d level reached job failure := by
  have planned : ∃ p start error, Plan.build Schema.blog.catalog "user" true Plan.titles = .ok p ∧
      PreparedPlan.ofPlan p .strict = .ok start ∧
      (usersOnly.whole .strict p start.memos).result = .error error :=
    ⟨_, _, _, rfl, rfl, rfl⟩
  obtain ⟨p, start, error, built, made, failed⟩ := planned
  obtain ⟨left, result, sent, reached⟩ :=
    (@Stage.Reached.start usersOnly .strict p start.memos).exists_end
  obtain ⟨_, _, ends⟩ := reached_ends_alone (.built built) usersOnly .strict start.memos reached
  obtain ⟨_, same, _, _, failures⟩ := ends left result sent rfl
  have alone : (run usersOnly.database .strict p start.memos ()).result = .error error :=
    (usersOnly.run_whole .strict p start.memos).2.trans failed
  rw [alone] at same
  subst same
  obtain ⟨_, carried, held⟩ := PreparedPlan.carries_ofPlan
    (Plan.build_over Schema.blog_declared built) Schema.blog_declared.sound .strict
  cases made.symm.trans carried
  obtain ⟨either, ready⟩ := failures error rfl
  obtain ⟨d, level, before, job, failure, given⟩ := either.resolve_left
    (ready Schema.blog_declared built held.statements)
  exact ⟨p, start, left, error, sent, d, level, before, job, failure, built, made, reached, alone,
    given⟩

/-- Formats of which nobody checked that users have the field that their drafts hang on. -/
def strayDrafts : Declarations :=
  ((Declarations.empty.addFormat Schema.Blog.user).addFormat Schema.Blog.article
    |>.relate Schema.Blog.authorship (some "articles") none
    |>.relate (.oneToMany ⟨"user", "uuid"⟩ ⟨"article", "authorId"⟩) (some "drafts") none)

def articlesAndDrafts : Request :=
  ⟨some ["name"], [("articles", .empty), ("drafts", .empty)], .empty⟩

/-- The drafts cannot be bound, and so the run ends before the articles are asked for, although they come
first and would have been refused. -/
theorem ended_unprepared : ∃ p start left sent root job failure,
    Plan.build strayDrafts.catalog "user" true articlesAndDrafts = .ok p ∧
      PreparedPlan.ofPlan p .strict = .ok start ∧
      Stage.Reached usersOnly .strict p start.memos
        (.ended left (.error (.internal (.fieldNotSelected "uuid"))) sent) ∧
      sent = [root] ∧ root.query = 0 ∧
      (∃ answer, usersOnly.answer root = .ok answer ∧
        (prepare p [answer, [], []] start.memos [1]).jobs = [job]) ∧
      usersOnly.answer job = .error failure ∧
      ¬∃ d level reached job failure, GivenUp usersOnly .strict p start.memos sent
        (.internal (.fieldNotSelected "uuid")) d level reached job failure := by
  have planned : ∃ p start root job failure,
      Plan.build strayDrafts.catalog "user" true articlesAndDrafts = .ok p ∧
        PreparedPlan.ofPlan p .strict = .ok start ∧
        (usersOnly.whole .strict p start.memos).result = .error (.internal (.fieldNotSelected "uuid")) ∧
        (usersOnly.whole .strict p start.memos).sent = [root] ∧ root.query = 0 ∧
        (∃ answer, usersOnly.answer root = .ok answer ∧
          (prepare p [answer, [], []] start.memos [1]).jobs = [job]) ∧
        usersOnly.answer job = .error failure :=
    ⟨_, _, _, _, _, rfl, rfl, rfl, rfl, rfl, ⟨_, rfl, rfl⟩, rfl⟩
  obtain ⟨p, start, root, job, failure, built, made, result, sent, first, ready, refused⟩ := planned
  obtain ⟨left, ended, jobs, reached⟩ :=
    (@Stage.Reached.start usersOnly .strict p start.memos).exists_end
  have outlook := reached.keeps.2
  change Course.mk left jobs ended = usersOnly.whole .strict p start.memos at outlook
  rw [← outlook] at result sent
  subst result
  exact ⟨p, start, left, jobs, root, job, failure, built, made, reached, sent, first, ready, refused,
    fun ⟨_, _, _, _, _, given⟩ => nomatch given.error_eq⟩

end NestedQuery.Execution
