/- In which order statements are sent, and where a run that fails has failed. -/
import Mathlib.Data.List.Nodup
import NestedQuery.Proofs.Levels
import NestedQuery.Proofs.Made
import NestedQuery.Proofs.Safety

namespace NestedQuery.Execution

section Sequence

variable {a : Answers} {policy : FailurePolicy} {p : Plan} {memos : List Sql.Memo}

/-- The order in which jobs are sent: level by level, and by number within a level. -/
def Before (x y : Job) : Prop := x.depth < y.depth ∨ x.depth = y.depth ∧ x.query < y.query

theorem Prepares.ordered (made : p.Made) {rows : List (List Row)} {level : List Nat}
    {ready : Preparation} {d : Nat} (here : p.levels[d]? = some level)
    (prepared : Prepares p rows memos level ready) :
    ready.jobs.Pairwise Before ∧ ∀ job ∈ ready.jobs, job.depth = d := by
  have depths : ∀ job ∈ ready.jobs, job.depth = d := by
    intro job listed
    obtain ⟨inLevel, q, query, own⟩ := prepared.depth job listed
    obtain ⟨q', again, deep⟩ := made.parts.query_of_level here inLevel
    cases query.symm.trans again
    exact own.trans deep
  have increasing := made.parts.increasing here
  have queries : (ready.jobs.map (·.query)).Pairwise (· < ·) := by
    rw [prepared.queries (increasing.imp Nat.ne_of_lt)]
    exact increasing.filter _
  refine ⟨(List.pairwise_map.mp queries).imp_of_mem fun {x y} inX inY less => ?_, depths⟩
  exact .inr ⟨(depths x inX).trans (depths y inY).symm, less⟩

/-- A statement of a level is sent once, unless it is left out. -/
theorem Prepares.count (made : p.Made) {rows : List (List Row)} {level : List Nat}
    {ready : Preparation} {d k : Nat} (here : p.levels[d]? = some level)
    (prepared : Prepares p rows memos level ready) (member : k ∈ level) :
    (ready.jobs.map (·.query)).count k = if k ∈ ready.skipped then 0 else 1 := by
  have distinct : level.Nodup := (made.parts.increasing here).imp Nat.ne_of_lt
  rw [prepared.queries distinct]
  split
  · next leftOut =>
      refine List.count_eq_zero_of_not_mem fun kept => ?_
      simp [leftOut] at kept
  · next due =>
      refine List.count_eq_one_of_mem (distinct.filter _) ?_
      exact List.mem_filter.mpr ⟨member, by simpa using due⟩

/-- A level that is given up is so for the lowest of its statements that abort the run. -/
theorem Prepares.given_up (made : p.Made) {rows : List (List Row)} {level : List Nat}
    {ready : Preparation} {d : Nat} (here : p.levels[d]? = some level)
    (prepared : Prepares p rows memos level ready) {o : Outcome} {error : QueryError}
    (settled : settle policy o (a.answered ready.jobs) = .error error) :
    ∃ job ∈ ready.jobs, ∃ failure, a.answer job = .error failure ∧
      (job.query = 0 ∨ policy = .strict) ∧
      error = .statement job.query job.statement.text failure.message ∧
      ∀ other ∈ ready.jobs, a.Aborts policy other → job.query ≤ other.query := by
  obtain ⟨ordered, depths⟩ := prepared.ordered made here
  obtain ⟨earlier, job, later, failure, split, met, given, same, accepted⟩ :=
    Answers.settle_error settled
  rw [split] at ordered depths ⊢
  have inLevel : job ∈ earlier ++ job :: later := List.mem_append_right _ (List.mem_cons_self ..)
  refine ⟨job, inLevel, failure, met, given, same, fun other listed aborts => ?_⟩
  rcases List.mem_append.mp listed with before | after
  · exact absurd aborts (accepted other before)
  · rcases List.mem_cons.mp after with rfl | after
    · exact Nat.le_refl _
    · have order := (List.pairwise_cons.mp (List.pairwise_append.mp ordered).2.1).1 other after
      have depth := depths job inLevel
      have beside := depths other listed
      rcases order with deeper | ⟨_, less⟩ <;> omega

theorem levels_window {d n : Nat} {level : List Nat} {rest : List (List Nat)}
    (same : level :: rest = (p.levels.drop d).take n) :
    ∃ m, n = m + 1 ∧ p.levels[d]? = some level ∧ rest = (p.levels.drop (d + 1)).take m := by
  cases n with
  | zero => cases same
  | succ m =>
      cases below : p.levels.drop d with
      | nil =>
          rw [below] at same
          cases same
      | cons first others =>
          rw [below] at same
          cases same
          obtain ⟨here, rest⟩ := getElem?_of_cons_eq_drop below.symm
          exact ⟨m, rfl, here, congrArg (List.take m) rest⟩

/-- Some levels one after another send their jobs in order, and none of another level. -/
theorem takes_ordered (made : p.Made) {levels : List (List Nat)} {o : Outcome} {course : Course}
    (takes : Answers.Takes a policy p levels memos o course) {d n : Nat}
    (same : levels = (p.levels.drop d).take n) :
    course.sent.Pairwise Before ∧ ∀ job ∈ course.sent, d ≤ job.depth ∧ job.depth < d + n := by
  induction takes generalizing d n with
  | finished => exact ⟨.nil, List.forall_mem_nil _⟩
  | refused => exact ⟨.nil, List.forall_mem_nil _⟩
  | givenUp ready =>
      obtain ⟨m, rfl, here, _⟩ := levels_window same
      obtain ⟨ordered, depths⟩ := (prepares ready).ordered made here
      exact ⟨ordered, fun job listed => by rw [depths job listed]; omega⟩
  | onward ready _ _ ih =>
      obtain ⟨m, rfl, here, later⟩ := levels_window same
      obtain ⟨ordered, depths⟩ := (prepares ready).ordered made here
      obtain ⟨orderedLater, deeper⟩ := ih later
      refine ⟨List.pairwise_append.mpr ⟨ordered, orderedLater, ?_⟩, ?_⟩
      · intro x inX y inY
        have above := depths x inX
        have below := deeper y inY
        exact .inl (by omega)
      · refine List.forall_mem_append.mpr ⟨fun job listed => ?_, fun job listed => ?_⟩
        · rw [depths job listed]
          omega
        · have below := deeper job listed
          omega

end Sequence

section Failure

variable {a : Answers} {options : ExecutionOptions} {p : Plan} {memos : List Sql.Memo}

/-- The levels above `d` have been answered, with this outcome. -/
def Answered (a : Answers) (options : ExecutionOptions) (p : Plan) (memos : List Sql.Memo) (d : Nat)
    (reached : Outcome) : Prop :=
  (runLevels a.database options p (p.levels.take d) () memos (.ofPlan p)).result = .ok reached

/-- What the level at depth `d` sends after that. -/
def prepared (a : Answers) (options : ExecutionOptions) (p : Plan) (memos : List Sql.Memo) (d : Nat)
    (reached : Outcome) (level : List Nat) : Preparation :=
  let above := runLevels a.database options p (p.levels.take d) () memos (.ofPlan p)
  prepare p reached.rows above.memos level

/-- A run that ends before its statements could be sent: there is not one memo for each, or a level
cannot be prepared; nothing of that level or below it is sent. -/
inductive Unprepared (a : Answers) (options : ExecutionOptions) (p : Plan) (memos : List Sql.Memo)
    (sent : List Job) (error : QueryError) : Prop
  | count (different : memos.length ≠ p.queries.length) (nothing : sent = [])
  | level {d : Nat} {level : List Nat} {reached : Outcome} (here : p.levels[d]? = some level)
      (above : Answered a options p memos d reached)
      (refused : (prepared a options p memos d reached level).failure = some error)
      (higher : ∀ job ∈ sent, job.depth < d)

/-- A run that is given up for a job of the level at depth `d`: no level above is given up for any job,
nor is this one for a job before it; all of the level is sent once but what is left out, and nothing
below it is sent. -/
structure GivenUp (a : Answers) (options : ExecutionOptions) (p : Plan) (memos : List Sql.Memo)
    (sent : List Job) (error : QueryError) (d : Nat) (level : List Nat) (reached : Outcome)
    (job : Job) (failure : QueryError) : Prop where
  here : p.levels[d]? = some level
  above : Answered a options p memos d reached
  ready : (prepared a options p memos d reached level).failure = none
  listed : job ∈ sent
  depth_eq : job.depth = d
  met : a.answer job = .error failure
  given : job.query = 0 ∨ options.failurePolicy = .strict
  error_eq : error = .statement job.query job.statement.text failure.message
  first : ∀ other ∈ sent, a.Aborts options.failurePolicy other →
    other.depth = d ∧ job.query ≤ other.query
  complete : ∀ k ∈ level, (sent.map (·.query)).count k =
    if k ∈ (prepared a options p memos d reached level).skipped then 0 else 1
  deepest : ∀ other ∈ sent, other.depth ≤ d

theorem whole_error (made : p.Made) {error : QueryError}
    (failed : (a.whole options.failurePolicy p memos).result = .error error) :
    Unprepared a options p memos (a.whole options.failurePolicy p memos).sent error ∨
      ∃ d level reached job failure, GivenUp a options p memos
        (a.whole options.failurePolicy p memos).sent error d level reached job failure := by
  by_cases different : memos.length ≠ p.queries.length
  · refine .inl (.count different ?_)
    rw [Answers.whole, if_pos different]
  · rw [a.whole_eq _ (not_not.mp different)] at failed ⊢
    obtain ⟨d, level, reached, here, done, ends⟩ := (Answers.takes_course ..).failed_at failed
    obtain ⟨left, result⟩ := a.runLevels_result options p (p.levels.take d) memos (.ofPlan p)
    have above : Answered a options p memos d reached := result.trans done
    have ready : prepared a options p memos d reached level = prepare p reached.rows
        (a.course options.failurePolicy p (p.levels.take d) memos (.ofPlan p)).memos level := by
      rw [prepared, left]
    have higher : ∀ job ∈ (a.course options.failurePolicy p (p.levels.take d) memos (.ofPlan p)).sent,
        job.depth < d := by
      intro job listed
      have deep := (takes_ordered made (a.takes_course ..) (d := 0) rfl).2 job listed
      omega
    rcases ends with ⟨refused, sent⟩ | ⟨ok, sent, settled⟩
    · rw [sent]
      exact .inl (.level here above (ready ▸ refused) higher)
    · have planned := prepares ok
      have depths := (planned.ordered made here).2
      obtain ⟨job, inLevel, failure, met, given, same, lowest⟩ := planned.given_up made here settled
      rw [sent]
      refine .inr ⟨d, level, reached, job, failure, here, above, ready ▸ ok,
        List.mem_append_right _ inLevel, depths job inLevel, met, given, same, ?_, ?_, ?_⟩
      · intro other listed aborts
        rcases List.mem_append.mp listed with aboveIt | besideIt
        · exact absurd aborts ((a.takes_course ..).accepted done other aboveIt)
        · exact ⟨depths other besideIt, lowest other besideIt aborts⟩
      · intro k member
        obtain ⟨q, query, deep⟩ := made.parts.query_of_level here member
        have notAbove : k ∉ (a.course options.failurePolicy p (p.levels.take d) memos
            (.ofPlan p)).sent.map (·.query) := by
          intro listed
          obtain ⟨other, inAbove, rfl⟩ := List.mem_map.mp listed
          obtain ⟨q', again, own⟩ := (a.takes_course ..).depth other inAbove
          cases query.symm.trans again
          have shallow := higher other inAbove
          omega
        rw [List.map_append, List.count_append, List.count_eq_zero_of_not_mem notAbove,
          planned.count made here member, ready, Nat.zero_add]
      · intro other listed
        rcases List.mem_append.mp listed with aboveIt | besideIt
        · exact Nat.le_of_lt (higher other aboveIt)
        · exact Nat.le_of_eq (depths other besideIt)

/-- Called statements of a plan over a schema are prepared at every level. -/
theorem not_unprepared {s : Schema} {plural : Bool} {request : Request}
    (valid : p.Over s plural request) (sound : s.Sound) (held : p.Statements memos)
    {sent : List Job} {error : QueryError} : ¬Unprepared a options p memos sent error := by
  have known : ∀ (d : Nat) (level : List Nat), p.levels[d]? = some level → ∀ k ∈ level,
      ∃ q, p.queries[k]? = some q := by
    intro d level here k member
    obtain ⟨q, query, _⟩ := valid.parts.query_of_level here member
    exact ⟨q, query⟩
  intro unprepared
  cases unprepared with
  | count different => exact different held.count
  | @level d level reached here above refused =>
      have higher : ∀ level ∈ p.levels.take d, ∀ k ∈ level, ∃ q, p.queries[k]? = some q := by
        intro level listed
        obtain ⟨i, found⟩ := List.mem_iff_getElem?.mp (List.mem_of_mem_take listed)
        exact known i level found
      have ran := Plan.runLevels_ends a.database valid sound options higher () [] held
        (o := .ofPlan p) List.length_replicate
      obtain ⟨_, same⟩ := runLevels_recorded a.database options p (p.levels.take d) () [] memos
        (.ofPlan p)
      rw [same] at ran
      have ready : p.Sendable (prepared a options p memos d reached level) :=
        Plan.prepare_sendable valid sound ran.1 (known d level here)
      cases ready.failure.symm.trans refused

end Failure

/-- Answers what has no parameters with one user, and refuses the rest. -/
def usersOnly : Answers where
  fetch statement :=
    if statement.params.isEmpty then .ok [[("0.id", .int 1), ("0.name", .text "Ann")]]
    else .error (.database "refused")
  fetchOne _ := .ok none

end NestedQuery.Execution
