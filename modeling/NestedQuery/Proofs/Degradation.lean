/- Failures that are accepted: a run goes on as if the statements that fail had found nothing, and only
the statements below them notice. -/
import NestedQuery.Proofs.Failure
import NestedQuery.Proofs.Held

namespace NestedQuery

open Execution

namespace Execution

theorem set_blank {rows : List (List Row)} {k : Nat} (blank : (rows[k]?).getD [] = []) :
    rows.set k [] = rows := by
  by_cases inside : k < rows.length
  · rw [List.getElem?_eq_getElem inside, Option.getD_some] at blank
    rw [← blank, List.set_getElem_self]
  · exact List.set_eq_of_length_le (Nat.le_of_not_lt inside)

end Execution

namespace Answers

/-- Both answer all jobs of a plan, and alike, but that the first fails on the jobs of some statements,
where the second finds nothing. The root's statement is not one of them. -/
structure Cuts (p : Plan) (failing : List Nat) (a b : Answers) : Prop where
  root : 0 ∉ failing
  outside : ∀ job, p.Sends p.rootQuery job → job.query ∉ failing →
    ∃ rows, a.answer job = .ok rows ∧ b.answer job = .ok rows
  inside : ∀ job, p.Sends p.rootQuery job → job.query ∈ failing →
    (∃ failure, a.answer job = .error failure) ∧ b.answer job = .ok []

variable {p : Plan} {failing : List Nat} {a b c : Answers} {memos : List Sql.Memo} {o : Outcome}

/-- No rows have been put in the places of these statements. -/
def Blank (failing : List Nat) (o : Outcome) : Prop := ∀ k ∈ failing, (o.rows[k]?).getD [] = []

/-- A level with failures is settled like one that finds nothing in their place. -/
theorem Cuts.settle (cuts : a.Cuts p failing b) {jobs : List Job}
    (sends : ∀ job ∈ jobs, p.Sends p.rootQuery job) (blank : Blank failing o) (known : List Nat) :
    ∃ next, settle .degrade o (a.answered jobs) = .ok next ∧ Blank failing next ∧
      next.degraded = o.degraded ++ (jobs.map (·.query)).filter (failing.contains ·) ∧
      settle .degrade { o with degraded := known } (b.answered jobs) =
        .ok { next with degraded := known } := by
  induction jobs generalizing o with
  | nil => exact ⟨o, rfl, blank, (List.append_nil _).symm, rfl⟩
  | cons job rest ih =>
      obtain ⟨first, later⟩ := List.forall_mem_cons.mp sends
      by_cases listed : job.query ∈ failing
      · obtain ⟨⟨failure, met⟩, none⟩ := cuts.inside job first listed
        have accepted : ¬(job.query = 0 ∨ FailurePolicy.degrade = .strict) := by
          rintro (top | strict)
          · exact cuts.root (top ▸ listed)
          · cases strict
        obtain ⟨next, done, still, degraded, same⟩ :=
          ih later (o := { o with degraded := o.degraded ++ [job.query] }) blank
        refine ⟨next, ?_, still, ?_, ?_⟩
        · simp only [answered, List.map_cons, met, Execution.settle, if_neg accepted]
          exact done
        · rw [degraded, List.map_cons, List.filter_cons_of_pos (by simpa using listed),
            List.append_assoc, List.singleton_append]
        · simp only [answered, List.map_cons, none, Execution.settle,
            set_blank (blank job.query listed)]
          exact same
      · obtain ⟨rows, one, other⟩ := cuts.outside job first listed
        have untouched : Blank failing { o with rows := o.rows.set job.query rows } := by
          intro k inside
          have different : job.query ≠ k := fun same => listed (same ▸ inside)
          rw [List.getElem?_set_ne different]
          exact blank k inside
        obtain ⟨next, done, still, degraded, same⟩ := ih later untouched
        refine ⟨next, ?_, still, ?_, ?_⟩
        · simp only [answered, List.map_cons, one, Execution.settle]
          exact done
        · rw [degraded, List.map_cons, List.filter_cons_of_neg (by simpa using listed)]
        · simp only [answered, List.map_cons, other, Execution.settle]
          exact same

/-- Both runs send the same jobs, leave the same memos and come to the same result, but for what they
note as degraded. -/
theorem Cuts.course (cuts : a.Cuts p failing b) (levels : List (List Nat))
    (held : p.Holds p.rootQuery memos) (blank : Blank failing o) (known : List Nat) :
    let one := a.course .degrade p levels memos o
    let other := b.course .degrade p levels memos { o with degraded := known }
    other.memos = one.memos ∧ other.sent = one.sent ∧
      other.result = one.result.map (fun done => { done with degraded := known }) ∧
      ∀ done, one.result = .ok done → done.degraded =
        o.degraded ++ (one.sent.map (·.query)).filter (failing.contains ·) := by
  induction levels generalizing memos o with
  | nil =>
      refine ⟨rfl, rfl, rfl, ?_⟩
      rintro done ⟨⟩
      exact (List.append_nil _).symm
  | cons level rest ih =>
      obtain ⟨ready, sends⟩ := held.prepare o.rows level
      simp only [Answers.course]
      cases (prepare p o.rows memos level).failure with
      | some error =>
          refine ⟨rfl, rfl, rfl, fun _ failed => ?_⟩
          cases failed
      | none =>
          obtain ⟨next, settled, still, degraded, same⟩ := cuts.settle sends
            (o := { o with skipped := o.skipped ++ (prepare p o.rows memos level).skipped })
            blank known
          obtain ⟨left, sent, result, noted⟩ := ih ready still
          simp only [settled, same]
          refine ⟨left, ?_, result, fun done ended => ?_⟩
          · simp only [Course.after, sent]
          · rw [noted done ended, degraded]
            simp only [Course.after, List.map_append, List.filter_append, List.append_assoc]

end Answers

/-- The statements below those of a list. -/
inductive Plan.Under (p : Plan) (above : List Nat) : Nat → Prop
  | child {k parent : Nat} {q : QueryNode} (query : p.queries[k]? = some q)
      (hangs : q.parent = some parent) (listed : parent ∈ above) : Under p above k
  | further {k parent : Nat} {q : QueryNode} (query : p.queries[k]? = some q)
      (hangs : q.parent = some parent) (under : Under p above parent) : Under p above k

namespace Execution

variable {p : Plan} {rows others : List (List Row)} {memos memos' : List Sql.Memo} {level : List Nat}
  {ready ready' : Preparation} {k : Nat}

theorem bound_congr {q : QueryNode}
    (same : ∀ parent, q.parent = some parent → rows[parent]? = others[parent]?) (memo : Sql.Memo) :
    bound p rows q memo = bound p others q memo := by
  unfold bound
  split
  · rfl
  · next parent hangs => rw [same parent hangs]

/-- What a level does for a statement depends only on its own memo and on the rows of its parent. -/
theorem Prepares.congr (one : Prepares p rows memos level ready)
    (other : Prepares p others memos' level ready') (memo : memos[k]? = memos'[k]?)
    (above : ∀ q parent, p.queries[k]? = some q → q.parent = some parent →
      rows[parent]? = others[parent]?) :
    ready.memos[k]? = ready'.memos[k]? ∧ (k ∈ ready.skipped ↔ k ∈ ready'.skipped) ∧
      ready.jobs.filter (·.query == k) = ready'.jobs.filter (·.query == k) := by
  induction one generalizing memos' ready' with
  | nil =>
      cases other
      exact ⟨memo, Iff.rfl, rfl⟩
  | @skipped memos id rest q own later query kept unbound _ ih =>
      cases other with
      | skipped query' kept' unbound' later' =>
          obtain ⟨left, skips, jobs⟩ := ih later' memo
          exact ⟨left, by simp [skips], jobs⟩
      | sent query' kept' binds' rendered' later' =>
          have different : id ≠ k := by
            rintro rfl
            cases query.symm.trans query'
            cases kept.symm.trans (memo.trans kept')
            rw [bound_congr fun parent => above q parent query] at unbound
            cases unbound.symm.trans binds'
          obtain ⟨left, skips, jobs⟩ := ih later' (memo.trans (List.getElem?_set_ne different).symm)
          refine ⟨left, ?_, ?_⟩
          · simp [skips, Ne.symm different]
          · simp [jobs, different]
  | @sent memos id rest q own given statement later query kept binds rendered _ ih =>
      by_cases here : id = k
      · subst here
        have boundAlike : bound p others q own = .ok (some given) := by
          rw [← bound_congr (fun parent => above q parent query) own]
          exact binds
        cases other with
        | skipped query' kept' unbound' later' =>
            cases query.symm.trans query'
            cases kept.symm.trans (memo.trans kept')
            cases boundAlike.symm.trans unbound'
        | sent query' kept' binds' rendered' later' =>
            cases query.symm.trans query'
            cases kept.symm.trans (memo.trans kept')
            cases boundAlike.symm.trans binds'
            cases rendered.symm.trans rendered'
            have inside := (List.getElem?_eq_some_iff.mp kept).1
            have inside' := (List.getElem?_eq_some_iff.mp kept').1
            obtain ⟨left, skips, jobs⟩ := ih later' (by
              rw [List.getElem?_set_self inside, List.getElem?_set_self inside'])
            exact ⟨left, skips, by simp [jobs]⟩
      · have before : (memos.set id given.statement.2)[k]? = memos'[k]? :=
          (List.getElem?_set_ne here).trans memo
        cases other with
        | skipped query' kept' unbound' later' =>
            obtain ⟨left, skips, jobs⟩ := ih later' before
            refine ⟨left, ?_, ?_⟩
            · simp [skips, Ne.symm here]
            · simp [jobs, here]
        | sent query' kept' binds' rendered' later' =>
            obtain ⟨left, skips, jobs⟩ :=
              ih later' (before.trans (List.getElem?_set_ne here).symm)
            exact ⟨left, skips, by simp [jobs, here]⟩

end Execution

namespace Answers

variable {p : Plan} {failing : List Nat} {a b c : Answers} {memos others : List Sql.Memo}
  {o o' : Outcome} {policy : FailurePolicy}

theorem answered_filter (a : Answers) (jobs : List Job) (k : Nat) :
    (a.answered jobs).filter (·.1.query == k) = a.answered (jobs.filter (·.query == k)) :=
  List.filter_map

/-- Two runs have come to the same for the statements that are not below those that fail. -/
structure Alongside (p : Plan) (failing : List Nat) (o o' : Outcome) : Prop where
  rows : ∀ k, ¬p.Under failing k → k ∉ failing → o.rows[k]? = o'.rows[k]?
  skipped : ∀ k, ¬p.Under failing k → (k ∈ o.skipped ↔ k ∈ o'.skipped)

theorem Takes.alongside {levels : List (List Nat)} {one other : Course}
    (takes : Takes a policy p levels memos o one) (takes' : Takes c policy p levels others o' other)
    (held : p.Holds p.rootQuery memos)
    (agree : ∀ job, p.Sends p.rootQuery job → job.query ∉ failing → a.answer job = c.answer job)
    (same : ∀ k, ¬p.Under failing k → memos[k]? = others[k]?) (along : Alongside p failing o o')
    {done done' : Outcome} (result : one.result = .ok done) (result' : other.result = .ok done') :
    Alongside p failing done done' ∧ ∀ k, ¬p.Under failing k →
      one.sent.filter (·.query == k) = other.sent.filter (·.query == k) := by
  induction takes generalizing others o' other with
  | finished =>
      cases takes'
      cases result
      cases result'
      exact ⟨along, fun _ _ => rfl⟩
  | refused => cases result
  | givenUp => cases result
  | @onward level _ memos o next _ ready settled _ ih =>
      cases takes' with
      | refused => cases result'
      | givenUp => cases result'
      | @onward _ _ _ _ next' _ ready' settled' later' =>
          obtain ⟨still, sends⟩ := held.prepare o.rows level
          -- the parent of a statement that is apart is apart itself, and not among those that fail
          have own : ∀ k, ¬p.Under failing k → _ := fun k apart =>
            (prepares ready).congr (prepares ready') (same k apart) fun q parent query hangs =>
              along.rows parent (fun under => apart (.further query hangs under))
                (fun listed => apart (.child query hangs listed))
          obtain ⟨skipped, _, _, rows⟩ := settle_kept settled
          obtain ⟨skipped', _, _, rows'⟩ := settle_kept settled'
          have onward : Alongside p failing next next' := by
            constructor
            · intro k apart outside
              have answers : a.answered ((prepare p o.rows memos level).jobs.filter (·.query == k)) =
                  c.answered ((prepare p o.rows memos level).jobs.filter (·.query == k)) := by
                refine List.map_congr_left fun job listed => ?_
                obtain ⟨listed, here⟩ := List.mem_filter.mp listed
                rw [agree job (sends job listed) (beq_iff_eq.mp here ▸ outside)]
              rw [rows, rows', answered_filter, answered_filter, ← (own k apart).2.2, answers,
                along.rows k apart outside]
            · intro k apart
              rw [skipped, skipped', List.mem_append, List.mem_append, along.skipped k apart,
                (own k apart).2.1]
          obtain ⟨end', sent⟩ :=
            ih later' still (fun k apart => (own k apart).1) onward result result'
          refine ⟨end', fun k apart => ?_⟩
          simp only [Course.after, List.filter_append, sent k apart, (own k apart).2.2]

end Answers

namespace Execution

variable {p : Plan} {options : ExecutionOptions} {prepared : PreparedPlan} {a : Answers}

/-- Where failures are accepted and the root is answered, a run over a schema succeeds. -/
theorem run_succeeds {s : Schema} (declared : s.Declared) {format : String} {plural : Bool}
    {request : Request} (built : Plan.build s.catalog format plural request = .ok p)
    (fresh : PreparedPlan.ofPlan p options = .ok prepared)
    (lenient : options.failurePolicy = .degrade)
    (answered : ∀ job, p.Sends p.rootQuery job → job.query = 0 → Result.Succeeds (a.answer job)) :
    Result.Succeeds (run a.database options p prepared.memos ()).result := by
  have valid := Plan.build_over declared built
  obtain ⟨_, made, carries⟩ := PreparedPlan.carries_ofPlan valid declared.sound options
  cases fresh.symm.trans made
  obtain ⟨_, _, _, held⟩ := Plan.holds_ofPlan fresh
  rw [(a.run_whole options p prepared.memos).2]
  cases ended : (a.whole options.failurePolicy p prepared.memos).result with
  | ok o => exact .ok o
  | error error =>
      rcases whole_error (.built built) ended with unprepared | ⟨d, level, reached, job, failure, given⟩
      · exact absurd unprepared (not_unprepared valid declared.sound carries.statements)
      · have sends : p.Sends p.rootQuery job := by
          have listed := given.listed
          rw [a.whole_eq _ carries.statements.count] at listed
          exact held.takes (a.takes_course ..) job listed
        rcases given.given with top | strict
        · obtain ⟨rows, met⟩ := answered job sends top
          cases given.met.symm.trans met
        · cases lenient.symm.trans strict

/-- Where failures are accepted, statements that fail might as well have found nothing: the same
statements are sent in the same order, and the outcome, the tree or the error is the same, but that the
failed statements that were sent are noted as degraded. What is not below such a statement is sent, left
out and answered as in any run in which only these statements are answered otherwise. Over a schema all
these runs succeed. -/
theorem degraded_as_empty (fresh : PreparedPlan.ofPlan p options = .ok prepared)
    (lenient : options.failurePolicy = .degrade) {failing : List Nat} {b : Answers}
    (cuts : a.Cuts p failing b) :
    let one := run a.database options p prepared.memos ()
    let sent := (a.whole .degrade p prepared.memos).sent
    (run a.database.recorded options p prepared.memos ((), [])).database.2 = sent.map a.note ∧
      (run b.database.recorded options p prepared.memos ((), [])).database.2 = sent.map b.note ∧
      (run b.database options p prepared.memos ()).result =
        one.result.map (fun o => { o with degraded := [] }) ∧
      (prepared.execute b.database ()).1.result = (prepared.execute a.database ()).1.result ∧
      (∀ o, one.result = .ok o → o.degraded = (sent.map (·.query)).filter (failing.contains ·)) ∧
      ∀ c : Answers, (∀ job, p.Sends p.rootQuery job → job.query ∉ failing →
          a.answer job = c.answer job) →
        let other := run c.database options p prepared.memos ()
        let sent' := (c.whole .degrade p prepared.memos).sent
        (run c.database.recorded options p prepared.memos ((), [])).database.2 = sent'.map c.note ∧
          (∀ o o', one.result = .ok o → other.result = .ok o' → ∀ k, ¬p.Under failing k →
            sent.filter (·.query == k) = sent'.filter (·.query == k) ∧
              (k ∈ o.skipped ↔ k ∈ o'.skipped) ∧ (k ∉ failing → o.rows[k]? = o'.rows[k]?)) ∧
          ∀ {s : Schema} {format : String} {plural : Bool} {request : Request}, s.Declared →
            Plan.build s.catalog format plural request = .ok p →
            Result.Succeeds one.result ∧ Result.Succeeds other.result := by
  obtain ⟨samePlan, sameOptions, count, held⟩ := Plan.holds_ofPlan fresh
  have complete : ∀ c : Answers, c.whole .degrade p prepared.memos =
      c.course .degrade p p.levels prepared.memos (.ofPlan p) := fun c => c.whole_eq .degrade count
  have blank : Answers.Blank failing (.ofPlan p) := by
    intro k _
    rw [Outcome.ofPlan, List.getElem?_replicate]
    split <;> rfl
  obtain ⟨_, sent, result, degraded⟩ := cuts.course p.levels held blank []
  have result : (run b.database options p prepared.memos ()).result =
      (run a.database options p prepared.memos ()).result.map (fun o => { o with degraded := [] }) := by
    rw [(b.run_whole options p prepared.memos).2, (a.run_whole options p prepared.memos).2, lenient,
      complete, complete]
    exact result
  refine ⟨?_, ?_, result, ?_, ?_, ?_⟩
  · rw [← lenient]
    exact a.run_sent options p prepared.memos
  · rw [b.run_sent, lenient, complete b, complete a]
    exact congrArg (List.map b.note) sent
  · simp only [PreparedPlan.execute, samePlan, sameOptions, result]
    cases (run a.database options p prepared.memos ()).result <;> rfl
  · intro o done
    rw [(a.run_whole options p prepared.memos).2, lenient, complete] at done
    rw [complete, degraded o done]
    rfl
  · intro c agree
    refine ⟨?_, ?_, ?_⟩
    · rw [← lenient]
      exact c.run_sent options p prepared.memos
    · intro o o' done done' k apart
      rw [(a.run_whole options p prepared.memos).2, lenient, complete] at done
      rw [(c.run_whole options p prepared.memos).2, lenient, complete] at done'
      obtain ⟨along, jobs⟩ := (a.takes_course ..).alongside (c.takes_course ..) held agree
        (fun _ _ => rfl) ⟨fun _ _ _ => rfl, fun _ _ => Iff.rfl⟩ done done'
      rw [complete, complete]
      exact ⟨jobs k apart, along.skipped k apart, along.rows k apart⟩
    · intro s format plural request declared built
      have answered : ∀ job, p.Sends p.rootQuery job → job.query = 0 →
          Result.Succeeds (a.answer job) := by
        intro job sends top
        obtain ⟨rows, met, _⟩ := cuts.outside job sends (top ▸ cuts.root)
        exact ⟨rows, met⟩
      refine ⟨run_succeeds declared built fresh lenient answered, ?_⟩
      refine run_succeeds declared built fresh lenient fun job sends top => ?_
      rw [← agree job sends (top ▸ cuts.root)]
      exact answered job sends top

/-- Answers what has no parameters with one user, and finds nothing else. -/
def noArticles : Answers where
  fetch statement :=
    if statement.params.isEmpty then .ok [[("0.id", .int 1), ("0.name", .text "Ann")]] else .ok []
  fetchOne _ := .ok none

theorem usersOnly_cuts : ∃ p prepared,
    Plan.build Schema.blog.catalog "user" true Plan.titles = .ok p ∧
      PreparedPlan.ofPlan p .standard = .ok prepared ∧
      (∃ o, (run usersOnly.database .standard p prepared.memos ()).result = .ok o ∧
        o.degraded = [1]) ∧
      usersOnly.Cuts p [1] noArticles := by
  have planned : ∃ p prepared, Plan.build Schema.blog.catalog "user" true Plan.titles = .ok p ∧
      PreparedPlan.ofPlan p .standard = .ok prepared ∧
      (∃ o, (run usersOnly.database .standard p prepared.memos ()).result = .ok o ∧
        o.degraded = [1]) ∧
      p.queries.length = 2 ∧ (p.data.head?.any (·.plural)) = true ∧
      (∀ batch statement, Sql.Statement.anew p 0 (p.rootQuery 0) batch = .ok statement →
        statement.params = []) ∧
      ∀ batch statement, Sql.Statement.anew p 1 (p.rootQuery 1) batch = .ok statement →
        statement.params ≠ [] := by
    refine ⟨_, _, rfl, rfl, ⟨_, rfl, rfl⟩, rfl, rfl, ?_, ?_⟩
    · intro batch statement rendered
      cases rendered
      rfl
    · intro batch statement rendered
      match batch with
      | [] => cases rendered
      | [one] =>
          cases rendered
          exact List.cons_ne_nil _ _
      | one :: two :: rest =>
          cases rendered
          exact List.cons_ne_nil _ _
  obtain ⟨p, prepared, built, fresh, done, count, plural, bare, bound⟩ := planned
  refine ⟨p, prepared, built, fresh, done, by decide, ?_, ?_⟩
  · rintro ⟨k, depth, single, statement⟩ ⟨q, batch, query, deep, alone, rendered⟩ outside
    have inside := (List.getElem?_eq_some_iff.mp query).1
    match k with
    | 0 =>
        have single : single = false := by simpa [isSingle, plural] using alone
        have found := bare batch statement rendered
        refine ⟨[[("0.id", .int 1), ("0.name", .text "Ann")]], ?_, ?_⟩
        · simp [Answers.answer, single, usersOnly, found]
        · simp [Answers.answer, single, noArticles, found]
    | 1 => exact absurd (List.mem_singleton_self 1) outside
    | k + 2 =>
        simp only at inside
        omega
  · rintro ⟨k, depth, single, statement⟩ ⟨q, batch, query, deep, alone, rendered⟩ inside
    cases List.mem_singleton.mp inside
    have single : single = false := by simpa [isSingle, plural] using alone
    have found := bound batch statement rendered
    refine ⟨⟨.database "refused", ?_⟩, ?_⟩
    · simp [Answers.answer, single, usersOnly, found]
    · simp [Answers.answer, single, noArticles, found]

/-- The user whose articles are refused has none. -/
theorem degraded_as_empty_titles : ∃ p prepared o,
    Plan.build Schema.blog.catalog "user" true Plan.titles = .ok p ∧
      PreparedPlan.ofPlan p .standard = .ok prepared ∧
      (run usersOnly.database .standard p prepared.memos ()).result = .ok o ∧
      o.degraded = [1] ∧
      o.degraded =
        ((usersOnly.whole .degrade p prepared.memos).sent.map (·.query)).filter ([1].contains ·) ∧
      (prepared.execute noArticles.database ()).1.result =
        (prepared.execute usersOnly.database ()).1.result := by
  obtain ⟨p, prepared, built, fresh, ⟨o, done, refused⟩, cuts⟩ := usersOnly_cuts
  obtain ⟨_, _, _, tree, degraded, _⟩ := degraded_as_empty fresh rfl cuts
  exact ⟨p, prepared, o, built, fresh, done, refused, degraded o done, tree⟩

end Execution
end NestedQuery
