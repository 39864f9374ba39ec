/- Running a prepared plan again after its root was changed: what is accepted, what is sent and what comes
back are those of a plan that is made anew of the changed request. -/
import Mathlib.Data.Option.Basic
import NestedQuery.Proofs.Failure
import NestedQuery.Proofs.Likeness
import NestedQuery.Proofs.RootQuery

namespace NestedQuery

open Execution
open Result (Like)
open Value (AllAlike)

/-- What is answered depends on nothing but the text of a statement and its parameters, up to
equality. -/
def Answers.Respects (a : Answers) : Prop :=
  ∀ s t : Sql.Statement, s.text = t.text → AllAlike s.params t.params →
    a.fetch s = a.fetch t ∧ a.fetchOne s = a.fetchOne t

/-- The same job of statements that are alike. -/
structure Execution.Job.Alike (x y : Job) : Prop where
  query : x.query = y.query
  depth : x.depth = y.depth
  single : x.single = y.single
  statement : x.statement.Alike y.statement

namespace Answers

variable {a : Answers}

theorem Respects.answer_eq (respects : a.Respects) {x y : Job} (alike : x.Alike y) :
    a.answer x = a.answer y := by
  obtain ⟨fetch, fetchOne⟩ := respects _ _ alike.statement.text_eq alike.statement.params
  rw [answer, answer, alike.single, fetch, fetchOne]

/-- Jobs that are alike are settled to the same. -/
theorem Respects.settle_eq (respects : a.Respects) {jobs others : List Job}
    (alike : List.Forall₂ Job.Alike jobs others) (policy : FailurePolicy) (o : Outcome) :
    settle policy o (a.answered jobs) = settle policy o (a.answered others) := by
  induction alike generalizing o with
  | nil => rfl
  | @cons x y _ _ first _ ih =>
      simp only [answered, List.map_cons, respects.answer_eq first]
      cases a.answer y with
      | ok rows =>
          simp only [settle, first.query]
          exact ih _
      | error failure =>
          simp only [settle, first.query, first.statement.text_eq]
          split
          · rfl
          · exact ih _

end Answers

namespace Plan

variable {s : Schema} {p q : Plan} {plural : Bool} {request : Request} {queries others : Nat → Query}
  {rows : List (List Row)} {memos memos' : List Sql.Memo}

theorem setBatch_alike (m : Sql.Memo) (batch : List Value) :
    AllAlike (m.setBatch batch).batch batch := by
  unfold Sql.Memo.setBatch
  split
  · next same => exact (Value.allAlike_of_beq same).symm
  · exact Value.allAlike_refl batch

/-- Memos of the two plans are bound alike, to batches that are alike. -/
theorem SameBelow.bound_alike (same : p.SameBelow q) (rows : List (List Row)) (query : QueryNode)
    (memo memo' : Sql.Memo) :
    Like (Option.Rel fun given given' => query.parent.isSome = true → AllAlike given.batch given'.batch)
      (bound p rows query memo) (bound q rows query memo') := by
  rw [same.sameFrames.bound_eq]
  unfold bound
  split
  · next first => exact .ok (.some fun below => by rw [first] at below; cases below)
  · refine Like.bind_same fun label => ?_
    simp only
    split
    · exact .ok .none
    · exact .ok (.some fun _ => (setBatch_alike memo _).trans (setBatch_alike memo' _).symm)

/-- The statements that two memos give after they were bound alike. -/
theorem SameBelow.statement_alike (same : p.SameBelow q) (valid : p.Over s plural request)
    (sound : s.Sound) {k : Nat} {query : QueryNode} (found : p.queries[k]? = some query)
    {given given' : Sql.Memo} (coherent : given.Coherent p k) (coherent' : given'.Coherent q k)
    (alike : given.rootQuery.Alike given'.rootQuery)
    (batches : query.parent.isSome = true → AllAlike given.batch given'.batch) :
    Like Sql.Statement.Alike given.statement.1 given'.statement.1 := by
  obtain ⟨shape, shaped, fits⟩ := Sql.Shape.ofPlan_fits valid sound found
  rw [coherent.statement.1, coherent'.statement.1,
    Sql.Statement.anew_sameBelow valid sound same shaped]
  refine Sql.Statement.anew_alike shaped alike fun listed => ?_
  have below : k ≠ 0 := fits.linkedKey_iff.mp listed
  obtain ⟨_, _, _, _, _, _, _, _, parent, _⟩ := valid.query_parent sound found below
  exact batches (by rw [parent]; rfl)

/-- Two preparations that send the same jobs, leave out the same statements and fail alike. -/
structure PreparedAlike (one other : Preparation) : Prop where
  failure : one.failure = other.failure
  skipped : one.skipped = other.skipped
  jobs : List.Forall₂ Job.Alike one.jobs other.jobs
  memos : one.memos.length = other.memos.length

theorem SameBelow.prepare_alike (same : p.SameBelow q) (valid : p.Over s plural request)
    (sound : s.Sound) (alike : ∀ k, (queries k).Alike (others k)) (held : p.Holds queries memos)
    (held' : q.Holds others memos') (count : memos.length = memos'.length) (level : List Nat) :
    PreparedAlike (prepare p rows memos level) (prepare q rows memos' level) := by
  induction level generalizing memos memos' with
  | nil => exact ⟨rfl, rfl, .nil, count⟩
  | cons k rest ih =>
      cases found : p.queries[k]? with
      | none =>
          simp only [prepare, same.queries, found]
          exact ⟨rfl, rfl, .nil, count⟩
      | some query =>
          cases kept : memos[k]? with
          | none =>
              have kept' : memos'[k]? = none := by
                rw [List.getElem?_eq_none_iff] at kept ⊢
                rwa [← count]
              simp only [prepare, same.queries, found, kept, kept']
              exact ⟨rfl, rfl, .nil, count⟩
          | some memo =>
              have inside := (List.getElem?_eq_some_iff.mp kept).1
              obtain ⟨memo', kept'⟩ : ∃ memo', memos'[k]? = some memo' :=
                ⟨_, List.getElem?_eq_getElem (count ▸ inside)⟩
              obtain ⟨coherent, own⟩ := held k memo kept
              obtain ⟨coherent', own'⟩ := held' k memo' kept'
              -- a memo that was bound to an equal batch before keeps that one, so the batches are only alike
              have bounds := same.bound_alike rows query memo memo'
              simp only [prepare, same.queries, found, kept, kept']
              generalize binds : bound p rows query memo = batch at bounds
              generalize binds' : bound q rows query memo' = batch' at bounds
              cases bounds with
              | error error => exact ⟨rfl, rfl, .nil, count⟩
              | ok related =>
                  cases related with
                  | none =>
                      have after := ih held held' count
                      exact ⟨after.failure, congrArg (k :: ·) after.skipped, after.jobs, after.memos⟩
                  | @some given given' batches =>
                      obtain ⟨bound, left⟩ := Holds.bound binds coherent
                      obtain ⟨bound', left'⟩ := Holds.bound binds' coherent'
                      have queriesAlike : given.rootQuery.Alike given'.rootQuery := by
                        rw [left, left', own, own']
                        exact alike k
                      have statements :=
                        same.statement_alike valid sound found bound bound' queriesAlike batches
                      obtain ⟨_, after, _, still⟩ := bound.statement
                      obtain ⟨_, after', _, still'⟩ := bound'.statement
                      have onward : p.Holds queries (memos.set k given.statement.2) :=
                        held.set still (after.trans (left.trans own))
                      have onward' : q.Holds others (memos'.set k given'.statement.2) :=
                        held'.set still' (after'.trans (left'.trans own'))
                      have length : (memos.set k given.statement.2).length =
                          (memos'.set k given'.statement.2).length := by
                        rw [List.length_set, List.length_set, count]
                      simp only
                      generalize given.statement.1 = statement at statements
                      generalize given'.statement.1 = statement' at statements
                      cases statements with
                      | error error => exact ⟨rfl, rfl, .nil, length⟩
                      | ok likewise =>
                          have later := ih onward onward' length
                          refine ⟨later.failure, later.skipped, .cons ?_ later.jobs, later.memos⟩
                          exact ⟨rfl, rfl, (same.sameFrames.isSingle_eq query).symm, likewise⟩

/-- Runs over the two plans send jobs that are alike one by one, and come to the same result. -/
theorem SameBelow.course_alike (same : p.SameBelow q) (valid : p.Over s plural request)
    (sound : s.Sound) (alike : ∀ k, (queries k).Alike (others k)) {a : Answers}
    (respects : a.Respects) (policy : FailurePolicy) (levels : List (List Nat))
    (held : p.Holds queries memos) (held' : q.Holds others memos')
    (count : memos.length = memos'.length) (o : Outcome) :
    let one := a.course policy p levels memos o
    let other := a.course policy q levels memos' o
    List.Forall₂ Job.Alike one.sent other.sent ∧ one.result = other.result := by
  induction levels generalizing memos memos' o with
  | nil => exact ⟨.nil, rfl⟩
  | cons level rest ih =>
      -- what the memos keep may differ; all that counts is for which queries they are held
      have ready : PreparedAlike (prepare p o.rows memos level) (prepare q o.rows memos' level) :=
        same.prepare_alike valid sound alike held held' count level
      have after := (held.prepare o.rows level).1
      have after' := (held'.prepare o.rows level).1
      simp only [Answers.course, ← ready.failure, ← ready.skipped,
        ← respects.settle_eq ready.jobs policy]
      cases (prepare p o.rows memos level).failure with
      | some error => exact ⟨.nil, rfl⟩
      | none =>
          cases settle policy { o with skipped := o.skipped ++ (prepare p o.rows memos level).skipped }
              (a.answered (prepare p o.rows memos level).jobs) with
          | error error => exact ⟨ready.jobs, rfl⟩
          | ok next =>
              obtain ⟨sent, result⟩ := ih after after' ready.memos next
              exact ⟨List.rel_append ready.jobs sent, result⟩

/-- The queries of the statements once the root is given another one. -/
def queriesWith (p : Plan) (root : Query) (k : Nat) : Query :=
  if k = 0 then root else p.rootQuery k

theorem holds_fresh (valid : p.Over s plural request) (sound : s.Sound) {options : ExecutionOptions}
    {prepared : PreparedPlan} (made : PreparedPlan.ofPlan p options = .ok prepared) :
    p.Holds (p.queriesWith request.query) prepared.memos := by
  obtain ⟨root, top⟩ := valid.top
  obtain ⟨_, _, _, held⟩ := holds_ofPlan made
  intro k m kept
  obtain ⟨coherent, own⟩ := held k m kept
  refine ⟨coherent, own.trans ?_⟩
  unfold queriesWith
  split
  · next first =>
      rw [first, rootQuery, valid.queryRoot_first sound top]
      exact congrArg Request.query top.request_eq
  · rfl

/-- Only the first memo speaks for the query of the root. -/
theorem Holds.replaceRoot {root : Query} {m next : Sql.Memo} {rest : List Sql.Memo}
    (held : p.Holds (p.queriesWith root) (m :: rest)) (coherent : next.Coherent p 0) :
    p.Holds (p.queriesWith next.rootQuery) (next :: rest) := by
  intro k memo kept
  cases k with
  | zero =>
      cases kept
      exact ⟨coherent, rfl⟩
  | succ k => exact held (k + 1) memo kept

theorem SameBelow.queriesWith_alike (same : p.SameBelow q) (valid : p.Over s plural request)
    (sound : s.Sound) {root other : Query} (alike : root.Alike other) (k : Nat) :
    (p.queriesWith root k).Alike (q.queriesWith other k) := by
  unfold queriesWith
  split
  · exact alike
  · next below =>
      refine .inl ?_
      rw [rootQuery, rootQuery, queryRoot, queryRoot, query, query, same.queries]
      cases found : p.queries[k]? with
      | none => rfl
      | some query =>
          obtain ⟨_, n, m, _, _, _, child, root, _⟩ := valid.query_parent sound found below
          have notTop : query.root ≠ 0 := by
            have after := child.after
            omega
          simp only [Result.ok_bind, dataNode, same.below _ notTop]

/-- Whole runs over the two plans. -/
theorem SameBelow.whole_alike (same : p.SameBelow q) (valid : p.Over s plural request)
    (sound : s.Sound) (alike : ∀ k, (queries k).Alike (others k)) {a : Answers}
    (respects : a.Respects) (policy : FailurePolicy) (held : p.Holds queries memos)
    (held' : q.Holds others memos') (count : memos.length = p.queries.length)
    (count' : memos'.length = q.queries.length) :
    List.Forall₂ Job.Alike (a.whole policy p memos).sent (a.whole policy q memos').sent ∧
      (a.whole policy p memos).result = (a.whole policy q memos').result := by
  have together : memos.length = memos'.length := by rw [count, count', same.queries]
  have start : Outcome.ofPlan q = .ofPlan p := by rw [Outcome.ofPlan, Outcome.ofPlan, same.queries]
  rw [a.whole_eq policy count, a.whole_eq policy count', same.sameFrames.levels_eq, start]
  exact same.course_alike valid sound alike respects policy p.levels held held' together _

/-- The first statement takes every query that fits the root of the plan, and no other. -/
theorem Statements.setQuery_first (held : p.Statements memos) (valid : p.Over s plural request)
    (sound : s.Sound) {m : Sql.Memo} (kept : memos[0]? = some m) {root : DataNode}
    (top : p.Top plural request root) (query : Query) :
    Like (fun _ next => query.Alike next.rootQuery)
      (query.check root.format root.plural root.path) (m.setQuery query) := by
  obtain ⟨first, found⟩ := held.query kept
  obtain ⟨fresh, calls, made, rfl⟩ := held.made kept
  obtain ⟨samePlan, sameQuery, _⟩ := (Sql.Memo.coherent_ofPlan made).after calls
  have alone : (fresh.after calls).lateral = false := by
    rw [Sql.Memo.after_lateral]
    obtain ⟨shape, shaped, made⟩ := Result.bind_eq_ok.mp made
    cases made
    obtain ⟨again, shaped', fits⟩ := Sql.Shape.ofPlan_fits valid sound found
    cases shaped.symm.trans shaped'
    rcases fits.hung with ⟨_, _, _, lateral⟩ | ⟨below, _⟩
    · rw [Sql.Shape.isLateral, lateral]
      rfl
    · exact absurd rfl below
  rw [Sql.Memo.setQuery, samePlan, sameQuery, valid.queryRoot_first sound top, Result.ok_bind, alone]
  cases query.check root.format root.plural root.path with
  | error error => exact .error error
  | ok _ =>
      refine .ok ?_
      split
      · next same => exact .inr same
      · exact .inl rfl

end Plan

/-- The statements are alike and met the same. -/
structure Sent.Alike (x y : Sent) : Prop where
  statement : x.statement.Alike y.statement
  failure : x.failure = y.failure

theorem Answers.Respects.note_alike {a : Answers} (respects : a.Respects) {x y : Job}
    (alike : x.Alike y) : (a.note x).Alike (a.note y) := by
  rw [note, note, sentOf, sentOf, respects.answer_eq alike]
  cases a.answer y <;> exact ⟨alike.statement, rfl⟩

namespace PreparedPlan

variable {s : Schema} {p q : Plan} {plural : Bool} {request : Request} {options : ExecutionOptions}
  {current : Query} {prepared start later : PreparedPlan}

/-- What becomes of a prepared plan that is executed and whose root is changed, and the query that its
root has come to. A change that is refused leaves both as they are. -/
inductive Modified (start : PreparedPlan) (first : Query) : PreparedPlan → Query → Prop
  | start : Modified start first start first
  | rootFilter {before after : PreparedPlan} {current : Query} {filter : Option Filter}
      (earlier : Modified start first before current)
      (accepted : before.modifyRootFilter filter = .ok after) :
      Modified start first after { current with filter := filter }
  | rootQuery {before after : PreparedPlan} {current query : Query}
      (earlier : Modified start first before current)
      (accepted : before.modifyRootQuery query = .ok after) : Modified start first after query
  | executed {before : PreparedPlan} {current : Query} (earlier : Modified start first before current)
      {σ : Type u} (db : Database σ) (state : σ) :
      Modified start first (before.execute db state).2 current

/-- Both send statements that are alike, in the same order, and come to the same result. -/
structure RunsLike (a : Answers) (one other : PreparedPlan) : Prop where
  sent : List.Forall₂ Sent.Alike (one.execute a.database.recorded ((), [])).1.database.2
    (other.execute a.database.recorded ((), [])).1.database.2
  result : (one.execute a.database ()).1.result = (other.execute a.database ()).1.result

/-- A prepared plan runs as the given plan does when it is prepared anew. -/
def RunsAs (options : ExecutionOptions) (prepared : PreparedPlan) (plan : Plan) : Prop :=
  ∃ anew, ofPlan plan options = .ok anew ∧ ∀ a : Answers, a.Respects → RunsLike a anew prepared

/-- A prepared plan holds its statements for a query of its root, up to equality. -/
structure Tracks (p : Plan) (options : ExecutionOptions) (current : Query) (prepared : PreparedPlan) :
    Prop where
  carries : Carries p prepared
  options_eq : prepared.options = options
  held : ∃ root, current.Alike root ∧ p.Holds (p.queriesWith root) prepared.memos

theorem tracks_ofPlan (valid : p.Over s plural request) (sound : s.Sound)
    (fresh : ofPlan p options = .ok start) : Tracks p options request.query start := by
  obtain ⟨again, made, carries⟩ := carries_ofPlan valid sound options
  cases fresh.symm.trans made
  obtain ⟨_, sameOptions, _⟩ := Plan.holds_ofPlan fresh
  exact ⟨carries, sameOptions, request.query, .inl rfl, Plan.holds_fresh valid sound fresh⟩

namespace Tracks

variable (tracks : Tracks p options current prepared) (valid : p.Over s plural request)
include tracks valid

theorem memos_cons : ∃ m rest, prepared.memos = m :: rest := by
  obtain ⟨query, found⟩ := valid.first_query
  obtain ⟨m, kept⟩ := tracks.carries.statements.kept found
  cases listed : prepared.memos with
  | nil =>
      rw [listed] at kept
      cases kept
  | cons m rest => exact ⟨m, rest, rfl⟩

/-- Changing the filter is changing the query that the root has come to. -/
theorem modifyRootFilter_eq (filter : Option Filter) :
    prepared.modifyRootFilter filter = prepared.modifyRootQuery { current with filter := filter } := by
  obtain ⟨m, rest, listed⟩ := tracks.memos_cons valid
  obtain ⟨root, alike, held⟩ := tracks.held
  rw [listed] at held
  have own : m.rootQuery = root := (held 0 m rfl).2
  obtain ⟨sort, page, size, _⟩ := alike.parts
  rw [PreparedPlan.modifyRootFilter, PreparedPlan.modifyRootQuery, modifyRoot, modifyRoot, listed]
  simp only [Sql.Memo.setFilter, own, sort, page, size]

variable (sound : s.Sound)
include sound

/-- The root is given any query that fits it. -/
theorem modifyRootQuery {root : DataNode} (top : p.Top plural request root) (query : Query) :
    Like (fun _ next => Tracks p options query next)
      (query.check root.format root.plural root.path) (prepared.modifyRootQuery query) := by
  obtain ⟨m, rest, listed⟩ := tracks.memos_cons valid
  obtain ⟨before, _, held⟩ := tracks.held
  rw [listed] at held
  have kept : prepared.memos[0]? = some m := by rw [listed]; rfl
  have change := tracks.carries.statements.setQuery_first valid sound kept top query
  have modified : prepared.modifyRootQuery query =
      (m.setQuery query).map fun next => { prepared with memos := next :: rest } := by
    rw [PreparedPlan.modifyRootQuery, modifyRoot, listed]
    rfl
  generalize query.check root.format root.plural root.path = checked at change
  generalize accepted : m.setQuery query = changed at change
  rw [modified, accepted]
  cases change with
  | error error => exact .error error
  | @ok _ next alike =>
      have reached : PreparedPlan.Reaches.{0} prepared { prepared with memos := next :: rest } :=
        .rootQuery .start (modified.trans (congrArg _ accepted))
      exact .ok ⟨tracks.carries.reaches valid sound reached, tracks.options_eq, next.rootQuery,
        alike, held.replaceRoot ((held 0 m rfl).1.setQuery accepted)⟩

theorem execute {σ : Type u} (db : Database σ) (state : σ) :
    Tracks p options current (prepared.execute db state).2 := by
  obtain ⟨root, alike, held⟩ := tracks.held
  refine ⟨tracks.carries.reaches valid sound (.executed .start db state), tracks.options_eq, root,
    alike, ?_⟩
  rw [PreparedPlan.execute, tracks.carries.plan_eq]
  exact held.run db prepared.options state

/-- A query that was accepted has been checked. -/
theorem of_accepted {query : Query} (accepted : prepared.modifyRootQuery query = .ok later) :
    Tracks p options query later := by
  obtain ⟨root, top⟩ := valid.top
  have change := tracks.modifyRootQuery valid sound top query
  rw [accepted] at change
  generalize query.check root.format root.plural root.path = checked at change
  cases change with
  | ok still => exact still

theorem modified {query : Query} (history : Modified.{u} prepared current later query) :
    Tracks p options query later := by
  induction history with
  | start => exact tracks
  | rootFilter earlier accepted ih =>
      rw [ih.modifyRootFilter_eq valid] at accepted
      exact ih.of_accepted valid sound accepted
  | rootQuery earlier accepted ih => exact ih.of_accepted valid sound accepted
  | executed earlier db state ih => exact ih.execute valid sound db state

end Tracks

/-- A plan that is made anew for the query that the root has come to runs alike. -/
theorem Tracks.runsAs (tracks : Tracks p options request.query prepared) (sound : s.Sound)
    (valid : q.Over s plural request) (same : q.SameBelow p) : RunsAs options prepared q := by
  obtain ⟨⟨samePlan, statements⟩, sameOptions, root, alike, held⟩ := tracks
  obtain ⟨anew, made, carries⟩ := carries_ofPlan valid sound options
  obtain ⟨ownPlan, ownOptions, count, _⟩ := Plan.holds_ofPlan made
  refine ⟨anew, made, fun a respects => ?_⟩
  obtain ⟨sent, result⟩ := same.whole_alike valid sound (same.queriesWith_alike valid sound alike)
    respects options.failurePolicy (Plan.holds_fresh valid sound made) held count statements.count
  constructor
  · simp only [PreparedPlan.execute, ownPlan, ownOptions, samePlan, sameOptions, a.run_sent]
    rw [List.forall₂_map_left_iff, List.forall₂_map_right_iff]
    exact sent.imp fun _ _ => respects.note_alike
  · simp only [PreparedPlan.execute, ownPlan, ownOptions, samePlan, sameOptions,
      (a.run_whole options _ _).2, result, same.sameFrames.fold_eq]

/-- A changed query is accepted if the request with that query can be planned, and refused for the same
reason otherwise; what was accepted runs as the plan of that request. -/
theorem Tracks.modifyRootQuery_like {s : Schema} (declared : s.Declared) {format : String}
    (built : Plan.build s.catalog format plural request = .ok p)
    (tracks : Tracks p options current prepared) (query : Query) :
    Like (RunsAs options) (prepared.modifyRootQuery query)
      (Plan.build s.catalog format plural (request.withQuery query)) := by
  have valid := Plan.build_over declared built
  obtain ⟨root, top, again⟩ := Plan.build_withQuery built query
  have change := tracks.modifyRootQuery valid declared.sound top query
  generalize query.check root.format root.plural root.path = checked at change again
  generalize prepared.modifyRootQuery query = changed at change
  rw [again]
  cases change with
  | error error => exact .error error
  | ok still =>
      have anew := Plan.build_over declared again
      have same := (Plan.sameBelow_withRootQuery p query).symm
      exact .ok (still.runsAs declared.sound anew same)

/-- However a prepared plan was executed and changed before, its root takes exactly those queries with
which the request can be planned, and refuses others for the same reason. After a change that is accepted
it runs as that plan does when it is prepared anew: over every database that answers by the text and the
parameters alone, statements of the same text with equal parameters are sent in the same order, and the
tree or the error is the same. A filter is changed within the query that the root has come to. -/
theorem modified_as_planned_anew {s : Schema} (declared : s.Declared) {format : String}
    (built : Plan.build s.catalog format plural request = .ok p)
    (fresh : ofPlan p options = .ok start)
    (history : Modified.{u} start request.query later current) :
    (∀ query, Like (RunsAs options) (later.modifyRootQuery query)
        (Plan.build s.catalog format plural (request.withQuery query))) ∧
      ∀ filter, Like (RunsAs options) (later.modifyRootFilter filter)
        (Plan.build s.catalog format plural
          (request.withQuery { current with filter := filter })) := by
  have valid := Plan.build_over declared built
  have tracks : Tracks p options current later :=
    (tracks_ofPlan valid declared.sound fresh).modified valid declared.sound history
  refine ⟨tracks.modifyRootQuery_like declared built, fun filter => ?_⟩
  rw [tracks.modifyRootFilter_eq valid]
  exact tracks.modifyRootQuery_like declared built _

theorem usersOnly_respects : usersOnly.Respects := by
  intro s t _ params
  refine ⟨?_, rfl⟩
  simp only [usersOnly, params.isEmpty_eq]

/-- The first users of a name, in order. -/
def named : Query := ⟨some (.compare .eq "name" (.text "Ann")), [⟨"name", .asc⟩], none, some 10⟩

/-- Without the filter, which was not there at first, the users are still sorted and paged. A query for
a field that they do not have is refused as if it had been there from the start. -/
theorem modified_as_planned_anew_titles : ∃ p start later next replanned anew error,
    Plan.build Schema.blog.catalog "user" true Plan.titles = .ok p ∧
      ofPlan p .standard = .ok start ∧
      Modified.{0} start Plan.titles.query later named ∧
      later.modifyRootFilter none = .ok next ∧
      Plan.build Schema.blog.catalog "user" true
        (Plan.titles.withQuery { named with filter := none }) = .ok replanned ∧
      ofPlan replanned .standard = .ok anew ∧ RunsLike usersOnly anew next ∧
      later.modifyRootQuery { named with filter := some (.isNull "age") } = .error error ∧
      Plan.build Schema.blog.catalog "user" true
        (Plan.titles.withQuery { named with filter := some (.isNull "age") }) = .error error := by
  have planned : ∃ p start changed replanned error,
      Plan.build Schema.blog.catalog "user" true Plan.titles = .ok p ∧
        ofPlan p .standard = .ok start ∧
        (start.execute usersOnly.database ()).2.modifyRootQuery named = .ok changed ∧
        Plan.build Schema.blog.catalog "user" true
          (Plan.titles.withQuery { named with filter := none }) = .ok replanned ∧
        Plan.build Schema.blog.catalog "user" true
          (Plan.titles.withQuery { named with filter := some (.isNull "age") }) = .error error :=
    ⟨_, _, _, _, _, rfl, rfl, rfl, rfl, rfl⟩
  obtain ⟨p, start, changed, replanned, error, built, fresh, accepted, again, refused⟩ := planned
  have history : Modified.{0} start Plan.titles.query
      (changed.execute usersOnly.database ()).2 named :=
    .executed (.rootQuery (.executed .start _ _) accepted) _ _
  obtain ⟨queries, filters⟩ := modified_as_planned_anew Schema.blog_declared built fresh history
  have unfiltered := filters none
  have aged := queries { named with filter := some (.isNull "age") }
  rw [again] at unfiltered
  rw [refused] at aged
  generalize modified : (changed.execute usersOnly.database ()).2.modifyRootFilter none = result
    at unfiltered
  generalize rejected : (changed.execute usersOnly.database ()).2.modifyRootQuery
    { named with filter := some (.isNull "age") } = failed at aged
  cases unfiltered with
  | @ok next _ runs =>
      obtain ⟨anew, made, alike⟩ := runs
      cases aged with
      | error error =>
          exact ⟨p, start, _, next, replanned, anew, error, built, fresh, history, modified, again,
            made, alike usersOnly usersOnly_respects, rejected, refused⟩

end PreparedPlan
end NestedQuery
