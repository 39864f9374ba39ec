/- What is explained is what is sent: after any executions and changes of a prepared plan, each statement
is shown as it was sent last, the first one as it will be sent next. -/
import NestedQuery.Proofs.Failure
import NestedQuery.Proofs.Held
import NestedQuery.Proofs.Safety

namespace NestedQuery

open Execution

namespace Execution

/-- The last of the jobs for a statement. -/
def lastSent (sent : List Job) (k : Nat) : Option Job := sent.reverse.find? (·.query == k)

theorem lastSent_concat_self (sent : List Job) (job : Job) :
    lastSent (sent ++ [job]) job.query = some job := by
  simp [lastSent]

theorem lastSent_concat_of_ne (sent : List Job) {job : Job} {k : Nat} (other : job.query ≠ k) :
    lastSent (sent ++ [job]) k = lastSent sent k := by
  simp [lastSent, other]

end Execution

namespace Plan

variable {s : Schema} {p : Plan} {plural : Bool} {request : Request} {memos : List Sql.Memo}
  {sent : List Job} {rows : List (List Row)}

/-- A statement that was never sent is bound to nothing. Another one is bound to the values with which it
was sent last. -/
def Tells (p : Plan) (k : Nat) (m : Sql.Memo) : Option Job → Prop
  | none => m.batch = []
  | some job => m.batch ≠ [] ∧ Sql.Statement.anew p k (p.rootQuery k) m.batch = .ok job.statement

/-- The statements below the first one have the queries that they are planned with, and tell what was
sent. -/
def Told (p : Plan) (memos : List Sql.Memo) (sent : List Job) : Prop :=
  ∀ (k : Nat) (m : Sql.Memo), k ≠ 0 → memos[k]? = some m →
    m.Coherent p k ∧ m.rootQuery = p.rootQuery k ∧ p.Tells k m (lastSent sent k)

theorem Told.set (told : p.Told memos sent) (job : Job) {next : Sql.Memo}
    (tells : job.query ≠ 0 → next.Coherent p job.query ∧ next.rootQuery = p.rootQuery job.query ∧
      p.Tells job.query next (some job)) :
    p.Told (memos.set job.query next) (sent ++ [job]) := by
  intro k m below kept
  by_cases own : job.query = k
  · subst own
    have inside : job.query < memos.length := by
      have inside := (List.getElem?_eq_some_iff.mp kept).1
      rwa [List.length_set] at inside
    rw [List.getElem?_set_self inside] at kept
    cases kept
    rw [lastSent_concat_self]
    exact tells below
  · rw [List.getElem?_set_ne own] at kept
    rw [lastSent_concat_of_ne sent own]
    exact told k m below kept

/-- A statement below the first one is never bound to nothing. -/
theorem nonempty_of_bound (valid : p.Over s plural request) (sound : s.Sound) {k : Nat} {q : QueryNode}
    (query : p.queries[k]? = some q) (below : k ≠ 0) {memo given : Sql.Memo}
    (binds : bound p rows q memo = .ok (some given)) : given.batch ≠ [] := by
  rcases bound_cases valid sound query rows memo with unbound | ⟨calls, called, batch⟩
  · cases binds.symm.trans unbound
  · cases binds.symm.trans called
    exact batch below

/-- Preparing a level sends what its statements are bound to from then on. -/
theorem Told.prepares (valid : p.Over s plural request) (sound : s.Sound) {level : List Nat}
    {ready : Preparation} (prepared : Prepares p rows memos level ready) (told : p.Told memos sent) :
    p.Told ready.memos (sent ++ ready.jobs) := by
  induction prepared generalizing sent with
  | nil => rwa [List.append_nil]
  | skipped query kept unbound others ih => exact ih told
  | @sent memos id rest q memo given statement later query kept binds rendered others ih =>
      have now : p.Told (memos.set id given.statement.2)
          (sent ++ [⟨id, q.depth, isSingle p q, statement⟩]) := by
        apply told.set ⟨id, q.depth, isSingle p q, statement⟩
        intro below
        obtain ⟨coherent, own, _⟩ := told id memo below kept
        obtain ⟨bound, left⟩ := Holds.bound binds coherent
        obtain ⟨anew, query', batch, after⟩ := bound.statement
        rw [rendered, left, own] at anew
        refine ⟨after, query'.trans (left.trans own), ?_⟩
        rw [Tells, batch]
        exact ⟨nonempty_of_bound valid sound query below binds, anew.symm⟩
      have later := ih now
      rwa [List.append_assoc] at later

section Running

variable {σ : Type u} (db : Database σ)

/-- A run over levels sends what its statements are bound to from then on, however it ends. -/
theorem Told.runLevels (valid : p.Over s plural request) (sound : s.Sound)
    (options : ExecutionOptions) {levels : List (List Nat)}
    (known : ∀ level ∈ levels, ∀ k ∈ level, ∃ q, p.queries[k]? = some q) (state : σ)
    (held : p.Statements memos) (told : p.Told memos sent) (o : Outcome) :
    p.Told (runLevels db options p levels state memos o).memos
      (sent ++ (Execution.calls db options p levels state memos o).map (·.1)) := by
  induction levels generalizing state memos sent o with
  | nil =>
      rw [Execution.calls, List.map_nil, List.append_nil]
      exact told
  | cons level rest ih =>
      obtain ⟨here, later⟩ := List.forall_mem_cons.mp known
      have ready : p.Sendable (prepare p o.rows memos level) := prepare_sendable valid sound held here
      have now := told.prepares valid sound (Execution.prepares ready.failure)
      have jobs := sendAll_jobs db (prepare p o.rows memos level).jobs state
      simp only [Execution.runLevels, Execution.calls, ready.failure]
      cases settle options.failurePolicy
          { o with skipped := o.skipped ++ (prepare p o.rows memos level).skipped }
          (sendAll db (prepare p o.rows memos level).jobs state).1 with
      | error error =>
          simp only [jobs]
          exact now
      | ok next =>
          simp only [List.map_append, jobs, ← List.append_assoc]
          exact ih later _ ready.memos now next

/-- The first statement stands alone on the first level. -/
theorem Over.levels_cons (valid : p.Over s plural request) (sound : s.Sound) :
    ∃ rest, p.levels = [0] :: rest := by
  obtain ⟨first, query⟩ := valid.first_query
  have only : ∀ k, k ∈ (p.levels[0]?).getD [] ↔ k = 0 := by
    intro k
    rw [valid.mem_level]
    constructor
    · rintro ⟨q, found, top⟩
      by_contra below
      obtain ⟨_, _, _, _, _, _, _, _, _, _, depth⟩ := valid.query_parent sound found below
      omega
    · rintro rfl
      exact ⟨first, query, (valid.query_first sound query).2.2⟩
  have distinct := valid.nodup_level 0
  cases levels : p.levels with
  | nil => simp [levels] at only
  | cons level rest =>
      simp only [levels, List.getElem?_cons_zero, Option.getD_some] at only distinct
      refine ⟨rest, ?_⟩
      match level, only, distinct with
      | [], only, _ => simp at only
      | [k], only, _ => rw [(only k).mp (List.mem_singleton_self k)]
      | k :: l :: others, only, distinct =>
          have same : k = l := by
            rw [(only k).mp (by simp), (only l).mp (by simp)]
          exact absurd same (List.ne_of_not_mem_cons (List.nodup_cons.mp distinct).1)

/-- The first thing that is sent is the statement of the root. -/
theorem calls_first (valid : p.Over s plural request) (sound : s.Sound) (options : ExecutionOptions)
    (held : p.Statements memos) {root : Sql.Memo} (kept : memos[0]? = some root) (state : σ) :
    ∃ job rest, (Execution.calls db options p p.levels state memos (.ofPlan p)).map (·.1) = job :: rest ∧
      job.query = 0 ∧ root.statement.1 = .ok job.statement := by
  obtain ⟨levels, first⟩ := valid.levels_cons sound
  obtain ⟨q, query⟩ := held.query kept
  obtain ⟨st, rendered⟩ := held.statement_succeeds valid sound kept [] fun below => absurd rfl below
  have binds : bound p (Outcome.ofPlan p).rows q root = .ok (some root) := by
    rw [bound, (valid.query_first sound query).2.1]
  have ready : prepare p (Outcome.ofPlan p).rows memos [0] =
      ⟨memos.set 0 root.statement.2, [⟨0, q.depth, isSingle p q, st⟩], [], none⟩ := by
    simp only [prepare, query, kept, binds, show root.statement.1 = .ok st from rendered]
    rfl
  have jobs := sendAll_jobs db [⟨0, q.depth, isSingle p q, st⟩] state
  rw [first]
  simp only [Execution.calls, ready]
  cases settle options.failurePolicy { Outcome.ofPlan p with skipped := (Outcome.ofPlan p).skipped ++ [] }
      (sendAll db [⟨0, q.depth, isSingle p q, st⟩] state).1 with
  | error error =>
      simp only [jobs]
      exact ⟨_, [], rfl, rfl, rendered⟩
  | ok next =>
      simp only [List.map_append, jobs]
      exact ⟨_, _, rfl, rfl, rendered⟩

end Running

end Plan

/-- An entry has the text and the parameters of a statement. -/
def ExplainedStatement.Shows (entry : ExplainedStatement) (st : Sql.Statement) : Prop :=
  entry.text = st.text ∧ entry.params = st.params

namespace PreparedPlan

/-- What may be done with a prepared plan. -/
inductive Call : Type (u + 1) where
  | rootFilter (filter : Option Filter)
  | rootQuery (query : Query)
  | execute {σ : Type u} (db : Database σ) (state : σ)
  | explain

/-- The prepared plan after a call. What is refused changes nothing, and explaining only reads. -/
def step (p : PreparedPlan) : Call.{u} → PreparedPlan
  | .rootFilter filter => (p.modifyRootFilter filter).toOption.getD p
  | .rootQuery query => (p.modifyRootQuery query).toOption.getD p
  | .execute db state => (p.execute db state).2
  | .explain => p

def after (p : PreparedPlan) (calls : List Call.{u}) : PreparedPlan := calls.foldl step p

/-- The jobs that an execution sends, in their order. -/
def sends {σ : Type u} (p : PreparedPlan) (db : Database σ) (state : σ) : List Job :=
  if p.memos.length ≠ p.plan.queries.length then []
  else (Execution.calls db p.options p.plan p.plan.levels state p.memos (.ofPlan p.plan)).map (·.1)

def sentBy (p : PreparedPlan) : Call.{u} → List Job
  | .rootFilter _ => []
  | .rootQuery _ => []
  | .execute db state => p.sends db state
  | .explain => []

/-- The jobs that are sent during some calls, in their order. -/
def sentDuring (p : PreparedPlan) : List Call.{u} → List Job
  | [] => []
  | call :: rest => p.sentBy call ++ (p.step call).sentDuring rest

theorem after_append (p : PreparedPlan) (calls more : List Call.{u}) :
    p.after (calls ++ more) = (p.after calls).after more := List.foldl_append

theorem sentDuring_append (p : PreparedPlan) (calls more : List Call.{u}) :
    p.sentDuring (calls ++ more) = p.sentDuring calls ++ (p.after calls).sentDuring more := by
  induction calls generalizing p with
  | nil => rfl
  | cons call rest ih =>
      rw [List.cons_append, sentDuring, sentDuring, ih, List.append_assoc]
      rfl

/-- What a database gets that notes everything are these jobs. -/
theorem execute_noted {σ : Type u} (p : PreparedPlan) (db : Database σ) (state : σ) :
    (p.execute db.recorded (state, [])).1.database.2.map (·.statement) =
      (p.sends db state).map (·.statement) := by
  rw [execute, Execution.run, sends]
  split
  · rfl
  · have noted := (recorded_notes db).runLevels p.options p.plan p.plan.levels state [] p.memos
      (.ofPlan p.plan)
    simp only [noted, List.nil_append, List.map_map]
    apply List.map_congr_left
    rintro ⟨job, result⟩ _
    cases result with
    | ok rows => rfl
    | error failure => rfl

section Histories

variable {s : Schema} {p : Plan} {plural : Bool} {request : Request} {prepared start : PreparedPlan}
  {sent : List Job}

/-- A prepared plan of which the statements below the first one tell what was sent. -/
structure Recalls (p : Plan) (prepared : PreparedPlan) (sent : List Job) : Prop where
  carries : Carries p prepared
  told : p.Told prepared.memos sent

theorem recalls_ofPlan (valid : p.Over s plural request) (sound : s.Sound) {options : ExecutionOptions}
    (fresh : ofPlan p options = .ok start) : Recalls p start [] := by
  obtain ⟨again, made, carries⟩ := carries_ofPlan valid sound options
  cases fresh.symm.trans made
  refine ⟨carries, ?_⟩
  intro k m below kept
  obtain ⟨q, query⟩ := carries.statements.query kept
  obtain ⟨memos, made, _, each⟩ := Plan.ofPlan_memos valid sound options
  cases fresh.symm.trans made
  obtain ⟨again, found, new⟩ := each k q query
  cases kept.symm.trans found
  exact ⟨Sql.Memo.coherent_ofPlan new, Plan.rootQuery_ofPlan new, Sql.Memo.batch_ofPlan new⟩

/-- Changing the root leaves the statements below it. -/
theorem Recalls.modifyRoot {change : Sql.Memo → Result Sql.Memo} {next : PreparedPlan}
    (recalls : Recalls p prepared sent) (carries : Carries p next)
    (accepted : prepared.modifyRoot change = .ok next) : Recalls p next sent := by
  refine ⟨carries, ?_⟩
  unfold PreparedPlan.modifyRoot at accepted
  split at accepted
  · cases accepted
  · next root rest listed =>
      obtain ⟨changed, _, accepted⟩ := Result.bind_eq_ok.mp accepted
      cases accepted
      intro k m below kept
      apply recalls.told k m below
      rw [listed]
      cases k with
      | zero => exact absurd rfl below
      | succ k => exact kept

theorem Recalls.execute (recalls : Recalls p prepared sent) (valid : p.Over s plural request)
    (sound : s.Sound) {σ : Type u} (db : Database σ) (state : σ) :
    Recalls p (prepared.execute db state).2 (sent ++ prepared.sends db state) := by
  have still : PreparedPlan.Reaches prepared (prepared.execute db state).2 := .executed .start db state
  refine ⟨recalls.carries.reaches valid sound still, ?_⟩
  have complete : ¬prepared.memos.length ≠ p.queries.length :=
    not_not_intro recalls.carries.statements.count
  simp only [PreparedPlan.execute, sends, recalls.carries.plan_eq, Execution.run, if_neg complete]
  exact recalls.told.runLevels db valid sound prepared.options valid.known_levels state
    recalls.carries.statements _

theorem Recalls.step (recalls : Recalls p prepared sent) (valid : p.Over s plural request)
    (sound : s.Sound) (call : Call.{u}) :
    Recalls p (prepared.step call) (sent ++ prepared.sentBy call) := by
  -- a change that is refused leaves the prepared plan, and none sends anything
  have change : ∀ result : Result PreparedPlan, (∀ next, result = .ok next → Recalls p next sent) →
      Recalls p (result.toOption.getD prepared) (sent ++ []) := by
    intro result accepted
    rw [List.append_nil]
    cases result with
    | error error => exact recalls
    | ok next => exact accepted next rfl
  cases call with
  | rootFilter filter =>
      apply change
      intro next accepted
      have still : PreparedPlan.Reaches.{0} prepared next := .rootFilter .start accepted
      exact recalls.modifyRoot (recalls.carries.reaches valid sound still) accepted
  | rootQuery query =>
      apply change
      intro next accepted
      have still : PreparedPlan.Reaches.{0} prepared next := .rootQuery .start accepted
      exact recalls.modifyRoot (recalls.carries.reaches valid sound still) accepted
  | execute db state => exact recalls.execute valid sound db state
  | explain =>
      rw [sentBy, List.append_nil]
      exact recalls

theorem Recalls.after (recalls : Recalls p prepared sent) (valid : p.Over s plural request)
    (sound : s.Sound) (calls : List Call.{u}) :
    Recalls p (prepared.after calls) (sent ++ prepared.sentDuring calls) := by
  induction calls generalizing prepared sent with
  | nil =>
      rw [sentDuring, List.append_nil]
      exact recalls
  | cons call rest ih =>
      rw [sentDuring, ← List.append_assoc]
      exact ih (recalls.step valid sound call)

end Histories

section Entries

variable {s : Schema} {p : Plan} {plural : Bool} {request : Request} {prepared : PreparedPlan}
  {sent : List Job} {memo : Sql.Memo} {k : Nat} {entry : ExplainedStatement}

theorem explainMemo_cases (carries : Carries p prepared) (valid : p.Over s plural request)
    (kept : prepared.memos[k]? = some memo) (shown : prepared.explainMemo memo = .ok entry) :
    ∃ q st, p.queries[k]? = some q ∧ entry.query = k ∧ entry.text = st.text ∧
      entry.params = st.params ∧
      (if q.parent.isSome && memo.batch.isEmpty then memo.setBatch [.null] else memo).statement.1 =
        .ok st := by
  obtain ⟨q, root, query, same⟩ := carries.explainMemo_eq valid kept
  rw [same] at shown
  obtain ⟨st, rendered, shown⟩ := Result.bind_eq_ok.mp shown
  cases shown
  exact ⟨q, st, query, rfl, rfl, rfl, rendered⟩

theorem Recalls.shows_next (recalls : Recalls p prepared sent) (valid : p.Over s plural request)
    (sound : s.Sound) (kept : prepared.memos[0]? = some memo)
    (shown : prepared.explainMemo memo = .ok entry) {σ : Type u} (db : Database σ) (state : σ) :
    ∃ first rest, (prepared.execute db.recorded (state, [])).1.database.2 = first :: rest ∧
      entry.Shows first.statement := by
  obtain ⟨q, st, query, _, text, params, rendered⟩ :=
    explainMemo_cases recalls.carries valid kept shown
  rw [(valid.query_first sound query).2.1] at rendered
  obtain ⟨job, others, sends, _, own⟩ := Plan.calls_first db valid sound prepared.options
    recalls.carries.statements kept state
  cases own.symm.trans rendered
  have noted := prepared.execute_noted db state
  have complete : ¬prepared.memos.length ≠ p.queries.length :=
    not_not_intro recalls.carries.statements.count
  rw [PreparedPlan.sends, recalls.carries.plan_eq, if_neg complete, sends, List.map_cons,
    List.map_eq_cons_iff] at noted
  obtain ⟨first, rest, log, same, _⟩ := noted
  refine ⟨first, rest, log, ?_⟩
  rw [same]
  exact ⟨text, params⟩

/-- What was sent last is shown, or else the statement for one null. -/
theorem Recalls.shows_last (recalls : Recalls p prepared sent) (valid : p.Over s plural request)
    (sound : s.Sound) (below : k ≠ 0) (kept : prepared.memos[k]? = some memo)
    (shown : prepared.explainMemo memo = .ok entry) :
    match lastSent sent k with
    | some job => entry.Shows job.statement
    | none => ∃ st, Sql.Statement.anew p k (p.rootQuery k) [.null] = .ok st ∧ entry.Shows st := by
  obtain ⟨q, st, query, _, text, params, rendered⟩ :=
    explainMemo_cases recalls.carries valid kept shown
  obtain ⟨_, _, _, _, _, _, _, _, parent, _⟩ := valid.query_parent sound query below
  obtain ⟨coherent, own, tells⟩ := recalls.told k memo below kept
  rw [parent] at rendered
  cases last : lastSent sent k with
  | none =>
      rw [last] at tells
      have unbound : memo.batch = [] := tells
      rw [unbound] at rendered
      change (memo.setBatch [.null]).statement.1 = .ok st at rendered
      have bound : (memo.setBatch [.null]).batch = [.null] := by
        rw [Sql.Memo.setBatch, unbound]
        rfl
      refine ⟨st, ?_, text, params⟩
      rw [← rendered, (coherent.setBatch [.null]).statement.1, Sql.Memo.setBatch_rootQuery, own, bound]
  | some job =>
      rw [last] at tells
      obtain ⟨bound, sentAs⟩ := tells
      rw [if_neg (by simpa using bound), coherent.statement.1, own, sentAs] at rendered
      cases rendered
      exact ⟨text, params⟩

theorem Recalls.explain (recalls : Recalls p prepared sent) (valid : p.Over s plural request)
    (sound : s.Sound) : ∃ entries, prepared.explain = .ok entries ∧
      entries.map (·.query) = List.range p.queries.length ∧
      ∀ (k : Nat) entry, entries[k]? = some entry →
        ∃ memo, prepared.memos[k]? = some memo ∧ prepared.explainMemo memo = .ok entry := by
  obtain ⟨entries, explained⟩ := recalls.carries.explain_succeeds valid sound
  obtain ⟨count, each⟩ := Result.mapM_getElem? explained
  have made : ∀ (k : Nat) entry, entries[k]? = some entry →
      ∃ memo, prepared.memos[k]? = some memo ∧ prepared.explainMemo memo = .ok entry := by
    intro k entry listed
    have inside := (List.getElem?_eq_some_iff.mp listed).1
    rw [count] at inside
    obtain ⟨again, found, shown⟩ := each k _ (List.getElem?_eq_getElem inside)
    cases listed.symm.trans found
    exact ⟨_, List.getElem?_eq_getElem inside, shown⟩
  refine ⟨entries, explained, ?_, made⟩
  apply List.ext_getElem?
  intro k
  rw [List.getElem?_map]
  cases listed : entries[k]? with
  | none =>
      have outside := List.getElem?_eq_none_iff.mp listed
      rw [count, recalls.carries.statements.count] at outside
      rw [List.getElem?_eq_none (by rwa [List.length_range])]
      rfl
  | some entry =>
      obtain ⟨memo, kept, shown⟩ := made k entry listed
      obtain ⟨q, _, query, id, _⟩ := explainMemo_cases recalls.carries valid kept shown
      rw [List.getElem?_range (List.getElem?_eq_some_iff.mp query).1, Option.map_some, id]

end Entries

/-- After any calls of a prepared plan it is explained, with one entry for each statement in their order.
The first one is what any execution would send first. Each other one is what was sent last, or if nothing
was sent, the statement for a single null. Whether and when it is explained makes no difference to what
comes later. -/
theorem explained_as_sent {s : Schema} (declared : s.Declared) {format : String} {plural : Bool}
    {request : Request} {p : Plan} (built : Plan.build s.catalog format plural request = .ok p)
    {options : ExecutionOptions} {start : PreparedPlan} (fresh : ofPlan p options = .ok start)
    (calls : List Call.{u}) :
    (∃ entries, (start.after calls).explain = .ok entries ∧
      entries.map (·.query) = List.range p.queries.length ∧
      (∀ entry, entries[0]? = some entry → ∀ {σ : Type v} (db : Database σ) (state : σ),
        ∃ first rest, ((start.after calls).execute db.recorded (state, [])).1.database.2 =
          first :: rest ∧ entry.Shows first.statement) ∧
      ∀ (k : Nat) entry, k ≠ 0 → entries[k]? = some entry →
        match lastSent (start.sentDuring calls) k with
        | some job => entry.Shows job.statement
        | none => ∃ st, Sql.Statement.anew p k (p.rootQuery k) [.null] = .ok st ∧ entry.Shows st) ∧
    ∀ more, start.after (calls ++ .explain :: more) = start.after (calls ++ more) ∧
      start.sentDuring (calls ++ .explain :: more) = start.sentDuring (calls ++ more) := by
  have valid := Plan.build_over declared built
  have sound := declared.sound
  have recalls : Recalls p (start.after calls) (start.sentDuring calls) :=
    (recalls_ofPlan valid sound fresh).after valid sound calls
  constructor
  · obtain ⟨entries, explained, ids, made⟩ := recalls.explain valid sound
    refine ⟨entries, explained, ids, ?_, ?_⟩
    · intro entry listed σ db state
      obtain ⟨memo, kept, shown⟩ := made 0 entry listed
      exact recalls.shows_next valid sound kept shown db state
    · intro k entry below listed
      obtain ⟨memo, kept, shown⟩ := made k entry listed
      exact recalls.shows_last valid sound below kept shown
  · intro more
    rw [after_append, after_append, sentDuring_append, sentDuring_append]
    exact ⟨rfl, rfl⟩

/-- The articles of a user were asked for and refused. They are shown as they were asked for, where before
they were shown for a null. -/
theorem explained_as_sent_titles : ∃ p start job null before later,
    Plan.build Schema.blog.catalog "user" true Plan.titles = .ok p ∧
      ofPlan p .standard = .ok start ∧
      let calls : List Call.{0} := [.explain, .execute usersOnly.database ()]
      lastSent (start.sentDuring calls) 1 = some job ∧
        Sql.Statement.anew p 1 (p.rootQuery 1) [.null] = .ok null ∧
        start.explain = .ok before ∧ (start.after calls).explain = .ok later ∧
        (∃ entry, before[1]? = some entry ∧ entry.Shows null) ∧
        ∃ entry, later[1]? = some entry ∧ entry.Shows job.statement := by
  have planned : ∃ p start job, Plan.build Schema.blog.catalog "user" true Plan.titles = .ok p ∧
      ofPlan p .standard = .ok start ∧ p.queries.length = 2 ∧
      lastSent (start.sentDuring [.explain, .execute usersOnly.database ()]) 1 = some job :=
    ⟨_, _, _, rfl, rfl, rfl, rfl⟩
  obtain ⟨p, start, job, built, fresh, two, asked⟩ := planned
  obtain ⟨⟨before, first, ids, _, shown⟩, _⟩ :=
    explained_as_sent.{0, 0} Schema.blog_declared built fresh []
  obtain ⟨⟨later, second, ids', _, shown'⟩, _⟩ :=
    explained_as_sent.{0, 0} Schema.blog_declared built fresh [.explain, .execute usersOnly.database ()]
  have listed : ∀ entries : List ExplainedStatement,
      entries.map (·.query) = List.range p.queries.length → ∃ entry, entries[1]? = some entry := by
    intro entries numbered
    have count := congrArg List.length numbered
    rw [List.length_map, List.length_range, two] at count
    exact ⟨_, List.getElem?_eq_getElem (by omega)⟩
  obtain ⟨entry, here⟩ := listed before ids
  obtain ⟨entry', here'⟩ := listed later ids'
  obtain ⟨null, anew, shows⟩ := shown 1 entry (by decide) here
  have shows' := shown' 1 entry' (by decide) here'
  rw [asked] at shows'
  exact ⟨p, start, job, null, before, later, built, fresh, asked, anew, first, second,
    ⟨entry, here, shows⟩, entry', here', shows'⟩

end PreparedPlan

end NestedQuery
