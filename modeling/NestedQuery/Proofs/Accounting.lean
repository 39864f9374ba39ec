/- What becomes of the statements of a plan in a run that succeeds: each is answered, degraded or left
out, the rows above it decide which values it is sent with, and the counters agree with the calls. -/
import NestedQuery.Proofs.Counters
import NestedQuery.Proofs.Degradation

namespace NestedQuery

open Execution

/-- A call of a database: whether one record was asked for, the statement, and the answer. -/
structure Exchange where
  single : Bool
  statement : Sql.Statement
  answer : Result (List Row)

/-- A database that keeps what it is asked and what it answers. -/
def Database.traced {σ : Type u} (db : Database σ) : Database (σ × List Exchange) where
  fetch statement state :=
    let (result, next) := db.fetch statement state.1
    (result, next, state.2 ++ [⟨false, statement, result⟩])
  fetchOne statement state :=
    let (result, next) := db.fetchOne statement state.1
    (result, next, state.2 ++ [⟨true, statement, result.map (·.toList)⟩])

namespace Execution

def exchangeOf (call : Job × Result (List Row)) : Exchange := ⟨call.1.single, call.1.statement, call.2⟩

theorem traced_notes {σ : Type u} (db : Database σ) : Notes db db.traced exchangeOf := by
  intro job state log
  simp only [send, Database.traced, exchangeOf]
  cases job.single <;> rfl

section Course

variable {s : Schema} {plural : Bool} {request : Request} {policy : FailurePolicy} {p : Plan}
  {levels : List (List Nat)} {memos : List Sql.Memo} {o done : Outcome}
  {calls : List (Job × Result (List Row))} {log : List Measurement}

/-- A run over levels that succeeds: the calls that it makes, what it measures, and its outcome. -/
inductive Completes (policy : FailurePolicy) (p : Plan) : List (List Nat) → List Sql.Memo → Outcome →
    List (Job × Result (List Row)) → List Measurement → Outcome → Prop
  | finished {memos : List Sql.Memo} {o : Outcome} : Completes policy p [] memos o [] [] o
  | onward {level : List Nat} {rest : List (List Nat)} {memos : List Sql.Memo} {o next done : Outcome}
      {ready : Preparation} {answers calls : List (Job × Result (List Row))} {log : List Measurement}
      (prepared : Prepares p o.rows memos level ready) (jobs : answers.map (·.1) = ready.jobs)
      (settled : settle policy { o with skipped := o.skipped ++ ready.skipped } answers = .ok next)
      (later : Completes policy p rest ready.memos next calls log done) :
      Completes policy p (level :: rest) memos o (answers ++ calls)
        (ready.skipped.map (fun _ => .skipped) ++ answers.map (fun call => measure call.1 call.2) ++
          List.replicate (next.degraded.length - o.degraded.length) .degraded ++ log) done

theorem completes_runLevels {σ : Type u} (db : Database σ) (options : ExecutionOptions) (p : Plan)
    (levels : List (List Nat)) (state : σ) (memos : List Sql.Memo) (o : Outcome)
    (result : (runLevels db options p levels state memos o).result = .ok done) :
    Completes options.failurePolicy p levels memos o
      (Execution.calls db options p levels state memos o)
      (runLevels db options p levels state memos o).log done := by
  induction levels generalizing state memos o with
  | nil =>
      cases result
      exact .finished
  | cons level rest ih =>
      simp only [runLevels, Execution.calls] at result ⊢
      cases ready : (prepare p o.rows memos level).failure with
      | some error => simp [ready] at result
      | none =>
          simp only [ready] at result ⊢
          cases settled : settle options.failurePolicy
              { o with skipped := o.skipped ++ (prepare p o.rows memos level).skipped }
              (sendAll db (prepare p o.rows memos level).jobs state).1 with
          | error error => simp [settled] at result
          | ok next =>
              simp only [settled] at result ⊢
              exact .onward (prepares ready) (sendAll_jobs db _ state) settled (ih _ _ next result)

/-- A run sends or leaves out every statement of its levels, degrades what has failed, and measures
that and nothing else. -/
theorem Completes.kept (completes : Completes policy p levels memos o calls log done) :
    done.rows.length = o.rows.length ∧ done.degraded = o.degraded ++ failedQueries calls ∧
      (∃ skips, done.skipped = o.skipped ++ skips ∧
        (calls.map (·.1.query) ++ skips).Perm levels.flatten ∧
        log.Perm (skips.map (fun _ => .skipped) ++ (calls.map (fun call => measure call.1 call.2) ++
          List.replicate (failedQueries calls).length .degraded))) ∧
      ∀ k, done.rows[k]? = (calls.filter (·.1.query == k)).foldl landed o.rows[k]? := by
  induction completes with
  | finished => exact ⟨rfl, (List.append_nil _).symm, ⟨[], (List.append_nil _).symm, .nil, .nil⟩,
      fun _ => rfl⟩
  | @onward level rest memos o next done ready answers calls log prepared jobs settled later ih =>
      obtain ⟨skipped, degraded, count, rows⟩ := settle_kept settled
      obtain ⟨countLater, degradedLater, ⟨skips, skippedLater, members, measured⟩, rowsLater⟩ := ih
      have failed : failedQueries (answers ++ calls) = failedQueries answers ++ failedQueries calls := by
        simp only [failedQueries, List.filter_append, List.map_append]
      refine ⟨countLater.trans count, ?_, ⟨ready.skipped ++ skips, ?_, ?_, ?_⟩, fun k => ?_⟩
      · rw [degradedLater, degraded, failed, List.append_assoc]
      · rw [skippedLater, skipped, List.append_assoc]
      · have own : (answers.map (·.1.query) ++ ready.skipped).Perm level := by
          have same : answers.map (·.1.query) = ready.jobs.map (·.query) := by
            rw [← jobs, List.map_map]
            rfl
          rw [same]
          exact prepared.perm
        refine List.perm_iff_count.mpr fun k => ?_
        have here := own.count_eq k
        have below := members.count_eq k
        simp only [List.flatten_cons, List.map_append, List.count_append] at here below ⊢
        omega
      · have grown : next.degraded.length - o.degraded.length = (failedQueries answers).length := by
          rw [degraded, List.length_append]
          exact Nat.add_sub_cancel_left ..
        refine List.perm_iff_count.mpr fun m => ?_
        have below := measured.count_eq m
        rw [grown, failed, List.length_append, ← List.replicate_append_replicate]
        simp only [List.map_append, List.count_append] at below ⊢
        omega
      · rw [rowsLater, rows, List.filter_append, List.foldl_append]

/-- What is above the levels of a run stays as it is. -/
theorem Completes.rows_outside (completes : Completes policy p levels memos o calls log done) {k : Nat}
    (outside : k ∉ levels.flatten) : done.rows[k]? = o.rows[k]? := by
  obtain ⟨_, _, ⟨skips, _, members, _⟩, rows⟩ := completes.kept
  have none : calls.filter (·.1.query == k) = [] := by
    refine List.filter_eq_nil_iff.mpr fun call listed own => outside ?_
    refine members.subset (List.mem_append_left _ ?_)
    exact List.mem_map.mpr ⟨call, listed, beq_iff_eq.mp own⟩
  rw [rows k, none]
  rfl

/-- What a statement of the first level binds is a matter of the final rows, since those above it stay
as they are. -/
theorem Completes.bound_eq (valid : p.Over s plural request)
    (completes : Completes policy p levels memos o calls log done) {d k : Nat}
    (window : levels = p.levels.drop d) {q : QueryNode} (query : p.queries[k]? = some q)
    (deep : q.depth = d) (m : Sql.Memo) :
    Execution.bound p o.rows q m = Execution.bound p done.rows q m := by
  refine bound_congr (fun a parent => ?_) m
  obtain ⟨above, found, higher⟩ := valid.depth_parent query parent
  refine (completes.rows_outside fun listed => ?_).symm
  rw [window] at listed
  obtain ⟨above', found', notAbove⟩ := valid.parts.mem_levels_drop.mp listed
  cases found.symm.trans found'
  omega

/-- The memos of the statements from a depth on are those of the plan. -/
def FreshFrom (p : Plan) (memos : List Sql.Memo) (d : Nat) : Prop :=
  ∀ (k : Nat) (q : QueryNode), p.queries[k]? = some q → d ≤ q.depth →
    ∃ m, memos[k]? = some m ∧ Sql.Memo.ofPlan p k = .ok m

section Fresh

variable {d : Nat} {level : List Nat} {ready : Preparation} (valid : p.Over s plural request)
  (fresh : FreshFrom p memos d) (here : p.levels[d]? = some level)
include valid fresh here

theorem FreshFrom.next (prepared : Prepares p o.rows memos level ready) :
    FreshFrom p ready.memos (d + 1) := by
  intro k q query deep
  obtain ⟨m, kept, made⟩ := fresh k q query (by omega)
  refine ⟨m, (prepared.memos_outside fun member => ?_).trans kept, made⟩
  obtain ⟨q', query', level⟩ := valid.parts.query_of_level here member
  cases query.symm.trans query'
  omega

theorem FreshFrom.ofPlan {k : Nat} (member : k ∈ level) {memo : Sql.Memo} (kept : memos[k]? = some memo)
    {q : QueryNode} (query : p.queries[k]? = some q) :
    Sql.Memo.ofPlan p k = .ok memo ∧ q.depth = d := by
  obtain ⟨q', query', deep⟩ := valid.parts.query_of_level here member
  cases query.symm.trans query'
  obtain ⟨m, kept', made⟩ := fresh k q query (Nat.le_of_eq deep.symm)
  cases kept.symm.trans kept'
  exact ⟨made, deep⟩

end Fresh

/-- Whether a statement is left out, and what it is sent as otherwise, is a matter of the final rows. -/
theorem Completes.bound (valid : p.Over s plural request)
    (completes : Completes policy p levels memos o calls log done) {d : Nat}
    (window : levels = p.levels.drop d) (fresh : FreshFrom p memos d) :
    (∀ k ∈ done.skipped, k ∈ o.skipped ∨ ∃ q m, p.queries[k]? = some q ∧
      Sql.Memo.ofPlan p k = .ok m ∧ Execution.bound p done.rows q m = .ok none) ∧
      ∀ call ∈ calls, ∃ q m given, p.queries[call.1.query]? = some q ∧
        Sql.Memo.ofPlan p call.1.query = .ok m ∧
        Execution.bound p done.rows q m = .ok (some given) ∧
        given.statement.1 = .ok call.1.statement := by
  induction completes generalizing d with
  | finished => exact ⟨fun k listed => .inl listed, List.forall_mem_nil _⟩
  | @onward level rest memos o next done ready answers calls log prepared jobs settled later ih =>
      obtain ⟨here, others⟩ := getElem?_of_cons_eq_drop window
      have distinct : level.Nodup := (valid.parts.increasing here).imp Nat.ne_of_lt
      have whole := Completes.onward prepared jobs settled later
      obtain ⟨skips, sent⟩ := ih others (fresh.next valid here prepared)
      constructor
      · intro k listed
        rcases skips k listed with before | later
        · obtain ⟨skipped, _⟩ := settle_kept settled
          rw [skipped, List.mem_append] at before
          refine before.imp_right fun leftOut => ?_
          obtain ⟨q, memo, query, kept, none⟩ := prepared.unbound distinct leftOut
          obtain ⟨made, deep⟩ := fresh.ofPlan valid here (prepared.skipped_subset leftOut) kept query
          exact ⟨q, memo, query, made, whole.bound_eq valid window query deep memo ▸ none⟩
        · exact .inr later
      · refine List.forall_mem_append.mpr ⟨fun call listed => ?_, sent⟩
        have job : call.1 ∈ ready.jobs := jobs ▸ List.mem_map_of_mem listed
        obtain ⟨q, memo, given, query, kept, binds, rendered⟩ := prepared.issued distinct job
        obtain ⟨made, deep⟩ := fresh.ofPlan valid here (prepared.depth call.1 job).1 kept query
        refine ⟨q, memo, given, query, made, ?_, rendered⟩
        exact whole.bound_eq valid window query deep memo ▸ binds

end Course

/-- The values that rows hold under a label, but for nulls, in the order of the rows. -/
def heldValues (rows : List Row) (label : String) : List Value := rows.filterMap (Row.link? · label)

theorem distinctValues_eq (rows : List Row) (label : String) :
    distinctValues rows label = Value.distinct (heldValues rows label) := by
  rw [distinctValues, heldValues]
  congr 1
  rw [List.filter_filterMap]
  rfl

/-- What has become of a statement. -/
inductive Fate where
  | answered
  | degraded
  | skipped
  deriving DecidableEq

/-- What the calls for a statement and the outcome say of it. -/
def Fate.Of (calls : List (Job × Result (List Row))) (o : Outcome) (k : Nat) : Fate → Prop
  | .answered => ∃ job rows, calls.filter (·.1.query == k) = [(job, .ok rows)] ∧
      o.rows[k]? = some rows ∧ k ∉ o.degraded ∧ k ∉ o.skipped
  | .degraded => ∃ job failure, calls.filter (·.1.query == k) = [(job, .error failure)] ∧
      o.rows[k]? = some [] ∧ k ∈ o.degraded ∧ k ∉ o.skipped
  | .skipped => calls.filter (·.1.query == k) = [] ∧ o.rows[k]? = some [] ∧ k ∉ o.degraded ∧
      k ∈ o.skipped

/-- The rows above a statement decide whether it is left out, and which values it is sent with. -/
def Decided (p : Plan) (calls : List (Job × Result (List Row))) (o : Outcome) (k above : Nat) : Prop :=
  ∃ label, parentLinkLabel p k = .ok label ∧
    let values := heldValues ((o.rows[above]?).getD []) label
    (k ∈ o.skipped ↔ values = []) ∧
      ∀ call ∈ calls, call.1.query = k → ∃ batch,
        Sql.Statement.anew p k (p.rootQuery k) batch = .ok call.1.statement ∧
          ((∀ v ∈ values, v.isJson = false) →
            batch = values.eraseDups ∧ ∀ v ∈ values, batch.countP (v == ·) = 1)

/-- The calls of a run and its outcome account for every statement of the plan. -/
structure Accounted (p : Plan) (calls : List (Job × Result (List Row))) (o : Outcome) : Prop where
  count : o.rows.length = p.queries.length
  once : (calls.map (·.1.query) ++ o.skipped).Perm (List.range p.queries.length)
  degraded : o.degraded = failedQueries calls
  fates : ∀ k < p.queries.length, ∃! fate : Fate, fate.Of calls o k
  root : 0 ∉ o.skipped ∧ ∀ call ∈ calls, call.1.query = 0 →
    Sql.Statement.anew p 0 (p.rootQuery 0) [] = .ok call.1.statement
  decided : ∀ (k above : Nat) (q : QueryNode), p.queries[k]? = some q → q.parent = some above →
    Decided p calls o k above
  below : ∀ k, p.Under (o.skipped ++ o.degraded) k → k ∈ o.skipped

/-- The counters of a run agree with its calls and its outcome. -/
structure Metered (calls : List (Job × Result (List Row))) (o : Outcome) (log : List Measurement) :
    Prop where
  issued : o.statementsIssued = calls.length
  statements : Measurement.total "weave_statements_total" log +
    Measurement.total "weave_statements_failed_total" log = calls.length
  skipped : Measurement.total "weave_statements_skipped_total" log = o.skipped.length
  degraded : Measurement.total "weave_branches_degraded_total" log = o.degraded.length
  fetched : Measurement.total "weave_rows_fetched_total" log = (o.rows.map List.length).sum

section Totals

variable {p : Plan} {calls : List (Job × Result (List Row))} {o : Outcome}

/-- Each statement is called once or left out, what has failed is degraded, and the rows are the
answers. -/
structure Kept (p : Plan) (calls : List (Job × Result (List Row))) (o : Outcome) : Prop where
  count : o.rows.length = p.queries.length
  once : (calls.map (·.1.query) ++ o.skipped).Perm (List.range p.queries.length)
  degraded : o.degraded = failedQueries calls
  rows : ∀ k < p.queries.length, o.rows[k]? = (calls.filter (·.1.query == k)).foldl landed (some [])

theorem filter_eq_singleton (distinct : (calls.map (·.1.query)).Nodup)
    {call : Job × Result (List Row)} (listed : call ∈ calls) :
    calls.filter (·.1.query == call.1.query) = [call] := by
  induction calls with
  | nil => cases listed
  | cons first rest ih =>
      obtain ⟨absent, distinctRest⟩ := List.nodup_cons.mp distinct
      rcases List.mem_cons.mp listed with rfl | later
      · have none : rest.filter (·.1.query == call.1.query) = [] := by
          refine List.filter_eq_nil_iff.mpr fun other inRest same => absent ?_
          exact List.mem_map.mpr ⟨other, inRest, beq_iff_eq.mp same⟩
        rw [List.filter_cons_of_pos (by simp), none]
      · have different : first.1.query ≠ call.1.query := fun same =>
          absent (List.mem_map.mpr ⟨call, later, same.symm⟩)
        rw [List.filter_cons_of_neg (by simpa using different), ih distinctRest later]

namespace Kept

variable (kept : Kept p calls o)
include kept

theorem nodup : (calls.map (·.1.query)).Nodup ∧ ∀ call ∈ calls, call.1.query ∉ o.skipped := by
  have whole := kept.once.nodup_iff.mpr List.nodup_range
  obtain ⟨distinct, _, apart⟩ := List.nodup_append.mp whole
  exact ⟨distinct, fun call listed leftOut =>
    apart _ (List.mem_map_of_mem listed) _ leftOut rfl⟩

theorem inside {call : Job × Result (List Row)} (listed : call ∈ calls) :
    call.1.query < p.queries.length :=
  List.mem_range.mp (kept.once.subset (List.mem_append_left _ (List.mem_map_of_mem listed)))

/-- The rows of a statement that was called are those that it was answered with, if it was. -/
theorem rows_call {call : Job × Result (List Row)} (listed : call ∈ calls) :
    o.rows[call.1.query]? = some (call.2.toOption.getD []) := by
  rw [kept.rows _ (kept.inside listed), filter_eq_singleton kept.nodup.1 listed, List.foldl_cons,
    List.foldl_nil, landed]
  cases call.2 <;> rfl

theorem filter_skipped {k : Nat} (leftOut : k ∈ o.skipped) : calls.filter (·.1.query == k) = [] := by
  refine List.filter_eq_nil_iff.mpr fun call listed same => ?_
  exact kept.nodup.2 call listed (beq_iff_eq.mp same ▸ leftOut)

theorem rows_skipped {k : Nat} (leftOut : k ∈ o.skipped) : o.rows[k]? = some [] := by
  have inside := List.mem_range.mp (kept.once.subset (List.mem_append_right _ leftOut))
  rw [kept.rows k inside, kept.filter_skipped leftOut]
  rfl

theorem mem_degraded {call : Job × Result (List Row)} (listed : call ∈ calls) :
    call.1.query ∈ o.degraded ↔ call.2.isOk = false := by
  rw [kept.degraded, failedQueries, List.mem_map]
  constructor
  · rintro ⟨other, failed, same⟩
    obtain ⟨inCalls, refused⟩ := List.mem_filter.mp failed
    have own := filter_eq_singleton kept.nodup.1 listed
    have both : other ∈ calls.filter (·.1.query == call.1.query) :=
      List.mem_filter.mpr ⟨inCalls, beq_iff_eq.mpr same⟩
    rw [own, List.mem_singleton] at both
    simpa [both] using refused
  · intro refused
    exact ⟨call, List.mem_filter.mpr ⟨listed, by simp [refused]⟩, rfl⟩

theorem not_mem_degraded {k : Nat} (leftOut : k ∈ o.skipped) : k ∉ o.degraded := by
  rw [kept.degraded, failedQueries]
  intro listed
  obtain ⟨call, failed, rfl⟩ := List.mem_map.mp listed
  exact kept.nodup.2 call (List.mem_of_mem_filter failed) leftOut

theorem fate {k : Nat} (inside : k < p.queries.length) : ∃! fate : Fate, fate.Of calls o k := by
  have unique : ∀ fate other : Fate, fate.Of calls o k → other.Of calls o k → other = fate := by
    intro fate other one two
    cases fate <;> cases other <;> simp_all [Fate.Of]
  obtain ⟨fate, own⟩ : ∃ fate : Fate, fate.Of calls o k := by
    rcases List.mem_append.mp (kept.once.mem_iff.mpr (List.mem_range.mpr inside)) with called | leftOut
    · obtain ⟨call, listed, rfl⟩ := List.mem_map.mp called
      have own := filter_eq_singleton kept.nodup.1 listed
      have rows := kept.rows_call listed
      have sent := kept.nodup.2 call listed
      have failed := kept.mem_degraded listed
      obtain ⟨job, answer⟩ := call
      cases answer with
      | ok answer =>
          have accepted : job.query ∉ o.degraded := fun refused => nomatch failed.mp refused
          exact ⟨.answered, job, answer, own, rows, accepted, sent⟩
      | error failure => exact ⟨.degraded, job, failure, own, rows, failed.mpr rfl, sent⟩
    · exact ⟨.skipped, kept.filter_skipped leftOut, kept.rows_skipped leftOut,
        kept.not_mem_degraded leftOut, leftOut⟩
  exact ⟨fate, own, fun other two => unique fate other own two⟩

/-- The rows that a run has kept are those of its answers. -/
theorem length_rows : (o.rows.map List.length).sum =
    (calls.map fun call => (call.2.toOption.getD []).length).sum := by
  have listed : o.rows = (List.range p.queries.length).map fun k => (o.rows[k]?).getD [] := by
    refine List.ext_getElem? fun k => ?_
    rw [List.getElem?_map]
    by_cases inside : k < p.queries.length
    · rw [List.getElem?_range inside, Option.map_some, List.getElem?_eq_getElem (kept.count ▸ inside)]
      rfl
    · rw [List.getElem?_eq_none (by rw [kept.count]; omega),
        List.getElem?_eq_none (by rw [List.length_range]; omega)]
      rfl
  have lengths := kept.once.map fun k => ((o.rows[k]?).getD []).length
  rw [listed, List.map_map]
  refine lengths.symm.sum_nat.trans ?_
  have none : ∀ k ∈ o.skipped, ((o.rows[k]?).getD []).length = 0 := by
    intro k leftOut
    rw [kept.rows_skipped leftOut]
    rfl
  rw [List.map_append, List.sum_append, List.map_congr_left none, List.map_const', List.sum_replicate_nat,
    Nat.mul_zero, Nat.add_zero, List.map_map]
  refine congrArg List.sum (List.map_congr_left fun call inCalls => ?_)
  simp only [Function.comp_apply, kept.rows_call inCalls, Option.getD_some]

end Kept

open Measurement in
/-- A counter sums what the calls, the skipped and the degraded statements add to it. -/
theorem total_of_perm {name : String} {skipped : List Nat} {failures : Nat} {log : List Measurement}
    (measured : log.Perm (skipped.map (fun _ => .skipped) ++
      (calls.map (fun call => measure call.1 call.2) ++ List.replicate failures .degraded))) :
    total name log = skipped.length * amount name .skipped +
      ((calls.map fun call => amount name (measure call.1 call.2)).sum +
        failures * amount name .degraded) := by
  rw [total_eq, (measured.map _).sum_nat, List.map_append, List.map_append, List.sum_append,
    List.sum_append, List.map_map, List.map_map, List.map_replicate, List.sum_replicate_nat]
  congr 1
  rw [← List.sum_replicate_nat, ← List.map_const']
  rfl

open Measurement in
theorem Kept.metered (kept : Kept p calls o) {log : List Measurement}
    (measured : log.Perm (o.skipped.map (fun _ => .skipped) ++
      (calls.map (fun call => measure call.1 call.2) ++
        List.replicate (failedQueries calls).length .degraded))) : Metered calls o log := by
  have count : calls.length + o.skipped.length = p.queries.length := by
    have whole := kept.once.length_eq
    rwa [List.length_append, List.length_map, List.length_range] at whole
  have none : ∀ value : Job × Result (List Row) → Nat, (∀ call ∈ calls, value call = 0) →
      (calls.map value).sum = 0 := by
    intro value zero
    rw [List.map_congr_left zero, List.map_const', List.sum_replicate_nat, Nat.mul_zero]
  constructor
  · rw [Outcome.statementsIssued, kept.count]
    omega
  · rw [total_of_perm measured, total_of_perm measured]
    simp only [amount_skipped, amount_degraded]
    clear measured kept count none
    induction calls with
    | nil => rfl
    | cons call rest ih =>
        obtain ⟨job, answer⟩ := call
        cases answer <;>
          simp [measure, amount_executed, amount_failed] at ih ⊢ <;> omega
  · rw [total_of_perm measured, none]
    · simp [amount_skipped, amount_degraded]
    · rintro ⟨job, answer⟩ _
      cases answer <;> simp [measure, amount_executed, amount_failed]
  · rw [total_of_perm measured, none, kept.degraded]
    · simp [amount_skipped, amount_degraded]
    · rintro ⟨job, answer⟩ _
      cases answer <;> simp [measure, amount_executed, amount_failed]
  · have fetched : ∀ call ∈ calls, amount "weave_rows_fetched_total" (measure call.1 call.2) =
        (call.2.toOption.getD []).length := by
      rintro ⟨job, answer⟩ _
      cases answer <;> simp [measure, amount_executed, amount_failed, Except.toOption]
    rw [total_of_perm measured, kept.length_rows, List.map_congr_left fetched]
    simp [amount_skipped, amount_degraded]

end Totals

section Whole

variable {s : Schema} {p : Plan} {plural : Bool} {request : Request} {policy : FailurePolicy}
  {memos : List Sql.Memo} {calls : List (Job × Result (List Row))} {log : List Measurement}
  {o : Outcome}

theorem Completes.whole (valid : p.Over s plural request)
    (completes : Completes policy p p.levels memos (.ofPlan p) calls log o) :
    Kept p calls o ∧ Metered calls o log := by
  obtain ⟨count, degraded, ⟨skips, skipped, members, measured⟩, rows⟩ := completes.kept
  cases skipped
  have kept : Kept p calls o := by
    constructor
    · exact count.trans List.length_replicate
    · exact members.trans valid.parts.levels_perm
    · exact degraded
    · intro k inside
      rw [rows, Outcome.ofPlan, List.getElem?_replicate_of_lt inside]
  exact ⟨kept, kept.metered measured⟩

/-- A statement below the first one is left out if the rows above it hold nothing to bind. -/
theorem Kept.decided (valid : p.Over s plural request) (sound : s.Sound) (kept : Kept p calls o)
    (skips : ∀ k ∈ o.skipped, ∃ q m, p.queries[k]? = some q ∧ Sql.Memo.ofPlan p k = .ok m ∧
      bound p o.rows q m = .ok none)
    (sent : ∀ call ∈ calls, ∃ q m given, p.queries[call.1.query]? = some q ∧
      Sql.Memo.ofPlan p call.1.query = .ok m ∧ bound p o.rows q m = .ok (some given) ∧
      given.statement.1 = .ok call.1.statement)
    {k above : Nat} {q : QueryNode} (query : p.queries[k]? = some q) (parent : q.parent = some above) :
    Decided p calls o k above := by
  have below : k ≠ 0 := by
    rintro rfl
    cases (valid.query_first sound query).2.1.symm.trans parent
  obtain ⟨a, n, m, name, link, place, child, root, parent', _⟩ := valid.query_parent sound query below
  cases parent.symm.trans parent'
  generalize values :
    distinctValues ((o.rows[above]?).getD []) (n.columnLabel link.parentField) = batch
  have binds := Plan.bound_below valid query place child root parent values
  have empty : batch.isEmpty = true ↔
      heldValues ((o.rows[above]?).getD []) (n.columnLabel link.parentField) = [] := by
    rw [← values, List.isEmpty_iff, distinctValues_eq, Value.distinct_eq_nil]
  refine ⟨_, Plan.parentLinkLabel_eq valid place child query root, ⟨fun leftOut => ?_, fun nothing => ?_⟩,
    fun call listed own => ?_⟩
  · obtain ⟨q', m', query', _, none⟩ := skips k leftOut
    cases query.symm.trans query'
    refine empty.mp (Decidable.byContradiction fun something => ?_)
    rw [binds, if_neg something] at none
    cases none
  · refine Decidable.byContradiction fun due => ?_
    have inside := List.mem_range.mpr (List.getElem?_eq_some_iff.mp query).1
    have called := (List.mem_append.mp (kept.once.mem_iff.mpr inside)).resolve_right due
    obtain ⟨call, listed, rfl⟩ := List.mem_map.mp called
    obtain ⟨q', m', given, query', _, bound, _⟩ := sent call listed
    cases query.symm.trans query'
    rw [binds, if_pos (empty.mpr nothing)] at bound
    cases bound
  · subst own
    obtain ⟨q', m', given, query', fresh, bound, rendered⟩ := sent call listed
    cases query.symm.trans query'
    rw [binds] at bound
    split at bound
    · cases bound
    · cases bound
      refine ⟨_, (Plan.anew_ofPlan fresh _).symm.trans rendered, fun plain => ?_⟩
      rw [← values, distinctValues_eq]
      exact ⟨Value.distinct_eq_eraseDups plain, fun v member => Value.countP_distinct plain member⟩

/-- What is below a statement without rows is left out, and so is all below that. -/
theorem Kept.below (kept : Kept p calls o) (decided : ∀ (k above : Nat) (q : QueryNode),
      p.queries[k]? = some q → q.parent = some above → Decided p calls o k above) {k : Nat}
    (under : p.Under (o.skipped ++ o.degraded) k) : k ∈ o.skipped := by
  have leftOut : ∀ {k above : Nat} {q : QueryNode}, p.queries[k]? = some q → q.parent = some above →
      o.rows[above]? = some [] → k ∈ o.skipped := by
    intro k above q query parent none
    obtain ⟨label, _, skipped, _⟩ := decided k above q query parent
    rw [none] at skipped
    exact skipped.mpr rfl
  induction under with
  | child query hangs listed =>
      refine leftOut query hangs ?_
      rcases List.mem_append.mp listed with skipped | degraded
      · exact kept.rows_skipped skipped
      · rw [kept.degraded, failedQueries] at degraded
        obtain ⟨call, failed, rfl⟩ := List.mem_map.mp degraded
        obtain ⟨inCalls, refused⟩ := List.mem_filter.mp failed
        rw [kept.rows_call inCalls]
        cases answer : call.2 with
        | ok rows => simp [answer, Except.isOk, Except.toBool] at refused
        | error failure => rfl
  | further query hangs _ ih => exact leftOut query hangs (kept.rows_skipped ih)

/-- In a run of new statements that succeeds, each statement is answered, degraded or skipped. It is
skipped exactly if the rows above it hold nothing that it is linked on, as they do below what is skipped
or degraded, and is otherwise sent once, with each of these values once, as first seen. The calls of the
database are as many as there are statements issued, and the counters agree with them. -/
theorem run_accounted {σ : Type u} (declared : s.Declared) {format : String}
    (built : Plan.build s.catalog format plural request = .ok p) {options : ExecutionOptions}
    {prepared : PreparedPlan} (fresh : PreparedPlan.ofPlan p options = .ok prepared) (db : Database σ)
    (state : σ) (done : (run db options p prepared.memos state).result = .ok o) :
    let traced := run db.traced options p prepared.memos (state, [])
    let log := (run db options p prepared.memos state).log
    traced.result = .ok o ∧ traced.log = log ∧ ∃ calls : List (Job × Result (List Row)),
      traced.database.2 = calls.map exchangeOf ∧ Accounted p calls o ∧ Metered calls o log := by
  have valid := Plan.build_over declared built
  have sound := declared.sound
  obtain ⟨memos, made, count, new⟩ := Plan.ofPlan_memos valid sound options
  cases fresh.symm.trans made
  have alone : ∀ {τ : Type u} (db : Database τ) (state : τ), run db options p memos state =
      runLevels db options p p.levels state memos (.ofPlan p) :=
    fun db state => if_neg fun different => different count
  rw [alone] at done ⊢
  rw [alone]
  have same := (traced_notes db).runLevels options p p.levels state [] memos (.ofPlan p)
  have completes := completes_runLevels db options p p.levels state memos (.ofPlan p) done
  obtain ⟨kept, metered⟩ := completes.whole valid
  obtain ⟨skips, sent⟩ := completes.bound valid List.drop_zero.symm fun k q query _ => new k q query
  have skips := fun k leftOut => (skips k leftOut).resolve_left List.not_mem_nil
  simp only [same]
  have decided := fun k above q query parent =>
    @Kept.decided s p plural request _ o valid sound kept skips sent k above q query parent
  refine ⟨done, trivial, _, rfl, ?_, metered⟩
  constructor
  · exact kept.count
  · exact kept.once
  · exact kept.degraded
  · exact fun k inside => kept.fate inside
  · constructor
    · intro leftOut
      obtain ⟨q, m, query, _, none⟩ := skips 0 leftOut
      have alone : bound p o.rows q m = .ok (some m) := by
        simp only [bound, (valid.query_first sound query).2.1]
      cases alone.symm.trans none
    · intro call listed first
      obtain ⟨q, m, given, query, fresh, binds, rendered⟩ := sent call listed
      rw [first] at query fresh
      have alone : bound p o.rows q m = .ok (some m) := by
        simp only [bound, (valid.query_first sound query).2.1]
      cases alone.symm.trans binds
      rw [← rendered, (Sql.Memo.coherent_ofPlan fresh).statement.1, Plan.rootQuery_ofPlan fresh,
        Sql.Memo.batch_ofPlan fresh]
  · exact decided
  · exact fun k under => kept.below decided under

end Whole

/-- The user is answered, and the articles, which are refused, are degraded. -/
theorem run_accounted_titles : ∃ p prepared o calls,
    Plan.build Schema.blog.catalog "user" true Plan.titles = .ok p ∧
      PreparedPlan.ofPlan p .standard = .ok prepared ∧
      (run usersOnly.database .standard p prepared.memos ()).result = .ok o ∧
      (run usersOnly.database.traced .standard p prepared.memos ((), [])).database.2 =
        calls.map exchangeOf ∧
      Accounted p calls o ∧
      Metered calls o (run usersOnly.database .standard p prepared.memos ()).log ∧
      o.degraded = [1] := by
  have planned : ∃ p prepared o, Plan.build Schema.blog.catalog "user" true Plan.titles = .ok p ∧
      PreparedPlan.ofPlan p .standard = .ok prepared ∧
      (run usersOnly.database .standard p prepared.memos ()).result = .ok o ∧ o.degraded = [1] :=
    ⟨_, _, _, rfl, rfl, rfl, rfl⟩
  obtain ⟨p, prepared, o, built, fresh, done, refused⟩ := planned
  obtain ⟨_, _, calls, asked, accounted, metered⟩ :=
    run_accounted Schema.blog_declared built fresh usersOnly.database () done
  exact ⟨p, prepared, o, calls, built, fresh, done, asked, accounted, metered, refused⟩

end Execution
end NestedQuery
