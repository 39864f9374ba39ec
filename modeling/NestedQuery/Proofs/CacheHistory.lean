/- A cache that is asked one call after another gives what planning anew gives, with the same errors,
and keeps one plan for each key that was planned since it was cleared. -/
import Mathlib.Data.List.Dedup
import NestedQuery.Proofs.CacheRace
import NestedQuery.Proofs.Procedure
import NestedQuery.Proofs.RequestEquality

namespace NestedQuery.PlanCache

/-- What every request is that can be made: it keeps its relations by their names, so that each is named
once, and the numbers of the JSON documents in it are finite. -/
def Demand.Proper (d : Demand) : Prop := d.request.NamesOnce ∧ d.request.Finite

/-- What may be asked of a cache. -/
inductive Call where
  | get (demand : Demand)
  | clear

def answer (catalog : Catalog) (c : PlanCache) (d : Demand) : Result (SharedPlan × PlanCache) :=
  (c.get catalog d.format d.plural d.request).2

section InPlace

open Procedure

/-- A plan that is found is given, or copied for another request; else one is planned and kept. -/
def serve (catalog : Catalog) (d : Demand) : Procedure PlanCache SharedPlan := do
  match (← MonadState.get).find? d.key with
  | some kept =>
    if kept.plan.data.head?.any (·.request == d.request) then return kept
    let copy ← attempt (kept.plan.rebind d.request)
    modifyGet (·.number copy)
  | none =>
    let plan ← attempt (d.build catalog)
    let shared ← modifyGet (·.number plan)
    modifyGet (·.insertIfAbsent d.key shared)

/-- The cache that a call leaves behind, whether it fails or not. -/
def step (catalog : Catalog) (c : PlanCache) : Call → PlanCache
  | .get d => (serve catalog d).leave c
  | .clear => c.clear

end InPlace

def after (catalog : Catalog) (calls : List Call) : PlanCache := calls.foldl (step catalog) .empty

/-- The keys that are known after a call: those of all requests since the last clearing that can be
planned. -/
def noteKey (catalog : Catalog) (keys : List PlanKey) : Call → List PlanKey
  | .get d => if (d.build catalog).isOk then keys ++ [d.key] else keys
  | .clear => []

def plannedKeys (catalog : Catalog) (calls : List Call) : List PlanKey :=
  calls.foldl (noteKey catalog) []

section

variable {catalog : Catalog} {c : PlanCache} {keys : List PlanKey} {d : Demand}

/-- Every plan that is kept was built for its key, and there is one for each of these keys. -/
structure Faithful (catalog : Catalog) (c : PlanCache) (keys : List PlanKey) : Prop where
  built : ∀ key shared, (key, shared) ∈ c.entries →
    ∃ other : Demand, other.key = key ∧ other.request.NamesOnce ∧
      other.build catalog = .ok shared.plan
  once : (c.entries.map (·.1)).Nodup
  keys : ∀ key, key ∈ c.entries.map (·.1) ↔ key ∈ keys

theorem empty_faithful : Faithful catalog .empty [] :=
  ⟨nofun, List.nodup_nil, fun _ => Iff.rfl⟩

theorem find?_eq_none_iff {key : PlanKey} :
    c.find? key = none ↔ key ∉ c.entries.map (·.1) := by
  rw [find?, List.lookup_eq_none_iff]
  constructor
  · intro absent listed
    obtain ⟨entry, member, rfl⟩ := List.mem_map.mp listed
    exact bne_iff_ne.mp (absent entry member) rfl
  · intro absent entry member
    refine bne_iff_ne.mpr ?_
    rintro rfl
    exact absent (List.mem_map_of_mem member)

/-- A plan that is found, given the values of a demand for its key, is the plan of that demand. -/
theorem Faithful.rebind (faithful : Faithful catalog c keys) {kept : SharedPlan}
    (found : c.find? d.key = some kept) :
    kept.plan.rebind d.request = d.build catalog ∧
      ∃ r, kept.plan.data.head?.map (·.request) = some r ∧
        Plan.build catalog d.format d.plural r = .ok kept.plan := by
  obtain ⟨front, back, entries, _⟩ := List.lookup_eq_some_iff.mp found
  have member : (d.key, kept) ∈ c.entries := by
    rw [entries]
    exact List.mem_append_right _ (List.mem_cons_self ..)
  obtain ⟨other, sameKey, once, built⟩ := faithful.built _ _ member
  obtain ⟨formats, plurals, shapes⟩ := PlanKey.sameShape sameKey
  have here : Plan.build catalog d.format d.plural other.request = .ok kept.plan := by
    rw [← formats, ← plurals]
    exact built
  refine ⟨Plan.rebind_eq_build here shapes once, other.request, ?_, here⟩
  obtain ⟨root, first, request⟩ := Plan.build_root here
  rw [first, ← request]
  rfl

/-- A plan that is found is given as it is if it was built for an equal request, and else is copied. -/
theorem answer_of_found {kept : SharedPlan} (found : c.find? d.key = some kept) :
    c.answer catalog d = if kept.plan.data.head?.any (·.request == d.request) then .ok (kept, c)
      else (kept.plan.rebind d.request).map c.number := by
  simp only [answer, get]
  rw [show PlanKey.ofRequest d.format d.plural d.request = d.key from rfl, found]

/-- A plan that is not found is planned and kept. -/
theorem answer_of_missing (missing : c.find? d.key = none) : c.answer catalog d = (do
    let plan ← d.build catalog
    return (c.number plan).2.insertIfAbsent d.key (c.number plan).1) := by
  simp only [answer, get]
  rw [show PlanKey.ofRequest d.format d.plural d.request = d.key from rfl, missing]
  rfl

/-- A call in place gives what the call gives, and leaves the cache as it was if that is a failure. -/
theorem serve_run (catalog : Catalog) (c : PlanCache) (d : Demand) : (serve catalog d).run c =
    match c.answer catalog d with
    | .ok (shared, next) => .ok shared next
    | .error error => .error error c := by
  cases found : c.find? d.key with
  | some kept =>
      rw [answer_of_found found]
      simp only [serve, EStateM.run_bind, EStateM.run_get, found]
      cases kept.plan.data.head?.any (·.request == d.request) with
      | true => rfl
      | false => cases kept.plan.rebind d.request <;> rfl
  | none =>
      rw [answer_of_missing found]
      simp only [serve, EStateM.run_bind, EStateM.run_get, found]
      cases d.build catalog <;> rfl

theorem step_of_given {shared : SharedPlan} {next : PlanCache}
    (given : c.answer catalog d = .ok (shared, next)) : c.step catalog (.get d) = next := by
  rw [step, Procedure.leave, serve_run, given]

theorem step_of_failed {e : QueryError} (failed : c.answer catalog d = .error e) :
    c.step catalog (.get d) = c := by
  rw [step, Procedure.leave, serve_run, failed]

/-- How a call ends: it fails as planning does, or it gives the plan, which is found, copied or new. -/
inductive Answered (catalog : Catalog) (c : PlanCache) (d : Demand) : Prop
  | failed {e : QueryError} (refused : d.build catalog = .error e)
      (answer_eq : c.answer catalog d = .error e)
  | hit {kept shared : SharedPlan} {next : PlanCache} {plan : Plan}
      (planned : d.build catalog = .ok plan) (found : c.find? d.key = some kept)
      (answer_eq : c.answer catalog d = .ok (shared, next)) (alike : shared.plan.Alike plan)
      (entries : next.entries = c.entries)
  | kept {next : PlanCache} {shared : SharedPlan} (planned : d.build catalog = .ok shared.plan)
      (missing : c.find? d.key = none) (answer_eq : c.answer catalog d = .ok (shared, next))
      (entries : next.entries = c.entries ++ [(d.key, shared)])

theorem Faithful.answered (faithful : Faithful catalog c keys) (proper : d.Proper) :
    Answered catalog c d := by
  have self : (d.request == d.request) = true := Request.equal_self d.request proper.2
  cases found : c.find? d.key with
  | some kept =>
      obtain ⟨rebound, r, first, built⟩ := faithful.rebind found
      have answer_eq : c.answer catalog d = _ := answer_of_found found
      obtain ⟨root, head, rfl⟩ := Option.map_eq_some_iff.mp first
      rw [head, Option.any_some] at answer_eq
      cases same : root.request == d.request with
      | true =>
          obtain ⟨plan, planned, alike⟩ := Plan.build_of_equal built same
          rw [same, if_pos rfl] at answer_eq
          exact .hit planned found answer_eq alike rfl
      | false =>
          rw [same, if_neg Bool.false_ne_true, rebound] at answer_eq
          cases planned : d.build catalog with
          | error e =>
              rw [planned] at answer_eq
              exact .failed planned answer_eq
          | ok plan =>
              rw [planned] at answer_eq
              obtain ⟨again, replanned, alike⟩ := Plan.build_of_equal planned self
              cases planned.symm.trans replanned
              exact .hit planned found answer_eq alike rfl
  | none =>
      have answer_eq : c.answer catalog d = _ := answer_of_missing found
      cases planned : d.build catalog with
      | error e =>
          rw [planned] at answer_eq
          exact .failed planned answer_eq
      | ok plan =>
          have absent : (c.number plan).2.find? d.key = none := found
          rw [planned, Result.ok_bind, insertIfAbsent, absent] at answer_eq
          exact .kept planned found answer_eq rfl

namespace Answered

theorem alike (answered : Answered catalog c d) (finite : d.request.Finite) {shared : SharedPlan}
    {next : PlanCache} (given : c.answer catalog d = .ok (shared, next)) :
    ∃ plan, d.build catalog = .ok plan ∧ shared.plan.Alike plan := by
  cases answered with
  | failed refused answer_eq => cases answer_eq.symm.trans given
  | @hit _ _ _ plan planned _ answer_eq alike =>
      cases answer_eq.symm.trans given
      exact ⟨plan, planned, alike⟩
  | kept planned _ answer_eq =>
      cases answer_eq.symm.trans given
      obtain ⟨again, replanned, alike⟩ :=
        Plan.build_of_equal planned (Request.equal_self d.request finite)
      cases Eq.trans planned.symm replanned
      exact ⟨_, planned, alike⟩

end Answered

theorem Faithful.step (faithful : Faithful catalog c keys) {call : Call}
    (proper : ∀ d, call = .get d → d.Proper) :
    Faithful catalog (c.step catalog call) (noteKey catalog keys call) := by
  cases call with
  | clear => exact ⟨nofun, List.nodup_nil, fun _ => Iff.rfl⟩
  | get d =>
      cases faithful.answered (proper d rfl) with
      | failed refused answer_eq =>
          simp only [step_of_failed answer_eq, noteKey, refused]
          exact faithful
      | @hit kept shared next plan planned found answer_eq alike entries =>
          have known : d.key ∈ keys := by
            rw [← faithful.keys]
            refine Decidable.byContradiction fun absent => ?_
            cases found.symm.trans (find?_eq_none_iff.mpr absent)
          simp only [step_of_given answer_eq, noteKey, planned]
          refine ⟨?_, ?_, fun key => ?_⟩
          · rw [entries]
            exact faithful.built
          · rw [entries]
            exact faithful.once
          · rw [entries, faithful.keys]
            change key ∈ keys ↔ key ∈ keys ++ [d.key]
            rw [List.mem_append, List.mem_singleton]
            exact ⟨.inl, fun either => either.elim id fun same => same ▸ known⟩
      | @kept next shared planned missing answer_eq entries =>
          have absent := find?_eq_none_iff.mp missing
          simp only [step_of_given answer_eq, noteKey, planned]
          refine ⟨fun key other held => ?_, ?_, fun key => ?_⟩
          · rw [entries] at held
            rcases List.mem_append.mp held with old | new
            · exact faithful.built key other old
            · cases List.mem_singleton.mp new
              exact ⟨d, rfl, (proper d rfl).1, planned⟩
          · rw [entries, List.map_append, List.nodup_append]
            refine ⟨faithful.once, List.pairwise_singleton .., ?_⟩
            intro key old other new same
            rw [List.map_singleton, List.mem_singleton] at new
            rw [same, new] at old
            exact absent old
          · rw [entries, List.map_append, List.mem_append, faithful.keys]
            change _ ↔ key ∈ keys ++ [d.key]
            rw [List.mem_append]
            rfl

theorem after_faithful {calls : List Call} (proper : ∀ d, .get d ∈ calls → d.Proper) :
    Faithful catalog (after catalog calls) (plannedKeys catalog calls) := by
  have steps : ∀ (c : PlanCache) (keys : List PlanKey), Faithful catalog c keys →
      Faithful catalog (calls.foldl (step catalog) c) (calls.foldl (noteKey catalog) keys) := by
    induction calls with
    | nil => exact fun c keys faithful => faithful
    | cons call rest ih =>
        intro c keys faithful
        refine ih (fun d later => proper d (List.mem_cons_of_mem _ later)) _ _ (faithful.step ?_)
        rintro d rfl
        exact proper d (List.mem_cons_self ..)
  exact steps _ _ empty_faithful

end

open World (userById)

theorem userById_proper (id : Int64) : (userById id).Proper := by
  refine ⟨⟨List.nodup_nil, trivial⟩, ?_, trivial⟩
  rintro filter ⟨⟩
  exact trivial

end NestedQuery.PlanCache
