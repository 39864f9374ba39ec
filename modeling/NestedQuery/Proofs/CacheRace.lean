/- Calls of one cache whose steps interleave: whose request the plan that a call is given carries. -/
import NestedQuery.Proofs.PlanKey

namespace NestedQuery

namespace Plan

theorem build_requests {catalog : Catalog} {format : String} {plural : Bool} {request : Request}
    {plan : Plan} (built : build catalog format plural request = .ok plan) :
    plan.data.map (·.request) = request.preorder := by
  obtain ⟨data, grown, rfl⟩ := Result.map_eq_ok.mp built
  obtain ⟨root, _, grown⟩ := Result.bind_eq_ok.mp grown
  exact arena_requests request grown

theorem build_root {catalog : Catalog} {format : String} {plural : Bool} {request : Request}
    {plan : Plan} (built : build catalog format plural request = .ok plan) :
    ∃ root, plan.data.head? = some root ∧ root.request = request := by
  obtain ⟨data, grown, rfl⟩ := Result.map_eq_ok.mp built
  obtain ⟨root, _, grown⟩ := Result.bind_eq_ok.mp grown
  obtain ⟨n, others, rfl, _, same⟩ := arena_head grown
  exact ⟨n, rfl, same⟩

end Plan

namespace PlanCache

structure Demand where
  format : String
  plural : Bool
  request : Request

namespace Demand

def key (d : Demand) : PlanKey := .ofRequest d.format d.plural d.request

def build (catalog : Catalog) (d : Demand) : Result Plan :=
  Plan.build catalog d.format d.plural d.request

end Demand

/-- How a call came by its plan. -/
inductive Origin where
  /-- Built by the call, which also keeps it. -/
  | kept
  /-- Found under an equal request. -/
  | found
  /-- Copied from a plan of the same shape, with the values of the call. -/
  | rebound
  /-- Kept by another call after this one had looked for it. -/
  | overtaken
  deriving DecidableEq, Repr

inductive Stage where
  | waiting
  | missed
  | built (plan : Plan)
  | returned (origin : Origin) (shared : SharedPlan)
  | failed (error : QueryError)

/-- The next step of a call: the look-up, on a miss the building, and then the insertion, each of
which no other call can interrupt. -/
def advance (catalog : Catalog) (c : PlanCache) (d : Demand) : Stage → Stage × PlanCache
  | .waiting =>
    match c.find? d.key with
    | none => (.missed, c)
    | some kept =>
      if kept.plan.data.head?.any (·.request == d.request) then (.returned .found kept, c)
      else
        match kept.plan.rebind d.request with
        | .ok plan => (.returned .rebound (c.number plan).1, (c.number plan).2)
        | .error error => (.failed error, c)
  | .missed =>
    match d.build catalog with
    | .ok plan => (.built plan, c)
    | .error error => (.failed error, c)
  | .built plan =>
    let (own, c) := c.number plan
    let origin := if (c.find? d.key).isNone then .kept else .overtaken
    let (shared, c) := c.insertIfAbsent d.key own
    (.returned origin shared, c)
  | .returned origin shared => (.returned origin shared, c)
  | .failed error => (.failed error, c)

def Stage.result (c : PlanCache) : Stage → Option (Result (SharedPlan × PlanCache))
  | .returned _ shared => some (.ok (shared, c))
  | .failed error => some (.error error)
  | _ => none

/-- Steps that nothing interrupts do what one call does. -/
theorem advance_get (catalog : Catalog) (c : PlanCache) (d : Demand) :
    let first := advance catalog c d .waiting
    let second := advance catalog first.2 d first.1
    let third := advance catalog second.2 d second.1
    third.1.result third.2 = some (c.get catalog d.format d.plural d.request).2 := by
  cases found : c.find? d.key with
  | some kept =>
      simp only [advance, found, get]
      rw [show PlanKey.ofRequest d.format d.plural d.request = d.key from rfl, found]
      by_cases equal : kept.plan.data.head?.any (·.request == d.request) = true
      · simp only [equal, if_true]
        rfl
      · simp only [equal]
        cases kept.plan.rebind d.request <;> rfl
  | none =>
      have missed : advance catalog c d .waiting = (.missed, c) := by simp only [advance, found]
      have get_eq : (c.get catalog d.format d.plural d.request).2 = (do
          let plan ← d.build catalog
          return (c.number plan).2.insertIfAbsent d.key (c.number plan).1) := by
        simp only [get]
        rw [show PlanKey.ofRequest d.format d.plural d.request = d.key from rfl, found]
        rfl
      rw [get_eq]
      cases built : d.build catalog with
      | error e =>
          have failed : advance catalog c d .missed = (.failed e, c) := by simp only [advance, built]
          simp only [missed, failed]
          rfl
      | ok plan =>
          have done : advance catalog c d .missed = (.built plan, c) := by simp only [advance, built]
          simp only [missed, done]
          rfl

structure Caller where
  demand : Demand
  stage : Stage

structure World where
  cache : PlanCache
  callers : List Caller

namespace World

def start (demands : List Demand) : World := ⟨.empty, demands.map (⟨·, .waiting⟩)⟩

def step (catalog : Catalog) (w : World) (i : Nat) : World :=
  match w.callers[i]? with
  | none => w
  | some caller =>
    let next := advance catalog w.cache caller.demand caller.stage
    ⟨next.2, w.callers.set i ⟨caller.demand, next.1⟩⟩

/-- The calls take their steps in the order of the schedule. -/
def run (catalog : Catalog) (demands : List Demand) (schedule : List Nat) : World :=
  schedule.foldl (step catalog) (start demands)

def KeptBy (w : World) (i : Nat) (d : Demand) (shared : SharedPlan) : Prop :=
  w.callers[i]? = some ⟨d, .returned .kept shared⟩

/-- Where the plan of a call comes from, by how the call came by it. -/
def Explained (catalog : Catalog) (w : World) (d : Demand) (shared : SharedPlan) : Origin → Prop
  | .kept => d.build catalog = .ok shared.plan
  | .rebound => d.build catalog = .ok shared.plan
  | .found => ∃ j other, w.KeptBy j other shared ∧ other.key = d.key ∧
      (other.request == d.request) = true
  | .overtaken => ∃ j other, w.KeptBy j other shared ∧ other.key = d.key

/-- What a call knows at a stage. -/
def Justified (catalog : Catalog) (w : World) (d : Demand) : Stage → Prop
  | .built plan => d.build catalog = .ok plan
  | .returned origin shared => w.Explained catalog d shared origin
  | _ => True

/-- What holds however the steps interleave. -/
structure Sound (catalog : Catalog) (w : World) : Prop where
  entries : ∀ key shared, (key, shared) ∈ w.cache.entries →
    ∃ j other, w.KeptBy j other shared ∧ other.key = key
  callers : ∀ caller ∈ w.callers, caller.demand.request.NamesOnce ∧
    w.Justified catalog caller.demand caller.stage

theorem Sound.kept {catalog : Catalog} {w : World} (sound : w.Sound catalog) {i : Nat} {d : Demand}
    {shared : SharedPlan} (kept : w.KeptBy i d shared) : d.build catalog = .ok shared.plan :=
  (sound.callers _ (List.mem_of_getElem? kept)).2

/-- A plan in the cache was built by a call for the key that it is found under. -/
theorem Sound.found {catalog : Catalog} {w : World} (sound : w.Sound catalog) {key : PlanKey}
    {shared : SharedPlan} (found : w.cache.find? key = some shared) :
    ∃ j other, w.KeptBy j other shared ∧ other.key = key := by
  obtain ⟨front, back, entries, _⟩ := List.lookup_eq_some_iff.mp found
  refine sound.entries key shared ?_
  rw [entries]
  exact List.mem_append_right _ (List.mem_cons_self ..)

theorem KeptBy.step {catalog : Catalog} {w : World} {j : Nat} {other : Demand} {shared : SharedPlan}
    (kept : w.KeptBy j other shared) (i : Nat) : (w.step catalog i).KeptBy j other shared := by
  unfold World.step
  cases found : w.callers[i]? with
  | none => exact kept
  | some caller =>
      by_cases same : i = j
      · subst same
        cases found.symm.trans kept
        simp only [KeptBy, advance]
        rw [List.getElem?_set_self (List.getElem?_eq_some_iff.mp found).1]
      · simp only [KeptBy]
        rw [List.getElem?_set_ne same]
        exact kept

theorem Justified.step {catalog : Catalog} {w : World} {d : Demand} {stage : Stage}
    (justified : w.Justified catalog d stage) (i : Nat) :
    (w.step catalog i).Justified catalog d stage := by
  cases stage with
  | returned origin shared =>
      cases origin with
      | kept => exact justified
      | rebound => exact justified
      | found =>
          obtain ⟨j, other, kept, facts⟩ := justified
          exact ⟨j, other, kept.step i, facts⟩
      | overtaken =>
          obtain ⟨j, other, kept, facts⟩ := justified
          exact ⟨j, other, kept.step i, facts⟩
  | _ => exact justified

/-- A plan in the cache, given the values of a call for its key, is the plan of that call. -/
theorem Sound.rebind {catalog : Catalog} {w : World} (sound : w.Sound catalog) {j : Nat}
    {other d : Demand} {shared : SharedPlan} (kept : w.KeptBy j other shared)
    (sameKey : other.key = d.key) : shared.plan.rebind d.request = d.build catalog := by
  obtain ⟨formats, plurals, shapes⟩ := PlanKey.sameShape sameKey
  have once := (sound.callers _ (List.mem_of_getElem? kept)).1
  rw [Plan.rebind_eq_build (sound.kept kept) shapes once, formats, plurals]
  rfl

/-- A step of a call is justified by the plans in the cache, and adds at most the call's own. -/
theorem Sound.advance {catalog : Catalog} {w : World} (sound : w.Sound catalog) {d : Demand}
    {stage : Stage} (member : ⟨d, stage⟩ ∈ w.callers) :
    let next := PlanCache.advance catalog w.cache d stage
    w.Justified catalog d next.1 ∧ ∀ key shared, (key, shared) ∈ next.2.entries →
      (key, shared) ∈ w.cache.entries ∨ key = d.key ∧ next.1 = .returned .kept shared := by
  obtain ⟨_, justified⟩ := sound.callers _ member
  cases stage with
  | waiting =>
      cases found : w.cache.find? d.key with
      | none =>
          simp only [PlanCache.advance, found]
          exact ⟨trivial, fun _ _ old => .inl old⟩
      | some kept =>
          obtain ⟨j, other, keptBy, sameKey⟩ := sound.found found
          by_cases equal : kept.plan.data.head?.any (·.request == d.request) = true
          · simp only [PlanCache.advance, found, equal, if_true]
            refine ⟨⟨j, other, keptBy, sameKey, ?_⟩, fun _ _ old => .inl old⟩
            obtain ⟨root, first, request⟩ := Plan.build_root (sound.kept keptBy)
            rw [← request]
            simpa only [first, Option.any_some] using equal
          · cases rebound : kept.plan.rebind d.request with
            | error e =>
                simp only [PlanCache.advance, found, equal, rebound]
                exact ⟨trivial, fun _ _ old => .inl old⟩
            | ok plan =>
                simp only [PlanCache.advance, found, equal, rebound]
                exact ⟨(sound.rebind keptBy sameKey).symm.trans rebound, fun _ _ old => .inl old⟩
  | missed =>
      simp only [PlanCache.advance]
      cases built : d.build catalog with
      | error e => exact ⟨trivial, fun _ _ old => .inl old⟩
      | ok plan => exact ⟨built, fun _ _ old => .inl old⟩
  | built plan =>
      cases found : (w.cache.number plan).2.find? d.key with
      | none =>
          simp only [PlanCache.advance, insertIfAbsent, found]
          refine ⟨justified, fun key shared held => ?_⟩
          rcases List.mem_append.mp held with old | new
          · exact .inl old
          · cases List.mem_singleton.mp new
            exact .inr ⟨rfl, rfl⟩
      | some shared =>
          simp only [PlanCache.advance, insertIfAbsent, found]
          exact ⟨sound.found found, fun _ _ old => .inl old⟩
  | returned origin shared => exact ⟨justified, fun _ _ old => .inl old⟩
  | failed e => exact ⟨trivial, fun _ _ old => .inl old⟩

theorem Sound.step {catalog : Catalog} {w : World} (sound : w.Sound catalog) (i : Nat) :
    (w.step catalog i).Sound catalog := by
  cases found : w.callers[i]? with
  | none =>
      have same : w.step catalog i = w := by simp only [World.step, found]
      rw [same]
      exact sound
  | some caller =>
      obtain ⟨d, stage⟩ := caller
      have member := List.mem_of_getElem? found
      obtain ⟨justified, entries⟩ := sound.advance member
      have stepped : w.step catalog i = ⟨(PlanCache.advance catalog w.cache d stage).2,
          w.callers.set i ⟨d, (PlanCache.advance catalog w.cache d stage).1⟩⟩ := by
        simp only [World.step, found]
      refine ⟨fun key shared held => ?_, fun caller known => ?_⟩
      · rw [stepped] at held
        rcases entries key shared held with old | ⟨rfl, new⟩
        · obtain ⟨j, other, kept, sameKey⟩ := sound.entries key shared old
          exact ⟨j, other, kept.step i, sameKey⟩
        · refine ⟨i, d, ?_, rfl⟩
          rw [stepped, KeptBy, new]
          exact List.getElem?_set_self (List.getElem?_eq_some_iff.mp found).1
      · have cases := known
        rw [stepped] at cases
        rcases List.mem_or_eq_of_mem_set cases with old | rfl
        · exact ⟨(sound.callers _ old).1, (sound.callers _ old).2.step i⟩
        · exact ⟨(sound.callers _ member).1, justified.step i⟩

theorem start_sound (catalog : Catalog) {demands : List Demand}
    (once : ∀ d ∈ demands, d.request.NamesOnce) : (start demands).Sound catalog := by
  refine ⟨nofun, fun caller member => ?_⟩
  obtain ⟨d, known, rfl⟩ := List.mem_map.mp member
  exact ⟨once d known, trivial⟩

theorem run_sound (catalog : Catalog) {demands : List Demand}
    (once : ∀ d ∈ demands, d.request.NamesOnce) (schedule : List Nat) :
    (run catalog demands schedule).Sound catalog := by
  have steps : ∀ w : World, w.Sound catalog →
      (schedule.foldl (World.step catalog) w).Sound catalog := by
    induction schedule with
    | nil => exact fun w sound => sound
    | cons i rest ih => exact fun w sound => ih _ (sound.step i)
  exact steps _ (start_sound catalog once)

/-- Whatever the interleaving, a call is given a plan that carries its own request at every node,
unless that plan is kept by a call with another request: one that was first to insert although both
had missed, or one whose request is equal without being the same. -/
theorem returned_requests_iff {catalog : Catalog} {demands : List Demand}
    (once : ∀ d ∈ demands, d.request.NamesOnce) {schedule : List Nat} {i : Nat} {d : Demand}
    {origin : Origin} {shared : SharedPlan}
    (returned : (run catalog demands schedule).callers[i]? = some ⟨d, .returned origin shared⟩) :
    shared.plan.data.map (·.request) = d.request.preorder ↔
      ¬∃ j other, (run catalog demands schedule).KeptBy j other shared ∧ other.key = d.key ∧
        (origin = .overtaken ∨ origin = .found ∧ (other.request == d.request) = true) ∧
        other.request ≠ d.request := by
  have sound := run_sound catalog once schedule
  constructor
  · rintro own ⟨j, other, kept, _, _, different⟩
    have theirs := Plan.build_requests (sound.kept kept)
    exact different (Request.preorder_inj (theirs.symm.trans own))
  · intro undisturbed
    have explained := (sound.callers _ (List.mem_of_getElem? returned)).2
    cases origin with
    | kept => exact Plan.build_requests explained
    | rebound => exact Plan.build_requests explained
    | found =>
        obtain ⟨j, other, kept, sameKey, equal⟩ := explained
        by_cases same : other.request = d.request
        · exact same ▸ Plan.build_requests (sound.kept kept)
        · exact absurd ⟨j, other, kept, sameKey, .inr ⟨rfl, equal⟩, same⟩ undisturbed
    | overtaken =>
        obtain ⟨j, other, kept, sameKey⟩ := explained
        by_cases same : other.request = d.request
        · exact same ▸ Plan.build_requests (sound.kept kept)
        · exact absurd ⟨j, other, kept, sameKey, .inl rfl, same⟩ undisturbed

def userById (id : Int64) : Demand :=
  ⟨"user", true, ⟨some ["name"], [], ⟨some (.compare .eq "id" (.int id)), [], none, none⟩⟩⟩

theorem userById_namesOnce : ∀ d ∈ [userById 1, userById 2], d.request.NamesOnce := by
  simp [userById, Request.NamesOnce, Request.NamesOnceBelow]

/-- A second call that comes after the first is given a copy with its own values. -/
theorem returned_requests_userById : ∃ shared,
    (run Schema.blog.catalog [userById 1, userById 2] [0, 0, 0, 1]).callers[1]? =
        some ⟨userById 2, .returned .rebound shared⟩ ∧
      shared.plan.data.map (·.request) = (userById 2).request.preorder := by
  have copied : ∃ shared, (run Schema.blog.catalog [userById 1, userById 2] [0, 0, 0, 1]).callers[1]? =
      some ⟨userById 2, .returned .rebound shared⟩ := ⟨_, rfl⟩
  obtain ⟨shared, returned⟩ := copied
  refine ⟨shared, returned, (returned_requests_iff userById_namesOnce returned).mpr ?_⟩
  rintro ⟨j, other, _, _, overtaken | ⟨found, _⟩, _⟩
  · cases overtaken
  · cases found

/-- A call is not always given its own request: if both miss and build before either inserts, the
second one is handed the plan of the first. -/
theorem not_always_own_request : ¬∀ (catalog : Catalog) (demands : List Demand),
    (∀ d ∈ demands, d.request.NamesOnce) →
    ∀ (schedule : List Nat) (i : Nat) (d : Demand) (origin : Origin) (shared : SharedPlan),
      (run catalog demands schedule).callers[i]? = some ⟨d, .returned origin shared⟩ →
      shared.plan.data.head?.any (·.request == d.request) = true := by
  intro always
  have overtaken : ∃ shared,
      (run Schema.blog.catalog [userById 1, userById 2] [0, 1, 0, 1, 0, 1]).callers[1]? =
          some ⟨userById 2, .returned .overtaken shared⟩ ∧
        shared.plan.data.head?.any (·.request == (userById 2).request) = false := ⟨_, rfl, rfl⟩
  obtain ⟨shared, returned, other⟩ := overtaken
  have own := always _ _ userById_namesOnce _ _ _ _ _ returned
  rw [other] at own
  cases own

end World
end PlanCache
end NestedQuery
