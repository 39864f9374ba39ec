/- Which requests are planned: those of which every part fits the records that its route leads to. All
others are refused for a reason of configuration, with no statement made and nothing sent. -/
import NestedQuery.Engine
import NestedQuery.Proofs.Declaration
import NestedQuery.Proofs.Preorder

namespace NestedQuery

namespace Result

variable {α β : Type u} {x : Result α} {P Q : Prop}

/-- Succeeds exactly under a condition, and is otherwise refused for a reason of configuration. -/
structure Decides (x : Result α) (P : Prop) : Prop where
  succeeds_iff : Succeeds x ↔ P
  refused : ∀ e, x = .error e → ∃ fault, e = .configuration fault

theorem Decides.ok (a : α) (holds : P) : Decides (.ok a : Result α) P :=
  ⟨iff_of_true ⟨a, rfl⟩ holds, nofun⟩

theorem Decides.refuse {fault : ConfigurationFault} (fails : ¬P) :
    Decides (refuse fault : Result α) P := by
  refine ⟨iff_of_false ?_ fails, ?_⟩
  · rintro ⟨a, accepted⟩
    cases accepted
  · rintro e ⟨⟩
    exact ⟨fault, rfl⟩

theorem Decides.iff (decides : Decides x P) (same : P ↔ Q) : Decides x Q :=
  ⟨decides.succeeds_iff.trans same, decides.refused⟩

/-- Two steps succeed if the first one does and the second one does with what it gives. -/
theorem Decides.bind {f : α → Result β} {Q : α → Prop} (first : Decides x P)
    (later : ∀ a, x = .ok a → Decides (f a) (Q a)) :
    Decides (x >>= f) (∃ a, x = .ok a ∧ Q a) := by
  cases x with
  | error e =>
      refine ⟨iff_of_false ?_ ?_, ?_⟩
      · rintro ⟨b, accepted⟩
        cases accepted
      · rintro ⟨a, accepted, _⟩
        cases accepted
      · rintro _ ⟨⟩
        exact first.refused e rfl
  | ok a =>
      refine (later a rfl).iff ?_
      constructor
      · intro holds
        exact ⟨a, rfl, holds⟩
      · rintro ⟨_, ⟨⟩, holds⟩
        exact holds

/-- A second step that does not depend on what the first one gives. -/
theorem Decides.and {f : α → Result β} (first : Decides x P)
    (later : ∀ a, x = .ok a → Decides (f a) Q) : Decides (x >>= f) (P ∧ Q) := by
  refine (first.bind later).iff ?_
  rw [← first.succeeds_iff]
  exact exists_and_right

theorem Decides.mapError {ε : Type} {y : Except ε α} {f : ε → QueryError}
    (succeeds : (∃ a, y = .ok a) ↔ P)
    (refused : ∀ e, y = .error e → ∃ fault, f e = .configuration fault) :
    Decides (y.mapError f : Result α) P := by
  constructor
  · rw [← succeeds]
    exact exists_congr fun a => mapError_eq_ok
  · cases y with
    | ok a => exact nofun
    | error e =>
        rintro _ ⟨⟩
        exact refused e rfl

end Result

open Result (Succeeds Decides)

/-- A list is searched for a member that is not known. -/
theorem Result.decides_of_find? {α β : Type} {xs : List α} {known : α → Bool} {x : Result β} {b : β}
    (unknown : ∀ a, xs.find? (fun a => !known a) = some a → ∃ fault, x = refuse fault)
    (passed : xs.find? (fun a => !known a) = none → x = .ok b) :
    Decides x (∀ a ∈ xs, known a = true) := by
  cases search : xs.find? fun a => !known a with
  | some a =>
      obtain ⟨fault, rfl⟩ := unknown a search
      apply Decides.refuse
      intro all
      have fails := List.find?_some search
      rw [all a (List.mem_of_find?_eq_some search)] at fails
      cases fails
  | none =>
      rw [passed search]
      apply Decides.ok
      intro a member
      simpa using List.find?_eq_none.mp search a member

namespace Filter

/-- A field is named somewhere in a filter. -/
inductive Mentions (field : String) : Filter → Prop
  | compare (comparison : Comparison) (value : Value) : Mentions field (.compare comparison field value)
  | isIn (values : List Value) : Mentions field (.isIn field values)
  | isNull : Mentions field (.isNull field)
  | isNotNull : Mentions field (.isNotNull field)
  | like (pattern : String) : Mentions field (.like field pattern)
  | all {filters : List Filter} {f : Filter} (listed : f ∈ filters) (inside : Mentions field f) :
      Mentions field (.all filters)
  | any {filters : List Filter} {f : Filter} (listed : f ∈ filters) (inside : Mentions field f) :
      Mentions field (.any filters)
  | not {f : Filter} (inside : Mentions field f) : Mentions field (.not f)

mutual

theorem mem_fields {field : String} : ∀ f : Filter, field ∈ f.fields ↔ f.Mentions field
  | .compare comparison name value => by
      rw [fields, List.mem_singleton]
      exact ⟨by rintro rfl; exact .compare comparison value, by rintro ⟨⟩; rfl⟩
  | .isIn name values => by
      rw [fields, List.mem_singleton]
      exact ⟨by rintro rfl; exact .isIn values, by rintro ⟨⟩; rfl⟩
  | .isNull name => by
      rw [fields, List.mem_singleton]
      exact ⟨by rintro rfl; exact .isNull, by rintro ⟨⟩; rfl⟩
  | .isNotNull name => by
      rw [fields, List.mem_singleton]
      exact ⟨by rintro rfl; exact .isNotNull, by rintro ⟨⟩; rfl⟩
  | .like name pattern => by
      rw [fields, List.mem_singleton]
      exact ⟨by rintro rfl; exact .like pattern, by rintro ⟨⟩; rfl⟩
  | .all filters => by
      rw [fields, mem_fieldsOfAll filters]
      constructor
      · rintro ⟨f, listed, inside⟩
        exact .all listed inside
      · intro mentioned
        cases mentioned with
        | all listed inside => exact ⟨_, listed, inside⟩
  | .any filters => by
      rw [fields, mem_fieldsOfAll filters]
      constructor
      · rintro ⟨f, listed, inside⟩
        exact .any listed inside
      · intro mentioned
        cases mentioned with
        | any listed inside => exact ⟨_, listed, inside⟩
  | .not f => by
      rw [fields, mem_fields f]
      constructor
      · exact .not
      · intro mentioned
        cases mentioned with
        | not inside => exact inside

theorem mem_fieldsOfAll {field : String} : ∀ fs : List Filter,
    field ∈ fieldsOfAll fs ↔ ∃ f ∈ fs, f.Mentions field
  | [] => by
      simp [fieldsOfAll]
  | f :: rest => by
      rw [fieldsOfAll, List.mem_append, mem_fields f, mem_fieldsOfAll rest, List.exists_mem_cons_iff]

end

theorem check_decides (f : Filter) (format : Format) (path : String) :
    Decides (f.check format path) (∀ field, f.Mentions field → format.hasField field = true) := by
  simp only [← mem_fields]
  apply Result.decides_of_find?
  · intro field unknown
    rw [check, unknown]
    exact ⟨_, rfl⟩
  · intro passed
    rw [check, passed]

end Filter

namespace Query

/-- Pages and their sizes start at 1, a page comes with a size, and neither a page nor what comes before
it has more rows than can be counted. -/
structure Countable (q : Query) : Prop where
  sized : q.page.isSome → q.pageSize.isSome
  page : ∀ page, q.page = some page → 1 ≤ page.toNat
  size : ∀ size, q.pageSize = some size → 1 ≤ size.toNat ∧ size.toNat ≤ 2 ^ 63 - 1
  before : ∀ page size, q.page = some page → q.pageSize = some size →
    (page.toNat - 1) * size.toNat ≤ 2 ^ 63 - 1

/-- What a query asks for of one record or of many is there. -/
structure Fits (q : Query) (format : Format) (plural : Bool) : Prop where
  single : plural = false → q.sort = [] ∧ q.page = none ∧ q.pageSize = none
  countable : q.Countable
  sort : ∀ key ∈ q.sort, format.hasField key.field = true
  filter : ∀ f, q.filter = some f → ∀ field, f.Mentions field → format.hasField field = true

theorem one_le_toNat {n : UInt64} (positive : n ≠ 0) : 1 ≤ n.toNat := by
  rw [Nat.one_le_iff_ne_zero]
  intro zero
  exact positive (UInt64.toNat_inj.mp zero)

theorem checkPage_decides (q : Query) (path : String) : Decides (q.checkPage path) q.Countable := by
  unfold checkPage
  split
  · next page given absent =>
      apply Decides.refuse
      intro countable
      have sized := countable.sized (by rw [given]; rfl)
      rw [absent] at sized
      cases sized
  · next given _ =>
      apply Decides.refuse
      intro countable
      exact absurd (countable.page 0 given) (by decide)
  · next given _ =>
      apply Decides.refuse
      intro countable
      exact absurd (countable.size 0 given).1 (by decide)
  · next size positive given notZero =>
      have first : ∀ page, q.page = some page → 1 ≤ page.toNat := by
        intro page stored
        apply one_le_toNat
        rintro rfl
        exact notZero stored
      have counted : q.Countable ↔
          size.toNat < 2 ^ 63 ∧ ((q.page.getD 1).toNat - 1) * size.toNat < 2 ^ 63 := by
        constructor
        · intro countable
          have fits := (countable.size size given).2
          refine ⟨by omega, ?_⟩
          cases stored : q.page with
          | none => simp
          | some page =>
              have before := countable.before page size stored given
              rw [Option.getD_some]
              omega
        · rintro ⟨fits, before⟩
          refine ⟨?_, first, ?_, ?_⟩
          · intro _
            rw [given]
            rfl
          · intro other same
            cases given.symm.trans same
            have least := one_le_toNat positive
            omega
          · intro page other stored same
            cases given.symm.trans same
            rw [stored, Option.getD_some] at before
            omega
      simp only []
      split
      · next fits => exact .ok () (counted.mpr fits)
      · next exceeds => exact .refuse (mt counted.mp exceeds)
  · next noPage noSize =>
      apply Decides.ok
      constructor
      · rw [noPage]
        exact nofun
      · rw [noPage]
        exact nofun
      · rw [noSize]
        exact nofun
      · rw [noPage]
        exact nofun

def checkSingle (q : Query) (plural : Bool) (path : String) : Result Unit :=
  if !plural && (!q.sort.isEmpty || q.page.isSome || q.pageSize.isSome) then
    refuse (.singleRecord path)
  else .ok ()

def checkSort (q : Query) (format : Format) (path : String) : Result Unit :=
  match q.sort.find? (fun s => !format.hasField s.field) with
  | some s => refuse (.unknownSortField path s.field)
  | none => .ok ()

def checkFilter (q : Query) (format : Format) (path : String) : Result Unit :=
  match q.filter with
  | some filter => filter.check format path
  | none => .ok ()

theorem check_eq (q : Query) (format : Format) (plural : Bool) (path : String) :
    q.check format plural path = (do
      q.checkSingle plural path
      q.checkPage path
      q.checkSort format path
      q.checkFilter format path) := by
  unfold check checkSingle checkSort
  cases !plural && (!q.sort.isEmpty || q.page.isSome || q.pageSize.isSome) with
  | true => rfl
  | false =>
      cases q.sort.find? fun s => !format.hasField s.field with
      | some s => rfl
      | none => rfl

theorem checkSingle_decides (q : Query) (plural : Bool) (path : String) :
    Decides (q.checkSingle plural path)
      (plural = false → q.sort = [] ∧ q.page = none ∧ q.pageSize = none) := by
  unfold checkSingle
  split
  · next asked =>
      apply Decides.refuse
      intro alone
      simp only [Bool.and_eq_true, Bool.not_eq_true'] at asked
      obtain ⟨sort, page, size⟩ := alone asked.1
      simp [sort, page, size] at asked
  · next absent =>
      apply Decides.ok
      intro one
      simpa [one, and_assoc] using absent

theorem checkSort_decides (q : Query) (format : Format) (path : String) :
    Decides (q.checkSort format path) (∀ key ∈ q.sort, format.hasField key.field = true) := by
  apply Result.decides_of_find?
  · intro key unknown
    rw [checkSort, unknown]
    exact ⟨_, rfl⟩
  · intro passed
    rw [checkSort, passed]

theorem checkFilter_decides (q : Query) (format : Format) (path : String) :
    Decides (q.checkFilter format path)
      (∀ f, q.filter = some f → ∀ field, f.Mentions field → format.hasField field = true) := by
  unfold checkFilter
  cases q.filter with
  | none => exact .ok () nofun
  | some f =>
      apply (f.check_decides format path).iff
      simp only [Option.some.injEq, forall_eq']

/-- A query is accepted exactly if it fits. -/
theorem check_decides (q : Query) (format : Format) (plural : Bool) (path : String) :
    Decides (q.check format plural path) (q.Fits format plural) := by
  rw [check_eq]
  have all := (q.checkSingle_decides plural path).and fun _ _ => (q.checkPage_decides path).and
    fun _ _ => (q.checkSort_decides format path).and fun _ _ => q.checkFilter_decides format path
  apply all.iff
  constructor
  · rintro ⟨single, countable, sort, filter⟩
    exact ⟨single, countable, sort, filter⟩
  · intro fits
    exact ⟨fits.single, fits.countable, fits.sort, fits.filter⟩

end Query

namespace Schema

variable {s : Schema}

/-- Relations with the names of a route lead from records of one format, one or many, to records of
another one. -/
inductive Leads (s : Schema) : Format → Bool → List String → Format → Bool → Prop
  | here (format : Format) (plural : Bool) : Leads s format plural [] format plural
  | along {format foreign last : Format} {plural many : Bool} {side : NamedSide} {route : List String}
      (declared : side ∈ s.relations) (owner : side.owner = format.name)
      (registered : foreign ∈ s.formats)
      (opposite : foreign.name = (side.relation.endpoint side.side.opposite).format)
      (later : Leads s foreign (side.relation.pluralFrom side.side) route last many) :
      Leads s format plural (side.name :: route) last many

/-- A look-up gives what is declared, seen from the side that has the name. -/
theorem Declared.resolveRelation_iff (declared : s.Declared) {owner name : String}
    {r : ResolvedRelation} : s.resolveRelation owner name = .ok r ↔
      ∃ side ∈ s.relations, side.owner = owner ∧ side.name = name ∧
        ∃ foreign ∈ s.formats, foreign.name = (side.relation.endpoint side.side.opposite).format ∧
          r = ⟨side.relation, side.side, foreign⟩ := by
  constructor
  · intro resolved
    unfold resolveRelation at resolved
    split at resolved
    · cases resolved
    · next side known =>
        obtain ⟨foreign, registered, resolved⟩ := Result.bind_eq_ok.mp resolved
        have found := requireFormat_eq_ok.mp registered
        have named := List.find?_some known
        simp only [Bool.and_eq_true, beq_iff_eq] at named
        exact ⟨side, List.mem_of_find?_eq_some known, named.1, named.2, foreign,
          List.mem_of_find?_eq_some found, format?_name found, (Except.ok.inj resolved).symm⟩
  · rintro ⟨side, member, rfl, rfl, foreign, registered, opposite, rfl⟩
    obtain ⟨found, known, resolved⟩ := (declared.lawfulSide member).resolved
    have again := declared.keyed.formats foreign registered
    rw [Registered, opposite, known] at again
    cases again
    exact resolved

/-- A look-up that fails is refused. -/
theorem resolveRelation_refused (s : Schema) {owner name : String} :
    ∀ e, s.resolveRelation owner name = .error e → ∃ fault, e = .configuration fault := by
  intro e refused
  unfold resolveRelation requireFormat at refused
  split at refused
  · cases refused
    exact ⟨_, rfl⟩
  · split at refused
    · cases refused
    · cases refused
      exact ⟨_, rfl⟩

/-- A route leads on from where its first relation leads. -/
theorem Declared.leads_cons (declared : s.Declared) {format last : Format} {plural many : Bool}
    {name : String} {route : List String} {r : ResolvedRelation}
    (resolved : s.resolveRelation format.name name = .ok r) :
    s.Leads format plural (name :: route) last many ↔ s.Leads r.foreignFormat r.plural route last many := by
  constructor
  · intro leads
    cases leads with
    | along member owner registered opposite later =>
        have here := declared.resolveRelation_iff.mpr
          ⟨_, member, owner, rfl, _, registered, opposite, rfl⟩
        cases resolved.symm.trans here
        exact later
  · intro leads
    obtain ⟨side, member, owner, rfl, foreign, registered, opposite, rfl⟩ :=
      declared.resolveRelation_iff.mp resolved
    exact .along member owner registered opposite leads

end Schema

namespace Request

/-- What a part of a request asks for is there at one record of a format, or at many. -/
structure FitsAt (part : Request) (s : Schema) (format : Format) (plural : Bool) : Prop where
  fields : ∀ names, part.fields = some names → ∀ name ∈ names, format.hasField name = true
  relations : ∀ r ∈ part.relations, ∃ side ∈ s.relations, side.owner = format.name ∧ side.name = r.1
  query : part.query.Fits format plural

/-- Every part of a request fits the records that its route leads to. -/
def FitsFrom (request : Request) (s : Schema) (format : Format) (plural : Bool) : Prop :=
  ∀ part ∈ request.routed, ∃ last many, s.Leads format plural part.1 last many ∧ part.2.FitsAt s last many

theorem mem_routedBelow {relations : List (String × Request)} {part : List String × Request} :
    part ∈ routedBelow relations ↔
      ∃ r ∈ relations, ∃ inner ∈ r.2.routed, part = (r.1 :: inner.1, inner.2) := by
  induction relations with
  | nil => simp [routedBelow]
  | cons first rest ih =>
      rw [routedBelow, List.mem_append, ih, List.exists_mem_cons_iff, List.mem_map]
      simp only [eq_comm]

/-- A request fits if its own part does, and what it asks for by each relation fits from there. -/
theorem fitsFrom_iff {s : Schema} (declared : s.Declared) {request : Request} {format : Format}
    {plural : Bool} : request.FitsFrom s format plural ↔
      request.query.Fits format plural ∧
        (∀ r ∈ request.relations, ∃ resolved, s.resolveRelation format.name r.1 = .ok resolved ∧
          r.2.FitsFrom s resolved.foreignFormat resolved.plural) ∧
        ∀ names, request.fields = some names → ∀ name ∈ names, format.hasField name = true := by
  obtain ⟨fields, relations, query⟩ := request
  constructor
  · intro fits
    rw [FitsFrom, routed, List.forall_mem_cons] at fits
    obtain ⟨⟨last, many, leads, own⟩, below⟩ := fits
    cases leads with
    | here =>
      refine ⟨own.query, ?_, own.fields⟩
      intro r listed
      obtain ⟨side, member, owner, name⟩ := own.relations r listed
      obtain ⟨foreign, _, resolved⟩ := (declared.lawfulSide member).resolved
      rw [owner, name] at resolved
      refine ⟨_, resolved, ?_⟩
      intro part inside
      obtain ⟨last, many, leads, fits⟩ := below _ (mem_routedBelow.mpr ⟨r, listed, part, inside, rfl⟩)
      exact ⟨last, many, (declared.leads_cons resolved).mp leads, fits⟩
  · rintro ⟨fits, below, known⟩
    rw [FitsFrom, routed, List.forall_mem_cons]
    constructor
    · refine ⟨format, plural, .here format plural, known, ?_, fits⟩
      intro r listed
      obtain ⟨resolved, found, _⟩ := below r listed
      obtain ⟨side, member, owner, name, _⟩ := declared.resolveRelation_iff.mp found
      exact ⟨side, member, owner, name⟩
    · intro part inside
      obtain ⟨r, listed, inner, member, rfl⟩ := mem_routedBelow.mp inside
      obtain ⟨resolved, found, fitsBelow⟩ := below r listed
      obtain ⟨last, many, leads, fitsThere⟩ := fitsBelow inner member
      exact ⟨last, many, (declared.leads_cons found).mpr leads, fitsThere⟩

end Request

section Planning

variable {s : Schema}

theorem Position.resolve_decides (p : Position) (name : String) :
    Decides (p.resolve s.catalog name) (∃ resolved, s.resolveRelation p.format.name name = .ok resolved) := by
  apply Decides.mapError Iff.rfl
  intro e failed
  obtain ⟨fault, rfl⟩ := s.resolveRelation_refused e failed
  exact ⟨_, rfl⟩

theorem Position.returned_decides (p : Position) (fields : Option (List String)) :
    Decides (p.returned fields)
      (∀ names, fields = some names → ∀ name ∈ names, p.format.hasField name = true) := by
  cases fields with
  | none => exact .ok _ nofun
  | some names =>
      simp only [Option.some.injEq, forall_eq']
      apply Result.decides_of_find?
      · intro name unknown
        rw [returned, unknown]
        exact ⟨_, rfl⟩
      · intro passed
        rw [returned, passed]

mutual

theorem arena_decides (declared : s.Declared) : ∀ (request : Request) (p : Position),
    Decides (arena s.catalog p request) (request.FitsFrom s p.format p.plural)
  | ⟨fields, relations, query⟩, p => by
      rw [arena]
      have checked := query.check_decides p.format p.plural p.path
      have below := arenaOfRelations_decides declared relations p (p.id + 1)
      have known := p.returned_decides fields
      -- The node itself cannot be refused any more.
      apply (checked.and fun _ _ => below.and fun _ _ => known.and fun _ _ => .ok _ trivial).iff
      rw [Request.fitsFrom_iff declared, and_true]

theorem arenaOfRelations_decides (declared : s.Declared) :
    ∀ (relations : List (String × Request)) (p : Position) (next : Nat),
      Decides (arenaOfRelations s.catalog p next relations)
        (∀ r ∈ relations, ∃ resolved, s.resolveRelation p.format.name r.1 = .ok resolved ∧
          r.2.FitsFrom s resolved.foreignFormat resolved.plural)
  | [], p, next => .ok _ nofun
  | (name, request) :: rest, p, next => by
      rw [arenaOfRelations]
      have later : ∀ next, Decides (arenaOfRelations s.catalog p next rest) _ :=
        arenaOfRelations_decides declared rest p
      apply ((p.resolve_decides name).bind fun resolved _ =>
        (arena_decides declared request (p.below next resolved name)).and fun first _ =>
          (later (next + first.length)).and fun _ _ => .ok _ trivial).iff
      simp only [List.forall_mem_cons, and_true, Position.resolve_eq_ok]
      constructor
      · rintro ⟨resolved, found, here, others⟩
        exact ⟨⟨resolved, found, here⟩, others⟩
      · rintro ⟨⟨resolved, found, here⟩, others⟩
        exact ⟨resolved, found, here, others⟩

end

theorem Plan.build_decides (declared : s.Declared) (format : String) (plural : Bool) (request : Request) :
    Decides (Plan.build s.catalog format plural request)
      (∃ root ∈ s.formats, root.name = format ∧ request.FitsFrom s root plural) := by
  have found : Decides (s.requireFormat format) (∃ root, s.format? format = some root) := by
    constructor
    · exact exists_congr fun root => Schema.requireFormat_eq_ok
    · intro e failed
      unfold Schema.requireFormat at failed
      split at failed
      · cases failed
      · cases failed
        exact ⟨_, rfl⟩
  have rooted := found.bind fun root _ => arena_decides declared request (.top format root plural)
  have grown := rooted.and fun nodes _ => Decides.ok (Plan.ofNodes nodes) trivial
  apply grown.iff
  rw [and_true]
  apply exists_congr
  intro root
  rw [Schema.requireFormat_eq_ok, ← and_assoc]
  apply and_congr_left
  intro _
  constructor
  · intro known
    exact ⟨List.mem_of_find?_eq_some known, Schema.format?_name known⟩
  · rintro ⟨registered, rfl⟩
    exact declared.keyed.formats root registered

/-- A request is planned exactly if its format is registered and each of its parts fits the records that
its route leads to. Otherwise it is refused for a reason of configuration, with nothing sent. -/
theorem Plan.build_iff_fits (declared : s.Declared) (format : String) (plural : Bool)
    (request : Request) :
    ((∃ p, Plan.build s.catalog format plural request = .ok p) ↔
      ∃ root ∈ s.formats, root.name = format ∧ ∀ part ∈ request.routed, ∃ last many,
        s.Leads root plural part.1 last many ∧ part.2.FitsAt s last many) ∧
    ∀ e, Plan.build s.catalog format plural request = .error e →
      (∃ fault, e = .configuration fault) ∧
        ∀ {σ : Type} (db : Database σ) (state : σ),
          planAndExecute s.catalog db state format plural request = ⟨state, [], 0, .error e⟩ := by
  have decides := Plan.build_decides declared format plural request
  refine ⟨decides.succeeds_iff, ?_⟩
  intro e refused
  refine ⟨decides.refused e refused, ?_⟩
  intro σ db state
  rw [planAndExecute, refused]
  rfl

/-- Users with their articles and one page of the author of each. -/
def pagedAuthors : Request :=
  ⟨none, [("articles", ⟨none, [("author", ⟨none, [], ⟨none, [], none, some 1⟩⟩)], .empty⟩)], .empty⟩

theorem Plan.build_iff_fits_blog :
    (∃ root ∈ Schema.blog.formats, root.name = "user" ∧ ∀ part ∈ taggedArticles.routed,
      ∃ last many, Schema.blog.Leads root true part.1 last many ∧
        part.2.FitsAt Schema.blog last many) ∧
    ¬(∃ root ∈ Schema.blog.formats, root.name = "user" ∧ ∀ part ∈ pagedAuthors.routed,
      ∃ last many, Schema.blog.Leads root true part.1 last many ∧
        part.2.FitsAt Schema.blog last many) ∧
    ∀ {σ : Type} (db : Database σ) (state : σ),
      planAndExecute Schema.blog.catalog db state "user" true pagedAuthors =
        ⟨state, [], 0, .error (.configuration (.singleRecord "user.articles.author"))⟩ := by
  have refused : Plan.build Schema.blog.catalog "user" true pagedAuthors =
      .error (.configuration (.singleRecord "user.articles.author")) := rfl
  have accepted := (Plan.build_iff_fits Schema.blog_declared "user" true taggedArticles).1
  obtain ⟨rejected, failures⟩ := Plan.build_iff_fits Schema.blog_declared "user" true pagedAuthors
  refine ⟨accepted.mp ⟨_, rfl⟩, ?_, (failures _ refused).2⟩
  rw [← rejected, refused]
  rintro ⟨p, built⟩
  cases built

end Planning

end NestedQuery
