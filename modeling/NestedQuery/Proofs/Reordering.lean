/- Requests that differ only in the order of their relations: what they have in common, and that they can
be planned for the same records. -/
import Mathlib.Data.List.Perm.Basic
import NestedQuery.Proofs.Arena

namespace NestedQuery

namespace Request

mutual

/-- The requests differ in nothing but the order of their relations, at any node. -/
def Reordered : Request → Request → Prop
  | ⟨fields, relations, query⟩, other => other.fields = fields ∧ other.query = query ∧
    ∃ matched, ReorderedBelow relations matched ∧ matched.Perm other.relations

/-- The same relations in the same order, with requests that are reordered themselves. -/
def ReorderedBelow : List (String × Request) → List (String × Request) → Prop
  | [], others => others = []
  | (name, request) :: rest, others => ∃ other later, others = (name, other) :: later ∧
    Reordered request other ∧ ReorderedBelow rest later

end

theorem reorderedBelow_iff {relations matched : List (String × Request)} :
    ReorderedBelow relations matched ↔
      List.Forall₂ (fun a b => b.1 = a.1 ∧ a.2.Reordered b.2) relations matched := by
  induction relations generalizing matched with
  | nil => exact List.forall₂_nil_left_iff.symm
  | cons first rest ih =>
      rw [List.forall₂_cons_left_iff]
      constructor
      · rintro ⟨other, later, rfl, same, below⟩
        exact ⟨(first.1, other), later, ⟨rfl, same⟩, ih.mp below, rfl⟩
      · rintro ⟨⟨name, other⟩, later, ⟨sameName, same⟩, below, rfl⟩
        cases sameName
        exact ⟨other, later, rfl, same, ih.mpr below⟩

theorem ReorderedBelow.names {relations matched : List (String × Request)}
    (below : ReorderedBelow relations matched) : matched.map (·.1) = relations.map (·.1) := by
  refine List.forall₂_eq_eq_eq ▸ ?_
  rw [List.forall₂_map_left_iff, List.forall₂_map_right_iff]
  exact (reorderedBelow_iff.mp below).flip.imp fun _ _ same => same.1

mutual

theorem Reordered.symm : ∀ (r : Request) {s : Request}, r.Reordered s → s.Reordered r
  | ⟨fields, relations, query⟩, ⟨fields', others, query'⟩,
      ⟨sameFields, sameQuery, matched, below, perm⟩ => by
      have back := reorderedBelow_iff.mp (ReorderedBelow.symm relations below)
      obtain ⟨matched', below', perm'⟩ := List.perm_comp_forall₂ perm.symm back
      exact ⟨sameFields.symm, sameQuery.symm, matched', reorderedBelow_iff.mpr below', perm'⟩

theorem ReorderedBelow.symm : ∀ (relations : List (String × Request))
    {matched : List (String × Request)}, ReorderedBelow relations matched →
      ReorderedBelow matched relations
  | [], matched, below => by
      cases below
      rfl
  | (name, request) :: rest, matched, ⟨other, later, same, first, below⟩ => by
      subst same
      exact ⟨request, rest, rfl, Reordered.symm request first, ReorderedBelow.symm rest below⟩

end

section Node

variable {r s : Request} (reordered : r.Reordered s)
include reordered

theorem Reordered.fields_eq : s.fields = r.fields := by
  obtain ⟨fields, relations, query⟩ := r
  exact reordered.1

theorem Reordered.below :
    ∃ matched, ReorderedBelow r.relations matched ∧ matched.Perm s.relations := by
  obtain ⟨fields, relations, query⟩ := r
  exact reordered.2.2

theorem Reordered.names : (s.relations.map (·.1)).Perm (r.relations.map (·.1)) := by
  obtain ⟨matched, below, perm⟩ := reordered.below
  rw [← below.names]
  exact (perm.map _).symm

theorem Reordered.of_mem {name : String} {request : Request} (member : (name, request) ∈ r.relations) :
    ∃ other, (name, other) ∈ s.relations ∧ Reordered request other := by
  obtain ⟨matched, below, perm⟩ := reordered.below
  obtain ⟨⟨_, other⟩, listed, rfl, same⟩ := exists_related (reorderedBelow_iff.mp below) member
  exact ⟨other, perm.subset listed, same⟩

end Node

theorem namesOnceBelow_iff {relations : List (String × Request)} :
    NamesOnceBelow relations ↔ ∀ r ∈ relations, r.2.NamesOnce := by
  refine ⟨fun once r member => once.of_mem member, fun each => ?_⟩
  induction relations with
  | nil => trivial
  | cons first rest ih =>
      obtain ⟨head, tail⟩ := List.forall_mem_cons.mp each
      exact ⟨head, ih tail⟩

mutual

theorem Reordered.namesOnce : ∀ (r : Request) {s : Request}, r.Reordered s → r.NamesOnce →
    s.NamesOnce
  | ⟨fields, relations, query⟩, ⟨fields', others, query'⟩, ⟨_, _, matched, below, perm⟩, once => by
      have each := ReorderedBelow.namesOnce relations below once.2
      refine ⟨(perm.map _).nodup_iff.mp ?_, namesOnceBelow_iff.mpr fun r member => ?_⟩
      · rw [below.names]
        exact once.1
      · exact namesOnceBelow_iff.mp each r (perm.symm.subset member)

theorem ReorderedBelow.namesOnce : ∀ (relations : List (String × Request))
    {matched : List (String × Request)}, ReorderedBelow relations matched →
      NamesOnceBelow relations → NamesOnceBelow matched
  | [], matched, below, once => by
      cases below
      trivial
  | (name, request) :: rest, matched, ⟨other, later, same, first, below⟩, once => by
      subst same
      exact ⟨Reordered.namesOnce request first once.1, ReorderedBelow.namesOnce rest below once.2⟩

end

mutual

/-- The request can be planned for records of a format: its query and its fields are accepted, and so
are its relations. -/
def Fits (catalog : Catalog) (format : Format) (plural : Bool) (path : String) : Request → Prop
  | ⟨fields, relations, query⟩ => query.check format plural path = .ok () ∧
    (∀ names, fields = some names → ∀ name ∈ names, format.hasField name = true) ∧
      FitsBelow catalog format path relations

def FitsBelow (catalog : Catalog) (format : Format) (path : String) :
    List (String × Request) → Prop
  | [] => True
  | (name, request) :: rest =>
    (∃ resolved, catalog.relation format.name name = .ok resolved ∧
      Fits catalog resolved.foreignFormat resolved.plural s!"{path}.{name}" request) ∧
        FitsBelow catalog format path rest

end

variable {catalog : Catalog} {format : Format} {plural : Bool} {path : String}

theorem fitsBelow_iff {relations : List (String × Request)} :
    FitsBelow catalog format path relations ↔ ∀ r ∈ relations, ∃ resolved,
      catalog.relation format.name r.1 = .ok resolved ∧
        r.2.Fits catalog resolved.foreignFormat resolved.plural s!"{path}.{r.1}" := by
  induction relations with
  | nil => exact ⟨fun _ => List.forall_mem_nil _, fun _ => trivial⟩
  | cons first rest ih =>
      rw [List.forall_mem_cons, ← ih]
      exact Iff.rfl

mutual

theorem Reordered.fits : ∀ (r : Request) {s : Request}, r.Reordered s →
    ∀ {format : Format} {plural : Bool} {path : String},
      r.Fits catalog format plural path ↔ s.Fits catalog format plural path
  | ⟨fields, relations, query⟩, ⟨fields', others, query'⟩,
      ⟨sameFields, sameQuery, matched, below, perm⟩, format, plural, path => by
      cases sameFields
      cases sameQuery
      have each : FitsBelow catalog format path relations ↔ FitsBelow catalog format path matched :=
        ReorderedBelow.fits relations below
      have moved : FitsBelow catalog format path matched ↔ FitsBelow catalog format path others := by
        rw [fitsBelow_iff, fitsBelow_iff]
        exact forall_congr' fun r => imp_congr_left perm.mem_iff
      rw [Fits, Fits, each, moved]

theorem ReorderedBelow.fits : ∀ (relations : List (String × Request))
    {matched : List (String × Request)}, ReorderedBelow relations matched →
      ∀ {format : Format} {path : String},
        FitsBelow catalog format path relations ↔ FitsBelow catalog format path matched
  | [], matched, below, format, path => by
      cases below
      exact Iff.rfl
  | (name, request) :: rest, matched, ⟨other, later, same, first, below⟩, format, path => by
      subst same
      rw [FitsBelow, FitsBelow, ReorderedBelow.fits rest below]
      refine and_congr_left' (exists_congr fun resolved => and_congr_right' ?_)
      exact Reordered.fits request first

end

end Request

open Result (Succeeds)

variable {catalog : Catalog}

theorem Position.returned_succeeds {p : Position} {fields : Option (List String)} :
    Succeeds (p.returned fields) ↔
      ∀ names, fields = some names → ∀ name ∈ names, p.format.hasField name = true := by
  constructor
  · rintro ⟨returned, known⟩ names rfl
    obtain ⟨same, each⟩ := Position.returned_eq_ok known
    cases same
    exact each
  · intro each
    cases fields with
    | none => exact .ok _
    | some names =>
        have known : names.find? (fun name => !p.format.hasField name) = none :=
          List.find?_eq_none.mpr fun name member => by simp [each names rfl name member]
        rw [Position.returned, known]
        exact .ok _

mutual

/-- Whether a request is planned does not depend on the number of its node. -/
theorem arena_succeeds : ∀ (request : Request) {p : Position},
    Succeeds (arena catalog p request) ↔ request.Fits catalog p.format p.plural p.path
  | ⟨fields, relations, query⟩, p => by
      rw [arena, Request.Fits, ← arenaOfRelations_succeeds relations (p.id + 1),
        ← Position.returned_succeeds]
      constructor
      · rintro ⟨nodes, grown⟩
        obtain ⟨_, checked, grown⟩ := Result.bind_eq_ok.mp grown
        obtain ⟨below, grownBelow, grown⟩ := Result.bind_eq_ok.mp grown
        obtain ⟨returned, known, _⟩ := Result.bind_eq_ok.mp grown
        exact ⟨checked, ⟨returned, known⟩, below, grownBelow⟩
      · rintro ⟨checked, ⟨returned, known⟩, below, grownBelow⟩
        rw [checked, Result.ok_bind, grownBelow, Result.ok_bind, known]
        exact .ok _

theorem arenaOfRelations_succeeds : ∀ (relations : List (String × Request)) {p : Position}
    (next : Nat), Succeeds (arenaOfRelations catalog p next relations) ↔
      Request.FitsBelow catalog p.format p.path relations
  | [], p, next => ⟨fun _ => trivial, fun _ => .ok _⟩
  | (name, request) :: rest, p, next => by
      rw [arenaOfRelations, Request.FitsBelow]
      constructor
      · rintro ⟨grown, done⟩
        obtain ⟨resolved, found, done⟩ := Result.bind_eq_ok.mp done
        obtain ⟨first, grownFirst, done⟩ := Result.bind_eq_ok.mp done
        obtain ⟨later, grownRest, _⟩ := Result.bind_eq_ok.mp done
        refine ⟨⟨resolved, Position.resolve_eq_ok.mp found, ?_⟩,
          (arenaOfRelations_succeeds rest _).mp ⟨later, grownRest⟩⟩
        exact (arena_succeeds request).mp ⟨first, grownFirst⟩
      · rintro ⟨⟨resolved, found, fits⟩, fitsRest⟩
        obtain ⟨first, grownFirst⟩ :=
          (arena_succeeds request (p := p.below next resolved name)).mpr fits
        obtain ⟨later, grownRest⟩ :=
          (arenaOfRelations_succeeds rest (next + first.length)).mpr fitsRest
        simp only [Position.resolve_eq_ok.mpr found, Result.ok_bind]
        refine Succeeds.bind ⟨first, grownFirst⟩ fun _ same => ?_
        cases grownFirst.symm.trans same
        rw [grownRest]
        exact .ok _

end

/-- Requests that differ in the order of their relations are both planned or both refused. -/
theorem Plan.build_reordered {format : String} {plural : Bool} {r s : Request}
    (reordered : r.Reordered s) :
    Succeeds (build catalog format plural r) ↔ Succeeds (build catalog format plural s) := by
  have fits : ∀ request : Request, Succeeds (build catalog format plural request) ↔
      ∃ root, catalog.format format = .ok root ∧ request.Fits catalog root plural format := by
    intro request
    constructor
    · rintro ⟨p, built⟩
      obtain ⟨data, grown, rfl⟩ := Result.map_eq_ok.mp built
      obtain ⟨root, known, grown⟩ := Result.bind_eq_ok.mp grown
      exact ⟨root, known, (arena_succeeds request).mp ⟨data, grown⟩⟩
    · rintro ⟨root, known, fits⟩
      obtain ⟨data, grown⟩ :=
        (arena_succeeds request (p := ⟨0, root, plural, none, none, format⟩)).mpr fits
      exact ⟨ofNodes data, Result.map_eq_ok.mpr ⟨data, by rw [rootArena, known]; exact grown, rfl⟩⟩
  rw [fits r, fits s]
  exact exists_congr fun root => and_congr_right' (Request.Reordered.fits r reordered)

end NestedQuery
