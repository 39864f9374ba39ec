/- Declaring formats and relations one after another in one schema, accepted or refused: what holds of
every schema that is reached, and that nothing declared is ever lost or changed. -/
import Mathlib.Data.List.Pairwise
import NestedQuery.Proofs.Catalog
import NestedQuery.Proofs.Procedure

namespace NestedQuery
namespace Text

theorem isNameChar_of_isIdentifier {a : String} (known : isIdentifier a = true) :
    a.toList.all isNameChar = true := by
  unfold isIdentifier at known
  split at known
  · cases known
  · next first rest chars =>
      obtain ⟨start, others⟩ := Bool.and_eq_true_iff.mp known
      rw [chars, List.all_cons, Bool.and_eq_true]
      refine ⟨?_, others⟩
      simp only [isNameStart, isNameChar, Char.isAlphanum, Bool.or_eq_true] at start ⊢
      exact start.imp_left Or.inl

theorem isIdentifier_append {a b : String} (first : isIdentifier a = true)
    (later : b.toList.all isNameChar = true) : isIdentifier (a ++ b) = true := by
  unfold isIdentifier at first ⊢
  rw [String.toList_append]
  split at first
  · cases first
  · next c rest chars =>
      obtain ⟨start, others⟩ := Bool.and_eq_true_iff.mp first
      simp only [chars, List.cons_append, List.all_append, start, others, later, Bool.true_and]

theorem isIdentifier_joined {a b : String} (first : isIdentifier a = true)
    (second : isIdentifier b = true) : isIdentifier (a ++ "_" ++ b) = true := by
  refine isIdentifier_append (isIdentifier_append first (by decide)) ?_
  exact isNameChar_of_isIdentifier second

theorem checkIdentifier_ok {a : String} (known : isIdentifier a = true) :
    checkIdentifier a = .ok () := by
  unfold checkIdentifier
  split
  · next empty =>
      rw [empty] at known
      cases known
  · rfl

end Text

namespace Schema

/-- What a schema may be asked to take in. -/
inductive Declaration where
  | format (added : Format)
  | relation (added : Relation) (leftName rightName : Option String)

/-- The schema that a declaration leads to, if it is accepted. -/
def Declaration.apply (s : Schema) : Declaration → Result Schema
  | .format added => s.addFormat added
  | .relation added leftName rightName => s.relate added leftName rightName

section InPlace

open Procedure

/-- A format under its name, in the place of any other one. -/
def putFormat (s : Schema) (format : Format) : Schema :=
  { s with formats := s.formats.filter (·.name != format.name) ++ [format] }

/-- A side of a relation under its name on its owner, in the place of any other one. -/
def putSide (s : Schema) (side : NamedSide) : Schema :=
  { s with relations :=
      s.relations.filter (fun r => !(r.owner == side.owner && r.name == side.name)) ++ [side] }

def declareFormat (format : Format) : Procedure Schema Unit := do
  test fun _ => format.check
  if ((← get).format? format.name).isSome then throw (.configuration (.repeatedFormat format.name))
  modify (·.putFormat format)

/-- The checks in their order, and then the sides that have a name, one at a time. -/
def declareRelation (relation : Relation) (leftName rightName : Option String) :
    Procedure Schema Unit := do
  if leftName.isNone && rightName.isNone then
    throw (.configuration (.unnamedRelation relation.left.text relation.right.text))
  test (·.checkEndpoint relation.left)
  test (·.checkEndpoint relation.right)
  match relation.junction? with
  | some junction => test fun _ => checkJunction junction
  | none => pure ()
  (namedSides relation leftName rightName).forM fun side =>
    test (·.checkRelationName side.owner side.name)
  test fun _ => checkApart relation leftName rightName
  (namedSides relation leftName rightName).forM fun side => modify (·.putSide side)

def Declaration.declare : Declaration → Procedure Schema Unit
  | .format added => declareFormat added
  | .relation added leftName rightName => declareRelation added leftName rightName

variable {s : Schema}

theorem putFormat_fresh {format : Format} (fresh : s.format? format.name = none) :
    s.putFormat format = { s with formats := s.formats ++ [format] } := by
  have others : s.formats.filter (·.name != format.name) = s.formats := by
    refine List.filter_eq_self.mpr fun f member => ?_
    simpa using List.find?_eq_none.mp fresh f member
  rw [putFormat, others]

theorem declareFormat_run (format : Format) :
    (declareFormat format).run s = ended s (s.addFormat format) := by
  rw [declareFormat, addFormat]
  refine test_bind fun _ => ?_
  change (if (s.format? format.name).isSome then _ else _ : Procedure Schema Unit).run s = _
  cases fresh : s.format? format.name with
  | some f => rfl
  | none => exact congrArg (EStateM.Result.ok ()) (putFormat_fresh fresh)

theorem putSide_fresh {side : NamedSide} (fresh : s.side? side.owner side.name = none) :
    s.putSide side = { s with relations := s.relations ++ [side] } := by
  have others : s.relations.filter (fun r => !(r.owner == side.owner && r.name == side.name)) =
      s.relations := by
    refine List.filter_eq_self.mpr fun r member => ?_
    simpa [Decidable.imp_iff_not_or] using List.find?_eq_none.mp fresh r member
  rw [putSide, others]

/-- Under names that are new and differ, sides are only added. -/
theorem putSides_run {sides : List NamedSide} (fresh : ∀ r ∈ sides, s.side? r.owner r.name = none)
    (distinct : sides.Pairwise fun a b => ¬(a.owner = b.owner ∧ a.name = b.name)) :
    (sides.forM fun side => (modify (·.putSide side) : Procedure Schema Unit)).run s =
      .ok () { s with relations := s.relations ++ sides } := by
  induction sides generalizing s with
  | nil =>
      rw [List.append_nil]
      rfl
  | cons side rest ih =>
      obtain ⟨first, others⟩ := List.forall_mem_cons.mp fresh
      obtain ⟨apart, distinctRest⟩ := List.pairwise_cons.mp distinct
      change (rest.forM fun side => (modify (·.putSide side) : Procedure Schema Unit)).run (s.putSide side) = _
      rw [putSide_fresh first, ih ?_ distinctRest, List.append_assoc, List.singleton_append]
      intro r member
      have unknown := others r member
      simp only [side?, List.find?_append, Option.or_eq_none_iff] at unknown ⊢
      refine ⟨unknown, ?_⟩
      simpa using apart r member

/-- The last steps of a declaration: the names are checked, and their sides are put in their places. -/
theorem placeSides_run (relation : Relation) (leftName rightName : Option String) :
    ((namedSides relation leftName rightName).forM (fun side =>
        test (·.checkRelationName side.owner side.name)) >>= fun _ =>
      test (fun _ => checkApart relation leftName rightName) >>= fun _ =>
      (namedSides relation leftName rightName).forM fun side =>
        (modify (·.putSide side) : Procedure Schema Unit)).run s =
      ended s ((namedSides relation leftName rightName).forM (fun side =>
          s.checkRelationName side.owner side.name) >>= fun _ =>
        checkApart relation leftName rightName >>= fun _ =>
        .ok { s with relations := s.relations ++ namedSides relation leftName rightName }) := by
  refine forM_test_bind fun checked => test_bind fun apart => putSides_run ?_ (apart_of_check apart)
  exact fun r member => (checkRelationName_fresh (checked r member)).2

theorem declareRelation_run (relation : Relation) (leftName rightName : Option String) :
    (declareRelation relation leftName rightName).run s =
      ended s (s.relate relation leftName rightName) := by
  simp only [declareRelation, relate_eq]
  split
  · rfl
  refine test_bind fun _ => test_bind fun _ => ?_
  cases relation.junction? with
  | some junction => exact test_bind fun _ => placeSides_run relation leftName rightName
  | none => exact placeSides_run relation leftName rightName

theorem Declaration.declare_run (d : Declaration) : d.declare.run s = ended s (d.apply s) := by
  cases d with
  | format added => exact declareFormat_run added
  | relation added leftName rightName => exact declareRelation_run added leftName rightName

/-- What a declaration leaves behind, accepted or refused. -/
def Declaration.leave (s : Schema) (d : Declaration) : Schema := d.declare.leave s

/-- The schema after declarations, each of them accepted or refused. -/
def after (ds : List Declaration) : Schema := ds.foldl Declaration.leave .empty

end InPlace

theorem Declared.apply {s next : Schema} {d : Declaration} (declared : s.Declared)
    (accepted : d.apply s = .ok next) : next.Declared := by
  cases d with
  | format added => exact .addFormat declared accepted
  | relation added leftName rightName => exact .relate declared accepted

theorem Declared.leave {s : Schema} (declared : s.Declared) (d : Declaration) :
    (d.leave s).Declared := by
  rw [Declaration.leave, Procedure.leave_eq (Declaration.declare_run d)]
  cases outcome : d.apply s with
  | error error => exact declared
  | ok next => exact declared.apply outcome

theorem Declared.foldl_leave {s : Schema} (declared : s.Declared) (ds : List Declaration) :
    (ds.foldl Declaration.leave s).Declared := by
  induction ds generalizing s with
  | nil => exact declared
  | cons d rest ih => exact ih (declared.leave d)

theorem after_declared (ds : List Declaration) : (after ds).Declared := Declared.empty.foldl_leave ds

section Keys

theorem find?_eq_some_of_alone {α : Type} {xs : List α} {p : α → Bool} {x : α} (member : x ∈ xs)
    (holds : p x = true) (alone : ∀ y ∈ xs, p y = true → y = x) : xs.find? p = some x := by
  cases found : xs.find? p with
  | none => exact absurd holds (List.find?_eq_none.mp found x member)
  | some y => rw [alone y (List.mem_of_find?_eq_some found) (List.find?_some found)]

theorem side?_append {s : Schema} {sides : List NamedSide} {owner name : String} {r : NamedSide}
    (found : s.side? owner name = some r) :
    ({ s with relations := s.relations ++ sides } : Schema).side? owner name = some r := by
  simp only [side?, List.find?_append] at found ⊢
  rw [found]
  rfl

/-- Everything declared is found under its own name. -/
structure Keyed (s : Schema) : Prop where
  formats : ∀ f ∈ s.formats, s.Registered f
  relations : ∀ r ∈ s.relations, s.side? r.owner r.name = some r
  names : ∀ r ∈ s.relations, Text.isIdentifier r.name = true

theorem Keyed.addFormat {s next : Schema} {format : Format} (keyed : s.Keyed)
    (accepted : s.addFormat format = .ok next) : next.Keyed ∧ next.Registered format := by
  obtain ⟨_, fresh, rfl⟩ := addFormat_cases accepted
  have added : ({ s with formats := s.formats ++ [format] } : Schema).Registered format := by
    simp only [Registered, format?, List.find?_append] at fresh ⊢
    simp [fresh]
  refine ⟨⟨?_, keyed.relations, keyed.names⟩, added⟩
  intro f member
  rcases List.mem_append.mp member with old | new
  · exact format?_append (keyed.formats f old)
  · rw [List.mem_singleton.mp new]
    exact added

theorem Keyed.relate {s next : Schema} {relation : Relation} {leftName rightName : Option String}
    (keyed : s.Keyed) (accepted : s.relate relation leftName rightName = .ok next) :
    next.Keyed ∧
      ∀ r ∈ namedSides relation leftName rightName, next.side? r.owner r.name = some r := by
  obtain ⟨_, _, names, apart, rfl⟩ := relate_cases accepted
  have distinct := apart_of_check apart
  have added : ∀ r ∈ namedSides relation leftName rightName,
      ({ s with relations := s.relations ++ namedSides relation leftName rightName } : Schema).side?
        r.owner r.name = some r := by
    intro r member
    have fresh := (checkRelationName_fresh (names r member)).2
    simp only [side?, List.find?_append] at fresh ⊢
    rw [fresh, Option.none_or]
    refine find?_eq_some_of_alone member (by simp) fun other listed same => ?_
    by_contra differs
    have : Std.Symm fun a b : NamedSide => ¬(a.owner = b.owner ∧ a.name = b.name) :=
      ⟨fun _ _ unlike like => unlike ⟨like.1.symm, like.2.symm⟩⟩
    exact distinct.forall listed member differs (by simpa using same)
  refine ⟨⟨keyed.formats, ?_, ?_⟩, added⟩
  · intro r member
    rcases List.mem_append.mp member with old | new
    · exact side?_append (keyed.relations r old)
    · exact added r new
  · intro r member
    rcases List.mem_append.mp member with old | new
    · exact keyed.names r old
    · exact (checkRelationName_fresh (names r new)).1

theorem Declared.keyed {s : Schema} (declared : s.Declared) : s.Keyed := by
  induction declared with
  | empty => exact ⟨nofun, nofun, nofun⟩
  | addFormat _ accepted ih => exact (ih.addFormat accepted).1
  | relate _ accepted ih => exact (ih.relate accepted).1

end Keys

/-- What is known in one schema is known unchanged in another one. -/
structure KeptIn (s next : Schema) : Prop where
  formats : ∀ name f, s.format? name = some f → next.format? name = some f
  relations : ∀ owner name r, s.side? owner name = some r → next.side? owner name = some r

/-- What is declared is known, under its own names. -/
def Declaration.KnownIn (s : Schema) : Declaration → Prop
  | .format added => s.format? added.name = some added
  | .relation added leftName rightName =>
    ∀ r ∈ namedSides added leftName rightName, s.side? r.owner r.name = some r

theorem Keyed.apply {s next : Schema} {d : Declaration} (keyed : s.Keyed)
    (accepted : d.apply s = .ok next) : s.KeptIn next ∧ d.KnownIn next := by
  cases d with
  | format added =>
      refine ⟨?_, (keyed.addFormat accepted).2⟩
      obtain ⟨_, _, rfl⟩ := addFormat_cases accepted
      exact ⟨fun _ _ => format?_append, fun _ _ _ known => known⟩
  | relation added leftName rightName =>
      refine ⟨?_, (keyed.relate accepted).2⟩
      obtain ⟨_, _, _, _, rfl⟩ := relate_cases accepted
      exact ⟨fun _ _ known => known, fun _ _ _ => side?_append⟩

/-- What holds of a format that is registered: its names are identifiers, and its fields are told apart
by their names. -/
structure LawfulFormat (f : Format) : Prop extends f.Plain where
  own : Text.isIdentifier f.name = true
  some_field : f.fields ≠ []
  distinct : (f.fields.map (·.name)).Nodup

theorem lawfulFormat_of_check {f : Format} (checked : f.check = .ok ()) : LawfulFormat f := by
  have plain := Format.check_plain checked
  have distinct := Format.check_nodup checked
  simp only [Format.check, Format.named] at checked
  obtain ⟨_, own, checked⟩ := Result.bind_eq_ok.mp checked
  obtain ⟨_, _, checked⟩ := Result.bind_eq_ok.mp checked
  refine ⟨plain, Text.isIdentifier_of_check (Result.mapError_eq_ok.mp own), ?_, distinct⟩
  rintro none
  simp [none] at checked

/-- The field is one of a registered format. -/
def HasEndpoint (s : Schema) (endpoint : FieldRef) : Prop :=
  ∃ f, s.format? endpoint.format = some f ∧ f.hasField endpoint.field = true

/-- The names of a junction are identifiers, and its columns differ. -/
structure LawfulJunction (j : Junction) : Prop where
  table : Text.isIdentifier j.table = true
  left : Text.isIdentifier j.leftColumn = true
  right : Text.isIdentifier j.rightColumn = true
  distinct : j.leftColumn ≠ j.rightColumn

/-- What holds of a relation under one of its names. -/
structure LawfulSide (s : Schema) (r : NamedSide) : Prop where
  known : s.side? r.owner r.name = some r
  name : Text.isIdentifier r.name = true
  owner : (r.relation.endpoint r.side).format = r.owner
  endpoints : ∀ side, s.HasEndpoint (r.relation.endpoint side)
  no_field : ∀ f, s.format? r.owner = some f → f.hasField r.name = false
  junction : ∀ j, r.relation.junction? = some j → LawfulJunction j
  resolved : ∃ foreign, s.format? (r.relation.endpoint r.side.opposite).format = some foreign ∧
    s.resolveRelation r.owner r.name = .ok ⟨r.relation, r.side, foreign⟩

/-- Two looks at one relation, from one side and from the other. -/
structure Mirrored (x y : ResolvedRelation) : Prop where
  relation : y.relation = x.relation
  side : y.side = x.side.opposite
  local_field : y.localField = x.foreignField
  foreign_field : y.foreignField = x.localField
  junction : y.junctionColumns? = x.junctionColumns?.map fun j => ⟨j.table, j.far, j.near⟩
  plural : (x.plural, y.plural) = match x.relation.kind, x.side with
    | .oneToOne, _ => (false, false)
    | .oneToMany, .left => (true, false)
    | .oneToMany, .right => (false, true)
    | .manyToMany _, _ => (true, true)

theorem mirrored_opposite (relation : Relation) (side : Side) (f g : Format) :
    Mirrored ⟨relation, side, f⟩ ⟨relation, side.opposite, g⟩ := by
  have twice : side.opposite.opposite = side := by cases side <;> rfl
  refine ⟨rfl, rfl, rfl, congrArg relation.endpoint twice, ?_, ?_⟩
  · simp only [ResolvedRelation.junctionColumns?]
    cases side <;> cases relation.junction? <;> rfl
  · simp only [ResolvedRelation.plural, Relation.pluralFrom]
    cases relation.kind <;> cases side <;> rfl

/-- What the readers of a schema rely on. -/
structure Lawful (s : Schema) : Prop where
  formats : ∀ f ∈ s.formats, LawfulFormat f ∧ s.format? f.name = some f
  relations : ∀ r ∈ s.relations, s.LawfulSide r
  mirrored : ∀ x ∈ s.relations, ∀ y ∈ s.relations, y.relation = x.relation →
    y.side = x.side.opposite → ∃ here there, s.resolveRelation x.owner x.name = .ok here ∧
      s.resolveRelation y.owner y.name = .ok there ∧ Mirrored here there

theorem lawfulJunction_of_check {j : Junction} (checked : checkJunction j = .ok ()) :
    LawfulJunction j := by
  obtain ⟨table, left, right⟩ := checkJunction_names checked
  refine ⟨table, left, right, fun same => ?_⟩
  obtain ⟨_, _, checked⟩ := Result.bind_eq_ok.mp checked
  rw [if_pos same] at checked
  cases checked

theorem Declared.lawfulSide {s : Schema} (declared : s.Declared) {r : NamedSide}
    (member : r ∈ s.relations) : s.LawfulSide r := by
  have keyed := declared.keyed
  have sound := declared.sound.relations r member
  have known := keyed.relations r member
  obtain ⟨foreign, found, _⟩ := sound.endpoints r.side.opposite
  refine ⟨known, keyed.names r member, sound.owner_eq, sound.endpoints, sound.no_field,
    fun j declares => lawfulJunction_of_check (sound.junction j declares), foreign, found, ?_⟩
  simp only [resolveRelation, known, requireFormat_eq_ok.mpr found]
  rfl

theorem Declared.lawful {s : Schema} (declared : s.Declared) : s.Lawful := by
  refine ⟨?_, fun r member => declared.lawfulSide member, ?_⟩
  · intro f member
    exact ⟨lawfulFormat_of_check (declared.sound.formats f member), declared.keyed.formats f member⟩
  · intro x xMember y yMember relation side
    obtain ⟨f, _, here⟩ := (declared.lawfulSide xMember).resolved
    obtain ⟨g, _, there⟩ := (declared.lawfulSide yMember).resolved
    refine ⟨_, _, here, there, ?_⟩
    rw [relation, side]
    exact mirrored_opposite x.relation x.side f g

section Derived

open Text

theorem checkJunction_ok {j : Junction} (lawful : LawfulJunction j) : checkJunction j = .ok () := by
  simp only [checkJunction, List.forIn_cons, checkIdentifier_ok lawful.table,
    checkIdentifier_ok lawful.left, checkIdentifier_ok lawful.right, if_neg lawful.distinct]
  rfl

theorem derive_lawful {left right : FieldRef} (leftFormat : isIdentifier left.format = true)
    (leftField : isIdentifier left.field = true) (rightFormat : isIdentifier right.format = true)
    (rightField : isIdentifier right.field = true) : LawfulJunction (.derive left right) := by
  have table := isIdentifier_joined leftFormat rightFormat
  have leftColumn := isIdentifier_joined leftFormat leftField
  have rightColumn := isIdentifier_joined rightFormat rightField
  unfold Junction.derive
  simp only
  split
  · next same =>
      refine ⟨table, isIdentifier_append leftColumn (by decide),
        isIdentifier_append rightColumn (by decide), fun agree => ?_⟩
      -- the columns were one text, so what keeps them apart is only what is put behind it
      change toString _ ++ "_left" = toString _ ++ "_right" at agree
      rw [same] at agree
      exact absurd (String.append_right_inj _ |>.mp agree) (by decide)
  · next apart => exact ⟨table, leftColumn, rightColumn, apart⟩

theorem Lawful.endpoint {s : Schema} (lawful : s.Lawful) {endpoint : FieldRef}
    (known : s.HasEndpoint endpoint) :
    isIdentifier endpoint.format = true ∧ isIdentifier endpoint.field = true := by
  obtain ⟨f, found, hasField⟩ := known
  have registered := (lawful.formats f (List.mem_of_find?_eq_some found)).1
  obtain ⟨field, member, same⟩ := Format.hasField_iff.mp hasField
  exact ⟨format?_name found ▸ registered.own, same ▸ registered.name field member⟩

end Derived

/-- Whatever is declared and refused on the way, the schema that is reached is a lawful one, an accepted
declaration only adds to it, and a refused one leaves it as it is. A derived junction between registered
fields is never what a relation is refused for. -/
theorem lawful_after (ds : List Declaration) :
    (after ds).Lawful ∧
      (∀ d : Declaration, d.declare.run (after ds) = Procedure.ended (after ds) (d.apply (after ds))) ∧
      (∀ (d : Declaration) (next : Schema), d.declare.run (after ds) = .ok () next →
        (after ds).KeptIn next ∧ d.KnownIn next) ∧
      (∀ (d : Declaration) (error : QueryError) (next : Schema),
        d.declare.run (after ds) = .error error next → next = after ds) ∧
      ∀ left right : FieldRef, (after ds).HasEndpoint left → (after ds).HasEndpoint right →
        checkJunction (.derive left right) = .ok () := by
  have declared := after_declared ds
  refine ⟨declared.lawful, Declaration.declare_run, ?_, ?_, ?_⟩
  · intro d next run
    exact declared.keyed.apply (Procedure.ended_ok ((Declaration.declare_run d).symm.trans run))
  · intro d error next run
    exact Procedure.ended_error ((Declaration.declare_run d).symm.trans run)
  · intro left right leftKnown rightKnown
    obtain ⟨leftFormat, leftField⟩ := declared.lawful.endpoint leftKnown
    obtain ⟨rightFormat, rightField⟩ := declared.lawful.endpoint rightKnown
    exact checkJunction_ok (derive_lawful leftFormat leftField rightFormat rightField)

namespace Blog

/-- Users twice, articles, who wrote them, and tags of articles, which nobody has declared. -/
def declarations : List Declaration :=
  [.format user, .format article, .format user, .relation authorship (some "articles") (some "author"),
    .relation tagging (some "tags") none]

/-- Articles that users like, by a name that users have for them. -/
def liking : Declaration :=
  .relation (.manyToMany ⟨"article", "id"⟩ ⟨"user", "id"⟩) none (some "likes")

end Blog

/-- The second users and the tags are refused. Users who like articles are then accepted. -/
theorem lawful_after_blog :
    after Blog.declarations = ⟨[Blog.user, Blog.article],
        namedSides Blog.authorship (some "articles") (some "author")⟩ ∧
      (after Blog.declarations).Lawful ∧
      (∃ next, Blog.liking.declare.run (after Blog.declarations) = .ok () next ∧
        (after Blog.declarations).KeptIn next ∧ Blog.liking.KnownIn next) ∧
      (∃ error next, (Declaration.format Blog.article).declare.run (after Blog.declarations) =
        .error error next ∧ next = after Blog.declarations) ∧
      checkJunction (.derive ⟨"article", "id"⟩ ⟨"user", "id"⟩) = .ok () := by
  obtain ⟨lawful, same, accepted, refused, junctions⟩ := lawful_after Blog.declarations
  have taken : Blog.liking.declare.run (after Blog.declarations) = .ok () _ := rfl
  have again : (Declaration.format Blog.article).declare.run (after Blog.declarations) =
    .error (.configuration (.repeatedFormat "article")) _ := rfl
  have users : (after Blog.declarations).HasEndpoint ⟨"user", "id"⟩ := ⟨Blog.user, rfl, rfl⟩
  have articles : (after Blog.declarations).HasEndpoint ⟨"article", "id"⟩ := ⟨Blog.article, rfl, rfl⟩
  exact ⟨rfl, lawful, ⟨_, taken, accepted _ _ taken⟩, ⟨_, _, again, refused _ _ _ again⟩,
    junctions _ _ articles users⟩

end Schema
end NestedQuery
