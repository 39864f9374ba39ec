/- What holds of every schema that comes about by accepted declarations: a relation is known on a
registered format, and the two fields that it matches exist. -/
import NestedQuery.Catalog.Schema
import NestedQuery.Proofs.Result

namespace NestedQuery

theorem Text.isIdentifier_of_check {s : String} (checked : Text.checkIdentifier s = .ok ()) :
    Text.isIdentifier s = true := by
  unfold Text.checkIdentifier at checked
  split at checked
  · cases checked
  · split at checked
    · assumption
    · cases checked

theorem Text.isColumnType_of_check {s : String} (checked : Text.checkColumnType s = .ok ()) :
    Text.isColumnType s = true := by
  unfold Text.checkColumnType at checked
  split at checked
  · assumption
  · cases checked

namespace Format

/-- The names and types that a format brings into a statement. -/
structure Plain (f : Format) : Prop where
  table : Text.isIdentifier f.table = true
  name : ∀ field ∈ f.fields, Text.isIdentifier field.name = true
  column : ∀ field ∈ f.fields, Text.isIdentifier field.column = true
  type : ∀ field ∈ f.fields, ∀ type, field.type = some type → Text.isColumnType type = true

theorem checkFields_names {f : Format} {before : List String} {fields : List Field}
    (checked : f.checkFields before fields = .ok ()) :
    ∀ field ∈ fields, Text.isIdentifier field.name = true ∧
      Text.isIdentifier field.column = true ∧
      ∀ type, field.type = some type → Text.isColumnType type = true := by
  induction fields generalizing before with
  | nil => exact nofun
  | cons field rest ih =>
      simp only [checkFields, named] at checked
      obtain ⟨_, name, checked⟩ := Result.bind_eq_ok.mp checked
      obtain ⟨_, column, checked⟩ := Result.bind_eq_ok.mp checked
      obtain ⟨type, tail⟩ : (∀ type, field.type = some type → Text.isColumnType type = true) ∧
          f.checkFields (field.name :: before) rest = .ok () := by
        split at checked
        · next type given =>
            obtain ⟨_, known, checked⟩ := Result.bind_eq_ok.mp checked
            split at checked
            · cases checked
            · refine ⟨?_, checked⟩
              intro other again
              cases given.symm.trans again
              exact Text.isColumnType_of_check (Result.mapError_eq_ok.mp known)
        · next absent =>
            obtain ⟨_, _, checked⟩ := Result.bind_eq_ok.mp checked
            split at checked
            · cases checked
            · refine ⟨?_, checked⟩
              intro type given
              cases absent.symm.trans given
      exact List.forall_mem_cons.mpr ⟨⟨Text.isIdentifier_of_check (Result.mapError_eq_ok.mp name),
        Text.isIdentifier_of_check (Result.mapError_eq_ok.mp column), type⟩, ih tail⟩

theorem checkFields_nodup {f : Format} {before : List String} {fields : List Field}
    (checked : f.checkFields before fields = .ok ()) :
    (fields.map (·.name)).Nodup ∧ ∀ field ∈ fields, field.name ∉ before := by
  induction fields generalizing before with
  | nil => exact ⟨.nil, List.forall_mem_nil _⟩
  | cons field rest ih =>
      simp only [checkFields, named] at checked
      obtain ⟨_, _, checked⟩ := Result.bind_eq_ok.mp checked
      obtain ⟨_, _, checked⟩ := Result.bind_eq_ok.mp checked
      have fresh : field.name ∉ before ∧ f.checkFields (field.name :: before) rest = .ok () := by
        split at checked
        all_goals
          obtain ⟨_, _, checked⟩ := Result.bind_eq_ok.mp checked
          split at checked
          · cases checked
          · next absent => exact ⟨fun listed => absent (List.contains_iff_mem.mpr listed), checked⟩
      obtain ⟨absent, tail⟩ := fresh
      obtain ⟨nodup, later⟩ := ih tail
      refine ⟨List.nodup_cons.mpr ⟨?_, nodup⟩, List.forall_mem_cons.mpr ⟨absent, ?_⟩⟩
      · intro again
        obtain ⟨other, listed, same⟩ := List.mem_map.mp again
        exact later other listed (same ▸ List.mem_cons_self ..)
      · exact fun other listed inBefore => later other listed (List.mem_cons_of_mem _ inBefore)

theorem check_nodup {f : Format} (checked : f.check = .ok ()) : (f.fields.map (·.name)).Nodup := by
  simp only [check] at checked
  obtain ⟨_, _, checked⟩ := Result.bind_eq_ok.mp checked
  obtain ⟨_, _, checked⟩ := Result.bind_eq_ok.mp checked
  split at checked
  · cases checked
  · exact (checkFields_nodup checked).1

/-- Every name in a checked format needs no care in a statement. -/
theorem check_plain {f : Format} (checked : f.check = .ok ()) : f.Plain := by
  simp only [check, named] at checked
  obtain ⟨_, _, checked⟩ := Result.bind_eq_ok.mp checked
  obtain ⟨_, table, checked⟩ := Result.bind_eq_ok.mp checked
  split at checked
  · cases checked
  · have fields := checkFields_names checked
    exact ⟨Text.isIdentifier_of_check (Result.mapError_eq_ok.mp table),
      fun field member => (fields field member).1, fun field member => (fields field member).2.1,
      fun field member => (fields field member).2.2⟩

theorem field?_cases {f : Format} {name : String} {field : Field}
    (found : f.field? name = some field) : field ∈ f.fields ∧ field.name = name :=
  ⟨List.mem_of_find?_eq_some found, by simpa using List.find?_some found⟩

theorem requireColumn_cases {f : Format} {name column : String}
    (found : f.requireColumn name = .ok column) :
    ∃ field, f.field? name = some field ∧ field.column = column := by
  simp only [requireColumn, column?] at found
  cases known : f.field? name with
  | none => simp [known] at found
  | some field =>
      rw [known] at found
      exact ⟨field, rfl, Except.ok.inj found⟩

theorem hasField_iff {f : Format} {name : String} :
    f.hasField name = true ↔ ∃ field ∈ f.fields, field.name = name := by
  simp only [hasField, List.any_eq_true, beq_iff_eq]

theorem requireColumn_of_hasField {f : Format} {name : String} (known : f.hasField name = true) :
    ∃ field ∈ f.fields, f.requireColumn name = .ok field.column := by
  obtain ⟨field, member, same⟩ := hasField_iff.mp known
  have found : ∃ found, f.field? name = some found := by
    cases h : f.field? name with
    | some found => exact ⟨found, rfl⟩
    | none =>
        have := List.find?_eq_none.mp h field member
        simp [same] at this
  obtain ⟨found, h⟩ := found
  refine ⟨found, List.mem_of_find?_eq_some h, ?_⟩
  simp only [requireColumn, column?, h, Option.map_some]

end Format

namespace Schema

/-- The schemas that come about by accepted declarations. -/
inductive Declared : Schema → Prop
  | empty : Declared .empty
  | addFormat {s next : Schema} {format : Format} :
      Declared s → s.addFormat format = .ok next → Declared next
  | relate {s next : Schema} {relation : Relation} {leftName rightName : Option String} :
      Declared s → s.relate relation leftName rightName = .ok next → Declared next

/-- A format that is found by its own name. -/
def Registered (s : Schema) (f : Format) : Prop := s.format? f.name = some f

/-- What a relation comes with on a side on which it has a name. -/
structure SoundSide (s : Schema) (r : NamedSide) : Prop where
  owner_eq : (r.relation.endpoint r.side).format = r.owner
  endpoints : ∀ side, ∃ f, s.format? (r.relation.endpoint side).format = some f ∧
    f.hasField (r.relation.endpoint side).field = true
  no_field : ∀ f, s.format? r.owner = some f → f.hasField r.name = false
  junction : ∀ j, r.relation.junction? = some j → checkJunction j = .ok ()

structure Sound (s : Schema) : Prop where
  formats : ∀ f ∈ s.formats, f.check = .ok ()
  relations : ∀ r ∈ s.relations, s.SoundSide r

theorem format?_name {s : Schema} {name : String} {f : Format} (found : s.format? name = some f) :
    f.name = name := by
  simpa using List.find?_some found

theorem registered_of_format? {s : Schema} {name : String} {f : Format}
    (found : s.format? name = some f) : s.Registered f := by
  rw [Registered, format?_name found]
  exact found

theorem requireFormat_eq_ok {s : Schema} {name : String} {f : Format} :
    s.requireFormat name = .ok f ↔ s.format? name = some f := by
  unfold requireFormat
  cases s.format? name with
  | some g => simp
  | none => simp

theorem checkEndpoint_eq_ok {s : Schema} {endpoint : FieldRef}
    (checked : s.checkEndpoint endpoint = .ok ()) :
    ∃ f, s.format? endpoint.format = some f ∧ f.hasField endpoint.field = true := by
  simp only [checkEndpoint] at checked
  obtain ⟨f, found, checked⟩ := Result.bind_eq_ok.mp checked
  obtain ⟨column, known, _⟩ := Result.bind_eq_ok.mp checked
  obtain ⟨field, listed, _⟩ := Format.requireColumn_cases known
  exact ⟨f, requireFormat_eq_ok.mp found, Format.hasField_iff.mpr ⟨field, Format.field?_cases listed⟩⟩

theorem checkRelationName_no_field {s : Schema} {owner name : String}
    (checked : s.checkRelationName owner name = .ok ()) :
    ∀ f, s.format? owner = some f → f.hasField name = false := by
  intro f found
  simp only [checkRelationName] at checked
  obtain ⟨_, _, checked⟩ := Result.bind_eq_ok.mp checked
  obtain ⟨g, known, checked⟩ := Result.bind_eq_ok.mp checked
  cases (requireFormat_eq_ok.mp known).symm.trans found
  cases h : f.hasField name with
  | false => rfl
  | true => simp [h] at checked

theorem checkRelationName_fresh {s : Schema} {owner name : String}
    (checked : s.checkRelationName owner name = .ok ()) :
    Text.isIdentifier name = true ∧ s.side? owner name = none := by
  simp only [checkRelationName] at checked
  obtain ⟨_, plain, checked⟩ := Result.bind_eq_ok.mp checked
  obtain ⟨f, _, checked⟩ := Result.bind_eq_ok.mp checked
  refine ⟨Text.isIdentifier_of_check (Result.mapError_eq_ok.mp plain), ?_⟩
  split at checked
  · cases checked
  · cases fresh : s.side? owner name with
    | none => rfl
    | some side => simp [fresh] at checked

theorem addFormat_cases {s next : Schema} {format : Format}
    (accepted : s.addFormat format = .ok next) :
    format.check = .ok () ∧ s.format? format.name = none ∧
      next = { s with formats := s.formats ++ [format] } := by
  simp only [addFormat] at accepted
  obtain ⟨_, checked, accepted⟩ := Result.bind_eq_ok.mp accepted
  cases fresh : s.format? format.name with
  | some f =>
      rw [fresh] at accepted
      cases accepted
  | none =>
      rw [fresh] at accepted
      exact ⟨checked, rfl, (Except.ok.inj accepted).symm⟩

theorem mem_namedSides {relation : Relation} {leftName rightName : Option String}
    {r : NamedSide} (member : r ∈ namedSides relation leftName rightName) :
    r.relation = relation ∧ (relation.endpoint r.side).format = r.owner := by
  cases leftName <;> cases rightName <;> simp [namedSides] at member
  all_goals rcases member with rfl | rfl <;> exact ⟨rfl, rfl⟩

/-- Two names on one format differ. -/
def checkApart (relation : Relation) : Option String → Option String → Result Unit
  | some l, some r =>
    if l = r ∧ relation.left.format = relation.right.format then
      refuse (.sameNameOnBothSides relation.left.format l)
    else .ok ()
  | _, _ => .ok ()

theorem apart_of_check {relation : Relation} {leftName rightName : Option String}
    (checked : checkApart relation leftName rightName = .ok ()) :
    (namedSides relation leftName rightName).Pairwise
      fun a b => ¬(a.owner = b.owner ∧ a.name = b.name) := by
  unfold checkApart at checked
  split at checked
  · split at checked
    · cases checked
    · next apart => exact List.pairwise_pair.mpr fun same => apart ⟨same.2, same.1⟩
  · next single =>
      cases leftName with
      | none => cases rightName <;> simp [namedSides]
      | some l =>
          cases rightName with
          | none => simp [namedSides]
          | some r => exact (single l r rfl rfl).elim

/-- The steps of a declaration, each on its own line. -/
theorem relate_eq (s : Schema) (relation : Relation) (leftName rightName : Option String) :
    s.relate relation leftName rightName = (do
      if leftName.isNone && rightName.isNone then
        refuse (.unnamedRelation relation.left.text relation.right.text)
      s.checkEndpoint relation.left
      s.checkEndpoint relation.right
      match relation.junction? with
      | some junction => checkJunction junction
      | none => .ok ()
      (namedSides relation leftName rightName).forM fun side => s.checkRelationName side.owner side.name
      checkApart relation leftName rightName
      .ok { s with relations := s.relations ++ namedSides relation leftName rightName }) := by
  have apart : ∀ next : Schema, (match leftName, rightName with
      | some l, some r =>
        if l = r ∧ relation.left.format = relation.right.format then do
          refuse (.sameNameOnBothSides relation.left.format l)
          return next
        else return next
      | _, _ => do
        Except.ok ()
        return next : Result Schema) = (checkApart relation leftName rightName >>= fun _ => .ok next) := by
    intro next
    cases leftName with
    | none => rfl
    | some l =>
        cases rightName with
        | none => rfl
        | some r =>
            simp only [checkApart]
            split <;> rfl
  simp only [← apart]
  rfl

theorem relate_cases {s next : Schema} {relation : Relation} {leftName rightName : Option String}
    (accepted : s.relate relation leftName rightName = .ok next) :
    (∀ side, s.checkEndpoint (relation.endpoint side) = .ok ()) ∧
      (∀ j, relation.junction? = some j → checkJunction j = .ok ()) ∧
      (∀ r ∈ namedSides relation leftName rightName,
        s.checkRelationName r.owner r.name = .ok ()) ∧
      checkApart relation leftName rightName = .ok () ∧
      next = { s with relations := s.relations ++ namedSides relation leftName rightName } := by
  simp only [relate_eq] at accepted
  split at accepted
  · cases accepted
  obtain ⟨_, left, accepted⟩ := Result.bind_eq_ok.mp accepted
  obtain ⟨_, right, accepted⟩ := Result.bind_eq_ok.mp accepted
  have endpoints : ∀ side, s.checkEndpoint (relation.endpoint side) = .ok () := by
    rintro (_ | _)
    · exact left
    · exact right
  cases found : relation.junction? with
  | none =>
      simp only [found, Result.ok_bind] at accepted
      obtain ⟨_, names, accepted⟩ := Result.bind_eq_ok.mp accepted
      obtain ⟨_, apart, accepted⟩ := Result.bind_eq_ok.mp accepted
      exact ⟨endpoints, nofun, Result.forM_eq_ok.mp names, apart, (Except.ok.inj accepted).symm⟩
  | some j =>
      simp only [found] at accepted
      obtain ⟨_, junction, accepted⟩ := Result.bind_eq_ok.mp accepted
      obtain ⟨_, names, accepted⟩ := Result.bind_eq_ok.mp accepted
      obtain ⟨_, apart, accepted⟩ := Result.bind_eq_ok.mp accepted
      refine ⟨endpoints, ?_, Result.forM_eq_ok.mp names, apart, (Except.ok.inj accepted).symm⟩
      rintro _ ⟨⟩
      exact junction

theorem format?_append {s : Schema} {format f : Format} {name : String}
    (found : s.format? name = some f) :
    ({ s with formats := s.formats ++ [format] } : Schema).format? name = some f := by
  simp only [format?, List.find?_append] at found ⊢
  rw [found]
  rfl

theorem Sound.addFormat {s next : Schema} {format : Format} (sound : s.Sound)
    (accepted : s.addFormat format = .ok next) : next.Sound := by
  obtain ⟨checked, _, rfl⟩ := addFormat_cases accepted
  refine ⟨?_, ?_⟩
  · intro f member
    rcases List.mem_append.mp member with old | new
    · exact sound.formats f old
    · rw [List.mem_singleton.mp new]
      exact checked
  · intro r member
    have side := sound.relations r member
    refine ⟨side.owner_eq, ?_, ?_, side.junction⟩
    · intro which
      obtain ⟨f, found, known⟩ := side.endpoints which
      exact ⟨f, format?_append found, known⟩
    · -- the owner was registered before, so its name still leads to the same format
      intro f found
      obtain ⟨g, old, _⟩ := side.endpoints r.side
      rw [side.owner_eq] at old
      cases (format?_append old).symm.trans found
      exact side.no_field _ old

theorem Sound.relate {s next : Schema} {relation : Relation} {leftName rightName : Option String}
    (sound : s.Sound) (accepted : s.relate relation leftName rightName = .ok next) :
    next.Sound := by
  obtain ⟨endpoints, junction, names, _, rfl⟩ := relate_cases accepted
  refine ⟨sound.formats, ?_⟩
  intro r member
  rcases List.mem_append.mp member with old | new
  · have side := sound.relations r old
    exact ⟨side.owner_eq, side.endpoints, side.no_field, side.junction⟩
  · obtain ⟨rfl, owner⟩ := mem_namedSides new
    have noField := checkRelationName_no_field (names r new)
    exact ⟨owner, fun side => checkEndpoint_eq_ok (endpoints side), noField, junction⟩

theorem Declared.sound {s : Schema} (declared : s.Declared) : s.Sound := by
  induction declared with
  | empty => exact ⟨nofun, nofun⟩
  | addFormat _ accepted ih => exact ih.addFormat accepted
  | relate _ accepted ih => exact ih.relate accepted

namespace Blog

def user : Format := ⟨"user", "users", [⟨"id", "id", none⟩, ⟨"name", "name", none⟩]⟩

def article : Format :=
  ⟨"article", "article",
    [⟨"id", "id", none⟩, ⟨"title", "title", none⟩, ⟨"authorId", "author_id", none⟩]⟩

def tag : Format := ⟨"tag", "tag", [⟨"id", "id", none⟩, ⟨"label", "label", none⟩]⟩

def authorship : Relation := .oneToMany ⟨"user", "id"⟩ ⟨"article", "authorId"⟩

def tagging : Relation := .manyToMany ⟨"article", "id"⟩ ⟨"tag", "id"⟩

end Blog

/-- Users, their articles, and the tags of articles. -/
def blog : Schema where
  formats := [Blog.user, Blog.article, Blog.tag]
  relations := namedSides Blog.authorship (some "articles") (some "author")
    ++ namedSides Blog.tagging (some "tags") none

theorem blog_declared : blog.Declared := by
  have users : Declared ⟨[Blog.user], []⟩ := .addFormat .empty (rfl : empty.addFormat Blog.user = _)
  have articles : Declared ⟨[Blog.user, Blog.article], []⟩ :=
    .addFormat users (rfl : Schema.addFormat _ Blog.article = _)
  have tags : Declared ⟨[Blog.user, Blog.article, Blog.tag], []⟩ :=
    .addFormat articles (rfl : Schema.addFormat _ Blog.tag = _)
  have authors : Declared ⟨[Blog.user, Blog.article, Blog.tag],
      namedSides Blog.authorship (some "articles") (some "author")⟩ :=
    .relate tags (rfl : Schema.relate _ Blog.authorship (some "articles") (some "author") = _)
  exact .relate authors (rfl : Schema.relate _ Blog.tagging (some "tags") none = .ok blog)

/-- What a look-up of a relation gives on a registered format. -/
structure SoundRelation (s : Schema) (f : Format) (name : String) (r : ResolvedRelation) :
    Prop where
  local_format : r.localField.format = f.name
  local_field : f.hasField r.localField.field = true
  foreign : s.Registered r.foreignFormat
  foreign_field : r.foreignFormat.hasField r.foreignField.field = true
  no_field : f.hasField name = false
  junction : ∀ j, r.relation.junction? = some j → checkJunction j = .ok ()

theorem checkJunction_names {j : Junction} (checked : checkJunction j = .ok ()) :
    Text.isIdentifier j.table = true ∧ Text.isIdentifier j.leftColumn = true ∧
      Text.isIdentifier j.rightColumn = true := by
  simp only [checkJunction, List.forIn_cons] at checked
  cases table : Text.checkIdentifier j.table with
  | error fault =>
      rw [table] at checked
      cases checked
  | ok _ =>
      cases left : Text.checkIdentifier j.leftColumn with
      | error fault =>
          rw [table, left] at checked
          cases checked
      | ok _ =>
          cases right : Text.checkIdentifier j.rightColumn with
          | error fault =>
              rw [table, left, right] at checked
              cases checked
          | ok _ =>
              exact ⟨Text.isIdentifier_of_check table, Text.isIdentifier_of_check left,
                Text.isIdentifier_of_check right⟩

theorem SoundRelation.junction_names {s : Schema} {f : Format} {name : String}
    {r : ResolvedRelation} (relation : s.SoundRelation f name r) {j : JunctionColumns}
    (found : r.junctionColumns? = some j) :
    Text.isIdentifier j.table = true ∧ Text.isIdentifier j.near = true ∧
      Text.isIdentifier j.far = true := by
  obtain ⟨junction, declared, rfl⟩ := Option.map_eq_some_iff.mp found
  obtain ⟨table, left, right⟩ := checkJunction_names (relation.junction junction declared)
  cases r.side with
  | left => exact ⟨table, left, right⟩
  | right => exact ⟨table, right, left⟩

theorem Sound.resolveRelation {s : Schema} (sound : s.Sound) {f : Format} (known : s.Registered f)
    {name : String} {r : ResolvedRelation} (resolved : s.resolveRelation f.name name = .ok r) :
    s.SoundRelation f name r := by
  unfold Schema.resolveRelation at resolved
  split at resolved
  · cases resolved
  · next side found =>
      obtain ⟨foreign, registered, resolved⟩ := Result.bind_eq_ok.mp resolved
      cases resolved
      have matched : side.owner = f.name ∧ side.name = name := by
        simpa using List.find?_some found
      have facts := sound.relations side (List.mem_of_find?_eq_some found)
      have foreignKnown := requireFormat_eq_ok.mp registered
      have localFormat := facts.owner_eq.trans matched.1
      obtain ⟨g, localKnown, localField⟩ := facts.endpoints side.side
      rw [localFormat] at localKnown
      cases known.symm.trans localKnown
      obtain ⟨h, sameForeign, foreignField⟩ := facts.endpoints side.side.opposite
      cases foreignKnown.symm.trans sameForeign
      exact ⟨localFormat, localField, registered_of_format? foreignKnown, foreignField,
        matched.2 ▸ facts.no_field f (matched.1 ▸ known), facts.junction⟩

theorem Registered.check {s : Schema} (sound : s.Sound) {f : Format} (known : s.Registered f) :
    f.check = .ok () :=
  sound.formats f (List.mem_of_find?_eq_some known)

end Schema
end NestedQuery
