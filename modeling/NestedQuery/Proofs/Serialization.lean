/- The two written forms of a result are one document: what is written straight from it and what its JSON
form is written as, at any depth and for all scalars. -/
import NestedQuery.Proofs.Roundtrip
import NestedQuery.Tree

namespace NestedQuery

namespace Value

/-- Values as they are held: the numbers of a document are in range, and its names in order. -/
def WellFormed : Value → Prop
  | .json j => j.WellFormed
  | _ => True

/-- What a value is shown as. A float that is not finite is null. -/
inductive Shown : Value → Json → Prop
  | null : Shown .null .null
  | int (i : Int64) : Shown (.int i) (.number (.whole i.toInt))
  | finite {x : Binary64} (finite : x.isFinite = true) : Shown (.float x) (.number (.real x))
  | notFinite {x : Binary64} (endless : x.isFinite = false) : Shown (.float x) .null
  | text (s : String) : Shown (.text s) (.text s)
  | bool (b : Bool) : Shown (.bool b) (.bool b)
  | json (j : Json) : Shown (.json j) j

theorem shown_iff {v : Value} {j : Json} : v.Shown j ↔ j = v.toJson := by
  constructor
  · intro shown
    cases shown with
    | finite finite => simp [toJson, Json.ofReal, finite]
    | notFinite endless => simp [toJson, Json.ofReal, endless]
    | _ => rfl
  · rintro rfl
    cases v with
    | null => exact .null
    | int i => exact .int i
    | float x =>
        rw [toJson, Json.ofReal]
        split
        · next finite => exact .finite finite
        · next endless => exact .notFinite (Bool.eq_false_iff.mpr endless)
    | text s => exact .text s
    | bool b => exact .bool b
    | json j => exact .json j

theorem toDocument_eq (v : Value) : v.toDocument = v.toJson.toDocument := by
  cases v with
  | float x =>
      rw [toDocument, toJson, Document.ofReal, Json.ofReal]
      split <;> rfl
  | _ => rfl

theorem WellFormed.toJson {v : Value} (wellFormed : v.WellFormed) : v.toJson.WellFormed := by
  cases v with
  | int i => exact ⟨i.le_toInt, Int.lt_of_lt_of_le i.toInt_lt (by decide)⟩
  | float x =>
      rw [Value.toJson, Json.ofReal]
      split
      · next finite => exact finite
      · trivial
  | json j => exact wellFormed
  | _ => trivial

end Value

namespace Tree

mutual

/-- Results as they are held: the fields of an object are in the order of their names. -/
def WellFormed : Tree → Prop
  | .scalar v => v.WellFormed
  | .object fields => Fields.Sorted fields ∧ WellFormedFields fields
  | .list items => WellFormedItems items
  | .absent => True

def WellFormedItems : List Tree → Prop
  | [] => True
  | item :: rest => WellFormed item ∧ WellFormedItems rest

def WellFormedFields : List (String × Tree) → Prop
  | [] => True
  | (_, t) :: rest => WellFormed t ∧ WellFormedFields rest

end

mutual

/-- What a result is shown as: a missing record as null, items in their order, and fields under their own
names, which are in increasing order. -/
inductive Shown : Tree → Json → Prop
  | scalar {v : Value} {j : Json} (value : v.Shown j) : Shown (.scalar v) j
  | object {fields : List (String × Tree)} {members : List (String × Json)}
      (sorted : Fields.Sorted members) (each : ShownFields fields members) :
      Shown (.object fields) (.object members)
  | list {items : List Tree} {others : List Json} (each : ShownItems items others) :
      Shown (.list items) (.list others)
  | absent : Shown .absent .null

inductive ShownItems : List Tree → List Json → Prop
  | nil : ShownItems [] []
  | cons {item : Tree} {other : Json} {rest : List Tree} {others : List Json}
      (first : Shown item other) (later : ShownItems rest others) :
      ShownItems (item :: rest) (other :: others)

inductive ShownFields : List (String × Tree) → List (String × Json) → Prop
  | nil : ShownFields [] []
  | cons (name : String) {t : Tree} {j : Json} {rest : List (String × Tree)}
      {others : List (String × Json)} (first : Shown t j) (later : ShownFields rest others) :
      ShownFields ((name, t) :: rest) ((name, j) :: others)

end

theorem fieldsToJson_eq_map (fields : List (String × Tree)) :
    fieldsToJson fields = fields.map fun field => (field.1, field.2.toJson) := by
  induction fields with
  | nil => rfl
  | cons field rest ih => rw [fieldsToJson, ih, List.map_cons]

theorem sorted_fieldsToJson {fields : List (String × Tree)} (sorted : Fields.Sorted fields) :
    Fields.Sorted (fieldsToJson fields) := by
  rw [fieldsToJson_eq_map]
  exact List.pairwise_map.mpr sorted

mutual

theorem toDocument_eq : ∀ t : Tree, t.toDocument = t.toJson.toDocument
  | .scalar v => v.toDocument_eq
  | .object fields => congrArg Document.object (fieldsToDocuments_eq fields)
  | .list items => congrArg Document.list (itemsToDocuments_eq items)
  | .absent => rfl

theorem itemsToDocuments_eq : ∀ items : List Tree,
    itemsToDocuments items = Json.itemsToDocuments (itemsToJson items)
  | [] => rfl
  | item :: rest => by
      rw [itemsToDocuments, toDocument_eq item, itemsToDocuments_eq rest]
      rfl

theorem fieldsToDocuments_eq : ∀ fields : List (String × Tree),
    fieldsToDocuments fields = Json.membersToDocuments (fieldsToJson fields)
  | [] => rfl
  | (name, t) :: rest => by
      rw [fieldsToDocuments, toDocument_eq t, fieldsToDocuments_eq rest]
      rfl

end

mutual

theorem WellFormed.toJson : ∀ {t : Tree}, t.WellFormed → t.toJson.WellFormed
  | .scalar _, wellFormed => Value.WellFormed.toJson wellFormed
  | .object _, wellFormed => ⟨sorted_fieldsToJson wellFormed.1, WellFormedFields.toJson wellFormed.2⟩
  | .list _, wellFormed => WellFormedItems.toJson wellFormed
  | .absent, _ => trivial

theorem WellFormedItems.toJson : ∀ {items : List Tree}, WellFormedItems items →
    Json.WellFormedItems (itemsToJson items)
  | [], _ => trivial
  | _ :: _, wellFormed => ⟨WellFormed.toJson wellFormed.1, WellFormedItems.toJson wellFormed.2⟩

theorem WellFormedFields.toJson : ∀ {fields : List (String × Tree)}, WellFormedFields fields →
    Json.WellFormedMembers (fieldsToJson fields)
  | [], _ => trivial
  | (_, _) :: _, wellFormed => ⟨WellFormed.toJson wellFormed.1, WellFormedFields.toJson wellFormed.2⟩

end

mutual

theorem WellFormed.shown : ∀ {t : Tree}, t.WellFormed → t.Shown t.toJson
  | .scalar _, _ => .scalar (Value.shown_iff.mpr rfl)
  | .object _, wellFormed =>
      .object (sorted_fieldsToJson wellFormed.1) (WellFormedFields.shown wellFormed.2)
  | .list _, wellFormed => .list (WellFormedItems.shown wellFormed)
  | .absent, _ => .absent

theorem WellFormedItems.shown : ∀ {items : List Tree}, WellFormedItems items →
    ShownItems items (itemsToJson items)
  | [], _ => .nil
  | _ :: _, wellFormed => .cons (WellFormed.shown wellFormed.1) (WellFormedItems.shown wellFormed.2)

theorem WellFormedFields.shown : ∀ {fields : List (String × Tree)}, WellFormedFields fields →
    ShownFields fields (fieldsToJson fields)
  | [], _ => .nil
  | (_, _) :: _, wellFormed =>
      .cons _ (WellFormed.shown wellFormed.1) (WellFormedFields.shown wellFormed.2)

end

mutual

/-- A result is shown as one document only. -/
theorem Shown.eq_toJson : ∀ {t : Tree} {j : Json}, t.Shown j → j = t.toJson
  | _, _, .scalar value => Value.shown_iff.mp value
  | _, _, .object _ each => congrArg Json.object (ShownFields.eq_toJson each)
  | _, _, .list each => congrArg Json.list (ShownItems.eq_toJson each)
  | _, _, .absent => rfl

theorem ShownItems.eq_toJson : ∀ {items : List Tree} {others : List Json}, ShownItems items others →
    others = itemsToJson items
  | _, _, .nil => rfl
  | _, _, .cons first later => by rw [first.eq_toJson, later.eq_toJson, itemsToJson]

theorem ShownFields.eq_toJson : ∀ {fields : List (String × Tree)} {others : List (String × Json)},
    ShownFields fields others → others = fieldsToJson fields
  | _, _, .nil => rfl
  | _, _, .cons _ first later => by rw [first.eq_toJson, later.eq_toJson, fieldsToJson]

end

/-- What is written straight from a result is its JSON form as a document. For a result as it is held this
is read back as that form, and the form is the only one that the result is shown as. -/
theorem serialized_as_json (t : Tree) :
    t.toDocument = t.toJson.toDocument ∧
      (t.WellFormed → (∀ room, t.toDocument.depth ≤ room →
          Json.ofDocument? room t.toDocument = some t.toJson) ∧
        ∀ j, t.Shown j ↔ j = t.toJson) := by
  refine ⟨t.toDocument_eq, fun wellFormed => ⟨?_, ?_⟩⟩
  · intro room fits
    rw [t.toDocument_eq] at fits ⊢
    exact Json.ofDocument?_toDocument wellFormed.toJson fits
  · intro j
    constructor
    · exact Shown.eq_toJson
    · rintro rfl
      exact wellFormed.shown

/-- A user without a profile, with a score that is no number and a list of labels. -/
def profile : Tree :=
  .object [("labels", .list [.scalar (.json (.list [.text "a", .number (.whole 1)])), .scalar .null]),
    ("name", .scalar (.text "Ann")), ("profile", .absent), ("score", .scalar (.float .nan))]

theorem profile_wellFormed : profile.WellFormed := by
  refine ⟨?_, ⟨⟨trivial, ⟨by decide, by decide⟩, trivial⟩, trivial, trivial⟩, trivial, trivial, trivial,
    trivial⟩
  unfold Fields.Sorted
  decide

theorem serialized_as_json_profile : profile.WellFormed ∧ profile.toDocument.depth ≤ 127 ∧
    Json.ofDocument? 127 profile.toDocument = some profile.toJson ∧
    profile.Shown (.object [("labels", .list [.list [.text "a", .number (.whole 1)], .null]),
      ("name", .text "Ann"), ("profile", .null), ("score", .null)]) := by
  have shallow : profile.toDocument.depth ≤ 127 := by decide +kernel
  obtain ⟨back, shown⟩ := (serialized_as_json profile).2 profile_wellFormed
  exact ⟨profile_wellFormed, shallow, back 127 shallow, (shown _).mpr rfl⟩

end Tree
end NestedQuery
