/- What is written of a request is read back as the same request: each kind of document is read where
there is room for its depth, and a request comes back with every field, relation and value as it was. -/
import NestedQuery.Proofs.Fields
import NestedQuery.Proofs.Request

namespace NestedQuery

/-- What is written piece by piece is read back piece by piece. -/
theorem mapM_map_eq_some {α β : Type} {write : α → β} {read : β → Option α} {xs : List α}
    (back : ∀ x ∈ xs, read (write x) = some x) : (xs.map write).mapM read = some xs := by
  induction xs with
  | nil => rfl
  | cons x rest ih =>
      obtain ⟨first, later⟩ := List.forall_mem_cons.mp back
      rw [List.map_cons, List.mapM_cons, first, ih later]
      rfl

namespace Document

mutual

/-- How many lists and objects are open at once where most of them are. -/
def depth : Document → Nat
  | .list items => depthOfItems items + 1
  | .object members => depthOfMembers members + 1
  | _ => 0

def depthOfItems : List Document → Nat
  | [] => 0
  | item :: rest => max (depth item) (depthOfItems rest)

def depthOfMembers : List (Option String × Document) → Nat
  | [] => 0
  | (_, value) :: rest => max (depth value) (depthOfMembers rest)

end

theorem depth_le_items {items : List Document} {item : Document} (member : item ∈ items) :
    item.depth ≤ depthOfItems items := by
  induction items with
  | nil => cases member
  | cons first rest ih =>
      rw [depthOfItems]
      rcases List.mem_cons.mp member with rfl | later
      · exact Nat.le_max_left _ _
      · exact Nat.le_trans (ih later) (Nat.le_max_right _ _)

theorem depth_le_members {members : List (Option String × Document)} {name : Option String}
    {value : Document} (member : (name, value) ∈ members) :
    value.depth ≤ depthOfMembers members := by
  induction members with
  | nil => cases member
  | cons first rest ih =>
      obtain ⟨label, here⟩ := first
      rw [depthOfMembers]
      rcases List.mem_cons.mp member with same | later
      · cases same
        exact Nat.le_max_left _ _
      · exact Nat.le_trans (ih later) (Nat.le_max_right _ _)

@[simp] theorem depth_list (items : List Document) : (list items).depth = depthOfItems items + 1 := by
  rw [depth]

/-- An object with one member, as filters are written. -/
@[simp] theorem depth_tagged (name : String) (d : Document) :
    (ofMembers [(name, d)]).depth = d.depth + 1 := by
  simp [ofMembers, depth, depthOfMembers]

/-- An object with a field's name and one more member, as comparisons and sort keys are written. -/
@[simp] theorem depth_fielded (field name : String) (d : Document) :
    (ofMembers [("field", .ofText field), (name, d)]).depth = d.depth + 1 := by
  simp [ofMembers, depth, depthOfMembers, ofText]

theorem exists_room {deep room : Nat} (more : Nat) (fits : deep + more ≤ room) :
    ∃ inner, room = inner + more ∧ deep ≤ inner := ⟨room - more, by omega, by omega⟩

/-- The members of a record: those of its parts that are there. -/
def present (parts : List (String × Option Document)) : List (String × Document) :=
  parts.filterMap fun part => part.2.map (part.1, ·)

theorem names_present (parts : List (String × Option Document)) :
    ((present parts).map (·.1)).Sublist (parts.map (·.1)) := by
  induction parts with
  | nil => exact .slnil
  | cons part rest ih =>
      obtain ⟨name, value⟩ := part
      cases value with
      | none => exact ih.cons name
      | some d => exact ih.cons_cons name

theorem find?_present {parts : List (String × Option Document)} (once : (parts.map (·.1)).Nodup)
    {part : String × Option Document} (listed : part ∈ parts) :
    (present parts).find? (·.1 == part.1) = part.2.map (part.1, ·) := by
  induction parts with
  | nil => cases listed
  | cons first rest ih =>
      obtain ⟨name, value⟩ := first
      obtain ⟨fresh, others⟩ := List.nodup_cons.mp once
      have here : (present rest).find? (·.1 == name) = none := by
        refine List.find?_eq_none.mpr fun member known same => fresh ?_
        have label : member.1 = name := by simpa using same
        exact label ▸ (names_present rest).subset (List.mem_map_of_mem known)
      rcases List.mem_cons.mp listed with rfl | later
      · cases value with
        | none => exact here
        | some d => exact List.find?_cons_of_pos (beq_self_eq_true name)
      · have other : name ≠ part.1 := by
          intro same
          exact fresh (List.mem_map.mpr ⟨part, later, same.symm⟩)
        cases value with
        | none => exact ih others later
        | some d =>
            rw [← ih others later]
            exact List.find?_cons_of_neg (by simpa using other)

theorem depth_lt_present {parts : List (String × Option Document)} {name : String} {d : Document}
    (listed : (name, some d) ∈ parts) : d.depth < (ofMembers (present parts)).depth := by
  have member : (some name, d) ∈ (present parts).map fun m => (some m.1, m.2) :=
    List.mem_map.mpr ⟨(name, d), List.mem_filterMap.mpr ⟨_, listed, rfl⟩, rfl⟩
  rw [ofMembers, depth]
  exact Nat.lt_succ_of_le (depth_le_members member)

/-- A record is read back as its parts, whichever of them are there. -/
theorem record?_present (parts : List (String × Option Document)) (once : (parts.map (·.1)).Nodup)
    (strict : Bool) :
    (ofMembers (present parts)).record? (parts.map (·.1)) strict = some (parts.map (·.2)) := by
  have named : ((present parts).map fun m => (some m.1, m.2)).mapM
      (fun m : Option String × Document => m.1.map (·, m.2)) = some (present parts) :=
    mapM_map_eq_some fun _ _ => rfl
  have known : ((present parts).map (·.1)).filter (parts.map (·.1)).contains =
      (present parts).map (·.1) := by
    refine List.filter_eq_self.mpr fun name listed => ?_
    exact List.contains_iff_mem.mpr ((names_present parts).subset listed)
  have found : (parts.map (·.1)).map (fun field =>
      ((present parts).find? (·.1 == field)).map (·.2)) = parts.map (·.2) := by
    rw [List.map_map]
    refine List.map_congr_left fun part listed => ?_
    rw [Function.comp_apply, find?_present once listed, Option.map_map]
    cases part.2 with
    | none => rfl
    | some d => rfl
  rw [ofMembers, record?, named]
  simp only [Option.bind_eq_bind, Option.bind_some, known, List.length_map, ne_eq, not_true_eq_false,
    false_and, if_false, (names_present parts).nodup once, found]

end Document

namespace Fields

variable {α : Type u}

theorem insert_of_greater {name : String} {value : α} {fields : Fields α}
    (greater : ∀ entry ∈ fields, entry.1 < name) :
    insert name value fields = fields ++ [(name, value)] := by
  induction fields with
  | nil => rfl
  | cons first rest ih =>
      obtain ⟨n, v⟩ := first
      obtain ⟨here, later⟩ := List.forall_mem_cons.mp greater
      rw [insert, if_neg (String.lt_asymm here), if_pos here, ih later]
      rfl

/-- Entries in the order of their names are a map already. -/
theorem Sorted.ofList_eq {fields : Fields α} (sorted : fields.Sorted) : ofList fields = fields := by
  have onward : ∀ (entries before : Fields α), Sorted (before ++ entries) →
      entries.foldl (fun fields entry => Fields.insert entry.1 entry.2 fields) before =
        before ++ entries := by
    intro entries
    induction entries with
    | nil => exact fun before _ => (List.append_nil before).symm
    | cons entry rest ih =>
        intro before ordered
        have greater : ∀ e ∈ before, e.1 < entry.1 := fun e member =>
          (List.pairwise_append.mp ordered).2.2 e member entry (List.mem_cons_self ..)
        rw [List.foldl_cons, insert_of_greater greater, ih, List.append_assoc]
        · rfl
        · rwa [List.append_assoc]
  exact onward fields [] sorted

end Fields

namespace Json

/-- Whole numbers fit 64 bits, with a sign or without, and real ones are finite. -/
def Number.WellFormed : Number → Prop
  | .whole i => -2 ^ 63 ≤ i ∧ i < 2 ^ 64
  | .real x => x.isFinite = true

mutual

/-- Documents as they are held: an object's members are in the order of their names. -/
def WellFormed : Json → Prop
  | .null => True
  | .bool _ => True
  | .number n => n.WellFormed
  | .text _ => True
  | .list items => WellFormedItems items
  | .object members => Fields.Sorted members ∧ WellFormedMembers members

def WellFormedItems : List Json → Prop
  | [] => True
  | item :: rest => WellFormed item ∧ WellFormedItems rest

def WellFormedMembers : List (String × Json) → Prop
  | [] => True
  | (_, value) :: rest => WellFormed value ∧ WellFormedMembers rest

end

mutual

theorem ofDocument?_toDocument : ∀ {j : Json} {room : Nat}, j.WellFormed →
    j.toDocument.depth ≤ room → ofDocument? room j.toDocument = some j
  | .null, _, _, _ => rfl
  | .bool _, _, _, _ => rfl
  | .number _, _, _, _ => rfl
  | .text _, _, _, _ => rfl
  | .list items, room, wellFormed, fits => by
      rw [toDocument, Document.depth] at fits
      have inside : Document.depthOfItems (itemsToDocuments items) ≤ room - 1 := by omega
      rw [toDocument, ofDocument?, if_neg (by omega), ofItems?_itemsToDocuments wellFormed inside]
      rfl
  | .object members, room, wellFormed, fits => by
      rw [toDocument, Document.depth] at fits
      have inside : Document.depthOfMembers (membersToDocuments members) ≤ room - 1 := by omega
      rw [toDocument, ofDocument?, if_neg (by omega),
        ofMembers?_membersToDocuments wellFormed.2 inside, Option.map_some, wellFormed.1.ofList_eq]

theorem ofItems?_itemsToDocuments : ∀ {items : List Json} {room : Nat}, WellFormedItems items →
    Document.depthOfItems (itemsToDocuments items) ≤ room →
    ofItems? room (itemsToDocuments items) = some items
  | [], _, _, _ => rfl
  | item :: rest, room, wellFormed, fits => by
      obtain ⟨here, later⟩ := Nat.max_le.mp fits
      rw [itemsToDocuments, ofItems?, ofDocument?_toDocument wellFormed.1 here,
        ofItems?_itemsToDocuments wellFormed.2 later]
      rfl

theorem ofMembers?_membersToDocuments : ∀ {members : List (String × Json)} {room : Nat},
    WellFormedMembers members → Document.depthOfMembers (membersToDocuments members) ≤ room →
    ofMembers? room (membersToDocuments members) = some members
  | [], _, _, _ => rfl
  | (name, value) :: rest, room, wellFormed, fits => by
      obtain ⟨here, later⟩ := Nat.max_le.mp fits
      rw [membersToDocuments, ofMembers?, ofDocument?_toDocument wellFormed.1 here,
        ofMembers?_membersToDocuments wellFormed.2 later]
      rfl

end

end Json

namespace Binary64

theorem isFinite_of_lt {magnitude : Nat} (small : magnitude < 2047 * 2 ^ 52) :
    (ofBits false magnitude).isFinite = true := by
  simp only [isFinite, exponentField, ofBits, bne_iff_ne]
  rw [if_neg Bool.false_ne_true, Nat.add_zero, UInt64.toNat_ofNat']
  omega

/-- Whole numbers of 64 bits are far from the largest real numbers. -/
theorem isFinite_ofInt {i : Int} (least : 2 ^ 63 ≤ i) (bound : i < 2 ^ 64) :
    (ofInt i).isFinite = true := by
  obtain ⟨n, rfl⟩ := Int.eq_ofNat_of_zero_le (by omega : 0 ≤ i)
  have nonzero : n ≠ 0 := by omega
  have log : n.log2 = 63 := by
    have := (Nat.le_log2 nonzero (k := 63)).mpr (by omega)
    have := (Nat.log2_lt nonzero (k := 64)).mpr (by omega)
    omega
  have exponent : roundingExponent n 1 = 11 := by
    have one : Nat.log2 1 = 0 := by decide
    have guess : ((63 : Nat) : Int) - ((0 : Nat) : Int) - 52 = 11 := by decide
    have whole : ¬(11 : Int) < 0 := by decide
    have full : 2 ^ 52 * 1 * 2 ^ Int.toNat 11 ≤ n := by
      change 2 ^ 52 * 1 * 2 ^ 11 ≤ n
      omega
    simp only [roundingExponent, log, one, guess, if_neg whole, if_pos full]
    decide
  have rounded : roundHalfEven n (1 * 2 ^ 11) ≤ 2 ^ 53 := by
    simp only [roundHalfEven]
    split
    · omega
    · split
      · omega
      · omega
  have positive : decide ((n : Int) < 0) = false := by simp
  rw [ofInt, ofRatio, positive, Int.natAbs_natCast]
  refine isFinite_of_lt ?_
  rw [magnitudeOfRatio, if_neg nonzero, exponent]
  refine Nat.lt_of_le_of_lt (Nat.min_le_left _ _) ?_
  change 1085 * 2 ^ 52 + roundHalfEven n (1 * 2 ^ 11) < _
  omega

end Binary64

namespace Value

/-- Values that are taken from documents: their floats are finite, and they hold no document but a list or
an object. -/
def FromJson (v : Value) : Prop := ∃ j : Json, j.WellFormed ∧ ofJson j = v

theorem ofDocument?_toDocument {v : Value} {room : Nat} (given : v.FromJson)
    (fits : v.toDocument.depth ≤ room) : ofDocument? room v.toDocument = some v := by
  obtain ⟨j, wellFormed, rfl⟩ := given
  cases j with
  | null => rfl
  | bool b => rfl
  | number n =>
      cases n with
      | whole i =>
          by_cases short : -2 ^ 63 ≤ i ∧ i < 2 ^ 63
          · have same : (Int64.ofInt i).toInt = i :=
              Int64.toInt_ofInt_of_le short.1 (by omega)
            rw [ofJson, if_pos short]
            change (some (Json.number (.whole (Int64.ofInt i).toInt))).map ofJson = _
            rw [same, Option.map_some, ofJson, if_pos short]
          · obtain ⟨least, bound⟩ := wellFormed
            have finite := Binary64.isFinite_ofInt (by omega : 2 ^ 63 ≤ i) bound
            rw [ofJson, if_neg short]
            change (Json.ofDocument? room (.ofReal _)).map ofJson = _
            rw [Document.ofReal, if_pos finite]
            rfl
      | real x =>
          have finite : x.isFinite = true := wellFormed
          change (Json.ofDocument? room (.ofReal x)).map ofJson = _
          rw [Document.ofReal, if_pos finite]
          rfl
  | text s => rfl
  | list items =>
      change (Json.ofDocument? room (Json.list items).toDocument).map ofJson = _
      rw [Json.ofDocument?_toDocument wellFormed fits]
      rfl
  | object members =>
      change (Json.ofDocument? room (Json.object members).toDocument).map ofJson = _
      rw [Json.ofDocument?_toDocument wellFormed fits]
      rfl

/-- The same for the values of a list. -/
theorem mapM_ofDocument? {values : List Value} {room : Nat} (given : ∀ v ∈ values, v.FromJson)
    (fits : Document.depthOfItems (values.map toDocument) ≤ room) :
    (values.map toDocument).mapM (ofDocument? room) = some values := by
  refine mapM_map_eq_some fun v member => ofDocument?_toDocument (given v member) ?_
  exact Nat.le_trans (Document.depth_le_items (List.mem_map_of_mem member)) fits

end Value

namespace Filter

mutual

/-- All values that a filter compares with are taken from documents. -/
def FromJson : Filter → Prop
  | .compare _ _ value => value.FromJson
  | .isIn _ values => ∀ value ∈ values, value.FromJson
  | .isNull _ => True
  | .isNotNull _ => True
  | .like _ _ => True
  | .all filters => FromJsonAll filters
  | .any filters => FromJsonAll filters
  | .not filter => FromJson filter

def FromJsonAll : List Filter → Prop
  | [] => True
  | filter :: rest => FromJson filter ∧ FromJsonAll rest

end

/-- A comparison is read from its body, for which two lists or objects are open. -/
theorem ofDocument?_comparison (c : Comparison) (room : Nat) (body : Document) :
    ofDocument? (room + 2) (.ofMembers [(c.keyword, body)]) = leafOf? room c.keyword body := by
  cases c <;> rfl

theorem leafOf?_comparison (c : Comparison) (room : Nat) (field : String) (operand : Document) :
    leafOf? room c.keyword (.ofMembers [("field", .ofText field), ("value", operand)]) =
      (Value.ofDocument? room operand).bind fun value => some (.compare c field value) := by
  cases c <;> rfl

mutual

theorem ofDocument?_toDocument : ∀ {f : Filter} {room : Nat}, f.FromJson →
    f.toDocument.depth ≤ room → ofDocument? room f.toDocument = some f
  | .compare c field value, room, given, fits => by
      rw [toDocument, Document.depth_tagged, Document.depth_fielded] at fits
      obtain ⟨inner, rfl, inside⟩ := Document.exists_room 2 fits
      rw [toDocument, ofDocument?_comparison, leafOf?_comparison,
        Value.ofDocument?_toDocument given inside]
      rfl
  | .isIn field values, room, given, fits => by
      rw [toDocument, Document.depth_tagged, Document.depth_fielded, Document.depth_list] at fits
      obtain ⟨inner, rfl, inside⟩ := Document.exists_room 3 fits
      have back := Value.mapM_ofDocument? given inside
      rw [toDocument]
      exact congrArg (Option.map (isIn field)) back
  | .isNull field, room, _, fits => by
      obtain ⟨inner, rfl⟩ := Nat.exists_eq_add_of_le' fits
      rfl
  | .isNotNull field, room, _, fits => by
      obtain ⟨inner, rfl⟩ := Nat.exists_eq_add_of_le' fits
      rfl
  | .like field pattern, room, _, fits => by
      obtain ⟨inner, rfl⟩ := Nat.exists_eq_add_of_le' fits
      rfl
  | .all filters, room, given, fits => by
      rw [toDocument, Document.depth_tagged, Document.depth_list] at fits
      obtain ⟨inner, rfl, inside⟩ := Document.exists_room 2 fits
      rw [toDocument]
      exact congrArg (Option.map all) (mapM_toDocuments given inside)
  | .any filters, room, given, fits => by
      rw [toDocument, Document.depth_tagged, Document.depth_list] at fits
      obtain ⟨inner, rfl, inside⟩ := Document.exists_room 2 fits
      rw [toDocument]
      exact congrArg (Option.map any) (mapM_toDocuments given inside)
  | .not filter, room, given, fits => by
      rw [toDocument, Document.depth_tagged] at fits
      obtain ⟨inner, rfl, inside⟩ := Document.exists_room 1 fits
      rw [toDocument]
      exact congrArg (Option.map not) (ofDocument?_toDocument (f := filter) given inside)

theorem mapM_toDocuments : ∀ {filters : List Filter} {room : Nat}, FromJsonAll filters →
    Document.depthOfItems (toDocuments filters) ≤ room →
    (toDocuments filters).mapM (ofDocument? room) = some filters
  | [], _, _, _ => rfl
  | filter :: rest, room, given, fits => by
      obtain ⟨here, later⟩ := Nat.max_le.mp fits
      rw [toDocuments, List.mapM_cons, ofDocument?_toDocument given.1 here,
        mapM_toDocuments given.2 later]
      rfl

end

end Filter

theorem SortKey.ofDocument?_toDocument (s : SortKey) (room : Nat) :
    ofDocument? (room + 1) s.toDocument = some s := by
  obtain ⟨field, direction⟩ := s
  cases direction with
  | asc => rfl
  | desc => rfl

theorem Document.word?_ofWord (n : UInt64) : (ofWord n).word? = some n := by
  have bound := n.toNat_lt
  have fits : (0 : Int) ≤ (n.toNat : Int) ∧ (n.toNat : Int) < (2 ^ 64 : Nat) := by omega
  rw [ofWord, ofInt, word?, natural?, if_pos fits, Option.map_some, Int.toNat_natCast,
    UInt64.ofNat_toNat]

namespace Query

/-- The parts that a query is written as. What is absent or empty is left out. -/
def parts (q : Query) : List (String × Option Document) :=
  [("filter", q.filter.map Filter.toDocument),
    ("sort", if q.sort.isEmpty then none else some (.list (q.sort.map SortKey.toDocument))),
    ("page", q.page.map Document.ofWord), ("pageSize", q.pageSize.map Document.ofWord)]

theorem members_eq (q : Query) : q.members = Document.present q.parts := by
  obtain ⟨filter, sort, page, pageSize⟩ := q
  cases filter <;> cases sort <;> cases page <;> cases pageSize <;> rfl

theorem optional?_map {α : Type} {read : Document → Option α} {write : α → Document} {x : Option α}
    (back : ∀ v, x = some v → write v ≠ .null ∧ read (write v) = some v) :
    optional? read (x.map write) = some x := by
  cases x with
  | none => rfl
  | some v =>
      obtain ⟨notNull, same⟩ := back v rfl
      rw [Option.map_some, optional?, same]
      · rfl
      · exact notNull

theorem sortOf?_map {sort : List SortKey} {room : Nat} (fits : sort ≠ [] → 2 ≤ room) :
    sortOf? room (if sort.isEmpty then none else some (.list (sort.map SortKey.toDocument))) =
      some sort := by
  cases sort with
  | nil => rfl
  | cons key rest =>
      obtain ⟨inner, rfl⟩ := Nat.exists_eq_add_of_le' (fits (List.cons_ne_nil _ _))
      exact mapM_map_eq_some fun key _ => SortKey.ofDocument?_toDocument key inner

theorem ofParts?_parts {q : Query} {room : Nat} (given : ∀ f, q.filter = some f → f.FromJson)
    (fits : ∀ name d, (name, some d) ∈ q.parts → d.depth ≤ room) :
    ofParts? room (q.filter.map Filter.toDocument)
      (if q.sort.isEmpty then none else some (.list (q.sort.map SortKey.toDocument)))
      (q.page.map Document.ofWord) (q.pageSize.map Document.ofWord) = some q := by
  have filter : optional? (Filter.ofDocument? room) (q.filter.map Filter.toDocument) = some q.filter := by
    refine optional?_map fun f same => ⟨?_, ?_⟩
    · cases f <;> exact nofun
    · refine Filter.ofDocument?_toDocument (given f same) (fits "filter" _ ?_)
      rw [parts, same]
      exact List.mem_cons_self ..
  have sort : sortOf? room (if q.sort.isEmpty then none
      else some (.list (q.sort.map SortKey.toDocument))) = some q.sort := by
    refine sortOf?_map fun some => ?_
    obtain ⟨key, listed⟩ := List.exists_mem_of_ne_nil _ some
    have written : ("sort", Option.some (.list (q.sort.map SortKey.toDocument))) ∈ q.parts := by
      rw [parts, if_neg (by simpa using some)]
      exact List.mem_cons_of_mem _ (List.mem_cons_self ..)
    have whole := fits _ _ written
    have one := Document.depth_le_items (List.mem_map_of_mem (f := SortKey.toDocument) listed)
    rw [SortKey.toDocument, Document.depth_fielded] at one
    rw [Document.depth_list] at whole
    omega
  have number : ∀ n : Option UInt64, optional? Document.word? (n.map Document.ofWord) = some n :=
    fun n => optional?_map fun v _ => ⟨nofun, Document.word?_ofWord v⟩
  rw [ofParts?, filter, sort, number, number]
  rfl

end Query

namespace Request

mutual

/-- All values that a request's filters compare with are taken from documents. -/
def FromJson : Request → Prop
  | ⟨_, relations, query⟩ =>
    (∀ f, query.filter = some f → f.FromJson) ∧ FromJsonBelow relations

def FromJsonBelow : List (String × Request) → Prop
  | [] => True
  | (_, request) :: rest => FromJson request ∧ FromJsonBelow rest

end

/-- The parts that a request is written as. -/
def parts (r : Request) : List (String × Option Document) :=
  ("fields", r.fields.map fun names => .list (names.map .ofText)) ::
    ("relations", if r.relations.isEmpty then none else some (.object (relationDocuments r.relations))) ::
    r.query.parts

theorem toDocument_eq (r : Request) : r.toDocument = .ofMembers (Document.present r.parts) := by
  obtain ⟨fields, relations, query⟩ := r
  rw [toDocument, query.members_eq]
  cases fields <;> cases relations <;> rfl

/-- Where there are relations, they are two levels below the request. -/
theorem depth_relations {r : Request} (some : r.relations ≠ []) :
    Document.depthOfMembers (relationDocuments r.relations) + 2 ≤ r.toDocument.depth := by
  have listed : ("relations", Option.some (.object (relationDocuments r.relations))) ∈ r.parts := by
    rw [parts, if_neg (by simpa using some)]
    exact List.mem_cons_of_mem _ (List.mem_cons_self ..)
  have below := Document.depth_lt_present listed
  rw [← toDocument_eq, Document.depth] at below
  exact below

theorem insertRelation_of_not_mem {name : String} {request : Request}
    {relations : List (String × Request)} (absent : name ∉ relations.map (·.1)) :
    insertRelation name request relations = relations ++ [(name, request)] := by
  induction relations with
  | nil => rfl
  | cons first rest ih =>
      obtain ⟨n, r⟩ := first
      obtain ⟨different, later⟩ := List.ne_and_not_mem_of_not_mem_cons absent
      rw [insertRelation, if_neg (Ne.symm different), ih later]
      rfl

/-- Relations of different names come back in the order in which they were written. -/
theorem foldlM_relationDocuments {read : Document → Option Request}
    {relations : List (String × Request)} (done : List (String × Request))
    (once : ((done ++ relations).map (·.1)).Nodup)
    (back : ∀ entry ∈ relations, read entry.2.toDocument = some entry.2) :
    (relationDocuments relations).foldlM (fun done m => do
      let name ← m.1
      let request ← read m.2
      return insertRelation name request done) done = some (done ++ relations) := by
  induction relations generalizing done with
  | nil => exact congrArg some (List.append_nil done).symm
  | cons first rest ih =>
      obtain ⟨name, request⟩ := first
      obtain ⟨here, later⟩ := List.forall_mem_cons.mp back
      have fresh : name ∉ done.map (·.1) := by
        rw [List.map_append] at once
        intro old
        exact (List.nodup_append.mp once).2.2 name old name (List.mem_cons_self ..) rfl
      have onward : ((done ++ [(name, request)] ++ rest).map (·.1)).Nodup := by
        rwa [List.append_assoc]
      rw [relationDocuments, List.foldlM_cons]
      simp only [here, Option.bind_eq_bind, Option.bind_some, Option.pure_def,
        insertRelation_of_not_mem fresh]
      exact (ih _ onward later).trans (congrArg some (List.append_assoc _ _ _))

theorem relationsOf?_relationDocuments {room : Nat} {read : Document → Option Request}
    {relations : List (String × Request)} (once : (relations.map (·.1)).Nodup)
    (fits : relations ≠ [] → 0 < room)
    (back : ∀ entry ∈ relations, read entry.2.toDocument = some entry.2) :
    relationsOf? room read (if relations.isEmpty then none
      else some (.object (relationDocuments relations))) = some relations := by
  cases relations with
  | nil => rfl
  | cons first rest =>
      have some : room ≠ 0 := Nat.ne_of_gt (fits (List.cons_ne_nil _ _))
      exact (if_neg some).trans (foldlM_relationDocuments [] once back)

/-- A request is read back where its relations are. -/
theorem ofRecord?_toDocument {r : Request} {room : Nat} {read : Document → Option Request}
    (given : ∀ f, r.query.filter = some f → f.FromJson) (once : (r.relations.map (·.1)).Nodup)
    (back : ∀ entry ∈ r.relations, read entry.2.toDocument = some entry.2)
    (fits : r.toDocument.depth ≤ room + 1) : ofRecord? room read r.toDocument = some r := by
  have inside : ∀ name d, (name, some d) ∈ r.parts → d.depth ≤ room := by
    intro name d listed
    have below := Document.depth_lt_present listed
    rw [← toDocument_eq] at below
    omega
  have names : (r.parts.map (·.1)).Nodup :=
    (by decide : ["fields", "relations", "filter", "sort", "page", "pageSize"].Nodup)
  have record : r.toDocument.record?
      ["fields", "relations", "filter", "sort", "page", "pageSize"] true = some (r.parts.map (·.2)) := by
    rw [toDocument_eq]
    exact Document.record?_present r.parts names true
  have fields : Query.optional? (fieldsOf? room)
      (r.fields.map fun names => .list (names.map .ofText)) = some r.fields := by
    refine Query.optional?_map fun names same => ⟨nofun, ?_⟩
    have listed : ("fields", some (.list (names.map .ofText))) ∈ r.parts := by
      rw [parts, same]
      exact List.mem_cons_self ..
    have room := inside _ _ listed
    rw [Document.depth_list] at room
    rw [fieldsOf?, if_neg (by omega)]
    exact mapM_map_eq_some fun _ _ => rfl
  have relations : relationsOf? room read (if r.relations.isEmpty then none
      else some (.object (relationDocuments r.relations))) = some r.relations := by
    refine relationsOf?_relationDocuments once (fun some => ?_) back
    have := depth_relations some
    omega
  have query := Query.ofParts?_parts given fun name d listed =>
    inside name d (List.mem_cons_of_mem _ (List.mem_cons_of_mem _ listed))
  rw [ofRecord?, record]
  change (Query.optional? (fieldsOf? room)
      (r.fields.map fun names => Document.list (names.map .ofText))).bind _ = _
  rw [fields, Option.bind_some]
  change (relationsOf? room read _).bind _ = _
  rw [relations, Option.bind_some]
  change (Query.ofParts? room _ _ _ _).bind _ = _
  rw [query]
  cases r with
  | mk _ _ _ => rfl

mutual

theorem ofDocument?_toDocument : ∀ {r : Request} {room : Nat}, r.FromJson → r.NamesOnce →
    r.toDocument.depth ≤ room → ofDocument? room r.toDocument = some r
  | ⟨fields, relations, query⟩, room, given, once, fits => by
      have deep : relations ≠ [] →
          Document.depthOfMembers (relationDocuments relations) + 2 ≤ room := fun some =>
        Nat.le_trans (depth_relations (r := ⟨fields, relations, query⟩) some) fits
      match room with
      | 0 =>
          rw [toDocument_eq, Document.ofMembers, Document.depth] at fits
          exact absurd fits (Nat.not_succ_le_zero _)
      | 1 =>
          refine ofRecord?_toDocument given.1 once.1 (fun entry member => ?_) fits
          have := deep (List.ne_nil_of_mem member)
          omega
      | inner + 2 =>
          refine ofRecord?_toDocument given.1 once.1 (fun entry member => ?_) fits
          have := deep (List.ne_nil_of_mem member)
          exact ofDocument?_relationDocuments given.2 once.2 (by omega) entry member

theorem ofDocument?_relationDocuments : ∀ {relations : List (String × Request)} {room : Nat},
    FromJsonBelow relations → NamesOnceBelow relations →
    Document.depthOfMembers (relationDocuments relations) ≤ room →
    ∀ entry ∈ relations, ofDocument? room entry.2.toDocument = some entry.2
  | [], _, _, _, _ => nofun
  | (name, request) :: rest, room, given, once, fits => by
      obtain ⟨here, later⟩ := Nat.max_le.mp fits
      exact List.forall_mem_cons.mpr ⟨ofDocument?_toDocument given.1 once.1 here,
        ofDocument?_relationDocuments given.2 once.2 later⟩

end

/-- A request is read back from its document, with room for its depth, as the request that it is. So it
is from its text, if that is read as the document that it was written for. -/
theorem read_back {r : Request} (given : r.FromJson) (once : r.NamesOnce) :
    (∀ room, r.toDocument.depth ≤ room → ofDocument? room r.toDocument = some r) ∧
      (Document.parse? r.render = some r.toDocument → r.toDocument.depth ≤ Document.depthLimit →
        parse r.render = .ok r) := by
  have back : ∀ room, r.toDocument.depth ≤ room → ofDocument? room r.toDocument = some r :=
    fun _ fits => ofDocument?_toDocument given once fits
  refine ⟨back, fun faithful fits => ?_⟩
  rw [parse, faithful, Option.bind_some, back _ fits]

/-- Related records of related records, an empty list of fields beside an absent one, and a filter that
compares with a document, a float and null. -/
def someArticles : Request :=
  ⟨some [], [("articles", ⟨some ["title"],
      [("tags", ⟨none, [], ⟨some (.like "label" "a%"), [], none, none⟩⟩), ("author", .empty)],
      ⟨some (.any [.isIn "id" [.int (-3), .float ⟨0x3FE0000000000000⟩, .bool true],
          .not (.compare .lt "meta" (.json (.object [("a", .list [.null, .number (.whole 7)])])))]),
        [⟨"title", .desc⟩], some 2, some 10⟩⟩)],
    ⟨some (.compare .eq "name" .null), [], none, none⟩⟩

theorem read_back_someArticles :
    someArticles.FromJson ∧ someArticles.NamesOnce ∧
      ofDocument? Document.depthLimit someArticles.toDocument = some someArticles := by
  have listed : ∀ v ∈ [Value.int (-3), .float ⟨0x3FE0000000000000⟩, .bool true], v.FromJson := by
    simp only [List.forall_mem_cons]
    exact ⟨⟨.number (.whole (-3)), ⟨by decide, by decide⟩, rfl⟩, ⟨.number (.real ⟨0x3FE0000000000000⟩),
      (by decide : Binary64.isFinite _ = true), rfl⟩, ⟨.bool true, trivial, rfl⟩, nofun⟩
  have document : (Value.json (.object [("a", .list [.null, .number (.whole 7)])])).FromJson :=
    ⟨.object [("a", .list [.null, .number (.whole 7)])], ⟨List.pairwise_singleton ..,
      ⟨trivial, ⟨by decide, by decide⟩, trivial⟩, trivial⟩, rfl⟩
  have given : someArticles.FromJson := by
    refine ⟨?_, ⟨?_, ⟨?_, trivial⟩, ⟨nofun, trivial⟩, trivial⟩, trivial⟩
    · rintro f ⟨⟩
      exact ⟨.null, trivial, rfl⟩
    · rintro f ⟨⟩
      exact ⟨listed, document, trivial⟩
    · rintro f ⟨⟩
      trivial
  have once : someArticles.NamesOnce :=
    ⟨by decide, ⟨by decide, ⟨List.nodup_nil, trivial⟩, ⟨List.nodup_nil, trivial⟩, trivial⟩, trivial⟩
  exact ⟨given, once, (read_back given once).1 _ (by decide)⟩

end Request

end NestedQuery
