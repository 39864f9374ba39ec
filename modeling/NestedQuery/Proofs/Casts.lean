/- The types that linked values are cast to: each is declared for a field whose values are in the column
that they are compared with, unless the column is a junction's and only the other side declares one. -/
import NestedQuery.Proofs.Select

namespace NestedQuery.Sql

/-- A condition that compares a column with one operand, or with any of several. -/
inductive Condition.Links (column : Column) : Condition → List Operand → Prop
  | one (operand : Operand) : Links column (.compare column .eq operand) [operand]
  | any (first : Operand) (rest : List Operand) :
      Links column (.isAny column first rest) (first :: rest)

/-- The value of a placeholder. They are counted from one. -/
def Statement.value? (st : Statement) : Nat → Option Value
  | 0 => none
  | i + 1 => st.params[i]?

/-- The last condition of a statement, with nothing but an order after it, compares a column with some
operands. -/
def Statement.LinkedBy (st : Statement) (column : Column) (operands : List Operand) : Prop :=
  ∃ first lead c keys, st.pieces = first ++ .words lead :: c.pieces ++ orderClause keys ∧
    lead ∈ [" WHERE ", " AND "] ∧ Condition.Links column c operands

namespace Shape

/-- The fields whose values are in the linked column: the parent's field that linked values are read
from, and the root's own one where the two are compared with each other. -/
inductive LinkedField (s : Shape) : Field → Prop
  | parent {id : Nat} {n : DataNode} {link : Link} {field : Field} :
      s.root.parent = some id → s.plan.dataNode id = .ok n → s.root.link = some link →
      n.format.field? link.parentField = some field → LinkedField s field
  | own {link : Link} {field : Field} :
      s.root.link = some link → link.isManyToMany = false →
      s.root.format.field? link.field = some field → LinkedField s field

/-- A cast of a linked value, if there is one, is to the type of such a field. -/
def CastFits (s : Shape) (o : Operand) : Prop :=
  ∀ type, o.type = some type → ∃ field, s.LinkedField field ∧ field.type = some type

variable {s : Shape} {id : Nat} {n : DataNode} {link : Link}

theorem linkedType_eq (above : s.root.parent = some id) (found : s.plan.dataNode id = .ok n)
    (linked : s.root.link = some link) :
    s.linkedType = (n.format.type? link.parentField).or (s.root.format.type? link.field) := by
  simp only [linkedType, linked, above, Option.bind_some, Plan.getElem?_of_dataNode found]

/-- The type that linked values are cast to fits, unless it is declared only for the far side of a
junction. -/
theorem castFits_iff (above : s.root.parent = some id) (found : s.plan.dataNode id = .ok n)
    (linked : s.root.link = some link) (index : Nat) :
    s.CastFits ⟨index, s.linkedType⟩ ↔
      (link.isManyToMany = true → n.format.type? link.parentField = none →
        s.root.format.type? link.field = none) := by
  have type := linkedType_eq above found linked
  constructor
  · intro fits many untyped
    cases own : s.root.format.type? link.field with
    | none => rfl
    | some far =>
        rw [untyped, own] at type
        obtain ⟨field, isLinked, declared⟩ := fits far type
        cases isLinked with
        | parent above' found' linked' known =>
            cases above.symm.trans above'
            cases found.symm.trans found'
            cases linked.symm.trans linked'
            rw [Format.type?, known, Option.bind_some, declared] at untyped
            cases untyped
        | own linked' single _ =>
            cases linked.symm.trans linked'
            cases many.symm.trans single
  · intro only given isType
    rw [type] at isType
    rcases Option.or_eq_some_iff.mp isType with ofParent | ⟨untyped, ofRoot⟩
    · obtain ⟨field, known, declared⟩ := Option.bind_eq_some_iff.mp ofParent
      exact ⟨field, .parent above found linked known, declared⟩
    · obtain ⟨field, known, declared⟩ := Option.bind_eq_some_iff.mp ofRoot
      cases many : link.isManyToMany with
      | true => cases (only many untyped).symm.trans ofRoot
      | false => exact ⟨field, .own linked many known, declared⟩

end Shape

/-- The operands that a batch is compared with, from a placeholder on. -/
def linkedOperands (type : Option String) (start : Nat) (batch : List Value) : List Operand :=
  (List.range batch.length).map fun i => ⟨start + i, type⟩

theorem Clause.linkedKey_links {s : Shape} {lead : String} {batch : List Value} {start : Nat}
    {f : Fragment} (rendered : linkedKey s lead batch start = .ok f) :
    ∃ column c, s.linkedColumn = .ok column ∧ f = ⟨.words (lead ++ " ") :: c.pieces, batch⟩ ∧
      Condition.Links column c (linkedOperands s.linkedType start batch) := by
  obtain ⟨column, found, rendered⟩ := Result.bind_eq_ok.mp rendered
  match batch, rendered with
  | [one], rendered =>
      cases rendered
      exact ⟨column, _, found, rfl, .one ⟨start, s.linkedType⟩⟩
  | one :: two :: rest, rendered =>
      cases rendered
      have operands : linkedOperands s.linkedType start (one :: two :: rest) =
          ⟨start, s.linkedType⟩ ::
            (List.range (two :: rest).length).map fun i => ⟨start + (i + 1), s.linkedType⟩ := by
        rw [linkedOperands, List.length_cons, List.range_succ_eq_map, List.map_cons, List.map_map]
        rfl
      refine ⟨column, .isAny column ⟨start, s.linkedType⟩
        ((List.range (two :: rest).length).map fun i => ⟨start + (i + 1), s.linkedType⟩), found, ?_, ?_⟩
      · rw [Condition.pieces, ← operands, linkedOperands, List.map_map]
        simp only [parameters, List.map_map]
        simp [Function.comp_def, Operand.pieces]
      · rw [operands]
        exact .any _ _

/-- Operands that are counted on from a fragment stand for the values of the next one, in order. -/
theorem linkedOperands_values (type : Option String) (first last : Fragment) (text : Pieces)
    (batch : List Value) :
    (linkedOperands type (first.next 1) batch).map
        (fun o => (Statement.ofFragment (first ++ (⟨text, batch⟩ ++ last))).value? o.index) =
      batch.map some := by
  apply List.ext_getElem?
  intro i
  rw [linkedOperands, List.map_map, List.getElem?_map, List.getElem?_map]
  by_cases inside : i < batch.length
  · have counted : first.next 1 + i = first.params.length + i + 1 := by
      rw [Fragment.next]
      omega
    have value : (first.params ++ (batch ++ last.params))[first.params.length + i]? = batch[i]? := by
      rw [List.getElem?_append_right (Nat.le_add_right _ _), Nat.add_sub_cancel_left,
        List.getElem?_append_left inside]
    rw [List.getElem?_range inside, Option.map_some, Function.comp_apply, counted]
    change some ((first.params ++ (batch ++ last.params))[first.params.length + i]?) = _
    rw [value, List.getElem?_eq_getElem inside]
    rfl
  · have outside : batch.length ≤ i := Nat.le_of_not_lt inside
    rw [List.getElem?_eq_none (by simpa using outside), List.getElem?_eq_none outside]
    rfl

/-- Where the last segment but the order is for linked values, these are compared with the linked
column. -/
theorem Statement.linkedBy_of_linkedKey {shape : Shape} {query : Query} {batch : List Value}
    (earlier : List Segment) {f : Fragment}
    (rendered : renderAll (Segment.render shape query batch) 1
      (earlier ++ [.linkedKey, .orderBy]) = .ok f) :
    ∃ column start, shape.linkedColumn = .ok column ∧
      (ofFragment f).LinkedBy column (linkedOperands shape.linkedType start batch) ∧
      (linkedOperands shape.linkedType start batch).map (fun o => (ofFragment f).value? o.index) =
        batch.map some := by
  obtain ⟨first, here, last, _, middle, after, rfl⟩ := renderAll_around rendered
  obtain ⟨lead, known, middle⟩ : ∃ lead, lead ++ " " ∈ [" WHERE ", " AND "] ∧
      Clause.linkedKey shape lead batch (first.next 1) = .ok here := by
    refine ⟨_, ?_, middle⟩
    split <;> decide
  obtain ⟨column, c, found, rfl, links⟩ := Clause.linkedKey_links middle
  obtain ⟨order, _, ordered, done, rfl⟩ := renderAll_cases after
  cases done
  obtain ⟨keys, _, rfl⟩ := Clause.orderBy_cases ordered
  refine ⟨column, first.next 1, found, ⟨first.pieces, lead ++ " ", c, keys, ?_, known, links⟩,
    linkedOperands_values shape.linkedType first _ _ batch⟩
  change first.pieces ++ (_ ++ (orderClause keys ++ [])) = _
  rw [List.append_nil]
  exact (List.append_assoc _ _ _).symm

namespace Memo

variable {s : Schema} {p : Plan} {plural : Bool} {request : Request} {k : Nat}

/-- After any calls the next statement of a node below another one compares the linked column with one
operand for each linked value, all of the same type. -/
theorem linked_operands (declared : s.Declared) {format : String}
    (built : Plan.build s.catalog format plural request = .ok p) {m : Memo}
    (fresh : ofPlan p k = .ok m) (below : k ≠ 0) (calls : List Call)
    (bound : (m.after calls).batch ≠ []) :
    ∃ shape id n link st column start, Shape.ofPlan p k = .ok shape ∧
      shape.root.parent = some id ∧ p.dataNode id = .ok n ∧ shape.root.link = some link ∧
      shape.plan = p ∧ (m.after calls).statement.1 = .ok st ∧ shape.linkedColumn = .ok column ∧
      st.LinkedBy column (linkedOperands shape.linkedType start (m.after calls).batch) ∧
      (linkedOperands shape.linkedType start (m.after calls).batch).map (fun o => st.value? o.index) =
        (m.after calls).batch.map some := by
  have valid := Plan.build_over declared built
  obtain ⟨shape, shaped, _⟩ := Result.bind_eq_ok.mp fresh
  have fits := Shape.fits_of_ofPlan valid declared.sound shaped
  obtain ⟨_, noRoot, n, name, link, place, child⟩ : k ≠ 0 ∧ shape.root.isRoot = false ∧
      ∃ n name link, p.data[n.id]? = some n ∧ Plan.Hangs s p n name shape.root link := by
    rcases fits.hung with first | hung
    · exact absurd first.1 below
    · exact hung
  obtain ⟨st, given⟩ := statement_after_succeeds valid declared.sound fits.query fresh calls
    fun _ => bound
  have anew := given
  rw [((coherent_ofPlan fresh).after calls).statement.1, Statement.anew, shaped, Result.ok_bind] at anew
  obtain ⟨f, all, anew⟩ := Result.bind_eq_ok.mp anew
  cases anew
  obtain ⟨column, start, linked⟩ : ∃ column start, shape.linkedColumn = .ok column ∧
      (Statement.ofFragment f).LinkedBy column
        (linkedOperands shape.linkedType start (m.after calls).batch) ∧
      (linkedOperands shape.linkedType start (m.after calls).batch).map
        (fun o => (Statement.ofFragment f).value? o.index) = (m.after calls).batch.map some := by
    rw [noRoot] at all
    cases lateral : shape.isLateral with
    | true =>
        rw [lateral] at all
        exact Statement.linkedBy_of_linkedKey
          [.head, .filter, .orderBy, .pagination, .lateralClose, .joins] all
    | false =>
        rw [lateral] at all
        exact Statement.linkedBy_of_linkedKey [.head, .joins, .filter] all
  exact ⟨shape, n.id, n, link, _, column, start, shaped, child.parent_eq, Plan.dataNode_eq_ok place,
    child.link_eq, fits.plan_eq, given, linked⟩

/-- The operands that linked values are bound to are cast to types that fit the linked column, except
where it is a junction's and only the node's own field declares a type. -/
theorem linked_casts_fit_iff (declared : s.Declared) {format : String}
    (built : Plan.build s.catalog format plural request = .ok p) {m : Memo}
    (fresh : ofPlan p k = .ok m) (below : k ≠ 0) (calls : List Call)
    (bound : (m.after calls).batch ≠ []) :
    ∃ shape id n link st column operands, Shape.ofPlan p k = .ok shape ∧
      shape.root.parent = some id ∧ p.dataNode id = .ok n ∧ shape.root.link = some link ∧
      (m.after calls).statement.1 = .ok st ∧ shape.linkedColumn = .ok column ∧
      st.LinkedBy column operands ∧
      operands.map (fun o => st.value? o.index) = (m.after calls).batch.map some ∧
      ((∀ o ∈ operands, shape.CastFits o) ↔
        (link.isManyToMany = true → n.format.type? link.parentField = none →
          shape.root.format.type? link.field = none)) := by
  obtain ⟨shape, id, n, link, st, column, start, shaped, above, found, isLink, same, given, isColumn,
    linked, values⟩ := linked_operands declared built fresh below calls bound
  refine ⟨shape, id, n, link, st, column, _, shaped, above, found, isLink, given, isColumn, linked,
    values, ?_⟩
  have fit := fun index => Shape.castFits_iff above (same.symm ▸ found) isLink index
  constructor
  · intro all
    refine (fit (start + 0)).mp (all _ ?_)
    exact List.mem_map.mpr ⟨0, List.mem_range.mpr (List.length_pos_iff.mpr bound), rfl⟩
  · intro only o listed
    obtain ⟨i, _, rfl⟩ := List.mem_map.mp listed
    exact (fit (start + i)).mpr only

end Memo

namespace Fleet

def user : Format := ⟨"user", "users", [⟨"id", "id", none⟩, ⟨"name", "name", none⟩]⟩

def device : Format := ⟨"device", "device", [⟨"id", "id", some "uuid"⟩, ⟨"label", "label", none⟩]⟩

def ownership : Relation := .manyToMany ⟨"user", "id"⟩ ⟨"device", "id"⟩

/-- Users and the devices that they share. Only the identifier of a device has a declared type. -/
def schema : Schema where
  formats := [user, device]
  relations := Schema.namedSides ownership (some "devices") (some "owners")

theorem schema_declared : schema.Declared := by
  have users : Schema.Declared ⟨[user], []⟩ := .addFormat .empty (rfl : Schema.addFormat .empty user = _)
  have devices : Schema.Declared ⟨[user, device], []⟩ :=
    .addFormat users (rfl : Schema.addFormat _ device = _)
  exact .relate devices
    (rfl : Schema.relate _ ownership (some "devices") (some "owners") = .ok schema)

def devicesWithOwners : Request := ⟨none, [("owners", ⟨some ["name"], [], .empty⟩)], .empty⟩

def usersWithDevices : Request := ⟨none, [("devices", ⟨some ["label"], [], .empty⟩)], .empty⟩

end Fleet

namespace Memo

/-- Two devices are compared, as what devices are declared, with the junction's column of devices. -/
theorem linked_casts_fit_owners : ∃ plan m shape st column operands,
    Plan.build Fleet.schema.catalog "device" true Fleet.devicesWithOwners = .ok plan ∧
      ofPlan plan 1 = .ok m ∧ Shape.ofPlan plan 1 = .ok shape ∧ shape.linkedType = some "uuid" ∧
      (m.after [.setBatch [.text "a", .text "b"]]).statement.1 = .ok st ∧
      st.LinkedBy column operands ∧
      operands.map (fun o => st.value? o.index) = [some (.text "a"), some (.text "b")] ∧
      ∀ o ∈ operands, shape.CastFits o := by
  have some : ∃ plan m shape n link,
      Plan.build Fleet.schema.catalog "device" true Fleet.devicesWithOwners = .ok plan ∧
      ofPlan plan 1 = .ok m ∧ Shape.ofPlan plan 1 = .ok shape ∧ shape.linkedType = some "uuid" ∧
      (m.after [.setBatch [.text "a", .text "b"]]).batch = [.text "a", .text "b"] ∧
      shape.root.parent = some 0 ∧ plan.dataNode 0 = .ok n ∧ shape.root.link = some link ∧
      n.format.type? link.parentField = some "uuid" :=
    ⟨_, _, _, _, _, rfl, rfl, rfl, rfl, rfl, rfl, rfl, rfl, rfl⟩
  obtain ⟨plan, m, shape, n, link, built, fresh, shaped, isType, batch, above, found, isLink, typed⟩ :=
    some
  obtain ⟨shape', id, n', link', st, column, operands, shaped', above', found', isLink', given, _,
    linked, values, fit⟩ := linked_casts_fit_iff Fleet.schema_declared built fresh (by decide)
      [.setBatch [.text "a", .text "b"]] (by rw [batch]; exact List.cons_ne_nil _ _)
  cases shaped.symm.trans shaped'
  cases above.symm.trans above'
  cases found.symm.trans found'
  cases isLink.symm.trans isLink'
  rw [batch] at values
  refine ⟨plan, m, shape, st, column, operands, built, fresh, shaped, isType, given, linked, values,
    fit.mpr ?_⟩
  intro _ untyped
  cases typed.symm.trans untyped

/-- A user is compared, as if it were a device, with the junction's column of users. -/
theorem linked_cast_misfits : ∃ plan m shape st column operands,
    Plan.build Fleet.schema.catalog "user" true Fleet.usersWithDevices = .ok plan ∧
      ofPlan plan 1 = .ok m ∧ Shape.ofPlan plan 1 = .ok shape ∧
      (m.after [.setBatch [.int 1]]).statement.1 = .ok st ∧ shape.linkedColumn = .ok column ∧
      st.LinkedBy column operands ∧ operands.map (fun o => st.value? o.index) = [some (.int 1)] ∧
      ∃ o ∈ operands, ¬shape.CastFits o := by
  have some : ∃ plan m shape n link,
      Plan.build Fleet.schema.catalog "user" true Fleet.usersWithDevices = .ok plan ∧
      ofPlan plan 1 = .ok m ∧ Shape.ofPlan plan 1 = .ok shape ∧
      (m.after [.setBatch [.int 1]]).batch = [.int 1] ∧
      shape.root.parent = some 0 ∧ shape.plan.dataNode 0 = .ok n ∧ shape.root.link = some link ∧
      link.isManyToMany = true ∧ n.format.type? link.parentField = none ∧
      shape.root.format.type? link.field = some "uuid" :=
    ⟨_, _, _, _, _, rfl, rfl, rfl, rfl, rfl, rfl, rfl, rfl, rfl, rfl⟩
  obtain ⟨plan, m, shape, n, link, built, fresh, shaped, batch, above, found, isLink, many, untyped,
    typed⟩ := some
  obtain ⟨shape', _, _, _, st, column, start, shaped', _, _, _, _, given, isColumn, linked, values⟩ :=
    linked_operands Fleet.schema_declared built fresh (by decide) [.setBatch [.int 1]]
      (by rw [batch]; exact List.cons_ne_nil _ _)
  cases shaped.symm.trans shaped'
  rw [batch] at values linked
  refine ⟨plan, m, shape, st, column, _, built, fresh, shaped, given, isColumn, linked, values,
    ⟨start + 0, shape.linkedType⟩, List.mem_cons_self .., ?_⟩
  intro fits
  cases ((Shape.castFits_iff above found isLink _).mp fits many untyped).symm.trans typed

end Memo

end NestedQuery.Sql
