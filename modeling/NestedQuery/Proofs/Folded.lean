/- What is folded from rows as they are held is a result as it is held, whatever the plan: every object has
its fields in the order of their names, at all depths, before and after pruning. -/
import NestedQuery.Proofs.Fold
import NestedQuery.Proofs.Serialization

namespace NestedQuery

namespace Result

variable {α β : Type u} {P : α → Prop} {Q : β → Prop}

/-- What the computation gives, unless it is refused, is as stated. -/
inductive Yields (P : α → Prop) : Result α → Prop
  | error (error : QueryError) : Yields P (.error error)
  | ok {a : α} (given : P a) : Yields P (.ok a)

theorem Yields.bind {x : Result α} {f : α → Result β} (first : Yields P x)
    (later : ∀ a, P a → Yields Q (f a)) : Yields Q (x >>= f) := by
  cases first with
  | error error => exact .error error
  | ok given => exact later _ given

theorem Yields.given {x : Result α} {a : α} (yields : Yields P x) (done : x = .ok a) : P a := by
  subst done
  cases yields with
  | ok given => exact given

/-- For a step of whose result nothing is needed. -/
theorem Yields.after {x : Result α} {f : α → Result β} (later : ∀ a, Yields Q (f a)) :
    Yields Q (x >>= f) := by
  cases x with
  | error error => exact .error error
  | ok a => exact later a

theorem Yields.foldlM {xs : List α} {f : β → α → Result β} {start : β} (first : Q start)
    (kept : ∀ state, Q state → ∀ x ∈ xs, Yields Q (f state x)) : Yields Q (xs.foldlM f start) := by
  induction xs generalizing start with
  | nil => exact .ok first
  | cons x rest ih =>
      rw [List.foldlM_cons]
      apply (kept start first x (List.mem_cons_self ..)).bind
      intro next given
      exact ih given fun state holds y listed => kept state holds y (List.mem_cons_of_mem _ listed)

theorem Yields.mapM {xs : List α} {f : α → Result β} (each : ∀ x ∈ xs, Yields Q (f x)) :
    Yields (fun ys => ∀ y ∈ ys, Q y) (xs.mapM f) := by
  induction xs with
  | nil => exact .ok (List.forall_mem_nil _)
  | cons x rest ih =>
      obtain ⟨head, tail⟩ := List.forall_mem_cons.mp each
      rw [List.mapM_cons]
      apply head.bind
      intro y first
      apply (ih tail).bind
      intro ys others
      exact .ok (List.forall_mem_cons.mpr ⟨first, others⟩)

end Result

open Result (Yields)

namespace Tree

theorem wellFormedItems_iff {items : List Tree} :
    WellFormedItems items ↔ ∀ t ∈ items, t.WellFormed := by
  induction items with
  | nil => exact iff_of_true trivial (List.forall_mem_nil _)
  | cons item rest ih => rw [WellFormedItems, ih, List.forall_mem_cons]

theorem wellFormedFields_iff {fields : Fields Tree} :
    WellFormedFields fields ↔ ∀ entry ∈ fields, entry.2.WellFormed := by
  induction fields with
  | nil => exact iff_of_true trivial (List.forall_mem_nil _)
  | cons entry rest ih => rw [WellFormedFields, ih, List.forall_mem_cons]

/-- The fields of an object as it is held. -/
def WellFormedObject (fields : Fields Tree) : Prop := (Tree.object fields).WellFormed

theorem WellFormedObject.insert {fields : Fields Tree} (object : WellFormedObject fields) {t : Tree}
    (value : t.WellFormed) (name : String) : WellFormedObject (Fields.insert name t fields) := by
  refine ⟨object.1.insert name t, wellFormedFields_iff.mpr fun entry member => ?_⟩
  rcases Fields.mem_insert member with rfl | old
  · exact value
  · exact wellFormedFields_iff.mp object.2 entry old

end Tree

/-- A row of values as they are held. -/
def Row.WellFormed (row : Row) : Prop := ∀ entry ∈ row, entry.2.WellFormed

def Groups.WellFormed (groups : Groups) : Prop := ∀ g ∈ groups, ∀ t ∈ g.2, t.WellFormed

theorem Row.WellFormed.column {row : Row} (held : row.WellFormed) (label : String) :
    ((Fields.find? label row).getD .null).WellFormed := by
  cases found : Fields.find? label row with
  | none => trivial
  | some value => exact held _ (Fields.mem_of_find? found)

theorem Groups.WellFormed.add {groups : Groups} (held : groups.WellFormed) {object : Tree}
    (new : object.WellFormed) (key : Value) : (groups.add key object).WellFormed := by
  induction groups with
  | nil => exact List.forall_mem_singleton.mpr (List.forall_mem_singleton.mpr new)
  | cons group rest ih =>
      obtain ⟨first, later⟩ := List.forall_mem_cons.mp held
      rw [Groups.add]
      split
      · refine List.forall_mem_cons.mpr ⟨?_, later⟩
        exact List.forall_mem_append.mpr ⟨first, List.forall_mem_singleton.mpr new⟩
      · exact List.forall_mem_cons.mpr ⟨first, ih later⟩

theorem Groups.WellFormed.found {groups : Groups} (held : groups.WellFormed) (key : Value) :
    ∀ t ∈ groups.find key, t.WellFormed := by
  rw [Groups.find]
  split
  · next g found => exact held g (List.mem_of_find?_eq_some found)
  · exact List.forall_mem_nil _

namespace Plan

variable {p : Plan} {below : Below} {row : Row}

def Below.WellFormed (below : Below) : Prop := ∀ entry ∈ below, Groups.WellFormed entry.2

/-- A list of objects for a plural node and the first of them, if there is one, for a single one. -/
theorem wellFormed_of_objects {objects : List Tree} (each : ∀ t ∈ objects, t.WellFormed)
    (plural : Bool) : (rootTree plural objects).WellFormed := by
  cases plural with
  | true => exact Tree.wellFormedItems_iff.mpr each
  | false =>
      cases objects with
      | nil => trivial
      | cons t rest => exact each t (List.mem_cons_self ..)

theorem related_wellFormed (held : below.WellFormed) (child : DataNode) (key : Option Value) :
    (p.related below child key).WellFormed := by
  apply wellFormed_of_objects
  split
  · next key groups owned =>
      obtain ⟨a, _, listed⟩ := Option.bind_eq_some_iff.mp owned
      exact (held (a, groups) (Fields.mem_of_lookup listed)).found key
  · exact List.forall_mem_nil _

theorem scalars_wellFormed (held : row.WellFormed) (n : DataNode) :
    Yields Tree.WellFormedObject (scalars n row) := by
  apply Yields.foldlM
  · exact ⟨.nil, trivial⟩
  · intro fields object field _
    apply Yields.after
    intro label
    exact .ok (object.insert (t := .scalar _) (held.column label) field)

theorem attach_wellFormed (held : below.WellFormed) (n : DataNode) (id : Nat)
    (later : ∀ k, id < k → k < p.data.length → Yields Tree.WellFormed (p.object below row k))
    {fields : Fields Tree} (object : Tree.WellFormedObject fields) (c : String × Nat) :
    Yields Tree.WellFormedObject (p.attach below row id n fields c) := by
  apply Yields.after
  intro child
  apply Yields.after
  intro key
  dsimp only
  split
  · apply Yields.after
    intro present
    split
    · split
      · next inside =>
          apply (later c.2 inside.1 inside.2).bind
          intro t value
          exact .ok (object.insert value c.1)
      · exact .error _
    · exact .ok (object.insert (t := .absent) trivial c.1)
  · exact .ok (object.insert (related_wellFormed held child key) c.1)

/-- The object of a row, by recursion on the nodes after the given one. -/
theorem object_wellFormed (rows : row.WellFormed) (held : below.WellFormed) (id : Nat) :
    Yields Tree.WellFormed (p.object below row id) := by
  rw [object_eq_attach]
  apply Yields.after
  intro n
  apply (scalars_wellFormed rows n).bind
  intro start first
  apply Yields.bind (P := Tree.WellFormedObject)
  · apply Yields.foldlM first
    intro fields object c _
    apply attach_wellFormed held n id _ object
    intro k after inside
    exact object_wellFormed rows held k
  · intro fields object
    exact .ok object
termination_by p.data.length - id

theorem groups_wellFormed (held : below.WellFormed) (root : DataNode) {rows : List Row}
    (each : ∀ row ∈ rows, row.WellFormed) : Yields Groups.WellFormed (p.groups below root rows) := by
  apply Yields.after
  intro label
  apply Yields.foldlM
  · exact List.forall_mem_nil _
  · intro groups wellFormed row listed
    split
    · exact .ok wellFormed
    · next key _ =>
        apply (object_wellFormed (each row listed) held root.id).bind
        intro object new
        exact .ok (wellFormed.add new key)

theorem groupsOf_wellFormed {rows : List (List Row)} (each : ∀ set ∈ rows, ∀ row ∈ set, row.WellFormed)
    (queries : List QueryNode) : Yields Below.WellFormed (p.groupsOf rows queries) := by
  induction queries with
  | nil => exact .ok (List.forall_mem_nil _)
  | cons q rest ih =>
      rw [groupsOf]
      apply ih.bind
      intro below held
      apply Yields.after
      intro root
      have own : ∀ row ∈ (rows[q.id]?).getD [], row.WellFormed := by
        cases set : rows[q.id]? with
        | none => exact List.forall_mem_nil _
        | some rows => exact each rows (List.mem_of_getElem? set)
      apply (groups_wellFormed held root own).bind
      intro groups new
      exact .ok (List.forall_mem_cons.mpr ⟨new, held⟩)

mutual

/-- Fields are left out of an object, and the others stay in their order. -/
theorem prune_wellFormed (p : Plan) : ∀ (id : Nat) (t : Tree), t.WellFormed → (p.prune id t).WellFormed
  | id, .list items, held => by
      rw [prune]
      exact pruneItems_wellFormed p id items held
  | id, .object fields, held => by
      rw [prune]
      split
      · exact held
      · next n _ =>
          refine ⟨?_, pruneFields_wellFormed p n fields held.2⟩
          rw [pruneFields_eq]
          exact held.1.filter_map (fun name => !n.selection.linkageOnly.contains name) _
  | id, .scalar value, held => by
      rw [prune]
      exact held
  | id, .absent, held => by
      rw [prune]
      exact held

theorem pruneItems_wellFormed (p : Plan) : ∀ (id : Nat) (items : List Tree),
    Tree.WellFormedItems items → Tree.WellFormedItems (p.pruneItems id items)
  | _, [], held => by
      rw [pruneItems]
      exact held
  | id, item :: rest, held => by
      rw [pruneItems]
      exact ⟨prune_wellFormed p id item held.1, pruneItems_wellFormed p id rest held.2⟩

theorem pruneFields_wellFormed (p : Plan) : ∀ (n : DataNode) (fields : List (String × Tree)),
    Tree.WellFormedFields fields → Tree.WellFormedFields (p.pruneFields n fields)
  | _, [], held => by
      rw [pruneFields]
      exact held
  | n, (name, t) :: rest, held => by
      have others := pruneFields_wellFormed p n rest held.2
      rw [pruneFields]
      split
      · exact others
      · split
        · next child _ => exact ⟨prune_wellFormed p child t held.1, others⟩
        · exact ⟨held.1, others⟩

end

/-- What is folded from rows as they are held is a result as it is held. -/
theorem fold_wellFormed {rows : List (List Row)} (each : ∀ set ∈ rows, ∀ row ∈ set, row.WellFormed)
    {t : Tree} (folded : p.fold rows = .ok t) : t.WellFormed := by
  suffices Yields Tree.WellFormed (p.fold rows) from this.given folded
  have first : ∀ row ∈ rows.headD [], row.WellFormed := by
    cases rows with
    | nil => exact List.forall_mem_nil _
    | cons set rest => exact each set (List.mem_cons_self ..)
  rw [fold]
  split
  · exact .error _
  · apply (groupsOf_wellFormed each (p.queries.drop 1)).bind
    intro below held
    apply Yields.after
    intro root
    apply (Yields.mapM fun row listed => object_wellFormed (first row listed) held root.id).bind
    intro objects wellFormed
    exact .ok (prune_wellFormed p root.id _ (wellFormed_of_objects wellFormed root.plural))

end Plan
end NestedQuery
