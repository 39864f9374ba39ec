/- What the text of a clause is when it can be given: its pieces, the columns that they name and the
values that are bound. -/
import NestedQuery.Proofs.Rendering

namespace NestedQuery

theorem Result.mapM_images {α β γ : Type} {xs : List α} {f : α → Result β} {g : γ → β}
    {holds : γ → Prop} (each : ∀ x ∈ xs, ∀ y, f x = .ok y → ∃ z, y = g z ∧ holds z) {ys : List β}
    (done : xs.mapM f = .ok ys) : ∃ zs : List γ, ys = zs.map g ∧ ∀ z ∈ zs, holds z := by
  induction xs generalizing ys with
  | nil =>
      cases done
      exact ⟨[], rfl, nofun⟩
  | cons x rest ih =>
      rw [List.mapM_cons] at done
      obtain ⟨y, first, done⟩ := bind_eq_ok.mp done
      obtain ⟨later, others, done⟩ := bind_eq_ok.mp done
      cases done
      obtain ⟨head, tail⟩ := List.forall_mem_cons.mp each
      obtain ⟨z, rfl, this⟩ := head y first
      obtain ⟨zs, rfl, those⟩ := ih tail others
      exact ⟨z :: zs, rfl, List.forall_mem_cons.mpr ⟨this, those⟩⟩

/-- A node selects fields of its own format under its own number. -/
theorem Planned.selection_own {catalog : Catalog} {data : List DataNode} {n : DataNode}
    (planned : Planned catalog data n) :
    n.selection.node = n.id ∧ ∀ field ∈ n.selection.selected, field ∈ n.format.fields := by
  obtain ⟨returned, links, _, selection⟩ := planned.selection_eq
  rw [selection]
  exact ⟨rfl, fun field member => List.mem_of_mem_filter member⟩

theorem Plan.getElem?_of_dataNode {p : Plan} {id : Nat} {n : DataNode}
    (found : p.dataNode id = .ok n) : p.data[id]? = some n := by
  unfold Plan.dataNode at found
  split at found
  · next known =>
      cases found
      exact known
  · cases found

theorem isDigit_toString (n : Nat) : ∀ c ∈ (toString n).toList, c.isDigit = true := by
  intro c member
  rw [Nat.toString_eq_ofList_toDigits, String.toList_ofList] at member
  exact Nat.isDigit_of_mem_toDigits (Nat.succ_pos 9) (Nat.le_refl 10) member

theorem toString_injective {m n : Nat} (same : toString m = toString n) : m = n := by
  rw [Nat.toString_eq_ofList_toDigits, Nat.toString_eq_ofList_toDigits] at same
  have digits := congrArg (Nat.ofDigitChars 10 · 0) (String.ofList_injective same)
  simpa only [Nat.ofDigitChars_ten_toDigits] using digits

namespace Sql

variable {format : Format} {label : String}

theorem fieldColumn_cases {name : String} {column : Column}
    (found : fieldColumn format label name = .ok column) :
    ∃ field ∈ format.fields, column = ⟨label, field.column⟩ ∧ format.type? name = field.type := by
  obtain ⟨stored, known, found⟩ := Result.bind_eq_ok.mp found
  obtain ⟨field, listed, rfl⟩ := Format.requireColumn_cases known
  obtain rfl := Except.ok.inj found
  refine ⟨field, (Format.field?_cases listed).1, rfl, ?_⟩
  rw [Format.type?, listed, Option.bind_some]

/-- Filters one after another, each with the placeholders that follow those before it. -/
inductive Chain (holds : Nat → Fragment → Prop) : Nat → List Fragment → Prop
  | nil {start : Nat} : Chain holds start []
  | cons {start : Nat} {first : Fragment} {rest : List Fragment} :
      holds start first → Chain holds (first.next start) rest → Chain holds start (first :: rest)

/-- A property of text with a first placeholder that filters hand on, whatever their kind. -/
structure Closed (format : Format) (label : String) (holds : Nat → Fragment → Prop) : Prop where
  constant : ∀ start (value : Bool),
    holds start (.ofPieces [.words (if value then "TRUE" else "FALSE")])
  nullTest : ∀ start, ∀ field ∈ format.fields, ∀ isNull,
    holds start (nullTest ⟨label, field.column⟩ isNull)
  compare : ∀ start, ∀ field ∈ format.fields, ∀ comparison value,
    holds start ⟨Column.pieces ⟨label, field.column⟩ ++ .words s!" {Comparison.sign comparison} "
      :: parameter start field.type, [value]⟩
  isIn : ∀ start, ∀ field ∈ format.fields, ∀ first rest,
    holds start ⟨Column.pieces ⟨label, field.column⟩ ++ .words " IN ("
      :: Pieces.separated ", " (parameters start (first :: rest).length field.type)
      ++ [.words ")"], first :: rest⟩
  like : ∀ start, ∀ field ∈ format.fields, ∀ pattern,
    holds start ⟨Column.pieces ⟨label, field.column⟩ ++ .words " LIKE " :: parameter start none,
      [.text pattern]⟩
  chain : ∀ start first rest (every : Bool), Chain holds start (first :: rest) →
    holds start ⟨.words "(" :: Pieces.separated (if every then " AND " else " OR ")
      ((first :: rest).map (·.pieces)) ++ [.words ")"], (first :: rest).flatMap (·.params)⟩
  negation : ∀ start inner, holds start inner →
    holds start ⟨.words "NOT (" :: inner.pieces ++ [.words ")"], inner.params⟩

theorem predicates_cons {start : Nat} {filters : List Filter} {parts : List Fragment}
    (rendered : predicates format label start filters = .ok parts) (some : ¬filters.isEmpty) :
    ∃ first rest, parts = first :: rest := by
  cases filters with
  | nil => exact absurd rfl some
  | cons filter rest =>
      rw [predicates] at rendered
      obtain ⟨first, _, rendered⟩ := Result.bind_eq_ok.mp rendered
      obtain ⟨others, _, rendered⟩ := Result.bind_eq_ok.mp rendered
      exact ⟨first, others, (Except.ok.inj rendered).symm⟩

mutual

theorem Closed.predicate {holds : Nat → Fragment → Prop} (closed : Closed format label holds) :
    ∀ (filter : Filter) (start : Nat) {f : Fragment},
      predicate format label start filter = .ok f → holds start f
  | .compare comparison name value, start, f, rendered => by
      rw [Sql.predicate] at rendered
      obtain ⟨column, found, rendered⟩ := Result.bind_eq_ok.mp rendered
      obtain ⟨field, member, rfl, type⟩ := fieldColumn_cases found
      split at rendered
      · cases rendered
        exact closed.nullTest start field member true
      · cases rendered
        exact closed.nullTest start field member false
      · cases rendered
        rw [type]
        exact closed.compare start field member comparison value
  | .isIn name values, start, f, rendered => by
      rw [Sql.predicate] at rendered
      cases values with
      | nil =>
          cases rendered
          exact closed.constant start false
      | cons first rest =>
          obtain ⟨column, found, rendered⟩ := Result.bind_eq_ok.mp rendered
          obtain ⟨field, member, rfl, type⟩ := fieldColumn_cases found
          cases rendered
          rw [type]
          exact closed.isIn start field member first rest
  | .isNull name, start, f, rendered => by
      rw [Sql.predicate] at rendered
      obtain ⟨column, found, rendered⟩ := Result.bind_eq_ok.mp rendered
      obtain ⟨field, member, rfl, _⟩ := fieldColumn_cases found
      cases rendered
      exact closed.nullTest start field member true
  | .isNotNull name, start, f, rendered => by
      rw [Sql.predicate] at rendered
      obtain ⟨column, found, rendered⟩ := Result.bind_eq_ok.mp rendered
      obtain ⟨field, member, rfl, _⟩ := fieldColumn_cases found
      cases rendered
      exact closed.nullTest start field member false
  | .like name pattern, start, f, rendered => by
      rw [Sql.predicate] at rendered
      obtain ⟨column, found, rendered⟩ := Result.bind_eq_ok.mp rendered
      obtain ⟨field, member, rfl, _⟩ := fieldColumn_cases found
      cases rendered
      exact closed.like start field member pattern
  | .all filters, start, f, rendered => by
      rw [Sql.predicate] at rendered
      split at rendered
      · cases rendered
        exact closed.constant start true
      · next some =>
          obtain ⟨parts, each, rendered⟩ := Result.bind_eq_ok.mp rendered
          obtain ⟨first, rest, rfl⟩ := predicates_cons each some
          cases rendered
          exact closed.chain start first rest true (closed.predicates filters start each)
  | .any filters, start, f, rendered => by
      rw [Sql.predicate] at rendered
      split at rendered
      · cases rendered
        exact closed.constant start false
      · next some =>
          obtain ⟨parts, each, rendered⟩ := Result.bind_eq_ok.mp rendered
          obtain ⟨first, rest, rfl⟩ := predicates_cons each some
          cases rendered
          exact closed.chain start first rest false (closed.predicates filters start each)
  | .not filter, start, f, rendered => by
      rw [Sql.predicate] at rendered
      obtain ⟨inner, within, rendered⟩ := Result.bind_eq_ok.mp rendered
      cases rendered
      exact closed.negation start inner (closed.predicate filter start within)

theorem Closed.predicates {holds : Nat → Fragment → Prop} (closed : Closed format label holds) :
    ∀ (filters : List Filter) (start : Nat) {parts : List Fragment},
      predicates format label start filters = .ok parts → Chain holds start parts
  | [], start, parts, rendered => by
      rw [Sql.predicates] at rendered
      cases rendered
      exact .nil
  | filter :: rest, start, parts, rendered => by
      rw [Sql.predicates] at rendered
      obtain ⟨first, head, rendered⟩ := Result.bind_eq_ok.mp rendered
      obtain ⟨others, tail, rendered⟩ := Result.bind_eq_ok.mp rendered
      cases rendered
      exact .cons (closed.predicate filter start head) (closed.predicates rest (first.next start) tail)

end

/-- A column that is projected under a label. -/
structure Item where
  column : Column
  label : String
  deriving DecidableEq, Repr

def Item.pieces (i : Item) : Pieces := i.column.pieces ++ [.words " AS ", .name i.label]

theorem Selector.pieces_labelled {column source label : String} {parts : Pieces}
    (rendered : (((Selector.ofColumn column).withSource source).withLabel label).pieces = .ok parts) :
    parts = Item.pieces ⟨⟨source, column⟩, label⟩ := by
  change Selector.pieces ⟨some source, column, some label⟩ = .ok parts at rendered
  unfold Selector.pieces at rendered
  split at rendered
  · cases rendered
  · split at rendered
    · cases rendered
    · exact (Except.ok.inj rendered).symm

/-- A field of a node as it is projected. -/
def Item.OfNode (n : DataNode) (i : Item) : Prop :=
  ∃ field ∈ n.format.fields, i = ⟨⟨n.label, field.column⟩, n.selection.label field.name⟩

namespace Shape

theorem nodeProjection_cases {n : DataNode} {parts : List Pieces}
    (rendered : nodeProjection n = .ok parts) :
    ∃ items : List Item, parts = items.map Item.pieces ∧ ∀ i ∈ items, i.OfNode n := by
  refine Result.mapM_images ?_ rendered
  intro name selected text given
  obtain ⟨column, found, given⟩ := Result.bind_eq_ok.mp given
  obtain ⟨field, listed, rfl⟩ := Format.requireColumn_cases found
  obtain ⟨member, rfl⟩ := Format.field?_cases listed
  rw [Selection.requireLabel_of_mem selected, Result.ok_bind] at given
  exact ⟨_, Selector.pieces_labelled given, field, member, rfl⟩

/-- A junction's column as it is projected: from the junction itself, or from the lateral subquery
that has selected it. -/
def JunctionItem (s : Shape) (i : Item) : Prop :=
  ∃ j, s.junction? = some j ∧
    ((s.isLateral = true ∧ i = ⟨⟨s.root.label, nearColumn⟩, s.root.junctionNearLabel⟩) ∨
      (s.isLateral = true ∧ i = ⟨⟨s.root.label, farColumn⟩, s.root.junctionFarLabel⟩) ∨
      (s.isLateral = false ∧ i = ⟨⟨s.root.junctionLabel, j.near⟩, s.root.junctionNearLabel⟩) ∨
      s.isLateral = false ∧ i = ⟨⟨s.root.junctionLabel, j.far⟩, s.root.junctionFarLabel⟩)

theorem junctionProjection_cases {s : Shape} {parts : List Pieces}
    (rendered : s.junctionProjection = .ok parts) :
    ∃ items : List Item, parts = items.map Item.pieces ∧ ∀ i ∈ items, s.JunctionItem i := by
  unfold junctionProjection at rendered
  cases found : s.junction? with
  | none =>
      rw [found] at rendered
      cases rendered
      exact ⟨[], rfl, nofun⟩
  | some j =>
      simp only [found] at rendered
      obtain ⟨near, first, rendered⟩ := Result.bind_eq_ok.mp rendered
      obtain ⟨far, second, rendered⟩ := Result.bind_eq_ok.mp rendered
      cases rendered
      rw [Selector.pieces_labelled first, Selector.pieces_labelled second]
      refine ⟨[_, _], rfl, List.forall_mem_cons.mpr ⟨⟨j, found, ?_⟩, ?_⟩⟩
      · cases s.isLateral with
        | true => exact .inl ⟨rfl, rfl⟩
        | false => exact .inr (.inr (.inl ⟨rfl, rfl⟩))
      · intro i last
        obtain rfl := List.mem_singleton.mp last
        refine ⟨j, found, ?_⟩
        cases s.isLateral with
        | true => exact .inr (.inl ⟨rfl, rfl⟩)
        | false => exact .inr (.inr (.inr ⟨rfl, rfl⟩))

/-- What a statement projects: fields of its nodes, and the columns of its junction. -/
def Projects (s : Shape) (i : Item) : Prop :=
  (∃ id ∈ s.query.members, ∃ n, s.plan.dataNode id = .ok n ∧ i.OfNode n) ∨ s.JunctionItem i

theorem projection_cases {s : Shape} {text : Pieces} (rendered : s.projection = .ok text) :
    ∃ items : List Item, text = Pieces.separated ", " (items.map Item.pieces) ∧
      ∀ i ∈ items, s.Projects i := by
  obtain ⟨fields, each, rendered⟩ := Result.bind_eq_ok.mp rendered
  obtain ⟨junction, last, rendered⟩ := Result.bind_eq_ok.mp rendered
  obtain ⟨ends, rfl, fromJunction⟩ := junctionProjection_cases last
  have groups : ∃ groups : List (List Item), fields = groups.map (List.map Item.pieces) ∧
      ∀ group ∈ groups, ∀ i ∈ group, s.Projects i := by
    refine Result.mapM_images ?_ each
    intro id member parts given
    obtain ⟨n, found, given⟩ := Result.bind_eq_ok.mp given
    obtain ⟨items, rfl, ofNode⟩ := nodeProjection_cases given
    exact ⟨items, rfl, fun i listed => .inl ⟨id, member, n, found, ofNode i listed⟩⟩
  obtain ⟨groups, rfl, fromNodes⟩ := groups
  refine ⟨groups.flatten ++ ends, ?_, ?_⟩
  · rw [List.map_append, List.map_flatten]
    exact (Except.ok.inj rendered).symm
  · intro i listed
    rcases List.mem_append.mp listed with ofNode | ofJunction
    · obtain ⟨group, inside, here⟩ := List.mem_flatten.mp ofNode
      exact fromNodes group inside i here
    · exact .inr (fromJunction i ofJunction)

theorem ownLinkColumn_cases {s : Shape} {column : Column} (found : s.ownLinkColumn = .ok column) :
    ∃ field ∈ s.root.format.fields, column = ⟨s.root.label, field.column⟩ := by
  unfold ownLinkColumn at found
  split at found
  · cases found
  · obtain ⟨field, member, same, _⟩ := fieldColumn_cases found
    exact ⟨field, member, same⟩

/-- A lateral statement's parent is a node of the plan, and its key is one of that node's columns. -/
theorem lateralParent_cases {plan : Plan} {root : DataNode} {lateral : LateralParent}
    (found : lateralParent plan root = .ok (some lateral)) :
    (∃ id, plan.dataNode id = .ok lateral.node) ∧
      ∃ field ∈ lateral.node.format.fields, lateral.key = ⟨parentLabel, field.column⟩ := by
  unfold lateralParent at found
  split at found
  · split at found
    · obtain ⟨n, known, found⟩ := Result.bind_eq_ok.mp found
      obtain ⟨column, stored, found⟩ := Result.bind_eq_ok.mp found
      obtain ⟨field, listed, rfl⟩ := Format.requireColumn_cases stored
      cases found
      exact ⟨⟨_, known⟩, field, (Format.field?_cases listed).1, rfl⟩
    · cases found
  · cases found

theorem ofPlan_cases {p : Plan} {k : Nat} {s : Shape} (shaped : ofPlan p k = .ok s) :
    s.plan = p ∧ p.query k = .ok s.query ∧ p.dataNode s.query.root = .ok s.root ∧
      lateralParent p s.root = .ok s.lateral := by
  obtain ⟨query, known, shaped⟩ := Result.bind_eq_ok.mp shaped
  obtain ⟨root, found, shaped⟩ := Result.bind_eq_ok.mp shaped
  obtain ⟨lateral, above, shaped⟩ := Result.bind_eq_ok.mp shaped
  cases shaped
  exact ⟨rfl, known, found, above⟩

theorem fits_of_ofPlan {s : Schema} {p : Plan} {plural : Bool} {request : Request} {k : Nat}
    {shape : Shape} (valid : p.Over s plural request) (sound : s.Sound)
    (shaped : ofPlan p k = .ok shape) : Fits s p k shape := by
  obtain ⟨_, known, _⟩ := ofPlan_cases shaped
  obtain ⟨again, reshaped, fits⟩ := ofPlan_fits valid sound (Plan.query_eq_ok.mp known)
  cases shaped.symm.trans reshaped
  exact fits

/-- The source of a statement as text: the root's table, alone or joined to the junction. -/
theorem source_cases {s : Shape} {text : Pieces} (rendered : s.source = .ok text) :
    (s.junction? = none ∧
      text = [.name s.root.format.table, .words " AS ", .name s.root.label]) ∨
    ∃ j, s.junction? = some j ∧ ∃ field ∈ s.root.format.fields,
      text = [.name j.table, .words " AS ", .name s.root.junctionLabel, .words " JOIN ",
          .name s.root.format.table, .words " AS ", .name s.root.label, .words " ON "]
        ++ Column.pieces ⟨s.root.label, field.column⟩ ++ .words " = "
        :: Column.pieces ⟨s.root.junctionLabel, j.far⟩ := by
  unfold source at rendered
  cases found : s.junction? with
  | none =>
      rw [found] at rendered
      exact .inl ⟨rfl, (Except.ok.inj rendered).symm⟩
  | some j =>
      rw [found] at rendered
      obtain ⟨own, linked, rendered⟩ := Result.bind_eq_ok.mp rendered
      obtain ⟨field, member, rfl⟩ := ownLinkColumn_cases linked
      exact .inr ⟨j, rfl, field, member, (Except.ok.inj rendered).symm⟩

/-- The linked column of a statement: the key of the parent's row, the junction's near column, or the
root's own field. -/
theorem linkedColumn_cases {s : Shape} {column : Column} (found : s.linkedColumn = .ok column) :
    (∃ lateral, s.lateral = some lateral ∧ column = lateral.key) ∨
      (s.lateral = none ∧ ∃ j, s.junction? = some j ∧ column = ⟨s.root.junctionLabel, j.near⟩) ∨
      s.lateral = none ∧
        ∃ field ∈ s.root.format.fields, column = ⟨s.root.label, field.column⟩ := by
  unfold linkedColumn at found
  cases lateral : s.lateral with
  | some parent =>
      rw [lateral] at found
      exact .inl ⟨parent, rfl, (Except.ok.inj found).symm⟩
  | none =>
      cases junction : s.junction? with
      | some j =>
          rw [lateral, junction] at found
          exact .inr (.inl ⟨rfl, j, rfl, (Except.ok.inj found).symm⟩)
      | none =>
          rw [lateral, junction] at found
          exact .inr (.inr ⟨rfl, ownLinkColumn_cases found⟩)

/-- The type of the linked values is that of a field of the parent or of the root. -/
theorem linkedType_cases {s : Shape} {type : String} (given : s.linkedType = some type) :
    ∃ f, (f = s.root.format ∨ ∃ id n, s.plan.dataNode id = .ok n ∧ f = n.format) ∧
      ∃ field ∈ f.fields, field.type = some type := by
  have declared : ∀ {f : Format} {name}, f.type? name = some type →
      ∃ field ∈ f.fields, field.type = some type := by
    intro f name known
    obtain ⟨field, listed, type⟩ := Option.bind_eq_some_iff.mp known
    exact ⟨field, (Format.field?_cases listed).1, type⟩
  obtain ⟨link, _, given⟩ := Option.bind_eq_some_iff.mp given
  rcases Option.or_eq_some_iff.mp given with ofParent | ⟨_, ofRoot⟩
  · obtain ⟨n, above, known⟩ := Option.bind_eq_some_iff.mp ofParent
    obtain ⟨id, _, found⟩ := Option.bind_eq_some_iff.mp above
    exact ⟨n.format, .inr ⟨id, n, Plan.dataNode_eq_ok found, rfl⟩, declared known⟩
  · exact ⟨s.root.format, .inl rfl, declared ofRoot⟩

end Shape

theorem requireColumn_cases {selection : Selection} {name : String} {column : Column}
    (found : selection.requireColumn name = .ok column) :
    ∃ field ∈ selection.selected, column = ⟨toString selection.node, field.column⟩ := by
  simp only [Selection.requireColumn] at found
  split at found
  · next known =>
      cases found
      obtain ⟨field, member, same⟩ := List.mem_map.mp (Fields.mem_of_find?_ofList known)
      cases same
      exact ⟨field, member, rfl⟩
  · cases found

/-- A column that rows are ordered by. -/
structure OrderKey where
  column : Column
  direction : Direction
  deriving DecidableEq, Repr

def OrderKey.pieces (k : OrderKey) : Pieces :=
  k.column.pieces ++ [.words s!" {Direction.word k.direction}"]

theorem ordering_cases {sort : List SortKey} {text : Pieces}
    (rendered : ordering format label sort = .ok text) :
    ∃ keys : List OrderKey, text = Pieces.separated ", " (keys.map OrderKey.pieces) ∧
      ∀ k ∈ keys, ∃ field ∈ format.fields, k.column = ⟨label, field.column⟩ := by
  obtain ⟨parts, each, rendered⟩ := Result.bind_eq_ok.mp rendered
  have keys : ∃ keys : List OrderKey, parts = keys.map OrderKey.pieces ∧
      ∀ k ∈ keys, ∃ field ∈ format.fields, k.column = ⟨label, field.column⟩ := by
    refine Result.mapM_images ?_ each
    intro key _ part given
    obtain ⟨column, found, given⟩ := Result.bind_eq_ok.mp given
    obtain ⟨field, member, rfl, _⟩ := fieldColumn_cases found
    cases given
    exact ⟨⟨⟨label, field.column⟩, key.direction⟩, rfl, field, member, rfl⟩
  obtain ⟨keys, rfl, keyed⟩ := keys
  exact ⟨keys, (Except.ok.inj rendered).symm, keyed⟩

/-- All columns of a source. -/
def everyColumn (source : String) : Pieces := [.name source, .words ".*"]

namespace Clause

variable {s : Shape} {start : Nat} {f : Fragment}

/-- A lateral subquery selects all columns of its root, and those of a junction as well, by which it
is then compared with the parent's key. -/
theorem lateralColumns_cases {columns : List Pieces} {link : Column}
    (rendered : lateralColumns s = .ok (columns, link)) :
    (s.junction? = none ∧ columns = [everyColumn s.root.label] ∧
      ∃ field ∈ s.root.format.fields, link = ⟨s.root.label, field.column⟩) ∨
    ∃ j, s.junction? = some j ∧ link = ⟨s.root.junctionLabel, j.near⟩ ∧
      columns = [everyColumn s.root.label, Item.pieces ⟨⟨s.root.junctionLabel, j.near⟩, nearColumn⟩,
        Item.pieces ⟨⟨s.root.junctionLabel, j.far⟩, farColumn⟩] := by
  unfold lateralColumns at rendered
  obtain ⟨all, every, rendered⟩ := Result.bind_eq_ok.mp rendered
  obtain rfl : everyColumn s.root.label = all := Except.ok.inj every
  cases found : s.junction? with
  | none =>
      simp only [found] at rendered
      obtain ⟨own, linked, rendered⟩ := Result.bind_eq_ok.mp rendered
      cases rendered
      exact .inl ⟨rfl, rfl, Shape.ownLinkColumn_cases linked⟩
  | some j =>
      simp only [found] at rendered
      obtain ⟨near, first, rendered⟩ := Result.bind_eq_ok.mp rendered
      obtain ⟨far, second, rendered⟩ := Result.bind_eq_ok.mp rendered
      cases rendered
      rw [Selector.pieces_labelled first, Selector.pieces_labelled second]
      exact .inr ⟨j, rfl, rfl, rfl⟩

theorem head_cases (rendered : head s = .ok f) :
    ∃ items : List Item, (∀ i ∈ items, s.Projects i) ∧ ∃ source, s.source = .ok source ∧
      ((s.lateral = none ∧ f = .ofPieces (.words "SELECT "
          :: Pieces.separated ", " (items.map Item.pieces) ++ .words " FROM " :: source)) ∨
        ∃ lateral, s.lateral = some lateral ∧ ∃ columns link,
          lateralColumns s = .ok (columns, link) ∧
          f = .ofPieces (.words "SELECT " :: Pieces.separated ", " (items.map Item.pieces)
            ++ [.words " FROM ", .name lateral.node.format.table, .words " AS ", .name parentLabel,
              .words " JOIN LATERAL (SELECT "]
            ++ Pieces.separated ", " columns ++ .words " FROM " :: source
            ++ .words " WHERE " :: link.pieces ++ .words " = " :: lateral.key.pieces)) := by
  unfold head at rendered
  obtain ⟨projection, projected, rendered⟩ := Result.bind_eq_ok.mp rendered
  obtain ⟨items, rfl, projects⟩ := Shape.projection_cases projected
  refine ⟨items, projects, ?_⟩
  cases found : s.lateral with
  | none =>
      simp only [found] at rendered
      obtain ⟨source, given, rendered⟩ := Result.bind_eq_ok.mp rendered
      exact ⟨source, given, .inl ⟨rfl, (Except.ok.inj rendered).symm⟩⟩
  | some lateral =>
      simp only [found] at rendered
      obtain ⟨⟨columns, link⟩, inner, rendered⟩ := Result.bind_eq_ok.mp rendered
      obtain ⟨source, given, rendered⟩ := Result.bind_eq_ok.mp rendered
      exact ⟨source, given,
        .inr ⟨lateral, rfl, columns, link, inner, (Except.ok.inj rendered).symm⟩⟩

/-- The text that joins a node to its parent by one column of each. -/
def joined (n : DataNode) (own parent : Column) : Pieces :=
  [.words " LEFT JOIN ", .name n.format.table, .words " AS ", .name n.label, .words " ON "]
    ++ own.pieces ++ .words " = " :: parent.pieces

theorem join_cases {n : DataNode} (rendered : join s n start = .ok f) :
    ∃ id parent own key, n.parent = some id ∧ s.plan.dataNode id = .ok parent ∧
      (∃ field ∈ n.format.fields, own = ⟨n.label, field.column⟩) ∧
      (∃ field ∈ parent.selection.selected, key = ⟨toString parent.selection.node, field.column⟩) ∧
      (f = .ofPieces (joined n own key) ∨
        ∃ filter inner, predicate n.format n.label start filter = .ok inner ∧
          f = ⟨joined n own key ++ .words " AND (" :: inner.pieces ++ [.words ")"],
            inner.params⟩) := by
  unfold join at rendered
  split at rendered
  · next id link above _ =>
      obtain ⟨parent, found, rendered⟩ := Result.bind_eq_ok.mp rendered
      obtain ⟨own, known, rendered⟩ := Result.bind_eq_ok.mp rendered
      obtain ⟨key, selected, rendered⟩ := Result.bind_eq_ok.mp rendered
      obtain ⟨field, member, column, _⟩ := fieldColumn_cases known
      refine ⟨id, parent, own, key, above, found, ⟨field, member, column⟩,
        requireColumn_cases selected, ?_⟩
      cases given : n.request.query.filter with
      | none =>
          simp only [given] at rendered
          exact .inl (Except.ok.inj rendered).symm
      | some filter =>
          simp only [given] at rendered
          obtain ⟨inner, within, rendered⟩ := Result.bind_eq_ok.mp rendered
          exact .inr ⟨filter, inner, within, (Except.ok.inj rendered).symm⟩
  · cases rendered

theorem joinsOf_cases {id : Nat} {rest : List Nat} (rendered : joinsOf s start (id :: rest) = .ok f) :
    ∃ n first others, s.plan.dataNode id = .ok n ∧ join s n start = .ok first ∧
      joinsOf s (first.next start) rest = .ok others ∧ f = first ++ others := by
  rw [joinsOf] at rendered
  obtain ⟨n, found, rendered⟩ := Result.bind_eq_ok.mp rendered
  obtain ⟨first, head, rendered⟩ := Result.bind_eq_ok.mp rendered
  obtain ⟨others, tail, rendered⟩ := Result.bind_eq_ok.mp rendered
  exact ⟨n, first, others, found, head, tail, (Except.ok.inj rendered).symm⟩

theorem condition_cases {lead : String} {filter : Option Filter}
    (rendered : condition s lead filter start = .ok f) :
    (filter = none ∧ f = .empty) ∨ ∃ given inner, filter = some given ∧
      predicate s.root.format s.root.label start given = .ok inner ∧
      f = ⟨.words (lead ++ " (") :: inner.pieces ++ [.words ")"], inner.params⟩ := by
  cases filter with
  | none => exact .inl ⟨rfl, (Except.ok.inj rendered).symm⟩
  | some given =>
      obtain ⟨inner, within, rendered⟩ := Result.bind_eq_ok.mp rendered
      exact .inr ⟨given, inner, rfl, within, (Except.ok.inj rendered).symm⟩

theorem linkedKey_cases {lead : String} {batch : List Value}
    (rendered : linkedKey s lead batch start = .ok f) :
    ∃ column, s.linkedColumn = .ok column ∧
      ((∃ one, f = ⟨.words (lead ++ " ") :: column.pieces
          ++ .words " = " :: parameter start s.linkedType, [one]⟩) ∨
        ∃ first rest, f = ⟨.words (lead ++ " ") :: column.pieces ++ .words " = ANY (VALUES "
          :: Pieces.separated "," ((parameters start (first :: rest).length s.linkedType).map
            fun p => .words "(" :: p ++ [.words ")"]) ++ [.words ")"], first :: rest⟩) := by
  obtain ⟨column, found, rendered⟩ := Result.bind_eq_ok.mp rendered
  refine ⟨column, found, ?_⟩
  match batch, rendered with
  | [one], rendered => exact .inl ⟨one, (Except.ok.inj rendered).symm⟩
  | first :: second :: rest, rendered =>
      exact .inr ⟨first, second :: rest, (Except.ok.inj rendered).symm⟩

theorem orderBy_cases {sort : List SortKey} (rendered : orderBy s sort = .ok f) :
    ∃ keys : List OrderKey,
      (∀ k ∈ keys, ∃ field ∈ s.root.format.fields, k.column = ⟨s.root.label, field.column⟩) ∧
      f = .ofPieces (if keys.isEmpty then []
        else .words " ORDER BY " :: Pieces.separated ", " (keys.map OrderKey.pieces)) := by
  obtain ⟨text, given, rendered⟩ := Result.bind_eq_ok.mp rendered
  obtain ⟨keys, rfl, keyed⟩ := ordering_cases given
  refine ⟨keys, keyed, ?_⟩
  obtain rfl := Except.ok.inj rendered
  match keys with
  | [] => rfl
  | [key] => rfl
  | key :: other :: rest => rfl

end Clause

/-- What is rendered from left to right, taken apart at its first segment. -/
theorem renderAll_cases {render : Segment → Nat → Result Fragment} {start : Nat} {f : Fragment}
    {segment : Segment} {rest : List Segment}
    (rendered : renderAll render start (segment :: rest) = .ok f) :
    ∃ first others, render segment start = .ok first ∧
      renderAll render (first.next start) rest = .ok others ∧ f = first ++ others := by
  obtain ⟨first, head, rendered⟩ := Result.bind_eq_ok.mp rendered
  obtain ⟨others, tail, rendered⟩ := Result.bind_eq_ok.mp rendered
  exact ⟨first, others, head, tail, (Except.ok.inj rendered).symm⟩

theorem Fragment.next_append (f g : Fragment) (start : Nat) :
    (f ++ g).next start = g.next (f.next start) := by
  change start + (f.params ++ g.params).length = start + f.params.length + g.params.length
  rw [List.length_append, Nat.add_assoc]

theorem Fragment.append_assoc (f g h : Fragment) : f ++ g ++ h = f ++ (g ++ h) :=
  congrArg₂ Fragment.mk (List.append_assoc _ _ _) (List.append_assoc _ _ _)

/-- What is rendered from left to right, taken apart around one of its segments. -/
theorem renderAll_around {render : Segment → Nat → Result Fragment} {earlier later : List Segment}
    {segment : Segment} {start : Nat} {f : Fragment}
    (rendered : renderAll render start (earlier ++ segment :: later) = .ok f) :
    ∃ first here last, renderAll render start earlier = .ok first ∧
      render segment (first.next start) = .ok here ∧
      renderAll render (here.next (first.next start)) later = .ok last ∧ f = first ++ (here ++ last) := by
  induction earlier generalizing start f with
  | nil =>
      obtain ⟨here, last, head, tail, rfl⟩ := renderAll_cases rendered
      exact ⟨.empty, here, last, rfl, head, tail, rfl⟩
  | cons other rest ih =>
      obtain ⟨one, others, head, tail, rfl⟩ := renderAll_cases rendered
      obtain ⟨first, here, last, before, middle, after, rfl⟩ := ih tail
      refine ⟨one ++ first, here, last, ?_, ?_, ?_, ?_⟩
      · rw [renderAll, head, Result.ok_bind, before]
        rfl
      · rw [Fragment.next_append]
        exact middle
      · rw [Fragment.next_append]
        exact after
      · exact (Fragment.append_assoc one first (here ++ last)).symm

end Sql
end NestedQuery
