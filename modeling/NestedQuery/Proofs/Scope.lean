/- Every statement of a plan is a selection whose columns all belong to sources in scope, whichever
segments it is put together from. -/
import Mathlib.Data.List.Nodup
import NestedQuery.Proofs.Select

namespace NestedQuery.Sql

variable {format : Format} {label : String}

/-- All columns of a condition belong to one source. -/
def Condition.On (label : String) (c : Condition) : Prop :=
  ∀ column ∈ c.columns, column.source = label

/-- Text that is a condition on one source. -/
def WrittenOn (label : String) (f : Fragment) : Prop :=
  ∃ c : Condition, f.pieces = c.pieces ∧ c.On label

theorem parameters_cons (start count : Nat) (type : Option String) :
    ∃ first rest, parameters start (count + 1) type = (first :: rest).map Operand.pieces := by
  refine ⟨⟨start, type⟩, (List.range count).map fun i => ⟨start + (i + 1), type⟩, ?_⟩
  rw [parameters, List.range_succ_eq_map, List.map_cons, List.map_cons, List.map_map, List.map_map]
  rfl

theorem chain_written {start : Nat} {parts : List Fragment}
    (linked : Chain (fun _ => WrittenOn label) start parts) :
    ∃ conditions : List Condition, parts.map (·.pieces) = conditions.map Condition.pieces ∧
      ∀ c ∈ conditions, c.On label := by
  induction linked with
  | nil => exact ⟨[], rfl, nofun⟩
  | cons first _ ih =>
      obtain ⟨c, written, on⟩ := first
      obtain ⟨others, rest, onRest⟩ := ih
      refine ⟨c :: others, ?_, List.forall_mem_cons.mpr ⟨on, onRest⟩⟩
      rw [List.map_cons, List.map_cons, written, rest]

theorem closed_written : Closed format label fun _ => WrittenOn label where
  constant := by
    intro _ value
    exact ⟨.constant value, rfl, nofun⟩
  nullTest := by
    intro _ field _ isNull
    exact ⟨.nullTest ⟨label, field.column⟩ isNull, rfl, List.forall_mem_singleton.mpr rfl⟩
  compare := by
    intro start field _ comparison value
    exact ⟨.compare ⟨label, field.column⟩ comparison ⟨start, field.type⟩, rfl,
      List.forall_mem_singleton.mpr rfl⟩
  isIn := by
    intro start field _ first rest
    obtain ⟨operand, others, same⟩ := parameters_cons start rest.length field.type
    refine ⟨.isIn ⟨label, field.column⟩ operand others, ?_, List.forall_mem_singleton.mpr rfl⟩
    rw [Condition.pieces, ← same]
    rfl
  like := by
    intro start field _ pattern
    exact ⟨.like ⟨label, field.column⟩ ⟨start, none⟩, rfl, List.forall_mem_singleton.mpr rfl⟩
  chain := by
    intro start first rest every linked
    obtain ⟨conditions, same, on⟩ := chain_written linked
    cases conditions with
    | nil => cases same
    | cons c others =>
        obtain ⟨onFirst, onOthers⟩ := List.forall_mem_cons.mp on
        refine ⟨.chain every c others, ?_, ?_⟩
        · simp only [same, List.map_cons, Pieces.separated_eq, Condition.pieces,
            Condition.following_eq, List.cons_append]
        · intro column member
          rcases List.mem_append.mp member with here | later
          · exact onFirst column here
          · obtain ⟨other, inside, found⟩ := Condition.mem_columnsOfAll later
            exact onOthers other inside column found
  negation := by
    rintro start inner ⟨c, written, on⟩
    refine ⟨.negation c, ?_, on⟩
    rw [Condition.pieces, written]

theorem predicate_written {filter : Filter} {start : Nat} {f : Fragment}
    (rendered : predicate format label start filter = .ok f) : WrittenOn label f :=
  closed_written.predicate filter start rendered

open Pieces (tokens)
open Condition (clause)

namespace Clause

variable {s : Shape} {start : Nat} {f : Fragment}

/-- A filter after the word that leads it: at most one condition, on the statement's root. -/
theorem condition_tree {lead : String} {filter : Option Filter}
    (rendered : condition s lead filter start = .ok f) :
    ∃ conditions : List Condition, tokens f.pieces = tokens (clause lead conditions) ∧
      conditions.isEmpty = filter.isNone ∧ ∀ c ∈ conditions, c.On s.root.label := by
  rcases condition_cases rendered with ⟨rfl, rfl⟩ | ⟨given, inner, rfl, within, rfl⟩
  · exact ⟨[], rfl, rfl, nofun⟩
  · obtain ⟨c, written, on⟩ := predicate_written within
    refine ⟨[.enclosed c], ?_, rfl, List.forall_mem_singleton.mpr on⟩
    simp [clause, Condition.pieces, written]

/-- The comparison with the linked values is one condition on the linked column. -/
theorem linkedKey_tree {lead : String} {batch : List Value}
    (rendered : linkedKey s lead batch start = .ok f) :
    ∃ column, s.linkedColumn = .ok column ∧ ∃ c : Condition,
      tokens f.pieces = tokens (clause lead [c]) ∧ c.On column.source := by
  obtain ⟨column, found, shape⟩ := linkedKey_cases rendered
  refine ⟨column, found, ?_⟩
  rcases shape with ⟨one, rfl⟩ | ⟨first, rest, rfl⟩
  · refine ⟨.compare column .eq ⟨start, s.linkedType⟩, ?_, List.forall_mem_singleton.mpr rfl⟩
    have equals : (Condition.compare column .eq ⟨start, s.linkedType⟩).pieces =
        column.pieces ++ .words " = " :: parameter start s.linkedType := rfl
    simp [clause, equals]
  · obtain ⟨operand, others, same⟩ := parameters_cons start rest.length s.linkedType
    refine ⟨.isAny column operand others, ?_, List.forall_mem_singleton.mpr rfl⟩
    have rows : (parameters start (first :: rest).length s.linkedType).map
        (fun p => Piece.words "(" :: p ++ [.words ")"]) =
          (operand :: others).map fun o => .words "(" :: o.pieces ++ [.words ")"] := by
      rw [List.length_cons, same, List.map_map]
      rfl
    rw [rows]
    simp [clause, Condition.pieces]

theorem orderBy_tree {sort : List SortKey} (rendered : orderBy s sort = .ok f) :
    ∃ keys : List OrderKey, f.pieces = orderClause keys ∧
      ∀ k ∈ keys, k.column.source = s.root.label := by
  obtain ⟨keys, keyed, rfl⟩ := orderBy_cases rendered
  refine ⟨keys, rfl, ?_⟩
  intro k member
  obtain ⟨field, _, column⟩ := keyed k member
  rw [column]

theorem pagination_tree (query : Query) (start : Nat) :
    ∃ window, (pagination query start).pieces = windowClause window := by
  unfold pagination
  split
  · exact ⟨none, rfl⟩
  · exact ⟨some (start, start + 1), rfl⟩

end Clause

namespace Shape

/-- The nodes of a statement are known by their numbers, and each but the root hangs off a member with
a smaller one. -/
structure Aligned (s : Shape) : Prop where
  label : ∀ {id n}, s.plan.dataNode id = .ok n → n.label = toString id
  selection : ∀ {id n}, s.plan.dataNode id = .ok n → toString n.selection.node = toString id
  root : s.root.label = toString s.query.root
  members : s.query.members = s.query.root :: s.query.absorbed
  increasing : s.query.members.Pairwise (· < ·)
  parent : ∀ id ∈ s.query.absorbed, ∀ {n}, s.plan.dataNode id = .ok n →
    ∃ parent ∈ s.query.members, n.parent = some parent ∧ parent < id
  lateral : ∀ {lateral}, s.lateral = some lateral → lateral.key.source = parentLabel

theorem aligned_of_ofPlan {s : Schema} {p : Plan} {plural : Bool} {request : Request} {k : Nat}
    {shape : Shape} (valid : p.Over s plural request) (sound : s.Sound)
    (shaped : ofPlan p k = .ok shape) : shape.Aligned := by
  obtain ⟨rfl, known, root, above⟩ := ofPlan_cases shaped
  have query := Plan.query_eq_ok.mp known
  have number : ∀ {id n}, shape.plan.dataNode id = .ok n → n.id = id :=
    fun found => valid.ids (Plan.getElem?_of_dataNode found)
  refine ⟨?_, ?_, congrArg toString (number root), valid.members_eq query,
    valid.members_increasing query, ?_, ?_⟩
  · intro id n found
    exact congrArg toString (number found)
  · intro id n found
    have own := (valid.planned (Plan.getElem?_of_dataNode found)).selection_own.1
    exact congrArg toString (own.trans (number found))
  · intro id joined n found
    exact valid.absorbed_parent sound query joined (Plan.getElem?_of_dataNode found)
  · intro lateral found
    obtain ⟨_, field, _, key⟩ := lateralParent_cases (found ▸ above)
    rw [key]

/-- The label of the statement's junction, if it has one. -/
def junctionLabels (s : Shape) : List String := s.junction?.toList.map fun _ => s.root.junctionLabel

def memberLabels (s : Shape) : List String := s.query.members.map toString

theorem mem_junctionLabels {s : Shape} {j : JunctionColumns} (found : s.junction? = some j) :
    s.root.junctionLabel ∈ s.junctionLabels := by
  rw [junctionLabels, found]
  exact List.mem_singleton_self _

theorem Aligned.root_mem {s : Shape} (aligned : s.Aligned) : s.root.label ∈ s.memberLabels := by
  rw [memberLabels, aligned.members, aligned.root]
  exact List.mem_cons_self ..

theorem isLateral_of_none {s : Shape} (alone : s.lateral = none) : s.isLateral = false := by
  rw [isLateral, alone]
  rfl

theorem isLateral_of_some {s : Shape} {lateral : LateralParent} (found : s.lateral = some lateral) :
    s.isLateral = true := by
  rw [isLateral, found]
  rfl

/-- What is projected belongs to a member of the statement, or to its junction outside a lateral
subquery. -/
theorem Aligned.item_source {s : Shape} (aligned : s.Aligned) {i : Item} (projects : s.Projects i) :
    i.column.source ∈ s.memberLabels ∨
      s.isLateral = false ∧ i.column.source ∈ s.junctionLabels := by
  rcases projects with ⟨id, member, n, found, field, _, rfl⟩ | ⟨j, found, ends⟩
  · rw [aligned.label found]
    exact .inl (List.mem_map.mpr ⟨id, member, rfl⟩)
  · rcases ends with ⟨_, rfl⟩ | ⟨_, rfl⟩ | ⟨plain, rfl⟩ | ⟨plain, rfl⟩
    · exact .inl aligned.root_mem
    · exact .inl aligned.root_mem
    · exact .inr ⟨plain, mem_junctionLabels found⟩
    · exact .inr ⟨plain, mem_junctionLabels found⟩

/-- The sources of a statement before its joins: the root's table, after the junction if there is one. -/
theorem source_tree {s : Shape} {text : Pieces} (given : s.source = .ok text) (outer : List String) :
    ∃ sources : Sources, tokens text = tokens sources.pieces ∧
      sources.labels = s.junctionLabels ++ [s.root.label] ∧ sources.Scoped outer := by
  rcases source_cases given with ⟨none, rfl⟩ | ⟨j, found, field, _, rfl⟩
  · refine ⟨.table s.root.format.table s.root.label, rfl, ?_, trivial⟩
    rw [junctionLabels, none]
    rfl
  · refine ⟨.join (.table j.table s.root.junctionLabel) .inner s.root.format.table s.root.label
      (.matched ⟨s.root.label, field.column⟩ ⟨s.root.junctionLabel, j.far⟩) [], ?_, ?_, ?_⟩
    · simp [Sources.pieces, JoinKind.words, clause, Condition.pieces]
    · rw [junctionLabels, found]
      rfl
    · refine ⟨trivial, s.root.junctionLabel, List.mem_singleton_self _, ?_⟩
      refine List.forall_mem_singleton.mpr (List.forall_mem_cons.mpr ⟨.inl rfl, ?_⟩)
      exact List.forall_mem_singleton.mpr (.inr rfl)

end Shape

namespace Clause

variable {s : Shape} {start : Nat} {f : Fragment}

/-- A joined node is compared with its parent, and its filter is about itself. -/
theorem join_tree (aligned : s.Aligned) {n : DataNode} (rendered : join s n start = .ok f)
    {parent : Nat} (above : n.parent = some parent) {before : Sources} {outer : List String}
    (known : toString parent ∈ before.labels) (placed : before.Scoped outer) :
    ∃ sources : Sources, tokens sources.pieces = tokens before.pieces ++ tokens f.pieces ∧
      sources.labels = before.labels ++ [n.label] ∧ sources.Scoped outer := by
  obtain ⟨id, node, own, key, same, found, ⟨field, _, ownEq⟩, ⟨other, _, keyEq⟩, shape⟩ :=
    join_cases rendered
  cases above.symm.trans same
  have ownSource : own.source = n.label := by rw [ownEq]
  have keySource : key.source = toString parent := by rw [keyEq, aligned.selection found]
  have matched : ∀ column ∈ (Condition.matched own key).columns,
      column.source = n.label ∨ column.source = toString parent :=
    List.forall_mem_cons.mpr ⟨.inl ownSource, List.forall_mem_singleton.mpr (.inr keySource)⟩
  rcases shape with rfl | ⟨filter, inner, within, rfl⟩
  · refine ⟨.join before .left n.format.table n.label (.matched own key) [], ?_, rfl,
      placed, toString parent, known, List.forall_mem_singleton.mpr matched⟩
    simp [Sources.pieces, JoinKind.words, clause, Condition.pieces, joined, Fragment.ofPieces]
  · obtain ⟨c, written, on⟩ := predicate_written within
    refine ⟨.join before .left n.format.table n.label (.matched own key) [.enclosed c], ?_, rfl,
      placed, toString parent, known, List.forall_mem_cons.mpr ⟨matched, ?_⟩⟩
    · simp [Sources.pieces, JoinKind.words, clause, Condition.pieces, joined, written]
    · exact List.forall_mem_singleton.mpr fun column member => .inl (on column member)

/-- Joins in increasing order, each of which hangs off what was joined before. -/
theorem joinsOf_tree (aligned : s.Aligned) {ids above : List Nat}
    (rendered : joinsOf s start ids = .ok f) (increasing : ids.Pairwise (· < ·))
    (parents : ∀ id ∈ ids, ∀ {n}, s.plan.dataNode id = .ok n →
      ∃ parent ∈ above ++ ids, n.parent = some parent ∧ parent < id)
    {before : Sources} {outer : List String} (known : ∀ id ∈ above, toString id ∈ before.labels)
    (placed : before.Scoped outer) :
    ∃ sources : Sources, tokens sources.pieces = tokens before.pieces ++ tokens f.pieces ∧
      sources.labels = before.labels ++ ids.map toString ∧ sources.Scoped outer := by
  induction ids generalizing start f above before with
  | nil =>
      cases rendered
      exact ⟨before, (List.append_nil _).symm, (List.append_nil _).symm, placed⟩
  | cons id rest ih =>
      obtain ⟨n, first, others, found, head, tail, rfl⟩ := joinsOf_cases rendered
      obtain ⟨least, ordered⟩ := List.pairwise_cons.mp increasing
      obtain ⟨here, later⟩ := List.forall_mem_cons.mp parents
      obtain ⟨parent, member, hangs, less⟩ := here found
      have earlier : parent ∈ above := by
        rcases List.mem_append.mp member with done | pending
        · exact done
        · rcases List.mem_cons.mp pending with rfl | after
          · exact absurd less (Nat.lt_irrefl _)
          · exact absurd less (Nat.lt_asymm (least parent after))
      obtain ⟨extended, text, labels, inScope⟩ :=
        join_tree aligned head hangs (known parent earlier) placed
      rw [aligned.label found] at labels
      have knownNow : ∀ i ∈ above ++ [id], toString i ∈ extended.labels := by
        intro i inside
        rw [labels]
        rcases List.mem_append.mp inside with old | new
        · exact List.mem_append_left _ (known i old)
        · rw [List.mem_singleton.mp new]
          exact List.mem_append_right _ (List.mem_singleton_self _)
      have parentsNow : ∀ i ∈ rest, ∀ {m}, s.plan.dataNode i = .ok m →
          ∃ parent ∈ (above ++ [id]) ++ rest, m.parent = some parent ∧ parent < i := by
        intro i inside m place
        rw [List.append_assoc]
        exact later i inside place
      obtain ⟨sources, whole, all, done⟩ := ih tail ordered parentsNow knownNow inScope
      refine ⟨sources, ?_, ?_, done⟩
      · rw [whole, text, List.append_assoc]
        exact congrArg _ (Pieces.tokens_append first.pieces others.pieces).symm
      · rw [all, labels, List.append_assoc]
        rfl

end Clause

theorem junctionLabel_ne (n : DataNode) (m : Nat) : n.junctionLabel ≠ toString m := by
  intro same
  have last : 'j' ∈ n.junctionLabel.toList := by
    change 'j' ∈ (toString n.id ++ "_j").toList
    rw [String.toList_append]
    exact List.mem_append_right _ (by decide)
  rw [same] at last
  exact absurd (isDigit_toString m _ last) (by decide)

theorem parentLabel_ne (m : Nat) : parentLabel ≠ toString m := by
  intro same
  have first : '_' ∈ parentLabel.toList := by decide
  rw [same] at first
  exact absurd (isDigit_toString m _ first) (by decide)

theorem junctionLabel_ne_parentLabel (n : DataNode) : n.junctionLabel ≠ parentLabel := by
  intro same
  have ends : n.junctionLabel.toList.getLast? = some 'j' := by
    change (toString n.id ++ "_j").toList.getLast? = some 'j'
    rw [String.toList_append, List.getLast?_append]
    rfl
  rw [same] at ends
  exact absurd ends (by decide)

namespace Shape

variable {s : Shape}

/-- No two sources of a statement have one label, nor has any that of a lateral parent. -/
theorem Aligned.distinct (aligned : s.Aligned) :
    (s.junctionLabels ++ s.memberLabels ++ [parentLabel]).Nodup := by
  have junction : ∀ {l}, l ∈ s.junctionLabels → l = s.root.junctionLabel := by
    intro l member
    obtain ⟨_, _, same⟩ := List.mem_map.mp member
    exact same.symm
  have once : s.junctionLabels.Nodup := by
    unfold junctionLabels
    cases s.junction? with
    | none => exact List.nodup_nil
    | some j => exact List.nodup_singleton _
  have members : s.memberLabels.Nodup := by
    refine List.Nodup.map ?_ (aligned.increasing.imp Nat.ne_of_lt)
    intro i j same
    exact toString_injective same
  refine List.nodup_append.mpr ⟨List.nodup_append.mpr ⟨once, members, ?_⟩,
    List.nodup_singleton _, ?_⟩
  · intro a inJunction b inMembers
    obtain ⟨i, _, rfl⟩ := List.mem_map.mp inMembers
    rw [junction inJunction]
    exact junctionLabel_ne s.root i
  · intro a inside b last
    rw [List.mem_singleton.mp last]
    rcases List.mem_append.mp inside with inJunction | inMembers
    · rw [junction inJunction]
      exact junctionLabel_ne_parentLabel s.root
    · obtain ⟨i, _, rfl⟩ := List.mem_map.mp inMembers
      exact (parentLabel_ne i).symm

end Shape

/-- A selection up to its conditions. -/
def opening (selected : List Selected) (sources : Sources) : Pieces :=
  .words "SELECT " :: Pieces.separated ", " (selected.map Selected.pieces)
    ++ .words " FROM " :: sources.pieces

theorem Select.pieces_eq (selected : List Selected) (sources : Sources) (conditions : List Condition)
    (order : List OrderKey) (window : Option (Nat × Nat)) :
    (Select.mk selected sources conditions order window).pieces =
      opening selected sources ++ clause " WHERE" conditions ++ orderClause order
        ++ windowClause window := by
  rw [Select.pieces]
  rfl

theorem selected_items (items : List Item) :
    (items.map Selected.item).map Selected.pieces = items.map Item.pieces := by
  rw [List.map_map]
  rfl

/-- What is opened by the first segments of a statement: a selection from sources in scope. -/
structure Opens (text : List Token) (labels : List String) (selected : List Selected)
    (sources : Sources) : Prop where
  text_eq : text = tokens (opening selected sources)
  labels_eq : sources.labels = labels
  inScope : sources.Scoped []
  known : ∀ x ∈ selected, x.source ∈ labels

namespace Clause

variable {s : Shape} {start : Nat}

/-- All joins of a statement after the sources that they hang off. -/
theorem joins_tree (aligned : s.Aligned) {f : Fragment} (rendered : joins s start = .ok f)
    {before : Sources} {outer labels : List String}
    (known : before.labels = labels ++ [s.root.label]) (placed : before.Scoped outer) :
    ∃ sources : Sources, tokens sources.pieces = tokens before.pieces ++ tokens f.pieces ∧
      sources.labels = labels ++ s.memberLabels ∧ sources.Scoped outer := by
  have increasing := aligned.increasing
  rw [aligned.members] at increasing
  have parents : ∀ id ∈ s.query.absorbed, ∀ {n}, s.plan.dataNode id = .ok n →
      ∃ parent ∈ [s.query.root] ++ s.query.absorbed, n.parent = some parent ∧ parent < id := by
    intro id joined n found
    have hangs := aligned.parent id joined found
    rwa [aligned.members] at hangs
  have root : ∀ id ∈ [s.query.root], toString id ∈ before.labels := by
    intro id member
    rw [known, List.mem_singleton.mp member, aligned.root]
    exact List.mem_append_right _ (List.mem_singleton_self _)
  obtain ⟨sources, text, all, inScope⟩ :=
    joinsOf_tree aligned rendered (List.pairwise_cons.mp increasing).2 parents root placed
  refine ⟨sources, text, ?_, inScope⟩
  rw [all, known, Shape.memberLabels, aligned.members, aligned.root, List.append_assoc]
  rfl

/-- Head and joins of a statement whose rows are paged together, if at all. -/
theorem plain_opens (aligned : s.Aligned) (alone : s.lateral = none) {f g : Fragment}
    (first : head s = .ok f) (later : joins s start = .ok g) :
    ∃ selected sources, Opens (tokens f.pieces ++ tokens g.pieces)
      (s.junctionLabels ++ s.memberLabels) selected sources := by
  obtain ⟨items, projects, source, given, shape⟩ := head_cases first
  rcases shape with ⟨_, rfl⟩ | ⟨lateral, found, _⟩
  · obtain ⟨base, baseText, baseLabels, baseScope⟩ := Shape.source_tree given []
    obtain ⟨sources, text, labels, inScope⟩ := joins_tree aligned later baseLabels baseScope
    refine ⟨items.map .item, sources, ?_, labels, inScope, ?_⟩
    · rw [opening, selected_items]
      simp [text, baseText, Fragment.ofPieces]
    · intro x member
      obtain ⟨i, listed, rfl⟩ := List.mem_map.mp member
      rcases aligned.item_source (projects i listed) with ofMember | ⟨_, ofJunction⟩
      · exact List.mem_append_right _ ofMember
      · exact List.mem_append_left _ ofJunction
  · cases alone.symm.trans found

theorem lateralColumns_tree {columns : List Pieces} {link : Column}
    (rendered : lateralColumns s = .ok (columns, link)) :
    ∃ selected : List Selected, columns = selected.map Selected.pieces ∧
      (∀ x ∈ selected, x.source ∈ s.junctionLabels ++ [s.root.label]) ∧
      link.source ∈ s.junctionLabels ++ [s.root.label] := by
  have root : s.root.label ∈ s.junctionLabels ++ [s.root.label] :=
    List.mem_append_right _ (List.mem_singleton_self _)
  rcases lateralColumns_cases rendered with ⟨_, rfl, field, _, rfl⟩ | ⟨j, found, rfl, rfl⟩
  · exact ⟨[.every s.root.label], rfl, List.forall_mem_singleton.mpr root, root⟩
  · have junction : s.root.junctionLabel ∈ s.junctionLabels ++ [s.root.label] :=
      List.mem_append_left _ (Shape.mem_junctionLabels found)
    refine ⟨[.every s.root.label, .item ⟨⟨s.root.junctionLabel, j.near⟩, nearColumn⟩,
      .item ⟨⟨s.root.junctionLabel, j.far⟩, farColumn⟩], rfl, ?_, junction⟩
    exact List.forall_mem_cons.mpr ⟨root, List.forall_mem_cons.mpr
      ⟨junction, List.forall_mem_singleton.mpr junction⟩⟩

/-- The subquery of a lateral statement, which the head opens: its first condition compares it with the
parent's row, and the filter, the order and the page are its own. -/
theorem lateral_sub (aligned : s.Aligned) {lateral : LateralParent}
    (found : s.lateral = some lateral) {columns : List Pieces} {link : Column}
    (listed : lateralColumns s = .ok (columns, link)) {source : Pieces}
    (given : s.source = .ok source) {conditions : List Condition}
    (on : ∀ c ∈ conditions, c.On s.root.label) {keys : List OrderKey}
    (keyed : ∀ k ∈ keys, k.column.source = s.root.label) (window : Option (Nat × Nat)) :
    ∃ sub : Select, sub.Scoped [parentLabel] ∧ tokens sub.pieces =
      tokens (.words "SELECT " :: Pieces.separated ", " columns ++ .words " FROM " :: source
        ++ .words " WHERE " :: link.pieces ++ .words " = " :: lateral.key.pieces)
      ++ tokens (clause " AND" conditions) ++ tokens (orderClause keys)
      ++ tokens (windowClause window) := by
  obtain ⟨selected, rfl, own, linkKnown⟩ := lateralColumns_tree listed
  obtain ⟨inner, innerText, innerLabels, innerScope⟩ := Shape.source_tree given [parentLabel]
  have visible : ∀ {l}, l ∈ s.junctionLabels ++ [s.root.label] →
      l ∈ inner.labels ++ [parentLabel] := by
    intro l member
    rw [innerLabels]
    exact List.mem_append_left _ member
  have root : s.root.label ∈ inner.labels ++ [parentLabel] :=
    visible (List.mem_append_right _ (List.mem_singleton_self _))
  refine ⟨⟨selected, inner, .matched link lateral.key :: conditions, keys, window⟩, ?_, ?_⟩
  · refine ⟨?_, innerScope, fun x member => visible (own x member),
      List.forall_mem_cons.mpr ⟨?_, ?_⟩, ?_⟩
    · rw [innerLabels]
      refine aligned.distinct.sublist (List.Sublist.append_right ?_ _)
      refine List.Sublist.append_left ?_ _
      rw [List.singleton_sublist]
      exact aligned.root_mem
    · refine List.forall_mem_cons.mpr ⟨visible linkKnown, List.forall_mem_singleton.mpr ?_⟩
      rw [aligned.lateral found]
      exact List.mem_append_right _ (List.mem_singleton_self _)
    · intro c member column inside
      rw [on c member column inside]
      exact root
    · intro k member
      rw [keyed k member]
      exact root
  · rw [Select.pieces_eq, opening]
    simp [innerText, clause, Condition.pieces]

/-- The first segments of a lateral statement, up to its joins: the parent's table with the
subquery. -/
theorem lateral_opens (aligned : s.Aligned) {lateral : LateralParent}
    (found : s.lateral = some lateral) {filter : Option Filter} {sort : List SortKey}
    {second last : Nat} (query : Query) (fourth : Nat) {first filtered ordered joined : Fragment}
    (firstOk : head s = .ok first) (filterOk : condition s " AND" filter second = .ok filtered)
    (orderOk : orderBy s sort = .ok ordered) (joinsOk : joins s last = .ok joined) :
    ∃ selected sources, Opens
      (tokens first.pieces ++ tokens filtered.pieces ++ tokens ordered.pieces
        ++ tokens (pagination query fourth).pieces ++ tokens (lateralClose s).pieces
        ++ tokens joined.pieces)
      (parentLabel :: s.memberLabels) selected sources := by
  obtain ⟨items, projects, source, given, shape⟩ := head_cases firstOk
  obtain ⟨conditions, filterText, _, on⟩ := condition_tree filterOk
  obtain ⟨keys, orderText, keyed⟩ := orderBy_tree orderOk
  obtain ⟨window, pageText⟩ := pagination_tree query fourth
  rcases shape with ⟨alone, _⟩ | ⟨again, same, columns, link, listed, rfl⟩
  · cases alone.symm.trans found
  · cases found.symm.trans same
    obtain ⟨sub, subScope, subText⟩ := lateral_sub aligned found listed given on keyed window
    obtain ⟨sources, text, labels, inScope⟩ := joins_tree aligned joinsOk
      (show (Sources.lateral (.table lateral.node.format.table parentLabel) sub s.root.label).labels =
        [parentLabel] ++ [s.root.label] from rfl)
      (show Sources.Scoped [] _ from ⟨trivial, subScope⟩)
    refine ⟨items.map .item, sources, ?_, labels, inScope, ?_⟩
    · rw [opening, selected_items]
      simp [text, subText, Sources.pieces, Fragment.ofPieces, filterText, orderText, pageText,
        lateralClose]
    · intro x member
      obtain ⟨i, isItem, rfl⟩ := List.mem_map.mp member
      rcases aligned.item_source (projects i isItem) with ofMember | ⟨plain, _⟩
      · exact List.mem_cons_of_mem _ ofMember
      · cases plain.symm.trans (Shape.isLateral_of_some found)

end Clause

section Plans

variable {s : Schema} {p : Plan} {plural : Bool} {request : Request} {k : Nat}

/-- A column that a statement's linked values or order are about belongs to one of its sources. -/
theorem Shape.Aligned.linked_source {shape : Shape} (aligned : shape.Aligned) {column : Column}
    (found : shape.linkedColumn = .ok column) :
    (shape.isLateral = true ∧ column.source = parentLabel) ∨
      shape.isLateral = false ∧ column.source ∈ shape.junctionLabels ++ shape.memberLabels := by
  rcases Shape.linkedColumn_cases found with
    ⟨lateral, known, rfl⟩ | ⟨alone, j, known, rfl⟩ | ⟨alone, field, _, rfl⟩
  · exact .inl ⟨Shape.isLateral_of_some known, aligned.lateral known⟩
  · exact .inr ⟨Shape.isLateral_of_none alone,
      List.mem_append_left _ (Shape.mem_junctionLabels known)⟩
  · exact .inr ⟨Shape.isLateral_of_none alone, List.mem_append_right _ aligned.root_mem⟩

/-- A selection is in scope if what opens it is, and its conditions and its order are about its
sources. -/
theorem Opens.select {text : List Token} {labels : List String} {selected : List Selected}
    {sources : Sources} (opens : Opens text labels selected sources) (once : labels.Nodup)
    (conditions : List Condition) (about : ∀ c ∈ conditions, ∃ label ∈ labels, c.On label)
    (order : List OrderKey) (sorted : ∀ key ∈ order, key.column.source ∈ labels)
    (window : Option (Nat × Nat)) :
    ∃ select : Select, select.Scoped [] ∧ tokens select.pieces =
      text ++ tokens (clause " WHERE" conditions ++ orderClause order ++ windowClause window) := by
  have all : sources.labels ++ [] = labels := (List.append_nil _).trans opens.labels_eq
  refine ⟨⟨selected, sources, conditions, order, window⟩, ?_, ?_⟩
  · refine ⟨?_, opens.inScope, ?_, ?_, ?_⟩
    · rw [all]
      exact once
    · rw [all]
      exact opens.known
    · intro c member column inside
      obtain ⟨label, known, on⟩ := about c member
      rw [all, on column inside]
      exact known
    · rw [all]
      exact sorted
  · rw [opens.text_eq, Select.pieces_eq]
    simp

theorem pieces_append (f g : Fragment) : (f ++ g).pieces = f.pieces ++ g.pieces := rfl

theorem Shape.Aligned.plain_labels {shape : Shape} (aligned : shape.Aligned) :
    (shape.junctionLabels ++ shape.memberLabels).Nodup ∧
      shape.root.label ∈ shape.junctionLabels ++ shape.memberLabels :=
  ⟨aligned.distinct.sublist (List.sublist_append_left _ _), List.mem_append_right _ aligned.root_mem⟩

/-- The first statement: its conditions are the filter of the root. -/
theorem first_select {shape : Shape} (aligned : shape.Aligned) (alone : shape.lateral = none)
    {query : Query} {batch : List Value} {f : Fragment}
    (rendered : renderAll (Segment.render shape query batch) 1 (Segment.orderFor false true) = .ok f) :
    ∃ select : Select, tokens f.pieces = tokens select.pieces ∧ select.Scoped [] := by
  obtain ⟨once, root⟩ := aligned.plain_labels
  obtain ⟨head, _, headOk, afterHead, rfl⟩ := renderAll_cases rendered
  obtain ⟨joined, _, joinsOk, afterJoins, rfl⟩ := renderAll_cases afterHead
  obtain ⟨filtered, _, filterOk, afterFilter, rfl⟩ := renderAll_cases afterJoins
  obtain ⟨ordered, _, orderOk, afterOrder, rfl⟩ := renderAll_cases afterFilter
  obtain ⟨paged, _, pageOk, afterPage, rfl⟩ := renderAll_cases afterOrder
  cases pageOk
  cases afterPage
  obtain ⟨selected, sources, opens⟩ := Clause.plain_opens aligned alone headOk joinsOk
  obtain ⟨conditions, filterText, _, on⟩ := Clause.condition_tree filterOk
  obtain ⟨keys, orderText, keyed⟩ := Clause.orderBy_tree orderOk
  obtain ⟨window, pageText⟩ := Clause.pagination_tree query
    (ordered.next (filtered.next (joined.next (head.next 1))))
  rw [Shape.isLateral_of_none alone] at filterText
  have about : ∀ c ∈ conditions, ∃ label ∈ shape.junctionLabels ++ shape.memberLabels, c.On label := by
    intro c member
    exact ⟨shape.root.label, root, on c member⟩
  obtain ⟨select, inScope, text⟩ := opens.select once conditions about keys
    (fun key member => (keyed key member).symm ▸ root) window
  refine ⟨select, ?_, inScope⟩
  rw [text]
  simp [pieces_append, filterText, orderText, pageText, Fragment.empty]

/-- A statement below that is not lateral: the condition on the linked values follows the filter, if
there is one. -/
theorem below_select {shape : Shape} (aligned : shape.Aligned) (alone : shape.lateral = none)
    {query : Query} {batch : List Value} {f : Fragment}
    (rendered : renderAll (Segment.render shape query batch) 1 (Segment.orderFor false false) = .ok f) :
    ∃ select : Select, tokens f.pieces = tokens select.pieces ∧ select.Scoped [] := by
  have plain := Shape.isLateral_of_none alone
  obtain ⟨once, root⟩ := aligned.plain_labels
  obtain ⟨head, _, headOk, afterHead, rfl⟩ := renderAll_cases rendered
  obtain ⟨joined, _, joinsOk, afterJoins, rfl⟩ := renderAll_cases afterHead
  obtain ⟨filtered, _, filterOk, afterFilter, rfl⟩ := renderAll_cases afterJoins
  obtain ⟨linked, _, keyOk, afterKey, rfl⟩ := renderAll_cases afterFilter
  obtain ⟨ordered, _, orderOk, afterOrder, rfl⟩ := renderAll_cases afterKey
  cases afterOrder
  obtain ⟨selected, sources, opens⟩ := Clause.plain_opens aligned alone headOk joinsOk
  obtain ⟨conditions, filterText, unfiltered, on⟩ := Clause.condition_tree filterOk
  obtain ⟨column, found, key, keyText, onColumn⟩ := Clause.linkedKey_tree keyOk
  obtain ⟨keys, orderText, keyed⟩ := Clause.orderBy_tree orderOk
  have known : column.source ∈ shape.junctionLabels ++ shape.memberLabels := by
    rcases aligned.linked_source found with ⟨lateral, _⟩ | ⟨_, known⟩
    · cases plain.symm.trans lateral
    · exact known
  have lead : (if !shape.isLateral && query.filter.isSome then " AND" else " WHERE") =
      if conditions.isEmpty then " WHERE" else " AND" := by
    rw [plain, unfiltered]
    cases query.filter <;> rfl
  rw [plain] at filterText
  rw [lead] at keyText
  have about : ∀ c ∈ conditions ++ [key],
      ∃ label ∈ shape.junctionLabels ++ shape.memberLabels, c.On label := by
    intro c member
    rcases List.mem_append.mp member with inFilter | last
    · exact ⟨shape.root.label, root, on c inFilter⟩
    · rw [List.mem_singleton.mp last]
      exact ⟨column.source, known, onColumn⟩
  obtain ⟨select, inScope, text⟩ := opens.select once (conditions ++ [key]) about keys
    (fun key member => (keyed key member).symm ▸ root) none
  refine ⟨select, ?_, inScope⟩
  rw [text, Condition.clause_append]
  simp [pieces_append, filterText, keyText, orderText, windowClause, Fragment.empty]

/-- A lateral statement: the page of each parent row is cut in the subquery, and the linked values
choose the parent's rows. -/
theorem lateral_select {shape : Shape} (aligned : shape.Aligned) {lateral : LateralParent}
    (found : shape.lateral = some lateral) {query : Query} {batch : List Value} {isRoot : Bool}
    {f : Fragment}
    (rendered : renderAll (Segment.render shape query batch) 1 (Segment.orderFor true isRoot) =
      .ok f) : ∃ select : Select, tokens f.pieces = tokens select.pieces ∧ select.Scoped [] := by
  have isLateral := Shape.isLateral_of_some found
  have once : (parentLabel :: shape.memberLabels).Nodup := by
    have distinct := aligned.distinct
    rw [List.append_assoc] at distinct
    exact List.nodup_append_comm.mp (List.Nodup.of_append_right distinct)
  have root : shape.root.label ∈ parentLabel :: shape.memberLabels :=
    List.mem_cons_of_mem _ aligned.root_mem
  obtain ⟨head, _, headOk, afterHead, rfl⟩ := renderAll_cases rendered
  obtain ⟨filtered, _, filterOk, afterFilter, rfl⟩ := renderAll_cases afterHead
  obtain ⟨inner, _, innerOk, afterInner, rfl⟩ := renderAll_cases afterFilter
  obtain ⟨paged, _, pageOk, afterPage, rfl⟩ := renderAll_cases afterInner
  obtain ⟨close, _, closeOk, afterClose, rfl⟩ := renderAll_cases afterPage
  obtain ⟨joined, _, joinsOk, afterJoins, rfl⟩ := renderAll_cases afterClose
  obtain ⟨linked, _, keyOk, afterKey, rfl⟩ := renderAll_cases afterJoins
  obtain ⟨ordered, _, orderOk, afterOrder, rfl⟩ := renderAll_cases afterKey
  cases pageOk
  cases closeOk
  cases afterOrder
  change Clause.condition shape (if shape.isLateral then " AND" else " WHERE") _ _ = _ at filterOk
  rw [isLateral] at filterOk
  obtain ⟨selected, sources, opens⟩ :=
    Clause.lateral_opens aligned found query (inner.next (filtered.next (head.next 1)))
      headOk filterOk innerOk joinsOk
  obtain ⟨column, linkedColumn, key, keyText, onColumn⟩ := Clause.linkedKey_tree keyOk
  obtain ⟨keys, orderText, keyed⟩ := Clause.orderBy_tree orderOk
  have known : column.source ∈ parentLabel :: shape.memberLabels := by
    rcases aligned.linked_source linkedColumn with ⟨_, parent⟩ | ⟨plain, _⟩
    · rw [parent]
      exact List.mem_cons_self ..
    · cases isLateral.symm.trans plain
  rw [isLateral] at keyText
  change tokens linked.pieces = tokens (clause " WHERE" [key]) at keyText
  obtain ⟨select, inScope, text⟩ := opens.select once [key]
    (List.forall_mem_singleton.mpr ⟨column.source, known, onColumn⟩) keys
    (fun key member => (keyed key member).symm ▸ root) none
  refine ⟨select, ?_, inScope⟩
  rw [text]
  simp [pieces_append, keyText, orderText, windowClause, Fragment.empty]

theorem Statement.anew_select (valid : p.Over s plural request) (sound : s.Sound)
    {rootQuery : Query} {batch : List Value} {st : Statement}
    (rendered : Statement.anew p k rootQuery batch = .ok st) :
    ∃ select : Select, tokens st.pieces = tokens select.pieces ∧ select.Scoped [] := by
  obtain ⟨shape, shaped, rendered⟩ := Result.bind_eq_ok.mp rendered
  obtain ⟨fragment, all, rendered⟩ := Result.bind_eq_ok.mp rendered
  cases rendered
  have aligned := Shape.aligned_of_ofPlan valid sound shaped
  cases found : shape.lateral with
  | none =>
      rw [Shape.isLateral_of_none found] at all
      cases isRoot : shape.root.isRoot with
      | true =>
          rw [isRoot] at all
          exact first_select aligned found all
      | false =>
          rw [isRoot] at all
          exact below_select aligned found all
  | some lateral =>
      rw [Shape.isLateral_of_some found] at all
      exact lateral_select aligned found all

/-- After any calls the text of a statement is that of a selection: it is read as one, its columns
belong to sources in scope, and its parentheses are balanced. -/
theorem Memo.select_after (declared : s.Declared) {format : String}
    (built : Plan.build s.catalog format plural request = .ok p) {m : Memo}
    (fresh : Memo.ofPlan p k = .ok m) (calls : List Memo.Call) {st : Statement}
    (given : (m.after calls).statement.1 = .ok st) :
    ∃ select : Select, st.text = select.pieces.text ∧ tokens st.pieces = tokens select.pieces ∧
      select.Scoped [] ∧ Balanced (tokens st.pieces) := by
  rw [((Memo.coherent_ofPlan fresh).after calls).statement.1] at given
  obtain ⟨select, same, inScope⟩ :=
    Statement.anew_select (Plan.build_over declared built) declared.sound given
  exact ⟨select, Pieces.text_eq_of_tokens same, same, inScope, same ▸ select.balanced⟩

/-- The articles of two users, a page for each: the subquery refers to the user's row before it. -/
theorem Memo.select_after_firstArticles : ∃ plan m st,
    Plan.build Schema.blog.catalog "user" true firstArticles = .ok plan ∧
      Memo.ofPlan plan 1 = .ok m ∧
      (m.after [.setBatch [.int 1, .int 2]]).statement.1 = .ok st ∧
      ∃ select : Select, st.text = select.pieces.text ∧ tokens st.pieces = tokens select.pieces ∧
        select.Scoped [] ∧ Balanced (tokens st.pieces) := by
  have some : ∃ plan m st, Plan.build Schema.blog.catalog "user" true firstArticles = .ok plan ∧
      Memo.ofPlan plan 1 = .ok m ∧
      (m.after [.setBatch [.int 1, .int 2]]).statement.1 = .ok st :=
    ⟨_, _, _, rfl, rfl, rfl⟩
  obtain ⟨plan, m, st, built, fresh, given⟩ := some
  exact ⟨plan, m, st, built, fresh, given,
    Memo.select_after Schema.blog_declared built fresh _ given⟩

end Plans

end NestedQuery.Sql
