/- Leaving out what only serves matching: an object with all selected fields becomes the one with the
requested fields, at all depths, and no relation is lost with them. -/
import NestedQuery.Proofs.Nested

namespace NestedQuery

namespace Planned

variable {catalog : Catalog} {data : List DataNode} {n : DataNode} {name : String}

theorem requested_eq (planned : Planned catalog data n) :
    n.requested n.request.fields = n.selection.returned := by
  obtain ⟨returned, links, known, selection⟩ := planned.selection_eq
  rw [selection]
  refine Eq.trans ?_ (Position.returned_eq_ok known).1.symm
  cases n.request.fields <;> rfl

theorem selected_of_returned (planned : Planned catalog data n)
    (returned : name ∈ n.selection.returned) : name ∈ n.selection.names := by
  obtain ⟨names, links, known, selection⟩ := planned.selection_eq
  rw [selection] at returned ⊢
  exact Position.mem_selection_names.mpr
    ⟨(Position.returned_eq_ok known).2 name returned, .inl returned⟩

end Planned

namespace Plan

variable {s : Schema} {p : Plan} {plural : Bool} {request : Request}

def selected (n : DataNode) (_ : Option (List String)) : List String := n.selection.names

/-- What is left of the value of a field or relation. -/
def pruneValue (p : Plan) (n : DataNode) (name : String) (value : Tree) : Tree :=
  match n.children.lookup name with
  | some child => prune p child value
  | none => value

theorem pruneValue_scalar (p : Plan) (n : DataNode) (name : String) (value : Value) :
    pruneValue p n name (.scalar value) = .scalar value := by
  rw [pruneValue]
  cases n.children.lookup name with
  | none => rfl
  | some child => simp only [prune]

theorem pruneItems_eq_map (p : Plan) (id : Nat) (items : List Tree) :
    pruneItems p id items = items.map (prune p id) := by
  induction items with
  | nil => rw [pruneItems, List.map_nil]
  | cons item rest ih => rw [pruneItems, ih, List.map_cons]

theorem pruneFields_eq (p : Plan) (n : DataNode) (fields : Fields Tree) :
    pruneFields p n fields = (fields.filter fun entry => !n.selection.linkageOnly.contains entry.1).map
      fun entry => (entry.1, pruneValue p n entry.1 entry.2) := by
  induction fields with
  | nil => rw [pruneFields, List.filter_nil, List.map_nil]
  | cons entry rest ih =>
      obtain ⟨name, value⟩ := entry
      rw [pruneFields, List.filter_cons, ih]
      cases n.selection.linkageOnly.contains name with
      | true => rfl
      | false =>
          simp only [Bool.not_false, Bool.false_eq_true, if_false, if_true, List.map_cons, pruneValue]
          cases n.children.lookup name <;> rfl

section Object

variable {rows : List (List Row)} {same : Value → Value → Bool}

/-- What is found after pruning, name by name: relations are kept, of the selected fields the
returned ones. -/
theorem find?_prune (valid : p.Over s plural request) {n : DataNode} (place : p.data[n.id]? = some n)
    {row : Row} {relations : List (String × Tree)}
    (noField : ∀ name ∈ relations.map (·.1), n.format.hasField name = false) (name : String) :
    Fields.find? name (pruneFields p n
        (Fields.ofList (n.entries row n.selection.names ++ relations))) =
      Fields.find? name (Fields.ofList (n.entries row (n.requested n.request.fields) ++
        relations.map fun entry => (entry.1, pruneValue p n entry.1 entry.2))) := by
  have planned := valid.planned place
  rw [pruneFields_eq, Fields.find?_filter_map (fun name => !n.selection.linkageOnly.contains name),
    Fields.find?_ofList_append, Fields.find?_ofList_append, Fields.find?_ofList_map_value]
  have linkage : n.selection.linkageOnly.contains name = true ↔
      name ∈ n.selection.names ∧ name ∉ n.selection.returned := by
    rw [List.contains_iff_mem, Selection.mem_linkageOnly]
  cases found : Fields.find? name (Fields.ofList relations) with
  | some tree =>
      have kept : n.selection.linkageOnly.contains name = false := by
        refine Bool.eq_false_iff.mpr fun listed => ?_
        have field := planned.field_of_selected (linkage.mp listed).1
        rw [noField name (Fields.find?_ofList_isSome found)] at field
        cases field
      simp only [kept, Bool.not_false, if_true, Option.some_or, Option.map_some]
  | none =>
      simp only [DataNode.entries, Option.none_or, Option.map_none,
        Fields.find?_ofList_map (fun field => Tree.scalar _), planned.requested_eq]
      by_cases returned : name ∈ n.selection.returned
      · have selected := planned.selected_of_returned returned
        have kept : n.selection.linkageOnly.contains name = false :=
          Bool.eq_false_iff.mpr fun listed => (linkage.mp listed).2 returned
        simp only [kept, selected, returned, Bool.not_false, if_true, Option.map_some,
          pruneValue_scalar]
      · by_cases selected : name ∈ n.selection.names
        · simp only [linkage.mpr ⟨selected, returned⟩, returned, Bool.not_true, Bool.false_eq_true,
            if_false]
        · simp only [selected, returned, if_false, Option.map_none, ite_self]

theorem prune_object (valid : p.Over s plural request) {n : DataNode}
    (place : p.data[n.id]? = some n) {row : Row} {relations : List (String × Tree)}
    (noField : ∀ name ∈ relations.map (·.1), n.format.hasField name = false) :
    prune p n.id (.object (Fields.ofList (n.entries row n.selection.names ++ relations))) =
      .object (Fields.ofList (n.entries row (n.requested n.request.fields) ++
        relations.map fun entry => (entry.1, pruneValue p n entry.1 entry.2))) := by
  simp only [prune, place]
  refine congrArg Tree.object (Fields.Sorted.ext ?_ (Fields.sorted_ofList _) ?_)
  · rw [pruneFields_eq]
    exact (Fields.sorted_ofList _).filter_map (fun name => !n.selection.linkageOnly.contains name) _
  · exact find?_prune valid place noField

theorem map_fst_nestedRelations {shown : DataNode → Option (List String) → List String}
    (n : DataNode) (row : Row) (relations : List (String × Request)) :
    (nestedRelations p rows same shown n row relations).map (·.1) = relations.map (·.1) := by
  induction relations with
  | nil => rfl
  | cons r rest ih => rw [nestedRelations, List.map_cons, List.map_cons, ih]

mutual

/-- Pruning leaves exactly what is requested of an object, and of all objects below it. -/
theorem prune_nestedObject (valid : p.Over s plural request) (sound : s.Sound) :
    ∀ (r : Request) {n : DataNode} {row : Row}, p.data[n.id]? = some n → n.request = r →
      r.NamesOnce →
      prune p n.id (nestedObject p rows same selected n row r) =
        nestedObject p rows same DataNode.requested n row r
  | ⟨fields, relations, query⟩, n, row, place, here, once => by
      have related := valid.related sound place (here ▸ once.1)
      rw [here] at related
      have noField : ∀ name ∈ relations.map (·.1), n.format.hasField name = false := by
        intro name member
        obtain ⟨r, inRelations, rfl⟩ := List.mem_map.mp member
        obtain ⟨c, _, _, _, m, link, _, _, child⟩ := exists_related related inRelations
        exact child.relation.no_field
      rw [nestedObject, nestedObject, selected, prune_object valid place, here,
        prune_nestedRelations valid sound relations place related once.2]
      rw [map_fst_nestedRelations]
      exact noField

theorem prune_nestedRelations (valid : p.Over s plural request) (sound : s.Sound) :
    ∀ (rs : List (String × Request)) {cs : List (String × Nat)} {n : DataNode} {row : Row},
      p.data[n.id]? = some n → List.Forall₂ (Related s p n) rs cs → Request.NamesOnceBelow rs →
      (nestedRelations p rows same selected n row rs).map
          (fun entry => (entry.1, pruneValue p n entry.1 entry.2)) =
        nestedRelations p rows same DataNode.requested n row rs
  | [], cs, n, row, place, related, once => rfl
  | (name, wanted) :: rest, cs, n, row, place, related, once => by
      cases related with
      | cons first later =>
          obtain ⟨_, listed, m, link, id, here, child⟩ := first
          rw [nestedRelations_cons child (id ▸ listed), nestedRelations_cons child (id ▸ listed),
            List.map_cons, prune_nestedRelations valid sound rest place later once.2]
          have tree : pruneValue p n name (nestedChild p rows same selected n row m link wanted) =
              nestedChild p rows same DataNode.requested n row m link wanted := by
            have object : ∀ r, prune p m.id (nestedObject p rows same selected m r wanted) =
                nestedObject p rows same DataNode.requested m r wanted :=
              fun r => prune_nestedObject valid sound wanted child.found here once.1
            simp only [pruneValue, id ▸ listed, nestedChild]
            cases m.plural with
            | true =>
                simp only [if_true, prune, pruneItems_eq_map, List.map_map, Function.comp_def, object]
            | false =>
                cases linked (· == ·) (Row.link? row (m.matchLabel link))
                    (Row.link? row (n.columnLabel link.parentField)) with
                | true => exact object row
                | false => simp [prune]
          rw [tree]

end

theorem prune_rootTree (valid : p.Over s plural request) (sound : s.Sound) (once : request.NamesOnce)
    {root : DataNode} (top : p.Top plural request root) (table : List Row) :
    prune p root.id (rootTree root.plural
        (table.map fun row => nestedObject p rows same selected root row request)) =
      rootTree root.plural
        (table.map fun row => nestedObject p rows same DataNode.requested root row request) := by
  have place : p.data[root.id]? = some root := top.id_eq ▸ top.found
  have object : ∀ row, prune p root.id (nestedObject p rows same selected root row request) =
      nestedObject p rows same DataNode.requested root row request :=
    fun row => prune_nestedObject valid sound request place top.request_eq once
  cases root.plural with
  | true =>
      simp only [rootTree, if_true, prune, pruneItems_eq_map, List.map_map, Function.comp_def, object]
  | false =>
      cases table with
      | nil => simp [rootTree, prune]
      | cons row rest => simpa [rootTree] using object row

end Object

end Plan
end NestedQuery
