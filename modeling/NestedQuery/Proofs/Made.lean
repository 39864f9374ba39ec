/- The plans that there are: built over any catalogue, checked or not, and given other values any number
of times. Their nodes may be odd, but their statements group them soundly. -/
import NestedQuery.Plan.Rebind
import NestedQuery.Proofs.Plan

namespace NestedQuery.Plan

theorem map_outline_set {data : List DataNode} {id : Nat} {old new : DataNode}
    (found : data[id]? = some old) (same : outline new = outline old) :
    (data.set id new).map outline = data.map outline := by
  apply List.ext_getElem?
  intro i
  rw [List.getElem?_map, List.getElem?_map]
  by_cases here : id = i
  · subst here
    rw [List.getElem?_set_self (List.getElem?_eq_some_iff.mp found).1, found, Option.map_some,
      Option.map_some, same]
  · rw [List.getElem?_set_ne here]

mutual

/-- Other values change neither the parent of a node nor whether it is plural. -/
theorem bind_outline : ∀ (request : Request) {data : List DataNode} {id : Nat} {bound : List DataNode},
    bind data id request = .ok bound → bound.map outline = data.map outline
  | ⟨fields, relations, query⟩, data, id, bound, done => by
      rw [bind] at done
      split at done
      · cases done
      · next node found =>
          obtain ⟨_, _, done⟩ := Result.bind_eq_ok.mp done
          rw [bindRelations_outline relations done, map_outline_set found]
          rfl

theorem bindRelations_outline : ∀ (relations : List (String × Request)) {data : List DataNode}
    {id : Nat} {bound : List DataNode},
    bindRelations data id relations = .ok bound → bound.map outline = data.map outline
  | [], data, id, bound, done => by
      rw [bindRelations] at done
      cases done
      rfl
  | (name, request) :: rest, data, id, bound, done => by
      rw [bindRelations] at done
      split at done
      · cases done
      · obtain ⟨between, first, done⟩ := Result.bind_eq_ok.mp done
        rw [bindRelations_outline rest done, bind_outline request first]

end

/-- The plans that come about by building and rebinding. -/
inductive Made : Plan → Prop
  | built {catalog : Catalog} {format : String} {plural : Bool} {request : Request} {p : Plan} :
      build catalog format plural request = .ok p → Made p
  | rebound {p next : Plan} {request : Request} : Made p → p.rebind request = .ok next → Made next

theorem Made.parts {p : Plan} (made : p.Made) :
    Partition.Sound (p.data.map outline) ⟨p.queries, p.owner⟩ := by
  induction made with
  | built done => exact build_parts done
  | @rebound p next request made done ih =>
      obtain ⟨data, bound, done⟩ := Result.bind_eq_ok.mp done
      cases done
      rw [bind_outline request bound]
      exact ih

end NestedQuery.Plan
