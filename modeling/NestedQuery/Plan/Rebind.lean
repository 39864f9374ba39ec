/- Giving a plan the values of another request of the same shape. -/
import NestedQuery.Plan.Basic

namespace NestedQuery.Plan

mutual

/-- Gives the node with this id, and those below it, the request's filters, orders and pages. -/
def bind (data : List DataNode) (id : Nat) : Request → Result (List DataNode)
  | ⟨fields, relations, query⟩ =>
    match data[id]? with
    | none => fail (.noDataNode id)
    | some node => do
      query.check node.format node.plural node.path
      bindRelations (data.set id { node with request := ⟨fields, relations, query⟩ }) id relations

def bindRelations (data : List DataNode) (id : Nat) :
    List (String × Request) → Result (List DataNode)
  | [] => .ok data
  | (name, request) :: rest =>
    match (data[id]?.map (·.children)).bind (List.lookup name) with
    | none => fail (.relationNotPlanned name)
    | some child => do
      let bound ← bind data child request
      bindRelations bound id rest

end

/-- The plan with the values of a request; its nodes and statements stay as they are. -/
def rebind (p : Plan) (request : Request) : Result Plan := do
  return { p with data := ← bind p.data 0 request }

end NestedQuery.Plan
