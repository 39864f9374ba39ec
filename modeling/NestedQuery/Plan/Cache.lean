/- Plans kept by the shape of the requests they were made for. -/
import NestedQuery.Plan.Rebind

namespace NestedQuery

namespace Request

mutual

/-- What the structure of a plan depends on: fields, relations in their order, and which nodes are
paged. Compared values, orders and page numbers are left out. -/
def shape : Request → Json
  | ⟨fields, relations, query⟩ => .object [
      ("fields", match fields with
        | some names => .list (names.map Json.text)
        | none => .null),
      ("paginated", .bool query.isPaginated),
      ("relations", .list (relationShapes relations))]

def relationShapes : List (String × Request) → List Json
  | [] => []
  | (name, request) :: rest => .list [.text name, shape request] :: relationShapes rest

end

end Request

structure PlanKey where
  format : String
  plural : Bool
  shape : String
  deriving DecidableEq, Repr

def PlanKey.ofRequest (format : String) (plural : Bool) (request : Request) : PlanKey :=
  ⟨format, plural, request.shape.render⟩

/-- A plan with a number of its own, by which its users can tell that they share it. -/
structure SharedPlan where
  number : Nat
  plan : Plan
  deriving Repr

structure PlanCache where
  entries : List (PlanKey × SharedPlan)
  /-- The number of the next plan. -/
  next : Nat
  deriving Repr

namespace PlanCache

def empty : PlanCache := ⟨[], 0⟩

def find? (c : PlanCache) (key : PlanKey) : Option SharedPlan := c.entries.lookup key

def size (c : PlanCache) : Nat := c.entries.length

def clear (c : PlanCache) : PlanCache := { c with entries := [] }

def number (c : PlanCache) (plan : Plan) : SharedPlan × PlanCache :=
  (⟨c.next, plan⟩, { c with next := c.next + 1 })

/-- Keeps a plan unless there is one for its key already, and gives the one that is kept. -/
def insertIfAbsent (c : PlanCache) (key : PlanKey) (plan : SharedPlan) : SharedPlan × PlanCache :=
  match c.find? key with
  | some kept => (kept, c)
  | none => (plan, { c with entries := c.entries ++ [(key, plan)] })

/-- Whether a look-up finds a plan, then the plan itself: the kept one if the request is equal, else
a copy with the request's values, else a new one, which is kept. -/
def get (c : PlanCache) (catalog : Catalog) (format : String) (plural : Bool) (request : Request) :
    Bool × Result (SharedPlan × PlanCache) :=
  let key := PlanKey.ofRequest format plural request
  match c.find? key with
  | some kept =>
    (true,
      if kept.plan.data.head?.any (·.request == request) then .ok (kept, c)
      else (kept.plan.rebind request).map c.number)
  | none =>
    (false, do
      let plan ← Plan.build catalog format plural request
      let (shared, c) := c.number plan
      return c.insertIfAbsent key shared)

end PlanCache
end NestedQuery
