/- A plan that is given the values of a request of the same shape is the plan of that request. -/
import NestedQuery.Plan.Rebind
import NestedQuery.Proofs.Arena

namespace NestedQuery

namespace Request

mutual

/-- Two requests differ at most in filters, orders and page numbers. -/
def SameShape : Request → Request → Prop
  | ⟨fields, relations, query⟩, ⟨others, rest, other⟩ =>
    fields = others ∧ query.isPaginated = other.isPaginated ∧ SameShapes relations rest

def SameShapes : List (String × Request) → List (String × Request) → Prop
  | [], [] => True
  | (m, r) :: rs, (n, s) :: ss => m = n ∧ SameShape r s ∧ SameShapes rs ss
  | _, _ => False

end

end Request

/-- A node without its request: what a plan keeps when it is given other values. -/
def DataNode.frame (n : DataNode) : DataNode := { n with request := .empty }

mutual

/-- All but the requests of the nodes is determined by the shape. -/
theorem arena_frames {catalog : Catalog} {p : Position} :
    ∀ (r s : Request) {nodes others : List DataNode}, r.SameShape s →
      arena catalog p r = .ok nodes → arena catalog p s = .ok others →
      others.map (·.frame) = nodes.map (·.frame)
  | ⟨_, relations, query⟩, ⟨fields, rest, other⟩, nodes, others, same, grown, regrown => by
      obtain ⟨rfl, _, sameBelow⟩ := same
      obtain ⟨children, below, returned, _, grownBelow, known, rfl⟩ := arena_cases grown
      obtain ⟨children', below', returned', _, regrownBelow, known', rfl⟩ := arena_cases regrown
      cases known.symm.trans known'
      obtain ⟨rfl, frames⟩ := arenaOfRelations_frames relations rest sameBelow grownBelow regrownBelow
      rw [List.map_cons, List.map_cons, frames]
      rfl

theorem arenaOfRelations_frames {catalog : Catalog} {p : Position} {next : Nat} :
    ∀ (rs ss : List (String × Request)) {children later : List Child}
      {nodes others : List DataNode}, Request.SameShapes rs ss →
      arenaOfRelations catalog p next rs = .ok (children, nodes) →
      arenaOfRelations catalog p next ss = .ok (later, others) →
      later = children ∧ others.map (·.frame) = nodes.map (·.frame)
  | [], [], children, later, nodes, others, same, grown, regrown => by
      cases grown
      cases regrown
      exact ⟨rfl, rfl⟩
  | (m, r) :: rs, (n, s) :: ss, children, later, nodes, others, same, grown, regrown => by
      obtain ⟨rfl, sameFirst, sameRest⟩ := same
      obtain ⟨resolved, first, cs, ns, found, grownFirst, grownRest, rfl, rfl⟩ :=
        arenaOfRelations_cases grown
      obtain ⟨resolved', first', cs', ns', found', regrownFirst, regrownRest, rfl, rfl⟩ :=
        arenaOfRelations_cases regrown
      cases found.symm.trans found'
      have frames := arena_frames r s sameFirst grownFirst regrownFirst
      have sameLength : first'.length = first.length := by
        simpa only [List.length_map] using congrArg List.length frames
      rw [sameLength] at regrownRest
      obtain ⟨rfl, framesRest⟩ := arenaOfRelations_frames rs ss sameRest grownRest regrownRest
      refine ⟨rfl, ?_⟩
      rw [List.map_append, List.map_append, frames, framesRest]

end

theorem arenaOfRelations_names {catalog : Catalog} {p : Position} {next : Nat}
    {relations : List (String × Request)} {children : List Child} {nodes : List DataNode}
    (grown : arenaOfRelations catalog p next relations = .ok (children, nodes)) :
    children.map (·.name) = relations.map (·.1) := by
  induction relations generalizing next children nodes with
  | nil =>
      cases grown
      rfl
  | cons relation rest ih =>
      obtain ⟨resolved, first, later, others, _, _, grownRest, rfl, _⟩ :=
        arenaOfRelations_cases grown
      rw [List.map_cons, List.map_cons, ih grownRest]

namespace Plan

/-- The grouping of nodes into statements does not depend on their requests. -/
theorem outlines_of_frames {nodes others : List DataNode}
    (frames : others.map (·.frame) = nodes.map (·.frame)) :
    others.map outline = nodes.map outline := by
  have outlined := congrArg (List.map outline) frames
  rwa [List.map_map, List.map_map] at outlined

mutual

/-- Giving the nodes below a position other values comes to planning that part anew, also when it is
refused. What stands before and after stays. -/
theorem bind_eq_arena {catalog : Catalog} {p : Position} :
    ∀ (r s : Request) (front back : List DataNode) {nodes : List DataNode},
      r.SameShape s → r.NamesOnce →
      arena catalog p r = .ok nodes → front.length = p.id →
      bind (front ++ nodes ++ back) p.id s =
        (arena catalog p s).map fun others => front ++ others ++ back
  | ⟨fields, relations, query⟩, ⟨_, rest, other⟩, front, back, nodes, same, once, grown, starts => by
      obtain ⟨rfl, _, sameBelow⟩ := same
      obtain ⟨onceHere, onceBelow⟩ := once
      obtain ⟨children, below, returned, _, grownBelow, known, rfl⟩ := arena_cases grown
      let old := p.node ⟨fields, relations, query⟩ returned children
      let new := p.node ⟨fields, rest, other⟩ returned children
      have here : (front ++ old :: below ++ back)[p.id]? = some old := by simp [← starts]
      have replaced : (front ++ old :: below ++ back).set p.id new =
          (front ++ [new]) ++ below ++ back := by simp [← starts]
      have found : (front ++ [new])[p.id]?.map (·.children) =
          some (children.map fun c => (c.name, c.id)) := by simp [← starts, new, Position.node]
      have names := lookup_children (arenaOfRelations_names grownBelow ▸ onceHere)
      have length : (front ++ [new]).length = p.id + 1 := by simp [starts]
      have belowEq := bindRelations_eq_arena relations rest (front ++ [new]) back sameBelow onceBelow
        grownBelow length (Nat.lt_succ_self _) found names
      change bind (front ++ old :: below ++ back) p.id _ = _
      rw [bind, here]
      simp only [arena]
      cases checked : other.check p.format p.plural p.path with
      | error e =>
          simp only [old, Position.node, checked]
          rfl
      | ok _ =>
          simp only [old, Position.node, checked, Result.ok_bind]
          change bindRelations ((front ++ old :: below ++ back).set p.id new) p.id rest = _
          rw [replaced, belowEq]
          cases regrown : arenaOfRelations catalog p (p.id + 1) rest with
          | error e => rfl
          | ok both =>
              obtain ⟨later, others⟩ := both
              obtain ⟨rfl, _⟩ := arenaOfRelations_frames relations rest sameBelow grownBelow regrown
              simp [known, Except.map, new, Position.node]

theorem bindRelations_eq_arena {catalog : Catalog} {p : Position} {next : Nat}
    {listed : List (String × Nat)} :
    ∀ (rs ss : List (String × Request)) (front back : List DataNode) {children : List Child}
      {nodes : List DataNode},
      Request.SameShapes rs ss → Request.NamesOnceBelow rs →
      arenaOfRelations catalog p next rs = .ok (children, nodes) → front.length = next →
      p.id < next → front[p.id]?.map (·.children) = some listed →
      (∀ c ∈ children, listed.lookup c.name = some c.id) →
      bindRelations (front ++ nodes ++ back) p.id ss =
        (arenaOfRelations catalog p next ss).map fun grown => front ++ grown.2 ++ back
  | [], [], front, back, children, nodes, same, once, grown, starts, after, found, names => by
      cases grown
      rfl
  | (m, r) :: rs, (n, s) :: ss, front, back, children, nodes, same, once, grown, starts, after,
      found, names => by
      obtain ⟨rfl, sameFirst, sameRest⟩ := same
      obtain ⟨onceFirst, onceRest⟩ := once
      obtain ⟨resolved, first, later, others, known, grownFirst, grownRest, rfl, rfl⟩ :=
        arenaOfRelations_cases grown
      obtain ⟨named, namesRest⟩ := List.forall_mem_cons.mp names
      subst starts
      have inside : (front ++ (first ++ others) ++ back)[p.id]? = front[p.id]? := by
        rw [List.append_assoc, List.getElem?_append_left after]
      have firstEq := bind_eq_arena r s front (others ++ back) sameFirst onceFirst grownFirst rfl
      have resolves : p.resolve catalog m = .ok resolved := Position.resolve_eq_ok.mpr known
      simp only [bindRelations, inside, found, Option.bind_some, named, arenaOfRelations, resolves,
        Result.ok_bind]
      rw [show front ++ (first ++ others) ++ back = front ++ first ++ (others ++ back) by
        simp only [List.append_assoc]]
      change (bind _ (p.below front.length resolved m).id s >>= _) =
        ((arena catalog (p.below front.length resolved m) s >>= _).map _ : Result _)
      rw [firstEq]
      cases regrown : arena catalog (p.below front.length resolved m) s with
      | error e => rfl
      | ok newFirst =>
          have frames := arena_frames r s sameFirst grownFirst regrown
          have sameLength : newFirst.length = first.length := by
            simpa only [List.length_map] using congrArg List.length frames
          have foundAgain : (front ++ newFirst)[p.id]?.map (·.children) = some listed := by
            rw [List.getElem?_append_left after, found]
          have restEq := bindRelations_eq_arena rs ss (front ++ newFirst) back sameRest onceRest
            grownRest (by rw [List.length_append, sameLength]) (Nat.lt_add_right _ after) foundAgain
            namesRest
          simp only [Except.map, Result.ok_bind]
          rw [← List.append_assoc, restEq, sameLength]
          cases arenaOfRelations catalog p (front.length + first.length) ss with
          | error e => rfl
          | ok both => simp [Except.map]

end

/-- Giving a plan the values of another request of its shape is the same as planning that request. -/
theorem rebind_eq_build {catalog : Catalog} {format : String} {plural : Bool} {r s : Request}
    {plan : Plan} (built : build catalog format plural r = .ok plan) (same : r.SameShape s)
    (once : r.NamesOnce) : plan.rebind s = build catalog format plural s := by
  obtain ⟨data, grown, rfl⟩ := Result.map_eq_ok.mp built
  obtain ⟨root, known, grown⟩ := Result.bind_eq_ok.mp grown
  have rebound := bind_eq_arena r s [] [] same once grown rfl
  simp only [List.nil_append, List.append_nil] at rebound
  simp only [build, rootArena, known, Result.ok_bind, rebind]
  change (bind data 0 s >>= _) = _
  rw [rebound]
  cases regrown : arena catalog ⟨0, root, plural, none, none, format⟩ s with
  | error e => rfl
  | ok others =>
      have outlines := outlines_of_frames (arena_frames r s same grown regrown)
      simp only [Except.map, Result.ok_bind, ofNodes, outlines]
      rfl

end Plan
end NestedQuery
