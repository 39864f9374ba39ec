/- The tree of a request by nested loops over the tables of its statements: what the folding of rows
is measured against. -/
import NestedQuery.Fold
import NestedQuery.Proofs.Plan

namespace NestedQuery

namespace DataNode

def columnLabel (n : DataNode) (field : String) : String := s!"{n.id}.{field}"

/-- The column that tells which parent rows a node's record belongs to. -/
def matchLabel (n : DataNode) (link : Link) : String :=
  if link.isManyToMany then n.junctionNearLabel else n.columnLabel link.field

/-- The fields that a request names, or all fields of the format. -/
def requested (n : DataNode) : Option (List String) → List String
  | some names => names
  | none => n.format.fields.map (·.name)

/-- Fields with their values in a row; a missing column is null. -/
def entries (n : DataNode) (row : Row) (fields : List String) : List (String × Tree) :=
  fields.map fun field =>
    (field, .scalar ((Fields.find? (n.columnLabel field) row).getD .null))

end DataNode

/-- Whether a record's own value and the parent's are both there and are the same. -/
def linked (same : Value → Value → Bool) : Option Value → Option Value → Bool
  | some own, some key => same own key
  | _, _ => false

namespace Plan

def tableOf (p : Plan) (rows : List (List Row)) (n : DataNode) : List Row :=
  ((p.ownerOf n.id).bind (rows[·]?)).getD []

/-- The rows of a child's table that belong to one value of the parent. -/
def matching (p : Plan) (rows : List (List Row)) (same : Value → Value → Bool) (m : DataNode)
    (link : Link) (key : Option Value) : List Row :=
  (p.tableOf rows m).filter fun row => linked same (Row.link? row (m.matchLabel link)) key

section Nested

variable (p : Plan) (rows : List (List Row)) (same : Value → Value → Bool)
  (shown : DataNode → Option (List String) → List String)

mutual

/-- The object of a node in one row: the shown fields, and an entry for each relation. -/
def nestedObject (n : DataNode) (row : Row) : Request → Tree
  | ⟨fields, relations, _⟩ =>
    .object (Fields.ofList (n.entries row (shown n fields) ++ nestedRelations n row relations))

/-- A relation to one record is built from the same row if it matches, a relation to many from all
rows of its own table that match. -/
def nestedRelations (n : DataNode) (row : Row) : List (String × Request) → List (String × Tree)
  | [] => []
  | (name, request) :: rest =>
    let tree : Tree :=
      match (n.children.lookup name).bind (p.data[·]?) with
      | none => .absent
      | some m =>
        match m.link with
        | none => .absent
        | some link =>
          let key := Row.link? row (n.columnLabel link.parentField)
          if m.plural then
            .list ((p.matching rows same m link key).map fun r => nestedObject m r request)
          else if linked (· == ·) (Row.link? row (m.matchLabel link)) key then
            nestedObject m row request
          else .absent
    (name, tree) :: nestedRelations n row rest

end

/-- The tree of a request: all rows of the first table for many records, the first one for one. -/
def nested (request : Request) : Tree :=
  match p.data[0]? with
  | none => .absent
  | some root =>
    rootTree root.plural
      ((rows.headD []).map fun row => nestedObject p rows same shown root row request)

def nestedChild (n : DataNode) (row : Row) (m : DataNode) (link : Link) (request : Request) : Tree :=
  let key := Row.link? row (n.columnLabel link.parentField)
  if m.plural then
    .list ((p.matching rows same m link key).map fun r => nestedObject p rows same shown m r request)
  else if linked (· == ·) (Row.link? row (m.matchLabel link)) key then
    nestedObject p rows same shown m row request
  else .absent

variable {p rows same shown}

theorem nestedRelations_cons {s : Schema} {n m : DataNode} {name : String} {link : Link}
    (child : Hangs s p n name m link) (listed : n.children.lookup name = some m.id) (row : Row)
    (request : Request) (rest : List (String × Request)) :
    nestedRelations p rows same shown n row ((name, request) :: rest) =
      (name, nestedChild p rows same shown n row m link request) ::
        nestedRelations p rows same shown n row rest := by
  simp only [nestedRelations, nestedChild, listed, Option.bind_some, child.found, child.link_eq]

end Nested

variable {s : Schema} {p : Plan} {plural : Bool} {request : Request}

/-- A requested relation, its child in the list, and the node that the child is. -/
def Related (s : Schema) (p : Plan) (n : DataNode) (r : String × Request) (c : String × Nat) : Prop :=
  c.1 = r.1 ∧ n.children.lookup r.1 = some c.2 ∧
    ∃ m link, m.id = c.2 ∧ m.request = r.2 ∧ Hangs s p n r.1 m link

theorem Over.related (valid : p.Over s plural request) (sound : s.Sound) {n : DataNode}
    (place : p.data[n.id]? = some n) (once : (n.request.relations.map (·.1)).Nodup) :
    List.Forall₂ (Related s p n) n.request.relations n.children := by
  obtain ⟨returned, children, _, grown, hung⟩ := (valid.planned place).grown
  have listed : n.children = children.map fun c => (c.name, c.id) := congrArg DataNode.children grown
  have names : children.map (·.name) = n.request.relations.map (·.1) := by
    refine List.forall₂_eq_eq_eq ▸ ?_
    rw [List.forall₂_map_left_iff, List.forall₂_map_right_iff]
    exact (hung.imp fun _ _ child => child.name_eq.symm).flip.imp fun _ _ => Eq.symm
  rw [listed, List.forall₂_map_right_iff]
  refine List.forall₂_iff_get.mpr ⟨hung.length_eq, fun i inRelations inChildren => ?_⟩
  have child := hung.get inRelations inChildren
  generalize n.request.relations.get ⟨i, inRelations⟩ = r at child
  have member := List.get_mem children ⟨i, inChildren⟩
  generalize children.get ⟨i, inChildren⟩ = c at child member
  obtain ⟨m, found, position, sameRequest⟩ := child.node
  have id : m.id = c.id := congrArg Position.id position
  have inList : (r.1, m.id) ∈ n.children := by
    rw [listed, id, ← child.name_eq]
    exact List.mem_map.mpr ⟨c, member, rfl⟩
  obtain ⟨link, hangs⟩ := valid.child_of sound place (id ▸ found) inList
  refine ⟨child.name_eq, ?_, m, link, id, sameRequest, hangs⟩
  rw [listed, ← child.name_eq]
  exact lookup_children (names ▸ once) c member

theorem Over.namesOnce (valid : p.Over s plural request) (sound : s.Sound) (once : request.NamesOnce) :
    ∀ (i : Nat) {n : DataNode}, p.data[i]? = some n → n.request.NamesOnce := by
  intro i
  induction i using Nat.strongRecOn with
  | ind i ih =>
      intro m found
      obtain rfl := valid.ids found
      by_cases first : m.id = 0
      · obtain ⟨root, top⟩ := valid.top
        rw [first] at found
        cases top.found.symm.trans found
        exact top.request_eq ▸ once
      · obtain ⟨n, name, link, place, child⟩ := valid.parent sound found first
        have above := ih n.id child.after place
        exact above.below.of_mem child.requested

theorem Over.owner_root (valid : p.Over s plural request) (sound : s.Sound) : p.ownerOf 0 = some 0 := by
  obtain ⟨root, top⟩ := valid.top
  obtain ⟨k, q, owner, query, owned⟩ := valid.owner top.found
  rcases valid.query_cases sound query with first | ⟨_, n, m, name, link, _, child, _, here, _⟩
  · rw [owner, first.1]
  · simp only [Partition.Owned, outline, top.parent_eq] at owned
    have zero : m.id = 0 := here.symm.trans owned.1
    exact absurd child.after (zero ▸ Nat.not_lt_zero n.id)

theorem Over.tableOf_root (valid : p.Over s plural request) (sound : s.Sound) {root : DataNode}
    (top : p.Top plural request root) (rows : List (List Row)) : p.tableOf rows root = rows.headD [] := by
  rw [tableOf, top.id_eq, valid.owner_root sound, List.headD_eq_head?_getD, List.head?_eq_getElem?]
  rfl

def rootRows (plural : Bool) (table : List Row) : List Row := if plural then table else table.take 1

theorem mem_of_mem_rootRows {table : List Row} {row : Row} (member : row ∈ rootRows plural table) :
    row ∈ table := by
  unfold rootRows at member
  split at member
  · exact member
  · exact List.mem_of_mem_take member

theorem rootRows_rootRows (plural : Bool) (table : List Row) :
    rootRows plural (rootRows plural table) = rootRows plural table := by
  cases plural with
  | true => rfl
  | false => exact List.take_take.trans (congrArg (List.take · table) (Nat.min_self 1))

theorem rootTree_rootRows (plural : Bool) (table : List Row) (object : Row → Tree) :
    rootTree plural ((rootRows plural table).map object) = rootTree plural (table.map object) := by
  cases plural with
  | true => rfl
  | false =>
      cases table with
      | nil => rfl
      | cons row rest => rfl

/-- Nested loops give the same tree over two families of tables, and for two notions of sameness, if
each row of a table finds the same matching rows in both. -/
def Agree (s : Schema) (p : Plan) (rows others : List (List Row)) (same like : Value → Value → Bool) :
    Prop :=
  ∀ {n m : DataNode} {name : String} {link : Link} {row : Row}, p.data[n.id]? = some n →
    Hangs s p n name m link → m.plural = true → row ∈ p.tableOf rows n →
    p.matching rows same m link (Row.link? row (n.columnLabel link.parentField)) =
      p.matching others like m link (Row.link? row (n.columnLabel link.parentField))

section Congruence

variable {rows others : List (List Row)} {same like : Value → Value → Bool}
  {shown : DataNode → Option (List String) → List String}

theorem tableOf_single (valid : p.Over s plural request) {n m : DataNode} {name : String} {link : Link}
    (child : Hangs s p n name m link) (one : m.plural = false) :
    p.tableOf rows m = p.tableOf rows n := by
  rw [tableOf, tableOf, (valid.owner_single child one).1]

mutual

theorem nestedObject_congr (valid : p.Over s plural request) (sound : s.Sound)
    (agree : Agree s p rows others same like) : ∀ (r : Request) {n : DataNode} {row : Row},
      p.data[n.id]? = some n → n.request = r → r.NamesOnce → row ∈ p.tableOf rows n →
      nestedObject p rows same shown n row r = nestedObject p others like shown n row r
  | ⟨fields, relations, query⟩, n, row, place, here, once, member => by
      have related := valid.related sound place (here ▸ once.1)
      rw [here] at related
      rw [nestedObject, nestedObject,
        nestedRelations_congr valid sound agree relations place related once.2 member]

theorem nestedRelations_congr (valid : p.Over s plural request) (sound : s.Sound)
    (agree : Agree s p rows others same like) :
    ∀ (rs : List (String × Request)) {cs : List (String × Nat)} {n : DataNode} {row : Row},
      p.data[n.id]? = some n → List.Forall₂ (Related s p n) rs cs → Request.NamesOnceBelow rs →
      row ∈ p.tableOf rows n →
      nestedRelations p rows same shown n row rs = nestedRelations p others like shown n row rs
  | [], cs, n, row, place, related, once, member => rfl
  | (name, wanted) :: rest, cs, n, row, place, related, once, member => by
      cases related with
      | cons first later =>
          obtain ⟨_, listed, m, link, id, here, child⟩ := first
          rw [nestedRelations_cons child (id ▸ listed), nestedRelations_cons child (id ▸ listed),
            nestedRelations_congr valid sound agree rest place later once.2 member]
          have tree : nestedChild p rows same shown n row m link wanted =
              nestedChild p others like shown n row m link wanted := by
            unfold nestedChild
            cases many : m.plural with
            | true =>
                simp only [if_true, ← agree place child many member]
                congr 1
                refine List.map_congr_left fun r matched => ?_
                exact nestedObject_congr valid sound agree wanted child.found here once.1
                  (List.mem_of_mem_filter matched)
            | false =>
                have there : row ∈ p.tableOf rows m := by
                  rw [tableOf_single valid child many]
                  exact member
                simp only [Bool.false_eq_true, if_false,
                  nestedObject_congr valid sound agree wanted child.found here once.1 there]
          rw [tree]

end

theorem nested_congr (valid : p.Over s plural request) (sound : s.Sound)
    (agree : Agree s p rows others same like) (once : request.NamesOnce)
    (first : rootRows plural (others.headD []) = rootRows plural (rows.headD [])) :
    p.nested rows same shown request = p.nested others like shown request := by
  obtain ⟨root, top⟩ := valid.top
  have place : p.data[root.id]? = some root := top.id_eq ▸ top.found
  have table := valid.tableOf_root sound top rows
  have objects : ∀ row ∈ rootRows plural (rows.headD []),
      nestedObject p rows same shown root row request =
        nestedObject p others like shown root row request := by
    intro row member
    have inTable : row ∈ p.tableOf rows root := table ▸ mem_of_mem_rootRows member
    exact nestedObject_congr valid sound agree request place top.request_eq once inTable
  simp only [nested, top.found, top.plural_eq]
  rw [← rootTree_rootRows plural (rows.headD []), ← rootTree_rootRows plural (others.headD []), first,
    List.map_congr_left objects]

end Congruence

end Plan
end NestedQuery
