/- The statements that nodes are grouped into, for any nodes of which each comes after its parent: which
nodes a statement has, what hangs below it, and at which level it is run. -/
import Mathlib.Data.List.Nodup
import NestedQuery.Plan.Basic
import NestedQuery.Proofs.Partition

namespace NestedQuery

theorem length_addToLevel (levels : List (List Nat)) (depth id : Nat) :
    (addToLevel levels depth id).length = max levels.length (depth + 1) := by
  rw [addToLevel, List.length_modify, List.length_append, List.length_replicate]
  omega

/-- There are levels only as deep as there are statements. -/
theorem exists_deep_of_levelsOf {queries : List QueryNode} {d : Nat}
    (inside : d < (levelsOf queries).length) : ∃ q ∈ queries, d ≤ q.depth := by
  have grown : ∀ levels : List (List Nat),
      d < (queries.foldl (fun levels q => addToLevel levels q.depth q.id) levels).length →
        d < levels.length ∨ ∃ q ∈ queries, d ≤ q.depth := by
    clear inside
    induction queries with
    | nil => exact fun levels => .inl
    | cons q rest ih =>
        intro levels inside
        rcases ih _ inside with here | ⟨deep, listed, le⟩
        · rw [length_addToLevel] at here
          by_cases before : d < levels.length
          · exact .inl before
          · exact .inr ⟨q, List.mem_cons_self, by omega⟩
        · exact .inr ⟨deep, List.mem_cons_of_mem _ listed, le⟩
  exact (grown [] inside).resolve_left (Nat.not_lt_zero d)

namespace Partition

variable {p : Partition} {nodes : List Outline} {node : Outline} {parent : Option Nat} {k : Nat}
  {q : QueryNode}

theorem Sound.parent_lt (sound : Sound nodes p) (query : p.queries[k]? = some q) {above : Nat}
    (parent : q.parent = some above) : above < k := by
  obtain ⟨node, _, opened⟩ := sound.opened query
  cases opened with
  | top _ none => cases none.symm.trans parent
  | below _ _ _ some less => exact Option.some.inj (some.symm.trans parent) ▸ less

/-- Above a statement there is one at each depth. -/
theorem Sound.exists_depth (sound : Sound nodes p) {d : Nat} (query : p.queries[k]? = some q)
    (deep : d ≤ q.depth) : ∃ (j : Nat) (r : QueryNode), p.queries[j]? = some r ∧ r.depth = d := by
  induction k using Nat.strongRecOn generalizing q with
  | ind k ih =>
      rcases Nat.eq_or_lt_of_le deep with here | deeper
      · exact ⟨k, q, query, here.symm⟩
      · obtain ⟨node, _, opened⟩ := sound.opened query
        cases opened with
        | top _ _ depth => omega
        | below _ _ _ _ less found depth => exact ih _ less found (by omega)

/-- The statements are listed in the order of the nodes that opened them, and each lists those that have it
as their parent. -/
structure Linked (p : Partition) : Prop where
  roots : (p.queries.map (·.root)).Pairwise (· < ·)
  children : ∀ k q, p.queries[k]? = some q → q.children =
    (List.range p.queries.length).filter ((p.queries.map (·.parent))[·]? == some (some k))

theorem empty_linked : Linked empty := ⟨List.Pairwise.nil, nofun⟩

theorem map_modify_of_eq {α β : Type} {f : α → β} {g : α → α} (same : ∀ x, f (g x) = f x)
    (xs : List α) (i : Nat) : (xs.modify i g).map f = xs.map f := by
  refine List.ext_getElem? fun j => ?_
  rw [List.getElem?_map, List.getElem?_modify, List.getElem?_map]
  cases xs[j]? with
  | none => rfl
  | some x =>
      by_cases here : i = j <;> simp [here, same]

theorem map_openQuery {β : Type} {f : QueryNode → β}
    (kept : ∀ q children, f { q with children := children } = f q) :
    (p.openQuery parent).queries.map f = p.queries.map f ++ [f (p.opened parent)] := by
  cases parent with
  | none => exact List.map_append
  | some above =>
      simp only [openQuery, List.map_append]
      rw [map_modify_of_eq fun q => kept q _]
      rfl

theorem map_absorb {β : Type} {f : QueryNode → β} {query : Nat}
    (kept : ∀ q members, f { q with members := members } = f q) :
    (p.absorb query).queries.map f = p.queries.map f :=
  map_modify_of_eq (fun q => kept q _) _ _

theorem Linked.openQuery (linked : p.Linked) (sound : Sound nodes p)
    (earlier : ∀ above, parent = some above → above < p.queries.length) :
    (p.openQuery parent).Linked := by
  refine ⟨?_, fun k q found => ?_⟩
  · rw [map_openQuery fun _ _ => rfl, List.pairwise_append]
    refine ⟨linked.roots, List.pairwise_singleton .., fun root old new last => ?_⟩
    obtain ⟨q, listed, rfl⟩ := List.mem_map.mp old
    obtain ⟨k, query⟩ := List.mem_iff_getElem?.mp listed
    obtain rfl := List.mem_singleton.mp last
    exact (List.getElem?_eq_some_iff.mp (sound.queries k q query).2.1).1
  · rw [openQuery_length, map_openQuery fun _ _ => rfl, places_append (List.length_map ..)]
    by_cases old : k < p.queries.length
    · have before := List.getElem?_eq_getElem old
      rw [openQuery_old before] at found
      cases found
      rw [← linked.children k _ before]
      rfl
    · have last : k = p.queries.length := by
        have inside := (List.getElem?_eq_some_iff.mp found).1
        rw [openQuery_length] at inside
        omega
      subst last
      cases openQuery_new.symm.trans found
      have nobody : (List.range p.queries.length).filter
          ((p.queries.map (·.parent))[·]? == some (some p.queries.length)) = [] := by
        refine List.filter_eq_nil_iff.mpr fun i _ below => ?_
        have below := eq_of_beq below
        rw [List.getElem?_map] at below
        obtain ⟨r, query, parent⟩ := Option.map_eq_some_iff.mp below
        have less := sound.parent_lt query parent
        exact absurd (List.getElem?_eq_some_iff.mp query).1 (Nat.lt_asymm less)
      have apart : parent ≠ some p.queries.length :=
        fun same => Nat.lt_irrefl _ (earlier _ same)
      rw [nobody, List.nil_append]
      exact (if_neg apart).symm

theorem Linked.absorb (linked : p.Linked) (query : Nat) : (p.absorb query).Linked := by
  refine ⟨?_, fun k q found => ?_⟩
  · rw [map_absorb fun _ _ => rfl]
    exact linked.roots
  · have old : k < p.queries.length := absorb_length ▸ (List.getElem?_eq_some_iff.mp found).1
    have before := List.getElem?_eq_getElem old
    rw [absorb_old before] at found
    cases found
    rw [absorb_length, map_absorb fun _ _ => rfl]
    exact linked.children k p.queries[k] before

theorem Linked.add (linked : p.Linked) (sound : Sound nodes p) (node : Outline) :
    (p.add node).Linked := by
  unfold Partition.add
  split
  · refine linked.openQuery sound ?_
    rintro _ ⟨⟩
  · next query owner =>
      obtain ⟨i, _, owner⟩ := Option.bind_eq_some_iff.mp owner
      obtain ⟨q, found⟩ := sound.query_of_owner owner
      split
      · refine linked.openQuery sound ?_
        rintro _ ⟨⟩
        exact (List.getElem?_eq_some_iff.mp found).1
      · exact linked.absorb query

theorem foldl_add_linked {done rest : List Outline} (linked : p.Linked) (sound : Sound done p)
    (ordered : Outline.Ordered (done ++ rest)) : (rest.foldl add p).Linked := by
  induction rest generalizing done p with
  | nil => exact linked
  | cons node rest ih =>
      have here : (done ++ node :: rest)[done.length]? = some node := by simp
      have added := sound.add (ordered done.length node · here)
      rw [List.append_cons] at ordered
      exact ih (linked.add sound node) added ordered

theorem ofOutlines_linked (ordered : Outline.Ordered nodes) : (ofOutlines nodes).Linked :=
  foldl_add_linked empty_linked empty_sound ordered

/-- No level is empty. -/
theorem Sound.level_ne_nil (sound : Sound nodes p) {d : Nat} {level : List Nat}
    (here : (levelsOf p.queries)[d]? = some level) : level ≠ [] := by
  obtain ⟨q, listed, deep⟩ := exists_deep_of_levelsOf (List.getElem?_eq_some_iff.mp here).1
  obtain ⟨k, query⟩ := List.mem_iff_getElem?.mp listed
  obtain ⟨j, r, found, depth⟩ := sound.exists_depth query deep
  have member := sound.mem_level.mpr ⟨r, found, depth⟩
  rw [here] at member
  exact List.ne_nil_of_mem member

end Partition

namespace Plan

/-- Nodes are grouped into statements: every node has one, each statement joins single records to the node
that opened it, and the statements lie below one another as these nodes do. -/
structure Grouped (p : Plan) : Prop where
  owners : p.owner.length = p.data.length
  owned : ∀ n ∈ p.data, ∃ k q, p.ownerOf n.id = some k ∧ p.queries[k]? = some q ∧
    ∀ j r, p.queries[j]? = some r → (n.id ∈ r.members ↔ j = k)
  members : ∀ q ∈ p.queries, ∀ i ∈ q.members, ∃ n ∈ p.data, n.id = i
  opens : ∀ n ∈ p.data, (∃ q ∈ p.queries, q.root = n.id) ↔ n.parent = none ∨ n.plural = true
  joined : ∀ n ∈ p.data, ∀ i, n.parent = some i → n.plural = false → p.ownerOf n.id = p.ownerOf i
  ordered : ∀ q ∈ p.queries, q.members.Pairwise (· < ·) ∧ q.members.head? = some q.root
  absorbed : ∀ q ∈ p.queries, ∀ n ∈ p.data, n.id ∈ q.absorbed →
    ∃ i ∈ q.members, n.parent = some i ∧ i < n.id
  ids : p.queries.map (·.id) = List.range p.queries.length
  roots : (p.queries.map (·.root)).Pairwise (· < ·)
  parents : ∀ q ∈ p.queries, ∀ n ∈ p.data, n.id = q.root →
    n.parent = none ∧ q.parent = none ∧ q.depth = 0 ∨
      ∃ i a, n.parent = some i ∧ p.ownerOf i = some a ∧ q.parent = some a
  above : ∀ q ∈ p.queries, ∀ a, q.parent = some a →
    ∃ upper, p.queries[a]? = some upper ∧ a < q.id ∧
      upper.children.count q.id = 1 ∧ q.depth = upper.depth + 1
  children : ∀ q ∈ p.queries, q.children.Pairwise (· < ·) ∧
    ∀ j, j ∈ q.children ↔ ∃ lower, p.queries[j]? = some lower ∧ lower.parent = some q.id
  isAbsorbed : ∀ n ∈ p.data, p.isAbsorbed n.id = true ↔ n.parent ≠ none ∧ n.plural = false
  level : ∀ d level, p.levels[d]? = some level → level ≠ [] ∧ level.Pairwise (· < ·) ∧
    ∀ k ∈ level, ∃ q : QueryNode, p.queries[k]? = some q ∧ q.depth = d
  levels : p.levels.flatten.Perm (List.range p.queries.length)

section

variable {p : Plan} {n : DataNode} {k : Nat} {q : QueryNode}
  (ids : ∀ (i : Nat) (n : DataNode), p.data[i]? = some n → n.id = i)
  (parts : Partition.Sound (p.data.map outline) ⟨p.queries, p.owner⟩)
  (linked : Partition.Linked ⟨p.queries, p.owner⟩)

include ids in
theorem placed (member : n ∈ p.data) : p.data[n.id]? = some n := by
  obtain ⟨i, found⟩ := List.mem_iff_getElem?.mp member
  rwa [ids i n found]

include parts in
theorem place_query (listed : q ∈ p.queries) : p.queries[q.id]? = some q := by
  obtain ⟨k, query⟩ := List.mem_iff_getElem?.mp listed
  rwa [(parts.queries k q query).1]

section Nodes

include ids parts

theorem owned_node (member : n ∈ p.data) : ∃ k q, p.ownerOf n.id = some k ∧ p.queries[k]? = some q ∧
    Partition.Owned ⟨p.queries, p.owner⟩ n.id (outline n) k q := by
  refine parts.owned n.id (outline n) ?_
  rw [List.getElem?_map, placed ids member]
  rfl

theorem opened_by (listed : q ∈ p.queries) (member : n ∈ p.data) (root : n.id = q.root) :
    Partition.Opened ⟨p.queries, p.owner⟩ q.id q (outline n) := by
  obtain ⟨node, found, opened⟩ := parts.opened (place_query parts listed)
  rw [List.getElem?_map, ← root, placed ids member] at found
  cases found
  exact opened

theorem opens_iff (member : n ∈ p.data) :
    (∃ q ∈ p.queries, q.root = n.id) ↔ n.parent = none ∨ n.plural = true := by
  constructor
  · rintro ⟨q, listed, root⟩
    cases opened_by ids parts listed member root.symm with
    | top parent => exact .inl parent
    | below _ plural => exact .inr plural
  · intro own
    obtain ⟨k, q, _, query, owned⟩ := owned_node ids parts member
    refine ⟨q, List.mem_of_getElem? query, ?_⟩
    unfold Partition.Owned at owned
    split at owned
    · exact owned.1
    · next i hangs =>
        obtain ⟨above, _, owned⟩ := owned
        have many : n.plural = true :=
          own.resolve_left fun top => Option.some_ne_none i (hangs.symm.trans top)
        rw [outline, if_pos many] at owned
        exact owned.1

/-- A node belongs to the statement of its parent exactly if it is single. -/
theorem owner_parent (member : n ∈ p.data) {i : Nat} (hangs : n.parent = some i) :
    p.ownerOf n.id = p.ownerOf i ↔ n.plural = false := by
  obtain ⟨k, q, owner, _, owned⟩ := owned_node ids parts member
  simp only [Partition.Owned, outline, hangs] at owned
  obtain ⟨above, upper, owned⟩ := owned
  rw [owner, show p.ownerOf i = some above from upper, Option.some.injEq]
  cases many : n.plural with
  | true =>
      rw [if_pos many] at owned
      simpa using Nat.ne_of_gt owned.2.2.1
  | false =>
      rw [many, if_neg Bool.false_ne_true] at owned
      simpa using owned.1.symm

theorem isAbsorbed_iff (member : n ∈ p.data) :
    p.isAbsorbed n.id = true ↔ n.parent ≠ none ∧ n.plural = false := by
  rw [isAbsorbed, placed ids member, Option.bind_some]
  cases hangs : n.parent with
  | none => simp
  | some i =>
      rw [beq_iff_eq, owner_parent ids parts member hangs]
      simp

theorem absorbed_below (listed : q ∈ p.queries) (member : n ∈ p.data) (joined : n.id ∈ q.absorbed) :
    ∃ i ∈ q.members, n.parent = some i := by
  have query := place_query parts listed
  have increasing := parts.members_increasing query
  rw [parts.members_eq query] at increasing
  have after : q.root < n.id := (List.pairwise_cons.mp increasing).1 n.id joined
  obtain ⟨node, found, owned⟩ := parts.member_owned query (List.mem_of_mem_drop joined)
  rw [List.getElem?_map, placed ids member] at found
  cases found
  unfold Partition.Owned at owned
  split at owned
  · exact absurd owned.1 (Nat.ne_of_lt after)
  · next i hangs =>
      obtain ⟨above, owner, owned⟩ := owned
      split at owned
      · exact absurd owned.1 (Nat.ne_of_lt after)
      · obtain ⟨rfl, _⟩ := owned
        exact ⟨i, (parts.mem_members query).mpr owner, hangs⟩

end Nodes

section Queries

include parts linked

theorem mem_children (listed : q ∈ p.queries) {j : Nat} :
    j ∈ q.children ↔ ∃ lower, p.queries[j]? = some lower ∧ lower.parent = some q.id := by
  rw [linked.children q.id q (place_query parts listed), List.mem_filter, List.mem_range,
    beq_iff_eq, List.getElem?_map, Option.map_eq_some_iff]
  refine ⟨And.right, fun below => ⟨?_, below⟩⟩
  obtain ⟨lower, query, _⟩ := below
  exact (List.getElem?_eq_some_iff.mp query).1

theorem children_increasing (listed : q ∈ p.queries) : q.children.Pairwise (· < ·) := by
  rw [linked.children q.id q (place_query parts listed)]
  exact List.Pairwise.filter _ List.pairwise_lt_range

theorem above_query (listed : q ∈ p.queries) {a : Nat} (parent : q.parent = some a) :
    ∃ upper, p.queries[a]? = some upper ∧ a < q.id ∧ upper.children.count q.id = 1 ∧
      q.depth = upper.depth + 1 := by
  have query := place_query parts listed
  obtain ⟨node, _, opened⟩ := parts.opened query
  cases opened with
  | top _ none => cases none.symm.trans parent
  | @below _ above upper _ _ _ some less found depth =>
      obtain rfl := Option.some.inj (some.symm.trans parent)
      have same := (parts.queries above upper found).1
      have upperListed := List.mem_of_getElem? found
      refine ⟨upper, found, less, ?_, depth⟩
      refine List.count_eq_one_of_mem ?_ ?_
      · exact (children_increasing parts linked upperListed).imp Nat.ne_of_lt
      · exact (mem_children parts linked upperListed).mpr ⟨q, query, same ▸ parent⟩

end Queries

include ids parts linked

theorem grouped (earlier : ∀ n ∈ p.data, ∀ i ∈ n.parent, i < n.id) : p.Grouped where
  owners := parts.owners.trans (List.length_map ..)
  owned n member := by
    obtain ⟨k, q, owner, query, _⟩ := owned_node ids parts member
    refine ⟨k, q, owner, query, fun j r other => ?_⟩
    rw [parts.mem_members other]
    exact ⟨fun owner' => Option.some.inj (owner'.symm.trans owner), fun same => same ▸ owner⟩
  members q listed i member := by
    obtain ⟨node, found, _⟩ := parts.member_owned (place_query parts listed) member
    rw [List.getElem?_map] at found
    obtain ⟨n, place, _⟩ := Option.map_eq_some_iff.mp found
    exact ⟨n, List.mem_of_getElem? place, ids i n place⟩
  opens n member := opens_iff ids parts member
  joined n member i hangs single := (owner_parent ids parts member hangs).mpr single
  ordered q listed := by
    have query := place_query parts listed
    refine ⟨parts.members_increasing query, ?_⟩
    rw [parts.members_eq query]
    rfl
  absorbed q listed n member joined := by
    obtain ⟨i, inside, hangs⟩ := absorbed_below ids parts listed member joined
    exact ⟨i, inside, hangs, earlier n member i hangs⟩
  ids := parts.ids
  roots := linked.roots
  parents q listed n member root := by
    cases opened_by ids parts listed member root with
    | top hangs none depth => exact .inl ⟨hangs, none, depth⟩
    | below hangs _ owner parent => exact .inr ⟨_, _, hangs, owner, parent⟩
  above q listed a parent := above_query parts linked listed parent
  children q listed :=
    ⟨children_increasing parts linked listed, fun _ => mem_children parts linked listed⟩
  isAbsorbed n member := isAbsorbed_iff ids parts member
  level d level here :=
    ⟨parts.level_ne_nil here, parts.increasing here, fun _ => parts.query_of_level here⟩
  levels := parts.levels_perm

end

/-- Whatever the nodes are, as long as each is at the place that its number says and after its parent, they
are grouped into statements. -/
theorem ofNodes_grouped {data : List DataNode} (ids : data.map (·.id) = List.range data.length)
    (earlier : ∀ n ∈ data, ∀ i ∈ n.parent, i < n.id) : (ofNodes data).Grouped := by
  have ids : ∀ (i : Nat) (n : DataNode), data[i]? = some n → n.id = i := by
    intro i n found
    have here := congrArg (·[i]?) ids
    simp only [List.getElem?_map, found, Option.map_some] at here
    have inside := (List.getElem?_eq_some_iff.mp found).1
    rw [List.getElem?_range inside] at here
    exact Option.some.inj here
  have ordered : Outline.Ordered (data.map outline) := by
    intro i node parent found hangs
    rw [List.getElem?_map] at found
    obtain ⟨n, place, rfl⟩ := Option.map_eq_some_iff.mp found
    exact ids i n place ▸ earlier n (List.mem_of_getElem? place) parent hangs
  exact grouped ids (Partition.ofOutlines_sound ordered) (Partition.ofOutlines_linked ordered) earlier

def bareNode (id : Nat) (parent : Option Nat) (plural : Bool) : DataNode where
  id := id
  format := ⟨"f", "f", []⟩
  plural := plural
  parent := parent
  children := []
  link := none
  request := .empty
  selection := ⟨id, [], []⟩
  path := s!"n{id}"

/-- Two roots, and below the single one a record that is joined after another statement has been opened. -/
def twoRoots : List DataNode :=
  [bareNode 0 none false, bareNode 1 (some 0) true, bareNode 2 (some 1) false,
    bareNode 3 (some 2) true, bareNode 4 (some 0) false, bareNode 5 (some 4) true,
    bareNode 6 none true]

theorem ofNodes_grouped_twoRoots : (ofNodes twoRoots).Grouped ∧
    (ofNodes twoRoots).owner = [0, 1, 1, 2, 0, 3, 4] ∧
    (ofNodes twoRoots).levels = [[0, 4], [1, 3], [2]] := by
  refine ⟨ofNodes_grouped rfl ?_, rfl, rfl⟩
  simp [twoRoots, bareNode]

end Plan

end NestedQuery
