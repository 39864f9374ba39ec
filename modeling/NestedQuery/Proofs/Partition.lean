/- What the grouping into statements keeps: every node has one owner, a statement's members are the
nodes that it owns, and only roots and plural nodes open statements. -/
import NestedQuery.Plan.Partition

namespace NestedQuery

theorem getElem?_of_cons_eq_drop {α : Type u} {xs rest : List α} {x : α} {d : Nat}
    (same : x :: rest = xs.drop d) : xs[d]? = some x ∧ rest = xs.drop (d + 1) := by
  constructor
  · rw [← Nat.add_zero d, ← List.getElem?_drop, ← same]
    rfl
  · rw [← List.tail_drop, ← same]
    rfl

def Outline.Ordered (nodes : List Outline) : Prop :=
  ∀ i (node : Outline) parent, nodes[i]? = some node → node.parent = some parent → parent < i

namespace Partition

/-- How the statement that owns a node comes from the node: a root opens one, a plural node opens one
below that of its parent, and any other node joins its parent's. -/
def Owned (p : Partition) (i : Nat) (node : Outline) (k : Nat) (q : QueryNode) : Prop :=
  match node.parent with
  | none => q.root = i ∧ q.parent = none ∧ q.depth = 0
  | some parent => ∃ above, p.owner[parent]? = some above ∧
    if node.plural then
      q.root = i ∧ q.parent = some above ∧ above < k ∧ q.depth = p.depthOf above + 1
    else above = k ∧ q.root < i

structure Sound (nodes : List Outline) (p : Partition) : Prop where
  owners : p.owner.length = nodes.length
  queries : ∀ k q, p.queries[k]? = some q → q.id = k ∧ p.owner[q.root]? = some k ∧
    q.members = (List.range nodes.length).filter (p.owner[·]? == some k)
  owned : ∀ i node, nodes[i]? = some node →
    ∃ k q, p.owner[i]? = some k ∧ p.queries[k]? = some q ∧ p.Owned i node k q

theorem empty_sound : Sound [] empty := ⟨rfl, nofun, nofun⟩

variable {p : Partition} {nodes : List Outline} {node : Outline} {parent : Option Nat} {k : Nat}
  {q : QueryNode}

theorem Owned.root_le {i : Nat} (owned : p.Owned i node k q) : q.root ≤ i := by
  unfold Owned at owned
  split at owned
  · exact Nat.le_of_eq owned.1
  · obtain ⟨above, _, owned⟩ := owned
    split at owned
    · exact Nat.le_of_eq owned.1
    · exact Nat.le_of_lt owned.2

def opened (p : Partition) (parent : Option Nat) : QueryNode where
  id := p.queries.length
  root := p.owner.length
  members := [p.owner.length]
  parent := parent
  children := []
  depth := match parent with
    | some q => p.depthOf q + 1
    | none => 0

theorem openQuery_new : (p.openQuery parent).queries[p.queries.length]? = some (p.opened parent) := by
  cases parent with
  | none => simp [openQuery, opened]
  | some above => simp [openQuery, opened]

theorem openQuery_length : (p.openQuery parent).queries.length = p.queries.length + 1 := by
  cases parent with
  | none => simp [openQuery]
  | some above => simp [openQuery]

theorem openQuery_old (found : p.queries[k]? = some q) :
    (p.openQuery parent).queries[k]? = some { q with
      children := q.children ++ if parent = some k then [p.queries.length] else [] } := by
  have inside := (List.getElem?_eq_some_iff.mp found).1
  cases parent with
  | none =>
      simp only [openQuery]
      rw [List.getElem?_append_left inside, found]
      simp
  | some above =>
      simp only [openQuery]
      rw [List.getElem?_append_left (by simpa using inside), List.getElem?_modify, found]
      by_cases here : above = k <;> simp [here]

theorem absorb_old {query : Nat} (found : p.queries[k]? = some q) :
    (p.absorb query).queries[k]? = some { q with
      members := if query = k then q.members ++ [p.owner.length] else q.members } := by
  simp only [absorb]
  rw [List.getElem?_modify, found]
  split <;> rfl

theorem absorb_length {query : Nat} : (p.absorb query).queries.length = p.queries.length := by
  simp [absorb]

/-- What each step leaves of the statements that there are. -/
theorem add_old (found : p.queries[k]? = some q) : ∃ members children,
    (p.add node).queries[k]? = some { q with members := members, children := children } := by
  unfold add
  split
  · exact ⟨q.members, _, openQuery_old found⟩
  · split
    · exact ⟨q.members, _, openQuery_old found⟩
    · exact ⟨_, q.children, absorb_old found⟩

theorem Sound.query_of_owner (sound : Sound nodes p) {i : Nat} (owned : p.owner[i]? = some k) :
    ∃ q, p.queries[k]? = some q := by
  have inside : i < nodes.length := sound.owners ▸ (List.getElem?_eq_some_iff.mp owned).1
  obtain ⟨o, q, owner, query, _⟩ := sound.owned i _ (List.getElem?_eq_getElem inside)
  cases owned.symm.trans owner
  exact ⟨q, query⟩

theorem depthOf_add (found : p.queries[k]? = some q) : (p.add node).depthOf k = p.depthOf k := by
  obtain ⟨members, children, kept⟩ := @add_old p node k q found
  simp only [depthOf, found, kept]

theorem add_owner : ∃ new, (p.add node).owner = p.owner ++ [new] := by
  unfold add
  split
  · exact ⟨_, rfl⟩
  · split
    · exact ⟨_, rfl⟩
    · exact ⟨_, rfl⟩

theorem owner_add {i : Nat} (owned : p.owner[i]? = some k) : (p.add node).owner[i]? = some k := by
  obtain ⟨new, appended⟩ := @add_owner p node
  rw [appended, List.getElem?_append_left (List.getElem?_eq_some_iff.mp owned).1, owned]

theorem Owned.add {i : Nat} {old : Outline} {members children : List Nat}
    (owned : p.Owned i old k q) (sound : Sound nodes p) :
    (p.add node).Owned i old k { q with members := members, children := children } := by
  unfold Owned at owned ⊢
  split at owned
  · exact owned
  · obtain ⟨above, known, cases⟩ := owned
    obtain ⟨q', found⟩ := sound.query_of_owner known
    refine ⟨above, owner_add known, ?_⟩
    rw [depthOf_add found]
    exact cases

/-- The places of a value when one more value has been added to a list. -/
theorem places_append {α : Type} [BEq α] [LawfulBEq α] [DecidableEq α] {xs : List α} {n : Nat}
    (length : xs.length = n) (new x : α) : (List.range (n + 1)).filter ((xs ++ [new])[·]? == some x) =
      (List.range n).filter (xs[·]? == some x) ++ if new = x then [n] else [] := by
  rw [List.range_succ, List.filter_append]
  congr 1
  · refine List.filter_congr fun i inside => ?_
    rw [List.getElem?_append_left (length ▸ List.mem_range.mp inside)]
  · by_cases same : new = x <;> simp [← length, same]

theorem Sound.owned_add (sound : Sound nodes p)
    (new : ∃ k q, (p.add node).owner[nodes.length]? = some k ∧ (p.add node).queries[k]? = some q ∧
      (p.add node).Owned nodes.length node k q) :
    ∀ i n, (nodes ++ [node])[i]? = some n → ∃ k q, (p.add node).owner[i]? = some k ∧
      (p.add node).queries[k]? = some q ∧ (p.add node).Owned i n k q := by
  intro i n found
  by_cases old : i < nodes.length
  · rw [List.getElem?_append_left old] at found
    obtain ⟨k, q, owner, query, owned⟩ := sound.owned i n found
    obtain ⟨members, children, kept⟩ := @add_old p node k q query
    exact ⟨k, _, owner_add owner, kept, owned.add sound⟩
  · obtain ⟨inside, last⟩ := List.getElem?_eq_some_iff.mp found
    have here : i = nodes.length := by
      simp only [List.length_append, List.length_singleton] at inside
      omega
    subst here
    have same : node = n := by simpa using last
    exact same ▸ new

theorem Sound.openQuery (sound : Sound nodes p) (added : p.add node = p.openQuery parent)
    (owned : (p.openQuery parent).Owned nodes.length node p.queries.length (p.opened parent)) :
    Sound (nodes ++ [node]) (p.add node) := by
  have newOwner : (p.add node).owner = p.owner ++ [p.queries.length] := by
    rw [added]
    rfl
  have lastOwner : (p.add node).owner[nodes.length]? = some p.queries.length := by
    simp [newOwner, ← sound.owners]
  have newQuery : (p.add node).queries[p.queries.length]? = some (p.opened parent) := by
    rw [added]
    exact openQuery_new
  refine ⟨?_, ?_, sound.owned_add ⟨_, _, lastOwner, newQuery, added ▸ owned⟩⟩
  · rw [newOwner, List.length_append, List.length_append, sound.owners]
    rfl
  · intro k q found
    rw [List.length_append, newOwner, List.length_singleton, places_append sound.owners]
    by_cases old : k < p.queries.length
    · have before := List.getElem?_eq_getElem old
      obtain ⟨id, root, members⟩ := sound.queries k _ before
      rw [added, openQuery_old before] at found
      cases found
      refine ⟨id, newOwner ▸ owner_add root, ?_⟩
      rw [if_neg (Nat.ne_of_gt old), List.append_nil]
      exact members
    · have last : k = p.queries.length := by
        have inside := (List.getElem?_eq_some_iff.mp found).1
        rw [added, openQuery_length] at inside
        omega
      subst last
      cases newQuery.symm.trans found
      have nobody : (List.range nodes.length).filter (p.owner[·]? == some p.queries.length) = [] := by
        refine List.filter_eq_nil_iff.mpr fun i _ owned => ?_
        obtain ⟨q, known⟩ := sound.query_of_owner (eq_of_beq owned)
        exact Nat.lt_irrefl _ (List.getElem?_eq_some_iff.mp known).1
      refine ⟨rfl, ?_, ?_⟩
      · rw [← newOwner, ← lastOwner, ← sound.owners]
        rfl
      · rw [nobody, if_pos rfl, List.nil_append, ← sound.owners]
        rfl

theorem Sound.absorb (sound : Sound nodes p) {query : Nat} (added : p.add node = p.absorb query)
    (found : p.queries[query]? = some q)
    (owned : (p.absorb query).Owned nodes.length node query q) :
    Sound (nodes ++ [node]) (p.add node) := by
  have newOwner : (p.add node).owner = p.owner ++ [query] := by
    rw [added]
    rfl
  have lastOwner : (p.add node).owner[nodes.length]? = some query := by
    simp [newOwner, ← sound.owners]
  refine ⟨?_, ?_, sound.owned_add ⟨_, _, lastOwner, added ▸ absorb_old found, added ▸ owned⟩⟩
  · rw [newOwner, List.length_append, List.length_append, sound.owners]
    rfl
  · intro k q kept
    rw [List.length_append, newOwner, List.length_singleton, places_append sound.owners]
    have old : k < p.queries.length := by
      have inside := (List.getElem?_eq_some_iff.mp kept).1
      rw [added, absorb_length] at inside
      exact inside
    have before := List.getElem?_eq_getElem old
    obtain ⟨id, root, members⟩ := sound.queries k _ before
    rw [added, absorb_old before] at kept
    cases kept
    refine ⟨id, newOwner ▸ owner_add root, ?_⟩
    rw [← members, ← sound.owners]
    by_cases here : query = k
    · simp [here]
    · simp [here]

theorem Sound.add (sound : Sound nodes p)
    (earlier : ∀ parent, node.parent = some parent → parent < nodes.length) :
    Sound (nodes ++ [node]) (p.add node) := by
  cases top : node.parent with
  | none =>
      have added : p.add node = p.openQuery none := by simp [Partition.add, top]
      refine sound.openQuery added ?_
      simp [Owned, top, opened, sound.owners]
  | some parent =>
      have inside : parent < p.owner.length := sound.owners ▸ earlier parent top
      have owner := List.getElem?_eq_getElem inside
      obtain ⟨q, query⟩ := sound.query_of_owner owner
      have below := (List.getElem?_eq_some_iff.mp query).1
      cases plural : node.plural with
      | true =>
          have added : p.add node = p.openQuery (some p.owner[parent]) := by
            simp [Partition.add, top, owner, plural]
          refine sound.openQuery added ?_
          rw [← added]
          simp only [Owned, top]
          refine ⟨p.owner[parent], owner_add owner, ?_⟩
          rw [if_pos plural, depthOf_add query]
          exact ⟨sound.owners, rfl, below, rfl⟩
      | false =>
          have added : p.add node = p.absorb p.owner[parent] := by
            simp [Partition.add, top, owner, plural]
          refine sound.absorb added query ?_
          rw [← added]
          simp only [Owned, top]
          refine ⟨p.owner[parent], owner_add owner, ?_⟩
          rw [plural, if_neg Bool.false_ne_true]
          obtain ⟨_, root, _⟩ := sound.queries _ q query
          exact ⟨rfl, sound.owners ▸ (List.getElem?_eq_some_iff.mp root).1⟩

theorem foldl_add_sound {done rest : List Outline} (sound : Sound done p)
    (ordered : Outline.Ordered (done ++ rest)) : Sound (done ++ rest) (rest.foldl add p) := by
  induction rest generalizing done p with
  | nil => rwa [List.append_nil]
  | cons node rest ih =>
      have here : (done ++ node :: rest)[done.length]? = some node := by simp
      have added := sound.add (ordered done.length node · here)
      rw [List.append_cons] at ordered ⊢
      exact ih added ordered

theorem ofOutlines_sound (ordered : Outline.Ordered nodes) : Sound nodes (ofOutlines nodes) :=
  foldl_add_sound empty_sound ordered

section Members

variable (sound : Sound nodes p) (query : p.queries[k]? = some q)
include sound query

theorem Sound.mem_members {i : Nat} : i ∈ q.members ↔ p.owner[i]? = some k := by
  rw [(sound.queries k q query).2.2, List.mem_filter, List.mem_range, beq_iff_eq]
  refine ⟨And.right, fun owner => ⟨?_, owner⟩⟩
  exact sound.owners ▸ (List.getElem?_eq_some_iff.mp owner).1

/-- The members of a statement are owned by it, none before the one that opened it. -/
theorem Sound.member_owned {i : Nat} (member : i ∈ q.members) :
    ∃ node, nodes[i]? = some node ∧ p.Owned i node k q := by
  have owner := (sound.mem_members query).mp member
  have inside : i < nodes.length := sound.owners ▸ (List.getElem?_eq_some_iff.mp owner).1
  have found := List.getElem?_eq_getElem inside
  obtain ⟨k', q', owner', query', owned⟩ := sound.owned i _ found
  cases owner.symm.trans owner'
  cases query.symm.trans query'
  exact ⟨_, found, owned⟩

theorem Sound.root_mem : q.root ∈ q.members :=
  (sound.mem_members query).mpr (sound.queries k q query).2.1

theorem Sound.members_increasing : q.members.Pairwise (· < ·) := by
  rw [(sound.queries k q query).2.2]
  exact List.Pairwise.filter _ List.pairwise_lt_range

theorem Sound.members_eq : q.members = q.root :: q.absorbed := by
  have root := sound.root_mem query
  have increasing := sound.members_increasing query
  unfold QueryNode.absorbed
  cases members : q.members with
  | nil =>
      rw [members] at root
      cases root
  | cons first rest =>
      obtain ⟨_, _, owned⟩ := sound.member_owned query (members ▸ List.mem_cons_self ..)
      rw [members] at root increasing
      rcases List.mem_cons.mp root with same | later
      · rw [same]
        rfl
      · -- the one that opened the statement cannot come after another member
        have less := (List.pairwise_cons.mp increasing).1 q.root later
        exact absurd less (Nat.not_lt_of_le owned.root_le)

end Members

/-- How a statement hangs below the one that owns the parent of its first node. -/
inductive Opened (p : Partition) (k : Nat) (q : QueryNode) (node : Outline) : Prop
  | top (parent_eq : node.parent = none) (parent : q.parent = none) (depth : q.depth = 0)
  | below {i above : Nat} {upper : QueryNode} (parent_eq : node.parent = some i)
      (plural : node.plural = true) (owner : p.owner[i]? = some above) (parent : q.parent = some above)
      (less : above < k) (query : p.queries[above]? = some upper) (depth : q.depth = upper.depth + 1)

theorem Sound.opened (sound : Sound nodes p) (query : p.queries[k]? = some q) :
    ∃ node, nodes[q.root]? = some node ∧ p.Opened k q node := by
  obtain ⟨node, found, owned⟩ := sound.member_owned query (sound.root_mem query)
  refine ⟨node, found, ?_⟩
  unfold Owned at owned
  split at owned
  · next top => exact .top top owned.2.1 owned.2.2
  · next i hangs =>
      obtain ⟨above, owner, owned⟩ := owned
      obtain ⟨upper, found⟩ := sound.query_of_owner owner
      split at owned
      · next plural =>
          obtain ⟨_, parent, less, depth⟩ := owned
          simp only [depthOf, found] at depth
          exact .below hangs plural owner parent less found depth
      · exact absurd owned.2 (Nat.lt_irrefl _)

end Partition

theorem addToLevel_getElem? (levels : List (List Nat)) (depth id d : Nat) :
    ((addToLevel levels depth id)[d]?).getD [] =
      (levels[d]?).getD [] ++ if depth = d then [id] else [] := by
  have padded : ∀ i : Nat, ((levels ++ List.replicate (depth + 1 - levels.length) [])[i]?).getD [] =
      (levels[i]?).getD [] := by
    intro i
    by_cases old : i < levels.length
    · rw [List.getElem?_append_left old]
    · rw [List.getElem?_append_right (by omega), List.getElem?_replicate,
        List.getElem?_eq_none (by omega)]
      split <;> rfl
  rw [addToLevel, List.getElem?_modify, ← padded d]
  by_cases here : depth = d
  · subst here
    have inside : depth < (levels ++ List.replicate (depth + 1 - levels.length) []).length := by
      rw [List.length_append, List.length_replicate]
      omega
    rw [List.getElem?_eq_getElem inside]
    simp
  · simp [here]

/-- The level of a depth lists the statements of that depth in their order. -/
theorem levelsOf_getElem? (queries : List QueryNode) (d : Nat) :
    ((levelsOf queries)[d]?).getD [] = (queries.filter (·.depth == d)).map (·.id) := by
  have added : ∀ levels : List (List Nat),
      ((queries.foldl (fun levels q => addToLevel levels q.depth q.id) levels)[d]?).getD [] =
        (levels[d]?).getD [] ++ (queries.filter (·.depth == d)).map (·.id) := by
    induction queries with
    | nil =>
        intro levels
        exact (List.append_nil _).symm
    | cons q rest ih =>
        intro levels
        rw [List.foldl_cons, ih, addToLevel_getElem?, List.filter_cons, List.append_assoc]
        by_cases here : q.depth = d
        · simp [here]
        · simp [here]
  exact added []

namespace Partition

variable {nodes : List Outline} {p : Partition} {k d : Nat}

theorem Sound.ids (sound : Sound nodes p) : p.queries.map (·.id) = List.range p.queries.length := by
  apply List.ext_getElem?
  intro i
  rw [List.getElem?_map]
  cases found : p.queries[i]? with
  | none =>
      have outside := List.getElem?_eq_none_iff.mp found
      rw [List.getElem?_eq_none (by rwa [List.length_range])]
      rfl
  | some q =>
      have inside := (List.getElem?_eq_some_iff.mp found).1
      rw [List.getElem?_range inside, ← (sound.queries i q found).1]
      rfl

theorem Sound.mem_level (sound : Sound nodes p) :
    k ∈ ((levelsOf p.queries)[d]?).getD [] ↔ ∃ q, p.queries[k]? = some q ∧ q.depth = d := by
  rw [levelsOf_getElem?]
  constructor
  · intro listed
    obtain ⟨q, kept, rfl⟩ := List.mem_map.mp listed
    obtain ⟨inQueries, depth⟩ := List.mem_filter.mp kept
    obtain ⟨i, found⟩ := List.mem_iff_getElem?.mp inQueries
    obtain rfl := (sound.queries i q found).1
    exact ⟨q, found, beq_iff_eq.mp depth⟩
  · rintro ⟨q, found, depth⟩
    refine List.mem_map.mpr ⟨q, List.mem_filter.mpr ⟨List.mem_of_getElem? found, ?_⟩, ?_⟩
    · exact beq_iff_eq.mpr depth
    · exact (sound.queries k q found).1

theorem Sound.level_increasing (sound : Sound nodes p) (d : Nat) :
    (((levelsOf p.queries)[d]?).getD []).Pairwise (· < ·) := by
  have ids : (p.queries.map (·.id)).Pairwise (· < ·) := sound.ids ▸ List.pairwise_lt_range
  rw [levelsOf_getElem?]
  exact ids.sublist (List.filter_sublist.map _)

section Level

variable {level : List Nat} (here : (levelsOf p.queries)[d]? = some level)
include here

theorem Sound.query_of_level (sound : Sound nodes p) (member : k ∈ level) :
    ∃ q, p.queries[k]? = some q ∧ q.depth = d := by
  refine sound.mem_level.mp ?_
  rw [here]
  exact member

theorem Sound.increasing (sound : Sound nodes p) : level.Pairwise (· < ·) := by
  have whole := sound.level_increasing d
  rwa [here] at whole

end Level

/-- The levels from a depth on hold the statements from that depth on. -/
theorem Sound.mem_levels_drop (sound : Sound nodes p) :
    k ∈ ((levelsOf p.queries).drop d).flatten ↔ ∃ q, p.queries[k]? = some q ∧ d ≤ q.depth := by
  rw [List.mem_flatten]
  constructor
  · rintro ⟨level, listed, member⟩
    obtain ⟨i, here⟩ := List.mem_iff_getElem?.mp listed
    rw [List.getElem?_drop] at here
    obtain ⟨q, query, deep⟩ := sound.query_of_level here member
    exact ⟨q, query, deep ▸ Nat.le_add_right d i⟩
  · rintro ⟨q, query, deep⟩
    have member := sound.mem_level.mpr ⟨q, query, rfl⟩
    cases here : (levelsOf p.queries)[q.depth]? with
    | none =>
        rw [here] at member
        cases member
    | some level =>
        rw [here] at member
        refine ⟨level, List.mem_iff_getElem?.mpr ⟨q.depth - d, ?_⟩, member⟩
        rw [List.getElem?_drop, Nat.add_sub_cancel' deep]
        exact here

/-- Every statement is in one level. -/
theorem Sound.levels_perm (sound : Sound nodes p) :
    (levelsOf p.queries).flatten.Perm (List.range p.queries.length) := by
  have distinct : (levelsOf p.queries).flatten.Nodup := by
    refine List.pairwise_flatten.mpr ⟨fun level listed => ?_, List.pairwise_iff_getElem.mpr ?_⟩
    · obtain ⟨i, here⟩ := List.mem_iff_getElem?.mp listed
      exact (sound.increasing here).imp Nat.ne_of_lt
    · rintro i j insideI insideJ less k inI _ inJ rfl
      obtain ⟨q, query, deep⟩ := sound.query_of_level (List.getElem?_eq_getElem insideI) inI
      obtain ⟨q', query', deep'⟩ := sound.query_of_level (List.getElem?_eq_getElem insideJ) inJ
      cases query.symm.trans query'
      omega
  refine (List.perm_ext_iff_of_nodup distinct List.nodup_range).mpr fun k => ?_
  have listed := sound.mem_levels_drop (k := k) (d := 0)
  rw [List.drop_zero] at listed
  rw [listed, List.mem_range]
  constructor
  · rintro ⟨q, query, _⟩
    exact (List.getElem?_eq_some_iff.mp query).1
  · intro inside
    exact ⟨_, List.getElem?_eq_getElem inside, Nat.zero_le _⟩

end Partition

end NestedQuery
