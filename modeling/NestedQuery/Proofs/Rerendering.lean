/- A memo renders again only what a change makes stale: the segments that read what was changed, and
those whose placeholders move with it. -/
import NestedQuery.Proofs.Window

namespace NestedQuery

open Result (Succeeds)

mutual

/-- The values that the text of a filter binds, in their order. Equality with null is a test for null and
binds nothing. -/
def Filter.bindings : Filter → List Value
  | .compare comparison _ value =>
    match comparison, value with
    | .eq, .null => []
    | .ne, .null => []
    | _, _ => [value]
  | .isIn _ values => values
  | .isNull _ => []
  | .isNotNull _ => []
  | .like _ pattern => [.text pattern]
  | .all filters => Filter.bindingsOfAll filters
  | .any filters => Filter.bindingsOfAll filters
  | .not filter => Filter.bindings filter

def Filter.bindingsOfAll : List Filter → List Value
  | [] => []
  | filter :: rest => Filter.bindings filter ++ Filter.bindingsOfAll rest

end

namespace Query

def filterBindings (q : Query) : List Value := q.filter.elim [] Filter.bindings

def windowBindings (q : Query) : List Value :=
  q.window.elim [] fun (limit, offset) => [.ofUInt64 limit, .ofUInt64 offset]

/-- The values that the filter and the window of a query bind. -/
def bindings (q : Query) : List Value := q.filterBindings ++ q.windowBindings

end Query

namespace Plan

/-- The values that the filter of a node binds. -/
def filterBindings (p : Plan) (id : Nat) : List Value :=
  (p.data[id]?).elim [] (·.request.query.filterBindings)

/-- The values that the joins of a statement bind: every node is joined under its own filter. -/
def joinBindings (p : Plan) (k : Nat) : List Value :=
  (p.queries[k]?).elim [] fun q => q.absorbed.flatMap p.filterBindings

end Plan

namespace Sql

section Parameters

variable {s : Shape} {start : Nat} {f : Fragment}

mutual

theorem predicate_params {format : Format} {label : String} {start : Nat} :
    ∀ (filter : Filter) {f : Fragment}, predicate format label start filter = .ok f →
      f.params = filter.bindings
  | .compare comparison field value, f, rendered => by
      rw [predicate] at rendered
      obtain ⟨column, _, rendered⟩ := Result.bind_eq_ok.mp rendered
      split at rendered
      · cases rendered
        rfl
      · cases rendered
        rfl
      · next notEq notNe =>
          cases rendered
          rw [Filter.bindings]
          · exact notEq
          · exact notNe
  | .isIn field values, f, rendered => by
      rw [predicate] at rendered
      rw [Filter.bindings]
      split at rendered
      · next empty =>
          cases rendered
          exact (List.isEmpty_iff.mp empty).symm
      · obtain ⟨column, _, rendered⟩ := Result.bind_eq_ok.mp rendered
        cases rendered
        rfl
  | .isNull field, f, rendered => by
      rw [predicate] at rendered
      obtain ⟨column, _, rendered⟩ := Result.bind_eq_ok.mp rendered
      cases rendered
      rw [Filter.bindings]
      rfl
  | .isNotNull field, f, rendered => by
      rw [predicate] at rendered
      obtain ⟨column, _, rendered⟩ := Result.bind_eq_ok.mp rendered
      cases rendered
      rw [Filter.bindings]
      rfl
  | .like field pattern, f, rendered => by
      rw [predicate] at rendered
      obtain ⟨column, _, rendered⟩ := Result.bind_eq_ok.mp rendered
      cases rendered
      rw [Filter.bindings]
  | .all filters, f, rendered => by
      rw [predicate] at rendered
      rw [Filter.bindings]
      split at rendered
      · next empty =>
          cases rendered
          rw [List.isEmpty_iff.mp empty, Filter.bindingsOfAll]
          rfl
      · obtain ⟨parts, each, rendered⟩ := Result.bind_eq_ok.mp rendered
        cases rendered
        exact predicates_params filters each
  | .any filters, f, rendered => by
      rw [predicate] at rendered
      rw [Filter.bindings]
      split at rendered
      · next empty =>
          cases rendered
          rw [List.isEmpty_iff.mp empty, Filter.bindingsOfAll]
          rfl
      · obtain ⟨parts, each, rendered⟩ := Result.bind_eq_ok.mp rendered
        cases rendered
        exact predicates_params filters each
  | .not filter, f, rendered => by
      rw [predicate] at rendered
      obtain ⟨inner, within, rendered⟩ := Result.bind_eq_ok.mp rendered
      cases rendered
      rw [Filter.bindings, ← predicate_params filter within]

theorem predicates_params {format : Format} {label : String} {start : Nat} :
    ∀ (filters : List Filter) {parts : List Fragment},
      predicates format label start filters = .ok parts →
      parts.flatMap (·.params) = Filter.bindingsOfAll filters
  | [], parts, rendered => by
      rw [predicates] at rendered
      cases rendered
      rw [Filter.bindingsOfAll]
      rfl
  | filter :: rest, parts, rendered => by
      rw [predicates] at rendered
      obtain ⟨first, head, rendered⟩ := Result.bind_eq_ok.mp rendered
      obtain ⟨others, tail, rendered⟩ := Result.bind_eq_ok.mp rendered
      cases rendered
      rw [List.flatMap_cons, Filter.bindingsOfAll, predicate_params filter head,
        predicates_params rest tail]

end

namespace Clause

theorem head_params (rendered : head s = .ok f) : f.params = [] := by
  obtain ⟨_, _, _, _, ⟨_, rfl⟩ | ⟨_, _, _, _, _, rfl⟩⟩ := head_cases rendered
  · rfl
  · rfl

theorem condition_params {lead : String} {query : Query}
    (rendered : condition s lead query.filter start = .ok f) : f.params = query.filterBindings := by
  rw [Query.filterBindings]
  rcases condition_cases rendered with ⟨absent, rfl⟩ | ⟨filter, inner, given, within, rfl⟩
  · rw [absent]
    rfl
  · rw [given]
    change inner.params = filter.bindings
    exact predicate_params filter within

theorem join_params {n : DataNode} (rendered : join s n start = .ok f) :
    f.params = n.request.query.filterBindings := by
  unfold join at rendered
  split at rendered
  · obtain ⟨parent, _, rendered⟩ := Result.bind_eq_ok.mp rendered
    obtain ⟨own, _, rendered⟩ := Result.bind_eq_ok.mp rendered
    obtain ⟨key, _, rendered⟩ := Result.bind_eq_ok.mp rendered
    rw [Query.filterBindings]
    cases given : n.request.query.filter with
    | none =>
        simp only [given] at rendered
        cases rendered
        rfl
    | some filter =>
        simp only [given] at rendered
        obtain ⟨inner, within, rendered⟩ := Result.bind_eq_ok.mp rendered
        cases rendered
        change inner.params = filter.bindings
        exact predicate_params filter within
  · cases rendered

theorem joinsOf_params {ids : List Nat} (rendered : joinsOf s start ids = .ok f) :
    f.params = ids.flatMap s.plan.filterBindings := by
  induction ids generalizing start f with
  | nil =>
      cases rendered
      rfl
  | cons id rest ih =>
      obtain ⟨n, first, others, found, here, later, rfl⟩ := joinsOf_cases rendered
      change first.params ++ others.params = _
      rw [join_params here, ih later, List.flatMap_cons, Plan.filterBindings,
        Plan.getElem?_of_dataNode found]
      rfl

theorem linkedKey_params {lead : String} {batch : List Value}
    (rendered : linkedKey s lead batch start = .ok f) : f.params = batch := by
  obtain ⟨column, _, rendered⟩ := Result.bind_eq_ok.mp rendered
  match batch, rendered with
  | [one], rendered =>
      cases rendered
      rfl
  | one :: two :: rest, rendered =>
      cases rendered
      rfl

theorem orderBy_params {sort : List SortKey} (rendered : orderBy s sort = .ok f) : f.params = [] := by
  obtain ⟨_, _, rfl⟩ := orderBy_cases rendered
  rfl

theorem pagination_params (query : Query) (start : Nat) :
    (pagination query start).params = query.windowBindings := by
  unfold pagination Query.windowBindings
  split
  · next alone => rw [alone]; rfl
  · next paged => rw [paged]; rfl

end Clause

/-- The values that a segment binds, wherever its placeholders start. -/
def Segment.bindings (joined : List Value) (query : Query) (batch : List Value) : Segment → List Value
  | .head => []
  | .joins => joined
  | .filter => query.filterBindings
  | .linkedKey => batch
  | .orderBy => []
  | .pagination => query.windowBindings
  | .lateralClose => []

theorem Segment.render_params {p : Plan} {k : Nat} (shaped : Shape.ofPlan p k = .ok s) {query : Query}
    {batch : List Value} {segment : Segment} (rendered : segment.render s query batch start = .ok f) :
    f.params = segment.bindings (p.joinBindings k) query batch := by
  cases segment with
  | head => exact Clause.head_params rendered
  | joins =>
      obtain ⟨rfl, known, _⟩ := Shape.ofPlan_cases shaped
      rw [Segment.bindings, Plan.joinBindings, Plan.query_eq_ok.mp known]
      exact Clause.joinsOf_params rendered
  | filter => exact Clause.condition_params rendered
  | linkedKey => exact Clause.linkedKey_params rendered
  | orderBy => exact Clause.orderBy_params rendered
  | pagination =>
      cases rendered
      exact Clause.pagination_params query start
  | lateralClose =>
      cases rendered
      rfl

end Parameters

/-- What is kept of each slot can be used where the slot stands. -/
inductive InPlace : Nat → List Slot → Prop
  | nil {start : Nat} : InPlace start []
  | cons {start : Nat} {slot : Slot} {rest : List Slot} {f : Fragment} :
      slot.usable? start = some f → InPlace (f.next start) rest → InPlace start (slot :: rest)

theorem inPlace_refresh {render : Segment → Nat → Result Fragment} {start : Nat} {slots : List Slot}
    {f : Fragment} (done : (refresh render start slots).result = .ok f) :
    InPlace start (refresh render start slots).slots := by
  induction slots generalizing start f with
  | nil => exact .nil
  | cons slot rest ih =>
      cases usable : slot.usable? start with
      | some first =>
          simp only [refresh, usable] at done ⊢
          obtain ⟨others, later, _⟩ := Result.map_eq_ok.mp done
          exact .cons usable (ih later)
      | none =>
          cases rendered : render slot.segment start with
          | error e =>
              simp only [refresh, usable, rendered] at done
              cases done
          | ok first =>
              simp only [refresh, usable, rendered] at done ⊢
              obtain ⟨others, later, _⟩ := Result.map_eq_ok.mp done
              exact .cons (if_pos (.inl rfl)) (ih later)

/-- How many segments are rendered again, given the values that each binds before and after and where the
placeholders of the first one start then: those that are stale, and those that bind something and move. -/
def rerenders (stale : List Segment) (before after : Segment → List Value) :
    Nat → Nat → List Segment → Nat
  | _, _, [] => 0
  | old, new, segment :: rest =>
    (if segment ∈ stale ∨ (old ≠ new ∧ before segment ≠ []) then 1 else 0)
      + rerenders stale before after (old + (before segment).length) (new + (after segment).length) rest

/-- The slot, with nothing kept if its segment is stale. -/
def Slot.forget (stale : List Segment) (s : Slot) : Slot :=
  if stale.contains s.segment then ⟨s.segment, none⟩ else s

theorem Memo.invalidate_slots (m : Memo) (stale : List Segment) :
    (m.invalidate stale).slots = m.slots.map (Slot.forget stale) := rfl

theorem Slot.forget_segment (stale : List Segment) (s : Slot) :
    (s.forget stale).segment = s.segment := by
  unfold Slot.forget
  split <;> rfl

/-- What can be used at one placeholder can be used at another one, unless it is forgotten or it binds
something. -/
theorem Slot.usable?_forget (stale : List Segment) {slot : Slot} {old : Nat} {f : Fragment}
    (usable : slot.usable? old = some f) (new : Nat) :
    (slot.forget stale).usable? new =
      if slot.segment ∈ stale ∨ (old ≠ new ∧ f.params ≠ []) then none else some f := by
  obtain ⟨kept, held, rfl, fits⟩ := Slot.usable?_cases usable
  by_cases forgotten : slot.segment ∈ stale
  · rw [if_pos (.inl forgotten), Slot.forget, if_pos (List.contains_iff_mem.mpr forgotten)]
    rfl
  · rw [Slot.forget, if_neg (fun listed => forgotten (List.contains_iff_mem.mp listed))]
    simp only [Slot.usable?, held, List.isEmpty_iff, forgotten, false_or]
    rcases fits with rfl | bare
    · by_cases same : kept.start = new <;> by_cases bare : kept.fragment.params = [] <;>
        simp [same, bare]
    · simp [bare]

/-- Rendering after some segments were forgotten renders these, and of the others those that bind
something and stand at another placeholder than before. -/
theorem refresh_renders {stale : List Segment} {render : Segment → Nat → Result Fragment}
    {before after : Segment → List Value} {old new : Nat} {slots : List Slot} {f : Fragment}
    (params : ∀ segment start f, render segment start = .ok f → f.params = after segment)
    (held : ∀ s ∈ slots, ∀ kept, s.kept = some kept → kept.fragment.params = before s.segment)
    (same : ∀ segment, segment ∉ stale → before segment = after segment)
    (placed : InPlace old slots)
    (done : (refresh render new (slots.map (Slot.forget stale))).result = .ok f) :
    (refresh render new (slots.map (Slot.forget stale))).renders =
      rerenders stale before after old new (slots.map (·.segment)) := by
  -- `old` is where a slot stood when it was last used, `new` where it stands now
  induction placed generalizing new f with
  | nil => rfl
  | @cons old slot rest first usable placed ih =>
      obtain ⟨heldHere, heldLater⟩ := List.forall_mem_cons.mp held
      obtain ⟨kept, keeps, rfl, _⟩ := Slot.usable?_cases usable
      have binds : kept.fragment.params = before slot.segment := heldHere kept keeps
      have reuse := Slot.usable?_forget stale usable new
      rw [List.map_cons] at done
      rw [List.map_cons, List.map_cons, rerenders, ← binds, ← Fragment.next]
      by_cases again : slot.segment ∈ stale ∨ (old ≠ new ∧ kept.fragment.params ≠ [])
      · rw [if_pos again] at reuse ⊢
        cases rendered : render slot.segment new with
        | error e =>
            simp only [refresh, reuse, Slot.forget_segment, rendered] at done
            cases done
        | ok fragment =>
            simp only [refresh, reuse, Slot.forget_segment, rendered] at done ⊢
            obtain ⟨others, later, _⟩ := Result.map_eq_ok.mp done
            rw [ih heldLater later, ← params slot.segment new fragment rendered, ← Fragment.next,
              Nat.add_comm]
      · have fresh : slot.segment ∉ stale := fun listed => again (.inl listed)
        rw [if_neg again] at reuse ⊢
        simp only [refresh, reuse] at done ⊢
        obtain ⟨others, later, _⟩ := Result.map_eq_ok.mp done
        rw [ih heldLater later, ← same slot.segment fresh, ← binds, ← Fragment.next, Nat.zero_add]

section Orders

variable {joined : List Value} {query other : Query} {batch values : List Value}

/-- What follows the linked key binds nothing, so that it is alone rendered for another batch, however
long. -/
theorem rerenders_batch (lateral isRoot : Bool) :
    rerenders [.linkedKey] (Segment.bindings joined query batch) (Segment.bindings joined query values)
        1 1 (Segment.orderFor lateral isRoot) =
      if .linkedKey ∈ Segment.orderFor lateral isRoot then 1 else 0 := by
  cases lateral <;> cases isRoot <;> simp [rerenders, Segment.orderFor, Segment.bindings]

/-- Only in a lateral statement the joins follow the filter and the window. -/
theorem rerenders_query (lateral isRoot : Bool) :
    rerenders [.filter, .orderBy, .pagination, .linkedKey] (Segment.bindings joined query batch)
        (Segment.bindings joined other batch) 1 1 (Segment.orderFor lateral isRoot) =
      (Segment.orderFor lateral isRoot).countP (· ∈ [.filter, .orderBy, .pagination, .linkedKey]) +
        if lateral = true ∧ joined ≠ [] ∧ other.bindings.length ≠ query.bindings.length then 1
        else 0 := by
  cases lateral with
  | false => cases isRoot <;> simp [rerenders, Segment.orderFor, Segment.bindings]
  | true =>
      have starts : 1 + query.filterBindings.length + query.windowBindings.length =
            1 + other.filterBindings.length + other.windowBindings.length ↔
          other.bindings.length = query.bindings.length := by
        simp only [Query.bindings, List.length_append]
        omega
      simp [rerenders, Segment.orderFor, Segment.bindings, starts, and_comm]
      omega

end Orders

namespace Memo

/-- A statement that was built is kept together with its segments, each at its place. -/
def Steady (m : Memo) : Prop := ∀ st, m.built = some st → InPlace 1 m.slots

theorem steady_of_unbuilt {m : Memo} (unbuilt : m.built = none) : m.Steady := by
  intro st built
  rw [unbuilt] at built
  cases built

theorem steady_ofPlan {p : Plan} {k : Nat} {m : Memo} (fresh : ofPlan p k = .ok m) : m.Steady := by
  obtain ⟨shape, _, fresh⟩ := Result.bind_eq_ok.mp fresh
  cases fresh
  exact steady_of_unbuilt rfl

theorem Steady.statement {m : Memo} (steady : m.Steady) : m.statement.2.Steady := by
  unfold Memo.statement
  split
  · exact steady
  · next unbuilt =>
      split
      · exact steady
      · simp only
        split
        · exact steady_of_unbuilt unbuilt
        · next done => exact fun _ _ => inPlace_refresh done

theorem Steady.step {m : Memo} (steady : m.Steady) (call : Call) : (m.step call).Steady := by
  rcases m.step_cases call with same | ⟨batch, same⟩ | ⟨query, _, _, _, same⟩ | same
  · rw [same]
    exact steady
  · rw [same]
    exact steady_of_unbuilt rfl
  · rw [same]
    exact steady_of_unbuilt rfl
  · rw [same]
    exact steady.statement

theorem Steady.after {m : Memo} (steady : m.Steady) (calls : List Call) : (m.after calls).Steady := by
  induction calls generalizing m with
  | nil => exact steady
  | cons call rest ih => exact ih (steady.step call)

theorem built_of_statement {m : Memo} {st : Statement} (given : m.statement.1 = .ok st) :
    m.statement.2.built = some st := by
  unfold Memo.statement at given ⊢
  split at given
  · next built =>
      cases given
      exact built
  · split at given
    · cases given
    · simp only at given ⊢
      split at given
      · cases given
      · cases given
        rfl

/-- A statement that is not kept is rendered from what is kept of its segments. -/
theorem statement_unbuilt {m : Memo} {shape : Shape} (unbuilt : m.built = none)
    (shaped : Shape.ofPlan m.plan m.query = .ok shape) :
    let fresh := refresh (Segment.render shape m.rootQuery m.batch) 1 m.slots
    m.statement.1 = fresh.result.map .ofFragment ∧
      m.statement.2.renders = m.renders + fresh.renders := by
  simp only [Memo.statement, unbuilt, shaped]
  split
  · next failed =>
      rw [failed]
      exact ⟨rfl, rfl⟩
  · next done =>
      rw [done]
      exact ⟨rfl, rfl⟩

/-- After a change of the memo to another one, the next statement is there, and this many segments were
rendered for it. -/
def Rerenders (m next : Memo) (count : Nat) : Prop :=
  Succeeds next.statement.1 ∧ next.statement.2.renders = m.renders + count

theorem Rerenders.refl {m : Memo} {st : Statement} (built : m.built = some st) : m.Rerenders m 0 := by
  unfold Rerenders Memo.statement
  rw [built]
  exact ⟨.ok st, rfl⟩

section Plans

variable {s : Schema} {p : Plan} {plural : Bool} {request : Request} {k : Nat}

/-- A statement that compares with linked values is there only if some are bound. -/
theorem Coherent.batch_ne_nil {m : Memo} (coherent : m.Coherent p k) {shape : Shape}
    (shaped : Shape.ofPlan p k = .ok shape) (fits : Shape.Fits s p k shape) {st : Statement}
    (given : m.statement.1 = .ok st) (below : k ≠ 0) : m.batch ≠ [] := by
  rw [coherent.statement.1, Statement.anew, shaped, Result.ok_bind] at given
  obtain ⟨f, rendered, _⟩ := Result.bind_eq_ok.mp given
  obtain ⟨earlier, later, order⟩ := List.append_of_mem (fits.linkedKey_iff.mpr below)
  rw [order] at rendered
  obtain ⟨_, here, _, _, linked, _⟩ := renderAll_around rendered
  rw [← Clause.linkedKey_params linked]
  exact linkedKey_params_ne_nil linked

/-- What is rendered after a change, from how the segments and what they bind differ by it. -/
theorem Coherent.rerenders {m : Memo} (coherent : m.Coherent p k) (placed : InPlace 1 m.slots)
    {shape : Shape} (shaped : Shape.ofPlan p k = .ok shape) {query : Query} {batch : List Value}
    {stale : List Segment}
    (same : ∀ segment, segment ∉ stale →
      segment.bindings (p.joinBindings k) m.rootQuery m.batch =
        segment.bindings (p.joinBindings k) query batch)
    (done : Succeeds ({ m with rootQuery := query, batch := batch }.invalidate stale).statement.1) :
    m.Rerenders ({ m with rootQuery := query, batch := batch }.invalidate stale)
      (Sql.rerenders stale (Segment.bindings (p.joinBindings k) m.rootQuery m.batch)
        (Segment.bindings (p.joinBindings k) query batch) 1 1
        (Segment.orderFor shape.isLateral shape.root.isRoot)) := by
  obtain ⟨rfl, rfl, ⟨again, reshaped, segments, sound⟩, _⟩ := coherent
  cases shaped.symm.trans reshaped
  refine ⟨done, ?_⟩
  obtain ⟨result, renders⟩ := statement_unbuilt
    (m := { m with rootQuery := query, batch := batch }.invalidate stale) rfl shaped
  obtain ⟨st, given⟩ := done
  rw [result] at given
  obtain ⟨f, rendered, _⟩ := Result.map_eq_ok.mp given
  rw [invalidate_slots] at renders rendered
  rw [renders, ← segments]
  refine congrArg (m.renders + ·) (refresh_renders ?_ ?_ same placed rendered)
  · exact fun segment start f rendered => Segment.render_params shaped rendered
  · exact fun s member kept held => Segment.render_params shaped (sound s member kept held)

theorem Coherent.rerenders_setBatch {m : Memo} (coherent : m.Coherent p k) {st : Statement}
    (built : m.built = some st) (placed : InPlace 1 m.slots) {shape : Shape}
    (shaped : Shape.ofPlan p k = .ok shape) (fits : Shape.Fits s p k shape) (below : k ≠ 0)
    {batch : List Value} (done : Succeeds (m.setBatch batch).statement.1) :
    m.Rerenders (m.setBatch batch) (if batch == m.batch then 0 else 1) := by
  rw [Memo.setBatch] at done ⊢
  by_cases equal : (batch == m.batch) = true
  · rw [if_pos equal, if_pos equal]
    exact .refl built
  · rw [if_neg equal] at done
    rw [if_neg equal, if_neg equal]
    have again := coherent.rerenders placed shaped (fun segment fresh => ?_) done
    · rwa [rerenders_batch, if_pos (fits.linkedKey_iff.mpr below)] at again
    · cases segment with
      | linkedKey => exact absurd (List.mem_singleton_self _) fresh
      | _ => rfl

theorem Coherent.rerenders_setQuery {m next : Memo} (coherent : m.Coherent p k) {st : Statement}
    (built : m.built = some st) (placed : InPlace 1 m.slots) {shape : Shape}
    (shaped : Shape.ofPlan p k = .ok shape) (lateral : m.lateral = shape.isLateral) {query : Query}
    (accepted : m.setQuery query = .ok next) (done : Succeeds next.statement.1) :
    m.Rerenders next (if query == m.rootQuery then 0
      else m.slots.countP (·.segment ∈ [.filter, .orderBy, .pagination, .linkedKey]) +
        if m.lateral = true ∧ p.joinBindings k ≠ [] ∧
          query.bindings.length ≠ m.rootQuery.bindings.length then 1 else 0) := by
  obtain rfl := setQuery_eq accepted
  by_cases equal : (query == m.rootQuery) = true
  · rw [if_pos equal, if_pos equal]
    exact .refl built
  · rw [if_neg equal] at done
    rw [if_neg equal, if_neg equal]
    have again := coherent.rerenders placed shaped (fun segment fresh => ?_) done
    · obtain ⟨_, _, ⟨shape', shaped', segments, _⟩, _⟩ := coherent
      cases shaped.symm.trans shaped'
      rw [rerenders_query, ← segments, List.countP_map, ← lateral] at again
      exact again
    · cases segment with
      | head => rfl
      | joins => rfl
      | lateralClose => rfl
      | _ => exact absurd (by decide) fresh

/-- After any calls that end in a statement, the next one takes one more render after a new batch and,
after a new query, one for each segment that reads the query or the batch, and one for the joins where
they follow the filter and the window and these bind more or fewer values than before. Nothing is rendered
for a batch or a query that is equal to the one before, or after a change that is refused. -/
theorem renders_after (declared : s.Declared) {format : String}
    (built : Plan.build s.catalog format plural request = .ok p) {m : Memo}
    (fresh : ofPlan p k = .ok m) (calls : List Call) (ended : Succeeds (m.after calls).statement.1) :
    let now := m.after (calls ++ [.statement])
    (∀ batch, k ≠ 0 → batch ≠ [] →
        now.Rerenders (now.setBatch batch) (if batch == now.batch then 0 else 1)) ∧
      (∀ query next, now.setQuery query = .ok next →
        now.Rerenders next (if query == now.rootQuery then 0
          else now.slots.countP (·.segment ∈ [.filter, .orderBy, .pagination, .linkedKey]) +
            if now.lateral = true ∧ p.joinBindings k ≠ [] ∧
              query.bindings.length ≠ now.rootQuery.bindings.length then 1 else 0)) ∧
      ∀ change, now.Refuses change → now.Rerenders (now.step change) 0 := by
  intro now
  have valid := Plan.build_over declared built
  obtain ⟨shape, shaped, begun⟩ := Result.bind_eq_ok.mp fresh
  have fits := Shape.fits_of_ofPlan valid declared.sound shaped
  have coherent : now.Coherent p k := (coherent_ofPlan fresh).after _
  have last : now = (m.after calls).statement.2 := after_concat_statement m calls
  obtain ⟨st, given⟩ := ended
  have kept : now.built = some st := last ▸ built_of_statement given
  have placed : InPlace 1 now.slots := (steady_ofPlan fresh).after _ st kept
  have succeeds : ∀ call, (k ≠ 0 → (now.step call).batch ≠ []) →
      Succeeds (now.step call).statement.1 := by
    intro call
    rw [show now.step call = m.after (calls ++ [.statement] ++ [call]) from
      (after_append m _ [call]).symm]
    exact statement_after_succeeds valid declared.sound fits.query fresh _
  refine ⟨fun batch below nonempty => ?_, fun query next accepted => ?_, fun change refused => ?_⟩
  · refine coherent.rerenders_setBatch kept placed shaped fits below ?_
    exact succeeds (.setBatch batch) fun _ => setBatch_batch_ne_nil nonempty
  · have lateral : now.lateral = shape.isLateral := by
      rw [after_lateral]
      cases begun
      rfl
    have stepped : now.step (.setQuery query) = next := step_of_accepted accepted
    refine coherent.rerenders_setQuery kept placed shaped lateral accepted ?_
    rw [← stepped]
    refine succeeds (.setQuery query) fun below => ?_
    -- the statement before was there, and so it had a batch, which a query leaves as it is
    have before := (coherent_ofPlan fresh).after calls
    rw [stepped, setQuery_batch accepted, last, before.statement.2.2.1]
    exact before.batch_ne_nil shaped fits given below
  · rw [step_of_refuses refused]
    exact .refl kept

/-- Users, each with the first ten of their articles; an article has its author only under one name. -/
def signedArticles : Request :=
  ⟨some ["name"],
    [("articles", ⟨some ["title"],
      [("author", ⟨some ["name"], [], ⟨some (.compare .eq "name" (.text "Ann")), [], none, none⟩⟩)],
      ⟨none, [], none, some 10⟩⟩)],
    .empty⟩

/-- A longer batch takes one render, a filter six, as the name of the author moves behind it, and a query
without pages, which is refused, none. -/
theorem renders_after_signedArticles : ∃ plan m next,
    Plan.build Schema.blog.catalog "user" true signedArticles = .ok plan ∧ ofPlan plan 1 = .ok m ∧
      let now := m.after [.setBatch [.int 1], .statement]
      let titled := ⟨some (.compare .eq "title" (.text "Iliad")), [], none, some 10⟩
      now.setQuery titled = .ok next ∧ now.Refuses (.setQuery .empty) ∧
        now.Rerenders (now.setBatch [.int 1, .int 2]) 1 ∧ now.Rerenders next 6 ∧
        now.Rerenders (now.step (.setQuery .empty)) 0 := by
  let titled : Query := ⟨some (.compare .eq "title" (.text "Iliad")), [], none, some 10⟩
  have some : ∃ plan m next st,
      Plan.build Schema.blog.catalog "user" true signedArticles = .ok plan ∧ ofPlan plan 1 = .ok m ∧
        (m.after [.setBatch [.int 1]]).statement.1 = .ok st ∧
        let now := m.after ([.setBatch [.int 1]] ++ [.statement])
        now.setQuery titled = .ok next ∧ now.Refuses (.setQuery .empty) ∧
          ([.int 1, .int 2] == now.batch) = false ∧ (titled == now.rootQuery) = false ∧
          now.slots.countP (·.segment ∈ [.filter, .orderBy, .pagination, .linkedKey]) = 5 ∧
          now.lateral = true ∧ plan.joinBindings 1 = [.text "Ann"] ∧
          titled.bindings.length = 3 ∧ now.rootQuery.bindings.length = 2 :=
    ⟨_, _, _, _, rfl, rfl, rfl, rfl, ⟨_, rfl⟩, rfl, rfl, rfl, rfl, rfl, rfl, rfl⟩
  obtain ⟨plan, m, next, st, built, fresh, ended, accepted, refused, longer, other, stale, lateral,
    joined, after, before⟩ := some
  obtain ⟨batches, queries, refusals⟩ :=
    renders_after Schema.blog_declared built fresh _ ⟨st, ended⟩
  refine ⟨plan, m, next, built, fresh, accepted, refused, ?_, ?_, refusals _ refused⟩
  · have one := batches [.int 1, .int 2] (by decide) (List.cons_ne_nil _ _)
    rwa [longer] at one
  · have six := queries titled next accepted
    rwa [other, stale, lateral, joined, after, before] at six

end Plans

end Memo

end Sql
end NestedQuery
