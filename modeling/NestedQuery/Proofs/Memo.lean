/- A memo answers as if nothing were kept: whatever was called before, its statement is the one that
rendering every segment anew would give. -/
import NestedQuery.Proofs.Catalog
import NestedQuery.Proofs.Procedure
import NestedQuery.Sql.Memo

namespace NestedQuery.Sql

/-- The segments rendered from left to right, with nothing kept. -/
def renderAll (render : Segment → Nat → Result Fragment) (start : Nat) :
    List Segment → Result Fragment
  | [] => .ok .empty
  | segment :: rest => do
    let first ← render segment start
    let others ← renderAll render (first.next start) rest
    return first ++ others

/-- The statement of a query node for its root's query and its batch, rendered from the first
placeholder on. -/
def Statement.anew (plan : Plan) (query : Nat) (rootQuery : Query) (batch : List Value) :
    Result Statement := do
  let shape ← Shape.ofPlan plan query
  let fragment ← renderAll (Segment.render shape rootQuery batch) 1
    (Segment.orderFor shape.isLateral shape.root.isRoot)
  return .ofFragment fragment

mutual

/-- Text without parameters does not depend on where its placeholders start. -/
theorem predicate_restart {format : Format} {label : String} {start : Nat} (other : Nat) :
    ∀ (filter : Filter) {f : Fragment}, predicate format label start filter = .ok f →
      f.params = [] → predicate format label other filter = .ok f
  | .compare comparison field value, f, rendered, bare => by
      simp only [predicate] at rendered ⊢
      obtain ⟨column, found, rendered⟩ := Result.bind_eq_ok.mp rendered
      rw [found, Result.ok_bind]
      split at rendered
      · exact rendered
      · exact rendered
      · cases rendered
        cases bare
  | .isIn field values, f, rendered, bare => by
      simp only [predicate] at rendered ⊢
      by_cases empty : values.isEmpty
      · rw [if_pos empty] at rendered ⊢
        exact rendered
      · rw [if_neg empty] at rendered
        obtain ⟨column, found, rendered⟩ := Result.bind_eq_ok.mp rendered
        cases rendered
        exact absurd (List.isEmpty_iff.mpr bare) empty
  | .isNull field, f, rendered, bare => by simpa only [predicate] using rendered
  | .isNotNull field, f, rendered, bare => by simpa only [predicate] using rendered
  | .like field pattern, f, rendered, bare => by
      simp only [predicate] at rendered
      obtain ⟨column, found, rendered⟩ := Result.bind_eq_ok.mp rendered
      cases rendered
      cases bare
  | .all filters, f, rendered, bare => by
      simp only [predicate] at rendered ⊢
      by_cases empty : filters.isEmpty
      · rw [if_pos empty] at rendered ⊢
        exact rendered
      · rw [if_neg empty] at rendered ⊢
        obtain ⟨parts, all, rendered⟩ := Result.bind_eq_ok.mp rendered
        cases rendered
        rw [predicates_restart other filters all bare, Result.ok_bind]
        rfl
  | .any filters, f, rendered, bare => by
      simp only [predicate] at rendered ⊢
      by_cases empty : filters.isEmpty
      · rw [if_pos empty] at rendered ⊢
        exact rendered
      · rw [if_neg empty] at rendered ⊢
        obtain ⟨parts, all, rendered⟩ := Result.bind_eq_ok.mp rendered
        cases rendered
        rw [predicates_restart other filters all bare, Result.ok_bind]
        rfl
  | .not filter, f, rendered, bare => by
      simp only [predicate] at rendered ⊢
      obtain ⟨inner, within, rendered⟩ := Result.bind_eq_ok.mp rendered
      cases rendered
      rw [predicate_restart other filter within bare, Result.ok_bind]
      rfl

theorem predicates_restart {format : Format} {label : String} {start : Nat} (other : Nat) :
    ∀ (filters : List Filter) {parts : List Fragment},
      predicates format label start filters = .ok parts →
      parts.flatMap (·.params) = [] → predicates format label other filters = .ok parts
  | [], parts, rendered, bare => by simpa only [predicates] using rendered
  | filter :: rest, parts, rendered, bare => by
      simp only [predicates] at rendered ⊢
      obtain ⟨first, head, rendered⟩ := Result.bind_eq_ok.mp rendered
      obtain ⟨others, tail, rendered⟩ := Result.bind_eq_ok.mp rendered
      cases rendered
      simp only [List.flatMap_cons, List.append_eq_nil_iff] at bare
      rw [predicate_restart other filter head bare.1, Result.ok_bind,
        predicates_restart (first.next other) rest tail bare.2]
      rfl

end

theorem condition_restart {s : Shape} {lead : String} {filter : Option Filter} {start : Nat}
    {f : Fragment} (rendered : Clause.condition s lead filter start = .ok f) (bare : f.params = [])
    (other : Nat) : Clause.condition s lead filter other = .ok f := by
  cases filter with
  | none => exact rendered
  | some filter =>
      simp only [Clause.condition] at rendered ⊢
      obtain ⟨inner, within, rendered⟩ := Result.bind_eq_ok.mp rendered
      cases rendered
      rw [predicate_restart other filter within bare]
      rfl

theorem join_restart {s : Shape} {node : DataNode} {start : Nat} {f : Fragment}
    (rendered : Clause.join s node start = .ok f) (bare : f.params = []) (other : Nat) :
    Clause.join s node other = .ok f := by
  unfold Clause.join at rendered ⊢
  split at rendered
  · obtain ⟨parent, foundParent, rendered⟩ := Result.bind_eq_ok.mp rendered
    obtain ⟨own, foundOwn, rendered⟩ := Result.bind_eq_ok.mp rendered
    obtain ⟨column, foundColumn, rendered⟩ := Result.bind_eq_ok.mp rendered
    simp only [foundParent, foundOwn, foundColumn, Result.ok_bind]
    split at rendered
    · exact rendered
    · obtain ⟨condition, within, rendered⟩ := Result.bind_eq_ok.mp rendered
      cases rendered
      rw [predicate_restart other _ within bare]
      rfl
  · cases rendered

theorem joinsOf_restart {s : Shape} {ids : List Nat} {start : Nat} {f : Fragment}
    (rendered : Clause.joinsOf s start ids = .ok f) (bare : f.params = []) (other : Nat) :
    Clause.joinsOf s other ids = .ok f := by
  induction ids generalizing start other f with
  | nil => exact rendered
  | cons id rest ih =>
      simp only [Clause.joinsOf] at rendered ⊢
      obtain ⟨node, found, rendered⟩ := Result.bind_eq_ok.mp rendered
      obtain ⟨first, head, rendered⟩ := Result.bind_eq_ok.mp rendered
      obtain ⟨others, tail, rendered⟩ := Result.bind_eq_ok.mp rendered
      cases rendered
      obtain ⟨bareFirst, bareOthers⟩ := List.append_eq_nil_iff.mp bare
      rw [found, Result.ok_bind, join_restart head bareFirst other, Result.ok_bind,
        ih tail bareOthers]
      rfl

theorem linkedKey_params_ne_nil {s : Shape} {lead : String} {batch : List Value} {start : Nat}
    {f : Fragment} (rendered : Clause.linkedKey s lead batch start = .ok f) : f.params ≠ [] := by
  unfold Clause.linkedKey at rendered
  obtain ⟨column, found, rendered⟩ := Result.bind_eq_ok.mp rendered
  match batch, rendered with
  | [one], rendered => cases rendered; exact List.cons_ne_nil _ _
  | one :: two :: rest, rendered => cases rendered; exact List.cons_ne_nil _ _

theorem Segment.render_restart {shape : Shape} {query : Query} {batch : List Value}
    {segment : Segment} {start : Nat} {f : Fragment}
    (rendered : segment.render shape query batch start = .ok f) (bare : f.params = [])
    (other : Nat) : segment.render shape query batch other = .ok f := by
  cases segment with
  | head => exact rendered
  | joins => exact joinsOf_restart rendered bare other
  | filter => exact condition_restart rendered bare other
  | linkedKey => exact absurd bare (linkedKey_params_ne_nil rendered)
  | orderBy => exact rendered
  | pagination =>
      simp only [Segment.render, Clause.pagination] at rendered ⊢
      split at rendered
      · exact rendered
      · cases rendered
        cases bare
  | lateralClose => exact rendered

/-- What is kept of a slot is what its segment says at the place where it was rendered. -/
def Slot.Sound (render : Segment → Nat → Result Fragment) (s : Slot) : Prop :=
  ∀ kept, s.kept = some kept → render s.segment kept.start = .ok kept.fragment

theorem Slot.usable?_cases {slot : Slot} {start : Nat} {f : Fragment}
    (usable : slot.usable? start = some f) :
    ∃ kept, slot.kept = some kept ∧ kept.fragment = f ∧ (kept.start = start ∨ f.params = []) := by
  unfold Slot.usable? at usable
  split at usable
  · next kept held =>
      split at usable
      · next fits =>
          cases usable
          exact ⟨kept, held, rfl, fits.imp_right List.isEmpty_iff.mp⟩
      · cases usable
  · cases usable

theorem Slot.Sound.usable {shape : Shape} {query : Query} {batch : List Value} {s : Slot}
    (sound : s.Sound (Segment.render shape query batch)) {start : Nat} {f : Fragment}
    (usable : s.usable? start = some f) :
    s.segment.render shape query batch start = .ok f := by
  obtain ⟨kept, held, rfl, rfl | bare⟩ := Slot.usable?_cases usable
  · exact sound kept held
  · exact Segment.render_restart (sound kept held) bare start

/-- Using what is kept where it fits gives what rendering everything gives, also when a segment
fails; what is kept afterwards is sound again. -/
theorem refresh_sound {shape : Shape} {query : Query} {batch : List Value} {slots : List Slot}
    (sound : ∀ s ∈ slots, s.Sound (Segment.render shape query batch)) (start : Nat) :
    let fresh := refresh (Segment.render shape query batch) start slots
    fresh.result = renderAll (Segment.render shape query batch) start (slots.map (·.segment)) ∧
      fresh.slots.map (·.segment) = slots.map (·.segment) ∧
      ∀ s ∈ fresh.slots, s.Sound (Segment.render shape query batch) := by
  induction slots generalizing start with
  | nil => exact ⟨rfl, rfl, nofun⟩
  | cons slot rest ih =>
      have soundSlot := sound slot (List.mem_cons_self ..)
      have soundRest : ∀ s ∈ rest, s.Sound (Segment.render shape query batch) :=
        fun s member => sound s (List.mem_cons_of_mem _ member)
      cases usable : slot.usable? start with
      | some fragment =>
          obtain ⟨result, segments, kept⟩ := ih soundRest (fragment.next start)
          simp only [refresh, usable, List.map_cons, renderAll, soundSlot.usable usable,
            Result.ok_bind, result, segments]
          refine ⟨?_, trivial, ?_⟩
          · cases renderAll _ _ (rest.map (·.segment)) <;> rfl
          · exact List.forall_mem_cons.mpr ⟨soundSlot, kept⟩
      | none =>
          cases rendered : slot.segment.render shape query batch start with
          | error e =>
              simp only [refresh, usable, rendered, List.map_cons, renderAll, Result.error_bind]
              exact ⟨trivial, trivial, sound⟩
          | ok fragment =>
              obtain ⟨result, segments, kept⟩ := ih soundRest (fragment.next start)
              simp only [refresh, usable, rendered, List.map_cons, renderAll, Result.ok_bind,
                result, segments]
              refine ⟨?_, trivial, ?_⟩
              · cases renderAll _ _ (rest.map (·.segment)) <;> rfl
              · refine List.forall_mem_cons.mpr ⟨?_, kept⟩
                rintro _ ⟨⟩
                exact rendered

namespace Memo

/-- What may be asked of a memo. -/
inductive Call where
  | setBatch (batch : List Value)
  | setFilter (filter : Option Filter)
  | setQuery (query : Query)
  | statement

/-- Whether a call asks for a change and is refused. -/
def Refuses (m : Memo) : Call → Prop
  | .setBatch _ => False
  | .setFilter filter => ∃ error, m.setFilter filter = .error error
  | .setQuery query => ∃ error, m.setQuery query = .error error
  | .statement => False

section InPlace

open Procedure

/-- The checks of a query in their order. Only then is it put in the place of the root's, if it is another. -/
def changeQuery (query : Query) : Procedure Memo Unit := do
  let m ← get
  let root ← attempt (m.plan.queryRoot m.query)
  attempt (query.check root.format root.plural root.path)
  if m.lateral && !query.isPaginated then
    throw (.configuration (.mustStayPaginated root.path))
  unless query == m.rootQuery do
    modify ({ · with rootQuery := query })
    modify (·.invalidate [.filter, .orderBy, .pagination, .linkedKey])

def changeFilter (filter : Option Filter) : Procedure Memo Unit := do
  changeQuery { (← get).rootQuery with filter := filter }

/-- Whether the statement is given or fails, what was rendered for it stays. -/
def giveStatement : Procedure Memo Unit := fun m =>
  match m.statement with
  | (.ok _, next) => .ok () next
  | (.error error, next) => .error error next

def Call.perform : Call → Procedure Memo Unit
  | .setBatch batch => modify (·.setBatch batch)
  | .setFilter filter => changeFilter filter
  | .setQuery query => changeQuery query
  | .statement => giveStatement

/-- The memo that a call leaves behind, whether it is refused or not. -/
def step (m : Memo) (call : Call) : Memo := call.perform.leave m

variable (m : Memo)

/-- In place, a query is accepted or refused as `setQuery` says, and a refusal comes before any change. -/
theorem changeQuery_run (query : Query) : (changeQuery query).run m = ended m (m.setQuery query) := by
  change (attempt (m.plan.queryRoot m.query) >>= _ : Procedure Memo Unit).run m = _
  refine attempt_bind fun root _ => attempt_bind fun _ _ => ?_
  cases unpaged : m.lateral && !query.isPaginated with
  | true => rfl
  | false =>
      cases same : query == m.rootQuery with
      | true => rfl
      | false => rfl

theorem step_setBatch (batch : List Value) : m.step (.setBatch batch) = m.setBatch batch := rfl

theorem step_setQuery (query : Query) :
    m.step (.setQuery query) = (m.setQuery query).toOption.getD m := leave_eq (m.changeQuery_run query)

theorem step_setFilter (filter : Option Filter) :
    m.step (.setFilter filter) = (m.setFilter filter).toOption.getD m := leave_eq (m.changeQuery_run _)

theorem step_of_accepted {m next : Memo} {query : Query} (accepted : m.setQuery query = .ok next) :
    m.step (.setQuery query) = next := by
  rw [step_setQuery, accepted]
  rfl

theorem step_statement : m.step .statement = m.statement.2 := by
  change giveStatement.leave m = _
  simp only [leave, giveStatement, EStateM.run]
  rcases m.statement with ⟨error | given, next⟩ <;> rfl

end InPlace

def after (m : Memo) (calls : List Call) : Memo := calls.foldl step m

/-- The slots are those of the plan's statement, all that they keep is what would be rendered now,
and so is a statement that is kept whole. -/
structure Coherent (plan : Plan) (query : Nat) (m : Memo) : Prop where
  plan_eq : m.plan = plan
  query_eq : m.query = query
  slots : ∃ shape, Shape.ofPlan plan query = .ok shape ∧
    m.slots.map (·.segment) = Segment.orderFor shape.isLateral shape.root.isRoot ∧
    ∀ s ∈ m.slots, s.Sound (Segment.render shape m.rootQuery m.batch)
  built : ∀ statement, m.built = some statement →
    Statement.anew plan query m.rootQuery m.batch = .ok statement

theorem coherent_ofPlan {plan : Plan} {query : Nat} {m : Memo}
    (fresh : ofPlan plan query = .ok m) : m.Coherent plan query := by
  obtain ⟨shape, found, fresh⟩ := Result.bind_eq_ok.mp fresh
  cases fresh
  refine ⟨rfl, rfl, ⟨shape, found, ?_, ?_⟩, nofun⟩
  · rw [List.map_map]
    exact List.map_id _
  · intro s member kept held
    obtain ⟨segment, _, rfl⟩ := List.mem_map.mp member
    cases held

theorem Coherent.statement {plan : Plan} {query : Nat} {m : Memo}
    (coherent : m.Coherent plan query) :
    m.statement.1 = Statement.anew plan query m.rootQuery m.batch ∧
      m.statement.2.rootQuery = m.rootQuery ∧ m.statement.2.batch = m.batch ∧
      m.statement.2.Coherent plan query := by
  obtain ⟨rfl, rfl, ⟨shape, found, segments, sound⟩, kept⟩ := coherent
  cases built : m.built with
  | some statement =>
      simp only [Memo.statement, built]
      exact ⟨(kept statement built).symm, trivial, trivial, rfl, rfl,
        ⟨shape, found, segments, sound⟩, kept⟩
  | none =>
      obtain ⟨result, same, soundFresh⟩ := refresh_sound sound 1
      rw [segments] at result same
      have anew : Statement.anew m.plan m.query m.rootQuery m.batch =
          (refresh (Segment.render shape m.rootQuery m.batch) 1 m.slots).result.bind
            fun fragment => .ok (.ofFragment fragment) := by
        rw [result, Statement.anew, found, Result.ok_bind]
        rfl
      cases rendered : (refresh (Segment.render shape m.rootQuery m.batch) 1 m.slots).result with
      | error e =>
          simp only [Memo.statement, built, found, anew, rendered]
          exact ⟨rfl, trivial, trivial, rfl, rfl, ⟨shape, found, same, soundFresh⟩, nofun⟩
      | ok fragment =>
          simp only [Memo.statement, built, found, anew, rendered]
          refine ⟨rfl, trivial, trivial, rfl, rfl, ⟨shape, found, same, soundFresh⟩, ?_⟩
          rintro _ ⟨⟩
          rw [anew, rendered]
          rfl

/-- Giving other values to the root's query and the batch keeps a memo coherent if every segment that
says something else with them is forgotten. -/
theorem Coherent.invalidate {plan : Plan} {query : Nat} {m : Memo} (coherent : m.Coherent plan query)
    {rootQuery : Query} {batch : List Value} {stale : List Segment}
    (rest : ∀ shape segment, segment ∉ stale →
      Segment.render shape rootQuery batch segment = Segment.render shape m.rootQuery m.batch segment) :
    ({ m with rootQuery := rootQuery, batch := batch }.invalidate stale).Coherent plan query := by
  obtain ⟨rfl, rfl, ⟨shape, found, segments, sound⟩, _⟩ := coherent
  refine ⟨rfl, rfl, ⟨shape, found, ?_, ?_⟩, nofun⟩
  · rw [← segments, Memo.invalidate, List.map_map]
    refine List.map_congr_left fun s _ => ?_
    simp only [Function.comp_apply]
    split <;> rfl
  · intro s member
    obtain ⟨old, known, rfl⟩ := List.mem_map.mp member
    by_cases forgotten : stale.contains old.segment = true
    · rw [if_pos forgotten]
      exact nofun
    · rw [if_neg forgotten]
      intro kept held
      rw [Memo.invalidate, rest shape old.segment (by simpa using forgotten)]
      exact sound old known kept held

theorem Coherent.setBatch {plan : Plan} {query : Nat} {m : Memo} (coherent : m.Coherent plan query)
    (batch : List Value) : (m.setBatch batch).Coherent plan query := by
  unfold Memo.setBatch
  split
  · exact coherent
  · refine coherent.invalidate fun shape segment fresh => ?_
    cases segment with
    | linkedKey => exact absurd (List.mem_singleton_self _) fresh
    | _ => rfl

/-- An accepted query that is equal to the one before changes nothing. -/
theorem setQuery_eq {m next : Memo} {query : Query} (accepted : m.setQuery query = .ok next) :
    next = if query == m.rootQuery then m
      else { m with rootQuery := query }.invalidate
        [.filter, .orderBy, .pagination, .linkedKey] := by
  simp only [Memo.setQuery] at accepted
  obtain ⟨root, _, accepted⟩ := Result.bind_eq_ok.mp accepted
  obtain ⟨_, _, accepted⟩ := Result.bind_eq_ok.mp accepted
  split at accepted
  · cases accepted
  · exact (Result.pure_eq_ok.mp accepted).symm

/-- An accepted query was checked for the root of the statement, whether or not it is a new one. -/
theorem setQuery_cases {m next : Memo} {query : Query} (accepted : m.setQuery query = .ok next) :
    (∃ root, m.plan.queryRoot m.query = .ok root ∧
        query.check root.format root.plural root.path = .ok ()) ∧
      (next = m ∨ next = { m with rootQuery := query }.invalidate
        [.filter, .orderBy, .pagination, .linkedKey]) := by
  have changed := setQuery_eq accepted
  obtain ⟨root, opened, rest⟩ := Result.bind_eq_ok.mp accepted
  obtain ⟨_, checked, _⟩ := Result.bind_eq_ok.mp rest
  refine ⟨⟨root, opened, checked⟩, ?_⟩
  rw [changed]
  split
  · exact .inl rfl
  · exact .inr rfl

theorem setQuery_rootQuery {m next : Memo} {query : Query} (accepted : m.setQuery query = .ok next) :
    next.rootQuery = if query == m.rootQuery then m.rootQuery else query := by
  rw [setQuery_eq accepted]
  split <;> rfl

theorem setQuery_batch {m next : Memo} {query : Query} (accepted : m.setQuery query = .ok next) :
    next.batch = m.batch := by
  rcases (setQuery_cases accepted).2 with rfl | rfl <;> rfl

theorem Coherent.setQuery {plan : Plan} {query : Nat} {m next : Memo} {rootQuery : Query}
    (coherent : m.Coherent plan query) (accepted : m.setQuery rootQuery = .ok next) :
    next.Coherent plan query := by
  rcases (setQuery_cases accepted).2 with rfl | rfl
  · exact coherent
  · refine coherent.invalidate fun shape segment fresh => ?_
    cases segment with
    | head => rfl
    | joins => rfl
    | lateralClose => rfl
    | _ => exact absurd (by decide) fresh

theorem Coherent.step {plan : Plan} {query : Nat} {m : Memo} (coherent : m.Coherent plan query)
    (call : Call) : (m.step call).Coherent plan query := by
  have change : ∀ rootQuery, ((m.setQuery rootQuery).toOption.getD m).Coherent plan query := by
    intro rootQuery
    cases accepted : m.setQuery rootQuery with
    | error e => exact coherent
    | ok next => exact coherent.setQuery accepted
  cases call with
  | setBatch batch => exact coherent.setBatch batch
  | setFilter filter =>
      rw [step_setFilter]
      exact change _
  | setQuery rootQuery =>
      rw [step_setQuery]
      exact change rootQuery
  | statement =>
      rw [step_statement]
      exact coherent.statement.2.2.2

theorem Coherent.after {plan : Plan} {query : Nat} {m : Memo} (coherent : m.Coherent plan query)
    (calls : List Call) : (m.after calls).Coherent plan query := by
  induction calls generalizing m with
  | nil => exact coherent
  | cons call rest ih => exact ih (coherent.step call)

theorem after_append (m : Memo) (calls more : List Call) :
    m.after (calls ++ more) = (m.after calls).after more := List.foldl_append

theorem after_concat_statement (m : Memo) (calls : List Call) :
    m.after (calls ++ [.statement]) = (m.after calls).statement.2 :=
  (after_append m calls [.statement]).trans (m.after calls).step_statement

/-- A call leaves a memo as it is, puts another batch or another query that was checked in its place, or
gives its statement. -/
theorem step_cases (m : Memo) (call : Call) :
    m.step call = m ∨
      (∃ batch, m.step call = { m with batch := batch }.invalidate [.linkedKey]) ∨
      (∃ query root, m.plan.queryRoot m.query = .ok root ∧
        query.check root.format root.plural root.path = .ok () ∧
        m.step call = { m with rootQuery := query }.invalidate
          [.filter, .orderBy, .pagination, .linkedKey]) ∨
      m.step call = m.statement.2 := by
  have change : ∀ query, (m.setQuery query).toOption.getD m = m ∨ ∃ root,
      m.plan.queryRoot m.query = .ok root ∧
        query.check root.format root.plural root.path = .ok () ∧
        (m.setQuery query).toOption.getD m = { m with rootQuery := query }.invalidate
          [.filter, .orderBy, .pagination, .linkedKey] := by
    intro query
    cases accepted : m.setQuery query with
    | error e => exact .inl rfl
    | ok next =>
        obtain ⟨⟨root, opened, checked⟩, kept | replaced⟩ := setQuery_cases accepted
        · exact .inl kept
        · exact .inr ⟨root, opened, checked, replaced⟩
  cases call with
  | setBatch batch =>
      rw [step_setBatch, setBatch]
      split
      · exact .inl rfl
      · exact .inr (.inl ⟨batch, rfl⟩)
  | setFilter filter =>
      rw [step_setFilter]
      exact (change _).imp_right fun changed => .inr (.inl ⟨_, changed⟩)
  | setQuery query =>
      rw [step_setQuery]
      exact (change query).imp_right fun changed => .inr (.inl ⟨query, changed⟩)
  | statement =>
      rw [step_statement]
      exact .inr (.inr (.inr rfl))

theorem statement_lateral (m : Memo) : m.statement.2.lateral = m.lateral := by
  unfold statement
  split
  · rfl
  · split
    · rfl
    · simp only
      split <;> rfl

theorem step_lateral (m : Memo) (call : Call) : (m.step call).lateral = m.lateral := by
  rcases m.step_cases call with same | ⟨batch, same⟩ | ⟨query, _, _, _, same⟩ | same
  · rw [same]
  · rw [same]
    rfl
  · rw [same]
    rfl
  · rw [same]
    exact m.statement_lateral

theorem after_lateral (m : Memo) (calls : List Call) : (m.after calls).lateral = m.lateral := by
  induction calls generalizing m with
  | nil => rfl
  | cons call rest ih => exact (ih (m.step call)).trans (m.step_lateral call)

theorem step_of_refuses {m : Memo} {call : Call} (refused : m.Refuses call) : m.step call = m := by
  cases call with
  | setBatch batch => exact refused.elim
  | setFilter filter =>
      obtain ⟨e, refused⟩ := refused
      rw [step_setFilter, refused]
      rfl
  | setQuery query =>
      obtain ⟨e, refused⟩ := refused
      rw [step_setQuery, refused]
      rfl
  | statement => exact refused.elim

/-- After any calls on a new memo its statement is the one rendered anew for its root's query and its
batch, failures included, and a change that is refused might as well not have been asked for. -/
theorem statement_after {plan : Plan} {query : Nat} {m : Memo} (fresh : ofPlan plan query = .ok m)
    (calls : List Call) :
    (m.after calls).statement.1 =
        Statement.anew plan query (m.after calls).rootQuery (m.after calls).batch ∧
      ∀ change, (m.after calls).Refuses change →
        ∀ more, m.after (calls ++ change :: more) = m.after (calls ++ more) := by
  refine ⟨((coherent_ofPlan fresh).after calls).statement.1, ?_⟩
  intro change refused more
  rw [after_append, after_append]
  exact congrArg (Memo.after · more) (step_of_refuses refused)

/-- Users, each with the first ten of their articles. -/
def firstArticles : Request :=
  ⟨some ["name"], [("articles", ⟨none, [], ⟨none, [], none, some 10⟩⟩)], .empty⟩

/-- The statement of a page for each user stays paged: after a failure, a batch and a statement, a query
without pages is refused, and the next statement is the same as before. -/
theorem statement_after_firstArticles : ∃ plan m,
    Plan.build Schema.blog.catalog "user" true firstArticles = .ok plan ∧
      ofPlan plan 1 = .ok m ∧
      let calls := [.statement, .setBatch [.int 1], .statement]
      (m.after calls).Refuses (.setQuery .empty) ∧
        (m.after calls).statement.1 =
          Statement.anew plan 1 (m.after calls).rootQuery (m.after calls).batch ∧
        m.after (calls ++ .setQuery .empty :: [.statement]) = m.after (calls ++ [.statement]) := by
  have some : ∃ plan m, Plan.build Schema.blog.catalog "user" true firstArticles = .ok plan ∧
      ofPlan plan 1 = .ok m ∧
      (m.after [.statement, .setBatch [.int 1], .statement]).Refuses (.setQuery .empty) :=
    ⟨_, _, rfl, rfl, ⟨_, rfl⟩⟩
  obtain ⟨plan, m, built, fresh, refused⟩ := some
  have law := statement_after fresh [.statement, .setBatch [.int 1], .statement]
  exact ⟨plan, m, built, fresh, refused, law.1, law.2 _ refused _⟩

end Memo
end NestedQuery.Sql
