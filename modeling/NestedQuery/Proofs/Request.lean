/- Requests as trees: the requests below a request, and that each relation is named at most once. -/
import NestedQuery.Request.Basic

namespace NestedQuery

namespace Request

mutual

/-- The requests of a tree, each before those of its relations. -/
def preorder : Request → List Request
  | ⟨fields, relations, query⟩ => ⟨fields, relations, query⟩ :: preorderOfRelations relations

def preorderOfRelations : List (String × Request) → List Request
  | [] => []
  | (_, request) :: rest => preorder request ++ preorderOfRelations rest

end

mutual

/-- No relation is requested twice at one node. -/
def NamesOnce : Request → Prop
  | ⟨_, relations, _⟩ => (relations.map (·.1)).Nodup ∧ NamesOnceBelow relations

def NamesOnceBelow : List (String × Request) → Prop
  | [] => True
  | (_, request) :: rest => NamesOnce request ∧ NamesOnceBelow rest

end

theorem NamesOnceBelow.of_mem {relations : List (String × Request)}
    (once : NamesOnceBelow relations) {r : String × Request} (member : r ∈ relations) :
    r.2.NamesOnce := by
  induction relations with
  | nil => cases member
  | cons first rest ih =>
      obtain ⟨head, tail⟩ := once
      rcases List.mem_cons.mp member with rfl | later
      · exact head
      · exact ih tail later

theorem NamesOnce.below {request : Request} (once : request.NamesOnce) :
    NamesOnceBelow request.relations := by
  obtain ⟨fields, relations, query⟩ := request
  exact once.2

theorem preorder_inj {r s : Request} (same : r.preorder = s.preorder) : r = s := by
  obtain ⟨_, _, _⟩ := r
  obtain ⟨_, _, _⟩ := s
  exact (List.cons.inj same).1

/-- Naming a relation again puts the new request at the place of the old one. -/
theorem names_insertRelation (name : String) (request : Request)
    (relations : List (String × Request)) :
    (insertRelation name request relations).map (·.1) =
      if name ∈ relations.map (·.1) then relations.map (·.1) else relations.map (·.1) ++ [name] := by
  induction relations with
  | nil => rfl
  | cons first rest ih =>
      obtain ⟨n, r⟩ := first
      rw [insertRelation]
      by_cases here : n = name
      · subst here
        simp
      · rw [if_neg here, List.map_cons, ih]
        by_cases later : name ∈ rest.map (·.1)
        · simp [later]
        · simp [later, Ne.symm here]

theorem nodup_insertRelation {relations : List (String × Request)}
    (once : (relations.map (·.1)).Nodup) (name : String) (request : Request) :
    ((insertRelation name request relations).map (·.1)).Nodup := by
  rw [names_insertRelation]
  split
  · exact once
  · next absent =>
      refine List.nodup_append.mpr ⟨once, List.pairwise_singleton .., ?_⟩
      intro a old b new same
      rw [List.mem_singleton.mp new] at same
      exact absent (same ▸ old)

theorem NamesOnceBelow.insertRelation {relations : List (String × Request)}
    (once : NamesOnceBelow relations) {request : Request} (new : request.NamesOnce) (name : String) :
    NamesOnceBelow (insertRelation name request relations) := by
  induction relations with
  | nil => exact ⟨new, trivial⟩
  | cons first rest ih =>
      obtain ⟨n, r⟩ := first
      obtain ⟨head, tail⟩ := once
      rw [Request.insertRelation]
      split
      · exact ⟨new, tail⟩
      · exact ⟨head, ih tail⟩

theorem foldlM_invariant {α β : Type} {step : β → α → Option β} (holds : β → Prop)
    (kept : ∀ b a next, holds b → step b a = some next → holds next) {xs : List α} {start last : β}
    (first : holds start) (done : xs.foldlM step start = some last) : holds last := by
  induction xs generalizing start with
  | nil =>
      cases done
      exact first
  | cons x rest ih =>
      rw [List.foldlM_cons] at done
      obtain ⟨next, stepped, done⟩ := Option.bind_eq_some_iff.mp done
      exact ih (kept start x next first stepped) done

theorem once_relationsOf? {room : Nat} {read : Document → Option Request}
    (below : ∀ d r, read d = some r → r.NamesOnce) {d : Option Document}
    {relations : List (String × Request)} (given : relationsOf? room read d = some relations) :
    (relations.map (·.1)).Nodup ∧ NamesOnceBelow relations := by
  have empty : (([] : List (String × Request)).map (·.1)).Nodup ∧ NamesOnceBelow [] :=
    ⟨List.nodup_nil, trivial⟩
  unfold relationsOf? at given
  split at given
  · cases given
    exact empty
  · split at given
    · cases given
    · refine foldlM_invariant (fun done => (done.map (·.1)).Nodup ∧ NamesOnceBelow done) ?_ empty given
      rintro done ⟨label, value⟩ next ⟨names, once⟩ stepped
      obtain ⟨name, _, stepped⟩ := Option.bind_eq_some_iff.mp stepped
      obtain ⟨request, readValue, stepped⟩ := Option.bind_eq_some_iff.mp stepped
      cases stepped
      exact ⟨nodup_insertRelation names name request,
        once.insertRelation (below value request readValue) name⟩
  · cases given

theorem namesOnce_ofRecord? {room : Nat} {read : Document → Option Request}
    (below : ∀ d r, read d = some r → r.NamesOnce) {d : Document} {request : Request}
    (given : ofRecord? room read d = some request) : request.NamesOnce := by
  obtain ⟨parts, _, given⟩ := Option.bind_eq_some_iff.mp given
  split at given
  · obtain ⟨fields, _, given⟩ := Option.bind_eq_some_iff.mp given
    obtain ⟨relations, named, given⟩ := Option.bind_eq_some_iff.mp given
    obtain ⟨query, _, given⟩ := Option.bind_eq_some_iff.mp given
    cases given
    exact once_relationsOf? below named
  · cases given

/-- A request that was read names each relation at most once, at all depths. -/
theorem namesOnce_ofDocument? : ∀ (room : Nat) (d : Document) (request : Request),
    ofDocument? room d = some request → request.NamesOnce
  | 0, d, request, given => by cases given
  | 1, d, request, given => by
      rw [ofDocument?] at given
      exact namesOnce_ofRecord? (fun _ _ none => by cases none) given
  | inner + 2, d, request, given => by
      rw [ofDocument?] at given
      exact namesOnce_ofRecord? (namesOnce_ofDocument? inner) given

theorem namesOnce_parse {text : String} {request : Request} (given : parse text = .ok request) :
    request.NamesOnce := by
  unfold parse at given
  split at given
  · next r read =>
      obtain rfl := Except.ok.inj given
      obtain ⟨d, _, found⟩ := Option.bind_eq_some_iff.mp read
      exact namesOnce_ofDocument? Document.depthLimit d r found
  · cases given

end Request
end NestedQuery
