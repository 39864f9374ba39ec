/- Steps of computations that may be refused, taken apart at their results. -/
import NestedQuery.Error

namespace NestedQuery.Result

variable {α β : Type u}

theorem bind_eq_ok {x : Result α} {f : α → Result β} {b : β} :
    (x >>= f) = .ok b ↔ ∃ a, x = .ok a ∧ f a = .ok b := by
  cases x with
  | error e => exact ⟨nofun, fun ⟨_, h, _⟩ => nomatch h⟩
  | ok a => exact ⟨fun h => ⟨a, rfl, h⟩, fun ⟨_, h, hf⟩ => by cases h; exact hf⟩

@[simp] theorem ok_bind (a : α) (f : α → Result β) : (Except.ok a >>= f) = f a := rfl

@[simp] theorem error_bind (e : QueryError) (f : α → Result β) :
    (Except.error e >>= f) = .error e := rfl

@[simp] theorem refuse_bind (fault : ConfigurationFault) (f : α → Result β) :
    (refuse fault >>= f) = refuse fault := rfl

theorem map_eq_ok {x : Result α} {f : α → β} {b : β} :
    x.map f = .ok b ↔ ∃ a, x = .ok a ∧ f a = b := by
  cases x with
  | error e => exact ⟨nofun, fun ⟨_, h, _⟩ => nomatch h⟩
  | ok a =>
      constructor
      · intro h
        exact ⟨a, rfl, Except.ok.inj h⟩
      · rintro ⟨_, h, rfl⟩
        cases h
        rfl

@[simp] theorem pure_eq_ok {a b : α} : (pure a : Result α) = .ok b ↔ a = b :=
  ⟨fun h => Except.ok.inj h, fun h => congrArg Except.ok h⟩

@[simp] theorem refuse_ne_ok {fault : ConfigurationFault} {a : α} :
    (refuse fault : Result α) ≠ .ok a := nofun

theorem mapError_eq_ok {ε : Type} {x : Except ε α} {f : ε → QueryError} {a : α} :
    (x.mapError f : Result α) = .ok a ↔ x = .ok a := by
  cases x with
  | error e => exact ⟨nofun, nofun⟩
  | ok b => exact ⟨fun h => congrArg Except.ok (Except.ok.inj h), fun h => by cases h; rfl⟩

theorem forM_eq_ok {xs : List α} {f : α → Result PUnit} :
    xs.forM f = .ok ⟨⟩ ↔ ∀ x ∈ xs, f x = .ok ⟨⟩ := by
  induction xs with
  | nil => exact ⟨fun _ => nofun, fun _ => rfl⟩
  | cons x rest ih =>
      rw [List.forall_mem_cons, ← ih]
      exact bind_eq_ok.trans ⟨fun ⟨_, head, tail⟩ => ⟨head, tail⟩,
        fun ⟨head, tail⟩ => ⟨_, head, tail⟩⟩

/-- A fold whose steps all succeed is a plain fold. -/
theorem foldlM_eq_ok {xs : List α} {f : β → α → Result β} {g : β → α → β}
    (steps : ∀ x ∈ xs, ∀ state, f state x = .ok (g state x)) (start : β) :
    xs.foldlM f start = .ok (xs.foldl g start) := by
  induction xs generalizing start with
  | nil => rfl
  | cons x rest ih =>
      obtain ⟨first, later⟩ := List.forall_mem_cons.mp steps
      rw [List.foldlM_cons, first, ok_bind, ih later, List.foldl_cons]

theorem mapM_eq_ok {xs : List α} {f : α → Result β} {g : α → β}
    (steps : ∀ x ∈ xs, f x = .ok (g x)) : xs.mapM f = .ok (xs.map g) := by
  induction xs with
  | nil => rfl
  | cons x rest ih =>
      obtain ⟨first, later⟩ := List.forall_mem_cons.mp steps
      rw [List.mapM_cons, first, ok_bind, ih later]
      rfl

theorem mapM_getElem? {xs : List α} {f : α → Result β} {ys : List β} (done : xs.mapM f = .ok ys) :
    ys.length = xs.length ∧
      ∀ (i : Nat) x, xs[i]? = some x → ∃ y, ys[i]? = some y ∧ f x = .ok y := by
  induction xs generalizing ys with
  | nil =>
      cases done
      exact ⟨rfl, nofun⟩
  | cons x rest ih =>
      rw [List.mapM_cons] at done
      obtain ⟨y, first, done⟩ := bind_eq_ok.mp done
      obtain ⟨later, others, done⟩ := bind_eq_ok.mp done
      cases done
      obtain ⟨count, each⟩ := ih others
      refine ⟨congrArg (· + 1) count, ?_⟩
      rintro (_ | i) z found
      · cases found
        exact ⟨y, rfl, first⟩
      · exact each i z found

/-- The computation is not refused. -/
def Succeeds (x : Result α) : Prop := ∃ a, x = .ok a

theorem Succeeds.ok (a : α) : Succeeds (.ok a) := ⟨a, rfl⟩

theorem Succeeds.bind {x : Result α} {f : α → Result β} (first : Succeeds x)
    (later : ∀ a, x = .ok a → Succeeds (f a)) : Succeeds (x >>= f) := by
  obtain ⟨a, same⟩ := first
  rw [same]
  exact later a same

theorem Succeeds.mapM {xs : List α} {f : α → Result β} (steps : ∀ x ∈ xs, Succeeds (f x)) :
    Succeeds (xs.mapM f) := by
  induction xs with
  | nil => exact .ok []
  | cons x rest ih =>
      obtain ⟨head, tail⟩ := List.forall_mem_cons.mp steps
      rw [List.mapM_cons]
      apply head.bind
      intro b _
      apply (ih tail).bind
      intro bs _
      exact .ok (b :: bs)

section Like

variable {α β γ δ : Type} {R : α → β → Prop} {S : γ → δ → Prop}

/-- Both fail with one error, or succeed with results that are related. -/
inductive Like (R : α → β → Prop) : Result α → Result β → Prop
  | error (error : QueryError) : Like R (.error error) (.error error)
  | ok {a : α} {b : β} (related : R a b) : Like R (.ok a) (.ok b)

theorem Like.bind {x : Result α} {y : Result β} {f : α → Result γ} {g : β → Result δ}
    (first : Like R x y) (later : ∀ a b, R a b → Like S (f a) (g b)) :
    Like S (x >>= f) (y >>= g) := by
  cases first with
  | error error => exact .error error
  | ok related => exact later _ _ related

theorem Like.imp {S : α → β → Prop} {x : Result α} {y : Result β} (like : Like R x y)
    (weaker : ∀ a b, R a b → S a b) : Like S x y := by
  cases like with
  | error error => exact .error error
  | ok related => exact .ok (weaker _ _ related)

theorem Like.bind_same {x : Result α} {f : α → Result γ} {g : α → Result δ}
    (later : ∀ a, Like S (f a) (g a)) : Like S (x >>= f) (x >>= g) := by
  cases x with
  | error error => exact .error error
  | ok a => exact later a

end Like

end NestedQuery.Result
